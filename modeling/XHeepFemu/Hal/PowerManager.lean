import XHeepFemu.Lib.Mmio
import XHeepFemu.Hw.MemMap

/-!
# Power domains

`power_gate_periph` and `power_gate_ram_block` of
`lib/hal/power_manager/power_manager.c`, over registers named by their offset. A
domain that is switched off must have its outputs isolated: `Isolated` holds between
any two register writes, because switching on ends with the isolation and switching
off starts with it.
-/

namespace XHeepFemu.Hal

open Lib (Io Device Sys Reach follow reach_of_follow)

/-- `power_manager_sel_state_t`. -/
inductive PowerManagerSelState where
  | kOn
  | kOff
  | kRetOn
  | kRetOff
  deriving DecidableEq, Repr

structure PowerManagerCounters where
  resetOff : Word
  resetOn : Word
  switchOff : Word
  switchOn : Word
  isoOff : Word
  isoOn : Word
  retentiveOff : Word
  retentiveOn : Word
  deriving DecidableEq, Repr

inductive PowerManagerResult where
  | kPowerManagerOk
  deriving DecidableEq, Repr

structure PowerManagerRamMap where
  clkGate : Word
  powerGateAck : Word
  switchOff : Word
  waitAckSwitch : Word
  iso : Word
  retentive : Word
  monitorPowerGate : Word
  deriving DecidableEq, Repr

/-- `MEMORY_BANKS` blocks. -/
abbrev RamBlock := Fin 2

/-- `power_manager_ram_map`. -/
def powerManagerRamMap : RamBlock → PowerManagerRamMap
  | 0 => ⟨0x50, 0x54, 0x58, 0x5c, 0x60, 0x64, 0x88⟩
  | 1 => ⟨0x68, 0x6c, 0x70, 0x74, 0x78, 0x7c, 0x8c⟩

def powerManagerPowerGatePeriphAck : Word := 0x38
def powerManagerPeriphReset : Word := 0x3c
def powerManagerPeriphSwitch : Word := 0x40
def powerManagerPeriphWaitAckSwitchOn : Word := 0x44
def powerManagerPeriphIso : Word := 0x48
def powerManagerPeriphClkGate : Word := 0x4c
def powerManagerMonitorPowerGatePeriph : Word := 0x84

abbrev PmIo := Io Word Word

/-- `for (int i=0; i<n; i++) asm volatile ("nop\n;")`: it only takes time. -/
def nops (_n : Word) : PmIo Unit := pure ()

section Driver

-- compiled with `TARGET_PYNQ_Z2`
variable (targetPynqZ2 : Bool)

/-- What switching on waits for. -/
def waitAck : Word := if targetPynqZ2 then 0 else 1

def powerGatePeriph (selState : PowerManagerSelState) (periphCounters : PowerManagerCounters) :
    PmIo PowerManagerResult := do
  Io.store powerManagerPeriphWaitAckSwitchOn (waitAck targetPynqZ2)
  if selState = .kOn then do
    nops periphCounters.switchOn
    Io.store powerManagerPeriphSwitch 0
    nops periphCounters.isoOff
    Io.store powerManagerPeriphIso 0
    nops periphCounters.resetOff
    Io.store powerManagerPeriphReset 0
    pure .kPowerManagerOk
  else do
    nops periphCounters.isoOn
    Io.store powerManagerPeriphIso 1
    nops periphCounters.switchOff
    Io.store powerManagerPeriphSwitch 1
    nops periphCounters.resetOn
    Io.store powerManagerPeriphReset 1
    pure .kPowerManagerOk

def powerGateRamBlock (selBlock : RamBlock) (selState : PowerManagerSelState)
    (ramBlockCounters : PowerManagerCounters) : PmIo PowerManagerResult :=
  let map := powerManagerRamMap selBlock
  match selState with
  | .kOn => do
    Io.store map.waitAckSwitch (waitAck targetPynqZ2)
    nops ramBlockCounters.switchOn
    Io.store map.switchOff 0
    nops ramBlockCounters.isoOff
    Io.store map.iso 0
    pure .kPowerManagerOk
  | .kOff => do
    Io.store map.waitAckSwitch (waitAck targetPynqZ2)
    nops ramBlockCounters.isoOn
    Io.store map.iso 1
    nops ramBlockCounters.switchOff
    Io.store map.switchOff 1
    pure .kPowerManagerOk
  | .kRetOn => do
    Io.store map.waitAckSwitch 0
    nops ramBlockCounters.retentiveOn
    Io.store map.retentive 1
    pure .kPowerManagerOk
  | .kRetOff => do
    Io.store map.waitAckSwitch 0
    nops ramBlockCounters.retentiveOff
    Io.store map.retentive 0
    pure .kPowerManagerOk

/-- The calls that move a power domain. -/
inductive PowerCall where
  | powerGatePeriph (selState : PowerManagerSelState) (counters : PowerManagerCounters)
  | powerGateRamBlock (selBlock : RamBlock) (selState : PowerManagerSelState)
      (counters : PowerManagerCounters)
  deriving DecidableEq, Repr

def PowerCall.io : PowerCall → PmIo PowerManagerResult
  | .powerGatePeriph selState counters => Hal.powerGatePeriph targetPynqZ2 selState counters
  | .powerGateRamBlock selBlock selState counters =>
    Hal.powerGateRamBlock targetPynqZ2 selBlock selState counters

end Driver

/-! ## The registers -/

/-- Contents of the registers of the power manager. -/
abbrev PmRegs := Word → Word

def PmRegs.set (d : PmRegs) (r v : Word) : PmRegs := fun r' => if r' = r then v else d r'

theorem PmRegs.set_self (d : PmRegs) (r v : Word) : d.set r v r = v := if_pos rfl

theorem PmRegs.set_other (d : PmRegs) {r r' : Word} (v : Word) (h : r' ≠ r) :
    d.set r v r' = d r' :=
  if_neg h

/-- The power manager as plain registers. -/
def powerManager : Device Word Word PmRegs Empty where
  read d r := (d, d r)
  write := PmRegs.set
  env _ _ := none

/-- The domains software can switch. -/
inductive Domain where
  | periph
  | ram (b : RamBlock)
  deriving DecidableEq, Repr

namespace Domain

def switch : Domain → Word
  | periph => powerManagerPeriphSwitch
  | ram b => (powerManagerRamMap b).switchOff

def iso : Domain → Word
  | periph => powerManagerPeriphIso
  | ram b => (powerManagerRamMap b).iso

/-- All registers of a domain. -/
def registers : Domain → List Word
  | periph => [powerManagerPowerGatePeriphAck, powerManagerPeriphReset, powerManagerPeriphSwitch,
      powerManagerPeriphWaitAckSwitchOn, powerManagerPeriphIso, powerManagerPeriphClkGate,
      powerManagerMonitorPowerGatePeriph]
  | ram b =>
    let map := powerManagerRamMap b
    [map.clkGate, map.powerGateAck, map.switchOff, map.waitAckSwitch, map.iso, map.retentive,
      map.monitorPowerGate]

end Domain

/-- SWITCH, ISO, RESET and RETENTIVE are zero. -/
structure AtReset (d : PmRegs) : Prop where
  switch : ∀ dom : Domain, d dom.switch = 0
  iso : ∀ dom : Domain, d dom.iso = 0
  reset : d powerManagerPeriphReset = 0
  retentive : ∀ b, d (powerManagerRamMap b).retentive = 0

/-- Every domain that is switched off has its outputs isolated. -/
def Isolated (d : PmRegs) : Prop := ∀ dom : Domain, d dom.switch = 1 → d dom.iso = 1

/-! ## Single writes -/

/-- The registers of different domains are different. -/
theorem registers_disjoint {dom dom' : Domain} (h : dom ≠ dom') :
    ∀ r ∈ dom.registers, r ∉ dom'.registers := by
  have apart : ∀ r ∈ dom.registers, (!dom'.registers.contains r) = true := by
    refine List.all_eq_true.mp ?_
    rcases dom with _ | b <;> rcases dom' with _ | b'
    · exact absurd rfl h
    · match b' with
      | 0 => rfl
      | 1 => rfl
    · match b with
      | 0 => rfl
      | 1 => rfl
    · match b, b' with
      | 0, 0 | 1, 1 => exact absurd rfl h
      | 0, 1 => rfl
      | 1, 0 => rfl
  intro r hr hr'
  have := apart r hr
  rw [List.contains_iff_mem.mpr hr'] at this
  cases this

theorem same_domain {dom dom' : Domain} {r : Word} (h : r ∈ dom.registers)
    (h' : r ∈ dom'.registers) : dom = dom' :=
  Decidable.byContradiction fun hne => registers_disjoint hne r h h'

theorem switch_mem (dom : Domain) : dom.switch ∈ dom.registers := by
  cases dom <;> simp [Domain.switch, Domain.registers]

theorem iso_mem (dom : Domain) : dom.iso ∈ dom.registers := by
  cases dom <;> simp [Domain.iso, Domain.registers]

theorem switch_inj {dom dom' : Domain} (h : dom.switch = dom'.switch) : dom = dom' :=
  same_domain (switch_mem dom) (h ▸ switch_mem dom')

theorem iso_inj {dom dom' : Domain} (h : dom.iso = dom'.iso) : dom = dom' :=
  same_domain (iso_mem dom) (h ▸ iso_mem dom')

theorem switch_ne_iso (dom dom' : Domain) : dom.switch ≠ dom'.iso := by
  intro h
  obtain rfl : dom = dom' := same_domain (switch_mem dom) (h ▸ iso_mem dom')
  revert h
  match dom with
  | .periph | .ram 0 | .ram 1 => decide

/-- The register is no SWITCH and no ISO. -/
def Plain (r : Word) : Prop := ∀ dom : Domain, r ≠ dom.switch ∧ r ≠ dom.iso

theorem plain_of_mem {dom : Domain} {r : Word} (h : r ∈ dom.registers) (hswitch : r ≠ dom.switch)
    (hiso : r ≠ dom.iso) : Plain r := by
  refine fun dom' => ⟨?_, ?_⟩
  · rintro rfl
    exact hswitch (congrArg Domain.switch (same_domain (switch_mem dom') h))
  · rintro rfl
    exact hiso (congrArg Domain.iso (same_domain (iso_mem dom') h))

theorem plain_periphWaitAck : Plain powerManagerPeriphWaitAckSwitchOn :=
  plain_of_mem (show _ ∈ Domain.periph.registers by simp [Domain.registers]) (by decide) (by decide)

theorem plain_periphReset : Plain powerManagerPeriphReset :=
  plain_of_mem (show _ ∈ Domain.periph.registers by simp [Domain.registers]) (by decide) (by decide)

theorem waitAck_mem (b : RamBlock) :
    (powerManagerRamMap b).waitAckSwitch ∈ (Domain.ram b).registers := by
  simp [Domain.registers]

theorem retentive_mem (b : RamBlock) :
    (powerManagerRamMap b).retentive ∈ (Domain.ram b).registers := by
  simp [Domain.registers]

theorem plain_waitAck (b : RamBlock) : Plain (powerManagerRamMap b).waitAckSwitch := by
  refine plain_of_mem (waitAck_mem b) ?_ ?_
  · revert b
    decide
  · revert b
    decide

theorem plain_retentive (b : RamBlock) : Plain (powerManagerRamMap b).retentive := by
  refine plain_of_mem (retentive_mem b) ?_ ?_
  · revert b
    decide
  · revert b
    decide

theorem Isolated.plain {d : PmRegs} (h : Isolated d) {r : Word} (v : Word) (hr : Plain r) :
    Isolated (d.set r v) := by
  intro dom hswitch
  rw [d.set_other v (hr dom).1.symm] at hswitch
  rw [d.set_other v (hr dom).2.symm]
  exact h dom hswitch

theorem Isolated.isolate {d : PmRegs} (h : Isolated d) (dom : Domain) :
    Isolated (d.set dom.iso 1) := by
  intro dom' hswitch
  rw [d.set_other 1 (switch_ne_iso dom' dom)] at hswitch
  by_cases he : dom'.iso = dom.iso
  · rw [he, d.set_self]
  · rw [d.set_other 1 he]
    exact h dom' hswitch

/-- Switching off an isolated domain. -/
theorem Isolated.switchOff {d : PmRegs} (h : Isolated d) {dom : Domain} (hiso : d dom.iso = 1) :
    Isolated (d.set dom.switch 1) := by
  intro dom' hswitch
  rw [d.set_other 1 (switch_ne_iso dom dom').symm]
  by_cases he : dom' = dom
  · rw [he, hiso]
  · rw [d.set_other 1 fun e => he (switch_inj e)] at hswitch
    exact h dom' hswitch

theorem Isolated.switchOn {d : PmRegs} (h : Isolated d) (dom : Domain) :
    Isolated (d.set dom.switch 0) := by
  intro dom' hswitch
  rw [d.set_other 0 (switch_ne_iso dom dom').symm]
  by_cases he : dom'.switch = dom.switch
  · rw [he, d.set_self] at hswitch
    exact absurd hswitch (by decide)
  · rw [d.set_other 0 he] at hswitch
    exact h dom' hswitch

/-- Connecting a domain that is switched on. -/
theorem Isolated.connect {d : PmRegs} (h : Isolated d) {dom : Domain} (hon : d dom.switch = 0) :
    Isolated (d.set dom.iso 0) := by
  intro dom' hswitch
  rw [d.set_other 0 (switch_ne_iso dom' dom)] at hswitch
  by_cases he : dom'.iso = dom.iso
  · rw [iso_inj he, hon] at hswitch
    exact absurd hswitch (by decide)
  · rw [d.set_other 0 he]
    exact h dom' hswitch

/-! ## Whole calls -/

/-- No write of a call leaves a domain switched off and connected. -/
theorem always_isolated (targetPynqZ2 : Bool) (d : PmRegs) (call : PowerCall) (h : Isolated d) :
    powerManager.Always Isolated d (call.io targetPynqZ2) := by
  rcases call with ⟨selState, counters⟩ | ⟨b, selState, counters⟩
  · have h₀ := h.plain (waitAck targetPynqZ2) plain_periphWaitAck
    have on := h₀.switchOn .periph
    have connected := on.connect (PmRegs.set_self _ _ _)
    have isolated := h₀.isolate .periph
    have off := isolated.switchOff (PmRegs.set_self _ _ _)
    cases selState with
    | kOn => exact ⟨h₀, on, connected, connected.plain 0 plain_periphReset, trivial⟩
    | _ => exact ⟨h₀, isolated, off, off.plain 1 plain_periphReset, trivial⟩
  · cases selState with
    | kOn =>
      have h₀ := h.plain (waitAck targetPynqZ2) (plain_waitAck b)
      have on := h₀.switchOn (.ram b)
      exact ⟨h₀, on, on.connect (PmRegs.set_self _ _ _), trivial⟩
    | kOff =>
      have h₀ := h.plain (waitAck targetPynqZ2) (plain_waitAck b)
      have isolated := h₀.isolate (.ram b)
      exact ⟨h₀, isolated, isolated.switchOff (PmRegs.set_self _ _ _), trivial⟩
    | kRetOn =>
      have h₀ := h.plain 0 (plain_waitAck b)
      exact ⟨h₀, h₀.plain 1 (plain_retentive b), trivial⟩
    | kRetOff =>
      have h₀ := h.plain 0 (plain_waitAck b)
      exact ⟨h₀, h₀.plain 0 (plain_retentive b), trivial⟩

/-- A program that only writes outside of `keep` leaves it as it was. -/
theorem always_frame {α : Type} {p : PmIo α} {keep : Word → Prop} {rd : Word → Prop}
    {wr : Word → Word → Prop} {post : α → Prop} (h : p.Only rd wr post)
    (hkeep : ∀ r v, wr r v → ¬ keep r) {d₀ d : PmRegs} (hd : ∀ r, keep r → d r = d₀ r) :
    powerManager.Always (fun d' => ∀ r, keep r → d' r = d₀ r) d p := by
  induction p generalizing d with
  | ret a => trivial
  | read r k ih => exact ⟨hd, ih _ (h.2 _) hd⟩
  | write r v k ih =>
    have hd' : ∀ r', keep r' → (d.set r v) r' = d₀ r' := by
      intro r' hr'
      have hne : r' ≠ r := by
        rintro rfl
        exact hkeep _ v h.1 hr'
      rw [d.set_other v hne, hd r' hr']
    exact ⟨hd', ih h.2 hd'⟩
  | poll r ready k ih => exact ⟨rfl, hd, ih h.2 hd⟩

theorem ramBlock_only (targetPynqZ2 : Bool) (b : RamBlock) (selState : PowerManagerSelState)
    (counters : PowerManagerCounters) :
    (powerGateRamBlock targetPynqZ2 b selState counters).Only (fun _ => True)
      (fun r _ => r ∈ (Domain.ram b).registers) fun _ => True := by
  cases selState with
  | kOn => exact ⟨waitAck_mem b, switch_mem (.ram b), iso_mem (.ram b), trivial⟩
  | kOff => exact ⟨waitAck_mem b, iso_mem (.ram b), switch_mem (.ram b), trivial⟩
  | kRetOn => exact ⟨waitAck_mem b, retentive_mem b, trivial⟩
  | kRetOff => exact ⟨waitAck_mem b, retentive_mem b, trivial⟩

/-- The two calls about retention. -/
def Retains (selState : PowerManagerSelState) : Prop := selState = .kRetOn ∨ selState = .kRetOff

theorem retention_only (targetPynqZ2 : Bool) (b : RamBlock) {selState : PowerManagerSelState}
    (h : Retains selState) (counters : PowerManagerCounters) :
    (powerGateRamBlock targetPynqZ2 b selState counters).Only (fun _ => True)
      (fun r _ => Plain r) fun _ => True := by
  rcases h with rfl | rfl
  · exact ⟨plain_waitAck b, plain_retentive b, trivial⟩
  · exact ⟨plain_waitAck b, plain_retentive b, trivial⟩

/-- **Power-domain sequencing**: between any two writes of any calls, a domain that is switched
off is isolated; retention moves no SWITCH and no ISO; and a call for a RAM block moves no
register of another domain. -/
theorem power_domains_isolated (targetPynqZ2 : Bool) {d₀ : PmRegs} (h₀ : AtReset d₀) :
    (∀ s, Reach (Sys.next powerManager (PowerCall.io targetPynqZ2)) (fun _ _ => True)
      ⟨d₀, none, []⟩ s → Isolated s.dev) ∧
    (∀ b selState counters d, Retains selState →
      powerManager.Always (fun d' => ∀ r, ¬ Plain r → d' r = d r) d
        (powerGateRamBlock targetPynqZ2 b selState counters)) ∧
    (∀ b selState counters d,
      powerManager.Always
        (fun d' => ∀ r, (∃ dom, dom ≠ .ram b ∧ r ∈ Domain.registers dom) → d' r = d r) d
        (powerGateRamBlock targetPynqZ2 b selState counters)) := by
  refine ⟨fun s r => ?_, fun b selState counters d h => ?_, fun b selState counters d => ?_⟩
  · refine Sys.always _ _ (fun _ _ => rfl) (always_isolated targetPynqZ2) ?_ r
    intro dom hswitch
    rw [h₀.switch dom] at hswitch
    exact absurd hswitch (by decide)
  · exact always_frame (retention_only targetPynqZ2 b h counters)
      (fun r v hplain hnot => hnot hplain) fun _ _ => rfl
  · refine always_frame (ramBlock_only targetPynqZ2 b selState counters) ?_ fun _ _ => rfl
    rintro r v hr ⟨dom, hne, hdom⟩
    exact registers_disjoint hne r hdom hr

/-- RAM block 0 is switched off from the state at reset. -/
theorem power_domains_isolated_off :
    ∃ s, Reach (Sys.next powerManager (PowerCall.io true)) (fun _ _ => True)
        ⟨fun _ => 0, none, []⟩ s ∧
      s.dev (Domain.ram 0).switch = 1 ∧ Isolated s.dev := by
  have hreset : AtReset fun _ => 0 := ⟨fun _ => rfl, fun _ => rfl, rfl, fun _ => rfl⟩
  have hrun : follow (Sys.next powerManager (PowerCall.io true)) ⟨fun _ => 0, none, []⟩
      [.call (.powerGateRamBlock 0 .kOff ⟨0, 0, 0, 0, 0, 0, 0, 0⟩), .cpu, .cpu, .cpu] = some _ :=
    rfl
  have r : Reach (Sys.next powerManager (PowerCall.io true)) (fun _ _ => True) _ _ :=
    reach_of_follow hrun fun _ _ _ => trivial
  exact ⟨_, r, rfl, (power_domains_isolated true hreset).1 _ r⟩

end XHeepFemu.Hal
