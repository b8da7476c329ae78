import XHeepFemu.Hw.Core
import XHeepFemu.Lib.SplitCounter

/-!
# Gating the core

`power_gate_core_asm` of `lib/hal/power_manager/power_manager.c`: its assembly
blocks up to the `wfi`, and from `wakeup` to the return. Whether the `wfi` simply
returned or the core lost its power, the code from `wakeup` on is the same. The
counters are two CSRs each, and only the lower one has a slot.
-/

namespace XHeepFemu.Hal

open Hw (Core Csr Instr)
open Lib (joined joined_inj)

/-! ## The code -/

/-- `.power_manager` of `link.ld`: 256 bytes in `ram0`. -/
structure PowerManagerSection where
  /-- `__power_manager_start` -/
  start : Word
  aligned : start.toNat % 4096 = 0
  inRam0 : start.toNat + 256 ≤ ram0.top

def powerManagerStartAddress : Word := 0x20040000
def powerManagerWakeupStateRegOffset : Nat := 0x0
def powerManagerRestoreAddressRegOffset : Nat := 0x4
def powerManagerPowerGateCoreRegOffset : Nat := 0x10

/-- POWER_GATE_CORE and WAKEUP_STATE are set. -/
def requestGate : List Instr :=
  [.li .a0 powerManagerStartAddress, .li .a1 1,
    .sw .a1 powerManagerPowerGateCoreRegOffset .a0,
    .sw .a1 powerManagerWakeupStateRegOffset .a0]

/-- `sw x1, 0(a0)` to `sw x31, 124(a0)`; offset 84 is skipped. -/
def saveSlots : List (Reg × Nat) :=
  [(.ra, 0), (.sp, 4), (.gp, 8), (.tp, 12), (.t0, 16), (.t1, 20), (.t2, 24), (.s0, 28), (.s1, 32),
    (.a0, 36), (.a1, 40), (.a2, 44), (.a3, 48), (.a4, 52), (.a5, 56), (.a6, 60), (.a7, 64),
    (.s2, 68), (.s3, 72), (.s4, 76), (.s5, 80), (.s6, 88), (.s7, 92), (.s8, 96), (.s9, 100),
    (.s10, 104), (.s11, 108), (.t3, 112), (.t4, 116), (.t5, 120), (.t6, 124)]

def csrSaveSlots : List (Csr × Nat) :=
  [(.mstatus, 128), (.mie, 132), (.mtvec, 136), (.mscratch, 140), (.mepc, 144), (.mcause, 148),
    (.mtval, 152), (.mcycle, 156), (.minstret, 160)]

/-- `lw x1, 0(a0)` to `lw x31, 124(a0)`. -/
def restoreSlots : List (Reg × Nat) :=
  [(.ra, 0), (.sp, 4), (.gp, 8), (.tp, 12), (.t0, 16), (.t1, 20), (.t2, 24), (.s0, 28), (.s1, 32),
    (.a0, 36), (.a1, 40), (.a2, 44), (.a3, 48), (.a4, 52), (.a5, 56), (.a6, 60), (.a7, 64),
    (.s2, 68), (.s3, 72), (.s4, 76), (.s5, 80), (.s6, 88), (.s7, 92), (.s8, 96), (.s9, 100),
    (.s10, 104), (.s11, 108), (.t3, 112), (.t4, 116), (.t5, 120), (.t6, 124)]

def csrRestoreSlots : List (Csr × Nat) :=
  [(.mstatus, 128), (.mie, 132), (.mtvec, 136), (.mscratch, 140), (.mepc, 144), (.mcause, 148),
    (.mtval, 152), (.mcycle, 156), (.minstret, 160)]

/-- RESTORE_ADDRESS is set to the label `wakeup`. -/
def setRestoreAddress (wakeup : Word) : List Instr :=
  [.li .a0 powerManagerStartAddress, .li .a1 wakeup,
    .sw .a1 powerManagerRestoreAddressRegOffset .a0]

/-- At `wakeup` the three registers are cleared again. -/
def clearGate : List Instr :=
  [.li .a0 powerManagerStartAddress,
    .swZero powerManagerPowerGateCoreRegOffset .a0,
    .swZero powerManagerWakeupStateRegOffset .a0,
    .swZero powerManagerRestoreAddressRegOffset .a0]

variable (S : PowerManagerSection)

def saveSequence : List Instr :=
  .li .a0 S.start :: (Core.spill .a0 saveSlots ++ Core.spillCsrs .a1 .a0 csrSaveSlots)

def restoreSequence : List Instr :=
  .li .a0 S.start :: (Core.reload .a0 restoreSlots ++ Core.reloadCsrs .a1 .a0 csrRestoreSlots)

/-- From the save sequence to the `wfi`. -/
def toWfi (wakeup : Word) (c : Core) : Core := c.run (saveSequence S ++ setRestoreAddress wakeup)

/-- From `wakeup` to the return. -/
def fromWakeup (w : Core) : Core := w.run (clearGate ++ restoreSequence S)

/-- The section has the bytes it had. -/
def Retained (mem mem' : Mem) : Prop :=
  ∀ k, k < 256 → mem' (S.start + BitVec.ofNat 32 k) = mem (S.start + BitVec.ofNat 32 k)

/-- The core at `wakeup` after a `wfi` in state `c`. -/
inductive Wakes (c : Core) : Core → Prop where
  | returned : Wakes c c
  /-- Registers and CSRs can have any value. -/
  | powerLost {w : Core} (h : Retained S c.mem w.mem) : Wakes c w

/-- The CSRs with a slot, but the counters. -/
def gatedCsrs : List Csr := [.mstatus, .mie, .mtvec, .mscratch, .mepc, .mcause, .mtval]

/-- What gating has to give back. -/
structure Preserved (c after : Core) : Prop where
  regs : ∀ r, r ≠ .a0 → r ≠ .a1 → after.regs r = c.regs r
  csrs : ∀ csr ∈ gatedCsrs, after.csrs csr = c.csrs csr
  mcycle : joined (after.csrs .mcycleh) (after.csrs .mcycle) =
    joined (c.csrs .mcycleh) (c.csrs .mcycle)
  minstret : joined (after.csrs .minstreth) (after.csrs .minstret) =
    joined (c.csrs .minstreth) (c.csrs .minstret)

theorem Preserved.entry {c after : Core} (h : Preserved (c.run requestGate) after) :
    Preserved c after := by
  refine ⟨fun r h0 h1 => (h.regs r h0 h1).trans ?_, h.csrs, h.mcycle, h.minstret⟩
  show ((c.set .a0 _).set .a1 _).regs r = c.regs r
  rw [Core.set_other _ _ h1, Core.set_other _ _ h0]

/-! ## The slots -/

/-- What the save sequence stores, by offset. -/
def saved (c : Core) : List (Nat × Word) :=
  (saveSlots.map fun p => (p.2, (c.set .a0 S.start).regs p.1)) ++
    csrSaveSlots.map fun p => (p.2, c.csrs p.1)

theorem saved_offsets (c : Core) :
    (saved S c).map (·.1) = saveSlots.map (·.2) ++ csrSaveSlots.map (·.2) := rfl

theorem saved_apart (c : Core) : (saved S c).Pairwise fun p q => SlotsApart p.1 q.1 := by
  have h : ((saved S c).map (·.1)).Pairwise SlotsApart := by
    rw [saved_offsets]
    decide
  exact List.pairwise_map.mp h

theorem saved_lt (c : Core) {p : Nat × Word} (h : p ∈ saved S c) : p.1 + 4 ≤ 256 := by
  have all : ∀ off ∈ (saved S c).map (·.1), off + 4 ≤ 256 := by
    rw [saved_offsets]
    decide
  exact all _ (List.mem_map_of_mem h)

theorem run_saveSequence (c : Core) :
    (c.run (saveSequence S)).csrs = c.csrs ∧
      (c.run (saveSequence S)).mem = c.mem.storeSlots S.start (saved S c) := by
  obtain ⟨hcsrs, hmem⟩ := ((c.set .a0 S.start).run (Core.spill .a0 saveSlots)).run_spillCsrs
    (show Reg.a1 ≠ .a0 by decide) csrSaveSlots
  have hrun : c.run (saveSequence S) = ((c.set .a0 S.start).run (Core.spill .a0 saveSlots)).run
      (Core.spillCsrs .a1 .a0 csrSaveSlots) := by
    rw [saveSequence, Core.run_cons, Core.run_append]
    rfl
  rw [hrun, hcsrs, hmem, Core.run_spill, saved, storeSlots_append, Core.set_self]
  exact ⟨rfl, rfl⟩

theorem powerManager_apart {reg off : Nat} (hreg : reg ≤ 0x10) (hoff : off + 4 ≤ 256) :
    Apart (powerManagerStartAddress + BitVec.ofNat 32 reg) (S.start + BitVec.ofNat 32 off) := by
  have h := S.inRam0
  have hpm : powerManagerStartAddress.toNat = 0x20040000 := rfl
  simp only [Lib.Region.top, ram0] at h
  simp only [Apart, BitVec.toNat_sub, BitVec.toNat_add, BitVec.toNat_ofNat]
  omega

theorem store_powerManager (mem : Mem) {reg off : Nat} (v : Word) (hreg : reg ≤ 0x10)
    (hoff : off + 4 ≤ 256) :
    (mem.store32 (powerManagerStartAddress + BitVec.ofNat 32 reg) v).load32
        (S.start + BitVec.ofNat 32 off) = mem.load32 (S.start + BitVec.ofNat 32 off) :=
  store32_load32_apart _ _ (powerManager_apart S hreg hoff)

theorem run_setRestoreAddress (c : Core) (wakeup : Word) :
    (c.run (setRestoreAddress wakeup)).csrs = c.csrs ∧
      (c.run (setRestoreAddress wakeup)).mem = c.mem.store32
        (powerManagerStartAddress + BitVec.ofNat 32 powerManagerRestoreAddressRegOffset) wakeup :=
  ⟨rfl, rfl⟩

/-- At the `wfi` every slot holds what was saved in it, and the CSRs are as they were. -/
theorem toWfi_saved (wakeup : Word) (c : Core) : (toWfi S wakeup c).csrs = c.csrs ∧
    ∀ p ∈ saved S c, (toWfi S wakeup c).mem.load32 (S.start + BitVec.ofNat 32 p.1) = p.2 := by
  obtain ⟨hcsrs, hmem⟩ := run_saveSequence S c
  obtain ⟨hcsrs', hmem'⟩ := run_setRestoreAddress (c.run (saveSequence S)) wakeup
  rw [toWfi, Core.run_append, hcsrs', hcsrs, hmem', hmem]
  refine ⟨rfl, fun p hp => ?_⟩
  rw [store_powerManager S _ _ (by decide) (saved_lt S c hp),
    storeSlots_load _ _ _ (saved_apart S c) p hp]

/-! ## Waking up -/

theorem Retained.load32 {mem mem' : Mem} (h : Retained S mem mem') {off : Nat}
    (hoff : off + 4 ≤ 256) : mem'.load32 (S.start + BitVec.ofNat 32 off) =
      mem.load32 (S.start + BitVec.ofNat 32 off) := by
  refine load32_congr fun k hk => ?_
  rw [BitVec.add_assoc, ← BitVec.ofNat_add]
  exact h (off + k) (by omega)

theorem Wakes.retained {c w : Core} (h : Wakes S c w) : Retained S c.mem w.mem := by
  cases h with
  | returned => exact fun _ _ => rfl
  | powerLost h => exact h

theorem run_clearGate (w : Core) : (w.run clearGate).csrs = w.csrs ∧
    ∀ off, off + 4 ≤ 256 → (w.run clearGate).mem.load32 (S.start + BitVec.ofNat 32 off) =
      w.mem.load32 (S.start + BitVec.ofNat 32 off) := by
  refine ⟨rfl, fun off hoff => ?_⟩
  have hmem : (w.run clearGate).mem = ((w.mem.store32
      (powerManagerStartAddress + BitVec.ofNat 32 powerManagerPowerGateCoreRegOffset) 0).store32
      (powerManagerStartAddress + BitVec.ofNat 32 powerManagerWakeupStateRegOffset) 0).store32
      (powerManagerStartAddress + BitVec.ofNat 32 powerManagerRestoreAddressRegOffset) 0 := rfl
  rw [hmem, store_powerManager S _ _ (by decide) hoff, store_powerManager S _ _ (by decide) hoff,
    store_powerManager S _ _ (by decide) hoff]

theorem mem_restoreSlots (r : Reg) : r ∈ restoreSlots.map (·.1) := by
  cases r <;> decide

/-- The restore sequence on a section with what `c` saved: all registers but `a0` and `a1`, and
the CSRs with a slot, are those of `c`, and the other CSRs stay. -/
theorem run_restoreSequence {c w : Core}
    (h : ∀ p ∈ saved S c, w.mem.load32 (S.start + BitVec.ofNat 32 p.1) = p.2) :
    (∀ r, r ≠ .a0 → r ≠ .a1 → (w.run (restoreSequence S)).regs r = c.regs r) ∧
      (∀ csr ∈ csrRestoreSlots.map (·.1), (w.run (restoreSequence S)).csrs csr = c.csrs csr) ∧
      ∀ csr ∉ csrRestoreSlots.map (·.1), (w.run (restoreSequence S)).csrs csr = w.csrs csr := by
  let d := w.set .a0 S.start
  have hd : d.regs .a0 = S.start := Core.set_self _ _ _
  have hslot : ∀ p ∈ restoreSlots,
      d.mem.load32 (d.addr .a0 p.2) = (c.set .a0 S.start).regs p.1 := by
    intro p hp
    rw [Core.addr, hd]
    exact h (p.2, (c.set .a0 S.start).regs p.1)
      (List.mem_append_left _ (List.mem_map_of_mem (f := fun p => (p.2, _)) hp))
  obtain ⟨hmem, hcsrs, hbase, hin, -⟩ := d.run_reload .a0 restoreSlots (by decide) fun p hp e => by
    rw [hslot p hp, e, hd, Core.set_self]
  obtain ⟨hregs, hcin, hcout⟩ := (d.run (Core.reload .a0 restoreSlots)).run_reloadCsrs
    (show Reg.a1 ≠ .a0 by decide) csrRestoreSlots (by decide)
  have hrun : w.run (restoreSequence S) = (d.run (Core.reload .a0 restoreSlots)).run
      (Core.reloadCsrs .a1 .a0 csrRestoreSlots) := by
    rw [restoreSequence, Core.run_cons, Core.run_append]
    rfl
  rw [hrun]
  refine ⟨fun r h0 h1 => ?_, fun csr hcsr => ?_, fun csr hcsr => ?_⟩
  · obtain ⟨p, hp, rfl⟩ := List.mem_map.mp (mem_restoreSlots r)
    rw [hregs _ h1, hin p hp, hslot p hp, Core.set_other _ _ h0]
  · obtain ⟨p, hp, rfl⟩ := List.mem_map.mp hcsr
    rw [hcin p hp, hmem, Core.addr, hbase, hd]
    exact h (p.2, c.csrs p.1)
      (List.mem_append_right _ (List.mem_map_of_mem (f := fun p => (p.2, c.csrs p.1)) hp))
  · rw [hcout csr hcsr, hcsrs]
    rfl

/-- The core after the return: only the upper halves of the counters are those it woke up with. -/
theorem fromWakeup_eq {wakeup : Word} {c w : Core} (h : Wakes S (toWfi S wakeup c) w) :
    (∀ r, r ≠ .a0 → r ≠ .a1 → (fromWakeup S w).regs r = c.regs r) ∧
      (∀ csr ∈ csrRestoreSlots.map (·.1), (fromWakeup S w).csrs csr = c.csrs csr) ∧
      ∀ csr ∉ csrRestoreSlots.map (·.1), (fromWakeup S w).csrs csr = w.csrs csr := by
  obtain ⟨-, hsaved⟩ := toWfi_saved S wakeup c
  obtain ⟨hcsrs, hclear⟩ := run_clearGate S w
  have hslots : ∀ p ∈ saved S c,
      (w.run clearGate).mem.load32 (S.start + BitVec.ofNat 32 p.1) = p.2 := by
    intro p hp
    have hoff := saved_lt S c hp
    rw [hclear _ hoff, h.retained.load32 S hoff, hsaved p hp]
  obtain ⟨hregs, hin, hout⟩ := run_restoreSequence S hslots
  rw [fromWakeup, Core.run_append]
  exact ⟨hregs, hin, fun csr hcsr => (hout csr hcsr).trans (congrFun hcsrs csr)⟩

/-- **Gating the core** gives back the registers and the CSRs, and the counters if and only if
the core wakes up with the upper halves they had. -/
theorem powerGateCoreAsm_preserves_iff (wakeup : Word) {c w : Core}
    (h : Wakes S (toWfi S wakeup c) w) : Preserved c (fromWakeup S w) ↔
      w.csrs .mcycleh = c.csrs .mcycleh ∧ w.csrs .minstreth = c.csrs .minstreth := by
  obtain ⟨hregs, hin, hout⟩ := fromWakeup_eq S h
  have hcycleh : (fromWakeup S w).csrs .mcycleh = w.csrs .mcycleh := hout _ (by decide)
  have hinstreth : (fromWakeup S w).csrs .minstreth = w.csrs .minstreth := hout _ (by decide)
  refine ⟨fun hp => ?_, fun ⟨hc, hi⟩ => ⟨hregs, fun csr hcsr => hin csr ?_, ?_, ?_⟩⟩
  · exact ⟨hcycleh.symm.trans (joined_inj.mp hp.mcycle).1,
      hinstreth.symm.trans (joined_inj.mp hp.minstret).1⟩
  · have sub : gatedCsrs ⊆ csrRestoreSlots.map (·.1) := by decide
    exact sub hcsr
  · rw [hcycleh, hc, hin .mcycle (by decide)]
  · rw [hinstreth, hi, hin .minstret (by decide)]

/-- The section at the start of the last page of `ram0`. -/
def lastPage : PowerManagerSection := ⟨0x3f000, by decide, by decide⟩

/-- A core that has run for `2 ^ 32` cycles. -/
def longRunning : Core :=
  ⟨fun _ => 7, fun csr => if csr = .mcycleh then 1 else 0, fun _ => 0⟩

/-- The `wfi` returns, or the core loses its registers and all CSRs but the upper half of MCYCLE. -/
theorem powerGateCoreAsm_preserves_returned :
    let c := toWfi lastPage 0x1000 longRunning
    let w : Core := ⟨fun _ => 0, fun csr => if csr = .mcycleh then 1 else 0, c.mem⟩
    Preserved longRunning (fromWakeup lastPage c) ∧ Wakes lastPage c w ∧
      Preserved longRunning (fromWakeup lastPage w) := by
  intro c w
  have hcsrs : c.csrs = longRunning.csrs := (toWfi_saved lastPage 0x1000 longRunning).1
  have hlost : Wakes lastPage c w := .powerLost fun _ _ => rfl
  refine ⟨?_, hlost, ?_⟩
  · exact (powerGateCoreAsm_preserves_iff lastPage 0x1000 .returned).mpr
      ⟨congrFun hcsrs .mcycleh, congrFun hcsrs .minstreth⟩
  · exact (powerGateCoreAsm_preserves_iff lastPage 0x1000 hlost).mpr ⟨rfl, rfl⟩

/-- A core that wakes up with its registers and CSRs 0 has lost `2 ^ 32` cycles. -/
theorem powerGateCoreAsm_loses_cycles :
    Wakes lastPage (toWfi lastPage 0x1000 longRunning)
        ⟨fun _ => 0, fun _ => 0, (toWfi lastPage 0x1000 longRunning).mem⟩ ∧
      ¬ Preserved longRunning (fromWakeup lastPage
        ⟨fun _ => 0, fun _ => 0, (toWfi lastPage 0x1000 longRunning).mem⟩) := by
  have hwakes : Wakes lastPage (toWfi lastPage 0x1000 longRunning)
      ⟨fun _ => 0, fun _ => 0, (toWfi lastPage 0x1000 longRunning).mem⟩ :=
    .powerLost fun _ _ => rfl
  refine ⟨hwakes, fun h => ?_⟩
  obtain ⟨-, -, hout⟩ := fromWakeup_eq lastPage hwakes
  have hlost := (joined_inj.mp h.mcycle).1
  rw [hout .mcycleh (by decide)] at hlost
  exact absurd hlost (by decide)

end XHeepFemu.Hal
