import XHeepFemu.Hw.Machine
import XHeepFemu.Hw.Pmp
import XHeepFemu.Tee.Service

/-!
# Rebooting after a fault

The fault handlers of `apps/tflite_scpi/handlers.c` print a message and jump to
`_start` of `lib/crt/crt0.S`, which runs in the memory the fault left behind.
`_start` clears the bss segment and nothing else, so the objects with an initial
value of their own (`brk`, and all of the user region) keep what they held.

`Linked` is the program as `link.ld` places it, `Libc` the C library around it:
its `printf`, and what `atexit` and `__libc_init_array` do before `main`.
-/

namespace XHeepFemu.Tee

open Lib (Region)

/-! ## The linked program -/

/-- Output sections, those of the user region one by one. -/
inductive Section where
  /-- `.vectors`, `.init` and `.text` -/
  | text
  | rodata
  /-- `.data`, `.data1` and `.sdata` -/
  | data
  /-- `.sbss` and `.bss`, from `__bss_start` to `__bss_end` -/
  | bss
  | userText
  | userRodata
  | userData
  deriving DecidableEq, Repr

/-- In the user region. -/
def Section.isUser : Section → Bool
  | .userText | .userRodata | .userData => true
  | _ => false

structure Linked where
  range : Section → Region
  /-- The memory after a load, as far as it is statically allocated. -/
  load : Mem
  text_ram0 : (range .text).top ≤ ram0.top
  rodata_ram1 : ram1.base ≤ (range .rodata).base
  rodata_data : (range .rodata).top ≤ (range .data).base
  data_bss : (range .data).top ≤ (range .bss).base
  bss_ram1 : (range .bss).top ≤ ram1.top
  user_ram2 : ∀ s, s.isUser = true → ram2.base ≤ (range s).base ∧ (range s).top ≤ ram2.top
  load_bss : ∀ a : Word, (range .bss).Contains a.toNat → load a = 0
  /-- `__global_pointer$` -/
  globalPointer : Word
  /-- `_sp` -/
  sp : Word
  /-- `__vector_start` -/
  vectorStart : Word
  brk : Word
  brk_data : (range .data).Covers brk.toNat 4
  exitScpi : Word
  exitScpi_userData : (range .userData).Covers exitScpi.toNat 4
  modifier : Word
  modifier_userData : (range .userData).Covers modifier.toNat 4
  buffer : Word
  buffer_userData : (range .userData).Covers buffer.toNat 2048

namespace Linked

variable (L : Linked)

/-- The byte belongs to a statically allocated object, or to code. -/
def Static (a : Word) : Prop := ∃ s, (L.range s).Contains a.toNat

/-- The byte has an initial value of its own. -/
def Initialised (a : Word) : Prop := ∃ s, s ≠ .bss ∧ (L.range s).Contains a.toNat

/-- A load has just put the program into memory. -/
def Loaded (mem : Mem) : Prop := ∀ a, L.Static a → mem a = L.load a

/-- What the sections but `.bss` hold is what was loaded into them. -/
def InitialisedAsLoaded (mem : Mem) : Prop := ∀ a, L.Initialised a → mem a = L.load a

def SameStatics (mem mem' : Mem) : Prop := ∀ a, L.Static a → mem a = mem' a

variable {L} in
theorem Initialised.static {a : Word} (h : L.Initialised a) : L.Static a :=
  h.imp fun _ h => h.2

theorem static_iff (a : Word) :
    L.Static a ↔ (L.range .bss).Contains a.toNat ∨ L.Initialised a := by
  refine ⟨fun ⟨s, hs⟩ => ?_, fun h => h.elim (fun h => ⟨_, h⟩) fun h => h.static⟩
  by_cases e : s = .bss
  · subst e
    exact .inl hs
  · exact .inr ⟨s, e, hs⟩

theorem bss_apart {s : Section} (hs : s ≠ .bss) :
    (L.range s).top ≤ (L.range .bss).base ∨ (L.range .bss).top ≤ (L.range s).base := by
  have hrodata := L.rodata_data
  have hdata := L.data_bss
  by_cases huser : s.isUser = true
  · exact .inr (Nat.le_trans L.bss_ram1 (L.user_ram2 s huser).1)
  · cases s with
    | bss => exact absurd rfl hs
    | data => exact .inl hdata
    | rodata =>
      unfold Region.top at *
      omega
    | text =>
      have htext : (L.range .text).top ≤ (L.range .rodata).base :=
        Nat.le_trans L.text_ram0 L.rodata_ram1
      unfold Region.top at *
      omega
    | _ => exact absurd rfl huser

variable {L} in
theorem Initialised.not_bss {a : Word} (h : L.Initialised a) :
    ¬ (L.range .bss).Contains a.toNat := by
  obtain ⟨s, hs, hlo, hhi⟩ := h
  rintro ⟨hlo', hhi'⟩
  rcases L.bss_apart hs with happ | happ <;> omega

end Linked

/-! ## The C library -/

inductive PrintArg where
  | str (s : String)
  | word (w : Word)
  deriving DecidableEq, Repr

structure Libc (L : Linked) where
  /-- What `printf` does to memory: the buffers and the stack. -/
  printf : String → List PrintArg → Mem → Mem
  /-- `atexit(__libc_fini_array)` and `__libc_init_array()`. -/
  init : Mem → Mem
  /-- They depend on statically allocated objects only. -/
  init_same : ∀ mem mem', L.SameStatics mem mem' → L.SameStatics (init mem) (init mem')
  /-- The registry of `atexit` and the objects with constructors are in the bss segment. -/
  init_keeps : ∀ mem a, L.Initialised a → init mem a = mem a

/-! ## Fault handlers -/

/-- What the handlers and `_start` use of the hart and its peripherals. -/
structure Hart where
  mem : Mem
  ra : Word
  gp : Word
  sp : Word
  mtvec : Word
  mepc : Word
  mtval : Word
  mmio : Word → Word
  printed : List (String × List PrintArg)

variable {L : Linked} (F : Libc L)

def Hart.printf (h : Hart) (format : String) (args : List PrintArg) : Hart :=
  { h with mem := F.printf format args h.mem, printed := h.printed ++ [(format, args)] }

/-- `__boot_address` of `link.ld`, where `_start` is. -/
def bootAddress : Word := 0x180

/-- `reboot`, up to the `jr`. -/
def reboot (msg : String) (h : Hart) : Hart :=
  let h := h.printf F "\r\n%s" [.str msg]
  let h := h.printf F "MTVAL value is 0x%08x\r\n" [.word h.mtval]
  let h := h.printf F "Rebooting...\r\n" []
  { h with ra := bootAddress }

def handlerInstrAccFault : Hart → Hart :=
  reboot F "Instruction access fault, mtval shows fault address\r\n"

def handlerInstrIllFault (h : Hart) : Hart :=
  let h := h.printf F "\r\nMEPC is 0x%08x\r\n" [.word h.mepc]
  reboot F "Illegal Instruction fault, mtval shows instruction content\r\n" h

def handlerBkpt : Hart → Hart :=
  reboot F "Breakpoint triggered, mtval shows the breakpoint address\r\n"

def handlerLsuFault : Hart → Hart :=
  reboot F "Load/Store fault, mtval shows the fault address\r\n"

inductive Fault where
  | instrAccFault
  | instrIllFault
  | bkpt
  | lsuFault
  deriving DecidableEq, Repr

def Fault.handler : Fault → Hart → Hart
  | .instrAccFault => handlerInstrAccFault F
  | .instrIllFault => handlerInstrIllFault F
  | .bkpt => handlerBkpt F
  | .lsuFault => handlerLsuFault F

/-! ## crt0.S -/

/-- `memset` of `lib/base/memory.c`. -/
def memset (mem : Mem) (dest : Word) (value : Byte) : Nat → Mem
  | 0 => mem
  | len + 1 => (memset mem dest value len).set (dest + BitVec.ofNat 32 len) value

def Hart.sw (h : Hart) (a v : Word) : Hart :=
  { h with mmio := fun a' => if a' = a then v else h.mmio a' }

/-- `SOC_CTRL_SYSTEM_FREQUENCY_HZ` -/
def socCtrlSystemFrequencyHz : Word := 0x20000000 + 0x1c

/-- `GPIO_GPIO_MODE_0` -/
def gpioMode0 : Word := 0x200a0000 + 0x8

/-- `GPIO_GPIO_OUT` -/
def gpioOut : Word := 0x200a0000 + 0x180

def referenceClockHz : Word := 20000000

/-- `_start`, up to the call of `main`. -/
def start (h : Hart) : Hart :=
  let bss := L.range .bss
  let h := { h with gp := L.globalPointer, sp := L.sp }
  let h := h.sw socCtrlSystemFrequencyHz referenceClockHz
  let h := { h with mtvec := L.vectorStart ||| 1 }
  let h := { h with mem := memset h.mem (BitVec.ofNat 32 bss.base) 0 bss.size }
  let h := { h with mem := F.init h.mem }
  -- performance counters
  let h := h.sw gpioMode0 (h.mmio gpioMode0 ||| 1)
  h.sw gpioOut (h.mmio gpioOut ||| 1)

/-! ## After main is reached -/

section Loop

variable {σ : Type}

/-- The world in which `main` starts `user_uart_loop`, with the bytes `rx` to come. -/
def loopWorld (L : Linked) (mem : Mem) (scpi : σ) (rx : List Byte) : World σ where
  rx := rx
  mem := mem
  modifier := mem.load32 L.modifier ≠ 0
  exitScpi := mem.load32 L.exitScpi ≠ 0
  scpi := scpi
  echoed := []
  calls := []
  stores := []
  infers := []

/-- What a run of the loop shows. -/
structure Observed (σ : Type) where
  /-- Why it was left. -/
  stop : Option Stop
  echoed : List Byte
  calls : List (List Byte)
  infers : List (List Byte × Bool)
  scpi : σ
  exitScpi : Bool
  deriving DecidableEq

def observe : EStateM.Result Stop (World σ) Unit → Observed σ
  | .ok _ w => ⟨none, w.echoed, w.calls, w.infers, w.scpi, w.exitScpi⟩
  | .error e w => ⟨some e, w.echoed, w.calls, w.infers, w.scpi, w.exitScpi⟩

def loopRun (B : Behaviour σ) (L : Linked) (mem : Mem) (scpi : σ) (rx : List Byte) (fuel : Nat) :
    Observed σ :=
  observe (userUartLoop B L.buffer 2048 fuel (loopWorld L mem scpi rx))

end Loop

/-- `main` starts as after a load: in `h` as in `cold`. -/
structure Recovered (L : Linked) (h cold : Hart) : Prop where
  statics : L.SameStatics h.mem cold.mem
  regs : h.gp = cold.gp ∧ h.sp = cold.sp ∧ h.mtvec = cold.mtvec
  /-- On any input `user_uart_loop` does the same, whatever `SCPI_Input` is. -/
  behaviour : ∀ (σ : Type) (B : Behaviour σ) (scpi : σ) (rx : List Byte) (fuel : Nat),
    rx.length + 2 ≤ fuel → loopRun B L h.mem scpi rx fuel = loopRun B L cold.mem scpi rx fuel

/-! ## What `_start` restores -/

theorem memset_apply (mem : Mem) (dest : Word) (value : Byte) {len : Nat} (hlen : len ≤ 2 ^ 32)
    (a : Word) : memset mem dest value len a =
      if (a - dest).toNat < len then value else mem a := by
  induction len with
  | zero => rfl
  | succ len ih =>
    have hat : a = dest + BitVec.ofNat 32 len ↔ (a - dest).toNat = len := by bv_omega
    simp only [memset, Mem.set, ih (by omega), hat]
    grind

/-- The memory `main` finds, before the C library has set itself up. -/
def clearBss (L : Linked) (mem : Mem) : Mem :=
  memset mem (BitVec.ofNat 32 (L.range .bss).base) 0 (L.range .bss).size

theorem start_mem (h : Hart) : (start F h).mem = F.init (clearBss L h.mem) := rfl

theorem clearBss_apply (mem : Mem) (a : Word) :
    clearBss L mem a = if (L.range .bss).Contains a.toNat then 0 else mem a := by
  have htop := L.bss_ram1
  have ha := a.isLt
  simp only [Region.top, ram1] at htop
  have hin : (a - BitVec.ofNat 32 (L.range .bss).base).toNat < (L.range .bss).size ↔
      (L.range .bss).Contains a.toNat := by
    simp only [Region.Contains, Region.top, BitVec.toNat_sub, BitVec.toNat_ofNat]
    omega
  rw [clearBss, memset_apply _ _ _ (by omega)]
  simp only [hin]

/-- An initialised object is in `main` what it was before `_start`. -/
theorem start_initialised (h : Hart) {a : Word} (ha : L.Initialised a) :
    (start F h).mem a = h.mem a := by
  rw [start_mem, F.init_keeps _ _ ha, clearBss_apply, if_neg ha.not_bss]

theorem contains_byte {s : Section} (htop : (L.range s).top ≤ ram2.top) {p : Word}
    (hp : (L.range s).Covers p.toNat 4) {k : Nat} (hk : k < 4) :
    (L.range s).Contains (p + BitVec.ofNat 32 k).toNat := by
  obtain ⟨hlo, hhi⟩ := hp k hk
  have hk' : (p + BitVec.ofNat 32 k).toNat = p.toNat + k := by
    have hram : ram2.top = 0x80000 := rfl
    rw [BitVec.toNat_add, BitVec.toNat_ofNat]
    omega
  rw [hk']
  exact ⟨hlo, hhi⟩

theorem start_load32 (h : Hart) {s : Section} (hs : s ≠ .bss)
    (htop : (L.range s).top ≤ ram2.top) {p : Word} (hp : (L.range s).Covers p.toNat 4) :
    (start F h).mem.load32 p = h.mem.load32 p := by
  exact load32_congr fun k hk => start_initialised F h ⟨s, hs, contains_byte htop hp hk⟩

theorem start_objects (h : Hart) : (start F h).mem.load32 L.brk = h.mem.load32 L.brk ∧
    (start F h).mem.load32 L.exitScpi = h.mem.load32 L.exitScpi ∧
    (start F h).mem.load32 L.modifier = h.mem.load32 L.modifier := by
  have huser := (L.user_ram2 .userData rfl).2
  have hdata : (L.range .data).top ≤ ram2.top := by
    have hbss : (L.range .bss).base ≤ (L.range .bss).top := Nat.le_add_right _ _
    have hram : ram1.top ≤ ram2.top := by decide
    have htop := L.bss_ram1
    have hend := L.data_bss
    omega
  exact ⟨start_load32 F h (s := .data) nofun hdata L.brk_data,
    start_load32 F h (s := .userData) nofun huser L.exitScpi_userData,
    start_load32 F h (s := .userData) nofun huser L.modifier_userData⟩

/-- Clearing the bss segment reloads the program if the rest of it is as it was loaded. -/
theorem clearBss_loaded {mem : Mem} (h : L.InitialisedAsLoaded mem) :
    L.Loaded (clearBss L mem) := by
  intro a ha
  rw [clearBss_apply]
  rcases (L.static_iff a).mp ha with hbss | hinit
  · rw [if_pos hbss, L.load_bss a hbss]
  · rw [if_neg hinit.not_bss, h a hinit]

theorem Linked.Loaded.initialised {mem : Mem} (h : L.Loaded mem) : L.InitialisedAsLoaded mem :=
  fun a ha => h a ha.static

theorem Linked.SameStatics.load32 {mem mem' : Mem} (h : L.SameStatics mem mem') {s : Section}
    (htop : (L.range s).top ≤ ram2.top) {p : Word} (hp : (L.range s).Covers p.toNat 4) :
    mem.load32 p = mem'.load32 p :=
  load32_congr fun _ hk => h _ ⟨s, contains_byte htop hp hk⟩

/-- The loop starts from the words of `modifier` and `exit_scpi`. -/
theorem loopRun_same {σ : Type} (B : Behaviour σ) {mem mem' : Mem} (h : L.SameStatics mem mem')
    (scpi : σ) {rx : List Byte} {fuel : Nat} (hfuel : rx.length + 2 ≤ fuel) :
    loopRun B L mem scpi rx fuel = loopRun B L mem' scpi rx fuel := by
  have hbuf : ram2.Covers L.buffer.toNat 2048 := fun k hk =>
    have hin := L.buffer_userData k hk
    have huser := L.user_ram2 .userData rfl
    ⟨Nat.le_trans huser.1 hin.1, Nat.lt_of_lt_of_le hin.2 huser.2⟩
  let s (mem : Mem) : Service σ := ⟨⟨[], mem.load32 L.modifier ≠ 0⟩, scpi,
    mem.load32 L.exitScpi ≠ 0, [], [], []⟩
  have hrun : ∀ mem, loopRun B L mem scpi rx fuel = ⟨some (stopOf ((s mem).run B rx)),
      ((s mem).run B rx).echoed, ((s mem).run B rx).calls,
      ((s mem).run B rx).delivered.map (·, false), ((s mem).run B rx).scpi,
      ((s mem).run B rx).exit⟩ := by
    intro mem
    have hrel : Rel L.buffer (loopWorld L mem scpi rx) (s mem) :=
      ⟨rfl, rfl, rfl, rfl, rfl, rfl, nofun⟩
    obtain ⟨w, hw, hrel', hinfers, -⟩ := userUartLoop_refines (B := B) hbuf hrel rfl rfl hfuel
    have hrx : (loopWorld L mem scpi rx).rx = rx := rfl
    rw [hrx] at hw hrel' hinfers
    rw [loopRun, hw, observe, hrel'.echoed, hrel'.calls, hinfers, hrel'.scpi, hrel'.exit]
  have hs : s mem = s mem' := by
    have huser := (L.user_ram2 .userData rfl).2
    simp only [s]
    rw [h.load32 huser L.modifier_userData, h.load32 huser L.exitScpi_userData]
  rw [hrun, hrun, hs]

/-- **A fault is recovered from** if and only if the initialised objects and the code are, when
`reboot` jumps, as they were loaded. -/
theorem fault_recovers_iff (fault : Fault) (h : Hart) {cold : Hart} (hcold : L.Loaded cold.mem) :
    Recovered L (start F (fault.handler F h)) (start F cold) ↔
      L.InitialisedAsLoaded (fault.handler F h).mem := by
  refine ⟨fun hr a ha => ?_, fun hi => ?_⟩
  · calc (fault.handler F h).mem a
      _ = (start F (fault.handler F h)).mem a := (start_initialised F _ ha).symm
      _ = (start F cold).mem a := hr.statics a ha.static
      _ = cold.mem a := start_initialised F _ ha
      _ = L.load a := hcold a ha.static
  · have hclear : L.SameStatics (clearBss L (fault.handler F h).mem) (clearBss L cold.mem) := by
      intro a ha
      rw [clearBss_loaded hi a ha, clearBss_loaded hcold.initialised a ha]
    have hstatics := F.init_same _ _ hclear
    exact ⟨hstatics, ⟨rfl, rfl, rfl⟩, fun _ B scpi _ _ hfuel => loopRun_same B hstatics scpi hfuel⟩

/-! ## A user program that sets exit_scpi -/

/-- What `user_uart_loop` echoes. -/
def loopEcho (L : Linked) (mem : Mem) (rx : List Byte) (fuel : Nat) : List Byte :=
  (loopRun (fun _ _ => ((), false)) L mem () rx fuel).echoed

theorem loopEcho_exit {mem : Mem} (h : mem.load32 L.exitScpi ≠ 0) (rx : List Byte) (fuel : Nat) :
    loopEcho L mem rx (fuel + 1) = [] := by
  have hexit : (loopWorld L mem () rx).exitScpi = true := decide_eq_true h
  simp only [loopEcho, loopRun, userUartLoop, run_bind, run_get, hexit]
  rfl

/-- A small program: one word of data, `brk`. -/
def smallLink : Linked where
  range
    | .text => ⟨0, 0x20000⟩
    | .rodata => ⟨0x40000, 0x1000⟩
    | .data => ⟨0x41000, 4⟩
    | .bss => ⟨0x41004, 4⟩
    | .userText => ⟨0x78000, 0x200⟩
    | .userRodata => ⟨0x78200, 0⟩
    | .userData => ⟨0x78200, 2056⟩
  -- `brk` is `__heap_start`
  load := Mem.store32 (fun _ => 0) 0x41000 0x41008
  text_ram0 := by decide
  rodata_ram1 := by decide
  rodata_data := by decide
  data_bss := by decide
  bss_ram1 := by decide
  user_ram2 := by
    rintro s hs
    cases s with
    | userText | userRodata | userData => decide
    | _ => cases hs
  load_bss := by
    rintro a ⟨hlo, hhi⟩
    have other (w : Word) (hw : ¬ 0x41004 ≤ w.toNat) : a ≠ w := fun e => hw (e ▸ hlo)
    unfold Mem.store32
    rw [if_neg (other _ (by decide)), if_neg (other _ (by decide)), if_neg (other _ (by decide)),
      if_neg (other _ (by decide))]
  globalPointer := 0x41800
  sp := 0x78000
  vectorStart := 0
  brk := 0x41000
  brk_data := (Region.covers_iff (by decide)).mpr (by decide)
  exitScpi := 0x78200
  exitScpi_userData := (Region.covers_iff (by decide)).mpr (by decide)
  modifier := 0x78a04
  modifier_userData := (Region.covers_iff (by decide)).mpr (by decide)
  buffer := 0x78204
  buffer_userData := (Region.covers_iff (by decide)).mpr (by decide)

/-- `atexit` counts its functions in the bss segment, and `printf` uses the stack. -/
def smallLibc : Libc smallLink where
  printf _ _ mem := mem.set 0x77ff0 0
  init mem := mem.set 0x41004 1
  init_same mem mem' h a ha := by
    simp only [Mem.set]
    rw [h a ha]
  init_keeps mem a ha := by
    refine Mem.set_other _ _ ?_
    rintro rfl
    exact ha.not_bss (by decide)

/-- The hart after a load. -/
def loaded (L : Linked) : Hart := ⟨L.load, 0, 0, 0, 0, 0, 0, fun _ => 0, []⟩

/-- The byte that `printf` writes is none of the program's. -/
theorem stack_kept {mem : Mem} (h : smallLink.InitialisedAsLoaded mem) :
    smallLink.InitialisedAsLoaded (mem.set 0x77ff0 0) := by
  intro a ha
  refine (Mem.set_other _ _ ?_).trans (h a ha)
  rintro rfl
  obtain ⟨s, -, hs⟩ := ha
  cases s <;> exact absurd hs (by decide)

/-- Every byte of the bss segment, the heap and the stack has been used. -/
def dirtyMem : Mem := fun a =>
  if 0x41004 ≤ a.toNat ∧ a.toNat < 0x78000 then 0xff else smallLink.load a

theorem dirtyMem_initialised : smallLink.InitialisedAsLoaded dirtyMem := by
  rintro a ⟨s, hs, hlo, hhi⟩
  refine if_neg fun ⟨hbss, hsandbox⟩ => ?_
  cases s with
  | bss => exact hs rfl
  | text | rodata | data =>
    have htop : a.toNat < 0x41004 := Nat.lt_of_lt_of_le hhi (by decide)
    omega
  | userText | userRodata | userData =>
    have hbase : 0x78000 ≤ a.toNat := Nat.le_trans (by decide) hlo
    omega

theorem fault_recovers_untouched :
    Recovered smallLink
      (start smallLibc (Fault.bkpt.handler smallLibc { loaded smallLink with mem := dirtyMem }))
      (start smallLibc (loaded smallLink)) :=
  (fault_recovers_iff smallLibc .bkpt _ (fun _ _ => rfl)).mpr
    (stack_kept (stack_kept (stack_kept dirtyMem_initialised)))

/-- A user program that sets `exit_scpi` and executes `ebreak`: whatever the fault finds
elsewhere in memory, `user_uart_loop` is left at once after the reboot, and bytes that it echoes
after a load get no answer. -/
theorem exit_scpi_survives :
    Pmp.permitted Pmp.configured .user .write smallLink.exitScpi .word = true ∧
      loopEcho smallLink (start smallLibc (loaded smallLink)).mem [97] 2 = [97] ∧
      ∀ h : Hart, h.mem.load32 smallLink.exitScpi = 1 →
        loopEcho smallLink (start smallLibc (handlerBkpt smallLibc h)).mem [97] 2 = [] ∧
          ¬ Recovered smallLink (start smallLibc (handlerBkpt smallLibc h))
            (start smallLibc (loaded smallLink)) := by
  refine ⟨by decide, rfl, fun h hexit => ?_⟩
  have hjump : (handlerBkpt smallLibc h).mem.load32 smallLink.exitScpi = 1 :=
    (load32_congr (by
      have far : ∀ k < 4, smallLink.exitScpi + BitVec.ofNat 32 k ≠ 0x77ff0 := by decide
      intro k hk
      show (((h.mem.set 0x77ff0 0).set 0x77ff0 0).set 0x77ff0 0) _ = _
      rw [Mem.set_other _ _ (far k hk), Mem.set_other _ _ (far k hk),
        Mem.set_other _ _ (far k hk)])).trans hexit
  have hmain := (start_objects smallLibc (handlerBkpt smallLibc h)).2.1.trans hjump
  refine ⟨loopEcho_exit (by rw [hmain]; decide) [97] 1, fun hr => ?_⟩
  have hload : (start smallLibc (loaded smallLink)).mem.load32 smallLink.exitScpi = 0 := rfl
  have hsame : (start smallLibc (handlerBkpt smallLibc h)).mem.load32 smallLink.exitScpi =
      (start smallLibc (loaded smallLink)).mem.load32 smallLink.exitScpi := by
    refine load32_congr fun k hk => hr.statics _ ⟨.userData, ?_⟩
    have inside : ∀ k < 4, (smallLink.range .userData).Contains
        (smallLink.exitScpi + BitVec.ofNat 32 k).toNat := by decide
    exact inside k hk
  rw [hmain, hload] at hsame
  exact absurd hsame (by decide)

end XHeepFemu.Tee
