import XHeepFemu.Hal.RvTimer
import XHeepFemu.Tee.Handler

/-!
# Reading the 64-bit counters

The counters advance while they are read. `apps/tflite_scpi_m/main.c` loads the
upper half twice and starts again when it changed; TEE_EC_RDCOUNTERS of
`lib/runtime/handler.c` loads each half once. Programs load from `Port`s: the CSRs,
and whatever else the surrounding code takes its data from.
-/

namespace XHeepFemu.Tee.Counters

open Lib
open Hal (RvTimer rvTimerCounterRead counterRead_ok counterValue_toNat)

/-- What a program loads: a CSR, or some other input. -/
inductive Port where
  | csr (r : Csr)
  | input (n : Nat)
  deriving DecidableEq, Repr

abbrev Prog := OptionT (Io Port Word)

/-- What loads give at each instant, and the counters behind it. -/
structure Cpu where
  reg : Port → Nat → Word
  cycles : Nat → Nat
  instrs : Nat → Nat
  mcycle : Halves reg (.csr .mcycleh) (.csr .mcycle) cycles
  minstret : Halves reg (.csr .minstreth) (.csr .minstret) instrs

/-! ## tflite_scpi_m -/

def readMcycle (fuel : Nat) : Prog (Word × Word) := readSplit (.csr .mcycleh) (.csr .mcycle) fuel

def readMinstret (fuel : Nat) : Prog (Word × Word) :=
  readSplit (.csr .minstreth) (.csr .minstret) fuel

/-- `sub_u64`: the upper and the lower half of the difference. -/
def subU64 (aHi aLo bHi bLo : Word) : Word × Word :=
  let lo := aLo - bLo
  let hi := aHi - bHi - (if aLo < bLo then 1 else 0)
  (hi, lo)

/-- What `uart_scpi` calls. -/
structure ScpiApp where
  exitScpi : Prog Bool
  uartGets : CPtr → Word → Prog Word
  scpiInput : CPtr → Word → Prog Unit
  scpiFlush : Prog Unit
  printf : String → List Word → Prog Unit

/-- The differences one round of `uart_scpi` prints, upper half first. -/
structure Delta where
  cycles : Word × Word
  instrs : Word × Word
  deriving DecidableEq, Repr

/-- `if (len > 0) { … }`. -/
def ScpiApp.serve (A : ScpiApp) (buffer : CPtr) (len : Word) : Prog Unit :=
  if len > 0 then do
    A.scpiInput buffer len
    A.scpiInput (.str crlf) 2
  else pure ()

/-- The body of the `while` of `uart_scpi`. -/
def uartScpiRound (A : ScpiApp) (buffer : CPtr) (fuel : Nat) : Prog Delta := do
  let len ← A.uartGets buffer 2048
  let (c0Hi, c0Lo) ← readMcycle fuel
  let (i0Hi, i0Lo) ← readMinstret fuel
  A.serve buffer len
  A.scpiFlush
  let (c1Hi, c1Lo) ← readMcycle fuel
  let (i1Hi, i1Lo) ← readMinstret fuel
  let (dCHi, dCLo) := subU64 c1Hi c1Lo c0Hi c0Lo
  let (dIHi, dILo) := subU64 i1Hi i1Lo i0Hi i0Lo
  A.printf "Δcycles    hi=%08lx lo=%08lx\r\n" [dCHi, dCLo]
  A.printf "Δinstr     hi=%08lx lo=%08lx\r\n" [dIHi, dILo]
  pure ⟨(dCHi, dCLo), (dIHi, dILo)⟩

/-- The first `n` rounds of `uart_scpi`, or fewer if it leaves the loop. -/
def uartScpi (A : ScpiApp) (buffer : CPtr) (fuel : Nat) : Nat → Prog (List Delta)
  | 0 => pure []
  | n + 1 => do
    if !(← A.exitScpi) then
      let d ← uartScpiRound A buffer fuel
      let ds ← uartScpi A buffer fuel n
      pure (d :: ds)
    else pure []

/-! ## Exact reads -/

/-- What `p` returns is the counter at the last load of its lower half. -/
def Linearizable {ρ α : Type} (reg : ρ → Nat → Word) (hi lo : ρ) (c : Nat → Nat)
    (p : OptionT (Io ρ Word) α) (val : α → Option Nat) : Prop :=
  ∀ t tr u a n, Finishes reg p t tr u a → val a = some n →
    ∃ s, t < s ∧ s < u ∧ Accepts hi lo tr s ∧ n = c s ∧ c t ≤ n ∧ n ≤ c u

/-- The difference `d` of two reads, one after the other, within the loads `tr`. -/
def Measures (hi lo : Port) (c : Nat → Nat) (tr : List (Port × Nat)) (d : Word × Word) : Prop :=
  ∃ before first between second after s₀ s₁,
    tr = before ++ first ++ between ++ second ++ after ∧
    Accepts hi lo first s₀ ∧ Accepts hi lo second s₁ ∧ c s₀ ≤ c s₁ ∧
    joined d.1 d.2 = c s₁ - c s₀

theorem linearizable_readSplit {ρ : Type} {reg : ρ → Nat → Word} {hi lo : ρ} {c : Nat → Nat}
    (h : Halves reg hi lo c) (fuel : Nat) :
    Linearizable reg hi lo c (readSplit hi lo fuel) (fun v => some (joined v.1 v.2)) := by
  intro t tr u v n hrun hv
  cases hv
  obtain ⟨s, hts, hsu, hacc, hval⟩ := readSplit_exact h hrun
  exact ⟨s, hts, hsu, hacc, hval, hval ▸ h.mono hts.le, hval ▸ h.mono hsu.le⟩

theorem subU64_exact {aHi aLo bHi bLo : Word} (h : joined bHi bLo ≤ joined aHi aLo) :
    joined (subU64 aHi aLo bHi bLo).1 (subU64 aHi aLo bHi bLo).2 =
      joined aHi aLo - joined bHi bLo := by
  have h1 := aHi.isLt
  have h2 := aLo.isLt
  have h3 := bHi.isLt
  have h4 := bLo.isLt
  simp only [joined] at h
  unfold subU64 joined
  by_cases hlt : aLo < bLo
  · have hlt' : aLo.toNat < bLo.toNat := BitVec.lt_def.mp hlt
    have hlo : (aLo - bLo).toNat = aLo.toNat + 2 ^ 32 - bLo.toNat := by
      rw [BitVec.toNat_sub]
      omega
    have hhi : (aHi - bHi - 1).toNat = aHi.toNat - bHi.toNat - 1 := by
      rw [BitVec.toNat_sub, BitVec.toNat_sub]
      show (2 ^ 32 - 1 + _) % 2 ^ 32 = _
      omega
    simp only [hlt, if_true, hlo, hhi]
    omega
  · have hge : bLo.toNat ≤ aLo.toNat := Nat.not_lt.mp fun h => hlt (BitVec.lt_def.mpr h)
    have hlo : (aLo - bLo).toNat = aLo.toNat - bLo.toNat := by
      rw [BitVec.toNat_sub]
      omega
    have hhi : (aHi - bHi - 0).toNat = aHi.toNat - bHi.toNat := by
      show (aHi - bHi - 0#32).toNat = _
      rw [BitVec.sub_zero, BitVec.toNat_sub]
      omega
    simp only [hlt, if_false, hlo, hhi]
    omega

variable {reg : Port → Nat → Word}

theorem difference_of_reads {hi lo : Port} {c : Nat → Nat} (h : Halves reg hi lo c)
    {fuel t₀ u₀ t₁ u₁ : Nat} {first second : List (Port × Nat)} {v₀ v₁ : Word × Word}
    (hfirst : Finishes reg (readSplit hi lo fuel) t₀ first u₀ v₀)
    (hsecond : Finishes reg (readSplit hi lo fuel) t₁ second u₁ v₁) (hle : u₀ ≤ t₁) :
    ∃ s₀ s₁, Accepts hi lo first s₀ ∧ Accepts hi lo second s₁ ∧ c s₀ ≤ c s₁ ∧
      joined (subU64 v₁.1 v₁.2 v₀.1 v₀.2).1 (subU64 v₁.1 v₁.2 v₀.1 v₀.2).2 = c s₁ - c s₀ := by
  obtain ⟨s₀, _, hu, hacc₀, hval₀⟩ := readSplit_exact h hfirst
  obtain ⟨s₁, ht, _, hacc₁, hval₁⟩ := readSplit_exact h hsecond
  have hmono : c s₀ ≤ c s₁ := h.mono (by omega)
  refine ⟨s₀, s₁, hacc₀, hacc₁, hmono, ?_⟩
  rw [subU64_exact (by rw [hval₀, hval₁]; exact hmono), hval₀, hval₁]

/-- Both differences of a round. -/
def RoundOk (C : Cpu) (tr : List (Port × Nat)) (d : Delta) : Prop :=
  Measures (.csr .mcycleh) (.csr .mcycle) C.cycles tr d.cycles ∧
    Measures (.csr .minstreth) (.csr .minstret) C.instrs tr d.instrs

theorem uartScpiRound_exact (C : Cpu) {A : ScpiApp} {buffer : CPtr} {fuel t u : Nat}
    {tr : List (Port × Nat)} {d : Delta}
    (h : Finishes C.reg (uartScpiRound A buffer fuel) t tr u d) : RoundOk C tr d := by
  obtain ⟨_, len, trg, _, rfl, hgets, h⟩ := h.of_bind
  obtain ⟨_, c0, trc0, _, rfl, hc0, h⟩ := h.of_bind
  obtain ⟨_, i0, tri0, _, rfl, hi0, h⟩ := h.of_bind
  obtain ⟨_, _, trs, _, rfl, hserve, h⟩ := h.of_bind
  obtain ⟨_, _, trf, _, rfl, hflush, h⟩ := h.of_bind
  obtain ⟨_, c1, trc1, _, rfl, hc1, h⟩ := h.of_bind
  obtain ⟨_, i1, tri1, _, rfl, hi1, h⟩ := h.of_bind
  obtain ⟨_, _, trp, _, rfl, hp, h⟩ := h.of_bind
  obtain ⟨_, _, trq, _, rfl, hq, h⟩ := h.of_bind
  obtain ⟨rfl, rfl⟩ := h.of_pure
  have h1 := hc0.le
  have h2 := hi0.le
  have h3 := hserve.le
  have h4 := hflush.le
  have h5 := hc1.le
  refine ⟨?_, ?_⟩
  · obtain ⟨s₀, s₁, hacc₀, hacc₁, hle, hval⟩ := difference_of_reads C.mcycle hc0 hc1 (by omega)
    refine ⟨trg, trc0, tri0 ++ trs ++ trf, trc1, tri1 ++ trp ++ trq, s₀, s₁, ?_, hacc₀, hacc₁,
      hle, hval⟩
    simp only [List.append_assoc, List.append_nil]
  · obtain ⟨s₀, s₁, hacc₀, hacc₁, hle, hval⟩ := difference_of_reads C.minstret hi0 hi1 (by omega)
    refine ⟨trg ++ trc0, tri0, trs ++ trf ++ trc1, tri1, trp ++ trq, s₀, s₁, ?_, hacc₀, hacc₁,
      hle, hval⟩
    simp only [List.append_assoc, List.append_nil]

/-- The loads of at most so many rounds, and their differences: where `exit_scpi` is not set a round
follows, whose two differences are exact. -/
inductive RoundsOk (C : Cpu) (A : ScpiApp) : Nat → List (Port × Nat) → List Delta → Prop where
  | enough : RoundsOk C A 0 [] []
  | exit {n t u : Nat} {test : List (Port × Nat)} (h : Finishes C.reg A.exitScpi t test u true) :
      RoundsOk C A (n + 1) test []
  | round {n t u : Nat} {test round rest : List (Port × Nat)} {d : Delta} {ds : List Delta}
      (h : Finishes C.reg A.exitScpi t test u false) (ok : RoundOk C round d)
      (next : RoundsOk C A n rest ds) : RoundsOk C A (n + 1) (test ++ (round ++ rest)) (d :: ds)

theorem uartScpi_exact (C : Cpu) {A : ScpiApp} {buffer : CPtr} {fuel n t u : Nat}
    {tr : List (Port × Nat)} {ds : List Delta}
    (h : Finishes C.reg (uartScpi A buffer fuel n) t tr u ds) : RoundsOk C A n tr ds := by
  induction n generalizing t u tr ds with
  | zero =>
    obtain ⟨rfl, rfl⟩ := h.of_pure
    exact .enough
  | succ n ih =>
    obtain ⟨_, stop, tre, _, rfl, htest, h⟩ := h.of_bind
    cases stop with
    | true =>
      obtain ⟨rfl, rfl⟩ := h.of_pure
      rw [List.append_nil]
      exact .exit htest
    | false =>
      obtain ⟨_, d, trd, _, rfl, hround, h⟩ := h.of_bind
      obtain ⟨_, ds', trn, _, rfl, hrounds, h⟩ := h.of_bind
      obtain ⟨rfl, rfl⟩ := h.of_pure
      rw [List.append_nil]
      exact .round htest (uartScpiRound_exact C hround) (ih hrounds)

/-- What `rv_timer_counter_read` stores when it succeeds. -/
def storedCounter : Hal.RvTimerResult × Option (BitVec 64) → Option Nat
  | (.kRvTimerOk, some v) => some v.toNat
  | _ => none

theorem linearizable_counterRead {mmio : Word → Nat → Word} {T : RvTimer} {hartId : Word}
    {c : Nat → Nat} (h : Halves mmio (T.upper hartId) (T.lower hartId) c)
    (out : Option (BitVec 64)) (fuel : Nat) :
    Linearizable mmio (T.upper hartId) (T.lower hartId) c
      (rvTimerCounterRead (some T) hartId out fuel) storedCounter := by
  rintro t tr u ⟨result, v⟩ n hrun hv
  cases result with
  | kRvTimerBadArg => cases hv
  | kRvTimerOk =>
    obtain ⟨_, m, x, hT, -, hm, hread, rfl⟩ := counterRead_ok hrun
    cases hT
    have hn : n = joined x.1 x.2 := by
      rw [← counterValue_toNat]
      exact (Option.some.inj hv).symm
    obtain ⟨s, hts, hsm, hacc, hval, hentry, hexit⟩ :=
      linearizable_readSplit h fuel _ _ _ _ _ hread rfl
    subst hn
    exact ⟨s, hts, by omega, hacc, hval, hentry, hexit.trans (h.mono hm)⟩

/-- **64-bit counter reads are linearizable**, and the differences of `uart_scpi` are exact. -/
theorem counter_reads_linearizable (C : Cpu) (mmio : Word → Nat → Word) (T : RvTimer)
    (hartId : Word) (timer : Nat → Nat)
    (htimer : Halves mmio (T.upper hartId) (T.lower hartId) timer) :
    (∀ fuel, Linearizable C.reg (.csr .mcycleh) (.csr .mcycle) C.cycles (readMcycle fuel)
      fun v => some (joined v.1 v.2)) ∧
    (∀ fuel, Linearizable C.reg (.csr .minstreth) (.csr .minstret) C.instrs (readMinstret fuel)
      fun v => some (joined v.1 v.2)) ∧
    (∀ out fuel, Linearizable mmio (T.upper hartId) (T.lower hartId) timer
      (rvTimerCounterRead (some T) hartId out fuel) storedCounter) ∧
    (∀ A buffer fuel n t tr u ds, Finishes C.reg (uartScpi A buffer fuel n) t tr u ds →
      RoundsOk C A n tr ds) :=
  ⟨linearizable_readSplit C.mcycle, linearizable_readSplit C.minstret,
    linearizable_counterRead htimer, fun _ _ _ _ _ _ _ _ h => uartScpi_exact C h⟩

/-- A counter that advances at every instant until it is full. -/
def tick (start t : Nat) : Nat := min (start + t) (2 ^ 64 - 1)

theorem halves_tick {ρ : Type} {reg : ρ → Nat → Word} {hi lo : ρ} {start : Nat}
    (hhi : ∀ t, reg hi t = BitVec.ofNat 32 (tick start t / 2 ^ 32))
    (hlo : ∀ t, reg lo t = BitVec.ofNat 32 (tick start t)) : Halves reg hi lo (tick start) := by
  refine ⟨fun s t h => ?_, fun t => ?_, hhi, hlo⟩
  · unfold tick
    omega
  · unfold tick
    omega

/-- Both counters of the core tick together. -/
def tickingReg (start : Nat) : Port → Nat → Word
  | .csr .mcycle, t | .csr .minstret, t => BitVec.ofNat 32 (tick start t)
  | .csr .mcycleh, t | .csr .minstreth, t => BitVec.ofNat 32 (tick start t / 2 ^ 32)
  | .input _, _ => 0

def tickingCpu (start : Nat) : Cpu where
  reg := tickingReg start
  cycles := tick start
  instrs := tick start
  mcycle := halves_tick (fun _ => rfl) (fun _ => rfl)
  minstret := halves_tick (fun _ => rfl) (fun _ => rfl)

/-- The timer at `RV_TIMER_AO_START_ADDRESS`. -/
def rvTimerAo : RvTimer := ⟨0x20050000, 1⟩

def tickingMmio (addr : Word) (t : Nat) : Word :=
  if addr = rvTimerAo.upper 0 then BitVec.ofNat 32 (tick 0 t / 2 ^ 32)
  else BitVec.ofNat 32 (tick 0 t)

/-- Tests one of its inputs for the exit, and does nothing else. -/
def idleApp : ScpiApp where
  exitScpi := do
    let v ← fetch (.input 0)
    pure (v != 0)
  uartGets _ _ := pure 0
  scpiInput _ _ := pure ()
  scpiFlush := pure ()
  printf _ _ := pure ()

theorem halves_rvTimerAo : Halves tickingMmio (rvTimerAo.upper 0) (rvTimerAo.lower 0) (tick 0) :=
  halves_tick (fun _ => if_pos rfl) (fun _ => if_neg (by decide))

/-- A read of `mcycle` with a carry in its first attempt, one of the timer, and a round of `uart_scpi`
with a carry between its reads. -/
theorem counter_reads_linearizable_carry :
    (∃ tr s, Finishes (tickingReg (2 ^ 32 - 2)) (readMcycle 2) 0 tr 7 (1, 3) ∧
      Accepts (.csr .mcycleh) (.csr .mcycle) tr s ∧ tick (2 ^ 32 - 2) s = 2 ^ 32 + 3) ∧
    (∃ tr s, Finishes tickingMmio (rvTimerCounterRead (some rvTimerAo) 0 (some 0) 1) 0 tr 4
        (.kRvTimerOk, some 2) ∧
      Accepts (rvTimerAo.upper 0) (rvTimerAo.lower 0) tr s ∧ tick 0 s = 2) ∧
    ∃ tr, Finishes (tickingReg (2 ^ 32 - 8)) (uartScpi idleApp (.user 0) 1 1) 0 tr 14
        [⟨(0, 6), (0, 6)⟩] ∧
      RoundsOk (tickingCpu (2 ^ 32 - 8)) idleApp 1 tr [⟨(0, 6), (0, 6)⟩] := by
  obtain ⟨hmcycle, -, htimer, -⟩ := counter_reads_linearizable (tickingCpu (2 ^ 32 - 2)) tickingMmio
    rvTimerAo 0 (tick 0) halves_rvTimerAo
  obtain ⟨-, -, -, hrounds⟩ := counter_reads_linearizable (tickingCpu (2 ^ 32 - 8)) tickingMmio
    rvTimerAo 0 (tick 0) halves_rvTimerAo
  refine ⟨?_, ?_, ?_⟩
  · have hrun : Finishes (tickingReg (2 ^ 32 - 2)) (readMcycle 2) 0 _ 7 (1, 3) :=
      .read (s := 1) (by decide) (.read (s := 2) (by decide) (.read (s := 3) (by decide)
        (.read (s := 4) (by decide) (.read (s := 5) (by decide) (.read (s := 6) (by decide)
          (.ret (by decide)))))))
    obtain ⟨s, -, -, hacc, hval, -⟩ := hmcycle 2 _ _ _ _ _ hrun rfl
    exact ⟨_, s, hrun, hacc, hval.symm⟩
  · have hrun : Finishes tickingMmio (rvTimerCounterRead (some rvTimerAo) 0 (some 0) 1) 0 _ 4
        (.kRvTimerOk, some 2) :=
      .read (s := 1) (by decide) (.read (s := 2) (by decide) (.read (s := 3) (by decide)
        (.ret (by decide))))
    obtain ⟨s, -, -, hacc, hval, -⟩ := htimer (some 0) 1 _ _ _ _ _ hrun rfl
    exact ⟨_, s, hrun, hacc, hval.symm⟩
  · have hrun : Finishes (tickingReg (2 ^ 32 - 8)) (uartScpi idleApp (.user 0) 1 1) 0 _ 14
        [⟨(0, 6), (0, 6)⟩] :=
      .read (s := 1) (by decide) (.read (s := 2) (by decide) (.read (s := 3) (by decide)
        (.read (s := 4) (by decide) (.read (s := 5) (by decide) (.read (s := 6) (by decide)
          (.read (s := 7) (by decide) (.read (s := 8) (by decide) (.read (s := 9) (by decide)
            (.read (s := 10) (by decide) (.read (s := 11) (by decide) (.read (s := 12) (by decide)
              (.read (s := 13) (by decide) (.ret (by decide))))))))))))))
    exact ⟨_, hrun, hrounds _ _ _ _ _ _ _ _ hrun⟩

/-! ## TEE_EC_RDCOUNTERS -/

/-- What was printed: formats and arguments. -/
abbrev Printed := List (String × List Word)

abbrev Handling := StateT Printed (Io Port Word)

/-- Firmware `F` on the counters of the core; `out` is what a `printf` does on the ports. -/
def counting (F : Firmware Handling) (out : String → List Word → Io Port Word Unit) :
    Firmware Handling :=
  { F with
    printf := fun format args => do
      StateT.lift (out format args)
      modify (· ++ [(format, args)])
    csrr := fun r => StateT.lift (Io.load (.csr r)) }

/-- The system call TEE_EC_RDCOUNTERS. -/
def rdcounters (F : Firmware Handling) (out : String → List Word → Io Port Word Unit)
    (ptr len : Word) : Io Port Word (Option Byte × Printed) :=
  (handlerUserEcall (counting F out) teeEcRdcounters ptr len).run []

/-- The four printed halves as two numbers. -/
def reading : Printed → Option (Nat × Nat)
  | [(_, [cLo]), (_, [cHi]), (_, [iLo]), (_, [iHi])] => some (joined cHi cLo, joined iHi iLo)
  | _ => none

/-- The counter `c` is at `n` at some instant from `t` to `u`. -/
def Attains (c : Nat → Nat) (t u n : Nat) : Prop := ∃ s, t ≤ s ∧ s ≤ u ∧ c s = n

/-- What the call that lasts from `t` to `u` prints is what the counters were. -/
def ReadingOk (C : Cpu) (t u : Nat) (log : Printed) : Prop :=
  ∃ n m, reading log = some (n, m) ∧ Attains C.cycles t u n ∧ Attains C.instrs t u m

/-- No carry between the load of the lower half at `s` and that of the upper half at `s'`;
or the call lasts until the counter has advanced by exactly what the carries add. -/
def Untorn (c : Nat → Nat) (s s' u : Nat) : Prop :=
  c s' / 2 ^ 32 = c s / 2 ^ 32 ∨
    ∃ x, s < x ∧ x ≤ u ∧ c x = c s + (c s' / 2 ^ 32 - c s / 2 ^ 32) * 2 ^ 32

/-- Numbers `n`, `n'` printed by a call from `t` to `u` and a later one from `t'` to `u'` are
as far apart as the counter was. -/
def Elapsed (c : Nat → Nat) (t u t' u' n n' : Nat) : Prop :=
  ∃ s s', t ≤ s ∧ s ≤ u ∧ t' ≤ s' ∧ s' ≤ u' ∧ n ≤ n' ∧ n' - n = c s' - c s

/-- Both counters are loaded untorn by a call that ends at `u`. -/
def LoadsUntorn (C : Cpu) (tr : List (Port × Nat)) (u : Nat) : Prop :=
  ∃ s₁ s₂ s₃ s₄ rest,
    tr = (.csr .mcycle, s₁) :: (.csr .mcycleh, s₂) :: (.csr .minstret, s₃) ::
      (.csr .minstreth, s₄) :: rest ∧
    Untorn C.cycles s₁ s₂ u ∧ Untorn C.instrs s₃ s₄ u

section Handler

variable {F : Firmware Handling} {out : String → List Word → Io Port Word Unit} {α : Type}
  {log : Printed} {t u : Nat} {tr : List (Port × Nat)}

theorem runs_csrr {r : Csr} {v : Word} {log' : Printed}
    (h : (((counting F out).csrr r).run log).Runs reg t tr u (v, log')) :
    ∃ s, t < s ∧ s ≤ u ∧ tr = [(.csr r, s)] ∧ v = reg (.csr r) s ∧ log' = log := by
  obtain ⟨_, _, _, _, rfl, hload, hret⟩ := Io.Runs.of_bind h
  obtain ⟨s, hlt, hle, rfl, rfl⟩ := hload.of_load
  have hle' := hret.le
  cases hret
  exact ⟨s, hlt, by omega, rfl, rfl, rfl⟩

theorem runs_printf {format : String} {args : List Word} {log' : Printed}
    (h : (((counting F out).printf format args).run log).Runs reg t tr u ((), log')) :
    log' = log ++ [(format, args)] := by
  obtain ⟨_, _, log₁, _, _, rfl, hout, hlog⟩ := Io.Runs.of_bind_run h
  obtain ⟨_, _, _, _, rfl, -, hret⟩ := Io.Runs.of_bind hout
  cases hret
  cases hlog
  rfl

/-- What TEE_EC_RDCOUNTERS prints, and when it loads it. -/
theorem ecRdcounters_run {log' : Printed}
    (h : ((ecRdcounters (counting F out)).run []).Runs reg t tr u ((), log')) :
    ∃ s₁ s₂ s₃ s₄ rest,
      tr = (.csr .mcycle, s₁) :: (.csr .mcycleh, s₂) :: (.csr .minstret, s₃) ::
        (.csr .minstreth, s₄) :: rest ∧
      t < s₁ ∧ s₁ < s₂ ∧ s₂ < s₃ ∧ s₃ < s₄ ∧ s₄ ≤ u ∧
      reading log' = some (joined (reg (.csr .mcycleh) s₂) (reg (.csr .mcycle) s₁),
        joined (reg (.csr .minstreth) s₄) (reg (.csr .minstret) s₃)) := by
  obtain ⟨_, _, _, _, _, rfl, hread, h⟩ := h.of_bind_run
  obtain ⟨s₁, h₁, hle₁, rfl, rfl, rfl⟩ := runs_csrr hread
  obtain ⟨_, _, _, _, _, rfl, hread, h⟩ := h.of_bind_run
  obtain ⟨s₂, h₂, hle₂, rfl, rfl, rfl⟩ := runs_csrr hread
  obtain ⟨_, _, _, _, _, rfl, hread, h⟩ := h.of_bind_run
  obtain ⟨s₃, h₃, hle₃, rfl, rfl, rfl⟩ := runs_csrr hread
  obtain ⟨_, _, _, _, _, rfl, hread, h⟩ := h.of_bind_run
  obtain ⟨s₄, h₄, hle₄, rfl, rfl, rfl⟩ := runs_csrr hread
  have hle := h.le
  obtain ⟨_, _, _, _, _, rfl, hprint, h⟩ := h.of_bind_run
  obtain rfl := runs_printf hprint
  obtain ⟨_, _, _, _, _, rfl, hprint, h⟩ := h.of_bind_run
  obtain rfl := runs_printf hprint
  obtain ⟨_, _, _, _, _, rfl, hprint, h⟩ := h.of_bind_run
  obtain rfl := runs_printf hprint
  obtain rfl := runs_printf h
  exact ⟨s₁, s₂, s₃, s₄, _, rfl, h₁, by omega, by omega, by omega, by omega, rfl⟩

theorem rdcounters_run {ptr len : Word} {a : Option Byte × Printed}
    (h : (rdcounters F out ptr len).Runs reg t tr u a) :
    ∃ s₁ s₂ s₃ s₄ rest,
      tr = (.csr .mcycle, s₁) :: (.csr .mcycleh, s₂) :: (.csr .minstret, s₃) ::
        (.csr .minstreth, s₄) :: rest ∧
      t < s₁ ∧ s₁ < s₂ ∧ s₂ < s₃ ∧ s₃ < s₄ ∧ s₄ ≤ u ∧
      reading a.2 = some (joined (reg (.csr .mcycleh) s₂) (reg (.csr .mcycle) s₁),
        joined (reg (.csr .minstreth) s₄) (reg (.csr .minstret) s₃)) := by
  have hcase : rdcounters F out ptr len =
      (do
        ecRdcounters (counting F out)
        return none : Handling (Option Byte)).run [] := by
    unfold rdcounters handlerUserEcall
    rw [if_neg (by decide), if_neg (by decide), if_neg (by decide), if_pos rfl]
  rw [hcase] at h
  obtain ⟨s, _, log, _, _, rfl, h, hret⟩ := h.of_bind_run
  obtain ⟨s₁, s₂, s₃, s₄, rest, rfl, h₁, h₂, h₃, h₄, hle, hlog⟩ := ecRdcounters_run h
  have hle' := hret.le
  cases hret
  exact ⟨s₁, s₂, s₃, s₄, rest ++ [], rfl, h₁, h₂, h₃, h₄, by omega, hlog⟩

end Handler

/-- Halves loaded at `s` and `s'` are the counter at some instant if they are not torn. -/
theorem attains_iff {hi lo : Port} {c : Nat → Nat} (h : Halves reg hi lo c) {t s s' u : Nat}
    (ht : t < s) (hs : s < s') (hu : s' ≤ u) :
    Attains c t u (joined (reg hi s') (reg lo s)) ↔ Untorn c s s' u := by
  refine ⟨?_, ?_⟩
  · rintro ⟨x, htx, hxu, hx⟩
    rw [h.torn hs.le] at hx
    have hdiv : c s / 2 ^ 32 ≤ c s' / 2 ^ 32 := Nat.div_le_div_right (h.mono hs.le)
    rcases Nat.eq_or_lt_of_le hdiv with heq | hlt
    · exact .inl heq.symm
    · refine .inr ⟨x, ?_, hxu, hx⟩
      -- the counter is past what it was at `s`
      by_contra hle
      have := h.mono (Nat.not_lt.mp hle)
      omega
  · rintro (heq | ⟨x, hsx, hxu, hx⟩)
    · exact ⟨s, ht.le, by omega, (h.whole heq).symm⟩
    · exact ⟨x, by omega, hxu, by rw [h.torn hs.le, hx]⟩

theorem readingOk_iff (C : Cpu) {F : Firmware Handling}
    {out : String → List Word → Io Port Word Unit} {ptr len : Word} {t u : Nat}
    {tr : List (Port × Nat)} {a : Option Byte × Printed}
    (h : (rdcounters F out ptr len).Runs C.reg t tr u a) :
    ReadingOk C t u a.2 ↔ LoadsUntorn C tr u := by
  obtain ⟨s₁, s₂, s₃, s₄, rest, rfl, h₁, h₂, h₃, h₄, hle, hlog⟩ := rdcounters_run h
  have hc := attains_iff C.mcycle (u := u) h₁ h₂ (by omega)
  have hi := attains_iff C.minstret (t := t) (u := u) (by omega) h₄ hle
  refine ⟨?_, ?_⟩
  · rintro ⟨n, m, hread, hn, hm⟩
    rw [hlog] at hread
    cases hread
    exact ⟨s₁, s₂, s₃, s₄, rest, rfl, hc.mp hn, hi.mp hm⟩
  · rintro ⟨_, _, _, _, _, e, hn, hm⟩
    cases e
    exact ⟨_, _, hlog, hc.mpr hn, hi.mpr hm⟩

/-- Values of a counter in two calls, one after the other. -/
theorem elapsed_of_attains {hi lo : Port} {c : Nat → Nat} (h : Halves reg hi lo c)
    {t u t' u' n n' : Nat} (hn : Attains c t u n) (hn' : Attains c t' u' n') (hle : u ≤ t') :
    Elapsed c t u t' u' n n' := by
  obtain ⟨s, ht, hu, rfl⟩ := hn
  obtain ⟨s', ht', hu', rfl⟩ := hn'
  exact ⟨s, s', ht, hu, ht', hu', h.mono (by omega), rfl⟩

/-- **TEE_EC_RDCOUNTERS** prints values of the counters exactly when it loads them untorn;
then two readings are as far apart as the counters were. -/
theorem rdcounters_ok_iff (C : Cpu) (F : Firmware Handling)
    (out : String → List Word → Io Port Word Unit) (ptr len : Word) :
    (∀ t tr u a, (rdcounters F out ptr len).Runs C.reg t tr u a →
      (ReadingOk C t u a.2 ↔ LoadsUntorn C tr u)) ∧
    (∀ t tr u a t' tr' u' a', (rdcounters F out ptr len).Runs C.reg t tr u a →
      (rdcounters F out ptr len).Runs C.reg t' tr' u' a' → u ≤ t' →
      LoadsUntorn C tr u → LoadsUntorn C tr' u' →
      ∃ n m n' m', reading a.2 = some (n, m) ∧ reading a'.2 = some (n', m') ∧
        Elapsed C.cycles t u t' u' n n' ∧ Elapsed C.instrs t u t' u' m m') := by
  refine ⟨fun t tr u a h => readingOk_iff C h, ?_⟩
  intro t tr u a t' tr' u' a' h h' hle hok hok'
  obtain ⟨n, m, hread, hn, hm⟩ := (readingOk_iff C h).mpr hok
  obtain ⟨n', m', hread', hn', hm'⟩ := (readingOk_iff C h').mpr hok'
  exact ⟨n, m, n', m', hread, hread', elapsed_of_attains C.mcycle hn hn' hle,
    elapsed_of_attains C.minstret hm hm' hle⟩

/-- Firmware without effects, and a `printf` that takes no time on the ports. -/
def idleFirmware : Firmware Handling where
  printf _ _ := pure ()
  scpiInput _ _ := pure ()
  scpiFlush := pure ()
  uartPutchar _ := pure ()
  uartGetchar := pure 0
  csrr _ := pure 0
  spin := pure ()

def idlePrintf (_ : String) (_ : List Word) : Io Port Word Unit := pure ()

theorem rdcounters_runs (start : Nat) :
    (rdcounters idleFirmware idlePrintf 0 0).Runs (tickingReg start) 0
      [(.csr .mcycle, 1), (.csr .mcycleh, 2), (.csr .minstret, 3), (.csr .minstreth, 4)] 10
      (none, [("%lx\n\r", [tickingReg start (.csr .mcycle) 1]),
        ("%lx\n\r", [tickingReg start (.csr .mcycleh) 2]),
        ("%lx\n\r", [tickingReg start (.csr .minstret) 3]),
        ("%lx\n\r", [tickingReg start (.csr .minstreth) 4])]) :=
  .read (by decide) (.read (by decide) (.read (by decide) (.read (by decide) (.ret (by decide)))))

theorem rdcounters_ok_early : ReadingOk (tickingCpu 0) 0 10
    [("%lx\n\r", [1]), ("%lx\n\r", [0]), ("%lx\n\r", [3]), ("%lx\n\r", [0])] :=
  ((rdcounters_ok_iff (tickingCpu 0) idleFirmware idlePrintf 0 0).1 _ _ _ _
    (rdcounters_runs 0)).mpr ⟨1, 2, 3, 4, [], rfl, .inl rfl, .inl rfl⟩

/-- A carry between the two loads of the cycle counter: it is printed as `2 ^ 33 - 1` while it
goes from `2 ^ 32 - 2` to `2 ^ 32 + 8`. -/
theorem rdcounters_torn :
    ∃ tr a, (rdcounters idleFirmware idlePrintf 0 0).Runs (tickingCpu (2 ^ 32 - 2)).reg 0 tr 10 a ∧
      reading a.2 = some (2 ^ 33 - 1, 2 ^ 32 + 1) ∧ ¬ ReadingOk (tickingCpu (2 ^ 32 - 2)) 0 10 a.2 := by
  refine ⟨_, _, rdcounters_runs (2 ^ 32 - 2), rfl, ?_⟩
  rintro ⟨n, m, hread, ⟨s, -, hs, hn⟩, -⟩
  have htorn : n = 2 ^ 33 - 1 := (Prod.mk.inj (Option.some.inj hread)).1.symm
  have hticks : tick (2 ^ 32 - 2) s = n := hn
  unfold tick at hticks
  omega

end XHeepFemu.Tee.Counters
