import XHeepFemu.Hal.Gpio

/-!
# Pending GPIO interrupts

Calls of the driver and interrupt events interleave freely. `Watched` keeps beside
the device what its history says: a pin is pending once an event has happened on it
since it was last acknowledged and since the last reset. A call takes effect when it
accesses INTRPT_STATUS. `gpio_irq_acknowledge` writes the number of the pin there and
`gpio_reset` writes zero; `Harmless` says when that clears what it should.
-/

namespace XHeepFemu.Hal

open Lib (Io Sys Label Reach follow reach_of_follow reach_of_checked)
open Hw (GpioReg Pin)

/-- The calls about pending interrupts. -/
inductive PendingOp where
  | gpioReset (gpio : Option Gpio)
  | gpioIrqAcknowledge (gpio : Option Gpio) (pin : Pin)
  | gpioIrqIsPending (gpio : Option Gpio) (pin : Pin)
  deriving DecidableEq, Repr

def pinWord (pin : Pin) : Word := BitVec.ofNat 32 pin.val

/-- What a call reports: a pin and whether it is pending. -/
abbrev Report := Option (Pin × Bool)

def PendingOp.io : PendingOp → GpioIo Report
  | .gpioReset gpio => do
    let _ ← Hal.gpioReset gpio
    pure none
  | .gpioIrqAcknowledge gpio pin => do
    let _ ← Hal.gpioIrqAcknowledge gpio (pinWord pin)
    pure none
  | .gpioIrqIsPending gpio pin => do
    let (result, isPending) ← Hal.gpioIrqIsPending gpio (pinWord pin) (some false)
    pure (if result = .kGpioOk then isPending.map (pin, ·) else none)

structure Watched where
  sys : Sys GpioReg Word Hw.Gpio Report
  /-- The call in progress. -/
  op : Option PendingOp
  /-- An event happened since the last acknowledgement of the pin and since the last reset. -/
  pending : Pin → Bool
  /-- What the call in progress has to report. -/
  due : Report
  /-- What the calls had to report. -/
  expected : List Report

/-- What an access of a call to INTRPT_STATUS does to the history. -/
def forget (op : Option PendingOp) (pending : Pin → Bool) : Pin → Bool :=
  match op with
  | some (.gpioReset _) => fun _ => false
  | some (.gpioIrqAcknowledge _ pin) => fun q => pending q && decide (q ≠ pin)
  | _ => pending

/-- What a call has to report when it reads INTRPT_STATUS. -/
def answer (op : Option PendingOp) (pending : Pin → Bool) : Report :=
  match op with
  | some (.gpioIrqIsPending _ pin) => some (pin, pending pin)
  | _ => none

/-- The history after an access, or the return, of the call in progress. -/
def Watched.observe (s : Watched) (sys : Sys GpioReg Word Hw.Gpio Report) :
    Option (GpioIo Report) → Watched
  | some (.ret _) => { s with sys, expected := s.expected ++ [s.due] }
  | some (.write .intrptStatus _ _) => { s with sys, pending := forget s.op s.pending }
  | some (.read .intrptStatus _) => { s with sys, due := answer s.op s.pending }
  | _ => { s with sys }

def Watched.next (s : Watched) (l : Label Pin PendingOp) : Option Watched :=
  (Sys.next Hw.Gpio.device PendingOp.io s.sys l).map fun sys =>
    match l with
    | .env p => { s with sys, pending := fun q => s.pending q || decide (q = p) }
    | .call op => { s with sys, op := some op, due := none }
    | .cpu => s.observe sys s.sys.prog

/-- The device `g` before any call; what is pending there counts as having happened. -/
def Watched.init (g : Hw.Gpio) : Watched := ⟨⟨g, none, []⟩, none, g.pending, none, []⟩

/-- Every report was right, and a report on any pin would be right now. -/
structure Right (s : Watched) : Prop where
  reports : s.sys.results = s.expected
  pending : ∀ pin, s.sys.dev.pending pin = s.pending pin

/-- A pin is only acknowledged while neither it nor a pin whose number is a one bit of its own
is pending, and the GPIO is only reset while nothing is. -/
def HarmlessStep (s : Watched) (l : Label Pin PendingOp) : Prop :=
  ∀ v k, l = .cpu → s.sys.prog = some (.write .intrptStatus v k) →
    match s.op with
    | some (.gpioReset _) => ∀ q, s.pending q = false
    | some (.gpioIrqAcknowledge _ pin) =>
      ∀ q, q = pin ∨ pin.val.testBit q.val = true → s.pending q = false
    | _ => True

/-! ## The call in progress -/

/-- What a call writes to INTRPT_STATUS. -/
def PendingOp.Clears : PendingOp → Word → Prop
  | .gpioReset _, v => v = 0
  | .gpioIrqAcknowledge _ pin, v => v = pinWord pin
  | .gpioIrqIsPending _ _, _ => False

/-- The rest of a call that has `due` to report. -/
def Rest (op : PendingOp) (due : Report) : GpioIo Report → Prop
  | .ret a => a = due
  | .read r k => r = .intrptStatus ∧ ∃ gpio pin, op = .gpioIrqIsPending gpio pin ∧
      ∀ v : Word, k v = .ret (some (pin, v.getLsbD pin.val))
  | .write r v k => (r = .intrptStatus → op.Clears v) ∧ Rest op due k
  | .poll _ _ _ => False

theorem rest_io (op : PendingOp) : Rest op none op.io := by
  rcases op with (_ | gpio) | ⟨(_ | gpio), pin⟩ | ⟨(_ | gpio), pin⟩
  · exact rfl
  · exact ⟨nofun, nofun, nofun, nofun, nofun, nofun, fun _ => rfl, rfl⟩
  · exact rfl
  · exact ⟨fun _ => rfl, rfl⟩
  · exact rfl
  · refine ⟨rfl, some gpio, pin, rfl, fun v => ?_⟩
    have hpin : (pinWord pin).toNat = pin.val := by
      unfold pinWord
      rw [BitVec.toNat_ofNat]
      omega
    show Io.ret (some (pin, bitfieldBit32Read v (pinWord pin).toNat)) = _
    rw [bit32Read_eq, hpin]

/-- Where a run can be while all its steps are harmless. -/
structure PendingInv (s : Watched) : Prop where
  right : Right s
  rest : ∀ p, s.sys.prog = some p → ∃ op, s.op = some op ∧ Rest op s.due p

theorem observe_write_other (s : Watched) (sys : Sys GpioReg Word Hw.Gpio Report) {r : GpioReg}
    (v : Word) (k : GpioIo Report) (h : r ≠ .intrptStatus) :
    s.observe sys (some (.write r v k)) = { s with sys } := by
  cases r with
  | intrptStatus => exact absurd rfl h
  | _ => rfl

theorem pendingInv_init (g : Hw.Gpio) : PendingInv (.init g) :=
  ⟨⟨rfl, fun _ => rfl⟩, nofun⟩

theorem pinWord_bit (pin q : Pin) : (pinWord pin).getLsbD q.val = pin.val.testBit q.val := by
  simp only [pinWord, BitVec.getLsbD_ofNat, q.isLt, decide_true, Bool.true_and]

/-- What is written clears the right pins exactly when no pending one is cleared by mistake. -/
theorem clears_iff {g : Hw.Gpio} {pending : Pin → Bool} {op : PendingOp} {v : Word}
    (hg : ∀ pin, g.pending pin = pending pin) (h : op.Clears v) :
    (∀ q, (g.write .intrptStatus v).pending q = forget (some op) pending q) ↔
      match some op with
      | some (.gpioReset _) => ∀ q, pending q = false
      | some (.gpioIrqAcknowledge _ pin) =>
        ∀ q, q = pin ∨ pin.val.testBit q.val = true → pending q = false
      | _ => True := by
  simp only [Hw.Gpio.pending_write_status, hg]
  cases op with
  | gpioReset gpio =>
    obtain rfl : v = 0 := h
    have hzero : ∀ q : Pin, (0 : Word).getLsbD q.val = false := fun _ => BitVec.getLsbD_zero
    simp only [hzero, Bool.not_false, Bool.and_true, forget]
  | gpioIrqAcknowledge gpio pin =>
    obtain rfl : v = pinWord pin := h
    have hself : pin.val.testBit pin.val = false := Nat.testBit_lt_two_pow Nat.lt_two_pow_self
    simp only [pinWord_bit, forget]
    refine forall_congr' fun q => ?_
    by_cases hq : q = pin
    · subst hq
      simp [hself]
    · cases pending q <;> simp [hq]
  | gpioIrqIsPending gpio pin => exact h.elim

theorem next_right_iff {s t : Watched} {l : Label Pin PendingOp} (hi : PendingInv s)
    (h : s.next l = some t) :
    (Right t ↔ HarmlessStep s l) ∧
      ∀ p, t.sys.prog = some p → ∃ op, t.op = some op ∧ Rest op t.due p := by
  obtain ⟨⟨hreports, hpending⟩, hrest⟩ := hi
  obtain ⟨sys, hsys, rfl⟩ := Option.map_eq_some_iff.mp h
  rcases Sys.next_cases _ _ hsys with ⟨e, d, rfl, he, rfl⟩ | ⟨op, rfl, hp, rfl⟩ |
    ⟨a, rfl, hp, rfl⟩ | ⟨p, rfl, hp, hret, rfl⟩
  · refine ⟨⟨fun _ => nofun, fun _ => ⟨hreports, fun q => ?_⟩⟩, hrest⟩
    rw [Hw.Gpio.pending_env he, hpending]
  · refine ⟨⟨fun _ => nofun, fun _ => ⟨hreports, hpending⟩⟩, ?_⟩
    rintro p ⟨⟩
    exact ⟨op, rfl, rest_io op⟩
  · obtain ⟨op, hop, rfl⟩ := hrest _ hp
    simp only [hp, Watched.observe]
    refine ⟨⟨fun _ _ _ _ e => ?_, fun _ => ⟨?_, hpending⟩⟩, nofun⟩
    · rw [hp] at e
      cases e
    · exact congrArg (· ++ [s.due]) hreports
  · obtain ⟨op, hop, hr⟩ := hrest _ hp
    cases p with
    | ret a => exact absurd rfl (hret a)
    | poll r ready k => exact hr.elim
    | read r k =>
      obtain ⟨rfl, gpio, pin, rfl, hk⟩ := hr
      have hdev : (Hw.Gpio.device.exec s.sys.dev (.read .intrptStatus k)).1 = s.sys.dev := rfl
      have hprog : (Hw.Gpio.device.exec s.sys.dev (.read .intrptStatus k)).2 =
          .ret (some (pin, s.sys.dev.pending pin)) := hk _
      simp only [hp, hdev, hprog, Watched.observe]
      refine ⟨⟨fun _ _ _ _ e => ?_, fun _ => ⟨hreports, hpending⟩⟩, ?_⟩
      · rw [hp] at e
        cases e
      · rintro p ⟨⟩
        refine ⟨_, hop, ?_⟩
        rw [hop, hpending]
        rfl
    | write r v k =>
      obtain ⟨hclears, hrest'⟩ := hr
      have hdev : (Hw.Gpio.device.exec s.sys.dev (.write r v k)).1 = s.sys.dev.write r v := rfl
      have hprog : (Hw.Gpio.device.exec s.sys.dev (.write r v k)).2 = k := rfl
      by_cases hstatus : r = .intrptStatus
      · subst hstatus
        have hiff := clears_iff hpending (hclears rfl)
        simp only [hp, hdev, hprog, Watched.observe]
        refine ⟨⟨fun hright v' k' _ e => ?_, fun hharm => ⟨hreports, ?_⟩⟩, ?_⟩
        · rw [hop]
          refine hiff.mp fun q => ?_
          rw [← hop]
          exact hright.pending q
        · have := hharm v k rfl hp
          rw [hop] at this ⊢
          exact hiff.mpr this
        · rintro p ⟨⟩
          exact ⟨op, hop, hrest'⟩
      · simp only [hp, hdev, hprog, observe_write_other _ _ _ _ hstatus]
        refine ⟨⟨fun _ _ _ _ e => ?_, fun _ => ⟨hreports, fun q => ?_⟩⟩, ?_⟩
        · rw [hp] at e
          cases e
          exact absurd rfl hstatus
        · rw [Hw.Gpio.pending_write_other _ _ hstatus, hpending]
        · rintro p ⟨⟩
          exact ⟨op, hop, hrest'⟩

/-- **Pending interrupts** are reported right as long as every step is harmless, and the first
step that is not leaves a pin on which a report would be wrong. -/
theorem pending_reports_right (g : Hw.Gpio) {s : Watched}
    (r : Reach Watched.next HarmlessStep (.init g) s) :
    Right s ∧ ∀ l t, s.next l = some t → (Right t ↔ HarmlessStep s l) := by
  have hi : PendingInv s := r.induct (fun s l t hi hok h =>
    have hnext := next_right_iff hi h
    ⟨hnext.1.mpr hok, hnext.2⟩) (pendingInv_init g)
  exact ⟨hi.right, fun l t h => (next_right_iff hi h).1⟩

/-- A GPIO with nothing pending. -/
def quietGpio : Hw.Gpio := ⟨fun _ => 0⟩

/-- The GPIO handle of `GPIO_AO_START_ADDRESS`. -/
def gpioAo : Option Gpio := some ⟨0x200a0000⟩

/-- The next access does not clear a pending pin by mistake. -/
def harmless (s : Watched) : Bool :=
  match s.sys.prog with
  | some (.write .intrptStatus _ _) =>
    match s.op with
    | some (.gpioReset _) => decide (∀ q, s.pending q = false)
    | some (.gpioIrqAcknowledge _ pin) =>
      decide (∀ q, q = pin ∨ pin.val.testBit q.val = true → s.pending q = false)
    | _ => true
  | _ => true

theorem harmlessStep_of_harmless {s : Watched} (h : harmless s = true) (l : Label Pin PendingOp) :
    HarmlessStep s l := by
  intro v k _ hprog
  unfold harmless at h
  rw [hprog] at h
  cases hop : s.op with
  | none => exact trivial
  | some op =>
    rw [hop] at h
    cases op with
    | gpioReset gpio => exact of_decide_eq_true h
    | gpioIrqAcknowledge gpio pin => exact of_decide_eq_true h
    | gpioIrqIsPending gpio pin => exact trivial

/-- After a reset an event comes on pin 5, and pin 3 is acknowledged. -/
theorem pending_reports_right_event :
    ∃ s, Reach Watched.next HarmlessStep (.init quietGpio) s ∧
      s.sys.results = [none, none, some (5, true), some (3, false)] ∧ Right s := by
  have hrun : follow (fun s l => if harmless s then Watched.next s l else none) (.init quietGpio)
      (.call (.gpioReset gpioAo) :: List.replicate 8 .cpu ++
        [.env 5, .call (.gpioIrqAcknowledge gpioAo 3), .cpu, .cpu,
          .call (.gpioIrqIsPending gpioAo 5), .cpu, .cpu,
          .call (.gpioIrqIsPending gpioAo 3), .cpu, .cpu]) = some _ := rfl
  have r := reach_of_checked (fun _ l h => harmlessStep_of_harmless h l) hrun
  exact ⟨_, r, rfl, (pending_reports_right quietGpio r).1⟩

/-- Acknowledging pin 3 clears pins 0 and 1 instead. -/
theorem acknowledge_clears_others :
    ∃ s, Reach Watched.next (fun _ _ => True) (.init quietGpio) s ∧
      s.sys.results = [none, some (3, true), some (0, false)] ∧
      s.expected = [none, some (3, false), some (0, true)] ∧ ¬ Right s := by
  have hrun : follow Watched.next (.init quietGpio)
      [.env 0, .env 3, .call (.gpioIrqAcknowledge gpioAo 3), .cpu, .cpu,
        .call (.gpioIrqIsPending gpioAo 3), .cpu, .cpu,
        .call (.gpioIrqIsPending gpioAo 0), .cpu, .cpu] = some _ := rfl
  refine ⟨_, reach_of_follow hrun fun _ _ _ => trivial, rfl, rfl, fun h => ?_⟩
  exact absurd h.reports (by decide)

end XHeepFemu.Hal
