import XHeepFemu.Lib.Run
import XHeepFemu.Hal.Gpio

/-!
# Interrupt triggers of GPIO pins

To a caller each pin has a trigger set of its own: `configure` is what a call means
for it. `gpio_irq_set_trigger` writes whole registers, so it clears the triggers of
all other pins; it sets the wrong ones for `kGpioIrqTriggerEdgeFallingLevelHigh`; and
`gpio_reset` leaves the four registers alone. `Harmless` are the calls on which none
of this shows.
-/

namespace XHeepFemu.Hal

open Lib (Io run AllSteps allSteps_iff)
open Hw (GpioReg Pin)

/-- The conditions on which a pin interrupts. -/
structure TriggerSet where
  rise : Bool
  fall : Bool
  high : Bool
  low : Bool
  deriving DecidableEq, Repr

def TriggerSet.empty : TriggerSet := ⟨false, false, false, false⟩

/-- The bits of a pin in the four enable registers. -/
def enabledTriggers (g : Hw.Gpio) (pin : Pin) : TriggerSet where
  rise := (g.regs .intrptRiseEn).getLsbD pin.val
  fall := (g.regs .intrptFallEn).getLsbD pin.val
  high := (g.regs .intrptLvlHighEn).getLsbD pin.val
  low := (g.regs .intrptLvlLowEn).getLsbD pin.val

/-- The conditions a trigger is named after. -/
def GpioIrqTrigger.denotes : GpioIrqTrigger → Option TriggerSet
  | .kGpioIrqTriggerEdgeRising => some ⟨true, false, false, false⟩
  | .kGpioIrqTriggerEdgeFalling => some ⟨false, true, false, false⟩
  | .kGpioIrqTriggerLevelLow => some ⟨false, false, false, true⟩
  | .kGpioIrqTriggerLevelHigh => some ⟨false, false, true, false⟩
  | .kGpioIrqTriggerEdgeRisingFalling => some ⟨true, true, false, false⟩
  | .kGpioIrqTriggerEdgeRisingLevelLow => some ⟨true, false, false, true⟩
  | .kGpioIrqTriggerEdgeFallingLevelHigh => some ⟨false, true, true, false⟩
  | .other _ => none

/-- The calls that configure interrupts. -/
inductive TriggerCall where
  | gpioReset (gpio : Option Gpio)
  | gpioIrqSetTrigger (gpio : Option Gpio) (pin : Pin) (state : Bool) (trigger : GpioIrqTrigger)
  deriving DecidableEq, Repr

def TriggerCall.io : TriggerCall → GpioIo GpioResult
  | .gpioReset gpio => Hal.gpioReset gpio
  | .gpioIrqSetTrigger gpio pin state trigger =>
    Hal.gpioIrqSetTrigger gpio (BitVec.ofNat 32 pin.val) state trigger

/-- The device after a call. -/
def perform (g : Hw.Gpio) (call : TriggerCall) : Hw.Gpio :=
  ((Hw.Gpio.device.finish g call.io).map Prod.fst).getD g

/-- What a call means: it configures its pin or resets all of them, and an error changes
nothing. -/
def configure (config : Pin → TriggerSet) : TriggerCall → Pin → TriggerSet
  | .gpioReset (some _) => fun _ => .empty
  | .gpioIrqSetTrigger (some _) pin _ trigger =>
    match trigger.denotes with
    | some triggers => fun q => if q = pin then triggers else config q
    | none => config
  | .gpioReset none | .gpioIrqSetTrigger none _ _ _ => config

/-- The device, and what its calls meant. -/
abbrev Configured := Hw.Gpio × (Pin → TriggerSet)

def Configured.step (s : Configured) (call : TriggerCall) : Configured :=
  (perform s.1 call, configure s.2 call)

/-- Every pin has the triggers it was given. -/
def Configured.Agrees (s : Configured) : Prop := ∀ pin, enabledTriggers s.1 pin = s.2 pin

/-- Every pin has the triggers it was given after the call. -/
def TriggersOk (s : Configured) (call : TriggerCall) : Prop := (s.step call).Agrees

/-- No trigger is enabled that the call disables by mistake, and the trigger is not the
wrong one. -/
def Harmless (s : Configured) : TriggerCall → Prop
  | .gpioReset (some _) => ∀ pin, enabledTriggers s.1 pin = .empty
  | .gpioIrqSetTrigger (some _) pin _ trigger =>
    trigger ≠ .kGpioIrqTriggerEdgeFallingLevelHigh ∧
      ∀ q, q ≠ pin ∨ trigger.denotes = none → enabledTriggers s.1 q = .empty
  | .gpioReset none | .gpioIrqSetTrigger none _ _ _ => True

/-- The triggers `gpio_irq_set_trigger` enables. -/
def GpioIrqTrigger.written : GpioIrqTrigger → TriggerSet
  | .kGpioIrqTriggerEdgeFallingLevelHigh => ⟨true, true, false, true⟩
  | trigger => trigger.denotes.getD .empty

theorem written_eq {trigger : GpioIrqTrigger} {triggers : TriggerSet}
    (h : trigger.denotes = some triggers) :
    trigger.written = triggers ↔ trigger ≠ .kGpioIrqTriggerEdgeFallingLevelHigh := by
  cases trigger with
  | other value => cases h
  | _ =>
    cases h
    decide

/-- `1 << pin`. -/
def pinMask (pin : Pin) : Word := 1 <<< (BitVec.ofNat 32 pin.val).toNat

theorem pinMask_bit (pin q : Pin) : (pinMask pin).getLsbD q.val = decide (q = pin) := by
  have hpin : (BitVec.ofNat 32 pin.val).toNat = pin.val := by
    rw [BitVec.toNat_ofNat]
    omega
  have hmask : pinMask pin = BitVec.twoPow 32 pin.val := by
    rw [BitVec.twoPow_eq]
    exact congrArg (1#32 <<< ·) hpin
  rw [hmask, BitVec.getLsbD_twoPow]
  simp only [pin.isLt, decide_true, Bool.true_and, Fin.ext_iff, eq_comm]

/-- One bit of a register that is written the mask of a pin, or stays cleared. -/
theorem written_bit (b : Bool) (pin q : Pin) :
    (if b then pinMask pin else 0).getLsbD q.val = (b && decide (q = pin)) := by
  cases b with
  | false => exact BitVec.getLsbD_zero
  | true => exact pinMask_bit pin q

theorem perform_regs (g : Hw.Gpio) (gpio : Gpio) (pin : Pin) (state : Bool)
    (trigger : GpioIrqTrigger) :
    let g' := perform g (.gpioIrqSetTrigger (some gpio) pin state trigger)
    g'.regs .intrptRiseEn = (if trigger.written.rise then pinMask pin else 0) ∧
      g'.regs .intrptFallEn = (if trigger.written.fall then pinMask pin else 0) ∧
      g'.regs .intrptLvlHighEn = (if trigger.written.high then pinMask pin else 0) ∧
      g'.regs .intrptLvlLowEn = (if trigger.written.low then pinMask pin else 0) := by
  cases trigger <;> exact ⟨rfl, rfl, rfl, rfl⟩

/-- The pin gets what is written, and every other pin loses its triggers. -/
theorem perform_gpioIrqSetTrigger (g : Hw.Gpio) (gpio : Gpio) (pin : Pin) (state : Bool)
    (trigger : GpioIrqTrigger) (q : Pin) :
    enabledTriggers (perform g (.gpioIrqSetTrigger (some gpio) pin state trigger)) q =
      if q = pin then trigger.written else .empty := by
  obtain ⟨hrise, hfall, hhigh, hlow⟩ := perform_regs g gpio pin state trigger
  simp only [enabledTriggers, hrise, hfall, hhigh, hlow, written_bit]
  by_cases hq : q = pin
  · simp only [hq, decide_true, Bool.and_true, if_true]
  · simp only [hq, decide_false, Bool.and_false, if_false, TriggerSet.empty]

theorem triggersOk_iff (s : Configured) (call : TriggerCall) (hs : s.Agrees) :
    TriggersOk s call ↔ Harmless s call := by
  obtain ⟨g, config⟩ := s
  obtain rfl : enabledTriggers g = config := funext hs
  unfold TriggersOk Configured.Agrees Configured.step
  match call with
  | .gpioReset none => exact ⟨fun _ => trivial, fun _ _ => rfl⟩
  | .gpioIrqSetTrigger none _ _ _ => exact ⟨fun _ => trivial, fun _ _ => rfl⟩
  | .gpioReset (some gpio) => exact Iff.rfl
  | .gpioIrqSetTrigger (some gpio) pin state trigger =>
    simp only [perform_gpioIrqSetTrigger, configure, Harmless]
    cases hd : trigger.denotes with
    | none =>
      have hother : trigger ≠ .kGpioIrqTriggerEdgeFallingLevelHigh := by
        rintro rfl
        cases hd
      have hw : trigger.written = .empty := by
        cases trigger with
        | other value => rfl
        | _ => cases hd
      simp only [hw, ite_self, hother, true_and, or_true, true_imp_iff, ne_eq, not_false_iff]
      exact forall_congr' fun q => eq_comm
    | some triggers =>
      have hw := written_eq hd
      refine ⟨fun h => ⟨?_, fun q hq => ?_⟩, fun ⟨hne, h⟩ q => ?_⟩
      · have hpin := h pin
        simp only [if_true] at hpin
        exact hw.mp hpin
      · have hq' : q ≠ pin := hq.resolve_right nofun
        have hother := h q
        simp only [hq', if_false] at hother
        exact hother.symm
      · by_cases hq : q = pin
        · simp only [hq, if_true]
          exact hw.mpr hne
        · simp only [hq, if_false]
          exact (h q (.inl hq)).symm

/-- **Trigger configuration** is right after every call of a run exactly when all its calls
are harmless. -/
theorem triggers_run_ok_iff (g : Hw.Gpio) (calls : List TriggerCall) :
    AllSteps Configured.step TriggersOk (g, enabledTriggers g) calls ↔
      AllSteps Configured.step Harmless (g, enabledTriggers g) calls :=
  allSteps_iff triggersOk_iff (fun s call hs hok => (triggersOk_iff s call hs).mpr hok) calls
    fun _ => rfl

/-- A GPIO whose registers are all zero. -/
def gpioZero : Hw.Gpio := ⟨fun _ => 0⟩

/-- Configuring pin 5 takes the trigger of pin 3 away. -/
theorem triggers_interfere :
    ¬ AllSteps Configured.step TriggersOk (gpioZero, enabledTriggers gpioZero)
      [.gpioIrqSetTrigger (some ⟨0x200a0000⟩) 3 true .kGpioIrqTriggerEdgeRising,
        .gpioIrqSetTrigger (some ⟨0x200a0000⟩) 5 true .kGpioIrqTriggerEdgeRising] :=
  fun h => absurd (h.2.1 3) (by decide)

end XHeepFemu.Hal
