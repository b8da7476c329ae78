import XHeepFemu.Hal.Gpio

/-!
# GPIO pins

To a caller each pin has a mode, an enable and an output of its own. The driver keeps
them in four registers: MODE_0 and MODE_1 hold two bits for each of sixteen pins, GPIO_EN
and GPIO_OUT one bit for each pin. `PinRegs` is what these hold for one pin, and
`perform_pinRegs` says what a call does to it.
-/

namespace XHeepFemu.Hal

open Lib (Io Device)
open Hw (GpioReg Pin)

/-- The calls that set up and write pins. -/
inductive PinCall where
  | gpioOutputSetEnabled (pin : Pin) (state : GpioToggle)
  | gpioInputEnabled (pin : Pin) (state : GpioToggle)
  | gpioWrite (pin : Pin) (state : Bool)
  deriving DecidableEq, Repr

namespace PinCall

def pin : PinCall → Pin
  | gpioOutputSetEnabled pin _ | gpioInputEnabled pin _ | gpioWrite pin _ => pin

variable (gpio : Gpio)

def io : PinCall → GpioIo GpioResult
  | gpioOutputSetEnabled pin state =>
    Hal.gpioOutputSetEnabled (some gpio) (BitVec.ofNat 32 pin.val) state
  | gpioInputEnabled pin state => Hal.gpioInputEnabled (some gpio) (BitVec.ofNat 32 pin.val) state
  | gpioWrite pin state => Hal.gpioWrite (some gpio) (BitVec.ofNat 32 pin.val) state

/-- Calls one after the other, with their results. -/
def ioAll : List PinCall → GpioIo (List GpioResult)
  | [] => pure []
  | call :: calls => do
    let result ← call.io gpio
    let results ← ioAll calls
    pure (result :: results)

variable (q : Pin)

/-- The mode a call gives the pin. -/
def mode : PinCall → Option Bool
  | gpioOutputSetEnabled pin state => if q = pin then some state.toBool else none
  | _ => none

/-- The enable bit a call gives the pin. -/
def enable : PinCall → Option Bool
  | gpioInputEnabled pin state => if q = pin then some state.toBool else none
  | _ => none

/-- The output a call gives the pin. -/
def output : PinCall → Option Bool
  | gpioWrite pin state => if q = pin then some state else none
  | _ => none

end PinCall

/-- The register with the mode of a pin. -/
def modeReg (pin : Pin) : GpioReg := if pin.val < 16 then .gpioMode0 else .gpioMode1

/-- `GPIO_GPIO_MODE_0_MODE_0_FIELD` up to `GPIO_GPIO_MODE_1_MODE_31_FIELD`. -/
def modeField (pin : Pin) : BitfieldField32 := ⟨0x3, 2 * (pin.val % 16)⟩

def modeInputOnly : Word := 0
def modeOutputActive : Word := 1

def modeOf (g : Hw.Gpio) (pin : Pin) : Word := bitfieldField32Read (g.regs (modeReg pin)) (modeField pin)
def enableOf (g : Hw.Gpio) (pin : Pin) : Bool := bitfieldBit32Read (g.regs .gpioEn) pin.val
def outputOf (g : Hw.Gpio) (pin : Pin) : Bool := bitfieldBit32Read (g.regs .gpioOut) pin.val

/-! ## The bits of one pin -/

/-- What the registers hold for one pin. -/
structure PinRegs where
  modeLow : Bool
  modeHigh : Bool
  enable : Bool
  output : Bool
  deriving DecidableEq, Repr

def pinRegs (g : Hw.Gpio) (pin : Pin) : PinRegs where
  modeLow := (g.regs (modeReg pin)).getLsbD (2 * (pin.val % 16))
  modeHigh := (g.regs (modeReg pin)).getLsbD (2 * (pin.val % 16) + 1)
  enable := (g.regs .gpioEn).getLsbD pin.val
  output := (g.regs .gpioOut).getLsbD pin.val

/-- What a call does to the bits of a pin. -/
def PinCall.update (call : PinCall) (q : Pin) (regs : PinRegs) : PinRegs where
  modeLow := (call.mode q).getD regs.modeLow
  modeHigh := regs.modeHigh
  enable := (call.enable q).getD regs.enable
  output := (call.output q).getD regs.output

theorem modeOf_eq {g : Hw.Gpio} {pin : Pin} (h : (pinRegs g pin).modeHigh = false) :
    modeOf g pin = if (pinRegs g pin).modeLow then modeOutputActive else modeInputOnly := by
  have hmask : ∀ j, j < 32 → (0x3 : Word).getLsbD j = decide (j < 2) := fun j => getLsbD_ones 2
  have hone : (if (pinRegs g pin).modeLow then modeOutputActive else modeInputOnly) =
      (BitVec.ofBool (pinRegs g pin).modeLow).setWidth 32 := by
    cases (pinRegs g pin).modeLow <;> rfl
  rw [hone]
  apply BitVec.eq_of_getLsbD_eq
  intro j hj
  simp only [modeOf, modeField, bitfieldField32Read, BitVec.getLsbD_and,
    BitVec.getLsbD_ushiftRight, hmask j hj, BitVec.getLsbD_setWidth, hj, decide_true,
    Bool.true_and, BitVec.getLsbD_ofBool]
  rcases j with _ | _ | j
  · simp [pinRegs]
  · have hhigh : (g.regs (modeReg pin)).getLsbD (2 * (pin.val % 16) + 1) = false := h
    simp [hhigh]
  · simp

theorem pin_toNat (pin : Pin) : (BitVec.ofNat 32 pin.val).toNat = pin.val := by
  rw [BitVec.toNat_ofNat, Nat.mod_eq_of_lt (by omega)]

/-- Sixteen pins share a mode register, in different fields. -/
theorem modeReg_eq_iff (p q : Pin) :
    modeReg q = modeReg p ∧ q.val % 16 = p.val % 16 ↔ q = p := by
  constructor
  · rintro ⟨hreg, hmod⟩
    unfold modeReg at hreg
    apply Fin.ext
    split at hreg <;> split at hreg
    · omega
    · cases hreg
    · cases hreg
    · omega
  · rintro rfl
    exact ⟨rfl, rfl⟩

theorem gpioOutputSetEnabled_eq (gpio : Gpio) (pin : Pin) (state : GpioToggle) :
    Hal.gpioOutputSetEnabled (some gpio) (BitVec.ofNat 32 pin.val) state = (do
      let regValue ← Io.load (modeReg pin)
      Io.store (modeReg pin) (bitfieldBit32Write regValue (2 * (pin.val % 16)) state.toBool)
      pure .kGpioOk) := by
  have hlt := pin.isLt
  have hnat := pin_toNat pin
  have hcond : BitVec.ofNat 32 pin.val < 16 ↔ pin.val < 16 := by
    rw [BitVec.lt_def, hnat]
    rfl
  unfold Hal.gpioOutputSetEnabled modeReg
  simp only
  by_cases h : pin.val < 16
  · have hbit : (2 * BitVec.ofNat 32 pin.val).toNat = 2 * (pin.val % 16) := by
      rw [BitVec.toNat_mul, hnat]
      show 2 * pin.val % 2 ^ 32 = _
      omega
    rw [if_pos (hcond.mpr h), if_pos h, hbit]
  · have hbit : (2 * (BitVec.ofNat 32 pin.val - 16)).toNat = 2 * (pin.val % 16) := by
      rw [BitVec.toNat_mul, BitVec.toNat_sub, hnat]
      show 2 * ((2 ^ 32 - 16 + pin.val) % 2 ^ 32) % 2 ^ 32 = _
      omega
    rw [if_neg (hcond.not.mpr h), if_neg h, hbit]

theorem write_modeReg (g : Hw.Gpio) (pin : Pin) (v : Word) :
    g.write (modeReg pin) v = g.set (modeReg pin) v := by
  unfold modeReg
  split <;> rfl

theorem modeReg_ne (pin : Pin) : modeReg pin ≠ .gpioEn ∧ modeReg pin ≠ .gpioOut := by
  unfold modeReg
  split
  · exact ⟨nofun, nofun⟩
  · exact ⟨nofun, nofun⟩

theorem getLsbD_pinBit (w : Word) (p q : Pin) (v : Bool) :
    (bitfieldBit32Write w (BitVec.ofNat 32 p.val).toNat v).getLsbD q.val =
      (if q = p then some v else none).getD (w.getLsbD q.val) := by
  rw [pin_toNat, getLsbD_bit32Write _ _ _ q.isLt]
  by_cases h : q = p
  · rw [if_pos h, if_pos (congrArg Fin.val h)]
    rfl
  · rw [if_neg h, if_neg fun hval => h (Fin.ext hval)]
    rfl

theorem pinRegs_setMode (g : Hw.Gpio) (p q : Pin) (v : Bool) :
    pinRegs (g.set (modeReg p)
        (bitfieldBit32Write (g.regs (modeReg p)) (2 * (p.val % 16)) v)) q =
      { pinRegs g q with
        modeLow := (if q = p then some v else none).getD (pinRegs g q).modeLow } := by
  have hen := Hw.Gpio.set_other g
    (bitfieldBit32Write (g.regs (modeReg p)) (2 * (p.val % 16)) v) (modeReg_ne p).1.symm
  have hout := Hw.Gpio.set_other g
    (bitfieldBit32Write (g.regs (modeReg p)) (2 * (p.val % 16)) v) (modeReg_ne p).2.symm
  by_cases hreg : modeReg q = modeReg p
  · have hq : q = p ↔ 2 * (q.val % 16) = 2 * (p.val % 16) := by
      rw [← modeReg_eq_iff, and_iff_right hreg]
      omega
    simp only [pinRegs, hen, hout, hreg, Hw.Gpio.set_self, hq,
      getLsbD_bit32Write _ _ _ (show 2 * (q.val % 16) < 32 by omega),
      getLsbD_bit32Write _ _ _ (show 2 * (q.val % 16) + 1 < 32 by omega),
      show ¬2 * (q.val % 16) + 1 = 2 * (p.val % 16) by omega, if_false]
    split <;> rfl
  · have hq : q ≠ p := fun h => hreg (h ▸ rfl)
    simp only [pinRegs, hen, hout, Hw.Gpio.set_other g _ hreg, hq, if_false, Option.getD_none]

/-- A call changes the bits of its pin as it says, and those of no other pin. -/
theorem perform_pinRegs (gpio : Gpio) (g : Hw.Gpio) (call : PinCall) :
    ∃ g', Hw.Gpio.device.finish g (call.io gpio) = some (g', .kGpioOk) ∧
      ∀ q, pinRegs g' q = call.update q (pinRegs g q) := by
  cases call with
  | gpioOutputSetEnabled pin state =>
    refine ⟨g.write (modeReg pin) (bitfieldBit32Write (g.regs (modeReg pin))
      (2 * (pin.val % 16)) state.toBool), ?_, fun q => ?_⟩
    · rw [PinCall.io, gpioOutputSetEnabled_eq]
      rfl
    · rw [write_modeReg, pinRegs_setMode]
      rfl
  | gpioInputEnabled pin state =>
    refine ⟨g.set .gpioEn (bitfieldBit32Write (g.regs .gpioEn)
      (BitVec.ofNat 32 pin.val).toNat state.toBool), rfl, fun q => ?_⟩
    have hmode := Hw.Gpio.set_other g (bitfieldBit32Write (g.regs .gpioEn)
      (BitVec.ofNat 32 pin.val).toNat state.toBool) (modeReg_ne q).1
    simp only [pinRegs, hmode, Hw.Gpio.set_self, getLsbD_pinBit]
    rfl
  | gpioWrite pin state =>
    refine ⟨g.set .gpioOut (bitfieldBit32Write (g.regs .gpioOut)
      (BitVec.ofNat 32 pin.val).toNat state), rfl, fun q => ?_⟩
    have hmode := Hw.Gpio.set_other g (bitfieldBit32Write (g.regs .gpioOut)
      (BitVec.ofNat 32 pin.val).toNat state) (modeReg_ne q).2
    simp only [pinRegs, hmode, Hw.Gpio.set_self, getLsbD_pinBit]
    rfl

/-! ## Sequences of calls -/

/-- The last value the calls give, or `init` if they give none. -/
def lastGiven (f : PinCall → Option Bool) (init : Bool) (calls : List PinCall) : Bool :=
  (calls.filterMap f).getLast?.getD init

@[simp] theorem lastGiven_nil (f : PinCall → Option Bool) (init : Bool) :
    lastGiven f init [] = init := rfl

theorem lastGiven_cons (f : PinCall → Option Bool) (init : Bool) (call : PinCall)
    (calls : List PinCall) :
    lastGiven f init (call :: calls) = lastGiven f ((f call).getD init) calls := by
  unfold lastGiven
  cases hf : f call with
  | none =>
    rw [List.filterMap_cons_none hf]
    rfl
  | some v =>
    rw [List.filterMap_cons_some hf, List.getLast?_cons]
    rfl

theorem performAll_pinRegs (gpio : Gpio) (g : Hw.Gpio) (calls : List PinCall) :
    ∃ g', Hw.Gpio.device.finish g (PinCall.ioAll gpio calls) =
        some (g', List.replicate calls.length .kGpioOk) ∧
      ∀ q, pinRegs g' q =
        ⟨lastGiven (PinCall.mode q) (pinRegs g q).modeLow calls, (pinRegs g q).modeHigh,
          lastGiven (PinCall.enable q) (pinRegs g q).enable calls,
          lastGiven (PinCall.output q) (pinRegs g q).output calls⟩ := by
  induction calls generalizing g with
  | nil => exact ⟨g, rfl, fun q => rfl⟩
  | cons call calls ih =>
    obtain ⟨g₁, hcall, hregs⟩ := perform_pinRegs gpio g call
    obtain ⟨g₂, hcalls, hlast⟩ := ih g₁
    refine ⟨g₂, ?_, fun q => ?_⟩
    · refine (Device.finish_seq _ g _ _ g₁ _ hcall).trans ?_
      exact Device.finish_seq _ g₁ _ _ g₂ _ hcalls
    · simp only [hlast, hregs, lastGiven_cons]
      rfl

theorem gpioReset_regs (gpio : Gpio) (g : Hw.Gpio) :
    ∃ g', Hw.Gpio.device.finish g (gpioReset (some gpio)) = some (g', .kGpioOk) ∧
      g'.regs .gpioMode0 = 0 ∧ g'.regs .gpioMode1 = 0 ∧ g'.regs .gpioEn = 0 ∧
      g'.regs .gpioOut = g.regs .gpioOut := by
  refine ⟨_, rfl, rfl, rfl, rfl, ?_⟩
  -- GPIO_CLEAR and GPIO_SET are given no bits
  show g.regs .gpioOut &&& ~~~0#32 ||| 0#32 = g.regs .gpioOut
  rw [BitVec.or_zero, BitVec.not_zero, BitVec.and_allOnes]

theorem gpioReset_pinRegs (gpio : Gpio) (g : Hw.Gpio) :
    ∃ g', Hw.Gpio.device.finish g (gpioReset (some gpio)) = some (g', .kGpioOk) ∧
      ∀ q, pinRegs g' q = ⟨false, false, false, (pinRegs g q).output⟩ := by
  obtain ⟨g', hrun, hmode0, hmode1, hen, hout⟩ := gpioReset_regs gpio g
  refine ⟨g', hrun, fun q => ?_⟩
  have hmode : g'.regs (modeReg q) = 0 := by
    unfold modeReg
    split
    · exact hmode0
    · exact hmode1
  have hzero : ∀ j, (0 : Word).getLsbD j = false := fun j => BitVec.getLsbD_zero
  simp only [pinRegs, hmode, hen, hout, hzero]

/-- From `gpio_reset` on every pin has the mode, the enable and the output it was last given, and
a call for one pin leaves every other one alone. -/
theorem gpio_pins_independent (gpio : Gpio) (g : Hw.Gpio) (calls : List PinCall) :
    ∃ g', Hw.Gpio.device.finish g (do
        let result ← gpioReset (some gpio)
        let results ← PinCall.ioAll gpio calls
        pure (result :: results)) = some (g', List.replicate (calls.length + 1) .kGpioOk) ∧
      (∀ q,
        modeOf g' q = (if lastGiven (PinCall.mode q) false calls then modeOutputActive
          else modeInputOnly) ∧
        enableOf g' q = lastGiven (PinCall.enable q) false calls ∧
        outputOf g' q = lastGiven (PinCall.output q) (outputOf g q) calls) ∧
      ∀ call : PinCall, ∃ g'', Hw.Gpio.device.finish g' (call.io gpio) = some (g'', .kGpioOk) ∧
        ∀ q, q ≠ call.pin →
          modeOf g'' q = modeOf g' q ∧ enableOf g'' q = enableOf g' q ∧
          outputOf g'' q = outputOf g' q := by
  obtain ⟨g₀, hreset, hregs₀⟩ := gpioReset_pinRegs gpio g
  obtain ⟨g', hcalls, hregs⟩ := performAll_pinRegs gpio g₀ calls
  have hbit : ∀ (h : Hw.Gpio) q, enableOf h q = (pinRegs h q).enable ∧
      outputOf h q = (pinRegs h q).output := fun h q => ⟨bit32Read_eq _ _, bit32Read_eq _ _⟩
  have hhigh : ∀ q, (pinRegs g' q).modeHigh = false := fun q => by
    simp only [hregs, hregs₀]
  refine ⟨g', ?_, fun q => ⟨?_, ?_, ?_⟩, fun call => ?_⟩
  · refine (Device.finish_seq _ g _ _ g₀ _ hreset).trans ?_
    exact Device.finish_seq _ g₀ _ _ g' _ hcalls
  · rw [modeOf_eq (hhigh q), hregs, hregs₀]
  · rw [(hbit g' q).1, hregs, hregs₀]
  · rw [(hbit g' q).2, (hbit g q).2, hregs, hregs₀]
  · obtain ⟨g'', hcall, hregs'⟩ := perform_pinRegs gpio g' call
    refine ⟨g'', hcall, fun q hq => ?_⟩
    have hsame : pinRegs g'' q = pinRegs g' q := by
      rw [hregs']
      cases call with
      | _ pin state =>
        have hne : q ≠ pin := hq
        simp only [PinCall.update, PinCall.mode, PinCall.enable, PinCall.output, hne, if_false,
          Option.getD_none]
    rw [modeOf_eq (hhigh q), modeOf_eq (hsame ▸ hhigh q), (hbit g'' q).1, (hbit g'' q).2,
      (hbit g' q).1, (hbit g' q).2, hsame]
    exact ⟨rfl, rfl, rfl⟩

end XHeepFemu.Hal
