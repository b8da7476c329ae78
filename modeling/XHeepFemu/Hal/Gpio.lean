import XHeepFemu.Hal.Bitfield
import XHeepFemu.Hw.Gpio

/-!
# GPIO driver

The functions of `lib/hal/gpio/gpio.c` that configure and write pins, as programs over
the GPIO registers. `none` is the null pointer.
-/

namespace XHeepFemu.Hal

open Lib (Io)
open Hw (GpioReg)

/-- `gpio_t`. -/
structure Gpio where
  baseAddr : Word
  deriving DecidableEq, Repr

inductive GpioResult where
  | kGpioOk
  | kGpioError
  | kGpioBadArg
  deriving DecidableEq, Repr

/-- `gpio_irq_trigger_t`; a C enumeration can hold other values. -/
inductive GpioIrqTrigger where
  | kGpioIrqTriggerEdgeRising
  | kGpioIrqTriggerEdgeFalling
  | kGpioIrqTriggerLevelLow
  | kGpioIrqTriggerLevelHigh
  | kGpioIrqTriggerEdgeRisingFalling
  | kGpioIrqTriggerEdgeRisingLevelLow
  | kGpioIrqTriggerEdgeFallingLevelHigh
  | other (value : Word)
  deriving DecidableEq, Repr

abbrev GpioIo := Io GpioReg Word

def gpioReset : Option Gpio → GpioIo GpioResult
  | none => pure .kGpioBadArg
  | some _ => do
    Io.store .cfg 0
    Io.store .gpioMode0 0
    Io.store .gpioMode1 0
    Io.store .gpioEn 0
    Io.store .gpioClear 0
    Io.store .gpioSet 0
    -- "Also clear all pending interrupts"
    Io.store .intrptStatus 0
    pure .kGpioOk

/-- The result and `*is_pending` afterwards. -/
def gpioIrqIsPending (gpio : Option Gpio) (pin : Word) (isPending : Option Bool) :
    GpioIo (GpioResult × Option Bool) :=
  match gpio, isPending with
  | some _, some _ => do
    let reg ← Io.load .intrptStatus
    pure (.kGpioOk, some (bitfieldBit32Read reg pin.toNat))
  | _, _ => pure (.kGpioBadArg, isPending)

def gpioIrqAcknowledge (gpio : Option Gpio) (pin : Word) : GpioIo GpioResult :=
  match gpio with
  | none => pure .kGpioBadArg
  | some _ => do
    Io.store .intrptStatus pin
    pure .kGpioOk

/-- `state` is not used. -/
def gpioIrqSetTrigger (gpio : Option Gpio) (pin : Word) (_state : Bool)
    (trigger : GpioIrqTrigger) : GpioIo GpioResult :=
  match gpio with
  | none => pure .kGpioBadArg
  | some _ => do
    Io.store .intrptRiseEn 0
    Io.store .intrptFallEn 0
    Io.store .intrptLvlHighEn 0
    Io.store .intrptLvlLowEn 0
    match trigger with
    | .kGpioIrqTriggerEdgeRising => do
      Io.store .intrptRiseEn (1 <<< pin.toNat)
      pure .kGpioOk
    | .kGpioIrqTriggerEdgeFalling => do
      Io.store .intrptFallEn (1 <<< pin.toNat)
      pure .kGpioOk
    | .kGpioIrqTriggerLevelLow => do
      Io.store .intrptLvlLowEn (1 <<< pin.toNat)
      pure .kGpioOk
    | .kGpioIrqTriggerLevelHigh => do
      Io.store .intrptLvlHighEn (1 <<< pin.toNat)
      pure .kGpioOk
    | .kGpioIrqTriggerEdgeRisingFalling => do
      Io.store .intrptRiseEn (1 <<< pin.toNat)
      Io.store .intrptFallEn (1 <<< pin.toNat)
      pure .kGpioOk
    | .kGpioIrqTriggerEdgeRisingLevelLow => do
      Io.store .intrptRiseEn (1 <<< pin.toNat)
      Io.store .intrptLvlLowEn (1 <<< pin.toNat)
      pure .kGpioOk
    | .kGpioIrqTriggerEdgeFallingLevelHigh => do
      Io.store .intrptRiseEn (1 <<< pin.toNat)
      Io.store .intrptFallEn (1 <<< pin.toNat)
      Io.store .intrptLvlLowEn (1 <<< pin.toNat)
      pure .kGpioOk
    | .other _ => pure .kGpioError

/-- `gpio_toggle_t`. -/
inductive GpioToggle where
  | kGpioToggleEnabled
  | kGpioToggleDisabled
  deriving DecidableEq, Repr

/-- The enumerators are `true` and `false`. -/
def GpioToggle.toBool : GpioToggle → Bool
  | .kGpioToggleEnabled => true
  | .kGpioToggleDisabled => false

def gpioWrite (gpio : Option Gpio) (pin : Word) (state : Bool) : GpioIo GpioResult :=
  match gpio with
  | none => pure .kGpioBadArg
  | some _ => do
    let regValue ← Io.load .gpioOut
    Io.store .gpioOut (bitfieldBit32Write regValue pin.toNat state)
    pure .kGpioOk

def gpioOutputSetEnabled (gpio : Option Gpio) (pin : Word) (state : GpioToggle) :
    GpioIo GpioResult :=
  match gpio with
  | none => pure .kGpioBadArg
  | some _ =>
    if pin < 16 then do
      let regValue ← Io.load .gpioMode0
      Io.store .gpioMode0 (bitfieldBit32Write regValue (2 * pin).toNat state.toBool)
      pure .kGpioOk
    else do
      let regValue ← Io.load .gpioMode1
      Io.store .gpioMode1 (bitfieldBit32Write regValue (2 * (pin - 16)).toNat state.toBool)
      pure .kGpioOk

def gpioInputEnabled (gpio : Option Gpio) (pin : Word) (state : GpioToggle) : GpioIo GpioResult :=
  match gpio with
  | none => pure .kGpioBadArg
  | some _ => do
    let regValue ← Io.load .gpioEn
    Io.store .gpioEn (bitfieldBit32Write regValue pin.toNat state.toBool)
    pure .kGpioOk

end XHeepFemu.Hal
