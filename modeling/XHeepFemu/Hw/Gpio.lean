import XHeepFemu.Lib.Mmio
import XHeepFemu.Hw.MemMap

/-!
# The GPIO

The registers of `gpio_regs.h` the driver touches. INTRPT_STATUS is cleared by writing
ones to it, and the hardware sets its bits; GPIO_SET and GPIO_CLEAR set and clear bits
of GPIO_OUT; the others hold what was written.
-/

namespace XHeepFemu.Hw

open Lib (Device)

/-- `gpio_pin_t`. -/
abbrev Pin := Fin 32

inductive GpioReg where
  | cfg
  | gpioMode0
  | gpioMode1
  | gpioEn
  | gpioOut
  | gpioClear
  | gpioSet
  | intrptRiseEn
  | intrptFallEn
  | intrptLvlHighEn
  | intrptLvlLowEn
  | intrptStatus
  deriving DecidableEq, Repr

structure Gpio where
  regs : GpioReg → Word

namespace Gpio

def set (g : Gpio) (r : GpioReg) (v : Word) : Gpio :=
  ⟨fun r' => if r' = r then v else g.regs r'⟩

@[simp] theorem set_self (g : Gpio) (r : GpioReg) (v : Word) : (g.set r v).regs r = v :=
  if_pos rfl

theorem set_other (g : Gpio) {r r' : GpioReg} (v : Word) (h : r' ≠ r) :
    (g.set r v).regs r' = g.regs r' :=
  if_neg h

def read (g : Gpio) (r : GpioReg) : Gpio × Word := (g, g.regs r)

def write (g : Gpio) : GpioReg → Word → Gpio
  | .intrptStatus, v => g.set .intrptStatus (g.regs .intrptStatus &&& ~~~v)
  | .gpioSet, v => g.set .gpioOut (g.regs .gpioOut ||| v)
  | .gpioClear, v => g.set .gpioOut (g.regs .gpioOut &&& ~~~v)
  | r, v => g.set r v

/-- An interrupt event on a pin. -/
def env (g : Gpio) (pin : Pin) : Option Gpio :=
  some (g.set .intrptStatus (g.regs .intrptStatus ||| 1#32 <<< pin.val))

def device : Device GpioReg Word Gpio Pin where
  read := read
  write := write
  env := env

/-! ## The status register -/

/-- The interrupt of a pin is pending. -/
def pending (g : Gpio) (pin : Pin) : Bool := (g.regs .intrptStatus).getLsbD pin.val

theorem pending_env {g h : Gpio} {p : Pin} (e : g.env p = some h) (q : Pin) :
    h.pending q = (g.pending q || decide (q = p)) := by
  cases e
  have hbit : (1#32 <<< p.val).getLsbD q.val = decide (q = p) := by
    rw [← BitVec.twoPow_eq, BitVec.getLsbD_twoPow]
    simp only [p.isLt, decide_true, Bool.true_and, Fin.ext_iff, eq_comm]
  simp only [pending, set_self, BitVec.getLsbD_or, hbit]

/-- A store to INTRPT_STATUS clears the pins whose bit is one. -/
theorem pending_write_status (g : Gpio) (v : Word) (q : Pin) :
    (g.write .intrptStatus v).pending q = (g.pending q && !v.getLsbD q.val) := by
  simp only [pending, write, set_self, BitVec.getLsbD_and, BitVec.getLsbD_not, q.isLt, decide_true,
    Bool.true_and]

theorem pending_write_other (g : Gpio) {r : GpioReg} (v : Word) (h : r ≠ .intrptStatus) (q : Pin) :
    (g.write r v).pending q = g.pending q := by
  cases r with
  | intrptStatus => exact absurd rfl h
  | _ => rfl

end Gpio

end XHeepFemu.Hw
