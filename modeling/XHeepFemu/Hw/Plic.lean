import XHeepFemu.Lib.Serial
import XHeepFemu.Hw.MemMap

/-!
# The PLIC

Its registers by byte offset, as in `rv_plic_regs.h`. The interrupts move the pending
bits and the claim register, and a store does not change these; the others hold what
was written.
-/

namespace XHeepFemu.Hw

open Lib (Device KeepsStored)

def plicIp0RegOffset : Nat := 0x0
def plicIp1RegOffset : Nat := 0x4
def plicLe0RegOffset : Nat := 0x8
def plicPrio0RegOffset : Nat := 0x10
def plicIe00RegOffset : Nat := 0x200
def plicThreshold0RegOffset : Nat := 0x208
def plicCc0RegOffset : Nat := 0x20c
def plicMsip0RegOffset : Nat := 0x210

structure Plic where
  regs : Nat → Word

namespace Plic

/-- The registers the hardware moves. -/
def Volatile (offset : Nat) : Prop :=
  offset = plicIp0RegOffset ∨ offset = plicIp1RegOffset ∨ offset = plicCc0RegOffset

instance (offset : Nat) : Decidable (Volatile offset) := inferInstanceAs (Decidable (_ ∨ _ ∨ _))

def set (p : Plic) (offset : Nat) (v : Word) : Plic := ⟨Function.update p.regs offset v⟩

/-- What a claim changes is a move of the hardware. -/
def read (p : Plic) (offset : Nat) : Plic × Word := (p, p.regs offset)

def write (p : Plic) (offset : Nat) (v : Word) : Plic :=
  if Volatile offset then p else p.set offset v

/-- A pending or claim register takes another value. -/
def env (p : Plic) (move : Nat × Word) : Option Plic :=
  if Volatile move.1 then some (p.set move.1 move.2) else none

def device : Device Nat Word Plic (Nat × Word) where
  read := read
  write := write
  env := env

theorem keepsStored : KeepsStored device regs Volatile where
  load _ _ _ := rfl
  read _ _ _ _ := rfl
  write p offset v offset' h := by
    show (p.write offset v).regs offset' = _
    unfold write
    split
    · rename_i hoffset
      rw [if_neg]
      rintro rfl
      exact h hoffset
    · exact Function.update_apply _ _ _ _
  env p move p' offset he h := by
    replace he : p.env move = some p' := he
    unfold env at he
    split at he
    · rename_i hmove
      cases he
      refine Function.update_of_ne ?_ _ _
      rintro rfl
      exact h hmove
    · cases he

end Plic

end XHeepFemu.Hw
