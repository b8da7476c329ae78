import XHeepFemu.Hw.MemMap

/-!
# Bit fields

The accessors of `lib/base/bitfield.h` the drivers use.
-/

namespace XHeepFemu.Hal

/-- `bitfield_field32_t`. -/
structure BitfieldField32 where
  mask : Word
  index : Nat

def bitfieldField32Read (bitfield : Word) (field : BitfieldField32) : Word :=
  (bitfield >>> field.index) &&& field.mask

def bitfieldField32Write (bitfield : Word) (field : BitfieldField32) (value : Word) : Word :=
  (bitfield &&& ~~~(field.mask <<< field.index)) ||| ((value &&& field.mask) <<< field.index)

def bitfieldBit32ToField32 (bitIndex : Nat) : BitfieldField32 := ⟨1, bitIndex⟩

def bitfieldBit32Read (bitfield : Word) (bitIndex : Nat) : Bool :=
  bitfieldField32Read bitfield (bitfieldBit32ToField32 bitIndex) == 1

theorem bit32Read_eq (bitfield : Word) (bitIndex : Nat) :
    bitfieldBit32Read bitfield bitIndex = bitfield.getLsbD bitIndex := by
  have unfolded : bitfieldBit32Read bitfield bitIndex = (bitfield >>> bitIndex &&& 1#32 == 1#32) := rfl
  have low : (bitfield >>> bitIndex).getLsbD 0 = bitfield.getLsbD bitIndex := by simp
  rw [unfolded, BitVec.and_one_eq_setWidth_ofBool_getLsbD, low]
  cases bitfield.getLsbD bitIndex <;> decide

def bitfieldBit32Write (bitfield : Word) (bitIndex : Nat) (value : Bool) : Word :=
  bitfieldField32Write bitfield (bitfieldBit32ToField32 bitIndex) (if value then 1 else 0)

/-! ## Bits after a write -/

theorem getLsbD_ones (w : Nat) {j : Nat} (hj : j < 32) :
    ((BitVec.allOnes w).setWidth 32).getLsbD j = decide (j < w) := by
  rw [BitVec.getLsbD_setWidth, BitVec.getLsbD_allOnes]
  simp only [hj, decide_true, Bool.true_and]

/-- Bit `j` after a field is written: that of the value inside the field, the old one outside. -/
theorem getLsbD_field32Write (bitfield : Word) (field : BitfieldField32) (value : Word) {j : Nat}
    (hj : j < 32) : (bitfieldField32Write bitfield field value).getLsbD j =
      if field.index ≤ j ∧ field.mask.getLsbD (j - field.index) = true then
        value.getLsbD (j - field.index)
      else bitfield.getLsbD j := by
  simp only [bitfieldField32Write, BitVec.getLsbD_or, BitVec.getLsbD_and, BitVec.getLsbD_not,
    BitVec.getLsbD_shiftLeft, hj, decide_true, Bool.true_and]
  by_cases hle : field.index ≤ j
  · have hlt : ¬j < field.index := Nat.not_lt.mpr hle
    simp only [hlt, hle, decide_false, Bool.not_false, Bool.true_and, true_and]
    cases field.mask.getLsbD (j - field.index) <;> simp
  · have hlt : j < field.index := Nat.not_le.mp hle
    simp [hlt, hle]

theorem getLsbD_bit32Write (bitfield : Word) (bitIndex : Nat) (value : Bool) {j : Nat}
    (hj : j < 32) : (bitfieldBit32Write bitfield bitIndex value).getLsbD j =
      if j = bitIndex then value else bitfield.getLsbD j := by
  have hone : ∀ i, (1#32).getLsbD i = decide (i = 0) := fun i => by
    rw [BitVec.getLsbD_one]
    simp
  unfold bitfieldBit32Write
  rw [getLsbD_field32Write _ _ _ hj]
  simp only [bitfieldBit32ToField32]
  by_cases h : j = bitIndex
  · subst h
    simp
    cases value <;> rfl
  · have : ¬(bitIndex ≤ j ∧ (1#32).getLsbD (j - bitIndex) = true) := by
      rw [hone, decide_eq_true_eq]
      omega
    rw [if_neg h]
    exact if_neg this

end XHeepFemu.Hal
