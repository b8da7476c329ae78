import XHeepFemu.Hw.MemMap

/-!
# The copy into the SCPI input buffer

The first lines of `SCPI_Input` of `libscpi/parser.c`: what the call does with
its `int len` depends on the room left in the buffer, compared as `int`; the
copy itself takes `len` as `size_t`.
-/

namespace XHeepFemu.Scpi

/-- `SCPI_INPUT_BUFFER_LENGTH`. -/
def scpiInputBufferLength : Word := 2048

inductive Copy where
  /-- `len == 0`: parse what is there. -/
  | flush
  /-- No room: the buffer is invalidated. -/
  | overrun
  /-- `memcpy` of so many bytes. -/
  | copy (n : Nat)
  deriving DecidableEq, Repr

def inputCopy (length position len : Word) : Copy :=
  if len = 0 then .flush
  else
    let bufferFree := (length - position).toInt
    if len.toInt > bufferFree - 1 then .overrun else .copy len.toNat

/-- For a non-negative `len` the overrun check bounds the copy. -/
theorem inputCopy_bounded {position len : Word} {n : Nat} (hpos : position.toNat ≤ 2047)
    (h0 : 0 ≤ len.toInt) (h : inputCopy scpiInputBufferLength position len = .copy n) :
    n = len.toNat ∧ position.toNat + n ≤ 2047 := by
  unfold inputCopy at h
  split at h
  · cases h
  · simp only at h
    split at h
    · cases h
    · rename_i hfree
      obtain rfl := Copy.copy.inj h
      have hroom : (scpiInputBufferLength - position).toInt = 2048 - position.toNat := by
        rw [BitVec.toInt_eq_toNat_of_lt] <;> unfold scpiInputBufferLength <;> bv_omega
      have hlen : len.toInt = len.toNat := by
        rw [BitVec.toInt_eq_toNat_cond] at h0 ⊢
        split <;> omega
      exact ⟨rfl, by omega⟩

theorem inputCopy_nat {position len : Nat} (hposition : position ≤ 2047) (hlen : len ≤ 2047) :
    inputCopy scpiInputBufferLength (BitVec.ofNat 32 position) (BitVec.ofNat 32 len) =
      if len = 0 then .flush else if 2047 < position + len then .overrun else .copy len := by
  have hroom : (scpiInputBufferLength - BitVec.ofNat 32 position).toInt = 2048 - position := by
    rw [BitVec.toInt_eq_toNat_of_lt] <;> unfold scpiInputBufferLength <;> bv_omega
  have hint : (BitVec.ofNat 32 len).toInt = len := by
    rw [BitVec.toInt_eq_toNat_of_lt] <;> bv_omega
  have hzero : BitVec.ofNat 32 len = 0 ↔ len = 0 := by
    refine ⟨?_, ?_⟩
    · intro h
      bv_omega
    · rintro rfl
      rfl
  have hnat : (BitVec.ofNat 32 len).toNat = len := by bv_omega
  unfold inputCopy
  simp only [hzero, hroom, hint, hnat]
  by_cases hfull : 2047 < position + len
  · rw [if_pos (show (len : Int) > 2048 - position - 1 by omega), if_pos hfull]
  · rw [if_neg (show ¬(len : Int) > 2048 - position - 1 by omega), if_neg hfull]

end XHeepFemu.Scpi
