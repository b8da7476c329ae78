import Mathlib.Order.Basic

/-!
# Byte regions

A `Region` is a half-open interval of byte addresses. `R.Contains a` is
membership of one byte, `R.Covers a n` of the `n` bytes from `a`. Addresses
are unbounded, so that a range which would wrap in machine arithmetic is
simply not covered.
-/

namespace XHeepFemu.Lib

/-- The addresses `[base, base + size)`. -/
structure Region where
  base : Nat
  size : Nat
  deriving DecidableEq, Repr

namespace Region

variable {R : Region} {a n m : Nat}

/-- One past the last address. -/
def top (R : Region) : Nat := R.base + R.size

def Contains (R : Region) (a : Nat) : Prop := R.base ≤ a ∧ a < R.top

instance (R : Region) (a : Nat) : Decidable (R.Contains a) :=
  inferInstanceAs (Decidable (_ ∧ _))

/-- The `n` bytes from `a` all lie in `R`. -/
def Covers (R : Region) (a n : Nat) : Prop := ∀ k, k < n → R.Contains (a + k)

/-- Covering a non-empty range is a statement about its two ends. -/
theorem covers_iff (hn : 0 < n) : R.Covers a n ↔ R.base ≤ a ∧ a + n ≤ R.top := by
  refine ⟨?_, ?_⟩
  · intro h
    have first := h 0 hn
    have last := h (n - 1) (by omega)
    simp only [Contains] at first last
    omega
  · intro h k hk
    simp only [Contains]
    omega

theorem Covers.mono (h : R.Covers a n) (hm : m ≤ n) : R.Covers a m :=
  fun k hk => h k (by omega)

end Region

end XHeepFemu.Lib
