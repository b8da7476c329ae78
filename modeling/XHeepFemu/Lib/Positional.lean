import Mathlib.Data.Nat.Digits.Defs
import Mathlib.Data.Nat.Log
import Mathlib.Tactic.Ring

/-!
# Numerals from the first digit on

`digitsFrom` prints a number from the digit of a given weight down, and `horner`
reads digits in the same order. Printing from the weight of the first digit
that is not zero gives the digits of the number, the other way round than
`Nat.digits` has them.
-/

namespace XHeepFemu.Lib

/-- Horner's rule. -/
def horner (b : Nat) (ds : List Nat) : Nat := ds.foldl (fun v d => v * b + d) 0

/-- The digits of `n` from the one worth `b ^ k` down. -/
def digitsFrom (b : Nat) : Nat → Nat → List Nat
  | 0, n => [n]
  | k + 1, n => n / b ^ (k + 1) :: digitsFrom b k (n % b ^ (k + 1))

variable {b : Nat}

theorem horner_eq_ofDigits (ds : List Nat) : horner b ds = Nat.ofDigits b ds.reverse := by
  rw [Nat.ofDigits_eq_foldr, List.foldr_reverse, horner]
  congr 1
  funext v d
  rw [Nat.mul_comm, Nat.add_comm]
  rfl

@[simp] theorem length_digitsFrom (k n : Nat) : (digitsFrom b k n).length = k + 1 := by
  induction k generalizing n with
  | zero => rfl
  | succ k ih => rw [digitsFrom, List.length_cons, ih]

theorem ofDigits_digitsFrom (k n : Nat) : Nat.ofDigits b (digitsFrom b k n).reverse = n := by
  induction k generalizing n with
  | zero => simp [digitsFrom]
  | succ k ih =>
    rw [digitsFrom, Nat.ofDigits_reverse_cons, ih, length_digitsFrom, Nat.add_comm]
    exact Nat.div_add_mod n (b ^ (k + 1))

theorem digitsFrom_lt (hb : 0 < b) {k n : Nat} (hn : n < b ^ (k + 1)) :
    ∀ d ∈ digitsFrom b k n, d < b := by
  induction k generalizing n with
  | zero =>
    intro d hd
    rw [List.mem_singleton.mp hd]
    simpa using hn
  | succ k ih =>
    intro d hd
    rcases List.mem_cons.mp hd with rfl | hd
    · rw [Nat.div_lt_iff_lt_mul (Nat.pow_pos hb), Nat.mul_comm, ← Nat.pow_succ]
      exact hn
    · exact ih (Nat.mod_lt n (Nat.pow_pos hb)) d hd

theorem digitsFrom_head (k n : Nat) : ∃ ds, digitsFrom b k n = n / b ^ k :: ds := by
  cases k with
  | zero => exact ⟨[], by simp [digitsFrom]⟩
  | succ k => exact ⟨_, rfl⟩

/-- From its own weight on a number has no leading zero. -/
theorem digitsFrom_log (hb : 1 < b) {n : Nat} (hn : n ≠ 0) :
    digitsFrom b (Nat.log b n) n = (Nat.digits b n).reverse := by
  have hdigits := Nat.digits_ofDigits b hb (digitsFrom b (Nat.log b n) n).reverse
    (fun d hd => digitsFrom_lt (by omega) (Nat.lt_pow_succ_log_self hb n) d (List.mem_reverse.mp hd))
    (fun hne => by
      obtain ⟨ds, hds⟩ := digitsFrom_head (b := b) (Nat.log b n) n
      rw [List.getLast_reverse]
      simp only [hds, List.head_cons]
      have := Nat.div_pos (Nat.pow_log_le_self b hn) (Nat.pow_pos (by omega))
      omega)
  rw [ofDigits_digitsFrom] at hdigits
  rw [hdigits, List.reverse_reverse]

theorem horner_digits (n : Nat) : horner b (Nat.digits b n).reverse = n := by
  rw [horner_eq_ofDigits, List.reverse_reverse, Nat.ofDigits_digits]

end XHeepFemu.Lib
