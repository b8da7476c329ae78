import Mathlib.Algebra.Group.Nat.Defs
import Mathlib.Data.Nat.Basic
import Mathlib.Order.Monotone.Defs
import XHeepFemu.Lib.Timed

/-!
# Counters read in two halves

A counter of `2 * w` bits in two registers of `w` bits. A load of one half and a
later load of the other may lie on either side of a carry; `Halves.torn` says what
they then give together. `readSplit` loads the upper half before and after the
lower one, and again until the two agree: `readSplit_exact`.
-/

namespace XHeepFemu.Lib

variable {ρ : Type} {w : Nat}

/-- The number with the halves `hi` and `lo`. -/
def joined (hi lo : BitVec w) : Nat := hi.toNat * 2 ^ w + lo.toNat

theorem joined_inj {hi lo hi' lo' : BitVec w} :
    joined hi lo = joined hi' lo' ↔ hi = hi' ∧ lo = lo' := by
  refine ⟨fun h => ?_, fun ⟨e, e'⟩ => by rw [e, e']⟩
  have hlo : lo.toNat = lo'.toNat := by
    have := congrArg (· % 2 ^ w) h
    simpa only [joined, Nat.mul_add_mod', Nat.mod_eq_of_lt lo.isLt, Nat.mod_eq_of_lt lo'.isLt]
      using this
  unfold joined at h
  rw [hlo] at h
  have hhi := Nat.eq_of_mul_eq_mul_right (Nat.two_pow_pos w) (Nat.add_right_cancel h)
  exact ⟨BitVec.eq_of_toNat_eq hhi, BitVec.eq_of_toNat_eq hlo⟩

/-- Registers `hi` and `lo` hold the halves of a counter `c` that counts up and does
not wrap around. -/
structure Halves (reg : ρ → Nat → BitVec w) (hi lo : ρ) (c : Nat → Nat) : Prop where
  mono : Monotone c
  bound : ∀ t, c t < 2 ^ w * 2 ^ w
  hi : ∀ t, reg hi t = BitVec.ofNat w (c t / 2 ^ w)
  lo : ∀ t, reg lo t = BitVec.ofNat w (c t)

namespace Halves

variable {reg : ρ → Nat → BitVec w} {hi lo : ρ} {c : Nat → Nat}

theorem hi_toNat (h : Halves reg hi lo c) (t : Nat) : (reg hi t).toNat = c t / 2 ^ w := by
  rw [h.hi, BitVec.toNat_ofNat, Nat.mod_eq_of_lt]
  exact Nat.div_lt_of_lt_mul (h.bound t)

theorem lo_toNat (h : Halves reg hi lo c) (t : Nat) : (reg lo t).toNat = c t % 2 ^ w := by
  rw [h.lo, BitVec.toNat_ofNat]

theorem joined_eq (h : Halves reg hi lo c) (s s' : Nat) :
    joined (reg hi s') (reg lo s) = c s' / 2 ^ w * 2 ^ w + c s % 2 ^ w := by
  rw [joined, h.hi_toNat, h.lo_toNat]

theorem whole (h : Halves reg hi lo c) {s s' : Nat} (e : c s' / 2 ^ w = c s / 2 ^ w) :
    joined (reg hi s') (reg lo s) = c s := by
  rw [h.joined_eq, e, Nat.mul_comm]
  exact Nat.div_add_mod (c s) (2 ^ w)

/-- An upper half loaded later is ahead by the carries in between. -/
theorem torn (h : Halves reg hi lo c) {s s' : Nat} (hle : s ≤ s') :
    joined (reg hi s') (reg lo s) = c s + (c s' / 2 ^ w - c s / 2 ^ w) * 2 ^ w := by
  have hdiv : c s / 2 ^ w ≤ c s' / 2 ^ w := Nat.div_le_div_right (h.mono hle)
  have hmul : c s / 2 ^ w * 2 ^ w ≤ c s' / 2 ^ w * 2 ^ w := Nat.mul_le_mul_right _ hdiv
  have hsplit := Nat.div_add_mod (c s) (2 ^ w)
  rw [Nat.mul_comm] at hsplit
  rw [h.joined_eq, Nat.sub_mul]
  omega

/-- Two equal upper halves enclose no carry. -/
theorem no_carry (h : Halves reg hi lo c) {s₀ s s₁ : Nat} (h₀ : s₀ ≤ s) (h₁ : s ≤ s₁)
    (e : reg hi s₀ = reg hi s₁) : c s₁ / 2 ^ w = c s / 2 ^ w := by
  have htop : c s₀ / 2 ^ w = c s₁ / 2 ^ w := by
    rw [← h.hi_toNat, ← h.hi_toNat, e]
  have hlow : c s₀ / 2 ^ w ≤ c s / 2 ^ w := Nat.div_le_div_right (h.mono h₀)
  have hhigh : c s / 2 ^ w ≤ c s₁ / 2 ^ w := Nat.div_le_div_right (h.mono h₁)
  omega

end Halves

/-! ## Reading both halves -/

/-- Load the upper half, the lower half and the upper half again, until it stays the same. -/
def readSplit (hi lo : ρ) : Nat → OptionT (Io ρ (BitVec w)) (BitVec w × BitVec w)
  | 0 => failure
  | fuel + 1 => do
    let h0 ← fetch hi
    let l ← fetch lo
    let h1 ← fetch hi
    if h0 ≠ h1 then readSplit hi lo fuel
    else pure (h1, l)

/-- The loads `tr` end with an attempt that loads the lower half at `s`. -/
def Accepts (hi lo : ρ) (tr : List (ρ × Nat)) (s : Nat) : Prop :=
  ∃ before s₀ s₁, tr = before ++ [(hi, s₀), (lo, s), (hi, s₁)]

variable {reg : ρ → Nat → BitVec w} {hi lo : ρ} {c : Nat → Nat}

/-- What is returned is the counter at the instant of the last load of its lower half. -/
theorem readSplit_exact (h : Halves reg hi lo c) {fuel t u : Nat} {tr : List (ρ × Nat)}
    {v : BitVec w × BitVec w} (hrun : Finishes reg (readSplit hi lo fuel) t tr u v) :
    ∃ s, t < s ∧ s < u ∧ Accepts hi lo tr s ∧ joined v.1 v.2 = c s := by
  induction fuel generalizing t tr with
  | zero => cases hrun
  | succ fuel ih =>
    obtain ⟨_, h0, _, tr', rfl, hrun₁, hrest⟩ := hrun.of_bind
    obtain ⟨s₀, ht, hu₀, rfl, rfl⟩ := hrun₁.of_fetch
    obtain ⟨_, l, _, tr', rfl, hrun₂, hrest⟩ := hrest.of_bind
    obtain ⟨s, ht', hu, rfl, rfl⟩ := hrun₂.of_fetch
    obtain ⟨_, h1, _, tr', rfl, hrun₃, hrest⟩ := hrest.of_bind
    obtain ⟨s₁, ht'', hu₁, rfl, rfl⟩ := hrun₃.of_fetch
    split at hrest
    · obtain ⟨x, hx, hxu, ⟨before, a, b, hacc⟩, hval⟩ := ih hrest
      refine ⟨x, by omega, hxu, ⟨(hi, s₀) :: (lo, s) :: (hi, s₁) :: before, a, b, ?_⟩, hval⟩
      rw [hacc]
      rfl
    · rename_i heq
      obtain ⟨rfl, rfl⟩ := hrest.of_pure
      have hle := hrest.le
      have hcarry := h.no_carry (s := s) (by omega) (by omega) (not_not.mp heq)
      exact ⟨s, by omega, by omega, ⟨[], s₀, s₁, rfl⟩, h.whole hcarry⟩

end XHeepFemu.Lib
