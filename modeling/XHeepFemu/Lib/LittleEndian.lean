import Mathlib.Algebra.Group.Nat.Defs

/-!
# Little-endian words

`toBytes k n` are the `k` lowest bytes of `n`, lowest first, and `ofBytes` goes back.
`group` reads a list of bytes four at a time, as a loop over the number of words does.
-/

namespace XHeepFemu.Lib

/-- `n.to_bytes(k, 'little')`, of the low `k` bytes. -/
def toBytes : Nat → Nat → List UInt8
  | 0, _ => []
  | k + 1, n => UInt8.ofNat n :: toBytes k (n / 256)

def ofBytes : List UInt8 → Nat
  | [] => 0
  | b :: bs => b.toNat + 256 * ofBytes bs

theorem toBytes_ofBytes (bs : List UInt8) : toBytes bs.length (ofBytes bs) = bs := by
  induction bs with
  | nil => rfl
  | cons b bs ih =>
    have hb := b.toNat_lt
    have hhead : UInt8.ofNat (b.toNat + 256 * ofBytes bs) = b := by
      apply UInt8.toNat_inj.mp
      rw [UInt8.toNat_ofNat']
      omega
    have htail : (b.toNat + 256 * ofBytes bs) / 256 = ofBytes bs := by omega
    rw [List.length_cons, toBytes, ofBytes, hhead, htail, ih]

theorem ofBytes_lt (bs : List UInt8) : ofBytes bs < 256 ^ bs.length := by
  induction bs with
  | nil => exact Nat.one_pos
  | cons b bs ih =>
    have hb := b.toNat_lt
    rw [ofBytes, List.length_cons, Nat.pow_succ]
    omega

/-- A word assembled from its bytes with shifts. -/
theorem assemble_eq (b₀ b₁ b₂ b₃ : UInt8) :
    b₃.toNat <<< 24 ||| b₂.toNat <<< 16 ||| b₁.toNat <<< 8 ||| b₀.toNat =
      ofBytes [b₀, b₁, b₂, b₃] := by
  have h0 := b₀.toNat_lt
  have h1 := b₁.toNat_lt
  have h2 := b₂.toNat_lt
  have join : ∀ (a b k : Nat), b < 2 ^ k → a <<< k ||| b = a * 2 ^ k + b := by
    intro a b k hb
    rw [← Nat.shiftLeft_add_eq_or_of_lt hb, Nat.shiftLeft_eq]
  have e2 : b₃.toNat <<< 24 ||| b₂.toNat <<< 16 = (b₃.toNat * 2 ^ 8 + b₂.toNat) <<< 16 := by
    rw [join _ _ 24 (by rw [Nat.shiftLeft_eq]; omega), Nat.shiftLeft_eq, Nat.shiftLeft_eq]
    omega
  have e1 : (b₃.toNat * 2 ^ 8 + b₂.toNat) <<< 16 ||| b₁.toNat <<< 8 =
      (b₃.toNat * 2 ^ 16 + b₂.toNat * 2 ^ 8 + b₁.toNat) <<< 8 := by
    rw [join _ _ 16 (by rw [Nat.shiftLeft_eq]; omega), Nat.shiftLeft_eq, Nat.shiftLeft_eq]
    omega
  rw [e2, e1, join _ _ 8 h0]
  simp only [ofBytes]
  omega

/-- The first `k` groups of four bytes. -/
def group (f : List UInt8) (k : Nat) : List (List UInt8) :=
  (List.range k).map fun i =>
    [f.getD (i * 4) 0, f.getD (i * 4 + 1) 0, f.getD (i * 4 + 2) 0, f.getD (i * 4 + 3) 0]

theorem flatten_group {f : List UInt8} {k : Nat} (h : k * 4 ≤ f.length) :
    (group f k).flatten = f.take (k * 4) := by
  induction k with
  | zero => rfl
  | succ k ih =>
    have byte : ∀ i, i < f.length → f[i]?.toList = [f.getD i 0] := by
      intro i hi
      rw [List.getD_eq_getElem?_getD, List.getElem?_eq_getElem hi]
      rfl
    have split : group f (k + 1) = group f k ++ [[f.getD (k * 4) 0, f.getD (k * 4 + 1) 0,
        f.getD (k * 4 + 2) 0, f.getD (k * 4 + 3) 0]] := by
      rw [group, List.range_succ, List.map_append]
      rfl
    rw [split, List.flatten_append, ih (by omega), show (k + 1) * 4 = k * 4 + 3 + 1 by omega,
      List.take_add_one, List.take_add_one, List.take_add_one, List.take_add_one,
      byte _ (by omega), byte _ (by omega), byte _ (by omega), byte _ (by omega)]
    simp only [List.flatten_cons, List.flatten_nil, List.append_assoc, List.cons_append,
      List.nil_append, List.append_nil]

end XHeepFemu.Lib
