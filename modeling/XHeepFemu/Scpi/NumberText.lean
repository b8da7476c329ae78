import Mathlib.Data.Nat.Digits.Lemmas
import XHeepFemu.Lib.Positional
import XHeepFemu.Scpi.Lexer

/-!
# Integers as text

`UInt32ToStrBaseSign` and `UInt64ToStrBaseSign` of `libscpi/utils.c` write an
integer into a buffer, and `strBaseToInt32` with its siblings reads one with
`strtol` of the C library. The buffers of `libscpi/parser.c` hold every integer
of their width, and what is written there is read back.
-/

namespace XHeepFemu.Scpi

open Lib

/-! ## Writing -/

/-- `digits`. -/
def digitChar (d : Nat) : Byte :=
  ([48, 49, 50, 51, 52, 53, 54, 55, 56, 57, 65, 66, 67, 68, 69, 70] : Text).getD d 0

/-- `ADD_CHAR`. -/
def addChar (len : Nat) (str : Text) (c : Byte) : Text := if str.length < len then str ++ [c] else str

/-- The `while` that removes leading zeros. -/
def removeZeros (base uval : Nat) : Nat → Nat → Nat
  | 0, x => x
  | n + 1, x => if uval / x = 0 then removeZeros base uval n (x / base) else x

/-- The `do` loop. -/
def addDigits (len base : Nat) : Nat → Text → Nat → Nat → Text
  | 0, str, _, _ => str
  | n + 1, str, uval, x =>
    let digit := uval / x % 256
    let str := addChar len str (digitChar digit)
    let uval := uval - digit * x
    let x := x / base
    if x ≠ 0 ∧ str.length < len then addDigits len base n str uval x else str

/-- `uval` and `x` fit their type at each step. The result is the text, and whether a NUL was
stored behind it; `weights` are the first `x` and the base of the `switch`. -/
def toStrBaseSign {w : Nat} (weights : Int → Nat × Nat) (val : BitVec w) (len : Nat) (base : Int)
    (sign : Bool) : Text × Bool :=
  let str :=
    if val = 0 then addChar len [] 48
    else
      let (x, base) := weights base
      let negative := sign && val.msb && base == 10
      let uval := if negative then (-val).toNat else val.toNat
      let str := if negative then addChar len [] 45 else []
      addDigits len base (w + 1) str uval (removeZeros base uval w x)
  (str, str.length < len)

def weights32 : Int → Nat × Nat
  | 2 => (0x80000000, 2)
  | 8 => (0x40000000, 8)
  | 16 => (0x10000000, 16)
  | _ => (1000000000, 10)

def weights64 : Int → Nat × Nat
  | 2 => (0x8000000000000000, 2)
  | 8 => (0x8000000000000000, 8)
  | 16 => (0x1000000000000000, 16)
  | _ => (10000000000000000000, 10)

def uint32ToStrBaseSign (val : BitVec 32) (len : Nat) (base : Int) (sign : Bool) : Text × Bool :=
  toStrBaseSign weights32 val len base sign

def uint64ToStrBaseSign (val : BitVec 64) (len : Nat) (base : Int) (sign : Bool) : Text × Bool :=
  toStrBaseSign weights64 val len base sign

/-! ## Reading -/

def isspace (c : Byte) : Bool := c == 32 || (9 ≤ c && c ≤ 13)

/-- The value of a digit in some base up to 36, or 36. -/
def digitValue (c : Byte) : Nat :=
  if 48 ≤ c && c ≤ 57 then c.toNat - 48
  else if 65 ≤ c && c ≤ 90 then c.toNat - 55
  else if 97 ≤ c && c ≤ 122 then c.toNat - 87
  else 36

/-- A sign, if there is one. -/
def takeSign : Text → Bool × Text
  | 45 :: s => (true, s)
  | 43 :: s => (false, s)
  | s => (false, s)

/-- `0x` may stand before hexadecimal digits. -/
def skipHexPrefix (base : Nat) : Text → Text
  | 48 :: x :: c :: s =>
    if base = 16 ∧ (x = 120 ∨ x = 88) ∧ digitValue c < 16 then c :: s else 48 :: x :: c :: s
  | s => s

/-- What `strtol` and `strtoul` find: the sign, the number, and the characters used. -/
def scanInteger (base : Nat) (str : Text) : Option (Bool × Nat × Nat) :=
  let (negative, s) := takeSign (str.dropWhile isspace)
  let s := skipHexPrefix base s
  let digits := s.takeWhile (digitValue · < base)
  if digits.isEmpty then none
  else some (negative, horner base (digits.map digitValue), str.length - s.length + digits.length)

/-- `strtoul`, or `strtoull`, with values of `w` bits: the value and the characters used. -/
def strtoul (w : Nat) (str : Text) (base : Nat) : BitVec w × Nat :=
  match scanInteger base str with
  | some (negative, n, used) =>
    (if 2 ^ w ≤ n then BitVec.allOnes w
      else if negative then -BitVec.ofNat w n else BitVec.ofNat w n, used)
  | none => (0, 0)

/-- `strtol`, or `strtoll`. -/
def strtol (w : Nat) (str : Text) (base : Nat) : BitVec w × Nat :=
  match scanInteger base str with
  | some (negative, n, used) =>
    (if negative then if 2 ^ (w - 1) < n then BitVec.intMin w else -BitVec.ofNat w n
      else if 2 ^ (w - 1) ≤ n then BitVec.intMax w else BitVec.ofNat w n, used)
  | none => (0, 0)

def strBaseToInt32 (str : Text) (base : Nat) : BitVec 32 × Nat := strtol 32 str base
def strBaseToUInt32 (str : Text) (base : Nat) : BitVec 32 × Nat := strtoul 32 str base
def strBaseToInt64 (str : Text) (base : Nat) : BitVec 64 × Nat := strtol 64 str base
def strBaseToUInt64 (str : Text) (base : Nat) : BitVec 64 × Nat := strtoul 64 str base

/-! ## The text of an integer -/

/-- `n` in base `b`, without leading zeros. -/
def numeral (b n : Nat) : Text := if n = 0 then [48] else (Nat.digits b n).reverse.map digitChar

def integerText (b : Nat) (negative : Bool) (n : Nat) : Text :=
  (if negative then [45] else []) ++ numeral b n

variable {b : Nat}

theorem removeZeros_eq (hb : 1 < b) {n : Nat} (hn : n ≠ 0) {fuel k : Nat} (hk : Nat.log b n ≤ k)
    (hfuel : k ≤ Nat.log b n + fuel) : removeZeros b n fuel (b ^ k) = b ^ Nat.log b n := by
  induction fuel generalizing k with
  | zero =>
    rw [show k = Nat.log b n by omega]
    rfl
  | succ fuel ih =>
    rw [removeZeros]
    split
    · rename_i hzero
      have hlt : n < b ^ k := (Nat.div_eq_zero_iff_lt (Nat.pow_pos (by omega))).mp hzero
      have hlog := Nat.log_lt_of_lt_pow hn hlt
      obtain ⟨k, rfl⟩ : ∃ j, k = j + 1 := ⟨k - 1, by omega⟩
      rw [Nat.pow_succ, Nat.mul_div_cancel _ (by omega)]
      exact ih (by omega) (by omega)
    · rename_i hpos
      have hle : b ^ k ≤ n := by
        by_contra hlt
        exact hpos (Nat.div_eq_of_lt (by omega))
      rw [show k = Nat.log b n from Nat.le_antisymm (Nat.le_log_of_pow_le hb hle) hk]

theorem addChar_room {len : Nat} {str : Text} (h : str.length < len) (c : Byte) :
    addChar len str c = str ++ [c] := if_pos h

/-- With room for them all digits are written. -/
theorem addDigits_eq (hb : 1 < b) (hb16 : b ≤ 16) {len fuel k n : Nat} {str : Text}
    (hn : n < b ^ (k + 1)) (hfuel : k < fuel) (hlen : str.length + (k + 1) ≤ len) :
    addDigits len b fuel str n (b ^ k) = str ++ (digitsFrom b k n).map digitChar := by
  induction k generalizing fuel str n with
  | zero =>
    obtain ⟨fuel, rfl⟩ : ∃ j, fuel = j + 1 := ⟨fuel - 1, by omega⟩
    have hdigit : n / b ^ 0 % 256 = n := by
      rw [Nat.zero_add, Nat.pow_one] at hn
      rw [Nat.pow_zero, Nat.div_one, Nat.mod_eq_of_lt (by omega)]
    have hstop : b ^ 0 / b = 0 := by
      rw [Nat.pow_zero]
      exact Nat.div_eq_of_lt hb
    rw [addDigits]
    simp only [hdigit, hstop, addChar_room (show str.length < len by omega), ne_eq, not_true,
      false_and, if_false]
    rfl
  | succ k ih =>
    obtain ⟨fuel, rfl⟩ : ∃ j, fuel = j + 1 := ⟨fuel - 1, by omega⟩
    have hpos : 0 < b ^ (k + 1) := Nat.pow_pos (by omega)
    have hlt : n / b ^ (k + 1) < b := by
      rw [Nat.div_lt_iff_lt_mul hpos, Nat.mul_comm, ← Nat.pow_succ]
      exact hn
    have hdigit : n / b ^ (k + 1) % 256 = n / b ^ (k + 1) := Nat.mod_eq_of_lt (by omega)
    have hmod : n - n / b ^ (k + 1) * b ^ (k + 1) = n % b ^ (k + 1) := by
      rw [Nat.mod_eq_sub_mul_div, Nat.mul_comm]
    have hnext : b ^ (k + 1) / b = b ^ k := by
      rw [Nat.pow_succ, Nat.mul_div_cancel _ (by omega)]
    have hweight : b ^ k ≠ 0 := Nat.pos_iff_ne_zero.mp (Nat.pow_pos (by omega))
    have hroom : (str ++ [digitChar (n / b ^ (k + 1))]).length + (k + 1) ≤ len := by
      rw [List.length_append, List.length_singleton]
      omega
    rw [addDigits]
    simp only [hdigit, hmod, hnext, addChar_room (show str.length < len by omega)]
    rw [if_pos ⟨hweight, by omega⟩, ih (Nat.mod_lt _ hpos) (by omega) hroom, digitsFrom]
    simp

/-- What the `switch` takes: a power of its base that no value of the type needs more digits
than. -/
def Weighs (w k : Nat) (p : Nat × Nat) : Prop :=
  p.1 = p.2 ^ k ∧ 1 < p.2 ∧ p.2 ≤ 16 ∧ 2 ^ w ≤ p.2 ^ (k + 1) ∧ k ≤ w

theorem numeral_length (hb : 1 < b) {n k : Nat} (hn : n < b ^ (k + 1)) :
    (numeral b n).length ≤ k + 1 := by
  unfold numeral
  split
  · exact Nat.le_add_left 1 k
  · rename_i hne
    rw [List.length_map, List.length_reverse]
    exact (Nat.digits_length_le_iff hb n).mpr hn

/-- **The text of an integer**, in a buffer with room for it. -/
theorem toStrBaseSign_eq {w k : Nat} {weights : Int → Nat × Nat} {base : Int}
    (hweighs : Weighs w k (weights base)) (val : BitVec w) (len : Nat) (sign : Bool) :
    let b := (weights base).2
    let negative := sign && val.msb && b == 10
    let text := integerText b negative (if negative then (-val).toNat else val.toNat)
    text.length ≤ len →
      toStrBaseSign weights val len base sign = (text, decide (text.length < len)) := by
  intro b negative text hlen
  have hweight : (weights base).1 = b ^ k := hweighs.1
  have hb : 1 < b := hweighs.2.1
  have hb16 : b ≤ 16 := hweighs.2.2.1
  have hrange : 2 ^ w ≤ b ^ (k + 1) := hweighs.2.2.2.1
  have hkw := hweighs.2.2.2.2
  suffices h : (toStrBaseSign weights val len base sign).1 = text by
    rw [← h]
    rfl
  by_cases hval : val = 0
  · have htext : text = [48] := by
      simp [text, negative, hval, integerText, numeral]
    rw [htext] at hlen ⊢
    unfold toStrBaseSign
    rw [if_pos hval, addChar_room hlen]
    rfl
  · have htext : text = integerText b negative (if negative then (-val).toNat else val.toNat) := rfl
    generalize huval : (if negative then (-val).toNat else val.toNat) = uval at htext
    have hne : uval ≠ 0 := by
      rw [← huval]
      split
      · exact fun h => hval (by simpa using BitVec.eq_of_toNat_eq (x := -val) (y := 0) h)
      · exact fun h => hval (BitVec.eq_of_toNat_eq h)
    have hlt : uval < b ^ (k + 1) := by
      rw [← huval]
      split
      · exact Nat.lt_of_lt_of_le (-val).isLt hrange
      · exact Nat.lt_of_lt_of_le val.isLt hrange
    have hlog : Nat.log b uval ≤ k := Nat.le_of_lt_succ (Nat.log_lt_of_lt_pow hne hlt)
    rw [integerText, numeral, if_neg hne] at htext
    have hroom : (if negative then ([45] : Text) else []).length + (Nat.log b uval + 1) ≤ len := by
      rw [htext, List.length_append, List.length_map, List.length_reverse,
        Nat.length_digits b uval hb hne] at hlen
      exact hlen
    have hsign : ((if negative then addChar len [] 45 else []) : Text) =
        if negative then [45] else [] := by
      rw [addChar_room (show ([] : Text).length < len by simp; omega)]
      rfl
    have hzeros := removeZeros_eq hb hne hlog (show k ≤ Nat.log b uval + w by omega)
    have hdigits := addDigits_eq hb hb16 (Nat.lt_pow_succ_log_self hb uval)
      (show Nat.log b uval < w + 1 by omega) hroom
    rw [digitsFrom_log hb hne] at hdigits
    have hrun : (toStrBaseSign weights val len base sign).1 =
        addDigits len b (w + 1) (if negative then addChar len [] 45 else []) uval
          (removeZeros b uval w (weights base).1) := by
      unfold toStrBaseSign
      rw [if_neg hval, ← huval]
    rw [hrun, hweight, hzeros, hsign, hdigits, htext]

theorem weighs32 (base : Int) : ∃ k, k ≤ 31 ∧ Weighs 32 k (weights32 base) := by
  unfold weights32
  split
  · exact ⟨31, by decide, by unfold Weighs; decide⟩
  · exact ⟨10, by decide, by unfold Weighs; decide⟩
  · exact ⟨7, by decide, by unfold Weighs; decide⟩
  · exact ⟨9, by decide, by unfold Weighs; decide⟩

theorem weighs64 (base : Int) : ∃ k, k ≤ 63 ∧ Weighs 64 k (weights64 base) := by
  unfold weights64
  split
  · exact ⟨63, by decide, by unfold Weighs; decide⟩
  · exact ⟨21, by decide, by unfold Weighs; decide⟩
  · exact ⟨15, by decide, by unfold Weighs; decide⟩
  · exact ⟨19, by decide, by unfold Weighs; decide⟩

theorem integerText_length (hb : 1 < b) (negative : Bool) {n k : Nat} (hn : n < b ^ (k + 1)) :
    (integerText b negative n).length ≤ k + 2 := by
  have hlen := numeral_length hb hn
  unfold integerText
  cases negative <;> simp <;> omega

/-- The magnitude of a signed integer. -/
def magnitude {w : Nat} (val : BitVec w) : Nat := if val.msb then (-val).toNat else val.toNat

theorem magnitude_lt {w : Nat} (val : BitVec w) : magnitude val < 2 ^ w := by
  unfold magnitude
  split
  · exact (-val).isLt
  · exact val.isLt

/-- The buffers of `libscpi/parser.c` have room for the integers of their width. -/
theorem uint32ToStr_signed (val : BitVec 32) :
    (uint32ToStrBaseSign val 33 10 true).1 = integerText 10 val.msb (magnitude val) := by
  obtain ⟨k, hk, hweighs⟩ := weighs32 10
  have hnegative : (true && val.msb && (weights32 10).2 == 10) = val.msb := by
    cases val.msb <;> rfl
  have h := toStrBaseSign_eq hweighs val 33 true
  simp only [hnegative] at h
  have hlen : (integerText 10 val.msb (magnitude val)).length ≤ k + 2 :=
    integerText_length (by decide) _ (Nat.lt_of_lt_of_le (magnitude_lt val) hweighs.2.2.2.1)
  exact congrArg Prod.fst (h (Nat.le_trans hlen (by omega)))

theorem uint32ToStr_unsigned (val : BitVec 32) (base : Int) :
    (uint32ToStrBaseSign val 33 base false).1 = numeral (weights32 base).2 val.toNat := by
  obtain ⟨k, hk, hweighs⟩ := weighs32 base
  have hlen : (numeral (weights32 base).2 val.toNat).length ≤ k + 1 :=
    numeral_length hweighs.2.1 (Nat.lt_of_lt_of_le val.isLt hweighs.2.2.2.1)
  exact congrArg Prod.fst (toStrBaseSign_eq hweighs val 33 false (Nat.le_trans hlen (by omega)))

theorem uint64ToStr_signed (val : BitVec 64) :
    (uint64ToStrBaseSign val 65 10 true).1 = integerText 10 val.msb (magnitude val) := by
  obtain ⟨k, hk, hweighs⟩ := weighs64 10
  have hnegative : (true && val.msb && (weights64 10).2 == 10) = val.msb := by
    cases val.msb <;> rfl
  have h := toStrBaseSign_eq hweighs val 65 true
  simp only [hnegative] at h
  have hlen : (integerText 10 val.msb (magnitude val)).length ≤ k + 2 :=
    integerText_length (by decide) _ (Nat.lt_of_lt_of_le (magnitude_lt val) hweighs.2.2.2.1)
  exact congrArg Prod.fst (h (Nat.le_trans hlen (by omega)))

theorem uint64ToStr_unsigned (val : BitVec 64) (base : Int) :
    (uint64ToStrBaseSign val 65 base false).1 = numeral (weights64 base).2 val.toNat := by
  obtain ⟨k, hk, hweighs⟩ := weighs64 base
  have hlen : (numeral (weights64 base).2 val.toNat).length ≤ k + 1 :=
    numeral_length hweighs.2.1 (Nat.lt_of_lt_of_le val.isLt hweighs.2.2.2.1)
  exact congrArg Prod.fst (toStrBaseSign_eq hweighs val 65 false (Nat.le_trans hlen (by omega)))

/-- A length below `10 ^ 9` leaves room for its NUL in the header of a block. -/
theorem uint32ToStr_blockLength {n : Nat} (hn : n < 10 ^ 9) :
    uint32ToStrBaseSign (BitVec.ofNat 32 n) 10 10 false = (numeral 10 n, true) := by
  obtain ⟨k, hk, hweighs⟩ := weighs32 10
  have hval : (BitVec.ofNat 32 n).toNat = n := by
    rw [BitVec.toNat_ofNat]
    omega
  have hlen : (numeral 10 n).length ≤ 9 := numeral_length (by decide) hn
  have h := toStrBaseSign_eq hweighs (BitVec.ofNat 32 n) 10 false
  simp only [Bool.false_and, Bool.false_eq_true, if_false, hval] at h
  have htext : integerText (weights32 10).2 false n = numeral 10 n := rfl
  rw [htext] at h
  have h := h (by omega)
  rw [decide_eq_true (show (numeral 10 n).length < 10 by omega)] at h
  exact h

/-! ## Reading it back -/

theorem digitValue_digitChar {d : Nat} (hd : d < 16) : digitValue (digitChar d) = d := by
  have h : ∀ d : Fin 16, digitValue (digitChar d) = d := by decide
  exact h ⟨d, hd⟩

/-- The characters of a numeral are digits of its base. -/
theorem numeral_digit (hb : 1 < b) (hb16 : b ≤ 16) {n : Nat} {c : Byte} (hc : c ∈ numeral b n) :
    ∃ d < b, c = digitChar d := by
  unfold numeral at hc
  split at hc
  · exact ⟨0, by omega, List.mem_singleton.mp hc⟩
  · obtain ⟨d, hd, rfl⟩ := List.mem_map.mp hc
    exact ⟨d, Nat.digits_lt_base hb (List.mem_reverse.mp hd), rfl⟩

theorem numeral_ne_nil (n : Nat) : numeral b n ≠ [] := by
  unfold numeral
  split
  · exact nofun
  · rename_i hn
    simpa [Nat.digits_eq_nil_iff_eq_zero] using hn

theorem horner_numeral (hb : 1 < b) (hb16 : b ≤ 16) (n : Nat) :
    horner b ((numeral b n).map digitValue) = n := by
  unfold numeral
  split
  · rename_i hn
    show 0 * b + digitValue 48 = n
    rw [Nat.zero_mul, hn]
    rfl
  · have hvalues : (Nat.digits b n).reverse.map (digitValue ∘ digitChar) =
        (Nat.digits b n).reverse.map id := List.map_congr_left fun d hd =>
      digitValue_digitChar (Nat.lt_of_lt_of_le (Nat.digits_lt_base hb (List.mem_reverse.mp hd)) hb16)
    rw [List.map_map, hvalues, List.map_id, horner_digits]

/-- No digit and no letter comes first. -/
def NumberEnd (rest : Text) : Prop := ∀ c ∈ rest.head?, digitValue c = 36

theorem digitChar_plain {d : Nat} (hd : d < 16) :
    isspace (digitChar d) = false ∧ digitChar d ≠ 45 ∧ digitChar d ≠ 43 ∧ digitChar d ≠ 120 ∧
      digitChar d ≠ 88 := by
  have h : ∀ d : Fin 16, isspace (digitChar d) = false ∧ digitChar d ≠ 45 ∧ digitChar d ≠ 43 ∧
    digitChar d ≠ 120 ∧ digitChar d ≠ 88 := by decide
  exact h ⟨d, hd⟩

theorem numeral_head (hb : 1 < b) (hb16 : b ≤ 16) (n : Nat) :
    ∃ d s, d < 16 ∧ numeral b n = digitChar d :: s := by
  obtain ⟨c, s, hcs⟩ := List.exists_cons_of_ne_nil (numeral_ne_nil (b := b) n)
  obtain ⟨d, hd, rfl⟩ := numeral_digit hb hb16 (c := c) (n := n) (by rw [hcs]; exact List.mem_cons_self ..)
  exact ⟨d, s, by omega, hcs⟩

theorem takeSign_text (hb : 1 < b) (hb16 : b ≤ 16) (negative : Bool) (n : Nat) (rest : Text) :
    takeSign ((integerText b negative n ++ rest).dropWhile isspace) =
      (negative, numeral b n ++ rest) := by
  obtain ⟨d, s, hd, hs⟩ := numeral_head hb hb16 n
  obtain ⟨hspace, h45, h43, -⟩ := digitChar_plain hd
  unfold integerText
  rw [hs]
  cases negative with
  | true => rfl
  | false =>
    show takeSign ((digitChar d :: (s ++ rest)).dropWhile isspace) = _
    rw [List.dropWhile_cons_of_neg (by rw [hspace]; exact nofun)]
    unfold takeSign
    split
    · rename_i h
      exact absurd (List.cons.inj h).1 h45
    · rename_i h
      exact absurd (List.cons.inj h).1 h43
    · rfl

/-- Behind a zero comes a digit, or no letter at all. -/
theorem skipHexPrefix_text (hb : 1 < b) (hb16 : b ≤ 16) (n : Nat) {rest : Text}
    (hrest : NumberEnd rest) : skipHexPrefix b (numeral b n ++ rest) = numeral b n ++ rest := by
  obtain ⟨d, s, -, hs⟩ := numeral_head hb hb16 n
  have hsecond : ∀ x ∈ (s ++ rest).head?, x ≠ 120 ∧ x ≠ 88 := by
    intro x hx
    cases s with
    | nil =>
      have hvalue := hrest x hx
      constructor <;>
        · rintro rfl
          revert hvalue
          decide
    | cons c s =>
      rw [← Option.some.inj hx]
      obtain ⟨e, he, rfl⟩ := numeral_digit hb hb16 (c := c) (n := n) (by rw [hs]; simp)
      obtain ⟨-, -, -, h120, h88⟩ := digitChar_plain (Nat.lt_of_lt_of_le he hb16)
      exact ⟨h120, h88⟩
  rw [hs, List.cons_append]
  generalize s ++ rest = t at hsecond
  unfold skipHexPrefix
  split
  · rename_i x c u heq
    obtain ⟨-, rfl⟩ := List.cons.inj heq
    obtain ⟨h120, h88⟩ := hsecond x rfl
    rw [if_neg fun h => h.2.1.elim h120 h88, (List.cons.inj heq).1]
  · rfl

theorem takeWhile_text (hb : 1 < b) (hb16 : b ≤ 16) (n : Nat) {rest : Text}
    (hrest : NumberEnd rest) :
    (numeral b n ++ rest).takeWhile (digitValue · < b) = numeral b n := by
  rw [List.takeWhile_append_of_pos]
  · have hnone : rest.takeWhile (digitValue · < b) = [] := by
      cases rest with
      | nil => rfl
      | cons c rest =>
        have hc := hrest c rfl
        rw [List.takeWhile_cons_of_neg]
        simp only [decide_eq_true_eq]
        omega
    rw [hnone, List.append_nil]
  · intro c hc
    obtain ⟨d, hd, rfl⟩ := numeral_digit hb hb16 hc
    rw [digitValue_digitChar (Nat.lt_of_lt_of_le hd hb16)]
    exact decide_eq_true hd

theorem scanInteger_text (hb : 1 < b) (hb16 : b ≤ 16) (negative : Bool) (n : Nat) {rest : Text}
    (hrest : NumberEnd rest) :
    scanInteger b (integerText b negative n ++ rest) =
      some (negative, n, (integerText b negative n).length) := by
  have hused : (integerText b negative n ++ rest).length - (numeral b n ++ rest).length +
      (numeral b n).length = (integerText b negative n).length := by
    unfold integerText
    simp only [List.length_append]
    omega
  unfold scanInteger
  rw [takeSign_text hb hb16]
  simp only [skipHexPrefix_text hb hb16 n hrest, takeWhile_text hb hb16 n hrest,
    horner_numeral hb hb16, hused]
  rw [if_neg (by simpa using numeral_ne_nil n)]

theorem magnitude_le {w : Nat} (val : BitVec w) :
    if val.msb then magnitude val ≤ 2 ^ (w - 1) else magnitude val < 2 ^ (w - 1) := by
  unfold magnitude
  cases w with
  | zero => simp [BitVec.of_length_zero]
  | succ w =>
    have hmsb := BitVec.msb_eq_decide val
    have hlt := val.isLt
    rw [Nat.add_sub_cancel] at hmsb ⊢
    rw [Nat.pow_succ] at hlt
    cases h : val.msb with
    | false =>
      rw [h, eq_comm, decide_eq_false_iff_not] at hmsb
      simp only [Bool.false_eq_true, if_false]
      omega
    | true =>
      rw [h, eq_comm, decide_eq_true_eq] at hmsb
      simp only [if_true, BitVec.toNat_neg, Nat.pow_succ]
      rw [Nat.mod_eq_of_lt (by omega)]
      omega

/-- `strtol` reads every signed integer back. -/
theorem strtol_text {w : Nat} (val : BitVec w) {rest : Text} (hrest : NumberEnd rest) :
    strtol w (integerText 10 val.msb (magnitude val) ++ rest) 10 =
      (val, (integerText 10 val.msb (magnitude val)).length) := by
  have hle := magnitude_le val
  unfold strtol
  rw [scanInteger_text (by decide) (by decide) _ _ hrest]
  cases h : val.msb with
  | false =>
    rw [h, if_neg nofun] at hle
    simp only [Bool.false_eq_true, if_false]
    rw [if_neg (by omega), magnitude, h]
    simp
  | true =>
    rw [h, if_pos rfl] at hle
    have hback : -BitVec.ofNat w (-val).toNat = val := by
      rw [BitVec.ofNat_toNat, BitVec.setWidth_eq, BitVec.neg_neg]
    simp only [if_true]
    rw [if_neg (by omega), magnitude, h, if_pos rfl, hback]

/-- `strtoul` reads every unsigned integer back, in the base it was written in. -/
theorem strtoul_text {w : Nat} (hb : 1 < b) (hb16 : b ≤ 16) (val : BitVec w) {rest : Text}
    (hrest : NumberEnd rest) :
    strtoul w (numeral b val.toNat ++ rest) b = (val, (numeral b val.toNat).length) := by
  have hscan := scanInteger_text hb hb16 false val.toNat hrest
  have hlt := val.isLt
  unfold strtoul
  rw [show numeral b val.toNat = integerText b false val.toNat from rfl, hscan]
  simp only [Bool.false_eq_true, if_false]
  rw [if_neg (by omega)]
  simp

end XHeepFemu.Scpi
