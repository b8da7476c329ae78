import XHeepFemu.Lib.KeyPath
import XHeepFemu.Scpi.Match

/-!
# Patterns

A pattern of the command list is a path of keywords, some of them in brackets
and optional: `[:MEASure]:VOLTage#:DC?`. A keyword is spelled in full or by the
part before its first lower case letter, in any case, and takes a number if it
has a `#`. `matchCommand` makes one greedy pass over pattern and header.
-/

namespace XHeepFemu.Scpi

open Lib (KeyNode Spells)

/-! ## Keywords -/

/-- No NUL and none of `#:?[]`. -/
def isKeywordChar (c : Byte) : Bool := !([0, 35, 58, 63, 91, 93].contains c)

/-- One keyword of a pattern. -/
structure PatternNode where
  keyword : Text
  numbered : Bool
  optional : Bool
  plain : ∀ c ∈ keyword, isKeywordChar c = true
  short : (keyword.head?.any fun c => !islower c) = true

/-- Equal but for the case of letters. -/
def sameLetters (s t : Text) : Bool := s.map tolower == t.map tolower

namespace PatternNode

/-- The long and the short form. -/
def forms (n : PatternNode) : List Text := [n.keyword, n.keyword.takeWhile fun c => !islower c]

def accepts (n : PatternNode) (k : Text) : Bool :=
  n.forms.any fun f =>
    if n.numbered then sameLetters f (k.take f.length) && (k.drop f.length).all isdigit
    else sameLetters f k

def node (n : PatternNode) : KeyNode Text := ⟨n.accepts, n.optional⟩

def text (n : PatternNode) : Text := n.keyword ++ if n.numbered then [35] else []

/-- What stands before the keyword. -/
def opening (n : PatternNode) : Text := if n.optional then [91, 58] else [58]

def closing (n : PatternNode) : Text := if n.optional then [93] else []

end PatternNode

/-- The nodes behind the first one. -/
def tailText : List PatternNode → Text
  | [] => []
  | n :: ns => n.opening ++ (n.text ++ (n.closing ++ tailText ns))

/-- A pattern of the command list. -/
structure Pattern where
  first : PatternNode
  rest : List PatternNode
  query : Bool

namespace Pattern

def nodes (p : Pattern) : List (KeyNode Text) := (p.first :: p.rest).map PatternNode.node

/-- The pattern without its question mark. -/
def body (p : Pattern) : Text :=
  (if p.first.optional then [91, 58] else []) ++
    (p.first.text ++ (p.first.closing ++ tailText p.rest))

/-- The pattern as the command list has it. -/
def text (p : Pattern) : Text := p.body ++ if p.query then [63] else []

/-- A path spells the pattern: its keywords, joined by colons, after at most one more colon,
which may not stand before a common command. -/
def SpelledPath (p : Pattern) (path : Text) : Prop :=
  ∃ k ks, Spells p.nodes (k :: ks) ∧
    (path = [58].intercalate (k :: ks) ∨
      path = 58 :: [58].intercalate (k :: ks) ∧ k.head? ≠ some 42)

/-- A header spells the pattern. -/
def Spelled (p : Pattern) (cmd : Text) : Prop :=
  ∃ path, p.SpelledPath path ∧ cmd = path ++ if p.query then [63] else []

end Pattern

/-! ## Strings without NUL -/

theorem tolower_eq_zero {c : Byte} : tolower c = 0 ↔ c = 0 := by
  unfold tolower
  split
  · rename_i h
    simp only [Bool.and_eq_true, decide_eq_true_eq] at h
    have h1 : 65 ≤ c.toNat := h.1
    have h2 : c.toNat ≤ 90 := h.2
    constructor
    · intro h0
      have := congrArg UInt8.toNat h0
      simp at this
      omega
    · rintro rfl
      simp at h1
  · exact Iff.rfl

/-- No letter is a separator in the other case. -/
theorem tolower_separator {c d : Byte} (hc : c = 58 ∨ c = 63) (h : tolower d = tolower c) :
    d = c := by
  have hself : tolower c = c := by rcases hc with rfl | rfl <;> rfl
  rw [hself] at h
  unfold tolower at h
  split at h
  · rename_i hd
    simp only [Bool.and_eq_true, decide_eq_true_eq] at hd
    have h1 : 65 ≤ d.toNat := hd.1
    have h2 : d.toNat ≤ 90 := hd.2
    have := congrArg UInt8.toNat h
    rcases hc with rfl | rfl <;>
      · simp at this
        omega
  · exact h

theorem sameLetters_cons {c d : Byte} {s t : Text} :
    sameLetters (c :: s) (d :: t) = (tolower c == tolower d && sameLetters s t) := rfl

theorem sameLetters_length {s t : Text} (h : sameLetters s t = true) : s.length = t.length := by
  have := congrArg List.length (beq_iff_eq.mp h)
  simpa using this

theorem strncasecmp_cons {n : Nat} {c d : Byte} {s t : Text} :
    strncasecmp (n + 1) (c :: s) (d :: t) =
      if tolower c ≠ tolower d then ((tolower c).toNat : Int) - (tolower d).toNat
      else if tolower c = 0 then 0 else strncasecmp n s t := rfl

theorem strncasecmp_eq_zero {s t : Text} (hs : 0 ∉ s) (hlen : s.length ≤ t.length) :
    strncasecmp s.length s t = 0 ↔ sameLetters s (t.take s.length) = true := by
  induction s generalizing t with
  | nil => simp [strncasecmp, sameLetters]
  | cons c s ih =>
    cases t with
    | nil => simp at hlen
    | cons d t =>
      obtain ⟨hc, hs⟩ := not_or.mp (mt List.mem_cons.mpr hs)
      simp only [List.length_cons, Nat.add_le_add_iff_right] at hlen
      rw [List.length_cons, List.take_succ_cons, sameLetters_cons, Bool.and_eq_true, beq_iff_eq,
        ← ih hs hlen, strncasecmp_cons]
      have hzero : tolower c ≠ 0 := fun h => hc (tolower_eq_zero.mp h).symm
      by_cases h : tolower c = tolower d
      · rw [if_neg (not_not.mpr h), if_neg hzero]
        exact ⟨fun hrec => ⟨h, hrec⟩, fun hrec => hrec.2⟩
      · rw [if_pos h]
        refine ⟨fun hdiff => absurd (UInt8.toNat_inj.mp ?_) h, fun hrec => absurd hrec.1 h⟩
        omega

theorem compareStr_eq {s t : Text} (hs : 0 ∉ s) : compareStr s t = sameLetters s t := by
  unfold compareStr
  by_cases hlen : s.length = t.length
  · have hcmp := strncasecmp_eq_zero hs (Nat.le_of_eq hlen)
    rw [if_neg (not_not.mpr hlen), ← hlen, Bool.eq_iff_iff, beq_iff_eq, hcmp, hlen, List.take_length]
  · rw [if_pos hlen]
    cases hsame : sameLetters s t with
    | false => rfl
    | true => exact absurd (sameLetters_length hsame) hlen

/-- What does not start with `s` does not match. -/
theorem compareStrAndNum_differ {s t : Text} (hs : 0 ∉ s)
    (hdiffer : sameLetters s (t.take s.length) = false) (num : Option (BitVec 32)) :
    compareStrAndNum s t num = (false, num) := by
  unfold compareStrAndNum
  by_cases hlen : t.length < s.length
  · rw [if_pos hlen]
  · have hcmp := strncasecmp_eq_zero hs (Nat.le_of_not_lt hlen)
    rw [hdiffer] at hcmp
    rw [if_neg hlen, if_neg fun h => Bool.false_ne_true (hcmp.mp h)]

theorem compareStrAndNum_same {s t : Text} (hs : 0 ∉ s)
    (hsame : sameLetters s (t.take s.length) = true) :
    ¬t.length < s.length ∧ strncasecmp s.length s t = 0 := by
  have hlen := sameLetters_length hsame
  rw [List.length_take] at hlen
  exact ⟨by omega, (strncasecmp_eq_zero hs (by omega)).mpr hsame⟩

theorem compareStrAndNum_none {s t : Text} (hs : 0 ∉ s) :
    compareStrAndNum s t none =
      (sameLetters s (t.take s.length) && (t.drop s.length).all isdigit, none) := by
  cases hsame : sameLetters s (t.take s.length) with
  | false => exact compareStrAndNum_differ hs hsame none
  | true =>
    obtain ⟨hlen, hcmp⟩ := compareStrAndNum_same hs hsame
    unfold compareStrAndNum
    simp only [if_neg hlen, if_pos hcmp, Bool.true_and]

theorem takeWhile_long {s : Text} (hs : 0 ∉ s) :
    (s.takeWhile fun c => c != 0 && !islower c) = s.takeWhile fun c => !islower c := by
  induction s with
  | nil => rfl
  | cons c s ih =>
    obtain ⟨hc, hs⟩ := not_or.mp (mt List.mem_cons.mpr hs)
    rw [List.takeWhile_cons, List.takeWhile_cons, ih hs, (bne_iff_ne).mpr (Ne.symm hc),
      Bool.true_and]

/-- The short form of a keyword. -/
theorem take_shortPos {s : Text} (hs : 0 ∉ s) :
    s.take (patternSeparatorShortPos s) = s.takeWhile fun c => !islower c := by
  unfold patternSeparatorShortPos
  rw [takeWhile_long hs]
  exact (List.prefix_iff_eq_take.mp (List.takeWhile_prefix _)).symm

/-! ## One keyword -/

namespace PatternNode

variable (n : PatternNode)

theorem keyword_ne_nil : n.keyword ≠ [] := by
  intro h
  have := n.short
  rw [h] at this
  cases this

theorem not_mem {c : Byte} (hc : isKeywordChar c = false) : c ∉ n.keyword := by
  intro h
  rw [n.plain c h] at hc
  cases hc

theorem text_numbered (h : n.numbered = true) : n.text = n.keyword ++ [35] := by
  unfold text
  rw [h]
  rfl

theorem text_plain (h : n.numbered = false) : n.text = n.keyword := by
  unfold text
  rw [h]
  exact List.append_nil _

theorem zero_notMem_forms {f : Text} (hf : f ∈ n.forms) : 0 ∉ f := by
  have hzero := n.not_mem (c := 0) rfl
  rcases List.mem_pair.mp hf with rfl | rfl
  · exact hzero
  · exact fun h => hzero ((List.takeWhile_prefix _).subset h)

theorem text_last : n.text.getLast? = some 35 ↔ n.numbered = true := by
  cases h : n.numbered with
  | true =>
    rw [n.text_numbered h, List.getLast?_concat]
    exact iff_of_true rfl rfl
  | false =>
    rw [n.text_plain h]
    exact iff_of_false (fun h => n.not_mem (c := 35) rfl (List.mem_of_getLast? h)) nofun

/-- A keyword with a number: its long form is tried before the short one. -/
theorem matchPattern_numbered (h : n.numbered = true) (k : Text) (num : Option (BitVec 32)) :
    matchPattern n.text k num =
      if (compareStrAndNum n.keyword k num).1 then compareStrAndNum n.keyword k num
      else compareStrAndNum (n.keyword.takeWhile fun c => !islower c) k
        (compareStrAndNum n.keyword k num).2 := by
  unfold matchPattern
  rw [if_pos (n.text_last.mpr h), n.text_numbered h, List.dropLast_concat]
  dsimp only
  rw [take_shortPos (n.not_mem rfl)]

theorem matchPattern_text (k : Text) : matchPattern n.text k none = (n.accepts k, none) := by
  have hlong : 0 ∉ n.keyword := n.zero_notMem_forms (List.mem_cons_self ..)
  have hshort := n.zero_notMem_forms (List.mem_pair.mpr (.inr rfl))
  cases h : n.numbered with
  | true =>
    rw [n.matchPattern_numbered h]
    simp only [compareStrAndNum_none hlong, compareStrAndNum_none hshort, accepts, forms, h, if_true,
      List.any_cons, List.any_nil, Bool.or_false]
    cases sameLetters n.keyword (k.take n.keyword.length) &&
      (k.drop n.keyword.length).all isdigit <;> rfl
  | false =>
    unfold matchPattern
    rw [if_neg (by rw [n.text_last, h]; exact nofun), n.text_plain h, take_shortPos hlong,
      compareStr_eq hlong, compareStr_eq hshort]
    simp only [accepts, forms, h, Bool.false_eq_true, if_false, List.any_cons, List.any_nil,
      Bool.or_false]

/-- A caller that wants no numbers gets none. -/
theorem keyword_null {numbers : Numbers} (hnull : numbers.values = none) (k : Text) :
    (numbers.keyword n.text k).1 = n.accepts k ∧ (numbers.keyword n.text k).2.values = none := by
  unfold Numbers.keyword
  rw [hnull]
  simp only [Option.bind_none, n.matchPattern_text]
  split <;> exact ⟨rfl, by first | rfl | exact hnull⟩

/-- A keyword is not empty and has no separator in it. -/
theorem accepts_plain {k : Text} (h : n.accepts k = true) : k ≠ [] ∧ 58 ∉ k ∧ 63 ∉ k := by
  obtain ⟨f, hf, hmatch⟩ := List.any_eq_true.mp h
  have hform : f ≠ [] ∧ ∀ c ∈ f, c ∈ n.keyword := by
    obtain ⟨c, s, hkey⟩ := List.exists_cons_of_ne_nil n.keyword_ne_nil
    have hshort := n.short
    rw [hkey, List.head?_cons, Option.any_some] at hshort
    rcases List.mem_pair.mp hf with rfl | rfl
    · exact ⟨n.keyword_ne_nil, fun c hc => hc⟩
    · refine ⟨?_, fun c hc => (List.takeWhile_prefix _).subset hc⟩
      rw [hkey, List.takeWhile_cons, hshort]
      simp
  have hletters : ∀ t, sameLetters f t = true → t ≠ [] ∧ 58 ∉ t ∧ 63 ∉ t := by
    intro t hsame
    have hmem : ∀ c ∈ t, ∃ d ∈ f, tolower d = tolower c := fun c hc => by
      have := List.mem_map_of_mem (f := tolower) hc
      rw [← beq_iff_eq.mp hsame] at this
      exact List.mem_map.mp this
    refine ⟨fun hnil => ?_, fun hc => ?_, fun hc => ?_⟩
    · have := sameLetters_length hsame
      rw [hnil, List.length_nil] at this
      exact hform.1 (List.length_eq_zero_iff.mp this)
    · obtain ⟨d, hd, heq⟩ := hmem 58 hc
      exact n.not_mem rfl (tolower_separator (.inl rfl) heq ▸ hform.2 d hd)
    · obtain ⟨d, hd, heq⟩ := hmem 63 hc
      exact n.not_mem rfl (tolower_separator (.inr rfl) heq ▸ hform.2 d hd)
  split at hmatch
  · rw [Bool.and_eq_true, List.all_eq_true] at hmatch
    obtain ⟨hne, h58, h63⟩ := hletters _ hmatch.1
    have hdigits : ∀ {c}, isdigit c = false → c ∉ k.take f.length → c ∉ k := by
      intro c hc htake hk
      rw [← List.take_append_drop f.length k] at hk
      rcases List.mem_append.mp hk with hk | hk
      · exact htake hk
      · rw [hmatch.2 c hk] at hc
        cases hc
    exact ⟨fun hnil => hne (by rw [hnil, List.take_nil]), hdigits rfl h58, hdigits rfl h63⟩
  · exact hletters k hmatch

end PatternNode

end XHeepFemu.Scpi
