import XHeepFemu.Scpi.Dispatch

/-!
# Numbers of a header

A keyword with a `#` may be followed by a number, and `SCPI_CommandNumbers` gives
the callback these numbers: `OUTPut#:CHANnel#` for `OUTP2:CHAN` are 2 and the
default. A header is written by a choice for each keyword of its pattern, and
`written` is what the callback reads: behind the last keyword of the header, what
the array held before.
-/

namespace XHeepFemu.Scpi

open Lib (Spells Separate horner)

/-! ## Digits -/

/-- No NUL, no white space and no sign. -/
def isPlainChar (c : Byte) : Bool := c != 0 && !isspace c && c != 43 && c != 45

/-- The number of a keyword; the largest one if it has too many digits. -/
def keywordNumber (digits : Text) : BitVec 32 :=
  let n := horner 10 (digits.map digitValue)
  if 2 ^ 31 ≤ n then BitVec.intMax 32 else BitVec.ofNat 32 n

def numberOr (defaultValue : BitVec 32) (digits : Text) : BitVec 32 :=
  if digits = [] then defaultValue else keywordNumber digits

theorem digitValue_lt_ten (c : Byte) : decide (digitValue c < 10) = isdigit c := by
  unfold digitValue isdigit
  split
  · rename_i h
    rw [h, decide_eq_true_eq]
    have hle : c.toNat ≤ 57 := (decide_eq_true_eq.mp (Bool.and_eq_true_iff.mp h).2)
    omega
  · rename_i h
    rw [Bool.not_eq_true] at h
    rw [h, decide_eq_false_iff_not]
    split
    · rename_i hupper
      have hle : 65 ≤ c.toNat := (decide_eq_true_eq.mp (Bool.and_eq_true_iff.mp hupper).1)
      omega
    · split
      · rename_i hlower
        have hle : 97 ≤ c.toNat := (decide_eq_true_eq.mp (Bool.and_eq_true_iff.mp hlower).1)
        omega
      · omega

theorem strBaseToInt32_plain {s : Text} (hplain : s.all isPlainChar = true) :
    strBaseToInt32 s 10 =
      if s.takeWhile isdigit = [] then (0, 0)
      else (keywordNumber (s.takeWhile isdigit), (s.takeWhile isdigit).length) := by
  have hsign : takeSign (s.dropWhile isspace) = (false, s) := by
    cases s with
    | nil => rfl
    | cons c s =>
      rw [List.all_cons, Bool.and_eq_true] at hplain
      have hc := hplain.1
      unfold isPlainChar at hc
      simp only [Bool.and_eq_true, bne_iff_ne, Bool.not_eq_true'] at hc
      obtain ⟨⟨⟨-, hspace⟩, h43⟩, h45⟩ := hc
      rw [List.dropWhile_cons_of_neg (by rw [hspace]; exact nofun)]
      unfold takeSign
      split
      · rename_i h
        exact absurd (List.cons.inj h).1 h45
      · rename_i h
        exact absurd (List.cons.inj h).1 h43
      · rfl
  have hhex : skipHexPrefix 10 s = s := by
    unfold skipHexPrefix
    split
    · rw [if_neg fun h => absurd h.1 (by decide)]
    · rfl
  have hdigits : s.takeWhile (digitValue · < 10) = s.takeWhile isdigit := by
    congr 1
    funext c
    exact digitValue_lt_ten c
  unfold strBaseToInt32 strtol scanInteger
  rw [hsign]
  simp only [hhex, hdigits, Nat.sub_self, Nat.zero_add, List.isEmpty_iff]
  by_cases hnil : s.takeWhile isdigit = []
  · simp only [hnil, if_true]
  · simp only [hnil, if_false, Bool.false_eq_true]
    rfl

/-- With a place for its number a keyword is compared as without. -/
theorem compareStrAndNum_some {s t : Text} (hs : 0 ∉ s) (hplain : t.all isPlainChar = true)
    (defaultValue : BitVec 32) :
    compareStrAndNum s t (some defaultValue) =
      if sameLetters s (t.take s.length) && (t.drop s.length).all isdigit then
        (true, some (numberOr defaultValue (t.drop s.length)))
      else (false, some defaultValue) := by
  cases hsame : sameLetters s (t.take s.length) with
  | false => exact compareStrAndNum_differ hs hsame _
  | true =>
    obtain ⟨hlen, hcmp⟩ := compareStrAndNum_same hs hsame
    have hdrop : (t.drop s.length).length = t.length - s.length := List.length_drop ..
    have hrest : (t.drop s.length).all isPlainChar = true := by
      rw [List.all_eq_true] at hplain ⊢
      exact fun c hc => hplain c (List.mem_of_mem_drop hc)
    unfold compareStrAndNum
    simp only [if_neg hlen, if_pos hcmp, Bool.true_and, strBaseToInt32_plain hrest]
    generalize t.drop s.length = rest at hdrop
    by_cases hnil : rest = []
    · subst hnil
      rw [if_pos (by rw [List.length_nil] at hdrop; omega)]
      rfl
    have hpos := List.length_pos_iff.mpr hnil
    rw [if_neg (by omega)]
    cases hall : rest.all isdigit with
    | true =>
      have htake : rest.takeWhile isdigit = rest :=
        List.takeWhile_eq_self_iff.mpr (List.all_eq_true.mp hall)
      simp only [htake, if_neg hnil, numberOr, if_true]
      rw [if_neg (by omega)]
    | false =>
      have hlt : (rest.takeWhile isdigit).length < rest.length := by
        by_contra hge
        have htake := (List.takeWhile_prefix (l := rest) isdigit).eq_of_length_le (by omega)
        rw [List.takeWhile_eq_self_iff, ← List.all_eq_true, hall] at htake
        cases htake
      have hused : ∀ r : BitVec 32 × Nat, r.2 ≤ (rest.takeWhile isdigit).length →
          (if s.length + r.2 ≠ t.length then (false, some defaultValue) else (true, some r.1)) =
            (false, some defaultValue) := fun r hr => if_pos (by omega)
      refine hused _ ?_
      split
      · exact Nat.zero_le _
      · exact Nat.le_refl _

/-! ## One keyword -/

/-- The next number is stored, if there is room for it. -/
def Numbers.write (numbers : Numbers) (num : BitVec 32) : Numbers :=
  ⟨numbers.values.map (·.set numbers.idx num), numbers.idx + 1, numbers.defaultValue⟩

namespace PatternNode

variable {n : PatternNode} {k : Text} {numbers : Numbers}

/-- The part before the first lower case letter. -/
def shortForm (n : PatternNode) : Text := n.keyword.takeWhile fun c => !islower c

/-- What stands behind the form of a key. -/
def digits (n : PatternNode) (k : Text) : Text :=
  if sameLetters n.keyword (k.take n.keyword.length) && (k.drop n.keyword.length).all isdigit then
    k.drop n.keyword.length
  else k.drop n.shortForm.length

theorem matchPattern_some (hnum : n.numbered = true) (hplain : k.all isPlainChar = true)
    (defaultValue : BitVec 32) :
    matchPattern n.text k (some defaultValue) =
      (n.accepts k, some (if n.accepts k then numberOr defaultValue (n.digits k) else defaultValue)) := by
  have hlong := compareStrAndNum_some (n.zero_notMem_forms (List.mem_cons_self ..)) hplain defaultValue
  have hshort := compareStrAndNum_some (s := n.shortForm)
    (n.zero_notMem_forms (List.mem_pair.mpr (.inr rfl))) hplain defaultValue
  rw [n.matchPattern_numbered hnum, hlong]
  simp only [accepts, forms, digits, hnum, if_true, List.any_cons, List.any_nil, Bool.or_false]
  cases sameLetters n.keyword (k.take n.keyword.length) &&
    (k.drop n.keyword.length).all isdigit with
  | true => rfl
  | false =>
    refine hshort.trans ?_
    unfold shortForm
    cases sameLetters _ _ && List.all _ isdigit <;> rfl

theorem keyword_plain (hnum : n.numbered = false) : numbers.keyword n.text k = (n.accepts k, numbers) := by
  unfold Numbers.keyword
  rw [if_neg (by rw [n.text_last, hnum]; exact nofun), n.matchPattern_text]

/-- A keyword with a number stores it, and the default where the header does not have it. -/
theorem keyword_numbered (hnum : n.numbered = true) (hplain : k.all isPlainChar = true) :
    numbers.keyword n.text k =
      (n.accepts k, numbers.write
        (if n.accepts k then numberOr numbers.defaultValue (n.digits k) else numbers.defaultValue)) := by
  obtain ⟨values, idx, defaultValue⟩ := numbers
  unfold Numbers.keyword Numbers.write
  rw [if_pos (n.text_last.mpr hnum)]
  cases values with
  | none =>
    simp only [Option.bind_none, n.matchPattern_text, Option.map_none]
  | some values =>
    simp only [Option.bind_some, Option.map_some]
    by_cases hroom : idx < values.length
    · simp only [if_pos hroom, matchPattern_some hnum hplain]
    · simp only [if_neg hroom, n.matchPattern_text]
      rw [List.set_eq_of_length_le (Nat.le_of_not_lt hroom)]

end PatternNode

/-! ## A header by its choices -/

/-- How a keyword is written. -/
structure Choice where
  form : Text
  digits : Text

def Choice.key (c : Choice) : Text := c.form ++ c.digits

/-- What a header may have for a keyword. -/
inductive Chooses (n : PatternNode) : Option Choice → Prop where
  | skip : n.optional = true → Chooses n none
  | take {c : Choice} {f : Text} : f ∈ n.forms → sameLetters f c.form = true →
      c.digits.all isdigit = true → (n.numbered = false → c.digits = []) → Chooses n (some c)

/-- The keywords of the header. -/
def chosenKeys (choices : List (Option Choice)) : List Text :=
  choices.filterMap fun c => c.map Choice.key

section Chosen

variable {n : PatternNode} {c : Choice}

theorem Chooses.take_key {f : Text} (hsame : sameLetters f c.form = true) :
    c.key.take f.length = c.form ∧ c.key.drop f.length = c.digits := by
  rw [sameLetters_length hsame]
  exact ⟨List.take_left, List.drop_left⟩

theorem Chooses.accepts (h : Chooses n (some c)) : n.accepts c.key = true := by
  cases h with
  | @take _ f hf hsame hdigits hplain =>
    obtain ⟨htake, hdrop⟩ := Chooses.take_key hsame
    refine List.any_eq_true.mpr ⟨f, hf, ?_⟩
    cases hnum : n.numbered with
    | true =>
      rw [if_pos rfl, htake, hdrop, hsame, hdigits]
      rfl
    | false =>
      rw [if_neg nofun, Choice.key, hplain hnum, List.append_nil]
      exact hsame

/-- Behind the short form the long one ends, or goes on with a lower case letter. -/
theorem PatternNode.keyword_shortForm (n : PatternNode) :
    n.keyword = n.shortForm ∨ ∃ l s, n.keyword = n.shortForm ++ l :: s ∧ islower l = true := by
  have hsplit := List.takeWhile_append_dropWhile (p := fun c => !islower c) (l := n.keyword)
  cases hrest : n.keyword.dropWhile fun c => !islower c with
  | nil =>
    rw [hrest, List.append_nil] at hsplit
    exact .inl hsplit.symm
  | cons l s =>
    rw [hrest] at hsplit
    refine .inr ⟨l, s, hsplit.symm, ?_⟩
    have hhead := List.head?_dropWhile_not (fun c => !islower c) n.keyword
    rw [hrest] at hhead
    simpa using hhead

theorem tolower_digit {d l : Byte} (hd : isdigit d = true) (hl : islower l = true) :
    tolower d ≠ tolower l := by
  unfold isdigit at hd
  unfold islower at hl
  simp only [Bool.and_eq_true, decide_eq_true_eq, UInt8.le_iff_toNat_le] at hd hl
  have h57 : d.toNat ≤ 57 := hd.2
  have h97 : 97 ≤ l.toNat := hl.1
  have hplain : ∀ c : Byte, ¬(65 ≤ c.toNat ∧ c.toNat ≤ 90) → tolower c = c := fun c hc => by
    unfold tolower
    rw [if_neg]
    simp only [Bool.and_eq_true, decide_eq_true_eq, UInt8.le_iff_toNat_le]
    exact hc
  rw [hplain d (by omega), hplain l (by omega)]
  rintro rfl
  omega

/-- The digits of a key are those it was written with: behind the short form the long one goes on
with a letter. -/
theorem Chooses.digits (h : Chooses n (some c)) : n.digits c.key = c.digits := by
  cases h with
  | @take _ f hf hsame hdigits hplain =>
    obtain ⟨htake, hdrop⟩ := Chooses.take_key hsame
    unfold PatternNode.digits
    rcases List.mem_pair.mp hf with rfl | rfl
    · rw [htake, hdrop, hsame, hdigits]
      rfl
    · split
      · rename_i hlong
        rcases n.keyword_shortForm with hform | ⟨l, s, hform, hl⟩
        · rw [hform]
          exact hdrop
        · -- the letter behind the short form would be a digit of the key
          exfalso
          have hform' : n.shortForm.length = c.form.length := sameLetters_length hsame
          have hletter := congrArg (·[n.shortForm.length]?)
            (beq_iff_eq.mp (Bool.and_eq_true_iff.mp hlong).1)
          have hlt : n.shortForm.length < n.keyword.length := by
            rw [hform, List.length_append, List.length_cons]
            omega
          have hkey : n.keyword[n.shortForm.length]? = some l := by
            rw [hform, List.getElem?_append_right (Nat.le_refl _), Nat.sub_self]
            rfl
          have hdigit : c.key[n.shortForm.length]? = c.digits[0]? := by
            rw [Choice.key, hform', List.getElem?_append_right (Nat.le_refl _), Nat.sub_self]
          simp only [List.getElem?_map, hkey, List.getElem?_take_of_lt hlt, hdigit,
            Option.map_some] at hletter
          obtain ⟨d, hd, heq⟩ := Option.map_eq_some_iff.mp hletter.symm
          have hdigit := List.all_eq_true.mp hdigits d (List.mem_of_getElem? hd)
          exact tolower_digit hdigit hl heq
      · exact hdrop

/-- What is stored for a keyword. -/
def stored (defaultValue : BitVec 32) (n : PatternNode) (c : Option Choice) : List (BitVec 32) :=
  if n.numbered then [numberOr defaultValue ((c.map Choice.digits).getD [])] else []

variable (numbers : Numbers) {k : Text}

theorem keyword_taken (h : Chooses n (some c)) (hplain : c.key.all isPlainChar = true) :
    numbers.keyword n.text c.key =
      (true, (stored numbers.defaultValue n (some c)).foldl Numbers.write numbers) := by
  unfold stored
  cases hnum : n.numbered with
  | false => rw [PatternNode.keyword_plain hnum, h.accepts]; rfl
  | true => rw [PatternNode.keyword_numbered hnum hplain, h.accepts, h.digits]; rfl

theorem keyword_left (hno : n.accepts k = false) (hplain : k.all isPlainChar = true) :
    numbers.keyword n.text k =
      (false, (stored numbers.defaultValue n none).foldl Numbers.write numbers) := by
  unfold stored
  cases hnum : n.numbered with
  | false => rw [PatternNode.keyword_plain hnum, hno]; rfl
  | true => rw [PatternNode.keyword_numbered hnum hplain, hno]; rfl

end Chosen

/-- What is stored for a header: nothing behind its last keyword. -/
def written (defaultValue : BitVec 32) : List PatternNode → List (Option Choice) → List (BitVec 32)
  | n :: ns, c :: cs =>
    if chosenKeys (c :: cs) = [] then [] else stored defaultValue n c ++ written defaultValue ns cs
  | _, _ => []

/-! ## The whole header -/

section Header

variable {n : PatternNode} {ns : List PatternNode} {c : Option Choice} {cs : List (Option Choice)}
  {numbers : Numbers}

theorem written_cons (hne : chosenKeys (c :: cs) ≠ []) (defaultValue : BitVec 32) :
    written defaultValue (n :: ns) (c :: cs) =
      stored defaultValue n c ++ written defaultValue ns cs := if_neg hne

theorem written_none (h : chosenKeys cs = []) (defaultValue : BitVec 32) :
    written defaultValue ns cs = [] := by
  cases ns with
  | nil => rfl
  | cons n ns =>
    cases cs with
    | nil => rfl
    | cons c cs => exact if_pos h

theorem keys_none : chosenKeys (none :: cs) = chosenKeys cs := rfl

theorem keys_some (c : Choice) : chosenKeys (some c :: cs) = c.key :: chosenKeys cs := rfl

theorem foldl_write_default (nums : List (BitVec 32)) :
    (nums.foldl Numbers.write numbers).defaultValue = numbers.defaultValue := by
  induction nums generalizing numbers with
  | nil => rfl
  | cons num nums ih => exact ih

theorem spells_keys (h : List.Forall₂ Chooses ns cs) :
    Spells (ns.map PatternNode.node) (chosenKeys cs) := by
  induction h with
  | nil => exact .nil
  | @cons n c ns cs hchoose _ ih =>
    cases c with
    | none =>
      cases hchoose with
      | skip ho => exact .skip ho ih
    | some c => exact .take hchoose.accepts ih

theorem all_optional (h : List.Forall₂ Chooses ns cs) (hnone : chosenKeys cs = []) :
    ns.all (·.optional) = true := by
  have hspells := spells_keys h
  rw [hnone, Lib.spells_nil_iff, List.all_map] at hspells
  exact hspells

theorem free_key {k : Text} (hplain : k.all isPlainChar = true) (h58 : 58 ∉ k) (h63 : 63 ∉ k) :
    Free [58, 63] k := by
  intro d hd
  refine ⟨?_, ?_⟩
  · rintro rfl
    have := List.all_eq_true.mp hplain 0 hd
    cases this
  · intro hmem
    rcases List.mem_pair.mp hmem with rfl | rfl
    · exact h58 hd
    · exact h63 hd

theorem starts_keys {k : Text} (ks : List Text) (hk : Free [58, 63] k) :
    Starts k ([58].intercalate (k :: ks)) := by
  refine ⟨hk, ?_⟩
  by_cases hks : ks = []
  · subst hks
    exact .inl List.intercalate_singleton
  · refine .inr (.inl ⟨[58].intercalate ks, ?_⟩)
    rw [List.intercalate_cons_of_ne_nil hks, List.append_assoc]
    rfl

theorem matchLoop_choices {fuel : Nat} (hsep : Separate ((n :: ns).map PatternNode.node))
    (hchoices : List.Forall₂ Chooses (n :: ns) cs) (hne : chosenKeys cs ≠ [])
    (hplain : ∀ k ∈ chosenKeys cs, k.all isPlainChar = true) (hfuel : (keywordText n ns).length < fuel) :
    matchLoop fuel (keywordText n ns) ([58].intercalate (chosenKeys cs)) n.brackets numbers =
      some (true, (written numbers.defaultValue (n :: ns) cs).foldl Numbers.write numbers) := by
  induction cs generalizing n ns fuel numbers with
  | nil => cases hchoices
  | cons c cs ih =>
    obtain ⟨fuel, rfl⟩ : ∃ j, fuel = j + 1 := ⟨fuel - 1, by omega⟩
    obtain ⟨hchoose, hrest⟩ := List.forall₂_cons.mp hchoices
    have hspells := spells_keys hchoices
    have hfree : ∀ k ∈ chosenKeys (c :: cs), Free [58, 63] k := fun k hk =>
      free_key (hplain k hk) (nodes_plain hspells k hk).2.1 (nodes_plain hspells k hk).2.2
    rw [written_cons hne, List.foldl_append]
    cases c with
    | none =>
      rw [keys_none] at hne hplain hfree ⊢
      obtain ⟨k, ks, hkeys⟩ := List.exists_cons_of_ne_nil hne
      have hk : k ∈ chosenKeys cs := hkeys ▸ List.mem_cons_self ..
      -- another keyword takes `k`, so this one does not
      have hno : n.accepts k = false := by
        have hspells' := spells_keys hrest
        rw [hkeys] at hspells'
        obtain ⟨m, hm, hacc⟩ := hspells'.opening
        cases hchoose with
        | skip ho =>
          by_contra h
          have := hsep.1 ho m hm k ((Bool.not_eq_false _).mp h)
          rw [hacc] at this
          cases this
      have hkeyword := keyword_left numbers hno (hplain k hk)
      rw [hkeys, matchLoop_miss (starts_keys ks (hfree k hk)) (congrArg Prod.fst hkeyword), hkeyword,
        ← hkeys]
      cases ns with
      | nil =>
        cases hrest
        exact absurd rfl hne
      | cons m ms =>
        have hlen := keywordText_length n m ms
        have hround := @ih m ms ((stored numbers.defaultValue n none).foldl Numbers.write numbers) fuel
          hsep.2 hrest hne hplain (by omega)
        rw [foldl_write_default] at hround
        cases hchoose with
        | skip ho => exact (if_pos ho).trans hround
    | some c =>
      have hc := hplain c.key (List.mem_cons_self ..)
      have hkeyword := keyword_taken numbers hchoose hc
      rw [keys_some] at hfree hplain ⊢
      by_cases hnone : chosenKeys cs = []
      · rw [hnone, List.intercalate_singleton,
          matchLoop_take_last (hfree _ (List.mem_cons_self ..)) (congrArg Prod.fst hkeyword), hkeyword,
          all_optional hrest hnone, written_none hnone]
        rfl
      · rw [List.intercalate_cons_of_ne_nil hnone, List.append_assoc]
        refine (matchLoop_take_colon (hfree _ (List.mem_cons_self ..))
          (congrArg Prod.fst hkeyword)).trans ?_
        rw [hkeyword]
        cases ns with
        | nil =>
          cases hrest
          exact absurd rfl hnone
        | cons m ms =>
          have hlen := keywordText_length n m ms
          have hround := @ih m ms
            ((stored numbers.defaultValue n (some c)).foldl Numbers.write numbers) fuel
            hsep.2 hrest hnone (fun k hk => hplain k (List.mem_cons_of_mem _ hk)) (by omega)
          rw [foldl_write_default] at hround
          exact hround

end Header

/-! ## What the array holds -/

theorem foldl_write_full {values : List (BitVec 32)} {idx : Nat} (hfull : values.length ≤ idx)
    (defaultValue : BitVec 32) (nums : List (BitVec 32)) :
    (nums.foldl Numbers.write ⟨some values, idx, defaultValue⟩).values = some values := by
  induction nums generalizing idx with
  | nil => rfl
  | cons num nums ih =>
    rw [List.foldl_cons, Numbers.write]
    simp only [Option.map_some, List.set_eq_of_length_le hfull]
    exact ih (Nat.le_succ_of_le hfull)

/-- The numbers from their place on, as far as there is room; `done` is before them. -/
theorem foldl_write (nums done rest : List (BitVec 32)) (defaultValue : BitVec 32) :
    (nums.foldl Numbers.write ⟨some (done ++ rest), done.length, defaultValue⟩).values =
      some (done ++ (nums.take rest.length ++ rest.drop nums.length)) := by
  induction nums generalizing done rest with
  | nil => simp
  | cons num nums ih =>
    cases rest with
    | nil =>
      rw [foldl_write_full (by simp)]
      simp
    | cons old rest =>
      have hset : (done ++ old :: rest).set done.length num = (done ++ [num]) ++ rest := by simp
      have hround := ih (done ++ [num]) rest
      rw [List.length_append, List.length_singleton] at hround
      rw [List.foldl_cons, Numbers.write]
      simp only [Option.map_some, hset, hround]
      simp

set_option maxRecDepth 8000 in
theorem isPlainChar_mnemonic {c : Byte} (h : isMnemonicChar c = true) : isPlainChar c = true := by
  have hall : ∀ b : BitVec 8, isMnemonicChar ⟨b⟩ = true → isPlainChar ⟨b⟩ = true := by decide
  exact hall c.toBitVec h

namespace HeaderOf

variable {p : Pattern}

/-- The header with these choices. -/
def ofChoices {choices : List (Option Choice)} (h : List.Forall₂ Chooses p.keywords choices)
    (hne : chosenKeys choices ≠ []) (colon : Bool) : HeaderOf p where
  colon := colon
  key := (chosenKeys choices).head hne
  keys := (chosenKeys choices).tail
  spells := by
    rw [List.cons_head_tail]
    exact spells_keys h

end HeaderOf

namespace Pattern

variable {p : Pattern}

theorem matchKeywords_choices (hsep : Separate p.nodes) {choices : List (Option Choice)}
    (hchoices : List.Forall₂ Chooses p.keywords choices) {k : Text} {ks : List Text}
    (hkeys : chosenKeys choices = k :: ks)
    (hplain : ∀ k ∈ chosenKeys choices, k.all isPlainChar = true) {path : Text}
    (hpath : path = [58].intercalate (k :: ks) ∨
      path = 58 :: [58].intercalate (k :: ks) ∧ k.head? ≠ some 42)
    (numbers : Numbers) :
    matchKeywords p.body path numbers =
      some (true, (written numbers.defaultValue p.keywords choices).foldl Numbers.write numbers) := by
  have hspells : Spells p.nodes (k :: ks) := hkeys ▸ spells_keys hchoices
  unfold matchKeywords
  rw [p.skipPatternStart_body, p.skipCmdStart_path hspells hpath, ← hkeys]
  exact matchLoop_choices hsep hchoices (by rw [hkeys]; exact List.cons_ne_nil k ks) hplain
    (Nat.lt_succ_self _)

end Pattern

/-- **The numbers of a header are read back**: it is looked up as its command, wherever that stands
in the list, and `SCPI_CommandNumbers` stores what was written behind its keywords, as far as there
is room, and leaves the rest of the array alone. -/
theorem command_numbers_read {κ : Type} {cmds : List (Pattern × κ)} (h : Unambiguous cmds) {p : Pattern}
    {cmd : κ} (hcmd : (p, cmd) ∈ cmds) (hp : ∀ n ∈ p.keywords, IsMnemonic n.keyword)
    {choices : List (Option Choice)} (hchoices : List.Forall₂ Chooses p.keywords choices)
    (hne : chosenKeys choices ≠ []) (colon : Bool) (numbers : List (BitVec 32))
    (defaultValue : BitVec 32) :
    let header := (HeaderOf.ofChoices hchoices hne colon).header.text
    let nums := written defaultValue p.keywords choices
    findCommandHeader (cmdlist cmds) header = some cmd ∧
      scpiCommandNumbers p.text header numbers defaultValue =
        some (true, some (nums.take numbers.length ++ numbers.drop nums.length)) := by
  intro header nums
  refine ⟨(HeaderOf.ofChoices hchoices hne colon).found h hcmd hp, ?_⟩
  have hmnemonic := (HeaderOf.ofChoices hchoices hne colon).mnemonic hp
  obtain ⟨k, ks, hkeys⟩ := List.exists_cons_of_ne_nil hne
  have hall : (HeaderOf.ofChoices hchoices hne colon).key ::
      (HeaderOf.ofChoices hchoices hne colon).keys = k :: ks := (List.cons_head_tail hne).trans hkeys
  rw [hall] at hmnemonic
  have hplain : ∀ k ∈ chosenKeys choices, k.all isPlainChar = true := fun k hk =>
    List.all_eq_true.mpr fun c hc => isPlainChar_mnemonic ((hmnemonic k (hkeys ▸ hk)).chars c hc)
  have htext : header = ((if colon then [58] else []) ++ [58].intercalate (k :: ks)) ++
      if p.query then [63] else [] := by
    show (Header.compound colon ((HeaderOf.ofChoices hchoices hne colon).key ::
      (HeaderOf.ofChoices hchoices hne colon).keys) p.query).text = _
    rw [hall, Header.text_compound, Header.mark, List.append_assoc]
  have hzero : 0 ∉ (if colon then [58] else []) ++ [58].intercalate (k :: ks) := by
    have hfree : 0 ∉ [58].intercalate (k :: ks) :=
      intercalate_free (by decide) fun k hk hz => absurd ((hmnemonic k hk).chars 0 hz) (by decide)
    cases colon <;> simp [hfree]
  have hpath : (if colon then [58] else []) ++ [58].intercalate (k :: ks) =
        [58].intercalate (k :: ks) ∨
      (if colon then [58] else []) ++ [58].intercalate (k :: ks) =
        58 :: [58].intercalate (k :: ks) ∧ k.head? ≠ some 42 := by
    cases colon with
    | true => exact .inr ⟨rfl, (mnemonic_head (hmnemonic k (List.mem_cons_self ..))).1⟩
    | false => exact .inl rfl
  have hread := p.matchKeywords_choices (Pattern.separate_nodes (h.separate _ hcmd)) hchoices hkeys
    hplain hpath ⟨some numbers, 0, defaultValue⟩
  have harray := foldl_write nums [] numbers defaultValue
  unfold scpiCommandNumbers
  rw [htext, p.matchCommand_text hzero, hread, Option.map_some]
  exact congrArg (fun values => some (true, values)) harray

/-- `OUTPut#[:CHANnel#]:LEVel#`, by `outp2:lev`: 2, and the default for the other two. -/
theorem command_numbers_read_output :
    let output : PatternNode :=
      ⟨[79, 85, 84, 80, 117, 116], true, false, List.all_eq_true.mp rfl, rfl⟩
    let channel : PatternNode :=
      ⟨[67, 72, 65, 78, 110, 101, 108], true, true, List.all_eq_true.mp rfl, rfl⟩
    let level : PatternNode := ⟨[76, 69, 86, 101, 108], true, false, List.all_eq_true.mp rfl, rfl⟩
    let p : Pattern := ⟨output, [channel, level], false⟩
    findCommandHeader (cmdlist [(p, 5)]) [111, 117, 116, 112, 50, 58, 108, 101, 118] = some 5 ∧
      scpiCommandNumbers p.text [111, 117, 116, 112, 50, 58, 108, 101, 118] [9, 9, 9, 9] 7 =
        some (true, some [2, 7, 7, 9]) := by
  intro output channel level p
  have hchoices : List.Forall₂ Chooses p.keywords
      [some ⟨[111, 117, 116, 112], [50]⟩, none, some ⟨[108, 101, 118], []⟩] :=
    .cons (.take (f := [79, 85, 84, 80]) (.tail _ (.head _)) rfl rfl nofun)
      (.cons (.skip rfl) (.cons (.take (f := [76, 69, 86]) (.tail _ (.head _)) rfl rfl nofun) .nil))
  have hp : ∀ n ∈ p.keywords, IsMnemonic n.keyword := by
    intro n hn
    simp only [Pattern.keywords, p, List.mem_cons, List.not_mem_nil, or_false] at hn
    rcases hn with rfl | rfl | rfl <;> exact ⟨⟨_, _, rfl, rfl⟩, List.all_eq_true.mp rfl⟩
  have h : Unambiguous [(p, 5)] := ⟨by simp; rfl, List.pairwise_singleton _ _⟩
  exact command_numbers_read h (.head _) hp hchoices (List.cons_ne_nil _ _) false [9, 9, 9, 9] 7

end XHeepFemu.Scpi
