import XHeepFemu.Scpi.Input

/-!
# Headers

A program header is a path of mnemonics, or a star and one mnemonic, and ends in
a question mark if it is a query. The lexer reads a header back from its text,
and `commandPath` is what resolves a relative one in the path of the header before
it.
-/

namespace XHeepFemu.Scpi

/-- A letter, and letters, digits and underscores. -/
structure IsMnemonic (k : Text) : Prop where
  head : ∃ c s, k = c :: s ∧ isalpha c = true
  chars : ∀ c ∈ k, isMnemonicChar c = true

inductive Header where
  /-- `colon` is the one that stands before the path. -/
  | compound (colon : Bool) (path : List Text) (query : Bool)
  | common (key : Text) (query : Bool)
  deriving DecidableEq, Repr

namespace Header

def mark (query : Bool) : Text := if query then [63] else []

def text : Header → Text
  | compound colon path query => (if colon then [58] else []) ++ ([58].intercalate path ++ mark query)
  | common key query => 42 :: (key ++ mark query)

theorem text_compound (colon : Bool) (path : List Text) (query : Bool) :
    (compound colon path query).text =
      (if colon then [58] else []) ++ ([58].intercalate path ++ mark query) := rfl

def type : Header → TokenType
  | compound _ _ query => if query then .compoundQueryProgramHeader else .compoundProgramHeader
  | common _ query => if query then .commonQueryProgramHeader else .commonProgramHeader

inductive WellFormed : Header → Prop where
  | compound {colon : Bool} {path : List Text} {query : Bool} :
      path ≠ [] → (∀ k ∈ path, IsMnemonic k) → WellFormed (.compound colon path query)
  | common {key : Text} {query : Bool} : IsMnemonic key → WellFormed (.common key query)

end Header

/-! ## Lexing -/

/-- No character of which `p` holds comes first. -/
def Stops (p : Byte → Bool) (rest : Text) : Prop := ∀ c ∈ rest.head?, p c = false

theorem Stops.cons {p : Byte → Bool} {c : Byte} (h : p c = false) (rest : Text) :
    Stops p (c :: rest) := fun d hd => by
  rw [← Option.some.inj hd]
  exact h

theorem Stops.mono {p q : Byte → Bool} {rest : Text} (h : Stops q rest)
    (hpq : ∀ c, p c = true → q c = true) : Stops p rest := fun c hc => by
  by_contra hp
  have hq := h c hc
  rw [hpq c (by simpa using hp)] at hq
  cases hq

theorem dropWhile_append_stops {p : Byte → Bool} {s rest : Text} (hs : ∀ c ∈ s, p c = true)
    (hrest : Stops p rest) : (s ++ rest).dropWhile p = rest := by
  rw [List.dropWhile_append_of_pos hs]
  cases rest with
  | nil => rfl
  | cons c t => exact List.dropWhile_cons_of_neg (by rw [hrest c rfl]; decide)

theorem skipOne_stops {p : Byte → Bool} {s : Text} (h : Stops p s) : skipOne p s = (s, false) := by
  cases s with
  | nil => rfl
  | cons c s => exact if_neg (by rw [h c rfl]; decide)

/-- A mnemonic at the end of the text has a negative length. -/
theorem skipMnemonic {k rest : Text} (hk : IsMnemonic k) (hrest : Stops isMnemonicChar rest) :
    skipProgramMnemonic (k ++ rest) =
      (rest, if rest.isEmpty then -(k.length : Int) else (k.length : Int)) := by
  obtain ⟨⟨c, s, rfl, halpha⟩, hchars⟩ := hk
  have hskip : skipMnemonicText (c :: s ++ rest) = rest := by
    rw [List.cons_append, skipMnemonicText, if_pos halpha]
    exact dropWhile_append_stops (fun x hx => hchars x (.tail _ hx)) hrest
  have hlen : ((c :: s ++ rest).length : Int) - rest.length = (c :: s).length := by
    rw [List.length_append]
    omega
  unfold skipProgramMnemonic
  simp only [hskip, hlen]
  split <;> rfl

/-- What may stand behind a header. -/
def HeaderEnd (rest : Text) : Prop := Stops (fun c => isMnemonicChar c || c == 58 || c == 63) rest

theorem HeaderEnd.stops {rest : Text} (h : HeaderEnd rest) : Stops isMnemonicChar rest :=
  h.mono fun c hc => by simp [hc]

theorem stops_mark {rest : Text} (h : HeaderEnd rest) (query : Bool) :
    Stops (fun c => isMnemonicChar c || c == 58) (Header.mark query ++ rest) := by
  cases query with
  | true => exact .cons rfl rest
  | false => exact h.mono fun c hc => by simp only [hc, Bool.true_or]

theorem intercalate_chars {p : Byte → Prop} {sep : Byte} (hsep : p sep) {ks : List Text}
    (h : ∀ k ∈ ks, ∀ c ∈ k, p c) : ∀ c ∈ [sep].intercalate ks, p c := by
  induction ks with
  | nil => exact fun c hc => absurd hc List.not_mem_nil
  | cons k ks ih =>
    rw [List.forall_mem_cons] at h
    rcases eq_or_ne ks [] with rfl | hks
    · rw [List.intercalate_singleton]
      exact h.1
    · rw [List.intercalate_cons_of_ne_nil hks]
      intro c hc
      rcases List.mem_append.mp hc with hc | hc
      · rcases List.mem_append.mp hc with hc | hc
        · exact h.1 c hc
        · rw [List.mem_singleton.mp hc]
          exact hsep
      · exact ih h.2 c hc

theorem intercalate_free {c sep : Byte} (hc : c ≠ sep) {ks : List Text} (h : ∀ k ∈ ks, c ∉ k) :
    c ∉ [sep].intercalate ks := fun hmem =>
  intercalate_chars (p := (· ≠ c)) hc.symm (fun k hk _ hd heq => h k hk (heq ▸ hd)) c hmem rfl

theorem intercalate_colon (k : Text) (ks : List Text) :
    [58].intercalate (k :: ks) = k ++ ks.flatMap (58 :: ·) := by
  induction ks generalizing k with
  | nil => simp
  | cons k' ks ih => rw [List.intercalate_cons_cons, ih, List.flatMap_cons]; simp

/-- What may stand behind a path. -/
def PathEnd (rest : Text) : Prop := Stops (fun c => isMnemonicChar c || c == 58) rest

theorem PathEnd.stops {rest : Text} (h : PathEnd rest) : Stops isMnemonicChar rest :=
  h.mono fun c hc => by simp [hc]

theorem stops_colons {ks : List Text} {rest : Text} (h : PathEnd rest) :
    Stops isMnemonicChar (ks.flatMap (58 :: ·) ++ rest) := by
  cases ks with
  | nil => exact h.stops
  | cons k ks =>
    intro c hc
    rw [List.flatMap_cons, List.cons_append, List.cons_append] at hc
    rw [← Option.some.inj hc]
    decide

theorem skipCompoundTail_path {ks : List Text} {rest : Text} {fuel : Nat}
    (hks : ∀ k ∈ ks, IsMnemonic k) (hrest : PathEnd rest) (hfuel : ks.length ≤ fuel) :
    skipCompoundTail fuel (ks.flatMap (58 :: ·) ++ rest) = (rest, 1) := by
  induction ks generalizing fuel with
  | nil =>
    have hskip : skipColon rest = (rest, false) := skipOne_stops (hrest.mono fun c hc => by
      rw [hc, Bool.or_true])
    rw [List.flatMap_nil, List.nil_append]
    cases fuel with
    | zero => rfl
    | succ fuel => rw [skipCompoundTail, hskip]
  | cons k ks ih =>
    rw [List.length_cons] at hfuel
    obtain ⟨fuel, rfl⟩ : ∃ n, fuel = n + 1 := ⟨fuel - 1, by omega⟩
    have hk := hks k (List.mem_cons_self ..)
    have hskip : skipColon (58 :: (k ++ (ks.flatMap (58 :: ·) ++ rest))) =
        (k ++ (ks.flatMap (58 :: ·) ++ rest), true) := rfl
    have hpos : 0 < k.length := by
      obtain ⟨c, s, rfl, -⟩ := hk.head
      exact Nat.succ_pos _
    have htail := ih (fun k' hk' => hks k' (.tail _ hk')) (Nat.le_of_succ_le_succ hfuel)
    rw [List.flatMap_cons, List.cons_append, List.cons_append, List.append_assoc, skipCompoundTail,
      hskip]
    simp only [skipMnemonic hk (stops_colons hrest)]
    split
    · -- the mnemonic is the end of the text
      rename_i hempty
      have hnil := List.isEmpty_iff.mp hempty
      rw [if_pos (by omega), hnil, (List.append_eq_nil_iff.mp hnil).2]
    · rw [if_neg (by omega), if_neg (by omega)]
      exact htail

/-- A question mark is read as the last character of a header. -/
theorem queryOr_mark {rest : Text} (h : HeaderEnd rest) (query : Bool) (q c : TokenType) :
    queryOr (Header.mark query ++ rest) q c = (rest, if query then q else c) := by
  cases query with
  | true => rfl
  | false =>
    have hskip : skipChr 63 rest = (rest, false) := skipOne_stops (h.mono fun c hc => by
      rw [hc, Bool.or_true])
    unfold queryOr Header.mark
    simp only [Bool.false_eq_true, if_false, List.nil_append, hskip]

theorem mnemonic_head {k : Text} (hk : IsMnemonic k) :
    k.head? ≠ some 42 ∧ k.head? ≠ some 58 ∧ 1 ≤ k.length := by
  obtain ⟨⟨c, s, rfl, hc⟩, -⟩ := hk
  refine ⟨?_, ?_, Nat.succ_pos _⟩ <;>
    · rintro h
      rw [Option.some.inj h] at hc
      revert hc
      decide

theorem skipCommon_text {key rest : Text} (hkey : IsMnemonic key) (hrest : PathEnd rest) :
    skipCommonProgramHeader (42 :: (key ++ rest)) = (rest, 1) := by
  have hskip : skipStar (42 :: (key ++ rest)) = (key ++ rest, true) := rfl
  have hlen := (mnemonic_head hkey).2.2
  unfold skipCommonProgramHeader
  simp only [hskip, skipMnemonic hkey hrest.stops]
  split
  · rw [if_neg (by omega), if_pos (by omega)]
  · rw [if_neg (by omega), if_neg (by omega), if_pos (by omega)]

theorem length_le_colons (ks : List Text) : ks.length ≤ (ks.flatMap (58 :: ·)).length := by
  induction ks with
  | nil => exact Nat.le_refl 0
  | cons k' ks ih =>
    rw [List.flatMap_cons, List.length_append, List.length_cons, List.length_cons]
    omega

theorem skipCompound_text {colon : Bool} {path : List Text} {rest : Text} (hpath : path ≠ [])
    (hkeys : ∀ k ∈ path, IsMnemonic k) (hrest : PathEnd rest) :
    skipCompoundProgramHeader ((if colon then [58] else []) ++ ([58].intercalate path ++ rest)) =
      (rest, 1) := by
  obtain ⟨k, ks, rfl⟩ := List.exists_cons_of_ne_nil hpath
  have hk := hkeys k (List.mem_cons_self ..)
  obtain ⟨-, hhead, hlen⟩ := mnemonic_head hk
  have hskip : skipColon ((if colon then [58] else []) ++ (k ++ (ks.flatMap (58 :: ·) ++ rest))) =
      (k ++ (ks.flatMap (58 :: ·) ++ rest), colon) := by
    cases colon with
    | true => rfl
    | false =>
      obtain ⟨c, s, rfl, -⟩ := hk.head
      exact if_neg fun hc => hhead (congrArg some (beq_iff_eq.mp hc))
  have hfuel := length_le_colons ks
  rw [intercalate_colon, List.append_assoc]
  unfold skipCompoundProgramHeader
  simp only [hskip, skipMnemonic hk (stops_colons hrest)]
  split
  · rename_i hempty
    have hnil := List.isEmpty_iff.mp hempty
    rw [if_neg (by omega), if_pos (by omega), hnil, (List.append_eq_nil_iff.mp hnil).2]
  · rw [if_pos (by omega)]
    refine skipCompoundTail_path (fun k' hk' => hkeys k' (.tail _ hk')) hrest ?_
    rw [List.length_append]
    omega

/-- **The lexer reads a header back from its text.** -/
theorem lexProgramHeader_text {h : Header} (hwf : h.WellFormed) {rest : Text}
    (hrest : HeaderEnd rest) :
    scpiLexProgramHeader (h.text ++ rest) =
      ⟨rest, ⟨h.type, h.text ++ rest, h.text.length⟩, h.text.length⟩ := by
  have htype : programHeaderType (h.text ++ rest) = (rest, h.type) := by
    cases hwf with
    | @compound colon path query hpath hkeys =>
      have htext : (Header.compound colon path query).text ++ rest =
          (if colon then [58] else []) ++ ([58].intercalate path ++ (Header.mark query ++ rest)) := by
        simp [Header.text]
      have hcommon : skipCommonProgramHeader ((Header.compound colon path query).text ++ rest) =
          ((Header.compound colon path query).text ++ rest, 0) := by
        have hstar : ((Header.compound colon path query).text ++ rest).head? ≠ some 42 := by
          obtain ⟨k, ks, rfl⟩ := List.exists_cons_of_ne_nil hpath
          obtain ⟨c, t, rfl, hc⟩ := (hkeys k (List.mem_cons_self ..)).head
          have hne : c ≠ 42 := by
            rintro rfl
            revert hc
            decide
          rw [htext, intercalate_colon]
          cases colon <;> simp [hne]
        have hskip : skipStar ((Header.compound colon path query).text ++ rest) =
            ((Header.compound colon path query).text ++ rest, false) := skipOne_stops fun c hc => by
          simp only [beq_eq_false_iff_ne]
          rintro rfl
          exact hstar hc
        unfold skipCommonProgramHeader
        rw [hskip]
      unfold programHeaderType
      simp only [hcommon]
      rw [if_neg (by decide), if_neg (by decide), htext,
        skipCompound_text hpath hkeys (stops_mark hrest query)]
      simp only
      rw [if_pos (by decide), queryOr_mark hrest]
      rfl
    | @common key query hkey =>
      have hcommon : skipCommonProgramHeader ((Header.common key query).text ++ rest) =
          (Header.mark query ++ rest, 1) := by
        have htext : (Header.common key query).text ++ rest =
            42 :: (key ++ (Header.mark query ++ rest)) := by simp [Header.text]
        rw [htext, skipCommon_text hkey (stops_mark hrest query)]
      unfold programHeaderType
      simp only [hcommon]
      rw [if_pos (by decide), queryOr_mark hrest]
      rfl
  unfold scpiLexProgramHeader
  simp only [htype, List.length_append]
  have hknown : h.type ≠ .unknown := by
    cases h with
    | compound colon path query => cases query <;> exact nofun
    | common key query => cases query <;> exact nofun
  rw [if_pos hknown]
  congr 2 <;> omega

/-! ## Compound commands -/

/-- A relative header is one in the path of the header before it. -/
def Header.resolve : Option Header → Header → Header
  | some (compound colon path _), compound false path' query =>
    compound colon (path.dropLast ++ path') query
  | _, h => h

theorem Header.WellFormed.resolve {prev : Option Header} {h : Header}
    (hprev : ∀ p ∈ prev, p.WellFormed) (hh : h.WellFormed) : (h.resolve prev).WellFormed := by
  unfold Header.resolve
  split
  · rename_i colon path query' path' query
    cases hh with
    | compound hne' hkeys' =>
      cases hprev _ rfl with
      | compound hne hkeys =>
        refine .compound (by simp [hne']) fun k hk => ?_
        rcases List.mem_append.mp hk with hk | hk
        · exact hkeys k ((List.dropLast_sublist path).mem hk)
        · exact hkeys' k hk
  · exact hh

theorem intercalate_append (ks : List Text) {ks' : List Text} (hks' : ks' ≠ []) :
    [58].intercalate (ks ++ ks') =
      (if ks = [] then [] else [58].intercalate ks ++ [58]) ++ [58].intercalate ks' := by
  induction ks with
  | nil => rfl
  | cons k ks ih =>
    rw [if_neg nofun, List.cons_append, List.intercalate_cons_of_ne_nil (by simp [hks']), ih]
    split
    · rename_i hks
      rw [hks, List.intercalate_singleton]
      simp
    · rename_i hks
      rw [List.intercalate_cons_of_ne_nil hks]
      simp

theorem upToColon_append {s t : Text} (hs : s = [] ∨ s.getLast? = some 58) (ht : 58 ∉ t) :
    ((s ++ t).reverse.dropWhile (· != 58)).reverse = s := by
  rw [List.reverse_append, List.dropWhile_append_of_pos]
  · rcases hs with rfl | hs
    · rfl
    · obtain ⟨init, rfl⟩ := List.getLast?_eq_some_iff.mp hs
      simp
  · intro c hc
    rw [List.mem_reverse] at hc
    simp only [bne_iff_ne]
    rintro rfl
    exact ht hc

theorem IsMnemonic.no_colon {k : Text} (hk : IsMnemonic k) : 58 ∉ k := fun h =>
  absurd (hk.chars 58 h) (by decide)

/-- The text of a header starts with a star, a colon, or its first mnemonic. -/
theorem head_text {h : Header} (hh : h.WellFormed) : h.text ≠ [] ∧
    (h.text.head? = some 42 ↔ ∃ key query, h = .common key query) ∧
    (h.text.head? = some 58 → ∃ path query, h = .compound true path query) := by
  cases hh with
  | @common key query hkey => exact ⟨nofun, ⟨fun _ => ⟨key, query, rfl⟩, fun _ => rfl⟩, nofun⟩
  | @compound colon path query hne hkeys =>
    cases colon with
    | true => exact ⟨nofun, ⟨nofun, nofun⟩, fun _ => ⟨path, query, rfl⟩⟩
    | false =>
      obtain ⟨k, ks, rfl⟩ := List.exists_cons_of_ne_nil hne
      have hk := hkeys k (List.mem_cons_self ..)
      obtain ⟨h42, h58, -⟩ := mnemonic_head hk
      obtain ⟨c, t, rfl, -⟩ := hk.head
      have htext : ∃ u, (Header.compound false ((c :: t) :: ks) query).text = c :: u := by
        rw [Header.text_compound, intercalate_colon]
        exact ⟨_, rfl⟩
      obtain ⟨u, hu⟩ := htext
      rw [hu]
      refine ⟨nofun, ⟨fun h => absurd h h42, ?_⟩, fun h => absurd h h58⟩
      rintro ⟨key, query', h⟩
      cases h

theorem upToColon_text {colon : Bool} {path : List Text} {query : Bool} (hne : path ≠ [])
    (hkeys : ∀ k ∈ path, IsMnemonic k) :
    ((Header.compound colon path query).text.reverse.dropWhile (· != 58)).reverse =
      (if colon then [58] else []) ++
        if path.dropLast = [] then [] else [58].intercalate path.dropLast ++ [58] := by
  obtain ⟨init, k, rfl⟩ : ∃ init k, path = init ++ [k] :=
    ⟨path.dropLast, path.getLast hne, (List.dropLast_concat_getLast hne).symm⟩
  have hk : 58 ∉ k ++ Header.mark query := by
    have := (hkeys k (by simp)).no_colon
    cases query <;> simp [Header.mark, this]
  have htext : (Header.compound colon (init ++ [k]) query).text =
      ((if colon then [58] else []) ++
        if init = [] then [] else [58].intercalate init ++ [58]) ++ (k ++ Header.mark query) := by
    rw [Header.text_compound, intercalate_append init (List.cons_ne_nil k []),
      List.intercalate_singleton]
    simp only [List.append_assoc]
  rw [htext, upToColon_append _ hk, List.dropLast_concat]
  by_cases hinit : init = []
  · cases colon <;> simp [hinit]
  · right
    rw [if_neg hinit, ← List.append_assoc]
    exact List.getLast?_concat

/-- Without a path to look for, none is found. -/
theorem commandPath_root {prev current : Text} (hcase : prev = [] ∨ prev.head? = some 42 ∨
    current.head? = some 42 ∨ current.head? = some 58) : commandPath prev current = [] := by
  unfold commandPath
  split
  · rfl
  · split
    · rfl
    · rename_i hempty hrel
      rw [if_pos]
      rcases hcase with h | h | h | h
      · exact absurd (.inr (by rw [h]; rfl)) hempty
      · exact h
      · exact absurd (.inl h) hrel
      · exact absurd (.inr h) hrel

/-- A header without a colon or a star in front. -/
def Header.relative : Header → Bool
  | compound false _ _ => true
  | _ => false

theorem Header.resolve_root {prev : Option Header} {h : Header} (hroot : h.relative = false) :
    h.resolve prev = h := by
  unfold resolve
  split
  · cases hroot
  · rfl

theorem commandPath_relative {h : Header} (hroot : h.relative = false) (prev : Text) :
    commandPath prev h.text = [] := by
  cases h with
  | common key query => exact commandPath_root (.inr (.inr (.inl rfl)))
  | compound colon path query =>
    cases colon with
    | true => exact commandPath_root (.inr (.inr (.inr rfl)))
    | false => cases hroot

theorem length_commandPath_le (prev current : Text) :
    (commandPath prev current).length ≤ prev.length := by
  have hle : (prev.reverse.dropWhile (· != 58)).reverse.length ≤ prev.length := by
    rw [List.length_reverse]
    exact (List.dropWhile_suffix _).length_le.trans_eq List.length_reverse
  unfold commandPath
  split
  · exact Nat.zero_le _
  · split
    · exact Nat.zero_le _
    · split
      · exact Nat.zero_le _
      · exact hle

theorem commandPath_text {prev : Option Header} {h : Header} (hprev : ∀ p ∈ prev, p.WellFormed)
    (hh : h.WellFormed) :
    commandPath ((prev.map Header.text).getD []) h.text ++ h.text = (h.resolve prev).text := by
  have hroot : ∀ prev : Text, prev = [] ∨ prev.head? = some 42 ∨ h.text.head? = some 42 ∨
      h.text.head? = some 58 → commandPath prev h.text ++ h.text = h.text := by
    intro prev hcase
    rw [commandPath_root hcase, List.nil_append]
  have htext := head_text hh
  match prev, h with
  | none, h => exact hroot [] (.inl rfl)
  | some (.common key query), h =>
    rw [show h.resolve (some (.common key query)) = h from rfl]
    exact hroot _ (.inr (.inl rfl))
  | some (.compound colon path query), .common key query' =>
    exact hroot _ (.inr (.inr (.inl rfl)))
  | some (.compound colon path query), .compound true path' query' =>
    exact hroot _ (.inr (.inr (.inr rfl)))
  | some (.compound colon path query), .compound false path' query' =>
    cases hprev _ rfl with
    | compound hne hkeys =>
      have hprevok : (Header.compound colon path query).WellFormed := .compound hne hkeys
      have hprevtext := head_text hprevok
      have hne' : path' ≠ [] := by
        cases hh with
        | compound hne' _ => exact hne'
      have hrel : ¬((Header.compound false path' query').text.head? = some 42 ∨
          (Header.compound false path' query').text.head? = some 58) := by
        rintro (h | h)
        · obtain ⟨_, _, h⟩ := htext.2.1.mp h
          cases h
        · obtain ⟨_, _, h⟩ := htext.2.2 h
          cases h
      have hstar : (Header.compound colon path query).text.head? ≠ some 42 := fun h => by
        obtain ⟨_, _, h⟩ := hprevtext.2.1.mp h
        cases h
      show commandPath (Header.compound colon path query).text _ ++ _ = _
      unfold commandPath
      rw [if_neg (by simp [htext.1, hprevtext.1]), if_neg hrel, if_neg hstar,
        upToColon_text hne hkeys]
      show _ = (Header.compound colon (path.dropLast ++ path') query').text
      rw [Header.text_compound, Header.text_compound, intercalate_append _ hne']
      simp only [List.append_assoc, Bool.false_eq_true, if_false, List.nil_append]

end XHeepFemu.Scpi
