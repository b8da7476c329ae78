import XHeepFemu.Scpi.Block

/-!
# What the tokenizers leave

Every tokenizer leaves a suffix of its text. None but those of the newline and
of the arbitrary block takes a newline at the end of the text with it: `Keeps s r`.
A block does exactly when it announces all that is left, `OpenBlock`.
-/

namespace XHeepFemu.Scpi

/-- `r` is left of `s`, and still ends in the newline that `s` ends in. -/
structure Keeps (s r : Text) : Prop where
  suffix : r <:+ s
  newline : s.getLast? = some 10 → r.getLast? = some 10

variable {s r t : Text}

theorem Keeps.refl (s : Text) : Keeps s s := ⟨List.suffix_refl s, id⟩

theorem Keeps.trans (h : Keeps s r) (h' : Keeps r t) : Keeps s t :=
  ⟨h'.suffix.trans h.suffix, fun hs => h'.newline (h.newline hs)⟩

/-- A suffix that is not empty ends as the text does. -/
theorem keeps_of_suffix (h : r <:+ s) (hr : r ≠ []) : Keeps s r := by
  refine ⟨h, fun hs => ?_⟩
  obtain ⟨pre, rfl⟩ := h
  rw [List.getLast?_append] at hs
  cases hlast : r.getLast? with
  | none => exact absurd (List.getLast?_eq_none_iff.mp hlast) hr
  | some c => rwa [hlast] at hs

theorem keeps_append (pre : Text) (h : pre.getLast? ≠ some 10) : Keeps (pre ++ r) r := by
  rcases eq_or_ne r [] with rfl | hr
  · refine ⟨List.nil_suffix, fun hs => ?_⟩
    rw [List.append_nil] at hs
    exact absurd hs h
  · exact keeps_of_suffix (List.suffix_append pre r) hr

theorem keeps_cons {c : Byte} (h : c ≠ 10) : Keeps (c :: s) s :=
  keeps_append [c] (by simpa using h)

/-! ## Skipping -/

variable {p : Byte → Bool}

theorem keeps_skipOne (hp : p 10 = false) (s : Text) : Keeps s (skipOne p s).1 := by
  cases s with
  | nil => exact .refl []
  | cons c s =>
    simp only [skipOne]
    split
    · rename_i hc
      refine keeps_cons ?_
      rintro rfl
      rw [hp] at hc
      cases hc
    · exact .refl _

theorem keeps_dropWhile (hp : p 10 = false) (s : Text) : Keeps s (s.dropWhile p) := by
  have h : (s.takeWhile p).getLast? ≠ some 10 := by
    intro hlast
    have := List.all_eq_true.mp List.all_takeWhile 10 (List.mem_of_getLast? hlast)
    rw [hp] at this
    cases this
  have := keeps_append (r := s.dropWhile p) _ h
  rwa [List.takeWhile_append_dropWhile] at this

theorem keeps_skipMany (hp : p 10 = false) (s : Text) : Keeps s (skipMany p s).1 :=
  keeps_dropWhile hp s

theorem keeps_skipChr {chr : Byte} (h : chr ≠ 10) (s : Text) : Keeps s (skipChr chr s).1 :=
  keeps_skipOne (by simpa using Ne.symm h) s

theorem keeps_skipMnemonicText (s : Text) : Keeps s (skipMnemonicText s) := by
  cases s with
  | nil => exact .refl []
  | cons c s =>
    simp only [skipMnemonicText]
    split
    · rename_i hc
      refine (keeps_cons ?_).trans (keeps_dropWhile rfl s)
      rintro rfl
      cases hc
    · exact .refl _

theorem keeps_skipProgramMnemonic (s : Text) : Keeps s (skipProgramMnemonic s).1 := by
  have h := keeps_skipMnemonicText s
  unfold skipProgramMnemonic
  simp only
  split <;> exact h

/-! ## Headers -/

theorem keeps_skipCommonProgramHeader (s : Text) : Keeps s (skipCommonProgramHeader s).1 := by
  have hstar : Keeps s (skipStar s).1 := keeps_skipChr (by decide) s
  unfold skipCommonProgramHeader
  generalize skipStar s = p at hstar ⊢
  obtain ⟨s₁, _ | _⟩ := p
  · exact hstar
  · have hmnemonic := hstar.trans (keeps_skipProgramMnemonic s₁)
    simp only
    split
    · exact hmnemonic
    · split
      · exact hmnemonic
      · split <;> exact hmnemonic

theorem keeps_skipCompoundTail (n : Nat) (s : Text) : Keeps s (skipCompoundTail n s).1 := by
  induction n generalizing s with
  | zero => exact .refl s
  | succ n ih =>
    have hcolon : Keeps s (skipColon s).1 := keeps_skipChr (by decide) s
    unfold skipCompoundTail
    generalize skipColon s = p at hcolon ⊢
    obtain ⟨s₁, _ | _⟩ := p
    · exact hcolon
    · have hmnemonic := hcolon.trans (keeps_skipProgramMnemonic s₁)
      simp only
      split
      · exact hmnemonic
      · split
        · exact hmnemonic
        · exact hmnemonic.trans (ih _)

theorem keeps_skipCompoundProgramHeader (s : Text) :
    Keeps s (skipCompoundProgramHeader s).1 := by
  have hcolon : Keeps s (skipColon s).1 := keeps_skipChr (by decide) s
  have hmnemonic := hcolon.trans (keeps_skipProgramMnemonic (skipColon s).1)
  unfold skipCompoundProgramHeader
  simp only
  split
  · exact hmnemonic.trans (keeps_skipCompoundTail _ _)
  · split
    · exact hmnemonic
    · split <;> exact hmnemonic

theorem keeps_queryOr (s : Text) (query command : TokenType) :
    Keeps s (queryOr s query command).1 := by
  have h : Keeps s (skipChr 63 s).1 := keeps_skipChr (by decide) s
  unfold queryOr
  generalize skipChr 63 s = p at h ⊢
  obtain ⟨s₁, _ | _⟩ := p <;> exact h

theorem keeps_programHeaderType (s : Text) : Keeps s (programHeaderType s).1 := by
  have hcommon := keeps_skipCommonProgramHeader s
  have hcompound := hcommon.trans (keeps_skipCompoundProgramHeader _)
  unfold programHeaderType
  simp only
  split
  · exact hcommon.trans (keeps_queryOr _ _ _)
  · split
    · exact hcommon
    · split
      · exact hcompound.trans (keeps_queryOr _ _ _)
      · split <;> exact hcompound

theorem keeps_programHeader (s : Text) : Keeps s (scpiLexProgramHeader s).rest := by
  unfold scpiLexProgramHeader
  simp only
  split
  · exact keeps_programHeaderType s
  · exact .refl s

theorem keeps_whiteSpace (s : Text) : Keeps s (scpiLexWhiteSpace s).rest := keeps_dropWhile rfl s

/-! ## Program data -/

theorem keeps_lexedOf {type : TokenType} {rest : Text} (h : Keeps s rest) :
    Keeps s (lexedOf type s rest).rest := by
  obtain ⟨-, hlex⟩ | hlex := lexedOf_cases type s rest
  · rw [hlex]
    exact h
  · rw [hlex]
    exact .refl s

theorem keeps_character (s : Text) : Keeps s (scpiLexCharacterProgramData s).rest :=
  keeps_lexedOf (keeps_skipMnemonicText s)

theorem keeps_skipMantisa (s : Text) : Keeps s (skipMantisa s).1 := by
  have hsign : Keeps s (skipPlusmn s).1 := keeps_skipOne rfl s
  have hnumbers := hsign.trans (keeps_skipMany (p := isdigit) rfl _)
  have hdot := hnumbers.trans (keeps_skipChr (show (46 : Byte) ≠ 10 by decide) _)
  unfold skipMantisa
  simp only [skipNumbers]
  generalize skipChr 46 (skipMany isdigit (skipPlusmn s).1).1 = p at hdot ⊢
  obtain ⟨s₁, _ | _⟩ := p
  · exact hdot
  · exact hdot.trans (keeps_skipMany rfl s₁)

theorem keeps_skipExponent (s : Text) : Keeps s (skipExponent s).1 := by
  cases s with
  | nil => exact .refl []
  | cons c s =>
    simp only [skipExponent]
    split
    · rename_i hc
      have hcons : Keeps (c :: s) s := by
        refine keeps_cons ?_
        rintro rfl
        cases hc
      have hsign := (hcons.trans (keeps_skipMany (p := isws) rfl s)).trans
        (keeps_skipOne (p := isplusmn) rfl _)
      exact hsign.trans (keeps_skipMany rfl _)
    · exact .refl _

theorem keeps_decimal (s : Text) : Keeps s (scpiLexDecimalNumericProgramData s).rest := by
  have hmantisa := keeps_skipMantisa s
  unfold scpiLexDecimalNumericProgramData
  simp only
  split
  · apply keeps_lexedOf
    split
    · exact hmantisa
    · exact (hmantisa.trans (keeps_skipMany rfl _)).trans (keeps_skipExponent _)
  · exact keeps_lexedOf (.refl s)

theorem keeps_skipSuffixUnit (s : Text) : Keeps s (skipSuffixUnit s) :=
  ((keeps_skipMany rfl s).trans (keeps_skipChr (by decide) _)).trans (keeps_skipOne rfl _)

theorem keeps_skipSuffixTail (n : Nat) (s : Text) : Keeps s (skipSuffixTail n s) := by
  induction n generalizing s with
  | zero => exact .refl s
  | succ n ih =>
    have h : Keeps s (skipSlashDot s).1 := keeps_skipOne rfl s
    unfold skipSuffixTail
    generalize skipSlashDot s = p at h ⊢
    obtain ⟨s₁, _ | _⟩ := p
    · exact h
    · exact (h.trans (keeps_skipSuffixUnit s₁)).trans (ih _)

theorem keeps_suffix (s : Text) : Keeps s (scpiLexSuffixProgramData s).rest := by
  have hslash : Keeps s (skipChr 47 s).1 := keeps_skipChr (by decide) s
  unfold scpiLexSuffixProgramData
  simp only
  apply keeps_lexedOf
  split
  · exact (hslash.trans (keeps_skipSuffixUnit _)).trans (keeps_skipSuffixTail _ _)
  · exact hslash

theorem keeps_decimalWithSuffix (s : Text) : Keeps s (lexDecimalWithSuffix s).rest := by
  have hdecimal := keeps_decimal s
  have hsuffix := (hdecimal.trans (keeps_whiteSpace _)).trans (keeps_suffix _)
  unfold lexDecimalWithSuffix
  simp only
  split
  · split <;> exact hsuffix
  · exact hdecimal

theorem keeps_nondecimal (s : Text) : Keeps s (scpiLexNondecimalNumericData s).rest := by
  have hhash : Keeps s (skipChr 35 s).1 := keeps_skipChr (by decide) s
  unfold scpiLexNondecimalNumericData
  simp only
  generalize skipChr 35 s = p at hhash ⊢
  obtain ⟨_ | ⟨c, s₁⟩, _ | _⟩ := p
  · exact .refl s
  · exact .refl s
  · exact .refl s
  · have hcons : ∀ {q : Byte → Bool}, q c = true → q 10 = false → Keeps s s₁ := by
      intro q hc h10
      refine hhash.trans (keeps_cons ?_)
      rintro rfl
      rw [h10] at hc
      cases hc
    simp only
    split
    · rename_i hc
      split
      · exact (hcons hc rfl).trans (keeps_skipMany rfl _)
      · exact .refl s
    · split
      · rename_i hc
        split
        · exact (hcons hc rfl).trans (keeps_skipMany rfl _)
        · exact .refl s
      · split
        · rename_i hc
          split
          · exact (hcons hc rfl).trans (keeps_skipMany rfl _)
          · exact .refl s
        · exact .refl s

/-! ## Strings and expressions -/

theorem skipQuoteProgramData_suffix (quote : Byte) (s : Text) :
    skipQuoteProgramData quote s <:+ s := by
  fun_induction skipQuoteProgramData quote s with
  | case1 => exact List.nil_suffix
  | case2 c s _ ih => exact ih.trans (List.suffix_cons c s)
  | case3 c _ _ d s _ ih => exact (ih.trans (List.suffix_cons d s)).trans (List.suffix_cons c _)
  | case4 => exact List.suffix_refl _
  | case5 => exact List.suffix_refl _
  | case6 => exact List.suffix_refl _

theorem keeps_closeQuote {quote : Byte} (hquote : quote ≠ 10) {rest : Text}
    (h : closeQuote quote s = some rest) : Keeps s rest := by
  have hsuffix := skipQuoteProgramData_suffix quote s
  unfold closeQuote at h
  split at h
  · rename_i c r hr
    rw [hr] at hsuffix
    split at h
    · rename_i hc
      obtain rfl := Option.some.inj h
      obtain rfl : c = quote := by simpa using hc
      exact (keeps_of_suffix hsuffix (List.cons_ne_nil c r)).trans (keeps_cons hquote)
    · cases h
  · cases h

theorem keeps_string (s : Text) : Keeps s (scpiLexStringProgramData s).rest := by
  have hclose : ∀ {quote : Byte} {s : Text}, quote ≠ 10 →
      Keeps (quote :: s) ((closeQuote quote s).getD (quote :: s)) := by
    intro quote s hquote
    cases h : closeQuote quote s with
    | none => exact .refl _
    | some rest => exact (keeps_cons hquote).trans (keeps_closeQuote hquote h)
  unfold scpiLexStringProgramData
  split
  · exact keeps_lexedOf (.refl _)
  · split
    · rename_i hc
      obtain rfl := beq_iff_eq.mp hc
      exact keeps_lexedOf (hclose (by decide))
    · split
      · rename_i hc
        obtain rfl := beq_iff_eq.mp hc
        exact keeps_lexedOf (hclose (by decide))
      · exact keeps_lexedOf (.refl _)

theorem keeps_expression (s : Text) : Keeps s (scpiLexProgramExpression s).rest := by
  have hopen : Keeps s (skipChr 40 s).1 := keeps_skipChr (by decide) s
  unfold scpiLexProgramExpression
  generalize skipChr 40 s = p at hopen ⊢
  obtain ⟨s₁, _ | _⟩ := p
  · exact keeps_lexedOf (.refl s)
  · have hclose := (hopen.trans (keeps_dropWhile (p := isProgramExpression) rfl s₁)).trans
      (keeps_skipChr (show (41 : Byte) ≠ 10 by decide) _)
    simp only
    generalize skipChr 41 (s₁.dropWhile isProgramExpression) = p at hclose ⊢
    obtain ⟨s₂, _ | _⟩ := p
    · exact keeps_lexedOf (.refl s)
    · exact keeps_lexedOf hclose

theorem keeps_comma (s : Text) : Keeps s (scpiLexComma s).rest :=
  keeps_lexedOf (keeps_skipChr (by decide) s)

theorem keeps_semicolon (s : Text) : Keeps s (scpiLexSemicolon s).rest :=
  keeps_lexedOf (keeps_skipChr (by decide) s)

/-! ## Blocks -/

/-- A block header that announces all that is behind it, or more. -/
def OpenBlock (s : Text) : Prop := ∃ n rest, Announces s n rest ∧ rest.length ≤ n

/-- An open block takes everything. -/
theorem block_open (h : OpenBlock s) : (scpiLexArbitraryBlockProgramData s).rest = [] := by
  obtain ⟨n, rest, hann, hle⟩ := h
  rw [lexBlock_announces hann]
  split
  · exact List.drop_eq_nil_of_le hle
  · rfl

theorem keeps_block (h : ¬OpenBlock s) : Keeps s (scpiLexArbitraryBlockProgramData s).rest := by
  obtain ⟨n, rest, hann⟩ | ⟨-, hrest | ⟨hrest, hlast⟩⟩ := lexBlock_cases s
  · have hn : n < rest.length := by
      by_contra hn
      exact h ⟨n, rest, hann, by omega⟩
    rw [lexBlock_announces hann, if_pos (by omega)]
    obtain ⟨d, ds, rfl, -⟩ := hann
    have hsuffix : rest <:+ 35 :: d :: (ds ++ rest) :=
      (List.suffix_append ds rest).trans
        ((List.suffix_cons d _).trans (List.suffix_cons 35 _))
    refine keeps_of_suffix ((List.drop_suffix n rest).trans hsuffix) ?_
    rw [ne_eq, List.drop_eq_nil_iff]
    omega
  · rw [hrest]
    exact .refl s
  · rw [hrest]
    exact ⟨List.nil_suffix, fun h => absurd h hlast⟩

end XHeepFemu.Scpi
