import XHeepFemu.Scpi.Parser

/-!
# Arbitrary blocks

`Announces s n rest` is the grammar of a block header: `#`, a nonzero digit
`d`, and `d` digits that say how many bytes `n` of `rest` belong to the block.
The tokenizers of a parameter meet a block exactly where this grammar does.
-/

namespace XHeepFemu.Scpi

/-- The value of a string of digits. -/
def number (ds : Text) : Nat := ds.foldl (fun n c => n * 10 + (c.toNat - 48)) 0

/-- A block header that announces `n` bytes, with `rest` behind it. -/
def Announces (s : Text) (n : Nat) (rest : Text) : Prop :=
  ∃ d ds, s = 35 :: d :: (ds ++ rest) ∧ isNonzeroDigit d = true ∧
    ds.length = d.toNat - 48 ∧ (∀ c ∈ ds, isdigit c = true) ∧ number ds = n

theorem lexBlockDigits_append (n : Nat) {ds : Text} (s : Text) (h : ∀ c ∈ ds, isdigit c = true) :
    lexBlockDigits ds.length n (ds ++ s) =
      (0, ds.foldl (fun n c => n * 10 + (c.toNat - 48)) n, s) := by
  induction ds generalizing n with
  | nil => rfl
  | cons c ds ih =>
    have hc : isdigit c = true := h c List.mem_cons_self
    simp only [List.length_cons, List.cons_append, lexBlockDigits, hc, if_true, List.foldl_cons]
    exact ih _ fun d hd => h d (List.mem_cons_of_mem _ hd)

/-- What is read of the digits, and what is missing of them. -/
theorem lexBlockDigits_spec {i n m v : Nat} {s rest : Text}
    (h : lexBlockDigits i n s = (m, v, rest)) :
    ∃ ds, s = ds ++ rest ∧ ds.length + m = i ∧ (∀ c ∈ ds, isdigit c = true) ∧
      ds.foldl (fun n c => n * 10 + (c.toNat - 48)) n = v := by
  induction i generalizing n s with
  | zero =>
    cases h
    exact ⟨[], rfl, rfl, nofun, rfl⟩
  | succ i ih =>
    cases s with
    | nil =>
      cases h
      exact ⟨[], rfl, Nat.zero_add _, nofun, rfl⟩
    | cons c s =>
      unfold lexBlockDigits at h
      split at h
      · rename_i hc
        obtain ⟨ds, rfl, hlen, hds, hv⟩ := ih h
        refine ⟨c :: ds, rfl, by rw [List.length_cons]; omega, ?_, hv⟩
        intro d hd
        rcases List.mem_cons.mp hd with rfl | hd
        · exact hc
        · exact hds d hd
      · cases h
        exact ⟨[], rfl, Nat.zero_add _, nofun, rfl⟩

theorem lexBlock_announces {s rest : Text} {n : Nat} (h : Announces s n rest) :
    scpiLexArbitraryBlockProgramData s =
      if n ≤ rest.length then
        ⟨rest.drop n, ⟨.arbitraryBlockProgramData, rest, n⟩, n + (s.length - rest.length)⟩
      else ⟨[], ⟨.unknown, s, 0⟩, 0⟩ := by
  obtain ⟨d, ds, rfl, hd, hlen, hds, rfl⟩ := h
  have hdigits := lexBlockDigits_append 0 rest hds
  rw [hlen] at hdigits
  simp only [scpiLexArbitraryBlockProgramData, skipChr, skipOne, beq_self_eq_true, if_true, hd,
    hdigits]
  rfl

/-- Without a block header the tokenizer finds nothing. It stays where it is, or takes all of a
text that breaks off in the header. -/
theorem lexBlock_cases (s : Text) : (∃ n rest, Announces s n rest) ∨
    (scpiLexArbitraryBlockProgramData s).token.type = .unknown ∧
      ((scpiLexArbitraryBlockProgramData s).rest = s ∨
        (scpiLexArbitraryBlockProgramData s).rest = [] ∧ s.getLast? ≠ some 10) := by
  cases s with
  | nil => exact .inr ⟨rfl, .inl rfl⟩
  | cons c s =>
    by_cases hc : c = 35
    · subst hc
      cases s with
      | nil => exact .inr ⟨rfl, .inr ⟨rfl, nofun⟩⟩
      | cons d s =>
        simp only [scpiLexArbitraryBlockProgramData, skipChr, skipOne, beq_self_eq_true, if_true]
        split
        · rename_i hd
          rcases hdigits : lexBlockDigits (d.toNat - 48) 0 s with ⟨missing, n, rest⟩
          obtain ⟨ds, rfl, hlen, hds, hn⟩ := lexBlockDigits_spec hdigits
          simp only
          split
          · rename_i h0
            exact .inl ⟨n, rest, d, ds, rfl, hd, by omega, hds, hn⟩
          · split
            · rename_i hrest
              obtain rfl := List.isEmpty_iff.mp hrest
              refine .inr ⟨rfl, .inr ⟨rfl, fun hlast => ?_⟩⟩
              rw [List.append_nil] at hlast
              -- all of the text is `#` and digits
              rcases List.mem_cons.mp (List.mem_of_getLast? hlast) with h | h
              · cases h
              · rcases List.mem_cons.mp h with rfl | h
                · cases hd
                · cases hds 10 h
            · exact .inr ⟨rfl, .inl rfl⟩
        · exact .inr ⟨rfl, .inl rfl⟩
    · have : (c == 35) = false := by simpa using hc
      refine .inr ⟨?_, .inl ?_⟩ <;>
        simp only [scpiLexArbitraryBlockProgramData, skipChr, skipOne, this, Bool.false_eq_true,
          if_false]

theorem announces_of_lexBlock {s : Text}
    (h : (scpiLexArbitraryBlockProgramData s).token.type = .arbitraryBlockProgramData) :
    ∃ n rest, Announces s n rest ∧ n ≤ rest.length := by
  obtain ⟨n, rest, hann⟩ | ⟨hunknown, -⟩ := lexBlock_cases s
  · rw [lexBlock_announces hann] at h
    split at h
    · rename_i hn
      exact ⟨n, rest, hann, hn⟩
    · cases h
  · rw [hunknown] at h
    cases h

/-! ## A parameter that is a block -/

theorem digit_no_prefix {d : Byte} (h : isNonzeroDigit d = true) :
    isH d = false ∧ isQ d = false ∧ isB d = false := by
  have hd : 48 ≤ d.toNat ∧ d.toNat ≤ 57 := by
    simp only [isNonzeroDigit, isdigit, Bool.and_eq_true, decide_eq_true_eq,
      UInt8.le_iff_toNat_le] at h
    exact h.1
  refine ⟨?_, ?_, ?_⟩ <;>
    · simp only [isH, isQ, isB, Bool.or_eq_false_iff, beq_eq_false_iff_ne, ne_eq,
        ← UInt8.toNat_inj]
      constructor <;> (intro e; rw [e] at hd; revert hd; decide)

theorem parseOneOf_hash {d : Byte} {s : Text} (hd : isNonzeroDigit d = true) :
    parseOneOf parameterLexers (35 :: d :: s) =
      parseOneOf [scpiLexArbitraryBlockProgramData, scpiLexProgramExpression] (35 :: d :: s) := by
  obtain ⟨hH, hQ, hB⟩ := digit_no_prefix hd
  have h1 : scpiLexNondecimalNumericData (35 :: d :: s) =
      ⟨35 :: d :: s, ⟨.unknown, 35 :: d :: s, 0⟩, 0⟩ := by
    simp [scpiLexNondecimalNumericData, skipChr, skipOne, hH, hQ, hB]
  have h2 : scpiLexCharacterProgramData (35 :: d :: s) =
      ⟨35 :: d :: s, ⟨.unknown, 35 :: d :: s, 0⟩, 0⟩ := by
    simp [scpiLexCharacterProgramData, skipMnemonicText, lexedOf, isalpha]
  have h3 : lexDecimalWithSuffix (35 :: d :: s) =
      ⟨35 :: d :: s, ⟨.unknown, 35 :: d :: s, 0⟩, 0⟩ := by
    simp [lexDecimalWithSuffix, scpiLexDecimalNumericProgramData, skipMantisa, skipPlusmn, skipOne,
      skipNumbers, skipMany, skipChr, lexedOf, isplusmn, isdigit]
  have h4 : scpiLexStringProgramData (35 :: d :: s) =
      ⟨35 :: d :: s, ⟨.unknown, 35 :: d :: s, 0⟩, 0⟩ := by
    simp [scpiLexStringProgramData, lexedOf]
  simp [parameterLexers, parseOneOf, h1, h2, h3, h4]

/-- A tokenizer that finds no blocks, and stays where it is when it finds nothing. -/
def Plain (f : Text → Lexed) : Prop :=
  ∀ s, (f s).token.type ≠ .arbitraryBlockProgramData ∧ ((f s).result = 0 → (f s).rest = s)

/-- Either something was skipped and is the token, or nothing happened. -/
theorem lexedOf_cases (type : TokenType) (s rest : Text) :
    (rest.length < s.length ∧ lexedOf type s rest =
        ⟨rest, ⟨type, s, s.length - rest.length⟩, s.length - rest.length⟩) ∨
      lexedOf type s rest = ⟨s, ⟨.unknown, s, 0⟩, 0⟩ := by
  unfold lexedOf
  simp only
  split
  · exact .inl ⟨by omega, rfl⟩
  · exact .inr rfl

theorem plain_lexedOf (type : TokenType) (h : type ≠ .arbitraryBlockProgramData) (s rest : Text) :
    (lexedOf type s rest).token.type ≠ .arbitraryBlockProgramData ∧
      ((lexedOf type s rest).result = 0 → (lexedOf type s rest).rest = s) := by
  obtain ⟨hlt, hlex⟩ | hlex := lexedOf_cases type s rest
  · rw [hlex]
    refine ⟨h, fun h0 => ?_⟩
    simp only at h0
    omega
  · rw [hlex]
    exact ⟨nofun, fun _ => rfl⟩

theorem skipMany_length_le (p : Byte → Bool) (s : Text) : (skipMany p s).1.length ≤ s.length :=
  (List.dropWhile_suffix p).length_le

theorem plain_nondecimal : Plain scpiLexNondecimalNumericData := by
  intro s
  unfold scpiLexNondecimalNumericData
  simp only
  split
  · rename_i c s₁ _
    have found : ∀ (type : TokenType) (rest : Text), type ≠ .arbitraryBlockProgramData →
        ∀ l : Lexed, l = (if (s₁.length : Int) - rest.length ≠ 0 then
            ⟨rest, ⟨type, s₁, s₁.length - rest.length⟩, s₁.length - rest.length + 2⟩
          else ⟨s, ⟨.unknown, s, 0⟩, 0⟩) → rest.length ≤ s₁.length →
        l.token.type ≠ .arbitraryBlockProgramData ∧ (l.result = 0 → l.rest = s) := by
      rintro type rest ht l rfl hle
      split
      · exact ⟨ht, fun h0 => by simp only at h0; omega⟩
      · exact ⟨nofun, fun _ => rfl⟩
    split
    · exact found .hexnum _ nofun _ rfl (skipMany_length_le _ _)
    · split
      · exact found .octnum _ nofun _ rfl (skipMany_length_le _ _)
      · split
        · exact found .binnum _ nofun _ rfl (skipMany_length_le _ _)
        · exact ⟨nofun, fun _ => rfl⟩
  · exact ⟨nofun, fun _ => rfl⟩

theorem plain_character : Plain scpiLexCharacterProgramData := fun _ =>
  plain_lexedOf .programMnemonic nofun _ _

theorem plain_decimal : Plain scpiLexDecimalNumericProgramData := by
  intro s
  unfold scpiLexDecimalNumericProgramData
  simp only
  split <;> exact plain_lexedOf .decimalNumericProgramData nofun _ _

/-- A token of `lexedOf` is as long as the return value says, which is never negative. -/
theorem lexedOf_len (type : TokenType) (s rest : Text) :
    (lexedOf type s rest).token.len = (lexedOf type s rest).result ∧
      0 ≤ (lexedOf type s rest).result := by
  obtain ⟨hlt, hlex⟩ | hlex := lexedOf_cases type s rest
  · rw [hlex]
    refine ⟨rfl, ?_⟩
    simp only
    omega
  · rw [hlex]
    exact ⟨rfl, Int.le_refl 0⟩

theorem decimal_len (s : Text) :
    (scpiLexDecimalNumericProgramData s).token.len = (scpiLexDecimalNumericProgramData s).result ∧
      0 ≤ (scpiLexDecimalNumericProgramData s).result := by
  unfold scpiLexDecimalNumericProgramData
  simp only
  split <;> exact lexedOf_len _ _ _

theorem whiteSpace_len (s : Text) : 0 ≤ (scpiLexWhiteSpace s).result := by
  have := skipMany_length_le isws s
  simp only [scpiLexWhiteSpace, skipWs]
  omega

theorem plain_decimalWithSuffix : Plain lexDecimalWithSuffix := by
  intro s
  have hd := plain_decimal s
  have hlen := decimal_len s
  unfold lexDecimalWithSuffix
  simp only
  split
  · rename_i hne
    split
    · refine ⟨nofun, fun h0 => ?_⟩
      have := whiteSpace_len (scpiLexDecimalNumericProgramData s).rest
      simp only at h0
      omega
    · exact ⟨hd.1, fun h0 => absurd h0 hne⟩
  · exact hd

theorem plain_string : Plain scpiLexStringProgramData := by
  intro s
  unfold scpiLexStringProgramData
  split
  · exact plain_lexedOf .unknown nofun _ _
  · split
    · exact plain_lexedOf .doubleQuoteProgramData nofun _ _
    · split
      · exact plain_lexedOf .singleQuoteProgramData nofun _ _
      · exact plain_lexedOf .unknown nofun _ _

theorem plain_expression : Plain scpiLexProgramExpression := by
  intro s
  unfold scpiLexProgramExpression
  split
  · split <;> exact plain_lexedOf .programExpression nofun _ _
  · exact plain_lexedOf .programExpression nofun _ _

theorem parseOneOf_cons {f : Text → Lexed} {fs : List (Text → Lexed)} (hfs : fs ≠ []) (s : Text) :
    parseOneOf (f :: fs) s = if (f s).result ≠ 0 then f s else parseOneOf fs (f s).rest := by
  obtain ⟨g, gs, rfl⟩ := List.exists_cons_of_ne_nil hfs
  rfl

theorem parseOneOf_plain {f : Text → Lexed} (hf : Plain f) {fs : List (Text → Lexed)}
    (hfs : fs ≠ []) {s : Text}
    (h : (parseOneOf (f :: fs) s).token.type = .arbitraryBlockProgramData) :
    parseOneOf (f :: fs) s = parseOneOf fs s := by
  rw [parseOneOf_cons hfs] at h ⊢
  split at h
  · exact absurd h (hf s).1
  · rename_i h0
    have h0 : (f s).result = 0 := by simpa using h0
    rw [if_neg (by simpa using h0), (hf s).2 h0]

theorem parseOneOf_block {s : Text}
    (h : (parseOneOf parameterLexers s).token.type = .arbitraryBlockProgramData) :
    ∃ n rest, Announces s n rest ∧ n ≤ rest.length := by
  unfold parameterLexers at h
  rw [parseOneOf_plain plain_nondecimal (by simp) h] at h
  rw [parseOneOf_plain plain_character (by simp) h] at h
  rw [parseOneOf_plain plain_decimalWithSuffix (by simp) h] at h
  rw [parseOneOf_plain plain_string (by simp) h] at h
  unfold parseOneOf at h
  split at h
  · exact announces_of_lexBlock h
  · exact absurd h (plain_expression _).1

/-- The tokenizers of a parameter on a block that is all there. -/
theorem parseOneOf_announces {s rest : Text} {n : Nat} (h : Announces s n rest)
    (hn : n ≤ rest.length) :
    parseOneOf parameterLexers s =
      ⟨rest.drop n, ⟨.arbitraryBlockProgramData, rest, n⟩, n + (s.length - rest.length)⟩ := by
  have hblock := lexBlock_announces h
  rw [if_pos hn] at hblock
  obtain ⟨d, ds, rfl, hd, -⟩ := h
  rw [parseOneOf_hash hd, parseOneOf_cons (by simp), hblock, if_pos]
  simp only [List.length_cons, List.length_append]
  omega

theorem parseProgramData_block {s rest : Text} {n : Nat}
    (h : Announces (s.dropWhile isws) n rest) (hn : n ≤ rest.length) :
    (scpiParserParseProgramData s).token = ⟨.arbitraryBlockProgramData, rest, n⟩ := by
  show (parseOneOf parameterLexers (s.dropWhile isws)).token = _
  rw [parseOneOf_announces h hn]

theorem parseProgramData_type {s : Text}
    (h : (scpiParserParseProgramData s).token.type = .arbitraryBlockProgramData) :
    ∃ n rest, Announces (s.dropWhile isws) n rest ∧ n ≤ rest.length :=
  parseOneOf_block h

end XHeepFemu.Scpi
