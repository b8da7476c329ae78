import XHeepFemu.Scpi.Header
import XHeepFemu.Scpi.Parameter

/-!
# Program data

A parameter is a word, an integer, a number in another base, a quoted string, an
arbitrary block or an expression in parentheses. The parser reads it back from
its text, whatever delimiter is behind it: a block by its announced length, a
string by its doubled quotes.
-/

namespace XHeepFemu.Scpi

/-- The base of a nondecimal number. -/
inductive Radix where
  | hex
  | oct
  | bin
  deriving DecidableEq, Repr

namespace Radix

def letter : Radix → Byte
  | hex => 72
  | oct => 81
  | bin => 66

def isDigit : Radix → Byte → Bool
  | hex => isxdigit
  | oct => isqdigit
  | bin => isbdigit

def type : Radix → TokenType
  | hex => .hexnum
  | oct => .octnum
  | bin => .binnum

end Radix

inductive Datum where
  | word (k : Text)
  | integer (negative : Bool) (digits : Text)
  | nondecimal (radix : Radix) (digits : Text)
  | quoted (quote : Byte) (content : Text)
  /-- `digits` is the length of `data`. -/
  | block (digits data : Text)
  | expression (content : Text)
  deriving DecidableEq, Repr

/-- A quote in a string is doubled. -/
def doubleQuotes (quote : Byte) (content : Text) : Text :=
  content.flatMap fun c => if c = quote then [quote, quote] else [c]

namespace Datum

inductive WellFormed : Datum → Prop where
  | word {k : Text} : IsMnemonic k → WellFormed (.word k)
  | integer {negative : Bool} {digits : Text} :
      digits ≠ [] → (∀ c ∈ digits, isdigit c = true) → WellFormed (.integer negative digits)
  | nondecimal {radix : Radix} {digits : Text} :
      digits ≠ [] → (∀ c ∈ digits, radix.isDigit c = true) → WellFormed (.nondecimal radix digits)
  | quoted {quote : Byte} {content : Text} :
      quote = 34 ∨ quote = 39 → (∀ c ∈ content, isascii7bit c = true) →
      WellFormed (.quoted quote content)
  | block {digits data : Text} :
      0 < digits.length ∧ digits.length ≤ 9 → (∀ c ∈ digits, isdigit c = true) →
      number digits = data.length → WellFormed (.block digits data)
  | expression {content : Text} :
      (∀ c ∈ content, isProgramExpression c = true) → WellFormed (.expression content)

def text : Datum → Text
  | word k => k
  | integer negative digits => (if negative then [45] else []) ++ digits
  | nondecimal radix digits => 35 :: radix.letter :: digits
  | quoted quote content => quote :: (doubleQuotes quote content ++ [quote])
  | block digits data => 35 :: UInt8.ofNat (48 + digits.length) :: (digits ++ data)
  | expression content => 40 :: (content ++ [41])

/-- The token of a parameter with `rest` behind it; those of a block and of a nondecimal number
leave their prefix out. -/
def token (d : Datum) (rest : Text) : Token :=
  match d with
  | word _ => ⟨.programMnemonic, d.text ++ rest, d.text.length⟩
  | integer _ _ => ⟨.decimalNumericProgramData, d.text ++ rest, d.text.length⟩
  | nondecimal radix digits => ⟨radix.type, digits ++ rest, digits.length⟩
  | quoted quote _ =>
    ⟨if quote = 34 then .doubleQuoteProgramData else .singleQuoteProgramData, d.text ++ rest,
      d.text.length⟩
  | block _ data => ⟨.arbitraryBlockProgramData, data ++ rest, data.length⟩
  | expression _ => ⟨.programExpression, d.text ++ rest, d.text.length⟩

end Datum

/-- A delimiter or the end of the text. -/
def DataEnd (rest : Text) : Prop := Stops (fun c => !([44, 59, 10, 13].contains c)) rest

theorem DataEnd.nil : DataEnd [] := nofun

theorem DataEnd.stops {rest : Text} (h : DataEnd rest) {p : Byte → Bool}
    (hp : ([44, 59, 10, 13] : Text).all (fun c => !p c) = true) : Stops p rest :=
  h.mono fun c hc => by
    by_contra hin
    have hmem : c ∈ ([44, 59, 10, 13] : Text) := List.contains_iff_mem.mp (by
      rwa [Bool.not_eq_true', Bool.not_eq_false] at hin)
    have hfalse := List.all_eq_true.mp hp c hmem
    rw [hc] at hfalse
    cases hfalse

theorem skipMany_stops {p : Byte → Bool} {s : Text} (h : Stops p s) : skipMany p s = (s, 0) := by
  have hdrop := dropWhile_append_stops (p := p) (s := []) nofun h
  rw [List.nil_append] at hdrop
  unfold skipMany
  rw [hdrop, Nat.sub_self]

theorem skipMany_append {p : Byte → Bool} {s rest : Text} (hs : ∀ c ∈ s, p c = true)
    (hrest : Stops p rest) : skipMany p (s ++ rest) = (rest, s.length) := by
  unfold skipMany
  rw [dropWhile_append_stops hs hrest, List.length_append, Nat.add_sub_cancel]

theorem lexWhiteSpace_stops {s : Text} (h : Stops isws s) :
    scpiLexWhiteSpace s = ⟨s, ⟨.unknown, s, 0⟩, 0⟩ := by
  unfold scpiLexWhiteSpace skipWs
  simp only [skipMany_stops h, Int.sub_self]
  rfl

/-- A text that is read as one parameter. -/
theorem lexedOf_append (type : TokenType) {s : Text} (hs : s ≠ []) (rest : Text) :
    lexedOf type (s ++ rest) rest = ⟨rest, ⟨type, s ++ rest, s.length⟩, s.length⟩ := by
  have hpos := List.length_pos_iff.mpr hs
  have hlen : ((s ++ rest).length : Int) - rest.length = s.length := by
    rw [List.length_append]
    omega
  unfold lexedOf
  simp only [hlen]
  rw [if_pos (by omega)]

/-- Only the first character decides that a tokenizer gives up. -/
theorem lexNondecimal_none {s : Text} (h : s.head? ≠ some 35) :
    scpiLexNondecimalNumericData s = ⟨s, ⟨.unknown, s, 0⟩, 0⟩ := by
  have hskip : skipChr 35 s = (s, false) := skipOne_stops fun c hc => by
    simp only [beq_eq_false_iff_ne]
    rintro rfl
    exact h hc
  unfold scpiLexNondecimalNumericData
  rw [hskip]
  cases s <;> rfl

theorem lexedOf_self (type : TokenType) (s : Text) :
    lexedOf type s s = ⟨s, ⟨.unknown, s, 0⟩, 0⟩ := by
  unfold lexedOf
  simp only [Int.sub_self]
  rfl

theorem lexCharacter_none {s : Text} (h : Stops isalpha s) :
    scpiLexCharacterProgramData s = ⟨s, ⟨.unknown, s, 0⟩, 0⟩ := by
  have hskip : skipMnemonicText s = s := by
    cases s with
    | nil => rfl
    | cons c s => exact if_neg (by rw [h c rfl]; decide)
  unfold scpiLexCharacterProgramData
  rw [hskip, lexedOf_self]

/-! ## One parameter -/

theorem parseOneOf_skip {f : Text → Lexed} {fs : List (Text → Lexed)} (hfs : fs ≠ []) {s : Text}
    (h : f s = ⟨s, ⟨.unknown, s, 0⟩, 0⟩) : parseOneOf (f :: fs) s = parseOneOf fs s := by
  rw [parseOneOf_cons hfs, h, if_neg (not_not.mpr rfl)]

theorem parseOneOf_take {f : Text → Lexed} {fs : List (Text → Lexed)} (hfs : fs ≠ []) {s : Text}
    {l : Lexed} (h : f s = l) (hl : l.result ≠ 0) : parseOneOf (f :: fs) s = l := by
  rw [parseOneOf_cons hfs, h, if_pos hl]

theorem parseOneOf_word {k rest : Text} (hk : IsMnemonic k) (hrest : Stops isMnemonicChar rest) :
    parseOneOf parameterLexers (k ++ rest) = ⟨rest, ⟨.programMnemonic, k ++ rest, k.length⟩, k.length⟩ := by
  obtain ⟨c, t, rfl, hc⟩ := hk.head
  have hhash : (c :: t ++ rest).head? ≠ some 35 := by
    intro h
    rw [Option.some.inj h] at hc
    revert hc
    decide
  have hskip : skipMnemonicText (c :: t ++ rest) = rest := by
    rw [List.cons_append, skipMnemonicText, if_pos hc]
    exact dropWhile_append_stops (fun x hx => hk.chars x (.tail _ hx)) hrest
  have hlex : scpiLexCharacterProgramData (c :: t ++ rest) =
      ⟨rest, ⟨.programMnemonic, c :: t ++ rest, (c :: t).length⟩, (c :: t).length⟩ := by
    unfold scpiLexCharacterProgramData
    rw [hskip, lexedOf_append _ (List.cons_ne_nil c t)]
  have hpos : ((c :: t).length : Int) ≠ 0 := by
    rw [List.length_cons]
    omega
  unfold parameterLexers
  rw [parseOneOf_skip (by simp) (lexNondecimal_none hhash), parseOneOf_take (by simp) hlex hpos]

theorem isdigit_bounds {c : Byte} (h : isdigit c = true) : 48 ≤ c.toNat ∧ c.toNat ≤ 57 := by
  simp only [isdigit, Bool.and_eq_true, decide_eq_true_eq, UInt8.le_iff_toNat_le] at h
  exact h

/-- A sign or a digit starts no other parameter. -/
theorem integer_head (negative : Bool) {digits : Text} (hne : digits ≠ [])
    (hdigits : ∀ c ∈ digits, isdigit c = true) :
    ∃ c t, (Datum.integer negative digits).text = c :: t ∧ c ≠ 35 ∧ isalpha c = false ∧
      isws c = false := by
  cases negative with
  | true => exact ⟨45, digits, rfl, by decide, rfl, rfl⟩
  | false =>
    obtain ⟨c, t, rfl⟩ := List.exists_cons_of_ne_nil hne
    have hc := isdigit_bounds (hdigits c (List.mem_cons_self ..))
    refine ⟨c, t, rfl, ?_, ?_, ?_⟩
    · rintro rfl
      revert hc
      decide
    · simp only [isalpha, Bool.or_eq_false_iff, Bool.and_eq_false_iff, decide_eq_false_iff_not,
        UInt8.le_iff_toNat_le]
      have h65 : (65 : Byte).toNat = 65 := rfl
      have h97 : (97 : Byte).toNat = 97 := rfl
      omega
    · simp only [isws, Bool.or_eq_false_iff, beq_eq_false_iff_ne, ne_eq]
      constructor <;>
        · rintro rfl
          revert hc
          decide

/-- Nothing that a number goes on with comes first. -/
def NumericEnd (rest : Text) : Prop := Stops (fun c => isdigit c || c == 46 || isws c || isE c) rest

theorem skipMantisa_integer {negative : Bool} {digits rest : Text} (hne : digits ≠ [])
    (hdigits : ∀ c ∈ digits, isdigit c = true) (hend : NumericEnd rest) :
    skipMantisa ((Datum.integer negative digits).text ++ rest) = (rest, digits.length) := by
  have hsign : (skipPlusmn ((Datum.integer negative digits).text ++ rest)).1 = digits ++ rest := by
    cases negative with
    | true => rfl
    | false =>
      have hstops : Stops isplusmn (digits ++ rest) := by
        obtain ⟨d, u, rfl⟩ := List.exists_cons_of_ne_nil hne
        intro e he
        have hd := isdigit_bounds (hdigits d (List.mem_cons_self ..))
        rw [← Option.some.inj he]
        simp only [isplusmn, Bool.or_eq_false_iff, beq_eq_false_iff_ne, ne_eq]
        constructor <;>
          · rintro rfl
            revert hd
            decide
      exact congrArg Prod.fst (skipOne_stops hstops)
  have hnumbers : skipNumbers (digits ++ rest) = (rest, digits.length) :=
    skipMany_append hdigits (hend.mono fun c hc => by simp [hc])
  have hpoint : skipChr 46 rest = (rest, false) := skipOne_stops (hend.mono fun c hc => by simp [hc])
  unfold skipMantisa
  simp only [hsign, hnumbers, hpoint]

/-- An integer is read as a decimal number. -/
theorem lexDecimal_integer {negative : Bool} {digits rest : Text} (hne : digits ≠ [])
    (hdigits : ∀ c ∈ digits, isdigit c = true) (hend : NumericEnd rest) :
    scpiLexDecimalNumericProgramData ((Datum.integer negative digits).text ++ rest) =
      ⟨rest, (Datum.integer negative digits).token rest,
        (Datum.integer negative digits).text.length⟩ := by
  obtain ⟨c, t, htext, -⟩ := integer_head negative hne hdigits
  have hpos : digits.length ≠ 0 := fun h => hne (List.length_eq_zero_iff.mp h)
  have hexponent : skipExponent rest = (rest, 0) := by
    cases rest with
    | nil => rfl
    | cons d u =>
      have hd : isE d = false := hend.mono (p := isE) (fun c hc => by simp [hc]) d rfl
      exact if_neg (by rw [hd]; decide)
  have hws : skipWs rest = (rest, 0) := skipMany_stops (hend.mono fun c hc => by simp [hc])
  unfold scpiLexDecimalNumericProgramData
  simp only [skipMantisa_integer hne hdigits hend]
  rw [if_pos hpos]
  simp only [hws, hexponent, if_true]
  rw [lexedOf_append]
  · rfl
  · rw [htext]
    exact List.cons_ne_nil c t

theorem parseOneOf_integer {negative : Bool} {digits rest : Text} (hne : digits ≠ [])
    (hdigits : ∀ c ∈ digits, isdigit c = true) (hrest : DataEnd rest) :
    parseOneOf parameterLexers ((Datum.integer negative digits).text ++ rest) =
      ⟨rest, (Datum.integer negative digits).token rest, (Datum.integer negative digits).text.length⟩ := by
  obtain ⟨c, t, htext, hhash, halpha, -⟩ := integer_head negative hne hdigits
  have hpos : ((Datum.integer negative digits).text.length : Int) ≠ 0 := by
    rw [htext, List.length_cons]
    omega
  have hlex := @lexDecimal_integer negative digits rest hne hdigits (hrest.stops rfl)
  have hsuffix : lexDecimalWithSuffix ((Datum.integer negative digits).text ++ rest) =
      ⟨rest, (Datum.integer negative digits).token rest,
        (Datum.integer negative digits).text.length⟩ := by
    have hws := lexWhiteSpace_stops (hrest.stops (p := isws) rfl)
    have hunit : scpiLexSuffixProgramData rest = ⟨rest, ⟨.unknown, rest, 0⟩, 0⟩ := by
      have hslash : skipChr 47 rest = (rest, false) := skipOne_stops (hrest.stops rfl)
      have halpha : skipAlpha rest = (rest, 0) := skipMany_stops (hrest.stops rfl)
      unfold scpiLexSuffixProgramData
      simp only [hslash, halpha, ne_eq, not_true_eq_false, if_false]
      exact lexedOf_self _ _
    unfold lexDecimalWithSuffix
    simp only [hlex, hws, hunit]
    rw [if_pos hpos, if_neg (by decide)]
  unfold parameterLexers
  rw [parseOneOf_skip (by simp) (lexNondecimal_none ?_),
    parseOneOf_skip (by simp) (lexCharacter_none ?_), parseOneOf_take (by simp) hsuffix hpos]
  · rw [htext]
    exact fun d hd => Option.some.inj hd ▸ halpha
  · rw [htext]
    exact fun h => hhash (Option.some.inj h)

theorem skipQuote_plain {quote c : Byte} {s : Text} (hc : isascii7bit c = true) (hne : c ≠ quote) :
    skipQuoteProgramData quote (c :: s) = skipQuoteProgramData quote s := by
  rw [skipQuoteProgramData.eq_def]
  exact if_pos (by simp [hc, hne])

theorem skipQuote_doubled (quote : Byte) (s : Text) :
    skipQuoteProgramData quote (quote :: quote :: s) = skipQuoteProgramData quote s := by
  rw [skipQuoteProgramData.eq_def]
  simp

theorem skipQuote_closed {quote : Byte} {rest : Text} (h : rest.head? ≠ some quote) :
    skipQuoteProgramData quote (quote :: rest) = quote :: rest := by
  rw [skipQuoteProgramData.eq_def]
  cases rest with
  | nil => simp
  | cons d t =>
    have hd : d ≠ quote := fun hd => h (congrArg some hd)
    simp [hd]

/-- A string goes on to the first quote that is not doubled. -/
theorem skipQuote_double {quote : Byte} {content rest : Text}
    (hcontent : ∀ c ∈ content, isascii7bit c = true) (hrest : rest.head? ≠ some quote) :
    skipQuoteProgramData quote (doubleQuotes quote content ++ quote :: rest) = quote :: rest := by
  induction content with
  | nil => exact skipQuote_closed hrest
  | cons c content ih =>
    have ih := ih fun d hd => hcontent d (.tail _ hd)
    have hdouble : doubleQuotes quote (c :: content) =
        (if c = quote then [quote, quote] else [c]) ++ doubleQuotes quote content := rfl
    rw [hdouble]
    by_cases hc : c = quote
    · rw [if_pos hc, List.append_assoc]
      exact (skipQuote_doubled quote _).trans ih
    · rw [if_neg hc, List.append_assoc]
      exact (skipQuote_plain (hcontent c (List.mem_cons_self ..)) hc).trans ih

theorem lexDecimalWithSuffix_none {s : Text}
    (h : Stops (fun c => isplusmn c || isdigit c || c == 46) s) :
    lexDecimalWithSuffix s = ⟨s, ⟨.unknown, s, 0⟩, 0⟩ := by
  have hsign : skipPlusmn s = (s, false) := skipOne_stops (h.mono fun c hc => by simp [hc])
  have hnumbers : skipNumbers s = (s, 0) := skipMany_stops (h.mono fun c hc => by simp [hc])
  have hpoint : skipChr 46 s = (s, false) := skipOne_stops (h.mono fun c hc => by simp [hc])
  have hlex : scpiLexDecimalNumericProgramData s = ⟨s, ⟨.unknown, s, 0⟩, 0⟩ := by
    unfold scpiLexDecimalNumericProgramData skipMantisa
    simp only [hsign, hnumbers, hpoint, ne_eq, not_true_eq_false, if_false]
    exact lexedOf_self _ _
  unfold lexDecimalWithSuffix
  simp only [hlex, ne_eq, not_true_eq_false, if_false]

theorem parseOneOf_quoted {quote : Byte} {content rest : Text} (hquote : quote = 34 ∨ quote = 39)
    (hcontent : ∀ c ∈ content, isascii7bit c = true) (hrest : DataEnd rest) :
    parseOneOf parameterLexers ((Datum.quoted quote content).text ++ rest) =
      ⟨rest, (Datum.quoted quote content).token rest, (Datum.quoted quote content).text.length⟩ := by
  have hend : rest.head? ≠ some quote := by
    intro h
    have := hrest.stops (p := fun c => c == 34 || c == 39) rfl quote h
    rcases hquote with rfl | rfl <;> cases this
  have htext : (Datum.quoted quote content).text ++ rest =
      quote :: (doubleQuotes quote content ++ quote :: rest) := by simp [Datum.text]
  have hclose : closeQuote quote (doubleQuotes quote content ++ quote :: rest) = some rest := by
    unfold closeQuote
    rw [skipQuote_double hcontent hend]
    exact if_pos (beq_self_eq_true quote)
  have hlexed := lexedOf_append
    (if quote = 34 then .doubleQuoteProgramData else .singleQuoteProgramData)
    (show (Datum.quoted quote content).text ≠ [] from nofun) rest
  have hlex : scpiLexStringProgramData ((Datum.quoted quote content).text ++ rest) =
      ⟨rest, (Datum.quoted quote content).token rest,
        (Datum.quoted quote content).text.length⟩ := by
    refine Eq.trans ?_ hlexed
    rw [htext]
    rcases hquote with rfl | rfl
    · show lexedOf .doubleQuoteProgramData _ ((closeQuote 34 _).getD _) = _
      rw [hclose]
      rfl
    · show lexedOf .singleQuoteProgramData _ ((closeQuote 39 _).getD _) = _
      rw [hclose]
      rfl
  have hpos : ((Datum.quoted quote content).text.length : Int) ≠ 0 := by
    rw [Datum.text, List.length_cons]
    omega
  have hstops : ∀ p : Byte → Bool, p 34 = false → p 39 = false →
      Stops p ((Datum.quoted quote content).text ++ rest) := by
    intro p h34 h39
    rw [htext]
    rcases hquote with rfl | rfl
    · exact .cons h34 _
    · exact .cons h39 _
  unfold parameterLexers
  rw [parseOneOf_skip (by simp) (lexNondecimal_none ?_),
    parseOneOf_skip (by simp) (lexCharacter_none (hstops isalpha rfl rfl)),
    parseOneOf_skip (by simp) (lexDecimalWithSuffix_none (hstops _ rfl rfl)),
    parseOneOf_take (by simp) hlex hpos]
  rw [htext]
  rcases hquote with rfl | rfl <;> exact nofun

theorem parseOneOf_nondecimal {radix : Radix} {digits rest : Text} (hne : digits ≠ [])
    (hdigits : ∀ c ∈ digits, radix.isDigit c = true) (hrest : DataEnd rest) :
    parseOneOf parameterLexers ((Datum.nondecimal radix digits).text ++ rest) =
      ⟨rest, (Datum.nondecimal radix digits).token rest,
        (Datum.nondecimal radix digits).text.length⟩ := by
  have hpos := List.length_pos_iff.mpr hne
  have hstop : Stops radix.isDigit rest := hrest.stops (by cases radix <;> rfl)
  have hskip : skipMany radix.isDigit (digits ++ rest) = (rest, digits.length) :=
    skipMany_append hdigits hstop
  have hlen : ((digits ++ rest).length : Int) - rest.length = digits.length := by
    rw [List.length_append]
    omega
  have hlex : scpiLexNondecimalNumericData (35 :: radix.letter :: (digits ++ rest)) =
      ⟨rest, ⟨radix.type, digits ++ rest, digits.length⟩, digits.length + 2⟩ := by
    have hhash : skipChr 35 (35 :: radix.letter :: (digits ++ rest)) =
        (radix.letter :: (digits ++ rest), true) := rfl
    unfold scpiLexNondecimalNumericData
    rw [hhash]
    cases radix <;>
      · simp only [Radix.isDigit] at hskip
        simp only [Radix.letter, skipHexNum, skipOctNum, skipBinNum, hskip, hlen]
        rw [if_pos (show (digits.length : Int) ≠ 0 by omega)]
        rfl
  unfold parameterLexers
  rw [show (Datum.nondecimal radix digits).text ++ rest = 35 :: radix.letter :: (digits ++ rest)
    from rfl, parseOneOf_take (by simp) hlex (show (digits.length : Int) + 2 ≠ 0 by omega)]
  simp [Datum.token, Datum.text]
  omega

/-- A block is read by its length, whatever its data are. -/
theorem parseOneOf_blockText {digits data rest : Text}
    (hlen : 0 < digits.length ∧ digits.length ≤ 9) (hdigits : ∀ c ∈ digits, isdigit c = true)
    (hnumber : number digits = data.length) :
    parseOneOf parameterLexers ((Datum.block digits data).text ++ rest) =
      ⟨rest, (Datum.block digits data).token rest, (Datum.block digits data).text.length⟩ := by
  have htext : (Datum.block digits data).text ++ rest =
      35 :: UInt8.ofNat (48 + digits.length) :: (digits ++ (data ++ rest)) := by simp [Datum.text]
  have hcount : (UInt8.ofNat (48 + digits.length)).toNat = 48 + digits.length := by
    rw [UInt8.toNat_ofNat']
    omega
  have hann : Announces ((Datum.block digits data).text ++ rest) data.length (data ++ rest) := by
    refine ⟨_, digits, htext, ?_, by rw [hcount]; omega, hdigits, hnumber⟩
    have h0 : (48 : Byte).toNat = 48 := rfl
    have h9 : (57 : Byte).toNat = 57 := rfl
    simp only [isNonzeroDigit, isdigit, Bool.and_eq_true, decide_eq_true_eq, UInt8.le_iff_toNat_le,
      hcount, bne_iff_ne, ne_eq, ← UInt8.toNat_inj]
    omega
  rw [parseOneOf_announces hann (by simp)]
  simp only [List.drop_left, Datum.token, Datum.text, List.length_cons, List.length_append,
    List.cons_append]
  congr 1
  omega

theorem parseOneOf_expression {content rest : Text}
    (hcontent : ∀ c ∈ content, isProgramExpression c = true) :
    parseOneOf parameterLexers ((Datum.expression content).text ++ rest) =
      ⟨rest, (Datum.expression content).token rest, (Datum.expression content).text.length⟩ := by
  have htext : (Datum.expression content).text ++ rest = 40 :: (content ++ 41 :: rest) := by
    simp [Datum.text]
  have hlex : scpiLexProgramExpression ((Datum.expression content).text ++ rest) =
      ⟨rest, (Datum.expression content).token rest, (Datum.expression content).text.length⟩ := by
    have hstop : Stops isProgramExpression (41 :: rest) := .cons rfl rest
    have hopen : skipChr 40 ((Datum.expression content).text ++ rest) =
        (content ++ 41 :: rest, true) := by
      rw [htext]
      rfl
    have hclose : skipChr 41 (41 :: rest) = (rest, true) := rfl
    unfold scpiLexProgramExpression
    rw [hopen]
    simp only [dropWhile_append_stops hcontent hstop, hclose]
    exact lexedOf_append .programExpression (List.cons_ne_nil 40 _) rest
  have hstops : ∀ p : Byte → Bool, p 40 = false →
      Stops p ((Datum.expression content).text ++ rest) := by
    intro p hp
    rw [htext]
    exact .cons hp _
  have hstring : scpiLexStringProgramData ((Datum.expression content).text ++ rest) =
      ⟨(Datum.expression content).text ++ rest, ⟨.unknown, (Datum.expression content).text ++ rest, 0⟩,
        0⟩ := lexedOf_self .unknown _
  unfold parameterLexers
  rw [parseOneOf_skip (by simp) (lexNondecimal_none ?_),
    parseOneOf_skip (by simp) (lexCharacter_none (hstops isalpha rfl)),
    parseOneOf_skip (by simp) (lexDecimalWithSuffix_none (hstops _ rfl)),
    parseOneOf_skip (by simp) hstring, parseOneOf_skip (by simp) rfl]
  · exact hlex
  · rw [htext]
    exact fun h => absurd (Option.some.inj h) (by decide)

theorem isws_letter {c : Byte} (h : isalpha c = true) : isws c = false := by
  simp only [isws, Bool.or_eq_false_iff, beq_eq_false_iff_ne, ne_eq]
  constructor <;>
    · rintro rfl
      revert h
      decide

/-- No parameter starts with white space. -/
theorem text_head {d : Datum} (hd : d.WellFormed) (rest : Text) : Stops isws (d.text ++ rest) := by
  cases hd with
  | word hk =>
    obtain ⟨e, t, rfl, he⟩ := hk.head
    exact .cons (isws_letter he) _
  | integer hne hdigits =>
    obtain ⟨e, t, htext, -, -, hws⟩ := integer_head _ hne hdigits
    rw [htext]
    exact .cons hws _
  | nondecimal _ _ => exact .cons rfl _
  | quoted hquote _ => rcases hquote with rfl | rfl <;> exact .cons rfl _
  | block _ _ _ => exact .cons rfl _
  | expression _ => exact .cons rfl _

/-- **The parser reads a parameter back from its text.** -/
theorem parseProgramData_text {d : Datum} (hd : d.WellFormed) {rest : Text} (hrest : DataEnd rest) :
    scpiParserParseProgramData (d.text ++ rest) = ⟨rest, d.token rest, d.text.length⟩ := by
  have hlex : parseOneOf parameterLexers (d.text ++ rest) =
      ⟨rest, d.token rest, d.text.length⟩ := by
    cases hd with
    | word hk => exact parseOneOf_word hk (hrest.stops rfl)
    | integer hne hdigits => exact parseOneOf_integer hne hdigits hrest
    | nondecimal hne hdigits => exact parseOneOf_nondecimal hne hdigits hrest
    | quoted hquote hcontent => exact parseOneOf_quoted hquote hcontent hrest
    | block hlen hdigits hnumber => exact parseOneOf_blockText hlen hdigits hnumber
    | expression hcontent => exact parseOneOf_expression hcontent
  unfold scpiParserParseProgramData
  simp only [lexWhiteSpace_stops (text_head hd rest), hlex,
    lexWhiteSpace_stops (hrest.stops (p := isws) rfl), Int.add_zero]

/-! ## The parameters of a command -/

/-- The parameters, with commas between them. -/
def dataText (ds : List Datum) : Text := [44].intercalate (ds.map Datum.text)

/-- The end of a unit. -/
def UnitStop (rest : Text) : Prop := Stops (fun c => !([59, 10, 13].contains c)) rest

theorem UnitStop.dataEnd {rest : Text} (h : UnitStop rest) : DataEnd rest := by
  refine h.mono fun c hc => ?_
  simp only [List.contains_cons, Bool.not_or, Bool.and_eq_true] at hc ⊢
  exact hc.2

theorem token_known (d : Datum) (rest : Text) : (d.token rest).type ≠ .unknown := by
  cases d with
  | quoted quote content =>
    unfold Datum.token
    simp only
    split <;> exact nofun
  | word k => exact nofun
  | nondecimal radix digits => cases radix <;> exact nofun
  | integer negative digits => exact nofun
  | block digits data => exact nofun
  | expression content => exact nofun

theorem parseAllLoop_data {ds : List Datum} (hne : ds ≠ []) (hds : ∀ d ∈ ds, d.WellFormed)
    {rest : Text} (hrest : UnitStop rest) (ptr : Text) {n : Nat} (hn : ds.length ≤ n)
    (len count : Int) :
    parseAllLoop ptr n (dataText ds ++ rest) len count =
      (⟨rest, ⟨.allProgramData, ptr, len + (dataText ds).length⟩, len + (dataText ds).length⟩,
        count + ds.length) := by
  induction ds generalizing n len count with
  | nil => exact absurd rfl hne
  | cons d ds ih =>
    rw [List.length_cons] at hn
    obtain ⟨n, rfl⟩ : ∃ k, n = k + 1 := ⟨n - 1, by omega⟩
    have hd := hds d (List.mem_cons_self ..)
    cases ds with
    | nil =>
      have htext : dataText [d] = d.text := by simp [dataText]
      have hcomma : scpiLexComma rest = ⟨rest, ⟨.unknown, rest, 0⟩, 0⟩ := by
        have hskip : skipChr 44 rest = (rest, false) := skipOne_stops (hrest.mono fun c hc => by
          rw [beq_iff_eq.mp hc]
          rfl)
        unfold scpiLexComma
        rw [hskip, lexedOf_self]
      rw [htext, parseAllLoop]
      simp only [parseProgramData_text hd hrest.dataEnd, if_pos (token_known d rest), hcomma]
      rw [if_neg (by decide)]
      rfl
    | cons d' ds =>
      have htext : dataText (d :: d' :: ds) ++ rest = d.text ++ 44 :: (dataText (d' :: ds) ++ rest) := by
        simp [dataText]
      have hlen : (dataText (d :: d' :: ds)).length = d.text.length + 1 + (dataText (d' :: ds)).length := by
        simp [dataText]
        omega
      have hend : DataEnd (44 :: (dataText (d' :: ds) ++ rest)) := .cons rfl _
      have hcomma : scpiLexComma (44 :: (dataText (d' :: ds) ++ rest)) =
          ⟨dataText (d' :: ds) ++ rest, ⟨.comma, 44 :: (dataText (d' :: ds) ++ rest), 1⟩, 1⟩ :=
        lexedOf_append .comma (List.cons_ne_nil 44 []) (dataText (d' :: ds) ++ rest)
      rw [htext, parseAllLoop]
      simp only [parseProgramData_text hd hend, if_pos (token_known d _), hcomma]
      have hsum : len + (d.text.length : Int) + 1 + (dataText (d' :: ds)).length =
          len + (dataText (d :: d' :: ds)).length := by omega
      have hcount : count + 1 + ((d' :: ds).length : Int) = count + (d :: d' :: ds).length := by
        simp only [List.length_cons]
        omega
      rw [if_pos (by decide), ih nofun (fun e he => hds e (.tail _ he)) (by omega), hsum, hcount]

theorem length_le_dataText (ds : List Datum) : ds.length ≤ (dataText ds).length + 1 := by
  induction ds with
  | nil => exact Nat.zero_le _
  | cons d ds ih =>
    cases ds with
    | nil => exact Nat.le_add_left 1 _
    | cons d' ds =>
      have hlen : (dataText (d :: d' :: ds)).length =
          d.text.length + 1 + (dataText (d' :: ds)).length := by
        simp [dataText]
        omega
      rw [hlen]
      simp only [List.length_cons] at ih ⊢
      omega

/-- All parameters of a command. -/
theorem parseAllProgramData_data {ds : List Datum} (hne : ds ≠ []) (hds : ∀ d ∈ ds, d.WellFormed)
    {rest : Text} (hrest : UnitStop rest) :
    scpiParserParseAllProgramData (dataText ds ++ rest) =
      ((⟨rest, ⟨.allProgramData, dataText ds ++ rest, (dataText ds).length⟩,
        (dataText ds).length⟩ : Lexed), (ds.length : Int)) := by
  have hn : ds.length ≤ (dataText ds ++ rest).length + 1 := by
    have := length_le_dataText ds
    rw [List.length_append]
    omega
  have h := parseAllLoop_data hne hds hrest (dataText ds ++ rest) hn (-1 + 1) 0
  unfold scpiParserParseAllProgramData
  rw [h]
  simp

end XHeepFemu.Scpi
