import XHeepFemu.Lib.Framing
import XHeepFemu.Scpi.Keeps

/-!
# Where a unit ends

A unit of a text that ends in a newline leaves a text that ends in it, or takes
the newline as its terminator; unless one of its parameters is an open block,
`OpenUnit`, and takes the newline with everything else. So `detect` is a framer,
and `unterminated_eq_nil_iff` says when a text is a list of whole messages.
-/

namespace XHeepFemu.Scpi

open Lib (Framer)

variable {s : Text}

/-! ## Parameters -/

theorem keeps_parseOneOf {f : Text → Lexed} (hf : Plain f) (hkeeps : ∀ s, Keeps s (f s).rest)
    {fs : List (Text → Lexed)} (hfs : fs ≠ []) (h : Keeps s (parseOneOf fs s).rest) :
    Keeps s (parseOneOf (f :: fs) s).rest := by
  rw [parseOneOf_cons hfs]
  split
  · exact hkeeps s
  · rename_i h0
    rw [(hf s).2 (by simpa using h0)]
    exact h

theorem keeps_parameter (h : ¬OpenBlock s) : Keeps s (parseOneOf parameterLexers s).rest := by
  apply keeps_parseOneOf plain_nondecimal keeps_nondecimal (by simp)
  apply keeps_parseOneOf plain_character keeps_character (by simp)
  apply keeps_parseOneOf plain_decimalWithSuffix keeps_decimalWithSuffix (by simp)
  apply keeps_parseOneOf plain_string keeps_string (by simp)
  rw [parseOneOf_cons (by simp)]
  split
  · exact keeps_block h
  · exact (keeps_block h).trans (keeps_expression _)

theorem parameter_open (h : OpenBlock s) : (parseOneOf parameterLexers s).rest = [] := by
  have hrest := block_open h
  obtain ⟨n, rest, ⟨d, ds, rfl, hd, -⟩, -⟩ := h
  rw [parseOneOf_hash hd, parseOneOf_cons (by simp)]
  split
  · exact hrest
  · rw [hrest]
    rfl

theorem keeps_programData (h : ¬OpenBlock (s.dropWhile isws)) :
    Keeps s (scpiParserParseProgramData s).rest :=
  ((keeps_whiteSpace s).trans (keeps_parameter h)).trans (keeps_whiteSpace _)

theorem programData_open (h : OpenBlock (s.dropWhile isws)) :
    (scpiParserParseProgramData s).rest = [] := by
  show (scpiLexWhiteSpace (parseOneOf parameterLexers (s.dropWhile isws)).rest).rest = []
  rw [parameter_open h]
  rfl

theorem programData_suffix (s : Text) : (scpiParserParseProgramData s).rest <:+ s := by
  by_cases h : OpenBlock (s.dropWhile isws)
  · rw [programData_open h]
    exact List.nil_suffix
  · exact (keeps_programData h).suffix

/-- One of the parameters is an open block. -/
inductive OpenParams : Text → Prop where
  | here {s : Text} : OpenBlock (s.dropWhile isws) → OpenParams s
  | next {s : Text} : (scpiParserParseProgramData s).token.type ≠ .unknown →
      (scpiLexComma (scpiParserParseProgramData s).rest).result ≠ 0 →
      OpenParams (scpiLexComma (scpiParserParseProgramData s).rest).rest → OpenParams s

theorem lexedOf_progress {type : TokenType} {rest : Text} (h : (lexedOf type s rest).result ≠ 0) :
    (lexedOf type s rest).token.type = type ∧ (lexedOf type s rest).rest = rest ∧
      rest.length < s.length := by
  obtain ⟨hlt, hlex⟩ | hlex := lexedOf_cases type s rest
  · rw [hlex]
    exact ⟨rfl, rfl, hlt⟩
  · rw [hlex] at h
    exact absurd rfl h

theorem lexedOf_none {type : TokenType} {rest : Text} (h : (lexedOf type s rest).result = 0) :
    lexedOf type s rest = ⟨s, ⟨.unknown, s, 0⟩, 0⟩ := by
  obtain ⟨hlt, hlex⟩ | hlex := lexedOf_cases type s rest
  · rw [hlex] at h
    simp only at h
    omega
  · exact hlex

variable {ptr : Text} {len count : Int}

theorem comma_lt (h : (scpiLexComma (scpiParserParseProgramData s).rest).result ≠ 0) :
    (scpiLexComma (scpiParserParseProgramData s).rest).rest.length < s.length := by
  obtain ⟨-, hrest, hlt⟩ := lexedOf_progress h
  have hle := (programData_suffix s).length_le
  rw [show (scpiLexComma (scpiParserParseProgramData s).rest).rest = _ from hrest]
  omega

theorem keeps_parseAll (n : Nat) (h : ¬OpenParams s) :
    Keeps s (parseAllLoop ptr n s len count).1.rest := by
  induction n generalizing s len count with
  | zero => exact .refl s
  | succ n ih =>
    have hdata := keeps_programData fun ho => h (.here ho)
    have hcomma := hdata.trans (keeps_comma _)
    unfold parseAllLoop
    simp only
    split
    · rename_i htype
      split
      · rename_i hresult
        exact hcomma.trans (ih fun ho => h (.next htype hresult ho))
      · exact hcomma
    · exact hdata

theorem parseAll_open {n : Nat} (hn : s.length < n) (h : OpenParams s) :
    (parseAllLoop ptr n s len count).1.rest = [] := by
  induction n generalizing s len count with
  | zero => omega
  | succ n ih =>
    unfold parseAllLoop
    cases h with
    | here ho =>
      simp only [programData_open ho]
      split <;> rfl
    | next htype hresult ho =>
      simp only
      rw [if_pos htype, if_pos hresult]
      have hlt := comma_lt hresult
      exact ih (by omega) ho

/-! ## One unit -/

/-- Where the parameters of a unit start, if there are any. -/
def parameters (s : Text) : Option Text :=
  let w := scpiLexWhiteSpace (scpiLexProgramHeader (scpiLexWhiteSpace s).rest).rest
  if w.result > 0 then some w.rest else none

/-- A parameter of the unit at the start of `s` is an open block. -/
def OpenUnit (s : Text) : Prop := ∃ t, parameters s = some t ∧ OpenParams t

theorem programHeader_result (s : Text) : (scpiLexProgramHeader s).result ≥ 0 := by
  have h := (keeps_programHeaderType s).suffix.length_le
  unfold scpiLexProgramHeader
  simp only
  split
  · simp only
    omega
  · exact Int.le_refl 0

theorem unitBody_rest (s : Text) : (unitBody s).2.1.rest =
    match parameters s with
    | some t => (scpiParserParseAllProgramData t).1.rest
    | none => (scpiLexWhiteSpace (scpiLexProgramHeader (scpiLexWhiteSpace s).rest).rest).rest := by
  unfold unitBody parameters
  simp only
  rw [if_pos (programHeader_result _)]
  split <;> rfl

theorem keeps_beforeParameters (s : Text) :
    Keeps s (scpiLexWhiteSpace (scpiLexProgramHeader (scpiLexWhiteSpace s).rest).rest).rest :=
  ((keeps_whiteSpace s).trans (keeps_programHeader _)).trans (keeps_whiteSpace _)

theorem keeps_parameters {t : Text} (h : parameters s = some t) : Keeps s t := by
  unfold parameters at h
  simp only at h
  split at h
  · rw [← Option.some.inj h]
    exact keeps_beforeParameters s
  · cases h

theorem keeps_unitBody (h : ¬OpenUnit s) : Keeps s (unitBody s).2.1.rest := by
  rw [unitBody_rest]
  cases hparams : parameters s with
  | none => exact keeps_beforeParameters s
  | some t => exact (keeps_parameters hparams).trans (keeps_parseAll _ fun ho => h ⟨t, hparams, ho⟩)

theorem unitBody_open (h : OpenUnit s) : (unitBody s).2.1.rest = [] := by
  obtain ⟨t, hparams, ho⟩ := h
  rw [unitBody_rest, hparams]
  exact parseAll_open (Nat.lt_succ_self _) ho

theorem unitBody_suffix (s : Text) : (unitBody s).2.1.rest <:+ s := by
  by_cases h : OpenUnit s
  · rw [unitBody_open h]
    exact List.nil_suffix
  · exact (keeps_unitBody h).suffix

theorem newLine_suffix (d : Text) : (scpiLexNewLine d).rest <:+ d := by
  have hcr : Keeps d (skipChr 13 d).1 := keeps_skipChr (by decide) d
  have hlf : (skipChr 10 (skipChr 13 d).1).1 <:+ (skipChr 13 d).1 := by
    generalize (skipChr 13 d).1 = e
    cases e with
    | nil => exact List.nil_suffix
    | cons c e =>
      simp only [skipChr, skipOne]
      split
      · exact List.suffix_cons c e
      · exact List.suffix_refl _
  by_cases h : (scpiLexNewLine d).result = 0
  · have hnone : scpiLexNewLine d = ⟨d, ⟨.unknown, d, 0⟩, 0⟩ := lexedOf_none h
    simp only [hnone, List.suffix_refl]
  · rw [show (scpiLexNewLine d).rest = _ from (lexedOf_progress h).2.1]
    exact hlf.trans hcr.suffix

theorem newLine_head {d : Text} (h : (scpiLexNewLine d).result = 0) : d.head? ≠ some 10 := by
  intro hd
  cases d with
  | nil => cases hd
  | cons c d =>
    obtain rfl : c = 10 := by simpa using hd
    rw [show scpiLexNewLine (10 :: d) = lexedOf .nl (10 :: d) d from rfl] at h
    simp only [lexedOf, List.length_cons] at h
    rw [if_pos (by omega)] at h
    simp only at h
    omega

/-- The four ways a unit ends: a newline, a semicolon, a character that fits nowhere, or the end
of the text. -/
inductive UnitEnd (d : Text) (u : ProgramMessageUnit) : Prop where
  | nl (term : u.termination = .nl) (suffix : u.rest <:+ d) (lt : u.rest.length < d.length)
  | semicolon (term : u.termination = .semicolon) (keeps : Keeps d u.rest)
      (lt : u.rest.length < d.length)
  | invalid (term : u.termination = .none) (type : u.programHeader.type = .invalid) (c : Byte)
      (ne : c ≠ 10) (eq : d = c :: u.rest)
  | eos (term : u.termination = .none) (eq : d = []) (rest : u.rest = [])

theorem detect_end (s : Text) :
    UnitEnd (unitBody s).2.1.rest (scpiParserDetectProgramMessageUnit s) := by
  unfold scpiParserDetectProgramMessageUnit
  rcases unitBody s with ⟨header, data, count⟩
  simp only
  by_cases hnl : (scpiLexNewLine data.rest).result = 0
  · have hnone : scpiLexNewLine data.rest = ⟨data.rest, ⟨.unknown, data.rest, 0⟩, 0⟩ :=
      lexedOf_none hnl
    have hhead := newLine_head hnl
    rw [hnone]
    simp only [if_true]
    by_cases hsc : (scpiLexSemicolon data.rest).result = 0
    · have hnone : scpiLexSemicolon data.rest = ⟨data.rest, ⟨.unknown, data.rest, 0⟩, 0⟩ :=
        lexedOf_none hsc
      rw [hnone]
      cases hd : data.rest with
      | nil => exact .eos rfl rfl rfl
      | cons c rest =>
        refine .invalid rfl rfl c ?_ rfl
        rintro rfl
        rw [hd] at hhead
        exact hhead rfl
    · obtain ⟨htype, hrest, hlt⟩ := lexedOf_progress hsc
      have hkeeps := keeps_semicolon data.rest
      have hlt : (scpiLexSemicolon data.rest).rest.length < data.rest.length := hrest ▸ hlt
      have hterm : terminationOf (scpiLexSemicolon data.rest).token.type = .semicolon := by
        rw [show (scpiLexSemicolon data.rest).token.type = .semicolon from htype]
        rfl
      split
      · rw [if_neg hsc]
        exact .semicolon hterm hkeeps hlt
      · exact .semicolon hterm hkeeps hlt
  · obtain ⟨htype, hrest, hlt⟩ := lexedOf_progress hnl
    have hlt : (scpiLexNewLine data.rest).rest.length < data.rest.length := hrest ▸ hlt
    have hterm : terminationOf (scpiLexNewLine data.rest).token.type = .nl := by
      rw [show (scpiLexNewLine data.rest).token.type = .nl from htype]
      rfl
    have hsuffix := newLine_suffix data.rest
    rw [if_neg hnl]
    split
    · rw [if_neg hnl]
      exact .nl hterm hsuffix hlt
    · exact .nl hterm hsuffix hlt

theorem detect_suffix (s : Text) : (scpiParserDetectProgramMessageUnit s).rest <:+ s := by
  refine List.IsSuffix.trans ?_ (unitBody_suffix s)
  cases detect_end s with
  | nl _ suffix _ => exact suffix
  | semicolon _ keeps _ => exact keeps.suffix
  | invalid _ _ c _ eq =>
    rw [eq]
    exact List.suffix_cons c _
  | eos _ _ rest =>
    rw [rest]
    exact List.nil_suffix

/-- A unit is never empty, so that the loops over units come to an end. -/
theorem detect_progress (hs : s ≠ []) :
    (scpiParserDetectProgramMessageUnit s).rest.length < s.length := by
  have hle := (unitBody_suffix s).length_le
  have hpos := List.length_pos_iff.mpr hs
  cases detect_end s with
  | nl _ _ lt => omega
  | semicolon _ _ lt => omega
  | invalid _ _ c _ eq =>
    rw [eq, List.length_cons] at hle
    omega
  | eos _ _ rest =>
    rw [rest]
    exact hpos

/-- An open block swallows the terminator. -/
theorem detect_open (h : OpenUnit s) : (scpiParserDetectProgramMessageUnit s).rest = [] ∧
    (scpiParserDetectProgramMessageUnit s).termination = .none := by
  have hbody := unitBody_open h
  cases detect_end s with
  | nl _ _ lt =>
    rw [hbody] at lt
    exact absurd lt (Nat.not_lt_zero _)
  | semicolon _ _ lt =>
    rw [hbody] at lt
    exact absurd lt (Nat.not_lt_zero _)
  | invalid _ _ _ _ eq =>
    rw [hbody] at eq
    cases eq
  | eos term _ rest => exact ⟨rest, term⟩

/-- Any other unit leaves the newline at the end of the text, or is ended by it. -/
theorem detect_closed (h : ¬OpenUnit s) (hs : s.getLast? = some 10) :
    (scpiParserDetectProgramMessageUnit s).rest.getLast? = some 10 ∨
      (scpiParserDetectProgramMessageUnit s).rest = [] ∧
        (scpiParserDetectProgramMessageUnit s).termination = .nl := by
  have hbody := (keeps_unitBody h).newline hs
  cases detect_end s with
  | nl term suffix _ =>
    by_cases hrest : (scpiParserDetectProgramMessageUnit s).rest = []
    · exact .inr ⟨hrest, term⟩
    · exact .inl ((keeps_of_suffix suffix hrest).newline hbody)
  | semicolon _ keeps _ => exact .inl (keeps.newline hbody)
  | invalid _ _ c ne eq =>
    rw [eq] at hbody
    exact .inl ((keeps_cons ne).newline hbody)
  | eos _ eq _ =>
    rw [eq] at hbody
    cases hbody

/-- A unit with no header and no terminator is the end of the text. -/
theorem detect_stop (htype : (scpiParserDetectProgramMessageUnit s).programHeader.type = .unknown)
    (hterm : (scpiParserDetectProgramMessageUnit s).termination = .none) :
    (scpiParserDetectProgramMessageUnit s).rest = [] := by
  cases detect_end s with
  | nl term _ _ =>
    rw [term] at hterm
    cases hterm
  | semicolon term _ _ =>
    rw [term] at hterm
    cases hterm
  | invalid _ type _ _ _ =>
    rw [type] at htype
    cases htype
  | eos _ _ rest => exact rest

/-! ## The units of a text -/

/-- The program message units of a text; a newline ends a message. -/
def unitFramer : Framer Byte where
  rest s := (scpiParserDetectProgramMessageUnit s).rest
  ends s := (scpiParserDetectProgramMessageUnit s).termination = .nl
  rest_suffix := detect_suffix
  rest_lt _ := detect_progress

/-- The texts that the units of a text start in. -/
def units (s : Text) : List Text := unitFramer.starts s

/-- The text behind the last unit that a newline ends. -/
def unterminated (s : Text) : Text := unitFramer.unfinished [] (units s)

/-- In a text that ends in a newline nothing is left unterminated but what an open block takes. -/
theorem unterminated_eq_nil_iff (h : s.getLast? = some 10) :
    unterminated s = [] ↔ ∀ u ∈ units s, ¬OpenUnit u := by
  have opens : ∀ s, OpenUnit s → unitFramer.rest s = [] ∧ unitFramer.ends s = false := by
    intro s ho
    obtain ⟨hrest, hterm⟩ := detect_open ho
    exact ⟨hrest, by simp [unitFramer, hterm]⟩
  have closed : ∀ s, ¬OpenUnit s → s.getLast? = some 10 →
      (unitFramer.rest s).getLast? = some 10 ∨
        unitFramer.rest s = [] ∧ unitFramer.ends s = true := by
    intro s ho hs
    obtain hlast | ⟨hrest, hterm⟩ := detect_closed ho hs
    · exact .inl hlast
    · exact .inr ⟨hrest, by simp [unitFramer, hterm]⟩
  exact Framer.unfinished_eq_nil_iff opens closed nofun h []

end XHeepFemu.Scpi
