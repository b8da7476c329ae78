import XHeepFemu.Scpi.Block

/-!
# Reading parameters

`SCPI_Parameter` and `SCPI_ParamArbitraryBlock` of `libscpi/parser.c`, on the
part of `scpi_t` they use. The pointers they check for NULL are the addresses
of locals in every call, and are results here.
-/

namespace XHeepFemu.Scpi

inductive ScpiError where
  | invalidCharacter
  | invalidSeparator
  | dataTypeError
  | parameterNotAllowed
  | missingParameter
  | undefinedHeader
  | invalidStringData
  | executionError
  | inputBufferOverrun
  deriving DecidableEq, Repr

def ScpiError.code : ScpiError → Int
  | .invalidCharacter => -101
  | .invalidSeparator => -103
  | .dataTypeError => -104
  | .parameterNotAllowed => -108
  | .missingParameter => -109
  | .undefinedHeader => -113
  | .invalidStringData => -151
  | .executionError => -200
  | .inputBufferOverrun => -363

/-- `param_list.lex_state`, `input_count`, and the errors pushed so far. -/
structure Params where
  rest : Text
  inputCount : Nat
  errors : List ScpiError

/-- The parameters of a command when its callback starts. -/
def Params.ofData (data : Text) : Params := ⟨data, 0, []⟩

def Params.push (c : Params) (e : ScpiError) : Params := { c with errors := c.errors ++ [e] }

/-- The types that `SCPI_Parameter` accepts. -/
def isParameterType : TokenType → Bool
  | .hexnum => true
  | .octnum => true
  | .binnum => true
  | .programMnemonic => true
  | .decimalNumericProgramData => true
  | .decimalNumericProgramDataWithSuffix => true
  | .arbitraryBlockProgramData => true
  | .singleQuoteProgramData => true
  | .doubleQuoteProgramData => true
  | .programExpression => true
  | _ => false

/-- The next parameter, behind its comma; `NULL` is the empty text. -/
def scpiParameter (mandatory : Bool) (c : Params) : Bool × Token × Params :=
  if c.rest.isEmpty then
    if mandatory then (false, invalidateToken [], c.push .missingParameter)
    else (false, ⟨.programMnemonic, [], 0⟩, c)
  else
    let comma := scpiLexComma c.rest
    if c.inputCount ≠ 0 ∧ comma.token.type ≠ .comma then
      (false, invalidateToken [], { c with rest := comma.rest }.push .invalidSeparator)
    else
      let rest := if c.inputCount ≠ 0 then comma.rest else c.rest
      let p := scpiParserParseProgramData rest
      let c := { c with rest := p.rest, inputCount := c.inputCount + 1 }
      if isParameterType p.token.type then (true, p.token, c)
      else (false, invalidateToken [], c.push .invalidStringData)

/-- `*value` and `*len` are written only on success. -/
def scpiParamArbitraryBlock (mandatory : Bool) (c : Params) :
    Bool × Option (Text × Nat) × Params :=
  let (result, param, c) := scpiParameter mandatory c
  if result then
    if param.type = .arbitraryBlockProgramData then (true, some (param.ptr, param.len.toNat), c)
    else (false, none, c.push .dataTypeError)
  else (false, none, c)

/-! ## The block of a command -/

/-- The first parameter is the block `bs`: white space, the header, as many bytes as it says. -/
def BlockParam (data bs : Text) : Prop :=
  ∃ ws d ds rest, data = ws ++ 35 :: d :: (ds ++ (bs ++ rest)) ∧ (∀ c ∈ ws, isws c = true) ∧
    isNonzeroDigit d = true ∧ ds.length = d.toNat - 48 ∧ (∀ c ∈ ds, isdigit c = true) ∧
    number ds = bs.length

theorem blockParam_iff {data bs : Text} : BlockParam data bs ↔
    ∃ n rest, Announces (data.dropWhile isws) n rest ∧ n ≤ rest.length ∧ bs = rest.take n := by
  refine ⟨?_, ?_⟩
  · rintro ⟨ws, d, ds, rest, rfl, hws, hd, hlen, hds, hn⟩
    refine ⟨bs.length, bs ++ rest, ⟨d, ds, ?_, hd, hlen, hds, hn⟩, by simp, by simp⟩
    rw [List.dropWhile_append_of_pos hws, List.dropWhile_cons_of_neg (by decide)]
  · rintro ⟨n, rest, ⟨d, ds, hdata, hd, hlen, hds, hn⟩, hle, rfl⟩
    refine ⟨data.takeWhile isws, d, ds, rest.drop n, ?_, ?_, hd, hlen, hds, ?_⟩
    · rw [List.take_append_drop, ← hdata, List.takeWhile_append_dropWhile]
    · exact List.all_eq_true.mp List.all_takeWhile
    · rw [hn, List.length_take, Nat.min_eq_left hle]

/-- The first parameter of a command has no comma before it. -/
theorem scpiParameter_first {data : Text} (hne : data ≠ []) :
    scpiParameter true (.ofData data) =
      let p := scpiParserParseProgramData data
      if isParameterType p.token.type then (true, p.token, ⟨p.rest, 1, []⟩)
      else (false, invalidateToken [], ⟨p.rest, 1, [.invalidStringData]⟩) := by
  unfold scpiParameter
  rw [if_neg (by simpa [Params.ofData] using hne), if_neg (by simp [Params.ofData])]
  rfl

theorem paramArbitraryBlock_of_block {data bs : Text} (h : BlockParam data bs) :
    ∃ rest c, scpiParamArbitraryBlock true (.ofData data) =
      (true, some (bs ++ rest, bs.length), c) ∧ c.errors = [] := by
  obtain ⟨n, rest, hann, hn, rfl⟩ := blockParam_iff.mp h
  have hne : data ≠ [] := by
    obtain ⟨ws, d, ds, r, rfl, -⟩ := h
    simp
  have htoken := parseProgramData_block hann hn
  refine ⟨rest.drop n, ⟨(scpiParserParseProgramData data).rest, 1, []⟩, ?_, rfl⟩
  unfold scpiParamArbitraryBlock
  rw [scpiParameter_first hne]
  simp only [htoken, isParameterType, if_true, List.take_append_drop, List.length_take,
    Nat.min_eq_left hn, Int.toNat_natCast]

/-- Everything else is an error, and leaves `*value` and `*len` as they are. -/
theorem paramArbitraryBlock_of_not_block {data : Text} (h : ¬∃ bs, BlockParam data bs) :
    ∃ e c, scpiParamArbitraryBlock true (.ofData data) = (false, none, c) ∧ c.errors = [e] := by
  unfold scpiParamArbitraryBlock
  rcases eq_or_ne data [] with rfl | hne
  · exact ⟨.missingParameter, ⟨[], 0, [.missingParameter]⟩, rfl, rfl⟩
  · rw [scpiParameter_first hne]
    have htype : (scpiParserParseProgramData data).token.type ≠ .arbitraryBlockProgramData := by
      intro htype
      obtain ⟨n, rest, hann, hn⟩ := parseProgramData_type htype
      exact h ⟨rest.take n, blockParam_iff.mpr ⟨n, rest, hann, hn, rfl⟩⟩
    simp only
    split
    · exact ⟨.dataTypeError, ⟨_, 1, [.dataTypeError]⟩, rfl, rfl⟩
    · exact ⟨.invalidStringData, ⟨_, 1, [.invalidStringData]⟩, rfl, rfl⟩

end XHeepFemu.Scpi
