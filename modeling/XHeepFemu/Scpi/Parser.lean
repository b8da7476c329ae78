import XHeepFemu.Scpi.Lexer

/-!
# Program message units

The parsing half of `libscpi/parser.c`: one parameter, all parameters of a
command, and one program message unit (header, parameters, terminator). A
`ProgramMessageUnit` is `scpi_parser_state_t` together with the text behind the
unit.
-/

namespace XHeepFemu.Scpi

/-- The tokenizers tried on a parameter, in order, until one returns a length. -/
def parseOneOf : List (Text → Lexed) → Text → Lexed
  | [], s => ⟨s, invalidateToken s, 0⟩
  | [f], s => f s
  | f :: fs, s => if (f s).result ≠ 0 then f s else parseOneOf fs (f s).rest

/-- A decimal number and its suffix. White space without a suffix behind it is passed over,
but belongs to neither length. -/
def lexDecimalWithSuffix (s : Text) : Lexed :=
  let d := scpiLexDecimalNumericProgramData s
  if d.result ≠ 0 then
    let w := scpiLexWhiteSpace d.rest
    let x := scpiLexSuffixProgramData w.rest
    if x.result > 0 then
      let len := d.token.len + (w.result + x.result)
      ⟨x.rest, ⟨.decimalNumericProgramDataWithSuffix, d.token.ptr, len⟩, len⟩
    else ⟨x.rest, d.token, d.result⟩
  else d

/-- The tokenizers of a parameter. -/
def parameterLexers : List (Text → Lexed) :=
  [scpiLexNondecimalNumericData, scpiLexCharacterProgramData, lexDecimalWithSuffix,
    scpiLexStringProgramData, scpiLexArbitraryBlockProgramData, scpiLexProgramExpression]

def scpiParserParseProgramData (s : Text) : Lexed :=
  let w := scpiLexWhiteSpace s
  let t := parseOneOf parameterLexers w.rest
  let v := scpiLexWhiteSpace t.rest
  ⟨v.rest, t.token, t.result + (w.result + v.result)⟩

/-- The loop of `scpiParser_parseAllProgramData`; `ptr` and `len` are those of its token. -/
def parseAllLoop (ptr : Text) : Nat → Text → Int → Int → Lexed × Int
  | 0, s, len, paramCount => (⟨s, ⟨.allProgramData, ptr, len⟩, len⟩, paramCount)
  | n + 1, s, len, paramCount =>
    let p := scpiParserParseProgramData s
    if p.token.type ≠ .unknown then
      let len := len + p.result
      let comma := scpiLexComma p.rest
      if comma.result ≠ 0 then parseAllLoop ptr n comma.rest (len + comma.result) (paramCount + 1)
      else (⟨comma.rest, ⟨.allProgramData, ptr, len⟩, len⟩, paramCount + 1)
    else (⟨p.rest, ⟨.unknown, ptr, 0⟩, 0⟩, -1)

/-- All parameters, and their number. The length starts at `-1 + 1`. -/
def scpiParserParseAllProgramData (s : Text) : Lexed × Int :=
  parseAllLoop s (s.length + 1) s (-1 + 1) 0

inductive Termination where
  | none
  | nl
  | semicolon
  deriving DecidableEq, Repr

structure ProgramMessageUnit where
  programHeader : Token
  programData : Token
  numberOfParameters : Int
  termination : Termination
  rest : Text

/-- Header and parameters, up to the terminator. -/
def unitBody (buffer : Text) : Token × (Lexed × Int) :=
  let h := scpiLexProgramHeader (scpiLexWhiteSpace buffer).rest
  let w := scpiLexWhiteSpace h.rest
  if h.result ≥ 0 then
    if w.result > 0 then (h.token, scpiParserParseAllProgramData w.rest)
    else (h.token, ⟨w.rest, invalidateToken w.rest, 0⟩, 0)
  else (invalidateToken buffer, ⟨h.rest, invalidateToken buffer, 0⟩, 0)

def terminationOf (type : TokenType) : Termination :=
  if type = .semicolon then .semicolon else if type = .nl then .nl else .none

/-- The unit at the start of a buffer. -/
def scpiParserDetectProgramMessageUnit (buffer : Text) : ProgramMessageUnit :=
  let (header, data, count) := unitBody buffer
  let nl := scpiLexNewLine data.rest
  let t := if nl.result = 0 then scpiLexSemicolon nl.rest else nl
  match t.rest with
  | _ :: rest =>
    if t.result = 0 then
      -- nothing ends the unit here: one character is an invalid header
      ⟨⟨.invalid, header.ptr, 1⟩, invalidateToken buffer, count, terminationOf t.token.type, rest⟩
    else ⟨header, data.token, count, terminationOf t.token.type, t.rest⟩
  | [] => ⟨header, data.token, count, terminationOf t.token.type, t.rest⟩

end XHeepFemu.Scpi
