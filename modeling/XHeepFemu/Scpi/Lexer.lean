import XHeepFemu.Hw.MemMap

/-!
# The SCPI lexer

The tokenizers of `libscpi/lexer.c`. The state of a lexer is the text from
`pos` to the end of the buffer, so that `iseos` is emptiness and a length is a
difference of two texts; a token points at the text it starts in. Characters
are bytes, unsigned as the build makes them. The `while` loops with more than
one step in their body take fuel, always the length of the text.
-/

namespace XHeepFemu.Scpi

abbrev Text := List Byte

inductive TokenType where
  | comma
  | semicolon
  | nl
  | hexnum
  | octnum
  | binnum
  | programMnemonic
  | decimalNumericProgramData
  | decimalNumericProgramDataWithSuffix
  | suffixProgramData
  | arbitraryBlockProgramData
  | singleQuoteProgramData
  | doubleQuoteProgramData
  | programExpression
  | compoundProgramHeader
  | incompleteCompoundProgramHeader
  | commonProgramHeader
  | incompleteCommonProgramHeader
  | compoundQueryProgramHeader
  | commonQueryProgramHeader
  | ws
  | allProgramData
  | invalid
  | unknown
  deriving DecidableEq, Repr

structure Token where
  type : TokenType
  ptr : Text
  len : Int
  deriving DecidableEq, Repr

/-- The text of a token. -/
def Token.text (t : Token) : Text := t.ptr.take t.len.toNat

def invalidateToken (ptr : Text) : Token := ⟨.unknown, ptr, 0⟩

/-- What a tokenizer leaves: the text behind it, its token, and its return value. -/
structure Lexed where
  rest : Text
  token : Token
  result : Int
  deriving DecidableEq, Repr

/-! ## Characters -/

def isws (c : Byte) : Bool := c == 32 || c == 9
def isbdigit (c : Byte) : Bool := c == 48 || c == 49
def isqdigit (c : Byte) : Bool := 48 ≤ c && c ≤ 55
def isdigit (c : Byte) : Bool := 48 ≤ c && c ≤ 57
def isalpha (c : Byte) : Bool := (65 ≤ c && c ≤ 90) || (97 ≤ c && c ≤ 122)
def isalnum (c : Byte) : Bool := isalpha c || isdigit c
def isxdigit (c : Byte) : Bool := isdigit c || (65 ≤ c && c ≤ 70) || (97 ≤ c && c ≤ 102)
def isplusmn (c : Byte) : Bool := c == 43 || c == 45
def isH (c : Byte) : Bool := c == 104 || c == 72
def isB (c : Byte) : Bool := c == 98 || c == 66
def isQ (c : Byte) : Bool := c == 113 || c == 81
def isE (c : Byte) : Bool := c == 101 || c == 69
def isNonzeroDigit (c : Byte) : Bool := isdigit c && c != 48
def isascii7bit (c : Byte) : Bool := c ≤ 127

/-- Printable, but none of `"#'();`. -/
def isProgramExpression (c : Byte) : Bool :=
  (32 ≤ c && c ≤ 126) && c != 34 && c != 35 && c != 39 && c != 40 && c != 41 && c != 59

/-- A letter, digit or underscore. -/
def isMnemonicChar (c : Byte) : Bool := isalnum c || c == 95

/-! ## Skipping -/

/-- At most one character, if `p` holds of it. -/
def skipOne (p : Byte → Bool) : Text → Text × Bool
  | [] => ([], false)
  | c :: s => if p c then (s, true) else (c :: s, false)

/-- All characters of which `p` holds, and their number. -/
def skipMany (p : Byte → Bool) (s : Text) : Text × Nat :=
  (s.dropWhile p, s.length - (s.dropWhile p).length)

def skipWs (s : Text) : Text × Nat := skipMany isws s
def skipDigit (s : Text) : Text × Bool := skipOne isdigit s
def skipNumbers (s : Text) : Text × Nat := skipMany isdigit s
def skipPlusmn (s : Text) : Text × Bool := skipOne isplusmn s
def skipAlpha (s : Text) : Text × Nat := skipMany isalpha s
def skipChr (chr : Byte) (s : Text) : Text × Bool := skipOne (· == chr) s
def skipSlashDot (s : Text) : Text × Bool := skipOne (fun c => c == 47 || c == 46) s
def skipStar (s : Text) : Text × Bool := skipChr 42 s
def skipColon (s : Text) : Text × Bool := skipChr 58 s
def skipHexNum (s : Text) : Text × Nat := skipMany isxdigit s
def skipOctNum (s : Text) : Text × Nat := skipMany isqdigit s
def skipBinNum (s : Text) : Text × Nat := skipMany isbdigit s

/-- `[a-z][a-z0-9_]*`. -/
def skipMnemonicText : Text → Text
  | [] => []
  | c :: s => if isalpha c then s.dropWhile isMnemonicChar else c :: s

/-- Negative at the end of the text, where the mnemonic may be incomplete. -/
def skipProgramMnemonic (s : Text) : Text × Int :=
  let rest := skipMnemonicText s
  let n : Int := s.length - rest.length
  if rest.isEmpty then (rest, -n) else (rest, n)

/-! ## Headers -/

def scpiLexWhiteSpace (s : Text) : Lexed :=
  let rest := (skipWs s).1
  let len : Int := s.length - rest.length
  ⟨rest, ⟨if len > 0 then .ws else .unknown, s, len⟩, len⟩

def skipCommonProgramHeader (s : Text) : Text × Int :=
  match skipStar s with
  | (s, true) =>
    let (s, res) := skipProgramMnemonic s
    if res = 0 ∧ s.isEmpty then (s, -1)
    else if res ≤ -1 then (s, 1)
    else if res ≥ 1 then (s, 1)
    else (s, -1)
  | (s, false) => (s, 0)

/-- The `while (skipColon(state))` of a compound header. -/
def skipCompoundTail : Nat → Text → Text × Int
  | 0, s => (s, 1)
  | n + 1, s =>
    match skipColon s with
    | (s, true) =>
      let (s, res) := skipProgramMnemonic s
      if res ≤ -1 then (s, 1)
      else if res = 0 then (s, -1)
      else skipCompoundTail n s
    | (s, false) => (s, 1)

def skipCompoundProgramHeader (s : Text) : Text × Int :=
  let (s, firstColon) := skipColon s
  let (s, res) := skipProgramMnemonic s
  if res ≥ 1 then skipCompoundTail s.length s
  else if res ≤ -1 then (s, 1)
  else if firstColon then (s, -1)
  else (s, 0)

/-- A header that was recognised, with its question mark if there is one. -/
def queryOr (s : Text) (query command : TokenType) : Text × TokenType :=
  match skipChr 63 s with
  | (s, true) => (s, query)
  | (s, false) => (s, command)

def programHeaderType (s : Text) : Text × TokenType :=
  let (s₁, res) := skipCommonProgramHeader s
  if res ≥ 1 then queryOr s₁ .commonQueryProgramHeader .commonProgramHeader
  else if res ≤ -1 then (s₁, .incompleteCommonProgramHeader)
  else
    let (s₂, res) := skipCompoundProgramHeader s₁
    if res ≥ 1 then queryOr s₂ .compoundQueryProgramHeader .compoundProgramHeader
    else if res ≤ -1 then (s₂, .incompleteCompoundProgramHeader)
    else (s₂, .unknown)

def scpiLexProgramHeader (s : Text) : Lexed :=
  let (rest, type) := programHeaderType s
  if type ≠ .unknown then
    let len : Int := s.length - rest.length
    ⟨rest, ⟨type, s, len⟩, len⟩
  else ⟨s, ⟨.unknown, s, 0⟩, 0⟩

/-! ## Program data -/

/-- A token that is what was skipped, if anything was. -/
def lexedOf (type : TokenType) (s rest : Text) : Lexed :=
  let len : Int := s.length - rest.length
  if len > 0 then ⟨rest, ⟨type, s, len⟩, len⟩ else ⟨s, ⟨.unknown, s, 0⟩, 0⟩

def scpiLexCharacterProgramData (s : Text) : Lexed :=
  lexedOf .programMnemonic s (skipMnemonicText s)

def skipMantisa (s : Text) : Text × Nat :=
  let (s, _) := skipPlusmn s
  let (s, someNumbers) := skipNumbers s
  match skipChr 46 s with
  | (s, true) =>
    let (s, more) := skipNumbers s
    (s, someNumbers + more)
  | (s, false) => (s, someNumbers)

def skipExponent : Text → Text × Nat
  | [] => ([], 0)
  | c :: s =>
    if isE c then
      let (s, _) := skipWs s
      let (s, _) := skipPlusmn s
      skipNumbers s
    else (c :: s, 0)

def scpiLexDecimalNumericProgramData (s : Text) : Lexed :=
  let (rollback, someNumbers) := skipMantisa s
  if someNumbers ≠ 0 then
    let (s₁, _) := skipWs rollback
    let (s₂, exponent) := skipExponent s₁
    lexedOf .decimalNumericProgramData s (if exponent = 0 then rollback else s₂)
  else lexedOf .decimalNumericProgramData s s

/-- `ALPHA* MINUS? DIGIT?`. -/
def skipSuffixUnit (s : Text) : Text :=
  let (s, _) := skipAlpha s
  let (s, _) := skipChr 45 s
  (skipDigit s).1

/-- The `while (skipSlashDot(state))` of a suffix. -/
def skipSuffixTail : Nat → Text → Text
  | 0, s => s
  | n + 1, s =>
    match skipSlashDot s with
    | (s, true) => skipSuffixTail n (skipSuffixUnit s)
    | (s, false) => s

def scpiLexSuffixProgramData (s : Text) : Lexed :=
  let (s₁, _) := skipChr 47 s
  let rest :=
    if (skipAlpha s₁).2 ≠ 0 then
      let s₂ := skipSuffixUnit s₁
      skipSuffixTail s₂.length s₂
    else s₁
  lexedOf .suffixProgramData s rest

def scpiLexNondecimalNumericData (s : Text) : Lexed :=
  let fail : Lexed := ⟨s, ⟨.unknown, s, 0⟩, 0⟩
  -- the token leaves out the two characters of the prefix
  let found (type : TokenType) (digits rest : Text) : Lexed :=
    let len : Int := digits.length - rest.length
    if len ≠ 0 then ⟨rest, ⟨type, digits, len⟩, len + 2⟩ else fail
  match skipChr 35 s with
  | (c :: s₁, true) =>
    if isH c then found .hexnum s₁ (skipHexNum s₁).1
    else if isQ c then found .octnum s₁ (skipOctNum s₁).1
    else if isB c then found .binnum s₁ (skipBinNum s₁).1
    else fail
  | _ => fail

/-- Up to the closing quote; a doubled quote stands for itself. -/
def skipQuoteProgramData (quote : Byte) : Text → Text
  | [] => []
  | c :: s =>
    if isascii7bit c && c != quote then skipQuoteProgramData quote s
    else if c == quote then
      match s with
      | d :: s' => if d == quote then skipQuoteProgramData quote s' else c :: s
      | [] => c :: s
    else c :: s

/-- A quoted string with its quotes, `s` starting behind the first one. -/
def closeQuote (quote : Byte) (s : Text) : Option Text :=
  match skipQuoteProgramData quote s with
  | c :: rest => if c == quote then some rest else none
  | [] => none

def scpiLexStringProgramData (s : Text) : Lexed :=
  match s with
  | [] => lexedOf .unknown s s
  | c :: s₁ =>
    if c == 34 then lexedOf .doubleQuoteProgramData s ((closeQuote 34 s₁).getD s)
    else if c == 39 then lexedOf .singleQuoteProgramData s ((closeQuote 39 s₁).getD s)
    else lexedOf .unknown s s

/-- The digits of a block length: what is missing of them, the number, and the text behind. -/
def lexBlockDigits : Nat → Nat → Text → Nat × Nat × Text
  | 0, n, s => (0, n, s)
  | i + 1, n, [] => (i + 1, n, [])
  | i + 1, n, c :: s =>
    if isdigit c then lexBlockDigits i (n * 10 + (c.toNat - 48)) s else (i + 1, n, c :: s)

def scpiLexArbitraryBlockProgramData (s : Text) : Lexed :=
  let invalid : Lexed := ⟨s, ⟨.unknown, s, 0⟩, 0⟩
  -- an incomplete block takes everything
  let incomplete : Lexed := ⟨[], ⟨.unknown, s, 0⟩, 0⟩
  match skipChr 35 s with
  | (c :: s₁, true) =>
    if isNonzeroDigit c then
      let (missing, arbitraryBlockLength, s₂) := lexBlockDigits (c.toNat - 48) 0 s₁
      if missing = 0 then
        if arbitraryBlockLength ≤ s₂.length then
          ⟨s₂.drop arbitraryBlockLength, ⟨.arbitraryBlockProgramData, s₂, arbitraryBlockLength⟩,
            arbitraryBlockLength + (s.length - s₂.length)⟩
        else incomplete
      else if s₂.isEmpty then incomplete
      else invalid
    else invalid
  | ([], true) => incomplete
  | (_, false) => invalid

def scpiLexProgramExpression (s : Text) : Lexed :=
  match skipChr 40 s with
  | (s₁, true) =>
    match skipChr 41 (s₁.dropWhile isProgramExpression) with
    | (rest, true) => lexedOf .programExpression s rest
    | (_, false) => lexedOf .programExpression s s
  | (_, false) => lexedOf .programExpression s s

/-! ## Separators -/

def scpiLexComma (s : Text) : Lexed := lexedOf .comma s (skipChr 44 s).1

def scpiLexSemicolon (s : Text) : Lexed := lexedOf .semicolon s (skipChr 59 s).1

def scpiLexNewLine (s : Text) : Lexed := lexedOf .nl s (skipChr 10 (skipChr 13 s).1).1

end XHeepFemu.Scpi
