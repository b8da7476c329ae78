import XHeepFemu.Scpi.Copy
import XHeepFemu.Scpi.Parameter

/-!
# SCPI_Parse and SCPI_Input

The upper half of `libscpi/parser.c`: the units of a chunk are executed one
after the other, and the input buffer is cut into chunks at the units that a
newline ends. The command table is a parameter, a callback a function of its
parameters. The buffer is the text up to `position`. `SCPI_Input` returns what
its last call of `SCPI_Parse` does, which no caller looks at.

The loops take fuel, one unit for each unit of the text and one more.
-/

namespace XHeepFemu.Scpi

/-- `scpi_context.cmdlist`: the search for a header, and the callbacks that are not NULL. -/
structure Commands (κ : Type) where
  findCommandHeader : Text → Option κ
  callback : κ → Option (Params → Bool × Params)

/-- What a command line does. -/
inductive ParseAct (κ : Type) where
  | write (text : Text)
  | execute (cmd : κ) (header data : Text)
  | error (e : ScpiError)
  deriving DecidableEq, Repr

variable {κ : Type} (C : Commands κ)

/-- `SCPI_LINE_ENDING`. -/
def scpiLineEnding : Text := [13, 10]

/-- `cmd_prev`: a part of the chunk. -/
structure CmdPrev where
  ptr : Nat
  len : Nat
  deriving DecidableEq, Repr

/-- What the buffer holds there by now. -/
def CmdPrev.text (prev : CmdPrev) (buffer : Text) : Text := (buffer.drop prev.ptr).take prev.len

/-- The path of the previous command, up to its last colon, for a header that has none. -/
def commandPath (prev current : Text) : Text :=
  if current.isEmpty ∨ prev.isEmpty then []
  else if current.head? = some 42 ∨ current.head? = some 58 then []
  else if prev.head? = some 42 then []
  else (prev.reverse.dropWhile (· != 58)).reverse

/-- `buffer` is the chunk up to the current header. The path is moved to its end, over whatever is
there, and the header starts that much earlier. -/
def composeCompoundCommand (buffer : Text) (prev : CmdPrev) (current : Text) : Text × Text :=
  let path := commandPath (prev.text buffer) current
  (buffer.take (buffer.length - path.length) ++ path, path ++ current)

/-- Acts, result, and `first_output`. -/
def processCommand (cmd : κ) (header data : Text) (firstOutput : Bool) :
    List (ParseAct κ) × Bool × Bool :=
  let isQuery := header.getLast? = some 63
  let pre : List (ParseAct κ) := if !firstOutput ∧ isQuery then [.write [59]] else []
  let (ran, c) := match C.callback cmd with
    | some callback => callback (.ofData data)
    | none => (true, .ofData data)
  let called := (C.callback cmd).isSome
  let c := if called ∧ !ran ∧ c.errors.isEmpty then c.push .executionError else c
  let result := ran ∧ c.errors.isEmpty
  let firstOutput := firstOutput && !(called ∧ result ∧ isQuery)
  let left := !c.rest.isEmpty ∧ c.errors.isEmpty
  let c := if left then c.push .parameterNotAllowed else c
  (pre ++ .execute cmd header data :: c.errors.map .error, result ∧ !left, firstOutput)

/-- What `SCPI_Parse` keeps from one unit to the next. -/
structure ParseState where
  /-- The chunk up to the unit, as it is by now. -/
  buffer : Text
  cmdPrev : CmdPrev
  firstOutput : Bool
  result : Bool

def ParseState.init : ParseState := ⟨[], ⟨0, 0⟩, true, true⟩

/-- The unit at the start of `data`. The build keeps no text with an error. -/
def parseUnit (st : ParseState) (data : Text) : List (ParseAct κ) × ParseState :=
  let u := scpiParserDetectProgramMessageUnit data
  let passed := data.take (data.length - u.rest.length)
  if u.programHeader.type = .invalid then
    ([.error .invalidCharacter], { st with buffer := st.buffer ++ passed, result := false })
  else if u.programHeader.len > 0 then
    let start := data.length - u.programHeader.ptr.length
    let (buffer, header) := composeCompoundCommand (st.buffer ++ data.take start) st.cmdPrev
      u.programHeader.text
    let after := buffer ++ passed.drop start
    match C.findCommandHeader header with
    | some cmd =>
      let (acts, result, firstOutput) :=
        processCommand C cmd header u.programData.text st.firstOutput
      let cmdPrev := ⟨buffer.length - (header.length - u.programHeader.text.length), header.length⟩
      (acts, ⟨after, cmdPrev, firstOutput, st.result && result⟩)
    | none => ([.error .undefinedHeader], { st with buffer := after, result := false })
  else ([], { st with buffer := st.buffer ++ passed })

/-- The `while (1)` of `SCPI_Parse`. -/
def parseLoop : Nat → ParseState → Text → List (ParseAct κ) × ParseState
  | 0, st, _ => ([], st)
  | n + 1, st, data =>
    let rest := (scpiParserDetectProgramMessageUnit data).rest
    let (acts, st) := parseUnit C st data
    if rest.length > 0 then
      let (more, st) := parseLoop n st rest
      (acts ++ more, st)
    else (acts, st)

def scpiParse (data : Text) : List (ParseAct κ) × Bool :=
  let (acts, st) := parseLoop C (data.length + 1) .init data
  (acts ++ if !st.firstOutput then [.write scpiLineEnding] else [], st.result)

/-- What a call of `SCPI_Input` does. -/
inductive InputAct (κ : Type) where
  | parse (chunk : Text) (acts : List (ParseAct κ))
  | error (e : ScpiError)
  deriving DecidableEq, Repr

/-- The `while (1)` of `SCPI_Input`, and the buffer it leaves. -/
def inputLoop : Nat → Text → Nat → List (InputAct κ) × Text
  | 0, buffer, _ => ([], buffer)
  | n + 1, buffer, totcmdlen =>
    let data := buffer.drop totcmdlen
    let u := scpiParserDetectProgramMessageUnit data
    let totcmdlen := totcmdlen + (data.length - u.rest.length)
    if u.termination = .nl then
      let chunk := buffer.take totcmdlen
      let (acts, rest) := inputLoop n (buffer.drop totcmdlen) 0
      (.parse chunk (scpiParse C chunk).1 :: acts, rest)
    else if u.programHeader.type = .unknown ∧ u.termination = .none then ([], buffer)
    else if totcmdlen ≥ buffer.length then ([], buffer)
    else inputLoop n buffer totcmdlen

/-- The `len` of the call is the length of the data. -/
def scpiInput (buffer data : Text) : List (InputAct κ) × Text :=
  match inputCopy scpiInputBufferLength (BitVec.ofNat 32 buffer.length)
      (BitVec.ofNat 32 data.length) with
  | .flush => ([.parse buffer (scpiParse C buffer).1], [])
  | .overrun => ([.error .inputBufferOverrun], [])
  | .copy len =>
    let buffer := buffer ++ data.take len
    inputLoop C (buffer.length + 1) buffer 0

end XHeepFemu.Scpi
