import XHeepFemu.Scpi.Dispatch
import XHeepFemu.Tee.InferData
import XHeepFemu.Tee.Session

/-!
# The inference server

`scpi_commands` of both applications' `main.c` and the callbacks behind them,
put together with `uart_scpi`, the parser and the dispatch. A host that sends
images as blocks of 1024 bytes, under any spelling of the header, has the network
run on exactly these images, in order, and gets no error, as far as `uart_getchar`
returns the bytes it sends.
-/

namespace XHeepFemu.Tee

open Lib Scpi

/-! ## The command list -/

inductive AppCommand where
  | inferExample
  | inferData
  | exit
  deriving DecidableEq, Repr

/-- A keyword without number. -/
def keyword (k : Text) (plain : k.all isKeywordChar = true)
    (short : (k.head?.any fun c => !islower c) = true) : PatternNode :=
  ⟨k, false, false, List.all_eq_true.mp plain, short⟩

/-- `NN` -/
def nnWord : PatternNode := keyword [78, 78] rfl rfl

/-- `INFEr` -/
def inferWord : PatternNode := keyword [73, 78, 70, 69, 114] rfl rfl

/-- `EXAMple` -/
def exampleWord : PatternNode := keyword [69, 88, 65, 77, 112, 108, 101] rfl rfl

/-- `DATA` -/
def dataWord : PatternNode := keyword [68, 65, 84, 65] rfl rfl

/-- `EXT` -/
def extWord : PatternNode := keyword [69, 88, 84] rfl rfl

def AppCommand.pattern : AppCommand → Pattern
  | .inferExample => ⟨nnWord, [inferWord, exampleWord], true⟩
  | .inferData => ⟨nnWord, [inferWord, dataWord], true⟩
  | .exit => ⟨extWord, [], false⟩

def appPatterns : List (Pattern × AppCommand) :=
  [AppCommand.inferExample, .inferData, .exit].map fun cmd => (cmd.pattern, cmd)

/-- `"NN:INFEr:EXAMple?"`, `"NN:INFEr:DATA?"` and `"EXT"`. -/
def scpiCommands : List (Text × AppCommand) :=
  [([78, 78, 58, 73, 78, 70, 69, 114, 58, 69, 88, 65, 77, 112, 108, 101, 63], .inferExample),
    ([78, 78, 58, 73, 78, 70, 69, 114, 58, 68, 65, 84, 65, 63], .inferData),
    ([69, 88, 84], .exit)]

/-- What a callback leaves of the parameters. All of them return `SCPI_RES_OK`. -/
def appCallback : AppCommand → Params → Bool × Params
  | .inferData, c => (true, (scpiParamArbitraryBlock true c).2.2)
  | _, c => (true, c)

def appCommands : Commands AppCommand where
  findCommandHeader := findCommandHeader scpiCommands
  callback cmd := some (appCallback cmd)

/-- `Exit` sets `exit_scpi`. -/
def setsExit (cmd : AppCommand) : Bool := cmd == .exit

theorem cmdlist_appPatterns : cmdlist appPatterns = scpiCommands := by decide

theorem appPatterns_unambiguous : Unambiguous appPatterns := by decide

/-! ## Callbacks -/

section Callbacks

variable (network : List (Option Byte) → Int × List Byte) (lenetInputData : List Byte)

/-- `InferExample`. -/
def inferExample : List InferAct :=
  let input := lenetInputData.map some
  let (a, out) := network input
  [.infer input, if a = 0 then .resultArrayInt8 out else .resultText "Error"]

/-- What the callbacks do with the network. -/
def callbackActs : ParseAct AppCommand → List InferAct
  | .execute .inferExample _ _ => inferExample network lenetInputData
  | .execute .inferData _ data => inferData network data
  | _ => []

/-- What the network is used for in a log of the parser. -/
def networkActs (log : List (InputAct AppCommand)) : List InferAct := log.flatMap fun
  | .parse _ acts => acts.flatMap (callbackActs network lenetInputData)
  | .error _ => []

end Callbacks

/-- The errors in a log. -/
def errorsOf {κ : Type} (log : List (InputAct κ)) : List ScpiError := log.flatMap fun
  | .parse _ acts => acts.filterMap fun
    | .error e => some e
    | _ => none
  | .error e => [e]

/-! ## Requests -/

/-- What a host asks for, with the header it uses. -/
inductive AppRequest where
  | sample (h : HeaderOf AppCommand.inferExample.pattern)
  | image (h : HeaderOf AppCommand.inferData.pattern) (data : List Byte)
      (size : data.length = lenetInputDataSize)
  | exit (h : HeaderOf AppCommand.exit.pattern)

namespace AppRequest

def cmd : AppRequest → AppCommand
  | sample _ => .inferExample
  | image _ _ _ => .inferData
  | exit _ => .exit

def header : (r : AppRequest) → HeaderOf r.cmd.pattern
  | sample h => h
  | image h _ _ => h
  | exit h => h

/-- An image goes out as a block of length `1024`. -/
def params : AppRequest → List Datum
  | image _ data _ => [.block [49, 48, 50, 52] data]
  | _ => []

/-- What the network does for a request. -/
def served (network : List (Option Byte) → Int × List Byte) (lenetInputData : List Byte) :
    AppRequest → List InferAct
  | sample _ => inferExample network lenetInputData
  | image _ data _ =>
    [.printf "Read: %d bytes\r\n" (some lenetInputDataSize), .infer (data.map some),
      inferAnswer network (data.map some)]
  | exit _ => []

end AppRequest

theorem keywords_mnemonic (cmd : AppCommand) : ∀ n ∈ cmd.pattern.keywords, IsMnemonic n.keyword := by
  have hwords : ∀ n ∈ [nnWord, inferWord, exampleWord, dataWord, extWord], IsMnemonic n.keyword := by
    intro n hn
    simp only [List.mem_cons, List.not_mem_nil, or_false] at hn
    rcases hn with rfl | rfl | rfl | rfl | rfl <;>
      exact ⟨⟨_, _, rfl, by decide⟩, List.all_eq_true.mp (by decide)⟩
  intro n hn
  refine hwords n ?_
  cases cmd <;>
    · simp only [AppCommand.pattern, Pattern.keywords, List.mem_cons, List.not_mem_nil, or_false] at hn
      rcases hn with rfl | rfl | rfl <;> simp

theorem keywords_plain (cmd : AppCommand) : ∀ n ∈ cmd.pattern.keywords, n.numbered = false := by
  cases cmd <;> decide

/-- An image as it goes out. -/
theorem imageDatum_wellFormed {data : List Byte} (size : data.length = lenetInputDataSize) :
    (Datum.block [49, 48, 50, 52] data).WellFormed :=
  .block (by decide) (List.all_eq_true.mp rfl) (by rw [size]; rfl)

theorem AppRequest.params_wellFormed (r : AppRequest) : ∀ d ∈ r.params, d.WellFormed := by
  intro d hd
  cases r with
  | image h data size =>
    rw [List.mem_singleton.mp hd]
    exact imageDatum_wellFormed size
  | sample h => cases hd
  | exit h => cases hd

/-- The request as a unit of a command line. -/
def AppRequest.unit (r : AppRequest) : CommandUnit where
  header := r.header.header
  params := r.params
  headerOk := r.header.wellFormed (keywords_mnemonic r.cmd)
  paramsOk := r.params_wellFormed

theorem AppRequest.params_length (r : AppRequest) : (dataText r.params).length ≤ 1030 := by
  cases r with
  | image h data size =>
    have hsize : lenetInputDataSize = 1024 := rfl
    have hlen : (dataText [.block [49, 48, 50, 52] data]).length = 6 + data.length := by
      simp [dataText, Datum.text]
      omega
    show (dataText [.block [49, 48, 50, 52] data]).length ≤ 1030
    omega
  | sample h => exact Nat.zero_le _
  | exit h => exact Nat.zero_le _

/-- It fits into the input buffer, with its line end. -/
theorem AppRequest.length_text (r : AppRequest) : (lineText [r.unit]).length ≤ 2045 := by
  have hheader : r.header.header.text.length ≤ 18 := by
    refine Nat.le_trans (r.header.length_text (keywords_plain r.cmd)) ?_
    cases r.cmd <;> decide
  have hunit := r.unit.length_text
  have hparams := r.params_length
  rw [lineText_singleton]
  exact Nat.le_trans hunit (show r.header.header.text.length + 1 + (dataText r.params).length ≤ 2045
    by omega)

/-- A request, and what ends it on the wire. -/
structure Sent where
  request : AppRequest
  terminator : List Byte
  terminated : IsTerminator terminator

def Sent.line (r : Sent) : Line where
  units := [r.request.unit]
  terminator := r.terminator
  nonempty := nofun
  short := r.request.length_text
  terminated := r.terminated

/-! ## One request -/

theorem AppRequest.found (r : AppRequest) :
    appCommands.findCommandHeader r.header.header.text = some r.cmd := by
  show findCommandHeader scpiCommands _ = _
  rw [← cmdlist_appPatterns]
  refine r.header.found appPatterns_unambiguous ?_ (keywords_mnemonic r.cmd)
  cases r.cmd <;> simp [appPatterns]

/-- The callback takes all its parameters, and finds no error. -/
theorem AppRequest.callback (r : AppRequest) :
    ∃ n, appCallback r.cmd (.ofData (dataText r.params)) = (true, ⟨[], n, []⟩) := by
  cases r with
  | sample h => exact ⟨0, rfl⟩
  | exit h => exact ⟨0, rfl⟩
  | image h data size =>
    refine ⟨1, ?_⟩
    have htext : dataText [.block [49, 48, 50, 52] data] =
        (Datum.block [49, 48, 50, 52] data).text ++ [] := by
      simp [dataText]
    have hparse := parseProgramData_text (imageDatum_wellFormed size) .nil
    show (true, (scpiParamArbitraryBlock true (.ofData (dataText [.block _ data]))).2.2) = _
    unfold scpiParamArbitraryBlock
    rw [htext, scpiParameter_first (by simp [Datum.text]), hparse]
    rfl

/-- A callback that takes all parameters without an error. -/
theorem processCommand_done {κ : Type} {C : Commands κ} {cmd : κ} {f : Params → Bool × Params}
    (hcallback : C.callback cmd = some f) (header : Text) {data : Text} {n : Nat}
    (hf : f (.ofData data) = (true, ⟨[], n, []⟩)) :
    processCommand C cmd header data true =
      ([.execute cmd header data], true, !decide (header.getLast? = some 63)) := by
  unfold processCommand
  rw [hcallback]
  simp only [hf]
  simp

/-- What the parser does with a request. -/
def AppRequest.parseActs (r : AppRequest) : List (ParseAct AppCommand) :=
  .execute r.cmd r.header.header.text (dataText r.params) ::
    if r.cmd.pattern.query then [.write scpiLineEnding] else []

theorem AppRequest.runLine (r : AppRequest) :
    Scpi.runLine appCommands [r.unit] = (r.parseActs, true) := by
  obtain ⟨n, hcallback⟩ := r.callback
  have hlast := r.header.last_text (keywords_mnemonic r.cmd)
  have hprocess := processCommand_done
    (show appCommands.callback r.cmd = some (appCallback r.cmd) from rfl) r.header.header.text
    hcallback
  have hunit : runUnit appCommands .init r.unit =
      ([.execute r.cmd r.header.header.text (dataText r.params)],
        ⟨some r.header.header, true, !r.cmd.pattern.query, true⟩) := by
    have hresolve : r.unit.header.resolve none = r.header.header := rfl
    unfold runUnit LineState.init
    simp only [hresolve, r.found]
    rw [show r.unit.params = r.params from rfl, hprocess]
    simp [hlast]
  unfold Scpi.runLine runUnits runUnits
  simp only [hunit, parseActs, Bool.not_not, List.append_nil]
  rfl

variable (network : List (Option Byte) → Int × List Byte) (lenetInputData : List Byte)

/-- The network gets the image, all of it and nothing else. -/
theorem AppRequest.callbackActs (r : AppRequest) :
    r.parseActs.flatMap (Tee.callbackActs network lenetInputData) =
      r.served network lenetInputData := by
  cases r with
  | sample h => rfl
  | exit h => rfl
  | image h data size =>
    have hblock : BlockParam (dataText [.block [49, 48, 50, 52] data]) data := by
      refine ⟨[], 52, [49, 48, 50, 52], [], by simp [dataText, Datum.text], nofun, rfl, rfl,
        List.all_eq_true.mp rfl, ?_⟩
      rw [size]
      rfl
    show inferData network (dataText [.block [49, 48, 50, 52] data]) ++ [] = _
    rw [List.append_nil, inferData_exact network hblock size, size]
    rfl

/-! ## Sessions of requests -/

/-- The requests before the first that exits. -/
def untilExit (rs : List Sent) : List Sent := rs.takeWhile fun r => r.request.cmd != .exit

/-- What a session of requests is for. -/
structure Inferred (rs : List Sent) (st : List (InputAct AppCommand) × Text) : Prop where
  network : networkActs network lenetInputData st.1 =
    (untilExit rs).flatMap fun r => r.request.served network lenetInputData
  errors : errorsOf st.1 = []
  buffer : st.2 = []

theorem Sent.act (r : Sent) : r.line.act appCommands =
    .parse (lineText [r.request.unit] ++ crlf) r.request.parseActs := by
  unfold Line.act
  rw [show r.line.units = [r.request.unit] from rfl, r.request.runLine]

theorem Sent.exits (r : Sent) :
    r.line.exits appCommands setsExit = (r.request.cmd == .exit) := by
  unfold Line.exits
  rw [show r.line.units = [r.request.unit] from rfl, r.request.runLine]
  cases r.request <;> rfl

theorem AppRequest.served_exit {r : AppRequest} (h : r.cmd = .exit) :
    r.served network lenetInputData = [] := by
  cases r with
  | exit _ => rfl
  | sample _ => cases h
  | image _ _ _ => cases h

theorem errorsOf_cons {κ : Type} (a : InputAct κ) (log : List (InputAct κ)) :
    errorsOf (a :: log) = errorsOf [a] ++ errorsOf log := by
  simp [errorsOf]

theorem AppRequest.no_errors (r : AppRequest) (text : Text) :
    errorsOf [.parse text r.parseActs] = [] := by
  cases r <;> rfl

theorem inferred_served (rs : List Sent) : Inferred network lenetInputData rs
    ((served appCommands setsExit (rs.map Sent.line)).map (Line.act appCommands), []) := by
  induction rs with
  | nil => exact ⟨rfl, rfl, rfl⟩
  | cons r rs ih =>
    have hcallback := r.request.callbackActs network lenetInputData
    have herrors := r.request.no_errors (lineText [r.request.unit] ++ crlf)
    have hexits := r.exits
    have hact := r.act
    rw [List.map_cons, served, hexits, List.map_cons, hact]
    by_cases hexit : r.request.cmd = .exit
    · rw [if_pos (beq_iff_eq.mpr hexit)]
      refine ⟨?_, herrors, rfl⟩
      rw [untilExit, List.takeWhile_cons_of_neg (by simp [hexit])]
      show r.request.parseActs.flatMap (callbackActs network lenetInputData) ++ [] = []
      rw [hcallback, AppRequest.served_exit network lenetInputData hexit]
      rfl
    · rw [if_neg (by simpa using hexit)]
      refine ⟨?_, ?_, rfl⟩
      · rw [untilExit, List.takeWhile_cons_of_pos (by simp [hexit])]
        show r.request.parseActs.flatMap (callbackActs network lenetInputData) ++ _ = _ ++ _
        rw [hcallback]
        exact congrArg _ ih.network
      · rw [errorsOf_cons, herrors]
        exact ih.errors

theorem any_exits (rs : List Sent) :
    (rs.map Sent.line).any (Line.exits appCommands setsExit) =
      rs.any fun r => r.request.cmd == .exit := by
  rw [List.any_map]
  exact congrArg rs.any (funext Sent.exits)

theorem Sent.pathsKept (rs : List Sent) :
    ∀ l ∈ rs.map Sent.line, PathsKept appCommands .init l.units := by
  intro l hl
  obtain ⟨r, -, rfl⟩ := List.mem_map.mp hl
  exact ⟨.inl rfl, trivial⟩

/-- **`uart_scpi` runs the network on what the requests say**, in order, up to the exit: on each
image sent, whole and alone, whatever its bytes, whatever the spelling of its header, and
whatever ends it. No request gets an error, and none leaves anything to the next. -/
theorem inference_served (rs : List Sent) (buf : Word) (mem : Mem) {n : Nat}
    (hn : (sessionText (rs.map Sent.line)).length + 2 ≤ n) :
    let B := scpiBehaviour appCommands setsExit
    let exit := rs.any fun r => r.request.cmd == .exit
    ∃ w, uartScpi B buf n (.start mem ([], []) (sessionText (rs.map Sent.line))) =
        (if exit then .ok () w else .error .blocked w) ∧
      Inferred network lenetInputData rs w.scpi := by
  intro B exit
  obtain ⟨hscpi, hexit⟩ := Service.run_session appCommands setsExit (Sent.pathsKept rs)
  rw [any_exits] at hexit
  obtain ⟨w, hrun, hw, -⟩ := uartScpi_ends B buf mem _ hn ⟨hscpi, hexit⟩
  exact ⟨w, hrun, hw ▸ inferred_served network lenetInputData rs⟩

/-- `nn:infe:data?` -/
def dataHeader : HeaderOf AppCommand.inferData.pattern :=
  ⟨false, [110, 110], [[105, 110, 102, 101], [100, 97, 116, 97]],
    .take rfl (.take rfl (.take rfl .nil))⟩

/-- `:EXT` -/
def exitHeader : HeaderOf AppCommand.exit.pattern := ⟨true, [69, 88, 84], [], .take rfl .nil⟩

/-- An image of backslashes, the exit, and an image that comes too late. -/
def escapedSession : List Sent :=
  let image (b : Byte) : AppRequest :=
    .image dataHeader (List.replicate lenetInputDataSize b) List.length_replicate
  [⟨image 92, [13], .inr (.inl rfl)⟩, ⟨.exit exitHeader, [13, 10], .inr (.inr rfl)⟩,
    ⟨image 10, [10], .inl rfl⟩]

theorem inference_served_escaped :
    ∃ w, uartScpi (scpiBehaviour appCommands setsExit) 0
        ((sessionText (escapedSession.map Sent.line)).length + 2)
        (.start (fun _ => 0) ([], []) (sessionText (escapedSession.map Sent.line))) = .ok () w ∧
      networkActs (fun _ => (0, [5, 251])) [] w.scpi.1 =
        [.printf "Read: %d bytes\r\n" (some lenetInputDataSize),
          .infer ((List.replicate lenetInputDataSize 92).map some), .resultArrayInt8 [5, 251]] := by
  obtain ⟨w, hrun, hw⟩ := inference_served (fun _ => (0, [5, 251])) [] escapedSession 0 (fun _ => 0)
    (Nat.le_refl _)
  exact ⟨w, hrun, hw.network⟩

end XHeepFemu.Tee
