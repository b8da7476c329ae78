import XHeepFemu.Scpi.ParamValue
import XHeepFemu.Tee.Inference

/-!
# The answers of the inference server

What the callbacks and the parser give to `interface->write`; what `printf` sends
on the same UART is not part of it. Every request before the exit is answered by
one line, and a host that reads the parameters of that line gets the outputs of the
network back, byte for byte, or the word that the network failed.
-/

namespace XHeepFemu.Tee

open Lib Scpi

/-! ## What is written -/

/-- The signed value of a byte. -/
def toInt8 (val : Byte) : BitVec 32 := val.toBitVec.signExtend 32

def scpiResultInt8 (o : Output) (val : Byte) : Output := scpiResultInt32 o (toInt8 val)

/-- With `SCPI_FORMAT_ASCII`. -/
def scpiResultArrayInt8 (o : Output) (array : List Byte) : Output :=
  array.foldl scpiResultInt8 o

/-- The characters of a literal. -/
def literal (s : String) : Text := s.toList.map fun c => UInt8.ofNat c.toNat

def resultOf (o : Output) : InferAct → Output
  | .resultArrayInt8 out => scpiResultArrayInt8 o out
  | .resultText text => scpiResultText o (literal text)
  | _ => o

section Replies

variable (network : List (Option Byte) → Int × List Byte) (lenetInputData : List Byte)

/-- What one step of the parser writes; a command starts with `Output.empty`. -/
def actReply : ParseAct AppCommand → Text
  | .execute cmd header data =>
    ((callbackActs network lenetInputData (.execute cmd header data)).foldl resultOf .empty).text
  | .write data => data
  | .error _ => []

def replyText (log : List (InputAct AppCommand)) : Text := log.flatMap fun
  | .parse _ acts => acts.flatMap (actReply network lenetInputData)
  | .error _ => []

end Replies

/-! ## Results of the network -/

/-- The results in an answer. -/
def resultsOf : InferAct → List Result
  | .resultArrayInt8 out => out.map fun b => .int32 (toInt8 b)
  | .resultText text => [.text (literal text)]
  | _ => []

theorem writeAll_append (o : Output) (rs ss : List Result) :
    writeAll o (rs ++ ss) = (writeAll o rs).bind fun o => writeAll o ss := by
  induction rs generalizing o with
  | nil => rfl
  | cons r rs ih =>
    rw [List.cons_append, writeAll, writeAll]
    cases r.write o with
    | none => rfl
    | some o' => exact ih o'

theorem scpiResultArrayInt8_writes (o : Output) (out : List Byte) :
    writeAll o (out.map fun b => .int32 (toInt8 b)) = some (scpiResultArrayInt8 o out) := by
  induction out generalizing o with
  | nil => rfl
  | cons b out ih => exact ih (scpiResultInt8 o b)

theorem resultOf_writes (o : Output) (act : InferAct) :
    writeAll o (resultsOf act) = some (resultOf o act) := by
  cases act with
  | resultArrayInt8 out => exact scpiResultArrayInt8_writes o out
  | resultText text => rfl
  | _ => rfl

theorem foldl_resultOf (o : Output) (acts : List InferAct) :
    writeAll o (acts.flatMap resultsOf) = some (acts.foldl resultOf o) := by
  induction acts generalizing o with
  | nil => rfl
  | cons act acts ih =>
    rw [List.flatMap_cons, writeAll_append, resultOf_writes]
    exact ih (resultOf o act)

/-! ## One request -/

section Requests

variable (network : List (Option Byte) → Int × List Byte) (lenetInputData : List Byte)

/-- The outputs for an input, or the word that there are none. -/
def resultsFor (input : List (Option Byte)) (failure : String) : List Result :=
  if (network input).1 = 0 then (network input).2.map fun b => .int32 (toInt8 b)
  else [.text (literal failure)]

def AppRequest.results : AppRequest → List Result
  | sample _ => resultsFor network (lenetInputData.map some) "Error"
  | image _ data _ => resultsFor network (data.map some) "Inference error"
  | exit _ => []

theorem AppRequest.served_results (r : AppRequest) :
    (r.served network lenetInputData).flatMap resultsOf = r.results network lenetInputData := by
  cases r with
  | sample h =>
    simp only [served, inferExample, results, resultsFor, List.flatMap_cons, List.flatMap_nil]
    split <;> simp [resultsOf]
  | image h data size =>
    simp only [served, inferAnswer, results, resultsFor, List.flatMap_cons, List.flatMap_nil]
    split <;> simp [resultsOf]
  | exit h => rfl

theorem AppRequest.results_cases (r : AppRequest) {result : Result}
    (h : result ∈ r.results network lenetInputData) :
    (∃ b, result = .int32 (toInt8 b)) ∨ result = .text (literal "Error") ∨
      result = .text (literal "Inference error") := by
  have hfor : ∀ {input failure}, result ∈ resultsFor network input failure →
      (∃ b, result = .int32 (toInt8 b)) ∨ result = .text (literal failure) := by
    intro input failure h
    unfold resultsFor at h
    split at h
    · obtain ⟨b, -, rfl⟩ := List.mem_map.mp h
      exact .inl ⟨b, rfl⟩
    · exact .inr (List.mem_singleton.mp h)
  cases r with
  | sample _ => exact (hfor h).imp_right .inl
  | image _ _ _ => exact (hfor h).imp_right .inr
  | exit _ => cases h

theorem AppRequest.results_wellFormed (r : AppRequest) :
    ∀ result ∈ r.results network lenetInputData, result.WellFormed := by
  intro result h
  rcases r.results_cases network lenetInputData h with ⟨b, rfl⟩ | rfl | rfl
  · exact .int32
  · exact Result.wellFormed_text rfl
  · exact Result.wellFormed_text rfl

theorem AppRequest.results_short (r : AppRequest) :
    ∀ data, .text data ∈ r.results network lenetInputData → (doubleQuotes 34 data).length < 16 := by
  intro data h
  rcases r.results_cases network lenetInputData h with ⟨b, hb⟩ | htext | htext
  · cases hb
  · rw [Result.text.inj htext]
    decide
  · rw [Result.text.inj htext]
    decide

/-- What a request is answered. -/
def AppRequest.reply (r : AppRequest) : Text :=
  dataText ((r.results network lenetInputData).map Result.datum)

theorem AppRequest.reply_oneLine (r : AppRequest) : 10 ∉ r.reply network lenetInputData := by
  refine intercalate_free (by decide) fun s hs => ?_
  obtain ⟨d, hd, rfl⟩ := List.mem_map.mp hs
  obtain ⟨result, hresult, rfl⟩ := List.mem_map.mp hd
  rcases r.results_cases network lenetInputData hresult with ⟨b, rfl⟩ | rfl | rfl
  · have hdigits : ∀ c ∈ numeral 10 (magnitude (toInt8 b)), c ≠ 10 := by
      intro c hc
      obtain ⟨d, hd, rfl⟩ := numeral_digit (by decide) (by decide) hc
      have h : ∀ d : Fin 10, digitChar d ≠ 10 := by decide
      exact h ⟨d, hd⟩
    show 10 ∉ (if (toInt8 b).msb then [45] else []) ++ numeral 10 (magnitude (toInt8 b))
    rw [List.mem_append, not_or]
    refine ⟨?_, fun h => hdigits 10 h rfl⟩
    split <;> simp
  · decide
  · decide

/-- The parser answers a request with its reply and a line end; nothing answers an exit. -/
theorem AppRequest.parseActs_reply (r : AppRequest) :
    r.parseActs.flatMap (actReply network lenetInputData) =
      if r.cmd = .exit then [] else r.reply network lenetInputData ++ scpiLineEnding := by
  have hexecute : actReply network lenetInputData
      (.execute r.cmd r.header.header.text (dataText r.params)) = r.reply network lenetInputData := by
    have hcallback : Tee.callbackActs network lenetInputData
        (.execute r.cmd r.header.header.text (dataText r.params)) = r.served network lenetInputData := by
      rw [← r.callbackActs network lenetInputData, parseActs, List.flatMap_cons]
      split <;> exact (List.append_nil _).symm
    have hwrites := foldl_resultOf .empty (r.served network lenetInputData)
    obtain ⟨o, hwrite, htext, -⟩ := writeAll_text (r.results_wellFormed network lenetInputData)
    rw [r.served_results, hwrite] at hwrites
    rw [actReply, hcallback, ← Option.some.inj hwrites]
    exact htext
  rw [parseActs, List.flatMap_cons, hexecute]
  cases r with
  | exit h => rfl
  | sample h => exact congrArg _ (List.append_nil _)
  | image h data size => exact congrArg _ (List.append_nil _)

/-! ## Sessions of requests -/

/-- A line that answers a request: its parameters are the outputs of the network. -/
structure Answers (r : Sent) (reply : Text) : Prop where
  oneLine : 10 ∉ reply
  read : readAll ((r.request.results network lenetInputData).map (Result.kind 16)) (.ofData reply) =
    some ((r.request.results network lenetInputData).map Result.value,
      ⟨[], (r.request.results network lenetInputData).length, []⟩)

theorem Sent.answers (r : Sent) :
    Answers network lenetInputData r (r.request.reply network lenetInputData) :=
  ⟨r.request.reply_oneLine network lenetInputData,
    readAll_results (r.request.results_wellFormed network lenetInputData)
      (r.request.results_short network lenetInputData)⟩

/-- The replies of a session, one for each request before the exit. -/
theorem replyText_served (rs : List Sent) :
    replyText network lenetInputData
        ((served appCommands setsExit (rs.map Sent.line)).map (Line.act appCommands)) =
      ((untilExit rs).map fun r => r.request.reply network lenetInputData).flatMap
        (· ++ scpiLineEnding) := by
  induction rs with
  | nil => rfl
  | cons r rs ih =>
    have hreply := r.request.parseActs_reply network lenetInputData
    rw [List.map_cons, served, r.exits, List.map_cons, r.act, untilExit]
    by_cases hexit : r.request.cmd = .exit
    · rw [if_pos (beq_iff_eq.mpr hexit), List.takeWhile_cons_of_neg (by simp [hexit])]
      rw [if_pos hexit] at hreply
      show r.request.parseActs.flatMap (actReply network lenetInputData) ++ [] = []
      rw [hreply]
      rfl
    · rw [if_neg (by simpa using hexit), List.takeWhile_cons_of_pos (by simp [hexit])]
      rw [if_neg hexit] at hreply
      show r.request.parseActs.flatMap (actReply network lenetInputData) ++ _ = _ ++ _
      rw [hreply]
      exact congrArg _ ih

/-- **Every request before the exit is answered by one line**, in the order of the requests, and
`interface->write` gets nothing else; who reads the parameters of the line gets the outputs of the
network on that input, each byte as its signed value, or the word that it failed. -/
theorem inference_answered (rs : List Sent) (buf : Word) (mem : Mem) {n : Nat}
    (hn : (sessionText (rs.map Sent.line)).length + 2 ≤ n) :
    let B := scpiBehaviour appCommands setsExit
    let exit := rs.any fun r => r.request.cmd == .exit
    ∃ replies, List.Forall₂ (Answers network lenetInputData) (untilExit rs) replies ∧
      ∃ w, uartScpi B buf n (.start mem ([], []) (sessionText (rs.map Sent.line))) =
          (if exit then .ok () w else .error .blocked w) ∧
        replyText network lenetInputData w.scpi.1 = replies.flatMap (· ++ scpiLineEnding) := by
  intro B exit
  refine ⟨(untilExit rs).map fun r => r.request.reply network lenetInputData, ?_, ?_⟩
  · rw [List.forall₂_map_right_iff, List.forall₂_same]
    exact fun r _ => r.answers network lenetInputData
  obtain ⟨hscpi, hexit⟩ := Service.run_session appCommands setsExit (Sent.pathsKept rs)
  rw [any_exits] at hexit
  obtain ⟨w, hrun, hw, -⟩ := uartScpi_ends B buf mem _ hn ⟨hscpi, hexit⟩
  exact ⟨w, hrun, hw ▸ replyText_served network lenetInputData rs⟩

end Requests

theorem inference_answered_escaped :
    ∃ replies, List.Forall₂ (Answers (fun _ => (0, [5, 251])) []) (untilExit escapedSession) replies ∧
      ∃ w, uartScpi (scpiBehaviour appCommands setsExit) 0
          ((sessionText (escapedSession.map Sent.line)).length + 2)
          (.start (fun _ => 0) ([], []) (sessionText (escapedSession.map Sent.line))) = .ok () w ∧
        replyText (fun _ => (0, [5, 251])) [] w.scpi.1 = replies.flatMap (· ++ scpiLineEnding) := by
  exact inference_answered (fun _ => (0, [5, 251])) [] escapedSession 0 (fun _ => 0) (Nat.le_refl _)

end XHeepFemu.Tee
