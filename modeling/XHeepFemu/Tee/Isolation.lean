import XHeepFemu.Lib.Run
import XHeepFemu.Scpi.Buffer
import XHeepFemu.Tee.UartLoop

/-!
# One message after the other

`serve` is TEE_EC_INFER on a message, with the parser behind `SCPI_Input`; what
it hands from one request to the next is the input buffer. `Isolated` says that
a message is parsed, all of it and nothing with it, and leaves the buffer
empty. `requests_isolated_iff` names the messages that do this.
-/

namespace XHeepFemu.Tee

open Lib (AllSteps allSteps_iff allSteps_forall)
open Scpi

variable {κ : Type} (C : Commands κ)

/-- Firmware whose `SCPI_Input` notes what it does. -/
def scpiFirmware (mem : Mem) : Firmware (StateM (List (InputAct κ) × Text)) where
  printf _ _ := pure ()
  scpiInput p len := modify fun st =>
    let (acts, buffer) := Scpi.scpiInput C st.2 (bytesAt mem p len)
    (st.1 ++ acts, buffer)
  scpiFlush := pure ()
  uartPutchar _ := pure ()
  uartGetchar := pure 0
  csrr _ := pure 0
  spin := pure ()

/-- A message as `user_uart_loop` hands it over. -/
structure Request where
  mem : Mem
  ptr : Word
  len : Word
  pos : 0 < len.toNat
  le : len.toNat ≤ 2047
  inRam2 : ram2.Covers ptr.toNat len.toNat

def Request.message (r : Request) : Text := readBytes r.mem r.ptr r.len.toNat

/-- What TEE_EC_INFER does with the buffer left by the requests before it. -/
def serve (buffer : Text) (r : Request) : List (InputAct κ) × Text :=
  ((handlerUserEcall (scpiFirmware C r.mem) teeEcInfer r.ptr r.len).run ([], buffer)).2

/-- The message is parsed, nothing is parsed with it, nothing is left of it, and it does what it
would do alone. -/
structure Isolated (buffer : Text) (r : Request) : Prop where
  kept : ∀ e, .error e ∉ (serve C buffer r).1
  parsed : (chunks (serve C buffer r).1).flatten = r.message ++ crlf
  drained : (serve C buffer r).2 = []
  alone : (serve C buffer r).1 = (serve C [] r).1

/-- What follows the last unit that a newline ends leaves room for the terminator, and no block
in it reaches into the terminator. -/
def Clean (m : Text) : Prop :=
  (unterminated m).length ≤ 2045 ∧ ∀ u ∈ units (unterminated m ++ crlf), ¬OpenUnit u

/-! ## One request -/

theorem serve_eq (buffer : Text) (r : Request) : serve C buffer r =
    ((Scpi.scpiInput C buffer r.message).1 ++
        (Scpi.scpiInput C (Scpi.scpiInput C buffer r.message).2 crlf).1,
      (Scpi.scpiInput C (Scpi.scpiInput C buffer r.message).2 crlf).2) := by
  unfold serve handlerUserEcall ecInfer
  rw [if_pos rfl, if_neg (infer_passes r.pos r.inRam2), if_pos (show r.len > 0 from r.pos)]
  have hcrlf : bytesAt r.mem (.str crlf) 2 = crlf := rfl
  have hmessage : bytesAt r.mem (.user r.ptr) r.len = r.message := rfl
  simp only [scpiFirmware, hcrlf, hmessage, pure_bind, StateT.run_bind, StateT.run_modify]
  rfl

theorem Request.length_message (r : Request) : r.message.length = r.len.toNat :=
  length_readBytes _ _ _

/-- The message goes into an empty buffer, and leaves its unterminated text there. -/
theorem scpiInput_message (r : Request) :
    Scpi.scpiInput C [] r.message = inputUnits C [] (units r.message) := by
  have hlen := r.length_message
  have hpos := r.pos
  have hle := r.le
  apply scpiInput_fits C (List.length_pos_iff.mp (by omega))
  rw [List.length_nil]
  omega

/-- The messages in a text. -/
def messages (m : Text) : List Text := unitFramer.finished [] (units m)

theorem messages_unterminated (m : Text) : (messages m).flatten ++ unterminated m = m :=
  unitFramer.finished_unfinished [] m

theorem length_unterminated (r : Request) : (unterminated r.message).length ≤ 2047 := by
  have h := congrArg List.length (messages_unterminated r.message)
  rw [List.length_append, r.length_message] at h
  have hle := r.le
  omega

theorem serve_room {r : Request} (h : (unterminated r.message).length ≤ 2045) :
    serve C [] r =
      ((messages r.message ++ messages (unterminated r.message ++ crlf)).map (parseChunk C),
        unterminated (unterminated r.message ++ crlf)) := by
  rw [serve_eq, scpiInput_message, List.map_append]
  show (_ ++ (Scpi.scpiInput C (unterminated r.message) crlf).1,
    (Scpi.scpiInput C (unterminated r.message) crlf).2) = _
  rw [scpiInput_fits C (show crlf ≠ [] by decide)
    (show (unterminated r.message).length + 2 ≤ 2047 by omega)]
  rfl

theorem serve_full {r : Request} (h : ¬(unterminated r.message).length ≤ 2045) :
    .error .inputBufferOverrun ∈ (serve C [] r).1 := by
  rw [serve_eq, scpiInput_message]
  show _ ∈ _ ++ (Scpi.scpiInput C (unterminated r.message) crlf).1
  rw [scpiInput_full C (length_unterminated r) (show crlf.length ≤ 2047 by decide)
    (show 2047 < (unterminated r.message).length + 2 by omega)]
  exact List.mem_append_right _ List.mem_cons_self

theorem isolated_iff (r : Request) : Isolated C [] r ↔ Clean r.message := by
  unfold Clean
  by_cases hroom : (unterminated r.message).length ≤ 2045
  · have hserve := serve_room C hroom
    have hsplit := messages_unterminated r.message
    generalize unterminated r.message = t at hroom hserve hsplit ⊢
    have hlast : (t ++ crlf).getLast? = some 10 := by simp [crlf]
    rw [← unterminated_eq_nil_iff hlast]
    refine ⟨fun h => ⟨hroom, ?_⟩, fun h => ⟨fun e he => ?_, ?_, ?_, rfl⟩⟩
    · have hdrained := h.drained
      rwa [hserve] at hdrained
    · rw [hserve] at he
      obtain ⟨m, -, hm⟩ := List.mem_map.mp he
      cases hm
    · have hrest := messages_unterminated (t ++ crlf)
      rw [h.2, List.append_nil] at hrest
      rw [hserve, chunks_map, List.flatten_append, hrest, ← List.append_assoc, hsplit]
    · rw [hserve]
      exact h.2
  · exact ⟨fun h => absurd (serve_full C hroom) (h.kept _), fun h => absurd h.1 hroom⟩

/-- **The requests are isolated** exactly when every message is clean. -/
theorem requests_isolated_iff (rs : List Request) :
    AllSteps (fun buffer r => (serve C buffer r).2) (Isolated C) [] rs ↔
      ∀ r ∈ rs, Clean r.message := by
  have agree : ∀ buffer r, buffer = [] → (Isolated C buffer r ↔ Clean r.message) := by
    rintro _ r rfl
    exact isolated_iff C r
  have keep : ∀ buffer r, buffer = [] → Clean r.message → (serve C buffer r).2 = [] := by
    rintro _ r rfl hclean
    exact ((isolated_iff C r).mpr hclean).drained
  exact (allSteps_iff agree keep rs rfl).trans (allSteps_forall _ rs)

/-- No command at all. -/
def noCommands : Commands Unit := ⟨fun _ => none, fun _ => none⟩

/-- A message at the bottom of the sandbox. -/
def requestOf (m : Text) (h : 0 < m.length ∧ m.length ≤ 2047) : Request where
  mem := fun a => m.getD (a.toNat - 0x78000) 0
  ptr := 0x78000
  len := BitVec.ofNat 32 m.length
  pos := by bv_omega
  le := by bv_omega
  inRam2 := sandbox_bottom.mono (by bv_omega)

/-- `A #16`, which announces six bytes and has none. -/
def openRequest : Request := requestOf [65, 32, 35, 49, 54] (by decide)

/-- `EXT`. -/
def extRequest : Request := requestOf [69, 88, 84] (by decide)

/-- The first message stays in the buffer with its terminator, and the second one is parsed as
part of its block. -/
theorem requests_mix :
    let first := serve noCommands [] openRequest
    let second := serve noCommands first.2 extRequest
    chunks first.1 = [] ∧
      chunks second.1 = [openRequest.message ++ crlf ++ (extRequest.message ++ crlf)] ∧
      ¬AllSteps (fun buffer r => (serve noCommands buffer r).2) (Isolated noCommands) []
        [openRequest, extRequest] := by
  refine ⟨by decide, by decide, fun h => ?_⟩
  exact absurd h.1.drained (by decide)

end XHeepFemu.Tee
