import Mathlib.Data.List.Induction
import XHeepFemu.Tee.Service

/-!
# Transport and agreement

Two consequences of the refinement. Messages sent as escaped lines reach
`tee_infer` one by one and unchanged; and on every input the two forms of the
service echo the same bytes and make the same calls of `SCPI_Input`, the last
of them at the exit.
-/

namespace XHeepFemu.Tee

open Lib Scpi
open Lib.Escaping (Partial Fed)

variable {σ : Type} {B : Behaviour σ}

/-- The world in which a receive loop starts, with its input still to arrive. -/
def World.start (mem : Mem) (scpi : σ) (rx : List Byte) : World σ :=
  { rx, mem, modifier := false, exitScpi := false, scpi, echoed := [], calls := [], stores := [],
    infers := [] }

def Service.start (scpi : σ) : Service σ :=
  { part := .empty, scpi, exit := false, echoed := [], calls := [], delivered := [] }

theorem rel_start (buf : Word) (mem : Mem) (scpi : σ) (rx : List Byte) :
    Rel buf (.start mem scpi rx) (.start scpi) :=
  ⟨rfl, rfl, rfl, rfl, rfl, rfl, nofun⟩

/-! ## Messages up to the exit -/

section Messages

variable (B)

/-- The two calls for a message. -/
def handle (scpi : σ) (m : List Byte) : σ × Bool :=
  ((B (B scpi m).1 crlf).1, (B scpi m).2 || (B (B scpi m).1 crlf).2)

/-- One message after the other, until one sets the exit. -/
def handleAll : σ → List (List Byte) → σ × Bool
  | scpi, [] => (scpi, false)
  | scpi, m :: ms =>
    if (handle B scpi m).2 then ((handle B scpi m).1, true) else handleAll (handle B scpi m).1 ms

variable {B}

theorem Service.deliver_handle (s : Service σ) {m : List Byte} (hm : m ≠ []) :
    (s.deliver B m).scpi = (handle B s.scpi m).1 ∧
      (s.deliver B m).exit = (s.exit || (handle B s.scpi m).2) ∧ (s.deliver B m).part = s.part := by
  unfold deliver handle
  rw [if_neg hm]
  exact ⟨rfl, Bool.or_assoc .., rfl⟩

theorem Service.run_handle (cs : List Byte) {s : Service σ} (hexit : s.exit = false) :
    ((s.run B cs).scpi, (s.run B cs).exit) =
      handleAll B s.scpi (lineEscaping.messages lineMax s.part cs) := by
  induction cs generalizing s with
  | nil => simp [Escaping.messages, Escaping.feedAll, handleAll, hexit]
  | cons c cs ih =>
    rw [run_cons]
    cases hfeed : lineEscaping.feed lineMax s.part c with
    | more p =>
      rw [absorb_more hexit hfeed, Escaping.messages, Escaping.feedAll_more hfeed]
      exact ih hexit
    | line m =>
      rw [absorb_line hexit hfeed, Escaping.messages, Escaping.feedAll_line hfeed]
      by_cases hm : m = []
      · rw [deliver, if_pos hm, List.filter_cons_of_neg (by simp [hm])]
        exact ih hexit
      · obtain ⟨hscpi, hdone, hpart⟩ := deliver_handle (B := B)
          { s with echoed := s.echoed ++ echo c, part := .empty } hm
        generalize Service.deliver B _ m = t at hscpi hdone hpart ⊢
        replace hdone : t.exit = (handle B s.scpi m).2 := by
          rw [hdone]
          show (s.exit || (handle B s.scpi m).2) = _
          rw [hexit, Bool.false_or]
        rw [List.filter_cons_of_pos (by simp [hm]), handleAll]
        split
        · rename_i hset
          rw [run_exit B (hdone.trans hset), hscpi, hdone, hset]
        · rename_i hset
          rw [ih (hdone.trans (by simpa using hset)), hscpi, hpart]
          rfl

end Messages

/-! ## Transport -/

theorem Service.deliver_delivered (s : Service σ) (m : List Byte) :
    (s.deliver B m).part = s.part ∧
      (s.deliver B m).delivered = s.delivered ++ [m].filter (!·.isEmpty) := by
  unfold deliver
  split
  · rename_i hm
    simp [hm]
  · rename_i hm
    simp [call, hm]

/-- A service that did not reach the exit delivered the messages of the stream. -/
theorem Service.run_delivered (cs : List Byte) {s : Service σ} (h : (s.run B cs).exit = false) :
    (s.run B cs).part = (lineEscaping.feedAll lineMax s.part cs).2 ∧
      (s.run B cs).delivered = s.delivered ++ lineEscaping.messages lineMax s.part cs := by
  induction cs generalizing s with
  | nil => simp [Escaping.feedAll, Escaping.messages]
  | cons c cs ih =>
    have hexit : s.exit = false := by
      by_contra hset
      rw [Bool.not_eq_false] at hset
      rw [run_exit B hset, hset] at h
      cases h
    rw [run_cons] at h ⊢
    obtain ⟨ihp, ihd⟩ := ih h
    cases hfeed : lineEscaping.feed lineMax s.part c with
    | more p =>
      rw [absorb_more hexit hfeed] at ihp ihd ⊢
      rw [Escaping.messages, Escaping.feedAll_more hfeed]
      exact ⟨ihp, ihd⟩
    | line m =>
      obtain ⟨hp, hd⟩ := deliver_delivered (B := B)
        { s with echoed := s.echoed ++ echo c, part := .empty } m
      rw [absorb_line hexit hfeed] at ihp ihd ⊢
      rw [Escaping.messages, Escaping.feedAll_line hfeed]
      refine ⟨by rw [ihp, hp], ?_⟩
      rw [ihd, hd, hp, List.append_assoc]
      unfold Escaping.messages
      by_cases hm : m = []
      · simp [hm]
      · simp [hm]

/-- What may end a message on the wire. -/
def IsTerminator (t : List Byte) : Prop := t = [10] ∨ t = [13] ∨ t = crlf

/-- A message with its terminator, as the host sends it. -/
def Sendable (p : List Byte × List Byte) : Prop :=
  p.1 ≠ [] ∧ p.1.length ≤ lineMax ∧ IsTerminator p.2

theorem Sendable.frames {p : List Byte × List Byte} (h : Sendable p) :
    p.1 ≠ [] ∧ p.1.length ≤ lineMax ∧ p.2 ≠ [] ∧ ∀ a ∈ p.2, lineEscaping.isEnd a = true := by
  obtain ⟨hne, hlen, ht⟩ := h
  refine ⟨hne, hlen, ?_⟩
  rcases ht with e | e | e <;>
    · rw [e]
      exact ⟨by decide, List.all_eq_true.mp rfl⟩

theorem messages_stream {ms : List (List Byte × List Byte)} (hms : ∀ p ∈ ms, Sendable p) :
    lineEscaping.messages lineMax .empty (lineEscaping.stream ms) = ms.map (·.1) ∧
      (lineEscaping.feedAll lineMax .empty (lineEscaping.stream ms)).2 = .empty := by
  have h : lineEscaping.messages lineMax .empty (lineEscaping.stream ms ++ []) = _ ∧ _ :=
    Escaping.feedAll_stream fun p hp => (hms p hp).frames
  rw [List.append_nil] at h
  refine ⟨h.1.trans ?_, h.2⟩
  simp [Escaping.messages, Escaping.feedAll]

/-- **Round trip of the escaped lines**: where `SCPI_Input` does not set `exit_scpi` on the
messages sent, the loop takes in the whole stream and calls `tee_infer` with exactly these
messages, in order, with `modifier` 0 at each call and at the end; it stores to the first 2047
bytes of its buffer only. -/
theorem user_uart_loop_round_trip (B : Behaviour σ) {buf : Word}
    (hbuf : ram2.Covers buf.toNat 2048) {ms : List (List Byte × List Byte)}
    (hms : ∀ p ∈ ms, Sendable p) (mem : Mem) (scpi : σ)
    (hB : (handleAll B scpi (ms.map (·.1))).2 = false) {n : Nat}
    (hn : (lineEscaping.stream ms).length + 2 ≤ n) :
    ∃ w', userUartLoop B buf 2048 n (.start mem scpi (lineEscaping.stream ms)) =
        .error .blocked w' ∧
      w'.exitScpi = false ∧ w'.rx = [] ∧ w'.infers = ms.map (fun p => (p.1, false)) ∧
      w'.modifier = false ∧ ∀ a ∈ w'.stores, ∃ k ≤ 2046, a = buf + BitVec.ofNat 32 k := by
  obtain ⟨w', hrun, hrel, hinfers, hrx⟩ := userUartLoop_refines (B := B) hbuf
    (rel_start buf mem scpi (lineEscaping.stream ms)) rfl rfl hn
  have hstream : (World.start mem scpi (lineEscaping.stream ms)).rx = lineEscaping.stream ms := rfl
  have hstart : (Service.start scpi).part = Partial.empty := rfl
  obtain ⟨hsent, hidle⟩ := messages_stream hms
  rw [hstream] at hrun hrel hinfers hrx
  have hexit : ((Service.start scpi).run B (lineEscaping.stream ms)).exit = false := by
    have h := Service.run_handle (B := B) (s := .start scpi) (lineEscaping.stream ms) rfl
    rw [hstart, hsent] at h
    exact (congrArg Prod.snd h).trans hB
  obtain ⟨hpart, hdeliv⟩ := Service.run_delivered _ hexit
  refine ⟨w', ?_, hrel.exit.trans hexit, hrx hexit, ?_, ?_, fun a ha => ?_⟩
  · rw [hrun, stopOf, hexit]
    rfl
  · rw [hinfers, hdeliv, hstart, hsent, List.map_append, List.map_map]
    rfl
  · rw [hrel.modifier, hpart, hstart, hidle]
    rfl
  · obtain ⟨k, hk, e⟩ := hrel.stores a ha
    unfold lineMax at hk
    exact ⟨k, by omega, e⟩

/-- The message "A\n" goes out as three symbols and an end. -/
theorem user_uart_loop_round_trip_one :
    ∃ w', userUartLoop (fun st _ => (st, false)) 0x78000 2048 6
        (.start (fun _ => 0) () (lineEscaping.stream [([65, 10], [13])])) = .error .blocked w' ∧
      w'.infers = [([65, 10], false)] ∧ w'.modifier = false := by
  have hsendable : ∀ p ∈ [(([65, 10], [13]) : List Byte × List Byte)], Sendable p := by
    intro p hp
    obtain rfl := List.mem_singleton.mp hp
    exact ⟨by decide, by decide, .inr (.inl rfl)⟩
  have hfuel : (lineEscaping.stream [([65, 10], [13])]).length + 2 ≤ 6 := by decide
  obtain ⟨w', hrun, _, _, hinfers, hmodifier, _⟩ := user_uart_loop_round_trip
    (fun st _ => (st, false)) sandbox_bottom hsendable (fun _ => 0) () rfl hfuel
  exact ⟨w', hrun, hinfers, hmodifier⟩

/-! ## Agreement -/

/-- The state behind `SCPI_Input` after some calls, and whether one of them set `exit_scpi`. -/
def afterCalls (B : Behaviour σ) (scpi : σ) (calls : List (List Byte)) : σ × Bool :=
  calls.foldl (fun p data => ((B p.1 data).1, p.2 || (B p.1 data).2)) (scpi, false)

theorem afterCalls_append_one (B : Behaviour σ) (scpi : σ) (calls : List (List Byte))
    (data : List Byte) : afterCalls B scpi (calls ++ [data]) =
      ((B (afterCalls B scpi calls).1 data).1,
        (afterCalls B scpi calls).2 || (B (afterCalls B scpi calls).1 data).2) := by
  simp [afterCalls]

theorem afterCalls_take (B : Behaviour σ) (scpi : σ) {calls : List (List Byte)} {k : Nat}
    (h : (afterCalls B scpi calls).2 = false) : (afterCalls B scpi (calls.take k)).2 = false := by
  have split : calls = calls.take k ++ calls.drop k := (List.take_append_drop k calls).symm
  generalize calls.take k = before at split ⊢
  generalize calls.drop k = rest at split
  subst split
  induction rest using List.reverseRecOn with
  | nil => simpa using h
  | append_singleton rest data ih =>
    rw [← List.append_assoc, afterCalls_append_one, Bool.or_eq_false_iff] at h
    exact ih h.1

/-- The calls stop at the exit: the call that sets `exit_scpi` is the last one, or it carries
a message and only the line end of that message follows. -/
def StopsAtExit (B : Behaviour σ) (scpi : σ) (calls : List (List Byte)) : Prop :=
  ∀ k, k < calls.length → (afterCalls B scpi (calls.take (k + 1))).2 = true →
    k + 1 = calls.length ∨ (k % 2 = 0 ∧ calls.drop (k + 1) = [crlf])

/-- The service calls `SCPI_Input` in pairs, and the exit is the verdict of the calls made. -/
structure CallsOk (B : Behaviour σ) (scpi : σ) (s : Service σ) : Prop where
  state : afterCalls B scpi s.calls = (s.scpi, s.exit)
  even : s.calls.length % 2 = 0
  stops : StopsAtExit B scpi s.calls

theorem callsOk_deliver {scpi : σ} {s : Service σ} (h : CallsOk B scpi s) (hexit : s.exit = false)
    (m : List Byte) : CallsOk B scpi (s.deliver B m) := by
  unfold Service.deliver
  split
  · exact h
  · have hstate := h.state
    have heven := h.even
    refine ⟨?_, ?_, ?_⟩
    · simp only [Service.call, afterCalls_append_one, hstate]
    · simp only [Service.call, List.length_append, List.length_singleton]
      omega
    · intro k hk hset
      simp only [Service.call, List.append_assoc, List.singleton_append, List.length_append,
        List.length_cons, List.length_nil] at hk hset ⊢
      rcases Nat.lt_trichotomy k s.calls.length with hlt | heq | hgt
      · -- no earlier call set the exit
        rw [List.take_append_of_le_length (by omega),
          afterCalls_take B scpi (by rw [hstate]; exact hexit)] at hset
        cases hset
      · refine .inr ⟨by omega, ?_⟩
        rw [heq, List.drop_append]
        simp
      · exact .inl (by omega)

theorem callsOk_run {scpi : σ} {s : Service σ} (h : CallsOk B scpi s) (cs : List Byte) :
    CallsOk B scpi (s.run B cs) := by
  induction cs generalizing s with
  | nil => exact h
  | cons c cs ih =>
    refine ih ?_
    cases hexit : s.exit with
    | true => rwa [Service.absorb, if_pos hexit]
    | false =>
      cases hfeed : lineEscaping.feed lineMax s.part c with
      | more p =>
        rw [Service.absorb_more hexit hfeed]
        exact ⟨h.state, h.even, h.stops⟩
      | line m =>
        rw [Service.absorb_line hexit hfeed]
        exact callsOk_deliver (s := { s with echoed := s.echoed ++ echo c, part := .empty })
          ⟨h.state, h.even, h.stops⟩ hexit m

/-- The last world of a run. -/
def lastWorld {α : Type} : EStateM.Result Stop (World σ) α → World σ
  | .ok _ w => w
  | .error _ w => w

theorem lastWorld_user (B : Behaviour σ) {buf : Word} (hbuf : ram2.Covers buf.toNat 2048)
    (mem : Mem) (scpi : σ) {input : List Byte} {n : Nat} (hn : input.length + 2 ≤ n) :
    Rel buf (lastWorld (userUartLoop B buf 2048 n (.start mem scpi input)))
      ((Service.start scpi).run B input) := by
  obtain ⟨w, hrun, hrel, _, _⟩ := userUartLoop_refines (B := B) hbuf
    (rel_start buf mem scpi input) rfl rfl hn
  rw [hrun]
  exact hrel

theorem lastWorld_mono (B : Behaviour σ) (buf : Word) (mem : Mem) (scpi : σ) {input : List Byte}
    {n : Nat} (hn : input.length + 2 ≤ n) :
    Rel buf (lastWorld (uartScpi B buf n (.start mem scpi input)))
      ((Service.start scpi).run B input) := by
  obtain ⟨w, hrun, hrel⟩ := uartScpi_refines (B := B) (rel_start buf mem scpi input) rfl hn
  rw [hrun]
  split
  · exact hrel
  · exact hrel

/-- **The two services agree** on every input and every behaviour of `SCPI_Input`: the same
echo and the same calls, which stop at the exit. -/
theorem services_agree (B : Behaviour σ) {buf : Word} (hbuf : ram2.Covers buf.toNat 2048)
    (buf' : Word) (mem mem' : Mem) (scpi : σ) {input : List Byte} {n n' : Nat}
    (hn : input.length + 2 ≤ n) (hn' : input.length + 2 ≤ n') :
    let user := lastWorld (userUartLoop B buf 2048 n (.start mem scpi input))
    let mono := lastWorld (uartScpi B buf' n' (.start mem' scpi input))
    user.echoed = mono.echoed ∧ user.calls = mono.calls ∧ user.exitScpi = mono.exitScpi ∧
      StopsAtExit B scpi user.calls := by
  intro user mono
  have hu := lastWorld_user B hbuf mem scpi hn
  have hm := lastWorld_mono B buf' mem' scpi hn'
  have hstart : CallsOk B scpi (Service.start scpi) :=
    ⟨rfl, rfl, fun k hk => absurd hk (Nat.not_lt_zero k)⟩
  refine ⟨hu.echoed.trans hm.echoed.symm, hu.calls.trans hm.calls.symm,
    hu.exit.trans hm.exit.symm, ?_⟩
  rw [hu.calls]
  exact (callsOk_run hstart input).stops

/-- A parser that takes a line end as the exit. -/
def exitOnNewline : Behaviour Unit := fun st data => (st, data.contains 10)

/-- "EXT" with a line end of its own, sent escaped. -/
def exitMessage : List Byte := [69, 88, 84, 92, 10, 10]

theorem services_agree_exit :
    (lastWorld (userUartLoop exitOnNewline 0x78000 2048 8 (.start (fun _ => 0) () exitMessage))).calls =
      (lastWorld (uartScpi exitOnNewline 0 8 (.start (fun _ => 0) () exitMessage))).calls :=
  have hfuel : exitMessage.length + 2 ≤ 8 := by decide
  (services_agree exitOnNewline sandbox_bottom 0 (fun _ => 0) (fun _ => 0) () hfuel hfuel).2.1

/-- The message itself sets `exit_scpi`, and both services still make the call for its line
end: "no call after the exit" fails for both. -/
theorem services_call_after_exit :
    ∃ calls, (afterCalls exitOnNewline () (calls.take 1)).2 = true ∧ calls.drop 1 = [crlf] ∧
      (lastWorld (userUartLoop exitOnNewline 0x78000 2048 8
        (.start (fun _ => 0) () exitMessage))).calls = calls ∧
      (lastWorld (uartScpi exitOnNewline 0 8 (.start (fun _ => 0) () exitMessage))).calls =
        calls := by
  have hfuel : exitMessage.length + 2 ≤ 8 := by decide
  have hu := lastWorld_user exitOnNewline sandbox_bottom (fun _ => 0) () hfuel
  have hm := lastWorld_mono exitOnNewline 0 (fun _ => 0) () hfuel
  have hcalls : ((Service.start ()).run exitOnNewline exitMessage).calls =
      [[69, 88, 84, 10], crlf] := by decide
  exact ⟨[[69, 88, 84, 10], crlf], by decide, by decide, hu.calls.trans hcalls,
    hm.calls.trans hcalls⟩

end XHeepFemu.Tee
