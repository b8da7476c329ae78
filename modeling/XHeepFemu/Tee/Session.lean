import XHeepFemu.Scpi.CommandLine
import XHeepFemu.Tee.Transport

/-!
# Sessions

A host sends command lines over the UART, each escaped and with a terminator.
Each line and its line end are one chunk for the parser, so `uart_scpi` executes
the lines as what they say, one by one, up to and with the first that sets
`exit_scpi`. All of this is about the bytes that `uart_getchar` returns.
-/

namespace XHeepFemu.Tee

open Lib Scpi
open Lib.Escaping (Partial Fed)

/-! ## Command lines -/

variable {κ : Type} (C : Commands κ) (isExit : κ → Bool)

/-- The callback of such a command sets `exit_scpi`. -/
def parseExits : ParseAct κ → Bool
  | .execute cmd _ _ => isExit cmd
  | _ => false

def inputExits : InputAct κ → Bool
  | .parse _ acts => acts.any (parseExits isExit)
  | .error _ => false

/-- `SCPI_Input` with a command list; the state is what it did so far, and its buffer. -/
def scpiBehaviour : Behaviour (List (InputAct κ) × Text) := fun st data =>
  let (acts, buffer) := Scpi.scpiInput C st.2 data
  ((st.1 ++ acts, buffer), acts.any (inputExits isExit))

/-- A line with its terminator. It leaves room in the input buffer for its line end. -/
structure Line where
  units : List CommandUnit
  terminator : List Byte
  nonempty : units ≠ []
  short : (lineText units).length ≤ 2045
  terminated : IsTerminator terminator

/-- What goes over the wire. -/
def sessionText (ls : List Line) : List Byte :=
  lineEscaping.stream (ls.map fun l => (lineText l.units, l.terminator))

/-- What the parser does with a line. -/
def Line.act (l : Line) : InputAct κ := .parse (lineText l.units ++ crlf) (runLine C l.units).1

def Line.exits (l : Line) : Bool := (runLine C l.units).1.any (parseExits isExit)

/-- The lines up to and with the first that sets `exit_scpi`. -/
def served : List Line → List Line
  | [] => []
  | l :: ls => l :: if l.exits C isExit then [] else served ls

/-- The line stays in the buffer until its line end comes. -/
theorem handle_line (l : Line) (hpaths : PathsKept C .init l.units) (log : List (InputAct κ)) :
    handle (scpiBehaviour C isExit) (log, []) (lineText l.units) =
      ((log ++ [l.act C], []), l.exits C isExit) := by
  have hne := lineText_ne_nil l.nonempty
  have hshort := l.short
  obtain ⟨hnone, hkept⟩ := frames_unterminated l.nonempty []
  obtain ⟨hone, hleft⟩ := frames_line l.nonempty [] []
  have hfirst : Scpi.scpiInput C [] (lineText l.units) = ([], lineText l.units) := by
    rw [scpiInput_fits C hne (by rw [List.length_nil]; omega), List.nil_append, inputUnits, hnone,
      hkept]
    rfl
  have hsecond : Scpi.scpiInput C (lineText l.units) crlf = ([l.act C], []) := by
    have hparse : parseChunk C (lineText l.units ++ crlf) = l.act C := by
      have hline : scpiParse C (lineText l.units ++ crlf) = runLine C l.units :=
        scpiParse_line C l.nonempty hpaths (.crlf [])
      rw [parseChunk, hline]
      rfl
    rw [scpiInput_fits C (by decide) (show (lineText l.units).length + 2 ≤ 2047 by omega),
      inputUnits, crlf, hone, hleft, units, Framer.starts_nil]
    exact congrArg (fun a => ([a], [])) hparse
  have hexits : inputExits isExit (l.act C) = l.exits C isExit := rfl
  unfold handle scpiBehaviour
  simp only [hfirst, hsecond, List.append_nil, List.any_cons, List.any_nil, hexits, Bool.or_false,
    Bool.false_or]

theorem handleAll_lines {ls : List Line} (hpaths : ∀ l ∈ ls, PathsKept C .init l.units)
    (log : List (InputAct κ)) :
    handleAll (scpiBehaviour C isExit) (log, []) (ls.map fun l => lineText l.units) =
      ((log ++ (served C isExit ls).map (Line.act C), []), ls.any (Line.exits C isExit)) := by
  induction ls generalizing log with
  | nil => simp [handleAll, served]
  | cons l ls ih =>
    have ih := ih fun l hl => hpaths l (.tail _ hl)
    rw [List.map_cons, handleAll, handle_line C isExit l (hpaths l (.head _)), served, List.any_cons]
    cases hexits : l.exits C isExit with
    | true => simp
    | false => simp [ih]

/-! ## The service -/

theorem Line.sendable (l : Line) : Sendable (lineText l.units, l.terminator) := by
  have hne := lineText_ne_nil l.nonempty
  have hshort := l.short
  exact ⟨hne, show (lineText l.units).length ≤ 2047 by omega, l.terminated⟩

theorem Service.run_session {ls : List Line} (hpaths : ∀ l ∈ ls, PathsKept C .init l.units) :
    let s := (Service.start (([], []) : List (InputAct κ) × Text)).run (scpiBehaviour C isExit)
      (sessionText ls)
    s.scpi = ((served C isExit ls).map (Line.act C), []) ∧ s.exit = ls.any (Line.exits C isExit) := by
  intro s
  have hsent : ∀ p ∈ ls.map fun l => (lineText l.units, l.terminator), Sendable p := by
    intro p hp
    obtain ⟨l, -, rfl⟩ := List.mem_map.mp hp
    exact l.sendable
  have hmessages := (messages_stream hsent).1
  rw [List.map_map] at hmessages
  have hrun : (s.scpi, s.exit) = _ := Service.run_handle (B := scpiBehaviour C isExit) (sessionText ls)
    (s := Service.start (([], []) : List (InputAct κ) × Text)) rfl
  rw [show (Service.start (([], []) : List (InputAct κ) × Text)).part = .empty from rfl, sessionText,
    hmessages] at hrun
  exact Prod.mk.inj (hrun.trans (handleAll_lines C isExit hpaths []))

theorem uartScpi_ends {σ : Type} (B : Behaviour σ) (buf : Word) (mem : Mem) (scpi : σ)
    {input : List Byte} {n : Nat} (hn : input.length + 2 ≤ n) {scpi' : σ} {exit : Bool}
    (h : let s := (Service.start scpi).run B input; s.scpi = scpi' ∧ s.exit = exit) :
    ∃ w, uartScpi B buf n (.start mem scpi input) =
      (if exit then .ok () w else .error .blocked w) ∧ w.scpi = scpi' ∧ w.exitScpi = exit := by
  obtain ⟨hscpi, hexit⟩ := h
  obtain ⟨w, hrun, hrel⟩ := uartScpi_refines (B := B) (rel_start buf mem scpi input) rfl hn
  refine ⟨w, ?_, hrel.scpi.trans hscpi, hrel.exit.trans hexit⟩
  rw [hrun]
  exact congrArg (fun e : Bool => if e then EStateM.Result.ok () w else .error Stop.blocked w) hexit

/-- **`uart_scpi` executes a session line by line**, up to and with the first line that exits,
whatever its memory holds, and leaves nothing in the input buffer. -/
theorem session_executed {ls : List Line} (hpaths : ∀ l ∈ ls, PathsKept C .init l.units) (buf : Word)
    (mem : Mem) {n : Nat} (hn : (sessionText ls).length + 2 ≤ n) :
    let B := scpiBehaviour C isExit
    let exit := ls.any (Line.exits C isExit)
    let log := (served C isExit ls).map (Line.act C)
    ∃ w, uartScpi B buf n (.start mem ([], []) (sessionText ls)) =
      (if exit then .ok () w else .error .blocked w) ∧ w.scpi = (log, []) ∧ w.exitScpi = exit :=
  uartScpi_ends (scpiBehaviour C isExit) buf mem _ hn (Service.run_session C isExit hpaths)

/-- `A:B;C 1` exits, so the second line stays unread. -/
theorem session_executed_exit :
    let B := scpiBehaviour anyCommands fun cmd => cmd == [65, 58, 67]
    let ls : List Line := [⟨[pathUnit, valueUnit], [13], nofun, by decide, .inr (.inl rfl)⟩,
      ⟨[valueUnit], [10], nofun, by decide, .inl rfl⟩]
    ∃ w, uartScpi B 0 14 (.start (fun _ => 0) ([], []) (sessionText ls)) = .ok () w ∧
      w.scpi = ([.parse [65, 58, 66, 59, 67, 32, 49, 13, 10]
        [.execute [65, 58, 66] [65, 58, 66] [], .execute [65, 58, 67] [65, 58, 67] [49]]], []) := by
  intro B ls
  have hpaths : ∀ l ∈ ls, PathsKept anyCommands .init l.units := by
    intro l hl
    rcases List.mem_pair.mp hl with rfl | rfl
    · exact ⟨.inl rfl, .inl rfl, trivial⟩
    · exact ⟨.inl rfl, trivial⟩
  obtain ⟨w, hrun, hw, -⟩ := session_executed anyCommands (fun cmd => cmd == [65, 58, 67]) hpaths
    0 (fun _ => 0) (show (sessionText ls).length + 2 ≤ 14 by decide)
  exact ⟨w, hrun, hw⟩

end XHeepFemu.Tee
