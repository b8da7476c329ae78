import XHeepFemu.Scpi.Input
import XHeepFemu.Scpi.Units

/-!
# The input buffer

`SCPI_Parse` executes the units of its chunk, `parseUnits`, and `SCPI_Input`
parses the messages in its buffer, up to the last unit that a newline ends; what
is behind it stays in the buffer. The loops of the source do this on every text:
their fuel suffices.
-/

namespace XHeepFemu.Scpi

open Lib (Framer)

variable {κ : Type} (C : Commands κ)

/-! ## SCPI_Parse -/

/-- The units of a chunk one after the other. -/
def parseUnits : ParseState → List Text → List (ParseAct κ) × ParseState
  | st, [] => ([], st)
  | st, s :: ss =>
    let (acts, st) := parseUnit C st s
    let (more, st) := parseUnits st ss
    (acts ++ more, st)

theorem parseUnits_cons (st : ParseState) (s : Text) (ss : List Text) :
    parseUnits C st (s :: ss) =
      ((parseUnit C st s).1 ++ (parseUnits C (parseUnit C st s).2 ss).1,
        (parseUnits C (parseUnit C st s).2 ss).2) := by
  rw [parseUnits]

theorem parseLoop_units {n : Nat} (st : ParseState) {s : Text} (hs : s ≠ []) (hn : s.length ≤ n) :
    parseLoop C n st s = parseUnits C st (units s) := by
  induction n generalizing st s with
  | zero => exact absurd (List.length_eq_zero_iff.mp (Nat.le_zero.mp hn)) hs
  | succ n ih =>
    have hlt := detect_progress hs
    rw [units, Framer.starts_cons hs]
    unfold parseLoop parseUnits
    simp only
    split
    · rename_i hpos
      rw [ih _ (List.length_pos_iff.mp hpos) (Nat.le_of_lt_succ (Nat.lt_of_lt_of_le hlt hn))]
      rfl
    · rename_i hpos
      have hrest : unitFramer.rest s = [] := List.length_eq_zero_iff.mp (Nat.eq_zero_of_not_pos hpos)
      rw [hrest, Framer.starts_nil]
      simp only [parseUnits, List.append_nil]

theorem scpiParse_units (data : Text) : scpiParse C data =
    let (acts, st) := parseUnits C .init (units data)
    (acts ++ if !st.firstOutput then [.write scpiLineEnding] else [], st.result) := by
  unfold scpiParse
  rcases eq_or_ne data [] with rfl | hdata
  · rw [units, Framer.starts_nil]
    rfl
  · rw [parseLoop_units C _ hdata (Nat.le_succ _)]

/-! ## SCPI_Input -/

def parseChunk (chunk : Text) : InputAct κ := .parse chunk (scpiParse C chunk).1

/-- What is done with the messages of a buffer whose first part `acc` has been looked at. -/
def inputUnits (acc : Text) (ss : List Text) : List (InputAct κ) × Text :=
  ((unitFramer.finished acc ss).map (parseChunk C), unitFramer.unfinished acc ss)

/-- One iteration of the loop: the unit is left in the buffer, unless a newline ends it. -/
theorem inputLoop_step {tot : Nat} {buffer s : Text} (n : Nat) (hs : buffer.drop tot = s) :
    inputLoop C (n + 1) buffer tot =
      if unitFramer.ends s then
        (parseChunk C (buffer.take tot ++ unitFramer.front s) ::
          (inputLoop C n (unitFramer.rest s) 0).1, (inputLoop C n (unitFramer.rest s) 0).2)
      else if unitFramer.rest s = [] then ([], buffer)
      else inputLoop C n buffer (tot + (s.length - (unitFramer.rest s).length)) := by
  have hlen : s.length = buffer.length - tot := by rw [← hs, List.length_drop]
  have htake := unitFramer.take_add_front hs
  have hdrop := unitFramer.drop_add_front hs
  have hends : unitFramer.ends s = decide ((scpiParserDetectProgramMessageUnit s).termination = .nl) :=
    rfl
  have hrest : (scpiParserDetectProgramMessageUnit s).rest = unitFramer.rest s := rfl
  rw [inputLoop]
  simp only [hs, hrest, htake, hdrop, hends, decide_eq_true_eq]
  by_cases hterm : (scpiParserDetectProgramMessageUnit s).termination = .nl
  · rw [if_pos hterm, if_pos hterm]
    rfl
  · rw [if_neg hterm, if_neg hterm]
    have hle := (unitFramer.rest_suffix s).length_le
    by_cases hnil : unitFramer.rest s = []
    · rw [hnil, if_pos rfl, List.length_nil]
      split
      · rfl
      · rw [if_pos (by omega)]
    · have hpos := List.length_pos_iff.mpr hnil
      rw [if_neg hnil, if_neg fun hstop => hnil (detect_stop hstop.1 hstop.2), if_neg (by omega)]

/-- `SCPI_Input` works through its buffer message by message. -/
theorem inputLoop_units {n tot : Nat} {buffer : Text} (htot : tot ≤ buffer.length)
    (hn : buffer.length - tot < n) :
    inputLoop C n buffer tot = inputUnits C (buffer.take tot) (units (buffer.drop tot)) := by
  induction n generalizing buffer tot with
  | zero => omega
  | succ n ih =>
    generalize hs : buffer.drop tot = s
    have hlen : s.length = buffer.length - tot := by rw [← hs, List.length_drop]
    rw [inputLoop_step C n hs]
    rcases eq_or_ne s [] with rfl | hne
    · have htake : buffer.take tot = buffer := List.take_of_length_le (by simp at hlen; omega)
      rw [htake, units, Framer.starts_nil]
      rfl
    · have hlt := unitFramer.rest_lt s hne
      have hle := (unitFramer.rest_suffix s).length_le
      have htake := unitFramer.take_add_front hs
      have hdrop := unitFramer.drop_add_front hs
      rw [units, Framer.starts_cons hne]
      unfold inputUnits Framer.finished Framer.unfinished
      split
      · rw [ih (Nat.zero_le _) (by omega)]
        rfl
      · split
        · rename_i hnil
          have hall : buffer.take tot ++ unitFramer.front s = buffer := by
            rw [← htake, hnil, List.take_of_length_le]
            rw [List.length_nil]
            omega
          rw [hnil, Framer.starts_nil, hall]
          rfl
        · rw [ih (by omega) (by omega), htake, hdrop]
          rfl

/-- The texts that are parsed. -/
def chunks (acts : List (InputAct κ)) : List Text := acts.filterMap fun
  | .parse chunk _ => some chunk
  | .error _ => none

theorem chunks_map (ms : List Text) : chunks (ms.map (parseChunk C)) = ms := by
  induction ms with
  | nil => rfl
  | cons m ms ih => exact congrArg (m :: ·) ih

theorem scpiInput_fits {buffer data : Text} (hdata : data ≠ [])
    (h : buffer.length + data.length ≤ 2047) :
    scpiInput C buffer data = inputUnits C [] (units (buffer ++ data)) := by
  have hpos := List.length_pos_iff.mpr hdata
  unfold scpiInput
  rw [inputCopy_nat (by omega) (by omega), if_neg (by omega), if_neg (by omega)]
  simp only [List.take_length]
  rw [inputLoop_units C (Nat.zero_le _) (by omega)]
  rfl

theorem scpiInput_full {buffer data : Text} (hbuffer : buffer.length ≤ 2047)
    (hdata : data.length ≤ 2047) (h : 2047 < buffer.length + data.length) :
    scpiInput C buffer data = ([.error .inputBufferOverrun], []) := by
  unfold scpiInput
  rw [inputCopy_nat hbuffer hdata, if_neg (by omega), if_pos h]

end XHeepFemu.Scpi
