import XHeepFemu.Scpi.Buffer
import XHeepFemu.Scpi.Datum

/-!
# Command lines

A command line is a list of units with semicolons between them. `runLine`
executes its units as what they are, headers and parameters: a header is
resolved in the path of the command before it. `SCPI_Parse` does exactly this on
the text of the line, as long as that path is still in the buffer: an undefined
header is put into the path where it stands, over what is before it.
-/

namespace XHeepFemu.Scpi

structure CommandUnit where
  header : Header
  params : List Datum
  headerOk : header.WellFormed
  paramsOk : ∀ d ∈ params, d.WellFormed

def CommandUnit.text (u : CommandUnit) : Text :=
  u.header.text ++ if u.params = [] then [] else 32 :: dataText u.params

theorem CommandUnit.length_text (u : CommandUnit) :
    u.text.length ≤ u.header.text.length + 1 + (dataText u.params).length := by
  unfold text
  split <;> simp <;> omega

def lineText (us : List CommandUnit) : Text := [59].intercalate (us.map CommandUnit.text)

/-! ## Executing a line -/

structure LineState where
  /-- The command before, with its path resolved. -/
  prev : Option Header
  /-- No undefined header was put into its path since. -/
  kept : Bool
  firstOutput : Bool
  result : Bool

def LineState.init : LineState := ⟨none, true, true, true⟩

variable {κ : Type} (C : Commands κ)

def runUnit (st : LineState) (u : CommandUnit) : List (ParseAct κ) × LineState :=
  let header := u.header.resolve st.prev
  match C.findCommandHeader header.text with
  | some cmd =>
    let (acts, result, firstOutput) :=
      processCommand C cmd header.text (dataText u.params) st.firstOutput
    (acts, ⟨some header, true, firstOutput, st.result && result⟩)
  | none =>
    ([.error .undefinedHeader],
      { st with kept := st.kept && decide (header = u.header), result := false })

def runUnits : LineState → List CommandUnit → List (ParseAct κ) × LineState
  | st, [] => ([], st)
  | st, u :: us =>
    let (acts, st) := runUnit C st u
    let (more, st) := runUnits st us
    (acts ++ more, st)

theorem runUnits_cons (st : LineState) (u : CommandUnit) (us : List CommandUnit) :
    runUnits C st (u :: us) =
      ((runUnit C st u).1 ++ (runUnits C (runUnit C st u).2 us).1,
        (runUnits C (runUnit C st u).2 us).2) := by
  rw [runUnits]

def runLine (us : List CommandUnit) : List (ParseAct κ) × Bool :=
  let (acts, st) := runUnits C .init us
  (acts ++ if !st.firstOutput then [.write scpiLineEnding] else [], st.result)

/-- Where the path may be lost, no header is relative to it. -/
def PathsKept : LineState → List CommandUnit → Prop
  | _, [] => True
  | st, u :: us =>
    (st.kept = true ∨ u.header.relative = false) ∧ PathsKept (runUnit C st u).2 us

/-! ## Reading a unit -/

/-- A unit is found at the start of a text, with `rest` behind it. -/
structure Detected (u : CommandUnit) (term : Termination) (data rest : Text)
    (m : ProgramMessageUnit) : Prop where
  start : m.programHeader.ptr = data
  header : m.programHeader.text = u.header.text
  known : m.programHeader.type ≠ .invalid ∧ m.programHeader.type ≠ .unknown
  len : m.programHeader.len > 0
  data : m.programData.text = dataText u.params
  termination : m.termination = term
  rest : m.rest = rest

theorem lexWhiteSpace_space {s : Text} (h : Stops isws s) :
    scpiLexWhiteSpace (32 :: s) = ⟨s, ⟨.ws, 32 :: s, 1⟩, 1⟩ := by
  have hskip : skipWs (32 :: s) = (s, 1) :=
    skipMany_append (s := [32]) (List.all_eq_true.mp rfl) h
  have hlen : ((32 :: s).length : Int) - s.length = 1 := by
    rw [List.length_cons]
    omega
  unfold scpiLexWhiteSpace
  simp only [hskip, hlen]
  rfl

theorem header_noSpace {h : Header} (hwf : h.WellFormed) (rest : Text) : Stops isws (h.text ++ rest) := by
  cases hwf with
  | common hk => exact .cons rfl _
  | @compound colon path query hne hkeys =>
    cases colon with
    | true => exact .cons rfl _
    | false =>
      obtain ⟨k, ks, rfl⟩ := List.exists_cons_of_ne_nil hne
      obtain ⟨e, t, rfl, he⟩ := (hkeys k (List.mem_cons_self ..)).head
      rw [Header.text_compound, intercalate_colon]
      exact .cons (isws_letter he) _

theorem dataText_noSpace {ds : List Datum} (hne : ds ≠ []) (hds : ∀ d ∈ ds, d.WellFormed)
    (rest : Text) : Stops isws (dataText ds ++ rest) := by
  obtain ⟨d, ds, rfl⟩ := List.exists_cons_of_ne_nil hne
  have hd := hds d (List.mem_cons_self ..)
  cases ds with
  | nil =>
    rw [show dataText [d] = d.text by simp [dataText]]
    exact text_head hd rest
  | cons d' ds =>
    rw [show dataText (d :: d' :: ds) ++ rest = d.text ++ 44 :: (dataText (d' :: ds) ++ rest) by
      simp [dataText]]
    exact text_head hd _

theorem UnitStop.headerEnd {rest : Text} (h : UnitStop rest) : HeaderEnd rest :=
  h.dataEnd.stops rfl

theorem unitBody_text (u : CommandUnit) {rest : Text} (hrest : UnitStop rest) :
    ∃ data count, unitBody (u.text ++ rest) =
        (⟨u.header.type, u.text ++ rest, u.header.text.length⟩, data, count) ∧
      data.rest = rest ∧ data.token.text = dataText u.params := by
  have hws := lexWhiteSpace_stops (header_noSpace u.headerOk
    ((if u.params = [] then [] else 32 :: dataText u.params) ++ rest))
  rw [← List.append_assoc] at hws
  unfold unitBody CommandUnit.text
  rw [hws]
  by_cases hparams : u.params = []
  · have hheader := lexProgramHeader_text u.headerOk hrest.headerEnd
    have hspace := lexWhiteSpace_stops (hrest.dataEnd.stops (p := isws) rfl)
    simp only [hparams, if_true, List.append_nil, hheader, hspace]
    refine ⟨⟨rest, invalidateToken rest, 0⟩, 0, ?_, rfl, rfl⟩
    rw [if_pos (by omega), if_neg (by decide)]
  · have hend : HeaderEnd (32 :: (dataText u.params ++ rest)) := .cons rfl _
    have hheader := lexProgramHeader_text u.headerOk hend
    have hspace := lexWhiteSpace_space (dataText_noSpace hparams u.paramsOk rest)
    have hdata := parseAllProgramData_data hparams u.paramsOk hrest
    simp only [if_neg hparams, List.append_assoc, List.cons_append, hheader, hspace, hdata]
    refine ⟨⟨rest, ⟨.allProgramData, dataText u.params ++ rest, (dataText u.params).length⟩,
      (dataText u.params).length⟩, u.params.length, ?_, rfl, by simp [Token.text]⟩
    rw [if_pos (by omega), if_pos (by decide)]

/-- What ends a unit, and what it is called. -/
inductive UnitTail : Text → Termination → Text → Prop where
  | semicolon (rest : Text) : UnitTail (59 :: rest) .semicolon rest
  | crlf (rest : Text) : UnitTail (13 :: 10 :: rest) .nl rest
  | eos : UnitTail [] .none []

theorem detect_text (u : CommandUnit) {tail rest : Text} {term : Termination}
    (h : UnitTail tail term rest) :
    Detected u term (u.text ++ tail) rest
      (scpiParserDetectProgramMessageUnit (u.text ++ tail)) := by
  have hstop : UnitStop tail := by
    cases h with
    | semicolon rest => exact .cons rfl _
    | crlf rest => exact .cons rfl _
    | eos => exact nofun
  obtain ⟨data, count, hbody, hrest, hdata⟩ := unitBody_text u hstop
  have hheader : (⟨u.header.type, u.text ++ tail, u.header.text.length⟩ : Token).text =
      u.header.text := by
    simp [Token.text, CommandUnit.text]
  have hknown : u.header.type ≠ .invalid ∧ u.header.type ≠ .unknown := by
    cases u.header with
    | compound colon path query => cases query <;> exact ⟨nofun, nofun⟩
    | common key query => cases query <;> exact ⟨nofun, nofun⟩
  have hlen : (u.header.text.length : Int) > 0 := by
    have := List.length_pos_iff.mpr (head_text u.headerOk).1
    omega
  unfold scpiParserDetectProgramMessageUnit
  rw [hbody]
  simp only [hrest]
  cases h with
  | semicolon rest =>
    have hnl : scpiLexNewLine (59 :: rest) = ⟨59 :: rest, ⟨.unknown, 59 :: rest, 0⟩, 0⟩ :=
      lexedOf_self .nl (59 :: rest)
    have hsemi : scpiLexSemicolon (59 :: rest) = ⟨rest, ⟨.semicolon, 59 :: rest, 1⟩, 1⟩ :=
      lexedOf_append .semicolon (List.cons_ne_nil 59 []) rest
    simp only [hnl, hsemi, if_true]
    cases rest <;> exact ⟨rfl, hheader, hknown, hlen, hdata, rfl, rfl⟩
  | crlf rest =>
    have hnl : scpiLexNewLine (13 :: 10 :: rest) = ⟨rest, ⟨.nl, 13 :: 10 :: rest, 2⟩, 2⟩ :=
      lexedOf_append .nl (List.cons_ne_nil 13 [10]) rest
    simp only [hnl]
    cases rest <;> exact ⟨rfl, hheader, hknown, hlen, hdata, rfl, rfl⟩
  | eos => exact ⟨rfl, hheader, hknown, hlen, hdata, rfl, rfl⟩

/-! ## Reading a line -/

theorem CmdPrev.text_append {prev : CmdPrev} {buffer : Text}
    (h : prev.ptr + prev.len ≤ buffer.length) (t : Text) :
    prev.text (buffer ++ t) = prev.text buffer := by
  unfold text
  rw [List.drop_append_of_le_length (by omega),
    List.take_append_of_le_length (by rw [List.length_drop]; omega)]

/-- What `SCPI_Parse` keeps for a line. -/
structure LineState.Parsed (st : LineState) (p : ParseState) : Prop where
  firstOutput : p.firstOutput = st.firstOutput
  result : p.result = st.result
  inside : p.cmdPrev.ptr + p.cmdPrev.len ≤ p.buffer.length
  path : st.kept = true → p.cmdPrev.text p.buffer = (st.prev.map Header.text).getD []

theorem LineState.parsed_init : LineState.init.Parsed .init :=
  ⟨rfl, rfl, Nat.le_refl 0, fun _ => rfl⟩

theorem compose_text {st : LineState} {p : ParseState} (hp : st.Parsed p)
    (hst : ∀ h ∈ st.prev, h.WellFormed) {h : Header} (hh : h.WellFormed)
    (hpath : st.kept = true ∨ h.relative = false) :
    ∃ path, composeCompoundCommand p.buffer p.cmdPrev h.text =
        (p.buffer.take (p.buffer.length - path.length) ++ path, (h.resolve st.prev).text) ∧
      path ++ h.text = (h.resolve st.prev).text ∧ path.length ≤ p.buffer.length := by
  have htext : commandPath (p.cmdPrev.text p.buffer) h.text ++ h.text = (h.resolve st.prev).text := by
    cases hroot : h.relative with
    | false => rw [commandPath_relative hroot, Header.resolve_root hroot, List.nil_append]
    | true =>
      rw [hp.path (hpath.resolve_right (by rw [hroot]; exact nofun))]
      exact commandPath_text hst hh
  refine ⟨commandPath (p.cmdPrev.text p.buffer) h.text, ?_, htext, ?_⟩
  · rw [← htext]
    rfl
  · refine Nat.le_trans (length_commandPath_le _ _) ?_
    unfold CmdPrev.text
    rw [List.length_take, List.length_drop]
    omega

section ParseUnit

variable {C} {p : ParseState} {u : CommandUnit} {term : Termination} {data rest buffer header : Text}
  (hm : Detected u term data rest (scpiParserDetectProgramMessageUnit data))
  (hcompose : composeCompoundCommand p.buffer p.cmdPrev u.header.text = (buffer, header))

include hm hcompose

theorem parseUnit_undefined (hfind : C.findCommandHeader header = none) :
    parseUnit C p data = ([.error .undefinedHeader],
      { p with buffer := buffer ++ data.take (data.length - rest.length), result := false }) := by
  unfold parseUnit
  simp only [if_neg hm.known.1, if_pos hm.len, hm.header, hm.start, hm.rest, Nat.sub_self,
    List.take_zero, List.append_nil, List.drop_zero, hcompose, hfind]

theorem parseUnit_found {cmd : κ} (hfind : C.findCommandHeader header = some cmd)
    {acts : List (ParseAct κ)} {result firstOutput : Bool}
    (hrun : processCommand C cmd header (dataText u.params) p.firstOutput =
      (acts, result, firstOutput)) :
    parseUnit C p data = (acts, ⟨buffer ++ data.take (data.length - rest.length),
      ⟨buffer.length - (header.length - u.header.text.length), header.length⟩, firstOutput,
      p.result && result⟩) := by
  unfold parseUnit
  simp only [if_neg hm.known.1, if_pos hm.len, hm.header, hm.data, hm.start, hm.rest, Nat.sub_self,
    List.take_zero, List.append_nil, List.drop_zero, hcompose, hfind, hrun]

end ParseUnit

/-- What `SCPI_Parse` passes over starts with the header. -/
theorem passed_text (u : CommandUnit) {tail rest : Text} {term : Termination}
    (htail : UnitTail tail term rest) :
    ∃ more, (u.text ++ tail).take ((u.text ++ tail).length - rest.length) =
      u.header.text ++ more := by
  obtain ⟨front, rfl⟩ : ∃ front, tail = front ++ rest := by
    cases htail with
    | semicolon => exact ⟨[59], rfl⟩
    | crlf => exact ⟨[13, 10], rfl⟩
    | eos => exact ⟨[], rfl⟩
  rw [← List.append_assoc, List.length_append, Nat.add_sub_cancel, List.take_left]
  unfold CommandUnit.text
  rw [List.append_assoc]
  exact ⟨_, rfl⟩

theorem parseUnit_text {st : LineState} {p : ParseState} (hp : st.Parsed p)
    (hst : ∀ h ∈ st.prev, h.WellFormed) {u : CommandUnit}
    (hpath : st.kept = true ∨ u.header.relative = false) {tail rest : Text} {term : Termination}
    (htail : UnitTail tail term rest) :
    (parseUnit C p (u.text ++ tail)).1 = (runUnit C st u).1 ∧
      (runUnit C st u).2.Parsed (parseUnit C p (u.text ++ tail)).2 ∧
      ∀ h ∈ (runUnit C st u).2.prev, h.WellFormed := by
  have hm := detect_text u htail
  obtain ⟨path, hcompose, htext, hle⟩ := compose_text hp hst u.headerOk hpath
  obtain ⟨more, hmore⟩ := passed_text u htail
  have hinside := hp.inside
  have hstart : (p.buffer.take (p.buffer.length - path.length)).length =
      p.buffer.length - path.length := by
    rw [List.length_take]
    omega
  have hlen : (u.header.resolve st.prev).text.length = path.length + u.header.text.length := by
    rw [← htext, List.length_append]
  unfold runUnit
  simp only
  cases hfind : C.findCommandHeader (u.header.resolve st.prev).text with
  | none =>
    rw [parseUnit_undefined hm hcompose hfind, hmore]
    refine ⟨rfl, ⟨hp.firstOutput, rfl, ?_, fun hkept => ?_⟩, hst⟩
    · simp only [List.length_append, hstart]
      omega
    · -- nothing was moved
      obtain ⟨hkept, hsame⟩ := Bool.and_eq_true_iff.mp hkept
      rw [of_decide_eq_true hsame] at htext
      have hnil : path = [] := List.append_left_eq_self.mp htext
      simp only [hnil, List.length_nil, Nat.sub_zero, List.take_length, List.append_nil,
        CmdPrev.text_append hinside]
      exact hp.path hkept
  | some cmd =>
    rw [parseUnit_found hm hcompose hfind rfl, hmore, hp.firstOutput]
    refine ⟨rfl, ⟨rfl, congrArg (· && _) hp.result, ?_, fun _ => ?_⟩, fun h hh => ?_⟩
    · simp only [List.length_append, hstart, hlen]
      omega
    · show CmdPrev.text _ (_ ++ _) = (u.header.resolve st.prev).text
      unfold CmdPrev.text
      simp only [List.length_append, hstart, hlen, Nat.add_sub_cancel]
      rw [List.append_assoc, List.drop_left' hstart, ← List.append_assoc,
        List.take_left' (List.length_append ..)]
      exact htext
    · rw [← Option.some.inj hh]
      exact u.headerOk.resolve hst

theorem lineText_singleton (u : CommandUnit) : lineText [u] = u.text := by simp [lineText]

theorem lineText_cons (u u' : CommandUnit) (us : List CommandUnit) (tail : Text) :
    lineText (u :: u' :: us) ++ tail = u.text ++ 59 :: (lineText (u' :: us) ++ tail) := by
  simp [lineText]

theorem text_ne_nil (u : CommandUnit) (tail : Text) : u.text ++ tail ≠ [] := by
  have := (head_text u.headerOk).1
  simp [CommandUnit.text, this]

theorem lineText_ne_nil {us : List CommandUnit} (hus : us ≠ []) : lineText us ≠ [] := by
  obtain ⟨u, us, rfl⟩ := List.exists_cons_of_ne_nil hus
  have := (head_text u.headerOk).1
  cases us <;> simp [lineText, CommandUnit.text, this]

/-- A line is executed unit by unit. -/
theorem parseUnits_line {us : List CommandUnit} (hus : us ≠ []) {tail : Text} {term : Termination}
    (h : UnitTail tail term []) {st : LineState} (hpaths : PathsKept C st us)
    (hst : ∀ h ∈ st.prev, h.WellFormed) {p : ParseState} (hp : st.Parsed p) :
    (parseUnits C p (units (lineText us ++ tail))).1 = (runUnits C st us).1 ∧
      (runUnits C st us).2.Parsed (parseUnits C p (units (lineText us ++ tail))).2 := by
  induction us generalizing st p with
  | nil => exact absurd rfl hus
  | cons u us ih =>
    obtain ⟨hpath, hpaths⟩ := hpaths
    cases us with
    | nil =>
      have hm := detect_text u h
      obtain ⟨hacts, hparsed, -⟩ := parseUnit_text C hp hst hpath h
      have hrest : unitFramer.rest (u.text ++ tail) = [] := hm.rest
      rw [lineText_singleton, units, Lib.Framer.starts_cons (text_ne_nil u tail), hrest,
        Lib.Framer.starts_nil, parseUnits_cons, runUnits_cons, hacts]
      exact ⟨rfl, hparsed⟩
    | cons u' us =>
      have htail := UnitTail.semicolon (lineText (u' :: us) ++ tail)
      have hm := detect_text u htail
      obtain ⟨hacts, hparsed, hnext⟩ := parseUnit_text C hp hst hpath htail
      have hrest : unitFramer.rest (u.text ++ 59 :: (lineText (u' :: us) ++ tail)) =
          lineText (u' :: us) ++ tail := hm.rest
      obtain ⟨ihacts, ihparsed⟩ := ih (List.cons_ne_nil u' us) hpaths hnext hparsed
      rw [lineText_cons, units, Lib.Framer.starts_cons (text_ne_nil u _), hrest,
        parseUnits_cons, runUnits_cons, hacts]
      exact ⟨congrArg _ ihacts, ihparsed⟩

/-- **The parser executes a line as what it says**: the units that the line was written from,
in order, each header in the path of the command before. -/
theorem scpiParse_line {us : List CommandUnit} (hus : us ≠ []) (hpaths : PathsKept C .init us)
    {tail : Text} {term : Termination} (h : UnitTail tail term []) :
    scpiParse C (lineText us ++ tail) = runLine C us := by
  obtain ⟨hacts, hparsed⟩ := parseUnits_line C hus h hpaths nofun LineState.parsed_init
  rw [scpiParse_units]
  simp only [hacts, hparsed.firstOutput, hparsed.result]
  rfl

/-! ## Lines in the input buffer -/

theorem frame_unit (u : CommandUnit) {tail rest front : Text} {term : Termination}
    (h : UnitTail tail term rest) (htail : tail = front ++ rest) :
    unitFramer.rest (u.text ++ tail) = rest ∧ unitFramer.front (u.text ++ tail) = u.text ++ front ∧
      unitFramer.ends (u.text ++ tail) = decide (term = .nl) := by
  have hm := detect_text u h
  refine ⟨hm.rest, Lib.Framer.front_eq (by rw [htail, List.append_assoc]) hm.rest, ?_⟩
  exact congrArg (fun t => decide (t = .nl)) hm.termination

/-- Only the newline behind a line ends a message. -/
theorem frames_line {us : List CommandUnit} (hus : us ≠ []) (rest acc : Text) :
    unitFramer.finished acc (units (lineText us ++ 13 :: 10 :: rest)) =
        (acc ++ (lineText us ++ [13, 10])) :: unitFramer.finished [] (units rest) ∧
      unitFramer.unfinished acc (units (lineText us ++ 13 :: 10 :: rest)) =
        unitFramer.unfinished [] (units rest) := by
  induction us generalizing acc with
  | nil => exact absurd rfl hus
  | cons u us ih =>
    cases us with
    | nil =>
      obtain ⟨hrest, hfront, hends⟩ := frame_unit u (.crlf rest)
        (show 13 :: 10 :: rest = [13, 10] ++ rest from rfl)
      rw [lineText_singleton, units, Lib.Framer.starts_cons (text_ne_nil u _), hrest]
      rw [Lib.Framer.finished_cons, Lib.Framer.unfinished_cons, hends, hfront]
      exact ⟨rfl, rfl⟩
    | cons u' us =>
      obtain ⟨hrest, hfront, hends⟩ := frame_unit u
        (.semicolon (lineText (u' :: us) ++ 13 :: 10 :: rest))
        (show 59 :: _ = [59] ++ _ from rfl)
      have ih := ih (List.cons_ne_nil u' us) (acc ++ (u.text ++ [59]))
      rw [lineText_cons, units, Lib.Framer.starts_cons (text_ne_nil u _), hrest]
      rw [Lib.Framer.finished_cons, Lib.Framer.unfinished_cons, hends, hfront]
      have hline : acc ++ (lineText (u :: u' :: us) ++ [13, 10]) =
          acc ++ (u.text ++ [59]) ++ (lineText (u' :: us) ++ [13, 10]) := by
        rw [lineText_cons]
        simp
      rw [hline]
      exact ih

/-- Without it the line stays in the buffer. -/
theorem frames_unterminated {us : List CommandUnit} (hus : us ≠ []) (acc : Text) :
    unitFramer.finished acc (units (lineText us)) = [] ∧
      unitFramer.unfinished acc (units (lineText us)) = acc ++ lineText us := by
  induction us generalizing acc with
  | nil => exact absurd rfl hus
  | cons u us ih =>
    cases us with
    | nil =>
      obtain ⟨hrest, hfront, hends⟩ := frame_unit u .eos (show [] = [] ++ [] from rfl)
      rw [List.append_nil] at hrest hfront hends
      have hne := text_ne_nil u []
      rw [List.append_nil] at hne
      rw [lineText_singleton, units, Lib.Framer.starts_cons hne, hrest, Lib.Framer.starts_nil]
      rw [Lib.Framer.finished_cons, Lib.Framer.unfinished_cons, hends, hfront]
      exact ⟨rfl, rfl⟩
    | cons u' us =>
      obtain ⟨hrest, hfront, hends⟩ := frame_unit u
        (.semicolon (lineText (u' :: us))) (show 59 :: _ = [59] ++ _ from rfl)
      have ih := ih (List.cons_ne_nil u' us) (acc ++ (u.text ++ [59]))
      have hline := lineText_cons u u' us []
      rw [List.append_nil, List.append_nil] at hline
      rw [hline, units, Lib.Framer.starts_cons (text_ne_nil u _), hrest]
      rw [Lib.Framer.finished_cons, Lib.Framer.unfinished_cons, hends, hfront]
      have hacc : acc ++ (u.text ++ 59 :: lineText (u' :: us)) =
          acc ++ (u.text ++ [59]) ++ lineText (u' :: us) := by simp
      rw [hacc]
      exact ih

/-- The lines of a script, each with its line end. -/
def scriptText (ls : List (List CommandUnit)) : Text := ls.flatMap fun us => lineText us ++ [13, 10]

theorem scriptText_cons (us : List CommandUnit) (ls : List (List CommandUnit)) :
    scriptText (us :: ls) = lineText us ++ 13 :: 10 :: scriptText ls := by
  simp [scriptText]

theorem frames_script {ls : List (List CommandUnit)} (hls : ∀ us ∈ ls, us ≠ []) :
    unitFramer.finished [] (units (scriptText ls)) = ls.map (fun us => lineText us ++ [13, 10]) ∧
      unitFramer.unfinished [] (units (scriptText ls)) = [] := by
  induction ls with
  | nil =>
    rw [show units (scriptText []) = [] from Lib.Framer.starts_nil _]
    exact ⟨rfl, rfl⟩
  | cons us ls ih =>
    obtain ⟨hfinished, hunfinished⟩ := frames_line (hls us (List.mem_cons_self ..)) (scriptText ls) []
    obtain ⟨ihf, ihu⟩ := ih fun vs hvs => hls vs (.tail _ hvs)
    rw [scriptText_cons, hfinished, hunfinished, ihf, ihu]
    exact ⟨rfl, rfl⟩

/-- **`SCPI_Input` executes a script line by line**, and leaves nothing in its buffer. -/
theorem scpiInput_script {ls : List (List CommandUnit)} (hls : ∀ us ∈ ls, us ≠ []) (hne : ls ≠ [])
    (hpaths : ∀ us ∈ ls, PathsKept C .init us) (hlen : (scriptText ls).length ≤ 2047) :
    scpiInput C [] (scriptText ls) =
      (ls.map fun us => .parse (lineText us ++ [13, 10]) (runLine C us).1, []) := by
  obtain ⟨us, ls', rfl⟩ := List.exists_cons_of_ne_nil hne
  have hdata : scriptText (us :: ls') ≠ [] := by
    simp [scriptText]
  rw [scpiInput_fits C hdata (by simpa using hlen), List.nil_append]
  unfold inputUnits
  obtain ⟨hfinished, hunfinished⟩ := frames_script hls
  rw [hfinished, hunfinished, List.map_map]
  congr 1
  refine List.map_congr_left fun vs hvs => ?_
  show parseChunk C (lineText vs ++ [13, 10]) = _
  unfold parseChunk
  rw [scpiParse_line C (hls vs hvs) (hpaths vs hvs) (.crlf [])]

/-- Commands that take all their parameters, under any header. -/
def anyCommands : Commands Text where
  findCommandHeader := some
  callback _ := some fun c => (true, { c with rest := [] })

/-- `A:B` -/
def pathUnit : CommandUnit where
  header := .compound false [[65], [66]] false
  params := []
  headerOk := .compound nofun fun k hk => by
    rcases List.mem_pair.mp hk with rfl | rfl <;>
      exact ⟨⟨_, [], rfl, by decide⟩, List.all_eq_true.mp rfl⟩
  paramsOk := nofun

/-- `C 1` -/
def valueUnit : CommandUnit where
  header := .compound false [[67]] false
  params := [.integer false [49]]
  headerOk := .compound nofun fun k hk => by
    rw [List.mem_singleton.mp hk]
    exact ⟨⟨_, [], rfl, by decide⟩, List.all_eq_true.mp rfl⟩
  paramsOk := fun d hd => by
    rw [List.mem_singleton.mp hd]
    exact .integer nofun (List.all_eq_true.mp rfl)

/-- `A:B;C 1` and `C 1`: the path of the first line is not that of the second. -/
theorem scpiInput_script_paths :
    scpiInput anyCommands [] (scriptText [[pathUnit, valueUnit], [valueUnit]]) =
      ([.parse [65, 58, 66, 59, 67, 32, 49, 13, 10]
          [.execute [65, 58, 66] [65, 58, 66] [], .execute [65, 58, 67] [65, 58, 67] [49]],
        .parse [67, 32, 49, 13, 10] [.execute [67] [67] [49]]], []) :=
  scpiInput_script anyCommands (by simp) nofun
    (by
      intro us hus
      simp only [List.mem_cons, List.not_mem_nil, or_false] at hus
      rcases hus with rfl | rfl
      · exact ⟨.inl rfl, .inl rfl, trivial⟩
      · exact ⟨.inl rfl, trivial⟩)
    (by decide)

/-- With `AAA:B` alone, `AAA:B;C;B` does not find its last command: `C` is put into the path as
`AAA:C`, over the path of `AAA:B`. -/
example :
    let C : Commands Unit :=
      ⟨fun header => if header = [65, 65, 65, 58, 66] then some () else none, fun _ => none⟩
    scpiParse C [65, 65, 65, 58, 66, 59, 67, 59, 66] =
      ([.execute () [65, 65, 65, 58, 66] [], .error .undefinedHeader, .error .undefinedHeader],
        false) := by
  decide

end XHeepFemu.Scpi
