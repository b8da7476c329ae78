import XHeepFemu.Scpi.StatusRuns

/-!
# The error queue over whole runs

The queue that the library's calls work on is a list: errors go to its end, are
read from its front, and the newest one of a full queue gives way to an overflow.
Every error sets the bit of its class in the standard event register.
-/

namespace XHeepFemu.Scpi

open Lib (answers)

/-- What a call tells about the errors. -/
def StatusAnswer.aboutErrors : StatusAnswer → Option Int
  | .error code => some code
  | .count n => some n
  | _ => Option.none

def StatusOp.errorStep (c : Context) (op : StatusOp) : Context × Option Int :=
  (op.step c, (op.exec c).2.aboutErrors)

/-- What a call does to the list of errors; no error is error 0. -/
def StatusOp.onErrors (size : Nat) (xs : List Int) : StatusOp → List Int × Option Int
  | .errorPush err => (pushed size xs err, none)
  | .errorPop => (xs.tail, some (xs.head?.getD 0))
  | .errorClear => ([], none)
  | .errorCountQ => (xs, some xs.length)
  | .coreCls => ([], none)
  | _ => (xs, none)

/-- The context has `xs` in its error queue. -/
def HasErrors (size : Nat) (c : Context) (xs : List Int) : Prop :=
  c.Inv ∧ c.errorQueue.size = size ∧ c.errorQueue.contents = xs

theorem errors_step {size : Nat} (c : Context) (xs : List Int) (op : StatusOp)
    (h : HasErrors size c xs) :
    (op.errorStep c).2 = (op.onErrors size xs).2 ∧
      HasErrors size (op.errorStep c).1 (op.onErrors size xs).1 := by
  obtain ⟨hinv, rfl, rfl⟩ := h
  have hnext : (op.step c).Inv := (hinv.step op).good
  have hset : ∀ name val, op.step c = scpiRegSet c name val →
      HasErrors c.errorQueue.size (op.step c) c.errorQueue.contents := by
    intro name val hstep
    refine ⟨hnext, ?_, ?_⟩
    all_goals rw [hstep, scpiRegSet_errorQueue]
  cases op with
  | errorPush err =>
    obtain ⟨-, hsize, hcontents⟩ := scpiErrorAddInternal_spec hinv.wf hinv.size err
    refine ⟨rfl, hnext, ?_, ?_⟩
    · exact (congrArg Fifo.size (scpiErrorPush_errorQueue c err)).trans hsize
    · exact (congrArg Fifo.contents (scpiErrorPush_errorQueue c err)).trans hcontents
  | errorPop =>
    obtain ⟨hvalue, hcontents⟩ := fifoRemove_spec hinv.wf
    have hqueue : (scpiErrorPop c).1.errorQueue = (fifoRemove c.errorQueue).1 :=
      scpiErrorEmitEmpty_errorQueue _
    refine ⟨congrArg (fun v : Option Int => some (v.getD 0)) hvalue, hnext, ?_, ?_⟩
    · exact (congrArg Fifo.size hqueue).trans (fifoRemove_size _)
    · exact (congrArg Fifo.contents hqueue).trans hcontents
  | errorClear =>
    refine ⟨rfl, hnext, ?_, ?_⟩
    · show (scpiErrorClear c).errorQueue.size = _
      rw [scpiErrorClear_errorQueue]
      rfl
    · show (scpiErrorClear c).errorQueue.contents = _
      rw [scpiErrorClear_errorQueue]
      rfl
  | errorCountQ =>
    refine ⟨?_, hnext, rfl, rfl⟩
    exact congrArg (fun n : Nat => some (n : Int)) (Fifo.length_contents _).symm
  | coreCls =>
    refine ⟨rfl, hnext, ?_, ?_⟩
    · show (scpiCoreCls c).errorQueue.size = _
      rw [scpiCoreCls_errorQueue]
      rfl
    · show (scpiCoreCls c).errorQueue.contents = _
      rw [scpiCoreCls_errorQueue]
      rfl
  | coreEse newEse => exact ⟨rfl, hset _ _ rfl⟩
  | coreEsrQ => exact ⟨rfl, hset _ _ rfl⟩
  | coreOpc => exact ⟨rfl, hset _ _ rfl⟩
  | coreSre newSre => exact ⟨rfl, hset _ _ rfl⟩
  | questionableEventQ => exact ⟨rfl, hset _ _ rfl⟩
  | questionableEnable newQuese => exact ⟨rfl, hset _ _ rfl⟩
  | operationEventQ => exact ⟨rfl, hset _ _ rfl⟩
  | operationEnable newOpere => exact ⟨rfl, hset _ _ rfl⟩
  | preset => exact ⟨rfl, hset _ _ rfl⟩
  | regQ name => exact ⟨rfl, hnext, rfl, rfl⟩
  | setEvent e val => exact ⟨rfl, hset _ _ rfl⟩
  | setCondition k val => exact ⟨rfl, hset _ _ rfl⟩

/-- Whatever is called, the errors that are read and counted are those of a list. -/
theorem error_queue_refines_list (interface : ScpiInterface) (data : Nat → Int)
    {size : Nat} (hsize : 0 < size) (ops : List StatusOp) :
    answers StatusOp.errorStep (scpiInit interface data size) ops =
        answers (StatusOp.onErrors size) [] ops ∧
      (Lib.run StatusOp.step (scpiInit interface data size) ops).errorQueue.contents =
        Lib.run (fun xs op => (StatusOp.onErrors size xs op).1) [] ops := by
  obtain ⟨hanswers, -, -, hcontents⟩ := Lib.answers_eq (R := HasErrors size)
    (fun c xs op => errors_step c xs op) ops ⟨inv_init interface data hsize, rfl, rfl⟩
  exact ⟨hanswers, hcontents⟩

theorem error_queue_refines_list_overflow :
    answers StatusOp.errorStep (scpiInit ⟨false, true⟩ (fun _ => 0) 2)
        [.errorPush (-101), .errorPush (-113), .errorPush (-200), .errorPop, .errorPop, .errorPop] =
      answers (StatusOp.onErrors 2) []
        [.errorPush (-101), .errorPush (-113), .errorPush (-200), .errorPop, .errorPop, .errorPop] ∧
      (Lib.run StatusOp.step (scpiInit ⟨false, true⟩ (fun _ => 0) 2) [.errorPush (-101),
          .errorPush (-113), .errorPush (-200), .errorPop, .errorPop, .errorPop]).errorQueue.contents =
        Lib.run (fun xs op => (StatusOp.onErrors 2 xs op).1) [] [.errorPush (-101),
          .errorPush (-113), .errorPush (-200), .errorPop, .errorPop, .errorPop] :=
  error_queue_refines_list _ _ (by decide) _

/-! ## A burst of errors -/

/-- What a queue keeps of a burst of errors: all of them, or the first ones and an overflow. -/
def keptErrors (size : Nat) (es : List Int) : List Int :=
  if es.length ≤ size then es else es.take (size - 1) ++ [scpiErrorQueueOverflow]

theorem foldl_pushed {size : Nat} (hsize : 0 < size) (es : List Int) :
    es.foldl (pushed size) [] = keptErrors size es := by
  induction es using List.reverseRecOn with
  | nil => rfl
  | append_singleton es e ih =>
    rw [List.foldl_append, List.foldl_cons, List.foldl_nil, ih]
    unfold pushed keptErrors
    rw [List.length_append, List.length_singleton]
    rcases Nat.lt_trichotomy es.length size with hlt | heq | hgt
    · rw [if_pos (Nat.le_of_lt hlt), if_pos hlt, if_pos (Nat.succ_le_of_lt hlt)]
    · -- the queue is full: its newest error is lost as well
      rw [if_pos (Nat.le_of_eq heq), if_neg (by omega), if_neg (by omega),
        List.take_append_of_le_length (by omega), List.dropLast_eq_take, heq]
    · have hlen : (es.take (size - 1) ++ [scpiErrorQueueOverflow]).length = size := by
        rw [List.length_append, List.length_take, List.length_singleton]
        omega
      have hnot : ¬es.length ≤ size := Nat.not_le.mpr hgt
      have hnot' : ¬es.length + 1 ≤ size := by omega
      rw [if_neg hnot, hlen, if_neg (Nat.lt_irrefl size), if_neg hnot', List.dropLast_concat,
        List.take_append_of_le_length (by omega)]

theorem run_onErrors_push (size : Nat) (xs es : List Int) :
    Lib.run (fun xs op => (StatusOp.onErrors size xs op).1) xs (es.map .errorPush) =
      es.foldl (pushed size) xs := by
  induction es generalizing xs with
  | nil => rfl
  | cons e es ih => exact ih _

theorem answers_onErrors_pop (size : Nat) (xs : List Int) (k : Nat) :
    answers (StatusOp.onErrors size) xs (List.replicate k .errorPop) =
      ((xs ++ List.replicate k 0).take k).map some := by
  induction k generalizing xs with
  | zero => rfl
  | succ k ih =>
    rw [List.replicate_succ, answers]
    show some (xs.head?.getD 0) :: answers (StatusOp.onErrors size) xs.tail _ = _
    rw [ih]
    cases xs with
    | nil => simp [List.replicate_succ]
    | cons x xs =>
      have happend : xs ++ List.replicate (k + 1) (0 : Int) = (xs ++ List.replicate k 0) ++ [0] := by
        rw [List.append_assoc, List.replicate_succ']
      have hlen : k ≤ (xs ++ List.replicate k (0 : Int)).length := by simp
      rw [List.cons_append, List.take_succ_cons, List.map_cons, happend,
        List.take_append_of_le_length hlen]
      rfl

/-- After any run that ends with no error in the queue, the errors that follow are read back in
order; of more than the queue holds, the first ones and an overflow. -/
theorem errors_read_in_order (interface : ScpiInterface) (data : Nat → Int) {size : Nat}
    (hsize : 0 < size) (before : List StatusOp) (es : List Int) (k : Nat)
    (hempty : (Lib.run StatusOp.step (scpiInit interface data size) before).errorQueue.contents =
      []) :
    answers StatusOp.errorStep
        (Lib.run StatusOp.step (scpiInit interface data size) (before ++ es.map .errorPush))
        (List.replicate k .errorPop) =
      ((keptErrors size es ++ List.replicate k 0).take k).map some := by
  have hbefore : HasErrors size (Lib.run StatusOp.step (scpiInit interface data size) before) [] := by
    obtain ⟨-, hinv, hlen, -⟩ := Lib.answers_eq (R := HasErrors size)
      (fun c xs op => errors_step c xs op) before ⟨inv_init interface data hsize, rfl, rfl⟩
    exact ⟨hinv, hlen, hempty⟩
  obtain ⟨-, hpushed⟩ := Lib.answers_eq (fun c xs op => errors_step c xs op) (es.map .errorPush)
    hbefore
  rw [run_onErrors_push, foldl_pushed hsize] at hpushed
  rw [Lib.run_append]
  obtain ⟨hanswers, -⟩ := Lib.answers_eq (fun c xs op => errors_step c xs op)
    (List.replicate k .errorPop) hpushed
  exact hanswers.trans (answers_onErrors_pop size _ k)

theorem errors_read_in_order_overflow :
    answers StatusOp.errorStep
        (Lib.run StatusOp.step (scpiInit ⟨false, true⟩ (fun _ => 0) 2)
          ([.errorPush (-109), .coreCls] ++ [-101, -113, -200].map .errorPush))
        (List.replicate 3 .errorPop) =
      ((keptErrors 2 [-101, -113, -200] ++ List.replicate 3 0).take 3).map some :=
  errors_read_in_order _ _ (by decide) _ _ _ (by decide)

/-! ## The standard event register -/

/-- The bit of ESR that an error sets. A positive error sets none: no number is at most 1 and
at least 32767, as its row of the table wants. -/
def errorClass (err : Int) : RegVal :=
  if -199 ≤ err ∧ err ≤ -100 then esrCer
  else if -299 ≤ err ∧ err ≤ -200 then esrEer
  else if -399 ≤ err ∧ err ≤ -300 then esrDer
  else if -499 ≤ err ∧ err ≤ -400 then esrQer
  else if -599 ≤ err ∧ err ≤ -500 then esrPon
  else if -699 ≤ err ∧ err ≤ -600 then esrUrq
  else if -799 ≤ err ∧ err ≤ -700 then esrReq
  else if -899 ≤ err ∧ err ≤ -800 then esrOpc
  else 0

/-- Row by row, the table sets the bit of the error's class and no other. -/
theorem any_errs (err : Int) (i : Nat) :
    (errs.any fun e => decide (err ≤ e.fromCode ∧ err ≥ e.toCode) && e.esrBit.getLsbD i) =
      (errorClass err).getLsbD i := by
  rw [Bool.eq_iff_iff]
  simp only [errs, List.any_cons, List.any_nil, Bool.or_false, Bool.or_eq_true, Bool.and_eq_true,
    decide_eq_true_eq]
  unfold errorClass
  -- in the class of one row, the conditions of the other rows fail
  split_ifs
  all_goals grind

theorem setClasses_esr {c : Context} {q : Bool} (h : c.Good q) (err : Int) (rows : List ErrorReg)
    (i : Nat) :
    ((rows.foldl (fun c e => if err ≤ e.fromCode ∧ err ≥ e.toCode then
        scpiRegSetBits c .esr e.esrBit else c) c).registers .esr).getLsbD i =
      ((c.registers .esr).getLsbD i ||
        rows.any fun e => decide (err ≤ e.fromCode ∧ err ≥ e.toCode) && e.esrBit.getLsbD i) := by
  induction rows generalizing c with
  | nil => rw [List.any_nil, Bool.or_false, List.foldl_nil]
  | cons e rows ih =>
    rw [List.foldl_cons, List.any_cons]
    by_cases hrow : err ≤ e.fromCode ∧ err ≥ e.toCode
    · have hset : (scpiRegSetBits c .esr e.esrBit).registers .esr =
          c.registers .esr ||| e.esrBit :=
        (scpiRegSet_event_other h.master .esr _ (by decide)).trans (if_pos rfl)
      rw [if_pos hrow, ih (h.setBits e.esrBit).good, hset, BitVec.getLsbD_or, decide_eq_true hrow,
        Bool.true_and, Bool.or_assoc]
    · rw [if_neg hrow, ih h, decide_eq_false hrow, Bool.false_and, Bool.false_or]

theorem setErrorClass_esr {c : Context} {q : Bool} (h : c.Good q) (err : Int) :
    (setErrorClass c err).registers .esr = c.registers .esr ||| errorClass err := by
  refine BitVec.eq_of_getLsbD_eq fun i _ => ?_
  rw [BitVec.getLsbD_or, ← any_errs]
  exact setClasses_esr h err errs i

theorem emit_registers {c : Context} (hm : Master c) (err : Int) {name : RegName}
    (hname : name ≠ .stb) : (scpiErrorEmit c err).registers name = c.registers name := by
  unfold scpiErrorEmit
  rw [writeError_registers]
  exact setStb_registers hm _ hname

theorem errorPush_esr {c : Context} (h : c.Inv) (err : Int) :
    (scpiErrorPush c err).registers .esr = c.registers .esr ||| errorClass err := by
  obtain ⟨wf, hsize, -⟩ := scpiErrorAddInternal_spec h.wf h.size err
  have hqueue := (h.setQueue wf hsize).good
  have hclass := (hqueue.setErrorClass err).good
  have hemit := (hclass.emit err).good
  have hesr : (scpiErrorEmit (setErrorClass
      { c with errorQueue := (scpiErrorAddInternal c.errorQueue err).1 } err) err).registers .esr =
      c.registers .esr ||| errorClass err :=
    (emit_registers hclass.master err (by decide)).trans (setErrorClass_esr hqueue err)
  unfold scpiErrorPush
  simp only
  split
  · exact hesr
  · exact (emit_registers hemit.master _ (by decide)).trans hesr

/-- The value of ESR that a call reads. -/
def StatusOp.esrAnswer (c : Context) : StatusOp → Option RegVal
  | .coreEsrQ => some (scpiCoreEsrQ c).2
  | .regQ .esr => some (c.registers .esr)
  | _ => none

def StatusOp.esrStep (c : Context) (op : StatusOp) : Context × Option RegVal :=
  (op.step c, op.esrAnswer c)

/-- What a call does to the events since the last clear. -/
def StatusOp.onEvents (events : RegVal) : StatusOp → RegVal × Option RegVal
  | .errorPush err => (events ||| errorClass err, none)
  | .coreCls => (0, none)
  | .coreEsrQ => (0, some events)
  | .coreOpc => (events ||| esrOpc, none)
  | .setEvent .esr val => (val, none)
  | .regQ .esr => (events, some events)
  | _ => (events, none)

/-- The context has `events` in ESR. -/
def HasEvents (c : Context) (events : RegVal) : Prop := c.Inv ∧ c.registers .esr = events

theorem setCondition_esr {c : Context} (h : c.Inv) (k : Condition) (val : RegVal) :
    (scpiRegSet c k.reg val).registers .esr = c.registers .esr := by
  have hne : .esr ≠ k.event.reg := by cases k <;> decide
  rw [scpiRegSet_condition]
  split
  · rfl
  · have hset := (h.setReg val k.reg_ne.1 k.reg_ne.2.1 k.reg_ne.2.2).good
    rw [scpiRegSet_event_other hset.master _ _ (by decide), if_neg hne]
    exact Context.setReg_other c val (k.reg_ne.2.2 .esr)

theorem events_step (c : Context) (events : RegVal) (op : StatusOp) (h : HasEvents c events) :
    (op.esrStep c).2 = (op.onEvents events).2 ∧
      HasEvents (op.esrStep c).1 (op.onEvents events).1 := by
  obtain ⟨hinv, rfl⟩ := h
  have hnext : (op.step c).Inv := (hinv.step op).good
  have hevent : ∀ e val, (scpiRegSet c (Event.reg e) val).registers .esr =
      if .esr = e.reg then val else c.registers .esr := fun e val =>
    scpiRegSet_event_other hinv.master e val (by decide)
  have henable : ∀ e val, (scpiRegSet c (Event.enable e) val).registers .esr = c.registers .esr := by
    intro e val
    rw [scpiRegSet_enable]
    exact Context.setReg_other c val ((Event.reg_ne .esr).2.2 e)
  cases op with
  | errorPush err => exact ⟨rfl, hnext, errorPush_esr hinv err⟩
  | errorPop =>
    have hqueue := (hinv.setQueue (fifoRemove_wf hinv.wf) (fifoRemove_size c.errorQueue)).good
    exact ⟨rfl, hnext, errorEmitEmpty_registers hqueue.master (by decide)⟩
  | errorClear => exact ⟨rfl, hnext, errorClear_registers hinv (by decide)⟩
  | errorCountQ => exact ⟨rfl, hnext, rfl⟩
  | coreCls =>
    exact ⟨rfl, hnext, coreCls_registers hinv (by decide)⟩
  | coreEse newEse => exact ⟨rfl, hnext, henable .esr _⟩
  | coreEsrQ => exact ⟨rfl, hnext, hevent .esr 0⟩
  | coreOpc => exact ⟨rfl, hnext, hevent .esr _⟩
  | coreSre newSre =>
    exact ⟨rfl, hnext, (scpiRegSet_sre_sets hinv.master _).other .esr (by decide) (by decide)⟩
  | questionableEventQ => exact ⟨rfl, hnext, hevent .ques 0⟩
  | questionableEnable newQuese => exact ⟨rfl, hnext, henable .ques _⟩
  | operationEventQ => exact ⟨rfl, hnext, hevent .oper 0⟩
  | operationEnable newOpere => exact ⟨rfl, hnext, henable .oper _⟩
  | preset => exact ⟨rfl, hnext, hevent .ques 0⟩
  | regQ name => cases name <;> exact ⟨rfl, hnext, rfl⟩
  | setEvent e val => cases e <;> exact ⟨rfl, hnext, hevent _ val⟩
  | setCondition k val => exact ⟨rfl, hnext, setCondition_esr hinv k val⟩

/-- In every run ESR has the classes of the errors and the completed operations since it was last
cleared, with what the application set there, and `*ESR?` answers them. -/
theorem standard_events_reported (interface : ScpiInterface) (data : Nat → Int)
    {size : Nat} (hsize : 0 < size) (ops : List StatusOp) :
    answers StatusOp.esrStep (scpiInit interface data size) ops = answers StatusOp.onEvents 0 ops ∧
      (Lib.run StatusOp.step (scpiInit interface data size) ops).registers .esr =
        Lib.run (fun events op => (StatusOp.onEvents events op).1) 0 ops := by
  obtain ⟨hanswers, -, hesr⟩ := Lib.answers_eq (R := HasEvents)
    (fun c events op => events_step c events op) ops ⟨inv_init interface data hsize, rfl⟩
  exact ⟨hanswers, hesr⟩

theorem standard_events_reported_overflow :
    answers StatusOp.esrStep (scpiInit ⟨false, true⟩ (fun _ => 0) 1)
        [.errorPush (-113), .errorPush (-200), .errorPop, .coreOpc, .coreEsrQ, .coreEsrQ] =
      answers StatusOp.onEvents 0
        [.errorPush (-113), .errorPush (-200), .errorPop, .coreOpc, .coreEsrQ, .coreEsrQ] ∧
      (Lib.run StatusOp.step (scpiInit ⟨false, true⟩ (fun _ => 0) 1) [.errorPush (-113),
          .errorPush (-200), .errorPop, .coreOpc, .coreEsrQ, .coreEsrQ]).registers .esr =
        Lib.run (fun events op => (StatusOp.onEvents events op).1) 0 [.errorPush (-113),
          .errorPush (-200), .errorPop, .coreOpc, .coreEsrQ, .coreEsrQ] :=
  standard_events_reported _ _ (by decide) _

end XHeepFemu.Scpi
