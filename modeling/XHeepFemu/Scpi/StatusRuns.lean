import XHeepFemu.Scpi.StatusByte

/-!
# Status reporting over whole runs

`Context.Inv` holds in every state that calls of the library lead to. A run that
raises the summary of the status byte has sent a service request, and `*CLS`
clears everything there is to clear.
-/

namespace XHeepFemu.Scpi

/-! ## Calls of the library -/

theorem Context.Inv.errorClear {c : Context} (h : c.Inv) :
    Moves c (scpiErrorClear c) (decide ((scpiErrorClear c).errorQueue.contents ≠ [])) := by
  have hqueue := h.setQueue (fifoClear_wf c.errorQueue) rfl
  unfold scpiErrorClear
  rw [scpiErrorEmitEmpty_errorQueue]
  exact hqueue.trans (hqueue.good.emitEmpty fun hne => absurd rfl hne)

theorem Context.Inv.errorPop {c : Context} (h : c.Inv) :
    Moves c (scpiErrorPop c).1 (decide ((scpiErrorPop c).1.errorQueue.contents ≠ [])) := by
  have hqueue := h.setQueue (fifoRemove_wf h.wf) (fifoRemove_size c.errorQueue)
  unfold scpiErrorPop
  rw [scpiErrorEmitEmpty_errorQueue]
  refine hqueue.trans (hqueue.good.emitEmpty fun hne => decide_eq_true fun hnil => hne ?_)
  rw [(fifoRemove_spec h.wf).2, hnil]
  rfl

theorem Context.Inv.errorPush {c : Context} (h : c.Inv) (err : Int) :
    Moves c (scpiErrorPush c err) (decide ((scpiErrorPush c err).errorQueue.contents ≠ [])) := by
  rw [scpiErrorPush_errorQueue, (scpiErrorAddInternal_spec h.wf h.size err).2.2]
  rw [decide_eq_true (pushed_ne_nil _ _ err)]
  exact Context.Good.errorPush h err

/-- The invariant is kept by a call that leaves the queue alone. -/
theorem Moves.inv {c c' : Context} (h : Moves c c' (decide (c.errorQueue.contents ≠ [])))
    (hqueue : c'.errorQueue = c.errorQueue) :
    Moves c c' (decide (c'.errorQueue.contents ≠ [])) := by
  rwa [hqueue]

theorem Context.Inv.setEvent {c : Context} (h : c.Inv) (e : Event) (val : RegVal) :
    Moves c (scpiRegSet c e.reg val)
      (decide ((scpiRegSet c e.reg val).errorQueue.contents ≠ [])) :=
  (Context.Good.setEvent h e val).inv (scpiRegSet_errorQueue _ _ _)

theorem Context.Inv.setEnable {c : Context} (h : c.Inv) (e : Event) (val : RegVal) :
    Moves c (scpiRegSet c e.enable val)
      (decide ((scpiRegSet c e.enable val).errorQueue.contents ≠ [])) :=
  (Context.Good.setEnable h e val).inv (scpiRegSet_errorQueue _ _ _)

theorem Context.Inv.coreCls {c : Context} (h : c.Inv) :
    Moves c (scpiCoreCls c) (decide ((scpiCoreCls c).errorQueue.contents ≠ [])) := by
  have hempty := h.errorClear
  have hesr := hempty.trans (Context.Inv.setEvent hempty.good .esr 0)
  have hoper := hesr.trans (Context.Inv.setEvent hesr.good .oper 0)
  exact hoper.trans (Context.Inv.setEvent hoper.good .ques 0)

theorem Context.Inv.step {c : Context} (h : c.Inv) (op : StatusOp) :
    Moves c (op.step c) (decide ((op.step c).errorQueue.contents ≠ [])) := by
  cases op with
  | errorPush err => exact h.errorPush err
  | errorPop => exact h.errorPop
  | errorClear => exact h.errorClear
  | errorCountQ => exact .refl h
  | coreCls => exact h.coreCls
  | coreEse newEse => exact h.setEnable .esr _
  | coreEsrQ => exact h.setEvent .esr 0
  | coreOpc => exact h.setEvent .esr _
  | coreSre newSre => exact (Context.Good.setSre h _).inv (scpiRegSet_errorQueue _ _ _)
  | questionableEventQ => exact h.setEvent .ques 0
  | questionableEnable newQuese => exact h.setEnable .ques _
  | operationEventQ => exact h.setEvent .oper 0
  | operationEnable newOpere => exact h.setEnable .oper _
  | preset => exact h.setEvent .ques 0
  | regQ name => exact .refl h
  | setEvent e val => exact h.setEvent e val
  | setCondition k val =>
    exact (Context.Good.setCondition h k val).inv (scpiRegSet_errorQueue _ _ _)

theorem inv_run {c : Context} (h : c.Inv) (ops : List StatusOp) :
    Moves c (Lib.run StatusOp.step c ops)
      (decide ((Lib.run StatusOp.step c ops).errorQueue.contents ≠ [])) := by
  induction ops generalizing c with
  | nil => exact .refl h
  | cons op ops ih => exact (h.step op).trans (ih (h.step op).good)

theorem inv_init (interface : ScpiInterface) (data : Nat → Int) {size : Nat} (hsize : 0 < size) :
    (scpiInit interface data size).Inv :=
  ⟨fifoInit_wf data size, hsize, show withSrq 0 0 = 0 by decide,
    show (0 : RegVal).getLsbD 2 = decide (([] : List Int) ≠ []) from rfl,
    fun _ _ => BitVec.getLsbD_zero, fun _ _ _ _ => BitVec.getLsbD_zero⟩

/-! ## Whole runs -/

/-- In every state the status byte has its summary bit if an enabled bit of it is set, shows
whether there are errors, and does not show an event register that is clear. -/
theorem status_byte_reports (interface : ScpiInterface) (data : Nat → Int) {size : Nat}
    (hsize : 0 < size) (ops : List StatusOp) :
    let c := Lib.run StatusOp.step (scpiInit interface data size) ops
    let stb := c.registers .stb
    (stb.getLsbD 6 = true ↔ ∃ i, i ≠ 6 ∧ stb.getLsbD i = true ∧ (c.registers .sre).getLsbD i = true) ∧
      (stb.getLsbD 2 = true ↔ c.errorQueue.contents ≠ []) ∧
      (∀ e : Event, c.registers e.reg = 0 → stb.getLsbD e.bit = false) ∧
      ∀ i, i ≠ 2 → i ≠ 6 → (∀ e : Event, i ≠ e.bit) → stb.getLsbD i = false := by
  have h := (inv_run (inv_init interface data hsize) ops).good
  refine ⟨?_, ?_, h.shows.clear, h.shows.unused⟩
  · rw [h.master.bit, decide_eq_true_iff, requests_iff]
  · rw [h.shows.qma, decide_eq_true_iff]

/-- The client has errors reported and enabled before an unknown header comes. -/
theorem status_byte_reports_header :
    let c := Lib.run StatusOp.step (scpiInit ⟨false, true⟩ (fun _ => 0) 17)
      [.coreSre 0x24, .coreEse 0x20, .errorPush (-113)]
    let stb := c.registers .stb
    (stb.getLsbD 6 = true ↔ ∃ i, i ≠ 6 ∧ stb.getLsbD i = true ∧ (c.registers .sre).getLsbD i = true) ∧
      (stb.getLsbD 2 = true ↔ c.errorQueue.contents ≠ []) ∧
      (∀ e : Event, c.registers e.reg = 0 → stb.getLsbD e.bit = false) ∧
      ∀ i, i ≠ 2 → i ≠ 6 → (∀ e : Event, i ≠ e.bit) → stb.getLsbD i = false :=
  status_byte_reports _ _ (by decide) _

/-- With a `control` callback a summary bit that comes up during calls has been sent to it, and
only status bytes that have the bit are sent; without one nothing is. -/
theorem service_request_sent (interface : ScpiInterface) (data : Nat → Int) {size : Nat}
    (hsize : 0 < size) (before ops : List StatusOp) :
    let c := Lib.run StatusOp.step (scpiInit interface data size) before
    let c' := Lib.run StatusOp.step c ops
    ∃ l, c'.calls = c.calls ++ l ∧
      (∀ v, .control v ∈ l → interface.control = true ∧ v.getLsbD 6 = true) ∧
      (interface.control = true → (c.registers .stb).getLsbD 6 = false →
        (c'.registers .stb).getLsbD 6 = true → ∃ v, .control v ∈ l) := by
  have hbefore := inv_run (inv_init interface data hsize) before
  obtain ⟨_, hstart⟩ := hbefore.sends
  obtain ⟨l, hl⟩ := (inv_run hbefore.good ops).sends
  have hcontrol := hl.control
  have hsent := hl.sent
  rw [hstart.interface] at hcontrol hsent
  exact ⟨l, hl.calls, hcontrol, hsent⟩

theorem service_request_sent_header :
    let c := Lib.run StatusOp.step (scpiInit ⟨true, true⟩ (fun _ => 0) 17) [.coreSre 0x24]
    let c' := Lib.run StatusOp.step c [.errorPush (-113)]
    ∃ l, c'.calls = c.calls ++ l ∧ (∃ v, .control v ∈ l) ∧
      ∀ v, .control v ∈ l → v.getLsbD 6 = true := by
  intro c c'
  obtain ⟨l, hcalls, hcontrol, hsent⟩ := service_request_sent ⟨true, true⟩ (fun _ => 0)
    (show 0 < 17 by decide) [.coreSre 0x24] [.errorPush (-113)]
  exact ⟨l, hcalls, hsent rfl (by decide) (by decide), fun v hv => (hcontrol v hv).2⟩

/-- The registers after `*CLS`: one event register after the other is cleared. -/
theorem coreCls_registers {c : Context} (h : c.Inv) {name : RegName} (hname : name ≠ .stb) :
    (scpiCoreCls c).registers name =
      if name = .ques then 0 else if name = .oper then 0 else if name = .esr then 0
      else (scpiErrorClear c).registers name := by
  have hempty := h.errorClear.good
  have hesr := (Context.Inv.setEvent hempty .esr 0).good
  have hoper := (Context.Inv.setEvent hesr .oper 0).good
  show (scpiRegSet _ Event.ques.reg 0).registers name = _
  rw [scpiRegSet_event_other hoper.master .ques 0 hname,
    scpiRegSet_event_other hesr.master .oper 0 hname,
    scpiRegSet_event_other hempty.master .esr 0 hname]
  rfl

theorem setStb_registers {c : Context} (hm : Master c) (val : RegVal) {name : RegName}
    (hname : name ≠ .stb) : (scpiRegSet c .stb val).registers name = c.registers name := by
  have sets := scpiRegSet_stb_sets hm val
  by_cases hsre : name = .sre
  · rw [hsre, sets.sre]
  · exact sets.other name hname hsre

theorem errorEmitEmpty_registers {c : Context} (hm : Master c) {name : RegName}
    (hname : name ≠ .stb) : (scpiErrorEmitEmpty c).registers name = c.registers name := by
  unfold scpiErrorEmitEmpty
  split
  · rw [writeError_registers]
    exact setStb_registers hm _ hname
  · rfl

theorem errorClear_registers {c : Context} (h : c.Inv) {name : RegName} (hname : name ≠ .stb) :
    (scpiErrorClear c).registers name = c.registers name :=
  errorEmitEmpty_registers (h.setQueue (fifoClear_wf c.errorQueue) rfl).good.master hname

/-- From every state, `*CLS` leaves no error, no event and an empty status byte, and the enable
and condition registers as they were. -/
theorem cls_clears_status (interface : ScpiInterface) (data : Nat → Int) {size : Nat}
    (hsize : 0 < size) (ops : List StatusOp) :
    let c := Lib.run StatusOp.step (scpiInit interface data size) ops
    let c' := scpiCoreCls c
    c'.errorQueue.contents = [] ∧ c'.registers .stb = 0 ∧ (∀ e : Event, c'.registers e.reg = 0) ∧
      ∀ name, name ≠ .stb → (∀ e : Event, name ≠ e.reg) → c'.registers name = c.registers name := by
  intro c c'
  have h : c.Inv := (inv_run (inv_init interface data hsize) ops).good
  have hempty : (scpiCoreCls c).errorQueue.contents = [] := by
    rw [scpiCoreCls_errorQueue]
    rfl
  have hevents : ∀ e : Event, c'.registers e.reg = 0 := fun e => by
    rw [coreCls_registers h e.reg_ne.1]
    cases e <;> rfl
  have h' := h.coreCls.good
  have hbits : ∀ i, i ≠ 6 → (c'.registers .stb).getLsbD i = false := by
    intro i h₆
    by_cases h₂ : i = 2
    · rw [h₂, h'.shows.qma]
      exact decide_eq_false (not_not.mpr hempty)
    · by_cases hi : ∃ e : Event, i = e.bit
      · obtain ⟨e, rfl⟩ := hi
        exact h'.shows.clear e (hevents e)
      · exact h'.shows.unused i h₂ h₆ fun e he => hi ⟨e, he⟩
  refine ⟨hempty, BitVec.eq_of_getLsbD_eq fun i _ => ?_, hevents, fun name hstb hreg => ?_⟩
  · rw [BitVec.ofNat_eq_ofNat, BitVec.getLsbD_zero]
    by_cases h₆ : i = 6
    · rw [h₆, h'.master.bit]
      refine decide_eq_false fun hreq => ?_
      obtain ⟨j, hj, hstb, -⟩ := requests_iff.mp hreq
      rw [hbits j hj] at hstb
      exact Bool.false_ne_true hstb
    · exact hbits i h₆
  · rw [coreCls_registers h hstb, if_neg (show name ≠ .ques from hreg .ques),
      if_neg (show name ≠ .oper from hreg .oper), if_neg (show name ≠ .esr from hreg .esr),
      errorClear_registers h hstb]

theorem cls_clears_status_header :
    let c := Lib.run StatusOp.step (scpiInit ⟨false, true⟩ (fun _ => 0) 17) [.coreEse 0x20, .errorPush (-113)]
    let c' := scpiCoreCls c
    c'.errorQueue.contents = [] ∧ c'.registers .stb = 0 ∧ (∀ e : Event, c'.registers e.reg = 0) ∧
      ∀ name, name ≠ .stb → (∀ e : Event, name ≠ e.reg) → c'.registers name = c.registers name :=
  cls_clears_status _ _ (by decide) _

end XHeepFemu.Scpi
