import XHeepFemu.Scpi.StatusRuns

/-!
# Stale summaries

The bits of the status byte that summarise the event registers stay right as long
as no write to an enable register changes what they should be: `SCPI_RegSet`
reports a change of an event register, and none of an enable register.
-/

namespace XHeepFemu.Scpi

/-- The summaries stay right if the status byte shows them as before and no event or enable
register changes. -/
theorem SummariesRight.of_eq {c c' : Context} (h : SummariesRight c)
    (hbit : ∀ e : Event, (c'.registers .stb).getLsbD e.bit = (c.registers .stb).getLsbD e.bit)
    (hother : ∀ name, name ≠ .stb → name ≠ .sre → c'.registers name = c.registers name) :
    SummariesRight c' := by
  intro e
  rw [hbit, hother e.reg e.reg_ne.1 e.reg_ne.2.1, hother e.enable e.enable_ne.1 e.enable_ne.2]
  exact h e

theorem Sets.right {c c' : Context} {sre stb : RegVal} (sets : Sets c sre stb c')
    (h : SummariesRight c) (hbit : ∀ e : Event, stb.getLsbD e.bit = (c.registers .stb).getLsbD e.bit) :
    SummariesRight c' := by
  refine h.of_eq (fun e => ?_) sets.other
  rw [sets.stb, getLsbD_withSrq, if_neg e.bit_ne.2, hbit]

theorem SummariesRight.setEvent {c : Context} (h : SummariesRight c) (hm : Master c) (e : Event)
    (val : RegVal) : SummariesRight (scpiRegSet c e.reg val) := by
  intro e'
  have henable : (scpiRegSet c e.reg val).registers e'.enable = c.registers e'.enable := by
    rw [scpiRegSet_event_other hm e val e'.enable_ne.1, if_neg (e.reg_ne.2.2 e').symm]
  rw [henable, scpiRegSet_event_other hm e val e'.reg_ne.1]
  by_cases hsame : c.registers e.reg = val
  · rw [scpiRegSet_event, if_pos hsame, h e']
    split
    · rename_i heq
      rw [heq, hsame]
    · rfl
  · have hm' : Master (c.setReg e.reg val) := by
      unfold Master
      rw [Context.setReg_other c val e.reg_ne.1.symm, Context.setReg_other c val e.reg_ne.2.1.symm]
      exact hm
    have sets := scpiRegSet_stb_sets hm' (report e val (c.registers e.enable) (c.registers .stb))
    rw [scpiRegSet_event, if_neg hsame, sets.stb, getLsbD_withSrq, if_neg e'.bit_ne.2,
      getLsbD_report]
    by_cases heq : e' = e
    · rw [heq, if_pos rfl, if_pos rfl]
    · rw [if_neg fun hb => heq (Event.bit_inj hb), if_neg fun hr => heq (Event.reg_inj hr), h e']

theorem SummariesRight.setCondition {c : Context} (h : SummariesRight c) (hm : Master c)
    (k : Condition) (val : RegVal) : SummariesRight (scpiRegSet c k.reg val) := by
  have hne : ∀ name, (name = .stb ∨ name = .sre ∨ ∃ e : Event, name = e.reg ∨ name = e.enable) →
      name ≠ k.reg := by
    rintro name (rfl | rfl | ⟨e, rfl | rfl⟩)
    · cases k <;> decide
    · cases k <;> decide
    · cases k <;> cases e <;> decide
    · cases k <;> cases e <;> decide
  have hset : ∀ name, (name = .stb ∨ name = .sre ∨ ∃ e : Event, name = e.reg ∨ name = e.enable) →
      (c.setReg k.reg val).registers name = c.registers name :=
    fun name hname => Context.setReg_other c val (hne name hname)
  rw [scpiRegSet_condition]
  split
  · exact h
  · refine SummariesRight.setEvent (fun e => ?_) ?_ _ _
    · rw [hset .stb (.inl rfl), hset e.reg (.inr (.inr ⟨e, .inl rfl⟩)),
        hset e.enable (.inr (.inr ⟨e, .inr rfl⟩))]
      exact h e
    · unfold Master
      rw [hset .stb (.inl rfl), hset .sre (.inr (.inl rfl))]
      exact hm

/-- The status byte is changed in the bit of the error queue. -/
theorem SummariesRight.setQma {c : Context} (h : SummariesRight c) (hm : Master c) (p : Prop)
    [Decidable p] : SummariesRight (scpiRegSet c .stb
      (if p then c.registers .stb ||| stbQma else c.registers .stb &&& ~~~stbQma)) := by
  refine (scpiRegSet_stb_sets hm _).right h fun e => ?_
  rw [getLsbD_setBit getLsbD_stbQma (by decide), if_neg e.bit_ne.1]

theorem SummariesRight.writeError {c : Context} (h : SummariesRight c) (err : Int) :
    SummariesRight (writeError c err) := by
  unfold SummariesRight
  rw [writeError_registers]
  exact h

theorem SummariesRight.emit {c : Context} (h : SummariesRight c) (hm : Master c) (err : Int) :
    SummariesRight (scpiErrorEmit c err) := by
  have hset := h.setQma hm True
  rw [if_pos trivial] at hset
  exact hset.writeError err

theorem SummariesRight.emitEmpty {c : Context} (h : SummariesRight c) (hm : Master c) :
    SummariesRight (scpiErrorEmitEmpty c) := by
  unfold scpiErrorEmitEmpty
  split
  · have hset := h.setQma hm False
    rw [if_neg not_false] at hset
    exact hset.writeError 0
  · exact h

theorem SummariesRight.setErrorClass {c : Context} {q : Bool} (h : SummariesRight c)
    (hgood : c.Good q) (err : Int) : SummariesRight (setErrorClass c err) := by
  unfold Scpi.setErrorClass
  generalize errs = es
  induction es generalizing c with
  | nil => exact h
  | cons e es ih =>
    rw [List.foldl_cons]
    split
    · exact ih (h.setEvent hgood.master .esr _) (hgood.setBits _).good
    · exact ih h hgood

theorem SummariesRight.errorPush {c : Context} (h : SummariesRight c) (hinv : c.Inv) (err : Int) :
    SummariesRight (scpiErrorPush c err) := by
  obtain ⟨wf, hsize, -⟩ := scpiErrorAddInternal_spec hinv.wf hinv.size err
  have hqueue := (hinv.setQueue wf hsize).good
  have hclass := (hqueue.setErrorClass err).good
  have hsame : SummariesRight { c with errorQueue := (scpiErrorAddInternal c.errorQueue err).1 } := h
  have hright := hsame.setErrorClass hqueue err
  have hemit := hright.emit hclass.master err
  have hover := hemit.emit (hclass.emit err).good.master scpiErrorQueueOverflow
  unfold scpiErrorPush
  simp only
  split
  · exact hemit
  · exact hover

/-- The enable register that a call writes, and its value. -/
def StatusOp.enables : StatusOp → Option (Event × RegVal)
  | .coreEse newEse => some (.esr, newEse.setWidth 16)
  | .questionableEnable newQuese => some (.ques, newQuese.setWidth 16)
  | .operationEnable newOpere => some (.oper, newOpere.setWidth 16)
  | _ => none

/-- A write to an enable register that changes whether its event register is summarised. -/
def Spoils (c : Context) (op : StatusOp) : Prop :=
  ∃ e v, op.enables = some (e, v) ∧
    ¬(c.registers e.reg &&& v ≠ 0 ↔ c.registers e.reg &&& c.registers e.enable ≠ 0)

theorem summariesRight_enable {c : Context} (h : SummariesRight c) (e : Event) (v : RegVal) :
    SummariesRight (scpiRegSet c e.enable v) ↔
      (c.registers e.reg &&& v ≠ 0 ↔ c.registers e.reg &&& c.registers e.enable ≠ 0) := by
  rw [scpiRegSet_enable]
  have hstb := Context.setReg_other c v e.enable_ne.1.symm
  have hreg : ∀ e' : Event, (c.setReg e.enable v).registers e'.reg = c.registers e'.reg :=
    fun e' => Context.setReg_other c v (e'.reg_ne.2.2 e)
  constructor
  · intro h'
    have h' := h' e
    rw [hstb, hreg, Context.setReg_self, h e, decide_eq_decide] at h'
    exact h'.symm
  · intro hsame e'
    rw [hstb, hreg, h e']
    by_cases heq : e'.enable = e.enable
    · obtain rfl : e' = e := by cases e <;> cases e' <;> first | rfl | cases heq
      rw [Context.setReg_self, decide_eq_decide]
      exact hsame.symm
    · rw [Context.setReg_other c v heq]

theorem summariesRight_step {c : Context} (hinv : c.Inv) (h : SummariesRight c) (op : StatusOp) :
    SummariesRight (op.step c) ↔ ¬Spoils c op := by
  have henable : ∀ e v, op.enables = some (e, v) → op.step c = scpiRegSet c e.enable v →
      (SummariesRight (op.step c) ↔ ¬Spoils c op) := by
    intro e v hop hstep
    rw [hstep, summariesRight_enable h]
    constructor
    · rintro hiff ⟨e', v', hop', hnot⟩
      cases hop.symm.trans hop'
      exact hnot hiff
    · intro hnot
      by_contra hiff
      exact hnot ⟨e, v, hop, hiff⟩
  have hkeep : op.enables = none → SummariesRight (op.step c) →
      (SummariesRight (op.step c) ↔ ¬Spoils c op) := by
    refine fun hop hright => ⟨fun _ => ?_, fun _ => hright⟩
    rintro ⟨e, v, hop', -⟩
    cases hop.symm.trans hop'
  have hclear : SummariesRight (scpiErrorClear c) :=
    SummariesRight.emitEmpty (fun e => h e) (hinv.setQueue (fifoClear_wf c.errorQueue) rfl).good.master
  cases op with
  | errorPush err => exact hkeep rfl (h.errorPush hinv err)
  | errorPop =>
    have hqueue := (hinv.setQueue (fifoRemove_wf hinv.wf) (fifoRemove_size c.errorQueue)).good
    exact hkeep rfl (SummariesRight.emitEmpty (fun e => h e) hqueue.master)
  | errorClear => exact hkeep rfl hclear
  | errorCountQ => exact hkeep rfl h
  | coreCls =>
    have hempty := hinv.errorClear.good
    have hesr := (Context.Inv.setEvent hempty .esr 0).good
    have hoper := (Context.Inv.setEvent hesr .oper 0).good
    exact hkeep rfl (((hclear.setEvent hempty.master .esr 0).setEvent hesr.master .oper 0).setEvent
      hoper.master .ques 0)
  | coreEse newEse => exact henable .esr _ rfl rfl
  | coreEsrQ => exact hkeep rfl (h.setEvent hinv.master .esr 0)
  | coreOpc => exact hkeep rfl (h.setEvent hinv.master .esr _)
  | coreSre newSre => exact hkeep rfl ((scpiRegSet_sre_sets hinv.master _).right h fun _ => rfl)
  | questionableEventQ => exact hkeep rfl (h.setEvent hinv.master .ques 0)
  | questionableEnable newQuese => exact henable .ques _ rfl rfl
  | operationEventQ => exact hkeep rfl (h.setEvent hinv.master .oper 0)
  | operationEnable newOpere => exact henable .oper _ rfl rfl
  | preset => exact hkeep rfl (h.setEvent hinv.master .ques 0)
  | regQ name => exact hkeep rfl h
  | setEvent e val => exact hkeep rfl (h.setEvent hinv.master e val)
  | setCondition k val => exact hkeep rfl (h.setCondition hinv.master k val)

/-- The status byte summarises the event registers rightly after every call of a run, if and only
if no call of it spoils a summary. -/
theorem summaries_right_iff (interface : ScpiInterface) (data : Nat → Int) {size : Nat}
    (hsize : 0 < size) (ops : List StatusOp) :
    let c := scpiInit interface data size
    Lib.AllSteps StatusOp.step (fun c op => SummariesRight (op.step c)) c ops ↔
      Lib.AllSteps StatusOp.step (fun c op => ¬Spoils c op) c ops := by
  intro c
  have hinit : SummariesRight c := by
    intro e
    show (0#16).getLsbD e.bit = decide ((0#16) &&& 0#16 ≠ 0#16)
    rw [BitVec.getLsbD_zero, BitVec.zero_and]
    rfl
  have agree : ∀ c op, c.Inv ∧ SummariesRight c → (SummariesRight (op.step c) ↔ ¬Spoils c op) :=
    fun c op h => summariesRight_step h.1 h.2 op
  refine Lib.allSteps_iff agree (fun c op h hop => ⟨(h.1.step op).good, ?_⟩) ops
    ⟨inv_init interface data hsize, hinit⟩
  exact (summariesRight_step h.1 h.2 op).mpr hop

/-- An enable bit that is set before its event comes, and one that is set after. -/
theorem summaries_right_late :
    let c := scpiInit ⟨false, true⟩ (fun _ => 0) 17
    Lib.AllSteps StatusOp.step (fun c op => SummariesRight (op.step c)) c
        [.coreEse 0x20, .errorPush (-113), .coreEsrQ] ∧
      ¬Lib.AllSteps StatusOp.step (fun c op => SummariesRight (op.step c)) c
        [.errorPush (-113), .coreEse 0x20] := by
  have hsize : 0 < 17 := by decide
  have hnone : ∀ (c : Context) {op : StatusOp}, op.enables = none → ¬Spoils c op := by
    rintro c op hop ⟨e, v, h, -⟩
    rw [hop] at h
    cases h
  constructor
  · refine (summaries_right_iff _ _ hsize _).mpr ⟨?_, hnone _ rfl, hnone _ rfl, trivial⟩
    rintro ⟨e, v, h, hspoils⟩
    cases h
    exact hspoils (by decide)
  · intro h
    obtain ⟨-, hlate, -⟩ := (summaries_right_iff _ _ hsize _).mp h
    exact hlate ⟨.esr, 0x20, rfl, by decide⟩

end XHeepFemu.Scpi
