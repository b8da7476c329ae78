import XHeepFemu.Scpi.Status

/-!
# The status byte

What each register write and each change of the error queue does to the status
byte. `Context.Good` is kept by all of them: the byte has the summary that its
enable register asks for, and shows no event register that is clear. `Sends` says
which service requests are sent on the way.
-/

namespace XHeepFemu.Scpi

/-! ## Bits -/

theorem getLsbD_stbSrq {i : Nat} (hi : i < 16) : stbSrq.getLsbD i = decide (i = 6) := by
  revert i
  decide

theorem getLsbD_stbQma {i : Nat} (hi : i < 16) : stbQma.getLsbD i = decide (i = 2) := by
  revert i
  decide

theorem Event.getLsbD_mask (e : Event) {i : Nat} (hi : i < 16) :
    e.mask.getLsbD i = decide (i = e.bit) := by
  revert i
  cases e <;> decide

theorem Event.bit_lt (e : Event) : e.bit < 16 := by cases e <;> decide

theorem Event.bit_ne (e : Event) : e.bit ≠ 2 ∧ e.bit ≠ 6 := by cases e <;> decide

theorem Event.bit_inj {e e' : Event} (h : e.bit = e'.bit) : e = e' := by
  cases e <;> cases e' <;> first | rfl | cases h

theorem Event.reg_inj {e e' : Event} (h : e.reg = e'.reg) : e = e' := by
  cases e <;> cases e' <;> first | rfl | cases h

/-- One bit of a register set or cleared. -/
theorem getLsbD_setBit {mask : RegVal} {b : Nat}
    (hmask : ∀ {i}, i < 16 → mask.getLsbD i = decide (i = b)) (hb : b < 16) (p : Prop) [Decidable p]
    (v : RegVal) (i : Nat) :
    (if p then v ||| mask else v &&& ~~~mask).getLsbD i =
      if i = b then decide p else v.getLsbD i := by
  by_cases hi : i < 16
  · by_cases hp : p
    · rw [if_pos hp, BitVec.getLsbD_or, hmask hi]
      by_cases h : i = b <;> simp [h, hp]
    · rw [if_neg hp, BitVec.getLsbD_and, BitVec.getLsbD_not, hmask hi]
      by_cases h : i = b <;> simp [h, hp, hi, hb]
  · have hge : 16 ≤ i := Nat.le_of_not_lt hi
    rw [BitVec.getLsbD_of_ge _ _ hge, if_neg (by omega), BitVec.getLsbD_of_ge _ _ hge]

@[simp] theorem getLsbD_withSrq (sre stb : RegVal) (i : Nat) :
    (withSrq sre stb).getLsbD i = if i = 6 then decide (Requests sre stb) else stb.getLsbD i :=
  getLsbD_setBit getLsbD_stbSrq (by decide) _ _ _

@[simp] theorem getLsbD_report (e : Event) (val enable stb : RegVal) (i : Nat) :
    (report e val enable stb).getLsbD i =
      if i = e.bit then decide (val &&& enable ≠ 0) else stb.getLsbD i :=
  getLsbD_setBit e.getLsbD_mask e.bit_lt _ _ _

/-- A request is an enabled bit. -/
theorem requests_iff {sre stb : RegVal} : Requests sre stb ↔
    ∃ i, i ≠ 6 ∧ stb.getLsbD i = true ∧ sre.getLsbD i = true := by
  have hbit : ∀ i, i < 16 → ((stb &&& ~~~stbSrq) &&& (sre &&& ~~~stbSrq)).getLsbD i =
      ((stb.getLsbD i && sre.getLsbD i) && !decide (i = 6)) := by
    intro i hi
    simp only [BitVec.getLsbD_and, BitVec.getLsbD_not, getLsbD_stbSrq hi, hi, decide_true,
      Bool.true_and]
    cases stb.getLsbD i <;> cases sre.getLsbD i <;> cases decide (i = 6) <;> rfl
  unfold Requests
  rw [Ne, BitVec.eq_of_getLsbD_eq_iff]
  constructor
  · intro h
    obtain ⟨i, h⟩ := not_forall.mp h
    obtain ⟨hi, h⟩ := Classical.not_imp.mp h
    rw [hbit i hi, BitVec.ofNat_eq_ofNat, BitVec.getLsbD_zero] at h
    have h := Bool.eq_true_of_not_eq_false h
    simp only [Bool.and_eq_true, Bool.not_eq_true', decide_eq_false_iff_not] at h
    exact ⟨i, h.2, h.1⟩
  · rintro ⟨i, hne, hstb, hsre⟩ h
    have hi : i < 16 := by
      by_contra hge
      rw [BitVec.getLsbD_of_ge _ _ (Nat.le_of_not_lt hge)] at hstb
      exact Bool.false_ne_true hstb
    have h := h i hi
    rw [hbit i hi, hstb, hsre, decide_eq_false hne] at h
    exact absurd h (by rw [BitVec.ofNat_eq_ofNat, BitVec.getLsbD_zero]; decide)

theorem requests_congr {sre stb stb' : RegVal} (h : ∀ i, i ≠ 6 → stb'.getLsbD i = stb.getLsbD i) :
    Requests sre stb' ↔ Requests sre stb := by
  simp only [requests_iff]
  refine exists_congr fun i => and_congr_right fun hne => ?_
  rw [h i hne]

/-- A bit that was not there before. -/
theorem rises_of_bit {old val : RegVal} {i : Nat} (hold : old.getLsbD i = false)
    (hval : val.getLsbD i = true) : (old ^^^ val) &&& val ≠ 0 := by
  intro h
  have hbit := congrArg (fun v => BitVec.getLsbD v i) h
  simp [hold, hval] at hbit

/-! ## One register -/

/-- The summary bit is the one that is asked for. -/
def Master (c : Context) : Prop :=
  withSrq (c.registers .sre) (c.registers .stb) = c.registers .stb

theorem master_withSrq (sre stb : RegVal) : withSrq sre (withSrq sre stb) = withSrq sre stb := by
  have hbits : ∀ i, i ≠ 6 → (withSrq sre stb).getLsbD i = stb.getLsbD i := fun i hne => by
    rw [getLsbD_withSrq, if_neg hne]
  refine BitVec.eq_of_getLsbD_eq fun i _ => ?_
  rw [getLsbD_withSrq]
  split
  · rename_i h
    rw [getLsbD_withSrq, if_pos h, decide_eq_decide]
    exact requests_congr hbits
  · rfl

/-- Bit 6, in a context whose summary is right. -/
theorem Master.bit {c : Context} (h : Master c) :
    (c.registers .stb).getLsbD 6 = decide (Requests (c.registers .sre) (c.registers .stb)) := by
  rw [← h, getLsbD_withSrq, if_pos rfl, h]

/-- What is sent are status bytes that have the summary, and a summary that comes is sent, to a
controller that is there. -/
structure Sends (c c' : Context) (l : List InterfaceCall) : Prop where
  interface : c'.interface = c.interface
  calls : c'.calls = c.calls ++ l
  control : ∀ v, .control v ∈ l → c.interface.control = true ∧ v.getLsbD 6 = true
  sent : c.interface.control = true → (c.registers .stb).getLsbD 6 = false →
    (c'.registers .stb).getLsbD 6 = true → ∃ v, .control v ∈ l

theorem Sends.refl (c : Context) : Sends c c [] where
  interface := rfl
  calls := (List.append_nil _).symm
  control := nofun
  sent _ h h' := absurd (h.symm.trans h') (by decide)

theorem Sends.trans {c c' c'' : Context} {l l' : List InterfaceCall} (h : Sends c c' l)
    (h' : Sends c' c'' l') : Sends c c'' (l ++ l') where
  interface := h'.interface.trans h.interface
  calls := by rw [h'.calls, h.calls, List.append_assoc]
  control v hv := (List.mem_append.mp hv).elim (h.control v) fun hv => h.interface ▸ h'.control v hv
  sent hcontrol hbefore hafter := by
    cases hmid : (c'.registers .stb).getLsbD 6 with
    | true => exact (h.sent hcontrol hbefore hmid).imp fun _ => List.mem_append_left _
    | false =>
      have hcontrol' : c'.interface.control = true := by rw [h.interface, hcontrol]
      exact (h'.sent hcontrol' hmid hafter).imp fun _ => List.mem_append_right _

/-- Nothing is sent as long as the status byte stays. -/
theorem Sends.quiet {c c' : Context} (hinterface : c'.interface = c.interface)
    (hcalls : c'.calls = c.calls) (hstb : c'.registers .stb = c.registers .stb) :
    Sends c c' [] where
  interface := hinterface
  calls := by rw [hcalls, List.append_nil]
  control := nofun
  sent _ h h' := by
    rw [hstb, h] at h'
    exact absurd h' Bool.false_ne_true

theorem summarise_registers (c : Context) (oldVal val : RegVal) (name : RegName) :
    (summarise c oldVal val).registers name =
      if name = .stb then withSrq (c.registers .sre) (c.registers .stb) else c.registers name := by
  unfold summarise
  simp only
  split <;> · simp only [writeControl_registers, Context.setReg, Function.update_apply]

@[simp] theorem summarise_interface (c : Context) (oldVal val : RegVal) :
    (summarise c oldVal val).interface = c.interface := by
  unfold summarise
  simp only
  split
  · exact writeControl_interface _ _
  · rfl

@[simp] theorem summarise_errorQueue (c : Context) (oldVal val : RegVal) :
    (summarise c oldVal val).errorQueue = c.errorQueue := by
  unfold summarise
  simp only
  split
  · exact writeControl_errorQueue _ _
  · rfl

/-- A request is sent if a bit of the register that was written rose. -/
theorem summarise_sends (c : Context) (oldVal val : RegVal) :
    ∃ l, (summarise c oldVal val).calls = c.calls ++ l ∧
      (∀ v, .control v ∈ l → c.interface.control = true ∧ v.getLsbD 6 = true) ∧
      (c.interface.control = true → Requests (c.registers .sre) (c.registers .stb) →
        (oldVal ^^^ val) &&& val ≠ 0 → ∃ v, .control v ∈ l) := by
  by_cases h : Requests (c.registers .sre) (c.registers .stb) ∧ (oldVal ^^^ val) &&& val ≠ 0
  · refine ⟨if c.interface.control then [.control (withSrq (c.registers .sre) (c.registers .stb))]
      else [], ?_, fun v hv => ?_, fun hcontrol _ _ => ?_⟩
    · unfold summarise
      simp only [if_pos h, writeControl_calls, Context.setReg_calls, Context.setReg_self]
      rfl
    · split at hv
      · rename_i hcontrol
        cases List.mem_singleton.mp hv
        rw [getLsbD_withSrq, if_pos rfl]
        exact ⟨hcontrol, decide_eq_true h.1⟩
      · cases hv
    · rw [if_pos hcontrol]
      exact ⟨_, List.mem_cons_self⟩
  · refine ⟨[], ?_, nofun, fun _ hreq hrise => absurd ⟨hreq, hrise⟩ h⟩
    unfold summarise
    simp only [if_neg h, Context.setReg_calls, List.append_nil]

/-- What setting a register does to the status byte's own group, and what it sends. -/
structure Sets (c : Context) (sre stb : RegVal) (c' : Context) : Prop where
  stb : c'.registers .stb = withSrq sre stb
  sre : c'.registers .sre = sre
  other : ∀ name, name ≠ .stb → name ≠ .sre → c'.registers name = c.registers name
  errorQueue : c'.errorQueue = c.errorQueue
  sends : ∃ l, Sends c c' l

theorem Sets.master {c c' : Context} {sre stb : RegVal} (h : Sets c sre stb c') : Master c' := by
  unfold Master
  rw [h.stb, h.sre, master_withSrq]

theorem summarise_sets {c : Context} (hm : Master c) {sre stb oldVal val : RegVal}
    {c₁ : Context} (hsre : c₁.registers .sre = sre) (hstb : c₁.registers .stb = stb)
    (hother : ∀ name, name ≠ .stb → name ≠ .sre → c₁.registers name = c.registers name)
    (hqueue : c₁.errorQueue = c.errorQueue) (hcalls : c₁.calls = c.calls)
    (hinterface : c₁.interface = c.interface)
    (hrise : ¬Requests (c.registers .sre) (c.registers .stb) → Requests sre stb →
      (oldVal ^^^ val) &&& val ≠ 0) :
    Sets c sre stb (summarise c₁ oldVal val) := by
  obtain ⟨l, hl, hcontrol, hsent⟩ := summarise_sends c₁ oldVal val
  rw [hinterface] at hcontrol hsent
  rw [hsre, hstb] at hsent
  have hafter : (summarise c₁ oldVal val).registers .stb = withSrq sre stb := by
    rw [summarise_registers, if_pos rfl, hsre, hstb]
  refine ⟨hafter, ?_, fun name h₁ h₂ => ?_, ?_, l, ?_, ?_, hcontrol,
    fun hinstalled hbefore hbit => ?_⟩
  · rw [summarise_registers, if_neg (by decide), hsre]
  · rw [summarise_registers, if_neg h₁, hother name h₁ h₂]
  · rw [summarise_errorQueue, hqueue]
  · rw [summarise_interface, hinterface]
  · rw [hl, hcalls]
  · rw [hm.bit] at hbefore
    rw [hafter, getLsbD_withSrq, if_pos rfl] at hbit
    have hreq := of_decide_eq_true hbit
    exact hsent hinstalled hreq (hrise (of_decide_eq_false hbefore) hreq)

theorem scpiRegSet_stb_sets {c : Context} (hm : Master c) (val : RegVal) :
    Sets c (c.registers .sre) val (scpiRegSet c .stb val) := by
  rw [scpiRegSet_stb]
  split
  · rename_i h
    subst h
    exact ⟨hm.symm, rfl, fun _ _ _ => rfl, rfl, [], .refl c⟩
  · refine summarise_sets hm (Context.setReg_other _ _ (by decide)) (Context.setReg_self _ _ _)
      (fun name h _ => Context.setReg_other _ _ h) rfl rfl rfl fun hnot hreq => ?_
    obtain ⟨i, hne, hval, hsre⟩ := requests_iff.mp hreq
    have hold := fun h => hnot (requests_iff.mpr ⟨i, hne, h, hsre⟩)
    exact rises_of_bit (Bool.eq_false_iff.mpr hold) hval

theorem scpiRegSet_sre_sets {c : Context} (hm : Master c) (val : RegVal) :
    Sets c val (c.registers .stb) (scpiRegSet c .sre val) := by
  rw [scpiRegSet_sre]
  split
  · rename_i h
    subst h
    exact ⟨hm.symm, rfl, fun _ _ _ => rfl, rfl, [], .refl c⟩
  · refine summarise_sets hm (Context.setReg_self _ _ _) (Context.setReg_other _ _ (by decide))
      (fun name _ h => Context.setReg_other _ _ h) rfl rfl rfl fun hnot hreq => ?_
    obtain ⟨i, hne, hstb, hval⟩ := requests_iff.mp hreq
    have hold := fun h => hnot (requests_iff.mpr ⟨i, hne, hstb, h⟩)
    exact rises_of_bit (Bool.eq_false_iff.mpr hold) hval

/-! ## The invariant -/

/-- The summary of every event register is up to date. -/
def SummariesRight (c : Context) : Prop := ∀ e : Event, (c.registers .stb).getLsbD e.bit =
  decide (c.registers e.reg &&& c.registers e.enable ≠ 0)

/-- `val` is a status byte that shows `q` for the error queue, and no event register that is
clear. -/
structure Shows (c : Context) (q : Bool) (val : RegVal) : Prop where
  qma : val.getLsbD 2 = q
  clear : ∀ e : Event, c.registers e.reg = 0 → val.getLsbD e.bit = false
  unused : ∀ i, i ≠ 2 → i ≠ 6 → (∀ e : Event, i ≠ e.bit) → val.getLsbD i = false

/-- What holds also between a change of the error queue and its report. -/
structure Context.Good (c : Context) (q : Bool) : Prop where
  wf : c.errorQueue.Wf
  size : 0 < c.errorQueue.size
  master : Master c
  shows : Shows c q (c.registers .stb)

/-- The invariant between calls. -/
def Context.Inv (c : Context) : Prop := c.Good (decide (c.errorQueue.contents ≠ []))

/-- A good context follows, and the calls of the interface on the way. -/
structure Moves (c c' : Context) (q : Bool) : Prop where
  good : c'.Good q
  sends : ∃ l, Sends c c' l

theorem Moves.trans {c c' c'' : Context} {q q' : Bool} (h : Moves c c' q) (h' : Moves c' c'' q') :
    Moves c c'' q' := by
  obtain ⟨l, hl⟩ := h.sends
  obtain ⟨l', hl'⟩ := h'.sends
  exact ⟨h'.good, l ++ l', hl.trans hl'⟩

theorem Moves.refl {c : Context} {q : Bool} (h : c.Good q) : Moves c c q :=
  ⟨h, [], .refl c⟩

theorem Shows.withSrq {c c' : Context} {q : Bool} {val : RegVal} (h : Shows c q val) (sre : RegVal)
    (hreg : ∀ e : Event, c'.registers e.reg = c.registers e.reg) : Shows c' q (withSrq sre val) := by
  refine ⟨?_, fun e he => ?_, fun i h₂ h₆ hi => ?_⟩
  · rw [getLsbD_withSrq, if_neg (by decide), h.qma]
  · rw [getLsbD_withSrq, if_neg e.bit_ne.2, h.clear e ((hreg e).symm.trans he)]
  · rw [getLsbD_withSrq, if_neg h₆, h.unused i h₂ h₆ hi]

theorem Event.reg_ne (e : Event) : e.reg ≠ .stb ∧ e.reg ≠ .sre ∧ ∀ e' : Event, e.reg ≠ e'.enable := by
  refine ⟨?_, ?_, fun e' => ?_⟩
  · cases e <;> decide
  · cases e <;> decide
  · cases e <;> cases e' <;> decide

theorem Condition.reg_ne (k : Condition) :
    k.reg ≠ .stb ∧ k.reg ≠ .sre ∧ ∀ e : Event, e.reg ≠ k.reg := by
  refine ⟨?_, ?_, fun e => ?_⟩
  · cases k <;> decide
  · cases k <;> decide
  · cases k <;> cases e <;> decide

theorem Event.enable_ne (e : Event) : e.enable ≠ .stb ∧ e.enable ≠ .sre := by
  cases e <;> decide

/-- The registers after an event register is set. -/
theorem scpiRegSet_event_other {c : Context} (hm : Master c) (e : Event) (val : RegVal)
    {name : RegName} (hname : name ≠ .stb) :
    (scpiRegSet c e.reg val).registers name = if name = e.reg then val else c.registers name := by
  rw [scpiRegSet_event]
  split
  · rename_i h
    split
    · rename_i hreg
      rw [hreg, h]
    · rfl
  · have hm' : Master (c.setReg e.reg val) := by
      unfold Master
      rw [Context.setReg_other c val e.reg_ne.1.symm, Context.setReg_other c val e.reg_ne.2.1.symm]
      exact hm
    have sets := scpiRegSet_stb_sets hm' (report e val (c.registers e.enable) (c.registers .stb))
    have hkept : (scpiRegSet (c.setReg e.reg val) .stb
        (report e val (c.registers e.enable) (c.registers .stb))).registers name =
          (c.setReg e.reg val).registers name := by
      by_cases hsre : name = .sre
      · rw [hsre, sets.sre]
      · exact sets.other name hname hsre
    rw [hkept]
    split
    · rename_i hreg
      rw [hreg, Context.setReg_self]
    · rename_i hreg
      exact Context.setReg_other c val hreg

/-- The status byte is set to a value that shows what it should. -/
theorem moves_setStb {c : Context} {q : Bool} {val : RegVal} (wf : c.errorQueue.Wf)
    (size : 0 < c.errorQueue.size) (hm : Master c) (hval : Shows c q val) :
    Moves c (scpiRegSet c .stb val) q := by
  have sets := scpiRegSet_stb_sets hm val
  refine ⟨⟨?_, ?_, sets.master, ?_⟩, sets.sends⟩
  · rw [sets.errorQueue]
    exact wf
  · rw [sets.errorQueue]
    exact size
  · rw [sets.stb]
    exact hval.withSrq _ fun e => sets.other _ e.reg_ne.1 e.reg_ne.2.1

section Registers

variable {c : Context} {q : Bool} (h : c.Good q)

include h

theorem Context.Good.setSre (val : RegVal) : Moves c (scpiRegSet c .sre val) q := by
  have sets := scpiRegSet_sre_sets h.master val
  refine ⟨⟨?_, ?_, sets.master, ?_⟩, sets.sends⟩
  · rw [sets.errorQueue]
    exact h.wf
  · rw [sets.errorQueue]
    exact h.size
  · rw [sets.stb]
    exact h.shows.withSrq _ fun e => sets.other _ e.reg_ne.1 e.reg_ne.2.1

/-- A register is written that the status byte does not show. -/
theorem Context.Good.setReg {name : RegName} (val : RegVal) (hstb : name ≠ .stb)
    (hsre : name ≠ .sre) (hreg : ∀ e : Event, e.reg ≠ name) : Moves c (c.setReg name val) q := by
  have hsame := Context.setReg_other c val hstb.symm
  refine ⟨⟨h.wf, h.size, ?_, ?_, fun e he => ?_, ?_⟩, [], .quiet rfl rfl hsame⟩
  · unfold Master
    rw [hsame, Context.setReg_other c val hsre.symm]
    exact h.master
  · rw [hsame, h.shows.qma]
  · rw [hsame]
    exact h.shows.clear e ((Context.setReg_other c val (hreg e)).symm.trans he)
  · intro i h₂ h₆ hi
    rw [hsame]
    exact h.shows.unused i h₂ h₆ hi

theorem Context.Good.setEnable (e : Event) (val : RegVal) :
    Moves c (scpiRegSet c e.enable val) q := by
  rw [scpiRegSet_enable]
  exact h.setReg val e.enable_ne.1 e.enable_ne.2 fun e' => e'.reg_ne.2.2 e

/-- An event register is written and reported. -/
theorem Context.Good.setEvent (e : Event) (val : RegVal) : Moves c (scpiRegSet c e.reg val) q := by
  rw [scpiRegSet_event]
  split
  · exact .refl h
  · have hsame := Context.setReg_other c val e.reg_ne.1.symm
    have hm : Master (c.setReg e.reg val) := by
      unfold Master
      rw [hsame, Context.setReg_other c val e.reg_ne.2.1.symm]
      exact h.master
    have hmoves : Moves (c.setReg e.reg val) (scpiRegSet (c.setReg e.reg val) .stb
        (report e val (c.registers e.enable) (c.registers .stb))) q := by
      refine moves_setStb h.wf h.size hm ⟨?_, fun e' he' => ?_, fun i h₂ h₆ hi => ?_⟩
      · rw [getLsbD_report, if_neg e.bit_ne.1.symm, h.shows.qma]
      · rw [getLsbD_report]
        by_cases heq : e' = e
        · subst heq
          have hval : val = 0 := (Context.setReg_self c _ val).symm.trans he'
          rw [if_pos rfl, hval, BitVec.ofNat_eq_ofNat, BitVec.zero_and]
          rfl
        · have hne : e'.reg ≠ e.reg := fun h => heq (Event.reg_inj h)
          rw [if_neg fun hb => heq (Event.bit_inj hb)]
          exact h.shows.clear e' ((Context.setReg_other c val hne).symm.trans he')
      · rw [getLsbD_report, if_neg (hi e), h.shows.unused i h₂ h₆ hi]
    have hquiet : Sends c (c.setReg e.reg val) [] := .quiet rfl rfl hsame
    obtain ⟨l, hl⟩ := hmoves.sends
    exact ⟨hmoves.good, l, hquiet.trans hl⟩

theorem Context.Good.setCondition (k : Condition) (val : RegVal) :
    Moves c (scpiRegSet c k.reg val) q := by
  rw [scpiRegSet_condition]
  split
  · exact .refl h
  · have hset := h.setReg val k.reg_ne.1 k.reg_ne.2.1 k.reg_ne.2.2
    exact hset.trans (hset.good.setEvent _ _)

end Registers

/-! ## The error queue -/

/-- The error queue is replaced, and not yet reported. -/
theorem Context.Good.setQueue {c : Context} {q : Bool} (h : c.Good q) {queue : Fifo Int}
    (wf : queue.Wf) (hsize : queue.size = c.errorQueue.size) :
    Moves c { c with errorQueue := queue } q :=
  ⟨⟨wf, hsize.symm ▸ h.size, h.master, h.shows.qma, h.shows.clear, h.shows.unused⟩, [],
    .quiet rfl rfl rfl⟩

/-- An error is announced: nothing of a status byte changes. -/
theorem Context.Good.error {c : Context} {q : Bool} (h : c.Good q) (err : Int) :
    Moves c (writeError c err) q := by
  unfold writeError
  split
  · refine ⟨⟨h.wf, h.size, h.master, h.shows.qma, h.shows.clear, h.shows.unused⟩, [.error err], rfl,
      rfl, fun v hv => ?_, fun _ hbefore hafter => ?_⟩
    · cases List.mem_singleton.mp hv
    · exact absurd (hbefore.symm.trans hafter) (by decide)
  · exact .refl h

@[simp] theorem writeError_registers (c : Context) (err : Int) :
    (writeError c err).registers = c.registers := by
  unfold writeError
  split <;> rfl

@[simp] theorem writeError_errorQueue (c : Context) (err : Int) :
    (writeError c err).errorQueue = c.errorQueue := by
  unfold writeError
  split <;> rfl

theorem Context.Good.emit {c : Context} {q : Bool} (h : c.Good q) (err : Int) :
    Moves c (scpiErrorEmit c err) true := by
  have hbit := getLsbD_setBit getLsbD_stbQma (show 2 < 16 by decide) True (c.registers .stb)
  simp only [if_true, decide_true] at hbit
  have hshows : Shows c true (c.registers .stb ||| stbQma) := by
    refine ⟨?_, fun e he => ?_, fun i h₂ h₆ hi => ?_⟩
    · rw [hbit, if_pos rfl]
    · rw [hbit, if_neg e.bit_ne.1, h.shows.clear e he]
    · rw [hbit, if_neg h₂, h.shows.unused i h₂ h₆ hi]
  have hset := moves_setStb h.wf h.size h.master hshows
  exact hset.trans (hset.good.error err)

theorem and_stbQma_ne_zero_iff (v : RegVal) : v &&& stbQma ≠ 0 ↔ v.getLsbD 2 = true := by
  constructor
  · intro h
    by_contra hbit
    refine h (BitVec.eq_of_getLsbD_eq fun i hi => ?_)
    rw [BitVec.getLsbD_and, getLsbD_stbQma hi, BitVec.ofNat_eq_ofNat, BitVec.getLsbD_zero]
    by_cases hi2 : i = 2
    · rw [hi2, Bool.eq_false_iff.mpr hbit, Bool.false_and]
    · rw [decide_eq_false hi2, Bool.and_false]
  · intro h h0
    have hbit := congrArg (fun v => BitVec.getLsbD v 2) h0
    simp only [BitVec.getLsbD_and, h, Bool.true_and] at hbit
    exact absurd hbit (by decide)

/-- The queue is reported empty if it is. -/
theorem Context.Good.emitEmpty {c : Context} {q : Bool} (h : c.Good q)
    (hq : c.errorQueue.contents ≠ [] → q = true) :
    Moves c (scpiErrorEmitEmpty c) (decide (c.errorQueue.contents ≠ [])) := by
  have hcount : scpiErrorCount c = 0 ↔ c.errorQueue.contents = [] :=
    Fifo.contents_eq_nil_iff.symm
  have hcond : scpiRegGet c (some .stb) &&& stbQma ≠ 0 ↔ q = true := by
    rw [← h.shows.qma]
    exact and_stbQma_ne_zero_iff _
  unfold scpiErrorEmitEmpty
  simp only [hcount, hcond]
  by_cases hempty : c.errorQueue.contents = []
  · rw [decide_eq_false (not_not.mpr hempty)]
    split
    · have hbit := getLsbD_setBit getLsbD_stbQma (show 2 < 16 by decide) False (c.registers .stb)
      simp only [if_false, decide_false] at hbit
      have hshows : Shows c false (c.registers .stb &&& ~~~stbQma) := by
        refine ⟨?_, fun e he => ?_, fun i h₂ h₆ hi => ?_⟩
        · rw [hbit, if_pos rfl]
        · rw [hbit, if_neg e.bit_ne.1, h.shows.clear e he]
        · rw [hbit, if_neg h₂, h.shows.unused i h₂ h₆ hi]
      have hset := moves_setStb h.wf h.size h.master hshows
      exact hset.trans (hset.good.error 0)
    · rename_i hnot
      obtain rfl : q = false := Bool.eq_false_iff.mpr fun h => hnot ⟨hempty, h⟩
      exact .refl h
  · obtain rfl := hq hempty
    rw [if_neg fun h => hempty h.1, decide_eq_true hempty]
    exact .refl h

/-- The queue after an error: the newest one, or the overflow. -/
def pushed (size : Nat) (xs : List Int) (err : Int) : List Int :=
  if xs.length < size then xs ++ [err] else xs.dropLast ++ [scpiErrorQueueOverflow]

theorem pushed_ne_nil (size : Nat) (xs : List Int) (err : Int) : pushed size xs err ≠ [] := by
  unfold pushed
  split
  all_goals exact List.append_ne_nil_of_right_ne_nil _ (List.cons_ne_nil _ _)

/-- What `SCPI_ErrorAddInternal` leaves in the queue. -/
theorem scpiErrorAddInternal_spec {queue : Fifo Int} (wf : queue.Wf) (size : 0 < queue.size)
    (err : Int) :
    (scpiErrorAddInternal queue err).1.Wf ∧
      (scpiErrorAddInternal queue err).1.size = queue.size ∧
      (scpiErrorAddInternal queue err).1.contents = pushed queue.size queue.contents err := by
  obtain ⟨hok, hcontents⟩ := fifoAdd_spec wf err
  have hadd := fifoAdd_wf wf err
  unfold scpiErrorAddInternal pushed
  by_cases hroom : queue.contents.length < queue.size
  · rw [if_pos hroom] at hcontents ⊢
    simp only [hok, decide_eq_true hroom, if_true]
    exact ⟨hadd, fifoAdd_size queue err, hcontents⟩
  · rw [if_neg hroom] at hcontents ⊢
    simp only [hok, decide_eq_false hroom, if_neg Bool.false_ne_true]
    have hlast := fifoRemoveLast_wf hadd
    have hshort := (fifoRemoveLast_spec hadd).2
    obtain ⟨-, hover⟩ := fifoAdd_spec hlast scpiErrorQueueOverflow
    rw [hshort, hcontents, fifoRemoveLast_size, fifoAdd_size, List.length_dropLast] at hover
    refine ⟨fifoAdd_wf hlast _, ?_, ?_⟩
    · rw [fifoAdd_size, fifoRemoveLast_size, fifoAdd_size]
    · rw [hover, if_pos]
      have hle := wf.count_le
      rw [← Fifo.length_contents] at hle
      omega

theorem Context.Good.setBits {c : Context} {q : Bool} (h : c.Good q) (bits : RegVal) :
    Moves c (scpiRegSetBits c .esr bits) q := h.setEvent .esr _

/-- The loop over the classes of errors sets bits of ESR. -/
theorem Context.Good.setErrorClass {c : Context} {q : Bool} (h : c.Good q) (err : Int) :
    Moves c (setErrorClass c err) q := by
  unfold Scpi.setErrorClass
  generalize errs = es
  induction es generalizing c with
  | nil => exact .refl h
  | cons e es ih =>
    rw [List.foldl_cons]
    split
    · exact (h.setBits _).trans (ih (h.setBits _).good)
    · exact ih h

@[simp] theorem setErrorClass_errorQueue (c : Context) (err : Int) :
    (setErrorClass c err).errorQueue = c.errorQueue := by
  unfold setErrorClass
  generalize errs = es
  induction es generalizing c with
  | nil => rfl
  | cons e es ih =>
    rw [List.foldl_cons, ih]
    split
    · exact scpiRegSet_errorQueue _ _ _
    · rfl

@[simp] theorem scpiErrorEmit_errorQueue (c : Context) (err : Int) :
    (scpiErrorEmit c err).errorQueue = c.errorQueue :=
  (writeError_errorQueue _ _).trans (scpiRegSet_errorQueue _ _ _)

@[simp] theorem scpiErrorEmitEmpty_errorQueue (c : Context) :
    (scpiErrorEmitEmpty c).errorQueue = c.errorQueue := by
  unfold scpiErrorEmitEmpty
  split
  · exact (writeError_errorQueue _ _).trans (scpiRegSet_errorQueue _ _ _)
  · rfl

theorem scpiErrorClear_errorQueue (c : Context) :
    (scpiErrorClear c).errorQueue = fifoClear c.errorQueue := scpiErrorEmitEmpty_errorQueue _

theorem scpiCoreCls_errorQueue (c : Context) :
    (scpiCoreCls c).errorQueue = fifoClear c.errorQueue := by
  show (scpiRegSet (scpiRegSet (scpiRegSet (scpiErrorClear c) _ 0) _ 0) _ 0).errorQueue = _
  rw [scpiRegSet_errorQueue, scpiRegSet_errorQueue, scpiRegSet_errorQueue, scpiErrorClear_errorQueue]

theorem scpiErrorPush_errorQueue (c : Context) (err : Int) :
    (scpiErrorPush c err).errorQueue = (scpiErrorAddInternal c.errorQueue err).1 := by
  unfold scpiErrorPush
  simp only
  split <;> simp

theorem Context.Good.errorPush {c : Context} {q : Bool} (h : c.Good q) (err : Int) :
    Moves c (scpiErrorPush c err) true := by
  obtain ⟨wf, hsize, -⟩ := scpiErrorAddInternal_spec h.wf h.size err
  have hqueue := h.setQueue wf hsize
  have hclass := hqueue.trans (hqueue.good.setErrorClass err)
  have hemit := hclass.trans (hclass.good.emit err)
  have hover := hemit.trans (hemit.good.emit scpiErrorQueueOverflow)
  -- the last assignment, of `cmd_error`, is not part of any of it
  have hflag : ∀ {c' : Context}, Moves c c' true → Moves c { c' with cmdError := true } true :=
    fun hm => ⟨⟨hm.good.wf, hm.good.size, hm.good.master, hm.good.shows.qma, hm.good.shows.clear,
      hm.good.shows.unused⟩, hm.sends.imp fun _ s => ⟨s.interface, s.calls, s.control, s.sent⟩⟩
  unfold scpiErrorPush
  simp only
  split
  · exact hflag hemit
  · exact hflag hover

end XHeepFemu.Scpi
