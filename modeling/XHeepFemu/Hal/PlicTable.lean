import XHeepFemu.Hal.RvPlic

/-!
# The interrupt table

To a caller the PLIC is a table: of each interrupt whether it is enabled and triggered by
an edge, and its priority; of a target the threshold and its software interrupt. In the
registers 32 interrupts share one for their flags. `Shows` says what registers hold a
table, `Shows.set` that the entries stay apart, and `Serves` what the table answers.
-/

namespace XHeepFemu.Hal

open Lib (Io Sys Label Reach Serial calls_serial follow reach_of_follow)
open Hw

/-- The interrupts there are. -/
abbrev Irq := Fin 64

/-- The targets there are. -/
abbrev Target := Fin 1

def Irq.id (irq : Irq) : Word := BitVec.ofNat 32 irq.val
def Target.id (target : Target) : Word := BitVec.ofNat 32 target.val

inductive IrqEntry where
  | enabled (irq : Irq) (target : Target)
  | edge (irq : Irq)
  | priority (irq : Irq)
  | threshold (target : Target)
  | software (target : Target)
  deriving DecidableEq, Repr

/-- A flag as an entry. -/
def flagValue (flag : Bool) : Fin 2 := ⟨flag.toNat, Bool.toNat_lt flag⟩

namespace IrqEntry

/-- How many values an entry has. -/
def size : IrqEntry → Nat
  | enabled _ _ | edge _ | software _ => 2
  | priority _ | threshold _ => 8

/-- The register with the entry. -/
def offset : IrqEntry → Nat
  | enabled irq target => (plicIrqEnableRegInfo irq.id target.id).offset
  | edge irq => (plicIrqTriggerTypeRegInfo irq.id).offset
  | priority irq => plicPriorityRegOffset irq.id
  | threshold target => plicThresholdBaseForTarget target.id
  | software target => plicSoftwareIrqBaseForTarget target.id

/-- The bit of the register that is the entry; `none` if the whole of it is. -/
def bit : IrqEntry → Option Nat
  | enabled irq target => some (plicIrqEnableRegInfo irq.id target.id).bitIndex
  | edge irq => some (plicIrqTriggerTypeRegInfo irq.id).bitIndex
  | _ => none

/-- The value of the entry in its register. -/
def valueIn (e : IrqEntry) (reg : Word) : Nat :=
  match e.bit with
  | some i => (reg.getLsbD i).toNat
  | none => reg.toNat

end IrqEntry

/-- What the PLIC is for its callers. -/
def IrqTable := (e : IrqEntry) → Fin e.size

namespace IrqTable

/-- The table `dif_plic_init` leaves. -/
def reset : IrqTable
  | .enabled _ _ | .edge _ | .software _ => ⟨0, Nat.succ_pos 1⟩
  | .priority _ | .threshold _ => ⟨0, Nat.succ_pos 7⟩

def set (t : IrqTable) (e : IrqEntry) (v : Fin e.size) : IrqTable := Function.update t e v

theorem set_self (t : IrqTable) (e : IrqEntry) (v : Fin e.size) : t.set e v e = v :=
  Function.update_self _ _ _

theorem set_other (t : IrqTable) {e e' : IrqEntry} (v : Fin e.size) (h : e' ≠ e) :
    t.set e v e' = t e' :=
  Function.update_of_ne h _ _

end IrqTable

/-- The registers hold the table. -/
def Shows (f : Nat → Word) (t : IrqTable) : Prop := ∀ e, e.valueIn (f e.offset) = (t e).val

/-! ## The entries stay apart -/

theorem Irq.toNat_id (irq : Irq) : irq.id.toNat = irq.val := by
  have h := irq.isLt
  exact Nat.mod_eq_of_lt (by omega)

theorem Target.toNat_id (target : Target) : target.id.toNat = 0 := by
  rw [Subsingleton.elim target 0]
  rfl

namespace IrqEntry

theorem offset_enabled (irq : Irq) (target : Target) :
    (enabled irq target).offset = 512 + irq.val / 32 * 4 := by
  have h := irq.isLt
  simp only [offset, plicIrqEnableRegInfo, plicIrqEnableBaseForTarget, plicOffsetFromReg0,
    plicIe00RegOffset, rvPlicParamRegWidth, Irq.toNat_id, Target.toNat_id]
  omega

theorem offset_edge (irq : Irq) : (edge irq).offset = 8 + irq.val / 32 * 4 := by
  have h := irq.isLt
  simp only [offset, plicIrqTriggerTypeRegInfo, plicOffsetFromReg0, plicLe0RegOffset,
    rvPlicParamRegWidth, Irq.toNat_id]
  omega

theorem offset_priority (irq : Irq) : (priority irq).offset = 16 + irq.val * 4 := by
  simp only [offset, plicPriorityRegOffset, plicPrio0RegOffset, Irq.toNat_id]

theorem offset_threshold (target : Target) : (threshold target).offset = 520 := by
  simp only [offset, plicThresholdBaseForTarget, plicThreshold0RegOffset, Target.toNat_id]

theorem offset_software (target : Target) : (software target).offset = 528 := by
  simp only [offset, plicSoftwareIrqBaseForTarget, plicMsip0RegOffset, Target.toNat_id]

theorem bit_enabled (irq : Irq) (target : Target) :
    (enabled irq target).bit = some (irq.val % 32) := by
  simp only [bit, plicIrqEnableRegInfo, plicIrqBitIndex, rvPlicParamRegWidth, Irq.toNat_id]

theorem bit_edge (irq : Irq) : (edge irq).bit = some (irq.val % 32) := by
  simp only [bit, plicIrqTriggerTypeRegInfo, plicIrqBitIndex, rvPlicParamRegWidth, Irq.toNat_id]

/-- Entries of one register are different bits of it. -/
theorem bit_ne {e e' : IrqEntry} (h : e' ≠ e) (hoffset : e'.offset = e.offset) :
    ∃ i i', e.bit = some i ∧ e'.bit = some i' ∧ i' ≠ i := by
  cases e <;> cases e' <;> simp only [offset_enabled, offset_edge, offset_priority,
    offset_threshold, offset_software] at hoffset <;> try omega
  case enabled.enabled irq target irq' target' =>
    refine ⟨_, _, bit_enabled _ _, bit_enabled _ _, fun hmod => h ?_⟩
    rw [Subsingleton.elim target' target, Fin.ext (a := irq') (b := irq) (by omega)]
  case edge.edge irq irq' =>
    refine ⟨_, _, bit_edge _, bit_edge _, fun hmod => h ?_⟩
    rw [Fin.ext (a := irq') (b := irq) (by omega)]
  case priority.priority irq irq' =>
    exact absurd (congrArg priority (Fin.ext (by omega))) h
  case threshold.threshold target target' =>
    exact absurd (congrArg threshold (Subsingleton.elim target' target)) h
  case software.software target target' =>
    exact absurd (congrArg software (Subsingleton.elim target' target)) h

theorem bit_lt {e : IrqEntry} {i : Nat} (h : e.bit = some i) : i < 32 := by
  cases e with
  | enabled irq target =>
    rw [bit_enabled] at h
    cases h
    omega
  | edge irq =>
    rw [bit_edge] at h
    cases h
    omega
  | _ => cases h

/-- The hardware moves none of the entries. -/
theorem not_volatile (e : IrqEntry) : ¬Plic.Volatile e.offset := by
  simp only [Plic.Volatile, plicIp0RegOffset, plicIp1RegOffset, plicCc0RegOffset]
  cases e with
  | enabled irq target => rw [offset_enabled]; omega
  | edge irq => rw [offset_edge]; omega
  | priority irq => rw [offset_priority]; omega
  | threshold target => rw [offset_threshold]; omega
  | software target => rw [offset_software]; omega

/-- An entry put in its register. -/
def put (e : IrqEntry) (v : Nat) (reg : Word) : Word :=
  match e.bit with
  | some i => bitfieldBit32Write reg i (v == 1)
  | none => BitVec.ofNat 32 v

theorem put_flag {e : IrqEntry} {i : Nat} (hbit : e.bit = some i) (flag : Bool) (reg : Word) :
    e.put (flagValue flag).val reg = bitfieldBit32Write reg i flag := by
  unfold put
  rw [hbit]
  cases flag <;> rfl

theorem size_le (e : IrqEntry) : e.size ≤ 8 := by
  cases e <;> simp only [size] <;> omega

theorem size_of_bit {e : IrqEntry} {i : Nat} (h : e.bit = some i) : e.size = 2 := by
  cases e <;> first | rfl | cases h

theorem valueIn_put (e : IrqEntry) (v : Fin e.size) (reg : Word) :
    e.valueIn (e.put v.val reg) = v.val := by
  have hsize := size_le e
  have hlt := v.isLt
  unfold valueIn put
  cases hbit : e.bit with
  | none => exact Nat.mod_eq_of_lt (by omega)
  | some i =>
    have h2 : v.val < 2 := lt_of_lt_of_eq hlt (size_of_bit hbit)
    simp only [getLsbD_bit32Write _ _ _ (bit_lt hbit), if_true]
    obtain h | h : v.val = 0 ∨ v.val = 1 := by omega
    · rw [h]
      rfl
    · rw [h]
      rfl

/-- Other entries of the register stay. -/
theorem valueIn_put_other {e e' : IrqEntry} (h : e' ≠ e) (hoffset : e'.offset = e.offset)
    (v : Nat) (reg : Word) : e'.valueIn (e.put v reg) = e'.valueIn reg := by
  obtain ⟨i, i', hbit, hbit', hne⟩ := bit_ne h hoffset
  simp only [valueIn, put, hbit, hbit', getLsbD_bit32Write _ _ _ (bit_lt hbit'), if_neg hne]

end IrqEntry

/-- To put one entry is to set it in the table. -/
theorem Shows.set {f : Nat → Word} {t : IrqTable} (h : Shows f t) (e : IrqEntry)
    (v : Fin e.size) : Shows (Function.update f e.offset (e.put v.val (f e.offset))) (t.set e v) := by
  intro e'
  by_cases he : e' = e
  · subst he
    rw [Function.update_self, IrqEntry.valueIn_put, IrqTable.set_self]
  · rw [IrqTable.set_other t v he, ← h e', Function.update_apply]
    split
    · rename_i hoffset
      rw [IrqEntry.valueIn_put_other he hoffset, hoffset]
    · rfl

/-- What is cleared or zero already is zero after `plic_reset`. -/
theorem cleared {offsets : List Nat} {f : Nat → Word} {offset : Nat}
    (h : offset ∈ offsets ∨ f offset = 0) :
    ((offsets.map fun offset => (offset, (0 : Word))).foldl
      (fun f s => Function.update f s.1 s.2) f) offset = 0 := by
  induction offsets generalizing f with
  | nil => exact h.resolve_left List.not_mem_nil
  | cons o os ih =>
    apply ih
    rcases h with h | h
    · rcases List.mem_cons.mp h with rfl | h
      · exact .inr (Function.update_self _ _ _)
      · exact .inl h
    · exact .inr ((Function.update_apply _ _ _ _).trans (by rw [h, ite_self]))

theorem IrqEntry.offset_mem_reset (e : IrqEntry) : e.offset ∈ plicResetOffsets := by
  unfold plicResetOffsets
  cases e with
  | edge irq =>
    have hirq := irq.isLt
    apply List.mem_append_left
    apply List.mem_append_left
    rw [offset_edge]
    exact List.mem_map_of_mem (List.mem_range.mpr (show irq.val / 32 < 2 by omega))
  | priority irq =>
    apply List.mem_append_left
    apply List.mem_append_right
    exact List.mem_map_of_mem (List.mem_range.mpr irq.isLt)
  | enabled irq target =>
    have hirq := irq.isLt
    apply List.mem_append_right
    refine List.mem_flatMap.mpr ⟨0, List.mem_range.mpr Nat.one_pos, List.mem_append_left _ ?_⟩
    rw [offset_enabled]
    exact List.mem_map_of_mem (List.mem_range.mpr (show irq.val / 32 < 2 by omega))
  | threshold target =>
    apply List.mem_append_right
    refine List.mem_flatMap.mpr ⟨0, List.mem_range.mpr Nat.one_pos, List.mem_append_right _ ?_⟩
    rw [offset_threshold]
    exact List.mem_cons_self
  | software target =>
    apply List.mem_append_right
    refine List.mem_flatMap.mpr ⟨0, List.mem_range.mpr Nat.one_pos, List.mem_append_right _ ?_⟩
    rw [offset_software]
    exact List.mem_cons_of_mem _ List.mem_cons_self

/-- After `plic_reset` every entry of the table is zero. -/
theorem shows_reset (f : Nat → Word) :
    Shows ((plicResetOffsets.map fun offset => (offset, (0 : Word))).foldl
      (fun f s => Function.update f s.1 s.2) f) IrqTable.reset := by
  intro e
  rw [cleared (.inl e.offset_mem_reset)]
  cases e with
  | enabled irq target =>
    simp only [IrqEntry.valueIn, IrqEntry.bit_enabled]
    exact congrArg Bool.toNat BitVec.getLsbD_zero
  | edge irq =>
    simp only [IrqEntry.valueIn, IrqEntry.bit_edge]
    exact congrArg Bool.toNat BitVec.getLsbD_zero
  | _ => rfl

/-! ## What the table answers -/

/-- The calls of the driver. -/
inductive PlicCall where
  | difPlicInit (params : DifPlicParams) (plic : Option DifPlic)
  | difPlicIrqGetEnabled (plic : Option DifPlic) (irq target : Word) (state : DifPlicToggle)
  | difPlicIrqSetEnabled (plic : Option DifPlic) (irq target : Word) (state : DifPlicToggle)
  | difPlicIrqSetTrigger (plic : Option DifPlic) (irq : Word) (trigger : DifPlicIrqTrigger)
  | difPlicIrqSetPriority (plic : Option DifPlic) (irq priority : Word)
  | difPlicTargetSetThreshold (plic : Option DifPlic) (target threshold : Word)
  | difPlicIrqIsPending (plic : Option DifPlic) (irq : Word) (isPending : Option Bool)
  | difPlicIrqClaim (plic : Option DifPlic) (target : Word) (claimData : Option Word)
  | difPlicIrqComplete (plic : Option DifPlic) (target : Word) (completeData : Option Word)
  | difPlicSoftwareIrqForce (plic : Option DifPlic) (target : Word)
  | difPlicSoftwareIrqAcknowledge (plic : Option DifPlic) (target : Word)
  | difPlicSoftwareIrqIsPending (plic : Option DifPlic) (target : Word) (isPending : Option Bool)
  deriving DecidableEq, Repr

/-- What a call returns, and what it leaves where its pointer leads. -/
inductive PlicAnswer where
  | result (result : DifPlicResult)
  | plic (result : DifPlicResult) (plic : Option DifPlic)
  | state (result : DifPlicResult) (state : DifPlicToggle)
  | isPending (result : DifPlicResult) (isPending : Option Bool)
  | claimData (result : DifPlicResult) (claimData : Option Word)
  deriving DecidableEq, Repr

namespace PlicCall

def io : PlicCall → PlicIo PlicAnswer
  | difPlicInit params plic => do
    let r ← Hal.difPlicInit params plic
    pure (.plic r.1 r.2)
  | difPlicIrqGetEnabled plic irq target state => do
    let r ← Hal.difPlicIrqGetEnabled plic irq target state
    pure (.state r.1 r.2)
  | difPlicIrqSetEnabled plic irq target state => do
    let r ← Hal.difPlicIrqSetEnabled plic irq target state
    pure (.result r)
  | difPlicIrqSetTrigger plic irq trigger => do
    let r ← Hal.difPlicIrqSetTrigger plic irq trigger
    pure (.result r)
  | difPlicIrqSetPriority plic irq priority => do
    let r ← Hal.difPlicIrqSetPriority plic irq priority
    pure (.result r)
  | difPlicTargetSetThreshold plic target threshold => do
    let r ← Hal.difPlicTargetSetThreshold plic target threshold
    pure (.result r)
  | difPlicIrqIsPending plic irq isPending => do
    let r ← Hal.difPlicIrqIsPending plic irq isPending
    pure (.isPending r.1 r.2)
  | difPlicIrqClaim plic target claimData => do
    let r ← Hal.difPlicIrqClaim plic target claimData
    pure (.claimData r.1 r.2)
  | difPlicIrqComplete plic target completeData => do
    let r ← Hal.difPlicIrqComplete plic target completeData
    pure (.result r)
  | difPlicSoftwareIrqForce plic target => do
    let r ← Hal.difPlicSoftwareIrqForce plic target
    pure (.result r)
  | difPlicSoftwareIrqAcknowledge plic target => do
    let r ← Hal.difPlicSoftwareIrqAcknowledge plic target
    pure (.result r)
  | difPlicSoftwareIrqIsPending plic target isPending => do
    let r ← Hal.difPlicSoftwareIrqIsPending plic target isPending
    pure (.isPending r.1 r.2)

/-- The PLIC that a call accesses, if its handle is no null pointer. -/
def accesses : PlicCall → Option DifPlic
  | difPlicInit params plic => plic.map fun _ => ⟨params⟩
  | difPlicIrqGetEnabled plic _ _ _ | difPlicIrqSetEnabled plic _ _ _
  | difPlicIrqSetTrigger plic _ _ | difPlicIrqSetPriority plic _ _
  | difPlicTargetSetThreshold plic _ _ | difPlicIrqIsPending plic _ _
  | difPlicIrqClaim plic _ _ | difPlicIrqComplete plic _ _
  | difPlicSoftwareIrqForce plic _ | difPlicSoftwareIrqAcknowledge plic _
  | difPlicSoftwareIrqIsPending plic _ _ => plic

/-- A parameter fails a precondition. -/
def Refused : PlicCall → Prop
  | difPlicInit _ plic => plic = none
  | difPlicIrqGetEnabled plic irq target _ =>
    plic = none ∨ irq ≥ rvPlicParamNumSrc ∨ target ≥ rvPlicParamNumTarget
  | difPlicIrqSetEnabled plic irq target state =>
    (plic = none ∨ irq ≥ rvPlicParamNumSrc ∨ target ≥ rvPlicParamNumTarget) ∨ state.flag = none
  | difPlicIrqSetTrigger plic irq trigger =>
    (plic = none ∨ irq ≥ rvPlicParamNumSrc) ∨ trigger.flag = none
  | difPlicIrqSetPriority plic irq priority =>
    plic = none ∨ irq ≥ rvPlicParamNumSrc ∨ priority > kDifPlicMaxPriority
  | difPlicTargetSetThreshold plic target threshold =>
    plic = none ∨ target ≥ rvPlicParamNumTarget ∨ threshold > kDifPlicMaxPriority
  | difPlicIrqIsPending plic irq isPending =>
    plic = none ∨ irq ≥ rvPlicParamNumSrc ∨ isPending = none
  | difPlicIrqClaim plic target claimData =>
    plic = none ∨ target ≥ rvPlicParamNumTarget ∨ claimData = none
  | difPlicIrqComplete plic target completeData =>
    completeData = none ∨ plic = none ∨ target ≥ rvPlicParamNumTarget
  | difPlicSoftwareIrqForce plic target => plic = none ∨ target ≥ rvPlicParamNumTarget
  | difPlicSoftwareIrqAcknowledge plic target => plic = none ∨ target ≥ rvPlicParamNumTarget
  | difPlicSoftwareIrqIsPending plic target isPending =>
    plic = none ∨ target ≥ rvPlicParamNumTarget ∨ isPending = none

/-- The answer to a refused call, which leaves everything as it was. -/
def refusal : PlicCall → PlicAnswer
  | difPlicInit _ plic => .plic .kDifPlicBadArg plic
  | difPlicIrqGetEnabled _ _ _ state => .state .kDifPlicBadArg state
  | difPlicIrqIsPending _ _ isPending | difPlicSoftwareIrqIsPending _ _ isPending =>
    .isPending .kDifPlicBadArg isPending
  | difPlicIrqClaim _ _ claimData => .claimData .kDifPlicBadArg claimData
  | _ => .result .kDifPlicBadArg

end PlicCall

/-- A call on the table, its answer, and the table afterwards. Whether an interrupt is pending and
which one is claimed is for the hardware to say. -/
inductive Serves (t : IrqTable) : PlicCall → PlicAnswer → IrqTable → Prop where
  | refused {call : PlicCall} : call.Refused → Serves t call call.refusal t
  | init (plic : DifPlic) (params : DifPlicParams) :
      Serves t (.difPlicInit params (some plic)) (.plic .kDifPlicOk (some ⟨params⟩)) .reset
  | getEnabled (plic : DifPlic) (irq : Irq) (target : Target) (state : DifPlicToggle) :
      Serves t (.difPlicIrqGetEnabled (some plic) irq.id target.id state)
        (.state .kDifPlicOk (if (t (.enabled irq target)).val = 1 then .kDifPlicToggleEnabled
          else .kDifPlicToggleDisabled)) t
  | setEnabled (plic : DifPlic) (irq : Irq) (target : Target) {state : DifPlicToggle} {flag : Bool} :
      state.flag = some flag → Serves t (.difPlicIrqSetEnabled (some plic) irq.id target.id state)
        (.result .kDifPlicOk) (t.set (.enabled irq target) (flagValue flag))
  | setTrigger (plic : DifPlic) (irq : Irq) {trigger : DifPlicIrqTrigger} {flag : Bool} :
      trigger.flag = some flag → Serves t (.difPlicIrqSetTrigger (some plic) irq.id trigger)
        (.result .kDifPlicOk) (t.set (.edge irq) (flagValue flag))
  | setPriority (plic : DifPlic) (irq : Irq) (priority : Fin 8) :
      Serves t (.difPlicIrqSetPriority (some plic) irq.id (BitVec.ofNat 32 priority.val))
        (.result .kDifPlicOk) (t.set (.priority irq) priority)
  | setThreshold (plic : DifPlic) (target : Target) (threshold : Fin 8) :
      Serves t (.difPlicTargetSetThreshold (some plic) target.id (BitVec.ofNat 32 threshold.val))
        (.result .kDifPlicOk) (t.set (.threshold target) threshold)
  | isPending (plic : DifPlic) (irq : Irq) (old pending : Bool) :
      Serves t (.difPlicIrqIsPending (some plic) irq.id (some old))
        (.isPending .kDifPlicOk (some pending)) t
  | claim (plic : DifPlic) (target : Target) (old irq : Word) :
      Serves t (.difPlicIrqClaim (some plic) target.id (some old))
        (.claimData .kDifPlicOk (some irq)) t
  | complete (plic : DifPlic) (target : Target) (irq : Word) :
      Serves t (.difPlicIrqComplete (some plic) target.id (some irq)) (.result .kDifPlicOk) t
  | force (plic : DifPlic) (target : Target) :
      Serves t (.difPlicSoftwareIrqForce (some plic) target.id) (.result .kDifPlicOk)
        (t.set (.software target) (flagValue true))
  | acknowledge (plic : DifPlic) (target : Target) :
      Serves t (.difPlicSoftwareIrqAcknowledge (some plic) target.id) (.result .kDifPlicOk)
        (t.set (.software target) (flagValue false))
  | softwareIsPending (plic : DifPlic) (target : Target) (old : Bool) :
      Serves t (.difPlicSoftwareIrqIsPending (some plic) target.id (some old))
        (.isPending .kDifPlicOk (some (decide ((t (.software target)).val = 1)))) t

/-! ## Every call does what the table answers -/

theorem word_eq_ofNat (w : Word) : w = BitVec.ofNat 32 w.toNat := by
  rw [BitVec.ofNat_toNat, BitVec.setWidth_eq]

theorem Irq.exists_id {irq : Word} (h : ¬irq ≥ rvPlicParamNumSrc) : ∃ i : Irq, irq = i.id := by
  have hlt : irq.toNat < 64 := BitVec.lt_def.mp (BitVec.not_le.mp h)
  exact ⟨⟨irq.toNat, hlt⟩, word_eq_ofNat _⟩

theorem Target.exists_id {target : Word} (h : ¬target ≥ rvPlicParamNumTarget) :
    ∃ i : Target, target = i.id := by
  have hlt : target.toNat < 1 := BitVec.lt_def.mp (BitVec.not_le.mp h)
  exact ⟨⟨target.toNat, hlt⟩, word_eq_ofNat _⟩

theorem exists_level {v : Word} (h : ¬v > kDifPlicMaxPriority) :
    ∃ i : Fin 8, v = BitVec.ofNat 32 i.val := by
  have hle : v.toNat ≤ 7 := BitVec.le_def.mp (BitVec.not_lt.mp h)
  exact ⟨⟨v.toNat, by omega⟩, word_eq_ofNat _⟩

theorem exists_irq_args {plic : Option DifPlic} {irq : Word} (hplic : ¬plic = none)
    (hirq : ¬irq ≥ rvPlicParamNumSrc) : ∃ p i, plic = some p ∧ irq = Irq.id i := by
  obtain ⟨p, rfl⟩ := Option.ne_none_iff_exists'.mp hplic
  obtain ⟨i, rfl⟩ := Irq.exists_id hirq
  exact ⟨p, i, rfl, rfl⟩

theorem exists_target_args {plic : Option DifPlic} {target : Word} (hplic : ¬plic = none)
    (htarget : ¬target ≥ rvPlicParamNumTarget) : ∃ p i, plic = some p ∧ target = Target.id i := by
  obtain ⟨p, rfl⟩ := Option.ne_none_iff_exists'.mp hplic
  obtain ⟨i, rfl⟩ := Target.exists_id htarget
  exact ⟨p, i, rfl, rfl⟩

/-- The table answers a call so, and these registers hold it afterwards. -/
abbrev Served (t : IrqTable) (call : PlicCall) (f : Nat → Word) (answer : PlicAnswer) : Prop :=
  ∃ t', Serves t call answer t' ∧ Shows f t'

/-- From these registers the call ends as the table answers it. -/
abbrev PlicCall.Ends (call : PlicCall) (t : IrqTable) (f : Nat → Word) : Prop :=
  call.io.Ends Plic.Volatile (Served t call) f

section Calls

variable {f : Nat → Word} {t : IrqTable} (plic : Option DifPlic) (irq target : Word)

/-- `dif_plic_init` does not need the registers to hold a table. -/
theorem init_ends (params : DifPlicParams) (handle : DifPlic) :
    (PlicCall.difPlicInit params (some handle)).Ends t f := by
  apply Io.Ends.bind
  apply Io.Ends.bind
  apply Io.Ends.stores
  exact ⟨_, .init handle params, shows_reset f⟩

variable (h : Shows f t)

include h

theorem getEnabled_ends (state : DifPlicToggle) :
    (PlicCall.difPlicIrqGetEnabled plic irq target state).Ends t f := by
  apply Io.Ends.bind
  unfold difPlicIrqGetEnabled
  split
  · exact ⟨t, .refused ‹_›, h⟩
  · rename_i hargs
    simp only [not_or] at hargs
    obtain ⟨hplic, hirq, htarget⟩ := hargs
    obtain ⟨p, irq, rfl, rfl⟩ := exists_irq_args hplic hirq
    obtain ⟨target, rfl⟩ := Target.exists_id htarget
    intro reg hreg
    obtain rfl := hreg (IrqEntry.enabled irq target).not_volatile
    have hbit : (t (.enabled irq target)).val =
        (bitfieldBit32Read (f (IrqEntry.enabled irq target).offset)
          (plicIrqEnableRegInfo irq.id target.id).bitIndex).toNat := by
      rw [bit32Read_eq]
      exact (h (.enabled irq target)).symm
    have hserves := Serves.getEnabled (t := t) p irq target state
    simp only [hbit, Bool.toNat_eq_one] at hserves
    exact ⟨t, hserves, h⟩

/-- A bit written where the entry of a flag is. -/
theorem writeBit_ends {e : IrqEntry} {flag : Bool} {v : Fin e.size}
    (hv : v.val = (flagValue flag).val) {regInfo : PlicRegInfo} (hoffset : e.offset = regInfo.offset)
    (hbit : e.bit = some regInfo.bitIndex) {post : (Nat → Word) → Unit → Prop}
    (hpost : ∀ f', Shows f' (t.set e v) → post f' ()) :
    (writeBit regInfo flag).Ends Plic.Volatile post f := by
  intro reg hreg
  have hvolatile := e.not_volatile
  rw [hoffset] at hvolatile
  obtain rfl := hreg hvolatile
  apply hpost
  have hset := h.set e v
  rwa [hv, IrqEntry.put_flag hbit, hoffset] at hset

theorem setEnabled_ends (state : DifPlicToggle) :
    (PlicCall.difPlicIrqSetEnabled plic irq target state).Ends t f := by
  apply Io.Ends.bind
  unfold difPlicIrqSetEnabled
  split
  · exact ⟨t, .refused (.inl ‹_›), h⟩
  · rename_i hargs
    simp only [not_or] at hargs
    obtain ⟨hplic, hirq, htarget⟩ := hargs
    obtain ⟨p, irq, rfl, rfl⟩ := exists_irq_args hplic hirq
    obtain ⟨target, rfl⟩ := Target.exists_id htarget
    split
    · exact ⟨t, .refused (.inr ‹_›), h⟩
    · apply Io.Ends.bind
      refine writeBit_ends h (e := .enabled irq target) rfl rfl rfl fun f' hf' => ?_
      exact ⟨_, .setEnabled p irq target ‹_›, hf'⟩

theorem setTrigger_ends (trigger : DifPlicIrqTrigger) :
    (PlicCall.difPlicIrqSetTrigger plic irq trigger).Ends t f := by
  apply Io.Ends.bind
  unfold difPlicIrqSetTrigger
  split
  · exact ⟨t, .refused (.inl ‹_›), h⟩
  · rename_i hargs
    simp only [not_or] at hargs
    obtain ⟨p, irq, rfl, rfl⟩ := exists_irq_args hargs.1 hargs.2
    split
    · exact ⟨t, .refused (.inr ‹_›), h⟩
    · apply Io.Ends.bind
      refine writeBit_ends h (e := .edge irq) rfl rfl rfl fun f' hf' => ?_
      exact ⟨_, .setTrigger p irq ‹_›, hf'⟩

theorem setPriority_ends (priority : Word) :
    (PlicCall.difPlicIrqSetPriority plic irq priority).Ends t f := by
  apply Io.Ends.bind
  unfold difPlicIrqSetPriority
  split
  · exact ⟨t, .refused ‹_›, h⟩
  · rename_i hargs
    simp only [not_or] at hargs
    obtain ⟨hplic, hirq, hpriority⟩ := hargs
    obtain ⟨p, irq, rfl, rfl⟩ := exists_irq_args hplic hirq
    obtain ⟨priority, rfl⟩ := exists_level hpriority
    exact ⟨_, .setPriority p irq priority, h.set (.priority irq) priority⟩

theorem setThreshold_ends (threshold : Word) :
    (PlicCall.difPlicTargetSetThreshold plic target threshold).Ends t f := by
  apply Io.Ends.bind
  unfold difPlicTargetSetThreshold
  split
  · exact ⟨t, .refused ‹_›, h⟩
  · rename_i hargs
    simp only [not_or] at hargs
    obtain ⟨hplic, htarget, hthreshold⟩ := hargs
    obtain ⟨p, target, rfl, rfl⟩ := exists_target_args hplic htarget
    obtain ⟨threshold, rfl⟩ := exists_level hthreshold
    exact ⟨_, .setThreshold p target threshold, h.set (.threshold target) threshold⟩

theorem isPending_ends (isPending : Option Bool) :
    (PlicCall.difPlicIrqIsPending plic irq isPending).Ends t f := by
  apply Io.Ends.bind
  unfold difPlicIrqIsPending
  split
  · exact ⟨t, .refused ‹_›, h⟩
  · rename_i hargs
    simp only [not_or] at hargs
    obtain ⟨hplic, hirq, hpointer⟩ := hargs
    obtain ⟨p, irq, rfl, rfl⟩ := exists_irq_args hplic hirq
    obtain ⟨old, rfl⟩ := Option.ne_none_iff_exists'.mp hpointer
    exact fun reg _ => ⟨t, .isPending p irq old _, h⟩

theorem claim_ends (claimData : Option Word) :
    (PlicCall.difPlicIrqClaim plic target claimData).Ends t f := by
  apply Io.Ends.bind
  unfold difPlicIrqClaim
  split
  · exact ⟨t, .refused ‹_›, h⟩
  · rename_i hargs
    simp only [not_or] at hargs
    obtain ⟨hplic, htarget, hpointer⟩ := hargs
    obtain ⟨p, target, rfl, rfl⟩ := exists_target_args hplic htarget
    obtain ⟨old, rfl⟩ := Option.ne_none_iff_exists'.mp hpointer
    exact fun irq _ => ⟨t, .claim p target old irq, h⟩

/-- The claim register holds no entry. -/
theorem Shows.complete (target : Target) (irq : Word) :
    Shows (Function.update f (plicClaimCompleteBaseForTarget target.id) irq) t := by
  intro e
  rw [Function.update_of_ne, h e]
  intro heq
  apply e.not_volatile
  rw [heq, plicClaimCompleteBaseForTarget, Target.toNat_id]
  exact .inr (.inr rfl)

theorem complete_ends (completeData : Option Word) :
    (PlicCall.difPlicIrqComplete plic target completeData).Ends t f := by
  apply Io.Ends.bind
  cases completeData with
  | none => exact ⟨t, .refused (.inl rfl), h⟩
  | some irq =>
    unfold difPlicIrqComplete
    simp only
    split
    · exact ⟨t, .refused (.inr ‹_›), h⟩
    · rename_i hargs
      simp only [not_or] at hargs
      obtain ⟨p, target, rfl, rfl⟩ := exists_target_args hargs.1 hargs.2
      exact ⟨t, .complete p target irq, h.complete target irq⟩

theorem force_ends : (PlicCall.difPlicSoftwareIrqForce plic target).Ends t f := by
  apply Io.Ends.bind
  unfold difPlicSoftwareIrqForce
  split
  · exact ⟨t, .refused ‹_›, h⟩
  · rename_i hargs
    simp only [not_or] at hargs
    obtain ⟨p, target, rfl, rfl⟩ := exists_target_args hargs.1 hargs.2
    exact ⟨_, .force p target, h.set (.software target) (flagValue true)⟩

theorem acknowledge_ends : (PlicCall.difPlicSoftwareIrqAcknowledge plic target).Ends t f := by
  apply Io.Ends.bind
  unfold difPlicSoftwareIrqAcknowledge
  split
  · exact ⟨t, .refused ‹_›, h⟩
  · rename_i hargs
    simp only [not_or] at hargs
    obtain ⟨p, target, rfl, rfl⟩ := exists_target_args hargs.1 hargs.2
    exact ⟨_, .acknowledge p target, h.set (.software target) (flagValue false)⟩

theorem softwareIsPending_ends (isPending : Option Bool) :
    (PlicCall.difPlicSoftwareIrqIsPending plic target isPending).Ends t f := by
  apply Io.Ends.bind
  unfold difPlicSoftwareIrqIsPending
  split
  · exact ⟨t, .refused ‹_›, h⟩
  · rename_i hargs
    simp only [not_or] at hargs
    obtain ⟨hplic, htarget, hpointer⟩ := hargs
    obtain ⟨p, target, rfl, rfl⟩ := exists_target_args hplic htarget
    obtain ⟨old, rfl⟩ := Option.ne_none_iff_exists'.mp hpointer
    intro reg hreg
    obtain rfl := hreg (IrqEntry.software target).not_volatile
    have hvalue : (f (plicSoftwareIrqBaseForTarget target.id)).toNat = (t (.software target)).val :=
      h (.software target)
    have hserves := Serves.softwareIsPending (t := t) p target old
    rw [← hvalue] at hserves
    have heq : (f (plicSoftwareIrqBaseForTarget target.id) == 1) =
        decide ((f (plicSoftwareIrqBaseForTarget target.id)).toNat = 1) := by
      rw [Bool.eq_iff_iff, beq_iff_eq, decide_eq_true_eq, BitVec.toNat_eq]
      rfl
    rw [← heq] at hserves
    exact ⟨t, hserves, h⟩

theorem PlicCall.ends (call : PlicCall) : call.Ends t f := by
  cases call with
  | difPlicInit params plic =>
    cases plic with
    | none => exact ⟨t, .refused rfl, h⟩
    | some handle => exact init_ends params handle
  | difPlicIrqGetEnabled plic irq target state => exact getEnabled_ends plic irq target h state
  | difPlicIrqSetEnabled plic irq target state => exact setEnabled_ends plic irq target h state
  | difPlicIrqSetTrigger plic irq trigger => exact setTrigger_ends plic irq h trigger
  | difPlicIrqSetPriority plic irq priority => exact setPriority_ends plic irq h priority
  | difPlicTargetSetThreshold plic target level => exact setThreshold_ends plic target h level
  | difPlicIrqIsPending plic irq isPending => exact isPending_ends plic irq h isPending
  | difPlicIrqClaim plic target claimData => exact claim_ends plic target h claimData
  | difPlicIrqComplete plic target data => exact complete_ends plic target h data
  | difPlicSoftwareIrqForce plic target => exact force_ends plic target h
  | difPlicSoftwareIrqAcknowledge plic target => exact acknowledge_ends plic target h
  | difPlicSoftwareIrqIsPending plic target pointer =>
    exact softwareIsPending_ends plic target h pointer

end Calls

/-- The calls go to the PLIC at one base address. -/
def CallsPlic (params : DifPlicParams) (_s : Sys Nat Word Plic (PlicCall × PlicAnswer))
    (l : Label (Nat × Word) PlicCall) : Prop :=
  ∀ call, l = .call call → ∀ plic ∈ call.accesses, plic.params = params

/-- **The PLIC is a table of interrupts.** From `dif_plic_init` on, whatever the registers held
before and whatever the hardware does meanwhile, the calls to this PLIC are answered as the table
answers them one after the other, and between calls the registers hold it. -/
theorem plic_serves (params : DifPlicParams) (handle : DifPlic) (d : Plic) (t : IrqTable)
    {s : Sys Nat Word Plic (PlicCall × PlicAnswer)}
    (r : Reach (Sys.next Plic.device fun call : PlicCall => Io.logged call call.io)
      (CallsPlic params)
      ⟨d, some (Io.logged (.difPlicInit params (some handle))
        (PlicCall.difPlicInit params (some handle)).io), []⟩ s) :
    ∃ t', Serial Serves t s.results t' ∧
      (s.prog = none → Shows s.dev.regs t') := by
  obtain ⟨t', hserial, hidle⟩ := calls_serial Plic.keepsStored PlicCall.io
    (fun f t call h => PlicCall.ends h call) (init_ends params handle)
    (r.mono fun _ _ _ => trivial)
  refine ⟨t', hserial, fun hnone e => ?_⟩
  obtain ⟨f, hregs, hshows⟩ := hidle hnone
  rw [hregs _ e.not_volatile]
  exact hshows e

/-- A handle to the PLIC at address zero. -/
def plicHandle : DifPlic := ⟨⟨0⟩⟩

/-- The PLIC is initialised; interrupt 40 is enabled, and becomes pending before interrupts 8
and 40 are asked for. -/
def enableFortyRun : List (Label (Nat × Word) PlicCall) :=
  List.replicate 71 .cpu ++
  [.call (.difPlicIrqSetEnabled (some plicHandle) 40 0 .kDifPlicToggleEnabled), .cpu, .cpu, .cpu,
    .env (plicIp1RegOffset, 0x100),
    .call (.difPlicIrqGetEnabled (some plicHandle) 8 0 (.other 2)), .cpu, .cpu,
    .call (.difPlicIrqGetEnabled (some plicHandle) 40 0 (.other 2)), .cpu, .cpu]

theorem plic_serves_forty : ∃ t, Serial Serves IrqTable.reset
    [(.difPlicInit ⟨0⟩ (some plicHandle), .plic .kDifPlicOk (some plicHandle)),
      (.difPlicIrqSetEnabled (some plicHandle) 40 0 .kDifPlicToggleEnabled, .result .kDifPlicOk),
      (.difPlicIrqGetEnabled (some plicHandle) 8 0 (.other 2),
        .state .kDifPlicOk .kDifPlicToggleDisabled),
      (.difPlicIrqGetEnabled (some plicHandle) 40 0 (.other 2),
        .state .kDifPlicOk .kDifPlicToggleEnabled)] t := by
  have hanswers : (follow (Sys.next Plic.device fun call : PlicCall => Io.logged call call.io)
      ⟨⟨fun _ => 0xffffffff⟩, some (Io.logged (.difPlicInit ⟨0⟩ (some plicHandle))
        (PlicCall.difPlicInit ⟨0⟩ (some plicHandle)).io), []⟩ enableFortyRun).map (·.results) =
      some _ := rfl
  obtain ⟨s, hrun, hresults⟩ := Option.map_eq_some_iff.mp hanswers
  have hcalls : ∀ l ∈ enableFortyRun, ∀ s, CallsPlic ⟨0⟩ s l := by
    rintro l hl s call rfl plic hplic
    simp only [enableFortyRun, List.mem_append, List.mem_replicate, List.mem_cons, reduceCtorEq,
      and_false, false_or, or_false, List.not_mem_nil, Label.call.injEq] at hl
    rcases hl with rfl | rfl | rfl <;>
      · cases hplic
        rfl
  obtain ⟨t, hserial, -⟩ := plic_serves ⟨0⟩ plicHandle _ IrqTable.reset
    (reach_of_follow hrun hcalls)
  rw [hresults] at hserial
  exact ⟨t, hserial⟩

end XHeepFemu.Hal
