import XHeepFemu.Hal.RvTimer

/-!
# Arming the timer

`rvTimerArm` is `rv_timer_arm` of `lib/hal/rv_timer/rv_timer.c`. The comparator is in two
registers, so between the stores it holds a value that is neither the old threshold nor
the new one. `TimerRegs` is the timer as a device: its registers, and the counter of a
hart, which counts while the driver runs.
-/

namespace XHeepFemu.Hal

open Lib (Io Device Sys Label Reach follow reach_of_follow joined)

/-- `rv_timer_t`, with the number of comparators. -/
structure RvTimerComparators extends RvTimer where
  comparatorCount : Word
  deriving DecidableEq, Repr

def rvTimerCompareLower00RegOffset : Word := 0x10c
def rvTimerCompareUpper00RegOffset : Word := 0x110

/-- The address of `lower_reg`. -/
def RvTimerComparators.compareLower (timer : RvTimerComparators) (hartId compId : Word) : Word :=
  timer.baseAddr + (regForHart hartId rvTimerCompareLower00RegOffset + 8 * compId)

/-- The address of `upper_reg`. -/
def RvTimerComparators.compareUpper (timer : RvTimerComparators) (hartId compId : Word) : Word :=
  timer.baseAddr + (regForHart hartId rvTimerCompareUpper00RegOffset + 8 * compId)

def thresholdLower (threshold : BitVec 64) : Word := threshold.setWidth 32
def thresholdUpper (threshold : BitVec 64) : Word := (threshold >>> 32).setWidth 32

/-- `none` is the null pointer. -/
def rvTimerArm (timer : Option RvTimerComparators) (hartId compId : Word) (threshold : BitVec 64) :
    Io Word Word RvTimerResult :=
  match timer with
  | none => pure .kRvTimerBadArg
  | some timer =>
    if hartId ≥ timer.hartCount ∨ compId ≥ timer.comparatorCount then pure .kRvTimerBadArg
    else do
      -- "the largest value possible without setting off the alarm"
      Io.store (timer.compareUpper hartId compId) 0xffffffff
      Io.store (timer.compareLower hartId compId) (thresholdLower threshold)
      Io.store (timer.compareUpper hartId compId) (thresholdUpper threshold)
      pure .kRvTimerOk

/-! ## The device -/

structure TimerRegs where
  regs : Word → Word
  counter : BitVec 64

def TimerRegs.set (t : TimerRegs) (a v : Word) : TimerRegs :=
  { t with regs := fun a' => if a' = a then v else t.regs a' }

/-- The counter goes up by any number, and does not wrap around. -/
def TimerRegs.tick (t : TimerRegs) (n : Nat) : Option TimerRegs :=
  if t.counter.toNat + n < 2 ^ 64 then some { t with counter := t.counter + BitVec.ofNat 64 n }
  else none

def TimerRegs.device : Device Word Word TimerRegs Nat where
  read t a := (t, t.regs a)
  write := TimerRegs.set
  env := TimerRegs.tick

/-- The value of a comparator. -/
def TimerRegs.comparator (t : TimerRegs) (timer : RvTimerComparators) (hartId compId : Word) : Nat :=
  joined (t.regs (timer.compareUpper hartId compId)) (t.regs (timer.compareLower hartId compId))

theorem upper_ne_lower (timer : RvTimerComparators) (hartId compId : Word) :
    timer.compareUpper hartId compId ≠ timer.compareLower hartId compId := by
  unfold RvTimerComparators.compareUpper RvTimerComparators.compareLower regForHart
    rvTimerCompareLower00RegOffset rvTimerCompareUpper00RegOffset
  bv_omega

theorem threshold_joined (threshold : BitVec 64) :
    joined (thresholdUpper threshold) (thresholdLower threshold) = threshold.toNat := by
  have hlt := threshold.isLt
  unfold joined thresholdUpper thresholdLower
  rw [BitVec.toNat_setWidth, BitVec.toNat_setWidth, BitVec.toNat_ushiftRight,
    Nat.shiftRight_eq_div_pow]
  omega

theorem joined_le_ones (hi lo : Word) : joined hi lo ≤ joined 0xffffffff lo := by
  have hhi := hi.isLt
  unfold joined
  show _ ≤ 4294967295 * 2 ^ 32 + lo.toNat
  omega

/-! ## The registers of a comparator -/

/-- The hardware has the harts and the comparators it is said to have: the registers of a hart end
where those of the next one start. -/
def RvTimerComparators.Fits (timer : RvTimerComparators) : Prop :=
  0x10c + 8 * timer.comparatorCount.toNat ≤ 0x200 ∧ 0x100 * (timer.hartCount.toNat + 1) ≤ 2 ^ 32

section Registers

variable {timer : RvTimerComparators} {hartId compId hartId' compId' : Word}

theorem compare_offset (hfits : timer.Fits) (hhart : hartId < timer.hartCount)
    (hcomp : compId < timer.comparatorCount) {regOffset : Word} (hoff : regOffset.toNat ≤ 0x110) :
    (regForHart hartId regOffset + 8 * compId).toNat =
      0x100 * hartId.toNat + regOffset.toNat + 8 * compId.toNat := by
  obtain ⟨hblock, hharts⟩ := hfits
  have hh : hartId.toNat < timer.hartCount.toNat := hhart
  have hc : compId.toNat < timer.comparatorCount.toNat := hcomp
  have hspacing : (kHartRegisterSpacing * hartId).toNat = 0x100 * hartId.toNat := by
    rw [BitVec.toNat_mul]
    show 0x100 * hartId.toNat % 2 ^ 32 = _
    omega
  have height : (8 * compId).toNat = 8 * compId.toNat := by
    rw [BitVec.toNat_mul]
    show 8 * compId.toNat % 2 ^ 32 = _
    omega
  rw [regForHart, BitVec.toNat_add, BitVec.toNat_add, hspacing, height]
  omega

theorem compare_apart (hfits : timer.Fits) (hhart : hartId < timer.hartCount)
    (hcomp : compId < timer.comparatorCount) (hhart' : hartId' < timer.hartCount)
    (hcomp' : compId' < timer.comparatorCount) (hne : (hartId', compId') ≠ (hartId, compId)) :
    (timer.compareUpper hartId' compId' ≠ timer.compareUpper hartId compId ∧
      timer.compareUpper hartId' compId' ≠ timer.compareLower hartId compId) ∧
    timer.compareLower hartId' compId' ≠ timer.compareUpper hartId compId ∧
      timer.compareLower hartId' compId' ≠ timer.compareLower hartId compId := by
  have hblock := hfits.1
  have hc : compId.toNat < timer.comparatorCount.toNat := hcomp
  have hc' : compId'.toNat < timer.comparatorCount.toNat := hcomp'
  have hparts : hartId'.toNat = hartId.toNat → compId'.toNat ≠ compId.toNat := fun h h' =>
    hne (Prod.ext (BitVec.eq_of_toNat_eq h) (BitVec.eq_of_toNat_eq h'))
  have key : ∀ {off off' : Word}, off.toNat = 0x10c ∨ off.toNat = 0x110 →
      off'.toNat = 0x10c ∨ off'.toNat = 0x110 →
      timer.baseAddr + (regForHart hartId' off' + 8 * compId') ≠
        timer.baseAddr + (regForHart hartId off + 8 * compId) := by
    intro off off' hoff hoff' h
    have hnat := congrArg BitVec.toNat ((BitVec.add_right_inj _).mp h)
    rw [compare_offset hfits hhart' hcomp' (by omega),
      compare_offset hfits hhart hcomp (by omega)] at hnat
    omega
  exact ⟨⟨key (.inr rfl) (.inr rfl), key (.inl rfl) (.inr rfl)⟩,
    key (.inr rfl) (.inl rfl), key (.inl rfl) (.inl rfl)⟩

end Registers

/-! ## The call, while the counter counts -/

section Arm

variable {timer : RvTimerComparators} {hartId compId : Word} {threshold : BitVec 64}

variable (timer hartId compId threshold) in
/-- The three stores. -/
def armStores : List (Word × Word) :=
  [(timer.compareUpper hartId compId, 0xffffffff),
    (timer.compareLower hartId compId, thresholdLower threshold),
    (timer.compareUpper hartId compId, thresholdUpper threshold)]

theorem rvTimerArm_eq (hhart : hartId < timer.hartCount) (hcomp : compId < timer.comparatorCount) :
    rvTimerArm (some timer) hartId compId threshold =
      Io.stores (armStores timer hartId compId threshold) .kRvTimerOk := by
  refine if_neg (not_or.mpr ⟨?_, ?_⟩)
  · exact BitVec.not_le.mpr hhart
  · exact BitVec.not_le.mpr hcomp

/-- The registers after some stores. -/
def TimerRegs.after (t : TimerRegs) (done : List (Word × Word)) : TimerRegs :=
  done.foldl (fun t s => t.set s.1 s.2) t

theorem after_other (t : TimerRegs) {done : List (Word × Word)} {a : Word}
    (h : ∀ s ∈ done, a ≠ s.1) : (t.after done).regs a = t.regs a := by
  induction done generalizing t with
  | nil => rfl
  | cons s done ih =>
    obtain ⟨hs, hdone⟩ := List.forall_mem_cons.mp h
    exact (ih (t.set s.1 s.2) hdone).trans (if_neg hs)

/-- What the comparator holds once some of the stores are done. -/
theorem after_armStores (t : TimerRegs) {done : List (Word × Word)}
    (h : done <+: armStores timer hartId compId threshold) :
    (t.comparator timer hartId compId ≤ (t.after done).comparator timer hartId compId ∨
      threshold.toNat ≤ (t.after done).comparator timer hartId compId) ∧
    (done = armStores timer hartId compId threshold →
      (t.after done).comparator timer hartId compId = threshold.toNat) := by
  have hne := upper_ne_lower timer hartId compId
  have hthreshold := threshold_joined threshold
  have hcases : done = [] ∨ done = (armStores timer hartId compId threshold).take 1 ∨
      done = (armStores timer hartId compId threshold).take 2 ∨
      done = armStores timer hartId compId threshold := by
    have hlen : done.length ≤ 3 := h.length_le
    rw [List.prefix_iff_eq_take] at h
    rw [h]
    generalize done.length = n at hlen
    match n with
    | 0 => exact .inl rfl
    | 1 => exact .inr (.inl rfl)
    | 2 => exact .inr (.inr (.inl rfl))
    | 3 => exact .inr (.inr (.inr rfl))
  rcases hcases with rfl | rfl | rfl | rfl
  · exact ⟨.inl (Nat.le_refl _), nofun⟩
  · refine ⟨.inl ?_, nofun⟩
    simp only [armStores, List.take, TimerRegs.after, List.foldl, TimerRegs.comparator,
      TimerRegs.set, if_true, hne.symm, if_false]
    exact joined_le_ones _ _
  · refine ⟨.inr ?_, nofun⟩
    simp only [armStores, List.take, TimerRegs.after, List.foldl, TimerRegs.comparator,
      TimerRegs.set, if_true, hne, if_false]
    rw [← hthreshold]
    exact joined_le_ones _ _
  · have hval : (t.after (armStores timer hartId compId threshold)).comparator timer hartId compId =
        threshold.toNat := by
      simp only [armStores, TimerRegs.after, List.foldl, TimerRegs.comparator, TimerRegs.set,
        if_true, hne.symm, if_false]
      exact hthreshold
    exact ⟨.inr (Nat.le_of_eq hval.symm), fun _ => hval⟩

theorem armStores_other (t : TimerRegs) {done : List (Word × Word)} {a : Word}
    (h : done <+: armStores timer hartId compId threshold)
    (hupper : a ≠ timer.compareUpper hartId compId)
    (hlower : a ≠ timer.compareLower hartId compId) : (t.after done).regs a = t.regs a := by
  refine after_other t fun store hstore => ?_
  have hmem := h.subset hstore
  simp only [armStores, List.mem_cons, List.not_mem_nil, or_false] at hmem
  rcases hmem with rfl | rfl | rfl
  · exact hupper
  · exact hlower
  · exact hupper

/-- In every state of the call some of the stores are done. -/
theorem arm_reach {t : TimerRegs} (hhart : hartId < timer.hartCount)
    (hcomp : compId < timer.comparatorCount) {s : Sys Word Word TimerRegs RvTimerResult}
    (r : Reach (Sys.next TimerRegs.device Empty.elim) (fun _ _ => True)
      ⟨t, some (rvTimerArm (some timer) hartId compId threshold), []⟩ s) :
    ∃ done todo, done ++ todo = armStores timer hartId compId threshold ∧
      s.dev.regs = (t.after done).regs ∧
      (s.prog = some (Io.stores todo .kRvTimerOk) ∧ s.results = [] ∨
        s.prog = none ∧ todo = [] ∧ s.results = [.kRvTimerOk]) := by
  rw [rvTimerArm_eq hhart hcomp] at r
  refine Sys.stores_reach TimerRegs.device Empty.elim
    (P := fun d done => d.regs = (t.after done).regs) (fun d n d' done he hd => ?_)
    (fun d done a v hd => ?_) rfl (r.mono fun _ _ _ op => op.elim)
  · have htick : d.tick n = some d' := he
    unfold TimerRegs.tick at htick
    split at htick
    · cases htick
      exact hd
    · cases htick
  · show (d.set a v).regs = (t.after (done ++ [(a, v)])).regs
    rw [TimerRegs.after, List.foldl_append]
    simp only [List.foldl_cons, List.foldl_nil, TimerRegs.set, hd, TimerRegs.after]

/-- Whatever the counter does during the call, the alarm goes off only once the counter has passed
the old threshold or the new one. The call ends after at most four accesses; then the comparator
holds the new threshold, and nothing else has changed. -/
theorem rv_timer_arm_quiet {t : TimerRegs} (hhart : hartId < timer.hartCount)
    (hcomp : compId < timer.comparatorCount) {s : Sys Word Word TimerRegs RvTimerResult}
    (r : Reach (Sys.next TimerRegs.device Empty.elim) (fun _ _ => True)
      ⟨t, some (rvTimerArm (some timer) hartId compId threshold), []⟩ s) :
    (s.dev.comparator timer hartId compId ≤ s.dev.counter.toNat →
      t.comparator timer hartId compId ≤ s.dev.counter.toNat ∨
        threshold.toNat ≤ s.dev.counter.toNat) ∧
    (∃ n ≤ 4, ∃ s', follow (Sys.next TimerRegs.device Empty.elim) s (List.replicate n .cpu) =
      some s' ∧ s'.prog = none) ∧
    (s.prog = none → s.results = [.kRvTimerOk] ∧
      s.dev.comparator timer hartId compId = threshold.toNat) ∧
    (∀ a, a ≠ timer.compareUpper hartId compId → a ≠ timer.compareLower hartId compId →
      s.dev.regs a = t.regs a) ∧
    ∀ hartId' compId', timer.Fits → hartId' < timer.hartCount →
      compId' < timer.comparatorCount → (hartId', compId') ≠ (hartId, compId) →
      s.dev.comparator timer hartId' compId' = t.comparator timer hartId' compId' := by
  obtain ⟨done, todo, hall, hregs, hprog⟩ := arm_reach hhart hcomp r
  have hprefix : done <+: armStores timer hartId compId threshold := ⟨todo, hall⟩
  have hcomparator : ∀ h c, s.dev.comparator timer h c = (t.after done).comparator timer h c :=
    fun h c => by rw [TimerRegs.comparator, hregs, TimerRegs.comparator]
  have hother : ∀ a, a ≠ timer.compareUpper hartId compId → a ≠ timer.compareLower hartId compId →
      s.dev.regs a = t.regs a := fun a hupper hlower => by
    rw [hregs]
    exact armStores_other t hprefix hupper hlower
  obtain ⟨hquiet, hset⟩ := after_armStores t hprefix
  refine ⟨fun hfires => ?_, ?_, fun hdone => ?_, hother, fun h c hfits hh hc hne => ?_⟩
  · rw [hcomparator] at hfires
    exact hquiet.imp (fun hold => Nat.le_trans hold hfires) fun hnew => Nat.le_trans hnew hfires
  · rcases hprog with ⟨hp, -⟩ | ⟨hp, -⟩
    · obtain ⟨s', hend, hdone⟩ := Sys.stores_end TimerRegs.device Empty.elim hp
      have htodo : todo.length ≤ 3 := List.IsSuffix.length_le ⟨done, hall⟩
      exact ⟨todo.length + 1, by omega, s', hend, hdone⟩
    · exact ⟨0, Nat.zero_le 4, s, rfl, hp⟩
  · rcases hprog with ⟨hp, -⟩ | ⟨-, rfl, hres⟩
    · rw [hdone] at hp
      cases hp
    · rw [hcomparator]
      exact ⟨hres, hset ((List.append_nil done).symm.trans hall)⟩
  · obtain ⟨⟨huu, hul⟩, hlu, hll⟩ := compare_apart hfits hhart hcomp hh hc hne
    rw [TimerRegs.comparator, hother _ huu hul, hother _ hlu hll, TimerRegs.comparator]

end Arm

/-- A comparator set from `2 ^ 32` to 5 while the counter passes 5. -/
def armRun : List (Label Nat Empty) := [.cpu, .env 3, .cpu, .cpu, .cpu]

def armedAt : TimerRegs := ⟨fun a => if a = 0x110 then 1 else 0, 4⟩

theorem rv_timer_arm_quiet_run :
    ∃ s, Reach (Sys.next TimerRegs.device Empty.elim) (fun _ _ => True)
        ⟨armedAt, some (rvTimerArm (some ⟨⟨0, 1⟩, 1⟩) 0 0 5), []⟩ s ∧ s.prog = none ∧
      s.results = [.kRvTimerOk] ∧ s.dev.comparator ⟨⟨0, 1⟩, 1⟩ 0 0 = 5 ∧ s.dev.counter = 7 := by
  have hrun : ∃ s, follow (Sys.next TimerRegs.device Empty.elim)
      ⟨armedAt, some (rvTimerArm (some ⟨⟨0, 1⟩, 1⟩) 0 0 5), []⟩ armRun = some s ∧ s.prog = none ∧
      s.dev.counter = 7 := ⟨_, rfl, rfl, rfl⟩
  obtain ⟨s, hfollow, hprog, hcounter⟩ := hrun
  have r : Reach (Sys.next TimerRegs.device Empty.elim) (fun _ _ => True) _ s :=
    reach_of_follow hfollow fun _ _ _ => trivial
  obtain ⟨-, -, hdone, -⟩ := rv_timer_arm_quiet (by decide) (by decide) r
  obtain ⟨hresults, hcomparator⟩ := hdone hprog
  exact ⟨s, r, hprog, hresults, hcomparator, hcounter⟩

end XHeepFemu.Hal
