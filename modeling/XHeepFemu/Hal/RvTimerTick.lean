import Mathlib.Data.Nat.GCD.Basic
import Mathlib.Order.Bounds.Basic
import XHeepFemu.Hw.MemMap

/-!
# Timer tick parameters

`rvTimerApproximateTickParams` is `rv_timer_approximate_tick_params` of
`lib/hal/rv_timer/rv_timer.c`. It reduces the fraction of the two frequencies by
their greatest common divisor, which is zero when both are: `none` is the division
by zero.
-/

namespace XHeepFemu.Hal

/-- `rv_timer_tick_params_t`. -/
structure RvTimerTickParams where
  prescale : BitVec 16
  tickStep : BitVec 8
  deriving DecidableEq, Repr

inductive RvTimerApproximateTickParamsResult where
  | kRvTimerApproximateTickParamsOk
  | kRvTimerApproximateTickParamsBadArg
  | kRvTimerApproximateTickParamsUnrepresentable
  deriving DecidableEq, Repr

def rvTimerCfg0PrescaleMask : BitVec 64 := 0xfff
def rvTimerCfg0StepMask : BitVec 64 := 0xff

/-- `a` and `b` as they are at the head of the loop. -/
def euclideanGcd (a b : BitVec 64) : BitVec 64 :=
  if b = 0 then a else euclideanGcd b (a % b)
termination_by b.toNat
decreasing_by
  rename_i hb
  rw [BitVec.toNat_umod]
  exact Nat.mod_lt _ (Nat.pos_of_ne_zero fun h => hb (BitVec.eq_of_toNat_eq h))

/-- The quotient of two 64-bit integers; dividing by zero is undefined. -/
def udiv64 (a b : BitVec 64) : Option (BitVec 64) := if b = 0 then none else some (a / b)

/-- The result and `*out` afterwards, whose null pointer is `none`. -/
def rvTimerApproximateTickParams (clockFreq counterFreq : BitVec 64)
    (out : Option RvTimerTickParams) :
    Option (RvTimerApproximateTickParamsResult × Option RvTimerTickParams) :=
  match out with
  | none => some (.kRvTimerApproximateTickParamsBadArg, none)
  | some out => do
    let gcd := euclideanGcd clockFreq counterFreq
    let prescale := (← udiv64 clockFreq gcd) - 1
    let step ← udiv64 counterFreq gcd
    if prescale > rvTimerCfg0PrescaleMask ∨ step > rvTimerCfg0StepMask then
      some (.kRvTimerApproximateTickParamsUnrepresentable, some out)
    else
      some (.kRvTimerApproximateTickParamsOk, some ⟨prescale.setWidth 16, step.setWidth 8⟩)

/-! ## The fraction over the integers -/

/-- A tick every `prescale + 1` clock cycles, in steps of `step`, gives the counter frequency. -/
def Ticks (clockFreq counterFreq prescale step : Nat) : Prop :=
  counterFreq * (prescale + 1) = clockFreq * step

/-- The prescalers with which a step of at most 255 gives the counter frequency. -/
def prescales (clockFreq counterFreq : Nat) : Set Nat :=
  fun prescale => ∃ step ≤ 255, Ticks clockFreq counterFreq prescale step

/-- What `rv_timer_approximate_tick_params` is to do. -/
def ApproximatesTick (clockFreq counterFreq : BitVec 64) (out : RvTimerTickParams) : Prop :=
  ∃ result params,
    rvTimerApproximateTickParams clockFreq counterFreq (some out) = some (result, some params) ∧
    (result = .kRvTimerApproximateTickParamsOk ↔
      ∃ prescale ≤ 4095, prescale ∈ prescales clockFreq.toNat counterFreq.toNat) ∧
    (result = .kRvTimerApproximateTickParamsOk →
      Ticks clockFreq.toNat counterFreq.toNat params.prescale.toNat params.tickStep.toNat ∧
      -- the casts to 16 and 8 bits lose nothing
      params.prescale.toNat + 1 = clockFreq.toNat / Nat.gcd clockFreq.toNat counterFreq.toNat ∧
      params.tickStep.toNat = counterFreq.toNat / Nat.gcd clockFreq.toNat counterFreq.toNat ∧
      IsLeast (prescales clockFreq.toNat counterFreq.toNat) params.prescale.toNat) ∧
    (result ≠ .kRvTimerApproximateTickParamsOk → params = out)

theorem euclideanGcd_toNat (a b : BitVec 64) :
    (euclideanGcd a b).toNat = Nat.gcd a.toNat b.toNat := by
  induction a, b using euclideanGcd.induct with
  | case1 a =>
    unfold euclideanGcd
    rw [if_pos rfl]
    exact (Nat.gcd_zero_right _).symm
  | case2 a b hb ih =>
    unfold euclideanGcd
    rw [if_neg hb, ih, BitVec.toNat_umod, Nat.gcd_comm, ← Nat.gcd_rec, Nat.gcd_comm]

section Fraction

variable {clockFreq counterFreq prescale step : Nat}

/-- Every solution is a multiple of the reduced fraction. -/
theorem Ticks.reduced (hgcd : 0 < Nat.gcd clockFreq counterFreq)
    (h : Ticks clockFreq counterFreq prescale step) :
    ∃ m, 0 < m ∧ prescale + 1 = clockFreq / Nat.gcd clockFreq counterFreq * m ∧
      step = counterFreq / Nat.gcd clockFreq counterFreq * m := by
  obtain ⟨k, hk⟩ := Nat.gcd_dvd_left clockFreq counterFreq
  obtain ⟨c, hc⟩ := Nat.gcd_dvd_right clockFreq counterFreq
  have hcop : Nat.Coprime (clockFreq / Nat.gcd clockFreq counterFreq)
      (counterFreq / Nat.gcd clockFreq counterFreq) := Nat.coprime_div_gcd_div_gcd hgcd
  have hkq : clockFreq / Nat.gcd clockFreq counterFreq = k :=
    Nat.div_eq_of_eq_mul_right hgcd hk
  have hcq : counterFreq / Nat.gcd clockFreq counterFreq = c :=
    Nat.div_eq_of_eq_mul_right hgcd hc
  rw [hkq, hcq] at hcop ⊢
  have heq : c * (prescale + 1) = k * step := by
    refine Nat.eq_of_mul_eq_mul_left hgcd ?_
    rw [← Nat.mul_assoc, ← Nat.mul_assoc, ← hk, ← hc]
    exact h
  obtain ⟨m, hm⟩ : k ∣ prescale + 1 := hcop.dvd_of_dvd_mul_left ⟨step, heq⟩
  have hkpos : 0 < k := Nat.pos_of_ne_zero fun h0 => by
    rw [h0, Nat.zero_mul] at hm
    omega
  have hmpos : 0 < m := Nat.pos_of_ne_zero fun h0 => by
    rw [h0, Nat.mul_zero] at hm
    omega
  refine ⟨m, hmpos, hm, Nat.eq_of_mul_eq_mul_left hkpos ?_⟩
  rw [← heq, hm, Nat.mul_left_comm]

theorem ticks_lowest (hclock : 0 < clockFreq) :
    Ticks clockFreq counterFreq (clockFreq / Nat.gcd clockFreq counterFreq - 1)
      (counterFreq / Nat.gcd clockFreq counterFreq) := by
  have hgcd : 0 < Nat.gcd clockFreq counterFreq := Nat.gcd_pos_of_pos_left _ hclock
  have hquot : 0 < clockFreq / Nat.gcd clockFreq counterFreq :=
    Nat.div_pos (Nat.gcd_le_left _ hclock) hgcd
  unfold Ticks
  rw [Nat.sub_add_cancel hquot, ← Nat.mul_div_assoc _ (Nat.gcd_dvd_left _ _),
    ← Nat.mul_div_assoc _ (Nat.gcd_dvd_right _ _), Nat.mul_comm]

/-- A prescaler with a small enough step is no smaller than that of the reduced fraction,
whose step is small enough too. -/
theorem prescales_lowest (hgcd : 0 < Nat.gcd clockFreq counterFreq)
    (h : prescale ∈ prescales clockFreq counterFreq) :
    0 < clockFreq ∧ clockFreq / Nat.gcd clockFreq counterFreq - 1 ≤ prescale ∧
      counterFreq / Nat.gcd clockFreq counterFreq ≤ 255 := by
  obtain ⟨step, hstep, hticks⟩ := h
  obtain ⟨m, hm, hpre, hs⟩ := hticks.reduced hgcd
  have hk := Nat.le_mul_of_pos_right (clockFreq / Nat.gcd clockFreq counterFreq) hm
  have hc := Nat.le_mul_of_pos_right (counterFreq / Nat.gcd clockFreq counterFreq) hm
  refine ⟨Nat.pos_of_ne_zero fun h0 => ?_, by omega, by omega⟩
  rw [h0, Nat.zero_div, Nat.zero_mul] at hpre
  omega

end Fraction

theorem udiv64_toNat {a b : BitVec 64} (hb : 0 < b.toNat) :
    ∃ q, udiv64 a b = some q ∧ q.toNat = a.toNat / b.toNat := by
  refine ⟨a / b, if_neg fun h => ?_, BitVec.toNat_udiv⟩
  rw [h] at hb
  exact absurd hb (Nat.lt_irrefl 0)

theorem approximateTick_cases {clockFreq counterFreq : BitVec 64} (out : RvTimerTickParams)
    (hgcd : 0 < Nat.gcd clockFreq.toNat counterFreq.toNat) :
    let k := clockFreq.toNat / Nat.gcd clockFreq.toNat counterFreq.toNat
    let c := counterFreq.toNat / Nat.gcd clockFreq.toNat counterFreq.toNat
    (0 < k ∧ k - 1 ≤ 4095 ∧ c ≤ 255 ∧ ∃ params : RvTimerTickParams,
      rvTimerApproximateTickParams clockFreq counterFreq (some out) =
        some (.kRvTimerApproximateTickParamsOk, some params) ∧
      params.prescale.toNat = k - 1 ∧ params.tickStep.toNat = c) ∨
    (¬(0 < k ∧ k - 1 ≤ 4095 ∧ c ≤ 255) ∧
      rvTimerApproximateTickParams clockFreq counterFreq (some out) =
        some (.kRvTimerApproximateTickParamsUnrepresentable, some out)) := by
  intro k c
  rw [← euclideanGcd_toNat] at hgcd
  obtain ⟨quot, hquot, hquotNat⟩ := udiv64_toNat (a := clockFreq) hgcd
  obtain ⟨step, hstep, hstepNat⟩ := udiv64_toNat (a := counterFreq) hgcd
  rw [euclideanGcd_toNat] at hquotNat hstepNat
  have hk : quot.toNat = k := hquotNat
  have hc : step.toNat = c := hstepNat
  have hklt : k < 2 ^ 64 := hk ▸ quot.isLt
  have hpre : (quot - 1).toNat = if k = 0 then 2 ^ 64 - 1 else k - 1 := by
    rw [BitVec.toNat_sub, hk]
    split
    · rename_i h0
      rw [h0]
      rfl
    · show (2 ^ 64 - 1 + k) % 2 ^ 64 = k - 1
      omega
  have hrun : rvTimerApproximateTickParams clockFreq counterFreq (some out) =
      if quot - 1 > rvTimerCfg0PrescaleMask ∨ step > rvTimerCfg0StepMask then
        some (.kRvTimerApproximateTickParamsUnrepresentable, some out)
      else
        some (.kRvTimerApproximateTickParamsOk,
          some ⟨(quot - 1).setWidth 16, step.setWidth 8⟩) := by
    simp only [rvTimerApproximateTickParams, hquot, hstep, Option.bind_eq_bind, Option.bind_some]
  have hguard : (quot - 1 > rvTimerCfg0PrescaleMask ∨ step > rvTimerCfg0StepMask) ↔
      ¬(0 < k ∧ k - 1 ≤ 4095 ∧ c ≤ 255) := by
    show (4095 < (quot - 1).toNat ∨ 255 < step.toNat) ↔ _
    rw [hpre, hc]
    split <;> omega
  by_cases hfits : 0 < k ∧ k - 1 ≤ 4095 ∧ c ≤ 255
  · obtain ⟨hpos, hk', hc'⟩ := hfits
    refine .inl ⟨hpos, hk', hc', _, hrun.trans (if_neg ?_), ?_, ?_⟩
    · exact fun h => hguard.mp h ⟨hpos, hk', hc'⟩
    · rw [BitVec.toNat_setWidth, hpre, if_neg (by omega)]
      omega
    · rw [BitVec.toNat_setWidth, hc]
      omega
  · exact .inr ⟨hfits, hrun.trans (if_pos (hguard.mpr hfits))⟩

theorem approximateTick_ok {clockFreq counterFreq : BitVec 64} (out : RvTimerTickParams)
    (hgcd : 0 < Nat.gcd clockFreq.toNat counterFreq.toNat) :
    ApproximatesTick clockFreq counterFreq out := by
  rcases approximateTick_cases out hgcd with ⟨hpos, hk, hc, params, hrun, hpre, hstep⟩ |
    ⟨hfits, hrun⟩
  · have hclock : 0 < clockFreq.toNat := Nat.pos_of_ne_zero fun h0 => by
      rw [h0, Nat.zero_div] at hpos
      exact absurd hpos (Nat.lt_irrefl 0)
    have hticks : Ticks clockFreq.toNat counterFreq.toNat params.prescale.toNat
        params.tickStep.toNat := by
      rw [hpre, hstep]
      exact ticks_lowest hclock
    have hmem : params.prescale.toNat ∈ prescales clockFreq.toNat counterFreq.toNat :=
      ⟨_, hstep ▸ hc, hticks⟩
    refine ⟨_, params, hrun, ?_, ?_, fun h => absurd rfl h⟩
    · exact iff_of_true rfl ⟨_, hpre ▸ hk, hmem⟩
    · refine fun _ => ⟨hticks, by omega, hstep, hmem, fun prescale h => ?_⟩
      rw [hpre]
      exact (prescales_lowest hgcd h).2.1
  · refine ⟨_, out, hrun, ?_, nofun, fun _ => rfl⟩
    refine iff_of_false nofun fun ⟨prescale, hle, h⟩ => hfits ?_
    obtain ⟨hclock, hlow, hstep⟩ := prescales_lowest hgcd h
    exact ⟨Nat.div_pos (Nat.gcd_le_left _ hclock) hgcd, by omega, hstep⟩

/-- The gcd of two zeros is zero, and the quotient is then undefined. -/
theorem approximateTick_zero (out : RvTimerTickParams) :
    rvTimerApproximateTickParams 0 0 (some out) = none := by
  have hgcd : euclideanGcd 0 0 = 0 := by
    unfold euclideanGcd
    exact if_pos rfl
  simp only [rvTimerApproximateTickParams, hgcd]
  rfl

/-- The tick parameters are right unless both frequencies are zero. -/
theorem approximatesTick_iff (clockFreq counterFreq : BitVec 64) (out : RvTimerTickParams) :
    ApproximatesTick clockFreq counterFreq out ↔ ¬(clockFreq = 0 ∧ counterFreq = 0) := by
  constructor
  · rintro ⟨_, _, hrun, _⟩ ⟨rfl, rfl⟩
    rw [approximateTick_zero] at hrun
    cases hrun
  · intro h
    refine approximateTick_ok out (Nat.gcd_pos_iff.mpr ?_)
    rw [Nat.pos_iff_ne_zero, Nat.pos_iff_ne_zero, ← not_and_or]
    exact fun ⟨h₁, h₂⟩ => h ⟨BitVec.eq_of_toNat_eq h₁, BitVec.eq_of_toNat_eq h₂⟩

theorem approximateTick_divides_by_zero : ¬ApproximatesTick 0 0 ⟨0, 0⟩ := by
  rintro ⟨_, _, hrun, _⟩
  rw [approximateTick_zero] at hrun
  cases hrun

end XHeepFemu.Hal
