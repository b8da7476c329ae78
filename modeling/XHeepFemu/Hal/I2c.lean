import Mathlib.Algebra.Order.Floor.Div
import XHeepFemu.Hw.MemMap

/-!
# I2C timing

`i2cComputeTiming` is `i2c_compute_timing` of `lib/hal/i2c/i2c.c`. Its cycle counts
are 16 bits wide: `round_up_divide` drops the upper half of the quotient, and the
lengthened SCL high time is a difference that wraps around. `Intended` is the
timing over the integers, in terms of the table of the three speed grades, and
`Representable` the inputs on which the two agree.
-/

namespace XHeepFemu.Hal

abbrev Half := BitVec 16

/-- `i2c_speed_t`; a C enumeration can hold other values. -/
inductive I2cSpeed where
  | kDifI2cSpeedStandard
  | kDifI2cSpeedFast
  | kDifI2cSpeedFastPlus
  | other (value : Word)
  deriving DecidableEq, Repr

/-- `i2c_timing_config_t`. -/
structure I2cTimingConfig where
  lowestTargetDeviceSpeed : I2cSpeed
  clockPeriodNanos : Word
  sdaRiseNanos : Word
  sdaFallNanos : Word
  sclPeriodNanos : Word
  deriving DecidableEq, Repr

/-- `i2c_config_t`. -/
structure I2cConfig where
  sclTimeHighCycles : Half
  sclTimeLowCycles : Half
  riseCycles : Half
  fallCycles : Half
  startSignalSetupCycles : Half
  startSignalHoldCycles : Half
  dataSignalSetupCycles : Half
  dataSignalHoldCycles : Half
  stopSignalSetupCycles : Half
  stopSignalHoldCycles : Half
  deriving DecidableEq, Repr

/-- `(i2c_config_t){0}`. -/
def I2cConfig.zero : I2cConfig := ⟨0, 0, 0, 0, 0, 0, 0, 0, 0, 0⟩

inductive I2cResult where
  | kDifI2cOk
  | kDifI2cBadArg
  deriving DecidableEq, Repr

def roundUpDivide (a b : Word) : Half :=
  if a = 0 then 0 else ((a - 1) / b + 1).setWidth 16

def defaultTimingForSpeed (speed : I2cSpeed) (clockPeriodNanos : Word) : I2cConfig :=
  match speed with
  | .kDifI2cSpeedStandard =>
    { sclTimeHighCycles := roundUpDivide 4000 clockPeriodNanos
      sclTimeLowCycles := roundUpDivide 4700 clockPeriodNanos
      riseCycles := 0
      fallCycles := 0
      startSignalSetupCycles := roundUpDivide 4700 clockPeriodNanos
      startSignalHoldCycles := roundUpDivide 4000 clockPeriodNanos
      dataSignalSetupCycles := roundUpDivide 250 clockPeriodNanos
      dataSignalHoldCycles := 0
      stopSignalSetupCycles := roundUpDivide 4000 clockPeriodNanos
      stopSignalHoldCycles := roundUpDivide 4700 clockPeriodNanos }
  | .kDifI2cSpeedFast =>
    { sclTimeHighCycles := roundUpDivide 600 clockPeriodNanos
      sclTimeLowCycles := roundUpDivide 1300 clockPeriodNanos
      riseCycles := 0
      fallCycles := 0
      startSignalSetupCycles := roundUpDivide 600 clockPeriodNanos
      startSignalHoldCycles := roundUpDivide 600 clockPeriodNanos
      dataSignalSetupCycles := roundUpDivide 100 clockPeriodNanos
      dataSignalHoldCycles := 0
      stopSignalSetupCycles := roundUpDivide 600 clockPeriodNanos
      stopSignalHoldCycles := roundUpDivide 1300 clockPeriodNanos }
  | .kDifI2cSpeedFastPlus =>
    { sclTimeHighCycles := roundUpDivide 260 clockPeriodNanos
      sclTimeLowCycles := roundUpDivide 500 clockPeriodNanos
      riseCycles := 0
      fallCycles := 0
      startSignalSetupCycles := roundUpDivide 260 clockPeriodNanos
      startSignalHoldCycles := roundUpDivide 260 clockPeriodNanos
      dataSignalSetupCycles := roundUpDivide 50 clockPeriodNanos
      dataSignalHoldCycles := 0
      stopSignalSetupCycles := roundUpDivide 260 clockPeriodNanos
      stopSignalHoldCycles := roundUpDivide 500 clockPeriodNanos }
  | .other _ => .zero

def kNanosPerKBaud : Word := 1000000

/-- The `switch` on `lowest_target_device_speed`. -/
def lowestTargetDeviceSpeedKhz : I2cSpeed → Option Word
  | .kDifI2cSpeedStandard => some 100
  | .kDifI2cSpeedFast => some 400
  | .kDifI2cSpeedFastPlus => some 1000
  | .other _ => none

/-- The configuration `i2c_compute_timing` stores for a valid speed. -/
def i2cTiming (timingConfig : I2cTimingConfig) (khz : Word) : I2cConfig :=
  let config := defaultTimingForSpeed timingConfig.lowestTargetDeviceSpeed
    timingConfig.clockPeriodNanos
  let config := { config with
    riseCycles := roundUpDivide timingConfig.sdaRiseNanos timingConfig.clockPeriodNanos
    fallCycles := roundUpDivide timingConfig.sdaFallNanos timingConfig.clockPeriodNanos }
  let sclPeriodNanos := timingConfig.sclPeriodNanos
  let slowestSclPeriodNanos := kNanosPerKBaud / khz
  let sclPeriodNanos :=
    if sclPeriodNanos < slowestSclPeriodNanos then slowestSclPeriodNanos else sclPeriodNanos
  let sclPeriodCycles := roundUpDivide sclPeriodNanos timingConfig.clockPeriodNanos
  let lengthenedHighCycles :=
    sclPeriodCycles - config.sclTimeLowCycles - config.riseCycles - config.fallCycles
  if lengthenedHighCycles > config.sclTimeHighCycles then
    { config with sclTimeHighCycles := lengthenedHighCycles }
  else config

/-- The result and `*config` afterwards; `none` is the null pointer. -/
def i2cComputeTiming (timingConfig : I2cTimingConfig) (config : Option I2cConfig) :
    I2cResult × Option I2cConfig :=
  match config with
  | none => (.kDifI2cBadArg, none)
  | some config =>
    match lowestTargetDeviceSpeedKhz timingConfig.lowestTargetDeviceSpeed with
    | none => (.kDifI2cBadArg, some config)
    | some khz => (.kDifI2cOk, some (i2cTiming timingConfig khz))

/-! ## The timing over the integers -/

/-- What the I2C standard asks of a speed grade, in nanoseconds. -/
structure I2cGrade where
  period : Nat
  high : Nat
  low : Nat
  startSetup : Nat
  startHold : Nat
  dataSetup : Nat
  dataHold : Nat
  stopSetup : Nat
  stopHold : Nat

/-- The grade of a speed; a value that is no speed has none. -/
def I2cSpeed.grade : I2cSpeed → I2cGrade
  | .kDifI2cSpeedStandard => ⟨10000, 4000, 4700, 4700, 4000, 250, 0, 4000, 4700⟩
  | .kDifI2cSpeedFast => ⟨2500, 600, 1300, 600, 600, 100, 0, 600, 1300⟩
  | .kDifI2cSpeedFastPlus => ⟨1000, 260, 500, 260, 260, 50, 0, 260, 500⟩
  | .other _ => ⟨0, 0, 0, 0, 0, 0, 0, 0, 0⟩

namespace I2cTimingConfig

variable (t : I2cTimingConfig)

def grade : I2cGrade := t.lowestTargetDeviceSpeed.grade

/-- The least number of clock cycles that lasts `nanos`. -/
def cycles (nanos : Nat) : Nat := nanos ⌈/⌉ t.clockPeriodNanos.toNat

def rise : Nat := t.cycles t.sdaRiseNanos.toNat

def fall : Nat := t.cycles t.sdaFallNanos.toNat

/-- The SCL period in nanoseconds: what is asked for, and at least that of the grade. -/
def period : Nat := max t.sclPeriodNanos.toNat t.grade.period

/-- What is left of the SCL period for the high time; negative if nothing is. -/
def slack : Int := t.cycles t.period - t.cycles t.grade.low - t.rise - t.fall

end I2cTimingConfig

/-- The timing a configuration asks for. -/
structure Intended (t : I2cTimingConfig) (c : I2cConfig) : Prop where
  low : c.sclTimeLowCycles.toNat = t.cycles t.grade.low
  rise : c.riseCycles.toNat = t.rise
  fall : c.fallCycles.toNat = t.fall
  startSetup : c.startSignalSetupCycles.toNat = t.cycles t.grade.startSetup
  startHold : c.startSignalHoldCycles.toNat = t.cycles t.grade.startHold
  dataSetup : c.dataSignalSetupCycles.toNat = t.cycles t.grade.dataSetup
  dataHold : c.dataSignalHoldCycles.toNat = t.cycles t.grade.dataHold
  stopSetup : c.stopSignalSetupCycles.toNat = t.cycles t.grade.stopSetup
  stopHold : c.stopSignalHoldCycles.toNat = t.cycles t.grade.stopHold
  high : (c.sclTimeHighCycles.toNat : Int) = max (t.cycles t.grade.high : Int) t.slack
  /-- The SCL period is no shorter than asked for, and no shorter than the grade allows. -/
  requested : t.sclPeriodNanos.toNat ≤ (c.sclTimeHighCycles.toNat + c.sclTimeLowCycles.toNat +
    c.riseCycles.toNat + c.fallCycles.toNat) * t.clockPeriodNanos.toNat
  allowed : t.grade.period ≤ (c.sclTimeHighCycles.toNat + c.sclTimeLowCycles.toNat +
    c.riseCycles.toNat + c.fallCycles.toNat) * t.clockPeriodNanos.toNat

/-- Rise, fall and slack fit in 16 bits; a negative slack wraps to no more than the
minimum high time. -/
structure Representable (t : I2cTimingConfig) : Prop where
  rise : t.rise < 2 ^ 16
  fall : t.fall < 2 ^ 16
  slack : t.slack < 2 ^ 16
  wrap : 0 ≤ t.slack ∨ t.slack % 2 ^ 16 ≤ t.cycles t.grade.high

/-! ## The computation on 16 bits -/

/-- `round_up_divide` keeps the lower half of the rounded quotient. -/
theorem roundUpDivide_toNat (a : Word) {b : Word} (hb : 0 < b.toNat) :
    (roundUpDivide a b).toNat = (a.toNat ⌈/⌉ b.toNat) % 2 ^ 16 := by
  unfold roundUpDivide
  split
  · rename_i h0
    subst h0
    simp
  · rename_i h0
    have ha : 0 < a.toNat := by
      have := (BitVec.toNat_ne (x := a) (y := 0)).mp h0
      exact Nat.pos_of_ne_zero this
    have hpred : (a - 1).toNat = a.toNat - 1 := by
      have := a.isLt
      rw [BitVec.toNat_sub]
      show (2 ^ 32 - 1 + a.toNat) % 2 ^ 32 = _
      omega
    have hquot : (a.toNat - 1) / b.toNat + 1 ≤ a.toNat := by
      have := Nat.div_le_self (a.toNat - 1) b.toNat
      omega
    have hceil : a.toNat ⌈/⌉ b.toNat = (a.toNat - 1) / b.toNat + 1 := by
      rw [Nat.ceilDiv_eq_add_pred_div, show a.toNat + b.toNat - 1 = a.toNat - 1 + b.toNat by omega,
        Nat.add_div_right _ hb]
    have hlt : (a.toNat - 1) / b.toNat + 1 < 2 ^ 32 := Nat.lt_of_le_of_lt hquot a.isLt
    have hsum : ((a - 1) / b + 1).toNat = (a.toNat - 1) / b.toNat + 1 := by
      rw [BitVec.toNat_add, BitVec.toNat_udiv, hpred]
      exact Nat.mod_eq_of_lt hlt
    rw [BitVec.toNat_setWidth, hsum, hceil]

theorem ceilDiv_le_self (a : Nat) {b : Nat} (hb : 0 < b) : a ⌈/⌉ b ≤ a := by
  rw [ceilDiv_le_iff_le_mul hb]
  exact Nat.le_mul_of_pos_left a hb

theorem roundUpDivide_small {a b : Word} (hb : 0 < b.toNat) (ha : a.toNat < 2 ^ 16) :
    (roundUpDivide a b).toNat = a.toNat ⌈/⌉ b.toNat := by
  rw [roundUpDivide_toNat a hb, Nat.mod_eq_of_lt]
  have := ceilDiv_le_self a.toNat hb
  omega

/-- What `default_timing_for_speed` stores is what the grade asks for. -/
structure DefaultOk (clock : Nat) (g : I2cGrade) (c : I2cConfig) : Prop where
  high : c.sclTimeHighCycles.toNat = g.high ⌈/⌉ clock
  low : c.sclTimeLowCycles.toNat = g.low ⌈/⌉ clock
  startSetup : c.startSignalSetupCycles.toNat = g.startSetup ⌈/⌉ clock
  startHold : c.startSignalHoldCycles.toNat = g.startHold ⌈/⌉ clock
  dataSetup : c.dataSignalSetupCycles.toNat = g.dataSetup ⌈/⌉ clock
  dataHold : c.dataSignalHoldCycles.toNat = g.dataHold ⌈/⌉ clock
  stopSetup : c.stopSignalSetupCycles.toNat = g.stopSetup ⌈/⌉ clock
  stopHold : c.stopSignalHoldCycles.toNat = g.stopHold ⌈/⌉ clock

theorem defaultTiming_ok (speed : I2cSpeed) {clock : Word} (hclock : 0 < clock.toNat) :
    DefaultOk clock.toNat speed.grade (defaultTimingForSpeed speed clock) := by
  have small : ∀ a : Word, a.toNat < 2 ^ 16 →
      (roundUpDivide a clock).toNat = a.toNat ⌈/⌉ clock.toNat :=
    fun a ha => roundUpDivide_small hclock ha
  have zero : (0 : Half).toNat = 0 ⌈/⌉ clock.toNat := (zero_ceilDiv _).symm
  cases speed with
  | kDifI2cSpeedStandard =>
    exact ⟨small 4000 (by decide), small 4700 (by decide), small 4700 (by decide),
      small 4000 (by decide), small 250 (by decide), zero, small 4000 (by decide),
      small 4700 (by decide)⟩
  | kDifI2cSpeedFast =>
    exact ⟨small 600 (by decide), small 1300 (by decide), small 600 (by decide),
      small 600 (by decide), small 100 (by decide), zero, small 600 (by decide),
      small 1300 (by decide)⟩
  | kDifI2cSpeedFastPlus =>
    exact ⟨small 260 (by decide), small 500 (by decide), small 260 (by decide),
      small 260 (by decide), small 50 (by decide), zero, small 260 (by decide),
      small 500 (by decide)⟩
  | other value => exact ⟨zero, zero, zero, zero, zero, zero, zero, zero⟩

theorem slowest_period {speed : I2cSpeed} {khz : Word}
    (h : lowestTargetDeviceSpeedKhz speed = some khz) :
    (kNanosPerKBaud / khz).toNat = speed.grade.period := by
  cases speed with
  | other value => cases h
  | _ =>
    cases h
    decide

theorem difference_toNat {p l r f : Half} {period low rise fall : Nat}
    (hp : p.toNat = period % 2 ^ 16) (hl : l.toNat = low) (hr : r.toNat = rise % 2 ^ 16)
    (hf : f.toNat = fall % 2 ^ 16) :
    ((p - l - r - f).toNat : Int) = ((period : Int) - low - rise - fall) % 2 ^ 16 := by
  have := l.isLt
  simp only [BitVec.toNat_sub, hp, hl, hr, hf]
  omega

/-- What is stored: the defaults, with rise and fall times cut to 16 bits and the high time
lengthened to the slack modulo `2 ^ 16`. -/
theorem i2cTiming_eq {t : I2cTimingConfig} {khz : Word} (hclock : 0 < t.clockPeriodNanos.toNat)
    (hkhz : lowestTargetDeviceSpeedKhz t.lowestTargetDeviceSpeed = some khz) :
    ∃ rise fall high : Half,
      i2cTiming t khz =
        { defaultTimingForSpeed t.lowestTargetDeviceSpeed t.clockPeriodNanos with
          riseCycles := rise
          fallCycles := fall
          sclTimeHighCycles := high } ∧
      rise.toNat = t.rise % 2 ^ 16 ∧ fall.toNat = t.fall % 2 ^ 16 ∧
      (high.toNat : Int) = max (t.cycles t.grade.high : Int) (t.slack % 2 ^ 16) := by
  have hmin := (defaultTiming_ok t.lowestTargetDeviceSpeed hclock).high
  have hlow := (defaultTiming_ok t.lowestTargetDeviceSpeed hclock).low
  have hperiod : (if t.sclPeriodNanos < kNanosPerKBaud / khz then kNanosPerKBaud / khz
      else t.sclPeriodNanos).toNat = t.period := by
    have hslow := slowest_period hkhz
    unfold I2cTimingConfig.period I2cTimingConfig.grade
    split
    · rename_i hlt
      rw [BitVec.lt_def] at hlt
      omega
    · rename_i hge
      rw [BitVec.lt_def] at hge
      omega
  unfold i2cTiming
  simp only
  generalize (if t.sclPeriodNanos < kNanosPerKBaud / khz then kNanosPerKBaud / khz
    else t.sclPeriodNanos) = sclPeriodNanos at hperiod ⊢
  have hcycles : (roundUpDivide sclPeriodNanos t.clockPeriodNanos).toNat =
      t.cycles t.period % 2 ^ 16 := hperiod ▸ roundUpDivide_toNat _ hclock
  have hrise : (roundUpDivide t.sdaRiseNanos t.clockPeriodNanos).toNat = t.rise % 2 ^ 16 :=
    roundUpDivide_toNat _ hclock
  have hfall : (roundUpDivide t.sdaFallNanos t.clockPeriodNanos).toNat = t.fall % 2 ^ 16 :=
    roundUpDivide_toNat _ hclock
  have hslack : _ = t.slack % 2 ^ 16 := difference_toNat hcycles hlow hrise hfall
  split
  · rename_i hlonger
    refine ⟨_, _, _, rfl, hrise, hfall, ?_⟩
    rw [gt_iff_lt, BitVec.lt_def, hmin] at hlonger
    unfold I2cTimingConfig.cycles I2cTimingConfig.grade
    omega
  · rename_i hshorter
    refine ⟨_, _, _, rfl, hrise, hfall, ?_⟩
    rw [gt_iff_lt, BitVec.lt_def, hmin] at hshorter
    unfold I2cTimingConfig.cycles I2cTimingConfig.grade
    omega

theorem computeTiming_ok {t : I2cTimingConfig} {config : Option I2cConfig} {c : I2cConfig}
    (h : i2cComputeTiming t config = (.kDifI2cOk, some c)) :
    ∃ khz, lowestTargetDeviceSpeedKhz t.lowestTargetDeviceSpeed = some khz ∧
      c = i2cTiming t khz := by
  unfold i2cComputeTiming at h
  split at h
  · cases h
  · split at h
    · cases h
    · rename_i khz hkhz
      cases h
      exact ⟨khz, hkhz, rfl⟩

/-- The SCL period covers what is asked for once each part of it is right. -/
theorem period_le (t : I2cTimingConfig) (hclock : 0 < t.clockPeriodNanos.toNat) {total : Nat}
    (h : t.cycles t.period ≤ total) : t.period ≤ total * t.clockPeriodNanos.toNat := by
  have hceil : t.period ≤ t.clockPeriodNanos.toNat * t.cycles t.period :=
    (ceilDiv_le_iff_le_mul hclock).mp le_rfl
  rw [Nat.mul_comm]
  exact hceil.trans (Nat.mul_le_mul_left _ h)

/-- **I2C timing**: what `i2c_compute_timing` stores is the intended timing exactly when
that timing can be represented. -/
theorem computeTiming_intended_iff {t : I2cTimingConfig} {config : Option I2cConfig}
    {c : I2cConfig} (hclock : 1 ≤ t.clockPeriodNanos.toNat)
    (h : i2cComputeTiming t config = (.kDifI2cOk, some c)) :
    Intended t c ↔ Representable t := by
  obtain ⟨khz, hkhz, rfl⟩ := computeTiming_ok h
  obtain ⟨rise, fall, high, hc, hrise, hfall, hhigh⟩ := i2cTiming_eq hclock hkhz
  obtain ⟨hmin, hlow, h1, h2, h3, h4, h5, h6⟩ :=
    defaultTiming_ok t.lowestTargetDeviceSpeed hclock
  have hminlt : t.cycles t.grade.high < 2 ^ 16 := hmin.symm.trans_lt (BitVec.isLt _)
  rw [hc]
  refine ⟨fun hi => ?_, fun hr => ?_⟩
  · have hrise' := hi.rise
    have hfall' := hi.fall
    have hhigh' := hi.high
    have hlt := high.isLt
    simp only at hrise' hfall' hhigh'
    exact ⟨by omega, by omega, by omega, by omega⟩
  · obtain ⟨hr, hf, hs, hw⟩ := hr
    have hrise' : rise.toNat = t.rise := hrise.trans (Nat.mod_eq_of_lt hr)
    have hfall' : fall.toNat = t.fall := hfall.trans (Nat.mod_eq_of_lt hf)
    have hhigh' : (high.toNat : Int) = max (t.cycles t.grade.high : Int) t.slack := by
      rw [hhigh]
      omega
    have htotal : t.cycles t.period ≤ high.toNat + t.cycles t.grade.low + t.rise + t.fall := by
      have : t.slack = t.cycles t.period - t.cycles t.grade.low - t.rise - t.fall := rfl
      omega
    have hperiod := period_le t hclock htotal
    refine ⟨hlow, hrise', hfall', h1, h2, h3, h4, h5, h6, hhigh', ?_, ?_⟩
    · simp only [hlow, hrise', hfall']
      exact (Nat.le_max_left _ _).trans hperiod
    · simp only [hlow, hrise', hfall']
      exact (Nat.le_max_right _ _).trans hperiod

/-- Fast mode with a clock of 20 MHz. -/
def fastAt20MHz : I2cTimingConfig := ⟨.kDifI2cSpeedFast, 50, 300, 300, 0⟩

theorem computeTiming_intended_fast :
    ∃ c, i2cComputeTiming fastAt20MHz (some .zero) = (.kDifI2cOk, some c) ∧
      Intended fastAt20MHz c := by
  have hok : i2cComputeTiming fastAt20MHz (some .zero) =
      (.kDifI2cOk, some (i2cTiming fastAt20MHz 400)) := rfl
  exact ⟨_, hok, (computeTiming_intended_iff (by decide) hok).mpr
    ⟨by decide, by decide, by decide, by decide⟩⟩

/-- Fast mode plus with a clock of 1 MHz: one cycle of low time, one of rise and one of
fall leave nothing of a one-cycle period, and the high time becomes 65534 cycles. -/
theorem computeTiming_wraps :
    ∃ c, i2cComputeTiming ⟨.kDifI2cSpeedFastPlus, 1000, 120, 120, 0⟩ (some .zero) =
        (.kDifI2cOk, some c) ∧
      c.sclTimeHighCycles = 65534 ∧
      ¬ Intended ⟨.kDifI2cSpeedFastPlus, 1000, 120, 120, 0⟩ c := by
  refine ⟨_, rfl, rfl, fun hi => ?_⟩
  have hhigh := hi.high
  revert hhigh
  decide

end XHeepFemu.Hal
