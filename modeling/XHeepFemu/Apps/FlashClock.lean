import Mathlib.Order.Bounds.Basic
import XHeepFemu.Hw.MemMap

/-!
# The clock divider of the flash

`clkDiv` is how `main` of `apps/virtual_flash_read` and of `apps/virtual_flash_write`
computes `clk_div`: it estimates the divider by a quotient rounded down and corrects
the estimate at most once. `clkDivNat` is the same over the integers.
-/

namespace XHeepFemu.Apps

def flashClkMaxHz : Word := 133 * 1000 * 1000

/-- The estimate, before it is stored in 16 bits. -/
def clkDivEstimate (coreClk : Word) : Word := (coreClk / flashClkMaxHz - 2) / 2

def clkDiv (coreClk : Word) : BitVec 16 :=
  if flashClkMaxHz < coreClk / 2 then
    let clkDiv : BitVec 16 := (clkDivEstimate coreClk).setWidth 16
    if coreClk / (2 + 2 * clkDiv.setWidth 32) > flashClkMaxHz then clkDiv + 1 else clkDiv
  else 0

/-! ## The divider over the integers -/

variable {max clk : Nat}

def clkDivNat (max clk : Nat) : Nat :=
  if max < clk / 2 then
    let d := (clk / max - 2) / 2
    if clk / (2 + 2 * d) > max then d + 1 else d
  else 0

/-- The dividers with which the flash is not clocked too fast. -/
def slowEnough (max clk : Nat) : Set Nat := fun d => clk / (2 + 2 * d) ≤ max

theorem not_slowEnough_iff {d : Nat} : d ∉ slowEnough max clk ↔ (max + 1) * (2 + 2 * d) ≤ clk := by
  rw [← Nat.le_div_iff_mul_le (by omega)]
  exact Nat.not_le

theorem slowEnough_mono {d e : Nat} (hd : d ∈ slowEnough max clk) (h : d ≤ e) :
    e ∈ slowEnough max clk := by
  by_contra he
  refine not_slowEnough_iff.mpr ?_ hd
  exact Nat.le_trans (Nat.mul_le_mul_left _ (by omega)) (not_slowEnough_iff.mp he)

theorem estimate_succ_slowEnough (hmax : 0 < max) :
    (clk / max - 2) / 2 + 1 ∈ slowEnough max clk := by
  have hclk : clk < (clk / max + 1) * max := Nat.lt_mul_of_div_lt (Nat.lt_succ_self _) hmax
  have hle : (clk / max + 1) * max ≤ (2 + 2 * ((clk / max - 2) / 2 + 1)) * max :=
    Nat.mul_le_mul_right _ (by omega)
  refine Nat.le_of_lt (Nat.div_lt_of_lt_mul ?_)
  omega

theorem estimate_pred_not_slowEnough (hquot : clk / max ≤ max) {d : Nat}
    (hd : (clk / max - 2) / 2 = d + 1) : d ∉ slowEnough max clk := by
  rw [not_slowEnough_iff]
  calc (max + 1) * (2 + 2 * d)
      ≤ (max + 1) * (clk / max - 2) := Nat.mul_le_mul_left _ (by omega)
    _ ≤ max * (clk / max - 2) + max := by rw [Nat.succ_mul]; omega
    _ ≤ max * (clk / max - 2 + 1) := by rw [Nat.mul_succ]
    _ ≤ max * (clk / max) := Nat.mul_le_mul_left _ (by omega)
    _ ≤ clk := Nat.mul_div_le _ _

/-- The one correction is enough, and never one too many. -/
theorem clkDivNat_least (hmax : 0 < max) (hquot : clk / max ≤ max) :
    IsLeast (slowEnough max clk) (clkDivNat max clk) := by
  suffices clkDivNat max clk ∈ slowEnough max clk ∧
      ∀ d, clkDivNat max clk = d + 1 → d ∉ slowEnough max clk by
    refine ⟨this.1, fun e he => Nat.not_lt.mp fun hlt => ?_⟩
    exact this.2 (clkDivNat max clk - 1) (by omega) (slowEnough_mono he (by omega))
  unfold clkDivNat
  simp only
  split
  · split
    · rename_i hfast
      refine ⟨estimate_succ_slowEnough hmax, fun d hd => ?_⟩
      obtain rfl : (clk / max - 2) / 2 = d := by omega
      exact Nat.not_le.mpr hfast
    · rename_i hslow
      exact ⟨Nat.not_lt.mp hslow, fun d => estimate_pred_not_slowEnough hquot⟩
  · rename_i hslow
    refine ⟨?_, fun d hd => absurd hd (by omega)⟩
    exact Nat.not_lt.mp hslow

/-! ## In 32 and 16 bits -/

section Word

variable (coreClk : Word)

/-- Where the estimate is computed, the subtraction does not wrap, and 16 bits hold the result. -/
theorem clkDivEstimate_exact (h : flashClkMaxHz < coreClk / 2) :
    2 ≤ coreClk.toNat / 133000000 ∧
      (clkDivEstimate coreClk).toNat = (coreClk.toNat / 133000000 - 2) / 2 ∧
      (clkDivEstimate coreClk).toNat + 1 < 2 ^ 16 := by
  have hlt := coreClk.isLt
  have hfast : 133000000 < coreClk.toNat / 2 := h
  have hquot : (coreClk / flashClkMaxHz).toNat = coreClk.toNat / 133000000 := BitVec.toNat_udiv
  have htwo : 2 ≤ coreClk.toNat / 133000000 := by omega
  have heq : (clkDivEstimate coreClk).toNat = (coreClk.toNat / 133000000 - 2) / 2 := by
    have hsub : (coreClk / flashClkMaxHz - 2).toNat = coreClk.toNat / 133000000 - 2 := by
      rw [BitVec.toNat_sub, hquot]
      show (2 ^ 32 - 2 + _) % 2 ^ 32 = _
      omega
    rw [clkDivEstimate, BitVec.toNat_udiv, hsub]
    rfl
  exact ⟨htwo, heq, by omega⟩

theorem clkDiv_toNat : (clkDiv coreClk).toNat = clkDivNat 133000000 coreClk.toNat := by
  unfold clkDiv clkDivNat
  by_cases h : flashClkMaxHz < coreClk / 2
  · obtain ⟨_, heq, hsmall⟩ := clkDivEstimate_exact coreClk h
    have hfast : 133000000 < coreClk.toNat / 2 := h
    have hdiv : ((clkDivEstimate coreClk).setWidth 16).toNat =
        (coreClk.toNat / 133000000 - 2) / 2 := by
      rw [BitVec.toNat_setWidth, heq]
      omega
    have hperiod : (2 + 2 * ((clkDivEstimate coreClk).setWidth 16).setWidth 32 : Word).toNat =
        2 + 2 * ((coreClk.toNat / 133000000 - 2) / 2) := by
      rw [BitVec.toNat_add, BitVec.toNat_mul, BitVec.toNat_setWidth, hdiv]
      show (2 + 2 * _ % 2 ^ 32) % 2 ^ 32 = _
      omega
    have htest : (coreClk / (2 + 2 * ((clkDivEstimate coreClk).setWidth 16).setWidth 32) >
        flashClkMaxHz) ↔
        coreClk.toNat / (2 + 2 * ((coreClk.toNat / 133000000 - 2) / 2)) > 133000000 := by
      rw [gt_iff_lt, BitVec.lt_def, BitVec.toNat_udiv, hperiod]
      rfl
    rw [if_pos h, if_pos hfast]
    simp only
    by_cases hcorrect : coreClk.toNat / (2 + 2 * ((coreClk.toNat / 133000000 - 2) / 2)) > 133000000
    · rw [if_pos (htest.mpr hcorrect), if_pos hcorrect, BitVec.toNat_add, hdiv]
      show (_ + 1) % 2 ^ 16 = _
      omega
    · rw [if_neg (htest.not.mpr hcorrect), if_neg hcorrect, hdiv]
  · have hslow : ¬133000000 < coreClk.toNat / 2 := h
    rw [if_neg h, if_neg hslow]
    rfl

/-- The divider is the least with which the flash runs at 133 MHz or less, and nothing wraps or
is cut off on the way to it. -/
theorem clkDiv_least :
    coreClk.toNat / (2 + 2 * (clkDiv coreClk).toNat) ≤ 133000000 ∧
    ((clkDiv coreClk).toNat = 0 ∨
      coreClk.toNat / (2 * (clkDiv coreClk).toNat) > 133000000) ∧
    IsLeast (slowEnough 133000000 coreClk.toNat) (clkDiv coreClk).toNat ∧
    (flashClkMaxHz < coreClk / 2 →
      2 ≤ (coreClk / flashClkMaxHz).toNat ∧
      ((clkDivEstimate coreClk).setWidth 16).toNat = (clkDivEstimate coreClk).toNat ∧
      (clkDivEstimate coreClk).toNat + 1 < 2 ^ 16) := by
  have hlt := coreClk.isLt
  have hleast : IsLeast (slowEnough 133000000 coreClk.toNat) (clkDiv coreClk).toNat := by
    rw [clkDiv_toNat]
    exact clkDivNat_least (by decide) (by omega)
  refine ⟨hleast.1, ?_, hleast, fun h => ?_⟩
  · cases hd : (clkDiv coreClk).toNat with
    | zero => exact .inl rfl
    | succ d =>
      refine .inr (Nat.not_le.mp fun hle => ?_)
      have hmem : d ∈ slowEnough 133000000 coreClk.toNat := by
        show coreClk.toNat / (2 + 2 * d) ≤ 133000000
        rwa [Nat.add_comm 2, ← Nat.mul_succ]
      have hge := hleast.2 hmem
      omega
  · obtain ⟨htwo, _, hsmall⟩ := clkDivEstimate_exact coreClk h
    refine ⟨htwo, ?_, hsmall⟩
    rw [BitVec.toNat_setWidth]
    omega

end Word

end XHeepFemu.Apps
