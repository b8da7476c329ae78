import XHeepFemu.Lib.SplitCounter
import XHeepFemu.Hw.MemMap

/-!
# The timer's counter

`rvTimerCounterRead` is `rv_timer_counter_read` of `lib/hal/rv_timer/rv_timer.c`,
over memory-mapped words named by their address. Each hart has a counter of its
own, in two registers.
-/

namespace XHeepFemu.Hal

open Lib

/-- `rv_timer_t`, without the number of comparators. -/
structure RvTimer where
  baseAddr : Word
  hartCount : Word
  deriving DecidableEq, Repr

inductive RvTimerResult where
  | kRvTimerOk
  | kRvTimerBadArg
  deriving DecidableEq, Repr

def kHartRegisterSpacing : Word := 0x100
def rvTimerTimerVLower0RegOffset : Word := 0x104
def rvTimerTimerVUpper0RegOffset : Word := 0x108

def regForHart (hart regOffset : Word) : Word := kHartRegisterSpacing * hart + regOffset

def RvTimer.upper (timer : RvTimer) (hartId : Word) : Word :=
  timer.baseAddr + regForHart hartId rvTimerTimerVUpper0RegOffset

def RvTimer.lower (timer : RvTimer) (hartId : Word) : Word :=
  timer.baseAddr + regForHart hartId rvTimerTimerVLower0RegOffset

/-- `(((uint64_t)upper) << 32) | lower`. -/
def counterValue (upper lower : Word) : BitVec 64 :=
  upper.setWidth 64 <<< 32 ||| lower.setWidth 64

/-- The result and `*out` afterwards; `none` is the null pointer. -/
def rvTimerCounterRead (timer : Option RvTimer) (hartId : Word) (out : Option (BitVec 64))
    (fuel : Nat) : OptionT (Io Word Word) (RvTimerResult × Option (BitVec 64)) :=
  match timer, out with
  | some timer, some _ =>
    if hartId ≥ timer.hartCount then pure (.kRvTimerBadArg, out)
    else do
      let (upper, lower) ← readSplit (timer.upper hartId) (timer.lower hartId) fuel
      pure (.kRvTimerOk, some (counterValue upper lower))
  | _, _ => pure (.kRvTimerBadArg, out)

theorem counterValue_toNat (upper lower : Word) :
    (counterValue upper lower).toNat = joined upper lower := by
  have hu := upper.isLt
  have hl := lower.isLt
  have hshift : (upper.setWidth 64 <<< 32).toNat = upper.toNat <<< 32 := by
    rw [BitVec.toNat_shiftLeft, BitVec.toNat_setWidth, Nat.shiftLeft_eq]
    omega
  have hlow : (lower.setWidth 64).toNat = lower.toNat := by
    rw [BitVec.toNat_setWidth]
    omega
  rw [counterValue, BitVec.toNat_or, hshift, hlow, ← Nat.shiftLeft_add_eq_or_of_lt hl,
    Nat.shiftLeft_eq, joined]

theorem counterRead_ok {reg : Word → Nat → Word} {timer : Option RvTimer} {hartId : Word}
    {out : Option (BitVec 64)} {fuel t u : Nat} {tr : List (Word × Nat)} {v : Option (BitVec 64)}
    (h : Finishes reg (rvTimerCounterRead timer hartId out fuel) t tr u (.kRvTimerOk, v)) :
    ∃ T s x, timer = some T ∧ hartId < T.hartCount ∧ s ≤ u ∧
      Finishes reg (readSplit (T.upper hartId) (T.lower hartId) fuel) t tr s x ∧
      v = some (counterValue x.1 x.2) := by
  unfold rvTimerCounterRead at h
  split at h
  · rename_i T _
    split at h
    · cases h.of_pure.1
    · rename_i hlt
      obtain ⟨s, x, tr₁, tr₂, rfl, hread, hrest⟩ := h.of_bind
      obtain ⟨hv, rfl⟩ := hrest.of_pure
      cases hv
      rw [List.append_nil]
      exact ⟨T, s, x, rfl, BitVec.not_le.mp hlt, hrest.le, hread, rfl⟩
  · cases h.of_pure.1

end XHeepFemu.Hal
