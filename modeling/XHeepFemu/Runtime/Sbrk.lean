import Mathlib.Algebra.Group.Int.Defs
import XHeepFemu.Lib.Run
import XHeepFemu.Hw.MemMap

/-!
# The program break

`sbrk` is `_sbrk` of `lib/runtime/syscalls.c`. It advances `brk` once in the
condition and once more in the branch, and where the increment does not fit it
moves `brk` to the end of the heap and still returns the old break. `Session`
adds to `brk` what a caller may rely on: the addresses handed out and not yet
released.
-/

namespace XHeepFemu.Runtime

open Lib (AllSteps allSteps_iff)

/-- The heap, as `link.ld` lays it out in `ram1`. -/
structure Heap where
  start : Word
  stop : Word
  start_lt : start.toNat < stop.toNat
  in_ram1 : ram1.base ≤ start.toNat ∧ stop.toNat ≤ ram1.top

variable (H : Heap)

/-- `_sbrk`: the new break and the result. -/
def sbrk (brk incr : Word) : Word × Word :=
  let oldBrk := brk
  if H.start = H.stop then (brk, 0)
  else
    let brk := brk + incr
    if brk < H.stop then
      let brk := brk + incr
      (brk, oldBrk)
    else
      (H.stop, oldBrk)

/-- `(void *)-1`. -/
def sbrkFailed : Word := 0xffffffff

/-- The break, the addresses a caller was handed and has not released, and whether the
break was ever lowered. -/
structure Session where
  brk : Word
  live : Nat → Prop
  shrunk : Prop

def Session.init : Session := ⟨H.start, fun _ => False, False⟩

/-- One call. A positive increment hands out `incr` bytes from the result; a negative one
releases the `-incr` bytes below it. -/
def call (s : Session) (incr : Word) : Session :=
  let (brk, p) := sbrk H s.brk incr
  { brk
    live := fun a =>
      if 0 ≤ incr.toInt then
        s.live a ∨ p ≠ sbrkFailed ∧ p.toNat ≤ a ∧ (a : Int) < p.toNat + incr.toInt
      else s.live a ∧ ¬ (p.toNat + incr.toInt ≤ (a : Int) ∧ a < p.toNat)
    shrunk := s.shrunk ∨ incr.toInt < 0 }

/-- The increment takes the break to an address of the heap. -/
def Fits (brk incr : Word) : Prop :=
  (H.start.toNat : Int) ≤ brk.toNat + incr.toInt ∧ (brk.toNat : Int) + incr.toInt ≤ H.stop.toNat

/-- What a caller expects of one call. -/
structure CallOk (s : Session) (incr : Word) : Prop where
  contained : H.start.toNat ≤ (call H s incr).brk.toNat ∧ (call H s incr).brk.toNat ≤ H.stop.toNat
  granted : 0 ≤ incr.toInt → (sbrk H s.brk incr).2 ≠ sbrkFailed →
    (sbrk H s.brk incr).2 = s.brk ∧ ((call H s incr).brk.toNat : Int) = s.brk.toNat + incr.toInt ∧
      ∀ a : Nat, s.brk.toNat ≤ a → (a : Int) < s.brk.toNat + incr.toInt →
        H.start.toNat ≤ a ∧ a < H.stop.toNat ∧ ¬ s.live a
  refused : ¬ Fits H s.brk incr → (call H s incr).brk = s.brk ∧ (sbrk H s.brk incr).2 = sbrkFailed

/-- The calls on which `_sbrk` does what a caller expects. -/
def Benign (s : Session) (incr : Word) : Prop :=
  incr.toInt = 0 ∨
  (0 < incr.toInt ∧ (s.brk.toNat : Int) + incr.toInt = H.stop.toNat ∧ ¬ s.shrunk) ∨
  (incr.toInt < 0 ∧ (H.start.toNat : Int) ≤ s.brk.toNat + 2 * incr.toInt)

/-- Along benign calls: before the first release the heap is handed out not at all or
whole; after it the break points into memory that is still handed out. -/
structure Inv (s : Session) : Prop where
  low : H.start.toNat ≤ s.brk.toNat
  high : s.brk.toNat ≤ H.stop.toNat
  unshrunk : ¬ s.shrunk → (s.brk = H.start ∧ ∀ a, ¬ s.live a) ∨
    (s.brk = H.stop ∧ ∀ a, s.live a ↔ H.start.toNat ≤ a ∧ a < H.stop.toNat)
  shrunk : s.shrunk → ∀ a, H.start.toNat ≤ a → a ≤ s.brk.toNat → s.live a

variable {H} {s : Session} {brk incr : Word}

/-! ## What one call computes -/

theorem Heap.stop_le (H : Heap) : H.stop.toNat ≤ 0x78000 := H.in_ram1.2

theorem Heap.start_ne (H : Heap) : H.start ≠ H.stop := fun h =>
  absurd (congrArg BitVec.toNat h) (Nat.ne_of_lt H.start_lt)

theorem toInt_cases (x : Word) : x.toInt = x.toNat ∧ x.toNat < 2 ^ 31 ∨
    x.toInt = x.toNat - 2 ^ 32 ∧ 2 ^ 31 ≤ x.toNat := by
  rw [BitVec.toInt_eq_toNat_cond]
  split <;> omega

theorem sbrk_eq (H : Heap) (brk incr : Word) : sbrk H brk incr =
    (if brk + incr < H.stop then brk + incr + incr else H.stop, brk) := by
  simp only [sbrk, if_neg H.start_ne]
  split <;> rfl

theorem sbrk_result : (sbrk H brk incr).2 = brk := by rw [sbrk_eq]

theorem sbrk_brk : (sbrk H brk incr).1 =
    if brk + incr < H.stop then brk + incr + incr else H.stop := by rw [sbrk_eq]

theorem ne_sbrkFailed (h : brk.toNat ≤ H.stop.toNat) : brk ≠ sbrkFailed := by
  rintro rfl
  have := H.stop_le
  rw [show sbrkFailed.toNat = 2 ^ 32 - 1 from rfl] at h
  omega

theorem sbrk_room (h0 : 0 ≤ incr.toInt) (h : (brk.toNat : Int) + incr.toInt < H.stop.toNat) :
    ((sbrk H brk incr).1.toNat : Int) = brk.toNat + 2 * incr.toInt := by
  have := H.stop_le
  rcases toInt_cases incr with ⟨e, _⟩ | ⟨e, _⟩
  · rw [sbrk_brk, if_pos (by rw [BitVec.lt_def, BitVec.toNat_add]; omega)]
    simp only [BitVec.toNat_add]
    omega
  · omega

theorem sbrk_full (hb : brk.toNat ≤ H.stop.toNat) (h0 : 0 ≤ incr.toInt)
    (h : (H.stop.toNat : Int) ≤ brk.toNat + incr.toInt) : (sbrk H brk incr).1 = H.stop := by
  have := H.stop_le
  rcases toInt_cases incr with ⟨e, _⟩ | ⟨e, _⟩
  · rw [sbrk_brk, if_neg (by rw [BitVec.lt_def, BitVec.toNat_add]; omega)]
  · omega

/-- A release lowers the break twice as far, and is taken back into the heap by nothing. -/
theorem sbrk_lower (hb : brk.toNat ≤ H.stop.toNat) (h0 : incr.toInt < 0)
    (h : 0 ≤ (brk.toNat : Int) + incr.toInt) :
    ((sbrk H brk incr).1.toNat : Int) = brk.toNat + 2 * incr.toInt ∨
      ((sbrk H brk incr).1.toNat : Int) = brk.toNat + 2 * incr.toInt + 2 ^ 32 := by
  have := H.stop_le
  rcases toInt_cases incr with ⟨e, _⟩ | ⟨e, hi⟩
  · omega
  · have hlt := incr.isLt
    rw [sbrk_brk, if_pos (by rw [BitVec.lt_def, BitVec.toNat_add]; omega)]
    simp only [BitVec.toNat_add]
    omega

/-! ## Benign calls -/

theorem callOk_zero (hi : Inv H s) (h0 : incr.toInt = 0) : CallOk H s incr := by
  have hlow := hi.low
  have hhigh := hi.high
  have hbrk : (sbrk H s.brk incr).1.toNat = s.brk.toNat := by
    rcases Nat.lt_or_eq_of_le hhigh with h | h
    · have : ((sbrk H s.brk incr).1.toNat : Int) = s.brk.toNat + 2 * incr.toInt :=
        sbrk_room (by omega) (by omega)
      omega
    · rw [sbrk_full hhigh (by omega) (by omega), h]
  refine ⟨?_, fun _ _ => ⟨sbrk_result, ?_, ?_⟩, fun hf => absurd ?_ hf⟩
  · simp only [call, hbrk]
    omega
  · simp only [call, hbrk]
    omega
  · intro a ha ha'
    omega
  · unfold Fits
    omega

theorem callOk_fill (hi : Inv H s) (h0 : 0 < incr.toInt)
    (hend : (s.brk.toNat : Int) + incr.toInt = H.stop.toNat) (hs : ¬ s.shrunk) :
    CallOk H s incr := by
  have hlow := hi.low
  have hhigh := hi.high
  have hbrk : (call H s incr).brk = H.stop := sbrk_full hhigh (by omega) (by omega)
  refine ⟨?_, fun _ _ => ⟨sbrk_result, ?_, ?_⟩, fun hf => absurd ?_ hf⟩
  · rw [hbrk]
    omega
  · rw [hbrk]
    omega
  · intro a ha ha'
    refine ⟨by omega, by omega, ?_⟩
    rcases hi.unshrunk hs with ⟨_, hl⟩ | ⟨e, _⟩
    · exact hl a
    · rw [e] at hend
      omega
  · unfold Fits
    omega

theorem callOk_lower (hi : Inv H s) (h0 : incr.toInt < 0)
    (h : (H.start.toNat : Int) ≤ s.brk.toNat + 2 * incr.toInt) : CallOk H s incr := by
  have hhigh := hi.high
  have := H.stop_le
  have hbrk : ((call H s incr).brk.toNat : Int) = s.brk.toNat + 2 * incr.toInt := by
    have hlt := (sbrk H s.brk incr).1.isLt
    rcases sbrk_lower hhigh h0 (by omega) with h | h <;> simp only [call] <;> omega
  refine ⟨by omega, fun h => absurd h (by omega), fun hf => absurd ?_ hf⟩
  unfold Fits
  omega

/-- Under the invariant the benign calls are exactly those that go well. -/
theorem callOk_iff (hi : Inv H s) : CallOk H s incr ↔ Benign H s incr := by
  refine ⟨?_, ?_⟩
  · intro ok
    have hlow := hi.low
    have hhigh := hi.high
    have hres : (sbrk H s.brk incr).2 ≠ sbrkFailed := by
      rw [sbrk_result]
      exact ne_sbrkFailed hhigh
    have fits : Fits H s.brk incr := by
      by_contra hf
      exact hres (ok.refused hf).2
    unfold Fits at fits
    have := H.stop_le
    rcases Int.lt_trichotomy incr.toInt 0 with h | h | h
    · have hb := ok.contained
      simp only [call] at hb
      refine .inr (.inr ⟨h, ?_⟩)
      rcases sbrk_lower hhigh h (by omega) with e | e <;> omega
    · exact .inl h
    · obtain ⟨_, hmove, hfree⟩ := ok.granted (by omega) hres
      have hend : (s.brk.toNat : Int) + incr.toInt = H.stop.toNat := by
        by_contra hne
        have : ((sbrk H s.brk incr).1.toNat : Int) = s.brk.toNat + 2 * incr.toInt :=
          sbrk_room (by omega) (by omega)
        simp only [call] at hmove
        omega
      refine .inr (.inl ⟨h, hend, fun hs => ?_⟩)
      exact (hfree s.brk.toNat (by omega) (by omega)).2.2 (hi.shrunk hs _ hlow (by omega))
  · rintro (h | ⟨h, hend, hs⟩ | ⟨h, hlow⟩)
    · exact callOk_zero hi h
    · exact callOk_fill hi h hend hs
    · exact callOk_lower hi h hlow

/-! ## Sequences of calls -/

theorem inv_init (H : Heap) : Inv H (Session.init H) where
  low := Nat.le_refl _
  high := Nat.le_of_lt H.start_lt
  unshrunk := fun _ => .inl ⟨rfl, fun _ h => h⟩
  shrunk := False.elim

theorem inv_zero (hi : Inv H s) (h0 : incr.toInt = 0) : Inv H (call H s incr) := by
  have hbrk : (call H s incr).brk = s.brk := by
    obtain ⟨_, hmove, _⟩ := (callOk_zero hi h0).granted (by omega)
      (by rw [sbrk_result]; exact ne_sbrkFailed hi.high)
    exact BitVec.eq_of_toNat_eq (by omega)
  have hlive : ∀ a, (call H s incr).live a ↔ s.live a := by
    intro a
    simp only [call, h0, Int.le_refl, if_true, or_iff_left_iff_imp]
    omega
  have hshrunk : (call H s incr).shrunk ↔ s.shrunk := by
    simp only [call, h0, Int.lt_irrefl, or_false]
  constructor
  · rw [hbrk]
    exact hi.low
  · rw [hbrk]
    exact hi.high
  · intro h
    rw [hshrunk] at h
    simp only [hbrk, hlive]
    exact hi.unshrunk h
  · intro h
    rw [hshrunk] at h
    simp only [hbrk, hlive]
    exact hi.shrunk h

theorem inv_fill (hi : Inv H s) (h0 : 0 < incr.toInt)
    (hend : (s.brk.toNat : Int) + incr.toInt = H.stop.toNat) (hs : ¬ s.shrunk) :
    Inv H (call H s incr) := by
  have hbrk : (call H s incr).brk = H.stop := sbrk_full hi.high (by omega) (by omega)
  have hlt := H.start_lt
  obtain ⟨hstart, hnone⟩ : s.brk = H.start ∧ ∀ a, ¬ s.live a := by
    rcases hi.unshrunk hs with h | ⟨e, _⟩
    · exact h
    · rw [e] at hend
      omega
  have hshrunk : ¬ (call H s incr).shrunk := by
    rintro (h | h)
    · exact hs h
    · omega
  refine ⟨by rw [hbrk]; omega, Nat.le_of_eq (by rw [hbrk]), fun _ => .inr ⟨hbrk, fun a => ?_⟩,
    fun h => absurd h hshrunk⟩
  have hres := ne_sbrkFailed hi.high
  simp only [call, if_pos (show 0 ≤ incr.toInt by omega), sbrk_result]
  rw [hstart] at hend hres ⊢
  refine ⟨?_, ?_⟩
  · rintro (h | ⟨_, h, h'⟩)
    · exact absurd h (hnone a)
    · exact ⟨h, by omega⟩
  · rintro ⟨h, h'⟩
    exact .inr ⟨hres, h, by omega⟩

/-- After a release the break points below memory that is still handed out. -/
theorem inv_lower (hi : Inv H s) (h0 : incr.toInt < 0)
    (h : (H.start.toNat : Int) ≤ s.brk.toNat + 2 * incr.toInt) : Inv H (call H s incr) := by
  have hhigh := hi.high
  have := H.stop_le
  have hbrk : ((call H s incr).brk.toNat : Int) = s.brk.toNat + 2 * incr.toInt := by
    have hlt := (sbrk H s.brk incr).1.isLt
    rcases sbrk_lower hhigh h0 (by omega) with h | h <;> simp only [call] <;> omega
  have hshrunk : (call H s incr).shrunk := .inr h0
  refine ⟨by omega, by omega, fun hn => absurd hshrunk hn, fun _ a ha ha' => ?_⟩
  simp only [call, if_neg (show ¬ 0 ≤ incr.toInt by omega), sbrk_result]
  refine ⟨?_, by omega⟩
  by_cases hs : s.shrunk
  · exact hi.shrunk hs a ha (by omega)
  · rcases hi.unshrunk hs with ⟨e, _⟩ | ⟨e, hl⟩
    · rw [e] at h
      omega
    · rw [hl]
      rw [e] at hbrk
      omega

theorem inv_call (hi : Inv H s) (hb : Benign H s incr) : Inv H (call H s incr) := by
  rcases hb with h | ⟨h, hend, hs⟩ | ⟨h, hlow⟩
  · exact inv_zero hi h
  · exact inv_fill hi h hend hs
  · exact inv_lower hi h hlow

/-- **`_sbrk` over any sequence of calls**: all of them do what a caller expects exactly
when all of them are benign. -/
theorem sbrk_run_ok_iff (H : Heap) (incrs : List Word) :
    AllSteps (call H) (CallOk H) (Session.init H) incrs ↔
      AllSteps (call H) (Benign H) (Session.init H) incrs :=
  allSteps_iff (fun _ _ => callOk_iff) (fun _ _ => inv_call) incrs (inv_init H)

/-- A heap of 4 KiB. -/
def Heap.sample : Heap := ⟨0x70000, 0x71000, by decide, by decide⟩

/-- The first call that asks for 16 bytes moves the break by 32. -/
theorem sbrk_first_call_moves_twice :
    (call .sample (.init .sample) 16).brk = 0x70020 ∧
      ¬ ∀ H incrs, AllSteps (call H) (CallOk H) (Session.init H) incrs := by
  refine ⟨by decide, fun h => ?_⟩
  have ok := (h .sample [16]).1
  exact absurd (ok.granted (by decide) (by decide)).2.1 (by decide)

end XHeepFemu.Runtime
