import XHeepFemu.Lib.Ring
import XHeepFemu.Lib.Run

/-!
# The fifo of the error queue

`libscpi/fifo.c`, on elements of any type. The array is a function of the index,
and a function that returns FALSE here returns no element; the pointers it checks
for NULL are the addresses of locals in every call. The fifo implements a list of
at most `size` elements, whatever the calls and wherever in the array it stands.
-/

namespace XHeepFemu.Scpi

open Lib (ring answers)

variable {α : Type}

/-- `scpi_fifo_t`. -/
structure Fifo (α : Type) where
  wr : Nat
  rd : Nat
  count : Nat
  size : Nat
  data : Nat → α

def fifoInit (data : Nat → α) (size : Nat) : Fifo α := ⟨0, 0, 0, size, data⟩

def fifoClear (fifo : Fifo α) : Fifo α := { fifo with wr := 0, rd := 0, count := 0 }

def fifoIsEmpty (fifo : Fifo α) : Bool := fifo.count == 0

def fifoIsFull (fifo : Fifo α) : Bool := fifo.count == fifo.size

def fifoAdd (fifo : Fifo α) (value : α) : Fifo α × Bool :=
  if fifoIsFull fifo then (fifo, false)
  else
    ({ fifo with
        data := Function.update fifo.data fifo.wr value
        wr := (fifo.wr + 1) % fifo.size
        count := fifo.count + 1 }, true)

def fifoRemove (fifo : Fifo α) : Fifo α × Option α :=
  if fifoIsEmpty fifo then (fifo, none)
  else
    ({ fifo with rd := (fifo.rd + 1) % fifo.size, count := fifo.count - 1 },
      some (fifo.data fifo.rd))

def fifoRemoveLast (fifo : Fifo α) : Fifo α × Option α :=
  if fifoIsEmpty fifo then (fifo, none)
  else
    let wr := (fifo.wr + fifo.size - 1) % fifo.size
    ({ fifo with wr := wr, count := fifo.count - 1 }, some (fifo.data wr))

def fifoCount (fifo : Fifo α) : Nat := fifo.count

/-! ## What the fifo holds -/

/-- The elements, the oldest one first. -/
def Fifo.contents (fifo : Fifo α) : List α := ring fifo.data fifo.size fifo.rd fifo.count

/-- The indices are slots of the array, and agree with the count. -/
structure Fifo.Wf (fifo : Fifo α) : Prop where
  count_le : fifo.count ≤ fifo.size
  rd_lt : 0 < fifo.size → fifo.rd < fifo.size
  wr_eq : 0 < fifo.size → fifo.wr = (fifo.rd + fifo.count) % fifo.size

@[simp] theorem Fifo.length_contents (fifo : Fifo α) : fifo.contents.length = fifo.count := by
  simp [contents]

theorem Fifo.contents_eq_nil_iff {fifo : Fifo α} : fifo.contents = [] ↔ fifo.count = 0 := by
  rw [← List.length_eq_zero_iff, length_contents]

theorem fifoInit_wf (data : Nat → α) (size : Nat) : (fifoInit data size).Wf :=
  ⟨Nat.zero_le _, fun h => h, fun _ => (Nat.zero_mod _).symm⟩

theorem fifoClear_wf (fifo : Fifo α) : (fifoClear fifo).Wf := fifoInit_wf _ _

@[simp] theorem fifoClear_contents (fifo : Fifo α) : (fifoClear fifo).contents = [] := rfl

@[simp] theorem fifoAdd_size (fifo : Fifo α) (value : α) :
    (fifoAdd fifo value).1.size = fifo.size := by
  unfold fifoAdd
  split <;> rfl

@[simp] theorem fifoRemove_size (fifo : Fifo α) : (fifoRemove fifo).1.size = fifo.size := by
  unfold fifoRemove
  split <;> rfl

@[simp] theorem fifoRemoveLast_size (fifo : Fifo α) : (fifoRemoveLast fifo).1.size = fifo.size := by
  unfold fifoRemoveLast
  split <;> rfl

section

variable {fifo : Fifo α} (wf : fifo.Wf)

include wf

theorem fifoAdd_wf (value : α) : (fifoAdd fifo value).1.Wf := by
  unfold fifoAdd
  split
  · exact wf
  · rename_i hfull
    have hne : fifo.count ≠ fifo.size := fun h => hfull (beq_iff_eq.mpr h)
    have hle := wf.count_le
    refine ⟨Nat.lt_of_le_of_ne hle hne, wf.rd_lt, fun h => ?_⟩
    simp only [wf.wr_eq h, Nat.mod_add_mod, Nat.add_assoc]

/-- An element is put behind the others, if there is room. -/
theorem fifoAdd_spec (value : α) :
    (fifoAdd fifo value).2 = decide (fifo.contents.length < fifo.size) ∧
      (fifoAdd fifo value).1.contents =
        if fifo.contents.length < fifo.size then fifo.contents ++ [value] else fifo.contents := by
  have hle := wf.count_le
  unfold fifoAdd
  rw [Fifo.length_contents]
  by_cases hfull : fifo.count = fifo.size
  · have hnot : ¬fifo.count < fifo.size := by omega
    rw [if_pos (show fifoIsFull fifo = true from beq_iff_eq.mpr hfull), if_neg hnot]
    exact ⟨(decide_eq_false hnot).symm, rfl⟩
  · have hlt : fifo.count < fifo.size := by omega
    have hnot : ¬fifoIsFull fifo = true := fun h => hfull (beq_iff_eq.mp h)
    rw [if_neg hnot, if_pos hlt]
    refine ⟨(decide_eq_true hlt).symm, ?_⟩
    unfold Fifo.contents
    rw [← Lib.ring_update fifo.data hlt value, wf.wr_eq (by omega)]

theorem fifoRemove_wf : (fifoRemove fifo).1.Wf := by
  unfold fifoRemove
  split
  · exact wf
  · rename_i hempty
    have hne : fifo.count ≠ 0 := fun h => hempty (beq_iff_eq.mpr h)
    have hle := wf.count_le
    refine ⟨by simp only; omega, fun h => Nat.mod_lt _ h, fun h => ?_⟩
    simp only [wf.wr_eq h, Nat.mod_add_mod]
    congr 1
    omega

/-- The oldest element is taken off. -/
theorem fifoRemove_spec :
    (fifoRemove fifo).2 = fifo.contents.head? ∧
      (fifoRemove fifo).1.contents = fifo.contents.tail := by
  unfold fifoRemove Fifo.contents
  rcases hcount : fifo.count with _ | n
  · rw [if_pos (show fifoIsEmpty fifo = true from beq_iff_eq.mpr hcount), hcount]
    exact ⟨rfl, rfl⟩
  · have hle := wf.count_le
    rw [if_neg (by simp [fifoIsEmpty, hcount]), Lib.ring_cons _ (wf.rd_lt (by omega))]
    simp only [Nat.add_sub_cancel]
    exact ⟨rfl, rfl⟩

/-- The slot before `wr`. -/
theorem wr_pred {n : Nat} (hcount : fifo.count = n + 1) :
    (fifo.wr + fifo.size - 1) % fifo.size = (fifo.rd + n) % fifo.size := by
  have hle := wf.count_le
  rw [wf.wr_eq (by omega), hcount, Nat.add_sub_assoc (by omega), Nat.mod_add_mod,
    show fifo.rd + (n + 1) + (fifo.size - 1) = fifo.rd + n + fifo.size by omega, Nat.add_mod_right]

theorem fifoRemoveLast_wf : (fifoRemoveLast fifo).1.Wf := by
  unfold fifoRemoveLast
  split
  · exact wf
  · rename_i hempty
    have hle := wf.count_le
    obtain ⟨n, hcount⟩ := Nat.exists_eq_succ_of_ne_zero
      (show fifo.count ≠ 0 from fun h => hempty (beq_iff_eq.mpr h))
    refine ⟨by simp only; omega, wf.rd_lt, fun _ => ?_⟩
    simp only [wr_pred wf hcount, hcount, Nat.succ_sub_one]

/-- The newest element is taken off. -/
theorem fifoRemoveLast_spec :
    (fifoRemoveLast fifo).2 = fifo.contents.getLast? ∧
      (fifoRemoveLast fifo).1.contents = fifo.contents.dropLast := by
  unfold fifoRemoveLast Fifo.contents
  rcases hcount : fifo.count with _ | n
  · rw [if_pos (show fifoIsEmpty fifo = true from beq_iff_eq.mpr hcount), hcount]
    exact ⟨rfl, rfl⟩
  · rw [if_neg (by simp [fifoIsEmpty, hcount]), Lib.ring_succ]
    simp only [wr_pred wf hcount, Nat.add_sub_cancel, List.getLast?_concat, List.dropLast_concat]
    exact ⟨trivial, trivial⟩

end

/-! ## Whole runs -/

inductive FifoOp (α : Type) where
  | clear
  | add (value : α)
  | remove
  | removeLast
  | count
  deriving DecidableEq, Repr

inductive FifoAnswer (α : Type) where
  | done
  | added (ok : Bool)
  | removed (value : Option α)
  | counted (n : Nat)
  deriving DecidableEq, Repr

def FifoOp.exec (fifo : Fifo α) : FifoOp α → Fifo α × FifoAnswer α
  | .clear => (fifoClear fifo, .done)
  | .add value => ((fifoAdd fifo value).1, .added (fifoAdd fifo value).2)
  | .remove => ((fifoRemove fifo).1, .removed (fifoRemove fifo).2)
  | .removeLast => ((fifoRemoveLast fifo).1, .removed (fifoRemoveLast fifo).2)
  | .count => (fifo, .counted (fifoCount fifo))

/-- What the operations are for: a list with room for `size` elements. -/
def FifoOp.onList (size : Nat) (xs : List α) : FifoOp α → List α × FifoAnswer α
  | .clear => ([], .done)
  | .add value =>
    (if xs.length < size then xs ++ [value] else xs, .added (decide (xs.length < size)))
  | .remove => (xs.tail, .removed xs.head?)
  | .removeLast => (xs.dropLast, .removed xs.getLast?)
  | .count => (xs, .counted xs.length)

/-- `fifo` holds `xs`. -/
def Fifo.Holds (size : Nat) (fifo : Fifo α) (xs : List α) : Prop :=
  fifo.Wf ∧ fifo.size = size ∧ fifo.contents = xs

theorem fifo_step {size : Nat} (fifo : Fifo α) (xs : List α) (op : FifoOp α)
    (h : fifo.Holds size xs) :
    (op.exec fifo).2 = (op.onList size xs).2 ∧
      (op.exec fifo).1.Holds size (op.onList size xs).1 := by
  obtain ⟨wf, rfl, rfl⟩ := h
  cases op with
  | clear => exact ⟨rfl, fifoClear_wf fifo, rfl, rfl⟩
  | add value =>
    obtain ⟨hok, hcontents⟩ := fifoAdd_spec wf value
    exact ⟨congrArg FifoAnswer.added hok, fifoAdd_wf wf value, fifoAdd_size fifo value, hcontents⟩
  | remove =>
    obtain ⟨hvalue, hcontents⟩ := fifoRemove_spec wf
    exact ⟨congrArg FifoAnswer.removed hvalue, fifoRemove_wf wf, fifoRemove_size fifo, hcontents⟩
  | removeLast =>
    obtain ⟨hvalue, hcontents⟩ := fifoRemoveLast_spec wf
    exact ⟨congrArg FifoAnswer.removed hvalue, fifoRemoveLast_wf wf, fifoRemoveLast_size fifo,
      hcontents⟩
  | count =>
    refine ⟨congrArg FifoAnswer.counted ?_, wf, rfl, rfl⟩
    exact (Fifo.length_contents fifo).symm

/-- Whatever the calls, the fifo answers as a list with room for `size` elements does, and holds
what that list does. -/
theorem fifo_refines_list (data : Nat → α) (size : Nat) (ops : List (FifoOp α)) :
    answers FifoOp.exec (fifoInit data size) ops = answers (FifoOp.onList size) [] ops ∧
      (Lib.run (fun fifo op => (op.exec fifo).1) (fifoInit data size) ops).contents =
        Lib.run (fun xs op => (FifoOp.onList size xs op).1) [] ops := by
  obtain ⟨hanswers, -, -, hcontents⟩ := Lib.answers_eq (R := Fifo.Holds size)
    (fun fifo xs op => fifo_step fifo xs op) ops ⟨fifoInit_wf data size, rfl, rfl⟩
  exact ⟨hanswers, hcontents⟩

end XHeepFemu.Scpi
