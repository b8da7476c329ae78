import Mathlib.Data.List.Range
import Mathlib.Data.Nat.ModEq
import Mathlib.Logic.Function.Basic

/-!
# Rings

`ring data size rd count` is the queue that a ring of `size` slots holds when its
oldest element is in slot `rd` and there are `count` of them. A new element goes
behind the newest one, and either end can be taken off.
-/

namespace XHeepFemu.Lib

variable {α : Type*}

/-- The `count` elements from slot `rd` on, around the end of the ring. -/
def ring (data : Nat → α) (size rd count : Nat) : List α :=
  (List.range count).map fun i => data ((rd + i) % size)

variable (data : Nat → α) {size rd count : Nat}

@[simp] theorem ring_zero : ring data size rd 0 = [] := rfl

@[simp] theorem length_ring : (ring data size rd count).length = count := by
  simp [ring]

theorem ring_succ :
    ring data size rd (count + 1) = ring data size rd count ++ [data ((rd + count) % size)] := by
  simp [ring, List.range_succ]

theorem ring_cons (hrd : rd < size) :
    ring data size rd (count + 1) = data rd :: ring data size ((rd + 1) % size) count := by
  unfold ring
  rw [List.range_succ_eq_map, List.map_cons, List.map_map, Nat.add_zero, Nat.mod_eq_of_lt hrd]
  congr 1
  refine List.map_congr_left fun i _ => ?_
  simp only [Function.comp_apply, Nat.mod_add_mod]
  congr 2
  omega

theorem slot_inj {i j : Nat} (hi : i < size) (hj : j < size)
    (h : (rd + i) % size = (rd + j) % size) : i = j := by
  have hmod : i % size = j % size := Nat.ModEq.add_left_cancel' rd h
  rwa [Nat.mod_eq_of_lt hi, Nat.mod_eq_of_lt hj] at hmod

/-- The slot behind the newest element is free, unless the ring is full. -/
theorem ring_update (hcount : count < size) (a : α) :
    ring (Function.update data ((rd + count) % size) a) size rd (count + 1) =
      ring data size rd count ++ [a] := by
  rw [ring_succ, Function.update_self]
  congr 1
  refine List.map_congr_left fun i hi => ?_
  have hi := List.mem_range.mp hi
  refine Function.update_of_ne (fun h => ?_) _ _
  have := slot_inj (Nat.lt_trans hi hcount) hcount h
  omega

end XHeepFemu.Lib
