import Mathlib.Data.List.Basic

/-!
# Framing

A `Framer` takes one frame after the other off the front of a text and says
which frames end a message. `starts` are the texts that the frames of a text
start in, `finished` the messages in it, and `unfinished` what is behind the last
of them. Nothing is lost, `finished_unfinished`; and what is left at the end is
decided by the last frame, `unfinished_eq_nil_iff`.
-/

namespace XHeepFemu.Lib

/-- One frame is the front of a text, and never empty. -/
structure Framer (α : Type*) where
  /-- What is behind the first frame. -/
  rest : List α → List α
  /-- The first frame ends a message. -/
  ends : List α → Bool
  rest_suffix : ∀ s, rest s <:+ s
  rest_lt : ∀ s, s ≠ [] → (rest s).length < s.length

namespace Framer

variable {α : Type*} (F : Framer α)

/-- The first frame. -/
def front (s : List α) : List α := s.take (s.length - (F.rest s).length)

theorem front_append_rest (s : List α) : F.front s ++ F.rest s = s := by
  have hsuffix := F.rest_suffix s
  unfold front
  generalize F.rest s = rest at hsuffix ⊢
  obtain ⟨pre, rfl⟩ := hsuffix
  rw [List.length_append, Nat.add_sub_cancel, List.take_left]

variable {F} in
theorem front_eq {s t r : List α} (hs : s = t ++ r) (h : F.rest s = r) : F.front s = t := by
  rw [front, h, hs, List.length_append, Nat.add_sub_cancel, List.take_left]

/-- One frame further in a text of which `n` symbols were taken. -/
theorem take_add_front {t s : List α} {n : Nat} (hs : t.drop n = s) :
    t.take (n + (s.length - (F.rest s).length)) = t.take n ++ F.front s := by
  rw [List.take_add, hs]
  rfl

theorem drop_add_front {t s : List α} {n : Nat} (hs : t.drop n = s) :
    t.drop (n + (s.length - (F.rest s).length)) = F.rest s := by
  rw [← List.drop_drop, hs]
  exact (List.suffix_iff_eq_drop.mp (F.rest_suffix s)).symm

/-- A property of all texts, frame by frame. -/
theorem induct {P : List α → Prop} (nil : P []) (frame : ∀ s, s ≠ [] → P (F.rest s) → P s)
    (s : List α) : P s := by
  rcases eq_or_ne s [] with rfl | hs
  · exact nil
  · exact frame s hs (induct nil frame _)
termination_by s.length
decreasing_by exact F.rest_lt s hs

def starts (s : List α) : List (List α) := if s = [] then [] else s :: starts (F.rest s)
termination_by s.length
decreasing_by exact F.rest_lt s ‹_›

@[simp] theorem starts_nil : F.starts [] = [] := by
  rw [starts, if_pos rfl]

variable {F} in
theorem starts_cons {s : List α} (hs : s ≠ []) : F.starts s = s :: F.starts (F.rest s) := by
  rw [starts, if_neg hs]

/-- The messages of a text, behind the beginning `acc` of a message. -/
def finished (acc : List α) : List (List α) → List (List α)
  | [] => []
  | s :: ss => if F.ends s then (acc ++ F.front s) :: finished [] ss else finished (acc ++ F.front s) ss

/-- The beginning of a message that a text leaves. -/
def unfinished (acc : List α) : List (List α) → List α
  | [] => acc
  | s :: ss => if F.ends s then unfinished [] ss else unfinished (acc ++ F.front s) ss

theorem finished_cons (acc s : List α) (ss : List (List α)) :
    F.finished acc (s :: ss) =
      if F.ends s then (acc ++ F.front s) :: F.finished [] ss else F.finished (acc ++ F.front s) ss :=
  rfl

theorem unfinished_cons (acc s : List α) (ss : List (List α)) :
    F.unfinished acc (s :: ss) =
      if F.ends s then F.unfinished [] ss else F.unfinished (acc ++ F.front s) ss := rfl

theorem finished_unfinished (acc s : List α) :
    (F.finished acc (F.starts s)).flatten ++ F.unfinished acc (F.starts s) = acc ++ s := by
  induction s using F.induct generalizing acc with
  | nil => simp [finished, unfinished]
  | frame s hs ih =>
    rw [starts_cons hs]
    unfold finished unfinished
    split
    · have h := ih []
      rw [List.nil_append] at h
      rw [List.flatten_cons, List.append_assoc, h, List.append_assoc, front_append_rest]
    · rw [ih, List.append_assoc, front_append_rest]

/-- Let `Opens` be the frames that take everything and end no message, and `Whole` a property
of nonempty texts that any other frame leaves to the rest, or takes to end a message with. Then
a whole text is a list of messages exactly when no frame of it opens. -/
theorem unfinished_eq_nil_iff {F : Framer α} {Opens Whole : List α → Prop}
    (opens : ∀ s, Opens s → F.rest s = [] ∧ F.ends s = false)
    (closed : ∀ s, ¬Opens s → Whole s → Whole (F.rest s) ∨ F.rest s = [] ∧ F.ends s = true)
    (whole : ¬Whole []) {s : List α} (hs : Whole s) (acc : List α) :
    F.unfinished acc (F.starts s) = [] ↔ ∀ t ∈ F.starts s, ¬Opens t := by
  induction s using F.induct generalizing acc with
  | nil => exact absurd hs whole
  | frame s hne ih =>
    rw [starts_cons hne, List.forall_mem_cons]
    unfold unfinished
    by_cases ho : Opens s
    · obtain ⟨hrest, hends⟩ := opens s ho
      have hfront := F.front_append_rest s
      rw [hrest, List.append_nil] at hfront
      rw [hends, hrest, starts_nil, hfront]
      refine ⟨fun h => ?_, fun h => absurd ho h.1⟩
      simp only [Bool.false_eq_true, if_false, unfinished, List.append_eq_nil_iff] at h
      exact absurd h.2 hne
    · obtain hw | ⟨hrest, hends⟩ := closed s ho hs
      · split
        · exact (ih hw []).trans ⟨fun h => ⟨ho, h⟩, fun h => h.2⟩
        · exact (ih hw _).trans ⟨fun h => ⟨ho, h⟩, fun h => h.2⟩
      · rw [hends, hrest, starts_nil]
        exact ⟨fun _ => ⟨ho, nofun⟩, fun _ => rfl⟩

end Framer

end XHeepFemu.Lib
