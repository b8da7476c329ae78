import Mathlib.Logic.Basic

/-!
# Runs

For a deterministic system `run step s as` feeds the inputs `as` one after the
other; `AllSteps step P s as` says that `P` holds of every state and input met
on the way. `allSteps_iff` compares two such properties along the same run,
through an invariant that only has to be kept while the second one holds.

A system that answers its inputs is implemented by another one if a relation
between their states is kept by every input, and the answers are the same
(`answers_eq`).

For a system whose labels may be refused, `Reach next ok s t` is a run from
`s` to `t` all of whose steps satisfy `ok`.
-/

namespace XHeepFemu.Lib

variable {σ α : Type*} (step : σ → α → σ)

def run (s : σ) (as : List α) : σ := as.foldl step s

@[simp] theorem run_nil (s : σ) : run step s [] = s := rfl
@[simp] theorem run_cons (s : σ) (a : α) (as : List α) :
    run step s (a :: as) = run step (step s a) as := rfl

theorem run_append (s : σ) (as bs : List α) :
    run step s (as ++ bs) = run step (run step s as) bs :=
  List.foldl_append

/-- `P` holds of every state and input along the run from `s`. -/
def AllSteps (P : σ → α → Prop) : σ → List α → Prop
  | _, [] => True
  | s, a :: as => P s a ∧ AllSteps P (step s a) as

variable {step}

/-- Two step properties that agree under an invariant agree along whole runs. -/
theorem allSteps_iff {P Q : σ → α → Prop} {Inv : σ → Prop}
    (agree : ∀ s a, Inv s → (P s a ↔ Q s a)) (keep : ∀ s a, Inv s → Q s a → Inv (step s a))
    {s : σ} (as : List α) (h : Inv s) : AllSteps step P s as ↔ AllSteps step Q s as := by
  induction as generalizing s with
  | nil => exact Iff.rfl
  | cons a as ih =>
    unfold AllSteps
    rw [agree s a h]
    exact and_congr_right fun hq => ih (keep s a h hq)

theorem allSteps_forall {Q : α → Prop} (s : σ) (as : List α) :
    AllSteps step (fun _ => Q) s as ↔ ∀ a ∈ as, Q a := by
  induction as generalizing s with
  | nil => exact ⟨fun _ => nofun, fun _ => trivial⟩
  | cons a as ih =>
    unfold AllSteps
    rw [ih, List.forall_mem_cons]

/-! ## Systems that answer -/

section Answers

variable {τ ω : Type*}

/-- What the inputs `as` are answered. -/
def answers (step : σ → α → σ × ω) : σ → List α → List ω
  | _, [] => []
  | s, a :: as => (step s a).2 :: answers step (step s a).1 as

/-- Related states answer alike, and stay related. -/
theorem answers_eq {step : σ → α → σ × ω} {step' : τ → α → τ × ω} {R : σ → τ → Prop}
    (keep : ∀ s t a, R s t → (step s a).2 = (step' t a).2 ∧ R (step s a).1 (step' t a).1)
    {s : σ} {t : τ} (as : List α) (h : R s t) :
    answers step s as = answers step' t as ∧
      R (run (fun s a => (step s a).1) s as) (run (fun t a => (step' t a).1) t as) := by
  induction as generalizing s t with
  | nil => exact ⟨rfl, h⟩
  | cons a as ih =>
    obtain ⟨hanswer, hnext⟩ := keep s t a h
    obtain ⟨hrest, hend⟩ := ih hnext
    refine ⟨?_, hend⟩
    unfold answers
    rw [hanswer, hrest]

end Answers

/-! ## Labelled systems -/

variable {β : Type*} {next : σ → β → Option σ} {ok : σ → β → Prop}

variable (next ok) in
/-- `t` is reached from `s` by steps that satisfy `ok`. -/
inductive Reach : σ → σ → Prop where
  | refl (s : σ) : Reach s s
  | tail {s t u : σ} {l : β} : Reach s t → ok t l → next t l = some u → Reach s u

/-- An invariant kept by every permitted step holds wherever such steps lead. -/
theorem Reach.induct {Inv : σ → Prop}
    (keep : ∀ t l u, Inv t → ok t l → next t l = some u → Inv u) {s t : σ}
    (r : Reach next ok s t) (h : Inv s) : Inv t := by
  induction r with
  | refl => exact h
  | tail _ hok hstep ih => exact keep _ _ _ ih hok hstep

theorem Reach.mono {ok' : σ → β → Prop} (himp : ∀ s l, ok s l → ok' s l) {s t : σ}
    (r : Reach next ok s t) : Reach next ok' s t := by
  induction r with
  | refl => exact .refl _
  | tail _ hok hstep ih => exact .tail ih (himp _ _ hok) hstep

theorem Reach.trans {s t u : σ} (r : Reach next ok s t) (r' : Reach next ok t u) :
    Reach next ok s u := by
  induction r' with
  | refl => exact r
  | tail _ hok hstep ih => exact .tail ih hok hstep

theorem Reach.head {s t u : σ} {l : β} (hok : ok s l) (hstep : next s l = some t)
    (r : Reach next ok t u) : Reach next ok s u :=
  Reach.trans (.tail (.refl s) hok hstep) r

/-- The labels `ls` one after the other, if none is refused. -/
def follow (next : σ → β → Option σ) (s : σ) : List β → Option σ
  | [] => some s
  | l :: ls => (next s l).bind fun t => follow next t ls

/-- A list of labels is a run, if each step of it is permitted. -/
theorem reach_of_follow {s t : σ} {ls : List β} (h : follow next s ls = some t)
    (hok : ∀ l ∈ ls, ∀ s, ok s l) : Reach next ok s t := by
  suffices ∀ s₀, Reach next ok s₀ s → Reach next ok s₀ t from this s (.refl s)
  induction ls generalizing s with
  | nil =>
    cases h
    exact fun _ r => r
  | cons l ls ih =>
    unfold follow at h
    rcases Option.bind_eq_some_iff.mp h with ⟨u, hu, h⟩
    obtain ⟨hl, hls⟩ := List.forall_mem_cons.mp hok
    exact fun s₀ r => ih h hls s₀ (.tail r (hl s) hu)

/-- A list of labels is a run, if a check of the state accepts each step of it. -/
theorem reach_of_checked {check : σ → β → Bool} (hcheck : ∀ s l, check s l = true → ok s l)
    {s t : σ} {ls : List β}
    (h : follow (fun s l => if check s l then next s l else none) s ls = some t) :
    Reach next ok s t := by
  induction ls generalizing s with
  | nil =>
    cases h
    exact .refl _
  | cons l ls ih =>
    rcases Option.bind_eq_some_iff.mp h with ⟨u, hu, h⟩
    simp only at hu
    split at hu
    · exact .head (hcheck s l ‹_›) hu (ih h)
    · cases hu

end XHeepFemu.Lib
