import XHeepFemu.Lib.Mmio

/-!
# Driver programs on registers that move by themselves

`reg r t` is what a load of register `r` gives at instant `t`. `Io.Runs` is a run
of a program from one instant to another: time passes between its accesses as it
likes, and the loads and their instants are noted. Of a poll only the load that
ends it is noted. A program that may give up, such as a loop that runs out of
fuel, is one in `OptionT`.
-/

namespace XHeepFemu.Lib

variable {ρ ν α β : Type}

inductive Io.Runs (reg : ρ → Nat → ν) : Io ρ ν α → Nat → List (ρ × Nat) → Nat → α → Prop where
  | ret {a : α} {t u : Nat} (h : t ≤ u) : Runs reg (.ret a) t [] u a
  | read {r : ρ} {k : ν → Io ρ ν α} {t s u : Nat} {tr : List (ρ × Nat)} {a : α} (h : t < s)
      (next : Runs reg (k (reg r s)) s tr u a) : Runs reg (.read r k) t ((r, s) :: tr) u a
  | write {r : ρ} {v : ν} {k : Io ρ ν α} {t s u : Nat} {tr : List (ρ × Nat)} {a : α} (h : t < s)
      (next : Runs reg k s tr u a) : Runs reg (.write r v k) t tr u a
  | poll {r : ρ} {ready : ν → Bool} {k : Io ρ ν α} {t s u : Nat} {tr : List (ρ × Nat)} {a : α}
      (h : t < s) (hready : ready (reg r s) = true) (next : Runs reg k s tr u a) :
      Runs reg (.poll r ready k) t ((r, s) :: tr) u a

variable {reg : ρ → Nat → ν}

namespace Io.Runs

theorem le {p : Io ρ ν α} {t u : Nat} {tr : List (ρ × Nat)} {a : α} (h : p.Runs reg t tr u a) :
    t ≤ u := by
  induction h with
  | ret h => exact h
  | read h _ ih => omega
  | write h _ ih => omega
  | poll h _ _ ih => omega

/-- A run of two programs is a run of the first and then one of the second. -/
theorem of_bind {p : Io ρ ν α} {f : α → Io ρ ν β} {t u : Nat} {tr : List (ρ × Nat)} {b : β}
    (h : (p.bind f).Runs reg t tr u b) :
    ∃ s a tr₁ tr₂, tr = tr₁ ++ tr₂ ∧ p.Runs reg t tr₁ s a ∧ (f a).Runs reg s tr₂ u b := by
  induction p generalizing t tr with
  | ret a => exact ⟨t, a, [], tr, rfl, .ret (Nat.le_refl t), h⟩
  | read r k ih =>
    cases h with
    | read h next =>
      obtain ⟨s, a, tr₁, tr₂, rfl, h₁, h₂⟩ := ih _ next
      exact ⟨s, a, _, tr₂, rfl, .read h h₁, h₂⟩
  | write r v k ih =>
    cases h with
    | write h next =>
      obtain ⟨s, a, tr₁, tr₂, rfl, h₁, h₂⟩ := ih next
      exact ⟨s, a, _, tr₂, rfl, .write h h₁, h₂⟩
  | poll r ready k ih =>
    cases h with
    | poll h hready next =>
      obtain ⟨s, a, tr₁, tr₂, rfl, h₁, h₂⟩ := ih next
      exact ⟨s, a, _, tr₂, rfl, .poll h hready h₁, h₂⟩

theorem of_load {r : ρ} {t u : Nat} {tr : List (ρ × Nat)} {v : ν}
    (h : (Io.load r).Runs reg t tr u v) :
    ∃ s, t < s ∧ s ≤ u ∧ tr = [(r, s)] ∧ v = reg r s := by
  cases h with
  | read h next =>
    cases next with
    | ret h' => exact ⟨_, h, h', rfl, rfl⟩

/-- The same for programs that carry a state. -/
theorem of_bind_run {σ : Type} {p : StateT σ (Io ρ ν) α} {f : α → StateT σ (Io ρ ν) β} {x : σ}
    {t u : Nat} {tr : List (ρ × Nat)} {b : β × σ} (h : ((p >>= f).run x).Runs reg t tr u b) :
    ∃ s a y tr₁ tr₂, tr = tr₁ ++ tr₂ ∧ (p.run x).Runs reg t tr₁ s (a, y) ∧
      ((f a).run y).Runs reg s tr₂ u b := by
  obtain ⟨s, ⟨a, y⟩, tr₁, tr₂, rfl, h₁, h₂⟩ := of_bind h
  exact ⟨s, a, y, tr₁, tr₂, rfl, h₁, h₂⟩

end Io.Runs

/-! ## Programs that may give up -/

/-- Load a register. -/
def fetch (r : ρ) : OptionT (Io ρ ν) ν := OptionT.lift (Io.load r)

/-- A run that does not give up. -/
def Finishes (reg : ρ → Nat → ν) (p : OptionT (Io ρ ν) α) (t : Nat) (tr : List (ρ × Nat))
    (u : Nat) (a : α) : Prop :=
  p.run.Runs reg t tr u (some a)

namespace Finishes

theorem le {p : OptionT (Io ρ ν) α} {t u : Nat} {tr : List (ρ × Nat)} {a : α}
    (h : Finishes reg p t tr u a) : t ≤ u :=
  Io.Runs.le h

theorem of_bind {p : OptionT (Io ρ ν) α} {f : α → OptionT (Io ρ ν) β} {t u : Nat}
    {tr : List (ρ × Nat)} {b : β} (h : Finishes reg (p >>= f) t tr u b) :
    ∃ s a tr₁ tr₂, tr = tr₁ ++ tr₂ ∧ Finishes reg p t tr₁ s a ∧
      Finishes reg (f a) s tr₂ u b := by
  obtain ⟨s, a, tr₁, tr₂, rfl, h₁, h₂⟩ := Io.Runs.of_bind h
  cases a with
  | none => cases h₂
  | some a => exact ⟨s, a, tr₁, tr₂, rfl, h₁, h₂⟩

theorem of_pure {a b : α} {t u : Nat} {tr : List (ρ × Nat)}
    (h : Finishes reg (pure a) t tr u b) : b = a ∧ tr = [] := by
  cases h
  exact ⟨rfl, rfl⟩

theorem of_fetch {r : ρ} {t u : Nat} {tr : List (ρ × Nat)} {v : ν}
    (h : Finishes reg (fetch r) t tr u v) :
    ∃ s, t < s ∧ s ≤ u ∧ tr = [(r, s)] ∧ v = reg r s := by
  obtain ⟨s, a, tr₁, tr₂, rfl, h₁, h₂⟩ := Io.Runs.of_bind h
  cases h₂ with
  | ret h' =>
    obtain ⟨s', hlt, hle, rfl, rfl⟩ := Io.Runs.of_load h₁
    exact ⟨s', hlt, by omega, rfl, rfl⟩

end Finishes

end XHeepFemu.Lib
