import XHeepFemu.Lib.Run

/-!
# Driver programs over memory-mapped registers

`Io ρ ν α` is a driver program: loads and stores of registers `ρ` with values
`ν`, and loops that poll one register, ending with a result. A `Device` answers
the accesses and moves on its own. `Sys` puts the two side by side: calls,
single accesses and moves of the device interleave freely, and the results of
finished calls are logged.

`Io.Only` bounds what a program accesses and returns; it is kept by every step.
-/

namespace XHeepFemu.Lib

inductive Io (ρ ν α : Type) where
  | ret (a : α)
  | read (r : ρ) (k : ν → Io ρ ν α)
  | write (r : ρ) (v : ν) (k : Io ρ ν α)
  /-- `while (!ready(read r)) {}` -/
  | poll (r : ρ) (ready : ν → Bool) (k : Io ρ ν α)

namespace Io

variable {ρ ν α β : Type}

def bind (p : Io ρ ν α) (f : α → Io ρ ν β) : Io ρ ν β :=
  match p with
  | ret a => f a
  | read r k => read r fun v => (k v).bind f
  | write r v k => write r v (k.bind f)
  | poll r ready k => poll r ready (k.bind f)

instance : Monad (Io ρ ν) where
  pure := ret
  bind := bind

/-- Load a register. -/
def load (r : ρ) : Io ρ ν ν := read r ret

/-- Store to a register. -/
def store (r : ρ) (v : ν) : Io ρ ν Unit := write r v (ret ())

/-- Wait for a register to be ready. -/
def wait (r : ρ) (ready : ν → Bool) : Io ρ ν Unit := poll r ready (ret ())

/-- Stores one after the other. -/
def stores (ss : List (ρ × ν)) (a : α) : Io ρ ν α :=
  match ss with
  | [] => ret a
  | s :: ss => write s.1 s.2 (stores ss a)

/-! ## What a program may access -/

/-- Every load is from a register in `rd`, every store is in `wr`, every result in `post`. -/
def Only (rd : ρ → Prop) (wr : ρ → ν → Prop) (post : α → Prop) : Io ρ ν α → Prop
  | ret a => post a
  | read r k => rd r ∧ ∀ v, Only rd wr post (k v)
  | write r v k => wr r v ∧ Only rd wr post k
  | poll r _ k => rd r ∧ Only rd wr post k

variable {rd : ρ → Prop} {wr : ρ → ν → Prop} {post : α → Prop}

theorem Only.bind {p : Io ρ ν α} {f : α → Io ρ ν β} {post' : β → Prop}
    (hp : p.Only rd wr post) (hf : ∀ a, post a → (f a).Only rd wr post') :
    (p.bind f).Only rd wr post' := by
  induction p with
  | ret a => exact hf a hp
  | read r k ih => exact ⟨hp.1, fun v => ih v (hp.2 v)⟩
  | write r v k ih => exact ⟨hp.1, ih hp.2⟩
  | poll r ready k ih => exact ⟨hp.1, ih hp.2⟩

end Io

/-! ## Devices -/

/-- Registers answered by `D`, which also moves by events `E` of its own. -/
structure Device (ρ ν D E : Type) where
  read : D → ρ → D × ν
  write : D → ρ → ν → D
  env : D → E → Option D

variable {ρ ν D E Op α β : Type} (M : Device ρ ν D E)

/-- One access of a program that has not finished. -/
def Device.exec (d : D) : Io ρ ν α → D × Io ρ ν α
  | .ret a => (d, .ret a)
  | .read r k => ((M.read d r).1, k (M.read d r).2)
  | .write r v k => (M.write d r v, k)
  | .poll r ready k =>
    ((M.read d r).1, if ready (M.read d r).2 then k else .poll r ready k)

variable {M} in
theorem Device.exec_poll_ready {d : D} {r : ρ} {ready : ν → Bool} {k : Io ρ ν α}
    (h : ready (M.read d r).2 = true) : M.exec d (.poll r ready k) = ((M.read d r).1, k) := by
  simp only [exec, h, if_true]

variable {M} in
theorem Device.exec_poll_wait {d : D} {r : ρ} {ready : ν → Bool} {k : Io ρ ν α}
    (h : ready (M.read d r).2 = false) :
    M.exec d (.poll r ready k) = ((M.read d r).1, .poll r ready k) := by
  simp only [exec, h, Bool.false_eq_true, if_false]

theorem Io.Only.exec {rd : ρ → Prop} {wr : ρ → ν → Prop} {post : α → Prop} {p : Io ρ ν α}
    (h : p.Only rd wr post) (d : D) : (M.exec d p).2.Only rd wr post := by
  cases p with
  | ret a => exact h
  | read r k => exact h.2 _
  | write r v k => exact h.2
  | poll r ready k =>
    simp only [Device.exec]
    split
    · exact h.2
    · exact h

/-- The whole program on a device that does not move meanwhile; `none` if a poll never ends. -/
def Device.finish (d : D) : Io ρ ν α → Option (D × α)
  | .ret a => some (d, a)
  | .read r k => Device.finish (M.read d r).1 (k (M.read d r).2)
  | .write r v k => Device.finish (M.write d r v) k
  | .poll r ready k =>
    if ready (M.read d r).2 then Device.finish (M.read d r).1 k else none

theorem Device.finish_bind (d : D) (p : Io ρ ν α) (f : α → Io ρ ν β) :
    M.finish d (p.bind f) = (M.finish d p).bind fun r => M.finish r.1 (f r.2) := by
  induction p generalizing d with
  | ret a => rfl
  | read r k ih => exact ih _ _
  | write r v k ih => exact ih _
  | poll r ready k ih =>
    simp only [Io.bind, finish]
    split
    · exact ih _
    · rfl

theorem Device.finish_seq (d : D) (p : Io ρ ν α) (f : α → Io ρ ν β) (d' : D) (a : α)
    (hp : M.finish d p = some (d', a)) : M.finish d (p >>= f) = M.finish d' (f a) := by
  refine (Device.finish_bind M d p f).trans ?_
  rw [hp]
  rfl

/-- Keeps the stores made to it, in order; a load gives `answer`. -/
def recorder (answer : ρ → ν) : Device ρ ν (List (ρ × ν)) Empty where
  read log r := (log, answer r)
  write log r v := log ++ [(r, v)]
  env _ e := e.elim

/-- `P` holds of the device after every access of the program. -/
def Device.Always (P : D → Prop) (d : D) : Io ρ ν α → Prop
  | .ret _ => True
  | .read r k => P (M.read d r).1 ∧ Device.Always P (M.read d r).1 (k (M.read d r).2)
  | .write r v k => P (M.write d r v) ∧ Device.Always P (M.write d r v) k
  | .poll r _ k => (M.read d r).1 = d ∧ P d ∧ Device.Always P d k

variable {M} in
theorem Device.Always.exec {P : D → Prop} {d : D} {p : Io ρ ν α} (h : M.Always P d p)
    (hret : ∀ a, p ≠ .ret a) : P (M.exec d p).1 ∧ M.Always P (M.exec d p).1 (M.exec d p).2 := by
  cases p with
  | ret a => exact absurd rfl (hret a)
  | read r k => exact h
  | write r v k => exact h
  | poll r ready k =>
    obtain ⟨hd, hp, hk⟩ := h
    simp only [Device.exec, hd]
    refine ⟨hp, ?_⟩
    split
    · exact hk
    · exact ⟨hd, hp, hk⟩

/-- A device, the call in progress, and the results of the calls before it. -/
structure Sys (ρ ν D α : Type) where
  dev : D
  prog : Option (Io ρ ν α)
  results : List α

inductive Label (E Op : Type) where
  /-- The device moves. -/
  | env (e : E)
  /-- The program makes one access, or returns. -/
  | cpu
  /-- The next call. -/
  | call (op : Op)
  deriving DecidableEq, Repr

variable (ops : Op → Io ρ ν α)

def Sys.next (s : Sys ρ ν D α) : Label E Op → Option (Sys ρ ν D α)
  | .env e => (M.env s.dev e).map fun d => { s with dev := d }
  | .call op =>
    match s.prog with
    | none => some { s with prog := some (ops op) }
    | some _ => none
  | .cpu =>
    match s.prog with
    | none => none
    | some (.ret a) => some { s with prog := none, results := s.results ++ [a] }
    | some p => some { s with dev := (M.exec s.dev p).1, prog := some (M.exec s.dev p).2 }

theorem Sys.next_cases {s t : Sys ρ ν D α} {l : Label E Op} (h : s.next M ops l = some t) :
    (∃ e d, l = .env e ∧ M.env s.dev e = some d ∧ t = { s with dev := d }) ∨
    (∃ op, l = .call op ∧ s.prog = none ∧ t = { s with prog := some (ops op) }) ∨
    (∃ a, l = .cpu ∧ s.prog = some (.ret a) ∧
      t = { s with prog := none, results := s.results ++ [a] }) ∨
    (∃ p, l = .cpu ∧ s.prog = some p ∧ (∀ a, p ≠ .ret a) ∧
      t = { s with dev := (M.exec s.dev p).1, prog := some (M.exec s.dev p).2 }) := by
  obtain ⟨dev, prog, results⟩ := s
  rcases l with e | _ | op
  · rcases Option.map_eq_some_iff.mp h with ⟨d, hd, rfl⟩
    exact .inl ⟨e, d, rfl, hd, rfl⟩
  · rcases prog with _ | p
    · cases h
    · cases p with
      | ret a => exact .inr (.inr (.inl ⟨a, rfl, rfl, (Option.some.inj h).symm⟩))
      | read r k =>
        exact .inr (.inr (.inr ⟨_, rfl, rfl, nofun, (Option.some.inj h).symm⟩))
      | write r v k =>
        exact .inr (.inr (.inr ⟨_, rfl, rfl, nofun, (Option.some.inj h).symm⟩))
      | poll r ready k =>
        exact .inr (.inr (.inr ⟨_, rfl, rfl, nofun, (Option.some.inj h).symm⟩))
  · rcases prog with _ | p
    · exact .inr (.inl ⟨op, rfl, rfl, (Option.some.inj h).symm⟩)
    · cases h

/-- A part of a program that finishes without the device moving is a run. -/
theorem Sys.reach_finish {ok : Sys ρ ν D α → Label E Op → Prop} (hok : ∀ s, ok s .cpu) {d d' : D}
    {p : Io ρ ν β} {b : β} (h : M.finish d p = some (d', b)) (f : β → Io ρ ν α)
    (results : List α) :
    Reach (Sys.next M ops) ok ⟨d, some (p.bind f), results⟩ ⟨d', some (f b), results⟩ := by
  induction p generalizing d with
  | ret a =>
    cases h
    exact .refl _
  | read r k ih => exact Reach.head (hok _) rfl (ih _ h)
  | write r v k ih => exact Reach.head (hok _) rfl (ih h)
  | poll r ready k ih =>
    unfold Device.finish at h
    split at h
    · rename_i hready
      refine Reach.head (hok _) ?_ (ih h)
      have hexec : M.exec d (.poll r ready (k.bind f)) = _ := Device.exec_poll_ready hready
      show some (Sys.mk (M.exec d (.poll r ready (k.bind f))).1
        (some (M.exec d (.poll r ready (k.bind f))).2) results) = _
      rw [hexec]
    · cases h

/-- On a device that does not move by itself, what holds before a call and after each of its
accesses holds in every state. -/
theorem Sys.always {P : D → Prop} (still : ∀ d e, M.env d e = none)
    (calls : ∀ d op, P d → M.Always P d (ops op)) {d : D} {s : Sys ρ ν D α} (hd : P d)
    (r : Reach (Sys.next M ops) (fun _ _ => True) ⟨d, none, []⟩ s) : P s.dev := by
  suffices P s.dev ∧ ∀ p, s.prog = some p → M.Always P s.dev p from this.1
  induction r with
  | refl => exact ⟨hd, nofun⟩
  | tail _ _ h ih =>
    obtain ⟨hdev, hprog⟩ := ih
    rcases Sys.next_cases _ _ h with ⟨e, d, rfl, he, rfl⟩ | ⟨op, rfl, hp, rfl⟩ |
      ⟨a, rfl, hp, rfl⟩ | ⟨p, rfl, hp, hret, rfl⟩
    · rw [still] at he
      cases he
    · refine ⟨hdev, ?_⟩
      rintro p ⟨⟩
      exact calls _ op hdev
    · exact ⟨hdev, nofun⟩
    · obtain ⟨hdev', hprog'⟩ := (hprog p hp).exec hret
      refine ⟨hdev', ?_⟩
      rintro p' ⟨⟩
      exact hprog'

/-- While stores are carried out on a device that moves too, some of them are done: what moves and
stores keep holds of those, and of all of them at the end. -/
theorem Sys.stores_reach {P : D → List (ρ × ν) → Prop} {d : D} {ss : List (ρ × ν)} {a : α}
    (env : ∀ d e d' done, M.env d e = some d' → P d done → P d' done)
    (write : ∀ d done r v, P d done → P (M.write d r v) (done ++ [(r, v)]))
    (init : P d []) {s : Sys ρ ν D α}
    (r : Reach (Sys.next M ops) (fun _ l => ∀ op, l ≠ .call op) ⟨d, some (Io.stores ss a), []⟩ s) :
    ∃ done todo, done ++ todo = ss ∧ P s.dev done ∧
      (s.prog = some (Io.stores todo a) ∧ s.results = [] ∨
        s.prog = none ∧ todo = [] ∧ s.results = [a]) := by
  induction r with
  | refl => exact ⟨[], ss, rfl, init, .inl ⟨rfl, rfl⟩⟩
  | tail _ hok h ih =>
    obtain ⟨done, todo, hss, hdone, hprog⟩ := ih
    rcases Sys.next_cases _ _ h with ⟨e, d', rfl, he, rfl⟩ | ⟨op, rfl, _⟩ | ⟨b, rfl, hp, rfl⟩ |
      ⟨p, rfl, hp, hret, rfl⟩
    · exact ⟨done, todo, hss, env _ _ _ _ he hdone, hprog⟩
    · exact absurd rfl (hok op)
    · rcases hprog with ⟨hp', hres⟩ | ⟨hp', _⟩
      · rw [hp'] at hp
        cases todo with
        | nil =>
          cases hp
          exact ⟨done, [], hss, hdone, .inr ⟨rfl, rfl, by rw [hres]; rfl⟩⟩
        | cons s ss => cases hp
      · rw [hp'] at hp
        cases hp
    · rcases hprog with ⟨hp', hres⟩ | ⟨hp', _⟩
      · rw [hp'] at hp
        cases todo with
        | nil =>
          cases hp
          exact absurd rfl (hret a)
        | cons s ss =>
          cases hp
          refine ⟨done ++ [s], ss, ?_, write _ _ _ _ hdone, .inl ⟨rfl, hres⟩⟩
          rw [List.append_assoc]
          exact hss
      · rw [hp'] at hp
        cases hp

/-- Stores end once they have been made. -/
theorem Sys.stores_end {s : Sys ρ ν D α} {ss : List (ρ × ν)} {a : α}
    (h : s.prog = some (Io.stores ss a)) :
    ∃ t, follow (Sys.next M ops) s (List.replicate (ss.length + 1) .cpu) = some t ∧
      t.prog = none := by
  obtain ⟨dev, prog, results⟩ := s
  obtain rfl : prog = _ := h
  induction ss generalizing dev with
  | nil => exact ⟨_, rfl, rfl⟩
  | cons s ss ih => exact ih _

end XHeepFemu.Lib
