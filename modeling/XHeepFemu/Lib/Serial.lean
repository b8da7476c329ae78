import Mathlib.Logic.Function.Basic
import XHeepFemu.Lib.Mmio

/-!
# Serial calls

A device moves its volatile registers by itself and keeps the others for the
driver. Calls that work on what it keeps are serial: whatever the device does
between their accesses, they are answered as an abstract state answers one call
after the other (`calls_serial`), from the first call that establishes this state.

`Io.Ends` says what a program needs of the kept registers to end in `post`.
-/

namespace XHeepFemu.Lib

variable {ρ ν D E Op T α β : Type} [DecidableEq ρ]

/-- `regs` changes by stores alone, outside of the volatile registers. -/
structure KeepsStored (M : Device ρ ν D E) (regs : D → ρ → ν) (volatile : ρ → Prop) : Prop where
  load : ∀ d r, ¬volatile r → (M.read d r).2 = regs d r
  read : ∀ d r r', ¬volatile r' → regs (M.read d r).1 r' = regs d r'
  write : ∀ d r v r', ¬volatile r' → regs (M.write d r v) r' = if r' = r then v else regs d r'
  env : ∀ d e d' r', M.env d e = some d' → ¬volatile r' → regs d' r' = regs d r'

/-- From registers `f` the program ends, and its registers and its result are in `post`. -/
def Io.Ends (volatile : ρ → Prop) (post : (ρ → ν) → α → Prop) : (ρ → ν) → Io ρ ν α → Prop
  | f, .ret a => post f a
  | f, .read r k => ∀ v, (¬volatile r → v = f r) → Ends volatile post f (k v)
  | f, .write r v k => Ends volatile post (Function.update f r v) k
  | _, .poll _ _ _ => False

variable {volatile : ρ → Prop}

theorem Io.Ends.bind {p : Io ρ ν α} {g : α → Io ρ ν β} {post : (ρ → ν) → β → Prop} {f : ρ → ν}
    (h : p.Ends volatile (fun f a => (g a).Ends volatile post f) f) :
    (p.bind g).Ends volatile post f := by
  induction p generalizing f with
  | ret a => exact h
  | read r k ih => exact fun v hv => ih v (h v hv)
  | write r v k ih => exact ih h
  | poll r ready k ih => exact h

theorem Io.Ends.stores {post : (ρ → ν) → α → Prop} {a : α} {ss : List (ρ × ν)} {f : ρ → ν}
    (h : post (ss.foldl (fun f s => Function.update f s.1 s.2) f) a) :
    (Io.stores ss a).Ends volatile post f := by
  induction ss generalizing f with
  | nil => exact h
  | cons s ss ih => exact ih h

/-- `log` is what an abstract state answers, call by call. -/
inductive Serial (spec : T → Op → β → T → Prop) (t : T) : List (Op × β) → T → Prop where
  | nil : Serial spec t [] t
  | snoc {log : List (Op × β)} {t₁ t₂ : T} {op : Op} {b : β} :
      Serial spec t log t₁ → spec t₁ op b t₂ → Serial spec t (log ++ [(op, b)]) t₂

/-- A call with its answer. -/
def Io.logged (op : Op) (p : Io ρ ν β) : Io ρ ν (Op × β) := p.bind fun b => .ret (op, b)

variable {M : Device ρ ν D E} {regs : D → ρ → ν} {spec : T → Op → β → T → Prop}
  {Holds : (ρ → ν) → T → Prop}

theorem Io.Ends.exec (hkeeps : KeepsStored M regs volatile) {post : (ρ → ν) → α → Prop}
    {p : Io ρ ν α} {f : ρ → ν} {d : D} (hregs : ∀ r, ¬volatile r → regs d r = f r)
    (h : p.Ends volatile post f) (hret : ∀ a, p ≠ .ret a) :
    ∃ f', (∀ r, ¬volatile r → regs (M.exec d p).1 r = f' r) ∧
      (M.exec d p).2.Ends volatile post f' := by
  cases p with
  | ret a => exact absurd rfl (hret a)
  | read r k =>
    refine ⟨f, fun r' hr' => (hkeeps.read d r r' hr').trans (hregs r' hr'), ?_⟩
    exact h _ fun hr => (hkeeps.load d r hr).trans (hregs r hr)
  | write r v k =>
    refine ⟨Function.update f r v, fun r' hr' => ?_, h⟩
    show regs (M.write d r v) r' = _
    rw [hkeeps.write d r v r' hr', Function.update_apply, hregs r' hr']
  | poll r ready k => exact h.elim

/-- **Calls are serial**, whatever the device does meanwhile, and between calls its registers hold
the abstract state. The first call establishes it. -/
theorem calls_serial (hkeeps : KeepsStored M regs volatile) (ops : Op → Io ρ ν β)
    (hops : ∀ f t op, Holds f t →
      (ops op).Ends volatile (fun f b => ∃ t', spec t op b t' ∧ Holds f t') f)
    {d : D} {t : T} {first : Op}
    (hfirst : (ops first).Ends volatile (fun f b => ∃ t', spec t first b t' ∧ Holds f t') (regs d))
    {s : Sys ρ ν D (Op × β)}
    (r : Reach (Sys.next M fun op => Io.logged op (ops op)) (fun _ _ => True)
      ⟨d, some (Io.logged first (ops first)), []⟩ s) :
    ∃ t', Serial spec t s.results t' ∧
      (s.prog = none → ∃ f, (∀ r, ¬volatile r → regs s.dev r = f r) ∧ Holds f t') := by
  suffices ∃ t' f, Serial spec t s.results t' ∧ (∀ r, ¬volatile r → regs s.dev r = f r) ∧
      (s.prog = none → Holds f t') ∧ ∀ p, s.prog = some p →
        p.Ends volatile (fun f b => ∃ t'', spec t' b.1 b.2 t'' ∧ Holds f t'') f by
    obtain ⟨t', f, hserial, hregs, hidle, -⟩ := this
    exact ⟨t', hserial, fun hnone => ⟨f, hregs, hidle hnone⟩⟩
  induction r with
  | refl =>
    refine ⟨t, regs d, .nil, fun _ _ => rfl, nofun, ?_⟩
    rintro p ⟨⟩
    exact Io.Ends.bind hfirst
  | tail _ _ h ih =>
    obtain ⟨t', f, hserial, hregs, hidle, hprog⟩ := ih
    rcases Sys.next_cases _ _ h with ⟨e, d', rfl, he, rfl⟩ | ⟨op, rfl, hp, rfl⟩ |
      ⟨b, rfl, hp, rfl⟩ | ⟨p, rfl, hp, hret, rfl⟩
    · exact ⟨t', f, hserial, fun r hr => (hkeeps.env _ _ _ r he hr).trans (hregs r hr), hidle, hprog⟩
    · refine ⟨t', f, hserial, hregs, nofun, ?_⟩
      rintro p ⟨⟩
      exact Io.Ends.bind (hops f t' op (hidle hp))
    · obtain ⟨t'', hspec, hholds⟩ := hprog _ hp
      exact ⟨t'', f, .snoc hserial hspec, hregs, fun _ => hholds, nofun⟩
    · obtain ⟨f', hregs', hends⟩ := (hprog p hp).exec hkeeps hregs hret
      refine ⟨t', f', hserial, hregs', nofun, ?_⟩
      rintro p' ⟨⟩
      exact hends

end XHeepFemu.Lib
