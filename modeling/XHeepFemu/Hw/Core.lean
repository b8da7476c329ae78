import XHeepFemu.Hw.Machine
import XHeepFemu.Lib.Run

/-!
# Saving and restoring the core

The instructions a register spill is made of, on the integer registers, the CSRs
and memory. `spill` and `reload` store and load registers at offsets from a base
register, `spillCsrs` and `reloadCsrs` do the same to CSRs through a scratch
register. A reload may load its own base register, as long as the slot holds
the value the base has.
-/

namespace XHeepFemu.Hw

inductive Csr where
  | mstatus | mie | mtvec | mscratch | mepc | mcause | mtval
  | mcycle | mcycleh | minstret | minstreth
  deriving DecidableEq, Repr

structure Core where
  regs : Reg → Word
  csrs : Csr → Word
  mem : Mem

inductive Instr where
  /-- `lui`, `la` or `li`. -/
  | li (r : Reg) (v : Word)
  | sw (r : Reg) (off : Nat) (base : Reg)
  /-- `sw x0, off(base)`. -/
  | swZero (off : Nat) (base : Reg)
  | lw (r : Reg) (off : Nat) (base : Reg)
  | csrr (r : Reg) (csr : Csr)
  | csrw (csr : Csr) (r : Reg)
  deriving DecidableEq, Repr

namespace Core

def set (c : Core) (r : Reg) (v : Word) : Core :=
  { c with regs := fun r' => if r' = r then v else c.regs r' }

def setCsr (c : Core) (csr : Csr) (v : Word) : Core :=
  { c with csrs := fun csr' => if csr' = csr then v else c.csrs csr' }

/-- The address of `off(base)`. -/
def addr (c : Core) (base : Reg) (off : Nat) : Word := c.regs base + BitVec.ofNat 32 off

def exec (c : Core) : Instr → Core
  | .li r v => c.set r v
  | .sw r off base => { c with mem := c.mem.store32 (c.addr base off) (c.regs r) }
  | .swZero off base => { c with mem := c.mem.store32 (c.addr base off) 0 }
  | .lw r off base => c.set r (c.mem.load32 (c.addr base off))
  | .csrr r csr => c.set r (c.csrs csr)
  | .csrw csr r => c.setCsr csr (c.regs r)

def run (c : Core) (is : List Instr) : Core := Lib.run exec c is

@[simp] theorem run_nil (c : Core) : c.run [] = c := rfl
@[simp] theorem run_cons (c : Core) (i : Instr) (is : List Instr) :
    c.run (i :: is) = (c.exec i).run is := rfl

theorem run_append (c : Core) (is js : List Instr) : c.run (is ++ js) = (c.run is).run js :=
  Lib.run_append _ _ _ _

@[simp] theorem set_mem (c : Core) (r : Reg) (v : Word) : (c.set r v).mem = c.mem := rfl
@[simp] theorem set_self (c : Core) (r : Reg) (v : Word) : (c.set r v).regs r = v := by
  simp [set]

theorem set_other (c : Core) {r r' : Reg} (v : Word) (h : r' ≠ r) :
    (c.set r v).regs r' = c.regs r' := by
  simp [set, h]

@[simp] theorem setCsr_self (c : Core) (csr : Csr) (v : Word) :
    (c.setCsr csr v).csrs csr = v := by
  simp [setCsr]

theorem setCsr_other (c : Core) {csr csr' : Csr} (v : Word) (h : csr' ≠ csr) :
    (c.setCsr csr v).csrs csr' = c.csrs csr' := by
  simp [setCsr, h]

/-! ## Registers -/

/-- `sw` each register to its slot. -/
def spill (base : Reg) (slots : List (Reg × Nat)) : List Instr :=
  slots.map fun p => .sw p.1 p.2 base

/-- `lw` each register from its slot. -/
def reload (base : Reg) (slots : List (Reg × Nat)) : List Instr :=
  slots.map fun p => .lw p.1 p.2 base

theorem run_spill (c : Core) (base : Reg) (slots : List (Reg × Nat)) :
    c.run (spill base slots) =
      { c with mem := c.mem.storeSlots (c.regs base) (slots.map fun p => (p.2, c.regs p.1)) } := by
  induction slots generalizing c with
  | nil => rfl
  | cons p ps ih => exact ih _

/-- What a reload from slots of memory does: a base register among the loaded ones keeps
its value. -/
theorem run_reload (c : Core) (base : Reg) (slots : List (Reg × Nat))
    (hn : (slots.map (·.1)).Nodup)
    (hbase : ∀ p ∈ slots, p.1 = base → c.mem.load32 (c.addr base p.2) = c.regs base) :
    (c.run (reload base slots)).mem = c.mem ∧ (c.run (reload base slots)).csrs = c.csrs ∧
      (c.run (reload base slots)).regs base = c.regs base ∧
      (∀ p ∈ slots, (c.run (reload base slots)).regs p.1 = c.mem.load32 (c.addr base p.2)) ∧
      ∀ r ∉ slots.map (·.1), (c.run (reload base slots)).regs r = c.regs r := by
  induction slots generalizing c with
  | nil => exact ⟨rfl, rfl, rfl, nofun, fun _ _ => rfl⟩
  | cons q qs ih =>
    rw [List.map_cons, List.nodup_cons] at hn
    obtain ⟨hq, hqs⟩ := hn
    let d := c.set q.1 (c.mem.load32 (c.addr base q.2))
    have hkept : d.regs base = c.regs base := by
      by_cases e : q.1 = base
      · subst e
        exact (set_self _ _ _).trans (hbase q List.mem_cons_self rfl)
      · exact set_other _ _ (Ne.symm e)
    have haddr : ∀ off, d.addr base off = c.addr base off := fun off => by rw [addr, addr, hkept]
    obtain ⟨hmem, hcsrs, hb, hin, hout⟩ := ih d hqs fun p hp e => by
      rw [haddr, hkept]
      exact hbase p (List.mem_cons_of_mem _ hp) e
    refine ⟨hmem, hcsrs, hb.trans hkept, fun p hp => ?_, fun r hr => ?_⟩
    · rcases List.mem_cons.mp hp with rfl | hp
      · exact (hout _ hq).trans (set_self _ _ _)
      · rw [← haddr]
        exact hin p hp
    · rw [List.map_cons, List.mem_cons, not_or] at hr
      exact (hout r hr.2).trans (set_other _ _ hr.1)

/-! ## CSRs -/

/-- `csrr` and `sw` each CSR to its slot. -/
def spillCsrs (scratch base : Reg) (slots : List (Csr × Nat)) : List Instr :=
  slots.flatMap fun p => [.csrr scratch p.1, .sw scratch p.2 base]

/-- `lw` and `csrw` each CSR from its slot. -/
def reloadCsrs (scratch base : Reg) (slots : List (Csr × Nat)) : List Instr :=
  slots.flatMap fun p => [.lw scratch p.2 base, .csrw p.1 scratch]

variable {scratch base : Reg}

theorem run_spillCsrs (c : Core) (h : scratch ≠ base) (slots : List (Csr × Nat)) :
    (c.run (spillCsrs scratch base slots)).csrs = c.csrs ∧
      (c.run (spillCsrs scratch base slots)).mem =
        c.mem.storeSlots (c.regs base) (slots.map fun p => (p.2, c.csrs p.1)) := by
  induction slots generalizing c with
  | nil => exact ⟨rfl, rfl⟩
  | cons p ps ih =>
    let d := (c.exec (.csrr scratch p.1)).exec (.sw scratch p.2 base)
    have hbase : d.regs base = c.regs base := set_other _ _ h.symm
    have hmem : d.mem = c.mem.store32 (c.addr base p.2) (c.csrs p.1) := by
      simp only [d, exec, addr, set_self, set_mem, set_other _ _ h.symm]
    obtain ⟨hcsrs, hrest⟩ := ih d
    refine ⟨hcsrs, hrest.trans ?_⟩
    rw [hbase, hmem]
    rfl

theorem run_reloadCsrs (c : Core) (h : scratch ≠ base) (slots : List (Csr × Nat))
    (hn : (slots.map (·.1)).Nodup) :
    (∀ r, r ≠ scratch → (c.run (reloadCsrs scratch base slots)).regs r = c.regs r) ∧
      (∀ p ∈ slots, (c.run (reloadCsrs scratch base slots)).csrs p.1 =
        c.mem.load32 (c.addr base p.2)) ∧
      ∀ csr ∉ slots.map (·.1), (c.run (reloadCsrs scratch base slots)).csrs csr = c.csrs csr := by
  induction slots generalizing c with
  | nil => exact ⟨fun _ _ => rfl, nofun, fun _ _ => rfl⟩
  | cons q qs ih =>
    rw [List.map_cons, List.nodup_cons] at hn
    obtain ⟨hq, hqs⟩ := hn
    let d := (c.exec (.lw scratch q.2 base)).exec (.csrw q.1 scratch)
    have hregs : ∀ r, r ≠ scratch → d.regs r = c.regs r := fun r hr => set_other _ _ hr
    have hd : d.csrs q.1 = c.mem.load32 (c.addr base q.2) :=
      (setCsr_self _ _ _).trans (set_self _ _ _)
    obtain ⟨hr, hin, hout⟩ := ih d hqs
    refine ⟨fun r h => (hr r h).trans (hregs r h), fun p hp => ?_, fun csr hcsr => ?_⟩
    · rcases List.mem_cons.mp hp with rfl | hp
      · exact (hout _ hq).trans hd
      · refine (hin p hp).trans ?_
        rw [addr, addr, hregs _ h.symm]
        rfl
    · rw [List.map_cons, List.mem_cons, not_or] at hcsr
      exact (hout csr hcsr.2).trans (setCsr_other _ _ hcsr.1)

end Core

end XHeepFemu.Hw
