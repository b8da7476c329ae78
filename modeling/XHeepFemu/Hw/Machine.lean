import XHeepFemu.Hw.MemMap

/-!
# The integer core

Registers by their ABI names, word loads and stores on byte memory, and a log
of the addresses stored to. `storeAll` and `loadAll` are a frame of registers
pushed and popped at fixed offsets: popping a frame of disjoint slots gives
back the registers that were pushed.
-/

namespace XHeepFemu

/-- The integer registers but `zero`. -/
inductive Reg where
  | ra | sp | gp | tp
  | t0 | t1 | t2 | t3 | t4 | t5 | t6
  | s0 | s1 | s2 | s3 | s4 | s5 | s6 | s7 | s8 | s9 | s10 | s11
  | a0 | a1 | a2 | a3 | a4 | a5 | a6 | a7
  deriving DecidableEq, Repr

/-- Registers a called C function gives back: the `s` registers, `sp`, and `gp`, `tp`
that compiled code never allocates. -/
def Reg.calleeSaved : Reg → Bool
  | .sp | .gp | .tp => true
  | .s0 | .s1 | .s2 | .s3 | .s4 | .s5 | .s6 | .s7 | .s8 | .s9 | .s10 | .s11 => true
  | _ => false

/-- Little-endian word load. -/
def Mem.load32 (mem : Mem) (a : Word) : Word :=
  (mem a).toBitVec.setWidth 32 ||| ((mem (a + 1)).toBitVec.setWidth 32 <<< 8) |||
    ((mem (a + 2)).toBitVec.setWidth 32 <<< 16) ||| ((mem (a + 3)).toBitVec.setWidth 32 <<< 24)

/-- Little-endian halfword load. -/
def Mem.load16 (mem : Mem) (a : Word) : BitVec 16 :=
  (mem a).toBitVec.setWidth 16 ||| ((mem (a + 1)).toBitVec.setWidth 16 <<< 8)

/-- Byte `k` of a word. -/
def wordByte (v : Word) (k : Nat) : Byte := ⟨v.extractLsb' (8 * k) 8⟩

/-- Little-endian word store. -/
def Mem.store32 (mem : Mem) (a v : Word) : Mem := fun b =>
  if b = a then wordByte v 0
  else if b = a + 1 then wordByte v 1
  else if b = a + 2 then wordByte v 2
  else if b = a + 3 then wordByte v 3
  else mem b

/-- A load depends on its four bytes. -/
theorem load32_congr {mem mem' : Mem} {a : Word}
    (h : ∀ k < 4, mem (a + BitVec.ofNat 32 k) = mem' (a + BitVec.ofNat 32 k)) :
    mem.load32 a = mem'.load32 a := by
  have h0 := h 0 (by decide)
  rw [BitVec.add_zero] at h0
  unfold Mem.load32
  rw [h0, show mem (a + 1) = _ from h 1 (by decide), show mem (a + 2) = _ from h 2 (by decide),
    show mem (a + 3) = _ from h 3 (by decide)]
  rfl

/-- Two word accesses that share no byte. -/
def Apart (a b : Word) : Prop := 4 ≤ (a - b).toNat ∧ 4 ≤ (b - a).toNat

theorem store32_load32 (mem : Mem) (a v : Word) : (mem.store32 a v).load32 a = v := by
  have h1 : a + 1 ≠ a := by bv_omega
  have h2 : a + 2 ≠ a ∧ a + 2 ≠ a + 1 := ⟨by bv_omega, by bv_omega⟩
  have h3 : a + 3 ≠ a ∧ a + 3 ≠ a + 1 ∧ a + 3 ≠ a + 2 := ⟨by bv_omega, by bv_omega, by bv_omega⟩
  simp only [Mem.load32, Mem.store32, h1, h2, h3, if_true, if_false, wordByte]
  apply BitVec.eq_of_getLsbD_eq
  intro i hi
  simp only [BitVec.getLsbD_or, BitVec.getLsbD_shiftLeft, BitVec.getLsbD_setWidth,
    BitVec.getLsbD_extractLsb']
  grind

theorem store32_load32_apart (mem : Mem) {a b : Word} (v : Word) (h : Apart a b) :
    (mem.store32 a v).load32 b = mem.load32 b := by
  have key : ∀ c, c = b ∨ c = b + 1 ∨ c = b + 2 ∨ c = b + 3 → mem.store32 a v c = mem c := by
    intro c hc
    have : c ≠ a ∧ c ≠ a + 1 ∧ c ≠ a + 2 ∧ c ≠ a + 3 := by
      unfold Apart at h
      rcases hc with rfl | rfl | rfl | rfl <;>
        exact ⟨by bv_omega, by bv_omega, by bv_omega, by bv_omega⟩
    simp only [Mem.store32, this, if_false]
  simp only [Mem.load32, key b (by simp), key (b + 1) (by simp), key (b + 2) (by simp),
    key (b + 3) (by simp)]

/-! ## Slots -/

/-- Words stored at offsets from a base, one after the other. -/
def Mem.storeSlots (mem : Mem) (base : Word) (slots : List (Nat × Word)) : Mem :=
  slots.foldl (fun mem p => mem.store32 (base + BitVec.ofNat 32 p.1) p.2) mem

@[simp] theorem storeSlots_cons (mem : Mem) (base : Word) (p : Nat × Word)
    (ps : List (Nat × Word)) : mem.storeSlots base (p :: ps) =
      (mem.store32 (base + BitVec.ofNat 32 p.1) p.2).storeSlots base ps := rfl

theorem storeSlots_append (mem : Mem) (base : Word) (ps qs : List (Nat × Word)) :
    mem.storeSlots base (ps ++ qs) = (mem.storeSlots base ps).storeSlots base qs :=
  List.foldl_append

/-- Words at these offsets share no byte, and both are in the first `2 ^ 31` bytes. -/
def SlotsApart (i j : Nat) : Prop := (i + 4 ≤ j ∨ j + 4 ≤ i) ∧ i < 2 ^ 31 ∧ j < 2 ^ 31

instance (i j : Nat) : Decidable (SlotsApart i j) := inferInstanceAs (Decidable (_ ∧ _))

theorem SlotsApart.symm {i j : Nat} (h : SlotsApart i j) : SlotsApart j i :=
  ⟨h.1.symm, h.2.2, h.2.1⟩

theorem SlotsApart.apart (base : Word) {i j : Nat} (h : SlotsApart i j) :
    Apart (base + BitVec.ofNat 32 i) (base + BitVec.ofNat 32 j) := by
  have hbase := base.isLt
  unfold SlotsApart at h
  simp only [Apart, BitVec.toNat_sub, BitVec.toNat_add, BitVec.toNat_ofNat]
  omega

/-- A slot the stores do not touch reads as before. -/
theorem storeSlots_load_other (mem : Mem) (base : Word) (slots : List (Nat × Word)) {off : Nat}
    (h : ∀ p ∈ slots, SlotsApart p.1 off) :
    (mem.storeSlots base slots).load32 (base + BitVec.ofNat 32 off) =
      mem.load32 (base + BitVec.ofNat 32 off) := by
  induction slots generalizing mem with
  | nil => rfl
  | cons p ps ih =>
    rw [storeSlots_cons, ih _ fun q hq => h q (List.mem_cons_of_mem _ hq)]
    exact store32_load32_apart _ _ ((h p List.mem_cons_self).apart base)

/-- Every slot holds the word stored in it. -/
theorem storeSlots_load (mem : Mem) (base : Word) (slots : List (Nat × Word))
    (hd : slots.Pairwise fun p q => SlotsApart p.1 q.1) :
    ∀ p ∈ slots, (mem.storeSlots base slots).load32 (base + BitVec.ofNat 32 p.1) = p.2 := by
  induction slots generalizing mem with
  | nil => intro p hp; cases hp
  | cons q qs ih =>
    obtain ⟨hq, hqs⟩ := List.pairwise_cons.mp hd
    intro p hp
    rcases List.mem_cons.mp hp with rfl | hp
    · rw [storeSlots_cons, storeSlots_load_other _ _ _ fun r hr => (hq r hr).symm]
      exact store32_load32 _ _ _
    · exact ih _ hqs p hp

/-! ## Machine state -/

structure Machine where
  regs : Reg → Word
  mem : Mem
  pc : Word
  mepc : Word
  mcause : Word
  /-- Addresses of the word stores made so far, latest last. -/
  writes : List Word

namespace Machine

def set (m : Machine) (r : Reg) (v : Word) : Machine :=
  { m with regs := fun r' => if r' = r then v else m.regs r' }

@[simp] theorem set_mem (m : Machine) (r : Reg) (v : Word) : (m.set r v).mem = m.mem := rfl
@[simp] theorem set_self (m : Machine) (r : Reg) (v : Word) : (m.set r v).regs r = v := by
  simp [set]

theorem set_other (m : Machine) {r r' : Reg} (v : Word) (h : r' ≠ r) :
    (m.set r v).regs r' = m.regs r' := by
  simp [set, h]

/-- `addi sp, sp, d`. -/
def addSp (m : Machine) (d : Word) : Machine := m.set .sp (m.regs .sp + d)

@[simp] theorem addSp_writes (m : Machine) (d : Word) : (m.addSp d).writes = m.writes := rfl

/-- `sw r, off(sp)`. -/
def swSp (m : Machine) (r : Reg) (off : Nat) : Machine :=
  let a := m.regs .sp + BitVec.ofNat 32 off
  { m with mem := m.mem.store32 a (m.regs r), writes := m.writes ++ [a] }

/-- `lw r, off(sp)`. -/
def lwSp (m : Machine) (r : Reg) (off : Nat) : Machine :=
  m.set r (m.mem.load32 (m.regs .sp + BitVec.ofNat 32 off))

/-- A sequence of `sw`. -/
def storeAll (m : Machine) (slots : List (Reg × Nat)) : Machine :=
  slots.foldl (fun m p => m.swSp p.1 p.2) m

/-- A sequence of `lw`. -/
def loadAll (m : Machine) (slots : List (Reg × Nat)) : Machine :=
  slots.foldl (fun m p => m.lwSp p.1 p.2) m

@[simp] theorem storeAll_nil (m : Machine) : m.storeAll [] = m := rfl
@[simp] theorem storeAll_cons (m : Machine) (p : Reg × Nat) (ps : List (Reg × Nat)) :
    m.storeAll (p :: ps) = (m.swSp p.1 p.2).storeAll ps := rfl

@[simp] theorem loadAll_cons (m : Machine) (p : Reg × Nat) (ps : List (Reg × Nat)) :
    m.loadAll (p :: ps) = (m.lwSp p.1 p.2).loadAll ps := rfl

@[simp] theorem storeAll_regs (m : Machine) (slots : List (Reg × Nat)) :
    (m.storeAll slots).regs = m.regs := by
  induction slots generalizing m with
  | nil => rfl
  | cons p ps ih => rw [storeAll_cons, ih]; rfl

theorem storeAll_writes (m : Machine) (slots : List (Reg × Nat)) :
    (m.storeAll slots).writes =
      m.writes ++ slots.map fun p => m.regs .sp + BitVec.ofNat 32 p.2 := by
  induction slots generalizing m with
  | nil => simp
  | cons p ps ih =>
    rw [storeAll_cons, ih]
    simp [swSp]

/-- Loads that leave `sp` alone keep everything but the loaded registers. -/
theorem loadAll_regs_other (m : Machine) (slots : List (Reg × Nat)) {r : Reg}
    (h : ∀ p ∈ slots, r ≠ p.1) : (m.loadAll slots).regs r = m.regs r := by
  induction slots generalizing m with
  | nil => rfl
  | cons p ps ih =>
    rw [loadAll_cons, ih _ fun q hq => h q (List.mem_cons_of_mem _ hq)]
    exact set_other _ _ (h p List.mem_cons_self)

end Machine

end XHeepFemu
