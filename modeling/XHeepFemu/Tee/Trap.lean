import XHeepFemu.Hw.Machine

/-!
# The trap path of handler_exception

`handlerException` is `handler_exception` of `lib/runtime/handler.c` at
register level: the prologue the compiler adds for the `interrupt` ABI, the C
code up to the first assembly block, the hand-written frame of 15 words, the
call of `handler_user_ecall`, the update of `mepc`, the reload of the frame and
the `mret` in the middle of the function. What the source does not fix (the
compiler's frame, which registers the C code uses) is a parameter: `Compiled`
for the function itself, `Callee` for the called C function under the calling
convention.

The epilogue is never reached on this path, so `sp` comes back lowered by the
compiler's frame; and the frame is pushed on whatever `sp` user mode left.
-/

namespace XHeepFemu.Tee

open Lib (Region)

/-! ## Exception causes -/

/-- Where `handler_exception` sends a cause. -/
inductive Target where
  | handlerInstrAccFault
  | handlerInstrIllFault
  | handlerBkpt
  | handlerLsuFault
  | handlerEcall
  | handlerUserEcall
  | spin
  deriving DecidableEq, Repr

/-- The `switch` on `mcause & kIdMax`. -/
def excTarget (mcause : Word) : Target :=
  let excCause := mcause &&& 31
  if excCause = 0 then .handlerInstrAccFault       -- kInstMisa
  else if excCause = 1 then .handlerInstrAccFault  -- kInstAccFault
  else if excCause = 2 then .handlerInstrIllFault  -- kInstIllegalFault
  else if excCause = 3 then .handlerBkpt           -- kBkpt
  else if excCause = 5 then .handlerLsuFault       -- kLoadAccFault
  else if excCause = 7 then .handlerLsuFault       -- kStrAccFault
  else if excCause = 11 then .handlerEcall         -- kECall
  else if excCause = 8 then .handlerUserEcall      -- uECall
  else .spin

/-! ## Parameters -/

/-- What the compiler makes of `handler_exception`: a frame of `frameSize` bytes, the
registers stored in it, and the register effect of the C code before the first
assembly block (`body`) and between the call and the reload (`tail`). -/
structure Compiled where
  frameSize : Nat
  frameSize_pos : 0 < frameSize
  /-- One `addi sp, sp, -frameSize`. -/
  frameSize_le : frameSize ≤ 2048
  saves : List (Reg × Nat)
  saves_fit : ∀ p ∈ saves, p.2 + 4 ≤ frameSize
  body : (Reg → Word) → Reg → Word
  body_sp : ∀ R, body R .sp = R .sp
  tail : (Reg → Word) → Reg → Word
  tail_sp : ∀ R, tail R .sp = R .sp

/-- A call of `handler_user_ecall(syscall_id, ptr, len)` that returns, under the calling
convention: everything but the callee-saved registers may change. -/
structure Callee where
  run : Word → Word → Word → Machine → Machine
  saved : ∀ id ptr len m r, r.calleeSaved = true → (run id ptr len m).regs r = m.regs r

/-! ## The code -/

/-- The slots of the hand-written frame, in the order of the `sw` instructions. -/
def frame : List (Reg × Nat) :=
  [(.ra, 56), (.gp, 52), (.tp, 48), (.s0, 44), (.s1, 40), (.s2, 36), (.s3, 32), (.s4, 28),
    (.s5, 24), (.s6, 20), (.s7, 16), (.s8, 12), (.s9, 8), (.s10, 4), (.s11, 0)]

/-- `addi sp, sp, -60` and the 15 stores. -/
def saveFrame (m : Machine) : Machine := (m.addSp (-60)).storeAll frame

/-- The 15 loads, in the opposite order, and `addi sp, sp, 60`. -/
def restoreFrame (m : Machine) : Machine := (m.loadAll frame.reverse).addSp 60

/-- `mepc += (instr & 0x3) == 0x3 ? 4 : 2`. -/
def advanceMepc (m : Machine) : Machine :=
  let instr := m.mem.load16 m.mepc
  { m with mepc := m.mepc + if instr &&& 3 = 3 then 4 else 2 }

variable (K : Compiled) (f : Callee)

/-- The compiler's prologue. -/
def prologue (m : Machine) : Machine :=
  (m.addSp (-BitVec.ofNat 32 K.frameSize)).storeAll K.saves

/-- The state in which `handler_user_ecall` is called. -/
def atCall (m : Machine) : Machine :=
  let m := prologue K m
  saveFrame { m with regs := K.body m.regs }

inductive Outcome where
  /-- `mret`: user mode runs from here. -/
  | mret (m : Machine)
  /-- Another handler took over, or the handler spins. -/
  | other (t : Target)

def handlerException (m : Machine) : Outcome :=
  match excTarget m.mcause with
  | .handlerUserEcall =>
    let syscallId := m.regs .a7
    let a0 := m.regs .a0
    let a1 := m.regs .a1
    let m := f.run syscallId a0 a1 (atCall K m)
    let m := advanceMepc { m with regs := K.tail m.regs }
    let m := restoreFrame m
    .mret { m with pc := m.mepc }
  | t => .other t

/-- `ecall` in user mode: the core saves `pc` and enters the handler. -/
def ecall (m : Machine) : Machine := { m with mepc := m.pc, mcause := 8, writes := [] }

/-! ## Effect on the registers -/

@[simp] theorem addSp_sp (m : Machine) (d : Word) : (m.addSp d).regs .sp = m.regs .sp + d := by
  simp [Machine.addSp]

theorem atCall_sp (m : Machine) :
    (atCall K m).regs .sp = m.regs .sp - BitVec.ofNat 32 K.frameSize - 60 := by
  simp only [atCall, saveFrame, prologue, Machine.storeAll_regs, addSp_sp, K.body_sp]
  bv_omega

theorem restoreFrame_sp (m : Machine) : (restoreFrame m).regs .sp = m.regs .sp + 60 := by
  rw [restoreFrame, addSp_sp, Machine.loadAll_regs_other _ _ (by decide)]

theorem excTarget_ecall (m : Machine) : excTarget (ecall m).mcause = .handlerUserEcall := by
  rw [show (ecall m).mcause = 8 from rfl]
  decide

/-- A system call comes back through `mret`, and `sp` sinks by the compiler's frame. -/
theorem handlerException_sp (m : Machine) :
    ∃ m', handlerException K f (ecall m) = .mret m' ∧
      m'.regs .sp = m.regs .sp - BitVec.ofNat 32 K.frameSize := by
  simp only [handlerException, excTarget_ecall]
  refine ⟨_, rfl, ?_⟩
  simp only [restoreFrame_sp, advanceMepc, K.tail_sp, f.saved _ _ _ _ .sp rfl, atCall_sp, ecall]
  bv_omega

/-! ## Transparency of a system call -/

/-- What user mode may observe of a system call that returned: it goes on at the next
instruction with its registers as they were, but `a0`, which is `c` after GETCHAR. -/
def Transparent (m m' : Machine) (c : Byte) : Prop :=
  m'.pc = m.pc + 4 ∧
    ∀ r, m'.regs r =
      if r = .a0 ∧ m.regs .a7 = 2 then c.toBitVec.setWidth 32 else m.regs r

/-- `n` system calls, with user code in between that leaves `sp` as it found it. -/
inductive EcallRun : Nat → Machine → Machine → Prop where
  | nil (m : Machine) : EcallRun 0 m m
  | ecall {n : Nat} {m₀ m m₁ m₂ : Machine} (before : EcallRun n m₀ m)
      (user : m₁.regs .sp = m.regs .sp)
      (trap : handlerException K f (ecall m₁) = .mret m₂) : EcallRun (n + 1) m₀ m₂

theorem Compiled.frameSize_ne : BitVec.ofNat 32 K.frameSize ≠ 0 := by
  have hpos := K.frameSize_pos
  have hle := K.frameSize_le
  intro h
  have := congrArg BitVec.toNat h
  simp only [BitVec.toNat_ofNat, BitVec.ofNat_eq_ofNat] at this
  omega

theorem EcallRun.sp {n : Nat} {m m' : Machine} (run : EcallRun K f n m m') :
    m'.regs .sp = m.regs .sp - BitVec.ofNat 32 n * BitVec.ofNat 32 K.frameSize := by
  induction run with
  | nil m => simp
  | @ecall n m₀ m m₁ m₂ _ user trap ih =>
    obtain ⟨m', hret, hsp⟩ := handlerException_sp K f m₁
    obtain rfl : m' = m₂ := Outcome.mret.inj (hret.symm.trans trap)
    rw [hsp, user, ih, BitVec.ofNat_add n 1, BitVec.add_mul]
    simp only [BitVec.one_mul]
    bv_omega

/-- No system call gives user mode its stack pointer back: each one lowers it by the
frame whose epilogue the early `mret` skips. -/
theorem ecall_leaks_sp :
    (∀ m c, ∃ m', handlerException K f (ecall m) = .mret m' ∧ ¬ Transparent m m' c) ∧
      ∀ n m m', EcallRun K f n m m' →
        m'.regs .sp = m.regs .sp - BitVec.ofNat 32 n * BitVec.ofNat 32 K.frameSize := by
  refine ⟨fun m c => ?_, fun n m m' run => run.sp⟩
  obtain ⟨m', hret, hsp⟩ := handlerException_sp K f m
  refine ⟨m', hret, fun h => K.frameSize_ne ?_⟩
  have same := h.2 .sp
  rw [if_neg (by simp), hsp] at same
  bv_omega

/-- A frame of 64 bytes that holds `ra` and `t0`; the C code leaves the registers alone. -/
def Compiled.sample : Compiled where
  frameSize := 64
  frameSize_pos := by decide
  frameSize_le := by decide
  saves := [(.ra, 60), (.t0, 56)]
  saves_fit := by decide
  body := id
  body_sp := fun _ => rfl
  tail := id
  tail_sp := fun _ => rfl

/-- A call that changes nothing. -/
def Callee.sample : Callee := ⟨fun _ _ _ m => m, fun _ _ _ _ _ _ => rfl⟩

/-- User mode about to execute `ecall` with `a7 = 0` and the given stack pointer. -/
def userAt (sp : Word) : Machine where
  regs := fun r => if r = .sp then sp else 0
  mem := fun _ => 0
  pc := 0x78000
  mepc := 0
  mcause := 0
  writes := []

/-- One TEE_EC_INFER from a stack pointer of `0x7fff0` comes back with `0x7ffb0`. -/
theorem ecall_leaks_sp_sample :
    ∃ m', handlerException .sample .sample (ecall (userAt 0x7fff0)) = .mret m' ∧
      m'.regs .sp = 0x7ffb0 ∧ ¬ Transparent (userAt 0x7fff0) m' 0 := by
  obtain ⟨m', hret, hsp⟩ := handlerException_sp .sample .sample (userAt 0x7fff0)
  have hsp : m'.regs .sp = 0x7ffb0 := hsp
  refine ⟨m', hret, hsp, fun h => ?_⟩
  have same := h.2 .sp
  rw [hsp, if_neg (by simp)] at same
  exact absurd same (by decide)

/-! ## Confinement of the stores -/

/-- The bytes the saved registers take, from the base of the compiler's frame. -/
def Compiled.top : Nat := (K.saves.map (·.2 + 4)).foldr max 0

/-- Every store so far went to the sandbox or to a stack, wherever M-mode may have one, and none to
M-mode memory or outside RAM. -/
def Confined (m : Machine) : Prop :=
  ∃ mstack : Region,
    (∀ a ∈ m.writes, ∀ k < 4, ram2.Contains (a + BitVec.ofNat 32 k).toNat ∨
      mstack.Contains (a + BitVec.ofNat 32 k).toNat) ∧
    ∀ a ∈ m.writes, ∀ k < 4,
      ¬ (a + BitVec.ofNat 32 k).toNat < 0x78000 ∧ InRam (a + BitVec.ofNat 32 k).toNat

theorem confined_iff {m : Machine} :
    Confined m ↔ ∀ a ∈ m.writes, ∀ k < 4, ram2.Contains (a + BitVec.ofNat 32 k).toNat := by
  simp only [Confined, ram2_contains, inRam_iff]
  refine ⟨?_, ?_⟩
  · rintro ⟨_, -, h⟩ a ha k hk
    have := h a ha k hk
    omega
  · intro h
    refine ⟨ram1, fun a ha k hk => .inl (h a ha k hk), fun a ha k hk => ?_⟩
    have := h a ha k hk
    omega

theorem atCall_writes (m : Machine) (h : m.writes = []) :
    (atCall K m).writes =
      (K.saves.map fun p => m.regs .sp - BitVec.ofNat 32 K.frameSize + BitVec.ofNat 32 p.2) ++
        frame.map fun p =>
          m.regs .sp - BitVec.ofNat 32 K.frameSize - 60 + BitVec.ofNat 32 p.2 := by
  have hp : (prologue K m).regs .sp = m.regs .sp - BitVec.ofNat 32 K.frameSize := by
    rw [prologue, Machine.storeAll_regs, addSp_sp, BitVec.sub_eq_add_neg]
  have hw : (prologue K m).writes =
      K.saves.map fun p => m.regs .sp - BitVec.ofNat 32 K.frameSize + BitVec.ofNat 32 p.2 := by
    rw [prologue, Machine.storeAll_writes, addSp_sp, ← BitVec.sub_eq_add_neg,
      Machine.addSp_writes, h, List.nil_append]
  have hs : ({ prologue K m with regs := K.body (prologue K m).regs } : Machine).regs .sp =
      m.regs .sp - BitVec.ofNat 32 K.frameSize := (K.body_sp _).trans hp
  rw [atCall, saveFrame, Machine.storeAll_writes, addSp_sp, hs]
  simp only [Machine.addSp_writes, hw, BitVec.sub_eq_add_neg _ 60]

theorem Compiled.top_le {n : Nat} : K.top ≤ n ↔ ∀ p ∈ K.saves, p.2 + 4 ≤ n := by
  rw [Compiled.top]
  induction K.saves with
  | nil => simp
  | cons p ps ih =>
    rw [List.map_cons, List.foldr_cons, Nat.max_le, ih, List.forall_mem_cons]

/-- The 15 slots of the frame are the 60 bytes from its base, and a base inside the sandbox
does not wrap. -/
theorem frame_confined (b : Word) :
    (∀ p ∈ frame, ∀ k < 4, ram2.Contains (b + BitVec.ofNat 32 p.2 + BitVec.ofNat 32 k).toNat) ↔
      0x78000 ≤ b.toNat ∧ b.toNat + 60 ≤ 0x80000 := by
  simp only [ram2_contains, BitVec.toNat_add, BitVec.toNat_ofNat]
  refine ⟨?_, ?_⟩
  · intro h
    have low := h (.s11, 0) (by decide) 0 (by decide)
    have high := h (.ra, 56) (by decide) 3 (by decide)
    have := b.isLt
    omega
  · intro h p hp k hk
    have hoff : ∀ q ∈ frame, q.2 + 4 ≤ 60 := by decide
    have := hoff p hp
    omega

/-- One call of the handler confines its stores exactly from the stack pointers that leave
room for both frames inside the sandbox. -/
theorem ecall_confined_iff (m : Machine) :
    Confined (atCall K (ecall m)) ↔
      0x78000 + K.frameSize + 60 ≤ (m.regs .sp).toNat ∧
        (m.regs .sp).toNat + K.top ≤ 0x80000 + K.frameSize := by
  have hpos := K.frameSize_pos
  have hle := K.frameSize_le
  rw [confined_iff, atCall_writes K _ rfl]
  generalize hsp : (ecall m).regs .sp = sp
  have hsp : m.regs .sp = sp := hsp
  have hlt := sp.isLt
  simp only [hsp, List.forall_mem_append, List.forall_mem_map, frame_confined]
  have hF : (BitVec.ofNat 32 K.frameSize).toNat = K.frameSize := by
    rw [BitVec.toNat_ofNat]; omega
  have top_fits : K.top ≤ K.frameSize := (K.top_le).mpr K.saves_fit
  refine ⟨?_, ?_⟩
  · rintro ⟨saves, low, high⟩
    have hsub : (sp - BitVec.ofNat 32 K.frameSize - 60).toNat + 60 + K.frameSize = sp.toNat := by
      bv_omega
    refine ⟨by omega, ?_⟩
    have : K.top ≤ 0x80000 + K.frameSize - sp.toNat := K.top_le.mpr fun p hp => ?_
    · omega
    · have last := (saves p hp 3 (by decide)).2
      have fits := K.saves_fit p hp
      have e : (Region.top ram2) = 0x80000 := rfl
      simp only [BitVec.toNat_add, BitVec.toNat_sub, BitVec.toNat_ofNat, e] at last
      omega
  · rintro ⟨low, high⟩
    have hsub : (sp - BitVec.ofNat 32 K.frameSize - 60).toNat = sp.toNat - K.frameSize - 60 := by
      bv_omega
    refine ⟨fun p hp k hk => ?_, by omega, by omega⟩
    · have := K.saves_fit p hp
      have : p.2 + 4 ≤ K.top := (K.top_le.mp (Nat.le_refl _)) p hp
      simp only [ram2_contains, BitVec.toNat_add, BitVec.toNat_sub, BitVec.toNat_ofNat]
      omega

/-- User mode may leave its stack pointer in M-mode memory: the frame then lands there. -/
theorem ecall_overwrites_ram1 :
    ¬ ∀ (K : Compiled) (m : Machine), Confined (atCall K (ecall m)) := by
  intro h
  have := (ecall_confined_iff .sample (userAt 0x40000)).mp (h _ _)
  exact absurd this.1 (by decide)

end XHeepFemu.Tee
