import XHeepFemu.Hw.MemMap

/-!
# Physical memory protection

The two PMP entries of the core and the privileged-specification matching
rules at granularity 4: the lowest-numbered entry that matches any byte of an
access decides it, and an entry that matches only some of the bytes refuses
the access whatever its `L`, `R`, `W`, `X` bits and whatever the mode.
`pmpSetup` is `pmp_setup` of `apps/tflite_scpi/main.c`, one CSR write after
the other.
-/

namespace XHeepFemu.Pmp

open Lib (Region)

/-! ## CSRs -/

/-- The configuration bytes and address registers of the two entries. -/
structure Csrs where
  cfg : Fin 2 → BitVec 8
  addr : Fin 2 → Word

/-- The address-matching mode `A`, bits 3 and 4 of a configuration byte. -/
inductive AddrMatch where
  | off
  | tor
  | na4
  | napot
  deriving DecidableEq, Repr

def addrMatch (c : BitVec 8) : AddrMatch :=
  match c.getLsbD 4, c.getLsbD 3 with
  | false, false => .off
  | false, true => .tor
  | true, false => .na4
  | true, true => .napot

def locked (c : BitVec 8) : Bool := c.getLsbD 7

/-- Bits 5 and 6 of a configuration byte read as zero. -/
def legal (c : BitVec 8) : BitVec 8 := c &&& 0x9f#8

namespace Csrs

/-- `csrw pmpcfg0, v`: locked entries ignore the write. -/
def csrwCfg (c : Csrs) (v : Word) : Csrs :=
  { c with cfg := fun i =>
      if locked (c.cfg i) then c.cfg i else legal (v.extractLsb' (8 * i.val) 8) }

/-- `csrr rd, pmpcfg0`; entries 2 and 3 are not implemented and read zero. -/
def csrrCfg (c : Csrs) : Word :=
  (c.cfg 0).setWidth 32 ||| ((c.cfg 1).setWidth 32 <<< 8)

/-- `csrs pmpcfg0, v`. -/
def csrsCfg (c : Csrs) (v : Word) : Csrs := c.csrwCfg (c.csrrCfg ||| v)

/-- An address register is locked with its entry, and with a locked TOR entry above it. -/
def addrLocked (c : Csrs) (i : Fin 2) : Bool :=
  locked (c.cfg i) || (i == 0 && locked (c.cfg 1) && addrMatch (c.cfg 1) == .tor)

/-- `csrw pmpaddr<i>, v`. -/
def csrwAddr (c : Csrs) (i : Fin 2) (v : Word) : Csrs :=
  { c with addr := fun j => if j = i ∧ ¬ c.addrLocked i then v else c.addr j }

/-- No entry has its lock bit set. -/
def Unlocked (c : Csrs) : Prop := ∀ i, locked (c.cfg i) = false

/-- Reset values: every entry off. -/
def powerOn : Csrs := ⟨fun _ => 0, fun _ => 0⟩

theorem powerOn_unlocked : powerOn.Unlocked := by unfold Unlocked; decide

end Csrs

/-! ## Matching -/

/-- The number of trailing ones, looking at `n` bits. -/
def trailingOnes (w : Word) : Nat → Nat
  | 0 => 0
  | n + 1 => if w.getLsbD 0 then trailingOnes (w >>> 1) n + 1 else 0

/-- The bytes entry `i` matches. -/
def region (c : Csrs) (i : Fin 2) : Region :=
  match addrMatch (c.cfg i) with
  | .off => ⟨0, 0⟩
  | .tor =>
    -- the bottom is the previous entry's address register, also when that entry is off
    let bottom := if i = 0 then 0 else (c.addr 0).toNat * 4
    ⟨bottom, (c.addr i).toNat * 4 - bottom⟩
  | .na4 => ⟨(c.addr i).toNat * 4, 4⟩
  | .napot =>
    let k := trailingOnes (c.addr i) 32
    ⟨(c.addr i).toNat / 2 ^ (k + 1) * 2 ^ (k + 3), 2 ^ (k + 3)⟩

inductive Mode where
  | user
  | machine
  deriving DecidableEq, Repr

inductive Access where
  | read
  | write
  | fetch
  deriving DecidableEq, Repr

/-- Accesses are of 1, 2 or 4 bytes. -/
inductive Size where
  | byte
  | half
  | word
  deriving DecidableEq, Repr

def Size.bytes : Size → Nat
  | .byte => 1
  | .half => 2
  | .word => 4

theorem Size.bytes_pos (sz : Size) : 0 < sz.bytes := by cases sz <;> decide

/-- The addresses of the bytes of an access. -/
def accessBytes (a : Word) (sz : Size) : List Word :=
  (List.range sz.bytes).map fun k => a + BitVec.ofNat 32 k

/-- The `R`, `W`, `X` bit for an access. -/
def allows (c : BitVec 8) : Access → Bool
  | .read => c.getLsbD 0
  | .write => c.getLsbD 1
  | .fetch => c.getLsbD 2

def touches (R : Region) (bs : List Word) : Bool := bs.any fun b => R.Contains b.toNat

def containsAll (R : Region) (bs : List Word) : Bool := bs.all fun b => R.Contains b.toNat

/-- The verdict of the entry that decides the access. -/
def entryPermits (c : Csrs) (m : Mode) (acc : Access) (bs : List Word) (i : Fin 2) : Bool :=
  containsAll (region c i) bs &&
    ((m == .machine && !locked (c.cfg i)) || allows (c.cfg i) acc)

/-- Whether the PMP lets the access through. An access no entry matches is
M-mode's privilege. -/
def permitted (c : Csrs) (m : Mode) (acc : Access) (a : Word) (sz : Size) : Bool :=
  let bs := accessBytes a sz
  if touches (region c 0) bs then entryPermits c m acc bs 0
  else if touches (region c 1) bs then entryPermits c m acc bs 1
  else m == .machine

/-! ## pmp_setup -/

def pmpSetup (c : Csrs) : Csrs :=
  let c := c.csrwCfg 0
  let c := c.csrwAddr 0 0x1e000
  let c := c.csrwAddr 1 0x20000
  -- 0x0f is TOR | R | W | X for entry 1; the lock bit 7 stays clear
  c.csrsCfg (0x0f#32 <<< 8)

/-- What `pmp_setup` leaves: entry 0 off at the bottom of the sandbox, entry 1 the
top of a range with all permissions. -/
def configured : Csrs where
  cfg i := if i = 0 then 0x00 else 0x0f
  addr i := if i = 0 then 0x1e000 else 0x20000

theorem Csrs.csrwCfg_zero {c : Csrs} (hc : c.Unlocked) : c.csrwCfg 0 = ⟨fun _ => 0, c.addr⟩ := by
  unfold csrwCfg
  congr 1
  funext i
  rw [hc i, if_neg Bool.false_ne_true]
  simp [legal]

/-- With both configuration bytes clear an address write goes through. -/
theorem Csrs.csrwAddr_off (addr : Fin 2 → Word) (i : Fin 2) (v : Word) :
    csrwAddr ⟨fun _ => 0, addr⟩ i v = ⟨fun _ => 0, fun j => if j = i then v else addr j⟩ := by
  simp [csrwAddr, addrLocked, locked]

/-- The result does not depend on the unlocked state `pmp_setup` starts from. -/
theorem pmpSetup_eq {c : Csrs} (hc : c.Unlocked) : pmpSetup c = configured := by
  unfold pmpSetup configured
  rw [Csrs.csrwCfg_zero hc]
  simp only [Csrs.csrwAddr_off, Csrs.csrsCfg, Csrs.csrwCfg, Csrs.csrrCfg]
  congr 1
  · funext i
    match i with
    | 0 => rfl
    | 1 => rfl
  · funext i
    match i with
    | 0 => rfl
    | 1 => rfl

/-! ## What the configuration permits -/

theorem region_configured_zero : region configured 0 = ⟨0, 0⟩ := by decide

theorem region_configured_one : region configured 1 = ram2 := by decide

theorem touches_empty (bs : List Word) : touches ⟨0, 0⟩ bs = false := by
  simp [touches, Region.Contains, Region.top]

theorem entryPermits_configured (m : Mode) (acc : Access) (bs : List Word) :
    entryPermits configured m acc bs 1 = containsAll ram2 bs := by
  have h : allows (configured.cfg 1) acc = true := by cases acc <;> decide
  rw [entryPermits, region_configured_one, h]
  simp

/-- Entry 1 alone decides: inside everything goes, straddling an edge nothing does. -/
theorem permitted_configured (m : Mode) (acc : Access) (a : Word) (sz : Size) :
    permitted configured m acc a sz =
      if touches ram2 (accessBytes a sz) then containsAll ram2 (accessBytes a sz)
      else m == .machine := by
  simp only [permitted, region_configured_zero, touches_empty, region_configured_one,
    entryPermits_configured, Bool.false_eq_true, if_false]

/-- The access lies in the sandbox with every byte. -/
def Inside (a : Word) (sz : Size) : Prop := ∀ b ∈ accessBytes a sz, ram2.Contains b.toNat

instance (a : Word) (sz : Size) : Decidable (Inside a sz) :=
  List.decidableBAll (fun b : Word => ram2.Contains b.toNat) (accessBytes a sz)

/-- The access lies outside the sandbox with every byte. -/
def Outside (a : Word) (sz : Size) : Prop := ∀ b ∈ accessBytes a sz, ¬ ram2.Contains b.toNat

theorem containsAll_iff {a : Word} {sz : Size} :
    containsAll ram2 (accessBytes a sz) = true ↔ Inside a sz := by
  simp [containsAll, Inside]

theorem touches_eq_false_iff {a : Word} {sz : Size} :
    touches ram2 (accessBytes a sz) = false ↔ Outside a sz := by
  simp [touches, Outside]

theorem touches_of_inside {a : Word} {sz : Size} (h : Inside a sz) :
    touches ram2 (accessBytes a sz) = true := by
  simp only [touches, List.any_eq_true, decide_eq_true_eq]
  refine ⟨a, ?_, h a ?_⟩ <;>
    exact List.mem_map.mpr ⟨0, List.mem_range.mpr sz.bytes_pos, by simp⟩

theorem permitted_user {acc : Access} {a : Word} {sz : Size} :
    permitted configured .user acc a sz = true ↔ Inside a sz := by
  rw [permitted_configured, ← containsAll_iff]
  cases ht : touches ram2 (accessBytes a sz) with
  | true => simp
  | false =>
    have hn : containsAll ram2 (accessBytes a sz) ≠ true := fun h => by
      rw [touches_of_inside (containsAll_iff.mp h)] at ht
      cases ht
    simp [hn]

theorem permitted_machine {acc : Access} {a : Word} {sz : Size} :
    permitted configured .machine acc a sz = true ↔ Inside a sz ∨ Outside a sz := by
  rw [permitted_configured, ← containsAll_iff, ← touches_eq_false_iff]
  cases ht : touches ram2 (accessBytes a sz) <;> simp

/-- What the sandbox is meant to be: user mode has exactly `ram2`, machine mode everything. -/
def Isolates (c : Csrs) : Prop :=
  (∀ acc a sz, permitted c .user acc a sz = true ↔ Inside a sz) ∧
  ∀ acc a sz, permitted c .machine acc a sz = true

/-- A misaligned machine-mode access over the lower edge of the sandbox is refused. -/
theorem pmpSetup_straddle :
    Csrs.powerOn.Unlocked ∧
      permitted (pmpSetup Csrs.powerOn) .machine .read 0x77ffe .word = false ∧
      ¬ Isolates (pmpSetup Csrs.powerOn) := by
  have h : permitted (pmpSetup Csrs.powerOn) .machine .read 0x77ffe .word = false := by decide
  refine ⟨Csrs.powerOn_unlocked, h, fun hi => ?_⟩
  rw [hi.2] at h
  cases h

/-- **The sandbox after `pmp_setup`**: user mode reaches exactly `ram2`, machine mode
everything but what straddles an edge; `handler_user_ecall` tests the same edges. -/
theorem pmpSetup_isolates {c : Csrs} (hc : c.Unlocked) :
    (∀ acc a sz, permitted (pmpSetup c) .user acc a sz = true ↔ Inside a sz) ∧
    (∀ acc a sz, permitted (pmpSetup c) .machine acc a sz = true ↔
      Inside a sz ∨ Outside a sz) ∧
    ram2Lo.toNat = ram2.base ∧ ram2Hi.toNat = ram2.top := by
  rw [pmpSetup_eq hc]
  exact ⟨fun _ _ _ => permitted_user, fun _ _ _ => permitted_machine, rfl, rfl⟩

theorem pmpSetup_isolates_powerOn :
    Csrs.powerOn.Unlocked ∧
      permitted (pmpSetup Csrs.powerOn) .user .write 0x7fffe .half = true ∧
      permitted (pmpSetup Csrs.powerOn) .user .write 0x7fffe .word = false :=
  have h := (pmpSetup_isolates Csrs.powerOn_unlocked).1 .write 0x7fffe
  ⟨Csrs.powerOn_unlocked, (h .half).mpr (by decide),
    Bool.eq_false_iff.mpr fun hw => absurd ((h .word).mp hw) (by decide)⟩

end XHeepFemu.Pmp
