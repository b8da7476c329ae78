import Mathlib.Algebra.Group.Nat.Defs
import XHeepFemu.Lib.Region

/-!
# Words, bytes and the memory map

`ram0`, `ram1` and `ram2` are the `MEMORY` regions of
`apps/tflite_scpi/link.ld`; `ram2` is the sandbox of user mode. `Mem` is the
byte-addressed memory of the 32-bit core.
-/

namespace XHeepFemu

open Lib (Region)

abbrev Word := BitVec 32

abbrev Byte := UInt8

abbrev Mem := Word → Byte

/-! ## link.ld -/

def ram0 : Region := ⟨0x00000000, 0x00040000⟩

def ram1 : Region := ⟨0x00040000, 0x00038000⟩

/-- The 32 KiB sandbox for user mode. -/
def ram2 : Region := ⟨0x00078000, 0x00008000⟩

/-- `ram2_lo` of `handler_user_ecall`. -/
def ram2Lo : Word := 0x00078000

/-- `ram2_hi` of `handler_user_ecall`. -/
def ram2Hi : Word := 0x00080000

/-- The byte at `a` is on-chip RAM. -/
def InRam (a : Nat) : Prop := ram0.Contains a ∨ ram1.Contains a ∨ ram2.Contains a

instance (a : Nat) : Decidable (InRam a) := inferInstanceAs (Decidable (_ ∨ _))

theorem ram2_contains {a : Nat} : ram2.Contains a ↔ 0x78000 ≤ a ∧ a < 0x80000 := Iff.rfl

/-- The three regions are contiguous: RAM is `[0, 0x80000)`. -/
theorem inRam_iff {a : Nat} : InRam a ↔ a < 0x80000 := by
  simp only [InRam, Region.Contains, Region.top, ram0, ram1, ram2]
  omega

/-! ## Bytes in memory -/

/-- The `n` bytes from `p`, addresses wrapping at 32 bits. -/
def readBytes (mem : Mem) (p : Word) (n : Nat) : List Byte :=
  (List.range n).map fun k => mem (p + BitVec.ofNat 32 k)

@[simp] theorem length_readBytes (mem : Mem) (p : Word) (n : Nat) :
    (readBytes mem p n).length = n := by
  simp [readBytes]

theorem readBytes_succ (mem : Mem) (p : Word) (n : Nat) :
    readBytes mem p (n + 1) = readBytes mem p n ++ [mem (p + BitVec.ofNat 32 n)] := by
  simp [readBytes, List.range_succ]

def Mem.set (mem : Mem) (a : Word) (b : Byte) : Mem := fun a' => if a' = a then b else mem a'

@[simp] theorem Mem.set_self (mem : Mem) (a : Word) (b : Byte) : mem.set a b a = b := by
  simp [Mem.set]

theorem Mem.set_other (mem : Mem) {a a' : Word} (b : Byte) (h : a' ≠ a) :
    mem.set a b a' = mem a' := by
  simp [Mem.set, h]

/-- Offsets below `2^32` from one base are different addresses. -/
theorem add_ofNat_inj (p : Word) {i j : Nat} (hi : i < 2 ^ 32) (hj : j < 2 ^ 32)
    (h : p + BitVec.ofNat 32 i = p + BitVec.ofNat 32 j) : i = j := by
  have h := congrArg BitVec.toNat h
  have hp := p.isLt
  simp only [BitVec.toNat_add, BitVec.toNat_ofNat] at h
  omega

theorem readBytes_set (mem : Mem) (p : Word) {n i : Nat} (b : Byte) (hn : n ≤ i)
    (hi : i < 2 ^ 32) :
    readBytes (mem.set (p + BitVec.ofNat 32 i) b) p n = readBytes mem p n := by
  refine List.map_congr_left fun k hk => Mem.set_other _ _ fun h => ?_
  have hk : k < n := List.mem_range.mp hk
  have := add_ofNat_inj p (by omega) hi h
  omega

end XHeepFemu
