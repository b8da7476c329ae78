import Mathlib.Data.List.GetD
import XHeepFemu.Lib.LittleEndian
import XHeepFemu.Lib.Mmio
import XHeepFemu.Hw.Machine

/-!
# Word memory

A region of plain little-endian memory that is accessed a word at a time. It keeps a log
of the addresses of its accesses.
-/

namespace XHeepFemu

open Lib (Device)

/-! ## The bytes of a word -/

def wordBytes (v : Word) : List Byte := (List.range 4).map (wordByte v)

/-- The word with these four bytes. -/
def ofWordBytes (bs : List Byte) : Word := BitVec.ofNat 32 (Lib.ofBytes bs)

/-- Bytes stored one after the other, addresses wrapping at 32 bits. -/
def Mem.setBytes (mem : Mem) (p : Word) (bs : List Byte) : Mem :=
  fun a => bs.getD (a - p).toNat (mem a)

theorem setBytes_inside (mem : Mem) (p : Word) {bs : List Byte} {k : Nat} (hk : k < bs.length)
    (hlen : bs.length ≤ 2 ^ 32) : mem.setBytes p bs (p + BitVec.ofNat 32 k) = bs[k] := by
  have hoff : (p + BitVec.ofNat 32 k - p).toNat = k := by bv_omega
  rw [Mem.setBytes, hoff, List.getD_eq_getElem _ _ hk]

theorem setBytes_outside (mem : Mem) (p : Word) {bs : List Byte} {a : Word}
    (h : ∀ k < bs.length, a ≠ p + BitVec.ofNat 32 k) : mem.setBytes p bs a = mem a := by
  refine List.getD_eq_default _ _ (Nat.not_lt.mp fun hlt => h _ hlt ?_)
  bv_omega

theorem setBytes_append (mem : Mem) (p : Word) (xs ys : List Byte)
    (h : xs.length + ys.length ≤ 2 ^ 32) :
    mem.setBytes p (xs ++ ys) = (mem.setBytes p xs).setBytes (p + BitVec.ofNat 32 xs.length) ys := by
  funext a
  have ha := (a - p).isLt
  have hoff : (a - (p + BitVec.ofNat 32 xs.length)).toNat =
      (2 ^ 32 - xs.length + (a - p).toNat) % 2 ^ 32 := by
    bv_omega
  simp only [Mem.setBytes]
  rw [hoff]
  by_cases hk : (a - p).toNat < xs.length
  · rw [List.getD_append _ _ _ _ hk, List.getD_eq_default ys _ (by omega)]
  · have hmod : (2 ^ 32 - xs.length + (a - p).toNat) % 2 ^ 32 = (a - p).toNat - xs.length := by
      omega
    rw [List.getD_append_right _ _ _ _ (by omega), hmod, List.getD_eq_default xs _ (by omega)]

theorem wordByte_ofWordBytes (b₀ b₁ b₂ b₃ : Byte) {k : Nat} (hk : k < 4) :
    wordByte (ofWordBytes [b₀, b₁, b₂, b₃]) k = [b₀, b₁, b₂, b₃][k] := by
  have h0 := b₀.toNat_lt
  have h1 := b₁.toNat_lt
  have h2 := b₂.toNat_lt
  have h3 := b₃.toNat_lt
  apply UInt8.toNat_inj.mp
  show ((ofWordBytes [b₀, b₁, b₂, b₃]).extractLsb' (8 * k) 8).toNat = _
  rw [BitVec.extractLsb'_toNat, ofWordBytes, BitVec.toNat_ofNat, Nat.shiftRight_eq_div_pow]
  simp only [Lib.ofBytes]
  obtain rfl | rfl | rfl | rfl : k = 0 ∨ k = 1 ∨ k = 2 ∨ k = 3 := by omega
  all_goals
    simp only [List.getElem_cons_zero, List.getElem_cons_succ]
    omega

/-- Byte `k` of a stored word is at offset `k`. -/
theorem store32_apply (mem : Mem) (a v b : Word) :
    mem.store32 a v b = if (b - a).toNat < 4 then wordByte v (b - a).toNat else mem b := by
  have hoff : ∀ k < 2 ^ 32, b = a + BitVec.ofNat 32 k ↔ (b - a).toNat = k := by
    intro k hk
    constructor
    · rintro rfl
      bv_omega
    · intro h
      bv_omega
  have h0 : b = a ↔ (b - a).toNat = 0 := by
    rw [← hoff 0 (by omega), BitVec.add_zero]
  have h1 : b = a + 1 ↔ (b - a).toNat = 1 := hoff 1 (by omega)
  have h2 : b = a + 2 ↔ (b - a).toNat = 2 := hoff 2 (by omega)
  have h3 : b = a + 3 ↔ (b - a).toNat = 3 := hoff 3 (by omega)
  simp only [Mem.store32, h0, h1, h2, h3]
  generalize (b - a).toNat = k
  by_cases hk : k < 4
  · obtain rfl | rfl | rfl | rfl : k = 0 ∨ k = 1 ∨ k = 2 ∨ k = 3 := by omega
    all_goals rfl
  · rw [if_neg (by omega), if_neg (by omega), if_neg (by omega), if_neg (by omega), if_neg hk]

theorem store32_ofWordBytes (mem : Mem) (a : Word) {bs : List Byte} (hlen : bs.length = 4) :
    mem.store32 a (ofWordBytes bs) = mem.setBytes a bs := by
  obtain ⟨b₀, b₁, b₂, b₃, rfl⟩ : ∃ b₀ b₁ b₂ b₃, bs = [b₀, b₁, b₂, b₃] := by
    match bs, hlen with
    | [b₀, b₁, b₂, b₃], _ => exact ⟨b₀, b₁, b₂, b₃, rfl⟩
  funext b
  rw [store32_apply, Mem.setBytes]
  by_cases h : (b - a).toNat < 4
  · rw [if_pos h, wordByte_ofWordBytes _ _ _ _ h, List.getD_eq_getElem _ _ h]
  · rw [if_neg h, List.getD_eq_default _ _ (Nat.not_lt.mp h)]

theorem wordBytes_load32 (mem : Mem) (a : Word) : wordBytes (mem.load32 a) = readBytes mem a 4 := by
  refine List.map_congr_left fun k hk => ?_
  have hk : k < 4 := List.mem_range.mp hk
  apply UInt8.toBitVec_inj.mp
  apply BitVec.eq_of_getLsbD_eq
  intro i hi
  simp only [wordByte, Mem.load32, BitVec.getLsbD_extractLsb', BitVec.getLsbD_or,
    BitVec.getLsbD_shiftLeft, BitVec.getLsbD_setWidth, hi, decide_true, Bool.true_and]
  have hhigh : ∀ (b : Byte) (j : Nat), 8 ≤ j → b.toBitVec.getLsbD j = false :=
    fun b j hj => BitVec.getLsbD_of_ge _ _ hj
  have h32 : i < 32 := by omega
  obtain rfl | rfl | rfl | rfl : k = 0 ∨ k = 1 ∨ k = 2 ∨ k = 3 := by omega
  · simp [hi, show i < 16 by omega, show i < 24 by omega, h32]
  · simp [hi, show 8 + i < 16 by omega, show 8 + i < 24 by omega, show 8 + i < 32 by omega, h32,
      show ¬8 + i < 8 by omega]
  · simp [hhigh _ (16 + i) (by omega), hhigh _ (16 + i - 8) (by omega), show 16 + i < 24 by omega,
      show 16 + i < 32 by omega, h32, show ¬16 + i < 16 by omega]
  · simp [hhigh _ (24 + i) (by omega), hhigh _ (24 + i - 8) (by omega),
      hhigh _ (24 + i - 16) (by omega), show 24 + i < 32 by omega, h32,
      show ¬24 + i < 24 by omega]

@[simp] theorem length_wordBytes (v : Word) : (wordBytes v).length = 4 := rfl

/-! ## The memory -/

structure WordRam where
  mem : Mem
  /-- The addresses read. -/
  reads : List Word
  /-- The addresses written. -/
  writes : List Word

def WordRam.device : Device Word Word WordRam Empty where
  read r a := ({ r with reads := r.reads ++ [a] }, r.mem.load32 a)
  write r a v := { r with mem := r.mem.store32 a v, writes := r.writes ++ [a] }
  env _ e := e.elim

end XHeepFemu
