import XHeepFemu.Scpi.Copy

/-!
# The system calls

`handlerUserEcall` is `handler_user_ecall` of `lib/runtime/handler.c`, over
whatever the firmware it calls does: `Firmware m` holds its effects in a monad
`m`. `InferOk` says what the range check of TEE_EC_INFER is for, and
`inferOk_iff` on which buffers it does it: `ptr + len` is computed in 32 bits.
-/

namespace XHeepFemu.Tee

open Lib (Region)
open Scpi

/-- A C pointer to bytes: into user memory, or to a string of the firmware. -/
inductive CPtr where
  | user (p : Word)
  | str (s : List Byte)
  deriving DecidableEq, Repr

inductive Csr where
  | mcycle
  | mcycleh
  | minstret
  | minstreth
  deriving DecidableEq, Repr

/-- The effects of the functions and instructions the handler uses. -/
structure Firmware (m : Type → Type) where
  printf : String → List Word → m Unit
  scpiInput : CPtr → Word → m Unit
  scpiFlush : m Unit
  uartPutchar : Byte → m Unit
  uartGetchar : m Byte
  csrr : Csr → m Word
  /-- `while (1);` -/
  spin : m Unit

def teeEcInfer : Word := 0
def teeEcUartPutchar : Word := 1
def teeEcUartGetchar : Word := 2
def teeEcRdcounters : Word := 99

/-- `"\r\n"`. -/
def crlf : List Byte := [13, 10]

variable {m : Type → Type} [Monad m]

/-- `case TEE_EC_INFER`. -/
def ecInfer (F : Firmware m) (ptr len : Word) : m Unit :=
  if ptr < ram2Lo ∨ ptr + len > ram2Hi then
    F.printf "[M] Bad user buffer (0x%08lx, len=%u)\r\n" [ptr, len]
  else do
    F.printf "Len = %u\r\n" [len]
    if len > 0 then
      F.scpiInput (.user ptr) len
      F.scpiInput (.str crlf) 2
    F.scpiFlush

/-- `case TEE_EC_RDCOUNTERS`. -/
def ecRdcounters (F : Firmware m) : m Unit := do
  let cLo ← F.csrr .mcycle
  let cHi ← F.csrr .mcycleh
  let iLo ← F.csrr .minstret
  let iHi ← F.csrr .minstreth
  F.printf "%lx\n\r" [cLo]
  F.printf "%lx\n\r" [cHi]
  F.printf "%lx\n\r" [iLo]
  F.printf "%lx\n\r" [iHi]

/-- The result is the byte moved to `a0`, if any. -/
def handlerUserEcall (F : Firmware m) (syscallId ptr len : Word) : m (Option Byte) :=
  if syscallId = teeEcInfer then do
    ecInfer F ptr len
    return none
  else if syscallId = teeEcUartPutchar then do
    F.uartPutchar ⟨ptr.setWidth 8⟩
    return none
  else if syscallId = teeEcUartGetchar then do
    let c ← F.uartGetchar
    return some c
  else if syscallId = teeEcRdcounters then do
    ecRdcounters F
    return none
  else do
    F.printf "[M] Unknown syscall ID: %u\n" [syscallId]
    F.spin
    return none

/-! ## The buffer check -/

/-- Firmware that only notes the calls of `SCPI_Input`. -/
def recorder : Firmware (StateM (List (CPtr × Word))) where
  printf _ _ := pure ()
  scpiInput p len := modify (· ++ [(p, len)])
  scpiFlush := pure ()
  uartPutchar _ := pure ()
  uartGetchar := pure 0
  csrr _ := pure 0
  spin := pure ()

/-- The calls of `SCPI_Input` that TEE_EC_INFER makes. -/
def scpiCalls (ptr len : Word) : List (CPtr × Word) :=
  ((handlerUserEcall recorder teeEcInfer ptr len).run []).2

theorem scpiCalls_eq (ptr len : Word) : scpiCalls ptr len =
    if ptr < ram2Lo ∨ ptr + len > ram2Hi then []
    else if len > 0 then [(.user ptr, len), (.str crlf, 2)] else [] := by
  unfold scpiCalls handlerUserEcall ecInfer
  rw [if_pos rfl]
  split
  · rfl
  · split <;> rfl

theorem sandbox_bottom : ram2.Covers (0x78000 : Word).toNat 2048 :=
  (Region.covers_iff (by decide)).mpr (by decide)

theorem infer_passes {ptr len : Word} (hpos : 0 < len.toNat)
    (h : ram2.Covers ptr.toNat len.toNat) : ¬(ptr < ram2Lo ∨ ptr + len > ram2Hi) := by
  rw [Lib.Region.covers_iff hpos] at h
  have hlo : ram2Lo.toNat = 0x78000 := rfl
  have hhi : ram2Hi.toNat = 0x80000 := rfl
  have hbase : ram2.base = 0x78000 ∧ ram2.top = 0x80000 := ⟨rfl, rfl⟩
  rw [gt_iff_lt, BitVec.lt_def, BitVec.lt_def, BitVec.toNat_add]
  omega

/-- The buffer is passed on when both tests succeed, the upper one on a 32-bit sum. -/
theorem mem_scpiCalls {ptr len p l : Word} : (CPtr.user p, l) ∈ scpiCalls ptr len ↔
    p = ptr ∧ l = len ∧ 0 < len.toNat ∧ 0x78000 ≤ ptr.toNat ∧
      (ptr.toNat + len.toNat) % 2 ^ 32 ≤ 0x80000 := by
  rw [scpiCalls_eq]
  have hcheck : (ptr < ram2Lo ∨ ptr + len > ram2Hi) ↔
      ¬ (0x78000 ≤ ptr.toNat ∧ (ptr.toNat + len.toNat) % 2 ^ 32 ≤ 0x80000) := by
    have hlo : ram2Lo.toNat = 0x78000 := rfl
    have hhi : ram2Hi.toNat = 0x80000 := rfl
    simp only [BitVec.lt_def, BitVec.toNat_add, gt_iff_lt]
    omega
  have hlen : len > 0 ↔ 0 < len.toNat := BitVec.lt_def
  split
  · rename_i h
    rw [hcheck] at h
    simp only [List.not_mem_nil, false_iff]
    exact fun ⟨_, _, _, h1, h2⟩ => h ⟨h1, h2⟩
  · rename_i h
    rw [hcheck, not_not] at h
    split
    · rename_i h0
      refine ⟨?_, ?_⟩
      · intro hmem
        rcases List.mem_cons.mp hmem with e | hmem
        · cases e
          exact ⟨rfl, rfl, hlen.mp h0, h⟩
        · cases List.mem_singleton.mp hmem
      · rintro ⟨rfl, rfl, -⟩
        exact List.mem_cons_self
    · rename_i h0
      rw [hlen] at h0
      simp [h0]

/-- What the range check is for. -/
structure InferOk (ptr len : Word) : Prop where
  /-- The buffer is passed on exactly when it is a non-empty part of the sandbox. -/
  passes_iff : (∃ l, (CPtr.user ptr, l) ∈ scpiCalls ptr len) ↔
    0 < len.toNat ∧ ram2.Covers ptr.toNat len.toNat
  /-- Whatever is in the input buffer, only sandbox bytes are copied, and they fit. -/
  copies : ∀ p l, (CPtr.user p, l) ∈ scpiCalls ptr len → 0 ≤ l.toInt ∧
    ∀ position : Word, position.toNat ≤ 2047 → ∀ n,
      inputCopy scpiInputBufferLength position l = .copy n →
        position.toNat + n ≤ 2047 ∧ ∀ k < n, ram2.Contains (p + BitVec.ofNat 32 k).toNat

/-- **The check of TEE_EC_INFER** does its job exactly on the buffers whose end does not
wrap around to the sandbox or below it. -/
theorem inferOk_iff (ptr len : Word) :
    InferOk ptr len ↔ ¬ (0x78000 ≤ ptr.toNat ∧ 2 ^ 32 ≤ ptr.toNat + len.toNat ∧
      ptr.toNat + len.toNat ≤ 2 ^ 32 + 0x80000) := by
  have hptr := ptr.isLt
  have hlen := len.isLt
  have htop : ram2.base = 0x78000 ∧ ram2.top = 0x80000 := ⟨rfl, rfl⟩
  constructor
  · rintro ⟨passes, _⟩ ⟨hlo, hwrap, hhi⟩
    have hpos : 0 < len.toNat := by omega
    have covered := passes.mp ⟨len, mem_scpiCalls.mpr ⟨rfl, rfl, hpos, hlo, by omega⟩⟩
    rw [Region.covers_iff hpos] at covered
    omega
  · intro hno
    have fits : ∀ p l, (CPtr.user p, l) ∈ scpiCalls ptr len → p = ptr ∧ l = len ∧
        0 < len.toNat ∧ 0x78000 ≤ ptr.toNat ∧ ptr.toNat + len.toNat ≤ 0x80000 := by
      intro p l h
      obtain ⟨rfl, rfl, hpos, hlo, hhi⟩ := mem_scpiCalls.mp h
      exact ⟨rfl, rfl, hpos, hlo, by omega⟩
    constructor
    · constructor
      · rintro ⟨l, h⟩
        obtain ⟨_, _, hpos, hlo, hhi⟩ := fits _ _ h
        exact ⟨hpos, (Region.covers_iff hpos).mpr (by omega)⟩
      · rintro ⟨hpos, covered⟩
        rw [Region.covers_iff hpos] at covered
        exact ⟨len, mem_scpiCalls.mpr ⟨rfl, rfl, hpos, by omega, by omega⟩⟩
    · intro p l h
      obtain ⟨rfl, rfl, hpos, hlo, hhi⟩ := fits p l h
      have hsign : 0 ≤ l.toInt := by
        rw [BitVec.toInt_eq_toNat_cond]
        split <;> omega
      refine ⟨hsign, fun position hposition n hn => ?_⟩
      obtain ⟨rfl, hroom⟩ := inputCopy_bounded hposition hsign hn
      refine ⟨hroom, fun k hk => ?_⟩
      rw [ram2_contains, BitVec.toNat_add, BitVec.toNat_ofNat]
      omega

/-- A length of `0xffffffff` at the bottom of the sandbox passes the check and is `-1` to
`SCPI_Input`, which copies `2^32 - 1` bytes into an empty buffer. -/
theorem infer_wraps :
    (CPtr.user 0x78000, 0xffffffff) ∈ scpiCalls 0x78000 0xffffffff ∧
      inputCopy scpiInputBufferLength 0 0xffffffff = .copy (2 ^ 32 - 1) ∧
      ¬ InferOk 0x78000 0xffffffff := by
  refine ⟨by decide, by decide, fun h => ?_⟩
  have := (h.copies 0x78000 0xffffffff (by decide)).1
  exact absurd this (by decide)

end XHeepFemu.Tee
