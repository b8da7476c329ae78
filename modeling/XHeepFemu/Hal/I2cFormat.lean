import XHeepFemu.Lib.Mmio
import XHeepFemu.Hal.Bitfield
import XHeepFemu.Hal.I2c

/-!
# I2C format bytes

`i2c_write_byte_raw` and `i2c_write_byte` of `lib/hal/i2c/i2c.c`, as programs over
memory-mapped words named by their address. `Follows` is the order of the format
codes `i2c.h` documents, and `fdataDecode` reads FDATA by its fields.
-/

namespace XHeepFemu.Hal

open Lib (Io Device recorder)

/-- `i2c_t`. -/
structure I2c where
  baseAddr : Word
  deriving DecidableEq, Repr

/-- `i2c_fmt_t`; a C enumeration can hold other values. -/
inductive I2cFmt where
  | kDifI2cFmtStart
  | kDifI2cFmtTx
  | kDifI2cFmtTxStop
  | kDifI2cFmtRx
  | kDifI2cFmtRxContinue
  | kDifI2cFmtRxStop
  | other (value : Word)
  deriving DecidableEq, Repr

/-- `i2c_fmt_flags_t`. -/
structure I2cFmtFlags where
  start : Bool
  stop : Bool
  read : Bool
  readCont : Bool
  suppressNakIrq : Bool
  deriving DecidableEq, Repr

def i2cFdataRegOffset : Word := 0x18
def i2cFdataFbyteField : BitfieldField32 := ⟨0xff, 0⟩
def i2cFdataStartBit : Nat := 8
def i2cFdataStopBit : Nat := 9
def i2cFdataReadBit : Nat := 10
def i2cFdataRcontBit : Nat := 11
def i2cFdataNakokBit : Nat := 12

/-- The word `i2c_write_byte_raw` writes to FDATA. -/
def fmtByte (byte : Byte) (flags : I2cFmtFlags) : Word :=
  let fmtByte := bitfieldField32Write 0 i2cFdataFbyteField (byte.toBitVec.setWidth 32)
  let fmtByte := bitfieldBit32Write fmtByte i2cFdataStartBit flags.start
  let fmtByte := bitfieldBit32Write fmtByte i2cFdataStopBit flags.stop
  let fmtByte := bitfieldBit32Write fmtByte i2cFdataReadBit flags.read
  let fmtByte := bitfieldBit32Write fmtByte i2cFdataRcontBit flags.readCont
  bitfieldBit32Write fmtByte i2cFdataNakokBit flags.suppressNakIrq

def i2cWriteByteRaw (i2c : Option I2c) (byte : Byte) (flags : I2cFmtFlags) :
    Io Word Word I2cResult :=
  match i2c with
  | none => pure .kDifI2cBadArg
  | some i2c =>
    let hasWriteFlags := flags.start || flags.stop || flags.suppressNakIrq
    let hasReadFlags := flags.read || flags.readCont
    if hasWriteFlags && hasReadFlags then pure .kDifI2cBadArg
    else if flags.readCont && !flags.read then pure .kDifI2cBadArg
    else do
      Io.store (i2c.baseAddr + i2cFdataRegOffset) (fmtByte byte flags)
      pure .kDifI2cOk

/-- The codes of the first `switch`. -/
def I2cFmt.isRx : I2cFmt → Bool
  | .kDifI2cFmtRx | .kDifI2cFmtRxContinue | .kDifI2cFmtRxStop => true
  | _ => false

/-- The second `switch`; a value that is no code has no flags. -/
def I2cFmt.flags (code : I2cFmt) (suppressNakIrq : Bool) : Option I2cFmtFlags :=
  let flags : I2cFmtFlags := ⟨false, false, false, false, suppressNakIrq⟩
  match code with
  | .kDifI2cFmtStart => some { flags with start := true }
  | .kDifI2cFmtTx => some flags
  | .kDifI2cFmtTxStop => some { flags with stop := true }
  | .kDifI2cFmtRx => some { flags with read := true }
  | .kDifI2cFmtRxContinue => some { flags with read := true, readCont := true }
  | .kDifI2cFmtRxStop => some { flags with read := true, stop := true }
  | .other _ => none

def i2cWriteByte (i2c : Option I2c) (byte : Byte) (code : I2cFmt) (suppressNakIrq : Bool) :
    Io Word Word I2cResult :=
  match i2c with
  | none => pure .kDifI2cBadArg
  | some i2c =>
    if suppressNakIrq && code.isRx then pure .kDifI2cBadArg
    else
      match code.flags suppressNakIrq with
      | none => pure .kDifI2cBadArg
      | some flags => i2cWriteByteRaw (some i2c) byte flags

/-! ## Transactions -/

/-- The arguments of one call. -/
structure I2cFmtByte where
  byte : Byte
  code : I2cFmt
  suppressNakIrq : Bool
  deriving DecidableEq, Repr

/-- One call for each byte, with all their results. -/
def i2cWriteBytes (i2c : Option I2c) : List I2cFmtByte → Io Word Word (List I2cResult)
  | [] => pure []
  | b :: bs => do
    let result ← i2cWriteByte i2c b.byte b.code b.suppressNakIrq
    let results ← i2cWriteBytes i2c bs
    pure (result :: results)

/-- The codes that may follow a code, as documented for `i2c_fmt_t`. -/
def Follows : I2cFmt → I2cFmt → Prop
  | .kDifI2cFmtStart, _ | .kDifI2cFmtTx, _ => True
  | .kDifI2cFmtTxStop, next | .kDifI2cFmtRx, next | .kDifI2cFmtRxStop, next =>
    next = .kDifI2cFmtStart
  | .kDifI2cFmtRxContinue, next =>
    next = .kDifI2cFmtRxContinue ∨ next = .kDifI2cFmtRx ∨ next = .kDifI2cFmtRxStop
  | .other _, _ => False

/-- A code of `i2c_fmt_t`, whose NAK interrupt is suppressed only if it transmits. -/
def I2cFmtByte.Documented (b : I2cFmtByte) : Prop :=
  (∀ value, b.code ≠ .other value) ∧ (b.suppressNakIrq = true → b.code.isRx = false)

/-- A transaction as documented: its bytes are, and its codes follow one another. -/
def Transaction (bs : List I2cFmtByte) : Prop :=
  (∀ b ∈ bs, b.Documented) ∧ bs.IsChain fun b next => Follows b.code next.code

/-- The flags of a word written to FDATA. -/
def fdataFlags (word : Word) : I2cFmtFlags where
  start := word.getLsbD i2cFdataStartBit
  stop := word.getLsbD i2cFdataStopBit
  read := word.getLsbD i2cFdataReadBit
  readCont := word.getLsbD i2cFdataRcontBit
  suppressNakIrq := word.getLsbD i2cFdataNakokBit

/-- The code flags stand for. -/
def I2cFmtFlags.code (flags : I2cFmtFlags) : Option I2cFmt :=
  match flags.start, flags.stop, flags.read, flags.readCont with
  | true, false, false, false => some .kDifI2cFmtStart
  | false, false, false, false => some .kDifI2cFmtTx
  | false, true, false, false => some .kDifI2cFmtTxStop
  | false, false, true, false => some .kDifI2cFmtRx
  | false, false, true, true => some .kDifI2cFmtRxContinue
  | false, true, true, false => some .kDifI2cFmtRxStop
  | _, _, _, _ => none

/-- What a word written to FDATA asks for. -/
def fdataDecode (word : Word) : Option I2cFmtByte :=
  (fdataFlags word).code.map fun code =>
    ⟨⟨word.setWidth 8⟩, code, (fdataFlags word).suppressNakIrq⟩

/-- The stores and the result of a program that loads nothing. -/
def performs {α : Type} (p : Io Word Word α) : Option (List (Word × Word) × α) :=
  (recorder fun _ => 0).finish [] p

/-- A documented transaction is accepted, and what FDATA is given reads back as its bytes; any
other byte is refused. -/
def CarriesTransaction (i2c : I2c) (bs : List I2cFmtByte) : Prop :=
  (Transaction bs → ∃ words : List Word,
    performs (i2cWriteBytes (some i2c) bs) =
      some (words.map fun word => (i2c.baseAddr + i2cFdataRegOffset, word),
        List.replicate bs.length .kDifI2cOk) ∧
    words.map fdataDecode = bs.map some) ∧
  ∀ b : I2cFmtByte, ¬b.Documented →
    performs (i2cWriteByte (some i2c) b.byte b.code b.suppressNakIrq) = some ([], .kDifI2cBadArg)

/-! ## The fields of FDATA -/

section Fields

variable (byte : Byte) (flags : I2cFmtFlags)

theorem fmtByte_bit {j : Nat} (hj : j < 32) :
    (fmtByte byte flags).getLsbD j =
      if j = 12 then flags.suppressNakIrq else if j = 11 then flags.readCont
      else if j = 10 then flags.read else if j = 9 then flags.stop
      else if j = 8 then flags.start else if j < 8 then byte.toBitVec.getLsbD j else false := by
  have hmask : (0xff : Word).getLsbD j = decide (j < 8) := getLsbD_ones 8 hj
  have hzero : (0 : Word).getLsbD j = false := BitVec.getLsbD_zero
  simp only [fmtByte, getLsbD_bit32Write _ _ _ hj, getLsbD_field32Write _ _ _ hj,
    i2cFdataNakokBit, i2cFdataRcontBit, i2cFdataReadBit, i2cFdataStopBit, i2cFdataStartBit,
    i2cFdataFbyteField, Nat.sub_zero, Nat.zero_le, true_and, hmask, decide_eq_true_eq,
    BitVec.getLsbD_setWidth, hj, decide_true, Bool.true_and, hzero]

theorem fmtByte_byte : (fmtByte byte flags).setWidth 8 = byte.toBitVec := by
  apply BitVec.eq_of_getLsbD_eq
  intro j hj
  have hne : j ≠ 12 ∧ j ≠ 11 ∧ j ≠ 10 ∧ j ≠ 9 ∧ j ≠ 8 := by omega
  rw [BitVec.getLsbD_setWidth, fmtByte_bit byte flags (by omega)]
  simp only [hj, hne, decide_true, Bool.true_and, if_true, if_false]

theorem fdataFlags_fmtByte : fdataFlags (fmtByte byte flags) = flags := by
  have hbit : ∀ j, j < 32 → _ := fun j hj => fmtByte_bit byte flags (j := j) hj
  simp only [fdataFlags, i2cFdataStartBit, i2cFdataStopBit, i2cFdataReadBit, i2cFdataRcontBit,
    i2cFdataNakokBit, hbit 8 (by omega), hbit 9 (by omega), hbit 10 (by omega),
    hbit 11 (by omega), hbit 12 (by omega)]
  rfl

theorem fdataDecode_fmtByte : fdataDecode (fmtByte byte flags) =
    flags.code.map fun code => ⟨byte, code, flags.suppressNakIrq⟩ := by
  rw [fdataDecode, fdataFlags_fmtByte, fmtByte_byte]

end Fields

/-! ## Calls -/

section Calls

variable (i2c : I2c) (log : List (Word × Word))

theorem i2cWriteByte_accepts {b : I2cFmtByte} (h : b.Documented)
    (hstop : b.code ≠ .kDifI2cFmtRxStop) : ∃ word,
    (recorder fun _ => 0).finish log (i2cWriteByte (some i2c) b.byte b.code b.suppressNakIrq) =
      some (log ++ [(i2c.baseAddr + i2cFdataRegOffset, word)], .kDifI2cOk) ∧
    fdataDecode word = some b := by
  obtain ⟨byte, code, suppress⟩ := b
  obtain ⟨hcode, hsuppress⟩ := h
  suffices ∃ flags : I2cFmtFlags, flags.code = some code ∧ flags.suppressNakIrq = suppress ∧
      i2cWriteByte (some i2c) byte code suppress = (do
        Io.store (i2c.baseAddr + i2cFdataRegOffset) (fmtByte byte flags)
        pure .kDifI2cOk) by
    obtain ⟨flags, hflags, rfl, hrun⟩ := this
    refine ⟨fmtByte byte flags, ?_, ?_⟩
    · rw [hrun]
      rfl
    · rw [fdataDecode_fmtByte, hflags]
      rfl
  cases code with
  | kDifI2cFmtRxStop => exact absurd rfl hstop
  | other value => exact absurd rfl (hcode value)
  | kDifI2cFmtRx | kDifI2cFmtRxContinue =>
    cases suppress with
    | true => cases hsuppress rfl
    | false => exact ⟨_, rfl, rfl, rfl⟩
  | kDifI2cFmtStart | kDifI2cFmtTx | kDifI2cFmtTxStop =>
    cases suppress <;> exact ⟨_, rfl, rfl, rfl⟩

theorem i2cWriteByte_refuses {b : I2cFmtByte} (h : ¬b.Documented ∨ b.code = .kDifI2cFmtRxStop) :
    (recorder fun _ => 0).finish log (i2cWriteByte (some i2c) b.byte b.code b.suppressNakIrq) =
      some (log, .kDifI2cBadArg) := by
  obtain ⟨byte, code, suppress⟩ := b
  cases code with
  | kDifI2cFmtRxStop => cases suppress <;> rfl
  | other value => cases suppress <;> rfl
  | kDifI2cFmtRx | kDifI2cFmtRxContinue =>
    cases suppress with
    | true => rfl
    | false =>
      refine absurd ?_ (h.resolve_right nofun)
      exact ⟨nofun, nofun⟩
  | kDifI2cFmtStart | kDifI2cFmtTx | kDifI2cFmtTxStop =>
    refine absurd ?_ (h.resolve_right nofun)
    exact ⟨nofun, fun _ => rfl⟩

end Calls

theorem i2cWriteBytes_cons (i2c : Option I2c) (b : I2cFmtByte) (bs : List I2cFmtByte)
    (log : List (Word × Word)) :
    (recorder fun _ => 0).finish log (i2cWriteBytes i2c (b :: bs)) =
      ((recorder fun _ => 0).finish log
          (i2cWriteByte i2c b.byte b.code b.suppressNakIrq)).bind fun r =>
        ((recorder fun _ => 0).finish r.1 (i2cWriteBytes i2c bs)).bind fun rs =>
          some (rs.1, r.2 :: rs.2) := by
  refine (Device.finish_bind _ log _ _).trans ?_
  congr 1
  funext r
  exact Device.finish_bind _ r.1 _ _

theorem i2cWriteBytes_accepts (i2c : I2c) {bs : List I2cFmtByte}
    (h : ∀ b ∈ bs, b.Documented ∧ b.code ≠ .kDifI2cFmtRxStop) (log : List (Word × Word)) :
    ∃ words : List Word,
      (recorder fun _ => 0).finish log (i2cWriteBytes (some i2c) bs) =
        some (log ++ words.map fun word => (i2c.baseAddr + i2cFdataRegOffset, word),
          List.replicate bs.length .kDifI2cOk) ∧
      words.map fdataDecode = bs.map some := by
  induction bs generalizing log with
  | nil =>
    refine ⟨[], ?_, rfl⟩
    rw [List.map_nil, List.append_nil]
    rfl
  | cons b bs ih =>
    obtain ⟨⟨hdoc, hstop⟩, hrest⟩ := List.forall_mem_cons.mp h
    obtain ⟨word, hword, hdecode⟩ := i2cWriteByte_accepts i2c log hdoc hstop
    obtain ⟨words, hwords, hdecodes⟩ :=
      ih hrest (log ++ [(i2c.baseAddr + i2cFdataRegOffset, word)])
    refine ⟨word :: words, ?_, ?_⟩
    · rw [i2cWriteBytes_cons, hword, Option.bind_some, hwords, Option.bind_some,
        List.append_assoc]
      rfl
    · rw [List.map_cons, List.map_cons, hdecode, hdecodes]

theorem i2cWriteBytes_refuses (i2c : I2c) {bs : List I2cFmtByte}
    (h : ∃ b ∈ bs, b.code = .kDifI2cFmtRxStop) (log : List (Word × Word)) :
    ∀ r, (recorder fun _ => 0).finish log (i2cWriteBytes (some i2c) bs) = some r →
      .kDifI2cBadArg ∈ r.2 := by
  induction bs generalizing log with
  | nil =>
    obtain ⟨b, hb, _⟩ := h
    cases hb
  | cons b bs ih =>
    intro r hr
    rw [i2cWriteBytes_cons] at hr
    obtain ⟨first, hfirst, hr⟩ := Option.bind_eq_some_iff.mp hr
    obtain ⟨rest, hrest, hr⟩ := Option.bind_eq_some_iff.mp hr
    cases hr
    by_cases hb : b.code = .kDifI2cFmtRxStop
    · rw [i2cWriteByte_refuses i2c log (.inr hb)] at hfirst
      cases hfirst
      exact List.mem_cons_self
    · obtain ⟨c, hc, hstop⟩ := h
      refine List.mem_cons_of_mem _ (ih ⟨c, ?_, hstop⟩ _ _ hrest)
      exact (List.mem_cons.mp hc).resolve_left fun heq => hb (heq ▸ hstop)

/-- Transactions are carried out as documented, unless they stop after a read. -/
theorem i2c_transaction_carried_iff (i2c : I2c) (bs : List I2cFmtByte) :
    CarriesTransaction i2c bs ↔
      ¬(Transaction bs ∧ ∃ b ∈ bs, b.code = .kDifI2cFmtRxStop) := by
  constructor
  · rintro ⟨hcarry, _⟩ ⟨htx, hstop⟩
    obtain ⟨words, hrun, _⟩ := hcarry htx
    have hbad := i2cWriteBytes_refuses i2c hstop [] _ hrun
    cases (List.mem_replicate.mp hbad).2
  · intro h
    refine ⟨fun htx => ?_, fun b hb => i2cWriteByte_refuses i2c [] (.inl hb)⟩
    exact i2cWriteBytes_accepts i2c
      (fun b hb => ⟨htx.1 b hb, fun hcode => h ⟨htx, b, hb, hcode⟩⟩) []

/-- A write of the target's address and a read of one byte that ends the transaction. -/
theorem i2c_rx_stop_refused :
    ¬CarriesTransaction ⟨0x20000000⟩
      [⟨0xa1, .kDifI2cFmtStart, false⟩, ⟨1, .kDifI2cFmtRxStop, false⟩] := by
  rintro ⟨hcarry, _⟩
  have htx : Transaction [⟨0xa1, .kDifI2cFmtStart, false⟩, ⟨1, .kDifI2cFmtRxStop, false⟩] := by
    refine ⟨?_, ?_⟩
    · rintro b (_ | ⟨_, _ | ⟨_, ⟨⟩⟩⟩)
      · exact ⟨nofun, nofun⟩
      · exact ⟨nofun, nofun⟩
    · exact .cons_cons trivial (.singleton _)
  obtain ⟨words, hrun, _⟩ := hcarry htx
  have hbad := i2cWriteBytes_refuses ⟨0x20000000⟩ ⟨_, List.mem_cons_of_mem _ (.head _), rfl⟩ [] _ hrun
  cases (List.mem_replicate.mp hbad).2

end XHeepFemu.Hal
