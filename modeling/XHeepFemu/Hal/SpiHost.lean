import XHeepFemu.Lib.Mmio
import XHeepFemu.Hal.Bitfield

/-!
# The SPI host and the DMA

What the flash and ADC applications use of `lib/hal/spi_host/spi_host.c`, of
`lib/hal/dma/dma.c` and of `lib/hal/fast_intr_ctrl/fast_intr_ctrl.c`, as programs over
the registers of the three. The flag that an interrupt handler sets for the main program
is a register here too.
-/

namespace XHeepFemu.Hal

open Lib (Io)

inductive SpiReg where
  /-- SPI host -/
  | intrEnable | status | command | txData | eventEnable
  /-- DMA -/
  | dmaPtrIn | dmaPtrOut | dmaStart | dmaSrcPtrInc | dmaDstPtrInc | dmaSpiMode | dmaDataType
  /-- Fast interrupt controller -/
  | fastIntrClear
  /-- `dma_intr_flag` or `spi_intr_flag`. -/
  | intrFlag
  deriving DecidableEq, Repr

abbrev SpiIo := Io SpiReg Word

/-! ## Registers -/

def spiHostRxdataRegOffset : Word := 0x28
def spiHostTxdataRegOffset : Word := 0x2c

def spiHostCommandLenField : BitfieldField32 := ⟨0xffffff, 0⟩
def spiHostCommandCsaatBit : Nat := 24
def spiHostCommandSpeedField : BitfieldField32 := ⟨0x3, 25⟩
def spiHostCommandDirectionField : BitfieldField32 := ⟨0x3, 27⟩

def spiHostStatusTxemptyBit : Nat := 28
def spiHostStatusReadyBit : Nat := 31

def spiHostIntrEnableSpiEventBit : Nat := 1
def spiHostEventEnableTxemptyBit : Nat := 1
def spiHostEventEnableRxwmBit : Nat := 2

/-! ## Commands -/

/-- `spi_speed_e` -/
inductive SpiSpeed where
  | kSpiSpeedStandard | kSpiSpeedDual | kSpiSpeedQuad
  deriving DecidableEq, Repr

/-- `spi_dir_e` -/
inductive SpiDir where
  | kSpiDirDummy | kSpiDirRxOnly | kSpiDirTxOnly | kSpiDirBidir
  deriving DecidableEq, Repr

def SpiSpeed.toWord : SpiSpeed → Word
  | kSpiSpeedStandard => 0 | kSpiSpeedDual => 1 | kSpiSpeedQuad => 2

def SpiDir.toWord : SpiDir → Word
  | kSpiDirDummy => 0 | kSpiDirRxOnly => 1 | kSpiDirTxOnly => 2 | kSpiDirBidir => 3

/-- `spi_command_t` -/
structure SpiCommand where
  len : BitVec 24
  csaat : Bool
  speed : SpiSpeed
  direction : SpiDir
  deriving DecidableEq, Repr

def spiCreateCommand (command : SpiCommand) : Word :=
  let cmdReg : Word := 0
  let cmdReg := bitfieldField32Write cmdReg spiHostCommandLenField (command.len.setWidth 32)
  let cmdReg := bitfieldBit32Write cmdReg spiHostCommandCsaatBit command.csaat
  let cmdReg := bitfieldField32Write cmdReg spiHostCommandSpeedField command.speed.toWord
  bitfieldField32Write cmdReg spiHostCommandDirectionField command.direction.toWord

/-! ## spi_host.c -/

def spiSetCommand (cmdReg : Word) : SpiIo Unit := Io.store .command cmdReg

def spiWriteWord (wdata : Word) : SpiIo Unit := Io.store .txData wdata

def spiWaitForReady : SpiIo Unit :=
  Io.wait .status fun status => bitfieldBit32Read status spiHostStatusReadyBit

def spiWaitForTxNotEmpty : SpiIo Unit :=
  Io.wait .status fun status => !bitfieldBit32Read status spiHostStatusTxemptyBit

def spiEnableEvtIntr (enable : Bool) : SpiIo Unit := do
  let intrEnableReg ← Io.load .intrEnable
  Io.store .intrEnable (bitfieldBit32Write intrEnableReg spiHostIntrEnableSpiEventBit enable)

def spiEnableTxemptyIntr (enable : Bool) : SpiIo Unit := do
  let intrEnableReg ← Io.load .eventEnable
  Io.store .eventEnable (bitfieldBit32Write intrEnableReg spiHostEventEnableTxemptyBit enable)

def spiEnableRxwmIntr (enable : Bool) : SpiIo Unit := do
  let intrEnableReg ← Io.load .eventEnable
  Io.store .eventEnable (bitfieldBit32Write intrEnableReg spiHostEventEnableRxwmBit enable)

/-! ## dma.c -/

def dmaSetReadPtr (readPtr : Word) : SpiIo Unit := Io.store .dmaPtrIn readPtr
def dmaSetWritePtr (writePtr : Word) : SpiIo Unit := Io.store .dmaPtrOut writePtr
def dmaSetCntStart (copySize : Word) : SpiIo Unit := Io.store .dmaStart copySize
def dmaSetReadPtrInc (readPtrInc : Word) : SpiIo Unit := Io.store .dmaSrcPtrInc readPtrInc
def dmaSetWritePtrInc (writePtrInc : Word) : SpiIo Unit := Io.store .dmaDstPtrInc writePtrInc
def dmaSetSpiMode (spiMode : Word) : SpiIo Unit := Io.store .dmaSpiMode spiMode
def dmaSetDataType (dataType : Word) : SpiIo Unit := Io.store .dmaDataType dataType

/-! ## fast_intr_ctrl.c -/

inductive FastIntrCtrlResult where
  | kFastIntrCtrlOk | kFastIntrCtrlError
  deriving DecidableEq, Repr

def kDmaFic : Nat := 3
def kSpiFlashFic : Nat := 5

def clearFastInterrupt (fastInterrupt : Nat) : SpiIo FastIntrCtrlResult := do
  Io.store .fastIntrClear (bitfieldBit32Write 0 fastInterrupt true)
  pure .kFastIntrCtrlOk

/-! ## The fields of a command -/

/-- Bit `j` of a command. -/
theorem getLsbD_spiCreateCommand (command : SpiCommand) {j : Nat} (hj : j < 32) :
    (spiCreateCommand command).getLsbD j =
      if 27 ≤ j ∧ j < 29 then command.direction.toWord.getLsbD (j - 27)
      else if 25 ≤ j ∧ j < 27 then command.speed.toWord.getLsbD (j - 25)
      else if j = 24 then command.csaat
      else if j < 24 then command.len.getLsbD j else false := by
  have hlen : ∀ i, i < 32 → (0xffffff : Word).getLsbD i = decide (i < 24) :=
    fun i hi => getLsbD_ones 24 hi
  have htwo : ∀ i, i < 32 → (0x3 : Word).getLsbD i = decide (i < 2) :=
    fun i hi => getLsbD_ones 2 hi
  have hzero : (0 : Word).getLsbD j = false := BitVec.getLsbD_zero
  simp only [spiCreateCommand, getLsbD_bit32Write _ _ _ hj, getLsbD_field32Write _ _ _ hj,
    spiHostCommandLenField, spiHostCommandCsaatBit, spiHostCommandSpeedField,
    spiHostCommandDirectionField, hzero, htwo _ (show j - 27 < 32 by omega),
    htwo _ (show j - 25 < 32 by omega), hlen _ hj, decide_eq_true_eq,
    Nat.sub_zero, Nat.zero_le, true_and, BitVec.getLsbD_setWidth, hj, decide_true, Bool.true_and]
  have hdir : 27 ≤ j ∧ j - 27 < 2 ↔ 27 ≤ j ∧ j < 29 := by omega
  have hspeed : 25 ≤ j ∧ j - 25 < 2 ↔ 25 ≤ j ∧ j < 27 := by omega
  simp only [hdir, hspeed]

theorem spiCreateCommand_len (command : SpiCommand) :
    (bitfieldField32Read (spiCreateCommand command) spiHostCommandLenField).toNat =
      command.len.toNat := by
  have hread : bitfieldField32Read (spiCreateCommand command) spiHostCommandLenField =
      command.len.setWidth 32 := by
    refine BitVec.eq_of_getLsbD_eq fun j hj => ?_
    simp only [bitfieldField32Read, spiHostCommandLenField, BitVec.getLsbD_and,
      BitVec.getLsbD_ushiftRight, Nat.zero_add, BitVec.getLsbD_setWidth, hj, decide_true,
      Bool.true_and, getLsbD_spiCreateCommand command hj,
      show (0xffffff : Word).getLsbD j = decide (j < 24) from getLsbD_ones 24 hj]
    by_cases h : j < 24
    · rw [if_neg (by omega), if_neg (by omega), if_neg (by omega), if_pos h, decide_eq_true h,
        Bool.and_true]
    · rw [decide_eq_false h, Bool.and_false, BitVec.getLsbD_of_ge _ _ (by omega)]
  have hlt := command.len.isLt
  rw [hread, BitVec.toNat_setWidth]
  omega

theorem spiCreateCommand_csaat (command : SpiCommand) :
    bitfieldBit32Read (spiCreateCommand command) spiHostCommandCsaatBit = command.csaat := by
  rw [bit32Read_eq, spiHostCommandCsaatBit, getLsbD_spiCreateCommand command (by omega)]
  rfl

theorem spiCreateCommand_direction (command : SpiCommand) :
    bitfieldField32Read (spiCreateCommand command) spiHostCommandDirectionField =
      command.direction.toWord := by
  refine BitVec.eq_of_getLsbD_eq fun j hj => ?_
  simp only [bitfieldField32Read, spiHostCommandDirectionField, BitVec.getLsbD_and,
    BitVec.getLsbD_ushiftRight, show (0x3 : Word).getLsbD j = decide (j < 2) from getLsbD_ones 2 hj]
  by_cases h : j < 2
  · rw [getLsbD_spiCreateCommand command (by omega), if_pos (by omega), decide_eq_true h,
      Bool.and_true, Nat.add_sub_cancel_left]
  · have hdir : command.direction.toWord.toNat < 2 ^ j := by
      refine Nat.lt_of_lt_of_le ?_ (Nat.pow_le_pow_right Nat.two_pos (Nat.not_lt.mp h))
      cases command.direction <;> decide
    rw [decide_eq_false h, Bool.and_false]
    exact (Nat.testBit_lt_two_pow hdir).symm

end XHeepFemu.Hal
