import XHeepFemu.Hw.WordRam
import XHeepFemu.Hal.SpiHost

/-!
# Flash transfers

`read_from_flash` of `apps/virtual_flash_read` and of `apps/virtual_adc_read`, which differ
in the DMA mode only, and `write_to_flash` of `apps/virtual_flash_write`. A call sends its
command and sets up the DMA (`startRead`, `startWrite`), and then waits for the flag that
the interrupt handler sets.
-/

namespace XHeepFemu.Apps

open Lib (Io)
open Hal

/-- `spi_create_command` at standard speed. -/
def command (len : BitVec 24) (csaat : Bool) (direction : SpiDir) : Word :=
  spiCreateCommand ⟨len, csaat, .kSpiSpeedStandard, direction⟩

/-- `__builtin_bswap32` -/
def bswap32 (w : Word) : Word := ofWordBytes (wordBytes w).reverse

/-- `while (flag == 0) { wait_for_interrupt(); }` -/
def waitForFlag : SpiIo Unit := Io.wait .intrFlag fun flag => flag != 0

/-- `fifo_ptr_rx`, of the SPI host at `base`. -/
def fifoPtrRx (base : Word) : Word := base + spiHostRxdataRegOffset

def fifoPtrTx (base : Word) : Word := base + spiHostTxdataRegOffset

/-! ## Calls -/

/-- `read_from_flash` before it waits. The address is not used: `addr_cmd` is zero. -/
def startRead (spiMode base data byteCount _addr : Word) : SpiIo Unit := do
  let readFromMem : Word := 0x0b
  spiWriteWord readFromMem
  spiSetCommand (command 0 true .kSpiDirTxOnly)
  spiWaitForReady
  let addrCmd : Word := 0x00000000
  spiWriteWord addrCmd
  spiWaitForReady
  spiSetCommand (command 3 true .kSpiDirTxOnly)
  spiWaitForReady
  let dummyCmd : Word := 0x00000000
  spiWriteWord dummyCmd
  spiWaitForReady
  spiSetCommand (command 3 true .kSpiDirTxOnly)
  spiWaitForReady
  let dummyCmd2 : Word := 0x00
  spiWriteWord dummyCmd2
  spiWaitForReady
  spiSetCommand (command 0 true .kSpiDirTxOnly)
  spiWaitForReady
  dmaSetReadPtrInc 0
  dmaSetWritePtrInc 4
  dmaSetReadPtr (fifoPtrRx base)
  dmaSetWritePtr data
  dmaSetSpiMode spiMode
  dmaSetDataType 0
  dmaSetCntStart byteCount
  spiSetCommand (command ((byteCount - 1).setWidth 24) false .kSpiDirRxOnly)
  spiWaitForReady

def readFromFlash (spiMode base data byteCount addr : Word) : SpiIo Unit := do
  startRead spiMode base data byteCount addr
  waitForFlag

/-- `write_to_flash` before it waits. -/
def startWrite (base data byteCount addr : Word) : SpiIo Unit := do
  let writeToMem : Word := 0x02
  spiWriteWord writeToMem
  spiSetCommand (command 0 true .kSpiDirTxOnly)
  spiWaitForReady
  let addrCmd := bswap32 addr
  spiWriteWord addrCmd
  spiSetCommand (command 3 true .kSpiDirTxOnly)
  spiWaitForReady
  dmaSetReadPtrInc 2
  dmaSetWritePtrInc 0
  dmaSetReadPtr data
  dmaSetWritePtr (fifoPtrTx base)
  dmaSetSpiMode 4
  dmaSetDataType 1
  dmaSetCntStart byteCount
  spiWaitForTxNotEmpty
  spiEnableEvtIntr true
  spiEnableTxemptyIntr true
  spiSetCommand (command ((byteCount - 1).setWidth 24) false .kSpiDirTxOnly)
  spiWaitForReady

def writeToFlash (base data byteCount addr : Word) : SpiIo Unit := do
  startWrite base data byteCount addr
  waitForFlag

/-! ## Interrupt handlers -/

def handlerIrqFastDma : SpiIo Unit := do
  let _ ← clearFastInterrupt kDmaFic
  Io.store .intrFlag 1

def handlerIrqFastSpiFlash : SpiIo Unit := do
  spiEnableEvtIntr false
  spiEnableRxwmIntr false
  let _ ← clearFastInterrupt kSpiFlashFic
  Io.store .intrFlag 1

theorem wordBytes_bswap32 (w : Word) : wordBytes (bswap32 w) = (wordBytes w).reverse := by
  have hbyte : ∀ k < 4, wordByte (bswap32 w) k = wordByte w (3 - k) := fun k hk => by
    refine (wordByte_ofWordBytes _ _ _ _ hk).trans ?_
    match k with
    | 0 | 1 | 2 | 3 => rfl
  show [wordByte (bswap32 w) 0, wordByte (bswap32 w) 1, wordByte (bswap32 w) 2,
    wordByte (bswap32 w) 3] = [wordByte w 3, wordByte w 2, wordByte w 1, wordByte w 0]
  rw [hbyte 0 (by omega), hbyte 1 (by omega), hbyte 2 (by omega), hbyte 3 (by omega)]

end XHeepFemu.Apps
