import XHeepFemu.Hal.Bitfield
import XHeepFemu.Hw.Uart

/-!
# UART driver

The functions of `lib/hal/uart/uart.c`, as programs over the UART registers.
-/

namespace XHeepFemu.Hal

open Lib (Io)
open Hw (UartReg)

/-- The fields of `uart_t` that configure the baud rate. -/
structure Uart where
  baudrate : Word
  clkFreqHz : Word
  deriving DecidableEq, Repr

inductive SystemError where
  | kErrorOk
  | kErrorUartInvalidArgument
  | kErrorUartBadBaudRate
  deriving DecidableEq, Repr

abbrev UartIo := Io UartReg Word

def ncoWidth : Nat := 16
def uartCtrlNcoMask : Word := 0xffff
def uartCtrlNcoField : BitfieldField32 := ⟨uartCtrlNcoMask, 16⟩
def uartCtrlTxBit : Nat := 0
def uartCtrlRxBit : Nat := 1
def uartCtrlParityEnBit : Nat := 6
def uartRdataRdataField : BitfieldField32 := ⟨0xff, 0⟩
def uartWdataWdataField : BitfieldField32 := ⟨0xff, 0⟩

/-- The word `uart_reset` writes to FIFO_CTRL. -/
def uartFifoReset : Word :=
  let reg := 0
  let reg := bitfieldBit32Write reg Hw.fifoCtrlRxrstBit true
  bitfieldBit32Write reg Hw.fifoCtrlTxrstBit true

def uartReset : UartIo Unit := do
  Io.store .ctrl 0
  -- clears both FIFOs
  Io.store .fifoCtrl uartFifoReset
  Io.store .ovrd 0
  Io.store .timeoutCtrl 0
  Io.store .intrEnable 0
  Io.store .intrState 0xffffffff

/-- `(baudrate << 20) / clk_freq_hz` in 64 bits. -/
def uartNco (uart : Uart) : BitVec 64 :=
  (uart.baudrate.setWidth 64 <<< (ncoWidth + 4)) / uart.clkFreqHz.setWidth 64

/-- The word `uart_init` writes to CTRL. -/
def uartCtrlWord (ncoMasked : Word) : Word :=
  let reg := 0
  let reg := bitfieldField32Write reg uartCtrlNcoField ncoMasked
  let reg := bitfieldBit32Write reg uartCtrlTxBit true
  let reg := bitfieldBit32Write reg uartCtrlParityEnBit false
  bitfieldBit32Write reg uartCtrlRxBit true

/-- `none` is the null pointer. -/
def uartInit : Option Uart → UartIo SystemError
  | none => pure .kErrorUartInvalidArgument
  | some uart =>
    if uart.baudrate = 0 ∨ uart.clkFreqHz = 0 then pure .kErrorUartInvalidArgument
    else
      let nco := uartNco uart
      let ncoMasked : Word := (nco &&& uartCtrlNcoMask.setWidth 64).setWidth 32
      if nco ≠ ncoMasked.setWidth 64 then pure .kErrorUartBadBaudRate
      else do
        uartReset
        Io.store .ctrl (uartCtrlWord ncoMasked)
        Io.store .intrEnable 0
        pure .kErrorOk

def uartTxFull (reg : Word) : Bool := bitfieldBit32Read reg Hw.statusTxfullBit
def uartTxIdle (reg : Word) : Bool := bitfieldBit32Read reg Hw.statusTxidleBit
def uartRxEmpty (reg : Word) : Bool := bitfieldBit32Read reg Hw.statusRxemptyBit

def uartPutchar (byte : Byte) : UartIo Unit := do
  Io.wait .status fun reg => !uartTxFull reg
  Io.store .wdata (bitfieldField32Write 0 uartWdataWdataField (byte.toBitVec.setWidth 32))
  Io.wait .status uartTxIdle

def uartRxFifoRead : UartIo Byte := do
  let reg ← Io.load .rdata
  pure ⟨(bitfieldField32Read reg uartRdataRdataField).setWidth 8⟩

def uartGetchar : UartIo Byte := do
  Io.wait .status fun reg => !uartRxEmpty reg
  uartRxFifoRead

def uartWrite : List Byte → UartIo Unit
  | [] => pure ()
  | byte :: data => do
    uartPutchar byte
    uartWrite data

end XHeepFemu.Hal
