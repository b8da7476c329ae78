import XHeepFemu.Lib.Mmio
import XHeepFemu.Hw.MemMap

/-!
# The UART

The registers of `uart_regs.h` the driver touches and the state behind them:
the two FIFOs, the transmit shift register and the control register. `arrived`
and `line` are the histories of the two wires. The RX FIFO has no bound: an
overflow never happens.
-/

namespace XHeepFemu.Hw

open Lib (Device)

inductive UartReg where
  | intrState
  | intrEnable
  | ctrl
  | status
  | rdata
  | wdata
  | fifoCtrl
  | ovrd
  | timeoutCtrl
  deriving DecidableEq, Repr

structure Uart where
  /-- RX FIFO, oldest first. -/
  rx : List Byte
  /-- TX FIFO, oldest first. -/
  tx : List Byte
  /-- The byte being sent. -/
  shift : Option Byte
  ctrl : Word
  /-- Bytes received so far. -/
  arrived : List Byte
  /-- Bytes sent so far. -/
  line : List Byte
  deriving DecidableEq

/-- State at power-up. -/
def Uart.powerOn : Uart := ⟨[], [], none, 0, [], []⟩

/-- What the UART does by itself. -/
inductive UartEvent where
  /-- A byte arrives on the RX line. -/
  | arrive (b : Byte)
  /-- The transmitter takes the next byte of the TX FIFO. -/
  | txLoad
  /-- The transmitter has sent its byte. -/
  | txDone
  deriving DecidableEq, Repr

def ctrlTxBit : Nat := 0
def ctrlNcoOffset : Nat := 16
def statusTxfullBit : Nat := 0
def statusTxidleBit : Nat := 3
def statusRxemptyBit : Nat := 5
def fifoCtrlRxrstBit : Nat := 0
def fifoCtrlTxrstBit : Nat := 1

/-- With this word in CTRL the transmitter is on and its baud rate generator ticks. -/
def transmits (ctrl : Word) : Bool := ctrl.getLsbD ctrlTxBit && ctrl >>> ctrlNcoOffset != 0

namespace Uart

variable (txDepth : Nat)

def txOn (u : Uart) : Bool := transmits u.ctrl

def txIdle (u : Uart) : Bool := u.tx.isEmpty && u.shift.isNone

def statusWord (u : Uart) : Word :=
  (BitVec.ofBool (txDepth ≤ u.tx.length)).setWidth 32 <<< statusTxfullBit |||
    (BitVec.ofBool u.txIdle).setWidth 32 <<< statusTxidleBit |||
    (BitVec.ofBool u.rx.isEmpty).setWidth 32 <<< statusRxemptyBit

def read (u : Uart) : UartReg → Uart × Word
  | .status => (u, u.statusWord txDepth)
  | .ctrl => (u, u.ctrl)
  | .rdata =>
    match u.rx with
    | [] => (u, 0)
    | b :: bs => ({ u with rx := bs }, b.toBitVec.setWidth 32)
  | _ => (u, 0)

def write (u : Uart) : UartReg → Word → Uart
  | .ctrl, v => { u with ctrl := v }
  | .fifoCtrl, v =>
    { u with
      rx := if v.getLsbD fifoCtrlRxrstBit then [] else u.rx
      tx := if v.getLsbD fifoCtrlTxrstBit then [] else u.tx }
  | .wdata, v =>
    if txDepth ≤ u.tx.length then u else { u with tx := u.tx ++ [⟨v.setWidth 8⟩] }
  | _, _ => u

def env (u : Uart) : UartEvent → Option Uart
  | .arrive b => some { u with rx := u.rx ++ [b], arrived := u.arrived ++ [b] }
  | .txLoad =>
    match u.shift, u.tx with
    | none, b :: bs =>
      if u.txOn then some { u with shift := some b, tx := bs } else none
    | _, _ => none
  | .txDone =>
    match u.shift with
    | some b => some { u with shift := none, line := u.line ++ [b] }
    | none => none

def device : Device UartReg Word Uart UartEvent where
  read := read txDepth
  write := write txDepth
  env := env

theorem env_cases {u v : Uart} {e : UartEvent} (h : u.env e = some v) :
    (∃ b, e = .arrive b ∧ v = { u with rx := u.rx ++ [b], arrived := u.arrived ++ [b] }) ∨
    (∃ b bs, e = .txLoad ∧ u.shift = none ∧ u.tx = b :: bs ∧
      v = { u with shift := some b, tx := bs }) ∨
    (∃ b, e = .txDone ∧ u.shift = some b ∧
      v = { u with shift := none, line := u.line ++ [b] }) := by
  rcases e with b | _ | _
  · exact .inl ⟨b, rfl, (Option.some.inj h).symm⟩
  · simp only [env] at h
    split at h
    · rename_i b bs hshift htx
      split at h
      · exact .inr (.inl ⟨b, bs, rfl, hshift, htx, (Option.some.inj h).symm⟩)
      · cases h
    · cases h
  · simp only [env] at h
    split at h
    · rename_i b hshift
      exact .inr (.inr ⟨b, rfl, hshift, (Option.some.inj h).symm⟩)
    · cases h

/-! ## The receive side -/

theorem write_rx (u : Uart) (r : UartReg) (v : Word) :
    (u.write txDepth r v).arrived = u.arrived ∧
      (u.write txDepth r v).rx =
        if r = .fifoCtrl ∧ v.getLsbD fifoCtrlRxrstBit then [] else u.rx := by
  cases r with
  | wdata =>
    simp only [write]
    split <;> simp
  | fifoCtrl => simp [write]
  | _ => simp [write]

/-- Only RDATA takes a byte out of the RX FIFO. -/
theorem read_rx (u : Uart) {r : UartReg} (h : r ≠ .rdata) : (u.read txDepth r).1 = u := by
  cases r with
  | rdata => exact absurd rfl h
  | _ => rfl

/-- An event appends a byte to both the RX FIFO and the history, or to neither. -/
theorem env_rx {u v : Uart} {e : UartEvent} (h : u.env e = some v) :
    ∃ bs, v.rx = u.rx ++ bs ∧ v.arrived = u.arrived ++ bs := by
  rcases env_cases h with ⟨b, -, rfl⟩ | ⟨b, bs, -, -, -, rfl⟩ | ⟨b, -, -, rfl⟩
  · exact ⟨[b], rfl, rfl⟩
  · exact ⟨[], (List.append_nil _).symm, (List.append_nil _).symm⟩
  · exact ⟨[], (List.append_nil _).symm, (List.append_nil _).symm⟩

theorem statusWord_rxempty (u : Uart) :
    (u.statusWord txDepth).getLsbD statusRxemptyBit = u.rx.isEmpty := by
  simp [statusWord, statusTxfullBit, statusTxidleBit, statusRxemptyBit]

/-! ## The transmit side -/

/-- The bytes stored to WDATA and not yet sent, in order. -/
def inTransit (u : Uart) : List Byte := u.shift.toList ++ u.tx

theorem txIdle_iff (u : Uart) : u.txIdle = true ↔ u.inTransit = [] := by
  unfold txIdle inTransit
  cases u.shift <;> simp

theorem read_tx (u : Uart) (r : UartReg) :
    (u.read txDepth r).1.line = u.line ∧ (u.read txDepth r).1.inTransit = u.inTransit := by
  cases r with
  | rdata =>
    simp only [read]
    split <;> exact ⟨rfl, rfl⟩
  | _ => exact ⟨rfl, rfl⟩

theorem env_tx {u v : Uart} {e : UartEvent} (h : u.env e = some v) :
    v.line ++ v.inTransit = u.line ++ u.inTransit ∧ (u.inTransit = [] → v.inTransit = []) := by
  rcases env_cases h with ⟨b, -, rfl⟩ | ⟨b, bs, -, hshift, htx, rfl⟩ | ⟨b, -, hshift, rfl⟩
  · exact ⟨rfl, id⟩
  · simp [inTransit, hshift, htx]
  · simp [inTransit, hshift]

theorem write_wdata (u : Uart) (v : Word) (h : u.tx.length < txDepth) :
    (u.write txDepth .wdata v).line = u.line ∧
      (u.write txDepth .wdata v).inTransit = u.inTransit ++ [⟨v.setWidth 8⟩] := by
  simp only [write, if_neg (Nat.not_le.mpr h), true_and]
  exact (List.append_assoc _ _ _).symm

/-- A reset of the FIFOs finds nothing to send in an idle transmitter. -/
theorem write_fifoCtrl_tx (u : Uart) (v : Word) (h : u.inTransit = []) :
    (u.write txDepth .fifoCtrl v).line = u.line ∧
      (u.write txDepth .fifoCtrl v).inTransit = [] := by
  obtain ⟨hshift, htx⟩ := List.append_eq_nil_iff.mp h
  simp [write, inTransit, hshift, htx]

/-- Every other store leaves the bytes to send alone. -/
theorem write_tx (u : Uart) {r : UartReg} (hr : r ≠ .wdata) (hr' : r ≠ .fifoCtrl) (v : Word) :
    (u.write txDepth r v).line = u.line ∧ (u.write txDepth r v).inTransit = u.inTransit := by
  cases r with
  | wdata => exact absurd rfl hr
  | fifoCtrl => exact absurd rfl hr'
  | _ => exact ⟨rfl, rfl⟩

theorem read_txOn (u : Uart) (r : UartReg) : (u.read txDepth r).1.txOn = u.txOn := by
  cases r with
  | rdata =>
    simp only [read]
    split <;> rfl
  | _ => rfl

theorem write_txOn (u : Uart) (r : UartReg) (v : Word) :
    (u.write txDepth r v).txOn = if r = .ctrl then transmits v else u.txOn := by
  cases r with
  | wdata =>
    simp only [write]
    split <;> rfl
  | _ => rfl

theorem env_txOn {u v : Uart} {e : UartEvent} (h : u.env e = some v) : v.txOn = u.txOn := by
  rcases env_cases h with ⟨b, -, rfl⟩ | ⟨b, bs, -, -, -, rfl⟩ | ⟨b, -, -, rfl⟩ <;> rfl

theorem statusWord_txidle (u : Uart) :
    (u.statusWord txDepth).getLsbD statusTxidleBit = u.txIdle := by
  simp [statusWord, statusTxfullBit, statusTxidleBit, statusRxemptyBit]

theorem statusWord_txfull (u : Uart) :
    (u.statusWord txDepth).getLsbD statusTxfullBit = decide (txDepth ≤ u.tx.length) := by
  simp [statusWord, statusTxfullBit, statusTxidleBit, statusRxemptyBit]

end Uart

end XHeepFemu.Hw
