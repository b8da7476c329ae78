import XHeepFemu.Hal.Uart

/-!
# The console

`write` is `_write` of `lib/runtime/syscalls.c`, which every `printf` ends in.
It initialises the UART anew on each call, and `uart_reset` clears both FIFOs.
`Console` is the firmware's use of the UART: calls of the driver and of `write`
in any order, between which and inside which bytes keep arriving.
-/

namespace XHeepFemu.Runtime

open Lib (Io Sys Label Reach follow reach_of_follow reach_of_checked)
open Hw (UartReg UartEvent)
open Hal

def stdoutFileno : Int := 1

/-- `UART_BAUDRATE` of `pynq-z2.h`. -/
def uartBaudrate : Word := 115200

/-- `freq` is what `soc_ctrl_get_frequency` returns. -/
def write (freq : Word) (file : Int) (data : List Byte) : UartIo Int :=
  if file ≠ stdoutFileno then pure (-1)
  else do
    let err ← uartInit (some { baudrate := uartBaudrate, clkFreqHz := freq })
    if err ≠ .kErrorOk then pure (-1)
    else do
      uartWrite data
      pure data.length

/-- The calls that reach the UART. -/
inductive ConsoleOp where
  | uartGetchar
  | uartPutchar (byte : Byte)
  | uartWrite (data : List Byte)
  | write (freq : Word) (file : Int) (data : List Byte)

/-- A call, with the bytes it returns to its caller. -/
def consoleIo : ConsoleOp → UartIo (List Byte)
  | .uartGetchar => do
    let byte ← Hal.uartGetchar
    pure [byte]
  | .uartPutchar byte => do
    Hal.uartPutchar byte
    pure []
  | .uartWrite data => do
    Hal.uartWrite data
    pure []
  | .write freq file data => do
    let _ ← Runtime.write freq file data
    pure []

abbrev Console := Sys UartReg Word Hw.Uart (List Byte)

abbrev ConsoleLabel := Label UartEvent ConsoleOp

variable (txDepth : Nat)

def Console.next (s : Console) (l : ConsoleLabel) : Option Console :=
  Sys.next (Hw.Uart.device txDepth) consoleIo s l

def Console.init : Console := ⟨.powerOn, none, []⟩

/-- The bytes `uart_getchar` returned so far. -/
def Console.returned (s : Console) : List Byte := s.results.flatten

/-- The next step is a store that clears an RX FIFO with bytes in it. -/
def Drops (s : Console) (l : ConsoleLabel) : Prop :=
  l = .cpu ∧ s.dev.rx ≠ [] ∧
    ∃ v k, s.prog = some (.write .fifoCtrl v k) ∧ v.getLsbD Hw.fifoCtrlRxrstBit = true

/-! ## Programs that do not receive -/

/-- Never loads RDATA and returns no byte. -/
def Quiet (p : UartIo (List Byte)) : Prop :=
  p.Only (· ≠ .rdata) (fun _ _ => True) (· = [])

/-- Drops the result of a program that never loads RDATA. -/
theorem quiet_of_only {α : Type} {p : UartIo α}
    (h : p.Only (· ≠ .rdata) (fun _ _ => True) fun _ => True) :
    Quiet (p.bind fun _ => .ret []) :=
  h.bind fun _ _ => rfl

theorem only_uartPutchar (byte : Byte) :
    (Hal.uartPutchar byte).Only (· ≠ .rdata) (fun _ _ => True) fun _ => True :=
  ⟨nofun, trivial, nofun, trivial⟩

theorem only_uartWrite (data : List Byte) :
    (Hal.uartWrite data).Only (· ≠ .rdata) (fun _ _ => True) fun _ => True := by
  induction data with
  | nil => exact trivial
  | cons byte data ih => exact (only_uartPutchar byte).bind fun _ _ => ih

theorem only_uartInit (uart : Option Hal.Uart) :
    (uartInit uart).Only (· ≠ .rdata) (fun _ _ => True) fun _ => True := by
  unfold uartInit
  rcases uart with _ | uart
  · exact trivial
  · simp only
    split
    · exact trivial
    · split
      · exact trivial
      · exact ⟨trivial, trivial, trivial, trivial, trivial, trivial, trivial, trivial, trivial⟩

theorem only_write (freq : Word) (file : Int) (data : List Byte) :
    (write freq file data).Only (· ≠ .rdata) (fun _ _ => True) fun _ => True := by
  unfold write
  split
  · exact trivial
  · refine (only_uartInit _).bind fun err _ => ?_
    split
    · exact trivial
    · exact (only_uartWrite data).bind fun _ _ => trivial

/-! ## The receive invariant -/

/-- What `uart_getchar` does once a byte is there. -/
def getcharRead : UartIo (List Byte) := uartRxFifoRead.bind fun byte => .ret [byte]

theorem consoleIo_getchar : consoleIo .uartGetchar =
    .poll .status (fun reg => !uartRxEmpty reg) getcharRead := rfl

theorem consoleIo_cases (op : ConsoleOp) :
    consoleIo op = consoleIo .uartGetchar ∨ Quiet (consoleIo op) := by
  cases op with
  | uartGetchar => exact .inl rfl
  | uartPutchar byte => exact .inr (quiet_of_only (only_uartPutchar byte))
  | uartWrite data => exact .inr (quiet_of_only (only_uartWrite data))
  | write freq file data => exact .inr (quiet_of_only (only_write freq file data))

/-- The byte a finished `uart_getchar` has taken and not yet handed over. -/
def held : Option (UartIo (List Byte)) → List Byte
  | some (.ret bs) => bs
  | _ => []

/-- Where the call in progress can be. -/
inductive ProgOk (u : Hw.Uart) : Option (UartIo (List Byte)) → Prop where
  | idle : ProgOk u none
  | quiet {p : UartIo (List Byte)} (h : Quiet p) : ProgOk u (some p)
  | waiting : ProgOk u (some (consoleIo .uartGetchar))
  | reading (h : u.rx ≠ []) : ProgOk u (some getcharRead)
  | done (b : Byte) : ProgOk u (some (.ret [b]))

/-- Every byte that arrived was returned, is held by the call in progress, or waits in
the RX FIFO, in that order. -/
structure RxInv (s : Console) : Prop where
  conserved : s.dev.arrived = s.returned ++ held s.prog ++ s.dev.rx
  prog : ProgOk s.dev s.prog

theorem held_quiet {p : UartIo (List Byte)} (h : Quiet p) : held (some p) = [] := by
  cases p with
  | ret bs => exact h
  | _ => rfl

theorem ProgOk.grow {u v : Hw.Uart} {p : Option (UartIo (List Byte))} (h : ProgOk u p)
    (hrx : u.rx ≠ [] → v.rx ≠ []) : ProgOk v p := by
  cases h with
  | idle => exact .idle
  | quiet h => exact .quiet h
  | waiting => exact .waiting
  | reading h => exact .reading (hrx h)
  | done b => exact .done b

theorem rdata_byte (b : Byte) :
    (⟨(bitfieldField32Read (b.toBitVec.setWidth 32) uartRdataRdataField).setWidth 8⟩ : Byte) = b := by
  have mask : ∀ i : Fin 8, (255#8)[i] = true := by decide
  apply UInt8.eq_of_toBitVec_eq
  apply BitVec.eq_of_getLsbD_eq
  intro i hi
  simp [bitfieldField32Read, uartRdataRdataField, hi]
  exact fun _ => mask ⟨i, hi⟩

/-- One access of a quiet program leaves the receive side alone, if it is no RX reset. -/
theorem exec_quiet {u : Hw.Uart} {p : UartIo (List Byte)} (h : Quiet p) (hret : ∀ a, p ≠ .ret a)
    (hdrop : u.rx ≠ [] → ¬ ∃ v k, p = .write .fifoCtrl v k ∧ v.getLsbD Hw.fifoCtrlRxrstBit = true) :
    (((Hw.Uart.device txDepth).exec u p).1.rx = u.rx ∧
      ((Hw.Uart.device txDepth).exec u p).1.arrived = u.arrived) := by
  cases p with
  | ret a => exact absurd rfl (hret a)
  | read r k =>
    have e : ((Hw.Uart.device txDepth).read u r).1 = u := u.read_rx txDepth h.1
    simp only [Lib.Device.exec, e, and_self]
  | poll r ready k =>
    have e : ((Hw.Uart.device txDepth).read u r).1 = u := u.read_rx txDepth h.1
    simp only [Lib.Device.exec, e, and_self]
  | write r v k =>
    obtain ⟨harr, hrx⟩ := u.write_rx txDepth r v
    refine ⟨?_, harr⟩
    refine hrx.trans ?_
    split
    · rename_i hc
      obtain ⟨rfl, hv⟩ := hc
      by_contra hne
      exact hdrop (fun h0 => hne h0.symm) ⟨v, k, rfl, hv⟩
    · rfl

theorem rxInv_exec {s : Console} {p : UartIo (List Byte)} (hi : RxInv s) (hp : s.prog = some p)
    (hret : ∀ a, p ≠ .ret a) (hdrop : ¬ Drops s .cpu) :
    RxInv { s with
      dev := ((Hw.Uart.device txDepth).exec s.dev p).1
      prog := some ((Hw.Uart.device txDepth).exec s.dev p).2 } := by
  obtain ⟨u, prog, results⟩ := s
  obtain ⟨hcons, hprog⟩ := hi
  obtain rfl : prog = some p := hp
  cases hprog with
  | quiet hq =>
    obtain ⟨hrx, harr⟩ := exec_quiet txDepth (u := u) hq hret fun hne hw => hdrop
      ⟨rfl, hne, by
        obtain ⟨v, k, e, hv⟩ := hw
        exact ⟨v, k, congrArg some e, hv⟩⟩
    have hq' := hq.exec (Hw.Uart.device txDepth) u
    refine ⟨?_, .quiet hq'⟩
    simp only [Console.returned, held_quiet hq] at hcons
    simp only [Console.returned, held_quiet hq', hrx, harr, hcons]
  | waiting =>
    -- STATUS is polled until RXEMPTY reads 0
    have hready : (!uartRxEmpty (u.statusWord txDepth)) = !u.rx.isEmpty := by
      rw [uartRxEmpty, bit32Read_eq, Hw.Uart.statusWord_rxempty]
    simp only [consoleIo_getchar, Lib.Device.exec, Hw.Uart.device, Hw.Uart.read, hready]
    cases hrx : u.rx with
    | nil => exact ⟨hcons, .waiting⟩
    | cons b bs => exact ⟨hcons, .reading (by simp [hrx])⟩
  | reading hne =>
    cases hrx : u.rx with
    | nil => exact absurd hrx hne
    | cons b bs =>
      have hexec : (Hw.Uart.device txDepth).exec u getcharRead =
          ({ u with rx := bs }, .ret [b]) := by
        have hread : (Hw.Uart.device txDepth).read u .rdata =
            ({ u with rx := bs }, b.toBitVec.setWidth 32) := by
          simp only [Hw.Uart.device, Hw.Uart.read, hrx]
        unfold getcharRead
        simp only [Lib.Device.exec, uartRxFifoRead, Io.load, bind, pure, Io.bind, hread, rdata_byte]
      have hheld : held (some getcharRead) = [] := rfl
      rw [hexec]
      refine ⟨?_, .done b⟩
      simp only [Console.returned, hheld, hrx, List.append_nil] at hcons
      simp only [Console.returned, held, hcons, List.append_assoc, List.singleton_append]
  | done b => exact absurd rfl (hret _)

/-- The invariant of the receive side, as long as no byte is cleared. -/
theorem rxInv_next {s t : Console} {l : ConsoleLabel} (hi : RxInv s) (hdrop : ¬ Drops s l)
    (h : s.next txDepth l = some t) : RxInv t := by
  rcases Sys.next_cases _ _ h with ⟨e, d, rfl, he, rfl⟩ | ⟨op, rfl, hp, rfl⟩ | ⟨a, rfl, hp, rfl⟩ |
    ⟨p, rfl, hp, hret, rfl⟩
  · obtain ⟨bs, hrx, harr⟩ := Hw.Uart.env_rx he
    refine ⟨?_, hi.prog.grow fun hne => ?_⟩
    · simp only [harr, hrx, hi.conserved, Console.returned, List.append_assoc]
    · simp [hrx, hne]
  · refine ⟨?_, ?_⟩
    · have hheld : held (some (consoleIo op)) = [] := by
        rcases consoleIo_cases op with e | hq
        · rw [e]; rfl
        · exact held_quiet hq
      simp only [hi.conserved, hp, Console.returned, hheld]
      rfl
    · rcases consoleIo_cases op with e | hq
      · simp only [e]
        exact .waiting
      · exact .quiet hq
  · refine ⟨?_, .idle⟩
    simp only [hi.conserved, hp, Console.returned, held, List.flatten_append, List.flatten_cons,
      List.flatten_nil, List.append_nil]
  · exact rxInv_exec txDepth hi hp hret hdrop

theorem rxInv_init : RxInv .init := ⟨rfl, .idle⟩

/-- **No received byte is lost** in a run that never clears a byte with RXRST: what
`uart_getchar` returned is a prefix of what arrived, in every state of the run. -/
theorem returned_prefix_arrived {s : Console}
    (r : Reach (Console.next txDepth) (fun s l => ¬ Drops s l) .init s) :
    s.returned <+: s.dev.arrived := by
  have hi : RxInv s := r.induct (fun _ _ _ hi hd h => rxInv_next txDepth hi hd h) rxInv_init
  rw [hi.conserved, List.append_assoc]
  exact List.prefix_append _ _

/-- A byte received while the console is idle. -/
def receiveOne (b : Byte) : List ConsoleLabel :=
  [.env (.arrive b), .call .uartGetchar, .cpu, .cpu, .cpu]

/-- One byte printed at 20 MHz: the initialisation, the byte, and the wait for it to be sent. -/
def printOne (b : Byte) : List ConsoleLabel :=
  .call (.write 20000000 stdoutFileno [b]) :: List.replicate 10 .cpu ++
    [.env .txLoad, .env .txDone, .cpu, .cpu]

/-- Nothing has been received, or the next access is no store. -/
def unharmed (s : Console) : Bool :=
  s.dev.rx.isEmpty || match s.prog with
    | some (.write _ _ _) => false
    | _ => true

theorem not_drops_of_unharmed {s : Console} (h : unharmed s = true) (l : ConsoleLabel) :
    ¬ Drops s l := by
  rintro ⟨-, hne, v, k, hprog, -⟩
  unfold unharmed at h
  rw [hprog, Bool.or_false, List.isEmpty_iff] at h
  exact hne h

/-- A `printf` between two messages, when the first has been read and the second is still to come. -/
theorem returned_prefix_arrived_one :
    ∃ s, Reach (Console.next 32) (fun s l => ¬ Drops s l) .init s ∧ s.returned = [97, 98] ∧
      s.dev.line = [62] ∧ s.returned <+: s.dev.arrived := by
  have hrun : follow (fun s l => if unharmed s then Console.next 32 s l else none) .init
      (receiveOne 97 ++ printOne 62 ++ receiveOne 98) = some _ := rfl
  have r := reach_of_checked (fun _ l h => not_drops_of_unharmed h l) hrun
  exact ⟨_, r, rfl, rfl, returned_prefix_arrived 32 r⟩

/-- A message that starts to arrive before a `printf` loses its first byte. -/
theorem printf_drops_byte :
    ∃ s, Reach (Console.next 32) (fun _ _ => True) .init s ∧ s.dev.arrived = [97, 98] ∧
      s.returned = [98] ∧ ¬ s.returned <+: s.dev.arrived := by
  have hrun : follow (Console.next 32) .init
      (.env (.arrive 97) :: printOne 62 ++ receiveOne 98) = some _ := rfl
  refine ⟨_, reach_of_follow hrun fun _ _ _ => trivial, rfl, rfl, ?_⟩
  decide

end XHeepFemu.Runtime
