import XHeepFemu.Hal.UartConfig
import XHeepFemu.Runtime.Console

/-!
# The transmit side of the console

Every driver call waits for the transmitter to be idle before it returns, so that a
later `uart_reset`, which clears the TX FIFO, finds nothing in it. `Sends` is that
argument for one program: `idle` says whether the transmitter is known to be idle,
and the list is what the rest of the program still stores to WDATA.
-/

namespace XHeepFemu.Runtime

open Lib (Io Sys Label Reach follow reach_of_follow)
open Hw (UartReg UartEvent)
open Hal

/-- The calls that transmit, or set the transmitter up. -/
inductive TransmitOp where
  | uartInit (uart : Option Hal.Uart)
  | uartPutchar (byte : Byte)
  | uartWrite (data : List Byte)
  | write (freq : Word) (file : Int) (data : List Byte)

namespace TransmitOp

def io : TransmitOp → UartIo Unit
  | .uartInit uart => do
    let _ ← Hal.uartInit uart
    pure ()
  | .uartPutchar byte => Hal.uartPutchar byte
  | .uartWrite data => Hal.uartWrite data
  | .write freq file data => do
    let _ ← Runtime.write freq file data
    pure ()

/-- The bytes passed in. -/
def bytes : TransmitOp → List Byte
  | .uartInit _ => []
  | .uartPutchar byte => [byte]
  | .uartWrite data => data
  | .write _ _ data => data

/-- The transmitter runs, once the call has initialised it; `on` says whether it did before. -/
def Transmits (on : Bool) : TransmitOp → Prop
  | .uartInit uart => ∃ u, uart = some u ∧ 1 ≤ nco u
  | .uartPutchar _ | .uartWrite _ => on = true
  | .write _ _ _ => True

end TransmitOp

/-- `uart_init` accepts the configuration. -/
def ValidConfig (uart : Hal.Uart) : Prop :=
  uart.baudrate ≠ 0 ∧ uart.clkFreqHz ≠ 0 ∧
    uartNco uart = ((uartNco uart &&& uartCtrlNcoMask.setWidth 64).setWidth 32 : Word).setWidth 64

/-- A call with a valid configuration; `_write` is one to the standard output. -/
def TransmitOp.Valid : TransmitOp → Prop
  | .uartInit uart => ∃ u, uart = some u ∧ ValidConfig u
  | .uartPutchar _ | .uartWrite _ => True
  | .write freq file _ =>
    file = stdoutFileno ∧ ValidConfig { baudrate := uartBaudrate, clkFreqHz := freq }

/-- The firmware and its UART, and the bytes passed to its calls so far. -/
structure Transmit where
  sys : Sys UartReg Word Hw.Uart Unit
  passed : List Byte

abbrev TransmitLabel := Label UartEvent TransmitOp

variable (txDepth : Nat)

def Transmit.next (s : Transmit) (l : TransmitLabel) : Option Transmit :=
  (Sys.next (Hw.Uart.device txDepth) TransmitOp.io s.sys l).map fun sys =>
    match l with
    | .call op => ⟨sys, s.passed ++ op.bytes⟩
    | _ => ⟨sys, s.passed⟩

/-- The UART `u` before any call. -/
def Transmit.init (u : Hw.Uart) : Transmit := ⟨⟨u, none, []⟩, []⟩

def ValidCall (_s : Transmit) (l : TransmitLabel) : Prop := ∀ op, l = .call op → op.Valid

/-- A call finds the transmitter running, or makes it run. -/
def Configured (s : Transmit) (l : TransmitLabel) : Prop :=
  ∀ op, l = .call op → op.Transmits s.sys.dev.txOn

/-- No new call. -/
def Silent (_s : Transmit) (l : TransmitLabel) : Prop := ∀ op, l ≠ .call op

/-- What the line shows of what was passed. -/
structure LineOk (s : Transmit) : Prop where
  /-- Between calls everything has been sent. -/
  complete : s.sys.prog = none → s.sys.dev.line = s.passed
  /-- At any time the line is a beginning of what was passed, and the UART holds what follows. -/
  ordered : s.sys.dev.line ++ s.sys.dev.inTransit <+: s.passed
  /-- A reset, of the FIFOs or of CTRL, discards nothing. -/
  harmless : ∀ r v k, s.sys.prog = some (.write r v k) → r = .ctrl ∨ r = .fifoCtrl →
    s.sys.dev.txIdle = true

/-! ## What a program sends -/

def notFull (reg : Word) : Bool := !uartTxFull reg

/-- Stores these bytes to WDATA, in this order, and resets the transmitter only while it is
known to be idle. -/
def Sends {α : Type} (post : α → Prop) : Bool → List Byte → UartIo α → Prop
  | idle, bs, .ret a => idle = true ∧ bs = [] ∧ post a
  | idle, bs, .read _ k => ∀ v, Sends post idle bs (k v)
  | idle, bs, .write r v k =>
    match r with
    | .wdata => idle = true ∧ 0 < txDepth ∧ ∃ bs', bs = ⟨v.setWidth 8⟩ :: bs' ∧
        Sends post false bs' k
    | .ctrl | .fifoCtrl => idle = true ∧ Sends post true bs k
    | _ => Sends post idle bs k
  | idle, bs, .poll r ready k => r = .status ∧
      -- a TX FIFO with room has an entry at all
      (ready = notFull ∧ idle = true ∧ (0 < txDepth → Sends post true bs k) ∨
        ready = uartTxIdle ∧ Sends post true bs k)

variable {txDepth}

theorem Sends.bind {α β : Type} {p : UartIo α} {f : α → UartIo β} {post : α → Prop}
    {post' : β → Prop} {idle : Bool} {bs bs' : List Byte} (hp : Sends txDepth post idle bs p)
    (hf : ∀ a, post a → Sends txDepth post' true bs' (f a)) :
    Sends txDepth post' idle (bs ++ bs') (p.bind f) := by
  induction p generalizing idle bs with
  | ret a =>
    obtain ⟨rfl, rfl, ha⟩ := hp
    exact hf a ha
  | read r k ih => exact fun v => ih v (hp v)
  | write r v k ih =>
    cases r with
    | wdata =>
      obtain ⟨hidle, hdepth, rest, rfl, h⟩ := hp
      exact ⟨hidle, hdepth, rest ++ bs', rfl, ih h⟩
    | ctrl => exact ⟨hp.1, ih hp.2⟩
    | fifoCtrl => exact ⟨hp.1, ih hp.2⟩
    | _ => exact ih hp
  | poll r ready k ih =>
    obtain ⟨hr, ⟨hready, hidle, h⟩ | ⟨hready, h⟩⟩ := hp
    · exact ⟨hr, .inl ⟨hready, hidle, fun hdepth => ih (h hdepth)⟩⟩
    · exact ⟨hr, .inr ⟨hready, ih h⟩⟩

theorem Sends.discard {α β : Type} {p : UartIo α} {post : α → Prop} {post' : β → Prop}
    {idle : Bool} {bs : List Byte} {b : β} (hp : Sends txDepth post idle bs p) (hb : post' b) :
    Sends txDepth post' idle bs (p.bind fun _ => .ret b) := by
  have hret : ∀ a, post a → Sends txDepth post' true [] (.ret b) := fun _ _ => ⟨rfl, rfl, hb⟩
  have h := hp.bind hret
  rwa [List.append_nil] at h

theorem wdata_byte (b : Byte) :
    (⟨(bitfieldField32Write 0 uartWdataWdataField (b.toBitVec.setWidth 32)).setWidth 8⟩ : Byte) =
      b := by
  have mask : ∀ i : Fin 8, (255#8)[i] = true := by decide
  apply UInt8.eq_of_toBitVec_eq
  apply BitVec.eq_of_getLsbD_eq
  intro i hi
  simp [bitfieldField32Write, uartWdataWdataField, hi]
  exact fun _ => mask ⟨i, hi⟩

theorem sends_uartPutchar (byte : Byte) :
    Sends txDepth (fun _ => True) true [byte] (Hal.uartPutchar byte) := by
  refine ⟨rfl, .inl ⟨rfl, rfl, fun hdepth => ⟨rfl, hdepth, [], ?_, rfl, .inr ⟨rfl, rfl, rfl, trivial⟩⟩⟩⟩
  rw [wdata_byte]

theorem sends_uartWrite (data : List Byte) :
    Sends txDepth (fun _ => True) true data (Hal.uartWrite data) := by
  induction data with
  | nil => exact ⟨rfl, rfl, trivial⟩
  | cons byte data ih => exact (sends_uartPutchar byte).bind fun _ _ => ih

theorem sends_uartInit {uart : Hal.Uart} (h : ValidConfig uart) :
    Sends txDepth (· = .kErrorOk) true [] (Hal.uartInit (some uart)) := by
  obtain ⟨hbaud, hfreq, hnco⟩ := h
  unfold Hal.uartInit
  simp only
  rw [if_neg (not_or.mpr ⟨hbaud, hfreq⟩), if_neg (not_not.mpr hnco)]
  exact ⟨rfl, rfl, rfl, rfl, rfl, rfl⟩

theorem sends_write {freq : Word} (data : List Byte)
    (h : ValidConfig { baudrate := uartBaudrate, clkFreqHz := freq }) :
    Sends txDepth (fun _ => True) true data (Runtime.write freq stdoutFileno data) := by
  unfold Runtime.write
  rw [if_neg (not_not.mpr rfl)]
  refine (sends_uartInit h).bind fun err herr => ?_
  subst herr
  rw [if_neg (not_not.mpr rfl)]
  exact (sends_uartWrite data).discard trivial

/-- A valid call sends the bytes passed to it. -/
theorem sends_io {op : TransmitOp} (h : op.Valid) :
    Sends txDepth (fun _ => True) true op.bytes op.io := by
  cases op with
  | uartInit uart =>
    obtain ⟨u, rfl, hu⟩ := h
    exact (sends_uartInit hu).discard trivial
  | uartPutchar byte => exact sends_uartPutchar byte
  | uartWrite data => exact sends_uartWrite data
  | write freq file data =>
    obtain ⟨rfl, hu⟩ := h
    exact (sends_write data hu).discard trivial

/-! ## The transmit invariant -/

variable (txDepth) in
/-- What was passed is on the line, in the UART, or still to be stored, in that order. -/
structure TxInv (s : Transmit) (idle : Bool) (bs : List Byte) : Prop where
  conserved : s.passed = s.sys.dev.line ++ s.sys.dev.inTransit ++ bs
  known : idle = true → s.sys.dev.inTransit = []
  prog : ∀ p, s.sys.prog = some p → Sends txDepth (fun _ => True) idle bs p
  between : s.sys.prog = none → idle = true ∧ bs = []

theorem uartTxIdle_statusWord (u : Hw.Uart) :
    uartTxIdle (u.statusWord txDepth) = u.txIdle := by
  rw [uartTxIdle, bit32Read_eq, Hw.Uart.statusWord_txidle]

theorem notFull_statusWord (u : Hw.Uart) :
    notFull (u.statusWord txDepth) = true ↔ u.tx.length < txDepth := by
  rw [notFull, uartTxFull, bit32Read_eq, Hw.Uart.statusWord_txfull]
  simp

/-- One access of a program that sends `bs` leaves it to send what it did not send. -/
theorem sends_exec {u : Hw.Uart} {p : UartIo Unit} {idle : Bool} {bs : List Byte}
    (hp : Sends txDepth (fun _ => True) idle bs p) (hret : ∀ a, p ≠ .ret a)
    (hidle : idle = true → u.inTransit = []) :
    ∃ idle' bs', Sends txDepth (fun _ => True) idle' bs' ((Hw.Uart.device txDepth).exec u p).2 ∧
      (idle' = true → ((Hw.Uart.device txDepth).exec u p).1.inTransit = []) ∧
      ((Hw.Uart.device txDepth).exec u p).1.line ++
        ((Hw.Uart.device txDepth).exec u p).1.inTransit ++ bs' = u.line ++ u.inTransit ++ bs := by
  cases p with
  | ret a => exact absurd rfl (hret a)
  | read r k =>
    obtain ⟨hline, htx⟩ := u.read_tx txDepth r
    refine ⟨idle, bs, hp _, fun h => htx.trans (hidle h), ?_⟩
    simp only [Lib.Device.exec, Hw.Uart.device, hline, htx]
  | poll r ready k =>
    obtain ⟨rfl, hp⟩ := hp
    rcases hp with ⟨rfl, rfl, hk⟩ | ⟨rfl, hk⟩
    · refine ⟨true, bs, ?_⟩
      cases hready : notFull (u.statusWord txDepth) with
      | true =>
        rw [Lib.Device.exec_poll_ready hready]
        exact ⟨hk (Nat.zero_lt_of_lt ((notFull_statusWord u).mp hready)), hidle, rfl⟩
      | false =>
        rw [Lib.Device.exec_poll_wait hready]
        exact ⟨⟨rfl, .inl ⟨rfl, rfl, hk⟩⟩, hidle, rfl⟩
    · cases hready : uartTxIdle (u.statusWord txDepth) with
      | true =>
        -- TXIDLE reads 1: the transmitter is known to be idle from here on
        rw [Lib.Device.exec_poll_ready hready]
        rw [uartTxIdle_statusWord] at hready
        exact ⟨true, bs, hk, fun _ => u.txIdle_iff.mp hready, rfl⟩
      | false =>
        rw [Lib.Device.exec_poll_wait hready]
        exact ⟨idle, bs, ⟨rfl, .inr ⟨rfl, hk⟩⟩, hidle, rfl⟩
  | write r v k =>
    have other (hr : r ≠ .wdata) (hr' : r ≠ .fifoCtrl)
        (h : Sends txDepth (fun _ => True) idle bs k) :
        ∃ idle' bs', Sends txDepth (fun _ => True) idle' bs' k ∧
          (idle' = true → (u.write txDepth r v).inTransit = []) ∧
          (u.write txDepth r v).line ++ (u.write txDepth r v).inTransit ++ bs' =
            u.line ++ u.inTransit ++ bs := by
      obtain ⟨hline, htx⟩ := u.write_tx txDepth hr hr' v
      exact ⟨idle, bs, h, fun h => htx.trans (hidle h), by rw [hline, htx]⟩
    cases r with
    | wdata =>
      obtain ⟨rfl, hdepth, bs', rfl, hk⟩ := hp
      obtain ⟨-, htx⟩ := List.append_eq_nil_iff.mp (hidle rfl)
      have hroom : u.tx.length < txDepth := by rw [htx]; exact hdepth
      obtain ⟨hline, hsend⟩ := u.write_wdata txDepth v hroom
      refine ⟨false, bs', hk, fun h => absurd h Bool.false_ne_true, ?_⟩
      simp only [Lib.Device.exec, Hw.Uart.device, hline, hsend, List.append_assoc,
        List.singleton_append]
    | fifoCtrl =>
      obtain ⟨rfl, hk⟩ := hp
      obtain ⟨hline, htx⟩ := u.write_fifoCtrl_tx txDepth v (hidle rfl)
      refine ⟨true, bs, hk, fun _ => htx, ?_⟩
      simp only [Lib.Device.exec, Hw.Uart.device, hline, htx, hidle rfl]
    | ctrl =>
      obtain ⟨rfl, hk⟩ := hp
      exact other (by decide) (by decide) hk
    | _ => exact other (by decide) (by decide) hp

/-- The transmit invariant is kept by every step. -/
theorem txInv_next {s t : Transmit} {l : TransmitLabel} {idle : Bool} {bs : List Byte}
    (hi : TxInv txDepth s idle bs) (hcall : ValidCall s l)
    (h : s.next txDepth l = some t) : ∃ idle' bs', TxInv txDepth t idle' bs' := by
  obtain ⟨hcons, hknown, hprog, hbetween⟩ := hi
  obtain ⟨sys, hsys, rfl⟩ := Option.map_eq_some_iff.mp h
  rcases Sys.next_cases _ _ hsys with ⟨e, d, rfl, he, rfl⟩ | ⟨op, rfl, hp, rfl⟩ |
    ⟨a, rfl, hp, rfl⟩ | ⟨p, rfl, hp, hret, rfl⟩
  · obtain ⟨hmoved, hidle⟩ := Hw.Uart.env_tx he
    exact ⟨idle, bs, by rw [hcons, ← hmoved], fun h => hidle (hknown h), hprog, hbetween⟩
  · obtain ⟨rfl, rfl⟩ := hbetween hp
    refine ⟨true, op.bytes, ?_, hknown, ?_, nofun⟩
    · simp only [hcons, List.append_nil]
    · rintro p ⟨⟩
      exact sends_io (hcall op rfl)
  · obtain ⟨hidle, hbs, -⟩ := hprog _ hp
    exact ⟨idle, bs, hcons, hknown, nofun, fun _ => ⟨hidle, hbs⟩⟩
  · obtain ⟨idle', bs', hp', hidle', hmoved⟩ := sends_exec (u := s.sys.dev) (hprog p hp) hret hknown
    refine ⟨idle', bs', hcons.trans hmoved.symm, hidle', ?_, nofun⟩
    rintro q ⟨⟩
    exact hp'

theorem txInv_init {u : Hw.Uart} (hidle : u.txIdle = true) (hline : u.line = []) :
    TxInv txDepth (.init u) true [] := by
  have h := u.txIdle_iff.mp hidle
  refine ⟨?_, fun _ => h, nofun, fun _ => ⟨rfl, rfl⟩⟩
  simp only [Transmit.init, hline, h, List.append_nil]

theorem TxInv.lineOk {s : Transmit} {idle : Bool} {bs : List Byte}
    (hi : TxInv txDepth s idle bs) : LineOk s := by
  obtain ⟨hcons, hknown, hprog, hbetween⟩ := hi
  refine ⟨fun hp => ?_, ⟨bs, hcons.symm⟩, fun r v k hp hr => ?_⟩
  · obtain ⟨rfl, rfl⟩ := hbetween hp
    rw [hcons, hknown rfl, List.append_nil, List.append_nil]
  · apply (Hw.Uart.txIdle_iff _).mpr
    rcases hr with rfl | rfl
    · exact hknown (hprog _ hp).1
    · exact hknown (hprog _ hp).1

/-! ## Every call comes to its end -/

/-- Never waits while the transmitter is off, and leaves it on; `on` says whether it is. -/
def Enables {α : Type} : Bool → UartIo α → Prop
  | on, .ret _ => on = true
  | on, .read _ k => ∀ v, Enables on (k v)
  | on, .write r v k => Enables (if r = .ctrl then Hw.transmits v else on) k
  | on, .poll _ _ k => on = true ∧ Enables on k

theorem Enables.bind {α β : Type} {p : UartIo α} {f : α → UartIo β} {on : Bool}
    (hp : Enables on p) (hf : ∀ a, Enables true (f a)) : Enables on (p.bind f) := by
  induction p generalizing on with
  | ret a =>
    obtain rfl : on = true := hp
    exact hf a
  | read r k ih => exact fun v => ih v (hp v)
  | write r v k ih => exact ih hp
  | poll r ready k ih => exact ⟨hp.1, ih hp.2⟩

theorem enables_uartPutchar (byte : Byte) : Enables true (Hal.uartPutchar byte) :=
  ⟨rfl, rfl, rfl⟩

theorem enables_uartWrite (data : List Byte) : Enables true (Hal.uartWrite data) := by
  induction data with
  | nil => exact rfl
  | cons byte data ih => exact (enables_uartPutchar byte).bind fun _ => ih

theorem uartCtrlWord_transmits {ncoMasked : Word} (hpos : 1 ≤ ncoMasked.toNat)
    (hfits : ncoMasked.toNat ≤ 0xffff) : Hw.transmits (uartCtrlWord ncoMasked) = true := by
  obtain ⟨hfield, htx, -, -⟩ := uartCtrlWord_configures ncoMasked hfits
  rw [bit32Read_eq] at htx
  refine Bool.and_eq_true_iff.mpr ⟨htx, bne_iff_ne.mpr fun hzero => ?_⟩
  have hread : bitfieldField32Read (uartCtrlWord ncoMasked) uartCtrlNcoField = 0 := by
    show uartCtrlWord ncoMasked >>> Hw.ctrlNcoOffset &&& uartCtrlNcoMask = 0
    rw [hzero]
    rfl
  rw [← hfield, hread] at hpos
  exact absurd hpos (by decide)

theorem enables_uartInit {uart : Hal.Uart} (h : ValidConfig uart) (hnco : 1 ≤ nco uart)
    (on : Bool) : Enables on (Hal.uartInit (some uart)) := by
  obtain ⟨hbaud, hfreq, hfits⟩ := h
  rcases uartInit_cases uart with ⟨error, hno, -⟩ | ⟨ncoMasked, -, -, hle, hval, hinit⟩
  · exact absurd ⟨hbaud, hfreq, (ncoMasked_eq_iff uart).mp hfits⟩ hno
  · rw [hinit]
    exact uartCtrlWord_transmits (by rwa [hval]) (by rwa [hval])

/-- At any clock the console has a baud rate that ticks. -/
theorem nco_write {freq : Word} (h : freq ≠ 0) :
    1 ≤ nco { baudrate := uartBaudrate, clkFreqHz := freq } := by
  have hlt : freq.toNat < 2 ^ 32 := freq.isLt
  have hbaud : uartBaudrate.toNat = 115200 := rfl
  rw [nco_pos_iff h, hbaud]
  show freq.toNat ≤ _
  omega

theorem enables_write {freq : Word} (data : List Byte) (on : Bool)
    (h : ValidConfig { baudrate := uartBaudrate, clkFreqHz := freq }) :
    Enables on (Runtime.write freq stdoutFileno data) := by
  unfold Runtime.write
  rw [if_neg (not_not.mpr rfl)]
  refine (enables_uartInit h (nco_write h.2.1) on).bind fun err => ?_
  split
  · exact rfl
  · exact (enables_uartWrite data).bind fun _ => rfl

theorem enables_io {op : TransmitOp} (h : op.Valid) {on : Bool} (hon : op.Transmits on) :
    Enables on op.io := by
  cases op with
  | uartInit uart =>
    obtain ⟨u, rfl, hu⟩ := h
    obtain ⟨u', hu', hnco⟩ := hon
    cases hu'
    exact (enables_uartInit hu hnco on).bind fun _ => rfl
  | uartPutchar byte =>
    obtain rfl : on = true := hon
    exact enables_uartPutchar byte
  | uartWrite data =>
    obtain rfl : on = true := hon
    exact enables_uartWrite data
  | write freq file data =>
    obtain ⟨rfl, hu⟩ := h
    exact (enables_write data on hu).bind fun _ => rfl

theorem enables_exec {u : Hw.Uart} {p : UartIo Unit} (hp : Enables u.txOn p)
    (hret : ∀ a, p ≠ .ret a) : Enables ((Hw.Uart.device txDepth).exec u p).1.txOn
      ((Hw.Uart.device txDepth).exec u p).2 := by
  have hread (r : UartReg) : ((Hw.Uart.device txDepth).read u r).1.txOn = u.txOn :=
    u.read_txOn txDepth r
  cases p with
  | ret a => exact absurd rfl (hret a)
  | read r k =>
    simp only [Lib.Device.exec, hread]
    exact hp _
  | write r v k =>
    have hwrite : ((Hw.Uart.device txDepth).write u r v).txOn = _ := u.write_txOn txDepth r v
    simp only [Lib.Device.exec, hwrite]
    exact hp
  | poll r ready k =>
    cases hready : ready ((Hw.Uart.device txDepth).read u r).2 with
    | true =>
      rw [Lib.Device.exec_poll_ready hready, hread]
      exact hp.2
    | false =>
      rw [Lib.Device.exec_poll_wait hready, hread]
      exact hp

/-- The call in progress, if any, turns the transmitter on before it waits for it. -/
def Powered (s : Transmit) : Prop := ∀ p, s.sys.prog = some p → Enables s.sys.dev.txOn p

theorem powered_next {s t : Transmit} {l : TransmitLabel} (hi : Powered s) (hcall : ValidCall s l)
    (hconf : Configured s l) (h : s.next txDepth l = some t) : Powered t := by
  obtain ⟨sys, hsys, rfl⟩ := Option.map_eq_some_iff.mp h
  rcases Sys.next_cases _ _ hsys with ⟨e, d, rfl, he, rfl⟩ | ⟨op, rfl, hp, rfl⟩ |
    ⟨a, rfl, hp, rfl⟩ | ⟨p, rfl, hp, hret, rfl⟩
  · intro p hp
    show Enables d.txOn p
    rw [Hw.Uart.env_txOn he]
    exact hi p hp
  · rintro p ⟨⟩
    exact enables_io (hcall op rfl) (hconf op rfl)
  · exact nofun
  · rintro q ⟨⟩
    exact enables_exec (hi p hp) hret

theorem reach_env {u v : Hw.Uart} {e : UartEvent} {prog : Option (UartIo Unit)}
    {results : List Unit} {passed : List Byte} {t : Transmit} (h : u.env e = some v)
    (r : Reach (Transmit.next txDepth) Silent ⟨⟨v, prog, results⟩, passed⟩ t) :
    Reach (Transmit.next txDepth) Silent ⟨⟨u, prog, results⟩, passed⟩ t := by
  have hdev : (Hw.Uart.device txDepth).env u e = some v := h
  refine .head (l := .env e) nofun ?_ r
  simp only [Transmit.next, Sys.next, hdev, Option.map_some]

theorem reach_cpu {u : Hw.Uart} {p : UartIo Unit} {results : List Unit} {passed : List Byte}
    {t : Transmit} (hret : ∀ a, p ≠ .ret a)
    (r : Reach (Transmit.next txDepth) Silent ⟨⟨((Hw.Uart.device txDepth).exec u p).1,
      some ((Hw.Uart.device txDepth).exec u p).2, results⟩, passed⟩ t) :
    Reach (Transmit.next txDepth) Silent ⟨⟨u, some p, results⟩, passed⟩ t := by
  refine .head (l := .cpu) nofun ?_ r
  cases p with
  | ret a => exact absurd rfl (hret a)
  | _ => rfl

variable (txDepth) in
theorem reach_drained {u : Hw.Uart} (hon : u.txOn = true) (prog : Option (UartIo Unit))
    (results : List Unit) (passed : List Byte) :
    ∃ v : Hw.Uart, v.inTransit = [] ∧ v.txOn = true ∧
      Reach (Transmit.next txDepth) Silent ⟨⟨u, prog, results⟩, passed⟩
        ⟨⟨v, prog, results⟩, passed⟩ := by
  obtain ⟨rx, tx, shift, ctrl, arrived, line⟩ := u
  -- the byte in the shift register first, then the FIFO from its head
  induction tx generalizing shift line with
  | nil =>
    cases shift with
    | none => exact ⟨_, rfl, hon, .refl _⟩
    | some b =>
      exact ⟨⟨rx, [], none, ctrl, arrived, line ++ [b]⟩, rfl, hon,
        .head (l := .env .txDone) nofun rfl (.refl _)⟩
  | cons c tx ih =>
    have hload (line : List Byte) : (Hw.Uart.mk rx (c :: tx) none ctrl arrived line).env .txLoad =
        some ⟨rx, tx, some c, ctrl, arrived, line⟩ := if_pos hon
    cases shift with
    | none =>
      obtain ⟨v, hv, hvon, r⟩ := ih (some c) line hon
      exact ⟨v, hv, hvon, reach_env (hload line) r⟩
    | some b =>
      obtain ⟨v, hv, hvon, r⟩ := ih (some c) (line ++ [b]) hon
      exact ⟨v, hv, hvon, reach_env (e := .txDone) rfl (reach_env (hload _) r)⟩

/-- A call that enables the transmitter can come to its end without another one. -/
theorem reach_returned (hdepth : 0 < txDepth) {p : UartIo Unit} {u : Hw.Uart} {idle : Bool}
    {bs : List Byte} (hp : Sends txDepth (fun _ => True) idle bs p)
    (hidle : idle = true → u.inTransit = []) (hon : Enables u.txOn p) (results : List Unit)
    (passed : List Byte) :
    ∃ t, Reach (Transmit.next txDepth) Silent ⟨⟨u, some p, results⟩, passed⟩ t ∧
      t.sys.prog = none := by
  induction p generalizing u idle bs with
  | ret a => exact ⟨_, .head (l := .cpu) nofun rfl (.refl _), rfl⟩
  | read r k ih =>
    obtain ⟨idle', bs', hp', hidle', -⟩ := sends_exec hp nofun hidle
    obtain ⟨t, r, ht⟩ := ih _ hp' hidle' (enables_exec hon nofun)
    exact ⟨t, reach_cpu nofun r, ht⟩
  | write r v k ih =>
    obtain ⟨idle', bs', hp', hidle', -⟩ := sends_exec hp nofun hidle
    obtain ⟨t, r, ht⟩ := ih hp' hidle' (enables_exec hon nofun)
    exact ⟨t, reach_cpu nofun r, ht⟩
  | poll r ready k ih =>
    obtain ⟨rfl, hp⟩ := hp
    rcases hp with ⟨rfl, rfl, hk⟩ | ⟨rfl, hk⟩
    · -- an idle transmitter has room
      have hready : notFull (u.statusWord txDepth) = true := by
        rw [notFull_statusWord, (List.append_eq_nil_iff.mp (hidle rfl)).2]
        exact hdepth
      obtain ⟨t, r, ht⟩ := ih (hk hdepth) hidle hon.2
      refine ⟨t, reach_cpu nofun ?_, ht⟩
      rwa [Lib.Device.exec_poll_ready hready]
    · obtain ⟨v, hv, hvon, drain⟩ := reach_drained txDepth hon.1
        (some (.poll .status uartTxIdle k)) results passed
      have hready : uartTxIdle (v.statusWord txDepth) = true := by
        rw [uartTxIdle_statusWord]
        exact v.txIdle_iff.mpr hv
      obtain ⟨t, r, ht⟩ := ih hk (fun _ => hv) (by rw [hvon, ← hon.1]; exact hon.2)
      refine ⟨t, drain.trans (reach_cpu nofun ?_), ht⟩
      rwa [Lib.Device.exec_poll_ready hready]

theorem txInv_reach {u : Hw.Uart} (hidle : u.txIdle = true) (hline : u.line = []) {s : Transmit}
    (r : Reach (Transmit.next txDepth) ValidCall (.init u) s) :
    ∃ idle bs, TxInv txDepth s idle bs := by
  induction r with
  | refl => exact ⟨true, [], txInv_init hidle hline⟩
  | tail _ hcall h ih =>
    obtain ⟨idle, bs, hi⟩ := ih
    exact txInv_next hi hcall h

theorem passed_silent {s t : Transmit} (r : Reach (Transmit.next txDepth) Silent s t) :
    t.passed = s.passed := by
  induction r with
  | refl => rfl
  | @tail t t' l _ hl h ih =>
    obtain ⟨sys, -, rfl⟩ := Option.map_eq_some_iff.mp h
    cases l with
    | call op => exact absurd rfl (hl op)
    | _ => exact ih

/-- A call in progress that enables the transmitter can come to its end. -/
theorem TxInv.completes {s : Transmit} {idle : Bool} {bs : List Byte} (hi : TxInv txDepth s idle bs)
    (hdepth : 0 < txDepth) (hon : Powered s) :
    ∃ t, Reach (Transmit.next txDepth) Silent s t ∧ t.sys.prog = none := by
  obtain ⟨⟨u, prog, results⟩, passed⟩ := s
  cases prog with
  | none => exact ⟨_, .refl _, rfl⟩
  | some p => exact reach_returned hdepth (hi.prog p rfl) hi.known (hon p rfl) results passed

variable (txDepth) in
/-- **No byte is lost, duplicated or reordered on the way out**: in every run of valid calls
from an idle transmitter the line shows what was passed, and no reset discards a byte. If no
call came to a transmitter that stands still, what was passed can come out from any state. -/
theorem transmit_lineOk {u : Hw.Uart} (hidle : u.txIdle = true) (hline : u.line = [])
    {s : Transmit} (r : Reach (Transmit.next txDepth) ValidCall (.init u) s) :
    LineOk s ∧
      (0 < txDepth →
        Reach (Transmit.next txDepth) (fun s l => ValidCall s l ∧ Configured s l) (.init u) s →
        ∃ t, Reach (Transmit.next txDepth) Silent s t ∧ t.sys.prog = none ∧
          t.sys.dev.line = s.passed) := by
  obtain ⟨idle, bs, hi⟩ := txInv_reach hidle hline r
  refine ⟨hi.lineOk, fun hdepth hconf => ?_⟩
  have hon : Powered s :=
    hconf.induct (fun _ _ _ hon ⟨hcall, hconf⟩ h => powered_next hon hcall hconf h) nofun
  obtain ⟨t, hsilent, hret⟩ := hi.completes hdepth hon
  have hvalid : Reach (Transmit.next txDepth) ValidCall (.init u) t :=
    r.trans (hsilent.mono fun _ _ hl op e => absurd e (hl op))
  obtain ⟨idle', bs', hi'⟩ := txInv_reach hidle hline hvalid
  exact ⟨t, hsilent, hret, (hi'.lineOk.complete hret).trans (passed_silent hsilent)⟩

/-- `_write` of one byte at 20 MHz. -/
def writeOne (b : Byte) : TransmitOp := .write 20000000 stdoutFileno [b]

theorem writeOne_ok {ls : List TransmitLabel} (h : ∀ op, .call op ∈ ls → ∃ b, op = writeOne b) :
    ∀ l ∈ ls, ∀ s, ValidCall s l ∧ Configured s l := by
  intro l hl s
  constructor
  · rintro op rfl
    obtain ⟨b, rfl⟩ := h op hl
    exact ⟨rfl, by decide, by decide, by decide⟩
  · rintro op rfl
    obtain ⟨b, rfl⟩ := h op hl
    exact trivial

/-- A byte printed at power-up, another one put behind it, and a third one printed as far as WDATA:
the second `_write` resets the UART when two bytes have been sent. -/
theorem transmit_lineOk_one :
    ∃ s, Reach (Transmit.next 32) ValidCall (.init .powerOn) s ∧ LineOk s ∧
      s.sys.dev.line = [98, 99] ∧ s.sys.dev.inTransit = [100] ∧
      ∃ t, Reach (Transmit.next 32) Silent s t ∧ t.sys.prog = none ∧
        t.sys.dev.line = [98, 99, 100] := by
  have hprint : follow (Transmit.next 32) (.init .powerOn) (.call (writeOne 98) ::
      List.replicate 10 .cpu ++ [.env .txLoad, .env .txDone, .cpu, .cpu]) = some _ := rfl
  have r₁ := reach_of_follow hprint (writeOne_ok fun op hop => ⟨98, by simpa using hop⟩)
  have r₂ := r₁.tail (l := .call (.uartPutchar 99))
    ⟨fun op hop => by cases hop; exact trivial, fun op hop => by cases hop; exact rfl⟩ rfl
  let later : List TransmitLabel := [.cpu, .cpu, .env .txLoad, .env .txDone, .cpu, .cpu,
    .call (writeOne 100)] ++ List.replicate 10 .cpu
  have hput : ∀ op, .call op ∈ later → ∃ b, op = writeOne b :=
    fun op hop => ⟨100, by simpa [later] using hop⟩
  have r := r₂.trans (reach_of_follow rfl (writeOne_ok hput))
  have hvalid := r.mono fun _ _ h => h.1
  obtain ⟨hline, hcomplete⟩ := transmit_lineOk 32 rfl rfl hvalid
  exact ⟨_, hvalid, hline, rfl, rfl, hcomplete (by decide) r⟩

end XHeepFemu.Runtime
