import XHeepFemu.Apps.FlashTransfer

/-!
# Waiting for a transfer

Calls of `read_from_flash` and `write_to_flash` one after the other, with the interrupt
at any time. The flag is cleared once, by `main` before the first call, so the first
completion answers every wait after it: a second call returns while its transfer is still
going on.
-/

namespace XHeepFemu.Apps

open Lib (Io Device Sys Label Reach)
open Hal

/-- The applications that transfer. -/
inductive FlashApp where
  | virtualFlashRead | virtualAdcRead | virtualFlashWrite
  deriving DecidableEq, Repr

structure TransferArgs where
  data : Word
  byteCount : Word
  addr : Word
  deriving DecidableEq, Repr

def spiFlashStartAddress : Word := 0x20020000
def spiHostStartAddress : Word := 0x20030000

namespace FlashApp

def call (app : FlashApp) (args : TransferArgs) : SpiIo Unit :=
  match app with
  | virtualFlashRead => readFromFlash 3 spiFlashStartAddress args.data args.byteCount args.addr
  | virtualAdcRead => readFromFlash 1 spiHostStartAddress args.data args.byteCount args.addr
  | virtualFlashWrite => writeToFlash spiFlashStartAddress args.data args.byteCount args.addr

/-- The call before it waits. -/
def start (app : FlashApp) (args : TransferArgs) : SpiIo Unit :=
  match app with
  | virtualFlashRead => startRead 3 spiFlashStartAddress args.data args.byteCount args.addr
  | virtualAdcRead => startRead 1 spiHostStartAddress args.data args.byteCount args.addr
  | virtualFlashWrite => startWrite spiFlashStartAddress args.data args.byteCount args.addr

def handler : FlashApp → SpiIo Unit
  | virtualFlashRead | virtualAdcRead => handlerIrqFastDma
  | virtualFlashWrite => handlerIrqFastSpiFlash

/-- The fast interrupt that says a transfer is complete. -/
def source : FlashApp → Nat
  | virtualFlashRead | virtualAdcRead => kDmaFic
  | virtualFlashWrite => kSpiFlashFic

end FlashApp

theorem call_eq (app : FlashApp) (args : TransferArgs) :
    app.call args = app.start args >>= fun _ => waitForFlag := by
  cases app <;> rfl

/-! ## Transfers and their interrupts -/

/-- Transfers are numbered from zero, in the order they are started. -/
structure Transfers where
  status : Word
  intrEnable : Word
  eventEnable : Word
  flag : Word
  started : Nat
  /-- Complete, and their interrupt is yet to be handled. -/
  pending : List Nat
  handled : List Nat

inductive TransferEvent where
  /-- The status of the SPI host changes. -/
  | status (w : Word)
  /-- Transfer `k` completes: the DMA is done, or the TX FIFO is empty. -/
  | complete (k : Nat)
  /-- The core takes the interrupt. -/
  | irq
  deriving DecidableEq, Repr

namespace Transfers

/-- After `main` has set up the interrupts and cleared the flag. -/
def initial (status : Word) : Transfers := ⟨status, 0, 0, 0, 0, [], []⟩

/-- The DMA always signals its completion, the SPI host if the event is enabled. -/
def Signals (app : FlashApp) (d : Transfers) : Bool :=
  match app with
  | .virtualFlashRead | .virtualAdcRead => true
  | .virtualFlashWrite =>
    bitfieldBit32Read d.intrEnable spiHostIntrEnableSpiEventBit &&
      bitfieldBit32Read d.eventEnable spiHostEventEnableTxemptyBit

def read (d : Transfers) (r : SpiReg) : Transfers × Word :=
  match r with
  | .status => (d, d.status)
  | .intrEnable => (d, d.intrEnable)
  | .eventEnable => (d, d.eventEnable)
  | .intrFlag => (d, d.flag)
  | _ => (d, 0)

def write (app : FlashApp) (d : Transfers) (r : SpiReg) (v : Word) : Transfers :=
  match r with
  | .intrEnable => { d with intrEnable := v }
  | .eventEnable => { d with eventEnable := v }
  | .intrFlag => { d with flag := v }
  | .dmaStart => { d with started := d.started + 1 }
  | .fastIntrClear =>
    if bitfieldBit32Read v app.source then
      { d with pending := [], handled := d.handled ++ d.pending }
    else d
  | _ => d

/-- The registers as the handler finds them, with the main program interrupted. -/
def registers (app : FlashApp) : Device SpiReg Word Transfers Empty where
  read := read
  write := write app
  env _ e := e.elim

def complete (app : FlashApp) (k : Nat) (d : Transfers) : Option Transfers :=
  if k < d.started ∧ k ∉ d.pending ∧ k ∉ d.handled ∧ d.Signals app = true then
    some { d with pending := d.pending ++ [k] }
  else none

def irq (app : FlashApp) (d : Transfers) : Option Transfers :=
  if d.pending ≠ [] then ((registers app).finish d app.handler).map Prod.fst else none

def device (app : FlashApp) : Device SpiReg Word Transfers TransferEvent where
  read := read
  write := write app
  env d e := match e with
    | .status w => some { d with status := w }
    | .complete k => d.complete app k
    | .irq => d.irq app

end Transfers

abbrev TransferSys := Sys SpiReg Word Transfers Unit

/-- The next call is the next of `calls`. -/
def InOrder (calls : List TransferArgs) (s : TransferSys) (l : Label TransferEvent TransferArgs) :
    Prop :=
  ∀ args, l = .call args → calls[s.results.length]? = some args

/-- The calls are made one after the other, the device moves at any time. -/
abbrev Runs (app : FlashApp) (calls : List TransferArgs) : TransferSys → TransferSys → Prop :=
  Reach (Sys.next (Transfers.device app) app.call) (InOrder calls)

/-- Every call that has returned did so after the interrupt of its own transfer was handled. -/
def ReturnsComplete (s : TransferSys) : Prop := ∀ k < s.results.length, k ∈ s.dev.handled

/-- Whenever the interrupts come, the calls return complete. -/
def CallsComplete (app : FlashApp) (calls : List TransferArgs) : Prop :=
  ∀ status s, Runs app calls ⟨.initial status, none, []⟩ s → ReturnsComplete s

/-! ## What the device does -/

/-- The handler has run. -/
theorem irq_cases {app : FlashApp} {d d' : Transfers} (h : d.irq app = some d') :
    d.pending ≠ [] ∧ d'.started = d.started ∧ d'.pending = [] ∧
      d'.handled = d.handled ++ d.pending := by
  unfold Transfers.irq at h
  split at h
  · rename_i hpending
    cases app <;>
    · cases h
      exact ⟨hpending, rfl, rfl, rfl⟩
  · cases h

theorem complete_cases {app : FlashApp} {k : Nat} {d d' : Transfers}
    (h : d.complete app k = some d') :
    k < d.started ∧ d' = { d with pending := d.pending ++ [k] } := by
  unfold Transfers.complete at h
  split at h
  · rename_i hk
    exact ⟨hk.1, (Option.some.inj h).symm⟩
  · cases h

/-! ## At most one call -/

/-- A program that starts `m` transfers, and leaves the flag and the interrupts alone. -/
def Starts (m : Nat) : SpiIo Unit → Prop
  | .ret _ => m = 0
  | .read _ k => ∀ v, Starts m (k v)
  | .write r _ k =>
    r ≠ .intrFlag ∧ r ≠ .fastIntrClear ∧
      if r = .dmaStart then ∃ n, m = n + 1 ∧ Starts n k else Starts m k
  | .poll _ _ k => Starts m k

theorem starts_start (app : FlashApp) (args : TransferArgs) : Starts 1 (app.start args) := by
  cases app <;>
    simp [Starts, FlashApp.start, startRead, startWrite, spiWriteWord, spiSetCommand,
      spiWaitForReady, spiWaitForTxNotEmpty, spiEnableEvtIntr, spiEnableTxemptyIntr,
      dmaSetReadPtrInc, dmaSetWritePtrInc, dmaSetReadPtr, dmaSetWritePtr, dmaSetSpiMode,
      dmaSetDataType, dmaSetCntStart, Io.load, Io.store, Io.wait, Io.bind, bind]

/-- What is left of a call that starts `m` more transfers. -/
def CallRest (m : Nat) (p : SpiIo Unit) : Prop :=
  ∃ q, Starts m q ∧ p = q.bind fun _ => waitForFlag

/-- `n` calls are made at most. -/
structure WaitInv (n : Nat) (s : TransferSys) : Prop where
  /-- An interrupt is that of a transfer that was started. -/
  known : ∀ k ∈ s.dev.pending ++ s.dev.handled, k < s.dev.started
  flag : s.dev.flag ≠ 0 → s.dev.handled ≠ []
  idle : s.prog = none → s.dev.started = s.results.length ∧ s.results.length ≤ n
  busy : ∀ p, s.prog = some p → s.results.length < n ∧
    ((∃ m, CallRest m p ∧ s.dev.started + m = s.results.length + 1) ∨
      (p = .ret () ∧ s.dev.started = s.results.length + 1 ∧ s.dev.handled ≠ []))
  returned : s.results ≠ [] → s.dev.handled ≠ []

theorem read_fst (d : Transfers) (r : SpiReg) : (d.read r).1 = d := by
  cases r <;> rfl

theorem write_cases (app : FlashApp) (d : Transfers) {r : SpiReg} (v : Word) (hflag : r ≠ .intrFlag)
    (hclear : r ≠ .fastIntrClear) :
    (d.write app r v).pending = d.pending ∧ (d.write app r v).handled = d.handled ∧
      (d.write app r v).flag = d.flag ∧
      (d.write app r v).started = if r = .dmaStart then d.started + 1 else d.started := by
  cases r with
  | intrFlag => exact absurd rfl hflag
  | fastIntrClear => exact absurd rfl hclear
  | _ => exact ⟨rfl, rfl, rfl, rfl⟩

/-- An event of the device changes what is pending and what is handled. -/
theorem WaitInv.env {n : Nat} {app : FlashApp} {s : TransferSys} (inv : WaitInv n s)
    {e : TransferEvent} {d : Transfers} (h : (Transfers.device app).env s.dev e = some d) :
    WaitInv n { s with dev := d } := by
  have keep : d.started = s.dev.started → (∀ k ∈ d.pending ++ d.handled, k < d.started) →
      (s.dev.handled ≠ [] → d.handled ≠ []) → (d.flag ≠ 0 → d.handled ≠ []) →
      WaitInv n { s with dev := d } := by
    intro hstarted hknown hhandled hflag
    refine ⟨hknown, hflag, ?_, ?_, fun hres => hhandled (inv.returned hres)⟩
    · intro hp
      show d.started = _ ∧ _
      rw [hstarted]
      exact inv.idle hp
    · intro p hp
      show _ ∧ ((∃ m, _ ∧ d.started + m = _) ∨ _ ∧ d.started = _ ∧ _)
      rw [hstarted]
      obtain ⟨hlt, hrest | ⟨hret, hdone, hne⟩⟩ := inv.busy p hp
      · exact ⟨hlt, .inl hrest⟩
      · exact ⟨hlt, .inr ⟨hret, hdone, hhandled hne⟩⟩
  cases e with
  | status w =>
    cases h
    exact keep rfl inv.known id inv.flag
  | complete k =>
    obtain ⟨hk, rfl⟩ := complete_cases h
    refine keep rfl ?_ id inv.flag
    intro j hj
    simp only [List.append_assoc, List.mem_append, List.mem_singleton] at hj
    rcases hj with hj | rfl | hj
    · exact inv.known j (List.mem_append_left _ hj)
    · exact hk
    · exact inv.known j (List.mem_append_right _ hj)
  | irq =>
    obtain ⟨hpending, hstarted, hnone, hhandled⟩ := irq_cases h
    have hne : d.handled ≠ [] := by
      rw [hhandled]
      exact List.append_ne_nil_of_right_ne_nil _ hpending
    refine keep hstarted ?_ (fun _ => hne) fun _ => hne
    intro j hj
    rw [hnone, hhandled, List.nil_append, List.mem_append] at hj
    rw [hstarted]
    exact inv.known j (List.mem_append.mpr hj.symm)

/-- One access of a call: nothing is handled by it, and it goes past the wait only if the flag is
set. -/
theorem CallRest.exec {app : FlashApp} {m : Nat} {p : SpiIo Unit} (h : CallRest m p)
    (d : Transfers) {d' : Transfers} {p' : SpiIo Unit}
    (he : (Transfers.device app).exec d p = (d', p')) :
    d'.pending = d.pending ∧ d'.handled = d.handled ∧ d'.flag = d.flag ∧
      d.started ≤ d'.started ∧
      ((∃ n, CallRest n p' ∧ d'.started + n = d.started + m) ∨
        (p' = .ret () ∧ d'.started = d.started ∧ m = 0 ∧ d.flag ≠ 0)) := by
  obtain ⟨q, hq, rfl⟩ := h
  cases q with
  | ret _ =>
    obtain rfl : m = 0 := hq
    by_cases hflag : d.flag = 0
    · have hwait : (Transfers.device app).exec d waitForFlag = _ :=
        Device.exec_poll_wait (show (d.flag != 0) = false by rw [hflag]; rfl)
      cases hwait.symm.trans he
      exact ⟨rfl, rfl, rfl, Nat.le_refl _, .inl ⟨0, ⟨.ret (), rfl, rfl⟩, rfl⟩⟩
    · have hgo : (Transfers.device app).exec d waitForFlag = _ :=
        Device.exec_poll_ready (show (d.flag != 0) = true from bne_iff_ne.mpr hflag)
      cases hgo.symm.trans he
      exact ⟨rfl, rfl, rfl, Nat.le_refl _, .inr ⟨rfl, rfl, rfl, hflag⟩⟩
  | read r k =>
    obtain ⟨rfl, rfl⟩ := Prod.mk.inj he
    have hd : ((Transfers.device app).read d r).1 = d := read_fst d r
    refine ⟨congrArg _ hd, congrArg _ hd, congrArg _ hd, Nat.le_of_eq (congrArg _ hd.symm), .inl ?_⟩
    exact ⟨m, ⟨k _, hq _, rfl⟩, congrArg (·.started + m) hd⟩
  | write r v k =>
    obtain ⟨rfl, rfl⟩ := Prod.mk.inj he
    obtain ⟨hnflag, hnclear, hstarts⟩ := hq
    obtain ⟨hpending, hhandled, hflag, hstarted⟩ := write_cases app d v hnflag hnclear
    refine ⟨hpending, hhandled, hflag, ?_⟩
    show d.started ≤ (d.write app r v).started ∧
      ((∃ n, _ ∧ (d.write app r v).started + n = _) ∨ _)
    rw [hstarted]
    by_cases hr : r = .dmaStart
    · rw [if_pos hr] at hstarts ⊢
      obtain ⟨n, rfl, hk⟩ := hstarts
      exact ⟨Nat.le_succ _, .inl ⟨n, ⟨k, hk, rfl⟩, by omega⟩⟩
    · rw [if_neg hr] at hstarts ⊢
      exact ⟨Nat.le_refl _, .inl ⟨m, ⟨k, hstarts, rfl⟩, rfl⟩⟩
  | poll r ready k =>
    obtain ⟨rfl, rfl⟩ := Prod.mk.inj he
    have hd : ((Transfers.device app).read d r).1 = d := read_fst d r
    refine ⟨congrArg _ hd, congrArg _ hd, congrArg _ hd, Nat.le_of_eq (congrArg _ hd.symm), .inl ?_⟩
    refine ⟨m, ?_, congrArg (·.started + m) hd⟩
    split
    · exact ⟨k, hq, rfl⟩
    · exact ⟨.poll r ready k, hq, rfl⟩

theorem WaitInv.step {app : FlashApp} {calls : List TransferArgs} {s t : TransferSys}
    {l : Label TransferEvent TransferArgs} (inv : WaitInv calls.length s)
    (hok : InOrder calls s l) (h : Sys.next (Transfers.device app) app.call s l = some t) :
    WaitInv calls.length t := by
  rcases Sys.next_cases _ _ h with ⟨e, d, rfl, he, rfl⟩ | ⟨args, rfl, hp, rfl⟩ |
    ⟨a, rfl, hp, rfl⟩ | ⟨p, rfl, hp, hret, rfl⟩
  · exact inv.env he
  · refine ⟨inv.known, inv.flag, nofun, ?_, inv.returned⟩
    rintro p ⟨⟩
    obtain ⟨hlt, -⟩ := List.getElem?_eq_some_iff.mp (hok args rfl)
    refine ⟨hlt, .inl ⟨1, ⟨app.start args, starts_start app args, call_eq app args⟩, ?_⟩⟩
    show s.dev.started + 1 = _
    rw [(inv.idle hp).1]
  · obtain ⟨hlt, hrest⟩ := inv.busy _ hp
    rcases hrest with ⟨m, ⟨q, -, hq⟩, -⟩ | ⟨-, hstarted, hhandled⟩
    · -- a call does not return before it has waited
      cases q <;> cases hq
    · have hlen : (s.results ++ [a]).length = s.results.length + 1 := List.length_append
      refine ⟨inv.known, inv.flag, fun _ => ⟨?_, ?_⟩, nofun, fun _ => hhandled⟩
      · exact hstarted.trans hlen.symm
      · show (s.results ++ [a]).length ≤ _
        omega
  · obtain ⟨hlt, hrest⟩ := inv.busy p hp
    rcases hrest with ⟨m, hcall, hm⟩ | ⟨rfl, -⟩
    · rcases hexec : (Transfers.device app).exec s.dev p with ⟨d', p'⟩
      obtain ⟨hpending, hhandled, hflag, hle, hafter⟩ := hcall.exec s.dev hexec
      refine ⟨?_, ?_, nofun, ?_, ?_⟩
      · intro k hk
        have hk : k ∈ d'.pending ++ d'.handled := hk
        rw [hpending, hhandled] at hk
        exact Nat.lt_of_lt_of_le (inv.known k hk) hle
      · show d'.flag ≠ 0 → d'.handled ≠ []
        rw [hflag, hhandled]
        exact inv.flag
      · rintro p'' ⟨⟩
        refine ⟨hlt, ?_⟩
        rcases hafter with ⟨n, hcall', hn⟩ | ⟨hp', hstarted, hm0, hset⟩
        · exact .inl ⟨n, hcall', hn.trans hm⟩
        · refine .inr ⟨hp', ?_, ?_⟩
          · show d'.started = s.results.length + 1
            omega
          show d'.handled ≠ []
          rw [hhandled]
          exact inv.flag hset
      · show s.results ≠ [] → d'.handled ≠ []
        rw [hhandled]
        exact inv.returned
    · exact absurd rfl (hret ())

theorem waitInv_initial (n : Nat) (status : Word) : WaitInv n ⟨.initial status, none, []⟩ :=
  ⟨nofun, fun h => absurd rfl h, fun _ => ⟨rfl, Nat.zero_le n⟩, nofun, fun h => absurd rfl h⟩

/-- A single call waits for its own transfer: there is no other. -/
theorem callsComplete_of_length_le {app : FlashApp} {calls : List TransferArgs}
    (hcalls : calls.length ≤ 1) : CallsComplete app calls := by
  intro status s hreach k hk
  have inv : WaitInv calls.length s :=
    hreach.induct (fun _ _ _ inv hok h => inv.step hok h) (waitInv_initial _ _)
  have hres : s.results ≠ [] := List.ne_nil_of_length_pos (by omega)
  have hidle : s.prog = none := by
    rcases hp : s.prog with _ | p
    · rfl
    · obtain ⟨hlt, -⟩ := inv.busy p hp
      omega
  obtain ⟨hstarted, hlen⟩ := inv.idle hidle
  obtain ⟨j, hj⟩ := List.exists_mem_of_ne_nil _ (inv.returned hres)
  have hlt := inv.known j (List.mem_append_right _ hj)
  rw [show k = j by omega]
  exact hj

/-! ## The second call -/

/-- Ready for a command, and the TX FIFO is not empty. -/
def readyStatus : Word := 0x80000000

section Ready

variable (app : FlashApp)

theorem finish_then {α β : Type} (d : Transfers) (p : SpiIo α) (f : α → SpiIo β) :
    (Transfers.device app).finish d (p >>= f) =
      ((Transfers.device app).finish d p).bind fun r => (Transfers.device app).finish r.1 (f r.2) :=
  Device.finish_bind _ d p f

theorem finish_load (d : Transfers) (r : SpiReg) :
    (Transfers.device app).finish d (Io.load r) = some (d.read r) := rfl

theorem finish_store (d : Transfers) (r : SpiReg) (v : Word) :
    (Transfers.device app).finish d (Io.store r v) = some (d.write app r v, ()) := rfl

variable (args : TransferArgs) (i e flag : Word) (k : Nat) (pending handled : List Nat)

theorem finish_waitForReady :
    (Transfers.device app).finish ⟨readyStatus, i, e, flag, k, pending, handled⟩ spiWaitForReady =
      some (⟨readyStatus, i, e, flag, k, pending, handled⟩, ()) :=
  if_pos (show bitfieldBit32Read readyStatus spiHostStatusReadyBit = true from rfl)

theorem finish_waitForTxNotEmpty :
    (Transfers.device app).finish ⟨readyStatus, i, e, flag, k, pending, handled⟩
        spiWaitForTxNotEmpty =
      some (⟨readyStatus, i, e, flag, k, pending, handled⟩, ()) :=
  if_pos (show (!bitfieldBit32Read readyStatus spiHostStatusTxemptyBit) = true from rfl)

theorem finish_startRead (mode base : Word) :
    (Transfers.device app).finish ⟨readyStatus, i, e, flag, k, pending, handled⟩
        (startRead mode base args.data args.byteCount args.addr) =
      some (⟨readyStatus, i, e, flag, k + 1, pending, handled⟩, ()) := by
  -- without `-implicitDefEqProofs` the kernel unfolds `finish` to compare the steps
  simp -implicitDefEqProofs only [startRead, finish_then, finish_store, finish_waitForReady,
    spiWriteWord, spiSetCommand, dmaSetReadPtrInc, dmaSetWritePtrInc, dmaSetReadPtr, dmaSetWritePtr,
    dmaSetSpiMode, dmaSetDataType, dmaSetCntStart, Option.bind_some, Transfers.write]

theorem finish_startWrite (base : Word) :
    (Transfers.device app).finish ⟨readyStatus, i, e, flag, k, pending, handled⟩
        (startWrite base args.data args.byteCount args.addr) =
      some (⟨readyStatus, bitfieldBit32Write i spiHostIntrEnableSpiEventBit true,
        bitfieldBit32Write e spiHostEventEnableTxemptyBit true, flag, k + 1, pending,
        handled⟩, ()) := by
  simp -implicitDefEqProofs only [startWrite, finish_then, finish_store, finish_load,
    finish_waitForReady, finish_waitForTxNotEmpty, spiWriteWord, spiSetCommand, spiEnableEvtIntr,
    spiEnableTxemptyIntr, dmaSetReadPtrInc, dmaSetWritePtrInc, dmaSetReadPtr, dmaSetWritePtr,
    dmaSetSpiMode, dmaSetDataType, dmaSetCntStart, Option.bind_some, Transfers.write, Transfers.read]

theorem finish_start : ∃ i' e',
    (Transfers.device app).finish ⟨readyStatus, i, e, flag, k, pending, handled⟩ (app.start args) =
      some (⟨readyStatus, i', e', flag, k + 1, pending, handled⟩, ()) ∧
    Transfers.Signals app ⟨readyStatus, i', e', flag, k + 1, pending, handled⟩ = true := by
  cases app with
  | virtualFlashRead => exact ⟨i, e, finish_startRead _ args i e flag k pending handled _ _, rfl⟩
  | virtualAdcRead => exact ⟨i, e, finish_startRead _ args i e flag k pending handled _ _, rfl⟩
  | virtualFlashWrite =>
    refine ⟨_, _, finish_startWrite _ args i e flag k pending handled _, ?_⟩
    simp only [Transfers.Signals, bit32Read_eq]
    rw [getLsbD_bit32Write _ _ _ (by decide), getLsbD_bit32Write _ _ _ (by decide)]
    rfl

end Ready

section SecondCall

variable {app : FlashApp} {calls : List TransferArgs}

theorem inOrder_cpu (s : TransferSys) : InOrder calls s .cpu := by
  intro args h
  cases h

theorem inOrder_env (s : TransferSys) (e : TransferEvent) : InOrder calls s (.env e) := by
  intro args h
  cases h

theorem reach_wait {d d' : Transfers} {results : List Unit} {args : TransferArgs}
    (hargs : calls[results.length]? = some args)
    (h : (Transfers.device app).finish d (app.start args) = some (d', ())) :
    Runs app calls ⟨d, none, results⟩ ⟨d', some waitForFlag, results⟩ := by
  have hcall : Runs app calls ⟨d, some (app.call args), results⟩ ⟨d', some waitForFlag, results⟩ := by
    rw [call_eq]
    exact Sys.reach_finish _ _ inOrder_cpu h (fun _ => waitForFlag) results
  refine Reach.head ?_ (show Sys.next _ _ _ (.call args) = _ from rfl) hcall
  rintro _ ⟨⟩
  exact hargs

/-- A call returns once the flag is set, whoever set it. -/
theorem reach_return {d : Transfers} (hflag : d.flag = 1) (results : List Unit) :
    Runs app calls ⟨d, some waitForFlag, results⟩ ⟨d, none, results ++ [()]⟩ := by
  have hwait : (Transfers.device app).finish d waitForFlag = some (d, ()) :=
    if_pos (show (d.flag != 0) = true by rw [hflag]; rfl)
  exact .tail (Sys.reach_finish _ _ inOrder_cpu hwait Io.ret results) (inOrder_cpu _) rfl

theorem irq_handled (app : FlashApp) (status i e flag : Word) (k j : Nat) (handled : List Nat) :
    ∃ i' e', Transfers.irq app ⟨status, i, e, flag, k, [j], handled⟩ =
      some ⟨status, i', e', 1, k, [], handled ++ [j]⟩ := by
  cases app
  · exact ⟨i, e, rfl⟩
  · exact ⟨i, e, rfl⟩
  · exact ⟨bitfieldBit32Write i spiHostIntrEnableSpiEventBit false,
      bitfieldBit32Write e spiHostEventEnableRxwmBit false, rfl⟩

/-- The first transfer completes and is handled; the second call finds the flag set. -/
theorem not_callsComplete (app : FlashApp) (first second : TransferArgs)
    (others : List TransferArgs) : ¬CallsComplete app (first :: second :: others) := by
  intro h
  obtain ⟨i, e, hfirst, hsignals⟩ := finish_start app first 0 0 0 0 [] []
  have hcomplete : Transfers.complete app 0 ⟨readyStatus, i, e, 0, 1, [], []⟩ =
      some ⟨readyStatus, i, e, 0, 1, [0], []⟩ :=
    if_pos ⟨Nat.one_pos, List.not_mem_nil, List.not_mem_nil, hsignals⟩
  obtain ⟨i', e', hirq⟩ := irq_handled app readyStatus i e 0 1 0 []
  obtain ⟨i'', e'', hsecond, -⟩ := finish_start app second i' e' 1 1 [] [0]
  -- the first call waits, is interrupted and returns
  have r₁ : Runs app (first :: second :: others) ⟨.initial readyStatus, none, []⟩
      ⟨_, some waitForFlag, []⟩ := reach_wait rfl hfirst
  have r₂ := r₁.tail (inOrder_env _ (.complete 0))
    (show (Sys.next _ _ _ _) = some ⟨_, some waitForFlag, []⟩ from
      congrArg (Option.map _) hcomplete)
  have r₃ := r₂.tail (inOrder_env _ .irq)
    (show (Sys.next _ _ _ _) = some ⟨_, some waitForFlag, []⟩ from congrArg (Option.map _) hirq)
  have r₄ := r₃.trans (reach_return rfl [])
  -- the second call returns at once
  have r₅ := r₄.trans (reach_wait rfl hsecond)
  have r₆ := r₅.trans (reach_return rfl [()])
  have hmem : 1 ∈ [0] := h readyStatus _ r₆ 1 (Nat.lt_succ_self 1)
  cases List.mem_singleton.mp hmem

end SecondCall

/-- The calls return complete, whenever the interrupts come, if and only if there is at most
one. -/
theorem callsComplete_iff (app : FlashApp) (calls : List TransferArgs) :
    CallsComplete app calls ↔ calls.length ≤ 1 := by
  refine ⟨fun h => ?_, callsComplete_of_length_le⟩
  match calls with
  | [] => exact Nat.zero_le 1
  | [_] => exact Nat.le_refl 1
  | first :: second :: others => exact absurd h (not_callsComplete app first second others)

/-- Two reads of 128 bytes: the second returns before its DMA transfer is complete. -/
theorem second_readFromFlash_incomplete :
    ¬CallsComplete .virtualFlashRead [⟨0x10000, 128, 0⟩, ⟨0x10080, 128, 0⟩] :=
  not_callsComplete _ _ _ []

end XHeepFemu.Apps
