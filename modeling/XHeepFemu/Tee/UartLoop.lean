import XHeepFemu.Tee.Handler
import XHeepFemu.Lib.EscapedLines

/-!
# The receive loops

The service in its two forms. `userUartLoop` is `user_uart_loop` of
`apps/tflite_scpi/main.c`, which reaches the UART and the parser through system
calls; `uartScpi` is `uart_scpi` of `apps/tflite_scpi_m/main.c` with its
`uart_gets`. Both run in the same `World`. `SCPI_Input` is any function `scpiInput`
of a state of its own that may set `exit_scpi`.

The loops are modelled on what the functions they call return. `rx` is what
`uart_getchar` returns, one byte after the other: a byte that a `printf` clears from
the RX FIFO is not in it. A system call is a call of `handler_user_ecall`, without
the frames of the trap path, which lower the stack pointer of user mode each time
(`Tee/Trap.lean`).

A loop takes fuel: one unit for each iteration of the outer or the inner `while`.
-/

namespace XHeepFemu.Tee

open Scpi

/-- What the program and its devices share. `mem` holds the line buffer. -/
structure World (σ : Type) where
  /-- The bytes that `uart_getchar` is still to return. -/
  rx : List Byte
  mem : Mem
  modifier : Bool
  exitScpi : Bool
  scpi : σ
  /-- Bytes passed to `uart_putchar`. -/
  echoed : List Byte
  /-- Data of the calls of `SCPI_Input`. -/
  calls : List (List Byte)
  /-- Addresses the receive loop stored to. -/
  stores : List Word
  /-- Buffers of the calls of `tee_infer`, with `modifier` at the call. -/
  infers : List (List Byte × Bool)

/-- Why a loop is left for good. -/
inductive Stop where
  /-- It waits for a byte. -/
  | blocked
  /-- `while (1);` -/
  | spin
  | fuel
  deriving DecidableEq, Repr

abbrev Run (σ : Type) := EStateM Stop (World σ)

/-- What `SCPI_Input` does to its state, and whether it sets `exit_scpi`. -/
abbrev Behaviour (σ : Type) := σ → List Byte → σ × Bool

variable {σ : Type} (B : Behaviour σ)

/-! ## Firmware -/

def uartGetchar : Run σ Byte := fun w =>
  match w.rx with
  | [] => .error .blocked w
  | c :: rx => .ok c { w with rx }

def uartPutchar (c : Byte) : Run σ Unit := modify fun w => { w with echoed := w.echoed ++ [c] }

def scpiInput (data : List Byte) : Run σ Unit := modify fun w =>
  { w with
    scpi := (B w.scpi data).1
    exitScpi := w.exitScpi || (B w.scpi data).2
    calls := w.calls ++ [data] }

/-- The `len` bytes behind a pointer. -/
def bytesAt (mem : Mem) (p : CPtr) (len : Word) : List Byte :=
  match p with
  | .user p => readBytes mem p len.toNat
  | .str s => s.take len.toNat

/-- `SCPI_Flush` of both applications does nothing, and the text `printf` writes is no echo. -/
def firmware : Firmware (Run σ) where
  printf _ _ := pure ()
  scpiInput p len := do scpiInput B (bytesAt (← get).mem p len)
  scpiFlush := pure ()
  uartPutchar := uartPutchar
  uartGetchar := uartGetchar
  csrr _ := pure 0
  spin := throw .spin

/-! ## tee_syscall.h -/

def teeInfer (buf len : Word) : Run σ Unit := do
  modify fun w =>
    { w with infers := w.infers ++ [(readBytes w.mem buf len.toNat, w.modifier)] }
  let _ ← handlerUserEcall (firmware B) teeEcInfer buf len

def teeUartPutchar (c : Byte) : Run σ Unit := do
  let _ ← handlerUserEcall (firmware B) teeEcUartPutchar (c.toBitVec.setWidth 32) 0

def teeUartGetchar : Run σ Byte := do
  let a0 ← handlerUserEcall (firmware B) teeEcUartGetchar 0 0
  pure (a0.getD 0)

def teeReadCountersArr (a0 a1 : Word) : Run σ Unit := do
  let _ ← handlerUserEcall (firmware B) teeEcRdcounters a0 a1

/-! ## The loops -/

/-- `buf[i] = c` in the receive loop. -/
def storeAt (buf i : Word) (c : Byte) : Run σ Unit := modify fun w =>
  { w with mem := w.mem.set (buf + i) c, stores := w.stores ++ [buf + i] }

def setModifier (b : Bool) : Run σ Unit := modify fun w => { w with modifier := b }

/-- The inner `while` of `user_uart_loop`, from index `i`. -/
def userLine (buf len : Word) : Nat → Word → Run σ Word
  | 0, _ => throw .fuel
  | n + 1, i => do
    if i < len - 1 then
      let c ← teeUartGetchar B
      if c = 92 then
        if !(← get).modifier then
          setModifier true
          userLine buf len n i
        else
          storeAt buf i c
          setModifier false
          userLine buf len n (i + 1)
      else
        teeUartPutchar B c
        if c = 10 then teeUartPutchar B 13
        else if c = 13 then teeUartPutchar B 10
        if c = 10 ∨ c = 13 then
          if (← get).modifier then
            storeAt buf i c
            setModifier false
            userLine buf len n (i + 1)
          else
            storeAt buf i 0
            pure i
        else
          storeAt buf i c
          setModifier false
          userLine buf len n (i + 1)
    else
      pure i

def userUartLoop (buf len : Word) : Nat → Run σ Unit
  | 0 => throw .fuel
  | n + 1 => do
    if !(← get).exitScpi then
      let i ← userLine B buf len n 0
      if i > 0 then
        teeReadCountersArr B buf len
        teeInfer B buf i
        teeReadCountersArr B buf len
        teeReadCountersArr B buf len
      userUartLoop buf len n
    else
      throw .spin

/-- `uart_gets`, from index `i`. -/
def uartGets (buf len : Word) : Nat → Word → Run σ Word
  | 0, _ => throw .fuel
  | n + 1, i => do
    if i < len - 1 then
      let c ← uartGetchar
      if c = 92 then
        if !(← get).modifier then
          setModifier true
          uartGets buf len n i
        else
          storeAt buf i c
          setModifier false
          uartGets buf len n (i + 1)
      else
        uartPutchar c
        if c = 10 then uartPutchar 13
        else if c = 13 then uartPutchar 10
        if c = 10 ∨ c = 13 then
          if (← get).modifier then
            storeAt buf i c
            setModifier false
            uartGets buf len n (i + 1)
          else
            storeAt buf i 0
            pure i
        else
          storeAt buf i c
          setModifier false
          uartGets buf len n (i + 1)
    else
      pure i

/-- The `while` of `uart_scpi`; `buf` is its local array. The counters it reads and prints
are no part of the world. -/
def uartScpi (buf : Word) : Nat → Run σ Unit
  | 0 => throw .fuel
  | n + 1 => do
    if !(← get).exitScpi then
      let len ← uartGets buf 2048 n 0
      if len > 0 then
        scpiInput B (bytesAt (← get).mem (.user buf) len)
        scpiInput B (bytesAt (← get).mem (.str crlf) 2)
      uartScpi buf n
    else
      pure ()

/-! ## Evaluation -/

theorem run_bind {α β : Type} (x : Run σ α) (f : α → Run σ β) (w : World σ) :
    (x >>= f) w = match x w with
      | .ok a w' => f a w'
      | .error e w' => .error e w' := by
  simp only [bind, EStateM.bind]
  cases x w <;> rfl

theorem run_pure {α : Type} (a : α) (w : World σ) : (pure a : Run σ α) w = .ok a w := rfl

theorem run_get (w : World σ) : (get : Run σ (World σ)) w = .ok w w := rfl

theorem run_modify (f : World σ → World σ) (w : World σ) :
    (modify f : Run σ Unit) w = .ok () (f w) := rfl

theorem run_putchar (c : Byte) (w : World σ) :
    uartPutchar c w = .ok () { w with echoed := w.echoed ++ [c] } := rfl

theorem run_setModifier (b : Bool) (w : World σ) :
    setModifier b w = .ok () { w with modifier := b } := rfl

theorem run_storeAt (buf i : Word) (c : Byte) (w : World σ) : storeAt buf i c w =
    .ok () { w with mem := w.mem.set (buf + i) c, stores := w.stores ++ [buf + i] } := rfl

theorem run_scpiInput (data : List Byte) (w : World σ) : scpiInput B data w =
    .ok () { w with
      scpi := (B w.scpi data).1
      exitScpi := w.exitScpi || (B w.scpi data).2
      calls := w.calls ++ [data] } := rfl

/-! ## System calls are calls -/

theorem teeUartPutchar_eq (c : Byte) : teeUartPutchar B c = uartPutchar c := by
  funext w
  have low : (⟨(c.toBitVec.setWidth 32).setWidth 8⟩ : Byte) = c := by
    apply UInt8.eq_of_toBitVec_eq
    simp
  unfold teeUartPutchar handlerUserEcall
  rw [if_neg (by decide), if_pos rfl, low]
  rfl

theorem teeUartGetchar_eq : teeUartGetchar B = (uartGetchar : Run σ Byte) := by
  funext w
  unfold teeUartGetchar handlerUserEcall
  rw [if_neg (by decide), if_neg (by decide), if_pos rfl]
  simp only [firmware, run_bind, uartGetchar]
  cases w.rx <;> rfl

theorem teeReadCountersArr_eq (a0 a1 : Word) : teeReadCountersArr B a0 a1 = pure () := by
  funext w
  unfold teeReadCountersArr handlerUserEcall
  rw [if_neg (by decide), if_neg (by decide), if_neg (by decide), if_pos rfl]
  rfl

/-- The two copies of the receive loop are the same. -/
theorem userLine_eq (buf len : Word) (n : Nat) (i : Word) :
    userLine B buf len n i = uartGets buf len n i := by
  induction n generalizing i with
  | zero => rfl
  | succ n ih => simp only [userLine, uartGets, teeUartGetchar_eq, teeUartPutchar_eq, ih]

end XHeepFemu.Tee
