import XHeepFemu.Scpi.Registers
import XHeepFemu.Hw.MemMap

/-!
# Errors and status commands

`libscpi/error.c` and the commands of `ieee488.c` and `minimal.c` that read or
write status. An error goes into the queue, into its class of the standard event
register, and into the status byte. The build keeps no text with an error. A
command that takes a number is here once `SCPI_ParamInt32` gave it one; the
application sets event and condition registers with `SCPI_RegSet`.
-/

namespace XHeepFemu.Scpi

def esrOpc : RegVal := 0x01
def esrReq : RegVal := 0x02
def esrQer : RegVal := 0x04
def esrDer : RegVal := 0x08
def esrEer : RegVal := 0x10
def esrCer : RegVal := 0x20
def esrUrq : RegVal := 0x40
def esrPon : RegVal := 0x80

/-! ## The error queue -/

def scpiErrorCount (c : Context) : Nat := fifoCount c.errorQueue

/-- `interface->error`, if it is installed. -/
def writeError (c : Context) (err : Int) : Context :=
  if c.interface.error then c.call (.error err) else c

/-- The queue has become empty. -/
def scpiErrorEmitEmpty (c : Context) : Context :=
  if scpiErrorCount c = 0 ∧ scpiRegGet c (some .stb) &&& stbQma ≠ 0 then
    writeError (scpiRegClearBits c .stb stbQma) 0
  else c

def scpiErrorEmit (c : Context) (err : Int) : Context :=
  writeError (scpiRegSetBits c .stb stbQma) err

def scpiErrorClear (c : Context) : Context :=
  scpiErrorEmitEmpty { c with errorQueue := fifoClear c.errorQueue }

/-- No error in the queue is error 0. -/
def scpiErrorPop (c : Context) : Context × Int :=
  (scpiErrorEmitEmpty { c with errorQueue := (fifoRemove c.errorQueue).1 },
    (fifoRemove c.errorQueue).2.getD 0)

/-- `SCPI_ERROR_QUEUE_OVERFLOW`. -/
def scpiErrorQueueOverflow : Int := -350

/-- A full queue loses its newest error to the overflow. -/
def scpiErrorAddInternal (queue : Fifo Int) (err : Int) : Fifo Int × Bool :=
  let (queue, added) := fifoAdd queue err
  if added then (queue, true)
  else ((fifoAdd (fifoRemoveLast queue).1 scpiErrorQueueOverflow).1, false)

structure ErrorReg where
  fromCode : Int
  toCode : Int
  esrBit : RegVal

/-- The classes of errors, each from its upper code down to its lower one. -/
def errs : List ErrorReg :=
  [⟨-100, -199, esrCer⟩, ⟨-200, -299, esrEer⟩, ⟨-300, -399, esrDer⟩, ⟨1, 32767, esrDer⟩,
    ⟨-400, -499, esrQer⟩, ⟨-500, -599, esrPon⟩, ⟨-600, -699, esrUrq⟩, ⟨-700, -799, esrReq⟩,
    ⟨-800, -899, esrOpc⟩]

/-- The `for` over the classes. -/
def setErrorClass (c : Context) (err : Int) : Context :=
  errs.foldl (fun c e => if err ≤ e.fromCode ∧ err ≥ e.toCode then
    scpiRegSetBits c .esr e.esrBit else c) c

def scpiErrorPush (c : Context) (err : Int) : Context :=
  let (queue, added) := scpiErrorAddInternal c.errorQueue err
  let c := setErrorClass { c with errorQueue := queue } err
  let c := scpiErrorEmit c err
  let c := if added then c else scpiErrorEmit c scpiErrorQueueOverflow
  { c with cmdError := true }

/-! ## The commands -/

/-- The events of the groups of the loop in `*CLS`, but for the status byte. -/
def clsEvents : List Event := [.esr, .oper, .ques]

def scpiCoreCls (c : Context) : Context :=
  clsEvents.foldl (fun c e => scpiRegSet c e.reg 0) (scpiErrorClear c)

def scpiCoreEse (c : Context) (newEse : Word) : Context :=
  scpiRegSet c .ese (newEse.setWidth 16)

def scpiCoreEsrQ (c : Context) : Context × RegVal := (scpiRegSet c .esr 0, c.registers .esr)

def scpiCoreOpc (c : Context) : Context := scpiRegSetBits c .esr esrOpc

def scpiCoreSre (c : Context) (newSre : Word) : Context :=
  scpiRegSet c .sre (newSre.setWidth 16)

def scpiStatusQuestionableEventQ (c : Context) : Context × RegVal :=
  (scpiRegSet c .ques 0, c.registers .ques)

def scpiStatusQuestionableEnable (c : Context) (newQuese : Word) : Context :=
  scpiRegSet c .quese (newQuese.setWidth 16)

def scpiStatusOperationEventQ (c : Context) : Context × RegVal :=
  (scpiRegSet c .oper 0, c.registers .oper)

def scpiStatusOperationEnable (c : Context) (newOpere : Word) : Context :=
  scpiRegSet c .opere (newOpere.setWidth 16)

def scpiStatusPreset (c : Context) : Context := scpiRegSet c .ques 0

/-- `SCPI_Init` on the array of the error queue. -/
def scpiInit (interface : ScpiInterface) (errorQueueData : Nat → Int) (errorQueueSize : Nat) :
    Context :=
  ⟨interface, fun _ => 0, fifoInit errorQueueData errorQueueSize, false, []⟩

inductive StatusOp where
  | errorPush (err : Int)
  | errorPop
  | errorClear
  | errorCountQ
  | coreCls
  | coreEse (newEse : Word)
  | coreEsrQ
  | coreOpc
  | coreSre (newSre : Word)
  | questionableEventQ
  | questionableEnable (newQuese : Word)
  | operationEventQ
  | operationEnable (newOpere : Word)
  | preset
  /-- `*ESE?`, `*SRE?`, `*STB?` and the queries of enable and condition registers. -/
  | regQ (name : RegName)
  /-- The application sets an event register. -/
  | setEvent (e : Event) (val : RegVal)
  /-- The application sets a condition register. -/
  | setCondition (k : Condition) (val : RegVal)
  deriving DecidableEq, Repr

inductive StatusAnswer where
  | none
  | error (code : Int)
  | count (n : Nat)
  | value (val : RegVal)
  deriving DecidableEq, Repr

def StatusOp.exec (c : Context) : StatusOp → Context × StatusAnswer
  | .errorPush err => (scpiErrorPush c err, .none)
  | .errorPop => ((scpiErrorPop c).1, .error (scpiErrorPop c).2)
  | .errorClear => (scpiErrorClear c, .none)
  | .errorCountQ => (c, .count (scpiErrorCount c))
  | .coreCls => (scpiCoreCls c, .none)
  | .coreEse newEse => (scpiCoreEse c newEse, .none)
  | .coreEsrQ => ((scpiCoreEsrQ c).1, .value (scpiCoreEsrQ c).2)
  | .coreOpc => (scpiCoreOpc c, .none)
  | .coreSre newSre => (scpiCoreSre c newSre, .none)
  | .questionableEventQ =>
    ((scpiStatusQuestionableEventQ c).1, .value (scpiStatusQuestionableEventQ c).2)
  | .questionableEnable newQuese => (scpiStatusQuestionableEnable c newQuese, .none)
  | .operationEventQ => ((scpiStatusOperationEventQ c).1, .value (scpiStatusOperationEventQ c).2)
  | .operationEnable newOpere => (scpiStatusOperationEnable c newOpere, .none)
  | .preset => (scpiStatusPreset c, .none)
  | .regQ name => (c, .value (c.registers name))
  | .setEvent e val => (scpiRegSet c e.reg val, .none)
  | .setCondition k val => (scpiRegSet c k.reg val, .none)

def StatusOp.step (c : Context) (op : StatusOp) : Context := (op.exec c).1

end XHeepFemu.Scpi
