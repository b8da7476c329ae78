import XHeepFemu.Scpi.Fifo

/-!
# The status registers

The register half of `libscpi/ieee488.c`. An event register reports to a bit of
the status byte through its enable register, the status byte to its own bit 6
through the service request enable register. `SCPI_RegSet` follows that chain
upwards in a loop, of at most three rounds. The calls of the interface are a list.
-/

namespace XHeepFemu.Scpi

/-- `scpi_reg_val_t`. -/
abbrev RegVal := BitVec 16

inductive RegName where
  | stb | sre | esr | ese | oper | opere | operc | ques | quese | quesc
  deriving DecidableEq, Repr

inductive RegClass where
  | stb | sre | even | enab | cond
  deriving DecidableEq, Repr

inductive RegGroup where
  | stb | esr | oper | ques
  deriving DecidableEq, Repr

def stbQma : RegVal := 0x04
def stbQes : RegVal := 0x08
def stbEsr : RegVal := 0x20
def stbSrq : RegVal := 0x40
def stbOps : RegVal := 0x80

structure RegInfo where
  type : RegClass
  group : RegGroup

def scpiRegDetails : RegName → RegInfo
  | .stb => ⟨.stb, .stb⟩
  | .sre => ⟨.sre, .stb⟩
  | .esr => ⟨.even, .esr⟩
  | .ese => ⟨.enab, .esr⟩
  | .oper => ⟨.even, .oper⟩
  | .opere => ⟨.enab, .oper⟩
  | .operc => ⟨.cond, .oper⟩
  | .ques => ⟨.even, .ques⟩
  | .quese => ⟨.enab, .ques⟩
  | .quesc => ⟨.cond, .ques⟩

/-- `scpi_reg_group_info_t`; `none` is `SCPI_REG_NONE`. -/
structure RegGroupInfo where
  event : RegName
  enable : Option RegName
  ptfilt : Option RegName
  ntfilt : Option RegName
  parentReg : Option RegName
  parentBit : RegVal

def scpiRegGroupDetails : RegGroup → RegGroupInfo
  | .stb => ⟨.stb, some .sre, none, none, none, 0⟩
  | .esr => ⟨.esr, some .ese, none, none, some .stb, stbEsr⟩
  | .oper => ⟨.oper, some .opere, none, none, some .stb, stbOps⟩
  | .ques => ⟨.ques, some .quese, none, none, some .stb, stbQes⟩

/-- A call of the interface: `control` with `SCPI_CTRL_SRQ`, or `error`. -/
inductive InterfaceCall where
  | control (val : RegVal)
  | error (err : Int)
  deriving DecidableEq, Repr

/-- `scpi_interface_t`: which callbacks are installed. -/
structure ScpiInterface where
  control : Bool
  error : Bool
  deriving DecidableEq, Repr

/-- The part of `scpi_t` that status reporting uses. -/
structure Context where
  interface : ScpiInterface
  registers : RegName → RegVal
  errorQueue : Fifo Int
  cmdError : Bool
  calls : List InterfaceCall

namespace Context

def setReg (c : Context) (name : RegName) (val : RegVal) : Context :=
  { c with registers := Function.update c.registers name val }

def call (c : Context) (i : InterfaceCall) : Context := { c with calls := c.calls ++ [i] }

@[simp] theorem setReg_interface (c : Context) (name : RegName) (val : RegVal) :
    (c.setReg name val).interface = c.interface := rfl

@[simp] theorem setReg_errorQueue (c : Context) (name : RegName) (val : RegVal) :
    (c.setReg name val).errorQueue = c.errorQueue := rfl

@[simp] theorem setReg_calls (c : Context) (name : RegName) (val : RegVal) :
    (c.setReg name val).calls = c.calls := rfl

@[simp] theorem setReg_self (c : Context) (name : RegName) (val : RegVal) :
    (c.setReg name val).registers name = val := Function.update_self _ _ _

@[simp] theorem setReg_other (c : Context) {name name' : RegName} (val : RegVal)
    (h : name' ≠ name) : (c.setReg name val).registers name' = c.registers name' :=
  Function.update_of_ne h _ _

@[simp] theorem call_registers (c : Context) (i : InterfaceCall) :
    (c.call i).registers = c.registers := rfl

@[simp] theorem call_interface (c : Context) (i : InterfaceCall) :
    (c.call i).interface = c.interface := rfl

@[simp] theorem call_errorQueue (c : Context) (i : InterfaceCall) :
    (c.call i).errorQueue = c.errorQueue := rfl

@[simp] theorem call_calls (c : Context) (i : InterfaceCall) :
    (c.call i).calls = c.calls ++ [i] := rfl

end Context

/-- `SCPI_REG_NONE` reads as zero. -/
def scpiRegGet (c : Context) : Option RegName → RegVal
  | some name => c.registers name
  | none => 0

/-- With `SCPI_CTRL_SRQ`. -/
def writeControl (c : Context) (val : RegVal) : Context :=
  if c.interface.control then c.call (.control val) else c

/-- The round of `SCPI_RegSet` in a changed register: the context, and what is set next. -/
def regRound (c : Context) (type : RegClass) (g : RegGroupInfo) (oldVal val : RegVal) :
    Context × Option (RegName × RegVal) :=
  match type with
  | .stb | .sre =>
    let stb := c.registers .stb &&& ~~~stbSrq
    let sre := c.registers .sre &&& ~~~stbSrq
    if stb &&& sre ≠ 0 then
      let ptrans := (oldVal ^^^ val) &&& val
      let c := c.setReg .stb (c.registers .stb ||| stbSrq)
      (if ptrans &&& val ≠ 0 then writeControl c (c.registers .stb) else c, none)
    else (c.setReg .stb (c.registers .stb &&& ~~~stbSrq), none)
  | .even =>
    let enable := if g.enable.isSome then scpiRegGet c g.enable else 0xffff
    let parent := scpiRegGet c g.parentReg
    let parent := if val &&& enable ≠ 0 then parent ||| g.parentBit else parent &&& ~~~g.parentBit
    (c, g.parentReg.map fun name => (name, parent))
  | .cond =>
    if g.ptfilt.isNone ∧ g.ntfilt.isNone then
      (c, some (g.event, ((oldVal ^^^ val) &&& val) ||| c.registers g.event))
    else
      let transitions := oldVal ^^^ val
      let ptrans := transitions &&& val
      let ntrans := transitions &&& ~~~ptrans
      (c, some (g.event, ((ptrans &&& scpiRegGet c g.ptfilt) ||| (ntrans &&& scpiRegGet c g.ntfilt)) |||
        c.registers g.event))
  | .enab => (c, none)

/-- The `do … while (register_group.parent_reg != SCPI_REG_NONE)`. -/
def regSetLoop : Nat → Context → RegName → RegVal → Context
  | 0, c, _, _ => c
  | n + 1, c, name, val =>
    let info := scpiRegDetails name
    let g := scpiRegGroupDetails info.group
    let oldVal := c.registers name
    if oldVal = val then c
    else
      match regRound (c.setReg name val) info.type g oldVal val with
      | (c, some (name, val)) => if g.parentReg.isSome then regSetLoop n c name val else c
      | (c, none) => c

def scpiRegSet (c : Context) (name : RegName) (val : RegVal) : Context := regSetLoop 3 c name val

def scpiRegSetBits (c : Context) (name : RegName) (bits : RegVal) : Context :=
  scpiRegSet c name (c.registers name ||| bits)

def scpiRegClearBits (c : Context) (name : RegName) (bits : RegVal) : Context :=
  scpiRegSet c name (c.registers name &&& ~~~bits)

/-! ## What SCPI_RegSet does -/

@[simp] theorem writeControl_registers (c : Context) (val : RegVal) :
    (writeControl c val).registers = c.registers := by
  unfold writeControl
  split <;> rfl

@[simp] theorem writeControl_errorQueue (c : Context) (val : RegVal) :
    (writeControl c val).errorQueue = c.errorQueue := by
  unfold writeControl
  split <;> rfl

theorem writeControl_calls (c : Context) (val : RegVal) : (writeControl c val).calls =
    c.calls ++ if c.interface.control then [.control val] else [] := by
  unfold writeControl
  cases c.interface.control
  · exact (List.append_nil _).symm
  · rfl

@[simp] theorem writeControl_interface (c : Context) (val : RegVal) :
    (writeControl c val).interface = c.interface := by
  unfold writeControl
  split <;> rfl

theorem regRound_errorQueue (c : Context) (type : RegClass) (g : RegGroupInfo)
    (oldVal val : RegVal) : (regRound c type g oldVal val).1.errorQueue = c.errorQueue := by
  cases type
  all_goals
    unfold regRound
    simp only
    repeat' split
    all_goals first | rfl | exact writeControl_errorQueue _ _

/-- Setting a register leaves the error queue alone. -/
@[simp] theorem scpiRegSet_errorQueue (c : Context) (name : RegName) (val : RegVal) :
    (scpiRegSet c name val).errorQueue = c.errorQueue := by
  unfold scpiRegSet
  generalize 3 = n
  induction n generalizing c name val with
  | zero => rfl
  | succ n ih =>
    unfold regSetLoop
    simp only
    split
    · rfl
    · have hround := regRound_errorQueue (c.setReg name val) (scpiRegDetails name).type
        (scpiRegGroupDetails (scpiRegDetails name).group) (c.registers name) val
      split
      · rename_i hmatch
        rw [hmatch] at hround
        split
        · rw [ih]
          exact hround
        · exact hround
      · rename_i hmatch
        rw [hmatch] at hround
        exact hround

/-- An event register, with the enable register and the status byte bit it reports through. -/
inductive Event where
  | esr | oper | ques
  deriving DecidableEq, Repr

namespace Event

def reg : Event → RegName
  | esr => .esr | oper => .oper | ques => .ques

def enable : Event → RegName
  | esr => .ese | oper => .opere | ques => .quese

/-- The number of the status byte bit. -/
def bit : Event → Nat
  | esr => 5 | oper => 7 | ques => 3

def mask : Event → RegVal
  | esr => stbEsr | oper => stbOps | ques => stbQes

end Event

/-- Some bit of the status byte, other than its summary, is enabled for service requests. -/
def Requests (sre stb : RegVal) : Prop := (stb &&& ~~~stbSrq) &&& (sre &&& ~~~stbSrq) ≠ 0

instance (sre stb : RegVal) : Decidable (Requests sre stb) := by unfold Requests; infer_instance

/-- A status byte with the summary bit it should have. -/
def withSrq (sre stb : RegVal) : RegVal :=
  if Requests sre stb then stb ||| stbSrq else stb &&& ~~~stbSrq

/-- The status byte reports an event register. -/
def report (e : Event) (val enable stb : RegVal) : RegVal :=
  if val &&& enable ≠ 0 then stb ||| e.mask else stb &&& ~~~e.mask

/-- After a register of the status byte's own group is changed from `oldVal`. -/
def summarise (c : Context) (oldVal val : RegVal) : Context :=
  let c' := c.setReg .stb (withSrq (c.registers .sre) (c.registers .stb))
  if Requests (c.registers .sre) (c.registers .stb) ∧ (oldVal ^^^ val) &&& val ≠ 0 then
    writeControl c' (c'.registers .stb)
  else c'

theorem regRound_summarise (c : Context) {type : RegClass} (htype : type = .stb ∨ type = .sre)
    (g : RegGroupInfo) (oldVal val : RegVal) :
    regRound c type g oldVal val = (summarise c oldVal val, none) := by
  have hself : (oldVal ^^^ val) &&& val &&& val = (oldVal ^^^ val) &&& val := by
    rw [BitVec.and_assoc, BitVec.and_self]
  rcases htype with rfl | rfl
  all_goals
    unfold regRound summarise withSrq
    by_cases hreq : (c.registers .stb &&& ~~~stbSrq) &&& (c.registers .sre &&& ~~~stbSrq) ≠ 0
    · have hreq' : Requests (c.registers .sre) (c.registers .stb) := hreq
      simp only [if_pos hreq, hself, hreq', true_and, Context.setReg_self]
      split <;> rfl
    · have hreq' : ¬Requests (c.registers .sre) (c.registers .stb) := hreq
      simp only [if_neg hreq, hreq', false_and, if_false]

theorem regSetLoop_stb (n : Nat) (c : Context) (val : RegVal) :
    regSetLoop (n + 1) c .stb val =
      if c.registers .stb = val then c
      else summarise (c.setReg .stb val) (c.registers .stb) val := by
  unfold regSetLoop
  simp only [scpiRegDetails, regRound_summarise _ (.inl rfl)]

theorem scpiRegSet_stb (c : Context) (val : RegVal) :
    scpiRegSet c .stb val =
      if c.registers .stb = val then c
      else summarise (c.setReg .stb val) (c.registers .stb) val :=
  regSetLoop_stb 2 c val

theorem scpiRegSet_sre (c : Context) (val : RegVal) :
    scpiRegSet c .sre val =
      if c.registers .sre = val then c
      else summarise (c.setReg .sre val) (c.registers .sre) val := by
  unfold scpiRegSet regSetLoop
  simp only [scpiRegDetails, regRound_summarise _ (.inr rfl)]

/-- An enable register is written and nothing else happens. -/
theorem scpiRegSet_enable (c : Context) (e : Event) (val : RegVal) :
    scpiRegSet c e.enable val = c.setReg e.enable val := by
  unfold scpiRegSet regSetLoop
  by_cases h : c.registers e.enable = val
  · rw [if_pos h, ← h]
    simp only [Context.setReg, Function.update_eq_self]
  · rw [if_neg h]
    cases e <;> rfl

/-- A changed event register is reported to the status byte. -/
theorem regSetLoop_event (n : Nat) (c : Context) (e : Event) (val : RegVal) :
    regSetLoop (n + 2) c e.reg val =
      if c.registers e.reg = val then c
      else scpiRegSet (c.setReg e.reg val) .stb
        (report e val (c.registers e.enable) (c.registers .stb)) := by
  rw [regSetLoop]
  by_cases h : c.registers e.reg = val
  · rw [if_pos h, if_pos h]
  · rw [if_neg h, if_neg h, scpiRegSet_stb]
    cases e <;> exact regSetLoop_stb n _ _

theorem scpiRegSet_event (c : Context) (e : Event) (val : RegVal) :
    scpiRegSet c e.reg val =
      if c.registers e.reg = val then c
      else scpiRegSet (c.setReg e.reg val) .stb
        (report e val (c.registers e.enable) (c.registers .stb)) :=
  regSetLoop_event 1 c e val

/-- The condition registers, with the event register that latches them. -/
inductive Condition where
  | operc | quesc
  deriving DecidableEq, Repr

namespace Condition

def reg : Condition → RegName
  | operc => .operc | quesc => .quesc

def event : Condition → Event
  | operc => .oper | quesc => .ques

end Condition

/-- The bits of a condition that rise are latched. -/
theorem scpiRegSet_condition (c : Context) (k : Condition) (val : RegVal) :
    scpiRegSet c k.reg val =
      if c.registers k.reg = val then c
      else scpiRegSet (c.setReg k.reg val) k.event.reg
        (((c.registers k.reg ^^^ val) &&& val) ||| c.registers k.event.reg) := by
  conv_lhs => unfold scpiRegSet
  rw [regSetLoop]
  by_cases h : c.registers k.reg = val
  · rw [if_pos h, if_pos h]
  · rw [if_neg h, if_neg h]
    -- two of the three rounds are left, and an event register takes no more
    cases k with
    | operc => exact (regSetLoop_event 0 _ .oper _).trans (scpiRegSet_event _ .oper _).symm
    | quesc => exact (regSetLoop_event 0 _ .ques _).trans (scpiRegSet_event _ .ques _).symm

end XHeepFemu.Scpi
