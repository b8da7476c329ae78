import XHeepFemu.Hal.Bitfield
import XHeepFemu.Hw.Plic

/-!
# PLIC driver

The functions of `lib/hal/rv_plic/rv_plic.c`, as programs over the registers by their
offset. `none` is the null pointer. `state` of `dif_plic_irq_get_enabled` is not compared
with it.
-/

namespace XHeepFemu.Hal

open Lib (Io)
open Hw

def rvPlicParamNumSrc : Word := 64
def rvPlicParamNumTarget : Word := 1
def rvPlicParamRegWidth : Nat := 32
def rvPlicLeMultiregCount : Nat := 2
def rvPlicIe0MultiregCount : Nat := 2

def kDifPlicMaxPriority : Word := 0x7

inductive DifPlicResult where
  | kDifPlicOk
  | kDifPlicError
  | kDifPlicBadArg
  deriving DecidableEq, Repr

/-- `dif_plic_toggle_t`; a C enumeration can hold other values. -/
inductive DifPlicToggle where
  | kDifPlicToggleEnabled
  | kDifPlicToggleDisabled
  | other (value : Word)
  deriving DecidableEq, Repr

/-- `dif_plic_irq_trigger_t`. -/
inductive DifPlicIrqTrigger where
  | kDifPlicIrqTriggerEdge
  | kDifPlicIrqTriggerLevel
  | other (value : Word)
  deriving DecidableEq, Repr

/-- `dif_plic_params_t`. -/
structure DifPlicParams where
  baseAddr : Word
  deriving DecidableEq, Repr

/-- `dif_plic_t`. -/
structure DifPlic where
  params : DifPlicParams
  deriving DecidableEq, Repr

abbrev PlicIo := Io Nat Word

/-! ## Where the registers are -/

/-- `plic_reg_info_t`. -/
structure PlicRegInfo where
  offset : Nat
  bitIndex : Nat

/-- The index of the register is an 8-bit integer. -/
def plicOffsetFromReg0 (irq : Word) : Nat := irq.toNat / rvPlicParamRegWidth % 256 * 4

def plicIrqBitIndex (irq : Word) : Nat := irq.toNat % rvPlicParamRegWidth

def plicIrqEnableBaseForTarget (target : Word) : Nat :=
  plicIe00RegOffset + rvPlicIe0MultiregCount * 4 * target.toNat

def plicSoftwareIrqBaseForTarget (target : Word) : Nat := plicMsip0RegOffset + target.toNat * 4

def plicThresholdBaseForTarget (target : Word) : Nat := plicThreshold0RegOffset + target.toNat * 4

def plicClaimCompleteBaseForTarget (target : Word) : Nat := plicCc0RegOffset + target.toNat * 4

def plicIrqEnableRegInfo (irq target : Word) : PlicRegInfo where
  offset := plicIrqEnableBaseForTarget target + plicOffsetFromReg0 irq
  bitIndex := plicIrqBitIndex irq

def plicIrqTriggerTypeRegInfo (irq : Word) : PlicRegInfo where
  offset := plicLe0RegOffset + plicOffsetFromReg0 irq
  bitIndex := plicIrqBitIndex irq

def plicIrqPendingRegInfo (irq : Word) : PlicRegInfo where
  offset := plicIp0RegOffset + plicOffsetFromReg0 irq
  bitIndex := plicIrqBitIndex irq

def plicPriorityRegOffset (irq : Word) : Nat := plicPrio0RegOffset + irq.toNat * 4

/-! ## The functions -/

/-- The registers `plic_reset` clears, in order. -/
def plicResetOffsets : List Nat :=
  ((List.range rvPlicLeMultiregCount).map fun i => plicLe0RegOffset + i * 4) ++
  ((List.range rvPlicParamNumSrc.toNat).map fun i => plicPriorityRegOffset (BitVec.ofNat 32 i)) ++
  (List.range rvPlicParamNumTarget.toNat).flatMap fun target =>
    ((List.range rvPlicIe0MultiregCount).map fun i =>
      plicIrqEnableBaseForTarget (BitVec.ofNat 32 target) + i * 4) ++
    [plicThresholdBaseForTarget (BitVec.ofNat 32 target),
      plicSoftwareIrqBaseForTarget (BitVec.ofNat 32 target)]

def plicReset : PlicIo Unit := Io.stores (plicResetOffsets.map fun offset => (offset, 0)) ()

/-- The result and `*plic` afterwards. -/
def difPlicInit (params : DifPlicParams) (plic : Option DifPlic) :
    PlicIo (DifPlicResult × Option DifPlic) :=
  match plic with
  | none => pure (.kDifPlicBadArg, none)
  | some _ => do
    plicReset
    pure (.kDifPlicOk, some ⟨params⟩)

/-- The result and `*state` afterwards. -/
def difPlicIrqGetEnabled (plic : Option DifPlic) (irq target : Word) (state : DifPlicToggle) :
    PlicIo (DifPlicResult × DifPlicToggle) :=
  if plic = none ∨ irq ≥ rvPlicParamNumSrc ∨ target ≥ rvPlicParamNumTarget then
    pure (.kDifPlicBadArg, state)
  else do
    let regInfo := plicIrqEnableRegInfo irq target
    let reg ← Io.load regInfo.offset
    let isEnabled := bitfieldBit32Read reg regInfo.bitIndex
    pure (.kDifPlicOk, if isEnabled then .kDifPlicToggleEnabled else .kDifPlicToggleDisabled)

/-- The flag of a toggle. -/
def DifPlicToggle.flag : DifPlicToggle → Option Bool
  | .kDifPlicToggleEnabled => some true
  | .kDifPlicToggleDisabled => some false
  | .other _ => none

/-- The flag of a trigger. -/
def DifPlicIrqTrigger.flag : DifPlicIrqTrigger → Option Bool
  | .kDifPlicIrqTriggerEdge => some true
  | .kDifPlicIrqTriggerLevel => some false
  | .other _ => none

/-- Write a bit of a register. -/
def writeBit (regInfo : PlicRegInfo) (flag : Bool) : PlicIo Unit := do
  let reg ← Io.load regInfo.offset
  Io.store regInfo.offset (bitfieldBit32Write reg regInfo.bitIndex flag)

def difPlicIrqSetEnabled (plic : Option DifPlic) (irq target : Word) (state : DifPlicToggle) :
    PlicIo DifPlicResult :=
  if plic = none ∨ irq ≥ rvPlicParamNumSrc ∨ target ≥ rvPlicParamNumTarget then
    pure .kDifPlicBadArg
  else
    match state.flag with
    | none => pure .kDifPlicBadArg
    | some flag => do
      writeBit (plicIrqEnableRegInfo irq target) flag
      pure .kDifPlicOk

def difPlicIrqSetTrigger (plic : Option DifPlic) (irq : Word) (trigger : DifPlicIrqTrigger) :
    PlicIo DifPlicResult :=
  if plic = none ∨ irq ≥ rvPlicParamNumSrc then pure .kDifPlicBadArg
  else
    match trigger.flag with
    | none => pure .kDifPlicBadArg
    | some flag => do
      writeBit (plicIrqTriggerTypeRegInfo irq) flag
      pure .kDifPlicOk

def difPlicIrqSetPriority (plic : Option DifPlic) (irq priority : Word) : PlicIo DifPlicResult :=
  if plic = none ∨ irq ≥ rvPlicParamNumSrc ∨ priority > kDifPlicMaxPriority then
    pure .kDifPlicBadArg
  else do
    Io.store (plicPriorityRegOffset irq) priority
    pure .kDifPlicOk

def difPlicTargetSetThreshold (plic : Option DifPlic) (target threshold : Word) :
    PlicIo DifPlicResult :=
  if plic = none ∨ target ≥ rvPlicParamNumTarget ∨ threshold > kDifPlicMaxPriority then
    pure .kDifPlicBadArg
  else do
    Io.store (plicThresholdBaseForTarget target) threshold
    pure .kDifPlicOk

/-- The result and `*is_pending` afterwards. -/
def difPlicIrqIsPending (plic : Option DifPlic) (irq : Word) (isPending : Option Bool) :
    PlicIo (DifPlicResult × Option Bool) :=
  if plic = none ∨ irq ≥ rvPlicParamNumSrc ∨ isPending = none then
    pure (.kDifPlicBadArg, isPending)
  else do
    let regInfo := plicIrqPendingRegInfo irq
    let reg ← Io.load regInfo.offset
    pure (.kDifPlicOk, some (bitfieldBit32Read reg regInfo.bitIndex))

/-- The result and `*claim_data` afterwards. -/
def difPlicIrqClaim (plic : Option DifPlic) (target : Word) (claimData : Option Word) :
    PlicIo (DifPlicResult × Option Word) :=
  if plic = none ∨ target ≥ rvPlicParamNumTarget ∨ claimData = none then
    pure (.kDifPlicBadArg, claimData)
  else do
    let irq ← Io.load (plicClaimCompleteBaseForTarget target)
    pure (.kDifPlicOk, some irq)

def difPlicIrqComplete (plic : Option DifPlic) (target : Word) (completeData : Option Word) :
    PlicIo DifPlicResult :=
  match completeData with
  | none => pure .kDifPlicBadArg
  | some irq =>
    if plic = none ∨ target ≥ rvPlicParamNumTarget then pure .kDifPlicBadArg
    else do
      -- "to notify the PLIC of the IRQ completion"
      Io.store (plicClaimCompleteBaseForTarget target) irq
      pure .kDifPlicOk

def difPlicSoftwareIrqForce (plic : Option DifPlic) (target : Word) : PlicIo DifPlicResult :=
  if plic = none ∨ target ≥ rvPlicParamNumTarget then pure .kDifPlicBadArg
  else do
    Io.store (plicSoftwareIrqBaseForTarget target) 1
    pure .kDifPlicOk

def difPlicSoftwareIrqAcknowledge (plic : Option DifPlic) (target : Word) : PlicIo DifPlicResult :=
  if plic = none ∨ target ≥ rvPlicParamNumTarget then pure .kDifPlicBadArg
  else do
    Io.store (plicSoftwareIrqBaseForTarget target) 0
    pure .kDifPlicOk

/-- The result and `*is_pending` afterwards. -/
def difPlicSoftwareIrqIsPending (plic : Option DifPlic) (target : Word) (isPending : Option Bool) :
    PlicIo (DifPlicResult × Option Bool) :=
  if plic = none ∨ target ≥ rvPlicParamNumTarget ∨ isPending = none then
    pure (.kDifPlicBadArg, isPending)
  else do
    let registerValue ← Io.load (plicSoftwareIrqBaseForTarget target)
    pure (.kDifPlicOk, some (registerValue == 1))

end XHeepFemu.Hal
