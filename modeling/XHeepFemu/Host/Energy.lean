import Mathlib.Data.Rat.Defs
import Mathlib.Algebra.Order.Field.Rat
import Mathlib.Tactic.Ring
import XHeepFemu.Hw.MemMap

/-!
# Performance and energy tables

`read_perf_cnt`, `estimate_performance` and `estimate_energy` of
`sw/arm/sdk/x_heep_api.py`. Each writes a CSV file of 29 rows that the next one
reads back by row and column number. The tables of the three files are one function
of the module and its state, laid out by `table`; floats are exact rationals.
-/

namespace XHeepFemu.Host

/-- A field of a CSV file: a text, the text of `hex(n)` or the text of a float. -/
inductive Cell where
  | text (s : String)
  | hex (n : Nat)
  | num (q : ℚ)

instance : Coe String Cell := ⟨.text⟩

/-- `int(cell, base=16)`; `none` is the exception on a text that is no such number. -/
def Cell.int16 : Cell → Option Nat
  | .hex n => some n
  | _ => none

/-- `float(cell)` -/
def Cell.float : Cell → Option ℚ
  | .num q => some q
  | _ => none

def Cell.isText (s : String) : Cell → Bool
  | .text t => s == t
  | _ => false

/-- The rows of a CSV file. -/
abbrev Sheet := List (List Cell)

/-- `sheet[r][c]` -/
def Sheet.cell (sheet : Sheet) (r c : Nat) : Option Cell := (sheet[r]?).bind (·[c]?)

def Sheet.int16 (sheet : Sheet) (r c : Nat) : Option Nat := (sheet.cell r c).bind Cell.int16

def Sheet.float (sheet : Sheet) (r c : Nat) : Option ℚ := (sheet.cell r c).bind Cell.float

def writeRow : List (Option Cell) → Option (List Cell)
  | [] => some []
  | cell :: row => cell.bind fun c => (writeRow row).map (c :: ·)

/-- A sequence of `writerow`s; `none` when an argument raises. -/
def writeRows : List (List (Option Cell)) → Option Sheet
  | [] => some []
  | row :: rows => (writeRow row).bind fun r => (writeRows rows).map (r :: ·)

/-! ## The counters -/

/-- `hex(perf_cnt.read(k*4))` -/
def counter (read : Nat → Word) (k : Nat) : Cell := .hex (read (k * 4)).toNat

/-- `read offset` is what `perf_cnt.read(offset)` returns. -/
def readPerfCnt (read : Nat → Word) : Sheet :=
  let c := counter read
  [["module", "", "", "active cycles", "clock-gate cycles", "power-gate cycles",
      "retentive cycles", ""],
    ["x-heep", "", "", "", "", "", "", ""],
    ["", "cpu", "", c 3, c 4, c 5, "-", ""],
    ["", "bus ao", "", c 6, c 7, "-", "-", ""],
    ["", "debug ao", "", c 8, c 9, "-", "-", ""],
    ["", "always-on peripheral subsystem", "", "", "", "", "", ""],
    ["", "", "soc ctrl ao", c 10, c 11, "-", "-", ""],
    ["", "", "boot rom ao", c 12, c 13, "-", "-", ""],
    ["", "", "spi flash ao", c 14, c 15, "-", "-", ""],
    ["", "", "spi ao", c 16, c 17, "-", "-", ""],
    ["", "", "power manager ao", c 18, c 19, "-", "-", ""],
    ["", "", "timer ao", c 20, c 21, "-", "-", ""],
    ["", "", "dma ao", c 22, c 23, "-", "-", ""],
    ["", "", "fast int ctrl ao", c 24, c 25, "-", "-", ""],
    ["", "", "gpio ao", c 26, c 27, "-", "-", ""],
    ["", "", "uart ao", c 28, c 29, "-", "-", ""],
    ["", "peripheral subsystem", "", "", "", "", "", ""],
    ["", "", "plic", c 30, c 31, c 32, "-", ""],
    ["", "", "gpio", c 33, c 34, c 35, "-", ""],
    ["", "", "i2c", c 36, c 37, c 38, "-", ""],
    ["", "", "timer", c 39, c 40, c 41, "-", ""],
    ["", "", "spi", c 42, c 43, c 44, "-", ""],
    ["", "memory subsystem", "", "", "", "", "", ""],
    ["", "", "ram bank 0", c 45, c 46, c 47, c 48, ""],
    ["", "", "ram bank 1", c 49, c 50, c 51, c 52, ""],
    ["", "", "ram bank 2", c 53, c 54, c 55, c 56, ""],
    ["", "", "ram bank 3", c 57, c 58, c 59, c 60, ""],
    ["", "", "", "", "", "", "", ""],
    ["Total cycles", "", "", "", "", "", "", c 2]]

/-! ## The times -/

/-- `float(n*float(0.00000005))`: the counters run at 20 MHz. -/
def seconds (n : Nat) : ℚ := n * (5 / 10 ^ 8)

/-- `float(int(perf_cnt[r][c], base=16)*float(0.00000005))` -/
def time (perfCnt : Sheet) (r c : Nat) : Option Cell :=
  (perfCnt.int16 r c).map fun n => .num (seconds n)

def estimatePerformance (perfCnt : Sheet) : Option Sheet :=
  let t := time perfCnt
  writeRows
    [["module", "", "", "active cycles", "clock-gate cycles", "power-gate cycles",
        "retentive cycles", ""],
      ["x-heep", "", "", "", "", "", "", ""],
      ["", "cpu", "", t 2 3, t 2 4, t 2 5, "-", ""],
      ["", "bus ao", "", t 3 3, t 3 4, "-", "-", ""],
      ["", "debug ao", "", t 4 3, t 4 4, "-", "-", ""],
      ["", "always-on peripheral subsystem", "", "", "", "", "", ""],
      ["", "", "soc ctrl ao", t 6 3, t 6 4, "-", "-", ""],
      ["", "", "boot rom ao", t 7 3, t 7 4, "-", "-", ""],
      ["", "", "spi flash ao", t 8 3, t 8 4, "-", "-", ""],
      ["", "", "spi ao", t 9 3, t 9 4, "-", "-", ""],
      ["", "", "power manager ao", t 10 3, t 10 4, "-", "-", ""],
      ["", "", "timer ao", t 11 3, t 11 4, "-", "-", ""],
      ["", "", "dma ao", t 12 3, t 12 4, "-", "-", ""],
      ["", "", "fast int ctrl ao", t 13 3, t 13 4, "-", "-", ""],
      ["", "", "gpio ao", t 14 3, t 14 4, "-", "-", ""],
      ["", "", "uart ao", t 15 3, t 15 4, "-", "-", ""],
      ["", "peripheral subsystem", "", "", "", "", "", ""],
      ["", "", "plic", t 17 3, t 17 4, t 17 5, "-", ""],
      ["", "", "gpio", t 18 3, t 18 4, t 18 5, "-", ""],
      ["", "", "i2c", t 19 3, t 19 4, t 19 5, "-", ""],
      ["", "", "timer", t 20 3, t 20 4, t 20 5, "-", ""],
      ["", "", "spi", t 21 3, t 21 4, t 21 5, "-", ""],
      ["", "memory subsystem", "", "", "", "", "", ""],
      ["", "", "ram bank 0", t 23 3, t 23 4, t 23 5, t 23 6, ""],
      ["", "", "ram bank 1", t 24 3, t 24 4, t 24 5, t 24 6, ""],
      ["", "", "ram bank 2", t 25 3, t 25 4, t 25 5, t 25 6, ""],
      ["", "", "ram bank 3", t 26 3, t 26 4, t 26 5, t 26 6, ""],
      ["", "", "", "", "", "", "", ""],
      ["Total time", "", "", "", "", "", "", t 28 7]]

/-! ## The energies -/

def times (x y : Option ℚ) : Option ℚ := x.bind fun a => y.map fun b => a * b

def joules (power time : Option ℚ) : Option Cell := (times power time).map .num

/-- The terms that `estimate_energy` adds up to `energy`, in its order. -/
def energyTerms (powerValues perfEstim : Sheet) : List (Option ℚ) :=
  let p := powerValues.float
  let t := perfEstim.float
  [times (p 2 5) (t 2 3), times (p 2 3) (t 2 4), times (some 0) (t 2 5),
    times (p 3 5) (t 3 3), times (p 3 3) (t 3 4),
    times (p 4 5) (t 4 3), times (p 4 3) (t 4 4),
    times (p 6 5) (t 6 3), times (p 6 3) (t 6 4),
    times (p 7 5) (t 7 3), times (p 7 3) (t 7 4),
    times (p 8 5) (t 8 3), times (p 8 3) (t 8 4),
    times (p 9 5) (t 9 3), times (p 9 3) (t 9 4),
    times (p 10 5) (t 10 3), times (p 10 3) (t 10 4),
    times (p 11 5) (t 11 3), times (p 11 3) (t 11 4),
    times (p 12 5) (t 12 3), times (p 12 3) (t 12 4),
    times (p 13 5) (t 13 3), times (p 13 3) (t 13 4),
    times (p 14 5) (t 14 3), times (p 14 3) (t 14 4),
    times (p 15 5) (t 15 3), times (p 15 3) (t 15 4),
    times (p 17 5) (t 17 3), times (p 17 3) (t 17 4), times (some 0) (t 17 5),
    times (p 18 5) (t 18 3), times (p 18 3) (t 18 4), times (some 0) (t 18 5),
    times (p 19 5) (t 19 3), times (p 19 3) (t 19 4), times (some 0) (t 19 5),
    times (p 20 5) (t 20 3), times (p 20 3) (t 20 4), times (some 0) (t 20 5),
    times (p 21 5) (t 21 3), times (p 21 3) (t 21 4), times (some 0) (t 21 5),
    times (p 23 5) (t 23 3), times (p 23 3) (t 23 4), times (some 0) (t 23 5),
      times (p 23 6) (t 23 6),
    times (p 24 5) (t 24 3), times (p 24 3) (t 24 4), times (some 0) (t 24 5),
      times (p 24 6) (t 24 6),
    times (p 25 5) (t 25 3), times (p 25 3) (t 25 4), times (some 0) (t 25 5),
      times (p 25 6) (t 25 6),
    times (p 26 5) (t 26 3), times (p 26 3) (t 26 4), times (some 0) (t 26 5),
      times (p 26 6) (t 26 6),
    times (p 28 5) (t 28 7)]

/-- The sum of the terms; `none` when one of them raises. -/
def addUp : List (Option ℚ) → Option ℚ
  | [] => some 0
  | term :: terms => term.bind fun x => (addUp terms).map (x + ·)

def estimateEnergy (powerValues perfEstim : Sheet) : Option Sheet :=
  let p := powerValues.float
  let t := perfEstim.float
  (addUp (energyTerms powerValues perfEstim)).bind fun energy =>
    writeRows
      [["module", "", "", "active energy", "clock-gate energy", "power-gate energy",
          "retentive energy", ""],
        ["x-heep", "", "", "", "", "", "", ""],
        -- the power-gate energy of the cpu is `0*float(perf_estim[2][3])`
        ["", "cpu", "", joules (p 2 5) (t 2 3), joules (p 2 3) (t 2 4), joules (some 0) (t 2 3),
          "-", ""],
        ["", "bus ao", "", joules (p 3 5) (t 3 3), joules (p 3 3) (t 3 4), "-", "-", ""],
        ["", "debug ao", "", joules (p 4 5) (t 4 3), joules (p 4 3) (t 4 4), "-", "-", ""],
        ["", "always-on peripheral subsystem", "", "", "", "", "", ""],
        ["", "", "soc ctrl ao", joules (p 6 5) (t 6 3), joules (p 6 3) (t 6 4), "-", "-", ""],
        ["", "", "boot rom ao", joules (p 7 5) (t 7 3), joules (p 7 3) (t 7 4), "-", "-", ""],
        ["", "", "spi flash ao", joules (p 8 5) (t 8 3), joules (p 8 3) (t 8 4), "-", "-", ""],
        ["", "", "spi ao", joules (p 9 5) (t 9 3), joules (p 9 3) (t 9 4), "-", "-", ""],
        ["", "", "power manager ao", joules (p 10 5) (t 10 3), joules (p 10 3) (t 10 4),
          "-", "-", ""],
        ["", "", "timer ao", joules (p 11 5) (t 11 3), joules (p 11 3) (t 11 4), "-", "-", ""],
        ["", "", "dma ao", joules (p 12 5) (t 12 3), joules (p 12 3) (t 12 4), "-", "-", ""],
        ["", "", "fast int ctrl ao", joules (p 13 5) (t 13 3), joules (p 13 3) (t 13 4),
          "-", "-", ""],
        ["", "", "gpio ao", joules (p 14 5) (t 14 3), joules (p 14 3) (t 14 4), "-", "-", ""],
        ["", "", "uart ao", joules (p 15 5) (t 15 3), joules (p 15 3) (t 15 4), "-", "-", ""],
        ["", "peripheral subsystem", "", "", "", "", "", ""],
        ["", "", "plic", joules (p 17 5) (t 17 3), joules (p 17 3) (t 17 4),
          joules (some 0) (t 17 5), "-", ""],
        ["", "", "gpio", joules (p 18 5) (t 18 3), joules (p 18 3) (t 18 4),
          joules (some 0) (t 18 5), "-", ""],
        ["", "", "i2c", joules (p 19 5) (t 19 3), joules (p 19 3) (t 19 4),
          joules (some 0) (t 19 5), "-", ""],
        ["", "", "timer", joules (p 20 5) (t 20 3), joules (p 20 3) (t 20 4),
          joules (some 0) (t 20 5), "-", ""],
        ["", "", "spi", joules (p 21 5) (t 21 3), joules (p 21 3) (t 21 4),
          joules (some 0) (t 21 5), "-", ""],
        ["", "memory subsystem", "", "", "", "", "", ""],
        ["", "", "ram bank 0", joules (p 23 5) (t 23 3), joules (p 23 3) (t 23 4),
          joules (some 0) (t 23 5), joules (p 23 6) (t 23 6), ""],
        ["", "", "ram bank 1", joules (p 24 5) (t 24 3), joules (p 24 3) (t 24 4),
          joules (some 0) (t 24 5), joules (p 24 6) (t 24 6), ""],
        ["", "", "ram bank 2", joules (p 25 5) (t 25 3), joules (p 25 3) (t 25 4),
          joules (some 0) (t 25 5), joules (p 25 6) (t 25 6), ""],
        ["", "", "ram bank 3", joules (p 26 5) (t 26 3), joules (p 26 3) (t 26 4),
          joules (some 0) (t 26 5), joules (p 26 6) (t 26 6), ""],
        ["", "", "", "", "", "", "", ""],
        ["Total energy", "", "", "", "", "", "", some (.num energy)]]

/-! ## Modules and states -/

inductive HeepModule where
  | cpu | busAo | debugAo
  | socCtrlAo | bootRomAo | spiFlashAo | spiAo | powerManagerAo | timerAo | dmaAo
  | fastIntCtrlAo | gpioAo | uartAo
  | plic | gpio | i2c | timer | spi
  | ramBank0 | ramBank1 | ramBank2 | ramBank3

inductive PowerState where
  | active | clockGate | powerGate | retentive
  deriving DecidableEq

namespace HeepModule

def all : List HeepModule :=
  [cpu, busAo, debugAo, socCtrlAo, bootRomAo, spiFlashAo, spiAo, powerManagerAo, timerAo, dmaAo,
    fastIntCtrlAo, gpioAo, uartAo, plic, gpio, i2c, timer, spi, ramBank0, ramBank1, ramBank2,
    ramBank3]

/-- The name of the module in the files. -/
def label : HeepModule → String
  | cpu => "cpu" | busAo => "bus ao" | debugAo => "debug ao"
  | socCtrlAo => "soc ctrl ao" | bootRomAo => "boot rom ao" | spiFlashAo => "spi flash ao"
  | spiAo => "spi ao" | powerManagerAo => "power manager ao" | timerAo => "timer ao"
  | dmaAo => "dma ao" | fastIntCtrlAo => "fast int ctrl ao" | gpioAo => "gpio ao"
  | uartAo => "uart ao"
  | plic => "plic" | gpio => "gpio" | i2c => "i2c" | timer => "timer" | spi => "spi"
  | ramBank0 => "ram bank 0" | ramBank1 => "ram bank 1" | ramBank2 => "ram bank 2"
  | ramBank3 => "ram bank 3"

/-- The states in which the cycles of the module are counted. -/
def states : HeepModule → List PowerState
  | cpu | plic | gpio | i2c | timer | spi => [.active, .clockGate, .powerGate]
  | ramBank0 | ramBank1 | ramBank2 | ramBank3 => [.active, .clockGate, .powerGate, .retentive]
  | _ => [.active, .clockGate]

end HeepModule

/-- A row of a power table; the memories alone have a retentive power. -/
structure ModulePower where
  leakage : ℚ
  dynamic : ℚ
  total : ℚ
  retentive : ℚ

namespace PowerState

def cycles : PowerState → String
  | active => "active cycles"
  | clockGate => "clock-gate cycles"
  | powerGate => "power-gate cycles"
  | retentive => "retentive cycles"

def energy : PowerState → String
  | active => "active energy"
  | clockGate => "clock-gate energy"
  | powerGate => "power-gate energy"
  | retentive => "retentive energy"

/-- The power drawn in a state. -/
def power (p : ModulePower) : PowerState → ℚ
  | active => p.total
  | clockGate => p.leakage
  | powerGate => 0
  | retentive => p.retentive

end PowerState

/-- The first three columns of a row. -/
def labels (a b c : String) : List Cell := [a, b, c]

/-- The rows of `pwr_val/TSMC_65nm_HVT_20MHz.csv` and `pwr_val/TSMC_65nm_LVT_20MHz.csv`, with any
numbers in them. -/
def powerValues (power : HeepModule → ModulePower) (external : ModulePower) : Sheet :=
  let numbers (p : ModulePower) : List Cell := [.num p.leakage, .num p.dynamic, .num p.total]
  let top (label : String) (p : ModulePower) : List Cell :=
    labels "" label "" ++ numbers p ++ [Cell.text "-"]
  let row (label : String) (p : ModulePower) : List Cell :=
    labels "" "" label ++ numbers p ++ [Cell.text "-"]
  let ram (label : String) (p : ModulePower) : List Cell :=
    labels "" "" label ++ numbers p ++ [Cell.num p.retentive]
  [["module", "", "", "leakage", "dynamic", "total", "retentive"],
    ["x-heep", "", "", "", "", "", ""],
    top "cpu" (power .cpu),
    top "bus ao" (power .busAo),
    top "debug ao" (power .debugAo),
    ["", "alwayson peripheral subsystem", "", "", "", "", ""],
    row "soc ctrl ao" (power .socCtrlAo),
    row "boot rom ao" (power .bootRomAo),
    row "spi flash ao" (power .spiFlashAo),
    row "spi ao" (power .spiAo),
    row "power manager ao" (power .powerManagerAo),
    row "timer ao" (power .timerAo),
    row "dma ao" (power .dmaAo),
    row "fast int ctrl ao" (power .fastIntCtrlAo),
    row "gpio ao" (power .gpioAo),
    row "uart ao" (power .uartAo),
    ["", "peripheral subsystem", "", "", "", "", ""],
    row "plic" (power .plic),
    row "gpio" (power .gpio),
    row "i2c" (power .i2c),
    row "timer" (power .timer),
    row "spi" (power .spi),
    ["", "memory subsystem", "", "", "", "", ""],
    ram "ram bank 0" (power .ramBank0),
    ram "ram bank 1" (power .ramBank1),
    ram "ram bank 2" (power .ramBank2),
    ram "ram bank 3" (power .ramBank3),
    ["", "", "", "", "", "", ""],
    labels "external" "" "" ++ numbers external ++ [Cell.text ""]]

/-! ## The common layout -/

/-- The columns of the states of a module, `-` in those that are not counted. -/
def stateCells (m : HeepModule) (value : PowerState → Cell) : List Cell :=
  match m.states with
  | [_, _] => [value .active, value .clockGate, "-", "-"]
  | [_, _, _] => [value .active, value .clockGate, value .powerGate, "-"]
  | _ => [value .active, value .clockGate, value .powerGate, value .retentive]

/-- A file with the column titles `title`, the cells `value` and the last row `last`. -/
def table (title : PowerState → String) (value : HeepModule → PowerState → Cell)
    (last : String × Cell) : Sheet :=
  let top (m : HeepModule) : List Cell :=
    labels "" m.label "" ++ stateCells m (value m) ++ [Cell.text ""]
  let row (m : HeepModule) : List Cell :=
    labels "" "" m.label ++ stateCells m (value m) ++ [Cell.text ""]
  let group (s : String) : List Cell := ["", s, "", "", "", "", "", ""]
  [["module", "", "", title .active, title .clockGate, title .powerGate, title .retentive, ""],
    ["x-heep", "", "", "", "", "", "", ""],
    top .cpu, top .busAo, top .debugAo,
    group "always-on peripheral subsystem",
    row .socCtrlAo, row .bootRomAo, row .spiFlashAo, row .spiAo, row .powerManagerAo, row .timerAo,
    row .dmaAo, row .fastIntCtrlAo, row .gpioAo, row .uartAo,
    group "peripheral subsystem",
    row .plic, row .gpio, row .i2c, row .timer, row .spi,
    group "memory subsystem",
    row .ramBank0, row .ramBank1, row .ramBank2, row .ramBank3,
    ["", "", "", "", "", "", "", ""],
    [last.1, "", "", "", "", "", "", last.2]]

/-- The number of the first counter of a module. -/
def HeepModule.firstCounter : HeepModule → Nat
  | cpu => 3 | busAo => 6 | debugAo => 8
  | socCtrlAo => 10 | bootRomAo => 12 | spiFlashAo => 14 | spiAo => 16 | powerManagerAo => 18
  | timerAo => 20 | dmaAo => 22 | fastIntCtrlAo => 24 | gpioAo => 26 | uartAo => 28
  | plic => 30 | gpio => 33 | i2c => 36 | timer => 39 | spi => 42
  | ramBank0 => 45 | ramBank1 => 49 | ramBank2 => 53 | ramBank3 => 57

def PowerState.index : PowerState → Nat
  | active => 0 | clockGate => 1 | powerGate => 2 | retentive => 3

/-- The hardware counter of a module in a state. -/
def cyclesOf (read : Nat → Word) (m : HeepModule) (s : PowerState) : Nat :=
  (read ((m.firstCounter + s.index) * 4)).toNat

theorem readPerfCnt_table (read : Nat → Word) :
    readPerfCnt read =
      table PowerState.cycles (fun m s => .hex (cyclesOf read m s))
        ("Total cycles", .hex (read (2 * 4)).toNat) :=
  rfl

theorem estimatePerformance_table (n : HeepModule → PowerState → Nat) (total : Nat) :
    estimatePerformance (table PowerState.cycles (fun m s => .hex (n m s))
        ("Total cycles", .hex total)) =
      some (table PowerState.cycles (fun m s => .num (seconds (n m s)))
        ("Total time", .num (seconds total))) :=
  rfl

/-- The energies of all modules in all states. -/
def energies (p : HeepModule → ModulePower) (t : HeepModule → PowerState → ℚ) : List ℚ :=
  HeepModule.all.flatMap fun m => m.states.map fun s => s.power (p m) * t m s

theorem addUp_some (terms : List ℚ) : addUp (terms.map some) = some terms.sum := by
  induction terms with
  | nil => rfl
  | cons x terms ih =>
    rw [List.map_cons, List.sum_cons]
    show (addUp (terms.map some)).map (x + ·) = some (x + terms.sum)
    rw [ih, Option.map_some]

theorem energyTerms_table (p : HeepModule → ModulePower) (external : ModulePower)
    (t : HeepModule → PowerState → ℚ) (total : ℚ) :
    energyTerms (powerValues p external)
        (table PowerState.cycles (fun m s => .num (t m s)) ("Total time", .num total)) =
      (energies p t ++ [external.total * total]).map some :=
  rfl

theorem estimateEnergy_table (p : HeepModule → ModulePower) (external : ModulePower)
    (t : HeepModule → PowerState → ℚ) (total : ℚ) :
    estimateEnergy (powerValues p external)
        (table PowerState.cycles (fun m s => .num (t m s)) ("Total time", .num total)) =
      some (table PowerState.energy (fun m s => .num (s.power (p m) * t m s))
        ("Total energy", .num (energies p t ++ [external.total * total]).sum)) := by
  have cpu : ∀ sheet, sheet = table PowerState.cycles (fun m s => .num (t m s))
      ("Total time", .num total) →
      joules (some 0) (sheet.float 2 3) = joules (some 0) (sheet.float 2 5) := by
    rintro sheet rfl
    show some (Cell.num (0 * t .cpu .active)) = some (Cell.num (0 * t .cpu .powerGate))
    rw [zero_mul, zero_mul]
  dsimp only [estimateEnergy]
  rw [energyTerms_table, addUp_some, cpu _ rfl]
  rfl

/-! ## The entries of a file -/

/-- The cell in the row of `label` and the column of `title`. -/
def Sheet.entry (sheet : Sheet) (label title : String) : Option Cell :=
  (sheet.head?).bind fun header =>
    (header.findIdx? (Cell.isText title)).bind fun c =>
      (sheet.find? fun row => (row.take 3).any (Cell.isText label)).bind fun row => row[c]?

/-- All the numbers in the columns of the states. -/
def Sheet.numbers (sheet : Sheet) : List ℚ :=
  sheet.flatMap fun row => ((row.drop 3).take 4).filterMap Cell.float

theorem stateCells_index (m : HeepModule) (value : PowerState → Cell) (s : PowerState) :
    (stateCells m value)[s.index]? = some (if s ∈ m.states then value s else "-") := by
  cases m <;> cases s <;> rfl

theorem cycles_entry (value : HeepModule → PowerState → Cell) (last : String × Cell)
    (m : HeepModule) (s : PowerState) :
    (table PowerState.cycles value last).entry m.label s.cycles =
      (stateCells m (value m))[s.index]? := by
  cases m <;> cases s <;> rfl

theorem energy_entry (value : HeepModule → PowerState → Cell) (last : String × Cell)
    (m : HeepModule) (s : PowerState) :
    (table PowerState.energy value last).entry m.label s.energy =
      (stateCells m (value m))[s.index]? := by
  cases m <;> cases s <;> rfl

theorem cycles_entry_of_mem (value : HeepModule → PowerState → Cell) (last : String × Cell)
    {m : HeepModule} {s : PowerState} (hs : s ∈ m.states) :
    (table PowerState.cycles value last).entry m.label s.cycles = some (value m s) := by
  rw [cycles_entry, stateCells_index, if_pos hs]

theorem energy_entry_of_mem (value : HeepModule → PowerState → Cell) (last : String × Cell)
    {m : HeepModule} {s : PowerState} (hs : s ∈ m.states) :
    (table PowerState.energy value last).entry m.label s.energy = some (value m s) := by
  rw [energy_entry, stateCells_index, if_pos hs]

/-- A table has no number but those of the counted states. -/
theorem table_numbers (title : PowerState → String) (value : HeepModule → PowerState → ℚ)
    (last : String × Cell) :
    (table title (fun m s => .num (value m s)) last).numbers =
      HeepModule.all.flatMap fun m => m.states.map fun s => value m s :=
  rfl

theorem mem_table_numbers {title : PowerState → String} {value : HeepModule → PowerState → ℚ}
    {last : String × Cell} {q : ℚ}
    (hq : q ∈ (table title (fun m s => .num (value m s)) last).numbers) :
    ∃ m, ∃ s ∈ m.states, q = value m s := by
  rw [table_numbers, List.mem_flatMap] at hq
  obtain ⟨m, -, hm⟩ := hq
  obtain ⟨s, hs, rfl⟩ := List.mem_map.mp hm
  exact ⟨m, s, hs, rfl⟩

theorem seconds_eq (n : Nat) : seconds n = n * (50 / 10 ^ 9) := by
  unfold seconds
  congr 1
  norm_num

/-- The three files agree: for every counted state of a module the first one holds its counter, the
second one 50 ns for each of its cycles and the third one its power over that time; there is no other
number in the columns of the states, and the total energy is the sum of these and of the external
energy. -/
theorem estimates_consistent (read : Nat → Word) (p : HeepModule → ModulePower)
    (external : ModulePower) :
    ∃ (perfEstim energyEstim : Sheet) (totalTime energy : ℚ),
      estimatePerformance (readPerfCnt read) = some perfEstim ∧
      estimateEnergy (powerValues p external) perfEstim = some energyEstim ∧
      (∀ (m : HeepModule), ∀ s ∈ m.states, ∃ t : ℚ,
        (readPerfCnt read).entry m.label s.cycles = some (.hex (cyclesOf read m s)) ∧
        t = cyclesOf read m s * (50 / 10 ^ 9) ∧
        perfEstim.entry m.label s.cycles = some (.num t) ∧
        energyEstim.entry m.label s.energy = some (.num (s.power (p m) * t))) ∧
      (∀ t ∈ perfEstim.numbers, ∃ m : HeepModule, ∃ s ∈ m.states,
        perfEstim.entry m.label s.cycles = some (.num t)) ∧
      (∀ e ∈ energyEstim.numbers, ∃ m : HeepModule, ∃ s ∈ m.states,
        energyEstim.entry m.label s.energy = some (.num e)) ∧
      (readPerfCnt read).cell 28 7 = some (.hex (read (2 * 4)).toNat) ∧
      totalTime = (read (2 * 4)).toNat * (50 / 10 ^ 9) ∧
      perfEstim.cell 28 7 = some (.num totalTime) ∧
      energyEstim.cell 28 7 = some (.num energy) ∧
      energy = energyEstim.numbers.sum + external.total * totalTime := by
  refine ⟨_, _, _, _, estimatePerformance_table (cyclesOf read) (read (2 * 4)).toNat,
    estimateEnergy_table p external _ _, ?_, ?_, ?_, rfl, seconds_eq _, rfl, rfl, ?_⟩
  · intro m s hs
    refine ⟨_, ?_, seconds_eq _, cycles_entry_of_mem _ _ hs, energy_entry_of_mem _ _ hs⟩
    rw [readPerfCnt_table]
    exact cycles_entry_of_mem _ _ hs
  · intro t ht
    obtain ⟨m, s, hs, rfl⟩ := mem_table_numbers ht
    exact ⟨m, s, hs, cycles_entry_of_mem _ _ hs⟩
  · intro e he
    obtain ⟨m, s, hs, rfl⟩ := mem_table_numbers he
    exact ⟨m, s, hs, energy_entry_of_mem _ _ hs⟩
  · rw [List.sum_append, List.sum_singleton, table_numbers]
    rfl

end XHeepFemu.Host
