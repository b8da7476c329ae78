import Mathlib.Data.List.TakeWhile
import XHeepFemu.Scpi.Datum
import XHeepFemu.Scpi.Match
import XHeepFemu.Scpi.NumberText

/-!
# Writing results

`SCPI_Result…` of `libscpi/parser.c`: what a query writes, a comma before each
result but the first. `write_datum` says that every result is the text of a
parameter. The header of a block has room for nine digits of its length, and
none for the NUL behind a tenth.
-/

namespace XHeepFemu.Scpi

/-- The part of `scpi_t` that results use: what `interface->write` got since the command
started, the counters, and how often `SCPI_ERROR_SYSTEM_ERROR` was pushed. -/
structure Output where
  text : Text
  outputCount : Nat
  arbitraryRemaining : Nat
  systemErrors : Nat
  deriving DecidableEq, Repr

/-- As `processCommand` sets it up. -/
def Output.empty : Output := ⟨[], 0, 0, 0⟩

def writeData (o : Output) (data : Text) : Output := { o with text := o.text ++ data }

def writeDelimiter (o : Output) : Output := if o.outputCount > 0 then writeData o [44] else o

/-- `output_count++`. -/
def Output.counted (o : Output) : Output := { o with outputCount := o.outputCount + 1 }

def scpiResultCharacters (o : Output) (data : Text) : Output :=
  (writeData (writeDelimiter o) data).counted

def getBasePrefix : Int → Option Text
  | 2 => some [35, 66]
  | 8 => some [35, 81]
  | 16 => some [35, 72]
  | _ => none

/-- `resultUInt32BaseSign` and `resultUInt64BaseSign` behind their conversion. -/
def resultBaseSign (o : Output) (buffer : Text) (base : Int) : Output :=
  let o := writeDelimiter o
  let o := match getBasePrefix base with
    | some basePrefix => writeData o basePrefix
    | none => o
  (writeData o buffer).counted

def resultUInt32BaseSign (o : Output) (val : BitVec 32) (base : Int) (sign : Bool) : Output :=
  resultBaseSign o (uint32ToStrBaseSign val 33 base sign).1 base

def resultUInt64BaseSign (o : Output) (val : BitVec 64) (base : Int) (sign : Bool) : Output :=
  resultBaseSign o (uint64ToStrBaseSign val 65 base sign).1 base

def scpiResultInt32 (o : Output) (val : BitVec 32) : Output := resultUInt32BaseSign o val 10 true

def scpiResultUInt32Base (o : Output) (val : BitVec 32) (base : Int) : Output :=
  resultUInt32BaseSign o val base false

def scpiResultInt64 (o : Output) (val : BitVec 64) : Output := resultUInt64BaseSign o val 10 true

def scpiResultUInt64Base (o : Output) (val : BitVec 64) (base : Int) : Output :=
  resultUInt64BaseSign o val base false

def scpiResultBool (o : Output) (val : Bool) : Output :=
  resultUInt32BaseSign o (if val then 1 else 0) 10 false

/-- The `while` of `SCPI_ResultText`. -/
def writeQuotes : Nat → Output → Text → Output
  | 0, o, data => writeData o data
  | n + 1, o, data =>
    match strnpbrk data [34] with
    | some quote =>
      writeQuotes n (writeData (writeData o (data.take (quote + 1))) [34]) (data.drop (quote + 1))
    | none => writeData o data

/-- `data` ends at its first NUL. -/
def scpiResultText (o : Output) (data : Text) : Output :=
  let data := data.takeWhile (· != 0)
  (writeData (writeQuotes data.length (writeData (writeDelimiter o) [34]) data) [34]).counted

/-- `none` is a `strlen` that leaves `block_header`. -/
def scpiResultArbitraryBlockHeader (o : Output) (len : Nat) : Option Output :=
  let (digits, terminated) := uint32ToStrBaseSign (BitVec.ofNat 32 len) 10 10 false
  if terminated then
    let header := 35 :: UInt8.ofNat (digits.length + 48) :: digits
    some (writeData (writeDelimiter { o with arbitraryRemaining := len }) header)
  else none

def scpiResultArbitraryBlockData (o : Output) (data : Text) : Output :=
  if o.arbitraryRemaining < data.length then { o with systemErrors := o.systemErrors + 1 }
  else
    let o := { o with arbitraryRemaining := o.arbitraryRemaining - data.length }
    writeData (if o.arbitraryRemaining = 0 then o.counted else o) data

def scpiResultArbitraryBlock (o : Output) (data : Text) : Option Output :=
  (scpiResultArbitraryBlockHeader o data.length).map fun o => scpiResultArbitraryBlockData o data

/-! ## Results -/

/-- A call of one of these functions. -/
inductive Result where
  | int32 (val : BitVec 32)
  | uint32 (val : BitVec 32) (base : Int)
  | int64 (val : BitVec 64)
  | uint64 (val : BitVec 64) (base : Int)
  | bool (val : Bool)
  | text (data : Text)
  | block (data : Text)
  | characters (data : Text)
  deriving DecidableEq, Repr

namespace Result

def write (o : Output) : Result → Option Output
  | int32 val => some (scpiResultInt32 o val)
  | uint32 val base => some (scpiResultUInt32Base o val base)
  | int64 val => some (scpiResultInt64 o val)
  | uint64 val base => some (scpiResultUInt64Base o val base)
  | bool val => some (scpiResultBool o val)
  | text data => some (scpiResultText o data)
  | block data => scpiResultArbitraryBlock o data
  | characters data => some (scpiResultCharacters o data)

/-- What a result can be read back from: a string of 7-bit characters, a block that its header
can announce, a mnemonic. -/
inductive WellFormed : Result → Prop where
  | int32 {val : BitVec 32} : WellFormed (.int32 val)
  | uint32 {val : BitVec 32} {base : Int} : WellFormed (.uint32 val base)
  | int64 {val : BitVec 64} : WellFormed (.int64 val)
  | uint64 {val : BitVec 64} {base : Int} : WellFormed (.uint64 val base)
  | bool {val : Bool} : WellFormed (.bool val)
  | text {data : Text} : (∀ c ∈ data, c ≠ 0 ∧ isascii7bit c = true) → WellFormed (.text data)
  | block {data : Text} : data.length < 10 ^ 9 → WellFormed (.block data)
  | characters {data : Text} : IsMnemonic data → WellFormed (.characters data)

theorem wellFormed_text {data : Text}
    (h : data.all (fun c => c != 0 && isascii7bit c) = true) : (text data).WellFormed := by
  refine .text fun c hc => ?_
  simpa using List.all_eq_true.mp h c hc

/-- An unsigned number in the base the code takes. -/
def unsignedDatum (base : Int) (n : Nat) : Datum :=
  match base with
  | 2 => .nondecimal .bin (numeral 2 n)
  | 8 => .nondecimal .oct (numeral 8 n)
  | 16 => .nondecimal .hex (numeral 16 n)
  | _ => .integer false (numeral 10 n)

/-- The parameter a result is. -/
def datum : Result → Datum
  | int32 val => .integer val.msb (numeral 10 (magnitude val))
  | uint32 val base => unsignedDatum base val.toNat
  | int64 val => .integer val.msb (numeral 10 (magnitude val))
  | uint64 val base => unsignedDatum base val.toNat
  | bool val => .integer false (numeral 10 (if val then 1 else 0))
  | text data => .quoted 34 data
  | block data => .block (numeral 10 data.length) data
  | characters data => .word data

end Result

/-! ## What is written -/

variable {o : Output}

/-- One result on top of another output. -/
structure Written (o : Output) (d : Datum) (o' : Output) : Prop where
  text : o'.text = (writeDelimiter o).text ++ d.text
  outputCount : o'.outputCount = o.outputCount + 1
  systemErrors : o'.systemErrors = o.systemErrors

theorem writeDelimiter_counters (o : Output) : (writeDelimiter o).outputCount = o.outputCount ∧
    (writeDelimiter o).systemErrors = o.systemErrors := by
  unfold writeDelimiter
  split <;> exact ⟨rfl, rfl⟩

theorem weights_base (base : Int) : (weights64 base).2 = (weights32 base).2 := by
  unfold weights32 weights64
  split <;> rfl

theorem unsignedDatum_text (base : Int) (n : Nat) :
    (Result.unsignedDatum base n).text =
      (getBasePrefix base).getD [] ++ numeral (weights32 base).2 n := by
  rcases eq_or_ne base 2 with rfl | h2
  · rfl
  rcases eq_or_ne base 8 with rfl | h8
  · rfl
  rcases eq_or_ne base 16 with rfl | h16
  · rfl
  simp [Result.unsignedDatum, getBasePrefix, weights32, Datum.text]

theorem resultBaseSign_written (o : Output) {buffer : Text} {base : Int} {d : Datum}
    (hd : d.text = (getBasePrefix base).getD [] ++ buffer) :
    Written o d (resultBaseSign o buffer base) := by
  obtain ⟨hcount, herrors⟩ := writeDelimiter_counters o
  unfold resultBaseSign
  cases hbase : getBasePrefix base with
  | none =>
    rw [hbase] at hd
    exact ⟨by rw [hd]; rfl, congrArg (· + 1) hcount, herrors⟩
  | some basePrefix =>
    rw [hbase] at hd
    refine ⟨?_, congrArg (· + 1) hcount, herrors⟩
    rw [hd, ← List.append_assoc]
    rfl

theorem doubleQuotes_append (quote : Byte) (s t : Text) :
    doubleQuotes quote (s ++ t) = doubleQuotes quote s ++ doubleQuotes quote t :=
  List.flatMap_append

theorem doubleQuotes_free {quote : Byte} {s : Text} (hs : quote ∉ s) : doubleQuotes quote s = s := by
  induction s with
  | nil => rfl
  | cons c s ih =>
    rw [List.mem_cons, not_or] at hs
    unfold doubleQuotes at ih ⊢
    rw [List.flatMap_cons, if_neg (Ne.symm hs.1), ih hs.2]
    rfl

theorem exists_quote {data : Text} (hzero : 0 ∉ data) : ∃ front rest, data = front ++ rest ∧
    Free [34] front ∧ (rest = [] ∨ ∃ t, rest = 34 :: t) := by
  refine ⟨data.takeWhile (· != 34), data.dropWhile (· != 34),
    (List.takeWhile_append_dropWhile ..).symm, fun c hc => ⟨?_, ?_⟩, ?_⟩
  · rintro rfl
    exact hzero ((List.takeWhile_prefix _).subset hc)
  · have := List.all_eq_true.mp List.all_takeWhile c hc
    simpa using this
  · cases hrest : data.dropWhile (· != 34) with
    | nil => exact .inl rfl
    | cons d t =>
      have hhead := List.head_dropWhile_not (· != 34) (l := data) (by rw [hrest]; exact nofun)
      simp only [hrest, List.head_cons, bne_eq_false_iff_eq] at hhead
      exact .inr ⟨t, by rw [hhead]⟩

theorem writeQuotes_eq {n : Nat} {data : Text} (hn : data.length ≤ n) (hzero : 0 ∉ data)
    (o : Output) : writeQuotes n o data = writeData o (doubleQuotes 34 data) := by
  induction n generalizing o data with
  | zero =>
    rw [List.length_eq_zero_iff.mp (Nat.le_zero.mp hn)]
    rfl
  | succ n ih =>
    obtain ⟨front, rest, rfl, hfree, hrest⟩ := exists_quote hzero
    have hfront : doubleQuotes 34 front = front :=
      doubleQuotes_free fun h => (hfree 34 h).2 (List.mem_singleton_self 34)
    rw [writeQuotes, strnpbrk_append hfree, doubleQuotes_append, hfront]
    rcases hrest with rfl | ⟨t, rfl⟩
    · rfl
    · rw [strnpbrk_cons (by decide) (List.mem_singleton_self 34)]
      have htake : (front ++ 34 :: t).take (0 + front.length + 1) = front ++ [34] := by
        rw [Nat.zero_add, List.take_append, List.take_of_length_le (Nat.le_succ _)]
        simp
      have hdrop : (front ++ 34 :: t).drop (0 + front.length + 1) = t := by
        rw [Nat.zero_add, ← List.drop_drop, List.drop_left]
        rfl
      have hquote : doubleQuotes 34 (34 :: t) = 34 :: 34 :: doubleQuotes 34 t := rfl
      have hlen : t.length ≤ n := by
        simp only [List.length_append, List.length_cons] at hn
        omega
      simp only [Option.map_some, htake, hdrop, hquote]
      rw [ih hlen fun h => hzero (by simp [h])]
      simp [writeData]

theorem scpiResultText_written (o : Output) {data : Text} (hzero : 0 ∉ data) :
    Written o (.quoted 34 data) (scpiResultText o data) := by
  obtain ⟨hcount, herrors⟩ := writeDelimiter_counters o
  have htake : data.takeWhile (· != 0) = data := by
    rw [List.takeWhile_eq_self_iff]
    intro c hc
    rw [bne_iff_ne]
    exact fun h => hzero (h ▸ hc)
  unfold scpiResultText
  rw [htake]
  simp only [writeQuotes_eq (Nat.le_refl _) hzero]
  exact ⟨by simp [writeData, Output.counted, Datum.text], congrArg (· + 1) hcount, herrors⟩

/-- A length that its header can announce. -/
theorem scpiResultArbitraryBlock_written (o : Output) {data : Text} (hlen : data.length < 10 ^ 9) :
    ∃ o', scpiResultArbitraryBlock o data = some o' ∧
      Written o (.block (numeral 10 data.length) data) o' := by
  have hlength : (numeral 10 data.length).length ≤ 9 := numeral_length (by decide) hlen
  have hheader : scpiResultArbitraryBlockHeader o data.length =
      some (writeData (writeDelimiter { o with arbitraryRemaining := data.length })
        (35 :: UInt8.ofNat (48 + (numeral 10 data.length).length) :: numeral 10 data.length)) := by
    unfold scpiResultArbitraryBlockHeader
    rw [uint32ToStr_blockLength hlen, Nat.add_comm]
    rfl
  unfold scpiResultArbitraryBlock
  rw [hheader]
  refine ⟨_, rfl, ?_⟩
  generalize hstart : ({ o with arbitraryRemaining := data.length } : Output) = start
  obtain ⟨hcount, herrors⟩ := writeDelimiter_counters start
  have hremaining : (writeDelimiter start).arbitraryRemaining = data.length := by
    unfold writeDelimiter
    rw [← hstart]
    split <;> rfl
  have htext : (writeDelimiter start).text = (writeDelimiter o).text := by
    unfold writeDelimiter
    rw [← hstart]
    dsimp only
    split <;> rfl
  unfold scpiResultArbitraryBlockData
  simp only [writeData, hremaining]
  rw [if_neg (Nat.lt_irrefl _), if_pos (Nat.sub_self _)]
  refine ⟨?_, ?_, ?_⟩
  · simp [Output.counted, htext, Datum.text]
  · simp only [Output.counted, hcount]
    rw [← hstart]
  · simp only [Output.counted, herrors]
    rw [← hstart]

/-- **Every result is written as the parameter it is.** -/
theorem Result.write_datum {r : Result} (hr : r.WellFormed) (o : Output) :
    ∃ o', r.write o = some o' ∧ Written o r.datum o' := by
  cases hr with
  | @int32 val =>
    refine ⟨_, rfl, ?_⟩
    rw [scpiResultInt32, resultUInt32BaseSign, uint32ToStr_signed]
    exact resultBaseSign_written o rfl
  | @uint32 val base =>
    refine ⟨_, rfl, resultBaseSign_written o ?_⟩
    rw [uint32ToStr_unsigned]
    exact unsignedDatum_text base _
  | @int64 val =>
    refine ⟨_, rfl, ?_⟩
    rw [scpiResultInt64, resultUInt64BaseSign, uint64ToStr_signed]
    exact resultBaseSign_written o rfl
  | @uint64 val base =>
    refine ⟨_, rfl, resultBaseSign_written o ?_⟩
    rw [uint64ToStr_unsigned, weights_base]
    exact unsignedDatum_text base _
  | @bool val =>
    refine ⟨_, rfl, ?_⟩
    rw [scpiResultBool, resultUInt32BaseSign, uint32ToStr_unsigned]
    exact resultBaseSign_written o (by cases val <;> rfl)
  | text hdata => exact ⟨_, rfl, scpiResultText_written o fun h => (hdata 0 h).1 rfl⟩
  | block hlen => exact scpiResultArbitraryBlock_written o hlen
  | characters hdata =>
    obtain ⟨hcount, herrors⟩ := writeDelimiter_counters o
    exact ⟨_, rfl, rfl, congrArg (· + 1) hcount, herrors⟩

/-! ## The results of a query -/

def writeAll : Output → List Result → Option Output
  | o, [] => some o
  | o, r :: rs => (r.write o).bind fun o => writeAll o rs

theorem writeAll_counted {rs : List Result} (hrs : ∀ r ∈ rs, r.WellFormed) (o : Output)
    (hcount : 0 < o.outputCount) :
    ∃ o', writeAll o rs = some o' ∧
      o'.text = o.text ++ rs.flatMap (fun r => 44 :: r.datum.text) ∧
      o'.systemErrors = o.systemErrors := by
  induction rs generalizing o with
  | nil => exact ⟨o, rfl, by simp, rfl⟩
  | cons r rs ih =>
    obtain ⟨o₁, hwrite, htext, hnext, herrors⟩ := r.write_datum (hrs r (List.mem_cons_self ..)) o
    obtain ⟨o', hall, htext', herrors'⟩ :=
      ih (fun s hs => hrs s (List.mem_cons_of_mem _ hs)) o₁ (by omega)
    have hdelimiter : (writeDelimiter o).text = o.text ++ [44] := by
      rw [writeDelimiter, if_pos hcount]
      rfl
    refine ⟨o', by rw [writeAll, hwrite]; exact hall, ?_, herrors'.trans herrors⟩
    rw [htext', htext, hdelimiter]
    simp

theorem dataText_flatMap (d : Datum) (ds : List Datum) :
    dataText (d :: ds) = d.text ++ ds.flatMap (fun d => 44 :: d.text) := by
  induction ds generalizing d with
  | nil => simp [dataText]
  | cons d' ds ih =>
    have hsplit : dataText (d :: d' :: ds) = d.text ++ 44 :: dataText (d' :: ds) := by
      simp [dataText]
    rw [hsplit, ih, List.flatMap_cons]
    rfl

/-- A query writes the text of its results as parameters. -/
theorem writeAll_text {rs : List Result} (hrs : ∀ r ∈ rs, r.WellFormed) :
    ∃ o, writeAll .empty rs = some o ∧ o.text = dataText (rs.map Result.datum) ∧
      o.systemErrors = 0 := by
  cases rs with
  | nil => exact ⟨.empty, rfl, rfl, rfl⟩
  | cons r rs =>
    obtain ⟨o₁, hwrite, htext, hnext, herrors⟩ :=
      r.write_datum (hrs r (List.mem_cons_self ..)) .empty
    obtain ⟨o, hall, htext', herrors'⟩ := writeAll_counted
      (fun s hs => hrs s (List.mem_cons_of_mem _ hs)) o₁ (by omega)
    refine ⟨o, by rw [writeAll, hwrite]; exact hall, ?_, herrors'.trans herrors⟩
    rw [htext', htext, List.map_cons, dataText_flatMap, List.flatMap_map]
    rfl

end XHeepFemu.Scpi
