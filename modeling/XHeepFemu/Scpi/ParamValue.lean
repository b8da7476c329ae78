import XHeepFemu.Scpi.Match
import XHeepFemu.Scpi.Result

/-!
# Reading parameters as values

`SCPI_ParamInt32` and its siblings of `libscpi/parser.c`. What `SCPI_Result…`
writes they read back, each result as its value, with nothing left behind: so a
device that writes what another one reads loses nothing, whatever the strings
and the blocks contain.
-/

namespace XHeepFemu.Scpi

/-- What a reader pushes itself, beside the errors of `SCPI_Parameter`. -/
inductive ReadError where
  | suffixNotAllowed
  | dataTypeError
  | illegalParameterValue
  deriving DecidableEq, Repr

/-- The value of a reader that returns TRUE, the parameters behind it, and the error it pushed. -/
abbrev ReadResult (α : Type) := Option α × Params × Option ReadError

/-! ## Numbers -/

def scpiParamIsNumber (type : TokenType) (suffixAllowed : Bool) : Bool :=
  match type with
  | .hexnum => true
  | .octnum => true
  | .binnum => true
  | .decimalNumericProgramData => true
  | .decimalNumericProgramDataWithSuffix => suffixAllowed
  | _ => false

/-- `ParamSignToUInt32` and `ParamSignToUInt64`, by their conversions of signed and of unsigned
numbers. -/
def paramSignToUInt {w : Nat} (toInt toUInt : Text → Nat → BitVec w × Nat) (parameter : Token)
    (sign : Bool) : Option (BitVec w) :=
  let found (p : BitVec w × Nat) : Option (BitVec w) := if p.2 > 0 then some p.1 else none
  match parameter.type with
  | .hexnum => found (toUInt parameter.ptr 16)
  | .octnum => found (toUInt parameter.ptr 8)
  | .binnum => found (toUInt parameter.ptr 2)
  | .decimalNumericProgramData =>
    if sign then found (toInt parameter.ptr 10) else found (toUInt parameter.ptr 10)
  | .decimalNumericProgramDataWithSuffix =>
    if sign then found (toInt parameter.ptr 10) else found (toUInt parameter.ptr 10)
  | _ => none

def paramSignToUInt32 : Token → Bool → Option (BitVec 32) :=
  paramSignToUInt strBaseToInt32 strBaseToUInt32

def paramSignToUInt64 : Token → Bool → Option (BitVec 64) :=
  paramSignToUInt strBaseToInt64 strBaseToUInt64

/-- `ParamSignUInt32` and `ParamSignUInt64`, by their conversion. -/
def paramSignUInt {w : Nat} (convert : Token → Bool → Option (BitVec w)) (mandatory sign : Bool)
    (c : Params) : ReadResult (BitVec w) :=
  let (result, param, c) := scpiParameter mandatory c
  if result then
    if scpiParamIsNumber param.type false then (convert param sign, c, none)
    else if scpiParamIsNumber param.type true then (none, c, some .suffixNotAllowed)
    else (none, c, some .dataTypeError)
  else (none, c, none)

def scpiParamInt32 (mandatory : Bool) : Params → ReadResult (BitVec 32) :=
  paramSignUInt paramSignToUInt32 mandatory true

def scpiParamUInt32 (mandatory : Bool) : Params → ReadResult (BitVec 32) :=
  paramSignUInt paramSignToUInt32 mandatory false

def scpiParamInt64 (mandatory : Bool) : Params → ReadResult (BitVec 64) :=
  paramSignUInt paramSignToUInt64 mandatory true

def scpiParamUInt64 (mandatory : Bool) : Params → ReadResult (BitVec 64) :=
  paramSignUInt paramSignToUInt64 mandatory false

/-! ## Words and strings -/

/-- `*value` with its `*len`; a string comes without its outer quotes. -/
def scpiParamCharacters (mandatory : Bool) (c : Params) : ReadResult Text :=
  let (result, param, c) := scpiParameter mandatory c
  if result then
    match param.type with
    | .singleQuoteProgramData => (some ((param.ptr.drop 1).take (param.len - 2).toNat), c, none)
    | .doubleQuoteProgramData => (some ((param.ptr.drop 1).take (param.len - 2).toNat), c, none)
    | _ => (some (param.ptr.take param.len.toNat), c, none)
  else (none, c, none)

/-- The `for` of `SCPI_ParamCopyText`, from index `iFrom`; `buffer` holds `i_to` characters. -/
def copyText (param : Token) (bufferLen : Nat) (quote : Byte) : Nat → Nat → Text → Text
  | 0, _, buffer => buffer
  | n + 1, iFrom, buffer =>
    if iFrom < (param.len - 1).toNat then
      if iFrom ≥ bufferLen then buffer
      else
        let c := param.ptr.getD iFrom 0
        copyText param bufferLen quote n (if c = quote then iFrom + 2 else iFrom + 1) (buffer ++ [c])
    else buffer

def scpiParamCopyText (bufferLen : Nat) (mandatory : Bool) (c : Params) : ReadResult Text :=
  let (result, param, c) := scpiParameter mandatory c
  if result then
    match param.type with
    | .singleQuoteProgramData => (some (copyText param bufferLen 39 param.len.toNat 1 []), c, none)
    | .doubleQuoteProgramData => (some (copyText param bufferLen 34 param.len.toNat 1 []), c, none)
    | _ => (none, c, some .dataTypeError)
  else (none, c, none)

/-! ## Choices -/

def scpiParamToChoice (parameter : Token) (options : List (Text × Int)) :
    Option Int × Option ReadError :=
  if parameter.type = .programMnemonic then
    match options.find? fun option => (matchPattern option.1 (parameter.ptr.take parameter.len.toNat) none).1 with
    | some option => (some option.2, none)
    | none => (none, some .illegalParameterValue)
  else (none, some .dataTypeError)

/-- `OFF` and `ON`. -/
def scpiBoolDef : List (Text × Int) := [([79, 70, 70], 0), ([79, 78], 1)]

/-- `intval` is 0 where `SCPI_ParamToInt32` found no number. -/
def scpiParamBool (mandatory : Bool) (c : Params) : ReadResult Bool :=
  let (result, param, c) := scpiParameter mandatory c
  if result then
    if param.type = .decimalNumericProgramData then
      (some ((paramSignToUInt32 param true).getD 0 != 0), c, none)
    else
      let (intval, error) := scpiParamToChoice param scpiBoolDef
      (intval.map (· != 0), c, error)
  else (none, c, none)

/-! ## One parameter -/

theorem Stops.numberEnd {rest : Text} (h : Stops (fun c => digitValue c != 36) rest) :
    NumberEnd rest := fun c hc => by
  have := h c hc
  simpa using this

theorem DataEnd.numberEnd {rest : Text} (h : DataEnd rest) : NumberEnd rest :=
  Stops.numberEnd (h.stops rfl)

theorem token_isParameter (d : Datum) (rest : Text) : isParameterType (d.token rest).type = true := by
  cases d with
  | word k => rfl
  | integer negative digits => rfl
  | nondecimal radix digits => cases radix <;> rfl
  | quoted quote content =>
    unfold Datum.token
    dsimp only
    split <;> rfl
  | block digits data => rfl
  | expression content => rfl

theorem datum_ne_nil {d : Datum} (hd : d.WellFormed) : d.text ≠ [] := by
  cases hd with
  | word hk =>
    obtain ⟨c, s, rfl, -⟩ := hk.head
    exact List.cons_ne_nil c s
  | @integer negative digits hne _ => cases negative <;> simp [Datum.text, hne]
  | nondecimal _ _ => exact List.cons_ne_nil _ _
  | quoted _ _ => exact List.cons_ne_nil _ _
  | block _ _ _ => exact List.cons_ne_nil _ _
  | expression _ => exact List.cons_ne_nil _ _

/-- What stands before a parameter with `count` of them before it. -/
def separator (count : Nat) : Text := if count = 0 then [] else [44]

theorem scpiParameter_datum {d : Datum} (hd : d.WellFormed) {rest : Text} (hrest : DataEnd rest)
    (count : Nat) :
    scpiParameter true ⟨separator count ++ (d.text ++ rest), count, []⟩ =
      (true, d.token rest, ⟨rest, count + 1, []⟩) := by
  have hparse := parseProgramData_text hd hrest
  unfold scpiParameter separator
  by_cases hcount : count = 0
  · subst hcount
    simp [hparse, token_isParameter, datum_ne_nil hd]
  · have hcomma : scpiLexComma (44 :: (d.text ++ rest)) =
        ⟨d.text ++ rest, ⟨.comma, 44 :: (d.text ++ rest), 1⟩, 1⟩ :=
      lexedOf_append .comma (List.cons_ne_nil 44 []) (d.text ++ rest)
    simp only [if_neg hcount, List.cons_append, List.nil_append, hcomma, if_pos hcount, hparse,
      token_isParameter]
    rw [if_neg (by simp), if_neg (by simp)]
    rfl

/-! ## Reading a result -/

/-- The reader of a result. The buffer of a string is the one of `SCPI_ParamCopyText`. -/
inductive Kind where
  | int32
  | uint32
  | int64
  | uint64
  | bool
  | text (bufferLen : Nat)
  | block
  | characters
  deriving DecidableEq, Repr

inductive Value where
  | int32 (val : BitVec 32)
  | uint32 (val : BitVec 32)
  | int64 (val : BitVec 64)
  | uint64 (val : BitVec 64)
  | bool (val : Bool)
  | text (data : Text)
  | block (data : Text)
  | characters (data : Text)
  deriving DecidableEq, Repr

def ReadResult.map {α β : Type} (f : α → β) (r : ReadResult α) : ReadResult β :=
  (r.1.map f, r.2)

/-- A mandatory parameter. -/
def Kind.read : Kind → Params → ReadResult Value
  | int32, c => (scpiParamInt32 true c).map .int32
  | uint32, c => (scpiParamUInt32 true c).map .uint32
  | int64, c => (scpiParamInt64 true c).map .int64
  | uint64, c => (scpiParamUInt64 true c).map .uint64
  | bool, c => (scpiParamBool true c).map .bool
  | text bufferLen, c => (scpiParamCopyText bufferLen true c).map .text
  | block, c =>
    let (_, value, c) := scpiParamArbitraryBlock true c
    (value.map fun p => .block (p.1.take p.2), c, none)
  | characters, c => (scpiParamCharacters true c).map .characters

namespace Result

def kind (bufferLen : Nat) : Result → Kind
  | int32 _ => .int32
  | uint32 _ _ => .uint32
  | int64 _ => .int64
  | uint64 _ _ => .uint64
  | bool _ => .bool
  | text _ => .text bufferLen
  | block _ => .block
  | characters _ => .characters

def value : Result → Value
  | int32 val => .int32 val
  | uint32 val _ => .uint32 val
  | int64 val => .int64 val
  | uint64 val _ => .uint64 val
  | bool val => .bool val
  | text data => .text data
  | block data => .block data
  | characters data => .characters data

end Result

/-! ## Numbers come back -/

section Numbers

variable {w : Nat} {rest : Text} {count : Nat}

/-- The number a parameter is, for a reader that takes `sign`. -/
theorem paramSignUInt_datum {convert : Token → Bool → Option (BitVec w)} {sign : Bool} {d : Datum}
    (hd : d.WellFormed) (hnumber : scpiParamIsNumber (d.token rest).type false = true)
    (hrest : DataEnd rest) :
    paramSignUInt convert true sign ⟨separator count ++ (d.text ++ rest), count, []⟩ =
      (convert (d.token rest) sign, ⟨rest, count + 1, []⟩, none) := by
  unfold paramSignUInt
  rw [scpiParameter_datum hd hrest]
  simp only [hnumber, if_true]

theorem numeral_wellFormed (negative : Bool) (n : Nat) :
    (Datum.integer negative (numeral 10 n)).WellFormed := by
  refine .integer (numeral_ne_nil n) fun c hc => ?_
  obtain ⟨d, hd, rfl⟩ := numeral_digit (by decide) (by decide) hc
  have h : ∀ d : Fin 10, isdigit (digitChar d) = true := by decide
  exact h ⟨d, hd⟩

theorem unsignedDatum_wellFormed (base : Int) (n : Nat) :
    (Result.unsignedDatum base n).WellFormed := by
  unfold Result.unsignedDatum
  split
  · refine .nondecimal (numeral_ne_nil n) fun c hc => ?_
    obtain ⟨d, hd, rfl⟩ := numeral_digit (by decide) (by decide) hc
    have h : ∀ d : Fin 2, isbdigit (digitChar d) = true := by decide
    exact h ⟨d, hd⟩
  · refine .nondecimal (numeral_ne_nil n) fun c hc => ?_
    obtain ⟨d, hd, rfl⟩ := numeral_digit (by decide) (by decide) hc
    have h : ∀ d : Fin 8, isqdigit (digitChar d) = true := by decide
    exact h ⟨d, hd⟩
  · refine .nondecimal (numeral_ne_nil n) fun c hc => ?_
    obtain ⟨d, hd, rfl⟩ := numeral_digit (by decide) (by decide) hc
    have h : ∀ d : Fin 16, isxdigit (digitChar d) = true := by decide
    exact h ⟨d, hd⟩
  · exact numeral_wellFormed false n

theorem unsignedDatum_number (base : Int) (n : Nat) (rest : Text) :
    scpiParamIsNumber ((Result.unsignedDatum base n).token rest).type false = true := by
  unfold Result.unsignedDatum
  split <;> rfl

theorem paramSignToUInt_signed {toUInt : Text → Nat → BitVec w × Nat} (val : BitVec w)
    (hrest : NumberEnd rest) :
    paramSignToUInt (strtol w) toUInt
      ((Datum.integer val.msb (numeral 10 (magnitude val))).token rest) true = some val := by
  have htext := strtol_text val hrest
  have hlen : 0 < (integerText 10 val.msb (magnitude val)).length := by
    have := List.length_pos_iff.mpr (numeral_ne_nil (b := 10) (magnitude val))
    unfold integerText
    rw [List.length_append]
    omega
  show (if (strtol w (integerText 10 val.msb (magnitude val) ++ rest) 10).2 > 0 then
    some (strtol w (integerText 10 val.msb (magnitude val) ++ rest) 10).1 else none) = some val
  rw [htext, if_pos hlen]

/-- An unsigned one, in the base it was written in. -/
theorem paramSignToUInt_unsigned {toInt : Text → Nat → BitVec w × Nat} (base : Int) (val : BitVec w)
    (hrest : NumberEnd rest) :
    paramSignToUInt toInt (strtoul w) ((Result.unsignedDatum base val.toNat).token rest) false =
      some val := by
  have hread : ∀ b, 1 < b → b ≤ 16 →
      (if (strtoul w (numeral b val.toNat ++ rest) b).2 > 0 then
        some (strtoul w (numeral b val.toNat ++ rest) b).1 else none) = some val := by
    intro b hb hb16
    rw [strtoul_text hb hb16 val hrest, if_pos (List.length_pos_iff.mpr (numeral_ne_nil _))]
  unfold Result.unsignedDatum
  split
  · exact hread 2 (by decide) (by decide)
  · exact hread 8 (by decide) (by decide)
  · exact hread 16 (by decide) (by decide)
  · exact hread 10 (by decide) (by decide)

end Numbers

/-! ## Strings come back -/

theorem length_le_doubleQuotes (quote : Byte) (s : Text) :
    s.length ≤ (doubleQuotes quote s).length := by
  induction s with
  | nil => exact Nat.le_refl _
  | cons c s ih =>
    have hcons : doubleQuotes quote (c :: s) =
        (if c = quote then [quote, quote] else [c]) ++ doubleQuotes quote s := List.flatMap_cons
    rw [hcons, List.length_append, List.length_cons]
    split <;> simp <;> omega

theorem copyText_eq {param : Token} {bufferLen n : Nat} {s p t buffer : Text}
    (hptr : param.ptr = p ++ (doubleQuotes 34 s ++ t))
    (hlen : (param.len - 1).toNat = p.length + (doubleQuotes 34 s).length)
    (hroom : p.length + (doubleQuotes 34 s).length ≤ bufferLen) (hn : s.length < n) :
    copyText param bufferLen 34 n p.length buffer = buffer ++ s := by
  induction s generalizing p buffer n with
  | nil =>
    obtain ⟨n, rfl⟩ : ∃ k, n = k + 1 := ⟨n - 1, by omega⟩
    rw [copyText, if_neg (by rw [hlen]; simp [doubleQuotes]), List.append_nil]
  | cons c s ih =>
    obtain ⟨n, rfl⟩ : ∃ k, n = k + 1 := ⟨n - 1, by omega⟩
    rw [List.length_cons] at hn
    have hcons : doubleQuotes 34 (c :: s) = (if c = 34 then [34, 34] else [c]) ++ doubleQuotes 34 s :=
      List.flatMap_cons
    have hpos : 0 < (doubleQuotes 34 (c :: s)).length := by
      rw [hcons]
      split <;> simp
    have hget : param.ptr.getD p.length 0 = c := by
      rw [hptr, hcons]
      by_cases hc : c = 34
      · simp [hc]
      · simp [hc]
    rw [copyText, if_pos (by omega), if_neg (by omega), hget]
    dsimp only
    by_cases hc : c = 34
    · rw [if_pos hc] at hcons
      rw [if_pos hc, show p.length + 2 = (p ++ [34, 34]).length by simp,
        ih (p := p ++ [34, 34]) (by rw [hptr, hcons]; simp) (by rw [hlen, hcons]; simp; omega)
          (by rw [hcons] at hroom; simp at hroom ⊢; omega) (by omega)]
      simp
    · rw [if_neg hc] at hcons
      rw [if_neg hc, show p.length + 1 = (p ++ [c]).length by simp,
        ih (p := p ++ [c]) (by rw [hptr, hcons]; simp) (by rw [hlen, hcons]; simp; omega)
          (by rw [hcons] at hroom; simp at hroom ⊢; omega) (by omega)]
      simp

/-! ## Results come back -/

theorem foldl_digits {ds : Text} (hds : ∀ c ∈ ds, isdigit c = true) (v : Nat) :
    ds.foldl (fun n c => n * 10 + (c.toNat - 48)) v =
      (ds.map digitValue).foldl (fun v d => v * 10 + d) v := by
  induction ds generalizing v with
  | nil => rfl
  | cons c ds ih =>
    have hc : digitValue c = c.toNat - 48 := if_pos (hds c (List.mem_cons_self ..))
    rw [List.map_cons, List.foldl_cons, List.foldl_cons, hc,
      ih fun d hd => hds d (List.mem_cons_of_mem _ hd)]

theorem number_numeral (n : Nat) : number (numeral 10 n) = n := by
  have hvalue := horner_numeral (b := 10) (by decide) (by decide) n
  rw [number, foldl_digits fun c hc => ?_]
  · exact hvalue
  · obtain ⟨d, hd, rfl⟩ := numeral_digit (by decide) (by decide) hc
    have h : ∀ d : Fin 10, isdigit (digitChar d) = true := by decide
    exact h ⟨d, hd⟩

theorem Result.datum_wellFormed {r : Result} (hr : r.WellFormed) : r.datum.WellFormed := by
  cases hr with
  | int32 => exact numeral_wellFormed _ _
  | uint32 => exact unsignedDatum_wellFormed _ _
  | int64 => exact numeral_wellFormed _ _
  | uint64 => exact unsignedDatum_wellFormed _ _
  | bool => exact numeral_wellFormed _ _
  | text hdata => exact .quoted (.inl rfl) fun c hc => (hdata c hc).2
  | @block data hlen =>
    have hpos := List.length_pos_iff.mpr (numeral_ne_nil (b := 10) data.length)
    have hmax : (numeral 10 data.length).length ≤ 9 := numeral_length (by decide) hlen
    cases numeral_wellFormed false data.length with
    | integer _ hdigits => exact .block ⟨hpos, hmax⟩ hdigits (number_numeral _)
  | characters hdata => exact .word hdata

theorem paramBool_integer {d : Datum} (hd : d.WellFormed) {rest : Text} (hrest : DataEnd rest)
    (count : Nat) (htype : (d.token rest).type = .decimalNumericProgramData) :
    scpiParamBool true ⟨separator count ++ (d.text ++ rest), count, []⟩ =
      (some ((paramSignToUInt32 (d.token rest) true).getD 0 != 0), ⟨rest, count + 1, []⟩, none) := by
  unfold scpiParamBool
  rw [scpiParameter_datum hd hrest]
  simp only [htype, if_true]

theorem paramCopyText_quoted {data : Text} (hd : (Datum.quoted 34 data).WellFormed) {rest : Text}
    (hrest : DataEnd rest) (count : Nat) {bufferLen : Nat}
    (hbuffer : (doubleQuotes 34 data).length < bufferLen) :
    scpiParamCopyText bufferLen true
        ⟨separator count ++ ((Datum.quoted 34 data).text ++ rest), count, []⟩ =
      (some data, ⟨rest, count + 1, []⟩, none) := by
  have hlen : ((Datum.quoted 34 data).token rest).len = (doubleQuotes 34 data).length + 2 := by
    simp [Datum.token, Datum.text]
    omega
  have hcopy : copyText ((Datum.quoted 34 data).token rest) bufferLen 34
      ((Datum.quoted 34 data).token rest).len.toNat 1 [] = data := by
    have hshort := length_le_doubleQuotes 34 data
    refine (copyText_eq (p := [34]) (t := 34 :: rest) (s := data) ?_ ?_ ?_ ?_).trans
      (List.nil_append _)
    · simp [Datum.token, Datum.text]
    · rw [hlen]
      simp
      omega
    · simp
      omega
    · rw [hlen]
      omega
  unfold scpiParamCopyText
  rw [scpiParameter_datum hd hrest]
  show (some (copyText _ _ _ _ _ _), _) = _
  rw [hcopy]

theorem paramArbitraryBlock_block {digits data : Text} (hd : (Datum.block digits data).WellFormed)
    {rest : Text} (hrest : DataEnd rest) (count : Nat) :
    scpiParamArbitraryBlock true
        ⟨separator count ++ ((Datum.block digits data).text ++ rest), count, []⟩ =
      (true, some (data ++ rest, data.length), ⟨rest, count + 1, []⟩) := by
  unfold scpiParamArbitraryBlock
  rw [scpiParameter_datum hd hrest]
  rfl

theorem paramCharacters_word {k : Text} (hd : (Datum.word k).WellFormed) {rest : Text}
    (hrest : DataEnd rest) (count : Nat) :
    scpiParamCharacters true ⟨separator count ++ ((Datum.word k).text ++ rest), count, []⟩ =
      (some k, ⟨rest, count + 1, []⟩, none) := by
  unfold scpiParamCharacters
  rw [scpiParameter_datum hd hrest]
  show (some ((k ++ rest).take k.length), _) = _
  rw [List.take_left]

/-- A result is read as its value, and everything behind it is left. -/
theorem Result.read_datum {r : Result} (hr : r.WellFormed) {bufferLen : Nat}
    (hbuffer : ∀ data, r = .text data → (doubleQuotes 34 data).length < bufferLen) {rest : Text}
    (hrest : DataEnd rest) (count : Nat) :
    (r.kind bufferLen).read ⟨separator count ++ (r.datum.text ++ rest), count, []⟩ =
      (some r.value, ⟨rest, count + 1, []⟩, none) := by
  have hd := Result.datum_wellFormed hr
  have hend := hrest.numberEnd
  cases hr with
  | @int32 val =>
    have hread : paramSignToUInt32 ((Result.int32 val).datum.token rest) true = some val :=
      paramSignToUInt_signed val hend
    show ReadResult.map _ (paramSignUInt paramSignToUInt32 true true _) = _
    rw [paramSignUInt_datum hd rfl hrest, hread]
    rfl
  | @uint32 val base =>
    have hread : paramSignToUInt32 ((Result.uint32 val base).datum.token rest) false = some val :=
      paramSignToUInt_unsigned base val hend
    show ReadResult.map _ (paramSignUInt paramSignToUInt32 true false _) = _
    rw [paramSignUInt_datum hd (unsignedDatum_number base _ rest) hrest, hread]
    rfl
  | @int64 val =>
    have hread : paramSignToUInt64 ((Result.int64 val).datum.token rest) true = some val :=
      paramSignToUInt_signed val hend
    show ReadResult.map _ (paramSignUInt paramSignToUInt64 true true _) = _
    rw [paramSignUInt_datum hd rfl hrest, hread]
    rfl
  | @uint64 val base =>
    have hread : paramSignToUInt64 ((Result.uint64 val base).datum.token rest) false = some val :=
      paramSignToUInt_unsigned base val hend
    show ReadResult.map _ (paramSignUInt paramSignToUInt64 true false _) = _
    rw [paramSignUInt_datum hd (unsignedDatum_number base _ rest) hrest, hread]
    rfl
  | @bool val =>
    -- 0 and 1 are written as unsigned and read as signed numbers
    have hdatum : (Result.bool val).datum = .integer (if val then (1 : BitVec 32) else 0).msb
        (numeral 10 (magnitude (if val then (1 : BitVec 32) else 0))) := by
      cases val <;> rfl
    have hread : paramSignToUInt32 ((Result.bool val).datum.token rest) true =
        some (if val then 1 else 0) := by
      rw [hdatum]
      exact paramSignToUInt_signed _ hend
    show ReadResult.map _ (scpiParamBool true _) = _
    rw [paramBool_integer hd hrest count rfl, hread]
    cases val <;> rfl
  | @text data hdata =>
    show ReadResult.map _ (scpiParamCopyText bufferLen true _) = _
    rw [Result.datum, paramCopyText_quoted hd hrest count (hbuffer data rfl)]
    rfl
  | @block data hlen =>
    unfold Result.kind Kind.read
    simp only [Result.datum]
    rw [paramArbitraryBlock_block hd hrest count]
    show (some (Value.block ((data ++ rest).take data.length)), _) = _
    rw [List.take_left]
    rfl
  | @characters data hdata =>
    show ReadResult.map _ (scpiParamCharacters true _) = _
    rw [Result.datum, paramCharacters_word hd hrest count]
    rfl

/-! ## A command reads the results of a query -/

/-- The readers of a command, one after another; it gives up at the first that returns FALSE or
pushes an error. -/
def readAll : List Kind → Params → Option (List Value × Params)
  | [], c => some ([], c)
  | k :: ks, c =>
    match k.read c with
    | (some v, c, none) => (readAll ks c).map fun (vs, c) => (v :: vs, c)
    | _ => none

theorem dataEnd_results (rs : List Result) : DataEnd (rs.flatMap fun r => 44 :: r.datum.text) := by
  cases rs with
  | nil => exact nofun
  | cons r rs =>
    rw [List.flatMap_cons]
    exact .cons rfl _

theorem readAll_counted {rs : List Result} (hrs : ∀ r ∈ rs, r.WellFormed) {bufferLen : Nat}
    (hbuffer : ∀ data, .text data ∈ rs → (doubleQuotes 34 data).length < bufferLen) {count : Nat}
    (hcount : 0 < count) :
    readAll (rs.map (Result.kind bufferLen))
        ⟨rs.flatMap (fun r => 44 :: r.datum.text), count, []⟩ =
      some (rs.map Result.value, ⟨[], count + rs.length, []⟩) := by
  induction rs generalizing count with
  | nil => rfl
  | cons r rs ih =>
    have hread := r.read_datum (hrs r (List.mem_cons_self ..))
      (fun data hdata => hbuffer data (hdata ▸ List.mem_cons_self ..)) (dataEnd_results rs) count
    have hseparator : separator count = [44] := if_neg (by omega)
    rw [hseparator] at hread
    have hrest := ih (fun s hs => hrs s (List.mem_cons_of_mem _ hs))
      (fun data hdata => hbuffer data (List.mem_cons_of_mem _ hdata)) (Nat.succ_pos count)
    rw [List.map_cons, readAll, List.flatMap_cons]
    have htext : 44 :: r.datum.text ++ rs.flatMap (fun r => 44 :: r.datum.text) =
        [44] ++ (r.datum.text ++ rs.flatMap fun r => 44 :: r.datum.text) := rfl
    rw [htext, hread]
    simp only [hrest, Option.map_some, List.map_cons, List.length_cons]
    rw [show count + 1 + rs.length = count + (rs.length + 1) by omega]

/-- The readers of a command on the text of results. -/
theorem readAll_results {rs : List Result} (hrs : ∀ r ∈ rs, r.WellFormed) {bufferLen : Nat}
    (hbuffer : ∀ data, .text data ∈ rs → (doubleQuotes 34 data).length < bufferLen) :
    readAll (rs.map (Result.kind bufferLen)) (.ofData (dataText (rs.map Result.datum))) =
      some (rs.map Result.value, ⟨[], rs.length, []⟩) := by
  cases rs with
  | nil => rfl
  | cons r rs =>
    have hread := r.read_datum (hrs r (List.mem_cons_self ..))
      (fun data hdata => hbuffer data (hdata ▸ List.mem_cons_self ..)) (dataEnd_results rs) 0
    have hrest := readAll_counted (fun s hs => hrs s (List.mem_cons_of_mem _ hs))
      (fun data hdata => hbuffer data (List.mem_cons_of_mem _ hdata)) Nat.one_pos
    rw [List.map_cons, List.map_cons, dataText_flatMap, List.flatMap_map, Params.ofData, readAll]
    rw [show r.datum.text ++ rs.flatMap (fun r => 44 :: r.datum.text) =
      separator 0 ++ (r.datum.text ++ rs.flatMap fun r => 44 :: r.datum.text) from rfl, hread]
    simp only [Nat.zero_add, hrest, Option.map_some, List.map_cons, List.length_cons]
    rw [Nat.add_comm]

/-- **What a query writes, the readers of a command read back.** Each value comes back as it was
written, in order, and nothing is left: for every number in every base, every string of 7-bit
characters, with quotes and delimiters in it, and every block of bytes. -/
theorem results_read_back {rs : List Result} (hrs : ∀ r ∈ rs, r.WellFormed) {bufferLen : Nat}
    (hbuffer : ∀ data, .text data ∈ rs → (doubleQuotes 34 data).length < bufferLen) :
    ∃ o, writeAll .empty rs = some o ∧ o.systemErrors = 0 ∧
      readAll (rs.map (Result.kind bufferLen)) (.ofData o.text) =
        some (rs.map Result.value, ⟨[], rs.length, []⟩) := by
  obtain ⟨o, hwrite, htext, herrors⟩ := writeAll_text hrs
  exact ⟨o, hwrite, herrors, htext ▸ readAll_results hrs hbuffer⟩

/-- A minimal number, a string with quotes, a comma and a semicolon, a block with a line end. -/
theorem results_read_back_delimiters :
    let rs : List Result :=
      [.int64 (BitVec.intMin 64), .text [34, 44, 59, 34], .block [10, 59], .uint32 255 16]
    ∃ o, writeAll .empty rs = some o ∧ o.systemErrors = 0 ∧
      readAll (rs.map (Result.kind 7)) (.ofData o.text) =
        some (rs.map Result.value, ⟨[], 4, []⟩) := by
  refine results_read_back ?_ ?_
  · simp only [List.mem_cons, List.not_mem_nil, or_false, forall_eq_or_imp, forall_eq]
    exact ⟨.int64, Result.wellFormed_text rfl, .block (by decide), .uint32⟩
  · intro data hdata
    simp only [List.mem_cons, List.not_mem_nil, or_false, reduceCtorEq, false_or,
      Result.text.injEq] at hdata
    subst hdata
    decide

end XHeepFemu.Scpi
