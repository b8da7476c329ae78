import XHeepFemu.Scpi.NumberText

/-!
# Matching headers

`matchCommand` of `libscpi/utils.c` and what it calls. A pointer with its length
is a text; `strtol` stops at the separator behind it. Behind the pattern the
code reads a question mark or NUL, which is none of the characters it asks for
there. `none` is a read before or behind a string.
-/

namespace XHeepFemu.Scpi

/-! ## Strings -/

def tolower (c : Byte) : Byte := if 65 ≤ c && c ≤ 90 then c + 32 else c

def islower (c : Byte) : Bool := 97 ≤ c && c ≤ 122

/-- The position of the first character of `set`; NUL ends the string. -/
def strnpbrk (str set : Text) : Option Nat :=
  match str with
  | [] => none
  | c :: str => if c = 0 then none else if c ∈ set then some 0 else (strnpbrk str set).map (· + 1)

def strncasecmp : Nat → Text → Text → Int
  | 0, _, _ => 0
  | n + 1, s1, s2 =>
    let c1 := tolower (s1.headD 0)
    let c2 := tolower (s2.headD 0)
    if c1 ≠ c2 then c1.toNat - c2.toNat
    else if c1 = 0 then 0
    else strncasecmp n s1.tail s2.tail

def compareStr (str1 str2 : Text) : Bool :=
  if str1.length ≠ str2.length then false
  else strncasecmp str2.length str1 str2 == 0

/-- Behind `str1` there may be a number in `str2`. The result and `*num` afterwards; `none` is the
null pointer. -/
def compareStrAndNum (str1 str2 : Text) (num : Option (BitVec 32)) : Bool × Option (BitVec 32) :=
  if str2.length < str1.length then (false, num)
  else if strncasecmp str1.length str1 str2 = 0 then
    match num with
    | some _ =>
      if str1.length = str2.length then (true, num)
      else
        let (tmpNum, used) := strBaseToInt32 (str2.drop str1.length) 10
        if str1.length + used ≠ str2.length then (false, num) else (true, some tmpNum)
    | none => ((str2.drop str1.length).all isdigit, none)
  else (false, num)

/-! ## One keyword -/

/-- The first lower case letter. -/
def patternSeparatorShortPos (pattern : Text) : Nat :=
  (pattern.takeWhile fun c => c != 0 && !islower c).length

def patternSeparatorPos (pattern : Text) : Nat :=
  (strnpbrk pattern [63, 58, 91, 93]).getD pattern.length

def cmdSeparatorPos (cmd : Text) : Nat :=
  (strnpbrk cmd [58, 63]).getD cmd.length

/-- `pattern` is in the form `UPPERCASElowercase`, or that and `#` for a number. -/
def matchPattern (pattern str : Text) (num : Option (BitVec 32)) : Bool × Option (BitVec 32) :=
  if pattern.getLast? = some 35 then
    let newPattern := pattern.dropLast
    let long := compareStrAndNum newPattern str num
    if long.1 then long
    else compareStrAndNum (newPattern.take (patternSeparatorShortPos newPattern)) str long.2
  else
    (compareStr pattern str || compareStr (pattern.take (patternSeparatorShortPos pattern)) str, num)

/-- `numbers` and `numbers_idx`. -/
structure Numbers where
  values : Option (List (BitVec 32))
  idx : Nat
  defaultValue : BitVec 32
  deriving DecidableEq, Repr

/-- For a caller that wants no numbers. -/
def Numbers.null : Numbers := ⟨none, 0, 0⟩

/-- One keyword; the place of its number holds the default before. -/
def Numbers.keyword (numbers : Numbers) (pattern str : Text) : Bool × Numbers :=
  if pattern.getLast? = some 35 then
    let num := numbers.values.bind fun values =>
      if numbers.idx < values.length then some numbers.defaultValue else none
    let (matched, num) := matchPattern pattern str num
    let values := match num with
      | some num => numbers.values.map (·.set numbers.idx num)
      | none => numbers.values
    (matched, ⟨values, numbers.idx + 1, numbers.defaultValue⟩)
  else ((matchPattern pattern str none).1, numbers)

/-! ## The whole header -/

/-- The `while (pattern_len)`: the command is complete, and the rest of the pattern has to be
optional. -/
def matchRest : Nat → Text → Int → Option Bool
  | 0, _, _ => none
  | n + 1, pattern, brackets =>
    if pattern.isEmpty then some true
    else
      let patternSepPos := patternSeparatorPos pattern
      let brackets := match pattern[patternSepPos]? with
        | some 91 => brackets + 1
        | some 93 => brackets - 1
        | _ => brackets
      if patternSepPos < pattern.length then
        let pattern := pattern.drop (patternSepPos + 1)
        if brackets = 0 then
          if pattern.head? = some 91 then matchRest n pattern brackets else some pattern.isEmpty
        else matchRest n pattern brackets
      -- `pattern_len` is -1
      else if brackets = 0 then some false
      else none

/-- The `while (1)`. -/
def matchLoop : Nat → Text → Text → Int → Numbers → Option (Bool × Numbers)
  | 0, _, _, _, _ => none
  | n + 1, pattern, cmd, brackets, numbers =>
    let patternSepPos := patternSeparatorPos pattern
    let cmdSepPos := cmdSeparatorPos cmd
    let (matched, numbers) := numbers.keyword (pattern.take patternSepPos) (cmd.take cmdSepPos)
    let pattern := pattern.drop patternSepPos
    if matched then
      let cmd := cmd.drop cmdSepPos
      if pattern.isEmpty ∧ cmd.isEmpty then some (true, numbers)
      else if pattern.isEmpty then some (false, numbers)
      else if cmd.isEmpty then
        (matchRest (pattern.length + 1) pattern brackets).map fun result => (result, numbers)
      else if pattern[0]? = cmd[0]? ∧ pattern[0]? = some 58 then
        matchLoop n (pattern.drop 1) (cmd.drop 1) brackets numbers
      else if pattern[1]? = cmd[0]? ∧ pattern[0]? = some 91 ∧ pattern[1]? = some 58 then
        matchLoop n (pattern.drop 2) (cmd.drop 1) (brackets + 1) numbers
      else if pattern[1]? = cmd[0]? ∧ pattern[0]? = some 93 ∧ pattern[1]? = some 58 then
        matchLoop n (pattern.drop 2) (cmd.drop 1) (brackets - 1) numbers
      else if pattern[2]? = cmd[0]? ∧ pattern[0]? = some 93 ∧ pattern[1]? = some 91 ∧
          pattern[2]? = some 58 then
        matchLoop n (pattern.drop 3) (cmd.drop 1) brackets numbers
      else some (false, numbers)
    else if pattern[0]? = some 93 ∧ pattern[1]? = some 58 then
      matchLoop n (pattern.drop 2) cmd (brackets - 1) numbers
    else if pattern[0]? = some 93 ∧ pattern[1]? = some 91 ∧ pattern[2]? = some 58 then
      matchLoop n (pattern.drop 3) cmd brackets numbers
    else some (false, numbers)

/-- The pattern from its first keyword on, and the brackets that are open there. -/
def skipPatternStart (pattern : Text) : Text × Int :=
  let (pattern, brackets) : Text × Int :=
    if pattern.head? = some 91 then (pattern.tail, 1) else (pattern, 0)
  (if pattern.head? = some 58 then pattern.tail else pattern, brackets)

/-- The command without its first colon; `:*IDN?` is an error. -/
def skipCmdStart : Text → Option Text
  | 58 :: c :: rest => if c ≠ 42 then some (c :: rest) else none
  | cmd => some cmd

/-- The question marks of a query are gone. -/
def matchKeywords (pattern cmd : Text) (numbers : Numbers) : Option (Bool × Numbers) :=
  let (pattern, brackets) := skipPatternStart pattern
  match skipCmdStart cmd with
  | some cmd => matchLoop (pattern.length + 1) pattern cmd brackets numbers
  | none => some (false, numbers)

def matchCommand (pattern cmd : Text) (numbers : Numbers) : Option (Bool × Numbers) :=
  let cmd := cmd.takeWhile (· != 0)
  match pattern.getLast? with
  | none => none
  | some 63 =>
    match cmd.getLast? with
    | none => none
    | some 63 => matchKeywords pattern.dropLast cmd.dropLast numbers
    | some _ => some (false, numbers)
  | some _ => matchKeywords pattern cmd numbers

def scpiMatch (pattern value : Text) : Option Bool :=
  (matchCommand pattern value .null).map (·.1)

/-- The first command of the list with a pattern for the header; `matchCommand` is called as
`SCPI_Match` calls it. -/
def findCommandHeader {κ : Type} (cmdlist : List (Text × κ)) (header : Text) : Option κ :=
  (cmdlist.find? fun cmd => scpiMatch cmd.1 header == some true).map (·.2)

/-- For a command with this pattern and the header it was called by: the result, and `numbers`
afterwards. -/
def scpiCommandNumbers (pattern raw : Text) (numbers : List (BitVec 32)) (defaultValue : BitVec 32) :
    Option (Bool × Option (List (BitVec 32))) :=
  (matchCommand pattern raw ⟨some numbers, 0, defaultValue⟩).map fun r => (r.1, r.2.values)

/-! ## Separators -/

/-- Nothing of `set`, and no NUL. -/
def Free (set s : Text) : Prop := ∀ c ∈ s, c ≠ 0 ∧ c ∉ set

theorem strnpbrk_append {set s : Text} (hs : Free set s) (t : Text) :
    strnpbrk (s ++ t) set = (strnpbrk t set).map (· + s.length) := by
  induction s with
  | nil => simp
  | cons c s ih =>
    obtain ⟨hzero, hset⟩ := hs c (List.mem_cons_self ..)
    rw [List.cons_append, strnpbrk, if_neg hzero, if_neg hset,
      ih fun d hd => hs d (List.mem_cons_of_mem _ hd), Option.map_map]
    congr 1

theorem strnpbrk_cons {set : Text} {c : Byte} (hzero : c ≠ 0) (hc : c ∈ set) (s : Text) :
    strnpbrk (c :: s) set = some 0 := by
  rw [strnpbrk, if_neg hzero, if_pos hc]

theorem separatorPos_append {set s t : Text} (hs : Free set s)
    (ht : t = [] ∨ ∃ c ∈ set, c ≠ 0 ∧ t.head? = some c) :
    (strnpbrk (s ++ t) set).getD (s ++ t).length = s.length := by
  rw [strnpbrk_append hs]
  rcases ht with rfl | ⟨c, hc, hzero, hhead⟩
  · simp [strnpbrk]
  · obtain ⟨t, rfl⟩ : ∃ u, t = c :: u := by
      cases t with
      | nil => cases hhead
      | cons d t => exact ⟨t, by rw [Option.some.inj hhead]⟩
    rw [strnpbrk_cons hzero hc]
    simp

end XHeepFemu.Scpi
