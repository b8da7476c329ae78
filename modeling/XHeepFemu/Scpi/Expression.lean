import XHeepFemu.Scpi.ParamValue

/-!
# Expression lists

`libscpi/expression.c`: the entries of a numeric list `(1:3,5)` and of a channel
list `(@1!2:5!6,7)`, each a value or a range. Both readers start at the front for
every entry. `listEntry_text` is their loop, for any entry that is read back from
its text.
-/

namespace XHeepFemu.Scpi

/-- `scpi_expr_result_t`, and on `SCPI_EXPR_OK` what was found. -/
inductive ExprResult (α : Type) where
  | ok (a : α)
  | error
  | noMore
  deriving DecidableEq, Repr

/-- What a reader pushes. -/
inductive ExprError where
  | dataTypeError
  | expressionParsingError
  deriving DecidableEq, Repr

/-- One entry; `valueTo` is there if `*isRange`. -/
structure ExprRange (α : Type) where
  valueFrom : α
  valueTo : Option α
  deriving DecidableEq, Repr

def ExprRange.map {α β : Type} (f : α → β) (r : ExprRange α) : ExprRange β := ⟨f r.valueFrom, r.valueTo.map f⟩

def ExprResult.map {α β : Type} (f : α → β) : ExprResult α → ExprResult β
  | ok a => ok (f a)
  | error => error
  | noMore => noMore

/-- The `for` of both readers, with `n` entries before the wanted one. `range` is told whether
its entry is that one. -/
def listEntry {α : Type} (range : Bool → Text → ExprResult α × Text) :
    Nat → Text → ExprResult α × Text
  | 0, state => range true state
  | n + 1, state =>
    match range false state with
    | (.ok _, state) =>
      match skipChr 44 state with
      | (state, true) => listEntry range n state
      | (state, false) => (if state.isEmpty then .noMore else .error, state)
    | (res, state) => (res, state)

/-- The text between the parentheses. -/
def expressionText (param : Token) : Text := (param.ptr.drop 1).take (param.len - 2).toNat

/-! ## Numeric lists -/

def numericRange (state : Text) : ExprResult (ExprRange Token) × Text :=
  let valueFrom := scpiLexDecimalNumericProgramData state
  if valueFrom.result ≠ 0 then
    match skipChr 58 valueFrom.rest with
    | (state, true) =>
      let valueTo := scpiLexDecimalNumericProgramData state
      if valueTo.result ≠ 0 then (.ok ⟨valueFrom.token, some valueTo.token⟩, valueTo.rest)
      else (.error, valueTo.rest)
    | (state, false) => (.ok ⟨valueFrom.token, none⟩, state)
  else (.noMore, valueFrom.rest)

def scpiExprNumericListEntry (param : Token) (index : Nat) :
    ExprResult (ExprRange Token) × Option ExprError :=
  if param.type ≠ .programExpression then (.error, some .dataTypeError)
  else
    match (listEntry (fun _ => numericRange) index (expressionText param)).1 with
    | .error => (.error, some .expressionParsingError)
    | res => (res, none)

/-- `SCPI_ParamToInt32`, whose result nobody looks at; it leaves 0 where there is no number. -/
def paramToInt32 (param : Token) : BitVec 32 := (paramSignToUInt32 param true).getD 0

def scpiExprNumericListEntryInt (param : Token) (index : Nat) :
    ExprResult (ExprRange (BitVec 32)) × Option ExprError :=
  let (res, error) := scpiExprNumericListEntry param index
  (res.map (ExprRange.map paramToInt32), error)

/-! ## Channel lists -/

/-- The `while` of `channelSpec` from index `i`; `values` has its first `length` numbers. -/
def channelSpec (length : Nat) : Nat → Text → Nat → List (BitVec 32) →
    ExprResult (List (BitVec 32) × Nat) × Text
  | 0, state, _, _ => (.error, state)
  | n + 1, state, i, values =>
    let param := scpiLexDecimalNumericProgramData state
    if param.result ≠ 0 then
      let values := if i < length then values ++ [paramToInt32 param.token] else values
      match skipChr 33 param.rest with
      | (state, true) => channelSpec length n state (i + 1) values
      | (state, false) => (.ok (values, i + 1), state)
    else (if i = 0 then .noMore else .error, param.rest)

/-- `valuesFrom` and `valuesTo`, and `*dimensions`. -/
structure ChannelEntry where
  values : ExprRange (List (BitVec 32))
  dimensions : Nat
  deriving DecidableEq, Repr

def channelRange (length : Nat) (state : Text) : ExprResult ChannelEntry × Text :=
  match channelSpec length (state.length + 1) state 0 [] with
  | (.ok (valuesFrom, fromDimensions), state) =>
    match skipChr 58 state with
    | (state, true) =>
      match channelSpec length (state.length + 1) state 0 [] with
      | (.ok (valuesTo, toDimensions), state) =>
        if fromDimensions ≠ toDimensions then (.error, state)
        else (.ok ⟨⟨valuesFrom, some valuesTo⟩, fromDimensions⟩, state)
      | (_, state) => (.error, state)
    | (state, false) => (.ok ⟨⟨valuesFrom, none⟩, fromDimensions⟩, state)
  | (_, state) => (.error, state)

def scpiExprChannelListEntry (param : Token) (index length : Nat) :
    ExprResult ChannelEntry × Option ExprError :=
  if param.type ≠ .programExpression then (.error, some .dataTypeError)
  else
    match skipChr 64 (expressionText param) with
    | (_, false) => (.error, some .expressionParsingError)
    | (lex, true) =>
      match listEntry (fun wanted => channelRange (if wanted then length else 0)) index lex with
      | (.error, _) => (.error, some .expressionParsingError)
      | (.noMore, lex) =>
        if lex.isEmpty then (.noMore, none) else (.error, some .expressionParsingError)
      | (.ok entry, _) => (.ok entry, none)

/-! ## The text of a list -/

section Text

variable {α β : Type}

def ExprRange.text (f : α → Text) (r : ExprRange α) : Text :=
  f r.valueFrom ++ match r.valueTo with
    | some b => 58 :: f b
    | none => []

def listText (f : β → Text) (es : List β) : Text := [44].intercalate (es.map f)

def int32Text (val : BitVec 32) : Text := (Datum.integer val.msb (numeral 10 (magnitude val))).text

def channelText (vals : List (BitVec 32)) : Text := [33].intercalate (vals.map int32Text)

/-- A comma, or the end of the list. -/
def ListEnd (rest : Text) : Prop := Stops (fun c => c != 44) rest

theorem ListEnd.stops {rest : Text} (h : ListEnd rest) {p : Byte → Bool} (hp : p 44 = false) :
    Stops p rest := h.mono fun c hc => by
  rw [bne_iff_ne]
  rintro rfl
  rw [hp] at hc
  cases hc

/-- Entries that are read back from their texts are read back from the list, each by its index. -/
theorem listEntry_text (range : Bool → Text → ExprResult α × Text) (text : β → Text)
    (Found : β → α → Prop) {es : List β} (hne : es ≠ [])
    (hrange : ∀ e ∈ es, ∀ wanted rest, ListEnd rest →
      ∃ a, range wanted (text e ++ rest) = (.ok a, rest) ∧ (wanted = true → Found e a)) (n : Nat) :
    match es[n]? with
    | some e => ∃ a rest, listEntry range n (listText text es) = (.ok a, rest) ∧ Found e a
    | none => listEntry range n (listText text es) = (.noMore, []) := by
  induction es generalizing n with
  | nil => exact absurd rfl hne
  | cons e es ih =>
    have he := hrange e (List.mem_cons_self ..)
    cases es with
    | nil =>
      have htext : listText text [e] = text e ++ [] := by simp [listText]
      rw [htext]
      cases n with
      | zero =>
        obtain ⟨a, hread, hfound⟩ := he true [] nofun
        exact ⟨a, [], hread, hfound rfl⟩
      | succ n =>
        obtain ⟨a, hread, -⟩ := he false [] nofun
        show listEntry range (n + 1) (text e ++ []) = _
        rw [listEntry, hread]
        rfl
    | cons e' es =>
      have htext : listText text (e :: e' :: es) = text e ++ 44 :: listText text (e' :: es) := by
        simp [listText]
      have hend : ListEnd (44 :: listText text (e' :: es)) := .cons rfl _
      rw [htext]
      cases n with
      | zero =>
        obtain ⟨a, hread, hfound⟩ := he true _ hend
        exact ⟨a, _, hread, hfound rfl⟩
      | succ n =>
        obtain ⟨a, hread, -⟩ := he false _ hend
        have hnext : listEntry range (n + 1) (text e ++ 44 :: listText text (e' :: es)) =
            listEntry range n (listText text (e' :: es)) := by
          rw [listEntry, hread]
          rfl
        rw [hnext]
        exact ih (List.cons_ne_nil e' es) (fun d hd => hrange d (List.mem_cons_of_mem _ hd)) n

end Text

/-! ## Numbers in a list -/

section Numbers

variable {rest : Text}

theorem lexDecimal_int32 (val : BitVec 32) (hend : NumericEnd rest) :
    scpiLexDecimalNumericProgramData (int32Text val ++ rest) =
      ⟨rest, (Datum.integer val.msb (numeral 10 (magnitude val))).token rest,
        (int32Text val).length⟩ := by
  cases numeral_wellFormed val.msb (magnitude val) with
  | integer hne hdigits => exact lexDecimal_integer hne hdigits hend

theorem int32Text_length (val : BitVec 32) : 0 < (int32Text val).length := by
  have := List.length_pos_iff.mpr (numeral_ne_nil (b := 10) (magnitude val))
  unfold int32Text Datum.text
  rw [List.length_append]
  omega

theorem paramToInt32_int32 (val : BitVec 32) (hend : NumberEnd rest) :
    paramToInt32 ((Datum.integer val.msb (numeral 10 (magnitude val))).token rest) = val :=
  congrArg (fun v : Option (BitVec 32) => v.getD 0)
    (@paramSignToUInt_signed 32 rest strBaseToUInt32 val hend)

theorem ListEnd.numericEnd (h : ListEnd rest) : NumericEnd rest := h.stops rfl

theorem ListEnd.numberEnd (h : ListEnd rest) : NumberEnd rest := Stops.numberEnd (h.stops rfl)

end Numbers

/-! ## Numeric lists -/

theorem numericRange_text (r : ExprRange (BitVec 32)) {rest : Text} (hrest : ListEnd rest) :
    ∃ tokens, numericRange (r.text int32Text ++ rest) = (.ok tokens, rest) ∧
      tokens.map paramToInt32 = r := by
  obtain ⟨a, b⟩ := r
  have hne : ∀ val, ((int32Text val).length : Int) ≠ 0 := fun val => by
    have := int32Text_length val
    omega
  cases b with
  | none =>
    have htext : ExprRange.text int32Text ⟨a, none⟩ ++ rest = int32Text a ++ rest := by
      simp [ExprRange.text]
    have hcolon : skipChr 58 rest = (rest, false) := skipOne_stops (hrest.stops rfl)
    refine ⟨⟨(Datum.integer a.msb (numeral 10 (magnitude a))).token rest, none⟩, ?_, ?_⟩
    · unfold numericRange
      rw [htext, lexDecimal_int32 a hrest.numericEnd]
      simp only [if_pos (hne a), hcolon]
    · unfold ExprRange.map
      rw [paramToInt32_int32 a hrest.numberEnd]
      rfl
  | some b =>
    have htext : ExprRange.text int32Text ⟨a, some b⟩ ++ rest =
        int32Text a ++ 58 :: (int32Text b ++ rest) := by
      simp [ExprRange.text]
    have hcolon : skipChr 58 (58 :: (int32Text b ++ rest)) = (int32Text b ++ rest, true) := rfl
    refine ⟨⟨(Datum.integer a.msb (numeral 10 (magnitude a))).token (58 :: (int32Text b ++ rest)),
      some ((Datum.integer b.msb (numeral 10 (magnitude b))).token rest)⟩, ?_, ?_⟩
    · unfold numericRange
      rw [htext, lexDecimal_int32 a (.cons rfl _)]
      simp only [if_pos (hne a), hcolon, lexDecimal_int32 b hrest.numericEnd, if_pos (hne b)]
    · unfold ExprRange.map
      rw [paramToInt32_int32 a (Stops.numberEnd (.cons rfl _))]
      simp only [Option.map_some, paramToInt32_int32 b hrest.numberEnd]

theorem expression_type (content rest : Text) :
    ((Datum.expression content).token rest).type = .programExpression := rfl

theorem expressionText_token (content rest : Text) :
    expressionText ((Datum.expression content).token rest) = content := by
  have htext : (Datum.expression content).text ++ rest = 40 :: (content ++ 41 :: rest) := by
    simp [Datum.text]
  have hlen : (((Datum.expression content).token rest).len - 2).toNat = content.length := by
    simp [Datum.token, Datum.text]
    omega
  show (((Datum.expression content).text ++ rest).drop 1).take _ = content
  rw [htext, hlen, List.drop_succ_cons, List.drop_zero, List.take_left]

/-- Every entry of a numeric list is read by its index; behind the last one there is no more. -/
theorem numericListEntry_text {rs : List (ExprRange (BitVec 32))} (hne : rs ≠ []) (rest : Text)
    (index : Nat) :
    scpiExprNumericListEntryInt ((Datum.expression (listText (ExprRange.text int32Text) rs)).token rest) index =
      (match rs[index]? with
        | some r => .ok r
        | none => .noMore, none) := by
  have hlist := listEntry_text (fun _ => numericRange) (ExprRange.text int32Text)
    (fun r tokens => tokens.map paramToInt32 = r) hne
    (fun r _ _ rest hrest => (numericRange_text r hrest).imp fun _ h => ⟨h.1, fun _ => h.2⟩) index
  unfold scpiExprNumericListEntryInt scpiExprNumericListEntry
  rw [if_neg (not_not.mpr (expression_type _ rest)), expressionText_token]
  cases hentry : rs[index]? with
  | some r =>
    rw [hentry] at hlist
    obtain ⟨tokens, rest', hread, hfound⟩ := hlist
    simp only [hread, ExprResult.map, hfound]
  | none =>
    rw [hentry] at hlist
    simp only [hlist, ExprResult.map]

/-! ## Channel lists -/

/-- What can come behind a channel. -/
def ChannelEnd (rest : Text) : Prop := Stops (fun c => c != 44 && c != 58) rest

theorem ChannelEnd.stops {rest : Text} (h : ChannelEnd rest) {p : Byte → Bool} (h44 : p 44 = false)
    (h58 : p 58 = false) : Stops p rest := h.mono fun c hc => by
  rw [Bool.and_eq_true, bne_iff_ne, bne_iff_ne]
  constructor <;>
    · rintro rfl
      simp_all

theorem ListEnd.channelEnd {rest : Text} (h : ListEnd rest) : ChannelEnd rest := h.stops rfl

theorem channelSpec_text {vals : List (BitVec 32)} (hne : vals ≠ []) {rest : Text}
    (hrest : ChannelEnd rest) (length : Nat) {n : Nat} (hn : vals.length ≤ n) (i : Nat)
    (values : List (BitVec 32)) :
    channelSpec length n (channelText vals ++ rest) i values =
      (.ok (values ++ vals.take (length - i), i + vals.length), rest) := by
  induction vals generalizing n i values with
  | nil => exact absurd rfl hne
  | cons v vals ih =>
    rw [List.length_cons] at hn
    obtain ⟨n, rfl⟩ : ∃ k, n = k + 1 := ⟨n - 1, by omega⟩
    have hpos : ((int32Text v).length : Int) ≠ 0 := by
      have := int32Text_length v
      omega
    have hkept : ∀ tail : List (BitVec 32),
        (if i < length then values ++ [v] else values) ++ tail.take (length - (i + 1)) =
          values ++ (v :: tail).take (length - i) := by
      intro tail
      split
      · rw [show length - i = (length - (i + 1)) + 1 by omega, List.take_succ_cons]
        simp
      · rw [show length - i = 0 by omega, show length - (i + 1) = 0 by omega]
        rfl
    cases vals with
    | nil =>
      have htext : channelText [v] ++ rest = int32Text v ++ rest := by simp [channelText]
      have hnumber : NumberEnd rest := Stops.numberEnd (hrest.stops rfl rfl)
      have hskip : skipChr 33 rest = (rest, false) := skipOne_stops (hrest.stops rfl rfl)
      rw [htext, channelSpec, lexDecimal_int32 v (hrest.stops rfl rfl)]
      simp only [if_pos hpos, hskip, paramToInt32_int32 v hnumber]
      rw [← hkept []]
      simp
    | cons v' vals =>
      have htext : channelText (v :: v' :: vals) ++ rest =
          int32Text v ++ 33 :: (channelText (v' :: vals) ++ rest) := by simp [channelText]
      have hskip : skipChr 33 (33 :: (channelText (v' :: vals) ++ rest)) =
          (channelText (v' :: vals) ++ rest, true) := rfl
      have hnumber : NumberEnd (33 :: (channelText (v' :: vals) ++ rest)) :=
        Stops.numberEnd (.cons rfl _)
      rw [htext, channelSpec, lexDecimal_int32 v (.cons rfl _)]
      simp only [if_pos hpos, hskip, paramToInt32_int32 v hnumber]
      rw [ih (List.cons_ne_nil v' vals) (by omega), hkept]
      simp only [List.length_cons]
      rw [show i + 1 + (vals.length + 1) = i + (vals.length + 1 + 1) by omega]

/-- A channel has a number, and both ends of a range as many. -/
def WellFormedRange (r : ExprRange (List (BitVec 32))) : Prop :=
  r.valueFrom ≠ [] ∧ ∀ vals ∈ r.valueTo, vals.length = r.valueFrom.length

/-- What is found with room for `length` numbers. -/
def entryFound (length : Nat) (r : ExprRange (List (BitVec 32))) : ChannelEntry :=
  ⟨r.map (List.take length), r.valueFrom.length⟩

theorem length_le_channelText (vals : List (BitVec 32)) (rest : Text) :
    vals.length ≤ (channelText vals ++ rest).length + 1 := by
  induction vals with
  | nil => exact Nat.zero_le _
  | cons v vals ih =>
    cases vals with
    | nil => exact Nat.le_add_left 1 _
    | cons v' vals =>
      have htext : channelText (v :: v' :: vals) ++ rest =
          int32Text v ++ 33 :: (channelText (v' :: vals) ++ rest) := by simp [channelText]
      rw [htext, List.length_append, List.length_cons (a := v), List.length_cons (a := 33)]
      omega

theorem channelRange_text {r : ExprRange (List (BitVec 32))} (hr : WellFormedRange r) {rest : Text}
    (hrest : ListEnd rest) (length : Nat) :
    channelRange length (r.text channelText ++ rest) = (.ok (entryFound length r), rest) := by
  obtain ⟨a, b⟩ := r
  obtain ⟨hne, hlen⟩ := hr
  cases b with
  | none =>
    have htext : ExprRange.text channelText ⟨a, none⟩ ++ rest = channelText a ++ rest := by
      simp [ExprRange.text]
    have hspec := channelSpec_text hne hrest.channelEnd length (length_le_channelText a rest) 0 []
    have hcolon : skipChr 58 rest = (rest, false) := skipOne_stops (hrest.stops rfl)
    unfold channelRange
    rw [htext, hspec]
    simp only [hcolon]
    simp [entryFound, ExprRange.map]
  | some b =>
    have htext : ExprRange.text channelText ⟨a, some b⟩ ++ rest =
        channelText a ++ 58 :: (channelText b ++ rest) := by
      simp [ExprRange.text]
    have hb : b.length = a.length := hlen b rfl
    have hbne : b ≠ [] := by
      rintro rfl
      exact hne (List.length_eq_zero_iff.mp hb.symm)
    have hend : ChannelEnd (58 :: (channelText b ++ rest)) := .cons rfl _
    have hfrom := channelSpec_text hne hend length 
      (length_le_channelText a (58 :: (channelText b ++ rest))) 0 []
    have hto := channelSpec_text hbne hrest.channelEnd length (length_le_channelText b rest) 0 []
    have hcolon : skipChr 58 (58 :: (channelText b ++ rest)) = (channelText b ++ rest, true) := rfl
    unfold channelRange
    rw [htext, hfrom]
    simp only [hcolon, hto]
    rw [if_neg (by omega)]
    simp [entryFound, ExprRange.map]

theorem channelListEntry_text {rs : List (ExprRange (List (BitVec 32)))} (hne : rs ≠ [])
    (hrs : ∀ r ∈ rs, WellFormedRange r) (rest : Text) (index length : Nat) :
    scpiExprChannelListEntry
        ((Datum.expression (64 :: listText (ExprRange.text channelText) rs)).token rest) index length =
      (match rs[index]? with
        | some r => .ok (entryFound length r)
        | none => .noMore, none) := by
  have hlist := listEntry_text (fun wanted => channelRange (if wanted then length else 0))
    (ExprRange.text channelText) (fun r entry => entry = entryFound length r) hne
    (fun r hr wanted rest hrest => ⟨_, channelRange_text (hrs r hr) hrest _, fun hw => by rw [hw]; rfl⟩)
    index
  have hat : skipChr 64 (64 :: listText (ExprRange.text channelText) rs) =
      (listText (ExprRange.text channelText) rs, true) := rfl
  unfold scpiExprChannelListEntry
  rw [if_neg (not_not.mpr (expression_type _ rest)), expressionText_token, hat]
  cases hentry : rs[index]? with
  | some r =>
    rw [hentry] at hlist
    obtain ⟨entry, rest', hread, hfound⟩ := hlist
    simp only [hread, hfound]
  | none =>
    rw [hentry] at hlist
    simp only [hlist, List.isEmpty_nil, if_true]

/-! ## Lists as parameters -/

theorem int32Text_chars (val : BitVec 32) : ∀ c ∈ int32Text val, isProgramExpression c = true := by
  intro c hc
  rcases List.mem_append.mp hc with hc | hc
  · split at hc
    · rw [List.mem_singleton.mp hc]
      rfl
    · cases hc
  · obtain ⟨d, hd, rfl⟩ := numeral_digit (by decide) (by decide) hc
    have h : ∀ d : Fin 10, isProgramExpression (digitChar d) = true := by decide
    exact h ⟨d, hd⟩

theorem listText_chars {α : Type} {f : α → Text}
    (hf : ∀ a, ∀ c ∈ f a, isProgramExpression c = true) (rs : List (ExprRange α)) :
    ∀ c ∈ listText (ExprRange.text f) rs, isProgramExpression c = true := by
  refine intercalate_chars (p := fun c => isProgramExpression c = true) rfl fun s hs => ?_
  obtain ⟨⟨a, b⟩, -, rfl⟩ := List.mem_map.mp hs
  intro c hc
  rcases List.mem_append.mp hc with hc | hc
  · exact hf a c hc
  · cases b with
    | none => cases hc
    | some b =>
      rcases List.mem_cons.mp hc with rfl | hc
      · rfl
      · exact hf b c hc

theorem channelText_chars (vals : List (BitVec 32)) :
    ∀ c ∈ channelText vals, isProgramExpression c = true :=
  intercalate_chars (p := fun c => isProgramExpression c = true) rfl fun s hs => by
    obtain ⟨val, -, rfl⟩ := List.mem_map.mp hs
    exact int32Text_chars val

/-- `(1:3,5)` -/
def numericList (rs : List (ExprRange (BitVec 32))) : Datum :=
  .expression (listText (ExprRange.text int32Text) rs)

/-- `(@1!2:5!6,7)` -/
def channelList (rs : List (ExprRange (List (BitVec 32)))) : Datum :=
  .expression (64 :: listText (ExprRange.text channelText) rs)

theorem numericList_wellFormed (rs : List (ExprRange (BitVec 32))) : (numericList rs).WellFormed :=
  .expression (listText_chars int32Text_chars rs)

theorem channelList_wellFormed (rs : List (ExprRange (List (BitVec 32)))) :
    (channelList rs).WellFormed := by
  refine .expression fun c hc => ?_
  rcases List.mem_cons.mp hc with rfl | hc
  · rfl
  · exact listText_chars channelText_chars rs c hc

/-- **A numeric list among the parameters of a command is read entry by entry**, ranges and single
values, in any order of the indices, and behind its last entry there is no more. -/
theorem numeric_list_read {rs : List (ExprRange (BitVec 32))} (hne : rs ≠ []) {rest : Text}
    (hrest : DataEnd rest) (count : Nat) :
    ∃ param, scpiParameter true ⟨separator count ++ ((numericList rs).text ++ rest), count, []⟩ =
        (true, param, ⟨rest, count + 1, []⟩) ∧
      ∀ index, scpiExprNumericListEntryInt param index =
        (match rs[index]? with
          | some r => .ok r
          | none => .noMore, none) :=
  ⟨(numericList rs).token rest, scpiParameter_datum (numericList_wellFormed rs) hrest count,
    numericListEntry_text hne rest⟩

/-- `(1:-3,-2147483648)`, and one more parameter. -/
theorem numeric_list_read_range :
    let rs : List (ExprRange (BitVec 32)) := [⟨1, some (-3)⟩, ⟨BitVec.intMin 32, none⟩]
    ∃ param, scpiParameter true ⟨separator 1 ++ ((numericList rs).text ++ [44, 49]), 1, []⟩ =
        (true, param, ⟨[44, 49], 2, []⟩) ∧
      ∀ index, scpiExprNumericListEntryInt param index =
        (match rs[index]? with
          | some r => .ok r
          | none => .noMore, none) :=
  numeric_list_read (List.cons_ne_nil _ _) (.cons rfl _) 1

/-- **A channel list is read entry by entry**: of each channel as many numbers as there is room
for, and how many it has. -/
theorem channel_list_read {rs : List (ExprRange (List (BitVec 32)))} (hne : rs ≠ [])
    (hrs : ∀ r ∈ rs, WellFormedRange r) {rest : Text} (hrest : DataEnd rest) (count : Nat) :
    ∃ param, scpiParameter true ⟨separator count ++ ((channelList rs).text ++ rest), count, []⟩ =
        (true, param, ⟨rest, count + 1, []⟩) ∧
      ∀ index length, scpiExprChannelListEntry param index length =
        (match rs[index]? with
          | some r => .ok (entryFound length r)
          | none => .noMore, none) :=
  ⟨(channelList rs).token rest, scpiParameter_datum (channelList_wellFormed rs) hrest count,
    channelListEntry_text hne hrs rest⟩

/-- `(@1!2:5!6,7)` -/
theorem channel_list_read_range :
    let rs : List (ExprRange (List (BitVec 32))) := [⟨[1, 2], some [5, 6]⟩, ⟨[7], none⟩]
    ∃ param, scpiParameter true ⟨separator 0 ++ ((channelList rs).text ++ []), 0, []⟩ =
        (true, param, ⟨[], 1, []⟩) ∧
      ∀ index length, scpiExprChannelListEntry param index length =
        (match rs[index]? with
          | some r => .ok (entryFound length r)
          | none => .noMore, none) := by
  intro rs
  refine channel_list_read (List.cons_ne_nil _ _) ?_ .nil 0
  intro r hr
  rcases List.mem_pair.mp hr with rfl | rfl
  · exact ⟨List.cons_ne_nil _ _, fun vals hvals => by rw [← Option.some.inj hvals]; rfl⟩
  · exact ⟨List.cons_ne_nil _ _, nofun⟩

end XHeepFemu.Scpi
