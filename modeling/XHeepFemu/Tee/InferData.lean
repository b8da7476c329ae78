import XHeepFemu.Scpi.Parameter

/-!
# The callback of NN:INFEr:DATA?

`inferData` is `InferData` of both applications' `main.c`, as the list of what
it does. The locals it does not initialise are indeterminate until
`SCPI_ParamArbitraryBlock` writes them, and so are the bytes of its array until
`memcpy` does; the callback looks at neither the result of the one nor the
length it gives to the other. `infer` stands for the network.
-/

namespace XHeepFemu.Tee

open Scpi

/-- `lenet_input_data_size`. -/
def lenetInputDataSize : Nat := 32 * 32

/-- What the callback does; `none` is an indeterminate value. -/
inductive InferAct where
  | error (e : ScpiError)
  | printf (fmt : String) (arg : Option Nat)
  /-- `memcpy` of indeterminate length from an indeterminate pointer. -/
  | wildCopy
  /-- So many bytes written behind `tflite_input_data`. -/
  | outside (n : Nat)
  | infer (input : List (Option Byte))
  | resultArrayInt8 (out : List Byte)
  | resultText (text : String)
  deriving DecidableEq, Repr

/-- `memcpy(tflite_input_data, scpi_out, scpi_len)`, and the array behind it. -/
def copyInput (src : Option (Text × Nat)) : List InferAct × List (Option Byte) :=
  match src with
  | none => ([.wildCopy], List.replicate lenetInputDataSize none)
  | some (scpiOut, scpiLen) =>
    (if scpiLen > lenetInputDataSize then [.outside (scpiLen - lenetInputDataSize)] else [],
      ((scpiOut.take scpiLen).map some ++ List.replicate lenetInputDataSize none).take
        lenetInputDataSize)

/-- On the program data of its command, for a network that returns a status and an output. -/
def inferData (infer : List (Option Byte) → Int × List Byte) (data : Text) : List InferAct :=
  let (_, scpiOut, c) := scpiParamArbitraryBlock true (.ofData data)
  let (copied, tfliteInputData) := copyInput scpiOut
  let (a, out) := infer tfliteInputData
  c.errors.map .error ++ .printf "Read: %d bytes\r\n" (scpiOut.map (·.2)) :: copied ++
    [.infer tfliteInputData,
      if a = 0 then .resultArrayInt8 out else .resultText "Inference error"]

/-- What the callback is for: the network runs on a block of its input size, and on nothing else. -/
structure InferDataOk (data : Text) (acts : List InferAct) : Prop where
  exact : ∀ input, .infer input ∈ acts →
    ∃ bs, BlockParam data bs ∧ bs.length = lenetInputDataSize ∧ input = bs.map some
  ran : ∀ bs, BlockParam data bs → bs.length = lenetInputDataSize → .infer (bs.map some) ∈ acts
  reported : (¬∃ bs, BlockParam data bs ∧ bs.length = lenetInputDataSize) →
    (∀ input, .infer input ∉ acts) ∧ ∃ e, .error e ∈ acts
  inside : ∀ n, .outside n ∉ acts
  initialised : .wildCopy ∉ acts ∧ (∀ fmt, .printf fmt none ∉ acts) ∧
    ∀ input, .infer input ∈ acts → none ∉ input

/-! ## What the callback does -/

variable (infer : List (Option Byte) → Int × List Byte)

/-- The answer to the client. -/
def inferAnswer (input : List (Option Byte)) : InferAct :=
  if (infer input).1 = 0 then .resultArrayInt8 (infer input).2 else .resultText "Inference error"

theorem inferData_block {data bs : Text} (h : BlockParam data bs) :
    inferData infer data =
      let input := (bs.map some ++ List.replicate lenetInputDataSize none).take lenetInputDataSize
      .printf "Read: %d bytes\r\n" (some bs.length) ::
        (if bs.length > lenetInputDataSize then [.outside (bs.length - lenetInputDataSize)] else []) ++
        [.infer input, inferAnswer infer input] := by
  obtain ⟨rest, c, hparam, herrors⟩ := paramArbitraryBlock_of_block h
  unfold inferData
  rw [hparam]
  simp only [herrors, copyInput, List.take_left', List.map_nil, List.nil_append, Option.map_some,
    inferAnswer]

theorem inferData_not_block {data : Text} (h : ¬∃ bs, BlockParam data bs) :
    ∃ e, inferData infer data =
      let input := List.replicate lenetInputDataSize none
      [.error e, .printf "Read: %d bytes\r\n" none, .wildCopy, .infer input,
        inferAnswer infer input] := by
  obtain ⟨e, c, hparam, herrors⟩ := paramArbitraryBlock_of_not_block h
  refine ⟨e, ?_⟩
  unfold inferData
  rw [hparam]
  simp only [herrors]
  rfl

theorem take_padded {bs : List Byte} (h : bs.length ≤ lenetInputDataSize) :
    (bs.map some ++ List.replicate lenetInputDataSize none).take lenetInputDataSize =
      bs.map some ++ List.replicate (lenetInputDataSize - bs.length) none := by
  rw [List.take_append, List.take_of_length_le (by rwa [List.length_map]), List.length_map,
    List.take_replicate, Nat.min_eq_left (Nat.sub_le _ _)]

theorem inferData_fits {data bs : Text} (h : BlockParam data bs)
    (hlen : bs.length ≤ lenetInputDataSize) :
    inferData infer data =
      let input := bs.map some ++ List.replicate (lenetInputDataSize - bs.length) none
      [.printf "Read: %d bytes\r\n" (some bs.length), .infer input, inferAnswer infer input] := by
  rw [inferData_block infer h]
  simp only [take_padded hlen]
  rw [if_neg (by omega)]
  rfl

theorem inferAnswer_cases (input : List (Option Byte)) :
    (∃ out, inferAnswer infer input = .resultArrayInt8 out) ∨
      ∃ text, inferAnswer infer input = .resultText text := by
  unfold inferAnswer
  split
  · exact .inl ⟨_, rfl⟩
  · exact .inr ⟨_, rfl⟩

theorem inferData_exact {data bs : Text} (h : BlockParam data bs)
    (hlen : bs.length = lenetInputDataSize) :
    inferData infer data = [.printf "Read: %d bytes\r\n" (some bs.length), .infer (bs.map some),
      inferAnswer infer (bs.map some)] := by
  rw [inferData_fits infer h (Nat.le_of_eq hlen), hlen, Nat.sub_self, List.replicate_zero,
    List.append_nil]

theorem inferDataOk_of_block {data bs : Text} (h : BlockParam data bs)
    (hlen : bs.length = lenetInputDataSize) : InferDataOk data (inferData infer data) := by
  have hacts := inferData_exact infer h hlen
  have hinput : ∀ input, .infer input ∈ inferData infer data → input = bs.map some := by
    intro input hin
    obtain ⟨out, ha⟩ | ⟨text, ha⟩ := inferAnswer_cases infer (bs.map some) <;>
      · rw [hacts, ha] at hin
        simpa using hin
  constructor
  · intro input hin
    exact ⟨bs, h, hlen, hinput input hin⟩
  · intro bs' h' hlen'
    rw [inferData_exact infer h' hlen']
    exact .tail _ (.head _)
  · exact fun hno => absurd ⟨bs, h, hlen⟩ hno
  · intro n hin
    obtain ⟨out, ha⟩ | ⟨text, ha⟩ := inferAnswer_cases infer (bs.map some) <;>
      · rw [hacts, ha] at hin
        simp at hin
  · obtain ⟨out, ha⟩ | ⟨text, ha⟩ := inferAnswer_cases infer (bs.map some) <;>
      · refine ⟨by simp [hacts, ha], by simp [hacts, ha], ?_⟩
        intro input hin
        rw [hinput input hin]
        simp

/-- Without a block the pointer and the length of the copy are indeterminate. -/
theorem inferData_wild {data : Text} (h : ¬∃ bs, BlockParam data bs) :
    .wildCopy ∈ inferData infer data := by
  obtain ⟨e, he⟩ := inferData_not_block infer h
  rw [he]
  exact .tail _ (.tail _ (.head _))

theorem inferData_overflow {data bs : Text} (h : BlockParam data bs)
    (hlen : lenetInputDataSize < bs.length) :
    .outside (bs.length - lenetInputDataSize) ∈ inferData infer data := by
  rw [inferData_block infer h, if_pos hlen]
  exact .tail _ (.head _)

/-- After a shorter block the network runs on stale bytes. -/
theorem inferData_short {data bs : Text} (h : BlockParam data bs)
    (hlen : bs.length < lenetInputDataSize) :
    ∃ input, .infer input ∈ inferData infer data ∧ none ∈ input := by
  rw [inferData_fits infer h (Nat.le_of_lt hlen)]
  refine ⟨_, .tail _ (.head _), List.mem_append_right _ ?_⟩
  exact List.mem_replicate.mpr ⟨by omega, rfl⟩

/-- The callback does what it is for exactly on the blocks of the input size. -/
theorem inferDataOk_iff (data : Text) : InferDataOk data (inferData infer data) ↔
    ∃ bs, BlockParam data bs ∧ bs.length = lenetInputDataSize := by
  refine ⟨fun hok => ?_, fun ⟨bs, h, hlen⟩ => inferDataOk_of_block infer h hlen⟩
  by_cases hblock : ∃ bs, BlockParam data bs
  · obtain ⟨bs, h⟩ := hblock
    refine ⟨bs, h, ?_⟩
    rcases Nat.lt_trichotomy bs.length lenetInputDataSize with hlt | heq | hgt
    · obtain ⟨input, hin, hstale⟩ := inferData_short infer h hlt
      exact absurd hstale (hok.initialised.2.2 input hin)
    · exact heq
    · exact absurd (inferData_overflow infer h hgt) (hok.inside _)
  · exact absurd (inferData_wild infer hblock) hok.initialised.1

/-- `NN:INFE:DATA? #13abc` and its terminator. -/
def shortBlock : Text :=
  [78, 78, 58, 73, 78, 70, 69, 58, 68, 65, 84, 65, 63, 32, 35, 49, 51, 97, 98, 99, 13, 10]

/-- The network runs on the three bytes of the block and on 1021 bytes of the stack. -/
theorem inferData_stale :
    (scpiParserDetectProgramMessageUnit shortBlock).programData.text = [35, 49, 51, 97, 98, 99] ∧
      ∀ infer, .infer ([some 97, some 98, some 99] ++ List.replicate 1021 none) ∈
          inferData infer [35, 49, 51, 97, 98, 99] ∧
        ¬InferDataOk [35, 49, 51, 97, 98, 99] (inferData infer [35, 49, 51, 97, 98, 99]) := by
  refine ⟨by decide, fun infer => ?_⟩
  have hblock : BlockParam [35, 49, 51, 97, 98, 99] [97, 98, 99] :=
    ⟨[], 49, [51], [], rfl, nofun, rfl, rfl, List.all_eq_true.mp rfl, rfl⟩
  have hin : .infer ([some 97, some 98, some 99] ++ List.replicate 1021 none) ∈
      inferData infer [35, 49, 51, 97, 98, 99] := by
    rw [inferData_fits infer hblock (by decide)]
    exact .tail _ (.head _)
  refine ⟨hin, fun hok => hok.initialised.2.2 _ hin ?_⟩
  exact List.mem_append_right _ (List.mem_replicate.mpr ⟨by decide, rfl⟩)

end XHeepFemu.Tee
