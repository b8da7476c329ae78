import XHeepFemu.Lib.LittleEndian
import XHeepFemu.Hw.MemMap

/-!
# Memory images on the host

The flash and the ADC memory of `sw/arm/sdk/x_heep_api.py`: files are stored as
little-endian words and written back as bytes. Both writers loop over
`int(len(file_byte)/4)` words and leave the bytes after the last whole word out.
-/

namespace XHeepFemu.Host

open Lib (toBytes ofBytes toBytes_ofBytes ofBytes_lt assemble_eq group flatten_group)

inductive PyError where
  | indexError
  deriving DecidableEq, Repr

/-- A buffer of `n` words, or a window of `n` memory-mapped words. -/
abbrev WordMem (n : Nat) := Vector Word n

variable {n : Nat}

/-- `mem[i] = value`; an index past the end raises an exception. -/
def setItem (mem : WordMem n) (i : Nat) (value : Word) : Except PyError (WordMem n) :=
  if h : i < n then .ok (mem.set i value h) else .error .indexError

/-- `for i in range(k): mem[i] = value(i)` -/
def storeLoop (mem : WordMem n) (value : Nat → Word) (k : Nat) : Except PyError (WordMem n) :=
  (List.range k).foldlM (fun mem i => setItem mem i (value i)) mem

/-- `(file_byte[i*4+3] << 24) | (file_byte[i*4+2] << 16) | (file_byte[i*4+1] << 8) | file_byte[i*4]`,
as a 32-bit word. -/
def fileWord (fileByte : List Byte) (i : Nat) : Word :=
  BitVec.ofNat 32
    ((fileByte.getD (i * 4 + 3) 0).toNat <<< 24 ||| (fileByte.getD (i * 4 + 2) 0).toNat <<< 16 |||
      (fileByte.getD (i * 4 + 1) 0).toNat <<< 8 ||| (fileByte.getD (i * 4) 0).toNat)

/-! ## Flash -/

def flashWords : Nat := 32768

abbrev Flash := WordMem flashWords

/-- `flash[:] = 0` -/
def resetFlash (_flash : Flash) : Flash := Vector.replicate flashWords 0

/-- `allocated` is what the buffer holds before. -/
def initFlash (allocated : Flash) : Flash := resetFlash allocated

def writeFlash (flash : Flash) (fileByte : List Byte) : Except PyError Flash :=
  storeLoop flash (fileWord fileByte) (fileByte.length / 4)

/-- The bytes of a word in memory, lowest first. -/
def memoryBytes (word : Word) : List Byte :=
  [⟨word.setWidth 8⟩, ⟨(word >>> 8).setWidth 8⟩, ⟨(word >>> 16).setWidth 8⟩,
    ⟨(word >>> 24).setWidth 8⟩]

/-- `bytearray(flash)`: the memory of the buffer. -/
def readFlash (flash : Flash) : List Byte := flash.toList.flatMap memoryBytes

/-! ## ADC memory -/

def adcWords : Nat := 2048

abbrev AdcMem := WordMem adcWords

/-- `adc_mem.write(offset, value)` -/
def mmioWrite (mem : AdcMem) (offset : Nat) (value : Word) : Except PyError AdcMem :=
  setItem mem (offset / 4) value

/-- `adc_mem.read(offset)` -/
def mmioRead (mem : AdcMem) (offset : Nat) : Nat := (mem.toList.getD (offset / 4) 0).toNat

def resetAdcMem (adcMem : AdcMem) : Except PyError AdcMem :=
  (List.range 2048).foldlM (fun mem i => mmioWrite mem (i * 4) 0) adcMem

/-- `mapped` is what the memory holds before. -/
def initAdcMem (mapped : AdcMem) : Except PyError AdcMem :=
  (List.range 2048).foldlM (fun mem i => mmioWrite mem (i * 4) 0) mapped

def writeAdcMem (adcMem : AdcMem) (fileByte : List Byte) : Except PyError AdcMem :=
  (List.range (fileByte.length / 4)).foldlM
    (fun mem i => mmioWrite mem (i * 4) (fileWord fileByte i)) adcMem

def readAdcMem (adcMem : AdcMem) : List Byte :=
  (List.range 2048).flatMap fun i => toBytes 4 (mmioRead adcMem (i * 4))

/-! ## The loops -/

theorem setItem_toList (mem : WordMem n) (value : Word) {i : Nat} (h : i < n) :
    ∃ mem', setItem mem i value = .ok mem' ∧ mem'.toList = mem.toList.set i value :=
  ⟨_, dif_pos h, Vector.toList_set h⟩

theorem storeLoop_toList (mem : WordMem n) (value : Nat → Word) {k : Nat} (hk : k ≤ n) :
    ∃ mem', storeLoop mem value k = .ok mem' ∧
      mem'.toList = (List.range k).map value ++ mem.toList.drop k := by
  induction k with
  | zero => exact ⟨mem, rfl, rfl⟩
  | succ k ih =>
    obtain ⟨mem', hloop, hlist⟩ := ih (by omega)
    obtain ⟨mem'', hset, hlist'⟩ := setItem_toList mem' (value k) hk
    refine ⟨mem'', ?_, ?_⟩
    · unfold storeLoop at hloop ⊢
      rw [List.range_succ, List.foldlM_append, hloop]
      exact (bind_pure _).trans hset
    · have hlen : ((List.range k).map value).length = k := by
        rw [List.length_map, List.length_range]
      have hmem : mem.toList.length = n := Vector.length_toList
      have hdrop : mem.toList.drop k = mem.toList[k] :: mem.toList.drop (k + 1) :=
        List.drop_eq_getElem_cons (by omega)
      rw [hlist', hlist, List.set_append_right _ _ (by omega), hlen, Nat.sub_self, hdrop,
        List.set_cons_zero, List.range_succ, List.map_append]
      simp only [List.map_cons, List.map_nil, List.append_assoc, List.singleton_append]

theorem mmioWrite_eq (mem : AdcMem) (i : Nat) (value : Word) :
    mmioWrite mem (i * 4) value = setItem mem i value := by
  rw [mmioWrite, Nat.mul_div_cancel i (by omega)]

theorem writeAdcMem_eq (adcMem : AdcMem) (fileByte : List Byte) :
    writeAdcMem adcMem fileByte = storeLoop adcMem (fileWord fileByte) (fileByte.length / 4) := by
  simp only [writeAdcMem, storeLoop, mmioWrite_eq]

theorem resetAdcMem_eq (adcMem : AdcMem) :
    resetAdcMem adcMem = .ok (Vector.replicate adcWords 0) := by
  obtain ⟨mem, hloop, hlist⟩ := storeLoop_toList adcMem (fun _ => 0) (Nat.le_refl adcWords)
  have hmem : mem = Vector.replicate adcWords 0 := by
    apply Vector.toList_inj.mp
    have hlen : adcMem.toList.length = adcWords := Vector.length_toList
    rw [hlist, List.drop_eq_nil_of_le (by omega), List.append_nil, List.map_const',
      List.length_range, Vector.toList_replicate]
  have hreset : resetAdcMem adcMem = storeLoop adcMem (fun _ => 0) adcWords := by
    simp only [resetAdcMem, storeLoop, mmioWrite_eq]
    rfl
  rw [hreset, hloop, hmem]

/-! ## Images -/

/-- The bytes of a word, by shifts and by divisions. -/
theorem memoryBytes_eq (word : Word) : memoryBytes word = toBytes 4 word.toNat := by
  have byte : ∀ k, (⟨(word >>> k).setWidth 8⟩ : Byte) = UInt8.ofNat (word.toNat / 2 ^ k) := by
    intro k
    apply UInt8.toNat_inj.mp
    rw [UInt8.toNat_ofNat', ← Nat.shiftRight_eq_div_pow]
    exact BitVec.toNat_setWidth ..
  have low : (⟨word.setWidth 8⟩ : Byte) = UInt8.ofNat word.toNat := by
    apply UInt8.toNat_inj.mp
    rw [UInt8.toNat_ofNat']
    exact BitVec.toNat_setWidth ..
  simp only [memoryBytes, toBytes, low, byte, Nat.div_div_eq_div_mul]
  rfl

theorem memoryBytes_assemble (b₀ b₁ b₂ b₃ : Byte) :
    memoryBytes (BitVec.ofNat 32
      (b₃.toNat <<< 24 ||| b₂.toNat <<< 16 ||| b₁.toNat <<< 8 ||| b₀.toNat)) =
      [b₀, b₁, b₂, b₃] := by
  have hlt : ofBytes [b₀, b₁, b₂, b₃] < 2 ^ 32 := by
    have := ofBytes_lt [b₀, b₁, b₂, b₃]
    simp only [List.length_cons, List.length_nil] at this
    omega
  rw [assemble_eq, memoryBytes_eq, BitVec.toNat_ofNat, Nat.mod_eq_of_lt hlt]
  exact toBytes_ofBytes [b₀, b₁, b₂, b₃]

theorem readAdcMem_eq (adcMem : AdcMem) :
    readAdcMem adcMem = adcMem.toList.flatMap memoryBytes := by
  have hlen : adcMem.toList.length = 2048 := Vector.length_toList
  have hwords : adcMem.toList = (List.range 2048).map fun i => adcMem.toList.getD i 0 := by
    apply List.ext_getElem
    · rw [List.length_map, List.length_range, hlen]
    · intro i hi _
      rw [List.getElem_map, List.getElem_range, List.getD_eq_getElem?_getD,
        List.getElem?_eq_getElem hi]
      rfl
  rw [hwords, List.flatMap_map]
  simp only [readAdcMem, mmioRead, memoryBytes_eq, Nat.mul_div_cancel _ (show 0 < 4 by omega)]

/-- The bytes after the last whole word are zero. -/
def TailZero (f : List Byte) : Prop := ∀ b ∈ f.drop (f.length / 4 * 4), b = 0

theorem image_written {f : List Byte} (hf : f.length ≤ n * 4) :
    ∃ mem, storeLoop (Vector.replicate n 0) (fileWord f) (f.length / 4) = .ok mem ∧
      mem.toList.flatMap memoryBytes =
        f.take (f.length / 4 * 4) ++ List.replicate ((n - f.length / 4) * 4) 0 := by
  obtain ⟨mem, hloop, hlist⟩ := storeLoop_toList (Vector.replicate n 0) (fileWord f)
    (k := f.length / 4) (by omega)
  have hwords : ((List.range (f.length / 4)).map (fileWord f)).flatMap memoryBytes =
      f.take (f.length / 4 * 4) := by
    rw [← flatten_group (by omega), List.flatMap_map, List.flatMap_def, group]
    simp only [fileWord, memoryBytes_assemble]
  have hzeros : ∀ k, (List.replicate k (0 : Word)).flatMap memoryBytes =
      List.replicate (k * 4) 0 := by
    intro k
    have hzero : memoryBytes 0 = List.replicate 4 0 := rfl
    rw [List.flatMap_replicate, hzero]
    exact List.flatten_replicate_replicate
  refine ⟨mem, hloop, ?_⟩
  rw [hlist, List.flatMap_append, hwords, Vector.toList_replicate, List.drop_replicate, hzeros]

/-- The bytes left out are lost unless they are zero. -/
theorem image_iff {f : List Byte} (hf : f.length ≤ n * 4) :
    f.take (f.length / 4 * 4) ++ List.replicate ((n - f.length / 4) * 4) 0 =
      f ++ List.replicate (n * 4 - f.length) 0 ↔ TailZero f := by
  have hpad : List.replicate ((n - f.length / 4) * 4) (0 : Byte) =
      List.replicate (f.drop (f.length / 4 * 4)).length 0 ++
        List.replicate (n * 4 - f.length) 0 := by
    rw [List.replicate_append_replicate, List.length_drop]
    congr 1
    omega
  have hsplit : f ++ List.replicate (n * 4 - f.length) 0 = f.take (f.length / 4 * 4) ++
      (f.drop (f.length / 4 * 4) ++ List.replicate (n * 4 - f.length) 0) := by
    rw [← List.append_assoc, List.take_append_drop]
  rw [hpad, hsplit, List.append_cancel_left_eq, List.append_cancel_right_eq, eq_comm,
    List.eq_replicate_iff]
  exact and_iff_right rfl

/-- Writing the file to the flash and reading it back. -/
def FlashRoundTrip (flash : Flash) (f : List Byte) : Prop :=
  (writeFlash flash f).map readFlash = .ok (f ++ List.replicate (131072 - f.length) 0)

/-- Writing the file to the ADC memory `fresh` and reading it back. -/
def AdcRoundTrip (fresh : Except PyError AdcMem) (f : List Byte) : Prop :=
  (do
    let adcMem ← fresh
    let adcMem ← writeAdcMem adcMem f
    pure (readAdcMem adcMem)) = .ok (f ++ List.replicate (8192 - f.length) 0)

theorem flashRoundTrip_iff {f : List Byte} (hf : f.length ≤ 131072) :
    FlashRoundTrip (Vector.replicate flashWords 0) f ↔ TailZero f := by
  obtain ⟨mem, hloop, himage⟩ := image_written (n := flashWords) hf
  rw [← image_iff (n := flashWords) hf, ← himage, FlashRoundTrip, writeFlash, hloop]
  exact ⟨fun h => Except.ok.inj h, fun h => congrArg Except.ok h⟩

theorem adcRoundTrip_iff {f : List Byte} (hf : f.length ≤ 8192) :
    AdcRoundTrip (.ok (Vector.replicate adcWords 0)) f ↔ TailZero f := by
  obtain ⟨mem, hloop, himage⟩ := image_written (n := adcWords) hf
  rw [← image_iff (n := adcWords) hf, ← himage, ← readAdcMem_eq, AdcRoundTrip]
  simp only [bind, Except.bind, writeAdcMem_eq, hloop]
  exact ⟨fun h => Except.ok.inj h, fun h => congrArg Except.ok h⟩

/-- **Memory images** come back as they were written exactly when the bytes after the last
whole word are zero. -/
theorem mem_image_round_trip_iff (f : List Byte) :
    (f.length ≤ 131072 → ∀ flash : Flash,
      (FlashRoundTrip (initFlash flash) f ↔ TailZero f) ∧
      (FlashRoundTrip (resetFlash flash) f ↔ TailZero f)) ∧
    (f.length ≤ 8192 → ∀ adcMem : AdcMem,
      (AdcRoundTrip (initAdcMem adcMem) f ↔ TailZero f) ∧
      (AdcRoundTrip (resetAdcMem adcMem) f ↔ TailZero f)) := by
  refine ⟨fun hf flash => ⟨flashRoundTrip_iff hf, flashRoundTrip_iff hf⟩, fun hf adcMem => ?_⟩
  have hinit : initAdcMem adcMem = resetAdcMem adcMem := rfl
  rw [hinit, resetAdcMem_eq]
  exact ⟨adcRoundTrip_iff hf, adcRoundTrip_iff hf⟩

theorem mem_image_round_trip_word :
    FlashRoundTrip (initFlash (Vector.replicate flashWords 0xffffffff)) [1, 2, 3, 4] :=
  (((mem_image_round_trip_iff [1, 2, 3, 4]).1 (by decide)) _).1.mpr nofun

/-- The last byte of a five-byte file is lost. -/
theorem mem_image_drops_tail :
    ¬ FlashRoundTrip (initFlash (Vector.replicate flashWords 0)) [1, 2, 3, 4, 5] := by
  intro h
  exact absurd ((flashRoundTrip_iff (by decide)).mp h 5 List.mem_cons_self) (by decide)

end XHeepFemu.Host
