import XHeepFemu.Hw.WordRam

/-!
# Copies between main memory and MMIO

`mmioRegionMemcpy32` is `mmio_region_memcpy32` of `lib/base/mmio.c`, as a program over
the words of the region, named by their byte offset. `buf` is what main memory holds from
the pointer on; the result is what it holds there afterwards. `Copied` says what a copy of
some bytes does. It is proved of a part of a word, of the loop over the words and of both
together.
-/

namespace XHeepFemu.Hal

open Lib (Io Device)

/-- The word a byte offset falls in, as an element of an array of words. -/
def mmioRegionRead32 (offset : Word) : Io Word Word Word := Io.load (4 * (offset / 4))

def mmioRegionWrite32 (offset value : Word) : Io Word Word Unit := Io.store (4 * (offset / 4)) value

/-- `memcpy(dest + d, src + s, len)`, with what `dest` holds afterwards. -/
def memcpy (dest : List Byte) (d : Nat) (src : List Byte) (s len : Nat) : List Byte :=
  dest.take d ++ (src.drop s).take len ++ dest.drop (d + len)

def misalignment32Of (addr : Word) : Word := addr % 4

/-- The `if (from_mmio)` of both phases: `n` bytes from byte `d` of the current word on. -/
def copyPart (fromMmio : Bool) (offset currentWord d n : Word) (buf : List Byte) :
    Io Word Word (List Byte) :=
  if fromMmio then pure (memcpy buf 0 (wordBytes currentWord) d.toNat n.toNat)
  else do
    mmioRegionWrite32 offset (ofWordBytes (memcpy (wordBytes currentWord) d.toNat buf 0 n.toNat))
    pure buf

/-- `sizeof(uint32_t)`, or what is left. -/
def bytesToCopy (len : Word) : Word := if 4 > len then len else 4

theorem bytesToCopy_toNat (len : Word) : (bytesToCopy len).toNat = min 4 len.toNat := by
  unfold bytesToCopy
  split
  · rename_i h
    have h : len.toNat < 4 := h
    omega
  · rename_i h
    have h : ¬len.toNat < 4 := h
    show 4 = _
    omega

def loadCurrentWord (need : Bool) (offset : Word) : Io Word Word Word :=
  if need then mmioRegionRead32 offset else pure 0

/-- The loop over the words. -/
def copyWords (fromMmio : Bool) (offset : Word) (buf : List Byte) (len : Word) :
    Io Word Word (List Byte) :=
  if len = 0 then pure buf
  else do
    let n := bytesToCopy len
    let currentWord ← loadCurrentWord (fromMmio || n ≠ 4) offset
    let buf ← copyPart fromMmio offset currentWord 0 n buf
    let rest ← copyWords fromMmio (offset + n) (buf.drop n.toNat) (len - n)
    pure (buf.take n.toNat ++ rest)
termination_by len.toNat
decreasing_by
  rename_i hlen
  have hn := bytesToCopy_toNat len
  have hpos : len.toNat ≠ 0 := fun h => hlen (BitVec.eq_of_toNat_eq h)
  bv_omega

def mmioRegionMemcpy32 (offset : Word) (buf : List Byte) (len : Word) (fromMmio : Bool) :
    Io Word Word (List Byte) :=
  if len = 0 then pure buf
  else
    let misalignment := misalignment32Of offset
    if misalignment ≠ 0 then do
      let realignment := 4 - misalignment
      let realignment := if realignment > len then len else realignment
      let currentWordOffset := offset - misalignment
      let currentWord ← mmioRegionRead32 currentWordOffset
      let buf ← copyPart fromMmio currentWordOffset currentWord misalignment realignment buf
      let rest ← copyWords fromMmio (offset + realignment) (buf.drop realignment.toNat)
        (len - realignment)
      pure (buf.take realignment.toNat ++ rest)
    else copyWords fromMmio offset buf len

/-- What `dest` holds afterwards. -/
def mmioRegionMemcpyFromMmio32 (offset : Word) (dest : List Byte) (len : Word) :
    Io Word Word (List Byte) :=
  mmioRegionMemcpy32 offset dest len true

def mmioRegionMemcpyToMmio32 (offset : Word) (src : List Byte) (len : Word) : Io Word Word Unit := do
  let _ ← mmioRegionMemcpy32 offset src len false
  pure ()

/-! ## What a copy does -/

/-- A word that holds one of the `n` bytes from `p` on. -/
def InSpan (p : Word) (n : Nat) (a : Word) : Prop :=
  a.toNat % 4 = 0 ∧ p.toNat < a.toNat + 4 ∧ a.toNat < p.toNat + n

/-- From `r` to `r'` the `n` bytes at `p` were copied, by accesses to their words of which at most
`reads` are loads. -/
structure Copied (fromMmio : Bool) (r : WordRam) (p : Word) (n : Nat) (buf : List Byte)
    (reads : Nat) (r' : WordRam) (buf' : List Byte) : Prop where
  mem : r'.mem = if fromMmio then r.mem else r.mem.setBytes p (buf.take n)
  buf : buf' = if fromMmio then readBytes r.mem p n ++ buf.drop n else buf
  accesses : ∃ rs ws, r'.reads = r.reads ++ rs ∧ r'.writes = r.writes ++ ws ∧
    rs.length ≤ reads ∧ (fromMmio = true → ws = []) ∧ ∀ a ∈ rs ++ ws, InSpan p n a

variable {fromMmio : Bool} {r r₁ r₂ : WordRam} {buf buf₁ buf₂ : List Byte}

theorem readBytes_add (mem : Mem) (p : Word) (n k : Nat) :
    readBytes mem p (n + k) = readBytes mem p n ++ readBytes mem (p + BitVec.ofNat 32 n) k := by
  induction k with
  | zero => simp [readBytes]
  | succ k ih =>
    rw [← Nat.add_assoc, readBytes_succ, ih, readBytes_succ, List.append_assoc, BitVec.ofNat_add,
      BitVec.add_assoc]

theorem Copied.append {p : Word} {n k reads₁ reads₂ : Nat}
    (h₁ : Copied fromMmio r p n buf reads₁ r₁ buf₁)
    (h₂ : Copied fromMmio r₁ (p + BitVec.ofNat 32 n) k (buf₁.drop n) reads₂ r₂ buf₂)
    (hbuf : n + k ≤ buf.length) (hend : p.toNat + (n + k) < 2 ^ 32) :
    Copied fromMmio r p (n + k) buf (reads₁ + reads₂) r₂ (buf₁.take n ++ buf₂) := by
  obtain ⟨rs₁, ws₁, hr₁, hw₁, hle₁, hnone₁, hspan₁⟩ := h₁.accesses
  obtain ⟨rs₂, ws₂, hr₂, hw₂, hle₂, hnone₂, hspan₂⟩ := h₂.accesses
  have hp : (p + BitVec.ofNat 32 n).toNat = p.toNat + n := by bv_omega
  have htake : (buf.take n).length = n := List.length_take_of_le (by omega)
  refine ⟨?_, ?_, rs₁ ++ rs₂, ws₁ ++ ws₂, ?_, ?_, ?_, fun h => ?_, fun a ha => ?_⟩
  · rw [h₂.mem, h₁.mem, h₁.buf]
    cases fromMmio with
    | true => rfl
    | false =>
      simp only [Bool.false_eq_true, if_false]
      rw [List.take_add, setBytes_append _ _ _ _ (by simp; omega), htake]
  · rw [h₂.buf, h₁.mem, h₁.buf]
    cases fromMmio with
    | true =>
      simp only [if_true]
      rw [List.take_left' (length_readBytes _ _ _), List.drop_left' (length_readBytes _ _ _),
        readBytes_add, List.append_assoc, List.drop_drop]
    | false => exact List.take_append_drop n buf
  · rw [hr₂, hr₁, List.append_assoc]
  · rw [hw₂, hw₁, List.append_assoc]
  · rw [List.length_append]
    omega
  · rw [hnone₁ h, hnone₂ h]
    rfl
  · have hmem : a ∈ rs₁ ++ ws₁ ∨ a ∈ rs₂ ++ ws₂ := by
      simp only [List.mem_append] at ha ⊢
      exact or_or_or_comm.mp ha
    rcases hmem with h | h
    · obtain ⟨halign, hlo, hhi⟩ := hspan₁ a h
      exact ⟨halign, hlo, by omega⟩
    · obtain ⟨halign, hlo, hhi⟩ := hspan₂ a h
      rw [hp] at hlo hhi
      exact ⟨halign, by omega, by omega⟩

theorem Copied.length {p : Word} {n reads : Nat} (h : Copied fromMmio r p n buf reads r₁ buf₁)
    (hn : n ≤ buf.length) : buf₁.length = buf.length := by
  rw [h.buf]
  cases fromMmio with
  | true =>
    simp only [if_true, List.length_append, length_readBytes, List.length_drop]
    omega
  | false => rfl

theorem Copied.mono {p : Word} {n reads reads' : Nat} (h : Copied fromMmio r p n buf reads r₁ buf₁)
    (hle : reads ≤ reads') : Copied fromMmio r p n buf reads' r₁ buf₁ := by
  obtain ⟨rs, ws, hr, hw, hrs, hspan⟩ := h.accesses
  exact ⟨h.mem, h.buf, rs, ws, hr, hw, Nat.le_trans hrs hle, hspan⟩

theorem Copied.nil (r : WordRam) (p : Word) (buf : List Byte) :
    Copied fromMmio r p 0 buf 0 r buf := by
  refine ⟨?_, ?_, [], [], (List.append_nil _).symm, (List.append_nil _).symm, Nat.le_refl 0,
    fun _ => rfl, nofun⟩
  · cases fromMmio <;> rfl
  · cases fromMmio <;> rfl

/-! ## Part of a word -/

theorem aligned_index {w : Word} (h : w.toNat % 4 = 0) : 4 * (w / 4) = w := by
  have hdiv : (w / 4).toNat = w.toNat / 4 := BitVec.toNat_udiv
  apply BitVec.eq_of_toNat_eq
  rw [BitVec.toNat_mul, hdiv]
  show 4 * (w.toNat / 4) % 2 ^ 32 = w.toNat
  omega

/-- What the `memcpy`s into a buffer and into a word do. -/
theorem getElem?_memcpy {dest src : List Byte} {d s len : Nat} (hd : d + len ≤ dest.length)
    (hs : s + len ≤ src.length) (k : Nat) :
    (memcpy dest d src s len)[k]? = if d ≤ k ∧ k < d + len then src[s + (k - d)]? else dest[k]? := by
  have hmid : ((src.drop s).take len).length = len := by
    rw [List.length_take_of_le]
    rw [List.length_drop]
    omega
  have hfirst : (dest.take d).length = d := List.length_take_of_le (by omega)
  unfold memcpy
  rw [List.append_assoc, List.getElem?_append, hfirst]
  by_cases h₁ : k < d
  · rw [if_pos h₁, if_neg (by omega), List.getElem?_take_of_lt h₁]
  · rw [if_neg h₁, List.getElem?_append, hmid]
    by_cases h₂ : k - d < len
    · rw [if_pos h₂, if_pos (by omega), List.getElem?_take_of_lt h₂, List.getElem?_drop]
    · rw [if_neg h₂, if_neg (by omega), List.getElem?_drop]
      congr 1
      omega

theorem length_memcpy {dest src : List Byte} {d s len : Nat} (hd : d + len ≤ dest.length)
    (hs : s + len ≤ src.length) : (memcpy dest d src s len).length = dest.length := by
  simp only [memcpy, List.length_append, List.length_take, List.length_drop]
  omega

/-- A word written back with some of its bytes replaced, or with all of them. -/
theorem store_memcpy (mem : Mem) (w v : Word) {d n : Nat} (buf : List Byte) (hd : d + n ≤ 4)
    (hn : n ≤ buf.length) (hv : v = mem.load32 w ∨ d = 0 ∧ n = 4) :
    mem.store32 w (ofWordBytes (memcpy (wordBytes v) d buf 0 n)) =
      mem.setBytes (w + BitVec.ofNat 32 d) (buf.take n) := by
  have hword : d + n ≤ (wordBytes v).length := hd
  have hlen : (memcpy (wordBytes v) d buf 0 n).length = 4 := length_memcpy hword (by omega)
  rw [store32_ofWordBytes _ _ hlen]
  funext b
  have hb := (b - w).isLt
  have hoff : (b - (w + BitVec.ofNat 32 d)).toNat = (2 ^ 32 - d + (b - w).toNat) % 2 ^ 32 := by
    bv_omega
  simp only [Mem.setBytes, List.getD_eq_getElem?_getD]
  rw [getElem?_memcpy hword (by omega), hoff]
  by_cases h : d ≤ (b - w).toNat ∧ (b - w).toNat < d + n
  · rw [if_pos h, List.getElem?_take_of_lt (by omega)]
    congr 2
    omega
  · have hout : (buf.take n)[(2 ^ 32 - d + (b - w).toNat) % 2 ^ 32]? = none := by
      refine List.getElem?_eq_none ?_
      rw [List.length_take]
      omega
    rw [if_neg h, hout, Option.getD_none]
    by_cases hk : (b - w).toNat < 4
    · have hload : v = mem.load32 w := hv.resolve_right fun hfull => h (by omega)
      have hget : (readBytes mem w 4)[(b - w).toNat]? = some (mem b) := by
        have hbw : w + BitVec.ofNat 32 (b - w).toNat = b := by bv_omega
        rw [List.getElem?_eq_getElem (by rwa [length_readBytes])]
        simp only [readBytes, List.getElem_map, List.getElem_range, hbw]
      rw [hload, wordBytes_load32, hget, Option.getD_some]
    · have hpast : (wordBytes v)[(b - w).toNat]? = none :=
        List.getElem?_eq_none (Nat.not_lt.mp hk)
      rw [hpast, Option.getD_none]

theorem readBytes_slice (mem : Mem) (w : Word) {d n m : Nat} (h : d + n ≤ m) :
    ((readBytes mem w m).drop d).take n = readBytes mem (w + BitVec.ofNat 32 d) n := by
  obtain ⟨m, rfl⟩ := Nat.exists_eq_add_of_le h
  rw [Nat.add_assoc, readBytes_add, List.drop_left' (length_readBytes _ _ _), readBytes_add,
    List.take_left' (length_readBytes _ _ _)]

theorem finish_loadWord {w : Word} (halign : w.toNat % 4 = 0) (need : Bool) (r : WordRam) :
    ∃ rs v, WordRam.device.finish r (loadCurrentWord need w) =
        some ({ r with reads := r.reads ++ rs }, v) ∧
      rs.length ≤ 1 ∧ (∀ a ∈ rs, a = w) ∧ (need = true → v = r.mem.load32 w) := by
  cases need with
  | true =>
    refine ⟨[w], r.mem.load32 w, ?_, Nat.le_refl 1, fun a ha => List.mem_singleton.mp ha,
      fun _ => rfl⟩
    show WordRam.device.finish r (Io.load (4 * (w / 4))) = _
    rw [aligned_index halign]
    rfl
  | false =>
    refine ⟨[], 0, ?_, Nat.zero_le 1, nofun, fun h => absurd h Bool.false_ne_true⟩
    rw [List.append_nil]
    rfl

variable (fromMmio) in
theorem finish_copyPart {w d n : Word} (halign : w.toNat % 4 = 0) (hd : d.toNat + n.toNat ≤ 4)
    (hpos : 0 < n.toNat) (hn : n.toNat ≤ buf.length) {need : Bool}
    (hneed : need = true ∨ fromMmio = false ∧ d = 0 ∧ n = 4) (r : WordRam)
    (k : List Byte → Io Word Word (List Byte)) :
    ∃ r' buf', WordRam.device.finish r (do
        let v ← loadCurrentWord need w
        let buf ← copyPart fromMmio w v d n buf
        k buf) = WordRam.device.finish r' (k buf') ∧
      Copied fromMmio r (w + d) n.toNat buf 1 r' buf' := by
  obtain ⟨rs, v, hload, hrs, hmem, hv⟩ := finish_loadWord halign need r
  have hspan : InSpan (w + d) n.toNat w := by
    have hwd : (w + d).toNat = w.toNat + d.toNat := by
      rw [BitVec.toNat_add, Nat.mod_eq_of_lt]
      omega
    exact ⟨halign, by omega, by omega⟩
  have hdn : BitVec.ofNat 32 d.toNat = d := by rw [BitVec.ofNat_toNat, BitVec.setWidth_eq]
  cases fromMmio with
  | true =>
    have hload' : v = r.mem.load32 w := hv (hneed.resolve_right fun h => absurd h.1 (by decide))
    refine ⟨{ r with reads := r.reads ++ rs }, memcpy buf 0 (wordBytes v) d.toNat n.toNat, ?_, rfl,
      ?_, rs, [], rfl, (List.append_nil _).symm, hrs, fun _ => rfl, fun a ha => ?_⟩
    · exact Device.finish_seq _ r _ _ _ v hload
    · rw [hload', wordBytes_load32, memcpy, readBytes_slice _ _ hd, hdn, Nat.zero_add]
      rfl
    · rw [List.append_nil] at ha
      rw [hmem a ha]
      exact hspan
  | false =>
    have hval : v = r.mem.load32 w ∨ d.toNat = 0 ∧ n.toNat = 4 := by
      rcases hneed with h | ⟨_, rfl, rfl⟩
      · exact .inl (hv h)
      · exact .inr ⟨rfl, rfl⟩
    let v' := ofWordBytes (memcpy (wordBytes v) d.toNat buf 0 n.toNat)
    refine ⟨⟨r.mem.store32 w v', r.reads ++ rs, r.writes ++ [w]⟩, buf, ?_, ?_, rfl, rs, [w], rfl,
      rfl, hrs, fun h => absurd h Bool.false_ne_true, fun a ha => ?_⟩
    · refine (Device.finish_seq _ r _ _ _ v hload).trans ?_
      show WordRam.device.finish _ (Io.write (4 * (w / 4)) _ (k buf)) = _
      rw [aligned_index halign]
      rfl
    · show r.mem.store32 w _ = _
      rw [store_memcpy _ _ _ _ hd hn hval, hdn]
      rfl
    · obtain rfl : a = w := (List.mem_append.mp ha).elim (hmem a) List.mem_singleton.mp
      exact hspan

/-! ## The loop, and the whole copy -/

theorem copyWords_zero (offset : Word) (buf : List Byte) :
    copyWords fromMmio offset buf 0 = pure buf := by
  unfold copyWords
  exact if_pos rfl

theorem ofNat_toNat (n : Word) : BitVec.ofNat 32 n.toNat = n := by
  rw [BitVec.ofNat_toNat, BitVec.setWidth_eq]

/-- Once the bytes of a word are copied, the loop copies the rest. -/
theorem finish_rest {offset len n : Word} (hn : n.toNat ≤ len.toNat)
    (hend : offset.toNat + len.toNat < 2 ^ 32) (hbuf : len.toNat ≤ buf.length)
    (hfirst : Copied fromMmio r offset n.toNat buf 1 r₁ buf₁)
    (hrest : ∃ r₂ buf₂, WordRam.device.finish r₁
        (copyWords fromMmio (offset + n) (buf₁.drop n.toNat) (len - n)) = some (r₂, buf₂) ∧
      Copied fromMmio r₁ (offset + n) (len - n).toNat (buf₁.drop n.toNat)
        (((len - n).toNat + 3) / 4) r₂ buf₂) :
    ∃ r' buf', WordRam.device.finish r₁ (do
        let rest ← copyWords fromMmio (offset + n) (buf₁.drop n.toNat) (len - n)
        pure (buf₁.take n.toNat ++ rest)) = some (r', buf') ∧
      Copied fromMmio r offset len.toNat buf (1 + (len.toNat - n.toNat + 3) / 4) r' buf' := by
  obtain ⟨r₂, buf₂, hrun, hsecond⟩ := hrest
  have hleft : (len - n).toNat = len.toNat - n.toNat := by bv_omega
  have hsum : n.toNat + (len.toNat - n.toNat) = len.toNat := by omega
  rw [hleft, show offset + n = offset + BitVec.ofNat 32 n.toNat by rw [ofNat_toNat]] at hsecond
  refine ⟨r₂, buf₁.take n.toNat ++ buf₂, ?_, ?_⟩
  · exact Device.finish_seq _ r₁ _ _ _ buf₂ hrun
  · have hall := hfirst.append hsecond (by omega) (by omega)
    rwa [hsum] at hall

theorem copyWords_copied (offset : Word) (buf : List Byte) (len : Word)
    (halign : offset.toNat % 4 = 0 ∨ len = 0) (hend : offset.toNat + len.toNat < 2 ^ 32)
    (hbuf : len.toNat ≤ buf.length) (r : WordRam) :
    ∃ r' buf', WordRam.device.finish r (copyWords fromMmio offset buf len) = some (r', buf') ∧
      Copied fromMmio r offset len.toNat buf ((len.toNat + 3) / 4) r' buf' := by
  induction offset, buf, len using copyWords.induct generalizing r with
  | case1 offset buf =>
    rw [copyWords_zero]
    exact ⟨r, buf, rfl, .nil r offset buf⟩
  | case2 offset buf len hlen n ih =>
    have hn : n.toNat = min 4 len.toNat := bytesToCopy_toNat len
    have hpos : len.toNat ≠ 0 := fun h => hlen (BitVec.eq_of_toNat_eq h)
    have halign := halign.resolve_right hlen
    have hfits : n.toNat ≤ buf.length := by omega
    have hneed : (fromMmio || decide (n ≠ 4)) = true ∨
        fromMmio = false ∧ (0 : Word) = 0 ∧ n = 4 := by
      by_cases h4 : n = 4
      · cases fromMmio with
        | true => exact .inl rfl
        | false => exact .inr ⟨rfl, rfl, h4⟩
      · rw [decide_eq_true h4, Bool.or_true]
        exact .inl rfl
    unfold copyWords
    rw [if_neg hlen]
    obtain ⟨r₁, buf₁, hpart, hcopied⟩ := finish_copyPart fromMmio halign
      (show (0 : Word).toNat + n.toNat ≤ 4 by show 0 + n.toNat ≤ 4; omega) (by omega) hfits hneed r
      fun buf => do
        let rest ← copyWords fromMmio (offset + n) (buf.drop n.toNat) (len - n)
        pure (buf.take n.toNat ++ rest)
    rw [show offset + (0 : Word) = offset from BitVec.add_zero offset] at hcopied
    have hlen₁ : buf₁.length = buf.length := hcopied.length hfits
    -- the loop goes on at the next word, unless this was the last one
    have hnext : (offset + n).toNat % 4 = 0 ∨ len - n = 0 := by
      by_cases hlast : len.toNat ≤ 4
      · exact .inr (by bv_omega)
      · exact .inl (by bv_omega)
    obtain ⟨r', buf', hrest, hall⟩ := finish_rest (by omega) hend hbuf hcopied
      (ih buf₁ hnext (by bv_omega) (by rw [List.length_drop]; bv_omega) r₁)
    exact ⟨r', buf', hpart.trans hrest, hall.mono (by omega)⟩

variable (fromMmio) in
/-- The copy copies its bytes, and reads no more than two words beyond the full ones. -/
theorem mmioRegionMemcpy32_copied (offset : Word) (buf : List Byte) (len : Word)
    (hend : offset.toNat + len.toNat < 2 ^ 32) (hbuf : len.toNat ≤ buf.length) (r : WordRam) :
    ∃ r' buf', WordRam.device.finish r (mmioRegionMemcpy32 offset buf len fromMmio) =
        some (r', buf') ∧
      Copied fromMmio r offset len.toNat buf (len.toNat / 4 + 2) r' buf' := by
  have hmis : (misalignment32Of offset).toNat = offset.toNat % 4 := BitVec.toNat_umod
  by_cases hlen : len = 0
  · unfold mmioRegionMemcpy32
    rw [hlen, if_pos rfl]
    exact ⟨r, buf, rfl, (Copied.nil r offset buf).mono (Nat.zero_le _)⟩
  have hpos : len.toNat ≠ 0 := fun h => hlen (BitVec.eq_of_toNat_eq h)
  unfold mmioRegionMemcpy32
  rw [if_neg hlen]
  by_cases haligned : misalignment32Of offset = 0
  · rw [if_neg (not_not.mpr haligned)]
    rw [haligned] at hmis
    obtain ⟨r', buf', hrun, hcopied⟩ := copyWords_copied offset buf len (.inl hmis.symm) hend hbuf r
    exact ⟨r', buf', hrun, hcopied.mono (by omega)⟩
  · rw [if_pos haligned]
    have hne : (misalignment32Of offset).toNat ≠ 0 :=
      fun h => haligned (BitVec.eq_of_toNat_eq h)
    generalize misalignment32Of offset = mis at hmis hne ⊢
    generalize hre : (if 4 - mis > len then len else 4 - mis) = re
    have hroom : (4 - mis : Word).toNat = 4 - mis.toNat := by bv_omega
    have hreNat : re.toNat = min (4 - mis.toNat) len.toNat := by
      rw [← hre]
      split
      · rename_i h
        have h : len.toNat < (4 - mis).toNat := h
        omega
      · rename_i h
        have h : ¬len.toNat < (4 - mis).toNat := h
        omega
    have hword : (offset - mis).toNat % 4 = 0 := by bv_omega
    obtain ⟨r₁, buf₁, hpart, hcopied⟩ := finish_copyPart fromMmio hword (d := mis) (n := re)
      (by omega) (by omega) (show re.toNat ≤ buf.length by omega) (.inl rfl) r fun buf => do
        let rest ← copyWords fromMmio (offset + re) (buf.drop re.toNat) (len - re)
        pure (buf.take re.toNat ++ rest)
    rw [BitVec.sub_add_cancel] at hcopied
    have hlen₁ : buf₁.length = buf.length := hcopied.length (by omega)
    -- the rest starts at a word, unless the copy ends within the first one
    have hnext : (offset + re).toNat % 4 = 0 ∨ len - re = 0 := by
      by_cases hlast : len.toNat ≤ 4 - mis.toNat
      · exact .inr (by bv_omega)
      · exact .inl (by bv_omega)
    obtain ⟨r', buf', hrest, hall⟩ := finish_rest (by omega) hend hbuf hcopied
      (copyWords_copied _ _ _ hnext (by bv_omega) (by rw [List.length_drop]; bv_omega) r₁)
    subst hre
    exact ⟨r', buf', hpart.trans hrest, hall.mono (by omega)⟩

/-! ## Both directions -/

theorem Copied.inside {offset : Word} {n reads : Nat} (h : Copied false r offset n buf reads r₁ buf₁)
    (hn : n ≤ 2 ^ 32) (hbuf : n ≤ buf.length) {k : Nat} (hk : k < n) :
    r₁.mem (offset + BitVec.ofNat 32 k) = buf[k] := by
  have htake : (buf.take n).length = n := List.length_take_of_le hbuf
  have hmem : r₁.mem = r.mem.setBytes offset (buf.take n) := h.mem
  rw [hmem, setBytes_inside _ _ (htake.symm ▸ hk) (by omega), List.getElem_take]

theorem Copied.outside {offset : Word} {n reads : Nat}
    (h : Copied false r offset n buf reads r₁ buf₁) (hbuf : n ≤ buf.length) {a : Word}
    (ha : ∀ k < n, a ≠ offset + BitVec.ofNat 32 k) : r₁.mem a = r.mem a := by
  have hmem : r₁.mem = r.mem.setBytes offset (buf.take n) := h.mem
  rw [hmem]
  exact setBytes_outside _ _ (by rwa [List.length_take_of_le hbuf])

theorem Copied.readBytes {offset : Word} {n reads : Nat}
    (h : Copied false r offset n buf reads r₁ buf₁) (hn : n ≤ 2 ^ 32) (hbuf : n ≤ buf.length) :
    XHeepFemu.readBytes r₁.mem offset n = buf.take n := by
  refine List.ext_getElem ?_ fun k hk _ => ?_
  · rw [length_readBytes, List.length_take_of_le hbuf]
  · rw [length_readBytes] at hk
    simp only [XHeepFemu.readBytes, List.getElem_map, List.getElem_range, List.getElem_take]
    exact h.inside hn hbuf hk

theorem finish_toMmio {offset len : Word} {src : List Byte}
    (hend : offset.toNat + len.toNat < 2 ^ 32) (hsrc : len.toNat ≤ src.length) (r : WordRam) :
    ∃ r', WordRam.device.finish r (mmioRegionMemcpyToMmio32 offset src len) = some (r', ()) ∧
      Copied false r offset len.toNat src (len.toNat / 4 + 2) r' src := by
  obtain ⟨r', buf', hrun, hcopied⟩ := mmioRegionMemcpy32_copied false offset src len hend hsrc r
  obtain rfl : buf' = src := hcopied.buf
  refine ⟨r', ?_, hcopied⟩
  exact Device.finish_seq _ r _ _ _ buf' hrun

theorem finish_fromMmio {offset len : Word} {dest : List Byte}
    (hend : offset.toNat + len.toNat < 2 ^ 32) (hdest : len.toNat = dest.length) (r : WordRam) :
    ∃ r', WordRam.device.finish r (mmioRegionMemcpyFromMmio32 offset dest len) =
        some (r', readBytes r.mem offset len.toNat) ∧
      Copied true r offset len.toNat dest (len.toNat / 4 + 2) r' (readBytes r.mem offset len.toNat) := by
  obtain ⟨r', buf', hrun, hcopied⟩ := mmioRegionMemcpy32_copied true offset dest len hend (by omega) r
  obtain rfl : buf' = readBytes r.mem offset len.toNat := by
    rw [hcopied.buf, if_pos rfl, hdest, List.drop_length, List.append_nil]
  exact ⟨r', hrun, hcopied⟩

/-- Copies into the region and out of it move their bytes and no others, by accesses to whole
words of which at most two are reads beyond the full ones. -/
theorem mmio_memcpy (r : WordRam) {offset len : Word} {src dest : List Byte}
    (hend : offset.toNat + len.toNat < 2 ^ 32) (hsrc : len.toNat ≤ src.length)
    (hdest : len.toNat = dest.length) :
    (∃ r' rs ws, WordRam.device.finish r (mmioRegionMemcpyToMmio32 offset src len) = some (r', ()) ∧
      (∀ k (hk : k < len.toNat), r'.mem (offset + BitVec.ofNat 32 k) = src[k]) ∧
      (∀ a, (∀ k < len.toNat, a ≠ offset + BitVec.ofNat 32 k) → r'.mem a = r.mem a) ∧
      r'.reads = r.reads ++ rs ∧ r'.writes = r.writes ++ ws ∧
      (∀ a ∈ rs ++ ws, InSpan offset len.toNat a) ∧ rs.length ≤ len.toNat / 4 + 2) ∧
    (∃ r' rs, WordRam.device.finish r (mmioRegionMemcpyFromMmio32 offset dest len) =
        some (r', readBytes r.mem offset len.toNat) ∧
      r'.mem = r.mem ∧ r'.reads = r.reads ++ rs ∧ r'.writes = r.writes ∧
      (∀ a ∈ rs, InSpan offset len.toNat a) ∧ rs.length ≤ len.toNat / 4 + 2) ∧
    (∃ r', WordRam.device.finish r (do
        mmioRegionMemcpyToMmio32 offset src len
        mmioRegionMemcpyFromMmio32 offset dest len) = some (r', src.take len.toNat)) := by
  have hlen : len.toNat ≤ 2 ^ 32 := by omega
  obtain ⟨r₁, hto, hin⟩ := finish_toMmio hend hsrc r
  refine ⟨?_, ?_, ?_⟩
  · obtain ⟨rs, ws, hrs, hws, hle, _, hspan⟩ := hin.accesses
    exact ⟨r₁, rs, ws, hto, fun k hk => hin.inside hlen hsrc hk, fun a ha => hin.outside hsrc ha,
      hrs, hws, hspan, hle⟩
  · obtain ⟨r₂, hfrom, hout⟩ := finish_fromMmio hend hdest r
    obtain ⟨rs, ws, hrs, hws, hle, hnone, hspan⟩ := hout.accesses
    rw [hnone rfl, List.append_nil] at hws hspan
    exact ⟨r₂, rs, hfrom, hout.mem, hrs, hws, hspan, hle⟩
  · obtain ⟨r₂, hfrom, _⟩ := finish_fromMmio hend hdest r₁
    refine ⟨r₂, ?_⟩
    refine (Device.finish_seq _ r _ _ r₁ () hto).trans ?_
    rw [hfrom, hin.readBytes hlen hsrc]

/-- A copy of three bytes that starts in one word and ends in the next. -/
theorem mmio_memcpy_across : ∃ r', WordRam.device.finish ⟨fun _ => 0, [], []⟩ (do
    mmioRegionMemcpyToMmio32 3 [1, 2, 3] 3
    mmioRegionMemcpyFromMmio32 3 [0, 0, 0] 3) = some (r', [1, 2, 3]) :=
  (mmio_memcpy ⟨fun _ => 0, [], []⟩ (show (3 : Word).toNat + (3 : Word).toNat < 2 ^ 32 by decide)
    (show (3 : Word).toNat ≤ [(1 : Byte), 2, 3].length by decide) rfl).2.2

end XHeepFemu.Hal
