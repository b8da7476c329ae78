import XHeepFemu.Apps.FlashTransfer

/-!
# The flash on the bus

`FlashHost` is an SPI host with its FIFOs and the DMA, main memory, and a flash that
knows two commands: `0x02` with an address writes the bytes that follow, `0x0b` with an
address and five dummy bytes reads. A command of the host takes `len + 1` bytes from the
words of the TX FIFO, lowest byte first, or receives as many. What is clocked does not
depend on when the host gets to it, so every access is answered at once.
-/

namespace XHeepFemu.Apps

open Lib (Io Device group flatten_group)
open Hal

/-- One byte on the bus. -/
inductive Clocked where
  | out (b : Byte)
  | inp
  deriving DecidableEq, Repr

def outBytes (frame : List Clocked) : List Byte :=
  frame.filterMap fun c => match c with
    | .out b => some b
    | .inp => none

/-! ## The flash -/

/-- The four address bytes, most significant first. -/
def addrBytes (addr : Word) : List Byte := (wordBytes addr).reverse

/-- The `n` bytes that the flash answers after it was sent `sent`. -/
def flashAnswer (chip : Mem) (sent : List Byte) (n : Nat) : List Byte :=
  match sent with
  | cmd :: a3 :: a2 :: a1 :: a0 :: dummy =>
    if cmd = 0x0b ∧ dummy.length = 5 then readBytes chip (ofWordBytes [a0, a1, a2, a3]) n
    else List.replicate n 0xff
  | _ => List.replicate n 0xff

/-- What the flash holds after a frame. -/
def flashProgram (chip : Mem) (sent : List Byte) : Mem :=
  match sent with
  | cmd :: a3 :: a2 :: a1 :: a0 :: data =>
    if cmd = 0x02 then chip.setBytes (ofWordBytes [a0, a1, a2, a3]) data else chip
  | _ => chip

/-! ## The host -/

structure FlashHost where
  mem : Mem
  chip : Mem
  /-- The TX FIFO, the bytes of each write to it. -/
  tx : List (List Byte)
  /-- The words of the RX FIFO. -/
  rx : List (List Byte)
  /-- The number of words the DMA has yet to receive. -/
  receiving : Option Nat
  /-- Since the chip was selected. -/
  frame : List Clocked
  frames : List (List Clocked)
  ptrIn : Word
  ptrOut : Word
  srcPtrInc : Word
  dstPtrInc : Word
  spiMode : Word
  dataType : Word

/-- No transfer is under way. -/
def FlashHost.Idle (h : FlashHost) : Prop :=
  h.tx = [] ∧ h.rx = [] ∧ h.receiving = none ∧ h.frame = []

/-- Before the first transfer. -/
def FlashHost.initial (mem chip : Mem) : FlashHost :=
  ⟨mem, chip, [], [], none, [], [], 0, 0, 0, 0, 0, 0⟩

/-- `n` bytes from the words of a FIFO; what is left of the last word is dropped. -/
def clockOut (n : Nat) : List (List Byte) → List Byte × List (List Byte)
  | [] => ([], [])
  | w :: ws =>
    if n ≤ w.length then (w.take n, ws)
    else (w ++ (clockOut (n - w.length) ws).1, (clockOut (n - w.length) ws).2)

/-- Received bytes as words, the last one filled with zeros. -/
def rxWords (bs : List Byte) : List (List Byte) :=
  group (bs ++ List.replicate 3 0) ((bs.length + 3) / 4)

/-- `n` units of `size` bytes, the DMA's read pointer going up by `inc`. -/
def fetchUnits (mem : Mem) (ptr inc : Word) (size : Nat) : Nat → List (List Byte)
  | 0 => []
  | n + 1 => readBytes mem ptr size :: fetchUnits mem (ptr + inc) inc size n

def storeUnits (mem : Mem) (ptr inc : Word) : List (List Byte) → Mem
  | [] => mem
  | u :: us => storeUnits (mem.setBytes ptr u) (ptr + inc) inc us

/-- "32-bit word(0), 16-bit half word(1), 8-bit byte(2,3)" -/
def unitBytes (dataType : Word) : Nat :=
  if dataType = 0 then 4 else if dataType = 1 then 2 else 1

namespace FlashHost

/-- The DMA moves the words it waits for, once they are there. -/
def deliver (h : FlashHost) : FlashHost :=
  match h.receiving with
  | none => h
  | some n =>
    if n ≤ h.rx.length then
      { h with
        mem := storeUnits h.mem h.ptrOut h.dstPtrInc (h.rx.take n)
        rx := h.rx.drop n
        receiving := none }
    else h

/-- A copy of `n` bytes starts, to the TX FIFO or from the RX FIFO of the flash's host. -/
def startDma (base : Word) (n : Nat) (h : FlashHost) : FlashHost :=
  if h.spiMode = 4 ∧ h.ptrOut = fifoPtrTx base ∧ h.dstPtrInc = 0 then
    let size := unitBytes h.dataType
    { h with tx := h.tx ++ fetchUnits h.mem h.ptrIn h.srcPtrInc size ((n + size - 1) / size) }
  else if h.spiMode = 3 ∧ h.ptrIn = fifoPtrRx base ∧ h.srcPtrInc = 0 ∧ h.dataType = 0 then
    deliver { h with receiving := some ((n + 3) / 4) }
  else h

/-- `n` bytes go out, or come in. -/
def transfer (dir : Word) (n : Nat) (h : FlashHost) : FlashHost :=
  if dir = SpiDir.kSpiDirTxOnly.toWord then
    { h with tx := (clockOut n h.tx).2, frame := h.frame ++ (clockOut n h.tx).1.map .out }
  else if dir = SpiDir.kSpiDirRxOnly.toWord then
    deliver { h with
      rx := h.rx ++ rxWords (flashAnswer h.chip (outBytes h.frame) n)
      frame := h.frame ++ List.replicate n .inp }
  else h

/-- The chip is selected no longer. -/
def endFrame (h : FlashHost) : FlashHost :=
  { h with
    chip := flashProgram h.chip (outBytes h.frame)
    frame := []
    frames := h.frames ++ [h.frame] }

def execute (cmd : Word) (h : FlashHost) : FlashHost :=
  let h' := h.transfer (bitfieldField32Read cmd spiHostCommandDirectionField)
    ((bitfieldField32Read cmd spiHostCommandLenField).toNat + 1)
  if bitfieldBit32Read cmd spiHostCommandCsaatBit then h' else h'.endFrame

/-- Always ready. -/
def status (h : FlashHost) : Word := if h.tx = [] then 0x90000000 else 0x80000000

/-- The host at `base`; the flag of the interrupt handler is set. -/
def device (base : Word) : Device SpiReg Word FlashHost Empty where
  read h r := match r with
    | .status => (h, h.status)
    | .intrFlag => (h, 1)
    | _ => (h, 0)
  write h r v := match r with
    | .txData => { h with tx := h.tx ++ [wordBytes v] }
    | .command => h.execute v
    | .dmaPtrIn => { h with ptrIn := v }
    | .dmaPtrOut => { h with ptrOut := v }
    | .dmaSrcPtrInc => { h with srcPtrInc := v }
    | .dmaDstPtrInc => { h with dstPtrInc := v }
    | .dmaSpiMode => { h with spiMode := v }
    | .dmaDataType => { h with dataType := v }
    | .dmaStart => h.startDma base v.toNat
    | _ => h
  env _ e := e.elim

end FlashHost

/-! ## The frames -/

def writeFrame (addr : Word) (data : List Byte) : List Clocked :=
  (0x02 :: addrBytes addr ++ data).map .out

def readFrame (addr : Word) (dummy : List Byte) (n : Nat) : List Clocked :=
  (0x0b :: addrBytes addr ++ dummy).map .out ++ List.replicate n .inp

/-- A write of `byteCount` bytes at `addr` and a read of as many at the same `addr`: the frames
carry the address, and the read returns what was written. -/
def AgreesOnAddressing (base addr byteCount : Word) : Prop :=
  ∀ h : FlashHost, h.Idle → ∀ src : Word, ∃ h',
    (FlashHost.device base).finish h (writeToFlash base src byteCount addr) = some (h', ()) ∧
    h'.frames = h.frames ++ [writeFrame addr (readBytes h.mem src byteCount.toNat)] ∧
    ∀ g : FlashHost, g.Idle → ∀ dest : Word, ∃ g',
      (FlashHost.device base).finish g (readFromFlash 3 base dest byteCount addr) = some (g', ()) ∧
      (∃ dummy, dummy.length = 5 ∧
        g'.frames = g.frames ++ [readFrame addr dummy byteCount.toNat]) ∧
      (g.chip = h'.chip →
        readBytes g'.mem dest byteCount.toNat = readBytes h.mem src byteCount.toNat)

/-! ## Bytes and words -/

theorem readBytes_add (mem : Mem) (p : Word) (m n : Nat) :
    readBytes mem p (m + n) = readBytes mem p m ++ readBytes mem (p + BitVec.ofNat 32 m) n := by
  unfold readBytes
  rw [List.range_add, List.map_append, List.map_map]
  congr 1
  refine List.map_congr_left fun i _ => ?_
  rw [Function.comp_apply, BitVec.ofNat_add, BitVec.add_assoc]

theorem take_readBytes (mem : Mem) (p : Word) {m n : Nat} (h : n ≤ m) :
    (readBytes mem p m).take n = readBytes mem p n := by
  obtain ⟨k, rfl⟩ := Nat.exists_eq_add_of_le h
  rw [readBytes_add]
  exact List.take_left' (length_readBytes mem p n)

theorem readBytes_setBytes (mem : Mem) (p : Word) {bs : List Byte} {n : Nat} (hn : n ≤ bs.length)
    (hlen : bs.length ≤ 2 ^ 32) : readBytes (mem.setBytes p bs) p n = bs.take n := by
  refine List.ext_getElem ?_ fun k hk hk' => ?_
  · rw [length_readBytes, List.length_take, Nat.min_eq_left hn]
  · rw [length_readBytes] at hk
    rw [List.getElem_take, ← setBytes_inside mem p (by omega) hlen]
    simp only [readBytes, List.getElem_map, List.getElem_range]

theorem ofWordBytes_wordBytes (w : Word) : ofWordBytes (wordBytes w) = w := by
  refine BitVec.eq_of_toNat_eq ?_
  have hw := w.isLt
  have hbyte : ∀ k, (wordByte w k).toNat = w.toNat / 2 ^ (8 * k) % 2 ^ 8 := fun k => by
    show (w.extractLsb' (8 * k) 8).toNat = _
    rw [BitVec.extractLsb'_toNat, Nat.shiftRight_eq_div_pow]
  show Lib.ofBytes [wordByte w 0, wordByte w 1, wordByte w 2, wordByte w 3] % 2 ^ 32 = w.toNat
  simp only [Lib.ofBytes, hbyte]
  omega

theorem addrBytes_injective {a b : Word} (h : addrBytes a = addrBytes b) : a = b := by
  rw [← ofWordBytes_wordBytes a, ← ofWordBytes_wordBytes b, List.reverse_inj.mp h]

theorem clockOut_fst (n : Nat) (ws : List (List Byte)) : (clockOut n ws).1 = ws.flatten.take n := by
  induction ws generalizing n with
  | nil => exact List.take_nil.symm
  | cons w ws ih =>
    unfold clockOut
    rw [List.flatten_cons]
    split
    · rename_i h
      exact (List.take_append_of_le_length h).symm
    · rename_i h
      rw [List.take_append, List.take_of_length_le (by omega), ← ih]

theorem flatten_fetchUnits (mem : Mem) (ptr : Word) (size n : Nat) :
    (fetchUnits mem ptr (BitVec.ofNat 32 size) size n).flatten = readBytes mem ptr (n * size) := by
  induction n generalizing ptr with
  | zero => rw [Nat.zero_mul]; rfl
  | succ n ih =>
    rw [fetchUnits, List.flatten_cons, ih, Nat.succ_mul, Nat.add_comm (n * size), readBytes_add]

theorem storeUnits_eq (mem : Mem) (ptr : Word) {size : Nat} {us : List (List Byte)}
    (hsize : ∀ u ∈ us, u.length = size) (hlen : us.flatten.length ≤ 2 ^ 32) :
    storeUnits mem ptr (BitVec.ofNat 32 size) us = mem.setBytes ptr us.flatten := by
  induction us generalizing mem ptr with
  | nil => rfl
  | cons u us ih =>
    obtain ⟨hu, hus⟩ := List.forall_mem_cons.mp hsize
    rw [List.flatten_cons, List.length_append] at hlen
    rw [storeUnits, ih _ _ hus (by omega), List.flatten_cons, setBytes_append _ _ _ _ hlen, hu]

theorem flatten_rxWords (bs : List Byte) :
    (rxWords bs).flatten = (bs ++ List.replicate 3 0).take ((bs.length + 3) / 4 * 4) := by
  refine flatten_group ?_
  rw [List.length_append, List.length_replicate]
  omega

/-! ## The calls -/

namespace FlashHost

variable (base : Word) (h : FlashHost)

theorem execute_command (len : BitVec 24) (csaat : Bool) (dir : SpiDir) :
    h.execute (command len csaat dir) =
      if csaat then h.transfer dir.toWord (len.toNat + 1)
      else (h.transfer dir.toWord (len.toNat + 1)).endFrame := by
  unfold execute command
  simp only [spiCreateCommand_csaat, spiCreateCommand_direction, spiCreateCommand_len]

theorem status_ready : bitfieldBit32Read h.status spiHostStatusReadyBit = true := by
  rw [bit32Read_eq, status]
  split <;> rfl

theorem finish_waitForReady : (device base).finish h spiWaitForReady = some (h, ()) :=
  if_pos (status_ready h)

theorem finish_wait (p : SpiIo Unit) {h' : FlashHost} (hp : (device base).finish h p = some (h', ())) :
    (device base).finish h (p >>= fun _ => waitForFlag) = some (h', ()) :=
  Device.finish_seq _ h p _ h' () hp

theorem finish_waitForTxNotEmpty (htx : h.tx ≠ []) :
    (device base).finish h spiWaitForTxNotEmpty = some (h, ()) := by
  refine if_pos ?_
  show (!bitfieldBit32Read h.status spiHostStatusTxemptyBit) = true
  rw [bit32Read_eq, status, if_neg htx]
  rfl

end FlashHost

/-- A word is written to the empty FIFO and `len + 1` bytes of it are sent. -/
theorem transfer_word (h : FlashHost) (w : Word) (n : Nat) (hn : n ≤ 4) (htx : h.tx = []) :
    FlashHost.transfer SpiDir.kSpiDirTxOnly.toWord n { h with tx := h.tx ++ [wordBytes w] } =
      { h with frame := h.frame ++ ((wordBytes w).take n).map Clocked.out } := by
  have hclock : clockOut n (h.tx ++ [wordBytes w]) = ((wordBytes w).take n, []) := by
    rw [htx]
    exact if_pos hn
  unfold FlashHost.transfer
  rw [if_pos rfl]
  show { h with
    tx := (clockOut n (h.tx ++ [wordBytes w])).2
    frame := h.frame ++ ((clockOut n (h.tx ++ [wordBytes w])).1).map Clocked.out } = _
  rw [hclock, ← htx]

/-- Bytes go out. -/
def FlashHost.sent (h : FlashHost) (bs : List Byte) : FlashHost :=
  { h with frame := h.frame ++ bs.map .out }

section Calls

variable (base : Word) (h : FlashHost)

/-- `len + 1` bytes of a word that is in the FIFO, in a frame that goes on. -/
theorem finish_sendFifo (htx : h.tx = []) (w : Word) (len : BitVec 24) (hlen : len.toNat + 1 ≤ 4)
    (k : SpiIo Unit) :
    (FlashHost.device base).finish { h with tx := h.tx ++ [wordBytes w] } (do
        spiSetCommand (command len true .kSpiDirTxOnly)
        spiWaitForReady
        k) =
      (FlashHost.device base).finish (h.sent ((wordBytes w).take (len.toNat + 1))) k := by
  rw [Device.finish_seq _ _ _ _ (h.sent ((wordBytes w).take (len.toNat + 1))) ()]
  · exact Device.finish_seq _ _ _ _ _ () (FlashHost.finish_waitForReady _ _)
  · show some (FlashHost.execute (command len true .kSpiDirTxOnly) _, ()) = _
    rw [FlashHost.execute_command, if_pos rfl, transfer_word h w _ hlen htx]
    rfl

theorem finish_sendWord (htx : h.tx = []) (w : Word) (len : BitVec 24) (hlen : len.toNat + 1 ≤ 4)
    (k : SpiIo Unit) :
    (FlashHost.device base).finish h (do
        spiWriteWord w
        spiSetCommand (command len true .kSpiDirTxOnly)
        spiWaitForReady
        k) =
      (FlashHost.device base).finish (h.sent ((wordBytes w).take (len.toNat + 1))) k :=
  (Device.finish_seq (FlashHost.device base) h (spiWriteWord w) _ _ () rfl).trans
    (finish_sendFifo base h htx w len hlen k)

/-- The same with a wait before the command. -/
theorem finish_sendWord' (htx : h.tx = []) (w : Word) (len : BitVec 24) (hlen : len.toNat + 1 ≤ 4)
    (k : SpiIo Unit) :
    (FlashHost.device base).finish h (do
        spiWriteWord w
        spiWaitForReady
        spiSetCommand (command len true .kSpiDirTxOnly)
        spiWaitForReady
        k) =
      (FlashHost.device base).finish (h.sent ((wordBytes w).take (len.toNat + 1))) k := by
  refine (Device.finish_seq (FlashHost.device base) h (spiWriteWord w) _ _ () rfl).trans ?_
  refine (Device.finish_seq _ _ _ _ _ () (FlashHost.finish_waitForReady _ _)).trans ?_
  exact finish_sendFifo base h htx w len hlen k

theorem finish_startDma (srcInc dstInc ptrIn ptrOut mode type n : Word) (k : SpiIo Unit) :
    (FlashHost.device base).finish h (do
        dmaSetReadPtrInc srcInc
        dmaSetWritePtrInc dstInc
        dmaSetReadPtr ptrIn
        dmaSetWritePtr ptrOut
        dmaSetSpiMode mode
        dmaSetDataType type
        dmaSetCntStart n
        k) =
      (FlashHost.device base).finish (FlashHost.startDma base n.toNat
        { h with
          srcPtrInc := srcInc, dstPtrInc := dstInc, ptrIn := ptrIn, ptrOut := ptrOut,
          spiMode := mode, dataType := type }) k := by
  refine (Device.finish_seq _ h (dmaSetReadPtrInc srcInc) _ { h with srcPtrInc := srcInc } ()
    rfl).trans ?_
  refine (Device.finish_seq _ _ (dmaSetWritePtrInc dstInc) _
    { h with srcPtrInc := srcInc, dstPtrInc := dstInc } () rfl).trans ?_
  refine (Device.finish_seq _ _ (dmaSetReadPtr ptrIn) _
    { h with srcPtrInc := srcInc, dstPtrInc := dstInc, ptrIn := ptrIn } () rfl).trans ?_
  refine (Device.finish_seq _ _ (dmaSetWritePtr ptrOut) _
    { h with srcPtrInc := srcInc, dstPtrInc := dstInc, ptrIn := ptrIn, ptrOut := ptrOut } ()
    rfl).trans ?_
  refine (Device.finish_seq _ _ (dmaSetSpiMode mode) _
    { h with
      srcPtrInc := srcInc, dstPtrInc := dstInc, ptrIn := ptrIn, ptrOut := ptrOut, spiMode := mode }
    () rfl).trans ?_
  refine (Device.finish_seq _ _ (dmaSetDataType type) _
    { h with
      srcPtrInc := srcInc, dstPtrInc := dstInc, ptrIn := ptrIn, ptrOut := ptrOut, spiMode := mode
      dataType := type } () rfl).trans ?_
  exact Device.finish_seq _ _ (dmaSetCntStart n) _ _ () rfl

theorem finish_last (len : BitVec 24) (dir : SpiDir) :
    (FlashHost.device base).finish h (do
        spiSetCommand (command len false dir)
        spiWaitForReady) =
      some ((h.transfer dir.toWord (len.toNat + 1)).endFrame, ()) := by
  rw [Device.finish_seq _ _ _ _ (h.transfer dir.toWord (len.toNat + 1)).endFrame ()]
  · exact FlashHost.finish_waitForReady _ _
  · show some (FlashHost.execute (command len false dir) _, ()) = _
    rw [FlashHost.execute_command]
    rfl

end Calls

theorem outBytes_map (bs : List Byte) : outBytes (bs.map .out) = bs := by
  induction bs with
  | nil => rfl
  | cons b bs ih => exact congrArg (b :: ·) ih

theorem ofWordBytes_addrBytes (addr : Word) :
    ofWordBytes [wordByte addr 0, wordByte addr 1, wordByte addr 2, wordByte addr 3] = addr :=
  ofWordBytes_wordBytes addr

theorem flashProgram_write (chip : Mem) (addr : Word) (data : List Byte) :
    flashProgram chip (0x02 :: addrBytes addr ++ data) = chip.setBytes addr data := by
  show (if (0x02 : Byte) = 0x02 then chip.setBytes (ofWordBytes [wordByte addr 0, wordByte addr 1,
    wordByte addr 2, wordByte addr 3]) data else chip) = _
  rw [if_pos rfl, ofWordBytes_addrBytes]

theorem flashAnswer_read (chip : Mem) (addr : Word) {dummy : List Byte} (hdummy : dummy.length = 5)
    (n : Nat) :
    flashAnswer chip (0x0b :: addrBytes addr ++ dummy) n = readBytes chip addr n := by
  show (if (0x0b : Byte) = 0x0b ∧ dummy.length = 5 then readBytes chip (ofWordBytes
    [wordByte addr 0, wordByte addr 1, wordByte addr 2, wordByte addr 3]) n
    else List.replicate n 0xff) = _
  rw [if_pos ⟨rfl, hdummy⟩, ofWordBytes_addrBytes]

theorem rxWords_length (bs : List Byte) : (rxWords bs).length = (bs.length + 3) / 4 := by
  rw [rxWords, group, List.length_map, List.length_range]

theorem readBytes_storeUnits (mem : Mem) (dest : Word) {bs : List Byte}
    (hlen : bs.length + 3 ≤ 2 ^ 32) :
    readBytes (storeUnits mem dest 4 (rxWords bs)) dest bs.length = bs := by
  have hword : ∀ w ∈ rxWords bs, w.length = 4 := by
    intro w hw
    obtain ⟨i, -, rfl⟩ := List.mem_map.mp hw
    rfl
  have hflat := flatten_rxWords bs
  have hflatten : (rxWords bs).flatten.length = (bs.length + 3) / 4 * 4 := by
    rw [hflat, List.length_take, List.length_append, List.length_replicate]
    omega
  refine (congrArg (readBytes · dest bs.length) (storeUnits_eq mem dest hword (by omega))).trans ?_
  rw [readBytes_setBytes _ _ (by omega) (by omega), hflat, List.take_take,
    Nat.min_eq_left (by omega), List.take_left]

/-- Two read frames carry the same address. -/
theorem addr_eq_of_readFrame {a b : Word} {xs ys : List Byte} {m n : Nat}
    (hlen : xs.length = ys.length) (h : readFrame a xs m = readFrame b ys n) : a = b := by
  have hout : ∀ (addr : Word) (dummy : List Byte) (n : Nat),
      outBytes (readFrame addr dummy n) = 0x0b :: addrBytes addr ++ dummy := fun addr dummy n => by
    have hinp : outBytes (List.replicate n .inp) = [] :=
      List.filterMap_eq_nil_iff.mpr fun c hc => by rw [List.eq_of_mem_replicate hc]
    rw [readFrame]
    refine List.filterMap_append.trans ?_
    exact (congrArg₂ (· ++ ·) (outBytes_map _) hinp).trans (List.append_nil _)
  have hbytes : addrBytes a ++ xs = addrBytes b ++ ys := by
    have hcongr := congrArg outBytes h
    rw [hout, hout] at hcongr
    exact (List.cons.inj hcongr).2
  exact addrBytes_injective (List.append_inj_left' hbytes hlen)

theorem len_toNat {byteCount : Word} (hpos : 1 ≤ byteCount.toNat) (hmax : byteCount.toNat ≤ 2 ^ 24) :
    ((byteCount - 1).setWidth 24 : BitVec 24).toNat + 1 = byteCount.toNat := by
  rw [BitVec.toNat_setWidth]
  have hsub : (byteCount - 1).toNat = byteCount.toNat - 1 := by bv_omega
  omega

section Frames

variable (base addr : Word) {byteCount : Word} (hpos : 1 ≤ byteCount.toNat)
  (hmax : byteCount.toNat ≤ 2 ^ 24)
include hpos hmax

theorem finish_writeToFlash {h : FlashHost} (hidle : h.Idle) (src : Word) : ∃ h',
    (FlashHost.device base).finish h (writeToFlash base src byteCount addr) = some (h', ()) ∧
    h'.frames = h.frames ++ [writeFrame addr (readBytes h.mem src byteCount.toNat)] ∧
    h'.chip = h.chip.setBytes addr (readBytes h.mem src byteCount.toNat) := by
  obtain ⟨htx, -, -, hframe⟩ := hidle
  have hlen := len_toNat hpos hmax
  have haddr : (wordBytes (bswap32 addr)).take ((3 : BitVec 24).toNat + 1) = addrBytes addr := by
    rw [wordBytes_bswap32]
    rfl
  let g : FlashHost := (h.sent [0x02]).sent (addrBytes addr)
  let units := fetchUnits h.mem src 2 2 ((byteCount.toNat + 1) / 2)
  let t : FlashHost := { g with
    srcPtrInc := 2, dstPtrInc := 0, ptrIn := src, ptrOut := fifoPtrTx base, spiMode := 4
    dataType := 1, tx := h.tx ++ units }
  have hstart : FlashHost.startDma base byteCount.toNat { g with
      srcPtrInc := 2, dstPtrInc := 0, ptrIn := src, ptrOut := fifoPtrTx base, spiMode := 4
      dataType := 1 } = t := by
    unfold FlashHost.startDma
    rw [if_pos ⟨rfl, rfl, rfl⟩]
    rfl
  have hunits : units ≠ [] := by
    show fetchUnits h.mem src 2 2 ((byteCount.toNat + 1) / 2) ≠ []
    rw [show (byteCount.toNat + 1) / 2 = (byteCount.toNat - 1) / 2 + 1 by omega]
    exact List.cons_ne_nil _ _
  have hdata : (clockOut byteCount.toNat t.tx).1 = readBytes h.mem src byteCount.toNat := by
    show (clockOut byteCount.toNat (h.tx ++ units)).1 = _
    rw [clockOut_fst, htx, List.nil_append]
    exact (congrArg (List.take byteCount.toNat) (flatten_fetchUnits h.mem src 2 _)).trans
      (take_readBytes h.mem src (by omega))
  have hframe' : (t.transfer SpiDir.kSpiDirTxOnly.toWord byteCount.toNat).frame =
      writeFrame addr (readBytes h.mem src byteCount.toNat) := by
    show h.frame ++ [Clocked.out 0x02] ++ (addrBytes addr).map Clocked.out ++
      (clockOut byteCount.toNat t.tx).1.map Clocked.out = _
    rw [hdata, hframe, writeFrame, List.cons_append, List.map_cons, List.map_append]
    rfl
  refine ⟨(t.transfer SpiDir.kSpiDirTxOnly.toWord byteCount.toNat).endFrame, ?_, ?_, ?_⟩
  · refine FlashHost.finish_wait base h _ ?_
    refine (finish_sendWord base h htx 0x02 0 (by decide) _).trans ?_
    refine (finish_sendWord base (h.sent [0x02]) htx (bswap32 addr) 3 (by decide) _).trans ?_
    rw [haddr]
    refine (finish_startDma base g 2 0 src (fifoPtrTx base) 4 1 byteCount _).trans ?_
    rw [hstart]
    refine (Device.finish_seq _ t _ _ t () (FlashHost.finish_waitForTxNotEmpty base t ?_)).trans ?_
    · exact List.append_ne_nil_of_right_ne_nil _ hunits
    refine (Device.finish_seq _ t (spiEnableEvtIntr true) _ t () rfl).trans ?_
    refine (Device.finish_seq _ t (spiEnableTxemptyIntr true) _ t () rfl).trans ?_
    refine (finish_last base t _ .kSpiDirTxOnly).trans ?_
    rw [hlen]
  · show h.frames ++ [(t.transfer SpiDir.kSpiDirTxOnly.toWord byteCount.toNat).frame] = _
    rw [hframe']
  · show flashProgram h.chip (outBytes (t.transfer SpiDir.kSpiDirTxOnly.toWord
      byteCount.toNat).frame) = _
    rw [hframe', writeFrame, outBytes_map, flashProgram_write]

theorem finish_readFromFlash {h : FlashHost} (hidle : h.Idle) (dest : Word) : ∃ h',
    (FlashHost.device base).finish h (readFromFlash 3 base dest byteCount addr) = some (h', ()) ∧
    h'.frames = h.frames ++ [readFrame 0 (List.replicate 5 0) byteCount.toNat] ∧
    readBytes h'.mem dest byteCount.toNat = readBytes h.chip 0 byteCount.toNat := by
  obtain ⟨htx, hrx, -, hframe⟩ := hidle
  have hlen := len_toNat hpos hmax
  let zeros : List Byte := [0, 0, 0, 0]
  let g : FlashHost := (((h.sent [0x0b]).sent zeros).sent zeros).sent [0]
  let t : FlashHost := { g with
    srcPtrInc := 0, dstPtrInc := 4, ptrIn := fifoPtrRx base, ptrOut := dest, spiMode := 3
    dataType := 0, receiving := some ((byteCount.toNat + 3) / 4) }
  have hstart : FlashHost.startDma base byteCount.toNat { g with
      srcPtrInc := 0, dstPtrInc := 4, ptrIn := fifoPtrRx base, ptrOut := dest, spiMode := 3
      dataType := 0 } = t := by
    unfold FlashHost.startDma
    rw [if_neg fun hmode => absurd (show (3 : Word) = 4 from hmode.1) (by decide),
      if_pos ⟨rfl, rfl, rfl, rfl⟩]
    refine if_neg ?_
    show ¬(byteCount.toNat + 3) / 4 ≤ h.rx.length
    rw [hrx]
    exact Nat.not_le.mpr (Nat.div_pos (by omega) (by omega))
  have hsent : g.frame = (0x0b :: addrBytes 0 ++ List.replicate 5 0).map .out := by
    show h.frame ++ [Clocked.out 0x0b] ++ zeros.map Clocked.out ++ zeros.map Clocked.out ++
      [Clocked.out 0] = _
    rw [hframe]
    rfl
  have hreceive : t.transfer SpiDir.kSpiDirRxOnly.toWord byteCount.toNat = { t with
      mem := storeUnits h.mem dest 4 (rxWords (readBytes h.chip 0 byteCount.toNat))
      rx := []
      receiving := none
      frame := g.frame ++ List.replicate byteCount.toNat .inp } := by
    unfold FlashHost.transfer
    rw [if_neg (by decide), if_pos rfl]
    have hanswer : flashAnswer h.chip (outBytes g.frame) byteCount.toNat =
        readBytes h.chip 0 byteCount.toNat := by
      rw [hsent, outBytes_map, flashAnswer_read _ _ List.length_replicate]
    have hwords := rxWords_length (readBytes h.chip 0 byteCount.toNat)
    rw [length_readBytes] at hwords
    show FlashHost.deliver { t with
      rx := h.rx ++ rxWords (flashAnswer h.chip (outBytes g.frame) byteCount.toNat)
      frame := g.frame ++ List.replicate byteCount.toNat .inp } = _
    rw [hrx, List.nil_append, hanswer]
    refine (if_pos (Nat.le_of_eq hwords.symm)).trans ?_
    rw [← hwords, List.take_length, List.drop_length]
    rfl
  refine ⟨(t.transfer SpiDir.kSpiDirRxOnly.toWord byteCount.toNat).endFrame, ?_, ?_, ?_⟩
  · refine FlashHost.finish_wait base h _ ?_
    refine (finish_sendWord base h htx 0x0b 0 (by decide) _).trans ?_
    refine (finish_sendWord' base (h.sent [0x0b]) htx 0 3 (by decide) _).trans ?_
    refine (finish_sendWord' base ((h.sent [0x0b]).sent zeros) htx 0 3 (by decide) _).trans ?_
    refine (finish_sendWord' base (((h.sent [0x0b]).sent zeros).sent zeros) htx 0 0 (by decide)
      _).trans ?_
    refine (finish_startDma base g 0 4 (fifoPtrRx base) dest 3 0 byteCount _).trans ?_
    rw [hstart]
    refine (finish_last base t _ .kSpiDirRxOnly).trans ?_
    rw [hlen]
  · rw [hreceive]
    show h.frames ++ [g.frame ++ List.replicate byteCount.toNat .inp] = _
    rw [hsent]
    rfl
  · rw [hreceive]
    have hlength := length_readBytes h.chip 0 byteCount.toNat
    have hback : readBytes (storeUnits h.mem dest 4 (rxWords (readBytes h.chip 0 byteCount.toNat)))
        dest (readBytes h.chip 0 byteCount.toNat).length = readBytes h.chip 0 byteCount.toNat :=
      readBytes_storeUnits h.mem dest (by omega)
    rw [hlength] at hback
    exact hback

theorem addr_eq_zero_of_agrees (h : AgreesOnAddressing base addr byteCount) : addr = 0 := by
  let host := FlashHost.initial (fun _ => 0) (fun _ => 0)
  have hidle : host.Idle := ⟨rfl, rfl, rfl, rfl⟩
  obtain ⟨_, -, -, hread⟩ := h host hidle 0
  obtain ⟨g, hg, ⟨dummy, hdummy, hframes⟩, -⟩ := hread host hidle 0
  obtain ⟨g', hg', hframes', -⟩ := finish_readFromFlash base addr hpos hmax hidle 0
  obtain rfl : g = g' := by
    rw [hg] at hg'
    exact congrArg Prod.fst (Option.some.inj hg')
  rw [hframes] at hframes'
  have hframe := List.cons.inj (List.append_cancel_left hframes')
  exact addr_eq_of_readFrame (hdummy.trans List.length_replicate.symm) hframe.1

/-- `read_from_flash` reads at address zero: the two functions agree there and nowhere else. -/
theorem agreesOnAddressing_iff : AgreesOnAddressing base addr byteCount ↔ addr = 0 := by
  constructor
  · exact addr_eq_zero_of_agrees base addr hpos hmax
  · rintro rfl h hidle src
    obtain ⟨h', hwrite, hframes, hchip⟩ := finish_writeToFlash base 0 hpos hmax hidle src
    refine ⟨h', hwrite, hframes, fun g gidle dest => ?_⟩
    obtain ⟨g', hread, hframes', hmem⟩ := finish_readFromFlash base 0 hpos hmax gidle dest
    refine ⟨g', hread, ⟨_, List.length_replicate, hframes'⟩, fun hsame => ?_⟩
    have hdata := length_readBytes h.mem src byteCount.toNat
    rw [hmem, hsame, hchip, readBytes_setBytes _ _ (Nat.le_of_eq hdata.symm) (by omega),
      List.take_of_length_le (Nat.le_of_eq hdata)]

end Frames

theorem agreesOnAddressing_at_256 :
    AgreesOnAddressing 0x20020000 0 128 ∧ ¬AgreesOnAddressing 0x20020000 0x100 128 := by
  constructor
  · exact (agreesOnAddressing_iff _ _ (by decide) (by decide)).mpr rfl
  · exact (agreesOnAddressing_iff _ _ (by decide) (by decide)).not.mpr (by decide)

/-- A read at `0x100` is a read at zero. -/
theorem readFromFlash_ignores_addr : ¬AgreesOnAddressing 0x20020000 0x100 128 :=
  fun h => absurd (addr_eq_zero_of_agrees _ _ (by decide) (by decide) h) (by decide)

end XHeepFemu.Apps
