import XHeepFemu.Tee.UartLoop

/-!
# The service

What both receive loops are for: bytes are echoed and decoded as escaped lines,
and each message goes to the parser, followed by a line end, until `exit_scpi`
is set. `userUartLoop_refines` and `uartScpi_refines` show that the
privilege-separated loop and the monolithic one do exactly that on every input;
the transport and agreement results follow from the refinement.
-/

namespace XHeepFemu.Tee

open Lib Scpi
open Lib.Escaping (Partial Fed)

/-- Backslash escapes itself and the two line ends. -/
def lineEscaping : Escaping Byte := ⟨92, fun c => c = 10 || c = 13, rfl⟩

/-- The longest message. -/
def lineMax : Nat := 2047

/-- The state of the service, and what it has done so far. -/
structure Service (σ : Type) where
  part : Partial Byte
  scpi : σ
  exit : Bool
  echoed : List Byte
  calls : List (List Byte)
  delivered : List (List Byte)

/-- What the terminal sees of a byte. -/
def echo (c : Byte) : List Byte :=
  if c = 92 then [] else if c = 10 then [10, 13] else if c = 13 then [13, 10] else [c]

namespace Service

variable {σ : Type} (B : Behaviour σ)

def call (s : Service σ) (data : List Byte) : Service σ :=
  { s with
    scpi := (B s.scpi data).1
    exit := s.exit || (B s.scpi data).2
    calls := s.calls ++ [data] }

/-- A message and its line end; an empty line is no message. -/
def deliver (s : Service σ) (m : List Byte) : Service σ :=
  if m = [] then s else ((({ s with delivered := s.delivered ++ [m] }).call B m).call B crlf)

def absorb (s : Service σ) (c : Byte) : Service σ :=
  if s.exit then s
  else
    let s := { s with echoed := s.echoed ++ echo c }
    match lineEscaping.feed lineMax s.part c with
    | .more p => { s with part := p }
    | .line m => { s with part := .empty }.deliver B m

def run (s : Service σ) (cs : List Byte) : Service σ := cs.foldl (absorb B) s

@[simp] theorem run_nil (s : Service σ) : s.run B [] = s := rfl
@[simp] theorem run_cons (s : Service σ) (c : Byte) (cs : List Byte) :
    s.run B (c :: cs) = (s.absorb B c).run B cs := rfl

theorem run_append (s : Service σ) (cs ds : List Byte) :
    s.run B (cs ++ ds) = (s.run B cs).run B ds := List.foldl_append

theorem run_exit {s : Service σ} (h : s.exit = true) (cs : List Byte) : s.run B cs = s := by
  induction cs with
  | nil => rfl
  | cons c cs ih => rw [run_cons, absorb, if_pos h, ih]

variable {B} {s : Service σ} {c : Byte}

theorem absorb_more (hexit : s.exit = false) {p : Partial Byte}
    (h : lineEscaping.feed lineMax s.part c = .more p) :
    s.absorb B c = { s with echoed := s.echoed ++ echo c, part := p } := by
  simp only [absorb, hexit, Bool.false_eq_true, if_false, h]

theorem absorb_line (hexit : s.exit = false) {m : List Byte}
    (h : lineEscaping.feed lineMax s.part c = .line m) :
    s.absorb B c = { s with echoed := s.echoed ++ echo c, part := .empty }.deliver B m := by
  simp only [absorb, hexit, Bool.false_eq_true, if_false, h]

end Service

/-! ## The receive loop refines the decoder -/

variable {σ : Type} {B : Behaviour σ} {buf : Word} {w : World σ} {s : Service σ}

/-- The world between two bytes of a line: the part of the buffer filled so far holds the
line in progress. -/
structure Rel (buf : Word) (w : World σ) (s : Service σ) : Prop where
  line : readBytes w.mem buf s.part.line.length = s.part.line
  modifier : w.modifier = s.part.escaped
  scpi : w.scpi = s.scpi
  exit : w.exitScpi = s.exit
  echoed : w.echoed = s.echoed
  calls : w.calls = s.calls
  stores : ∀ a ∈ w.stores, ∃ k < lineMax, a = buf + BitVec.ofNat 32 k

/-- The index of the next byte. -/
def index (s : Service σ) : Word := BitVec.ofNat 32 s.part.line.length

theorem index_lt (h : s.part.line.length < lineMax) : index s < 2048 - 1 := by
  unfold lineMax at h
  rw [index, BitVec.lt_def, BitVec.toNat_ofNat, show (2048 - 1 : Word).toNat = 2047 from rfl]
  omega

/-- A world after the byte `c` was read and echoed. -/
def World.heard (w : World σ) (c : Byte) (rx : List Byte) : World σ :=
  { w with rx, echoed := w.echoed ++ echo c }

/-- One byte of the line is stored. -/
def World.stored (w : World σ) (a : Word) (c : Byte) (escaped : Bool) : World σ :=
  { w with mem := w.mem.set a c, stores := w.stores ++ [a], modifier := escaped }

variable {n : Nat} {c : Byte} {rx : List Byte} {i : Word}

theorem uartGets_blocked (hi : i < 2048 - 1) (hrx : w.rx = []) :
    uartGets buf 2048 (n + 1) i w = .error .blocked w := by
  simp only [uartGets, if_pos hi, run_bind, uartGetchar, hrx]

theorem uartGets_esc (hi : i < 2048 - 1) (hrx : w.rx = 92 :: rx) (hm : w.modifier = false) :
    uartGets buf 2048 (n + 1) i w =
      uartGets buf 2048 n i { w.heard 92 rx with modifier := true } := by
  simp only [uartGets, if_pos hi, run_bind, uartGetchar, hrx, if_true, run_get, hm, Bool.not_false,
    run_setModifier, World.heard, echo, List.append_nil]

theorem isEnd_iff : lineEscaping.isEnd c = true ↔ c = 10 ∨ c = 13 := by
  simp [lineEscaping]

theorem uartGets_store (hi : i < 2048 - 1) (hrx : w.rx = c :: rx)
    (hc : w.modifier = true ∨ c ≠ 92 ∧ lineEscaping.isEnd c = false) :
    uartGets buf 2048 (n + 1) i w =
      uartGets buf 2048 n (i + 1) ((w.heard c rx).stored (buf + i) c false) := by
  simp only [uartGets, if_pos hi, run_bind, uartGetchar, hrx]
  by_cases h92 : c = 92
  · rcases hc with hm | ⟨hne, _⟩
    · simp [h92, run_bind, run_get, hm, run_storeAt, run_setModifier, World.heard, World.stored, echo]
    · exact absurd h92 hne
  · by_cases hend : c = 10 ∨ c = 13
    · rcases hc with hm | ⟨_, hno⟩
      · rcases hend with rfl | rfl <;>
          simp [run_bind, run_get, run_putchar, hm, run_storeAt, run_setModifier, World.heard,
            World.stored, echo]
      · rw [isEnd_iff.mpr hend] at hno
        cases hno
    · obtain ⟨h10, h13⟩ := not_or.mp hend
      simp [h92, h10, h13, run_bind, run_putchar, run_storeAt, run_setModifier, World.heard,
        World.stored, echo]

theorem uartGets_end (hi : i < 2048 - 1) (hrx : w.rx = c :: rx) (hm : w.modifier = false)
    (hc : lineEscaping.isEnd c = true) :
    uartGets buf 2048 (n + 1) i w = .ok i ((w.heard c rx).stored (buf + i) 0 false) := by
  simp only [uartGets, if_pos hi, run_bind, uartGetchar, hrx]
  rcases isEnd_iff.mp hc with rfl | rfl
  · simp [run_bind, run_get, run_putchar, hm, World.heard, World.stored, echo]
    rfl
  · simp [run_bind, run_get, run_putchar, hm, World.heard, World.stored, echo]
    rfl

/-! ## One line -/

theorem Rel.heard_stored (hrel : Rel buf w s) (c b : Byte) (rx : List Byte)
    (hlt : s.part.line.length < lineMax) :
    Rel buf ((w.heard c rx).stored (buf + index s) b false)
      { s with echoed := s.echoed ++ echo c, part := ⟨s.part.line, false⟩ } where
  line := by
    have := readBytes_set w.mem buf b (Nat.le_refl s.part.line.length)
      (by unfold lineMax at hlt; omega)
    exact this.trans hrel.line
  modifier := rfl
  scpi := hrel.scpi
  exit := hrel.exit
  echoed := congrArg (· ++ echo c) hrel.echoed
  calls := hrel.calls
  stores := by
    intro a ha
    rcases List.mem_append.mp ha with ha | ha
    · exact hrel.stores a ha
    · exact ⟨s.part.line.length, hlt, List.mem_singleton.mp ha⟩

theorem Rel.push (hrel : Rel buf w s) (c : Byte) (rx : List Byte)
    (hlt : s.part.line.length < lineMax) :
    readBytes ((w.heard c rx).stored (buf + index s) c false).mem buf
      (s.part.line ++ [c]).length = s.part.line ++ [c] := by
  have hkeep := (hrel.heard_stored c c rx hlt).line
  rw [List.length_append, List.length_singleton, readBytes_succ]
  refine congrArg₂ (· ++ [·]) hkeep ?_
  exact Mem.set_self _ _ _

/-- How a call of `uart_gets` ends: it waits for more, or it returns a completed line. -/
inductive LineEnd (B : Behaviour σ) (buf : Word) (w : World σ) (s : Service σ) :
    EStateM.Result Stop (World σ) Word → Prop where
  | blocked (w' : World σ) (hrx : w'.rx = []) (hinfers : w'.infers = w.infers)
      (hexit : (s.run B w.rx).exit = false)
      (hdeliv : (s.run B w.rx).delivered = s.delivered) (hrel : Rel buf w' (s.run B w.rx)) :
      LineEnd B buf w s (.error .blocked w')
  | line (w' : World σ) (used m : List Byte) (t : Service σ) (hrx : w.rx = used ++ w'.rx)
      (hused : used ≠ []) (hinfers : w'.infers = w.infers) (hlen : m.length ≤ lineMax)
      (hexit : t.exit = false) (hpart : t.part = .empty) (hdeliv : t.delivered = s.delivered)
      (hrun : s.run B used = t.deliver B m) (hrel : Rel buf w' t)
      (hmem : readBytes w'.mem buf m.length = m) :
      LineEnd B buf w s (.ok (BitVec.ofNat 32 m.length) w')

/-- After a byte that did not complete the line, the rest of the call decides. -/
theorem LineEnd.cons (w₁ : World σ) {r : EStateM.Result Stop (World σ) Word}
    (hrx : w.rx = c :: rx) (hrx₁ : w₁.rx = rx) (hinfers : w₁.infers = w.infers)
    (hdeliv : (s.absorb B c).delivered = s.delivered)
    (h : LineEnd B buf w₁ (s.absorb B c) r) : LineEnd B buf w s r := by
  cases h with
  | blocked w' hrx' hinfers' hexit hdeliv' hrel =>
    refine .blocked w' hrx' (hinfers'.trans hinfers) ?_ ?_ ?_
    · rw [hrx, Service.run_cons, ← hrx₁]
      exact hexit
    · rw [hrx, Service.run_cons, ← hrx₁]
      exact hdeliv'.trans hdeliv
    · rw [hrx, Service.run_cons, ← hrx₁]
      exact hrel
  | line w' used m t hrx' hused hinfers' hlen hexit hpart hdeliv' hrun hrel hmem =>
    refine .line w' (c :: used) m t ?_ nofun (hinfers'.trans hinfers) hlen hexit hpart
      (hdeliv'.trans hdeliv) (by rw [Service.run_cons, hrun]) hrel hmem
    rw [hrx, ← hrx₁, hrx', List.cons_append]

/-- A byte that completes the line. -/
theorem LineEnd.last (w' : World σ) {m : List Byte} (hrx : w.rx = c :: w'.rx)
    (hinfers : w'.infers = w.infers) (hexit : s.exit = false) (hlen : m.length ≤ lineMax)
    (hfeed : lineEscaping.feed lineMax s.part c = .line m)
    (hrel : Rel buf w' { s with echoed := s.echoed ++ echo c, part := ⟨s.part.line, false⟩ })
    (hmem : readBytes w'.mem buf m.length = m) :
    LineEnd B buf w s (.ok (BitVec.ofNat 32 m.length) w') := by
  refine .line w' [c] m { s with echoed := s.echoed ++ echo c, part := .empty } hrx nofun hinfers
    hlen hexit rfl rfl ?_ ?_ hmem
  · rw [Service.run_cons, Service.run_nil, Service.absorb_line hexit hfeed]
  · exact { hrel with line := rfl }

theorem index_succ (s : Service σ) (c : Byte) :
    index s + 1 = BitVec.ofNat 32 (s.part.line ++ [c]).length := by
  rw [index, List.length_append, List.length_singleton, BitVec.ofNat_add]
  rfl

/-- What `uart_gets` does from the middle of a line. -/
def GetsOk (B : Behaviour σ) (buf : Word) (n : Nat) : Prop :=
  ∀ {w : World σ} {s : Service σ}, Rel buf w s → s.exit = false →
    s.part.line.length < lineMax → w.rx.length < n →
    LineEnd B buf w s (uartGets buf 2048 n (index s) w)

/-- A byte is stored: the line goes on, or is full. -/
theorem GetsOk.stored (ih : GetsOk B buf n) (hrel : Rel buf w s) (hexit : s.exit = false)
    (hlt : s.part.line.length < lineMax) (hrx : w.rx = c :: rx) (hn : rx.length < n)
    (hstore : w.modifier = true ∨ c ≠ 92 ∧ lineEscaping.isEnd c = false) :
    LineEnd B buf w s (uartGets buf 2048 (n + 1) (index s) w) := by
  rw [uartGets_store (index_lt hlt) hrx hstore, index_succ s c]
  have hplain : s.part.escaped = true ∨ c ≠ lineEscaping.esc ∧ lineEscaping.isEnd c = false := by
    rwa [← hrel.modifier]
  have hfeed : lineEscaping.feed lineMax s.part c = Escaping.push lineMax s.part.line c :=
    Escaping.feed_push hplain
  have hbase := hrel.heard_stored c c rx hlt
  have hmem := hrel.push c rx hlt
  by_cases hroom : s.part.line.length + 1 < lineMax
  · rw [Escaping.push_more hroom] at hfeed
    have habs := Service.absorb_more (B := B) hexit hfeed
    apply LineEnd.cons ((w.heard c rx).stored (buf + index s) c false) hrx rfl rfl (by rw [habs])
    rw [habs]
    exact ih { hbase with line := hmem } hexit
      (by rwa [List.length_append, List.length_singleton]) hn
  · rw [Escaping.push_line (by omega)] at hfeed
    have hlen : (s.part.line ++ [c]).length = 2047 := by
      unfold lineMax at hlt hroom
      rw [List.length_append, List.length_singleton]
      omega
    obtain ⟨n, rfl⟩ : ∃ k, n = k + 1 := ⟨n - 1, by omega⟩
    have hdone := LineEnd.last (B := B) (w := w)
      ((w.heard c rx).stored (buf + index s) c false) hrx rfl hexit (Nat.le_of_eq hlen)
      hfeed hbase hmem
    rw [hlen] at hdone ⊢
    exact hdone

theorem GetsOk.escaped (ih : GetsOk B buf n) (hrel : Rel buf w s) (hexit : s.exit = false)
    (hlt : s.part.line.length < lineMax) (hrx : w.rx = 92 :: rx) (hn : rx.length < n)
    (hm : w.modifier = false) :
    LineEnd B buf w s (uartGets buf 2048 (n + 1) (index s) w) := by
  have hesc : s.part.escaped = false := by rw [← hrel.modifier, hm]
  have hfeed : lineEscaping.feed lineMax s.part 92 = _ := Escaping.feed_esc hesc
  have habs := Service.absorb_more (B := B) hexit hfeed
  have hrel' : Rel buf { w.heard 92 rx with modifier := true }
      { s with echoed := s.echoed ++ echo 92, part := { s.part with escaped := true } } :=
    { hrel with
      modifier := rfl
      echoed := congrArg (· ++ echo 92) hrel.echoed }
  rw [uartGets_esc (index_lt hlt) hrx hm]
  apply LineEnd.cons { w.heard 92 rx with modifier := true } hrx rfl rfl (by rw [habs])
  rw [habs]
  exact ih hrel' hexit hlt hn

/-- `uart_gets` from the middle of a line. -/
theorem uartGets_spec (n : Nat) : GetsOk B buf n := by
  induction n with
  | zero => exact fun _ _ _ hn => absurd hn (Nat.not_lt_zero _)
  | succ n ih =>
    intro w s hrel hexit hlt hn
    have hi := index_lt hlt
    cases hrx : w.rx with
    | nil =>
      rw [uartGets_blocked hi hrx]
      exact .blocked w hrx rfl (by rw [hrx]; exact hexit) (by rw [hrx]; rfl) (by rw [hrx]; exact hrel)
    | cons c rx =>
      rw [hrx, List.length_cons] at hn
      have hn := Nat.lt_of_succ_lt_succ hn
      by_cases hstore : w.modifier = true ∨ c ≠ 92 ∧ lineEscaping.isEnd c = false
      · exact ih.stored hrel hexit hlt hrx hn hstore
      · rw [not_or, Bool.not_eq_true] at hstore
        obtain ⟨hm, hspecial⟩ := hstore
        by_cases h92 : c = 92
        · subst h92
          exact ih.escaped hrel hexit hlt hrx hn hm
        · -- a line end
          have hesc : s.part.escaped = false := by rw [← hrel.modifier, hm]
          have hend : lineEscaping.isEnd c = true := by
            by_contra hno
            exact hspecial ⟨h92, by simpa using hno⟩
          rw [uartGets_end hi hrx hm hend]
          have hbase := hrel.heard_stored c 0 rx hlt
          exact LineEnd.last _ hrx rfl hexit (Nat.le_of_lt hlt) (Escaping.feed_end hesc hend) hbase
            hbase.line

/-! ## The outer loops -/

/-- A world after the calls for one message. -/
def World.served (B : Behaviour σ) (w : World σ) (m : List Byte) : World σ :=
  let w := { w with
    scpi := (B w.scpi m).1
    exitScpi := w.exitScpi || (B w.scpi m).2
    calls := w.calls ++ [m] }
  { w with
    scpi := (B w.scpi crlf).1
    exitScpi := w.exitScpi || (B w.scpi crlf).2
    calls := w.calls ++ [crlf] }

theorem Rel.served {m : List Byte} (hrel : Rel buf w s) (hm : m ≠ []) :
    Rel buf (w.served B m) (s.deliver B m) := by
  rw [Service.deliver, if_neg hm]
  refine ⟨hrel.line, hrel.modifier, ?_, ?_, hrel.echoed, ?_, hrel.stores⟩
  · simp only [World.served, Service.call, hrel.scpi]
  · simp only [World.served, Service.call, hrel.scpi, hrel.exit]
  · simp only [World.served, Service.call, hrel.calls]

theorem toNat_length {m : List Byte} (h : m.length ≤ lineMax) :
    (BitVec.ofNat 32 m.length).toNat = m.length := by
  unfold lineMax at h
  rw [BitVec.toNat_ofNat]
  omega

theorem length_pos_iff {m : List Byte} (h : m.length ≤ lineMax) :
    BitVec.ofNat 32 m.length > 0 ↔ m ≠ [] := by
  rw [gt_iff_lt, BitVec.lt_def, toNat_length h]
  exact List.length_pos_iff

theorem teeInfer_run (hbuf : ram2.Covers buf.toNat 2048) {m : List Byte} (hm : m ≠ [])
    (hlen : m.length ≤ lineMax) (hmem : readBytes w.mem buf m.length = m) :
    teeInfer B buf (BitVec.ofNat 32 m.length) w =
      .ok () ({ w with infers := w.infers ++ [(m, w.modifier)] }.served B m) := by
  have hn := toNat_length hlen
  have hpos : BitVec.ofNat 32 m.length > 0 := (length_pos_iff hlen).mpr hm
  have hpass : ¬ (buf < ram2Lo ∨ buf + BitVec.ofNat 32 m.length > ram2Hi) := by
    refine infer_passes hpos (hbuf.mono ?_)
    unfold lineMax at hlen
    omega
  have hcrlf : crlf.take (2 : Word).toNat = crlf := rfl
  unfold teeInfer handlerUserEcall ecInfer
  rw [if_pos rfl, if_neg hpass, if_pos hpos]
  simp only [firmware, run_bind, run_get, run_pure, run_modify, run_scpiInput, bytesAt, hn, hmem,
    hcrlf]
  rfl

/-- How a loop ends after all its input. -/
def stopOf (s : Service σ) : Stop := if s.exit then .spin else .blocked

/-- **The privilege-separated loop is the service**: on any input it waits for more, or
spins after the exit, having echoed and called what the service does. It starts with an empty
line, perhaps in the middle of an escape. -/
theorem userUartLoop_refines (hbuf : ram2.Covers buf.toNat 2048) (hrel : Rel buf w s)
    (hline : s.part.line = []) (hinfers : w.infers = s.delivered.map (·, false))
    (hn : w.rx.length + 2 ≤ n) :
    ∃ w', userUartLoop B buf 2048 n w = .error (stopOf (s.run B w.rx)) w' ∧
      Rel buf w' (s.run B w.rx) ∧ w'.infers = (s.run B w.rx).delivered.map (·, false) ∧
      ((s.run B w.rx).exit = false → w'.rx = []) := by
  induction n generalizing w s with
  | zero => omega
  | succ n ih =>
    cases hexit : s.exit with
    | true =>
      refine ⟨w, ?_, ?_⟩
      · simp only [userUartLoop, run_bind, run_get, hrel.exit, hexit, Bool.not_true,
          Bool.false_eq_true, if_false, Service.run_exit B hexit, stopOf, if_true]
        rfl
      · rw [Service.run_exit B hexit]
        exact ⟨hrel, hinfers, fun h => by rw [hexit] at h; cases h⟩
    | false =>
      have hgets := uartGets_spec (B := B) n hrel hexit
        (by rw [hline]; decide) (by omega)
      have hindex : index s = 0 := by rw [index, hline]; rfl
      rw [hindex] at hgets
      simp only [userUartLoop, run_bind, run_get, hrel.exit, hexit, Bool.not_false, if_true,
        userLine_eq]
      generalize uartGets buf 2048 n 0 w = r at hgets
      cases hgets with
      | blocked w' hrx hinfers' hexit' hdeliv hrel' =>
        refine ⟨w', ?_, hrel', ?_, fun _ => hrx⟩
        · simp only [stopOf, hexit', Bool.false_eq_true, if_false]
        · rw [hinfers', hinfers, hdeliv]
      | line w' used m t hrx hused hinfers' hlen hexit' hpart' hdeliv hrun hrel' hmem =>
        have hshort : w'.rx.length + 2 ≤ n := by
          have := List.length_pos_iff.mpr hused
          rw [hrx, List.length_append] at hn
          omega
        have hmod : w'.modifier = false := by rw [hrel'.modifier, hpart']; rfl
        rw [hrx, Service.run_append, hrun]
        by_cases hm : m = []
        · subst hm
          simp only [Service.deliver, if_true]
          exact ih hrel' (congrArg Partial.line hpart') (by rw [hinfers', hinfers, hdeliv]) hshort
        · simp only [length_pos_iff hlen, hm, ne_eq, not_false_eq_true, if_true,
            teeReadCountersArr_eq, run_pure, run_bind, teeInfer_run hbuf hm hlen hmem]
          have hserved : Rel buf ({ w' with infers := w'.infers ++ [(m, w'.modifier)] }.served B m)
              (t.deliver B m) :=
            Rel.served { hrel' with } hm
          refine ih hserved ?_ ?_ hshort
          · rw [Service.deliver, if_neg hm]
            exact congrArg Partial.line hpart'
          · rw [Service.deliver, if_neg hm]
            simp [World.served, Service.call, hmod, hinfers', hinfers, hdeliv]

/-- **The monolithic loop is the service** too; after the exit it returns. -/
theorem uartScpi_refines (hrel : Rel buf w s) (hpart : s.part = .empty)
    (hn : w.rx.length + 2 ≤ n) :
    ∃ w', uartScpi B buf n w =
        (if (s.run B w.rx).exit then .ok () w' else .error .blocked w') ∧
      Rel buf w' (s.run B w.rx) := by
  induction n generalizing w s with
  | zero => omega
  | succ n ih =>
    cases hexit : s.exit with
    | true =>
      refine ⟨w, ?_, ?_⟩
      · simp only [uartScpi, run_bind, run_get, hrel.exit, hexit, Bool.not_true,
          Bool.false_eq_true, if_false, Service.run_exit B hexit, if_true]
        rfl
      · rwa [Service.run_exit B hexit]
    | false =>
      have hline := uartGets_spec (B := B) n hrel hexit
        (by rw [hpart]; decide) (by omega)
      have hindex : index s = 0 := by rw [index, hpart]; rfl
      rw [hindex] at hline
      simp only [uartScpi, run_bind, run_get, hrel.exit, hexit, Bool.not_false, if_true]
      generalize uartGets buf 2048 n 0 w = r at hline
      cases hline with
      | blocked w' hrx hinfers' hexit' hdeliv hrel' =>
        refine ⟨w', ?_, hrel'⟩
        simp only [hexit', Bool.false_eq_true, if_false]
      | line w' used m t hrx hused hinfers' hlen hexit' hpart' hdeliv hrun hrel' hmem =>
        have hshort : w'.rx.length + 2 ≤ n := by
          have := List.length_pos_iff.mpr hused
          rw [hrx, List.length_append] at hn
          omega
        rw [hrx, Service.run_append, hrun]
        by_cases hm : m = []
        · subst hm
          simp only [Service.deliver, if_true]
          exact ih hrel' hpart' hshort
        · have hcrlf : crlf.take (2 : Word).toNat = crlf := rfl
          simp only [length_pos_iff hlen, hm, ne_eq, not_false_eq_true, if_true, run_get, run_bind,
            run_scpiInput, bytesAt, toNat_length hlen, hmem, hcrlf]
          refine ih (hrel'.served hm) ?_ hshort
          rw [Service.deliver, if_neg hm]
          exact hpart'

end XHeepFemu.Tee
