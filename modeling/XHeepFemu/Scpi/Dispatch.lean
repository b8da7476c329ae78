import XHeepFemu.Scpi.Header
import XHeepFemu.Scpi.Spelling

/-!
# The command list

A command list is searched from its first command on. `Unambiguous` is what a
list has to pass for this order not to matter: no pattern competes with itself,
and no header spells two of them. It can be checked, and then a header is that
of a command exactly when it spells its pattern.
-/

namespace XHeepFemu.Scpi

open Lib (Separate Spells)

/-! ## Patterns apart -/

namespace PatternNode

/-- No key is taken by both. Numbers may follow a form, so that one may not begin the other. -/
def apart (n m : PatternNode) : Bool :=
  n.forms.all fun f => m.forms.all fun g =>
    if n.numbered || m.numbered then !sameLetters (f.take g.length) (g.take f.length)
    else !sameLetters f g

theorem accepts_form {n : PatternNode} {k : Text} (h : n.accepts k = true) :
    ∃ f ∈ n.forms, sameLetters f (k.take f.length) = true ∧
      (n.numbered = false → sameLetters f k = true) := by
  obtain ⟨f, hf, hmatch⟩ := List.any_eq_true.mp h
  refine ⟨f, hf, ?_⟩
  cases hnum : n.numbered with
  | true =>
    rw [hnum, if_pos rfl, Bool.and_eq_true] at hmatch
    exact ⟨hmatch.1, nofun⟩
  | false =>
    rw [hnum, if_neg nofun] at hmatch
    refine ⟨?_, fun _ => hmatch⟩
    rwa [List.take_of_length_le (Nat.le_of_eq (sameLetters_length hmatch).symm)]

theorem apart_sound : Lib.Sound node apart := by
  intro n m h k hn
  by_contra hm
  obtain ⟨f, hf, hstart, hplain⟩ := accepts_form hn
  obtain ⟨g, hg, hstart', hplain'⟩ := accepts_form ((Bool.not_eq_false _).mp hm)
  have hforms := List.all_eq_true.mp (List.all_eq_true.mp h f hf) g hg
  split at hforms
  · -- both forms begin the key
    have hsame : sameLetters (f.take g.length) (g.take f.length) = true := by
      rw [sameLetters, beq_iff_eq, List.map_take, List.map_take, beq_iff_eq.mp hstart,
        beq_iff_eq.mp hstart', ← List.map_take, ← List.map_take, List.take_take, List.take_take,
        Nat.min_comm]
    rw [hsame] at hforms
    cases hforms
  · rename_i hnum
    rw [Bool.not_eq_true, Bool.or_eq_false_iff] at hnum
    have hsame : sameLetters f g = true := by
      rw [sameLetters, beq_iff_eq.mp (hplain hnum.1), beq_iff_eq.mp (hplain' hnum.2)]
      exact beq_self_eq_true _
    rw [hsame] at hforms
    cases hforms

end PatternNode

namespace Pattern

def keywords (p : Pattern) : List PatternNode := p.first :: p.rest

/-- No two keywords compete for a key. -/
def separate (p : Pattern) : Bool := Lib.separate PatternNode.node PatternNode.apart p.keywords

/-- No header spells both. -/
def apart (p q : Pattern) : Bool :=
  p.query != q.query || Lib.disjoint PatternNode.node PatternNode.apart p.keywords q.keywords

variable {p q : Pattern} {header : Text}

theorem separate_nodes (h : p.separate = true) : Separate p.nodes :=
  Lib.separate_sound PatternNode.apart_sound h

/-- The keys of a path do not depend on the pattern it spells. -/
theorem spells_splitOn {path : Text} (hsep : p.separate = true) (h : p.SpelledPath path) :
    ∃ path', skipCmdStart path = some path' ∧ Spells p.nodes (path'.splitOn 58) := by
  have hmatch := p.matchPath_of_spelledPath (separate_nodes hsep) h
  unfold matchPath at hmatch
  split at hmatch
  · rename_i path' hskip
    exact ⟨path', hskip, Lib.spells_of_greedy hmatch⟩
  · cases hmatch

theorem path_free {path : Text} (h : p.SpelledPath path) : 63 ∉ path := by
  obtain ⟨k, ks, hspells, hpath⟩ := h
  have hfree : 63 ∉ [58].intercalate (k :: ks) :=
    intercalate_free (by decide) fun key hkey => (p.key_plain hspells key hkey).2.2
  rcases hpath with rfl | ⟨rfl, -⟩
  · exact hfree
  · exact fun h => hfree ((List.mem_cons.mp h).resolve_left (by decide))

/-- The question mark of a header belongs to its pattern. -/
theorem path_unique {path path' : Text} (h : p.SpelledPath path) (h' : q.SpelledPath path')
    (heq : (path ++ if p.query then [63] else []) = path' ++ if q.query then [63] else []) :
    p.query = q.query ∧ path = path' := by
  have hfree := path_free h
  have hfree' := path_free h'
  cases hp : p.query <;> cases hq : q.query <;> simp only [hp, hq, if_true, Bool.false_eq_true,
    if_false, List.append_nil] at heq
  · exact ⟨rfl, heq⟩
  · exact absurd (heq ▸ List.mem_append_right _ (List.mem_singleton_self 63)) hfree
  · exact absurd (heq ▸ List.mem_append_right _ (List.mem_singleton_self 63)) hfree'
  · exact ⟨rfl, (List.append_inj' heq rfl).1⟩

theorem apart_sound (hp : p.separate = true) (hq : q.separate = true) (h : p.apart q = true)
    (hspelled : p.Spelled header) : ¬q.Spelled header := by
  rintro ⟨path', hpath', hheader'⟩
  obtain ⟨path, hpath, hheader⟩ := hspelled
  obtain ⟨hquery, rfl⟩ := path_unique hpath hpath' (hheader.symm.trans hheader')
  obtain ⟨s, hskip, hspells⟩ := spells_splitOn hp hpath
  obtain ⟨s', hskip', hspells'⟩ := spells_splitOn hq hpath'
  rw [hskip] at hskip'
  rw [← Option.some.inj hskip'] at hspells'
  unfold apart at h
  rw [hquery, bne_self_eq_false, Bool.false_or] at h
  exact Lib.disjoint_sound PatternNode.apart_sound h hspells hspells'

end Pattern

/-! ## Dispatch -/

variable {κ : Type}

/-- A command list, as the source has it. -/
def cmdlist (cmds : List (Pattern × κ)) : List (Text × κ) := cmds.map fun c => (c.1.text, c.2)

/-- What a command list has to pass for its order not to matter. -/
structure Unambiguous (cmds : List (Pattern × κ)) : Prop where
  separate : ∀ c ∈ cmds, c.1.separate = true
  apart : cmds.Pairwise fun c d => c.1.apart d.1 = true

instance (cmds : List (Pattern × κ)) : Decidable (Unambiguous cmds) :=
  decidable_of_iff ((∀ c ∈ cmds, c.1.separate = true) ∧
    cmds.Pairwise fun c d => c.1.apart d.1 = true) ⟨fun h => ⟨h.1, h.2⟩, fun h => ⟨h.1, h.2⟩⟩

section Match

variable {p : Pattern} {header : Text}

theorem scpiMatch_sound (hne : header ≠ []) (hzero : 0 ∉ header)
    (h : scpiMatch p.text header = some true) : p.Spelled header := by
  have htake := Pattern.takeWhile_header hzero
  have hstart : header.takeWhile (· != 0) ≠ [] := by rwa [htake]
  obtain ⟨b, hb, hsound, -⟩ := p.scpiMatch_spelled hstart
  rw [htake] at hsound
  exact hsound (Option.some.inj (hb.symm.trans h))

theorem scpiMatch_complete (hp : p.separate = true) (hne : header ≠ []) (hzero : 0 ∉ header)
    (h : p.Spelled header) : scpiMatch p.text header = some true := by
  have htake := Pattern.takeWhile_header hzero
  have hstart : header.takeWhile (· != 0) ≠ [] := by rwa [htake]
  obtain ⟨b, hb, -, hcomplete⟩ := p.scpiMatch_spelled hstart
  rw [htake] at hcomplete
  rw [hb, hcomplete (Pattern.separate_nodes hp) h]

end Match

theorem findCommandHeader_cons (c : Pattern × κ) (cmds : List (Pattern × κ)) (header : Text) :
    findCommandHeader (cmdlist (c :: cmds)) header =
      if scpiMatch c.1.text header = some true then some c.2
      else findCommandHeader (cmdlist cmds) header := by
  unfold findCommandHeader cmdlist
  rw [List.map_cons, List.find?_cons]
  split
  · rename_i hmatch
    rw [if_pos (beq_iff_eq.mp hmatch)]
    rfl
  · rename_i hmatch
    rw [if_neg (beq_eq_false_iff_ne.mp hmatch)]

/-- What is found is spelled, in any list. -/
theorem findCommandHeader_spelled {cmds : List (Pattern × κ)} {header : Text} (hne : header ≠ [])
    (hzero : 0 ∉ header) {cmd : κ} (h : findCommandHeader (cmdlist cmds) header = some cmd) :
    ∃ p, (p, cmd) ∈ cmds ∧ p.Spelled header := by
  induction cmds with
  | nil => cases h
  | cons c cmds ih =>
    rw [findCommandHeader_cons] at h
    split at h
    · rename_i hmatch
      refine ⟨c.1, ?_, scpiMatch_sound hne hzero hmatch⟩
      rw [← Option.some.inj h]
      exact List.mem_cons_self ..
    · obtain ⟨p, hp, hspelled⟩ := ih h
      exact ⟨p, List.mem_cons_of_mem _ hp, hspelled⟩

/-- What is spelled is found: no pattern before it takes the header. -/
theorem findCommandHeader_of_spelled {cmds : List (Pattern × κ)} (h : Unambiguous cmds)
    {header : Text} (hne : header ≠ []) (hzero : 0 ∉ header) {p : Pattern} {cmd : κ}
    (hp : (p, cmd) ∈ cmds) (hspelled : p.Spelled header) :
    findCommandHeader (cmdlist cmds) header = some cmd := by
  induction cmds with
  | nil => cases hp
  | cons c cmds ih =>
    have happart := List.pairwise_cons.mp h.apart
    have htail : Unambiguous cmds := ⟨fun d hd => h.separate d (List.mem_cons_of_mem _ hd), happart.2⟩
    rw [findCommandHeader_cons]
    rcases List.mem_cons.mp hp with rfl | hp
    · have hsep := h.separate _ (List.mem_cons_self ..)
      rw [if_pos (scpiMatch_complete hsep hne hzero hspelled)]
    · have hc := h.separate c (List.mem_cons_self ..)
      have hsep := h.separate _ (List.mem_cons_of_mem _ hp)
      have hnot : scpiMatch c.1.text header ≠ some true := fun hmatch =>
        Pattern.apart_sound hc hsep (happart.1 _ hp) (scpiMatch_sound hne hzero hmatch) hspelled
      rw [if_neg hnot]
      exact ih htail hp

/-- **A header is that of a command** of an unambiguous list exactly when it spells its pattern,
wherever the command stands in the list. -/
theorem findCommandHeader_iff {cmds : List (Pattern × κ)} (h : Unambiguous cmds) {header : Text}
    (hne : header ≠ []) (hzero : 0 ∉ header) (cmd : κ) :
    findCommandHeader (cmdlist cmds) header = some cmd ↔
      ∃ p, (p, cmd) ∈ cmds ∧ p.Spelled header := by
  refine ⟨findCommandHeader_spelled hne hzero, ?_⟩
  rintro ⟨p, hp, hspelled⟩
  exact findCommandHeader_of_spelled h hne hzero hp hspelled

/-- `INPut[:DATA]?` and `OUTput#`, asked for by `input?` and `out7`. -/
theorem findCommandHeader_iff_output :
    let input : Pattern := ⟨⟨[73, 78, 80, 117, 116], false, false, List.all_eq_true.mp rfl, rfl⟩,
      [⟨[68, 65, 84, 65], false, true, List.all_eq_true.mp rfl, rfl⟩], true⟩
    let output : Pattern :=
      ⟨⟨[79, 85, 84, 112, 117, 116], true, false, List.all_eq_true.mp rfl, rfl⟩, [], false⟩
    let cmds := [(input, 0), (output, 1)]
    findCommandHeader (cmdlist cmds) [105, 110, 112, 117, 116, 63] = some 0 ∧
      findCommandHeader (cmdlist cmds) [111, 117, 116, 55] = some 1 := by
  intro input output cmds
  have h : Unambiguous cmds := by decide
  constructor
  · refine (findCommandHeader_iff h (by decide) (by decide) 0).mpr ⟨input, .head _, ?_⟩
    exact ⟨[105, 110, 112, 117, 116], ⟨[105, 110, 112, 117, 116], [], .take rfl (.skip rfl .nil),
      .inl rfl⟩, rfl⟩
  · refine (findCommandHeader_iff h (by decide) (by decide) 1).mpr ⟨output, .tail _ (.head _), ?_⟩
    exact ⟨[111, 117, 116, 55], ⟨[111, 117, 116, 55], [], .take rfl .nil, .inl rfl⟩, rfl⟩

/-! ## Headers that spell a pattern -/

set_option maxRecDepth 8000 in
theorem isalpha_tolower (c : Byte) : isalpha (tolower c) = isalpha c := by
  have h : ∀ b : BitVec 8, isalpha (tolower ⟨b⟩) = isalpha ⟨b⟩ := by decide
  exact h c.toBitVec

set_option maxRecDepth 8000 in
theorem isMnemonicChar_tolower (c : Byte) : isMnemonicChar (tolower c) = isMnemonicChar c := by
  have h : ∀ b : BitVec 8, isMnemonicChar (tolower ⟨b⟩) = isMnemonicChar ⟨b⟩ := by decide
  exact h c.toBitVec

theorem IsMnemonic.sameLetters {s t : Text} (hs : IsMnemonic s) (h : sameLetters s t = true) :
    IsMnemonic t := by
  have hmap : s.map tolower = t.map tolower := beq_iff_eq.mp h
  obtain ⟨c, s', rfl, hc⟩ := hs.head
  constructor
  · cases t with
    | nil => cases hmap
    | cons d t =>
      refine ⟨d, t, rfl, ?_⟩
      rw [← isalpha_tolower, ← (List.cons.inj hmap).1, isalpha_tolower]
      exact hc
  · intro d hd
    have hmem := List.mem_map_of_mem (f := tolower) hd
    rw [← hmap] at hmem
    obtain ⟨e, he, heq⟩ := List.mem_map.mp hmem
    rw [← isMnemonicChar_tolower, ← heq, isMnemonicChar_tolower]
    exact hs.chars e he

theorem PatternNode.accepts_mnemonic {n : PatternNode} (hn : IsMnemonic n.keyword) {k : Text}
    (h : n.accepts k = true) : IsMnemonic k := by
  obtain ⟨f, hf, hmatch⟩ := List.any_eq_true.mp h
  have hform : IsMnemonic f := by
    rcases List.mem_pair.mp hf with rfl | rfl
    · exact hn
    · obtain ⟨c, s, hkey, hc⟩ := hn.head
      have hshort := n.short
      rw [hkey, List.head?_cons, Option.any_some] at hshort
      refine ⟨⟨c, s.takeWhile fun c => !islower c, ?_, hc⟩,
        fun d hd => hn.chars d ((List.takeWhile_prefix _).subset hd)⟩
      rw [hkey, List.takeWhile_cons, hshort]
      rfl
  split at hmatch
  · rw [Bool.and_eq_true, List.all_eq_true] at hmatch
    have hstart := hform.sameLetters hmatch.1
    obtain ⟨c, s, htake, hc⟩ := hstart.head
    refine ⟨⟨c, s ++ k.drop f.length, ?_, hc⟩, fun d hd => ?_⟩
    · rw [← List.cons_append, ← htake, List.take_append_drop]
    · rw [← List.take_append_drop f.length k] at hd
      rcases List.mem_append.mp hd with hd | hd
      · exact hstart.chars d hd
      · unfold isMnemonicChar isalnum
        rw [hmatch.2 d hd, Bool.or_true, Bool.true_or]
  · exact hform.sameLetters hmatch

theorem PatternNode.accepts_length {n : PatternNode} (hnum : n.numbered = false) {k : Text}
    (h : n.accepts k = true) : k.length ≤ n.keyword.length := by
  obtain ⟨f, hf, -, hplain⟩ := accepts_form h
  rw [← sameLetters_length (hplain hnum)]
  rcases List.mem_pair.mp hf with rfl | rfl
  · exact Nat.le_refl _
  · exact (List.takeWhile_prefix _).length_le

theorem spells_length {ns : List PatternNode} (hnum : ∀ n ∈ ns, n.numbered = false)
    {ks : List Text} (h : Spells (ns.map PatternNode.node) ks) :
    (ks.flatMap (58 :: ·)).length ≤ (ns.flatMap fun n => 58 :: n.keyword).length := by
  induction ns generalizing ks with
  | nil =>
    cases h
    exact Nat.le_refl _
  | cons n ns ih =>
    have hn := hnum n (List.mem_cons_self ..)
    have hns := fun m hm => hnum m (List.mem_cons_of_mem _ hm)
    rw [List.map_cons] at h
    rw [List.flatMap_cons, List.length_append, List.length_cons]
    cases h with
    | take hacc hs =>
      have hkey := n.accepts_length hn hacc
      have hrest := ih hns hs
      rw [List.flatMap_cons, List.length_append, List.length_cons]
      omega
    | skip ho hs => exact Nat.le_add_left_of_le (ih hns hs)

/-- One way to write the header of a command. -/
structure HeaderOf (p : Pattern) where
  colon : Bool
  key : Text
  keys : List Text
  spells : Spells p.nodes (key :: keys)

namespace HeaderOf

variable {p : Pattern} (s : HeaderOf p)

def header : Header := .compound s.colon (s.key :: s.keys) p.query

theorem mnemonic (hp : ∀ n ∈ p.keywords, IsMnemonic n.keyword) :
    ∀ k ∈ s.key :: s.keys, IsMnemonic k := by
  intro k hk
  obtain ⟨m, hm, hacc⟩ := s.spells.accepted k hk
  obtain ⟨n, hn, rfl⟩ := List.mem_map.mp hm
  exact n.accepts_mnemonic (hp n hn) hacc

theorem wellFormed (hp : ∀ n ∈ p.keywords, IsMnemonic n.keyword) : s.header.WellFormed :=
  .compound nofun (s.mnemonic hp)

theorem spelled (hp : ∀ n ∈ p.keywords, IsMnemonic n.keyword) : p.Spelled s.header.text := by
  have hkey := s.mnemonic hp s.key (List.mem_cons_self ..)
  refine ⟨(if s.colon then [58] else []) ++ [58].intercalate (s.key :: s.keys),
    ⟨s.key, s.keys, s.spells, ?_⟩, ?_⟩
  · cases s.colon with
    | true => exact .inr ⟨rfl, (mnemonic_head hkey).1⟩
    | false => exact .inl rfl
  · unfold header
    rw [Header.text_compound, Header.mark, List.append_assoc]

theorem length_text (hnum : ∀ n ∈ p.keywords, n.numbered = false) :
    s.header.text.length ≤ (p.keywords.flatMap fun n => 58 :: n.keyword).length + 1 := by
  have hlen := spells_length hnum s.spells
  unfold header
  rw [Header.text_compound, Header.mark, intercalate_colon]
  rw [List.flatMap_cons] at hlen
  cases s.colon <;> cases p.query <;> simp at hlen ⊢ <;> omega

theorem last_text (hp : ∀ n ∈ p.keywords, IsMnemonic n.keyword) :
    s.header.text.getLast? = some 63 ↔ p.query = true := by
  obtain ⟨path, hpath, htext⟩ := s.spelled hp
  rw [htext]
  cases p.query with
  | true => simp
  | false =>
    have hfree := Pattern.path_free hpath
    simp only [Bool.false_eq_true, if_false, List.append_nil, iff_false]
    exact fun h => hfree (List.mem_of_getLast? h)

/-- It is looked up wherever its command stands. -/
theorem found {κ : Type} {cmds : List (Pattern × κ)} (h : Unambiguous cmds) {cmd : κ}
    (hcmd : (p, cmd) ∈ cmds) (hp : ∀ n ∈ p.keywords, IsMnemonic n.keyword) :
    findCommandHeader (cmdlist cmds) s.header.text = some cmd := by
  have hzero : 0 ∉ s.header.text := by
    have hkeys := s.mnemonic hp
    have hpath : 0 ∉ [58].intercalate (s.key :: s.keys) :=
      intercalate_free (by decide) fun k hk h => absurd ((hkeys k hk).chars 0 h) (by decide)
    unfold header
    rw [Header.text_compound, Header.mark]
    cases s.colon <;> cases p.query <;> simp [hpath]
  exact findCommandHeader_of_spelled h (head_text (s.wellFormed hp)).1 hzero hcmd (s.spelled hp)

end HeaderOf

end XHeepFemu.Scpi
