import Mathlib.Data.List.TakeWhile
import XHeepFemu.Scpi.Pattern

/-!
# Matching a header with a pattern

`matchCommand` on the text of a pattern: the loop over keywords is the greedy
pass over pattern and header, and what is left of the pattern behind the header
has to be optional. So a header that matches spells the pattern, and where no
two keywords compete for it the reverse holds too.
-/

namespace XHeepFemu.Scpi

open Lib (KeyNode Spells greedy Separate)

/-! ## The rest of a pattern -/

namespace PatternNode

variable (n : PatternNode)

theorem text_free : Free [63, 58, 91, 93] n.text := by
  intro c hc
  have hplain : isKeywordChar c = true ∨ c = 35 := by
    unfold text at hc
    rcases List.mem_append.mp hc with hc | hc
    · exact .inl (n.plain c hc)
    · split at hc
      · exact .inr (List.mem_singleton.mp hc)
      · cases hc
  rcases hplain with hplain | rfl
  · refine ⟨?_, fun hmem => ?_⟩
    · rintro rfl
      cases hplain
    · simp only [List.mem_cons, List.not_mem_nil, or_false] at hmem
      rcases hmem with rfl | rfl | rfl | rfl <;> cases hplain
  · decide

theorem text_ne_nil : n.text ≠ [] := by
  intro h
  exact n.keyword_ne_nil (List.append_eq_nil_iff.mp h).1

theorem text_head {c : Byte} (hc : c ∈ ([63, 58, 91, 93] : Text)) (t : Text) :
    (n.text ++ t).head? ≠ some c := by
  obtain ⟨d, s, htext⟩ := List.exists_cons_of_ne_nil n.text_ne_nil
  rw [htext, List.cons_append, List.head?_cons]
  intro h
  have := (n.text_free d (htext ▸ List.mem_cons_self ..)).2
  rw [Option.some.inj h] at this
  exact this hc

end PatternNode

theorem tailText_cons (n : PatternNode) (ns : List PatternNode) :
    tailText (n :: ns) = n.opening ++ (n.text ++ (n.closing ++ tailText ns)) := rfl

/-- One round of the loop, up to a separator. -/
theorem matchRest_separator {n : Nat} {s t : Text} {c : Byte} {brackets : Int}
    (hs : Free [63, 58, 91, 93] s) (hc : c ∈ ([63, 58, 91, 93] : Text)) (hzero : c ≠ 0) :
    matchRest (n + 1) (s ++ c :: t) brackets =
      let brackets := if c = 91 then brackets + 1 else if c = 93 then brackets - 1 else brackets
      if brackets = 0 then if t.head? = some 91 then matchRest n t brackets else some t.isEmpty
      else matchRest n t brackets := by
  have hpos : patternSeparatorPos (s ++ c :: t) = s.length :=
    separatorPos_append hs (.inr ⟨c, hc, hzero, rfl⟩)
  have hget : (s ++ c :: t)[s.length]? = some c := by simp
  have hdrop : (s ++ c :: t).drop (s.length + 1) = t := by simp
  have hlen : s.length < (s ++ c :: t).length := by simp
  have hne : (s ++ c :: t).isEmpty = false := by simp
  rw [matchRest, if_neg (by rw [hne]; decide)]
  simp only [hpos, hget, hdrop, if_pos hlen]
  simp only [List.mem_cons, List.not_mem_nil, or_false] at hc
  rcases hc with rfl | rfl | rfl | rfl <;> rfl

theorem matchRest_colon {n : Nat} {t : Text} {brackets : Int} :
    matchRest (n + 1) (58 :: t) brackets =
      if brackets = 0 then if t.head? = some 91 then matchRest n t brackets else some t.isEmpty
      else matchRest n t brackets :=
  matchRest_separator (s := []) nofun (by decide) (by decide)

theorem matchRest_open {n : Nat} {t : Text} : matchRest (n + 1) (91 :: t) 0 = matchRest n t 1 :=
  matchRest_separator (s := []) nofun (by decide) (by decide)

theorem matchRest_close {n : Nat} {s t : Text} (hs : Free [63, 58, 91, 93] s) :
    matchRest (n + 1) (s ++ 93 :: t) 1 =
      if t.head? = some 91 then matchRest n t 0 else some t.isEmpty :=
  matchRest_separator hs (by decide) (by decide)

/-- Behind a closed bracket, every node has to be optional. -/
theorem matchRest_closed {fuel : Nat} {ns : List PatternNode} (hfuel : (tailText ns).length < fuel) :
    (if (tailText ns).head? = some 91 then matchRest fuel (tailText ns) 0
      else some (tailText ns).isEmpty) = some (ns.all (·.optional)) := by
  induction ns generalizing fuel with
  | nil => rfl
  | cons n ns ih =>
    rw [List.all_cons]
    cases ho : n.optional with
    | false =>
      rw [tailText_cons, PatternNode.opening, ho]
      rfl
    | true =>
      have htext : tailText (n :: ns) = 91 :: 58 :: (n.text ++ 93 :: tailText ns) := by
        rw [tailText_cons, PatternNode.opening, PatternNode.closing, ho]
        rfl
      rw [htext] at hfuel ⊢
      simp only [List.length_cons, List.length_append] at hfuel
      obtain ⟨fuel, rfl⟩ : ∃ k, fuel = k + 3 := ⟨fuel - 3, by omega⟩
      rw [List.head?_cons, if_pos rfl, matchRest_open, matchRest_colon, if_neg (by decide),
        matchRest_close n.text_free, ih (by omega), Bool.true_and]

theorem matchRest_tail {fuel : Nat} {ns : List PatternNode} (hns : ns ≠ [])
    (hfuel : (tailText ns).length < fuel) :
    matchRest fuel (tailText ns) 0 = some (ns.all (·.optional)) := by
  have hclosed := matchRest_closed hfuel
  obtain ⟨n, ns, rfl⟩ := List.exists_cons_of_ne_nil hns
  cases ho : n.optional with
  | true =>
    have hhead : (tailText (n :: ns)).head? = some 91 := by
      rw [tailText_cons, PatternNode.opening, ho]
      rfl
    rwa [if_pos hhead] at hclosed
  | false =>
    have htext : tailText (n :: ns) = 58 :: (n.text ++ tailText ns) := by
      rw [tailText_cons, PatternNode.opening, PatternNode.closing, ho]
      rfl
    have hne : (n.text ++ tailText ns).isEmpty = false := by simp [n.text_ne_nil]
    obtain ⟨fuel, rfl⟩ : ∃ k, fuel = k + 1 := ⟨fuel - 1, by omega⟩
    rw [htext, matchRest_colon, if_pos rfl, if_neg (n.text_head (by decide) _), hne, List.all_cons, ho,
      Bool.false_and]

/-! ## The loop over keywords -/

/-- The number of open brackets at the keyword of a node. -/
def PatternNode.brackets (n : PatternNode) : Int := if n.optional then 1 else 0

/-- The pattern from the keyword of `n` on. -/
def keywordText (n : PatternNode) (ns : List PatternNode) : Text :=
  n.text ++ (n.closing ++ tailText ns)

theorem sepPos_keywordText (n : PatternNode) (ns : List PatternNode) :
    patternSeparatorPos (keywordText n ns) = n.text.length := by
  refine separatorPos_append n.text_free ?_
  unfold PatternNode.closing
  cases n.optional with
  | true => exact .inr ⟨93, by decide, by decide, rfl⟩
  | false =>
    cases ns with
    | nil => exact .inl rfl
    | cons m ms =>
      rw [tailText_cons]
      unfold PatternNode.opening
      cases m.optional with
      | true => exact .inr ⟨91, by decide, by decide, rfl⟩
      | false => exact .inr ⟨58, by decide, by decide, rfl⟩

section Loop

variable {fuel : Nat} {n m : PatternNode} {ns ms : List PatternNode} {k r cmd : Text}
  {numbers : Numbers}

/-- What stands between two keywords. -/
def between (n m : PatternNode) : Text := n.closing ++ m.opening

theorem closing_tailText_cons :
    n.closing ++ tailText (m :: ms) = between n m ++ keywordText m ms := by
  rw [tailText_cons, between, keywordText, List.append_assoc]

theorem keywordText_length (n m : PatternNode) (ms : List PatternNode) :
    (keywordText m ms).length < (keywordText n (m :: ms)).length := by
  have hpos := List.length_pos_iff.mpr n.text_ne_nil
  have htext : keywordText n (m :: ms) = n.text ++ (between n m ++ keywordText m ms) := by
    rw [keywordText, closing_tailText_cons]
  rw [htext, List.length_append, List.length_append]
  omega

/-- The command starts with `k`, up to a colon, a question mark or its end. -/
structure Starts (k cmd : Text) : Prop where
  free : Free [58, 63] k
  cases : cmd = k ∨ (∃ r, cmd = k ++ 58 :: r) ∨ ∃ r, cmd = k ++ 63 :: r

theorem Starts.sepPos (h : Starts k cmd) : cmdSeparatorPos cmd = k.length := by
  rcases h.cases with rfl | ⟨r, rfl⟩ | ⟨r, rfl⟩
  · have := separatorPos_append h.free (.inl rfl)
    rwa [List.append_nil] at this
  · exact separatorPos_append h.free (.inr ⟨58, by decide, by decide, rfl⟩)
  · exact separatorPos_append h.free (.inr ⟨63, by decide, by decide, rfl⟩)

theorem Starts.take (h : Starts k cmd) : cmd.take k.length = k := by
  rcases h.cases with rfl | ⟨r, rfl⟩ | ⟨r, rfl⟩
  · exact List.take_length
  · exact List.take_left
  · exact List.take_left

theorem take_keywordText : (keywordText n ns).take n.text.length = n.text := List.take_left

theorem drop_keywordText : (keywordText n ns).drop n.text.length = n.closing ++ tailText ns :=
  List.drop_left

theorem matchLoop_miss (h : Starts k cmd) (hno : (numbers.keyword n.text k).1 = false) :
    matchLoop (fuel + 1) (keywordText n ns) cmd n.brackets numbers =
      match ns with
      | [] => some (false, (numbers.keyword n.text k).2)
      | m :: ms =>
        if n.optional then
          matchLoop fuel (keywordText m ms) cmd m.brackets (numbers.keyword n.text k).2
        else some (false, (numbers.keyword n.text k).2) := by
  rw [matchLoop]
  simp only [sepPos_keywordText, h.sepPos, take_keywordText, drop_keywordText, h.take, hno,
    Bool.false_eq_true, if_false]
  cases ns with
  | nil =>
    unfold PatternNode.closing
    cases n.optional <;> rfl
  | cons m ms =>
    show _ = if n.optional then
      matchLoop fuel (keywordText m ms) cmd m.brackets (numbers.keyword n.text k).2
      else some (false, (numbers.keyword n.text k).2)
    rw [closing_tailText_cons]
    unfold between PatternNode.closing PatternNode.opening PatternNode.brackets
    cases n.optional <;> cases m.optional <;> rfl

theorem matchLoop_take_last (hk : Free [58, 63] k) (hacc : (numbers.keyword n.text k).1 = true) :
    matchLoop (fuel + 1) (keywordText n ns) k n.brackets numbers =
      some (ns.all (·.optional), (numbers.keyword n.text k).2) := by
  have h : Starts k k := ⟨hk, .inl rfl⟩
  rw [matchLoop]
  simp only [sepPos_keywordText, h.sepPos, take_keywordText, drop_keywordText, h.take,
    List.drop_length, hacc, if_true, List.isEmpty_nil, and_true]
  unfold PatternNode.closing PatternNode.brackets
  cases n.optional with
  | true =>
    have hclose := matchRest_close (n := (93 :: tailText ns).length) (s := []) (t := tailText ns) nofun
    have hrest := hclose.trans (matchRest_closed (by simp))
    simp only [if_true]
    exact congrArg (Option.map fun result => (result, (numbers.keyword n.text k).2)) hrest
  | false =>
    cases ns with
    | nil => rfl
    | cons m ms =>
      have hne : (tailText (m :: ms)).isEmpty = false := by
        rw [tailText_cons]
        simp [m.text_ne_nil]
      simp only [Bool.false_eq_true, if_false, List.nil_append, hne,
        matchRest_tail (List.cons_ne_nil m ms) (Nat.lt_succ_self _), Option.map_some]

theorem matchLoop_take_colon (hk : Free [58, 63] k) (hacc : (numbers.keyword n.text k).1 = true) :
    matchLoop (fuel + 1) (keywordText n ns) (k ++ 58 :: r) n.brackets numbers =
      match ns with
      | [] => some (false, (numbers.keyword n.text k).2)
      | m :: ms => matchLoop fuel (keywordText m ms) r m.brackets (numbers.keyword n.text k).2 := by
  have h : Starts k (k ++ 58 :: r) := ⟨hk, .inr (.inl ⟨r, rfl⟩)⟩
  rw [matchLoop]
  simp only [sepPos_keywordText, h.sepPos, take_keywordText, drop_keywordText, h.take,
    List.drop_left, hacc, if_true]
  cases ns with
  | nil =>
    unfold PatternNode.closing
    cases n.optional <;> rfl
  | cons m ms =>
    show _ = matchLoop fuel (keywordText m ms) r m.brackets (numbers.keyword n.text k).2
    rw [closing_tailText_cons]
    unfold between PatternNode.closing PatternNode.opening PatternNode.brackets
    cases n.optional <;> cases m.optional <;> rfl

theorem matchLoop_take_query (hk : Free [58, 63] k) (hacc : (numbers.keyword n.text k).1 = true) :
    matchLoop (fuel + 1) (keywordText n ns) (k ++ 63 :: r) n.brackets numbers =
      some (false, (numbers.keyword n.text k).2) := by
  have h : Starts k (k ++ 63 :: r) := ⟨hk, .inr (.inr ⟨r, rfl⟩)⟩
  rw [matchLoop]
  simp only [sepPos_keywordText, h.sepPos, take_keywordText, drop_keywordText, h.take,
    List.drop_left, hacc, if_true]
  -- no branch of the pattern takes a question mark
  have hhead : (63 :: r)[0]? = some (63 : Byte) := rfl
  have hne : ∀ o : Option Byte, o = some 63 → o ≠ some 58 := by
    rintro o rfl
    decide
  generalize n.closing ++ tailText ns = pattern
  have hcmd : (63 :: r).isEmpty = false := rfl
  simp only [hhead, hcmd, Bool.false_eq_true, and_false, if_false]
  split
  · rfl
  · rw [if_neg fun h => hne _ h.1 h.2, if_neg fun h => hne _ h.1 h.2.2,
      if_neg fun h => hne _ h.1 h.2.2, if_neg fun h => hne _ h.1 h.2.2.2]

theorem exists_starts (hcmd : 0 ∉ cmd) : ∃ k, Starts k cmd := by
  induction cmd with
  | nil => exact ⟨[], nofun, .inl rfl⟩
  | cons c cmd ih =>
    obtain ⟨hc, hcmd⟩ := not_or.mp (mt List.mem_cons.mpr hcmd)
    by_cases h58 : c = 58
    · exact ⟨[], nofun, .inr (.inl ⟨cmd, by rw [h58]; rfl⟩)⟩
    by_cases h63 : c = 63
    · exact ⟨[], nofun, .inr (.inr ⟨cmd, by rw [h63]; rfl⟩)⟩
    obtain ⟨k, hk, hcases⟩ := ih hcmd
    refine ⟨c :: k, ?_, ?_⟩
    · intro d hd
      rcases List.mem_cons.mp hd with rfl | hd
      · exact ⟨Ne.symm hc, by simp [h58, h63]⟩
      · exact hk d hd
    · rcases hcases with rfl | ⟨r, rfl⟩ | ⟨r, rfl⟩
      · exact .inl rfl
      · exact .inr (.inl ⟨r, rfl⟩)
      · exact .inr (.inr ⟨r, rfl⟩)

theorem greedy_nodes (n : PatternNode) (ns : List PatternNode) (key : Text) (keys : List Text) :
    greedy ((n :: ns).map PatternNode.node) (key :: keys) =
      if n.accepts key then greedy (ns.map PatternNode.node) keys
      else n.optional && greedy (ns.map PatternNode.node) (key :: keys) := rfl

theorem splitOn_query (hk : 58 ∉ k) (r : Text) :
    ∃ t keys, (k ++ 63 :: r).splitOn 58 = (k ++ 63 :: t) :: keys := by
  by_cases hr : 58 ∈ r
  · obtain ⟨t, u, rfl, ht⟩ := List.eq_append_cons_of_mem hr
    have hno : 58 ∉ k ++ 63 :: t := by simp [hk, ht]
    refine ⟨t, u.splitOn 58, ?_⟩
    rw [← List.cons_append, ← List.append_assoc]
    exact List.splitOn_append_cons_self_of_not_mem hno u
  · exact ⟨r, [], List.splitOn_eq_singleton (by simp [hk, hr])⟩

theorem accepts_query (n : PatternNode) (k t : Text) : n.accepts (k ++ 63 :: t) = false := by
  by_contra h
  exact (n.accepts_plain (by simpa using h)).2.2 (by simp)

theorem greedy_query (ns : List PatternNode) (hk : 58 ∉ k) (r : Text) :
    greedy (ns.map PatternNode.node) ((k ++ 63 :: r).splitOn 58) = false := by
  obtain ⟨t, keys, hkeys⟩ := splitOn_query hk r
  rw [hkeys]
  refine Lib.greedy_of_rejected fun m hm => ?_
  obtain ⟨n, -, rfl⟩ := List.mem_map.mp hm
  exact accepts_query n k t

/-- One round of the loop, if the rounds that may follow are right. -/
theorem matchLoop_round (hcmd : 0 ∉ cmd) (hnull : numbers.values = none)
    (hrec : ∀ m ms, ns = m :: ms → ∀ (cmd : Text) (numbers : Numbers), 0 ∉ cmd →
      numbers.values = none → (matchLoop fuel (keywordText m ms) cmd m.brackets numbers).map (·.1) =
        some (greedy ((m :: ms).map PatternNode.node) (cmd.splitOn 58))) :
    (matchLoop (fuel + 1) (keywordText n ns) cmd n.brackets numbers).map (·.1) =
      some (greedy ((n :: ns).map PatternNode.node) (cmd.splitOn 58)) := by
  obtain ⟨k, hstarts⟩ := exists_starts hcmd
  have hk := hstarts.free
  have hcases := hstarts.cases
  have hcolon : 58 ∉ k := fun h => (hk 58 h).2 (by decide)
  obtain ⟨hkeyword, hnull⟩ := n.keyword_null hnull k
  by_cases hacc : n.accepts k = true
  · rw [hacc] at hkeyword
    rcases hcases with rfl | ⟨r, rfl⟩ | ⟨r, rfl⟩
    · rw [matchLoop_take_last hk hkeyword, List.splitOn_eq_singleton hcolon, greedy_nodes,
        if_pos hacc, Lib.greedy_nil_right, List.all_map]
      rfl
    · rw [matchLoop_take_colon hk hkeyword, List.splitOn_append_cons_self_of_not_mem hcolon,
        greedy_nodes, if_pos hacc]
      cases ns with
      | nil =>
        obtain ⟨k', ks, hks⟩ := List.exists_cons_of_ne_nil (List.splitOn_ne_nil 58 r)
        rw [hks]
        rfl
      | cons m ms =>
        exact hrec m ms rfl r _ (fun h => hcmd (List.mem_append_right _ (.tail _ h))) hnull
    · rw [matchLoop_take_query hk hkeyword, greedy_query _ hcolon]
      rfl
  · rw [Bool.not_eq_true] at hacc
    rw [hacc] at hkeyword
    -- the key of the command is `k`, or has a question mark in it
    obtain ⟨key, ks, hkeys, hreject⟩ :
        ∃ key ks, cmd.splitOn 58 = key :: ks ∧ n.accepts key = false := by
      rcases hcases with rfl | ⟨r, rfl⟩ | ⟨r, rfl⟩
      · exact ⟨cmd, [], List.splitOn_eq_singleton hcolon, hacc⟩
      · exact ⟨k, _, List.splitOn_append_cons_self_of_not_mem hcolon r, hacc⟩
      · obtain ⟨t, keys, hkeys⟩ := splitOn_query hcolon r
        exact ⟨_, keys, hkeys, accepts_query n k t⟩
    rw [matchLoop_miss hstarts hkeyword, hkeys, greedy_nodes, if_neg (by rw [hreject]; decide)]
    cases ns with
    | nil => simp
    | cons m ms =>
      have hrest := hrec m ms rfl cmd _ hcmd hnull
      rw [hkeys] at hrest
      cases n.optional with
      | true => exact hrest
      | false => rfl

/-- The loop is a greedy pass over the keywords. -/
theorem matchLoop_eq (hcmd : 0 ∉ cmd) (hnull : numbers.values = none)
    (hfuel : (keywordText n ns).length < fuel) :
    (matchLoop fuel (keywordText n ns) cmd n.brackets numbers).map (·.1) =
      some (greedy ((n :: ns).map PatternNode.node) (cmd.splitOn 58)) := by
  induction ns generalizing n cmd fuel numbers with
  | nil =>
    obtain ⟨fuel, rfl⟩ : ∃ k, fuel = k + 1 := ⟨fuel - 1, by omega⟩
    exact matchLoop_round hcmd hnull nofun
  | cons m ms ih =>
    obtain ⟨fuel, rfl⟩ : ∃ k, fuel = k + 1 := ⟨fuel - 1, by omega⟩
    refine matchLoop_round hcmd hnull fun m' ms' h cmd numbers hcmd hnull => ?_
    obtain ⟨rfl, rfl⟩ := List.cons.inj h
    refine ih hcmd hnull ?_
    have := keywordText_length n m ms
    omega

end Loop

/-! ## Whole headers -/

/-- A key of a path is not empty and has no separator in it. -/
theorem nodes_plain {ns : List PatternNode} {ks : List Text}
    (h : Spells (ns.map PatternNode.node) ks) : ∀ k ∈ ks, k ≠ [] ∧ 58 ∉ k ∧ 63 ∉ k := by
  intro k hk
  obtain ⟨m, hm, hacc⟩ := h.accepted k hk
  obtain ⟨n, -, rfl⟩ := List.mem_map.mp hm
  exact n.accepts_plain hacc

namespace Pattern

variable (p : Pattern)

/-- The greedy pass over a header without its question mark. -/
def matchPath (cmd : Text) : Bool :=
  match skipCmdStart cmd with
  | some cmd => greedy p.nodes (cmd.splitOn 58)
  | none => false

theorem skipPatternStart_body :
    skipPatternStart p.body = (keywordText p.first p.rest, p.first.brackets) := by
  have hbody : p.body = (if p.first.optional then [91, 58] else []) ++ keywordText p.first p.rest := rfl
  rw [hbody]
  unfold skipPatternStart PatternNode.brackets
  cases p.first.optional with
  | true => rfl
  | false =>
    have h91 : (keywordText p.first p.rest).head? ≠ some 91 := p.first.text_head (by decide) _
    have h58 : (keywordText p.first p.rest).head? ≠ some 58 := p.first.text_head (by decide) _
    simp only [Bool.false_eq_true, if_false, List.nil_append, h91, h58]

theorem skipCmdStart_free {cmd cmd' : Text} (h : skipCmdStart cmd = some cmd') (hcmd : 0 ∉ cmd) :
    0 ∉ cmd' := by
  unfold skipCmdStart at h
  split at h
  · split at h
    · rw [← Option.some.inj h]
      exact fun hz => hcmd (.tail _ hz)
    · cases h
  · rwa [← Option.some.inj h]

theorem matchKeywords_body {cmd : Text} (hcmd : 0 ∉ cmd) :
    (matchKeywords p.body cmd .null).map (·.1) = some (p.matchPath cmd) := by
  unfold matchKeywords matchPath
  rw [p.skipPatternStart_body]
  cases h : skipCmdStart cmd with
  | none => rfl
  | some cmd' => exact matchLoop_eq (skipCmdStart_free h hcmd) rfl (Nat.lt_succ_self _)

theorem exists_keys {cmd : Text} (h : greedy p.nodes (cmd.splitOn 58) = true) :
    ∃ k ks, Spells p.nodes (k :: ks) ∧ cmd = [58].intercalate (k :: ks) := by
  obtain ⟨k, ks, hkeys⟩ := List.exists_cons_of_ne_nil (List.splitOn_ne_nil 58 cmd)
  rw [hkeys] at h
  exact ⟨k, ks, Lib.spells_of_greedy h, by rw [← hkeys, List.intercalate_splitOn]⟩

theorem key_plain {ks : List Text} (h : Spells p.nodes ks) : ∀ k ∈ ks, k ≠ [] ∧ 58 ∉ k ∧ 63 ∉ k :=
  nodes_plain h

theorem splitOn_keys {k : Text} {ks : List Text} (h : Spells p.nodes (k :: ks)) :
    ([58].intercalate (k :: ks)).splitOn 58 = k :: ks :=
  List.splitOn_intercalate 58 (fun key hkey => (p.key_plain h key hkey).2.1) nofun

theorem head_keys {k : Text} (ks : List Text) (hk : k ≠ []) :
    ∃ t, [58].intercalate (k :: ks) = k.head hk :: t := by
  obtain ⟨c, k, rfl⟩ := List.exists_cons_of_ne_nil hk
  exact ⟨_, List.intercalate_cons_cons_left⟩

theorem spelledPath_of_matchPath {cmd : Text} (h : p.matchPath cmd = true) : p.SpelledPath cmd := by
  unfold matchPath skipCmdStart at h
  split at h
  · rename_i hskip
    split at hskip
    · rename_i c rest
      split at hskip
      · rename_i hstar
        rw [← Option.some.inj hskip] at h
        obtain ⟨k, ks, hspells, hcmd⟩ := p.exists_keys h
        obtain ⟨hne, -⟩ := p.key_plain hspells k (List.mem_cons_self ..)
        obtain ⟨t, hhead⟩ := head_keys ks hne
        refine ⟨k, ks, hspells, .inr ⟨by rw [hcmd], ?_⟩⟩
        rw [hhead] at hcmd
        rw [List.head?_eq_some_head hne, ← (List.cons.inj hcmd).1]
        exact fun heq => hstar (Option.some.inj heq)
      · cases hskip
    · rw [← Option.some.inj hskip] at h
      obtain ⟨k, ks, hspells, hcmd⟩ := p.exists_keys h
      exact ⟨k, ks, hspells, .inl hcmd⟩
  · cases h

theorem skipCmdStart_path {k : Text} {ks : List Text} (hspells : Spells p.nodes (k :: ks)) {cmd : Text}
    (hcmd : cmd = [58].intercalate (k :: ks) ∨
      cmd = 58 :: [58].intercalate (k :: ks) ∧ k.head? ≠ some 42) :
    skipCmdStart cmd = some ([58].intercalate (k :: ks)) := by
  obtain ⟨hne, hcolon, -⟩ := p.key_plain hspells k (List.mem_cons_self ..)
  obtain ⟨t, hhead⟩ := head_keys ks hne
  rcases hcmd with rfl | ⟨rfl, hstar⟩
  · rw [hhead]
    have h58 : k.head hne ≠ 58 := fun heq => hcolon (heq ▸ List.head_mem hne)
    unfold skipCmdStart
    split
    · rename_i heq
      exact absurd (List.cons.inj heq).1 h58
    · rfl
  · rw [hhead]
    rw [List.head?_eq_some_head hne] at hstar
    exact if_pos fun heq => hstar (congrArg some heq)

theorem matchPath_of_spelledPath {cmd : Text} (hsep : Separate p.nodes) (h : p.SpelledPath cmd) :
    p.matchPath cmd = true := by
  obtain ⟨k, ks, hspells, hcmd⟩ := h
  have hgreedy : greedy p.nodes (([58].intercalate (k :: ks)).splitOn 58) = true := by
    rw [p.splitOn_keys hspells]
    exact Lib.greedy_of_spells hsep hspells
  unfold matchPath
  rw [p.skipCmdStart_path hspells hcmd]
  exact hgreedy

theorem tailText_free (ns : List PatternNode) : 63 ∉ tailText ns := by
  induction ns with
  | nil => nofun
  | cons n ns ih =>
    have htext : 63 ∉ n.text := fun h => (n.text_free 63 h).2 (by decide)
    rw [tailText_cons]
    unfold PatternNode.opening PatternNode.closing
    cases n.optional <;> simp [htext, ih]

/-- The last character of a pattern tells whether it is one of a query. -/
theorem body_last : ∃ c, p.body.getLast? = some c ∧ c ≠ 63 := by
  have hfree : 63 ∉ p.body := by
    have htext : 63 ∉ p.first.text := fun h => (p.first.text_free 63 h).2 (by decide)
    have htail := tailText_free p.rest
    unfold body PatternNode.closing
    cases p.first.optional <;> simp [htext, htail]
  have hne : p.body ≠ [] := by
    unfold body
    simp [p.first.text_ne_nil]
  refine ⟨p.body.getLast hne, List.getLast?_eq_some_getLast hne, fun h => hfree ?_⟩
  rw [← h]
  exact List.getLast_mem hne

theorem takeWhile_free (cmd : Text) : 0 ∉ cmd.takeWhile (· != 0) := by
  intro h
  have := List.all_takeWhile (p := (· != 0)) (l := cmd)
  rw [List.all_eq_true] at this
  exact absurd (this 0 h) (by decide)

theorem takeWhile_header {header : Text} (hzero : 0 ∉ header) :
    header.takeWhile (· != 0) = header := by
  rw [List.takeWhile_eq_self_iff]
  intro c hc
  rw [bne_iff_ne]
  exact fun h => hzero (h ▸ hc)

/-- The question marks of pattern and header go together. -/
theorem matchCommand_text {path : Text} (hpath : 0 ∉ path) (numbers : Numbers) :
    matchCommand p.text (path ++ if p.query then [63] else []) numbers =
      matchKeywords p.body path numbers := by
  obtain ⟨c, hlast, hc⟩ := p.body_last
  unfold matchCommand text
  cases p.query with
  | true =>
    have hmark : 0 ∉ path ++ [63] := by simp [hpath]
    simp only [if_true, takeWhile_header hmark, List.getLast?_concat, List.dropLast_concat]
  | false =>
    simp only [Bool.false_eq_true, if_false, List.append_nil, takeWhile_header hpath, hlast]

/-- What `SCPI_Match` takes for a pattern spells it, and where no two keywords of the pattern
compete for a header it takes all that spells it. -/
theorem scpiMatch_spelled (p : Pattern) {cmd : Text} (hcmd : cmd.takeWhile (· != 0) ≠ []) :
    ∃ b, scpiMatch p.text cmd = some b ∧ (b = true → p.Spelled (cmd.takeWhile (· != 0))) ∧
      (Separate p.nodes → p.Spelled (cmd.takeWhile (· != 0)) → b = true) := by
  have hfree := takeWhile_free cmd
  unfold scpiMatch matchCommand Spelled
  generalize cmd.takeWhile (· != 0) = cmd at hcmd hfree
  obtain ⟨c, hlast, hc⟩ := p.body_last
  unfold text
  cases hquery : p.query with
  | false =>
    simp only [Bool.false_eq_true, if_false, List.append_nil, hlast]
    refine ⟨p.matchPath cmd, p.matchKeywords_body hfree, fun h => ?_, ?_⟩
    · exact ⟨cmd, p.spelledPath_of_matchPath h, rfl⟩
    · rintro hsep ⟨path, hpath, rfl⟩
      exact p.matchPath_of_spelledPath hsep hpath
  | true =>
    obtain ⟨cmd, d, rfl⟩ : ∃ init d, cmd = init ++ [d] :=
      ⟨cmd.dropLast, cmd.getLast hcmd, (List.dropLast_append_getLast hcmd).symm⟩
    have hfree' : 0 ∉ cmd := fun h => hfree (List.mem_append_left _ h)
    simp only [if_true, List.getLast?_concat, List.dropLast_concat]
    by_cases hd : d = 63
    · subst hd
      refine ⟨p.matchPath cmd, p.matchKeywords_body hfree', fun h => ?_, ?_⟩
      · exact ⟨cmd, p.spelledPath_of_matchPath h, rfl⟩
      · rintro hsep ⟨path, hpath, heq⟩
        rw [(List.append_inj' heq rfl).1]
        exact p.matchPath_of_spelledPath hsep hpath
    · refine ⟨false, ?_, nofun, ?_⟩
      · split
        · rename_i h
          cases h
        · rename_i h
          exact absurd (Option.some.inj h) hd
        · rfl
      · rintro - ⟨path, -, heq⟩
        exact absurd (List.cons.inj (List.append_inj' heq rfl).2).1 hd

end Pattern

end XHeepFemu.Scpi
