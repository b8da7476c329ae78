import Mathlib.Data.List.Basic

/-!
# Escaped lines

A framing of messages over an arbitrary alphabet: a message is sent as its
symbols, each special one behind an escape symbol, and ends with an end symbol.
`feed` is a receiver that takes one symbol at a time and holds at most `cap`
of them: a full line ends by itself. `encode` after `feed` is the identity on
non-empty messages that fit, whatever end symbols follow; the receiver reports
the surplus ends as empty lines.
-/

namespace XHeepFemu.Lib

variable {α : Type}

/-- The special symbols of an alphabet. -/
structure Escaping (α : Type) where
  esc : α
  isEnd : α → Bool
  esc_not_end : isEnd esc = false

namespace Escaping

variable (X : Escaping α) (cap : Nat) {line m t as : List α} {a : α}

/-- A line in progress. -/
structure Partial (α : Type) where
  line : List α
  escaped : Bool
  deriving DecidableEq

def Partial.empty : Partial α := ⟨[], false⟩

inductive Fed (α : Type) where
  | more (p : Partial α)
  | line (l : List α)

/-- Store a symbol; the line may be full then. -/
def push (line : List α) (a : α) : Fed α :=
  if (line ++ [a]).length < cap then .more ⟨line ++ [a], false⟩ else .line (line ++ [a])

variable {cap} in
theorem push_more (h : line.length + 1 < cap) : push cap line a = .more ⟨line ++ [a], false⟩ := by
  rw [push, if_pos (by simpa using h)]

variable {cap} in
theorem push_line (h : cap ≤ line.length + 1) : push cap line a = .line (line ++ [a]) := by
  rw [push, if_neg (by simpa using h)]

variable [DecidableEq α]

def encode : List α → List α
  | [] => []
  | a :: as => if a = X.esc ∨ X.isEnd a = true then X.esc :: a :: encode as else a :: encode as

theorem encode_cons : X.encode (a :: m) =
    if a = X.esc ∨ X.isEnd a = true then X.esc :: a :: X.encode m else a :: X.encode m := rfl

def feed (p : Partial α) (a : α) : Fed α :=
  if a = X.esc then
    if p.escaped then push cap p.line a else .more { p with escaped := true }
  else if X.isEnd a then
    if p.escaped then push cap p.line a else .line p.line
  else push cap p.line a

/-- The lines a stream completes, and what is left in progress. -/
def feedAll (p : Partial α) : List α → List (List α) × Partial α
  | [] => ([], p)
  | a :: as =>
    match X.feed cap p a with
    | .more q => feedAll q as
    | .line l => (l :: (feedAll .empty as).1, (feedAll .empty as).2)

/-- The lines with something in them. -/
def messages (p : Partial α) (as : List α) : List (List α) :=
  (X.feedAll cap p as).1.filter (!·.isEmpty)

variable {X cap} {p : Partial α}

theorem feedAll_more {q : Partial α} (h : X.feed cap p a = .more q) :
    X.feedAll cap p (a :: as) = X.feedAll cap q as := by
  simp only [feedAll, h]

theorem feedAll_line {l : List α} (h : X.feed cap p a = .line l) :
    X.feedAll cap p (a :: as) =
      (l :: (X.feedAll cap .empty as).1, (X.feedAll cap .empty as).2) := by
  simp only [feedAll, h]

theorem feed_push (h : p.escaped = true ∨ a ≠ X.esc ∧ X.isEnd a = false) :
    X.feed cap p a = push cap p.line a := by
  unfold feed
  rcases h with h | ⟨hne, hend⟩
  · simp only [h, if_true, ite_self]
  · simp only [if_neg hne, hend, Bool.false_eq_true, if_false]

theorem feed_esc (h : p.escaped = false) :
    X.feed cap p X.esc = .more { p with escaped := true } := by
  simp only [feed, if_true, h, Bool.false_eq_true, if_false]

theorem feed_end (h : p.escaped = false) (ha : X.isEnd a = true) :
    X.feed cap p a = .line p.line := by
  have hne : a ≠ X.esc := fun e => by rw [e, X.esc_not_end] at ha; cases ha
  simp only [feed, if_neg hne, ha, if_true, h, Bool.false_eq_true, if_false]

theorem feedAll_encode_cons :
    X.feedAll cap ⟨line, false⟩ (X.encode (a :: m) ++ as) =
      match push cap line a with
      | .more q => X.feedAll cap q (X.encode m ++ as)
      | .line l => (l :: (X.feedAll cap .empty (X.encode m ++ as)).1,
          (X.feedAll cap .empty (X.encode m ++ as)).2) := by
  rw [encode_cons]
  split
  · rw [List.cons_append, feedAll_more (feed_esc rfl), List.cons_append]
    cases h : push cap line a with
    | more q => exact feedAll_more ((feed_push (p := ⟨line, true⟩) (.inl rfl)).trans h)
    | line l => exact feedAll_line ((feed_push (p := ⟨line, true⟩) (.inl rfl)).trans h)
  · rename_i hplain
    rw [not_or, Bool.not_eq_true] at hplain
    rw [List.cons_append]
    cases h : push cap line a with
    | more q => exact feedAll_more ((feed_push (p := ⟨line, false⟩) (.inr hplain)).trans h)
    | line l => exact feedAll_line ((feed_push (p := ⟨line, false⟩) (.inr hplain)).trans h)

/-- A message that leaves room is in progress after its encoding. -/
theorem feedAll_encode_room (h : line.length + m.length < cap) :
    X.feedAll cap ⟨line, false⟩ (X.encode m ++ as) = X.feedAll cap ⟨line ++ m, false⟩ as := by
  induction m generalizing line with
  | nil => rw [encode, List.nil_append, List.append_nil]
  | cons a m ih =>
    rw [List.length_cons] at h
    rw [feedAll_encode_cons, push_more (by omega)]
    simp only
    rw [ih (by rw [List.length_append, List.length_singleton]; omega), List.append_assoc,
      List.singleton_append]

/-- A message that fills the line completes it by itself. -/
theorem feedAll_encode_full (hm : m ≠ []) (h : line.length + m.length = cap) :
    X.feedAll cap ⟨line, false⟩ (X.encode m ++ as) =
      ((line ++ m) :: (X.feedAll cap .empty as).1, (X.feedAll cap .empty as).2) := by
  induction m generalizing line with
  | nil => exact absurd rfl hm
  | cons a m ih =>
    rw [List.length_cons] at h
    rw [feedAll_encode_cons]
    by_cases hlast : m = []
    · subst hlast
      rw [List.length_nil] at h
      rw [push_line (by omega), encode, List.nil_append]
    · have hpos := List.length_pos_iff.mpr hlast
      rw [push_more (by omega)]
      simp only
      rw [ih hlast (by rw [List.length_append, List.length_singleton]; omega), List.append_assoc,
        List.singleton_append]

/-- End symbols with nothing in progress complete empty lines only. -/
theorem feedAll_ends (ht : ∀ a ∈ t, X.isEnd a = true) :
    X.messages cap .empty (t ++ as) = X.messages cap .empty as ∧
      (X.feedAll cap .empty (t ++ as)).2 = (X.feedAll cap .empty as).2 := by
  induction t with
  | nil => exact ⟨rfl, rfl⟩
  | cons a t ih =>
    have ih := ih fun b hb => ht b (List.mem_cons_of_mem _ hb)
    have hfeed : X.feedAll cap .empty (a :: (t ++ as)) = _ :=
      feedAll_line (feed_end rfl (ht a List.mem_cons_self))
    rw [List.cons_append]
    refine ⟨?_, by rw [hfeed]; exact ih.2⟩
    rw [← ih.1, messages, hfeed]
    simp [Partial.empty, messages]

theorem feedAll_message (hm : m ≠ []) (hcap : m.length ≤ cap) (ht : t ≠ [])
    (hends : ∀ a ∈ t, X.isEnd a = true) :
    X.messages cap .empty (X.encode m ++ (t ++ as)) = m :: X.messages cap .empty as ∧
      (X.feedAll cap .empty (X.encode m ++ (t ++ as))).2 = (X.feedAll cap .empty as).2 := by
  have keep : (!m.isEmpty) = true := by simpa using hm
  rcases Nat.lt_or_eq_of_le hcap with hlt | heq
  · -- the first end symbol completes the message
    obtain ⟨e, t, rfl⟩ := List.exists_cons_of_ne_nil ht
    have hrest : X.messages cap .empty (t ++ as) = X.messages cap .empty as ∧
        (X.feedAll cap .empty (t ++ as)).2 = (X.feedAll cap .empty as).2 :=
      feedAll_ends fun b hb => hends b (List.mem_cons_of_mem _ hb)
    have hroom : X.feedAll cap ⟨[], false⟩ (X.encode m ++ (e :: t ++ as)) =
        X.feedAll cap ⟨[] ++ m, false⟩ (e :: t ++ as) := feedAll_encode_room (by simpa using hlt)
    rw [List.nil_append, List.cons_append,
      feedAll_line (feed_end (p := ⟨m, false⟩) rfl (hends e List.mem_cons_self))] at hroom
    unfold messages at hrest ⊢
    simp only [List.cons_append, Partial.empty, hroom, List.filter_cons, keep, if_true]
    exact ⟨congrArg _ hrest.1, hrest.2⟩
  · have hrest : X.messages cap .empty (t ++ as) = X.messages cap .empty as ∧
        (X.feedAll cap .empty (t ++ as)).2 = (X.feedAll cap .empty as).2 := feedAll_ends hends
    have hfull : X.feedAll cap ⟨[], false⟩ (X.encode m ++ (t ++ as)) = (([] ++ m) :: _, _) :=
      feedAll_encode_full hm (by simpa using heq)
    unfold messages at hrest ⊢
    rw [List.nil_append] at hfull
    simp only [Partial.empty, hfull, List.filter_cons, keep, if_true]
    exact ⟨congrArg _ hrest.1, hrest.2⟩

/-- Messages one after the other, each with its end symbols. -/
def stream (X : Escaping α) (ps : List (List α × List α)) : List α :=
  ps.flatMap fun p => X.encode p.1 ++ p.2

/-- **Round trip**: the receiver finds exactly the messages sent, and is idle after them. -/
theorem feedAll_stream {ps : List (List α × List α)}
    (h : ∀ p ∈ ps, p.1 ≠ [] ∧ p.1.length ≤ cap ∧ p.2 ≠ [] ∧ ∀ a ∈ p.2, X.isEnd a = true) :
    X.messages cap .empty (X.stream ps ++ as) = ps.map (·.1) ++ X.messages cap .empty as ∧
      (X.feedAll cap .empty (X.stream ps ++ as)).2 = (X.feedAll cap .empty as).2 := by
  induction ps with
  | nil => exact ⟨rfl, rfl⟩
  | cons p ps ih =>
    obtain ⟨hm, hcap, ht, hends⟩ := h p List.mem_cons_self
    have ih := ih fun q hq => h q (List.mem_cons_of_mem _ hq)
    have hone : X.messages cap .empty (X.encode p.1 ++ (p.2 ++ (X.stream ps ++ as))) = _ ∧ _ :=
      feedAll_message hm hcap ht hends
    unfold stream at ih hone ⊢
    rw [List.flatMap_cons, List.append_assoc, List.append_assoc, hone.1, hone.2, ih.1, ih.2]
    exact ⟨rfl, rfl⟩

end Escaping

end XHeepFemu.Lib
