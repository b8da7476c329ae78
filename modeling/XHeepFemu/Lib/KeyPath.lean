import Mathlib.Data.List.Basic
import Mathlib.Tactic.Common

/-!
# Paths with optional keys

A path pattern is a list of nodes, of which some may be left out. `Spells` is
its language. `greedy` decides it in one pass: a node takes a key whenever it
can, and no choice is taken back. What it accepts is in the language; where no
two nodes compete for a key it accepts all of the language. `separate` and
`disjoint` check patterns for this and against each other, given a test that
tells nodes apart.
-/

namespace XHeepFemu.Lib

variable {α : Type*}

structure KeyNode (α : Type*) where
  accepts : α → Bool
  optional : Bool

/-- The keys spell out the pattern. -/
inductive Spells : List (KeyNode α) → List α → Prop where
  | nil : Spells [] []
  | take {n : KeyNode α} {ns : List (KeyNode α)} {k : α} {ks : List α} :
      n.accepts k = true → Spells ns ks → Spells (n :: ns) (k :: ks)
  | skip {n : KeyNode α} {ns : List (KeyNode α)} {ks : List α} :
      n.optional = true → Spells ns ks → Spells (n :: ns) ks

/-- One pass over pattern and keys. -/
def greedy : List (KeyNode α) → List α → Bool
  | ns, [] => ns.all (·.optional)
  | [], _ :: _ => false
  | n :: ns, k :: ks => if n.accepts k then greedy ns ks else n.optional && greedy ns (k :: ks)

variable {n : KeyNode α} {ns : List (KeyNode α)} {k : α} {ks : List α}

@[simp] theorem greedy_nil_right (ns : List (KeyNode α)) :
    greedy ns [] = ns.all (·.optional) := by
  cases ns <;> rfl

@[simp] theorem greedy_nil_cons : greedy [] (k :: ks) = false := rfl

theorem greedy_cons :
    greedy (n :: ns) (k :: ks) =
      if n.accepts k then greedy ns ks else n.optional && greedy ns (k :: ks) := rfl

theorem spells_nil_iff : Spells ns [] ↔ ns.all (·.optional) = true := by
  induction ns with
  | nil => exact ⟨fun _ => rfl, fun _ => .nil⟩
  | cons n ns ih =>
    rw [List.all_cons, Bool.and_eq_true, ← ih]
    constructor
    · intro h
      cases h with
      | skip ho hs => exact ⟨ho, hs⟩
    · exact fun ⟨ho, hs⟩ => .skip ho hs

theorem Spells.accepted (h : Spells ns ks) : ∀ k ∈ ks, ∃ n ∈ ns, n.accepts k = true := by
  induction h with
  | nil => nofun
  | @take n ns k ks hacc _ ih =>
    intro key hkey
    rcases List.mem_cons.mp hkey with rfl | hkey
    · exact ⟨n, List.mem_cons_self .., hacc⟩
    · obtain ⟨m, hm, hmacc⟩ := ih key hkey
      exact ⟨m, List.mem_cons_of_mem _ hm, hmacc⟩
  | skip _ _ ih =>
    intro key hkey
    obtain ⟨m, hm, hmacc⟩ := ih key hkey
    exact ⟨m, List.mem_cons_of_mem _ hm, hmacc⟩

theorem spells_of_greedy (h : greedy ns ks = true) : Spells ns ks := by
  induction ns generalizing ks with
  | nil =>
    cases ks with
    | nil => exact .nil
    | cons k ks => cases h
  | cons n ns ih =>
    cases ks with
    | nil => exact spells_nil_iff.mpr (by rwa [greedy_nil_right] at h)
    | cons k ks =>
      rw [greedy_cons] at h
      split at h
      · rename_i hacc
        exact .take hacc (ih h)
      · rw [Bool.and_eq_true] at h
        exact .skip h.1 (ih h.2)

/-- A key that no node accepts. -/
theorem greedy_of_rejected (h : ∀ n ∈ ns, n.accepts k = false) : greedy ns (k :: ks) = false := by
  induction ns with
  | nil => rfl
  | cons n ns ih =>
    rw [greedy_cons, h n (List.mem_cons_self ..), ih fun m hm => h m (List.mem_cons_of_mem _ hm)]
    simp

/-- The nodes that may take the first key. -/
def openings : List (KeyNode α) → List (KeyNode α)
  | [] => []
  | n :: ns => n :: if n.optional then openings ns else []

/-- A node that may be left out competes for no key with those that then may take it. -/
def Separate : List (KeyNode α) → Prop
  | [] => True
  | n :: ns =>
    (n.optional = true → ∀ m ∈ openings ns, ∀ k, n.accepts k = true → m.accepts k = false) ∧
      Separate ns

theorem Spells.opening (h : Spells ns (k :: ks)) : ∃ m ∈ openings ns, m.accepts k = true := by
  induction ns with
  | nil => cases h
  | cons n ns ih =>
    cases h with
    | take hacc _ => exact ⟨n, List.mem_cons_self .., hacc⟩
    | skip ho hs =>
      obtain ⟨m, hm, hacc⟩ := ih hs
      refine ⟨m, ?_, hacc⟩
      rw [openings, if_pos ho]
      exact List.mem_cons_of_mem _ hm

theorem greedy_of_spells (hsep : Separate ns) (h : Spells ns ks) : greedy ns ks = true := by
  induction h with
  | nil => rfl
  | take hacc _ ih => rw [greedy_cons, if_pos hacc, ih hsep.2]
  | @skip n ns ks ho hs ih =>
    have hrest := ih hsep.2
    cases ks with
    | nil =>
      rw [greedy_nil_right] at hrest ⊢
      rw [List.all_cons, ho, hrest]
      rfl
    | cons k ks =>
      have hfree : n.accepts k = false := by
        obtain ⟨m, hm, hacc⟩ := hs.opening
        by_contra hno
        have := hsep.1 ho m hm k (by simpa using hno)
        rw [hacc] at this
        cases this
      rw [greedy_cons, hfree, ho, hrest]
      rfl

/-! ## Checking patterns -/

section Check

variable {ν : Type*} (node : ν → KeyNode α) (apart : ν → ν → Bool)

def heads : List ν → List ν
  | [] => []
  | n :: ns => n :: if (node n).optional then heads ns else []

/-- Decides `Separate`, as far as `apart` tells nodes apart. -/
def separate : List ν → Bool
  | [] => true
  | n :: ns => (!(node n).optional || (heads node ns).all (apart n)) && separate ns

/-- One pattern against the suffixes of another; `rest` does it behind the first node. -/
def disjointFrom (n : ν) (ns : List ν) (rest : List ν → Bool) : List ν → Bool
  | [] => !(n :: ns).all fun n => (node n).optional
  | m :: ms => (apart n m || rest ms) && (!(node n).optional || rest (m :: ms)) &&
      (!(node m).optional || disjointFrom n ns rest ms)

/-- Whatever the two patterns leave out, their keys come apart. -/
def disjoint : List ν → List ν → Bool
  | [], ms => !ms.all fun m => (node m).optional
  | n :: ns, ms => disjointFrom node apart n ns (disjoint ns) ms

variable {node apart}

theorem openings_map (ns : List ν) : openings (ns.map node) = (heads node ns).map node := by
  induction ns with
  | nil => rfl
  | cons n ns ih =>
    rw [List.map_cons, openings, heads, ih]
    split <;> rfl

/-- Nodes that are told apart take no key in common. -/
def Sound (node : ν → KeyNode α) (apart : ν → ν → Bool) : Prop :=
  ∀ n m, apart n m = true → ∀ k, (node n).accepts k = true → (node m).accepts k = false

theorem separate_sound (hapart : Sound node apart) {ns : List ν}
    (h : separate node apart ns = true) : Separate (ns.map node) := by
  induction ns with
  | nil => trivial
  | cons n ns ih =>
    rw [separate, Bool.and_eq_true] at h
    refine ⟨fun ho m hm => ?_, ih h.2⟩
    rw [openings_map] at hm
    obtain ⟨m', hm', rfl⟩ := List.mem_map.mp hm
    have hall := h.1
    rw [ho, Bool.not_true, Bool.false_or, List.all_eq_true] at hall
    exact hapart n m' (hall m' hm')

theorem spells_all_optional {ns : List ν} (h : Spells (ns.map node) ([] : List α)) :
    ns.all (fun n => (node n).optional) = true := by
  have := spells_nil_iff.mp h
  rwa [List.all_map] at this

/-- No keys spell disjoint patterns. -/
theorem disjoint_sound (hapart : Sound node apart) {ns ms : List ν} {ks : List α}
    (h : disjoint node apart ns ms = true) (hn : Spells (ns.map node) ks) :
    ¬Spells (ms.map node) ks := by
  induction ns generalizing ms ks with
  | nil =>
    intro hm
    cases hn
    rw [disjoint, spells_all_optional hm] at h
    cases h
  | cons n ns ih =>
    induction ms generalizing ks with
    | nil =>
      intro hm
      cases hm
      rw [disjoint, disjointFrom, spells_all_optional hn] at h
      cases h
    | cons m ms ihm =>
      rw [disjoint, disjointFrom, Bool.and_eq_true, Bool.and_eq_true, Bool.or_eq_true,
        Bool.or_eq_true, Bool.or_eq_true] at h
      obtain ⟨⟨htake, hskip⟩, hskip'⟩ := h
      intro hm
      rw [List.map_cons] at hn
      cases hn with
      | skip ho hs =>
        have hrest := hskip.resolve_left (by rw [ho]; exact nofun)
        exact ih hrest hs hm
      | take hacc hs =>
        rw [List.map_cons] at hm
        cases hm with
        | take hacc' hs' =>
          rcases htake with hclash | hrest
          · rw [hapart n m hclash _ hacc] at hacc'
            cases hacc'
          · exact ih hrest hs hs'
        | skip ho hs' =>
          have hrest := hskip'.resolve_left (by rw [ho]; exact nofun)
          exact ihm hrest (.take hacc hs) hs'

end Check

end XHeepFemu.Lib
