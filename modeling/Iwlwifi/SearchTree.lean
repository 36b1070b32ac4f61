import Mathlib.Tactic

/-! # Binary search trees with a comparison function

Trees that are descended by the sign of a comparison with what is searched for, as C code does.

* `search` and `link` descend to an equal element or to the free place.
* **Order.**  The elements have keys in a linear order and are sorted by them; a comparison function
  agrees with a key (`Agrees`).  Then `search` finds an element with the key exactly if there is
  one (`search_eq_some`, `search_eq_none`), and `link` inserts one with a new key (`link_sorted`).
* **Rebalancing** (`Rebalance`).  What is assumed of the operations that change the shape of
  a tree: its elements in order are as expected. -/

namespace Iwlwifi.SearchTree

open List

inductive Tree (α : Type)
  | nil
  | node (l : Tree α) (x : α) (r : Tree α)

variable {α κ : Type}

def Tree.toList : Tree α → List α
  | nil => []
  | node l x r => l.toList ++ x :: r.toList

def search (c : α → ℤ) : Tree α → Option α
  | .nil => none
  | .node l x r => if c x = 0 then some x else if c x < 0 then search c l else search c r

/-- Link `y` at the place where the descent ends; none if it meets comparison 0. -/
def link (c : α → ℤ) (y : α) : Tree α → Option (Tree α)
  | .nil => some (.node .nil y .nil)
  | .node l x r =>
    if c x = 0 then none
    else if c x < 0 then (link c y l).map fun l => .node l x r
    else (link c y r).map fun r => .node l x r

/-! ### Order -/

section order
variable [LinearOrder κ] {key : α → κ} {c : α → ℤ} {k : κ} {t : Tree α} {x y : α}

def Sorted (key : α → κ) (l : List α) : Prop := l.Pairwise fun a b => key a < key b

/-- `c` compares the key `k` with the elements of `l`. -/
def Agrees (key : α → κ) (c : α → ℤ) (k : κ) (l : List α) : Prop :=
  ∀ x ∈ l, (c x < 0 ↔ k < key x) ∧ (c x = 0 ↔ k = key x)

theorem sorted_node {l r : List α} (h : Sorted key (l ++ x :: r)) :
    Sorted key l ∧ Sorted key r ∧ (∀ a ∈ l, key a < key x) ∧ ∀ b ∈ r, key x < key b := by
  obtain ⟨hl, hr, hlt⟩ := pairwise_append.mp h
  obtain ⟨hx, hr⟩ := pairwise_cons.mp hr
  exact ⟨hl, hr, fun a ha => hlt a ha x (.head _), hx⟩

theorem Agrees.node {l r : List α} (h : Agrees key c k (l ++ x :: r)) :
    Agrees key c k l ∧ Agrees key c k r ∧ (c x < 0 ↔ k < key x) ∧ (c x = 0 ↔ k = key x) := by
  refine ⟨fun a ha => h a ?_, fun a ha => h a ?_, h x ?_⟩
  · exact mem_append_left _ ha
  · exact mem_append_right _ (.tail _ ha)
  · exact mem_append_right _ (.head _)

theorem search_eq_some (h : search c t = some x) : x ∈ t.toList ∧ c x = 0 := by
  induction t with
  | nil => cases h
  | node l y r ihl ihr =>
    rw [search] at h
    split at h
    next hy =>
      cases h
      exact ⟨mem_append_right _ (.head _), hy⟩
    · split at h
      · exact ⟨mem_append_left _ (ihl h).1, (ihl h).2⟩
      · exact ⟨mem_append_right _ (.tail _ (ihr h).1), (ihr h).2⟩

theorem search_eq_none (hs : Sorted key t.toList) (ha : Agrees key c k t.toList)
    (h : search c t = none) : ∀ x ∈ t.toList, k ≠ key x := by
  induction t with
  | nil => simp [Tree.toList]
  | node l y r ihl ihr =>
    obtain ⟨hsl, hsr, hly, hyr⟩ := sorted_node hs
    obtain ⟨hal, har, hlt, heq⟩ := ha.node
    rw [search] at h
    split at h
    · cases h
    rename_i hne
    rw [heq] at hne
    intro x hx
    rcases mem_append.mp hx with hx | hx
    · split at h
      · exact ihl hsl hal h x hx
      -- the descent went right: all on the left are smaller
      rename_i hge
      rw [hlt] at hge
      exact ((hly x hx).trans_le (not_lt.mp hge)).ne'
    · rcases mem_cons.mp hx with rfl | hx
      · exact hne
      split at h
      next hless => exact ((hlt.mp hless).trans (hyr x hx)).ne
      · exact ihr hsr har h x hx

theorem link_sorted (hs : Sorted key t.toList) (ha : Agrees key c (key y) t.toList)
    (hnew : ∀ x ∈ t.toList, key y ≠ key x) :
    ∃ t' l₁ l₂, link c y t = some t' ∧ t.toList = l₁ ++ l₂ ∧ t'.toList = l₁ ++ y :: l₂ ∧
      (∀ x ∈ l₁, key x < key y) ∧ ∀ x ∈ l₂, key y < key x := by
  induction t with
  | nil => exact ⟨.node .nil y .nil, [], [], rfl, rfl, rfl, by simp, by simp⟩
  | node l z r ihl ihr =>
    rw [Tree.toList] at hs ha hnew
    obtain ⟨hsl, hsr, hlz, hzr⟩ := sorted_node hs
    obtain ⟨hal, har, hlt, heq⟩ := ha.node
    have hne : key y ≠ key z := hnew z (by simp)
    rw [link, if_neg (fun h => hne (heq.mp h))]
    by_cases hless : key y < key z
    · obtain ⟨t', l₁, l₂, hlink, hl, ht', h₁, h₂⟩ :=
        ihl hsl hal fun x hx => hnew x (mem_append_left _ hx)
      refine ⟨.node t' z r, l₁, l₂ ++ z :: r.toList, ?_, ?_, ?_, h₁, forall_mem_append.mpr
        ⟨h₂, forall_mem_cons.mpr ⟨hless, fun x hx => hless.trans (hzr x hx)⟩⟩⟩
      · rw [if_pos (hlt.mpr hless), hlink]
        rfl
      · rw [Tree.toList, hl, append_assoc]
      · rw [Tree.toList, ht', append_assoc, cons_append]
    · have hgt : key z < key y := lt_of_le_of_ne (not_lt.mp hless) (Ne.symm hne)
      obtain ⟨t', l₁, l₂, hlink, hr, ht', h₁, h₂⟩ :=
        ihr hsr har fun x hx => hnew x (mem_append_right _ (.tail _ hx))
      refine ⟨.node l z t', l.toList ++ z :: l₁, l₂, ?_, ?_, ?_, forall_mem_append.mpr
        ⟨fun x hx => (hlz x hx).trans hgt, forall_mem_cons.mpr ⟨hgt, h₁⟩⟩, h₂⟩
      · rw [if_neg (fun h => hless (hlt.mp h)), hlink]
        rfl
      · rw [Tree.toList, hr, append_assoc, cons_append]
      · rw [Tree.toList, ht', append_assoc, cons_append]

end order

/-! ### Rebalancing -/

/-- Operations that change the shape of a tree: recolouring after `x` was linked, and removal. -/
structure Rebalance (α : Type) [DecidableEq α] where
  color : Tree α → α → Tree α
  erase : Tree α → α → Tree α
  toList_color : ∀ t x, (color t x).toList = t.toList
  toList_erase : ∀ t x, (erase t x).toList = t.toList.erase x

def ofList : List α → Tree α
  | [] => .nil
  | x :: xs => .node .nil x (ofList xs)

theorem toList_ofList (l : List α) : (ofList l).toList = l := by
  induction l with
  | nil => rfl
  | cons x xs ih => rw [ofList, Tree.toList, ih]; rfl

def unbalanced (α : Type) [DecidableEq α] : Rebalance α where
  color := fun t _ => t
  erase := fun t x => ofList (t.toList.erase x)
  toList_color := fun _ _ => rfl
  toList_erase := fun t x => toList_ofList (t.toList.erase x)

end Iwlwifi.SearchTree
