import Mathlib.Tactic

/-! # Custody of objects

A fixed set of objects is spread over places that belong to different threads.  Every object is in
some condition, which all threads can read and which has to be right for the place it is at.

* **Holdings.**  What a place holds is a multiset of objects, each with the condition it should be
  in; what a thread holds is the sum over its places.  `Agree` says that the objects are in these
  conditions.
* **Transfers** (`Transfer`).  A step takes holdings to others of the same objects.  It may change
  the conditions of the objects it holds and of no others.
* **Frame** (`Transfer.frame`).  What a thread does to its own holdings is a transfer of all
  holdings: no object is held twice, so nobody else holds those it changes.
* **Change** (`Transfer.change`).  The elementary transfer: one object changes its condition.
* **One place** (`exists_place`).  What the conservation of the objects means for a single one. -/

namespace Iwlwifi

open Finset Function

section
variable {β M : Type} [AddCommMonoid M] (g : β → M) (f : ℕ → β) {q n : ℕ} (hq : q < n) (v : β)
include hq

theorem sum_update : ∑ i ∈ range n, g (update f q v i) =
    g v + ∑ i ∈ (range n).erase q, g (f i) := by
  have h := sum_update_of_mem (mem_range.mpr hq) (g ∘ f) (g v)
  rwa [← comp_update, sdiff_singleton_eq_erase] at h

theorem sum_update_add :
    ∑ i ∈ range n, g (update f q v i) + g (f q) = ∑ i ∈ range n, g (f i) + g v := by
  rw [sum_update g f hq, ← add_sum_erase (range n) (fun i => g (f i)) (mem_range.mpr hq)]
  ac_rfl

end

namespace Custody

variable {α τ : Type} {tag tag' tag'' : α → τ} {o o' o'' : Multiset (α × τ)}

/-- The objects of a list, held in the condition `t`. -/
def hold (t : τ) (l : List α) : Multiset (α × τ) := (l : Multiset α).map (fun x => (x, t))

def ids (o : Multiset (α × τ)) : Multiset α := o.map Prod.fst

def Agree (tag : α → τ) (o : Multiset (α × τ)) : Prop := ∀ p ∈ o, tag p.1 = p.2

@[simp] theorem hold_nil (t : τ) : hold t ([] : List α) = 0 := rfl

@[simp] theorem hold_cons (t : τ) (x : α) (l : List α) :
    hold t (x :: l) = {(x, t)} + hold t l := by
  simp [hold, ← Multiset.cons_coe]

@[simp] theorem hold_append (t : τ) (l l' : List α) : hold t (l ++ l') = hold t l + hold t l' := by
  simp [hold, ← Multiset.coe_add]

theorem hold_perm (t : τ) {l l' : List α} (h : l.Perm l') : hold t l = hold t l' := by
  rw [hold, hold, Multiset.coe_eq_coe.mpr h]

@[simp] theorem ids_hold (t : τ) (l : List α) : ids (hold t l) = (l : Multiset α) := by
  rw [ids, hold, Multiset.map_map]
  exact Multiset.map_id' _

@[simp] theorem ids_add (o o' : Multiset (α × τ)) : ids (o + o') = ids o + ids o' :=
  Multiset.map_add _ _ _

/-- The same objects, in the conditions they are then held in, and no other object changes. -/
def Transfer (tag : α → τ) (o : Multiset (α × τ)) (tag' : α → τ) (o' : Multiset (α × τ)) : Prop :=
  (ids o).Nodup → Agree tag o →
    ids o' = ids o ∧ Agree tag' o' ∧ ∀ x ∉ ids o, tag' x = tag x

theorem Transfer.of_eq (h : o' = o) : Transfer tag o tag o' := by
  intro _ ha
  rw [h]
  exact ⟨rfl, ha, fun _ _ => rfl⟩

/-- **Frame rule.**  A transfer among some of the holdings is one among all of them. -/
theorem Transfer.frame (h : Transfer tag o tag' o') (r : Multiset (α × τ)) :
    Transfer tag (o + r) tag' (o' + r) := by
  intro hn ha
  rw [ids_add] at hn ⊢
  obtain ⟨hno, -, hdis⟩ := Multiset.nodup_add.mp hn
  obtain ⟨hi, ha', hf⟩ := h hno (fun p hp => ha p (Multiset.mem_add.mpr (Or.inl hp)))
  refine ⟨by rw [ids_add, hi], ?_, ?_⟩
  · intro p hp
    rcases Multiset.mem_add.mp hp with hp | hp
    · exact ha' p hp
    -- the rest is disjoint from what the transfer changes
    have hmem : p.1 ∈ ids r := Multiset.mem_map_of_mem Prod.fst hp
    rw [hf p.1 (fun hx => Multiset.disjoint_left.mp hdis hx hmem)]
    exact ha p (Multiset.mem_add.mpr (Or.inr hp))
  · intro x hx
    rw [ids_add] at hx
    exact hf x (fun hx' => hx (Multiset.mem_add.mpr (Or.inl hx')))

theorem Transfer.change {x : α} {t t' : τ} {r : Multiset (α × τ)} (ho : o = {(x, t)} + r)
    (ho' : o' = {(x, t')} + r) (hx : tag x = t → tag' x = t')
    (hf : ∀ y, y ≠ x → tag' y = tag y) : Transfer tag o tag' o' := by
  have h₁ : Transfer tag {(x, t)} tag' {(x, t')} := by
    intro _ ha
    refine ⟨rfl, ?_, ?_⟩
    · intro p hp
      rw [Multiset.mem_singleton] at hp
      rw [hp]
      exact hx (ha (x, t) (Multiset.mem_singleton_self _))
    · intro y hy
      apply hf
      simpa [ids] using hy
  rw [ho, ho']
  exact h₁.frame r

theorem ids_sum {ι : Type} (s : Finset ι) (g : ι → Multiset (α × τ)) :
    ids (∑ i ∈ s, g i) = ∑ i ∈ s, ids (g i) :=
  map_sum (Multiset.mapAddMonoidHom Prod.fst) g s

/-- **Exactly one place.**  When no object is held twice, every object is at one place, in its
condition. -/
theorem exists_place {ι : Type} [Fintype ι] [DecidableEq ι] [DecidableEq α] (place : ι → List α)
    (cond : ι → τ) (ho : o = ∑ i, hold (cond i) (place i)) (hn : (ids o).Nodup)
    (ha : Agree tag o) {x : α} (hx : x ∈ ids o) :
    ∃ i, (∀ j, (place j).count x = if j = i then 1 else 0) ∧ tag x = cond i := by
  have hsum : ∑ j, (place j).count x = 1 := by
    rw [← Multiset.count_eq_one_of_mem hn hx, ho, ids_sum, Multiset.count_sum']
    simp only [ids_hold, Multiset.coe_count]
  obtain ⟨i, hi⟩ : ∃ i, x ∈ place i := by
    by_contra hno
    have hzero : ∑ j, (place j).count x = 0 :=
      sum_eq_zero (fun j _ => List.count_eq_zero.mpr (fun hj => hno ⟨j, hj⟩))
    omega
  have hpos : 0 < (place i).count x := List.count_pos_iff.mpr hi
  rw [← add_sum_erase univ _ (mem_univ i)] at hsum
  have hrest : ∑ j ∈ univ.erase i, (place j).count x = 0 := by omega
  refine ⟨i, ?_, ?_⟩
  · intro j
    split
    next e =>
      rw [e]
      omega
    next hne => exact sum_eq_zero_iff.mp hrest j (mem_erase.mpr ⟨hne, mem_univ j⟩)
  · apply ha (x, cond i)
    rw [ho, Multiset.mem_sum]
    exact ⟨i, mem_univ i, Multiset.mem_map_of_mem _ hi⟩

end Custody

end Iwlwifi
