import Mathlib.Tactic

/-! # Tallies

The sum of a measure over the elements of a list, when one element is replaced, removed or changed,
when the list is split by a test, and when two measures are compared. -/

namespace Iwlwifi.Tally

open List

variable {α : Type} {l : List α} {f g : α → ℕ}

theorem sum_map_eraseIdx {k : ℕ} {b : α} (h : l[k]? = some b) :
    ((l.eraseIdx k).map f).sum + f b = (l.map f).sum := by
  obtain ⟨hk, rfl⟩ := List.getElem?_eq_some_iff.mp h
  rw [← ((getElem_cons_eraseIdx_perm hk).map f).sum_eq, map_cons, sum_cons, Nat.add_comm]

theorem sum_map_set {k : ℕ} {a b : α} (h : l[k]? = some b) :
    ((l.set k a).map f).sum + f b = (l.map f).sum + f a := by
  obtain ⟨hk, -⟩ := List.getElem?_eq_some_iff.mp h
  rw [((set_perm_cons_eraseIdx hk a).map f).sum_eq, map_cons, sum_cons, Nat.add_assoc,
    sum_map_eraseIdx h, Nat.add_comm]

theorem sum_map_filter (p : α → Bool) :
    ((l.filter p).map f).sum + ((l.filter fun x => !p x).map f).sum = (l.map f).sum := by
  rw [← ((filter_append_perm p l).map f).sum_eq, map_append, sum_append]

theorem sum_map_modify {k : ℕ} {h : α → α} (hf : ∀ a, f (h a) = f a) :
    ((l.modify k h).map f).sum = (l.map f).sum := by
  induction l generalizing k with
  | nil => simp
  | cons c l ih =>
    cases k with
    | zero => simp [hf]
    | succ k => simp [ih]

/-- Of two sums, one below the other term by term, the terms are equal if the sums are. -/
theorem sum_map_le_and_eq_iff (h : ∀ x ∈ l, f x ≤ g x) :
    (l.map f).sum ≤ (l.map g).sum ∧
      ((l.map f).sum = (l.map g).sum ↔ ∀ x ∈ l, f x = g x) := by
  induction l with
  | nil => simp
  | cons c l ih =>
    obtain ⟨hle, hiff⟩ := ih fun x hx => h x (.tail _ hx)
    have hc := h c (.head _)
    simp only [map_cons, sum_cons, forall_mem_cons, ← hiff]
    omega

theorem sum_map_drop_one (h : ∀ x ∈ l, f x + min 1 (g x) = g x) :
    (l.map f).sum + min 1 (l.map g).sum ≤ (l.map g).sum := by
  induction l with
  | nil => simp
  | cons c l ih =>
    have hc := h c (.head _)
    have hrest := ih fun x hx => h x (.tail _ hx)
    simp only [map_cons, sum_cons]
    omega

end Iwlwifi.Tally
