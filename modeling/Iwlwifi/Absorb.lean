import Mathlib.Tactic

/-! # Lists that absorb elements

An element is added to a list unless one there already covers it; if it covers one there, it takes
the place of that one.

* `mem_absorb`: what is in the list was added.
* `absorb_covers`: what was added is covered, if covering is a preorder. -/

namespace Iwlwifi

variable {α : Type} (c : α → α → Bool)

/-- Add `x`: the first element that covers it or that it covers decides. -/
def absorb (x : α) : List α → List α
  | [] => [x]
  | y :: l => if c y x then y :: l else if c x y then x :: l else y :: absorb x l

variable {c} {R : α → α → Prop} {x y z : α} {l : List α}

theorem mem_absorb (h : z ∈ absorb c x l) : z = x ∨ z ∈ l := by
  induction l with
  | nil => exact .inl (List.mem_singleton.mp h)
  | cons y l ih =>
    rw [absorb] at h
    split at h
    · exact .inr h
    split at h
    · rcases List.mem_cons.mp h with h | h
      · exact .inl h
      · exact .inr (.tail _ h)
    rcases List.mem_cons.mp h with h | h
    · exact .inr (h ▸ (.head _))
    · rcases ih h with h | h
      · exact .inl h
      · exact .inr (.tail _ h)

section
variable (hrefl : ∀ a, R a a) (hc : ∀ a b, c a b = true → R a b)
include hrefl hc

theorem absorb_covers_self : ∃ z ∈ absorb c x l, R z x := by
  induction l with
  | nil => exact ⟨x, .head _, hrefl x⟩
  | cons y l ih =>
    rw [absorb]
    split
    · exact ⟨y, .head _, hc y x ‹_›⟩
    split
    · exact ⟨x, .head _, hrefl x⟩
    · obtain ⟨z, hz, hzx⟩ := ih
      exact ⟨z, .tail _ hz, hzx⟩

theorem absorb_covers_mem (hy : y ∈ l) : ∃ z ∈ absorb c x l, R z y := by
  induction l with
  | nil => cases hy
  | cons w l ih =>
    rw [absorb]
    split
    · exact ⟨y, hy, hrefl y⟩
    split
    · rcases List.mem_cons.mp hy with rfl | hy
      · exact ⟨x, .head _, hc x y ‹_›⟩
      · exact ⟨y, .tail _ hy, hrefl y⟩
    rcases List.mem_cons.mp hy with rfl | hy
    · exact ⟨y, .head _, hrefl y⟩
    · obtain ⟨z, hz, hzy⟩ := ih hy
      exact ⟨z, .tail _ hz, hzy⟩

end

end Iwlwifi
