import Mathlib.Tactic

/-! # Results of comparison functions

Comparison functions of C return a number of which the sign matters.  Such a function often compares
one property after the other; it is then the comparison of lists of numbers in lexicographic order.

* `Leads r a b`: the number `r` compares the lists `a` and `b`, whatever follows them.
* It is closed under comparing a second property when the first is equal (`Leads.and_then`).
* `Leads.lt_iff`, `Leads.eq_iff`: the comparison of the lists themselves. -/

namespace Iwlwifi

open List

variable {r r' : ℤ} {a a' b b' : List ℤ}

/-- `r` compares `a` and `b`, whatever follows. -/
structure Leads (r : ℤ) (a b : List ℤ) : Prop where
  lt : r < 0 → ∀ x y, a ++ x < b ++ y
  eq : r = 0 → a = b
  gt : 0 < r → ∀ x y, b ++ y < a ++ x

theorem leads_nil : Leads 0 [] [] :=
  ⟨fun h => absurd h (lt_irrefl 0), fun _ => rfl, fun h => absurd h (lt_irrefl 0)⟩

theorem leads_sub (m n : ℤ) : Leads (m - n) [m] [n] where
  lt := fun h x y => cons_lt_cons_iff.mpr (.inl (by omega))
  eq := fun h => by rw [sub_eq_zero.mp h]
  gt := fun h x y => cons_lt_cons_iff.mpr (.inl (by omega))

section
variable (h : Leads r a b)
include h

theorem Leads.append_of_ne (hr : r ≠ 0) (a' b' : List ℤ) :
    Leads r (a ++ a') (b ++ b') := by
  refine ⟨fun hlt x y => ?_, fun heq => absurd heq hr, fun hgt x y => ?_⟩
  · rw [append_assoc, append_assoc]
    exact h.lt hlt _ _
  · rw [append_assoc, append_assoc]
    exact h.gt hgt _ _

theorem Leads.append_of_eq (hr : r = 0) (h' : Leads r' a' b') :
    Leads r' (a ++ a') (b ++ b') := by
  rw [h.eq hr]
  refine ⟨fun hlt x y => ?_, fun heq => by rw [h'.eq heq], fun hgt x y => ?_⟩
  · rw [append_assoc, append_assoc]
    exact append_left_lt (h'.lt hlt x y)
  · rw [append_assoc, append_assoc]
    exact append_left_lt (h'.gt hgt x y)

theorem Leads.and_then (h' : Leads r' a' b') :
    Leads (if r ≠ 0 then r else r') (a ++ a') (b ++ b') := by
  by_cases hr : r = 0
  · rw [if_neg (not_not.mpr hr)]
    exact h.append_of_eq hr h'
  · rw [if_pos hr]
    exact h.append_of_ne hr _ _

theorem Leads.congr (hlt : r < 0 ↔ r' < 0) (heq : r = 0 ↔ r' = 0) :
    Leads r' a b :=
  ⟨fun hr => h.lt (hlt.mpr hr), fun hr => h.eq (heq.mpr hr), fun hr => h.gt (by omega)⟩

theorem Leads.lt_iff : r < 0 ↔ a < b := by
  constructor
  · intro hr
    simpa using h.lt hr [] []
  intro hlt
  by_contra hr
  rcases (not_lt.mp hr).lt_or_eq with hpos | hzero
  · exact lt_asymm hlt (by simpa using h.gt hpos [] [])
  · exact hlt.ne (h.eq hzero.symm)

theorem Leads.eq_iff : r = 0 ↔ a = b := by
  constructor
  · exact h.eq
  rintro rfl
  rcases lt_trichotomy r 0 with hr | hr | hr
  · exact absurd (h.lt hr [] []) (lt_irrefl _)
  · exact hr
  · exact absurd (h.gt hr [] []) (lt_irrefl _)

end

end Iwlwifi
