import Mathlib.Tactic

/-! # Records at aligned positions

Strings made of records that start at multiples of a number `k`.

* `concat k z rs` puts the records one after the other; every record but the last is filled up with
  `z` to a multiple of `k`.  `concat_append_singleton` says how to add a record at the end: the
  filling depends on the length of the whole string only.
* `split k len` takes a string apart again, when `len` reads the length of the record that a string
  begins with; `split_concat`. -/

namespace Iwlwifi.Aligned

open List

variable {α : Type}

/-- What is missing from `n` to a multiple of `k`. -/
def padding (k n : ℕ) : ℕ := (k - n % k) % k

theorem dvd_add_padding {k : ℕ} (hk : 0 < k) (n : ℕ) : k ∣ n + padding k n := by
  have hlt := Nat.mod_lt n hk
  have hdiv := Nat.div_add_mod n k
  unfold padding
  rcases Nat.eq_zero_or_pos (n % k) with h0 | hpos
  · rw [h0, Nat.sub_zero, Nat.mod_self, Nat.add_zero]
    exact Nat.dvd_of_mod_eq_zero h0
  · rw [Nat.mod_eq_of_lt (by omega)]
    exact ⟨n / k + 1, by rw [Nat.mul_add, Nat.mul_one]; omega⟩

theorem padding_lt {k : ℕ} (hk : 0 < k) (n : ℕ) : padding k n < k := Nat.mod_lt _ hk

theorem padding_add_of_dvd {k m : ℕ} (h : k ∣ m) (n : ℕ) : padding k (m + n) = padding k n := by
  obtain ⟨q, rfl⟩ := h
  rw [padding, Nat.mul_add_mod, padding]

section concat
variable (k : ℕ) (z : α)

/-- The records, each but the last filled up. -/
def concat : List (List α) → List α
  | [] => []
  | [r] => r
  | r :: s :: rs => r ++ List.replicate (padding k r.length) z ++ concat (s :: rs)

theorem concat_cons (r : List α) (rs : List (List α)) :
    concat k z (r :: rs) =
      r ++ if rs = [] then [] else List.replicate (padding k r.length) z ++ concat k z rs := by
  cases rs with
  | nil => simp [concat]
  | cons s rs => simp [concat]

theorem concat_append_singleton (hk : 0 < k) {rs : List (List α)} (h : rs ≠ []) (r : List α) :
    concat k z (rs ++ [r]) =
      concat k z rs ++ List.replicate (padding k (concat k z rs).length) z ++ r := by
  induction rs with
  | nil => exact absurd rfl h
  | cons s rs ih =>
    cases rs with
    | nil => rfl
    | cons t rs =>
      have hlen : (concat k z (s :: t :: rs)).length =
          s.length + padding k s.length + (concat k z (t :: rs)).length := by
        simp only [concat, length_append, length_replicate]
      have hcons : concat k z (s :: t :: rs ++ [r]) =
          s ++ List.replicate (padding k s.length) z ++ concat k z (t :: rs ++ [r]) := rfl
      rw [hcons, ih (cons_ne_nil t rs), hlen, padding_add_of_dvd (dvd_add_padding hk s.length)]
      simp only [concat, append_assoc]

end concat

/-! ### Taking apart -/

section split
variable (k : ℕ) (len : List α → Option ℕ)

/-- At most `n` records: none when a record is not complete. -/
def splitFor : ℕ → List α → Option (List (List α))
  | 0, _ => none
  | n + 1, l =>
    match len l with
    | none => none
    | some m =>
      if l.length < m then none
      -- the last record may or may not be filled up
      else if l.length ≤ m + padding k m then some [l.take m]
      else (splitFor n (l.drop (m + padding k m))).map (l.take m :: ·)

def split (l : List α) : Option (List (List α)) := splitFor k len (l.length + 1) l

variable {k len} {z : α} {rs : List (List α)}

theorem splitFor_succ_some {n : ℕ} {l : List α} (h : splitFor k len (n + 1) l = some rs) :
    ∃ m, len l = some m ∧ m ≤ l.length ∧
      (l.length ≤ m + padding k m ∧ rs = [l.take m] ∨
        m + padding k m < l.length ∧ ∃ rest, splitFor k len n (l.drop (m + padding k m)) = some rest ∧
          rs = l.take m :: rest) := by
  unfold splitFor at h
  split at h
  · cases h
  rename_i m hm
  refine ⟨m, hm, ?_⟩
  split at h
  · cases h
  refine ⟨by omega, ?_⟩
  split at h
  · cases h
    exact .inl ⟨by assumption, rfl⟩
  · obtain ⟨rest, hrest, rfl⟩ := Option.map_eq_some_iff.mp h
    exact .inr ⟨by omega, rest, hrest, rfl⟩

theorem splitFor_ne_nil {n : ℕ} {l : List α} (h : splitFor k len n l = some rs) : rs ≠ [] := by
  cases n with
  | zero => cases h
  | succ n =>
    obtain ⟨m, -, -, ⟨-, rfl⟩ | ⟨-, rest, -, rfl⟩⟩ := splitFor_succ_some h
    all_goals exact cons_ne_nil _ _

section
variable (hlen : ∀ r ∈ rs, r ≠ [] ∧ ∀ rest, len (r ++ rest) = some r.length) (hne : rs ≠ [])
include hlen hne

theorem splitFor_concat {n : ℕ} (hn : (concat k z rs).length < n) :
    splitFor k len n (concat k z rs) = some rs := by
  induction rs generalizing n with
  | nil => exact absurd rfl hne
  | cons r rs ih =>
    obtain ⟨hr, hread⟩ := hlen r (.head _)
    have hpos := length_pos_iff.mpr hr
    cases n with
    | zero => omega
    | succ n =>
      cases rs with
      | nil =>
        have hone : len r = some r.length := by simpa using hread []
        have hconcat : concat k z [r] = r := rfl
        rw [hconcat, splitFor, hone]
        simp
      | cons s rs =>
        have hs := length_pos_iff.mpr (hlen s (by simp)).1
        have hcons : concat k z (r :: s :: rs) =
            r ++ (List.replicate (padding k r.length) z ++ concat k z (s :: rs)) := by
          simp only [concat, append_assoc]
        have hle : s.length ≤ (concat k z (s :: rs)).length := by
          rw [concat_cons, length_append]
          omega
        have hlength : (concat k z (r :: s :: rs)).length =
            r.length + padding k r.length + (concat k z (s :: rs)).length := by
          rw [hcons, length_append, length_append, length_replicate]
          omega
        have hdrop : (concat k z (r :: s :: rs)).drop (r.length + padding k r.length) =
            concat k z (s :: rs) := by
          exact drop_left' (by rw [length_append, length_replicate])
        have htake : (concat k z (r :: s :: rs)).take r.length = r := by
          rw [hcons, take_left]
        have hread' : len (concat k z (r :: s :: rs)) = some r.length := by
          rw [hcons]
          exact hread _
        simp only [splitFor, hread']
        rw [if_neg (by omega), if_neg (by omega), hdrop, htake, ih (fun t ht => hlen t (.tail _ ht))
          (cons_ne_nil s rs) (by omega)]
        rfl

theorem split_concat : split k len (concat k z rs) = some rs :=
  splitFor_concat hlen hne (Nat.lt_succ_self _)

end

end split

end Iwlwifi.Aligned
