import Mathlib.Tactic
import Mathlib.Data.Nat.Bitwise

/-! # Sets of small numbers as words

A word is the set of the positions of its bits.

* `ofPred f n` is built by a loop that sets bit `i` for every `i < n` with `f i`
  (`testBit_ofPred`).
* `weight n x` counts the bits below `n`; `weight_mod` says that of the lowest `k` bits.
* Removing a member by subtraction (`testBit_sub_two_pow`) or with a mask (`testBit_erase`).
* `getElem?_filter_range`: values that are listed for the members only are found by the number of
  members below. -/

namespace Iwlwifi.BitSet

open List

/-- The members that a predicate selects below `n`. -/
def ofPred (f : ℕ → Bool) (n : ℕ) : ℕ :=
  (List.range n).foldl (fun x i => if f i then x ||| 2 ^ i else x) 0

/-- The number of members below `n`. -/
def weight (n x : ℕ) : ℕ := (List.range n).countP fun i => x.testBit i

variable {f : ℕ → Bool} {n k x : ℕ}

theorem ofPred_succ (f : ℕ → Bool) (n : ℕ) :
    ofPred f (n + 1) = if f n then ofPred f n ||| 2 ^ n else ofPred f n := by
  rw [ofPred, range_succ, foldl_append]
  rfl

@[simp] theorem testBit_ofPred (f : ℕ → Bool) (n i : ℕ) :
    (ofPred f n).testBit i = (decide (i < n) && f i) := by
  induction n with
  | zero => simp [ofPred]
  | succ n ih =>
    rw [ofPred_succ]
    have hi : i < n + 1 ↔ i < n ∨ n = i := by omega
    by_cases hn : n = i
    · subst hn
      split <;> simp_all
    · split <;> simp [ih, hi, hn]

theorem ofPred_lt (f : ℕ → Bool) (n : ℕ) : ofPred f n < 2 ^ n := by
  apply Nat.lt_pow_two_of_testBit
  intro i hi
  simp [Nat.not_lt.mpr hi]

theorem testBit_sub_two_pow {i : ℕ} (h : x.testBit i = true) (hk : k ≠ i) :
    (x - 2 ^ i).testBit k = x.testBit k := by
  have hodd : x / 2 ^ i % 2 = 1 := by
    rw [Nat.testBit_eq_decide_div_mod_eq] at h
    simpa using h
  -- `x` is an even multiple of `2 ^ i`, the bit itself, and what is below
  obtain ⟨q, hq⟩ : ∃ q, x / 2 ^ i = 2 * q + 1 := ⟨x / 2 ^ i / 2, by omega⟩
  have hlow : x % 2 ^ i < 2 ^ i := Nat.mod_lt _ (Nat.two_pow_pos i)
  have hx : x = 2 ^ i * (2 * q + 1) + x % 2 ^ i := by
    rw [← hq, Nat.div_add_mod]
  have hsub : x - 2 ^ i = 2 ^ i * (2 * q) + x % 2 ^ i := by
    rw [Nat.mul_add, Nat.mul_one] at hx
    omega
  rw [hsub, Nat.testBit_two_pow_mul_add _ hlow]
  conv_rhs => rw [hx, Nat.testBit_two_pow_mul_add _ hlow]
  split
  · rfl
  obtain ⟨m, hm⟩ : ∃ m, k - i = m + 1 := ⟨k - i - 1, by omega⟩
  rw [hm, Nat.testBit_add_one, Nat.testBit_add_one]
  congr 1
  omega

/-- Remove `i` from a set of numbers below `n`. -/
def erase (n x i : ℕ) : ℕ := x &&& (2 ^ n - (2 ^ i + 1))

theorem testBit_erase {i : ℕ} (hi : i < n) (hk : k < n) (x : ℕ) :
    (erase n x i).testBit k = (x.testBit k && decide (k ≠ i)) := by
  rw [erase, Nat.testBit_and, Nat.testBit_two_pow_sub_succ (Nat.pow_lt_pow_right (by omega) hi),
    Nat.testBit_two_pow]
  simp [hk, eq_comm]

theorem weight_eq_length (n x : ℕ) :
    weight n x = ((List.range n).filter fun i => x.testBit i).length :=
  countP_eq_length_filter

theorem weight_mod (hk : k ≤ n) : weight n (x % 2 ^ k) = weight k x := by
  obtain ⟨m, rfl⟩ := Nat.exists_eq_add_of_le hk
  rw [weight, weight, range_add, countP_append]
  have hlow : (List.range k).countP (fun i => (x % 2 ^ k).testBit i) =
      (List.range k).countP fun i => x.testBit i := by
    apply countP_congr
    intro i hi
    rw [mem_range] at hi
    simp [Nat.testBit_mod_two_pow, hi]
  have hhigh : ((List.range m).map (k + ·)).countP (fun i => (x % 2 ^ k).testBit i) = 0 := by
    rw [countP_eq_zero]
    intro i hi
    obtain ⟨j, -, rfl⟩ := mem_map.mp hi
    simp [Nat.testBit_mod_two_pow]
  rw [hlow, hhigh, Nat.add_zero]

theorem getElem?_filter_range (hk : k < n) (hf : f k = true) :
    ((List.range n).filter f)[((List.range k).filter f).length]? = some k := by
  obtain ⟨m, rfl⟩ := Nat.exists_eq_add_of_lt hk
  have hrange : List.range (k + m + 1) =
      List.range k ++ k :: (List.range m).map fun i => k + (1 + i) := by
    rw [Nat.add_assoc, Nat.add_comm m 1, range_add, range_add]
    simp [Function.comp_def]
  rw [hrange, filter_append, filter_cons_of_pos hf,
    List.getElem?_append_right (le_rfl), Nat.sub_self]
  rfl

end Iwlwifi.BitSet
