import Mathlib.Tactic
import Mathlib.Data.Nat.Bitwise

/-! # Halving towards a position

A range of `2 ^ m` positions is halved again and again, keeping the half in which a position `p`
lies.  After the halvings down to `2 ^ j` positions, what is left is the aligned block of that size
around `p`.

* `low j p` is the first position of the block.  `low_step` is one halving: the block starts `2 ^ j`
  positions later if bit `j` of `p` is set.
* `slice x j p` are the bits of `x` at the positions of the block (`testBit_slice`); `slice_step` is
  one halving, by a shift or a mask. -/

namespace Iwlwifi.Halving

/-- The first position of the block of size `2 ^ j` around `p`. -/
def low (j p : ℕ) : ℕ := p / 2 ^ j * 2 ^ j

/-- The bits of `x` at the positions of the block of size `2 ^ j` around `p`. -/
def slice (x j p : ℕ) : ℕ := (x >>> low j p) % 2 ^ 2 ^ j

variable {j m p x : ℕ}

@[simp] theorem low_zero (p : ℕ) : low 0 p = p := by simp [low]

theorem low_le (j p : ℕ) : low j p ≤ p := Nat.div_mul_le_self p (2 ^ j)

theorem lt_low_add (j p : ℕ) : p < low j p + 2 ^ j := Nat.lt_div_mul_add (Nat.two_pow_pos j)

theorem low_eq_zero (h : p < 2 ^ m) : low m p = 0 := by
  rw [low, Nat.div_eq_of_lt h, Nat.zero_mul]

theorem low_step (j p : ℕ) : low j p = low (j + 1) p + if p.testBit j then 2 ^ j else 0 := by
  rw [low, low, Nat.pow_succ, ← Nat.div_div_eq_div_mul, Nat.testBit_eq_decide_div_mod_eq]
  -- the bit is the parity of the quotient
  rcases Nat.even_or_odd' (p / 2 ^ j) with ⟨q, h | h⟩
  · simp [h]
    ring
  · simp [h, Nat.mul_add_div]
    ring

theorem testBit_iff_upper (j p : ℕ) : p.testBit j = true ↔ low (j + 1) p + 2 ^ j ≤ p := by
  have h₁ := low_step j p
  have h₂ := low_le j p
  have h₃ := lt_low_add j p
  constructor
  · intro h
    rw [if_pos h] at h₁
    omega
  intro h
  by_contra hn
  rw [if_neg hn] at h₁
  omega

theorem low_mono {i j : ℕ} (h : i ≤ j) (p : ℕ) :
    low j p ≤ low i p ∧ low i p + 2 ^ i ≤ low j p + 2 ^ j := by
  induction j, h using Nat.le_induction with
  | base => exact ⟨le_rfl, le_rfl⟩
  | succ j _ ih =>
    have hstep := low_step j p
    have hpos := Nat.two_pow_pos j
    split at hstep <;> omega

theorem low_eq_add {i j : ℕ} (h : i ≤ j) (p : ℕ) : low i p = low j p + low i (p - low j p) := by
  obtain ⟨r, hr⟩ := Nat.exists_eq_add_of_le (low_le j p)
  obtain ⟨q, hq⟩ : 2 ^ i ∣ low j p := (Nat.pow_dvd_pow 2 h).trans (Nat.dvd_mul_left _ _)
  rw [hq] at hr ⊢
  have hsub : p - 2 ^ i * q = r := by omega
  rw [hsub, low, low, hr, Nat.mul_add_div (Nat.two_pow_pos i), Nat.add_mul, Nat.mul_comm q]

@[simp] theorem testBit_slice (x j p i : ℕ) :
    (slice x j p).testBit i = (decide (i < 2 ^ j) && x.testBit (low j p + i)) := by
  rw [slice, Nat.testBit_mod_two_pow, Nat.testBit_shiftRight]

theorem slice_lt (x j p : ℕ) : slice x j p < 2 ^ 2 ^ j := Nat.mod_lt _ (Nat.two_pow_pos _)

theorem slice_eq_self (hp : p < 2 ^ m) (hx : x < 2 ^ 2 ^ m) : slice x m p = x := by
  rw [slice, low_eq_zero hp, Nat.shiftRight_zero, Nat.mod_eq_of_lt hx]

theorem slice_step (x j p : ℕ) :
    slice x j p =
      if p.testBit j then slice x (j + 1) p >>> 2 ^ j else slice x (j + 1) p % 2 ^ 2 ^ j := by
  have hlow := low_step j p
  have hpow : 2 ^ (j + 1) = 2 ^ j + 2 ^ j := by
    omega
  apply Nat.eq_of_testBit_eq
  intro i
  split
  next hb =>
    rw [if_pos hb] at hlow
    rw [testBit_slice, Nat.testBit_shiftRight, testBit_slice, hlow, hpow, Nat.add_assoc]
    simp
  next hb =>
    rw [if_neg hb, Nat.add_zero] at hlow
    rw [testBit_slice, Nat.testBit_mod_two_pow, testBit_slice, hlow, hpow]
    by_cases hi : i < 2 ^ j
    · simp [hi, show i < 2 ^ j + 2 ^ j by omega]
    · simp [hi]

end Iwlwifi.Halving
