import Mathlib.Tactic

/-! # Averages of signal levels

A model of `iwl_average_neg_dbm` (`iwl-utils.c`), which averages levels in dBm as powers, with a sum
in 16.16 fixed point relative to the largest level.

* `ratio n` is the ratio of powers that is `n` dB down, a real number.
* **Division** (`divByDb_bounds`).  `iwl_div_by_db` is off by less than two units downwards, and by
  less than a 64th of a unit upwards.
* **Sum** (`addLevel_bounds`).  The error grows by that much with every level.
* **Average** (`averageNegDbm_spec`).  The loop at the end inverts the division, so the result is
  within 1 dB of the mean, and it lies between the smallest and the largest level. -/

namespace Iwlwifi.Iwl

open List

/-! ### The code -/

/-- The table `db_to_val`: `2^32` times the ratio that is `i + 1` dB down. -/
def dbToVal : List ℕ :=
  [0xcb59185e, 0xa1866ba8, 0x804dce7a, 0x65ea59fe, 0x50f44d89,
    0x404de61f, 0x331426af, 0x2892c18b, 0x203a7e5b, 0x1999999a]

/-- `iwl_div_by_db`. -/
def divByDb (value db : ℕ) : ℕ :=
  if value ≠ 0 ∧ 0 < db then
    let change := min db dbToVal.length
    divByDb (value * dbToVal.getD (change - 1) 0 / 2 ^ 32) (db - change)
  else value
termination_by db
decreasing_by simp [dbToVal]; omega

/-- The running sum of `iwl_average_neg_dbm`. -/
structure Average where
  sumMagnitude : ℤ := -128
  sumFactor : ℕ := 0
  count : ℕ := 0

def Average.addLevel (a : Average) (v : ℕ) : Average :=
  if v = 0xff then a
  else
    let valMagnitude : ℤ := -v
    if valMagnitude ≤ a.sumMagnitude then
      { a with
        sumFactor := (a.sumFactor + divByDb 0x10000 (a.sumMagnitude - valMagnitude).toNat) % 2 ^ 32
        count := a.count + 1 }
    else
      { sumFactor :=
          (divByDb a.sumFactor (valMagnitude - a.sumMagnitude).toNat + 0x10000) % 2 ^ 32
        sumMagnitude := valMagnitude
        count := a.count + 1 }

/-- The loop at the end, at most `n` times from `i`. -/
def stepsDown (averageFactor : ℕ) : ℕ → ℕ → Option ℕ
  | 0, _ => none
  | n + 1, i =>
    if averageFactor < divByDb 0xe429 (i % 256) then stepsDown averageFactor n (i + 1) else some i

/-- `iwl_average_neg_dbm`; `none` if the loop at the end runs more than `n` times. -/
def averageNegDbm (n : ℕ) (negDbmValues : List ℕ) : Option ℤ :=
  let a := negDbmValues.foldl Average.addLevel {}
  if a.count = 0 then some 0
  else (stepsDown (a.sumFactor / a.count) n 0).map fun i : ℕ =>
    max (-128) (min (a.sumMagnitude - i) 0)

/-! ### Ratios of powers -/

/-- The ratio of powers that is `n` dB down. -/
noncomputable def ratio (n : ℕ) : ℝ := 10 ^ (-(n : ℝ) / 10)

theorem ratio_pos (n : ℕ) : 0 < ratio n := Real.rpow_pos_of_pos (by norm_num) _

theorem ratio_add (m n : ℕ) : ratio (m + n) = ratio m * ratio n := by
  rw [ratio, ratio, ratio, ← Real.rpow_add (by norm_num)]
  congr 1
  push_cast
  ring

theorem ratio_anti {m n : ℕ} (h : m ≤ n) : ratio n ≤ ratio m := by
  apply Real.rpow_le_rpow_of_exponent_le (by norm_num)
  have : (m : ℝ) ≤ n := by exact_mod_cast h
  linarith

@[simp] theorem ratio_zero : ratio 0 = 1 := by simp [ratio]

theorem ratio_pow_ten (n : ℕ) : ratio n ^ 10 = 1 / 10 ^ n := by
  rw [ratio, ← Real.rpow_natCast, ← Real.rpow_mul (by norm_num), show -(n : ℝ) / 10 * ((10 : ℕ) : ℝ)
    = -n by push_cast; ring, Real.rpow_neg (by norm_num), Real.rpow_natCast, one_div]

@[simp] theorem ratio_ten : ratio 10 = 1 / 10 := by
  rw [ratio, show -((10 : ℕ) : ℝ) / 10 = -1 by norm_num, Real.rpow_neg_one, one_div]

theorem ratio_bounds {n : ℕ} {x y : ℝ} (hy : 0 ≤ y) (hlo : x ^ 10 * 10 ^ n ≤ 1)
    (hhi : 1 ≤ y ^ 10 * 10 ^ n) : x ≤ ratio n ∧ ratio n ≤ y := by
  have hpos : (0 : ℝ) < 10 ^ n := by positivity
  constructor
  · apply le_of_pow_le_pow_left₀ (n := 10) (by norm_num) (ratio_pos n).le
    rw [ratio_pow_ten]
    rwa [le_div_iff₀ hpos]
  · apply le_of_pow_le_pow_left₀ (n := 10) (by norm_num) hy
    rw [ratio_pow_ten]
    rwa [div_le_iff₀ hpos]

theorem dbToVal_bounds {n : ℕ} (h : n < 10) :
    (dbToVal.getD n 0 - 1 : ℝ) ≤ 2 ^ 32 * ratio (n + 1) ∧
      2 ^ 32 * ratio (n + 1) ≤ dbToVal.getD n 0 + 1 := by
  have hlo : ((dbToVal.getD n 0 - 1) / 2 ^ 32 : ℝ) ^ 10 * 10 ^ (n + 1) ≤ 1 := by
    interval_cases n <;> norm_num [dbToVal]
  have hhi : (1 : ℝ) ≤ ((dbToVal.getD n 0 + 1) / 2 ^ 32) ^ 10 * 10 ^ (n + 1) := by
    interval_cases n <;> norm_num [dbToVal]
  obtain ⟨h₁, h₂⟩ := ratio_bounds (by positivity) hlo hhi
  constructor <;> linarith

theorem ratio_one_le : ratio 1 ≤ 0.7944 :=
  (ratio_bounds (n := 1) (x := 0) (by norm_num) (by norm_num) (by norm_num)).2

theorem ratio_24 : 0.0039 ≤ ratio 24 ∧ ratio 24 ≤ 0.004 :=
  ratio_bounds (by norm_num) (by norm_num) (by norm_num)

/-! ### The division -/

theorem scale_bounds {value n : ℕ} (hv : value ≤ 2 ^ 24) (hn : n < 10) :
    value * ratio (n + 1) ≤ (value * dbToVal.getD n 0 / 2 ^ 32 : ℕ) + 257 / 256 ∧
      (value * dbToVal.getD n 0 / 2 ^ 32 : ℕ) ≤ value * ratio (n + 1) + 1 / 256 ∧
      value * dbToVal.getD n 0 / 2 ^ 32 ≤ value := by
  obtain ⟨hlo, hhi⟩ := dbToVal_bounds hn
  have hlt : dbToVal.getD n 0 ≤ 2 ^ 32 := by
    interval_cases n <;> decide
  generalize dbToVal.getD n 0 = t at hlo hhi hlt
  have hv' : (value : ℝ) ≤ 2 ^ 24 := by exact_mod_cast hv
  have hv0 : (0 : ℝ) ≤ value := Nat.cast_nonneg _
  have hdiv : ((value * t / 2 ^ 32 : ℕ) : ℝ) * 2 ^ 32 ≤ value * t := by
    exact_mod_cast Nat.div_mul_le_self ..
  have hmod : (value * t : ℝ) < ((value * t / 2 ^ 32 : ℕ) + 1) * 2 ^ 32 := by
    exact_mod_cast Nat.lt_mul_of_div_lt (Nat.lt_succ_self _) (by norm_num)
  refine ⟨?_, ?_, ?_⟩
  · have := mul_le_mul_of_nonneg_left hhi hv0
    linarith
  · have := mul_le_mul_of_nonneg_left hlo hv0
    linarith
  · apply Nat.div_le_of_le_mul
    rw [Nat.mul_comm]
    exact Nat.mul_le_mul_right _ hlt

theorem divByDb_bounds' (db : ℕ) : ∀ {value : ℕ}, value ≤ 2 ^ 24 →
    value * ratio db ≤ divByDb value db + 2 - 9 / 8 * ratio db ∧
      divByDb value db ≤ value * ratio db + 1 / 64 - 1 / 128 * ratio db ∧
      divByDb value db ≤ value := by
  induction db using Nat.strong_induction_on with
  | _ db ih =>
    intro value hv
    have hρ1 : ratio db ≤ 1 := ratio_zero ▸ ratio_anti (Nat.zero_le db)
    rw [divByDb]
    split
    next h =>
      have hlen : dbToVal.length = 10 := rfl
      by_cases hdb : db ≤ 10
      · obtain ⟨h₁, h₂, h₃⟩ := scale_bounds hv (show db - 1 < 10 by omega)
        rw [Nat.sub_add_cancel h.2] at h₁ h₂
        have hone := (ratio_anti h.2).trans ratio_one_le
        simp only [hlen, Nat.min_eq_left hdb, Nat.sub_self]
        rw [divByDb, if_neg (by simp)]
        refine ⟨?_, ?_, h₃⟩ <;> linarith
      · obtain ⟨h₁, h₂, h₃⟩ := scale_bounds hv (show 9 < 10 by norm_num)
        simp only [hlen, Nat.min_eq_right (by omega : 10 ≤ db)]
        obtain ⟨i₁, i₂, i₃⟩ := ih (db - 10) (by omega) (h₃.trans hv)
        have hmul : ratio db = 1 / 10 * ratio (db - 10) := by
          rw [← ratio_ten, ← ratio_add, Nat.add_sub_cancel' (by omega)]
        have hpos := ratio_pos (db - 10)
        rw [show ratio (9 + 1) = 1 / 10 from ratio_ten] at h₁ h₂
        have j₁ := mul_le_mul_of_nonneg_right h₁ hpos.le
        have j₂ := mul_le_mul_of_nonneg_right h₂ hpos.le
        rw [hmul]
        refine ⟨?_, ?_, i₃.trans h₃⟩
        · linarith
        · linarith
    next h =>
      obtain rfl | rfl : value = 0 ∨ db = 0 := by omega
      · exact ⟨by push_cast; linarith, by push_cast; linarith, le_rfl⟩
      · rw [ratio_zero]
        exact ⟨by linarith, by linarith, le_rfl⟩

theorem divByDb_bounds (value : ℕ) (hv : value ≤ 2 ^ 24) (db : ℕ) :
    value * ratio db ≤ divByDb value db + 2 ∧ divByDb value db ≤ value * ratio db + 1 / 64 ∧
      divByDb value db ≤ value := by
  obtain ⟨h₁, h₂, h₃⟩ := divByDb_bounds' db hv
  have := ratio_pos db
  exact ⟨by linarith, by linarith, h₃⟩

/-! ### The sum -/

noncomputable def power (levels : List ℕ) : ℝ := (levels.map ratio).sum

/-- What the running sum says about the levels added so far; `m` is the largest one, without sign. -/
structure Average.Sums (a : Average) (m : ℕ) (levels : List ℕ) : Prop where
  magnitude : a.sumMagnitude = -m
  count : a.count = levels.length
  factor_le : a.sumFactor ≤ 65536 * levels.length
  start : levels = [] → m = 128
  largest : levels ≠ [] → m ∈ levels ∧ (∀ n ∈ levels, m ≤ n) ∧ 65536 ≤ a.sumFactor
  upper : a.sumFactor * ratio m ≤ 65536 * power levels + levels.length / 64 * ratio m
  lower : 65536 * power levels ≤ (a.sumFactor + 2 * levels.length) * ratio m

theorem power_append (levels : List ℕ) (n : ℕ) : power (levels ++ [n]) = power levels + ratio n := by
  simp [power]

theorem addLevel_bounds {a : Average} {m : ℕ} {levels : List ℕ} (h : a.Sums m levels)
    (hlen : levels.length < 255) {n : ℕ} (hn : n ≤ 127) :
    ∃ m', (a.addLevel n).Sums m' (levels ++ [n]) := by
  have hfactor := h.factor_le
  have hup := h.upper
  have hlow := h.lower
  have hlen' : (levels ++ [n]).length = levels.length + 1 := length_append
  unfold Average.addLevel
  rw [if_neg (by omega), h.magnitude]
  by_cases hle : m ≤ n
  · have hne : levels ≠ [] := fun hnil => by
      have := h.start hnil
      omega
    obtain ⟨hmem, hmin, hbig⟩ := h.largest hne
    rw [if_pos (by omega), show (-(m : ℤ) - -(n : ℤ)).toNat = n - m by omega]
    obtain ⟨h₁, h₂, h₃⟩ := divByDb_bounds 65536 (by norm_num) (n - m)
    have hmul : ratio n = ratio (n - m) * ratio m := by rw [← ratio_add, Nat.sub_add_cancel hle]
    have hpos := (ratio_pos m).le
    have j₁ := mul_le_mul_of_nonneg_right h₁ hpos
    have j₂ := mul_le_mul_of_nonneg_right h₂ hpos
    refine ⟨m, rfl, ?_, ?_, by simp, fun _ => ⟨by simp [hmem], ?_, ?_⟩, ?_, ?_⟩
    · rw [hlen', h.count]
    · dsimp only
      omega
    · intro x hx
      obtain hx | rfl := by simpa using hx
      · exact hmin x hx
      · exact hle
    · dsimp only
      omega
    all_goals
      rw [power_append, hlen', hmul, Nat.mod_eq_of_lt (by omega)]
      push_cast at j₁ j₂ ⊢
      linarith
  · rw [if_neg (by omega), show (-(n : ℤ) - -(m : ℤ)).toNat = m - n by omega]
    obtain ⟨h₁, h₂, h₃⟩ := divByDb_bounds a.sumFactor (by omega) (m - n)
    have hmul : ratio m = ratio (m - n) * ratio n := by
      rw [← ratio_add, Nat.sub_add_cancel (by omega)]
    have hpos := (ratio_pos n).le
    have j₁ := mul_le_mul_of_nonneg_right h₁ hpos
    have j₂ := mul_le_mul_of_nonneg_right h₂ hpos
    have hS : (a.sumFactor : ℝ) * ratio m = a.sumFactor * ratio (m - n) * ratio n := by
      rw [hmul, mul_assoc]
    have hanti : ratio m ≤ ratio n := ratio_anti (by omega)
    have hanti' := mul_le_mul_of_nonneg_left hanti (Nat.cast_nonneg (α := ℝ) levels.length)
    refine ⟨n, rfl, ?_, ?_, by simp, fun _ => ⟨by simp, ?_, ?_⟩, ?_, ?_⟩
    · rw [hlen', h.count]
    · dsimp only
      omega
    · intro x hx
      obtain hx | rfl := by simpa using hx
      · have := (h.largest (ne_nil_of_mem hx)).2.1 x hx
        omega
      · exact le_rfl
    · dsimp only
      omega
    all_goals
      rw [power_append, hlen', Nat.mod_eq_of_lt (by omega)]
      push_cast at j₁ j₂ ⊢
      linarith

def validLevels (negDbmValues : List ℕ) : List ℕ := negDbmValues.filter (· ≠ 0xff)

theorem foldl_addLevel_bounds (vs : List ℕ) (hlen : vs.length ≤ 255)
    (hv : ∀ v ∈ validLevels vs, v ≤ 127) :
    ∃ m, (vs.foldl Average.addLevel {}).Sums m (validLevels vs) := by
  induction vs using List.reverseRecOn with
  | nil => exact ⟨128, by simp, rfl, by simp, fun _ => rfl, fun h => absurd rfl h,
      by simp [validLevels, power], by simp [validLevels, power]⟩
  | append_singleton vs v ih =>
    rw [length_append, length_singleton] at hlen
    obtain ⟨m, h⟩ := ih (by omega) fun w hw => hv w (by simp_all [validLevels])
    rw [foldl_append, foldl_cons, foldl_nil]
    by_cases hff : v = 0xff
    · refine ⟨m, ?_⟩
      simpa [validLevels, Average.addLevel, hff] using h
    have hvalid : validLevels (vs ++ [v]) = validLevels vs ++ [v] := by
      simp [validLevels, hff]
    rw [hvalid] at hv ⊢
    apply addLevel_bounds h _ (hv v (by simp))
    have : (validLevels vs).length ≤ vs.length := length_filter_le ..
    omega

/-! ### The average -/

theorem stepsDown_eq {f i : ℕ} (hi : i < 256) (hle : divByDb 0xe429 i ≤ f) :
    ∃ j ≤ i, (∀ n, i < n → stepsDown f n 0 = some j) ∧ divByDb 0xe429 j ≤ f ∧
      ∀ k < j, f < divByDb 0xe429 k := by
  have hex : ∃ j, divByDb 0xe429 j ≤ f := ⟨i, hle⟩
  have hfind : Nat.find hex ≤ i := Nat.find_min' hex hle
  have hrun (n k : ℕ) (hk : k ≤ Nat.find hex) (hn : Nat.find hex < k + n) :
      stepsDown f n k = some (Nat.find hex) := by
    induction n generalizing k with
    | zero => omega
    | succ n ih =>
      rw [stepsDown, Nat.mod_eq_of_lt (by omega)]
      by_cases hlt : k < Nat.find hex
      · rw [if_pos (Nat.lt_of_not_le (Nat.find_min hex hlt))]
        exact ih (k + 1) hlt (by omega)
      · obtain rfl : k = Nat.find hex := by omega
        rw [if_neg (Nat.not_lt.mpr (Nat.find_spec hex))]
  exact ⟨Nat.find hex, hfind, fun n hn => hrun n 0 (Nat.zero_le _) (by omega), Nat.find_spec hex,
    fun k hk => Nat.lt_of_not_le (Nat.find_min hex hk)⟩

theorem averageFactor_bounds {a : Average} {m : ℕ} {levels : List ℕ} (h : a.Sums m levels)
    (hne : levels ≠ []) :
    ((a.sumFactor / a.count : ℕ) - 1 / 64) * ratio m ≤ 65536 * (power levels / levels.length) ∧
      65536 * (power levels / levels.length) ≤ ((a.sumFactor / a.count : ℕ) + 3) * ratio m := by
  rw [h.count]
  have hc : (0 : ℝ) < levels.length := by exact_mod_cast length_pos_of_ne_nil hne
  have hpos := ratio_pos m
  have hdiv : ((a.sumFactor / levels.length : ℕ) * levels.length : ℝ) ≤ a.sumFactor := by
    exact_mod_cast Nat.div_mul_le_self ..
  have hmod : (a.sumFactor : ℝ) ≤ ((a.sumFactor / levels.length : ℕ) + 1) * levels.length := by
    exact_mod_cast (Nat.lt_mul_of_div_lt (Nat.lt_succ_self _)
      (length_pos_of_ne_nil hne)).le
  have hup := h.upper
  have hlow := h.lower
  have h₁ := mul_le_mul_of_nonneg_right hdiv hpos.le
  have h₂ := mul_le_mul_of_nonneg_right hmod hpos.le
  rw [mul_div_assoc', le_div_iff₀ hc, div_le_iff₀ hc]
  constructor <;> linarith

theorem power_bounds {levels : List ℕ} (hne : levels ≠ []) {m v : ℕ}
    (hm : ∀ n ∈ levels, m ≤ n) (hv : ∀ n ∈ levels, n ≤ v) :
    ratio v ≤ power levels / levels.length ∧ power levels / levels.length ≤ ratio m := by
  have hc : (0 : ℝ) < levels.length := by exact_mod_cast length_pos_of_ne_nil hne
  rw [le_div_iff₀ hc, div_le_iff₀ hc]
  constructor
  · have := card_nsmul_le_sum (levels.map ratio) (ratio v) fun x hx => by
      obtain ⟨n, hn, rfl⟩ := mem_map.mp hx
      exact ratio_anti (hv n hn)
    simpa [power, mul_comm] using this
  · have := sum_le_card_nsmul (levels.map ratio) (ratio m) fun x hx => by
      obtain ⟨n, hn, rfl⟩ := mem_map.mp hx
      exact ratio_anti (hm n hn)
    simpa [power, mul_comm] using this

section steps

variable {f m j : ℕ} {mean : ℝ}

theorem divByDb_le_factor (hj : j ≤ 24) (hmean : ratio (m + j) ≤ mean)
    (hhi : 65536 * mean ≤ (f + 3) * ratio m) : divByDb 0xe429 j ≤ f := by
  have hstep := (divByDb_bounds 0xe429 (by norm_num) j).2.1
  have hj' := ratio_24.1.trans (ratio_anti hj)
  have hfac : 65536 * ratio j * ratio m ≤ (f + 3) * ratio m := by
    rw [ratio_add] at hmean
    linarith
  have hfac' := le_of_mul_le_mul_right hfac (ratio_pos m)
  have : (divByDb 0xe429 j : ℝ) ≤ f := by
    linarith
  exact_mod_cast this

theorem ratio_le_mean (hj : j ≤ 24) (hle : divByDb 0xe429 j ≤ f)
    (hlo : (f - 1 / 64) * ratio m ≤ 65536 * mean) : ratio (m + j + 1) ≤ mean := by
  have hstep := (divByDb_bounds 0xe429 (by norm_num) j).1
  have hj' := ratio_24.1.trans (ratio_anti hj)
  have hle' : (divByDb 0xe429 j : ℝ) ≤ f := by exact_mod_cast hle
  have hone := mul_le_mul_of_nonneg_left ratio_one_le (ratio_pos j).le
  have hfac : 65536 * (ratio j * ratio 1) ≤ f - 1 / 64 := by
    push_cast at hstep
    linarith
  have := mul_le_mul_of_nonneg_right hfac (ratio_pos m).le
  rw [ratio_add, ratio_add]
  linarith

theorem mean_le_ratio (hj : j ≤ 24) (hlt : f < divByDb 0xe429 j)
    (hhi : 65536 * mean ≤ (f + 3) * ratio m) : mean ≤ ratio (m + j) := by
  have hstep := (divByDb_bounds 0xe429 (by norm_num) j).2.1
  have hj' := ratio_24.1.trans (ratio_anti hj)
  have hlt' : (f : ℝ) ≤ divByDb 0xe429 j := by exact_mod_cast hlt.le
  have hfac : (f + 3 : ℝ) ≤ 65536 * ratio j := by
    linarith
  have := mul_le_mul_of_nonneg_right hfac (ratio_pos m).le
  rw [ratio_add]
  linarith

end steps

/-- The result is between the smallest and the largest valid level and within 1 dB of the mean
power. -/
theorem averageNegDbm_spec (vs : List ℕ) (hlen : vs.length ≤ 255)
    (hv : ∀ v ∈ validLevels vs, v ≤ 127) (hne : validLevels vs ≠ []) :
    ∃ r : ℤ, (∀ n, 24 < n → averageNegDbm n vs = some r) ∧
      (∃ v ∈ validLevels vs, -(v : ℤ) ≤ r) ∧ (∃ v ∈ validLevels vs, r ≤ -(v : ℤ)) ∧
      (∀ c, (∀ v ∈ validLevels vs, v = c) → r = -(c : ℤ)) ∧
      (10 : ℝ) ^ (((r : ℝ) - 1) / 10) ≤ power (validLevels vs) / (validLevels vs).length ∧
      power (validLevels vs) / (validLevels vs).length ≤ (10 : ℝ) ^ (((r : ℝ) + 1) / 10) := by
  obtain ⟨m, h⟩ := foldl_addLevel_bounds vs hlen hv
  have hcount : (validLevels vs).length ≤ 255 := (length_filter_le ..).trans hlen
  obtain ⟨hmem, hmin, hbig⟩ := h.largest hne
  obtain ⟨hlo, hhi⟩ := averageFactor_bounds h hne
  have hcpos : (vs.foldl Average.addLevel {}).count ≠ 0 := by
    rw [h.count]
    exact (length_pos_of_ne_nil hne).ne'
  unfold averageNegDbm
  simp only [if_neg hcpos, h.magnitude]
  have hf : 257 ≤ (vs.foldl Average.addLevel {}).sumFactor / (vs.foldl Average.addLevel {}).count := by
    rw [h.count, Nat.le_div_iff_mul_le (length_pos_of_ne_nil hne)]
    omega
  generalize (vs.foldl Average.addLevel {}).sumFactor / (vs.foldl Average.addLevel {}).count = f at *
  obtain ⟨v, hvmem, hvmax⟩ := (validLevels vs).toFinset.exists_max_image id ⟨m, by simpa using hmem⟩
  simp only [mem_toFinset, id_eq] at hvmem hvmax
  obtain ⟨hmlo, hmhi⟩ := power_bounds hne hmin hvmax
  have h24 : divByDb 0xe429 24 ≤ f := by
    have hstep := (divByDb_bounds 0xe429 (by norm_num) 24).2.1
    have hratio := ratio_24.2
    have : (divByDb 0xe429 24 : ℝ) < 257 := by
      linarith
    exact (Nat.cast_lt.mp (this.trans_eq (by norm_num : (257 : ℝ) = (257 : ℕ)))).le.trans hf
  obtain ⟨j, hj, hrun, hle, hgt⟩ := stepsDown_eq (by norm_num) h24
  have hjv : m + j ≤ v := by
    have hmv := hmin v hvmem
    by_contra hlt
    have := divByDb_le_factor (j := v - m) (by omega) (by rwa [Nat.add_sub_cancel' hmv]) hhi
    have := hgt (v - m) (by omega)
    omega
  have hv127 := hv v hvmem
  refine ⟨-(m + j : ℕ), fun n hn => ?_, ⟨v, hvmem, by omega⟩, ⟨m, hmem, by omega⟩, ?_, ?_, ?_⟩
  · rw [hrun n hn, Option.map_some]
    congr 1
    omega
  · intro c hc
    have := hc m hmem
    have := hc v hvmem
    omega
  · refine Eq.trans_le ?_ (ratio_le_mean hj hle hlo)
    congr 1
    push_cast
    ring
  cases j with
  | zero =>
    refine hmhi.trans (Real.rpow_le_rpow_of_exponent_le (by norm_num) ?_)
    push_cast
    linarith
  | succ j =>
    refine (mean_le_ratio (by omega) (hgt j (Nat.lt_succ_self j)) hhi).trans_eq ?_
    rw [ratio]
    congr 1
    push_cast
    ring

theorem averageNegDbm_spec_two :
    (∀ v ∈ validLevels [60, 0xff, 80], v ≤ 127) ∧ ∃ r : ℤ, averageNegDbm 25 [60, 0xff, 80] = some r ∧
      -80 ≤ r ∧ r ≤ -60 := by
  have hvalid : validLevels [60, 0xff, 80] = [60, 80] := by decide
  have hv : ∀ v ∈ validLevels [60, 0xff, 80], v ≤ 127 := by decide
  obtain ⟨r, hrun, ⟨v, hv₁, h₁⟩, ⟨w, hw, h₂⟩, -⟩ :=
    averageNegDbm_spec [60, 0xff, 80] (by decide) hv (by decide)
  rw [hvalid] at hv₁ hw
  simp only [mem_cons, not_mem_nil, or_false] at hv₁ hw
  exact ⟨hv, r, hrun 25 (by norm_num), by omega, by omega⟩

end Iwlwifi.Iwl
