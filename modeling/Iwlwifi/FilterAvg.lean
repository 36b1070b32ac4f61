import Mathlib.Tactic

/-! # The success average of a rate

A model of `minstrel_filter_avg_add` (`net/mac80211/rc80211_minstrel_ht.c`), a filter of second order
over the measured success probabilities of a rate.  An average of 0 stands for a rate that has not
been measured.

* `avg_reserves_zero`: if all probabilities are at least 1/4, the averages lie in 1..4096;
  `avg_hits_zero`: three probabilities after which the average is 0, so that the next one restarts
  the filter. -/

namespace Iwlwifi.Ieee80211.Minstrel

def avgCoeff2 : ℤ := 0x1499

def avgCoeff3 : ℤ := -0x92e

def avgCoeff1 : ℤ := 2 ^ 12 - avgCoeff2 - avgCoeff3

/-- `prob_avg` and `prob_avg_1` of a rate. -/
structure Avg where
  prev1 : ℤ := 0
  prev2 : ℤ := 0
deriving DecidableEq

/-- `minstrel_filter_avg_add`; the shift rounds down. -/
def minstrelFilterAvgAdd (avg : Avg) (input : ℤ) : Avg :=
  let input := if input = 0 then input + 1 else input
  if avg.prev1 = 0 then ⟨input, input⟩
  else
    let val := (avgCoeff1 * input + avgCoeff2 * avg.prev1 + avgCoeff3 * avg.prev2) / 2 ^ 12
    let val := if 2 ^ 12 < val then 2 ^ 12 else val
    ⟨if val < 0 then 1 else val, avg.prev1⟩

/-- Where the averages stay if no input is below 1024. -/
structure Avg.Steady (avg : Avg) : Prop where
  range1 : 68 ≤ avg.prev1 ∧ avg.prev1 ≤ 4096
  range2 : 68 ≤ avg.prev2 ∧ avg.prev2 ≤ 4096
  double : avg.prev2 ≤ 2 * avg.prev1 + 407
  single : avg.prev2 ≤ avg.prev1 + 1135
  half : 2 * avg.prev2 ≤ avg.prev1 + 4977

theorem steady_add {avg : Avg} {input : ℤ} (hin : 1024 ≤ input ∧ input ≤ 4096)
    (h : avg = {} ∨ avg.Steady) : (minstrelFilterAvgAdd avg input).Steady := by
  unfold minstrelFilterAvgAdd
  dsimp only
  rw [if_neg (show input ≠ 0 by omega)]
  obtain rfl | ⟨h₁, h₂, hdouble, hsingle, hhalf⟩ := h
  · rw [if_pos rfl]
    constructor <;> dsimp only <;> omega
  rw [if_neg (show avg.prev1 ≠ 0 by omega)]
  generalize hval : (avgCoeff1 * input + avgCoeff2 * avg.prev1 + avgCoeff3 * avg.prev2) / 2 ^ 12 = val
  simp only [avgCoeff1, avgCoeff2, avgCoeff3] at hval
  have hle : 68 ≤ val ∧ avg.prev1 ≤ 2 * val + 407 ∧ avg.prev1 ≤ val + 1135 ∧
      2 * avg.prev1 ≤ val + 4977 := by omega
  refine ⟨?_, h₁, ?_, ?_, ?_⟩ <;> dsimp only <;> split_ifs <;> omega

/-- **Reserved zero**, for probabilities of at least 1/4. -/
theorem avg_reserves_zero {inputs : List ℤ} {avg : Avg} (hne : inputs ≠ [])
    (h : ∀ input ∈ inputs, 1024 ≤ input ∧ input ≤ 4096)
    (havg : inputs.foldl minstrelFilterAvgAdd {} = avg) :
    (1 ≤ avg.prev1 ∧ avg.prev1 ≤ 4096) ∧ 1 ≤ avg.prev2 ∧ avg.prev2 ≤ 4096 := by
  subst havg
  have hsteady : (inputs.foldl minstrelFilterAvgAdd {}).Steady := by
    induction inputs using List.reverseRecOn with
    | nil => exact absurd rfl hne
    | append_singleton inputs input ih =>
      rw [List.foldl_concat]
      apply steady_add (h input (by simp))
      by_cases hnil : inputs = []
      · exact .inl (by rw [hnil, List.foldl_nil])
      · exact .inr (ih hnil fun x hx => h x (by simp [hx]))
  obtain ⟨h₁, h₂, -⟩ := hsteady
  omega

theorem avg_reserves_zero_falling : let avg := [4096, 1024, 1024].foldl minstrelFilterAvgAdd {}
    (1 ≤ avg.prev1 ∧ avg.prev1 ≤ 4096) ∧ 1 ≤ avg.prev2 ∧ avg.prev2 ≤ 4096 :=
  avg_reserves_zero (by simp) (by decide) rfl

/-- With the averages 1 and 2, a probability of 0 gives 0, and what comes next is taken as it is. -/
theorem avg_hits_zero : [2, 0, 0].foldl minstrelFilterAvgAdd {} = ⟨0, 1⟩ ∧
    [2, 0, 0, 4096].foldl minstrelFilterAvgAdd {} = ⟨4096, 4096⟩ := by
  decide

end Iwlwifi.Ieee80211.Minstrel
