import Iwlwifi.ChandefDowngrade

/-! # Power tables per subchannel

The Transmit Power Envelope element of an access point lists a power limit for each 20 MHz subchannel:
first for the subchannels of a primary part of the channel, and then for the others in ascending
order.  A station that uses a primary part of its own puts them into the order of the frequencies
(`net/mac80211/mlme.c`, `net/mac80211/parse.c`).

* **Model.**  `parseTpePsd` reads an element, `calcChandefSubchanOffset` counts the subchannels below
  a primary part by downgrading the channel again and again, `rearrangeTpePsd` reorders the table.
* **What is meant** (`elementOrder`, `subchansBelow`), in terms of the frequencies of the parts.
* **Offsets** (`subchanLoop_spec`).  A downgrade that skips a width counts at most the subchannels of
  its result.  The sum is right if and only if every part that is skipped lies at the lower end of
  the next wider one, and the control channel in its lower half (`LowestWhenSkipped`). -/

namespace Iwlwifi.Ieee80211.Tpe

open Cfg80211 Halving List

variable {κ : Type} {channels : κ → Channel} {ap e : ChanDef κ} {m s p t j : ℕ}

/-! ### Tables -/

/-- `struct ieee80211_parsed_tpe_psd`. -/
structure ParsedTpePsd where
  valid : Bool
  power : ℕ → Int8
  count : ℕ
  n : ℕ

/-- `IEEE80211_TPE_PSD_NO_LIMIT`. -/
def noLimit : Int8 := 127

/-- `IEEE80211_TPE_PSD_ENTRIES_320MHZ`. -/
def psdEntries : ℕ := 16

/-- `env->variable[i]`; the element has been checked to be long enough. -/
def entry (variable_ : List UInt8) (i : ℕ) : Int8 := (variable_.getD i 0).toInt8

/-- `ieee80211_valid_tpe_element`, for the interpretations with a PSD. -/
def validTpePsd (count : ℕ) (variable_ : List UInt8) : Bool :=
  if 4 < count then false
  else
    let n := if count ≠ 0 then 1 <<< (count - 1) else 1
    if variable_.length < n then false
    else if n < variable_.length then
      let k := (variable_.getD n 0).toNat % 16
      decide (n + 1 + k ≤ variable_.length)
    else true

/-- `ieee80211_parse_tpe` for a PSD: `count` is the field of `info`, and `variable_` what follows
it. -/
def parseTpePsd (count : ℕ) (variable_ : List UInt8) (psd : ParsedTpePsd) : ParsedTpePsd :=
  if !validTpePsd count variable_ then psd
  else if count = 0 then
    { psd with valid := true, power := fun _ => entry variable_ 0, count := psdEntries }
  else
    let n := 1 <<< (count - 1)
    let k := if n < variable_.length then min ((variable_.getD n 0).toNat % 16) (psdEntries - n) else 0
    { valid := true
      power := fun i =>
        if i < n then entry variable_ i
        else if i < n + k then entry variable_ (i + 1)
        else psd.power i
      count := n + k
      n := n }

/-- `ieee80211_chandef_num_subchans`. -/
def numSubchans (c : ChanDef κ) : ℕ :=
  if c.width = .width80p80 then 4 + 4 else (c.getWidth.tdiv 20).toNat

/-- The loop of `ieee80211_calc_chandef_subchan_offset`, with a bound on the number of iterations.
-/
def subchanLoop (channels : κ → Channel) (nPartialSubchans : ℕ) : ℕ → ChanDef κ → ℕ → Option ℕ
  | 0, _, _ => none
  | fuel + 1, tmp, offset =>
    if nPartialSubchans < numSubchans tmp then
      -- the settings of the connection are ignored
      match chandefDowngrade channels tmp ⟨.s1g, .limit20⟩ with
      | none => none
      | some (next, _) =>
        subchanLoop channels nPartialSubchans fuel next
          (if tmp.centerFreq1 < next.centerFreq1 then offset + numSubchans next else offset)
    else some offset

/-- `ieee80211_calc_chandef_subchan_offset`. -/
def calcChandefSubchanOffset (channels : κ → Channel) (ap : ChanDef κ) (nPartialSubchans : ℕ) :
    Option ℕ :=
  let n := numSubchans ap
  if n = nPartialSubchans then some 0
  else if n < nPartialSubchans then some 0
  else
    (subchanLoop channels nPartialSubchans 6 ap 0).map fun offset =>
      if ap.width = .width80p80 ∧ ap.centerFreq2 < ap.centerFreq1 then offset + 4 else offset

/-- `ieee80211_rearrange_tpe_psd`. -/
def rearrangeTpePsd (channels : κ → Channel) (psd : ParsedTpePsd) (ap used : ChanDef κ) :
    Option ParsedTpePsd :=
  let needed := numSubchans used
  let limit (psd : ParsedTpePsd) : ParsedTpePsd := { psd with count := min psd.count needed }
  if !psd.valid then some psd
  else if psd.n = 0 then some (limit psd)
  else do
    -- first reorder according to the AP channel
    let offset ← calcChandefSubchanOffset channels ap psd.n
    let tmp := fun i =>
      if i < offset then psd.power (i + psd.n)
      else if i < offset + psd.n then psd.power (i - offset)
      else psd.power i
    -- and then select the subset for the used channel
    let offset ← calcChandefSubchanOffset channels ap needed
    pure (limit { psd with power := fun i => if i < needed then tmp (offset + i) else noLimit })

/-! ### What is meant -/

/-- The subchannels of the AP channel below its primary part with `2 ^ j` of them. -/
def subchansBelow (channels : κ → Channel) (ap : ChanDef κ) (j : ℕ) : ℕ :=
  if numSubchans ap = 2 ^ j then 0
  else
    subchannelOffset (primaryPart channels ap (partWidth j)) ap +
      if ap.width = .width80p80 ∧ ap.centerFreq2 < ap.centerFreq1 then 4 else 0

/-- The subchannels of a channel with `total` of them in the order of the element, whose first `n`
entries are for the subchannels from number `below` on. -/
def elementOrder (total below n : ℕ) : List ℕ :=
  List.range' below n ++ List.range below ++ List.range' (below + n) (total - (below + n))

def elementValue (power : ℕ → Int8) (total below n x : ℕ) : Int8 :=
  power ((elementOrder total below n).idxOf x)

/-- The channel has a primary part with `2 ^ j` subchannels, or is one. -/
def HasPart (ap : ChanDef κ) (j : ℕ) : Prop := 2 ^ j ≤ numSubchans ap

/-- Offsets and tables follow the frequencies: `used` is the AP channel or a primary part of it, and
the element has `2 ^ i` entries for the primary part. -/
def FollowsFrequencies (channels : κ → Channel) (ap : ChanDef κ) : Prop :=
  (∀ j, HasPart ap j →
    calcChandefSubchanOffset channels ap (2 ^ j) = some (subchansBelow channels ap j)) ∧
  ∀ (i j : ℕ) (used : ChanDef κ) (psd : ParsedTpePsd), HasPart ap i → HasPart ap j →
    numSubchans used = 2 ^ j → psd.valid = true → psd.n = 2 ^ i →
    ∃ psd', rearrangeTpePsd channels psd ap used = some psd' ∧
      ∀ x < numSubchans used, psd'.power x =
        elementValue psd.power (numSubchans ap) (subchansBelow channels ap i) (2 ^ i)
          (subchansBelow channels ap j + x)

/-- A primary part that is punctured so that it is not a valid channel. -/
def SkippedPart (channels : κ → Channel) (ap : ChanDef κ) (j : ℕ) : Prop :=
  chandefValid channels (primaryPart channels ap (partWidth j)) = false ∧
    (primaryPart channels ap (partWidth j)).punctured ≠ 0

instance (channels : κ → Channel) (ap : ChanDef κ) (j : ℕ) : Decidable (SkippedPart channels ap j) :=
  inferInstanceAs (Decidable (_ ∧ _))

/-- Every such part starts at the same frequency as the next wider and the next narrower part. -/
def LowestWhenSkipped (channels : κ → Channel) (ap : ChanDef κ) : Prop :=
  ∀ j < ap.width.halvings, SkippedPart channels ap j →
    (primaryPart channels ap (partWidth j)).lowEdge =
        (primaryPart channels ap (partWidth (j + 1))).lowEdge ∧
      (primaryPart channels ap (partWidth (j - 1))).lowEdge =
        (primaryPart channels ap (partWidth j)).lowEdge

/-! ### Offsets -/

theorem skippedPart_zero (h : Placed channels e m s p) (hbit : e.punctured.toNat.testBit p = false) :
    ¬ SkippedPart channels e 0 := by
  rintro ⟨-, hne⟩
  apply hne
  rw [primaryPart_eq h (by omega)]
  exact partPunctured_zero hbit

theorem skippedPart_primaryPart (h : Placed channels e m s p) {i k : ℕ} (hk : k ≤ i) (hi : i ≤ m) :
    SkippedPart channels (primaryPart channels e (partWidth i)) k ↔ SkippedPart channels e k := by
  unfold SkippedPart
  rw [primaryPart_primaryPart h hk hi]

theorem numSubchans_eq (h : Placed channels e m s p) (hw : e.width ≠ .width80p80) :
    numSubchans e = 2 ^ m := by
  have hdiv : (20 * 2 ^ m : ℤ).tdiv 20 = 2 ^ m := by
    rw [Int.mul_tdiv_cancel_left _ (by omega)]
  rw [numSubchans, if_neg hw, h.width, hdiv]
  exact_mod_cast rfl

theorem center_lt_iff (h : Placed channels e (j + 1) s p) {i : ℕ} (hi : i ≤ j) :
    e.centerFreq1 < (primaryPart channels e (partWidth i)).centerFreq1 ↔ p.testBit j = true := by
  have hc := h.center
  have hc' := (primaryPart_placed h (j := i) (by omega)).center
  have hlow := low_step j p
  have hmono := low_mono hi p
  rw [low_eq_zero h.primary] at hlow
  have hpow : 2 ^ (j + 1) = 2 * 2 ^ j := by rw [Nat.pow_succ, Nat.mul_comm]
  have hpos := Nat.two_pow_pos i
  rw [UInt32.lt_iff_toNat_lt, hc, hc', hpow]
  split at hlow
  next hb =>
    simp only [hb, iff_true]
    omega
  rename_i hb
  simp only [hb, Bool.false_eq_true, iff_false]
  omega

/-- The condition for a right offset of the part with `2 ^ t` subchannels. -/
def LowestBetween (channels : κ → Channel) (e : ChanDef κ) (j t p : ℕ) : Prop :=
  ∀ k < j, SkippedPart channels e k →
    (t ≤ k → low k p = low (k + 1) p) ∧ (t + 1 ≤ k → low (k - 1) p = low k p)

theorem low_eq_of_low_eq {a b k : ℕ} (h : low a p = low b p) (ha : a ≤ k) (hk : k ≤ b) :
    low k p = low b p := by
  have h₁ := (low_mono ha p).1
  have h₂ := (low_mono hk p).1
  omega

/-- If the parts from `b - 1` down to `a + 1` are skipped and lie lowest, so does part `a`. -/
theorem low_eq_of_skipped {a b : ℕ} (hab : a < b)
    (hskip : ∀ k, a < k → k < b → low k p = low (k + 1) p ∧ low (k - 1) p = low k p)
    (hne : a + 1 < b) : low a p = low b p := by
  induction b, hab using Nat.le_induction with
  | base => omega
  | succ b hb ih =>
    have hstep := (hskip b hb (by omega)).1
    obtain heq | hlt := Nat.eq_or_lt_of_le hb
    · obtain rfl : b = a + 1 := heq.symm
      have h₁ := (hskip (a + 1) (by omega) (by omega)).2
      rw [Nat.add_sub_cancel] at h₁
      omega
    · rw [ih (fun k h₁ h₂ => hskip k h₁ (by omega)) hlt, hstep]

theorem downgrade_count {i : ℕ} (hi : i ≤ j) (ht : t ≤ j) (hp : p < 2 ^ (j + 1)) :
    (if p.testBit j then 2 ^ i else 0) ≤ low (max i t) p ∧
      ((if p.testBit j then 2 ^ i else 0) = low (max i t) p ↔ i = j ∨ low (max i t) p = 0) := by
  have hstep := low_step j p
  rw [low_eq_zero hp, Nat.zero_add] at hstep
  have hmono := (low_mono (show max i t ≤ j by omega) p).1
  obtain rfl | hlt := Nat.eq_or_lt_of_le hi
  · rw [Nat.max_eq_left ht, hstep]
    simp
  have hpow : 2 ^ i < 2 ^ j := Nat.pow_lt_pow_right (by omega) hlt
  split at hstep
  next hb =>
    rw [if_pos hb]
    refine ⟨by omega, ?_⟩
    constructor
    · intro h
      omega
    · rintro (h | h) <;> omega
  next hb =>
    rw [if_neg hb]
    refine ⟨by omega, ?_⟩
    constructor
    · intro h
      exact .inr h.symm
    · rintro (h | h) <;> omega

theorem lowestBetween_split {i : ℕ} (hi : i ≤ j) (ht : t ≤ j) (hp : p < 2 ^ (j + 1))
    (hnot : ¬ SkippedPart channels e i)
    (hpassed : ∀ k, i < k → k ≤ j → SkippedPart channels e k) :
    LowestBetween channels e (j + 1) t p ↔
      (i = j ∨ low (max i t) p = 0) ∧ LowestBetween channels e i t p := by
  have htop := low_eq_zero hp
  constructor
  · intro h
    refine ⟨?_, fun k hk => h k (by omega)⟩
    obtain rfl | hlt := Nat.eq_or_lt_of_le hi
    · exact .inl rfl
    right
    rw [← htop]
    obtain hj | hj := Nat.eq_or_lt_of_le (show max i t ≤ j by omega)
    · rw [hj]
      exact (h j (by omega) (hpassed j hlt le_rfl)).1 ht
    refine low_eq_of_skipped (by omega) ?_ (by omega)
    intro k h₁ h₂
    have hk := h k h₂ (hpassed k (by omega) (by omega))
    exact ⟨hk.1 (by omega), hk.2 (by omega)⟩
  · rintro ⟨h₁, h₂⟩ k hk hskip
    obtain hki | rfl | hik := Nat.lt_trichotomy k i
    · exact h₂ k hki hskip
    · exact absurd hskip hnot
    -- the skipped parts lie lowest because part `max i t` does
    have h0 := h₁.resolve_left (by omega)
    rw [← htop] at h0
    have hall : ∀ k', max i t ≤ k' → k' ≤ j + 1 → low k' p = low (j + 1) p :=
      fun k' ha hb => low_eq_of_low_eq h0 ha hb
    refine ⟨fun htk => ?_, fun htk => ?_⟩
    · rw [hall k (by omega) (by omega), hall (k + 1) (by omega) (by omega)]
    · rw [hall k (by omega) (by omega), hall (k - 1) (by omega) (by omega)]

theorem lowestBetween_primaryPart (h : Placed channels e m s p) {i : ℕ} (hi : i ≤ m) :
    LowestBetween channels (primaryPart channels e (partWidth i)) i t (p - low i p) ↔
      LowestBetween channels e i t p := by
  have hlow : ∀ k ≤ i, low k p = low i p + low k (p - low i p) := fun k hk => low_eq_add hk p
  refine forall₂_congr fun k hk => ?_
  rw [skippedPart_primaryPart h hk.le hi]
  have h₁ := hlow k hk.le
  have h₂ := hlow (k + 1) hk
  have h₃ := hlow (k - 1) (by omega)
  refine imp_congr_right fun _ => and_congr (imp_congr_right fun _ => ?_) (imp_congr_right fun _ => ?_)
  · omega
  · omega

/-- **The loop.**  It counts at most the subchannels below the part, and exactly those if and only if
the parts that it skips lie lowest. -/
theorem subchanLoop_spec (t : ℕ) : ∀ (j : ℕ) (fuel : ℕ) (e : ChanDef κ) (s p offset : ℕ), t ≤ j →
    j < fuel → Placed channels e j s p → e.width = partWidth j → e.centerFreq2 = 0 →
    e.punctured.toNat.testBit p = false →
    ∃ o, subchanLoop channels (2 ^ t) fuel e offset = some (offset + o) ∧ o ≤ low t p ∧
      (o = low t p ↔ LowestBetween channels e j t p) := by
  intro j
  induction j using Nat.strongRecOn with
  | ind j ih =>
    intro fuel e s p offset htj hfuel h hw h2 hbit
    obtain ⟨fuel, rfl⟩ : ∃ f, fuel = f + 1 := ⟨fuel - 1, by omega⟩
    have hsize := h.size
    have h80 : partWidth j ≠ .width80p80 := by
      interval_cases j
      all_goals decide
    have hnum := numSubchans_eq h (hw ▸ h80)
    unfold subchanLoop
    rw [hnum]
    obtain rfl | hlt := Nat.eq_or_lt_of_le htj
    · -- nothing to do
      rw [if_neg (lt_irrefl _)]
      refine ⟨0, rfl, Nat.zero_le _, ?_⟩
      rw [low_eq_zero h.primary]
      refine ⟨fun _ k hk _ => ⟨fun _ => by omega, fun _ => by omega⟩, fun _ => rfl⟩
    rw [if_pos (Nat.pow_lt_pow_right (by omega) hlt)]
    obtain ⟨j, rfl⟩ : ∃ j', j = j' + 1 := ⟨j - 1, by omega⟩
    obtain ⟨i, hi, conn, hdown, hend, hpassed⟩ := downgradeLoop_spec j 5 e s p ⟨.s1g, .limit20⟩
      (by omega) h hw h2 hbit
    have hdown' : chandefDowngrade channels e ⟨.s1g, .limit20⟩ = _ := hdown
    rw [hdown']
    dsimp only
    have hnext := primaryPart_placed h (j := i) (by omega)
    have h80' : (primaryPart channels e (partWidth i)).width ≠ .width80p80 :=
      (partWidth_cases (show i ≤ 3 by omega)).2.2.1
    obtain ⟨hcount, hcount_iff⟩ := downgrade_count (i := i) (t := t) hi (by omega) h.primary
    have hnot : ¬ SkippedPart channels e i := by
      rintro ⟨hv, hp⟩
      rw [hv] at hend
      exact hp (hend.resolve_left (by decide))
    rw [numSubchans_eq hnext h80']
    simp only [center_lt_iff h hi]
    rw [lowestBetween_split hi (by omega) h.primary hnot hpassed, ← hcount_iff]
    obtain hit | hti := le_or_gt i t
    · -- the loop ends
      obtain ⟨fuel, rfl⟩ : ∃ f, fuel = f + 1 := ⟨fuel - 1, by omega⟩
      have hexit : ¬ 2 ^ t < numSubchans (primaryPart channels e (partWidth i)) := by
        rw [numSubchans_eq hnext h80']
        exact Nat.not_lt.mpr (Nat.pow_le_pow_right (by omega) hit)
      rw [Nat.max_eq_right hit] at hcount hcount_iff ⊢
      refine ⟨if p.testBit j then 2 ^ i else 0, ?_, hcount, ?_⟩
      · unfold subchanLoop
        rw [if_neg hexit]
        split <;> rfl
      · refine ⟨fun ho => ⟨ho, ?_⟩, fun ho => ho.1⟩
        intro k hk _
        exact ⟨fun _ => by omega, fun _ => by omega⟩
    · -- it goes on with part `i`
      rw [Nat.max_eq_left hti.le] at hcount hcount_iff ⊢
      obtain ⟨o, hloop, ho, hiff⟩ := ih i (by omega) fuel (primaryPart channels e (partWidth i)) _ _
        (if p.testBit j = true then offset + 2 ^ i else offset) hti.le (by omega) hnext rfl rfl
        (primaryPart_primary h (by omega) hbit)
      rw [lowestBetween_primaryPart h (by omega)] at hiff
      have hadd := low_eq_add hti.le p
      refine ⟨(if p.testBit j then 2 ^ i else 0) + o, ?_, by omega, ?_⟩
      · rw [hloop]
        split
        · rw [Nat.add_assoc]
        · rw [Nat.zero_add]
      · rw [← hiff]
        omega

/-! ### Offsets of an AP channel -/

theorem subchansBelow_eq (h : Placed channels ap m s p) (hw : ap.width ≠ .width80p80) (ht : t ≤ m) :
    subchansBelow channels ap t = low t p := by
  obtain ⟨hlow, -⟩ := h.edges
  obtain ⟨hlow', -⟩ := (primaryPart_placed h ht).edges
  unfold subchansBelow subchannelOffset
  rw [numSubchans_eq h hw, hlow, hlow']
  by_cases he : 2 ^ m = 2 ^ t
  · rw [if_pos he, ← Nat.pow_right_injective le_rfl he, low_eq_zero h.primary]
  · rw [if_neg he, if_neg (fun hc => hw hc.1)]
    omega

/-- **The offset of a channel of one segment.**  It is at most the number of subchannels below, and
right if and only if the parts that are skipped lie lowest. -/
theorem calcOffset_spec (h : Placed channels ap m s p) (hw : ap.width = partWidth m)
    (h80 : ap.width ≠ .width80p80) (h2 : ap.centerFreq2 = 0)
    (hbit : ap.punctured.toNat.testBit p = false) (ht : t ≤ m) :
    ∃ o, calcChandefSubchanOffset channels ap (2 ^ t) = some o ∧
      (o = subchansBelow channels ap t ↔ LowestBetween channels ap m t p) := by
  have hm := h.size
  have hnum := numSubchans_eq h h80
  rw [subchansBelow_eq h h80 ht]
  unfold calcChandefSubchanOffset
  rw [hnum]
  obtain rfl | hlt := Nat.eq_or_lt_of_le ht
  · rw [if_pos rfl]
    refine ⟨0, rfl, ?_⟩
    rw [low_eq_zero h.primary]
    exact ⟨fun _ k hk _ => ⟨fun _ => by omega, fun _ => by omega⟩, fun _ => rfl⟩
  have hpow : 2 ^ t < 2 ^ m := Nat.pow_lt_pow_right (by omega) hlt
  obtain ⟨o, hloop, -, hiff⟩ := subchanLoop_spec t m 6 ap s p 0 ht (by omega) h hw h2 hbit
  rw [if_neg (by omega), if_neg (by omega), hloop]
  refine ⟨o, ?_, hiff⟩
  rw [Nat.zero_add, Option.map_some, if_neg (fun hc => h80 hc.1)]

theorem primaryPart_unpunctured (h : Placed channels ap m s p) (hpunct : ap.punctured = 0)
    (hj : j ≤ m) : (primaryPart channels ap (partWidth j)).punctured = 0 := by
  rw [primaryPart_eq h hj, hpunct]
  simp [partPunctured, slice]

theorem calcOffset_80p80 (hv : chandefValid channels ap = true) (h80 : ap.width = .width80p80)
    (h : Placed channels ap 2 s p) (ht : t ≤ 3) :
    calcChandefSubchanOffset channels ap (2 ^ t) = some (subchansBelow channels ap t) ∧
      subchansBelow channels ap t + 2 ^ t ≤ numSubchans ap := by
  have hnum : numSubchans ap = 8 := by rw [numSubchans, if_pos h80]
  unfold calcChandefSubchanOffset subchansBelow
  rw [hnum]
  obtain rfl | hlt := Nat.eq_or_lt_of_le ht
  · exact ⟨rfl, le_rfl⟩
  have hpow : 2 ^ t ≤ 2 ^ 2 := Nat.pow_le_pow_right (by omega) (by omega)
  obtain ⟨⟨conn, hdown⟩, hpunct, hpri⟩ := chandefDowngrade_80p80 hv h80 ⟨.s1g, .limit20⟩
  have hpart := primaryPart_placed h (j := 2) le_rfl
  have hbit : ap.punctured.toNat.testBit p = false := by
    rw [hpunct]
    exact Nat.zero_testBit _
  obtain ⟨o, hloop, -, hiff⟩ := subchanLoop_spec t 2 5 (primaryPart channels ap (partWidth 2)) _ _ 0
    (by omega) (by omega) hpart rfl rfl (primaryPart_primary h le_rfl hbit)
  -- nothing is punctured, so nothing is skipped
  have ho := hiff.mpr (by
    intro k hk hskip
    rw [skippedPart_primaryPart h (by omega) le_rfl] at hskip
    exact absurd (primaryPart_unpunctured h hpunct (by omega)) hskip.2)
  rw [low_eq_zero h.primary, Nat.sub_zero] at ho
  obtain ⟨hlow, -⟩ := h.edges
  obtain ⟨hlow', -⟩ := (primaryPart_placed h (j := t) (by omega)).edges
  have hoff : subchannelOffset (primaryPart channels ap (partWidth t)) ap = low t p := by
    unfold subchannelOffset
    omega
  have hcenter : ¬ ap.centerFreq1 < (primaryPart channels ap .width80).centerFreq1 := by
    show ¬ ap.centerFreq1 < (chandefPrimary channels ap .width80).1
    rw [hpri]
    exact UInt32.lt_irrefl _
  have hfirst : subchanLoop channels (2 ^ t) 6 ap 0 = some o := by
    unfold subchanLoop
    rw [hnum, if_pos (by omega), hdown]
    dsimp only
    rw [if_neg hcenter]
    rwa [Nat.zero_add] at hloop
  have hin := (low_mono (show t ≤ 2 by omega) p).2
  rw [low_eq_zero h.primary] at hin
  rw [if_neg (by omega), if_neg (by omega), if_neg (by omega), hfirst, hoff, ho, Option.map_some]
  refine ⟨?_, ?_⟩
  · split <;> rfl
  · split <;> omega

/-! ### Channels in the 6 GHz band -/

def Is6GHz (chan : Channel) : Prop :=
  chan.band = .band6GHz ∧ 5925 ≤ chan.centerFreq.toNat ∧ chan.centerFreq.toNat ≤ 7225

instance (chan : Channel) : Decidable (Is6GHz chan) := inferInstanceAs (Decidable (_ ∧ _ ∧ _))

theorem width_of_6GHz (hv : chandefValid channels ap = true)
    (h6 : ∀ k, ap.chan = some k → Is6GHz (channels k)) :
    numSubchans ap = 1 ∧ ap.width.halvings = 0 ∨ ap.width.wide = true ∧ NoFreqWrap ap := by
  cases hk : ap.chan with
  | none => simp [chandefValid, hk] at hv
  | some k =>
    obtain ⟨hband, hlow, hhigh⟩ := h6 k hk
    obtain ⟨-, hwidth, hcontrol, -⟩ := (chandefValid_iff hk).mp hv
    by_cases hw : ap.width.wide = true
    · right
      refine ⟨hw, ?_⟩
      rw [chandefValidControlFreq_eq hw, atDistance_iff] at hcontrol
      obtain ⟨d, hd, hcenter⟩ := hcontrol
      have hm := (ChanWidth.halvings_spec hw).2.2
      have hd' := (controlDistances_odd hm hd).2
      have hpow : 2 ^ ap.width.halvings ≤ 2 ^ 4 := Nat.pow_le_pow_right (by omega) hm
      unfold NoFreqWrap
      obtain hcenter | hcenter := hcenter
      · rw [hcenter, UInt32.toNat_add]
        omega
      · rw [hcenter, UInt32.toNat_sub]
        omega
    · left
      unfold numSubchans ChanDef.getWidth
      unfold validWidth at hwidth
      unfold chandefValidControlFreq at hcontrol
      cases hc : ap.width <;> rw [hc] at hwidth hcontrol hw <;>
        simp [ChanWidth.wide, hband] at hwidth hcontrol hw
      all_goals exact ⟨rfl, rfl⟩

theorem LowestBetween.of_zero (h : LowestBetween channels e j 0 p) (t : ℕ) :
    LowestBetween channels e j t p := by
  intro k hk hskip
  obtain ⟨h₁, h₂⟩ := h k hk hskip
  exact ⟨fun _ => h₁ (by omega), fun _ => h₂ (by omega)⟩

theorem lowestWhenSkipped_iff (h : Placed channels ap ap.width.halvings s p)
    (hbit : ap.punctured.toNat.testBit p = false) :
    LowestWhenSkipped channels ap ↔ LowestBetween channels ap ap.width.halvings 0 p := by
  have hedge : ∀ k ≤ ap.width.halvings,
      (primaryPart channels ap (partWidth k)).lowEdge = ((s + 20 * low k p : ℕ) : ℤ) :=
    fun k hk => (primaryPart_placed h hk).edges.1
  refine forall₂_congr fun k hk => imp_congr_right fun hskip => ?_
  have hpos : k ≠ 0 := by
    rintro rfl
    exact skippedPart_zero h hbit hskip
  rw [hedge k hk.le, hedge (k + 1) hk, hedge (k - 1) (by omega)]
  omega

/-- **Offsets** of all parts are right if and only if the parts that are skipped lie lowest. -/
theorem calcOffset_iff (hv : chandefValid channels ap = true)
    (h6 : ∀ k, ap.chan = some k → Is6GHz (channels k)) :
    ((∀ j, HasPart ap j →
      calcChandefSubchanOffset channels ap (2 ^ j) = some (subchansBelow channels ap j)) ↔
        LowestWhenSkipped channels ap) ∧
      ∀ j, HasPart ap j → subchansBelow channels ap j + 2 ^ j ≤ numSubchans ap := by
  obtain ⟨h1, h0⟩ | ⟨hw, hnw⟩ := width_of_6GHz hv h6
  · have hbelow : ∀ j, HasPart ap j → numSubchans ap = 2 ^ j := by
      intro j hj
      have := Nat.two_pow_pos j
      unfold HasPart at hj
      omega
    refine ⟨⟨fun _ j hj => absurd hj (by omega), fun _ j hj => ?_⟩, fun j hj => ?_⟩
    · unfold calcChandefSubchanOffset subchansBelow
      rw [if_pos (hbelow j hj), if_pos (hbelow j hj)]
    · unfold subchansBelow
      rw [if_pos (hbelow j hj), hbelow j hj, Nat.zero_add]
  · obtain ⟨s, p, h, hbit⟩ := exists_placed hv hw hnw
    have hpart : ∀ j, HasPart ap j → ∀ m, numSubchans ap = 2 ^ m → j ≤ m := by
      intro j hj m hm
      unfold HasPart at hj
      rw [hm] at hj
      exact (Nat.pow_le_pow_iff_right (by omega)).mp hj
    by_cases h80 : ap.width = .width80p80
    · have hh : ap.width.halvings = 2 := by rw [h80]; rfl
      rw [hh] at h
      have hall := fun j hj => calcOffset_80p80 hv h80 h (t := j)
        (hpart j hj 3 (if_pos h80))
      refine ⟨⟨fun _ j hj hskip => ?_, fun _ j hj => (hall j hj).1⟩, fun j hj => (hall j hj).2⟩
      have hpunct := (chandefDowngrade_80p80 hv h80 ⟨.s1g, .limit20⟩).2.1
      exact absurd (primaryPart_unpunctured h hpunct (by omega)) hskip.2
    · have hwidth := ChanWidth.eq_partWidth hw h80
      have h2 : ap.centerFreq2 = 0 := by
        obtain ⟨k, hk, -⟩ := h.chan
        exact centerFreq2_of_validWidth hw h80 ((chandefValid_iff hk).mp hv).2.1
      have hnum := numSubchans_eq h h80
      rw [lowestWhenSkipped_iff h hbit]
      refine ⟨⟨fun hall => ?_, fun hlow j hj => ?_⟩, fun j hj => ?_⟩
      · -- the part of one subchannel is enough
        obtain ⟨o, hcalc, hiff⟩ := calcOffset_spec h hwidth h80 h2 hbit (Nat.zero_le _)
        rw [hall 0 (show 2 ^ 0 ≤ _ by rw [hnum]; exact Nat.one_le_two_pow), Option.some.injEq] at hcalc
        exact hiff.mp hcalc.symm
      · obtain ⟨o, hcalc, hiff⟩ := calcOffset_spec h hwidth h80 h2 hbit (hpart j hj _ hnum)
        rw [hcalc, hiff.mpr (hlow.of_zero j)]
      have hjm := hpart j hj _ hnum
      have hin := (low_mono hjm p).2
      rw [low_eq_zero h.primary] at hin
      rw [subchansBelow_eq h h80 hjm, hnum]
      omega

/-! ### Tables -/

theorem idxOf_range' {a n x : ℕ} (h₁ : a ≤ x) (h₂ : x < a + n) :
    (List.range' a n).idxOf x = x - a := by
  have hlen : x - a < (List.range' a n).length := by
    rw [length_range']
    omega
  have hget : (List.range' a n)[x - a] = x := by
    rw [getElem_range']
    omega
  have hidx := (nodup_range' (s := a) (n := n)).idxOf_getElem (x - a) hlen
  rwa [hget] at hidx

theorem idxOf_elementOrder {total below n x : ℕ} (hx : x < total) :
    (elementOrder total below n).idxOf x =
      if x < below then x + n else if x < below + n then x - below else x := by
  unfold elementOrder
  rw [append_assoc, idxOf_append, idxOf_append, range_eq_range']
  simp only [mem_range'_1, length_range']
  split
  next h => rw [idxOf_range' h.1 h.2, if_neg (by omega), if_pos h.2]
  split
  next h =>
    rw [idxOf_range' h.1 (by omega), if_pos (by omega)]
    rfl
  · rw [idxOf_range' (by omega) (by omega), if_neg (by omega), if_neg (by omega)]
    omega

theorem rearrangeTpePsd_spec {psd : ParsedTpePsd} {used : ChanDef κ} {i j : ℕ}
    (hi : calcChandefSubchanOffset channels ap (2 ^ i) = some (subchansBelow channels ap i))
    (hj : calcChandefSubchanOffset channels ap (2 ^ j) = some (subchansBelow channels ap j))
    (hin : subchansBelow channels ap j + 2 ^ j ≤ numSubchans ap)
    (hused : numSubchans used = 2 ^ j) (hvalid : psd.valid = true) (hn : psd.n = 2 ^ i) :
    ∃ psd', rearrangeTpePsd channels psd ap used = some psd' ∧
      ∀ x < numSubchans used, psd'.power x =
        elementValue psd.power (numSubchans ap) (subchansBelow channels ap i) (2 ^ i)
          (subchansBelow channels ap j + x) := by
  have hpos := Nat.two_pow_pos i
  unfold rearrangeTpePsd
  rw [hvalid, hn, hused, hi]
  dsimp only
  rw [hj]
  refine ⟨_, by rw [if_neg (by decide), if_neg (by omega)]; rfl, ?_⟩
  intro x hx
  unfold elementValue
  rw [idxOf_elementOrder (by omega)]
  show (if x < 2 ^ j then _ else _) = _
  rw [if_pos hx]
  split
  · rfl
  · split <;> rfl

theorem validTpePsd_spec {count : ℕ} {variable_ : List UInt8} (h : validTpePsd count variable_ = true) :
    count ≤ 4 ∧ 2 ^ (count - 1) ≤ variable_.length ∧
      (2 ^ (count - 1) < variable_.length →
        2 ^ (count - 1) + 1 + (variable_.getD (2 ^ (count - 1)) 0).toNat % 16 ≤
          variable_.length) := by
  have hn : (if count ≠ 0 then 1 <<< (count - 1) else 1) = 2 ^ (count - 1) := by
    split
    · exact Nat.one_shiftLeft _
    next h0 =>
      rw [not_not.mp h0]
      rfl
  unfold validTpePsd at h
  rw [hn] at h
  dsimp only at h
  split at h
  · cases h
  split at h
  · cases h
  · refine ⟨by omega, by omega, fun hlt => ?_⟩
    rw [if_pos hlt] at h
    exact of_decide_eq_true h

/-- **Power tables follow the frequencies**, for every valid AP channel in the 6 GHz band, if and
only if the skipped primary parts lie lowest. -/
theorem tpe_follows_iff (hv : chandefValid channels ap = true)
    (h6 : ∀ k, ap.chan = some k → Is6GHz (channels k)) :
    FollowsFrequencies channels ap ↔ LowestWhenSkipped channels ap := by
  obtain ⟨hiff, hin⟩ := calcOffset_iff hv h6
  rw [← hiff]
  refine ⟨fun h => h.1, fun h => ⟨h, ?_⟩⟩
  intro i j used psd hi hj hused hvalid hn
  exact rearrangeTpePsd_spec (h i hi) (h j hj) (hin j hj) hused hvalid hn

def chan6015 : Bool → Channel := fun k => ⟨.band6GHz, if k then 6015 else 5955, 0⟩

def punctured80 (chan : Bool) (punctured : UInt16) : ChanDef Bool :=
  ⟨some chan, none, .width80, 5985, 0, ⟨0, 0⟩, 0, punctured, 0, false⟩

/-- The second subchannel is punctured and the control channel is the first one. -/
theorem tpe_follows_iff_lowest : FollowsFrequencies chan6015 (punctured80 false 2) :=
  (tpe_follows_iff (by decide) (by decide)).mpr (by unfold LowestWhenSkipped; decide)

/-- The third subchannel is punctured and the control channel is the fourth one: only one subchannel
is counted. -/
theorem skipped_part_miscounted :
    chandefValid chan6015 (punctured80 true 4) = true ∧
      calcChandefSubchanOffset chan6015 (punctured80 true 4) 1 = some 1 ∧
      subchansBelow chan6015 (punctured80 true 4) 0 = 3 ∧
      ¬ LowestWhenSkipped chan6015 (punctured80 true 4) ∧
      ∃ psd psd' : ParsedTpePsd, psd.valid = true ∧ psd.n = 1 ∧
        rearrangeTpePsd chan6015 psd (punctured80 true 4) (punctured80 true 4) = some psd' ∧
        psd'.power 3 ≠ elementValue psd.power 4 3 1 3 := by
  refine ⟨by decide, by decide, by decide, ?_,
    ⟨true, fun i => Int8.ofNat i, 4, 1⟩, _, rfl, rfl, rfl, by decide⟩
  unfold LowestWhenSkipped
  decide

end Iwlwifi.Ieee80211.Tpe
