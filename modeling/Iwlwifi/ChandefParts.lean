import Iwlwifi.Chandef
import Iwlwifi.Halving

/-! # The parts of a channel around its control channel

`cfg80211_chandef_primary` halves a channel towards its control channel.  In units of 20 MHz
subchannels this is the halving of a range of `2 ^ m` positions towards the position `p` of the
control channel.

* `Placed c m s p`: the channel `c` starts at `s` MHz, has `2 ^ m` subchannels, and the control
  channel is number `p` of them.  Valid channels from 40 to 320 MHz are placed
  (`exists_placed`), when the frequencies do not wrap around (`NoFreqWrap`).
* `chandefPrimary_eq`: center frequency and puncturing of the part with `2 ^ j` subchannels.
* `primaryPart c w` is that part as a chandef; `primaryPart_valid_iff` says when it is valid.
* `chandef_primary_projects` puts the projection together for all valid channels. -/

namespace Iwlwifi.Cfg80211

open Halving

variable {κ : Type} {channels : κ → Channel} {c : ChanDef κ} {m s p : ℕ}

/-- The channel has `2 ^ m` subchannels from `s` MHz on, and the control channel is number `p`. -/
structure Placed (channels : κ → Channel) (c : ChanDef κ) (m s p : ℕ) : Prop where
  chan : ∃ k, c.chan = some k ∧ (channels k).centerFreq.toNat = s + 10 + 20 * p
  width : c.getWidth = 20 * 2 ^ m
  center : c.centerFreq1.toNat = s + 10 * 2 ^ m
  primary : p < 2 ^ m
  punctured : c.punctured.toNat < 2 ^ 2 ^ m
  size : m ≤ 4
  range : s + 20 * 2 ^ m < 2 ^ 32

def NoFreqWrap (c : ChanDef κ) : Prop := 160 ≤ c.centerFreq1.toNat ∧ c.centerFreq1.toNat + 160 < 2 ^ 32

instance (c : ChanDef κ) : Decidable (NoFreqWrap c) := inferInstanceAs (Decidable (_ ∧ _))

/-- The width of a part with `2 ^ j` subchannels. -/
def partWidth : ℕ → ChanWidth
  | 0 => .width20
  | 1 => .width40
  | 2 => .width80
  | 3 => .width160
  | _ => .width320

theorem chanWidthToMhz_partWidth {j : ℕ} (hj : j ≤ 4) :
    chanWidthToMhz (partWidth j) = 20 * 2 ^ j := by
  interval_cases j
  all_goals rfl

/-! ### Halving -/

/-- Center frequency of the part with `2 ^ j` subchannels. -/
def partCenter (s p j : ℕ) : UInt32 := UInt32.ofNat (s + 20 * low j p + 10 * 2 ^ j)

/-- Puncturing of the part with `2 ^ j` subchannels. -/
def partPunctured (x p j : ℕ) : UInt16 := UInt16.ofNat (slice x j p)

theorem toNat_partCenter {j : ℕ} (hj : j ≤ m) (hp : p < 2 ^ m) (hr : s + 20 * 2 ^ m < 2 ^ 32) :
    (partCenter s p j).toNat = s + 20 * low j p + 10 * 2 ^ j := by
  have hmono := low_mono hj p
  rw [low_eq_zero hp] at hmono
  rw [partCenter, UInt32.toNat_ofNat_of_lt']
  show _ < 2 ^ 32
  omega

theorem toNat_partPunctured {x j : ℕ} (hj : j ≤ 4) :
    (partPunctured x p j).toNat = slice x j p := by
  have h := slice_lt x j p
  have hle : 2 ^ 2 ^ j ≤ 2 ^ 16 := Nat.pow_le_pow_right (by omega)
    (Nat.pow_le_pow_right (by omega) hj : 2 ^ j ≤ 2 ^ 4)
  rw [partPunctured, UInt16.toNat_ofNat_of_lt']
  show _ < 2 ^ 16
  omega

theorem partPunctured_step {x j : ℕ} (hj : j + 1 ≤ 4) :
    partPunctured x p j =
      if p.testBit j then partPunctured x p (j + 1) >>> UInt16.ofNat (2 ^ j)
      else partPunctured x p (j + 1) &&& ((1 <<< UInt16.ofNat (2 ^ j)) - 1) := by
  have hpow : 2 ^ j ≤ 2 ^ 3 := Nat.pow_le_pow_right (by omega) (by omega)
  have hbits : (UInt16.ofNat (2 ^ j)).toNat = 2 ^ j := by
    rw [UInt16.toNat_ofNat_of_lt']
    show _ < 2 ^ 16
    omega
  have hmask : ((1 <<< UInt16.ofNat (2 ^ j) : UInt16) - 1).toNat = 2 ^ 2 ^ j - 1 := by
    obtain rfl | rfl | rfl | rfl : j = 0 ∨ j = 1 ∨ j = 2 ∨ j = 3 := by omega
    all_goals decide
  rw [← UInt16.toNat_inj, toNat_partPunctured (by omega), slice_step]
  split
  · rw [UInt16.toNat_shiftRight, hbits, toNat_partPunctured hj, Nat.mod_eq_of_lt (by omega)]
  · rw [UInt16.toNat_and, hmask, toNat_partPunctured hj, Nat.and_two_pow_sub_one_eq_mod]

theorem primaryHalve_eq {control : UInt32} (hcontrol : control.toNat = s + 10 + 20 * p)
    (hp : p < 2 ^ m) (hm : m ≤ 4) (hr : s + 20 * 2 ^ m < 2 ^ 32) (x : ℕ) {j : ℕ} :
    ∀ (n a : ℕ), j ≤ a → a ≤ m → a - j < n →
      primaryHalve (20 * 2 ^ j) control n (20 * 2 ^ a) (partCenter s p a) (partPunctured x p a) =
        (partCenter s p j, partPunctured x p j) := by
  intro n
  induction n with
  | zero =>
    intro a _ _ hn
    omega
  | succ n ih =>
    intro a hja ham hn
    unfold primaryHalve
    obtain rfl | hlt := Nat.eq_or_lt_of_le hja
    · rw [if_neg (lt_irrefl _)]
    obtain ⟨b, rfl⟩ : ∃ b, a = b + 1 := ⟨a - 1, by omega⟩
    have hwidth : 20 * 2 ^ j < 20 * 2 ^ (b + 1) := by
      have := Nat.pow_lt_pow_right (a := 2) (by omega) hlt
      omega
    have hhalf : 20 * 2 ^ (b + 1) / 2 = 20 * 2 ^ b := by
      omega
    have hquarter : 20 * 2 ^ (b + 1) / 4 = 10 * 2 ^ b := by
      omega
    have hdrop : 20 * 2 ^ (b + 1) / 20 / 2 = 2 ^ b := by
      omega
    have hin := (low_mono ham p).2
    rw [low_eq_zero hp] at hin
    have hcenter := toNat_partCenter ham hp hr
    have hcenter' := toNat_partCenter (j := b) (by omega) hp hr
    have hlow := low_step b p
    have hpow : 2 ^ (b + 1) = 2 * 2 ^ b := by rw [Nat.pow_succ, Nat.mul_comm]
    have hq : (UInt32.ofNat (10 * 2 ^ b)).toNat = 10 * 2 ^ b := by
      rw [UInt32.toNat_ofNat_of_lt']
      show _ < 2 ^ 32
      omega
    have hupper : partCenter s p (b + 1) < control ↔ p.testBit b = true := by
      rw [UInt32.lt_iff_toNat_lt, hcenter, hcontrol, testBit_iff_upper, hpow]
      omega
    have hpunct := partPunctured_step (x := x) (p := p) (j := b) (by omega)
    rw [if_pos hwidth]
    simp only [hhalf, hquarter, hdrop]
    have hrec := ih b (by omega) (by omega) (by omega)
    split
    next hup =>
      have hb := hupper.mp hup
      rw [if_pos hb] at hpunct hlow
      have hmove : partCenter s p (b + 1) + UInt32.ofNat (10 * 2 ^ b) = partCenter s p b := by
        rw [← UInt32.toNat_inj, UInt32.toNat_add, hcenter, hcenter', hq, hlow, hpow]
        omega
      rwa [hmove, ← hpunct]
    next hup =>
      have hb : ¬ p.testBit b = true := fun h => hup (hupper.mpr h)
      rw [if_neg hb] at hpunct hlow
      have hmove : partCenter s p (b + 1) - UInt32.ofNat (10 * 2 ^ b) = partCenter s p b := by
        rw [← UInt32.toNat_inj, UInt32.toNat_sub_of_le, hcenter, hcenter', hq, hlow, hpow]
        · omega
        · rw [UInt32.le_iff_toNat_le, hq, hcenter, hpow]
          omega
      rwa [hmove, ← hpunct]

theorem chandefPrimary_eq (h : Placed channels c m s p) {j : ℕ} (hj : j ≤ m) {w : ChanWidth}
    (hw : chanWidthToMhz w = 20 * 2 ^ j) :
    chandefPrimary channels c w =
      (partCenter s p j, partPunctured c.punctured.toNat p j) := by
  obtain ⟨k, hk, hcontrol⟩ := h.chan
  have hm := h.size
  have hself : (c.centerFreq1, c.punctured) =
      (partCenter s p m, partPunctured c.punctured.toNat p m) := by
    rw [Prod.mk.injEq]
    constructor
    · rw [← UInt32.toNat_inj, toNat_partCenter le_rfl h.primary h.range, low_eq_zero h.primary,
        h.center]
      rfl
    · rw [← UInt16.toNat_inj, toNat_partPunctured hm, slice_eq_self h.primary h.punctured]
  have hle : (2 : ℤ) ^ j ≤ 2 ^ m := by
    exact_mod_cast Nat.pow_le_pow_right (show 0 < 2 by omega) hj
  have hpos : (0 : ℤ) < 2 ^ j := by exact_mod_cast Nat.two_pow_pos j
  have hwj : (chanWidthToMhz w).toNat = 20 * 2 ^ j := by
    rw [hw]
    exact_mod_cast rfl
  have hwm : c.getWidth.toNat = 20 * 2 ^ m := by
    rw [h.width]
    exact_mod_cast rfl
  have hhalve := primaryHalve_eq hcontrol h.primary hm h.range c.punctured.toNat 9 m hj le_rfl
    (by omega)
  rw [Prod.mk.injEq] at hself
  rw [← hself.1, ← hself.2] at hhalve
  unfold chandefPrimary
  rw [if_neg (by rw [hw, h.width]; omega), if_neg (by rw [hw, h.width]; omega), hwj, hwm, hk]
  exact hhalve

/-! ### Placed channels -/

def ChanWidth.wide : ChanWidth → Bool
  | .width40 | .width80 | .width80p80 | .width160 | .width320 => true
  | _ => false

def ChanWidth.halvings : ChanWidth → ℕ
  | .width40 => 1
  | .width80 | .width80p80 => 2
  | .width160 => 3
  | .width320 => 4
  | _ => 0

theorem atDistance_iff {center control : UInt32} {ds : List UInt32} :
    atDistance center control ds = true ↔
      ∃ d ∈ ds, center = control + d ∨ center = control - d := by
  simp [atDistance]

/-- The distances of control channels from the center of a channel with `2 ^ m` subchannels. -/
def controlDistances : ℕ → List UInt32
  | 1 => [10]
  | 2 => [30, 10]
  | 3 => [70, 50, 30, 10]
  | 4 => [150, 130, 110, 90, 70, 50, 30, 10]
  | _ => []

theorem chandefValidControlFreq_eq (hw : c.width.wide = true) (control : UInt32) :
    chandefValidControlFreq c control =
      atDistance c.centerFreq1 control (controlDistances c.width.halvings) := by
  unfold chandefValidControlFreq
  cases hc : c.width <;>
    simp [hc, ChanWidth.wide, ChanWidth.halvings, controlDistances, atDistance,
      Bool.or_assoc] at hw ⊢

theorem controlDistances_odd {d : UInt32} (hm : m ≤ 4) (hd : d ∈ controlDistances m) :
    d.toNat % 20 = 10 ∧ d.toNat + 10 ≤ 10 * 2 ^ m := by
  have hall : ∀ m ≤ 4, (controlDistances m).all fun d =>
      d.toNat % 20 = 10 ∧ d.toNat + 10 ≤ 10 * 2 ^ m := by decide
  simpa using List.all_eq_true.mp (hall m hm) d hd

theorem exists_position {center control : UInt32} (hm : m ≤ 4) (hlow : 160 ≤ center.toNat)
    (hhigh : center.toNat + 160 < 2 ^ 32)
    (h : atDistance center control (controlDistances m) = true) :
    ∃ p < 2 ^ m, control.toNat = center.toNat - 10 * 2 ^ m + 10 + 20 * p := by
  obtain ⟨d, hd, hdist⟩ := atDistance_iff.mp h
  obtain ⟨hodd, hle⟩ := controlDistances_odd hm hd
  have h16 : 2 ^ m ≤ 2 ^ 4 := Nat.pow_le_pow_right (by omega) hm
  have hlt := control.toNat_lt
  obtain ⟨e, he⟩ : ∃ e, 2 ^ m = 2 * e := by
    obtain rfl | hpos := Nat.eq_zero_or_pos m
    · omega
    · exact ⟨2 ^ (m - 1), by rw [← Nat.pow_succ']; congr 1; omega⟩
  obtain rfl | rfl := hdist
  · rw [UInt32.toNat_add] at hlow hhigh ⊢
    exact ⟨e - 1 - d.toNat / 20, by omega, by omega⟩
  · rw [UInt32.toNat_sub] at hlow hhigh ⊢
    exact ⟨e + d.toNat / 20, by omega, by omega⟩

theorem atDistance_of_position {center control : UInt32} {b q : ℕ} (hm : 1 ≤ m) (hm' : m ≤ 4)
    (hq : q < 2 ^ m) (hcontrol : control.toNat = b + 10 + 20 * q)
    (hcenter : center.toNat = b + 10 * 2 ^ m) :
    atDistance center control (controlDistances m) = true := by
  have hlt' := center.toNat_lt
  have hup : ∀ d : UInt32, center.toNat = control.toNat + d.toNat → center = control + d := by
    intro d hd
    rw [← UInt32.toNat_inj, UInt32.toNat_add]
    omega
  have hdown : ∀ d : UInt32, control.toNat = center.toNat + d.toNat → center = control - d := by
    intro d hd
    rw [← UInt32.toNat_inj, UInt32.toNat_sub]
    omega
  rw [atDistance_iff]
  by_cases hside : 20 * q + 10 < 10 * 2 ^ m
  · refine ⟨UInt32.ofNat (10 * 2 ^ m - 10 - 20 * q), ?_, .inl (hup _ ?_)⟩
    · interval_cases m
      all_goals clear hcontrol hcenter hup hdown; revert q; decide
    · rw [UInt32.toNat_ofNat_of_lt' (show _ < 2 ^ 32 by omega)]
      omega
  · refine ⟨UInt32.ofNat (20 * q + 10 - 10 * 2 ^ m), ?_, .inr (hdown _ ?_)⟩
    · have hne : 20 * q + 10 ≠ 10 * 2 ^ m := by
        obtain ⟨e, rfl⟩ : ∃ e, m = e + 1 := ⟨m - 1, by omega⟩
        omega
      interval_cases m
      all_goals clear hcontrol hcenter hup hdown; revert q; decide
    · rw [UInt32.toNat_ofNat_of_lt' (show _ < 2 ^ 32 by omega)]
      omega

theorem chandefValid_iff {k : κ} (hk : c.chan = some k) :
    chandefValid channels c = true ↔
      (c.freq1Offset < 1000 ∧ ((channels k).band = .bandS1GHz → c.width.isS1g = true)) ∧
      validWidth (channels k) c = true ∧
      chandefValidControlFreq c (channels k).centerFreq = true ∧ validNpca c = true ∧
      (validCenterFreq c.centerFreq1 c.width = true ∧
        (c.width = .width80p80 → validCenterFreq c.centerFreq2 c.width = true)) ∧
      (c.centerFreq1 = 2484 → c.width = .width20NoHt) ∧
      (c.isEdmg = true → edmgChandefValid (channels k) c.edmg = true) ∧
      ((channels k).band ≠ .bandS1GHz → c.s1gPrimary2mhz = false) ∧
      validPuncturingBitmap c (channels k).centerFreq c.punctured.toNat = true := by
  unfold chandefValid
  simp only [hk, Bool.and_eq_true, Bool.or_eq_true, decide_eq_true_eq, Bool.not_eq_true',
    beq_eq_false_iff_ne, bne_iff_ne, beq_iff_eq, ne_eq]
  constructor
  · rintro ⟨⟨⟨⟨⟨⟨⟨⟨⟨⟨h₁, h₂⟩, h₃⟩, h₄⟩, h₅⟩, h₆⟩, h₇⟩, h₈⟩, h₉⟩, h₁₀⟩, h₁₁⟩
    refine ⟨⟨h₁, h₂.resolve_left ∘ not_not.mpr⟩, h₃, h₄, h₅, ⟨h₆, h₇.resolve_left ∘ not_not.mpr⟩,
      h₈.resolve_left ∘ not_not.mpr, ?_, h₁₀.resolve_left, h₁₁⟩
    intro he
    exact h₉.resolve_left (by simp [he])
  rintro ⟨⟨h₁, h₂⟩, h₃, h₄, h₅, ⟨h₆, h₇⟩, h₈, h₉, h₁₀, h₁₁⟩
  refine ⟨⟨⟨⟨⟨⟨⟨⟨⟨⟨h₁, ?_⟩, h₃⟩, h₄⟩, h₅⟩, h₆⟩, ?_⟩, ?_⟩, ?_⟩, ?_⟩, h₁₁⟩
  · exact not_or_of_imp h₂
  · exact not_or_of_imp h₇
  · exact not_or_of_imp h₈
  · cases he : c.isEdmg with
    | false => exact .inl rfl
    | true => exact .inr (h₉ he)
  · exact or_iff_not_imp_left.mpr h₁₀

theorem validPuncturingBitmap_spec (hw : c.width.wide = true) {control : UInt32}
    (hc : c.centerFreq1.toNat = s + 10 * 2 ^ c.width.halvings)
    (hcontrol : control.toNat = s + 10 + 20 * p)
    (h : validPuncturingBitmap c control c.punctured.toNat = true) :
    c.punctured.toNat < 2 ^ 2 ^ c.width.halvings ∧ c.punctured.toNat.testBit p = false := by
  -- the common check of the three widths
  have hvalue : ∀ (values : List ℕ) (start : UInt32) (n : ℕ), start.toNat = s →
      (∀ x ∈ values, x < 2 ^ 2 ^ n) →
      validPuncturingValue values start control c.punctured.toNat = true →
      c.punctured.toNat < 2 ^ 2 ^ n ∧ c.punctured.toNat.testBit p = false := by
    intro values start n hstart hsmall hv
    have hidx : ((control - start) / 20).toNat = p := by
      rw [UInt32.toNat_div, UInt32.toNat_sub_of_le _ _ (by rw [UInt32.le_iff_toNat_le]; omega),
        hcontrol, hstart]
      show (s + 10 + 20 * p - s) / 20 = p
      omega
    unfold validPuncturingValue at hv
    rw [hidx] at hv
    split at hv
    next h0 =>
      rw [h0]
      exact ⟨Nat.two_pow_pos _, Nat.zero_testBit _⟩
    split at hv
    · cases hv
    next hbit => exact ⟨hsmall _ (List.contains_iff_mem.mp hv), by simpa using hbit⟩
  have hstart : ∀ (x : UInt32) (n : ℕ), c.centerFreq1.toNat = s + n → x.toNat = n →
      (c.centerFreq1 - x).toNat = s := by
    intro x n hn hx
    rw [UInt32.toNat_sub_of_le _ _ (by rw [UInt32.le_iff_toNat_le]; omega)]
    omega
  have hzero : c.punctured.toNat = 0 → c.punctured.toNat < 2 ^ 2 ^ c.width.halvings ∧
      c.punctured.toNat.testBit p = false := by
    intro h0
    rw [h0]
    exact ⟨Nat.two_pow_pos _, Nat.zero_testBit _⟩
  unfold validPuncturingBitmap at h
  cases hcw : c.width <;> simp only [hcw, ChanWidth.wide, Bool.false_eq_true] at h hw hc hzero ⊢
  · exact hzero (by simpa using h)
  · exact hvalue _ _ 2 (hstart 40 _ hc rfl) (by decide) h
  · exact hzero (by simpa using h)
  · exact hvalue _ _ 3 (hstart 80 _ hc rfl) (by decide) h
  · exact hvalue _ _ 4 (hstart 160 _ hc rfl) (by decide) h

theorem ChanWidth.halvings_spec {w : ChanWidth} (hw : w.wide = true) :
    chanWidthToMhz w = 20 * 2 ^ w.halvings ∧ 1 ≤ w.halvings ∧ w.halvings ≤ 4 := by
  cases w <;> simp [ChanWidth.wide, chanWidthToMhz, ChanWidth.halvings] at hw ⊢

theorem exists_placed (hv : chandefValid channels c = true) (hw : c.width.wide = true)
    (hnw : NoFreqWrap c) :
    ∃ s p, Placed channels c c.width.halvings s p ∧ c.punctured.toNat.testBit p = false := by
  obtain ⟨hwidth, -, hm⟩ := ChanWidth.halvings_spec hw
  obtain ⟨hlow, hhigh⟩ := hnw
  have h16 : 2 ^ c.width.halvings ≤ 2 ^ 4 := Nat.pow_le_pow_right (by omega) hm
  cases hk : c.chan with
  | none => simp [chandefValid, hk] at hv
  | some k =>
    obtain ⟨-, -, hcontrol, -, -, -, -, -, hpunct⟩ := (chandefValid_iff hk).mp hv
    rw [chandefValidControlFreq_eq hw] at hcontrol
    obtain ⟨p, hp, hpos⟩ := exists_position hm hlow hhigh hcontrol
    have hcenter : c.centerFreq1.toNat =
        c.centerFreq1.toNat - 10 * 2 ^ c.width.halvings + 10 * 2 ^ c.width.halvings := by omega
    obtain ⟨hlt, hbit⟩ := validPuncturingBitmap_spec hw hcenter hpos hpunct
    exact ⟨_, p, ⟨⟨k, hk, hpos⟩, hwidth, hcenter, hp, hlt, hm, by omega⟩, hbit⟩

/-! ### Parts as channels -/

/-- The part of width `w` around the control channel, as a chandef. -/
def primaryPart (channels : κ → Channel) (c : ChanDef κ) (w : ChanWidth) : ChanDef κ :=
  { c with
    width := w
    centerFreq1 := (chandefPrimary channels c w).1
    centerFreq2 := 0
    punctured := (chandefPrimary channels c w).2
    npcaChan := none
    npcaPunctured := 0 }

/-- The center frequency is allowed, and at 20 MHz it is that of the control channel down to kHz. -/
def FreqAccepted (channels : κ → Channel) (c : ChanDef κ) : Prop :=
  validCenterFreq c.centerFreq1 c.width = true ∧ c.centerFreq1 ≠ 2484 ∧
    (c.width = .width20 → ∀ k, c.chan = some k → c.freq1Offset = (channels k).freqOffset)

section parts
variable {j : ℕ}

section
variable (h : Placed channels c m s p) (hj : j ≤ m)
include h hj

theorem primaryPart_eq :
    primaryPart channels c (partWidth j) =
      { c with
        width := partWidth j
        centerFreq1 := partCenter s p j
        centerFreq2 := 0
        punctured := partPunctured c.punctured.toNat p j
        npcaChan := none
        npcaPunctured := 0 } := by
  have hm := h.size
  rw [primaryPart, chandefPrimary_eq h hj (chanWidthToMhz_partWidth (by omega))]

theorem primaryPart_placed :
    Placed channels (primaryPart channels c (partWidth j)) j (s + 20 * low j p) (p - low j p) := by
  obtain ⟨k, hk, hcontrol⟩ := h.chan
  have hm := h.size
  have hle := low_le j p
  have hlt := lt_low_add j p
  have hin := (low_mono hj p).2
  have hr := h.range
  rw [low_eq_zero h.primary] at hin
  rw [primaryPart_eq h hj]
  exact {
    chan := ⟨k, hk, by omega⟩
    width := chanWidthToMhz_partWidth (by omega)
    center := toNat_partCenter hj h.primary h.range
    primary := by omega
    punctured := by
      rw [toNat_partPunctured (by omega)]
      exact slice_lt _ _ _
    size := by omega
    range := by omega }

theorem primaryPart_primary (hbit : c.punctured.toNat.testBit p = false) :
    (primaryPart channels c (partWidth j)).punctured.toNat.testBit (p - low j p) = false := by
  have hle := low_le j p
  have hm := h.size
  rw [primaryPart_eq h hj]
  rw [toNat_partPunctured (by omega), testBit_slice, Nat.add_sub_cancel' hle, hbit, Bool.and_false]

end

theorem chandefPrimary_primaryPart {i : ℕ} (h : Placed channels c m s p) (hij : i ≤ j) (hj : j ≤ m) :
    chandefPrimary channels (primaryPart channels c (partWidth j)) (partWidth i) =
      chandefPrimary channels c (partWidth i) := by
  obtain ⟨k, hk, hcontrol⟩ := h.chan
  have hm := h.size
  have hwj := chanWidthToMhz_partWidth (j := j) (by omega)
  have hwi := chanWidthToMhz_partWidth (j := i) (by omega)
  have hle : (2 : ℤ) ^ i ≤ 2 ^ j := by
    exact_mod_cast Nat.pow_le_pow_right (show 0 < 2 by omega) hij
  have hpos : (0 : ℤ) < 2 ^ i := by exact_mod_cast Nat.two_pow_pos i
  have hni : (chanWidthToMhz (partWidth i)).toNat = 20 * 2 ^ i := by
    rw [hwi]
    exact_mod_cast rfl
  have hnj : (chanWidthToMhz (partWidth j)).toNat = 20 * 2 ^ j := by
    rw [hwj]
    exact_mod_cast rfl
  have hhalve := primaryHalve_eq hcontrol h.primary hm h.range c.punctured.toNat 9 j hij hj
    (by omega)
  rw [chandefPrimary_eq h (hij.trans hj) hwi, primaryPart_eq h hj]
  unfold chandefPrimary ChanDef.getWidth
  rw [if_neg (by rw [hwi, hwj]; omega), if_neg (by rw [hwi, hwj]; omega), hk, hni, hnj]
  exact hhalve

theorem primaryPart_primaryPart {i : ℕ} (h : Placed channels c m s p) (hij : i ≤ j) (hj : j ≤ m) :
    primaryPart channels (primaryPart channels c (partWidth j)) (partWidth i) =
      primaryPart channels c (partWidth i) := by
  have hpri := chandefPrimary_primaryPart h hij hj
  unfold primaryPart at hpri ⊢
  rw [hpri]

theorem partWidth_cases (hj : j ≤ 3) :
    (partWidth j = .width20 ↔ j = 0) ∧ (partWidth j).isS1g = false ∧ partWidth j ≠ .width80p80 ∧
      partWidth j ≠ .width20NoHt ∧ (1 ≤ j → (partWidth j).wide = true ∧
        (partWidth j).halvings = j) := by
  interval_cases j
  all_goals decide

theorem primaryPart_valid_iff (hv : chandefValid channels c = true) (hs : c.width.isS1g = false)
    (h : Placed channels c m s p) (hj : j ≤ m) (hj3 : j ≤ 3) {k : κ} (hk : c.chan = some k) :
    chandefValid channels (primaryPart channels c (partWidth j)) = true ↔
      FreqAccepted channels (primaryPart channels c (partWidth j)) ∧
        validPuncturingBitmap (primaryPart channels c (partWidth j)) (channels k).centerFreq
          (primaryPart channels c (partWidth j)).punctured.toNat = true := by
  obtain ⟨⟨hoff, hband⟩, -, -, -, -, -, hedmg, hs1g, -⟩ := (chandefValid_iff hk).mp hv
  obtain ⟨h20, hs', h80p80, hnoHt, hwide⟩ := partWidth_cases hj3
  have hband' : (channels k).band ≠ .bandS1GHz := by
    intro hb
    rw [hs] at hband
    exact absurd (hband hb) (by decide)
  have hpart := primaryPart_placed h hj
  obtain ⟨k', hk', hfreq⟩ := hpart.chan
  obtain rfl : k = k' := Option.some.inj (hk.symm.trans hk')
  have hcontrol : chandefValidControlFreq (primaryPart channels c (partWidth j))
      (channels k).centerFreq = true := by
    obtain rfl | hpos := Nat.eq_zero_or_pos j
    · rfl
    obtain ⟨hw, hh⟩ := hwide hpos
    rw [chandefValidControlFreq_eq hw]
    show atDistance _ _ (controlDistances (partWidth j).halvings) = true
    rw [hh]
    exact atDistance_of_position hpos (by omega) hpart.primary hfreq hpart.center
  -- at 20 MHz the center is the control channel
  have hwidth : validWidth (channels k) (primaryPart channels c (partWidth j)) = true ↔
      (partWidth j = .width20 → c.freq1Offset = (channels k).freqOffset) := by
    obtain rfl | hpos := Nat.eq_zero_or_pos j
    · have hcenter : (primaryPart channels c (partWidth 0)).centerFreq1 =
          (channels k).centerFreq := by
        rw [← UInt32.toNat_inj, hpart.center, hfreq]
        simp
      have hkhz : (primaryPart channels c (partWidth 0)).toKhz = (channels k).toKhz ↔
          c.freq1Offset = (channels k).freqOffset := by
        unfold ChanDef.toKhz Channel.toKhz
        rw [hcenter, UInt32.add_right_inj, UInt16.toUInt32_inj]
        rfl
      have hval : validWidth (channels k) (primaryPart channels c (partWidth 0)) =
          ((primaryPart channels c (partWidth 0)).toKhz == (channels k).toKhz && true) := rfl
      rw [hval, Bool.and_true, beq_iff_eq, hkhz]
      exact ⟨fun h _ => h, fun h => h rfl⟩
    · refine ⟨fun _ h0 => absurd (h20.mp h0) (by omega), fun _ => ?_⟩
      interval_cases j
      all_goals rfl
  rw [chandefValid_iff (c := primaryPart channels c (partWidth j)) hk]
  constructor
  · rintro ⟨-, h₁, -, -, ⟨h₂, -⟩, h₃, -, -, h₄⟩
    refine ⟨⟨h₂, fun e => hnoHt (h₃ e), ?_⟩, h₄⟩
    intro e k' hk'
    obtain rfl : k = k' := Option.some.inj (hk.symm.trans hk')
    exact hwidth.mp h₁ e
  · rintro ⟨⟨h₂, h₃, h₁⟩, h₄⟩
    exact ⟨⟨hoff, fun hb => absurd hb hband'⟩, hwidth.mpr (fun e => h₁ e k hk), hcontrol, rfl,
      ⟨h₂, fun e => absurd e h80p80⟩, fun e => absurd e h₃, hedmg, hs1g, h₄⟩

theorem chandefPrimary_congr {w w' : ChanWidth} (h : chanWidthToMhz w = chanWidthToMhz w') :
    chandefPrimary channels c w = chandefPrimary channels c w' := by
  unfold chandefPrimary
  rw [h]

theorem chandefPrimary_primaryPart_congr {v v' : ChanWidth} (w : ChanWidth)
    (h : chanWidthToMhz v = chanWidthToMhz v') :
    chandefPrimary channels (primaryPart channels c v) w =
      chandefPrimary channels (primaryPart channels c v') w := by
  unfold primaryPart
  unfold chandefPrimary ChanDef.getWidth
  rw [h]

/-- **The projection to the primary part.**  A valid channel of 40 to 320 MHz has `2 ^ m`
subchannels, of which number `p` is the control channel.  The result is the center of the aligned
block with `2 ^ j` of them that contains `p`, and its bitmap.  The projection in two steps is the
direct one. -/
theorem chandef_primary_projects (hv : chandefValid channels c = true)
    (hw : c.width.wide = true) (hnw : NoFreqWrap c) :
    ∃ s p k, c.chan = some k ∧ p < 2 ^ c.width.halvings ∧
      c.centerFreq1.toNat = s + 10 * 2 ^ c.width.halvings ∧
      (channels k).centerFreq.toNat = s + 10 + 20 * p ∧
      ∀ (w : ChanWidth) (j : ℕ), chanWidthToMhz w = 20 * 2 ^ j → j ≤ c.width.halvings →
        (chandefPrimary channels c w).1.toNat = s + 20 * (p / 2 ^ j * 2 ^ j) + 10 * 2 ^ j ∧
        (∀ i, (chandefPrimary channels c w).2.toNat.testBit i =
          (decide (i < 2 ^ j) && c.punctured.toNat.testBit (p / 2 ^ j * 2 ^ j + i))) ∧
        ∀ (w' : ChanWidth) (i : ℕ), chanWidthToMhz w' = 20 * 2 ^ i → i ≤ j →
          chandefPrimary channels (primaryPart channels c w) w' =
            chandefPrimary channels c w' := by
  obtain ⟨s, p, h, -⟩ := exists_placed hv hw hnw
  obtain ⟨k, hk, hcontrol⟩ := h.chan
  have hsize := h.size
  refine ⟨s, p, k, hk, h.primary, h.center, hcontrol, fun w j hj hjm => ?_⟩
  rw [chandefPrimary_eq h hjm hj]
  refine ⟨toNat_partCenter hjm h.primary h.range, ?_, ?_⟩
  · intro i
    rw [toNat_partPunctured (by omega), testBit_slice]
    rfl
  intro w' i hi hij
  have hv' := chanWidthToMhz_partWidth (j := j) (by omega)
  have hw' := chanWidthToMhz_partWidth (j := i) (by omega)
  rw [chandefPrimary_primaryPart_congr w' (hj.trans hv'.symm), chandefPrimary_congr (hi.trans
    hw'.symm), chandefPrimary_primaryPart h hij hjm, chandefPrimary_congr (hi.trans hw'.symm)]

/-- The upper half of a channel of 40 MHz. -/
theorem chandef_primary_projects_upper :
    let chan : Channel := ⟨.band5GHz, 5200, 0⟩
    let c : ChanDef Unit := ⟨some (), none, .width40, 5190, 0, ⟨0, 0⟩, 0, 0, 0, false⟩
    (chandefPrimary (fun _ => chan) c .width20).1 = 5200 ∧
      ∃ s p : ℕ, 5190 = s + 20 ∧ 5200 = s + 10 + 20 * p := by
  intro chan c
  have hv : chandefValid (fun _ => chan) c = true := by decide
  obtain ⟨s, p, k, -, -, hcenter, hcontrol, -⟩ := chandef_primary_projects hv rfl (by decide)
  exact ⟨by decide, s, p, hcenter, hcontrol⟩

/-- An S1G channel from 902 to 904 MHz with its control channel at 902.5 MHz: the center of the
primary 1 MHz cannot be told in MHz. -/
theorem s1g_primary_not_projected :
    let chan : Channel := ⟨.bandS1GHz, 902, 500⟩
    let c : ChanDef Unit := ⟨some (), none, .width2, 903, 0, ⟨0, 0⟩, 0, 0, 0, false⟩
    chandefValid (fun _ => chan) c = true ∧ chan.toKhz = 902500 ∧
      chandefPrimary (fun _ => chan) c .width1 = (903, 0) := by
  decide

end parts

end Iwlwifi.Cfg80211
