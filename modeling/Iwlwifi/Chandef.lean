import Iwlwifi.Merge

/-! # Channel definitions

A model of the channel definitions of cfg80211 (`net/wireless/chan.c`): a control channel, a width
and the center frequencies of one or two segments.

* **Validity** (`chandefValid`), the whole check: widths, control channel, center frequencies, EDMG,
  S1G, puncturing.
* **Compatibility** (`chandefCompatible`): two users of one channel are compatible if the narrower
  one is what the wider one has around the control channel, at 40, 80 and 160 MHz
  (`chandefPrimary`).
* `chandef_merge_order_iff`: when the order in which users are merged makes no difference;
  `chandef_merge_order_matters`: an order that fails and one that does not.

Channels are known by pointers of a type `κ`, and `channels` is what they point to.  Frequencies
are `u32`, so sums and differences wrap around. -/

namespace Iwlwifi.Cfg80211

/-! ### Data -/

/-- `enum nl80211_chan_width`. -/
inductive ChanWidth
  | width20NoHt | width20 | width40 | width80 | width80p80 | width160 | width5 | width10
  | width1 | width2 | width4 | width8 | width16 | width320
  deriving DecidableEq, Repr

def ChanWidth.val : ChanWidth → ℕ
  | .width20NoHt => 0
  | .width20 => 1
  | .width40 => 2
  | .width80 => 3
  | .width80p80 => 4
  | .width160 => 5
  | .width5 => 6
  | .width10 => 7
  | .width1 => 8
  | .width2 => 9
  | .width4 => 10
  | .width8 => 11
  | .width16 => 12
  | .width320 => 13

theorem ChanWidth.val_injective : ∀ {v w : ChanWidth}, v.val = w.val → v = w := by
  intro v w h
  cases v <;> cases w <;> first | rfl | cases h

/-- `enum nl80211_band`. -/
inductive Band
  | band2GHz | band5GHz | band60GHz | band6GHz | bandS1GHz | bandLc
  deriving DecidableEq, Repr

/-- `struct ieee80211_channel`, as far as channel definitions read it. -/
structure Channel where
  band : Band
  centerFreq : UInt32
  freqOffset : UInt16

/-- `struct ieee80211_edmg`. -/
structure Edmg where
  channels : UInt8
  bwConfig : UInt32
  deriving DecidableEq

/-- `struct cfg80211_chan_def`. -/
@[ext] structure ChanDef (κ : Type) where
  chan : Option κ
  npcaChan : Option κ
  width : ChanWidth
  centerFreq1 : UInt32
  centerFreq2 : UInt32
  edmg : Edmg
  freq1Offset : UInt16
  punctured : UInt16
  npcaPunctured : UInt16
  s1gPrimary2mhz : Bool
  deriving DecidableEq

/-- `nl80211_chan_width_to_mhz`. -/
def chanWidthToMhz : ChanWidth → ℤ
  | .width1 => 1
  | .width2 => 2
  | .width4 => 4
  | .width8 => 8
  | .width16 => 16
  | .width20 | .width20NoHt => 20
  | .width40 => 40
  | .width80p80 | .width80 => 80
  | .width160 => 160
  | .width320 => 320
  | .width5 | .width10 => -1

/-- `IS_S1G`. -/
def ChanWidth.isS1g : ChanWidth → Bool
  | .width1 | .width2 | .width4 | .width8 | .width16 => true
  | _ => false

theorem chanWidthToMhz_mono : ∀ {v w : ChanWidth}, v.val < w.val → v.isS1g = false →
    w.isS1g = false → w ≠ .width5 → w ≠ .width10 → chanWidthToMhz v ≤ chanWidthToMhz w := by
  intro v w
  cases v <;> cases w <;> decide

def mhzToKhz (freq : UInt32) : UInt32 := freq * 1000

/-- `ieee80211_channel_to_khz`. -/
def Channel.toKhz (chan : Channel) : UInt32 := mhzToKhz chan.centerFreq + chan.freqOffset.toUInt32

section chandef
variable {κ : Type}

namespace ChanDef
variable (c : ChanDef κ)

/-- `cfg80211_chandef_get_width`. -/
def getWidth : ℤ := chanWidthToMhz c.width

/-- The width as the `u32` or the unsigned operand that the arithmetic of the source makes of it. -/
def getWidthU32 : UInt32 := UInt32.ofNat c.getWidth.toNat

/-- `ieee80211_chandef_to_khz`. -/
def toKhz : UInt32 := mhzToKhz c.centerFreq1 + c.freq1Offset.toUInt32

/-- `cfg80211_s1g_get_start_freq_khz`. -/
def s1gStartFreqKhz : UInt32 := c.toKhz - c.getWidthU32 * 500 + 500

/-- `cfg80211_s1g_get_end_freq_khz`. -/
def s1gEndFreqKhz : UInt32 := c.toKhz + c.getWidthU32 * 500 - 500

/-- `cfg80211_chandef_is_edmg`. -/
def isEdmg : Bool := c.edmg.channels != 0 || c.edmg.bwConfig != 0

end ChanDef

/-! ### Validity -/

/-- `cfg80211_valid_60g_freq`. -/
def valid60gFreq (freq : UInt32) : Bool := 58320 ≤ freq && freq ≤ 70200

/-- One iteration of the loop of `cfg80211_edmg_chandef_valid`, on `contiguous`, `num_of_enabled`
and `max_contiguous`. -/
def edmgCount (channels : UInt8) (s : ℕ × ℕ × ℕ) (i : ℕ) : ℕ × ℕ × ℕ :=
  let (contiguous, numOfEnabled, maxContiguous) := s
  if channels.toNat.testBit i then
    (contiguous + 1, numOfEnabled + 1, max (contiguous + 1) maxContiguous)
  else (0, numOfEnabled, max 0 maxContiguous)

/-- `cfg80211_edmg_chandef_valid`, for the control channel `chan`. -/
def edmgChandefValid (chan : Channel) (edmg : Edmg) : Bool :=
  let (_, numOfEnabled, maxContiguous) :=
    (List.range 6).foldl (edmgCount edmg.channels) (0, 0, 0)
  let bw := edmg.bwConfig.toNat
  edmg.channels != 0 && edmg.bwConfig != 0 && valid60gFreq chan.centerFreq &&
  -- bw_config against contiguous channels
  (if bw = 4 ∨ bw = 8 ∨ bw = 12 then 1 ≤ maxContiguous
   else if bw = 5 ∨ bw = 9 ∨ bw = 13 then 2 ≤ maxContiguous
   else if bw = 6 ∨ bw = 10 ∨ bw = 14 then 3 ≤ maxContiguous
   else if bw = 7 ∨ bw = 11 ∨ bw = 15 then 4 ≤ maxContiguous
   else false) &&
  -- bw_config against aggregated channels
  (if 4 ≤ bw ∧ bw ≤ 7 then true
   else if 8 ≤ bw ∧ bw ≤ 11 then 2 ≤ numOfEnabled
   else if 12 ≤ bw ∧ bw ≤ 15 then 4 ≤ numOfEnabled && 2 ≤ maxContiguous
   else false)

/-- `cfg80211_valid_center_freq`: strict on 6 GHz only. -/
def validCenterFreq (center : UInt32) (width : ChanWidth) : Bool :=
  if center < 5955 ∨ 7215 < center then true
  else if chanWidthToMhz width < 0 then false
  else
    let bw := UInt32.ofNat (chanWidthToMhz width).toNat
    if center - bw / 2 < 5945 ∨ 7225 < center + bw / 2 then false
    else
      let step := if bw = 320 then 160 else bw
      (center - bw / 2 - 5945) % step == 0

/-- One of the distances in `cfg80211_chandef_valid_control_freq`, on either side. -/
def atDistance (centerFreq1 controlFreq : UInt32) (ds : List UInt32) : Bool :=
  ds.any fun d => centerFreq1 == controlFreq + d || centerFreq1 == controlFreq - d

/-- `cfg80211_chandef_valid_control_freq`: each width falls through to the next smaller one. -/
def chandefValidControlFreq (c : ChanDef κ) (controlFreq : UInt32) : Bool :=
  let dist40 := atDistance c.centerFreq1 controlFreq [10]
  let dist80 := atDistance c.centerFreq1 controlFreq [30] || dist40
  let dist160 := atDistance c.centerFreq1 controlFreq [70, 50] || dist80
  let dist320 := atDistance c.centerFreq1 controlFreq [150, 130, 110, 90] || dist160
  match c.width with
  | .width20 | .width20NoHt | .width1 | .width2 | .width4 | .width8 | .width16 => true
  | .width320 => dist320
  | .width160 => dist160
  | .width80p80 | .width80 => dist80
  | .width40 => dist40
  | .width5 | .width10 => false

/-- `puncturing_values_80mhz`. -/
def puncturingValues80mhz : List ℕ := [0x8, 0x4, 0x2, 0x1]

/-- `puncturing_values_160mhz`. -/
def puncturingValues160mhz : List ℕ :=
  [0x80, 0x40, 0x20, 0x10, 0x8, 0x4, 0x2, 0x1, 0xc0, 0x30, 0xc, 0x3]

/-- `puncturing_values_320mhz`. -/
def puncturingValues320mhz : List ℕ :=
  [0xc000, 0x3000, 0xc00, 0x300, 0xc0, 0x30, 0xc, 0x3, 0xf000, 0xf00, 0xf0, 0xf, 0xfc00, 0xf300,
    0xf0c0, 0xf030, 0xf00c, 0xf003, 0xc00f, 0x300f, 0xc0f, 0x30f, 0xcf, 0x3f]

/-- The common part of `valid_puncturing_bitmap` for the widths that can be punctured. -/
def validPuncturingValue (values : List ℕ) (startFreq primaryCenter : UInt32) (punctured : ℕ) :
    Bool :=
  if punctured = 0 then true
  -- the primary channel is punctured
  else if punctured.testBit ((primaryCenter - startFreq) / 20).toNat then false
  else values.contains punctured

/-- `valid_puncturing_bitmap`. -/
def validPuncturingBitmap (c : ChanDef κ) (primaryCenter : UInt32) (punctured : ℕ) : Bool :=
  match c.width with
  | .width80 =>
    validPuncturingValue puncturingValues80mhz (c.centerFreq1 - 40) primaryCenter punctured
  | .width160 =>
    validPuncturingValue puncturingValues160mhz (c.centerFreq1 - 80) primaryCenter punctured
  | .width320 =>
    validPuncturingValue puncturingValues320mhz (c.centerFreq1 - 160) primaryCenter punctured
  | _ => punctured = 0

/-- The switch of `cfg80211_chandef_valid` on the width, for the control channel `chan`. -/
def validWidth (chan : Channel) (c : ChanDef κ) : Bool :=
  match c.width with
  | .width20 | .width20NoHt => c.toKhz == chan.toKhz && c.centerFreq2 == 0
  | .width1 | .width2 | .width4 | .width8 | .width16 =>
    chan.band == .bandS1GHz && c.centerFreq2 == 0 &&
    c.s1gStartFreqKhz ≤ chan.toKhz && chan.toKhz ≤ c.s1gEndFreqKhz
  | .width80p80 =>
    c.centerFreq2 != 0 &&
    -- adjacent is not allowed, that's a 160 MHz channel
    c.centerFreq1 - c.centerFreq2 != 80 && c.centerFreq2 - c.centerFreq1 != 80
  | _ => c.centerFreq2 == 0

/-- The checks of `cfg80211_chandef_valid` on NPCA. -/
def validNpca (c : ChanDef κ) : Bool :=
  if c.npcaChan.isSome then
    c.width = .width80 || c.width = .width160 || c.width = .width320
  else c.npcaPunctured = 0

variable (channels : κ → Channel)

/-- `cfg80211_chandef_valid`. -/
def chandefValid (c : ChanDef κ) : Bool :=
  match c.chan with
  | none => false
  | some k =>
    let chan := channels k
    let isS1g := chan.band == .bandS1GHz
    c.freq1Offset < 1000 && (!isS1g || c.width.isS1g) && validWidth chan c &&
    chandefValidControlFreq c chan.centerFreq && validNpca c &&
    validCenterFreq c.centerFreq1 c.width &&
    (c.width != .width80p80 || validCenterFreq c.centerFreq2 c.width) &&
    -- channel 14 is only for IEEE 802.11b
    (c.centerFreq1 != 2484 || c.width == .width20NoHt) &&
    (!c.isEdmg || edmgChandefValid chan c.edmg) &&
    (isS1g || !c.s1gPrimary2mhz) &&
    validPuncturingBitmap c chan.centerFreq c.punctured.toNat

/-- A chandef that the theorems are about: valid and without NPCA. -/
structure Usable (c : ChanDef κ) : Prop where
  valid : chandefValid channels c = true
  noNpca : c.npcaChan = none

section valid
variable {channels} {c : ChanDef κ}

section
variable (h : Usable channels c)
include h

theorem Usable.width_ne : c.width ≠ .width5 ∧ c.width ≠ .width10 := by
  have hv := h.valid
  unfold chandefValid chandefValidControlFreq at hv
  constructor <;> intro hw <;> cases hk : c.chan <;> simp [hk, hw] at hv

theorem Usable.centerFreq2 (hs : c.width.isS1g = false) (hw : c.width ≠ .width80p80) :
    c.centerFreq2 = 0 := by
  have hv := h.valid
  unfold chandefValid validWidth at hv
  cases hk : c.chan <;> simp only [hk, Bool.and_eq_true] at hv
  · cases hv
  · cases hc : c.width <;> simp_all

theorem Usable.punctured (hw : c.width ≠ .width80 ∧ c.width ≠ .width160 ∧ c.width ≠ .width320) :
    c.punctured = 0 := by
  have hv := h.valid
  unfold chandefValid validPuncturingBitmap at hv
  cases hk : c.chan <;> simp only [hk, Bool.and_eq_true] at hv
  · cases hv
  · have hp : c.punctured.toNat = 0 := by cases hc : c.width <;> simp_all
    exact UInt16.toNat_inj.mp hp

theorem Usable.s1gPrimary2mhz (hs : c.width.isS1g = false) :
    c.s1gPrimary2mhz = false := by
  have hv := h.valid
  unfold chandefValid at hv
  cases hk : c.chan <;> simp only [hk, Bool.and_eq_true] at hv
  · cases hv
  · obtain ⟨⟨⟨⟨⟨⟨⟨⟨⟨⟨-, hband⟩, -⟩, -⟩, -⟩, -⟩, -⟩, -⟩, -⟩, hprim⟩, -⟩ := hv
    simp_all

theorem Usable.npcaPunctured : c.npcaPunctured = 0 := by
  have hv := h.valid
  unfold chandefValid validNpca at hv
  cases hk : c.chan <;> simp only [hk, Bool.and_eq_true] at hv
  · cases hv
  · simp_all [h.noNpca]

end

end valid

/-! ### Compatibility -/

/-- The loop of `cfg80211_chandef_primary`, on `width`, `center` and `*punctured`: halve the channel
to the side of the control channel. -/
def primaryHalve (priWidth : ℕ) (control : UInt32) :
    ℕ → ℕ → UInt32 → UInt16 → UInt32 × UInt16
  | 0, _, center, punctured => (center, punctured)
  | n + 1, width, center, punctured =>
    if priWidth < width then
      let bitsToDrop := UInt16.ofNat (width / 20 / 2)
      if center < control then
        primaryHalve priWidth control n (width / 2) (center + UInt32.ofNat (width / 4))
          (punctured >>> bitsToDrop)
      else
        primaryHalve priWidth control n (width / 2) (center - UInt32.ofNat (width / 4))
          (punctured &&& ((1 <<< bitsToDrop) - 1))
    else (center, punctured)

/-- `cfg80211_chandef_primary`, for a chandef with a control channel: the center frequency and
`*punctured` of the part of width `primaryChanWidth`.  With the result -1 `*punctured` stays 0. -/
def chandefPrimary (c : ChanDef κ) (primaryChanWidth : ChanWidth) : UInt32 × UInt16 :=
  let priWidth := chanWidthToMhz primaryChanWidth
  let width := c.getWidth
  if priWidth < 0 ∨ width < 0 then (0xffffffff, 0)
  else if width < priWidth then (0xffffffff, 0)
  else
    let control := (c.chan.map fun k => (channels k).centerFreq).getD 0
    -- the width is at most 320
    primaryHalve priWidth.toNat control 9 width.toNat c.centerFreq1 c.punctured

/-- Outcome of `_cfg80211_chandef_compatible` and its helper: a chandef, `NULL` (go on, or
incompatible), an error pointer, or `NULL` after the warning at the end. -/
inductive Verdict (κ : Type)
  | chandef (c : ChanDef κ)
  | null
  | error
  | warned

/-- `check_chandef_primary_compat`. -/
def checkPrimaryCompat (c₁ c₂ : ChanDef κ) (primaryChanWidth : ChanWidth) : Verdict κ :=
  let (pri₁, punct₁) := chandefPrimary channels c₁ primaryChanWidth
  let (pri₂, punct₂) := chandefPrimary channels c₂ primaryChanWidth
  if pri₁ ≠ pri₂ then .error
  else if punct₁ ≠ punct₂ then .error
  else if c₁.width = primaryChanWidth then .chandef c₂
  else .null

/-- The checks of `_cfg80211_chandef_compatible` on a narrower `c₁`. -/
def narrowerCompatible (c₁ c₂ : ChanDef κ) : Verdict κ :=
  if c₁.width.val ≤ ChanWidth.width20.val then .chandef c₂
  else
    match checkPrimaryCompat channels c₁ c₂ .width40 with
    | .null =>
      match checkPrimaryCompat channels c₁ c₂ .width80 with
      | .null =>
        if c₁.width = .width80p80 then .null
        else
          match checkPrimaryCompat channels c₁ c₂ .width160 with
          | .null => .warned
          | ret => ret
      | ret => ret
    | ret => ret

/-- `x` has the same parts around the control channel as `c`, up to its own width.  A channel with a
second segment is not part of a wider one. -/
def PrimaryMatch (x c : ChanDef κ) : Prop :=
  x.width ≠ .width80p80 ∧
    ∀ w ∈ [ChanWidth.width40, .width80, .width160], w.val ≤ x.width.val →
      chandefPrimary channels x w = chandefPrimary channels c w

instance (x c : ChanDef κ) : Decidable (PrimaryMatch channels x c) :=
  inferInstanceAs (Decidable (_ ∧ _))

section narrower
variable {channels} {x c : ChanDef κ} {w : ChanWidth}

variable (channels) in
theorem chandefPrimary_self {c : ChanDef κ} (hw : 0 ≤ chanWidthToMhz c.width) :
    chandefPrimary channels c c.width = (c.centerFreq1, c.punctured) := by
  unfold chandefPrimary ChanDef.getWidth
  rw [if_neg (by omega), if_neg (by omega), primaryHalve, if_neg (by omega)]

theorem checkPrimaryCompat_of_eq (h : chandefPrimary channels x w = chandefPrimary channels c w) :
    checkPrimaryCompat channels x c w = if x.width = w then .chandef c else .null := by
  simp only [checkPrimaryCompat, h, ne_eq, not_true_eq_false, if_false]

theorem checkPrimaryCompat_of_ne (h : chandefPrimary channels x w ≠ chandefPrimary channels c w) :
    checkPrimaryCompat channels x c w = .error := by
  simp only [checkPrimaryCompat]
  split_ifs with hpri hpunct
  · rfl
  · rfl
  · exact absurd (Prod.ext (not_not.mp hpri) (not_not.mp hpunct)) h
  · exact absurd (Prod.ext (not_not.mp hpri) (not_not.mp hpunct)) h

theorem Usable.narrow_cases (hx : Usable channels x) (hlt : x.width.val < c.width.val)
    (hs : x.width.isS1g = false) :
    x.width = .width20NoHt ∨ x.width = .width20 ∨ x.width = .width40 ∨ x.width = .width80 ∨
      x.width = .width80p80 ∨ x.width = .width160 := by
  obtain ⟨hne5, hne10⟩ := hx.width_ne
  have hmax : c.width.val ≤ 13 := by cases c.width <;> decide
  cases hw : x.width <;> simp_all [ChanWidth.val, ChanWidth.isS1g]
  omega

theorem narrowerCompatible_eq (hx : Usable channels x) (hlt : x.width.val < c.width.val)
    (hs : x.width.isS1g = false) :
    PrimaryMatch channels x c ∧ narrowerCompatible channels x c = .chandef c ∨
      ¬ PrimaryMatch channels x c ∧
        (narrowerCompatible channels x c = .null ∨ narrowerCompatible channels x c = .error) := by
  have hw := hx.narrow_cases hlt hs
  unfold PrimaryMatch narrowerCompatible
  by_cases h40 : chandefPrimary channels x .width40 = chandefPrimary channels c .width40 <;>
  by_cases h80 : chandefPrimary channels x .width80 = chandefPrimary channels c .width80 <;>
  by_cases h160 : chandefPrimary channels x .width160 = chandefPrimary channels c .width160 <;>
  rcases hw with hw | hw | hw | hw | hw | hw <;>
  simp [hw, h40, h80, h160, checkPrimaryCompat_of_eq, checkPrimaryCompat_of_ne, ChanWidth.val]

end narrower

section compatible
variable [DecidableEq κ]

/-- `cfg80211_chandef_identical`. -/
def chandefIdentical (c₁ c₂ : ChanDef κ) : Bool :=
  c₁.chan = c₂.chan && c₁.width = c₂.width && c₁.centerFreq1 = c₂.centerFreq1 &&
  c₁.freq1Offset = c₂.freq1Offset && c₁.centerFreq2 = c₂.centerFreq2 &&
  c₁.punctured = c₂.punctured && c₁.s1gPrimary2mhz = c₂.s1gPrimary2mhz &&
  c₁.npcaChan = c₂.npcaChan && c₁.npcaPunctured = c₂.npcaPunctured

/-- `_cfg80211_chandef_compatible`. -/
def chandefCompatibleVerdict (c₁ c₂ : ChanDef κ) : Verdict κ :=
  if chandefIdentical c₁ c₂ then .chandef c₂
  else if c₁.chan ≠ c₂.chan then .null
  else if c₁.width = c₂.width then .null
  else if c₁.npcaChan.isSome ∨ c₂.npcaChan.isSome then .null
  else if c₁.width.isS1g ∨ c₂.width.isS1g then .null
  -- make sure that the first one is the narrower one
  else if c₂.width.val < c₁.width.val then narrowerCompatible channels c₂ c₁
  else narrowerCompatible channels c₁ c₂

/-- `cfg80211_chandef_compatible`. -/
def chandefCompatible (c₁ c₂ : ChanDef κ) : Option (ChanDef κ) :=
  match chandefCompatibleVerdict channels c₁ c₂ with
  | .chandef c => some c
  | .null | .error | .warned => none

/-! ### Users of one channel -/

/-- `x` is the channel `c` or a narrower part of it around the same control channel. -/
def PartOf (x c : ChanDef κ) : Prop :=
  chandefIdentical x c = true ∨
    x.chan = c.chan ∧ x.width.val < c.width.val ∧ x.width.isS1g = false ∧ c.width.isS1g = false ∧
      PrimaryMatch channels x c

instance (x c : ChanDef κ) : Decidable (PartOf channels x c) :=
  inferInstanceAs (Decidable (_ ∨ _))

def mergeChandefs : List (ChanDef κ) → Option (ChanDef κ) := merge (chandefCompatible channels)

variable {channels} {a b c x y z : ChanDef κ} {w : ChanWidth}

/-! ### What compatibility decides -/

theorem chandefIdentical_iff : chandefIdentical x y = true ↔ x = { y with edmg := x.edmg } := by
  simp only [chandefIdentical, Bool.and_eq_true, decide_eq_true_eq, ChanDef.ext_iff, true_and]
  tauto

theorem chandefIdentical_symm (h : chandefIdentical x y = true) : chandefIdentical y x = true := by
  simp only [chandefIdentical, Bool.and_eq_true, decide_eq_true_eq] at h ⊢
  tauto

theorem partOf_of_identical (h : chandefIdentical x y = true) : PartOf channels x y := .inl h

theorem partOf_refl (x : ChanDef κ) : PartOf channels x x :=
  partOf_of_identical (chandefIdentical_iff.mpr rfl)

theorem PartOf.width_le (h : PartOf channels x y) : x.width.val ≤ y.width.val := by
  rcases h with h | ⟨-, hlt, -⟩
  · exact Nat.le_of_eq (by rw [chandefIdentical_iff.mp h])
  · exact Nat.le_of_lt hlt

theorem PartOf.identical (h : PartOf channels x y) (hw : y.width.val ≤ x.width.val) :
    chandefIdentical x y = true := by
  rcases h with h | ⟨-, hlt, -⟩
  · exact h
  · exact absurd hw (Nat.not_le.mpr hlt)

theorem PartOf.trans (hxy : PartOf channels x y) (hyz : PartOf channels y z) : PartOf channels x z := by
  -- EDMG, in which identical chandefs may differ, is not compared
  rcases hyz with hyz | ⟨hchan', hlt', hsy, hsz, hne', hpri'⟩
  · rwa [chandefIdentical_iff.mp hyz] at hxy
  rcases hxy with hxy | ⟨hchan, hlt, hsx, -, hne, hpri⟩
  · rw [chandefIdentical_iff.mp hxy]
    exact .inr ⟨hchan', hlt', hsy, hsz, hne', hpri'⟩
  · refine .inr ⟨hchan.trans hchan', Nat.lt_trans hlt hlt', hsx, hsz, hne, fun w hw hle => ?_⟩
    exact (hpri w hw hle).trans (hpri' w hw (Nat.le_of_lt (Nat.lt_of_le_of_lt hle hlt)))

section
variable (ha : Usable channels a) (hb : Usable channels b)
include ha hb

theorem chandefCompatibleVerdict_eq :
    PartOf channels a b ∧ chandefCompatibleVerdict channels a b = .chandef b ∨
      ¬ PartOf channels a b ∧ PartOf channels b a ∧
        chandefCompatibleVerdict channels a b = .chandef a ∨
      ¬ PartOf channels a b ∧ ¬ PartOf channels b a ∧
        (chandefCompatibleVerdict channels a b = .null ∨
          chandefCompatibleVerdict channels a b = .error) := by
  unfold chandefCompatibleVerdict
  by_cases hid : chandefIdentical a b = true
  · exact .inl ⟨partOf_of_identical hid, by rw [if_pos hid]⟩
  have hid' : ¬ chandefIdentical b a = true := fun h => hid (chandefIdentical_symm h)
  have hpart : ∀ {x y : ChanDef κ}, ¬ chandefIdentical x y = true → PartOf channels x y →
      x.chan = y.chan ∧ x.width.val < y.width.val ∧ x.width.isS1g = false ∧
        y.width.isS1g = false ∧ PrimaryMatch channels x y := fun h hf => hf.resolve_left h
  rw [if_neg hid]
  by_cases hchan : a.chan = b.chan
  swap
  · rw [if_pos hchan]
    exact .inr (.inr ⟨fun h => hchan (hpart hid h).1, fun h => hchan (hpart hid' h).1.symm,
      .inl rfl⟩)
  rw [if_neg (not_not.mpr hchan)]
  by_cases hwidth : a.width = b.width
  · rw [if_pos hwidth]
    refine .inr (.inr ⟨fun h => ?_, fun h => ?_, .inl rfl⟩)
    · exact absurd (hpart hid h).2.1 (by rw [hwidth]; exact Nat.lt_irrefl _)
    · exact absurd (hpart hid' h).2.1 (by rw [hwidth]; exact Nat.lt_irrefl _)
  rw [if_neg hwidth, if_neg (by simp [ha.noNpca, hb.noNpca])]
  by_cases hs : a.width.isS1g ∨ b.width.isS1g
  · rw [if_pos hs]
    refine .inr (.inr ⟨fun h => ?_, fun h => ?_, .inl rfl⟩)
    · obtain ⟨-, -, hsa, hsb, -⟩ := hpart hid h
      simp [hsa, hsb] at hs
    · obtain ⟨-, -, hsa, hsb, -⟩ := hpart hid' h
      simp [hsa, hsb] at hs
  rw [if_neg hs]
  obtain ⟨hsa, hsb⟩ := not_or.mp hs
  rw [Bool.not_eq_true] at hsa hsb
  have hval : a.width.val ≠ b.width.val := fun h => hwidth (ChanWidth.val_injective h)
  by_cases hlt : b.width.val < a.width.val
  · rw [if_pos hlt]
    have hnab : ¬ PartOf channels a b := fun h => absurd h.width_le (Nat.not_le.mpr hlt)
    rcases narrowerCompatible_eq hb hlt hsb with ⟨hpm, hv⟩ | ⟨hpm, hv⟩
    · exact .inr (.inl ⟨hnab, .inr ⟨hchan.symm, hlt, hsb, hsa, hpm⟩, hv⟩)
    · exact .inr (.inr ⟨hnab, fun h => hpm (hpart hid' h).2.2.2.2, hv⟩)
  rw [if_neg hlt]
  have hlt' : a.width.val < b.width.val := by omega
  have hnba : ¬ PartOf channels b a := fun h => absurd h.width_le (Nat.not_le.mpr hlt')
  rcases narrowerCompatible_eq ha hlt' hsa with ⟨hpm, hv⟩ | ⟨hpm, hv⟩
  · exact .inl ⟨.inr ⟨hchan, hlt', hsa, hsb, hpm⟩, hv⟩
  · exact .inr (.inr ⟨fun h => hpm (hpart hid h).2.2.2.2, hnba, hv⟩)

/-! ### The order of merging -/

theorem chandefCompatible_of_partOf (h : PartOf channels a b) :
    chandefCompatible channels a b = some b := by
  rcases chandefCompatibleVerdict_eq ha hb with ⟨-, hv⟩ | ⟨hn, -⟩ | ⟨hn, -⟩
  · rw [chandefCompatible, hv]
  · exact absurd h hn
  · exact absurd h hn

theorem chandefCompatible_of_partOf_right (h : PartOf channels b a) (hn : ¬ PartOf channels a b) :
    chandefCompatible channels a b = some a := by
  rcases chandefCompatibleVerdict_eq ha hb with ⟨hf, -⟩ | ⟨-, -, hv⟩ | ⟨-, hn', -⟩
  · exact absurd hf hn
  · rw [chandefCompatible, hv]
  · exact absurd h hn'

theorem chandefCompatible_of_not_partOf (hab : ¬ PartOf channels a b) (hba : ¬ PartOf channels b a) :
    chandefCompatible channels a b = none := by
  rcases chandefCompatibleVerdict_eq ha hb with ⟨hf, -⟩ | ⟨-, hf, -⟩ | ⟨-, -, hv | hv⟩
  · exact absurd hf hab
  · exact absurd hf hba
  · rw [chandefCompatible, hv]
  · rw [chandefCompatible, hv]

end

theorem selects_chandefCompatible :
    Selects (Usable channels) (PartOf channels) (chandefCompatible channels) where
  refl := partOf_refl
  trans _ _ _ _ _ _ := PartOf.trans
  of_le _ _ := chandefCompatible_of_partOf
  of_ge _ _ := chandefCompatible_of_partOf_right
  related a b r ha hb hr := by
    by_contra hn
    obtain ⟨hab, hba⟩ := not_or.mp hn
    rw [chandefCompatible_of_not_partOf ha hb hab hba] at hr
    cases hr

section
variable (hx : Usable channels x) (hy : Usable channels y) (hxc : PartOf channels x c)
  (hyc : PartOf channels y c)
include hxc hyc

include hx hy in
/-- Channels of one width below `c` have the same channel, second segment, puncturing and NPCA. -/
theorem identical_of_partOf (hw : x.width = y.width)
    (hfreq : x.centerFreq1 = y.centerFreq1) (hoff : x.freq1Offset = y.freq1Offset) :
    chandefIdentical x y = true := by
  rcases hxc with hxc | ⟨hchan, hlt, hs, -, hne, hpri⟩
  · -- both have the width of `c`
    have hcw : c.width.val ≤ y.width.val :=
      Nat.le_of_eq (by rw [← hw, chandefIdentical_iff.mp hxc])
    have hcy := chandefIdentical_symm (hyc.identical hcw)
    rwa [chandefIdentical_iff.mp hxc]
  · rcases hyc with hyc | ⟨hchan', -, -, -, -, hpri'⟩
    · rw [hw, chandefIdentical_iff.mp hyc] at hlt
      exact absurd hlt (Nat.lt_irrefl _)
    have hsy : y.width.isS1g = false := hw ▸ hs
    have hpunct : x.punctured = y.punctured := by
      by_cases hp : x.width = .width80 ∨ x.width = .width160
      · -- the last comparison is at the width of both
        have hmem : x.width ∈ [ChanWidth.width40, .width80, .width160] := by
          rcases hp with hp | hp <;> rw [hp] <;> decide
        have hmhz : 0 ≤ chanWidthToMhz x.width := by
          rcases hp with hp | hp <;> rw [hp] <;> decide
        have h₁ := hpri x.width hmem (Nat.le_refl _)
        have h₂ := hpri' x.width hmem (hw ▸ Nat.le_refl _)
        rw [← h₂, chandefPrimary_self _ hmhz] at h₁
        rw [hw, chandefPrimary_self _ (hw ▸ hmhz)] at h₁
        exact congrArg Prod.snd h₁
      · have hx320 : x.width ≠ .width320 := by
          intro h
          rw [h] at hlt
          have hmax : c.width.val ≤ 13 := by cases c.width <;> decide
          exact absurd hlt (Nat.not_lt.mpr hmax)
        obtain ⟨h80, h160⟩ := not_or.mp hp
        rw [hx.punctured ⟨h80, h160, hx320⟩, hy.punctured ⟨hw ▸ h80, hw ▸ h160, hw ▸ hx320⟩]
    rw [chandefIdentical_iff, ChanDef.ext_iff]
    refine ⟨hchan.trans hchan'.symm, ?_, hw, hfreq, ?_, rfl, hoff, hpunct, ?_, ?_⟩
    · rw [hx.noNpca, hy.noNpca]
    · rw [hx.centerFreq2 hs hne, hy.centerFreq2 hsy (hw ▸ hne)]
    · rw [hx.npcaPunctured, hy.npcaPunctured]
    · rw [hx.s1gPrimary2mhz hs, hy.s1gPrimary2mhz hsy]

theorem partOf_of_width_lt (hlt : x.width.val < y.width.val) : PartOf channels x y := by
  have hyc' := hyc.width_le
  rcases hyc with hyc | ⟨hchan', -, hsy, -, -, hpri'⟩
  · exact hxc.trans (partOf_of_identical (chandefIdentical_symm hyc))
  rcases hxc with hxc | ⟨hchan, -, hs, -, hne, hpri⟩
  · have hcx : PartOf channels c x := partOf_of_identical (chandefIdentical_symm hxc)
    have hcx' := hcx.width_le
    omega
  · refine .inr ⟨hchan.trans hchan'.symm, hlt, hs, hsy, hne, fun w hw hle => ?_⟩
    exact (hpri w hw hle).trans (hpri' w hw (Nat.le_trans hle (Nat.le_of_lt hlt))).symm

include hx hy in
/-- Channels below `c` are parts of each other if those of one width agree on the center frequency.
-/
theorem related_of_partOf (hfreq : x.width = y.width →
      x.centerFreq1 = y.centerFreq1 ∧ x.freq1Offset = y.freq1Offset) :
    PartOf channels x y ∨ PartOf channels y x := by
  rcases Nat.lt_trichotomy x.width.val y.width.val with hlt | heq | hlt
  · exact .inl (partOf_of_width_lt hxc hyc hlt)
  · have hw := ChanWidth.val_injective heq
    obtain ⟨hf, ho⟩ := hfreq hw
    exact .inl (partOf_of_identical (identical_of_partOf hx hy hxc hyc hw hf ho))
  · exact .inr (partOf_of_width_lt hyc hxc hlt)

end

variable (channels) in
/-- If a chandef covers the others, those of one width agree on the center frequency, and those of
the largest width on EDMG. -/
def Agreeing (l : List (ChanDef κ)) : Prop :=
  ∀ c ∈ l, (∀ x ∈ l, PartOf channels x c) →
    (∀ x ∈ l, ∀ y ∈ l, x.width = y.width →
      x.centerFreq1 = y.centerFreq1 ∧ x.freq1Offset = y.freq1Offset) ∧
    ∀ x ∈ l, x.width = c.width → x.edmg = c.edmg

theorem mergeChandefs_perm_iff {l : List (ChanDef κ)} (hl : ∀ c ∈ l, Usable channels c) :
    (∀ l', l'.Perm l → mergeChandefs channels l' = mergeChandefs channels l) ↔
      Agreeing channels l := by
  unfold mergeChandefs
  rw [selects_chandefCompatible.merge_perm_iff hl]
  refine forall₃_congr fun c hc hcov => and_congr ⟨fun hrel => ?_, fun hfreq => ?_⟩
    ⟨fun htop x hx hw => ?_, fun htop x hx hcx => ?_⟩
  · intro x hx y hy hw
    have hid : chandefIdentical x y = true := by
      rcases hrel x hx y hy with h | h
      · exact h.identical (hw ▸ Nat.le_refl _)
      · exact chandefIdentical_symm (h.identical (hw ▸ Nat.le_refl _))
    rw [chandefIdentical_iff.mp hid]
    exact ⟨rfl, rfl⟩
  · intro x hx y hy
    exact related_of_partOf (hl x hx) (hl y hy) (hcov x hx) (hcov y hy) (hfreq x hx y hy)
  · have hid := (hcov x hx).identical (hw ▸ Nat.le_refl _)
    rw [htop x hx (partOf_of_identical (chandefIdentical_symm hid))]
  · have hid := (hcov x hx).identical hcx.width_le
    have hw : x.width = c.width := by
      rw [chandefIdentical_iff.mp hid]
    rw [chandefIdentical_iff.mp hid, htop x hx hw]

theorem PartOf.getWidth_le (hc : Usable channels c) (h : PartOf channels x c) :
    x.getWidth ≤ c.getWidth := by
  rcases h with h | ⟨-, hlt, hs, hs', -⟩
  · rw [chandefIdentical_iff.mp h]
    exact Int.le_refl _
  · exact chanWidthToMhz_mono hlt hs hs' hc.width_ne.1 hc.width_ne.2

/-- **Order independence.**  For valid chandefs without NPCA, compatibility is symmetric in success
and returns the wider argument.  The result of merging is independent of the order exactly for
agreeing chandefs. -/
theorem chandef_merge_order_iff (l : List (ChanDef κ)) (hl : ∀ c ∈ l, Usable channels c) :
    (∀ a ∈ l, ∀ b ∈ l,
      chandefCompatibleVerdict channels a b ≠ .warned ∧
      (chandefCompatible channels a b).isSome = (chandefCompatible channels b a).isSome ∧
      ∀ r, chandefCompatible channels a b = some r →
        (r = a ∨ r = b) ∧ a.getWidth ≤ r.getWidth ∧ b.getWidth ≤ r.getWidth) ∧
    (∀ a ∈ l, ∀ b ∈ l, chandefCompatible channels a b = chandefCompatible channels b a ↔
      (chandefIdentical a b = true → a.edmg = b.edmg)) ∧
    ((∀ l', l'.Perm l → mergeChandefs channels l' = mergeChandefs channels l) ↔
      Agreeing channels l) := by
  have hsel : Selects (Usable channels) (PartOf channels) (chandefCompatible channels) :=
    selects_chandefCompatible
  refine ⟨fun a ha b hb => ⟨?_, ?_, ?_⟩, fun a ha b hb => ?_, mergeChandefs_perm_iff hl⟩
  · rcases chandefCompatibleVerdict_eq (hl a ha) (hl b hb) with
      ⟨-, hv⟩ | ⟨-, -, hv⟩ | ⟨-, -, hv | hv⟩ <;>
    · rw [hv]
      exact fun h => nomatch h
  · rw [Bool.eq_iff_iff, hsel.isSome_iff (hl a ha) (hl b hb), hsel.isSome_iff (hl b hb) (hl a ha),
      or_comm]
  · intro r hr
    obtain ⟨hmem, har, hbr⟩ := hsel.result (hl a ha) (hl b hb) hr
    have hrU : Usable channels r := by
      rcases hmem with rfl | rfl
      · exact hl r ha
      · exact hl r hb
    exact ⟨hmem, har.getWidth_le hrU, hbr.getWidth_le hrU⟩
  · by_cases hab : PartOf channels a b <;> by_cases hba : PartOf channels b a
    · -- each is the result of one of the orders
      have hid := hab.identical hba.width_le
      rw [chandefCompatible_of_partOf (hl a ha) (hl b hb) hab,
        chandefCompatible_of_partOf (hl b hb) (hl a ha) hba]
      constructor
      · intro h _
        rw [Option.some.inj h]
      · intro h
        rw [chandefIdentical_iff.mp hid, h hid]
    · rw [chandefCompatible_of_partOf (hl a ha) (hl b hb) hab,
        chandefCompatible_of_partOf_right (hl b hb) (hl a ha) hab hba]
      exact iff_of_true rfl fun h => absurd (partOf_of_identical (chandefIdentical_symm h)) hba
    · rw [chandefCompatible_of_partOf (hl b hb) (hl a ha) hba,
        chandefCompatible_of_partOf_right (hl a ha) (hl b hb) hba hab]
      exact iff_of_true rfl fun h => absurd (partOf_of_identical h) hab
    · rw [chandefCompatible_of_not_partOf (hl a ha) (hl b hb) hab hba,
        chandefCompatible_of_not_partOf (hl b hb) (hl a ha) hba hab]
      exact iff_of_true rfl fun h => absurd (partOf_of_identical h) hab

end compatible

end chandef

def twoChannels : Bool → Channel
  | false => ⟨.band5GHz, 5180, 0⟩
  | true => ⟨.band60GHz, 58320, 0⟩

def segment (chan : Bool) (width : ChanWidth) (centerFreq1 : UInt32) (freq1Offset : UInt16)
    (edmg : Edmg) : ChanDef Bool :=
  { chan := some chan, npcaChan := none, width, centerFreq1, centerFreq2 := 0, edmg, freq1Offset,
    punctured := 0, npcaPunctured := 0, s1gPrimary2mhz := false }

def nested36 : List (ChanDef Bool) :=
  [segment false .width80 5210 0 ⟨0, 0⟩, segment false .width20 5180 0 ⟨0, 0⟩,
    segment false .width160 5250 0 ⟨0, 0⟩, segment false .width40 5190 0 ⟨0, 0⟩]

theorem chandef_merge_order_iff_nested :
    mergeChandefs twoChannels nested36 = some (segment false .width160 5250 0 ⟨0, 0⟩) ∧
      ∀ l', l'.Perm nested36 →
        mergeChandefs twoChannels l' = mergeChandefs twoChannels nested36 := by
  refine ⟨by decide +kernel, ?_⟩
  have hvalid : ∀ c ∈ nested36, chandefValid twoChannels c = true ∧ c.npcaChan = none := by
    decide +kernel
  have hagree : Agreeing twoChannels nested36 := by
    unfold Agreeing
    decide +kernel
  exact (chandef_merge_order_iff nested36
    fun c hc => ⟨(hvalid c hc).1, (hvalid c hc).2⟩).2.2.mpr hagree

/-- Two 80 MHz channels that differ in the kHz of their center frequency are compatible with a 160
MHz channel, not with each other; and the merge of two chandefs that differ in EDMG depends on the
order. -/
theorem chandef_merge_order_matters :
    let a := segment false .width80 5210 0 ⟨0, 0⟩
    let b := segment false .width80 5210 500 ⟨0, 0⟩
    let c := segment false .width160 5250 0 ⟨0, 0⟩
    let d := segment true .width20NoHt 58320 0 ⟨1, 4⟩
    let e := segment true .width20NoHt 58320 0 ⟨0, 0⟩
    (∀ x ∈ [a, b, c, d, e], chandefValid twoChannels x = true ∧ x.npcaChan = none) ∧
      [a, c, b].Perm [a, b, c] ∧
      mergeChandefs twoChannels [a, c, b] = some c ∧ mergeChandefs twoChannels [a, b, c] = none ∧
      chandefCompatible twoChannels d e = some e ∧ chandefCompatible twoChannels e d = some d ∧
      d ≠ e := by
  decide +kernel

end Iwlwifi.Cfg80211
