import Iwlwifi.RegIntersect
import Iwlwifi.Chandef

/-! # Regulatory rules of a channel

A model of `handle_channel` (`net/wireless/reg.c`), which sets the flags and limits of a channel
from the rules of a regulatory domain.

* **Lookup** (`freqRegInfo`).  The first rule of the domain that contains the channel.  Below 1 GHz
  the search is repeated with narrower widths.
* **Flags** (`mapRegdomFlags`).  Rules and channels number their flags differently.
* **One rule** (`handleChannelSingleRule`) and **two adjacent rules**
  (`handleChannelAdjacentRules`), which the code merges field by field.  Each of them has a branch
  for drivers with a strict domain.

`handle_channel_restrictive` says when the channel is not more permissive than the rules.  Merging
is where this goes wrong: `NL80211_RRF_PSD` is cleared in the flags of the channel, where
this bit is `IEEE80211_CHAN_NO_EHT`; `psd` is not merged for other drivers; and permissions are
added up. -/

namespace Iwlwifi.Cfg80211

open List

/-! ### Channels -/

/-- `enum ieee80211_channel_flags`, as far as rules set them. -/
inductive ChanFlag
  | disabled
  | noIr
  | psd
  | radar
  | noHt40plus
  | noHt40minus
  | noOfdm
  | no80mhz
  | no160mhz
  | indoorOnly
  | irConcurrent
  | no20mhz
  | no10mhz
  | noHe
  | noUhr
  | no320mhz
  | noEht
  | dfsConcurrent
  | no6ghzVlpClient
  | no6ghzAfcClient
  | allow6ghzVlpAp
  | allow20mhzActivity
  | no4mhz
  | no8mhz
  | no16mhz
deriving DecidableEq, Repr

def ChanFlag.bit : ChanFlag → ℕ
  | disabled => 0
  | noIr => 1
  | psd => 2
  | radar => 3
  | noHt40plus => 4
  | noHt40minus => 5
  | noOfdm => 6
  | no80mhz => 7
  | no160mhz => 8
  | indoorOnly => 9
  | irConcurrent => 10
  | no20mhz => 11
  | no10mhz => 12
  | noHe => 13
  | noUhr => 18
  | no320mhz => 19
  | noEht => 20
  | dfsConcurrent => 21
  | no6ghzVlpClient => 22
  | no6ghzAfcClient => 23
  | allow6ghzVlpAp => 25
  | allow20mhzActivity => 26
  | no4mhz => 28
  | no8mhz => 29
  | no16mhz => 30

def ChanFlag.mask (g : ChanFlag) : BitVec 32 := BitVec.twoPow 32 g.bit

/-- `flags & flag`, for the flags of a channel. -/
def hasChan (flags : BitVec 32) (g : ChanFlag) : Bool := flags.getLsbD g.bit

/-- `enum nl80211_dfs_state`. -/
inductive DfsState
  | usable
  | unavailable
  | available
deriving DecidableEq, Repr

/-- `struct ieee80211_channel`. -/
structure RegChannel extends Channel where
  flags : BitVec 32
  maxAntennaGain : ℤ
  maxPower : ℤ
  maxRegPower : ℤ
  beaconFound : Bool
  origFlags : BitVec 32
  origMag : ℤ
  origMpwr : ℤ
  dfsState : DfsState
  dfsStateEntered : ℕ
  dfsCacMs : ℕ
  psd : ℤ

/-- `ieee80211_channel_to_khz`. -/
def RegChannel.khz (chan : RegChannel) : ℕ := chan.toChannel.toKhz.toNat

/-! ### Requests -/

/-- `enum nl80211_reg_initiator`. -/
inductive Initiator
  | core
  | user
  | driver
  | countryIe
deriving DecidableEq, Repr

/-- `struct wiphy`: its number, the regulatory flags that are read and its own domain. -/
structure Wiphy where
  idx : ℤ
  strictReg : Bool
  countryIeFollowPower : Bool
  regd : Option Regdomain

/-- `struct regulatory_request`. -/
structure RegRequest where
  wiphyIdx : ℤ
  initiator : Initiator

/-- What the regulatory code knows: the central domain, the last request and the devices. -/
structure RegCore where
  cfg80211Regdomain : Option Regdomain
  lastRequest : RegRequest
  rdevs : List Wiphy

variable (core : RegCore) (wiphy : Wiphy)

/-- `wiphy_idx_to_wiphy`. -/
def wiphyIdxToWiphy (wiphyIdx : ℤ) : Option Wiphy := core.rdevs.find? fun w => w.idx = wiphyIdx

/-- `reg_get_regdomain`. -/
def regGetRegdomain : Option Regdomain :=
  if core.lastRequest.initiator ≠ .countryIe ∧ core.lastRequest.initiator ≠ .user ∧
      wiphy.regd.isSome then wiphy.regd
  else core.cfg80211Regdomain

/-- The last request came from the driver of this device, whose domain is strict. -/
def strictRequest : Bool :=
  core.lastRequest.initiator = .driver &&
    match wiphyIdxToWiphy core core.lastRequest.wiphyIdx with
    | none => false
    | some requestWiphy => requestWiphy.idx = wiphy.idx && requestWiphy.strictReg

/-! ### Lookup -/

/-- `cfg80211_does_bw_fit_range`. -/
def doesBwFitRange (freqRange : FreqRange) (centerFreq bw : ℕ) : Bool :=
  decide (freqRange.startFreq ≤ subU32 centerFreq (bw / 2)) &&
    decide ((centerFreq + bw / 2) % 2 ^ 32 ≤ freqRange.endFreq)

/-- `abs` of the difference of two `u32`, as an `int`. -/
def absDiff (a b : ℕ) : ℕ := min (subU32 a b) (2 ^ 32 - subU32 a b)

/-- `freq_in_rule_band`. -/
def freqInRuleBand (freqRange : FreqRange) (freq : ℕ) : Bool :=
  let limit := if 45000000 < freq then 20000000 else 2000000
  decide (absDiff freq freqRange.startFreq ≤ limit) ||
    decide (absDiff freq freqRange.endFreq ≤ limit)

inductive RegErr
  | einval
  | erange
deriving DecidableEq, Repr

/-- The loop of `freq_reg_info_regd`.  Rules come with their numbers. -/
def searchRules (centerFreq bw : ℕ) : Bool → List (RegRule × ℕ) → Except RegErr (RegRule × ℕ)
  | bandRuleFound, [] => .error (if bandRuleFound then .einval else .erange)
  | bandRuleFound, rr :: rest =>
    let bandRuleFound := bandRuleFound || freqInRuleBand rr.1.freqRange centerFreq
    if bandRuleFound && doesBwFitRange rr.1.freqRange centerFreq bw then .ok rr
    else searchRules centerFreq bw bandRuleFound rest

/-- `freq_reg_info_regd`. -/
def freqRegInfoRegd (centerFreq : ℕ) (regd : Option Regdomain) (bw : ℕ) :
    Except RegErr (RegRule × ℕ) :=
  match regd with
  | none => .error .einval
  | some rd => searchRules centerFreq bw false rd.regRules.zipIdx

/-- The loop of `__freq_reg_info` over the widths. -/
def searchWidths (regd : Option Regdomain) (centerFreq minBw : ℕ) :
    Except RegErr (RegRule × ℕ) → List ℕ → Except RegErr (RegRule × ℕ)
  | regRule, [] => regRule
  | regRule, bw :: rest =>
    if bw < minBw then regRule
    else
      match freqRegInfoRegd centerFreq regd bw with
      | .ok rr => .ok rr
      | .error e => searchWidths regd centerFreq minBw (.error e) rest

/-- The values of `bw` in `__freq_reg_info`, in kHz; the largest width comes twice. -/
def searchedWidths : List ℕ := [20000, 20000, 16000, 10000, 8000, 5000, 4000, 2000, 1000, 0]

/-- `freq_reg_info`. -/
def freqRegInfo (centerFreq : ℕ) : Except RegErr (RegRule × ℕ) :=
  let minBw := if centerFreq < 1000000 then 1000 else 20000
  searchWidths (regGetRegdomain core wiphy) centerFreq minBw (.error .erange) searchedWidths

/-! ### Flags -/

/-- The flags that `map_regdom_flags` maps, in its order.  `NL80211_RRF_NO_IR_ALL` stands for the
first two. -/
def regdomFlagMap : List (Rrf × ChanFlag) :=
  [(.noIr, .noIr), (.noIbss, .noIr), (.dfs, .radar), (.noOfdm, .noOfdm), (.noOutdoor, .indoorOnly),
    (.irConcurrent, .irConcurrent), (.noHt40minus, .noHt40minus), (.noHt40plus, .noHt40plus),
    (.no80mhz, .no80mhz), (.no160mhz, .no160mhz), (.noHe, .noHe), (.no320mhz, .no320mhz),
    (.noEht, .noEht), (.dfsConcurrent, .dfsConcurrent), (.no6ghzVlpClient, .no6ghzVlpClient),
    (.no6ghzAfcClient, .no6ghzAfcClient), (.psd, .psd), (.allow6ghzVlpAp, .allow6ghzVlpAp),
    (.allow20mhzActivity, .allow20mhzActivity), (.noUhr, .noUhr)]

/-- `map_regdom_flags`, over a table. -/
def mapFlags (rdFlags : BitVec 32) : List (Rrf × ChanFlag) → BitVec 32 → BitVec 32
  | [], channelFlags => channelFlags
  | (f, g) :: rest, channelFlags =>
    mapFlags rdFlags rest
      (if rdFlags &&& f.mask ≠ 0 then channelFlags ||| g.mask else channelFlags)

/-- `map_regdom_flags`. -/
def mapRegdomFlags (rdFlags : BitVec 32) : BitVec 32 := mapFlags rdFlags regdomFlagMap 0

/-- `flags |= flag` under a condition. -/
def orIf (c : Bool) (g : ChanFlag) (flags : BitVec 32) : BitVec 32 :=
  if c then flags ||| g.mask else flags

/-- `reg_rule_to_chan_bw_flags`, of the rule with number `idx`. -/
def regRuleToChanBwFlags (rd : Regdomain) (regRule : RegRule) (idx : ℕ) (chan : RegChannel) :
    BitVec 32 :=
  let maxBandwidth := allowedBandwidth rd regRule idx
  if chan.band = .bandS1GHz then
    let bwFlags := orIf (decide (maxBandwidth < 16000)) .no16mhz 0
    let bwFlags := orIf (decide (maxBandwidth < 8000)) .no8mhz bwFlags
    orIf (decide (maxBandwidth < 4000)) .no4mhz bwFlags
  else
    let bwFlags := orIf (!doesBwFitRange regRule.freqRange chan.khz 10000) .no10mhz 0
    let bwFlags := orIf (!doesBwFitRange regRule.freqRange chan.khz 20000) .no20mhz bwFlags
    let bwFlags := orIf (decide (maxBandwidth < 10000)) .no10mhz bwFlags
    let bwFlags := orIf (decide (maxBandwidth < 20000)) .no20mhz bwFlags
    let bwFlags := orIf (decide (maxBandwidth < 40000)) .noHt40plus bwFlags
    let bwFlags := orIf (decide (maxBandwidth < 40000)) .noHt40minus bwFlags
    let bwFlags := orIf (decide (maxBandwidth < 80000)) .no80mhz bwFlags
    let bwFlags := orIf (decide (maxBandwidth < 160000)) .no160mhz bwFlags
    orIf (decide (maxBandwidth < 320000)) .no320mhz bwFlags

/-- `reg_rule_to_chan_bw_flags` for the domain of the device, from which the rule is. -/
def ruleBwFlags (rr : RegRule × ℕ) (chan : RegChannel) : BitVec 32 :=
  match regGetRegdomain core wiphy with
  | none => 0
  | some rd => regRuleToChanBwFlags rd rr.1 rr.2 chan

/-! ### Channels and rules -/

/-- `IEEE80211_DFS_MIN_CAC_TIME_MS`. -/
def dfsMinCacTimeMs : ℕ := 60000

/-- `MBI_TO_DBI` of the gain of a rule.  The gain is a `u32`, so a hundredth of it is an `int`. -/
def RegRule.gainDbi (r : RegRule) : ℤ := (r.powerRule.maxAntennaGain / 100 : ℕ)

/-- `MBM_TO_DBM` of the power of a rule. -/
def RegRule.eirpDbm (r : RegRule) : ℤ := (r.powerRule.maxEirp / 100 : ℕ)

/-- `max_power` of a channel whose regulatory power has been set. -/
def followPower (initiator : Initiator) (chan : RegChannel) (maxRegPower : ℤ) : ℤ :=
  if chan.origMpwr ≠ 0 then
    if initiator = .countryIe ∧ wiphy.countryIeFollowPower then maxRegPower
    else min chan.origMpwr maxRegPower
  else maxRegPower

/-- `handle_channel_single_rule`.  `now` is `jiffies`. -/
def handleChannelSingleRule (initiator : Initiator) (chan : RegChannel) (flags : BitVec 32)
    (rr : RegRule × ℕ) (now : ℕ) : RegChannel :=
  let regRule := rr.1
  let bwFlags := ruleBwFlags core wiphy rr chan
  let cac := if regRule.dfsCacMs ≠ 0 then regRule.dfsCacMs else dfsMinCacTimeMs
  if strictRequest core wiphy then
    let flags := mapRegdomFlags regRule.flags ||| bwFlags
    { chan with
      flags := flags
      origFlags := flags
      maxAntennaGain := regRule.gainDbi
      origMag := regRule.gainDbi
      maxRegPower := regRule.eirpDbm
      maxPower := regRule.eirpDbm
      origMpwr := regRule.eirpDbm
      dfsCacMs := if hasChan flags .radar then cac else chan.dfsCacMs
      psd := if hasChan flags .psd then regRule.psd else chan.psd }
  else
    let flags := flags ||| bwFlags ||| mapRegdomFlags regRule.flags
    { chan with
      dfsState := .usable
      dfsStateEntered := now
      beaconFound := false
      flags := flags
      maxAntennaGain := min chan.origMag regRule.gainDbi
      maxRegPower := regRule.eirpDbm
      dfsCacMs := if hasChan flags .radar then cac else chan.dfsCacMs
      psd := if hasChan flags .psd then regRule.psd else chan.psd
      maxPower := followPower wiphy initiator chan regRule.eirpDbm }

/-- `flags &= ~flag` under a condition. -/
def clearChanIf (c : Bool) (mask flags : BitVec 32) : BitVec 32 :=
  if c then flags &&& ~~~mask else flags

/-- `handle_channel_adjacent_rules`.  The branch for strict domains clears the flag of rules in the
flags of the channel; the other branch does not write `psd`. -/
def handleChannelAdjacentRules (initiator : Initiator) (chan : RegChannel) (flags : BitVec 32)
    (rr₁ rr₂ : RegRule × ℕ) (combRange : FreqRange) (now : ℕ) : RegChannel :=
  let rrule₁ := rr₁.1
  let rrule₂ := rr₂.1
  let bwFlags₁ := ruleBwFlags core wiphy rr₁ chan
  let bwFlags₂ := ruleBwFlags core wiphy rr₂ chan
  let gain := min rrule₁.gainDbi rrule₂.gainDbi
  let eirp := min rrule₁.eirpDbm rrule₂.eirpDbm
  let cac :=
    if rrule₁.dfsCacMs ≠ 0 ∨ rrule₂.dfsCacMs ≠ 0 then max rrule₁.dfsCacMs rrule₂.dfsCacMs
    else dfsMinCacTimeMs
  if strictRequest core wiphy then
    let flags := mapRegdomFlags rrule₁.flags ||| mapRegdomFlags rrule₂.flags ||| bwFlags₁ |||
      bwFlags₂
    let bothPsd := rrule₁.has .psd && rrule₂.has .psd
    { chan with
      flags := clearChanIf (!bothPsd) Rrf.psd.mask flags
      origFlags := flags
      maxAntennaGain := gain
      origMag := gain
      maxRegPower := eirp
      maxPower := eirp
      origMpwr := eirp
      dfsCacMs := if hasChan flags .radar then cac else chan.dfsCacMs
      psd := if bothPsd then min rrule₁.psd rrule₂.psd else chan.psd }
  else
    let flags := flags ||| bwFlags₁ ||| bwFlags₂ ||| mapRegdomFlags rrule₁.flags |||
      mapRegdomFlags rrule₂.flags
    let flags := clearChanIf (doesBwFitRange combRange chan.khz 10000) ChanFlag.no10mhz.mask flags
    let flags := clearChanIf (doesBwFitRange combRange chan.khz 20000) ChanFlag.no20mhz.mask flags
    { chan with
      dfsState := .usable
      dfsStateEntered := now
      beaconFound := false
      flags := flags
      maxAntennaGain := min chan.origMag gain
      maxRegPower := eirp
      dfsCacMs := if hasChan flags .radar then cac else chan.dfsCacMs
      maxPower := followPower wiphy initiator chan eirp }

/-- The range of two adjacent rules in `handle_channel`. -/
def combRange (r₁ r₂ : FreqRange) : FreqRange :=
  ⟨r₁.startFreq, r₂.endFreq, min r₁.maxBandwidth r₂.maxBandwidth⟩

/-- The end of `handle_channel` for channels without a rule; `err` is what the lookup returned. -/
def disableChan (initiator : Initiator) (chan : RegChannel) (err : RegErr) : RegChannel :=
  if initiator = .countryIe ∧ err = .erange then chan
  else if strictRequest core wiphy then
    let origFlags := chan.origFlags ||| ChanFlag.disabled.mask
    { chan with origFlags := origFlags, flags := origFlags }
  else { chan with flags := chan.flags ||| ChanFlag.disabled.mask }

/-- The part of `handle_channel` for a channel without a rule, with the rules 20 MHz below and above
it. -/
def handleChannelNoRule (initiator : Initiator) (chan : RegChannel) (err : RegErr) (now : ℕ)
    (rrule₁ rrule₂ : Except RegErr (RegRule × ℕ)) : RegChannel :=
  match rrule₁, rrule₂ with
  | .ok rr₁, .ok rr₂ =>
    let range := combRange rr₁.1.freqRange rr₂.1.freqRange
    if rr₁.1.freqRange.endFreq ≠ rr₂.1.freqRange.startFreq then
      disableChan core wiphy initiator chan err
    else if !doesBwFitRange range chan.khz 20000 then disableChan core wiphy initiator chan err
    else handleChannelAdjacentRules core wiphy initiator chan chan.origFlags rr₁ rr₂ range now
  | _, _ => disableChan core wiphy initiator chan err

/-- `handle_channel`. -/
def handleChannel (initiator : Initiator) (chan : RegChannel) (now : ℕ) : RegChannel :=
  match freqRegInfo core wiphy chan.khz with
  | .ok rr => handleChannelSingleRule core wiphy initiator chan chan.origFlags rr now
  | .error err =>
    handleChannelNoRule core wiphy initiator chan err now
      (freqRegInfo core wiphy (subU32 chan.khz 20000))
      (freqRegInfo core wiphy ((chan.khz + 20000) % 2 ^ 32))

/-! ### What a channel may do -/

def restrictionFlags : List (Rrf × ChanFlag) :=
  [(.noIr, .noIr), (.noIbss, .noIr), (.dfs, .radar), (.noOfdm, .noOfdm), (.noOutdoor, .indoorOnly),
    (.noHt40plus, .noHt40plus), (.noHt40minus, .noHt40minus), (.no80mhz, .no80mhz),
    (.no160mhz, .no160mhz), (.no320mhz, .no320mhz), (.noHe, .noHe), (.noEht, .noEht),
    (.noUhr, .noUhr), (.no6ghzVlpClient, .no6ghzVlpClient), (.no6ghzAfcClient, .no6ghzAfcClient)]

def permissionFlags : List (Rrf × ChanFlag) :=
  [(.irConcurrent, .irConcurrent), (.dfsConcurrent, .dfsConcurrent),
    (.allow6ghzVlpAp, .allow6ghzVlpAp), (.allow20mhzActivity, .allow20mhzActivity)]

/-- **A channel is not more permissive than the rules that cover it.**  Limits of rules are in
hundredths. -/
structure NotMorePermissive (chan : RegChannel) (rs : List RegRule) : Prop where
  restrictions : ∀ p ∈ restrictionFlags, ∀ r ∈ rs, r.has p.1 = true → hasChan chan.flags p.2 = true
  permissions : ∀ p ∈ permissionFlags, hasChan chan.flags p.2 = true → ∀ r ∈ rs, r.has p.1 = true
  power : ∀ r ∈ rs, 100 * chan.maxRegPower ≤ r.powerRule.maxEirp
  gain : ∀ r ∈ rs, 100 * chan.maxAntennaGain ≤ r.powerRule.maxAntennaGain
  cac : hasChan chan.flags .radar = true → ∀ r ∈ rs, r.dfsCacMs ≤ chan.dfsCacMs
  psd : hasChan chan.flags .psd = true → ∀ r ∈ rs, r.has .psd = true → chan.psd ≤ r.psd

/-- All rules grant the permissions that one of them grants and, unless the domain is strict, those
of the channel when it was registered. -/
def SamePermissions (strict : Bool) (chan : RegChannel) (rs : List RegRule) : Prop :=
  ∀ p ∈ permissionFlags,
    (strict = false ∧ hasChan chan.origFlags p.2 = true ∨ ∃ r ∈ rs, r.has p.1 = true) →
      ∀ r ∈ rs, r.has p.1 = true

/-- Rules whose PSD can be merged: all have one, which only the branch for strict domains merges, or
the PSD that the channel already has is low enough and, in that branch, `NO_EHT` is not lost. -/
def PsdMergeable (strict : Bool) (chan : RegChannel) (rs : List RegRule) : Prop :=
  strict = true ∧ (∀ r ∈ rs, r.has .psd = true) ∨
    (strict = true → ∀ r ∈ rs, r.has .noEht = false) ∧
      ∀ r ∈ rs, r.has .psd = true → chan.psd ≤ r.psd

/-! ### Flags of channels -/

theorem ChanFlag.bit_lt (g : ChanFlag) : g.bit < 32 := by
  cases g <;> decide

theorem ChanFlag.bit_injective {g g' : ChanFlag} (h : g.bit = g'.bit) : g = g' := by
  cases g <;> cases g' <;> first | rfl | cases h

@[simp] theorem hasChan_or (flags flags' : BitVec 32) (g : ChanFlag) :
    hasChan (flags ||| flags') g = (hasChan flags g || hasChan flags' g) :=
  BitVec.getLsbD_or

@[simp] theorem hasChan_zero (g : ChanFlag) : hasChan 0#32 g = false :=
  BitVec.getLsbD_zero

@[simp] theorem hasChan_mask (g g' : ChanFlag) : hasChan g.mask g' = decide (g = g') := by
  have hlt := g'.bit_lt
  rw [hasChan, ChanFlag.mask, BitVec.getLsbD_twoPow]
  by_cases h : g = g'
  · subst h
    simp [hlt]
  · have hbit : g.bit ≠ g'.bit := fun heq => h (ChanFlag.bit_injective heq)
    simp [h, hbit]

@[simp] theorem hasChan_orIf (c : Bool) (g g' : ChanFlag) (flags : BitVec 32) :
    hasChan (orIf c g flags) g' = (hasChan flags g' || (c && decide (g = g'))) := by
  unfold orIf
  cases c
  · simp
  · simp

theorem hasChan_clearChanIf (c : Bool) (i : ℕ) (flags : BitVec 32) (g : ChanFlag) :
    hasChan (clearChanIf c (BitVec.twoPow 32 i) flags) g =
      (hasChan flags g && !(c && decide (g.bit = i))) := by
  have hlt := g.bit_lt
  unfold clearChanIf hasChan
  cases c
  · simp
  · by_cases heq : g.bit = i
    · simp [heq]
    · simp [hlt, heq]

theorem hasChan_mapFlags (rdFlags : BitVec 32) (g : ChanFlag) :
    ∀ (table : List (Rrf × ChanFlag)) (flags : BitVec 32),
      hasChan (mapFlags rdFlags table flags) g = true ↔
        hasChan flags g = true ∨ ∃ p ∈ table, p.2 = g ∧ rdFlags &&& p.1.mask ≠ 0 := by
  intro table
  induction table with
  | nil => simp [mapFlags]
  | cons p table ih =>
    obtain ⟨f, g'⟩ := p
    intro flags
    rw [mapFlags, ih]
    by_cases hf : rdFlags &&& f.mask = 0
    · simp [hf]
    · simp only [ne_eq, hf, not_false_eq_true, if_true, hasChan_or, hasChan_mask,
        Bool.or_eq_true, decide_eq_true_eq, exists_mem_cons_iff, and_true, or_assoc]

theorem hasChan_mapRegdomFlags (r : RegRule) (g : ChanFlag) :
    hasChan (mapRegdomFlags r.flags) g = true ↔
      ∃ p ∈ regdomFlagMap, p.2 = g ∧ r.has p.1 = true := by
  rw [mapRegdomFlags, hasChan_mapFlags]
  simp [RegRule.has]

theorem hasChan_restriction {p : Rrf × ChanFlag} (hp : p ∈ restrictionFlags) {r : RegRule}
    (hr : r.has p.1 = true) : hasChan (mapRegdomFlags r.flags) p.2 = true := by
  have hsub : ∀ p ∈ restrictionFlags, p ∈ regdomFlagMap := by decide
  exact (hasChan_mapRegdomFlags r p.2).mpr ⟨p, hsub p hp, rfl, hr⟩

theorem hasChan_single {p : Rrf × ChanFlag} (hp : p ∈ (.psd, .psd) :: permissionFlags)
    (r : RegRule) : hasChan (mapRegdomFlags r.flags) p.2 = r.has p.1 := by
  have hone : ∀ p ∈ (.psd, .psd) :: permissionFlags, p ∈ regdomFlagMap ∧
      ∀ q ∈ regdomFlagMap, q.2 = p.2 → q.1 = p.1 := by decide
  obtain ⟨hmem, huniq⟩ := hone p hp
  rw [Bool.eq_iff_iff, hasChan_mapRegdomFlags]
  constructor
  · rintro ⟨q, hq, heq, hr⟩
    rwa [← huniq q hq heq]
  · intro hr
    exact ⟨p, hmem, rfl, hr⟩

theorem hasChan_psd (r : RegRule) : hasChan (mapRegdomFlags r.flags) .psd = r.has .psd :=
  hasChan_single (p := (.psd, .psd)) (by decide) r

theorem hasChan_noEht {r : RegRule} (hr : r.has .noEht = true) :
    hasChan (mapRegdomFlags r.flags) .noEht = true :=
  hasChan_restriction (p := (.noEht, .noEht)) (by decide) hr

theorem hasChan_ruleBwFlags {core : RegCore} {wiphy : Wiphy} {p : Rrf × ChanFlag}
    (hp : p ∈ permissionFlags) (rr : RegRule × ℕ) (chan : RegChannel) :
    hasChan (ruleBwFlags core wiphy rr chan) p.2 = false := by
  have hne : ∀ p ∈ permissionFlags, ∀ g ∈ [ChanFlag.no16mhz, .no8mhz, .no4mhz, .no10mhz, .no20mhz,
      .noHt40plus, .noHt40minus, .no80mhz, .no160mhz, .no320mhz], g ≠ p.2 := by decide
  have hg := hne p hp
  simp only [forall_mem_cons, not_mem_nil, false_imp_iff, implies_true, and_true] at hg
  obtain ⟨h₁, h₂, h₃, h₄, h₅, h₆, h₇, h₈, h₉, h₁₀⟩ := hg
  unfold ruleBwFlags
  split
  · exact hasChan_zero _
  unfold regRuleToChanBwFlags
  split
  · simp [h₁, h₂, h₃]
  · simp [h₄, h₅, h₆, h₇, h₈, h₉, h₁₀]

/-! ### One rule and two rules -/

section rules
variable {core : RegCore} {wiphy : Wiphy} {initiator : Initiator} {chan chan' : RegChannel}
  {rs : List RegRule} {rr rr₁ rr₂ : RegRule × ℕ} {now : ℕ}

/-- What the branches have in common: everything but `NO_EHT` and the PSD. -/
structure Merged (strict : Bool) (chan : RegChannel) (rs : List RegRule) (chan' : RegChannel) :
    Prop where
  restrictions : ∀ p ∈ restrictionFlags, p.2 ≠ .noEht → ∀ r ∈ rs, r.has p.1 = true →
    hasChan chan'.flags p.2 = true
  permissions : ∀ p ∈ permissionFlags, hasChan chan'.flags p.2 = true ↔
    strict = false ∧ hasChan chan.origFlags p.2 = true ∨ ∃ r ∈ rs, r.has p.1 = true
  power : ∀ r ∈ rs, chan'.maxRegPower ≤ r.eirpDbm
  gain : ∀ r ∈ rs, chan'.maxAntennaGain ≤ r.gainDbi
  cac : hasChan chan'.flags .radar = true → ∀ r ∈ rs, r.dfsCacMs ≤ chan'.dfsCacMs

theorem Merged.notMorePermissive_iff {strict : Bool} (h : Merged strict chan rs chan') :
    NotMorePermissive chan' rs ↔ SamePermissions strict chan rs ∧
      (∀ r ∈ rs, r.has .noEht = true → hasChan chan'.flags .noEht = true) ∧
      (hasChan chan'.flags .psd = true → ∀ r ∈ rs, r.has .psd = true → chan'.psd ≤ r.psd) := by
  have heht : ((.noEht, .noEht) : Rrf × ChanFlag) ∈ restrictionFlags := by decide
  have huniq : ∀ p ∈ restrictionFlags, p.2 = .noEht → p.1 = .noEht := by decide
  constructor
  · intro hn
    exact ⟨fun p hp hany => hn.permissions p hp ((h.permissions p hp).mpr hany),
      hn.restrictions _ heht, hn.psd⟩
  rintro ⟨hperm, hno, hpsd⟩
  refine ⟨?_, fun p hp hc => hperm p hp ((h.permissions p hp).mp hc), ?_, ?_, h.cac, hpsd⟩
  · intro p hp r hr hrp
    by_cases hpe : p.2 = .noEht
    · rw [hpe]
      rw [huniq p hp hpe] at hrp
      exact hno r hr hrp
    · exact h.restrictions p hp hpe r hr hrp
  · intro r hr
    have := h.power r hr
    unfold RegRule.eirpDbm at this
    omega
  · intro r hr
    have := h.gain r hr
    unfold RegRule.gainDbi at this
    omega

theorem merged_single : Merged (strictRequest core wiphy) chan [rr.1]
    (handleChannelSingleRule core wiphy initiator chan chan.origFlags rr now) := by
  have hcac : rr.1.dfsCacMs ≤ if rr.1.dfsCacMs ≠ 0 then rr.1.dfsCacMs else dfsMinCacTimeMs := by
    split
    · exact le_rfl
    · omega
  unfold handleChannelSingleRule
  cases hstrict : strictRequest core wiphy
  all_goals
    refine ⟨?_, ?_, by simp, by simp, ?_⟩
    · intro p hp _ r hr hrp
      obtain rfl := mem_singleton.mp hr
      simp [hasChan_restriction hp hrp]
    · intro p hp
      simp [hasChan_single (.tail _ hp), hasChan_ruleBwFlags hp]
    · intro hradar r hr
      obtain rfl := mem_singleton.mp hr
      exact hcac.trans_eq (if_pos hradar).symm

/-- **One rule**: only the permissions that the channel had before can be more than the rule's. -/
theorem single_iff : NotMorePermissive
    (handleChannelSingleRule core wiphy initiator chan chan.origFlags rr now) [rr.1] ↔
      SamePermissions (strictRequest core wiphy) chan [rr.1] := by
  rw [merged_single.notMorePermissive_iff]
  refine and_iff_left ⟨?_, ?_⟩
  · intro r hr hno
    obtain rfl := mem_singleton.mp hr
    unfold handleChannelSingleRule
    split <;> simp [hasChan_noEht hno]
  · intro hpsd r hr _
    obtain rfl := mem_singleton.mp hr
    unfold handleChannelSingleRule at hpsd ⊢
    cases hstrict : strictRequest core wiphy
    all_goals
      simp only [hstrict] at hpsd ⊢
      exact (if_pos hpsd).le

theorem bit_noEht : ChanFlag.noEht.bit = Rrf.psd.bit := rfl

theorem merged_adjacent (range : FreqRange) : Merged (strictRequest core wiphy) chan [rr₁.1, rr₂.1]
    (handleChannelAdjacentRules core wiphy initiator chan chan.origFlags rr₁ rr₂ range now) := by
  have hcac : ∀ r ∈ [rr₁.1, rr₂.1], r.dfsCacMs ≤
      if rr₁.1.dfsCacMs ≠ 0 ∨ rr₂.1.dfsCacMs ≠ 0 then max rr₁.1.dfsCacMs rr₂.1.dfsCacMs
      else dfsMinCacTimeMs := by
    intro r hr
    split
    · obtain rfl | rfl := mem_pair.mp hr
      · exact le_max_left ..
      · exact le_max_right ..
    next hzero =>
      push Not at hzero
      obtain rfl | rfl := mem_pair.mp hr
      · omega
      · omega
  have hbit : ∀ p ∈ permissionFlags, p.2.bit ≠ Rrf.psd.bit ∧ p.2.bit ≠ ChanFlag.no10mhz.bit ∧
      p.2.bit ≠ ChanFlag.no20mhz.bit := by decide
  have hbit' : ∀ p ∈ restrictionFlags, (p.2 ≠ .noEht → p.2.bit ≠ Rrf.psd.bit) ∧
      p.2.bit ≠ ChanFlag.no10mhz.bit ∧ p.2.bit ≠ ChanFlag.no20mhz.bit := by decide
  unfold handleChannelAdjacentRules
  cases hstrict : strictRequest core wiphy with
  | true =>
    rw [if_pos rfl]
    refine ⟨?_, ?_, by simp, by simp, ?_⟩
    · intro p hp hne r hr hrp
      obtain rfl | rfl := mem_pair.mp hr
      all_goals simp [Rrf.mask, hasChan_clearChanIf, hasChan_restriction hp hrp, (hbit' p hp).1 hne]
    · intro p hp
      simp [Rrf.mask, hasChan_clearChanIf, hasChan_single (.tail _ hp),
        hasChan_ruleBwFlags hp, (hbit p hp).1]
    intro hradar r hr
    dsimp only at hradar ⊢
    rw [Rrf.mask, hasChan_clearChanIf, Bool.and_eq_true] at hradar
    rw [if_pos hradar.1]
    exact hcac r hr
  | false =>
    rw [if_neg (by decide)]
    refine ⟨?_, ?_, by simp, by simp, ?_⟩
    · intro p hp hne r hr hrp
      obtain rfl | rfl := mem_pair.mp hr
      all_goals
        simp [ChanFlag.mask, hasChan_clearChanIf, hasChan_restriction hp hrp, (hbit' p hp).2]
    · intro p hp
      simp [ChanFlag.mask, hasChan_clearChanIf, hasChan_single (.tail _ hp),
        hasChan_ruleBwFlags hp, (hbit p hp).2, or_assoc]
    · intro hradar r hr
      exact (hcac r hr).trans_eq (if_pos hradar).symm

section adjacent
variable {range : FreqRange}
  (hchan : handleChannelAdjacentRules core wiphy initiator chan chan.origFlags rr₁ rr₂ range now =
    chan')
include hchan

theorem adjacent_strict {bothPsd : Bool} (hstrict : strictRequest core wiphy = true)
    (hboth : (rr₁.1.has .psd && rr₂.1.has .psd) = bothPsd) :
    (∀ r ∈ [rr₁.1, rr₂.1], r.has .psd = true → hasChan chan'.flags .psd = true) ∧
    chan'.psd = (if bothPsd then min rr₁.1.psd rr₂.1.psd else chan.psd) ∧
    (bothPsd = false → hasChan chan'.flags .noEht = false) ∧
    (bothPsd = true → ∀ r ∈ [rr₁.1, rr₂.1], r.has .noEht = true →
      hasChan chan'.flags .noEht = true) := by
  subst hchan
  unfold handleChannelAdjacentRules
  rw [if_pos hstrict, hboth]
  refine ⟨?_, rfl, ?_, ?_⟩
  · intro r hr hrp
    have hne : ChanFlag.psd.bit ≠ Rrf.psd.bit := by decide
    obtain rfl | rfl := mem_pair.mp hr
    all_goals simp [Rrf.mask, hasChan_clearChanIf, hasChan_psd, hrp, hne]
  · rintro rfl
    simp [Rrf.mask, hasChan_clearChanIf, bit_noEht]
  · rintro rfl r hr hrp
    obtain rfl | rfl := mem_pair.mp hr
    all_goals simp [Rrf.mask, hasChan_clearChanIf, hasChan_noEht hrp]

theorem adjacent_lenient (hstrict : strictRequest core wiphy = false) :
    (∀ r ∈ [rr₁.1, rr₂.1], r.has .psd = true → hasChan chan'.flags .psd = true) ∧
    chan'.psd = chan.psd ∧
    ∀ r ∈ [rr₁.1, rr₂.1], r.has .noEht = true → hasChan chan'.flags .noEht = true := by
  have hne : ∀ g ∈ [ChanFlag.psd, .noEht], g.bit ≠ ChanFlag.no10mhz.bit ∧
      g.bit ≠ ChanFlag.no20mhz.bit := by decide
  subst hchan
  unfold handleChannelAdjacentRules
  rw [if_neg (by simp [hstrict])]
  refine ⟨?_, rfl, ?_⟩
  · intro r hr hrp
    obtain rfl | rfl := mem_pair.mp hr
    all_goals simp [ChanFlag.mask, hasChan_clearChanIf, hasChan_psd, hrp, hne .psd (by decide)]
  intro r hr hrp
  obtain rfl | rfl := mem_pair.mp hr
  all_goals simp [ChanFlag.mask, hasChan_clearChanIf, hasChan_noEht hrp, hne .noEht (by decide)]

end adjacent

/-- **Two adjacent rules**: they grant the same permissions and their PSD can be merged. -/
theorem adjacent_iff (range : FreqRange) : NotMorePermissive
    (handleChannelAdjacentRules core wiphy initiator chan chan.origFlags rr₁ rr₂ range now)
      [rr₁.1, rr₂.1] ↔
    SamePermissions (strictRequest core wiphy) chan [rr₁.1, rr₂.1] ∧
      PsdMergeable (strictRequest core wiphy) chan [rr₁.1, rr₂.1] := by
  rw [(merged_adjacent range).notMorePermissive_iff]
  refine and_congr_right fun _ => ?_
  generalize hchan :
    handleChannelAdjacentRules core wiphy initiator chan chan.origFlags rr₁ rr₂ range now = chan'
  cases hstrict : strictRequest core wiphy with
  | true =>
    cases hboth : rr₁.1.has .psd && rr₂.1.has .psd with
    | true =>
      obtain ⟨-, hpsd, -, hkept⟩ := adjacent_strict hchan hstrict hboth
      obtain ⟨h₁, h₂⟩ := Bool.and_eq_true_iff.mp hboth
      refine iff_of_true ⟨hkept rfl, fun _ => ?_⟩ (.inl ⟨rfl, by simp [h₁, h₂]⟩)
      simp [hpsd]
    | false =>
      obtain ⟨hflag, hpsd, hlost, -⟩ := adjacent_strict hchan hstrict hboth
      have hnot : ¬∀ r ∈ [rr₁.1, rr₂.1], r.has .psd = true := by
        simpa using hboth
      rw [hlost rfl, hpsd]
      constructor
      · rintro ⟨hno, hle⟩
        refine .inr ⟨fun _ r hr => by simpa using hno r hr, ?_⟩
        exact fun r hr hrp => hle (hflag r hr hrp) r hr hrp
      · rintro (⟨-, hall⟩ | ⟨hno, hle⟩)
        · exact absurd hall hnot
        · exact ⟨fun r hr => by simp [hno rfl r hr], fun _ => hle⟩
  | false =>
    obtain ⟨hflag, hpsd, hkept⟩ := adjacent_lenient hchan hstrict
    rw [hpsd]
    constructor
    · rintro ⟨-, hle⟩
      exact .inr ⟨nofun, fun r hr hrp => hle (hflag r hr hrp) r hr hrp⟩
    · rintro (⟨hfalse, -⟩ | ⟨-, hle⟩)
      · cases hfalse
      · exact ⟨hkept, fun _ => hle⟩

end rules

/-! ### Rules that are found -/

section lookup
variable {core : RegCore} {wiphy : Wiphy} {regd : Option Regdomain} {centerFreq bw minBw : ℕ}
  {rr : RegRule × ℕ}

theorem searchRules_ok {l : List (RegRule × ℕ)} {found : Bool}
    (h : searchRules centerFreq bw found l = .ok rr) :
    rr ∈ l ∧ doesBwFitRange rr.1.freqRange centerFreq bw = true := by
  induction l generalizing found with
  | nil => cases h
  | cons r l ih =>
    rw [searchRules] at h
    split at h
    next hfit =>
      cases h
      exact ⟨.head _, (Bool.and_eq_true_iff.mp hfit).2⟩
    · obtain ⟨hmem, hfit⟩ := ih h
      exact ⟨.tail _ hmem, hfit⟩

theorem searchRules_erange {l : List (RegRule × ℕ)} {found : Bool}
    (h : searchRules centerFreq bw found l = .error .erange) :
    found = false ∧ ∀ r ∈ l, freqInRuleBand r.1.freqRange centerFreq = false := by
  induction l generalizing found with
  | nil =>
    cases found
    · simp
    · cases h
  | cons r l ih =>
    rw [searchRules] at h
    split at h
    · cases h
    · obtain ⟨hfound, hrest⟩ := ih h
      obtain ⟨hfalse, hr⟩ := Bool.or_eq_false_iff.mp hfound
      exact ⟨hfalse, forall_mem_cons.mpr ⟨hr, hrest⟩⟩

theorem searchWidths_ok {ws : List ℕ} {e : RegErr}
    (h : searchWidths regd centerFreq minBw (.error e) ws = .ok rr) :
    ∃ bw ∈ ws, minBw ≤ bw ∧ freqRegInfoRegd centerFreq regd bw = .ok rr := by
  induction ws generalizing e with
  | nil => cases h
  | cons w ws ih =>
    rw [searchWidths] at h
    split at h
    · cases h
    rename_i hle
    split at h
    next hok =>
      cases h
      exact ⟨w, .head _, not_lt.mp hle, hok⟩
    · obtain ⟨bw, hmem, hbw⟩ := ih h
      exact ⟨bw, .tail _ hmem, hbw⟩

theorem searchWidths_error {ws : List ℕ} {e e' : RegErr}
    (h : searchWidths regd centerFreq minBw (.error e) ws = .error e') :
    e' = e ∨ ∃ bw, freqRegInfoRegd centerFreq regd bw = .error e' := by
  induction ws generalizing e with
  | nil =>
    cases h
    exact .inl rfl
  | cons w ws ih =>
    rw [searchWidths] at h
    split at h
    · cases h
      exact .inl rfl
    split at h
    · cases h
    rename_i e₁ herr
    obtain rfl | hlater := ih h
    · exact .inr ⟨w, herr⟩
    · exact .inr hlater

theorem searchedWidths_le (h : bw ∈ searchedWidths) : bw ≤ 20000 := by
  have hmax : ∀ w ∈ searchedWidths, w ≤ 20000 := by decide
  exact hmax bw h

def domainRules (core : RegCore) (wiphy : Wiphy) : List RegRule :=
  match regGetRegdomain core wiphy with
  | none => []
  | some rd => rd.regRules

/-- **A rule that is found** is one of the domain, and contains the channel, or below 1 GHz a part
of it. -/
theorem freqRegInfo_ok (h : freqRegInfo core wiphy centerFreq = .ok rr) :
    rr.1 ∈ domainRules core wiphy ∧ ∃ bw ∈ searchedWidths, 1000 ≤ bw ∧
      (1000000 ≤ centerFreq → bw = 20000) ∧
      doesBwFitRange rr.1.freqRange centerFreq bw = true := by
  obtain ⟨bw, hmem, hmin, hok⟩ := searchWidths_ok h
  unfold freqRegInfoRegd at hok
  split at hok
  · cases hok
  rename_i rd hrd
  obtain ⟨hrr, hfit⟩ := searchRules_ok hok
  refine ⟨?_, bw, hmem, ?_, ?_, hfit⟩
  · rw [domainRules, hrd]
    exact fst_mem_of_mem_zipIdx hrr
  · split at hmin
    · exact hmin
    · omega
  · intro hlarge
    rw [if_neg (by omega)] at hmin
    exact Nat.le_antisymm (searchedWidths_le hmem) hmin

theorem freqRegInfo_erange (h : freqRegInfo core wiphy centerFreq = .error .erange) :
    ∀ r ∈ domainRules core wiphy, freqInRuleBand r.freqRange centerFreq = false := by
  -- the first width is always tried
  obtain ⟨bw, herr⟩ : ∃ bw, freqRegInfoRegd centerFreq (regGetRegdomain core wiphy) bw =
      .error .erange := by
    rw [freqRegInfo, searchedWidths, searchWidths, if_neg (by split <;> omega)] at h
    split at h
    · cases h
    rename_i e he
    obtain rfl | hlater := searchWidths_error h
    · exact ⟨_, he⟩
    · exact hlater
  unfold freqRegInfoRegd at herr
  split at herr
  · cases herr
  rename_i rd hrd
  intro r hr
  rw [domainRules, hrd] at hr
  obtain ⟨i, hi⟩ := mem_iff_getElem?.mp hr
  exact (searchRules_erange herr).2 (r, i) (mk_mem_zipIdx_iff_getElem?.mpr hi)

def CoveredBy (rs : List RegRule) (centerFreq bw : ℕ) : Prop :=
  ∀ x, centerFreq ≤ x + bw / 2 → x ≤ centerFreq + bw / 2 →
    ∃ r ∈ rs, r.freqRange.startFreq ≤ x ∧ x ≤ r.freqRange.endFreq

/-- The frequencies 10 MHz above and below a channel are `u32`. -/
def NoWrap (centerFreq : ℕ) : Prop := 10000 ≤ centerFreq ∧ centerFreq + 10000 < 2 ^ 32

theorem fits_iff {range : FreqRange} (hwrap : NoWrap centerFreq) (hbw : bw ≤ 20000) :
    doesBwFitRange range centerFreq bw = true ↔
      range.startFreq + bw / 2 ≤ centerFreq ∧ centerFreq + bw / 2 ≤ range.endFreq := by
  obtain ⟨hlow, hhigh⟩ := hwrap
  have hsub : subU32 centerFreq (bw / 2) = centerFreq - bw / 2 := by
    unfold subU32
    omega
  have hadd : (centerFreq + bw / 2) % 2 ^ 32 = centerFreq + bw / 2 := by omega
  rw [doesBwFitRange, hsub, hadd, Bool.and_eq_true, decide_eq_true_eq, decide_eq_true_eq]
  omega

theorem coveredBy_one {r : RegRule} (hwrap : NoWrap centerFreq) (hbw : bw ≤ 20000)
    (hfit : doesBwFitRange r.freqRange centerFreq bw = true) : CoveredBy [r] centerFreq bw := by
  intro x hlow hhigh
  obtain ⟨hstart, hend⟩ := (fits_iff hwrap hbw).mp hfit
  exact ⟨r, .head _, by omega, by omega⟩

theorem coveredBy_two {r₁ r₂ : RegRule} (hwrap : NoWrap centerFreq)
    (htouch : r₁.freqRange.endFreq = r₂.freqRange.startFreq)
    (hfit : doesBwFitRange (combRange r₁.freqRange r₂.freqRange) centerFreq 20000 = true) :
    CoveredBy [r₁, r₂] centerFreq 20000 := by
  intro x hlow hhigh
  obtain ⟨hstart, hend⟩ := (fits_iff hwrap le_rfl).mp hfit
  simp only [combRange] at hstart hend
  by_cases hx : x ≤ r₁.freqRange.endFreq
  · exact ⟨r₁, .head _, by omega, hx⟩
  · exact ⟨r₂, .tail _ (.head _), by omega, by omega⟩

end lookup

/-! ### The channel after `handle_channel` -/

theorem disableChan_spec (core : RegCore) (wiphy : Wiphy) (initiator : Initiator)
    (chan : RegChannel) (err : RegErr) :
    hasChan (disableChan core wiphy initiator chan err).flags .disabled = true ∨
      disableChan core wiphy initiator chan err = chan ∧ initiator = .countryIe ∧
        err = .erange := by
  unfold disableChan
  split
  next hleft => exact .inr ⟨rfl, hleft⟩
  · split
    · exact .inl (by simp)
    · exact .inl (by simp)

/-- A channel without a rule is disabled, unless the rules next to it touch and contain it together.
-/
theorem handleChannelNoRule_cases (core : RegCore) (wiphy : Wiphy) (initiator : Initiator)
    (chan : RegChannel) (err : RegErr) (now : ℕ) (x₁ x₂ : Except RegErr (RegRule × ℕ)) :
    handleChannelNoRule core wiphy initiator chan err now x₁ x₂ =
      disableChan core wiphy initiator chan err ∨
    ∃ rr₁ rr₂, x₁ = .ok rr₁ ∧ x₂ = .ok rr₂ ∧
      rr₁.1.freqRange.endFreq = rr₂.1.freqRange.startFreq ∧
      doesBwFitRange (combRange rr₁.1.freqRange rr₂.1.freqRange) chan.khz 20000 = true ∧
      handleChannelNoRule core wiphy initiator chan err now x₁ x₂ =
        handleChannelAdjacentRules core wiphy initiator chan chan.origFlags rr₁ rr₂
          (combRange rr₁.1.freqRange rr₂.1.freqRange) now := by
  cases x₁ with
  | error e₁ => exact .inl rfl
  | ok rr₁ =>
    cases x₂ with
    | error e₂ => exact .inl rfl
    | ok rr₂ =>
      by_cases htouch : rr₁.1.freqRange.endFreq = rr₂.1.freqRange.startFreq
      · cases hfit :
            doesBwFitRange (combRange rr₁.1.freqRange rr₂.1.freqRange) chan.khz 20000 with
        | false => simp [handleChannelNoRule, htouch, hfit]
        | true =>
          refine .inr ⟨rr₁, rr₂, rfl, rfl, htouch, hfit, ?_⟩
          simp [handleChannelNoRule, htouch, hfit]
      · simp [handleChannelNoRule, htouch]

/-- **`handle_channel`**: the channel is disabled, left alone for a country element without rules
for its band, or covered by one rule or by two that touch, below 1 GHz in part.  It is then not more
permissive than these rules if and only if they have the same permissions and their PSD can be
merged. -/
theorem handle_channel_restrictive (core : RegCore) (wiphy : Wiphy) (initiator : Initiator)
    (chan : RegChannel) (now : ℕ) :
    hasChan (handleChannel core wiphy initiator chan now).flags .disabled = true ∨
    (handleChannel core wiphy initiator chan now = chan ∧ initiator = .countryIe ∧
      ∀ r ∈ domainRules core wiphy, freqInRuleBand r.freqRange chan.khz = false) ∨
    (∃ r ∈ domainRules core wiphy, ∃ bw ∈ searchedWidths, 1000 ≤ bw ∧
      (1000000 ≤ chan.khz → bw = 20000) ∧ (NoWrap chan.khz → CoveredBy [r] chan.khz bw) ∧
      (NotMorePermissive (handleChannel core wiphy initiator chan now) [r] ↔
        SamePermissions (strictRequest core wiphy) chan [r])) ∨
    (∃ r₁ ∈ domainRules core wiphy, ∃ r₂ ∈ domainRules core wiphy,
      r₁.freqRange.endFreq = r₂.freqRange.startFreq ∧
      (NoWrap chan.khz → CoveredBy [r₁, r₂] chan.khz 20000) ∧
      (NotMorePermissive (handleChannel core wiphy initiator chan now) [r₁, r₂] ↔
        SamePermissions (strictRequest core wiphy) chan [r₁, r₂] ∧
        PsdMergeable (strictRequest core wiphy) chan [r₁, r₂])) := by
  unfold handleChannel
  split
  next rr hrr =>
    obtain ⟨hmem, bw, hbw, hmin, hwide, hfit⟩ := freqRegInfo_ok hrr
    refine .inr (.inr (.inl ⟨rr.1, hmem, bw, hbw, hmin, hwide, ?_, single_iff⟩))
    intro hwrap
    exact coveredBy_one hwrap (searchedWidths_le hbw) hfit
  next err herr =>
    generalize hx₁ : freqRegInfo core wiphy (subU32 chan.khz 20000) = x₁
    generalize hx₂ : freqRegInfo core wiphy ((chan.khz + 20000) % 2 ^ 32) = x₂
    obtain heq | ⟨rr₁, rr₂, rfl, rfl, htouch, hfit, heq⟩ :=
      handleChannelNoRule_cases core wiphy initiator chan err now x₁ x₂
    · rw [heq]
      obtain hoff | ⟨hsame, hcountry, rfl⟩ := disableChan_spec core wiphy initiator chan err
      · exact .inl hoff
      · exact .inr (.inl ⟨hsame, hcountry, freqRegInfo_erange herr⟩)
    rw [heq]
    refine .inr (.inr (.inr ⟨rr₁.1, (freqRegInfo_ok hx₁).1, rr₂.1, (freqRegInfo_ok hx₂).1, htouch,
      ?_, adjacent_iff _⟩))
    intro hwrap
    exact coveredBy_two hwrap htouch hfit

def plainRule (startFreq endFreq maxBandwidth : ℕ) (flags : BitVec 32) : RegRule where
  freqRange := ⟨startFreq, endFreq, maxBandwidth⟩
  powerRule := ⟨600, 3000⟩
  wmmRule := ⟨.replicate 4 ⟨0, 0, 0, 0⟩, .replicate 4 ⟨0, 0, 0, 0⟩⟩
  flags := flags
  dfsCacMs := 0
  hasWmm := false
  psd := 0

def plainChannel (band : Band) (centerFreq : UInt32) (freqOffset : UInt16) : RegChannel where
  band := band
  centerFreq := centerFreq
  freqOffset := freqOffset
  flags := 0
  maxAntennaGain := 0
  maxPower := 20
  maxRegPower := 0
  beaconFound := false
  origFlags := 0
  origMag := 0
  origMpwr := 20
  dfsState := .usable
  dfsStateEntered := 0
  dfsCacMs := 0
  psd := 0

def strictWiphy (rules : List RegRule) : Wiphy := ⟨0, true, false, some ⟨(57, 57), 0, rules⟩⟩

def strictCore (rules : List RegRule) : RegCore := ⟨none, ⟨0, .driver⟩, [strictWiphy rules]⟩

def s1gRules : List RegRule := [plainRule 902000 904000 2000 0]

def noEhtRules : List RegRule :=
  [plainRule 5150000 5250000 80000 Rrf.noEht.mask, plainRule 5250000 5350000 80000 Rrf.noEht.mask]

/-- A channel at 902.5 MHz is used although no 20 MHz around it are covered; and a channel between
two rules that forbid EHT allows it. -/
theorem more_permissive_than_rules :
    (isValidRd ⟨(57, 57), 0, s1gRules⟩ = true ∧
      hasChan (handleChannel (strictCore s1gRules) (strictWiphy s1gRules) .driver
        (plainChannel .bandS1GHz 902 500) 0).flags .disabled = false ∧
      ¬CoveredBy s1gRules (plainChannel .bandS1GHz 902 500).khz 20000) ∧
    (isValidRd ⟨(57, 57), 0, noEhtRules⟩ = true ∧ (∀ r ∈ noEhtRules, r.has .noEht = true) ∧
      hasChan (handleChannel (strictCore noEhtRules) (strictWiphy noEhtRules) .driver
        (plainChannel .band5GHz 5250 0) 0).flags .disabled = false ∧
      hasChan (handleChannel (strictCore noEhtRules) (strictWiphy noEhtRules) .driver
        (plainChannel .band5GHz 5250 0) 0).flags .noEht = false) := by
  have hkhz : (plainChannel .bandS1GHz 902 500).khz = 902500 := by decide +kernel
  refine ⟨⟨by decide +kernel, by decide +kernel, ?_⟩, by decide +kernel, by decide +kernel,
    by decide +kernel, by decide +kernel⟩
  intro hcov
  obtain ⟨r, hr, hstart, -⟩ := hcov 893000 (by omega) (by omega)
  obtain rfl := mem_singleton.mp hr
  revert hstart
  decide +kernel

end Iwlwifi.Cfg80211
