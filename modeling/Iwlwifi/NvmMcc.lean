import Iwlwifi.Chandef
import Iwlwifi.RegIntersect
import Mathlib.Data.List.SplitBy

/-! # The regulatory domain from the firmware's channel data

A model of `iwl_parse_nvm_mcc_info` (`drivers/net/wireless/intel/iwlwifi/iwl-nvm-parse.c`), which
turns the flags that the firmware reports for the channels of a table into regulatory rules.

* **Flags** (`nvmGetRegdomBwFlags`).  The rule flags of a channel, from its flag word and the
  capabilities of the domain (`getRegCapa`).
* **Rules** (`parseChannel`).  A valid channel continues the rule of the valid channel before it
  when the flags are the same and the centre frequencies are at most 20 MHz apart.
* **Groups** (`groups`).  What the loop is for, without its variables: the list of valid channels,
  split where two neighbours are not `linked`; `parseLoop_spec`: every rule spans one group.
* `mcc_info_exact_iff`: the domain is exact if and only if linked channels are next to each other
  in the table; `gap_covered`: channels 1 and 5 of the 2.4 GHz band make 2, 3 and 4 usable. -/

namespace Iwlwifi.Nvm

open Cfg80211 List

/-! ### Channels -/

/-- `ieee80211_channel_to_freq_khz`. -/
def channelToFreqKhz (chan : ℕ) (band : Band) : ℕ :=
  if chan = 0 then 0
  else
    match band with
    | .band2GHz | .bandLc =>
      if chan = 14 then 2484 * 1000
      else if chan < 14 then (2407 + chan * 5) * 1000
      else 0
    | .band5GHz =>
      if 182 ≤ chan ∧ chan ≤ 196 then (4000 + chan * 5) * 1000 else (5000 + chan * 5) * 1000
    | .band6GHz =>
      if chan = 2 then 5935 * 1000
      else if chan ≤ 253 then (5950 + chan * 5) * 1000
      else 0
    | .band60GHz => if chan < 7 then (56160 + chan * 2160) * 1000 else 0
    | .bandS1GHz => 902000 + chan * 500

/-- `ieee80211_channel_to_frequency`, in MHz. -/
def channelToFrequency (chan : ℕ) (band : Band) : ℕ := channelToFreqKhz chan band / 1000

/-- `iwl_nvm_channels`. -/
def nvmChannels : List ℕ :=
  [1, 2, 3, 4, 5, 6, 7, 8, 9, 10, 11, 12, 13, 14,
    36, 40, 44, 48, 52, 56, 60, 64,
    100, 104, 108, 112, 116, 120, 124, 128, 132, 136, 140, 144,
    149, 153, 157, 161, 165]

/-- `iwl_unii9_nvm_channels`. -/
def unii9NvmChannels : List ℕ :=
  [1, 2, 3, 4, 5, 6, 7, 8, 9, 10, 11, 12, 13, 14,
    36, 40, 44, 48, 52, 56, 60, 64, 68, 72, 76, 80, 84, 88, 92,
    96, 100, 104, 108, 112, 116, 120, 124, 128, 132, 136, 140, 144,
    149, 153, 157, 161, 165, 169, 173, 177, 181,
    1, 5, 9, 13, 17, 21, 25, 29, 33, 37, 41, 45, 49, 53, 57, 61, 65, 69,
    73, 77, 81, 85, 89, 93, 97, 101, 105, 109, 113, 117, 121, 125, 129,
    133, 137, 141, 145, 149, 153, 157, 161, 165, 169, 173, 177, 181, 185,
    189, 193, 197, 201, 205, 209, 213, 217, 221, 225, 229, 233,
    237, 241, 245, 249, 253]

/-- `NUM_2GHZ_CHANNELS`. -/
def num2GHzChannels : ℕ := 14

/-- `NUM_5GHZ_CHANNELS`. -/
def num5GHzChannels : ℕ := 37

/-- `iwl_nl80211_band_from_channel_idx`. -/
def bandFromChannelIdx (chIdx : ℕ) : Band :=
  if num2GHzChannels + num5GHzChannels ≤ chIdx then .band6GHz
  else if num2GHzChannels ≤ chIdx then .band5GHz
  else .band2GHz

/-- `enum iwl_nvm_channel_flags`, as far as rules depend on them. -/
inductive ChannelFlag
  | valid
  | allow20mhzActivity
  | active
  | radar
  | indoorOnly
  | goConcurrent
  | mhz40
  | mhz80
  | mhz160
  | mhz320
  | vlp
  | afc
  | vlpApNotAllowed
deriving DecidableEq, Repr

def ChannelFlag.bit : ChannelFlag → ℕ
  | valid => 0
  | allow20mhzActivity => 2
  | active => 3
  | radar => 4
  | indoorOnly => 5
  | goConcurrent => 6
  | mhz40 => 9
  | mhz80 => 10
  | mhz160 => 11
  | mhz320 => 12
  | vlp => 13
  | afc => 14
  | vlpApNotAllowed => 15

/-- `nvm_flags & flag`. -/
def hasFlag (nvmFlags : BitVec 16) (f : ChannelFlag) : Bool := nvmFlags.getLsbD f.bit

/-! ### Capabilities of the domain -/

/-- `enum iwl_puncturing_status`. -/
inductive PuncturingStatus
  | unknown
  | enabled
  | disabled
deriving DecidableEq, Repr

/-- `struct iwl_reg_capa`. -/
structure RegCapa where
  allow40mhz : Bool := false
  allow80mhz : Bool := false
  allow160mhz : Bool := false
  allow320mhz : Bool := false
  disable11ax : Bool := false
  disable11be : Bool := false
  disable11bn : Bool := false
  puncturingStatus : PuncturingStatus := .unknown
deriving DecidableEq, Repr

/-- `iwl_get_reg_capa`; the layout of the flags depends on the version of the response. -/
def getRegCapa (flags : BitVec 32) (respVer : ℕ) : RegCapa :=
  let puncturingStatus : PuncturingStatus :=
    if 10 ≤ respVer then (if flags.getLsbD 18 then .enabled else .disabled) else .unknown
  if 8 ≤ respVer then
    { allow40mhz := true
      allow80mhz := flags.getLsbD 4
      allow160mhz := flags.getLsbD 3
      allow320mhz := flags.getLsbD 16
      disable11ax := flags.getLsbD 13
      disable11be := flags.getLsbD 8
      disable11bn := flags.getLsbD 17
      puncturingStatus := puncturingStatus }
  else if 6 ≤ respVer then
    { allow40mhz := flags.getLsbD 8
      allow80mhz := flags.getLsbD 4
      allow160mhz := flags.getLsbD 3
      disable11ax := flags.getLsbD 10
      puncturingStatus := puncturingStatus }
  else
    { allow40mhz := !flags.getLsbD 7
      allow80mhz := flags.getLsbD 3
      allow160mhz := flags.getLsbD 2
      disable11ax := flags.getLsbD 10
      puncturingStatus := puncturingStatus }

/-! ### Flags of a rule -/

/-- `if (c) flags |= mask`. -/
def setIf (c : Bool) (mask flags : BitVec 32) : BitVec 32 := if c then flags ||| mask else flags

/-- `if (c) flags &= ~mask`. -/
def clearIf (c : Bool) (mask flags : BitVec 32) : BitVec 32 :=
  if c then flags &&& ~~~mask else flags

/-- `NL80211_RRF_NO_HT40`. -/
def noHt40 : BitVec 32 := Rrf.noHt40minus.mask ||| Rrf.noHt40plus.mask

/-- The HT40 flags in `iwl_nvm_get_regdom_bw_flags`. -/
def ht40Flags (nvmChan : List ℕ) (chIdx : ℕ) (nvmFlags : BitVec 16) : BitVec 32 :=
  let flags := noHt40
  if hasFlag nvmFlags .mhz40 then
    if chIdx < num2GHzChannels then
      let chan := nvmChan.getD chIdx 0
      let flags := clearIf (chan ≤ 9) Rrf.noHt40plus.mask flags
      clearIf (5 ≤ chan) Rrf.noHt40minus.mask flags
    else if chIdx < num2GHzChannels + num5GHzChannels then
      if (chIdx - num2GHzChannels) % 2 = 0 then clearIf true Rrf.noHt40plus.mask flags
      else clearIf true Rrf.noHt40minus.mask flags
    else clearIf true Rrf.noHt40minus.mask (clearIf true Rrf.noHt40plus.mask flags)
  else flags

/-- The flags in `iwl_nvm_get_regdom_bw_flags` for concurrent operation. -/
def concurrentFlags (nvmFlags : BitVec 16) (flags : BitVec 32) : BitVec 32 :=
  let isNoIr := flags.getLsbD Rrf.noIr.bit
  let flags :=
    setIf (hasFlag nvmFlags .allow20mhzActivity && isNoIr) Rrf.allow20mhzActivity.mask flags
  if hasFlag nvmFlags .goConcurrent then
    let flags := setIf isNoIr Rrf.irConcurrent.mask flags
    -- a DFS channel does not need `NO_IR`
    if flags.getLsbD Rrf.dfs.bit then
      clearIf true Rrf.noIr.mask (setIf true Rrf.dfsConcurrent.mask flags)
    else flags
  else flags

/-- `iwl_nvm_get_regdom_bw_flags`. -/
def nvmGetRegdomBwFlags (nvmChan : List ℕ) (chIdx : ℕ) (nvmFlags : BitVec 16) (regCapa : RegCapa) :
    BitVec 32 :=
  let flags := ht40Flags nvmChan chIdx nvmFlags
  let flags := setIf (!hasFlag nvmFlags .mhz80) Rrf.no80mhz.mask flags
  let flags := setIf (!hasFlag nvmFlags .mhz160) Rrf.no160mhz.mask flags
  let flags := setIf (!hasFlag nvmFlags .mhz320) Rrf.no320mhz.mask flags
  let flags := setIf (!hasFlag nvmFlags .active) Rrf.noIr.mask flags
  let flags := setIf (hasFlag nvmFlags .radar) Rrf.dfs.mask flags
  let flags := setIf (hasFlag nvmFlags .indoorOnly) Rrf.noOutdoor.mask flags
  let flags := concurrentFlags nvmFlags flags
  let flags :=
    if hasFlag nvmFlags .vlp then
      setIf (!hasFlag nvmFlags .vlpApNotAllowed) Rrf.allow6ghzVlpAp.mask flags
    else setIf true Rrf.no6ghzVlpClient.mask flags
  let flags := setIf (!hasFlag nvmFlags .afc) Rrf.no6ghzAfcClient.mask flags
  let above2GHz := decide (num2GHzChannels ≤ chIdx)
  let flags := setIf (above2GHz && !regCapa.allow40mhz) noHt40 flags
  let flags := setIf (above2GHz && !regCapa.allow80mhz) Rrf.no80mhz.mask flags
  let flags := setIf (above2GHz && !regCapa.allow160mhz) Rrf.no160mhz.mask flags
  let flags := setIf (above2GHz && !regCapa.allow320mhz) Rrf.no320mhz.mask flags
  let flags := setIf regCapa.disable11ax Rrf.noHe.mask flags
  let flags := setIf regCapa.disable11be Rrf.noEht.mask flags
  setIf regCapa.disable11bn Rrf.noUhr.mask flags

/-! ### The loop -/

/-- `struct iwl_rf_cfg`, as far as it selects the table. -/
structure RfCfg where
  unii9Supported : Bool
  uhbSupported : Bool
  /-- `nvm_type == IWL_NVM_EXT` -/
  nvmTypeExt : Bool

/-- `max_num_ch`. -/
def RfCfg.maxNumCh (cfg : RfCfg) : ℕ :=
  if cfg.unii9Supported then unii9NvmChannels.length
  else if cfg.uhbSupported then 110
  else if cfg.nvmTypeExt then 51
  else nvmChannels.length

/-- `nvm_chan`. -/
def RfCfg.nvmChan (cfg : RfCfg) : List ℕ :=
  if cfg.unii9Supported || cfg.uhbSupported || cfg.nvmTypeExt then unii9NvmChannels
  else nvmChannels

/-- The arguments of `iwl_parse_nvm_mcc_info`. -/
structure Mcc where
  cfg : RfCfg
  channels : List (BitVec 32)
  fwMcc : BitVec 16
  geoInfo : BitVec 16
  cap : BitVec 32
  respVer : ℕ

namespace Mcc
variable (m : Mcc)

/-- `num_of_ch`, after it has been truncated. -/
def numOfCh : ℕ := min m.channels.length m.cfg.maxNumCh

/-- `ch_flags`. -/
def chFlags (chIdx : ℕ) : BitVec 16 := (m.channels.getD chIdx 0).setWidth 16

/-- `center_freq`. -/
def centerFreq (chIdx : ℕ) : ℕ :=
  channelToFrequency (m.cfg.nvmChan.getD chIdx 0) (bandFromChannelIdx chIdx)

def regCapa : RegCapa := getRegCapa m.cap m.respVer

/-- `reg_rule_flags`. -/
def regRuleFlags (chIdx : ℕ) : BitVec 32 :=
  nvmGetRegdomBwFlags m.cfg.nvmChan chIdx (m.chFlags chIdx) m.regCapa

/-- `regd->alpha2`. -/
def alpha2 : UInt8 × UInt8 :=
  (UInt8.ofNat (m.fwMcc.toNat / 256), UInt8.ofNat (m.fwMcc.toNat % 256))

end Mcc

/-- The variables of the loop; the rules with the newest one first. -/
structure ParseState where
  rules : List RegRule
  prevCenterFreq : ℕ
  prevRegRuleFlags : BitVec 32

def zeroRule : RegRule where
  freqRange := ⟨0, 0, 0⟩
  powerRule := ⟨0, 0⟩
  wmmRule := ⟨Vector.replicate 4 ⟨0, 0, 0, 0⟩, Vector.replicate 4 ⟨0, 0, 0, 0⟩⟩
  flags := 0
  dfsCacMs := 0
  hasWmm := false
  psd := 0

/-- `reg_query_regdb_wmm` sets the WMM parameters of the rule, or leaves it alone. -/
def setWmm (wmm : Option WmmRule) (rule : RegRule) : RegRule :=
  match wmm with
  | none => rule
  | some w => { rule with wmmRule := w, hasWmm := true }

section loop
variable (m : Mcc) (queryWmm : UInt8 × UInt8 → ℕ → Option WmmRule)

def fillRule (chIdx : ℕ) (rule : RegRule) : RegRule :=
  let rule := { rule with
    freqRange := ⟨rule.freqRange.startFreq, (m.centerFreq chIdx + 10) * 1000, 0⟩
    powerRule := ⟨600, 2200⟩
    flags := m.regRuleFlags chIdx ||| Rrf.autoBw.mask }
  if !m.geoInfo.getLsbD 0 || bandFromChannelIdx chIdx = .band2GHz then rule
  else setWmm (queryWmm m.alpha2 (m.centerFreq chIdx)) rule

def startRule (chIdx : ℕ) : RegRule :=
  { zeroRule with freqRange := ⟨(m.centerFreq chIdx - 10) * 1000, 0, 0⟩ }

def parseChannel (st : ParseState) (chIdx : ℕ) : ParseState :=
  let centerFreq := m.centerFreq chIdx
  if centerFreq = 0 then st
  else if !hasFlag (m.chFlags chIdx) .valid then st
  else
    let regRuleFlags := m.regRuleFlags chIdx
    let newRule := chIdx = 0 ∨ st.prevRegRuleFlags ≠ regRuleFlags ∨
      st.prevCenterFreq + 20 < centerFreq
    let rules :=
      if newRule then fillRule m queryWmm chIdx (startRule m chIdx) :: st.rules
      else
        match st.rules with
        | [] => [] -- does not happen: the first rule is always new
        | rule :: rules => fillRule m queryWmm chIdx rule :: rules
    ⟨rules, centerFreq, regRuleFlags⟩

def parseLoop : ParseState :=
  (List.range m.numOfCh).foldl (parseChannel m queryWmm) ⟨[], 0, 0⟩

def dummyRule : RegRule :=
  { zeroRule with
    freqRange := ⟨2412 * 1000, 2413 * 1000, 1 * 1000⟩
    powerRule := ⟨600, 2200⟩ }

/-- `iwl_parse_nvm_mcc_info`: the domain and `*puncturing_status`. -/
def parseNvmMccInfo : Option (Regdomain × PuncturingStatus) :=
  if maxSuppRegRules < m.numOfCh then none
  else
    let rules := (parseLoop m queryWmm).rules.reverse
    some (⟨m.alpha2, dfsUnset, if rules = [] then [dummyRule] else rules⟩,
      m.regCapa.puncturingStatus)

end loop

/-! ### Exactness -/

namespace Mcc
variable (m : Mcc)

def isValid (chIdx : ℕ) : Bool := hasFlag (m.chFlags chIdx) .valid

def validChannels : List ℕ := (List.range m.numOfCh).filter m.isValid

/-- The loop puts `j` into the rule of `i`, if `i` is the valid channel before `j`. -/
def linked (i j : ℕ) : Bool :=
  m.regRuleFlags i = m.regRuleFlags j ∧ m.centerFreq j ≤ m.centerFreq i + 20

def groups : List (List ℕ) := m.validChannels.splitBy m.linked

/-- Channels that are put into one rule follow each other in the table. -/
def Contiguous : Prop := m.validChannels.IsChain fun i j => m.linked i j → j = i + 1

instance : Decidable m.Contiguous := inferInstanceAs (Decidable (List.IsChain _ _))

end Mcc

/-- The 20 MHz around the centre frequency are inside of the rule. -/
def RegRule.covers (r : RegRule) (centerFreq : ℕ) : Prop :=
  r.freqRange.startFreq ≤ (centerFreq - 10) * 1000 ∧
    (centerFreq + 10) * 1000 ≤ r.freqRange.endFreq

/-- The rules say what the flags of the channels say. -/
structure Exact (m : Mcc) (rules : List RegRule) : Prop where
  /-- a valid channel can be used, with its own flags -/
  valid : ∀ i < m.numOfCh, m.isValid i = true → ∃ r ∈ rules, RegRule.covers r (m.centerFreq i) ∧
    r.flags = m.regRuleFlags i ||| Rrf.autoBw.mask
  /-- another channel of the list cannot -/
  invalid : ∀ i < m.numOfCh, m.isValid i = false → ∀ r ∈ rules, ¬RegRule.covers r (m.centerFreq i)
  nonempty : ∀ r ∈ rules, r.freqRange.startFreq < r.freqRange.endFreq
  ascending : rules.Pairwise fun r r' => r.freqRange.startFreq < r'.freqRange.startFreq

/-! ### The tables -/

theorem isChain_frequency (l : List ℕ) (hl : l = nvmChannels ∨ l = unii9NvmChannels) :
    ((List.range l.length).map fun i =>
      channelToFrequency (l.getD i 0) (bandFromChannelIdx i)).IsChain (· < ·) := by
  rcases hl with rfl | rfl
  · decide +kernel
  · decide +kernel

namespace Mcc
variable {m : Mcc} {i j : ℕ}

theorem nvmChan_eq (m : Mcc) : m.cfg.nvmChan = nvmChannels ∨ m.cfg.nvmChan = unii9NvmChannels := by
  unfold RfCfg.nvmChan
  split
  · exact Or.inr rfl
  · exact Or.inl rfl

theorem numOfCh_le (m : Mcc) : m.numOfCh ≤ m.cfg.nvmChan.length := by
  have h : m.cfg.maxNumCh ≤ m.cfg.nvmChan.length := by
    rcases m.cfg with ⟨_ | _, _ | _, _ | _⟩ <;> decide
  exact (Nat.min_le_right _ _).trans h

theorem numOfCh_le_maxSuppRegRules (m : Mcc) : m.numOfCh ≤ maxSuppRegRules := by
  refine (numOfCh_le m).trans ?_
  rcases nvmChan_eq m with h | h <;> rw [h] <;> decide

theorem centerFreq_lt (hij : i < j) (hj : j < m.numOfCh) : m.centerFreq i < m.centerFreq j := by
  have hlen := numOfCh_le m
  have hchain := isChain_iff_pairwise.mp (isChain_frequency _ (nvmChan_eq m))
  rw [pairwise_iff_getElem] at hchain
  have h := hchain i j (by simp; omega) (by simp; omega) hij
  simpa [centerFreq] using h

theorem centerFreq_zero (m : Mcc) : m.centerFreq 0 = 2412 := by
  unfold centerFreq
  rcases nvmChan_eq m with h | h <;> rw [h] <;> rfl

theorem centerFreq_ge (hi : i < m.numOfCh) : 2412 ≤ m.centerFreq i := by
  rcases Nat.eq_zero_or_pos i with rfl | hpos
  · exact (centerFreq_zero m).ge
  · have h := centerFreq_lt hpos hi
    rw [centerFreq_zero m] at h
    exact h.le

theorem centerFreq_le (hij : i ≤ j) (hj : j < m.numOfCh) : m.centerFreq i ≤ m.centerFreq j := by
  rcases hij.eq_or_lt with rfl | hlt
  · exact le_rfl
  · exact (centerFreq_lt hlt hj).le

theorem mem_validChannels : i ∈ m.validChannels ↔ i < m.numOfCh ∧ m.isValid i = true := by
  rw [validChannels, mem_filter, mem_range]

theorem isChain_validChannels (m : Mcc) :
    m.validChannels.IsChain fun i j => i < j ∧ ∀ k, i < k → k < j → m.isValid k = false := by
  have hsorted : m.validChannels.Pairwise (· < ·) := pairwise_lt_range.filter _
  rw [isChain_iff_getElem]
  intro t ht
  have hmem : m.validChannels[t + 1] ∈ m.validChannels := getElem_mem _
  refine ⟨pairwise_iff_getElem.mp hsorted t (t + 1) (by omega) ht (by omega), ?_⟩
  intro k hlo hhi
  by_contra hk
  -- a valid channel between them would be in the list as well
  have hin : k ∈ m.validChannels := by
    rw [mem_validChannels] at hmem ⊢
    exact ⟨hhi.trans hmem.1, by simpa using hk⟩
  obtain ⟨u, hu, rfl⟩ := getElem_of_mem hin
  have htu : t < u := by
    by_contra hle
    rcases (Nat.le_of_not_lt hle).eq_or_lt with rfl | hlt
    · exact lt_irrefl _ hlo
    · have := pairwise_iff_getElem.mp hsorted u t hu (by omega) hlt
      omega
  rcases (Nat.succ_le_of_lt htu).eq_or_lt with rfl | hlt
  · exact lt_irrefl _ hhi
  · have := pairwise_iff_getElem.mp hsorted (t + 1) u ht hu hlt
    omega

end Mcc

/-! ### Groups -/

/-- The rule spans the channels of a group and has their flags. -/
structure Spans (m : Mcc) (g : List ℕ) (r : RegRule) : Prop where
  start : ∀ i ∈ g.head?, r.freqRange.startFreq = (m.centerFreq i - 10) * 1000
  stop : ∀ j ∈ g.getLast?, r.freqRange.endFreq = (m.centerFreq j + 10) * 1000
  flags : ∀ j ∈ g.getLast?, r.flags = m.regRuleFlags j ||| Rrf.autoBw.mask

/-- The first `n` channels have been looked at. -/
structure LoopInv (m : Mcc) (n : ℕ) (st : ParseState) : Prop where
  rules : List.Forall₂ (Spans m) (((List.range n).filter m.isValid).splitBy m.linked).reverse
    st.rules
  first : (List.range n).filter m.isValid = [] → st.prevCenterFreq = 0
  prev : ∀ i ∈ ((List.range n).filter m.isValid).getLast?,
    st.prevCenterFreq = m.centerFreq i ∧ st.prevRegRuleFlags = m.regRuleFlags i

theorem splitBy_concat {α : Type} {r : α → α → Bool} {l g : List α} {gs : List (List α)} {a : α}
    (h : l.splitBy r = gs ++ [g]) (hr : ∀ x ∈ l.getLast?, r x a = true) :
    (l ++ [a]).splitBy r = gs ++ [g ++ [a]] := by
  obtain ⟨rfl, hnil, hchain, hsplit⟩ := splitBy_eq_iff.mp h
  have hg : g ≠ [] := by
    rintro rfl
    simp at hnil
  have hlast : ∀ x ∈ g.getLast?, r x a = true := by
    intro x hx
    apply hr
    rwa [flatten_append, flatten_singleton, List.getLast?_append_of_ne_nil _ hg]
  rw [isChain_append] at hsplit
  refine splitBy_eq_iff.mpr ⟨by simp, ?_, ?_, ?_⟩
  · simp at hnil ⊢
    exact hnil.1
  · refine forall_mem_append.mpr ⟨fun m hm => hchain m (mem_append_left _ hm), ?_⟩
    refine forall_mem_singleton.mpr ?_
    refine isChain_append.mpr ⟨hchain g (by simp), isChain_singleton a, ?_⟩
    intro x hx y hy
    cases hy
    exact hlast x hx
  · refine isChain_append.mpr ⟨hsplit.1, isChain_singleton _, ?_⟩
    intro x hx y hy
    cases hy
    obtain ⟨hx', hg', hr'⟩ := hsplit.2.2 x hx g rfl
    refine ⟨hx', by simp, ?_⟩
    rwa [head_append_of_ne_nil hg]

section loop
variable {m : Mcc} {queryWmm : UInt8 × UInt8 → ℕ → Option WmmRule} {n : ℕ} {st : ParseState}

theorem freqRange_setWmm (wmm : Option WmmRule) (r : RegRule) :
    (setWmm wmm r).freqRange = r.freqRange ∧ (setWmm wmm r).flags = r.flags := by
  cases wmm <;> exact ⟨rfl, rfl⟩

theorem fillRule_eq (m : Mcc) (queryWmm : UInt8 × UInt8 → ℕ → Option WmmRule) (n : ℕ)
    (r : RegRule) :
    (fillRule m queryWmm n r).freqRange =
      ⟨r.freqRange.startFreq, (m.centerFreq n + 10) * 1000, 0⟩ ∧
    (fillRule m queryWmm n r).flags = m.regRuleFlags n ||| Rrf.autoBw.mask := by
  unfold fillRule
  split
  · exact ⟨rfl, rfl⟩
  · exact freqRange_setWmm _ _

theorem spans_start (m : Mcc) (queryWmm : UInt8 × UInt8 → ℕ → Option WmmRule) (n : ℕ) :
    Spans m [n] (fillRule m queryWmm n (startRule m n)) := by
  obtain ⟨hrange, hflags⟩ := fillRule_eq m queryWmm n (startRule m n)
  refine ⟨?_, ?_, ?_⟩
  · rintro i ⟨⟩
    rw [hrange]
    rfl
  · rintro j ⟨⟩
    rw [hrange]
    rfl
  · rintro j ⟨⟩
    exact hflags

theorem Spans.extend {g : List ℕ} {r : RegRule} (h : Spans m g r) (hg : g ≠ []) (n : ℕ) :
    Spans m (g ++ [n]) (fillRule m queryWmm n r) := by
  obtain ⟨hrange, hflags⟩ := fillRule_eq m queryWmm n r
  refine ⟨?_, ?_, ?_⟩
  · intro i hi
    rw [List.head?_append_of_ne_nil _ hg] at hi
    rw [hrange]
    exact h.start i hi
  · intro j hj
    rw [List.getLast?_concat] at hj
    cases hj
    rw [hrange]
  · intro j hj
    rw [List.getLast?_concat] at hj
    cases hj
    exact hflags

theorem LoopInv.step (h : LoopInv m n st) (hn : n < m.numOfCh) :
    LoopInv m (n + 1) (parseChannel m queryWmm st n) := by
  have hge := Mcc.centerFreq_ge hn
  have hfilter : (List.range (n + 1)).filter m.isValid =
      (List.range n).filter m.isValid ++ bif m.isValid n then [n] else [] := by
    rw [range_succ, filter_append, filter_singleton]
  unfold parseChannel
  rw [if_neg (by omega)]
  cases hvalid : m.isValid n with
  | false =>
    have hflag : hasFlag (m.chFlags n) .valid = false := hvalid
    have hsame : (List.range (n + 1)).filter m.isValid = (List.range n).filter m.isValid := by
      rw [hfilter, hvalid]
      simp
    rw [hflag]
    refine ⟨?_, ?_, ?_⟩ <;> rw [hsame]
    exacts [h.rules, h.first, h.prev]
  | true =>
    have hflag : hasFlag (m.chFlags n) .valid = true := hvalid
    have hsnoc : (List.range (n + 1)).filter m.isValid =
        (List.range n).filter m.isValid ++ [n] := by
      rw [hfilter, hvalid]
      simp
    rw [hflag]
    simp only [Bool.not_true, Bool.false_eq_true, if_false]
    refine ⟨?_, ?_, ?_⟩
    rotate_left
    · rw [hsnoc]
      simp
    · rw [hsnoc]
      intro i hi
      rw [List.getLast?_concat] at hi
      cases hi
      exact ⟨rfl, rfl⟩
    have hrules := h.rules
    have hfirst := h.first
    have hprev := h.prev
    rw [hsnoc]
    have hzero : n = 0 → (List.range n).filter m.isValid = [] := by
      rintro rfl
      rfl
    generalize (List.range n).filter m.isValid = vs at hrules hfirst hprev hzero
    split
    next hnew =>
      -- the channel is not linked to the one before
      rw [splitBy_append]
      · rw [reverse_append]
        exact .cons (spans_start m queryWmm n) hrules
      intro x hx y hy
      cases hy
      obtain ⟨hfreq, hfl⟩ := hprev x hx
      rw [Mcc.linked, decide_eq_false_iff_not, ← hfl, ← hfreq]
      rintro ⟨hfl', hfreq'⟩
      rcases hnew with h0 | h | h
      · rw [hzero h0] at hx
        cases hx
      · exact h hfl'
      · omega
    next hold =>
      simp only [not_or, not_not] at hold
      obtain ⟨-, hfl', hfreq'⟩ := hold
      have hvs : vs ≠ [] := by
        intro hnil
        have := hfirst hnil
        omega
      obtain ⟨gs, g, hgs⟩ : ∃ gs g, vs.splitBy m.linked = gs ++ [g] := by
        rcases eq_nil_or_concat (vs.splitBy m.linked) with h | ⟨gs, g, h⟩
        · exact absurd h (splitBy_ne_nil.mpr hvs)
        · exact ⟨gs, g, h.trans concat_eq_append⟩
      have hg : g ≠ [] := by
        apply ne_nil_of_mem_splitBy
        rw [hgs]
        simp
      rw [splitBy_concat hgs]
      · rw [hgs, reverse_append] at hrules
        obtain ⟨r, rs, hr, hrs, hst⟩ := forall₂_cons_left_iff.mp hrules
        rw [hst, reverse_append]
        exact .cons (hr.extend hg n) hrs
      · intro x hx
        obtain ⟨hfreq, hfl⟩ := hprev x hx
        rw [Mcc.linked, decide_eq_true_iff, ← hfl, ← hfreq]
        exact ⟨hfl', by omega⟩

theorem parseLoop_spec (m : Mcc) (queryWmm : UInt8 × UInt8 → ℕ → Option WmmRule) :
    List.Forall₂ (Spans m) m.groups (parseLoop m queryWmm).rules.reverse := by
  have hrun : ∀ n ≤ m.numOfCh,
      LoopInv m n ((List.range n).foldl (parseChannel m queryWmm) ⟨[], 0, 0⟩) := by
    intro n
    induction n with
    | zero =>
      intro _
      exact ⟨.nil, fun _ => rfl, nofun⟩
    | succ n ih =>
      intro hn
      rw [range_succ, foldl_append]
      exact (ih (by omega)).step (by omega)
  have h := (hrun m.numOfCh le_rfl).rules
  rwa [← forall₂_reverse_iff, reverse_reverse] at h

end loop

/-! ### What the groups are -/

section groups
variable {m : Mcc} {g : List ℕ} {i j : ℕ}

theorem mem_groups (hg : g ∈ m.groups) (hi : i ∈ g) : i < m.numOfCh ∧ m.isValid i = true := by
  rw [← Mcc.mem_validChannels, ← flatten_splitBy m.linked m.validChannels]
  exact mem_flatten_of_mem hg hi

theorem groups_sorted (m : Mcc) : (∀ g ∈ m.groups, g.Pairwise (· < ·)) ∧
    m.groups.Pairwise fun g h => ∀ i ∈ g, ∀ j ∈ h, i < j := by
  have hsorted : m.validChannels.Pairwise (· < ·) := pairwise_lt_range.filter _
  rwa [← flatten_splitBy m.linked m.validChannels, pairwise_flatten] at hsorted

theorem exists_bounds (hg : g ∈ m.groups) : ∃ a b, g.head? = some a ∧ g.getLast? = some b ∧
    a ∈ g ∧ b ∈ g ∧ ∀ i ∈ g, a ≤ i ∧ i ≤ b ∧ m.regRuleFlags i = m.regRuleFlags b := by
  have hne : g ≠ [] := ne_nil_of_mem_splitBy hg
  have hsorted := (groups_sorted m).1 g hg
  have hflags : g.IsChain fun i j => m.regRuleFlags i = m.regRuleFlags j := by
    refine (isChain_of_mem_splitBy hg).imp ?_
    intro i j h
    exact (of_decide_eq_true h).1
  have hsame := isChain_iff_pairwise.mp hflags
  rw [pairwise_iff_getElem] at hsorted hsame
  have hpos := length_pos_iff.mpr hne
  refine ⟨g[0], g[g.length - 1], List.head?_eq_getElem?.trans (List.getElem?_eq_getElem hpos),
    List.getLast?_eq_getElem?.trans (List.getElem?_eq_getElem (by omega)),
    getElem_mem _, getElem_mem _, ?_⟩
  intro i hi
  obtain ⟨t, ht, rfl⟩ := getElem_of_mem hi
  have hfirst : g[0] ≤ g[t] := by
    rcases Nat.eq_zero_or_pos t with rfl | h
    · exact le_rfl
    · exact (hsorted 0 t hpos ht h).le
  rcases (Nat.le_sub_one_of_lt ht).eq_or_lt with rfl | h
  · exact ⟨hfirst, le_rfl, rfl⟩
  · exact ⟨hfirst, (hsorted t (g.length - 1) ht (by omega) h).le,
      hsame t (g.length - 1) ht (by omega) h⟩

theorem Spans.covers_iff {r : RegRule} {a b : ℕ} (h : Spans m g r) (ha : g.head? = some a)
    (hb : g.getLast? = some b) (han : a < m.numOfCh) (hbn : b < m.numOfCh)
    (hi : i < m.numOfCh) : RegRule.covers r (m.centerFreq i) ↔ a ≤ i ∧ i ≤ b := by
  have hstart := h.start a ha
  have hstop := h.stop b hb
  unfold RegRule.covers
  have hge := Mcc.centerFreq_ge hi
  constructor
  · rintro ⟨hlo, hhi⟩
    constructor
    · by_contra hlt
      have := Mcc.centerFreq_lt (Nat.lt_of_not_le hlt) han
      omega
    · by_contra hlt
      have := Mcc.centerFreq_lt (Nat.lt_of_not_le hlt) hi
      omega
  · rintro ⟨hlo, hhi⟩
    have h₁ := Mcc.centerFreq_le hlo hi
    have h₂ := Mcc.centerFreq_le hhi hbn
    omega

theorem mem_of_isChain_succ (h : g.IsChain fun i j => j = i + 1) {a b k : ℕ}
    (ha : g.head? = some a) (hb : g.getLast? = some b) (hak : a ≤ k) (hkb : k ≤ b) : k ∈ g := by
  induction g generalizing a with
  | nil => cases ha
  | cons x g ih =>
    cases ha
    rcases hak.eq_or_lt with rfl | hlt
    · exact .head _
    cases g with
    | nil =>
      obtain rfl : x = b := by simpa using hb
      omega
    | cons y g =>
      obtain ⟨hy, hg⟩ := isChain_cons_cons.mp h
      exact .tail _ (ih hg rfl (by simpa using hb) (by omega))

section
variable {gs : List (List ℕ)} {rules : List RegRule} (h : List.Forall₂ (Spans m) gs rules)
include h

theorem exists_group {r : RegRule} (hr : r ∈ rules) :
    ∃ g ∈ gs, Spans m g r := by
  obtain ⟨t, ht, rfl⟩ := getElem_of_mem hr
  have hlen := h.length_eq
  exact ⟨gs[t], getElem_mem _, h.get (by omega) ht⟩

theorem exists_rule (hg : g ∈ gs) : ∃ r ∈ rules, Spans m g r := by
  obtain ⟨t, ht, rfl⟩ := getElem_of_mem hg
  have hlen := h.length_eq
  exact ⟨rules[t], getElem_mem _, h.get ht (by omega)⟩

end

theorem Spans.ends {r : RegRule} (h : Spans m g r) (hg : g ∈ m.groups) :
    ∃ a b, g.head? = some a ∧ g.getLast? = some b ∧ a ∈ g ∧ b ∈ g ∧
      (∀ i ∈ g, a ≤ i ∧ i ≤ b ∧ r.flags = m.regRuleFlags i ||| Rrf.autoBw.mask) ∧
      ∀ i < m.numOfCh, RegRule.covers r (m.centerFreq i) ↔ a ≤ i ∧ i ≤ b := by
  obtain ⟨a, b, ha, hb, hag, hbg, hbounds⟩ := exists_bounds hg
  refine ⟨a, b, ha, hb, hag, hbg, ?_, ?_⟩
  · intro i hi
    obtain ⟨hai, hib, hflags⟩ := hbounds i hi
    exact ⟨hai, hib, by rw [hflags]; exact h.flags b hb⟩
  · intro i hi
    exact h.covers_iff ha hb (mem_groups hg hag).1 (mem_groups hg hbg).1 hi

end groups

/-! ### The domain -/

section exact
variable {m : Mcc} {rules : List RegRule}

section
variable (h : List.Forall₂ (Spans m) m.groups rules)
include h

theorem groups_valid {i : ℕ} (hi : i < m.numOfCh) (hvalid : m.isValid i = true) :
    ∃ r ∈ rules, RegRule.covers r (m.centerFreq i) ∧
      r.flags = m.regRuleFlags i ||| Rrf.autoBw.mask := by
  have hmem : i ∈ m.groups.flatten := by
    rw [Mcc.groups, flatten_splitBy]
    exact Mcc.mem_validChannels.mpr ⟨hi, hvalid⟩
  obtain ⟨g, hg, hig⟩ := mem_flatten.mp hmem
  obtain ⟨r, hr, hspans⟩ := exists_rule h hg
  obtain ⟨a, b, -, -, -, -, hends, hcovers⟩ := hspans.ends hg
  obtain ⟨hai, hib, hflags⟩ := hends i hig
  exact ⟨r, hr, (hcovers i hi).mpr ⟨hai, hib⟩, hflags⟩

theorem groups_nonempty {r : RegRule} (hr : r ∈ rules) :
    r.freqRange.startFreq < r.freqRange.endFreq := by
  obtain ⟨g, hg, hspans⟩ := exists_group h hr
  obtain ⟨a, b, ha, hb, hag, hbg, hends, -⟩ := hspans.ends hg
  rw [hspans.start a ha, hspans.stop b hb]
  have hle := Mcc.centerFreq_le (hends b hbg).1 (mem_groups hg hbg).1
  omega

theorem groups_ascending :
    rules.Pairwise fun r r' => r.freqRange.startFreq < r'.freqRange.startFreq := by
  rw [pairwise_iff_getElem]
  intro s t hs ht hst
  have hlen := h.length_eq
  have hspans := h.get (i := s) (by omega) hs
  have hspans' := h.get (i := t) (by omega) ht
  have hg : m.groups[s] ∈ m.groups := getElem_mem _
  have hg' : m.groups[t] ∈ m.groups := getElem_mem _
  obtain ⟨a, -, ha, -, hag, -⟩ := exists_bounds hg
  obtain ⟨a', -, ha', -, hag', -⟩ := exists_bounds hg'
  have hlt := pairwise_iff_getElem.mp (groups_sorted m).2 s t (by omega) (by omega) hst
    a hag a' hag'
  have hfreq := Mcc.centerFreq_lt hlt (mem_groups hg' hag').1
  have hge := Mcc.centerFreq_ge (mem_groups hg hag).1
  have h₁ : rules[s].freqRange.startFreq = _ := hspans.start a ha
  have h₂ : rules[t].freqRange.startFreq = _ := hspans'.start a' ha'
  omega

theorem groups_invalid (hc : m.Contiguous) {i : ℕ} (hi : i < m.numOfCh)
    (hvalid : m.isValid i = false) {r : RegRule} (hr : r ∈ rules) :
    ¬RegRule.covers r (m.centerFreq i) := by
  intro hcov
  obtain ⟨g, hg, hspans⟩ := exists_group h hr
  obtain ⟨a, b, ha, hb, -, -, -, hcovers⟩ := hspans.ends hg
  obtain ⟨hai, hib⟩ := (hcovers i hi).mp hcov
  have hsucc : g.IsChain fun i j => j = i + 1 := by
    have hlinked := isChain_of_mem_splitBy hg
    rw [Mcc.Contiguous, ← flatten_splitBy m.linked m.validChannels,
      isChain_flatten (nil_notMem_splitBy _ _)] at hc
    have hcg := hc.1 g hg
    rw [isChain_iff_getElem] at hlinked hcg ⊢
    exact fun t ht => hcg t ht (hlinked t ht)
  have hig := mem_of_isChain_succ hsucc ha hb hai hib
  rw [(mem_groups hg hig).2] at hvalid
  cases hvalid

theorem contiguous_of_invalid
    (hinv : ∀ i < m.numOfCh, m.isValid i = false → ∀ r ∈ rules, ¬RegRule.covers r (m.centerFreq i)) :
    m.Contiguous := by
  have hnil : [] ∉ m.groups := nil_notMem_splitBy _ _
  have hflat : m.groups.flatten = m.validChannels := flatten_splitBy _ _
  have hnext := Mcc.isChain_validChannels m
  rw [← hflat, isChain_flatten hnil] at hnext
  rw [Mcc.Contiguous, ← hflat, isChain_flatten hnil]
  constructor
  · intro g hg
    have hng := hnext.1 g hg
    rw [isChain_iff_getElem] at hng ⊢
    intro t ht _
    obtain ⟨hlt, hbetween⟩ := hng t ht
    by_contra hne
    -- the channel after the first one is left out
    have hinvalid := hbetween (g[t] + 1) (by omega) (by omega)
    obtain ⟨r, hr, hspans⟩ := exists_rule h hg
    obtain ⟨a, b, -, -, -, -, hends, hcovers⟩ := hspans.ends hg
    have hlo := hends g[t] (getElem_mem _)
    have hhi := hends g[t + 1] (getElem_mem _)
    have hin := (mem_groups hg (getElem_mem ht)).1
    have hin' : g[t] + 1 < m.numOfCh := by omega
    exact hinv _ hin' hinvalid r hr ((hcovers _ hin').mpr (by omega))
  · -- the last channel of a group is not linked to the next one
    refine (isChain_getLast_head_splitBy m.linked m.validChannels).imp ?_
    rintro g g' ⟨hg, hg', hr⟩ x hx y hy hlinked
    rw [List.getLast?_eq_some_getLast hg] at hx
    rw [List.head?_eq_some_head hg'] at hy
    cases hx
    cases hy
    rw [hr] at hlinked
    cases hlinked

end

/-- **The domain is exact** if and only if channels that are put into one rule follow each other in
the table. -/
theorem mcc_info_exact_iff (m : Mcc) (queryWmm : UInt8 × UInt8 → ℕ → Option WmmRule) :
    ∃ regd status, parseNvmMccInfo m queryWmm = some (regd, status) ∧
      (Exact m regd.regRules ↔ m.Contiguous) := by
  refine ⟨_, _, if_neg (Nat.not_lt.mpr (Mcc.numOfCh_le_maxSuppRegRules m)), ?_⟩
  have hspec := parseLoop_spec m queryWmm
  split
  next hnil =>
    rw [hnil, forall₂_nil_right_iff] at hspec
    have hempty : m.validChannels = [] := splitBy_eq_nil.mp hspec
    have hinvalid : ∀ i < m.numOfCh, m.isValid i ≠ true := by
      intro i hi hv
      have hmem := Mcc.mem_validChannels.mpr ⟨hi, hv⟩
      rw [hempty] at hmem
      cases hmem
    refine ⟨fun _ => ?_, fun _ => ⟨fun i hi hv => absurd hv (hinvalid i hi), ?_, ?_, by simp⟩⟩
    · rw [Mcc.Contiguous, hempty]
      exact isChain_nil
    · -- the dummy rule is narrower than a channel
      intro i hi _ r hr hcov
      obtain rfl := mem_singleton.mp hr
      have hge := Mcc.centerFreq_ge hi
      have hstart : dummyRule.freqRange.startFreq = 2412000 := rfl
      have hstop : dummyRule.freqRange.endFreq = 2413000 := rfl
      unfold RegRule.covers at hcov
      omega
    · intro r hr
      obtain rfl := mem_singleton.mp hr
      decide
  · exact ⟨fun h => contiguous_of_invalid hspec h.invalid, fun h =>
      ⟨fun i hi hv => groups_valid hspec hi hv,
        fun i hi hv r hr => groups_invalid hspec h hi hv hr,
        fun r hr => groups_nonempty hspec hr, groups_ascending hspec⟩⟩

/-- A device with the larger table and this channel data, in a domain without further limits. -/
def mccOf (channels : List (BitVec 32)) : Mcc where
  cfg := ⟨true, true, true⟩
  channels := channels
  fwMcc := 0x3030#16
  geoInfo := 0
  cap := 0x10018#32
  respVer := 8

instance (r : RegRule) (centerFreq : ℕ) : Decidable (RegRule.covers r centerFreq) :=
  inferInstanceAs (Decidable (_ ∧ _))

/-- Channels 1 and 5 are valid and active, 2 to 4 are not; all five are inside of one rule. -/
theorem gap_covered : ∃ regd status,
    parseNvmMccInfo (mccOf [9, 0, 0, 0, 9]) (fun _ _ => none) = some (regd, status) ∧
      (mccOf [9, 0, 0, 0, 9]).isValid 1 = false ∧
      regd.regRules.map (fun r => (r.freqRange.startFreq, r.freqRange.endFreq)) =
        [(2402000, 2442000)] ∧
      ¬Exact (mccOf [9, 0, 0, 0, 9]) regd.regRules := by
  refine ⟨_, _, rfl, by decide, by decide +kernel, ?_⟩
  intro h
  refine h.invalid 1 (by decide) (by decide) (fillRule (mccOf [9, 0, 0, 0, 9]) (fun _ _ => none) 4
    (fillRule (mccOf [9, 0, 0, 0, 9]) (fun _ _ => none) 0 (startRule (mccOf [9, 0, 0, 0, 9]) 0)))
    ?_ ?_
  · decide +kernel
  · decide +kernel

end exact

end Iwlwifi.Nvm
