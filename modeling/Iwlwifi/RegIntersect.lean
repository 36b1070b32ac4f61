import Iwlwifi.Absorb

/-! # Intersection of regulatory domains

A model of `regdom_intersect` (`net/wireless/reg.c`), which computes the rules that two regulatory
domains have in common.

* **Rules** (`RegRule`).  A frequency range with a maximal bandwidth, power limits, flags, WMM
  parameters, the CAC time and a power spectral density.
* **One pair** (`regRulesIntersect`).  Field by field, into a variable on the stack that is not
  initialised: `psd` is never written.
* **All pairs** (`regdomIntersect`).  The valid intersections are added to a list that
  absorbs rules contained in others (`addRule`).
* `regdom_intersect_restrictive`: when the result is not more permissive than the two domains;
  `regdom_intersect_permissive`: two domains for which it is. -/

namespace Iwlwifi.Cfg80211

open List hiding Vector

/-! ### Rules -/

/-- `enum nl80211_reg_rule_flags`. -/
inductive Rrf
  | noOfdm
  | noCck
  | noIndoor
  | noOutdoor
  | dfs
  | ptpOnly
  | ptmpOnly
  | noIr
  | noIbss
  | autoBw
  | irConcurrent
  | noHt40minus
  | noHt40plus
  | no80mhz
  | no160mhz
  | noHe
  | no320mhz
  | noEht
  | psd
  | dfsConcurrent
  | no6ghzVlpClient
  | no6ghzAfcClient
  | allow6ghzVlpAp
  | allow20mhzActivity
  | noUhr
deriving DecidableEq, Repr

def Rrf.bit : Rrf → ℕ
  | noOfdm => 0
  | noCck => 1
  | noIndoor => 2
  | noOutdoor => 3
  | dfs => 4
  | ptpOnly => 5
  | ptmpOnly => 6
  | noIr => 7
  | noIbss => 8
  | autoBw => 11
  | irConcurrent => 12
  | noHt40minus => 13
  | noHt40plus => 14
  | no80mhz => 15
  | no160mhz => 16
  | noHe => 17
  | no320mhz => 18
  | noEht => 19
  | psd => 20
  | dfsConcurrent => 21
  | no6ghzVlpClient => 22
  | no6ghzAfcClient => 23
  | allow6ghzVlpAp => 24
  | allow20mhzActivity => 25
  | noUhr => 26

def Rrf.mask (f : Rrf) : BitVec 32 := BitVec.twoPow 32 f.bit

def Rrf.permission : Rrf → Bool
  | irConcurrent | dfsConcurrent | allow6ghzVlpAp | allow20mhzActivity => true
  | _ => false

def Rrf.restriction : Rrf → Bool
  | autoBw | psd => false
  | f => !f.permission

/-- `struct ieee80211_freq_range`, in kHz. -/
structure FreqRange where
  startFreq : ℕ
  endFreq : ℕ
  maxBandwidth : ℕ
deriving DecidableEq, Repr

/-- `struct ieee80211_power_rule`. -/
structure PowerRule where
  maxAntennaGain : ℕ
  maxEirp : ℕ
deriving DecidableEq, Repr

/-- `struct ieee80211_wmm_ac`. -/
structure WmmAc where
  cwMin : ℕ
  cwMax : ℕ
  cot : ℕ
  aifsn : ℕ
deriving DecidableEq, Repr

/-- `struct ieee80211_wmm_rule`, for the four access categories. -/
structure WmmRule where
  client : Vector WmmAc 4
  ap : Vector WmmAc 4
deriving DecidableEq, Repr

/-- `struct ieee80211_reg_rule`. -/
structure RegRule where
  freqRange : FreqRange
  powerRule : PowerRule
  wmmRule : WmmRule
  flags : BitVec 32
  dfsCacMs : ℕ
  hasWmm : Bool
  psd : ℤ
deriving DecidableEq, Repr

/-- `NL80211_DFS_UNSET`. -/
def dfsUnset : UInt8 := 0

/-- `struct ieee80211_regdomain`. -/
structure Regdomain where
  alpha2 : UInt8 × UInt8
  dfsRegion : UInt8
  regRules : List RegRule
deriving DecidableEq, Repr

/-- `rule->flags & flag`. -/
def RegRule.has (r : RegRule) (f : Rrf) : Bool := r.flags &&& f.mask ≠ 0

def subU32 (a b : ℕ) : ℕ := (a + 2 ^ 32 - b) % 2 ^ 32

/-! ### Validity -/

/-- `is_valid_reg_rule`. -/
def isValidRegRule (rule : RegRule) : Bool :=
  let r := rule.freqRange
  if r.startFreq = 0 ∨ r.endFreq = 0 then false
  else if r.endFreq < r.startFreq then false
  else if r.endFreq ≤ r.startFreq ∨ subU32 r.endFreq r.startFreq < r.maxBandwidth then false
  else true

/-- `NL80211_MAX_SUPP_REG_RULES`. -/
def maxSuppRegRules : ℕ := 128

/-- `is_valid_rd`. -/
def isValidRd (rd : Regdomain) : Bool :=
  if rd.regRules.length = 0 then false
  else if maxSuppRegRules < rd.regRules.length then false
  else rd.regRules.all isValidRegRule

/-! ### Bandwidth -/

/-- The rules before a rule, next one first, as long as they follow each other without a gap. -/
def contiguousStart (r : FreqRange) : List RegRule → FreqRange
  | [] => r
  | tmp :: rest =>
    if tmp.freqRange.endFreq < r.startFreq then r else contiguousStart tmp.freqRange rest

/-- The rules after a rule, as long as they follow each other without a gap. -/
def contiguousEnd (r : FreqRange) : List RegRule → FreqRange
  | [] => r
  | tmp :: rest =>
    if r.endFreq < tmp.freqRange.startFreq then r else contiguousEnd tmp.freqRange rest

/-- `reg_get_max_bandwidth_from_range`, of the rule with number `idx`. -/
def regGetMaxBandwidthFromRange (rd : Regdomain) (rule : RegRule) (idx : ℕ) : ℕ :=
  if rd.regRules.length ≤ idx then 0
  else
    let startFreq := (contiguousStart rule.freqRange (rd.regRules.take idx).reverse).startFreq
    let endFreq := (contiguousEnd rule.freqRange (rd.regRules.drop (idx + 1))).endFreq
    subU32 endFreq startFreq

/-- `reg_get_max_bandwidth`. -/
def regGetMaxBandwidth (rd : Regdomain) (rule : RegRule) (idx : ℕ) : ℕ :=
  let bw := regGetMaxBandwidthFromRange rd rule idx
  let bw := if rule.has .no320mhz then min bw 160000 else bw
  let bw := if rule.has .no160mhz then min bw 80000 else bw
  let bw := if rule.has .no80mhz then min bw 40000 else bw
  if rule.has .noHt40minus ∧ rule.has .noHt40plus then min bw 20000 else bw

def allowedBandwidth (rd : Regdomain) (rule : RegRule) (idx : ℕ) : ℕ :=
  if rule.has .autoBw then regGetMaxBandwidth rd rule idx else rule.freqRange.maxBandwidth

/-! ### Intersection -/

/-- `reg_intersect_dfs_region`. -/
def regIntersectDfsRegion (r₁ r₂ : UInt8) : UInt8 := if r₁ ≠ r₂ then dfsUnset else r₁

/-- `reg_wmm_rules_intersect`. -/
def regWmmRulesIntersect (a b : WmmAc) : WmmAc where
  cwMin := max a.cwMin b.cwMin
  cwMax := max a.cwMax b.cwMax
  cot := min a.cot b.cot
  aifsn := max a.aifsn b.aifsn

/-- The WMM parameters in `reg_rules_intersect`; `old` is what the variable holds. -/
def intersectWmm (rule₁ rule₂ : RegRule) (old : WmmRule) : WmmRule :=
  if rule₁.hasWmm ∧ rule₂.hasWmm then
    { client := rule₁.wmmRule.client.zipWith regWmmRulesIntersect rule₂.wmmRule.client
      ap := rule₁.wmmRule.ap.zipWith regWmmRulesIntersect rule₂.wmmRule.ap }
  else if rule₁.hasWmm then rule₁.wmmRule
  else if rule₂.hasWmm then rule₂.wmmRule
  else old

def intersectFlags (rule₁ rule₂ : RegRule) : BitVec 32 :=
  let flags := rule₁.flags ||| rule₂.flags
  if rule₁.has .autoBw ∧ rule₂.has .autoBw then flags ||| Rrf.autoBw.mask
  else flags &&& ~~~Rrf.autoBw.mask

def intersectRange (r₁ r₂ : FreqRange) (maxBandwidth₁ maxBandwidth₂ : ℕ) : FreqRange :=
  let startFreq := max r₁.startFreq r₂.startFreq
  let endFreq := min r₁.endFreq r₂.endFreq
  let maxBandwidth := min maxBandwidth₁ maxBandwidth₂
  let freqDiff := subU32 endFreq startFreq
  { startFreq := startFreq
    endFreq := endFreq
    maxBandwidth := if freqDiff < maxBandwidth then freqDiff else maxBandwidth }

/-- `reg_rules_intersect`, of the rules with numbers `x` and `y`.  Returns whether the intersection
is valid, and what `old` has become. -/
def regRulesIntersect (rd₁ rd₂ : Regdomain) (rule₁ rule₂ : RegRule) (x y : ℕ) (old : RegRule) :
    Bool × RegRule :=
  let rule : RegRule :=
    { freqRange := intersectRange rule₁.freqRange rule₂.freqRange (allowedBandwidth rd₁ rule₁ x)
        (allowedBandwidth rd₂ rule₂ y)
      powerRule :=
        { maxAntennaGain := min rule₁.powerRule.maxAntennaGain rule₂.powerRule.maxAntennaGain
          maxEirp := min rule₁.powerRule.maxEirp rule₂.powerRule.maxEirp }
      wmmRule := intersectWmm rule₁ rule₂ old.wmmRule
      flags := intersectFlags rule₁ rule₂
      dfsCacMs := max rule₁.dfsCacMs rule₂.dfsCacMs
      hasWmm := rule₁.hasWmm || rule₂.hasWmm
      psd := old.psd }
  (isValidRegRule rule, rule)

/-- `rule_contains`. -/
def ruleContains (r₁ r₂ : RegRule) : Bool :=
  if r₁.flags ≠ r₂.flags then false
  else if r₂.powerRule.maxAntennaGain < r₁.powerRule.maxAntennaGain ∨
      r₂.powerRule.maxEirp < r₁.powerRule.maxEirp then false
  else if r₂.freqRange.startFreq < r₁.freqRange.startFreq ∨
      r₁.freqRange.endFreq < r₂.freqRange.endFreq then false
  else if r₁.freqRange.maxBandwidth < r₂.freqRange.maxBandwidth then false
  else true

/-- `add_rule`. -/
def addRule (rule : RegRule) (regRules : List RegRule) : List RegRule :=
  absorb ruleContains rule regRules

/-- The pairs of rules with their numbers, in the order of the loops. -/
def rulePairs (rd₁ rd₂ : Regdomain) : List ((RegRule × ℕ) × RegRule × ℕ) :=
  rd₁.regRules.zipIdx ×ˢ rd₂.regRules.zipIdx

/-- `reg_rules_intersect` of a pair. -/
def intersectPair (rd₁ rd₂ : Regdomain) (p : (RegRule × ℕ) × RegRule × ℕ) (old : RegRule) :
    Bool × RegRule :=
  regRulesIntersect rd₁ rd₂ p.1.1 p.2.1 p.1.2 p.2.2 old

def countPair (rd₁ rd₂ : Regdomain) (s : ℕ × RegRule) (p : (RegRule × ℕ) × RegRule × ℕ) :
    ℕ × RegRule :=
  let r := intersectPair rd₁ rd₂ p s.2
  (if r.1 then s.1 + 1 else s.1, r.2)

def addPair (rd₁ rd₂ : Regdomain) (s : List RegRule × RegRule)
    (p : (RegRule × ℕ) × RegRule × ℕ) : List RegRule × RegRule :=
  let r := intersectPair rd₁ rd₂ p s.2
  (if r.1 then addRule r.2 s.1 else s.1, r.2)

/-- `regdom_intersect`.  `stack` is what `intersected_rule` holds at the start, `alloc` the success
of the allocation. -/
def regdomIntersect (alloc : Bool) (stack : RegRule) :
    Option Regdomain → Option Regdomain → Option Regdomain
  | some rd₁, some rd₂ =>
    let counted := (rulePairs rd₁ rd₂).foldl (countPair rd₁ rd₂) (0, stack)
    if counted.1 = 0 then none
    else if alloc = false then none
    else
      some {
        alpha2 := (57, 56)
        dfsRegion := regIntersectDfsRegion rd₁.dfsRegion rd₂.dfsRegion
        regRules := ((rulePairs rd₁ rd₂).foldl (addPair rd₁ rd₂) ([], counted.2)).1 }
  | _, _ => none

/-! ### Flags -/

theorem RegRule.has_eq (r : RegRule) (f : Rrf) : r.has f = r.flags.getLsbD f.bit := by
  have hbit : f.bit < 32 := by cases f <;> decide
  have hne : BitVec.twoPow 32 f.bit ≠ 0#32 := by
    intro hzero
    have hlsb := congrArg (fun v => v.getLsbD f.bit) hzero
    simp [hbit] at hlsb
  unfold RegRule.has Rrf.mask
  rw [BitVec.and_twoPow]
  cases r.flags.getLsbD f.bit with
  | true => simp [hne]
  | false => simp

variable {rd₁ rd₂ : Regdomain} {rule₁ rule₂ old : RegRule} {x y : ℕ}

theorem has_intersect {f : Rrf} (hf : f ≠ .autoBw) :
    (regRulesIntersect rd₁ rd₂ rule₁ rule₂ x y old).2.has f = (rule₁.has f || rule₂.has f) := by
  have hbit : Rrf.autoBw.bit ≠ f.bit := by
    cases f <;> first | exact absurd rfl hf | decide
  have hlt : f.bit < 32 := by cases f <;> decide
  rw [RegRule.has_eq, RegRule.has_eq, RegRule.has_eq, regRulesIntersect, intersectFlags]
  split
  · simp [Rrf.mask, hbit]
  · simp [Rrf.mask, hlt, hbit.symm]

theorem Rrf.ne_autoBw_of_permission {f : Rrf} (h : f.permission = true) : f ≠ .autoBw := by
  rintro rfl
  cases h

theorem Rrf.ne_autoBw_of_restriction {f : Rrf} (h : f.restriction = true) : f ≠ .autoBw := by
  rintro rfl
  cases h

/-! ### One pair -/

theorem isValidRegRule_iff (r : RegRule) : isValidRegRule r = true ↔
    0 < r.freqRange.startFreq ∧ r.freqRange.startFreq < r.freqRange.endFreq ∧
      r.freqRange.maxBandwidth ≤ subU32 r.freqRange.endFreq r.freqRange.startFreq := by
  unfold isValidRegRule
  dsimp only
  split
  · simp only [Bool.false_eq_true, false_iff]
    omega
  split
  · simp only [Bool.false_eq_true, false_iff]
    omega
  split
  · simp only [Bool.false_eq_true, false_iff]
    omega
  · simp only [true_iff]
    omega

def Overlap (a b : RegRule) : Prop :=
  max a.freqRange.startFreq b.freqRange.startFreq < min a.freqRange.endFreq b.freqRange.endFreq

theorem valid_intersect (h₁ : isValidRegRule rule₁ = true) :
    (regRulesIntersect rd₁ rd₂ rule₁ rule₂ x y old).1 = true ↔ Overlap rule₁ rule₂ := by
  have hstart := ((isValidRegRule_iff rule₁).mp h₁).1
  unfold regRulesIntersect Overlap
  rw [isValidRegRule_iff]
  dsimp only [intersectRange]
  constructor
  · exact fun h => h.2.1
  intro h
  refine ⟨hstart.trans_le (le_max_left _ _), h, ?_⟩
  split
  · exact le_rfl
  · exact not_lt.mp ‹_›

structure Allows (rd : Regdomain) (a : RegRule × ℕ) (r : RegRule) : Prop where
  startFreq : a.1.freqRange.startFreq ≤ r.freqRange.startFreq
  endFreq : r.freqRange.endFreq ≤ a.1.freqRange.endFreq
  maxBandwidth : r.freqRange.maxBandwidth ≤ allowedBandwidth rd a.1 a.2
  maxEirp : r.powerRule.maxEirp ≤ a.1.powerRule.maxEirp
  maxAntennaGain : r.powerRule.maxAntennaGain ≤ a.1.powerRule.maxAntennaGain
  dfsCacMs : a.1.dfsCacMs ≤ r.dfsCacMs
  restriction : ∀ f : Rrf, f.restriction = true → a.1.has f = true → r.has f = true
  permission : ∀ f : Rrf, f.permission = true → r.has f = true → a.1.has f = true
  psd : r.has .psd = true → a.1.has .psd = true → r.psd ≤ a.1.psd

/-- The rules grant the same permissions, and a power spectral density of `psd` is allowed. -/
structure Compatible (psd : ℤ) (a b : RegRule) : Prop where
  permission : ∀ f : Rrf, f.permission = true → a.has f = b.has f
  psd₁ : a.has .psd = true → psd ≤ a.psd
  psd₂ : b.has .psd = true → psd ≤ b.psd

theorem maxBandwidth_intersectRange (r₁ r₂ : FreqRange) (w₁ w₂ : ℕ) :
    (intersectRange r₁ r₂ w₁ w₂).maxBandwidth ≤ min w₁ w₂ := by
  unfold intersectRange
  dsimp only
  split
  · omega
  · exact le_rfl

theorem allows_intersect (h : Compatible old.psd rule₁ rule₂) :
    Allows rd₁ (rule₁, x) (regRulesIntersect rd₁ rd₂ rule₁ rule₂ x y old).2 ∧
      Allows rd₂ (rule₂, y) (regRulesIntersect rd₁ rd₂ rule₁ rule₂ x y old).2 := by
  have hbw := maxBandwidth_intersectRange rule₁.freqRange rule₂.freqRange
    (allowedBandwidth rd₁ rule₁ x) (allowedBandwidth rd₂ rule₂ y)
  have hrestriction : ∀ f : Rrf, f.restriction = true → (rule₁.has f || rule₂.has f) = true →
      (regRulesIntersect rd₁ rd₂ rule₁ rule₂ x y old).2.has f = true := by
    intro f hf hor
    rw [has_intersect (Rrf.ne_autoBw_of_restriction hf), hor]
  have hpermission : ∀ f : Rrf, f.permission = true →
      (regRulesIntersect rd₁ rd₂ rule₁ rule₂ x y old).2.has f = rule₁.has f := by
    intro f hf
    rw [has_intersect (Rrf.ne_autoBw_of_permission hf), h.permission f hf, Bool.or_self]
  constructor
  · exact {
      startFreq := le_max_left _ _
      endFreq := min_le_left _ _
      maxBandwidth := hbw.trans (min_le_left _ _)
      maxEirp := min_le_left _ _
      maxAntennaGain := min_le_left _ _
      dfsCacMs := le_max_left _ _
      restriction := fun f hf ha => hrestriction f hf (by rw [ha, Bool.true_or])
      permission := fun f hf hr => hpermission f hf ▸ hr
      psd := fun _ ha => h.psd₁ ha }
  · exact {
      startFreq := le_max_right _ _
      endFreq := min_le_right _ _
      maxBandwidth := hbw.trans (min_le_right _ _)
      maxEirp := min_le_right _ _
      maxAntennaGain := min_le_right _ _
      dfsCacMs := le_max_right _ _
      restriction := fun f hf hb => hrestriction f hf (by rw [hb, Bool.or_true])
      permission := fun f hf hr => h.permission f hf ▸ hpermission f hf ▸ hr
      psd := fun _ hb => h.psd₂ hb }

/-! ### All pairs -/

/-- The flags are the same and the range is not smaller. -/
structure Covers (r s : RegRule) : Prop where
  flags : r.flags = s.flags
  startFreq : r.freqRange.startFreq ≤ s.freqRange.startFreq
  endFreq : s.freqRange.endFreq ≤ r.freqRange.endFreq

theorem Covers.refl (r : RegRule) : Covers r r := ⟨rfl, le_rfl, le_rfl⟩

theorem Covers.trans {r s t : RegRule} (h : Covers r s) (h' : Covers s t) : Covers r t :=
  ⟨h.flags.trans h'.flags, h.startFreq.trans h'.startFreq, h'.endFreq.trans h.endFreq⟩

theorem Covers.has {r s : RegRule} (h : Covers r s) (f : Rrf) : r.has f = s.has f := by
  rw [RegRule.has, h.flags, RegRule.has]

theorem covers_of_ruleContains (r s : RegRule) (h : ruleContains r s = true) : Covers r s := by
  unfold ruleContains at h
  split at h
  · cases h
  rename_i hflags
  split at h
  · cases h
  split at h
  · cases h
  next hrange => exact ⟨not_not.mp hflags, by omega, by omega⟩

/-- What the variable held before matters only for `psd` and the WMM parameters. -/
theorem covers_intersectPair (p : (RegRule × ℕ) × RegRule × ℕ) (old old' : RegRule) :
    Covers (intersectPair rd₁ rd₂ p old).2 (intersectPair rd₁ rd₂ p old').2 :=
  ⟨rfl, le_rfl, le_rfl⟩

variable {l : List ((RegRule × ℕ) × RegRule × ℕ)}

theorem foldl_countPair (rd₁ rd₂ : Regdomain) (n : ℕ) (old : RegRule) :
    (l.foldl (countPair rd₁ rd₂) (n, old)).2.psd = old.psd ∧
      n ≤ (l.foldl (countPair rd₁ rd₂) (n, old)).1 ∧
      ((∃ p ∈ l, (intersectPair rd₁ rd₂ p old).1 = true) →
        n < (l.foldl (countPair rd₁ rd₂) (n, old)).1) := by
  induction l generalizing n old with
  | nil => exact ⟨rfl, le_rfl, fun ⟨_, hp, _⟩ => absurd hp not_mem_nil⟩
  | cons q l ih =>
    rw [foldl_cons, countPair]
    dsimp only
    by_cases hq : (intersectPair rd₁ rd₂ q old).1 = true
    · rw [if_pos hq]
      obtain ⟨hpsd, hle, -⟩ := ih (n + 1) (intersectPair rd₁ rd₂ q old).2
      exact ⟨hpsd, by omega, fun _ => by omega⟩
    rw [if_neg hq]
    obtain ⟨hpsd, hle, hlt⟩ := ih n (intersectPair rd₁ rd₂ q old).2
    refine ⟨hpsd, hle, ?_⟩
    rintro ⟨p, hp, hvalid⟩
    rcases mem_cons.mp hp with rfl | hp
    · exact absurd hvalid hq
    · exact hlt ⟨p, hp, hvalid⟩

theorem mem_foldl_addPair (rules : List RegRule) (old : RegRule) :
    ∀ r ∈ (l.foldl (addPair rd₁ rd₂) (rules, old)).1, r ∈ rules ∨
      ∃ p ∈ l, ∃ old', old'.psd = old.psd ∧ intersectPair rd₁ rd₂ p old' = (true, r) := by
  induction l generalizing rules old with
  | nil => exact fun r hr => .inl hr
  | cons q l ih =>
    intro r hr
    rw [foldl_cons, addPair] at hr
    rcases ih _ _ r hr with hmem | ⟨p, hp, old', hpsd, heq⟩
    · split at hmem
      next hvalid =>
        rcases mem_absorb hmem with rfl | hmem
        · exact .inr ⟨q, .head _, old, rfl, Prod.ext hvalid rfl⟩
        · exact .inl hmem
      · exact .inl hmem
    · exact .inr ⟨p, .tail _ hp, old', hpsd, heq⟩

theorem covers_foldl_addPair (rd₁ rd₂ : Regdomain) (rules : List RegRule) (old : RegRule) :
    (∀ r ∈ rules, ∃ t ∈ (l.foldl (addPair rd₁ rd₂) (rules, old)).1, Covers t r) ∧
      ∀ p ∈ l, (intersectPair rd₁ rd₂ p old).1 = true →
        ∃ t ∈ (l.foldl (addPair rd₁ rd₂) (rules, old)).1, Covers t (intersectPair rd₁ rd₂ p old).2 := by
  induction l generalizing rules old with
  | nil => exact ⟨fun r hr => ⟨r, hr, Covers.refl r⟩, fun _ hp => absurd hp not_mem_nil⟩
  | cons q l ih =>
    rw [foldl_cons, addPair]
    by_cases hq : (intersectPair rd₁ rd₂ q old).1 = true
    · rw [if_pos hq]
      obtain ⟨hrules, hpairs⟩ := ih (addRule (intersectPair rd₁ rd₂ q old).2 rules)
        (intersectPair rd₁ rd₂ q old).2
      constructor
      · intro r hr
        obtain ⟨u, hu, hur⟩ := absorb_covers_mem (x := (intersectPair rd₁ rd₂ q old).2) Covers.refl
          covers_of_ruleContains hr
        obtain ⟨t, ht, htu⟩ := hrules u hu
        exact ⟨t, ht, htu.trans hur⟩
      intro p hp hvalid
      rcases mem_cons.mp hp with rfl | hp
      · obtain ⟨u, hu, hur⟩ := absorb_covers_self (l := rules) Covers.refl covers_of_ruleContains
        obtain ⟨t, ht, htu⟩ := hrules u hu
        exact ⟨t, ht, htu.trans hur⟩
      · obtain ⟨t, ht, htp⟩ := hpairs p hp hvalid
        exact ⟨t, ht, htp.trans (covers_intersectPair p _ old)⟩
    · rw [if_neg hq]
      obtain ⟨hrules, hpairs⟩ := ih rules (intersectPair rd₁ rd₂ q old).2
      refine ⟨hrules, ?_⟩
      intro p hp hvalid
      rcases mem_cons.mp hp with rfl | hp
      · exact absurd hvalid hq
      · obtain ⟨t, ht, htp⟩ := hpairs p hp hvalid
        exact ⟨t, ht, htp.trans (covers_intersectPair p _ old)⟩

/-! ### The result -/

structure Restrictive (rd₁ rd₂ : Regdomain) (res : Option Regdomain) : Prop where
  allowed : ∀ rd ∈ res, ∀ r ∈ rd.regRules, ∃ a ∈ rd₁.regRules.zipIdx, ∃ b ∈ rd₂.regRules.zipIdx,
    Allows rd₁ a r ∧ Allows rd₂ b r
  covered : ∀ a ∈ rd₁.regRules, ∀ b ∈ rd₂.regRules, Overlap a b → ∀ freq,
    a.freqRange.startFreq ≤ freq → freq ≤ a.freqRange.endFreq →
    b.freqRange.startFreq ≤ freq → freq ≤ b.freqRange.endFreq →
    ∃ rd ∈ res, ∃ r ∈ rd.regRules, r.freqRange.startFreq ≤ freq ∧ freq ≤ r.freqRange.endFreq

def RulesDisjoint (rd : Regdomain) : Prop := rd.regRules.Pairwise fun a b => ¬ Overlap a b

variable {stack : RegRule}

theorem mem_regdomIntersect {alloc : Bool} {rd : Regdomain}
    (h : regdomIntersect alloc stack (some rd₁) (some rd₂) = some rd) :
    ∀ r ∈ rd.regRules, ∃ a ∈ rd₁.regRules.zipIdx, ∃ b ∈ rd₂.regRules.zipIdx, ∃ old,
      old.psd = stack.psd ∧ intersectPair rd₁ rd₂ (a, b) old = (true, r) := by
  unfold regdomIntersect at h
  dsimp only at h
  split at h
  · cases h
  split at h
  · cases h
  cases h
  intro r hr
  rcases mem_foldl_addPair _ _ r hr with hr | ⟨⟨a, b⟩, hp, old, hpsd, heq⟩
  · cases hr
  · obtain ⟨ha, hb⟩ := mem_product.mp hp
    exact ⟨a, ha, b, hb, old, hpsd.trans (foldl_countPair rd₁ rd₂ 0 stack).1, heq⟩

theorem isValidRegRule_of_mem {rd : Regdomain} (h : isValidRd rd = true) :
    ∀ r ∈ rd.regRules, isValidRegRule r = true := by
  unfold isValidRd at h
  split at h
  · cases h
  · split at h
    · cases h
    · exact all_eq_true.mp h

theorem covers_regdomIntersect (h₁ : isValidRd rd₁ = true) {a b : RegRule}
    (ha : a ∈ rd₁.regRules) (hb : b ∈ rd₂.regRules) (hover : Overlap a b) :
    ∃ rd, regdomIntersect true stack (some rd₁) (some rd₂) = some rd ∧
      ∃ r ∈ rd.regRules, ∃ x y, Covers r (regRulesIntersect rd₁ rd₂ a b x y stack).2 := by
  obtain ⟨x, hx⟩ := mem_iff_getElem?.mp ha
  obtain ⟨y, hy⟩ := mem_iff_getElem?.mp hb
  have hp : ((a, x), b, y) ∈ rulePairs rd₁ rd₂ :=
    mem_product.mpr ⟨mem_zipIdx_iff_getElem?.mpr hx, mem_zipIdx_iff_getElem?.mpr hy⟩
  have hvalid : (intersectPair rd₁ rd₂ ((a, x), b, y) stack).1 = true :=
    (valid_intersect (isValidRegRule_of_mem h₁ a ha)).mpr hover
  have hpos := (foldl_countPair rd₁ rd₂ 0 stack).2.2 ⟨_, hp, hvalid⟩
  unfold regdomIntersect
  dsimp only
  rw [if_neg hpos.ne', if_neg (by decide)]
  refine ⟨_, rfl, ?_⟩
  obtain ⟨t, ht, htp⟩ := (covers_foldl_addPair rd₁ rd₂ []
    ((rulePairs rd₁ rd₂).foldl (countPair rd₁ rd₂) (0, stack)).2).2 _ hp hvalid
  exact ⟨t, ht, x, y, htp.trans (covers_intersectPair _ _ stack)⟩

theorem RulesDisjoint.eq {rd : Regdomain} (h : RulesDisjoint rd) {a b : RegRule}
    (ha : a ∈ rd.regRules) (hb : b ∈ rd.regRules) (hab : Overlap a b) : a = b := by
  have hsymm : Std.Symm fun u v : RegRule => ¬ Overlap u v := by
    refine ⟨fun u v huv hvu => huv ?_⟩
    rwa [Overlap, max_comm, min_comm]
  by_contra hne
  exact h.forall ha hb hne hab

theorem restrictive_of_compatible (h₁ : isValidRd rd₁ = true)
    (hcomp : ∀ a ∈ rd₁.regRules, ∀ b ∈ rd₂.regRules, Overlap a b → Compatible stack.psd a b) :
    Restrictive rd₁ rd₂ (regdomIntersect true stack (some rd₁) (some rd₂)) := by
  refine ⟨?_, ?_⟩
  · intro rd hrd r hr
    obtain ⟨a, ha, b, hb, old, hpsd, heq⟩ := mem_regdomIntersect hrd r hr
    have hok : (intersectPair rd₁ rd₂ (a, b) old).1 = true := by rw [heq]
    have hr' : (intersectPair rd₁ rd₂ (a, b) old).2 = r := by rw [heq]
    have hover := (valid_intersect (isValidRegRule_of_mem h₁ a.1 (fst_mem_of_mem_zipIdx ha))).mp hok
    have hab := hcomp a.1 (fst_mem_of_mem_zipIdx ha) b.1 (fst_mem_of_mem_zipIdx hb) hover
    rw [← hpsd] at hab
    exact ⟨a, ha, b, hb, hr' ▸ allows_intersect hab⟩
  · intro a ha b hb hover freq ha₁ ha₂ hb₁ hb₂
    obtain ⟨rd, hrd, r, hr, x, y, hcov⟩ := covers_regdomIntersect h₁ ha hb hover
    exact ⟨rd, hrd, r, hr, hcov.startFreq.trans (max_le ha₁ hb₁),
      (le_min ha₂ hb₂).trans hcov.endFreq⟩

/-- A rule that allows what covers the overlap of `a` and `b` contains the overlap. -/
theorem Allows.overlap {rd : Regdomain} {u : RegRule × ℕ} {a b r : RegRule} (h : Allows rd u r)
    (hcov : Covers r (regRulesIntersect rd₁ rd₂ a b x y old).2) (hab : Overlap a b) :
    Overlap u.1 a ∧ Overlap u.1 b := by
  have hstart : r.freqRange.startFreq ≤ max a.freqRange.startFreq b.freqRange.startFreq :=
    hcov.startFreq
  have hend : min a.freqRange.endFreq b.freqRange.endFreq ≤ r.freqRange.endFreq := hcov.endFreq
  have hs := h.startFreq
  have he := h.endFreq
  unfold Overlap at hab ⊢
  omega

/-- If a rule has the flags of the intersection of `a` and `b` and both allow it, they are
compatible. -/
theorem compatible_of_allows {a b r : RegRule} {m n : ℕ}
    (hcov : Covers r (regRulesIntersect rd₁ rd₂ a b x y old).2) (ha : Allows rd₁ (a, m) r)
    (hb : Allows rd₂ (b, n) r) : Compatible r.psd a b := by
  have hhas : ∀ f : Rrf, f ≠ .autoBw → r.has f = (a.has f || b.has f) := fun f hf =>
    (hcov.has f).trans (has_intersect hf)
  refine ⟨fun f hf => ?_, fun hpa => ?_, fun hpb => ?_⟩
  · have hr := hhas f (Rrf.ne_autoBw_of_permission hf)
    cases hfa : a.has f with
    | true => exact (hb.permission f hf (by rw [hr, hfa, Bool.true_or])).symm
    | false =>
      cases hfb : b.has f with
      | false => rfl
      | true =>
        have htrue := ha.permission f hf (by rw [hr, hfb, Bool.or_true])
        exact absurd htrue (by rw [hfa]; exact Bool.false_ne_true)
  · exact ha.psd (by rw [hhas .psd (by decide), hpa, Bool.true_or]) hpa
  · exact hb.psd (by rw [hhas .psd (by decide), hpb, Bool.or_true]) hpb

theorem compatible_of_restrictive (h₁ : isValidRd rd₁ = true) (hd₁ : RulesDisjoint rd₁)
    (hd₂ : RulesDisjoint rd₂)
    (hres : Restrictive rd₁ rd₂ (regdomIntersect true stack (some rd₁) (some rd₂))) {a b : RegRule}
    (ha : a ∈ rd₁.regRules) (hb : b ∈ rd₂.regRules) (hover : Overlap a b) :
    Compatible stack.psd a b := by
  obtain ⟨rd, hrd, r, hr, x, y, hcov⟩ := covers_regdomIntersect h₁ ha hb hover
  obtain ⟨⟨a', x'⟩, ha', ⟨b', y'⟩, hb', halla, hallb⟩ := hres.allowed rd hrd r hr
  -- the rules that allow the result contain the overlap and are therefore `a` and `b`
  have haa : a' = a := hd₁.eq (fst_mem_of_mem_zipIdx ha') ha (halla.overlap hcov hover).1
  have hbb : b' = b := hd₂.eq (fst_mem_of_mem_zipIdx hb') hb (hallb.overlap hcov hover).2
  subst haa hbb
  obtain ⟨_, _, _, _, old, hpsd, heq⟩ := mem_regdomIntersect hrd r hr
  have hrpsd : r.psd = stack.psd := (congrArg (fun q => q.2.psd) heq).symm.trans hpsd
  rw [← hrpsd]
  exact compatible_of_allows hcov halla hallb

/-- **Intersection.**  If overlapping rules of two domains grant the same permissions and the
uninitialised `psd` is not above theirs, the intersection is not more permissive than the two
domains.  If the rules of each domain do not overlap, it is so only then. -/
theorem regdom_intersect_restrictive (h₁ : isValidRd rd₁ = true) (stack : RegRule) :
    ((∀ a ∈ rd₁.regRules, ∀ b ∈ rd₂.regRules, Overlap a b → Compatible stack.psd a b) →
      Restrictive rd₁ rd₂ (regdomIntersect true stack (some rd₁) (some rd₂))) ∧
    (RulesDisjoint rd₁ → RulesDisjoint rd₂ →
      Restrictive rd₁ rd₂ (regdomIntersect true stack (some rd₁) (some rd₂)) →
      ∀ a ∈ rd₁.regRules, ∀ b ∈ rd₂.regRules, Overlap a b → Compatible stack.psd a b) :=
  ⟨restrictive_of_compatible h₁, fun hd₁ hd₂ hres _ ha _ hb =>
    compatible_of_restrictive h₁ hd₁ hd₂ hres ha hb⟩

def zeroRule : RegRule where
  freqRange := ⟨0, 0, 0⟩
  powerRule := ⟨0, 0⟩
  wmmRule := ⟨Vector.replicate 4 ⟨0, 0, 0, 0⟩, Vector.replicate 4 ⟨0, 0, 0, 0⟩⟩
  flags := 0
  dfsCacMs := 0
  hasWmm := false
  psd := 0

def simpleRule (range : FreqRange) (eirp : ℕ) (flags : BitVec 32) (psd : ℤ) : RegRule :=
  { zeroRule with freqRange := range, powerRule := ⟨0, eirp⟩, flags := flags, psd := psd }

def domainA : Regdomain where
  alpha2 := (65, 65)
  dfsRegion := 2
  regRules := [simpleRule ⟨2402000, 2482000, 40000⟩ 2000 0 0,
    simpleRule ⟨5170000, 5250000, 80000⟩ 2000 Rrf.noOutdoor.mask 0]

def domainB : Regdomain where
  alpha2 := (66, 66)
  dfsRegion := 2
  regRules := [simpleRule ⟨5150000, 5350000, 160000⟩ 2300 Rrf.dfs.mask 0]

theorem regdom_intersect_restrictive_five : isValidRd domainA = true ∧
    (regdomIntersect true zeroRule (some domainA) (some domainB)).map Regdomain.regRules =
      some [simpleRule ⟨5170000, 5250000, 80000⟩ 2000 (Rrf.noOutdoor.mask ||| Rrf.dfs.mask) 0] ∧
    Restrictive domainA domainB (regdomIntersect true zeroRule (some domainA) (some domainB)) := by
  refine ⟨by decide +kernel, by decide +kernel,
    (regdom_intersect_restrictive (by decide +kernel) zeroRule).1 ?_⟩
  intro a ha b hb _
  obtain rfl := mem_singleton.mp hb
  rcases mem_pair.mp ha with rfl | rfl
  all_goals
    refine ⟨fun f hf => ?_, by decide +kernel, by decide +kernel⟩
    cases f <;> first | rfl | cases hf

def oneRule (flags : BitVec 32) (psd : ℤ) : Regdomain where
  alpha2 := (67, 67)
  dfsRegion := 1
  regRules := [simpleRule ⟨5170000, 5250000, 80000⟩ 2000 flags psd]

/-- A permission of one domain is granted, and where both limit the power spectral density the limit
is what was on the stack. -/
theorem regdom_intersect_permissive :
    (∃ rd₁ rd₂ rd, isValidRd rd₁ = true ∧ isValidRd rd₂ = true ∧
      rd₁ = oneRule Rrf.irConcurrent.mask 0 ∧ rd₂ = oneRule 0 0 ∧
      regdomIntersect true zeroRule (some rd₁) (some rd₂) = some rd ∧
      rd.regRules = rd₁.regRules ∧ ¬ Restrictive rd₁ rd₂ (some rd)) ∧
    ∃ rd₁ rd₂ rd, isValidRd rd₁ = true ∧ isValidRd rd₂ = true ∧
      rd₁ = oneRule Rrf.psd.mask (-3) ∧ rd₂ = oneRule Rrf.psd.mask (-1) ∧
      regdomIntersect true zeroRule (some rd₁) (some rd₂) = some rd ∧
      rd.regRules = (oneRule Rrf.psd.mask 0).regRules ∧ ¬ Restrictive rd₁ rd₂ (some rd) := by
  refine ⟨⟨_, _, _, by decide +kernel, by decide +kernel, rfl, rfl, rfl, by decide +kernel,
    fun h => ?_⟩, _, _, _, by decide +kernel, by decide +kernel, rfl, rfl, rfl, by decide +kernel,
    fun h => ?_⟩
  · obtain ⟨a, -, b, hb, -, hall⟩ := h.allowed _ rfl _ (.head _)
    have hperm := hall.permission .irConcurrent rfl (by decide +kernel)
    rw [mem_singleton.mp hb] at hperm
    revert hperm
    decide +kernel
  obtain ⟨a, ha, b, -, hall, -⟩ := h.allowed _ rfl _ (.head _)
  have hpsd := hall.psd (by decide +kernel)
  rw [mem_singleton.mp ha] at hpsd
  revert hpsd
  decide +kernel

end Iwlwifi.Cfg80211
