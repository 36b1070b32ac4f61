import Iwlwifi.Access
import Iwlwifi.RegIntersect

/-! # The regulatory database

A model of the firmware file with regulatory rules and its readers (`net/wireless/reg.c`).

* **Format.**  A header, then countries with a pointer to a collection of rules, which has pointers
  to rules, which may have a pointer to WMM parameters.  Pointers count units of 4 bytes.
  Collections and rules start with their length; later versions may append fields.
* **Validation** (`validRegdb`), once when the file is loaded.
* **Queries** (`queryRegdb`, `regQueryRegdbWmm`), which trust it.
* `regdb_read_in_bounds_iff`: when the reads for a country code are inside the file;
  `regdb_read_out_of_bounds`: a file that is accepted, and the rule of which is not inside.

The file is the first `size` bytes of a memory `mem`: what is read behind it is not known. -/

namespace Iwlwifi.Cfg80211

open Access

/-! ### Format -/

/-- `FWDB_MAGIC`. -/
def fwdbMagic : ℕ := 0x52474442

/-- `FWDB_VERSION`. -/
def fwdbVersion : ℕ := 20

/-- `ALIGN(x, 2)`. -/
def align2 (x : ℕ) : ℕ := (x + 1) / 2 * 2

def ecw2cw (ecw : ℕ) : ℕ := 2 ^ ecw - 1

section file
variable (mem : ℕ → UInt8)

/-! ### Validation -/

/-- One iteration of the loop of `valid_wmm`. -/
def validWmmAc (ac : ℕ) : Access Bool := do
  let ecw ← byteAt mem ac
  let aifsn ← byteAt mem (ac + 1)
  if ecw2cw (ecw.toNat % 16) ≤ ecw2cw (ecw.toNat / 16) then pure false
  else pure (1 ≤ aifsn.toNat)

/-- `valid_wmm`. -/
def validWmm (wmm : ℕ) : Access Bool := allA (fun i => validWmmAc mem (wmm + 4 * i)) (List.range 8)

/-- `valid_rule`. -/
def validRule (size rulePtr : ℕ) : Access Bool := do
  let rule := rulePtr * 4
  if size < rule + 1 then pure false
  else
    let len ← byteAt mem rule
    if len.toNat < 16 then pure false
    else if 20 ≤ len.toNat then
      let wmmPtr ← be16At mem (rule + 18)
      if size < wmmPtr * 4 + 32 then pure false else validWmm mem (wmmPtr * 4)
    else pure true

/-- `valid_country`. -/
def validCountry (size country : ℕ) : Access Bool := do
  let collPtr ← be16At mem (country + 2)
  let coll := collPtr * 4
  if size < coll + 2 then pure false
  else
    let len ← byteAt mem coll
    let nRules ← byteAt mem (coll + 1)
    if size < coll + align2 len.toNat + nRules.toNat * 2 then pure false
    else if len.toNat < 3 then pure false
    else
      allA (fun i => do
        let rulePtr ← be16At mem (coll + align2 len.toNat + 2 * i)
        validRule mem size rulePtr) (List.range nRules.toNat)

/-- `n` countries from `country` on. -/
def countriesFrom : ℕ → ℕ → List ℕ
  | 0, _ => []
  | n + 1, country => country :: countriesFrom n (country + 4)

/-- The loop of `valid_regdb`. -/
def validCountries (size : ℕ) : List ℕ → Access Bool
  | [] => pure false
  | country :: rest => do
    let collPtr ← be16At mem (country + 2)
    if collPtr = 0 then pure true
    else
      let ok ← validCountry mem size country
      if ok then validCountries size rest else pure false

/-- `valid_regdb`; `signature` is the result of `regdb_has_valid_signature`. -/
def validRegdb (size : ℕ) (signature : Bool) : Access Bool := do
  if size < 8 then pure false
  else
    let magic ← be32At mem 0
    let version ← be32At mem 4
    if magic ≠ fwdbMagic then pure false
    else if version ≠ fwdbVersion then pure false
    else if signature = false then pure false
    else validCountries mem size (countriesFrom ((size - 8) / 4) 8)

/-! ### Queries -/

def readWmmAc (ac : ℕ) : Access WmmAc := do
  let ecw ← byteAt mem ac
  let aifsn ← byteAt mem (ac + 1)
  let cot ← be16At mem (ac + 2)
  pure ⟨ecw2cw (ecw.toNat / 16), ecw2cw (ecw.toNat % 16), 1000 * cot % 2 ^ 16, aifsn.toNat⟩

/-- `set_wmm_rule`. -/
def setWmmRule (country rule : ℕ) (rrule : RegRule) : Access RegRule := do
  let wmmPtr ← be16At mem (rule + 18)
  let wmm := wmmPtr * 4
  let ok ← validWmm mem wmm
  if ok then
    let client ← ofFnA fun i : Fin 4 => readWmmAc mem (wmm + 4 * i)
    let ap ← ofFnA fun i : Fin 4 => readWmmAc mem (wmm + 16 + 4 * i)
    pure { rrule with wmmRule := ⟨client, ap⟩, hasWmm := true }
  else
    -- the error message
    let _ ← be32At mem (rule + 4)
    let _ ← be32At mem (rule + 8)
    let _ ← byteAt mem country
    let _ ← byteAt mem (country + 1)
    pure rrule

def fwdbFlags (flags : UInt8) : BitVec 32 :=
  (if flags &&& 1 ≠ 0 then Rrf.noOfdm.mask else 0) |||
  (if flags &&& 2 ≠ 0 then Rrf.noOutdoor.mask else 0) |||
  (if flags &&& 4 ≠ 0 then Rrf.dfs.mask else 0) |||
  (if flags &&& 8 ≠ 0 then Rrf.noIr.mask else 0) |||
  (if flags &&& 16 ≠ 0 then Rrf.autoBw.mask else 0)

def readCac (rule len : ℕ) : Access ℕ := if 18 ≤ len then be16At mem (rule + 16) else pure 0

def readWmm (country rule len : ℕ) (rrule : RegRule) : Access RegRule :=
  if 20 ≤ len then setWmmRule mem country rule rrule else pure rrule

/-- One rule in `regdb_query_country`. -/
def readRule (country rule : ℕ) : Access RegRule := do
  let startFreq ← be32At mem (rule + 4)
  let endFreq ← be32At mem (rule + 8)
  let maxBw ← be32At mem (rule + 12)
  let maxEirp ← be16At mem (rule + 2)
  let flags ← byteAt mem (rule + 1)
  let len ← byteAt mem rule
  let cac ← readCac mem rule len.toNat
  readWmm mem country rule len.toNat
    { zeroRule with
      freqRange := ⟨startFreq, endFreq, maxBw⟩
      powerRule := ⟨0, maxEirp⟩
      flags := fwdbFlags flags
      dfsCacMs := 1000 * cac }

/-- One iteration of the loop of `regdb_query_country`. -/
def queryRule (country coll i : ℕ) : Access RegRule := do
  let len ← byteAt mem coll
  let rulePtr ← be16At mem (coll + align2 len.toNat + 2 * i)
  readRule mem country (rulePtr * 4)

/-- `regdb_query_country`, up to the domain that is scheduled; `alloc` is the success of the
allocation. -/
def regdbQueryCountry (country : ℕ) (alloc : Bool) : Access (Option Regdomain) := do
  let collPtr ← be16At mem (country + 2)
  let coll := collPtr * 4
  let nRules ← byteAt mem (coll + 1)
  if alloc then
    let a ← byteAt mem country
    let b ← byteAt mem (country + 1)
    let dfsRegion ← byteAt mem (coll + 2)
    let rules ← mapA (queryRule mem country coll) (List.range nRules.toNat)
    pure (some ⟨(a, b), dfsRegion, rules⟩)
  else pure none

/-- The loop of `__regdb_query_wmm`. -/
def queryWmmRules (country coll freq : ℕ) (rrule : RegRule) : List ℕ → Access (Option RegRule)
  | [] => pure none
  | i :: rest => do
    let len ← byteAt mem coll
    let rulePtr ← be16At mem (coll + align2 len.toNat + 2 * i)
    let rule := rulePtr * 4
    let ruleLen ← byteAt mem rule
    if ruleLen.toNat < 20 then queryWmmRules country coll freq rrule rest
    else
      let startFreq ← be32At mem (rule + 4)
      if startFreq / 1000 ≤ freq then
        let endFreq ← be32At mem (rule + 8)
        if freq ≤ endFreq / 1000 then
          let rrule ← setWmmRule mem country rule rrule
          pure (some rrule)
        else queryWmmRules country coll freq rrule rest
      else queryWmmRules country coll freq rrule rest

/-- `__regdb_query_wmm`. -/
def regdbQueryWmm (country freq : ℕ) (rrule : RegRule) : Access (Option RegRule) := do
  let collPtr ← be16At mem (country + 2)
  let coll := collPtr * 4
  let nRules ← byteAt mem (coll + 1)
  queryWmmRules mem country coll freq rrule (List.range nRules.toNat)

/-- `alpha2_equal`. -/
def alpha2Equal (alpha2 : UInt8 × UInt8) (country : ℕ) : Access Bool := do
  let a ← byteAt mem country
  if a = alpha2.1 then
    let b ← byteAt mem (country + 1)
    pure (b = alpha2.2)
  else pure false

/-- The loop over the countries, at most `n` iterations. -/
def findCountry (alpha2 : UInt8 × UInt8) : ℕ → ℕ → Access (Option ℕ)
  | 0, _ => pure none
  | n + 1, country => do
    let collPtr ← be16At mem (country + 2)
    if collPtr = 0 then pure none
    else
      let found ← alpha2Equal mem alpha2 country
      if found then pure (some country) else findCountry alpha2 n (country + 4)

/-- `query_regdb`. -/
def queryRegdb (alpha2 : UInt8 × UInt8) (n : ℕ) (alloc : Bool) : Access (Option Regdomain) := do
  match ← findCountry mem alpha2 n 8 with
  | none => pure none
  | some country => regdbQueryCountry mem country alloc

/-- `reg_query_regdb_wmm`. -/
def regQueryRegdbWmm (alpha2 : UInt8 × UInt8) (n freq : ℕ) (rrule : RegRule) :
    Access (Option RegRule) := do
  match ← findCountry mem alpha2 n 8 with
  | none => pure none
  | some country => regdbQueryWmm mem country freq rrule

end file

/-! ### What validation gives -/

variable {mem : ℕ → UInt8} {size country : ℕ}

def nRules (mem : ℕ → UInt8) (country : ℕ) : ℕ :=
  (mem ((be16At mem (country + 2)).val * 4 + 1)).toNat

def rulePtrAt (mem : ℕ → UInt8) (country i : ℕ) : ℕ :=
  (be16At mem (country + 2)).val * 4 + align2 (mem ((be16At mem (country + 2)).val * 4)).toNat + 2 * i

def ruleAt (mem : ℕ → UInt8) (country i : ℕ) : ℕ := (be16At mem (rulePtrAt mem country i)).val * 4

def wmmAt (mem : ℕ → UInt8) (rule : ℕ) : ℕ := (be16At mem (rule + 18)).val * 4

/-- The fields of a rule that are there according to its length are inside the file. -/
def RuleFits (mem : ℕ → UInt8) (size rule : ℕ) : Prop :=
  rule + (if 20 ≤ (mem rule).toNat then 20 else if 18 ≤ (mem rule).toNat then 18 else 16) ≤ size

theorem validRule_val {rulePtr : ℕ} (h : (validRule mem size rulePtr).val = true) :
    16 ≤ (mem (rulePtr * 4)).toNat ∧
      (20 ≤ (mem (rulePtr * 4)).toNat → wmmAt mem (rulePtr * 4) + 32 ≤ size) := by
  unfold validRule at h
  dsimp only at h
  split at h
  · cases h
  rw [val_bind, val_byteAt] at h
  split at h
  · cases h
  refine ⟨by omega, fun hlen => ?_⟩
  rw [if_pos hlen, val_bind] at h
  split at h
  · cases h
  · unfold wmmAt
    omega

/-- What `valid_country` checks. -/
structure CountryOk (mem : ℕ → UInt8) (size country : ℕ) : Prop where
  coll : (be16At mem (country + 2)).val * 4 + 3 ≤ size
  rulePtr : ∀ i < nRules mem country, rulePtrAt mem country i + 2 ≤ size
  len : ∀ i < nRules mem country, 16 ≤ (mem (ruleAt mem country i)).toNat
  wmm : ∀ i < nRules mem country, 20 ≤ (mem (ruleAt mem country i)).toNat →
    wmmAt mem (ruleAt mem country i) + 32 ≤ size

theorem validCountry_val (h : (validCountry mem size country).val = true) :
    CountryOk mem size country := by
  unfold validCountry at h
  rw [val_bind] at h
  dsimp only at h
  split at h
  · cases h
  rw [val_bind, val_byteAt, val_bind, val_byteAt] at h
  split at h
  · cases h
  rename_i hsize
  split at h
  · cases h
  have hrules := (val_allA _ _).mp h
  have hrule : ∀ i < nRules mem country,
      (validRule mem size (be16At mem (rulePtrAt mem country i)).val).val = true :=
    fun i hi => hrules i (List.mem_range.mpr hi)
  refine ⟨?_, fun i hi => ?_, fun i hi => (validRule_val (hrule i hi)).1,
    fun i hi => (validRule_val (hrule i hi)).2⟩
  · unfold align2 at hsize
    omega
  · unfold nRules at hi
    unfold rulePtrAt
    omega

/-- What is left of the loop of `valid_regdb` at a country. -/
structure ChainOk (mem : ℕ → UInt8) (size k country : ℕ) : Prop where
  valid : (validCountries mem size (countriesFrom k country)).val = true
  fits : country + 4 * k ≤ size

theorem ChainOk.cases {k : ℕ} (h : ChainOk mem size k country) : country + 4 ≤ size ∧
    ((be16At mem (country + 2)).val = 0 ∨
      (CountryOk mem size country ∧ ∃ k', ChainOk mem size k' (country + 4))) := by
  cases k with
  | zero =>
    have hv := h.valid
    cases hv
  | succ k =>
    have hfits := h.fits
    have hv := h.valid
    refine ⟨by omega, ?_⟩
    rw [countriesFrom, validCountries, val_bind] at hv
    split at hv
    · exact .inl ‹_›
    rw [val_bind] at hv
    split at hv
    · exact .inr ⟨validCountry_val ‹_›, k, hv, by omega⟩
    · cases hv

theorem validRegdb_chain {signature : Bool} (h : (validRegdb mem size signature).val = true) :
    ∃ k, ChainOk mem size k 8 := by
  unfold validRegdb at h
  split at h
  · cases h
  rw [val_bind, val_bind] at h
  split at h
  · cases h
  split at h
  · cases h
  · split at h
    · cases h
    · exact ⟨_, h, by omega⟩

/-! ### Reads of the queries -/

theorem within_validWmm {wmm : ℕ} (h : wmm + 32 ≤ size) : Within size (validWmm mem wmm) := by
  refine within_allA fun i hi => ?_
  have hi := List.mem_range.mp hi
  simp only [validWmmAc, within_bind, within_byteAt, within_ite, within_pure, implies_true, and_true]
  omega

theorem within_setWmmRule {rule : ℕ} (hwmm : wmmAt mem rule + 32 ≤ size) (hrule : rule + 20 ≤ size)
    (hcountry : country + 4 ≤ size) (rrule : RegRule) :
    Within size (setWmmRule mem country rule rrule) := by
  have hac : ∀ (o : ℕ) (i : Fin 4), o + 16 ≤ size → Within size (readWmmAc mem (o + 4 * i)) := by
    intro o i ho
    simp only [readWmmAc, within_bind, within_byteAt, within_be16At, within_pure, and_true]
    omega
  unfold wmmAt at hwmm
  simp only [setWmmRule, within_bind, within_be16At, within_ite, within_ofFnA, within_pure,
    within_be32At, within_byteAt, and_true]
  refine ⟨by omega, within_validWmm hwmm, fun _ => ⟨fun i => hac _ i ?_, fun i => hac _ i ?_⟩,
    fun _ => by omega⟩
  · omega
  · omega

theorem within_readRule {rule : ℕ} (hwmm : 20 ≤ (mem rule).toNat → wmmAt mem rule + 32 ≤ size)
    (hcountry : country + 4 ≤ size) :
    Within size (readRule mem country rule) ↔ RuleFits mem size rule := by
  unfold readRule readCac readWmm RuleFits
  simp only [within_bind, within_byteAt, within_be16At, within_be32At, within_ite, within_pure,
    implies_true, and_true]
  simp only [val_byteAt]
  constructor
  · rintro ⟨-, -, h16, -, -, -, h18, h20⟩
    split
    · have h := (within_bind _ _).mp (h20 ‹_›)
      have := (within_be16At mem (rule + 18)).mp h.1
      omega
    split
    · omega
    · omega
  · intro h
    split at h
    · exact ⟨by omega, by omega, by omega, by omega, by omega, by omega, fun _ => by omega,
        fun h20 => within_setWmmRule (hwmm h20) h hcountry _⟩
    split at h
    all_goals
      exact ⟨by omega, by omega, by omega, by omega, by omega, by omega, fun _ => by omega,
        fun _ => by omega⟩

section
variable (h : CountryOk mem size country) (hcountry : country + 4 ≤ size)
include h hcountry

theorem CountryOk.within_regdbQueryCountry :
    Within size (regdbQueryCountry mem country true) ↔
      ∀ i < nRules mem country, RuleFits mem size (ruleAt mem country i) := by
  have hcoll := h.coll
  have hrule : ∀ i < nRules mem country,
      (Within size (queryRule mem country ((be16At mem (country + 2)).val * 4) i) ↔
        RuleFits mem size (ruleAt mem country i)) := by
    intro i hi
    have hptr := h.rulePtr i hi
    unfold queryRule
    rw [within_bind, within_bind, within_byteAt, within_be16At]
    constructor
    · exact fun hw => (within_readRule (h.wmm i hi) hcountry).mp hw.2.2
    · exact fun hf => ⟨by omega, hptr, (within_readRule (h.wmm i hi) hcountry).mpr hf⟩
  unfold regdbQueryCountry
  simp only [within_bind, within_byteAt, within_be16At, if_true, within_mapA, within_pure, and_true,
    List.mem_range]
  constructor
  · rintro ⟨-, -, -, -, -, hall⟩ i hi
    exact (hrule i hi).mp (hall i hi)
  · intro hall
    exact ⟨by omega, by omega, by omega, by omega, by omega, fun i hi => (hrule i hi).mpr (hall i hi)⟩

theorem CountryOk.within_enomem :
    Within size (regdbQueryCountry mem country false) := by
  have hcoll := h.coll
  unfold regdbQueryCountry
  simp only [within_bind, within_byteAt, within_be16At, Bool.false_eq_true, if_false, within_pure,
    and_true]
  omega

theorem CountryOk.within_queryWmmRules {l : List ℕ} (hl : ∀ i ∈ l, i < nRules mem country)
    (hfits : ∀ i < nRules mem country, RuleFits mem size (ruleAt mem country i)) (freq : ℕ)
    (rrule : RegRule) :
    Within size
      (queryWmmRules mem country ((be16At mem (country + 2)).val * 4) freq rrule l) := by
  have hcoll := h.coll
  induction l with
  | nil => exact within_pure _
  | cons i l ih =>
    have hi := hl i (.head _)
    have ih := ih fun j hj => hl j (.tail _ hj)
    have hptr := h.rulePtr i hi
    have hfit := hfits i hi
    have hwmm := h.wmm i hi
    unfold RuleFits at hfit
    have hone : ruleAt mem country i + 1 ≤ size := by
      split at hfit
      · omega
      · split at hfit
        · omega
        · omega
    unfold queryWmmRules
    simp only [within_bind, within_byteAt, within_be16At, within_be32At, within_ite, within_pure,
      and_true]
    refine ⟨by omega, hptr, ?_, fun _ => ih, fun h20 => ?_⟩
    · exact hone
    have h20 : 20 ≤ (mem (ruleAt mem country i)).toNat := not_lt.mp h20
    rw [if_pos h20] at hfit
    have hstart : ruleAt mem country i + 4 + 4 ≤ size := by omega
    have hend : ruleAt mem country i + 8 + 4 ≤ size := by omega
    exact ⟨hstart, fun _ => ⟨hend, fun _ => within_setWmmRule (hwmm h20) hfit hcountry rrule,
      fun _ => ih⟩, fun _ => ih⟩

theorem CountryOk.within_regdbQueryWmm
    (hfits : ∀ i < nRules mem country, RuleFits mem size (ruleAt mem country i)) (freq : ℕ)
    (rrule : RegRule) : Within size (regdbQueryWmm mem country freq rrule) := by
  have hcoll := h.coll
  unfold regdbQueryWmm
  simp only [within_bind, within_byteAt, within_be16At]
  exact ⟨by omega, by omega, h.within_queryWmmRules hcountry (fun i hi => List.mem_range.mp hi) hfits
    freq rrule⟩

end

theorem ChainOk.within_findCountry {k : ℕ} (h : ChainOk mem size k country)
    (alpha2 : UInt8 × UInt8) (n : ℕ) :
    Within size (findCountry mem alpha2 n country) ∧
      ∀ c, (findCountry mem alpha2 n country).val = some c →
        CountryOk mem size c ∧ c + 4 ≤ size := by
  induction n generalizing k country with
  | zero => exact ⟨within_pure _, fun c hc => by cases hc⟩
  | succ n ih =>
    obtain ⟨hfits, hcases⟩ := h.cases
    have heq : Within size (alpha2Equal mem alpha2 country) := by
      unfold alpha2Equal
      simp only [within_bind, within_byteAt, within_ite, within_pure, and_true, implies_true]
      omega
    rw [findCountry, within_bind, within_be16At, val_bind]
    rcases hcases with hzero | ⟨hok, k', hchain⟩
    · rw [if_pos hzero]
      exact ⟨⟨by omega, within_pure _⟩, fun c hc => by cases hc⟩
    by_cases hzero : (be16At mem (country + 2)).val = 0
    · rw [if_pos hzero]
      exact ⟨⟨by omega, within_pure _⟩, fun c hc => by cases hc⟩
    rw [if_neg hzero, within_bind, val_bind]
    cases (alpha2Equal mem alpha2 country).val with
    | true =>
      refine ⟨⟨by omega, heq, within_pure _⟩, fun c hc => ?_⟩
      obtain rfl : country = c := Option.some.inj hc
      exact ⟨hok, hfits⟩
    | false => exact ⟨⟨by omega, heq, (ih hchain).1⟩, (ih hchain).2⟩

/-- **Reads.**  After validation, what is read for a country code is inside the file exactly if the
fields of the rules of the country are. -/
theorem regdb_read_in_bounds_iff (h : (validRegdb mem size true).val = true)
    (alpha2 : UInt8 × UInt8) :
    ((∀ n alloc, Within size (queryRegdb mem alpha2 n alloc)) ∧
      ∀ n freq rrule, Within size (regQueryRegdbWmm mem alpha2 n freq rrule)) ↔
    ∀ n country, (findCountry mem alpha2 n 8).val = some country →
      ∀ i < nRules mem country, RuleFits mem size (ruleAt mem country i) := by
  obtain ⟨k, hchain⟩ := validRegdb_chain h
  constructor
  · rintro ⟨hquery, -⟩ n country hfind
    obtain ⟨hok, hcountry⟩ := (hchain.within_findCountry alpha2 n).2 country hfind
    have hq := ((within_bind _ _).mp (hquery n true)).2
    rw [hfind] at hq
    exact (hok.within_regdbQueryCountry hcountry).mp hq
  intro hfits
  constructor
  · intro n alloc
    obtain ⟨hwithin, hfound⟩ := hchain.within_findCountry alpha2 n
    unfold queryRegdb
    rw [within_bind]
    refine ⟨hwithin, ?_⟩
    cases hfind : (findCountry mem alpha2 n 8).val with
    | none => exact within_pure _
    | some country =>
      obtain ⟨hok, hcountry⟩ := hfound country hfind
      cases alloc with
      | true => exact (hok.within_regdbQueryCountry hcountry).mpr (hfits n country hfind)
      | false => exact hok.within_enomem hcountry
  · intro n freq rrule
    obtain ⟨hwithin, hfound⟩ := hchain.within_findCountry alpha2 n
    unfold regQueryRegdbWmm
    rw [within_bind]
    refine ⟨hwithin, ?_⟩
    cases hfind : (findCountry mem alpha2 n 8).val with
    | none => exact within_pure _
    | some country =>
      obtain ⟨hok, hcountry⟩ := hfound country hfind
      exact hok.within_regdbQueryWmm hcountry (hfits n country hfind) freq rrule

def fileMem (file : List UInt8) (o : ℕ) : UInt8 := file.getD o 0

/-- Header, the country `AA`, the end of the countries, and a collection with one rule at 24. -/
def oneCountry : List UInt8 :=
  [0x52, 0x47, 0x44, 0x42, 0, 0, 0, 20, 65, 65, 0, 4, 0, 0, 0, 0, 3, 1, 0, 0, 0, 6, 0, 0]

def fullRule : List UInt8 :=
  [20, 0, 7, 208, 0, 36, 159, 0, 0, 37, 224, 0, 0, 0, 100, 0, 0, 60, 0, 11] ++
    (List.replicate 8 [0x34, 2, 0, 1]).flatten

theorem regdb_read_in_bounds_iff_full :
    (validRegdb (fileMem (oneCountry ++ fullRule)) 76 true).val = true ∧
    (findCountry (fileMem (oneCountry ++ fullRule)) (65, 65) 1 8).val = some 8 ∧
    (∀ n alloc, Within 76 (queryRegdb (fileMem (oneCountry ++ fullRule)) (65, 65) n alloc)) ∧
    ∀ n freq rrule,
      Within 76 (regQueryRegdbWmm (fileMem (oneCountry ++ fullRule)) (65, 65) n freq rrule) := by
  refine ⟨by decide +kernel, by decide +kernel,
    (regdb_read_in_bounds_iff (by decide +kernel) (65, 65)).mpr ?_⟩
  intro n country hfind i hi
  have hcountry : country = 8 := by
    cases n with
    | zero => cases hfind
    | succ n =>
      have hfirst : (findCountry (fileMem (oneCountry ++ fullRule)) (65, 65) (n + 1) 8).val =
          some 8 := rfl
      exact (Option.some.inj hfind).symm
  subst hcountry
  have hone : nRules (fileMem (oneCountry ++ fullRule)) 8 = 1 := by decide +kernel
  have hi : i = 0 := by omega
  subst hi
  unfold RuleFits
  decide +kernel

/-- A file that ends after the length of the rule is accepted, and the rest of the rule is read. -/
theorem regdb_read_out_of_bounds :
    (validRegdb (fileMem (oneCountry ++ [16])) 25 true).val = true ∧
    ¬ Within 25 (queryRegdb (fileMem (oneCountry ++ [16])) (65, 65) 1 true) := by
  decide +kernel

end Iwlwifi.Cfg80211
