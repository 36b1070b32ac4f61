import Iwlwifi.Transition
import Iwlwifi.Ttlm
import Mathlib.Data.BitVec

/-! # TID-to-link mappings and the state of links

A model of what mappings do to the links of an MLO station (`net/mac80211/mlme.c`, `link.c`).  Links
that no TID is mapped to are dormant.

* **Advertised mappings** come with beacons.  A mapping is announced with the time of the switch;
  `tidToLinkMapWork` makes the switch, and a beacon without an element ends the mapping
  (`processAdvTtlm`).
* **Negotiated mappings** (`applyNegTtlm`, `processTtlmTeardown`) suspend further links, apart from
  those that an advertised mapping has disabled already.

Both write `dormantLinks`.  `Consistent` says what the bitmaps should be; the links that the
advertised mapping in force disables are kept beside the state (`Traced.disabled`).
`ttlm_links_consistent`: it holds after every event, unless a beacon without an element comes when
a negotiated mapping is also in force, whose suspended links are then forgotten, or when another
mapping was announced, after which the old one is not undone (`Respected`). -/

namespace Iwlwifi.Ieee80211.Ttlm

/-! ### State -/

/-- The fields of `struct ieee80211_vif` and `struct ieee80211_if_managed` that the mappings use. -/
structure State where
  validLinks : Links
  activeLinks : Links
  dormantLinks : Links
  suspendedLinks : Links
  negTtlm : Option NegTtlm
  ttlmInfo : AdvTtlmInfo
  /-- `ttlm_work` is queued. -/
  ttlmWork : Bool
deriving DecidableEq

/-- `ieee80211_vif_usable_links`. -/
def State.usableLinks (s : State) : Links := s.validLinks &&& ~~~s.dormantLinks

/-- `ieee80211_set_vif_links_bitmaps` for a station. -/
def setVifLinksBitmaps (s : State) (validLinks dormantLinks : Links) : State :=
  if validLinks = 0 ∨ ~~~validLinks &&& dormantLinks ≠ 0 ∨ validLinks &&& ~~~dormantLinks = 0 then
    { s with validLinks, activeLinks := 0, dormantLinks := 0 }
  else
    { s with
      validLinks, dormantLinks
      activeLinks :=
        if s.activeLinks ≠ 0 then s.activeLinks else validLinks &&& ~~~dormantLinks }

/-- `ieee80211_vif_set_links`, when no links are added or removed: the driver is not asked. -/
def vifSetLinks (s : State) (newLinks dormantLinks : Links) : State :=
  if s.validLinks = newLinks ∧ dormantLinks = s.dormantLinks then s
  else setVifLinksBitmaps s newLinks dormantLinks

/-- `ieee80211_set_active_links`, where `drv` says whether the driver agrees. -/
def setActiveLinks (s : State) (drv : Bool) (activeLinks : Links) : Option State :=
  if activeLinks = 0 then none
  else if s.activeLinks = activeLinks then some s
  else if !drv ∨ activeLinks &&& ~~~s.usableLinks ≠ 0 then none
  else some { s with activeLinks }

/-- `BIT(__ffs(links))`. -/
def bitFfs (links : Links) : Links :=
  match (List.range 16).find? links.getLsbD with
  | some i => BitVec.twoPow 16 i
  | none => 0

/-- `ieee80211_ttlm_set_links`; nothing when the station disconnects. -/
def ttlmSetLinks (s : State) (drv : Bool) (activeLinks dormantLinks suspendedLinks : Links) :
    Option State :=
  if activeLinks = 0 then none
  else
    -- an active negotiated mapping is discarded by the new mapping
    let s := if s.negTtlm.isSome then { s with negTtlm := none, suspendedLinks := 0 } else s
    let switched :=
      if s.activeLinks ≠ activeLinks then
        let kept := activeLinks &&& s.activeLinks
        setActiveLinks s drv (if kept = 0 then bitFfs (s.validLinks &&& ~~~dormantLinks) else kept)
      else some s
    switched.map fun s => { vifSetLinks s s.validLinks dormantLinks with suspendedLinks }

/-! ### Advertised mappings -/

/-- `ieee80211_tid_to_link_map_work`. -/
def tidToLinkMapWork (s : State) (drv : Bool) : Option State :=
  let newActiveLinks := s.ttlmInfo.map &&& s.validLinks
  let newDormantLinks := ~~~s.ttlmInfo.map &&& s.validLinks
  let s := vifSetLinks { s with ttlmWork := false } s.validLinks 0
  (ttlmSetLinks s drv newActiveLinks newDormantLinks 0).map fun s =>
    { s with ttlmInfo := { s.ttlmInfo with active := true, switchTime := 0 } }

/-- The loop of `ieee80211_process_adv_ttlm` over the elements. -/
def announce (s : State) (beaconTs : ℕ) : List (List UInt8) → Option State
  | [] => some s
  | ttlm :: elems =>
    match parseAdvT2l ttlm with
    | none => none
    | some ttlmInfo =>
      if ttlmInfo.switchTime ≠ 0 then
        let beaconTsTu := beaconTs / 2 ^ 10 % 2 ^ 16
        let delay := (ttlmInfo.switchTime + 2 ^ 16 - beaconTsTu) % 2 ^ 16
        -- far in the future: this may be the previous switch
        if delay > 0xff00 then some s else some { s with ttlmInfo, ttlmWork := true }
      else announce s beaconTs elems

/-- `ieee80211_process_adv_ttlm`. -/
def processAdvTtlm (s : State) (beaconTs : ℕ) (elems : List (List UInt8)) : Option State :=
  if elems = [] then
    let s :=
      if s.ttlmInfo.switchTime ≠ 0 then { s with ttlmWork := false }
      else if s.ttlmInfo.active then vifSetLinks s s.validLinks 0
      else s
    some { s with ttlmInfo := ⟨0, 0, 0, false⟩ }
  else announce s beaconTs elems

/-! ### Negotiated mappings -/

def NegTtlm.map (neg : NegTtlm) : Links :=
  (List.finRange 8).foldl (fun map t => map ||| (neg.downlink t ||| neg.uplink t)) 0

/-- `ieee80211_apply_neg_ttlm`. -/
def applyNegTtlm (s : State) (drv : Bool) (neg : NegTtlm) : Option State :=
  let map := neg.map
  let s :=
    if s.negTtlm.isSome then { s with dormantLinks := s.dormantLinks &&& ~~~s.suspendedLinks }
    else s
  -- exclude links that are already disabled by an advertised mapping
  let newActiveLinks := map &&& s.validLinks &&& ~~~s.dormantLinks
  let newSuspendedLinks := ~~~map &&& s.validLinks &&& ~~~s.dormantLinks
  let newDormantLinks := s.dormantLinks ||| newSuspendedLinks
  (ttlmSetLinks s drv newActiveLinks newDormantLinks newSuspendedLinks).map fun s =>
    { s with negTtlm := some neg }

/-- `ieee80211_process_ttlm_teardown`. -/
def processTtlmTeardown (s : State) : State :=
  if s.negTtlm.isSome then
    let newDormantLinks := s.dormantLinks &&& ~~~s.suspendedLinks
    vifSetLinks { s with negTtlm := none, suspendedLinks := 0 } s.validLinks newDormantLinks
  else s

/-! ### Runs -/

/-- What happens: a beacon with its elements and time stamp, the switch to an announced mapping, an
accepted negotiated mapping, and its teardown. -/
inductive Event
  | beacon (elems : List (List UInt8)) (beaconTs : ℕ)
  | work (drv : Bool)
  | negotiated (neg : NegTtlm) (drv : Bool)
  | teardown

/-- The state, and the valid links that the advertised mapping in force disables. -/
structure Traced where
  state : State
  disabled : Links
deriving DecidableEq

/-- One event.  There is no step when the station disconnects, or when the work is not queued. -/
def step (t : Traced) : Event → Option (Unit × Traced)
  | .beacon elems beaconTs =>
    (processAdvTtlm t.state beaconTs elems).map fun s =>
      ((), ⟨s, if elems = [] then 0 else t.disabled⟩)
  | .work drv =>
    if t.state.ttlmWork then
      (tidToLinkMapWork t.state drv).map fun s =>
        ((), ⟨s, ~~~t.state.ttlmInfo.map &&& t.state.validLinks⟩)
    else none
  | .negotiated neg drv => (applyNegTtlm t.state drv neg).map fun s => ((), ⟨s, t.disabled⟩)
  | .teardown => some ((), ⟨processTtlmTeardown t.state, t.disabled⟩)

def unmapped (s : State) : Links :=
  match s.negTtlm with
  | some neg => s.validLinks &&& ~~~neg.map
  | none => 0

@[mk_iff] structure Consistent (t : Traced) : Prop where
  active_ne : t.state.activeLinks ≠ 0
  active_usable : t.state.activeLinks &&& t.state.usableLinks = t.state.activeLinks
  suspended : t.state.suspendedLinks = unmapped t.state &&& ~~~t.disabled
  dormant : t.state.dormantLinks = t.state.suspendedLinks ||| t.disabled
  disabled_valid : t.disabled &&& t.state.validLinks = t.disabled

instance (t : Traced) : Decidable (Consistent t) :=
  decidable_of_iff' _ (consistent_iff t)

/-- The state after association: there may be an advertised mapping in force. -/
structure Associated (t : Traced) : Prop where
  active_ne : t.state.activeLinks ≠ 0
  active_usable : t.state.activeLinks &&& t.state.usableLinks = t.state.activeLinks
  negTtlm : t.state.negTtlm = none
  suspended : t.state.suspendedLinks = 0
  dormant : t.state.dormantLinks = t.disabled
  disabled_valid : t.disabled &&& t.state.validLinks = t.disabled
  active : t.disabled ≠ 0 → t.state.ttlmInfo.active = true

/-- When a beacon without an element may be processed: with a switch announced, no mapping that
disables links is in force; otherwise, when a mapping is in force, no negotiated mapping leaves
links unmapped. -/
def Respected (l : Label Traced Event Unit) : Prop :=
  ∀ beaconTs, l.act = .beacon [] beaconTs →
    if l.pre.state.ttlmInfo.switchTime ≠ 0 then l.pre.disabled = 0
    else l.pre.state.ttlmInfo.active = true → unmapped l.pre.state = 0

instance (l : Label Traced Event Unit) : Decidable (Respected l) :=
  match l with
  | ⟨pre, .beacon [] _, _, _⟩ =>
    decidable_of_iff (if pre.state.ttlmInfo.switchTime ≠ 0 then pre.disabled = 0
        else pre.state.ttlmInfo.active = true → unmapped pre.state = 0)
      ⟨fun h _ _ => h, fun h => h _ rfl⟩
  | ⟨_, .beacon (_ :: _) _, _, _⟩ => isTrue nofun
  | ⟨_, .work _, _, _⟩ => isTrue nofun
  | ⟨_, .negotiated _ _, _, _⟩ => isTrue nofun
  | ⟨_, .teardown, _, _⟩ => isTrue nofun

/-! ### Sets of links -/

theorem bitFfs_spec {links : Links} (h : links ≠ 0) :
    bitFfs links ≠ 0 ∧ bitFfs links &&& links = bitFfs links := by
  have hsome : ((List.range 16).find? links.getLsbD).isSome := by
    rw [List.find?_isSome]
    by_contra hno
    apply h
    apply BitVec.eq_of_getLsbD_eq
    intro i hi
    have hi' := fun hbit => hno ⟨i, List.mem_range.mpr hi, hbit⟩
    simpa using hi'
  obtain ⟨i, hi⟩ := Option.isSome_iff_exists.mp hsome
  have hbit : links.getLsbD i = true := List.find?_some hi
  have hlt : i < 16 := List.mem_range.mp (List.mem_of_find?_eq_some hi)
  rw [bitFfs, hi]
  constructor
  · intro hzero
    have hget := congrArg (fun x => x.getLsbD i) hzero
    simp [hlt] at hget
  · rw [BitVec.and_comm, BitVec.and_twoPow, if_pos hbit]

theorem and_trans {a b c : Links} (hab : a &&& b = a) (hbc : b &&& c = b) : a &&& c = a := by
  rw [← hab, BitVec.and_assoc, hbc]

theorem ne_zero_of_and {a b : Links} (ha : a ≠ 0) (hab : a &&& b = a) : b ≠ 0 := by
  rintro rfl
  exact ha (by rw [← hab]; exact BitVec.and_zero)

theorem not_and_eq_zero {a b : Links} (hab : a &&& b = a) : ~~~b &&& a = 0 := by
  ext i hi
  grind

/-! ### Changing the links -/

variable {s s' : State}

variable {drv : Bool} {dormantLinks : Links}

theorem vifSetLinks_eq (hactive : s.activeLinks ≠ 0)
    (hd : dormantLinks &&& s.validLinks = dormantLinks)
    (husable : s.validLinks &&& ~~~dormantLinks ≠ 0) :
    vifSetLinks s s.validLinks dormantLinks = { s with dormantLinks } := by
  unfold vifSetLinks
  split
  next h => rw [h.2]
  have hvalid : s.validLinks ≠ 0 := by
    intro h0
    rw [h0] at husable
    exact husable BitVec.zero_and
  have hok : ¬(s.validLinks = 0 ∨ ~~~s.validLinks &&& dormantLinks ≠ 0 ∨
      s.validLinks &&& ~~~dormantLinks = 0) := by
    rintro (h | h | h)
    · exact hvalid h
    · exact h (not_and_eq_zero hd)
    · exact husable h
  rw [setVifLinksBitmaps, if_neg hok, if_pos hactive]

/-- What `ieee80211_ttlm_set_links` leaves behind. -/
structure Switched (s s' : State) (dormantLinks suspendedLinks : Links) : Prop where
  validLinks : s'.validLinks = s.validLinks
  active_ne : s'.activeLinks ≠ 0
  active_usable : s'.activeLinks &&& (s.validLinks &&& ~~~dormantLinks) = s'.activeLinks
  dormantLinks : s'.dormantLinks = dormantLinks
  suspendedLinks : s'.suspendedLinks = suspendedLinks
  negTtlm : s'.negTtlm = none
  ttlmInfo : s'.ttlmInfo = s.ttlmInfo

theorem setActiveLinks_eq {activeLinks : Links} (h : setActiveLinks s drv activeLinks = some s') :
    s' = { s with activeLinks } := by
  unfold setActiveLinks at h
  split at h
  · cases h
  split at h
  next heq =>
    cases h
    rw [← heq]
  split at h <;> cases h
  rfl

theorem ttlmSetLinks_switched {activeLinks dormantLinks suspendedLinks : Links}
    (h : ttlmSetLinks s drv activeLinks dormantLinks suspendedLinks = some s')
    (hd : dormantLinks &&& s.validLinks = dormantLinks)
    (ha : activeLinks &&& (s.validLinks &&& ~~~dormantLinks) = activeLinks) :
    Switched s s' dormantLinks suspendedLinks := by
  unfold ttlmSetLinks at h
  split at h
  · cases h
  rename_i hne
  have husable := ne_zero_of_and hne ha
  -- discarding a negotiated mapping leaves the links alone
  obtain ⟨s₁, hs₁, hvalid, hact, hneg, hinfo⟩ : ∃ s₁ : State,
      (if s.negTtlm.isSome then { s with negTtlm := none, suspendedLinks := 0 } else s) = s₁ ∧
      s₁.validLinks = s.validLinks ∧ s₁.activeLinks = s.activeLinks ∧ s₁.negTtlm = none ∧
      s₁.ttlmInfo = s.ttlmInfo := by
    split
    · exact ⟨_, rfl, rfl, rfl, rfl, rfl⟩
    next hnone => exact ⟨s, rfl, rfl, rfl, by simpa using hnone, rfl⟩
  simp only [hs₁] at h
  obtain ⟨s₂, hs₂, rfl⟩ := Option.map_eq_some_iff.mp h
  -- the active links that are left are usable
  obtain ⟨active, hs₂', hane, hause⟩ : ∃ active, s₂ = { s₁ with activeLinks := active } ∧
      active ≠ 0 ∧ active &&& (s.validLinks &&& ~~~dormantLinks) = active := by
    split at hs₂
    · refine ⟨_, setActiveLinks_eq hs₂, ?_⟩
      split
      · rw [hvalid]
        exact bitFfs_spec husable
      next hkept =>
        refine ⟨hkept, ?_⟩
        rw [BitVec.and_comm activeLinks, BitVec.and_assoc, ha]
    next heq =>
      cases hs₂
      have heq' : s₁.activeLinks = activeLinks := not_not.mp heq
      exact ⟨activeLinks, by rw [← heq'], hne, ha⟩
  have hv₂ : s₂.validLinks = s.validLinks := by rw [hs₂', ← hvalid]
  have hset : vifSetLinks s₂ s₂.validLinks dormantLinks = { s₂ with dormantLinks } := by
    apply vifSetLinks_eq
    · rwa [hs₂']
    · rw [hv₂, hd]
    · rwa [hv₂]
  rw [hset, hs₂']
  exact ⟨hvalid, hane, hause, rfl, rfl, hneg, hinfo⟩

/-! ### Events -/

/-- The bitmaps are consistent, and the station knows of a mapping in force or has replaced it by an
announced one. -/
structure Inv (t : Traced) : Prop extends Consistent t where
  known : t.disabled ≠ 0 → t.state.ttlmInfo.active = true ∨ t.state.ttlmInfo.switchTime ≠ 0

variable {t t' : Traced}

theorem unmapped_of_none (h : s.negTtlm = none) : unmapped s = 0 := by
  rw [unmapped, h]

theorem Associated.inv (h : Associated t) : Inv t where
  active_ne := h.active_ne
  active_usable := h.active_usable
  suspended := by simp [h.suspended, unmapped_of_none h.negTtlm]
  dormant := by simp [h.dormant, h.suspended]
  disabled_valid := h.disabled_valid
  known hne := Or.inl (h.active hne)

theorem Consistent.dormant_sub (h : Consistent t) :
    t.state.dormantLinks &&& ~~~t.state.suspendedLinks = t.disabled := by
  rw [h.dormant, h.suspended]
  ext i hi
  grind

theorem Consistent.dormant_of_unmapped (h : Consistent t) (hun : unmapped t.state = 0) :
    t.state.dormantLinks = t.disabled := by
  simp [h.dormant, h.suspended, hun]

theorem Consistent.active_within (h : Consistent t)
    (hd : dormantLinks &&& t.state.dormantLinks = dormantLinks) :
    t.state.activeLinks &&& (t.state.validLinks &&& ~~~dormantLinks) = t.state.activeLinks := by
  refine and_trans h.active_usable ?_
  rw [State.usableLinks, ← hd]
  ext i hi
  grind

theorem map_within (map validLinks : Links) :
    ~~~map &&& validLinks &&& validLinks = ~~~map &&& validLinks ∧
      map &&& validLinks &&& (validLinks &&& ~~~(~~~map &&& validLinks)) = map &&& validLinks := by
  constructor
  · rw [BitVec.and_assoc, BitVec.and_self]
  · ext i hi
    grind

theorem Consistent.vifSetLinks_fewer (h : Consistent t)
    (hd : dormantLinks &&& t.state.dormantLinks = dormantLinks)
    (hs : s.activeLinks = t.state.activeLinks) (hv : s.validLinks = t.state.validLinks) :
    vifSetLinks s s.validLinks dormantLinks = { s with dormantLinks } := by
  have hdormant : t.state.dormantLinks &&& t.state.validLinks = t.state.dormantLinks := by
    have hdis := h.disabled_valid
    rw [h.dormant, h.suspended, unmapped, ← hdis]
    split
    · ext i hi
      grind
    · simp [hdis]
  apply vifSetLinks_eq
  · rw [hs]
    exact h.active_ne
  · rw [hv]
    exact and_trans hd hdormant
  · rw [hv]
    exact ne_zero_of_and h.active_ne (h.active_within hd)

theorem inv_work (h : Inv t) (hw : tidToLinkMapWork t.state drv = some s') :
    Inv ⟨s', ~~~t.state.ttlmInfo.map &&& t.state.validLinks⟩ := by
  obtain ⟨s₁, hs₁, rfl⟩ := Option.map_eq_some_iff.mp hw
  have hclear : vifSetLinks { t.state with ttlmWork := false } t.state.validLinks 0 =
      { t.state with ttlmWork := false, dormantLinks := 0 } :=
    h.vifSetLinks_fewer BitVec.zero_and rfl rfl
  rw [hclear] at hs₁
  obtain ⟨hdis, hact⟩ := map_within t.state.ttlmInfo.map t.state.validLinks
  have hsw := ttlmSetLinks_switched hs₁ hdis hact
  refine ⟨⟨hsw.active_ne, ?_, ?_, ?_, ?_⟩, fun _ => Or.inl rfl⟩
  · simp only [State.usableLinks, hsw.validLinks, hsw.dormantLinks]
    exact hsw.active_usable
  · simp [hsw.suspendedLinks, unmapped, hsw.negTtlm]
  · simp [hsw.dormantLinks, hsw.suspendedLinks]
  · simp only [hsw.validLinks]
    exact hdis

theorem announce_eq {beaconTs : ℕ} {elems : List (List UInt8)}
    (h : announce s beaconTs elems = some s') :
    s' = s ∨ ∃ info : AdvTtlmInfo, info.switchTime ≠ 0 ∧
      s' = { s with ttlmInfo := info, ttlmWork := true } := by
  induction elems with
  | nil =>
    cases h
    exact Or.inl rfl
  | cons ttlm elems ih =>
    rw [announce] at h
    split at h
    · cases h
    rename_i info _
    split at h
    next hswitch =>
      simp only at h
      split at h <;> cases h
      · exact Or.inl rfl
      · exact Or.inr ⟨info, hswitch, rfl⟩
    · exact ih h

theorem inv_announce {beaconTs : ℕ} {elems : List (List UInt8)} (h : Inv t)
    (ha : announce t.state beaconTs elems = some s') : Inv ⟨s', t.disabled⟩ := by
  obtain rfl | ⟨info, hswitch, rfl⟩ := announce_eq ha
  · exact h
  · exact ⟨⟨h.active_ne, h.active_usable, h.suspended, h.dormant, h.disabled_valid⟩,
      fun _ => Or.inr hswitch⟩

theorem inv_ended {beaconTs : ℕ} (h : Inv t)
    (hok : if t.state.ttlmInfo.switchTime ≠ 0 then t.disabled = 0
      else t.state.ttlmInfo.active = true → unmapped t.state = 0)
    (ha : processAdvTtlm t.state beaconTs [] = some s') : Inv ⟨s', 0⟩ := by
  -- no links are disabled, and the dormant links stay
  have kept : ∀ work, t.disabled = 0 →
      Inv ⟨{ t.state with ttlmWork := work, ttlmInfo := ⟨0, 0, 0, false⟩ }, 0⟩ := by
    intro work hzero
    refine ⟨⟨h.active_ne, h.active_usable, ?_, ?_, BitVec.zero_and⟩, fun hne => absurd rfl hne⟩
    · rw [← hzero]
      exact h.suspended
    · rw [← hzero]
      exact h.dormant
  cases ha
  split
  next hswitch =>
    rw [if_pos hswitch] at hok
    exact kept false hok
  rename_i hswitch
  rw [if_neg hswitch] at hok
  split
  next hactive =>
    have hun := hok hactive
    have hset : vifSetLinks t.state t.state.validLinks 0 = { t.state with dormantLinks := 0 } :=
      h.vifSetLinks_fewer BitVec.zero_and rfl rfl
    have hsus : t.state.suspendedLinks = 0 := by simp [h.suspended, hun]
    rw [hset]
    refine ⟨⟨h.active_ne, h.active_within BitVec.zero_and, ?_, ?_, BitVec.zero_and⟩,
      fun hne => absurd rfl hne⟩
    · show t.state.suspendedLinks = unmapped t.state &&& ~~~(0 : Links)
      rw [hsus, hun]
      rfl
    · show (0 : Links) = t.state.suspendedLinks ||| 0
      rw [hsus]
      rfl
  next hactive =>
    refine kept t.state.ttlmWork ?_
    by_contra hne
    rcases h.known hne with h' | h'
    · exact hactive h'
    · exact hswitch h'

theorem negotiated_within {disabled validLinks : Links} (h : disabled &&& validLinks = disabled)
    (map : Links) :
    (disabled ||| ~~~map &&& validLinks &&& ~~~disabled) &&& validLinks =
        disabled ||| ~~~map &&& validLinks &&& ~~~disabled ∧
      map &&& validLinks &&& ~~~disabled &&&
          (validLinks &&& ~~~(disabled ||| ~~~map &&& validLinks &&& ~~~disabled)) =
        map &&& validLinks &&& ~~~disabled := by
  constructor
  all_goals
    ext i hi
    grind

theorem inv_negotiated {neg : NegTtlm} (h : Inv t) (hn : applyNegTtlm t.state drv neg = some s') :
    Inv ⟨s', t.disabled⟩ := by
  -- what an earlier mapping suspended is taken back first
  have hback : (if t.state.negTtlm.isSome then
        { t.state with dormantLinks := t.state.dormantLinks &&& ~~~t.state.suspendedLinks }
      else t.state) = { t.state with dormantLinks := t.disabled } := by
    split
    · rw [h.dormant_sub]
    next hnone =>
      have hneg : t.state.negTtlm = none := by simpa using hnone
      rw [← h.dormant_of_unmapped (unmapped_of_none hneg)]
  rw [applyNegTtlm] at hn
  simp only [hback] at hn
  obtain ⟨s₁, hs₁, rfl⟩ := Option.map_eq_some_iff.mp hn
  obtain ⟨hd, ha⟩ := negotiated_within h.disabled_valid neg.map
  have hsw := ttlmSetLinks_switched hs₁ hd ha
  refine ⟨⟨hsw.active_ne, ?_, ?_, ?_, ?_⟩, ?_⟩
  · simp only [State.usableLinks, hsw.validLinks, hsw.dormantLinks]
    exact hsw.active_usable
  · simp only [unmapped, hsw.suspendedLinks, hsw.validLinks]
    rw [BitVec.and_comm (~~~neg.map)]
  · simp only [hsw.dormantLinks, hsw.suspendedLinks]
    rw [BitVec.or_comm]
  · simp only [hsw.validLinks]
    exact h.disabled_valid
  · simp only [hsw.ttlmInfo]
    exact h.known

theorem inv_teardown (h : Inv t) : Inv ⟨processTtlmTeardown t.state, t.disabled⟩ := by
  unfold processTtlmTeardown
  split
  · have hdis : t.disabled &&& t.state.dormantLinks = t.disabled := by
      rw [h.dormant]
      ext i hi
      grind
    have hset := h.vifSetLinks_fewer (s := { t.state with negTtlm := none, suspendedLinks := 0 })
      hdis rfl rfl
    simp only [h.dormant_sub, hset]
    refine ⟨⟨h.active_ne, h.active_within hdis, ?_, ?_, h.disabled_valid⟩, h.known⟩
    · simp [unmapped]
    · simp
  · exact h

theorem inv_step (event : Event) {out : Unit} (h : step t event = some (out, t'))
    (hok : Respected ⟨t, event, out, t'⟩) (hinv : Inv t) : Inv t' := by
  cases event with
  | beacon elems beaconTs =>
    obtain ⟨s', hs', heq⟩ := Option.map_eq_some_iff.mp h
    cases heq
    by_cases hnil : elems = []
    · subst hnil
      exact inv_ended hinv (hok beaconTs rfl) hs'
    · rw [processAdvTtlm, if_neg hnil] at hs'
      rw [if_neg hnil]
      exact inv_announce hinv hs'
  | work drv =>
    rw [step] at h
    split at h
    · obtain ⟨s', hs', heq⟩ := Option.map_eq_some_iff.mp h
      cases heq
      exact inv_work hinv hs'
    · cases h
  | negotiated neg drv =>
    obtain ⟨s', hs', heq⟩ := Option.map_eq_some_iff.mp h
    cases heq
    exact inv_negotiated hinv hs'
  | teardown =>
    cases h
    exact inv_teardown hinv

/-! ### Whole runs -/

/-- **The bitmaps fit the mappings** after every event, if no beacon without an element comes at a
wrong time. -/
theorem ttlm_links_consistent (h0 : Associated t) {ls : List (Label Traced Event Unit)}
    (hrun : Run step t ls t') (hok : ∀ l ∈ ls, Respected l) :
    Consistent t' ∧ ∀ l ∈ ls, Consistent l.pre ∧ Consistent l.post := by
  have hstep : ∀ s a b s', step s a = some (b, s') → Respected ⟨s, a, b, s'⟩ → Inv s → Inv s' :=
    fun _ a _ _ hs hok hinv => inv_step a hs hok hinv
  obtain ⟨hend, hall⟩ := hrun.induct hstep hok h0.inv
  refine ⟨hend.toConsistent, ?_⟩
  intro l hl
  obtain ⟨-, hpre, hpost⟩ := hall l hl
  exact ⟨hpre.toConsistent, hpost.toConsistent⟩

/-- Three valid links, all of them active; an advertised mapping may disable one. -/
def threeLinks (disabled : Links) : Traced where
  state :=
    { validLinks := 7
      activeLinks := 7 &&& ~~~disabled
      dormantLinks := disabled
      suspendedLinks := 0
      negTtlm := none
      ttlmInfo := ⟨0, 0, 7 &&& ~~~disabled, disabled ≠ 0⟩
      ttlmWork := false }
  disabled := disabled

def uniform (links : Links) : NegTtlm := ⟨fun _ => links, fun _ => links⟩

/-- The element that announces a mapping of all TIDs to some links, at time 5. -/
def switchTo (links : UInt8) : List UInt8 := [0x2a, 0xff, 5, 0] ++ List.replicate 8 links

theorem associated_threeLinks {disabled : Links} (h : disabled = 0 ∨ disabled = 4) :
    Associated (threeLinks disabled) := by
  rcases h with rfl | rfl
  all_goals constructor <;> decide

/-- A mapping to two links is announced and made; a negotiated mapping leaves one link; then both
end. -/
theorem ttlm_links_consistent_three :
    ∃ r, execute step (threeLinks 0) [.beacon [switchTo 3] 0, .work true,
        .negotiated (uniform 1) true, .teardown, .beacon [] 0] = some r ∧
      r.1.map (fun l => l.post.state.dormantLinks) = [0, 4, 6, 4, 0] ∧
      Consistent r.2 ∧ ∀ l ∈ r.1, Consistent l.pre ∧ Consistent l.post := by
  obtain ⟨r, hr, hdormant, hok⟩ : ∃ r, execute step (threeLinks 0) [.beacon [switchTo 3] 0,
      .work true, .negotiated (uniform 1) true, .teardown, .beacon [] 0] = some r ∧
      r.1.map (fun l => l.post.state.dormantLinks) = [0, 4, 6, 4, 0] ∧
      ∀ l ∈ r.1, Respected l := by decide +kernel
  exact ⟨r, hr, hdormant,
    ttlm_links_consistent (associated_threeLinks (Or.inl rfl)) (execute_run hr).1 hok⟩

/-- With a mapping that disables link 2, a negotiated mapping to link 0 suspends link 1.  A beacon
without an element then makes link 1 usable although it is suspended.  Or another mapping is
announced, and the beacon leaves link 2 dormant although no mapping is in force. -/
theorem beacon_forgets_links :
    Associated (threeLinks 4) ∧
    (∃ r, execute step (threeLinks 4) [.negotiated (uniform 1) true] = some r ∧
      unmapped r.2.state = 6 ∧ r.2.state.suspendedLinks = 2) ∧
    (∃ r, execute step (threeLinks 4) [.negotiated (uniform 1) true, .beacon [] 0] = some r ∧
      r.2.disabled = 0 ∧ r.2.state.suspendedLinks = 2 ∧ r.2.state.dormantLinks = 0) ∧
    ∃ r, execute step (threeLinks 4) [.beacon [switchTo 7] 0, .beacon [] 0] = some r ∧
      r.2.disabled = 0 ∧ r.2.state.suspendedLinks = 0 ∧ r.2.state.dormantLinks = 4 := by
  refine ⟨associated_threeLinks (Or.inr rfl), ⟨_, rfl, ?_⟩, ⟨_, rfl, ?_⟩, ⟨_, rfl, ?_⟩⟩
  · decide +kernel
  · decide +kernel
  · decide +kernel

end Iwlwifi.Ieee80211.Ttlm
