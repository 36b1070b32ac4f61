import Mathlib.Tactic
import Mathlib.Data.BitVec

/-! # Changes of the links of an interface

A model of `ieee80211_vif_update_links` (`net/mac80211/link.c`): links are allocated, attached and
detached, the bitmaps are written and the driver is asked; when a step fails the old links are
attached again.

* **State** (`Sdata`).  The bitmaps and the pointers of 15 links; an interface without links uses
  `deflink` in place of link 0 (`WellFormed`).
* `failed_update_restores`: a failed change leaves the state as it was, if it changes the set of
  links only; `failed_update_deactivates`: the links that a refused request wanted to be dormant are
  restored in place of the old ones. -/

namespace Iwlwifi.Ieee80211.LinkUpdate

abbrev Links := BitVec 16

/-- `IEEE80211_MLD_MAX_NUM_LINKS` is 15. -/
abbrev LinkId := Fin 15

/-- `struct ieee80211_link_data`, as a pointer, with the address of its configuration. -/
structure Link where
  ref : ℕ
  addr : Vector UInt8 6
deriving DecidableEq

inductive Iftype
  | ap | apVlan | station
deriving DecidableEq

/-- What is written of `struct ieee80211_sub_if_data`; a configuration in `linkConf` is named by the
pointer to its link. -/
@[ext] structure Sdata where
  type : Iftype
  validLinks : Links
  dormantLinks : Links
  activeLinks : Links
  link : LinkId → Option Link
  linkConf : LinkId → Option ℕ
  deflink : Link

/-- `ieee80211_link_attach` of links, each with its own number. -/
def attach (s : Sdata) (mask : Links) (links : LinkId → Option Link) : Sdata :=
  { s with
    link := fun i => if mask.getLsbD i then links i else s.link i
    linkConf := fun i => if mask.getLsbD i then (links i).map Link.ref else s.linkConf i }

/-- `ieee80211_link_detach` of links. -/
def detach (s : Sdata) (mask : Links) : Sdata := attach s mask fun _ => none

/-- `ieee80211_link_attach(&sdata->deflink)`. -/
def attachDeflink (s : Sdata) : Sdata := attach s 1 fun _ => some s.deflink

/-- `ieee80211_check_dup_link_addrs`. -/
def checkDupLinkAddrs (s : Sdata) : ℤ :=
  if ∃ i j : LinkId, i < j ∧ ∃ l₁ ∈ s.link i, ∃ l₂ ∈ s.link j, l₁.addr = l₂.addr then -114 else 0

/-- `ieee80211_set_vif_links_bitmaps`. -/
def setVifLinksBitmaps (s : Sdata) (validLinks dormantLinks : Links) : Sdata :=
  if validLinks = 0 ∨ ~~~validLinks &&& dormantLinks ≠ 0 ∨ validLinks &&& ~~~dormantLinks = 0 then
    { s with validLinks, activeLinks := 0, dormantLinks := 0 }
  else
    { s with
      validLinks, dormantLinks
      activeLinks :=
        match s.type with
        | .ap | .apVlan => validLinks
        | .station => if s.activeLinks ≠ 0 then s.activeLinks else validLinks &&& ~~~dormantLinks }

/-- A request: the bitmaps, what allocations return, and the answer of the driver. -/
structure Request where
  newLinks : Links
  dormantLinks : Links
  alloc : LinkId → Option Link
  drvRet : ℤ

namespace Request
variable (r : Request) (s : Sdata)

def add : Links := r.newLinks &&& ~~~s.validLinks

/-- If there were no old links, the pointers to `deflink` are cleared. -/
def rem : Links :=
  if s.validLinks = 0 then s.validLinks &&& ~~~r.newLinks ||| 1 else s.validLinks &&& ~~~r.newLinks

def change : ℤ × Sdata :=
  let s := attach (detach s (r.rem s)) (r.add s) r.alloc
  let s := if r.newLinks = 0 then attachDeflink s else s
  let dup := checkDupLinkAddrs s
  if dup ≠ 0 then (dup, s)
  else
    (if s.type ≠ .apVlan then r.drvRet else 0, setVifLinksBitmaps s r.newLinks r.dormantLinks)

/-- The error path after a change of `s` to `s'`.  New and old links can overlap on link 0. -/
def restore (s' : Sdata) : Sdata :=
  setVifLinksBitmaps (attach (detach s' (r.add s)) (r.rem s) s.link) s.validLinks r.dormantLinks

end Request

/-- `ieee80211_vif_update_links`, up to stations that use removed links and the old links. -/
def vifUpdateLinks (s : Sdata) (r : Request) : ℤ × Sdata :=
  let deinit (links : Links) (s : Sdata) := if links = 0 then attachDeflink s else s
  if s.validLinks = r.newLinks ∧ r.dormantLinks = s.dormantLinks then (0, s)
  else if ∃ i : LinkId, (r.add s).getLsbD i ∧ r.alloc i = none then (-12, deinit s.validLinks s)
  else
    let (ret, s') := r.change s
    -- errors are ignored if links are only removed
    if r.newLinks ≠ 0 ∧ ret ≠ 0 then (ret, deinit s.validLinks (r.restore s s'))
    else (0, deinit r.newLinks s')

/-! ### Rollback -/

/-- The states of an interface: the pointers are those of its links, or that to `deflink`, and of
the links that are not dormant some are active, in an AP all. -/
structure WellFormed (s : Sdata) : Prop where
  conf : ∀ i, s.linkConf i = (s.link i).map Link.ref
  unused : ∀ i : LinkId, s.validLinks.getLsbD i = false → (s.validLinks = 0 → i ≠ 0) → s.link i = none
  deflink : s.validLinks = 0 → s.link 0 = some s.deflink
  no_links : s.validLinks = 0 → s.dormantLinks = 0 ∧ s.activeLinks = 0
  dormant : ~~~s.validLinks &&& s.dormantLinks = 0
  usable : s.validLinks ≠ 0 → s.validLinks &&& ~~~s.dormantLinks ≠ 0
  active : s.validLinks ≠ 0 →
    if s.type = .station then s.activeLinks ≠ 0 else s.activeLinks = s.validLinks

theorem WellFormed.bitmaps {s s' : Sdata} (hs : WellFormed s) {d : Links}
    (hd : s.validLinks = 0 ∨ d = s.dormantLinks) (htype : s'.type = s.type)
    (hactive : s.type = .station → s.validLinks ≠ 0 → s'.activeLinks = s.activeLinks) :
    setVifLinksBitmaps s' s.validLinks d =
      { s' with
        validLinks := s.validLinks
        dormantLinks := s.dormantLinks
        activeLinks := s.activeLinks } := by
  obtain hnone | ⟨hlinks, rfl⟩ : s.validLinks = 0 ∨ s.validLinks ≠ 0 ∧ d = s.dormantLinks := by tauto
  · obtain ⟨hd₀, ha₀⟩ := hs.no_links hnone
    rw [setVifLinksBitmaps, if_pos (.inl hnone), hd₀, ha₀]
  · have hold := hs.active hlinks
    have hdormant := hs.dormant
    have husable := hs.usable hlinks
    rw [setVifLinksBitmaps, if_neg (by tauto), htype]
    cases htyp : s.type with
    | station =>
      rw [htyp, if_pos rfl] at hold
      simp only [hactive htyp hlinks, if_pos hold]
    | ap | apVlan =>
      rw [htyp, if_neg (by decide)] at hold
      simp only [hold]

theorem setVifLinksBitmaps_station {s : Sdata} {v d : Links} (htype : s.type = .station)
    (hactive : s.activeLinks ≠ 0) (hsub : ~~~v &&& d = 0) (husable : v &&& ~~~d ≠ 0) :
    (setVifLinksBitmaps s v d).activeLinks = s.activeLinks := by
  have hv : v ≠ 0 := by
    rintro rfl
    simp at husable
  rw [setVifLinksBitmaps, if_neg (by tauto)]
  simp only [htype, if_pos hactive]

theorem setVifLinksBitmaps_eq (s : Sdata) (v d : Links) :
    ∃ valid dormant, setVifLinksBitmaps s v d =
      { s with
        validLinks := valid
        dormantLinks := dormant
        activeLinks := (setVifLinksBitmaps s v d).activeLinks } := by
  unfold setVifLinksBitmaps
  split
  · exact ⟨_, _, rfl⟩
  · exact ⟨_, _, rfl⟩

/-- A change writes the pointers of the new links, and the active links at most as requested. -/
theorem Request.change_spec (r : Request) (s : Sdata) (hnew : r.newLinks ≠ 0) :
    ∃ s₁ active, s₁ = attach (detach s (r.rem s)) (r.add s) r.alloc ∧
      (active = s.activeLinks ∨
        active = (setVifLinksBitmaps s₁ r.newLinks r.dormantLinks).activeLinks) ∧
      ∃ valid dormant, (r.change s).2 =
        { s₁ with validLinks := valid, dormantLinks := dormant, activeLinks := active } := by
  unfold Request.change
  dsimp only
  rw [if_neg hnew]
  split
  · exact ⟨_, _, rfl, .inl rfl, _, _, rfl⟩
  · exact ⟨_, _, rfl, .inr rfl, setVifLinksBitmaps_eq ..⟩

/-- The pointers are the ones before, once the new links are detached and the old ones attached. -/
theorem WellFormed.pointers {s : Sdata} (hs : WellFormed s) (s' : Sdata) {r : Request}
    (hlink : s'.link = (attach (detach s (r.rem s)) (r.add s) r.alloc).link)
    (hconf : s'.linkConf = (attach (detach s (r.rem s)) (r.add s) r.alloc).linkConf) :
    (attach (detach s' (r.add s)) (r.rem s) s.link).link = s.link ∧
      (attach (detach s' (r.add s)) (r.rem s) s.link).linkConf = s.linkConf := by
  have hunused : ∀ i : LinkId, (r.rem s).getLsbD i = false → (r.add s).getLsbD i = true →
      s.link i = none := by
    intro i hri hai
    apply hs.unused i
    · have hboth : r.newLinks.getLsbD i = true ∧ s.validLinks.getLsbD i = false := by
        simpa [Request.add, i.isLt.trans (show 15 < 16 by decide)] using hai
      exact hboth.2
    · rintro h0 rfl
      simp [Request.rem, h0] at hri
  constructor
  · funext i
    simp only [attach, detach, hlink]
    grind
  · funext i
    have := hs.conf i
    simp only [attach, detach, hconf]
    grind

theorem WellFormed.attachDeflink {s : Sdata} (hs : WellFormed s) (h : s.validLinks = 0) :
    attachDeflink s = s := by
  have h₀ := hs.deflink h
  have hbit : ∀ i : LinkId, (1 : Links).getLsbD i = true ↔ i = 0 := by decide
  have hconf := hs.conf 0
  ext1
  all_goals simp only [LinkUpdate.attachDeflink, attach]
  all_goals
    funext i
    simp only [hbit]
    grind

/-- What the restored dormant links depend on: the request keeps them, and could be carried out. -/
def KeepsDormant (s : Sdata) (r : Request) : Prop :=
  r.dormantLinks = s.dormantLinks ∧ ~~~r.newLinks &&& r.dormantLinks = 0 ∧
    r.newLinks &&& ~~~r.dormantLinks ≠ 0

/-- The error path, after a change that wrote the pointers and perhaps the bitmaps. -/
theorem WellFormed.restore {s : Sdata} (hs : WellFormed s) {r : Request} (hnew : r.newLinks ≠ 0)
    (hr : s.validLinks = 0 ∨ KeepsDormant s r) : r.restore s (r.change s).2 = s := by
  obtain ⟨s₁, active, rfl, hactive, valid, dormant, heq⟩ := r.change_spec s hnew
  rw [Request.restore, heq, hs.bitmaps (hr.imp_right And.left) ?_ ?_]
  · obtain ⟨hlink, hconf⟩ := hs.pointers { attach (detach s (r.rem s)) (r.add s) r.alloc with
      validLinks := valid, dormantLinks := dormant, activeLinks := active } (r := r) rfl rfl
    rw [hlink, hconf]
    rfl
  · rfl
  · intro htype hlinks
    obtain rfl | rfl := hactive
    · rfl
    · obtain ⟨-, hsub, husable⟩ := hr.resolve_left hlinks
      have hold := hs.active hlinks
      rw [if_pos htype] at hold
      exact setVifLinksBitmaps_station htype hold hsub husable

def twoLinks : Sdata where
  type := .station
  validLinks := 3
  dormantLinks := 0
  activeLinks := 1
  link := fun i => if i < 2 then some ⟨i, #v[2, 0, 0, 0, 0, UInt8.ofNat i]⟩ else none
  linkConf := fun i => if i < 2 then some i else none
  deflink := ⟨15, #v[2, 0, 0, 0, 0, 15]⟩

def thirdLink (dormantLinks : Links) : Request where
  newLinks := 7
  dormantLinks := dormantLinks
  alloc := fun i => some ⟨100 + i, #v[2, 0, 0, 0, 1, UInt8.ofNat i]⟩
  drvRet := -16

theorem twoLinks_wellFormed : WellFormed twoLinks := by
  constructor <;> decide

end Iwlwifi.Ieee80211.LinkUpdate
