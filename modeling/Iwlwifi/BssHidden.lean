import Iwlwifi.BssOrder

/-! # Lookup of hidden SSIDs

A probe response looks for the beacon of its hidden SSID with two comparisons that differ from the one
that the search tree is sorted by.

* **The key that is sought** (`soughtKey`).  Each of the two compares the entries with the key of an
  entry whose SSID is empty, or all NUL bytes (`leads_cmpSsid_hidden`), so that the search descends
  as in a regular lookup of this key.
* `rb_find_hidden_iff`: a search returns an entry exactly if the tree holds one that hides the SSID
  of the probe (`HidesSsid`); `absent_ssid_not_found`: an entry without SSID element is not found by
  a probe that has one. -/

namespace Iwlwifi.Cfg80211

open SearchTree

def soughtSsid (mode : CmpMode) (ssid : Option (List UInt8)) : Option (List UInt8) :=
  ssid.map fun l =>
    match mode with
    | .regular => l
    | .hideZlen => []
    | .hideNul => List.replicate l.length 0

/-- The key of the entries that are sought, among those that are no mesh BSSs. -/
def soughtKey (mode : CmpMode) (a : Pub) : List ℤ :=
  -(a.channel : ℤ) :: (a.bssid : ℤ) :: ssidKey (soughtSsid mode (a.ies.find eidSsid))

theorem memcmp_zeros (l : List UInt8) :
    (memcmp (List.replicate l.length 0) l < 0 ↔ l.any (· ≠ 0) = true) ∧
    (memcmp (List.replicate l.length 0) l = 0 ↔ l.any (· ≠ 0) = false) := by
  induction l with
  | nil => simp [memcmp]
  | cons x l ih =>
    rw [List.length_cons, List.replicate_succ, memcmp]
    by_cases hx : x = 0
    · subst hx
      simpa using ih
    · have hpos : 0 < x.toNat := Nat.pos_of_ne_zero fun h => hx (UInt8.toNat_inj.mp h)
      simp [Ne.symm hx, hx]
      omega

theorem leads_cmpSsid_hidden {mode : CmpMode} (hmode : mode ≠ .regular)
    (a b : Option (List UInt8)) :
    Leads (cmpSsid a b mode) (ssidKey (soughtSsid mode a)) (ssidKey b) := by
  cases a with
  | none =>
    cases b with
    | none => exact leads_sub 0 0
    | some b => exact (leads_sub 0 1).append_of_ne (by decide) [] (dataKey b)
  | some a =>
    cases b with
    | none => exact (leads_sub 1 0).append_of_ne (by decide) (dataKey _) []
    | some b =>
      refine (leads_sub 1 1).append_of_eq rfl ?_
      cases mode with
      | regular => exact absurd rfl hmode
      | hideZlen =>
        have h := leads_sub 0 (-(b.length : ℤ))
        rw [zero_sub, neg_neg] at h
        by_cases hb : b = []
        · subst hb
          exact h
        · exact h.append_of_ne (by simpa using hb) [] _
      | hideNul =>
        have h := leads_cmpData (List.replicate a.length 0) b
        simp only [cmpData, List.length_replicate] at h
        simp only [cmpSsid]
        split
        next hlen => rwa [if_pos hlen] at h
        rename_i hlen
        have hlen := not_not.mp hlen
        rw [if_neg (not_not.mpr hlen), hlen] at h
        rw [hlen]
        refine h.congr ?_ ?_
        · rw [(memcmp_zeros b).1]
          cases b.any (· ≠ 0) <;> decide
        · rw [(memcmp_zeros b).2]
          cases b.any (· ≠ 0) <;> decide

theorem leads_cmpBss_hidden {mode : CmpMode} (hmode : mode ≠ .regular) (a : Pub) {b : Pub}
    (hb : b.mesh = false) : Leads (cmpBss a b mode) (soughtKey mode a) b.key := by
  have hchannel := leads_sub (-(a.channel : ℤ)) (-(b.channel : ℤ))
  rw [show -(a.channel : ℤ) - -(b.channel : ℤ) = (b.channel : ℤ) - a.channel by omega] at hchannel
  have hkey : b.key = [-(b.channel : ℤ)] ++ ([(b.bssid : ℤ)] ++ ssidKey (b.ies.find eidSsid)) := by
    obtain ⟨-, hkey⟩ | ⟨_, _, hmesh, -⟩ := b.meshKey_cases
    · rw [Pub.key, hkey]
      rfl
    · rw [hb] at hmesh
      cases hmesh
  rw [hkey]
  by_cases hc : a.channel = b.channel
  · rw [cmpBss_of_not_mesh hc (.inr hb)]
    refine hchannel.append_of_eq (by omega) ?_
    have hbssid := leads_sub (a.bssid : ℤ) b.bssid
    rw [cmpBssid]
    by_cases hne : a.bssid = b.bssid
    · rw [if_neg (not_not.mpr hne)]
      exact hbssid.append_of_eq (by omega) (leads_cmpSsid_hidden hmode _ _)
    · rw [if_pos hne]
      exact hbssid.append_of_ne (by omega) _ _
  · rw [cmpBss, if_pos hc]
    exact hchannel.append_of_ne (by omega) _ _

/-- The entry `b` hides the SSID of the probe `a`: its SSID is empty, or consists of as many NUL
bytes.  If the probe has no SSID element, the entry has none either. -/
def HidesSsid (mode : CmpMode) (a b : Pub) : Prop :=
  a.channel = b.channel ∧ a.bssid = b.bssid ∧
    match a.ies.find eidSsid, b.ies.find eidSsid with
    | none, none => True
    | some k, some l =>
      match mode with
      | .regular => l = k
      | .hideZlen => l = []
      | .hideNul => l.length = k.length ∧ ∀ x ∈ l, x = 0
    | _, _ => False

theorem cmpBss_eq_zero_iff {mode : CmpMode} (hmode : mode ≠ .regular) (a : Pub) {b : Pub}
    (hb : b.mesh = false) : cmpBss a b mode = 0 ↔ HidesSsid mode a b := by
  unfold HidesSsid
  by_cases hc : a.channel = b.channel
  · rw [cmpBss_of_not_mesh hc (.inr hb), cmpBssid]
    by_cases hbssid : a.bssid = b.bssid
    · cases mode <;> cases a.ies.find eidSsid <;> cases b.ies.find eidSsid <;>
        simp_all [cmpSsid]
      rename_i k l
      by_cases hlen : k.length = l.length
      · simp [hlen]
      · omega
    · rw [if_pos hbssid]
      omega
  · rw [cmpBss, if_pos hc]
    omega

/-- **Lookup of hidden SSIDs.**  In a tree of entries that are no mesh BSSs, in the regular order, a
search in one of the two modes finds an entry exactly if one hides the SSID of the probe. -/
theorem rb_find_hidden_iff (s : State) (hmesh : ∀ b ∈ s.bssTree.toList, (s.heap b).pub.mesh = false)
    (hsorted : s.bssTree.toList.Pairwise fun x y =>
      cmpBss (s.heap x).pub (s.heap y).pub .regular < 0)
    (a : Pub) (mode : CmpMode) (hmode : mode ≠ .regular) :
    ((rbFindBss s a mode).isSome = true ↔
      ∃ b ∈ s.bssTree.toList, HidesSsid mode a (s.heap b).pub) ∧
    ∀ b, rbFindBss s a mode = some b →
      b ∈ s.bssTree.toList ∧ HidesSsid mode a (s.heap b).pub := by
  have hkeys : Sorted s.key s.bssTree.toList := by
    refine hsorted.imp_of_mem fun {x y} hx hy hlt => ?_
    refine (leads_cmpBss fun _ => ?_).lt_iff.mp hlt
    rw [hmesh x hx, hmesh y hy]
  have hagrees : Agrees s.key (fun b => cmpBss a (s.heap b).pub mode) (soughtKey mode a)
      s.bssTree.toList := by
    intro b hb
    have hlead := leads_cmpBss_hidden hmode a (hmesh b hb)
    exact ⟨hlead.lt_iff, hlead.eq_iff⟩
  have hsound : ∀ b, rbFindBss s a mode = some b →
      b ∈ s.bssTree.toList ∧ HidesSsid mode a (s.heap b).pub := by
    intro b hfound
    obtain ⟨hb, hzero⟩ := search_eq_some hfound
    exact ⟨hb, (cmpBss_eq_zero_iff hmode a (hmesh b hb)).mp hzero⟩
  refine ⟨⟨fun hsome => ?_, fun ⟨b, hb, hhides⟩ => ?_⟩, hsound⟩
  · obtain ⟨b, hfound⟩ := Option.isSome_iff_exists.mp hsome
    exact ⟨b, hsound b hfound⟩
  rw [Option.isSome_iff_ne_none]
  intro hnone
  apply search_eq_none hkeys hagrees hnone b hb
  exact (hagrees b hb).2.mp ((cmpBss_eq_zero_iff hmode a (hmesh b hb)).mpr hhides)

def bssOf (data : List UInt8) : Bss :=
  ⟨⟨5180000, 7, 1, ⟨0, data⟩, none, none, none, none⟩, 0, 1, 0, 0⟩

/-- A tree with the SSID `[1, 2]`, two NUL bytes and an empty SSID. -/
def hiddenTree : State :=
  { initial with
    heap := fun b => bssOf (if b = 0 then [0, 2, 0, 0] else if b = 1 then [0, 2, 1, 2] else [0, 0])
    bssTree := .node (.node .nil 0 .nil) 1 (.node .nil 2 .nil) }

/-- A probe with an SSID of two bytes. -/
theorem rb_find_hidden_iff_probe :
    ((rbFindBss hiddenTree (bssOf [0, 2, 8, 9]).pub .hideNul).isSome = true ↔
      ∃ b ∈ hiddenTree.bssTree.toList,
        HidesSsid .hideNul (bssOf [0, 2, 8, 9]).pub (hiddenTree.heap b).pub) ∧
    ∀ b, rbFindBss hiddenTree (bssOf [0, 2, 8, 9]).pub .hideNul = some b →
      b ∈ hiddenTree.bssTree.toList ∧
        HidesSsid .hideNul (bssOf [0, 2, 8, 9]).pub (hiddenTree.heap b).pub :=
  rb_find_hidden_iff hiddenTree (by decide) (by decide) _ _ (by decide)

def absentTree : State :=
  { initial with heap := fun _ => bssOf [], bssTree := .node .nil 0 .nil }

/-- An entry without SSID element is not found by a probe with an SSID. -/
theorem absent_ssid_not_found :
    (absentTree.heap 0).pub.ies.find eidSsid = none ∧
    (absentTree.heap 0).pub.mesh = false ∧ 0 ∈ absentTree.bssTree.toList ∧
    (bssOf [0, 1, 8]).pub.channel = (absentTree.heap 0).pub.channel ∧
    (bssOf [0, 1, 8]).pub.bssid = (absentTree.heap 0).pub.bssid ∧
    rbFindBss absentTree (bssOf [0, 1, 8]).pub .hideZlen = none := by
  decide

end Iwlwifi.Cfg80211
