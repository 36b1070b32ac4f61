import Iwlwifi.Inherit

/-! # Profiles of non-transmitted BSSs

A model of the two users of the profiles in Multiple BSSID elements: `cfg80211_parse_mbssid_data`
(`net/wireless/scan.c`) and `ieee802_11_find_bssid_profile` (`net/mac80211/parse.c`), and of
`cfg80211_merge_profile`, with which both put together a profile that is continued in the following
Multiple BSSID elements.

* **Merging** (`mergeProfile`).  The pieces of a profile are `pieces`; they always fit in a buffer of
  the size of the frame (`mergeProfile_eq`).
* **Users** (`parseMbssidData`, `findBssidProfile`).  Each is modelled with the profiles it visits.
  `cfg80211_parse_mbssid_data` keeps the length in a `u8`, `ieee802_11_find_bssid_profile` in
  a `size_t` (`profile_complete_iff`). -/

namespace Iwlwifi.Cfg80211

open Tlv List

/-! ### Merging -/

/-- `cfg80211_iter_profile_continuation`: the next Multiple BSSID element and its first subelement,
if the profile goes on there.  `mbssid` is a place in the frame, `subElem` one in `mbssid`. -/
def iterProfileContinuation (mbssid subElem : Place) : Option (Place × Place) :=
  match findElem eidMultipleBssid mbssid.2 with
  | none => none
  | some nextMbssid =>
    if 1 < subElem.2.length then none
    else if nextMbssid.1.data.length < 4 then none
    else
      match first (nextMbssid.1.data.drop 1) with
      | none => none
      | some nextSub =>
        if nextSub.1.id ≠ 0 ∨ nextSub.1.data.length < 2 then none
        else if nextSub.1.data.getD 0 0 = eidNonTxBssidCap then none
        else some (nextMbssid, nextSub)

/-- The loop of `cfg80211_merge_profile`; `n` bounds the number of iterations. -/
def mergeLoop (maxCopyLen : ℕ) : ℕ → Place → Place → List UInt8 → List UInt8
  | 0, _, _, merged => merged
  | n + 1, mbssidElem, subElem, merged =>
    match iterProfileContinuation mbssidElem subElem with
    | none => merged
    | some (mbssidElem, subElem) =>
      if maxCopyLen < merged.length + subElem.1.data.length then merged
      else mergeLoop maxCopyLen n mbssidElem subElem (merged ++ subElem.1.data)

/-- `cfg80211_merge_profile`: the bytes copied to `merged_ie`, whose number is returned.  Every
iteration goes on to a later element of the frame. -/
def mergeProfile (mbssidElem subElem : Place) (maxCopyLen : ℕ) : List UInt8 :=
  if maxCopyLen < subElem.1.data.length then []
  else mergeLoop maxCopyLen mbssidElem.2.length mbssidElem subElem subElem.1.data

/-! ### Users -/

/-- `WLAN_EID_EXT_HE_CAPABILITY`. -/
def eidExtHeCapability : UInt8 := 35

/-- `IEEE80211_MAX_DATA_LEN`. -/
def maxDataLen : ℕ := 2304

/-- `cfg80211_gen_new_bssid`, with addresses as numbers. -/
def genNewBssid (bssid : ℕ) (maxBssid mbssidIndex : UInt8) : ℕ :=
  let size := 2 ^ maxBssid.toNat
  bssid / size * size + (bssid % size + mbssidIndex.toNat) % size

/-- The Multiple BSSID elements of a frame with at least `minLen` bytes and a valid indicator. -/
def mbssidElems (minLen : ℕ) (ie : List UInt8) : List Place :=
  (scan ie).filter fun elem =>
    elem.1.id = eidMultipleBssid ∧ minLen ≤ elem.1.data.length ∧
      1 ≤ elem.1.data.getD 0 0 ∧ elem.1.data.getD 0 0 ≤ 8

def profileSubs (elem : Place) : List Place :=
  (scan (elem.1.data.drop 1)).filter fun sub =>
    sub.1.id = 0 ∧ 4 ≤ sub.1.data.length ∧ sub.1.data.getD 0 0 = eidNonTxBssidCap ∧
      sub.1.data.getD 1 0 = 2

structure Visit where
  elem : Place
  sub : Place
  /-- the bytes that are searched for the index -/
  profile : List UInt8

/-- The data of a non-transmitted BSS. -/
structure InformData where
  bssidIndex : UInt8
  maxBssidIndicator : UInt8
  bssid : ℕ
  ie : List UInt8
  capability : ℕ

/-- What `cfg80211_parse_mbssid_data` reads. -/
structure ParseInput where
  /-- `source_bss` is not `NULL` -/
  sourceBss : Bool
  supportMbssid : Bool
  supportOnlyHeMbssid : Bool
  bssid : ℕ
  ie : List UInt8
  /-- `cfg80211_inform_single_bss_data` returns an entry -/
  informs : InformData → Bool

/-- The profile: `profile_len` is a `u8`. -/
def parseVisit (tx : ParseInput) (elem sub : Place) : Visit :=
  let merged := mergeProfile elem sub tx.ie.length
  let profileLen := merged.length % 256
  ⟨elem, sub, merged.take profileLen⟩

def informData (tx : ParseInput) (v : Visit) : Option InformData :=
  match findElem eidMultiBssidIdx v.profile with
  | none => none
  | some index =>
    let bssidIndex := index.1.data.getD 0 0
    let indicator := v.elem.1.data.getD 0 0
    if index.1.data.length < 1 ∨ bssidIndex = 0 ∨ 46 < bssidIndex ∨
        2 ^ indicator.toNat ≤ bssidIndex.toNat then none
    else
      let newIe := genNewIe tx.ie v.profile maxDataLen
      if newIe.1 = 0 then none
      else
        some
          { bssidIndex := bssidIndex
            maxBssidIndicator := indicator
            bssid := genNewBssid tx.bssid indicator bssidIndex
            ie := newIe.2
            -- read from the buffer, whatever `profile_len` is
            capability := (v.sub.1.data.getD 2 0).toNat + 256 * (v.sub.1.data.getD 3 0).toNat }

/-- The loop over the subelements of `elem`: it is left when no entry is returned. -/
def parseSubs (tx : ParseInput) (elem : Place) : List Place → List (Visit × Option InformData)
  | [] => []
  | sub :: subs =>
    let v := parseVisit tx elem sub
    let data := informData tx v
    (v, data) :: if data.all tx.informs then parseSubs tx elem subs else []

/-- `cfg80211_parse_mbssid_data`: the profiles it visits and the data it informs about. -/
def parseMbssidData (tx : ParseInput) : List (Visit × Option InformData) :=
  if tx.sourceBss = false then []
  else if findElem eidMultipleBssid tx.ie = none then []
  else if tx.supportMbssid = false then []
  else if tx.supportOnlyHeMbssid ∧ findExtElem eidExtHeCapability tx.ie = none then []
  else (mbssidElems 4 tx.ie).flatMap fun elem => parseSubs tx elem (profileSubs elem)

/-- The profile: `profile_len` is a `size_t`. -/
def findVisit (start : List UInt8) (elem sub : Place) : Visit :=
  ⟨elem, sub, mergeProfile elem sub start.length⟩

/-- The profile is that of the BSS at `bssid`. -/
def isProfileOf (transmitted bssid : ℕ) (v : Visit) : Bool :=
  match findElem eidMultiBssidIdx v.profile with
  | none => false
  | some index =>
    if index.1.data.length < 1 ∨ index.1.data.getD 0 0 = 0 then false
    else genNewBssid transmitted (v.elem.1.data.getD 0 0) (index.1.data.getD 0 0) = bssid

/-- The profiles in the order of the loops of `ieee802_11_find_bssid_profile`. -/
def findVisits (start : List UInt8) : List Visit :=
  (mbssidElems 2 start).flatMap fun elem => (profileSubs elem).map fun sub => findVisit start elem sub

/-- `ieee802_11_find_bssid_profile`: the first profile that is that of the BSS.  `transmitted` is
the address of `bss->transmitted_bss`, if there is one. -/
def findBssidProfile (start : List UInt8) (transmitted : Option ℕ) (bssid : ℕ) : Option Visit :=
  match transmitted with
  | none => none
  | some transmitted => (findVisits start).find? (isProfileOf transmitted bssid)

/-! ### Pieces -/

/-- The subelements that continue a profile; `n` bounds their number. -/
def continuations : ℕ → Place → Place → List Place
  | 0, _, _ => []
  | n + 1, mbssid, subElem =>
    match iterProfileContinuation mbssid subElem with
    | none => []
    | some (mbssid, subElem) => subElem :: continuations n mbssid subElem

/-- The data of a profile, of the subelement that starts it and of those that continue it. -/
def pieces (elem sub : Place) : List UInt8 :=
  sub.1.data ++ (continuations elem.2.length elem sub).flatMap fun s => s.1.data

theorem length_of_iterProfileContinuation {mbssid subElem mbssid' subElem' : Place}
    (h : iterProfileContinuation mbssid subElem = some (mbssid', subElem')) :
    subElem'.1.data.length + mbssid'.2.length < mbssid.2.length := by
  unfold iterProfileContinuation at h
  split at h
  · cases h
  rename_i next hnext
  split at h
  · cases h
  split at h
  · cases h
  split at h
  · cases h
  rename_i sub hsub
  split at h
  · cases h
  split at h
  · cases h
  cases h
  have hfind := length_of_mem_scan (mem_of_find?_eq_some hnext)
  have hfirst := congrArg List.length (first_eq_some hsub)
  rw [length_append, Element.length_bytes, length_drop] at hfirst
  omega

theorem length_continuations (n : ℕ) (mbssid subElem : Place) :
    ((continuations n mbssid subElem).flatMap fun s => s.1.data).length ≤ mbssid.2.length := by
  induction n generalizing mbssid subElem with
  | zero => exact Nat.zero_le _
  | succ n ih =>
    rw [continuations]
    cases h : iterProfileContinuation mbssid subElem with
    | none => exact Nat.zero_le _
    | some x =>
      obtain ⟨mbssid', subElem'⟩ := x
      have hstep := length_of_iterProfileContinuation h
      have hrest := ih mbssid' subElem'
      simp only [flatMap_cons, length_append]
      omega

theorem mergeLoop_eq {maxCopyLen : ℕ} (n : ℕ) (mbssid subElem : Place) (merged : List UInt8)
    (h : merged.length + ((continuations n mbssid subElem).flatMap fun s => s.1.data).length ≤
      maxCopyLen) :
    mergeLoop maxCopyLen n mbssid subElem merged =
      merged ++ (continuations n mbssid subElem).flatMap fun s => s.1.data := by
  induction n generalizing mbssid subElem merged with
  | zero => simp [mergeLoop, continuations]
  | succ n ih =>
    rw [mergeLoop]
    rw [continuations] at h ⊢
    cases hstep : iterProfileContinuation mbssid subElem with
    | none => simp
    | some x =>
      simp only [hstep, flatMap_cons, length_append] at h
      dsimp only
      rw [if_neg (by omega), ih _ _ _ (by rw [length_append]; omega), flatMap_cons, append_assoc]

theorem mergeProfile_eq {ie : List UInt8} {minLen : ℕ} {elem sub : Place}
    (helem : elem ∈ mbssidElems minLen ie) (hsub : sub ∈ profileSubs elem) :
    mergeProfile elem sub ie.length = pieces elem sub := by
  have hie := length_of_mem_scan (mem_filter.mp helem).1
  have hdata := length_of_mem_scan (mem_filter.mp hsub).1
  have hcont := length_continuations elem.2.length elem sub
  rw [length_drop] at hdata
  rw [mergeProfile, if_neg (by omega), mergeLoop_eq _ _ _ _ (by omega), pieces]

/-! ### Both users -/

theorem mem_parseSubs {tx : ParseInput} {elem : Place} {subs : List Place}
    {x : Visit × Option InformData} (h : x ∈ parseSubs tx elem subs) :
    ∃ sub ∈ subs, x.1 = parseVisit tx elem sub := by
  induction subs with
  | nil => cases h
  | cons sub subs ih =>
    rcases mem_cons.mp h with rfl | h
    · exact ⟨sub, .head _, rfl⟩
    split at h
    · obtain ⟨sub', hsub', hx⟩ := ih h
      exact ⟨sub', .tail _ hsub', hx⟩
    · cases h

theorem mem_parseMbssidData {tx : ParseInput} {x : Visit × Option InformData}
    (h : x ∈ parseMbssidData tx) :
    ∃ elem ∈ mbssidElems 4 tx.ie, ∃ sub ∈ profileSubs elem, x.1 = parseVisit tx elem sub := by
  unfold parseMbssidData at h
  split at h
  · cases h
  split at h
  · cases h
  split at h
  · cases h
  split at h
  · cases h
  · obtain ⟨elem, helem, h⟩ := mem_flatMap.mp h
    obtain ⟨sub, hsub, hx⟩ := mem_parseSubs h
    exact ⟨elem, helem, sub, hsub, hx⟩

/-- Every profile of `cfg80211_parse_mbssid_data` is one of `ieee802_11_find_bssid_profile`. -/
theorem findVisit_mem {ie : List UInt8} {elem sub : Place} (helem : elem ∈ mbssidElems 4 ie)
    (hsub : sub ∈ profileSubs elem) : findVisit ie elem sub ∈ findVisits ie := by
  refine mem_flatMap.mpr ⟨elem, ?_, mem_map_of_mem hsub⟩
  have h := mem_filter.mp helem
  simp only [decide_eq_true_iff] at h
  exact mem_filter.mpr ⟨h.1, by simpa using ⟨h.2.1, by omega, h.2.2.2⟩⟩

theorem take_mod_eq_self_iff (l : List UInt8) : l.take (l.length % 256) = l ↔ l.length < 256 := by
  constructor
  · intro h
    have := congrArg List.length h
    rw [length_take] at this
    omega
  · intro h
    rw [Nat.mod_eq_of_lt h, take_length]

/-- **Profiles.**  `cfg80211_parse_mbssid_data` uses the merged profile that
`ieee802_11_find_bssid_profile` uses, exactly if the pieces have fewer than 256 bytes. -/
theorem profile_complete_iff (tx : ParseInput) (x : Visit × Option InformData)
    (hx : x ∈ parseMbssidData tx) :
    (x.1.profile = mergeProfile x.1.elem x.1.sub tx.ie.length ∧
      ∃ w ∈ findVisits tx.ie, w.elem = x.1.elem ∧ w.sub = x.1.sub ∧ w.profile = x.1.profile) ↔
    (pieces x.1.elem x.1.sub).length < 256 := by
  obtain ⟨elem, helem, sub, hsub, hvisit⟩ := mem_parseMbssidData hx
  have hmerge := mergeProfile_eq helem hsub
  rw [hvisit]
  simp only [parseVisit, hmerge]
  rw [take_mod_eq_self_iff]
  constructor
  · rintro ⟨h, -⟩
    exact h
  · intro h
    refine ⟨h, _, findVisit_mem helem hsub, rfl, rfl, ?_⟩
    rw [findVisit, hmerge, (take_mod_eq_self_iff _).mpr h]

/-- A profile of 4 bytes and `n` empty elements that is continued in a second Multiple BSSID
element. -/
def profileFrame (n : ℕ) : List UInt8 :=
  [71, UInt8.ofNat (7 + 2 * n), 8, 0, UInt8.ofNat (4 + 2 * n), 83, 2, 1, 0] ++
    List.replicate (2 * n) 0 ++ [71, 9, 8, 0, 6, 85, 1, 1, 0, 0, 0]

def profileInput (n : ℕ) : ParseInput := ⟨true, true, false, 16, profileFrame n, fun _ => true⟩

/-- A profile of 8 bytes with a continuation. -/
theorem profile_complete_iff_short :
    ∃ x, x ∈ parseMbssidData (profileInput 2) ∧ (pieces x.1.elem x.1.sub).length = 14 ∧
      ∃ w ∈ findVisits (profileFrame 2), w.elem = x.1.elem ∧ w.sub = x.1.sub ∧
        w.profile = x.1.profile := by
  obtain ⟨x, hx, hlen⟩ : ∃ x ∈ parseMbssidData (profileInput 2),
      (pieces x.1.elem x.1.sub).length = 14 := by decide
  exact ⟨x, hx, hlen, ((profile_complete_iff (profileInput 2) x hx).mpr (by omega)).2⟩

/-- With a profile of 256 bytes, `cfg80211_parse_mbssid_data` searches an empty string;
`ieee802_11_find_bssid_profile` finds the BSS. -/
theorem profile_truncated :
    ∃ x ∈ parseMbssidData (profileInput 123), ∃ w ∈ findVisits (profileFrame 123),
      w.elem = x.1.elem ∧ w.sub = x.1.sub ∧ w.profile.length = 256 ∧ x.1.profile = [] ∧
      x.2.isNone ∧ isProfileOf 16 17 w = true := by
  decide +kernel

end Iwlwifi.Cfg80211
