import Iwlwifi.BitSet
import Iwlwifi.Bytes
import Iwlwifi.Tlv

/-! # TID-to-link mapping elements

A model of how mac80211 writes and reads TID-to-link mappings (`net/mac80211/mlme.c`,
`ieee80211-eht.h`).

* **Writing** (`addSuggestedMap`): one element for both directions when they agree, and one for each
  direction otherwise.  An element has a control byte, a byte that says which TIDs have links, and
  the sets of links of these.
* **Checking and reading**: `tidToLinkMapSizeOk` when elements are collected, then
  `parseNegTtlm` for negotiated mappings and `parseAdvT2l` for those that an access point
  advertises.
* `parseNegTtlm_body`: reading an element gives the mapping of its direction back.  The senders
  allocate room for the control fields of one element only: `neg_ttlm_roundtrip_iff` says when the
  bytes fit. -/

namespace Iwlwifi.Ieee80211.Ttlm

open Bytes Function List

abbrev Links : Type := BitVec 16

abbrev Tid : Type := Fin 8

/-- `struct ieee80211_neg_ttlm`. -/
structure NegTtlm where
  downlink : Tid → Links
  uplink : Tid → Links
deriving DecidableEq

inductive Direction
  | down
  | up
  | both
deriving DecidableEq

namespace Direction

def bits : Direction → UInt8
  | down => 0
  | up => 1
  | both => 2

/-- `u8_get_bits(control, IEEE80211_TTLM_CONTROL_DIRECTION)`, if it is a direction. -/
def ofControl (control : UInt8) : Option Direction :=
  if control &&& 3 = 0 then some down
  else if control &&& 3 = 1 then some up
  else if control &&& 3 = 2 then some both
  else none

end Direction

/-! ### Writing -/

/-- What the loop over the TIDs keeps: `len`, `map_ind`, and the bytes behind the two control
bytes. -/
structure Written where
  len : ℕ
  mapInd : ℕ
  data : List UInt8

def addMap (maps : Tid → Links) (w : Written) (tid : Tid) : Written :=
  if maps tid = 0 then w
  else ⟨w.len + 2, w.mapInd ||| 2 ^ tid.val, w.data ++ putLe16 (maps tid).toNat⟩

/-- One element: `WLAN_EID_EXTENSION`, length, `WLAN_EID_EXT_TID_TO_LINK_MAPPING`, control. -/
def addElement (maps : Tid → Links) (direction : Direction) : List UInt8 :=
  let w := (List.finRange 8).foldl (addMap maps) ⟨3, 0, []⟩
  [255, UInt8.ofNat w.len, 109, direction.bits, UInt8.ofNat w.mapInd] ++ w.data

def NegTtlm.maps (neg : NegTtlm) (direction : Direction) : Tid → Links :=
  if direction = .up then neg.uplink else neg.downlink

def directions (neg : NegTtlm) : List Direction :=
  if neg.downlink ≠ neg.uplink then [.down, .up] else [.both]

/-- `ieee80211_neg_ttlm_add_suggested_map`. -/
def addSuggestedMap (neg : NegTtlm) : List UInt8 :=
  (directions neg).flatMap fun d => addElement (neg.maps d) d

/-- `ttlm_max_len` of `ieee80211_send_neg_ttlm_req` and `ieee80211_send_neg_ttlm_res`. -/
def ttlmMaxLen : ℕ := 2 + 1 + 1 + 1 + 2 * 2 * 8

/-! ### Reading -/

/-- `hweight8`. -/
def hweight8 (b : UInt8) : ℕ := BitSet.weight 8 b.toNat

/-- `ieee80211_tid_to_link_map_size_ok`. -/
def tidToLinkMapSizeOk (data : List UInt8) : Bool :=
  if data.length < 1 then false
  else
    let control := data.getD 0 0
    let elemLen := (if control &&& 0x08 ≠ 0 then 2 else 0) + if control &&& 0x10 ≠ 0 then 3 else 0
    if control &&& 0x04 = 0 then
      if data.length < 1 + (elemLen + 1) then false
      else
        let bmSize := if control &&& 0x20 ≠ 0 then 1 else 2
        data.length ≥ 1 + (elemLen + 1 + hweight8 (data.getD 1 0) * bmSize)
    else data.length ≥ 1 + elemLen

/-- `ieee80211_get_ttlm`. -/
def getTtlm (bmSize : ℕ) (data : List UInt8) : Links :=
  if bmSize = 1 then BitVec.ofNat 16 (data.getD 0 0).toNat else BitVec.ofNat 16 (le16 data 0)

def NegTtlm.set (neg : NegTtlm) (direction : Direction) (tid : Tid) (map : Links) : NegTtlm :=
  match direction with
  | .both => ⟨update neg.downlink tid map, update neg.uplink tid map⟩
  | .down => { neg with downlink := update neg.downlink tid map }
  | .up => { neg with uplink := update neg.uplink tid map }

/-- The loop of `ieee80211_parse_neg_ttlm` over the TIDs. -/
def readMaps (direction : Direction) (linkMapPresence : UInt8) (mapSize : ℕ) :
    List Tid → List UInt8 → NegTtlm → Option NegTtlm
  | [], _, neg => some neg
  | tid :: tids, pos, neg =>
    if linkMapPresence.toNat.testBit tid.val then
      let map := getTtlm mapSize pos
      if map = 0 then none
      else readMaps direction linkMapPresence mapSize tids (pos.drop mapSize)
        (neg.set direction tid map)
    else readMaps direction linkMapPresence mapSize tids pos (neg.set direction tid 0)

/-- `ieee80211_parse_neg_ttlm`. -/
def parseNegTtlm (validLinks : Links) (ttlm : List UInt8) (neg : NegTtlm) :
    Option (NegTtlm × Direction) :=
  let control := ttlm.getD 0 0
  if control &&& (0x08 ||| 0x10) ≠ 0 then none
  else if control &&& 0x04 ≠ 0 then some (⟨fun _ => validLinks, fun _ => validLinks⟩, .both)
  else
    match Direction.ofControl control with
    | none => none
    | some direction =>
      let mapSize := if control &&& 0x20 ≠ 0 then 1 else 2
      (readMaps direction (ttlm.getD 1 0) mapSize (List.finRange 8) (ttlm.drop 2) neg).map
        fun neg => (neg, direction)

/-- The TID-to-link mapping elements of a frame, without the identifiers. -/
def ttlmElems (ies : List UInt8) : List (List UInt8) :=
  (Tlv.elements ies).filterMap fun e =>
    if e.id = 255 then
      match e.data with
      | ext :: data => if ext = 109 then some data else none
      | [] => none
    else none

/-- The loop of `ieee80211_process_neg_ttlm_req` over the elements. -/
def parseElems (validLinks : Links) (elems : List (List UInt8)) : Option NegTtlm :=
  elems.foldlM (fun neg ttlm => (parseNegTtlm validLinks ttlm neg).map Prod.fst)
    ⟨fun _ => 0, fun _ => 0⟩

/-- `struct ieee80211_adv_ttlm_info`. -/
structure AdvTtlmInfo where
  switchTime : ℕ
  duration : ℕ
  map : Links
  active : Bool
deriving DecidableEq

/-- `ieee80211_parse_adv_t2l`. -/
def parseAdvT2l (ttlm : List UInt8) : Option AdvTtlmInfo :=
  let control := ttlm.getD 0 0
  if control &&& 3 ≠ Direction.both.bits then none
  else
    let pos := ttlm.drop 1
    let linkMapPresence := pos.getD 0 0
    let pos := if control &&& 0x04 = 0 then pos.drop 1 else pos
    let (switchTime, pos) :=
      -- 0 stands for no switch time
      if control &&& 0x08 ≠ 0 then (if le16 pos 0 = 0 then 1 else le16 pos 0, pos.drop 2)
      else (0, pos)
    let (duration, pos) :=
      if control &&& 0x10 ≠ 0 then (littleEndian (pos.take 3), pos.drop 3) else (0, pos)
    if control &&& 0x04 ≠ 0 then some ⟨switchTime, duration, 0xffff, false⟩
    else
      let mapSize := if control &&& 0x20 ≠ 0 then 1 else 2
      if linkMapPresence ≠ 0xff then none
      else
        let map := getTtlm mapSize pos
        if map = 0 then none
        else if (List.range 7).all fun i => getTtlm mapSize (pos.drop ((i + 1) * mapSize)) = map then
          some ⟨switchTime, duration, map, false⟩
        else none

/-! ### What is written -/

section written
variable {maps : Tid → Links}

def mapped (maps : Tid → Links) (tids : List Tid) : List Tid := tids.filter fun t => maps t ≠ 0

def mapBytes (maps : Tid → Links) (tids : List Tid) : List UInt8 :=
  (mapped maps tids).flatMap fun t => putLe16 (maps t).toNat

section cons
variable {t : Tid} {tids : List Tid}

theorem mapped_cons_of_eq (h : maps t = 0) : mapped maps (t :: tids) = mapped maps tids :=
  filter_cons_of_neg (by simpa using h)

theorem mapped_cons_of_ne (h : maps t ≠ 0) : mapped maps (t :: tids) = t :: mapped maps tids :=
  filter_cons_of_pos (by simpa using h)

theorem mapBytes_cons_of_eq (h : maps t = 0) : mapBytes maps (t :: tids) = mapBytes maps tids := by
  rw [mapBytes, mapped_cons_of_eq h, mapBytes]

theorem mapBytes_cons_of_ne (h : maps t ≠ 0) :
    mapBytes maps (t :: tids) = putLe16 (maps t).toNat ++ mapBytes maps tids := by
  rw [mapBytes, mapped_cons_of_ne h, flatMap_cons, mapBytes]

end cons

theorem length_mapBytes (tids : List Tid) :
    (mapBytes maps tids).length = 2 * (mapped maps tids).length := by
  induction tids with
  | nil => rfl
  | cons t tids ih =>
    by_cases h : maps t = 0
    · rw [mapBytes_cons_of_eq h, mapped_cons_of_eq h, ih]
    · rw [mapBytes_cons_of_ne h, mapped_cons_of_ne h, length_append, ih, length_cons,
        putLe16, length_cons, length_singleton]
      omega

variable (maps)

theorem foldl_addMap (tids : List Tid) (w : Written) :
    (tids.foldl (addMap maps) w).len = w.len + 2 * (mapped maps tids).length ∧
      (tids.foldl (addMap maps) w).data = w.data ++ mapBytes maps tids ∧
      ∀ i, (tids.foldl (addMap maps) w).mapInd.testBit i =
        (w.mapInd.testBit i || (mapped maps tids).any fun t => t.val = i) := by
  induction tids generalizing w with
  | nil => simp [mapped, mapBytes]
  | cons t tids ih =>
    obtain ⟨hlen, hdata, hind⟩ := ih (addMap maps w t)
    rw [foldl_cons, hlen, hdata]
    by_cases h : maps t = 0
    · rw [addMap, if_pos h] at hind ⊢
      rw [mapBytes_cons_of_eq h, mapped_cons_of_eq h]
      exact ⟨rfl, rfl, hind⟩
    rw [addMap, if_neg h] at hind ⊢
    rw [mapBytes_cons_of_ne h, mapped_cons_of_ne h, length_cons]
    refine ⟨?_, append_assoc _ _ _, fun i => ?_⟩
    · show w.len + 2 + _ = _
      omega
    · rw [hind, Nat.testBit_or, Nat.testBit_two_pow, any_cons, Bool.or_assoc]

def presence (maps : Tid → Links) : UInt8 :=
  UInt8.ofNat ((List.finRange 8).foldl (addMap maps) ⟨3, 0, []⟩).mapInd

theorem testBit_presence (t : Tid) :
    (presence maps).toNat.testBit t.val = decide (maps t ≠ 0) := by
  have hlt : t.val < 8 := t.isLt
  rw [presence, UInt8.toNat_ofNat', show (2 : ℕ) ^ 8 = 2 ^ 8 from rfl, Nat.testBit_mod_two_pow,
    (foldl_addMap maps (List.finRange 8) _).2.2]
  simp only [hlt, decide_true, Bool.true_and, Nat.zero_testBit, Bool.false_or]
  rw [Bool.eq_iff_iff]
  simp only [any_eq_true, mapped, mem_filter, mem_finRange, true_and, decide_eq_true_eq]
  constructor
  · rintro ⟨u, hu, heq⟩
    rwa [← Fin.ext heq]
  · intro h
    exact ⟨t, h, rfl⟩

theorem hweight8_presence :
    hweight8 (presence maps) = (mapped maps (List.finRange 8)).length := by
  rw [hweight8, BitSet.weight_eq_length, ← map_coe_finRange_eq_range, filter_map,
    length_map, mapped]
  congr 1
  apply filter_congr
  intro t _
  exact testBit_presence maps t

def elemBody (maps : Tid → Links) (direction : Direction) : List UInt8 :=
  direction.bits :: presence maps :: mapBytes maps (List.finRange 8)

theorem length_mapped_le : (mapped maps (List.finRange 8)).length ≤ 8 := by
  have h := length_filter_le (fun t => decide (maps t ≠ 0)) (List.finRange 8)
  simpa [mapped] using h

theorem length_elemBody (direction : Direction) :
    (elemBody maps direction).length = 2 + 2 * (mapped maps (List.finRange 8)).length := by
  rw [elemBody, length_cons, length_cons, length_mapBytes]
  omega

def element (maps : Tid → Links) (direction : Direction) : Tlv.Element where
  id := 255
  data := 109 :: elemBody maps direction
  short := by
    have h := length_mapped_le maps
    rw [length_cons, length_elemBody]
    omega

theorem addElement_eq (direction : Direction) :
    addElement maps direction = (element maps direction).bytes := by
  obtain ⟨hlen, hdata, -⟩ := foldl_addMap maps (List.finRange 8) ⟨3, 0, []⟩
  have hl : (109 :: elemBody maps direction).length =
      3 + 2 * (mapped maps (List.finRange 8)).length := by
    rw [length_cons, length_elemBody]
    omega
  simp only [addElement, hlen, hdata, Tlv.Element.bytes, element, hl]
  rfl

end written

/-! ### Reading back -/

section reading
variable {maps : Tid → Links} {direction : Direction}

theorem getTtlm_putLe16 (map : Links) (rest : List UInt8) :
    getTtlm 2 (putLe16 map.toNat ++ rest) = map := by
  have hlt : map.toNat < 65536 := map.isLt
  rw [getTtlm, if_neg (by omega), le16_putLe16_append, Nat.mod_eq_of_lt hlt]
  exact BitVec.ofNat_toNat 16 map

theorem readMaps_mapBytes {presence : UInt8}
    (hpresence : ∀ t : Tid, presence.toNat.testBit t.val = decide (maps t ≠ 0)) (tids : List Tid)
    (rest : List UInt8) (neg : NegTtlm) :
    readMaps direction presence 2 tids (mapBytes maps tids ++ rest) neg =
      some (tids.foldl (fun n t => n.set direction t (maps t)) neg) := by
  induction tids generalizing neg with
  | nil => rfl
  | cons t tids ih =>
    rw [readMaps, hpresence, foldl_cons]
    by_cases h : maps t = 0
    · rw [mapBytes_cons_of_eq h, h, if_neg (by simp)]
      exact ih _
    · rw [mapBytes_cons_of_ne h, if_pos (by simpa using h), append_assoc]
      simp only [getTtlm_putLe16, if_neg h]
      exact ih _

def NegTtlm.put (neg : NegTtlm) (direction : Direction) (maps : Tid → Links) : NegTtlm :=
  ⟨if direction = .up then neg.downlink else maps, if direction = .down then neg.uplink else maps⟩

theorem foldl_update (tids : List Tid) (f : Tid → Links) :
    tids.foldl (fun g t => update g t (maps t)) f =
      fun t => if t ∈ tids then maps t else f t := by
  induction tids generalizing f with
  | nil => simp
  | cons u tids ih =>
    rw [foldl_cons, ih]
    funext t
    by_cases ht : t ∈ tids
    · simp [ht]
    by_cases hu : t = u
    · subst hu
      simp [ht]
    · simp [ht, hu]

theorem foldl_set (tids : List Tid) (neg : NegTtlm) :
    tids.foldl (fun n t => n.set direction t (maps t)) neg =
      ⟨if direction = .up then neg.downlink
        else tids.foldl (fun g t => update g t (maps t)) neg.downlink,
      if direction = .down then neg.uplink
        else tids.foldl (fun g t => update g t (maps t)) neg.uplink⟩ := by
  induction tids generalizing neg with
  | nil => cases direction <;> rfl
  | cons t tids ih =>
    rw [foldl_cons, ih]
    cases direction <;> rfl

theorem foldl_set_finRange (neg : NegTtlm) :
    (List.finRange 8).foldl (fun n t => n.set direction t (maps t)) neg =
      neg.put direction maps := by
  rw [foldl_set, foldl_update, foldl_update, NegTtlm.put]
  simp

theorem bits_flags : direction.bits &&& (0x08 ||| 0x10) = 0 ∧ direction.bits &&& 0x08 = 0 ∧
    direction.bits &&& 0x10 = 0 ∧ direction.bits &&& 0x04 = 0 ∧ direction.bits &&& 0x20 = 0 := by
  cases direction <;> decide

theorem parseNegTtlm_body (validLinks : Links) (neg : NegTtlm) :
    parseNegTtlm validLinks (elemBody maps direction) neg =
      some (neg.put direction maps, direction) := by
  have hread : readMaps direction (presence maps) 2 (List.finRange 8)
      (mapBytes maps (List.finRange 8) ++ []) neg = _ :=
    readMaps_mapBytes (testBit_presence maps) (List.finRange 8) [] neg
  rw [append_nil, foldl_set_finRange] at hread
  have hdir : Direction.ofControl direction.bits = some direction := by
    cases direction <;> decide
  simp only [parseNegTtlm, elemBody, getD_cons_zero, getD_cons_succ, bits_flags, hdir,
    drop_succ_cons, drop_zero, ne_eq, not_true_eq_false, if_false, hread, Option.map_some]

theorem tidToLinkMapSizeOk_body : tidToLinkMapSizeOk (elemBody maps direction) = true := by
  have hlen := length_elemBody maps direction
  have hcontrol : (elemBody maps direction).getD 0 0 = direction.bits := rfl
  have hpres : (elemBody maps direction).getD 1 0 = presence maps := rfl
  simp only [tidToLinkMapSizeOk, hcontrol, hpres, bits_flags, hweight8_presence, hlen,
    ne_eq, not_true_eq_false, if_false, if_true]
  rw [if_neg (by omega), if_neg (by omega), decide_eq_true_eq]
  omega

end reading

/-! ### Frames -/

theorem ttlmElems_addSuggestedMap (neg : NegTtlm) :
    ttlmElems (addSuggestedMap neg) = (directions neg).map fun d => elemBody (neg.maps d) d := by
  have hbytes : addSuggestedMap neg =
      ((directions neg).map fun d => element (neg.maps d) d).flatMap Tlv.Element.bytes ++ [] := by
    rw [append_nil, flatMap_map, addSuggestedMap]
    exact flatMap_congr fun d _ => addElement_eq (neg.maps d) d
  rw [ttlmElems, hbytes, Tlv.elements_append]
  simp [element, Tlv.elements, Tlv.scan, Tlv.scanFor]

theorem length_addSuggestedMap (neg : NegTtlm) :
    (addSuggestedMap neg).length =
      ((directions neg).map fun d => 5 + 2 * (mapped (neg.maps d) (List.finRange 8)).length).sum := by
  rw [addSuggestedMap, length_flatMap]
  congr 1
  apply map_congr_left
  intro d _
  rw [addElement_eq, Tlv.Element.length_bytes, element, length_cons, length_elemBody]
  omega

theorem parseElems_of_perm (validLinks : Links) (neg : NegTtlm) {elems : List (List UInt8)}
    (h : elems.Perm (ttlmElems (addSuggestedMap neg))) :
    parseElems validLinks elems = some neg := by
  obtain ⟨downlink, uplink⟩ := neg
  rw [ttlmElems_addSuggestedMap, directions] at h
  split at h
  · rcases perm_pair.mp h with rfl | rfl
    · simp [parseElems, parseNegTtlm_body, NegTtlm.put, NegTtlm.maps]
    · simp [parseElems, parseNegTtlm_body, NegTtlm.put, NegTtlm.maps]
  rename_i heq
  have hlinks : downlink = uplink := by simpa using heq
  obtain rfl := perm_singleton.mp h
  simp [parseElems, parseNegTtlm_body, NegTtlm.put, NegTtlm.maps, hlinks]

/-- **Round trip of negotiated mappings**: the elements are accepted and give the mapping back, in
any order.  They fit into the buffer when the directions agree, or together have at most 13 sets of
links. -/
theorem neg_ttlm_roundtrip_iff (validLinks : Links) (neg : NegTtlm) :
    ((∀ elems, elems.Perm (ttlmElems (addSuggestedMap neg)) →
        (∀ ttlm ∈ elems, tidToLinkMapSizeOk ttlm = true) ∧
          parseElems validLinks elems = some neg) ∧
      (addSuggestedMap neg).length ≤ ttlmMaxLen) ↔
    neg.downlink = neg.uplink ∨
      (mapped neg.downlink (List.finRange 8)).length +
        (mapped neg.uplink (List.finRange 8)).length ≤ 13 := by
  have hread : ∀ elems, elems.Perm (ttlmElems (addSuggestedMap neg)) →
      (∀ ttlm ∈ elems, tidToLinkMapSizeOk ttlm = true) ∧
        parseElems validLinks elems = some neg := by
    intro elems h
    refine ⟨fun ttlm hmem => ?_, parseElems_of_perm validLinks neg h⟩
    rw [h.mem_iff, ttlmElems_addSuggestedMap] at hmem
    obtain ⟨d, -, rfl⟩ := mem_map.mp hmem
    exact tidToLinkMapSizeOk_body
  have hdown := length_mapped_le neg.downlink
  rw [and_iff_right hread, length_addSuggestedMap, directions, ttlmMaxLen]
  have hboth : neg.maps .both = neg.downlink := rfl
  have hmaps : neg.maps .down = neg.downlink ∧ neg.maps .up = neg.uplink := ⟨rfl, rfl⟩
  by_cases heq : neg.downlink = neg.uplink
  · rw [if_neg (not_not_intro heq)]
    simp only [map_cons, map_nil, sum_cons, sum_nil, hboth, heq, true_or, iff_true]
    rw [heq] at hdown
    omega
  · rw [if_pos heq]
    simp only [map_cons, map_nil, sum_cons, sum_nil, hmaps, heq, false_or]
    omega

/-- All TIDs on link 0 for the downlink, and on link 1 for the uplink: 42 bytes in a buffer of 37.
-/
theorem neg_ttlm_too_long :
    (addSuggestedMap ⟨fun _ => 1, fun _ => 2⟩).length = 42 ∧ ttlmMaxLen = 37 := by
  decide

end Iwlwifi.Ieee80211.Ttlm
