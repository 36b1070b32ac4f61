import Iwlwifi.Elements
import Iwlwifi.SearchTree
import Iwlwifi.Transition

/-! # The BSS table

A model of the scan results of a device (`net/wireless/scan.c`): entries kept in a list and in a
search tree, found again by their properties and reference counted.

* **Comparison** (`cmpBss`).  Three key layouts: mesh identifier and configuration, address and SSID,
  and two variants of the latter that find the beacon of a hidden SSID.
* **References** (`bssRefGet`, `bssRefPut`).  An entry may point to the beacon entry of its hidden
  group and to the entry of the transmitted BSS; a reference to it counts for these too.
* **Updates** (`bssUpdate`).  A beacon or probe response updates the entry it is found to be about,
  or a new entry is made, grouped and inserted, and an old one removed if there are too many.
* **Machine** (`step`).  Updates, references by outside holders, removal and expiry in any order.

Entries are numbered in the order of their allocation; `freed` are the freed ones, and `outside`
counts what outside holders have.  A channel is its frequency in kHz, an address is a number.  The
shape of the tree is a parameter (`SearchTree.Rebalance`).  `hold` is only read; times do not wrap. -/

namespace Iwlwifi.Cfg80211

open Tlv SearchTree Function

/-! ### Entries -/

/-- `struct cfg80211_bss_ies`: where it is and the elements. -/
structure Ies where
  addr : ℕ
  data : List UInt8
deriving DecidableEq, Repr

/-- `struct cfg80211_bss`.  `__cfg80211_bss_update` checks that `channel` and `ies` are not `NULL`.
-/
structure Pub where
  channel : ℕ
  bssid : ℕ
  capability : ℕ
  ies : Ies
  beaconIes : Option Ies
  proberespIes : Option Ies
  hiddenBeaconBss : Option ℕ
  transmittedBss : Option ℕ
deriving DecidableEq, Repr

/-- `struct cfg80211_internal_bss`. -/
structure Bss where
  pub : Pub
  ts : ℕ
  refcount : ℕ
  hold : ℕ
  /-- the circular list that `hidden_list` is in -/
  hiddenList : ℕ
deriving DecidableEq, Repr

/-! ### Comparison -/

/-- `enum bss_compare_mode`. -/
inductive CmpMode
  | regular
  | hideZlen
  | hideNul
deriving DecidableEq, Repr

def eidSsid : UInt8 := 0

/-- `WLAN_EID_MESH_CONFIG`. -/
def eidMeshConfig : UInt8 := 113

/-- `WLAN_EID_MESH_ID`. -/
def eidMeshId : UInt8 := 114

/-- `WLAN_CAPABILITY_IS_STA_BSS`. -/
def isStaBss (capability : ℕ) : Bool := capability &&& 3 = 0

/-- The data of the first element `eid`. -/
def Ies.find (ies : Ies) (eid : UInt8) : Option (List UInt8) :=
  (findElem eid ies.data).map fun x => x.1.data

/-- `memcmp` on as many bytes as both have. -/
def memcmp : List UInt8 → List UInt8 → ℤ
  | x :: xs, y :: ys => if x = y then memcmp xs ys else (x.toNat : ℤ) - y.toNat
  | _, _ => 0

/-- The longer one first, then by contents. -/
def cmpData (a b : List UInt8) : ℤ :=
  if a.length ≠ b.length then (b.length : ℤ) - a.length else memcmp a b

def cmpSsid (a b : Option (List UInt8)) (mode : CmpMode) : ℤ :=
  match a, b with
  | none, none => 0
  | none, some _ => -1
  | some _, none => 1
  | some a, some b =>
    match mode with
    | .hideZlen => b.length
    | .regular => cmpData a b
    | .hideNul =>
      if a.length ≠ b.length then (b.length : ℤ) - a.length
      else if b.any (· ≠ 0) then -1
      else 0

/-- The comparison of BSSs that are not both mesh BSSs. -/
def cmpBssid (a b : Pub) (mode : CmpMode) : ℤ :=
  if a.bssid ≠ b.bssid then (a.bssid : ℤ) - b.bssid
  else cmpSsid (a.ies.find eidSsid) (b.ies.find eidSsid) mode

def Pub.meshId (a : Pub) : Option (List UInt8) :=
  if isStaBss a.capability then a.ies.find eidMeshId else none

/-- `cmp_bss`. -/
def cmpBss (a b : Pub) (mode : CmpMode) : ℤ :=
  if a.channel ≠ b.channel then (b.channel : ℤ) - a.channel
  else
    match a.meshId, b.meshId, a.ies.find eidMeshConfig, b.ies.find eidMeshConfig with
    | some id₁, some id₂, some config₁, some config₂ =>
      if cmpData id₁ id₂ ≠ 0 then cmpData id₁ id₂ else cmpData config₁ config₂
    | _, _, _, _ => cmpBssid a b mode

/-! ### State -/

structure State where
  heap : ℕ → Bss
  /-- the number of entries allocated so far -/
  next : ℕ
  /-- the number of circular lists so far -/
  lists : ℕ
  bssList : List ℕ
  bssTree : SearchTree.Tree ℕ
  bssEntries : ℕ
  /-- the entries freed so far -/
  freed : List ℕ
  /-- the references of outside holders -/
  outside : ℕ → ℕ

/-- The entry `b` is changed. -/
def State.modify (s : State) (b : ℕ) (f : Bss → Bss) : State :=
  { s with heap := update s.heap b (f (s.heap b)) }

@[simp] theorem heap_modify_self (s : State) (b : ℕ) (f : Bss → Bss) :
    (s.modify b f).heap b = f (s.heap b) := update_self ..

theorem heap_modify_of_ne (s : State) {b x : ℕ} (f : Bss → Bss) (h : x ≠ b) :
    (s.modify b f).heap x = s.heap x := update_of_ne h ..

theorem proj_modify {α : Type} (g : Bss → α) (s : State) (b : ℕ) (f : Bss → Bss) (x : ℕ) :
    g ((s.modify b f).heap x) = update (fun x => g (s.heap x)) b (g (f (s.heap b))) x :=
  apply_update (fun _ => g) s.heap b _ x

theorem proj_modify_same {α : Type} (g : Bss → α) (s : State) (b : ℕ) {f : Bss → Bss}
    (hf : ∀ x, g (f x) = g x) (x : ℕ) : g ((s.modify b f).heap x) = g (s.heap x) := by
  rw [proj_modify g, hf, update_eq_self b fun x => g (s.heap x)]

/-- `list_empty(&bss->hidden_list)`: nobody else is in the circular list. -/
def State.hiddenListEmpty (s : State) (b : ℕ) : Bool :=
  (List.range s.next).all fun f => f = b ∨ (s.heap f).hiddenList ≠ (s.heap b).hiddenList

/-- `list_del_init(&bss->hidden_list)`. -/
def State.hiddenListDel (s : State) (b : ℕ) : State :=
  { s.modify b fun x => { x with hiddenList := s.lists } with lists := s.lists + 1 }

/-- `list_add(&bss->hidden_list, &head->hidden_list)`. -/
def State.hiddenListAdd (s : State) (b head : ℕ) : State :=
  s.modify b fun x => { x with hiddenList := (s.heap head).hiddenList }

/-- `if (!list_empty(&bss->hidden_list)) list_del(&bss->hidden_list)`. -/
def State.hiddenListLeave (s : State) (b : ℕ) : State :=
  if s.hiddenListEmpty b then s else s.hiddenListDel b

/-! ### References -/

/-- `bss_free`. -/
def bssFree (s : State) (b : ℕ) : State :=
  if (s.heap b).hold ≠ 0 then s
  else
    { s.hiddenListLeave b with freed := s.freed ++ [b] }

/-- `bss->refcount++`. -/
def refInc (s : State) (b : ℕ) : State :=
  s.modify b fun x => { x with refcount := x.refcount + 1 }

/-- `bss->refcount--`, an `unsigned long`, and `bss_free` at 0. -/
def refDec (s : State) (b : ℕ) : State :=
  let s := s.modify b fun x =>
    { x with refcount := if x.refcount = 0 then 2 ^ 64 - 1 else x.refcount - 1 }
  if (s.heap b).refcount = 0 then bssFree s b else s

def onPointer (f : State → ℕ → State) (s : State) (p : Option ℕ) : State :=
  match p with
  | none => s
  | some b => f s b

/-- `bss_ref_get`. -/
def bssRefGet (s : State) (b : ℕ) : State :=
  let s := refInc s b
  let s := onPointer refInc s (s.heap b).pub.hiddenBeaconBss
  onPointer refInc s (s.heap b).pub.transmittedBss

/-- `bss_ref_put`. -/
def bssRefPut (s : State) (b : ℕ) : State :=
  let s := onPointer refDec s (s.heap b).pub.hiddenBeaconBss
  let s := onPointer refDec s (s.heap b).pub.transmittedBss
  refDec s b

section table
variable (rb : Rebalance ℕ)

/-! ### Removal -/

/-- `__cfg80211_unlink_bss`. -/
def unlinkBss (s : State) (b : ℕ) : Bool × State :=
  if ¬ s.hiddenListEmpty b ∧ (s.heap b).pub.hiddenBeaconBss = none then (false, s)
  else
    let s := s.hiddenListLeave b
    let s :=
      { s with
        bssList := s.bssList.erase b
        bssTree := rb.erase s.bssTree b
        bssEntries := s.bssEntries - 1 }
    (true, bssRefPut s b)

/-- `__cfg80211_bss_expire`. -/
def bssExpire (s : State) (expireTime : ℕ) : State :=
  s.bssList.foldl (fun s b =>
    if (s.heap b).hold ≠ 0 then s
    else if ¬ (s.heap b).ts < expireTime then s
    else (unlinkBss rb s b).2) s

/-- The choice of `cfg80211_bss_expire_oldest`. -/
def oldestBss (s : State) : Option ℕ :=
  s.bssList.foldl (fun oldest b =>
    if (s.heap b).hold ≠ 0 then oldest
    else if ¬ s.hiddenListEmpty b ∧ (s.heap b).pub.hiddenBeaconBss = none then oldest
    else if oldest.any fun o => (s.heap o).ts < (s.heap b).ts then oldest
    else some b) none

/-- `cfg80211_bss_expire_oldest`. -/
def bssExpireOldest (s : State) : Bool × State :=
  match oldestBss s with
  | none => (false, s)
  | some oldest => unlinkBss rb s oldest

/-! ### Search and insertion -/

/-- `rb_find_bss`. -/
def rbFindBss (s : State) (res : Pub) (mode : CmpMode) : Option ℕ :=
  search (fun b => cmpBss res (s.heap b).pub mode) s.bssTree

/-- `rb_insert_bss`. -/
def rbInsertBss (s : State) (b : ℕ) : Option (SearchTree.Tree ℕ) :=
  (link (fun x => cmpBss (s.heap b).pub (s.heap x).pub .regular) b s.bssTree).map
    fun t => rb.color t b

/-- `cfg80211_insert_bss`. -/
def insertBss (s : State) (b : ℕ) : State :=
  match rbInsertBss rb s b with
  | none => s
  | some t => { s with bssTree := t, bssList := s.bssList ++ [b], bssEntries := s.bssEntries + 1 }

/-! ### Hidden groups -/

/-- An entry that is grouped with the beacon `new` with an SSID of `ssidlen` zero bytes. -/
def Pub.combines (new b : Pub) (ssidlen : ℕ) : Bool :=
  b.bssid = new.bssid ∧ b.channel = new.channel ∧ b.beaconIes = none ∧
  (b.ies.find eidSsid).any (fun ssid => ssidlen = 0 ∨ ssid.length = ssidlen) ∧
  b.hiddenBeaconBss = none

/-- One iteration of the loop of `cfg80211_combine_bsses`. -/
def combineBss (new ssidlen : ℕ) (s : State) (b : ℕ) : State :=
  if (s.heap new).pub.combines (s.heap b).pub ssidlen then
    let s := s.hiddenListLeave b
    let s := s.hiddenListAdd b new
    let s := s.modify b fun x => { x with pub := { x.pub with hiddenBeaconBss := some new } }
    let s := s.modify new fun x => { x with refcount := x.refcount + (s.heap b).refcount }
    s.modify b fun x => { x with pub := { x.pub with beaconIes := (s.heap new).pub.beaconIes } }
  else s

def Pub.hiddenSsid (x : Pub) : Option ℕ :=
  match x.beaconIes.bind (·.find eidSsid) with
  | none => none
  | some ssid => if ssid.any (· ≠ 0) then none else some ssid.length

/-- `cfg80211_combine_bsses`. -/
def combineBsses (s : State) (new : ℕ) : Bool × State :=
  if (s.heap new).pub.beaconIes = none then (false, s)
  else
    match (s.heap new).pub.hiddenSsid with
    | none => (true, s)
    | some ssidlen => (true, s.bssList.foldl (combineBss new ssidlen) s)

/-- `cfg80211_update_hidden_bsses`. -/
def updateHiddenBsses (s : State) (known : ℕ) (newIes : Ies) : State :=
  { s with
    heap := fun f =>
      let x := s.heap f
      if f < s.next ∧ f ≠ known ∧ x.hiddenList = (s.heap known).hiddenList then
        { x with pub := { x.pub with beaconIes := some newIes }, ts := (s.heap known).ts }
      else x }

/-! ### Updates -/

/-- The probe response elements in `cfg80211_update_known_bss`. -/
def Pub.updateProberesp (known new : Pub) : Pub :=
  match new.proberespIes with
  | none => known
  | some ies => { known with proberespIes := some ies, ies := ies }

/-- The beacon elements in `cfg80211_update_known_bss`. -/
def Pub.updateBeacon (known : Pub) (ies : Ies) : Pub :=
  { known with
    beaconIes := some ies
    ies := if known.beaconIes.map Ies.addr = some known.ies.addr then ies else known.ies }

/-- The end of `cfg80211_update_known_bss`. -/
def setCapability (s : State) (known : ℕ) (new : Pub) : State :=
  s.modify known fun x => { x with pub := { x.pub with capability := new.capability } }

/-- `cfg80211_update_known_bss`, for a `new` without `hidden_beacon_bss`. -/
def updateKnownBss (s : State) (known : ℕ) (new : Pub) (ts : ℕ) : Bool × State :=
  let s := s.modify known fun x => { x with ts := ts, pub := x.pub.updateProberesp new }
  match new.beaconIes with
  | none => (true, setCapability s known new)
  | some ies =>
    if (s.heap known).pub.hiddenBeaconBss ≠ none ∧ ¬ s.hiddenListEmpty known then (false, s)
    else
      let s := s.modify known fun x => { x with pub := x.pub.updateBeacon ies }
      (true, setCapability (updateHiddenBsses s known ies) known new)

/-- A beacon or probe response, as `cfg80211_inform_single_bss_data` hands it to
`__cfg80211_bss_update`. -/
structure Frame where
  channel : ℕ
  bssid : ℕ
  capability : ℕ
  ies : Ies
  /-- a probe response -/
  presp : Bool
  transmittedBss : Option ℕ
  ts : ℕ
deriving DecidableEq, Repr

/-- `tmp`. -/
def Frame.tmp (f : Frame) : Pub where
  channel := f.channel
  bssid := f.bssid
  capability := f.capability
  ies := f.ies
  beaconIes := if f.presp then none else some f.ies
  proberespIes := if f.presp then some f.ies else none
  hiddenBeaconBss := none
  transmittedBss := f.transmittedBss

/-- The copy of `tmp` that is to become an entry. -/
def allocBss (s : State) (tmp : Pub) (ts : ℕ) : State :=
  { s with
    heap := update s.heap s.next
      { pub := { tmp with transmittedBss := none }
        ts := ts
        refcount := 1
        hold := 0
        hiddenList := s.lists }
    next := s.next + 1
    lists := s.lists + 1 }

theorem heap_allocBss_self (s : State) (tmp : Pub) (ts : ℕ) :
    (allocBss s tmp ts).heap s.next = ⟨{ tmp with transmittedBss := none }, ts, 1, 0, s.lists⟩ :=
  update_self ..

theorem heap_allocBss_of_ne (s : State) (tmp : Pub) (ts : ℕ) {b : ℕ} (h : b ≠ s.next) :
    (allocBss s tmp ts).heap b = s.heap b := update_of_ne h ..

def findHidden (s : State) (tmp : Pub) : Option ℕ :=
  ((rbFindBss s tmp .hideZlen).or (rbFindBss s tmp .hideNul)).filter
    fun h => (s.heap h).pub.beaconIes ≠ none

/-- The new entry becomes a member of the group of `hidden`. -/
def joinHidden (s : State) (new hidden : ℕ) : State :=
  let s := s.modify new fun x => { x with pub := { x.pub with hiddenBeaconBss := some hidden } }
  let s := s.hiddenListAdd new hidden
  let s := refInc s hidden
  s.modify new fun x => { x with pub := { x.pub with beaconIes := (s.heap hidden).pub.beaconIes } }

def groupBss (s : State) (new : ℕ) (tmp : Pub) : Bool × State :=
  if tmp.proberespIes ≠ none then
    match findHidden s tmp with
    | none => (true, s)
    | some hidden => (true, joinHidden s new hidden)
  else combineBsses s new

/-- `new->pub.transmitted_bss = tmp->pub.transmitted_bss`. -/
def State.linkTransmitted (s : State) (new t : ℕ) : State :=
  s.modify new fun x => { x with pub := { x.pub with transmittedBss := some t } }

def setTransmitted (s : State) (new : ℕ) (transmitted : Option ℕ) : State :=
  match transmitted with
  | none => s
  | some t => bssRefGet (s.linkTransmitted new t) t

def makeRoom (limit : ℕ) (s : State) : Bool × State :=
  if limit ≤ s.bssEntries then bssExpireOldest rb s else (true, s)

/-- `__cfg80211_bss_update` for a frame that no entry is found for. -/
def addBss (limit : ℕ) (s : State) (tmp : Pub) (ts : ℕ) : Option ℕ × State :=
  let new := s.next
  let grouped := groupBss (allocBss s tmp ts) new tmp
  if grouped.1 = false then (none, bssRefPut grouped.2 new)
  else
    let room := makeRoom rb limit grouped.2
    if room.1 = false then (none, bssRefPut room.2 new)
    else
      let s := setTransmitted room.2 new tmp.transmittedBss
      let s := insertBss rb s new
      (some new, bssRefGet s new)

theorem addBss_cases (limit : ℕ) (s : State) (tmp : Pub) (ts : ℕ) :
    addBss rb limit s tmp ts =
        (none, bssRefPut (groupBss (allocBss s tmp ts) s.next tmp).2 s.next) ∨
      addBss rb limit s tmp ts = (none,
        bssRefPut (makeRoom rb limit (groupBss (allocBss s tmp ts) s.next tmp).2).2 s.next) ∨
      addBss rb limit s tmp ts = (some s.next, bssRefGet (insertBss rb (setTransmitted
        (makeRoom rb limit (groupBss (allocBss s tmp ts) s.next tmp).2).2 s.next
        tmp.transmittedBss) s.next) s.next) := by
  unfold addBss
  dsimp only
  split
  · exact .inl rfl
  split
  · exact .inr (.inl rfl)
  · exact .inr (.inr rfl)

/-- `__cfg80211_bss_update`.  `alloc` is the success of `kzalloc`. -/
def bssUpdate (limit : ℕ) (s : State) (f : Frame) (alloc : Bool) : Option ℕ × State :=
  match rbFindBss s f.tmp .regular with
  | some found =>
    let r := updateKnownBss s found f.tmp f.ts
    if r.1 then (some found, bssRefGet r.2 found) else (none, r.2)
  | none => if alloc then addBss rb limit s f.tmp f.ts else (none, s)

/-! ### Machine -/

inductive Act
  | update (f : Frame) (alloc : Bool)
  | ref (b : ℕ)
  | put (b : ℕ)
  | unlink (b : ℕ)
  | expire (time : ℕ)
deriving DecidableEq, Repr

def State.setOutside (s : State) (b n : ℕ) : State :=
  { s with outside := update s.outside b n }

def State.handOut (s : State) (r : Option ℕ) : State :=
  onPointer (fun s b => s.setOutside b (s.outside b + 1)) s r

/-- One call.  The caller of an update holds the transmitted BSS; a reference is taken to an entry
that is held or in the list, and given up by who has one; an entry is unlinked if it is in
the list. -/
def step (limit : ℕ) (s : State) : Act → Option (Option ℕ × State)
  | .update f alloc =>
    if f.transmittedBss.all fun t => 0 < s.outside t then
      let r := bssUpdate rb limit s f alloc
      some (r.1, r.2.handOut r.1)
    else none
  | .ref b =>
    if b ∈ s.bssList ∨ 0 < s.outside b then
      some (none, (bssRefGet s b).setOutside b (s.outside b + 1))
    else none
  | .put b =>
    if 0 < s.outside b then some (none, (bssRefPut s b).setOutside b (s.outside b - 1)) else none
  | .unlink b => if b ∈ s.bssList then some (none, (unlinkBss rb s b).2) else none
  | .expire time => some (none, bssExpire rb s time)

def initial : State where
  heap := fun _ => ⟨⟨0, 0, 0, ⟨0, []⟩, none, none, none, none⟩, 0, 0, 0, 0⟩
  next := 0
  lists := 0
  bssList := []
  bssTree := .nil
  bssEntries := 0
  freed := []
  outside := fun _ => 0

end table

end Iwlwifi.Cfg80211
