import Iwlwifi.Header
import Iwlwifi.Transition

/-! # Defragmentation of received MPDUs

A model of `ieee80211_rx_h_defragment` of `net/mac80211/rx.c` on one fragment cache
(`struct ieee80211_fragment_cache`, of a station or of the interface).

* **Cache.**  Four entries, recycled round robin by first fragments (`reassembleAdd`) and searched
  backwards from the newest (`reassembleFind`); an entry that matches but is older than two
  seconds is purged on the way.
* **MPDUs** (`Rx`).  The bytes of the frame, the queue of its sequence number space, the key,
  whether the frame is decrypted, and the packet number (PN) in `rx->ccm_gcm`.
* **Packet numbers** (`Pn`).  Six bytes, most significant first; the code adds one by a loop over
  the bytes.  The PN of a first fragment is taken from the replay counter of the key, where the
  decryption step has put it (`ccmpDecryptPn`).
* **Machine** (`step`).  One MPDU per step, at any time, with the results of the memory
  operations of the handler (`Arrival`). -/

namespace Iwlwifi.Ieee80211.Defrag

open Bytes

/-! ### Data -/

structure Pn where
  bytes : List UInt8
  length : bytes.length = 6
deriving DecidableEq

def Pn.value (pn : Pn) : ℕ := bigEndian pn.bytes

/-- `for (i = 5; i >= 0; i--) { pn[i]++; if (pn[i]) break; }` -/
def Pn.next (pn : Pn) : Pn := ⟨increment pn.bytes, by simp [pn.length]⟩

theorem Pn.value_next (pn : Pn) : pn.next.value = (pn.value + 1) % 2 ^ 48 := by
  unfold Pn.value Pn.next
  rw [bigEndian_increment, pn.length]
  rfl

def Pn.zero : Pn := ⟨List.replicate 6 0, by simp⟩

/-- `WLAN_CIPHER_SUITE_*`; the handler only asks for the CCMP and GCMP ones. -/
inductive CipherSuite where
  | wep40
  | wep104
  | tkip
  | ccmp
  | ccmp256
  | gcmp
  | gcmp256
  | other
deriving DecidableEq, Repr

/-- `struct ieee80211_key`: the cipher, the color and the replay counters of the queues. -/
structure Key where
  cipher : CipherSuite
  color : ℕ
  rxPn : ℕ → Pn

instance neZeroTids : NeZero 17 := ⟨by decide⟩

/-- `struct ieee80211_rx_data`, as the handler sees it. -/
structure Rx where
  data : List UInt8
  /-- a TID, or `IEEE80211_NUM_TIDS` -/
  seqnoIdx : Fin 17
  securityIdx : ℕ
  key : Option Key
  /-- `RX_FLAG_DECRYPTED` -/
  decrypted : Bool
  ccmGcmPn : Pn

namespace Rx

def fc (rx : Rx) : ℕ := frameControl rx.data
def frag (rx : Rx) : ℕ := fragOf (seqCtrl rx.data)
def seq (rx : Rx) : ℕ := getSn (seqCtrl rx.data)

/-- What `skb_pull(rx->skb, ieee80211_hdrlen(fc))` leaves. -/
def body (rx : Rx) : List UInt8 := skbPull rx.data (hdrlen rx.fc)

/-- The frame is neither passed through as a control or extension frame nor unfragmented. -/
def isFragment (rx : Rx) : Bool :=
  !(isCtl rx.fc || isExt rx.fc) && (hasMorefrags rx.fc || rx.frag != 0)

end Rx

/-- `struct ieee80211_fragment_entry`. -/
structure FragmentEntry where
  skbList : List (List UInt8) := []
  firstFragTime : ℕ := 0
  seq : ℕ := 0
  extraLen : ℕ := 0
  lastFrag : ℕ := 0
  rxQueue : ℕ := 0
  checkSequentialPn : Bool := false
  isProtected : Bool := false
  lastPn : Pn := Pn.zero
  keyColor : ℕ := 0

/-- `struct ieee80211_fragment_cache`. -/
structure FragmentCache where
  entries : ℕ → FragmentEntry
  next : ℕ

/-- `IEEE80211_FRAGMENT_MAX`. -/
def fragmentMax : ℕ := 4

/-- `ieee80211_init_frag_cache`, on zeroed memory. -/
def initFragCache : FragmentCache where
  entries := fun _ => {}
  next := 0

def FragmentCache.setEntry (c : FragmentCache) (i : ℕ) (e : FragmentEntry) : FragmentCache :=
  { c with entries := Function.update c.entries i e }

/-- `__skb_queue_purge` of an entry. -/
def FragmentCache.purge (c : FragmentCache) (i : ℕ) : FragmentCache :=
  c.setEntry i { c.entries i with skbList := [] }

/-! ### The cache -/

/-- `ieee80211_reassemble_add`: the new entry replaces the one at `next`. -/
def reassembleAdd (c : FragmentCache) (jiffies frag seq rxQueue : ℕ) (skb : List UInt8) :
    FragmentCache :=
  let entry := { c.entries c.next with
    skbList := [skb], firstFragTime := jiffies, seq := u16 seq, rxQueue := rxQueue % 256,
    lastFrag := u16 frag, checkSequentialPn := false, isProtected := false, extraLen := 0 }
  { c.setEntry c.next entry with next := if fragmentMax ≤ c.next + 1 then 0 else c.next + 1 }

/-- The frame type and the addresses of the MPDU are those of the first fragment. -/
def sameHeader (hdr fHdr : List UInt8) : Bool :=
  (frameControl hdr ^^^ frameControl fHdr) &&& 0x000c == 0 &&
    addr1 hdr == addr1 fHdr && addr2 hdr == addr2 fHdr

/-- `ieee80211_reassemble_find`: `n` entries are still to be looked at, from the one before
`idx`. -/
def reassembleFind (hz jiffies frag seq rxQueue : ℕ) (hdr : List UInt8) :
    ℕ → ℕ → FragmentCache → FragmentCache × Option ℕ
  | 0, _, c => (c, none)
  | n + 1, idx, c =>
    let i := if idx = 0 then fragmentMax - 1 else idx - 1
    let entry := c.entries i
    match entry.skbList with
    | [] => reassembleFind hz jiffies frag seq rxQueue hdr n i c
    | fSkb :: _ =>
      if entry.seq ≠ seq ∨ entry.rxQueue ≠ rxQueue ∨ entry.lastFrag + 1 ≠ frag then
        reassembleFind hz jiffies frag seq rxQueue hdr n i c
      else if sameHeader hdr fSkb = false then
        reassembleFind hz jiffies frag seq rxQueue hdr n i c
      else if timeAfter jiffies (ulong (entry.firstFragTime + 2 * hz)) then
        reassembleFind hz jiffies frag seq rxQueue hdr n i (c.purge i)
      else (c, some i)

/-! ### Packet numbers of decrypted frames -/

/-- What `ieee80211_crypto_ccmp_decrypt` (and its GCMP twin) does with the packet number `pn`: the
replay check, and then the counter of the queue and, for a fragment, `rx->ccm_gcm.pn` are set.
`none` is `RX_DROP_U_REPLAY`; with `RX_FLAG_PN_VALIDATED` there is no check. -/
def ccmpDecryptPn (rx : Rx) (key : Key) (pn : Pn) (pnValidated allowSamePn isFrag : Bool) :
    Option Rx :=
  if pnValidated then some { rx with key := some key }
  else if pn.value < (key.rxPn rx.securityIdx).value ∨
      (pn = key.rxPn rx.securityIdx ∧ allowSamePn = false) then none
  else some { rx with
    key := some { key with rxPn := Function.update key.rxPn rx.securityIdx pn }
    ccmGcmPn := if isFrag then pn else rx.ccmGcmPn }

/-! ### The handler -/

/-- `requires_sequential_pn`. -/
def requiresSequentialPn (rx : Rx) : Bool :=
  match rx.key with
  | none => false
  | some key =>
    (key.cipher == .ccmp || key.cipher == .ccmp256 || key.cipher == .gcmp ||
      key.cipher == .gcmp256) && hasProtected rx.fc

/-- The frame was decrypted with a key: `rx->key && (ieee80211_has_protected(fc) ||
(status->flag & RX_FLAG_DECRYPTED))`. -/
def decryptedWithKey (rx : Rx) : Bool :=
  rx.key.isSome && (hasProtected rx.fc || rx.decrypted)

def keyColor (rx : Rx) : ℕ := (rx.key.map Key.color).getD 0

def keyPn (rx : Rx) : Pn := (rx.key.map fun key => key.rxPn rx.securityIdx).getD Pn.zero

/-- `RX_CONTINUE`, `RX_QUEUED` and the drop reasons of the handler. -/
inductive RxResult where
  | continue
  | queued
  | dropMcastFragment
  | dropOom
  | dropDefragMismatch
  | dropNonseqPn
  | dropBadKeyColor
  | dropReplay
  | dropExpectDefragProt
  | dropDefragOverflow
deriving DecidableEq, Repr

/-- One call of the handler: the MPDU, the time, whether `skb_linearize` and `pskb_expand_head`
succeed and the tailroom of the first fragment. -/
structure Arrival where
  rx : Rx
  jiffies : ℕ
  linearizeOk : Bool := true
  tailroom : ℕ := 0
  expandOk : Bool := true

structure Outcome where
  result : RxResult
  skb : Option (List UInt8)
deriving DecidableEq

def firstFragment (c : FragmentCache) (a : Arrival) : FragmentCache :=
  let rx := a.rx
  let i := c.next
  let c := reassembleAdd c a.jiffies rx.frag rx.seq rx.seqnoIdx rx.data
  if requiresSequentialPn rx then
    c.setEntry i { c.entries i with
      checkSequentialPn := true, isProtected := true, keyColor := keyColor rx, lastPn := keyPn rx }
  else if decryptedWithKey rx then
    c.setEntry i { c.entries i with isProtected := true, keyColor := keyColor rx }
  else c

/-- The checks against mixed keys and wrong packet numbers: a drop reason, or the entry. -/
def checkProtection (entry : FragmentEntry) (rx : Rx) : Except RxResult FragmentEntry :=
  if entry.checkSequentialPn then
    if !requiresSequentialPn rx then .error .dropNonseqPn
    else if entry.keyColor ≠ keyColor rx then .error .dropBadKeyColor
    else if entry.lastPn.next ≠ rx.ccmGcmPn then .error .dropReplay
    else .ok { entry with lastPn := entry.lastPn.next }
  else if entry.isProtected &&
      (rx.key.isNone || (!hasProtected rx.fc && !rx.decrypted) ||
        keyColor rx != entry.keyColor) then
    .error .dropExpectDefragProt
  else if entry.isProtected && rx.key.isSome && entry.keyColor != keyColor rx && rx.decrypted then
    .error .dropBadKeyColor
  else .ok entry

/-- The fragment joins the frame of entry `i`; the last one completes it. -/
def addFragment (c : FragmentCache) (i : ℕ) (entry : FragmentEntry) (a : Arrival) :
    Outcome × FragmentCache :=
  let body := a.rx.body
  if 65535 < entry.extraLen + body.length then
    (⟨.dropDefragOverflow, some body⟩, c.setEntry i { entry with skbList := [] })
  else
    let entry := { entry with
      skbList := entry.skbList ++ [body], lastFrag := u16 a.rx.frag,
      extraLen := u16 (entry.extraLen + body.length) }
    if hasMorefrags a.rx.fc then (⟨.queued, none⟩, c.setEntry i entry)
    else
      let c := c.setEntry i { entry with skbList := [] }
      match entry.skbList with
      | [] => (⟨.continue, none⟩, c)
      | first :: rest =>
        if a.tailroom < entry.extraLen ∧ a.expandOk = false then (⟨.dropOom, some first⟩, c)
        else (⟨.continue, some (first ++ rest.flatten)⟩, c)

def laterFragment (hz : ℕ) (c : FragmentCache) (a : Arrival) : Outcome × FragmentCache :=
  let rx := a.rx
  match reassembleFind hz a.jiffies rx.frag rx.seq rx.seqnoIdx rx.data fragmentMax c.next c with
  | (c, none) => (⟨.dropDefragMismatch, some rx.data⟩, c)
  | (c, some i) =>
    match checkProtection (c.entries i) rx with
    | .error r => (⟨r, some rx.data⟩, c)
    | .ok entry => addFragment c i entry a

/-- `ieee80211_rx_h_defragment`. -/
def rxHDefragment (hz : ℕ) (c : FragmentCache) (a : Arrival) : Outcome × FragmentCache :=
  let rx := a.rx
  if isCtl rx.fc || isExt rx.fc then (⟨.continue, some rx.data⟩, c)
  else if !hasMorefrags rx.fc && rx.frag == 0 then (⟨.continue, some rx.data⟩, c)
  else if isMulticastEtherAddr (addr1 rx.data) then (⟨.dropMcastFragment, some rx.data⟩, c)
  else if !a.linearizeOk then (⟨.dropOom, some rx.data⟩, c)
  else if rx.frag = 0 then (⟨.queued, none⟩, firstFragment c a)
  else laterFragment hz c a

def step (hz : ℕ) (c : FragmentCache) (a : Arrival) : Option (Outcome × FragmentCache) :=
  some (rxHDefragment hz c a)

end Iwlwifi.Ieee80211.Defrag
