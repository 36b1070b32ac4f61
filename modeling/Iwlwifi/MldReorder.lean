import Iwlwifi.Header
import Iwlwifi.Slots
import Iwlwifi.Transition

/-! # The reorder buffer of the iwlmld driver

A model of `drivers/net/wireless/intel/iwlwifi/mld/agg.c`: the receive block-ack sessions of the
driver for devices whose firmware does the bookkeeping of the window.

* **State** (`BaidData`).  The identity of the session, one `ReorderBuffer` per receive queue and the
  flat array of entries, of which queue `q` uses the `buf_size` entries from `q * entries_per_queue`
  on.  An entry is a list of frames, of any type: the driver never looks into an skb it stores.
* **Firmware data.**  An MPDU arrives with its descriptor: the reorder word (BAID, SN, NSSN and the
  old-SN flag), the status word and the A-MSDU flags.  The release notifications are the
  bytes of their payload.
* **Machine** (`step`).  The events of one receive queue.  One session is modelled: a BAID other
  than its own finds no data. -/

namespace Iwlwifi.Iwl.Mld

open Ieee80211 Bytes

/-! ### Data -/

/-- `IWL_RX_REORDER_DATA_INVALID_BAID`. -/
def invalidBaid : ℕ := 0x7f

/-- `IWL_MAX_BAID`, the size of `fw_id_to_ba`. -/
def maxBaid : ℕ := 32

/-- `struct iwl_mld_reorder_buffer`. -/
structure ReorderBuffer where
  headSn : ℕ
  numStored : ℕ
  queue : ℕ
  valid : Bool
deriving DecidableEq, Repr

/-- `struct iwl_mld_baid_data`. -/
structure BaidData (γ : Type) where
  staMask : ℕ
  tid : ℕ
  baid : ℕ
  bufSize : ℕ
  entriesPerQueue : ℕ
  reorderBuf : ℕ → ReorderBuffer
  entries : ℕ → List γ

/-- A link station: the firmware ids of all links of its station. -/
structure LinkSta where
  fwIds : List ℕ
deriving DecidableEq, Repr

/-- What the reorder code reads of `struct iwl_mld`.  A pointer to no station is `none`. -/
structure IwlMld where
  fwIdToLinkSta : ℕ → Option LinkSta
  /-- `fw->ucode_capa.num_stations` -/
  numStations : ℕ

/-- A received MPDU with its descriptor. -/
structure RxMpdu (γ : Type) where
  skb : γ
  /-- the bytes of the MAC header -/
  hdr : List UInt8
  linkSta : Option LinkSta
  reorderData : ℕ
  status : ℕ
  macFlags2 : ℕ
  amsduInfo : ℕ

/-- `enum iwl_mld_reorder_result`. -/
inductive ReorderResult
  | passSkb
  | bufferedSkb
  | dropSkb
deriving DecidableEq, Repr

variable {γ : Type}

/-- `fw_id_to_ba[baid]`. -/
def BaidData.lookup (bd : BaidData γ) (baid : ℕ) : Option (BaidData γ) :=
  if baid = bd.baid then some bd else none

/-- `ffs`: one more than the index of the least bit that is set. -/
def ffs (mask : ℕ) : ℕ :=
  match (List.range 32).find? mask.testBit with
  | none => 0
  | some i => i + 1

/-! ### The fields of the descriptor -/

namespace RxMpdu

variable (m : RxMpdu γ)

def nssn : ℕ := m.reorderData % 4096
def sn : ℕ := m.reorderData / 2 ^ 12 % 4096
def baid : ℕ := m.reorderData / 2 ^ 24 % 128
def isOldSn : Bool := m.reorderData.testBit 31
def isDup : Bool := m.status.testBit 22
def amsdu : Bool := m.macFlags2.testBit 6
def lastSubframe : Bool := m.amsduInfo.testBit 7

/-- `ieee80211_get_tid` of the header. -/
def tid : ℕ :=
  (m.hdr.getD (if hasA4 (frameControl m.hdr) then 30 else 24) 0).toNat % 16

/-- `ieee80211_is_data_present`. -/
def isDataPresent : Bool := frameControl m.hdr &&& 0x004c == 0x0008

def staMask : ℕ :=
  match m.linkSta with
  | none => 0
  | some link => link.fwIds.foldl (fun mask id => mask ||| 2 ^ id) 0

/-- The head may not follow this frame: it is a subframe of an A-MSDU, and not its last one. -/
def moreSubframes : Bool := m.amsdu && !m.lastSubframe

theorem sn_lt : m.sn < 4096 := Nat.mod_lt _ (by omega)

end RxMpdu

/-! ### Releasing frames -/

/-- The variables of the loop of `iwl_mld_reorder_release_frames`. -/
structure ReleaseLoop (γ : Type) where
  ssn : ℕ
  entries : ℕ → List γ
  numStored : ℕ
  passed : List γ

/-- One iteration: empty the list of `ssn`, decrementing `num_stored` for every frame. -/
def releaseBody (base bufSize : ℕ) (s : ReleaseLoop γ) : ReleaseLoop γ :=
  let index := s.ssn % bufSize
  let frames := s.entries (base + index)
  { ssn := snInc s.ssn
    entries := Function.update s.entries (base + index) []
    numStored := u16Dec^[frames.length] s.numStored
    passed := s.passed ++ frames }

/-- The loop: at most 2047 iterations, since `ssn` is less than `nssn` in the SN space. -/
def releaseLoop (base bufSize nssn : ℕ) (s : ReleaseLoop γ) : ReleaseLoop γ :=
  whileLoop (fun s : ReleaseLoop γ => snLess s.ssn nssn) (releaseBody base bufSize) 4096 s

def endRelease (bd : BaidData γ) (queue nssn : ℕ) (s : ReleaseLoop γ) : List γ × BaidData γ :=
  (s.passed,
    { bd with
      entries := s.entries
      reorderBuf := Function.update bd.reorderBuf queue
        { bd.reorderBuf queue with numStored := s.numStored, headSn := nssn } })

/-- `iwl_mld_reorder_release_frames` on the buffer of `queue`: the frames handed up, in order, and
the new state. -/
def reorderReleaseFrames (bd : BaidData γ) (queue nssn : ℕ) : List γ × BaidData γ :=
  endRelease bd queue nssn
    (releaseLoop ((bd.reorderBuf queue).queue * bd.entriesPerQueue) bd.bufSize nssn
      ⟨(bd.reorderBuf queue).headSn, bd.entries, (bd.reorderBuf queue).numStored, []⟩)

/-- The station of the session is known: any station of the mask stands for it. -/
def stationKnown (mld : IwlMld) (bd : BaidData γ) : Bool :=
  bd.staMask != 0 && (mld.fwIdToLinkSta (ffs bd.staMask - 1)).isSome

/-- `iwl_mld_release_frames_from_notif`. -/
def releaseFramesFromNotif (mld : IwlMld) (bd : BaidData γ) (baid nssn queue : ℕ) :
    List γ × BaidData γ :=
  if baid = invalidBaid ∨ maxBaid ≤ baid then ([], bd)
  else
    match bd.lookup baid with
    | none => ([], bd)
    | some baData =>
      if stationKnown mld baData then reorderReleaseFrames baData queue nssn else ([], bd)

/-- `iwl_mld_handle_frame_release_notif`: `struct iwl_frame_release` has four bytes. -/
def handleFrameReleaseNotif (mld : IwlMld) (bd : BaidData γ) (data : List UInt8) (queue : ℕ) :
    List γ × BaidData γ :=
  if data.length < 4 then ([], bd)
  else releaseFramesFromNotif mld bd (data.getD 0 0).toNat (le16 data 2) queue

def le32 (data : List UInt8) (off : ℕ) : ℕ := le16 data off + 65536 * le16 data (off + 2)

/-! The fields of `struct iwl_bar_frame_release`. -/

def barTid (data : List UInt8) : ℕ := le32 data 0 % 16
def barStaId (data : List UInt8) : ℕ := le32 data 0 / 2 ^ 4 % 32
def barNssn (data : List UInt8) : ℕ := le32 data 4 % 4096
def barBaid (data : List UInt8) : ℕ := le32 data 4 / 2 ^ 24 % 64

def barMismatch (mld : IwlMld) (bd : BaidData γ) (staId tid : ℕ) : Bool :=
  tid != bd.tid || decide (mld.numStations < staId) || !bd.staMask.testBit staId

/-- `iwl_mld_handle_bar_frame_release_notif`: `struct iwl_bar_frame_release` has eight bytes. -/
def handleBarFrameReleaseNotif (mld : IwlMld) (bd : BaidData γ) (data : List UInt8) (queue : ℕ) :
    List γ × BaidData γ :=
  if data.length < 8 then ([], bd)
  else if maxBaid ≤ barBaid data then ([], bd)
  else
    match bd.lookup (barBaid data) with
    | none => ([], bd)
    | some baData =>
      if barMismatch mld baData (barStaId data) (barTid data) then ([], bd)
      else releaseFramesFromNotif mld bd (barBaid data) (barNssn data) queue

/-- `iwl_mld_del_ba`. -/
def delBa (mld : IwlMld) (bd : BaidData γ) (queue baid : ℕ) : List γ × BaidData γ :=
  if maxBaid ≤ baid then ([], bd)
  else
    match bd.lookup baid with
    | none => ([], bd)
    | some baData =>
      if stationKnown mld baData then
        reorderReleaseFrames baData queue (snAdd (baData.reorderBuf queue).headSn baData.bufSize)
      else ([], bd)

/-! ### Receiving a frame -/

/-- The checks of `iwl_mld_reorder` before the buffer is touched: the frame is passed up. -/
def bypassed (bd : BaidData γ) (m : RxMpdu γ) : Bool :=
  m.baid == invalidBaid || decide (maxBaid ≤ m.baid) || m.linkSta.isNone ||
    (!isDataQos (frameControl m.hdr) || isMulticastEtherAddr (addr1 m.hdr)) ||
    !m.isDataPresent ||
    match bd.lookup m.baid with
    | none => true
    | some baData => m.tid != baData.tid || m.staMask &&& baData.staMask == 0

def BaidData.setBuf (bd : BaidData γ) (queue : ℕ) (buf : ReorderBuffer) : BaidData γ :=
  { bd with reorderBuf := Function.update bd.reorderBuf queue buf }

/-- `__skb_queue_tail` on the entry of `sn`, and `num_stored++`. -/
def BaidData.store (bd : BaidData γ) (queue sn : ℕ) (skb : γ) : BaidData γ :=
  let buf := bd.reorderBuf queue
  let i := queue * bd.entriesPerQueue + sn % bd.bufSize
  { bd.setBuf queue { buf with numStored := u16 (buf.numStored + 1) } with
    entries := Function.update bd.entries i (bd.entries i ++ [skb]) }

def BaidData.setHead (bd : BaidData γ) (queue sn : ℕ) : BaidData γ :=
  bd.setBuf queue { bd.reorderBuf queue with headSn := sn }

def BaidData.validate (bd : BaidData γ) (queue : ℕ) : BaidData γ :=
  bd.setBuf queue { bd.reorderBuf queue with valid := true }

/-- What `iwl_mld_reorder` does with a frame that is neither old nor a duplicate. -/
def reorderAccepted (bd : BaidData γ) (queue : ℕ) (m : RxMpdu γ) :
    ReorderResult × List γ × BaidData γ :=
  let buf := bd.reorderBuf queue
  if buf.numStored = 0 ∧ snLess m.sn m.nssn = true then
    (.passSkb, [], if m.moreSubframes then bd else bd.setHead queue m.nssn)
  else if buf.numStored = 0 ∧ m.sn = buf.headSn then
    (.passSkb, [], if m.moreSubframes then bd else bd.setHead queue (snInc buf.headSn))
  else
    let bd' := bd.store queue m.sn m.skb
    if m.moreSubframes = false then
      (.bufferedSkb, reorderReleaseFrames bd' queue m.nssn)
    else if (bd'.reorderBuf queue).numStored = 1 then
      (.bufferedSkb, [], bd'.setHead queue m.nssn)
    else (.bufferedSkb, [], bd')

/-- `iwl_mld_reorder`: the result, the frames released on the way, and the new state. -/
def reorder (bd : BaidData γ) (queue : ℕ) (m : RxMpdu γ) : ReorderResult × List γ × BaidData γ :=
  if bypassed bd m then (.passSkb, [], bd)
  else
    if (bd.reorderBuf queue).valid = false ∧ m.isOldSn = true then (.passSkb, [], bd)
    else
      let bd := bd.validate queue
      if m.isDup || m.isOldSn then (.dropSkb, [], bd) else reorderAccepted bd queue m

/-! ### Setting up and tearing down a session -/

inductive Errno
  | enospc
  | einval
  | enomem
  | eio
  | firmware (ret : ℤ)
deriving DecidableEq, Repr

/-- Sizes of the platform, with the build-time check of `iwl_mld_ampdu_rx_start`. -/
structure Platform where
  /-- `sizeof(entries[0])` -/
  entrySize : ℕ
  /-- `SMP_CACHE_BYTES` -/
  cacheBytes : ℕ
  entrySize_pos : 0 < entrySize
  cacheBytes_pos : 0 < cacheBytes
  divides : cacheBytes % entrySize = 0 ∨ entrySize % cacheBytes = 0

/-- `ALIGN(x, a)`. -/
def align (x a : ℕ) : ℕ := (x + a - 1) / a * a

/-- `iwl_mld_init_reorder_buffer`: the buffers of the queues in use; their entries are empty. -/
def initReorderBuffer (numRxqs : ℕ) (bd : BaidData γ) (ssn : ℕ) : BaidData γ :=
  { bd with
    reorderBuf := fun i =>
      if i < numRxqs then { bd.reorderBuf i with headSn := ssn, queue := i } else bd.reorderBuf i
    entries := fun _ => [] }

/-- The answer to `RX_BAID_ALLOCATION_CONFIG_CMD`: an error, or a response of some length with a
BAID. -/
inductive StartResponse
  | error (ret : ℤ)
  | response (len : ℕ) (baid : ℤ)
deriving DecidableEq, Repr

/-- `iwl_mld_start_ba_in_fw`. -/
def startBaInFw : StartResponse → Except Errno ℕ
  | .error ret => .error (.firmware ret)
  | .response len baid =>
    if len ≠ 4 then .error .eio
    else if baid < 0 ∨ (maxBaid : ℤ) ≤ baid then .error .einval
    else .ok baid.toNat

/-- `iwl_mld_ampdu_rx_start`: the session data that is published in `fw_id_to_ba`. -/
def ampduRxStart (γ : Type) (p : Platform) (numRxqs numRxBaSessions staMask : ℕ) (allocated : Bool)
    (resp : StartResponse) (tid ssn bufSize : ℕ) : Except Errno (BaidData γ) := do
  if maxBaid ≤ numRxBaSessions then throw .enospc
  if staMask = 0 then throw .einval
  let reorderBufSize := align (bufSize * p.entrySize) p.cacheBytes
  if allocated = false then throw .enomem
  let baid ← startBaInFw resp
  let bd : BaidData γ :=
    { staMask := staMask
      tid := tid
      baid := baid
      bufSize := bufSize
      entriesPerQueue := u16 (reorderBufSize / p.entrySize)
      reorderBuf := fun _ => ⟨0, 0, 0, false⟩
      entries := fun _ => [] }
  return initReorderBuffer numRxqs bd ssn

/-- `__skb_queue_purge` on all entries of a queue. -/
def purgeQueue (bd : BaidData γ) (queue : ℕ) : BaidData γ :=
  { bd with
    entries := fun i =>
      if queue * bd.entriesPerQueue ≤ i ∧ i < queue * bd.entriesPerQueue + bd.bufSize then []
      else bd.entries i }

/-- One iteration of `iwl_mld_free_reorder_buffer`: a queue that still counts stored frames is
purged. -/
def freeQueue (bd : BaidData γ) (queue : ℕ) : BaidData γ :=
  if (bd.reorderBuf queue).numStored = 0 then bd else purgeQueue bd queue

/-- `iwl_mld_free_reorder_buffer` after the queues were synchronised. -/
def freeReorderBuffer (numRxqs : ℕ) (bd : BaidData γ) : BaidData γ :=
  (List.range numRxqs).foldl freeQueue bd

/-! ### The events of a receive queue -/

inductive Act (γ : Type)
  | rx (m : RxMpdu γ)
  | frameRelease (data : List UInt8)
  | barFrameRelease (data : List UInt8)
  | delBa (baid : ℕ)

/-- The result of `iwl_mld_reorder`, if it was called, and the frames released. -/
structure Out (γ : Type) where
  result : Option ReorderResult
  released : List γ

def Out.notif (p : List γ × BaidData γ) : Out γ × BaidData γ := (⟨none, p.1⟩, p.2)

def step (mld : IwlMld) (queue : ℕ) (bd : BaidData γ) : Act γ → Option (Out γ × BaidData γ)
  | .rx m =>
    let r := reorder bd queue m
    some (⟨some r.1, r.2.1⟩, r.2.2)
  | .frameRelease data => some (Out.notif (handleFrameReleaseNotif mld bd data queue))
  | .barFrameRelease data => some (Out.notif (handleBarFrameReleaseNotif mld bd data queue))
  | .delBa baid => some (Out.notif (delBa mld bd queue baid))

end Iwlwifi.Iwl.Mld
