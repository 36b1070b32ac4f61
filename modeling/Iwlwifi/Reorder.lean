import Iwlwifi.SeqNum
import Iwlwifi.Transition

/-! # The mac80211 receive reorder buffer

A model of the A-MPDU reorder buffer of `net/mac80211/rx.c` and of the set-up of a receive
block-ack session in `net/mac80211/agg-rx.c`.

* **State** (`TidAmpduRx`).  The head of the window, the buffer size, the number of stored MPDUs
  (a `u16`), the bitmap of filtered slots and the slots.  A slot is a list of frames (the subframes
  of an A-MSDU arrive one by one) and the time at which it was completed.
* **Frames** (`Skb`).  The sequence control word and the flag `RX_FLAG_AMSDU_MORE`.
* **Loops.**  All loops but one are bounded.  The last loop of `ieee80211_sta_reorder_release`, which
  looks for the slot of the next timeout, compares an index with `(index - 1) % buf_size`; in C this
  is `-1` for `index = 0`, so that only a ready slot ends the loop.  `nextReady` returns `none` when
  the loop does not end, and so do the functions that call it.
* **Machine** (`step`).  The arrival of a frame and the expiry of the reorder timer, each at an
  arbitrary time; the output lists the frames handed up, in order. -/

namespace Iwlwifi.Ieee80211.Reorder

/-! ### Data -/

/-- A received frame, as the reorder buffer sees it. -/
structure Skb where
  seqCtrl : ℕ
  /-- `RX_FLAG_AMSDU_MORE` -/
  amsduMore : Bool := false
  /-- `IEEE80211_RX_DEFERRED_RELEASE`, set when the frame leaves the buffer -/
  deferredRelease : Bool := false
deriving DecidableEq, Repr

/-- `ieee80211_get_sn` of the frame's header. -/
def Skb.sn (skb : Skb) : ℕ := getSn skb.seqCtrl

theorem Skb.sn_lt (skb : Skb) : skb.sn < 4096 := getSn_lt _

structure ReorderSlot where
  buf : List Skb := []
  time : ℕ := 0
deriving DecidableEq, Repr

/-- `struct tid_ampdu_rx`. -/
structure TidAmpduRx where
  reorderBufFiltered : ℕ
  headSeqNum : ℕ
  storedMpduNum : ℕ
  ssn : ℕ
  bufSize : ℕ
  autoSeq : Bool
  removed : Bool
  started : Bool
  reorder : ℕ → ReorderSlot
  /-- expiry of `reorder_timer`, when it is armed -/
  reorderTimer : Option ℕ

namespace TidAmpduRx

def buf (t : TidAmpduRx) (index : ℕ) : List Skb := (t.reorder index).buf

def setBuf (t : TidAmpduRx) (index : ℕ) (l : List Skb) : TidAmpduRx :=
  { t with reorder := Function.update t.reorder index { t.reorder index with buf := l } }

def setTime (t : TidAmpduRx) (index time : ℕ) : TidAmpduRx :=
  { t with reorder := Function.update t.reorder index { t.reorder index with time := time } }

def headIndex (t : TidAmpduRx) : ℕ := t.headSeqNum % t.bufSize

end TidAmpduRx

/-! ### Releasing frames -/

/-- `ieee80211_rx_reorder_ready`. -/
def rxReorderReady (t : TidAmpduRx) (index : ℕ) : Bool :=
  if t.reorderBufFiltered ≠ 0 ∧ t.reorderBufFiltered.testBit index then true
  else
    match (t.buf index).getLast? with
    | none => false
    | some tail => !tail.amsduMore

def deferRelease (skb : Skb) : Skb := { skb with deferredRelease := true }

/-- Clear bit `index` of the `u64` bitmap, if any bit is set. -/
def clearFiltered (t : TidAmpduRx) (index : ℕ) : TidAmpduRx :=
  if t.reorderBufFiltered ≠ 0 ∧ t.reorderBufFiltered.testBit index then
    { t with reorderBufFiltered := t.reorderBufFiltered - 2 ^ index }
  else t

/-- `ieee80211_release_reorder_frame`: the new state and the release list. -/
def releaseReorderFrame (t : TidAmpduRx) (index : ℕ) (frames : List Skb) :
    TidAmpduRx × List Skb :=
  let p : TidAmpduRx × List Skb :=
    if t.buf index = [] then (t, frames)
    else if rxReorderReady t index = false then (t.setBuf index [], frames)
    else ({ t.setBuf index [] with storedMpduNum := u16Dec t.storedMpduNum },
      frames ++ (t.buf index).map deferRelease)
  let t' := clearFiltered p.1 index
  ({ t' with headSeqNum := snInc t'.headSeqNum }, p.2)

/-- `ieee80211_release_reorder_frames`: release up to the new head. -/
def releaseReorderFrames (t : TidAmpduRx) (headSeqNum : ℕ) (frames : List Skb) :
    TidAmpduRx × List Skb :=
  whileLoop (fun p : TidAmpduRx × List Skb => snLess p.1.headSeqNum headSeqNum)
    (fun p => releaseReorderFrame p.1 p.1.headIndex p.2) 4096 (t, frames)

/-- `HT_RX_REORDER_BUF_TIMEOUT`. -/
def reorderBufTimeout (hz : ℕ) : ℕ := hz / 10

/-- `for (i = ...; i != j; i = (i + 1) % buf_size)` purging slot `i`. -/
def purgeSlots (j : ℕ) : ℕ → ℕ → TidAmpduRx → TidAmpduRx
  | 0, _, t => t
  | n + 1, i, t => if i = j then t else purgeSlots j n ((i + 1) % t.bufSize) (t.setBuf i [])

def slotExpired (hz jiffies : ℕ) (t : TidAmpduRx) (j : ℕ) : Bool :=
  timeAfter jiffies (ulong ((t.reorder j).time + reorderBufTimeout hz))

/-- The loop over the slots behind a head that is not ready.  The last component is the slot
with which `goto set_release_timer` leaves the loop. -/
def releaseTimedOut (hz jiffies index : ℕ) :
    ℕ → ℕ → ℕ → TidAmpduRx → List Skb → TidAmpduRx × List Skb × Option ℕ
  | 0, _, _, t, frames => (t, frames, none)
  | n + 1, j, skipped, t, frames =>
    if j = index then (t, frames, none)
    else if rxReorderReady t j = false then
      releaseTimedOut hz jiffies index n ((j + 1) % t.bufSize) (skipped + 1) t frames
    else if skipped ≠ 0 ∧ slotExpired hz jiffies t j = false then (t, frames, some j)
    else
      -- don't leave incomplete A-MSDUs around
      let t₁ := purgeSlots j t.bufSize ((index + 1) % t.bufSize) t
      let p := releaseReorderFrame t₁ j frames
      releaseTimedOut hz jiffies index n ((j + 1) % t.bufSize) 0
        { p.1 with headSeqNum := (p.1.headSeqNum + skipped) % 4096 } p.2

def releaseReady (t : TidAmpduRx) (frames : List Skb) : TidAmpduRx × List Skb :=
  whileLoop (fun p : TidAmpduRx × List Skb => rxReorderReady p.1 p.1.headIndex)
    (fun p => releaseReorderFrame p.1 p.1.headIndex p.2) (t.bufSize + 1) (t, frames)

/-- The search for the slot of the next timeout, from `j` up to the C value `(index - 1) %
buf_size`.  The loop does not end when it has made `buf_size` iterations. -/
def nextReady (t : TidAmpduRx) (index : ℕ) : ℕ → ℕ → Option ℕ
  | 0, _ => none
  | n + 1, j =>
    if (j : ℤ) = Int.tmod ((index : ℤ) - 1) t.bufSize then some j
    else if rxReorderReady t j then some j
    else nextReady t index n ((j + 1) % t.bufSize)

/-- The code behind the label `set_release_timer`. -/
def setReleaseTimer (hz : ℕ) (t : TidAmpduRx) (j : ℕ) : TidAmpduRx :=
  if t.removed then t
  else { t with reorderTimer := some (ulong ((t.reorder j).time + 1 + reorderBufTimeout hz)) }

/-- The first half of `ieee80211_sta_reorder_release`, with the slot with which the loop was left by
`goto`. -/
def releasePhase (hz jiffies : ℕ) (t : TidAmpduRx) (frames : List Skb) :
    TidAmpduRx × List Skb × Option ℕ :=
  if rxReorderReady t t.headIndex = false ∧ t.storedMpduNum ≠ 0 then
    releaseTimedOut hz jiffies t.headIndex t.bufSize ((t.headIndex + 1) % t.bufSize) 1 t frames
  else ((releaseReady t frames).1, (releaseReady t frames).2, none)

def armTimer (hz : ℕ) : TidAmpduRx × List Skb × Option ℕ → Option (TidAmpduRx × List Skb)
  | (t, frames, some j) => some (setReleaseTimer hz t j, frames)
  | (t, frames, none) =>
    if t.storedMpduNum ≠ 0 then
      match nextReady t t.headIndex (t.bufSize + 1) t.headIndex with
      | none => none
      | some j => some (setReleaseTimer hz t j, frames)
    else some ({ t with reorderTimer := none }, frames)

/-- `ieee80211_sta_reorder_release`; `none` when the function does not return. -/
def staReorderRelease (hz jiffies : ℕ) (t : TidAmpduRx) (frames : List Skb) :
    Option (TidAmpduRx × List Skb) :=
  armTimer hz (releasePhase hz jiffies t frames)

/-! ### Arriving frames -/

/-- What `ieee80211_sta_manage_reorder_buf` does with the frame: it returns false for
`processed` and true for the others; `outOfDate` and `duplicate` frames are freed. -/
inductive Fate where
  | processed
  | outOfDate
  | duplicate
  | buffered
deriving DecidableEq, Repr

def pickAutoSeq (t : TidAmpduRx) (sn : ℕ) : TidAmpduRx :=
  if t.autoSeq then { t with autoSeq := false, ssn := sn, headSeqNum := sn } else t

/-- Release stored frames to make room for a frame beyond the window. -/
def windowMove (t : TidAmpduRx) (sn : ℕ) : TidAmpduRx × List Skb :=
  if snLess sn (u16 (t.headSeqNum + t.bufSize)) = false then
    releaseReorderFrames t (snInc (snSub sn t.bufSize)) []
  else (t, [])

def storeFrame (hz jiffies : ℕ) (t : TidAmpduRx) (skb : Skb) (frames : List Skb) :
    Option (Fate × TidAmpduRx × List Skb) :=
  let index := skb.sn % t.bufSize
  if rxReorderReady t index then some (.duplicate, t, frames)
  else if skb.sn = t.headSeqNum ∧ t.storedMpduNum = 0 then
    if skb.amsduMore then some (.processed, t, frames)
    else some (.processed, { t with headSeqNum := snInc t.headSeqNum }, frames)
  else
    let t₁ := t.setBuf index (t.buf index ++ [skb])
    if skb.amsduMore then some (.buffered, t₁, frames)
    else
      let t₂ := { t₁.setTime index jiffies with storedMpduNum := u16 (t₁.storedMpduNum + 1) }
      (staReorderRelease hz jiffies t₂ frames).map fun p => (.buffered, p.1, p.2)

/-- `ieee80211_sta_manage_reorder_buf`; `none` when the function does not return. -/
def staManageReorderBuf (hz jiffies : ℕ) (t : TidAmpduRx) (skb : Skb) :
    Option (Fate × TidAmpduRx × List Skb) :=
  let t₀ := pickAutoSeq t skb.sn
  if t₀.started = false ∧ snLess skb.sn t₀.headSeqNum then
    -- before the start of the session the frame is not reordered
    some (.processed, t₀, [])
  else
    let t₁ := { t₀ with started := true }
    if snLess skb.sn t₁.headSeqNum then some (.outOfDate, t₁, [])
    else
      let p := windowMove t₁ skb.sn
      storeFrame hz jiffies p.1 skb p.2

/-! ### Sessions -/

/-- The capabilities of the station that the session set-up reads. -/
structure StaCaps where
  validLinks : Bool
  htSupported : Bool
  hasHe : Bool
  hasEht : Bool
  s1g : Bool
  /-- `IEEE80211_HT_CAP_DELAY_BA` -/
  htDelayBa : Bool
  /-- `S1G_CAP3_HT_DELAYED_BA` -/
  s1gDelayedBa : Bool
  /-- `WLAN_STA_BLOCK_BA` -/
  blockBa : Bool
  /-- `ieee80211_s1g_use_ndp_ba` -/
  useNdpBa : Bool
  maxRxAggregationSubframes : ℕ

/-- An earlier session on the TID: its dialog token and, unless the hardware reorders, its
timeout. -/
structure OldSession where
  dialogToken : ℕ
  timeout : Option ℕ

/-- What the environment answers during the set-up. -/
structure StartEnv where
  oldSession : Option OldSession
  /-- `SUPPORTS_REORDERING_BUFFER` -/
  hwReorders : Bool
  allocOk : Bool
  /-- `drv_ampdu_action` returned 0 -/
  driverOk : Bool

/-- The request. -/
structure StartRequest where
  dialogToken : ℕ
  timeout : ℕ
  startSeqNum : ℕ
  baPolicy : ℕ
  tid : ℕ
  bufSize : ℕ
  tx : Bool
  autoSeq : Bool
  reqNdp : Bool

inductive WlanStatus where
  | success
  | requestDeclined
  | rejectedNdpBlockAckSuggested
  | invalidQosParam
deriving DecidableEq, Repr

/-- `IEEE80211_MAX_AMPDU_BUF_{EHT,HE,HT}`. -/
def maxBufSize (sta : StaCaps) : ℕ :=
  if sta.validLinks || sta.hasEht then 1024
  else if sta.hasHe then 256
  else 64

/-- The size agreed on: the default when none is requested, capped by the hardware. -/
def negotiatedBufSize (sta : StaCaps) (bufSize : ℕ) : ℕ :=
  let b := if bufSize = 0 then maxBufSize sta else bufSize
  if sta.maxRxAggregationSubframes < b then sta.maxRxAggregationSubframes else b

def freshSession (req : StartRequest) (bufSize : ℕ) : TidAmpduRx where
  reorderBufFiltered := 0
  headSeqNum := req.startSeqNum
  storedMpduNum := 0
  ssn := req.startSeqNum
  bufSize := bufSize
  autoSeq := req.autoSeq
  removed := false
  started := false
  reorder := fun _ => {}
  reorderTimer := none

/-- `__ieee80211_start_rx_ba_session`: the status of the response and the session, if any. -/
def startRxBaSession (sta : StaCaps) (env : StartEnv) (req : StartRequest) :
    WlanStatus × Option TidAmpduRx :=
  let bufSize := negotiatedBufSize sta req.bufSize
  -- IEEE80211_FIRST_TSPEC_TSID
  if 8 ≤ req.tid then (.requestDeclined, none)
  else if req.tx && sta.useNdpBa && !req.reqNdp then (.rejectedNdpBlockAckSuggested, none)
  else if !sta.validLinks && !sta.htSupported && !sta.hasHe && !sta.s1g then
    (.requestDeclined, none)
  else if sta.blockBa then (.requestDeclined, none)
  else if (req.baPolicy ≠ 1 ∧ (sta.validLinks || !sta.htDelayBa || !sta.s1gDelayedBa)) ∨
      maxBufSize sta < req.bufSize then (.invalidQosParam, none)
  else
    match env.oldSession with
    | some old =>
      if old.dialogToken = req.dialogToken then
        (if old.timeout = some req.timeout then .success else .requestDeclined, none)
      else if env.hwReorders then (if env.driverOk then .success else .requestDeclined, none)
      else if !env.allocOk || !env.driverOk then (.requestDeclined, none)
      else (.success, some (freshSession req bufSize))
    | none =>
      if env.hwReorders then (if env.driverOk then .success else .requestDeclined, none)
      else if !env.allocOk || !env.driverOk then (.requestDeclined, none)
      else (.success, some (freshSession req bufSize))

/-! ### The machine -/

inductive Event where
  | rx (skb : Skb) (jiffies : ℕ)
  | timer (jiffies : ℕ)
deriving DecidableEq, Repr

structure Outcome where
  fate : Option Fate
  frames : List Skb
deriving DecidableEq, Repr

def step (hz : ℕ) (t : TidAmpduRx) : Event → Option (Outcome × TidAmpduRx)
  | .rx skb jiffies =>
    (staManageReorderBuf hz jiffies t skb).map fun r => (⟨some r.1, r.2.2⟩, r.2.1)
  | .timer jiffies => (staReorderRelease hz jiffies t []).map fun r => (⟨none, r.2⟩, r.1)

/-- The frames an event hands up, in order: the release list, and then the frame itself when it
is processed at once (`ieee80211_rx_reorder_ampdu`). -/
def handedUp (l : Label TidAmpduRx Event Outcome) : List Skb :=
  match l.act, l.out.fate with
  | .rx skb _, some .processed => l.out.frames ++ [skb]
  | _, _ => l.out.frames

end Iwlwifi.Ieee80211.Reorder
