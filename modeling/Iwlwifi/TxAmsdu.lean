import Iwlwifi.Amsdu
import Iwlwifi.Transition

/-! # Software A-MSDU aggregation

A model of the fast transmit path of `net/mac80211/tx.c`, which merges frames of a flow into the
frame at the end of its queue (`ieee80211_amsdu_aggregate`), against the receiver's
`ieee80211_amsdu_to_8023s` (`Iwlwifi.Amsdu`).

* **Headers** (`FastTx`).  The 802.11 header is a template; only the addresses and the TID are
  filled in (`encapsulate`).
* **Merging** (`amsduAggregate`).  The first frame of an A-MSDU gets its subframe header when a
  second one comes (`prepareHead`); every further frame brings the padding of the one before.
* **The queue** (`step`).  A frame is merged into the last one or becomes the last one itself.

`tx_amsdu_roundtrip` is the result.  There are two exceptions (`tunnelled_frames_differ`): AppleTalk
ARP and IPX frames, which belong into a bridge-tunnel header and not into the RFC 1042 header of the
template, and an A-MSDU whose first destination address looks like such a header. -/

namespace Iwlwifi.Ieee80211.TxAmsdu

open Bytes Cfg80211.Amsdu List

/-! ### Frames -/

@[ext] structure Frame where
  da : List UInt8
  sa : List UInt8
  proto : List UInt8
  payload : List UInt8
  length_da : da.length = 6
  length_sa : sa.length = 6
  length_proto : proto.length = 2

instance : DecidableEq Frame := fun _ _ => decidable_of_iff' _ Frame.ext_iff

namespace Frame

def bytes (f : Frame) : List UInt8 := f.da ++ f.sa ++ f.proto ++ f.payload

def ethertype (f : Frame) : ℕ := be16 f.proto 0

end Frame

/-- A frame to be sent, with the number of its page fragments. -/
structure Skb where
  frame : Frame
  nrFrags : ℕ
  gso : Bool
deriving DecidableEq

def Skb.len (skb : Skb) : ℕ := skb.frame.bytes.length

/-- The cases of `ieee80211_check_fast_xmit`. -/
inductive Mode
  | adhoc
  | tdls
  | station4addr
  | station
  | vlan4addr
  | ap
deriving DecidableEq

namespace Mode

def fourAddr : Mode → Bool
  | station4addr | vlan4addr => true
  | adhoc | tdls | station | ap => false

def daOffs : Mode → ℕ
  | adhoc | tdls | ap => 4
  | station | station4addr | vlan4addr => 16

def saOffs : Mode → ℕ
  | adhoc | tdls | station => 10
  | ap => 16
  | station4addr | vlan4addr => 24

/-- `IEEE80211_FCTL_FROMDS` and `IEEE80211_FCTL_TODS`. -/
def ds : Mode → ℕ
  | adhoc | tdls => 0
  | station => 0x0100
  | ap => 0x0200
  | station4addr | vlan4addr => 0x0300

def hasBssid : Mode → Bool
  | adhoc => false
  | tdls | station | station4addr | vlan4addr | ap => true

end Mode

/-- `struct ieee80211_fast_tx` for a QoS station: the 802.11 header with the QoS control field and
the space for an IV.  An RFC 1042 header follows it. -/
structure FastTx where
  mode : Mode
  isProtected : Bool
  ivLen : ℕ
  hdr : List UInt8
  length_hdr : hdr.length = (if mode.fourAddr then 30 else 24) + 2 + ivLen
  frameControl_hdr : frameControl hdr = 0x0088 + mode.ds + if isProtected then 0x4000 else 0

/-- `fast_tx->hdr_len`. -/
def FastTx.hdrLen (fastTx : FastTx) : ℕ := fastTx.hdr.length + 6

/-- What the device, the station and the driver say at the time of a call. -/
structure Env where
  controlPortProtocol : ℕ
  requestsWifiStatus : Bool
  /-- Whether the aggregation session of the TID, if there is one, is operational. -/
  tidTx : Option Bool
  tid : UInt8
  bssid : List UInt8
  length_bssid : bssid.length = 6
  txAmsdu : Bool
  offloadEncap : Bool
  noAmsdu : Bool
  maxAmsduLen : UInt16
  maxRcAmsduLen : UInt16
  maxTidAmsduLen : UInt16
  maxSubframes : UInt8
  maxFrags : UInt8
  canAggregate : Bool
  /-- Whether the buffers of the queued frame and of the new one can be enlarged. -/
  allocHead : Bool
  allocSkb : Bool

/-- The effective `max_amsdu_len`. -/
def Env.maxLen (env : Env) : ℕ :=
  let maxLen := env.maxAmsduLen.toNat
  let maxLen := if env.maxRcAmsduLen ≠ 0 then min maxLen env.maxRcAmsduLen.toNat else maxLen
  if env.maxTidAmsduLen ≠ 0 then min maxLen env.maxTidAmsduLen.toNat else maxLen

/-! ### Merging -/

/-- A queued frame: its bytes, the frames on its fragment list, and what its control block says. -/
structure Head where
  data : List UInt8
  nrFrags : ℕ
  gso : Bool
  fragList : List (List UInt8 × ℕ)
  rateCtrlProbe : Bool
  amsdu : Bool
deriving DecidableEq

def Head.frags (head : Head) : List UInt8 := (head.fragList.map Prod.fst).flatten

def Head.len (head : Head) : ℕ := head.data.length + head.frags.length

/-- The frame as `__ieee80211_xmit_fast` puts it on the queue. -/
def encapsulate (fastTx : FastTx) (tid : UInt8) (skb : Skb) : Head :=
  let data := fastTx.hdr ++ rfc1042Header ++ skb.frame.bytes.drop 12
  let data := setField data fastTx.mode.daOffs skb.frame.da
  let data := setField data fastTx.mode.saOffs skb.frame.sa
  let data := setField data (qosCtlOffs (frameControl data)) [tid]
  { data
    nrFrags := skb.nrFrags
    gso := skb.gso
    fragList := []
    rateCtrlProbe := false
    amsdu := false }

/-- The header of an A-MSDU: the outer addresses become the BSSID, depending on the direction. -/
def amsduHeader (mode : Mode) (bssid hdr : List UInt8) : List UInt8 :=
  let fc := frameControl hdr
  let hdr := if mode.hasBssid && hasFromds fc then setField hdr mode.saOffs bssid else hdr
  let hdr := if mode.hasBssid && hasTods fc then setField hdr mode.daOffs bssid else hdr
  setField hdr (qosCtlOffs fc) [hdr.getD (qosCtlOffs fc) 0 ||| 0x80]

/-- `ieee80211_amsdu_prepare_head`. -/
def prepareHead (fastTx : FastTx) (env : Env) (head : Head) : Option Head :=
  let hdrLen := fastTx.hdrLen - 6
  let subframeLen := head.len - hdrLen
  if head.rateCtrlProbe then none
  else if head.amsdu then some head
  else if !env.allocHead then none
  else
    let hdr := head.data.take hdrLen
    let amsduHdr := field hdr fastTx.mode.daOffs 6 ++ field hdr fastTx.mode.saOffs 6 ++
      putBe16 subframeLen
    some { head with
      data := amsduHeader fastTx.mode env.bssid hdr ++ amsduHdr ++ head.data.drop hdrLen
      amsdu := true }

/-- The end of `ieee80211_amsdu_aggregate`: the new frame behind the padding of what is there. -/
def pushSubframe (fastTx : FastTx) (head : Head) (skb : Skb) : Head :=
  let rest := (head.len - (fastTx.hdrLen - 6)) % 4
  let pad := if rest ≠ 0 then 4 - rest else 0
  let data := skb.frame.da ++ skb.frame.sa ++ putBe16 (skb.len - 6) ++ rfc1042Header ++
    skb.frame.bytes.drop 12
  { head with fragList := head.fragList ++ [(List.replicate pad 0 ++ data, skb.nrFrags)] }

/-- `ieee80211_amsdu_aggregate`: the last frame of the queue, and whether the new frame was merged
into it. -/
def amsduAggregate (fastTx : FastTx) (env : Env) (head : Head) (skb : Skb) : Head × Bool :=
  if !env.txAmsdu || env.offloadEncap || skb.gso || env.noAmsdu || head.gso then (head, false)
  else if skb.len + head.len > env.maxLen then (head, false)
  else
    let nfrags := 1 + skb.nrFrags + (1 + head.nrFrags) +
      (head.fragList.map fun s => 1 + s.2).sum
    let n := 2 + head.fragList.length
    if env.maxSubframes ≠ 0 ∧ n > env.maxSubframes.toNat then (head, false)
    else if env.maxFrags ≠ 0 ∧ nfrags > env.maxFrags.toNat then (head, false)
    else if !env.canAggregate then (head, false)
    else
      match prepareHead fastTx env head with
      | none => (head, false)
      | some head =>
        if !env.allocSkb then (head, false)
        else (pushSubframe fastTx head skb, true)

/-- Whether `ieee80211_xmit_fast` takes a frame. -/
def xmitFastTakes (env : Env) (f : Frame) : Bool :=
  f.ethertype ≠ env.controlPortProtocol && f.ethertype ≥ 1536 && !env.requestsWifiStatus &&
    env.tidTx != some false

/-! ### The queue -/

/-- A queued frame with the Ethernet frames that were put into it. -/
structure Entry where
  head : Head
  frames : List Frame
deriving DecidableEq

/-- The queue of a flow; the last frame stands apart. -/
structure Queue where
  older : List Entry
  tail : Option Entry
deriving DecidableEq

inductive Act
  | xmit (skb : Skb) (env : Env)
  | dequeue

def step (fastTx : FastTx) (q : Queue) : Act → Option (Bool × Queue)
  | .xmit skb env =>
    if xmitFastTakes env skb.frame then
      let new := some ⟨encapsulate fastTx env.tid skb, [skb.frame]⟩
      match q.tail with
      | none => some (false, { q with tail := new })
      | some e =>
        match amsduAggregate fastTx env e.head skb with
        | (head, true) => some (true, { q with tail := some ⟨head, e.frames ++ [skb.frame]⟩ })
        | (head, false) => some (false, ⟨q.older ++ [⟨head, e.frames⟩], new⟩)
    else none
  | .dequeue =>
    match q.older, q.tail with
    | _ :: older, tail => some (false, ⟨older, tail⟩)
    | [], some _ => some (false, ⟨[], none⟩)
    | [], none => none

def amsduBody (fastTx : FastTx) (head : Head) : List UInt8 :=
  head.data.drop fastTx.hdr.length ++ head.frags

/-! ### Headers -/

section headers
variable (fastTx : FastTx)

theorem Mode.offs (mode : Mode) :
    (2 ≤ mode.daOffs ∧ mode.daOffs + 6 ≤ if mode.fourAddr then 30 else 24) ∧
      (2 ≤ mode.saOffs ∧ mode.saOffs + 6 ≤ if mode.fourAddr then 30 else 24) ∧
      (mode.daOffs + 6 ≤ mode.saOffs ∨ mode.saOffs + 6 ≤ mode.daOffs) := by
  cases mode <;> decide

theorem FastTx.qosCtlOffs_eq :
    qosCtlOffs (frameControl fastTx.hdr) = if fastTx.mode.fourAddr then 30 else 24 := by
  rw [fastTx.frameControl_hdr]
  cases fastTx.mode <;> cases fastTx.isProtected <;> decide

theorem FastTx.le_length : 26 ≤ fastTx.hdr.length := by
  rw [fastTx.length_hdr]
  split <;> omega

end headers

namespace Frame

def msdu (f : Frame) : List UInt8 := rfc1042Header ++ (f.proto ++ f.payload)

variable (f : Frame)

theorem length_bytes : f.bytes.length = 14 + f.payload.length := by
  simp only [bytes, length_append, f.length_da, f.length_sa, f.length_proto]

theorem length_msdu : f.msdu.length = 8 + f.payload.length := by
  simp only [msdu, length_append, f.length_proto, rfc1042Header, length_cons, length_nil]
  omega

theorem drop_bytes : f.bytes.drop 12 = f.proto ++ f.payload := by
  rw [bytes, append_assoc]
  exact drop_left' (by rw [length_append, f.length_da, f.length_sa])

def subframe (h : f.bytes.length < 65536) : Subframe where
  da := f.da
  sa := f.sa
  msdu := f.msdu
  length_da := f.length_da
  length_sa := f.length_sa
  short := by
    rw [length_bytes] at h
    rw [length_msdu]
    omega

end Frame

/-- The header of a frame on the queue, with the addresses filled in. -/
structure Filled (fastTx : FastTx) (f : Frame) (hdr : List UInt8) : Prop where
  length : hdr.length = fastTx.hdr.length
  frameControl : frameControl hdr = frameControl fastTx.hdr
  da : field hdr fastTx.mode.daOffs 6 = f.da
  sa : field hdr fastTx.mode.saOffs 6 = f.sa

theorem encapsulate_data (fastTx : FastTx) (tid : UInt8) (skb : Skb) :
    ∃ hdr, (encapsulate fastTx tid skb).data = hdr ++ skb.frame.msdu ∧
      Filled fastTx skb.frame hdr := by
  obtain ⟨⟨hda2, hda⟩, ⟨hsa2, hsa⟩, hdisj⟩ := fastTx.mode.offs
  have hlen := fastTx.length_hdr
  have hqos := fastTx.qosCtlOffs_eq
  have hfda := skb.frame.length_da
  have hfsa := skb.frame.length_sa
  -- the three fields lie in the header
  obtain ⟨hdr₁, h₁⟩ : ∃ hdr, setField fastTx.hdr fastTx.mode.daOffs skb.frame.da = hdr := ⟨_, rfl⟩
  obtain ⟨hdr₂, h₂⟩ : ∃ hdr, setField hdr₁ fastTx.mode.saOffs skb.frame.sa = hdr := ⟨_, rfl⟩
  have hl₁ : hdr₁.length = fastTx.hdr.length := by
    rw [← h₁, length_setField (by omega)]
  have hl₂ : hdr₂.length = fastTx.hdr.length := by
    rw [← h₂, length_setField (by omega), hl₁]
  have hfc : Ieee80211.frameControl hdr₂ = Ieee80211.frameControl fastTx.hdr := by
    rw [← h₂, frameControl_setField (Or.inl hsa2) (by omega), ← h₁,
      frameControl_setField (Or.inl hda2) (by omega)]
  have hfit : qosCtlOffs (Ieee80211.frameControl fastTx.hdr) + [tid].length ≤ hdr₂.length := by
    rw [length_singleton]
    omega
  refine ⟨setField hdr₂ (qosCtlOffs (Ieee80211.frameControl fastTx.hdr)) [tid], ?_, ?_, ?_, ?_, ?_⟩
  · simp only [encapsulate, Frame.drop_bytes, append_assoc]
    rw [setField_append (by omega), h₁, setField_append (by omega), h₂,
      frameControl_append (by omega), hfc, setField_append hfit, Frame.msdu]
  · rw [length_setField hfit, hl₂]
  · rw [frameControl_setField (by omega) (by omega), hfc]
  · rw [field_setField_of_disjoint (by omega) (by omega), ← h₂,
      field_setField_of_disjoint (by omega) (by omega), ← h₁, ← hfda, field_setField (by omega)]
  · rw [field_setField_of_disjoint (by omega) (by omega), ← h₂, ← hfsa, field_setField (by omega)]

theorem length_amsduHeader {fastTx : FastTx} {f : Frame} {hdr bssid : List UInt8}
    (h : Filled fastTx f hdr) (hbssid : bssid.length = 6) :
    (amsduHeader fastTx.mode bssid hdr).length = fastTx.hdr.length := by
  obtain ⟨⟨-, hda⟩, ⟨-, hsa⟩, -⟩ := fastTx.mode.offs
  have hlen := fastTx.length_hdr
  have hqos := fastTx.qosCtlOffs_eq
  have hl := h.length
  have hset : ∀ {l : List UInt8} (b : Bool) (off : ℕ), l.length = fastTx.hdr.length →
      off + 6 ≤ fastTx.hdr.length →
      (if b then setField l off bssid else l).length = fastTx.hdr.length := by
    intro l b off hl hoff
    cases b with
    | false => exact hl
    | true => exact (length_setField (by omega)).trans hl
  have h₁ := hset (fastTx.mode.hasBssid && hasFromds (Ieee80211.frameControl hdr))
    fastTx.mode.saOffs hl (by omega)
  have h₂ := hset (fastTx.mode.hasBssid && hasTods (Ieee80211.frameControl hdr))
    fastTx.mode.daOffs h₁ (by omega)
  rw [amsduHeader, length_setField ?_, h₂]
  rw [h₂, h.frameControl, length_singleton]
  omega

/-! ### Queued frames -/

section queued
variable {fastTx : FastTx} {env : Env} {e : Entry} {skb : Skb} {head : Head}

structure Single (fastTx : FastTx) (e : Entry) : Prop where
  amsdu : e.head.amsdu = false
  fragList : e.head.fragList = []
  content : ∃ f hdr, e.frames = [f] ∧ e.head.data = hdr ++ f.msdu ∧ Filled fastTx f hdr

/-- Some frames put together: the subframes have their addresses and MSDUs. -/
structure Aggregated (fastTx : FastTx) (e : Entry) : Prop where
  amsdu : e.head.amsdu = true
  le_length : fastTx.hdr.length ≤ e.head.data.length
  content : ∃ subs : List Subframe, subs ≠ [] ∧ amsduBody fastTx e.head = body subs ∧
    subs.map (fun s => (s.da, s.sa, s.msdu)) = e.frames.map fun f => (f.da, f.sa, f.msdu)

theorem single_encapsulate (tid : UInt8) (skb : Skb) :
    Single fastTx ⟨encapsulate fastTx tid skb, [skb.frame]⟩ := by
  obtain ⟨hdr, hdata, hfilled⟩ := encapsulate_data fastTx tid skb
  exact ⟨rfl, rfl, skb.frame, hdr, rfl, hdata, hfilled⟩

theorem Aggregated.len (h : Aggregated fastTx e) :
    e.head.len = fastTx.hdr.length + (amsduBody fastTx e.head).length := by
  have hle := h.le_length
  rw [Head.len, amsduBody, length_append, length_drop]
  omega

theorem FastTx.hdrLen_sub (fastTx : FastTx) : fastTx.hdrLen - 6 = fastTx.hdr.length := rfl

theorem prepareHead_single (h : Single fastTx e) (hlen : e.head.len < 65536)
    (hp : prepareHead fastTx env e.head = some head) :
    Aggregated fastTx ⟨head, e.frames⟩ ∧
      (amsduBody fastTx head).length + fastTx.hdr.length = e.head.len + 14 := by
  obtain ⟨f, hdr, hframes, hdata, hfilled⟩ := h.content
  have hlength : e.head.len = fastTx.hdr.length + f.msdu.length := by
    rw [Head.len, Head.frags, h.fragList, hdata, length_append, hfilled.length]
    rfl
  have htake : e.head.data.take fastTx.hdr.length = hdr := by
    rw [hdata]
    exact take_left' hfilled.length
  have hdrop : e.head.data.drop fastTx.hdr.length = f.msdu := by
    rw [hdata]
    exact drop_left' hfilled.length
  have h26 := fastTx.le_length
  have hshort : f.bytes.length < 65536 := by
    rw [f.length_msdu] at hlength
    rw [f.length_bytes]
    omega
  have hbytes : (f.subframe hshort).bytes = f.da ++ f.sa ++ putBe16 f.msdu.length ++ f.msdu := rfl
  simp only [prepareHead, h.amsdu, FastTx.hdrLen_sub, htake, hdrop, hfilled.da, hfilled.sa, hlength,
    Nat.add_sub_cancel_left, Bool.false_eq_true, if_false] at hp
  split at hp
  · cases hp
  split at hp
  · cases hp
  cases hp
  have hhdr := length_amsduHeader hfilled env.length_bssid
  have hbody : amsduBody fastTx { e.head with
      data := amsduHeader fastTx.mode env.bssid hdr ++
        (f.da ++ f.sa ++ putBe16 f.msdu.length) ++ f.msdu
      amsdu := true } = (f.subframe hshort).bytes := by
    rw [amsduBody, Head.frags, h.fragList, hbytes]
    simp only [append_assoc, map_nil, flatten_nil, append_nil]
    exact drop_left' hhdr
  refine ⟨⟨rfl, ?_, [f.subframe hshort], cons_ne_nil _ _, hbody, ?_⟩, ?_⟩
  · simp only [length_append, hhdr]
    omega
  · rw [hframes]
    rfl
  · rw [hbody, Subframe.length_bytes, hlength]
    show 14 + f.msdu.length + _ = _
    omega

def Valid (fastTx : FastTx) (e : Entry) : Prop := Single fastTx e ∨ Aggregated fastTx e

theorem prepareHead_valid (h : Valid fastTx e) (hlen : e.head.len < 65536)
    (hp : prepareHead fastTx env e.head = some head) :
    Aggregated fastTx ⟨head, e.frames⟩ ∧
      (amsduBody fastTx head).length + fastTx.hdr.length ≤ e.head.len + 14 := by
  rcases h with h | h
  · obtain ⟨hagg, heq⟩ := prepareHead_single h hlen hp
    exact ⟨hagg, heq.le⟩
  simp only [prepareHead, h.amsdu, if_true] at hp
  split at hp <;> cases hp
  have hl := h.len
  exact ⟨h, by omega⟩

theorem pad_eq (n : ℕ) : (if n % 4 ≠ 0 then 4 - n % 4 else 0) = Aligned.padding 4 n := by
  rw [Aligned.padding]
  split <;> omega

theorem amsduBody_pushSubframe (h : Aggregated fastTx e) (hlen : skb.len < 65536) :
    amsduBody fastTx (pushSubframe fastTx e.head skb) = amsduBody fastTx e.head ++
      List.replicate (Aligned.padding 4 (amsduBody fastTx e.head).length) 0 ++
        (skb.frame.subframe hlen).bytes := by
  have hover : e.head.len - (fastTx.hdrLen - 6) = (amsduBody fastTx e.head).length := by
    rw [FastTx.hdrLen_sub, h.len, Nat.add_sub_cancel_left]
  have hsub : (skb.frame.subframe hlen).bytes = skb.frame.da ++ skb.frame.sa ++
      putBe16 (skb.len - 6) ++ rfc1042Header ++ skb.frame.bytes.drop 12 := by
    have hmsdu : skb.len - 6 = skb.frame.msdu.length := by
      rw [Skb.len, Frame.length_bytes, Frame.length_msdu]
      omega
    rw [hmsdu, Frame.drop_bytes, append_assoc _ rfc1042Header]
    rfl
  rw [hsub]
  simp only [pushSubframe, hover, pad_eq]
  simp [amsduBody, Head.frags]

theorem aggregated_pushSubframe (h : Aggregated fastTx e) (hlen : skb.len < 65536) :
    Aggregated fastTx ⟨pushSubframe fastTx e.head skb, e.frames ++ [skb.frame]⟩ := by
  obtain ⟨subs, hne, hbody, hkeys⟩ := h.content
  refine ⟨h.amsdu, h.le_length, subs ++ [skb.frame.subframe hlen], by simp, ?_, ?_⟩
  · rw [amsduBody_pushSubframe h hlen, hbody, body, body, map_append]
    exact (Aligned.concat_append_singleton 4 0 (by omega) (by simpa using hne) _).symm
  · simp only [map_append, hkeys]
    rfl

theorem Env.maxLen_lt (env : Env) : env.maxLen < 65536 := by
  have h := env.maxAmsduLen.toNat_lt
  simp only [Env.maxLen]
  split <;> split <;> omega

/-- **Merging**: the queued frame stays valid, and a merge keeps the body below the limit.  The
802.11 header of at least 26 bytes makes up for two subframe headers' worth of 14 and 8 bytes and 3
bytes of padding. -/
theorem amsduAggregate_spec (h : Valid fastTx e) {merged : Bool}
    (ha : amsduAggregate fastTx env e.head skb = (head, merged)) :
    if merged then Aggregated fastTx ⟨head, e.frames ++ [skb.frame]⟩ ∧
      (amsduBody fastTx head).length ≤ env.maxLen
    else Valid fastTx ⟨head, e.frames⟩ := by
  unfold amsduAggregate at ha
  split at ha
  · cases ha
    exact h
  split at ha
  · cases ha
    exact h
  simp only at ha
  split at ha
  · cases ha
    exact h
  split at ha
  · cases ha
    exact h
  split at ha
  · cases ha
    exact h
  split at ha
  · cases ha
    exact h
  rename_i head₁ hprep
  have hmax := env.maxLen_lt
  obtain ⟨hagg, hbody⟩ := prepareHead_valid h (by omega) hprep
  split at ha
  · cases ha
    exact Or.inr hagg
  cases ha
  have hskb : skb.len < 65536 := by omega
  refine ⟨aggregated_pushSubframe hagg hskb, ?_⟩
  have h26 := fastTx.le_length
  have hpad := Aligned.padding_lt (k := 4) (by omega) (amsduBody fastTx head₁).length
  have hsub : (skb.frame.subframe hskb).bytes.length = skb.len + 8 := by
    rw [Subframe.length_bytes, Skb.len, Frame.length_bytes]
    show 14 + skb.frame.msdu.length = _
    rw [Frame.length_msdu]
    omega
  rw [amsduBody_pushSubframe hagg hskb, length_append, length_append, length_replicate, hsub]
  dsimp only
  omega

end queued

/-! ### The receiver -/

section receiver
variable {cfg : Config} (hcfg : Plain cfg)
include hcfg

theorem finish_msdu {f : Frame} (hproto : f.proto ≠ ethPAarp ∧ f.proto ≠ ethPIpx)
    (hProto : List UInt8) : finish cfg ⟨f.da, f.sa, hProto⟩ f.msdu = f.bytes := by
  have htake : f.msdu.take ethAlen = rfc1042Header := take_left' rfl
  have hdrop : f.msdu.drop ethAlen = f.proto ++ f.payload := drop_left' rfl
  have htype : (f.msdu.drop ethAlen).take 2 = f.proto := by
    exact take_left' f.length_proto
  have hrest : f.msdu.drop (ethAlen + 2) = f.payload := by
    exact drop_left' f.length_proto
  have htunnel : get8023TunnelProto f.msdu = some f.proto := by
    simp [get8023TunnelProto, htake, htype, hproto]
  rw [finish, hcfg.mesh, if_neg Bool.false_ne_true, htunnel]
  dsimp only
  rw [hrest, EthHdr.bytes, Frame.bytes]

theorem Aggregated.roundtrip {fastTx : FastTx} {e : Entry} (h : Aggregated fastTx e)
    (hproto : ∀ f ∈ e.frames, f.proto ≠ ethPAarp ∧ f.proto ≠ ethPIpx)
    (hfirst : ∀ f ∈ e.frames.head?, f.da ≠ rfc1042Header) :
    amsduTo8023s cfg (amsduBody fastTx e.head) = e.frames.map Frame.bytes := by
  obtain ⟨subs, hne, hbody, hkeys⟩ := h.content
  have hattack : ∀ s ∈ subs.head?, s.da ≠ rfc1042Header := by
    intro s hs
    have hhead : (e.frames.head?.map fun f => (f.da, f.sa, f.msdu)) = some (s.da, s.sa, s.msdu) := by
      rw [← List.head?_map, ← hkeys, List.head?_map, hs]
      rfl
    obtain ⟨f, hf, heq⟩ := Option.map_eq_some_iff.mp hhead
    have hda : f.da = s.da := congrArg Prod.fst heq
    rw [← hda]
    exact hfirst f hf
  -- a frame depends on the addresses and the MSDU only
  have hfinish : (subs.map fun s => finish cfg s.eth s.msdu) =
      (subs.map fun s => (s.da, s.sa, s.msdu)).map
        fun k => finish cfg ⟨k.1, k.2.1, putBe16 k.2.2.length⟩ k.2.2 := by
    rw [map_map]
    rfl
  rw [hbody, amsduTo8023s_body hcfg hne hattack, hfinish, hkeys, map_map]
  apply map_congr_left
  intro f hf
  exact finish_msdu hcfg (hproto f hf) _

end receiver

/-! ### Whole runs -/

def Queue.entries (q : Queue) : List Entry := q.older ++ q.tail.toList

section runs
variable {fastTx : FastTx} {q q' : Queue}

theorem valid_step (act : Act) {merged : Bool} (h : step fastTx q act = some (merged, q'))
    (hq : ∀ e ∈ q.entries, Valid fastTx e) :
    (∀ e ∈ q'.entries, Valid fastTx e) ∧
      (merged = true → ∀ skb env, act = .xmit skb env → ∀ e ∈ q'.tail,
        (amsduBody fastTx e.head).length ≤ env.maxLen) := by
  cases act with
  | xmit skb env =>
    rw [step] at h
    split at h
    · have hnew : Valid fastTx ⟨encapsulate fastTx env.tid skb, [skb.frame]⟩ :=
        Or.inl (single_encapsulate env.tid skb)
      have holder : ∀ e ∈ q.older, Valid fastTx e := fun e he =>
        hq e (mem_append_left _ he)
      split at h
      · cases h
        exact ⟨forall_mem_append.mpr ⟨holder, forall_mem_singleton.mpr hnew⟩, nofun⟩
      next e₀ htail =>
        have he₀ : Valid fastTx e₀ := hq e₀ (by simp [Queue.entries, htail])
        split at h <;> cases h
        next head ha =>
          obtain ⟨hagg, hlen⟩ := amsduAggregate_spec he₀ ha
          constructor
          · refine forall_mem_append.mpr ?_
            exact ⟨holder, forall_mem_singleton.mpr (Or.inr hagg)⟩
          · intro _ skb' env' hact e he
            cases hact
            cases he
            exact hlen
        next head ha =>
          refine ⟨?_, nofun⟩
          have hold : Valid fastTx ⟨head, e₀.frames⟩ := amsduAggregate_spec he₀ ha
          intro e he
          simp only [Queue.entries, mem_append, mem_singleton, Option.toList_some] at he
          rcases he with (he | rfl) | rfl
          · exact holder e he
          · exact hold
          · exact hnew
    · cases h
  | dequeue =>
    rw [step] at h
    split at h
    next e₀ older hold =>
      cases h
      refine ⟨fun e he => hq e ?_, nofun⟩
      rw [Queue.entries, hold]
      exact .tail _ he
    · cases h
      exact ⟨by simp [Queue.entries], nofun⟩
    · cases h

/-- **Aggregation is undone by de-aggregation**, and a merge keeps the body within the effective
limit; but the frames must not be AppleTalk ARP or IPX, and the first destination address not look
like an RFC 1042 header. -/
theorem tx_amsdu_roundtrip (fastTx : FastTx) {ls : List (Label Queue Act Bool)} {q : Queue}
    (hrun : Run (step fastTx) ⟨[], none⟩ ls q) :
    ∀ l ∈ ls,
      (∀ e ∈ l.post.entries, e.head.amsdu = true →
        (∀ f ∈ e.frames, f.proto ≠ ethPAarp ∧ f.proto ≠ ethPIpx) →
        (∀ f ∈ e.frames.head?, f.da ≠ rfc1042Header) →
        ∀ cfg, Plain cfg →
          amsduTo8023s cfg (amsduBody fastTx e.head) = e.frames.map Frame.bytes) ∧
      (l.out = true → ∀ skb env, l.act = .xmit skb env → ∀ e ∈ l.post.tail,
        (amsduBody fastTx e.head).length ≤ env.maxLen) := by
  have hinit : ∀ e ∈ (⟨[], none⟩ : Queue).entries, Valid fastTx e := by simp [Queue.entries]
  have hkeep : ∀ q a b q', step fastTx q a = some (b, q') → True →
      (∀ e ∈ q.entries, Valid fastTx e) → ∀ e ∈ q'.entries, Valid fastTx e :=
    fun _ a _ _ hs _ hq => (valid_step a hs hq).1
  obtain ⟨-, hall⟩ := hrun.induct hkeep (fun _ _ => trivial) hinit
  intro l hl
  obtain ⟨hstep, hpre, hpost⟩ := hall l hl
  refine ⟨?_, (valid_step l.act hstep hpre).2⟩
  intro e he hamsdu hproto hfirst cfg hcfg
  rcases hpost e he with h | h
  · rw [h.amsdu] at hamsdu
    cases hamsdu
  · exact h.roundtrip hcfg hproto hfirst

end runs

/-! #### A station and its frames -/

/-- The header of a station that sends to its access point, with the space for an IV. -/
def stationTx : FastTx where
  mode := .station
  isProtected := true
  ivLen := 8
  hdr := putLe16 0x4188 ++ List.replicate 32 0
  length_hdr := rfl
  frameControl_hdr := by decide

def amsduEnv : Env where
  controlPortProtocol := 0x888e
  requestsWifiStatus := false
  tidTx := some true
  tid := 0
  bssid := List.replicate 6 9
  length_bssid := rfl
  txAmsdu := true
  offloadEncap := false
  noAmsdu := false
  maxAmsduLen := 3839
  maxRcAmsduLen := 0
  maxTidAmsduLen := 2000
  maxSubframes := 4
  maxFrags := 0
  canAggregate := true
  allocHead := true
  allocSkb := true

def sample (da : List UInt8) (h : da.length = 6) (t₀ t₁ : UInt8) : Skb :=
  ⟨⟨da, List.replicate 6 2, [t₀, t₁], List.replicate 5 7, h, rfl, rfl⟩, 0, false⟩

def plainReceiver : Config := ⟨false, none, none, 0, false, false⟩

def threeActs : List Act :=
  List.replicate 3 (.xmit (sample (List.replicate 6 4) rfl 0x08 0x00) amsduEnv)

theorem tx_amsdu_roundtrip_three :
    ∃ res, execute (step stationTx) ⟨[], none⟩ threeActs = some res ∧
      ∃ e, res.2.entries = [e] ∧ e.frames.length = 3 ∧ e.head.amsdu = true ∧
        (amsduBody stationTx e.head).length = 83 ∧
        amsduTo8023s plainReceiver (amsduBody stationTx e.head) = e.frames.map Frame.bytes := by
  obtain ⟨res, hres, e, -, hentries, hlen, hamsdu, hbody, hproto, hfirst, l, hl, hpost⟩ :
      ∃ res, execute (step stationTx) ⟨[], none⟩ threeActs = some res ∧
      ∃ e ∈ res.2.tail, res.2.entries = [e] ∧ e.frames.length = 3 ∧ e.head.amsdu = true ∧
        (amsduBody stationTx e.head).length = 83 ∧
        (∀ f ∈ e.frames, f.proto ≠ ethPAarp ∧ f.proto ≠ ethPIpx) ∧
        (∀ f ∈ e.frames.head?, f.da ≠ rfc1042Header) ∧
        ∃ l ∈ res.1, l.post = res.2 := by decide +kernel
  refine ⟨res, hres, e, hentries, hlen, hamsdu, hbody, ?_⟩
  refine (tx_amsdu_roundtrip stationTx (execute_run hres).1 l hl).1 e ?_ hamsdu hproto hfirst
    plainReceiver ⟨rfl, rfl, rfl, rfl⟩
  rw [hpost, hentries]
  exact .head _

/-- An AppleTalk ARP frame is received with its LLC header in the payload, and an A-MSDU whose
first destination address looks like an RFC 1042 header is dropped. -/
theorem tunnelled_frames_differ :
    (∃ res, execute (step stationTx) ⟨[], none⟩
        [.xmit (sample (List.replicate 6 4) rfl 0x80 0xf3) amsduEnv,
          .xmit (sample (List.replicate 6 4) rfl 0x08 0x00) amsduEnv] = some res ∧
      ∃ e ∈ res.2.tail, e.frames.length = 2 ∧
        (amsduTo8023s plainReceiver (amsduBody stationTx e.head)).map List.length = [27, 19] ∧
        e.frames.map (fun f => f.bytes.length) = [19, 19]) ∧
    ∃ res, execute (step stationTx) ⟨[], none⟩
        [.xmit (sample rfc1042Header rfl 0x08 0x00) amsduEnv,
          .xmit (sample (List.replicate 6 4) rfl 0x08 0x00) amsduEnv] = some res ∧
      ∃ e ∈ res.2.tail, e.frames.length = 2 ∧
        amsduTo8023s plainReceiver (amsduBody stationTx e.head) = [] := by
  constructor
  · decide +kernel
  · decide +kernel

end Iwlwifi.Ieee80211.TxAmsdu
