import Iwlwifi.Transition

/-! # Frames buffered for sleeping stations

`net/mac80211` buffers frames for stations in power save, per station and access category
(`ps_tx_buf`), and group-addressed frames per AP and mesh interface (`bc_buf`), and counts them in
`local->total_ps_buffered` (`tx.c`, `sta_info.c`, `mesh_ps.c`, `mesh.c`, `cfg.c`, `iface.c`).

* **State** (`Local`).  The interfaces, the station list and the counter; stations and interfaces are
  named by their position.
* **Buffering** (`unicastPsBuf`, `multicastPsBuf`).  When the counter is at its limit,
  `purgeOldPsBuffers` drops a frame from each queue and counts again.
* **Release** (`expireBuffered`, `psGetFrames`, `mpsFrameDeliver`, `psDeliverWakeup`,
  `getBufferedBc`) and **removal** (`cleanupSingleSta`, `stopAp`, `leaveMesh`, `stopApVlan`).
* **Machine** (`psStep`).  One call at a time; what the rest of the stack does to the fields these
  functions only read is an action of the environment. -/

namespace Iwlwifi.Ieee80211.PsBuf

/-- `TOTAL_MAX_TX_BUFFER`. -/
def totalMaxTxBuffer : ℤ := 512

/-- `STA_MAX_TX_BUFFER`. -/
def staMaxTxBuffer : ℕ := 64

/-- `AP_MAX_BC_BUFFER`. -/
def apMaxBcBuffer : ℕ := 128

inductive Ac
  | vo | vi | be | bk
deriving DecidableEq

def Ac.all : List Ac := [.vo, .vi, .be, .bk]

/-- `ieee80211_ac_to_qos_mask`. -/
def Ac.qosMask : Ac → ℕ
  | .vo => 1
  | .vi => 2
  | .be => 8
  | .bk => 4

/-- `ieee80211_tids_for_ac`. -/
def Ac.tids : Ac → ℕ
  | .vo => 192
  | .vi => 48
  | .be => 9
  | .bk => 6

/-- A frame; `dev` is the interface of `skb->dev`. -/
structure Skb where
  id : ℕ
  dev : ℕ := 0
deriving DecidableEq

/-- `struct ps_data`. -/
structure PsData where
  bcBuf : List Skb := []
  numStaPs : ℤ := 0
  dtimCount : ℕ := 0
  dtimBcMc : Bool := false

/-- The type of an interface; `bss` is the AP that a VLAN belongs to. -/
inductive IfType
  | ap
  | apVlan (bss : Option ℕ)
  | mesh
  | other
deriving DecidableEq

/-- `struct ieee80211_sub_if_data`. -/
structure Sdata where
  type : IfType
  ps : PsData := {}
  chanctx : Bool := false
  beacon : Bool := false

/-- The interface has a `ps_data` of its own. -/
def Sdata.hasPs (sdata : Sdata) : Bool := decide (sdata.type = .ap ∨ sdata.type = .mesh)

def Sdata.bcBuf (sdata : Sdata) : List Skb := if sdata.hasPs then sdata.ps.bcBuf else []

/-- `struct sta_info`: its interface, the flags `WLAN_STA_PS_*`, the queues, and what is buffered
elsewhere. -/
structure Sta where
  sdata : ℕ
  psSta : Bool := false
  psDriver : Bool := false
  psDeliver : Bool := false
  psTxBuf : Ac → List Skb := fun _ => []
  txFiltered : Ac → List Skb := fun _ => []
  driverBufferedTids : ℕ := 0
  txqBufferedTids : ℕ := 0
  uapsdQueues : ℕ := 0
  maxSp : ℕ := 0

def Sta.inPs (sta : Sta) : Bool := sta.psSta || sta.psDriver || sta.psDeliver

def Sta.held (sta : Sta) : ℕ := (Ac.all.map fun ac => (sta.psTxBuf ac).length).sum

/-- `struct ieee80211_local`. -/
structure Local where
  interfaces : List Sdata
  staList : List Sta
  totalPsBuffered : ℤ

def Local.held (s : Local) : ℕ :=
  (s.interfaces.map fun sdata => sdata.bcBuf.length).sum + (s.staList.map Sta.held).sum

def Local.typeOf (s : Local) (i : ℕ) : Option IfType := (s.interfaces.map Sdata.type)[i]?

/-- The interface whose `ps_data` is used for interface `i`. -/
def Local.psOf (s : Local) (i : ℕ) : Option ℕ :=
  match s.typeOf i with
  | some .ap | some .mesh => some i
  | some (.apVlan bss) => bss
  | some .other | none => none

def Local.ps (s : Local) (j : ℕ) : Option PsData :=
  match s.interfaces[j]? with
  | none => none
  | some sdata => if sdata.hasPs then some sdata.ps else none

def Local.setPs (s : Local) (j : ℕ) (f : PsData → PsData) : Local :=
  match s.interfaces[j]? with
  | none => s
  | some sdata =>
    if sdata.hasPs then
      { s with interfaces := s.interfaces.set j { sdata with ps := f sdata.ps } }
    else s

def Local.setSta (s : Local) (k : ℕ) (sta : Sta) : Local :=
  { s with staList := s.staList.set k sta }

def Local.addTotal (s : Local) (n : ℤ) : Local := { s with totalPsBuffered := s.totalPsBuffered + n }

def Sta.setPsTxBuf (sta : Sta) (ac : Ac) (q : List Skb) : Sta :=
  { sta with psTxBuf := Function.update sta.psTxBuf ac q }

def Sta.setTxFiltered (sta : Sta) (ac : Ac) (q : List Skb) : Sta :=
  { sta with txFiltered := Function.update sta.txFiltered ac q }

/-! ### The purge -/

/-- `ps->bc_buf` in `purge_old_ps_buffers`: the oldest frame is dropped. -/
def Sdata.purge (sdata : Sdata) : Sdata :=
  if sdata.hasPs then { sdata with ps := { sdata.ps with bcBuf := sdata.ps.bcBuf.tail } } else sdata

/-- The loop over the access categories in `purge_old_ps_buffers`; it ends when a frame was dropped.
-/
def purgeAcs : List Ac → Sta → Sta × ℕ
  | [], sta => (sta, 0)
  | ac :: acs, sta =>
    let q := sta.psTxBuf ac
    let sta := sta.setPsTxBuf ac q.tail
    if q.isEmpty then
      let r := purgeAcs acs sta
      (r.1, q.tail.length + r.2)
    else (sta, q.tail.length)

/-- From `IEEE80211_AC_BK` to `IEEE80211_AC_VO`. -/
def Sta.purge (sta : Sta) : Sta × ℕ := purgeAcs [.bk, .be, .vi, .vo] sta

/-- `purge_old_ps_buffers`. -/
def purgeOldPsBuffers (s : Local) : Local where
  interfaces := s.interfaces.map Sdata.purge
  staList := s.staList.map fun sta => sta.purge.1
  totalPsBuffered :=
    (((s.interfaces.map fun sdata => sdata.purge.bcBuf.length).sum +
      (s.staList.map fun sta => sta.purge.2).sum : ℕ) : ℤ)

def purgeIfFull (s : Local) : Local :=
  if totalMaxTxBuffer ≤ s.totalPsBuffered then purgeOldPsBuffers s else s

/-! ### Buffering -/

inductive TxResult
  | cont
  | queued
deriving DecidableEq

/-- A frame at the handler: what it tests of the header and of the flags. -/
structure TxFrame where
  skb : Skb
  psBuffered : Bool := false
  unicast : Bool := true
  order : Bool := false
  probeReq : Bool := false
  noPsBuffer : Bool := false
  mgmt : Bool := false
  bufferableMmpdu : Bool := false
  ac : Ac := .be

/-- The tests of `ieee80211_tx_h_multicast_ps_buf`: the interface on which the frame is to be
buffered.  `hostBuffering` is `HOST_BROADCAST_PS_BUFFERING`. -/
def bcBuffers (hostBuffering : Bool) (i : ℕ) (f : TxFrame) (s : Local) : Option ℕ :=
  match s.psOf i with
  | none => none
  | some j =>
    match s.ps j with
    | none => none
    | some ps =>
      if f.order || f.probeReq || (decide (ps.numStaPs = 0) && ps.bcBuf.isEmpty) ||
          !hostBuffering then none
      else some j

/-- The frame is put on `bc_buf`, in the place of the oldest one if there are too many. -/
def bufferBc (j : ℕ) (skb : Skb) (s : Local) : Local :=
  match s.ps j with
  | none => s
  | some ps =>
    if apMaxBcBuffer ≤ ps.bcBuf.length then
      s.setPs j fun ps => { ps with bcBuf := ps.bcBuf.tail ++ [skb] }
    else (s.setPs j fun ps => { ps with bcBuf := ps.bcBuf ++ [skb] }).addTotal 1

/-- `ieee80211_tx_h_multicast_ps_buf`. -/
def multicastPsBuf (hostBuffering : Bool) (i : ℕ) (f : TxFrame) (s : Local) : TxResult × Local :=
  match bcBuffers hostBuffering i f s with
  | none => (.cont, s)
  | some j => (.queued, bufferBc j f.skb (purgeIfFull s))

/-- The tests of `ieee80211_tx_h_unicast_ps_buf`: the frame is to be buffered. -/
def staBuffers (k : ℕ) (f : TxFrame) (s : Local) : Bool :=
  match s.staList[k]? with
  | none => false
  | some sta => sta.inPs && !f.noPsBuffer && !(f.mgmt && !f.bufferableMmpdu)

/-- The frame is put on `ps_tx_buf`, in the place of the oldest one if there are too many. -/
def bufferSta (k : ℕ) (ac : Ac) (skb : Skb) (s : Local) : Local :=
  match s.staList[k]? with
  | none => s
  | some sta =>
    if staMaxTxBuffer ≤ (sta.psTxBuf ac).length then
      s.setSta k (sta.setPsTxBuf ac ((sta.psTxBuf ac).tail ++ [skb]))
    else (s.setSta k (sta.setPsTxBuf ac (sta.psTxBuf ac ++ [skb]))).addTotal 1

/-- `ieee80211_tx_h_unicast_ps_buf`; `k` is none if the station is not known.  The flags of the
station are as before when they are read again under `ps_lock`. -/
def unicastPsBuf (k : Option ℕ) (f : TxFrame) (s : Local) : TxResult × Local :=
  match k with
  | none => (.cont, s)
  | some k =>
    if staBuffers k f s then (.queued, bufferSta k f.ac f.skb (purgeIfFull s)) else (.cont, s)

/-- `ieee80211_tx_h_ps_buf`, for a frame on interface `i` to station `k`. -/
def txPsBuf (hostBuffering : Bool) (i : ℕ) (k : Option ℕ) (f : TxFrame) (s : Local) :
    TxResult × Local :=
  if f.psBuffered then (.cont, s)
  else if f.unicast then unicastPsBuf k f s
  else multicastPsBuf hostBuffering i f s

/-! ### Release to a station -/

/-- A station whose frames are taken, with the counter and the frames taken. -/
structure Release where
  sta : Sta
  total : ℤ
  frames : List Skb := []
  nFrames : ℤ := 0

/-- The body of the loops that collect frames of an access category: filtered frames first. -/
def takeFrame (ac : Ac) (r : Release) : Release :=
  match r.sta.txFiltered ac with
  | skb :: q => { r with
      sta := r.sta.setTxFiltered ac q, frames := r.frames ++ [skb], nFrames := r.nFrames - 1 }
  | [] =>
    match r.sta.psTxBuf ac with
    | skb :: q => { r with
        sta := r.sta.setPsTxBuf ac q, total := r.total - 1, frames := r.frames ++ [skb],
        nFrames := r.nFrames - 1 }
    | [] => r

def Sta.buffers (sta : Sta) (ac : Ac) : Bool :=
  !(sta.txFiltered ac).isEmpty || !(sta.psTxBuf ac).isEmpty

/-- Frames of an access category are collected while `go` holds of the number that is wanted. -/
def collectFrames (go : ℤ → Bool) (ac : Ac) (r : Release) : Release :=
  whileLoop (fun r => go r.nFrames && r.sta.buffers ac) (takeFrame ac)
    ((r.sta.txFiltered ac).length + (r.sta.psTxBuf ac).length) r

/-- `ieee80211_sta_ps_get_frames`, from an access category on; `driverTids` is
`*driver_release_tids`. -/
def psGetFrames (ignoredAcs : ℕ) : List Ac → ℕ → Release → Release
  | [], _, r => r
  | ac :: acs, driverTids, r =>
    if ignoredAcs &&& ac.qosMask ≠ 0 then psGetFrames ignoredAcs acs driverTids r
    else
      let driverTids := if r.frames.isEmpty then
        driverTids ||| (r.sta.driverBufferedTids &&& ac.tids) |||
          (r.sta.txqBufferedTids &&& ac.tids) else driverTids
      let r := if driverTids = 0 then collectFrames (fun n => decide (0 < n)) ac r else r
      -- no frames of other categories before the rest of these
      if r.sta.buffers ac then r else psGetFrames ignoredAcs acs driverTids r

/-- The frames that `ieee80211_sta_ps_deliver_response` sends. -/
def psDeliverResponse (nFrames : ℤ) (ignoredAcs : ℕ) (k : ℕ) (s : Local) : Local :=
  match s.staList[k]? with
  | none => s
  | some sta =>
    let r := psGetFrames ignoredAcs Ac.all 0
      { sta := sta, total := s.totalPsBuffered, nFrames := nFrames }
    { s.setSta k r.sta with totalPsBuffered := r.total }

/-- `ieee80211_sta_ps_deliver_poll_response`. -/
def deliverPollResponse (k : ℕ) (s : Local) : Local :=
  match s.staList[k]? with
  | none => s
  | some sta => psDeliverResponse 1 (if sta.uapsdQueues = 15 then 0 else sta.uapsdQueues) k s

/-- `ieee80211_sta_ps_deliver_uapsd`. -/
def deliverUapsd (k : ℕ) (s : Local) : Local :=
  match s.staList[k]? with
  | none => s
  | some sta =>
    if sta.uapsdQueues = 0 then s
    else
      let nFrames : ℤ :=
        if sta.maxSp = 1 then 2 else if sta.maxSp = 2 then 4 else if sta.maxSp = 3 then 6
        else if sta.maxSp = 0 then 128 else sta.maxSp
      psDeliverResponse nFrames (255 - sta.uapsdQueues % 256) k s

/-- `mps_frame_deliver`; a negative number of frames means all. -/
def mpsFrameDeliver (nFrames : ℤ) (k : ℕ) (s : Local) : Local :=
  match s.staList[k]? with
  | none => s
  | some sta =>
    let r := Ac.all.foldl (fun r ac => collectFrames (fun n => decide (n ≠ 0)) ac r)
      { sta := sta, total := s.totalPsBuffered, nFrames := nFrames }
    { s.setSta k r.sta with totalPsBuffered := r.total }

/-- `sta_info_cleanup_expire_buffered_ac`. -/
def expireBufferedAc (expired : Skb → Bool) (r : Sta × ℤ) (ac : Ac) : Sta × ℤ :=
  let q := (r.1.psTxBuf ac).dropWhile expired
  ((r.1.setTxFiltered ac ((r.1.txFiltered ac).dropWhile expired)).setPsTxBuf ac q,
    r.2 - ((r.1.psTxBuf ac).length - q.length : ℤ))

/-- `sta_info_cleanup_expire_buffered`; `bss` is set on APs and their VLANs. -/
def expireBuffered (expired : Skb → Bool) (k : ℕ) (s : Local) : Local :=
  match s.staList[k]? with
  | none => s
  | some sta =>
    if (s.psOf sta.sdata).isSome then
      let r := Ac.all.foldl (expireBufferedAc expired) (sta, s.totalPsBuffered)
      { s.setSta k r.1 with totalPsBuffered := r.2 }
    else s

/-- `ieee80211_sta_ps_deliver_wakeup`. -/
def psDeliverWakeup (k : ℕ) (s : Local) : Local :=
  match s.staList[k]? with
  | none => s
  | some sta =>
    match s.psOf sta.sdata with
    | none => s
    | some j =>
      let sta' : Sta := { sta with
        psTxBuf := fun _ => [], txFiltered := fun _ => [], psDeliver := false,
        driverBufferedTids := 0, txqBufferedTids := 0 }
      ((s.setSta k sta').setPs j fun ps => { ps with numStaPs := ps.numStaPs - 1 }).addTotal
        (-sta.held)

/-! ### Group-addressed frames -/

/-- The loop of `ieee80211_get_buffered_bc`: frames are dropped until `ieee80211_tx_prepare` takes
one.  What is left, and how many were taken off. -/
def bcLoop (fails : Skb → Bool) : List Skb → List Skb × ℕ
  | [] => ([], 0)
  | skb :: q => if fails skb then ((bcLoop fails q).1, (bcLoop fails q).2 + 1) else (q, 1)

/-- `ieee80211_get_buffered_bc`. -/
def getBufferedBc (fails : Skb → Bool) (i : ℕ) (s : Local) : Local :=
  match s.interfaces[i]? with
  | none => s
  | some sdata =>
    if !sdata.chanctx || !sdata.hasPs || (decide (sdata.type = .ap) && !sdata.beacon) ||
        decide (sdata.ps.dtimCount ≠ 0) || !sdata.ps.dtimBcMc then s
    else
      (s.setPs i fun ps => { ps with bcBuf := (bcLoop fails ps.bcBuf).1 }).addTotal
        (-((bcLoop fails sdata.ps.bcBuf).2 : ℤ))

/-! ### Removal -/

/-- A station in power save on an interface that has no `ps_data`. -/
def Local.strays (s : Local) (sta : Sta) : Bool := sta.inPs && (s.psOf sta.sdata).isNone

/-- `__cleanup_single_sta`, for a station that is off the list.  It returns early for a station in
power save on an interface that is neither of an AP nor of a mesh. -/
def cleanupSingleSta (s : Local) (sta : Sta) : Local :=
  if s.strays sta then s
  else
    let s := if sta.inPs then
      match s.psOf sta.sdata with
      | none => s
      | some j => s.setPs j fun ps => { ps with numStaPs := ps.numStaPs - 1 }
      else s
    s.addTotal (-sta.held)

/-- The stations that `which` holds of are taken off the list and cleaned up. -/
def staInfoFlush (which : Sta → Bool) (s : Local) : Local :=
  (s.staList.filter which).foldl cleanupSingleSta
    { s with staList := s.staList.filter fun sta => !which sta }

/-- `__sta_info_destroy`. -/
def staInfoDestroy (k : ℕ) (s : Local) : Local :=
  match s.staList[k]? with
  | none => s
  | some sta => cleanupSingleSta { s with staList := s.staList.eraseIdx k } sta

def freeBc (i : ℕ) (s : Local) : Local :=
  match s.ps i with
  | none => s
  | some ps => (s.addTotal (-(ps.bcBuf.length : ℤ))).setPs i fun ps => { ps with bcBuf := [] }

/-- `ieee80211_stop_ap`: the stations of the AP and its VLANs on the link, and the group-addressed
frames. -/
def stopAp (onLink : Sta → Bool) (i : ℕ) (s : Local) : Local :=
  freeBc i (staInfoFlush (fun sta => decide (s.psOf sta.sdata = some i) && onLink sta) s)

/-- `ieee80211_stop_mesh`. -/
def leaveMesh (i : ℕ) (s : Local) : Local :=
  freeBc i (staInfoFlush (fun sta => decide (sta.sdata = i)) s)

/-- `ieee80211_do_stop` of a VLAN of AP `j`: its stations, and its frames in the buffer of the
AP. -/
def stopApVlan (i j : ℕ) (s : Local) : Local :=
  let s := staInfoFlush (fun sta => decide (sta.sdata = i)) s
  match s.ps j with
  | none => s
  | some ps =>
    (s.setPs j fun ps => { ps with bcBuf := ps.bcBuf.filter fun skb => skb.dev ≠ i }).addTotal
      (-((ps.bcBuf.countP fun skb => skb.dev = i) : ℤ))

/-! ### The calls as a machine -/

inductive Action
  | tx (i : ℕ) (k : Option ℕ) (f : TxFrame)
  | expire (expired : Skb → Bool) (k : ℕ)
  | pollResponse (k : ℕ)
  | uapsd (k : ℕ)
  | meshDeliver (nFrames : ℤ) (k : ℕ)
  | wakeup (k : ℕ)
  | getBc (fails : Skb → Bool) (i : ℕ)
  | destroy (k : ℕ)
  | stopAp (onLink : Sta → Bool) (i : ℕ)
  | leaveMesh (i : ℕ)
  | stopApVlan (i : ℕ)
  /-- a new station -/
  | addSta (sdata uapsdQueues maxSp : ℕ)
  /-- the flags of a station, and what the driver and the transmit queues hold for it -/
  | setStaFlags (k : ℕ) (psSta psDriver psDeliver : Bool) (driverTids txqTids : ℕ)
  /-- the driver gives back a frame (`ieee80211_handle_filtered_frame`) -/
  | filtered (k : ℕ) (ac : Ac) (skb : Skb)
  /-- the number of sleeping stations and the DTIM state of an interface -/
  | setPsData (i : ℕ) (numStaPs : ℤ) (dtimCount : ℕ) (dtimBcMc : Bool)
  /-- channel context and beacon of an interface -/
  | setIface (i : ℕ) (chanctx beacon : Bool)

/-- One call; the output is the result of the transmit handler. -/
def psStep (hostBuffering : Bool) (s : Local) : Action → Option (Option TxResult × Local)
  | .tx i k f => some (some (txPsBuf hostBuffering i k f s).1, (txPsBuf hostBuffering i k f s).2)
  | .expire expired k => some (none, expireBuffered expired k s)
  | .pollResponse k => some (none, deliverPollResponse k s)
  | .uapsd k => some (none, deliverUapsd k s)
  | .meshDeliver n k => some (none, mpsFrameDeliver n k s)
  | .wakeup k => some (none, psDeliverWakeup k s)
  | .getBc fails i => some (none, getBufferedBc fails i s)
  | .destroy k => some (none, staInfoDestroy k s)
  | .stopAp onLink i => if s.typeOf i = some .ap then some (none, stopAp onLink i s) else none
  | .leaveMesh i => if s.typeOf i = some .mesh then some (none, leaveMesh i s) else none
  | .stopApVlan i =>
    match s.typeOf i with
    | some (.apVlan (some j)) => some (none, stopApVlan i j s)
    | _ => none
  | .addSta sdata uapsdQueues maxSp => some (none, { s with
      staList := s.staList ++ [{ sdata := sdata, uapsdQueues := uapsdQueues, maxSp := maxSp }] })
  | .setStaFlags k psSta psDriver psDeliver driverTids txqTids =>
    some (none, { s with
      staList := s.staList.modify k fun sta => { sta with
        psSta := psSta, psDriver := psDriver, psDeliver := psDeliver,
        driverBufferedTids := driverTids, txqBufferedTids := txqTids } })
  | .filtered k ac skb => some (none, { s with
      staList := s.staList.modify k fun sta => sta.setTxFiltered ac (sta.txFiltered ac ++ [skb]) })
  | .setPsData i numStaPs dtimCount dtimBcMc => some (none, s.setPs i fun ps =>
    { ps with numStaPs := numStaPs, dtimCount := dtimCount, dtimBcMc := dtimBcMc })
  | .setIface i chanctx beacon => some (none, { s with
      interfaces := s.interfaces.modify i fun sdata =>
        { sdata with chanctx := chanctx, beacon := beacon } })

end Iwlwifi.Ieee80211.PsBuf
