import Iwlwifi.Transition

/-! # TX block-ack sessions

A model of how mac80211 sets up and ends block-ack sessions for transmission (`net/mac80211/agg-tx.c`
and `ieee80211_ba_session_work` of `net/mac80211/ht.c`), for all TIDs of one station.

* **A session** (`TidAmpduTx`).  The flag bits of its state and its timers.  It waits in
  `tid_start_tx` until the work item of the station moves it to `tid_tx`.
* **Asynchronous events** (`Async`).  Requests to start and to stop, the callbacks of the driver and
  the timers come at any time: they only take a spinlock.
* **Functions under the mutex of the device** (`stopSession`, `handleStart`, `startTxBaCb`,
  `stopTxBaCb`, `processAddbaResp`, `baSessionWork`).  The asynchronous events `e` happen where
  such a function does not hold the spinlock.
* **Runs** (`step`).  What the driver owes is part of the state: a call back when it has accepted a
  start that it does not complete at once, and after every stop. -/

namespace Iwlwifi.TxBa

/-! ### State -/

/-- `IEEE80211_NUM_TIDS`. -/
abbrev TidNum := Fin 16

/-- `struct tid_ampdu_tx`: `state`, whether the timers are pending, and what is compared. -/
structure TidAmpduTx where
  dialogToken : ℕ
  drvReady : Bool := false
  responseReceived : Bool := false
  operational : Bool := false
  stopping : Bool := false
  wantStart : Bool := false
  wantStop : Bool := false
  startCb : Bool := false
  stopCb : Bool := false
  sentAddba : Bool := false
  addbaRespTimer : Bool := false
  sessionTimer : Bool := false
deriving DecidableEq, Repr

/-- What `sta->ampdu_mlme` and the queue have for a TID, and the callbacks that the driver owes for
it. -/
structure Tid where
  tidStartTx : Option TidAmpduTx := none
  tidTx : Option TidAmpduTx := none
  /-- `IEEE80211_TXQ_STOP` -/
  txqStop : Bool := false
  addbaReqNum : ℕ := 0
  owesStart : Bool := false
  owesStop : Bool := false
deriving DecidableEq, Repr

/-- A station. -/
structure State where
  tids : TidNum → Tid
  /-- `ampdu_mlme.work` is queued -/
  work : Bool
  dialogTokenAllocator : ℕ

def init : State := ⟨fun _ => {}, false, 0⟩

namespace State
variable (s : State) (i : TidNum)

def upd (f : Tid → Tid) : State := { s with tids := Function.update s.tids i (f (s.tids i)) }

def updTx (f : TidAmpduTx → TidAmpduTx) : State :=
  s.upd i fun t => { t with tidTx := t.tidTx.map f }

/-- `wiphy_work_queue`. -/
def queueWork : State := { s with work := true }

end State

/-! ### Asynchronous events -/

/-- A request to start a session: whether the first checks let it pass, whether the last request was
sent a short time ago, and whether memory is there. -/
structure StartRequest where
  admitted : Bool
  recent : Bool
  alloc : Bool

inductive Async
  | start (i : TidNum) (r : StartRequest)
  | startCb (i : TidNum)
  | stopCb (i : TidNum)
  | stop (i : TidNum)
  | respTimer (i : TidNum)
  | sessionTimer (i : TidNum) (expired : Bool)

/-- `IEEE80211_FIRST_TSPEC_TSID`. -/
def firstTspecTsid : ℕ := 8

/-- `HT_AGG_MAX_RETRIES`. -/
def maxRetries : ℕ := 15

/-- `HT_AGG_BURST_RETRIES`. -/
def burstRetries : ℕ := 3

section async
variable (s : State) (i : TidNum)

/-- `ieee80211_start_tx_ba_session`. -/
def startTxBaSession (r : StartRequest) : State :=
  let t := s.tids i
  if !r.admitted || decide (firstTspecTsid ≤ i.val) then s
  else if maxRetries < t.addbaReqNum then s
  else if burstRetries < t.addbaReqNum ∧ r.recent then s
  else if t.tidTx.isSome ∨ t.tidStartTx.isSome then s
  else if !r.alloc then s
  else
    let token := (s.dialogTokenAllocator + 1) % 256
    let s := { s with dialogTokenAllocator := token }
    let s := s.upd i fun t => { t with tidStartTx := some { dialogToken := token, wantStart := true } }
    s.queueWork

/-- `ieee80211_start_tx_ba_cb_irqsafe`: the driver no longer owes the callback. -/
def startTxBaCbIrqsafe : State :=
  if (s.tids i).tidTx.isNone then s
  else
    let s := s.upd i fun t => { t with owesStart := false }
    (s.updTx i fun tx => { tx with startCb := true }).queueWork

/-- `ieee80211_stop_tx_ba_cb_irqsafe`. -/
def stopTxBaCbIrqsafe : State :=
  if (s.tids i).tidTx.isNone then s
  else
    let s := s.upd i fun t => { t with owesStop := false }
    (s.updTx i fun tx => { tx with stopCb := true }).queueWork

/-- `ieee80211_stop_tx_ba_session`. -/
def stopTxBaSession : State :=
  match (s.tids i).tidTx with
  | none => s
  | some tx =>
    if tx.stopping then s
    else (s.updTx i fun tx => { tx with wantStop := true }).queueWork

/-- `sta_addba_resp_timer_expired`, if the timer is pending. -/
def addbaRespTimerExpired : State :=
  match (s.tids i).tidTx with
  | none => s
  | some tx =>
    if !tx.addbaRespTimer then s
    else
      let s := s.updTx i fun tx => { tx with addbaRespTimer := false }
      if tx.responseReceived then s else stopTxBaSession s i

/-- `sta_tx_agg_session_timer_expired`, if the timer is pending.  It is set again while there is
traffic. -/
def aggSessionTimerExpired (expired : Bool) : State :=
  match (s.tids i).tidTx with
  | none => s
  | some tx =>
    if !tx.sessionTimer then s
    else if tx.stopping then s.updTx i fun tx => { tx with sessionTimer := false }
    else if !expired then s
    else stopTxBaSession (s.updTx i fun tx => { tx with sessionTimer := false }) i

end async

def async (s : State) : Async → State
  | .start i r => startTxBaSession s i r
  | .startCb i => startTxBaCbIrqsafe s i
  | .stopCb i => stopTxBaCbIrqsafe s i
  | .stop i => stopTxBaSession s i
  | .respTimer i => addbaRespTimerExpired s i
  | .sessionTimer i expired => aggSessionTimerExpired s i expired

def asyncs (s : State) (es : List Async) : State := es.foldl async s

/-- What happens at the points of a function at which it does not hold the lock. -/
abbrev Interleaving := ℕ → List Async

/-! ### Functions under the mutex -/

section sync
variable (i : TidNum) (e : Interleaving)

/-- `ieee80211_agg_start_txq`. -/
def aggStartTxq (s : State) : State := s.upd i fun t => { t with txqStop := false }

/-- `__ieee80211_stop_tx_ba_session`, for the reasons other than the end of the station.  The driver
accepts the stop and then owes the callback. -/
def stopSession (s : State) : State :=
  let s := s.upd i fun t => { t with tidStartTx := none }
  match (s.tids i).tidTx with
  | none => s
  | some tx =>
    if tx.stopping then s
    else if tx.wantStart then s.upd i fun t => { t with tidTx := none }
    else
      let s := s.updTx i fun tx => { tx with stopping := true }
      let s := s.upd i fun t => { t with txqStop := true }
      let s := asyncs s (e 0)
      let s := s.updTx i fun tx =>
        { tx with addbaRespTimer := false, sessionTimer := false, operational := false }
      let s := asyncs s (e 1)
      s.upd i fun t => { t with owesStart := false, owesStop := true }

/-- `ieee80211_send_addba_with_timeout`. -/
def sendAddbaWithTimeout (s : State) : State :=
  match (s.tids i).tidTx with
  | none => s
  | some tx =>
    if tx.stopping || tx.wantStop then s
    else
      let s := asyncs s (e 0)
      let s := s.updTx i fun tx => { tx with addbaRespTimer := true }
      let s := s.upd i fun t => { t with addbaReqNum := t.addbaReqNum + 1 }
      let s := asyncs s (e 1)
      s.updTx i fun tx => { tx with sentAddba := true }

/-- What the driver says to `IEEE80211_AMPDU_TX_START`: 0, one of the two special values, or an
error. -/
inductive DrvResult
  | success
  | immediate
  | delayAddba
  | error
deriving DecidableEq, Repr

/-- `ieee80211_tx_ba_session_handle_start`. -/
def handleStart (ret : DrvResult) (s : State) : State :=
  let s := s.updTx i fun tx => { tx with wantStart := false }
  let s := asyncs s (e 0)
  let s := s.upd i fun t =>
    { t with owesStart := ret = .success || ret = .delayAddba, owesStop := false }
  let s := asyncs s (e 1)
  match ret with
  | .delayAddba => s
  | .immediate =>
    sendAddbaWithTimeout i (fun k => e (k + 2)) (s.updTx i fun tx => { tx with drvReady := true })
  | .success => sendAddbaWithTimeout i (fun k => e (k + 2)) s
  | .error =>
    let s := s.upd i fun t => { t with tidTx := none }
    aggStartTxq i (asyncs s (e 2))

/-- `ieee80211_agg_tx_operational`. -/
def aggTxOperational (s : State) : State :=
  let s := asyncs s (e 0)
  let s := s.updTx i fun tx => { tx with operational := true }
  aggStartTxq i (asyncs s (e 1))

/-- `ieee80211_start_tx_ba_cb`. -/
def startTxBaCb (s : State) : State :=
  match (s.tids i).tidTx with
  | none => s
  | some tx =>
    if tx.drvReady then s
    else
      let s := asyncs (s.updTx i fun tx => { tx with drvReady := true }) (e 0)
      match (s.tids i).tidTx with
      | none => s
      | some tx =>
        if tx.stopping || tx.wantStop then s
        else if !tx.sentAddba then sendAddbaWithTimeout i (fun k => e (k + 1)) s
        else if tx.responseReceived then aggTxOperational i (fun k => e (k + 1)) s
        else s

/-- `ieee80211_stop_tx_ba_cb`. -/
def stopTxBaCb (s : State) : State :=
  match (s.tids i).tidTx with
  | none => s
  | some tx =>
    if !tx.stopping then s
    else
      let s := s.upd i fun t => { t with tidTx := none }
      aggStartTxq i (asyncs s (e 0))

/-- The fields of an ADDBA response that are compared. -/
structure AddbaResp where
  dialogToken : ℕ
  /-- `status == WLAN_STATUS_SUCCESS` -/
  success : Bool
  bufSize : ℕ
  timeout : ℕ

def AddbaResp.accepts (r : AddbaResp) : Bool := r.success && r.bufSize != 0

/-- `ieee80211_process_addba_resp`. -/
def processAddbaResp (r : AddbaResp) (s : State) : State :=
  match (s.tids i).tidTx with
  | none => s
  | some tx =>
    if r.dialogToken ≠ tx.dialogToken then s
    else
      let s := asyncs (s.updTx i fun tx => { tx with addbaRespTimer := false }) (e 0)
      match (s.tids i).tidTx with
      | none => s
      | some tx =>
        if tx.wantStop || tx.stopping then s
        else if r.accepts then
          if tx.responseReceived then s
          else
            let s := s.updTx i fun tx => { tx with responseReceived := true }
            let s := if tx.drvReady then aggTxOperational i (fun k => e (k + 1)) s else s
            let s := s.upd i fun t => { t with addbaReqNum := 0 }
            if r.timeout ≠ 0 then s.updTx i fun tx => { tx with sessionTimer := true } else s
        else stopSession i (fun k => e (k + 1)) s

/-- Fragments in the queue, the answer of the driver, and what happens in the meantime. -/
structure TidEnv where
  frags : Bool
  ret : DrvResult
  during : ℕ → Interleaving

/-- `test_and_clear_bit` and a function that is called if the bit was set. -/
def testAndClear (test : TidAmpduTx → Bool) (clear : TidAmpduTx → TidAmpduTx) (f : State → State)
    (s : State) : State :=
  if (s.tids i).tidTx.any test then f (s.updTx i clear) else s

/-- The callbacks and stop requests of a TID in `ieee80211_ba_session_work`. -/
def workFlags (env : TidEnv) (s : State) : State :=
  let s := testAndClear i (·.startCb) (fun tx => { tx with startCb := false })
    (startTxBaCb i (env.during 1)) s
  let s := asyncs s (env.during 0 1)
  let s := testAndClear i (·.wantStop) (fun tx => { tx with wantStop := false })
    (stopSession i (env.during 2)) s
  let s := asyncs s (env.during 0 2)
  testAndClear i (·.stopCb) (fun tx => { tx with stopCb := false }) (stopTxBaCb i (env.during 3)) s

/-- The body of the loop of `ieee80211_ba_session_work`; the result says whether the function returns
here.  It then has queued the work again. -/
def workTid (env : TidEnv) (s : State) : Bool × State :=
  let s := asyncs s (env.during 0 0)
  match (s.tids i).tidStartTx with
  | some tx =>
    let s := s.upd i fun t => { t with txqStop := true }
    if env.frags then (true, (asyncs s (env.during 0 1)).queueWork)
    else
      let s := s.upd i fun t =>
        { t with tidStartTx := none, tidTx := if t.tidTx.isSome then t.tidTx else some tx }
      (false, handleStart i (env.during 1) env.ret s)
  | none => (false, if (s.tids i).tidTx.isNone then s else workFlags i env s)

end sync

/-- The loop of `ieee80211_ba_session_work`. -/
def workTids (env : TidNum → TidEnv) : List TidNum → State → State
  | [], s => s
  | i :: rest, s =>
    let r := workTid i (env i) s
    if r.1 then r.2 else workTids env rest r.2

/-- `ieee80211_ba_session_work`, for a station whose sessions are not blocked. -/
def baSessionWork (env : TidNum → TidEnv) (s : State) : State :=
  workTids env (List.finRange 16) { s with work := false }

/-! ### Runs -/

inductive Event
  | async (a : Async)
  | work (env : TidNum → TidEnv)
  | addbaResp (i : TidNum) (r : AddbaResp) (e : Interleaving)
  | delba (i : TidNum) (e : Interleaving)

def step (s : State) : Event → Option (Unit × State)
  | .async a => some ((), async s a)
  | .work env => if s.work then some ((), baSessionWork env s) else none
  | .addbaResp i r e => some ((), processAddbaResp i e r s)
  | .delba i e => some ((), stopSession i e s)

def HeldBack (t : Tid) : Prop := t.txqStop = true ∨ ∃ tx, t.tidTx = some tx ∧ tx.operational = false

def HasWork (t : Tid) : Prop :=
  t.tidStartTx.isSome = true ∨
    ∃ tx, t.tidTx = some tx ∧ (tx.startCb = true ∨ tx.wantStop = true ∨ tx.stopCb = true)

/-- The work, or the response timer or a callback of the driver for the live session, is
outstanding. -/
def Outstanding (s : State) (i : TidNum) : Prop :=
  s.work = true ∧ HasWork (s.tids i) ∨
    ∃ tx, (s.tids i).tidTx = some tx ∧
      (tx.addbaRespTimer = true ∨ (s.tids i).owesStart = true ∨ (s.tids i).owesStop = true)

instance : DecidablePred HeldBack := fun _ => inferInstanceAs (Decidable (_ ∨ _))

instance : DecidablePred HasWork := fun _ => inferInstanceAs (Decidable (_ ∨ _))

instance (s : State) (i : TidNum) : Decidable (Outstanding s i) :=
  inferInstanceAs (Decidable (_ ∨ _))

end Iwlwifi.TxBa
