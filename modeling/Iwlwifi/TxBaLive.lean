import Iwlwifi.TxBaSession

/-! # No TID stays blocked

What keeps the machine of `TxBaSession` going.

* **Asynchronous events** (`Later`).  What they can do to a TID, said once: they raise flags and
  queue the work, and they end timers and debts of the driver only by raising a flag.
* **The invariant** (`Inv`).  For every TID, a session that is not operational waits for a callback,
  for the response timer or for the work (`Core`), and raised flags have work queued (`Flags`).
* **Functions** change one TID (`Local`) and keep or establish its `Core`.

`tx_ba_never_blocked`: no TID is blocked as long as no DELBA comes while a session that has not
started waits for fragments, and no acceptance comes before the request has been sent; after each of
these two, a TID can be blocked for good. -/

namespace Iwlwifi.TxBa

/-! ### Updates -/

section upd
variable {s : State} {i j : TidNum} {f : Tid → Tid} {g : TidAmpduTx → TidAmpduTx}

@[simp] theorem upd_self : (s.upd i f).tids i = f (s.tids i) :=
  Function.update_self ..

theorem upd_of_ne (h : j ≠ i) : (s.upd i f).tids j = s.tids j :=
  Function.update_of_ne h ..

@[simp] theorem updTx_self :
    (s.updTx i g).tids i = { s.tids i with tidTx := (s.tids i).tidTx.map g } :=
  upd_self

@[simp] theorem queueWork_tids : s.queueWork.tids = s.tids := rfl

@[simp] theorem queueWork_work : s.queueWork.work = true := rfl

end upd

/-! ### Asynchronous events -/

/-- What asynchronous events do to a live session. -/
@[mk_iff] structure TxLater (tx tx' : TidAmpduTx) (w' : Bool) : Prop where
  dialogToken : tx'.dialogToken = tx.dialogToken
  drvReady : tx'.drvReady = tx.drvReady
  responseReceived : tx'.responseReceived = tx.responseReceived
  operational : tx'.operational = tx.operational
  stopping : tx'.stopping = tx.stopping
  wantStart : tx'.wantStart = tx.wantStart
  sentAddba : tx'.sentAddba = tx.sentAddba
  startCb : tx.startCb = true → tx'.startCb = true
  wantStop : tx.wantStop = true → tx'.wantStop = true
  stopCb : tx.stopCb = true → tx'.stopCb = true
  startCb_new : tx'.startCb = true → tx.startCb = true ∨ w' = true
  wantStop_new : tx'.wantStop = true → tx.wantStop = true ∨ w' = true
  stopCb_new : tx'.stopCb = true → tx.stopCb = true ∨ w' = true
  timer : tx.addbaRespTimer = true → tx'.addbaRespTimer = true ∨ tx.responseReceived = true ∨
    tx.stopping = true ∨ tx'.wantStop = true

def freshTx (token : ℕ) : TidAmpduTx := { dialogToken := token, wantStart := true }

/-- **What asynchronous events do to a TID**, `w` and `w'` saying whether the work is queued. -/
@[mk_iff] structure Later (t : Tid) (w : Bool) (t' : Tid) (w' : Bool) : Prop where
  work : w = true → w' = true
  txqStop : t'.txqStop = t.txqStop
  idle : t.tidTx = none → t'.tidTx = none ∧ (t'.tidStartTx = t.tidStartTx ∨
    t.tidStartTx = none ∧ w' = true ∧ ∃ token, t'.tidStartTx = some (freshTx token))
  live : ∀ tx, t.tidTx = some tx → t'.tidStartTx = t.tidStartTx ∧ ∃ tx', t'.tidTx = some tx' ∧
    TxLater tx tx' w' ∧ (t.owesStart = true → t'.owesStart = true ∨ tx'.startCb = true) ∧
    (t.owesStop = true → t'.owesStop = true ∨ tx'.stopCb = true) ∧
    (t'.owesStop = true → t.owesStop = true)

theorem TxLater.refl (tx : TidAmpduTx) (w : Bool) : TxLater tx tx w :=
  ⟨rfl, rfl, rfl, rfl, rfl, rfl, rfl, id, id, id, .inl, .inl, .inl, .inl⟩

theorem TxLater.trans {tx tx' tx'' : TidAmpduTx} {w' w'' : Bool} (h : TxLater tx tx' w')
    (h' : TxLater tx' tx'' w'') (hw : w' = true → w'' = true) : TxLater tx tx'' w'' := by
  grind [txLater_iff]

theorem Later.refl (t : Tid) {w w' : Bool} (hw : w = true → w' = true) : Later t w t w' :=
  ⟨hw, rfl, fun h => ⟨h, .inl rfl⟩, fun tx h => ⟨rfl, tx, h, .refl tx w', .inl, .inl, id⟩⟩

theorem Later.trans {t t' t'' : Tid} {w w' w'' : Bool} (h : Later t w t' w')
    (h' : Later t' w' t'' w'') : Later t w t'' w'' := by
  obtain ⟨hw, htxq, hidle, hlive⟩ := h
  obtain ⟨hw', htxq', hidle', hlive'⟩ := h'
  refine ⟨hw' ∘ hw, htxq'.trans htxq, by grind, fun tx htx => ?_⟩
  obtain ⟨hst, tx', htx', hx, h⟩ := hlive tx htx
  obtain ⟨hst', tx'', htx'', hx', h'⟩ := hlive' tx' htx'
  refine ⟨hst'.trans hst, tx'', htx'', hx.trans hx' hw', ?_⟩
  grind [txLater_iff]

/-- Asynchronous events have got from `s` to `s'`. -/
def AllLater (s s' : State) : Prop := ∀ j, Later (s.tids j) s.work (s'.tids j) s'.work

section async
variable {s s' s'' : State} {i : TidNum}

theorem AllLater.refl (s : State) : AllLater s s := fun _ => .refl _ id

theorem AllLater.trans (h : AllLater s s') (h' : AllLater s' s'') : AllLater s s'' :=
  fun j => (h j).trans (h' j)

theorem later_upd (i : TidNum) (f : Tid → Tid) (htids : s'.tids = (s.upd i f).tids)
    (hw : s.work = true → s'.work = true)
    (hi : Later (s.tids i) s.work (f (s.tids i)) s'.work) : AllLater s s' := by
  intro j
  rw [htids]
  by_cases hj : j = i
  · subst hj
    rwa [upd_self]
  · rw [upd_of_ne hj]
    exact .refl _ hw

theorem start_later (r : StartRequest) : AllLater s (startTxBaSession s i r) := by
  unfold startTxBaSession
  dsimp only
  split
  · exact .refl s
  split
  · exact .refl s
  split
  · exact .refl s
  split
  · exact .refl s
  rename_i hnone
  split
  · exact .refl s
  push Not at hnone
  obtain ⟨htx, hstart⟩ := hnone
  refine later_upd i (fun t =>
    { t with tidStartTx := some (freshTx ((s.dialogTokenAllocator + 1) % 256)) }) rfl (fun _ => rfl)
    ⟨fun _ => rfl, rfl, fun _ => ⟨by simpa using htx, .inr ⟨by simpa using hstart, rfl, _, rfl⟩⟩, ?_⟩
  intro tx h
  rw [h] at htx
  exact absurd rfl htx

theorem raise_later (i : TidNum) (g : TidAmpduTx → TidAmpduTx) (o p : Bool)
    (htids : s'.tids = (s.upd i fun t =>
      { t with tidTx := t.tidTx.map g, owesStart := o, owesStop := p }).tids)
    (hw : s'.work = true)
    (hg : ∀ tx, (s.tids i).tidTx = some tx → TxLater tx (g tx) true ∧
      ((s.tids i).owesStart = true → o = true ∨ (g tx).startCb = true) ∧
      ((s.tids i).owesStop = true → p = true ∨ (g tx).stopCb = true) ∧
      (p = true → (s.tids i).owesStop = true)) : AllLater s s' := by
  refine later_upd i _ htids (fun _ => hw) ?_
  rw [hw]
  refine ⟨fun _ => rfl, rfl, fun h => ⟨by simp [h], .inl rfl⟩, ?_⟩
  intro tx h
  exact ⟨rfl, g tx, by simp [h], hg tx h⟩

theorem startCb_later : AllLater s (startTxBaCbIrqsafe s i) := by
  unfold startTxBaCbIrqsafe
  split
  · exact .refl s
  refine raise_later i (fun tx => { tx with startCb := true }) false (s.tids i).owesStop ?_ rfl ?_
  · simp [State.updTx, State.upd, State.queueWork]
  · intro tx _
    exact ⟨{ TxLater.refl tx true with startCb := fun _ => rfl, startCb_new := fun _ => .inr rfl },
      fun _ => .inr rfl, .inl, id⟩

theorem stopCb_later : AllLater s (stopTxBaCbIrqsafe s i) := by
  unfold stopTxBaCbIrqsafe
  split
  · exact .refl s
  refine raise_later i (fun tx => { tx with stopCb := true }) (s.tids i).owesStart false ?_ rfl ?_
  · simp [State.updTx, State.upd, State.queueWork]
  · intro tx _
    exact ⟨{ TxLater.refl tx true with stopCb := fun _ => rfl, stopCb_new := fun _ => .inr rfl },
      .inl, fun _ => .inr rfl, nofun⟩

theorem stop_later : AllLater s (stopTxBaSession s i) := by
  unfold stopTxBaSession
  split
  · exact .refl s
  split
  · exact .refl s
  refine raise_later i (fun tx => { tx with wantStop := true }) (s.tids i).owesStart
    (s.tids i).owesStop ?_ rfl ?_
  · simp [State.updTx, State.upd, State.queueWork]
  · intro tx _
    exact ⟨{ TxLater.refl tx true with
      wantStop := fun _ => rfl, wantStop_new := fun _ => .inr rfl, timer := .inl }, .inl, .inl, id⟩

theorem updTx_later (i : TidNum) (g : TidAmpduTx → TidAmpduTx)
    (hg : ∀ tx, (s.tids i).tidTx = some tx → TxLater tx (g tx) s.work) :
    AllLater s (s.updTx i g) := by
  refine later_upd i _ rfl id ⟨id, rfl, fun h => ⟨by simp [h], .inl rfl⟩, ?_⟩
  intro tx h
  exact ⟨rfl, g tx, by simp [h], hg tx h, .inl, .inl, id⟩

theorem respTimer_later : AllLater s (addbaRespTimerExpired s i) := by
  unfold addbaRespTimerExpired
  split
  · exact .refl s
  rename_i tx htx
  split
  · exact .refl s
  -- the timer is stopped where the response has come or the session is stopping
  have hstop : tx.responseReceived = true ∨ tx.stopping = true →
      AllLater s (s.updTx i fun tx => { tx with addbaRespTimer := false }) := by
    intro hor
    refine updTx_later i _ fun tx' htx' => ?_
    obtain rfl : tx = tx' := Option.some.inj (htx.symm.trans htx')
    exact { TxLater.refl tx s.work with timer := fun _ => .inr (hor.imp_right .inl) }
  split
  next hresp => exact hstop (.inl hresp)
  unfold stopTxBaSession
  simp only [updTx_self, htx, Option.map_some]
  split
  next hstopping => exact hstop (.inr hstopping)
  refine raise_later i (fun tx => { tx with addbaRespTimer := false, wantStop := true })
    (s.tids i).owesStart (s.tids i).owesStop ?_ rfl ?_
  · simp [State.updTx, State.upd, State.queueWork, Function.comp_def]
  · intro tx _
    exact ⟨{ TxLater.refl tx true with
      wantStop := fun _ => rfl, wantStop_new := fun _ => .inr rfl
      timer := fun _ => .inr (.inr (.inr rfl)) }, .inl, .inl, id⟩

theorem sessionTimer_later (expired : Bool) : AllLater s (aggSessionTimerExpired s i expired) := by
  have hdrop : AllLater s (s.updTx i fun tx => { tx with sessionTimer := false }) :=
    updTx_later i _ fun tx _ => { TxLater.refl tx s.work with }
  unfold aggSessionTimerExpired
  split
  · exact .refl s
  split
  · exact .refl s
  split
  · exact hdrop
  split
  · exact .refl s
  · exact hdrop.trans stop_later

theorem async_later (s : State) (a : Async) : AllLater s (async s a) := by
  cases a with
  | start i r => exact start_later r
  | startCb i => exact startCb_later
  | stopCb i => exact stopCb_later
  | stop i => exact stop_later
  | respTimer i => exact respTimer_later
  | sessionTimer i expired => exact sessionTimer_later expired

theorem asyncs_later (s : State) (es : List Async) : AllLater s (asyncs s es) := by
  induction es generalizing s with
  | nil => exact .refl s
  | cons a es ih => exact (async_later s a).trans (ih (async s a))

end async

/-! ### The invariant -/

/-- A session waits for the callback of the driver or, after the request has been sent, for the
response. -/
@[mk_iff] structure Waiting (t : Tid) (tx : TidAmpduTx) : Prop where
  response : tx.responseReceived = true → tx.sentAddba = true
  driver : tx.drvReady = false → t.owesStart = true ∨ tx.startCb = true
  ready : tx.drvReady = true → tx.sentAddba = true ∧ tx.responseReceived = false
  timer : tx.sentAddba = true → tx.responseReceived = false → tx.addbaRespTimer = true

/-- A live session, except for what it waits for. -/
@[mk_iff] structure TxBase (t : Tid) (tx : TidAmpduTx) : Prop where
  started : tx.wantStart = false
  stopping : tx.stopping = true → tx.operational = false ∧ (t.owesStop = true ∨ tx.stopCb = true)
  owed : tx.stopping = false → t.owesStop = false
  running : tx.stopping = false → tx.operational = true →
    t.txqStop = false ∧ tx.responseReceived = true

@[mk_iff] structure TxOk (t : Tid) (tx : TidAmpduTx) : Prop extends TxBase t tx where
  waiting : tx.stopping = false → tx.operational = false → tx.wantStop = true ∨ Waiting t tx

@[mk_iff] structure Core (t : Tid) : Prop where
  fresh : ∀ tx, t.tidStartTx = some tx → t.tidTx = none ∧ ∃ token, tx = freshTx token
  idle : t.tidTx = none → t.tidStartTx = none → t.txqStop = false
  live : ∀ tx, t.tidTx = some tx → TxOk t tx

inductive Todo
  | start
  | startCb
  | wantStop
  | stopCb

def Tid.todo (t : Tid) : Todo → Bool
  | .start => t.tidStartTx.isSome
  | .startCb => t.tidTx.any (·.startCb)
  | .wantStop => t.tidTx.any (·.wantStop)
  | .stopCb => t.tidTx.any (·.stopCb)

def Flags (t : Tid) (w : Bool) : Prop := ∀ k, t.todo k = true → w = true

section later
variable {t t' : Tid} {w w' : Bool}

theorem Core.later (h : Core t) (hl : Later t w t' w') : Core t' := by
  obtain ⟨hfresh, hidle, hlive⟩ := h
  obtain ⟨hw, htxq, hidle', hlive'⟩ := hl
  cases hold : t.tidTx with
  | none => exact ⟨by grind, by grind, by grind⟩
  | some tx =>
    obtain ⟨hst, tx', htx', hx⟩ := hlive' tx hold
    refine ⟨by grind, by grind, fun tx₁ htx₁ => ?_⟩
    grind [txOk_iff, txBase_iff, txLater_iff, waiting_iff]

theorem Later.todo (hl : Later t w t' w') (k : Todo) (hk : t'.todo k = true) :
    t.todo k = true ∨ w' = true := by
  cases hold : t.tidTx with
  | none =>
    have := hl.idle hold
    cases k <;> grind [Tid.todo]
  | some tx =>
    obtain ⟨heq, tx', htx', hx, -⟩ := hl.live tx hold
    cases k <;> simp only [Tid.todo, htx', hold, heq, Option.any_some] at hk ⊢
    · exact .inl hk
    · exact hx.startCb_new hk
    · exact hx.wantStop_new hk
    · exact hx.stopCb_new hk

end later

/-! ### Functions change one TID -/

/-- A function for TID `i`: for the other TIDs only asynchronous events happen, and what it leaves to
do for this one was there before or is queued. -/
structure Local (i : TidNum) (s s' : State) : Prop where
  work : s.work = true → s'.work = true
  others : ∀ j, j ≠ i → Later (s.tids j) s.work (s'.tids j) s'.work
  todo : ∀ k, (s'.tids i).todo k = true → (s.tids i).todo k = true ∨ s'.work = true

/-- A function for TID `i` has got from `s` to `s'`, where the TID satisfies `P`. -/
structure Reached (i : TidNum) (s : State) (P : Tid → Prop) (s' : State) : Prop extends
    Local i s s' where
  holds : P (s'.tids i)

/-- The TID has a live session that satisfies `P`. -/
def Live (P : Tid → TidAmpduTx → Prop) (t : Tid) : Prop :=
  t.tidStartTx = none ∧ ∃ tx, t.tidTx = some tx ∧ P t tx

/-- What asynchronous events leave of a live session. -/
@[mk_iff] structure Rely (t : Tid) (tx : TidAmpduTx) (t' : Tid) (tx' : TidAmpduTx) : Prop where
  tx : ∃ w', TxLater tx tx' w'
  txqStop : t'.txqStop = t.txqStop
  owesStart : t.owesStart = true → t'.owesStart = true ∨ tx'.startCb = true
  owesStop : t.owesStop = true → t'.owesStop = true ∨ tx'.stopCb = true
  owesStop_old : t'.owesStop = true → t.owesStop = true

section rules
variable {i : TidNum} {s s' s'' : State} {P Q : Tid → Prop} {L M : Tid → TidAmpduTx → Prop}

theorem Local.refl (s : State) : Local i s s := ⟨id, fun _ _ => .refl _ id, fun _ => .inl⟩

theorem Local.trans (h : Local i s s') (h' : Local i s' s'') : Local i s s'' where
  work := fun hw => h'.work (h.work hw)
  others := fun j hj => (h.others j hj).trans (h'.others j hj)
  todo := fun k hk => (h'.todo k hk).elim (fun hk => (h.todo k hk).imp_right h'.work) .inr

theorem Reached.refl (h : P (s.tids i)) : Reached i s P s := ⟨.refl s, h⟩

theorem Reached.andThen (h : Reached i s P s') (h' : P (s'.tids i) → Reached i s' Q s'') :
    Reached i s Q s'' :=
  ⟨h.toLocal.trans (h' h.holds).toLocal, (h' h.holds).holds⟩

theorem Reached.asyncs {es : List Async} (h : Reached i s P s')
    (hPQ : ∀ t w t' w', P t → Later t w t' w' → Q t') : Reached i s Q (asyncs s' es) :=
  have hl := asyncs_later s' es
  ⟨h.toLocal.trans ⟨(hl i).work, fun j _ => hl j, (hl i).todo⟩, hPQ _ _ _ _ h.holds (hl i)⟩

theorem Reached.upd {f : Tid → Tid} (h : Reached i s P s') (hPQ : ∀ t, P t → Q (f t))
    (hf : ∀ k t, P t → (f t).todo k = true → t.todo k = true) : Reached i s Q (s'.upd i f) := by
  refine ⟨h.toLocal.trans ⟨id, fun j hj => ?_, fun k hk => ?_⟩, ?_⟩
  · rw [upd_of_ne hj]
    exact .refl _ id
  · rw [upd_self] at hk
    exact .inl (hf k _ h.holds hk)
  · rw [upd_self]
    exact hPQ _ h.holds

theorem Reached.liveAsyncs {es : List Async} (h : Reached i s (Live L) s')
    (hLM : ∀ t tx t' tx', L t tx → Rely t tx t' tx' → M t' tx') :
    Reached i s (Live M) (TxBa.asyncs s' es) := by
  refine h.asyncs fun t w t' w' ⟨hstart, tx, htx, hL⟩ hl => ?_
  obtain ⟨hst, tx', htx', hx, ho, hp, hq⟩ := hl.live tx htx
  exact ⟨hst.trans hstart, tx', htx', hLM _ _ _ _ hL ⟨⟨_, hx⟩, hl.txqStop, ho, hp, hq⟩⟩

theorem Reached.updTx {g : TidAmpduTx → TidAmpduTx} (h : Reached i s (Live L) s')
    (hLM : ∀ t tx, L t tx → M { t with tidTx := some (g tx) } (g tx))
    (hg : ∀ tx, ((g tx).startCb = true → tx.startCb = true) ∧
      ((g tx).wantStop = true → tx.wantStop = true) ∧ ((g tx).stopCb = true → tx.stopCb = true)) :
    Reached i s (Live M) (s'.updTx i g) := by
  refine h.upd (fun t ⟨hstart, tx, htx, hL⟩ => ?_) fun k t ⟨_, tx, htx, _⟩ hk => ?_
  · rw [htx]
    exact ⟨hstart, g tx, rfl, hLM t tx hL⟩
  · have := hg tx
    cases k <;> simp_all [Tid.todo]

theorem Reached.updRest {f : Tid → Tid} (h : Reached i s (Live L) s')
    (hLM : ∀ t tx, L t tx → M (f t) tx)
    (hf : ∀ t, (f t).tidStartTx = t.tidStartTx ∧ (f t).tidTx = t.tidTx) :
    Reached i s (Live M) (s'.upd i f) := by
  refine h.upd (fun t ⟨hstart, tx, htx, hL⟩ => ?_) fun k t _ hk => ?_
  · exact ⟨(hf t).1.trans hstart, tx, (hf t).2.trans htx, hLM t tx hL⟩
  · cases k <;> simp_all [Tid.todo]

end rules

/-- An acceptance is too early: the request has not been sent yet. -/
def TooEarly (t : Tid) (r : AddbaResp) : Prop :=
  ∃ tx, t.tidTx = some tx ∧ r.dialogToken = tx.dialogToken ∧ r.accepts = true ∧
    tx.stopping = false ∧ tx.wantStop = false ∧ tx.responseReceived = false ∧ tx.sentAddba = false

/-! ### Functions keep the invariant of their TID -/

section core
variable {i : TidNum} {s : State} (e : Interleaving)

theorem Core.tidStartTx_eq {t : Tid} {tx : TidAmpduTx} (h : Core t) (htx : t.tidTx = some tx) :
    t.tidStartTx = none := by
  cases hstart : t.tidStartTx with
  | none => rfl
  | some tx' => exact absurd ((h.fresh tx' hstart).1.symm.trans htx) nofun

theorem Core.live_of_some {t : Tid} {tx : TidAmpduTx} (h : Core t) (htx : t.tidTx = some tx) :
    Live TxOk t :=
  ⟨h.tidStartTx_eq htx, tx, htx, h.live tx htx⟩

theorem core_of_live {t : Tid} (h : Live TxOk t) : Core t := by
  obtain ⟨hstart, tx, htx, hok⟩ := h
  exact ⟨by grind, by grind, by grind⟩

theorem Reached.core {s' : State} (h : Reached i s (Live TxOk) s') : Reached i s Core s' :=
  ⟨h.toLocal, core_of_live h.holds⟩

theorem Reached.core_asyncs {s' : State} (h : Reached i s Core s') (es : List Async) :
    Reached i s Core (TxBa.asyncs s' es) :=
  h.asyncs fun _ _ _ _ hc hl => hc.later hl

/-- The session is removed and the queue started, in the error path of a start and after a stop. -/
theorem reached_remove {s' : State} {es : List Async}
    (h : Reached i s (fun t => t.tidStartTx = none) s') :
    Reached i s Core (aggStartTxq i (asyncs (s'.upd i fun t => { t with tidTx := none }) es)) := by
  have hnone : Reached i s (fun t => t.tidStartTx = none ∧ t.tidTx = none)
      (s'.upd i fun t => { t with tidTx := none }) :=
    h.upd (fun t h => ⟨h, rfl⟩) fun k t _ hk => by cases k <;> simp_all [Tid.todo]
  have hidle : Reached i s (fun t => t.tidTx = none ∧
      ∀ tx, t.tidStartTx = some tx → ∃ token, tx = freshTx token) (asyncs _ es) :=
    hnone.asyncs fun t w t' w' ⟨hst, htx⟩ hl => by
      have := hl.idle htx
      grind
  refine hidle.upd (fun t ⟨htx, hfresh⟩ => ?_) fun _ _ _ => id
  exact ⟨fun tx h => ⟨htx, hfresh tx h⟩, fun _ _ => rfl, by grind⟩

/-- A session whose request can be sent: no response has come. -/
@[mk_iff] structure PreSend (t : Tid) (tx : TidAmpduTx) : Prop extends TxBase t tx where
  waiting : tx.stopping = false → tx.operational = false → tx.wantStop = true ∨
    tx.responseReceived = false ∧
      (tx.drvReady = false → t.owesStart = true ∨ tx.startCb = true)

theorem reached_sendAddbaWithTimeout (h : Live PreSend (s.tids i)) :
    Reached i s Core (sendAddbaWithTimeout i e s) := by
  obtain ⟨hstart, tx, htx, hpre⟩ := h
  unfold sendAddbaWithTimeout
  rw [htx]
  dsimp only
  split
  next hno => exact .refl (core_of_live ⟨hstart, tx, htx, by grind [txOk_iff, preSend_iff]⟩)
  next hgo =>
    let ready := fun t tx => PreSend t tx ∧ tx.stopping = false
    -- from the end: the timer runs when the request counts as sent
    refine (Reached.updTx (L := fun t tx => ready t tx ∧ (tx.wantStop = true ∨
      tx.responseReceived = true ∨ tx.addbaRespTimer = true)) ?_
      (by grind [preSend_iff, txBase_iff, txOk_iff, waiting_iff]) (by grind)).core
    refine Reached.liveAsyncs (L := fun t tx => ready t tx ∧ tx.addbaRespTimer = true) ?_
      (by grind [rely_iff, txLater_iff, preSend_iff, txBase_iff])
    refine Reached.updRest (L := fun t tx => ready t tx ∧ tx.addbaRespTimer = true) ?_
      (by grind [preSend_iff, txBase_iff]) (by grind)
    refine Reached.updTx (L := ready) ?_ (by grind [preSend_iff, txBase_iff]) (by grind)
    exact Reached.liveAsyncs (L := ready) (.refl ⟨hstart, tx, htx, hpre, by grind⟩)
      (by grind [rely_iff, txLater_iff, preSend_iff, txBase_iff])

theorem reached_aggTxOperational (h : Live (fun t tx => TxBase t tx ∧ tx.stopping = false ∧
    tx.responseReceived = true) (s.tids i)) : Reached i s (Live TxOk) (aggTxOperational i e s) := by
  let accepted := fun t tx => TxBase t tx ∧ tx.stopping = false ∧ tx.responseReceived = true
  let running := fun (t : Tid) tx => accepted { t with txqStop := false } tx ∧ tx.operational = true
  unfold aggTxOperational aggStartTxq
  refine Reached.updRest (L := running) ?_ (by grind [txOk_iff, txBase_iff]) (by grind)
  refine Reached.liveAsyncs (L := running) ?_ (by grind [rely_iff, txLater_iff, txBase_iff])
  refine Reached.updTx (L := accepted) ?_ (by grind [txBase_iff]) (by grind)
  exact Reached.liveAsyncs (.refl h) (by grind [rely_iff, txLater_iff, txBase_iff])

/-- A session whose callback has been taken out of its flags. -/
@[mk_iff] structure PreStartCb (t : Tid) (tx : TidAmpduTx) : Prop extends TxBase t tx where
  waiting : tx.stopping = false → tx.operational = false → tx.wantStop = true ∨
    (tx.responseReceived = true → tx.sentAddba = true) ∧
    (tx.drvReady = true → tx.sentAddba = true ∧ tx.responseReceived = false) ∧
    (tx.sentAddba = true → tx.responseReceived = false → tx.addbaRespTimer = true)

theorem reached_startTxBaCb (h : Live PreStartCb (s.tids i)) :
    Reached i s Core (startTxBaCb i e s) := by
  obtain ⟨hstart, tx, htx, hpre⟩ := h
  unfold startTxBaCb
  rw [htx]
  dsimp only
  split
  next =>
    refine .refl (core_of_live ⟨hstart, tx, htx, ?_⟩)
    grind [txOk_iff, waiting_iff, preStartCb_iff]
  next hno =>
    -- the driver is ready now, so that only the response can be missing
    let ready := fun t tx => TxBase t tx ∧ tx.drvReady = true ∧
      (tx.stopping = false → tx.operational = false → tx.wantStop = true ∨
        (tx.responseReceived = true → tx.sentAddba = true) ∧
        (tx.sentAddba = true → tx.responseReceived = false → tx.addbaRespTimer = true))
    have h : Reached i s (Live ready)
        (asyncs (s.updTx i fun tx => { tx with drvReady := true }) (e 0)) := by
      refine Reached.liveAsyncs (L := ready) ?_ (by grind [rely_iff, txLater_iff, txBase_iff])
      exact Reached.updTx (.refl ⟨hstart, tx, htx, hpre⟩) (by grind [preStartCb_iff, txBase_iff])
        (by grind)
    refine h.andThen fun ⟨hstart, tx, htx, hready⟩ => ?_
    rw [htx]
    dsimp only
    split
    next => exact .refl (core_of_live ⟨hstart, tx, htx, by grind [txOk_iff]⟩)
    next hgo =>
      split
      next => exact reached_sendAddbaWithTimeout _ ⟨hstart, tx, htx, by grind [preSend_iff]⟩
      next =>
        split
        next => exact (reached_aggTxOperational _ ⟨hstart, tx, htx, by grind⟩).core
        next =>
          exact .refl (core_of_live ⟨hstart, tx, htx, by grind [txOk_iff, waiting_iff]⟩)

theorem reached_stopSession (hidle : (s.tids i).tidTx = none → (s.tids i).txqStop = false)
    (hlive : ∀ tx, (s.tids i).tidTx = some tx → tx.wantStart = false ∧
      (tx.stopping = true →
        tx.operational = false ∧ ((s.tids i).owesStop = true ∨ tx.stopCb = true))) :
    Reached i s Core (stopSession i e s) := by
  have h : Reached i s (· = { s.tids i with tidStartTx := none })
      (s.upd i fun t => { t with tidStartTx := none }) :=
    .upd (P := (· = s.tids i)) (.refl rfl) (fun _ ht => by rw [ht]) fun k t _ hk => by
      cases k <;> simp_all [Tid.todo]
  unfold stopSession
  refine h.andThen fun ht => ?_
  dsimp only
  cases htx : (s.tids i).tidTx with
  | none =>
    rw [ht, htx]
    refine .refl ⟨?_, ?_, ?_⟩ <;> grind
  | some tx =>
    obtain ⟨hstarted, hstopping⟩ := hlive tx htx
    rw [ht, htx]
    dsimp only
    split
    next =>
      refine .refl (core_of_live ⟨?_, tx, ?_, ?_⟩) <;> grind [txOk_iff, txBase_iff]
    next =>
      rw [if_neg (by simp [hstarted])]
      -- the session becomes a stopping one
      let stop := fun (_ : Tid) (tx : TidAmpduTx) => tx.wantStart = false ∧ tx.stopping = true
      let stopped := fun t tx => stop t tx ∧ tx.operational = false
      refine (Reached.updRest (L := stopped) ?_ (by grind [txOk_iff, txBase_iff])
        (by grind)).core
      refine Reached.liveAsyncs (L := stopped) ?_ (by grind [rely_iff, txLater_iff])
      refine Reached.updTx (L := stop) ?_ (by grind) (by grind)
      refine Reached.liveAsyncs (L := stop) ?_ (by grind [rely_iff, txLater_iff])
      refine Reached.updRest (L := stop) ?_ (by grind) (by grind)
      refine Reached.updTx (L := fun _ tx => tx.wantStart = false) (.refl ?_) (by grind) (by grind)
      exact ⟨congrArg Tid.tidStartTx ht, tx, by rw [ht, htx], hstarted⟩

theorem reached_stopTxBaCb
    (h : Live (fun t tx => tx.stopping = false → TxOk t tx) (s.tids i)) :
    Reached i s Core (stopTxBaCb i e s) := by
  obtain ⟨hstart, tx, htx, hok⟩ := h
  unfold stopTxBaCb
  rw [htx]
  dsimp only
  split
  next hs => exact .refl (core_of_live ⟨hstart, tx, htx, hok (by simpa using hs)⟩)
  next => exact reached_remove (.refl hstart)

theorem reached_handleStart {token : ℕ} (h : Live (fun _ tx => tx = freshTx token) (s.tids i))
    (ret : DrvResult) : Reached i s Core (handleStart i e ret s) := by
  -- asynchronous events leave all of this alone
  let new := fun (_ : Tid) (tx : TidAmpduTx) => tx.wantStart = false ∧ tx.stopping = false ∧
    tx.operational = false ∧ tx.responseReceived = false ∧ tx.drvReady = false ∧
    tx.sentAddba = false
  let asked := fun t tx => new t tx ∧ t.owesStop = false ∧
    ((ret = .success ∨ ret = .delayAddba) → t.owesStart = true ∨ tx.startCb = true)
  have h : Reached i s (Live asked) (asyncs ((asyncs (s.updTx i fun tx =>
      { tx with wantStart := false }) (e 0)).upd i fun t => { t with
        owesStart := ret = .success || ret = .delayAddba, owesStop := false }) (e 1)) := by
    refine Reached.liveAsyncs (L := asked) ?_ (by grind [rely_iff, txLater_iff])
    refine Reached.updRest (L := new) ?_ (by grind) (by grind)
    refine Reached.liveAsyncs (L := new) ?_ (by grind [rely_iff, txLater_iff])
    exact Reached.updTx (.refl h) (by grind [freshTx]) (by grind)
  unfold handleStart
  cases ret with
  | success =>
    refine h.andThen fun ⟨hstart, tx, htx, hnew⟩ => reached_sendAddbaWithTimeout _ ?_
    exact ⟨hstart, tx, htx, by grind [preSend_iff, txBase_iff]⟩
  | immediate =>
    refine Reached.andThen (P := Live PreSend) ?_ (reached_sendAddbaWithTimeout _)
    exact h.updTx (by grind [preSend_iff, txBase_iff]) (by grind)
  | delayAddba =>
    refine h.andThen fun ⟨hstart, tx, htx, hnew⟩ => .refl (core_of_live ⟨hstart, tx, htx, ?_⟩)
    grind [txOk_iff, txBase_iff, waiting_iff]
  | error => exact reached_remove (h.andThen fun hl => .refl hl.1)

theorem reached_accepted {s' : State} {timeout : ℕ} (h : Reached i s (Live TxOk) s') :
    Reached i s Core (let s := s'.upd i fun t => { t with addbaReqNum := 0 }
      if timeout ≠ 0 then s.updTx i fun tx => { tx with sessionTimer := true } else s) := by
  have h : Reached i s (Live TxOk) (s'.upd i fun t => { t with addbaReqNum := 0 }) :=
    h.updRest (by grind [txOk_iff, txBase_iff, waiting_iff]) (by grind)
  dsimp only
  split
  next => exact (h.updTx (by grind [txOk_iff, txBase_iff, waiting_iff]) (by grind)).core
  next => exact h.core

theorem reached_processAddbaResp {r : AddbaResp} (hcore : Core (s.tids i))
    (hlate : ¬TooEarly (s.tids i) r) : Reached i s Core (processAddbaResp i e r s) := by
  unfold processAddbaResp
  split
  next => exact .refl hcore
  next tx htx =>
    split
    next => exact .refl hcore
    next htoken =>
      -- the timer is off, and the request has been sent if this is its acceptance
      let got := fun t tx => TxBase t tx ∧ (tx.stopping = false → tx.wantStop = false →
        (tx.operational = false → (tx.responseReceived = true → tx.sentAddba = true) ∧
          (tx.drvReady = false → t.owesStart = true ∨ tx.startCb = true) ∧
          (tx.drvReady = true → tx.sentAddba = true ∧ tx.responseReceived = false)) ∧
        (r.accepts = true → tx.responseReceived = false → tx.sentAddba = true))
      have h : Reached i s (Live got)
          (asyncs (s.updTx i fun tx => { tx with addbaRespTimer := false }) (e 0)) := by
        refine Reached.liveAsyncs (L := got) ?_ (by grind [rely_iff, txLater_iff, txBase_iff])
        refine Reached.updTx (L := fun t tx' => TxOk t tx' ∧ tx' = tx) (.refl ?_) ?_ (by grind)
        · exact ⟨hcore.tidStartTx_eq htx, tx, htx, hcore.live tx htx, rfl⟩
        · grind [txOk_iff, txBase_iff, waiting_iff, TooEarly]
      refine h.andThen fun ⟨hstart, tx, htx, hgot⟩ => ?_
      dsimp only
      rw [htx]
      dsimp only
      split
      next => exact .refl (core_of_live ⟨hstart, tx, htx, by grind [txOk_iff]⟩)
      next =>
        split
        next hacc =>
          split
          next => exact .refl (core_of_live ⟨hstart, tx, htx, by grind [txOk_iff, waiting_iff]⟩)
          next =>
            refine reached_accepted ?_
            split
            next =>
              refine Reached.andThen (P := Live fun t tx => TxBase t tx ∧ tx.stopping = false ∧
                tx.responseReceived = true) ?_ (reached_aggTxOperational _)
              refine Reached.updTx (L := fun t tx => TxBase t tx ∧ tx.stopping = false)
                (.refl ⟨hstart, tx, htx, by grind⟩) (by grind [txBase_iff]) (by grind)
            next =>
              refine Reached.updTx (L := fun t tx' => got t tx' ∧ tx' = tx)
                (.refl ⟨hstart, tx, htx, hgot, rfl⟩) ?_ (by grind)
              grind [txOk_iff, txBase_iff, waiting_iff]
        next =>
          refine reached_stopSession _ (by grind) ?_
          grind [txBase_iff]

end core

/-! ### The work -/

section work
variable {i : TidNum} {s : State} (env : TidEnv)

/-- A flag that is found is cleared, and a function is called that keeps the invariant. -/
theorem testAndClear_spec (k : Todo) {test : TidAmpduTx → Bool}
    (clear : TidAmpduTx → TidAmpduTx) {f : State → State} {L : Tid → TidAmpduTx → Prop}
    (hcore : Core (s.tids i))
    (hk : ∀ t : Tid, t.todo k = t.tidTx.any test) (hclear : ∀ tx, test (clear tx) = false)
    (hlow : ∀ tx, ((clear tx).startCb = true → tx.startCb = true) ∧
      ((clear tx).wantStop = true → tx.wantStop = true) ∧
      ((clear tx).stopCb = true → tx.stopCb = true))
    (hL : ∀ t tx, TxOk t tx → L { t with tidTx := some (clear tx) } (clear tx))
    (hf : ∀ s, Live L (s.tids i) → Reached i s Core (f s)) :
    Reached i s Core (testAndClear i test clear f s) ∧
      (((testAndClear i test clear f s).tids i).todo k = true →
        (testAndClear i test clear f s).work = true) := by
  unfold testAndClear
  split
  next htest =>
    obtain ⟨tx, htx, -⟩ := (Option.any_eq_true _ _).mp htest
    have h : Reached i s (Live L) (s.updTx i clear) :=
      Reached.updTx (.refl (hcore.live_of_some htx)) hL hlow
    refine ⟨h.andThen (hf _), fun hraised => ((hf _ h.holds).todo k hraised).elim ?_ id⟩
    rw [hk, updTx_self]
    simp [Option.any_map, hclear]
  next htest => exact ⟨.refl hcore, fun hraised => absurd (hk _ ▸ hraised) htest⟩

theorem workFlags_spec (hcore : Core (s.tids i)) (hlive : (s.tids i).tidTx.isSome = true) :
    Reached i s Core (workFlags i env s) ∧
      Flags ((workFlags i env s).tids i) (workFlags i env s).work := by
  unfold workFlags
  dsimp only
  obtain ⟨h₁, hf₁⟩ := testAndClear_spec .startCb (fun tx => { tx with startCb := false }) hcore
    (fun _ => rfl) (fun _ => rfl) (by grind)
    (by grind [txOk_iff, txBase_iff, waiting_iff, preStartCb_iff])
    fun s => reached_startTxBaCb (s := s) (env.during 1)
  have h₂ := (Reached.refl h₁.holds).core_asyncs (env.during 0 1)
  obtain ⟨h₃, hf₃⟩ := testAndClear_spec .wantStop (fun tx => { tx with wantStop := false }) h₂.holds
    (fun _ => rfl) (fun _ => rfl) (by grind)
    (L := fun t tx => tx.wantStart = false ∧
      (tx.stopping = true → tx.operational = false ∧ (t.owesStop = true ∨ tx.stopCb = true)))
    (by grind [txOk_iff, txBase_iff])
    fun s h => reached_stopSession (s := s) (env.during 2) (by grind [Live]) (by grind [Live])
  have h₄ := (Reached.refl h₃.holds).core_asyncs (env.during 0 2)
  obtain ⟨h₅, hf₅⟩ := testAndClear_spec .stopCb (fun tx => { tx with stopCb := false }) h₄.holds
    (fun _ => rfl) (fun _ => rfl) (by grind) (by grind [txOk_iff, txBase_iff, waiting_iff])
    fun s => reached_stopTxBaCb (s := s) (env.during 3)
  have h₃₅ := h₄.toLocal.trans h₅.toLocal
  have h₁₅ := (h₂.toLocal.trans h₃.toLocal).trans h₃₅
  have h₀₅ := h₁.toLocal.trans h₁₅
  refine ⟨⟨h₀₅, h₅.holds⟩, fun k hk => ?_⟩
  cases k with
  | start =>
    obtain ⟨tx, htx⟩ := Option.isSome_iff_exists.mp hlive
    refine (h₀₅.todo .start hk).elim (fun hold => ?_) id
    rw [Tid.todo, hcore.tidStartTx_eq htx] at hold
    cases hold
  | startCb => exact (h₁₅.todo .startCb hk).elim (fun h => h₁₅.work (hf₁ h)) id
  | wantStop => exact (h₃₅.todo .wantStop hk).elim (fun h => h₃₅.work (hf₃ h)) id
  | stopCb => exact hf₅ hk

/-- **One TID in the work**: if the function goes on, nothing is left to do for it that is not
queued; if it returns, the work is queued. -/
theorem workTid_spec (hcore : Core (s.tids i)) :
    (∀ j, j ≠ i → Later (s.tids j) s.work ((workTid i env s).2.tids j) (workTid i env s).2.work) ∧
    Core ((workTid i env s).2.tids i) ∧
    ((workTid i env s).1 = true → (workTid i env s).2.work = true) ∧
    ((workTid i env s).1 = false →
      Flags ((workTid i env s).2.tids i) (workTid i env s).2.work) := by
  have h₀ := (Reached.refl hcore).core_asyncs (env.during 0 0)
  unfold workTid
  dsimp only
  generalize asyncs s (env.during 0 0) = s₀ at h₀ ⊢
  obtain ⟨h₀, hc₀⟩ := h₀
  split
  next tx hstart =>
    obtain ⟨hnone, token, rfl⟩ := hc₀.fresh tx hstart
    have h₁ : Reached i s₀ (· = { s₀.tids i with txqStop := true })
        (s₀.upd i fun t => { t with txqStop := true }) :=
      Reached.upd (P := (· = s₀.tids i)) (.refl rfl) (fun _ ht => by rw [ht]) fun _ _ _ => id
    generalize (s₀.upd i fun t => { t with txqStop := true }) = s₁ at h₁ ⊢
    obtain ⟨h₁, ht₁⟩ := h₁
    have h₀₁ := h₀.trans h₁
    split
    -- fragments: the session stays where it is
    next =>
      have hc₁ : Core (s₁.tids i) := by
        exact ⟨by grind [core_iff], by grind, by grind⟩
      have h₂ := (Reached.refl hc₁).core_asyncs (env.during 0 1)
      refine ⟨fun j hj => ?_, h₂.holds, fun _ => rfl, nofun⟩
      exact ((h₀₁.trans h₂.toLocal).others j hj).trans (.refl _ fun _ => rfl)
    -- the session goes live
    next =>
      generalize hs₂ : (s₁.upd i fun t => { t with
        tidStartTx := none, tidTx := if t.tidTx.isSome then t.tidTx else some (freshTx token) }) = s₂
      have ht₂ : s₂.tids i = { s₀.tids i with
          tidStartTx := none, tidTx := some (freshTx token), txqStop := true } := by
        rw [← hs₂, upd_self, ht₁]
        simp [hnone]
      have h₃ := reached_handleStart (s := s₂) (i := i) (env.during 1)
        ⟨by rw [ht₂], freshTx token, by rw [ht₂], rfl⟩ env.ret
      refine ⟨fun j hj => ?_, h₃.holds, nofun, fun _ k hk => (h₃.todo k hk).elim ?_ id⟩
      · refine Later.trans ?_ (h₃.others j hj)
        rw [← hs₂, upd_of_ne hj]
        exact h₀₁.others j hj
      · rw [ht₂]
        cases k <;> exact nofun
  next hstart =>
    split
    next hnone =>
      have hnone : (s₀.tids i).tidTx = none := by simpa using hnone
      refine ⟨h₀.others, hc₀, nofun, fun _ k hk => ?_⟩
      cases k <;> simp [Tid.todo, hstart, hnone] at hk
    next hlive =>
      obtain ⟨h, hf⟩ := workFlags_spec env hc₀ (by simpa [Option.isSome_iff_ne_none] using hlive)
      exact ⟨(h₀.trans h.toLocal).others, h.holds, nofun, fun _ => hf⟩

end work

/-! ### The invariant of a station -/

def Inv (s : State) : Prop := ∀ j, Core (s.tids j) ∧ Flags (s.tids j) s.work

theorem init_inv : Inv init := by
  refine fun j => ⟨⟨nofun, fun _ _ => rfl, nofun⟩, fun k hk => ?_⟩
  cases k <;> exact absurd hk nofun

section inv
variable {i : TidNum} {s s' : State} {t t' : Tid} {w w' : Bool}

theorem Flags.later (h : Flags t w) (hl : Later t w t' w') : Flags t' w' :=
  fun k hk => (hl.todo k hk).elim (fun hold => hl.work (h k hold)) id

theorem Reached.inv (h : Reached i s Core s') (hinv : Inv s) : Inv s' := by
  intro j
  by_cases hj : j = i
  · subst hj
    exact ⟨h.holds, fun k hk => (h.todo k hk).elim (fun hold => h.work ((hinv j).2 k hold)) id⟩
  · exact ⟨(hinv j).1.later (h.others j hj), (hinv j).2.later (h.others j hj)⟩

/-- **The loop over the TIDs.**  The flags of the TIDs that are still to come need no work queued. -/
theorem workTids_inv (env : TidNum → TidEnv) (l : List TidNum) (hcore : ∀ j, Core (s.tids j))
    (hflags : ∀ j, j ∉ l → Flags (s.tids j) s.work) : Inv (workTids env l s) := by
  induction l generalizing s with
  | nil => exact fun j => ⟨hcore j, hflags j List.not_mem_nil⟩
  | cons i rest ih =>
    obtain ⟨hothers, hi, hreturn, hgo⟩ := workTid_spec (env i) (hcore i)
    have hcore' : ∀ j, Core ((workTid i (env i) s).2.tids j) := by
      intro j
      by_cases hj : j = i
      · exact hj ▸ hi
      · exact (hcore j).later (hothers j hj)
    unfold workTids
    dsimp only
    split
    next hr => exact fun j => ⟨hcore' j, fun _ _ => hreturn hr⟩
    rename_i hr
    refine ih hcore' fun j hj => ?_
    by_cases hji : j = i
    · exact hji ▸ hgo (by simpa using hr)
    · exact (hflags j (by simp [hji, hj])).later (hothers j hji)

/-- **The work** establishes what it does not find: its flag is cleared when it starts. -/
theorem baSessionWork_inv (env : TidNum → TidEnv) (hinv : Inv s) : Inv (baSessionWork env s) :=
  workTids_inv env _ (fun j => (hinv j).1) fun j hj => absurd (List.mem_finRange j) hj

theorem Inv.outstanding (hinv : Inv s) (hheld : HeldBack (s.tids i)) : Outstanding s i := by
  obtain ⟨hcore, hflags⟩ := hinv i
  cases htx : (s.tids i).tidTx with
  | none =>
    cases hstart : (s.tids i).tidStartTx with
    | none => grind [HeldBack, hcore.idle htx hstart]
    | some tx =>
      have hsome : (s.tids i).tidStartTx.isSome = true := by rw [hstart]; rfl
      exact .inl ⟨hflags .start hsome, .inl hsome⟩
  | some tx =>
    have hok := hcore.live tx htx
    -- a raised flag is work to do, and the work is queued
    have hflag : tx.startCb = true ∨ tx.wantStop = true ∨ tx.stopCb = true → Outstanding s i := by
      intro hf
      refine .inl ⟨?_, .inr ⟨tx, htx, hf⟩⟩
      obtain hf | hf | hf := hf
      · exact hflags .startCb (by rw [Tid.todo, htx]; exact hf)
      · exact hflags .wantStop (by rw [Tid.todo, htx]; exact hf)
      · exact hflags .stopCb (by rw [Tid.todo, htx]; exact hf)
    have hdebt : tx.addbaRespTimer = true ∨ (s.tids i).owesStart = true ∨
        (s.tids i).owesStop = true → Outstanding s i := fun h => .inr ⟨tx, htx, h⟩
    grind [HeldBack, txOk_iff, txBase_iff, waiting_iff]

end inv

/-! ### Runs -/

/-- A session has not started, but its queue is stopped: the work waits for fragments. -/
def WaitsForFrags (t : Tid) : Prop := t.tidStartTx.isSome = true ∧ t.txqStop = true

/-- No DELBA comes for a session that waits for fragments, and no acceptance comes too early. -/
def Timely (s : State) : Event → Prop
  | .addbaResp i r _ => ¬TooEarly (s.tids i) r
  | .delba i _ => ¬WaitsForFrags (s.tids i)
  | _ => True

instance (s : State) (ev : Event) : Decidable (Timely s ev) := by
  cases ev <;> dsimp only [Timely, TooEarly, WaitsForFrags] <;> infer_instance

theorem step_inv (s : State) (ev : Event) (out : Unit) (s' : State)
    (h : step s ev = some (out, s')) (htimely : Timely s ev) (hinv : Inv s) : Inv s' := by
  cases ev with
  | async a =>
    cases h
    exact fun j => ⟨(hinv j).1.later (async_later s a j), (hinv j).2.later (async_later s a j)⟩
  | work env =>
    simp only [step] at h
    split at h <;> cases h
    exact baSessionWork_inv env hinv
  | addbaResp i r e =>
    cases h
    exact (reached_processAddbaResp e (hinv i).1 htimely).inv hinv
  | delba i e =>
    cases h
    obtain ⟨hcore, -⟩ := hinv i
    refine (reached_stopSession e (fun hnone => ?_) fun tx htx => ?_).inv hinv
    · cases hstart : (s.tids i).tidStartTx with
      | none => exact hcore.idle hnone hstart
      | some tx =>
        by_contra hstop
        exact htimely ⟨by rw [hstart]; rfl, by simpa using hstop⟩
    · exact ⟨(hcore.live tx htx).started, (hcore.live tx htx).stopping⟩

end Iwlwifi.TxBa
