import Iwlwifi.TxBaLive

/-! # What blocks a TID

Two events break the invariant of `TxBaLive`, and each of them leads to a TID that is held back with
nothing outstanding.

* **A DELBA for a session that waits for fragments.**  `__ieee80211_stop_tx_ba_session` frees the
  session of `tid_start_tx`, but nothing starts the queue again that the work has stopped.
* **An acceptance before the request has been sent.**  It sets `HT_AGG_STATE_RESPONSE_RECEIVED`.  The
  request that is sent later is then not answered by anything: the timer finds the response received,
  and a repeated response is taken for a duplicate.

The runs that show this are quiet: no asynchronous event happens inside a function, and no TID has
fragments.  The functions then change one TID only. -/

namespace Iwlwifi.TxBa

/-! ### Quiet functions -/

def quiet : Interleaving := fun _ => []

def quietEnv : TidEnv := ⟨false, .error, fun _ => quiet⟩

section quiet
variable {i j : TidNum} {s : State}

@[simp] theorem asyncs_quiet (k : ℕ) : asyncs s (quiet k) = s := rfl

theorem quiet_shift (k : ℕ) : (fun n => quiet (n + k)) = quiet := rfl

theorem updTx_of_ne {g : TidAmpduTx → TidAmpduTx} (h : j ≠ i) :
    (s.updTx i g).tids j = s.tids j :=
  upd_of_ne h

section
variable (h : j ≠ i)
include h

theorem sendAddbaWithTimeout_quiet :
    (sendAddbaWithTimeout i quiet s).tids j = s.tids j := by
  unfold sendAddbaWithTimeout
  split
  · rfl
  split
  · rfl
  · simp [upd_of_ne h, updTx_of_ne h]

theorem aggTxOperational_quiet : (aggTxOperational i quiet s).tids j = s.tids j := by
  simp [aggTxOperational, aggStartTxq, upd_of_ne h, updTx_of_ne h]

theorem stopSession_quiet : (stopSession i quiet s).tids j = s.tids j := by
  unfold stopSession
  dsimp only
  split
  · exact upd_of_ne h
  split
  · exact upd_of_ne h
  split
  · rw [upd_of_ne h, upd_of_ne h]
  · simp [upd_of_ne h, updTx_of_ne h]

theorem handleStart_quiet (ret : DrvResult) :
    (handleStart i quiet ret s).tids j = s.tids j := by
  unfold handleStart
  cases ret <;>
    simp [quiet_shift, sendAddbaWithTimeout_quiet h, aggStartTxq, upd_of_ne h, updTx_of_ne h]

theorem startTxBaCb_quiet : (startTxBaCb i quiet s).tids j = s.tids j := by
  unfold startTxBaCb
  split
  · rfl
  split
  · rfl
  dsimp only
  split
  · exact updTx_of_ne h
  split
  · exact updTx_of_ne h
  split
  · exact (sendAddbaWithTimeout_quiet h).trans (updTx_of_ne h)
  split
  · exact (aggTxOperational_quiet h).trans (updTx_of_ne h)
  · exact updTx_of_ne h

theorem stopTxBaCb_quiet : (stopTxBaCb i quiet s).tids j = s.tids j := by
  unfold stopTxBaCb
  split
  · rfl
  split
  · rfl
  · simp [aggStartTxq, upd_of_ne h]

theorem testAndClear_quiet {test : TidAmpduTx → Bool} {clear : TidAmpduTx → TidAmpduTx}
    {f : State → State} (hf : ∀ s : State, (f s).tids j = s.tids j) :
    (testAndClear i test clear f s).tids j = s.tids j := by
  unfold testAndClear
  split
  · exact (hf _).trans (updTx_of_ne h)
  · rfl

theorem workFlags_quiet : (workFlags i quietEnv s).tids j = s.tids j := by
  exact (testAndClear_quiet h fun _ => stopTxBaCb_quiet h).trans
    ((testAndClear_quiet h fun _ => stopSession_quiet h).trans
      (testAndClear_quiet h fun _ => startTxBaCb_quiet h))

theorem workTid_quiet :
    (workTid i quietEnv s).1 = false ∧ (workTid i quietEnv s).2.tids j = s.tids j := by
  cases hstart : (s.tids i).tidStartTx with
  | some tx => simp [workTid, quietEnv, hstart, handleStart_quiet h, upd_of_ne h]
  | none =>
    cases htx : (s.tids i).tidTx with
    | none => simp [workTid, quietEnv, hstart, htx]
    | some tx =>
      have hwork : workTid i quietEnv s = (false, workFlags i quietEnv s) := by
        simp [workTid, quietEnv, hstart, htx]
      rw [hwork]
      exact ⟨rfl, workFlags_quiet h⟩

end

theorem workTids_quiet {l : List TidNum} (h : j ∉ l) :
    (workTids (fun _ => quietEnv) l s).tids j = s.tids j := by
  induction l generalizing s with
  | nil => rfl
  | cons i rest ih =>
    obtain ⟨hji, hrest⟩ : j ≠ i ∧ j ∉ rest := by simpa using h
    obtain ⟨hgo, hj⟩ := workTid_quiet (s := s) hji
    rw [workTids, hgo]
    exact (ih hrest).trans hj

end quiet

/-! ### Untimely events -/

section untimely
variable {i : TidNum} {s : State} {tx : TidAmpduTx}

theorem delba_waitsForFrags (hinv : Inv s) (h : WaitsForFrags (s.tids i)) (e : Interleaving) :
    HeldBack ((stopSession i e s).tids i) ∧ ¬Outstanding (stopSession i e s) i := by
  obtain ⟨hstart, hstop⟩ := h
  obtain ⟨tx, htx⟩ := Option.isSome_iff_exists.mp hstart
  have hnone : (s.tids i).tidTx = none := ((hinv i).1.fresh tx htx).1
  have hend : stopSession i e s = s.upd i fun t => { t with tidStartTx := none } := by
    simp [stopSession, hnone]
  have hidle : ((stopSession i e s).tids i).tidTx = none := by simp [hend, hnone]
  refine ⟨.inl (by simp [hend, hstop]), ?_⟩
  rintro (⟨-, hwork | ⟨tx', htx', -⟩⟩ | ⟨tx', htx', -⟩)
  · simp [hend] at hwork
  · simp [hidle] at htx'
  · simp [hidle] at htx'

/-- A session with a response that is not operational. -/
structure Answered (t : Tid) (tx : TidAmpduTx) : Prop where
  tidStartTx : t.tidStartTx = none
  tidTx : t.tidTx = some tx
  owesStop : t.owesStop = false
  responseReceived : tx.responseReceived = true
  operational : tx.operational = false
  stopping : tx.stopping = false
  wantStop : tx.wantStop = false

theorem processAddbaResp_tooEarly {r : AddbaResp} (hinv : Inv s) (h : TooEarly (s.tids i) r) :
    ∃ tx, Answered ((processAddbaResp i quiet r s).tids i) tx ∧
      tx.drvReady = false ∧ tx.sentAddba = false := by
  obtain ⟨tx, htx, htoken, hacc, hs, hws, hresp, hsent⟩ := h
  obtain ⟨hcore, -⟩ := hinv i
  have hok := hcore.live tx htx
  have hop : tx.operational = false := by
    by_contra hop
    rw [(hok.running hs (by simpa using hop)).2] at hresp
    cases hresp
  have hready : tx.drvReady = false := by
    obtain hw | hwait := hok.waiting hs hop
    · rw [hws] at hw
      cases hw
    · by_contra hready
      rw [(hwait.ready (by simpa using hready)).1] at hsent
      cases hsent
  have hstart := hcore.tidStartTx_eq htx
  have howes := hok.owed hs
  refine ⟨{ tx with
    addbaRespTimer := false, responseReceived := true,
    sessionTimer := decide (r.timeout ≠ 0) || tx.sessionTimer }, ⟨?_, ?_, ?_, rfl, hop, hs, hws⟩,
    hready, hsent⟩ <;>
  · by_cases ht : r.timeout = 0 <;>
      simp [processAddbaResp, htx, htoken, hws, hs, hacc, hresp, hready, ht, hstart, howes]

theorem startTxBaCbIrqsafe_answered (h : Answered (s.tids i) tx) :
    Answered ((startTxBaCbIrqsafe s i).tids i) { tx with startCb := true } ∧
      ((startTxBaCbIrqsafe s i).tids i).owesStart = false ∧
      (startTxBaCbIrqsafe s i).work = true := by
  refine ⟨⟨?_, ?_, ?_, h.responseReceived, h.operational, h.stopping, h.wantStop⟩, ?_, ?_⟩ <;>
    simp [startTxBaCbIrqsafe, h.tidTx, h.tidStartTx, h.owesStop]

theorem workTid_answered (h : Answered (s.tids i) tx) (hready : tx.drvReady = false)
    (hsent : tx.sentAddba = false) (hcb : tx.startCb = true) :
    (workTid i quietEnv s).1 = false ∧
      ∃ tx', Answered ((workTid i quietEnv s).2.tids i) tx' ∧ tx'.startCb = false ∧
        tx'.stopCb = false ∧ tx'.addbaRespTimer = true ∧
        ((workTid i quietEnv s).2.tids i).owesStart = (s.tids i).owesStart := by
  have hwork : workTid i quietEnv s = (false, workFlags i quietEnv s) := by
    simp [workTid, quietEnv, h.tidStartTx, h.tidTx]
  -- a stop callback that nobody owes is ignored
  have hflags : (workFlags i quietEnv s).tids i = { s.tids i with
      tidTx := some { tx with
        startCb := false, drvReady := true, addbaRespTimer := true, sentAddba := true,
        stopCb := false }
      addbaReqNum := (s.tids i).addbaReqNum + 1 } := by
    cases hstop : tx.stopCb <;>
      simp [workFlags, testAndClear, startTxBaCb, sendAddbaWithTimeout, stopTxBaCb, quietEnv,
        h.tidTx, hready, hsent, hcb, h.stopping, h.wantStop, hstop]
  rw [hwork]
  refine ⟨rfl, _, ⟨?_, congrArg Tid.tidTx hflags, ?_, h.responseReceived, h.operational,
    h.stopping, h.wantStop⟩, rfl, rfl, rfl, ?_⟩
  · rw [hflags]
    exact h.tidStartTx
  · rw [hflags]
    exact h.owesStop
  · rw [hflags]

theorem workTids_answered {l : List TidNum} (hi : i ∈ l) (hl : l.Nodup)
    (h : Answered (s.tids i) tx) (hready : tx.drvReady = false) (hsent : tx.sentAddba = false)
    (hcb : tx.startCb = true) :
    ∃ tx', Answered ((workTids (fun _ => quietEnv) l s).tids i) tx' ∧ tx'.startCb = false ∧
      tx'.stopCb = false ∧ tx'.addbaRespTimer = true ∧
      ((workTids (fun _ => quietEnv) l s).tids i).owesStart = (s.tids i).owesStart := by
  induction l generalizing s with
  | nil => cases hi
  | cons j rest ih =>
    obtain ⟨hj, hrest⟩ := List.nodup_cons.mp hl
    by_cases hij : i = j
    · subst hij
      obtain ⟨hgo, hafter⟩ := workTid_answered h hready hsent hcb
      rwa [workTids, hgo, if_neg Bool.false_ne_true, workTids_quiet hj]
    · obtain ⟨hgo, hkeep⟩ := workTid_quiet (s := s) hij
      rw [workTids, hgo, if_neg Bool.false_ne_true, ← hkeep]
      exact ih (List.mem_of_ne_of_mem hij hi) hrest (hkeep ▸ h)

theorem respTimer_answered (h : Answered (s.tids i) tx) (hcb : tx.startCb = false)
    (hstop : tx.stopCb = false) (htimer : tx.addbaRespTimer = true)
    (howes : (s.tids i).owesStart = false) :
    HeldBack ((addbaRespTimerExpired s i).tids i) ∧ ¬Outstanding (addbaRespTimerExpired s i) i := by
  have hafter : (addbaRespTimerExpired s i).tids i =
      { s.tids i with tidTx := some { tx with addbaRespTimer := false } } := by
    simp [addbaRespTimerExpired, h.tidTx, htimer, h.responseReceived]
  refine ⟨.inr ⟨_, congrArg Tid.tidTx hafter, h.operational⟩, ?_⟩
  rintro (⟨-, hwork | ⟨tx', htx', hflag⟩⟩ | ⟨tx', htx', hout⟩)
  · simp [hafter, h.tidStartTx] at hwork
  · rw [hafter] at htx'
    cases htx'
    simp [hcb, hstop, h.wantStop] at hflag
  · rw [hafter] at htx' hout
    cases htx'
    simp [howes, h.owesStop] at hout

end untimely

/-! ### The theorem -/

/-- **No TID is blocked** if no DELBA comes for a session that waits for fragments and no acceptance
before the request has been sent: a TID that is held back has something outstanding.  Such a DELBA
blocks its TID at once, and such an acceptance is the first event of a run that does. -/
theorem tx_ba_never_blocked {s : State} {ls : List (Label State Event Unit)}
    (hrun : Run step init ls s) (htimely : ∀ l ∈ ls, Timely l.pre l.act) (i : TidNum) :
    (HeldBack (s.tids i) → Outstanding s i) ∧
    (∀ e, ¬Timely s (.delba i e) → ∃ s', step s (.delba i e) = some ((), s') ∧
      HeldBack (s'.tids i) ∧ ¬Outstanding s' i) ∧
    (∀ r e, ¬Timely s (.addbaResp i r e) → ∃ s₁ ls' s',
      step s (.addbaResp i r fun _ => []) = some ((), s₁) ∧ Run step s₁ ls' s' ∧
      HeldBack (s'.tids i) ∧ ¬Outstanding s' i) := by
  obtain ⟨hinv, -⟩ := Run.induct (I := Inv) (C := fun l => Timely l.pre l.act) step_inv hrun htimely
    init_inv
  refine ⟨hinv.outstanding, fun e h => ?_, fun r e h => ?_⟩
  · exact ⟨_, rfl, delba_waitsForFrags hinv (not_not.mp h) e⟩
  obtain ⟨tx, hans, hready, hsent⟩ := processAddbaResp_tooEarly hinv (not_not.mp h)
  obtain ⟨hans₂, howes, hwork⟩ := startTxBaCbIrqsafe_answered hans
  obtain ⟨tx', hans₃, hcb, hstop, htimer, howes₃⟩ := workTids_answered (List.mem_finRange i)
    (List.nodup_finRange 16) (s := { startTxBaCbIrqsafe (processAddbaResp i quiet r s) i with
      work := false }) hans₂ hready hsent rfl
  have hblocked := respTimer_answered hans₃ hcb hstop htimer (howes₃.trans howes)
  have hstep : step (startTxBaCbIrqsafe (processAddbaResp i quiet r s) i)
      (.work fun _ => quietEnv) = some ((), baSessionWork (fun _ => quietEnv)
        (startTxBaCbIrqsafe (processAddbaResp i quiet r s) i)) := if_pos hwork
  exact ⟨_, _, _, rfl, .cons (a := .async (.startCb i)) rfl (.cons hstep
    (.cons (a := .async (.respTimer i)) rfl (.nil _))), hblocked⟩

def startRequest : StartRequest := ⟨true, false, true⟩

def acceptance : AddbaResp := ⟨1, true, 64, 0⟩

def found (frags : Bool) (ret : DrvResult) : TidNum → TidEnv := fun _ => ⟨frags, ret, fun _ => quiet⟩

/-- A session is started while there are fragments, and its request is accepted. -/
theorem tx_ba_never_blocked_accepted : ∃ (ls : List (Label State Event Unit)) (s : State),
    Run step init ls s ∧ (∀ l ∈ ls, Timely l.pre l.act) ∧ HeldBack (s.tids 0) ∧
      Outstanding s 0 := by
  obtain ⟨ls, s, hrun, -, htimely, hheld⟩ : ∃ ls s, Run step init ls s ∧ ls.map Label.act =
      [.async (.start 0 startRequest), .work (found true .success), .work (found false .success),
        .addbaResp 0 acceptance quiet] ∧
      (∀ l ∈ ls, Timely l.pre l.act) ∧ HeldBack (s.tids 0) := exists_run (by decide +kernel)
  exact ⟨ls, s, hrun, htimely, hheld, (tx_ba_never_blocked hrun htimely 0).1 hheld⟩

/-- A DELBA while a new session waits for fragments, and an acceptance that comes before the request
and is repeated after it. -/
theorem tid_left_blocked :
    (∃ ls s, Run step init ls s ∧
      ls.map Label.act = [.async (.start 0 startRequest), .work (found true .success),
        .delba 0 quiet] ∧ HeldBack (s.tids 0) ∧ ¬Outstanding s 0) ∧
    (∃ ls s, Run step init ls s ∧
      ls.map Label.act = [.async (.start 0 startRequest), .work (found false .delayAddba),
        .addbaResp 0 acceptance quiet, .async (.startCb 0), .work (found false .success),
        .addbaResp 0 acceptance quiet] ∧ HeldBack (s.tids 0) ∧ ¬Outstanding s 0) := by
  constructor
  · exact exists_run (by decide +kernel)
  · exact exists_run (by decide +kernel)

/-- **Frames are aggregated with consent only**: in every interleaving an operational session is the
only one of its TID, the recipient has accepted it, and nothing stops it or its queue. -/
theorem tx_ba_operational_accepted {s : State} {ls : List (Label State Event Unit)}
    (hrun : Run step init ls s) (htimely : ∀ l ∈ ls, Timely l.pre l.act) {i : TidNum}
    {tx : TidAmpduTx} (htx : (s.tids i).tidTx = some tx) (hop : tx.operational = true) :
    tx.responseReceived = true ∧ tx.stopping = false ∧ (s.tids i).tidStartTx = none ∧
      (s.tids i).txqStop = false ∧ (s.tids i).owesStop = false := by
  obtain ⟨hinv, -⟩ := Run.induct (I := Inv) (C := fun l => Timely l.pre l.act) step_inv hrun htimely
    init_inv
  have hok := (hinv i).1.live tx htx
  have hs : tx.stopping = false := by
    by_contra hs
    cases hop.symm.trans (hok.stopping (by simpa using hs)).1
  obtain ⟨hstop, hresp⟩ := hok.running hs hop
  exact ⟨hresp, hs, (hinv i).1.tidStartTx_eq htx, hstop, hok.owed hs⟩

theorem tx_ba_operational_accepted_immediate : ∃ (ls : List (Label State Event Unit)) (s : State)
    (tx : TidAmpduTx), Run step init ls s ∧ (s.tids 0).tidTx = some tx ∧
      tx.responseReceived = true := by
  obtain ⟨ls, s, hrun, -, htimely, hop⟩ : ∃ ls s, Run step init ls s ∧ ls.map Label.act =
      [.async (.start 0 startRequest), .work (found false .immediate),
        .addbaResp 0 acceptance quiet] ∧ (∀ l ∈ ls, Timely l.pre l.act) ∧
      (s.tids 0).tidTx.any (·.operational) := exists_run (by decide +kernel)
  obtain ⟨tx, htx, hop⟩ := (Option.any_eq_true _ _).mp hop
  exact ⟨ls, s, tx, hrun, htx, (tx_ba_operational_accepted hrun htimely htx hop).1⟩

end Iwlwifi.TxBa
