import Iwlwifi.CmdQueue

/-! # The transmit queues of data frames

Frames are put on a data queue by `iwl_trans_pcie_tx` (`iwl_txq_gen2_tx` on newer devices) and
taken off it by `iwl_pcie_reclaim` (`pcie/tx.c`, `pcie/tx-gen2.c`).

* **State** (`DataQueue`).  The pointers, the skb of each entry, the overflow queue, the bit
  `queue_stopped`, and the one reclaim in progress: how far it is (`Phase`), the list of frames it
  drains (`overflow_skbs`) and the list it hands back (`skbs`).
* **Steps** (`dqStep`).  A transmission is one step, under `txq->lock`.  A reclaim is cut where it
  does not hold that lock: reading the pointers, freeing one entry, publishing `read_ptr` and
  splicing the overflow queue, re-sending one frame of the list, reading the space, waking the
  queue, clearing `overflow_tx`.
* **Faults** (`TxFault`).  A transmission can fail before it takes the lock, or when the TFD is
  built; the older function then leaves its skb in the entry past the ring. -/

namespace Iwlwifi.Iwl.Pcie

open Function

/-- Why a transmission fails: the firmware is not alive (`iwl_trans_tx`), the skb cannot be
linearized, the TFD cannot be built. -/
inductive TxFault
  | none
  | notAlive
  | linearize
  | buildTfd
deriving DecidableEq

/-- What became of a transmission.  The caller gets 0 in the first two cases. -/
inductive TxOut
  | ring (pos : ℕ)
  | overflow
  | error (e : Errno)
deriving DecidableEq

/-- How far the reclaim in progress is. -/
inductive Phase
  | idle
  | freeing (tfdNum txqReadPtr : ℕ) (isFlush : Bool)
  | draining
  | waking
  | finishing
deriving DecidableEq

/-- A data queue with skbs in `α`. -/
structure DataQueue (α : Type) where
  txq : Txq
  entries : ℕ → Option α := fun _ => none
  overflowQ : List α := []
  stopped : Bool := false
  queueUsed : Bool := true
  overflowTx : Bool := false
  phase : Phase := .idle
  overflowSkbs : List α := []
  skbs : List α := []
  /-- the lists handed back by the reclaims before -/
  returned : List α := []

variable {α : Type}

/-- `iwl_txq_stop`. -/
def txqStop (s : DataQueue α) : DataQueue α := { s with stopped := true }

/-- `iwl_trans_pcie_wake_queue`. -/
def wakeQueue (s : DataQueue α) : DataQueue α := { s with stopped := false }

/-- The entry for the frame at `write_ptr`; only the newer function folds the index. -/
def entryIdx (trans : Trans) (txq : Txq) : ℕ :=
  if trans.gen2 then getCmdIndex txq txq.writePtr else txq.writePtr

/-- Set up the entry and the TFD at `write_ptr`. -/
def putTfd (trans : Trans) (skb : α) (f : TxFault) (s : DataQueue α) : TxOut × DataQueue α :=
  let idx := entryIdx trans s.txq
  if f = .buildTfd then
    (.error .eperm,
      { s with entries := update s.entries idx (if trans.gen2 then none else some skb) })
  else
    (.ring s.txq.writePtr,
      { s with
        entries := update s.entries idx (some skb)
        txq := { s.txq with writePtr := txqIncWrap trans s.txq.writePtr } })

/-- `iwl_trans_pcie_tx` and `iwl_txq_gen2_tx`. -/
def pcieTx (trans : Trans) (skb : α) (f : TxFault) (s : DataQueue α) : TxOut × DataQueue α :=
  if !s.queueUsed then (.error .einval, s)
  else if f = .linearize then (.error .enomem, s)
  else if txqSpace trans s.txq < s.txq.highMark then
    let s := txqStop s
    -- don't put the packet on the ring, if there is no room
    if txqSpace trans s.txq < 3 then (.overflow, { s with overflowQ := s.overflowQ ++ [skb] })
    else putTfd trans skb f s
  else putTfd trans skb f s

/-- `iwl_trans_tx`. -/
def transTx (trans : Trans) (skb : α) (f : TxFault) (s : DataQueue α) : TxOut × DataQueue α :=
  if f = .notAlive then (.error .eio, s) else pcieTx trans skb f s

/-- `iwl_pcie_reclaim` up to its loop; `dirty` says that the caller's list is not empty. -/
def reclaimBegin (trans : Trans) (ssn : ℕ) (isFlush dirty : Bool) (s : DataQueue α) :
    DataQueue α :=
  let tfdNum := getCmdIndex s.txq ssn
  let txqReadPtr := s.txq.readPtr
  let txqWritePtr := s.txq.writePtr
  if isFlush && decide (txqWritePtr = txqReadPtr) then s
  else if !s.queueUsed then s
  else if getCmdIndex s.txq txqReadPtr = tfdNum then s
  else if !txqUsed s.txq (txqDecWrap trans tfdNum) txqReadPtr txqWritePtr then s
  else if dirty then s
  else
    { s with
      phase := .freeing tfdNum txqReadPtr isFlush
      skbs := []
      returned := s.returned ++ s.skbs }

/-- One iteration of the loop of `iwl_pcie_reclaim`. -/
def reclaimFree (trans : Trans) (tfdNum txqReadPtr : ℕ) (isFlush : Bool) (s : DataQueue α) :
    DataQueue α :=
  let readPtr := getCmdIndex s.txq txqReadPtr
  let next := Phase.freeing tfdNum (txqIncWrap trans txqReadPtr) isFlush
  match s.entries readPtr with
  | none => { s with phase := next }
  | some skb =>
    { s with
      skbs := s.skbs ++ [skb]
      entries := update s.entries readPtr none
      phase := next }

/-- The locked section of `iwl_pcie_reclaim` after its loop.  Splicing puts the frames in front of
those already on the list. -/
def reclaimPublish (trans : Trans) (txqReadPtr : ℕ) (isFlush : Bool) (s : DataQueue α) :
    DataQueue α :=
  let s := { s with txq := { s.txq with readPtr := txqReadPtr } }
  if decide (s.txq.lowMark < txqSpace trans s.txq) && s.stopped then
    { s with
      skbs := if isFlush then s.overflowQ ++ s.skbs else s.skbs
      overflowSkbs := if isFlush then [] else s.overflowQ
      overflowQ := []
      overflowTx := true
      phase := .draining }
  else { s with phase := .idle }

/-! ### The machine -/

inductive TxAction (α : Type)
  | tx (skb : α) (fault : TxFault)
  | reclaim (ssn : ℕ) (isFlush dirty : Bool)
  | free
  | publish
  | drain (fault : TxFault)
  | check
  | wake
  | finish
deriving DecidableEq

def dqStep (trans : Trans) (s : DataQueue α) : TxAction α → Option (Option TxOut × DataQueue α)
  | .tx skb f => some (some (transTx trans skb f s).1, (transTx trans skb f s).2)
  | .reclaim ssn isFlush dirty =>
    match s.phase with
    | .idle => some (none, reclaimBegin trans ssn isFlush dirty s)
    | _ => none
  | .free =>
    match s.phase with
    | .freeing tfdNum p isFlush =>
      if getCmdIndex s.txq p = tfdNum then none
      else some (none, reclaimFree trans tfdNum p isFlush s)
    | _ => none
  | .publish =>
    match s.phase with
    | .freeing tfdNum p isFlush =>
      if getCmdIndex s.txq p = tfdNum then some (none, reclaimPublish trans p isFlush s)
      else none
    | _ => none
  | .drain f =>
    match s.phase, s.overflowSkbs with
    | .draining, skb :: rest =>
      let s := { s with overflowSkbs := rest }
      some (some (transTx trans skb f s).1, (transTx trans skb f s).2)
    | _, _ => none
  | .check =>
    match s.phase, s.overflowSkbs with
    | .draining, [] =>
      -- read without the lock
      if s.txq.lowMark < txqSpace trans s.txq then some (none, { s with phase := .waking })
      else some (none, { s with phase := .finishing })
    | _, _ => none
  | .wake =>
    match s.phase with
    | .waking => some (none, { wakeQueue s with phase := .finishing })
    | _ => none
  | .finish =>
    match s.phase with
    | .finishing => some (none, { s with overflowTx := false, phase := .idle })
    | _ => none

/-! ### What a step can do -/

def NoRoom (trans : Trans) (txq : Txq) : Prop :=
  txqSpace trans txq < txq.highMark ∧ txqSpace trans txq < 3

instance (trans : Trans) (txq : Txq) : Decidable (NoRoom trans txq) :=
  inferInstanceAs (Decidable (_ ∧ _))

def TxFails (trans : Trans) (f : TxFault) (s : DataQueue α) : Prop :=
  f = .notAlive ∨ s.queueUsed = false ∨ f = .linearize ∨
    (f = .buildTfd ∧ ¬ NoRoom trans s.txq)

instance (trans : Trans) (f : TxFault) (s : DataQueue α) : Decidable (TxFails trans f s) :=
  inferInstanceAs (Decidable (_ ∨ _ ∨ _ ∨ (_ ∧ _)))

/-- The three results of a transmission. -/
inductive TxEffect (trans : Trans) (skb : α) (f : TxFault) (s : DataQueue α) :
    TxOut × DataQueue α → Prop
  | failed (e : Errno) (v : Option α) (st : Bool) : TxFails trans f s →
      (s.stopped = true → st = true) →
      TxEffect trans skb f s (.error e,
        { s with entries := update s.entries (entryIdx trans s.txq) v, stopped := st })
  | overflowed : ¬ TxFails trans f s → NoRoom trans s.txq →
      TxEffect trans skb f s
        (.overflow, { s with stopped := true, overflowQ := s.overflowQ ++ [skb] })
  | placed (st : Bool) : ¬ TxFails trans f s → ¬ NoRoom trans s.txq →
      (s.stopped = true → st = true) →
      TxEffect trans skb f s (.ring s.txq.writePtr,
        { s with
          entries := update s.entries (entryIdx trans s.txq) (some skb)
          txq := { s.txq with writePtr := txqIncWrap trans s.txq.writePtr }
          stopped := st })

variable {trans : Trans} {s : DataQueue α}

theorem TxEffect.unchanged {skb : α} {f : TxFault} (e : Errno) (h : TxFails trans f s) :
    TxEffect trans skb f s (.error e, s) := by
  have hs := @TxEffect.failed α trans skb f s e (s.entries (entryIdx trans s.txq)) s.stopped h id
  rwa [update_eq_self] at hs

theorem putTfd_effect {f : TxFault} (skb : α) {st : Bool} (hst : s.stopped = true → st = true)
    (hused : s.queueUsed = true) (h₁ : f ≠ .notAlive)
    (h₂ : f ≠ .linearize) (hroom : ¬ NoRoom trans s.txq) :
    TxEffect trans skb f s (putTfd trans skb f { s with stopped := st }) := by
  unfold putTfd
  split
  next hf => exact TxEffect.failed _ _ st (.inr (.inr (.inr ⟨hf, hroom⟩))) hst
  rename_i hf
  refine TxEffect.placed st ?_ hroom hst
  rintro (h | h | h | ⟨h, -⟩)
  · exact h₁ h
  · rw [hused] at h
    cases h
  · exact h₂ h
  · exact hf h

theorem transTx_effect (trans : Trans) (skb : α) (f : TxFault) (s : DataQueue α) :
    TxEffect trans skb f s (transTx trans skb f s) := by
  unfold transTx
  split
  next hf => exact .unchanged _ (.inl hf)
  rename_i hf
  unfold pcieTx
  dsimp only [txqStop]
  split
  next hused => exact .unchanged _ (.inr (.inl (by simpa using hused)))
  rename_i hused
  have hused : s.queueUsed = true := by simpa using hused
  split
  next hl => exact .unchanged _ (.inr (.inr (.inl hl)))
  rename_i hl
  split
  next hhigh =>
    split
    next h3 =>
      refine TxEffect.overflowed ?_ ⟨hhigh, h3⟩
      rintro (h | h | h | ⟨-, h⟩)
      · exact hf h
      · rw [hused] at h
        cases h
      · exact hl h
      · exact h ⟨hhigh, h3⟩
    next h3 => exact putTfd_effect skb (fun _ => rfl) hused hf hl (fun h => h3 h.2)
  next hhigh => exact putTfd_effect skb id hused hf hl (fun h => hhigh h.1)

/-- The steps of the machine by what they do. -/
inductive DqEffect (trans : Trans) (s : DataQueue α) :
    TxAction α → Option TxOut → DataQueue α → Prop
  | tx {skb : α} {f : TxFault} {o : TxOut} {s' : DataQueue α} :
      TxEffect trans skb f s (o, s') → DqEffect trans s (.tx skb f) (some o) s'
  | ignored {ssn : ℕ} {isFlush dirty : Bool} : s.phase = .idle →
      DqEffect trans s (.reclaim ssn isFlush dirty) none s
  | begun {ssn : ℕ} {isFlush dirty : Bool} : s.phase = .idle →
      txqUsed s.txq (txqDecWrap trans (getCmdIndex s.txq ssn)) s.txq.readPtr s.txq.writePtr = true →
      DqEffect trans s (.reclaim ssn isFlush dirty) none
        { s with
          phase := .freeing (getCmdIndex s.txq ssn) s.txq.readPtr isFlush
          skbs := []
          returned := s.returned ++ s.skbs }
  | freed {tfdNum p : ℕ} {isFlush : Bool} : s.phase = .freeing tfdNum p isFlush →
      getCmdIndex s.txq p ≠ tfdNum →
      DqEffect trans s .free none (reclaimFree trans tfdNum p isFlush s)
  | spliced {tfdNum p : ℕ} {isFlush : Bool} : s.phase = .freeing tfdNum p isFlush →
      s.txq.lowMark < txqSpace trans { s.txq with readPtr := p } → s.stopped = true →
      DqEffect trans s .publish none
        { s with
          txq := { s.txq with readPtr := p }
          skbs := if isFlush then s.overflowQ ++ s.skbs else s.skbs
          overflowSkbs := if isFlush then [] else s.overflowQ
          overflowQ := []
          overflowTx := true
          phase := .draining }
  | published {tfdNum p : ℕ} {isFlush : Bool} : s.phase = .freeing tfdNum p isFlush →
      ¬ (s.txq.lowMark < txqSpace trans { s.txq with readPtr := p } ∧ s.stopped = true) →
      DqEffect trans s .publish none
        { s with txq := { s.txq with readPtr := p }, phase := .idle }
  | drained {skb : α} {rest : List α} {f : TxFault} {o : TxOut} {s' : DataQueue α} :
      s.phase = .draining → s.overflowSkbs = skb :: rest →
      TxEffect trans skb f { s with overflowSkbs := rest } (o, s') →
      DqEffect trans s (.drain f) (some o) s'
  | checked : s.phase = .draining → s.overflowSkbs = [] →
      s.txq.lowMark < txqSpace trans s.txq →
      DqEffect trans s .check none { s with phase := .waking }
  | full : s.phase = .draining → s.overflowSkbs = [] →
      ¬ s.txq.lowMark < txqSpace trans s.txq →
      DqEffect trans s .check none { s with phase := .finishing }
  | woken : s.phase = .waking →
      DqEffect trans s .wake none { s with stopped := false, phase := .finishing }
  | finished : s.phase = .finishing →
      DqEffect trans s .finish none { s with overflowTx := false, phase := .idle }

theorem reclaimBegin_effect (ssn : ℕ) (isFlush dirty : Bool) (hp : s.phase = .idle) :
    DqEffect trans s (.reclaim ssn isFlush dirty) none
      (reclaimBegin trans ssn isFlush dirty s) := by
  unfold reclaimBegin
  dsimp only
  split
  · exact .ignored hp
  split
  · exact .ignored hp
  split
  · exact .ignored hp
  split
  · exact .ignored hp
  rename_i hused
  split
  · exact .ignored hp
  · exact .begun hp (by simpa using hused)

theorem dqStep_effect {s s' : DataQueue α} {a : TxAction α} {o : Option TxOut}
    (h : dqStep trans s a = some (o, s')) : DqEffect trans s a o s' := by
  cases a with simp only [dqStep] at h
  | tx skb f =>
    cases h
    exact .tx (transTx_effect trans skb f s)
  | reclaim ssn isFlush dirty =>
    split at h <;> cases h
    next hp => exact reclaimBegin_effect ssn isFlush dirty hp
  | free =>
    split at h
    next hp =>
      split at h <;> cases h
      next hne => exact .freed hp hne
    · cases h
  | publish =>
    split at h
    next hp =>
      split at h <;> cases h
      unfold reclaimPublish
      dsimp only
      split
      next hc =>
        rw [Bool.and_eq_true, decide_eq_true_eq] at hc
        exact .spliced hp hc.1 hc.2
      next hc =>
        rw [Bool.and_eq_true, decide_eq_true_eq] at hc
        exact .published hp hc
    · cases h
  | drain f =>
    split at h <;> cases h
    next hp ho => exact .drained hp ho (transTx_effect _ _ _ _)
  | check =>
    split at h
    next hp ho =>
      split at h <;> cases h
      next hc => exact .checked hp ho hc
      next hc => exact .full hp ho hc
    · cases h
  | wake =>
    split at h <;> cases h
    next hp => exact .woken hp
  | finish =>
    split at h <;> cases h
    next hp => exact .finished hp

end Iwlwifi.Iwl.Pcie
