import Iwlwifi.Transition
import Iwlwifi.Txq

/-! # The host command queue

Host commands are put on the command queue by `iwl_pcie_enqueue_hcmd` and taken off it by
`iwl_pcie_hcmd_complete`, when the response of the firmware arrives (`pcie/tx.c`).

* **State** (`CmdQueue`).  The queue pointers, the header and the flags of the command in each of
  the `n_window` entries, the claim on the NIC and the block count of the data queues.  A failing
  mapping or allocation is a choice of the environment (`Faults`).
* **Reclaim** (`cmdqReclaim`).  It folds the response index and `read_ptr` onto the window, tests
  the index with `iwl_txq_used` and steps both until it has passed the index.
* **Law** (`CmdqLaw`).  `iwl_txq_used` holds of the outstanding commands only, every response to
  one is accepted, and the response to the oldest one frees its slot: the window is not full
  (`cmdqLaw_iff`).  `iwl_txq_space` lets a synchronous command take the last entry, so along a run
  the law is a condition on the calls of `iwl_pcie_enqueue_hcmd` (`cmdq_law_iff_space`). -/

namespace Iwlwifi.Iwl.Pcie

open Iwlwifi.Ring

/-- The flags of a host command the queue looks at. -/
structure CmdFlags where
  async : Bool := false
  wantSkb : Bool := false
  blockTxqs : Bool := false
deriving DecidableEq

/-- `struct iwl_host_cmd`, without the data; `dup` says that a chunk is to be duplicated. -/
structure HostCmd where
  id : ℕ
  flags : CmdFlags := {}
  dup : Bool := false

/-- `iwl_cmd_opcode`. -/
def cmdOpcode (cmdid : ℕ) : ℕ := cmdid &&& 0xFF

/-- `iwl_cmd_groupid`. -/
def cmdGroupid (cmdid : ℕ) : ℕ := (cmdid &&& 0xFF00) >>> 8

/-- `SEQ_TO_QUEUE`. -/
def seqToQueue (s : ℕ) : ℕ := (s >>> 8) &&& 0x1f

/-- `QUEUE_TO_SEQ`. -/
def queueToSeq (q : ℕ) : ℕ := (q &&& 0x1f) <<< 8

/-- `SEQ_TO_INDEX`. -/
def seqToIndex (s : ℕ) : ℕ := s &&& 0xff

/-- `INDEX_TO_SEQ`. -/
def indexToSeq (i : ℕ) : ℕ := i &&& 0xff

/-- The header of the command in an entry and its `meta.flags`. -/
structure CmdEntry where
  groupId : ℕ := 0
  opcode : ℕ := 0
  sequence : ℕ := 0
  flags : CmdFlags := {}

/-- The command queue and what its functions touch. -/
structure CmdQueue where
  txq : Txq
  entries : ℕ → CmdEntry := fun _ => {}
  cmdHoldNicAwake : Bool := false
  /-- `block` of the data queues -/
  block : ℕ := 0

/-- `kmemdup` fails, a DMA mapping fails, the device is gone, the NIC does not wake up. -/
structure Faults where
  dupAlloc : Bool := false
  dmaMap : Bool := false
  transDead : Bool := false
  noNicAccess : Bool := false

/-- `iwl_pcie_set_cmd_in_flight`. -/
def setCmdInFlight (trans : Trans) (f : Faults) (s : CmdQueue) : Option Errno × CmdQueue :=
  if f.transDead then (some .enodev, s)
  else if !trans.apmgWakeUpWa then (none, s)
  else if f.noNicAccess then (some .eio, s)
  else (none, { s with cmdHoldNicAwake := true })

/-- `iwl_pcie_clear_cmd_in_flight`. -/
def clearCmdInFlight (trans : Trans) (s : CmdQueue) : CmdQueue :=
  if trans.apmgWakeUpWa then { s with cmdHoldNicAwake := false } else s

/-- `iwl_trans_pcie_block_txq_ptrs`. -/
def blockTxqPtrs (block : Bool) (s : CmdQueue) : CmdQueue :=
  if block then { s with block := s.block + 1 } else { s with block := s.block - 1 }

/-- The entries a command has to find free: an asynchronous one leaves an entry. -/
def spaceNeeded (flags : CmdFlags) : ℕ := if flags.async then 2 else 1

/-- `iwl_pcie_enqueue_hcmd`: an error or the index of the command. -/
def enqueueHcmd (trans : Trans) (cmd : HostCmd) (f : Faults) (s : CmdQueue) :
    Except Errno ℕ × CmdQueue :=
  let groupId := cmdGroupid cmd.id
  if !trans.wideCmdHeader && decide (1 < groupId) then (.error .einval, s)
  else if cmd.dup && f.dupAlloc then (.error .enomem, s)
  else if txqSpace trans s.txq < spaceNeeded cmd.flags then (.error .enospc, s)
  else
    let idx := getCmdIndex s.txq s.txq.writePtr
    let entry : CmdEntry :=
      { groupId := groupId, opcode := cmdOpcode cmd.id,
        sequence := queueToSeq trans.cmdQueue ||| indexToSeq s.txq.writePtr }
    if f.dmaMap then
      (.error .enomem, { s with entries := Function.update s.entries idx entry })
    else
      match setCmdInFlight trans f
          { s with entries := Function.update s.entries idx { entry with flags := cmd.flags } } with
      | (some e, s) => (.error e, s)
      | (none, s) =>
        let s := if cmd.flags.blockTxqs then blockTxqPtrs true s else s
        (.ok idx, { s with txq := { s.txq with writePtr := txqIncWrap trans s.txq.writePtr } })

/-- The variables of the loop of `iwl_pcie_cmdq_reclaim`. -/
structure ReclaimVars where
  r : ℕ
  readPtr : ℕ
  nfreed : ℕ := 0

/-- `for (; r != idx; r = inc(r))` of `iwl_pcie_cmdq_reclaim`. -/
def reclaimLoop (trans : Trans) (idx : ℕ) (v : ReclaimVars) : ReclaimVars :=
  whileLoop (fun v => decide (v.r ≠ idx))
    (fun v => ⟨txqIncWrap trans v.r, txqIncWrap trans v.readPtr, v.nfreed + 1⟩)
    trans.maxTfdQueueSize v

/-- What `iwl_pcie_cmdq_reclaim` reports: the warning about the index, or the number of entries
freed. -/
inductive Reclaimed
  | outOfRange
  | freed (nfreed : ℕ)
deriving DecidableEq

/-- `iwl_pcie_cmdq_reclaim`. -/
def cmdqReclaim (trans : Trans) (idx : ℕ) (s : CmdQueue) : Reclaimed × CmdQueue :=
  let idx := getCmdIndex s.txq idx
  let r := getCmdIndex s.txq s.txq.readPtr
  if trans.maxTfdQueueSize ≤ idx ∨ txqUsed s.txq idx s.txq.readPtr s.txq.writePtr = false then
    (.outOfRange, s)
  else
    let v := reclaimLoop trans (txqIncWrap trans idx) ⟨r, s.txq.readPtr, 0⟩
    let s := { s with txq := { s.txq with readPtr := v.readPtr } }
    (.freed v.nfreed, if s.txq.readPtr = s.txq.writePtr then clearCmdInFlight trans s else s)

/-- A response is for another queue, or the entries are reclaimed and the waiter of a synchronous
command is woken up. -/
inductive Completed
  | wrongQueue
  | done (r : Reclaimed) (wakeUp : Bool)
deriving DecidableEq

/-- `iwl_pcie_hcmd_complete`, for the sequence number of the response. -/
def hcmdComplete (trans : Trans) (sequence : ℕ) (s : CmdQueue) : Completed × CmdQueue :=
  let index := seqToIndex sequence
  if seqToQueue sequence ≠ trans.cmdQueue then (.wrongQueue, s)
  else
    let cmdIndex := getCmdIndex s.txq index
    let entry := s.entries cmdIndex
    let s := if entry.flags.blockTxqs then blockTxqPtrs false s else s
    let (res, s) := cmdqReclaim trans index s
    (.done res (!entry.flags.async),
      { s with entries := Function.update s.entries cmdIndex { entry with flags := {} } })

/-! ### The calls as a machine -/

inductive CmdAction
  | enqueue (cmd : HostCmd) (faults : Faults)
  | complete (sequence : ℕ)

inductive CmdOut
  | enqueued (res : Except Errno ℕ)
  | completed (res : Completed)

def cmdStep (trans : Trans) (s : CmdQueue) : CmdAction → Option (CmdOut × CmdQueue)
  | .enqueue cmd f => some (.enqueued (enqueueHcmd trans cmd f s).1, (enqueueHcmd trans cmd f s).2)
  | .complete seq => some (.completed (hcmdComplete trans seq s).1, (hcmdComplete trans seq s).2)

variable {trans : Trans} {s : CmdQueue}

/-! ### Effect on the pointers -/

theorem setCmdInFlight_txq (f : Faults) (s : CmdQueue) :
    (setCmdInFlight trans f s).2.txq = s.txq := by
  unfold setCmdInFlight
  split
  · rfl
  · split
    · rfl
    · split <;> rfl

@[simp] theorem clearCmdInFlight_txq (s : CmdQueue) : (clearCmdInFlight trans s).txq = s.txq := by
  unfold clearCmdInFlight
  split <;> rfl

@[simp] theorem blockTxqPtrs_txq (b : Bool) (s : CmdQueue) : (blockTxqPtrs b s).txq = s.txq := by
  cases b <;> rfl

theorem spaceNeeded_pos (flags : CmdFlags) : 1 ≤ spaceNeeded flags := by
  unfold spaceNeeded
  split <;> omega

/-- A failing call leaves the pointers alone; a successful one found room for the command and
advances `write_ptr`. -/
theorem enqueueHcmd_cases (trans : Trans) (cmd : HostCmd) (f : Faults) (s : CmdQueue) :
    (∃ e, (enqueueHcmd trans cmd f s).1 = .error e ∧ (enqueueHcmd trans cmd f s).2.txq = s.txq) ∨
    (∃ idx, (enqueueHcmd trans cmd f s).1 = .ok idx ∧ 1 ≤ txqSpace trans s.txq ∧
      (enqueueHcmd trans cmd f s).2.txq =
        { s.txq with writePtr := txqIncWrap trans s.txq.writePtr }) := by
  unfold enqueueHcmd
  dsimp only
  split
  · exact .inl ⟨_, rfl, rfl⟩
  split
  · exact .inl ⟨_, rfl, rfl⟩
  split
  · exact .inl ⟨_, rfl, rfl⟩
  split
  · exact .inl ⟨_, rfl, rfl⟩
  split
  next s' h =>
    have hs := congrArg (fun p => p.2.txq) h
    rw [setCmdInFlight_txq] at hs
    exact .inl ⟨_, rfl, hs.symm⟩
  next s' h =>
    have hs := congrArg (fun p => p.2.txq) h
    rw [setCmdInFlight_txq] at hs
    refine .inr ⟨_, rfl, ?_, ?_⟩
    · have := spaceNeeded_pos cmd.flags
      omega
    have e : (if cmd.flags.blockTxqs then blockTxqPtrs true s' else s').txq = s.txq := by
      split
      · exact (blockTxqPtrs_txq true s').trans hs.symm
      · exact hs.symm
    simp only [e]

/-- The loop of the reclaim advances both pointers by the distance of `r` to `idx` on the hardware
ring. -/
theorem reclaimLoop_spec {idx r read : ℕ} (hidx : idx < trans.maxTfdQueueSize)
    (hr : r < trans.maxTfdQueueSize) (hread : read < trans.maxTfdQueueSize) :
    reclaimLoop trans idx ⟨r, read, 0⟩ =
      ⟨idx, (read + off trans.maxTfdQueueSize r idx) % trans.maxTfdQueueSize,
        off trans.maxTfdQueueSize r idx⟩ := by
  have hm := trans.max_pos
  generalize hd : off trans.maxTfdQueueSize r idx = d
  -- what has been freed and what is still ahead make up the whole distance
  let I : ReclaimVars → Prop := fun v => v.r < trans.maxTfdQueueSize ∧
    v.nfreed + off trans.maxTfdQueueSize v.r idx = d ∧
    v.readPtr = (read + v.nfreed) % trans.maxTfdQueueSize
  have hstep : ∀ v : ReclaimVars, I v → decide (v.r ≠ idx) = true →
      0 < off trans.maxTfdQueueSize v.r idx ∧
        off trans.maxTfdQueueSize (txqIncWrap trans v.r) idx + 1 =
          off trans.maxTfdQueueSize v.r idx := by
    intro v hv hne
    have hpos : 0 < off trans.maxTfdQueueSize v.r idx := by
      rw [Nat.pos_iff_ne_zero]
      exact fun h0 => of_decide_eq_true hne (eq_of_off_zero hv.1 hidx h0)
    refine ⟨hpos, ?_⟩
    rw [txqIncWrap_eq, off_mod_left hm, off_advance hm hpos]
    omega
  have hI : ∀ v : ReclaimVars, I v → decide (v.r ≠ idx) = true →
      I ⟨txqIncWrap trans v.r, txqIncWrap trans v.readPtr, v.nfreed + 1⟩ := by
    intro v hv hne
    obtain ⟨hpos, hoff⟩ := hstep v hv hne
    refine ⟨txqIncWrap_lt _ _, ?_, ?_⟩
    · dsimp only
      omega
    · simp only [txqIncWrap_eq, hv.2.2, Nat.mod_add_mod, Nat.add_assoc]
  have h0 : I ⟨r, read, 0⟩ := ⟨hr, by simpa using hd, (Nat.mod_eq_of_lt hread).symm⟩
  have hend : I (reclaimLoop trans idx ⟨r, read, 0⟩) := whileLoop_inv hI _ _ h0
  have hexit : decide ((reclaimLoop trans idx ⟨r, read, 0⟩).r ≠ idx) = false :=
    whileLoop_exit (μ := fun v => off trans.maxTfdQueueSize v.r idx) hI
      (by
        intro v hv hne
        have := (hstep v hv hne).2
        dsimp only
        omega) _ _ h0 (off_lt hm r idx)
  generalize reclaimLoop trans idx ⟨r, read, 0⟩ = v at hend hexit
  obtain ⟨vr, vread, vfreed⟩ := v
  obtain ⟨-, hsum, hptr⟩ := hend
  have hr' : vr = idx := by simpa using hexit
  subst hr'
  have hfreed : vfreed = d := by simpa [off_self hm] using hsum
  subst hfreed
  simp only at hptr
  rw [hptr]

theorem cmdqReclaim_rejected {idx : ℕ}
    (h : txqUsed s.txq idx s.txq.readPtr s.txq.writePtr = false) :
    cmdqReclaim trans idx s = (.outOfRange, s) := by
  have e : txqUsed s.txq (getCmdIndex s.txq idx) s.txq.readPtr s.txq.writePtr = false := by
    rw [← h]
    simp [txqUsed, getCmdIndex_eq]
  simp [cmdqReclaim, e]

section
variable {idx : ℕ} (hn : s.txq.nWindow < trans.maxTfdQueueSize)
  (hr : s.txq.readPtr < trans.maxTfdQueueSize)
include hn hr

theorem cmdqReclaim_accepted (h : txqUsed s.txq idx s.txq.readPtr s.txq.writePtr = true) :
    let d := off trans.maxTfdQueueSize (s.txq.readPtr % s.txq.nWindow)
      (idx % s.txq.nWindow + 1)
    (cmdqReclaim trans idx s).1 = .freed d ∧
      (cmdqReclaim trans idx s).2.txq =
        { s.txq with readPtr := (s.txq.readPtr + d) % trans.maxTfdQueueSize } := by
  have hlt (x : ℕ) : x % s.txq.nWindow < trans.maxTfdQueueSize :=
    (Nat.mod_lt x s.txq.window_pos).trans hn
  have hused : txqUsed s.txq (idx % s.txq.nWindow) s.txq.readPtr s.txq.writePtr = true := by
    rw [← h]
    simp [txqUsed, getCmdIndex_eq]
  have hcond : ¬ (trans.maxTfdQueueSize ≤ idx % s.txq.nWindow ∨
      txqUsed s.txq (idx % s.txq.nWindow) s.txq.readPtr s.txq.writePtr = false) := by
    rw [hused]
    have := hlt idx
    simp
    omega
  simp only [cmdqReclaim, getCmdIndex_eq, if_neg hcond]
  rw [reclaimLoop_spec (txqIncWrap_lt _ _) (hlt _) hr, txqIncWrap_eq, off_mod_right trans.max_pos]
  refine ⟨rfl, ?_⟩
  split <;> simp

theorem cmdqReclaim_oldest (hidx : idx % s.txq.nWindow = s.txq.readPtr % s.txq.nWindow)
    (h : txqUsed s.txq idx s.txq.readPtr s.txq.writePtr = true) :
    (cmdqReclaim trans idx s).1 = .freed 1 ∧
      (cmdqReclaim trans idx s).2.txq =
        { s.txq with readPtr := txqIncWrap trans s.txq.readPtr } := by
  have hone : off trans.maxTfdQueueSize (s.txq.readPtr % s.txq.nWindow)
      (idx % s.txq.nWindow + 1) = 1 := by
    rw [hidx]
    exact off_add (by have := s.txq.window_pos; omega)
  have := cmdqReclaim_accepted hn hr h
  rw [hone] at this
  rw [txqIncWrap_eq]
  exact this

end

theorem hcmdComplete_txq {seq : ℕ} (hq : seqToQueue seq = trans.cmdQueue) :
    ∃ s' : CmdQueue, s'.txq = s.txq ∧
      (hcmdComplete trans seq s).2.txq = (cmdqReclaim trans (seqToIndex seq) s').2.txq := by
  unfold hcmdComplete
  rw [if_neg (not_not.mpr hq)]
  refine ⟨if (s.entries (getCmdIndex s.txq (seqToIndex seq))).flags.blockTxqs then
    blockTxqPtrs false s else s, ?_, rfl⟩
  split
  · exact blockTxqPtrs_txq false s
  · rfl

/-! ### The law -/

/-- The accounting law of the command queue. -/
structure CmdqLaw (trans : Trans) (s : CmdQueue) : Prop where
  /-- the used test holds of the outstanding commands only -/
  used : ∀ i, txqUsed s.txq i s.txq.readPtr s.txq.writePtr = true ↔
    ∃ k < outstanding trans s.txq, i % s.txq.nWindow = (s.txq.readPtr + k) % s.txq.nWindow
  /-- the response to any of them is accepted -/
  accepted : ∀ idx, ∀ k < outstanding trans s.txq,
    idx % s.txq.nWindow = (s.txq.readPtr + k) % s.txq.nWindow →
    ∃ n, 0 < n ∧ (cmdqReclaim trans idx s).1 = .freed n
  /-- the response to the oldest one frees its slot and no other -/
  frees : ∀ idx, 0 < outstanding trans s.txq →
    idx % s.txq.nWindow = s.txq.readPtr % s.txq.nWindow →
    (cmdqReclaim trans idx s).1 = .freed 1 ∧
      (cmdqReclaim trans idx s).2.txq =
        { s.txq with readPtr := txqIncWrap trans s.txq.readPtr } ∧
      outstanding trans (cmdqReclaim trans idx s).2.txq + 1 = outstanding trans s.txq

/-- What holds of the pointers in every run. -/
structure Bounded (trans : Trans) (s : CmdQueue) : Prop where
  window : s.txq.nWindow < trans.maxTfdQueueSize
  read : s.txq.readPtr < trans.maxTfdQueueSize
  fits : outstanding trans s.txq ≤ s.txq.nWindow

theorem Bounded.law (h : Bounded trans s) (hroom : outstanding trans s.txq < s.txq.nWindow) :
    CmdqLaw trans s := by
  have hused := txqUsed_iff_outstanding h.window.le h.read hroom
  refine ⟨hused, ?_, ?_⟩
  · intro idx k hk e
    obtain ⟨hres, -⟩ := cmdqReclaim_accepted h.window h.read ((hused idx).mpr ⟨k, hk, e⟩)
    refine ⟨_, ?_, hres⟩
    -- the folded index is not the entry before the folded read pointer
    rw [Nat.pos_iff_ne_zero]
    intro h0
    have hlt := Nat.mod_lt idx s.txq.window_pos
    have hlt' := Nat.mod_lt s.txq.readPtr s.txq.window_pos
    have hw := h.window
    have hspec := off_spec trans.max_pos (s.txq.readPtr % s.txq.nWindow)
      (idx % s.txq.nWindow + 1)
    rw [h0, Nat.add_zero] at hspec
    have e1 := Nat.ModEq.eq_of_lt_of_lt hspec (by omega) (by omega)
    have hmod : s.txq.readPtr + (k + 1) ≡ s.txq.readPtr + 0 [MOD s.txq.nWindow] := by
      calc s.txq.readPtr + k + 1 ≡ idx % s.txq.nWindow + 1 [MOD s.txq.nWindow] := by
            rw [e]
            exact Nat.ModEq.add_right 1 (Nat.mod_modEq _ _).symm
        _ ≡ s.txq.readPtr + 0 [MOD s.txq.nWindow] := by
            rw [← e1]
            exact Nat.mod_modEq _ _
    have := Nat.ModEq.eq_of_lt_of_lt (Nat.ModEq.add_left_cancel' s.txq.readPtr hmod)
      (by omega) s.txq.window_pos
    omega
  · intro idx hpos e
    have hu : txqUsed s.txq idx s.txq.readPtr s.txq.writePtr = true :=
      (hused idx).mpr ⟨0, hpos, e⟩
    obtain ⟨hres, htxq⟩ := cmdqReclaim_oldest h.window h.read e hu
    refine ⟨hres, htxq, ?_⟩
    rw [htxq, outstanding_pop trans s.txq h.read hpos]
    omega

theorem Bounded.not_law_full (h : Bounded trans s)
    (hfull : outstanding trans s.txq = s.txq.nWindow) : ¬ CmdqLaw trans s := by
  intro law
  have hu := (law.used s.txq.readPtr).mpr ⟨0, by have := s.txq.window_pos; omega, rfl⟩
  rw [txqUsed_full h.window.le h.read hfull] at hu
  exact Bool.noConfusion hu

theorem cmdqLaw_iff (h : Bounded trans s) :
    CmdqLaw trans s ↔ outstanding trans s.txq < s.txq.nWindow := by
  refine ⟨fun law => ?_, h.law⟩
  rcases Nat.lt_or_eq_of_le h.fits with hlt | hfull
  · exact hlt
  · exact absurd law (h.not_law_full hfull)

/-! ### Runs -/

/-- A response arrives in order: it is one to the oldest outstanding command. -/
def ResponseInOrder (trans : Trans) (l : Label CmdQueue CmdAction CmdOut) : Prop :=
  ∀ seq, l.act = .complete seq → 0 < outstanding trans l.pre.txq ∧
    seqToQueue seq = trans.cmdQueue ∧
    seqToIndex seq % l.pre.txq.nWindow = l.pre.txq.readPtr % l.pre.txq.nWindow

def Enqueues (l : Label CmdQueue CmdAction CmdOut) : Prop := ∃ idx, l.out = .enqueued (.ok idx)

section
variable {a : CmdAction} {out : CmdOut} {s' : CmdQueue} (h : cmdStep trans s a = some (out, s'))
  (hord : ResponseInOrder trans ⟨s, a, out, s'⟩) (hb : Bounded trans s)
include h hord hb

/-- With in-order responses a step adds an entry that `iwl_txq_space` had room for, removes the
oldest entry if the used test accepts it, or leaves the pointers alone. -/
theorem cmdStep_cases :
    (¬ Enqueues ⟨s, a, out, s'⟩ ∧ s'.txq = s.txq) ∨
    (Enqueues ⟨s, a, out, s'⟩ ∧ 1 ≤ txqSpace trans s.txq ∧
      s'.txq = { s.txq with writePtr := txqIncWrap trans s.txq.writePtr }) ∨
    (¬ Enqueues ⟨s, a, out, s'⟩ ∧ 0 < outstanding trans s.txq ∧
      s'.txq = { s.txq with readPtr := txqIncWrap trans s.txq.readPtr }) := by
  cases a with
  | enqueue cmd f =>
    simp only [cmdStep] at h
    cases h
    rcases enqueueHcmd_cases trans cmd f s with ⟨e, hres, htxq⟩ | ⟨idx, hres, hsp, htxq⟩
    · refine .inl ⟨?_, htxq⟩
      rintro ⟨idx, h⟩
      simp [hres] at h
    · exact .inr (.inl ⟨⟨idx, by simp [hres]⟩, hsp, htxq⟩)
  | complete seq =>
    simp only [cmdStep] at h
    cases h
    obtain ⟨hpos, hq, hidx⟩ := hord seq rfl
    obtain ⟨s₁, htxq, heq⟩ := hcmdComplete_txq (s := s) hq
    have hno : ¬ Enqueues ⟨s, .complete seq, .completed (hcmdComplete trans seq s).1,
        (hcmdComplete trans seq s).2⟩ := by
      rintro ⟨idx, h⟩
      cases h
    cases hu : txqUsed s.txq (seqToIndex seq) s.txq.readPtr s.txq.writePtr with
    | false =>
      refine .inl ⟨hno, ?_⟩
      rw [heq, cmdqReclaim_rejected (by rw [htxq]; exact hu)]
      exact htxq
    | true =>
      refine .inr (.inr ⟨hno, hpos, ?_⟩)
      rw [heq, (cmdqReclaim_oldest (by rw [htxq]; exact hb.window) (by rw [htxq]; exact hb.read)
        (by rw [htxq]; exact hidx) (by rw [htxq]; exact hu)).2, htxq]

theorem cmdStep_bounded :
    Bounded trans s' ∧ s'.txq.nWindow = s.txq.nWindow ∧
      (Enqueues ⟨s, a, out, s'⟩ → outstanding trans s'.txq = outstanding trans s.txq + 1) ∧
      (¬ Enqueues ⟨s, a, out, s'⟩ → outstanding trans s'.txq ≤ outstanding trans s.txq) := by
  have hw := hb.window
  have hfits := hb.fits
  rcases cmdStep_cases h hord hb with ⟨hno, htxq⟩ | ⟨hyes, hsp, htxq⟩ | ⟨hno, hpos, htxq⟩
  · rw [htxq]
    refine ⟨⟨?_, ?_, ?_⟩, rfl, fun hyes => absurd hyes hno, fun _ => le_rfl⟩
    · rw [htxq]; exact hb.window
    · rw [htxq]; exact hb.read
    · rw [htxq]; exact hb.fits
  · rw [txqSpace_eq hw hfits] at hsp
    have hpush := outstanding_push trans s.txq hb.read (by omega)
    rw [← htxq] at hpush
    refine ⟨⟨?_, ?_, ?_⟩, by rw [htxq], fun _ => hpush, fun hno => absurd hyes hno⟩
    · rw [htxq]; exact hb.window
    · rw [htxq]; exact hb.read
    · rw [hpush, htxq]
      dsimp only
      omega
  · have hpop := outstanding_pop trans s.txq hb.read hpos
    rw [← htxq] at hpop
    refine ⟨⟨?_, ?_, ?_⟩, by rw [htxq], fun hyes => absurd hyes hno, fun _ => by omega⟩
    · rw [htxq]; exact hb.window
    · rw [htxq]; exact txqIncWrap_lt _ _
    · rw [hpop, htxq]
      dsimp only
      omega

end

/-- A queue as `iwl_queue_init` leaves it. -/
def emptyQueue (slotsNum : ℕ) (h : ∃ k, slotsNum = 2 ^ k) : CmdQueue where
  txq := queueInit slotsNum h

theorem emptyQueue_bounded (trans : Trans) {n : ℕ} (hpow : ∃ k, n = 2 ^ k)
    (hn : n < trans.maxTfdQueueSize) :
    Bounded trans (emptyQueue n hpow) ∧ outstanding trans (emptyQueue n hpow).txq = 0 := by
  have h0 : outstanding trans (emptyQueue n hpow).txq = 0 := by
    rw [outstanding_eq (by exact trans.max_pos)]
    exact off_self trans.max_pos
  refine ⟨⟨hn, trans.max_pos, ?_⟩, h0⟩
  rw [h0]
  exact Nat.zero_le _

/-- **Accounting of the command queue.**  With in-order responses the law holds in every state
exactly when every command had found room for two: when the window never becomes full. -/
theorem cmdq_law_iff_space {n : ℕ} (hpow : ∃ k, n = 2 ^ k) (hn : n < trans.maxTfdQueueSize)
    {ls : List (Label CmdQueue CmdAction CmdOut)} {s' : CmdQueue}
    (hrun : Run (cmdStep trans) (emptyQueue n hpow) ls s')
    (hord : ∀ l ∈ ls, ResponseInOrder trans l) :
    (CmdqLaw trans (emptyQueue n hpow) ∧ ∀ l ∈ ls, CmdqLaw trans l.post) ↔
      ∀ l ∈ ls, Enqueues l → 2 ≤ txqSpace trans l.pre.txq := by
  obtain ⟨hb₀, h0⟩ := emptyQueue_bounded trans hpow hn
  have hroom₀ : outstanding trans (emptyQueue n hpow).txq < (emptyQueue n hpow).txq.nWindow := by
    rw [h0]
    exact (emptyQueue n hpow).txq.window_pos
  constructor
  · rintro ⟨-, hlaw⟩ l hl hyes
    obtain ⟨-, hall⟩ := Run.induct (C := ResponseInOrder trans)
      (fun s a b s' h hC hb => (cmdStep_bounded h hC hb).1) hrun hord hb₀
    obtain ⟨hstep, hpre, hpost⟩ := hall l hl
    obtain ⟨-, hwin, hcount, -⟩ := cmdStep_bounded hstep (hord l hl) hpre
    have hlt := (cmdqLaw_iff hpost).mp (hlaw l hl)
    rw [hcount hyes, hwin] at hlt
    rw [txqSpace_eq hpre.window hpre.fits]
    omega
  · intro hspace
    obtain ⟨-, hall⟩ := Run.induct
      (I := fun s => Bounded trans s ∧ outstanding trans s.txq < s.txq.nWindow)
      (C := fun l => ResponseInOrder trans l ∧ (Enqueues l → 2 ≤ txqSpace trans l.pre.txq))
      (by
        rintro s a b s' h ⟨hord, hsp⟩ ⟨hb, hroom⟩
        obtain ⟨hb', hwin, hyes, hno⟩ := cmdStep_bounded h hord hb
        refine ⟨hb', ?_⟩
        rw [hwin]
        by_cases hen : Enqueues ⟨s, a, b, s'⟩
        · have := hsp hen
          rw [txqSpace_eq hb.window hb.fits] at this
          rw [hyes hen]
          omega
        · exact (hno hen).trans_lt hroom)
      hrun (fun l hl => ⟨hord l hl, hspace l hl⟩) ⟨hb₀, hroom₀⟩
    exact ⟨hb₀.law hroom₀, fun l hl => (hall l hl).2.2.1.law (hall l hl).2.2.2⟩

def ring256 : Trans where
  maxTfdQueueSize := 256
  maxPow := ⟨8, by decide, rfl⟩

def asyncCmd : CmdAction := .enqueue { id := 0x1c, flags := { async := true } } {}

def syncCmd : CmdAction := .enqueue { id := 0x1c } {}

/-- Two commands and the response to the first one, on the usual 32 entries. -/
theorem cmdq_law_iff_space_two :
    ∃ ls s', execute (cmdStep ring256) (emptyQueue 32 ⟨5, rfl⟩) [asyncCmd, syncCmd, .complete 0] =
        some (ls, s') ∧ outstanding ring256 s'.txq = 1 ∧
      ((CmdqLaw ring256 (emptyQueue 32 ⟨5, rfl⟩) ∧ ∀ l ∈ ls, CmdqLaw ring256 l.post) ↔
        ∀ l ∈ ls, Enqueues l → 2 ≤ txqSpace ring256 l.pre.txq) := by
  refine exists_execute rfl fun hrun => ⟨rfl, cmdq_law_iff_space ⟨5, rfl⟩ (by decide) hrun ?_⟩
  intro l hl
  simp only [List.mem_cons, List.not_mem_nil, or_false] at hl
  rcases hl with rfl | rfl | rfl <;> intro seq h
  · cases h
  · cases h
  · obtain rfl : 0 = seq := CmdAction.complete.inj h
    decide

/-- Thirty-two commands fill the window.  The response to the oldest of them is rejected. -/
theorem full_window_rejects_response :
    ∃ ls s', execute (cmdStep ring256) (emptyQueue 32 ⟨5, rfl⟩)
        (List.replicate 31 asyncCmd ++ [syncCmd]) = some (ls, s') ∧
      ls.map Label.out = (List.range 32).map (fun i => .enqueued (.ok i)) ∧
      outstanding ring256 s'.txq = 32 ∧
      txqUsed s'.txq s'.txq.readPtr s'.txq.readPtr s'.txq.writePtr = false ∧
      (s'.entries 0).sequence = 0 ∧
      (hcmdComplete ring256 0 s').1 = .done .outOfRange false ∧ ¬ CmdqLaw ring256 s' := by
  refine ⟨_, _, rfl, rfl, rfl, rfl, rfl, rfl, ?_⟩
  intro law
  exact absurd ((law.used 0).mpr ⟨0, by decide, rfl⟩) (by decide)

/-! ### Responses that skip commands -/

/-- The reclaim lands right behind the command, at or before `write_ptr`. -/
structure ReclaimExact (trans : Trans) (idx : ℕ) (s : CmdQueue) : Prop where
  steps : (cmdqReclaim trans idx s).1 =
    .freed (off s.txq.nWindow s.txq.readPtr idx + 1)
  lands : (cmdqReclaim trans idx s).2.txq = { s.txq with
    readPtr := (s.txq.readPtr + (off s.txq.nWindow s.txq.readPtr idx + 1)) %
      trans.maxTfdQueueSize }
  notPast : off s.txq.nWindow s.txq.readPtr idx + 1 ≤ outstanding trans s.txq

/-- On the hardware ring the folded index is as far ahead as on the window, unless it is folded to
the other side of `read_ptr`. -/
theorem off_folded {m n r idx : ℕ} (hn : 0 < n) (hnm : n < m)
    (hlast : off n r idx + 1 < n) :
    off m (r % n) (idx % n + 1) =
      if r % n ≤ idx % n then off n r idx + 1 else off n r idx + 1 + (m - n) := by
  have hr := Nat.mod_lt r hn
  have hi := Nat.mod_lt idx hn
  rw [off_eq_ite hn] at hlast ⊢
  rw [off_eq_ite (by omega), Nat.mod_eq_of_lt (by omega : r % n < m),
    Nat.mod_eq_of_lt (by omega : idx % n + 1 < m)]
  split at hlast <;> split <;> omega

/-- **Where the reclaim lands.**  For an outstanding command of a window that is not full, the
reclaim lands right behind it exactly if the window does not wrap around before it. -/
theorem cmdq_reclaim_exact_iff (hn : s.txq.nWindow < trans.maxTfdQueueSize)
    (hr : s.txq.readPtr < trans.maxTfdQueueSize)
    (hroom : outstanding trans s.txq < s.txq.nWindow) {idx k : ℕ} (hk : k < outstanding trans s.txq)
    (hidx : idx % s.txq.nWindow = (s.txq.readPtr + k) % s.txq.nWindow) :
    ReclaimExact trans idx s ↔ s.txq.readPtr % s.txq.nWindow ≤ idx % s.txq.nWindow := by
  have hoff : off s.txq.nWindow s.txq.readPtr idx = k :=
    off_unique (by omega) hidx.symm
  have hused := (txqUsed_iff_outstanding hn.le hr hroom idx).mpr ⟨k, hk, hidx⟩
  obtain ⟨hres, htxq⟩ := cmdqReclaim_accepted hn hr hused
  rw [off_folded s.txq.window_pos hn (by omega)] at hres htxq
  constructor
  · intro h
    by_contra hwrap
    rw [h.steps, if_neg hwrap] at hres
    have := Reclaimed.freed.inj hres
    omega
  · intro hle
    rw [if_pos hle] at hres htxq
    exact ⟨hres, htxq, by omega⟩

def beforeWrap : CmdQueue where
  txq := { nWindow := 32, readPtr := 29, writePtr := 32, windowPow := ⟨5, rfl⟩ }

theorem cmdq_reclaim_exact_iff_skipping :
    ReclaimExact ring256 31 beforeWrap ∧
      (cmdqReclaim ring256 31 beforeWrap).2.txq.readPtr = 32 := by
  have h : ReclaimExact ring256 31 beforeWrap ↔ beforeWrap.txq.readPtr % 32 ≤ 31 % 32 :=
    cmdq_reclaim_exact_iff (k := 2) (by decide) (by decide) (by decide) (by decide) rfl
  exact ⟨h.mpr (by decide), by decide +kernel⟩

def acrossWrap : CmdQueue where
  txq := { nWindow := 32, readPtr := 31, writePtr := 33, windowPow := ⟨5, rfl⟩ }

/-- The response to the second one frees 226 entries: `read_ptr` goes once around the ring, behind
`write_ptr`. -/
theorem skipping_reclaim_overshoots :
    outstanding ring256 acrossWrap.txq = 2 ∧
      (cmdqReclaim ring256 32 acrossWrap).1 = .freed 226 ∧
      (cmdqReclaim ring256 32 acrossWrap).2.txq.readPtr = 1 ∧
      outstanding ring256 (cmdqReclaim ring256 32 acrossWrap).2.txq = 32 ∧
      ¬ ReclaimExact ring256 32 acrossWrap := by
  refine ⟨by decide +kernel, by decide +kernel, by decide +kernel, by decide +kernel, fun h => ?_⟩
  exact absurd h.steps (by decide +kernel)

end Iwlwifi.Iwl.Pcie
