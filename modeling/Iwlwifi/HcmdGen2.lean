import Iwlwifi.HcmdEncode

/-! # Rejected commands on the second-generation command queue

`iwl_pcie_gen2_enqueue_hcmd` (`pcie/tx-gen2.c`) puts a command into the slot of `write_ptr`: it fills
the TFD, the command buffer, the first transfer buffer and the meta data of the slot, and advances
`write_ptr`.  Before that it can fail at several places, after different amounts of work.

* **State** (`Gen2Queue`).  The queue pointers and the slots, each with everything that belongs to a
  command.  Allocations and DMA mappings are choices of the environment (`Gen2Faults`).
* **Calls** (`gen2Step`).  Commands, responses, unmapping on a stop, and initialisation.
* **Where a failing call writes** (`gen2EnqueueHcmd_rejected`).  It is the slot of `write_ptr` only,
  and that of an outstanding command if and only if the window is full (`outstanding_slot_iff`).
  The TFD of the slot is cleared before the space is checked (`rejected_intact_iff`). -/

namespace Iwlwifi.Iwl.Pcie.Hcmd

/-- `struct iwl_cmd_meta`, without what only data frames use. -/
structure CmdMeta where
  /-- the command that waits for the response packet -/
  source : Option Cmd := none
  flags : CmdFlags := {}
deriving DecidableEq

/-- What belongs to a slot: its TFD, `first_tb_bufs[idx]` and `entries[idx]`. -/
structure Slot where
  tfd : Tfd ℕ := Tfd.clear
  firstTb : List UInt8 := []
  cmd : List UInt8 := []
  cmdMeta : CmdMeta := {}
  freeBuf : Option (List UInt8) := none

structure Gen2Queue where
  txq : Txq
  slots : ℕ → Slot := fun _ => {}

/-- Addresses that are fixed: `first_tb_dma`, and `invalid_tx_cmd` with its size. -/
structure Dma where
  firstTb : ℕ
  invalidCmd : ℕ
  invalidSize : ℕ

/-- What the environment does to a call: `kmemdup` fails, and the result of each DMA mapping. -/
structure Gen2Faults where
  dupAlloc : Bool := false
  maps : ℕ → Option ℕ

/-- `txq->entries[i]` and the TFD are changed. -/
def Gen2Queue.modify (s : Gen2Queue) (i : ℕ) (f : Slot → Slot) : Gen2Queue :=
  { s with slots := Function.update s.slots i (f (s.slots i)) }

/-- `iwl_txq_gen2_tfd_unmap`, with `iwl_txq_set_tfd_invalid_gen2` at its end. -/
def tfdUnmap (dma : Dma) (tfd : Tfd ℕ) : Tfd ℕ :=
  if Gen.gen2.maxTbs < tfd.numTbs &&& 0x1f then tfd
  else Gen.gen2.setTb { tfd with numTbs := 0 } dma.invalidCmd dma.invalidSize

/-- The mappings behind the first transfer buffer; a failing one leaves the TFD as far as it is. -/
def mapRegions (maps : ℕ → Option ℕ) :
    ℕ → Tfd ℕ → List (List UInt8 × ℕ) → Except (Tfd ℕ) (Tfd ℕ)
  | _, tfd, [] => .ok tfd
  | k, tfd, r :: rs =>
    match maps k with
    | none => .error tfd
    | some addr => mapRegions maps (k + 1) (Gen.gen2.setTb tfd addr r.2) rs

def Cmd.dups (cmd : Cmd) : Bool := cmd.chunks.any fun c => c.dup && c.data.length != 0

/-- `iwl_pcie_gen2_enqueue_hcmd`: an error or the index of the command.  It does not return if
`memcpy` is called with a negative length. -/
def gen2EnqueueHcmd (trans : Trans) (dma : Dma) (cmd : Cmd) (f : Gen2Faults) (s : Gen2Queue) :
    Option (Except Errno ℕ × Gen2Queue) :=
  if cmd.flags.blockTxqs then some (.error .einval, s)
  else if cmd.dups && f.dupAlloc then some (.error .enomem, s)
  else
    let idx := getCmdIndex s.txq s.txq.writePtr
    let s := s.modify idx fun slot => { slot with tfd := Tfd.clear }
    if txqSpace trans s.txq < spaceNeeded cmd.flags then some (.error .enospc, s)
    else
      let source := if cmd.flags.wantSkb then some cmd else none
      match encode .gen2 cmd (queueToSeq trans.cmdQueue ||| indexToSeq s.txq.writePtr) with
      | none => none
      | some e =>
        let s := s.modify idx fun slot =>
          { slot with
            cmdMeta := { source := source }
            cmd := e.second.outCmd ++ slot.cmd.drop e.second.outCmd.length
            firstTb := e.second.outCmd.take e.tb0Size ++ slot.firstTb.drop e.tb0Size
            -- `iwl_txq_get_first_tb_dma`, with 64 bytes for each slot
            tfd := Gen.gen2.setTb slot.tfd (dma.firstTb + 64 * idx) e.tb0Size }
        match mapRegions f.maps 0 (s.slots idx).tfd e.regions.tail with
        | .error tfd =>
          some (.error .enomem, s.modify idx fun slot => { slot with tfd := tfdUnmap dma tfd })
        | .ok tfd =>
          let s := s.modify idx fun slot =>
            { slot with
              tfd := tfd
              cmdMeta := { slot.cmdMeta with flags := cmd.flags }
              freeBuf := e.first.dupBuf }
          some (.ok idx,
            { s with txq := { s.txq with writePtr := txqIncWrap trans s.txq.writePtr } })

/-- `iwl_pcie_hcmd_complete`, for the sequence number of the response. -/
def gen2HcmdComplete (trans : Trans) (dma : Dma) (sequence : ℕ) (s : Gen2Queue) : Gen2Queue :=
  let index := seqToIndex sequence
  if seqToQueue sequence ≠ trans.cmdQueue then s
  else
    let s := s.modify (getCmdIndex s.txq index) fun slot =>
      { slot with
        tfd := tfdUnmap dma slot.tfd
        cmdMeta := { slot.cmdMeta with flags := {} } }
    -- the pointers of `iwl_pcie_cmdq_reclaim`
    { s with txq := (cmdqReclaim trans index { txq := s.txq }).2.txq }

/-- The end of `iwl_pcie_rx_handle_rb` for a response: the duplicate is freed, and the command
completed unless a handler took the page. -/
def rxResponse (trans : Trans) (dma : Dma) (sequence : ℕ) (stolen : Bool) (s : Gen2Queue) :
    Gen2Queue :=
  let s := s.modify (getCmdIndex s.txq (seqToIndex sequence)) fun slot =>
    { slot with freeBuf := none }
  if stolen then s else gen2HcmdComplete trans dma sequence s

/-- `iwl_txq_gen2_unmap`, for the command queue. -/
def gen2Unmap (trans : Trans) (dma : Dma) (s : Gen2Queue) : Gen2Queue :=
  whileLoop (fun s => decide (s.txq.writePtr ≠ s.txq.readPtr))
    (fun s =>
      let s := s.modify (getCmdIndex s.txq s.txq.readPtr) fun slot =>
        { slot with tfd := tfdUnmap dma slot.tfd }
      { s with txq := { s.txq with readPtr := txqIncWrap trans s.txq.readPtr } })
    trans.maxTfdQueueSize s

/-! ### The calls as a machine -/

inductive Gen2Action
  | enqueue (cmd : Cmd) (faults : Gen2Faults)
  | response (sequence : ℕ) (stolen : Bool)
  | unmap
  | init

/-- One call under the lock of the queue; the output is the result of an enqueue. -/
def gen2Step (trans : Trans) (dma : Dma) (s : Gen2Queue) :
    Gen2Action → Option (Option (Except Errno ℕ) × Gen2Queue)
  | .enqueue cmd f => (gen2EnqueueHcmd trans dma cmd f s).map fun r => (some r.1, r.2)
  | .response sequence stolen => some (none, rxResponse trans dma sequence stolen s)
  | .unmap => some (none, gen2Unmap trans dma s)
  | .init => some (none, { s with txq := queueInit s.txq.nWindow s.txq.windowPow })

structure OnRing (trans : Trans) (s : Gen2Queue) : Prop where
  read : s.txq.readPtr < trans.maxTfdQueueSize
  write : s.txq.writePtr < trans.maxTfdQueueSize

variable {trans : Trans} {dma : Dma} {s s' : Gen2Queue}

theorem modify_slots_self (s : Gen2Queue) (i : ℕ) (f : Slot → Slot) :
    (s.modify i f).slots i = f (s.slots i) :=
  Function.update_self _ _ _

theorem modify_slots_of_ne (s : Gen2Queue) {i j : ℕ} (f : Slot → Slot) (h : j ≠ i) :
    (s.modify i f).slots j = s.slots j :=
  Function.update_of_ne h _ _

/-! ### Where a call writes -/

def RefusedEarly (cmd : Cmd) (f : Gen2Faults) : Prop :=
  cmd.flags.blockTxqs = true ∨ (cmd.dups = true ∧ f.dupAlloc = true)

/-- **A failing call** is refused early and changes nothing, or clears the TFD of the slot of
`write_ptr`, or finds space and writes to that slot only. -/
theorem gen2EnqueueHcmd_rejected {cmd : Cmd} {f : Gen2Faults} {e : Errno}
    (h : gen2EnqueueHcmd trans dma cmd f s = some (.error e, s')) :
    (RefusedEarly cmd f ∧ s' = s) ∨
    (¬ RefusedEarly cmd f ∧ txqSpace trans s.txq < spaceNeeded cmd.flags ∧
      s' = s.modify (getCmdIndex s.txq s.txq.writePtr) fun slot =>
        { slot with tfd := Tfd.clear }) ∨
    (¬ RefusedEarly cmd f ∧ 1 ≤ txqSpace trans s.txq ∧ s'.txq = s.txq ∧
      ∀ j ≠ getCmdIndex s.txq s.txq.writePtr, s'.slots j = s.slots j) := by
  unfold gen2EnqueueHcmd at h
  split at h
  next hblock =>
    cases h
    exact .inl ⟨.inl hblock, rfl⟩
  rename_i hblock
  split at h
  next hdup =>
    cases h
    exact .inl ⟨.inr (by simpa using hdup), rfl⟩
  rename_i hdup
  have hnot : ¬ RefusedEarly cmd f := by
    rintro (hb | ⟨hd, ha⟩)
    · exact hblock hb
    · exact hdup (by rw [hd, ha]; rfl)
  dsimp only at h
  split at h
  next hspace =>
    cases h
    exact .inr (.inl ⟨hnot, hspace, rfl⟩)
  rename_i hspace
  have hpos := spaceNeeded_pos cmd.flags
  split at h
  · cases h
  split at h <;> cases h
  refine .inr (.inr ⟨hnot, ?_, rfl, fun j hj => ?_⟩)
  · exact hpos.trans (Nat.le_of_not_lt hspace)
  · rw [modify_slots_of_ne _ _ hj, modify_slots_of_ne _ _ hj, modify_slots_of_ne _ _ hj]

theorem gen2EnqueueHcmd_txq {cmd : Cmd} {f : Gen2Faults} {r : Except Errno ℕ}
    (h : gen2EnqueueHcmd trans dma cmd f s = some (r, s')) :
    s'.txq = s.txq ∨ s'.txq = { s.txq with writePtr := txqIncWrap trans s.txq.writePtr } := by
  unfold gen2EnqueueHcmd at h
  split at h
  · cases h
    exact .inl rfl
  split at h
  · cases h
    exact .inl rfl
  dsimp only at h
  split at h
  · cases h
    exact .inl rfl
  split at h
  · cases h
  split at h <;> cases h
  · exact .inl rfl
  · exact .inr rfl

/-! ### The pointers -/

theorem cmdqReclaim_read_lt {q : CmdQueue} (h : q.txq.readPtr < trans.maxTfdQueueSize) (idx : ℕ) :
    (cmdqReclaim trans idx q).2.txq.readPtr < trans.maxTfdQueueSize ∧
      (cmdqReclaim trans idx q).2.txq.writePtr = q.txq.writePtr := by
  unfold cmdqReclaim
  dsimp only
  split
  · exact ⟨h, rfl⟩
  have hread : (reclaimLoop trans (txqIncWrap trans (getCmdIndex q.txq idx))
      ⟨getCmdIndex q.txq q.txq.readPtr, q.txq.readPtr, 0⟩).readPtr < trans.maxTfdQueueSize :=
    whileLoop_inv (I := fun v : ReclaimVars => v.readPtr < trans.maxTfdQueueSize)
      (fun _ _ _ => txqIncWrap_lt _ _) _ _ h
  split
  · rw [clearCmdInFlight_txq]
    exact ⟨hread, rfl⟩
  · exact ⟨hread, rfl⟩

theorem rxResponse_onRing (h : OnRing trans s) (sequence : ℕ) (stolen : Bool) :
    OnRing trans (rxResponse trans dma sequence stolen s) := by
  unfold rxResponse
  split
  · exact ⟨h.read, h.write⟩
  unfold gen2HcmdComplete
  split
  · exact ⟨h.read, h.write⟩
  · obtain ⟨hread, hwrite⟩ := cmdqReclaim_read_lt (q := { txq := s.txq }) h.read
      (seqToIndex sequence)
    exact ⟨hread, hwrite.trans_lt h.write⟩

theorem gen2Step_onRing {a : Gen2Action} {r : Option (Except Errno ℕ)}
    (hstep : gen2Step trans dma s a = some (r, s')) (h : OnRing trans s) : OnRing trans s' := by
  cases a with
  | enqueue cmd f =>
    simp only [gen2Step, Option.map_eq_some_iff] at hstep
    obtain ⟨⟨r', s₁⟩, hcall, heq⟩ := hstep
    cases heq
    cases gen2EnqueueHcmd_txq hcall with
    | inl htxq => exact ⟨htxq ▸ h.read, htxq ▸ h.write⟩
    | inr htxq =>
      refine ⟨?_, ?_⟩
      · rw [htxq]
        exact h.read
      · rw [htxq]
        exact txqIncWrap_lt _ _
  | response sequence stolen =>
    cases hstep
    exact rxResponse_onRing h sequence stolen
  | unmap =>
    cases hstep
    exact whileLoop_inv (fun _ hi _ => ⟨txqIncWrap_lt _ _, hi.write⟩) _ _ h
  | init =>
    cases hstep
    exact ⟨trans.max_pos, trans.max_pos⟩

/-! ### Outstanding commands -/

/-- The slot of the command at `k` positions behind `read_ptr`. -/
def slotOf (trans : Trans) (q : Txq) (k : ℕ) : ℕ :=
  getCmdIndex q ((q.readPtr + k) % trans.maxTfdQueueSize)

/-- **The slot of `write_ptr`** is that of an outstanding command if and only if all slots are. -/
theorem outstanding_slot_iff (h : OnRing trans s) :
    (∃ k < outstanding trans s.txq, slotOf trans s.txq k = getCmdIndex s.txq s.txq.writePtr) ↔
      s.txq.nWindow ≤ outstanding trans s.txq := by
  have hm := trans.max_pos
  have hspec := Ring.off_spec hm s.txq.readPtr s.txq.writePtr
  have hlt := Ring.off_lt hm s.txq.readPtr s.txq.writePtr
  rw [← outstanding_eq h.read] at hspec hlt
  generalize outstanding trans s.txq = o at hspec hlt ⊢
  have hn := s.txq.window_pos
  simp only [slotOf, getCmdIndex_eq]
  cases Nat.lt_or_ge trans.maxTfdQueueSize s.txq.nWindow with
  | inl hbig =>
    -- every position has a slot of its own
    refine ⟨?_, fun hle => absurd hle (by omega)⟩
    rintro ⟨k, hk, e⟩
    rw [Nat.mod_eq_of_lt ((Nat.mod_lt _ hm).trans hbig), Nat.mod_eq_of_lt (h.write.trans hbig)]
      at e
    have hmod : s.txq.readPtr + k ≡ s.txq.readPtr + o [MOD trans.maxTfdQueueSize] := by
      refine Nat.ModEq.trans ?_ hspec.symm
      rw [Nat.ModEq, e, Nat.mod_eq_of_lt h.write]
    have := Nat.ModEq.eq_of_lt_of_lt (Nat.ModEq.add_left_cancel' _ hmod) (by omega) hlt
    omega
  | inr hle =>
    have hdvd := window_dvd hle
    have hwrite : s.txq.readPtr + o ≡ s.txq.writePtr [MOD s.txq.nWindow] := hspec.of_dvd hdvd
    simp only [Nat.mod_mod_of_dvd _ hdvd]
    constructor
    · rintro ⟨k, hk, e⟩
      have hmod : k ≡ o [MOD s.txq.nWindow] :=
        Nat.ModEq.add_left_cancel' s.txq.readPtr (Nat.ModEq.trans e hwrite.symm)
      have hdvd' := (Nat.modEq_iff_dvd' hk.le).mp hmod
      have := Nat.le_of_dvd (by omega) hdvd'
      omega
    · intro hfull
      refine ⟨o - s.txq.nWindow, by omega, ?_⟩
      refine Nat.ModEq.trans ?_ hwrite
      have e : s.txq.readPtr + o = s.txq.readPtr + (o - s.txq.nWindow) + s.txq.nWindow := by omega
      rw [e]
      exact (Nat.add_mod_right _ _).symm

/-- The queue is as before: the pointers, and everything in the slots of the outstanding
commands. -/
structure Intact (trans : Trans) (s s' : Gen2Queue) : Prop where
  pointers : s'.txq = s.txq
  slots : ∀ k < outstanding trans s.txq,
    s'.slots (slotOf trans s.txq k) = s.slots (slotOf trans s.txq k)

theorem txqSpace_full (h : OnRing trans s) (hfull : s.txq.nWindow ≤ outstanding trans s.txq) :
    txqSpace trans s.txq = 0 := by
  have hlt : outstanding trans s.txq < trans.maxTfdQueueSize := by
    rw [outstanding_eq h.read]
    exact Ring.off_lt trans.max_pos _ _
  have hwindow : s.txq.nWindow < trans.maxTfdQueueSize := by omega
  simp only [txqSpace, if_pos hwindow]
  split <;> omega

/-- A queue as `iwl_txq_gen2_init` allocates it. -/
def emptyGen2 (slotsNum : ℕ) (h : ∃ k, slotsNum = 2 ^ k) : Gen2Queue where
  txq := queueInit slotsNum h

/-- **Rejected commands.**  A call that fails leaves the queue intact if and only if it fails before
the lock is taken, or the window is not full, or the TFD in the slot of `write_ptr` is clear
already. -/
theorem rejected_intact_iff {n : ℕ} (hpow : ∃ k, n = 2 ^ k)
    {ls : List (Label Gen2Queue Gen2Action (Option (Except Errno ℕ)))}
    (hrun : Run (gen2Step trans dma) (emptyGen2 n hpow) ls s) {cmd : Cmd} {f : Gen2Faults}
    {e : Errno} (h : gen2EnqueueHcmd trans dma cmd f s = some (.error e, s')) :
    Intact trans s s' ↔ RefusedEarly cmd f ∨ outstanding trans s.txq < s.txq.nWindow ∨
      (s.slots (getCmdIndex s.txq s.txq.writePtr)).tfd = Tfd.clear := by
  have hring : OnRing trans s :=
    (Run.induct (C := fun _ => True) (fun _ _ _ _ hstep _ hi => gen2Step_onRing hstep hi) hrun
      (fun _ _ => trivial) ⟨trans.max_pos, trans.max_pos⟩).1
  have hslot := outstanding_slot_iff hring
  -- an outstanding command has another slot as long as the window is not full
  have hother : outstanding trans s.txq < s.txq.nWindow → ∀ k < outstanding trans s.txq,
      slotOf trans s.txq k ≠ getCmdIndex s.txq s.txq.writePtr := fun hroom k hk e =>
    absurd (hslot.mp ⟨k, hk, e⟩) (by omega)
  obtain ⟨hearly, rfl⟩ | ⟨hearly, hspace, rfl⟩ | ⟨hearly, hspace, htxq, hslots⟩ :=
    gen2EnqueueHcmd_rejected h
  · exact ⟨fun _ => .inl hearly, fun _ => ⟨rfl, fun _ _ => rfl⟩⟩
  · constructor
    · intro hintact
      refine .inr (or_iff_not_imp_left.mpr fun hfull => ?_)
      obtain ⟨k, hk, e⟩ := hslot.mpr (by omega)
      have heq := hintact.slots k hk
      rw [e, modify_slots_self] at heq
      exact (congrArg Slot.tfd heq).symm
    · rintro (h | hroom | hclear)
      · exact absurd h hearly
      · exact ⟨rfl, fun k hk => modify_slots_of_ne _ _ (hother hroom k hk)⟩
      refine ⟨rfl, fun k _ => ?_⟩
      have : (s.modify (getCmdIndex s.txq s.txq.writePtr) fun slot =>
          { slot with tfd := Tfd.clear }).slots = s.slots := by
        rw [Gen2Queue.modify, ← hclear]
        exact Function.update_eq_self _ _
      rw [this]
  · have hroom : outstanding trans s.txq < s.txq.nWindow := by
      by_contra hfull
      have := txqSpace_full hring (by omega)
      omega
    exact ⟨fun _ => .inr (.inl hroom),
      fun _ => ⟨htxq, fun k hk => hslots _ (hother hroom k hk)⟩⟩

def plainCmd (async : Bool) : Cmd where
  id := 0x11c
  flags := { async := async }

def mappedCmd : Cmd where
  id := 0x11c
  chunk0 := { data := List.replicate 4 1 }
  chunk1 := { data := List.replicate 40 2, nocopy := true }

def faultsOf (mapsFail : Bool) : Gen2Faults where
  maps k := if mapsFail then none else some (4096 * (k + 1))

def someDma : Dma := ⟨0x10000, 0x20000, 16⟩

/-- With one command on the queue, the mapping of the next one fails. -/
theorem rejected_intact_iff_unmapped :
    ∃ ls s s', execute (gen2Step ring256 someDma) (emptyGen2 32 ⟨5, rfl⟩)
        [.enqueue (plainCmd true) (faultsOf false)] = some (ls, s) ∧
      gen2EnqueueHcmd ring256 someDma mappedCmd (faultsOf true) s = some (.error .enomem, s') ∧
      outstanding ring256 s.txq = 1 ∧
      (Intact ring256 s s' ↔ RefusedEarly mappedCmd (faultsOf true) ∨
        outstanding ring256 s.txq < s.txq.nWindow ∨
        (s.slots (getCmdIndex s.txq s.txq.writePtr)).tfd = Tfd.clear) :=
  ⟨_, _, _, rfl, rfl, rfl, rejected_intact_iff ⟨5, rfl⟩
    (execute_run (show execute (gen2Step ring256 someDma) (emptyGen2 32 ⟨5, rfl⟩)
      [.enqueue (plainCmd true) (faultsOf false)] = _ from rfl)).1 rfl⟩

/-- Thirty-two commands fill the slots.  The next one is rejected for lack of space, and the TFD of
the oldest one has lost its transfer buffer. -/
theorem full_window_rejected_clears :
    ∃ ls s s', execute (gen2Step ring256 someDma) (emptyGen2 32 ⟨5, rfl⟩)
        (List.replicate 31 (.enqueue (plainCmd true) (faultsOf false)) ++
          [.enqueue (plainCmd false) (faultsOf false)]) = some (ls, s) ∧
      outstanding ring256 s.txq = 32 ∧ slotOf ring256 s.txq 0 = 0 ∧
      gen2EnqueueHcmd ring256 someDma (plainCmd false) (faultsOf false) s =
        some (.error .enospc, s') ∧
      (s.slots 0).tfd.numTbs = 1 ∧ (s'.slots 0).tfd.numTbs = 0 ∧ ¬ Intact ring256 s s' := by
  refine ⟨_, _, _, rfl, rfl, rfl, rfl, rfl, rfl, ?_⟩
  intro hintact
  exact absurd (congrArg (fun slot => slot.tfd.numTbs) (hintact.slots 0 (by decide))) (by decide)

end Iwlwifi.Iwl.Pcie.Hcmd
