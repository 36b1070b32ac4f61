import Iwlwifi.DataQueueInv

/-! # Runs of a data queue

Three properties of the transmit path over all interleavings of transmissions with the steps of
`iwl_pcie_reclaim`.

* **Nothing is lost** (`tx_loses_nothing_iff`), but for frames whose re-transmission from the
  overflow queue failed: the drain loop ignores what `iwl_trans_tx` returns.
* **Order** (`tx_keeps_order`).  When there is room on the ring but not yet enough to drain, a
  transmission overtakes the frames of the overflow queue.
* **No frame is stranded** (`overflow_not_stranded`), if no transmission overflows between the last
  look of the reclaim at the space and the wakeup. -/

namespace Iwlwifi.Iwl.Pcie

open List

variable {α : Type} {trans : Trans} {s s' : DataQueue α}

abbrev DqLabel (α : Type) := Label (DataQueue α) (TxAction α) (Option TxOut)

/-- A queue as `iwl_queue_init` leaves it. -/
def emptyDataQueue (α : Type) (slotsNum : ℕ) (h : ∃ k, slotsNum = 2 ^ k) : DataQueue α where
  txq := queueInit slotsNum h

def submitted (l : DqLabel α) : List α :=
  match l.act, l.out with
  | .tx skb _, some o => o.kept skb
  | _, _ => []

def placement (l : DqLabel α) : List (ℕ × α) :=
  match l.act, l.out with
  | .tx skb _, some (.ring pos) => [(pos, skb)]
  | .drain _, some (.ring pos) => (l.pre.overflowSkbs.take 1).map (pos, ·)
  | _, _ => []

def lost (l : DqLabel α) : List α :=
  match l.act, l.out with
  | .drain _, some (.error _) => l.pre.overflowSkbs.take 1
  | _, _ => []

def Succeeds (l : DqLabel α) : Prop :=
  match l.out with
  | some (.error _) => False
  | _ => True

instance (l : DqLabel α) : Decidable (Succeeds l) := by
  obtain ⟨-, -, _ | _ | _ | _, -⟩ := l <;> dsimp only [Succeeds] <;> infer_instance

/-- If this step is a transmission by a caller, it finds the queue in a state with `P`. -/
def OnTx (P : DataQueue α → Prop) (l : DqLabel α) : Prop :=
  match l.act with
  | .tx _ _ => P l.pre
  | _ => True

instance (P : DataQueue α → Prop) [DecidablePred P] (l : DqLabel α) : Decidable (OnTx P l) := by
  obtain ⟨pre, act, -, -⟩ := l
  cases act <;> dsimp only [OnTx] <;> infer_instance

theorem emptyDataQueue_wf {n : ℕ} (hpow : ∃ k, n = 2 ^ k) (hn : n ≤ trans.maxTfdQueueSize)
    (hgen : trans.gen2 = false → n = trans.maxTfdQueueSize) :
    Wf trans (emptyDataQueue α n hpow).txq .idle ∧
      outstanding trans (emptyDataQueue α n hpow).txq = 0 := by
  have h0 : outstanding trans (emptyDataQueue α n hpow).txq = 0 := by
    rw [outstanding_eq (by exact trans.max_pos)]
    exact Ring.off_self trans.max_pos
  refine ⟨⟨hn, hgen, ?_, trans.max_pos, trans.max_pos, ?_, trivial⟩, h0⟩
  · exact Nat.le_max_right _ _
  · rw [h0]
    exact (emptyDataQueue α n hpow).txq.window_pos

/-! ### Nothing is lost -/

structure Held (trans : Trans) (s : DataQueue α) : Prop where
  wf : Wf trans s.txq s.phase
  filled : Filled trans s
  /-- the list is being drained, or it is empty -/
  quiet : s.phase ≠ .draining → s.overflowSkbs = []

variable {a : TxAction α} {o : Option TxOut}

theorem DqEffect.held (he : DqEffect trans s a o s') (h : Held trans s) : Held trans s' ∧
      (lost ⟨s, a, o, s'⟩ ++ places trans s').Perm (places trans s ++ submitted ⟨s, a, o, s'⟩) := by
  classical
  have hwf := he.wf h.wf
  cases he with
  | tx he =>
    obtain ⟨hfill, hphase, hlist, hperm⟩ := he.places h.wf h.filled
    refine ⟨⟨hwf, hfill, ?_⟩, hperm⟩
    rw [hphase, hlist]
    exact h.quiet
  | ignored _ => exact ⟨h, by simp [lost, submitted]⟩
  | begun hp _ =>
    obtain ⟨skbs, hskbs⟩ := h.filled
    refine ⟨⟨hwf, ⟨skbs, ?_⟩, fun _ => h.quiet (by simp [hp])⟩, ?_⟩
    · rw [hp] at hskbs
      simpa [passed, Ring.off_self trans.max_pos] using hskbs
    rw [perm_iff_count]
    intro x
    simp only [lost, submitted, places, ringSkbs, count_append, count_nil]
    omega
  | @freed tfdNum p isFlush hp hne =>
    obtain ⟨hfill, hlist, hperm⟩ := reclaimFree_places hp h.wf hne h.filled
    refine ⟨⟨hwf, hfill, fun _ => hlist.trans (h.quiet (by simp [hp]))⟩, ?_⟩
    simpa [lost, submitted] using hperm
  | @spliced tfdNum p isFlush hp _ _ =>
    obtain ⟨skbs, hview, hring⟩ := publish_places hp h.wf h.filled
    have hlist := h.quiet (by simp [hp])
    refine ⟨⟨hwf, ⟨skbs, by simpa [passed] using hview⟩, fun hne => absurd rfl hne⟩, ?_⟩
    rw [perm_iff_count]
    intro x
    simp only [lost, submitted, places, ringSkbs, hring, hlist, hview, filterMap_id_some,
      count_append, count_nil]
    cases isFlush
    · simp
    · simp only [if_true, count_append, count_nil]
      omega
  | published hp _ =>
    obtain ⟨skbs, hview, hring⟩ := publish_places hp h.wf h.filled
    have hlist := h.quiet (by simp [hp])
    refine ⟨⟨hwf, ⟨skbs, by simpa [passed] using hview⟩, fun _ => hlist⟩, ?_⟩
    rw [perm_iff_count]
    intro x
    simp only [lost, submitted, places, ringSkbs, hring, hview, filterMap_id_some,
      count_append, count_nil]
    omega
  | @drained skb rest f o s' hp hlist he =>
    obtain ⟨hfill, hphase, -, hperm⟩ := he.places h.wf h.filled
    refine ⟨⟨hwf, hfill, fun hne => absurd (hphase.trans hp) hne⟩, ?_⟩
    rw [perm_iff_count] at hperm ⊢
    intro x
    have hx := hperm x
    cases o <;>
      simp only [lost, submitted, places, ringSkbs, hlist, TxOut.kept, take_succ_cons,
        take_zero, count_append, count_cons, count_nil] at hx ⊢ <;> omega
  | checked hp hlist _ | full hp hlist _ =>
    exact ⟨⟨hwf, by simpa [Filled, passed, hp] using h.filled, fun _ => hlist⟩,
      by simp [lost, submitted, places, ringSkbs]⟩
  | woken hp | finished hp =>
    exact ⟨⟨hwf, by simpa [Filled, passed, hp] using h.filled, fun _ => h.quiet (by simp [hp])⟩,
      by simp [lost, submitted, places, ringSkbs]⟩

section
variable {n : ℕ} (hpow : ∃ k, n = 2 ^ k) (hn : n ≤ trans.maxTfdQueueSize)
  (hgen : trans.gen2 = false → n = trans.maxTfdQueueSize)
include hn hgen

theorem emptyDataQueue_held :
    Held trans (emptyDataQueue α n hpow) ∧ places trans (emptyDataQueue α n hpow) = [] := by
  obtain ⟨hwf, h0⟩ := emptyDataQueue_wf (α := α) hpow hn hgen
  have hview : ringView trans (emptyDataQueue α n hpow).txq (emptyDataQueue α n hpow).entries =
      [] := by
    rw [ringView, h0]
    rfl
  refine ⟨⟨hwf, ⟨[], ?_⟩, fun _ => rfl⟩, ?_⟩
  · rw [hview]
    rfl
  · rw [places, ringSkbs, hview]
    rfl

theorem run_places {ls : List (DqLabel α)} (hrun : Run (dqStep trans) (emptyDataQueue α n hpow) ls s') :
    (ls.flatMap lost ++ places trans s').Perm (ls.flatMap submitted) := by
  obtain ⟨hheld, hempty⟩ := emptyDataQueue_held (α := α) hpow hn hgen
  obtain ⟨-, hall⟩ := Run.induct (I := Held trans) (C := fun _ => True)
    (fun s a b s' h _ hs => ((dqStep_effect h).held hs).1) hrun (fun _ _ => trivial) hheld
  have hflow := hrun.flow appendPreorder_perm (places trans) submitted lost
    (fun l hl => ((dqStep_effect (hall l hl).1).held (hall l hl).2.1).2)
  simpa [hempty] using hflow

end

theorem lost_eq_nil_iff (he : DqEffect trans s a o s') :
    lost ⟨s, a, o, s'⟩ = [] ↔ ∀ f, a = .drain f → ¬ TxFails trans f s := by
  cases he with
  | @drained skb rest f o s' hp hlist he =>
    cases he with
    | failed e v st hfail _ =>
      simp only [lost, hlist, take_succ_cons, take_zero, TxAction.drain.injEq,
        forall_eq', reduceCtorEq, false_iff, not_not]
      exact hfail
    | overflowed hok _ | placed st hok _ _ =>
      simp only [lost, TxAction.drain.injEq, forall_eq', true_iff]
      exact hok
  | _ => simp [lost]

/-- **No frame is lost.**  The frames for which 0 was returned are on the ring, in the overflow
queue, in the list being drained or in a list handed back, exactly when no transmission of the drain
loop has failed. -/
theorem tx_loses_nothing_iff {n : ℕ} (hpow : ∃ k, n = 2 ^ k) (hn : n ≤ trans.maxTfdQueueSize)
    (hgen : trans.gen2 = false → n = trans.maxTfdQueueSize) {ls : List (DqLabel α)}
    (hrun : Run (dqStep trans) (emptyDataQueue α n hpow) ls s') :
    (places trans s').Perm (ls.flatMap submitted) ↔
      ∀ l ∈ ls, ∀ f, l.act = .drain f → ¬ TxFails trans f l.pre := by
  have hperm := run_places hpow hn hgen hrun
  obtain ⟨-, hall⟩ := Run.induct (I := fun _ => True) (C := fun _ => True)
    (fun _ _ _ _ _ _ _ => trivial) hrun (fun _ _ => trivial) trivial
  have hlost : ls.flatMap lost = [] ↔
      ∀ l ∈ ls, ∀ f, l.act = .drain f → ¬ TxFails trans f l.pre := by
    rw [flatMap_eq_nil_iff]
    exact forall₂_congr (fun l hl => lost_eq_nil_iff (dqStep_effect (hall l hl).1))
  rw [← hlost]
  constructor
  · intro h
    have hlen := hperm.length_eq
    rw [← h.length_eq, length_append] at hlen
    exact length_eq_zero_iff.mp (by omega)
  · intro h
    rwa [h, nil_append] at hperm

def gen2Ring256 : Trans := { ring256 with gen2 := true }

/-- Send the frames with numbers from `a` on. -/
def send (a n : ℕ) : List (TxAction ℕ) := (List.range' a n).map (fun i => .tx i .none)

/-- A reclaim up to `ssn` that frees `n` entries. -/
def reclaims (ssn n : ℕ) : List (TxAction ℕ) :=
  .reclaim ssn false false :: List.replicate n .free ++ [.publish]

/-- A queue of 16 entries overflows and is drained; a transmission fails on the way. -/
theorem tx_loses_nothing_drained :
    ∃ ls s', execute (dqStep gen2Ring256) (emptyDataQueue ℕ 16 ⟨4, rfl⟩)
        (send 0 16 ++ reclaims 12 12 ++ [.drain .none, .tx 16 .buildTfd, .check, .wake, .finish]) =
        some (ls, s') ∧
      ((places gen2Ring256 s').Perm (ls.flatMap submitted) ↔
        ∀ l ∈ ls, ∀ f, l.act = .drain f → ¬ TxFails gen2Ring256 f l.pre) :=
  exists_execute rfl fun hrun => tx_loses_nothing_iff ⟨4, rfl⟩ (by decide) (by decide) hrun

/-- Frame 15 is in the overflow queue.  When it is sent from there the TFD cannot be built. -/
theorem drained_frame_lost :
    ∃ ls s', execute (dqStep gen2Ring256) (emptyDataQueue ℕ 16 ⟨4, rfl⟩)
        (send 0 16 ++ reclaims 12 12 ++ [.drain .buildTfd, .check, .wake, .finish]) =
        some (ls, s') ∧
      15 ∈ ls.flatMap submitted ∧ s'.phase = .idle ∧ 15 ∉ places gen2Ring256 s' ∧
      ¬ (places gen2Ring256 s').Perm (ls.flatMap submitted) := by
  refine ⟨_, _, rfl, by decide, rfl, by decide, ?_⟩
  intro h
  exact absurd h.length_eq (by decide)

/-! ### Order -/

/-- No frame is being drained, and none is in the overflow queue unless this one goes there, too. -/
def SendsBehind (trans : Trans) (s : DataQueue α) : Prop :=
  s.overflowSkbs = [] ∧ (s.overflowQ = [] ∨ NoRoom trans s.txq)

instance : DecidablePred (SendsBehind (α := α) trans) :=
  fun _ => inferInstanceAs (Decidable (_ ∧ (_ ∨ _)))

/-- The frames that wait: those drained before and back in the overflow queue come first. -/
def waiting (s : DataQueue α) : List α := s.overflowQ ++ s.overflowSkbs

/-- Frames are drained and in the overflow queue at the same time only while the ring has no room.
-/
structure Ordered (trans : Trans) (s : DataQueue α) : Prop where
  quiet : s.phase ≠ .draining → s.overflowSkbs = []
  tight : s.overflowQ ≠ [] → s.overflowSkbs ≠ [] → NoRoom trans s.txq

theorem Ordered.drained {skb : α} {rest : List α} {f : TxFault} {o : TxOut}
    (hp : s.phase = .draining) (hlist : s.overflowSkbs = skb :: rest)
    (he : TxEffect trans skb f { s with overflowSkbs := rest } (o, s')) (h : Ordered trans s)
    (hok : Succeeds ⟨s, .drain f, some o, s'⟩) :
    Ordered trans s' ∧
      (placement ⟨s, .drain f, some o, s'⟩).map Prod.snd ++ waiting s' = waiting s := by
  cases he with
  | failed e v st _ _ => exact hok.elim
  | overflowed _ hno =>
    refine ⟨⟨fun hne => absurd hp hne, fun _ _ => hno⟩, ?_⟩
    simp [placement, waiting, hlist]
  | placed st _ hroom _ =>
    have hempty : s.overflowQ = [] := by
      by_contra hne
      exact hroom (h.tight hne (by simp [hlist]))
    refine ⟨⟨fun hne => absurd hp hne, fun hne => absurd hempty hne⟩, ?_⟩
    simp [placement, waiting, hlist, hempty]

theorem Ordered.tx {skb : α} {f : TxFault} {o : TxOut} (he : TxEffect trans skb f s (o, s'))
    (h : Ordered trans s) (hbehind : SendsBehind trans s) :
    Ordered trans s' ∧
      (placement ⟨s, .tx skb f, some o, s'⟩).map Prod.snd ++ waiting s' =
        waiting s ++ o.kept skb := by
  obtain ⟨hlist, hbehind⟩ := hbehind
  cases he with
  | failed e v st _ _ => exact ⟨⟨h.quiet, h.tight⟩, by simp [placement, waiting, TxOut.kept]⟩
  | overflowed _ _ =>
    refine ⟨⟨h.quiet, fun _ hne => absurd hlist hne⟩, ?_⟩
    simp [placement, waiting, TxOut.kept, hlist]
  | placed st _ hroom _ =>
    have hempty : s.overflowQ = [] := hbehind.resolve_right hroom
    refine ⟨⟨h.quiet, fun _ hne => absurd hlist hne⟩, ?_⟩
    simp [placement, waiting, TxOut.kept, hlist, hempty]

def Flushing : Phase → Prop
  | .freeing _ _ isFlush => isFlush = true
  | _ => False

section
variable {a : TxAction α} {o : Option TxOut} (he : DqEffect trans s a o s')
include he

theorem DqEffect.ordered (h : Ordered trans s) (hbehind : OnTx (SendsBehind trans) ⟨s, a, o, s'⟩)
    (hok : Succeeds ⟨s, a, o, s'⟩) :
    Ordered trans s' ∧
      ((placement ⟨s, a, o, s'⟩).map Prod.snd ++ waiting s').Sublist
        (waiting s ++ submitted ⟨s, a, o, s'⟩) ∧
      (¬ Flushing s.phase → (placement ⟨s, a, o, s'⟩).map Prod.snd ++ waiting s' =
        waiting s ++ submitted ⟨s, a, o, s'⟩) := by
  have hboth {x y : List α} (e : x = y) : x.Sublist y ∧ (¬ Flushing s.phase → x = y) :=
    ⟨e ▸ .refl x, fun _ => e⟩
  cases he with
  | tx he =>
    obtain ⟨hord, e⟩ := Ordered.tx he h hbehind
    exact ⟨hord, hboth e⟩
  | drained hp hlist he =>
    obtain ⟨hord, e⟩ := Ordered.drained hp hlist he h hok
    exact ⟨hord, hboth (e.trans (append_nil _).symm)⟩
  | @freed tfdNum p isFlush hp _ =>
    have hlist := h.quiet (by simp [hp])
    have hsame : (reclaimFree trans tfdNum p isFlush s).overflowQ = s.overflowQ ∧
        (reclaimFree trans tfdNum p isFlush s).overflowSkbs = s.overflowSkbs := by
      unfold reclaimFree
      dsimp only
      split <;> exact ⟨rfl, rfl⟩
    exact ⟨⟨fun _ => hsame.2.trans hlist, fun _ hne => absurd (hsame.2.trans hlist) hne⟩,
      hboth (by simp [placement, submitted, waiting, hsame])⟩
  | @spliced tfdNum p isFlush hp _ _ =>
    have hlist := h.quiet (by simp [hp])
    refine ⟨⟨fun hne => absurd rfl hne, fun hne => absurd rfl hne⟩, ?_, ?_⟩
    · cases isFlush <;> simp [placement, submitted, waiting, hlist]
    intro hno
    cases isFlush with
    | false => simp [placement, submitted, waiting, hlist]
    | true =>
      rw [hp] at hno
      exact absurd rfl hno
  | ignored _ => exact ⟨h, hboth (by simp [placement, submitted])⟩
  | published hp _ =>
    have hlist := h.quiet (by simp [hp])
    exact ⟨⟨fun _ => hlist, fun _ hne => absurd hlist hne⟩,
      hboth (by simp [placement, submitted, waiting])⟩
  | checked _ hlist _ | full _ hlist _ =>
    exact ⟨⟨fun _ => hlist, h.tight⟩, hboth (by simp [placement, submitted, waiting])⟩
  | begun hp _ | woken hp | finished hp =>
    exact ⟨⟨fun _ => h.quiet (by simp [hp]), h.tight⟩,
      hboth (by simp [placement, submitted, waiting])⟩

theorem DqEffect.not_flushing (h : ¬ Flushing s.phase)
    (hcall : ∀ ssn dirty, a ≠ .reclaim ssn true dirty) :
    ¬ Flushing s'.phase := by
  cases he with
  | tx he => cases he <;> exact h
  | drained _ _ he => cases he <;> exact h
  | ignored _ => exact h
  | @begun ssn isFlush dirty hp _ =>
    cases isFlush with
    | false => simp [Flushing]
    | true => exact absurd rfl (hcall ssn dirty)
  | @freed tfdNum p isFlush hp _ =>
    rw [(reclaimFree_txq trans tfdNum p isFlush s).2]
    rwa [hp] at h
  | _ => simp [Flushing]

theorem DqEffect.writePtr :
    (placement ⟨s, a, o, s'⟩ = [] ∧ s'.txq.writePtr = s.txq.writePtr) ∨
    ∃ skb, placement ⟨s, a, o, s'⟩ = [(s.txq.writePtr, skb)] ∧
      s'.txq.writePtr = txqIncWrap trans s.txq.writePtr := by
  cases he with
  | tx he =>
    cases he with
    | failed => exact .inl ⟨rfl, rfl⟩
    | overflowed => exact .inl ⟨rfl, rfl⟩
    | placed => exact .inr ⟨_, rfl, rfl⟩
  | drained hp hlist he =>
    cases he with
    | failed => exact .inl ⟨rfl, rfl⟩
    | overflowed => exact .inl ⟨rfl, rfl⟩
    | placed => exact .inr ⟨_, by simp only [placement, hlist]; rfl, rfl⟩
  | @freed tfdNum p isFlush _ _ =>
    exact .inl ⟨rfl, by rw [(reclaimFree_txq trans tfdNum p isFlush s).1]⟩
  | _ => exact .inl ⟨rfl, rfl⟩

end

theorem run_positions {ls : List (DqLabel α)} (hrun : Run (dqStep trans) s ls s')
    (hw : s.txq.writePtr < trans.maxTfdQueueSize) :
    (ls.flatMap placement).map Prod.fst =
      Ring.contents trans.maxTfdQueueSize id s.txq.writePtr (ls.flatMap placement).length := by
  induction hrun with
  | nil s => rfl
  | @cons s s₁ s₂ a o ls hstep _ ih =>
    rw [flatMap_cons]
    rcases (dqStep_effect hstep).writePtr with ⟨hnone, hsame⟩ | ⟨skb, hone, hnext⟩
    · rw [hnone, nil_append, ← hsame]
      exact ih (by rw [hsame]; exact hw)
    have hw₁ : s₁.txq.writePtr < trans.maxTfdQueueSize := by
      rw [hnext]
      exact txqIncWrap_lt _ _
    rw [hone, cons_append, nil_append, map_cons, length_cons, Ring.contents_cons, ih hw₁, hnext,
      txqIncWrap_eq, Ring.contents_mod (dvd_refl _), Nat.mod_eq_of_lt hw]
    rfl

/-- **Order of submission.**  If transmissions succeed and send behind the waiting frames, the
frames on the ring followed by those that wait are those submitted, without those a flush has handed
back. -/
theorem tx_keeps_order {n : ℕ} (hpow : ∃ k, n = 2 ^ k) {ls : List (DqLabel α)}
    (hrun : Run (dqStep trans) (emptyDataQueue α n hpow) ls s')
    (hok : ∀ l ∈ ls, Succeeds l) (hbehind : ∀ l ∈ ls, OnTx (SendsBehind trans) l) :
    ((ls.flatMap placement).map Prod.snd ++ waiting s').Sublist (ls.flatMap submitted) ∧
      ((∀ l ∈ ls, ∀ ssn dirty, l.act ≠ .reclaim ssn true dirty) →
        (ls.flatMap placement).map Prod.snd ++ waiting s' = ls.flatMap submitted) ∧
      (ls.flatMap placement).map Prod.fst =
        Ring.contents trans.maxTfdQueueSize id 0 (ls.flatMap placement).length := by
  have h₀ : Ordered trans (emptyDataQueue α n hpow) := ⟨fun _ => rfl, fun hne => absurd rfl hne⟩
  have hC : ∀ l ∈ ls, OnTx (SendsBehind trans) l ∧ Succeeds l :=
    fun l hl => ⟨hbehind l hl, hok l hl⟩
  refine ⟨?_, ?_, run_positions hrun trans.max_pos⟩
  · obtain ⟨-, hall⟩ := Run.induct (I := Ordered trans)
      (fun s a b s' h hC hs => ((dqStep_effect h).ordered hs hC.1 hC.2).1) hrun hC h₀
    have hflow := hrun.flow appendPreorder_sublist waiting submitted
      (fun l => (placement l).map Prod.snd)
      (fun l hl => ((dqStep_effect (hall l hl).1).ordered (hall l hl).2.1 (hC l hl).1
        (hC l hl).2).2.1)
    rwa [← map_flatMap] at hflow
  · intro hflush
    obtain ⟨-, hall⟩ := Run.induct (I := fun s => Ordered trans s ∧ ¬ Flushing s.phase)
      (C := fun l => (OnTx (SendsBehind trans) l ∧ Succeeds l) ∧
        ∀ ssn dirty, l.act ≠ .reclaim ssn true dirty)
      (fun s a b s' h hC hs => ⟨((dqStep_effect h).ordered hs.1 hC.1.1 hC.1.2).1,
        (dqStep_effect h).not_flushing hs.2 hC.2⟩) hrun (fun l hl => ⟨hC l hl, hflush l hl⟩)
      ⟨h₀, id⟩
    have hflow := hrun.flow appendPreorder_eq waiting submitted
      (fun l => (placement l).map Prod.snd)
      (fun l hl => ((dqStep_effect (hall l hl).1).ordered (hall l hl).2.1.1 (hC l hl).1
        (hC l hl).2).2.2 (hall l hl).2.1.2)
    rwa [← map_flatMap] at hflow

/-- Frames 15 and 16 find no room and are sent when the queue is drained, before frame 17. -/
theorem tx_keeps_order_drained :
    ∃ ls s', execute (dqStep gen2Ring256) (emptyDataQueue ℕ 16 ⟨4, rfl⟩)
        (send 0 17 ++ reclaims 12 12 ++ [.drain .none, .drain .none, .check, .wake, .finish] ++
          send 17 1) = some (ls, s') ∧
      (((ls.flatMap placement).map Prod.snd ++ waiting s').Sublist (ls.flatMap submitted) ∧
        ((∀ l ∈ ls, ∀ ssn dirty, l.act ≠ .reclaim ssn true dirty) →
          (ls.flatMap placement).map Prod.snd ++ waiting s' = ls.flatMap submitted) ∧
        (ls.flatMap placement).map Prod.fst =
          Ring.contents 256 id 0 (ls.flatMap placement).length) :=
  exists_execute rfl fun hrun => tx_keeps_order ⟨4, rfl⟩ hrun (by decide) (by decide)

/-- Frame 15 waits in the overflow queue.  After a reclaim of three entries frame 16 is put on the
ring before it. -/
theorem frame_overtakes :
    ∃ ls s', execute (dqStep gen2Ring256) (emptyDataQueue ℕ 16 ⟨4, rfl⟩)
        (send 0 16 ++ reclaims 3 3 ++ send 16 1 ++ reclaims 12 9 ++
          [.drain .none, .check, .wake, .finish]) = some (ls, s') ∧
      (∀ l ∈ ls, Succeeds l) ∧ ls.flatMap submitted = List.range 17 ∧
      (ls.flatMap placement).map Prod.snd = List.range 15 ++ [16, 15] :=
  ⟨_, _, rfl, by decide, rfl, rfl⟩

/-! ### No frame is stranded -/

structure Parked (trans : Trans) (s : DataQueue α) : Prop where
  wf : Wf trans s.txq s.phase
  marks : s.txq.lowMark + 2 ≤ s.txq.nWindow
  low : 3 ≤ s.txq.lowMark
  overflowTx : s.overflowTx = true ↔ s.phase = .draining ∨ s.phase = .waking ∨ s.phase = .finishing
  /-- frames wait in a stopped queue without room to drain it -/
  parked : s.overflowQ ≠ [] → s.stopped = true ∧ txqSpace trans s.txq ≤ s.txq.lowMark
  /-- frames that overflow while the queue is drained find no room at all -/
  tight : s.overflowTx = true → s.overflowQ ≠ [] → txqSpace trans s.txq < 3
  waking : s.phase = .waking → s.overflowQ = []

/-- No transmission overflows between the last look at the space and the wakeup. -/
def RoomToWake (trans : Trans) (s : DataQueue α) : Prop :=
  s.phase = .waking → ¬ NoRoom trans s.txq

instance : DecidablePred (RoomToWake (α := α) trans) :=
  fun _ => inferInstanceAs (Decidable (_ → ¬ _))

theorem lowMark_lt_space {txq : Txq} (hn : txq.nWindow ≤ trans.maxTfdQueueSize)
    (hmarks : txq.lowMark + 2 ≤ txq.nWindow) (h0 : outstanding trans txq = 0) :
    txq.lowMark < txqSpace trans txq := by
  unfold txqSpace
  dsimp only
  split <;> split <;> omega

theorem txqSpace_push {txq : Txq} {phase : Phase} (h : Wf trans txq phase)
    (hroom : ¬ NoRoom trans txq) :
    txqSpace trans { txq with writePtr := txqIncWrap trans txq.writePtr } ≤
      txqSpace trans txq := by
  unfold txqSpace
  rw [(h.push hroom).1]
  dsimp only
  split <;> split <;> split <;> omega

theorem Parked.tx {skb : α} {f : TxFault} {o : TxOut} (he : TxEffect trans skb f s (o, s'))
    (h : Parked trans s) (hwake : RoomToWake trans s) : Parked trans s' := by
  have hwf := he.wf h.wf
  have hlow := h.low
  cases he with
  | failed e v st _ hst =>
    exact ⟨hwf, h.marks, hlow, h.overflowTx,
      fun hne => ⟨hst (h.parked hne).1, (h.parked hne).2⟩, h.tight, h.waking⟩
  | overflowed _ hno =>
    refine ⟨hwf, h.marks, hlow, h.overflowTx, fun _ => ⟨rfl, ?_⟩, fun _ _ => hno.2, ?_⟩
    · have := hno.2
      dsimp only
      omega
    · exact fun hp => absurd hno (hwake hp)
  | placed st _ hroom hst =>
    have hspace := txqSpace_push h.wf hroom
    refine ⟨hwf, h.marks, hlow, h.overflowTx, ?_, ?_, h.waking⟩
    · intro hne
      exact ⟨hst (h.parked hne).1, hspace.trans (h.parked hne).2⟩
    · intro htx hne
      exact hspace.trans_lt (h.tight htx hne)

theorem DqEffect.parked (he : DqEffect trans s a o s') (h : Parked trans s)
    (hwake : OnTx (RoomToWake trans) ⟨s, a, o, s'⟩) : Parked trans s' := by
  have hwf := he.wf h.wf
  have hlow := h.low
  have htx := h.overflowTx
  cases he with
  | tx he => exact Parked.tx he h hwake
  | ignored _ => exact h
  | begun hp _ =>
    refine ⟨hwf, h.marks, hlow, ?_, h.parked, h.tight, nofun⟩
    simpa [hp] using htx
  | @freed tfdNum p isFlush hp _ =>
    have hsame : ∃ e l, reclaimFree trans tfdNum p isFlush s =
        { s with
          entries := e
          skbs := l
          phase := .freeing tfdNum (txqIncWrap trans p) isFlush } := by
      unfold reclaimFree
      dsimp only
      split <;> exact ⟨_, _, rfl⟩
    obtain ⟨e, l, hs⟩ := hsame
    rw [hs] at hwf ⊢
    refine ⟨hwf, h.marks, hlow, ?_, h.parked, h.tight, nofun⟩
    simpa [hp] using htx
  | spliced hp _ _ =>
    exact ⟨hwf, h.marks, hlow, by simp, fun hne => absurd rfl hne,
      fun _ hne => absurd rfl hne, fun _ => rfl⟩
  | published hp hno =>
    have hfalse : ¬ s.overflowTx = true := by simpa [hp] using htx
    refine ⟨hwf, h.marks, hlow, ?_, ?_, fun htx' => absurd htx' hfalse,
      nofun⟩
    · simpa using hfalse
    · intro hne
      refine ⟨(h.parked hne).1, ?_⟩
      exact Nat.le_of_not_lt (fun hlt => hno ⟨hlt, (h.parked hne).1⟩)
  | @drained skb rest f o s' hp _ he =>
    have h' : Parked trans { s with overflowSkbs := rest } :=
      ⟨h.wf, h.marks, hlow, htx, h.parked, h.tight, h.waking⟩
    exact Parked.tx he h' (fun hp' => by simp [hp] at hp')
  | checked hp _ hspace =>
    have hon : s.overflowTx = true := htx.mpr (.inl hp)
    refine ⟨hwf, h.marks, hlow, by simpa using hon, h.parked, h.tight, fun _ => ?_⟩
    by_contra hne
    have := h.tight hon hne
    omega
  | full hp _ _ =>
    have hon : s.overflowTx = true := htx.mpr (.inl hp)
    exact ⟨hwf, h.marks, hlow, by simpa using hon, h.parked, h.tight, nofun⟩
  | woken hp =>
    have hon : s.overflowTx = true := htx.mpr (.inr (.inl hp))
    exact ⟨hwf, h.marks, hlow, by simpa using hon, fun hne => absurd (h.waking hp) hne,
      fun _ hne => absurd (h.waking hp) hne, nofun⟩
  | finished hp =>
    exact ⟨hwf, h.marks, hlow, by simp, h.parked, nofun,
      nofun⟩

theorem emptyDataQueue_parked {n : ℕ} (hpow : ∃ k, n = 2 ^ k) (h16 : 16 ≤ n)
    (hn : n ≤ trans.maxTfdQueueSize) (hgen : trans.gen2 = false → n = trans.maxTfdQueueSize) :
    Parked trans (emptyDataQueue α n hpow) := by
  obtain ⟨hwf, -⟩ := emptyDataQueue_wf (α := α) hpow hn hgen
  refine ⟨hwf, ?_, ?_, ?_, fun hne => absurd rfl hne, nofun, fun _ => rfl⟩
  · simp only [emptyDataQueue, queueInit]
    omega
  · simp [emptyDataQueue, queueInit]
  · simp [emptyDataQueue]

/-- **No frame is stranded.**  If no transmission overflows between the reclaim's last look at the
space and its wakeup, the queue is stopped and its ring not empty while frames wait; a reclaim that
empties the ring splices the overflow queue; and the queue is only woken up when that is empty. -/
theorem overflow_not_stranded {n : ℕ} (hpow : ∃ k, n = 2 ^ k) (h16 : 16 ≤ n)
    (hn : n ≤ trans.maxTfdQueueSize) (hgen : trans.gen2 = false → n = trans.maxTfdQueueSize)
    {ls : List (DqLabel α)} (hrun : Run (dqStep trans) (emptyDataQueue α n hpow) ls s')
    (hwake : ∀ l ∈ ls, OnTx (RoomToWake trans) l) :
    ∀ l ∈ ls,
      (l.post.overflowTx = false → l.post.overflowQ ≠ [] →
        l.post.stopped = true ∧ 0 < outstanding trans l.post.txq) ∧
      (l.act = .publish → l.pre.overflowQ ≠ [] → outstanding trans l.post.txq = 0 →
        l.post.overflowQ = [] ∧ l.post.phase = .draining) ∧
      (l.act = .wake → l.pre.overflowQ = []) := by
  obtain ⟨-, hall⟩ := Run.induct (I := Parked trans)
    (fun s a b s' h hC hs => (dqStep_effect h).parked hs hC) hrun hwake
    (emptyDataQueue_parked hpow h16 hn hgen)
  rintro ⟨s, a, o, t⟩ hl
  obtain ⟨hstep, hpre, hpost⟩ := hall _ hl
  dsimp only at hstep hpre hpost ⊢
  have he := dqStep_effect hstep
  refine ⟨?_, ?_, ?_⟩
  · intro _ hne
    obtain ⟨hstop, hspace⟩ := hpost.parked hne
    refine ⟨hstop, Nat.pos_of_ne_zero fun h0 => ?_⟩
    have := lowMark_lt_space hpost.wf.window hpost.marks h0
    omega
  · rintro rfl hne h0
    cases he with
    | spliced hp _ _ => exact ⟨rfl, rfl⟩
    | published hp hno =>
      exfalso
      apply hno
      exact ⟨lowMark_lt_space hpost.wf.window hpost.marks h0, (hpre.parked hne).1⟩
  · rintro rfl
    cases he with
    | woken hp => exact hpre.waking hp

/-- The queue overflows, is drained and woken up, and a frame is sent before the drain is over. -/
theorem overflow_not_stranded_drained :
    ∃ ls s', execute (dqStep gen2Ring256) (emptyDataQueue ℕ 16 ⟨4, rfl⟩)
        (send 0 17 ++ reclaims 12 12 ++ [.drain .none, .drain .none, .check, .tx 17 .none, .wake,
          .finish]) = some (ls, s') ∧
      ∀ l ∈ ls,
        (l.post.overflowTx = false → l.post.overflowQ ≠ [] →
          l.post.stopped = true ∧ 0 < outstanding gen2Ring256 l.post.txq) ∧
        (l.act = .publish → l.pre.overflowQ ≠ [] → outstanding gen2Ring256 l.post.txq = 0 →
          l.post.overflowQ = [] ∧ l.post.phase = .draining) ∧
        (l.act = .wake → l.pre.overflowQ = []) :=
  exists_execute rfl fun hrun =>
    overflow_not_stranded ⟨4, rfl⟩ (by decide) (by decide) (by decide) hrun (by decide)

/-- A reclaim is about to wake the queue.  Twelve transmissions come in between, the last one
overflows: the queue is woken up with a frame in the overflow queue. -/
theorem woken_with_overflow :
    ∃ ls s', execute (dqStep gen2Ring256) (emptyDataQueue ℕ 16 ⟨4, rfl⟩)
        (send 0 16 ++ reclaims 12 12 ++ [.drain .none, .check] ++ send 16 12 ++ [.wake, .finish]) =
        some (ls, s') ∧
      (∃ l ∈ ls, l.act = .wake ∧ l.pre.overflowQ = [27]) ∧
      s'.overflowTx = false ∧ s'.overflowQ = [27] ∧ s'.stopped = false :=
  ⟨_, _, rfl, by decide, rfl, rfl, rfl⟩

end Iwlwifi.Iwl.Pcie
