import Iwlwifi.DataQueueRun

/-! # What a reclaim frees

`iwl_pcie_reclaim` is told a sequence number and frees the entries before it.  Three kinds of
indices meet: the number itself, the entry it is folded to, and the pointers of the ring.

* **The target** (`gap`).  The distance from `read_ptr` to the first position that is congruent to
  the number modulo `n_window`.
* **The decision** (`reclaimBegin_eq`).  The reclaim goes ahead exactly when that position is after
  `read_ptr` and not after `write_ptr` (`Reclaims`): the folded test of the entry before the target
  decides this because fewer than `n_window` entries are outstanding.
* **The loop** (`reclaimedTo`).  The state after `k` iterations, in closed form; `free_reclaimedTo`
  is one iteration.
* **The result** (`reclaim_exact`).  A flush also hands back the overflow queue, in front of the
  frames of the ring. -/

namespace Iwlwifi.Iwl.Pcie

open Iwlwifi.Ring List

variable {α : Type} {trans : Trans} {txq : Txq} {s s' : DataQueue α}

/-- The distance from `read_ptr` to the first position congruent to `ssn`. -/
def gap (txq : Txq) (ssn : ℕ) : ℕ := off txq.nWindow txq.readPtr ssn

/-- The queue is in use, the caller's list is empty, and the first position congruent to `ssn` is
after `read_ptr` and not after `write_ptr`. -/
def Reclaims (trans : Trans) (ssn : ℕ) (dirty : Bool) (s : DataQueue α) : Prop :=
  s.queueUsed = true ∧ dirty = false ∧ 0 < gap s.txq ssn ∧ gap s.txq ssn ≤ outstanding trans s.txq

instance (trans : Trans) (ssn : ℕ) (dirty : Bool) (s : DataQueue α) :
    Decidable (Reclaims trans ssn dirty s) :=
  inferInstanceAs (Decidable (_ ∧ _ ∧ _ ∧ _))

/-- The entries with the `k` ones from position `h` on cleared. -/
def cleared (n h k : ℕ) (entries : ℕ → Option α) : ℕ → Option α :=
  fun j => if ∃ i < k, (h + i) % n = j then none else entries j

/-! ### The decision -/

theorem Wf.used_iff_gap {phase : Phase} (h : Wf trans txq phase) (ssn : ℕ) :
    txqUsed txq (txqDecWrap trans (getCmdIndex txq ssn)) txq.readPtr txq.writePtr = true ↔
      0 < gap txq ssn ∧ gap txq ssn ≤ outstanding trans txq := by
  have hroom := h.room
  have hdec := txqDecWrap_succ_modEq h.window ssn
  have hpos := txq.window_pos
  rw [txqUsed_iff_outstanding h.window h.read h.room]
  constructor
  · rintro ⟨k, hk, e⟩
    have hgap : gap txq ssn = k + 1 :=
      off_unique (by omega) ((Nat.ModEq.add_right 1 e.symm).trans hdec)
    omega
  rintro ⟨h₁, h₂⟩
  have hspec : txq.readPtr + gap txq ssn ≡ ssn [MOD txq.nWindow] := off_spec hpos _ _
  obtain ⟨k, hk⟩ := Nat.exists_eq_add_of_lt h₁
  rw [Nat.zero_add] at hk
  rw [hk] at hspec h₂
  refine ⟨k, by omega, ?_⟩
  exact Nat.ModEq.add_right_cancel' 1 (hdec.trans hspec.symm)

theorem reclaimBegin_eq (h : Wf trans s.txq s.phase) (ssn : ℕ) (isFlush dirty : Bool) :
    reclaimBegin trans ssn isFlush dirty s =
      if Reclaims trans ssn dirty s then
        { s with
          phase := .freeing (getCmdIndex s.txq ssn) s.txq.readPtr isFlush
          skbs := []
          returned := s.returned ++ s.skbs }
      else s := by
  have hused := h.used_iff_gap ssn
  unfold reclaimBegin
  dsimp only
  by_cases hc : Reclaims trans ssn dirty s
  · obtain ⟨hq, hd, h₁, h₂⟩ := id hc
    have hne : s.txq.writePtr ≠ s.txq.readPtr := by
      intro e
      rw [outstanding_eq h.read, e, off_self trans.max_pos] at h₂
      omega
    have hidx : getCmdIndex s.txq s.txq.readPtr ≠ getCmdIndex s.txq ssn := by
      rw [getCmdIndex_eq, getCmdIndex_eq]
      intro e
      have h0 : gap s.txq ssn = 0 := off_unique s.txq.window_pos e
      omega
    rw [if_pos hc]
    simp [hne, hq, hidx, hused.mpr ⟨h₁, h₂⟩, hd]
  · rw [if_neg hc]
    split
    · rfl
    split
    · rfl
    rename_i hq
    split
    · rfl
    split
    · rfl
    rename_i hu
    rw [Bool.not_eq_true', Bool.not_eq_false, hused] at hu
    split
    · rfl
    next hd => exact absurd ⟨by simpa using hq, by simpa using hd, hu⟩ hc

/-! ### The loop -/

/-- The state after `k` iterations of the loop. -/
def reclaimedTo (trans : Trans) (ssn : ℕ) (isFlush : Bool) (s : DataQueue α) (k : ℕ) :
    DataQueue α :=
  { s with
    phase := .freeing (getCmdIndex s.txq ssn) ((s.txq.readPtr + k) % trans.maxTfdQueueSize) isFlush
    skbs := (ringSkbs trans s).take k
    entries := cleared s.txq.nWindow s.txq.readPtr k s.entries
    returned := s.returned ++ s.skbs }

theorem cleared_zero (n h : ℕ) (entries : ℕ → Option α) : cleared n h 0 entries = entries := by
  funext j
  simp [cleared]

theorem update_cleared (n h k : ℕ) (entries : ℕ → Option α) :
    Function.update (cleared n h k entries) ((h + k) % n) none = cleared n h (k + 1) entries := by
  funext j
  by_cases hj : j = (h + k) % n
  · subst hj
    rw [Function.update_self, cleared, if_pos ⟨k, by omega, rfl⟩]
  rw [Function.update_of_ne hj]
  unfold cleared
  have hiff : (∃ i < k + 1, (h + i) % n = j) ↔ ∃ i < k, (h + i) % n = j := by
    constructor
    · rintro ⟨i, hi, e⟩
      refine ⟨i, ?_, e⟩
      have hik : i ≠ k := by
        rintro rfl
        exact hj e.symm
      omega
    · rintro ⟨i, hi, e⟩
      exact ⟨i, by omega, e⟩
  simp only [hiff]

theorem cleared_of_le {n h k i : ℕ} (hk : k ≤ i) (hi : i < n) (entries : ℕ → Option α) :
    cleared n h k entries ((h + i) % n) = entries ((h + i) % n) := by
  refine if_neg ?_
  rintro ⟨i', hi', e⟩
  have := slot_inj (by omega) hi e
  omega

section
variable (h : Held trans s) (hidle : s.phase = .idle)
include h hidle

theorem Held.ringView_idle :
    ringView trans s.txq s.entries = (ringSkbs trans s).map some := by
  obtain ⟨skbs, hskbs⟩ := h.filled
  rw [hidle] at hskbs
  simp only [passed, replicate_zero, nil_append] at hskbs
  rw [ringSkbs, hskbs, filterMap_id_some]

theorem length_ringSkbs :
    (ringSkbs trans s).length = outstanding trans s.txq := by
  have hlen := congrArg List.length (h.ringView_idle hidle)
  rw [ringView, length_contents, length_map] at hlen
  exact hlen.symm

theorem Held.entry_eq {k : ℕ} (hk : k < (ringSkbs trans s).length) :
    s.entries ((s.txq.readPtr + k) % s.txq.nWindow) = some (ringSkbs trans s)[k] := by
  have hcell := congrArg (·[k]?) (h.ringView_idle hidle)
  rw [length_ringSkbs h hidle] at hk
  simp only [ringView, contents, List.getElem?_map, List.getElem?_range hk,
    Option.map_some] at hcell
  rw [List.getElem?_eq_getElem (by rw [length_ringSkbs h hidle]; exact hk)] at hcell
  exact Option.some.inj hcell

theorem free_reclaimedTo {ssn : ℕ} (isFlush : Bool) {k : ℕ} (hk : k < gap s.txq ssn)
    (hgap : gap s.txq ssn ≤ outstanding trans s.txq) :
    dqStep trans (reclaimedTo trans ssn isFlush s k) .free =
      some (none, reclaimedTo trans ssn isFlush s (k + 1)) := by
  have hroom := h.wf.room
  have hlen : k < (ringSkbs trans s).length := by
    rw [length_ringSkbs h hidle]
    omega
  have hfold : getCmdIndex s.txq ((s.txq.readPtr + k) % trans.maxTfdQueueSize) =
      (s.txq.readPtr + k) % s.txq.nWindow := by
    rw [getCmdIndex_eq, mod_fold (window_dvd h.wf.window)]
  have hne : (s.txq.readPtr + k) % s.txq.nWindow ≠ getCmdIndex s.txq ssn := by
    rw [getCmdIndex_eq]
    intro e
    have hk' : gap s.txq ssn = k := off_unique (by omega) e
    omega
  have hentry : cleared s.txq.nWindow s.txq.readPtr k s.entries
      ((s.txq.readPtr + k) % s.txq.nWindow) = some (ringSkbs trans s)[k] := by
    rw [cleared_of_le le_rfl (by omega), h.entry_eq hidle]
  have hnext : txqIncWrap trans ((s.txq.readPtr + k) % trans.maxTfdQueueSize) =
      (s.txq.readPtr + (k + 1)) % trans.maxTfdQueueSize := by
    rw [txqIncWrap_eq, Nat.mod_add_mod, Nat.add_assoc]
  simp only [dqStep, reclaimedTo, hfold, if_neg hne, reclaimFree, hentry, hnext, update_cleared,
    take_succ_eq_append_getElem hlen]

theorem run_reclaimedTo {ssn : ℕ} (isFlush : Bool) (hgap : gap s.txq ssn ≤ outstanding trans s.txq)
    (k : ℕ) (hk : k ≤ gap s.txq ssn) :
    ∃ ls, Run (dqStep trans) (reclaimedTo trans ssn isFlush s 0) ls
        (reclaimedTo trans ssn isFlush s k) ∧
      ls.map Label.act = List.replicate k .free := by
  induction k with
  | zero => exact ⟨[], .nil _, rfl⟩
  | succ k ih =>
    obtain ⟨ls, hrun, hacts⟩ := ih (by omega)
    refine ⟨_, hrun.concat (free_reclaimedTo h hidle isFlush hk hgap), ?_⟩
    rw [map_append, hacts, replicate_succ']
    rfl

end

/-! ### The result -/

/-- What a reclaim with something to free has done when it has published the pointer. -/
structure FreedUpTo (trans : Trans) (ssn : ℕ) (isFlush : Bool) (s s' : DataQueue α) : Prop where
  /-- `read_ptr` is the target -/
  read : s'.txq =
    { s.txq with readPtr := (s.txq.readPtr + gap s.txq ssn) % trans.maxTfdQueueSize }
  /-- which is not past `write_ptr` -/
  notPast : gap s.txq ssn + outstanding trans s'.txq = outstanding trans s.txq
  /-- the frames before it are handed back in ring order, on a flush after the overflow queue -/
  frames : ∃ freed : List α,
    contents s.txq.nWindow s.entries s.txq.readPtr (gap s.txq ssn) = freed.map some ∧
      s'.skbs = (if isFlush ∧ s.txq.lowMark < txqSpace trans s'.txq ∧ s.stopped = true then
        s.overflowQ else []) ++ freed
  /-- their entries are cleared, and no others -/
  entries : s'.entries = cleared s.txq.nWindow s.txq.readPtr (gap s.txq ssn) s.entries

/-- The actions of a reclaim that frees `d` entries, until it has published the pointer. -/
def reclaimActs (α : Type) (ssn : ℕ) (isFlush dirty : Bool) (d : ℕ) : List (TxAction α) :=
  .reclaim ssn isFlush dirty :: List.replicate d .free ++ [.publish]

theorem Held.reclaim (h : Held trans s) (hidle : s.phase = .idle) {ssn : ℕ} {dirty : Bool}
    (isFlush : Bool) (hc : Reclaims trans ssn dirty s) :
    ∃ ls s', Run (dqStep trans) s ls s' ∧
      ls.map Label.act = reclaimActs α ssn isFlush dirty (gap s.txq ssn) ∧
      FreedUpTo trans ssn isFlush s s' ∧ ∀ tfdNum p f, s'.phase ≠ .freeing tfdNum p f := by
  obtain ⟨-, -, -, hgap⟩ := id hc
  set d := gap s.txq ssn with hd
  have hbegin : dqStep trans s (.reclaim ssn isFlush dirty) =
      some (none, reclaimedTo trans ssn isFlush s 0) := by
    have hread : (s.txq.readPtr + 0) % trans.maxTfdQueueSize = s.txq.readPtr :=
      Nat.mod_eq_of_lt h.wf.read
    simp only [dqStep, hidle, reclaimBegin_eq h.wf, if_pos hc, reclaimedTo, hread, cleared_zero,
      take_zero]
  obtain ⟨ls, hloop, hacts⟩ := run_reclaimedTo h hidle isFlush hgap d le_rfl
  have harrived : getCmdIndex s.txq ((s.txq.readPtr + d) % trans.maxTfdQueueSize) =
      getCmdIndex s.txq ssn := by
    rw [getCmdIndex_eq, getCmdIndex_eq, mod_fold (window_dvd h.wf.window)]
    exact off_spec s.txq.window_pos _ _
  have hpublish : dqStep trans (reclaimedTo trans ssn isFlush s d) .publish =
      some (none, reclaimPublish trans ((s.txq.readPtr + d) % trans.maxTfdQueueSize) isFlush
        (reclaimedTo trans ssn isFlush s d)) := if_pos harrived
  have hout : d + outstanding trans
      { s.txq with readPtr := (s.txq.readPtr + d) % trans.maxTfdQueueSize } =
        outstanding trans s.txq := by
    rw [outstanding_eq (q := { s.txq with readPtr := _ }) (Nat.mod_lt _ trans.max_pos)]
    rw [outstanding_eq h.wf.read] at hgap ⊢
    rw [off_mod_left trans.max_pos, off_advance trans.max_pos hgap]
    omega
  have hfreed : contents s.txq.nWindow s.entries s.txq.readPtr d =
      ((ringSkbs trans s).take d).map some := by
    rw [map_take, ← h.ringView_idle hidle, ringView, ← Nat.add_sub_of_le hgap,
      contents_add, take_left' (length_contents _ _ _)]
  refine ⟨_, _, .cons hbegin (hloop.concat hpublish), ?_, ?_⟩
  · rw [map_cons, map_append, hacts]
    rfl
  unfold reclaimPublish
  dsimp only
  split
  next hsplice =>
    rw [Bool.and_eq_true, decide_eq_true_eq] at hsplice
    obtain ⟨hspace, hstopped⟩ := hsplice
    refine ⟨⟨rfl, hout, ⟨_, hfreed, ?_⟩, rfl⟩, by simp⟩
    dsimp only [reclaimedTo] at hspace hstopped ⊢
    cases isFlush <;> simp [hspace, hstopped]
  next hsplice =>
    rw [Bool.and_eq_true, decide_eq_true_eq] at hsplice
    refine ⟨⟨rfl, hout, ⟨_, hfreed, ?_⟩, rfl⟩, by simp⟩
    refine (nil_append _).symm.trans (congrArg (· ++ _) (if_neg ?_).symm)
    exact fun hc => hsplice hc.2

theorem DqEffect.keeps {a : TxAction α} {o : Option TxOut} (he : DqEffect trans s a o s')
    (ha : ∀ ssn f d, a ≠ .reclaim ssn f d) (hp : ∀ tfdNum p f, s.phase ≠ .freeing tfdNum p f) :
    (s'.txq.readPtr = s.txq.readPtr ∧ s'.skbs = s.skbs) ∧
      ∀ tfdNum p f, s'.phase ≠ .freeing tfdNum p f := by
  have htx : ∀ {skb : α} {f : TxFault} {o : TxOut} {s s' : DataQueue α},
      TxEffect trans skb f s (o, s') →
        (s'.txq.readPtr = s.txq.readPtr ∧ s'.skbs = s.skbs) ∧ s'.phase = s.phase := by
    intro skb f o s s' he
    cases he <;> exact ⟨⟨rfl, rfl⟩, rfl⟩
  cases he with
  | tx he | drained h _ he => exact ⟨(htx he).1, (htx he).2 ▸ hp⟩
  | ignored _ | begun _ _ => exact absurd rfl (ha _ _ _)
  | freed h _ => exact absurd h (hp _ _ _)
  | spliced h _ _ => exact absurd h (hp _ _ _)
  | published h _ => exact absurd h (hp _ _ _)
  | checked _ _ _ | full _ _ _ | woken _ | finished _ => exact ⟨⟨rfl, rfl⟩, by simp⟩

/-- **A reclaim is exact.**  Between two reclaims: under `Reclaims` the entries up to the first
position congruent to `ssn` are freed, and its drain loop and other transmissions leave `read_ptr`
and the list alone.  Otherwise nothing changes. -/
theorem reclaim_exact {n : ℕ} (hpow : ∃ k, n = 2 ^ k) (hn : n ≤ trans.maxTfdQueueSize)
    (hgen : trans.gen2 = false → n = trans.maxTfdQueueSize) {ls : List (DqLabel α)}
    (hrun : Run (dqStep trans) (emptyDataQueue α n hpow) ls s) (hidle : s.phase = .idle)
    (ssn : ℕ) (isFlush dirty : Bool) :
    (Reclaims trans ssn dirty s →
      ∃ ls s', Run (dqStep trans) s ls s' ∧
        ls.map Label.act = reclaimActs α ssn isFlush dirty (gap s.txq ssn) ∧
        FreedUpTo trans ssn isFlush s s' ∧
        ∀ ls' s'', Run (dqStep trans) s' ls' s'' →
          (∀ l ∈ ls', ∀ ssn f d, l.act ≠ .reclaim ssn f d) →
          s''.txq.readPtr = s'.txq.readPtr ∧ s''.skbs = s'.skbs) ∧
    (¬ Reclaims trans ssn dirty s →
      dqStep trans s (.reclaim ssn isFlush dirty) = some (none, s)) := by
  obtain ⟨hheld, -⟩ := Run.induct (I := Held trans) (C := fun _ => True)
    (fun s a b s' h _ hs => ((dqStep_effect h).held hs).1) hrun (fun _ _ => trivial)
    (emptyDataQueue_held (α := α) hpow hn hgen).1
  constructor
  · intro hc
    obtain ⟨ls, s', hreclaim, hacts, hfreed, hphase⟩ := hheld.reclaim hidle isFlush hc
    refine ⟨ls, s', hreclaim, hacts, hfreed, ?_⟩
    intro ls' s'' hafter hno
    refine (Run.induct
      (I := fun t => (t.txq.readPtr = s'.txq.readPtr ∧ t.skbs = s'.skbs) ∧
        ∀ tfdNum p f, t.phase ≠ .freeing tfdNum p f)
      (C := fun l => ∀ ssn f d, l.act ≠ .reclaim ssn f d) ?_ hafter hno
      ⟨⟨rfl, rfl⟩, hphase⟩).1.1
    intro t a b t' hstep hact ht
    obtain ⟨⟨h₁, h₂⟩, h₃⟩ := (dqStep_effect hstep).keeps hact ht.2
    exact ⟨⟨h₁.trans ht.1.1, h₂.trans ht.1.2⟩, h₃⟩
  · intro hc
    simp only [dqStep, hidle, reclaimBegin_eq hheld.wf, if_neg hc]

/-- A queue of 16 entries that has wrapped around: 10 frames freed, 13 outstanding. -/
def wrappedActs : List (TxAction ℕ) := send 0 10 ++ reclaims 10 10 ++ send 10 13

/-- The reclaim up to number 20, entry 4, frees the ten frames from 10 on. -/
theorem reclaim_exact_wrapped :
    ∃ ls s, execute (dqStep gen2Ring256) (emptyDataQueue ℕ 16 ⟨4, rfl⟩) wrappedActs =
        some (ls, s) ∧ Reclaims gen2Ring256 20 false s ∧
      ∃ ls s', Run (dqStep gen2Ring256) s ls s' ∧
        ls.map Label.act = reclaimActs ℕ 20 false false (gap s.txq 20) ∧
        FreedUpTo gen2Ring256 20 false s s' ∧
        ∀ ls' s'', Run (dqStep gen2Ring256) s' ls' s'' →
          (∀ l ∈ ls', ∀ ssn f d, l.act ≠ .reclaim ssn f d) →
          s''.txq.readPtr = s'.txq.readPtr ∧ s''.skbs = s'.skbs := by
  refine exists_execute rfl fun hrun => ⟨by decide, ?_⟩
  exact (reclaim_exact ⟨4, rfl⟩ (by decide) (by decide) hrun rfl 20 false false).1 (by decide)

/-- A flush of a queue that has overflowed hands back more than the frames of the ring positions. -/
theorem flush_returns_overflow :
    ∃ ls s ls' s', execute (dqStep gen2Ring256) (emptyDataQueue ℕ 16 ⟨4, rfl⟩) (send 0 16) =
        some (ls, s) ∧ s.phase = .idle ∧
      execute (dqStep gen2Ring256) s (reclaimActs ℕ 12 true false 12) = some (ls', s') ∧
      contents 16 s.entries s.txq.readPtr 12 = (List.range 12).map some ∧
      s'.skbs = [15] ++ List.range 12 :=
  ⟨_, _, _, _, rfl, rfl, rfl, by decide, by decide⟩

end Iwlwifi.Iwl.Pcie
