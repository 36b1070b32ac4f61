import Iwlwifi.DataQueue

/-! # Invariants of a data queue

* `Wf`: the sizes fit, fewer than `n_window` entries are outstanding, and a reclaim in progress is
  at a position between the pointers, at or before the one it was asked for.  The test for the
  room on the ring (`NoRoom`) and the used test of the reclaim keep it (`DqEffect.wf`).
* `Filled`: of the entries between the pointers those the reclaim in progress has passed are empty
  and all others hold a skb.  A failing transmission writes to the entry just past them. -/

namespace Iwlwifi.Iwl.Pcie

open Function Iwlwifi.Ring List

variable {α : Type} {trans : Trans} {txq : Txq} {s s' : DataQueue α}

def InRange (trans : Trans) (txq : Txq) : Phase → Prop
  | .freeing tfdNum p _ => p < trans.maxTfdQueueSize ∧
      ∃ e, off trans.maxTfdQueueSize txq.readPtr p ≤ e ∧ e ≤ outstanding trans txq ∧
        (txq.readPtr + e) % txq.nWindow = tfdNum
  | _ => True

structure Wf (trans : Trans) (txq : Txq) (phase : Phase) : Prop where
  window : txq.nWindow ≤ trans.maxTfdQueueSize
  gen1 : trans.gen2 = false → txq.nWindow = trans.maxTfdQueueSize
  high : 2 ≤ txq.highMark
  read : txq.readPtr < trans.maxTfdQueueSize
  write : txq.writePtr < trans.maxTfdQueueSize
  room : outstanding trans txq < txq.nWindow
  range : InRange trans txq phase

def passed (trans : Trans) (txq : Txq) : Phase → ℕ
  | .freeing _ p _ => off trans.maxTfdQueueSize txq.readPtr p
  | _ => 0

/-! ### Pointers -/

theorem outstanding_of_room (hhigh : 2 ≤ txq.highMark) (hn : txq.nWindow ≤ trans.maxTfdQueueSize)
    (h : ¬ NoRoom trans txq) : outstanding trans txq + 2 ≤ txq.nWindow := by
  have hspace : 2 ≤ txqSpace trans txq := by
    unfold NoRoom at h
    omega
  unfold txqSpace at hspace
  dsimp only at hspace
  split at hspace <;> split at hspace <;> omega

theorem Wf.push {phase : Phase} (h : Wf trans txq phase) (hroom : ¬ NoRoom trans txq) :
    outstanding trans { txq with writePtr := txqIncWrap trans txq.writePtr } =
        outstanding trans txq + 1 ∧
      Wf trans { txq with writePtr := txqIncWrap trans txq.writePtr } phase := by
  have hn := h.window
  have h2 := outstanding_of_room h.high hn hroom
  have hout := outstanding_push trans txq h.read (by omega)
  refine ⟨hout, ⟨hn, h.gen1, h.high, h.read, txqIncWrap_lt _ _, ?_, ?_⟩⟩
  · rw [hout]
    dsimp only
    omega
  have hr := h.range
  cases phase with
  | freeing tfdNum p isFlush =>
    obtain ⟨hp, e, h₁, h₂, h₃⟩ := hr
    exact ⟨hp, e, h₁, by rw [hout]; omega, h₃⟩
  | _ => trivial

theorem txqDecWrap_succ_modEq (hn : txq.nWindow ≤ trans.maxTfdQueueSize) (ssn : ℕ) :
    txqDecWrap trans (getCmdIndex txq ssn) + 1 ≡ ssn [MOD txq.nWindow] := by
  have hdvd := window_dvd hn
  unfold txqDecWrap
  rw [trans.and_mask, getCmdIndex_eq]
  calc (ssn % txq.nWindow + (2 ^ 32 - 1)) % trans.maxTfdQueueSize + 1
      ≡ ssn % txq.nWindow + (2 ^ 32 - 1) + 1 [MOD txq.nWindow] :=
        Nat.ModEq.add_right 1 ((Nat.mod_modEq _ _).of_dvd hdvd)
    _ = ssn % txq.nWindow + 2 ^ 32 := by omega
    _ ≡ ssn % txq.nWindow + 0 [MOD txq.nWindow] :=
        Nat.ModEq.add_left _ (Nat.modEq_zero_iff_dvd.mpr (hdvd.trans trans.max_dvd))
    _ ≡ ssn [MOD txq.nWindow] := Nat.mod_modEq _ _

theorem Wf.begin {phase : Phase} (h : Wf trans txq phase) {ssn : ℕ} (isFlush : Bool)
    (hused : txqUsed txq (txqDecWrap trans (getCmdIndex txq ssn)) txq.readPtr txq.writePtr = true) :
    Wf trans txq (.freeing (getCmdIndex txq ssn) txq.readPtr isFlush) := by
  refine ⟨h.window, h.gen1, h.high, h.read, h.write, h.room, h.read, ?_⟩
  obtain ⟨k, hk, e⟩ := (txqUsed_iff_outstanding h.window h.read h.room _).mp hused
  refine ⟨k + 1, ?_, hk, ?_⟩
  · rw [off_self trans.max_pos]
    exact Nat.zero_le _
  · have e' : txq.readPtr + k ≡ _ [MOD txq.nWindow] := e.symm
    rw [getCmdIndex_eq txq ssn]
    exact (Nat.ModEq.add_right 1 e').trans (txqDecWrap_succ_modEq h.window ssn)

variable {tfdNum p : ℕ} {isFlush : Bool}

theorem Wf.lt_of_ne (h : Wf trans txq (.freeing tfdNum p isFlush))
    (hne : getCmdIndex txq p ≠ tfdNum) :
    off trans.maxTfdQueueSize txq.readPtr p < outstanding trans txq ∧
      Wf trans txq (.freeing tfdNum (txqIncWrap trans p) isFlush) ∧
      off trans.maxTfdQueueSize txq.readPtr (txqIncWrap trans p) =
        off trans.maxTfdQueueSize txq.readPtr p + 1 := by
  obtain ⟨hp, e, h₁, h₂, h₃⟩ := h.range
  have hw := h.window
  have hr := h.room
  have hlt : off trans.maxTfdQueueSize txq.readPtr p < e := by
    rcases Nat.lt_or_eq_of_le h₁ with hlt | heq
    · exact hlt
    exfalso
    apply hne
    rw [getCmdIndex_eq, ← h₃, ← heq]
    exact mod_eq_off trans.max_pos (window_dvd hw) txq.readPtr p
  have hoff : off trans.maxTfdQueueSize txq.readPtr (txqIncWrap trans p) =
      off trans.maxTfdQueueSize txq.readPtr p + 1 := by
    rw [txqIncWrap_eq, off_mod_right trans.max_pos, off_succ (by omega)]
  refine ⟨by omega, ⟨hw, h.gen1, h.high, h.read, h.write, hr, txqIncWrap_lt _ _, e, ?_, h₂, h₃⟩,
    hoff⟩
  omega

theorem Wf.publish (h : Wf trans txq (.freeing tfdNum p isFlush)) (phase : Phase)
    (hphase : ∀ q : Txq, InRange trans q phase) :
    outstanding trans { txq with readPtr := p } =
        outstanding trans txq - off trans.maxTfdQueueSize txq.readPtr p ∧
      Wf trans { txq with readPtr := p } phase := by
  obtain ⟨hp, e, h₁, h₂, -⟩ := h.range
  have hr := h.room
  have hout : outstanding trans { txq with readPtr := p } =
      outstanding trans txq - off trans.maxTfdQueueSize txq.readPtr p := by
    rw [outstanding_eq (q := { txq with readPtr := p }) hp]
    rw [outstanding_eq h.read] at h₂ ⊢
    exact off_sub trans.max_pos (h₁.trans h₂)
  refine ⟨hout, ⟨h.window, h.gen1, h.high, hp, h.write, ?_, hphase _⟩⟩
  rw [hout]
  dsimp only
  omega

theorem Wf.phase {phase phase' : Phase} (h : Wf trans txq phase)
    (hphase : InRange trans txq phase') : Wf trans txq phase' :=
  ⟨h.window, h.gen1, h.high, h.read, h.write, h.room, hphase⟩

theorem TxEffect.wf {skb : α} {f : TxFault} {o : TxOut} (he : TxEffect trans skb f s (o, s'))
    (h : Wf trans s.txq s.phase) : Wf trans s'.txq s'.phase := by
  cases he with
  | failed => exact h
  | overflowed => exact h
  | placed _ _ hroom => exact (h.push hroom).2

theorem reclaimFree_txq (trans : Trans) (tfdNum p : ℕ) (isFlush : Bool) (s : DataQueue α) :
    (reclaimFree trans tfdNum p isFlush s).txq = s.txq ∧
      (reclaimFree trans tfdNum p isFlush s).phase =
        .freeing tfdNum (txqIncWrap trans p) isFlush := by
  unfold reclaimFree
  dsimp only
  split <;> exact ⟨rfl, rfl⟩

theorem DqEffect.wf {a : TxAction α} {o : Option TxOut} (he : DqEffect trans s a o s')
    (h : Wf trans s.txq s.phase) : Wf trans s'.txq s'.phase := by
  cases he with
  | tx he => exact he.wf h
  | ignored _ => exact h
  | begun _ hused => exact h.begin _ hused
  | @freed tfdNum p isFlush hp hne =>
    obtain ⟨htxq, hphase⟩ := reclaimFree_txq trans tfdNum p isFlush s
    rw [htxq, hphase]
    rw [hp] at h
    exact (h.lt_of_ne hne).2.1
  | spliced hp _ _ =>
    rw [hp] at h
    exact (h.publish .draining (fun _ => trivial)).2
  | published hp _ =>
    rw [hp] at h
    exact (h.publish .idle (fun _ => trivial)).2
  | drained _ _ he => exact he.wf h
  | checked _ _ _ => exact h.phase trivial
  | full _ _ _ => exact h.phase trivial
  | woken _ => exact h.phase trivial
  | finished _ => exact h.phase trivial

/-! ### Entries -/

def ringView (trans : Trans) (txq : Txq) (entries : ℕ → Option α) : List (Option α) :=
  contents txq.nWindow entries txq.readPtr (outstanding trans txq)

section
variable {phase : Phase} (h : Wf trans txq phase)
include h

theorem Wf.entryIdx_eq :
    entryIdx trans txq = (txq.readPtr + outstanding trans txq) % txq.nWindow := by
  have hfold : txq.writePtr % txq.nWindow =
      (txq.readPtr + outstanding trans txq) % txq.nWindow := by
    rw [outstanding_eq h.read]
    exact mod_eq_off trans.max_pos (window_dvd h.window) txq.readPtr txq.writePtr
  unfold entryIdx
  split
  · rw [getCmdIndex_eq, hfold]
  next hgen =>
    have hn := h.gen1 (by simpa using hgen)
    rw [← hfold, hn, Nat.mod_eq_of_lt h.write]

theorem Wf.ringView_failed (entries : ℕ → Option α) (v : Option α) :
    ringView trans txq (update entries (entryIdx trans txq) v) =
      ringView trans txq entries := by
  unfold ringView
  rw [h.entryIdx_eq, contents_update _ h.room.le h.room]
  exact set_eq_of_length_le (by simp)

theorem Wf.ringView_placed (hroom : ¬ NoRoom trans txq) (entries : ℕ → Option α) (v : Option α) :
    ringView trans { txq with writePtr := txqIncWrap trans txq.writePtr }
        (update entries (entryIdx trans txq) v) = ringView trans txq entries ++ [v] := by
  have hkeep := h.ringView_failed entries v
  unfold ringView at hkeep ⊢
  rw [(h.push hroom).1, contents_succ]
  dsimp only
  rw [hkeep, h.entryIdx_eq, update_self]

end

theorem Wf.ringView_freed (h : Wf trans txq (.freeing tfdNum p isFlush))
    (hne : getCmdIndex txq p ≠ tfdNum)
    (entries : ℕ → Option α) (v : Option α) :
    ringView trans txq (update entries (getCmdIndex txq p) v) =
      (ringView trans txq entries).set (off trans.maxTfdQueueSize txq.readPtr p) v := by
  have hlt := (h.lt_of_ne hne).1
  have hr := h.room
  unfold ringView
  rw [getCmdIndex_eq, mod_eq_off trans.max_pos (window_dvd h.window) txq.readPtr p,
    contents_update _ hr.le (by omega)]

theorem Wf.ringView_published (h : Wf trans txq (.freeing tfdNum p isFlush))
    (entries : ℕ → Option α) :
    ringView trans { txq with readPtr := p } entries =
      (ringView trans txq entries).drop (off trans.maxTfdQueueSize txq.readPtr p) := by
  unfold ringView
  rw [(h.publish .idle (fun _ => trivial)).1, contents_drop]
  dsimp only
  rw [← contents_mod (window_dvd h.window) entries (txq.readPtr + off trans.maxTfdQueueSize
    txq.readPtr p), off_spec trans.max_pos txq.readPtr p, contents_mod (window_dvd h.window)]

/-! ### Where the frames are -/

def ringSkbs (trans : Trans) (s : DataQueue α) : List α :=
  (ringView trans s.txq s.entries).filterMap id

/-- The entries between the pointers are filled, but for those the reclaim has passed. -/
def Filled (trans : Trans) (s : DataQueue α) : Prop :=
  ∃ skbs : List α, ringView trans s.txq s.entries =
    List.replicate (passed trans s.txq s.phase) none ++ skbs.map some

theorem filterMap_filled (d : ℕ) (skbs : List α) :
    (List.replicate d none ++ skbs.map some).filterMap id = skbs := by
  simp [filterMap_append]

theorem filterMap_id_some (skbs : List α) : (skbs.map some).filterMap id = skbs := by
  simp

def places (trans : Trans) (s : DataQueue α) : List α :=
  ringSkbs trans s ++ s.overflowQ ++ s.overflowSkbs ++ s.skbs ++ s.returned

def TxOut.kept (skb : α) : TxOut → List α
  | .error _ => []
  | _ => [skb]

theorem TxEffect.places {skb : α} {f : TxFault} {o : TxOut} (he : TxEffect trans skb f s (o, s'))
    (h : Wf trans s.txq s.phase) (hfill : Filled trans s) :
    Filled trans s' ∧ s'.phase = s.phase ∧ s'.overflowSkbs = s.overflowSkbs ∧
      (places trans s').Perm (places trans s ++ o.kept skb) := by
  classical
  obtain ⟨skbs, hskbs⟩ := hfill
  cases he with
  | failed e v st _ _ =>
    have hview := h.ringView_failed s.entries v
    refine ⟨⟨skbs, ?_⟩, rfl, rfl, ?_⟩
    · dsimp only
      rw [hview, hskbs]
    · simp [Pcie.places, ringSkbs, TxOut.kept, hview]
  | overflowed _ _ =>
    refine ⟨⟨skbs, hskbs⟩, rfl, rfl, ?_⟩
    rw [perm_iff_count]
    intro x
    simp only [Pcie.places, ringSkbs, TxOut.kept, count_append]
    omega
  | placed st _ hroom _ =>
    have hview := h.ringView_placed hroom s.entries (some skb)
    refine ⟨⟨skbs ++ [skb], ?_⟩, rfl, rfl, ?_⟩
    · dsimp only
      rw [hview, hskbs]
      cases hp : s.phase <;> simp [passed]
    rw [perm_iff_count]
    intro x
    simp only [Pcie.places, ringSkbs, TxOut.kept, hview, filterMap_append, count_append]
    simp
    omega

section
variable {tfdNum p : ℕ} {isFlush : Bool} (hp : s.phase = .freeing tfdNum p isFlush)
  (h : Wf trans s.txq s.phase)
include hp h

theorem reclaimFree_places (hne : getCmdIndex s.txq p ≠ tfdNum) (hfill : Filled trans s) :
    Filled trans (reclaimFree trans tfdNum p isFlush s) ∧
      (reclaimFree trans tfdNum p isFlush s).overflowSkbs = s.overflowSkbs ∧
      (places trans (reclaimFree trans tfdNum p isFlush s)).Perm (places trans s) := by
  classical
  obtain ⟨skbs, hskbs⟩ := hfill
  rw [hp] at h hskbs
  obtain ⟨hlt, -, hnext⟩ := h.lt_of_ne hne
  have hview := h.ringView_freed hne s.entries none
  simp only [passed] at hskbs
  generalize hd : off trans.maxTfdQueueSize s.txq.readPtr p = d at *
  -- the entry at the reclaim's position is the first filled one
  have hlen : (ringView trans s.txq s.entries).length = outstanding trans s.txq := by
    simp [ringView]
  have hcell : (ringView trans s.txq s.entries)[d]? = some (s.entries (getCmdIndex s.txq p)) := by
    rw [getCmdIndex_eq, mod_eq_off trans.max_pos (window_dvd h.window) s.txq.readPtr p, hd]
    simp [ringView, contents, hlt]
  cases skbs with
  | nil =>
    rw [hskbs] at hlen
    simp at hlen
    omega
  | cons skb skbs =>
    have hentry : s.entries (getCmdIndex s.txq p) = some skb := by
      rw [hskbs] at hcell
      simpa using hcell.symm
    have hview' : ringView trans s.txq (update s.entries (getCmdIndex s.txq p) none) =
        List.replicate (d + 1) none ++ skbs.map some := by
      rw [hview, hskbs]
      simp [replicate_succ']
    have hfree : reclaimFree trans tfdNum p isFlush s =
        { s with
          skbs := s.skbs ++ [skb]
          entries := update s.entries (getCmdIndex s.txq p) none
          phase := .freeing tfdNum (txqIncWrap trans p) isFlush } := by
      simp only [reclaimFree, hentry]
    rw [hfree]
    refine ⟨⟨skbs, ?_⟩, rfl, ?_⟩
    · dsimp only [passed]
      rw [hview', hnext]
    rw [perm_iff_count]
    intro x
    simp only [places, ringSkbs, hview', hskbs, filterMap_filled, count_append,
      count_cons, count_nil]
    omega

theorem publish_places (hfill : Filled trans s) :
    ∃ skbs : List α, ringView trans { s.txq with readPtr := p } s.entries = skbs.map some ∧
      (ringView trans s.txq s.entries).filterMap id = skbs := by
  obtain ⟨skbs, hskbs⟩ := hfill
  rw [hp] at h hskbs
  simp only [passed] at hskbs
  refine ⟨skbs, ?_, ?_⟩
  · rw [h.ringView_published, hskbs]
    simp
  · rw [hskbs, filterMap_filled]

end

end Iwlwifi.Iwl.Pcie
