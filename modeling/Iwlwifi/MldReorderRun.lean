import Iwlwifi.MldReorder

/-! # Conservation of frames in the iwlmld reorder buffer

What the reorder buffer of a receive queue holds is what was buffered and not yet released,
whatever the firmware reports.

* **Release.**  The loop of `iwl_mld_reorder_release_frames` drains a walk of consecutive SNs
  (`walkSlots`), at most 2047 of them: `reorderReleaseFrames_released` states its
  effect in terms of `Slots.drain`.
* **Paths** (`ReorderPath`).  The ways through `iwl_mld_reorder`, one constructor each;
  `reorder_path` says that there are no others.
* **Invariant** (`QueueOk`).  `num_stored` is the number of stored frames modulo 2^16.  Every
  event keeps it and moves frames only between the arrivals, the buffer and the stack.
* **Tear-down.**  When `buf_size` divides 4096 and is below 2048, the walk of `iwl_mld_del_ba`
  visits every slot, wherever the head is. -/

namespace Iwlwifi.Iwl.Mld

open Ieee80211 Bytes Function Iwlwifi.Ring List

variable {γ : Type} {bd : BaidData γ} {queue nssn b : ℕ}

/-! ### Distances of sequence numbers -/

theorem snLess_iff_off {sn : ℕ} (hn : nssn < 65536) :
    snLess sn nssn = true ↔ 0 < off 4096 sn nssn ∧ off 4096 sn nssn < 2048 := by
  rw [snLess_eq_true]
  unfold snSub off
  omega

theorem snAdd_lt (a k : ℕ) : snAdd a k < 65536 :=
  (Nat.mod_lt _ (by omega)).trans (by omega)

theorem RxMpdu.nssn_lt (m : RxMpdu γ) : m.nssn < 65536 :=
  (Nat.mod_lt _ (by omega)).trans (by omega)

/-- The number of iterations of the release loop from `ssn` on. -/
def walkLen (ssn nssn : ℕ) : ℕ := if snLess ssn nssn then off 4096 ssn nssn else 0

def walkSlots (b : ℕ) : ℕ → ℕ → List ℕ
  | _, 0 => []
  | ssn, k + 1 => ssn % b :: walkSlots b (snInc ssn) k

theorem walkLen_lt (hn : nssn < 65536) (ssn : ℕ) : walkLen ssn nssn < 2048 := by
  unfold walkLen
  split
  next h => exact ((snLess_iff_off hn).mp h).2
  · omega

theorem walkLen_snInc (hn : nssn < 65536) {ssn : ℕ} (h : snLess ssn nssn = true) :
    walkLen ssn nssn = walkLen (snInc ssn) nssn + 1 := by
  obtain ⟨hpos, hlt⟩ := (snLess_iff_off hn).mp h
  have hadv : off 4096 (snInc ssn) nssn = off 4096 ssn nssn - 1 := by
    rw [snInc, snAdd, off_mod_left (by omega), off_advance (by omega) hpos]
  simp only [walkLen, h, if_true]
  split
  · omega
  next hless =>
    rw [snLess_iff_off hn, hadv] at hless
    omega

theorem walkSlots_lt (hb : 0 < b) (ssn k : ℕ) : ∀ i ∈ walkSlots b ssn k, i < b := by
  induction k generalizing ssn with
  | zero => simp [walkSlots]
  | succ k ih =>
    exact forall_mem_cons.mpr ⟨Nat.mod_lt _ hb, ih _⟩

theorem walkSlots_eq (hb : b ∣ 4096) (ssn k : ℕ) :
    walkSlots b ssn k = (List.range k).map (fun j => (ssn + j) % b) := by
  induction k generalizing ssn with
  | zero => rfl
  | succ k ih =>
    simp only [walkSlots, ih, range_succ_eq_map, map_cons, map_map, Nat.add_zero]
    congr 1
    apply map_congr_left
    intro j _
    have h : snInc ssn + j ≡ ssn + 1 + j [MOD b] :=
      Nat.ModEq.add_right j (mod_fold hb (ssn + 1))
    have e : ssn + 1 + j = ssn + (j + 1) := by omega
    rwa [e] at h

/-! ### The effect of a release -/

def BaidData.slots (bd : BaidData γ) (queue : ℕ) : ℕ → List γ :=
  fun i => bd.entries (queue * bd.entriesPerQueue + i)

def BaidData.stored (bd : BaidData γ) (queue : ℕ) : List γ :=
  Slots.all bd.bufSize (bd.slots queue)

def BaidData.walk (bd : BaidData γ) (queue nssn : ℕ) : List ℕ :=
  walkSlots bd.bufSize (bd.reorderBuf queue).headSn
    (walkLen (bd.reorderBuf queue).headSn nssn)

theorem update_base (f : ℕ → List γ) (base i : ℕ) (l : List γ) :
    (fun j => update f (base + i) l (base + j)) =
      update (fun j => f (base + j)) i l := by
  funext j
  by_cases h : j = i
  · simp [h]
  · rw [update_of_ne h, update_of_ne (by omega)]

/-- The loop has drained `d` out of the entries from `base` on, and counted down once for every
frame. -/
structure LoopDrained (base : ℕ) (d : List γ × (ℕ → List γ)) (s r : ReleaseLoop γ) : Prop where
  passed : r.passed = s.passed ++ d.1
  entries : (fun i => r.entries (base + i)) = d.2
  numStored : r.numStored = u16Dec^[d.1.length] s.numStored

theorem releaseBody_mk (base ssn numStored : ℕ) (entries : ℕ → List γ) (passed : List γ) :
    releaseBody base b ⟨ssn, entries, numStored, passed⟩ =
      ⟨snInc ssn, update entries (base + ssn % b) [],
        u16Dec^[(entries (base + ssn % b)).length] numStored,
        passed ++ entries (base + ssn % b)⟩ := rfl

theorem whileLoop_drained (base : ℕ) (hn : nssn < 65536) (n ssn numStored : ℕ)
    (entries : ℕ → List γ) (passed : List γ) (hlen : walkLen ssn nssn ≤ n) :
    LoopDrained base
      (Slots.drain (fun i => entries (base + i)) (walkSlots b ssn (walkLen ssn nssn)))
      ⟨ssn, entries, numStored, passed⟩
      (whileLoop (fun s : ReleaseLoop γ => snLess s.ssn nssn) (releaseBody base b) n
        ⟨ssn, entries, numStored, passed⟩) := by
  induction n generalizing ssn numStored entries passed with
  | zero =>
    have h0 : walkLen ssn nssn = 0 := by omega
    rw [h0]
    exact ⟨(append_nil _).symm, rfl, rfl⟩
  | succ n ih =>
    rw [whileLoop]
    by_cases hless : snLess ssn nssn = true
    · have hstep := walkLen_snInc hn hless
      have hrec := ih (snInc ssn) (u16Dec^[(entries (base + ssn % b)).length] numStored)
        (update entries (base + ssn % b) []) (passed ++ entries (base + ssn % b))
        (by omega)
      rw [update_base] at hrec
      rw [if_pos hless, hstep, releaseBody_mk]
      rw [walkSlots]
      constructor
      · rw [Slots.drain_cons_fst, hrec.passed, append_assoc]
      · rw [Slots.drain_cons_snd, hrec.entries]
      · rw [Slots.drain_cons_fst, hrec.numStored, length_append,
          Nat.add_comm (entries _).length, iterate_add_apply]
    · have h0 : walkLen ssn nssn = 0 := by simp [walkLen, hless]
      rw [if_neg hless, h0]
      exact ⟨(append_nil _).symm, rfl, rfl⟩

/-- What a release has done, in terms of the drained entries `d` of the queue. -/
structure Released (bd : BaidData γ) (queue nssn : ℕ) (d : List γ × (ℕ → List γ))
    (r : List γ × BaidData γ) : Prop where
  frames : r.1 = d.1
  slots : r.2.slots queue = d.2
  buf : r.2.reorderBuf queue = { bd.reorderBuf queue with
    headSn := nssn, numStored := u16Dec^[d.1.length] (bd.reorderBuf queue).numStored }

theorem endRelease_released {d : List γ × (ℕ → List γ)} {ssn : ℕ} {s : ReleaseLoop γ}
    (h : LoopDrained (queue * bd.entriesPerQueue) d
      ⟨ssn, bd.entries, (bd.reorderBuf queue).numStored, []⟩ s) :
    Released bd queue nssn d (endRelease bd queue nssn s) where
  frames := h.passed
  slots := h.entries
  buf := by
    simp only [endRelease, update_self, h.numStored]

/-- **Release.**  The walk from the head to `nssn` is drained, and the head is moved. -/
theorem reorderReleaseFrames_released (hq : (bd.reorderBuf queue).queue = queue)
    (hn : nssn < 65536) :
    Released bd queue nssn (Slots.drain (bd.slots queue) (bd.walk queue nssn))
      (reorderReleaseFrames bd queue nssn) := by
  rw [reorderReleaseFrames, hq]
  apply endRelease_released
  exact whileLoop_drained _ hn 4096 _ _ _ _ (le_of_lt ((walkLen_lt hn _).trans (by omega)))

@[simp] theorem releaseFrames_bufSize :
    (reorderReleaseFrames bd queue nssn).2.bufSize = bd.bufSize := rfl

/-! ### Writing the buffer of a queue -/

variable {bd' : BaidData γ} (mld : IwlMld) (sn : ℕ)

@[simp] theorem setHead_reorderBuf :
    (bd.setHead queue sn).reorderBuf queue = { bd.reorderBuf queue with headSn := sn } :=
  update_self ..

@[simp] theorem validate_reorderBuf :
    (bd.validate queue).reorderBuf queue = { bd.reorderBuf queue with valid := true } :=
  update_self ..

@[simp] theorem store_reorderBuf (skb : γ) : (bd.store queue sn skb).reorderBuf queue =
      { bd.reorderBuf queue with numStored := u16 ((bd.reorderBuf queue).numStored + 1) } :=
  update_self ..

@[simp] theorem setHead_slots : (bd.setHead queue sn).slots = bd.slots := rfl
@[simp] theorem validate_slots : (bd.validate queue).slots = bd.slots := rfl
@[simp] theorem setHead_bufSize : (bd.setHead queue sn).bufSize = bd.bufSize := rfl
@[simp] theorem validate_bufSize : (bd.validate queue).bufSize = bd.bufSize := rfl
@[simp] theorem store_bufSize (skb : γ) : (bd.store queue sn skb).bufSize = bd.bufSize := rfl

@[simp] theorem store_slots (skb : γ) : (bd.store queue sn skb).slots queue =
      Slots.put (bd.slots queue) (sn % bd.bufSize) skb :=
  update_base ..

/-! ### The ways through `iwl_mld_reorder` -/

def accepted (bd : BaidData γ) (m : RxMpdu γ) : Bool :=
  !bypassed bd m && !m.isDup && !m.isOldSn

/-- The paths of `iwl_mld_reorder`, with the condition under which each is taken. -/
inductive ReorderPath (bd : BaidData γ) (queue : ℕ) (m : RxMpdu γ) :
    ReorderResult × List γ × BaidData γ → Prop
  /-- not a frame of this session -/
  | bypass : bypassed bd m = true → ReorderPath bd queue m (.passSkb, [], bd)
  /-- an old frame before the first one that counts -/
  | passOld : bypassed bd m = false → (bd.reorderBuf queue).valid = false → m.isOldSn = true →
      ReorderPath bd queue m (.passSkb, [], bd)
  /-- a duplicate or an old frame -/
  | drop : accepted bd m = false → ReorderPath bd queue m (.dropSkb, [], bd.validate queue)
  /-- nothing stored, and the firmware is past the frame -/
  | below : accepted bd m = true → (bd.reorderBuf queue).numStored = 0 →
      snLess m.sn m.nssn = true →
      ReorderPath bd queue m (.passSkb, [],
        if m.moreSubframes then bd.validate queue else (bd.validate queue).setHead queue m.nssn)
  /-- nothing stored, and the frame is at the head -/
  | atHead : accepted bd m = true → (bd.reorderBuf queue).numStored = 0 →
      snLess m.sn m.nssn = false → m.sn = (bd.reorderBuf queue).headSn →
      ReorderPath bd queue m (.passSkb, [],
        if m.moreSubframes then bd.validate queue
        else (bd.validate queue).setHead queue (snInc m.sn))
  /-- stored, and everything before the NSSN released -/
  | release : accepted bd m = true → m.moreSubframes = false →
      ((bd.reorderBuf queue).numStored = 0 → snLess m.sn m.nssn = false) →
      ReorderPath bd queue m (.bufferedSkb,
        reorderReleaseFrames ((bd.validate queue).store queue m.sn m.skb) queue m.nssn)
  /-- stored as the first frame, with more subframes to come -/
  | first : accepted bd m = true → m.moreSubframes = true →
      ((bd.reorderBuf queue).numStored = 0 → snLess m.sn m.nssn = false) →
      u16 ((bd.reorderBuf queue).numStored + 1) = 1 →
      ReorderPath bd queue m (.bufferedSkb, [],
        ((bd.validate queue).store queue m.sn m.skb).setHead queue m.nssn)
  /-- stored, with more subframes to come -/
  | more : accepted bd m = true → m.moreSubframes = true →
      u16 ((bd.reorderBuf queue).numStored + 1) ≠ 1 →
      ReorderPath bd queue m (.bufferedSkb, [], (bd.validate queue).store queue m.sn m.skb)

theorem reorder_path (bd : BaidData γ) (queue : ℕ) (m : RxMpdu γ) :
    ReorderPath bd queue m (reorder bd queue m) := by
  unfold reorder
  split
  next hby => exact .bypass hby
  rename_i hby
  have hby : bypassed bd m = false := by simpa using hby
  split
  next hold => exact .passOld hby hold.1 hold.2
  by_cases hdrop : (m.isDup || m.isOldSn) = true
  · simp only [hdrop, if_true]
    apply ReorderPath.drop
    unfold accepted
    cases hd : m.isDup <;> simp_all
  have hacc : accepted bd m = true := by
    unfold accepted
    simp_all
  simp only [hdrop, reorderAccepted, validate_reorderBuf, store_reorderBuf]
  simp only [Bool.false_eq_true, if_false]
  split
  next h => exact .below hacc h.1 h.2
  rename_i hbelow
  have hless : (bd.reorderBuf queue).numStored = 0 → snLess m.sn m.nssn = false := by
    intro h0
    simpa [h0] using hbelow
  split
  next h =>
    rw [← h.2]
    exact .atHead hacc h.1 (hless h.1) h.2
  split
  next hmore => exact .release hacc hmore hless
  rename_i hmore
  have hmore : m.moreSubframes = true := by simpa using hmore
  split
  next h1 => exact .first hacc hmore hless h1
  next h1 => exact .more hacc hmore h1

/-! ### The count of stored frames -/

theorem u16Dec_iterate (k n : ℕ) : u16Dec^[k] ((n + k) % 65536) = n % 65536 := by
  induction k with
  | zero => rfl
  | succ k ih =>
    have h1 : u16Dec ((n + (k + 1)) % 65536) = (n + k) % 65536 := by
      unfold u16Dec
      omega
    rw [iterate_succ_apply, h1, ih]

/-- The buffer of a queue: its index, and the number of frames it counts. -/
structure QueueOk (queue : ℕ) (bd : BaidData γ) : Prop where
  index : (bd.reorderBuf queue).queue = queue
  pos : 0 < bd.bufSize
  count : (bd.reorderBuf queue).numStored = (bd.stored queue).length % 65536

theorem QueueOk.frame (h : QueueOk queue bd)
    (hq : (bd'.reorderBuf queue).queue = (bd.reorderBuf queue).queue)
    (hnum : (bd'.reorderBuf queue).numStored = (bd.reorderBuf queue).numStored)
    (hsize : bd'.bufSize = bd.bufSize) (hslots : bd'.slots = bd.slots) : QueueOk queue bd' where
  index := hq.trans h.index
  pos := hsize ▸ h.pos
  count := by rw [hnum, h.count, BaidData.stored, BaidData.stored, hsize, hslots]

theorem QueueOk.validate (h : QueueOk queue bd) : QueueOk queue (bd.validate queue) :=
  h.frame (by simp) (by simp) rfl rfl

theorem QueueOk.setHead (h : QueueOk queue bd) (sn : ℕ) : QueueOk queue (bd.setHead queue sn) :=
  h.frame (by simp) (by simp) rfl rfl

theorem store_stored (hb : 0 < bd.bufSize) (sn : ℕ) (skb : γ) :
    ((bd.store queue sn skb).stored queue).Perm (bd.stored queue ++ [skb]) := by
  rw [BaidData.stored, store_slots, store_bufSize]
  exact Slots.all_put _ (Nat.mod_lt _ hb) skb

theorem QueueOk.store (h : QueueOk queue bd) (sn : ℕ) (skb : γ) :
    QueueOk queue (bd.store queue sn skb) where
  index := by rw [store_reorderBuf]; exact h.index
  pos := h.pos
  count := by
    have hlen : ((bd.store queue sn skb).stored queue).length = (bd.stored queue ++ [skb]).length :=
      (store_stored h.pos sn skb).length_eq
    have hnum : ((bd.store queue sn skb).reorderBuf queue).numStored =
        u16 ((bd.reorderBuf queue).numStored + 1) := by simp
    rw [hnum, hlen, length_append, length_singleton, h.count, u16]
    omega

theorem release_stored (h : QueueOk queue bd) (hn : nssn < 65536) :
    ((reorderReleaseFrames bd queue nssn).1 ++
      (reorderReleaseFrames bd queue nssn).2.stored queue).Perm (bd.stored queue) := by
  have hr := reorderReleaseFrames_released h.index hn
  rw [BaidData.stored, hr.frames, hr.slots]
  exact Slots.drain_perm _ (walkSlots_lt h.pos _ _)

theorem QueueOk.release (h : QueueOk queue bd) (hn : nssn < 65536) :
    QueueOk queue (reorderReleaseFrames bd queue nssn).2 where
  index := by rw [(reorderReleaseFrames_released h.index hn).buf]; exact h.index
  pos := h.pos
  count := by
    have hlen := (release_stored h hn).length_eq
    have hr := reorderReleaseFrames_released h.index hn
    rw [length_append, hr.frames, Nat.add_comm] at hlen
    rw [hr.buf, h.count, ← hlen, u16Dec_iterate]

/-! ### One event -/

def Act.arrived : Act γ → List γ
  | .rx m => [m.skb]
  | _ => []

/-- The frame of an event, if `iwl_mld_reorder` returned `r`. -/
def byResult (r : ReorderResult) (l : Label (BaidData γ) (Act γ) (Out γ)) : List γ :=
  if l.out.result = some r then l.act.arrived else []

def handedUp (l : Label (BaidData γ) (Act γ) (Out γ)) : List γ :=
  l.out.released ++ byResult .passSkb l

def kept (l : Label (BaidData γ) (Act γ) (Out γ)) : List γ :=
  if l.out.result = some .dropSkb then [] else l.act.arrived

theorem lookup_eq {baid : ℕ} {baData : BaidData γ} (h : bd.lookup baid = some baData) :
    baData = bd := by
  unfold BaidData.lookup at h
  split at h
  · exact (Option.some.inj h).symm
  · cases h

/-- The checks of a notification for `baid` before it releases frames. -/
def reaches (mld : IwlMld) (bd : BaidData γ) (baid : ℕ) : Bool :=
  decide (baid < maxBaid) && (bd.lookup baid).isSome && stationKnown mld bd

/-- Up to which SN a notification releases frames of the session. -/
def Act.releaseSn (mld : IwlMld) (queue : ℕ) (bd : BaidData γ) : Act γ → Option ℕ
  | .rx _ => none
  | .frameRelease data =>
    if 4 ≤ data.length ∧ reaches mld bd (data.getD 0 0).toNat = true then some (le16 data 2)
    else none
  | .barFrameRelease data =>
    if 8 ≤ data.length ∧ barMismatch mld bd (barStaId data) (barTid data) = false ∧
        reaches mld bd (barBaid data) = true then some (barNssn data)
    else none
  | .delBa baid =>
    if reaches mld bd baid = true then
      some (snAdd (bd.reorderBuf queue).headSn bd.bufSize)
    else none

def releaseTo (bd : BaidData γ) (queue : ℕ) : Option ℕ → List γ × BaidData γ
  | none => ([], bd)
  | some sn => reorderReleaseFrames bd queue sn

theorem releaseFramesFromNotif_eq (baid nssn : ℕ) : releaseFramesFromNotif mld bd baid nssn queue =
      releaseTo bd queue (if reaches mld bd baid = true then some nssn else none) := by
  unfold releaseFramesFromNotif reaches
  by_cases hb : baid < maxBaid
  · have hne : baid ≠ invalidBaid := by
      unfold invalidBaid
      unfold maxBaid at hb
      omega
    simp only [hne, false_or, if_neg (Nat.not_le.mpr hb), hb, decide_true, Bool.true_and]
    cases hlook : bd.lookup baid with
    | none => rfl
    | some baData =>
      cases lookup_eq hlook
      by_cases hk : stationKnown mld bd = true <;> simp [hk, releaseTo]
  · simp [hb, Nat.le_of_not_lt hb, releaseTo]

theorem handleBarFrameReleaseNotif_eq (data : List UInt8) :
    handleBarFrameReleaseNotif mld bd data queue =
      releaseTo bd queue ((Act.barFrameRelease data).releaseSn mld queue bd) := by
  simp only [handleBarFrameReleaseNotif, Act.releaseSn, releaseFramesFromNotif_eq]
  by_cases hl : data.length < 8
  · simp [hl, Nat.not_le.mpr hl, releaseTo]
  by_cases hb : maxBaid ≤ barBaid data
  · simp [hl, hb, reaches, Nat.not_lt.mpr hb, releaseTo]
  cases hlook : bd.lookup (barBaid data) with
  | none => simp [hl, hb, reaches, hlook, releaseTo]
  | some baData =>
    rw [lookup_eq hlook]
    cases hm : barMismatch mld bd (barStaId data) (barTid data) with
    | true => simp [hl, hb, hm, releaseTo]
    | false => simp [hl, hb, hm, Nat.le_of_not_lt hl]

theorem delBa_eq (baid : ℕ) :
    delBa mld bd queue baid = releaseTo bd queue ((Act.delBa baid).releaseSn mld queue bd) := by
  simp only [delBa, Act.releaseSn]
  by_cases hb : maxBaid ≤ baid
  · simp [hb, reaches, Nat.not_lt.mpr hb, releaseTo]
  unfold reaches
  split
  · simp_all
  split
  · simp_all [releaseTo]
  rename_i baData hlook
  rw [lookup_eq hlook]
  by_cases hk : stationKnown mld bd = true <;>
    simp [hlook, Nat.lt_of_not_le hb, hk, releaseTo]

theorem step_notif {a : Act γ} (ha : a.arrived = []) :
    step mld queue bd a = some (Out.notif (releaseTo bd queue (a.releaseSn mld queue bd))) := by
  cases a with
  | rx m => cases ha
  | frameRelease data =>
    simp only [step, handleFrameReleaseNotif, Act.releaseSn]
    by_cases hl : data.length < 4
    · simp [hl, Nat.not_le.mpr hl, releaseTo]
    · rw [if_neg hl, releaseFramesFromNotif_eq]
      simp [Nat.le_of_not_lt hl]
  | barFrameRelease data => rw [step, handleBarFrameReleaseNotif_eq]
  | delBa baid => rw [step, delBa_eq]

theorem Act.releaseSn_lt {a : Act γ} {sn : ℕ} (h : a.releaseSn mld queue bd = some sn) :
    sn < 65536 := by
  cases a with
  | rx m => cases h
  | frameRelease data =>
    cases (Option.ite_none_right_eq_some.mp h).2
    exact le16_lt data 2
  | barFrameRelease data =>
    cases (Option.ite_none_right_eq_some.mp h).2
    exact (Nat.mod_lt _ (by omega)).trans (by omega)
  | delBa baid =>
    cases (Option.ite_none_right_eq_some.mp h).2
    exact snAdd_lt _ _

/-- What one event does to the frames: none is lost or duplicated, and the count is right. -/
structure Conserved (queue : ℕ) (bd : BaidData γ) (up inp : List γ) (bd' : BaidData γ) : Prop where
  ok : QueueOk queue bd'
  perm : (up ++ bd'.stored queue).Perm (bd.stored queue ++ inp)
  /-- the identity of the session stays -/
  session : bd'.bufSize = bd.bufSize ∧ bd'.baid = bd.baid ∧ bd'.staMask = bd.staMask

theorem releaseTo_conserved (hok : QueueOk queue bd) {sn : Option ℕ}
    (hsn : ∀ n, sn = some n → n < 65536) :
    Conserved queue bd (releaseTo bd queue sn).1 [] (releaseTo bd queue sn).2 := by
  cases sn with
  | none => exact ⟨hok, by simp [releaseTo], rfl, rfl, rfl⟩
  | some n =>
    have hn := hsn n rfl
    exact ⟨hok.release hn, by simpa [releaseTo] using release_stored hok hn, rfl, rfl, rfl⟩

theorem conserved_frame (bd : BaidData γ) (h : QueueOk queue bd') (up : List γ)
    (hslots : bd'.slots = bd.slots)
    (hses : bd'.bufSize = bd.bufSize ∧ bd'.baid = bd.baid ∧ bd'.staMask = bd.staMask) :
    Conserved queue bd up up bd' where
  ok := h
  perm := by
    rw [BaidData.stored, BaidData.stored, hses.1, hslots]
    exact perm_append_comm
  session := hses

theorem ReorderPath.conserved {m : RxMpdu γ} {r : ReorderResult × List γ × BaidData γ}
    (h : ReorderPath bd queue m r) (hok : QueueOk queue bd) :
    Conserved queue bd (r.2.1 ++ if r.1 = .passSkb then [m.skb] else [])
      (if r.1 = .dropSkb then [] else [m.skb]) r.2.2 := by
  have hv := hok.validate
  have hs := hv.store m.sn m.skb
  have hst : (((bd.validate queue).store queue m.sn m.skb).stored queue).Perm
      (bd.stored queue ++ [m.skb]) := store_stored hv.pos m.sn m.skb
  have hn := m.nssn_lt
  have hpass : ∀ sn, Conserved queue bd [m.skb] [m.skb]
      (if m.moreSubframes then bd.validate queue else (bd.validate queue).setHead queue sn) := by
    intro sn
    split
    · exact conserved_frame bd hv _ rfl ⟨rfl, rfl, rfl⟩
    · exact conserved_frame bd (hv.setHead sn) _ rfl ⟨rfl, rfl, rfl⟩
  cases h with
  | bypass | passOld => exact conserved_frame bd hok _ rfl ⟨rfl, rfl, rfl⟩
  | drop => exact conserved_frame bd hv _ rfl ⟨rfl, rfl, rfl⟩
  | below => exact hpass m.nssn
  | atHead => exact hpass (snInc m.sn)
  | release =>
    refine ⟨hs.release hn, ?_, rfl, rfl, rfl⟩
    simpa using (release_stored hs hn).trans hst
  | first => exact ⟨hs.setHead _, hst, rfl, rfl, rfl⟩
  | more => exact ⟨hs, hst, rfl, rfl, rfl⟩

theorem step_conserved {a : Act γ} {o : Out γ} (h : step mld queue bd a = some (o, bd'))
    (hok : QueueOk queue bd) :
    Conserved queue bd (handedUp ⟨bd, a, o, bd'⟩) (kept ⟨bd, a, o, bd'⟩) bd' := by
  cases ha : a.arrived with
  | nil =>
    rw [step_notif mld ha] at h
    cases h
    simpa [handedUp, kept, byResult, ha] using
      releaseTo_conserved hok (fun n => a.releaseSn_lt mld)
  | cons x l =>
    cases a with
    | rx m =>
      cases h
      simpa [handedUp, kept, byResult, Act.arrived] using
        (reorder_path bd queue m).conserved hok
    | frameRelease data => cases ha
    | barFrameRelease data => cases ha
    | delBa baid => cases ha

/-! ### Setting up and tearing down -/

/-- The state of a session when it is published. -/
structure Fresh (numRxqs staMask ssn bufSize : ℕ) (bd : BaidData γ) : Prop where
  bufSize : bd.bufSize = bufSize
  staMask : bd.staMask = staMask
  baid : bd.baid < maxBaid
  buf : ∀ queue < numRxqs, bd.reorderBuf queue = ⟨ssn, 0, queue, false⟩
  entries : ∀ i, bd.entries i = []

theorem startBaInFw_lt {resp : StartResponse} {baid : ℕ} (h : startBaInFw resp = .ok baid) :
    baid < maxBaid := by
  unfold startBaInFw at h
  split at h
  · cases h
  split at h
  · cases h
  split at h
  · cases h
  rename_i hr
  cases h
  push Not at hr
  omega

theorem ampduRxStart_fresh {p : Platform} {numRxqs sessions staMask tid ssn bufSize : ℕ}
    {allocated : Bool} {resp : StartResponse}
    (h : ampduRxStart γ p numRxqs sessions staMask allocated resp tid ssn bufSize = .ok bd) :
    Fresh numRxqs staMask ssn bufSize bd := by
  unfold ampduRxStart at h
  simp only [bind, Except.bind, pure, Except.pure, throw, throwThe, MonadExceptOf.throw] at h
  split at h
  · cases h
  split at h
  · cases h
  split at h
  · cases h
  split at h
  · cases h
  rename_i baid hbaid
  cases h
  refine ⟨rfl, rfl, startBaInFw_lt hbaid, ?_, fun _ => rfl⟩
  intro queue hq
  simp [initReorderBuffer, hq]

theorem Fresh.stored_nil {numRxqs staMask ssn bufSize : ℕ}
    (h : Fresh numRxqs staMask ssn bufSize bd) (queue : ℕ) : bd.stored queue = [] := by
  rw [BaidData.stored, Slots.all_eq_nil]
  intro i _
  exact h.entries _

theorem Fresh.queueOk {numRxqs staMask ssn bufSize : ℕ}
    (h : Fresh numRxqs staMask ssn bufSize bd) (hpos : 0 < bufSize) (hq : queue < numRxqs) :
    QueueOk queue bd where
  index := by rw [h.buf queue hq]
  pos := h.bufSize ▸ hpos
  count := by rw [h.buf queue hq, h.stored_nil]; rfl

theorem mem_walk_window (hdvd : bd.bufSize ∣ 4096) (hlt : bd.bufSize < 2048) {i : ℕ}
    (hi : i < bd.bufSize) :
    i ∈ bd.walk queue (snAdd (bd.reorderBuf queue).headSn bd.bufSize) := by
  have hoff : off 4096 (bd.reorderBuf queue).headSn
      (snAdd (bd.reorderBuf queue).headSn bd.bufSize) = bd.bufSize := by
    rw [snAdd, off_mod_right (by omega), off_add (by omega)]
  have hless : snLess (bd.reorderBuf queue).headSn
      (snAdd (bd.reorderBuf queue).headSn bd.bufSize) = true := by
    rw [snLess_iff_off (snAdd_lt _ _), hoff]
    omega
  rw [BaidData.walk, walkLen, if_pos hless, hoff, walkSlots_eq hdvd, mem_map]
  refine ⟨off bd.bufSize (bd.reorderBuf queue).headSn i, ?_, ?_⟩
  · exact mem_range.mpr (off_lt (by omega) _ _)
  · rw [off_spec (by omega), Nat.mod_eq_of_lt hi]

theorem delBa_empty {mld : IwlMld} (hok : QueueOk queue bd) (hdvd : bd.bufSize ∣ 4096)
    (hlt : bd.bufSize < 2048) (hbaid : bd.baid < maxBaid) (hsta : stationKnown mld bd = true) :
    ∀ i < bd.bufSize, (delBa mld bd queue bd.baid).2.slots queue i = [] := by
  intro i hi
  have hr := reorderReleaseFrames_released hok.index
    (snAdd_lt (bd.reorderBuf queue).headSn bd.bufSize)
  have hreach : reaches mld bd bd.baid = true := by
    simp [reaches, hbaid, BaidData.lookup, hsta]
  rw [delBa_eq, Act.releaseSn, if_pos hreach, releaseTo, hr.slots, Slots.drain_snd,
    if_pos (mem_walk_window hdvd hlt hi)]

/-! ### Runs -/

section runs
variable {mld : IwlMld} {bd' : BaidData γ} {ls : List (Label (BaidData γ) (Act γ) (Out γ))}

theorem run_queueOk (hok : QueueOk queue bd) (hrun : Run (step mld queue) bd ls bd') :
    (QueueOk queue bd' ∧ bd'.bufSize = bd.bufSize ∧ bd'.baid = bd.baid ∧
        bd'.staMask = bd.staMask) ∧
      ∀ l ∈ ls, step mld queue l.pre l.act = some (l.out, l.post) ∧
        QueueOk queue l.pre ∧ QueueOk queue l.post := by
  have h := hrun.induct
    (I := fun s => QueueOk queue s ∧ s.bufSize = bd.bufSize ∧ s.baid = bd.baid ∧
      s.staMask = bd.staMask) (C := fun _ => True) ?_ (by simp) ⟨hok, rfl, rfl, rfl⟩
  · exact ⟨h.1, fun l hl => ⟨(h.2 l hl).1, (h.2 l hl).2.1.1, (h.2 l hl).2.2.1⟩⟩
  rintro s a o s' hs - ⟨hI, h1, h2, h3⟩
  have hc := step_conserved mld hs hI
  obtain ⟨c1, c2, c3⟩ := hc.session
  exact ⟨hc.ok, c1.trans h1, c2.trans h2, c3.trans h3⟩

theorem run_kept (hok : QueueOk queue bd) (hnil : bd.stored queue = [])
    (hrun : Run (step mld queue) bd ls bd') :
    (ls.flatMap handedUp ++ bd'.stored queue).Perm (ls.flatMap kept) := by
  have h := hrun.flow appendPreorder_perm (fun s => s.stored queue) kept handedUp ?_
  · simpa [hnil] using h
  · intro l hl
    obtain ⟨hs, hpre, -⟩ := (run_queueOk hok hrun).2 l hl
    exact (step_conserved mld hs hpre).perm

theorem kept_dropped (ls : List (Label (BaidData γ) (Act γ) (Out γ))) :
    (ls.flatMap kept ++ ls.flatMap (byResult .dropSkb)).Perm
      (ls.flatMap fun l => l.act.arrived) := by
  refine (flatMap_append_perm ls kept (byResult .dropSkb)).trans ?_
  apply List.Perm.of_eq
  apply flatMap_congr
  intro l _
  unfold kept byResult
  split <;> simp

end runs

/-- **Conservation.**  With a buffer size that divides the SN space and is below half of it,
whatever the firmware reports: `num_stored` is the number of stored frames modulo 2^16; every frame
was handed up once, was dropped once or is stored; and `iwl_mld_del_ba` hands up all that is stored.
-/
theorem frames_conserved {p : Platform} {numRxqs sessions staMask tid ssn bufSize : ℕ}
    {allocated : Bool} {resp : StartResponse} {bd bd' : BaidData γ}
    (hstart : ampduRxStart γ p numRxqs sessions staMask allocated resp tid ssn bufSize = .ok bd)
    (hdvd : bufSize ∣ 4096) (hlt : bufSize < 2048) (hq : queue < numRxqs) {mld : IwlMld}
    (hsta : stationKnown mld bd = true) {ls : List (Label (BaidData γ) (Act γ) (Out γ))}
    (hrun : Run (step mld queue) bd ls bd') :
    (∀ l ∈ ls, (l.post.reorderBuf queue).numStored = (l.post.stored queue).length % 65536) ∧
    (ls.flatMap handedUp ++ bd'.stored queue ++ ls.flatMap (byResult .dropSkb)).Perm
      (ls.flatMap fun l => l.act.arrived) ∧
    ∀ r, delBa mld bd' queue bd'.baid = r →
      (∀ i < bufSize, r.2.slots queue i = []) ∧ (r.2.reorderBuf queue).numStored = 0 ∧
      (ls.flatMap handedUp ++ r.1).Perm (ls.flatMap kept) ∧ freeQueue r.2 queue = r.2 := by
  have hfresh := ampduRxStart_fresh hstart
  have hok := hfresh.queueOk (Nat.pos_of_dvd_of_pos hdvd (by omega)) hq
  obtain ⟨⟨hok', hsize, hbaid, hmask⟩, hl⟩ := run_queueOk hok hrun
  rw [hfresh.bufSize] at hsize
  have hkept := run_kept hok (hfresh.stored_nil queue) hrun
  refine ⟨fun l h => (hl l h).2.2.count, (hkept.append_right _).trans (kept_dropped ls), ?_⟩
  rintro r rfl
  have hnil := delBa_empty hok' (hsize ▸ hdvd) (hsize ▸ hlt) (hbaid ▸ hfresh.baid)
    (show stationKnown mld bd' = true by simpa [stationKnown, hmask] using hsta)
  have hc : Conserved queue bd' (delBa mld bd' queue bd'.baid).1 []
      (delBa mld bd' queue bd'.baid).2 := by
    rw [delBa_eq]
    exact releaseTo_conserved hok' (fun n => Act.releaseSn_lt mld)
  have hst : (delBa mld bd' queue bd'.baid).2.stored queue = [] := by
    rw [BaidData.stored, Slots.all_eq_nil, hc.session.1]
    exact hnil
  have hnum : ((delBa mld bd' queue bd'.baid).2.reorderBuf queue).numStored = 0 := by
    rw [hc.ok.count, hst]
    rfl
  refine ⟨hsize ▸ hnil, hnum, ?_, if_pos hnum⟩
  have hperm := hc.perm
  rw [hst, append_nil, append_nil] at hperm
  exact (hperm.append_left _).trans hkept

def platform64 : Platform := ⟨32, 64, by decide, by decide, by decide⟩

def oneStation : IwlMld := ⟨fun i => if i = 0 then some ⟨[0]⟩ else none, 1⟩

def startSession (γ : Type) (ssn bufSize : ℕ) : Except Errno (BaidData γ) :=
  ampduRxStart γ platform64 1 0 1 true (.response 4 0) 0 ssn bufSize

def mpdu (skb sn nssn : ℕ) (amsdu : Bool) : RxMpdu ℕ where
  skb := skb
  hdr := 0x88 :: List.replicate 25 0
  linkSta := some ⟨[0]⟩
  reorderData := sn * 4096 + nssn
  status := 0
  macFlags2 := if amsdu then 0x40 else 0
  amsduInfo := 0

/-- A frame ahead of the window's head is buffered, and handed up by `iwl_mld_del_ba`. -/
theorem frames_conserved_ahead : ∃ bd ls bd', startSession ℕ 0 64 = .ok bd ∧
    execute (step oneStation 0) bd [.rx (mpdu 7 1 0 false)] = some (ls, bd') ∧
    (bd'.reorderBuf 0).numStored = 1 ∧
    (ls.flatMap handedUp ++ (delBa oneStation bd' 0 bd'.baid).1).Perm (ls.flatMap kept) := by
  refine ⟨_, _, _, rfl, rfl, by decide, ?_⟩
  exact ((frames_conserved (p := platform64) (show startSession ℕ 0 64 = .ok _ from rfl) (by decide)
    (by decide) (by decide) (by decide)
    (execute_run (show execute (step oneStation 0) _ [.rx (mpdu 7 1 0 false)] = _ from rfl)).1).2.2
    _ rfl).2.2.1

/-- The session of `startSession ℕ 0 64` after `n` subframes with SN 1. -/
structure Filled (n : ℕ) (bd : BaidData ℕ) : Prop where
  session : bd.baid = 0 ∧ bd.tid = 0 ∧ bd.staMask = 1 ∧ bd.bufSize = 64
  head : (bd.reorderBuf 0).headSn = 0
  count : (bd.reorderBuf 0).numStored = n % 65536
  frames : (bd.slots 0 1).length = n

theorem Filled.step {n : ℕ} {bd : BaidData ℕ} (h : Filled n bd) :
    ∃ o bd', Mld.step oneStation 0 bd (.rx (mpdu 0 1 0 true)) = some (o, bd') ∧
      Filled (n + 1) bd' := by
  obtain ⟨h1, h2, h3, h4⟩ := h.session
  refine ⟨_, _, rfl, ?_⟩
  have hlook : bd.lookup (mpdu 0 1 0 true).baid = some bd := by
    rw [BaidData.lookup, h1, if_pos (by decide)]
  have hacc : bypassed bd (mpdu 0 1 0 true) = false := by
    simp only [bypassed, hlook, h2, h3]
    decide
  have hst : Filled (n + 1)
      ((bd.validate 0).store 0 (mpdu 0 1 0 true).sn (mpdu 0 1 0 true).skb) := by
    refine ⟨⟨h1, h2, h3, h4⟩, ?_, ?_, ?_⟩
    · simpa using h.head
    · simp only [store_reorderBuf, validate_reorderBuf, h.count, u16]
      omega
    have hslot : (mpdu 0 1 0 true).sn % (bd.validate 0).bufSize = 1 := by
      rw [validate_bufSize, h4]
      decide
    rw [store_slots, hslot, Slots.put, update_self, length_append]
    simpa using h.frames
  have hpath := reorder_path bd 0 (mpdu 0 1 0 true)
  generalize reorder bd 0 (mpdu 0 1 0 true) = r at hpath ⊢
  cases hpath with
  | bypass hb => exact nomatch hacc.symm.trans hb
  | passOld _ _ hold => exact absurd hold (by decide)
  | drop hd =>
    rw [accepted, hacc] at hd
    exact absurd hd (by decide)
  | below _ _ hless => exact absurd hless (by decide)
  | atHead _ _ _ hsn =>
    rw [h.head] at hsn
    exact absurd hsn (by decide)
  | release _ hmore => exact absurd hmore (by decide)
  | first =>
    refine ⟨hst.session, ?_, ?_, ?_⟩
    · simp [mpdu, RxMpdu.nssn]
    · simpa using hst.count
    · rw [setHead_slots]
      exact hst.frames
  | more => exact hst

theorem Filled.run {n : ℕ} {bd : BaidData ℕ} (h : Filled n bd) (k : ℕ) :
    ∃ ls bd', Run (Mld.step oneStation 0) bd ls bd' ∧ Filled (n + k) bd' := by
  induction k generalizing n bd with
  | zero => exact ⟨[], bd, Run.nil bd, h⟩
  | succ k ih =>
    obtain ⟨o, bd₁, hs, h₁⟩ := h.step
    obtain ⟨ls, bd₂, hr, h₂⟩ := ih h₁
    refine ⟨_, bd₂, Run.cons hs hr, ?_⟩
    rwa [show n + (k + 1) = n + 1 + k by omega]

/-- With a buffer of 2048 `iwl_mld_del_ba` compares the head with an SN half the space away and
releases nothing; so it does when the station is no longer known; and 2^16 stored subframes wrap the
count. -/
theorem frames_left_behind :
    (∃ bd ls bd', startSession ℕ 0 2048 = .ok bd ∧
      execute (step oneStation 0) bd [.rx (mpdu 7 1 0 false), .delBa 0] = some (ls, bd') ∧
      bd'.slots 0 1 = [7] ∧ (bd'.reorderBuf 0).numStored = 1) ∧
    (∃ bd ls bd', startSession ℕ 0 64 = .ok bd ∧
      execute (step ⟨fun _ => none, 1⟩ 0) bd [.rx (mpdu 7 1 0 false), .delBa 0] = some (ls, bd') ∧
      bd'.slots 0 1 = [7] ∧ (bd'.reorderBuf 0).numStored = 1) ∧
    ∃ bd ls bd', startSession ℕ 0 64 = .ok bd ∧ Run (step oneStation 0) bd ls bd' ∧
      (bd'.reorderBuf 0).numStored = 0 ∧ (bd'.slots 0 1).length = 65536 := by
  refine ⟨⟨_, _, _, rfl, rfl, by decide, by decide⟩, ⟨_, _, _, rfl, rfl, by decide, by decide⟩, ?_⟩
  obtain ⟨bd, hbd⟩ : ∃ bd, startSession ℕ 0 64 = .ok bd := ⟨_, rfl⟩
  have h0 : Filled 0 bd := by
    cases hbd
    exact ⟨⟨rfl, rfl, rfl, rfl⟩, rfl, rfl, rfl⟩
  obtain ⟨ls, bd', hrun, h⟩ := h0.run 65536
  exact ⟨bd, ls, bd', hbd, hrun, h.count, by simpa using h.frames⟩

end Iwlwifi.Iwl.Mld
