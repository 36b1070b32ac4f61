import Iwlwifi.ReorderInv

/-! # One step of the reorder buffer

What an arrival or a timer does to a session that satisfies the invariant `Good`.

* `Moved H t₀ new n p`: the head has moved `n` positions from `H`, the state is `Good` again and
  the frames handed up on the way are in order.
* `releasePhase_moved` and `staReorderRelease_moved`: the release function does this, unless it
  skips a half-received A-MSDU in the slot of the head because a later frame has timed out.
* `Abandons hz t ev`: the event makes the head pass a half-received A-MSDU that stays in its
  slot.  It is a condition on the state before the event: `pending t x` are the frames stored
  for the sequence number `x`, `windowHead t sn` is where the arrival of `sn` moves the window.
* `step_moved`: every event that does not abandon an A-MSDU returns and keeps `Good`. -/

namespace Iwlwifi.Ieee80211.Reorder

open Function Iwlwifi.Ring

variable {P : Skb → Prop} {t t₀ : TidAmpduRx} {H h n : ℕ} {hz jiffies : ℕ} {frames : List Skb}

/-! ### Moves of the head -/

theorem Good.setTimer (ht : Good t) (x : Option ℕ) : Good { t with reorderTimer := x } :=
  { ht with }

theorem Moved.setTimer {p : TidAmpduRx × List Skb} (hp : Moved P H t₀ n p) (x : Option ℕ) :
    Moved P H t₀ n ({ p.1 with reorderTimer := x }, p.2) :=
  { hp with good := hp.good.setTimer x }

/-! ### The release after a timeout, seen from the head -/

theorem TimedOut.good {e : ℕ} (hd : t₀.bufSize ∣ 4096) (hh : h < 4096) (hle : e ≤ t₀.bufSize)
    (ht : TimedOut h t₀ e t) (hempty : t₀.buf (h % t₀.bufSize) = []) : Good t where
  toCounted := ht.counted
  window := by
    intro i f hf
    obtain ⟨h1, h2⟩ := ht.window i f hf
    refine ⟨h1, ?_⟩
    have hbs := Nat.le_of_dvd (by omega) hd
    rw [ht.size] at h1 h2 ⊢
    -- the frame is at a distance `k` from the old head, and neither 0 nor a cleared one
    have hk : i = (h + snSub f.sn h) % t₀.bufSize := by
      rw [← h1, snSub_eq_off hh]
      exact mod_eq_off (by omega) hd h f.sn
    have h0 : snSub f.sn h ≠ 0 := by
      intro e0
      rw [e0, add_zero] at hk
      have : t.buf i = [] := by
        rcases ht.sub i with hi | hi
        · rw [hi, hk, hempty]
        · exact hi
      simp [this] at hf
    have hge : e ≤ snSub f.sn h := by
      by_contra hlt
      have := ht.cleared (snSub f.sn h) (by omega) (by omega)
      rw [← hk] at this
      simp [this] at hf
    have hsn := f.sn_lt
    rw [ht.pos]
    unfold snSub at *
    omega

theorem releaseTimedOut_waits (hf : t.reorderBufFiltered = 0) {k : ℕ} (hk : k < t.bufSize)
    (hc : complete (t.buf ((h + k) % t.bufSize)) = true)
    (hx : slotExpired hz jiffies t ((h + k) % t.bufSize) = false) :
    ∀ (n d skipped : ℕ), 1 ≤ d → d ≤ k → k - d < n → skipped ≠ 0 →
    (∀ m, d ≤ m → m < k → complete (t.buf ((h + m) % t.bufSize)) = false) →
    releaseTimedOut hz jiffies (h % t.bufSize) n ((h + d) % t.bufSize) skipped t frames =
      (t, frames, some ((h + k) % t.bufSize)) := by
  intro n
  induction n with
  | zero =>
    intro d skipped _ _ hn
    exact absurd hn (Nat.not_lt_zero _)
  | succ n ih =>
    intro d skipped hd1 hdk hn hs hnc
    have hne : (h + d) % t.bufSize ≠ h % t.bufSize := by
      intro e
      have := slot_inj (h := h) (k := 0) (by omega) (by omega) e.symm
      omega
    unfold releaseTimedOut
    rw [if_neg hne, rxReorderReady_eq hf]
    rcases Nat.lt_or_ge d k with hlt | hge
    · rw [if_pos (hnc d le_rfl hlt), Nat.mod_add_mod, Nat.add_assoc]
      exact ih (d + 1) (skipped + 1) (by omega) hlt (by omega) (by omega)
        (fun m h1 h2 => hnc m (by omega) h2)
    · obtain rfl : d = k := by omega
      rw [if_neg (by simp [hc]), if_pos ⟨hs, hx⟩]

/-- The first complete frame at a distance below `D` behind `h` has timed out. -/
def Overdue (hz jiffies : ℕ) (t : TidAmpduRx) (slot : ℕ → List Skb) (h D : ℕ) : Prop :=
  ∃ k < D, 1 ≤ k ∧ complete (slot k) = true ∧
    (∀ m < k, 1 ≤ m → complete (slot m) = false) ∧
      slotExpired hz jiffies t ((h + k) % t.bufSize) = true

instance (hz jiffies : ℕ) (t : TidAmpduRx) (slot : ℕ → List Skb) (h D : ℕ) :
    Decidable (Overdue hz jiffies t slot h D) := by
  dsimp only [Overdue]
  infer_instance

/-- The frames at distance `k` behind the head. -/
def behindHead (t : TidAmpduRx) (k : ℕ) : List Skb := t.buf ((t.headSeqNum + k) % t.bufSize)

/-- The release function does not skip a half-received A-MSDU in the slot of the head. -/
def HeadPasses (hz jiffies : ℕ) (t : TidAmpduRx) (D : ℕ) : Prop :=
  complete (t.buf t.headIndex) = true ∨ t.buf t.headIndex = [] ∨
    ¬ Overdue hz jiffies t (behindHead t) t.headSeqNum D

theorem exists_first_complete (ht : Counted t) (hs : t.storedMpduNum ≠ 0)
    (hc : complete (t.buf t.headIndex) = false) :
    ∃ k < t.bufSize, 1 ≤ k ∧ complete (behindHead t k) = true ∧
      ∀ m < k, 1 ≤ m → complete (behindHead t m) = false := by
  have hb := ht.size_pos
  obtain ⟨i, hi, hci⟩ := exists_complete_of_readyCount (ht.stored ▸ hs)
  have hex : ∃ k, complete (behindHead t k) = true := by
    refine ⟨off t.bufSize t.headSeqNum i, ?_⟩
    have e := off_spec hb t.headSeqNum i
    unfold behindHead
    rwa [e, Nat.mod_eq_of_lt hi]
  refine ⟨Nat.find hex, ?_, ?_, Nat.find_spec hex, ?_⟩
  · apply (Nat.find_le (n := off t.bufSize t.headSeqNum i) ?_).trans_lt
      (off_lt hb t.headSeqNum i)
    unfold behindHead
    rwa [off_spec hb t.headSeqNum i, Nat.mod_eq_of_lt hi]
  · by_contra h0
    have e0 : Nat.find hex = 0 := by omega
    have := Nat.find_spec hex
    rw [e0] at this
    unfold behindHead at this
    exact absurd this (by simpa [TidAmpduRx.headIndex] using hc)
  · intro m hm _
    simpa using Nat.find_min hex hm

theorem releasePhase_moved (hP : ∀ f, P f → P (deferRelease f)) (hd : t₀.bufSize ∣ 4096)
    (hH : H < 4096) (hn : n + t₀.bufSize < 4096) (hm : Moved P H t₀ n (t, frames))
    (hok : HeadPasses hz jiffies t t.bufSize) :
    ∃ m, n ≤ m ∧ m ≤ n + t₀.bufSize ∧
      Moved P H t₀ m ((releasePhase hz jiffies t frames).1,
        (releasePhase hz jiffies t frames).2.1) := by
  have ht : Good t := hm.good
  have hheld : ∀ i, ∀ f ∈ t.buf i, P f := hm.held
  have hsize : t.bufSize = t₀.bufSize := hm.size
  have hd' : t.bufSize ∣ 4096 := hsize ▸ hd
  unfold releasePhase
  rw [rxReorderReady_eq ht.filtered]
  split
  next hc =>
    obtain ⟨hc, hs⟩ := hc
    have hmod : (t.headIndex + 1) % t.bufSize = (t.headSeqNum + 1) % t.bufSize :=
      Nat.mod_add_mod _ _ _
    rw [hmod]
    unfold TidAmpduRx.headIndex
    rcases hok with hok | hok | hok
    · rw [hc] at hok
      cases hok
    · -- nothing in the slot of the head: the head may move on
      have hscan : Scan P H n t.headSeqNum t 0 1 t frames := by
        refine ⟨⟨ht.toCounted, ht.window, ?_, rfl, rfl, rfl, ?_, fun _ => Or.inl rfl⟩, by omega, ?_,
          hm.out, hm.handed⟩
        · have := ht.head_lt
          omega
        · intro k h1 h2
          omega
        · intro k h1 h2 h3
          omega
      obtain ⟨e, he, hto, hdel, hhand⟩ := releaseTimedOut_spec hP hheld hd' hH hm.pos (by omega)
        t.bufSize 0 1 t frames le_rfl ht.size_pos hscan
      refine ⟨n + e, by omega, by omega, ?_⟩
      exact {
        good := hto.good hd' ht.head_lt he hok
        pos := by
          have h1 := hto.pos
          have h2 := hm.pos
          rw [h1, h2]
          omega
        out := hdel
        size := hto.size.trans hm.size
        started := hto.started.trans hm.started
        autoSeq := hto.autoSeq.trans hm.autoSeq
        held := hto.held hheld
        handed := hhand }
    · obtain ⟨k, hk, hk1, hck, hfirst⟩ := exists_first_complete ht.toCounted hs hc
      have hx : slotExpired hz jiffies t ((t.headSeqNum + k) % t.bufSize) = false := by
        by_contra hx
        exact hok ⟨k, hk, hk1, hck, hfirst, by simpa using hx⟩
      rw [releaseTimedOut_waits ht.filtered hk hck hx t.bufSize 1 1 le_rfl hk1 (by omega) (by omega)
        (fun m h1 h2 => hfirst m h2 h1)]
      exact ⟨n, le_rfl, by omega, hm⟩
  · have hle := readyCount_le t
    obtain ⟨m, h1, h2, hmv, -⟩ := releaseReady_moved hP hd hH (by simp only; omega) hm
    exact ⟨m, h1, h2.trans (by simp only; omega), hmv⟩

/-! ### The reorder timer -/

theorem nextReady_isSome (index : ℕ) : ∀ (n j : ℕ), j < t.bufSize →
    (∃ k < n, rxReorderReady t ((j + k) % t.bufSize) = true) →
    ∃ j', nextReady t index n j = some j' := by
  intro n
  induction n with
  | zero =>
    rintro j _ ⟨k, hk, _⟩
    exact absurd hk (Nat.not_lt_zero _)
  | succ n ih =>
    rintro j hj ⟨k, hk, hr⟩
    unfold nextReady
    split
    · exact ⟨j, rfl⟩
    split
    · exact ⟨j, rfl⟩
    rename_i hnr
    apply ih ((j + 1) % t.bufSize) (Nat.mod_lt _ (by omega))
    cases k with
    | zero =>
      rw [add_zero, Nat.mod_eq_of_lt hj] at hr
      exact absurd hr hnr
    | succ k =>
      refine ⟨k, by omega, ?_⟩
      rwa [Nat.mod_add_mod, Nat.add_assoc, Nat.add_comm 1 k]

theorem armTimer_eq (hz : ℕ) (frames : List Skb) (j : Option ℕ) (hpos : 0 < t.bufSize)
    (hready : t.storedMpduNum ≠ 0 → ∃ i < t.bufSize, rxReorderReady t i = true) :
    ∃ x, armTimer hz (t, frames, j) = some ({ t with reorderTimer := x }, frames) := by
  have htimer : ∀ j', ∃ x, setReleaseTimer hz t j' = { t with reorderTimer := x } := by
    intro j'
    unfold setReleaseTimer
    split
    · exact ⟨t.reorderTimer, rfl⟩
    · exact ⟨_, rfl⟩
  cases j with
  | some j =>
    obtain ⟨x, hx⟩ := htimer j
    exact ⟨x, by rw [armTimer, hx]⟩
  | none =>
    rw [armTimer]
    split
    next hs =>
      obtain ⟨i, hi, hr⟩ := hready hs
      have hlt : t.headIndex < t.bufSize := Nat.mod_lt _ hpos
      have hoff := off_spec hpos t.headIndex i
      obtain ⟨j', hj'⟩ := nextReady_isSome t.headIndex (t.bufSize + 1) t.headIndex hlt
        ⟨off t.bufSize t.headIndex i,
          (off_lt hpos _ _).trans (Nat.lt_succ_self _), by
            rw [hoff, Nat.mod_eq_of_lt hi]
            exact hr⟩
      obtain ⟨x, hx⟩ := htimer j'
      exact ⟨x, by rw [hj']; simp only [hx]⟩
    · exact ⟨none, rfl⟩

theorem Counted.exists_ready (ht : Counted t) (hs : t.storedMpduNum ≠ 0) :
    ∃ i < t.bufSize, rxReorderReady t i = true := by
  obtain ⟨i, hi, hc⟩ := exists_complete_of_readyCount (ht.stored ▸ hs)
  exact ⟨i, hi, by rw [rxReorderReady_eq ht.filtered, hc]⟩

theorem staReorderRelease_moved (hP : ∀ f, P f → P (deferRelease f)) (hd : t₀.bufSize ∣ 4096)
    (hH : H < 4096) (hn : n + t₀.bufSize < 4096) (hm : Moved P H t₀ n (t, frames))
    (hok : HeadPasses hz jiffies t t.bufSize) :
    ∃ p m, staReorderRelease hz jiffies t frames = some p ∧ n ≤ m ∧ m ≤ n + t₀.bufSize ∧
      Moved P H t₀ m p := by
  obtain ⟨m, h1, h2, hmv⟩ := releasePhase_moved hP hd hH hn hm hok
  unfold staReorderRelease
  generalize releasePhase hz jiffies t frames = r at hmv ⊢
  obtain ⟨x, hx⟩ := armTimer_eq hz r.2.1 r.2.2 hmv.good.size_pos hmv.good.exists_ready
  exact ⟨_, m, hx, h1, h2, hmv.setTimer x⟩

/-! ### Arriving frames -/

theorem Good.advance (hd : t.bufSize ∣ 4096) (ht : Good t) (hempty : t.buf t.headIndex = []) :
    Good { t with headSeqNum := snInc t.headSeqNum } := by
  have e : release t t.headIndex = { t with headSeqNum := snInc t.headSeqNum } := by
    unfold release
    rw [TidAmpduRx.setBuf_eq_self hempty]
    simp [hempty]
  rw [← e]
  exact release_good hd ht

theorem mem_update_append {skb f : Skb} {i j : ℕ}
    (hf : f ∈ update t.buf j (t.buf j ++ [skb]) i) :
    f ∈ t.buf i ∨ i = j ∧ f = skb := by
  by_cases hi : i = j
  · subst hi
    simpa using hf
  · rw [update_of_ne hi] at hf
    exact .inl hf

theorem Good.autoSeq_eq (ht : Good t) (hst : t.started = true) : t.autoSeq = false := by
  by_contra hauto
  exact nomatch hst.symm.trans (ht.auto (by simpa using hauto))

theorem Good.store (ht : Good t) (hst : t.started = true) {skb : Skb}
    (hw : snSub skb.sn t.headSeqNum < t.bufSize)
    (hc : complete (t.buf (skb.sn % t.bufSize)) = false) {r : ℕ → ReorderSlot} {stored : ℕ}
    {t' : TidAmpduRx} (hr : t' = { t with reorder := r, storedMpduNum := stored })
    (hbuf : t'.buf = update t.buf (skb.sn % t.bufSize)
      (t.buf (skb.sn % t.bufSize) ++ [skb]))
    (hs : stored = if skb.amsduMore = true then t.storedMpduNum else u16 (t.storedMpduNum + 1)) :
    Good t' := by
  have hlt : skb.sn % t.bufSize < t.bufSize := Nat.mod_lt _ ht.size_pos
  have hcount : stored = readyCount t' := by
    have hsize : t'.bufSize = t.bufSize := by rw [hr]
    have hu := readyCount_update t t' hsize hlt (fun k hk => by rw [hbuf, update_of_ne hk])
    have hle := readyCount_le t'
    have hlt' := ht.size_lt
    rw [hbuf, update_self, complete_append_singleton, hc] at hu
    rw [ht.stored] at hs
    cases hm : skb.amsduMore with
    | true =>
      simp only [hm, if_true] at hs
      simp only [hm, Bool.not_true, Bool.false_eq_true, if_false, add_zero] at hu
      omega
    | false =>
      simp only [hm, Bool.false_eq_true, if_false] at hs
      simp only [hm, Bool.not_false, Bool.false_eq_true, if_false, if_true, add_zero] at hu
      unfold u16 at hs
      omega
  have hchain : ∀ i, (t'.buf i).Pairwise (fun f _ => f.amsduMore = true) := by
    intro i
    rw [hbuf]
    by_cases hi : i = skb.sn % t.bufSize
    · rw [hi, update_self, List.pairwise_append]
      refine ⟨ht.chain _, List.pairwise_singleton _ _, ?_⟩
      intro f hf g _
      exact amsduMore_of_incomplete (ht.chain _) hc f hf
    · rw [update_of_ne hi]
      exact ht.chain i
  have hwin : ∀ i, ∀ f ∈ t'.buf i, f.sn % t.bufSize = i ∧ snSub f.sn t.headSeqNum < t.bufSize := by
    intro i f hf
    rw [hbuf] at hf
    obtain hf | ⟨rfl, rfl⟩ := mem_update_append hf
    · exact ht.window i f hf
    · exact ⟨rfl, hw⟩
  subst hr
  exact ⟨⟨ht.size_pos, ht.size_lt, ht.head_lt, ht.filtered, hchain, hcount,
    fun h => (nomatch hst.symm.trans h), ht.auto⟩, hwin⟩

theorem not_expired_now (hhz : hz < 2 ^ 63) {i : ℕ} (h : (t.reorder i).time = jiffies) :
    slotExpired hz jiffies t i = false := by
  unfold slotExpired timeAfter ulong reorderBufTimeout
  rw [h, decide_eq_false_iff_not]
  omega

theorem behindHead_snSub (hd : t.bufSize ∣ 4096) (hh : t.headSeqNum < 4096) (sn : ℕ) :
    (t.headSeqNum + snSub sn t.headSeqNum) % t.bufSize = sn % t.bufSize := by
  rw [snSub_eq_off hh]
  exact (mod_eq_off (by omega) hd _ _).symm

def stored (t : TidAmpduRx) (skb : Skb) (jiffies : ℕ) : TidAmpduRx :=
  let index := skb.sn % t.bufSize
  { (t.setBuf index (t.buf index ++ [skb])).setTime index jiffies with
    storedMpduNum := u16 (t.storedMpduNum + 1) }

@[simp] theorem stored_buf (t : TidAmpduRx) (skb : Skb) (jiffies : ℕ) :
    (stored t skb jiffies).buf = update t.buf (skb.sn % t.bufSize)
      (t.buf (skb.sn % t.bufSize) ++ [skb]) := by
  change ((t.setBuf _ _).setTime _ _).buf = _
  rw [TidAmpduRx.setTime_buf, TidAmpduRx.setBuf_buf]

theorem stored_time (t : TidAmpduRx) (skb : Skb) (jiffies k : ℕ) :
    ((stored t skb jiffies).reorder k).time =
      if k = skb.sn % t.bufSize then jiffies else (t.reorder k).time := by
  change (((t.setBuf _ _).setTime _ _).reorder k).time = _
  rw [TidAmpduRx.setTime_time, TidAmpduRx.setBuf_time]

theorem stored_not_overdue (hhz : hz < 2 ^ 63) (hd : t.bufSize ∣ 4096) (ht : Good t) {skb : Skb}
    (hw : snSub skb.sn t.headSeqNum < t.bufSize) (hm : skb.amsduMore = false)
    (hok : HeadPasses hz jiffies t (snSub skb.sn t.headSeqNum)) :
    HeadPasses hz jiffies (stored t skb jiffies) t.bufSize := by
  have hslot := behindHead_snSub hd ht.head_lt skb.sn
  rw [HeadPasses, stored_buf, show (stored t skb jiffies).headIndex = t.headIndex from rfl]
  by_cases hi : t.headIndex = skb.sn % t.bufSize
  · left
    rw [hi, update_self, complete_append_singleton, hm]
    rfl
  rw [update_of_ne hi]
  rcases hok with hok | hok | hok
  · exact Or.inl hok
  · exact Or.inr (Or.inl hok)
  right
  right
  rintro ⟨k, hk, hk1, hck, hfirst, hx⟩
  have hD :
      complete (behindHead (stored t skb jiffies) (snSub skb.sn t.headSeqNum)) = true := by
    change complete ((stored t skb jiffies).buf ((t.headSeqNum + _) % t.bufSize)) = true
    rw [hslot, stored_buf, update_self, complete_append_singleton, hm]
    rfl
  have hD0 : 1 ≤ snSub skb.sn t.headSeqNum := by
    by_contra h0
    have e0 : snSub skb.sn t.headSeqNum = 0 := by omega
    rw [e0, add_zero] at hslot
    exact hi hslot
  -- slots before the new frame are as they were
  have hother : ∀ m < snSub skb.sn t.headSeqNum,
      (t.headSeqNum + m) % t.bufSize ≠ skb.sn % t.bufSize := by
    intro m hm' e
    rw [← hslot] at e
    have := slot_inj (by omega) hw e
    omega
  have hsame : ∀ m < snSub skb.sn t.headSeqNum,
      behindHead (stored t skb jiffies) m = behindHead t m := by
    intro m hm'
    change (stored t skb jiffies).buf ((t.headSeqNum + m) % t.bufSize) = _
    rw [stored_buf, update_of_ne (hother m hm')]
    rfl
  rcases Nat.lt_trichotomy k (snSub skb.sn t.headSeqNum) with hlt | heq | hgt
  · apply hok
    refine ⟨k, hlt, hk1, hsame k hlt ▸ hck, ?_, ?_⟩
    · intro m h1 h2
      rw [← hsame m (by omega)]
      exact hfirst m h1 h2
    have ht' := stored_time t skb jiffies ((t.headSeqNum + k) % t.bufSize)
    rw [if_neg (hother k hlt)] at ht'
    change timeAfter jiffies (ulong (((stored t skb jiffies).reorder
      ((t.headSeqNum + k) % t.bufSize)).time + _)) = true at hx
    rwa [ht'] at hx
  · have hnow : ((stored t skb jiffies).reorder ((t.headSeqNum + k) % t.bufSize)).time =
        jiffies := by
      rw [stored_time, heq, hslot, if_pos rfl]
    have := not_expired_now hhz hnow
    exact nomatch hx.symm.trans this
  · have := hfirst _ hgt hD0
    exact nomatch hD.symm.trans this

/-- What happens to a frame in the window of `t`: afterwards the head is `m` positions behind `H`.
-/
structure Received (P : Skb → Prop) (H : ℕ) (t₀ t : TidAmpduRx) (skb : Skb) (m : ℕ)
    (r : Fate × TidAmpduRx × List Skb) : Prop where
  moved : Moved P H t₀ m r.2
  processed : r.1 = .processed → skb.amsduMore = false → Delivers H 0 m (r.2.2 ++ [skb])
  duplicate : r.1 = .duplicate → complete (t.buf (skb.sn % t.bufSize)) = true
  inTime : r.1 ≠ .outOfDate

theorem storeFrame_received (hhz : hz < 2 ^ 63) (hP : ∀ f, P f → P (deferRelease f))
    (hd : t₀.bufSize ∣ 4096) (hH : H < 4096) (hm : Moved P H t₀ n (t, frames))
    (hst : t.started = true) (hn : n + t₀.bufSize < 4096) {skb : Skb} (hskb : P skb)
    (hw : snSub skb.sn t.headSeqNum < t.bufSize)
    (hok : skb.amsduMore = false → complete (t.buf (skb.sn % t.bufSize)) = false →
      complete (t.buf t.headIndex) = true ∨ t.buf t.headIndex = [] ∨
        ((skb.sn = t.headSeqNum → t.storedMpduNum ≠ 0) ∧
          ¬ Overdue hz jiffies t (behindHead t) t.headSeqNum (snSub skb.sn t.headSeqNum))) :
    ∃ r m, storeFrame hz jiffies t skb frames = some r ∧ n ≤ m ∧ m ≤ n + t₀.bufSize ∧
      Received P H t₀ t skb m r := by
  have ht : Good t := hm.good
  have hsize : t.bufSize = t₀.bufSize := hm.size
  have hd' : t.bufSize ∣ 4096 := hsize ▸ hd
  unfold storeFrame
  dsimp only
  rw [rxReorderReady_eq ht.filtered]
  split
  next hc => exact ⟨_, n, rfl, le_rfl, by omega, hm, by simp, fun _ => hc, by simp⟩
  rename_i hc
  have hc : complete (t.buf (skb.sn % t.bufSize)) = false := by simpa using hc
  split
  · -- next in order and nothing stored: handed up
    rename_i hdir
    cases hmore : skb.amsduMore with
    | true => exact ⟨_, n, rfl, le_rfl, by omega, hm, by simp [hmore], by simp, by simp⟩
    | false =>
      have hempty : t.buf t.headIndex = [] := by
        rcases hok hmore hc with h | h | h
        · rw [hdir.1] at hc
          exact nomatch h.symm.trans hc
        · exact h
        · exact absurd hdir.2 (h.1 hdir.1)
      have hone : Delivers H n (n + 1) [skb] := by
        apply delivers_slot
        · intro f hf
          have hp := hm.pos
          rw [List.mem_singleton.mp hf, hdir.1]
          simp only at hp
          rw [hp]
          unfold snSub
          omega
        · simp
        · simp
      refine ⟨_, n + 1, rfl, by omega, by omega, ?_, ?_, by simp, by simp⟩
      · exact { hm with
          good := ht.advance hd' hempty
          pos := by
            have hp := hm.pos
            simp only [snInc, snAdd] at hp ⊢
            omega
          out := hm.out.mono (Nat.le_succ n) }
      · intro _ _
        exact hm.out.append hone (Nat.zero_le n) (Nat.le_succ n)
  · have hheld : ∀ i, ∀ f ∈ update t.buf (skb.sn % t.bufSize)
        (t.buf (skb.sn % t.bufSize) ++ [skb]) i, P f := by
      intro i f hf
      obtain hf | ⟨-, rfl⟩ := mem_update_append hf
      · exact hm.held i f hf
      · exact hskb
    cases hmore : skb.amsduMore with
    | true =>
      refine ⟨_, n, rfl, le_rfl, by omega, ?_, by simp, by simp, by simp⟩
      have hbuf := TidAmpduRx.setBuf_buf t (skb.sn % t.bufSize)
        (t.buf (skb.sn % t.bufSize) ++ [skb])
      exact { hm with
        good := ht.store hst hw hc rfl hbuf (by simp [hmore])
        held := fun i f hf => hheld i f (by rw [← hbuf]; exact hf) }
    | false =>
      have hgood : Good (stored t skb jiffies) :=
        ht.store hst hw hc rfl (stored_buf t skb jiffies) (by simp [hmore])
      have hmv : Moved P H t₀ n (stored t skb jiffies, frames) :=
        ⟨hgood, hm.pos, hm.out, hm.size, hm.started, hm.autoSeq,
          fun i f hf => hheld i f (by rw [← stored_buf t skb jiffies]; exact hf), hm.handed⟩
      have hover := stored_not_overdue hhz hd' ht hw hmore
        ((hok hmore hc).imp_right (Or.imp_right And.right))
      obtain ⟨p, m, hp, h1, h2, hmv'⟩ := staReorderRelease_moved hP hd hH hn hmv hover
      exact ⟨(.buffered, p.1, p.2), m, congrArg (Option.map _) hp, h1, h2, hmv', by simp, by simp,
        by simp⟩

/-! ### Half-received A-MSDUs -/

def pending (t : TidAmpduRx) (x : ℕ) : List Skb :=
  if snSub x t.headSeqNum < t.bufSize then t.buf (x % t.bufSize) else []

/-- The head of the window after it has moved for the arrival of `sn`. -/
def windowHead (t : TidAmpduRx) (sn : ℕ) : ℕ :=
  if snLess sn (u16 (t.headSeqNum + t.bufSize)) = false then snInc (snSub sn t.bufSize)
  else t.headSeqNum

/-- Subframes are stored for `x`, but not the last one. -/
def HalfReceived (t : TidAmpduRx) (x : ℕ) : Prop :=
  pending t x ≠ [] ∧ complete (pending t x) = false

/-- The head passes a half-received A-MSDU without purging it: the last subframe arrives at the head
while nothing complete is stored and is handed up alone, or a later frame has timed out. -/
def Abandons (hz : ℕ) (t : TidAmpduRx) : Event → Prop
  | .rx skb jiffies =>
    let h := windowHead t skb.sn
    snLess skb.sn t.headSeqNum = false ∧ skb.amsduMore = false ∧
      complete (pending t skb.sn) = false ∧ HalfReceived t h ∧
      ((skb.sn = h ∧ ∀ k < t.bufSize, complete (pending t ((h + k) % 4096)) = false) ∨
        Overdue hz jiffies t (fun k => pending t ((h + k) % 4096)) h (snSub skb.sn h))
  | .timer jiffies =>
    HalfReceived t t.headSeqNum ∧
      Overdue hz jiffies t (fun k => pending t ((t.headSeqNum + k) % 4096)) t.headSeqNum t.bufSize

instance (t : TidAmpduRx) (x : ℕ) : Decidable (HalfReceived t x) :=
  inferInstanceAs (Decidable (_ ∧ _))

instance (hz : ℕ) (t : TidAmpduRx) (ev : Event) : Decidable (Abandons hz t ev) := by
  cases ev <;> dsimp only [Abandons] <;> infer_instance

theorem Cleared.behindHead_eq {p : TidAmpduRx × List Skb} (hd : t.bufSize ∣ 4096)
    (hn : n + t.bufSize ≤ 4096) (ht : t.headSeqNum < 4096)
    (hp : Cleared P t.headSeqNum t n p) {k : ℕ}
    (hk : k < t.bufSize) : behindHead p.1 k = pending t ((p.1.headSeqNum + k) % 4096) := by
  have hslot : (p.1.headSeqNum + k) % t.bufSize = (t.headSeqNum + (n + k)) % t.bufSize := by
    rw [hp.pos, ← Nat.mod_add_mod, mod_fold hd, Nat.mod_add_mod, Nat.add_assoc]
  have hdist : snSub ((p.1.headSeqNum + k) % 4096) t.headSeqNum = n + k := by
    rw [hp.pos]
    unfold snSub
    omega
  unfold behindHead pending
  rw [hdist, mod_fold hd, hp.size, hslot]
  split
  next hlt =>
    apply hp.kept
    intro j hj e
    have := slot_inj hlt (by omega) e
    omega
  · -- the slot was passed, under a sequence number `buf_size` earlier
    have e : (t.headSeqNum + (n + k)) % t.bufSize =
        (t.headSeqNum + (n + k - t.bufSize)) % t.bufSize := by
      have h1 : t.headSeqNum + (n + k) = t.headSeqNum + (n + k - t.bufSize) + t.bufSize := by omega
      rw [h1, Nat.add_mod_right]
    rw [e]
    exact hp.gone _ (by omega)

theorem windowMove_head (t : TidAmpduRx) {sn : ℕ} (hsn : sn < 4096) (h2 : 2 ≤ t.bufSize)
    (h1024 : t.bufSize ≤ 1024) (hd : t.bufSize ∣ 4096) (ht : Good t)
    (hs : snLess sn t.headSeqNum = false) :
    (windowMove t sn).1.headSeqNum = windowHead t sn := by
  obtain ⟨hc, -⟩ := windowMove_cleared (P := fun _ => True) (fun _ _ => trivial) hd h2 h1024 ht
    (fun _ _ _ => trivial) hsn hs
  rw [hc.pos]
  have hh := ht.head_lt
  unfold windowHead snLess snInc snAdd snSub u16 at *
  simp only [decide_eq_false_iff_not, not_lt] at *
  split <;> omega

theorem stored_eq_zero (ht : Counted t) :
    t.storedMpduNum = 0 ↔ ∀ k < t.bufSize, complete (behindHead t k) = false := by
  constructor
  · intro hs k _
    by_contra hc
    have hc : complete (behindHead t k) = true := by simpa using hc
    have := readyCount_pos (t := t) (Nat.mod_lt _ ht.size_pos) hc
    rw [← ht.stored] at this
    omega
  · intro hk
    by_contra hs
    have h0 := hk 0 ht.size_pos
    unfold behindHead at h0
    obtain ⟨k, hlt, _, hc, _⟩ := exists_first_complete ht hs h0
    exact nomatch hc.symm.trans (hk k hlt)

/-! ### One event -/

theorem pickAutoSeq_good (ht : Good t) {sn : ℕ} (hsn : sn < 4096) :
    Good (pickAutoSeq t sn) ∧ (pickAutoSeq t sn).autoSeq = false ∧
      (pickAutoSeq t sn).buf = t.buf ∧ (pickAutoSeq t sn).bufSize = t.bufSize ∧
      (pickAutoSeq t sn).started = t.started ∧
      (t.autoSeq = false → pickAutoSeq t sn = t) := by
  unfold pickAutoSeq
  split
  next hauto =>
    have hempty := ht.idle (ht.auto hauto)
    refine ⟨?_, rfl, rfl, rfl, rfl, fun h => nomatch hauto.symm.trans h⟩
    refine ⟨{ ht.toCounted with head_lt := hsn, auto := by simp }, ?_⟩
    intro i f hf
    change f ∈ t.buf i at hf
    simp [hempty i] at hf
  next hauto => exact ⟨ht, by simpa using hauto, rfl, rfl, rfl, fun _ => rfl⟩

theorem Good.start (ht : Good t) (hauto : t.autoSeq = false) : Good { t with started := true } :=
  { ht with
    idle := by simp
    auto := fun h => nomatch hauto.symm.trans h }

def opened (t : TidAmpduRx) (sn : ℕ) : TidAmpduRx := { pickAutoSeq t sn with started := true }

theorem opened_good (ht : Good t) {sn : ℕ} (hsn : sn < 4096) : Good (opened t sn) :=
  (pickAutoSeq_good ht hsn).1.start (pickAutoSeq_good ht hsn).2.1

theorem opened_of_started (ht : Good t) (hst : t.started = true) {skb : Skb} :
    opened t skb.sn = t := by
  obtain ⟨-, -, -, -, -, hsame⟩ := pickAutoSeq_good ht skb.sn_lt
  unfold opened
  rw [hsame (ht.autoSeq_eq hst), ← hst]

theorem not_abandons_rx (h2 : 2 ≤ t.bufSize) (h1024 : t.bufSize ≤ 1024) (hd : t.bufSize ∣ 4096)
    (ht : Good t) {skb : Skb} (hs : snLess skb.sn t.headSeqNum = false)
    (hok : ¬ Abandons hz t (.rx skb jiffies)) {w : TidAmpduRx} {out : List Skb}
    (hw : windowMove t skb.sn = (w, out)) (hm : skb.amsduMore = false)
    (hc : complete (w.buf (skb.sn % w.bufSize)) = false) :
    complete (w.buf w.headIndex) = true ∨ w.buf w.headIndex = [] ∨
      ((skb.sn = w.headSeqNum → w.storedMpduNum ≠ 0) ∧
      ¬ Overdue hz jiffies w (behindHead w) w.headSeqNum (snSub skb.sn w.headSeqNum)) := by
  obtain ⟨hcl, hin⟩ := windowMove_cleared (P := fun _ => True) (fun _ _ => trivial) hd h2 h1024 ht
    (fun _ _ _ => trivial) skb.sn_lt hs
  have hhead := windowMove_head _ skb.sn_lt h2 h1024 hd ht hs
  rw [hw] at hcl hin hhead
  have hsn := skb.sn_lt
  have hs' := snLess_eq_false.mp hs
  have hsize : w.bufSize = t.bufSize := hcl.size
  have hwh : w.headSeqNum < 4096 := hcl.good.head_lt
  have hbehind : ∀ k < t.bufSize, behindHead w k = pending t ((w.headSeqNum + k) % 4096) :=
    fun k hk => hcl.behindHead_eq hd (by omega) ht.head_lt hk
  by_contra hn
  push Not at hn
  obtain ⟨hinc, hne, hn⟩ := hn
  apply hok
  -- the slots of the head and of the arriving frame, in terms of what was pending
  have hslot0 : w.buf w.headIndex = pending t w.headSeqNum := by
    have := hbehind 0 (by omega)
    simpa [behindHead, TidAmpduRx.headIndex, Nat.mod_eq_of_lt hwh] using this
  have hslotS : w.buf (skb.sn % w.bufSize) = pending t skb.sn := by
    have h1 := hbehind _ hin
    have h3 := behindHead_snSub (hsize ▸ hd) hwh skb.sn
    have h4 : (w.headSeqNum + snSub skb.sn w.headSeqNum) % 4096 = skb.sn := by
      unfold snSub
      omega
    unfold behindHead at h1
    rwa [h3, h4] at h1
  have hover : Overdue hz jiffies w (behindHead w) w.headSeqNum (snSub skb.sn w.headSeqNum) →
      Overdue hz jiffies t (fun k => pending t ((w.headSeqNum + k) % 4096)) w.headSeqNum
        (snSub skb.sn w.headSeqNum) := by
    rintro ⟨k, hk, hk1, hck, hfirst, hx⟩
    have hin' : snSub skb.sn w.headSeqNum < t.bufSize := hin
    refine ⟨k, hk, hk1, ?_, ?_, ?_⟩
    · exact (congrArg complete (hbehind k (by omega))).symm.trans hck
    · intro m h3 h4
      exact (congrArg complete (hbehind m (by omega))).symm.trans (hfirst m h3 h4)
    have htime := hcl.time ((w.headSeqNum + k) % t.bufSize)
    unfold slotExpired at hx ⊢
    rwa [hsize, htime] at hx
  have hhalf : HalfReceived t w.headSeqNum := by
    refine ⟨hslot0 ▸ hne, ?_⟩
    rw [← hslot0]
    simpa using hinc
  have hhead' : windowHead t skb.sn = w.headSeqNum := hhead.symm
  unfold Abandons
  simp only [hhead']
  by_cases hcase : skb.sn = w.headSeqNum ∧ w.storedMpduNum = 0
  · -- handed up at once
    have hzero := (stored_eq_zero hcl.good.toCounted).mp hcase.2
    refine ⟨hs, hm, hslotS ▸ hc, hhalf, Or.inl ⟨hcase.1, ?_⟩⟩
    intro k hk
    rw [← hbehind k hk]
    exact hzero k (hsize ▸ hk)
  · have hov := hn (fun h1 h2 => hcase ⟨h1, h2⟩)
    exact ⟨hs, hm, hslotS ▸ hc, hhalf, Or.inr (hover hov)⟩

theorem not_abandons_timer (hd : t.bufSize ∣ 4096) (ht : Good t)
    (hok : ¬ Abandons hz t (.timer jiffies)) : HeadPasses hz jiffies t t.bufSize := by
  have hbehind : ∀ k < t.bufSize, behindHead t k = pending t ((t.headSeqNum + k) % 4096) :=
    fun k hk => (Cleared.refl (P := fun _ => True) ht fun _ _ _ => trivial).behindHead_eq hd
      (by rw [zero_add]; exact Nat.le_of_dvd (by omega) hd) ht.head_lt hk
  have hslot : t.buf t.headIndex = pending t t.headSeqNum := by
    have := hbehind 0 ht.size_pos
    simpa [behindHead, TidAmpduRx.headIndex, Nat.mod_eq_of_lt ht.head_lt] using this
  by_contra hn
  unfold HeadPasses at hn
  push Not at hn
  obtain ⟨hinc, hne, k, hk, hk1, hck, hfirst, hx⟩ := hn
  apply hok
  refine ⟨⟨hslot ▸ hne, ?_⟩, k, hk, hk1, ?_, ?_, hx⟩
  · rw [← hslot]
    simpa using hinc
  · exact (congrArg complete (hbehind k hk)).symm.trans hck
  · intro m h1 h2
    exact (congrArg complete (hbehind m (by omega))).symm.trans (hfirst m h1 h2)

theorem not_abandons_of_plain (h : ∀ i, ∀ f ∈ t.buf i, f.amsduMore = false) (ev : Event) :
    ¬ Abandons hz t ev := by
  have hpend : ∀ x, ¬ HalfReceived t x := by
    rintro x ⟨hne, hc⟩
    have hx : ∀ f ∈ pending t x, f.amsduMore = false := by
      intro f hf
      unfold pending at hf
      split at hf
      · exact h _ f hf
      · simp at hf
    exact nomatch (complete_of_plain hx hne).symm.trans hc
  cases ev with
  | rx skb jiffies => exact fun ha => hpend _ ha.2.2.2.1
  | timer jiffies => exact fun ha => hpend _ ha.1

section
variable (hhz : hz < 2 ^ 63) (hP : ∀ f, P f → P (deferRelease f)) (h2 : 2 ≤ t.bufSize)
  (h1024 : t.bufSize ≤ 1024) (hd : t.bufSize ∣ 4096) (ht : Good t) (hheld : ∀ i, ∀ f ∈ t.buf i, P f)
include hhz hP h2 h1024 hd ht hheld

theorem storeFrame_windowMove (hst : t.started = true) {skb : Skb} (hskb : P skb)
    (hs : snLess skb.sn t.headSeqNum = false) (hok : ¬ Abandons hz t (.rx skb jiffies)) :
    ∃ r m, storeFrame hz jiffies (windowMove t skb.sn).1 skb (windowMove t skb.sn).2 = some r ∧
      m ≤ 2049 ∧ Received P t.headSeqNum t (windowMove t skb.sn).1 skb m r := by
  have hs' := snLess_eq_false.mp hs
  obtain ⟨hcl, hin⟩ := windowMove_cleared hP hd h2 h1024 ht hheld skb.sn_lt hs
  have hok' := not_abandons_rx h2 h1024 hd ht hs hok (Prod.mk.eta (p := windowMove t skb.sn)).symm
  obtain ⟨r, m, hr, _, hle, hrec⟩ := storeFrame_received hhz hP hd ht.head_lt hcl.toMoved
    (hcl.started.trans hst) (by omega) hskb (hin.trans_eq hcl.size.symm) hok'
  exact ⟨r, m, hr, by omega, hrec⟩

/-- **Arrivals.**  The frame is early, out of date, or it is received in the window. -/
theorem staManageReorderBuf_cases {skb : Skb} (hskb : P skb)
    (hok : ¬ Abandons hz t (.rx skb jiffies)) :
    (t.started = false ∧ snLess skb.sn (opened t skb.sn).headSeqNum = true ∧
      staManageReorderBuf hz jiffies t skb = some (.processed, pickAutoSeq t skb.sn, [])) ∨
    (t.started = true ∧ snLess skb.sn t.headSeqNum = true ∧
      staManageReorderBuf hz jiffies t skb = some (.outOfDate, t, [])) ∨
    (snLess skb.sn (opened t skb.sn).headSeqNum = false ∧
      ∃ r m, staManageReorderBuf hz jiffies t skb = some r ∧ m ≤ 2049 ∧
        Received P (opened t skb.sn).headSeqNum (opened t skb.sn)
          (windowMove (opened t skb.sn) skb.sn).1 skb m r) := by
  obtain ⟨hg₀, hauto₀, hbuf₀, hsize₀, hst₀, hsame⟩ := pickAutoSeq_good ht skb.sn_lt
  have hb : (opened t skb.sn).bufSize = t.bufSize := hsize₀
  unfold staManageReorderBuf
  dsimp only
  split
  next hc => exact Or.inl ⟨hst₀ ▸ hc.1, hc.2, rfl⟩
  rename_i hc
  split
  next hlate =>
    right
    left
    have hst : t.started = true := by
      by_contra hst
      exact hc ⟨by simpa [hst₀] using hst, hlate⟩
    have hopen : opened t skb.sn = t := opened_of_started ht hst
    exact ⟨hst, (congrArg (snLess skb.sn ·.headSeqNum) hopen).symm.trans hlate,
      congrArg (fun t => some (Fate.outOfDate, t, [])) hopen⟩
  next hs =>
    right
    right
    have hs : snLess skb.sn (opened t skb.sn).headSeqNum = false := Bool.eq_false_iff.mpr hs
    have hok' : ¬ Abandons hz (opened t skb.sn) (.rx skb jiffies) := by
      cases hauto : t.autoSeq with
      | false =>
        unfold opened
        rwa [hsame hauto]
      | true =>
        -- nothing has been stored yet
        apply not_abandons_of_plain
        intro i f hf
        change f ∈ (pickAutoSeq t skb.sn).buf i at hf
        rw [hbuf₀, ht.idle (ht.auto hauto) i] at hf
        simp at hf
    have hheld' : ∀ i, ∀ f ∈ (opened t skb.sn).buf i, P f := by
      intro i f hf
      change f ∈ (pickAutoSeq t skb.sn).buf i at hf
      rw [hbuf₀] at hf
      exact hheld i f hf
    exact ⟨hs, storeFrame_windowMove hhz hP (hb ▸ h2) (hb ▸ h1024) (hb ▸ hd)
      (opened_good ht skb.sn_lt) hheld' rfl hskb hs hok'⟩

end

end Iwlwifi.Ieee80211.Reorder
