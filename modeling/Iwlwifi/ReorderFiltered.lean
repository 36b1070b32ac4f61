import Iwlwifi.BitSet
import Iwlwifi.ReorderStep

/-! # Filtered frames in the reorder buffer

A driver whose firmware drops frames tells `ieee80211_mark_rx_ba_filtered_frames` which sequence
numbers will not come.  Their slots are then ready without a frame.

* **Function** (`markRxBaFilteredFrames`).  It releases what is before the reported number, sets
  the bits of the filtered slots and releases from the head.
* **Invariant** (`Tracked`).  `stored_mpdu_num` is the number of slots that hold a complete frame,
  and no slot with a bit holds a half-received A-MSDU, wherever the frames lie.
* **The search for the next timeout** ends in a `Tracked` session (`Tracked.staReorderRelease`).
* **Defect.**  Releasing a slot with a bit counts down if the slot is not empty.  If it holds a
  half-received A-MSDU, which was never counted up, the counter wraps around to 65535, and from then
  on the search is made with no slot ready (`filtered_amsdu_hangs`). -/

namespace Iwlwifi.Ieee80211.Reorder

open Function

/-! ### Marking -/

/-- The loop that updates the bitmap: the bit of slot `ssn + i` becomes bit `i` of the filter. -/
def markSlots (ssn filtered bufSize bitmap : ℕ) : ℕ :=
  (List.range bufSize).foldl (fun bitmap i =>
    let index := (ssn + i) % bufSize
    let bitmap := BitSet.erase 64 bitmap index
    if filtered.testBit i then bitmap ||| 2 ^ index else bitmap) bitmap

/-- The first part of `ieee80211_mark_rx_ba_filtered_frames`: release all frames and take over the
reported number, or release up to it. -/
def markRelease (ssn receivedMpdus : ℕ) (t : TidAmpduRx) : TidAmpduRx × List Skb :=
  if 4096 / 2 ≤ receivedMpdus then
    let p := releaseReorderFrames t ((t.headSeqNum + t.bufSize) % 4096) []
    ({ p.1 with headSeqNum := ssn }, p.2)
  else releaseReorderFrames t ssn []

/-- `ieee80211_mark_rx_ba_filtered_frames` for an existing session; `none` when the function does
not return. -/
def markRxBaFilteredFrames (hz jiffies ssn filtered receivedMpdus : ℕ) (t : TidAmpduRx) :
    Option (TidAmpduRx × List Skb) :=
  let p := markRelease ssn receivedMpdus t
  let t := p.1
  -- the received ssn can be behind the head and still be valid
  let diff := snSub t.headSeqNum ssn
  if t.bufSize ≤ diff then some ({ t with reorderBufFiltered := 0 }, p.2)
  else
    let bitmap := markSlots (ssn + diff) (filtered >>> diff) t.bufSize t.reorderBufFiltered
    staReorderRelease hz jiffies { t with reorderBufFiltered := bitmap } p.2

inductive BaEvent where
  | event (e : Event)
  | mark (ssn : Fin 4096) (filtered receivedMpdus jiffies : ℕ)

def baStep (hz : ℕ) (t : TidAmpduRx) : BaEvent → Option (Outcome × TidAmpduRx)
  | .event e => step hz t e
  | .mark ssn filtered receivedMpdus jiffies =>
    (markRxBaFilteredFrames hz jiffies ssn filtered receivedMpdus t).map
      fun r => (⟨none, r.2⟩, r.1)

/-! ### The invariant -/

variable {t t₀ : TidAmpduRx} {i hz jiffies : ℕ}

structure Tracked (t : TidAmpduRx) : Prop where
  size_pos : 0 < t.bufSize
  size_le : t.bufSize ≤ 64
  head_lt : t.headSeqNum < 4096
  stored : t.storedMpduNum = readyCount t
  whole : ∀ i < t.bufSize, t.reorderBufFiltered.testBit i = true →
    t.buf i = [] ∨ complete (t.buf i) = true

theorem rxReorderReady_eq_or (t : TidAmpduRx) (i : ℕ) :
    rxReorderReady t i = (t.reorderBufFiltered.testBit i || complete (t.buf i)) := by
  unfold rxReorderReady
  cases hb : t.reorderBufFiltered.testBit i with
  | false =>
    rw [if_neg (by simp), Bool.false_or]
    rfl
  | true =>
    have hne : t.reorderBufFiltered ≠ 0 := by
      rintro h0
      rw [h0, Nat.zero_testBit] at hb
      cases hb
    simp [hne]

section
variable (ht : Tracked t)
include ht

theorem Tracked.complete_of_ready (hi : i < t.bufSize) (hr : rxReorderReady t i = true)
    (hne : t.buf i ≠ []) : complete (t.buf i) = true := by
  rw [rxReorderReady_eq_or, Bool.or_eq_true] at hr
  cases hr with
  | inl hb => exact (ht.whole i hi hb).resolve_left hne
  | inr hc => exact hc

theorem Tracked.exists_ready (hs : t.storedMpduNum ≠ 0) :
    ∃ i < t.bufSize, rxReorderReady t i = true := by
  obtain ⟨i, hi, hc⟩ := exists_complete_of_readyCount (ht.stored ▸ hs)
  exact ⟨i, hi, by rw [rxReorderReady_eq_or, hc, Bool.or_true]⟩

theorem Tracked.head {h : ℕ} (hh : h < 4096) :
    Tracked { t with headSeqNum := h } :=
  { ht with head_lt := hh }

theorem Tracked.setFiltered {bitmap : ℕ}
    (h : ∀ i < t.bufSize, bitmap.testBit i = true → t.buf i = [] ∨ complete (t.buf i) = true) :
    Tracked { t with reorderBufFiltered := bitmap } :=
  { ht with whole := h }

theorem Tracked.purge {r : ℕ → ReorderSlot} {t₁ : TidAmpduRx} (hr : t₁ = { t with reorder := r })
    (hbuf : ∀ x, t₁.buf x = t.buf x ∨ (t₁.buf x = [] ∧ complete (t.buf x) = false)) :
    Tracked t₁ := by
  have hcount : readyCount t₁ = readyCount t := by
    apply readyCount_congr (by rw [hr])
    intro x _
    obtain hx | ⟨hx, hc⟩ := hbuf x
    · rw [hx]
    · rw [hx, hc, complete_nil]
  have hwhole : ∀ i < t.bufSize, t.reorderBufFiltered.testBit i = true →
      t₁.buf i = [] ∨ complete (t₁.buf i) = true := by
    intro x hx hb
    obtain h | ⟨h, -⟩ := hbuf x
    · rw [h]
      exact ht.whole x hx hb
    · exact .inl h
  subst hr
  exact ⟨ht.size_pos, ht.size_le, ht.head_lt, ht.stored.trans hcount.symm, hwhole⟩

/-! ### Releasing -/

/-- In a `Tracked` session a released slot was counted exactly when it held a complete frame. -/
theorem Tracked.releaseReorderFrame_eq (hi : i < t.bufSize) (frames : List Skb) :
    (releaseReorderFrame t i frames).1 =
      { release t i with reorderBufFiltered := (clearFiltered t i).reorderBufFiltered } := by
  by_cases he : t.buf i = []
  · unfold releaseReorderFrame release clearFiltered
    rw [TidAmpduRx.setBuf_eq_self he]
    simp only [he, if_true, complete_nil, Bool.false_eq_true, if_false]
    split <;> rfl
  have hready : rxReorderReady t i = complete (t.buf i) := by
    cases hr : rxReorderReady t i with
    | true => exact (ht.complete_of_ready hi hr he).symm
    | false =>
      rw [rxReorderReady_eq_or, Bool.or_eq_false_iff] at hr
      exact hr.2.symm
  unfold releaseReorderFrame release clearFiltered
  rw [if_neg he, hready]
  cases hc : complete (t.buf i) with
  | false =>
    simp only [if_true, Bool.false_eq_true, if_false, TidAmpduRx.setBuf]
    split <;> rfl
  | true =>
    simp only [Bool.true_eq_false, if_false, if_true, TidAmpduRx.setBuf]
    split <;> rfl

theorem Tracked.releaseReorderFrame (hi : i < t.bufSize) (frames : List Skb) :
    Tracked (releaseReorderFrame t i frames).1 ∧
      (Reorder.releaseReorderFrame t i frames).1.bufSize = t.bufSize ∧
      (Reorder.releaseReorderFrame t i frames).1.buf = update t.buf i [] ∧
      (Reorder.releaseReorderFrame t i frames).1.headSeqNum = snInc t.headSeqNum := by
  have hle := ht.size_le
  rw [ht.releaseReorderFrame_eq hi frames]
  refine ⟨⟨ht.size_pos, hle, snInc_lt _, release_stored ht.stored (by omega) hi, ?_⟩, rfl,
    release_buf t i, rfl⟩
  intro k hk hb
  show (Reorder.release t i).buf k = [] ∨ complete ((Reorder.release t i).buf k) = true
  rw [release_buf]
  by_cases hki : k = i
  · subst hki
    exact .inl (update_self _ _ _)
  rw [update_of_ne hki]
  refine ht.whole k hk ?_
  -- clearing the bit of slot `i` does not set that of slot `k`
  dsimp only [clearFiltered] at hb
  split at hb
  next hset => rwa [BitSet.testBit_sub_two_pow hset.2 hki] at hb
  · exact hb

end

/-! ### Moving the head -/

/-- The head has passed `n` sequence numbers and their slots are empty. -/
structure Passed (t₀ : TidAmpduRx) (n : ℕ) (t : TidAmpduRx) : Prop where
  tracked : Tracked t
  size : t.bufSize = t₀.bufSize
  pos : t.headSeqNum = (t₀.headSeqNum + n) % 4096
  sub : ∀ i, t.buf i = t₀.buf i ∨ t.buf i = []
  empty : ∀ k < n, t.buf ((t₀.headSeqNum + k) % 4096 % t₀.bufSize) = []

theorem Passed.refl (ht : Tracked t) : Passed t 0 t :=
  ⟨ht, rfl, (Nat.mod_eq_of_lt ht.head_lt).symm, fun _ => .inl rfl, fun _ hk => by omega⟩

theorem Passed.next {n : ℕ} (h : Passed t₀ n t) (frames : List Skb) :
    Passed t₀ (n + 1) (Reorder.releaseReorderFrame t t.headIndex frames).1 := by
  have hlt : t.headIndex < t.bufSize := Nat.mod_lt _ h.tracked.size_pos
  obtain ⟨ht, hsize, hbuf, hhead⟩ := h.tracked.releaseReorderFrame hlt frames
  have hidx : t.headIndex = (t₀.headSeqNum + n) % 4096 % t₀.bufSize := by
    rw [TidAmpduRx.headIndex, h.pos, h.size]
  refine ⟨ht, hsize.trans h.size, ?_, ?_, ?_⟩
  · rw [hhead, h.pos, snInc, snAdd, Nat.mod_add_mod, Nat.add_assoc]
  · intro i
    rw [hbuf]
    by_cases hi : i = t.headIndex
    · right
      rw [hi, update_self]
    · rw [update_of_ne hi]
      exact h.sub i
  · intro k hk
    rw [hbuf]
    by_cases hi : (t₀.headSeqNum + k) % 4096 % t₀.bufSize = t.headIndex
    · rw [hi, update_self]
    rw [update_of_ne hi]
    refine h.empty k ?_
    have hne : k ≠ n := by
      rintro rfl
      exact hi hidx.symm
    omega

/-- The sequence numbers that are passed when the head moves up to `target`. -/
def numPassed (h target : ℕ) : ℕ := if snLess h target then snSub target h else 0

theorem Tracked.releaseReorderFrames (ht : Tracked t) {target : ℕ} (htarget : target < 4096)
    (frames : List Skb) :
    Passed t (numPassed t.headSeqNum target) (releaseReorderFrames t target frames).1 := by
  have hh := ht.head_lt
  unfold numPassed
  split
  next hless =>
    rw [snLess_eq_true] at hless
    set n := snSub target t.headSeqNum with hn
    have hle : n < 2048 := by
      unfold snSub at *
      omega
    -- every iteration passes one number; after `m` of them `n - m` are left
    have hleft : ∀ m ≤ n, snSub target ((t.headSeqNum + m) % 4096) = n - m := by
      intro m hm
      unfold snSub at *
      omega
    have hgo : ∀ m ≤ n, snLess ((t.headSeqNum + m) % 4096) target = true → m < n := by
      intro m hm h
      have := hleft m hm
      rw [snLess_eq_true] at h
      unfold snSub at *
      omega
    have hstop : ∀ m ≤ n, snLess ((t.headSeqNum + m) % 4096) target = false → m = n := by
      intro m hm h
      have := hleft m hm
      rw [snLess_eq_false] at h
      unfold snSub at *
      omega
    set I : TidAmpduRx × List Skb → Prop := fun p => ∃ m ≤ n, Passed t m p.1 with hI
    have hbody : ∀ p, I p → snLess p.1.headSeqNum target = true →
        I (Reorder.releaseReorderFrame p.1 p.1.headIndex p.2) := by
      rintro p ⟨m, hm, hp⟩ hc
      rw [hp.pos] at hc
      exact ⟨m + 1, hgo m hm hc, hp.next p.2⟩
    obtain ⟨m, hm, hp⟩ := whileLoop_inv hbody 4096 (t, frames) ⟨0, Nat.zero_le _, Passed.refl ht⟩
    have hexit := whileLoop_exit (μ := fun p => snSub target p.1.headSeqNum) hbody (by
      rintro p ⟨m, hm, hp⟩ hc
      rw [hp.pos] at hc
      have hlt := hgo m hm hc
      rw [(hp.next p.2).pos, hp.pos, hleft m hm, hleft (m + 1) hlt]
      omega) 4096 (t, frames) ⟨0, Nat.zero_le _, Passed.refl ht⟩ (snSub_lt _ _)
    rw [hp.pos] at hexit
    rwa [← hstop m hm hexit]
  next hless =>
    have e : Reorder.releaseReorderFrames t target frames = (t, frames) := if_neg hless
    rw [e]
    exact Passed.refl ht

theorem Tracked.releaseReady (ht : Tracked t) (frames : List Skb) :
    Tracked (releaseReady t frames).1 ∧ (Reorder.releaseReady t frames).1.bufSize = t.bufSize := by
  refine whileLoop_inv (I := fun p => Tracked p.1 ∧ p.1.bufSize = t.bufSize) ?_ _ (t, frames)
    ⟨ht, rfl⟩
  rintro p ⟨hp, hsize⟩ -
  have hlt : p.1.headIndex < p.1.bufSize := Nat.mod_lt _ hp.size_pos
  obtain ⟨ht', hsize', -⟩ := hp.releaseReorderFrame hlt p.2
  exact ⟨ht', hsize'.trans hsize⟩

theorem Tracked.releaseTimedOut {h b : ℕ} : ∀ (n d skipped : ℕ) (t : TidAmpduRx) (frames : List Skb),
    Tracked t → t.bufSize = b → 1 ≤ d → d ≤ b →
    (∀ m, 1 ≤ m → m < d → complete (t.buf ((h + m) % b)) = false) →
    Tracked (releaseTimedOut hz jiffies (h % b) n ((h + d) % b) skipped t frames).1 := by
  intro n
  induction n with
  | zero =>
    intro d skipped t frames ht _ _ _ _
    exact ht
  | succ n ih =>
    intro d skipped t frames ht hb hd1 hdb hskip
    have hnext : ((h + d) % t.bufSize + 1) % t.bufSize = (h + (d + 1)) % b := by
      rw [hb, Nat.mod_add_mod, Nat.add_assoc]
    have hpos : 0 < b := hb ▸ ht.size_pos
    unfold Reorder.releaseTimedOut
    split
    · exact ht
    rename_i hne
    have hlt : d < b := by
      refine lt_of_le_of_ne hdb ?_
      rintro rfl
      exact hne (Nat.add_mod_right h d)
    rw [← hb] at hne ⊢
    rw [hnext, hb]
    split
    next hr =>
      rw [rxReorderReady_eq_or, Bool.or_eq_false_iff] at hr
      refine ih (d + 1) (skipped + 1) t frames ht hb (by omega) hlt ?_
      intro m h1 h2
      obtain h3 | rfl := Nat.lt_or_eq_of_le (Nat.le_of_lt_succ h2)
      · exact hskip m h1 h3
      · exact hr.2
    · split
      · exact ht
      -- purge the skipped slots, release slot `d`, and go on behind it
      rw [Nat.mod_add_mod]
      obtain ⟨⟨r, hr⟩, hpurged, hkept⟩ := purgeSlots_spec h b 1 t hd1 (by omega) (by omega)
      rw [hb] at hr hpurged hkept
      set t₁ := purgeSlots ((h + d) % b) b ((h + 1) % b) t with ht₁
      have hsize₁ : t₁.bufSize = b := by rw [hr]
      have ht₁ : Tracked t₁ := by
        rw [← hb] at hr
        refine ht.purge hr ?_
        intro x
        by_cases hx : ∃ m, 1 ≤ m ∧ m < d ∧ x = (h + m) % b
        · obtain ⟨m, h1, h2, rfl⟩ := hx
          exact .inr ⟨hpurged m h1 h2, hskip m h1 h2⟩
        · push Not at hx
          exact .inl (hkept x hx)
      have hidx : (h + d) % b < t₁.bufSize := by
        rw [hsize₁]
        exact Nat.mod_lt _ hpos
      obtain ⟨ht₂, hsize₂, hbuf₂, -⟩ := ht₁.releaseReorderFrame hidx frames
      refine ih (d + 1) 0 _ _ (ht₂.head (Nat.mod_lt _ (by omega))) (hsize₂.trans hsize₁)
        (by omega) hlt ?_
      intro m h1 h2
      show complete ((Reorder.releaseReorderFrame t₁ ((h + d) % b) frames).1.buf _) = false
      rw [hbuf₂]
      obtain h3 | rfl := Nat.lt_or_eq_of_le (Nat.le_of_lt_succ h2)
      · by_cases hx : (h + m) % b = (h + d) % b
        · rw [hx, update_self, complete_nil]
        · rw [update_of_ne hx, hpurged m h1 h3, complete_nil]
      · rw [update_self, complete_nil]

theorem Tracked.staReorderRelease (ht : Tracked t) (hz jiffies : ℕ) (frames : List Skb) :
    ∃ p, staReorderRelease hz jiffies t frames = some p ∧ Tracked p.1 := by
  have hphase : Tracked (releasePhase hz jiffies t frames).1 := by
    unfold releasePhase
    split
    · have hmod : (t.headIndex + 1) % t.bufSize = (t.headSeqNum + 1) % t.bufSize :=
        Nat.mod_add_mod _ _ _
      rw [hmod]
      refine Tracked.releaseTimedOut t.bufSize 1 1 t frames ht rfl le_rfl ht.size_pos ?_
      intro m h1 h2
      omega
    · exact (ht.releaseReady frames).1
  unfold Reorder.staReorderRelease
  generalize releasePhase hz jiffies t frames = r at hphase ⊢
  obtain ⟨x, hx⟩ := armTimer_eq hz r.2.1 r.2.2 hphase.size_pos hphase.exists_ready
  exact ⟨_, hx, { hphase with }⟩

/-! ### Arriving frames -/

theorem Tracked.store (ht : Tracked t) {skb : Skb} {index : ℕ} (hi : index < t.bufSize)
    (hr : rxReorderReady t index = false) {r : ℕ → ReorderSlot} {stored : ℕ} {t' : TidAmpduRx}
    (ht' : t' = { t with reorder := r, storedMpduNum := stored })
    (hbuf : t'.buf = update t.buf index (t.buf index ++ [skb]))
    (hs : stored = if skb.amsduMore = true then t.storedMpduNum else u16 (t.storedMpduNum + 1)) :
    Tracked t' := by
  rw [rxReorderReady_eq_or, Bool.or_eq_false_iff] at hr
  obtain ⟨hbit, hc⟩ := hr
  have hcount := readyCount_update t t' (by rw [ht']) hi (fun k hk => by rw [hbuf]; simp [hk])
  have hle := readyCount_le t
  have hsize := ht.size_le
  have hst := ht.stored
  rw [hbuf, update_self, complete_append_singleton] at hcount
  have hstored : stored = readyCount t' := by
    rw [hs]
    cases hm : skb.amsduMore with
    | true =>
      simp only [hm, hc, Bool.not_true, Bool.false_eq_true, if_false, if_true] at hcount ⊢
      omega
    | false =>
      simp only [hm, hc, Bool.not_false, Bool.false_eq_true, if_false, if_true] at hcount ⊢
      unfold u16
      omega
  have hwhole : ∀ i < t.bufSize, t.reorderBufFiltered.testBit i = true →
      t'.buf i = [] ∨ complete (t'.buf i) = true := by
    intro i hi' hb
    have hne : i ≠ index := by
      rintro rfl
      rw [hb] at hbit
      cases hbit
    rw [hbuf, update_of_ne hne]
    exact ht.whole i hi' hb
  subst ht'
  exact ⟨ht.size_pos, hsize, ht.head_lt, hstored, hwhole⟩

theorem Tracked.storeFrame (ht : Tracked t) (hz jiffies : ℕ) (skb : Skb) (frames : List Skb) :
    ∃ r, storeFrame hz jiffies t skb frames = some r ∧ Tracked r.2.1 := by
  unfold Reorder.storeFrame
  dsimp only
  split
  · exact ⟨_, rfl, ht⟩
  rename_i hr
  rw [Bool.not_eq_true] at hr
  split
  · split
    · exact ⟨_, rfl, ht⟩
    · exact ⟨_, rfl, ht.head (snInc_lt _)⟩
  have hi : skb.sn % t.bufSize < t.bufSize := Nat.mod_lt _ ht.size_pos
  split
  next hm =>
    refine ⟨_, rfl, ht.store hi hr rfl (TidAmpduRx.setBuf_buf _ _ _) ?_⟩
    rw [if_pos hm]
  rename_i hm
  have ht₂ : Tracked
      { (t.setBuf (skb.sn % t.bufSize) (t.buf (skb.sn % t.bufSize) ++ [skb])).setTime
          (skb.sn % t.bufSize) jiffies with
        storedMpduNum := u16
          ((t.setBuf (skb.sn % t.bufSize) (t.buf (skb.sn % t.bufSize) ++ [skb])).storedMpduNum
            + 1) } := by
    refine ht.store hi hr rfl ?_ (if_neg hm).symm
    exact (TidAmpduRx.setTime_buf _ _ _).trans (TidAmpduRx.setBuf_buf _ _ _)
  obtain ⟨p, hp, htp⟩ := ht₂.staReorderRelease hz jiffies frames
  rw [hp]
  exact ⟨_, rfl, htp⟩

theorem Tracked.staManageReorderBuf (ht : Tracked t) (hz jiffies : ℕ) (skb : Skb) :
    ∃ r, staManageReorderBuf hz jiffies t skb = some r ∧ Tracked r.2.1 := by
  have ht₀ : Tracked (pickAutoSeq t skb.sn) := by
    unfold pickAutoSeq
    split
    · exact { ht with head_lt := skb.sn_lt }
    · exact ht
  unfold Reorder.staManageReorderBuf
  dsimp only
  generalize pickAutoSeq t skb.sn = t₀ at ht₀ ⊢
  split
  · exact ⟨_, rfl, ht₀⟩
  have ht₁ : Tracked { t₀ with started := true } := { ht₀ with }
  split
  · exact ⟨_, rfl, ht₁⟩
  refine Tracked.storeFrame ?_ hz jiffies skb _
  unfold windowMove
  split
  · exact (ht₁.releaseReorderFrames (snInc_lt _) []).tracked
  · exact ht₁

/-! ### Filtered frames -/

theorem testBit_markSlots {n : ℕ} (hn : n ≤ 64) (ssn filtered bitmap : ℕ) {k : ℕ} (hk : k < n) :
    (markSlots ssn filtered n bitmap).testBit ((ssn + k) % n) = filtered.testBit k := by
  -- induction on the number of iterations: each sets the bit of its own slot only
  have hloop : ∀ m ≤ n, ∀ k < m, ((List.range m).foldl (fun bitmap i =>
      if filtered.testBit i then BitSet.erase 64 bitmap ((ssn + i) % n) ||| 2 ^ ((ssn + i) % n)
      else BitSet.erase 64 bitmap ((ssn + i) % n)) bitmap).testBit ((ssn + k) % n) =
        filtered.testBit k := by
    intro m
    induction m with
    | zero =>
      intro _ k hk
      omega
    | succ m ih =>
      intro hm k hk
      have hslot : ∀ i, (ssn + i) % n < 64 := fun i =>
        (Nat.mod_lt _ (by omega)).trans_le hn
      have hdist : (ssn + k) % n = (ssn + m) % n ↔ k = m :=
        ⟨fun e => Ring.slot_inj (by omega) (by omega) e, fun e => by rw [e]⟩
      have hdist' : (ssn + m) % n = (ssn + k) % n ↔ k = m := by rw [eq_comm, hdist]
      rw [List.range_succ, List.foldl_append, List.foldl_cons, List.foldl_nil]
      by_cases hkm : k = m
      · subst hkm
        split
        next hf =>
          rw [Nat.testBit_or, Nat.testBit_two_pow, hf]
          simp
        next hf =>
          rw [BitSet.testBit_erase (hslot k) (hslot k)]
          simpa using hf
      · have hkeep := ih (by omega) k (by omega)
        split
        · rw [Nat.testBit_or, Nat.testBit_two_pow, BitSet.testBit_erase (hslot m) (hslot k), hkeep]
          simp [hdist, hdist', hkm]
        · rw [BitSet.testBit_erase (hslot m) (hslot k), hkeep]
          simp [hdist, hkm]
  exact hloop n le_rfl k hk

def markHead (t : TidAmpduRx) (ssn receivedMpdus : ℕ) : ℕ :=
  if 4096 / 2 ≤ receivedMpdus ∨ snLess t.headSeqNum ssn = true then ssn else t.headSeqNum

def markPasses (t : TidAmpduRx) (ssn receivedMpdus : ℕ) : ℕ :=
  if 4096 / 2 ≤ receivedMpdus then t.bufSize else numPassed t.headSeqNum ssn

/-- The call sets the bit of slot `i`. -/
def Marks (t : TidAmpduRx) (ssn filtered receivedMpdus i : ℕ) : Prop :=
  ∃ k < t.bufSize, snSub (markHead t ssn receivedMpdus) ssn < t.bufSize ∧
    (ssn + snSub (markHead t ssn receivedMpdus) ssn + k) % t.bufSize = i ∧
      filtered.testBit (snSub (markHead t ssn receivedMpdus) ssn + k) = true

/-- Filtered frames do not mark a slot with a half-received A-MSDU, unless it is passed and emptied
before. -/
def Spares (t : TidAmpduRx) : BaEvent → Prop
  | .event _ => True
  | .mark ssn filtered receivedMpdus _ =>
    ∀ i < t.bufSize, t.buf i ≠ [] → complete (t.buf i) = false →
      (∃ k < markPasses t ssn receivedMpdus, (t.headSeqNum + k) % 4096 % t.bufSize = i) ∨
        ¬ Marks t ssn filtered receivedMpdus i

instance (t : TidAmpduRx) (e : BaEvent) : Decidable (Spares t e) := by
  cases e <;> dsimp only [Spares, Marks] <;> infer_instance

structure Flushed (t₀ : TidAmpduRx) (ssn receivedMpdus : ℕ) (t : TidAmpduRx) : Prop where
  tracked : Tracked t
  size : t.bufSize = t₀.bufSize
  pos : t.headSeqNum = markHead t₀ ssn receivedMpdus
  sub : ∀ i, t.buf i = t₀.buf i ∨ t.buf i = []
  empty : ∀ k < markPasses t₀ ssn receivedMpdus,
    t.buf ((t₀.headSeqNum + k) % 4096 % t₀.bufSize) = []

theorem Tracked.markRelease (ht : Tracked t) {ssn : ℕ} (hssn : ssn < 4096) (receivedMpdus : ℕ) :
    Flushed t ssn receivedMpdus (markRelease ssn receivedMpdus t).1 := by
  have hpos := ht.size_pos
  have hle := ht.size_le
  have hh := ht.head_lt
  unfold Reorder.markRelease
  split
  next hrec =>
    have hall : numPassed t.headSeqNum ((t.headSeqNum + t.bufSize) % 4096) = t.bufSize := by
      have hless : snLess t.headSeqNum ((t.headSeqNum + t.bufSize) % 4096) = true := by
        rw [snLess_eq_true]
        unfold snSub
        omega
      rw [numPassed, if_pos hless]
      unfold snSub
      omega
    have hp := ht.releaseReorderFrames (Nat.mod_lt (t.headSeqNum + t.bufSize)
      (show 0 < 4096 by omega)) []
    rw [hall] at hp
    refine ⟨hp.tracked.head hssn, hp.size, ?_, hp.sub, ?_⟩
    · rw [markHead, if_pos (.inl hrec)]
    · rw [markPasses, if_pos hrec]
      exact hp.empty
  next hrec =>
    have hp := ht.releaseReorderFrames hssn []
    refine ⟨hp.tracked, hp.size, ?_, hp.sub, ?_⟩
    · rw [hp.pos, markHead, numPassed]
      split
      next hless =>
        rw [if_pos (.inr hless)]
        unfold snSub
        omega
      next hless => rw [if_neg (by simp [hrec, hless]), Nat.add_zero, Nat.mod_eq_of_lt hh]
    · rw [markPasses, if_neg hrec]
      exact hp.empty

theorem Tracked.markRxBaFilteredFrames (ht : Tracked t) {ssn : Fin 4096}
    {filtered receivedMpdus jiffies : ℕ}
    (hsp : Spares t (.mark ssn filtered receivedMpdus jiffies)) (hz : ℕ) :
    ∃ p, markRxBaFilteredFrames hz jiffies ssn filtered receivedMpdus t = some p ∧ Tracked p.1 := by
  have hfl := ht.markRelease ssn.isLt receivedMpdus
  unfold Reorder.markRxBaFilteredFrames
  generalize Reorder.markRelease ssn receivedMpdus t = p at hfl ⊢
  dsimp only
  split
  · refine ⟨_, rfl, hfl.tracked.setFiltered ?_⟩
    intro i _ hb
    rw [Nat.zero_testBit] at hb
    cases hb
  next hdiff =>
    rw [Nat.not_le, hfl.size, hfl.pos] at hdiff
    refine Tracked.staReorderRelease (hfl.tracked.setFiltered ?_) hz jiffies _
    intro i hi hb
    by_contra hpart
    obtain ⟨hne, hc⟩ := not_or.mp hpart
    have hsub := (hfl.sub i).resolve_right hne
    rw [hsub] at hne hc
    replace hi : i < t.bufSize := hfl.size ▸ hi
    obtain ⟨k, hk, hki⟩ | hno := hsp i hi hne (by simpa using hc)
    · exact hne (by rw [← hsub, ← hki, hfl.empty k hk])
    apply hno
    have hspec := Ring.off_spec ht.size_pos (ssn + snSub (markHead t ssn receivedMpdus) ssn) i
    have hslot : (ssn + snSub (markHead t ssn receivedMpdus) ssn + Ring.off t.bufSize
        (ssn + snSub (markHead t ssn receivedMpdus) ssn) i) % t.bufSize = i :=
      Eq.trans hspec (Nat.mod_eq_of_lt hi)
    refine ⟨_, Ring.off_lt ht.size_pos _ _, hdiff, hslot, ?_⟩
    rw [hfl.size, hfl.pos, ← hslot,
      testBit_markSlots ht.size_le _ _ _ (Ring.off_lt ht.size_pos _ _)] at hb
    rwa [Nat.testBit_shiftRight] at hb

/-! ### Runs -/

theorem Tracked.baStep (ht : Tracked t) (hz : ℕ) {e : BaEvent} (hsp : Spares t e) :
    ∃ o t', baStep hz t e = some (o, t') ∧ Tracked t' := by
  cases e with
  | event e =>
    cases e with
    | rx skb jiffies =>
      obtain ⟨r, hr, htr⟩ := ht.staManageReorderBuf hz jiffies skb
      exact ⟨⟨some r.1, r.2.2⟩, r.2.1, by simp only [Reorder.baStep, step, hr, Option.map_some], htr⟩
    | timer jiffies =>
      obtain ⟨p, hp, htp⟩ := ht.staReorderRelease hz jiffies []
      exact ⟨⟨none, p.2⟩, p.1, by simp only [Reorder.baStep, step, hp, Option.map_some], htp⟩
  | mark ssn filtered receivedMpdus jiffies =>
    obtain ⟨p, hp, htp⟩ := ht.markRxBaFilteredFrames hsp hz
    exact ⟨⟨none, p.2⟩, p.1, by simp only [Reorder.baStep, hp, Option.map_some], htp⟩

theorem freshSession_tracked (req : StartRequest) (hssn : req.startSeqNum < 4096) {bufSize : ℕ}
    (hpos : 0 < bufSize) (hle : bufSize ≤ 64) : Tracked (freshSession req bufSize) := by
  refine ⟨hpos, hle, hssn, ?_, fun i _ _ => .inl rfl⟩
  simp [freshSession, readyCount, TidAmpduRx.buf]

/-- **The search for the next timeout ends.**  If no call marks a slot with a half-received A-MSDU,
`stored_mpdu_num` is the number of slots that hold a complete frame, and every event returns. -/
theorem reorder_search_ends {hz : ℕ} {req : StartRequest} (hssn : req.startSeqNum < 4096)
    {bufSize : ℕ} (hpos : 0 < bufSize) (hle : bufSize ≤ 64)
    {ls : List (Label TidAmpduRx BaEvent Outcome)}
    (hrun : Run (baStep hz) (freshSession req bufSize) ls t)
    (hsp : ∀ l ∈ ls, Spares l.pre l.act) :
    t.storedMpduNum = readyCount t ∧ ∀ e, Spares t e → (baStep hz t e).isSome = true := by
  have hstep : ∀ s a b s', baStep hz s a = some (b, s') →
      Spares (Label.mk s a b s').pre (Label.mk s a b s').act → Tracked s → Tracked s' := by
    intro s a b s' h hc hs
    obtain ⟨o, t', h', ht'⟩ := hs.baStep hz hc
    rw [h] at h'
    obtain ⟨-, rfl⟩ := Prod.mk.inj (Option.some.inj h')
    exact ht'
  have ht := (Run.induct (C := fun l => Spares l.pre l.act) hstep hrun hsp
    (freshSession_tracked req hssn hpos hle)).1
  refine ⟨ht.stored, ?_⟩
  intro e he
  obtain ⟨o, t', h, -⟩ := ht.baStep hz he
  rw [h]
  rfl

def fourSlots : TidAmpduRx :=
  freshSession ⟨0, 0, 2, 1, 0, 4, false, false, false⟩ 4

/-- A subframe of number 3 arrives; numbers 2 and 4 are filtered, and then the rest of number 3
arrives. -/
theorem reorder_search_ends_filtered :
    ∃ ls t, execute (baStep 100) fourSlots
        [.event (.rx ⟨48, true, false⟩ 0), .mark 2 5 0 0, .event (.rx ⟨48, false, false⟩ 1)] =
        some (ls, t) ∧ (∀ l ∈ ls, Spares l.pre l.act) ∧
      t.storedMpduNum = readyCount t ∧ ∀ e, Spares t e → (baStep 100 t e).isSome = true := by
  refine exists_execute rfl fun hrun => ⟨by decide, ?_⟩
  exact reorder_search_ends (by decide) (by decide) (by decide) hrun (by decide)

/-- The first subframe of number 3 arrives, and numbers 2 and 3 are reported as filtered: slot 3 is
counted down from zero.  The call does not return. -/
theorem filtered_amsdu_hangs :
    ∃ ls t, execute (baStep 100) fourSlots [.event (.rx ⟨48, true, false⟩ 0)] = some (ls, t) ∧
      baStep 100 t (.mark 2 3 0 0) = none :=
  ⟨_, _, rfl, by decide⟩

end Iwlwifi.Ieee80211.Reorder
