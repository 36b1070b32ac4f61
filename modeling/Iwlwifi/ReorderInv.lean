import Iwlwifi.Reorder

/-! # Invariants of the reorder buffer

What the operations of `Reorder.lean` keep.

* `Counted`: `stored_mpdu_num` is the number of slots that hold a complete frame, and in every
  slot only the last subframe may end its A-MSDU, wherever the frames lie.
* `InWindow t h`: every stored frame is in the slot of its sequence number and in the window of
  `buf_size` sequence numbers that starts at `h`.
* `Good`: both, with the window at the head.  On sizes that divide 4096 the slot of a window
  position is unique, so all frames of a slot have one sequence number (`Good.sn_eq`).
* `Delivers h a b out`: the frames `out` are in order, at distances `a ≤ · < b` from `h`.

Releasing the slot of the head keeps `Good` (`release_good`); this covers the window move and
the gap-free release.  The release after a timeout runs ahead of the head and leaves the slot
of the head alone (`releaseTimedOut_spec`). -/

namespace Iwlwifi.Ieee80211.Reorder

open Function Finset

variable {t : TidAmpduRx} {i j : ℕ}

/-! ### Slots -/

namespace TidAmpduRx

@[simp] theorem setBuf_buf (t : TidAmpduRx) (i : ℕ) (l : List Skb) :
    (t.setBuf i l).buf = update t.buf i l := by
  funext k
  by_cases h : k = i <;> simp [setBuf, buf, h]

@[simp] theorem setBuf_time (t : TidAmpduRx) (i : ℕ) (l : List Skb) (k : ℕ) :
    ((t.setBuf i l).reorder k).time = (t.reorder k).time := by
  by_cases h : k = i <;> simp [setBuf, h]

@[simp] theorem setTime_buf (t : TidAmpduRx) (i time : ℕ) : (t.setTime i time).buf = t.buf := by
  funext k
  by_cases h : k = i <;> simp [setTime, buf, h]

theorem setTime_time (t : TidAmpduRx) (i time k : ℕ) :
    ((t.setTime i time).reorder k).time = if k = i then time else (t.reorder k).time := by
  by_cases h : k = i <;> simp [setTime, h]

theorem setBuf_eq_self (h : t.buf i = []) : t.setBuf i [] = t := by
  have e : ({ t.reorder i with buf := [] } : ReorderSlot) = t.reorder i := by
    rw [← h]
    rfl
  unfold setBuf
  rw [e, update_eq_self]

end TidAmpduRx

def complete (l : List Skb) : Bool :=
  match l.getLast? with
  | none => false
  | some tail => !tail.amsduMore

@[simp] theorem complete_nil : complete [] = false := rfl

@[simp] theorem complete_append_singleton (l : List Skb) (f : Skb) :
    complete (l ++ [f]) = !f.amsduMore := by
  simp [complete]

variable {l : List Skb}

theorem amsduMore_of_incomplete (hch : l.Pairwise (fun f _ => f.amsduMore = true))
    (hc : complete l = false) : ∀ f ∈ l, f.amsduMore = true := by
  rcases List.eq_nil_or_concat l with rfl | ⟨l, g, rfl⟩
  · simp
  rw [List.concat_eq_append] at *
  rw [List.pairwise_append] at hch
  intro f hf
  rcases List.mem_append.mp hf with hf | hf
  · exact hch.2.2 f hf g (by simp)
  · simpa [List.mem_singleton.mp hf] using hc

theorem complete_of_plain (hp : ∀ f ∈ l, f.amsduMore = false) (hne : l ≠ []) :
    complete l = true := by
  rcases List.eq_nil_or_concat l with rfl | ⟨l, g, rfl⟩
  · exact absurd rfl hne
  · rw [List.concat_eq_append, complete_append_singleton, hp g (by simp)]
    rfl

theorem exists_mem_of_complete (hc : complete l = true) : ∃ f, f ∈ l := by
  rcases l with _ | ⟨f, l⟩
  · simp at hc
  · exact ⟨f, by simp⟩

theorem rxReorderReady_eq (h : t.reorderBufFiltered = 0) (i : ℕ) :
    rxReorderReady t i = complete (t.buf i) := by
  unfold rxReorderReady
  rw [if_neg (by simp [h])]
  rfl

def readyCount (t : TidAmpduRx) : ℕ :=
  ∑ i ∈ range t.bufSize, if complete (t.buf i) = true then 1 else 0

theorem readyCount_le (t : TidAmpduRx) : readyCount t ≤ t.bufSize := by
  have h : readyCount t ≤ ∑ _i ∈ range t.bufSize, 1 := by
    apply sum_le_sum
    intro i _
    split <;> omega
  simpa using h

theorem readyCount_congr {t t' : TidAmpduRx} (hb : t'.bufSize = t.bufSize)
    (h : ∀ i < t.bufSize, complete (t'.buf i) = complete (t.buf i)) :
    readyCount t' = readyCount t := by
  unfold readyCount
  rw [hb]
  apply sum_congr rfl
  intro i hi
  rw [h i (mem_range.mp hi)]

theorem readyCount_update (t t' : TidAmpduRx) (hb : t'.bufSize = t.bufSize)
    (hi : i < t.bufSize) (h : ∀ k, k ≠ i → t'.buf k = t.buf k) :
    readyCount t' + (if complete (t.buf i) = true then 1 else 0) =
      readyCount t + (if complete (t'.buf i) = true then 1 else 0) := by
  have hm : i ∈ range t.bufSize := mem_range.mpr hi
  have e : ∑ k ∈ (range t.bufSize).erase i, (if complete (t'.buf k) = true then 1 else 0) =
      ∑ k ∈ (range t.bufSize).erase i, (if complete (t.buf k) = true then 1 else 0) := by
    apply sum_congr rfl
    intro k hk
    rw [h k (ne_of_mem_erase hk)]
  unfold readyCount
  rw [hb, ← add_sum_erase _ _ hm, ← add_sum_erase (range t.bufSize)
    (fun k => if complete (t.buf k) = true then 1 else 0) hm, e]
  omega

theorem exists_complete_of_readyCount (h : readyCount t ≠ 0) :
    ∃ i < t.bufSize, complete (t.buf i) = true := by
  by_contra hn
  push Not at hn
  apply h
  apply sum_eq_zero
  intro i hi
  simp [hn i (mem_range.mp hi)]

theorem readyCount_pos (hi : i < t.bufSize) (hc : complete (t.buf i) = true) :
    0 < readyCount t := by
  have := single_le_sum (f := fun k => if complete (t.buf k) = true then 1 else 0)
    (fun _ _ => Nat.zero_le _) (mem_range.mpr hi)
  simp only [hc, if_true] at this
  exact this

/-! ### Invariants -/

/-- Counters and lists are in step, wherever the frames lie. -/
structure Counted (t : TidAmpduRx) : Prop where
  size_pos : 0 < t.bufSize
  size_lt : t.bufSize < 65536
  head_lt : t.headSeqNum < 4096
  filtered : t.reorderBufFiltered = 0
  chain : ∀ i, (t.buf i).Pairwise (fun f _ => f.amsduMore = true)
  stored : t.storedMpduNum = readyCount t
  idle : t.started = false → ∀ i, t.buf i = []
  auto : t.autoSeq = true → t.started = false

/-- Every stored frame is in its slot and in the window that starts at `h`. -/
def InWindow (t : TidAmpduRx) (h : ℕ) : Prop :=
  ∀ i, ∀ f ∈ t.buf i, f.sn % t.bufSize = i ∧ snSub f.sn h < t.bufSize

structure Good (t : TidAmpduRx) : Prop extends Counted t where
  window : InWindow t t.headSeqNum

/-- The frames are in order, at distances `a ≤ · < b` from `h`; equal numbers only within an
A-MSDU. -/
def Delivers (h a b : ℕ) (out : List Skb) : Prop :=
  (∀ f ∈ out, a ≤ snSub f.sn h ∧ snSub f.sn h < b) ∧
    out.Pairwise fun f g =>
      snSub f.sn h < snSub g.sn h ∨ (f.sn = g.sn ∧ f.amsduMore = true)

theorem delivers_nil (h a b : ℕ) : Delivers h a b [] := by simp [Delivers]

theorem Delivers.append {h a b c : ℕ} {l₁ l₂ : List Skb} (h₁ : Delivers h a b l₁)
    (h₂ : Delivers h b c l₂) (hab : a ≤ b) (hbc : b ≤ c) : Delivers h a c (l₁ ++ l₂) := by
  constructor
  · intro f hf
    rcases List.mem_append.mp hf with hf | hf
    · have := h₁.1 f hf
      omega
    · have := h₂.1 f hf
      omega
  · rw [List.pairwise_append]
    refine ⟨h₁.2, h₂.2, ?_⟩
    intro f hf g hg
    have := h₁.1 f hf
    have := h₂.1 g hg
    left
    omega

theorem Delivers.mono {h a b c : ℕ} (hl : Delivers h a b l) (hbc : b ≤ c) : Delivers h a c l := by
  refine ⟨?_, hl.2⟩
  intro f hf
  have := hl.1 f hf
  omega

theorem delivers_slot {h a : ℕ} (hsn : ∀ f ∈ l, snSub f.sn h = a)
    (heq : ∀ f ∈ l, ∀ g ∈ l, f.sn = g.sn) (hch : l.Pairwise (fun f _ => f.amsduMore = true)) :
    Delivers h a (a + 1) l := by
  constructor
  · intro f hf
    have := hsn f hf
    omega
  · refine hch.imp_of_mem ?_
    intro f g hf hg hm
    exact Or.inr ⟨heq f hf g hg, hm⟩

@[simp] theorem deferRelease_sn (f : Skb) : (deferRelease f).sn = f.sn := rfl

/-! ### Releasing one slot -/

/-- The frames that leave slot `i` when it is released. -/
def released (t : TidAmpduRx) (i : ℕ) : List Skb :=
  if complete (t.buf i) = true then (t.buf i).map deferRelease else []

def release (t : TidAmpduRx) (i : ℕ) : TidAmpduRx :=
  { t.setBuf i [] with
    storedMpduNum := if complete (t.buf i) = true then u16Dec t.storedMpduNum else t.storedMpduNum
    headSeqNum := snInc t.headSeqNum }

@[simp] theorem release_buf (t : TidAmpduRx) (i : ℕ) :
    (release t i).buf = update t.buf i [] := TidAmpduRx.setBuf_buf t i []
@[simp] theorem release_time (t : TidAmpduRx) (i k : ℕ) :
    ((release t i).reorder k).time = (t.reorder k).time := TidAmpduRx.setBuf_time t i [] k
@[simp] theorem release_bufSize (t : TidAmpduRx) (i : ℕ) : (release t i).bufSize = t.bufSize := rfl
@[simp] theorem release_headSeqNum (t : TidAmpduRx) (i : ℕ) :
    (release t i).headSeqNum = snInc t.headSeqNum := rfl

theorem release_buf_sub (t : TidAmpduRx) (i x : ℕ) :
    (release t i).buf x = t.buf x ∨ (release t i).buf x = [] := by
  rw [release_buf]
  by_cases hx : x = i
  · right
    rw [hx, update_self]
  · left
    rw [update_of_ne hx]

theorem mem_release_buf {f : Skb} (hf : f ∈ (release t i).buf j) : f ∈ t.buf j := by
  obtain h | h := release_buf_sub t i j
  · exact h ▸ hf
  · simp [h] at hf

/-- Without filtered frames, `releaseReorderFrame` purges or releases the slot and moves the
head. -/
theorem releaseReorderFrame_eq (h : t.reorderBufFiltered = 0) (i : ℕ) (frames : List Skb) :
    releaseReorderFrame t i frames = (release t i, frames ++ released t i) := by
  unfold releaseReorderFrame release released
  rw [rxReorderReady_eq h]
  by_cases he : t.buf i = []
  · simp [he, clearFiltered, h, TidAmpduRx.setBuf_eq_self he]
  · cases hc : complete (t.buf i) with
    | false | true => simp [he, clearFiltered, TidAmpduRx.setBuf, h]

theorem release_stored (hs : t.storedMpduNum = readyCount t) (hlt : t.bufSize < 65536)
    (hi : i < t.bufSize) : (release t i).storedMpduNum = readyCount (release t i) := by
  have hu := readyCount_update t (release t i) rfl hi (fun k hk => by simp [hk])
  have hle := readyCount_le t
  simp only [release_buf, update_self, complete_nil, Bool.false_eq_true, if_false, add_zero] at hu
  show (if complete (t.buf i) = true then u16Dec t.storedMpduNum else t.storedMpduNum) = _
  split
  next hc =>
    simp only [hc, if_true] at hu
    unfold u16Dec
    omega
  next hc =>
    rw [if_neg hc] at hu
    omega

theorem release_counted (ht : Counted t) (hi : i < t.bufSize) : Counted (release t i) where
  size_pos := ht.size_pos
  size_lt := ht.size_lt
  head_lt := snInc_lt _
  filtered := ht.filtered
  chain := by
    intro k
    obtain h | h := release_buf_sub t i k <;> simp [h, ht.chain k]
  stored := release_stored ht.stored ht.size_lt hi
  idle := by
    intro hst k
    obtain h | h := release_buf_sub t i k <;> simp [h, ht.idle hst k]
  auto := ht.auto

/-! ### Releasing the slot of the head -/

theorem Good.headIndex_lt (ht : Good t) : t.headIndex < t.bufSize := Nat.mod_lt _ ht.size_pos

theorem InWindow.sn_unique {h x : ℕ} (hd : t.bufSize ∣ 4096) (hh : h < 4096)
    (hw : InWindow t h) {f : Skb} (hf : f ∈ t.buf i) (hx : x < 4096)
    (hxw : snSub x h < t.bufSize) (hxi : x % t.bufSize = i) : f.sn = x := by
  obtain ⟨h1, h2⟩ := hw i f hf
  rw [snSub_eq_off hh] at h2 hxw
  exact Ring.eq_of_mod_eq hd f.sn_lt hx h h2 hxw (h1.trans hxi.symm)

theorem Good.sn_eq (hd : t.bufSize ∣ 4096) (ht : Good t) {f g : Skb} (hf : f ∈ t.buf i)
    (hg : g ∈ t.buf i) : f.sn = g.sn :=
  ht.window.sn_unique hd ht.head_lt hf g.sn_lt (ht.window i g hg).2 (ht.window i g hg).1

theorem Good.sn_headIndex (hd : t.bufSize ∣ 4096) (ht : Good t) {f : Skb}
    (hf : f ∈ t.buf t.headIndex) : f.sn = t.headSeqNum :=
  ht.window.sn_unique hd ht.head_lt hf ht.head_lt (by simpa using ht.size_pos) rfl

theorem release_good (hd : t.bufSize ∣ 4096) (ht : Good t) : Good (release t t.headIndex) where
  toCounted := release_counted ht.toCounted ht.headIndex_lt
  window := by
    intro k f hf
    obtain ⟨h1, h2⟩ := ht.window k f (mem_release_buf hf)
    refine ⟨h1, ?_⟩
    have hne : f.sn ≠ t.headSeqNum := by
      intro e
      obtain rfl : t.headIndex = k := by rw [← h1, e]; rfl
      simp at hf
    have hsn := f.sn_lt
    have hh := ht.head_lt
    have hle := Nat.le_of_dvd (by omega) hd
    simp only [release_headSeqNum, release_bufSize, snInc, snAdd]
    unfold snSub at h2 ⊢
    omega

theorem released_delivers (ht : Counted t) {h n x : ℕ} (hh : h < 4096) (hn : n < 4096)
    (hx : x = (h + n) % 4096) (hsn : ∀ f ∈ t.buf i, f.sn = x) :
    Delivers h n (n + 1) (released t i) := by
  unfold released
  split
  · apply delivers_slot
    · intro f hf
      obtain ⟨g, hg, rfl⟩ := List.mem_map.mp hf
      rw [deferRelease_sn, hsn g hg, hx]
      unfold snSub
      omega
    · intro f hf g hg
      obtain ⟨f', hf', rfl⟩ := List.mem_map.mp hf
      obtain ⟨g', hg', rfl⟩ := List.mem_map.mp hg
      rw [deferRelease_sn, deferRelease_sn, hsn f' hf', hsn g' hg']
    · rw [List.pairwise_map]
      exact ht.chain _
  · exact delivers_nil _ _ _

theorem released_all {P : Skb → Prop} (hP : ∀ f, P f → P (deferRelease f))
    (hb : ∀ f ∈ t.buf i, P f) : ∀ f ∈ released t i, P f := by
  intro f hf
  unfold released at hf
  split at hf
  · obtain ⟨g, hg, rfl⟩ := List.mem_map.mp hf
    exact hP g (hb g hg)
  · simp at hf

/-- The head has moved `n` positions from `h` and everything handed up on the way is in `p.2`;
the frames, stored or handed up, satisfy `P`. -/
structure Moved (P : Skb → Prop) (h : ℕ) (t₀ : TidAmpduRx) (n : ℕ) (p : TidAmpduRx × List Skb) :
    Prop where
  good : Good p.1
  pos : p.1.headSeqNum = (h + n) % 4096
  out : Delivers h 0 n p.2
  size : p.1.bufSize = t₀.bufSize
  started : p.1.started = t₀.started
  autoSeq : p.1.autoSeq = t₀.autoSeq
  held : ∀ i, ∀ f ∈ p.1.buf i, P f
  handed : ∀ f ∈ p.2, P f

/-- A move that releases the slots it passes and leaves the others alone. -/
structure Cleared (P : Skb → Prop) (h : ℕ) (t₀ : TidAmpduRx) (n : ℕ)
    (p : TidAmpduRx × List Skb) : Prop extends Moved P h t₀ n p where
  time : ∀ i, (p.1.reorder i).time = (t₀.reorder i).time
  gone : ∀ k < n, p.1.buf ((h + k) % t₀.bufSize) = []
  kept : ∀ i, (∀ k < n, i ≠ (h + k) % t₀.bufSize) → p.1.buf i = t₀.buf i

section moved
variable {P : Skb → Prop} {h n : ℕ} {t₀ : TidAmpduRx} {p : TidAmpduRx × List Skb}

theorem Cleared.refl (ht : Good t) (hheld : ∀ i, ∀ f ∈ t.buf i, P f) :
    Cleared P t.headSeqNum t 0 (t, []) where
  good := ht
  pos := by
    have := ht.head_lt
    simp only [add_zero]
    omega
  out := delivers_nil _ _ _
  size := rfl
  started := rfl
  autoSeq := rfl
  held := hheld
  handed := by simp
  time := fun _ => rfl
  gone := by
    intro k hk
    omega
  kept := fun _ _ => rfl

section
variable (hP : ∀ f, P f → P (deferRelease f)) (hd : t₀.bufSize ∣ 4096) (hh : h < 4096)
include hP hd hh

theorem Moved.release (hn : n < 4096) (hp : Moved P h t₀ n p) :
    Moved P h t₀ (n + 1) (releaseReorderFrame p.1 p.1.headIndex p.2) := by
  have hd' : p.1.bufSize ∣ 4096 := hp.size ▸ hd
  rw [releaseReorderFrame_eq hp.good.filtered]
  exact { hp with
    good := release_good hd' hp.good
    pos := by
      have := hp.pos
      simp only [release_headSeqNum, snInc, snAdd]
      omega
    out := hp.out.append
      (released_delivers hp.good.toCounted hh hn hp.pos fun f hf => hp.good.sn_headIndex hd' hf)
      (Nat.zero_le n) (Nat.le_succ n)
    held := fun i f hf => hp.held i f (mem_release_buf hf)
    handed := List.forall_mem_append.mpr ⟨hp.handed, released_all hP (hp.held _)⟩ }

theorem Cleared.release (hn : n < 4096) (hp : Cleared P h t₀ n p) :
    Cleared P h t₀ (n + 1) (releaseReorderFrame p.1 p.1.headIndex p.2) := by
  have hidx : p.1.headIndex = (h + n) % t₀.bufSize := by
    unfold TidAmpduRx.headIndex
    rw [hp.pos, hp.size, Ring.mod_fold hd]
  refine { hp.toMoved.release hP hd hh hn with time := ?_, gone := ?_, kept := ?_ }
  all_goals rw [releaseReorderFrame_eq hp.good.filtered]
  · intro i
    rw [release_time]
    exact hp.time i
  · intro k hk
    rw [release_buf, hidx]
    rcases eq_or_ne ((h + k) % t₀.bufSize) ((h + n) % t₀.bufSize) with e | e
    · rw [e, update_self]
    · have hkn : k ≠ n := fun e' => e (by rw [e'])
      rw [update_of_ne e]
      exact hp.gone k (by omega)
  · intro i hi
    rw [release_buf, hidx, update_of_ne (hi n (by omega))]
    exact hp.kept i (fun k hk => hi k (by omega))

/-- `releaseReorderFrames` moves the head exactly to the new head, when that is ahead. -/
theorem releaseReorderFrames_cleared {newHead m : ℕ} (hnew : newHead = (h + m) % 4096) (hnm : n ≤ m)
    (hm : m - n < 2048) (hm' : m < 4096) (hp : Cleared P h t₀ n p) :
    Cleared P h t₀ m (releaseReorderFrames p.1 newHead p.2) := by
  -- the invariant: some move `k ≤ m`; the measure is what is left of it
  let I : TidAmpduRx × List Skb → Prop := fun q => ∃ k, n ≤ k ∧ k ≤ m ∧ Cleared P h t₀ k q
  have hless : ∀ q k, n ≤ k → k ≤ m → Cleared P h t₀ k q →
      (snLess q.1.headSeqNum newHead = true ↔ k < m) := by
    intro q k h1 h2 hq
    have := hq.pos
    rw [snLess_eq_true, snSub, this, hnew]
    omega
  have hI : ∀ q, I q → snLess q.1.headSeqNum newHead = true →
      I (releaseReorderFrame q.1 q.1.headIndex q.2) := by
    rintro q ⟨k, h1, h2, hq⟩ hc
    have hk := (hless q k h1 h2 hq).mp hc
    exact ⟨k + 1, by omega, hk, hq.release hP hd hh (by omega)⟩
  have hμ : ∀ q, I q → snLess q.1.headSeqNum newHead = true →
      snSub newHead (releaseReorderFrame q.1 q.1.headIndex q.2).1.headSeqNum <
        snSub newHead q.1.headSeqNum := by
    rintro q ⟨k, h1, h2, hq⟩ hc
    have hk := (hless q k h1 h2 hq).mp hc
    have e1 := hq.pos
    have e2 := (hq.release hP hd hh (by omega)).pos
    rw [snSub, snSub, e1, e2, hnew]
    omega
  have h0 : I (p.1, p.2) := ⟨n, le_rfl, hnm, hp⟩
  obtain ⟨k, h1, h2, hq⟩ := whileLoop_inv hI 4096 (p.1, p.2) h0
  have hexit := whileLoop_exit (μ := fun q => snSub newHead q.1.headSeqNum) hI hμ 4096 (p.1, p.2)
    h0 (snSub_lt _ _)
  have hkm : k = m := by
    by_contra hne
    have := (hless _ k h1 h2 hq).mpr (by omega)
    rw [this] at hexit
    cases hexit
  subst hkm
  exact hq

theorem releaseReady_moved (hn : n + readyCount p.1 < 4096) (hp : Moved P h t₀ n p) :
    ∃ m, n ≤ m ∧ m ≤ n + readyCount p.1 ∧ Moved P h t₀ m (releaseReady p.1 p.2) ∧
      complete ((releaseReady p.1 p.2).1.buf (releaseReady p.1 p.2).1.headIndex) = false := by
  let I : TidAmpduRx × List Skb → Prop := fun q =>
    ∃ k, n ≤ k ∧ k + readyCount q.1 ≤ n + readyCount p.1 ∧ Moved P h t₀ k q
  -- a ready slot leaves the count when it is released
  have hcount : ∀ q k, Moved P h t₀ k q → rxReorderReady q.1 q.1.headIndex = true →
      readyCount (releaseReorderFrame q.1 q.1.headIndex q.2).1 + 1 = readyCount q.1 := by
    intro q k hq hc
    rw [rxReorderReady_eq hq.good.filtered] at hc
    rw [releaseReorderFrame_eq hq.good.filtered]
    have := readyCount_update q.1 (Reorder.release q.1 q.1.headIndex) rfl
      hq.good.headIndex_lt (fun k hk => by simp [hk])
    simpa [hc] using this
  have hI : ∀ q, I q → rxReorderReady q.1 q.1.headIndex = true →
      I (releaseReorderFrame q.1 q.1.headIndex q.2) := by
    rintro q ⟨k, h1, h2, hq⟩ hc
    have := hcount q k hq hc
    exact ⟨k + 1, by omega, by omega, hq.release hP hd hh (by omega)⟩
  have hμ : ∀ q, I q → rxReorderReady q.1 q.1.headIndex = true →
      readyCount (releaseReorderFrame q.1 q.1.headIndex q.2).1 < readyCount q.1 := by
    rintro q ⟨k, h1, h2, hq⟩ hc
    have := hcount q k hq hc
    omega
  have h0 : I (p.1, p.2) := ⟨n, le_rfl, le_rfl, hp⟩
  unfold releaseReady
  have hfuel : readyCount p.1 < p.1.bufSize + 1 := Nat.lt_succ_of_le (readyCount_le p.1)
  obtain ⟨k, h1, h2, hq⟩ := whileLoop_inv hI (p.1.bufSize + 1) (p.1, p.2) h0
  have hexit := whileLoop_exit (μ := fun q => readyCount q.1) hI (by exact hμ) (p.1.bufSize + 1)
    (p.1, p.2) h0 hfuel
  rw [rxReorderReady_eq hq.good.filtered] at hexit
  exact ⟨k, h1, by omega, hq, hexit⟩

end

end moved

theorem windowMove_cleared {P : Skb → Prop} (hP : ∀ f, P f → P (deferRelease f))
    (hd : t.bufSize ∣ 4096) (h2 : 2 ≤ t.bufSize) (h1024 : t.bufSize ≤ 1024) (ht : Good t)
    (hheld : ∀ i, ∀ f ∈ t.buf i, P f) {sn : ℕ} (hsn : sn < 4096)
    (hs : snLess sn t.headSeqNum = false) :
    Cleared P t.headSeqNum t (snSub sn t.headSeqNum + 1 - t.bufSize) (windowMove t sn) ∧
      snSub sn (windowMove t sn).1.headSeqNum < t.bufSize := by
  have hh := ht.head_lt
  rw [snLess_eq_false] at hs
  have hless : snLess sn (u16 (t.headSeqNum + t.bufSize)) = false ↔
      t.bufSize ≤ snSub sn t.headSeqNum := by
    rw [snLess_eq_false]
    unfold snSub u16 at *
    omega
  unfold windowMove
  split
  next hc =>
    have hle := hless.mp hc
    have hnew : snInc (snSub sn t.bufSize) =
        (t.headSeqNum + (snSub sn t.headSeqNum + 1 - t.bufSize)) % 4096 := by
      unfold snInc snAdd snSub at *
      omega
    have hp := releaseReorderFrames_cleared hP hd hh hnew (Nat.zero_le _) (by omega) (by omega)
      (Cleared.refl ht hheld)
    refine ⟨hp, ?_⟩
    rw [hp.pos]
    unfold snSub at *
    omega
  next hc =>
    have hlt : ¬ t.bufSize ≤ snSub sn t.headSeqNum := fun h => hc (hless.mpr h)
    have e : snSub sn t.headSeqNum + 1 - t.bufSize = 0 := by omega
    rw [e]
    exact ⟨Cleared.refl ht hheld, Nat.lt_of_not_le hlt⟩

/-! ### The release after a timeout -/

/-- The purge empties the slots `h + k, ..., h + d - 1`, the rest is as before. -/
theorem purgeSlots_spec (h : ℕ) {d : ℕ} : ∀ (n k : ℕ) (t : TidAmpduRx), k ≤ d → d < t.bufSize →
    d - k ≤ n →
    (∃ r, purgeSlots ((h + d) % t.bufSize) n ((h + k) % t.bufSize) t = { t with reorder := r }) ∧
      (∀ m, k ≤ m → m < d →
        (purgeSlots ((h + d) % t.bufSize) n ((h + k) % t.bufSize) t).buf ((h + m) % t.bufSize) =
          []) ∧
      ∀ x, (∀ m, k ≤ m → m < d → x ≠ (h + m) % t.bufSize) →
        (purgeSlots ((h + d) % t.bufSize) n ((h + k) % t.bufSize) t).buf x = t.buf x := by
  intro n
  induction n with
  | zero =>
    intro k t hk _ hn
    refine ⟨⟨t.reorder, rfl⟩, ?_, fun _ _ => rfl⟩
    intro m h1 h2
    omega
  | succ n ih =>
    intro k t hk hd hn
    unfold purgeSlots
    split
    next e =>
      have : k = d := Ring.slot_inj (by omega) hd e
      refine ⟨⟨t.reorder, rfl⟩, ?_, fun _ _ => rfl⟩
      intro m h1 h2
      omega
    next hne =>
      have hlt : k < d := by
        rcases Nat.lt_or_ge k d with h | h
        · exact h
        · exact absurd (by rw [Nat.le_antisymm hk h]) hne
      have e : ((h + k) % t.bufSize + 1) % t.bufSize = (h + (k + 1)) % t.bufSize := by
        rw [Nat.mod_add_mod, Nat.add_assoc]
      rw [e]
      obtain ⟨⟨r, hr⟩, hpurged, hkept⟩ :=
        ih (k + 1) (t.setBuf ((h + k) % t.bufSize) []) hlt hd (by omega)
      simp only [TidAmpduRx.setBuf_buf] at hkept
      refine ⟨⟨r, hr⟩, ?_, ?_⟩
      · intro m h1 h2
        rcases Nat.lt_or_ge k m with hm | hm
        · exact hpurged m hm h2
        -- the slot purged in this iteration is not touched again
        obtain rfl : m = k := by omega
        have hx := hkept ((h + m) % t.bufSize) (fun m' h3 h4 e' => by
          have := Ring.slot_inj (by omega) (by omega) e'
          omega)
        exact hx.trans (by simp)
      · intro x hx
        have hxk : x ≠ (h + k) % t.bufSize := hx k le_rfl hlt
        have hx' := hkept x (fun m h3 h4 => hx m (by omega) h4)
        exact hx'.trans (by simp [hxk])

theorem Counted.purge (ht : Counted t) {r : ℕ → ReorderSlot} {t₁ : TidAmpduRx}
    (hr : t₁ = { t with reorder := r })
    (hbuf : ∀ x, t₁.buf x = t.buf x ∨ (t₁.buf x = [] ∧ complete (t.buf x) = false)) :
    Counted t₁ := by
  have hsize : t₁.bufSize = t.bufSize := by rw [hr]
  have hcount : readyCount t₁ = readyCount t := by
    apply readyCount_congr hsize
    intro x _
    rcases hbuf x with hx | ⟨hx, hc⟩
    · rw [hx]
    · rw [hx, hc, complete_nil]
  have hchain : ∀ i, (t₁.buf i).Pairwise (fun f _ => f.amsduMore = true) := by
    intro x
    obtain hx | ⟨hx, _⟩ := hbuf x <;> simp [hx, ht.chain x]
  have hidle : t.started = false → ∀ i, t₁.buf i = [] := by
    intro hs x
    obtain hx | ⟨hx, _⟩ := hbuf x <;> simp [hx, ht.idle hs x]
  subst hr
  exact ⟨ht.size_pos, ht.size_lt, ht.head_lt, ht.filtered, hchain, ht.stored.trans hcount.symm,
    hidle, ht.auto⟩

/-- The head stands `e` slots behind `h`; the slots between are empty, that of `h` is as it was in
`t₀`. -/
structure TimedOut (h : ℕ) (t₀ : TidAmpduRx) (e : ℕ) (t : TidAmpduRx) : Prop where
  counted : Counted t
  window : InWindow t h
  pos : t.headSeqNum = (h + e) % 4096
  size : t.bufSize = t₀.bufSize
  started : t.started = t₀.started
  autoSeq : t.autoSeq = t₀.autoSeq
  cleared : ∀ k, 1 ≤ k → k < e → t.buf ((h + k) % t₀.bufSize) = []
  sub : ∀ i, t.buf i = t₀.buf i ∨ t.buf i = []

section timeout
variable {h e d : ℕ} {t₀ : TidAmpduRx}

section
variable (ht : TimedOut h t₀ e t) (hlt : d < t₀.bufSize)
include ht hlt

/-- In the window at `h`, the frames of slot `h + d` have the sequence number `h + d`. -/
theorem TimedOut.sn_eq (hd : t₀.bufSize ∣ 4096) (hh : h < 4096) {f : Skb} (hf : f ∈ t.buf ((h + d) % t₀.bufSize)) :
    f.sn = (h + d) % 4096 := by
  apply ht.window.sn_unique (ht.size ▸ hd) hh hf (Nat.mod_lt _ (by omega))
  · rw [ht.size]
    unfold snSub
    omega
  · rw [ht.size]
    exact Ring.mod_fold hd _

theorem TimedOut.purge (hd1 : 1 ≤ d) (hed : e ≤ d)
    (hskip : ∀ k, 1 ≤ k → k < d → complete (t.buf ((h + k) % t₀.bufSize)) = false)
    {t₁ : TidAmpduRx} (ht₁ : t₁ = purgeSlots ((h + d) % t₀.bufSize) t₀.bufSize
      ((h + 1) % t₀.bufSize) t) :
    TimedOut h t₀ e t₁ ∧ (∀ k, 1 ≤ k → k < d → t₁.buf ((h + k) % t₀.bufSize) = []) ∧
      t₁.buf ((h + d) % t₀.bufSize) = t.buf ((h + d) % t₀.bufSize) := by
  have hb := ht.size
  obtain ⟨⟨r, hr⟩, hpurged, hkept⟩ := purgeSlots_spec h t₀.bufSize 1 t hd1 (by omega) (by omega)
  rw [hb, ← ht₁] at hr hpurged hkept
  have hbuf : ∀ x, t₁.buf x = t.buf x ∨ (t₁.buf x = [] ∧ complete (t.buf x) = false) := by
    intro x
    by_cases hx : ∃ m, 1 ≤ m ∧ m < d ∧ x = (h + m) % t₀.bufSize
    · obtain ⟨m, h1, h2, rfl⟩ := hx
      exact Or.inr ⟨hpurged m h1 h2, hskip m h1 h2⟩
    · push Not at hx
      exact Or.inl (hkept x hx)
  have hslot : t₁.buf ((h + d) % t₀.bufSize) = t.buf ((h + d) % t₀.bufSize) := by
    apply hkept
    intro m h1 h2 e'
    have := Ring.slot_inj hlt (by omega) e'
    omega
  rw [← hb] at hr
  have hcounted := ht.counted.purge hr hbuf
  have hsize : t₁.bufSize = t.bufSize := by rw [hr]
  refine ⟨?_, hpurged, hslot⟩
  exact {
    counted := hcounted
    window := by
      intro x f hf
      rw [hsize]
      rcases hbuf x with hx | ⟨hx, _⟩
      · exact ht.window x f (hx ▸ hf)
      · simp [hx] at hf
    pos := by rw [hr]; exact ht.pos
    size := hsize.trans hb
    started := by rw [hr]; exact ht.started
    autoSeq := by rw [hr]; exact ht.autoSeq
    cleared := fun k h1 h2 => hpurged k h1 (by omega)
    sub := by
      intro x
      rcases hbuf x with hx | ⟨hx, _⟩
      · rw [hx]
        exact ht.sub x
      · exact Or.inr hx }

/-- Slot `h + d` is released with everything before it empty, and the head moves behind it. -/
theorem TimedOut.release (hed : e ≤ d)
    (hempty : ∀ k, 1 ≤ k → k < d → t.buf ((h + k) % t₀.bufSize) = []) :
    TimedOut h t₀ (d + 1) { Reorder.release t ((h + d) % t₀.bufSize) with
      headSeqNum :=
        ((Reorder.release t ((h + d) % t₀.bufSize)).headSeqNum + (d - e)) % 4096 } := by
  have hidx : (h + d) % t₀.bufSize < t.bufSize := by
    rw [ht.size]
    exact Nat.mod_lt _ (by omega)
  have hbuf := release_buf_sub t ((h + d) % t₀.bufSize)
  exact { ht with
    counted := { release_counted ht.counted hidx with head_lt := Nat.mod_lt _ (by omega) }
    window := fun x f hf => ht.window x f (mem_release_buf hf)
    pos := by
      have := ht.pos
      simp only [release_headSeqNum, snInc, snAdd]
      omega
    cleared := by
      intro k h1 h2
      rcases Nat.lt_or_ge k d with hk | hk
      · rcases hbuf ((h + k) % t₀.bufSize) with hx | hx
        · exact hx.trans (hempty k h1 hk)
        · exact hx
      · obtain rfl : k = d := by omega
        exact (congrFun (release_buf t _) _).trans (update_self _ _ _)
    sub := by
      intro x
      rcases hbuf x with hx | hx
      · rcases ht.sub x with hx' | hx'
        · exact Or.inl (hx.trans hx')
        · exact Or.inr (hx.trans hx')
      · exact Or.inr hx }

end

/-- The invariant of the loop over the slots behind the head: slot `h + d` is next, the slots
since the head are skipped ones, and what was handed up so far is in order. -/
structure Scan (P : Skb → Prop) (H n₀ h : ℕ) (t₀ : TidAmpduRx) (e d : ℕ) (t : TidAmpduRx)
    (frames : List Skb) : Prop extends TimedOut h t₀ e t where
  le : e ≤ d
  skipped : ∀ k, 1 ≤ k → e ≤ k → k < d → complete (t.buf ((h + k) % t₀.bufSize)) = false
  out : Delivers H 0 (n₀ + e) frames
  handed : ∀ f ∈ frames, P f

section scan
variable {P : Skb → Prop} {H n₀ hz jiffies : ℕ} {frames : List Skb}

theorem TimedOut.held (ht : TimedOut h t₀ e t) (hheld : ∀ i, ∀ f ∈ t₀.buf i, P f) :
    ∀ i, ∀ f ∈ t.buf i, P f := by
  intro i f hf
  rcases ht.sub i with hi | hi
  · exact hheld i f (hi ▸ hf)
  · simp [hi] at hf

section
variable (hP : ∀ f, P f → P (deferRelease f)) (hheld : ∀ i, ∀ f ∈ t₀.buf i, P f)
  (hd : t₀.bufSize ∣ 4096) (hH : H < 4096) (hh : h = (H + n₀) % 4096) (hn₀ : n₀ + t₀.bufSize ≤ 4096)
include hP hheld hd hH hh hn₀

theorem Scan.release (hd1 : 1 ≤ d) (hlt : d < t₀.bufSize) (hs : Scan P H n₀ h t₀ e d t frames)
    {t₁ : TidAmpduRx}
    (ht₁ : t₁ = purgeSlots ((h + d) % t₀.bufSize) t₀.bufSize ((h + 1) % t₀.bufSize) t)
    {p : TidAmpduRx × List Skb} (hp : p = releaseReorderFrame t₁ ((h + d) % t₀.bufSize) frames) :
    Scan P H n₀ h t₀ (d + 1) (d + 1)
      { p.1 with headSeqNum := (p.1.headSeqNum + (d - e)) % 4096 } p.2 := by
  have hlt' : h < 4096 := by omega
  have hskip : ∀ k, 1 ≤ k → k < d → complete (t.buf ((h + k) % t₀.bufSize)) = false := by
    intro k h1 h2
    rcases Nat.lt_or_ge k e with hk | hk
    · rw [hs.cleared k h1 hk, complete_nil]
    · exact hs.skipped k h1 hk h2
  obtain ⟨hpurged, hempty, hslot⟩ := hs.toTimedOut.purge hlt hd1 hs.le hskip ht₁
  have hrel := hpurged.release hlt hs.le hempty
  have hdel : Delivers H (n₀ + d) (n₀ + d + 1) (released t₁ ((h + d) % t₀.bufSize)) := by
    apply released_delivers hpurged.counted hH (by omega) _
      (fun f hf => hpurged.sn_eq hlt hd hlt' hf)
    omega
  rw [releaseReorderFrame_eq hpurged.counted.filtered] at hp
  subst hp
  refine ⟨hrel, le_rfl, ?_, ?_, ?_⟩
  · intro k h1 h2 h3
    omega
  · have hle := hs.le
    exact (hs.out.mono (by omega)).append hdel (Nat.zero_le _) (by omega)
  exact List.forall_mem_append.mpr ⟨hs.handed, released_all hP (hpurged.held hheld _)⟩

/-- The release after a timeout leaves the head at some `h + e'`, with nothing stored between. -/
theorem releaseTimedOut_spec (n : ℕ) : ∀ (e d : ℕ) (t : TidAmpduRx) (frames : List Skb), 1 ≤ d →
    d ≤ t₀.bufSize → Scan P H n₀ h t₀ e d t frames →
    let r := releaseTimedOut hz jiffies (h % t₀.bufSize) n ((h + d) % t₀.bufSize) (d - e) t frames
    ∃ e' ≤ t₀.bufSize, TimedOut h t₀ e' r.1 ∧ Delivers H 0 (n₀ + e') r.2.1 ∧
      ∀ f ∈ r.2.1, P f := by
  induction n with
  | zero =>
    intro e d t frames _ hle hs
    exact ⟨e, hs.le.trans hle, hs.toTimedOut, hs.out, hs.handed⟩
  | succ n ih =>
    intro e d t frames hd1 hle hs
    dsimp only
    have hnext : ((h + d) % t₀.bufSize + 1) % t₀.bufSize = (h + (d + 1)) % t₀.bufSize := by
      rw [Nat.mod_add_mod, Nat.add_assoc]
    unfold releaseTimedOut
    rw [hs.size]
    split
    · exact ⟨e, hs.le.trans hle, hs.toTimedOut, hs.out, hs.handed⟩
    rename_i hne
    have hlt : d < t₀.bufSize := by
      rcases Nat.lt_or_ge d t₀.bufSize with hlt | hge
      · exact hlt
      · exact absurd (by rw [Nat.le_antisymm hle hge, Nat.add_mod_right]) hne
    split
    · -- not ready: one more skipped slot
      rename_i hc
      have hs' : Scan P H n₀ h t₀ e (d + 1) t frames := by
        refine ⟨hs.toTimedOut, hs.le.trans (Nat.le_succ d), ?_, hs.out, hs.handed⟩
        intro k h1 h2 h3
        rcases Nat.lt_or_ge k d with hk | hk
        · exact hs.skipped k h1 h2 hk
        · obtain rfl : k = d := by omega
          rwa [← rxReorderReady_eq hs.counted.filtered]
      have hrest := ih e (d + 1) t frames (by omega) hlt hs'
      have hk : d - e + 1 = d + 1 - e := by
        have := hs.le
        omega
      rwa [hnext, hk]
    · split
      · exact ⟨e, hs.le.trans hle, hs.toTimedOut, hs.out, hs.handed⟩
      have hmod : (h % t₀.bufSize + 1) % t₀.bufSize = (h + 1) % t₀.bufSize :=
        Nat.mod_add_mod _ _ _
      rw [hnext, hmod]
      have hs' := hs.release hP hheld hd hH hh hn₀ hd1 hlt rfl rfl
      have hrest := ih (d + 1) (d + 1) _ _ (by omega) hlt hs'
      rwa [Nat.sub_self] at hrest

end

end scan

end timeout

end Iwlwifi.Ieee80211.Reorder
