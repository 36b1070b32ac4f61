import Iwlwifi.MldReorderRun

/-! # Order of the frames handed up by the iwlmld reorder buffer

When the firmware keeps its promises about SN and NSSN, the frames of a session reach mac80211 in
the order of their sequence numbers.

* **Unwrapped sequence numbers** (`Watch`).  An observer counts how far the head of the window
  moves, so that a sequence number becomes a position on a line: the frame with SN `sn` is at
  `headPos + off 4096 headSn sn`.  Every frame carries its position as a tag.
* **Conditions** (`Orderly`).  What the order needs besides the promises (`Promised`): the buffer
  size divides 4096, the NSSN is not behind the head, an SN before the last NSSN only continues an
  A-MSDU, old frames come after the first one that counts, and `num_stored` does not wrap.
* **Invariant** (`Windowed`).  A stored frame is in the entry of its position and in the window, so
  the walk of a release meets the frames in order of position (`release_windowed`).
* `delivered_in_order` is the result; `delivered_out_of_order`: a buffer of three frames mixes up
  the frames of a window that wraps. -/

namespace Iwlwifi.Iwl.Mld

open Ieee80211 Iwlwifi.Ring List

/-! ### Positions -/

section positions
variable {p n sn nssn : ℕ} (hp : p ≡ sn [MOD 4096]) (hn : n ≡ nssn [MOD 4096])
include hp hn

theorem off_of_modEq (hle : p ≤ n) (hlt : n < p + 4096) : off 4096 sn nssn = n - p := by
  apply off_unique (by omega)
  refine (Nat.ModEq.add_right _ hp.symm).trans ?_
  rwa [Nat.add_sub_cancel' hle]

theorem snLess_iff_lt (hlt : nssn < 65536) (h1 : p < n + 2048) (h2 : n < p + 2048) :
    snLess sn nssn = true ↔ p < n := by
  rw [snLess_iff_off hlt]
  constructor
  · rintro ⟨hpos, hlt'⟩
    by_contra hge
    have hoff : off 4096 sn nssn = if p = n then 0 else 4096 - (p - n) := by
      apply off_unique
      · split <;> omega
      split
      next e => exact hp.symm.trans (e ▸ hn)
      refine (Nat.ModEq.add_right _ hp.symm).trans (Nat.ModEq.trans ?_ hn)
      have e : p + (4096 - (p - n)) = n + 4096 := by omega
      rw [e]
      simp [Nat.ModEq]
    split at hoff <;> omega
  · intro hpn
    have hoff := off_of_modEq hp hn (by omega) (by omega)
    omega

end positions

theorem perm_filter_of_append {γ : Type} {l₁ l₂ l : List γ} (p : γ → Bool)
    (h : (l₁ ++ l₂).Perm l) (h₁ : ∀ x ∈ l₁, p x = true) (h₂ : ∀ x ∈ l₂, p x = false) :
    l₁.Perm (l.filter p) ∧ l₂.Perm (l.filter fun x => !p x) := by
  have hf := h.filter p
  have hg := h.filter fun x => !p x
  rw [filter_append, filter_eq_self.mpr h₁,
    filter_eq_nil_iff.mpr (by simpa using h₂), append_nil] at hf
  rw [filter_append, filter_eq_nil_iff.mpr (by simpa using h₁),
    filter_eq_self.mpr (by simpa using h₂), nil_append] at hg
  exact ⟨hf, hg⟩

variable {α : Type} {bd : BaidData (α × ℕ)} {queue nssn H N : ℕ}

/-! ### Frames in the window -/

/-- The frames of a queue are in the window of positions from `H` on, each in its entry. -/
structure Windowed (queue H : ℕ) (bd : BaidData (α × ℕ)) : Prop where
  head : H ≡ (bd.reorderBuf queue).headSn [MOD 4096]
  placed : ∀ i < bd.bufSize, ∀ x ∈ bd.slots queue i,
    x.2 % bd.bufSize = i ∧ H ≤ x.2 ∧ x.2 < H + bd.bufSize

/-- What a release up to the position `N` does to the frames in the window from `H` on. -/
structure ReleasedBefore (queue H N : ℕ) (bd : BaidData (α × ℕ))
    (r : List (α × ℕ) × BaidData (α × ℕ)) : Prop where
  released : r.1.Perm ((bd.stored queue).filter fun x => decide (x.2 < N))
  stored : (r.2.stored queue).Perm ((bd.stored queue).filter fun x => !decide (x.2 < N))
  sorted : r.1.Pairwise fun x y => x.2 ≤ y.2
  range : ∀ x ∈ r.1, H ≤ x.2 ∧ x.2 < N
  windowed : Windowed queue N r.2

variable {bd' : BaidData (α × ℕ)} {x : α × ℕ} {mld : IwlMld}

theorem Windowed.mem_stored (h : Windowed queue H bd) (hx : x ∈ bd.stored queue) :
    H ≤ x.2 ∧ x.2 < H + bd.bufSize := by
  obtain ⟨i, hi, hx⟩ := Slots.mem_all.mp hx
  exact (h.placed i hi x hx).2

theorem windowed_of_empty (hhead : H ≡ (bd.reorderBuf queue).headSn [MOD 4096])
    (hnil : bd.stored queue = []) : Windowed queue H bd where
  head := hhead
  placed := by
    intro i hi x hx
    rw [BaidData.stored, Slots.all_eq_nil] at hnil
    rw [hnil i hi] at hx
    cases hx

section windowed
variable (h : Windowed queue H bd) (hdvd : bd.bufSize ∣ 4096)
include h hdvd

/-- The entry at distance `j` from the head holds the frames at position `H + j`. -/
theorem Windowed.slot_at {j : ℕ} (hj : j < bd.bufSize)
    (hx : x ∈ bd.slots queue (((bd.reorderBuf queue).headSn + j) % bd.bufSize)) :
    x.2 = H + j := by
  obtain ⟨hmod, hge, hlt⟩ := h.placed _ (Nat.mod_lt _ (by omega)) x hx
  have hhead : H + j ≡ (bd.reorderBuf queue).headSn + j [MOD bd.bufSize] :=
    Nat.ModEq.add_right j (h.head.of_dvd hdvd)
  have hk : (H + (x.2 - H)) % bd.bufSize = (H + j) % bd.bufSize := by
    rw [Nat.add_sub_cancel' hge, hmod]
    exact hhead.symm
  have := slot_inj (by omega) hj hk
  omega

section release
variable (hsize : bd.bufSize ≤ 1024) (hN : N ≡ nssn [MOD 4096]) (hn : nssn < 65536) (hge : H ≤ N)
  (hle : N ≤ H + bd.bufSize)
include hsize hN hn hge hle

theorem Windowed.walk_eq :
    bd.walk queue nssn =
      (List.range (N - H)).map fun j => ((bd.reorderBuf queue).headSn + j) % bd.bufSize := by
  have hlen : walkLen (bd.reorderBuf queue).headSn nssn = N - H := by
    rw [walkLen]
    split
    · exact off_of_modEq h.head hN hge (by omega)
    next hless =>
      rw [snLess_iff_lt h.head hN hn (by omega) (by omega)] at hless
      omega
  rw [BaidData.walk, hlen, walkSlots_eq hdvd]

/-- **Release in order.**  A release to an NSSN in the window hands up the frames before it, by
position, and leaves the others in the new window. -/
theorem release_windowed (hok : QueueOk queue bd) :
    ReleasedBefore queue H N bd (reorderReleaseFrames bd queue nssn) := by
  have hwalk := h.walk_eq hdvd hsize hN hn hge hle
  have hr := reorderReleaseFrames_released hok.index hn
  have hperm := release_stored hok hn
  have hnodup : (bd.walk queue nssn).Nodup := by
    rw [hwalk]
    apply List.Nodup.map_on _ nodup_range
    intro j hj k hk e
    rw [mem_range] at hj hk
    exact slot_inj (by omega) (by omega) e
  have hfst : (reorderReleaseFrames bd queue nssn).1 =
      (List.range (N - H)).flatMap fun j =>
        bd.slots queue (((bd.reorderBuf queue).headSn + j) % bd.bufSize) := by
    rw [hr.frames, Slots.drain_fst _ hnodup, hwalk, flatMap_map]
  have hpos : ∀ j < N - H, ∀ x ∈ bd.slots queue
      (((bd.reorderBuf queue).headSn + j) % bd.bufSize), x.2 = H + j := by
    intro j hj x hx
    exact h.slot_at hdvd (by omega) hx
  have hrange : ∀ x ∈ (reorderReleaseFrames bd queue nssn).1, H ≤ x.2 ∧ x.2 < N := by
    intro x hx
    rw [hfst, mem_flatMap] at hx
    obtain ⟨j, hj, hx⟩ := hx
    rw [mem_range] at hj
    have := hpos j hj x hx
    omega
  -- a frame that stays is in an entry the walk does not visit, so its position is not before `N`
  have hstay : ∀ i < bd.bufSize, ∀ x ∈ (reorderReleaseFrames bd queue nssn).2.slots queue i,
      x ∈ bd.slots queue i ∧ N ≤ x.2 := by
    intro i hi x hx
    rw [hr.slots, Slots.drain_snd] at hx
    split at hx
    · cases hx
    rename_i hnot
    refine ⟨hx, ?_⟩
    by_contra hlt
    obtain ⟨hmod, hge', -⟩ := h.placed i hi x hx
    apply hnot
    rw [hwalk, mem_map]
    refine ⟨x.2 - H, mem_range.mpr (by omega), ?_⟩
    have hhead : H + (x.2 - H) ≡ (bd.reorderBuf queue).headSn + (x.2 - H) [MOD bd.bufSize] :=
      Nat.ModEq.add_right _ (h.head.of_dvd hdvd)
    rw [Nat.add_sub_cancel' hge'] at hhead
    rw [← hmod]
    exact hhead.symm
  obtain ⟨hrel, hsto⟩ := perm_filter_of_append (fun x : α × ℕ => decide (x.2 < N)) hperm
    (fun x hx => by simpa using (hrange x hx).2) (by
      intro x hx
      obtain ⟨i, hi, hx⟩ := Slots.mem_all.mp hx
      simpa using (hstay i hi x hx).2)
  refine ⟨hrel, hsto, ?_, hrange, ?_, ?_⟩
  · rw [hfst, pairwise_flatMap]
    constructor
    · intro j hj
      rw [mem_range] at hj
      apply pairwise_of_forall_mem_list
      intro x hx y hy
      rw [hpos j hj x hx, hpos j hj y hy]
    apply List.Pairwise.imp_of_mem _ pairwise_lt_range
    intro j k hj hk hlt x hx y hy
    rw [mem_range] at hj hk
    rw [hpos j hj x hx, hpos k hk y hy]
    omega
  · rwa [hr.buf]
  · intro i hi x hx
    obtain ⟨hx, hle'⟩ := hstay i hi x hx
    obtain ⟨hmod, -, hlt⟩ := h.placed i hi x hx
    exact ⟨hmod, hle', by rw [releaseFrames_bufSize]; omega⟩

end release

theorem Windowed.store {sn : ℕ} (hsn : x.2 ≡ sn [MOD 4096]) (hge : H ≤ x.2) (hlt : x.2 < H + bd.bufSize) :
    Windowed queue H (bd.store queue sn x) where
  head := by
    rw [store_reorderBuf]
    exact h.head
  placed := by
    intro i hi y hy
    rw [store_bufSize] at hi ⊢
    rw [store_slots, Slots.put] at hy
    by_cases e : i = sn % bd.bufSize
    · rw [e, Function.update_self, mem_append, mem_singleton] at hy
      rcases hy with hy | rfl
      · rw [e]
        exact h.placed _ (e ▸ hi) y hy
      · exact ⟨Eq.trans (hsn.of_dvd hdvd) e.symm, hge, hlt⟩
    · rw [Function.update_of_ne e] at hy
      exact h.placed i hi y hy

end windowed

theorem Windowed.validate (h : Windowed queue H bd) : Windowed queue H (bd.validate queue) where
  head := by
    rw [validate_reorderBuf]
    exact h.head
  placed := h.placed

theorem Windowed.setHead (h : Windowed queue H bd) {sn : ℕ} (hN : N ≡ sn [MOD 4096]) (hge : H ≤ N)
    (hle : ∀ x ∈ bd.stored queue, N ≤ x.2) : Windowed queue N (bd.setHead queue sn) where
  head := by
    rwa [setHead_reorderBuf]
  placed := by
    intro i hi x hx
    obtain ⟨hmod, -, hlt⟩ := h.placed i hi x hx
    refine ⟨hmod, hle x (Slots.mem_all.mpr ⟨i, hi, hx⟩), ?_⟩
    rw [setHead_bufSize]
    omega

/-! ### The observer -/

/-- A session with the unwrapped positions of its head, of the last NSSN and of the last frame. -/
structure Watch (α : Type) where
  bd : BaidData (α × ℕ)
  headPos : ℕ
  nssnPos : ℕ
  lastPos : Option ℕ

def Watch.start (queue : ℕ) (bd : BaidData (α × ℕ)) : Watch α :=
  ⟨bd, (bd.reorderBuf queue).headSn, (bd.reorderBuf queue).headSn, none⟩

def RxMpdu.tag (m : RxMpdu α) (p : ℕ) : RxMpdu (α × ℕ) where
  skb := (m.skb, p)
  hdr := m.hdr
  linkSta := m.linkSta
  reorderData := m.reorderData
  status := m.status
  macFlags2 := m.macFlags2
  amsduInfo := m.amsduInfo

def Watch.pos (w : Watch α) (queue sn : ℕ) : ℕ :=
  w.headPos + off 4096 (w.bd.reorderBuf queue).headSn sn

def Watch.unwrap (w : Watch α) (nssn : ℕ) : ℕ := w.nssnPos + off 4096 w.nssnPos nssn

def Watch.mpdu (w : Watch α) (queue : ℕ) (m : RxMpdu α) : RxMpdu (α × ℕ) :=
  m.tag (w.pos queue m.sn)

section tagged
variable (w : Watch α) (m : RxMpdu α)

@[simp] theorem mpdu_sn : (w.mpdu queue m).sn = m.sn := rfl
@[simp] theorem mpdu_nssn : (w.mpdu queue m).nssn = m.nssn := rfl
@[simp] theorem mpdu_moreSubframes : (w.mpdu queue m).moreSubframes = m.moreSubframes := rfl
@[simp] theorem mpdu_isOldSn : (w.mpdu queue m).isOldSn = m.isOldSn := rfl
end tagged

def Watch.tag (w : Watch α) (queue : ℕ) : Act α → Act (α × ℕ)
  | .rx m => .rx (w.mpdu queue m)
  | .frameRelease data => .frameRelease data
  | .barFrameRelease data => .barFrameRelease data
  | .delBa baid => .delBa baid

def reported (mld : IwlMld) (queue : ℕ) (bd : BaidData (α × ℕ)) : Act (α × ℕ) → Option ℕ
  | .rx m => if accepted bd m then some m.nssn else none
  | a => a.releaseSn mld queue bd

def Watch.counted (w : Watch α) (queue : ℕ) : Act α → Option ℕ
  | .rx m => if accepted w.bd (w.mpdu queue m) then some (w.pos queue m.sn) else none
  | _ => none

/-- The observer after an event that left the session as `bd'`. -/
def Watch.next (w : Watch α) (queue : ℕ) (bd' : BaidData (α × ℕ)) (nssn p : Option ℕ) :
    Watch α where
  bd := bd'
  headPos := w.headPos +
    off 4096 (w.bd.reorderBuf queue).headSn (bd'.reorderBuf queue).headSn
  nssnPos := nssn.elim w.nssnPos w.unwrap
  lastPos := p.or w.lastPos

def watchStep (mld : IwlMld) (queue : ℕ) (w : Watch α) (a : Act α) :
    Option (Out (α × ℕ) × Watch α) :=
  match step mld queue w.bd (w.tag queue a) with
  | none => none
  | some (o, bd') =>
    some (o, w.next queue bd' (reported mld queue w.bd (w.tag queue a)) (w.counted queue a))

/-- The SN of a frame is in the window, and the NSSN does not move back, nor beyond the end of the
window. -/
def Promised (mld : IwlMld) (queue : ℕ) (w : Watch α) : Act α → Prop
  | .rx m => accepted w.bd (w.mpdu queue m) = true →
      off 4096 (w.bd.reorderBuf queue).headSn m.sn < w.bd.bufSize ∧
        w.unwrap m.nssn ≤ w.headPos + w.bd.bufSize
  | .frameRelease data => ∀ n ∈ (Act.frameRelease data).releaseSn mld queue w.bd,
      w.unwrap n ≤ w.headPos + w.bd.bufSize
  | .barFrameRelease data => ∀ n ∈ (Act.barFrameRelease data).releaseSn mld queue w.bd,
      w.unwrap n ≤ w.headPos + w.bd.bufSize
  | .delBa _ => False

/-- An old frame of the session before the first one that counts: it is passed up as it is. -/
def Watch.earlyOld (w : Watch α) (queue : ℕ) : Act α → Bool
  | .rx m => !bypassed w.bd (w.mpdu queue m) && m.isOldSn && !(w.bd.reorderBuf queue).valid
  | _ => false

@[mk_iff] structure Orderly (mld : IwlMld) (queue : ℕ) (w : Watch α) (a : Act α) : Prop where
  /-- the NSSN is not behind the head -/
  ahead : ∀ n ∈ reported mld queue w.bd (w.tag queue a), w.headPos ≤ w.unwrap n
  /-- a frame before the last NSSN is a further subframe of the last frame -/
  past : ∀ p ∈ w.counted queue a, w.nssnPos ≤ p ∨ w.lastPos = some p
  /-- old frames of the session come after the first one that counts -/
  old : w.earlyOld queue a = false
  /-- the count of stored frames does not wrap -/
  few : (w.bd.stored queue).length < 65535

instance (mld : IwlMld) (queue : ℕ) (w : Watch α) (a : Act α) :
    Decidable (Promised mld queue w a) := by
  cases a <;> dsimp only [Promised] <;> infer_instance

instance (mld : IwlMld) (queue : ℕ) (w : Watch α) (a : Act α) :
    Decidable (Orderly mld queue w a) :=
  decidable_of_iff' _ (orderly_iff mld queue w a)

/-- The positions of the frames of the session that an event hands to mac80211, in order. -/
def deliveredPos (queue : ℕ) (l : Label (Watch α) (Act α) (Out (α × ℕ))) : List ℕ :=
  l.out.released.map Prod.snd ++
    match l.act with
    | .rx m =>
      if l.out.result = some .passSkb ∧ bypassed l.pre.bd (l.pre.mpdu queue m) = false then
        [l.pre.pos queue m.sn]
      else []
    | _ => []

/-- The frames the buffer holds when `iwl_mld_reorder_release_frames` may be called. -/
def heldFrames (queue : ℕ) (l : Label (Watch α) (Act α) (Out (α × ℕ))) : List (α × ℕ) :=
  l.pre.bd.stored queue ++
    if l.out.result = some .bufferedSkb then (l.pre.tag queue l.act).arrived else []

/-- The position up to which an event releases frames: that of the NSSN if
`iwl_mld_reorder_release_frames` is called, and the head otherwise. -/
def releaseLimit (mld : IwlMld) (queue : ℕ) (l : Label (Watch α) (Act α) (Out (α × ℕ))) : ℕ :=
  match l.act with
  | .rx m =>
    if l.out.result = some .bufferedSkb ∧ m.moreSubframes = false then l.pre.unwrap m.nssn
    else l.pre.headPos
  | a => (reported mld queue l.pre.bd (l.pre.tag queue a)).elim l.pre.headPos l.pre.unwrap

/-! ### One event keeps the order -/

/-- The invariant, with a floor `F` below which no frame will be delivered: at most the head, unless
the last frame was passed up ahead of the head; then nothing is stored, and the firmware is past
that frame. -/
structure OrderInv (queue : ℕ) (w : Watch α) (F : ℕ) : Prop where
  ok : QueueOk queue w.bd
  win : Windowed queue w.headPos w.bd
  floor : F ≤ w.headPos ∨ (w.bd.stored queue = [] ∧ F < w.nssnPos ∧ w.lastPos = some F)

/-- An event that delivers `up` and releases `released` out of `held`, with the floors `F` before
and `F'` after it. -/
structure InOrder (queue F F' : ℕ) (up : List ℕ) (held : List (α × ℕ)) (limit : ℕ)
    (released : List (α × ℕ)) (w' : Watch α) : Prop where
  inv : OrderInv queue w' F'
  mono : F ≤ F'
  sorted : up.Pairwise (· ≤ ·)
  range : ∀ x ∈ up, F ≤ x ∧ x ≤ F'
  released : released.Perm (held.filter fun x => decide (x.2 < limit))
  stored : (w'.bd.stored queue).Perm (held.filter fun x => !decide (x.2 < limit))

variable {w : Watch α} {F : ℕ}

theorem Watch.unwrap_modEq (w : Watch α) (nssn : ℕ) : w.unwrap nssn ≡ nssn [MOD 4096] :=
  off_spec (by omega) _ _

theorem OrderInv.pos_modEq (h : OrderInv queue w F) (sn : ℕ) :
    w.pos queue sn ≡ sn [MOD 4096] :=
  (Nat.ModEq.add_right _ h.win.head).trans (off_spec (by omega) _ _)

theorem next_headPos_same {n p : Option ℕ}
    (h : (bd'.reorderBuf queue).headSn = (w.bd.reorderBuf queue).headSn) :
    (w.next queue bd' n p).headPos = w.headPos := by
  rw [Watch.next, h, off_self (by omega), Nat.add_zero]

theorem OrderInv.next_headPos (h : OrderInv queue w F) {n p : Option ℕ}
    (hN : N ≡ (bd'.reorderBuf queue).headSn [MOD 4096]) (hge : w.headPos ≤ N)
    (hlt : N < w.headPos + 4096) : (w.next queue bd' n p).headPos = N := by
  simp only [Watch.next, off_of_modEq h.win.head hN hge hlt]
  omega

theorem filter_headPos {held : List (α × ℕ)} (h : ∀ x ∈ held, H ≤ x.2) :
    ([] : List (α × ℕ)).Perm (held.filter fun x => decide (x.2 < H)) ∧
      held.Perm (held.filter fun x => !decide (x.2 < H)) :=
  perm_filter_of_append _ (List.Perm.refl _) (by simp) (by simpa using h)

theorem OrderInv.quiet (h : OrderInv queue w F) (hok : QueueOk queue bd')
    (hwin : Windowed queue w.headPos bd') (hstored : bd'.stored queue = w.bd.stored queue)
    (hhead : (bd'.reorderBuf queue).headSn = (w.bd.reorderBuf queue).headSn) :
    InOrder queue F F [] (w.bd.stored queue) w.headPos [] (w.next queue bd' none none) := by
  have hpos := next_headPos_same (n := none) (p := none) hhead
  obtain ⟨hf, hg⟩ := filter_headPos fun x hx => (h.win.mem_stored hx).1
  refine ⟨⟨hok, hpos ▸ hwin, ?_⟩, le_refl F, List.Pairwise.nil, by simp, hf, ?_⟩
  · rcases h.floor with hF | ⟨hnil, hn, hl⟩
    · exact .inl (hpos ▸ hF)
    · exact .inr ⟨hstored.trans hnil, hn, hl⟩
  · exact (List.Perm.of_eq hstored).trans hg

/-- A release up to an NSSN in the window of the observer. -/
theorem OrderInv.release (h : OrderInv queue w F) (hok : QueueOk queue bd)
    (hwin : Windowed queue w.headPos bd) (hdvd : bd.bufSize ∣ 4096) (hsize : bd.bufSize ≤ 1024)
    (hn : nssn < 65536) (hge : w.headPos ≤ w.unwrap nssn)
    (hle : w.unwrap nssn ≤ w.headPos + bd.bufSize) (p : Option ℕ)
    (hfloor : w.bd.stored queue = [] → ∀ x ∈ bd.stored queue, w.unwrap nssn ≤ x.2) :
    let r := reorderReleaseFrames bd queue nssn
    InOrder queue F (w.unwrap nssn) (r.1.map Prod.snd) (bd.stored queue) (w.unwrap nssn) r.1
      (w.next queue r.2 (some nssn) p) := by
  intro r
  have hr := release_windowed hwin hdvd hsize (w.unwrap_modEq nssn) hn hge hle hok
  have hFN : F ≤ w.unwrap nssn := by
    rcases h.floor with hF | ⟨-, hF, -⟩
    · omega
    · have : w.nssnPos ≤ w.unwrap nssn := Nat.le_add_right _ _
      omega
  have hpos : (w.next queue r.2 (some nssn) p).headPos = w.unwrap nssn :=
    h.next_headPos hr.windowed.head hge (by omega)
  refine ⟨⟨hok.release hn, hpos.symm ▸ hr.windowed, .inl (hpos ▸ le_refl _)⟩, hFN, ?_, ?_,
    hr.released, hr.stored⟩
  · exact pairwise_map.mpr hr.sorted
  intro y hy
  obtain ⟨x, hx, rfl⟩ := mem_map.mp hy
  obtain ⟨h1, h2⟩ := hr.range x hx
  refine ⟨?_, by omega⟩
  rcases h.floor with hF | ⟨hnil, -, -⟩
  · omega
  -- nothing was stored, so the only frame is not before the NSSN and nothing is released
  have hmem := (mem_filter.mp (hr.released.mem_iff.mp hx)).1
  have := hfloor hnil x hmem
  omega

/-- A frame that counts, at `P`, with an NSSN at `N`. -/
structure FrameAt (queue : ℕ) (w : Watch α) (m : RxMpdu α) (P N : ℕ) : Prop where
  pos : P = w.pos queue m.sn
  nssn : N = w.unwrap m.nssn
  posLt : P < w.headPos + w.bd.bufSize
  nssnGe : w.headPos ≤ N
  nssnLe : N ≤ w.headPos + w.bd.bufSize
  past : w.nssnPos ≤ P ∨ w.lastPos = some P

section frame
variable {m : RxMpdu α} {P : ℕ} (h : OrderInv queue w F) (hf : FrameAt queue w m P N)
include hf

theorem FrameAt.posGe : w.headPos ≤ P := hf.pos ▸ Nat.le_add_right _ _

include h

theorem FrameAt.snLess_iff (hsize : w.bd.bufSize ≤ 1024) :
    snLess m.sn m.nssn = true ↔ P < N := by
  have hge := hf.posGe
  have h1 := hf.posLt
  have h2 := hf.nssnGe
  have h3 := hf.nssnLe
  exact snLess_iff_lt (hf.pos ▸ h.pos_modEq m.sn) (hf.nssn ▸ w.unwrap_modEq m.nssn) m.nssn_lt
    (by omega) (by omega)

theorem FrameAt.floor_le_nssn : F ≤ N := by
  have hge := hf.nssnGe
  rcases h.floor with hF | ⟨-, hF, -⟩
  · omega
  · have : w.nssnPos ≤ N := hf.nssn ▸ Nat.le_add_right _ _
    omega

theorem FrameAt.floor_le_pos : F ≤ P := by
  have hge := hf.posGe
  rcases h.floor with hF | ⟨-, hF, hlast⟩
  · omega
  rcases hf.past with hpast | hpast
  · omega
  · rw [hlast] at hpast
    exact le_of_eq (Option.some.inj hpast)

theorem FrameAt.passed (hnil : w.bd.stored queue = []) {bd' : BaidData (α × ℕ)}
    (hok : QueueOk queue bd') (hnil' : bd'.stored queue = []) {H' : ℕ}
    (hhead : H' ≡ (bd'.reorderBuf queue).headSn [MOD 4096]) (hge : w.headPos ≤ H')
    (hlt : H' < w.headPos + 4096) (hfloor : P ≤ H' ∨ P < N) :
    InOrder queue F P [P] (w.bd.stored queue) w.headPos []
      (w.next queue bd' (some m.nssn) (some P)) := by
  have hpos := h.next_headPos (n := some m.nssn) (p := some P) hhead hge hlt
  refine ⟨⟨hok, ?_, ?_⟩, hf.floor_le_pos h, by simp, ?_, by simp [hnil], ?_⟩
  · rw [hpos]
    exact windowed_of_empty hhead hnil'
  · rcases hfloor with hle | hlt'
    · exact .inl (hpos ▸ hle)
    · exact .inr ⟨hnil', (show P < w.unwrap m.nssn from hf.nssn ▸ hlt'), rfl⟩
  · have := hf.floor_le_pos h
    simpa using this
  · rw [hnil]
    exact List.Perm.of_eq hnil'

end frame

theorem OrderInv.kept (h : OrderInv queue w F) (n P : ℕ) (hx : w.headPos ≤ x.2)
    (hok : QueueOk queue bd')
    (hsto : (bd'.stored queue).Perm (w.bd.stored queue ++ [x])) {H' : ℕ}
    (hwin : Windowed queue H' bd') (hge : w.headPos ≤ H') (hlt : H' < w.headPos + 4096)
    (hfloor : F ≤ H') :
    InOrder queue F F [] (w.bd.stored queue ++ [x]) w.headPos []
      (w.next queue bd' (some n) (some P)) := by
  have hpos := h.next_headPos (n := some n) (p := some P) hwin.head hge hlt
  have hall : ∀ y ∈ w.bd.stored queue ++ [x], w.headPos ≤ y.2 := by
    refine forall_mem_append.mpr ?_
    exact ⟨fun y hy => (h.win.mem_stored hy).1, forall_mem_singleton.mpr hx⟩
  obtain ⟨hrel, hkeep⟩ := filter_headPos hall
  exact ⟨⟨hok, hpos.symm ▸ hwin, .inl (hpos ▸ hfloor)⟩, le_refl F, List.Pairwise.nil, by simp,
    hrel, hsto.trans hkeep⟩

theorem InOrder.held_perm {F' limit : ℕ} {up : List ℕ} {held held' released : List (α × ℕ)}
    {w' : Watch α} (h : InOrder queue F F' up held limit released w') (hp : held.Perm held') :
    InOrder queue F F' up held' limit released w' :=
  { h with
    released := h.released.trans (hp.filter _)
    stored := h.stored.trans (hp.filter _) }

theorem OrderInv.numStored_eq (h : OrderInv queue w F)
    (hfew : (w.bd.stored queue).length < 65535) :
    (w.bd.reorderBuf queue).numStored = (w.bd.stored queue).length := by
  rw [h.ok.count, Nat.mod_eq_of_lt (by omega)]

/-- The event of receiving `m`, with the result of `iwl_mld_reorder`. -/
def rxLabel (w : Watch α) (m : RxMpdu α) (r : ReorderResult × List (α × ℕ) × BaidData (α × ℕ))
    (w' : Watch α) : Label (Watch α) (Act α) (Out (α × ℕ)) :=
  ⟨w, .rx m, ⟨some r.1, r.2.1⟩, w'⟩

section received
variable {m : RxMpdu α} (ho : Orderly mld queue w (.rx m))
include ho

theorem frameAt (hacc : accepted w.bd (w.mpdu queue m) = true) (hp : Promised mld queue w (.rx m)) :
    FrameAt queue w m (w.pos queue m.sn) (w.unwrap m.nssn) := by
  obtain ⟨hsn, hle⟩ := hp hacc
  refine ⟨rfl, rfl, Nat.add_lt_add_left hsn _, ?_, hle, ?_⟩
  · apply ho.ahead
    simp [Watch.tag, reported, hacc]
  · apply ho.past
    simp [Watch.counted, hacc]

variable (h : OrderInv queue w F) {r : ReorderResult × List (α × ℕ) × BaidData (α × ℕ)}
  (hpath : ReorderPath w.bd queue (w.mpdu queue m) r) (w'' : Watch α)
include h hpath

theorem accepted_inOrder (hdvd : w.bd.bufSize ∣ 4096) (hsize : w.bd.bufSize ≤ 1024)
    (hacc : accepted w.bd (w.mpdu queue m) = true) (hp : Promised mld queue w (.rx m)) :
    ∃ F', InOrder queue F F' (deliveredPos queue (rxLabel w m r w''))
      (heldFrames queue (rxLabel w m r w'')) (releaseLimit mld queue (rxLabel w m r w'')) r.2.1
      (w.next queue r.2.2 (some m.nssn) (some (w.pos queue m.sn))) := by
  have hf := frameAt ho hacc hp
  have hnum := h.numStored_eq ho.few
  have hok := h.ok.validate
  have hwin := h.win.validate
  have hby : bypassed w.bd (w.mpdu queue m) = false := by
    unfold accepted at hacc
    simp_all
  have hposlt := hf.posLt
  have hposge := hf.posGe
  have hnil : (w.bd.reorderBuf queue).numStored = 0 → w.bd.stored queue = [] := by
    intro h0
    rw [hnum] at h0
    exact length_eq_zero_iff.mp h0
  -- the session with the frame stored
  have hsok := hok.store m.sn (w.mpdu queue m).skb
  have hsto : (((w.bd.validate queue).store queue m.sn (w.mpdu queue m).skb).stored queue).Perm
      (w.bd.stored queue ++ [(w.mpdu queue m).skb]) := store_stored hok.pos _ _
  have hswin : Windowed queue w.headPos
      ((w.bd.validate queue).store queue m.sn (w.mpdu queue m).skb) :=
    hwin.store hdvd (h.pos_modEq m.sn) hposge hposlt
  have hFN := hf.floor_le_nssn h
  have hNge := hf.nssnGe
  have hNle := hf.nssnLe
  -- a frame stored alone is not before the NSSN
  have hnotless : snLess m.sn m.nssn = false → w.bd.stored queue = [] →
      ∀ x ∈ ((w.bd.validate queue).store queue m.sn (w.mpdu queue m).skb).stored queue,
        w.unwrap m.nssn ≤ x.2 := by
    intro hless hempty x hx
    have hmem := hsto.mem_iff.mp hx
    rw [hempty, nil_append, mem_singleton] at hmem
    rw [hmem]
    exact not_lt.mp ((hf.snLess_iff h hsize).not.mp (by simp [hless]))
  unfold deliveredPos heldFrames releaseLimit rxLabel
  cases hpath with
  | bypass hb => simp [hby] at hb
  | passOld _ _ hold => simp [accepted, hold] at hacc
  | drop hd => simp [hacc] at hd
  | below _ h0 hless =>
    have hlt := (hf.snLess_iff h hsize).mp hless
    refine ⟨w.pos queue m.sn, ?_⟩
    by_cases hmore : m.moreSubframes = true
    · simpa [hby, hmore] using
        hf.passed h (hnil h0) hok (hnil h0) hwin.head (le_refl _) (by omega) (.inr hlt)
    · simpa [hby, hmore] using
        hf.passed h (hnil h0) (hok.setHead m.nssn) (hnil h0)
          (by simpa using w.unwrap_modEq m.nssn) hNge (by omega) (.inl (le_of_lt hlt))
  | atHead _ h0 hless hsn =>
    have hpos : w.pos queue m.sn = w.headPos := by
      rw [Watch.pos, ← hsn, mpdu_sn, off_self (by omega), Nat.add_zero]
    refine ⟨w.pos queue m.sn, ?_⟩
    by_cases hmore : m.moreSubframes = true
    · simpa [hby, hmore] using
        hf.passed h (hnil h0) hok (hnil h0) hwin.head (le_refl _) (by omega)
          (.inl (le_of_eq hpos))
    have hhead : w.headPos + 1 ≡ snInc m.sn [MOD 4096] := by
      rw [← hpos]
      exact (Nat.ModEq.add_right 1 (h.pos_modEq m.sn)).trans (Nat.mod_modEq _ _).symm
    simpa [hby, hmore] using
      hf.passed h (hnil h0) (hok.setHead (snInc m.sn)) (hnil h0) (by simpa using hhead)
        (Nat.le_succ _) (by omega) (.inl (by omega))
  | release _ hmore hless =>
    rw [mpdu_moreSubframes] at hmore
    have hrel := h.release hsok hswin hdvd hsize m.nssn_lt hNge hNle (some (w.pos queue m.sn))
      fun hempty => hnotless (hless (by rw [hnum, hempty]; rfl)) hempty
    refine ⟨w.unwrap m.nssn, ?_⟩
    simpa [hby, hmore, Watch.tag, Act.arrived] using hrel.held_perm hsto
  | first _ hmore hless hone =>
    rw [mpdu_moreSubframes] at hmore
    have h0 : (w.bd.reorderBuf queue).numStored = 0 := by
      have := ho.few
      rw [u16, Nat.mod_eq_of_lt (by omega)] at hone
      omega
    have hwin' := hswin.setHead (w.unwrap_modEq m.nssn) hNge (hnotless (hless h0) (hnil h0))
    refine ⟨F, ?_⟩
    simpa [hby, hmore, Watch.tag, Act.arrived] using
      h.kept m.nssn (w.pos queue m.sn) (x := (w.mpdu queue m).skb) hposge
          (hsok.setHead m.nssn) hsto hwin' hNge (by omega) hFN
  | more _ hmore hone =>
    rw [mpdu_moreSubframes] at hmore
    have hF : F ≤ w.headPos := by
      rcases h.floor with hF | ⟨hempty, -, -⟩
      · exact hF
      · rw [hnum, hempty] at hone
        exact absurd rfl hone
    refine ⟨F, ?_⟩
    simpa [hby, hmore, Watch.tag, Act.arrived] using
      h.kept m.nssn (w.pos queue m.sn) (x := (w.mpdu queue m).skb) hposge hsok hsto hswin
          (le_refl _) (by omega) hF

theorem ignored_inOrder (hacc : accepted w.bd (w.mpdu queue m) = false) :
    InOrder queue F F (deliveredPos queue (rxLabel w m r w'')) (heldFrames queue (rxLabel w m r w''))
      (releaseLimit mld queue (rxLabel w m r w'')) r.2.1 (w.next queue r.2.2 none none) := by
  unfold deliveredPos heldFrames releaseLimit rxLabel
  cases hpath with
  | bypass hby =>
    simpa [hby] using h.quiet h.ok h.win rfl rfl
  | passOld hby hvalid hold =>
    have h' := ho.old
    rw [mpdu_isOldSn] at hold
    simp [Watch.earlyOld, hby, hold, hvalid] at h'
  | drop =>
    simpa using h.quiet h.ok.validate h.win.validate rfl (by simp)
  | below h' => simp [hacc] at h'
  | atHead h' => simp [hacc] at h'
  | release h' => simp [hacc] at h'
  | first h' => simp [hacc] at h'
  | more h' => simp [hacc] at h'

end received

theorem notif_inOrder (h : OrderInv queue w F) (hdvd : w.bd.bufSize ∣ 4096)
    (hsize : w.bd.bufSize ≤ 1024) {sn : Option ℕ} (hlt : ∀ n ∈ sn, n < 65536)
    (hle : ∀ n ∈ sn, w.unwrap n ≤ w.headPos + w.bd.bufSize)
    (hge : ∀ n ∈ sn, w.headPos ≤ w.unwrap n) :
    ∃ F', InOrder queue F F' ((releaseTo w.bd queue sn).1.map Prod.snd) (w.bd.stored queue)
      (sn.elim w.headPos w.unwrap) (releaseTo w.bd queue sn).1
      (w.next queue (releaseTo w.bd queue sn).2 sn none) := by
  cases sn with
  | none => exact ⟨F, h.quiet h.ok h.win rfl rfl⟩
  | some n =>
    refine ⟨w.unwrap n, h.release h.ok h.win hdvd hsize (hlt n rfl) (hge n rfl) (hle n rfl) none ?_⟩
    intro hnil x hx
    rw [hnil] at hx
    cases hx

theorem watchStep_inOrder (h : OrderInv queue w F) (hdvd : w.bd.bufSize ∣ 4096)
    (hsize : w.bd.bufSize ≤ 1024) {a : Act α} (hp : Promised mld queue w a)
    (ho : Orderly mld queue w a) {o : Out (α × ℕ)} {w' : Watch α}
    (hs : watchStep mld queue w a = some (o, w')) :
    ∃ F', InOrder queue F F' (deliveredPos queue ⟨w, a, o, w'⟩) (heldFrames queue ⟨w, a, o, w'⟩)
      (releaseLimit mld queue ⟨w, a, o, w'⟩) o.released w' := by
  unfold watchStep at hs
  cases a with
  | rx m =>
    simp only [Watch.tag, step] at hs
    cases hs
    have hpath := reorder_path w.bd queue (w.mpdu queue m)
    cases hacc : accepted w.bd (w.mpdu queue m) with
    | true =>
      simpa [reported, Watch.counted, hacc, rxLabel] using
        accepted_inOrder ho h hpath _ hdvd hsize hacc hp
    | false =>
      refine ⟨F, ?_⟩
      simpa [reported, Watch.counted, hacc, rxLabel] using
        ignored_inOrder ho h hpath _ hacc
  | frameRelease data | barFrameRelease data =>
    rw [step_notif mld rfl] at hs
    cases hs
    simpa [deliveredPos, heldFrames, releaseLimit, reported, Watch.counted, Watch.tag] using
      notif_inOrder h hdvd hsize (fun _ => Act.releaseSn_lt mld) hp ho.ahead
  | delBa baid => exact hp.elim

theorem watchStep_step {a : Act α} {o : Out (α × ℕ)} {w' : Watch α}
    (hs : watchStep mld queue w a = some (o, w')) :
    step mld queue w.bd (w.tag queue a) = some (o, w'.bd) := by
  unfold watchStep at hs
  cases hstep : step mld queue w.bd (w.tag queue a) with
  | none => simp [hstep] at hs
  | some r =>
    simp only [hstep] at hs
    cases hs
    rfl

/-! ### Runs -/

/-- An event releases exactly the held frames before its limit, and those that stay are in the
window from the new head on. -/
structure ReleasesExactly (mld : IwlMld) (queue bufSize : ℕ)
    (l : Label (Watch α) (Act α) (Out (α × ℕ))) : Prop where
  released : l.out.released.Perm
    ((heldFrames queue l).filter fun x => decide (x.2 < releaseLimit mld queue l))
  stored : (l.post.bd.stored queue).Perm
    ((heldFrames queue l).filter fun x => !decide (x.2 < releaseLimit mld queue l))
  head : l.post.headPos ≡ (l.post.bd.reorderBuf queue).headSn [MOD 4096]
  window : ∀ x ∈ l.post.bd.stored queue,
    l.post.headPos ≤ x.2 ∧ x.2 < l.post.headPos + bufSize

/-- **Order.**  If the firmware keeps its promises and the steps are orderly, the frames of the
session are handed to mac80211 in non-decreasing order of their sequence numbers, and a release
hands up exactly the stored frames before the NSSN. -/
theorem delivered_in_order {p : Platform} {numRxqs sessions staMask tid ssn bufSize : ℕ}
    {allocated : Bool} {resp : StartResponse} {bd : BaidData (α × ℕ)}
    (hstart : ampduRxStart (α × ℕ) p numRxqs sessions staMask allocated resp tid ssn bufSize =
      .ok bd)
    (hle : bufSize ≤ 1024) (hdvd : bufSize ∣ 4096) (hq : queue < numRxqs) {mld : IwlMld}
    {ls : List (Label (Watch α) (Act α) (Out (α × ℕ)))} {w' : Watch α}
    (hrun : Run (watchStep mld queue) (Watch.start queue bd) ls w')
    (hprom : ∀ l ∈ ls, Promised mld queue l.pre l.act)
    (hord : ∀ l ∈ ls, Orderly mld queue l.pre l.act) :
    (ls.flatMap (deliveredPos queue)).Pairwise (· ≤ ·) ∧
      ∀ l ∈ ls, ReleasesExactly mld queue bufSize l := by
  have hfresh := ampduRxStart_fresh hstart
  have hok := hfresh.queueOk (Nat.pos_of_dvd_of_pos hdvd (by omega)) hq
  have hinit : OrderInv queue (Watch.start queue bd) ssn ∧
      (Watch.start queue bd).bd.bufSize = bufSize := by
    refine ⟨⟨hok, windowed_of_empty rfl (hfresh.stored_nil queue), .inl ?_⟩, hfresh.bufSize⟩
    simp [Watch.start, hfresh.buf queue hq]
  have hC : ∀ l ∈ ls, Promised mld queue l.pre l.act ∧ Orderly mld queue l.pre l.act :=
    fun l hl => ⟨hprom l hl, hord l hl⟩
  have hsize : ∀ {w w' : Watch α} {F : ℕ} {a : Act α} {o : Out (α × ℕ)},
      watchStep mld queue w a = some (o, w') → OrderInv queue w F →
      w'.bd.bufSize = w.bd.bufSize := fun hs hI =>
    (step_conserved mld (watchStep_step hs) hI.ok).session.1
  constructor
  · refine (hrun.sorted (I := fun w F => OrderInv queue w F ∧ w.bd.bufSize = bufSize)
      (C := fun l => Promised mld queue l.pre l.act ∧ Orderly mld queue l.pre l.act)
      (deliveredPos queue) ?_ hC hinit).1
    rintro w a o w₁ F hs ⟨hp, ho⟩ ⟨hI, hb⟩
    obtain ⟨F', hF'⟩ := watchStep_inOrder hI (hb ▸ hdvd) (hb ▸ hle) hp ho hs
    exact ⟨F', ⟨hF'.inv, (hsize hs hI).trans hb⟩, hF'.mono, hF'.sorted, hF'.range⟩
  · have hind := (hrun.induct (I := fun w => (∃ F, OrderInv queue w F) ∧ w.bd.bufSize = bufSize)
      (C := fun l => Promised mld queue l.pre l.act ∧ Orderly mld queue l.pre l.act)
      ?_ hC ⟨⟨ssn, hinit.1⟩, hinit.2⟩).2
    · intro l hl
      obtain ⟨hs, ⟨⟨F, hI⟩, hb⟩, -, hb'⟩ := hind l hl
      obtain ⟨F', hF'⟩ := watchStep_inOrder hI (hb ▸ hdvd) (hb ▸ hle) (hprom l hl) (hord l hl) hs
      refine ⟨hF'.released, hF'.stored, hF'.inv.win.head, ?_⟩
      intro x hx
      rw [← hb']
      exact hF'.inv.win.mem_stored hx
    · rintro w a o w₁ hs ⟨hp, ho⟩ ⟨⟨F, hI⟩, hb⟩
      obtain ⟨F', hF'⟩ := watchStep_inOrder hI (hb ▸ hdvd) (hb ▸ hle) hp ho hs
      exact ⟨⟨F', hF'.inv⟩, (hsize hs hI).trans hb⟩

/-- The frames of a window that wraps, received in the order 0, 4095, 4094. -/
def wrappedFrames : List (Act ℕ) :=
  [.rx (mpdu 0 0 4094 false), .rx (mpdu 1 4095 4094 false), .rx (mpdu 2 4094 1 false)]

/-- With four entries they are handed up in order. -/
theorem delivered_in_order_wrapped : ∃ bd ls w', startSession (ℕ × ℕ) 4094 4 = .ok bd ∧
    execute (watchStep oneStation 0) (Watch.start 0 bd) wrappedFrames = some (ls, w') ∧
    ls.flatMap (deliveredPos 0) = [4094, 4095, 4096] ∧
    (ls.flatMap (deliveredPos 0)).Pairwise (· ≤ ·) ∧
    ∀ l ∈ ls, ReleasesExactly oneStation 0 4 l := by
  refine ⟨_, _, _, rfl, rfl, by decide, ?_⟩
  exact delivered_in_order (p := platform64) (show startSession (ℕ × ℕ) 4094 4 = .ok _ from rfl)
    (by decide) (by decide) (by decide)
    (execute_run (show execute (watchStep oneStation 0) _ wrappedFrames = _ from rfl)).1
    (by decide) (by decide)

/-- With three entries SN 0 and SN 4095 share one, and the release hands up SN 0 before SN 4095. -/
theorem delivered_out_of_order : ∃ bd ls w', startSession (ℕ × ℕ) 4094 3 = .ok bd ∧
    execute (watchStep oneStation 0) (Watch.start 0 bd) wrappedFrames = some (ls, w') ∧
    (∀ l ∈ ls, Promised oneStation 0 l.pre l.act) ∧
    ls.flatMap (deliveredPos 0) = [4094, 4096, 4095] :=
  ⟨_, _, _, rfl, rfl, by decide, by decide⟩

end Iwlwifi.Iwl.Mld
