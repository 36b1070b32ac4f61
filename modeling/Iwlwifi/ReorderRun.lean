import Iwlwifi.ReorderStep

/-! # Runs of the reorder buffer

The events of a session, one after another.

* `step_stepped` is the step lemma: from a `Good` state every event that does not abandon a
  half-received A-MSDU returns, keeps `Good` and hands up frames along the movement of the head.
* **In-order delivery** (`reorder_in_order`), without A-MSDU subframes.
* **A-MSDU integrity** (`reorder_amsdu_integrity`), as long as no event abandons one;
  `amsdu_left_behind` shows runs in which one is abandoned.
* **No fresh frame is lost** (`reorder_fresh_received`), for sizes that divide the sequence number
  space; `fresh_freed_size_three` is a run with another size. -/

namespace Iwlwifi.Ieee80211.Reorder

open List

variable {P : Skb → Prop} {t t' : TidAmpduRx} {hz : ℕ} {l : Label TidAmpduRx Event Outcome}

/-! ### The step lemma -/

/-- An offloaded session takes the sequence number of its first frame. -/
def baseHead (t : TidAmpduRx) : Event → ℕ
  | .rx skb _ => (pickAutoSeq t skb.sn).headSeqNum
  | .timer _ => t.headSeqNum

structure Stepped (P : Skb → Prop) (l : Label TidAmpduRx Event Outcome) (m : ℕ) : Prop where
  good : Good l.post
  size : l.post.bufSize = l.pre.bufSize
  held : ∀ i, ∀ f ∈ l.post.buf i, P f
  handed : ∀ f ∈ handedUp l, P f
  auto : l.pre.autoSeq = false → l.post.autoSeq = false
  le : m ≤ 2049
  pos : l.post.headSeqNum = (baseHead l.pre l.act + m) % 4096
  out : l.post.started = true → (∀ f j, l.act = .rx f j → f.amsduMore = false) →
    Delivers (baseHead l.pre l.act) 0 m (handedUp l)

/-- **Step lemma.**  An event that abandons no A-MSDU returns and keeps the invariant. -/
theorem step_stepped (hhz : hz < 2 ^ 63) (hP : ∀ f, P f → P (deferRelease f))
    (h2 : 2 ≤ t.bufSize) (h1024 : t.bufSize ≤ 1024) (hd : t.bufSize ∣ 4096) (ht : Good t)
    (hheld : ∀ i, ∀ f ∈ t.buf i, P f) {ev : Event} (hev : ∀ f j, ev = .rx f j → P f)
    (hok : ¬ Abandons hz t ev) :
    ∃ o t' m, step hz t ev = some (o, t') ∧ Stepped P ⟨t, ev, o, t'⟩ m := by
  cases ev with
  | rx skb jiffies =>
    obtain ⟨hg₀, hauto₀, hbuf₀, hsize₀, hst₀, hsame⟩ := pickAutoSeq_good ht skb.sn_lt
    have hskb := hev skb jiffies rfl
    rcases staManageReorderBuf_cases hhz hP h2 h1024 hd ht hheld hskb hok with
      ⟨hst, _, hr⟩ | ⟨hst, _, hr⟩ | ⟨hs, r, m, hr, hm, hrec⟩
    · -- before the start of the session
      refine ⟨_, _, 0, by rw [step, hr]; rfl, ?_⟩
      exact {
        good := hg₀
        size := hsize₀
        held := fun i f hf => hheld i f (hbuf₀ ▸ hf)
        handed := by simpa [handedUp] using hskb
        auto := fun _ => hauto₀
        le := by omega
        pos := by
          have := hg₀.head_lt
          simp only [baseHead, add_zero]
          omega
        out := fun h => nomatch (hst₀.trans hst).symm.trans h }
    · -- out of date
      have hauto := ht.autoSeq_eq hst
      refine ⟨_, _, 0, by rw [step, hr]; rfl, ?_⟩
      exact {
        good := ht
        size := rfl
        held := hheld
        handed := by simp [handedUp]
        auto := id
        le := by omega
        pos := by
          have := ht.head_lt
          simp only [baseHead, hsame hauto, add_zero]
          omega
        out := fun _ _ => delivers_nil _ _ _ }
    · obtain ⟨fate, t', frames⟩ := r
      refine ⟨_, t', m, by rw [step, hr]; rfl, ?_⟩
      have hmv := hrec.moved
      exact { hmv with
        size := hmv.size.trans hsize₀
        handed := by
          cases fate with
          | processed =>
            exact forall_mem_append.mpr ⟨hmv.handed, forall_mem_singleton.mpr hskb⟩
          | outOfDate => exact hmv.handed
          | duplicate => exact hmv.handed
          | buffered => exact hmv.handed
        auto := fun _ => hmv.autoSeq.trans hauto₀
        le := hm
        out := by
          intro _ hmore
          cases fate with
          | processed => exact hrec.processed rfl (hmore skb jiffies rfl)
          | outOfDate => exact hmv.out
          | duplicate => exact hmv.out
          | buffered => exact hmv.out }
  | timer jiffies =>
    obtain ⟨p, m, hp, _, hm, hmv⟩ := staReorderRelease_moved hP hd ht.head_lt (by omega)
      (Cleared.refl ht hheld).toMoved (not_abandons_timer hd ht hok)
    refine ⟨_, p.1, m, by rw [step, hp]; rfl, ?_⟩
    exact { hmv with
      auto := hmv.autoSeq.trans
      le := by omega
      out := fun _ _ => hmv.out }

/-! ### Sessions -/

theorem startRxBaSession_good {sta : StaCaps} {env : StartEnv} {req : StartRequest}
    (h : startRxBaSession sta env req = (.success, some t)) (hssn : req.startSeqNum < 4096)
    (hpos : 0 < t.bufSize) :
    Good t ∧ t.bufSize = negotiatedBufSize sta req.bufSize ∧ t.bufSize ≤ 1024 ∧
      (∀ i, t.buf i = []) ∧ t.autoSeq = req.autoSeq ∧ t.headSeqNum = req.startSeqNum := by
  have hmax : maxBufSize sta ≤ 1024 := by
    unfold maxBufSize
    split
    · omega
    · split <;> omega
  have hfresh : t = freshSession req (negotiatedBufSize sta req.bufSize) ∧
      req.bufSize ≤ maxBufSize sta := by
    unfold startRxBaSession at h
    split at h
    · simp at h
    split at h
    · simp at h
    split at h
    · simp at h
    split at h
    · simp at h
    split at h
    · simp at h
    rename_i hsize
    have hle : req.bufSize ≤ maxBufSize sta := by
      by_contra hgt
      exact hsize (Or.inr (by omega))
    refine ⟨?_, hle⟩
    repeat' (split at h)
    all_goals simp_all
  obtain ⟨rfl, hle⟩ := hfresh
  have h1024 : negotiatedBufSize sta req.bufSize ≤ 1024 := by
    unfold negotiatedBufSize
    simp only
    split <;> split <;> omega
  refine ⟨⟨⟨hpos, by change negotiatedBufSize sta req.bufSize < 65536; omega, hssn, rfl,
    ?_, ?_, ?_, ?_⟩,
    ?_⟩, rfl, h1024, fun _ => rfl, rfl, rfl⟩
  · intro i
    exact List.Pairwise.nil
  · simp [readyCount, TidAmpduRx.buf, freshSession]
  · intro _ _
    rfl
  · intro _
    rfl
  · intro i f hf
    exact absurd hf not_mem_nil

theorem size_of_pow {k : ℕ} (hk : 1 ≤ k) (hk' : k ≤ 10) (hsize : t.bufSize = 2 ^ k) :
    2 ≤ t.bufSize ∧ t.bufSize ∣ 4096 := by
  rw [hsize]
  exact ⟨(Nat.pow_le_pow_right (by omega) hk : 2 ^ 1 ≤ 2 ^ k),
    (pow_dvd_pow 2 (by omega) : 2 ^ k ∣ 2 ^ 12)⟩

/-- An HE station whose hardware takes aggregates of up to 256 subframes. -/
def heStation : StaCaps where
  validLinks := false
  htSupported := true
  hasHe := true
  hasEht := false
  s1g := false
  htDelayBa := false
  s1gDelayedBa := false
  blockBa := false
  useNdpBa := false
  maxRxAggregationSubframes := 256

def softwareReorder : StartEnv where
  oldSession := none
  hwReorders := false
  allocOk := true
  driverOk := true

def addbaRequest (ssn bufSize : ℕ) : StartRequest where
  dialogToken := 1
  timeout := 0
  startSeqNum := ssn
  baPolicy := 1
  tid := 0
  bufSize := bufSize
  tx := true
  autoSeq := false
  reqNdp := false

def frame (sn : ℕ) (more : Bool := false) : Skb := { seqCtrl := 16 * sn, amsduMore := more }

/-! ### In-order delivery -/

/-- A slot has at most one frame, the one whose sequence number the window assigns to the slot;
`stored_mpdu_num` counts the occupied slots. -/
structure SlotLaw (t : TidAmpduRx) : Prop where
  assigned : ∀ i < t.bufSize,
    ∃! x, x < 4096 ∧ snSub x t.headSeqNum < t.bufSize ∧ x % t.bufSize = i
  single : ∀ i < t.bufSize, t.buf i ≠ [] ↔
    ∃ f, t.buf i = [f] ∧ snSub f.sn t.headSeqNum < t.bufSize ∧ f.sn % t.bufSize = i
  stored : t.storedMpduNum = ((Finset.range t.bufSize).filter fun i => t.buf i ≠ []).card

/-- The frames handed up follow the head: strictly increasing, none before the old head and all
before the new one. -/
structure InOrder (l : Label TidAmpduRx Event Outcome) : Prop where
  ahead : ∀ f ∈ handedUp l,
    snSub f.sn l.pre.headSeqNum < snSub l.post.headSeqNum l.pre.headSeqNum
  increasing : (handedUp l).Pairwise fun f g =>
    snSub f.sn l.pre.headSeqNum < snSub g.sn l.pre.headSeqNum

def advance (l : Label TidAmpduRx Event Outcome) : ℕ :=
  snSub l.post.headSeqNum l.pre.headSeqNum

theorem Good.slotLaw (hd : t.bufSize ∣ 4096) (ht : Good t)
    (hplain : ∀ i, ∀ f ∈ t.buf i, f.amsduMore = false) : SlotLaw t where
  assigned := by
    intro i hi
    have hle := Nat.le_of_dvd (by omega) hd
    have hh := ht.head_lt
    have hoff := Ring.off_lt ht.size_pos t.headSeqNum i
    refine ⟨(t.headSeqNum + Ring.off t.bufSize t.headSeqNum i) % 4096, ⟨by omega, ?_, ?_⟩, ?_⟩
    · unfold snSub
      omega
    · rw [Ring.mod_fold hd, Ring.off_spec ht.size_pos, Nat.mod_eq_of_lt hi]
    rintro x ⟨hx, hxw, hxi⟩
    rw [snSub_eq_off hh] at hxw
    refine Ring.eq_of_mod_eq hd hx (by omega) t.headSeqNum hxw ?_ ?_
    · rw [← snSub_eq_off hh]
      unfold snSub
      omega
    · rw [hxi, Ring.mod_fold hd, Ring.off_spec ht.size_pos, Nat.mod_eq_of_lt hi]
  single := by
    intro i _
    constructor
    · intro hne
      have hchain := ht.chain i
      have hpl := hplain i
      have hwin := ht.window i
      generalize t.buf i = l at hne hchain hpl hwin ⊢
      match l with
      | [] => exact absurd rfl hne
      | [f] => exact ⟨f, rfl, (hwin f (by simp)).2, (hwin f (by simp)).1⟩
      | f :: g :: l =>
        have h1 := hpl f (by simp)
        have h2 := (pairwise_cons.mp hchain).1 g (by simp)
        exact nomatch h1.symm.trans h2
    · rintro ⟨f, hf, _⟩ h0
      rw [h0] at hf
      cases hf
  stored := by
    rw [ht.stored, readyCount, Finset.card_filter]
    apply Finset.sum_congr rfl
    intro i _
    by_cases h0 : t.buf i = []
    · simp [h0]
    · rw [if_pos (complete_of_plain (hplain i) h0), if_pos h0]

def Plain (f : Skb) : Prop := f.amsduMore = false

theorem plain_deferRelease (f : Skb) (h : Plain f) : Plain (deferRelease f) := h

theorem Stepped.inOrder {m : ℕ} (hpre : Good l.pre)
    (hs : Stepped Plain l m) (hauto : l.pre.autoSeq = false) (hst : l.post.started = true)
    (hev : ∀ f j, l.act = .rx f j → f.amsduMore = false) : InOrder l := by
  have hbase : baseHead l.pre l.act = l.pre.headSeqNum := by
    cases hact : l.act with
    | rx skb j =>
      obtain ⟨-, -, -, -, -, hsame⟩ := pickAutoSeq_good hpre skb.sn_lt
      rw [baseHead, hsame hauto]
    | timer j => rfl
  have hout := hs.out hst hev
  have hle := hs.le
  have hh := hpre.head_lt
  have hadv : snSub l.post.headSeqNum l.pre.headSeqNum = m := by
    rw [hs.pos, hbase]
    unfold snSub
    omega
  rw [hbase] at hout
  refine ⟨?_, hout.2.imp_of_mem ?_⟩
  · intro f hf
    rw [hadv]
    exact (hout.1 f hf).2
  intro f g hf _ hfg
  rcases hfg with hfg | ⟨_, hmore⟩
  · exact hfg
  · exact nomatch (hs.handed f hf).symm.trans hmore

/-- **Run lemma.**  Without A-MSDU subframes every sequence of events is executed. -/
theorem execute_plain (hhz : hz < 2 ^ 63) : ∀ (evs : List Event) (t : TidAmpduRx), 2 ≤ t.bufSize →
    t.bufSize ≤ 1024 → t.bufSize ∣ 4096 → Good t → (∀ i, ∀ f ∈ t.buf i, Plain f) →
    t.autoSeq = false → (∀ f j, Event.rx f j ∈ evs → f.amsduMore = false) →
    ∃ ls t', execute (step hz) t evs = some (ls, t') ∧ ∀ l ∈ ls, Good l.pre ∧
      l.pre.autoSeq = false ∧ l.post.bufSize = t.bufSize ∧
      (∀ f j, l.act = .rx f j → f.amsduMore = false) ∧ ∃ m, Stepped Plain l m := by
  intro evs
  induction evs with
  | nil =>
    intro t _ _ _ _ _ _ _
    exact ⟨[], t, rfl, by simp⟩
  | cons ev evs ih =>
    intro t h2 h1024 hd ht hpl hauto hevs
    have hev : ∀ f j, ev = .rx f j → f.amsduMore = false := by
      rintro f j rfl
      exact hevs f j (by simp)
    obtain ⟨o, t₁, m, hstep, hs⟩ := step_stepped hhz plain_deferRelease h2 h1024 hd ht hpl hev
      (not_abandons_of_plain hpl ev)
    have hsize : t₁.bufSize = t.bufSize := hs.size
    obtain ⟨ls, t', hex, hls⟩ := ih t₁ (hsize ▸ h2) (hsize ▸ h1024)
      (hsize ▸ hd) hs.good hs.held (hs.auto hauto) (fun f j h => hevs f j (by simp [h]))
    refine ⟨⟨t, ev, o, t₁⟩ :: ls, t', ?_, ?_⟩
    · unfold execute
      rw [hstep]
      simp only [hex]
    refine forall_mem_cons.mpr ⟨⟨ht, hauto, hsize, hev, m, hs⟩, fun l hl => ?_⟩
    obtain ⟨h3, h4, h5, h6⟩ := hls l hl
    exact ⟨h3, h4, h5.trans hsize, h6⟩

theorem run_increasing {s s' : TidAmpduRx} {ls : List (Label TidAmpduRx Event Outcome)}
    (h : Run (step hz) s ls s') (hgood : ∀ l ∈ ls, l.pre.headSeqNum < 4096 ∧
      l.post.headSeqNum < 4096 ∧ InOrder l) (hsum : (ls.map advance).sum ≤ 4096) :
    (∀ f ∈ ls.flatMap handedUp, snSub f.sn s.headSeqNum < (ls.map advance).sum) ∧
      (ls.flatMap handedUp).Pairwise fun f g =>
        snSub f.sn s.headSeqNum < snSub g.sn s.headSeqNum := by
  induction h with
  | nil s => simp
  | @cons s s₁ s₂ a b ls hs hr ih =>
    obtain ⟨hpre, hpost, hin⟩ := hgood _ ((.head _) ..)
    simp only [map_cons, sum_cons, flatMap_cons] at hsum ⊢
    obtain ⟨ih1, ih2⟩ := ih (fun l hl => hgood l (by simp [hl])) (by omega)
    -- distances from the first head are those from the next one, plus its advance
    have hshift : ∀ f ∈ ls.flatMap handedUp, snSub f.sn s.headSeqNum =
        advance ⟨s, a, b, s₁⟩ + snSub f.sn s₁.headSeqNum := by
      intro f hf
      have h1 := ih1 f hf
      unfold advance snSub at *
      simp only at *
      omega
    constructor
    · intro f hf
      rcases mem_append.mp hf with hf | hf
      · have : snSub f.sn s.headSeqNum < advance ⟨s, a, b, s₁⟩ := hin.ahead f hf
        omega
      · have := ih1 f hf
        rw [hshift f hf]
        omega
    · rw [pairwise_append]
      refine ⟨hin.increasing, ?_, ?_⟩
      · refine ih2.imp_of_mem ?_
        intro f g hf hg hfg
        rw [hshift f hf, hshift g hg]
        omega
      · intro f hf g hg
        have : snSub f.sn s.headSeqNum < advance ⟨s, a, b, s₁⟩ := hin.ahead f hf
        rw [hshift g hg]
        omega

/-- **In-order delivery.**  A session of power-of-two size, without A-MSDU subframes, executes every
sequence of arrivals and timeouts.  The slots and the counter obey `SlotLaw`, the frames handed up
follow the head, and no sequence number is handed up twice before the head has gone round. -/
theorem reorder_in_order (hhz : hz < 2 ^ 63) {sta : StaCaps} {env : StartEnv} {req : StartRequest}
    (hstart : startRxBaSession sta env req = (.success, some t)) (hssn : req.startSeqNum < 4096)
    (hauto : req.autoSeq = false) {k : ℕ} (hk : 1 ≤ k) (hk' : k ≤ 10) (hsize : t.bufSize = 2 ^ k)
    {evs : List Event} (hplain : ∀ f j, Event.rx f j ∈ evs → f.amsduMore = false) :
    ∃ ls t', execute (step hz) t evs = some (ls, t') ∧
      (∀ l ∈ ls, SlotLaw l.post ∧ l.post.bufSize = t.bufSize ∧
        (l.post.started = true → InOrder l)) ∧
      ∀ seg, seg <:+: ls → (∀ l ∈ seg, l.post.started = true) → (seg.map advance).sum ≤ 4096 →
        ((seg.flatMap handedUp).map Skb.sn).Nodup := by
  obtain ⟨h2, hd⟩ := size_of_pow hk hk' hsize
  obtain ⟨ht, _, h1024, hempty, hauto', _⟩ := startRxBaSession_good hstart hssn (by omega)
  have hheld : ∀ i, ∀ f ∈ t.buf i, Plain f := by
    intro i f hf
    simp [hempty i] at hf
  obtain ⟨ls, t', hex, hls⟩ := execute_plain hhz evs t h2 h1024 hd ht hheld
    (hauto'.trans hauto) hplain
  refine ⟨ls, t', hex, ?_, ?_⟩
  · intro l hl
    obtain ⟨hpre, hauto, hsz, hev, m, hs⟩ := hls l hl
    exact ⟨hs.good.slotLaw (hsz ▸ hd) hs.held, hsz, fun hst => hs.inOrder hpre hauto hst hev⟩
  rintro seg ⟨l₁, l₂, rfl⟩ hst hsum
  obtain ⟨s₂, hrun, _⟩ := (execute_run hex).1.split
  obtain ⟨s₁, _, hseg⟩ := hrun.split
  have hin : ∀ l ∈ seg, l.pre.headSeqNum < 4096 ∧ l.post.headSeqNum < 4096 ∧ InOrder l := by
    intro l hl
    obtain ⟨hpre, hauto, hsz, hev, m, hs⟩ := hls l (by simp [hl])
    exact ⟨hpre.head_lt, hs.good.head_lt, hs.inOrder hpre hauto (hst l hl) hev⟩
  have hincr := (run_increasing hseg hin hsum).2
  apply List.Nodup.of_map (fun x => snSub x s₁.headSeqNum)
  rw [map_map]
  exact (pairwise_map.mpr hincr).imp (fun h => Nat.ne_of_lt h)

/-- Frames 3 and 2 arrive out of order in a session of size 2, and then a duplicate. -/
theorem reorder_in_order_swapped :
    startRxBaSession heStation softwareReorder (addbaRequest 2 2) =
        (.success, some (freshSession (addbaRequest 2 2) 2)) ∧
      ∃ ls t', execute (step 1000) (freshSession (addbaRequest 2 2) 2)
          [.rx (frame 3) 0, .rx (frame 2) 1, .rx (frame 3) 2, .timer 500] = some (ls, t') ∧
        (∀ l ∈ ls, SlotLaw l.post ∧ l.post.bufSize = 2 ∧ (l.post.started = true → InOrder l)) ∧
        ∀ seg, seg <:+: ls → (∀ l ∈ seg, l.post.started = true) → (seg.map advance).sum ≤ 4096 →
          ((seg.flatMap handedUp).map Skb.sn).Nodup :=
  ⟨rfl, reorder_in_order (show 1000 < 2 ^ 63 by omega)
    (show startRxBaSession heStation softwareReorder (addbaRequest 2 2) = _ from rfl)
    (by decide) rfl
    (k := 1) (by omega) (by omega) rfl (by
      intro f j h
      simp only [frame, mem_cons, Event.rx.injEq, not_mem_nil, or_false, reduceCtorEq] at h
      rcases h with h | h | h <;> rw [h.1])⟩

/-! ### Runs with A-MSDUs -/

def passes (x : ℕ) (l : Label TidAmpduRx Event Outcome) : Bool :=
  decide (snSub x (baseHead l.pre l.act) < snSub l.post.headSeqNum (baseHead l.pre l.act))

def arrives (x : ℕ) (l : Label TidAmpduRx Event Outcome) : Bool :=
  match l.act with
  | .rx skb _ => skb.sn == x
  | .timer _ => false

/-- A frame with the sequence number `x` has arrived since the head last passed `x`. -/
def receivedSince (x : ℕ) (ls : List (Label TidAmpduRx Event Outcome)) : Bool :=
  ls.foldl (fun r l => (r || arrives x l) && !passes x l) false

theorem receivedSince_concat (x : ℕ) (ls : List (Label TidAmpduRx Event Outcome))
    (l : Label TidAmpduRx Event Outcome) :
    receivedSince x (ls ++ [l]) = ((receivedSince x ls || arrives x l) && !passes x l) := by
  simp [receivedSince]

theorem Stepped.not_passes {m i : ℕ} (hs : Stepped P l m)
    (hbase : baseHead l.pre l.act < 4096) (h1024 : l.post.bufSize ≤ 1024) {f : Skb}
    (hf : f ∈ l.post.buf i) : passes f.sn l = false := by
  have hw := (hs.good.window i f hf).2
  have hpos := hs.pos
  have hle := hs.le
  unfold passes
  rw [decide_eq_false_iff_not]
  unfold snSub at *
  omega

theorem baseHead_lt (ht : Good t) (ev : Event) : baseHead t ev < 4096 := by
  cases ev with
  | rx skb j => exact (pickAutoSeq_good ht skb.sn_lt).1.head_lt
  | timer j => exact ht.head_lt

section
variable (hhz : hz < 2 ^ 63) (h2 : 2 ≤ t.bufSize) (h1024 : t.bufSize ≤ 1024) (hd : t.bufSize ∣ 4096)
  (ht : Good t) (hempty : ∀ i, t.buf i = [])
include hhz h2 h1024 hd ht hempty

/-- **Run lemma.**  As long as no event abandons an A-MSDU the invariant is kept, and everything
stored has been received since the head passed its sequence number. -/
theorem run_good (ls : List (Label TidAmpduRx Event Outcome)) : ∀ t', Run (step hz) t ls t' →
    (∀ l ∈ ls, ¬ Abandons hz l.pre l.act) →
    Good t' ∧ t'.bufSize = t.bufSize ∧
      ∀ i, ∀ f ∈ t'.buf i, receivedSince f.sn ls = true := by
  -- induction on the last event, because what has been received is a property of the past
  induction ls using List.reverseRecOn with
  | nil =>
    intro t' hrun _
    cases hrun
    refine ⟨ht, rfl, ?_⟩
    intro i f hf
    simp [hempty i] at hf
  | append_singleton ls l ih =>
    intro t' hrun hok
    obtain ⟨s, hrun₁, hlast⟩ := hrun.split
    obtain ⟨hs, hsize, hrec⟩ := ih s hrun₁ (fun l hl => hok l (by simp [hl]))
    have habandon := hok l (by simp)
    cases hlast with
    | @cons _ s' _ a o _ hstep hnil =>
      cases hnil
      let Q : Skb → Prop := fun f =>
        (receivedSince f.sn ls || arrives f.sn ⟨s, a, o, t'⟩) = true
      have hQ : ∀ i, ∀ f ∈ s.buf i, Q f := by
        intro i f hf
        simp [Q, hrec i f hf]
      have hQev : ∀ f j, a = .rx f j → Q f := by
        rintro f j rfl
        simp [Q, arrives]
      obtain ⟨o', t'', m, hstep', hst⟩ := step_stepped hhz (P := Q) (fun f hf => hf)
        (hsize ▸ h2) (hsize ▸ h1024) (hsize ▸ hd) hs hQ hQev habandon
      rw [hstep] at hstep'
      cases hstep'
      have hsize' : t'.bufSize = t.bufSize := hst.size.trans hsize
      refine ⟨hst.good, hsize', ?_⟩
      intro i f hf
      rw [receivedSince_concat, hst.not_passes (baseHead_lt hs a) (hsize' ▸ h1024) hf]
      simpa [Q] using hst.held i f hf

theorem run_good_pre {ls₁ ls₂ : List (Label TidAmpduRx Event Outcome)}
    (hrun : Run (step hz) t (ls₁ ++ l :: ls₂) t') (hok : ∀ l' ∈ ls₁, ¬ Abandons hz l'.pre l'.act) :
    step hz l.pre l.act = some (l.out, l.post) ∧ Good l.pre ∧ l.pre.bufSize = t.bufSize ∧
      ∀ i, ∀ f ∈ l.pre.buf i, receivedSince f.sn ls₁ = true := by
  obtain ⟨s, hrun₁, hrest⟩ := hrun.split
  cases hrest with
  | cons hstep _ => exact ⟨hstep, run_good hhz h2 h1024 hd ht hempty ls₁ s hrun₁ hok⟩

end

/-! ### A-MSDU integrity -/

/-- Every stored frame lies in the window, and the frames of a slot belong to one A-MSDU. -/
def SlotsInWindow (t : TidAmpduRx) : Prop :=
  ∀ i, ∀ f ∈ t.buf i, snSub f.sn t.headSeqNum < t.bufSize ∧ ∀ g ∈ t.buf i, f.sn = g.sn

/-- **A-MSDU integrity.**  If no event abandons a half-received A-MSDU, the slots are in the window
after every step. -/
theorem reorder_amsdu_integrity (hhz : hz < 2 ^ 63) {sta : StaCaps} {env : StartEnv}
    {req : StartRequest} (hstart : startRxBaSession sta env req = (.success, some t))
    (hssn : req.startSeqNum < 4096) {k : ℕ} (hk : 1 ≤ k) (hk' : k ≤ 10) (hsize : t.bufSize = 2 ^ k)
    {ls : List (Label TidAmpduRx Event Outcome)} {t' : TidAmpduRx} (hrun : Run (step hz) t ls t')
    (hok : ∀ l ∈ ls, ¬ Abandons hz l.pre l.act) : ∀ l ∈ ls, SlotsInWindow l.post := by
  obtain ⟨h2, hd⟩ := size_of_pow hk hk' hsize
  obtain ⟨ht, _, h1024, hempty, _, _⟩ := startRxBaSession_good hstart hssn (by omega)
  have hstep : ∀ s a o s', step hz s a = some (o, s') → ¬ Abandons hz s a →
      Good s ∧ s.bufSize = t.bufSize → Good s' ∧ s'.bufSize = t.bufSize := by
    rintro s a o s' hs hab ⟨hgood, hsz⟩
    obtain ⟨o', s'', m, hs', hst⟩ := step_stepped hhz (P := fun _ => True) (fun _ _ => trivial)
      (hsz ▸ h2) (hsz ▸ h1024) (hsz ▸ hd) hgood (fun _ _ _ => trivial) (fun _ _ _ => trivial) hab
    rw [hs] at hs'
    cases hs'
    exact ⟨hst.good, hst.size.trans hsz⟩
  intro l hl
  obtain ⟨-, -, hgood, hsz⟩ := (hrun.induct (C := fun l => ¬ Abandons hz l.pre l.act) hstep hok
    ⟨ht, rfl⟩).2 l hl
  intro i f hf
  exact ⟨(hgood.window i f hf).2, fun g hg => hgood.sn_eq (hsz ▸ hd) hf hg⟩

/-- The two subframes of frame 1 arrive before frame 0. -/
theorem reorder_amsdu_integrity_held : ∃ ls t',
    execute (step 1000) (freshSession (addbaRequest 0 2) 2)
        [.rx (frame 1 true) 0, .rx (frame 1) 1, .rx (frame 0) 2, .timer 300] = some (ls, t') ∧
      (∀ l ∈ ls, ¬ Abandons 1000 l.pre l.act) ∧ ∀ l ∈ ls, SlotsInWindow l.post := by
  refine exists_execute rfl fun hrun => ⟨by decide, ?_⟩
  exact reorder_amsdu_integrity (show 1000 < 2 ^ 63 by omega)
    (show startRxBaSession heStation softwareReorder (addbaRequest 0 2) = _ from rfl) (by decide)
    (k := 1) (by omega) (by omega) rfl hrun (by decide)

/-- Frame 0 is handed up at once and so is the last subframe of frame 1: the first one is still
stored.  In the second run the slot of the head holds a subframe of frame 0 when frame 1 times out.
-/
theorem amsdu_left_behind :
    startRxBaSession heStation softwareReorder (addbaRequest 0 2) =
        (.success, some (freshSession (addbaRequest 0 2) 2)) ∧
      (∃ ls t', execute (step 1000) (freshSession (addbaRequest 0 2) 2)
          [.rx (frame 1 true) 0, .rx (frame 0) 1, .rx (frame 1) 2] = some (ls, t') ∧
        t'.headSeqNum = 2 ∧ t'.buf 1 = [frame 1 true] ∧ ¬ SlotsInWindow t') ∧
      ∃ ls t', execute (step 1000) (freshSession (addbaRequest 0 2) 2)
          [.rx (frame 1) 0, .rx (frame 0 true) 1, .timer 200] = some (ls, t') ∧
        t'.headSeqNum = 2 ∧ t'.buf 0 = [frame 0 true] ∧ ¬ SlotsInWindow t' := by
  refine ⟨rfl, ⟨_, _, rfl, rfl, by decide, ?_⟩, ⟨_, _, rfl, rfl, by decide, ?_⟩⟩
  · intro h
    exact absurd (h 1 (frame 1 true) (by decide)).1 (by decide)
  · intro h
    exact absurd (h 0 (frame 0 true) (by decide)).1 (by decide)

/-- What becomes of the subframe left behind: it is handed up with frame 3. -/
example : (execute (step 1000) (freshSession (addbaRequest 0 2) 2)
    [.rx (frame 1 true) 0, .rx (frame 0) 1, .rx (frame 1) 2, .rx (frame 3) 3, .rx (frame 2) 4]).map
      (fun r => (r.1.flatMap handedUp).map Skb.sn) = some [0, 1, 2, 1, 3] := by decide

/-! ### No fresh frame is lost -/

/-- The frame lies in the window after it has moved, and it is handed up or put into a slot with
no frame of another sequence number. -/
def Accepted (l : Label TidAmpduRx Event Outcome) (skb : Skb) : Prop :=
  let t := (windowMove l.pre skb.sn).1
  snSub skb.sn t.headSeqNum < t.bufSize ∧
    (l.out.fate = some .processed ∨
      (l.out.fate = some .buffered ∧ ∀ f ∈ t.buf (skb.sn % t.bufSize), f.sn = skb.sn))

/-- **No fresh frame is lost.**  In sessions whose size is at least 2 and divides 4096, if no event
abandons a half-received A-MSDU, an MSDU that is not out of date and has not been received since the
head passed its sequence number is accepted. -/
theorem reorder_fresh_received (hhz : hz < 2 ^ 63) {sta : StaCaps} {env : StartEnv}
    {req : StartRequest} (hstart : startRxBaSession sta env req = (.success, some t))
    (hssn : req.startSeqNum < 4096) (h2 : 2 ≤ t.bufSize) (hd : t.bufSize ∣ 4096)
    {ls₁ ls₂ : List (Label TidAmpduRx Event Outcome)} {l : Label TidAmpduRx Event Outcome}
    {t' : TidAmpduRx} (hrun : Run (step hz) t (ls₁ ++ l :: ls₂) t')
    (hok : ∀ l' ∈ ls₁ ++ l :: ls₂, ¬ Abandons hz l'.pre l'.act) {skb : Skb} {jiffies : ℕ}
    (hact : l.act = .rx skb jiffies) (hst : l.pre.started = true)
    (hs : snLess skb.sn l.pre.headSeqNum = false) (hfresh : receivedSince skb.sn ls₁ = false) :
    Accepted l skb := by
  obtain ⟨ht, _, h1024, hempty, _, _⟩ := startRxBaSession_good hstart hssn (by omega)
  obtain ⟨hstep, hpre, hsz, hrec⟩ := run_good_pre hhz h2 h1024 hd ht hempty hrun
    (fun l' hl' => hok l' (by simp [hl']))
  have habandon := hok l (by simp)
  rw [hact] at habandon hstep
  have hopen : opened l.pre skb.sn = l.pre := opened_of_started hpre hst
  have hlast := staManageReorderBuf_cases hhz (P := fun _ => True) (fun _ _ => trivial)
    (hsz ▸ h2) (hsz ▸ h1024) (hsz ▸ hd) hpre (fun _ _ _ => trivial) trivial habandon
  rw [hopen] at hlast
  rcases hlast with ⟨h, _⟩ | ⟨_, h, _⟩ | ⟨_, r, m, hr, _, hrcv⟩
  · exact nomatch hst.symm.trans h
  · exact nomatch hs.symm.trans h
  obtain ⟨hcl, hin⟩ := windowMove_cleared (P := fun f => receivedSince f.sn ls₁ = true)
    (fun f hf => hf) (hsz ▸ hd) (hsz ▸ h2) (hsz ▸ h1024) hpre hrec skb.sn_lt hs
  have hfate : l.out.fate = some r.1 := by
    rw [step, hr] at hstep
    simp only [Option.map_some, Option.some.injEq, Prod.mk.injEq] at hstep
    rw [← hstep.1]
  have hin' := hin.trans_eq hcl.size.symm
  have hd' : (windowMove l.pre skb.sn).1.bufSize ∣ 4096 := by
    rw [hcl.size, hsz]
    exact hd
  -- whatever is in the slot has the sequence number of the frame
  have hslot : ∀ f ∈ (windowMove l.pre skb.sn).1.buf
      (skb.sn % (windowMove l.pre skb.sn).1.bufSize), f.sn = skb.sn :=
    fun f hf => hcl.good.window.sn_unique hd' hcl.good.head_lt hf skb.sn_lt hin' rfl
  refine ⟨hin', ?_⟩
  rw [hfate]
  cases hr1 : r.1 with
  | processed => exact Or.inl rfl
  | outOfDate => exact absurd hr1 hrcv.inTime
  | buffered => exact Or.inr ⟨rfl, hslot⟩
  | duplicate =>
    have hc := hrcv.duplicate hr1
    obtain ⟨f, hf⟩ := exists_mem_of_complete hc
    have := hcl.held _ f hf
    rw [hslot f hf, hfresh] at this
    cases this

/-- Frame 0 arrives after frame 1. -/
theorem reorder_fresh_received_gap : ∃ l₀ l t',
    execute (step 1000) (freshSession (addbaRequest 0 2) 2) [.rx (frame 1) 0, .rx (frame 0) 1] =
        some ([l₀, l], t') ∧
      receivedSince (frame 0).sn [l₀] = false ∧ Accepted l (frame 0) := by
  refine ⟨_, _, _, rfl, by decide, ?_⟩
  exact reorder_fresh_received (show 1000 < 2 ^ 63 by omega)
    (show startRxBaSession heStation softwareReorder (addbaRequest 0 2) = _ from rfl) (by decide)
    (show 2 ≤ 2 by omega) (show 2 ∣ 4096 by decide)
    (show Run (step 1000) _ ([_] ++ _ :: []) _ from (execute_run (show execute (step 1000) _
      [.rx (frame 1) 0, .rx (frame 0) 1] = _ from rfl)).1) (by decide) rfl rfl (by decide)
    (by decide)

/-- With size 3 the sequence numbers 4095 and 0 share a slot: frame 0 is freed as a duplicate.  With
size 1 the window does not follow a frame half the space ahead. -/
theorem fresh_freed_size_three :
    (startRxBaSession heStation softwareReorder (addbaRequest 4094 3) =
        (.success, some (freshSession (addbaRequest 4094 3) 3)) ∧
      ∃ l₀ l t', execute (step 1000) (freshSession (addbaRequest 4094 3) 3)
          [.rx (frame 4095) 0, .rx (frame 0) 1] = some ([l₀, l], t') ∧ l.pre.started = true ∧
        snLess (frame 0).sn l.pre.headSeqNum = false ∧ receivedSince (frame 0).sn [l₀] = false ∧
        l.out.fate = some .duplicate ∧ ¬ Accepted l (frame 0)) ∧
    (startRxBaSession heStation softwareReorder (addbaRequest 0 1) =
        (.success, some (freshSession (addbaRequest 0 1) 1)) ∧
      ∃ l₀ l t', execute (step 1000) (freshSession (addbaRequest 0 1) 1)
          [.rx (frame 0) 0, .rx (frame 2049) 1] = some ([l₀, l], t') ∧ l.pre.started = true ∧
        snLess (frame 2049).sn l.pre.headSeqNum = false ∧
        receivedSince (frame 2049).sn [l₀] = false ∧ ¬ Accepted l (frame 2049)) := by
  refine ⟨⟨rfl, _, _, _, rfl, rfl, by decide, by decide, by decide, ?_⟩,
    ⟨rfl, _, _, _, rfl, rfl, by decide, by decide, ?_⟩⟩
  · rintro ⟨-, h | h⟩
    · exact absurd h (by decide)
    · exact absurd h.1 (by decide)
  · rintro ⟨h, -⟩
    exact absurd h (by decide)

end Iwlwifi.Ieee80211.Reorder
