import Iwlwifi.PsBuffer
import Iwlwifi.Tally

/-! # The count of buffered frames

`local->total_ps_buffered` is to be the number of frames in all the queues, so that it is never
negative and never above `TOTAL_MAX_TX_BUFFER`.

* **Balance** (`Local.balance`): the counter without the frames in the queues.  Every function but
  two keeps it and adds no frames (`Shrinks`); buffering keeps it and adds one frame at most.
* **The purge** (`accounted_purge_iff`) counts the access categories of a station up to the one from
  which it drops a frame, and not those of higher priority.  The balance is zero behind it if and
  only if no station has frames in two categories.
* **A stray station**, in power save on an interface that is neither of an AP nor of a mesh, is freed
  without its frames being taken off the counter. -/

namespace Iwlwifi.Ieee80211.PsBuf

open Tally List

variable {s s' : Local}

/-! ### The balance -/

def Local.balance (s : Local) : ℤ := s.totalPsBuffered - s.held

structure Accounted (s : Local) : Prop where
  exact : s.totalPsBuffered = s.held
  nonneg : 0 ≤ s.totalPsBuffered
  atMost : s.totalPsBuffered ≤ totalMaxTxBuffer

structure Shrinks (s s' : Local) : Prop where
  balance : s'.balance = s.balance
  held : s'.held ≤ s.held

theorem Shrinks.refl (s : Local) : Shrinks s s := ⟨rfl, le_rfl⟩

theorem Shrinks.trans {s'' : Local} (h : Shrinks s s') (h' : Shrinks s' s'') : Shrinks s s'' :=
  ⟨h'.balance.trans h.balance, h'.held.trans h.held⟩

theorem Shrinks.of_taken {n : ℕ} (hheld : s'.held + n = s.held)
    (htotal : s'.totalPsBuffered = s.totalPsBuffered - n) : Shrinks s s' := by
  refine ⟨?_, by omega⟩
  unfold Local.balance
  omega

@[simp] theorem addTotal_total (s : Local) (n : ℤ) :
    (s.addTotal n).totalPsBuffered = s.totalPsBuffered + n := rfl

@[simp] theorem addTotal_held (s : Local) (n : ℤ) : (s.addTotal n).held = s.held := rfl

@[simp] theorem setSta_total (s : Local) (k : ℕ) (sta : Sta) :
    (s.setSta k sta).totalPsBuffered = s.totalPsBuffered := rfl

theorem setSta_held {k : ℕ} {sta : Sta} (h : s.staList[k]? = some sta) (sta' : Sta) :
    (s.setSta k sta').held + sta.held = s.held + sta'.held := by
  have := sum_map_set (f := Sta.held) (a := sta') h
  unfold Local.held Local.setSta
  dsimp only
  omega

@[simp] theorem setPs_total (s : Local) (j : ℕ) (f : PsData → PsData) :
    (s.setPs j f).totalPsBuffered = s.totalPsBuffered := by
  unfold Local.setPs
  split
  · rfl
  · split <;> rfl

theorem setPs_of_none {j : ℕ} (h : s.ps j = none) (f : PsData → PsData) : s.setPs j f = s := by
  unfold Local.ps at h
  unfold Local.setPs
  split
  · rfl
  rename_i sdata hs
  rw [hs] at h
  dsimp only at h
  split at h
  · cases h
  next hps => rw [if_neg hps]

theorem setPs_held {j : ℕ} {ps : PsData} (h : s.ps j = some ps) (f : PsData → PsData) :
    (s.setPs j f).held + ps.bcBuf.length = s.held + (f ps).bcBuf.length := by
  unfold Local.ps at h
  unfold Local.setPs
  split at h
  · cases h
  rename_i sdata hs
  split at h
  next hps =>
    obtain rfl : sdata.ps = ps := Option.some.inj h
    rw [if_pos hps]
    have hps' : ({ sdata with ps := f sdata.ps } : Sdata).hasPs = true := hps
    have := sum_map_set (f := fun sdata => sdata.bcBuf.length)
      (a := { sdata with ps := f sdata.ps }) hs
    simp only [Sdata.bcBuf, hps, hps', if_true] at this
    unfold Local.held
    simp only [Sdata.bcBuf]
    omega
  · cases h

theorem typeOf_setPs (s : Local) (j : ℕ) (f : PsData → PsData) (i : ℕ) :
    (s.setPs j f).typeOf i = s.typeOf i := by
  unfold Local.setPs
  split
  · rfl
  rename_i sdata hs
  split
  · unfold Local.typeOf
    rw [map_set, List.getElem?_set]
    split
    next hij =>
      subst hij
      obtain ⟨hlt, rfl⟩ := List.getElem?_eq_some_iff.mp hs
      simp [hlt]
    · rfl
  · rfl

theorem psOf_setPs (s : Local) (j : ℕ) (f : PsData → PsData) (i : ℕ) :
    (s.setPs j f).psOf i = s.psOf i := by
  unfold Local.psOf
  rw [typeOf_setPs]

theorem Sta.held_eq (sta : Sta) : sta.held = (sta.psTxBuf .vo).length +
    ((sta.psTxBuf .vi).length + ((sta.psTxBuf .be).length + (sta.psTxBuf .bk).length)) := by
  simp [Sta.held, Ac.all]

theorem Sta.setPsTxBuf_held (sta : Sta) (ac : Ac) (q : List Skb) :
    (sta.setPsTxBuf ac q).held + (sta.psTxBuf ac).length = sta.held + q.length := by
  rw [Sta.held_eq, Sta.held_eq]
  cases ac <;> simp [Sta.setPsTxBuf] <;> omega

@[simp] theorem Sta.setTxFiltered_held (sta : Sta) (ac : Ac) (q : List Skb) :
    (sta.setTxFiltered ac q).held = sta.held := rfl

/-! ### Release -/

/-- A release keeps the balance of the station and the counter, and adds no frames. -/
structure Releases (r r' : Release) : Prop where
  balance : r'.total - r'.sta.held = r.total - r.sta.held
  held : r'.sta.held ≤ r.sta.held

theorem Releases.refl (r : Release) : Releases r r := ⟨rfl, le_rfl⟩

theorem Releases.trans {r r' r'' : Release} (h : Releases r r') (h' : Releases r' r'') :
    Releases r r'' :=
  ⟨h'.balance.trans h.balance, h'.held.trans h.held⟩

theorem Releases.shrinks {k : ℕ} {sta : Sta} {r r' : Release} (h : Releases r r')
    (hk : s.staList[k]? = some sta) (hsta : r.sta = sta) (htotal : r.total = s.totalPsBuffered) :
    Shrinks s { s.setSta k r'.sta with totalPsBuffered := r'.total } := by
  have hset := setSta_held hk r'.sta
  have hb := h.balance
  have hle := h.held
  rw [hsta, htotal] at hb
  rw [hsta] at hle
  have e : ({ s.setSta k r'.sta with totalPsBuffered := r'.total } : Local).held =
      (s.setSta k r'.sta).held := rfl
  refine ⟨?_, by omega⟩
  unfold Local.balance
  rw [e]
  dsimp only
  omega

theorem takeFrame_releases (ac : Ac) (r : Release) : Releases r (takeFrame ac r) := by
  unfold takeFrame
  split
  · exact ⟨rfl, le_rfl⟩
  split
  next skb q hq =>
    have := r.sta.setPsTxBuf_held ac q
    rw [hq, length_cons] at this
    refine ⟨?_, ?_⟩
    all_goals
      dsimp only
      omega
  · exact .refl r

theorem collectFrames_releases (go : ℤ → Bool) (ac : Ac) (r : Release) :
    Releases r (collectFrames go ac r) :=
  whileLoop_inv (I := Releases r) (fun _ h _ => h.trans (takeFrame_releases ac _)) _ _ (.refl r)

theorem psGetFrames_releases (ignoredAcs : ℕ) (acs : List Ac) (driverTids : ℕ) (r : Release) :
    Releases r (psGetFrames ignoredAcs acs driverTids r) := by
  induction acs generalizing driverTids r with
  | nil => exact .refl r
  | cons ac acs ih =>
    rw [psGetFrames]
    split
    · exact ih _ _
    dsimp only
    generalize (if r.frames.isEmpty = true then driverTids |||
      (r.sta.driverBufferedTids &&& ac.tids) ||| (r.sta.txqBufferedTids &&& ac.tids)
      else driverTids) = tids
    have hr : Releases r (if tids = 0 then
        collectFrames (fun n => decide (0 < n)) ac r else r) := by
      split
      · exact collectFrames_releases _ ac r
      · exact .refl r
    generalize (if tids = 0 then collectFrames (fun n => decide (0 < n)) ac r else r) = r₁
      at hr ⊢
    split
    · exact hr
    · exact hr.trans (ih _ _)

theorem psDeliverResponse_shrinks (n : ℤ) (ignoredAcs k : ℕ) (s : Local) :
    Shrinks s (psDeliverResponse n ignoredAcs k s) := by
  unfold psDeliverResponse
  split
  · exact .refl s
  next sta hk => exact (psGetFrames_releases _ _ _ _).shrinks hk rfl rfl

theorem deliverPollResponse_shrinks (k : ℕ) (s : Local) : Shrinks s (deliverPollResponse k s) := by
  unfold deliverPollResponse
  split
  · exact .refl s
  · exact psDeliverResponse_shrinks _ _ _ _

theorem deliverUapsd_shrinks (k : ℕ) (s : Local) : Shrinks s (deliverUapsd k s) := by
  unfold deliverUapsd
  split
  · exact .refl s
  · split
    · exact .refl s
    · exact psDeliverResponse_shrinks _ _ _ _

theorem mpsFrameDeliver_shrinks (n : ℤ) (k : ℕ) (s : Local) :
    Shrinks s (mpsFrameDeliver n k s) := by
  have hfold : ∀ (acs : List Ac) (r : Release),
      Releases r (acs.foldl (fun r ac => collectFrames (fun n => decide (n ≠ 0)) ac r) r) := by
    intro acs
    induction acs with
    | nil => exact .refl
    | cons ac acs ih => exact fun r => (collectFrames_releases _ ac r).trans (ih _)
  unfold mpsFrameDeliver
  split
  · exact .refl s
  next sta hk => exact (hfold _ _).shrinks hk rfl rfl

def releaseOf (r : Sta × ℤ) : Release := { sta := r.1, total := r.2 }

theorem expireBuffered_shrinks (expired : Skb → Bool) (k : ℕ) (s : Local) :
    Shrinks s (expireBuffered expired k s) := by
  have hstep : ∀ (r : Sta × ℤ) (ac : Ac),
      Releases (releaseOf r) (releaseOf (expireBufferedAc expired r ac)) := by
    intro r ac
    have hset := (r.1.setTxFiltered ac ((r.1.txFiltered ac).dropWhile expired)).setPsTxBuf_held ac
      ((r.1.psTxBuf ac).dropWhile expired)
    have hle : ((r.1.psTxBuf ac).dropWhile expired).length ≤ (r.1.psTxBuf ac).length :=
      (dropWhile_suffix _).length_le
    rw [Sta.setTxFiltered_held] at hset
    change _ + (r.1.psTxBuf ac).length = _ at hset
    unfold expireBufferedAc releaseOf
    refine ⟨?_, ?_⟩
    all_goals
      dsimp only
      omega
  have hfold : ∀ (acs : List Ac) (r : Sta × ℤ),
      Releases (releaseOf r) (releaseOf (acs.foldl (expireBufferedAc expired) r)) := by
    intro acs
    induction acs with
    | nil => exact fun r => .refl _
    | cons ac acs ih => exact fun r => (hstep r ac).trans (ih _)
  unfold expireBuffered
  split
  · exact .refl s
  rename_i sta hk
  split
  · exact (hfold Ac.all (sta, s.totalPsBuffered)).shrinks hk rfl rfl
  · exact .refl s

theorem setPs_shrinks (s : Local) (j : ℕ) {f : PsData → PsData}
    (hf : ∀ ps, (f ps).bcBuf = ps.bcBuf) : Shrinks s (s.setPs j f) := by
  cases h : s.ps j with
  | none =>
    rw [setPs_of_none h]
    exact .refl s
  | some ps =>
    have hset := setPs_held h f
    rw [hf] at hset
    exact .of_taken (n := 0) (by omega) (by simp)

theorem psDeliverWakeup_shrinks (k : ℕ) (s : Local) : Shrinks s (psDeliverWakeup k s) := by
  unfold psDeliverWakeup
  split
  · exact .refl s
  rename_i sta hk
  split
  · exact .refl s
  rename_i j hj
  generalize he : (⟨sta.sdata, sta.psSta, sta.psDriver, false, fun _ => [], fun _ => [], 0, 0,
    sta.uapsdQueues, sta.maxSp⟩ : Sta) = sta'
  have hzero : sta'.held = 0 := by rw [← he]; rfl
  have hset := setSta_held hk sta'
  have hps := setPs_shrinks (s.setSta k sta') j
    (f := fun ps => { ps with numStaPs := ps.numStaPs - 1 }) fun _ => rfl
  have hbal := hps.balance
  have hheld := hps.held
  refine ⟨?_, ?_⟩
  · unfold Local.balance at hbal ⊢
    rw [addTotal_total, addTotal_held]
    rw [setSta_total] at hbal
    omega
  · rw [addTotal_held]
    omega

/-! ### Group-addressed frames -/

theorem bcLoop_length (fails : Skb → Bool) (q : List Skb) :
    (bcLoop fails q).1.length + (bcLoop fails q).2 = q.length := by
  induction q with
  | nil => rfl
  | cons skb q ih =>
    rw [bcLoop]
    split
    · rw [length_cons]
      dsimp only
      omega
    · rfl

theorem ps_of_hasPs {i : ℕ} {sdata : Sdata} (hi : s.interfaces[i]? = some sdata)
    (h : sdata.hasPs = true) : s.ps i = some sdata.ps := by
  unfold Local.ps
  rw [hi]
  exact if_pos h

theorem getBufferedBc_shrinks (fails : Skb → Bool) (i : ℕ) (s : Local) :
    Shrinks s (getBufferedBc fails i s) := by
  unfold getBufferedBc
  split
  · exact .refl s
  rename_i sdata hi
  split
  · exact .refl s
  rename_i hgate
  have hps : sdata.hasPs = true := by
    by_contra hno
    exact hgate (by simp [Bool.eq_false_iff.mpr hno])
  have hset := setPs_held (ps_of_hasPs hi hps)
    fun ps => { ps with bcBuf := (bcLoop fails ps.bcBuf).1 }
  have hlen := bcLoop_length fails sdata.ps.bcBuf
  dsimp only at hset
  refine .of_taken (n := (bcLoop fails sdata.ps.bcBuf).2) ?_ ?_
  · rw [addTotal_held]
    omega
  · rw [addTotal_total, setPs_total]
    omega

/-! ### Removal -/

theorem cleanupSingleSta_spec (s : Local) (sta : Sta) :
    (cleanupSingleSta s sta).held = s.held ∧
      (∀ i, (cleanupSingleSta s sta).psOf i = s.psOf i) ∧
      (cleanupSingleSta s sta).totalPsBuffered =
        s.totalPsBuffered - if s.strays sta then (0 : ℤ) else sta.held := by
  unfold cleanupSingleSta
  cases hstray : s.strays sta with
  | true => simp
  | false =>
    have hinner : ∀ s₁ : Local, s₁.held = s.held → (∀ i, s₁.psOf i = s.psOf i) →
        s₁.totalPsBuffered = s.totalPsBuffered →
        (s₁.addTotal (-sta.held)).held = s.held ∧
        (∀ i, (s₁.addTotal (-sta.held)).psOf i = s.psOf i) ∧
        (s₁.addTotal (-sta.held)).totalPsBuffered = s.totalPsBuffered - sta.held :=
      fun s₁ hheld hps htotal => ⟨hheld, hps, by rw [addTotal_total, htotal]; rfl⟩
    simp only [Bool.false_eq_true, if_false]
    split
    · split
      · exact hinner s rfl (fun _ => rfl) rfl
      rename_i j hj
      refine hinner _ ?_ (psOf_setPs s j _) (setPs_total s j _)
      cases hps : s.ps j with
      | none => rw [setPs_of_none hps]
      | some ps =>
        have := setPs_held hps fun ps => { ps with numStaPs := ps.numStaPs - 1 }
        dsimp only at this
        omega
    · exact hinner s rfl (fun _ => rfl) rfl

theorem foldl_cleanupSingleSta (stas : List Sta) (h : ∀ sta ∈ stas, s.strays sta = false) :
    (stas.foldl cleanupSingleSta s).held = s.held ∧
      (stas.foldl cleanupSingleSta s).totalPsBuffered =
        s.totalPsBuffered - ((stas.map Sta.held).sum : ℕ) := by
  induction stas generalizing s with
  | nil => simp
  | cons sta stas ih =>
    obtain ⟨hheld, hps, htotal⟩ := cleanupSingleSta_spec s sta
    rw [h sta (.head _)] at htotal
    have hrest : ∀ sta' ∈ stas, (cleanupSingleSta s sta).strays sta' = false := by
      intro sta' hmem
      unfold Local.strays
      rw [hps]
      exact h sta' (.tail _ hmem)
    obtain ⟨hheld', htotal'⟩ := ih hrest
    rw [foldl_cons, hheld', htotal', htotal, map_cons, sum_cons]
    refine ⟨hheld, ?_⟩
    push_cast
    omega

theorem staInfoFlush_shrinks {which : Sta → Bool}
    (h : ∀ sta, which sta = true → s.strays sta = false) : Shrinks s (staInfoFlush which s) := by
  unfold staInfoFlush
  obtain ⟨hheld, htotal⟩ := foldl_cleanupSingleSta
    (s := { s with staList := s.staList.filter fun sta => !which sta })
    (s.staList.filter which) fun sta hmem => h sta (mem_filter.mp hmem).2
  have hsum := sum_map_filter (l := s.staList) (f := Sta.held) which
  refine .of_taken (n := ((s.staList.filter which).map Sta.held).sum) ?_ htotal
  rw [hheld]
  unfold Local.held
  dsimp only
  omega

theorem freeBc_shrinks (i : ℕ) (s : Local) : Shrinks s (freeBc i s) := by
  unfold freeBc
  split
  · exact .refl s
  rename_i ps hps
  have hps' : (s.addTotal (-(ps.bcBuf.length : ℤ))).ps i = some ps := hps
  have hset := setPs_held hps' fun ps => { ps with bcBuf := [] }
  refine .of_taken (n := ps.bcBuf.length) hset ?_
  rw [setPs_total, addTotal_total]
  rfl

theorem not_strays {sta : Sta} {j : ℕ} (h : s.psOf sta.sdata = some j) : s.strays sta = false := by
  simp [Local.strays, h]

theorem stopAp_shrinks (onLink : Sta → Bool) (i : ℕ) (s : Local) :
    Shrinks s (stopAp onLink i s) := by
  refine (staInfoFlush_shrinks fun sta h => ?_).trans (freeBc_shrinks i _)
  rw [Bool.and_eq_true, decide_eq_true_eq] at h
  exact not_strays h.1

theorem psOf_of_type {i : ℕ} (h : s.typeOf i = some .mesh) : s.psOf i = some i := by
  rw [Local.psOf, h]

theorem leaveMesh_shrinks {i : ℕ} (htype : s.typeOf i = some .mesh) :
    Shrinks s (leaveMesh i s) := by
  refine (staInfoFlush_shrinks fun sta h => ?_).trans (freeBc_shrinks i _)
  rw [decide_eq_true_eq] at h
  exact not_strays (h ▸ psOf_of_type htype)

theorem stopApVlan_shrinks {i j : ℕ} (htype : s.typeOf i = some (.apVlan (some j))) :
    Shrinks s (stopApVlan i j s) := by
  have hflush : Shrinks s (staInfoFlush (fun sta => decide (sta.sdata = i)) s) := by
    refine staInfoFlush_shrinks fun sta h => ?_
    rw [decide_eq_true_eq] at h
    refine not_strays (j := j) ?_
    rw [h, Local.psOf, htype]
  unfold stopApVlan
  dsimp only
  split
  · exact hflush
  rename_i ps hps
  refine hflush.trans ?_
  have hset := setPs_held hps
    fun ps => { ps with bcBuf := ps.bcBuf.filter fun skb => skb.dev ≠ i }
  have hlen : (ps.bcBuf.filter fun skb => skb.dev ≠ i).length +
      ps.bcBuf.countP (fun skb => skb.dev = i) = ps.bcBuf.length := by
    have := length_eq_countP_add_countP (l := ps.bcBuf) fun skb => decide (skb.dev = i)
    simp only [countP_eq_length_filter, decide_eq_true_eq, ne_eq] at this ⊢
    omega
  dsimp only at hset
  refine .of_taken (n := ps.bcBuf.countP fun skb => skb.dev = i) ?_ ?_
  · rw [addTotal_held]
    omega
  · rw [addTotal_total, setPs_total]
    rfl

theorem staInfoDestroy_spec {k : ℕ} {sta : Sta} (hk : s.staList[k]? = some sta) :
    (staInfoDestroy k s).balance = s.balance + (if s.strays sta then sta.held else 0 : ℕ) ∧
      (staInfoDestroy k s).held ≤ s.held := by
  unfold staInfoDestroy
  rw [hk]
  dsimp only
  obtain ⟨hheld, -, htotal⟩ :=
    cleanupSingleSta_spec { s with staList := s.staList.eraseIdx k } sta
  have hsum := sum_map_eraseIdx (f := Sta.held) hk
  have hstray : ({ s with staList := s.staList.eraseIdx k } : Local).strays sta = s.strays sta := rfl
  have hlist : ({ s with staList := s.staList.eraseIdx k } : Local).held + sta.held = s.held := by
    unfold Local.held
    dsimp only
    omega
  rw [hstray] at htotal
  refine ⟨?_, by omega⟩
  unfold Local.balance
  rw [hheld, htotal]
  dsimp only
  split <;> omega

/-! ### Buffering -/

theorem length_tail_append {q : List Skb} (skb : Skb) (h : 0 < q.length) :
    (q.tail ++ [skb]).length = q.length := by
  rw [length_append, length_tail, length_singleton]
  omega

theorem bufferSta_spec (k : ℕ) (ac : Ac) (skb : Skb) (s : Local) :
    (bufferSta k ac skb s).balance = s.balance ∧ (bufferSta k ac skb s).held ≤ s.held + 1 := by
  unfold bufferSta
  split
  · exact ⟨rfl, Nat.le_succ _⟩
  rename_i sta hk
  have hset := fun q => setSta_held hk (sta.setPsTxBuf ac q)
  have hq := sta.setPsTxBuf_held ac
  split
  next hfull =>
    have hset := hset ((sta.psTxBuf ac).tail ++ [skb])
    have hq := hq ((sta.psTxBuf ac).tail ++ [skb])
    rw [length_tail_append skb ((by decide : 0 < staMaxTxBuffer).trans_le hfull)] at hq
    refine ⟨?_, by omega⟩
    unfold Local.balance
    rw [setSta_total]
    omega
  · have hset := hset (sta.psTxBuf ac ++ [skb])
    have hq := hq (sta.psTxBuf ac ++ [skb])
    rw [length_append, length_singleton] at hq
    rw [addTotal_held]
    refine ⟨?_, by omega⟩
    unfold Local.balance
    rw [addTotal_held, addTotal_total, setSta_total]
    omega

theorem bufferBc_spec (j : ℕ) (skb : Skb) (s : Local) :
    (bufferBc j skb s).balance = s.balance ∧ (bufferBc j skb s).held ≤ s.held + 1 := by
  unfold bufferBc
  split
  · exact ⟨rfl, Nat.le_succ _⟩
  rename_i ps hps
  split
  next hfull =>
    have hset := setPs_held hps fun ps => { ps with bcBuf := ps.bcBuf.tail ++ [skb] }
    rw [length_tail_append skb ((by decide : 0 < apMaxBcBuffer).trans_le hfull)] at hset
    refine ⟨?_, by omega⟩
    unfold Local.balance
    rw [setPs_total]
    omega
  · have hset := setPs_held hps fun ps => { ps with bcBuf := ps.bcBuf ++ [skb] }
    rw [length_append, length_singleton] at hset
    rw [addTotal_held]
    refine ⟨?_, by omega⟩
    unfold Local.balance
    rw [addTotal_held, addTotal_total, setPs_total]
    omega

/-! ### The purge -/

def Sta.OneAc (sta : Sta) : Prop :=
  ∀ a b, sta.psTxBuf a ≠ [] → sta.psTxBuf b ≠ [] → a = b

theorem forall_ac {p : Ac → Prop} : (∀ ac, p ac) ↔ p .vo ∧ p .vi ∧ p .be ∧ p .bk :=
  ⟨fun h => ⟨h _, h _, h _, h _⟩, fun h ac => by cases ac <;> simp [h]⟩

/-- **The purge of a station** drops one frame and counts the categories it looks at: all that have
frames if and only if there is one at most. -/
theorem Sta.purge_spec (sta : Sta) :
    sta.purge.1.held + min 1 sta.held = sta.held ∧ sta.purge.2 ≤ sta.purge.1.held ∧
      (sta.purge.2 = sta.purge.1.held ↔ sta.OneAc) := by
  simp only [Sta.OneAc, forall_ac, Sta.held_eq]
  cases hbk : sta.psTxBuf .bk with
  | cons a bk =>
    simp [Sta.purge, purgeAcs, Sta.setPsTxBuf, hbk]
    simp only [← length_eq_zero_iff]
    omega
  | nil =>
    cases hbe : sta.psTxBuf .be with
    | cons a be =>
      simp [Sta.purge, purgeAcs, Sta.setPsTxBuf, hbk, hbe]
      simp only [← length_eq_zero_iff]
      omega
    | nil =>
      cases hvi : sta.psTxBuf .vi with
      | cons a vi =>
        simp [Sta.purge, purgeAcs, Sta.setPsTxBuf, hbk, hbe, hvi]
        omega
      | nil =>
        cases hvo : sta.psTxBuf .vo <;>
          simp [Sta.purge, purgeAcs, Sta.setPsTxBuf, hbk, hbe, hvi, hvo]

theorem Sdata.purge_bcBuf (sdata : Sdata) : sdata.purge.bcBuf = sdata.bcBuf.tail := by
  unfold Sdata.purge Sdata.bcBuf
  cases h : sdata.hasPs with
  | false => simp [h]
  | true =>
    have : ({ sdata with ps := { sdata.ps with bcBuf := sdata.ps.bcBuf.tail } } : Sdata).hasPs =
      true := h
    simp [this]

theorem purge_held (s : Local) : (purgeOldPsBuffers s).held =
    (s.interfaces.map fun sdata => sdata.purge.bcBuf.length).sum +
      (s.staList.map fun sta => sta.purge.1.held).sum := by
  simp [Local.held, purgeOldPsBuffers, Function.comp_def]

/-- **Behind the purge** the counter is right if and only if no station has frames in two
categories. -/
theorem balance_purge_iff (s : Local) :
    (purgeOldPsBuffers s).balance = 0 ↔ ∀ sta ∈ s.staList, sta.OneAc := by
  have hsum := (sum_map_le_and_eq_iff (l := s.staList) (f := fun sta => sta.purge.2)
    (g := fun sta => sta.purge.1.held) fun sta _ => sta.purge_spec.2.1).2
  have hone : (∀ sta ∈ s.staList, sta.purge.2 = sta.purge.1.held) ↔
      ∀ sta ∈ s.staList, sta.OneAc :=
    forall₂_congr fun sta _ => sta.purge_spec.2.2
  rw [← hone, ← hsum]
  unfold Local.balance
  rw [purge_held]
  unfold purgeOldPsBuffers
  dsimp only
  omega

theorem purge_held_lt (h : 0 < s.held) : (purgeOldPsBuffers s).held < s.held := by
  have hbc := sum_map_drop_one (l := s.interfaces) (f := fun sdata => sdata.purge.bcBuf.length)
    (g := fun sdata => sdata.bcBuf.length) fun sdata _ => by
      rw [Sdata.purge_bcBuf, length_tail]
      omega
  have hsta := sum_map_drop_one (l := s.staList) (f := fun sta => sta.purge.1.held)
    (g := Sta.held) fun sta _ => sta.purge_spec.1
  rw [purge_held]
  unfold Local.held at h ⊢
  omega

/-! ### Steps -/

/-- The frame passes all the tests of the handler and is to be buffered. -/
def Buffers (hostBuffering : Bool) (i : ℕ) (k : Option ℕ) (f : TxFrame) (s : Local) : Prop :=
  f.psBuffered = false ∧
    if f.unicast then ∃ j, k = some j ∧ staBuffers j f s = true
    else (bcBuffers hostBuffering i f s).isSome = true

theorem txPsBuf_cases (hostBuffering : Bool) (i : ℕ) (k : Option ℕ) (f : TxFrame) (s : Local) :
    (¬ Buffers hostBuffering i k f s ∧ (txPsBuf hostBuffering i k f s).2 = s) ∨
    (Buffers hostBuffering i k f s ∧
      (txPsBuf hostBuffering i k f s).2.balance = (purgeIfFull s).balance ∧
      (txPsBuf hostBuffering i k f s).2.held ≤ (purgeIfFull s).held + 1) := by
  unfold txPsBuf Buffers
  cases hb : f.psBuffered with
  | true => simp
  | false =>
    cases hu : f.unicast with
    | true =>
      simp only [Bool.false_eq_true, if_false, if_true, true_and]
      cases k with
      | none => simp [unicastPsBuf]
      | some k =>
        unfold unicastPsBuf
        dsimp only
        split
        next hbuf => exact .inr ⟨⟨k, rfl, hbuf⟩, bufferSta_spec _ _ _ _⟩
        rename_i hbuf
        refine .inl ⟨?_, rfl⟩
        rintro ⟨j, hj, h⟩
        cases hj
        exact hbuf h
    | false =>
      simp only [Bool.false_eq_true, if_false, true_and]
      unfold multicastPsBuf
      split
      next hbc => exact .inl ⟨by simp [hbc], rfl⟩
      next j hbc => exact .inr ⟨by simp [hbc], bufferBc_spec _ _ _⟩

/-- A purge finds no station with frames in two categories, and no stray station with frames is
destroyed. -/
def StepOk (hostBuffering : Bool) (s : Local) : Action → Prop
  | .tx i k f => Buffers hostBuffering i k f s → totalMaxTxBuffer ≤ s.totalPsBuffered →
      ∀ sta ∈ s.staList, sta.OneAc
  | .destroy k => ∀ sta ∈ s.staList[k]?, s.strays sta = true → sta.held = 0
  | _ => True

theorem accounted_iff (s : Local) :
    Accounted s ↔ s.balance = 0 ∧ (s.held : ℤ) ≤ totalMaxTxBuffer := by
  unfold Local.balance
  constructor
  · rintro ⟨hexact, -, hmost⟩
    omega
  · rintro ⟨hbal, hmost⟩
    exact ⟨by omega, by omega, by omega⟩

theorem Shrinks.accounted (h : Shrinks s s') (hs : Accounted s) : Accounted s' := by
  rw [accounted_iff] at hs ⊢
  have := h.balance
  have := h.held
  omega

theorem txPsBuf_accounted_iff {hostBuffering : Bool} {i : ℕ} {k : Option ℕ} {f : TxFrame}
    (hs : Accounted s) : Accounted (txPsBuf hostBuffering i k f s).2 ↔
      (Buffers hostBuffering i k f s → totalMaxTxBuffer ≤ s.totalPsBuffered →
        ∀ sta ∈ s.staList, sta.OneAc) := by
  have h512 : totalMaxTxBuffer = 512 := rfl
  have hexact := hs.exact
  have hmost := hs.atMost
  obtain ⟨hno, heq⟩ | ⟨hbuf, hbal, hheld⟩ := txPsBuf_cases hostBuffering i k f s
  · rw [heq]
    exact ⟨fun _ hyes => absurd hyes hno, fun _ => hs⟩
  rw [accounted_iff, hbal]
  unfold purgeIfFull at hheld ⊢
  by_cases hfull : totalMaxTxBuffer ≤ s.totalPsBuffered
  · rw [if_pos hfull] at hheld ⊢
    have hlt := purge_held_lt (s := s) (by omega)
    rw [balance_purge_iff]
    exact ⟨fun h _ _ => h.1, fun h => ⟨h hbuf hfull, by omega⟩⟩
  · rw [if_neg hfull] at hheld ⊢
    refine ⟨fun _ _ h => absurd h hfull, fun _ => ⟨?_, by omega⟩⟩
    exact ((accounted_iff s).mp hs).1

theorem staInfoDestroy_accounted_iff {k : ℕ} (hs : Accounted s) :
    Accounted (staInfoDestroy k s) ↔
      ∀ sta ∈ s.staList[k]?, s.strays sta = true → sta.held = 0 := by
  cases hk : s.staList[k]? with
  | none => simp [staInfoDestroy, hk, hs]
  | some sta =>
    obtain ⟨hbal, hheld⟩ := staInfoDestroy_spec hk
    obtain ⟨hzero, hmost⟩ := (accounted_iff s).mp hs
    rw [accounted_iff, hbal, hzero]
    simp only [Option.mem_some_iff, forall_eq']
    constructor
    · rintro ⟨h, -⟩ hstray
      rw [if_pos hstray] at h
      omega
    intro h
    refine ⟨?_, by omega⟩
    split
    next hstray =>
      rw [h hstray]
      rfl
    · rfl

theorem modify_sta_shrinks (s : Local) (k : ℕ) {f : Sta → Sta} (hf : ∀ sta, (f sta).held = sta.held) :
    Shrinks s { s with staList := s.staList.modify k f } := by
  refine .of_taken (n := 0) ?_ (by simp)
  unfold Local.held
  rw [sum_map_modify hf]
  rfl

theorem modify_iface_shrinks (s : Local) (i : ℕ) (chanctx beacon : Bool) :
    Shrinks s { s with interfaces := s.interfaces.modify i fun sdata =>
      { sdata with chanctx := chanctx, beacon := beacon } } := by
  refine .of_taken (n := 0) ?_ (by simp)
  have hsum := sum_map_modify (l := s.interfaces) (k := i) (f := fun sdata => sdata.bcBuf.length)
    (h := fun sdata => { sdata with chanctx := chanctx, beacon := beacon }) fun _ => rfl
  unfold Local.held
  dsimp only
  rw [hsum]
  rfl

theorem psStep_accounted_iff {hostBuffering : Bool} {a : Action} {r : Option TxResult}
    (h : psStep hostBuffering s a = some (r, s')) (hs : Accounted s) :
    Accounted s' ↔ StepOk hostBuffering s a := by
  -- all but two of the calls keep the account always
  have hshrinks : Shrinks s s' → (Accounted s' ↔ True) := fun hsh =>
    iff_true_intro (hsh.accounted hs)
  cases a with
  | tx i k f =>
    cases h
    exact txPsBuf_accounted_iff hs
  | destroy k =>
    cases h
    exact staInfoDestroy_accounted_iff hs
  | expire expired k =>
    cases h
    exact hshrinks (expireBuffered_shrinks expired k s)
  | pollResponse k =>
    cases h
    exact hshrinks (deliverPollResponse_shrinks k s)
  | uapsd k =>
    cases h
    exact hshrinks (deliverUapsd_shrinks k s)
  | meshDeliver n k =>
    cases h
    exact hshrinks (mpsFrameDeliver_shrinks n k s)
  | wakeup k =>
    cases h
    exact hshrinks (psDeliverWakeup_shrinks k s)
  | getBc fails i =>
    cases h
    exact hshrinks (getBufferedBc_shrinks fails i s)
  | stopAp onLink i =>
    simp only [psStep] at h
    split at h <;> cases h
    exact hshrinks (stopAp_shrinks onLink i s)
  | leaveMesh i =>
    simp only [psStep] at h
    split at h <;> cases h
    next htype => exact hshrinks (leaveMesh_shrinks htype)
  | stopApVlan i =>
    simp only [psStep] at h
    split at h <;> cases h
    next j htype => exact hshrinks (stopApVlan_shrinks htype)
  | addSta sdata uapsdQueues maxSp =>
    cases h
    refine hshrinks (.of_taken (n := 0) ?_ (by simp))
    simp [Local.held, Sta.held, Ac.all]
  | setStaFlags k psSta psDriver psDeliver driverTids txqTids | filtered k ac skb =>
    cases h
    exact hshrinks (modify_sta_shrinks s k fun _ => rfl)
  | setPsData i numStaPs dtimCount dtimBcMc =>
    cases h
    exact hshrinks (setPs_shrinks s i fun _ => rfl)
  | setIface i chanctx beacon =>
    cases h
    exact hshrinks (modify_iface_shrinks s i chanctx beacon)

/-! ### Runs -/

structure Empty (s : Local) : Prop where
  total : s.totalPsBuffered = 0
  held : s.held = 0

theorem Empty.accounted (h : Empty s) : Accounted s := by
  rw [accounted_iff]
  unfold Local.balance
  rw [h.total, h.held]
  decide

/-- **Accounting of the buffered frames.**  The counter is the number of frames in the queues, not
negative and not above its limit, in every state if and only if every step meets the condition. -/
theorem ps_accounting_iff {hostBuffering : Bool} {ls : List (Label Local Action (Option TxResult))}
    (hempty : Empty s) (hrun : Run (psStep hostBuffering) s ls s') :
    (∀ l ∈ ls, Accounted l.post) ↔ ∀ l ∈ ls, StepOk hostBuffering l.pre l.act := by
  have hs := hempty.accounted
  clear hempty
  induction hrun with
  | nil s => simp
  | @cons s s₁ s₂ a b ls hstep _ ih =>
    have hiff := psStep_accounted_iff hstep hs
    simp only [forall_mem_cons]
    constructor
    · rintro ⟨h₁, h⟩
      exact ⟨hiff.mp h₁, (ih h₁).mp h⟩
    · rintro ⟨hok, h⟩
      have h₁ := hiff.mpr hok
      exact ⟨h₁, (ih h₁).mpr h⟩

def twoAsleep : Local where
  interfaces := [{ type := .ap }]
  staList := [{ sdata := 0, psSta := true }, { sdata := 0, psSta := true }]
  totalPsBuffered := 0

def sendTo (k : ℕ) (ac : Ac) : Action := .tx 0 (some k) { skb := { id := 0 }, ac := ac }

theorem twoAsleep_empty : Empty twoAsleep := ⟨rfl, rfl⟩

/-- Frames for both stations; one polls, the other one wakes up. -/
theorem ps_accounting_iff_polled :
    ∃ ls s', execute (psStep true) twoAsleep
        [sendTo 0 .be, sendTo 0 .vo, sendTo 1 .bk, .pollResponse 0, .wakeup 1] = some (ls, s') ∧
      s'.totalPsBuffered = 1 ∧ s'.held = 1 ∧
      ((∀ l ∈ ls, Accounted l.post) ↔ ∀ l ∈ ls, StepOk true l.pre l.act) :=
  exists_execute rfl fun hrun => ⟨rfl, rfl, ps_accounting_iff twoAsleep_empty hrun⟩

def fillAll : List Action :=
  [0, 1].flatMap fun k => Ac.all.flatMap fun ac => List.replicate 64 (sendTo k ac)

/-- A station on an interface without power-save data that is kept from waking up
(`ieee80211_sta_block_awake`). -/
def straySta : Local where
  interfaces := [{ type := .other }]
  staList := [{ sdata := 0, psDriver := true }]
  totalPsBuffered := 0

def tally (s : Local) (actions : List Action) : Option (ℤ × ℕ) :=
  (execute (psStep true) s actions).map fun r => (r.2.totalPsBuffered, r.2.held)

theorem not_accounted_of_tally {actions : List Action} {n : ℤ} {m : ℕ}
    (h : tally s actions = some (n, m)) (hne : n ≠ m) :
    ∃ ls s', execute (psStep true) s actions = some (ls, s') ∧ ¬ Accounted s' := by
  obtain ⟨⟨ls, s'⟩, hrun, heq⟩ := Option.map_eq_some_iff.mp h
  refine ⟨ls, s', hrun, fun hacc => hne ?_⟩
  rw [← (Prod.mk.inj heq).1, ← (Prod.mk.inj heq).2]
  exact hacc.exact

/-- With 512 frames the next one has the buffers purged: the counter is then 127 with 511 frames,
and -384 when both stations have been woken up.  The frame of a stray station stays on the counter
when the station is destroyed. -/
theorem purge_miscounts :
    tally twoAsleep fillAll = some (512, 512) ∧
    tally twoAsleep (fillAll ++ [sendTo 0 .bk]) = some (127, 511) ∧
    tally twoAsleep (fillAll ++ [sendTo 0 .bk, .wakeup 0, .wakeup 1]) = some (-384, 0) ∧
    (∃ ls s', execute (psStep true) twoAsleep (fillAll ++ [sendTo 0 .bk]) = some (ls, s') ∧
      ¬ Accounted s') ∧
    tally straySta [sendTo 0 .be, .destroy 0] = some (1, 0) := by
  have hpurged : tally twoAsleep (fillAll ++ [sendTo 0 .bk]) = some (127, 511) := by
    decide +kernel
  exact ⟨by decide +kernel, hpurged, by decide +kernel, not_accounted_of_tally hpurged (by decide),
    rfl⟩

end Iwlwifi.Ieee80211.PsBuf
