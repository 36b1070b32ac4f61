import Iwlwifi.Header
import Iwlwifi.Transition

/-! # Duplicate detection and replay protection of the drivers

A model of the two checks that the drivers make on frames that the hardware has decrypted
(`iwl_mld_is_dup` and `iwl_mld_check_pn` of `mld/rx.c`, `iwl_mvm_is_dup` and `iwl_mvm_check_pn` of
`mvm/rxmq.c`), for the frames of one station on one RX queue.

* **Frames** (`Frame`).  The header fields that are read, the packet number (PN), and what the
  hardware says: it has split A-MSDUs, and the subframes have the PN of their MPDU.
* **Duplicates** (`isDup`).  The sequence number and the subframe of the last frame are kept for
  every TID; a later subframe of the same sequence number may have the same PN.
* **Packet numbers** (`checkPn`).  A PN must be larger than the last one, unless it may be the same.
* **Runs** (`step`).  A frame that passes both checks is delivered.

A frame that the second check drops has already changed the state of the first one, and the
subframes behind it may then have the same PN: repeating the A-MSDU that was delivered last delivers
its last subframe again (`replay_protection`). -/

namespace Iwlwifi.RxReplay

open Ieee80211 Function List

/-! ### The checks -/

structure Frame where
  /-- `hdr->frame_control` -/
  fc : ℕ
  addr1 : List UInt8
  /-- `ieee80211_get_tid` -/
  tid : ℕ
  seqCtrl : ℕ
  /-- `extiv[3] >> 6` -/
  keyidx : ℕ
  pn : ℕ
  /-- `amsdu_info & IWL_RX_MPDU_AMSDU_SUBFRAME_IDX_MASK` -/
  subFrameIdx : ℕ
  /-- `mac_flags2 & IWL_RX_MPDU_MFLG2_AMSDU` -/
  amsdu : Bool
  /-- `RX_FLAG_DECRYPTED` -/
  decrypted : Bool
deriving DecidableEq, Repr

/-- `IWL_MAX_TID_COUNT`. -/
def maxTidCount : ℕ := 8

/-- `ieee80211_is_any_nullfunc`. -/
def isAnyNullfunc (fc : ℕ) : Bool := fc &&& 0x00fc == 0x0048 || fc &&& 0x00fc == 0x00c8

/-- `ieee80211_has_retry`. -/
def hasRetry (fc : ℕ) : Bool := fc &&& 0x0800 != 0

/-- `struct iwl_mld_rxq_dup_data` and `struct iwl_mvm_rxq_dup_data`. -/
structure DupData where
  lastSeq : ℕ → ℕ
  lastSubFrame : ℕ → ℕ

/-- What duplicate detection returns, whether it sets `RX_FLAG_ALLOW_SAME_PN`, and its state. -/
structure DupResult where
  dup : Bool
  allowSamePn : Bool
  data : DupData

def dupTid (f : Frame) : ℕ := if isDataQos f.fc then f.tid else maxTidCount

/-- A retransmission of the last frame, or of a subframe before it. -/
def retransmitted (data : DupData) (f : Frame) : Bool :=
  hasRetry f.fc && data.lastSeq (dupTid f) == f.seqCtrl &&
    decide (f.subFrameIdx ≤ data.lastSubFrame (dupTid f))

/-- Duplicate detection.  A subframe index of a frame that is not marked as an A-MSDU is dropped by
one driver (`checkAmsdu`), and does not allow the same PN in the other (`needAmsdu`). -/
def isDup (checkAmsdu needAmsdu : Bool) (data : DupData) (f : Frame) : DupResult :=
  if isCtl f.fc || isAnyNullfunc f.fc || isMulticastEtherAddr f.addr1 then ⟨false, false, data⟩
  else if isDataQos f.fc && decide (maxTidCount ≤ f.tid) then ⟨true, false, data⟩
  else
    let tid := dupTid f
    if checkAmsdu && decide (0 < f.subFrameIdx) && !f.amsdu then ⟨true, false, data⟩
    else if retransmitted data f then ⟨true, false, data⟩
    else
      let allowSamePn := data.lastSeq tid == f.seqCtrl &&
        decide (data.lastSubFrame tid < f.subFrameIdx) && (!needAmsdu || f.amsdu)
      ⟨false, allowSamePn, update data.lastSeq tid f.seqCtrl,
        update data.lastSubFrame tid f.subFrameIdx⟩

/-- `iwl_mld_is_dup`. -/
def mldIsDup (data : DupData) (f : Frame) : DupResult := isDup true false data f

/-- `iwl_mvm_is_dup`. -/
def mvmIsDup (data : DupData) (f : Frame) : DupResult := isDup false true data f

/-- `ptk_pn` of a station for one queue: the PNs by key and TID. -/
abbrev PtkPn := ℕ → Option (ℕ → ℕ)

def pnTid (f : Frame) : ℕ := if isDataQos f.fc then f.tid else 0

/-- The comparison with the last PN.  `none` stands for `-1`. -/
def comparePn (ptkPn : PtkPn) (f : Frame) (allowSamePn : Bool) : Option PtkPn :=
  match ptkPn f.keyidx with
  | none => none
  | some pns =>
    let tid := pnTid f
    if maxTidCount ≤ tid then none
    else if f.pn < pns tid then none
    else if f.pn = pns tid ∧ allowSamePn = false then none
    else some (update ptkPn f.keyidx (some (update pns tid f.pn)))

/-- `iwl_mld_check_pn`. -/
def mldCheckPn (queue : ℕ) (ptkPn : PtkPn) (f : Frame) (allowSamePn : Bool) : Option PtkPn :=
  if queue = 0 ∨ isData f.fc = false ∨ isMulticastEtherAddr f.addr1 = true then some ptkPn
  else if !f.decrypted then some ptkPn
  else comparePn ptkPn f allowSamePn

/-- `iwl_mvm_check_pn`. -/
def mvmCheckPn (queue : ℕ) (ptkPn : PtkPn) (f : Frame) (allowSamePn : Bool) : Option PtkPn :=
  if isData f.fc = false ∨ isMulticastEtherAddr f.addr1 = true then some ptkPn
  else if !f.decrypted then some ptkPn
  else if queue = 0 then some ptkPn
  else comparePn ptkPn f allowSamePn

/-! ### Runs -/

inductive Driver
  | mld
  | mvm
deriving DecidableEq, Repr

def Driver.isDup : Driver → DupData → Frame → DupResult
  | mld => mldIsDup
  | mvm => mvmIsDup

def Driver.checkPn : Driver → ℕ → PtkPn → Frame → Bool → Option PtkPn
  | mld => mldCheckPn
  | mvm => mvmCheckPn

structure State where
  dup : DupData
  ptkPn : PtkPn

/-- A frame goes through both checks; the PN and the subframe of a delivered one are the output. -/
def receive (drv : Driver) (queue : ℕ) (s : State) (f : Frame) : Option (ℕ × ℕ) × State :=
  let r := drv.isDup s.dup f
  if r.dup then (none, { s with dup := r.data })
  else
    match drv.checkPn queue s.ptkPn f r.allowSamePn with
    | none => (none, { s with dup := r.data })
    | some ptkPn => (some (f.pn, f.subFrameIdx), ⟨r.data, ptkPn⟩)

def step (drv : Driver) (queue : ℕ) (s : State) (f : Frame) :
    Option (Option (ℕ × ℕ) × State) :=
  some (receive drv queue s f)

/-- A unicast data frame that the hardware has decrypted with this key, of this TID. -/
structure InFlow (key tid : ℕ) (f : Frame) : Prop where
  data : isData f.fc = true
  unicast : isMulticastEtherAddr f.addr1 = false
  decrypted : f.decrypted = true
  key : f.keyidx = key
  tid : pnTid f = tid
  amsdu : 0 < f.subFrameIdx → f.amsdu = true ∧ isDataQos f.fc = true ∧ isAnyNullfunc f.fc = false

/-! ### One frame -/

section frame
variable {drv : Driver} {queue key tid : ℕ} {s : State} {f : Frame} {pns : ℕ → ℕ}

theorem Driver.exists_isDup (drv : Driver) : ∃ c n, drv.isDup = RxReplay.isDup c n := by
  cases drv
  · exact ⟨_, _, rfl⟩
  · exact ⟨_, _, rfl⟩

theorem isCtl_of_isData {fc : ℕ} (h : isData fc = true) : isCtl fc = false := by
  simp only [isData, isCtl, beq_iff_eq] at h ⊢
  rw [h]
  rfl

theorem checkPn_of_inFlow (hf : InFlow key tid f) (hq : queue ≠ 0) (allow : Bool) :
    drv.checkPn queue s.ptkPn f allow = comparePn s.ptkPn f allow := by
  cases drv
  · simp [Driver.checkPn, mldCheckPn, hf.data, hf.unicast, hf.decrypted, hq]
  · simp [Driver.checkPn, mvmCheckPn, hf.data, hf.unicast, hf.decrypted, hq]

theorem data_of_dup (h : (drv.isDup s.dup f).dup = true) : (drv.isDup s.dup f).data = s.dup := by
  obtain ⟨c, n, hdrv⟩ := drv.exists_isDup
  rw [hdrv] at h ⊢
  unfold isDup at h ⊢
  split
  · rfl
  split
  · rfl
  split
  · rfl
  split
  · rfl
  · simp_all

theorem InFlow.dupTid_eq (hf : InFlow key tid f) (hqos : isDataQos f.fc = true) :
    dupTid f = tid := by
  rw [← hf.tid, dupTid, pnTid, if_pos hqos, if_pos hqos]

theorem isDup_spec (hf : InFlow key tid f) (hdup : (drv.isDup s.dup f).dup = false) :
    ((drv.isDup s.dup f).data.lastSubFrame tid = s.dup.lastSubFrame tid ∧ f.subFrameIdx = 0 ∨
      (drv.isDup s.dup f).data.lastSubFrame tid = f.subFrameIdx ∧ dupTid f = tid ∧
        retransmitted s.dup f = false) ∧
    ((drv.isDup s.dup f).allowSamePn = true → s.dup.lastSubFrame tid < f.subFrameIdx) := by
  obtain ⟨c, n, hdrv⟩ := drv.exists_isDup
  rw [hdrv] at hdup ⊢
  unfold isDup at hdup ⊢
  split
  -- only null data frames are left out, and they are no subframes
  next hskip =>
    refine ⟨.inl ⟨rfl, ?_⟩, nofun⟩
    by_contra hne
    rw [isCtl_of_isData hf.data, (hf.amsdu (by omega)).2.2, hf.unicast] at hskip
    cases hskip
  rename_i hskip
  split
  · simp_all
  rename_i htid
  split
  · simp_all
  rename_i hcheck
  split
  · simp_all
  rename_i hretry
  dsimp only
  refine ⟨?_, ?_⟩
  · by_cases htid : dupTid f = tid
    · exact .inr ⟨by rw [htid, update_self], htid, by simpa using hretry⟩
    · refine .inl ⟨update_of_ne (Ne.symm htid) .., ?_⟩
      by_contra hne
      exact htid (hf.dupTid_eq (hf.amsdu (by omega)).2.1)
  intro hallow
  simp only [Bool.and_eq_true, decide_eq_true_eq] at hallow
  have hpos : 0 < f.subFrameIdx := by omega
  rw [← hf.dupTid_eq (hf.amsdu hpos).2.1]
  exact hallow.1.2

theorem receive_eq (drv : Driver) (hq : queue ≠ 0) (htid : tid < maxTidCount)
    (hf : InFlow key tid f) (hpns : s.ptkPn key = some pns) :
    receive drv queue s f =
      if (drv.isDup s.dup f).dup then (none, s)
      else if f.pn < pns tid ∨ (f.pn = pns tid ∧ (drv.isDup s.dup f).allowSamePn = false) then
        (none, { s with dup := (drv.isDup s.dup f).data })
      else (some (f.pn, f.subFrameIdx), ⟨(drv.isDup s.dup f).data,
        update s.ptkPn key (some (update pns tid f.pn))⟩) := by
  unfold receive
  dsimp only
  split
  next hdup => rw [data_of_dup hdup]
  rw [checkPn_of_inFlow hf hq, comparePn, hf.key, hpns]
  dsimp only
  rw [hf.tid, if_neg (by omega)]
  by_cases hlt : f.pn < pns tid
  · rw [if_pos hlt, if_pos (.inl hlt)]
  rw [if_neg hlt]
  by_cases hsame : f.pn = pns tid ∧ (drv.isDup s.dup f).allowSamePn = false
  · rw [if_pos hsame, if_pos (.inr hsame)]
  · rw [if_neg hsame, if_neg (by tauto)]

def State.lastPn (key tid : ℕ) (s : State) (p : ℕ) : Prop :=
  ∃ pns, s.ptkPn key = some pns ∧ pns tid = p

/-- **A frame of the flow** is delivered with a PN that is not below the last one, or the last PN
stays. -/
theorem receive_lastPn {o : Option (ℕ × ℕ)} {s' : State} (hr : receive drv queue s f = (o, s'))
    (hq : queue ≠ 0) (htid : tid < maxTidCount) (hf : InFlow key tid f) {p : ℕ}
    (hp : s.lastPn key tid p) :
    o = none ∧ s'.lastPn key tid p ∨
      o = some (f.pn, f.subFrameIdx) ∧ p ≤ f.pn ∧ s'.lastPn key tid f.pn := by
  obtain ⟨pns, hpns, rfl⟩ := hp
  rw [receive_eq drv hq htid hf hpns] at hr
  split at hr
  · cases hr
    exact .inl ⟨rfl, pns, hpns, rfl⟩
  split at hr
  · cases hr
    exact .inl ⟨rfl, pns, hpns, rfl⟩
  next hold =>
    cases hr
    exact .inr ⟨rfl, by omega, _, update_self .., update_self ..⟩

end frame

/-! ### Runs -/

section runs
variable {drv : Driver} {queue key tid : ℕ} {s s' : State}
  {ls : List (Label State Frame (Option (ℕ × ℕ)))}

def delivered (ls : List (Label State Frame (Option (ℕ × ℕ)))) : List (ℕ × ℕ) :=
  ls.filterMap Label.out

/-- **The condition**: a frame without a new PN is a retransmission or no earlier subframe than the
last one. -/
def Fresh (key tid : ℕ) (s : State) (f : Frame) : Prop :=
  s.dup.lastSubFrame (dupTid f) ≤ f.subFrameIdx ∨ retransmitted s.dup f = true ∨
    ∀ p, s.lastPn key tid p → p < f.pn

/-- What has been delivered so far, `out`, is known to the two checks. -/
structure Inv (key tid : ℕ) (s : State) (out : List (ℕ × ℕ)) : Prop where
  nodup : out.Nodup
  pn : ∃ p, s.lastPn key tid p ∧
    ∀ x ∈ out, x.1 ≤ p ∧ (x.1 = p → x.2 = 0 ∨ x.2 ≤ s.dup.lastSubFrame tid)

theorem Inv.deliver {out : List (ℕ × ℕ)} {p : ℕ} {s s' : State} {x : ℕ × ℕ} (hnodup : out.Nodup)
    (hout : ∀ x ∈ out, x.1 ≤ p ∧ (x.1 = p → x.2 = 0 ∨ x.2 ≤ s.dup.lastSubFrame tid))
    (hnew : p < x.1 ∨ x.1 = p ∧ s.dup.lastSubFrame tid < x.2)
    (hsub : x.2 = 0 ∨ s'.dup.lastSubFrame tid = x.2) (hp : s'.lastPn key tid x.1) :
    Inv key tid s' (out ++ [x]) := by
  have hnotin : x ∉ out := by
    intro hmem
    have := hout x hmem
    omega
  refine ⟨?_, x.1, hp, ?_⟩
  · rw [nodup_append]
    refine ⟨hnodup, by simp, ?_⟩
    rintro y hy z hz rfl
    obtain rfl : y = x := by simpa using hz
    exact hnotin hy
  intro y hy
  cases mem_append.mp hy with
  | inl hy =>
    have := hout y hy
    omega
  | inr hy =>
    obtain rfl : y = x := by simpa using hy
    omega

theorem Inv.receive {f : Frame} {out : List (ℕ × ℕ)} (drv : Driver) (h : Inv key tid s out)
    (hq : queue ≠ 0) (htid : tid < maxTidCount) (hf : InFlow key tid f)
    (hfresh : Fresh key tid s f) :
    Inv key tid (RxReplay.receive drv queue s f).2
      (out ++ (RxReplay.receive drv queue s f).1.toList) := by
  obtain ⟨p, ⟨pns, hpns, rfl⟩, hout⟩ := h.pn
  rw [receive_eq drv hq htid hf hpns]
  split
  · simpa using h
  rename_i hdup
  obtain ⟨hsub, hallow⟩ := isDup_spec hf (by simpa using hdup)
  split
  -- the PN check drops it: the subframe that is remembered has not become smaller
  next hold =>
    simp only [Option.toList_none, append_nil]
    refine ⟨h.nodup, _, ⟨pns, hpns, rfl⟩, ?_⟩
    have hle : s.dup.lastSubFrame tid ≤ (drv.isDup s.dup f).data.lastSubFrame tid := by
      obtain ⟨hkeep, -⟩ | ⟨hset, hdupTid, hretry⟩ := hsub
      · exact hkeep.ge
      obtain hge | hyes | hnew := hfresh
      · rwa [hset, ← hdupTid]
      · rw [hretry] at hyes
        cases hyes
      · have := hnew _ ⟨pns, hpns, rfl⟩
        omega
    intro x hx
    obtain ⟨hxle, hsame⟩ := hout x hx
    refine ⟨hxle, fun heq => ?_⟩
    dsimp only
    omega
  next hnew =>
    refine Inv.deliver h.nodup hout ?_ (by dsimp only; omega)
      ⟨_, update_self .., update_self ..⟩
    by_cases hlt : pns tid < f.pn
    · exact .inl hlt
    · refine .inr ⟨by omega, hallow ?_⟩
      by_contra hno
      exact hnew (.inr ⟨by omega, by simpa using hno⟩)

section
variable (hq : queue ≠ 0) (htid : tid < maxTidCount)
include hq htid

theorem run_inv (hrun : Run (step drv queue) s ls s') :
    ∀ out, Inv key tid s out → (∀ l ∈ ls, InFlow key tid l.act) →
      (∀ l ∈ ls, Fresh key tid l.pre l.act) → Inv key tid s' (out ++ delivered ls) := by
  induction hrun with
  | nil s =>
    intro out h _ _
    simpa [delivered] using h
  | @cons s s₁ s₂ f o ls hs _ ih =>
    intro out h hflow hfresh
    have hstep : receive drv queue s f = (o, s₁) := Option.some.inj hs
    have hinv := h.receive drv hq htid (hflow _ (.head _))
      (hfresh _ (.head _))
    rw [hstep] at hinv
    have hrest := ih _ hinv (fun l hl => hflow l (.tail _ hl))
      (fun l hl => hfresh l (.tail _ hl))
    cases o with
    | none | some x => simpa [delivered] using hrest

theorem run_sorted (hrun : Run (step drv queue) s ls s') {p : ℕ} (hp : s.lastPn key tid p)
    (hflow : ∀ l ∈ ls, InFlow key tid l.act) :
    ((delivered ls).map Prod.fst).Pairwise (· ≤ ·) := by
  have hstep : ∀ s f o s₁ p, step drv queue s f = some (o, s₁) → InFlow key tid f →
      s.lastPn key tid p → ∃ p', s₁.lastPn key tid p' ∧ p ≤ p' ∧
        (o.map Prod.fst).toList.Pairwise (· ≤ ·) ∧ ∀ x ∈ (o.map Prod.fst).toList, p ≤ x ∧ x ≤ p' := by
    intro s f o s₁ p hs hf hp
    obtain ⟨rfl, hp₁⟩ | ⟨rfl, hle, hp₁⟩ := receive_lastPn (Option.some.inj hs) hq htid hf hp
    · exact ⟨p, hp₁, le_rfl, by simp, by simp⟩
    · exact ⟨f.pn, hp₁, hle, by simp, by simpa using hle⟩
  have hsorted := (hrun.sorted (I := fun s p => s.lastPn key tid p)
    (C := fun l => InFlow key tid l.act) (fun l => (l.out.map Prod.fst).toList) hstep hflow hp).1
  rw [← filterMap_eq_flatMap_toList] at hsorted
  rwa [delivered, map_filterMap]

theorem lastPn_of_delivered {f : Frame} {x : ℕ × ℕ} (hs : step drv queue s f = some (some x, s'))
    (hf : InFlow key tid f) {p : ℕ} (hp : s.lastPn key tid p) :
    x = (f.pn, f.subFrameIdx) ∧ s'.lastPn key tid f.pn := by
  obtain ⟨hnone, -⟩ | ⟨hsome, -, hp'⟩ := receive_lastPn (Option.some.inj hs) hq htid hf hp
  · cases hnone
  · exact ⟨Option.some.inj hsome, hp'⟩

theorem run_lastPn (hrun : Run (step drv queue) s ls s') {p : ℕ} (hp : s.lastPn key tid p)
    (hflow : ∀ l ∈ ls, InFlow key tid l.act) : ∃ p, s'.lastPn key tid p := by
  have hkeep : ∀ s f o s₁, step drv queue s f = some (o, s₁) → InFlow key tid f →
      (∃ p, s.lastPn key tid p) → ∃ p, s₁.lastPn key tid p := by
    rintro s f o s₁ hs hf ⟨p, hp⟩
    obtain ⟨-, hp₁⟩ | ⟨-, -, hp₁⟩ := receive_lastPn (Option.some.inj hs) hq htid hf hp
    · exact ⟨_, hp₁⟩
    · exact ⟨_, hp₁⟩
  exact (hrun.induct (C := fun l => InFlow key tid l.act) hkeep hflow ⟨p, hp⟩).1

end

end runs

/-! ### Repeated A-MSDUs -/

section attack
variable {drv : Driver} {queue key tid : ℕ} {s s' : State} {f : Frame}

/-- Subframe `i` of the A-MSDU that `f` is from, sent again without the Retry bit and with another
sequence number.  Neither is authenticated. -/
def repeated (f : Frame) (seqCtrl i : ℕ) : Frame :=
  { f with fc := f.fc &&& 0xf7ff, seqCtrl := seqCtrl, subFrameIdx := i }

theorem fc_repeated (fc : ℕ) {m : ℕ} (h : 0xf7ff &&& m = m) : fc &&& 0xf7ff &&& m = fc &&& m := by
  rw [Nat.and_assoc, h]

theorem InFlow.repeated (hf : InFlow key tid f) (hpos : 0 < f.subFrameIdx) (q i : ℕ) :
    InFlow key tid (repeated f q i) := by
  obtain ⟨hamsdu, hqos, hnull⟩ := hf.amsdu hpos
  have hqos' : isDataQos (f.fc &&& 0xf7ff) = true := by
    rwa [isDataQos, fc_repeated f.fc (by decide)]
  have hnull' : isAnyNullfunc (f.fc &&& 0xf7ff) = false := by
    rwa [isAnyNullfunc, fc_repeated f.fc (by decide)]
  refine ⟨?_, hf.unicast, hf.decrypted, hf.key, ?_, fun _ => ⟨hamsdu, hqos', hnull'⟩⟩
  · rw [RxReplay.repeated, isData, ftype, fc_repeated f.fc (by decide)]
    exact hf.data
  · have htid := hf.tid
    rw [pnTid, if_pos hqos] at htid
    exact (if_pos hqos').trans htid

theorem isDup_repeated (drv : Driver) (hf : InFlow key tid f) (htid : tid < maxTidCount)
    (hpos : 0 < f.subFrameIdx) (data : DupData) (q i : ℕ) :
    drv.isDup data (repeated f q i) =
      ⟨false, data.lastSeq tid == q && decide (data.lastSubFrame tid < i),
        update data.lastSeq tid q, update data.lastSubFrame tid i⟩ := by
  have hg := hf.repeated hpos q i
  obtain ⟨hamsdu, hqos, hnull⟩ := hf.amsdu hpos
  have hqos' : isDataQos (repeated f q i).fc = true := by
    rwa [repeated, isDataQos, fc_repeated f.fc (by decide)]
  have hnull' : isAnyNullfunc (repeated f q i).fc = false := by
    rwa [repeated, isAnyNullfunc, fc_repeated f.fc (by decide)]
  have hretry : hasRetry (repeated f q i).fc = false := by
    rw [repeated, hasRetry, Nat.and_assoc]
    simp
  have hdupTid := hg.dupTid_eq hqos'
  have hlow : ¬maxTidCount ≤ (repeated f q i).tid := by
    have := hdupTid
    rw [dupTid, if_pos hqos'] at this
    omega
  have hamsdu' : (repeated f q i).amsdu = true := hamsdu
  have hseq : (repeated f q i).seqCtrl = q := rfl
  have hidx : (repeated f q i).subFrameIdx = i := rfl
  have heq : ∀ c n, isDup c n data (repeated f q i) = ⟨false, data.lastSeq tid == q &&
      decide (data.lastSubFrame tid < i), update data.lastSeq tid q,
      update data.lastSubFrame tid i⟩ := by
    intro c n
    simp [isDup, retransmitted, isCtl_of_isData hg.data, hnull', hg.unicast, hlow, hamsdu', hretry,
      hdupTid, hseq, hidx]
  obtain ⟨c, n, hdrv⟩ := drv.exists_isDup
  rw [hdrv, heq]

/-- **Repeating an A-MSDU** with the last PN: all subframes but the first are delivered. -/
theorem run_repeated (drv : Driver) (hq : queue ≠ 0) (htid : tid < maxTidCount)
    (hf : InFlow key tid f) (hpos : 0 < f.subFrameIdx) (hp : s.lastPn key tid f.pn) (q n : ℕ) :
    ∃ ls s', Run (step drv queue) s ls s' ∧
      ls.map Label.act = (List.range (n + 1)).map (repeated f q) ∧
      delivered ls = (List.range n).map (fun i => (f.pn, i + 1)) ∧
      s'.lastPn key tid f.pn ∧ s'.dup.lastSeq tid = q ∧ s'.dup.lastSubFrame tid = n := by
  induction n with
  | zero =>
    obtain ⟨pns, hpns, hpn⟩ := hp
    have hrec := receive_eq drv hq htid (hf.repeated hpos q 0) hpns
    rw [isDup_repeated drv hf htid hpos] at hrec
    have hsame : (repeated f q 0).pn = pns tid := hpn.symm
    simp only [Bool.false_eq_true, if_false, hsame, Nat.not_lt_zero, decide_false, Bool.and_false,
      and_self, or_true, if_true] at hrec
    refine ⟨_, _, .cons (congrArg some hrec) (.nil _), rfl, rfl, ⟨pns, hpns, hpn⟩, ?_, ?_⟩
    all_goals exact update_self ..
  | succ n ih =>
    obtain ⟨ls, s₁, hrun, hacts, hout, ⟨pns, hpns, hpn⟩, hseq, hsub⟩ := ih
    have hrec := receive_eq drv hq htid (hf.repeated hpos q (n + 1)) hpns
    rw [isDup_repeated drv hf htid hpos] at hrec
    have hsame : (repeated f q (n + 1)).pn = pns tid := hpn.symm
    simp only [Bool.false_eq_true, if_false, hsame, hseq, hsub, lt_irrefl, beq_self_eq_true,
      Nat.lt_add_one, decide_true, Bool.and_true, Bool.true_eq_false, and_false, or_self] at hrec
    refine ⟨_, _, hrun.concat (congrArg some hrec), ?_, ?_, ⟨_, update_self .., ?_⟩,
      ?_, ?_⟩
    · rw [map_append, hacts, range_succ (n := n + 1), map_append]
      rfl
    · rw [delivered, filterMap_append, ← delivered, hout, range_succ, map_append]
      simp [hpn, repeated]
    · rwa [update_self]
    all_goals exact update_self ..

/-- **Every delivered later subframe can be delivered again**: the attacker repeats its A-MSDU. -/
theorem delivered_twice (hq : queue ≠ 0) (htid : tid < maxTidCount)
    {ls : List (Label State Frame (Option (ℕ × ℕ)))} {l : Label State Frame (Option (ℕ × ℕ))}
    (hrun : Run (step drv queue) s (ls ++ [l]) s') {p : ℕ} (hp : s.lastPn key tid p)
    (hflow : ∀ l' ∈ ls ++ [l], InFlow key tid l'.act) {x : ℕ × ℕ} (hout : l.out = some x)
    (hpos : 0 < x.2) (q : ℕ) :
    ∃ ls' s'', Run (step drv queue) s' ls' s'' ∧
      ls'.map Label.act = (List.range (x.2 + 1)).map (repeated l.act q) ∧
      ¬(delivered (ls ++ [l] ++ ls')).Nodup := by
  obtain ⟨s₁, hrun₁, hlast⟩ := hrun.split
  obtain ⟨p₁, hp₁⟩ := run_lastPn hq htid hrun₁ hp
    (fun l' hl' => hflow l' (mem_append_left _ hl'))
  have hl : InFlow key tid l.act := hflow l (mem_append_right _ (.head _))
  cases hlast with
  | @cons _ s₂ _ f o _ hs hnil =>
    cases hnil
    obtain rfl : o = some x := hout
    obtain ⟨rfl, hp'⟩ := lastPn_of_delivered hq htid hs hl hp₁
    obtain ⟨ls', s'', hrun', hacts, hdel, -⟩ :=
      run_repeated drv hq htid hl hpos hp' q f.subFrameIdx
    refine ⟨ls', s'', hrun', hacts, ?_⟩
    have hagain : (f.pn, f.subFrameIdx) ∈ delivered ls' := by
      rw [hdel, mem_map]
      exact ⟨f.subFrameIdx - 1, mem_range.mpr (by dsimp only at hpos; omega), by
        rw [Nat.sub_add_cancel hpos]⟩
    rw [delivered, filterMap_append, nodup_append]
    rintro ⟨-, -, hdisj⟩
    exact hdisj _ (mem_filterMap.mpr ⟨_, mem_append_right _
      (.head _), rfl⟩) _ hagain rfl

end attack

/-! ### Replay protection -/

/-- A station whose key 0 has just been installed: `last_seq` is filled with ones, no PN has been
seen. -/
def start : State :=
  ⟨⟨fun _ => 0xffff, fun _ => 0⟩, fun key => if key = 0 then some fun _ => 0 else none⟩

/-- A protected QoS data frame of TID 0, subframe `i` of an A-MSDU. -/
def subframe (seqCtrl pn i : ℕ) : Frame :=
  ⟨0x4188, [0, 1, 2, 3, 4, 5], 0, seqCtrl, 0, pn, i, true, true⟩

theorem inFlow_subframe (seqCtrl pn i : ℕ) : InFlow 0 0 (subframe seqCtrl pn i) := by
  have hdata : isData 0x4188 = true := by decide
  have hunicast : isMulticastEtherAddr [0, 1, 2, 3, 4, 5] = false := by decide
  have hqos : isDataQos 0x4188 = true := by decide
  have hnull : isAnyNullfunc 0x4188 = false := by decide
  exact ⟨hdata, hunicast, rfl, rfl, if_pos hqos, fun _ => ⟨rfl, hqos, hnull⟩⟩

/-- **Replay protection of the drivers**, for the frames of one key and TID: the PNs of delivered
frames never decrease; under the condition each subframe is delivered at most once; and whenever a
later subframe of an A-MSDU is delivered, sending the subframes up to it again delivers one twice.
-/
theorem replay_protection (drv : Driver) {queue key tid p : ℕ} {s s' : State}
    {ls : List (Label State Frame (Option (ℕ × ℕ)))} (hq : queue ≠ 0) (htid : tid < maxTidCount)
    (hp : s.lastPn key tid p) (hrun : Run (step drv queue) s ls s')
    (hflow : ∀ l ∈ ls, InFlow key tid l.act) :
    ((delivered ls).map Prod.fst).Pairwise (· ≤ ·) ∧
    ((∀ l ∈ ls, Fresh key tid l.pre l.act) → (delivered ls).Nodup) ∧
    (∀ ls₁ l x, ls = ls₁ ++ [l] → l.out = some x → 0 < x.2 → ∀ q,
      ∃ ls' s'', Run (step drv queue) s' ls' s'' ∧
        ls'.map Label.act = (List.range (x.2 + 1)).map (repeated l.act q) ∧
        ¬(delivered (ls ++ ls')).Nodup) := by
  refine ⟨run_sorted hq htid hrun hp hflow, ?_, ?_⟩
  · intro hfresh
    have hinv := run_inv hq htid hrun [] ⟨nodup_nil, p, hp, by simp⟩ hflow hfresh
    simpa using hinv.nodup
  · rintro ls₁ l x rfl hout hpos q
    exact delivered_twice hq htid hrun hp hflow hout hpos q

/-- Two A-MSDUs, the first one of two subframes. -/
theorem replay_protection_two_amsdus : ∃ ls s', Run (step .mld 1) start ls s' ∧
    ls.map Label.act = [subframe 16 1 0, subframe 16 1 1, subframe 32 2 0] ∧
    delivered ls = [(1, 0), (1, 1), (2, 0)] ∧ (delivered ls).Nodup := by
  have hrun := execute_run (show execute (step .mld 1) start
    [subframe 16 1 0, subframe 16 1 1, subframe 32 2 0] = _ from rfl)
  refine ⟨_, _, hrun.1, hrun.2, by decide +kernel, ?_⟩
  have hp : start.lastPn 0 0 0 := ⟨_, rfl, rfl⟩
  refine (replay_protection .mld (by decide) (by decide) hp hrun.1 ?_).2.1 ?_
  · simp only [forall_mem_cons, not_mem_nil, false_imp_iff, implies_true, and_true]
    exact ⟨inFlow_subframe .., inFlow_subframe .., inFlow_subframe ..⟩
  simp only [forall_mem_cons, not_mem_nil, false_imp_iff, implies_true, and_true]
  refine ⟨.inl (by decide +kernel), .inl (by decide +kernel), .inr (.inr ?_)⟩
  rintro p ⟨pns, hpns, rfl⟩
  cases hpns
  decide +kernel

/-- An A-MSDU of two subframes is repeated: the second one is delivered again by both drivers. -/
theorem repeated_amsdu_delivered :
    (∀ f ∈ [subframe 16 1 0, subframe 16 1 1], InFlow 0 0 f) ∧
    ((execute (step .mld 1) start [subframe 16 1 0, subframe 16 1 1, subframe 16 1 0,
      subframe 16 1 1]).map fun r => delivered r.1) = some [(1, 0), (1, 1), (1, 1)] ∧
    ((execute (step .mvm 1) start [subframe 16 1 0, subframe 16 1 1, subframe 16 1 0,
      subframe 16 1 1]).map fun r => delivered r.1) = some [(1, 0), (1, 1), (1, 1)] := by
  refine ⟨?_, by decide +kernel, by decide +kernel⟩
  simp only [forall_mem_cons, not_mem_nil, false_imp_iff, implies_true, and_true]
  exact ⟨inFlow_subframe .., inFlow_subframe ..⟩

end Iwlwifi.RxReplay
