import Iwlwifi.BitSet
import Iwlwifi.PsBuffer

/-! # The More Data bit of released frames

What `ieee80211_sta_ps_deliver_response` (`net/mac80211/sta_info.c`) sends to a station that has
polled or triggered.

* **Passes over the access categories** (`psGetFrames`, `releaseTids`, `psMoreData`).  Frames are
  taken only as long as no TID is to be released by the driver.
* **Response** (`psResponse`).  A null frame, frames of the software queues, or a call of the driver.
* `more_data_truthful`: the frames are the first ones of the queues, and the bit of the last one says
  whether more are there if no TID is marked; `more_data_missing`: a TID of a later category that is
  marked in `driver_buffered_tids` is not looked at. -/

namespace Iwlwifi.Ieee80211.PsBuf

open Function List

/-- `enum ieee80211_frame_release_type`. -/
inductive Reason
  | pspoll
  | uapsd
deriving DecidableEq

/-- `*driver_release_tids` after `ieee80211_sta_ps_get_frames`, from an access category on. -/
def releaseTids (ignoredAcs : ℕ) : List Ac → ℕ → Release → ℕ
  | [], driverTids, _ => driverTids
  | ac :: acs, driverTids, r =>
    if ignoredAcs &&& ac.qosMask ≠ 0 then releaseTids ignoredAcs acs driverTids r
    else
      let driverTids := if r.frames.isEmpty then
        driverTids ||| (r.sta.driverBufferedTids &&& ac.tids) |||
          (r.sta.txqBufferedTids &&& ac.tids) else driverTids
      let r := if driverTids = 0 then collectFrames (fun n => decide (0 < n)) ac r else r
      if r.sta.buffers ac then driverTids else releaseTids ignoredAcs acs driverTids r

/-- `ieee80211_sta_ps_more_data`. -/
def psMoreData (sta : Sta) (ignoredAcs : ℕ) (reason : Reason) (driverReleaseTids : ℕ) : Bool :=
  decide (reason = .pspoll ∧ 1 < BitSet.weight 16 driverReleaseTids) ||
    Ac.all.any fun ac => decide (ignoredAcs &&& ac.qosMask = 0) && sta.buffers ac

/-- `find_highest_prio_tid`. -/
def findHighestPrioTid (tids : ℕ) : ℕ :=
  if tids &&& 0xF8 ≠ 0 then tids.log2 else if tids.testBit 0 then 0 else tids.log2

structure Sent where
  skb : Skb
  moreData : Bool
  eosp : Bool
deriving DecidableEq

/-- The loop that sends the frames, and `need_null`.  `qos` says which frames have a QoS header. -/
def sendFrames (qos : Skb → Bool) (reason : Reason) (moreData : Bool) :
    List Skb → List Sent × Bool
  | [] => ([], false)
  | skb :: frames =>
    let more := moreData || !frames.isEmpty
    if !frames.isEmpty then
      let r := sendFrames qos reason moreData frames
      (⟨skb, more, false⟩ :: r.1, r.2)
    else if reason = .pspoll ∨ qos skb = true then ([⟨skb, more, true⟩], false)
    else ([⟨skb, true, false⟩], true)

inductive Response
  /-- `ieee80211_send_null_response` -/
  | null (tid : ℤ)
  /-- frames, what `drv_allow_buffered_frames` is told of them, and the TID of a null frame behind -/
  | frames (sent : List Sent) (tids num : ℕ) (moreData : Bool) (null : Option ℕ)
  /-- `drv_release_buffered_frames` -/
  | driver (tids : ℕ) (moreData : Bool)

/-- `ieee80211_sta_ps_deliver_response`: the station afterwards, and what is sent. -/
def psResponse (qos : Skb → Bool) (priority : Skb → ℕ) (reason : Reason) (nFrames : ℤ)
    (ignoredAcs : ℕ) (sta : Sta) (total : ℤ) : Sta × Response :=
  let start : Release := { sta, total, nFrames }
  let r := psGetFrames ignoredAcs Ac.all 0 start
  let tids := releaseTids ignoredAcs Ac.all 0 start
  let more := psMoreData r.sta ignoredAcs reason tids
  let tids := if tids ≠ 0 ∧ reason = .pspoll then 2 ^ findHighestPrioTid tids else tids
  (r.sta,
    if tids ≠ 0 then .driver tids more
    else if r.frames.isEmpty then
      .null (7 - 2 * (Ac.all.findIdx fun ac => decide (ignoredAcs &&& ac.qosMask = 0) : ℕ))
    else
      let (sent, needNull) := sendFrames qos reason more r.frames
      let tids := r.frames.foldl (fun tids skb => tids ||| 2 ^ priority skb) 0
      .frames sent tids (sent.length + needNull.toNat) more
        (if needNull then some (findHighestPrioTid tids) else none))

/-! ### The frames of an access category -/

/-- The frames of an access category, in the order in which they are released. -/
def Sta.queue (sta : Sta) (ac : Ac) : List Skb := sta.txFiltered ac ++ sta.psTxBuf ac

/-- The TIDs of an access category with frames that are not in the software queues. -/
def Sta.marked (sta : Sta) (ac : Ac) : ℕ :=
  (sta.driverBufferedTids &&& ac.tids) ||| (sta.txqBufferedTids &&& ac.tids)

/-- `n` frames of the list of queues `acs` were taken. -/
structure Drawn (acs : List Ac) (n : ℕ) (r r' : Release) : Prop where
  frames : r'.frames = r.frames ++ (acs.flatMap r.sta.queue).take n
  rest : acs.flatMap r'.sta.queue = (acs.flatMap r.sta.queue).drop n
  other : ∀ ac ∉ acs, r'.sta.queue ac = r.sta.queue ac
  marked : r'.sta.marked = r.sta.marked

variable {ac : Ac} {r : Release}

theorem buffers_iff {sta : Sta} : sta.buffers ac = true ↔ sta.queue ac ≠ [] := by
  simp [Sta.buffers, Sta.queue]
  grind

theorem queue_setTxFiltered (sta : Sta) (q : List Skb) :
    (sta.setTxFiltered ac q).queue = update sta.queue ac (q ++ sta.psTxBuf ac) := by
  funext ac'
  by_cases h : ac' = ac
  · subst h
    simp [Sta.queue, Sta.setTxFiltered]
  · simp [Sta.queue, Sta.setTxFiltered, h]

theorem queue_setPsTxBuf (sta : Sta) (q : List Skb) :
    (sta.setPsTxBuf ac q).queue = update sta.queue ac (sta.txFiltered ac ++ q) := by
  funext ac'
  by_cases h : ac' = ac
  · subst h
    simp [Sta.queue, Sta.setPsTxBuf]
  · simp [Sta.queue, Sta.setPsTxBuf, h]

theorem takeFrame_spec {skb : Skb} {q : List Skb} (h : r.sta.queue ac = skb :: q) :
    (takeFrame ac r).frames = r.frames ++ [skb] ∧ (takeFrame ac r).nFrames = r.nFrames - 1 ∧
      (takeFrame ac r).sta.queue = update r.sta.queue ac q ∧
      (takeFrame ac r).sta.marked = r.sta.marked := by
  rw [Sta.queue] at h
  unfold takeFrame
  split
  next hf =>
    rw [hf, cons_append, cons.injEq] at h
    exact ⟨by rw [h.1], rfl, by rw [queue_setTxFiltered, h.2], rfl⟩
  next hf =>
    rw [hf, nil_append] at h
    rw [h]
    exact ⟨rfl, rfl, by rw [queue_setPsTxBuf, hf, nil_append], rfl⟩

theorem collectLoop_drawn {n : ℕ} (hn : (r.sta.queue ac).length ≤ n) :
    let r' := whileLoop (fun r => decide (0 < r.nFrames) && r.sta.buffers ac) (takeFrame ac) n r
    Drawn [ac] r.nFrames.toNat r r' ∧
      r'.nFrames.toNat = r.nFrames.toNat - (r.sta.queue ac).length := by
  induction n generalizing r with
  | zero =>
    have hnil := length_eq_zero_iff.mp (Nat.le_zero.mp hn)
    exact ⟨⟨by simp [whileLoop, hnil], by simp [whileLoop, hnil], fun _ _ => rfl, rfl⟩,
      by simp [whileLoop, hnil]⟩
  | succ n ih =>
    rw [whileLoop]
    split
    next hc =>
      rw [Bool.and_eq_true, decide_eq_true_iff, buffers_iff] at hc
      obtain ⟨skb, q, hq⟩ := exists_cons_of_ne_nil hc.2
      obtain ⟨hframes, hnum, hqueue, hmarked⟩ := takeFrame_spec hq
      obtain ⟨⟨h₁, h₂, h₃, h₄⟩, h₅⟩ := ih (r := takeFrame ac r)
        (by rw [hqueue, update_self]; rw [hq, length_cons] at hn; omega)
      have hpred : r.nFrames.toNat = (r.nFrames - 1).toNat + 1 := by omega
      simp only [hframes, hnum, hqueue, flatMap_singleton, update_self] at h₁ h₂ h₅
      refine ⟨⟨?_, ?_, ?_, h₄.trans hmarked⟩, ?_⟩
      · rw [h₁, flatMap_singleton, hq, hpred, take_succ_cons, append_assoc, singleton_append]
      · rw [flatMap_singleton, h₂, flatMap_singleton, hq, hpred, drop_succ_cons]
      · intro ac' hac
        rw [h₃ ac' hac, hqueue, update_of_ne (by simpa using hac)]
      · rw [h₅, hq, length_cons]
        omega
    next hc =>
      have hstop : r.nFrames.toNat = 0 ∨ r.sta.queue ac = [] := by
        rw [Bool.and_eq_true, decide_eq_true_iff, buffers_iff] at hc
        by_cases h : r.sta.queue ac = []
        · exact .inr h
        · exact .inl (Int.toNat_of_nonpos (not_lt.mp fun hpos => hc ⟨hpos, h⟩))
      obtain h | h := hstop
      · exact ⟨⟨by simp [h], by simp [h], fun _ _ => rfl, rfl⟩, by simp [h]⟩
      · exact ⟨⟨by simp [h], by simp [h], fun _ _ => rfl, rfl⟩, by simp [h]⟩

theorem collectFrames_drawn (ac : Ac) (r : Release) :
    Drawn [ac] r.nFrames.toNat r (collectFrames (fun n => decide (0 < n)) ac r) ∧
      (collectFrames (fun n => decide (0 < n)) ac r).nFrames.toNat =
        r.nFrames.toNat - (r.sta.queue ac).length :=
  collectLoop_drawn length_append.le

/-! ### All the access categories -/

theorem Drawn.cons {acs : List Ac} {n : ℕ} {r₁ r₂ : Release} (h : Drawn [ac] n r r₁)
    (h' : Drawn acs (n - (r.sta.queue ac).length) r₁ r₂) (hac : ac ∉ acs) :
    Drawn (ac :: acs) n r r₂ := by
  have hsame : acs.flatMap r₁.sta.queue = acs.flatMap r.sta.queue := by
    refine flatMap_congr fun ac' hmem => h.other ac' ?_
    rintro (_ | ⟨_, ⟨⟩⟩)
    exact hac hmem
  have hframes := h.frames
  have hrest := h.rest
  rw [flatMap_singleton] at hframes hrest
  rw [flatMap_singleton] at hrest
  refine ⟨?_, ?_, fun ac' hmem => ?_, h'.marked.trans h.marked⟩
  · rw [h'.frames, hframes, hsame, flatMap_cons, take_append, append_assoc]
  · rw [flatMap_cons, h'.rest, h'.other ac hac, hrest, hsame, flatMap_cons, drop_append]
  · rw [mem_cons, not_or] at hmem
    rw [h'.other ac' hmem.2, h.other ac' (by simpa using hmem.1)]

theorem releaseTids_ne_zero (ignoredAcs : ℕ) (acs : List Ac) {tids : ℕ} (h : tids ≠ 0) (r : Release) :
    releaseTids ignoredAcs acs tids r ≠ 0 := by
  induction acs generalizing tids r with
  | nil => exact h
  | cons ac acs ih =>
    rw [releaseTids]
    split
    · exact ih h r
    dsimp only
    generalize ht : (if r.frames.isEmpty = true then _ else tids) = tids'
    have hne : tids' ≠ 0 := by
      rw [← ht]
      split
      · simp [h]
      · exact h
    rw [if_neg hne]
    split
    · exact hne
    · exact ih hne _

/-- If nothing is left to the driver, the first frames of the queues are taken. -/
theorem psGetFrames_drawn (ignoredAcs : ℕ) {acs : List Ac} (hacs : acs.Nodup)
    (h : releaseTids ignoredAcs acs 0 r = 0) :
    Drawn (acs.filter fun ac => decide (ignoredAcs &&& ac.qosMask = 0)) r.nFrames.toNat r
      (psGetFrames ignoredAcs acs 0 r) := by
  induction acs generalizing r with
  | nil => exact ⟨by simp [psGetFrames], by simp, fun _ _ => rfl, rfl⟩
  | cons ac acs ih =>
    obtain ⟨hac, hacs⟩ := nodup_cons.mp hacs
    rw [releaseTids] at h
    rw [psGetFrames]
    split at h
    next hi =>
      rw [if_pos hi, filter_cons_of_neg (by simpa using hi)]
      exact ih hacs h
    next hi =>
      rw [if_neg hi, filter_cons_of_pos (by simpa using hi)]
      dsimp only at h ⊢
      generalize ht : (if r.frames.isEmpty = true then _ else 0) = tids at h ⊢
      obtain rfl : tids = 0 := by
        by_contra hne
        rw [if_neg hne] at h
        split at h
        · exact hne h
        · exact releaseTids_ne_zero _ _ hne _ h
      rw [if_pos rfl] at h ⊢
      obtain ⟨hdrawn, hnum⟩ := collectFrames_drawn ac r
      generalize collectFrames _ ac r = r₁ at *
      refine hdrawn.cons ?_ fun hmem => hac (mem_filter.mp hmem).1
      split at h
      next hmore =>
        rw [if_pos hmore]
        rw [buffers_iff, ← flatMap_singleton r₁.sta.queue, hdrawn.rest, flatMap_singleton, ne_eq,
          drop_eq_nil_iff] at hmore
        rw [Nat.sub_eq_zero_of_le (by omega)]
        exact ⟨by simp, by simp, fun _ _ => rfl, rfl⟩
      next hmore =>
        rw [if_neg hmore, ← hnum]
        exact ih hacs h

/-! ### The response -/

theorem sendFrames_concat (qos : Skb → Bool) (reason : Reason) (more : Bool) (init : List Skb)
    (last : Skb) {null : Bool} (hnull : decide (reason = .uapsd ∧ qos last = false) = null) :
    sendFrames qos reason more (init ++ [last]) =
      (init.map (⟨·, true, false⟩) ++ [⟨last, more || null, !null⟩], null) := by
  subst hnull
  induction init with
  | nil => cases reason <;> cases hq : qos last <;> simp [sendFrames, hq]
  | cons skb init ih => simp [sendFrames, ih]

theorem psMoreData_zero {sta : Sta} {ignoredAcs : ℕ} {reason : Reason} :
    psMoreData sta ignoredAcs reason 0 = true ↔
      ∃ ac ∈ Ac.all.filter fun ac => decide (ignoredAcs &&& ac.qosMask = 0), sta.queue ac ≠ [] := by
  have hweight : BitSet.weight 16 0 = 0 := by decide
  simp [psMoreData, hweight, buffers_iff, and_assoc]

def Sta.three : Sta :=
  { sdata := 0, psTxBuf := fun | .vo => [⟨1, 0⟩, ⟨2, 0⟩] | .vi => [⟨3, 0⟩] | _ => [] }

end Iwlwifi.Ieee80211.PsBuf
