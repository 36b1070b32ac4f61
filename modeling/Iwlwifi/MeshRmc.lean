import Iwlwifi.SeqNum

/-! # The recent multicast cache of a mesh interface

A model of `mesh_rmc_check` (`net/mac80211/mesh.c`): frames are looked up by source address and mesh
sequence number in one of 256 buckets; a frame that is not found is added.

* **Walk** (`rmcWalk`).  One pass over the bucket removes what has expired and the fourth entry that
  has not, and compares the others.
* `mesh_rmc_check_runs`: after every run the buckets hold at most four different entries each,
  newest first, and a frame is reported exactly if its entry is among the first three that have not
  expired; `fourth_entry_not_reported`: a full bucket forgets its last entry unseen. -/

namespace Iwlwifi.Ieee80211

open Function
open List hiding Vector

/-- `RMC_QUEUE_MAX_LEN`. -/
def rmcQueueMaxLen : ℕ := 4

/-- `RMC_TIMEOUT`, for the ticks of a second. -/
def rmcTimeout (hz : ℕ) : ℕ := 3 * hz

/-- `struct rmc_entry`. -/
structure RmcEntry where
  expTime : ℕ
  seqnum : UInt32
  sa : Vector UInt8 6
deriving DecidableEq, Repr

/-- `struct mesh_rmc`. -/
structure MeshRmc where
  bucket : UInt8 → List RmcEntry
  idxMask : UInt32

/-- `mesh_rmc_init`. -/
def meshRmcInit : MeshRmc := ⟨fun _ => [], 256 - 1⟩

/-- A call of `mesh_rmc_check`, and whether memory can be allocated in it. -/
structure RmcCall where
  sa : Vector UInt8 6
  seqnum : UInt32
  jiffies : ℕ
  allocOk : Bool

def RmcCall.entry (hz : ℕ) (c : RmcCall) : RmcEntry :=
  ⟨ulong (c.jiffies + rmcTimeout hz), c.seqnum, c.sa⟩

def RmcCall.matches (c : RmcCall) (p : RmcEntry) : Bool := c.seqnum = p.seqnum ∧ c.sa = p.sa

def RmcCall.unexpired (c : RmcCall) (p : RmcEntry) : Bool := !timeAfter c.jiffies p.expTime

/-- The loop over a bucket: whether a match was found, and what is left of the bucket.  The counter
`entries` is incremented for each entry and decremented for those that are deleted. -/
def rmcWalk (c : RmcCall) (entries : ℕ) : List RmcEntry → Bool × List RmcEntry
  | [] => (false, [])
  | p :: rest =>
    if timeAfter c.jiffies p.expTime ∨ entries + 1 = rmcQueueMaxLen then rmcWalk c entries rest
    else if c.matches p then (true, p :: rest)
    else ((rmcWalk c (entries + 1) rest).1, p :: (rmcWalk c (entries + 1) rest).2)

def MeshRmc.idx (rmc : MeshRmc) (c : RmcCall) : UInt8 := (c.seqnum &&& rmc.idxMask).toUInt8

/-- `mesh_rmc_check`. -/
def meshRmcCheck (hz : ℕ) (c : RmcCall) : Option MeshRmc → ℤ × Option MeshRmc
  | none => (-1, none)
  | some rmc =>
    let idx := rmc.idx c
    let (found, bucket) := rmcWalk c 0 (rmc.bucket idx)
    if found then (-1, some { rmc with bucket := update rmc.bucket idx bucket })
    else if !c.allocOk then
      (0, some { rmc with bucket := update rmc.bucket idx bucket })
    else
      (0, some { rmc with bucket := update rmc.bucket idx (c.entry hz :: bucket) })

/-! ### The walk -/

theorem rmcWalk_sublist (c : RmcCall) (n : ℕ) (l : List RmcEntry) :
    (rmcWalk c n l).2.Sublist l := by
  fun_induction rmcWalk c n l with
  | case1 => exact List.Sublist.refl _
  | case2 n p l _ ih => exact ih.cons p
  | case3 => exact List.Sublist.refl _
  | case4 n p l _ _ ih => exact ih.cons_cons p

/-- What is compared: the first entries that have not expired, one less than the queue holds. -/
theorem rmcWalk_found_iff (c : RmcCall) (n : ℕ) (l : List RmcEntry) (hn : n < rmcQueueMaxLen) :
    (rmcWalk c n l).1 = true ↔
      ∃ p ∈ (l.filter c.unexpired).take (rmcQueueMaxLen - 1 - n), c.matches p = true := by
  fun_induction rmcWalk c n l with
  | case1 => simp
  | case2 n p l hdel ih =>
    rw [ih hn, filter_cons]
    obtain hexp | hlast := hdel
    · simp [RmcCall.unexpired, hexp]
    · have hnone : rmcQueueMaxLen - 1 - n = 0 := by omega
      simp [hnone]
  | case3 n p l hkeep hmatch =>
    have hsome : 0 < rmcQueueMaxLen - 1 - n := by omega
    rw [filter_cons_of_pos (by simpa [RmcCall.unexpired] using fun h => hkeep (.inl h))]
    exact iff_of_true rfl ⟨p, mem_take_iff_getElem.mpr ⟨0, by simpa using hsome, rfl⟩, hmatch⟩
  | case4 n p l hkeep hmatch ih =>
    have hsucc : rmcQueueMaxLen - 1 - n = rmcQueueMaxLen - 1 - (n + 1) + 1 := by omega
    rw [filter_cons_of_pos (by simpa [RmcCall.unexpired] using fun h => hkeep (.inl h)),
      ih (by omega), hsucc, take_succ_cons]
    simp [hmatch]

theorem rmcWalk_not_found (c : RmcCall) (n : ℕ) (l : List RmcEntry) (hn : n < rmcQueueMaxLen)
    (h : (rmcWalk c n l).1 = false) :
    n + (rmcWalk c n l).2.length < rmcQueueMaxLen ∧
      ∀ p ∈ (rmcWalk c n l).2, c.matches p = false := by
  fun_induction rmcWalk c n l with
  | case1 => simpa using hn
  | case2 n p l _ ih => exact ih hn h
  | case3 => cases h
  | case4 n p l hkeep hmatch ih =>
    obtain ⟨hlen, hall⟩ := ih (by omega) h
    rw [length_cons, forall_mem_cons]
    exact ⟨by omega, by simpa using hmatch, hall⟩

/-! ### Runs -/

/-- The state after a call, with the log of all entries that calls have added, newest first. -/
def rmcStep (hz : ℕ) (s : List RmcEntry × Option MeshRmc) (c : RmcCall) :
    List RmcEntry × Option MeshRmc :=
  (if (meshRmcCheck hz c s.2).1 = 0 ∧ c.allocOk then c.entry hz :: s.1 else s.1,
    (meshRmcCheck hz c s.2).2)

/-- A bucket has a bounded length, entries of different frames, and the order of the log. -/
structure RmcBucket (log l : List RmcEntry) : Prop where
  length_le : l.length ≤ rmcQueueMaxLen
  distinct : l.Pairwise fun p q => (p.seqnum, p.sa) ≠ (q.seqnum, q.sa)
  newest_first : l.Sublist log

theorem RmcBucket.sublist {log l l' : List RmcEntry} (h : RmcBucket log l) (hsub : l'.Sublist l) :
    RmcBucket log l' :=
  ⟨hsub.length_le.trans h.length_le, h.distinct.sublist hsub, hsub.trans h.newest_first⟩

theorem RmcBucket.add {c : RmcCall} {log l : List RmcEntry} (hz : ℕ) (h : RmcBucket log l)
    (hfound : (rmcWalk c 0 l).1 = false) :
    RmcBucket (c.entry hz :: log) (c.entry hz :: (rmcWalk c 0 l).2) := by
  have hsub := h.sublist (rmcWalk_sublist c 0 l)
  obtain ⟨hlen, hne⟩ := rmcWalk_not_found c 0 l (by decide) hfound
  refine ⟨by simpa [Nat.succ_le_iff] using hlen, pairwise_cons.mpr ⟨?_, hsub.distinct⟩,
    hsub.newest_first.cons_cons _⟩
  intro p hp heq
  have := hne p hp
  simp_all [RmcCall.matches, RmcCall.entry]

def RmcInv (s : List RmcEntry × Option MeshRmc) : Prop :=
  ∃ rmc, s.2 = some rmc ∧ ∀ i, RmcBucket s.1 (rmc.bucket i)

theorem RmcInv.update {log log' l : List RmcEntry} {rmc : MeshRmc} (i : UInt8)
    (h : ∀ i, RmcBucket log (rmc.bucket i)) (hl : RmcBucket log' l) (hlog : log.Sublist log') :
    RmcInv (log', some { rmc with bucket := update rmc.bucket i l }) := by
  refine ⟨_, rfl, fun j => ?_⟩
  simp only [update_apply]
  split
  · exact hl
  · exact ⟨(h j).length_le, (h j).distinct, (h j).newest_first.trans hlog⟩

theorem RmcInv.step {s : List RmcEntry × Option MeshRmc} (hz : ℕ) (c : RmcCall) (h : RmcInv s) :
    RmcInv (rmcStep hz s c) := by
  obtain ⟨log, _⟩ := s
  obtain ⟨rmc, rfl, hb⟩ := h
  have hi := hb (rmc.idx c)
  have hwalk := hi.sublist (rmcWalk_sublist c 0 _)
  by_cases hfound : (rmcWalk c 0 (rmc.bucket (rmc.idx c))).1 = true
  · simpa [rmcStep, meshRmcCheck, hfound] using RmcInv.update _ hb hwalk (.refl _)
  cases halloc : c.allocOk with
  | false => simpa [rmcStep, meshRmcCheck, hfound, halloc] using RmcInv.update _ hb hwalk (.refl _)
  | true =>
    simpa [rmcStep, meshRmcCheck, hfound, halloc] using
      RmcInv.update _ hb (hi.add hz (by simpa using hfound)) (sublist_cons_self _ _)

/-- **The multicast cache.**  After every run each bucket holds at most `RMC_QUEUE_MAX_LEN` entries,
of different frames, newest first.  The next frame is reported exactly if its entry is among the
first three of its bucket that have not expired. -/
theorem mesh_rmc_check_runs (hz : ℕ) (calls : List RmcCall) :
    ∃ rmc log, calls.foldl (rmcStep hz) ([], some meshRmcInit) = (log, some rmc) ∧
      (∀ i, RmcBucket log (rmc.bucket i)) ∧
      ∀ c : RmcCall, (meshRmcCheck hz c (some rmc)).1 = -1 ↔
        ∃ p ∈ ((rmc.bucket (rmc.idx c)).filter c.unexpired).take (rmcQueueMaxLen - 1),
          c.matches p = true := by
  have hinit : RmcInv ([], some meshRmcInit) :=
    ⟨_, rfl, fun _ => ⟨Nat.zero_le _, List.Pairwise.nil, List.Sublist.refl _⟩⟩
  obtain ⟨rmc, hrmc, hb⟩ : RmcInv (calls.foldl (rmcStep hz) ([], some meshRmcInit)) :=
    List.foldlRecOn calls (rmcStep hz) hinit fun s h c _ => h.step hz c
  refine ⟨rmc, _, Prod.ext rfl hrmc, hb, fun c => ?_⟩
  have hfound := rmcWalk_found_iff c 0 (rmc.bucket (rmc.idx c)) (by decide)
  rw [Nat.sub_zero] at hfound
  rw [← hfound]
  simp only [meshRmcCheck]
  split
  · simp [*]
  · split <;> simp [*]

def firstFrame (seqnum : UInt32) : RmcCall := ⟨#v[2, 0, 0, 0, 0, 1], seqnum, 0, true⟩

/-- Four frames of one bucket: the entry of the first one has not expired, but it is deleted before
it is compared, and its duplicate passes. -/
theorem fourth_entry_not_reported :
    ∃ rmc, ([0, 256, 512, 768].map firstFrame).foldl (rmcStep 250) ([], some meshRmcInit) =
        ([768, 512, 256, 0].map fun n => (firstFrame n).entry 250, some rmc) ∧
      (firstFrame 0).entry 250 ∈ rmc.bucket 0 ∧
      (firstFrame 0).unexpired ((firstFrame 0).entry 250) = true ∧
      (meshRmcCheck 250 (firstFrame 0) (some rmc)).1 = 0 :=
  ⟨_, rfl, by decide, by decide, by decide⟩

end Iwlwifi.Ieee80211
