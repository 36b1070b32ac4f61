import Iwlwifi.DefragRun
import Iwlwifi.TxFragment

/-! # Fragmentation and defragmentation

What `ieee80211_tx_h_fragment` cuts (`Iwlwifi.TxFragment`), `ieee80211_rx_h_defragment` puts
together again (`Iwlwifi.Defrag`), also when MPDUs of other senders come in between.

* `Complete m ms` describes a whole fragmented frame as the receiver sees it.  Both halves meet
  there: the fragments of an MSDU are such a frame (`complete_of_fragments`).
* **The cache.**  While a frame is `Waiting`, its entry keeps the fragments that have come, all
  other entries belong to other senders, and the cache goes round less than once.  An MPDU of
  another sender leaves the entry alone (`rxHDefragment_untouched`); a fragment of the frame finds it
  (`reassembleFind_finds`).
* `fragmentation_roundtrip` is the result.  The entries of the cache are used in turn, whether free
  or not, so a fourth frame that begins takes the entry away (`fragments_lost`). -/

namespace Iwlwifi.Ieee80211.Defrag

open Bytes Function List

/-! ### The cache, seen by another sender -/

section frame
variable {hz : ℕ} {c : FragmentCache}

def FragmentCache.first (c : FragmentCache) (i : ℕ) : Option (List UInt8) :=
  (c.entries i).skbList.head?

theorem sameHeader_of_addr2 {hdr fHdr : List UInt8} (h : addr2 hdr ≠ addr2 fHdr) :
    sameHeader hdr fHdr = false := by
  simp [sameHeader, h]

theorem reassembleFind_frame {hz jiffies frag seq rxQueue n idx : ℕ} {hdr : List UInt8}
    {c c' : FragmentCache} {found : Option ℕ}
    (hr : reassembleFind hz jiffies frag seq rxQueue hdr n idx c = (c', found)) :
    c'.next = c.next ∧ (∀ i, ∀ f ∈ c'.first i, f ∈ c.first i) ∧
    (∀ i, (∀ f ∈ c.first i, sameHeader hdr f = false) →
      c'.entries i = c.entries i ∧ found ≠ some i) ∧
    ∀ i, found = some i → (c'.entries i).skbList ≠ [] := by
  induction n generalizing idx c with
  | zero =>
    cases hr
    exact ⟨rfl, fun _ _ h => h, fun _ _ => ⟨rfl, nofun⟩, nofun⟩
  | succ n ih =>
    unfold reassembleFind at hr
    simp only at hr
    generalize (if idx = 0 then fragmentMax - 1 else idx - 1) = j at hr
    split at hr
    · exact ih hr
    rename_i f rest hlist
    split at hr
    · exact ih hr
    split at hr
    · exact ih hr
    rename_i hsame
    have hfirst : c.first j = some f := by
      rw [FragmentCache.first, hlist]
      rfl
    split at hr
    · obtain ⟨hnext, hsub, hkeep, hfound⟩ := ih hr
      have hother : ∀ i, i ≠ j → (c.purge j).entries i = c.entries i := fun i hne =>
        update_of_ne hne _ _
      have hempty : (c.purge j).first j = none := by
        simp [FragmentCache.first, FragmentCache.purge, FragmentCache.setEntry]
      refine ⟨hnext, ?_, ?_, hfound⟩
      · intro i g hg
        have hg' := hsub i g hg
        by_cases hij : i = j
        · subst hij
          rw [hempty] at hg'
          cases hg'
        · rwa [FragmentCache.first, hother i hij] at hg'
      · intro i hi
        have hij : i ≠ j := by
          rintro rfl
          rw [hi f hfirst] at hsame
          exact hsame rfl
        have hi' : ∀ g ∈ (c.purge j).first i, sameHeader hdr g = false := by
          rwa [FragmentCache.first, hother i hij]
        rw [← hother i hij]
        exact hkeep i hi'
    · cases hr
      refine ⟨rfl, fun _ _ h => h, ?_, ?_⟩
      · intro i hi
        refine ⟨rfl, ?_⟩
        rintro heq
        cases heq
        rw [hi f hfirst] at hsame
        exact hsame rfl
      · intro i heq
        cases heq
        rw [hlist]
        exact cons_ne_nil _ _

variable {a : Arrival} {ta : List UInt8}

theorem addFragment_frame {i : ℕ} {e : FragmentEntry} (he : e.skbList ≠ [])
    (hfirst : e.skbList.head? = c.first i) :
    (addFragment c i e a).2.next = c.next ∧
    (∀ j, j ≠ i → (addFragment c i e a).2.entries j = c.entries j) ∧
    ∀ j, ∀ f ∈ (addFragment c i e a).2.first j, f ∈ c.first j := by
  have hset : ∀ e' : FragmentEntry, (∀ f ∈ e'.skbList.head?, f ∈ c.first i) →
      (c.setEntry i e').next = c.next ∧
      (∀ j, j ≠ i → (c.setEntry i e').entries j = c.entries j) ∧
      ∀ j, ∀ f ∈ (c.setEntry i e').first j, f ∈ c.first j := by
    intro e' he'
    have hother : ∀ j, j ≠ i → (c.setEntry i e').entries j = c.entries j := fun j hj =>
      update_of_ne hj _ _
    refine ⟨rfl, hother, ?_⟩
    intro j f hf
    by_cases hij : j = i
    · subst hij
      rw [FragmentCache.first, FragmentCache.setEntry] at hf
      simp only [update_self] at hf
      exact he' f hf
    · rwa [FragmentCache.first, hother j hij] at hf
  unfold addFragment
  simp only
  split
  · exact hset _ (by simp)
  split
  · apply hset
    intro f hf
    rwa [← hfirst, ← List.head?_append_of_ne_nil e.skbList he]
  split
  · exact hset _ (by simp)
  · split
    · exact hset _ (by simp)
    · exact hset _ (by simp)

def Arrival.begins (a : Arrival) : Bool :=
  a.rx.isFragment && !isMulticastEtherAddr (addr1 a.rx.data) && a.linearizeOk && a.rx.frag == 0

def nextEntry (i : ℕ) : ℕ := if fragmentMax ≤ i + 1 then 0 else i + 1

theorem rxHDefragment_begins (hz : ℕ) (c : FragmentCache) (h : a.begins = true) :
    rxHDefragment hz c a = (⟨.queued, none⟩, firstFragment c a) := by
  simp only [Arrival.begins, Rx.isFragment, Bool.and_eq_true, Bool.not_eq_true', Bool.or_eq_true,
    Bool.or_eq_false_iff, beq_iff_eq, bne_iff_ne] at h
  obtain ⟨⟨⟨⟨hctl, hmore⟩, hmcast⟩, hlin⟩, hfrag⟩ := h
  have hmore' : hasMorefrags a.rx.fc = true := by
    rcases hmore with h | h
    · exact h
    · exact absurd hfrag h
  simp [rxHDefragment, hctl, hmore', hmcast, hlin, hfrag]

/-- The entries of the sender `ta` are as before, and there is no further one. -/
structure Untouched (ta : List UInt8) (c c' : FragmentCache) : Prop where
  next : c'.next = c.next
  mine : ∀ i, (∀ f ∈ c.first i, addr2 f = ta) → c'.entries i = c.entries i
  others : ∀ i, (∀ f ∈ c.first i, addr2 f ≠ ta) → ∀ f ∈ c'.first i, addr2 f ≠ ta

theorem Untouched.refl (ta : List UInt8) (c : FragmentCache) : Untouched ta c c :=
  ⟨rfl, fun _ _ => rfl, fun _ h => h⟩

theorem laterFragment_untouched (hz : ℕ) (c : FragmentCache) (hta : addr2 a.rx.data ≠ ta) :
    Untouched ta c (laterFragment hz c a).2 := by
  unfold laterFragment
  simp only
  rcases hr : reassembleFind hz a.jiffies a.rx.frag a.rx.seq a.rx.seqnoIdx a.rx.data fragmentMax
    c.next c with ⟨c', oi⟩
  obtain ⟨hnext, hsub, hkeep, hfound⟩ := reassembleFind_frame hr
  -- the header of the MPDU is not that of an entry of `ta`
  have hmine : ∀ i, (∀ f ∈ c.first i, addr2 f = ta) →
      c'.entries i = c.entries i ∧ oi ≠ some i := by
    intro i hi
    apply hkeep
    intro f hf
    apply sameHeader_of_addr2
    rwa [hi f hf]
  have searched : Untouched ta c c' :=
    ⟨hnext, fun i hi => (hmine i hi).1, fun i hi f hf => hi f (hsub i f hf)⟩
  cases oi with
  | none => exact searched
  | some j =>
    dsimp only
    split
    · exact searched
    rename_i e hcheck
    have hlist : e.skbList = (c'.entries j).skbList := by
      rcases checkProtection_ok hcheck with ⟨-, -, -, -, h⟩ | ⟨-, h, -⟩ <;> rw [h]
    have hne : e.skbList ≠ [] := by
      rw [hlist]
      exact hfound j rfl
    have hhead : e.skbList.head? = c'.first j := by
      rw [hlist]
      rfl
    obtain ⟨hn, hother, hfirst⟩ := addFragment_frame (a := a) hne hhead
    refine ⟨hn.trans hnext, ?_, ?_⟩
    · intro i hi
      obtain ⟨hsame, hij⟩ := hmine i hi
      have hne' : i ≠ j := fun h => hij (by rw [h])
      rw [hother i hne', hsame]
    · intro i hi f hf
      exact hi f (hsub i f (hfirst i f hf))

/-- **An MPDU of another sender** that does not begin a frame leaves the entries alone. -/
theorem rxHDefragment_untouched (hz : ℕ) (c : FragmentCache) (hta : addr2 a.rx.data ≠ ta)
    (hb : a.begins = false) :
    Untouched ta c (rxHDefragment hz c a).2 := by
  unfold rxHDefragment
  simp only
  split
  · exact Untouched.refl ta c
  rename_i hctl
  split
  · exact Untouched.refl ta c
  rename_i hwhole
  split
  · exact Untouched.refl ta c
  rename_i hmcast
  split
  · exact Untouched.refl ta c
  rename_i hlin
  split
  next hfrag =>
    simp [Arrival.begins, Rx.isFragment, hctl, hmcast, hfrag] at hb hwhole hlin
    rw [hb hwhole] at hlin
    cases hlin
  · exact laterFragment_untouched hz c hta

theorem firstFragment_frame (hta : addr2 a.rx.data ≠ ta) :
    (firstFragment c a).next = nextEntry c.next ∧
    (∀ i, i ≠ c.next → (firstFragment c a).entries i = c.entries i) ∧
    ∀ i, (∀ f ∈ c.first i, addr2 f ≠ ta) → ∀ f ∈ (firstFragment c a).first i, addr2 f ≠ ta := by
  obtain ⟨e, he, hlist, -⟩ := firstFragment_eq c a
  rw [he]
  have hother : ∀ i, i ≠ c.next → update c.entries c.next e i = c.entries i :=
    fun i hi => update_of_ne hi _ _
  refine ⟨rfl, hother, ?_⟩
  intro i hi f hf
  rw [FragmentCache.first] at hf
  by_cases hnext : i = c.next
  · subst hnext
    simp only [update_self, hlist] at hf
    cases hf
    exact hta
  · simp only [hother i hnext] at hf
    exact hi f hf

end frame

/-! ### Whole frames -/

section complete
variable {hz : ℕ} {c : FragmentCache} {a : Arrival} {m x : Rx} {ms ws : List Rx}

/-- A whole fragmented frame that is not protected. -/
structure Complete (m : Rx) (ms : List Rx) : Prop where
  handled : ∀ x ∈ m :: ms, isCtl x.fc = false ∧ isExt x.fc = false ∧
    isMulticastEtherAddr (addr1 x.data) = false
  numbered : ∀ (i : ℕ) (x : Rx), (m :: ms)[i]? = some x →
    x.frag = i ∧ hasMorefrags x.fc = decide (i < ms.length)
  same : ∀ x ∈ ms, SameFrame m x
  plain : ∀ x ∈ m :: ms, requiresSequentialPn x = false ∧ decryptedWithKey x = false
  several : ms ≠ []
  short : extraLength ms ≤ 65535

/-- The fragments `m :: ws` have come, at the time `t` first; since then `k` other frames have
begun.  All other entries belong to other senders. -/
structure Waiting (c : FragmentCache) (idx k t : ℕ) (m : Rx) (ws : List Rx) : Prop where
  idx_lt : idx < 4
  next : c.next = (idx + 1 + k) % 4
  pending : Pending (c.entries idx) m ws
  time : (c.entries idx).firstFragTime = t
  others : ∀ i, i ≠ idx → ∀ f ∈ c.first i, addr2 f ≠ addr2 m.data

theorem nextEntry_eq {i : ℕ} (h : i < 4) : nextEntry i = (i + 1) % 4 := by
  unfold nextEntry fragmentMax
  split <;> omega

theorem firstFragTime_firstFragment (c : FragmentCache) (a : Arrival) :
    ((firstFragment c a).entries c.next).firstFragTime = a.jiffies := by
  unfold firstFragment
  simp only [reassembleAdd, FragmentCache.setEntry, update_self]
  split
  · simp
  · split <;> simp

theorem Waiting.first (h : Waiting c idx k t m ws) : c.first idx = some m.data := by
  rw [FragmentCache.first, h.pending.list]
  rfl

theorem waiting_first (hc : c.next < 4) (hothers : ∀ i, ∀ f ∈ c.first i, addr2 f ≠ addr2 a.rx.data)
    (hfrag : a.rx.frag = 0) :
    Waiting (firstFragment c a) c.next 0 a.jiffies a.rx [] := by
  obtain ⟨e, he, -⟩ := firstFragment_eq c a
  refine ⟨hc, ?_, pending_firstFragment c hfrag, firstFragTime_firstFragment c a, ?_⟩
  · rw [he]
    exact nextEntry_eq hc
  intro i hi f hf
  rw [he, FragmentCache.first] at hf
  simp only [update_of_ne hi] at hf
  exact hothers i f hf

/-- **An MPDU of another sender** leaves the frame waiting, unless it is the fourth that begins a
frame. -/
theorem Waiting.other (h : Waiting c idx k t m ws) (hta : addr2 a.rx.data ≠ addr2 m.data)
    (hk : a.begins = true → k < 3) :
    Waiting (rxHDefragment hz c a).2 idx (if a.begins then k + 1 else k) t m ws := by
  have hmine : ∀ f ∈ c.first idx, addr2 f = addr2 m.data := by
    intro f hf
    rw [h.first] at hf
    cases hf
    rfl
  cases hb : a.begins with
  | false =>
    have hun := rxHDefragment_untouched hz c hta hb
    have hidx := hun.mine idx hmine
    exact
      { idx_lt := h.idx_lt
        next := hun.next.trans h.next
        pending := by rw [hidx]; exact h.pending
        time := by rw [hidx]; exact h.time
        others := fun i hi => hun.others i (h.others i hi) }
  | true =>
    rw [rxHDefragment_begins hz c hb]
    obtain ⟨hnext, hsame, hothers⟩ := firstFragment_frame (c := c) hta
    have hk3 := hk hb
    have hn := h.next
    have hidx : (firstFragment c a).entries idx = c.entries idx := hsame idx (by omega)
    exact
      { idx_lt := h.idx_lt
        next := by
          rw [hnext, nextEntry_eq (by omega), if_pos rfl]
          omega
        pending := by rw [hidx]; exact h.pending
        time := by rw [hidx]; exact h.time
        others := fun i hi => hothers i (h.others i hi) }

/-- **The search finds** the entry that fits, when all others have another header. -/
theorem reassembleFind_finds {hz jiffies frag seq rxQueue : ℕ} {hdr f : List UInt8}
    {rest : List (List UInt8)} {i : ℕ} (hi : i < 4) (hlist : (c.entries i).skbList = f :: rest)
    (hseq : (c.entries i).seq = seq) (hq : (c.entries i).rxQueue = rxQueue)
    (hfrag : (c.entries i).lastFrag + 1 = frag) (hhdr : sameHeader hdr f = true)
    (htime : timeAfter jiffies (ulong ((c.entries i).firstFragTime + 2 * hz)) = false)
    (hothers : ∀ j, j ≠ i → ∀ g ∈ c.first j, sameHeader hdr g = false) :
    ∀ n idx, idx < 4 → (idx + 3 - i) % 4 < n →
      reassembleFind hz jiffies frag seq rxQueue hdr n idx c = (c, some i) := by
  intro n
  induction n with
  | zero => intro idx _ h; omega
  | succ n ih =>
    intro idx hidx hn
    obtain ⟨j, hj, hj4, hji⟩ : ∃ j, (if idx = 0 then fragmentMax - 1 else idx - 1) = j ∧ j < 4 ∧
        (j = i ∨ (j + 3 - i) % 4 < n) := by
      refine ⟨_, rfl, ?_⟩
      unfold fragmentMax
      split <;> omega
    unfold reassembleFind
    simp only [hj]
    by_cases heq : j = i
    · subst heq
      rw [hlist]
      simp [hseq, hq, hfrag, hhdr, htime]
    have hrec := ih j hj4 (hji.resolve_left heq)
    split
    · exact hrec
    rename_i g rest' hg
    have hfirst : g ∈ c.first j := by
      rw [FragmentCache.first, hg]
      rfl
    split
    · exact hrec
    · rwa [if_pos (hothers j heq g hfirst)]

structure Follows (m : Rx) (ws : List Rx) (x : Rx) : Prop where
  frag : x.frag = ws.length + 1
  same : SameFrame m x
  handled : isCtl x.fc = false ∧ isExt x.fc = false ∧ isMulticastEtherAddr (addr1 x.data) = false

theorem Follows.sameHeader (hx : Follows m ws x) : sameHeader x.data m.data = true := by
  have hft : (frameControl x.data ^^^ frameControl m.data) &&& 0x000c = 0 := by
    rw [Nat.and_xor_distrib_right, show frameControl x.data &&& 0x000c =
      frameControl m.data &&& 0x000c from hx.same.ftype, Nat.xor_self]
  simp [Defrag.sameHeader, hft, hx.same.addr1, hx.same.addr2]

theorem Pending.check_plain {e : FragmentEntry} (hp : Pending e m ws)
    (hm : requiresSequentialPn m = false ∧ decryptedWithKey m = false) :
    checkProtection e x = .ok e := by
  have hc : e.checkSequentialPn = false := hp.check.trans hm.1
  have hprot : e.isProtected = false := by
    rw [hp.prot, hm.1, hm.2]
    rfl
  simp [checkProtection, hc, hprot]

section
variable (h : Waiting c idx k t m ws) (hx : Follows m ws a.rx)
  (hm : requiresSequentialPn m = false ∧ decryptedWithKey m = false)
include h hx hm

theorem Waiting.extend (hlen : extraLength (ws ++ [a.rx]) ≤ 65535) :
    (c.entries idx).extraLen + a.rx.body.length ≤ 65535 ∧
      Pending { c.entries idx with
        skbList := (c.entries idx).skbList ++ [a.rx.body], lastFrag := u16 a.rx.frag,
        extraLen := u16 ((c.entries idx).extraLen + a.rx.body.length) } m (ws ++ [a.rx]) := by
  have hp := h.pending
  have hfits : (c.entries idx).extraLen + a.rx.body.length ≤ 65535 := by
    rw [hp.extraLen]
    simpa [extraLength] using hlen
  refine ⟨hfits, hp.extend ?_ ?_ ?_ (hx.sameHeader) (hp.check_plain hm) hfits⟩
  · rw [hp.seq, hx.same.seq]
  · rw [hp.rxQueue, hx.same.queue]
  · rw [hp.lastFrag, hx.frag]

variable (hlin : a.linearizeOk = true)
  (htime : timeAfter a.jiffies (ulong (t + 2 * hz)) = false)
include hlin htime

theorem Waiting.joins : rxHDefragment hz c a = addFragment c idx (c.entries idx) a := by
  have hp := h.pending
  have hfind : reassembleFind hz a.jiffies a.rx.frag a.rx.seq a.rx.seqnoIdx a.rx.data fragmentMax
      c.next c = (c, some idx) := by
    refine reassembleFind_finds h.idx_lt hp.list ?_ ?_ ?_ ?_ ?_ ?_ fragmentMax c.next ?_ ?_
    · rw [hp.seq, hx.same.seq]
    · rw [hp.rxQueue, hx.same.queue]
    · rw [hp.lastFrag, hx.frag]
    · exact hx.sameHeader
    · rwa [h.time]
    · intro j hj g hg
      apply sameHeader_of_addr2
      rw [hx.same.addr2]
      exact (h.others j hj g hg).symm
    · have hn := h.next
      omega
    · have hn := h.next
      unfold fragmentMax
      omega
  have hcheck : checkProtection (c.entries idx) a.rx = .ok (c.entries idx) := hp.check_plain hm
  have hfrag : a.rx.frag ≠ 0 := by
    rw [hx.frag]
    omega
  unfold rxHDefragment laterFragment
  simp [hx.handled, hlin, hfrag, hfind, hcheck]

variable (hlen : extraLength (ws ++ [a.rx]) ≤ 65535)
include hlen

theorem Waiting.more (hmore : hasMorefrags a.rx.fc = true) :
    (rxHDefragment hz c a).1 = ⟨.queued, none⟩ ∧
      Waiting (rxHDefragment hz c a).2 idx k t m (ws ++ [a.rx]) := by
  obtain ⟨hfits, hpending⟩ := h.extend hx hm hlen
  rw [h.joins hx hm hlin htime]
  simp only [addFragment, if_neg (Nat.not_lt.mpr hfits), if_pos hmore]
  refine ⟨trivial, h.idx_lt, h.next, ?_, ?_, ?_⟩
  · simp only [FragmentCache.setEntry, update_self]
    exact hpending
  · simp only [FragmentCache.setEntry, update_self]
    exact h.time
  · intro i hi
    simp only [FragmentCache.first, FragmentCache.setEntry, update_of_ne hi]
    exact h.others i hi

theorem Waiting.last (hexp : a.expandOk = true) (hmore : hasMorefrags a.rx.fc = false) :
    (rxHDefragment hz c a).1 = ⟨.continue, some (m.data ++ (ws ++ [a.rx]).flatMap Rx.body)⟩ := by
  obtain ⟨hfits, hpending⟩ := h.extend hx hm hlen
  rw [h.joins hx hm hlin htime]
  have hlist := hpending.list
  dsimp only at hlist
  simp only [addFragment, if_neg (Nat.not_lt.mpr hfits), hmore, Bool.false_eq_true, if_false, hlist,
    hexp, and_false, flatMap_def, reduceCtorEq]

end

end complete

/-! ### Runs -/

section runs
variable {hz : ℕ} {c c' : FragmentCache} {a : Arrival} {m : Rx} {ms : List Rx}
  {ls : List (Label FragmentCache Arrival Outcome)}

def sentBy (ta : List UInt8) (l : Label FragmentCache Arrival Outcome) : Bool :=
  addr2 l.act.rx.data == ta

def beginsOther (ta : List UInt8) (l : Label FragmentCache Arrival Outcome) : Bool :=
  !sentBy ta l && l.act.begins

def answers (m : Rx) (ms : List Rx) (todo : List Rx) : List Outcome :=
  if todo = [] then []
  else List.replicate (todo.length - 1) ⟨.queued, none⟩ ++
    [⟨.continue, some (m.data ++ ms.flatMap Rx.body)⟩]

theorem Complete.follows (h : Complete m ms) {ws todo : List Rx} {x : Rx}
    (hms : ms = ws ++ x :: todo) : Follows m ws x ∧ hasMorefrags x.fc = !todo.isEmpty ∧
      extraLength (ws ++ [x]) ≤ 65535 := by
  have hx : x ∈ ms := by simp [hms]
  have hnum := h.numbered (ws.length + 1) x (by simp [hms])
  refine ⟨⟨hnum.1, h.same x hx, h.handled x (.tail _ hx)⟩, ?_, ?_⟩
  · rw [hnum.2, hms]
    cases todo <;> simp
  have hshort := h.short
  simp only [hms, extraLength, map_append, map_cons, sum_append, sum_cons,
    map_nil, sum_nil] at hshort ⊢
  omega

/-- **A waiting frame is completed** by the fragments that are still to come. -/
theorem run_waiting (hm : Complete m ms) (hrun : Run (step hz) c ls c') :
    ∀ {idx k t : ℕ} {ws todo : List Rx}, Waiting c idx k t m ws → ms = ws ++ todo →
      (ls.filter (sentBy (addr2 m.data))).map (fun l => l.act.rx) = todo →
      (∀ l ∈ ls.filter (sentBy (addr2 m.data)), l.act.linearizeOk = true ∧ l.act.expandOk = true ∧
        timeAfter l.act.jiffies (ulong (t + 2 * hz)) = false) →
      ls.countP (beginsOther (addr2 m.data)) + k ≤ 3 →
      (ls.filter (sentBy (addr2 m.data))).map Label.out = answers m ms todo := by
  have hplain := hm.plain m (.head _)
  induction hrun with
  | nil c =>
    intro idx k t ws todo _ _ htodo _ _
    obtain rfl : todo = [] := by simpa using htodo.symm
    rfl
  | @cons c c₁ c₂ a o ls hs _ ih =>
    intro idx k t ws todo hw hms htodo hmem hfew
    have hstep : rxHDefragment hz c a = (o, c₁) := Option.some.inj hs
    rw [countP_cons] at hfew
    cases hsent : sentBy (addr2 m.data) ⟨c, a, o, c₁⟩ with
    | true =>
      rw [filter_cons_of_pos hsent] at htodo hmem ⊢
      rw [map_cons] at htodo ⊢
      obtain ⟨hlin, hexp, htime⟩ := hmem _ (.head _)
      have hfew' : ls.countP (beginsOther (addr2 m.data)) + k ≤ 3 := by omega
      -- the fragment is the next one of the frame
      obtain ⟨rest, hrest⟩ : ∃ rest,
          (ls.filter (sentBy (addr2 m.data))).map (fun l => l.act.rx) = rest := ⟨_, rfl⟩
      rw [hrest] at htodo
      subst htodo
      obtain ⟨hfollows, hmore, hlen⟩ := hm.follows hms
      have hws : ms = (ws ++ [a.rx]) ++ rest := by
        rw [hms, append_assoc]
        rfl
      cases rest with
      | nil =>
        have hlast := hw.last hfollows hplain hlin htime hlen hexp (by simpa using hmore)
        rw [hstep] at hlast
        have hnil : ls.filter (sentBy (addr2 m.data)) = [] := by simpa using hrest
        rw [hnil, answers, if_neg (cons_ne_nil _ _), hms]
        simp only [map_nil, length_singleton, Nat.sub_self, replicate_zero, nil_append]
        rw [← hlast]
      | cons y rest =>
        obtain ⟨hout, hnext⟩ :=
          hw.more hfollows hplain hlin htime hlen (by simpa using hmore)
        rw [hstep] at hout hnext
        have hrec := ih hnext hws hrest
          (fun l hl => hmem l (.tail _ hl)) hfew'
        rw [hrec, answers, answers, if_neg (cons_ne_nil _ _),
          if_neg (cons_ne_nil _ _), show o = _ from hout]
        simp only [length_cons, Nat.add_sub_cancel, replicate_succ, cons_append]
    | false =>
      have hne : addr2 a.rx.data ≠ addr2 m.data := by simpa [sentBy] using hsent
      rw [filter_cons_of_neg (by simp [hsent])] at htodo hmem ⊢
      have hbegins : beginsOther (addr2 m.data) ⟨c, a, o, c₁⟩ = a.begins := by
        simp [beginsOther, hsent]
      rw [hbegins] at hfew
      have hfew' : a.begins = true → k < 3 := by
        intro hb
        rw [if_pos hb] at hfew
        omega
      have hwait : Waiting (rxHDefragment hz c a).2 idx _ t m ws := hw.other hne hfew'
      rw [hstep] at hwait
      refine ih hwait hms htodo hmem ?_
      split <;> split at hfew <;> omega

theorem Complete.begins (hm : Complete a.rx ms) (hlin : a.linearizeOk = true) :
    a.begins = true ∧ a.rx.frag = 0 := by
  obtain ⟨hctl, hext, hmcast⟩ := hm.handled a.rx (.head _)
  obtain ⟨hfrag, hmore⟩ := hm.numbered 0 a.rx rfl
  rw [decide_eq_true (length_pos_iff.mpr hm.several)] at hmore
  exact ⟨by simp [Arrival.begins, Rx.isFragment, hctl, hext, hmcast, hlin, hfrag, hmore], hfrag⟩

/-- **A whole frame is put together**, on a cache that holds nothing of its sender. -/
theorem run_complete (hm : Complete m ms) (hrun : Run (step hz) c ls c') (hnext : c.next < 4)
    (hclean : ∀ i, ∀ f ∈ c.first i, addr2 f ≠ addr2 m.data)
    (hown : (ls.filter (sentBy (addr2 m.data))).map (fun l => l.act.rx) = m :: ms)
    (hmem : ∀ l ∈ ls.filter (sentBy (addr2 m.data)), l.act.linearizeOk = true ∧
      l.act.expandOk = true)
    (htime : ∀ l₀ ∈ (ls.filter (sentBy (addr2 m.data))).head?,
      ∀ l ∈ ls.filter (sentBy (addr2 m.data)),
        timeAfter l.act.jiffies (ulong (l₀.act.jiffies + 2 * hz)) = false)
    (hfew : (ls.dropWhile fun l => !sentBy (addr2 m.data) l).countP
      (beginsOther (addr2 m.data)) ≤ 3) :
    (ls.filter (sentBy (addr2 m.data))).map Label.out = ⟨.queued, none⟩ :: answers m ms ms := by
  induction hrun with
  | nil c => cases hown
  | @cons c c₁ c₂ a o ls hs hrun ih =>
    have hstep : rxHDefragment hz c a = (o, c₁) := Option.some.inj hs
    cases hsent : sentBy (addr2 m.data) ⟨c, a, o, c₁⟩ with
    | true =>
      rw [filter_cons_of_pos hsent] at hown hmem htime ⊢
      rw [dropWhile_cons_of_neg (by simp [hsent]), countP_cons] at hfew
      rw [map_cons] at hown ⊢
      obtain ⟨hrx, hrest⟩ : a.rx = m ∧ _ := List.cons.inj hown
      subst hrx
      obtain ⟨hb, hfrag⟩ := hm.begins (hmem _ (.head _)).1
      rw [rxHDefragment_begins hz c hb] at hstep
      cases hstep
      have hwait := waiting_first hnext hclean hfrag
      rw [run_waiting hm hrun hwait rfl hrest ?_ (by omega)]
      intro l hl
      obtain ⟨hlin, hexp⟩ := hmem l (.tail _ hl)
      exact ⟨hlin, hexp, htime _ rfl l (.tail _ hl)⟩
    | false =>
      have hne : addr2 a.rx.data ≠ addr2 m.data := by simpa [sentBy] using hsent
      rw [filter_cons_of_neg (by simp [hsent])] at hown hmem htime ⊢
      rw [dropWhile_cons_of_pos (by simp [hsent])] at hfew
      cases hb : a.begins with
      | false =>
        have hun := rxHDefragment_untouched hz c hne hb
        rw [hstep] at hun
        exact ih (hun.next ▸ hnext) (fun i => hun.others i (hclean i)) hown hmem htime hfew
      | true =>
        rw [rxHDefragment_begins hz c hb] at hstep
        cases hstep
        obtain ⟨hn, -, hothers⟩ := firstFragment_frame (c := c) hne
        have hlt : nextEntry c.next < 4 := by
          rw [nextEntry_eq hnext]
          omega
        exact ih (hn ▸ hlt) (fun i => hothers i (hclean i)) hown hmem htime hfew

end runs

/-! ### Fragments of an MSDU -/

section fragments
open TxFragment
variable {msdu : Msdu} {f : Mpdu} {x : Rx} {last : Bool} {i : ℕ}

/-- `ieee80211_parse_qos`: the index of the sequence number space. -/
def parseQos (data : List UInt8) : Fin 17 :=
  if isDataQos (frameControl data) then
    Fin.ofNat 17 ((data.getD (qosCtlOffs (frameControl data)) 0).toNat % 16)
  else 16

/-- The MPDU is received as these bytes, and not decrypted. -/
@[mk_iff] structure Plain (x : Rx) : Prop where
  parsed : x.seqnoIdx = parseQos x.data
  decrypted : x.decrypted = false

/-- What the receiver reads from a fragment of the MSDU. -/
structure Reads (msdu : Msdu) (last : Bool) (i : ℕ) (f : Mpdu) (x : Rx) : Prop where
  fc : x.fc = fragFc last (frameControl msdu.hdr)
  frag : x.frag = i
  seq : x.seq = getSn (seqCtrl msdu.hdr)
  queue : x.seqnoIdx = parseQos msdu.bytes
  addr1 : addr1 x.data = addr1 msdu.hdr
  addr2 : addr2 x.data = addr2 msdu.hdr
  body : x.body = f.body

theorem field_append {l l' : List UInt8} {off n : ℕ} (h : off + n ≤ l.length) :
    field (l ++ l') off n = field l off n := by
  unfold field
  rw [drop_append_of_le_length (by omega), take_append_of_le_length]
  rw [length_drop]
  omega

theorem getD_eq_field (l : List UInt8) (off : ℕ) : l.getD off 0 = (field l off 1).getD 0 0 := by
  simp [field, getD_eq_getElem?_getD]

theorem reads_of_fragHdr (hf : FragHdr last i msdu.hdr f.hdr) (hi : i < 16)
    (hx : x.data = f.bytes) (hplain : Plain x) : Reads msdu last i f x := by
  obtain ⟨h24, -⟩ := hdrlen_bounds msdu.isData
  have hlen := msdu.length_hdr
  have hlen' := hf.length
  have hfirst := msdu.first
  have hfc : x.fc = fragFc last (frameControl msdu.hdr) := by
    rw [Rx.fc, hx, Mpdu.bytes, frameControl_append (by omega), hf.frameControl]
  have hsc : seqCtrl x.data = seqCtrl msdu.hdr + i := by
    rw [hx, Mpdu.bytes, seqCtrl, le16_append (by omega)]
    exact hf.seqCtrl
  have hfield : ∀ off n, 2 ≤ off → off + n ≤ 22 ∨ 24 ≤ off → off + n ≤ msdu.hdr.length →
      field x.data off n = field msdu.hdr off n := by
    intro off n hoff hn hin
    rw [hx, Mpdu.bytes, field_append (by omega)]
    exact hf.field off n hoff hn
  unfold fragOf at hfirst
  refine ⟨hfc, ?_, ?_, ?_, ?_, ?_, ?_⟩
  · rw [Rx.frag, hsc, fragOf]
    omega
  · rw [Rx.seq, hsc, getSn, getSn]
    omega
  · -- the QoS control field is copied with the header
    rw [hplain.parsed, parseQos, parseQos]
    rw [Rx.fc] at hfc
    have hfc' : frameControl msdu.bytes = frameControl msdu.hdr :=
      frameControl_append (by omega) msdu.body
    rw [hfc, hfc', isDataQos_fragFc]
    split
    next hqos =>
      have hoff : qosCtlOffs (fragFc last (frameControl msdu.hdr)) =
          qosCtlOffs (frameControl msdu.hdr) := by
        simp only [qosCtlOffs, hasA4_fragFc]
      have hin : qosCtlOffs (frameControl msdu.hdr) + 1 ≤ msdu.hdr.length := by
        rw [hlen, hdrlen_of_isData msdu.isData, hqos, qosCtlOffs]
        simp only [if_true]
        omega
      have hge : 24 ≤ qosCtlOffs (frameControl msdu.hdr) := by
        unfold qosCtlOffs
        split <;> omega
      rw [getD_eq_field, getD_eq_field msdu.bytes, hoff,
        hfield _ 1 (by omega) (Or.inr hge) hin, Msdu.bytes, field_append hin]
    · rfl
  · exact hfield 4 6 (by omega) (by omega) (by omega)
  · exact hfield 10 6 (by omega) (by omega) (by omega)
  · rw [Rx.body, hfc, hdrlen_fragFc msdu.isData, hx, Mpdu.bytes, ← hlen, ← hlen', skbPull,
      if_pos (by rw [length_append]; omega), drop_left]

theorem Reads.sameFrame {g : Mpdu} {y : Rx} {last' : Bool} {j : ℕ} (hx : Reads msdu last i f x)
    (hy : Reads msdu last' j g y) : SameFrame x y where
  seq := hy.seq.trans hx.seq.symm
  queue := hy.queue.trans hx.queue.symm
  ftype := by rw [hy.fc, hx.fc, ftype_fragFc, ftype_fragFc]
  addr1 := hy.addr1.trans hx.addr1.symm
  addr2 := hy.addr2.trans hx.addr2.symm

theorem Reads.handled (hx : Reads msdu last i f x)
    (huni : isMulticastEtherAddr (Ieee80211.addr1 msdu.hdr) = false) :
    isCtl x.fc = false ∧ isExt x.fc = false ∧
      isMulticastEtherAddr (Ieee80211.addr1 x.data) = false := by
  have hdata := msdu.isData
  simp only [isData, beq_iff_eq] at hdata
  rw [isCtl, isExt, hx.fc, ftype_fragFc, hdata, hx.addr1]
  exact ⟨rfl, rfl, huni⟩

theorem Reads.plain (hx : Reads msdu last i f x) (hplain : Plain x) :
    requiresSequentialPn x = false ∧ decryptedWithKey x = false := by
  have hprot : hasProtected x.fc = false := by
    rw [hx.fc, hasProtected_fragFc]
    exact msdu.unprotected
  constructor
  · rw [requiresSequentialPn]
    split
    · rfl
    · rw [hprot, Bool.and_false]
  · rw [decryptedWithKey, hprot, hplain.decrypted, Bool.or_false, Bool.and_false]

/-- **The fragments of an MSDU are a whole frame**, whose bodies make up that of the MSDU. -/
theorem complete_of_fragments {fs : List Mpdu} {rxs : List Rx}
    (huni : isMulticastEtherAddr (addr1 msdu.hdr) = false)
    (hflat : (fs.map Mpdu.body).flatten = msdu.body) (h2 : 2 ≤ fs.length) (h16 : fs.length ≤ 16)
    (hhdr : ∀ i f, fs[i]? = some f → FragHdr (i + 1 == fs.length) i msdu.hdr f.hdr)
    (hrx : rxs.map Rx.data = fs.map Mpdu.bytes) (hplain : ∀ x ∈ rxs, Plain x) :
    ∃ m ms, rxs = m :: ms ∧ Complete m ms ∧ addr2 m.data = addr2 msdu.hdr ∧
      ∃ hdr, 24 ≤ hdr.length ∧ hdr.length = hdrlen (frameControl hdr) ∧
        m.data ++ ms.flatMap Rx.body = hdr ++ msdu.body := by
  have hlength : rxs.length = fs.length := by simpa using congrArg List.length hrx
  have hreads : ∀ i x, rxs[i]? = some x →
      ∃ f, fs[i]? = some f ∧ x.data = f.bytes ∧ Reads msdu (i + 1 == fs.length) i f x := by
    intro i x hx
    have hget := congrArg (fun l : List (List UInt8) => l[i]?) hrx
    simp only [List.getElem?_map, hx, Option.map_some] at hget
    obtain ⟨f, hf, hdata⟩ := Option.map_eq_some_iff.mp hget.symm
    have hi := (List.getElem?_eq_some_iff.mp hf).1
    exact ⟨f, hf, hdata.symm, reads_of_fragHdr (hhdr i f hf) (by omega) hdata.symm
      (hplain x (mem_of_getElem? hx))⟩
  have hbody : rxs.map Rx.body = fs.map Mpdu.body := by
    apply ext_getElem?
    intro i
    rw [List.getElem?_map, List.getElem?_map]
    cases hx : rxs[i]? with
    | none =>
      rw [List.getElem?_eq_none_iff] at hx
      rw [List.getElem?_eq_none (by omega)]
      rfl
    | some x =>
      obtain ⟨f, hf, -, hread⟩ := hreads i x hx
      rw [hf, Option.map_some, Option.map_some, hread.body]
  obtain ⟨m, ms, rfl⟩ := exists_cons_of_length_pos (l := rxs) (by omega)
  obtain ⟨f, hf, hdata, hm⟩ := hreads 0 m rfl
  have hmem : ∀ x ∈ m :: ms, ∃ i f, Reads msdu (i + 1 == fs.length) i f x := by
    intro x hx
    obtain ⟨i, hi⟩ := mem_iff_getElem?.mp hx
    obtain ⟨f, -, -, hread⟩ := hreads i x hi
    exact ⟨i, f, hread⟩
  have hbytes : m.body ++ ms.flatMap Rx.body = msdu.body := by
    rw [← hflat, ← hbody, map_cons, flatten_cons, flatMap_def]
  rw [length_cons] at hlength
  have hfhdr := hhdr 0 f hf
  have hfc : hdrlen (frameControl f.hdr) = hdrlen (frameControl msdu.hdr) := by
    rw [hfhdr.frameControl, hdrlen_fragFc msdu.isData]
  have hlen : f.hdr.length = hdrlen (frameControl msdu.hdr) := by
    rw [hfhdr.length, msdu.length_hdr]
  refine ⟨m, ms, rfl, ?_, hm.addr2, f.hdr, ?_, hlen.trans hfc.symm, ?_⟩
  · refine ⟨?_, ?_, ?_, ?_, ?_, ?_⟩
    · intro x hx
      obtain ⟨i, f, hread⟩ := hmem x hx
      exact hread.handled huni
    · intro i x hx
      obtain ⟨f, -, -, hread⟩ := hreads i x hx
      have hi := (List.getElem?_eq_some_iff.mp hx).1
      rw [length_cons] at hi
      refine ⟨hread.frag, ?_⟩
      rw [hread.fc, hasMorefrags_fragFc, Bool.eq_iff_iff]
      simp only [Bool.not_eq_true', beq_eq_false_iff_ne, decide_eq_true_eq]
      omega
    · intro x hx
      obtain ⟨i, g, hread⟩ := hmem x (.tail _ hx)
      exact hm.sameFrame hread
    · intro x hx
      obtain ⟨i, f, hread⟩ := hmem x hx
      exact hread.plain (hplain x hx)
    · rintro rfl
      simp at hlength
      omega
    · have hshort := msdu.short
      have hsum := congrArg List.length hbytes
      rw [length_append, length_flatMap] at hsum
      unfold extraLength
      omega
  · rw [hlen]
    exact (hdrlen_bounds msdu.isData).1
  · rw [← hbytes, hm.body, hdata, Mpdu.bytes, append_assoc]

/-- How the fragments reach the receiver: in order, within two seconds, among MPDUs of other senders
of which at most three begin frames; memory allocations succeed. -/
@[mk_iff] structure Delivered (hz : ℕ) (ta : List UInt8) (frags : List (List UInt8))
    (ls : List (Label FragmentCache Arrival Outcome)) : Prop where
  data : (ls.filter (sentBy ta)).map (fun l => l.act.rx.data) = frags
  plain : ∀ l ∈ ls.filter (sentBy ta), Plain l.act.rx
  memory : ∀ l ∈ ls.filter (sentBy ta), l.act.linearizeOk = true ∧ l.act.expandOk = true
  timely : ∀ l₀ ∈ (ls.filter (sentBy ta)).head?, ∀ l ∈ ls.filter (sentBy ta),
    timeAfter l.act.jiffies (ulong (l₀.act.jiffies + 2 * hz)) = false
  few : (ls.dropWhile fun l => !sentBy ta l).countP (beginsOther ta) ≤ 3

/-- **Fragmentation round trip.**  A frame longer than the threshold becomes at most 16 fragments
within it, numbered from 0 on.  If the frame is not group addressed, the receiver queues them, and
the last gives a frame with the body of the MSDU. -/
theorem fragmentation_roundtrip (msdu : Msdu) {info : TxInfo} (hdont : info.dontfrag = false)
    (hampdu : info.ampdu = false) (hhw : info.supportsTxFrag = false) {threshold : ℕ}
    (h256 : 256 ≤ threshold) (hlong : threshold < msdu.bytes.length + fcsLen) :
    ∃ frags, txHFragment info threshold msdu.bytes = some frags ∧
      2 ≤ frags.length ∧ frags.length ≤ 16 ∧
      (∀ i f, frags[i]? = some f → fragOf (seqCtrl f) = i ∧
        hasMorefrags (frameControl f) = decide (i + 1 < frags.length) ∧
        f.length + fcsLen ≤ threshold) ∧
      (isMulticastEtherAddr (addr1 msdu.hdr) = false →
        ∀ (hz : ℕ) (ls : List (Label FragmentCache Arrival Outcome)) (c' : FragmentCache),
          Run (step hz) initFragCache ls c' → Delivered hz (addr2 msdu.hdr) frags ls →
          ∃ skb, (ls.filter (sentBy (addr2 msdu.hdr))).map Label.out =
              List.replicate (frags.length - 1) ⟨.queued, none⟩ ++ [⟨.continue, some skb⟩] ∧
            skbPull skb (hdrlen (frameControl skb)) = msdu.body) := by
  obtain ⟨fs, htx, hflat, h2, h16, hfs⟩ := txHFragment_spec msdu hdont hampdu hhw h256 hlong
  have hhdr : ∀ i f, fs[i]? = some f → FragHdr (i + 1 == fs.length) i msdu.hdr f.hdr :=
    fun i f hf => (hfs i f hf).1
  have h24 := (hdrlen_bounds msdu.isData).1
  have hlen := msdu.length_hdr
  refine ⟨fs.map Mpdu.bytes, htx, by simpa using h2, by simpa using h16, ?_, ?_⟩
  · intro i bytes hi
    rw [List.getElem?_map] at hi
    obtain ⟨f, hf, rfl⟩ := Option.map_eq_some_iff.mp hi
    have hlt := (List.getElem?_eq_some_iff.mp hf).1
    obtain ⟨h, hle⟩ := hfs i f hf
    have hlen' := h.length
    have hfirst := msdu.first
    refine ⟨?_, ?_, hle⟩
    · rw [Mpdu.bytes, seqCtrl, le16_append (by omega), show le16 f.hdr 22 = _ from h.seqCtrl]
      unfold fragOf at hfirst ⊢
      omega
    rw [Mpdu.bytes, frameControl_append (by omega), h.frameControl, hasMorefrags_fragFc,
      Bool.eq_iff_iff]
    simp only [Bool.not_eq_true', beq_eq_false_iff_ne, decide_eq_true_eq, length_map]
    omega
  · intro huni hz ls c' hrun hdel
    have hrx : ((ls.filter (sentBy (addr2 msdu.hdr))).map fun l => l.act.rx).map Rx.data =
        fs.map Mpdu.bytes := by
      rw [map_map]
      exact hdel.data
    have hplain : ∀ x ∈ (ls.filter (sentBy (addr2 msdu.hdr))).map (fun l => l.act.rx),
        Plain x := by
      intro x hx
      obtain ⟨l, hl, rfl⟩ := mem_map.mp hx
      exact hdel.plain l hl
    obtain ⟨m, ms, hown, hm, hta, hdr, hge, hhdrlen, hbytes⟩ :=
      complete_of_fragments huni hflat h2 h16 hhdr hrx hplain
    have hcount : fs.length = ms.length + 1 := by
      have h := congrArg List.length hrx
      rw [hown] at h
      simpa using h.symm
    rw [← hta] at hdel hown ⊢
    have hout := run_complete hm hrun (by decide) (fun i f hf => by cases hf) hown hdel.memory
      hdel.timely hdel.few
    refine ⟨m.data ++ ms.flatMap Rx.body, ?_, ?_⟩
    · rw [hout, answers, if_neg hm.several, length_map, hcount, Nat.add_sub_cancel]
      have hpos := length_pos_iff.mpr hm.several
      rw [← cons_append, ← replicate_succ, Nat.sub_add_cancel hpos]
    · rw [hbytes, frameControl_append (by omega), ← hhdrlen, skbPull,
        if_pos (by rw [length_append]; omega), drop_left]

instance (x : Rx) : Decidable (Plain x) :=
  decidable_of_iff' _ (plain_iff x)

instance (hz : ℕ) (ta : List UInt8) (frags : List (List UInt8))
    (ls : List (Label FragmentCache Arrival Outcome)) : Decidable (Delivered hz ta frags ls) :=
  decidable_of_iff' _ (delivered_iff hz ta frags ls)

/-- An MSDU of 300 bytes from the station `ta` to `ra`. -/
def longMsdu (ra ta : UInt8) : Msdu where
  hdr := [0x08, 0, 0, 0, ra, 0, 0, 0, 0, 1, 2, 0, 0, 0, 0, ta, 2, 0, 0, 0, 0, 3, 0x50, 0]
  body := (List.range 300).map UInt8.ofNat
  isData := by simp [isData, ftype, frameControl, le16]
  unprotected := by simp [hasProtected, frameControl, le16]
  length_hdr := by simp [hdrlen, isExt, isData, ftype, hasA4, isDataQos, frameControl, le16]
  first := by simp [fragOf, seqCtrl, le16]
  short := by simp

def softwareFrag : TxInfo := ⟨false, false, false⟩

def longFrags (ra ta : UInt8) : List (List UInt8) :=
  (txHFragment softwareFrag 256 (longMsdu ra ta).bytes).getD []

def received (data : List UInt8) : Arrival where
  rx := ⟨data, parseQos data, 0, none, false, Pn.zero⟩
  jiffies := 0

/-- Two fragments, with a whole frame of another station in between. -/
theorem fragmentation_roundtrip_interleaved : ∃ frags ls c',
    txHFragment softwareFrag 256 (longMsdu 2 2).bytes = some frags ∧
      Run (step 1000) initFragCache ls c' ∧ ls.countP (beginsOther (addr2 (longMsdu 2 2).hdr)) = 1 ∧
      ∃ skb, (ls.filter (sentBy (addr2 (longMsdu 2 2).hdr))).map Label.out =
          [⟨.queued, none⟩, ⟨.continue, some skb⟩] ∧
        skbPull skb (hdrlen (frameControl skb)) = (longMsdu 2 2).body := by
  obtain ⟨frags, htx, -, -, -, hrx⟩ := fragmentation_roundtrip (longMsdu 2 2)
    (show softwareFrag.dontfrag = false from rfl) rfl rfl (Nat.le_refl 256) (by decide +kernel)
  have hfrags : frags = longFrags 2 2 := by rw [longFrags, htx, Option.getD_some]
  obtain ⟨r, hr, hdel, hone⟩ : ∃ r, execute (step 1000) initFragCache (((longFrags 2 2).take 1 ++
      longFrags 2 3 ++ (longFrags 2 2).drop 1).map received) = some r ∧
      Delivered 1000 (addr2 (longMsdu 2 2).hdr) (longFrags 2 2) r.1 ∧
      r.1.countP (beginsOther (addr2 (longMsdu 2 2).hdr)) = 1 := by decide +kernel
  obtain ⟨skb, hout, hskb⟩ := hrx rfl 1000 r.1 r.2 (execute_run hr).1 (hfrags ▸ hdel)
  have hlen : frags.length = 2 := by
    rw [hfrags]
    decide +kernel
  rw [hlen] at hout
  exact ⟨frags, r.1, r.2, htx, (execute_run hr).1, hone, skb, hout, hskb⟩

def results (mpdus : List (List UInt8)) : List RxResult :=
  (execute (step 1000) initFragCache (mpdus.map received)).elim [] fun r =>
    r.1.map fun l => l.out.result

/-- Four whole frames of one other station take the entry of the waiting fragment away.  The
fragments of a group-addressed frame are dropped. -/
theorem fragments_lost :
    results ((longFrags 2 2).take 1 ++ (List.replicate 4 (longFrags 2 3)).flatten ++
        (longFrags 2 2).drop 1) =
      [.queued, .queued, .continue, .queued, .continue, .queued, .continue, .queued, .continue,
        .dropDefragMismatch] ∧
    results (longFrags 1 2) = [.dropMcastFragment, .dropMcastFragment] := by
  decide +kernel

end fragments

end Iwlwifi.Ieee80211.Defrag
