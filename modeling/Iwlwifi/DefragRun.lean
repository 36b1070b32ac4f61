import Iwlwifi.Defrag

/-! # Every reassembled frame is one frame

What the fragment cache holds, and what leaves it.

* `Fragments m ms`: the MPDUs `m :: ms` are the fragments 0, 1, ... of one frame of one sender,
  protected throughout in the way the first one is.
* `Pending e m ms`: the cache entry `e` holds the MPDUs `m :: ms` of such a frame, with the
  sequence number, packet number and key color of the last one.
* `CacheOk past c`: every entry in use is pending for MPDUs that were passed to the handler, in
  this order.  The handler keeps it (`rxHDefragment_ok`), for any interleaving of frames.
* `defragment_reassembles`: a frame that comes out of a run is the first fragment followed by the
  bodies of the others. -/

namespace Iwlwifi.Ieee80211.Defrag

open Bytes Function List

/-- The packet number of an MPDU, where the handler reads it: for a first fragment in the replay
counter of the key, for the others in `rx->ccm_gcm`. -/
def Rx.pn (rx : Rx) : Pn := if rx.frag = 0 then keyPn rx else rx.ccmGcmPn

theorem pn_of_ccmpDecryptPn {rx rx' : Rx} {key : Key} {pn : Pn} {allowSamePn : Bool}
    (h : ccmpDecryptPn rx key pn false allowSamePn true = some rx') : rx'.pn = pn := by
  unfold ccmpDecryptPn at h
  simp only [Bool.false_eq_true, if_false, if_true] at h
  split at h
  · cases h
  · obtain rfl := Option.some.inj h
    unfold Rx.pn keyPn
    split <;> simp

/-! ### Frames -/

structure SameFrame (m x : Rx) : Prop where
  seq : x.seq = m.seq
  queue : x.seqnoIdx = m.seqnoIdx
  ftype : ftype x.fc = ftype m.fc
  addr1 : addr1 x.data = addr1 m.data
  addr2 : addr2 x.data = addr2 m.data

def extraLength (ms : List Rx) : ℕ := (ms.map fun x => x.body.length).sum

structure Fragments (m : Rx) (ms : List Rx) : Prop where
  numbered : ∀ (i : ℕ) (x : Rx), (m :: ms)[i]? = some x → x.frag = i
  same : ∀ x ∈ ms, SameFrame m x
  /-- CCMP or GCMP: packet numbers in steps of one, under one key -/
  sequential : requiresSequentialPn m = true →
    (∀ x ∈ ms, requiresSequentialPn x = true ∧ keyColor x = keyColor m) ∧
      (m :: ms).IsChain fun x y => y.pn.value = (x.pn.value + 1) % 2 ^ 48
  /-- protected otherwise: decrypted with the same key -/
  decrypted : requiresSequentialPn m = false → decryptedWithKey m = true →
    ∀ x ∈ ms, decryptedWithKey x = true ∧ keyColor x = keyColor m
  length : extraLength ms ≤ 65535

/-- The entry holds these fragments. -/
structure Pending (e : FragmentEntry) (m : Rx) (ms : List Rx) : Prop where
  frags : Fragments m ms
  list : e.skbList = m.data :: ms.map Rx.body
  seq : e.seq = m.seq
  rxQueue : e.rxQueue = m.seqnoIdx
  lastFrag : e.lastFrag = ms.length
  extraLen : e.extraLen = extraLength ms
  check : e.checkSequentialPn = requiresSequentialPn m
  prot : e.isProtected = (requiresSequentialPn m || decryptedWithKey m)
  color : e.isProtected = true → e.keyColor = keyColor m
  lastPn : e.checkSequentialPn = true → ∀ x, (m :: ms).getLast? = some x → e.lastPn = x.pn

/-- Every entry in use holds fragments that have been passed to the handler. -/
structure CacheOk (past : List Rx) (c : FragmentCache) : Prop where
  next_lt : c.next < fragmentMax
  entries : ∀ i, (c.entries i).skbList ≠ [] →
    ∃ m ms, (m :: ms).Sublist past ∧ Pending (c.entries i) m ms

theorem cacheOk_init : CacheOk [] initFragCache where
  next_lt := by decide
  entries := fun _ h => absurd rfl h

variable {past : List Rx} {c : FragmentCache} {hz : ℕ} {a : Arrival}

theorem CacheOk.mono (hc : CacheOk past c) (x : Rx) : CacheOk (past ++ [x]) c where
  next_lt := hc.next_lt
  entries := by
    intro i hi
    obtain ⟨m, ms, hsub, hp⟩ := hc.entries i hi
    exact ⟨m, ms, hsub.trans (sublist_append_left past [x]), hp⟩

theorem CacheOk.setEntry (hc : CacheOk past c) (i : ℕ) {e : FragmentEntry}
    (he : e.skbList ≠ [] → ∃ m ms, (m :: ms).Sublist past ∧ Pending e m ms) :
    CacheOk past (c.setEntry i e) where
  next_lt := hc.next_lt
  entries := by
    intro j hj
    by_cases h : j = i
    · subst h
      simp only [FragmentCache.setEntry, update_self] at hj ⊢
      exact he hj
    · simp only [FragmentCache.setEntry, update_of_ne h] at hj ⊢
      exact hc.entries j hj

theorem CacheOk.purge (hc : CacheOk past c) (i : ℕ) : CacheOk past (c.purge i) :=
  hc.setEntry i fun h => absurd rfl h

/-! ### Searching the cache -/

theorem reassembleFind_spec {hz jiffies frag seq rxQueue n idx : ℕ} {hdr : List UInt8}
    {c' : FragmentCache} {found : Option ℕ} (hidx : idx < fragmentMax) (hc : CacheOk past c)
    (hr : reassembleFind hz jiffies frag seq rxQueue hdr n idx c = (c', found)) :
    CacheOk past c' ∧ ∀ i, found = some i → i < fragmentMax ∧
      ∃ f rest, (c'.entries i).skbList = f :: rest ∧ sameHeader hdr f = true ∧
        (c'.entries i).seq = seq ∧ (c'.entries i).rxQueue = rxQueue ∧
        (c'.entries i).lastFrag + 1 = frag := by
  induction n generalizing idx c with
  | zero =>
    cases hr
    exact ⟨hc, nofun⟩
  | succ n ih =>
    have hi : (if idx = 0 then fragmentMax - 1 else idx - 1) < fragmentMax := by
      split <;> omega
    unfold reassembleFind at hr
    simp only at hr
    generalize (if idx = 0 then fragmentMax - 1 else idx - 1) = i at hi hr
    split at hr
    · exact ih hi hc hr
    rename_i f rest hlist
    split at hr
    · exact ih hi hc hr
    rename_i hne
    split at hr
    · exact ih hi hc hr
    rename_i hsame
    split at hr
    · exact ih hi (hc.purge i) hr
    cases hr
    refine ⟨hc, ?_⟩
    rintro _ ⟨⟩
    push Not at hne
    exact ⟨hi, f, rest, hlist, by simpa using hsame, hne.1, hne.2.1, hne.2.2⟩

theorem sameHeader_iff {hdr fHdr : List UInt8} (h : sameHeader hdr fHdr = true) :
    ftype (frameControl hdr) = ftype (frameControl fHdr) ∧ addr1 hdr = addr1 fHdr ∧
      addr2 hdr = addr2 fHdr := by
  simp only [sameHeader, Bool.and_eq_true, beq_iff_eq] at h
  exact ⟨and_eq_of_xor_and h.1.1, h.1.2, h.2⟩

/-! ### Adding fragments -/

theorem firstFragment_eq (c : FragmentCache) (a : Arrival) :
    ∃ e : FragmentEntry, firstFragment c a = ⟨update c.entries c.next e,
        if fragmentMax ≤ c.next + 1 then 0 else c.next + 1⟩ ∧
      e.skbList = [a.rx.data] ∧ e.seq = u16 a.rx.seq ∧ e.rxQueue = a.rx.seqnoIdx % 256 ∧
      e.lastFrag = u16 a.rx.frag ∧ e.extraLen = 0 ∧
      e.checkSequentialPn = requiresSequentialPn a.rx ∧
      e.isProtected = (requiresSequentialPn a.rx || decryptedWithKey a.rx) ∧
      (e.isProtected = true → e.keyColor = keyColor a.rx) ∧
      (e.checkSequentialPn = true → e.lastPn = keyPn a.rx) := by
  unfold firstFragment
  simp only [reassembleAdd, FragmentCache.setEntry, update_self, update_idem]
  cases requiresSequentialPn a.rx with
  | true => exact ⟨_, rfl, rfl, rfl, rfl, rfl, rfl, rfl, rfl, fun _ => rfl, fun _ => rfl⟩
  | false =>
    cases decryptedWithKey a.rx with
    | true => exact ⟨_, rfl, rfl, rfl, rfl, rfl, rfl, rfl, rfl, fun _ => rfl, by simp⟩
    | false => exact ⟨_, rfl, rfl, rfl, rfl, rfl, rfl, rfl, rfl, by simp, by simp⟩

theorem fragments_first {m : Rx} (hfrag : m.frag = 0) : Fragments m [] where
  numbered := by
    intro i x hx
    cases i with
    | zero =>
      obtain rfl : m = x := by simpa using hx
      exact hfrag
    | succ i => simp at hx
  same := by simp
  sequential := by simp
  decrypted := by simp
  length := by simp [extraLength]

theorem pending_firstFragment (c : FragmentCache) (hfrag : a.rx.frag = 0) :
    Pending ((firstFragment c a).entries c.next) a.rx [] := by
  obtain ⟨e, he, hlist, hseq, hq, hlast, hextra, hcheck, hprot, hcolor, hpn⟩ := firstFragment_eq c a
  have hsn := getSn_lt (seqCtrl a.rx.data)
  have hentry : (firstFragment c a).entries c.next = e := by
    rw [he]
    exact update_self ..
  rw [hentry]
  exact {
    frags := fragments_first hfrag
    list := hlist
    seq := by
      rw [hseq]
      unfold u16 Rx.seq
      omega
    rxQueue := by
      omega
    lastFrag := by simp [hlast, hfrag, u16]
    extraLen := hextra
    check := hcheck
    prot := hprot
    color := hcolor
    lastPn := by
      intro h x hx
      obtain rfl : a.rx = x := by simpa using hx
      rw [hpn h, Rx.pn, if_pos hfrag] }

theorem firstFragment_ok (hc : CacheOk past c) (hfrag : a.rx.frag = 0) :
    CacheOk (past ++ [a.rx]) (firstFragment c a) := by
  obtain ⟨e, he, -⟩ := firstFragment_eq c a
  have hpending := pending_firstFragment c hfrag
  rw [he] at hpending ⊢
  simp only [update_self] at hpending
  refine ⟨?_, ((hc.mono a.rx).setEntry c.next fun _ => ⟨a.rx, [], ?_, hpending⟩).entries⟩
  · change (if fragmentMax ≤ c.next + 1 then 0 else c.next + 1) < fragmentMax
    unfold fragmentMax
    split <;> omega
  · exact sublist_append_right past [a.rx]

theorem checkProtection_ok {e e' : FragmentEntry} {x : Rx}
    (h : checkProtection e x = .ok e') :
    (e.checkSequentialPn = true ∧ requiresSequentialPn x = true ∧ e.keyColor = keyColor x ∧
      x.ccmGcmPn = e.lastPn.next ∧ e' = { e with lastPn := e.lastPn.next }) ∨
    (e.checkSequentialPn = false ∧ e' = e ∧
      (e.isProtected = true → decryptedWithKey x = true ∧ keyColor x = e.keyColor)) := by
  unfold checkProtection at h
  split at h
  next hcheck =>
    split at h
    · cases h
    rename_i hreq
    split at h
    · cases h
    rename_i hcolor
    split at h
    · cases h
    rename_i hpn
    left
    refine ⟨hcheck, by simpa using hreq, not_not.mp hcolor, (not_not.mp hpn).symm, ?_⟩
    exact (Except.ok.inj h).symm
  next hcheck =>
    split at h
    · cases h
    rename_i hprot
    split at h
    · cases h
    right
    refine ⟨by simpa using hcheck, (Except.ok.inj h).symm, ?_⟩
    intro hp
    simp only [hp, Bool.true_and, Bool.or_eq_true, Bool.and_eq_true, Bool.not_eq_true',
      bne_iff_ne, not_or, not_and, Option.isNone_iff_eq_none, ne_eq, not_not] at hprot
    obtain ⟨⟨hkey, hdec⟩, hcolor⟩ := hprot
    refine ⟨?_, hcolor⟩
    simp only [decryptedWithKey, Bool.and_eq_true, Bool.or_eq_true]
    refine ⟨Option.isSome_iff_ne_none.mpr hkey, ?_⟩
    cases hpr : hasProtected x.fc with
    | true => exact Or.inl rfl
    | false => exact Or.inr (by simpa using hdec hpr)

theorem checkProtection_error {e : FragmentEntry} {x : Rx} {r : RxResult}
    (h : checkProtection e x = .error r) : r ≠ .continue := by
  unfold checkProtection at h
  repeat' split at h
  all_goals cases h <;> simp

theorem Pending.extend {e e' : FragmentEntry} {m x : Rx} {ms : List Rx} (hp : Pending e m ms)
    (hseq : e.seq = x.seq) (hq : e.rxQueue = x.seqnoIdx) (hfrag : e.lastFrag + 1 = x.frag)
    (hhdr : sameHeader x.data m.data = true) (hcheck : checkProtection e x = .ok e')
    (hlen : e'.extraLen + x.body.length ≤ 65535) :
    Pending { e' with
      skbList := e'.skbList ++ [x.body], lastFrag := u16 x.frag,
      extraLen := u16 (e'.extraLen + x.body.length) } m (ms ++ [x]) := by
  obtain ⟨hft, ha1, ha2⟩ := sameHeader_iff hhdr
  have hpn : x.pn = x.ccmGcmPn := by
    rw [Rx.pn, if_neg (by omega)]
  have hx16 : u16 x.frag = x.frag := by
    have := fragOf_lt (seqCtrl x.data)
    unfold u16 Rx.frag
    omega
  have hextra : extraLength (ms ++ [x]) = extraLength ms + x.body.length := by
    simp [extraLength]
  -- the checks leave everything but the packet number alone
  obtain ⟨lastPn, rfl⟩ : ∃ lastPn, e' = { e with lastPn } := by
    rcases checkProtection_ok hcheck with ⟨-, -, -, -, h⟩ | ⟨-, h, -⟩ <;> exact ⟨_, h⟩
  have hfrags : Fragments m (ms ++ [x]) := {
    numbered := by
      intro i y hy
      rw [← cons_append, getElem?_append, getElem?_singleton] at hy
      split_ifs at hy with hi hlast
      · exact hp.frags.numbered i y hy
      · cases hy
        have hl := hp.lastFrag
        rw [length_cons] at hi hlast
        omega
    same := by
      refine forall_mem_append.mpr ⟨hp.frags.same, forall_mem_singleton.mpr ?_⟩
      exact ⟨hseq.symm.trans hp.seq, Fin.ext (hq.symm.trans hp.rxQueue), hft, ha1, ha2⟩
    sequential := by
      intro hreq
      have hchk := hp.check.trans hreq
      rcases checkProtection_ok hcheck with ⟨_, hreq', hcol, hpn', -⟩ | ⟨h0, -, -⟩
      · have hprot : e.isProtected = true := by rw [hp.prot, hreq]; rfl
        obtain ⟨hall, hchain⟩ := hp.frags.sequential hreq
        refine ⟨?_, ?_⟩
        · refine forall_mem_append.mpr ⟨hall, forall_mem_singleton.mpr ?_⟩
          exact ⟨hreq', hcol.symm.trans (hp.color hprot)⟩
        rw [← cons_append]
        refine hchain.append (isChain_singleton x) ?_
        intro z hz y hy
        obtain rfl : x = y := by simpa using hy
        rw [hpn, hpn', Pn.value_next, hp.lastPn hchk z hz]
      · exact nomatch hchk.symm.trans h0
    decrypted := by
      intro hreq hdec
      have hprot : e.isProtected = true := by rw [hp.prot, hdec, Bool.or_true]
      refine forall_mem_append.mpr ⟨hp.frags.decrypted hreq hdec, ?_⟩
      refine forall_mem_singleton.mpr ?_
      have h0 : e.checkSequentialPn = false := hp.check.trans hreq
      rcases checkProtection_ok hcheck with ⟨h1, -⟩ | ⟨-, -, h⟩
      · exact nomatch h0.symm.trans h1
      · exact ⟨(h hprot).1, (h hprot).2.trans (hp.color hprot)⟩
    length := by
      rw [hextra, ← hp.extraLen]
      exact hlen }
  exact {
    frags := hfrags
    list := by simp [hp.list]
    seq := hp.seq
    rxQueue := hp.rxQueue
    lastFrag := by
      rw [hx16, ← hfrag, hp.lastFrag]
      simp
    extraLen := by
      rw [hextra, ← hp.extraLen]
      exact Nat.mod_eq_of_lt (Nat.lt_succ_of_le hlen)
    check := hp.check
    prot := hp.prot
    color := hp.color
    lastPn := by
      intro hchk y hy
      rw [← cons_append, List.getLast?_append] at hy
      obtain rfl : x = y := by simpa using hy
      rcases checkProtection_ok hcheck with ⟨-, -, -, hpn', h⟩ | ⟨h0, -, -⟩
      · rw [hpn, hpn', h]
      · exact nomatch hchk.symm.trans h0 }

def Reassembled (past : List Rx) (a : Arrival) (o : Outcome) (c' : FragmentCache) : Prop :=
  ∃ m ms, (m :: (ms ++ [a.rx])).Sublist (past ++ [a.rx]) ∧ Fragments m (ms ++ [a.rx]) ∧
    o.skb = some (m.data ++ (ms ++ [a.rx]).flatMap Rx.body) ∧
    ∃ i < fragmentMax, (c'.entries i).extraLen = extraLength (ms ++ [a.rx])

theorem addFragment_ok {e' : FragmentEntry} {m : Rx} {ms : List Rx} {i : ℕ} (hc : CacheOk past c)
    (hi : i < fragmentMax) (hsub : (m :: ms).Sublist past) (hp : Pending (c.entries i) m ms)
    (hseq : (c.entries i).seq = a.rx.seq) (hq : (c.entries i).rxQueue = a.rx.seqnoIdx)
    (hfrag : (c.entries i).lastFrag + 1 = a.rx.frag)
    (hhdr : sameHeader a.rx.data m.data = true)
    (hcheck : checkProtection (c.entries i) a.rx = .ok e') :
    CacheOk (past ++ [a.rx]) (addFragment c i e' a).2 ∧
      ((addFragment c i e' a).1.result = .continue →
        Reassembled past a (addFragment c i e' a).1 (addFragment c i e' a).2) := by
  have hsub' : (m :: (ms ++ [a.rx])).Sublist (past ++ [a.rx]) := by
    exact hsub.append (List.Sublist.refl [a.rx])
  have hempty : ∀ e : FragmentEntry, e.skbList = [] →
      CacheOk (past ++ [a.rx]) (c.setEntry i e) :=
    fun e he => (hc.mono a.rx).setEntry i fun h => absurd he h
  unfold addFragment
  simp only
  split
  · exact ⟨hempty _ rfl, by simp⟩
  rename_i hlen
  have hext := hp.extend hseq hq hfrag hhdr hcheck (Nat.le_of_not_lt hlen)
  split
  · exact ⟨(hc.mono a.rx).setEntry i fun _ => ⟨m, ms ++ [a.rx], hsub', hext⟩, by simp⟩
  have hlist := hext.list
  simp only at hlist
  rw [hlist]
  simp only
  split
  · exact ⟨hempty _ rfl, by simp⟩
  · refine ⟨hempty _ rfl, fun _ => ⟨m, ms, hsub', hext.frags, ?_, i, hi, ?_⟩⟩
    · rw [flatMap_def]
    · simpa [FragmentCache.setEntry] using hext.extraLen

theorem laterFragment_ok (hz : ℕ) (a : Arrival) (hc : CacheOk past c) :
    CacheOk (past ++ [a.rx]) (laterFragment hz c a).2 ∧
      ((laterFragment hz c a).1.result = .continue →
        Reassembled past a (laterFragment hz c a).1 (laterFragment hz c a).2) := by
  unfold laterFragment
  simp only
  rcases hr : reassembleFind hz a.jiffies a.rx.frag a.rx.seq a.rx.seqnoIdx a.rx.data fragmentMax
    c.next c with ⟨c', found⟩
  obtain ⟨hc', hfound⟩ := reassembleFind_spec hc.next_lt hc hr
  cases found with
  | none => exact ⟨hc'.mono a.rx, by simp⟩
  | some i =>
    obtain ⟨hi, f, rest, hlist, hhdr, hseq, hq, hfrag⟩ := hfound i rfl
    simp only at hlist hseq hq hfrag hc' ⊢
    obtain ⟨m, ms, hsub, hp⟩ := hc'.entries i (by simp [hlist])
    obtain rfl : m.data = f := by
      have := hp.list.symm.trans hlist
      simp only [List.cons.injEq] at this
      exact this.1
    split
    next r herr => exact ⟨hc'.mono a.rx, fun h => absurd h (checkProtection_error herr)⟩
    next e' hcheck => exact addFragment_ok hc' hi hsub hp hseq hq hfrag hhdr hcheck

/-- **The handler** keeps the cache in order; what it passes on after reassembly are fragments that
belong together. -/
theorem rxHDefragment_ok (hz : ℕ) (a : Arrival) (hc : CacheOk past c) :
    CacheOk (past ++ [a.rx]) (rxHDefragment hz c a).2 ∧
      (a.rx.isFragment = true → (rxHDefragment hz c a).1.result = .continue →
        Reassembled past a (rxHDefragment hz c a).1 (rxHDefragment hz c a).2) := by
  unfold rxHDefragment
  simp only
  split
  next hctl => exact ⟨hc.mono a.rx, fun h => by simp [Rx.isFragment, hctl] at h⟩
  split
  next hwhole =>
    refine ⟨hc.mono a.rx, fun h => ?_⟩
    simp only [Rx.isFragment, Bool.and_eq_true, Bool.or_eq_true, Bool.not_eq_true', bne_iff_ne,
      beq_iff_eq, ne_eq] at h hwhole
    rcases h.2 with h | h
    · exact nomatch h.symm.trans hwhole.1
    · exact absurd hwhole.2 h
  split
  · exact ⟨hc.mono a.rx, by simp⟩
  split
  · exact ⟨hc.mono a.rx, by simp⟩
  split
  next hfrag => exact ⟨firstFragment_ok hc hfrag, by simp⟩
  · obtain ⟨h1, h2⟩ := laterFragment_ok hz a hc
    exact ⟨h1, fun _ => h2⟩

/-! ### Runs -/

def mpdus (ls : List (Label FragmentCache Arrival Outcome)) : List Rx := ls.map fun l => l.act.rx

theorem run_cacheOk {c c' : FragmentCache} {ls : List (Label FragmentCache Arrival Outcome)}
    (h : Run (step hz) c ls c') : ∀ past, CacheOk past c → CacheOk (past ++ mpdus ls) c' := by
  induction h with
  | nil c =>
    intro past hc
    simpa [mpdus] using hc
  | @cons c c₁ c₂ a o ls hs _ ih =>
    intro past hc
    have e : rxHDefragment hz c a = (o, c₁) := Option.some.inj hs
    have hok := (rxHDefragment_ok hz a hc).1
    rw [e] at hok
    simpa [mpdus] using ih _ hok

/-- **Defragmentation.**  A frame that is passed on after reassembly is a first fragment followed by
the bodies of the later ones; the fragments were passed to the handler in this order and belong to
one frame, and `extra_len` is the length of the bodies. -/
theorem defragment_reassembles {ls₁ ls₂ : List (Label FragmentCache Arrival Outcome)}
    {l : Label FragmentCache Arrival Outcome} {c' : FragmentCache}
    (hrun : Run (step hz) initFragCache (ls₁ ++ l :: ls₂) c')
    (hfrag : l.act.rx.isFragment = true) (hres : l.out.result = .continue) :
    ∃ m ms, (m :: (ms ++ [l.act.rx])).Sublist (mpdus (ls₁ ++ [l])) ∧
      Fragments m (ms ++ [l.act.rx]) ∧
      l.out.skb = some (m.data ++ (ms ++ [l.act.rx]).flatMap Rx.body) ∧
      ∃ i < fragmentMax, (l.post.entries i).extraLen = extraLength (ms ++ [l.act.rx]) := by
  obtain ⟨c, hrun₁, hrest⟩ := hrun.split
  have hc : CacheOk (mpdus ls₁) c := by simpa using run_cacheOk hrun₁ [] cacheOk_init
  cases hrest with
  | @cons _ _ _ a o _ hs _ =>
    have e : rxHDefragment hz c a = (o, _) := Option.some.inj hs
    have h := (rxHDefragment_ok hz a hc).2
    rw [e] at h
    simpa [Reassembled, mpdus] using h hfrag hres

def ccmpFragment (frag : UInt8) (more : Bool) (pn : UInt8) (payload : List UInt8) : Rx where
  data := [0x08, if more then 0x44 else 0x40, 0, 0, 2, 0, 0, 0, 0, 1, 2, 0, 0, 0, 0, 2,
    2, 0, 0, 0, 0, 3, 0x50 + frag, 0] ++ payload
  seqnoIdx := 16
  securityIdx := 0
  key := some { cipher := .ccmp, color := 7, rxPn := fun _ => ⟨[0, 0, 0, 0, 0, pn], rfl⟩ }
  decrypted := true
  ccmGcmPn := ⟨[0, 0, 0, 0, 0, pn], rfl⟩

/-- Two fragments with the packet numbers 9 and 10. -/
theorem defragment_reassembles_two : ∃ l₁ l₂ c',
    execute (step 1000) initFragCache
        [{ rx := ccmpFragment 0 true 9 [1, 2], jiffies := 0 },
          { rx := ccmpFragment 1 false 10 [3], jiffies := 5 }] = some ([l₁, l₂], c') ∧
      l₂.out = ⟨.continue, some ((ccmpFragment 0 true 9 [1, 2]).data ++ [3])⟩ ∧
      ∃ m ms, (m :: (ms ++ [l₂.act.rx])).Sublist (mpdus ([l₁] ++ [l₂])) ∧
        Fragments m (ms ++ [l₂.act.rx]) ∧
        l₂.out.skb = some (m.data ++ (ms ++ [l₂.act.rx]).flatMap Rx.body) ∧
        ∃ i < fragmentMax, (l₂.post.entries i).extraLen = extraLength (ms ++ [l₂.act.rx]) := by
  refine ⟨_, _, _, rfl, by decide, ?_⟩
  exact defragment_reassembles (show Run (step 1000) _ ([_] ++ _ :: []) _ from
    (execute_run (show execute (step 1000) initFragCache
      [{ rx := ccmpFragment 0 true 9 [1, 2], jiffies := 0 },
        { rx := ccmpFragment 1 false 10 [3], jiffies := 5 }] = _ from rfl)).1)
    (by decide) (by decide)

end Iwlwifi.Ieee80211.Defrag
