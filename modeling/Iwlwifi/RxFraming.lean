import Iwlwifi.RxRun

/-! # Split receive buffers

A packet that does not fit into one receive buffer is split over several, and all their completion
descriptors but the last are marked as fragmented.  `iwl_pcie_rx_handle` puts the descriptors
together again with `iwl_pcie_rx_count_rbs`, up to the index that it has read from the device.

* `Pc.next`: the first descriptor that is not yet in a group; `Rxq.ungrouped`: the descriptors from
  there on.
* `groupsOf`: the group that a step forms, and whether it is passed to `iwl_pcie_rx_handle_rbs`
  (or else put back).
* **Steps** (`Moves.grouped`) take a group off the descriptors and keep the flag
  `incomplete_split_rb`.  By `countRbs_spec` a group is the end of a packet, or it has the maximal
  size and the packet goes on; none is formed only when the packet goes on at the index read from
  the device.  `split_rbs_framed` is the result for runs. -/

namespace Iwlwifi.Iwl.Pcie.Rx

open Framing Function Iwlwifi.Ring List

variable {conf : Conf} {rxq rxq' : Rxq} {sh sh' : Shared}

def Pc.next (conf : Conf) (read : ℕ) : Pc → ℕ
  | .loop f | .pending f | .group f | .recycle f _ _ | .posting f _ _ | .claiming f | .tail f |
    .out f => f.i
  | .fetch f _ _ _ => conf.wrap (f.i + f.n)
  | _ => read

/-- `incomplete_split_rb` as it will be after the current group. -/
def Pc.splitRb (flag : Bool) : Pc → Bool
  | .fetch f _ _ _ => f.incomplete
  | _ => flag

def Rxq.ungrouped (conf : Conf) (rxq : Rxq) : List Cd :=
  between conf.queueSize rxq.usedBd (rxq.pc.next conf rxq.read) rxq.closedRb

def groupsOf (conf : Conf) (rxq rxq' : Rxq) : List (Bool × List Cd) :=
  match rxq.pc, rxq'.pc with
  | .group f, .fetch f' _ _ _ =>
    [(!f'.incomplete && !rxq.incompleteSplitRb,
      contents conf.queueSize rxq.usedBd f.i f'.n)]
  | _, _ => []

def Pc.Seen (conf : Conf) (closed : ℕ) : Pc → Prop
  | .loop f | .recycle f _ _ | .posting f _ _ | .claiming f | .tail f | .out f =>
    f.Ok conf closed f.i
  | .pending f | .group f => f.Ok conf closed f.i ∧ f.i ≠ f.r
  | .fetch f _ _ _ => f.Ok conf closed (conf.wrap (f.i + f.n))
  | _ => True

structure Rxq.Tracks (conf : Conf) (rxq : Rxq) : Prop where
  read_lt : rxq.read < conf.queueSize
  closed_lt : rxq.closedRb < conf.queueSize
  handler : rxq.pc.Seen conf rxq.closedRb

structure Grouped (conf : Conf) (rxq rxq' : Rxq) : Prop where
  tracks : rxq'.Tracks conf
  framed : Framed conf.goesOn maxSplitRbs (rxq.pc.splitRb rxq.incompleteSplitRb)
    (groupsOf conf rxq rxq') (rxq'.pc.splitRb rxq'.incompleteSplitRb)
  flow : (groupsOf conf rxq rxq').flatMap Prod.snd ++ rxq'.ungrouped conf = rxq.ungrouped conf

/-! ### Steps of a queue -/

/-- Two queues agree in what the handler uses of the ring of completions. -/
def Rxq.SameRing (rxq rxq' : Rxq) : Prop :=
  rxq'.usedBd = rxq.usedBd ∧ rxq'.closedRb = rxq.closedRb ∧ rxq'.read = rxq.read ∧
    rxq'.incompleteSplitRb = rxq.incompleteSplitRb

section queue
variable {f : Frame} {p p' : Pc} (h : rxq.Tracks conf)
include h

theorem Grouped.move (hused : rxq'.usedBd = rxq.usedBd)
    (hclosed : rxq'.closedRb = rxq.closedRb) (hread : rxq'.read < conf.queueSize)
    (hnext : rxq'.pc.next conf rxq'.read = rxq.pc.next conf rxq.read)
    (hsplit : rxq'.pc.splitRb rxq'.incompleteSplitRb = rxq.pc.splitRb rxq.incompleteSplitRb)
    (hgroups : groupsOf conf rxq rxq' = []) (hseen : rxq'.pc.Seen conf rxq.closedRb) :
    Grouped conf rxq rxq' where
  tracks := ⟨hread, hclosed ▸ h.closed_lt, hclosed ▸ hseen⟩
  framed := by
    rw [hgroups, hsplit]
    exact .nil _
  flow := by
    rw [hgroups, Rxq.ungrouped, Rxq.ungrouped, hused, hclosed, hnext]
    rfl

theorem Grouped.local (hpc : rxq.pc = p) (hpc' : rxq'.pc = p')
    (hring : rxq.SameRing rxq') (hnext : p'.next conf rxq.read = p.next conf rxq.read)
    (hsplit : p'.splitRb rxq.incompleteSplitRb = p.splitRb rxq.incompleteSplitRb)
    (hfetch : ∀ f j rxbs error, p' = .fetch f j rxbs error → ∀ g, p ≠ .group g)
    (hseen : p'.Seen conf rxq.closedRb) : Grouped conf rxq rxq' := by
  obtain ⟨hused, hclosed, hread, hflag⟩ := hring
  refine .move h hused hclosed (hread ▸ h.read_lt) ?_ ?_ ?_ (hpc' ▸ hseen)
  · rw [hpc', hpc, hread, hnext]
  · rw [hpc', hpc, hflag, hsplit]
  unfold groupsOf
  rw [hpc, hpc']
  split
  · exact absurd rfl (hfetch _ _ _ _ rfl _)
  · rfl

theorem Grouped.same (hring : rxq.SameRing rxq') (hpc : rxq'.pc = rxq.pc) :
    Grouped conf rxq rxq' := by
  refine .local h rfl hpc hring rfl rfl ?_ h.handler
  intro f j rxbs error hf g hg
  rw [hf] at hg
  cases hg

theorem Rxq.Tracks.group (hpc : rxq.pc = .group f) :
    f.Ok conf rxq.closedRb f.i ∧ 0 < off conf.queueSize f.i f.r := by
  have hseen := h.handler
  rw [hpc] at hseen
  exact ⟨hseen.1, hseen.1.ahead hseen.2⟩

theorem whole_grouped {n : ℕ} {inc : Bool} (hpc : rxq.pc = .group f)
    (hn : countRbs conf rxq f.r maxSplitRbs 1 f.i = (n, inc)) (h0 : n ≠ 0) :
    Grouped conf rxq
      { rxq with pc := .fetch { f with n := n, incomplete := inc } 0 [] false } := by
  obtain ⟨hok, hpos⟩ := h.group hpc
  obtain ⟨k, inc', hcount, hk, hmax, -, hwhole, hlong⟩ := countRbs_spec rxq hok.r_lt
    maxSplitRbs 1 f.i hok.i_lt (by omega) (by decide) hpos
  rw [hn, Prod.mk.injEq] at hcount
  obtain ⟨hnk, rfl⟩ := hcount
  have hk0 : k ≠ 0 := fun hk0 => h0 (by rw [hnk, if_pos hk0])
  obtain rfl : n = k := by
    rw [hnk, if_neg hk0]
    omega
  have hseen := hok.seen
  rw [take_between rxq.usedBd hk conf.size_pos] at hwhole hlong
  have hgroups : groupsOf conf rxq
      { rxq with pc := .fetch { f with n := n, incomplete := inc } 0 [] false } =
      [(!inc && !rxq.incompleteSplitRb, contents conf.queueSize rxq.usedBd f.i n)] := by
    unfold groupsOf
    rw [hpc]
  refine ⟨⟨h.read_lt, h.closed_lt, ⟨hok.i_lt, hok.r_lt, ?_⟩⟩, ?_, ?_⟩
  · show off _ (conf.wrap (f.i + n)) f.r ≤ off _ (conf.wrap (f.i + n)) rxq.closedRb
    rw [conf.wrap_eq, off_mod_left conf.size_pos, off_mod_left conf.size_pos,
      off_advance conf.size_pos hk, off_advance conf.size_pos (by omega)]
    omega
  · rw [hgroups, hpc]
    cases inc with
    | false =>
      refine .whole (hwhole hk0 rfl) ?_ (.nil _)
      rw [length_contents]
      omega
    | true =>
      refine .long (hlong rfl).2 ?_ (.nil _)
      rw [length_contents]
      have := (hlong rfl).1
      omega
  · rw [hgroups, Rxq.ungrouped, Rxq.ungrouped, hpc, flatMap_singleton]
    have hle : n ≤ off conf.queueSize f.i rxq.closedRb := by omega
    show _ ++ between _ rxq.usedBd (conf.wrap (f.i + n)) rxq.closedRb =
      between _ rxq.usedBd f.i rxq.closedRb
    rw [conf.wrap_eq, ← between_advance _ hle conf.size_pos]

theorem group_left {f' : Frame} (hpc : rxq.pc = .group f) (hstep : Moves conf rxq sh rxq' sh') (hpc' : rxq'.pc = .out f') :
    (∀ cd ∈ between conf.queueSize rxq.usedBd f.i f.r, conf.goesOn cd = true) ∧
      off conf.queueSize f.i f.r < maxSplitRbs := by
  obtain ⟨hok, hpos⟩ := h.group hpc
  obtain ⟨k, inc, hcount, -, -, hzero, -, -⟩ := countRbs_spec rxq hok.r_lt
    maxSplitRbs 1 f.i hok.i_lt (by omega) (by decide) hpos
  cases hstep with
  | @cut g hg hn =>
    obtain rfl : f = g := Pc.group.inj (hpc.symm.trans hg)
    have hk0 : k = 0 := by
      by_contra hk0
      rw [hcount, if_neg hk0] at hn
      omega
    obtain ⟨-, hlen, hall⟩ := hzero hk0
    exact ⟨hall, by omega⟩
  | leave _ hg => cases hpc.symm.trans hg
  | restock _ hlock _ =>
    rw [hpc] at hlock
    cases hlock
  | @allocEnd k => cases k <;> cases hpc'
  | @unmapped k => cases k <;> cases hpc'
  | @restocked k => cases k <;> cases hpc'
  | _ => cases hpc'

/-- A program counter at which the handler has no group and no index. -/
def Pc.outside : Pc → Bool
  | .idle | .restart _ | .alloc _ | .allocPage _ | .allocMap _ _ | .restock _ => true
  | _ => false

omit h in
theorem outside_spec (conf : Conf) (closed rd : ℕ) (flag : Bool) (hp : p.outside = true) :
    p.next conf rd = rd ∧ p.splitRb flag = flag ∧ p.Seen conf closed ∧
      ∀ g, p ≠ .group g := by
  cases p <;> simp_all [Pc.outside, Pc.next, Pc.splitRb, Pc.Seen]

theorem Grouped.outside (hpc : rxq.pc = p) (hpc' : rxq'.pc = p') (hring : rxq.SameRing rxq') (hp : p.outside = true) (hp' : p'.outside = true) :
    Grouped conf rxq rxq' := by
  obtain ⟨hnext, hsplit, -, hgroup⟩ := outside_spec conf 0 rxq.read rxq.incompleteSplitRb hp
  obtain ⟨hnext', hsplit', hseen, -⟩ :=
    outside_spec conf rxq.closedRb rxq.read rxq.incompleteSplitRb hp'
  exact .local h hpc hpc' hring (hnext'.trans hnext.symm) (hsplit'.trans hsplit.symm)
    (fun _ _ _ _ _ => hgroup) hseen

omit h in
theorem outside_afterAlloc (k : Cont) : k.afterAlloc.outside = true := by
  cases k <;> rfl

omit h in
theorem outside_afterRestock (k : Cont) : k.afterRestock.outside = true := by
  cases k <;> rfl

theorem Grouped.exit (hpc : rxq.pc = p)
    (hp : p = .tail f ∨ p = .out f) (hp' : p'.outside = true) :
    Grouped conf rxq { rxq with read := f.i, pc := p' } := by
  obtain ⟨hnext', hsplit', hseen', -⟩ := outside_spec conf rxq.closedRb f.i rxq.incompleteSplitRb hp'
  have hseen := h.handler
  rw [hpc] at hseen
  obtain rfl | rfl := hp
  all_goals
    refine .move h rfl rfl hseen.i_lt ?_ ?_ (by simp [groupsOf, hpc]) hseen'
    · rwa [hpc]
    · rwa [hpc]

theorem Moves.grouped (hstep : Moves conf rxq sh rxq' sh') :
    Grouped conf rxq rxq' := by
  have hseen := h.handler
  have hring : rxq.SameRing rxq := ⟨rfl, rfl, rfl, rfl⟩
  cases hstep with
  | restart hpc =>
    refine .local h hpc rfl hring rfl rfl (by simp) ⟨h.read_lt, conf.wrap_lt _, ?_⟩
    rw [Conf.wrap_of_lt h.closed_lt]
  | next n p hpc hne =>
    rw [hpc] at hseen
    exact .local h hpc rfl hring rfl rfl (by simp) ⟨⟨hseen.i_lt, hseen.r_lt, hseen.seen⟩, hne⟩
  | emergency hpc | group hpc =>
    rw [hpc] at hseen
    exact .local h hpc rfl hring rfl rfl (by simp)
      ⟨⟨hseen.1.i_lt, hseen.1.r_lt, hseen.1.seen⟩, hseen.2⟩
  | cut hpc hn =>
    rw [hpc] at hseen
    exact .local h hpc rfl hring rfl rfl (by simp) hseen.1
  | whole hpc hn h0 => exact whole_grouped h hpc hn h0
  | fetched stolen hpc hj =>
    rw [hpc] at hseen
    refine .move h rfl rfl h.read_lt ?_ ?_ ?_ ⟨conf.wrap_lt _, hseen.r_lt, hseen.seen⟩
    · rw [hpc]
      rfl
    · rw [hpc]
      rfl
    · unfold groupsOf
      rw [hpc]
  | leave _ hpc | miss hpc _ _ | take hpc _ _ | back hpc _ _ | keep hpc | lend hpc _
  | count hpc _ _ | post hpc _ _ | recycled hpc | claim hpc _ _ | posted hpc | claimed hpc _
  | again _ hpc =>
    rw [hpc] at hseen
    exact .local h hpc rfl hring rfl rfl (by simp) ⟨hseen.i_lt, hseen.r_lt, hseen.seen⟩
  | refill _ hpc _ => exact .exit h hpc (.inl rfl) rfl
  | exitAlloc hpc _ | exit hpc => exact .exit h hpc (.inr rfl) rfl
  | @allocEnd k hpc =>
    obtain hpc | hpc := hpc <;> exact .outside h hpc rfl hring rfl (outside_afterAlloc k)
  | @unmapped k rxb hpc => exact .outside h hpc rfl hring rfl (outside_afterAlloc k)
  | @restocked k hpc => exact .outside h hpc rfl hring rfl (outside_afterRestock k)
  | restock qu hlock hfree => exact .outside h rfl rfl hring hlock hlock
  | poll _ hpc | allocPage hpc | allocRbd hpc _ | mapped hpc =>
    exact .outside h hpc rfl hring rfl rfl

end queue

/-! ### Runs -/

section run
variable {s s' : State} {q : ℕ}

def completed (q : ℕ) (l : Label State Action Unit) : List Cd :=
  match l.act with
  | .hwComplete q' cd => if q' = q then [cd] else []
  | _ => []

def formed (conf : Conf) (q : ℕ) (l : Label State Action Unit) : List (Bool × List Cd) :=
  groupsOf conf (l.pre.rxq q) (l.post.rxq q)

/-- The device does not overwrite completions that have not been read. -/
def Fits (conf : Conf) (q : ℕ) (l : Label State Action Unit) : Prop :=
  (completed q l).isEmpty = false → ((l.pre.rxq q).ungrouped conf).length + 1 < conf.queueSize

instance (conf : Conf) (q : ℕ) (l : Label State Action Unit) : Decidable (Fits conf q l) :=
  inferInstanceAs (Decidable (_ → _))

structure StepGrouped (conf : Conf) (q : ℕ) (l : Label State Action Unit) : Prop where
  tracks : (l.post.rxq q).Tracks conf
  framed : Framed conf.goesOn maxSplitRbs ((l.pre.rxq q).pc.splitRb (l.pre.rxq q).incompleteSplitRb)
    (formed conf q l) ((l.post.rxq q).pc.splitRb (l.post.rxq q).incompleteSplitRb)
  flow : (formed conf q l).flatMap Prod.snd ++ (l.post.rxq q).ungrouped conf =
    (l.pre.rxq q).ungrouped conf ++ completed q l

theorem StepGrouped.of_queue {a : Action} {u : Unit} (hpost : s'.rxq q = rxq)
    (h : Grouped conf (s.rxq q) rxq) (hnone : completed q ⟨s, a, u, s'⟩ = []) :
    StepGrouped conf q ⟨s, a, u, s'⟩ := by
  subst hpost
  refine ⟨h.tracks, h.framed, ?_⟩
  rw [hnone, append_nil]
  exact h.flow

theorem Pc.Seen.closed {p : Pc} {closed : ℕ} (rd : ℕ) (h : p.Seen conf closed)
    (hlt : off conf.queueSize (p.next conf rd) closed + 1 < conf.queueSize) :
    p.Seen conf (conf.wrap (closed + 1)) := by
  cases p <;> simp only [Pc.Seen, Pc.next] at h hlt ⊢
  case loop | recycle | posting | claiming | tail | out | fetch => exact h.closed hlt
  case pending | group => exact ⟨h.1.closed hlt, h.2⟩

theorem complete_grouped {u : Unit} {cd : Cd} (h : (s.rxq q).Tracks conf)
    (hroom : ((s.rxq q).ungrouped conf).length + 1 < conf.queueSize)
    (hs' : s'.rxq q = { s.rxq q with
      usedBd := update (s.rxq q).usedBd (s.rxq q).closedRb cd
      closedRb := conf.wrap ((s.rxq q).closedRb + 1) }) :
    StepGrouped conf q ⟨s, .hwComplete q cd, u, s'⟩ := by
  rw [Rxq.ungrouped, length_between] at hroom
  have hgroups : formed conf q ⟨s, .hwComplete q cd, u, s'⟩ = [] := by
    unfold formed groupsOf
    dsimp only
    rw [hs']
    cases (s.rxq q).pc <;> rfl
  have hdone : completed q ⟨s, .hwComplete q cd, u, s'⟩ = [cd] := if_pos rfl
  refine ⟨?_, ?_, ?_⟩
  · show Rxq.Tracks conf (s'.rxq q)
    rw [hs']
    exact ⟨h.read_lt, conf.wrap_lt _, h.handler.closed (s.rxq q).read hroom⟩
  · rw [hgroups]
    show Framed _ _ ((s.rxq q).pc.splitRb _) [] ((s'.rxq q).pc.splitRb (s'.rxq q).incompleteSplitRb)
    rw [hs']
    exact .nil _
  rw [hgroups, hdone]
  show Rxq.ungrouped conf (s'.rxq q) = Rxq.ungrouped conf (s.rxq q) ++ [cd]
  rw [hs', Rxq.ungrouped, Rxq.ungrouped]
  dsimp only
  rw [conf.wrap_eq]
  exact between_push _ h.closed_lt hroom cd

theorem rxStep_grouped {a : Action} {u : Unit} (h : (s.rxq q).Tracks conf)
    (hfits : Fits conf q ⟨s, a, u, s'⟩) (hstep : rxStep conf s a = some (u, s')) :
    StepGrouped conf q ⟨s, a, u, s'⟩ := by
  have hsame : ∀ {s' : State} {a : Action}, s'.rxq q = s.rxq q → completed q ⟨s, a, u, s'⟩ = [] →
      StepGrouped conf q ⟨s, a, u, s'⟩ :=
    fun heq hnone => .of_queue heq (.same h ⟨rfl, rfl, rfl, rfl⟩ rfl) hnone
  cases rxStep_moves hstep with
  | @queue q' _ _ _ _ hmoves =>
    by_cases hqq : q' = q
    · subst hqq
      exact .of_queue (update_self ..) (hmoves.grouped h) rfl
    · exact hsame (update_of_ne (Ne.symm hqq) ..) rfl
  | allocator _ => exact hsame rfl rfl
  | @hwFetch q' _ _ =>
    by_cases hqq : q' = q
    · subst hqq
      exact .of_queue (update_self ..) (.same h ⟨rfl, rfl, rfl, rfl⟩ rfl) rfl
    · exact hsame (update_of_ne (Ne.symm hqq) ..) rfl
  | @hwComplete q' cd _ =>
    by_cases hqq : q' = q
    · subst hqq
      exact complete_grouped h (hfits (by simp [completed])) (update_self ..)
    · exact hsame (update_of_ne (Ne.symm hqq) ..) (if_neg hqq)

theorem run_grouped {ls : List (Label State Action Unit)} (hrun : Run (rxStep conf) s ls s')
    (hfits : ∀ l ∈ ls, Fits conf q l) (h : (s.rxq q).Tracks conf) :
    (s'.rxq q).Tracks conf ∧
      Framed conf.goesOn maxSplitRbs ((s.rxq q).pc.splitRb (s.rxq q).incompleteSplitRb)
        (ls.flatMap (formed conf q)) ((s'.rxq q).pc.splitRb (s'.rxq q).incompleteSplitRb) ∧
      (ls.flatMap (formed conf q)).flatMap Prod.snd ++ (s'.rxq q).ungrouped conf =
        (s.rxq q).ungrouped conf ++ ls.flatMap (completed q) := by
  induction hrun with
  | nil s => exact ⟨h, .nil _, by simp⟩
  | @cons s s₁ s₂ a u ls hstep _ ih =>
    rw [forall_mem_cons] at hfits
    obtain ⟨htracks, hframed, hflow⟩ := rxStep_grouped h hfits.1 hstep
    obtain ⟨htracks', hframed', hflow'⟩ := ih hfits.2 htracks
    refine ⟨htracks', hframed.append hframed', ?_⟩
    rw [flatMap_cons, flatMap_append, append_assoc, hflow', ← append_assoc,
      hflow, flatMap_cons, append_assoc]

theorem tracks_rxInit (conf : Conf) (q : ℕ) : ((rxInit conf).rxq q).Tracks conf := by
  unfold rxInit
  dsimp only
  split
  all_goals exact ⟨conf.size_pos, conf.size_pos, trivial⟩

theorem update_pc (queues : ℕ → Rxq) {q' : ℕ} {rxq : Rxq} (h : rxq.pc = (queues q').pc) :
    (update queues q' rxq q).pc = (queues q).pc := by
  by_cases hqq : q = q'
  · subst hqq
    rw [update_self, h]
  · rw [update_of_ne hqq]

theorem left_unread {a : Action} {u : Unit} {f f' : Frame} (h : (s.rxq q).Tracks conf)
    (hstep : rxStep conf s a = some (u, s')) (hpc : (s.rxq q).pc = .group f)
    (hpc' : (s'.rxq q).pc = .out f') :
    (∀ cd ∈ between conf.queueSize (s.rxq q).usedBd f.i f.r, conf.goesOn cd = true) ∧
      off conf.queueSize f.i f.r < maxSplitRbs := by
  have hne : (s'.rxq q).pc ≠ (s.rxq q).pc := by
    rw [hpc, hpc']
    simp
  cases rxStep_moves hstep with
  | @queue q' _ rxq _ _ hmoves =>
    by_cases hqq : q' = q
    · subst hqq
      dsimp only at hpc'
      rw [update_self] at hpc'
      exact group_left h hpc hmoves hpc'
    · exact absurd (congrArg Rxq.pc (update_of_ne (Ne.symm hqq) rxq s.rxq)) hne
  | allocator _ => exact absurd rfl hne
  | hwFetch _ _ | hwComplete _ => exact (hne (update_pc s.rxq rfl)).elim

end run

theorem length_ungrouped_le (h : rxq.Ok conf) :
    (rxq.ungrouped conf).length ≤ (rxq.unread conf).length := by
  have hh := h.handler
  rw [Rxq.ungrouped, Rxq.unread, length_between, length_between]
  cases hpc : rxq.pc with
  | fetch f j rxbs error =>
    rw [hpc] at hh
    obtain ⟨hok, hj, hn⟩ := hh
    have hseen := hok.seen
    have hnext : conf.wrap (f.i + f.n) = (conf.wrap (f.i + j) + (f.n - j)) % conf.queueSize := by
      rw [conf.wrap_eq, conf.wrap_eq, Nat.mod_add_mod]
      congr 1
      omega
    simp only [Pc.next, Pc.cursor]
    rw [hnext, off_mod_left conf.size_pos, off_advance conf.size_pos (by omega)]
    omega
  | _ => exact le_rfl

/-- **Unread completions are not overwritten** by a device that reports only what it was given. -/
theorem fits_of_reportsGiven {ls : List (Label State Action Unit)} {s : State} {q : ℕ}
    (hmq : conf.mqRxSupported = true) (hrun : Run (rxStep conf) (rxInit conf) ls s)
    (hdev : ∀ l ∈ ls, reportsGiven l = true) : ∀ l ∈ ls, Fits conf q l := by
  intro l hl hdone
  obtain ⟨hstep, ⟨hcons, hbal⟩, -⟩ := (conserved_of_run hmq hrun hdev).2 l hl
  have hgiven := hdev l hl
  obtain ⟨pre, act, out, post⟩ := l
  cases act with
  | hwComplete q' cd =>
    have hqq : q' = q := by
      by_contra hne
      simp [completed, hne] at hdone
    subst hqq
    have hq : q' < conf.numRxqs := by
      by_contra hlt
      simp [rxStep, hlt] at hstep
    have hheld : 0 < pre.held.length := by
      simp only [reportsGiven, Bool.and_eq_true] at hgiven
      exact length_pos_of_mem (contains_iff_mem.mp hgiven.2)
    have hroom := room hmq hcons hbal hq
    have hle := length_ungrouped_le (hcons.ok q')
    dsimp only at hroom hle ⊢
    omega
  | queue q' a | allocator failed | hwFetch q' => simp [completed] at hdone

theorem fits_of_reportsGiven_two :
    ∃ ls s, execute (rxStep oneQueue) (rxInit oneQueue) stealTwo = some (ls, s) ∧
      (∃ l ∈ ls, completed 0 l ≠ []) ∧ ∀ l ∈ ls, Fits oneQueue 0 l :=
  exists_execute rfl fun hrun => ⟨by decide, fits_of_reportsGiven rfl hrun (by decide)⟩

def cutPacket : List Action :=
  let run (b : Bool) : Action := .queue 0 (.run b)
  [run true, .hwComplete 0 { rbid := 9, fragmented := true }, .queue 0 (.poll 8)] ++
    List.replicate 6 (run true) ++ [.hwComplete 0 { rbid := 8 }, .queue 0 (.poll 8)] ++
    List.replicate 4 (run true)

end Iwlwifi.Iwl.Pcie.Rx
