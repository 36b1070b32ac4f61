import Iwlwifi.RxCount
import Iwlwifi.RxPlaces

/-! # Conservation of the receive buffers

Along every run each RBD of the pool is at exactly one place, and the free rings do not overflow.

* `Conserved` is the invariant: all RBDs of the pool are held once, in the condition of their place.
  Steps of a queue are transfers by `Moves.kept`; so are those of the allocator
  (`allocatorStep_transfer`) and of the device, which reports only RBDs it was given
  (`reportsGiven`).
* A free ring has as many slots as there are RBDs outside the pool of the allocator, and one more.
  By the balance the allocator always has at least its pool, so there is a slot for every RBD that
  can be posted (`room`), and a free cell for every completion. -/

namespace Iwlwifi.Iwl.Pcie.Rx

open Custody Finset Function Iwlwifi.Ring

variable {conf : Conf} {s s' : State} {rxq' : Rxq} {sh sh' : Shared} {q : ℕ}

/-! ### Places of the system -/

inductive SPlace
  /-- fetched by the device -/
  | held
  | rbdEmpty
  | rbdAllocated
  | localEmpty
  | localAllocated
deriving DecidableEq

def SPlace.tag : SPlace → Tag
  | .held => .lent
  | .rbdEmpty | .localEmpty => .empty
  | .rbdAllocated | .localAllocated => .full

instance : Fintype QPlace where
  elems := {.posted, .completed, .rxFree, .rxUsed, .hand}
  complete p := by cases p <;> decide

instance : Fintype SPlace where
  elems := {.held, .rbdEmpty, .rbdAllocated, .localEmpty, .localAllocated}
  complete p := by cases p <;> decide

/-- A place of a system with `n` queues. -/
abbrev Place (n : ℕ) := (Fin n × QPlace) ⊕ SPlace

def Place.tag {n : ℕ} : Place n → Tag
  | .inl (_, p) => p.tag
  | .inr p => p.tag

def State.rbdsAt (conf : Conf) (s : State) : Place conf.numRxqs → List ℕ
  | .inl (q, p) => (s.rxq q).rbds conf p
  | .inr .held => s.held
  | .inr .rbdEmpty => s.shared.rbdEmpty
  | .inr .rbdAllocated => s.shared.rbdAllocated
  | .inr .localEmpty => s.allocator.localEmpty
  | .inr .localAllocated => s.allocator.localAllocated

def Allocator.owned (a : Allocator) : Multiset (ℕ × Tag) :=
  hold Tag.empty a.localEmpty + hold Tag.full a.localAllocated

def State.owned (conf : Conf) (s : State) : Multiset (ℕ × Tag) :=
  ∑ q ∈ range conf.numRxqs, (s.rxq q).owned conf +
    (s.shared.owned + s.allocator.owned + hold Tag.lent s.held)

theorem owned_eq_sum (conf : Conf) (s : State) :
    s.owned conf = ∑ p : Place conf.numRxqs, hold p.tag (s.rbdsAt conf p) := by
  have hq : ∀ g : QPlace → Multiset (ℕ × Tag),
      ∑ p, g p = g .posted + (g .completed + (g .rxFree + (g .rxUsed + g .hand))) := by
    intro g
    rw [show (univ : Finset QPlace) = {.posted, .completed, .rxFree, .rxUsed, .hand} from rfl]
    simp
  have hs : ∀ g : SPlace → Multiset (ℕ × Tag), ∑ p, g p =
      g .held + (g .rbdEmpty + (g .rbdAllocated + (g .localEmpty + g .localAllocated))) := by
    intro g
    rw [show (univ : Finset SPlace) =
      {.held, .rbdEmpty, .rbdAllocated, .localEmpty, .localAllocated} from rfl]
    simp
  rw [Fintype.sum_sum_type, Fintype.sum_prod_type, hs, State.owned, sum_range]
  congr 1
  · apply sum_congr rfl
    intro q _
    rw [hq]
    simp only [Rxq.owned, State.rbdsAt, Place.tag, QPlace.tag, Rxq.rbds]
    ac_rfl
  · simp only [Shared.owned, Allocator.owned, State.rbdsAt, Place.tag, SPlace.tag]
    ac_rfl

/-! ### The invariant -/

/-- Every RBD of the pool is held once, in the condition of its place. -/
structure Conserved (conf : Conf) (s : State) : Prop where
  ok : ∀ q, (s.rxq q).Ok conf
  ids : ids (s.owned conf) = Multiset.range conf.numAlloc
  agree : Agree s.shared.tag (s.owned conf)

theorem Conserved.nodup (h : Conserved conf s) : (Custody.ids (s.owned conf)).Nodup := by
  rw [h.ids]
  exact Multiset.nodup_range _

theorem Conserved.transfer (h : Conserved conf s) (hok : ∀ q, (s'.rxq q).Ok conf)
    (ht : Transfer s.shared.tag (s.owned conf) s'.shared.tag (s'.owned conf)) :
    Conserved conf s' := by
  obtain ⟨hi, ha, -⟩ := ht h.nodup h.agree
  exact ⟨hok, hi.trans h.ids, ha⟩

theorem owned_split (hq : q < conf.numRxqs) : s.owned conf = (s.rxq q).owned conf +
    (∑ i ∈ (range conf.numRxqs).erase q, (s.rxq i).owned conf +
      (s.shared.owned + s.allocator.owned + hold Tag.lent s.held)) := by
  rw [State.owned, ← add_sum_erase _ _ (mem_range.mpr hq), add_assoc]

theorem ok_update (h : ∀ q, (s.rxq q).Ok conf) (hq : rxq'.Ok conf) (i : ℕ) :
    (update s.rxq q rxq' i).Ok conf := by
  rcases eq_or_ne i q with rfl | hne
  · rwa [update_self]
  · rw [update_of_ne hne]
    exact h i

theorem Conserved.queue (h : Conserved conf s) (hq : q < conf.numRxqs)
    (hk : Kept conf (s.rxq q) s.shared rxq' sh') :
    Conserved conf { s with rxq := update s.rxq q rxq', shared := sh' } := by
  refine h.transfer (ok_update h.ok hk.ok) ?_
  convert hk.transfer.frame (∑ i ∈ (range conf.numRxqs).erase q, (s.rxq i).owned conf +
    (s.allocator.owned + hold Tag.lent s.held)) using 1
  · rw [owned_split hq]
    ac_rfl
  · simp only [State.owned, sum_update (fun r : Rxq => r.owned conf) s.rxq hq]
    ac_rfl

theorem Conserved.device {held : List ℕ} (h : Conserved conf s) (hq : q < conf.numRxqs)
    (hok : rxq'.Ok conf) (ho : rxq'.owned conf + hold Tag.lent held =
      (s.rxq q).owned conf + hold Tag.lent s.held) :
    Conserved conf { s with rxq := update s.rxq q rxq', held := held } := by
  refine h.transfer (ok_update h.ok hok) (.of_eq ?_)
  have h₂ : State.owned conf { s with rxq := update s.rxq q rxq', held := held } =
      rxq'.owned conf + hold Tag.lent held +
      (∑ i ∈ (range conf.numRxqs).erase q, (s.rxq i).owned conf +
        (s.shared.owned + s.allocator.owned)) := by
    simp only [State.owned, sum_update (fun r : Rxq => r.owned conf) s.rxq hq]
    ac_rfl
  rw [h₂, ho, owned_split hq]
  ac_rfl

/-! ### Steps of the allocator -/

theorem allocatorStep_transfer {a a' : Allocator} {failed : Bool} (hok : a.Ok sh)
    (h : allocatorStep sh a failed = some (sh', a')) :
    Transfer sh.tag (sh.owned + a.owned) sh'.tag (sh'.owned + a'.owned) := by
  obtain ⟨localEmpty, localAllocated, apc⟩ := a
  cases apc with
  | idle | reread p =>
    cases h
    exact .of_eq rfl
  | swap p =>
    cases h
    obtain rfl : localEmpty = [] := hok.1
    apply transfer_same _ rfl rfl
    simp only [Shared.owned, Allocator.owned, hold_nil]
    ac_rfl
  | take p i =>
    simp only [allocatorStep] at h
    split at h
    · split at h
      · cases h
      rename_i rxb rest
      split at h
      · cases h
      split at h <;> cases h
      · exact .of_eq rfl
      refine transfer_page (a := false) (b := true) (r := sh.owned + hold Tag.empty rest +
        hold Tag.full localAllocated) ?_ ?_ rfl rfl
      · simp only [Allocator.owned, hold_cons, Tag.empty]
        ac_rfl
      · simp only [Shared.owned, Allocator.owned, hold_cons, Tag.full]
        ac_rfl
    · cases h
      exact transfer_same rfl rfl rfl
  | splice p | finish =>
    cases h
    apply transfer_same _ rfl rfl
    simp only [Shared.owned, Allocator.owned, hold_append, hold_nil]
    ac_rfl
  | ready p =>
    cases h
    exact transfer_same rfl rfl rfl

theorem Conserved.allocator {a' : Allocator} {failed : Bool} (h : Conserved conf s)
    (hok : s.allocator.Ok s.shared)
    (hstep : allocatorStep s.shared s.allocator failed = some (sh', a')) :
    Conserved conf { s with shared := sh', allocator := a' } := by
  refine h.transfer h.ok ?_
  convert (allocatorStep_transfer hok hstep).frame
    (∑ q ∈ range conf.numRxqs, (s.rxq q).owned conf + hold Tag.lent s.held) using 1
  all_goals
    rw [State.owned]
    ac_rfl

/-! ### Room in the rings -/

theorem card_hold (t : Tag) (l : List ℕ) : Multiset.card (hold t l) = l.length := by
  simp [hold]

theorem room (hmq : conf.mqRxSupported = true) (h : Conserved conf s) (hb : Balanced conf s)
    (hq : q < conf.numRxqs) :
    off conf.queueSize (s.rxq q).hwRead (s.rxq q).write + ((s.rxq q).unread conf).length +
      (s.rxq q).rxFree.length + s.held.length < conf.queueSize := by
  have hpos := conf.size_pos
  have hcard : Multiset.card (Custody.ids (s.owned conf)) = conf.numAlloc := by
    rw [h.ids, Multiset.card_range]
  have hqueue : ∀ i, Multiset.card ((s.rxq i).owned conf) =
      off conf.queueSize (s.rxq i).hwRead (s.rxq i).write +
        ((s.rxq i).unread conf).length + (s.rxq i).rxFree.length + (s.rxq i).rxUsed.length +
        (s.rxq i).pc.hand.length := by
    intro i
    simp only [Rxq.owned, Rxq.rbds, Multiset.card_add, card_hold, List.length_map, length_between]
  -- the other queues have at least what they owe
  have hrest : ∑ i ∈ (range conf.numRxqs).erase q, (s.rxq i).owed ≤
      ∑ i ∈ (range conf.numRxqs).erase q, Multiset.card ((s.rxq i).owned conf) := by
    apply sum_le_sum
    intro i _
    have := (owed_le (s.rxq i)).1
    rw [hqueue]
    omega
  have howned := hb.owned
  have hsum := add_sum_erase _ (fun i => (s.rxq i).owed) (mem_range.mpr hq)
  rw [State.total, State.total, ← hsum] at howned
  have howed := (owed_le (s.rxq q)).1
  rw [Custody.ids, Multiset.card_map, owned_split hq] at hcard
  simp only [Multiset.card_add, Multiset.card_sum, hqueue q, Shared.owned, Allocator.owned,
    card_hold] at hcard
  rw [Conf.numAlloc, if_pos hmq] at hcard
  omega

/-! ### Steps of the device -/

def reportsGiven (l : Label State Action Unit) : Bool :=
  match l.act with
  | .hwComplete _ cd => decide (0 < cd.rbid) && l.pre.held.contains (cd.rbid - 1)
  | _ => true

theorem hwFetch_kept {rxq : Rxq} (held : List ℕ) (hok : rxq.Ok conf)
    (hne : rxq.hwRead ≠ rxq.write) :
    Rxq.Ok conf { rxq with hwRead := conf.wrap (rxq.hwRead + 1) } ∧
    Rxq.owned conf { rxq with hwRead := conf.wrap (rxq.hwRead + 1) } +
        hold Tag.lent (held ++ [rxq.bd rxq.hwRead]) =
      rxq.owned conf + hold Tag.lent held := by
  have hpos : 0 < off conf.queueSize rxq.hwRead rxq.write := by
    by_contra h0
    exact hne (eq_of_off_zero hok.hwRead_lt hok.write_lt (by omega))
  have hpop := between_pop rxq.bd hpos conf.size_pos
  rw [Nat.mod_eq_of_lt hok.hwRead_lt] at hpop
  refine ⟨⟨hok.free, hok.read_lt, hok.write_lt, conf.wrap_lt _, hok.closed_lt, hok.handler,
    hok.vids⟩, ?_⟩
  simp only [Rxq.owned, Rxq.rbds, Rxq.unread, hpop, conf.wrap_eq, hold_append, hold_cons, hold_nil,
    add_zero]
  ac_rfl

theorem Frame.Ok.closed {f : Frame} {closed cur : ℕ} (h : f.Ok conf closed cur)
    (hlt : off conf.queueSize cur closed + 1 < conf.queueSize) :
    f.Ok conf (conf.wrap (closed + 1)) cur := by
  refine ⟨h.i_lt, h.r_lt, ?_⟩
  rw [conf.wrap_eq, off_mod_right conf.size_pos, off_succ hlt]
  exact Nat.le_succ_of_le h.seen

theorem Pc.Ok.closed {p : Pc} {rd closed : ℕ} (h : p.Ok conf closed)
    (hlt : off conf.queueSize (p.cursor conf rd) closed + 1 < conf.queueSize) :
    p.Ok conf (conf.wrap (closed + 1)) := by
  cases p with
  | loop f | recycle f _ _ | posting f _ _ | claiming f | tail f | out f => exact Frame.Ok.closed h hlt
  | pending f | group f | fetch f _ _ _ => exact ⟨h.1.closed hlt, h.2⟩
  | _ => trivial

theorem hwComplete_kept {rxq : Rxq} {held : List ℕ} {cd : Cd} (hok : rxq.Ok conf)
    (hroom : (rxq.unread conf).length + 1 < conf.queueSize) (hpos : 0 < cd.rbid)
    (hheld : cd.rbid - 1 ∈ held) :
    Rxq.Ok conf { rxq with
      usedBd := update rxq.usedBd rxq.closedRb cd
      closedRb := conf.wrap (rxq.closedRb + 1) } ∧
    Rxq.owned conf { rxq with
      usedBd := update rxq.usedBd rxq.closedRb cd
      closedRb := conf.wrap (rxq.closedRb + 1) } + hold Tag.lent (held.erase (cd.rbid - 1)) =
      rxq.owned conf + hold Tag.lent held := by
  rw [Rxq.unread, length_between] at hroom
  have hpush : Rxq.unread conf { rxq with
      usedBd := update rxq.usedBd rxq.closedRb cd
      closedRb := conf.wrap (rxq.closedRb + 1) } = rxq.unread conf ++ [cd] := by
    simp only [Rxq.unread, conf.wrap_eq]
    exact between_push rxq.usedBd hok.closed_lt hroom cd
  refine ⟨⟨hok.free, hok.read_lt, hok.write_lt, hok.hwRead_lt, conf.wrap_lt _,
    hok.handler.closed hroom, ?_⟩, ?_⟩
  · intro c hc
    rw [hpush, List.mem_append, List.mem_singleton] at hc
    rcases hc with hc | rfl
    · exact hok.vids c hc
    · exact hpos
  · rw [hold_perm _ (List.perm_cons_erase hheld)]
    simp only [Rxq.owned, Rxq.rbds, hpush, List.map_append, List.map_cons, List.map_nil,
      hold_append, hold_cons, hold_nil, add_zero]
    ac_rfl

/-! ### Runs -/

theorem Conserved.step {a : Action} {u : Unit} (hmq : conf.mqRxSupported = true)
    (h : Conserved conf s) (hb : Balanced conf s) (hdev : reportsGiven ⟨s, a, u, s'⟩ = true)
    (hstep : rxStep conf s a = some (u, s')) : Conserved conf s' := by
  cases rxStep_moves hstep with
  | queue hq hmoves =>
    refine h.queue hq (hmoves.kept hmq (h.ok _) ?_ ?_)
    · intro x hx
      rw [← Multiset.mem_range, ← h.ids, owned_split hq, ids_add]
      exact Multiset.mem_add.mpr (Or.inl hx)
    intro hfree
    have := room hmq h hb hq
    have := List.length_pos_of_ne_nil hfree
    omega
  | allocator has => exact h.allocator hb.allocator has
  | hwFetch hq hne =>
    obtain ⟨hok, ho⟩ := hwFetch_kept s.held (h.ok _) hne
    exact h.device hq hok ho
  | @hwComplete q cd hq =>
    simp only [reportsGiven, Bool.and_eq_true, decide_eq_true_eq, List.contains_iff_mem] at hdev
    have hroom := room hmq h hb hq
    have hheld := List.length_pos_of_mem hdev.2
    obtain ⟨hok, ho⟩ := hwComplete_kept (h.ok q) (by omega) hdev.1 hdev.2
    exact h.device hq hok ho

theorem owned_fresh {rxq : Rxq} (hw : rxq.write = rxq.hwRead)
    (hc : rxq.closedRb = rxq.pc.cursor conf rxq.read) (hh : rxq.pc.hand = [])
    (hf : rxq.rxFree = []) : rxq.unread conf = [] ∧ rxq.owned conf = hold Tag.empty rxq.rxUsed := by
  have hu : rxq.unread conf = [] := by
    rw [← List.length_eq_zero_iff, Rxq.unread, length_between, hc, off_self conf.size_pos]
  have hp : rxq.rbds conf .posted = [] := by
    rw [← List.length_eq_zero_iff, Rxq.rbds, length_between, hw, off_self conf.size_pos]
  have hd : rxq.rbds conf .completed = [] := by
    rw [Rxq.rbds, hu, List.map_nil]
  refine ⟨hu, ?_⟩
  simp [Rxq.owned, hp, hd, hh, hf]

/-- At first all RBDs are without a page, on `rbd_empty` and on the `rx_used` of the default
queue. -/
theorem owned_rxInit (conf : Conf) : (rxInit conf).owned conf =
    hold Tag.empty ((List.range' conf.allocatorPoolSize
      (conf.numAlloc - conf.allocatorPoolSize)).reverse ++
        (List.range conf.allocatorPoolSize).reverse) := by
  have hzero : ((rxInit conf).rxq 0).owned conf = hold Tag.empty (List.range' conf.allocatorPoolSize
      (conf.numAlloc - conf.allocatorPoolSize)).reverse := (owned_fresh rfl rfl rfl rfl).2
  have hother : ∀ q ∈ range conf.numRxqs, q ≠ 0 → ((rxInit conf).rxq q).owned conf = 0 := by
    intro q _ hq
    simp only [rxInit, if_neg hq]
    exact (owned_fresh rfl rfl rfl rfl).2
  rw [State.owned, sum_eq_single_of_mem 0 (mem_range.mpr conf.numPos) hother, hzero]
  simp [rxInit, Shared.owned, Allocator.owned]

theorem conserved_rxInit (conf : Conf) : Conserved conf (rxInit conf) := by
  refine ⟨?_, ?_, ?_⟩
  · intro q
    have hpos := conf.size_pos
    simp only [rxInit]
    split
    all_goals
      refine ⟨rfl, hpos, hpos, hpos, hpos, trivial, ?_⟩
      rw [(owned_fresh rfl rfl rfl rfl).1]
      simp
  · rw [owned_rxInit, ids_hold, Multiset.range, Multiset.coe_eq_coe]
    have hsplit : List.range conf.numAlloc = List.range conf.allocatorPoolSize ++
        List.range' conf.allocatorPoolSize (conf.numAlloc - conf.allocatorPoolSize) := by
      have hle : conf.allocatorPoolSize ≤ conf.numAlloc := Nat.le_add_left _ _
      have := List.range'_append_1 (s := 0) (m := conf.allocatorPoolSize)
        (n := conf.numAlloc - conf.allocatorPoolSize)
      rw [List.range_eq_range', List.range_eq_range', ← Nat.add_sub_cancel' hle, ← this]
      simp
    rw [hsplit]
    exact ((List.reverse_perm _).append (List.reverse_perm _)).trans List.perm_append_comm
  · rw [owned_rxInit]
    intro p hp
    obtain ⟨x, -, rfl⟩ := Multiset.mem_map.mp hp
    rfl

theorem conserved_of_run {ls : List (Label State Action Unit)} (hmq : conf.mqRxSupported = true)
    (hrun : Run (rxStep conf) (rxInit conf) ls s) (hdev : ∀ l ∈ ls, reportsGiven l = true) :
    (Conserved conf s ∧ Balanced conf s) ∧ ∀ l ∈ ls, rxStep conf l.pre l.act = some (l.out, l.post) ∧
      (Conserved conf l.pre ∧ Balanced conf l.pre) ∧ Conserved conf l.post ∧ Balanced conf l.post :=
  hrun.induct (I := fun s => Conserved conf s ∧ Balanced conf s)
    (C := fun l => reportsGiven l = true)
    (fun _ _ _ _ hs hd h => ⟨h.1.step hmq h.2 hd hs, h.2.step hs⟩) hdev
    ⟨conserved_rxInit conf, balanced_rxInit conf⟩

/-- **Conservation of the receive buffers.**  At every moment of every run

* each RBD of the pool is at exactly one place, once, has a page exactly if it is with the device,
  on `rx_free`, on `rbd_allocated`, on the list of those just allocated or in a hand, and is marked
  valid exactly if it is with the device;
* when the lock of a queue is free, only `iwl_pcie_rxq_alloc_rbs` has an RBD in its hand;
* `free_count` is the length of `rx_free`;
* if a queue has an RBD to post, then there is a slot which the device has already fetched, even if
  the slots of all RBDs that it has not yet completed were to be kept. -/
theorem rbds_conserved (conf : Conf) (hmq : conf.mqRxSupported = true) (s : State)
    (ls : List (Label State Action Unit)) (hrun : Run (rxStep conf) (rxInit conf) ls s)
    (hdev : ∀ l ∈ ls, reportsGiven l = true) :
    (∀ x < conf.numAlloc, ∃ p : Place conf.numRxqs,
      (∀ p', (s.rbdsAt conf p').count x = if p' = p then 1 else 0) ∧
      s.shared.page x = p.tag.page ∧ s.shared.invalid x = p.tag.invalid) ∧
    (∀ q, (s.rxq q).pc.lockFree = true → ∀ x ∈ (s.rxq q).pc.hand,
      ∃ k, (s.rxq q).pc = .allocMap k x) ∧
    (∀ q, (s.rxq q).freeCount = (s.rxq q).rxFree.length) ∧
    (∀ q < conf.numRxqs, (s.rxq q).rxFree ≠ [] →
      off conf.queueSize (s.rxq q).hwRead (s.rxq q).write + s.held.length + 1 <
        conf.queueSize) := by
  obtain ⟨⟨h, hb⟩, -⟩ := conserved_of_run hmq hrun hdev
  refine ⟨?_, ?_, fun q => (h.ok q).free, ?_⟩
  · intro x hx
    have hmem : x ∈ Custody.ids (s.owned conf) := by
      rw [h.ids]
      exact Multiset.mem_range.mpr hx
    obtain ⟨p, hp, htag⟩ := exists_place (s.rbdsAt conf) Place.tag (owned_eq_sum conf s) h.nodup
      h.agree hmem
    refine ⟨p, hp, ?_⟩
    rw [← htag]
    exact ⟨rfl, rfl⟩
  · intro q hfree x hx
    cases hpc : (s.rxq q).pc with
    | allocMap k rxb =>
      rw [hpc, Pc.hand, List.mem_singleton] at hx
      exact ⟨k, by rw [hx]⟩
    | _ => simp_all [Pc.hand, Pc.lockFree]
  · intro q hq hne
    have hroom := room hmq h hb hq
    have := List.length_pos_of_ne_nil hne
    omega

/-- Two pages have been stolen, and the allocator has allocated the first page of its request. -/
def stealTwoRefill : List Action :=
  stealTwo ++ List.replicate 5 (.queue 0 (.run false)) ++ List.replicate 3 (.allocator false)

theorem rbds_conserved_refill :
    ∃ ls s, execute (rxStep oneQueue) (rxInit oneQueue) stealTwoRefill = some (ls, s) ∧
      ∃ p : Place oneQueue.numRxqs,
        (∀ p', (s.rbdsAt oneQueue p').count 5 = if p' = p then 1 else 0) ∧
        s.shared.page 5 = p.tag.page ∧ s.shared.invalid 5 = p.tag.invalid :=
  exists_execute rfl fun hrun =>
    (rbds_conserved oneQueue rfl _ _ hrun (by decide)).1 5 (by decide)

/-- While `iwl_pcie_rxq_alloc_rbs` maps the page of an RBD it is on no list and not posted; an RBD
on the list of those just allocated has a page. -/
theorem rbd_on_no_list :
    (∃ ls s, execute (rxStep oneQueue) (rxInit oneQueue)
        [.queue 0 (.run false), .queue 0 (.run false)] = some (ls, s) ∧
      ls.all reportsGiven = true ∧ (s.rxq 0).pc.lockFree = true ∧ 8 < oneQueue.numAlloc ∧
      ∀ p : Place oneQueue.numRxqs, p ≠ .inl (⟨0, oneQueue.numPos⟩, .hand) →
        8 ∉ s.rbdsAt oneQueue p) ∧
    ∃ ls s, execute (rxStep oneQueue) (rxInit oneQueue) stealTwoRefill = some (ls, s) ∧
      ls.all reportsGiven = true ∧ (s.rxq 0).pc.lockFree = true ∧ 5 < oneQueue.numAlloc ∧
      s.shared.page 5 = true ∧
      ∀ p : Place oneQueue.numRxqs, p ≠ .inr .localAllocated → 5 ∉ s.rbdsAt oneQueue p :=
  ⟨⟨_, _, rfl, rfl, rfl, by decide, by decide⟩, ⟨_, _, rfl, rfl, rfl, by decide, rfl, by decide⟩⟩

end Iwlwifi.Iwl.Pcie.Rx
