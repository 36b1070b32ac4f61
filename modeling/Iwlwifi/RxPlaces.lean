import Iwlwifi.Custody
import Iwlwifi.Framing
import Iwlwifi.RxBuf

/-! # Places of the receive buffers

Where the RBDs of a queue are, and what a step of the queue does to them.

* The condition of an RBD (`Tag`) is whether it has a page and whether it is marked invalid.  Each
  place has a condition of its own: RBDs that are `lent` to the device have a page and are valid,
  `full` ones have a page, `empty` ones have none.
* The places of a queue (`QPlace`) are its two lists, the part of the free ring that the device has
  not fetched, the completions that the handler has not read, and the `hand` of the code that works
  on the queue, for RBDs that are on no list.
* The handler reads completions from `Pc.cursor` on, and it relies on the part of the ring up to the
  index it has read at the start (`Frame.Ok`).
* A step of a queue is a transfer among its places and the lists of the allocator (`Kept`).  The one
  thing it takes from outside is that the free ring has a slot for every RBD it posts. -/

namespace Iwlwifi.Iwl.Pcie.Rx

open Custody Function Iwlwifi.Ring

variable {conf : Conf} {rxq rxq' : Rxq} {sh sh' : Shared}

/-! ### Definitions -/

structure Tag where
  page : Bool
  invalid : Bool

def Tag.lent : Tag := ⟨true, false⟩

def Tag.full : Tag := ⟨true, true⟩

def Tag.empty : Tag := ⟨false, true⟩

def Shared.tag (sh : Shared) (x : ℕ) : Tag := ⟨sh.page x, sh.invalid x⟩

inductive QPlace
  /-- in the free ring, not yet fetched -/
  | posted
  /-- in the ring of completions, not yet read -/
  | completed
  | rxFree
  | rxUsed
  /-- taken off its list by the code that works on the queue -/
  | hand
deriving DecidableEq

def QPlace.tag : QPlace → Tag
  | .posted | .completed => .lent
  | .rxFree | .hand => .full
  | .rxUsed => .empty

def Pc.cursor (conf : Conf) (read : ℕ) : Pc → ℕ
  | .loop f | .pending f | .group f | .recycle f _ _ | .posting f _ _ | .claiming f | .tail f |
    .out f => f.i
  | .fetch f j _ _ => conf.wrap (f.i + j)
  | _ => read

def Pc.hand : Pc → List ℕ
  | .fetch _ _ rxbs _ | .recycle _ rxbs _ | .posting _ rxbs _ => rxbs
  | .allocMap _ rxb => [rxb]
  | _ => []

def Rxq.unread (conf : Conf) (rxq : Rxq) : List Cd :=
  between conf.queueSize rxq.usedBd (rxq.pc.cursor conf rxq.read) rxq.closedRb

def Rxq.rbds (conf : Conf) (rxq : Rxq) : QPlace → List ℕ
  | .posted => between conf.queueSize rxq.bd rxq.hwRead rxq.write
  | .completed => (rxq.unread conf).map (fun cd => cd.rbid - 1)
  | .rxFree => rxq.rxFree
  | .rxUsed => rxq.rxUsed
  | .hand => rxq.pc.hand

def Rxq.owned (conf : Conf) (rxq : Rxq) : Multiset (ℕ × Tag) :=
  hold Tag.lent (rxq.rbds conf .posted) + hold Tag.lent (rxq.rbds conf .completed) +
    hold Tag.full rxq.rxFree + hold Tag.empty rxq.rxUsed + hold Tag.full rxq.pc.hand

def Shared.owned (sh : Shared) : Multiset (ℕ × Tag) :=
  hold Tag.empty sh.rbdEmpty + hold Tag.full sh.rbdAllocated

def Conf.goesOn (conf : Conf) (cd : Cd) : Bool := conf.ax210 && cd.fragmented

/-- The local variables of the handler, when it is about to read at `cur`. -/
structure Frame.Ok (conf : Conf) (closed cur : ℕ) (f : Frame) : Prop where
  i_lt : f.i < conf.queueSize
  r_lt : f.r < conf.queueSize
  seen : off conf.queueSize cur f.r ≤ off conf.queueSize cur closed

def Pc.Ok (conf : Conf) (closed : ℕ) : Pc → Prop
  | .loop f | .recycle f _ _ | .posting f _ _ | .claiming f | .tail f | .out f =>
    f.Ok conf closed f.i
  | .pending f | .group f => f.Ok conf closed f.i ∧ f.i ≠ f.r
  | .fetch f j _ _ => f.Ok conf closed (conf.wrap (f.i + j)) ∧ j ≤ f.n ∧
      f.n ≤ j + off conf.queueSize (conf.wrap (f.i + j)) f.r
  | _ => True

structure Rxq.Ok (conf : Conf) (rxq : Rxq) : Prop where
  free : rxq.freeCount = rxq.rxFree.length
  read_lt : rxq.read < conf.queueSize
  write_lt : rxq.write < conf.queueSize
  hwRead_lt : rxq.hwRead < conf.queueSize
  closed_lt : rxq.closedRb < conf.queueSize
  handler : rxq.pc.Ok conf rxq.closedRb
  vids : ∀ cd ∈ rxq.unread conf, 0 < cd.rbid

structure Kept (conf : Conf) (rxq : Rxq) (sh : Shared) (rxq' : Rxq) (sh' : Shared) : Prop where
  transfer : Transfer sh.tag (rxq.owned conf + sh.owned) sh'.tag (rxq'.owned conf + sh'.owned)
  ok : rxq'.Ok conf

/-! ### Indices -/

theorem Conf.size_pos (conf : Conf) : 0 < conf.queueSize := by
  obtain ⟨k, hk⟩ := conf.sizePow
  rw [hk]
  exact Nat.two_pow_pos k

theorem Conf.wrap_eq (conf : Conf) (i : ℕ) : conf.wrap i = i % conf.queueSize := by
  obtain ⟨k, hk⟩ := conf.sizePow
  rw [Conf.wrap, hk, Nat.and_two_pow_sub_one_eq_mod]

theorem Conf.wrap_lt (conf : Conf) (i : ℕ) : conf.wrap i < conf.queueSize := by
  rw [conf.wrap_eq]
  exact Nat.mod_lt _ conf.size_pos

theorem Conf.wrap_of_lt {i : ℕ} (h : i < conf.queueSize) : conf.wrap i = i := by
  rw [conf.wrap_eq, Nat.mod_eq_of_lt h]

theorem Conf.wrap_wrap_succ (conf : Conf) (i j : ℕ) :
    conf.wrap (conf.wrap (i + j) + 1) = conf.wrap (i + (j + 1)) := by
  rw [conf.wrap_eq, conf.wrap_eq, conf.wrap_eq, Nat.mod_add_mod, Nat.add_assoc]

theorem Conf.off_wrap_succ {i x : ℕ} (h : 0 < off conf.queueSize i x) :
    off conf.queueSize (conf.wrap (i + 1)) x = off conf.queueSize i x - 1 := by
  rw [conf.wrap_eq, off_mod_left conf.size_pos, off_advance conf.size_pos h]

theorem Frame.Ok.ahead {f : Frame} {closed : ℕ} (h : f.Ok conf closed f.i) (hne : f.i ≠ f.r) :
    0 < off conf.queueSize f.i f.r := by
  by_contra h0
  exact hne (eq_of_off_zero h.i_lt h.r_lt (by omega))

/-! ### Counting -/

section counting
open Framing List

theorem between_succ {r i : ℕ} (hi : i < conf.queueSize)
    (h : 0 < off conf.queueSize i r) :
    between conf.queueSize rxq.usedBd i r =
      rxq.usedBd i :: between conf.queueSize rxq.usedBd (conf.wrap (i + 1)) r := by
  rw [between_pop _ h conf.size_pos, Nat.mod_eq_of_lt hi, conf.wrap_eq]

/-- **Counting** from `i` on, when the `n - 1` descriptors before go on. -/
theorem countRbs_spec (rxq : Rxq) {r : ℕ} (hr : r < conf.queueSize) :
    ∀ (fuel n i : ℕ), i < conf.queueSize →
    n + fuel = maxSplitRbs + 1 → 0 < fuel → 0 < off conf.queueSize i r →
    ∃ k inc, countRbs conf rxq r fuel n i = (if k = 0 then 0 else n + k - 1, inc) ∧
      k ≤ off conf.queueSize i r ∧ (k ≠ 0 → n + k ≤ maxSplitRbs + 1) ∧
      (k = 0 → inc = false ∧ n + off conf.queueSize i r ≤ maxSplitRbs ∧
        ∀ cd ∈ between conf.queueSize rxq.usedBd i r, conf.goesOn cd = true) ∧
      (k ≠ 0 → inc = false →
        IsEnd conf.goesOn ((between conf.queueSize rxq.usedBd i r).take k)) ∧
      (inc = true → n + k = maxSplitRbs + 1 ∧
        ∀ cd ∈ (between conf.queueSize rxq.usedBd i r).take k, conf.goesOn cd = true) := by
  intro fuel
  induction fuel with
  | zero =>
    intro n i _ _ h
    omega
  | succ fuel ih =>
    intro n i hi hfuel _ hoff
    rw [between_succ hi hoff, countRbs]
    have hgo : isFragmented conf rxq i = conf.goesOn (rxq.usedBd i) := rfl
    rw [hgo]
    cases hfrag : conf.goesOn (rxq.usedBd i) with
    | false =>
      refine ⟨1, false, by simp, hoff, fun _ => by omega, by simp, fun _ _ => ?_, by simp⟩
      exact ⟨[], rxq.usedBd i, by simp, by simp, hfrag⟩
    | true =>
      rw [if_neg (by decide)]
      by_cases hmax : n = maxSplitRbs
      · rw [if_pos hmax]
        refine ⟨1, true, by simp, hoff, fun _ => by omega, by simp, by simp, fun _ => ⟨by omega, ?_⟩⟩
        simpa using hfrag
      rw [if_neg hmax]
      have hadv := Conf.off_wrap_succ hoff
      by_cases hend : conf.wrap (i + 1) = r
      · -- the packet is cut by the index
        have hone : off conf.queueSize (conf.wrap (i + 1)) r = 0 := by
          rw [hend]
          exact off_self conf.size_pos
        have hnil : between conf.queueSize rxq.usedBd (conf.wrap (i + 1)) r = [] :=
          eq_nil_of_length_eq_zero (by rw [length_between, hone])
        rw [if_pos hend, hnil]
        refine ⟨0, false, by simp, by omega, by simp, fun _ => ⟨rfl, by omega, ?_⟩, by simp, by simp⟩
        simpa using hfrag
      · rw [if_neg hend]
        have hpos : 0 < off conf.queueSize (conf.wrap (i + 1)) r := by
          by_contra h0
          exact hend (eq_of_off_zero (conf.wrap_lt _) hr (by omega))
        obtain ⟨k, inc, hcount, hk, hmax', hzero, hwhole, hlong⟩ :=
          ih (n + 1) (conf.wrap (i + 1)) (conf.wrap_lt _) (by omega) (by omega) hpos
        rw [hcount]
        by_cases hk0 : k = 0
        · subst hk0
          obtain ⟨rfl, hlen, hall⟩ := hzero rfl
          refine ⟨0, false, by simp, by omega, by simp, fun _ => ⟨rfl, by omega, ?_⟩, by simp,
            by simp⟩
          rw [forall_mem_cons]
          exact ⟨hfrag, hall⟩
        · refine ⟨k + 1, inc, ?_, by omega, fun _ => ?_, by simp, fun _ hinc => ?_, fun hinc => ?_⟩
          · rw [if_neg hk0, if_neg (by omega)]
            congr 1
            omega
          · omega
          · obtain ⟨a, x, ha, hgo, hx⟩ := hwhole hk0 hinc
            refine ⟨rxq.usedBd i :: a, x, ?_, ?_, hx⟩
            · rw [take_succ_cons, ha, cons_append]
            · rw [forall_mem_cons]
              exact ⟨hfrag, hgo⟩
          · obtain ⟨hlen, hgo⟩ := hlong hinc
            refine ⟨by omega, ?_⟩
            rw [take_succ_cons, forall_mem_cons]
            exact ⟨hfrag, hgo⟩

end counting

/-! ### Elementary transfers -/

section transfers
variable {x : ℕ} {a b v : Bool} {o o' r : Multiset (ℕ × Tag)}

theorem transfer_same (ho : o' = o) (hp : sh'.page = sh.page) (hi : sh'.invalid = sh.invalid) :
    Transfer sh.tag o sh'.tag o' := by
  have htag : sh'.tag = sh.tag := by
    funext y
    simp only [Shared.tag, hp, hi]
  rw [htag]
  exact .of_eq ho

theorem transfer_page (ho : o = {(x, ⟨a, b⟩)} + r) (ho' : o' = {(x, ⟨v, b⟩)} + r)
    (hp : sh'.page = update sh.page x v) (hi : sh'.invalid = sh.invalid) :
    Transfer sh.tag o sh'.tag o' := by
  apply Transfer.change ho ho'
  · intro hx
    simp only [Shared.tag, Tag.mk.injEq, hp, hi, update_self] at hx ⊢
    exact ⟨trivial, hx.2⟩
  · intro y hy
    simp only [Shared.tag, hp, hi, update_of_ne hy]

theorem transfer_invalid (ho : o = {(x, ⟨a, b⟩)} + r) (ho' : o' = {(x, ⟨a, v⟩)} + r)
    (hp : sh'.page = sh.page) (hi : sh'.invalid = update sh.invalid x v) :
    Transfer sh.tag o sh'.tag o' := by
  apply Transfer.change ho ho'
  · intro hx
    simp only [Shared.tag, Tag.mk.injEq, hp, hi, update_self] at hx ⊢
    exact ⟨hx.1, trivial⟩
  · intro y hy
    simp only [Shared.tag, hp, hi, update_of_ne hy]

end transfers

theorem Rxq.Ok.update (hok : rxq.Ok conf) (hread : rxq'.read < conf.queueSize)
    (hidx : (rxq'.write, rxq'.hwRead, rxq'.closedRb) = (rxq.write, rxq.hwRead, rxq.closedRb))
    (hfree : rxq'.freeCount = rxq'.rxFree.length) (hh : rxq'.pc.Ok conf rxq.closedRb)
    (hv : ∀ cd ∈ rxq'.unread conf, 0 < cd.rbid) : rxq'.Ok conf := by
  simp only [Prod.mk.injEq] at hidx
  obtain ⟨hw, hr, hc⟩ := hidx
  exact ⟨hfree, hread, hw ▸ hok.write_lt, hr ▸ hok.hwRead_lt, hc ▸ hok.closed_lt, hc ▸ hh, hv⟩

theorem Kept.move (rd : ℕ) (inc : Bool) (p : Pc) {p₀ : Pc} (hpc : rxq.pc = p₀) (hok : rxq.Ok conf)
    (hrd : rd < conf.queueSize) (hcur : p.cursor conf rd = p₀.cursor conf rxq.read)
    (hhand : p.hand = p₀.hand) (hp : p.Ok conf rxq.closedRb)
    (hsh : (sh'.page, sh'.invalid, sh'.rbdEmpty, sh'.rbdAllocated) =
      (sh.page, sh.invalid, sh.rbdEmpty, sh.rbdAllocated)) :
    Kept conf rxq sh { rxq with read := rd, incompleteSplitRb := inc, pc := p } sh' := by
  subst hpc
  simp only [Prod.mk.injEq] at hsh
  obtain ⟨hpage, hinv, he, ha⟩ := hsh
  refine ⟨transfer_same ?_ hpage hinv, hok.update hrd rfl hok.free hp ?_⟩
  · simp only [Rxq.owned, Rxq.rbds, Rxq.unread, Shared.owned, hcur, hhand, he, ha]
  · simp only [Rxq.unread, hcur]
    exact hok.vids

theorem Kept.lists {p p₀ : Pc} {free used : List ℕ} {n m : ℕ} (hpc : rxq.pc = p₀)
    (hok : rxq.Ok conf) (hcur : p.cursor conf rxq.read = p₀.cursor conf rxq.read)
    (hp : p.Ok conf rxq.closedRb) (hn : n = free.length)
    (ht : Transfer sh.tag
      (hold Tag.full rxq.rxFree + hold Tag.empty rxq.rxUsed + hold Tag.full p₀.hand + sh.owned)
      sh'.tag (hold Tag.full free + hold Tag.empty used + hold Tag.full p.hand + sh'.owned)) :
    Kept conf rxq sh
      { rxq with rxFree := free, freeCount := n, rxUsed := used, usedCount := m, pc := p } sh' := by
  subst hpc
  refine ⟨?_, hok.update hok.read_lt rfl hn hp ?_⟩
  · convert ht.frame (hold Tag.lent (rxq.rbds conf .posted) +
      hold Tag.lent (rxq.rbds conf .completed)) using 1
    · simp only [Rxq.owned]
      ac_rfl
    · simp only [Rxq.owned, Rxq.rbds, Rxq.unread, hcur]
      ac_rfl
  · simp only [Rxq.unread, hcur]
    exact hok.vids

/-! ### Steps that move RBDs -/

/-- An RBD that has lost its page goes to `rx_used`, and from there perhaps to the allocator. -/
theorem reuse_kept {rxb n : ℕ} {f : Frame} {rxbs used : List ℕ} {stolen : Bool} {p : Pc}
    (sh : Shared) (empty : List ℕ) (hpc : rxq.pc = .recycle f (rxb :: rxbs) stolen)
    (hok : rxq.Ok conf) (hp : p = .recycle f rxbs stolen ∨ p = .posting f rxbs stolen)
    (hmoved : hold Tag.empty used + hold Tag.empty empty =
      {(rxb, .empty)} + (hold Tag.empty rxq.rxUsed + hold Tag.empty sh.rbdEmpty)) :
    Kept conf rxq sh { rxq with rxUsed := used, usedCount := n, pc := p }
      { sh with page := update sh.page rxb false, rbdEmpty := empty } := by
  have hh := hok.handler
  rw [hpc] at hh
  obtain ⟨hcur, hhand, hp⟩ : p.cursor conf rxq.read = f.i ∧ p.hand = rxbs ∧
      p.Ok conf rxq.closedRb := by
    obtain rfl | rfl := hp <;> exact ⟨rfl, rfl, hh⟩
  refine .lists hpc hok hcur hp hok.free (transfer_page (x := rxb) (a := true) (b := true)
    (r := hold Tag.full rxq.rxFree + (hold Tag.empty rxq.rxUsed + hold Tag.empty sh.rbdEmpty) +
      hold Tag.full rxbs + hold Tag.full sh.rbdAllocated) ?_ ?_ rfl rfl)
  · simp only [Shared.owned, Pc.hand, hold_cons, Tag.full]
    ac_rfl
  · calc _ = hold Tag.empty used + hold Tag.empty empty + (hold Tag.full rxq.rxFree +
        hold Tag.full rxbs + hold Tag.full sh.rbdAllocated) := by
          simp only [Shared.owned, hhand]
          ac_rfl
      _ = _ := by
          rw [hmoved, Tag.empty]
          ac_rfl

theorem claimed_kept {f : Frame} (hpc : rxq.pc = .claiming f) (hok : rxq.Ok conf)
    (hlen : ¬ sh.rbdAllocated.length < claimReqAlloc) :
    Kept conf rxq sh
      { rxq with
        rxFree := (sh.rbdAllocated.take claimReqAlloc).reverse ++ rxq.rxFree
        usedCount := rxq.usedCount - claimReqAlloc
        freeCount := rxq.freeCount + claimReqAlloc
        pc := .tail f } { sh with rbdAllocated := sh.rbdAllocated.drop claimReqAlloc } := by
  have hh := hok.handler
  rw [hpc] at hh
  refine .lists hpc hok rfl hh ?_ (transfer_same ?_ rfl rfl)
  · simp only [List.length_append, List.length_reverse, List.length_take, hok.free]
    omega
  · have htake : hold Tag.full sh.rbdAllocated =
        hold Tag.full (sh.rbdAllocated.take claimReqAlloc).reverse +
          hold Tag.full (sh.rbdAllocated.drop claimReqAlloc) := by
      rw [hold_perm _ (List.reverse_perm _), ← hold_append, List.take_append_drop]
    simp only [Shared.owned, hold_append, htake]
    ac_rfl

theorem restock_kept {rxb : ℕ} {rest : List ℕ} (sh : Shared) (qu : ℕ → Option ℕ)
    (hok : rxq.Ok conf)
    (hroom : off conf.queueSize rxq.hwRead rxq.write + 1 < conf.queueSize)
    (hfree : rxq.rxFree = rxb :: rest) :
    Kept conf rxq sh
      { rxq with
        rxFree := rest
        bd := update rxq.bd rxq.write rxb
        queue := qu
        write := conf.wrap (rxq.write + 1)
        freeCount := rxq.freeCount - 1 }
      { sh with invalid := update sh.invalid rxb false } := by
  refine ⟨?_, ⟨?_, hok.read_lt, conf.wrap_lt _, hok.hwRead_lt, hok.closed_lt, hok.handler,
    hok.vids⟩⟩
  · refine transfer_invalid (a := true) (b := true)
      (r := Rxq.owned conf { rxq with rxFree := rest } + sh.owned) ?_ ?_ rfl rfl
    · simp only [Rxq.owned, Rxq.rbds, Rxq.unread, hfree, hold_cons, Tag.full]
      ac_rfl
    simp only [Rxq.owned, Rxq.rbds, Rxq.unread, conf.wrap_eq, between_push _ hok.write_lt hroom,
      hold_append, hold_cons, hold_nil, add_zero, Shared.owned, Tag.lent]
    ac_rfl
  · simp [hok.free, hfree]

theorem Conf.numAlloc_le (hmq : conf.mqRxSupported = true) : conf.numAlloc ≤ conf.poolSize := by
  have := Nat.mul_le_mul_right (claimReqAlloc - postReqAlloc) conf.numLe
  rw [Conf.numAlloc, Conf.poolSize, Conf.allocatorPoolSize, if_pos hmq]
  omega

/-- `iwl_pcie_get_rxb` takes the RBD named in the completion and marks it, or has a reason not
to. -/
theorem getRxb_cases (hmq : conf.mqRxSupported = true) (rxq : Rxq) (sh : Shared) (i : ℕ) :
    (getRxb conf rxq sh i = (none, rxq, sh) ∧ ((rxq.usedBd i).rbid = 0 ∨
      conf.poolSize < (rxq.usedBd i).rbid ∨ sh.invalid ((rxq.usedBd i).rbid - 1) = true)) ∨
    getRxb conf rxq sh i = (some ((rxq.usedBd i).rbid - 1), rxq,
      { sh with invalid := update sh.invalid ((rxq.usedBd i).rbid - 1) true }) := by
  simp only [getRxb, hmq, Bool.not_true, Bool.false_eq_true, if_false]
  split
  next h => exact Or.inl ⟨rfl, Or.inl h⟩
  split
  next h => exact Or.inl ⟨rfl, Or.inr (Or.inl h)⟩
  split
  next h => exact Or.inl ⟨rfl, Or.inr (Or.inr h)⟩
  · exact Or.inr rfl

section fetch
variable {f : Frame} {j rxb : ℕ} {rxbs : List ℕ} {error : Bool} {o : Option ℕ}
  {qu : ℕ → Option ℕ} {inv : ℕ → Bool} (hpc : rxq.pc = .fetch f j rxbs error) (hok : rxq.Ok conf)
  (hj : j < f.n)
include hpc hok

theorem fetch_handler : Frame.Ok conf rxq.closedRb (conf.wrap (f.i + j)) f ∧ j ≤ f.n ∧
    f.n ≤ j + off conf.queueSize (conf.wrap (f.i + j)) f.r := by
  have hh := hok.handler
  rwa [hpc] at hh

include hj

theorem unread_pop : rxq.unread conf = rxq.usedBd (conf.wrap (f.i + j)) ::
    between conf.queueSize rxq.usedBd (conf.wrap (f.i + (j + 1))) rxq.closedRb := by
  obtain ⟨hf, -, hn⟩ := fetch_handler hpc hok
  have hseen := hf.seen
  rw [Rxq.unread, hpc, Pc.cursor, between_succ (conf.wrap_lt _) (by omega), conf.wrap_wrap_succ]

theorem fetch_ok (rxbs' : List ℕ) (error' : Bool) :
    Pc.Ok conf rxq.closedRb (.fetch f (j + 1) rxbs' error') := by
  obtain ⟨hf, hle, hn⟩ := fetch_handler hpc hok
  have hseen := hf.seen
  have hpos : 0 < off conf.queueSize (conf.wrap (f.i + j)) f.r := by omega
  have h₁ := Conf.off_wrap_succ hpos
  have h₂ := Conf.off_wrap_succ (hpos.trans_le hseen)
  rw [conf.wrap_wrap_succ] at h₁ h₂
  exact ⟨⟨hf.i_lt, hf.r_lt, by omega⟩, by omega, by omega⟩

theorem fetch_split :
    rxq.owned conf = {((rxq.usedBd (conf.wrap (f.i + j))).rbid - 1, .lent)} +
      Rxq.owned conf { rxq with pc := .fetch f (j + 1) rxbs error } := by
  have hrest : Rxq.unread conf { rxq with pc := .fetch f (j + 1) rxbs error } =
    between conf.queueSize rxq.usedBd (conf.wrap (f.i + (j + 1))) rxq.closedRb := rfl
  simp only [Rxq.owned, Rxq.rbds, unread_pop hpc hok hj, hrest, List.map_cons, hold_cons, hpc,
    Pc.hand]
  ac_rfl

theorem fetch_vids :
    ∀ cd ∈ between conf.queueSize rxq.usedBd (conf.wrap (f.i + (j + 1))) rxq.closedRb,
      0 < cd.rbid := by
  have hv := hok.vids
  rw [unread_pop hpc hok hj] at hv
  exact fun cd hcd => hv cd (.tail _ hcd)

theorem miss_kept (hmq : conf.mqRxSupported = true)
    (hlt : ∀ x ∈ ids (rxq.owned conf), x < conf.numAlloc)
    (hget : getRxb conf rxq sh (conf.wrap (f.i + j)) =
      (none, { rxq with queue := qu }, { sh with invalid := inv })) :
    Kept conf rxq sh { rxq with queue := qu, pc := .fetch f (j + 1) rxbs true }
      { sh with invalid := inv } := by
  have hvids := fetch_vids hpc hok hj
  refine ⟨?_, hok.update hok.read_lt rfl hok.free (fetch_ok hpc hok hj _ _) hvids⟩
  intro _ ha
  obtain ⟨-, hwhy⟩ | he := getRxb_cases hmq rxq sh (conf.wrap (f.i + j))
  · have hmem : ((rxq.usedBd (conf.wrap (f.i + j))).rbid - 1, Tag.lent) ∈ rxq.owned conf := by
      rw [fetch_split hpc hok hj]
      simp
    have htag := ha _ (Multiset.mem_add.mpr (Or.inl hmem))
    simp only [Shared.tag, Tag.lent, Tag.mk.injEq] at htag
    have hpos := hok.vids
    rw [unread_pop hpc hok hj] at hpos
    have hpos := hpos _ (.head _)
    have hsize := hlt _ (Multiset.mem_map_of_mem Prod.fst hmem)
    have hpool := Conf.numAlloc_le hmq
    rw [htag.2] at hwhy
    simp only [Bool.false_eq_true, or_false] at hwhy
    omega
  · rw [he] at hget
    cases congrArg Prod.fst hget

/-- Its RBD goes from the device to the hand of the handler, or to `rx_free` when the packet is too
long. -/
theorem take_kept {free : List ℕ} {n : ℕ} {rxbs' : List ℕ} (hmq : conf.mqRxSupported = true)
    (hget : getRxb conf rxq sh (conf.wrap (f.i + j)) =
      (some rxb, { rxq with queue := qu }, { sh with invalid := inv })) (hn : n = free.length)
    (hmoved : hold Tag.full free + hold Tag.full rxbs' =
      {(rxb, .full)} + (hold Tag.full rxq.rxFree + hold Tag.full rxbs)) :
    Kept conf rxq sh
      { rxq with rxFree := free, freeCount := n, queue := qu, pc := .fetch f (j + 1) rxbs' error }
      { sh with invalid := inv } := by
  obtain ⟨he, -⟩ | he := getRxb_cases hmq rxq sh (conf.wrap (f.i + j))
  · rw [he] at hget
    cases congrArg Prod.fst hget
  rw [he, Prod.mk.injEq, Prod.mk.injEq, Option.some.injEq] at hget
  obtain ⟨rfl, -, hsh⟩ := hget
  have hinv := (congrArg Shared.invalid hsh).symm
  have hall : rxq.owned conf + sh.owned =
      {((rxq.usedBd (conf.wrap (f.i + j))).rbid - 1, ⟨true, false⟩)} +
        (Rxq.owned conf { rxq with pc := .fetch f (j + 1) rxbs error } + sh.owned) := by
    rw [fetch_split hpc hok hj, add_assoc, Tag.lent]
  have hvids := fetch_vids hpc hok hj
  refine ⟨transfer_invalid hall ?_ rfl hinv,
    hok.update hok.read_lt rfl hn (fetch_ok hpc hok hj _ _) hvids⟩
  calc _ = hold Tag.full free + hold Tag.full rxbs' + (hold Tag.lent (rxq.rbds conf .posted) +
        hold Tag.lent ((between conf.queueSize rxq.usedBd (conf.wrap (f.i + (j + 1)))
          rxq.closedRb).map fun cd => cd.rbid - 1) + hold Tag.empty rxq.rxUsed + sh.owned) := by
        simp only [Rxq.owned, Rxq.rbds, Rxq.unread, Shared.owned, Pc.cursor, Pc.hand]
        ac_rfl
    _ = _ := by
        rw [hmoved]
        simp only [Rxq.owned, Rxq.rbds, Rxq.unread, Pc.cursor, Pc.hand, Tag.full]
        ac_rfl

end fetch

theorem afterAlloc_quiet (conf : Conf) (k : Cont) (rd closed : ℕ) :
    k.afterAlloc.cursor conf rd = rd ∧ k.afterAlloc.hand = [] ∧ k.afterAlloc.Ok conf closed := by
  cases k <;> exact ⟨rfl, rfl, trivial⟩

theorem afterRestock_quiet (conf : Conf) (k : Cont) (rd closed : ℕ) :
    k.afterRestock.cursor conf rd = rd ∧ k.afterRestock.hand = [] ∧
      k.afterRestock.Ok conf closed := by
  cases k <;> exact ⟨rfl, rfl, trivial⟩

/-! ### Steps of a queue -/

theorem whole_kept {f : Frame} {n : ℕ} {inc : Bool} (hpc : rxq.pc = .group f) (hok : rxq.Ok conf)
    (hn : countRbs conf rxq f.r maxSplitRbs 1 f.i = (n, inc)) :
    Kept conf rxq sh
      { rxq with pc := .fetch { f with n := n, incomplete := inc } 0 [] false } sh := by
  have hh := hok.handler
  rw [hpc] at hh
  obtain ⟨k, inc', hcount, hk, -⟩ := countRbs_spec rxq hh.1.r_lt maxSplitRbs 1 f.i hh.1.i_lt
    (by omega) (by decide) (hh.1.ahead hh.2)
  have hle : n ≤ off conf.queueSize f.i f.r := by
    rw [(Prod.mk.inj (hn.symm.trans hcount)).1]
    split <;> omega
  have hi : conf.wrap (f.i + 0) = f.i := Conf.wrap_of_lt hh.1.i_lt
  refine .move _ _ _ hpc hok hok.read_lt hi rfl ?_ rfl
  simp only [Pc.Ok, hi]
  exact ⟨⟨hh.1.i_lt, hh.1.r_lt, hh.1.seen⟩, Nat.zero_le _, by rwa [Nat.zero_add]⟩

theorem Moves.kept (hmq : conf.mqRxSupported = true) (hok : rxq.Ok conf)
    (hlt : ∀ x ∈ ids (rxq.owned conf), x < conf.numAlloc)
    (hroom : rxq.rxFree ≠ [] →
      off conf.queueSize rxq.hwRead rxq.write + 1 < conf.queueSize)
    (h : Moves conf rxq sh rxq' sh') : Kept conf rxq sh rxq' sh' := by
  have hh := hok.handler
  cases h with
  | poll budget hpc | allocPage hpc => exact .move _ _ _ hpc hok hok.read_lt rfl rfl trivial rfl
  | restart hpc =>
    refine .move _ _ _ hpc hok hok.read_lt rfl rfl ⟨hok.read_lt, conf.wrap_lt _, ?_⟩ rfl
    rw [Conf.wrap_of_lt hok.closed_lt]
  | leave n hpc | recycled hpc | claim hpc _ _ | posted hpc | again _ hpc =>
    rw [hpc] at hh
    exact .move _ _ _ hpc hok hok.read_lt rfl rfl ⟨hh.i_lt, hh.r_lt, hh.seen⟩ rfl
  | next n p hpc hne =>
    rw [hpc] at hh
    exact .move _ _ _ hpc hok hok.read_lt rfl rfl ⟨⟨hh.i_lt, hh.r_lt, hh.seen⟩, hne⟩ rfl
  | emergency hpc =>
    rw [hpc] at hh
    refine .lists hpc hok rfl ⟨⟨hh.1.i_lt, hh.1.r_lt, hh.1.seen⟩, hh.2⟩ hok.free
      (transfer_same ?_ rfl rfl)
    simp only [Shared.owned, Pc.hand, hold_append, hold_nil]
    ac_rfl
  | group hpc =>
    rw [hpc] at hh
    exact .move _ _ _ hpc hok hok.read_lt rfl rfl hh rfl
  | cut hpc hn =>
    rw [hpc] at hh
    exact .move _ _ _ hpc hok hok.read_lt rfl rfl hh.1 rfl
  | whole hpc hn h0 => exact whole_kept hpc hok hn
  | miss hpc hj hget => exact miss_kept hpc hok hj hmq hlt hget
  | take hpc hj hget =>
    refine take_kept hpc hok hj hmq hget hok.free ?_
    simp only [hold_append, hold_cons, hold_nil, add_zero]
    ac_rfl
  | back hpc hj hget =>
    refine take_kept hpc hok hj hmq hget (by simp [hok.free]) ?_
    simp only [hold_append, hold_cons, hold_nil, add_zero]
    ac_rfl
  | @fetched f j rxbs error stolen hpc hj =>
    obtain ⟨hf, hle, -⟩ := fetch_handler hpc hok
    have hjn : j = f.n := by omega
    exact .move _ _ _ hpc hok hok.read_lt (by simp only [Pc.cursor, hjn]) rfl
      ⟨conf.wrap_lt _, hf.r_lt, hjn ▸ hf.seen⟩ rfl
  | keep hpc =>
    rw [hpc] at hh
    refine .lists hpc hok rfl hh (by simp [hok.free]) (transfer_same ?_ rfl rfl)
    simp only [Pc.hand, hold_append, hold_cons, hold_nil, add_zero]
    ac_rfl
  | lend hpc hem | count hpc hem hn =>
    refine reuse_kept sh sh.rbdEmpty hpc hok (.inl rfl) ?_
    simp only [hold_append, hold_cons, hold_nil, add_zero]
    ac_rfl
  | post hpc hem hn =>
    refine reuse_kept sh _ hpc hok (.inr rfl) ?_
    simp only [hold_append, hold_cons, hold_nil, add_zero]
    ac_rfl
  | claimed hpc hlen => exact claimed_kept hpc hok hlen
  | refill _ hpc _ | exitAlloc hpc _ | exit hpc =>
    rw [hpc] at hh
    exact .move _ _ _ hpc hok hh.i_lt rfl rfl trivial rfl
  | @allocEnd k hpc =>
    obtain ⟨hcur, hhand, hquiet⟩ := afterAlloc_quiet conf k rxq.read rxq.closedRb
    obtain hpc | hpc := hpc <;> exact .move _ _ _ hpc hok hok.read_lt hcur hhand hquiet rfl
  | @allocRbd k rxb rest hpc hused =>
    refine .lists hpc hok rfl trivial hok.free (transfer_page (x := rxb) (a := false) (b := true)
      (r := hold Tag.full rxq.rxFree + hold Tag.empty rest + sh.owned) ?_ ?_ rfl rfl)
    · simp only [Pc.hand, hused, hold_cons, hold_nil, add_zero, Tag.empty]
      ac_rfl
    · simp only [Shared.owned, Pc.hand, hold_cons, hold_nil, add_zero, Tag.full]
      ac_rfl
  | @unmapped k rxb hpc =>
    obtain ⟨hcur, hhand, hquiet⟩ := afterAlloc_quiet conf k rxq.read rxq.closedRb
    refine .lists hpc hok hcur hquiet hok.free (transfer_page (x := rxb) (a := true) (b := true)
      (r := hold Tag.full rxq.rxFree + hold Tag.empty rxq.rxUsed + sh.owned) ?_ ?_ rfl rfl)
    · simp only [Pc.hand, hold_cons, hold_nil, add_zero, Tag.full]
      ac_rfl
    · simp only [Shared.owned, hhand, hold_cons, hold_nil, add_zero, Tag.empty]
      ac_rfl
  | mapped hpc =>
    refine .lists hpc hok rfl trivial (by simp [hok.free]) (transfer_same ?_ rfl rfl)
    simp only [Pc.hand, hold_append, hold_cons, hold_nil, add_zero]
    ac_rfl
  | @restocked k hpc =>
    obtain ⟨hcur, hhand, hquiet⟩ := afterRestock_quiet conf k rxq.read rxq.closedRb
    exact .move _ _ _ hpc hok hok.read_lt hcur hhand hquiet rfl
  | restock qu hlock hfree => exact restock_kept sh qu hok (hroom (by simp [hfree])) hfree

end Iwlwifi.Iwl.Pcie.Rx
