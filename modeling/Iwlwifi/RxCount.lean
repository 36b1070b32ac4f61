import Iwlwifi.Custody
import Iwlwifi.RxBuf

/-! # Accounting of the receive buffers

A queue posts a request to the allocator when it has moved two RBDs to it, and the allocator uses
eight for it.  The difference is covered by a pool of six RBDs for each queue, as long as the queue
moves the other six before its next request.  The argument is a count over all threads.

* Every queue is in debt with the allocator by `debt` RBDs, and `owed` of those it still has on
  `rx_used`.  In an emergency the RBDs on `rx_used` are not counted, and it owes none of them.
* A step of a queue (`Accounted`) changes the requests, its debt, what it owes and the lists of the
  allocator such that the balance does not get worse; so does every step of the allocator.
* `Balanced` is the balance of the whole system, from which `rx_allocator_never_dry` follows. -/

namespace Iwlwifi.Iwl.Pcie.Rx

open Finset
open List (length_append length_nil length_singleton length_cons)

variable {conf : Conf} {rxq rxq' : Rxq} {sh sh' : Shared} {s s' : State}

theorem claimReqAlloc_eq : claimReqAlloc = 8 := rfl

/-- The RBDs on `rx_used` are not counted. -/
def Pc.lends : Pc → Bool
  | .idle => false
  | .restart f | .loop f | .pending f | .group f | .fetch f _ _ _ | .recycle f _ _ |
    .posting f _ _ | .claiming f | .tail f | .out f => f.emergency
  | .alloc _ | .allocPage _ | .allocMap _ _ => true
  | .restock (.restart f) => f.emergency
  | .restock _ => false

/-- A request whose RBDs have been moved and which is not yet counted. -/
def Pc.posts : Pc → ℕ
  | .posting _ _ _ => 1
  | _ => 0

def Pc.claims : Pc → ℕ
  | .claiming _ => 1
  | _ => 0

/-- The RBDs counted since the last request, and the pool of six. -/
def Rxq.debt (rxq : Rxq) : ℕ := (rxq.usedCount + (claimReqAlloc - postReqAlloc)) % claimReqAlloc

/-- The counted RBDs that are still on `rx_used`. -/
def Rxq.owed (rxq : Rxq) : ℕ := if rxq.pc.lends then 0 else min rxq.rxUsed.length rxq.debt

structure Accounted (rxq : Rxq) (sh : Shared) (rxq' : Rxq) (sh' : Shared) : Prop where
  requests : claimReqAlloc * (sh'.reqPending + rxq'.pc.posts) + rxq'.debt +
      (sh.rbdEmpty.length + rxq.owed) ≤
    claimReqAlloc * (sh.reqPending + rxq.pc.posts) + rxq.debt +
      (sh'.rbdEmpty.length + rxq'.owed)
  ready : claimReqAlloc * (sh'.reqReady + rxq'.pc.claims) + sh.rbdAllocated.length ≤
    claimReqAlloc * (sh.reqReady + rxq.pc.claims) + sh'.rbdAllocated.length
  owned : rxq'.usedCount + (sh.rbdEmpty.length + sh.rbdAllocated.length + rxq.owed) ≤
    rxq.usedCount + (sh'.rbdEmpty.length + sh'.rbdAllocated.length + rxq'.owed)
  pending : sh.reqPending ≤ sh'.reqPending
  empty : sh.rbdEmpty.length ≤ sh'.rbdEmpty.length
  claim : rxq'.pc.claims = 1 → claimReqAlloc ≤ rxq'.usedCount

/-- A queue that claims has counted eight RBDs. -/
def Rxq.ClaimOk (rxq : Rxq) : Prop := rxq.pc.claims = 1 → claimReqAlloc ≤ rxq.usedCount

theorem owed_of_lends (h : rxq.pc.lends = true) : rxq.owed = 0 := by
  rw [Rxq.owed, if_pos h]

theorem owed_le (rxq : Rxq) : rxq.owed ≤ rxq.rxUsed.length ∧ rxq.owed ≤ rxq.debt := by
  unfold Rxq.owed
  split <;> omega

theorem owed_mono (hu : rxq'.rxUsed = rxq.rxUsed) (hused : rxq'.usedCount = rxq.usedCount)
    (hl : rxq'.pc.lends = true → rxq.pc.lends = true) : rxq.owed ≤ rxq'.owed := by
  unfold Rxq.owed Rxq.debt
  rw [hu, hused]
  split
  · exact Nat.zero_le _
  next h => rw [if_neg (fun h' => h (hl h'))]

section local_
variable {pc : Pc} (hpc : rxq.pc = pc) (hused : rxq'.usedCount = rxq.usedCount)
  (hposts : rxq'.pc.posts = 0) (hposts' : pc.posts = 0) (hclaims : rxq'.pc.claims = 0)
  (hclaims' : pc.claims = 0)
  (hsh : (sh'.reqPending, sh'.reqReady, sh'.rbdEmpty, sh'.rbdAllocated) =
    (sh.reqPending, sh.reqReady, sh.rbdEmpty, sh.rbdAllocated))
include hpc hused hposts hposts' hclaims hclaims' hsh

/-- A step that leaves the counters and the lists of the allocator alone: it may stop lending, and
take from `rx_used` or add to it while it lends. -/
theorem Accounted.local (howed : rxq.owed ≤ rxq'.owed) : Accounted rxq sh rxq' sh' := by
  subst hpc
  simp only [Prod.mk.injEq] at hsh
  obtain ⟨hpend, hready, hempty, halloc⟩ := hsh
  have hdebt : rxq'.debt = rxq.debt := by rw [Rxq.debt, Rxq.debt, hused]
  refine ⟨?_, ?_, ?_, hpend.ge, by rw [hempty], ?_⟩
  · rw [hpend, hempty, hdebt, hposts, hposts']
    omega
  · rw [hready, halloc, hclaims, hclaims']
  · rw [hempty, halloc, hused]
    omega
  · omega

theorem Accounted.move (hu : rxq'.rxUsed = rxq.rxUsed)
    (hl : rxq'.pc.lends = true → pc.lends = true) : Accounted rxq sh rxq' sh' :=
  .local hpc hused hposts hposts' hclaims hclaims' hsh (owed_mono hu hused (hpc ▸ hl))

theorem Accounted.lent (hl : pc.lends = true) : Accounted rxq sh rxq' sh' :=
  .local hpc hused hposts hposts' hclaims hclaims' hsh
    (by rw [owed_of_lends (hpc ▸ hl)]; exact Nat.zero_le _)

end local_

theorem emergency_accounted {f : Frame} (hpc : rxq.pc = .pending f) :
    Accounted rxq sh { rxq with rxUsed := [], pc := .group { f with emergency := true } }
      { sh with rbdEmpty := sh.rbdEmpty ++ rxq.rxUsed } := by
  have howed := owed_le rxq
  refine ⟨?_, ?_, ?_, le_rfl, by simp, nofun⟩
  · simp only [hpc, Pc.posts, Rxq.debt, length_append]
    omega
  · simp only [hpc, Pc.claims, le_refl]
  · simp only [length_append]
    omega

section recycle
variable {f : Frame} {rxb : ℕ} {rxbs : List ℕ} {stolen : Bool} {page : ℕ → Bool}

theorem count_accounted (hpc : rxq.pc = .recycle f (rxb :: rxbs) stolen)
    (hem : f.emergency = false) (hn : (rxq.usedCount + 1) % claimReqAlloc ≠ postReqAlloc) :
    Accounted rxq sh
      { rxq with
        rxUsed := rxq.rxUsed ++ [rxb]
        usedCount := rxq.usedCount + 1
        pc := .recycle f rxbs stolen } { sh with page := page } := by
  simp only [claimReqAlloc, postReqAlloc] at hn
  refine ⟨?_, ?_, ?_, le_rfl, le_rfl, nofun⟩
  · simp only [hpc, Pc.posts, Rxq.owed, Pc.lends, hem, Bool.false_eq_true, if_false, Rxq.debt,
      claimReqAlloc, postReqAlloc, length_append, length_singleton]
    omega
  · simp only [hpc, Pc.claims, le_refl]
  · simp only [hpc, Rxq.owed, Pc.lends, hem, Bool.false_eq_true, if_false, Rxq.debt,
      claimReqAlloc, postReqAlloc, length_append, length_singleton]
    omega

theorem post_accounted (hpc : rxq.pc = .recycle f (rxb :: rxbs) stolen)
    (hn : (rxq.usedCount + 1) % claimReqAlloc = postReqAlloc) :
    Accounted rxq sh
      { rxq with rxUsed := [], usedCount := rxq.usedCount + 1, pc := .posting f rxbs stolen }
      { sh with page := page, rbdEmpty := sh.rbdEmpty ++ (rxq.rxUsed ++ [rxb]) } := by
  have howed := owed_le rxq
  simp only [claimReqAlloc, postReqAlloc] at hn
  refine ⟨?_, ?_, ?_, le_rfl, by simp, nofun⟩
  · simp only [hpc, Pc.posts, Rxq.debt, claimReqAlloc, postReqAlloc, length_append,
      length_singleton]
    omega
  · simp only [hpc, Pc.claims, le_refl]
  · simp only [length_append, length_singleton]
    omega

end recycle

theorem claimed_accounted {f : Frame} (hpc : rxq.pc = .claiming f) (hok : rxq.ClaimOk)
    (hlen : ¬ sh.rbdAllocated.length < claimReqAlloc) :
    Accounted rxq sh
      { rxq with
        rxFree := (sh.rbdAllocated.take claimReqAlloc).reverse ++ rxq.rxFree
        usedCount := rxq.usedCount - claimReqAlloc
        freeCount := rxq.freeCount + claimReqAlloc
        pc := .tail f } { sh with rbdAllocated := sh.rbdAllocated.drop claimReqAlloc } := by
  have hused := hok (by rw [hpc]; rfl)
  simp only [claimReqAlloc] at hused hlen
  have hdebt : (rxq.usedCount - 8 + (8 - 2)) % 8 = (rxq.usedCount + (8 - 2)) % 8 := by omega
  refine ⟨?_, ?_, ?_, le_rfl, le_rfl, nofun⟩
  · simp only [hpc, Pc.posts, Rxq.owed, Pc.lends, Rxq.debt, claimReqAlloc, postReqAlloc, hdebt,
      le_refl]
  · simp only [hpc, Pc.claims, List.length_drop, claimReqAlloc]
    omega
  · simp only [hpc, Rxq.owed, Pc.lends, Rxq.debt, List.length_drop, claimReqAlloc, postReqAlloc,
      hdebt]
    omega

theorem claim_accounted {f : Frame} {stolen : Bool} (hpc : rxq.pc = .recycle f [] stolen)
    (hused : ¬ rxq.usedCount < claimReqAlloc) (hready : ¬ sh.reqReady = 0) :
    Accounted rxq sh { rxq with pc := .claiming f } { sh with reqReady := sh.reqReady - 1 } := by
  have howed : rxq.owed ≤ Rxq.owed { rxq with pc := .claiming f } :=
    owed_mono rfl rfl (by rw [hpc]; exact id)
  refine ⟨?_, ?_, ?_, le_rfl, le_rfl, fun _ => Nat.le_of_not_lt hused⟩
  · rw [hpc]
    exact Nat.add_le_add_left (Nat.add_le_add_left howed _) _
  · simp only [hpc, Pc.claims, claimReqAlloc_eq]
    omega
  · exact Nat.add_le_add_left (Nat.add_le_add_left howed _) _

theorem posting_accounted {f : Frame} {rxbs : List ℕ} {stolen : Bool}
    (hpc : rxq.pc = .posting f rxbs stolen) :
    Accounted rxq sh { rxq with pc := .recycle f rxbs stolen }
      { sh with reqPending := sh.reqPending + 1 } := by
  have howed : rxq.owed ≤ Rxq.owed { rxq with pc := .recycle f rxbs stolen } :=
    owed_mono rfl rfl (by rw [hpc]; exact id)
  refine ⟨?_, ?_, ?_, Nat.le_succ _, le_rfl, nofun⟩
  · rw [hpc]
    exact Nat.add_le_add_left (Nat.add_le_add_left howed _) _
  · rw [hpc]
    exact le_rfl
  · exact Nat.add_le_add_left (Nat.add_le_add_left howed _) _

theorem afterAlloc_posts (k : Cont) :
    k.afterAlloc.posts = 0 ∧ k.afterAlloc.claims = 0 := by
  cases k <;> exact ⟨rfl, rfl⟩

theorem afterRestock_posts (k : Cont) : k.afterRestock.posts = 0 ∧ k.afterRestock.claims = 0 ∧
    k.afterRestock.lends = (Pc.restock k).lends := by
  cases k <;> exact ⟨rfl, rfl, rfl⟩

theorem Moves.accounted (hok : rxq.ClaimOk) (h : Moves conf rxq sh rxq' sh') :
    Accounted rxq sh rxq' sh' := by
  cases h with
  | emergency hpc => exact emergency_accounted hpc
  | lend hpc hem => exact .lent hpc rfl rfl rfl rfl rfl rfl hem
  | count hpc hem hn => exact count_accounted hpc hem hn
  | post hpc hem hn => exact post_accounted hpc hn
  | claim hpc hused hready => exact claim_accounted hpc hused hready
  | posted hpc => exact posting_accounted hpc
  | claimed hpc hlen => exact claimed_accounted hpc hok hlen
  | refill em hpc hem | exitAlloc hpc hem =>
    exact .move hpc rfl rfl rfl rfl rfl rfl rfl (fun _ => hem)
  | exit hpc => exact .move hpc rfl rfl rfl rfl rfl rfl rfl nofun
  | @allocEnd k hpc =>
    obtain ⟨hposts, hclaims⟩ := afterAlloc_posts k
    obtain hpc | hpc := hpc <;> exact .lent hpc rfl hposts rfl hclaims rfl rfl rfl
  | allocRbd hpc hused | mapped hpc => exact .lent hpc rfl rfl rfl rfl rfl rfl rfl
  | @unmapped k rxb hpc =>
    obtain ⟨hposts, hclaims⟩ := afterAlloc_posts k
    exact .lent hpc rfl hposts rfl hclaims rfl rfl rfl
  | @restocked k hpc =>
    obtain ⟨hposts, hclaims, hlends⟩ := afterRestock_posts k
    exact .move hpc rfl hposts rfl hclaims rfl rfl rfl (fun h => hlends ▸ h)
  | restock qu hlock hfree =>
    have h0 : rxq.pc.posts = 0 ∧ rxq.pc.claims = 0 := by
      cases hpc : rxq.pc <;> simp_all [Pc.lockFree, Pc.posts, Pc.claims]
    exact .move rfl rfl h0.1 h0.1 h0.2 h0.2 rfl rfl id
  | poll _ hpc | restart hpc | leave _ hpc | next _ _ hpc _ | group hpc | cut hpc _
  | whole hpc _ _ | miss hpc _ _ | take hpc _ _ | back hpc _ _ | fetched _ hpc _ | keep hpc
  | recycled hpc | again _ hpc | allocPage hpc => exact .move hpc rfl rfl rfl rfl rfl rfl rfl id

/-! ### The balance of the system -/

/-- The RBDs without a page, and those given one for the request it works on. -/
def Allocator.stock (a : Allocator) : ℕ :=
  match a.apc with
  | .take _ i => a.localEmpty.length + i
  | _ => a.localEmpty.length

def Apc.readies : Apc → ℕ
  | .ready _ => 1
  | _ => 0

/-- The requests in its variable are pending, and it has the RBDs for them. -/
def Allocator.Ok (a : Allocator) (sh : Shared) : Prop :=
  match a.apc with
  | .idle => a.localEmpty = [] ∧ a.localAllocated = []
  | .swap p => a.localEmpty = [] ∧ a.localAllocated = [] ∧ p ≤ sh.reqPending
  | .take p i => 0 < p ∧ p ≤ sh.reqPending ∧ i ≤ claimReqAlloc ∧ a.localAllocated.length = i ∧
      claimReqAlloc * p ≤ a.localEmpty.length + i
  | .reread p => p ≤ sh.reqPending ∧ a.localAllocated.length = claimReqAlloc ∧
      claimReqAlloc * p ≤ a.localEmpty.length
  | .splice p => p ≤ sh.reqPending ∧ a.localAllocated.length = claimReqAlloc ∧
      claimReqAlloc * p ≤ a.localEmpty.length + sh.rbdEmpty.length
  | .ready p => p ≤ sh.reqPending ∧ a.localAllocated = [] ∧
      claimReqAlloc * p ≤ a.localEmpty.length
  | .finish => a.localAllocated = []

def State.total (conf : Conf) (s : State) (g : Rxq → ℕ) : ℕ :=
  ∑ q ∈ range conf.numRxqs, g (s.rxq q)

structure Balanced (conf : Conf) (s : State) : Prop where
  claimOk : ∀ q, (s.rxq q).ClaimOk
  allocator : s.allocator.Ok s.shared
  requests : claimReqAlloc * (s.shared.reqPending + s.total conf (·.pc.posts)) +
      s.total conf Rxq.debt ≤
    s.shared.rbdEmpty.length + s.allocator.stock + s.total conf Rxq.owed
  ready : claimReqAlloc * (s.shared.reqReady + s.total conf (·.pc.claims) +
      s.allocator.apc.readies) ≤ s.shared.rbdAllocated.length
  owned : conf.allocatorPoolSize + s.total conf Rxq.usedCount ≤
    s.shared.rbdEmpty.length + s.allocator.localEmpty.length + s.allocator.localAllocated.length +
      s.shared.rbdAllocated.length + s.total conf Rxq.owed

theorem Allocator.Ok.mono {a : Allocator} (h : a.Ok sh) (hp : sh.reqPending ≤ sh'.reqPending)
    (he : sh.rbdEmpty.length ≤ sh'.rbdEmpty.length) : a.Ok sh' := by
  unfold Allocator.Ok at h ⊢
  split at h
  · exact h
  · exact ⟨h.1, h.2.1, by omega⟩
  · exact ⟨h.1, by omega, h.2.2⟩
  · exact ⟨by omega, h.2⟩
  · exact ⟨by omega, h.2.1, by omega⟩
  · exact ⟨by omega, h.2⟩
  · exact h

theorem Balanced.queue {q : ℕ} (h : Balanced conf s) (hq : q < conf.numRxqs)
    (hacc : Accounted (s.rxq q) s.shared rxq' sh') :
    Balanced conf { s with rxq := Function.update s.rxq q rxq', shared := sh' } := by
  have hposts := sum_update_add (fun r : Rxq => r.pc.posts) s.rxq hq rxq'
  have hdebt := sum_update_add Rxq.debt s.rxq hq rxq'
  have howed := sum_update_add Rxq.owed s.rxq hq rxq'
  have hclaims := sum_update_add (fun r : Rxq => r.pc.claims) s.rxq hq rxq'
  have hused := sum_update_add Rxq.usedCount s.rxq hq rxq'
  obtain ⟨hr, hready, howned, hpend, hempty, hclaim⟩ := hacc
  have h₁ := h.requests
  have h₂ := h.ready
  have h₃ := h.owned
  simp only [State.total, claimReqAlloc_eq] at h₁ h₂ h₃ hr hready
  refine ⟨?_, h.allocator.mono hpend hempty, ?_, ?_, ?_⟩
  · intro i
    dsimp only
    rcases eq_or_ne i q with rfl | hne
    · rwa [Function.update_self]
    · rw [Function.update_of_ne hne]
      exact h.claimOk i
  · simp only [State.total, claimReqAlloc_eq]
    omega
  · simp only [State.total, claimReqAlloc_eq]
    omega
  · simp only [State.total]
    omega

theorem total_owed_le (conf : Conf) (s : State) :
    s.total conf Rxq.owed ≤ s.total conf Rxq.debt :=
  sum_le_sum (fun q _ => (owed_le (s.rxq q)).2)

structure AllocatorAccounted (sh : Shared) (a : Allocator) (sh' : Shared) (a' : Allocator) :
    Prop where
  requests : claimReqAlloc * sh'.reqPending + (sh.rbdEmpty.length + a.stock) ≤
    claimReqAlloc * sh.reqPending + (sh'.rbdEmpty.length + a'.stock)
  ready : claimReqAlloc * (sh'.reqReady + a'.apc.readies) + sh.rbdAllocated.length ≤
    claimReqAlloc * (sh.reqReady + a.apc.readies) + sh'.rbdAllocated.length
  owned : sh.rbdEmpty.length + a.localEmpty.length + a.localAllocated.length +
      sh.rbdAllocated.length ≤
    sh'.rbdEmpty.length + a'.localEmpty.length + a'.localAllocated.length +
      sh'.rbdAllocated.length
  ok : a'.Ok sh'

theorem take_or_finish (sh : Shared) (a : Allocator) {p : ℕ} (hp : p ≤ sh.reqPending)
    (hl : a.localAllocated = []) (hlen : claimReqAlloc * p ≤ a.localEmpty.length) :
    let a' := { a with apc := if p = 0 then .finish else .take p 0 }
    a'.Ok sh ∧ a'.stock = a.localEmpty.length ∧ a'.apc.readies = 0 := by
  rcases Nat.eq_zero_or_pos p with rfl | hpos
  · exact ⟨hl, rfl, rfl⟩
  · have hne : ¬ p = 0 := by omega
    simp only [if_neg hne]
    exact ⟨⟨hpos, hp, Nat.zero_le _, by simp [hl], hlen⟩, rfl, rfl⟩

theorem allocatorStep_accounted {a a' : Allocator} {failed : Bool} (hok : a.Ok sh)
    (hreq : claimReqAlloc * sh.reqPending ≤ sh.rbdEmpty.length + a.stock)
    (h : allocatorStep sh a failed = some (sh', a')) : AllocatorAccounted sh a sh' a' := by
  obtain ⟨localEmpty, localAllocated, apc⟩ := a
  rw [claimReqAlloc_eq] at hreq
  cases apc with
  | idle =>
    cases h
    exact ⟨le_rfl, le_rfl, le_rfl, hok.1, hok.2, le_rfl⟩
  | swap p =>
    cases h
    obtain ⟨rfl, rfl, hp⟩ := hok
    simp only [Allocator.stock, length_nil] at hreq
    obtain ⟨hok', hstock, hready⟩ := take_or_finish { sh with rbdEmpty := [] }
      ⟨sh.rbdEmpty, [], .idle⟩ hp rfl (by simp only [claimReqAlloc_eq]; omega)
    refine ⟨?_, ?_, ?_, hok'⟩
    · rw [hstock]
      simp only [Allocator.stock, length_nil]
      omega
    · rw [hready]
      exact le_rfl
    · simp only [length_nil]
      omega
  | take p i =>
    obtain ⟨hpos, hp, hi, hlen, hstock⟩ := hok
    simp only [claimReqAlloc_eq] at hi hlen hstock
    simp only [allocatorStep] at h
    split at h
    next hlt =>
      split at h
      · cases h
      rw [length_cons] at hstock
      split at h
      · cases h
      split at h <;> cases h
      · exact ⟨le_rfl, le_rfl, le_rfl, hpos, hp, hi, hlen, hstock⟩
      refine ⟨?_, le_rfl, ?_, ?_⟩
      · simp only [Allocator.stock, length_cons]
        omega
      · simp only [length_cons]
        omega
      · simp only [Allocator.Ok, length_cons, claimReqAlloc_eq]
        exact ⟨hpos, hp, hlt, by omega, by omega⟩
    next hge =>
      cases h
      rw [claimReqAlloc_eq] at hge
      refine ⟨?_, le_rfl, le_rfl, ?_⟩
      · simp only [Allocator.stock, claimReqAlloc_eq]
        omega
      · simp only [Allocator.Ok, claimReqAlloc_eq]
        omega
  | reread p =>
    cases h
    simp only [Allocator.Ok, claimReqAlloc_eq] at hok
    simp only [Allocator.stock] at hreq
    refine ⟨le_rfl, le_rfl, le_rfl, ?_⟩
    simp only [Allocator.Ok, claimReqAlloc_eq]
    -- the requests read now came with their RBDs, on `rbd_empty`
    split <;> exact ⟨by omega, hok.2.1, by omega⟩
  | splice p =>
    cases h
    simp only [Allocator.Ok, claimReqAlloc_eq] at hok
    refine ⟨?_, ?_, ?_, ?_⟩
    · simp only [Allocator.stock, length_append, length_nil]
      omega
    · simp only [Apc.readies, length_append, claimReqAlloc_eq]
      omega
    · simp only [length_append, length_nil]
      omega
    · simp only [Allocator.Ok, length_append, claimReqAlloc_eq]
      exact ⟨hok.1, trivial, hok.2.2⟩
  | ready p =>
    cases h
    obtain ⟨hok', hstock, hready⟩ := take_or_finish
      { sh with reqReady := sh.reqReady + 1 } ⟨localEmpty, localAllocated, .idle⟩ hok.1 hok.2.1
      hok.2.2
    refine ⟨?_, ?_, le_rfl, hok'⟩
    · rw [hstock]
      exact le_rfl
    · rw [hready]
      simp only [Apc.readies, claimReqAlloc_eq]
      omega
  | finish =>
    cases h
    refine ⟨?_, le_rfl, ?_, rfl, hok⟩
    · simp only [Allocator.stock, length_append, length_nil]
      omega
    · simp only [length_append, length_nil]
      omega

theorem Balanced.allocatorStep {failed : Bool} {a' : Allocator} (h : Balanced conf s)
    (hstep : Rx.allocatorStep s.shared s.allocator failed = some (sh', a')) :
    Balanced conf { s with shared := sh', allocator := a' } := by
  have howed := total_owed_le conf s
  obtain ⟨hclaim, hok, hreq, hready, howned⟩ := h
  simp only [State.total, claimReqAlloc_eq] at hreq hready howned howed
  obtain ⟨h₁, h₂, h₃, h₄⟩ := allocatorStep_accounted hok (by rw [claimReqAlloc_eq]; omega) hstep
  simp only [claimReqAlloc_eq] at h₁ h₂
  refine ⟨hclaim, h₄, ?_, ?_, ?_⟩
  · simp only [State.total, claimReqAlloc_eq]
    omega
  · simp only [State.total, claimReqAlloc_eq]
    omega
  · simp only [State.total]
    omega

theorem Balanced.device {q : ℕ} {held : List ℕ} (h : Balanced conf s) (hq : q < conf.numRxqs)
    (hpc : rxq'.pc = (s.rxq q).pc) (hu : rxq'.rxUsed = (s.rxq q).rxUsed)
    (hc : rxq'.usedCount = (s.rxq q).usedCount) :
    Balanced conf { s with rxq := Function.update s.rxq q rxq', held := held } := by
  have hdebt : rxq'.debt = (s.rxq q).debt := by rw [Rxq.debt, Rxq.debt, hc]
  have howed : rxq'.owed = (s.rxq q).owed := by rw [Rxq.owed, Rxq.owed, hpc, hu, hdebt]
  have hacc : Accounted (s.rxq q) s.shared rxq' s.shared := by
    refine ⟨?_, ?_, ?_, le_rfl, le_rfl, ?_⟩
    · rw [hpc, hdebt, howed]
    · rw [hpc]
    · rw [hc, howed]
    · rw [hpc, hc]
      exact h.claimOk q
  obtain ⟨h₁, h₂, h₃, h₄, h₅⟩ := h.queue hq hacc
  exact ⟨h₁, h₂, h₃, h₄, h₅⟩

theorem Balanced.step {a : Action} {u : Unit} (h : Balanced conf s)
    (hstep : rxStep conf s a = some (u, s')) : Balanced conf s' := by
  cases rxStep_moves hstep with
  | @queue q _ _ _ hq hmoves => exact h.queue hq (hmoves.accounted (h.claimOk q))
  | allocator has => exact h.allocatorStep has
  | hwFetch hq _ | hwComplete hq => exact h.device hq rfl rfl rfl

theorem balanced_rxInit (conf : Conf) : Balanced conf (rxInit conf) := by
  have hpc : ∀ q, ((rxInit conf).rxq q).pc.posts = 0 ∧ ((rxInit conf).rxq q).pc.claims = 0 ∧
      ((rxInit conf).rxq q).usedCount = 0 := by
    intro q
    unfold rxInit
    dsimp only
    split <;> exact ⟨rfl, rfl, rfl⟩
  have hdebt : (rxInit conf).total conf Rxq.debt = conf.allocatorPoolSize := by
    unfold State.total
    rw [sum_const_nat (m := claimReqAlloc - postReqAlloc), card_range, Conf.allocatorPoolSize]
    intro q _
    rw [Rxq.debt, (hpc q).2.2]
    rfl
  have hempty : (rxInit conf).shared.rbdEmpty.length = conf.allocatorPoolSize := by
    simp [rxInit]
  refine ⟨?_, ⟨rfl, rfl⟩, ?_, ?_, ?_⟩
  · intro q hq
    rw [(hpc q).2.1] at hq
    omega
  · rw [hdebt, hempty]
    simp only [State.total, (hpc _).1, sum_const_zero]
    simp only [rxInit]
    omega
  · simp only [State.total, (hpc _).2.1, sum_const_zero]
    simp [rxInit, Apc.readies]
  · simp only [State.total, (hpc _).2.2, sum_const_zero, hempty]
    omega

theorem balanced_of_run {ls : List (Label State Action Unit)}
    (hrun : Run (rxStep conf) (rxInit conf) ls s) : Balanced conf s :=
  (hrun.induct (I := Balanced conf) (C := fun _ => True) (fun _ _ _ _ hs _ h => h.step hs)
    (fun _ _ => trivial) (balanced_rxInit conf)).1

/-- **The allocator never runs dry.**  Whenever it is about to take an RBD it has one, and a queue
finds eight RBDs for every ready request. -/
theorem rx_allocator_never_dry (conf : Conf) (s : State) (ls : List (Label State Action Unit))
    (hrun : Run (rxStep conf) (rxInit conf) ls s) :
    (∀ p i, s.allocator.apc = .take p i → i < claimReqAlloc → s.allocator.localEmpty ≠ []) ∧
    (∀ q < conf.numRxqs, ∀ f, (s.rxq q).pc = .claiming f →
      claimReqAlloc * (s.shared.reqReady + 1) ≤ s.shared.rbdAllocated.length) := by
  obtain ⟨-, hok, -, hready, -⟩ := balanced_of_run hrun
  refine ⟨?_, ?_⟩
  · intro p i hapc hi hnil
    simp only [Allocator.Ok, hapc, hnil, List.length_nil, claimReqAlloc_eq] at hok
    rw [claimReqAlloc_eq] at hi
    omega
  intro q hq f hpc
  have hle : (s.rxq q).pc.claims ≤ s.total conf (·.pc.claims) :=
    single_le_sum (f := fun q => (s.rxq q).pc.claims) (fun _ _ => Nat.zero_le _)
      (mem_range.mpr hq)
  rw [hpc] at hle
  change 1 ≤ _ at hle
  calc claimReqAlloc * (s.shared.reqReady + 1)
      ≤ claimReqAlloc * (s.shared.reqReady + s.total conf (·.pc.claims) +
          s.allocator.apc.readies) := Nat.mul_le_mul_left _ (by omega)
    _ ≤ s.shared.rbdAllocated.length := hready

def oneQueue : Conf where
  numRxqs := 1
  queueSize := 4
  numPos := by decide
  numLe := by decide
  sizePow := ⟨2, rfl⟩

/-- Two packets whose pages the op mode steals, up to the request for the allocator. -/
def stealTwo : List Action :=
  let run (b : Bool) : Action := .queue 0 (.run b)
  let alloc := [run false, run false, run false]
  let packet := [run false, run false, run false, run false, run true, run false]
  alloc ++ alloc ++ [run true] ++ List.replicate 2 (.queue 0 .restock) ++
    [.hwFetch 0, .hwFetch 0, .hwComplete 0 { rbid := 9 }, .hwComplete 0 { rbid := 8 }] ++
    [.queue 0 (.poll 8), run false] ++ packet ++ [run false, run false] ++ packet ++ [run false]

theorem rx_allocator_never_dry_request :
    ∃ ls s, execute (rxStep oneQueue) (rxInit oneQueue)
        (stealTwo ++ [.allocator false, .allocator false]) = some (ls, s) ∧
      s.allocator.apc = .take 1 0 ∧ s.allocator.localEmpty ≠ [] :=
  exists_execute rfl fun hrun =>
    ⟨rfl, (rx_allocator_never_dry oneQueue _ _ hrun).1 1 0 rfl (by decide)⟩

end Iwlwifi.Iwl.Pcie.Rx
