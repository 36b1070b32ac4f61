import Iwlwifi.Transition
import Iwlwifi.Ring
import Mathlib.Data.Nat.Bitwise

/-! # Receive buffers

The life cycle of the receive buffer descriptors (RBDs) of the PCIe transport (`pcie/rx.c`): from
the device through `iwl_pcie_rx_handle` and the work `iwl_pcie_rx_allocator` back to the device.

* **RBDs** are numbers, the indices into `rx_pool`; `page` says which of them have a page and
  `invalid` is the flag of the same name.  The device knows the RBD `x` by its `vid`, `x + 1`.
* **Queues** (`Rxq`).  The lists and counters, the ring of free descriptors `bd`, the ring of
  completions `usedBd`, and the state of the one `iwl_pcie_rx_handle` that works on the queue.
* **Program counters** (`Pc`, `Apc`).  The code is cut at the locks `rxq->lock` and `rba->lock`, at
  the atomic counters and at the device's rings.  Between two steps any other queue, the allocator
  and the device may take steps.
* **Device.**  It fetches posted descriptors (`hwFetch`) and reports completions (`hwComplete`)
  of any RBD on any queue; that it reports only what it was given is an assumption where needed.
* Pages, DMA mappings and stolen buffers are choices of the environment.  The device may fetch
  whatever has been posted: the write pointer that it is told is left out. -/

namespace Iwlwifi.Iwl.Pcie.Rx

open Function

/-- `RX_POST_REQ_ALLOC`. -/
def postReqAlloc : ℕ := 2

/-- `RX_CLAIM_REQ_ALLOC`. -/
def claimReqAlloc : ℕ := 8

/-- `IWL_MAX_RX_HW_QUEUES`. -/
def maxRxHwQueues : ℕ := 16

/-- `IWL_RX_MAX_SPLIT_RBS`. -/
def maxSplitRbs : ℕ := 6

/-- The configuration; `queueSize` is also `num_rx_bufs`. -/
structure Conf where
  numRxqs : ℕ
  queueSize : ℕ
  mqRxSupported : Bool := true
  /-- `device_family >= IWL_DEVICE_FAMILY_AX210` -/
  ax210 : Bool := true
  numPos : 0 < numRxqs
  numLe : numRxqs ≤ maxRxHwQueues
  sizePow : ∃ k, queueSize = 2 ^ k

/-- `RX_POOL_SIZE`. -/
def Conf.poolSize (conf : Conf) : ℕ :=
  conf.queueSize - 1 + maxRxHwQueues * (claimReqAlloc - postReqAlloc)

/-- `allocator_pool_size` of `_iwl_pcie_rx_init`. -/
def Conf.allocatorPoolSize (conf : Conf) : ℕ := conf.numRxqs * (claimReqAlloc - postReqAlloc)

/-- `num_alloc` of `_iwl_pcie_rx_init`. -/
def Conf.numAlloc (conf : Conf) : ℕ :=
  (if conf.mqRxSupported then conf.queueSize - 1 else conf.queueSize) + conf.allocatorPoolSize

structure Cd where
  rbid : ℕ := 0
  fragmented : Bool := false

/-- The local variables of `iwl_pcie_rx_handle`. -/
structure Frame where
  budget : ℕ
  r : ℕ := 0
  i : ℕ := 0
  n : ℕ := 0
  count : ℕ := 0
  handled : ℕ := 0
  rbPendingAlloc : ℕ := 0
  emergency : Bool := false
  incomplete : Bool := false

/-- What follows a call of `iwl_pcie_rxq_alloc_rbs`: nothing in `_iwl_pcie_rx_init`, a restock and
`goto restart` in an emergency, a restock and the return. -/
inductive Cont
  | init
  | restart (f : Frame)
  | exit

inductive Pc
  | idle
  /-- before taking the lock -/
  | restart (f : Frame)
  /-- at the condition of the loop -/
  | loop (f : Frame)
  /-- the pending requests have been read -/
  | pending (f : Frame)
  /-- before counting the RBs of a packet -/
  | group (f : Frame)
  /-- getting the RBs of a packet, `j` of them done -/
  | fetch (f : Frame) (j : ℕ) (rxbs : List ℕ) (error : Bool)
  /-- giving the RBs back -/
  | recycle (f : Frame) (rxbs : List ℕ) (pagesStolen : Bool)
  /-- RBDs have been moved to the allocator, the request has not been counted -/
  | posting (f : Frame) (rxbs : List ℕ) (pagesStolen : Bool)
  /-- a ready request has been taken, its RBDs have not -/
  | claiming (f : Frame)
  /-- after the claim -/
  | tail (f : Frame)
  /-- after the loop -/
  | out (f : Frame)
  /-- at the loop of `iwl_pcie_rxq_alloc_rbs` -/
  | alloc (k : Cont)
  /-- with a page -/
  | allocPage (k : Cont)
  /-- with a page and an RBD -/
  | allocMap (k : Cont) (rxb : ℕ)
  /-- in `iwl_pcie_rxq_restock` -/
  | restock (k : Cont)

/-- `struct iwl_rxq`, with the device's side of its rings and the handler at work. -/
structure Rxq where
  rxFree : List ℕ := []
  rxUsed : List ℕ := []
  freeCount : ℕ := 0
  usedCount : ℕ := 0
  read : ℕ := 0
  write : ℕ := 0
  incompleteSplitRb : Bool := false
  /-- the posted RBDs of a device with a single queue -/
  queue : ℕ → Option ℕ := fun _ => none
  bd : ℕ → ℕ := fun _ => 0
  usedBd : ℕ → Cd := fun _ => {}
  /-- the next descriptor the device fetches -/
  hwRead : ℕ := 0
  /-- the index of the closed RBs in `rb_stts` -/
  closedRb : ℕ := 0
  pc : Pc := .idle

/-- Where the allocator is; `pending` is its local variable. -/
inductive Apc
  | idle
  /-- the requests have been read, the empty RBDs have not been taken -/
  | swap (pending : ℕ)
  /-- allocating the `i`-th page of a request -/
  | take (pending i : ℕ)
  /-- the request is no longer pending -/
  | reread (pending : ℕ)
  | splice (pending : ℕ)
  /-- the pages are there, the request is not yet ready -/
  | ready (pending : ℕ)
  | finish

/-- What the queues and the allocator share: the pool and `struct iwl_rb_allocator`. -/
structure Shared where
  page : ℕ → Bool := fun _ => false
  invalid : ℕ → Bool := fun _ => true
  reqPending : ℕ := 0
  reqReady : ℕ := 0
  rbdEmpty : List ℕ := []
  rbdAllocated : List ℕ := []

structure Allocator where
  localEmpty : List ℕ := []
  localAllocated : List ℕ := []
  apc : Apc := .idle

structure State where
  rxq : ℕ → Rxq
  shared : Shared := {}
  allocator : Allocator := {}
  /-- fetched by the device and not yet completed -/
  held : List ℕ := []

/-- `_iwl_pcie_rx_init`, up to the pages of the default queue. -/
def rxInit (conf : Conf) : State where
  rxq := fun q => if q = 0 then
      { rxUsed := (List.range' conf.allocatorPoolSize
          (conf.numAlloc - conf.allocatorPoolSize)).reverse, pc := .alloc .init }
    else {}
  shared := { rbdEmpty := (List.range conf.allocatorPoolSize).reverse }

def Conf.wrap (conf : Conf) (i : ℕ) : ℕ := i &&& (conf.queueSize - 1)

/-- `iwl_rxq_space`. -/
def rxqSpace (conf : Conf) (rxq : Rxq) : ℕ :=
  conf.wrap (rxq.read + (2 ^ 32 - rxq.write - 1))

/-! ### The functions of a queue -/

/-- `iwl_pcie_rx_is_fragmented`. -/
def isFragmented (conf : Conf) (rxq : Rxq) (i : ℕ) : Bool :=
  conf.ax210 && (rxq.usedBd i).fragmented

/-- `iwl_pcie_rx_count_rbs`: 0 if not all RBs are there, and whether there are too many. -/
def countRbs (conf : Conf) (rxq : Rxq) (r : ℕ) : ℕ → ℕ → ℕ → ℕ × Bool
  | 0, n, _ => (n, true)
  | fuel + 1, n, i =>
    if !isFragmented conf rxq i then (n, false)
    -- the split RB is too long and cannot be processed
    else if n = maxSplitRbs then (n, true)
    else if conf.wrap (i + 1) = r then (0, false)
    else countRbs conf rxq r fuel (n + 1) (conf.wrap (i + 1))

/-- `iwl_pcie_get_rxb`. -/
def getRxb (conf : Conf) (rxq : Rxq) (sh : Shared) (i : ℕ) : Option ℕ × Rxq × Shared :=
  if !conf.mqRxSupported then
    (rxq.queue i, { rxq with queue := update rxq.queue i none }, sh)
  else
    let vid := (rxq.usedBd i).rbid
    if vid = 0 then (none, rxq, sh)
    else if conf.poolSize < vid then (none, rxq, sh)
    else if sh.invalid (vid - 1) then (none, rxq, sh)
    else (some (vid - 1), rxq, { sh with invalid := update sh.invalid (vid - 1) true })

/-- `iwl_pcie_rx_move_to_allocator`. -/
def moveToAllocator (rxq : Rxq) (sh : Shared) : Rxq × Shared :=
  ({ rxq with rxUsed := [] }, { sh with rbdEmpty := sh.rbdEmpty ++ rxq.rxUsed })

/-- `iwl_pcie_rx_reuse_rbd`, up to the counting of the request; `rxbs` are the other RBs of the
packet. -/
def reuseRbd (rxq : Rxq) (sh : Shared) (rxb : ℕ) (f : Frame) (rxbs : List ℕ)
    (pagesStolen : Bool) : Rxq × Shared :=
  let rxq := { rxq with rxUsed := rxq.rxUsed ++ [rxb], pc := .recycle f rxbs pagesStolen }
  if f.emergency then (rxq, sh)
  else
    let rxq := { rxq with usedCount := rxq.usedCount + 1 }
    if rxq.usedCount % claimReqAlloc = postReqAlloc then
      moveToAllocator { rxq with pc := .posting f rxbs pagesStolen } sh
    else (rxq, sh)

/-- `iwl_pcie_rx_recycle_rbd`. -/
def recycleRbd (rxq : Rxq) (sh : Shared) (rxb : ℕ) (f : Frame) (rxbs : List ℕ)
    (pagesStolen dmaError : Bool) : Rxq × Shared :=
  let sh := if pagesStolen then { sh with page := update sh.page rxb false } else sh
  if sh.page rxb then
    if dmaError then
      reuseRbd rxq { sh with page := update sh.page rxb false } rxb f rxbs pagesStolen
    else
      ({ rxq with
          rxFree := rxq.rxFree ++ [rxb]
          freeCount := rxq.freeCount + 1
          pc := .recycle f rxbs pagesStolen }, sh)
  else reuseRbd rxq sh rxb f rxbs pagesStolen

/-- The loop of `iwl_pcie_rx_allocator_get`, after a ready request has been taken; it is undefined
when there are not enough RBDs.  `list_move` puts each RBD in front of the list. -/
def allocatorGet (rxq : Rxq) (sh : Shared) : Option (Rxq × Shared) :=
  if sh.rbdAllocated.length < claimReqAlloc then none
  else
    some ({ rxq with
        rxFree := (sh.rbdAllocated.take claimReqAlloc).reverse ++ rxq.rxFree
        usedCount := rxq.usedCount - claimReqAlloc
        freeCount := rxq.freeCount + claimReqAlloc },
      { sh with rbdAllocated := sh.rbdAllocated.drop claimReqAlloc })

/-- The condition of the loops of `iwl_pcie_rxmq_restock` and `iwl_pcie_rxsq_restock`. -/
def restockCond (conf : Conf) (rxq : Rxq) : Bool :=
  if conf.mqRxSupported then rxq.freeCount ≠ 0
  else decide (0 < rxqSpace conf rxq) && decide (rxq.freeCount ≠ 0)

def slotBusy (conf : Conf) (rxq : Rxq) (sh : Shared) : Bool :=
  match rxq.queue rxq.write with
  | some old => !conf.mqRxSupported && sh.page old
  | none => false

/-- One iteration; undefined when there is no RBD on the list, and a crash when the slot is busy. -/
def restockOne (conf : Conf) (rxq : Rxq) (sh : Shared) : Option (Rxq × Shared) :=
  match rxq.rxFree with
  | [] => none
  | rxb :: rest =>
    if slotBusy conf rxq sh then none
    else
      some ({ rxq with
          rxFree := rest
          bd := update rxq.bd rxq.write rxb
          queue := if conf.mqRxSupported then rxq.queue
            else update rxq.queue rxq.write (some rxb)
          write := conf.wrap (rxq.write + 1)
          freeCount := rxq.freeCount - 1 },
        { sh with invalid := update sh.invalid rxb false })

/-- The handler returns from `iwl_pcie_rxq_alloc_rbs`. -/
def Cont.afterAlloc : Cont → Pc
  | .init => .idle
  | .restart f => .restock (.restart f)
  | .exit => .restock .exit

/-- The handler returns from `iwl_pcie_rxq_restock`. -/
def Cont.afterRestock : Cont → Pc
  | .restart f => .restart f
  | _ => .idle

def Pc.lockFree : Pc → Bool
  | .idle | .restart _ | .alloc _ | .allocPage _ | .allocMap _ _ | .restock _ => true
  | _ => false

/-! ### Steps of a queue -/

inductive QAction
  /-- the poll function is called -/
  | poll (budget : ℕ)
  /-- the handler takes its next step; what it needs of the environment are the answers `b` (the
  op mode has stolen the pages, an allocation or a mapping has failed, the device is disabled) -/
  | run (b : Bool)
  /-- a buffer is restocked, by the handler or from elsewhere -/
  | restock

/-- The next step of a handler; it crashes when a used RBD has a page. -/
def handlerStep (conf : Conf) (rxq : Rxq) (sh : Shared) (b : Bool) : Option (Rxq × Shared) :=
  match rxq.pc with
  | .idle => none
  | .restart f =>
    let f := { f with r := conf.wrap rxq.closedRb, i := rxq.read }
    some ({ rxq with pc := .loop f }, sh)
  | .loop f =>
    if f.i = f.r then some ({ rxq with pc := .out f }, sh)
    else
      let f := { f with handled := f.handled + 1 }
      if f.handled < f.budget then
        let f := { f with rbPendingAlloc := sh.reqPending * claimReqAlloc }
        some ({ rxq with pc := .pending f }, sh)
      else some ({ rxq with pc := .out f }, sh)
  | .pending f =>
    if decide (conf.queueSize / 2 ≤ f.rbPendingAlloc) && !f.emergency then
      some (moveToAllocator { rxq with pc := .group { f with emergency := true } } sh)
    else some ({ rxq with pc := .group f }, sh)
  | .group f =>
    match countRbs conf rxq f.r maxSplitRbs 1 f.i with
    | (n, incomplete) =>
      if n = 0 then some ({ rxq with pc := .out f }, sh)
      else
        let f := { f with n := n, incomplete := incomplete }
        some ({ rxq with pc := .fetch f 0 [] false }, sh)
  | .fetch f j rxbs error =>
    if j < f.n then
      match getRxb conf rxq sh (conf.wrap (f.i + j)) with
      | (none, rxq, sh) => some ({ rxq with pc := .fetch f (j + 1) rxbs true }, sh)
      | (some rxb, rxq, sh) =>
        if !f.incomplete && !rxq.incompleteSplitRb then
          some ({ rxq with pc := .fetch f (j + 1) (rxbs ++ [rxb]) error }, sh)
        else
          -- not unmapped, put back into the rx_free list
          some ({ rxq with
            rxFree := rxq.rxFree ++ [rxb]
            freeCount := rxq.freeCount + 1
            pc := .fetch f (j + 1) rxbs error }, sh)
    else
      some ({ rxq with
        incompleteSplitRb := f.incomplete
        pc := .recycle { f with i := conf.wrap (f.i + f.n) } rxbs (b && !error) }, sh)
  | .recycle f (rxb :: rxbs) stolen => some (recycleRbd rxq sh rxb f rxbs stolen b)
  | .recycle f [] _ =>
    if rxq.usedCount < claimReqAlloc then some ({ rxq with pc := .tail f }, sh)
    else if sh.reqReady = 0 then some ({ rxq with pc := .tail f }, sh)
    else some ({ rxq with pc := .claiming f }, { sh with reqReady := sh.reqReady - 1 })
  | .posting f rxbs stolen =>
    some ({ rxq with pc := .recycle f rxbs stolen }, { sh with reqPending := sh.reqPending + 1 })
  | .claiming f => allocatorGet { rxq with pc := .tail f } sh
  | .tail f =>
    if f.emergency then
      let f := { f with count := f.count + f.n }
      if f.count < 8 then some ({ rxq with pc := .loop f }, sh)
      else
        let f := { f with
          count := 0
          emergency := !decide (f.rbPendingAlloc < conf.queueSize / 3) }
        some ({ rxq with read := f.i, pc := .alloc (.restart f) }, sh)
    else some ({ rxq with pc := .loop f }, sh)
  | .out f =>
    if f.emergency && decide (f.count ≠ 0) then
      some ({ rxq with read := f.i, pc := .alloc .exit }, sh)
    else some ({ rxq with read := f.i, pc := .restock .exit }, sh)
  | .alloc k =>
    if rxq.rxUsed.isEmpty || b then some ({ rxq with pc := k.afterAlloc }, sh)
    else some ({ rxq with pc := .allocPage k }, sh)
  | .allocPage k =>
    match rxq.rxUsed with
    | [] => some ({ rxq with pc := k.afterAlloc }, sh)
    | rxb :: rest =>
      if sh.page rxb then none
      else
        some ({ rxq with rxUsed := rest, pc := .allocMap k rxb },
          { sh with page := update sh.page rxb true })
  | .allocMap k rxb =>
    if b then
      some ({ rxq with rxUsed := rxb :: rxq.rxUsed, pc := k.afterAlloc },
        { sh with page := update sh.page rxb false })
    else
      some ({ rxq with
        rxFree := rxq.rxFree ++ [rxb], freeCount := rxq.freeCount + 1, pc := .alloc k }, sh)
  | .restock k =>
    if restockCond conf rxq && !b then none else some ({ rxq with pc := k.afterRestock }, sh)

def queueStep (conf : Conf) (rxq : Rxq) (sh : Shared) : QAction → Option (Rxq × Shared)
  | .poll budget =>
    match rxq.pc with
    | .idle => some ({ rxq with pc := .restart { budget := budget } }, sh)
    | _ => none
  | .run b => handlerStep conf rxq sh b
  | .restock => if rxq.pc.lockFree && restockCond conf rxq then restockOne conf rxq sh else none

/-! ### Steps of the allocator -/

/-- The next step of `iwl_pcie_rx_allocator`; `failed` says that a page cannot be allocated or
mapped.  It crashes when it has no RBD left or the RBD has a page. -/
def allocatorStep (sh : Shared) (a : Allocator) (failed : Bool) : Option (Shared × Allocator) :=
  match a.apc with
  | .idle => some (sh, { a with apc := .swap sh.reqPending })
  | .swap pending =>
    some ({ sh with rbdEmpty := [] },
      { a with
        localEmpty := sh.rbdEmpty
        apc := if pending = 0 then .finish else .take pending 0 })
  | .take pending i =>
    if i < claimReqAlloc then
      match a.localEmpty with
      | [] => none
      | rxb :: rest =>
        if sh.page rxb then none
        else if failed then some (sh, a)
        else
          some ({ sh with page := update sh.page rxb true },
            { localEmpty := rest, localAllocated := rxb :: a.localAllocated,
              apc := .take pending (i + 1) })
    else
      some ({ sh with reqPending := sh.reqPending - 1 }, { a with apc := .reread (pending - 1) })
  | .reread pending =>
    some (sh, { a with apc := .splice (if pending = 0 then sh.reqPending else pending) })
  | .splice pending =>
    some ({ sh with rbdAllocated := sh.rbdAllocated ++ a.localAllocated, rbdEmpty := [] },
      { localEmpty := a.localEmpty ++ sh.rbdEmpty, localAllocated := [], apc := .ready pending })
  | .ready pending =>
    some ({ sh with reqReady := sh.reqReady + 1 },
      { a with apc := if pending = 0 then .finish else .take pending 0 })
  | .finish =>
    some ({ sh with rbdEmpty := sh.rbdEmpty ++ a.localEmpty },
      { a with localEmpty := [], apc := .idle })

/-! ### The machine -/

inductive Action
  | queue (q : ℕ) (a : QAction)
  | allocator (failed : Bool)
  /-- the device fetches a posted descriptor of a queue -/
  | hwFetch (q : ℕ)
  /-- the device closes an RB on a queue -/
  | hwComplete (q : ℕ) (cd : Cd)

def rxStep (conf : Conf) (s : State) : Action → Option (Unit × State)
  | .queue q a =>
    if q < conf.numRxqs then
      match queueStep conf (s.rxq q) s.shared a with
      | none => none
      | some (rxq, sh) => some ((), { s with rxq := update s.rxq q rxq, shared := sh })
    else none
  | .allocator failed =>
    match allocatorStep s.shared s.allocator failed with
    | none => none
    | some (sh, a) => some ((), { s with shared := sh, allocator := a })
  | .hwFetch q =>
    if q < conf.numRxqs then
      let rxq := s.rxq q
      if rxq.hwRead = rxq.write then none
      else
        some ((), { s with
          rxq := update s.rxq q { rxq with hwRead := conf.wrap (rxq.hwRead + 1) }
          held := s.held ++ [rxq.bd rxq.hwRead] })
    else none
  | .hwComplete q cd =>
    if q < conf.numRxqs then
      let rxq := s.rxq q
      some ((), { s with
        rxq := update s.rxq q
          { rxq with
            usedBd := update rxq.usedBd rxq.closedRb cd
            closedRb := conf.wrap (rxq.closedRb + 1) }
        held := s.held.erase (cd.rbid - 1) })
    else none

/-! ### What a step does -/

section inversion
variable {conf : Conf} {rxq rxq' : Rxq} {sh sh' : Shared} {s s' : State}

inductive Moves (conf : Conf) (rxq : Rxq) (sh : Shared) : Rxq → Shared → Prop
  | poll (budget : ℕ) (hpc : rxq.pc = .idle) :
      Moves conf rxq sh { rxq with pc := .restart { budget := budget } } sh
  | restart {f : Frame} (hpc : rxq.pc = .restart f) : Moves conf rxq sh
      { rxq with pc := .loop { f with r := conf.wrap rxq.closedRb, i := rxq.read } } sh
  | leave {f : Frame} (n : ℕ) (hpc : rxq.pc = .loop f) :
      Moves conf rxq sh { rxq with pc := .out { f with handled := n } } sh
  | next {f : Frame} (n p : ℕ) (hpc : rxq.pc = .loop f) (hne : f.i ≠ f.r) :
      Moves conf rxq sh { rxq with pc := .pending { f with handled := n, rbPendingAlloc := p } } sh
  | emergency {f : Frame} (hpc : rxq.pc = .pending f) :
      Moves conf rxq sh { rxq with rxUsed := [], pc := .group { f with emergency := true } }
        { sh with rbdEmpty := sh.rbdEmpty ++ rxq.rxUsed }
  | group {f : Frame} (hpc : rxq.pc = .pending f) :
      Moves conf rxq sh { rxq with pc := .group f } sh
  | cut {f : Frame} (hpc : rxq.pc = .group f)
      (hn : (countRbs conf rxq f.r maxSplitRbs 1 f.i).1 = 0) :
      Moves conf rxq sh { rxq with pc := .out f } sh
  | whole {f : Frame} {n : ℕ} {inc : Bool} (hpc : rxq.pc = .group f)
      (hn : countRbs conf rxq f.r maxSplitRbs 1 f.i = (n, inc)) (h0 : n ≠ 0) :
      Moves conf rxq sh { rxq with pc := .fetch { f with n := n, incomplete := inc } 0 [] false } sh
  | miss {f : Frame} {j : ℕ} {rxbs : List ℕ} {error : Bool} {qu : ℕ → Option ℕ} {inv : ℕ → Bool}
      (hpc : rxq.pc = .fetch f j rxbs error) (hj : j < f.n)
      (hget : getRxb conf rxq sh (conf.wrap (f.i + j)) =
        (none, { rxq with queue := qu }, { sh with invalid := inv })) :
      Moves conf rxq sh { rxq with queue := qu, pc := .fetch f (j + 1) rxbs true }
        { sh with invalid := inv }
  | take {f : Frame} {j rxb : ℕ} {rxbs : List ℕ} {error : Bool} {qu : ℕ → Option ℕ}
      {inv : ℕ → Bool} (hpc : rxq.pc = .fetch f j rxbs error) (hj : j < f.n)
      (hget : getRxb conf rxq sh (conf.wrap (f.i + j)) =
        (some rxb, { rxq with queue := qu }, { sh with invalid := inv })) :
      Moves conf rxq sh { rxq with queue := qu, pc := .fetch f (j + 1) (rxbs ++ [rxb]) error }
        { sh with invalid := inv }
  | back {f : Frame} {j rxb : ℕ} {rxbs : List ℕ} {error : Bool} {qu : ℕ → Option ℕ}
      {inv : ℕ → Bool} (hpc : rxq.pc = .fetch f j rxbs error) (hj : j < f.n)
      (hget : getRxb conf rxq sh (conf.wrap (f.i + j)) =
        (some rxb, { rxq with queue := qu }, { sh with invalid := inv })) :
      Moves conf rxq sh
        { rxq with
          rxFree := rxq.rxFree ++ [rxb]
          freeCount := rxq.freeCount + 1
          queue := qu
          pc := .fetch f (j + 1) rxbs error } { sh with invalid := inv }
  | fetched {f : Frame} {j : ℕ} {rxbs : List ℕ} {error : Bool} (stolen : Bool)
      (hpc : rxq.pc = .fetch f j rxbs error) (hj : ¬ j < f.n) :
      Moves conf rxq sh
        { rxq with
          incompleteSplitRb := f.incomplete
          pc := .recycle { f with i := conf.wrap (f.i + f.n) } rxbs stolen } sh
  | keep {f : Frame} {rxb : ℕ} {rxbs : List ℕ} {stolen : Bool}
      (hpc : rxq.pc = .recycle f (rxb :: rxbs) stolen) :
      Moves conf rxq sh
        { rxq with
          rxFree := rxq.rxFree ++ [rxb]
          freeCount := rxq.freeCount + 1
          pc := .recycle f rxbs stolen } sh
  | lend {f : Frame} {rxb : ℕ} {rxbs : List ℕ} {stolen : Bool}
      (hpc : rxq.pc = .recycle f (rxb :: rxbs) stolen) (hem : f.emergency = true) :
      Moves conf rxq sh { rxq with rxUsed := rxq.rxUsed ++ [rxb], pc := .recycle f rxbs stolen }
        { sh with page := update sh.page rxb false }
  | count {f : Frame} {rxb : ℕ} {rxbs : List ℕ} {stolen : Bool}
      (hpc : rxq.pc = .recycle f (rxb :: rxbs) stolen) (hem : f.emergency = false)
      (hn : (rxq.usedCount + 1) % claimReqAlloc ≠ postReqAlloc) :
      Moves conf rxq sh
        { rxq with
          rxUsed := rxq.rxUsed ++ [rxb]
          usedCount := rxq.usedCount + 1
          pc := .recycle f rxbs stolen } { sh with page := update sh.page rxb false }
  | post {f : Frame} {rxb : ℕ} {rxbs : List ℕ} {stolen : Bool}
      (hpc : rxq.pc = .recycle f (rxb :: rxbs) stolen) (hem : f.emergency = false)
      (hn : (rxq.usedCount + 1) % claimReqAlloc = postReqAlloc) :
      Moves conf rxq sh
        { rxq with rxUsed := [], usedCount := rxq.usedCount + 1, pc := .posting f rxbs stolen }
        { sh with
          page := update sh.page rxb false
          rbdEmpty := sh.rbdEmpty ++ (rxq.rxUsed ++ [rxb]) }
  | recycled {f : Frame} {stolen : Bool} (hpc : rxq.pc = .recycle f [] stolen) :
      Moves conf rxq sh { rxq with pc := .tail f } sh
  | claim {f : Frame} {stolen : Bool} (hpc : rxq.pc = .recycle f [] stolen)
      (hused : ¬ rxq.usedCount < claimReqAlloc) (hready : ¬ sh.reqReady = 0) :
      Moves conf rxq sh { rxq with pc := .claiming f } { sh with reqReady := sh.reqReady - 1 }
  | posted {f : Frame} {rxbs : List ℕ} {stolen : Bool} (hpc : rxq.pc = .posting f rxbs stolen) :
      Moves conf rxq sh { rxq with pc := .recycle f rxbs stolen }
        { sh with reqPending := sh.reqPending + 1 }
  | claimed {f : Frame} (hpc : rxq.pc = .claiming f)
      (hlen : ¬ sh.rbdAllocated.length < claimReqAlloc) :
      Moves conf rxq sh
        { rxq with
          rxFree := (sh.rbdAllocated.take claimReqAlloc).reverse ++ rxq.rxFree
          usedCount := rxq.usedCount - claimReqAlloc
          freeCount := rxq.freeCount + claimReqAlloc
          pc := .tail f } { sh with rbdAllocated := sh.rbdAllocated.drop claimReqAlloc }
  | again {f : Frame} (n : ℕ) (hpc : rxq.pc = .tail f) :
      Moves conf rxq sh { rxq with pc := .loop { f with count := n } } sh
  | refill {f : Frame} (em : Bool) (hpc : rxq.pc = .tail f) (hem : f.emergency = true) :
      Moves conf rxq sh
        { rxq with
          read := f.i, pc := .alloc (.restart { f with count := 0, emergency := em }) } sh
  | exitAlloc {f : Frame} (hpc : rxq.pc = .out f) (hem : f.emergency = true) :
      Moves conf rxq sh { rxq with read := f.i, pc := .alloc .exit } sh
  | exit {f : Frame} (hpc : rxq.pc = .out f) :
      Moves conf rxq sh { rxq with read := f.i, pc := .restock .exit } sh
  | allocEnd {k : Cont} (hpc : rxq.pc = .alloc k ∨ rxq.pc = .allocPage k) :
      Moves conf rxq sh { rxq with pc := k.afterAlloc } sh
  | allocPage {k : Cont} (hpc : rxq.pc = .alloc k) :
      Moves conf rxq sh { rxq with pc := .allocPage k } sh
  | allocRbd {k : Cont} {rxb : ℕ} {rest : List ℕ} (hpc : rxq.pc = .allocPage k)
      (hused : rxq.rxUsed = rxb :: rest) :
      Moves conf rxq sh { rxq with rxUsed := rest, pc := .allocMap k rxb }
        { sh with page := update sh.page rxb true }
  | unmapped {k : Cont} {rxb : ℕ} (hpc : rxq.pc = .allocMap k rxb) :
      Moves conf rxq sh { rxq with rxUsed := rxb :: rxq.rxUsed, pc := k.afterAlloc }
        { sh with page := update sh.page rxb false }
  | mapped {k : Cont} {rxb : ℕ} (hpc : rxq.pc = .allocMap k rxb) :
      Moves conf rxq sh
        { rxq with
          rxFree := rxq.rxFree ++ [rxb], freeCount := rxq.freeCount + 1, pc := .alloc k } sh
  | restocked {k : Cont} (hpc : rxq.pc = .restock k) :
      Moves conf rxq sh { rxq with pc := k.afterRestock } sh
  | restock {rxb : ℕ} {rest : List ℕ} (qu : ℕ → Option ℕ) (hlock : rxq.pc.lockFree = true)
      (hfree : rxq.rxFree = rxb :: rest) :
      Moves conf rxq sh
        { rxq with
          rxFree := rest
          bd := update rxq.bd rxq.write rxb
          queue := qu
          write := conf.wrap (rxq.write + 1)
          freeCount := rxq.freeCount - 1 }
        { sh with invalid := update sh.invalid rxb false }

/-- `iwl_pcie_get_rxb` changes only the slot of a single queue and the mark of the RBD. -/
theorem getRxb_frame (conf : Conf) (rxq : Rxq) (sh : Shared) (i : ℕ) :
    ∃ o qu inv, getRxb conf rxq sh i =
      (o, { rxq with queue := qu }, { sh with invalid := inv }) := by
  unfold getRxb
  split
  · exact ⟨_, _, _, rfl⟩
  · dsimp only
    repeat' split
    all_goals exact ⟨_, _, _, rfl⟩

theorem reuseRbd_moves {f : Frame} {rxb : ℕ} {rxbs : List ℕ} {stolen : Bool}
    (hpc : rxq.pc = .recycle f (rxb :: rxbs) stolen) :
    Moves conf rxq sh
      (reuseRbd rxq { sh with page := update sh.page rxb false } rxb f rxbs stolen).1
      (reuseRbd rxq { sh with page := update sh.page rxb false } rxb f rxbs stolen).2 := by
  unfold reuseRbd
  dsimp only
  split
  next hem => exact .lend hpc hem
  rename_i hem
  split
  next hn => exact .post hpc (by simpa using hem) hn
  next hn => exact .count hpc (by simpa using hem) hn

theorem recycleRbd_moves (conf : Conf) (sh : Shared) {f : Frame} {rxb : ℕ} {rxbs : List ℕ}
    {stolen : Bool} (hpc : rxq.pc = .recycle f (rxb :: rxbs) stolen) (dmaError : Bool) :
    Moves conf rxq sh (recycleRbd rxq sh rxb f rxbs stolen dmaError).1
      (recycleRbd rxq sh rxb f rxbs stolen dmaError).2 := by
  unfold recycleRbd
  cases stolen with
  | true =>
    simp only [if_true, update_self, Bool.false_eq_true, if_false]
    exact reuseRbd_moves hpc
  | false =>
    simp only [Bool.false_eq_true, if_false]
    split
    · split
      · exact reuseRbd_moves hpc
      · exact .keep hpc
    rename_i hpage
    have hsh : sh = { sh with page := update sh.page rxb false } := by
      rw [← Bool.eq_false_of_not_eq_true hpage, update_eq_self]
    have hreuse : Moves conf rxq sh _ _ := reuseRbd_moves hpc
    rwa [← hsh] at hreuse

theorem handlerStep_moves {b : Bool} (h : handlerStep conf rxq sh b = some (rxq', sh')) :
    Moves conf rxq sh rxq' sh' := by
  unfold handlerStep at h
  generalize hpc : rxq.pc = pc at h
  cases pc with dsimp only at h
  | idle => cases h
  | restart f =>
    cases h
    exact .restart hpc
  | loop f =>
    split at h
    · cases h
      exact .leave f.handled hpc
    rename_i hne
    split at h <;> cases h
    · exact .next _ _ hpc hne
    · exact .leave _ hpc
  | pending f =>
    split at h <;> cases h
    · exact .emergency hpc
    · exact .group hpc
  | group f =>
    generalize hn : countRbs conf rxq f.r maxSplitRbs 1 f.i = p at h
    split at h <;> cases h
    next h0 => exact .cut hpc (by rw [hn, h0])
    next h0 => exact .whole hpc hn h0
  | fetch f j rxbs error =>
    obtain ⟨o, qu, inv, hget⟩ := getRxb_frame conf rxq sh (conf.wrap (f.i + j))
    rw [hget] at h
    split at h
    next hj =>
      cases o with
      | none =>
        cases h
        exact .miss hpc hj hget
      | some rxb =>
        dsimp only at h
        split at h <;> cases h
        · exact .take hpc hj hget
        · exact .back hpc hj hget
    next hj =>
      cases h
      exact .fetched _ hpc hj
  | recycle f rxbs stolen =>
    cases rxbs with
    | nil =>
      dsimp only at h
      split at h
      · cases h
        exact .recycled hpc
      rename_i hused
      split at h <;> cases h
      · exact .recycled hpc
      next hready => exact .claim hpc hused hready
    | cons rxb rxbs =>
      have hmoves := recycleRbd_moves conf sh hpc b
      rwa [Option.some.inj h] at hmoves
  | posting f rxbs stolen =>
    cases h
    exact .posted hpc
  | claiming f =>
    simp only [allocatorGet] at h
    split at h <;> cases h
    next hlen => exact .claimed hpc hlen
  | tail f =>
    split at h
    next hem =>
      split at h <;> cases h
      · exact .again _ hpc
      · exact .refill _ hpc hem
    · cases h
      exact .again f.count hpc
  | out f =>
    split at h <;> cases h
    next hem => exact .exitAlloc hpc (Bool.and_eq_true_iff.mp hem).1
    · exact .exit hpc
  | alloc k =>
    split at h <;> cases h
    · exact .allocEnd (.inl hpc)
    · exact .allocPage hpc
  | allocPage k =>
    split at h
    · cases h
      exact .allocEnd (.inr hpc)
    next rxb rest hused =>
      split at h <;> cases h
      exact .allocRbd hpc hused
  | allocMap k rxb =>
    split at h <;> cases h
    · exact .unmapped hpc
    · exact .mapped hpc
  | restock k =>
    split at h <;> cases h
    exact .restocked hpc

theorem queueStep_moves {a : QAction} (h : queueStep conf rxq sh a = some (rxq', sh')) :
    Moves conf rxq sh rxq' sh' := by
  cases a with
  | poll budget =>
    simp only [queueStep] at h
    split at h <;> cases h
    next hpc => exact .poll budget hpc
  | run b => exact handlerStep_moves h
  | restock =>
    simp only [queueStep] at h
    split at h
    next hc =>
      simp only [restockOne] at h
      split at h
      · cases h
      next rxb rest hfree =>
        split at h <;> cases h
        exact .restock _ (Bool.and_eq_true_iff.mp hc).1 hfree
    · cases h

inductive RxMoves (conf : Conf) (s : State) : Action → State → Prop
  | queue {q : ℕ} {a : QAction} {rxq : Rxq} {sh : Shared} (hq : q < conf.numRxqs)
      (h : Moves conf (s.rxq q) s.shared rxq sh) :
      RxMoves conf s (.queue q a) { s with rxq := update s.rxq q rxq, shared := sh }
  | allocator {failed : Bool} {sh : Shared} {a : Allocator}
      (h : allocatorStep s.shared s.allocator failed = some (sh, a)) :
      RxMoves conf s (.allocator failed) { s with shared := sh, allocator := a }
  | hwFetch {q : ℕ} (hq : q < conf.numRxqs) (hne : (s.rxq q).hwRead ≠ (s.rxq q).write) :
      RxMoves conf s (.hwFetch q)
        { s with
          rxq := update s.rxq q
            { s.rxq q with hwRead := conf.wrap ((s.rxq q).hwRead + 1) }
          held := s.held ++ [(s.rxq q).bd (s.rxq q).hwRead] }
  | hwComplete {q : ℕ} {cd : Cd} (hq : q < conf.numRxqs) :
      RxMoves conf s (.hwComplete q cd)
        { s with
          rxq := update s.rxq q
            { s.rxq q with
              usedBd := update (s.rxq q).usedBd (s.rxq q).closedRb cd
              closedRb := conf.wrap ((s.rxq q).closedRb + 1) }
          held := s.held.erase (cd.rbid - 1) }

theorem rxStep_moves {a : Action} {u : Unit} (h : rxStep conf s a = some (u, s')) :
    RxMoves conf s a s' := by
  cases a with simp only [rxStep] at h
  | queue q a =>
    split at h
    next hq =>
      split at h <;> cases h
      rename_i rxq sh hstep
      exact .queue hq (queueStep_moves hstep)
    · cases h
  | allocator failed =>
    split at h <;> cases h
    rename_i sh a hstep
    exact .allocator hstep
  | hwFetch q =>
    split at h
    next hq =>
      split at h <;> cases h
      rename_i hne
      exact .hwFetch hq hne
    · cases h
  | hwComplete q cd =>
    split at h <;> cases h
    rename_i hq
    exact .hwComplete hq

end inversion

end Iwlwifi.Iwl.Pcie.Rx
