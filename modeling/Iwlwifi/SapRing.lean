import Iwlwifi.Bytes
import Iwlwifi.Cyclic
import Iwlwifi.Transition

/-! # The rings of the SAP shared memory

A model of the queues between the host and the CSME firmware (`iwlwifi/mei/main.c`).  A queue is a
ring of bytes with a read and a write pointer.

* **Writers.**  `writeCyclicBuf` and `addDataToRing` decide from both pointers whether there is room;
  `Queue.put` then copies the message and moves the write pointer.
* **Readers.**  `handleSapRx` takes what lies between the pointers, message by message
  (`Reader.loop`), and moves the read pointer to the write pointer that it saw.  The two readers of
  the driver (`handleSapRxCmd`, `handleSapData`) differ in what they do with a message.
* **Runs** (`step`).  A writer and a reader each read the pointers first and act later; anything may
  happen in between.

A message that fills the room exactly is accepted, but then the pointers are equal and the ring
counts as empty (`full_ring_seen_empty`). -/

namespace Iwlwifi.Mei

open Bytes Memory Iwlwifi.Ring Cyclic List

/-! ### Messages -/

/-- `struct iwl_sap_hdr`. -/
def sapHdr (type len seqNum : ℕ) : List UInt8 := putLe16 type ++ putLe16 len ++ putLe32 seqNum

/-- A message with its header, as the callers of `iwl_mei_write_cyclic_buf` build it. -/
structure SapMsg where
  type : ℕ
  seqNum : ℕ
  payload : List UInt8
  length_lt : payload.length < 65536
deriving DecidableEq

def SapMsg.bytes (m : SapMsg) : List UInt8 :=
  sapHdr m.type m.payload.length m.seqNum ++ m.payload

/-- A packet, with the room in front of it. -/
structure Skb where
  data : List UInt8
  headroom : ℕ
deriving DecidableEq

/-- `SAP_MSG_DATA_PACKET` and `SAP_MSG_CB_DATA_PACKET`. -/
def dataPacket : ℕ := 2000
def cbDataPacket : ℕ := 2001

/-- `hdr_sz` of `iwl_mei_add_data_to_ring`. -/
def hdrSz (cbTx : Bool) : ℕ := if cbTx then 48 else 8

/-- The packet behind the header that `iwl_mei_add_data_to_ring` pushes. -/
def pushHdr (data : List UInt8) (cbTx : Bool) (seqNum : ℕ) : List UInt8 :=
  if cbTx then
    let len := data.length + 48
    sapHdr cbDataPacket (len - 8) seqNum ++ List.replicate 28 0 ++ putLe32 (2 ^ 30) ++
      List.replicate 4 0 ++ putLe32 (len - 48) ++ data
  else
    let len := data.length + 8
    sapHdr dataPacket (len - 8) seqNum ++ data

/-! ### Queues -/

/-- `struct iwl_sap_q_ctrl_blk`, with the memory from `q_head` on. -/
structure Queue where
  qSz : ℕ
  mem : Mem
  rdPtr : ℕ
  wrPtr : ℕ

/-- The pointers are past the end of the buffer. -/
def Queue.PastEnd (q : Queue) : Prop := q.rdPtr > q.qSz ∨ q.wrPtr > q.qSz

instance (q : Queue) : Decidable q.PastEnd := inferInstanceAs (Decidable (_ ∨ _))

def Queue.roomInBuf (q : Queue) : ℕ :=
  if q.wrPtr ≥ q.rdPtr then q.qSz - q.wrPtr + q.rdPtr else q.rdPtr - q.wrPtr

inductive WriteError
  | einval
  | enospc
  | headroom
deriving DecidableEq

/-- `iwl_mei_write_cyclic_buf` up to the copy: the write pointer and the bytes to copy. -/
def writeCyclicBuf (q : Queue) (hdr : List UInt8) : Except WriteError (ℕ × List UInt8) :=
  let txSz := 8 + le16 hdr 2
  if q.PastEnd then .error .einval
  else if q.roomInBuf < txSz then .error .enospc
  else .ok (q.wrPtr, hdr.take txSz)

/-- `iwl_mei_add_data_to_ring` up to the copy, on a connected device. -/
def addDataToRing (q : Queue) (skb : Skb) (cbTx : Bool) (seqNum : ℕ) :
    Except WriteError (ℕ × List UInt8) :=
  let txSz := skb.data.length + hdrSz cbTx
  if q.PastEnd then .error .einval
  else if q.roomInBuf < txSz then .error .enospc
  else if skb.headroom < hdrSz cbTx then .error .headroom
  else .ok (q.wrPtr, (pushHdr skb.data cbTx seqNum).take txSz)

def Queue.put (q : Queue) (wr : ℕ) (bytes : List UInt8) : Queue :=
  { q with
    mem := copyIn q.qSz q.mem wr bytes
    wrPtr := (wr + bytes.length) % q.qSz }

/-- `iwl_mei_host_to_me_data_pending`. -/
def hostToMeDataPending (data notif : Queue) : Bool :=
  data.wrPtr ≠ data.rdPtr || notif.wrPtr ≠ notif.rdPtr

/-! ### Reading -/

/-- `iwl_mei_read_from_q`: what is read, and the new position.  Positions are 32-bit words. -/
def readFromQ (q : Queue) (rd len : ℕ) : List UInt8 × ℕ :=
  if (rd + len) % 2 ^ 32 ≤ q.qSz then (load q.mem rd len, (rd + len) % 2 ^ 32)
  else (load q.mem rd (q.qSz - rd) ++ load q.mem 0 (len - (q.qSz - rd)), len - (q.qSz - rd))

/-- What a reader does with messages: those that are too big end its loop, others it may use. -/
structure Reader (γ : Type) where
  tooBig : ℕ → Bool
  use : List UInt8 → List UInt8 → Option γ

variable {γ : Type}

/-- The loop over the messages; every round reads a header, so that `validRxSz` rounds suffice. -/
def Reader.loop (r : Reader γ) (q : Queue) : ℕ → ℕ → ℕ → List γ
  | 0, _, _ => []
  | fuel + 1, rd, validRxSz =>
    if validRxSz < 8 then []
    else
      let (hdr, rd) := readFromQ q rd 8
      let validRxSz := validRxSz - 8
      let len := le16 hdr 2
      if r.tooBig len ∨ validRxSz < len then []
      else
        let (body, rd) := readFromQ q rd len
        (r.use hdr body).toList ++ r.loop q fuel rd (validRxSz - len)

/-- `iwl_mei_handle_sap_rx_cmd`: the messages that are handled. -/
def handleSapRxCmd (pageSize : ℕ) (q : Queue) : ℕ → ℕ → ℕ → List (List UInt8)
  | 0, _, _ => []
  | fuel + 1, rd, validRxSz =>
    if validRxSz < 8 then []
    else
      let (hdr, rd) := readFromQ q rd 8
      let validRxSz := validRxSz - 8
      let len := le16 hdr 2
      if len + 8 > pageSize then []
      else if validRxSz < len then []
      else
        let (body, rd) := readFromQ q rd len
        (hdr ++ body) :: handleSapRxCmd pageSize q fuel rd (validRxSz - len)

/-- `iwl_mei_handle_sap_data`: the packets that are queued for transmission. -/
def handleSapData (q : Queue) : ℕ → ℕ → ℕ → List (List UInt8)
  | 0, _, _ => []
  | fuel + 1, rd, validRxSz =>
    if validRxSz < 8 then []
    else
      let (hdr, rd) := readFromQ q rd 8
      let validRxSz := validRxSz - 8
      let len := le16 hdr 2
      if validRxSz < len then []
      else
        let validRxSz := validRxSz - len
        if len < 14 then handleSapData q fuel (readFromQ q rd len).2 validRxSz
        else if le16 hdr 0 ≠ dataPacket then
          handleSapData q fuel (readFromQ q rd len).2 validRxSz
        else
          let (ethhdr, rd) := readFromQ q rd 14
          let (data, rd) := readFromQ q rd (len - 14)
          (ethhdr ++ data) :: handleSapData q fuel rd validRxSz

/-- `iwl_mei_handle_sap_rx` up to the loop: the pointers, when there is something to read. -/
def Queue.snapshot (q : Queue) : Option (ℕ × ℕ) :=
  if q.PastEnd then none
  else if q.rdPtr = q.wrPtr then none
  else some (q.rdPtr, q.wrPtr)

/-- The loop of `iwl_mei_handle_sap_rx` between the pointers that were read. -/
def handleSapRx (r : Reader γ) (q : Queue) (rd wr : ℕ) : List γ :=
  let validRxSz := if wr > rd then wr - rd else q.qSz - rd + wr
  r.loop q validRxSz rd validRxSz

def available (r : Reader γ) (q : Queue) : List γ :=
  match q.snapshot with
  | some (rd, wr) => handleSapRx r q rd wr
  | none => []

/-! ### Runs -/

inductive Write
  | msg (m : SapMsg)
  | data (skb : Skb) (cbTx : Bool) (seqNum : ℕ)
deriving DecidableEq

def Write.start (q : Queue) : Write → Except WriteError (ℕ × List UInt8)
  | .msg m => writeCyclicBuf q m.bytes
  | .data skb cbTx seqNum => addDataToRing q skb cbTx seqNum

/-- A queue with a writer and a reader that have read the pointers, and the history: the messages
written and what the reader made of them. -/
structure State (γ : Type) where
  queue : Queue
  writer : Option (ℕ × List UInt8)
  reader : Option (ℕ × ℕ)
  accepted : List (List UInt8)
  obtained : List γ

/-- A writer starts and then copies; a reader starts, and then reads and moves its pointer. -/
inductive Act
  | write (w : Write)
  | commit
  | rxBegin
  | rxEnd
deriving DecidableEq

def step (r : Reader γ) (s : State γ) : Act → Option (Option WriteError × State γ)
  | .write w =>
    -- a lock keeps other writers out
    if s.writer.isSome then none
    else match w.start s.queue with
      | .error e => some (some e, s)
      | .ok p => some (none, { s with writer := some p })
  | .commit =>
    match s.writer with
    | none => none
    | some (wr, bytes) =>
      some (none, { s with
        queue := s.queue.put wr bytes
        writer := none
        accepted := s.accepted ++ [bytes] })
  | .rxBegin =>
    if s.reader.isSome then none
    else some (none, { s with reader := s.queue.snapshot })
  | .rxEnd =>
    match s.reader with
    | none => none
    | some (rd, wr) =>
      some (none, { s with
        queue := { s.queue with rdPtr := wr }
        reader := none
        obtained := s.obtained ++ handleSapRx r s.queue rd wr })

def State.init (qSz : ℕ) (mem : Mem) : State γ where
  queue := ⟨qSz, mem, 0, 0⟩
  writer := none
  reader := none
  accepted := []
  obtained := []

def Reader.take (r : Reader γ) (m : List UInt8) : Option γ := r.use (m.take 8) (m.drop 8)

def Queue.unread (q : Queue) : List UInt8 := between q.qSz q.mem q.rdPtr q.wrPtr

/-- What was obtained and what is there to be read are the accepted messages in order; after a write
the ring is seen as not empty, and the unread bytes are still there. -/
structure Fifo (r : Reader γ) (l : Label (State γ) Act (Option WriteError)) : Prop where
  order : l.post.obtained ++ available r l.post.queue = l.post.accepted.filterMap r.take
  pending : l.act = .commit → ∀ other, hostToMeDataPending l.post.queue other = true ∧
    hostToMeDataPending other l.post.queue = true
  kept : l.act = .commit → l.pre.queue.unread <+: l.post.queue.unread

def LeavesByte (l : Label (State γ) Act (Option WriteError)) : Prop :=
  l.act = .commit → ∀ p ∈ l.pre.writer, p.2.length < l.pre.queue.roomInBuf

instance (l : Label (State γ) Act (Option WriteError)) : Decidable (LeavesByte l) :=
  inferInstanceAs (Decidable (_ → _))

/-- The length of a message that is written fits in its header, and the reader takes it. -/
def Framed (r : Reader γ) (l : Label (State γ) Act (Option WriteError)) : Prop :=
  l.act = .commit → ∀ p ∈ l.pre.writer,
    p.2.length < 65536 + 8 ∧ r.tooBig (p.2.length - 8) = false

instance (r : Reader γ) (l : Label (State γ) Act (Option WriteError)) : Decidable (Framed r l) :=
  inferInstanceAs (Decidable (_ → _))

/-! ### Framing -/

@[simp] theorem length_sapHdr (type len seqNum : ℕ) : (sapHdr type len seqNum).length = 8 := rfl

theorem le16_sapHdr (type len seqNum : ℕ) (rest : List UInt8) :
    le16 (sapHdr type len seqNum ++ rest) 2 = len % 65536 :=
  le16_putLe16_append len (putLe32 seqNum ++ rest)

theorem length_pushHdr (data : List UInt8) (cbTx : Bool) (seqNum : ℕ) :
    (pushHdr data cbTx seqNum).length = data.length + hdrSz cbTx := by
  cases cbTx with
  | false => simp [pushHdr, hdrSz, Nat.add_comm]
  | true =>
    simp only [pushHdr, hdrSz, if_true, length_append, length_sapHdr, length_replicate]
    simp only [putLe32, putLe16, length_append, length_cons, length_nil]
    omega

def Framing (m : List UInt8) : Prop := 8 ≤ m.length ∧ le16 m 2 = (m.length - 8) % 65536

theorem framing_sapHdr (type seqNum : ℕ) {len : ℕ} {rest : List UInt8} (h : rest.length = len) :
    Framing (sapHdr type len seqNum ++ rest) := by
  refine ⟨by simp, ?_⟩
  rw [le16_sapHdr, length_append, length_sapHdr, h, Nat.add_sub_cancel_left]

theorem framing_pushHdr (data : List UInt8) (cbTx : Bool) (seqNum : ℕ) :
    Framing (pushHdr data cbTx seqNum) := by
  cases cbTx with
  | false => exact framing_sapHdr _ _ (Nat.add_sub_cancel ..).symm
  | true =>
    simp only [pushHdr, if_true, append_assoc]
    apply framing_sapHdr
    simp only [putLe32, putLe16, length_append, length_cons, length_nil, length_replicate]
    omega

theorem Write.start_ok {w : Write} {q : Queue} {p : ℕ × List UInt8} (h : w.start q = .ok p) :
    p.1 = q.wrPtr ∧ p.2.length ≤ q.roomInBuf ∧ Framing p.2 := by
  cases w with
  | msg m =>
    have hlen : 8 + le16 m.bytes 2 = m.bytes.length := by
      rw [SapMsg.bytes, le16_sapHdr, Nat.mod_eq_of_lt m.length_lt, length_append, length_sapHdr]
    simp only [Write.start, writeCyclicBuf, hlen, take_length] at h
    split at h
    · cases h
    split at h <;> cases h
    next hroom => exact ⟨rfl, Nat.not_lt.mp hroom, framing_sapHdr _ _ rfl⟩
  | data skb cbTx seqNum =>
    simp only [Write.start, addDataToRing, ← length_pushHdr skb.data cbTx seqNum, take_length] at h
    split at h
    · cases h
    split at h
    · cases h
    rename_i hroom
    split at h <;> cases h
    exact ⟨rfl, Nat.not_lt.mp hroom, framing_pushHdr ..⟩

/-! ### Reading messages -/

section reading
variable {q : Queue} {r : Reader γ}

def Queue.next (q : Queue) (rd len : ℕ) : ℕ :=
  if rd + len ≤ q.qSz then rd + len else len - (q.qSz - rd)

section next
variable {rd len a b : ℕ}

theorem next_le (hlen : len ≤ q.qSz) : q.next rd len ≤ q.qSz := by
  unfold Queue.next
  split <;> omega

theorem next_add (hrd : rd ≤ q.qSz) (hlen : a + b ≤ q.qSz) :
    q.next (q.next rd a) b = q.next rd (a + b) := by
  unfold Queue.next
  split <;> split <;> split <;> omega

theorem contents_next (hrd : rd ≤ q.qSz) (len n : ℕ) :
    contents q.qSz q.mem (q.next rd len) n = contents q.qSz q.mem (rd + len) n := by
  unfold Queue.next
  split
  · rfl
  · have heq : rd + len = len - (q.qSz - rd) + q.qSz := by omega
    rw [heq, ← contents_mod (dvd_refl _) _ (_ + _), Nat.add_mod_right, contents_mod (dvd_refl _)]

theorem readFromQ_eq (hrd : rd ≤ q.qSz) (hlen : len ≤ q.qSz) (h32 : rd + len < 2 ^ 32) :
    readFromQ q rd len = (contents q.qSz q.mem rd len, q.next rd len) := by
  rw [readFromQ, Nat.mod_eq_of_lt h32, Queue.next]
  split
  next hfit => rw [load_eq_contents hfit]
  · rw [load_append_load hrd hlen (by omega)]

end next

/-- A message whose length stands in its header, and that the reader takes. -/
structure Readable (r : Reader γ) (m : List UInt8) : Prop where
  hdr : 8 ≤ m.length
  len : le16 m 2 = m.length - 8
  fits : m.length - 8 < 65536
  tooBig : r.tooBig (m.length - 8) = false

theorem le16_take (m : List UInt8) : le16 (m.take 8) 2 = le16 m 2 := by
  simp [le16, getD_eq_getElem?_getD]

theorem Reader.loop_eq (hq : q.qSz + 65536 ≤ 2 ^ 32) (ms : List (List UInt8)) :
    ∀ {fuel rd : ℕ}, (∀ m ∈ ms, Readable r m) → rd ≤ q.qSz → ms.flatten.length ≤ fuel →
      ms.flatten.length ≤ q.qSz → contents q.qSz q.mem rd ms.flatten.length = ms.flatten →
      r.loop q fuel rd ms.flatten.length = ms.filterMap r.take := by
  induction ms with
  | nil =>
    intro fuel rd _ _ _ _ _
    cases fuel with
    | zero => rfl
    | succ fuel => rfl
  | cons m ms ih =>
    intro fuel rd hall hrd hfuel hle hmem
    have hm : Readable r m := hall m (by simp)
    have hhdr := hm.hdr
    have hfits := hm.fits
    -- the ring holds the header, the body and the other messages one after another
    have hlen : (m :: ms).flatten.length = 8 + ((m.length - 8) + ms.flatten.length) := by
      simp
      omega
    rw [hlen] at hfuel hle hmem ⊢
    obtain ⟨fuel, rfl⟩ : ∃ k, fuel = k + 1 := ⟨fuel - 1, by omega⟩
    have hsplit : (m :: ms).flatten = m.take 8 ++ (m.drop 8 ++ ms.flatten) := by
      rw [flatten_cons, ← append_assoc, take_append_drop]
    rw [hsplit, contents_add, contents_add] at hmem
    obtain ⟨h₁, hmem⟩ := append_inj hmem (by simp; omega)
    obtain ⟨h₂, h₃⟩ := append_inj hmem (by simp)
    have hr₁ := readFromQ_eq (q := q) hrd (show 8 ≤ q.qSz by omega) (by omega)
    have hle₁ : q.next rd 8 ≤ q.qSz := next_le (by omega)
    have hr₂ := readFromQ_eq hle₁ (show m.length - 8 ≤ q.qSz by omega) (by omega)
    have hle₂ : q.next (q.next rd 8) (m.length - 8) ≤ q.qSz := next_le (by omega)
    rw [h₁] at hr₁
    rw [contents_next hrd, h₂] at hr₂
    have hc₃ : contents q.qSz q.mem (q.next (q.next rd 8) (m.length - 8)) ms.flatten.length =
        ms.flatten := by
      rw [next_add hrd (by omega), contents_next hrd, ← Nat.add_assoc, h₃]
    have hrest : r.loop q fuel (q.next (q.next rd 8) (m.length - 8)) ms.flatten.length =
        ms.filterMap r.take :=
      ih (fun m hm => hall m (by simp [hm])) hle₂ (by omega) (by omega) hc₃
    simp only [Reader.loop, hr₁, le16_take, hm.len, hr₂, hm.tooBig]
    rw [if_neg (by omega), if_neg (by simp)]
    have hvalid : 8 + (m.length - 8 + ms.flatten.length) - 8 - (m.length - 8) =
        ms.flatten.length := by omega
    rw [hvalid, hrest, filterMap_cons]
    cases htake : r.use (m.take 8) (m.drop 8) with
    | none => simp [Reader.take, htake]
    | some x => simp [Reader.take, htake]

/-! #### The readers of the driver -/

def Reader.whole : Reader (List UInt8) := ⟨fun _ => false, fun hdr body => some (hdr ++ body)⟩

def Reader.cmd (pageSize : ℕ) : Reader (List UInt8) :=
  ⟨fun len => len + 8 > pageSize, fun hdr body => some (hdr ++ body)⟩

/-- The reader of packets takes data packets that have an Ethernet header. -/
def Reader.data : Reader (List UInt8) :=
  ⟨fun _ => false, fun hdr body =>
    if body.length < 14 then none else if le16 hdr 0 ≠ dataPacket then none else some body⟩

theorem handleSapRxCmd_eq (pageSize fuel : ℕ) : ∀ rd validRxSz,
    handleSapRxCmd pageSize q fuel rd validRxSz =
      (Reader.cmd pageSize).loop q fuel rd validRxSz := by
  induction fuel with
  | zero => intro rd validRxSz; rfl
  | succ fuel ih =>
    intro rd validRxSz
    simp only [handleSapRxCmd, Reader.loop, ih]
    split
    · rfl
    · simp only [Reader.cmd, decide_eq_true_eq, Option.toList_some, singleton_append]
      split <;> split <;> simp_all

theorem handleSapData_eq (hq : q.qSz + 65536 ≤ 2 ^ 32) (fuel : ℕ) : ∀ {rd validRxSz : ℕ},
    rd ≤ q.qSz → validRxSz ≤ q.qSz →
    handleSapData q fuel rd validRxSz = Reader.data.loop q fuel rd validRxSz := by
  induction fuel with
  | zero => intro rd validRxSz _ _; rfl
  | succ fuel ih =>
    intro rd validRxSz hrd hvalid
    rw [handleSapData, Reader.loop]
    by_cases h8 : validRxSz < 8
    · rw [if_pos h8, if_pos h8]
    rw [if_neg h8, if_neg h8, readFromQ_eq hrd (by omega) (by omega)]
    have hle₁ : q.next rd 8 ≤ q.qSz := next_le (by omega)
    generalize q.next rd 8 = rd₁ at hle₁ ⊢
    generalize contents q.qSz q.mem rd 8 = hdr
    have hfits : ∀ len, Reader.data.tooBig len = false := fun _ => rfl
    simp only [hfits, Bool.false_eq_true, false_or]
    have h16 := le16_lt hdr 2
    generalize le16 hdr 2 = len at h16 ⊢
    by_cases hlen : validRxSz - 8 < len
    · rw [if_pos hlen, if_pos hlen]
    rw [if_neg hlen, if_neg hlen, readFromQ_eq hle₁ (by omega) (by omega)]
    have hrest : handleSapData q fuel (q.next rd₁ len) (validRxSz - 8 - len) =
        Reader.data.loop q fuel (q.next rd₁ len) (validRxSz - 8 - len) :=
      ih (next_le (by omega)) (by omega)
    by_cases h14 : len < 14
    · rw [if_pos h14, hrest]
      simp [Reader.data, h14]
    by_cases htype : le16 hdr 0 ≠ dataPacket
    · rw [if_neg h14, if_pos htype, hrest]
      simp [Reader.data, htype]
    -- the Ethernet header and the rest are read one after the other
    have hle₂ : q.next rd₁ 14 ≤ q.qSz := next_le (by omega)
    have hbody : contents q.qSz q.mem rd₁ len =
        contents q.qSz q.mem rd₁ 14 ++ contents q.qSz q.mem (q.next rd₁ 14) (len - 14) := by
      rw [contents_next hle₁, ← contents_add, Nat.add_sub_cancel' (by omega)]
    have hnext : q.next (q.next rd₁ 14) (len - 14) = q.next rd₁ len := by
      rw [next_add hle₁ (by omega), Nat.add_sub_cancel' (by omega)]
    rw [if_neg h14, if_neg htype, readFromQ_eq hle₁ (by omega) (by omega)]
    rw [readFromQ_eq hle₂ (by omega) (by omega), hnext, hrest, ← hbody]
    have huse : Reader.data.use hdr (contents q.qSz q.mem rd₁ len) =
        some (contents q.qSz q.mem rd₁ len) := by
      simp [Reader.data, h14, not_not.mp htype]
    rw [huse]
    rfl

/-- **The readers of the driver.**  Of the messages `u` in a ring, wherever they start, one reader
hands on all, the other one the data packets, in order. -/
theorem sap_readers_exact (hq : q.qSz + 65536 ≤ 2 ^ 32) (pageSize : ℕ) {u : List (List UInt8)}
    (hu : ∀ m ∈ u, Readable (Reader.cmd pageSize) m) {rd : ℕ} (hrd : rd ≤ q.qSz)
    (hle : u.flatten.length ≤ q.qSz)
    (hmem : contents q.qSz q.mem rd u.flatten.length = u.flatten) :
    handleSapRxCmd pageSize q u.flatten.length rd u.flatten.length = u ∧
      handleSapData q u.flatten.length rd u.flatten.length = u.filterMap Reader.data.take := by
  rw [handleSapRxCmd_eq, handleSapData_eq hq _ hrd hle, Reader.loop_eq hq u hu hrd le_rfl hle hmem]
  constructor
  · have hall : (Reader.cmd pageSize).take = some := funext fun m => by
      simp [Reader.take, Reader.cmd]
    rw [hall, filterMap_some]
  · exact Reader.loop_eq hq u (fun m hm => { hu m hm with tooBig := rfl }) hrd le_rfl hle hmem

/-- A packet that starts 8 bytes before the end of the ring. -/
theorem sap_readers_exact_wrapped :
    handleSapData ⟨32, copyIn 32 (fun _ => 0) 24 (pushHdr (replicate 14 7) false 1), 24, 14⟩
      22 24 22 = [replicate 14 7] := by
  have hu : ∀ m ∈ [pushHdr (replicate 14 7) false 1], Readable (Reader.cmd 4096) m :=
    forall_mem_singleton.mpr ⟨by decide, by decide, by decide, rfl⟩
  exact (sap_readers_exact (by decide) 4096 hu (by decide) (by decide) (by decide)).2

end reading

/-! ### What the ring holds -/

section holds
variable {q : Queue} {r : Reader γ} {unread : List (List UInt8)}

/-- The messages from the read pointer up to the write pointer.  They never fill the ring. -/
structure Holds (q : Queue) (unread : List (List UInt8)) : Prop where
  rd_lt : q.rdPtr < q.qSz ∨ q.rdPtr = 0
  len_lt : unread.flatten.length < q.qSz ∨ unread.flatten.length = 0
  wr_eq : q.wrPtr = (q.rdPtr + unread.flatten.length) % q.qSz
  bytes : contents q.qSz q.mem q.rdPtr unread.flatten.length = unread.flatten

section
variable (h : Holds q unread)
include h

theorem Holds.wr_cases :
    q.wrPtr = q.rdPtr + unread.flatten.length ∧ q.wrPtr ≤ q.qSz ∨
      q.wrPtr + q.qSz = q.rdPtr + unread.flatten.length ∧ q.wrPtr < q.rdPtr ∧
        q.rdPtr < q.qSz := by
  have hwr := h.wr_eq
  rcases h.len_lt with hlen | hlen
  · have hrd : q.rdPtr < q.qSz := by
      rcases h.rd_lt with hrd | hrd <;> omega
    rw [add_mod_eq hrd hlen] at hwr
    split at hwr <;> omega
  rw [hlen, Nat.add_zero] at hwr
  rcases h.rd_lt with hrd | hrd
  · rw [Nat.mod_eq_of_lt hrd] at hwr
    omega
  · rw [hrd, Nat.zero_mod] at hwr
    omega

theorem Holds.roomInBuf :
    q.roomInBuf + unread.flatten.length = q.qSz := by
  unfold Queue.roomInBuf
  rcases h.wr_cases with hc | hc
  · rw [if_pos (by omega)]
    omega
  · rw [if_neg (by omega)]
    omega

theorem Holds.not_pastEnd : ¬q.PastEnd := by
  unfold Queue.PastEnd
  rcases h.wr_cases with hc | hc <;> omega

theorem Holds.rd_eq_wr_iff :
    q.rdPtr = q.wrPtr ↔ unread.flatten.length = 0 := by
  rcases h.wr_cases with hc | hc <;> omega

theorem Holds.unread_eq : q.unread = unread.flatten := by
  have hoff : off q.qSz q.rdPtr q.wrPtr = unread.flatten.length := by
    rcases h.len_lt with hlen | hlen
    · apply off_unique hlen
      rw [h.wr_eq]
      exact (Nat.mod_modEq _ _).symm
    have heq := h.rd_eq_wr_iff.mpr hlen
    rcases Nat.eq_zero_or_pos q.qSz with hzero | hpos
    · have hwr : q.wrPtr = 0 := by
        have hrd := h.rd_lt
        omega
      rw [hlen, hwr, hzero]
      simp [off]
    · rw [hlen, ← heq, off_self hpos]
  rw [Queue.unread, between, hoff, h.bytes]

end

theorem handleSapRx_eq {u u' : List (List UInt8)} (hq : q.qSz + 65536 ≤ 2 ^ 32)
    (h : Holds q (u ++ u')) (hread : ∀ m ∈ u, Readable r m) (hpos : 0 < u.flatten.length) :
    handleSapRx r q q.rdPtr ((q.rdPtr + u.flatten.length) % q.qSz) = u.filterMap r.take := by
  have hlen := h.len_lt
  rw [flatten_append, length_append] at hlen
  have hrd : q.rdPtr < q.qSz := by
    rcases h.rd_lt with hrd | hrd <;> omega
  have hvalid : (if (q.rdPtr + u.flatten.length) % q.qSz > q.rdPtr then
        (q.rdPtr + u.flatten.length) % q.qSz - q.rdPtr
      else q.qSz - q.rdPtr + (q.rdPtr + u.flatten.length) % q.qSz) = u.flatten.length := by
    rw [add_mod_eq hrd (by omega)]
    split <;> split <;> omega
  have hbytes := h.bytes
  rw [flatten_append, length_append, contents_add] at hbytes
  obtain ⟨hu, -⟩ := append_inj hbytes (by simp)
  rw [handleSapRx]
  simp only [hvalid]
  exact Reader.loop_eq hq u hread hrd.le le_rfl (by omega) hu

theorem flatten_pos {u : List (List UInt8)} (hread : ∀ m ∈ u, Readable r m) (hne : u ≠ []) :
    0 < u.flatten.length := by
  obtain ⟨m, u, rfl⟩ := exists_cons_of_ne_nil hne
  have hm := (hread m (by simp)).hdr
  rw [flatten_cons, length_append]
  omega

/-- **What is there to be read** are the messages that the ring holds. -/
theorem available_eq (hq : q.qSz + 65536 ≤ 2 ^ 32) (h : Holds q unread)
    (hread : ∀ m ∈ unread, Readable r m) : available r q = unread.filterMap r.take := by
  rw [available, Queue.snapshot, if_neg h.not_pastEnd]
  by_cases heq : q.rdPtr = q.wrPtr
  · have hnil : unread = [] := by
      by_contra hne
      have hpos := flatten_pos hread hne
      rw [h.rd_eq_wr_iff] at heq
      omega
    rw [if_pos heq, hnil]
    rfl
  · rw [if_neg heq]
    have hpos : 0 < unread.flatten.length := by
      rw [h.rd_eq_wr_iff] at heq
      omega
    have hall : Holds q (unread ++ []) := by
      rwa [append_nil]
    rw [h.wr_eq]
    exact handleSapRx_eq hq hall hread hpos

theorem Holds.put (h : Holds q unread) {bytes : List UInt8}
    (hfit : unread.flatten.length + bytes.length < q.qSz) :
    Holds (q.put q.wrPtr bytes) (unread ++ [bytes]) := by
  have hpos : 0 < q.qSz := by omega
  have hwr : q.wrPtr < q.qSz := by
    rw [h.wr_eq]
    exact Nat.mod_lt _ hpos
  have hflat : (unread ++ [bytes]).flatten = unread.flatten ++ bytes := by simp
  constructor
  · exact h.rd_lt
  · left
    rwa [hflat, length_append]
  · rw [hflat, length_append, ← Nat.add_assoc]
    show (q.wrPtr + bytes.length) % q.qSz = _
    rw [h.wr_eq, Nat.mod_add_mod]
    rfl
  rw [hflat, length_append, contents_add]
  dsimp only [Queue.put]
  set mem := copyIn q.qSz q.mem q.wrPtr bytes with hmem
  have hnew : contents q.qSz mem q.wrPtr bytes.length = bytes := contents_copyIn hwr (by omega)
  have hold : contents q.qSz mem q.rdPtr unread.flatten.length =
      contents q.qSz q.mem q.rdPtr unread.flatten.length := by
    rw [hmem, h.wr_eq]
    exact contents_copyIn_before hfit.le hpos
  rw [hold, h.bytes, ← contents_mod (dvd_refl _), ← h.wr_eq, hnew]

theorem Holds.read {u u' : List (List UInt8)} (h : Holds q (u ++ u'))
    (hpos : 0 < u.flatten.length) :
    Holds { q with rdPtr := (q.rdPtr + u.flatten.length) % q.qSz } u' := by
  have hlen := h.len_lt
  have hwr := h.wr_eq
  have hbytes := h.bytes
  rw [flatten_append, length_append] at hlen hwr hbytes
  rw [contents_add] at hbytes
  obtain ⟨-, hu'⟩ := append_inj hbytes (by simp)
  constructor
  · left
    exact Nat.mod_lt _ (by omega)
  · dsimp only
    omega
  · rw [hwr, ← Nat.add_assoc, Nat.mod_add_mod]
  · rw [contents_mod (dvd_refl _), hu']

end holds

/-! ### Steps -/

section steps
variable {r : Reader γ} {s s' : State γ} {done unread : List (List UInt8)}

/-- The accepted messages are those that the reader is done with and those that the ring holds. -/
structure Inv (r : Reader γ) (s : State γ) (done unread : List (List UInt8)) : Prop where
  holds : Holds s.queue unread
  readable : ∀ m ∈ unread, Readable r m
  accepted : s.accepted = done ++ unread
  obtained : s.obtained = done.filterMap r.take
  /-- A writer that has started still has its room. -/
  writer : ∀ p, s.writer = some p → p.1 = s.queue.wrPtr ∧
    unread.flatten.length + p.2.length ≤ s.queue.qSz ∧ Framing p.2
  /-- A reader that has started was given messages that are still there. -/
  reader : ∀ p, s.reader = some p → p.1 = s.queue.rdPtr ∧ ∃ u u', unread = u ++ u' ∧
    0 < u.flatten.length ∧ p.2 = (s.queue.rdPtr + u.flatten.length) % s.queue.qSz

theorem inv_init (qSz : ℕ) (mem : Mem) : Inv r (State.init qSz mem) [] [] where
  holds :=
    { rd_lt := Or.inr rfl
      len_lt := Or.inr rfl
      wr_eq := (Nat.zero_mod qSz).symm
      bytes := rfl }
  readable := by simp
  accepted := rfl
  obtained := rfl
  writer := nofun
  reader := nofun

theorem inv_write {w : Write} {p : ℕ × List UInt8} (h : Inv r s done unread)
    (hp : w.start s.queue = .ok p) : Inv r { s with writer := some p } done unread := by
  obtain ⟨hwr, hroom, hframing⟩ := Write.start_ok hp
  refine { h with writer := ?_ }
  intro p' hp'
  cases hp'
  have heq := h.holds.roomInBuf
  exact ⟨hwr, by dsimp only; omega, hframing⟩

theorem pending_iff {p : ℕ × List UInt8} (h : Inv r s done unread) (hp : s.writer = some p) :
    (s.queue.put p.1 p.2).wrPtr ≠ (s.queue.put p.1 p.2).rdPtr ↔
      p.2.length < s.queue.roomInBuf := by
  obtain ⟨hwr, hfit, hframing⟩ := h.writer p hp
  have h8 := hframing.1
  have hroom := h.holds.roomInBuf
  have hrd : s.queue.rdPtr < s.queue.qSz := by
    rcases h.holds.rd_lt with hrd | hrd <;> omega
  show (p.1 + p.2.length) % s.queue.qSz ≠ s.queue.rdPtr ↔ _
  rw [hwr, h.holds.wr_eq, Nat.mod_add_mod, Nat.add_assoc]
  rcases Nat.lt_or_ge (unread.flatten.length + p.2.length) s.queue.qSz with hlt | hge
  · rw [add_mod_eq hrd hlt]
    split <;> omega
  · have hfull : unread.flatten.length + p.2.length = s.queue.qSz := by omega
    rw [hfull, Nat.add_mod_right, Nat.mod_eq_of_lt hrd]
    omega

theorem inv_commit {p : ℕ × List UInt8} (h : Inv r s done unread) (hp : s.writer = some p)
    (hbyte : p.2.length < s.queue.roomInBuf) (hsize : p.2.length < 65536 + 8)
    (htake : r.tooBig (p.2.length - 8) = false) :
    Inv r { s with
      queue := s.queue.put p.1 p.2
      writer := none
      accepted := s.accepted ++ [p.2] } done (unread ++ [p.2]) := by
  obtain ⟨hwr, -, hframing⟩ := h.writer p hp
  have hroom := h.holds.roomInBuf
  constructor
  · rw [hwr]
    exact h.holds.put (by omega)
  · refine forall_mem_append.mpr ⟨h.readable, forall_mem_singleton.mpr ?_⟩
    have hlt : p.2.length - 8 < 65536 := by
      have h8 := hframing.1
      omega
    exact ⟨hframing.1, hframing.2.trans (Nat.mod_eq_of_lt hlt), hlt, htake⟩
  · show s.accepted ++ [p.2] = done ++ (unread ++ [p.2])
    rw [h.accepted, append_assoc]
  · exact h.obtained
  · exact nofun
  · intro p' hp'
    obtain ⟨hrd, u, u', hu, hpos, heq⟩ := h.reader p' hp'
    refine ⟨hrd, u, u' ++ [p.2], ?_, hpos, heq⟩
    rw [hu, append_assoc]

theorem inv_rxBegin (h : Inv r s done unread) :
    Inv r { s with reader := s.queue.snapshot } done unread := by
  refine { h with reader := ?_ }
  intro p hp
  rw [Queue.snapshot, if_neg h.holds.not_pastEnd] at hp
  split at hp
  · cases hp
  rename_i hne
  cases hp
  rw [h.holds.rd_eq_wr_iff] at hne
  exact ⟨rfl, unread, [], (append_nil _).symm, Nat.pos_of_ne_zero hne, h.holds.wr_eq⟩

theorem inv_rxEnd {p : ℕ × ℕ} (hq : s.queue.qSz + 65536 ≤ 2 ^ 32) (h : Inv r s done unread)
    (hp : s.reader = some p) : ∃ done unread,
    Inv r { s with
      queue := { s.queue with rdPtr := p.2 }
      reader := none
      obtained := s.obtained ++ handleSapRx r s.queue p.1 p.2 } done unread := by
  obtain ⟨hrd, u, u', hu, hpos, hwr⟩ := h.reader p hp
  have hholds := h.holds
  have hread := h.readable
  rw [hu] at hholds hread
  refine ⟨done ++ u, u', ?_⟩
  constructor
  · rw [hwr]
    exact hholds.read hpos
  · exact fun m hm => hread m (mem_append_right u hm)
  · show s.accepted = done ++ u ++ u'
    rw [h.accepted, hu, append_assoc]
  · show s.obtained ++ handleSapRx r s.queue p.1 p.2 = (done ++ u).filterMap r.take
    rw [h.obtained, hrd, hwr, handleSapRx_eq hq hholds (fun m hm => hread m (mem_append_left u' hm))
      hpos, filterMap_append]
  · intro p' hp'
    obtain ⟨hwr', hfit, hframing⟩ := h.writer p' hp'
    refine ⟨hwr', ?_, hframing⟩
    rw [hu, flatten_append, length_append] at hfit
    dsimp only
    omega
  · exact nofun

def Ok (r : Reader γ) (qSz : ℕ) (s : State γ) : Prop :=
  s.queue.qSz = qSz ∧ ∃ done unread, Inv r s done unread

variable {qSz : ℕ} {act : Act} {out : Option WriteError}

theorem ok_step (hq : qSz + 65536 ≤ 2 ^ 32) (h : step r s act = some (out, s'))
    (hframed : Framed r ⟨s, act, out, s'⟩) (hbyte : LeavesByte ⟨s, act, out, s'⟩)
    (hok : Ok r qSz s) : Ok r qSz s' := by
  obtain ⟨rfl, done, unread, hinv⟩ := hok
  cases act with
  | write w =>
    rw [step] at h
    split at h
    · cases h
    split at h <;> cases h
    · exact ⟨rfl, done, unread, hinv⟩
    next p hp => exact ⟨rfl, done, unread, inv_write hinv hp⟩
  | commit =>
    rw [step] at h
    split at h
    · cases h
    rename_i wr bytes hp
    cases h
    obtain ⟨hsize, htake⟩ := hframed rfl _ hp
    exact ⟨rfl, done, unread ++ [bytes], inv_commit hinv hp (hbyte rfl _ hp) hsize htake⟩
  | rxBegin =>
    rw [step] at h
    split at h <;> cases h
    exact ⟨rfl, done, unread, inv_rxBegin hinv⟩
  | rxEnd =>
    rw [step] at h
    split at h <;> cases h
    next rd wr hp => exact ⟨rfl, inv_rxEnd hq hinv hp⟩

theorem leavesByte_iff (h : step r s act = some (out, s')) (hok : Ok r qSz s) :
    LeavesByte ⟨s, act, out, s'⟩ ↔ (act = .commit → s'.queue.wrPtr ≠ s'.queue.rdPtr) := by
  obtain ⟨-, done, unread, hinv⟩ := hok
  constructor
  · rintro hbyte rfl
    rw [step] at h
    split at h <;> cases h
    next wr bytes hp => exact (pending_iff hinv hp).mpr (hbyte rfl _ hp)
  · rintro hpend rfl p hp
    have hp : s.writer = some p := hp
    simp only [step, hp, Option.some.injEq, Prod.mk.injEq] at h
    obtain ⟨-, rfl⟩ := h
    exact (pending_iff hinv hp).mp (hpend rfl)

theorem pending_of_ne {q : Queue} (h : q.wrPtr ≠ q.rdPtr) (other : Queue) :
    hostToMeDataPending q other = true ∧ hostToMeDataPending other q = true := by
  simp [hostToMeDataPending, h]

theorem fifo_step (hq : qSz + 65536 ≤ 2 ^ 32) (h : step r s act = some (out, s'))
    (hframed : Framed r ⟨s, act, out, s'⟩) (hbyte : LeavesByte ⟨s, act, out, s'⟩)
    (hok : Ok r qSz s) : Fifo r ⟨s, act, out, s'⟩ := by
  obtain ⟨hsz, done', unread', hinv'⟩ := ok_step hq h hframed hbyte hok
  have hpend := (leavesByte_iff h hok).mp hbyte
  obtain ⟨-, done, unread, hinv⟩ := hok
  refine ⟨?_, fun hact => pending_of_ne (hpend hact), ?_⟩
  · rw [available_eq (by omega) hinv'.holds hinv'.readable, hinv'.obtained, hinv'.accepted,
      filterMap_append]
  rintro rfl
  rw [step] at h
  split at h
  · cases h
  rename_i wr bytes hp
  cases h
  obtain ⟨hwr, -⟩ := hinv.writer _ hp
  have hroom := hinv.holds.roomInBuf
  have hlt : bytes.length < s.queue.roomInBuf := hbyte rfl _ hp
  have hput : Holds (s.queue.put s.queue.wrPtr bytes) (unread ++ [bytes]) :=
    hinv.holds.put (by omega)
  dsimp only at hwr ⊢
  rw [hinv.holds.unread_eq, hwr, hput.unread_eq, flatten_append]
  exact prefix_append ..

end steps

/-! ### Whole runs -/

/-- **The ring is a FIFO queue if and only if it is never filled up**: if the lengths of the
messages fit in their headers and the reader takes them, every step is FIFO if and only if every
message that is written leaves a byte free. -/
theorem sap_ring_fifo_iff (r : Reader γ) {qSz : ℕ} (hq : qSz + 65536 ≤ 2 ^ 32) (mem : Mem)
    {ls : List (Label (State γ) Act (Option WriteError))} {s' : State γ}
    (hrun : Run (step r) (State.init qSz mem) ls s') (hframed : ∀ l ∈ ls, Framed r l) :
    (∀ l ∈ ls, LeavesByte l) ↔ ∀ l ∈ ls, Fifo r l := by
  have hinit : Ok r qSz (State.init qSz mem) := ⟨rfl, [], [], inv_init qSz mem⟩
  constructor
  · intro hbyte l hl
    obtain ⟨-, hall⟩ := hrun.induct (C := fun l => Framed r l ∧ LeavesByte l)
      (fun _ _ _ _ hstep hc hok => ok_step hq hstep hc.1 hc.2 hok)
      (fun l hl => ⟨hframed l hl, hbyte l hl⟩) hinit
    obtain ⟨hstep, hok, -⟩ := hall l hl
    exact fifo_step hq hstep (hframed l hl) (hbyte l hl) hok
  · -- a step that is FIFO leaves a byte free, which carries the invariant on
    have hfree : ∀ l : Label (State γ) Act (Option WriteError),
        step r l.pre l.act = some (l.out, l.post) → Ok r qSz l.pre → Fifo r l → LeavesByte l := by
      intro l hstep hok hfifo
      apply (leavesByte_iff hstep hok).mpr
      intro hact heq
      have hpend := (hfifo.pending hact ⟨0, mem, 0, 0⟩).1
      simp [hostToMeDataPending, heq] at hpend
    intro hfifo l hl
    obtain ⟨-, hall⟩ := hrun.induct (C := fun l => Framed r l ∧ Fifo r l)
      (fun s a b s' hstep hc hok =>
        ok_step hq hstep hc.1 (hfree ⟨s, a, b, s'⟩ hstep hok hc.2) hok)
      (fun l hl => ⟨hframed l hl, hfifo l hl⟩) hinit
    obtain ⟨hstep, hok, -⟩ := hall l hl
    exact hfree l hstep hok (hfifo l hl)

def message (seqNum : ℕ) (payload : List UInt8) (h : payload.length < 65536) : Write :=
  .msg ⟨1, seqNum, payload, h⟩

/-- Two messages and a packet on a ring of 48 bytes, the last one in two pieces.  A write that has
started before the reader ends after it. -/
def mixedActs : List Act :=
  [.write (message 1 (List.replicate 12 5) (by decide)), .commit,
    .write (message 2 (List.replicate 8 6) (by decide)), .rxBegin, .commit, .rxEnd,
    .write (.data ⟨List.replicate 14 7, 8⟩ false 3), .commit, .rxBegin, .rxEnd]

theorem sap_ring_fifo_iff_mixed :
    ∃ res, execute (step Reader.whole) (State.init 48 fun _ => 0) mixedActs = some res ∧
      res.2.accepted.map List.length = [20, 16, 22] ∧ res.2.obtained = res.2.accepted ∧
      ∀ l ∈ res.1, Fifo Reader.whole l := by
  obtain ⟨res, hres, hlen, hall, hframed, hbyte⟩ : ∃ res,
      execute (step Reader.whole) (State.init 48 fun _ => 0) mixedActs = some res ∧
      res.2.accepted.map List.length = [20, 16, 22] ∧ res.2.obtained = res.2.accepted ∧
      (∀ l ∈ res.1, Framed Reader.whole l) ∧ ∀ l ∈ res.1, LeavesByte l :=
    by decide +kernel
  exact ⟨res, hres, hlen, hall,
    (sap_ring_fifo_iff Reader.whole (by decide) _ (execute_run hres).1 hframed).mp hbyte⟩

/-- An empty ring of 16 bytes accepts 16 bytes, but is then seen as empty: the reader gets nothing.
-/
def SeenEmpty (w : Write) : Prop :=
  ∃ res, execute (step Reader.whole) (State.init 16 fun _ => 0) [.write w, .commit, .rxBegin] =
      some res ∧
    res.2.accepted.map List.length = [16] ∧
    hostToMeDataPending res.2.queue res.2.queue = false ∧
    available Reader.whole res.2.queue = [] ∧ res.2.reader = none

/-- A message, and a packet, that fill the ring exactly. -/
theorem full_ring_seen_empty :
    SeenEmpty (message 1 (List.replicate 8 5) (by decide)) ∧
      SeenEmpty (.data ⟨List.replicate 8 5, 8⟩ false 1) := by
  unfold SeenEmpty
  decide +kernel

end Iwlwifi.Mei
