import Iwlwifi.Access
import Iwlwifi.BitSet
import Iwlwifi.Memory

/-! # Traffic indication map

A model of how an access point announces buffered frames in its beacons (`net/mac80211/tx.c`), and
of how a station looks for its own bit (`include/linux/ieee80211.h`, `ieee80211-s1g.h`).

* **Element** (`beaconAddTim`): the bitmap without its zero bytes at both ends; on S1G, the blocks
  of 64 stations with the bytes in them that are not zero (`s1gAddTimPvb`).
* **Look-up** (`checkTim`, `s1gCheckTim`).
* `s1g_check_tim_decodes`: on S1G the look-up in any element is that in a reference decoding of its
  encoded blocks (`decodeBlocks`).
* `tim_roundtrip`: with a station in power save, every association ID reads its own bit;
  `tim_not_announced`: without one, no bit is announced.

A bitmap is a function from positions to bytes.  It is tested for emptiness by words, which on a
little-endian machine is the same as by bytes. -/

namespace Iwlwifi.Ieee80211.Tim

open Memory BitSet Access List

/-- The bit of an association ID, as `__bss_tim_set` places it. -/
def bssTimGet (tim : Mem) (id : ℕ) : Bool := (tim (id / 8)).toNat.testBit (id % 8)

/-! ### Writing the element -/

/-- `IEEE80211_MAX_AID`. -/
def maxAid : ℕ := 2007

/-- `IEEE80211_MAX_TIM_LEN`. -/
def maxTimLen : ℕ := 251

/-- `IEEE80211_MAX_SUPPORTED_S1G_TIM_BLOCKS`. -/
def maxS1gTimBlocks : ℕ := 25

/-- `struct ps_data`.  Of the queue `bc_buf` only matters whether it is empty. -/
structure PsData where
  tim : Mem
  bcBufEmpty : Bool
  numStaPs : ℤ
  dtimCount : ℤ
  dtimBcMc : Bool

/-- What an `int` becomes in `skb_put_u8`. -/
def u8 (i : ℤ) : UInt8 := UInt8.ofNat (i % 256).toNat

/-- `bitmap_empty`. -/
def bitmapEmpty (tim : Mem) (nbits : ℕ) : Bool := (List.range nbits).all fun id => !bssTimGet tim id

/-- The first loop of `ieee80211_beacon_add_tim_pvb`. -/
def firstOctet (tim : Mem) : ℕ :=
  match (List.range maxTimLen).find? fun i => tim i != 0 with
  | some i => i &&& 0xfe
  | none => 0

/-- The second loop of `ieee80211_beacon_add_tim_pvb`, from the end down to `n1`. -/
def lastOctet (tim : Mem) (n1 : ℕ) : ℕ :=
  match (List.range' n1 (maxTimLen - n1)).reverse.find? fun i => tim i != 0 with
  | some i => i
  | none => n1

/-- `ieee80211_beacon_add_tim_pvb`. -/
def addTimPvb (tim : Mem) (mcastTraffic : Bool) : List UInt8 :=
  let n1 := firstOctet tim
  let n2 := lastOctet tim n1
  UInt8.ofNat (n1 ||| mcastTraffic.toNat) :: load tim n1 (n2 - n1 + 1)

def blkBmap (tim : Mem) (blk : ℕ) : ℕ := ofPred (fun sblk => tim (blk * 8 + sblk) != 0) 8

/-- One iteration of the loop of `ieee80211_s1g_beacon_add_tim_pvb`. -/
def s1gEncodedBlock (tim : Mem) (blk : ℕ) : List UInt8 :=
  if blkBmap tim blk = 0 then []
  else
    UInt8.ofNat (blk <<< 3) :: UInt8.ofNat (blkBmap tim blk) ::
      ((List.range 8).filter fun sblk => (blkBmap tim blk).testBit sblk).map fun sblk =>
        tim (blk * 8 + sblk)

/-- `ieee80211_s1g_beacon_add_tim_pvb`. -/
def s1gAddTimPvb (tim : Mem) (mcastTraffic ucastTraffic : Bool) : List UInt8 :=
  if !mcastTraffic && !ucastTraffic then []
  else
    -- page slice number 31, page index 0
    UInt8.ofNat (mcastTraffic.toNat ||| (31 <<< 1)) ::
      if !ucastTraffic then []
      else (List.range maxS1gTimBlocks).flatMap (s1gEncodedBlock tim)

/-- `__ieee80211_beacon_add_tim`: the new state, and the element without its header. -/
def beaconAddTimData (ps : PsData) (dtimPeriod : UInt8) (s1g isTemplate : Bool) :
    PsData × List UInt8 :=
  let haveBits := 0 < ps.numStaPs && !bitmapEmpty ps.tim (maxAid + 1)
  let dtimCount :=
    if isTemplate then ps.dtimCount
    else if ps.dtimCount = 0 then (dtimPeriod.toNat : ℤ) - 1
    else ps.dtimCount - 1
  let mcastTraffic := dtimCount = 0 && !ps.bcBufEmpty
  let pvb :=
    if s1g then s1gAddTimPvb ps.tim mcastTraffic haveBits
    else if haveBits then addTimPvb ps.tim mcastTraffic
    else [UInt8.ofNat mcastTraffic.toNat, 0]
  ({ ps with dtimCount, dtimBcMc := mcastTraffic }, u8 dtimCount :: dtimPeriod :: pvb)

/-- `__ieee80211_beacon_add_tim`: the new state, and the bytes that are appended to the beacon. -/
def beaconAddTim (ps : PsData) (dtimPeriod : UInt8) (s1g isTemplate : Bool) :
    PsData × List UInt8 :=
  let (ps, data) := beaconAddTimData ps dtimPeriod s1g isTemplate
  -- WLAN_EID_TIM
  (ps, 5 :: UInt8.ofNat data.length :: data)

/-! ### Looking up a bit -/

section check
variable (mem : Mem)

/-- `__ieee80211_check_tim`, for an element with the data at 0. -/
def checkTimBitmap (timLen aid : ℕ) : Access Bool :=
  if timLen < 4 then pure false
  else do
    let aid := aid &&& 0x3fff
    let index := aid / 8 % 256
    let bitmapCtrl ← byteAt mem 2
    let indexn1 := bitmapCtrl.toNat &&& 0xfe
    let indexn2 := (timLen + indexn1 + (256 - 4)) % 256
    if index < indexn1 ∨ indexn2 < index then pure false
    else do
      let octet ← byteAt mem (3 + (index - indexn1))
      pure (octet.toNat.testBit (aid % 8))

/-- `struct s1g_tim_aid`. -/
structure S1gTimAid where
  aid : ℕ
  targetBlk : ℕ
  targetSubblk : ℕ
  targetSubblkBit : ℕ

/-- The encoding modes; 3 is not supported. -/
inductive EncMode
  | block | single | olb

/-- `struct s1g_tim_enc_block`; its length is not used. -/
structure S1gTimEncBlock where
  encMode : EncMode
  inverse : Bool
  ptr : ℕ
  olbBlkOffset : ℕ

inductive Errno
  | einval | eopnotsupp | enoent

/-- `hweight8`. -/
def hweight8 (x : ℕ) : ℕ := weight 8 x

/-- `ieee80211_s1g_len_bitmap`; `none` is `-EINVAL`. -/
def s1gLenBitmap (ptr fin : ℕ) : Access (Option ℕ) :=
  if fin ≤ ptr then pure none
  else do
    let blkmap ← byteAt mem ptr
    let nSubblks := hweight8 blkmap.toNat
    if fin < ptr + 1 + nSubblks then pure none else pure (some (1 + nSubblks))

/-- `ieee80211_s1g_len_single`. -/
def s1gLenSingle (ptr fin : ℕ) : Option ℕ := if fin < ptr + 1 then none else some 1

/-- `ieee80211_s1g_len_olb`. -/
def s1gLenOlb (ptr fin : ℕ) : Access (Option ℕ) :=
  if fin ≤ ptr then pure none
  else do
    let len ← byteAt mem ptr
    if fin < ptr + 1 + len.toNat then pure none else pure (some (1 + len.toNat))

/-- The switch of `ieee80211_s1g_find_target_block`: the mode, the length of the encoded block
behind its control octet, and whether it contains the target. -/
def s1gSwitch (mode blkOff : ℕ) (aid : S1gTimAid) (ptr fin : ℕ) :
    Access (Option (EncMode × Option ℕ × Bool)) :=
  match mode with
  | 0 => do
    let len ← s1gLenBitmap mem ptr fin
    pure (some (.block, len, blkOff == aid.targetBlk))
  | 1 => pure (some (.single, s1gLenSingle ptr fin, blkOff == aid.targetBlk))
  | 2 => do
    let len ← s1gLenOlb mem ptr fin
    -- minus one for the length octet
    let span := (len.getD 1 - 1 + 7) / 8
    pure (some (.olb, len, blkOff ≤ aid.targetBlk && aid.targetBlk < blkOff + span))
  | _ => pure none

/-- `ieee80211_s1g_find_target_block`.  An iteration consumes an octet at least, so that the length
of the element bounds the number of iterations. -/
def s1gFindTargetBlock (aid : S1gTimAid) (fin : ℕ) : ℕ → ℕ → Access (Except Errno S1gTimEncBlock)
  | 0, _ => pure (.error .enoent)
  | n + 1, ptr =>
    if fin < ptr + 1 then pure (.error .enoent)
    else do
      let ctrl ← byteAt mem ptr
      let ptr := ptr + 1
      let inverse := ctrl.toNat.testBit 2
      let blkOff := ctrl.toNat >>> 3
      let block ← s1gSwitch mem (ctrl.toNat % 4) blkOff aid ptr fin
      match block with
      | none => pure (.error .eopnotsupp)
      | some (_, none, _) => pure (.error .einval)
      | some (encMode, some len, contains) =>
        if contains then pure (.ok ⟨encMode, inverse, ptr, blkOff⟩)
        else s1gFindTargetBlock aid fin n (ptr + len)

/-- `ieee80211_s1g_parse_bitmap`. -/
def s1gParseBitmap (enc : S1gTimEncBlock) (aid : S1gTimAid) : Access Bool := do
  let blkmap ← byteAt mem enc.ptr
  if !blkmap.toNat.testBit aid.targetSubblk then pure enc.inverse
  else do
    let before :=
      if aid.targetSubblk = 0 then 0 else hweight8 (blkmap.toNat % 2 ^ aid.targetSubblk)
    let octet ← byteAt mem (enc.ptr + 1 + before)
    pure (octet.toNat.testBit aid.targetSubblkBit ^^ enc.inverse)

/-- `ieee80211_s1g_parse_single`. -/
def s1gParseSingle (enc : S1gTimEncBlock) (aid : S1gTimAid) : Access Bool := do
  let octet ← byteAt mem enc.ptr
  pure ((octet.toNat % 64 == aid.aid % 64) ^^ enc.inverse)

/-- `ieee80211_s1g_parse_olb`. -/
def s1gParseOlb (enc : S1gTimEncBlock) (aid : S1gTimAid) : Access Bool := do
  let blkLen ← byteAt mem enc.ptr
  let spanOffset := aid.targetBlk - enc.olbBlkOffset
  let subblkIdx := spanOffset * 8 + aid.targetSubblk
  if blkLen.toNat ≤ subblkIdx then pure enc.inverse
  else do
    let octet ← byteAt mem (enc.ptr + 1 + subblkIdx)
    pure (octet.toNat.testBit aid.targetSubblkBit ^^ enc.inverse)

def s1gTarget (aid : ℕ) : S1gTimAid :=
  { aid, targetBlk := (aid >>> 6) % 32, targetSubblk := (aid >>> 3) % 8, targetSubblkBit := aid % 8 }

/-- `ieee80211_s1g_check_tim`, for an element with the data at 0. -/
def s1gCheckTim (timLen aid : ℕ) : Access Bool :=
  if timLen < 3 then pure false
  else do
    let enc ← s1gFindTargetBlock mem (s1gTarget aid) timLen timLen 3
    match enc with
    | .error _ => pure false
    | .ok enc =>
      match enc.encMode with
      | .block => s1gParseBitmap mem enc (s1gTarget aid)
      | .single => s1gParseSingle mem enc (s1gTarget aid)
      | .olb => s1gParseOlb mem enc (s1gTarget aid)

/-- `ieee80211_check_tim`. -/
def checkTim (timLen aid : ℕ) (s1g : Bool) : Access Bool :=
  if s1g then s1gCheckTim mem timLen aid else checkTimBitmap mem timLen aid

end check

/-! ### The trimmed bitmap -/

variable {tim mem : Mem} {n1 : ℕ}

theorem bssTimGet_of_octet_zero {id : ℕ} (h : tim (id / 8) = 0) : bssTimGet tim id = false := by
  simp [bssTimGet, h]

theorem bitmapCtrl_facts : ∀ i < maxTimLen, ∀ mcast : Bool,
    (i &&& 0xfe) ||| mcast.toNat < 256 ∧
      ((i &&& 0xfe) ||| mcast.toNat) &&& 0xfe = i &&& 0xfe ∧ i &&& 0xfe ≤ i := by
  decide +kernel

theorem firstOctet_spec (tim : Mem) :
    ∃ i < maxTimLen, firstOctet tim = i &&& 0xfe ∧ firstOctet tim < maxTimLen ∧
      ∀ j < firstOctet tim, tim j = 0 := by
  cases hfind : (List.range maxTimLen).find? fun i => tim i != 0 with
  | none =>
    have hzero : firstOctet tim = 0 := by rw [firstOctet, hfind]
    rw [hzero]
    exact ⟨0, by decide, rfl, by decide, nofun⟩
  | some i =>
    obtain ⟨-, hi, hbefore⟩ := List.find?_range_eq_some.mp hfind
    have hfirst : firstOctet tim = i &&& 0xfe := by rw [firstOctet, hfind]
    have hlt := mem_range.mp hi
    have hle := (bitmapCtrl_facts i hlt false).2.2
    rw [hfirst]
    refine ⟨i, hlt, rfl, hle.trans_lt hlt, fun j hj => ?_⟩
    simpa using hbefore j (hj.trans_le hle)

theorem lastOctet_spec (tim : Mem) (hn1 : n1 < maxTimLen) :
    n1 ≤ lastOctet tim n1 ∧ lastOctet tim n1 < maxTimLen ∧
      ∀ j < maxTimLen, lastOctet tim n1 < j → tim j = 0 := by
  have hmem : ∀ j, j ∈ (List.range' n1 (maxTimLen - n1)).reverse ↔ n1 ≤ j ∧ j < maxTimLen := by
    intro j
    rw [mem_reverse, mem_range'_1]
    omega
  cases hfind : (List.range' n1 (maxTimLen - n1)).reverse.find? fun i => tim i != 0 with
  | none =>
    have hlast : lastOctet tim n1 = n1 := by rw [lastOctet, hfind]
    rw [hlast]
    refine ⟨le_rfl, hn1, fun j hj hlt => ?_⟩
    simpa using List.find?_eq_none.mp hfind j ((hmem j).mpr ⟨hlt.le, hj⟩)
  | some i =>
    have hlast : lastOctet tim n1 = i := by rw [lastOctet, hfind]
    rw [hlast]
    obtain ⟨-, before, after, hsplit, hbefore⟩ := List.find?_eq_some_iff_append.mp hfind
    have hi : n1 ≤ i ∧ i < maxTimLen := (hmem i).mp (by rw [hsplit]; simp)
    refine ⟨hi.1, hi.2, fun j hj hlt => ?_⟩
    -- the list is descending, so what is above `i` has been tested before
    have hsorted : (before ++ i :: after).Pairwise (· > ·) := by
      rw [← hsplit, pairwise_reverse]
      exact pairwise_lt_range'
    have hj' : j ∈ before ++ i :: after := by
      rw [← hsplit, hmem]
      exact ⟨hi.1.trans hlt.le, hj⟩
    rcases mem_append.mp hj' with hj' | hj'
    · simpa using hbefore j hj'
    have hafter := (pairwise_append.mp hsorted).2.1
    rcases mem_cons.mp hj' with rfl | hj'
    · exact absurd hlt (lt_irrefl j)
    · exact absurd (rel_of_pairwise_cons hafter hj') hlt.not_gt

theorem and_0x3fff {aid : ℕ} (h : aid ≤ maxAid) : aid &&& 0x3fff = aid := by
  have hmod := Nat.and_two_pow_sub_one_eq_mod aid 14
  rwa [Nat.mod_eq_of_lt (h.trans_lt (by decide))] at hmod

/-- **Look-up in a trimmed bitmap**: octets `n1` to `n2` of the bitmap behind a control octet. -/
theorem checkTimBitmap_trimmed {i n2 len aid : ℕ} {mcast : Bool} (hi : i < maxTimLen)
    (hn1 : n1 = i &&& 0xfe) (hn2 : n1 ≤ n2) (hmax : n2 < maxTimLen) (hlen : len = n2 - n1 + 4)
    (hctrl : mem 2 = UInt8.ofNat (n1 ||| mcast.toNat))
    (hmap : load mem 3 (n2 - n1 + 1) = load tim n1 (n2 - n1 + 1))
    (hbefore : ∀ j < n1, tim j = 0) (hafter : ∀ j < maxTimLen, n2 < j → tim j = 0)
    (haid : aid ≤ maxAid) :
    (checkTimBitmap mem len aid).val = bssTimGet tim aid ∧
      Within len (checkTimBitmap mem len aid) := by
  obtain ⟨hlt, hand, -⟩ := bitmapCtrl_facts i hi mcast
  have hctrl' : (mem 2).toNat &&& 0xfe = n1 := by
    rw [hctrl, hn1, UInt8.toNat_ofNat_of_lt' hlt, hand]
  have hidx : aid / 8 < maxTimLen := by
    unfold maxTimLen
    unfold maxAid at haid
    omega
  unfold maxTimLen at hmax hidx hafter
  have hmod : aid / 8 % 256 = aid / 8 := Nat.mod_eq_of_lt (by omega)
  have hend : (len + n1 + (256 - 4)) % 256 = n2 := by omega
  have hlen4 : ¬ len < 4 := by omega
  unfold checkTimBitmap
  simp only [if_neg hlen4, and_0x3fff haid, val_bind, val_byteAt, hctrl', hmod, hend, within_bind,
    within_byteAt]
  split
  · -- the octet has been trimmed
    rename_i hout
    have hzero : tim (aid / 8) = 0 := by
      rcases hout with h | h
      · exact hbefore _ h
      · exact hafter _ hidx h
    refine ⟨?_, by omega, within_pure _⟩
    rw [bssTimGet_of_octet_zero hzero]
    rfl
  next hin =>
    have hoff : aid / 8 - n1 < n2 - n1 + 1 := by omega
    have hbyte : mem (3 + (aid / 8 - n1)) = tim (aid / 8) := by
      have h := eq_of_load hmap (getElem?_load hoff)
      rwa [Nat.add_sub_cancel' (by omega)] at h
    refine ⟨?_, by omega, ?_⟩
    · rw [val_bind, val_byteAt, hbyte]
      rfl
    · rw [within_bind, within_byteAt]
      exact ⟨by omega, within_pure _⟩

/-! ### The reference decoding -/

/-- An encoded block; its first octet is the block bitmap, the single AID, or the length. -/
structure EncodedBlock where
  blkOff : ℕ
  inverse : Bool
  encMode : EncMode
  head : UInt8
  octets : List UInt8

def EncMode.ofNat? : ℕ → Option EncMode
  | 0 => some .block
  | 1 => some .single
  | 2 => some .olb
  | _ => none

def EncMode.rest : EncMode → UInt8 → ℕ
  | .block, head => hweight8 head.toNat
  | .single, _ => 0
  | .olb, head => head.toNat

def EncMode.span : EncMode → UInt8 → ℕ
  | .olb, head => (head.toNat + 7) / 8
  | _, _ => 1

/-- The first encoded block of a bitmap, if it is complete, and what follows. -/
def decodeBlock : List UInt8 → Option (EncodedBlock × List UInt8)
  | ctrl :: head :: octets =>
    match EncMode.ofNat? (ctrl.toNat % 4) with
    | none => none
    | some mode =>
      if octets.length < mode.rest head then none
      else
        some (⟨ctrl.toNat >>> 3, ctrl.toNat.testBit 2, mode, head, octets.take (mode.rest head)⟩,
          octets.drop (mode.rest head))
  | _ => none

variable {e : EncodedBlock}

theorem length_decodeBlock {l rest : List UInt8} (h : decodeBlock l = some (e, rest)) :
    rest.length < l.length := by
  unfold decodeBlock at h
  split at h
  · split at h
    · cases h
    split at h <;> cases h
    simp only [length_drop, length_cons]
    omega
  · cases h

/-- The encoded blocks, up to one that is cut off or of another mode. -/
def decodeBlocks (l : List UInt8) : List EncodedBlock :=
  match _h : decodeBlock l with
  | none => []
  | some (e, rest) => e :: decodeBlocks rest
termination_by l.length
decreasing_by exact length_decodeBlock _h

theorem decodeBlocks_of_none {l : List UInt8} (h : decodeBlock l = none) : decodeBlocks l = [] := by
  rw [decodeBlocks]
  split <;> simp_all

theorem decodeBlocks_of_some {l rest : List UInt8} (h : decodeBlock l = some (e, rest)) :
    decodeBlocks l = e :: decodeBlocks rest := by
  rw [decodeBlocks]
  split <;> simp_all

namespace EncodedBlock

def covers (e : EncodedBlock) (blk : ℕ) : Bool :=
  e.blkOff ≤ blk && blk < e.blkOff + e.encMode.span e.head

def octet? (e : EncodedBlock) (blk subblk : ℕ) : Option UInt8 :=
  match e.encMode with
  | .block => (((List.range 8).filter e.head.toNat.testBit).zip e.octets).lookup subblk
  | .single => none
  | .olb => e.octets[(blk - e.blkOff) * 8 + subblk]?

def reports (e : EncodedBlock) (aid : ℕ) : Bool :=
  (match e.encMode with
    | .single => e.head.toNat % 64 == aid % 64
    | _ => (e.octet? (aid / 64 % 32) (aid / 8 % 8)).any fun o => o.toNat.testBit (aid % 8)) ^^ e.inverse

end EncodedBlock

/-- What a bitmap says of an association ID: the first encoded block for its block counts. -/
def reports (l : List UInt8) (aid : ℕ) : Bool :=
  ((decodeBlocks l).find? fun e => e.covers (aid / 64 % 32)).any fun e => e.reports aid

theorem decodeBlocks_load (mem : Mem) {ptr fin : ℕ} (h : ptr < fin) :
    decodeBlocks (load mem ptr (fin - ptr)) =
      match EncMode.ofNat? ((mem ptr).toNat % 4) with
      | none => []
      | some mode =>
        if fin < ptr + 2 + mode.rest (mem (ptr + 1)) then []
        else
          ⟨(mem ptr).toNat >>> 3, (mem ptr).toNat.testBit 2, mode, mem (ptr + 1),
            load mem (ptr + 2) (mode.rest (mem (ptr + 1)))⟩ ::
          decodeBlocks (load mem (ptr + 2 + mode.rest (mem (ptr + 1)))
            (fin - (ptr + 2 + mode.rest (mem (ptr + 1))))) := by
  obtain ⟨n, rfl⟩ : ∃ n, fin = ptr + 1 + n := ⟨fin - (ptr + 1), by omega⟩
  rw [show ptr + 1 + n - ptr = n + 1 by omega, load_succ]
  cases n with
  | zero =>
    rw [decodeBlocks_of_none rfl]
    split
    · rfl
    · rw [if_pos (by omega)]
  | succ n =>
    rw [load_succ]
    cases hmode : EncMode.ofNat? ((mem ptr).toNat % 4) with
    | none => exact decodeBlocks_of_none (by simp [decodeBlock, hmode])
    | some mode =>
      dsimp only
      generalize hr : mode.rest (mem (ptr + 1)) = r
      split
      · apply decodeBlocks_of_none
        simp only [decodeBlock, hmode, hr, length_load]
        rw [if_pos (by omega)]
      obtain ⟨k, rfl⟩ : ∃ k, n = r + k := ⟨n - r, by omega⟩
      rw [load_add, show ptr + 1 + (r + k + 1) - (ptr + 2 + r) = k by omega]
      apply decodeBlocks_of_some
      simp only [decodeBlock, hmode, hr]
      rw [if_neg (by simp), take_left' (by simp), drop_left' (by simp)]

def lenAt (mem : Mem) (rest : UInt8 → ℕ) (ptr fin : ℕ) : Access (Option ℕ) :=
  if fin ≤ ptr then pure none
  else do
    let head ← byteAt mem ptr
    if fin < ptr + 1 + rest head then pure none else pure (some (1 + rest head))

theorem lenAt_spec (mem : Mem) (rest : UInt8 → ℕ) (ptr fin : ℕ) :
    Within fin (lenAt mem rest ptr fin) ∧
      (lenAt mem rest ptr fin).val =
        if fin < ptr + 1 + rest (mem ptr) then none else some (1 + rest (mem ptr)) := by
  unfold lenAt
  split
  · rw [if_pos (by omega)]
    exact ⟨within_pure _, rfl⟩
  rw [within_bind, within_byteAt, val_bind, val_byteAt]
  split
  all_goals exact ⟨⟨by omega, within_pure _⟩, rfl⟩

/-- What the switch computes for an encoded block whose first octet is at `ptr`. -/
theorem s1gSwitch_spec (mem : Mem) (mode blkOff : ℕ) (aid : S1gTimAid) (ptr fin : ℕ) :
    let r := s1gSwitch mem mode blkOff aid ptr fin
    Within fin r ∧
      match EncMode.ofNat? mode with
      | none => r.val = none
      | some m =>
        if fin < ptr + 1 + m.rest (mem ptr) then ∃ b, r.val = some (m, none, b)
        else
          r.val = some (m, some (1 + m.rest (mem ptr)),
            blkOff ≤ aid.targetBlk && aid.targetBlk < blkOff + m.span (mem ptr)) := by
  have hbitmap : s1gLenBitmap mem ptr fin = lenAt mem EncMode.block.rest ptr fin := rfl
  have holb : s1gLenOlb mem ptr fin = lenAt mem EncMode.olb.rest ptr fin := rfl
  have hlen := fun rest => lenAt_spec mem rest ptr fin
  have hone : (blkOff == aid.targetBlk) =
      (decide (blkOff ≤ aid.targetBlk) && decide (aid.targetBlk < blkOff + 1)) := by
    rw [Bool.eq_iff_iff]
    simp
    omega
  dsimp only [s1gSwitch]
  split
  · rw [hbitmap]
    refine ⟨by simp [hlen], ?_⟩
    simp only [EncMode.ofNat?, val_bind, val_pure, (hlen _).2, hone]
    split
    · exact ⟨_, rfl⟩
    · rfl
  · refine ⟨within_pure _, ?_⟩
    simp only [EncMode.ofNat?, val_pure, s1gLenSingle, hone, EncMode.rest, Nat.add_zero]
    split
    · exact ⟨_, rfl⟩
    · rfl
  · rw [holb]
    refine ⟨by simp [hlen], ?_⟩
    simp only [EncMode.ofNat?, val_bind, val_pure, (hlen _).2]
    split
    · exact ⟨_, rfl⟩
    · rw [Option.getD_some, Nat.add_sub_cancel_left]
      rfl
  · refine ⟨within_pure _, ?_⟩
    have hmode : EncMode.ofNat? mode = none := by
      unfold EncMode.ofNat?
      split <;> simp_all
    simp [hmode]

/-- **The search for a block** finds the first encoded block for it, and stays inside the element.
-/
theorem s1gFindTargetBlock_spec (mem : Mem) (aid : S1gTimAid) (fin n ptr : ℕ) (hn : fin - ptr ≤ n) :
    Within fin (s1gFindTargetBlock mem aid fin n ptr) ∧
      match (decodeBlocks (load mem ptr (fin - ptr))).find? fun e => e.covers aid.targetBlk with
      | none => ∃ e, (s1gFindTargetBlock mem aid fin n ptr).val = .error e
      | some e => ∃ q, (s1gFindTargetBlock mem aid fin n ptr).val =
            .ok ⟨e.encMode, e.inverse, q, e.blkOff⟩ ∧
          mem q = e.head ∧ load mem (q + 1) (e.encMode.rest e.head) = e.octets ∧
          q + 1 + e.encMode.rest e.head ≤ fin := by
  induction n generalizing ptr with
  | zero =>
    rw [show fin - ptr = 0 by omega, load_zero, decodeBlocks_of_none rfl]
    exact ⟨within_pure _, _, rfl⟩
  | succ n ih =>
    rw [s1gFindTargetBlock]
    split
    · rw [show fin - ptr = 0 by omega, load_zero, decodeBlocks_of_none rfl]
      exact ⟨within_pure _, _, rfl⟩
    obtain ⟨hwithin, hswitch⟩ := s1gSwitch_spec mem ((mem ptr).toNat % 4)
      ((mem ptr).toNat >>> 3) aid (ptr + 1) fin
    rw [decodeBlocks_load mem (by omega)]
    simp only [within_bind, within_byteAt, val_bind, val_byteAt]
    cases hmode : EncMode.ofNat? ((mem ptr).toNat % 4) with
    | none =>
      simp only [hmode] at hswitch
      simp only [hswitch]
      exact ⟨⟨by omega, hwithin, within_pure _⟩, _, rfl⟩
    | some mode =>
      simp only [hmode] at hswitch
      dsimp only
      split at hswitch
      next hshort =>
        obtain ⟨b, hval⟩ := hswitch
        rw [if_pos (by omega), hval]
        exact ⟨⟨by omega, hwithin, within_pure _⟩, _, rfl⟩
      rename_i hlong
      rw [if_neg (by omega), hswitch, List.find?_cons]
      dsimp only [EncodedBlock.covers]
      cases hcov : decide ((mem ptr).toNat >>> 3 ≤ aid.targetBlk) &&
          decide (aid.targetBlk < (mem ptr).toNat >>> 3 + mode.span (mem (ptr + 1))) with
      | true =>
        exact ⟨⟨by omega, hwithin, within_pure _⟩, ptr + 1, rfl, rfl, rfl, Nat.not_lt.mp hlong⟩
      | false =>
        have hnext : ptr + 1 + (1 + mode.rest (mem (ptr + 1))) =
            ptr + 2 + mode.rest (mem (ptr + 1)) := by omega
        rw [hnext]
        obtain ⟨hrest, hval⟩ := ih (ptr + 2 + mode.rest (mem (ptr + 1))) (by omega)
        exact ⟨⟨by omega, hwithin, hrest⟩, hval⟩

theorem s1gTarget_eq (aid : ℕ) : s1gTarget aid = ⟨aid, aid / 64 % 32, aid / 8 % 8, aid % 8⟩ := by
  simp [s1gTarget, Nat.shiftRight_eq_div_pow]

theorem lookup_zip {ps : List ℕ} (hps : ps.Nodup) (os : List UInt8) {i k : ℕ}
    (h : ps[i]? = some k) : (ps.zip os).lookup k = os[i]? := by
  induction ps generalizing os i with
  | nil => simp at h
  | cons p ps ih =>
    obtain ⟨hp, hps⟩ := nodup_cons.mp hps
    cases os with
    | nil => simp
    | cons o os =>
      cases i with
      | zero =>
        obtain rfl : p = k := by simpa using h
        simp
      | succ i =>
        have hne : (k == p) = false := by
          rw [beq_eq_false_iff_ne]
          rintro rfl
          exact hp (mem_of_getElem? h)
        simpa [lookup_cons, hne] using ih hps os h

/-- The octet of a subblock in a block bitmap is found by counting the subblocks before it. -/
theorem octet?_block (hmode : e.encMode = .block) {k : ℕ} (hk : k < 8) (blk : ℕ) : e.octet? blk k =
      if e.head.toNat.testBit k then e.octets[hweight8 (e.head.toNat % 2 ^ k)]? else none := by
  simp only [EncodedBlock.octet?, hmode]
  split
  next hbit =>
    apply lookup_zip (nodup_range.filter _)
    rw [hweight8, weight_mod hk.le, weight_eq_length]
    exact getElem?_filter_range hk hbit
  next hbit =>
    rw [lookup_eq_none_iff]
    rintro ⟨k', o⟩ hmem
    have hset := (mem_filter.mp (of_mem_zip hmem).1).2
    rw [bne_iff_ne]
    rintro rfl
    exact hbit hset

def s1gParse (mem : Mem) (enc : S1gTimEncBlock) (aid : S1gTimAid) : Access Bool :=
  match enc.encMode with
  | .block => s1gParseBitmap mem enc aid
  | .single => s1gParseSingle mem enc aid
  | .olb => s1gParseOlb mem enc aid

/-- The block that the search has found is read as the reference decoding reads it. -/
theorem s1gParse_spec {q fin : ℕ} (aid : ℕ) (hhead : mem q = e.head)
    (hoctets : load mem (q + 1) (e.encMode.rest e.head) = e.octets)
    (hfin : q + 1 + e.encMode.rest e.head ≤ fin) :
    Within fin (s1gParse mem ⟨e.encMode, e.inverse, q, e.blkOff⟩ (s1gTarget aid)) ∧
      (s1gParse mem ⟨e.encMode, e.inverse, q, e.blkOff⟩ (s1gTarget aid)).val = e.reports aid := by
  have hoctet : ∀ i < e.encMode.rest e.head, e.octets[i]? = some (mem (q + 1 + i)) := by
    intro i hi
    rw [← hoctets, getElem?_load hi]
  rw [s1gTarget_eq]
  unfold s1gParse EncodedBlock.reports
  cases hmode : e.encMode with
  | single =>
    simp only [s1gParseSingle, within_bind, within_byteAt, val_bind, val_byteAt, val_pure, hhead]
    exact ⟨⟨by omega, within_pure _⟩, trivial⟩
  | block =>
    have hk : aid / 8 % 8 < 8 := Nat.mod_lt _ (by decide)
    have hbefore : (if aid / 8 % 8 = 0 then 0 else hweight8 (e.head.toNat % 2 ^ (aid / 8 % 8))) =
        hweight8 (e.head.toNat % 2 ^ (aid / 8 % 8)) := by
      split
      next h0 =>
        rw [h0, Nat.pow_zero, Nat.mod_one]
        rfl
      · rfl
    simp only [s1gParseBitmap, within_bind, within_byteAt, val_bind,
      val_byteAt, hhead, hbefore, octet?_block hmode hk]
    cases hbit : e.head.toNat.testBit (aid / 8 % 8) with
    | false =>
      refine ⟨⟨by omega, within_pure _⟩, ?_⟩
      simp
    | true =>
      have hlt : hweight8 (e.head.toNat % 2 ^ (aid / 8 % 8)) < e.encMode.rest e.head := by
        have hpos := getElem?_filter_range hk hbit
        rw [hmode, EncMode.rest, hweight8, hweight8, weight_mod hk.le, weight_eq_length,
          weight_eq_length]
        exact (List.getElem?_eq_some_iff.mp hpos).1
      rw [hoctet _ hlt]
      simp only [Bool.not_true, Bool.false_eq_true, if_false, if_true, within_bind,
        within_byteAt, val_bind, val_byteAt]
      exact ⟨⟨by omega, by omega, within_pure _⟩, rfl⟩
  | olb =>
    simp only [s1gParseOlb, within_bind, within_byteAt, val_bind,
      val_byteAt, hhead, EncodedBlock.octet?, hmode]
    rw [hmode, EncMode.rest] at hfin hoctet
    split
    next hout =>
      have hnone : e.octets[(aid / 64 % 32 - e.blkOff) * 8 + aid / 8 % 8]? = none := by
        rwa [List.getElem?_eq_none_iff, ← hoctets, hmode, EncMode.rest, length_load]
      rw [hnone]
      refine ⟨⟨by omega, within_pure _⟩, ?_⟩
      simp
    next hin =>
      rw [hoctet _ (by omega)]
      simp only [within_bind, within_byteAt, val_bind, val_byteAt]
      exact ⟨⟨by omega, by omega, within_pure _⟩, rfl⟩

theorem s1gCheckTim_spec (mem : Mem) (timLen aid : ℕ) :
    Within timLen (s1gCheckTim mem timLen aid) ∧
      (s1gCheckTim mem timLen aid).val = reports (load mem 3 (timLen - 3)) aid := by
  unfold s1gCheckTim
  split
  · rw [show timLen - 3 = 0 by omega, load_zero, reports, decodeBlocks_of_none rfl]
    exact ⟨within_pure _, rfl⟩
  obtain ⟨hfind, hblock⟩ := s1gFindTargetBlock_spec mem (s1gTarget aid) timLen timLen 3 (by omega)
  rw [within_bind, val_bind, reports]
  simp only [s1gTarget_eq aid] at hfind hblock ⊢
  split at hblock
  next hnone =>
    obtain ⟨err, hval⟩ := hblock
    rw [hval, hnone]
    exact ⟨⟨hfind, within_pure _⟩, rfl⟩
  next e hsome =>
    obtain ⟨q, hval, hhead, hoctets, hfin⟩ := hblock
    obtain ⟨hwithin, hparse⟩ := s1gParse_spec aid hhead hoctets hfin
    rw [s1gTarget_eq] at hwithin hparse
    rw [hval, hsome]
    exact ⟨⟨hfind, hwithin⟩, hparse⟩

/-- **S1G look-up.**  The look-up reads inside the element only, and says yes exactly if the first
complete encoded block for the block of the ID reports the ID. -/
theorem s1g_check_tim_decodes (mem : Mem) (timLen aid : ℕ) :
    Within timLen (s1gCheckTim mem timLen aid) ∧
      ((s1gCheckTim mem timLen aid).val = true ↔
        ∃ before e after, decodeBlocks (load mem 3 (timLen - 3)) = before ++ e :: after ∧
          (∀ e' ∈ before, e'.covers (aid / 64 % 32) = false) ∧
          e.covers (aid / 64 % 32) = true ∧ e.reports aid = true) := by
  obtain ⟨hwithin, hval⟩ := s1gCheckTim_spec mem timLen aid
  refine ⟨hwithin, ?_⟩
  rw [hval, reports, Option.any_eq_true]
  constructor
  · rintro ⟨e, hfind, hreports⟩
    obtain ⟨hcovers, before, after, hsplit, hbefore⟩ := List.find?_eq_some_iff_append.mp hfind
    exact ⟨before, e, after, hsplit, fun e' he' => by simpa using hbefore e' he', hcovers, hreports⟩
  · rintro ⟨before, e, after, hsplit, hbefore, hcovers, hreports⟩
    refine ⟨e, List.find?_eq_some_iff_append.mpr ⟨hcovers, before, after, hsplit, ?_⟩, hreports⟩
    exact fun e' he' => by simpa using hbefore e' he'

/-! ### The encoded blocks -/

theorem s1gEncodedBlock_of_zero {blk : ℕ} (h : blkBmap tim blk = 0) :
    s1gEncodedBlock tim blk = [] := if_pos h

def subblocks (tim : Mem) (blk : ℕ) : List UInt8 :=
  ((List.range 8).filter fun sblk => (blkBmap tim blk).testBit sblk).map fun sblk =>
    tim (blk * 8 + sblk)

theorem s1gEncodedBlock_of_ne {blk : ℕ} (h : blkBmap tim blk ≠ 0) :
    s1gEncodedBlock tim blk =
      UInt8.ofNat (blk <<< 3) :: UInt8.ofNat (blkBmap tim blk) :: subblocks tim blk := if_neg h

theorem length_subblocks (tim : Mem) (blk : ℕ) :
    (subblocks tim blk).length = hweight8 (blkBmap tim blk) := by
  rw [subblocks, length_map, hweight8, weight_eq_length]

theorem hweight8_le (x : ℕ) : hweight8 x ≤ 8 := by
  exact countP_le_length.trans (by simp)

theorem length_s1gEncodedBlock_le (tim : Mem) (blk : ℕ) : (s1gEncodedBlock tim blk).length ≤ 10 := by
  by_cases h : blkBmap tim blk = 0
  · simp [s1gEncodedBlock_of_zero h]
  have hle := hweight8_le (blkBmap tim blk)
  have hlen : (s1gEncodedBlock tim blk).length = hweight8 (blkBmap tim blk) + 2 := by
    simp [s1gEncodedBlock_of_ne h, length_subblocks]
  omega

theorem toNat_blkBmap (tim : Mem) (blk : ℕ) :
    (UInt8.ofNat (blkBmap tim blk)).toNat = blkBmap tim blk :=
  UInt8.toNat_ofNat_of_lt' (ofPred_lt _ 8)

theorem blockControl_facts : ∀ blk < maxS1gTimBlocks,
    (UInt8.ofNat (blk <<< 3)).toNat % 4 = 0 ∧ (UInt8.ofNat (blk <<< 3)).toNat.testBit 2 = false ∧
      (UInt8.ofNat (blk <<< 3)).toNat >>> 3 = blk := by
  decide +kernel

theorem testBit_blkBmap (tim : Mem) (blk : ℕ) {k : ℕ} (hk : k < 8) :
    (blkBmap tim blk).testBit k = (tim (blk * 8 + k) != 0) := by
  simp [blkBmap, hk]

theorem getElem?_subblocks {blk k : ℕ} (hk : k < 8) (hbit : (blkBmap tim blk).testBit k = true) :
    (subblocks tim blk)[hweight8 (blkBmap tim blk % 2 ^ k)]? = some (tim (blk * 8 + k)) := by
  rw [subblocks, List.getElem?_map, hweight8, weight_mod (Nat.le_of_lt hk), weight_eq_length,
    getElem?_filter_range hk hbit]
  rfl

theorem bssTimGet_s1gTarget {aid : ℕ} (h : aid < 64 * maxS1gTimBlocks) :
    bssTimGet tim aid =
      (tim ((s1gTarget aid).targetBlk * 8 + (s1gTarget aid).targetSubblk)).toNat.testBit
        (s1gTarget aid).targetSubblkBit := by
  unfold maxS1gTimBlocks at h
  have hoctet : (aid >>> 6) % 32 * 8 + (aid >>> 3) % 8 = aid / 8 := by
    omega
  rw [bssTimGet, s1gTarget, hoctet]

def encodedBlock (tim : Mem) (blk : ℕ) : EncodedBlock :=
  ⟨blk, false, .block, UInt8.ofNat (blkBmap tim blk), subblocks tim blk⟩

theorem decodeBlocks_encoded {blks : List ℕ} (hblks : ∀ blk ∈ blks, blk < maxS1gTimBlocks) :
    decodeBlocks (blks.flatMap (s1gEncodedBlock tim)) =
      (blks.filter fun blk => blkBmap tim blk != 0).map (encodedBlock tim) := by
  induction blks with
  | nil => exact decodeBlocks_of_none rfl
  | cons blk blks ih =>
    have hrest := ih fun b hb => hblks b (.tail _ hb)
    by_cases hzero : blkBmap tim blk = 0
    · rw [flatMap_cons, s1gEncodedBlock_of_zero hzero, nil_append, hrest,
        filter_cons_of_neg (by simpa using hzero)]
    obtain ⟨hmode, hinv, hoff⟩ := blockControl_facts blk (hblks blk (.head _))
    have hlen : (subblocks tim blk).length =
        EncMode.block.rest (UInt8.ofNat (blkBmap tim blk)) := by
      rw [length_subblocks, EncMode.rest, toNat_blkBmap]
    rw [flatMap_cons, s1gEncodedBlock_of_ne hzero,
      filter_cons_of_pos (by simpa using hzero), map_cons, ← hrest]
    apply decodeBlocks_of_some
    simp only [cons_append, decodeBlock, hmode, hinv, hoff, EncMode.ofNat?, ← hlen]
    rw [if_neg (by simp), take_left, drop_left, encodedBlock]

theorem reports_encodedBlock {aid : ℕ} (haid : aid < 64 * maxS1gTimBlocks) :
    (encodedBlock tim (aid / 64 % 32)).reports aid = bssTimGet tim aid := by
  have hk : aid / 8 % 8 < 8 := Nat.mod_lt _ (by decide)
  rw [bssTimGet_s1gTarget haid, s1gTarget_eq]
  simp only [EncodedBlock.reports, octet?_block (e := encodedBlock tim (aid / 64 % 32)) rfl hk]
  simp only [encodedBlock, toNat_blkBmap, Bool.xor_false]
  cases hbit : (blkBmap tim (aid / 64 % 32)).testBit (aid / 8 % 8) with
  | false =>
    have hzero : tim (aid / 64 % 32 * 8 + aid / 8 % 8) = 0 := by
      rw [testBit_blkBmap tim _ hk] at hbit
      simpa using hbit
    simp [hzero]
  | true =>
    rw [if_pos rfl, getElem?_subblocks hk hbit]
    rfl

theorem s1gCheckTim_blocks {len aid : ℕ}
    (hlen : len = 3 + ((List.range maxS1gTimBlocks).flatMap (s1gEncodedBlock tim)).length)
    (hmem : load mem 3 ((List.range maxS1gTimBlocks).flatMap (s1gEncodedBlock tim)).length =
      (List.range maxS1gTimBlocks).flatMap (s1gEncodedBlock tim))
    (haid : aid < 64 * maxS1gTimBlocks) :
    (s1gCheckTim mem len aid).val = bssTimGet tim aid ∧ Within len (s1gCheckTim mem len aid) := by
  obtain ⟨hwithin, hval⟩ := s1gCheckTim_spec mem len aid
  refine ⟨?_, hwithin⟩
  rw [hval, hlen, Nat.add_sub_cancel_left, hmem, reports, decodeBlocks_encoded fun b hb =>
    mem_range.mp hb, List.find?_map, ← reports_encodedBlock haid]
  have hcovers : ∀ b, (encodedBlock tim b).covers (aid / 64 % 32) = true ↔ b = aid / 64 % 32 := by
    intro b
    rw [EncodedBlock.covers, Bool.and_eq_true, decide_eq_true_iff, decide_eq_true_iff]
    dsimp only [encodedBlock, EncMode.span]
    omega
  cases hfind : ((List.range maxS1gTimBlocks).filter fun blk => blkBmap tim blk != 0).find?
      ((fun e => e.covers (aid / 64 % 32)) ∘ encodedBlock tim) with
  | some b =>
    have hb := List.find?_some hfind
    rw [← (hcovers b).mp hb]
    rfl
  | none =>
    -- then all bits of the block are zero
    have hzero : blkBmap tim (aid / 64 % 32) = 0 := by
      by_contra hne
      apply List.find?_eq_none.mp hfind (aid / 64 % 32) ?_ ((hcovers _).mpr rfl)
      rw [mem_filter, mem_range]
      exact ⟨by omega, by simpa using hne⟩
    have hk : aid / 8 % 8 < 8 := Nat.mod_lt _ (by decide)
    simp only [EncodedBlock.reports, octet?_block (e := encodedBlock tim (aid / 64 % 32)) rfl hk]
    simp [encodedBlock, hzero]

/-! ### The element -/

/-- What a station reads: its own bit of `tim`, and nothing outside the element. -/
def Announces (tim : Mem) (s1g : Bool) (data : List UInt8) : Prop :=
  ∀ mem, load mem 0 data.length = data → ∀ aid, aid ≤ (if s1g then 1599 else maxAid) →
    (checkTim mem data.length aid s1g).val = bssTimGet tim aid ∧
      Within data.length (checkTim mem data.length aid s1g)

theorem bssTimGet_of_bitmapEmpty {nbits id : ℕ} (h : bitmapEmpty tim nbits = true)
    (hid : id < nbits) : bssTimGet tim id = false := by
  simpa using all_eq_true.mp h id (mem_range.mpr hid)

theorem load_pvb {d0 d1 : UInt8} {pvb : List UInt8} {n : ℕ}
    (h : load mem 0 n = d0 :: d1 :: pvb) : load mem 2 pvb.length = pvb :=
  (load_cons (load_cons h).2).2

theorem announces_bitmap (tim : Mem) (d0 d1 : UInt8) (mcast : Bool) :
    Announces tim false (d0 :: d1 :: addTimPvb tim mcast) := by
  intro mem hmem aid haid
  obtain ⟨i, hi, hfirst, hn1, hbefore⟩ := firstOctet_spec tim
  obtain ⟨hn2, hmax, hafter⟩ := lastOctet_spec tim hn1
  have hpvb := load_pvb hmem
  obtain ⟨hctrl, hmap⟩ := load_cons hpvb
  rw [length_load] at hmap
  refine checkTimBitmap_trimmed hi hfirst hn2 hmax ?_ hctrl hmap hbefore hafter haid
  simp [addTimPvb]

theorem announces_blocks (tim : Mem) (d0 d1 : UInt8) (mcast : Bool) :
    Announces tim true (d0 :: d1 :: s1gAddTimPvb tim mcast true) := by
  intro mem hmem aid haid
  have hpvb := load_pvb hmem
  simp only [s1gAddTimPvb, Bool.not_true, Bool.and_false, Bool.false_eq_true, if_false] at hpvb ⊢
  have hblocks := (load_cons hpvb).2
  rw [checkTim, if_pos rfl]
  refine s1gCheckTim_blocks ?_ hblocks (haid.trans_lt (by decide))
  simp only [length_cons]
  omega

theorem octet_of_bitmapEmpty {i : ℕ} (hempty : bitmapEmpty tim (maxAid + 1) = true)
    (hi : i < maxTimLen) : tim i = 0 := by
  apply UInt8.toNat_inj.mp
  apply Nat.eq_of_testBit_eq
  intro j
  rw [UInt8.toNat_zero, Nat.zero_testBit]
  by_cases hj : j < 8
  · unfold maxTimLen at hi
    have hid : 8 * i + j < maxAid + 1 := by
      unfold maxAid
      omega
    have hbit := bssTimGet_of_bitmapEmpty hempty hid
    have hoctet : (8 * i + j) / 8 = i := by omega
    have hpos : (8 * i + j) % 8 = j := by omega
    rwa [bssTimGet, hoctet, hpos] at hbit
  · apply Nat.testBit_lt_two_pow
    exact (tim i).toNat_lt.trans_le (Nat.pow_le_pow_right (by decide) (not_lt.mp hj))

theorem announces_zero (d0 d1 : UInt8) (mcast : Bool)
    (hempty : bitmapEmpty tim (maxAid + 1) = true) :
    Announces tim false [d0, d1, UInt8.ofNat mcast.toNat, 0] := by
  intro mem hmem aid haid
  have hpvb := load_pvb hmem
  have hctrl : mem 2 = UInt8.ofNat (0 ||| mcast.toNat) := by
    rw [Nat.zero_or]
    exact (load_cons hpvb).1
  have hmap : load mem 3 (0 - 0 + 1) = load tim 0 (0 - 0 + 1) := by
    have hoctet : mem 3 = 0 := (load_cons (load_cons hpvb).2).1
    rw [load_succ, load_succ, hoctet, octet_of_bitmapEmpty hempty (by decide)]
    rfl
  exact checkTimBitmap_trimmed (i := 0) (by decide) rfl (Nat.le_refl 0) (by decide) rfl hctrl hmap
    nofun (fun j hj _ => octet_of_bitmapEmpty hempty hj) haid

theorem announces_nothing (d0 d1 : UInt8) (mcast : Bool)
    (hempty : bitmapEmpty tim (maxAid + 1) = true) :
    Announces tim true (d0 :: d1 :: s1gAddTimPvb tim mcast false) := by
  intro mem hmem aid haid
  have hbit : bssTimGet tim aid = false :=
    bssTimGet_of_bitmapEmpty hempty (haid.trans_lt (by decide))
  rw [hbit, checkTim, if_pos rfl]
  cases mcast with
  | false => exact ⟨rfl, within_pure _⟩
  | true => exact ⟨rfl, fun r hr => nomatch hr⟩

theorem length_blocks_le (tim : Mem) (blks : List ℕ) :
    (blks.flatMap (s1gEncodedBlock tim)).length ≤ 10 * blks.length := by
  induction blks with
  | nil => exact le_rfl
  | cons blk blks ih =>
    have hle := length_s1gEncodedBlock_le tim blk
    simp only [flatMap_cons, length_append, length_cons]
    omega

theorem length_pvb_le (tim : Mem) (mcast : Bool) :
    (addTimPvb tim mcast).length ≤ 252 ∧
      ∀ ucast, (s1gAddTimPvb tim mcast ucast).length ≤ 251 := by
  constructor
  · obtain ⟨-, -, -, hn1, -⟩ := firstOctet_spec tim
    have hmax := (lastOctet_spec tim hn1).2.1
    simp only [addTimPvb, length_cons, length_load]
    unfold maxTimLen at hmax
    omega
  · intro ucast
    have hle := length_blocks_le tim (List.range maxS1gTimBlocks)
    rw [length_range] at hle
    unfold maxS1gTimBlocks at hle
    unfold s1gAddTimPvb maxS1gTimBlocks
    split
    · simp
    split
    · simp
    · simp only [length_cons]
      omega

/-- **Round trip of the traffic indication map.**  The element of a beacon is well formed, and every
association ID reads its own bit in it. -/
theorem tim_roundtrip (ps : PsData) (dtimPeriod : UInt8) (s1g isTemplate : Bool)
    (hps : 0 < ps.numStaPs) :
    ∃ data : List UInt8, data.length ≤ 255 ∧
      (beaconAddTim ps dtimPeriod s1g isTemplate).2 = 5 :: UInt8.ofNat data.length :: data ∧
      Announces ps.tim s1g data := by
  refine ⟨(beaconAddTimData ps dtimPeriod s1g isTemplate).2, ?_, rfl, ?_⟩
  · unfold beaconAddTimData
    refine Nat.add_le_add_right (?_ : _ ≤ 253) 2
    split
    · exact ((length_pvb_le ps.tim _).2 _).trans (by decide)
    · split
      · exact (length_pvb_le ps.tim _).1.trans (by decide)
      · simp
  · unfold beaconAddTimData
    cases hempty : bitmapEmpty ps.tim (maxAid + 1) <;> cases s1g <;>
      simp only [hps, decide_true, Bool.true_and, Bool.not_true, Bool.not_false,
        Bool.false_eq_true, if_true, if_false]
    · exact announces_bitmap ps.tim _ _ _
    · exact announces_blocks ps.tim _ _ _
    · exact announces_zero _ _ _ hempty
    · exact announces_nothing _ _ _ hempty

def oneBuffered (numStaPs : ℤ) : PsData :=
  { tim := fun i => if i = 0 then 2 else 0, bcBufEmpty := true, numStaPs, dtimCount := 0,
    dtimBcMc := false }

theorem tim_roundtrip_one :
    0 < (oneBuffered 1).numStaPs ∧ bssTimGet (oneBuffered 1).tim 1 = true ∧
      ∃ data : List UInt8, data.length ≤ 255 ∧
        (beaconAddTim (oneBuffered 1) 2 true false).2 = 5 :: UInt8.ofNat data.length :: data ∧
        Announces (oneBuffered 1).tim true data :=
  ⟨by decide, by decide, tim_roundtrip (oneBuffered 1) 2 true false (by decide)⟩

/-- Without a station in power save the bitmap is not written, whatever it holds. -/
theorem tim_not_announced :
    bssTimGet (oneBuffered 0).tim 1 = true ∧
      (beaconAddTim (oneBuffered 0) 2 false false).2 = [5, 4, 1, 2, 0, 0] ∧
      ∀ mem, load mem 0 4 = [1, 2, 0, 0] → (checkTim mem 4 1 false).val = false := by
  refine ⟨by decide, by decide, fun mem hmem => ?_⟩
  have hctrl : mem 2 = 0 := (load_cons (load_pvb hmem)).1
  have hoctet : mem 3 = 0 := (load_cons (load_cons (load_pvb hmem)).2).1
  simp [checkTim, checkTimBitmap, hctrl, hoctet]

end Iwlwifi.Ieee80211.Tim
