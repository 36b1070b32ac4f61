import Iwlwifi.Amsdu

/-! # De-aggregation and the storage of the buffer

`ieee80211_amsdu_to_8023s` (`net/wireless/util.c`) works on a buffer whose bytes are in a linear part,
in page fragments and in further buffers.  Depending on that it copies a subframe, refers to the
fragments it is in, or keeps the buffer itself for the last subframe.

* **Model.**  `SkBuff` is a buffer, `amsduCopyFrag` walks over the fragments, `amsduTo8023s` is the
  loop.  What stands in memory behind the linear part of a frame is a parameter, because
  `ieee80211_get_8023_tunnel_proto` reads eight bytes of a frame of any length.
* **What is meant** (`deaggregate`): a function of the bytes.
* **Copies** (`amsduCopyFrag_flatten`, `amsduCopy_spec`): a frame has the bytes of its subframe,
  wherever the fragments are cut.
* **Result** (`amsdu_storage_iff`): when the frames do not depend on the storage. -/

namespace Iwlwifi.Cfg80211.AmsduSkb

open Amsdu Aligned
open List hiding concat concat_cons
open Ieee80211 (isMulticastEtherAddr)

/-! ### Buffers -/

/-- `struct sk_buff`: the linear part, the page fragments, the `frag_list`, and whether the linear
part is in a page. -/
structure SkBuff where
  head : List UInt8
  frags : List (List UInt8)
  fragList : List (List UInt8)
  headFrag : Bool

namespace SkBuff
variable (skb : SkBuff)

def bytes : List UInt8 := skb.head ++ skb.frags.flatten ++ skb.fragList.flatten

/-- `skb->len`. -/
def len : ℕ := skb.bytes.length

/-- `skb_is_nonlinear`. -/
def isNonlinear : Bool := skb.frags.flatten.length + skb.fragList.flatten.length != 0

/-- `skb_copy_bits`. -/
def copyBits (offset len : ℕ) : List UInt8 := (skb.bytes.drop offset).take len

/-- `skb_pull`, which does nothing when there are not so many bytes. -/
def pull (n : ℕ) : SkBuff := if skb.len < n then skb else { skb with head := skb.head.drop n }

/-- `skb_push`, and the bytes written to the front. -/
def push (data : List UInt8) : SkBuff := { skb with head := data ++ skb.head }

/-- `reuse_frag`. -/
def reuseFrag : Bool := skb.headFrag && skb.fragList.isEmpty

/-- The first eight bytes at `skb->data`, when `behind` stands behind the linear part. -/
def readHeader (behind : ℕ → UInt8) : List UInt8 := (skb.head ++ (List.range 8).map behind).take 8

end SkBuff

/-- The second loop of `__ieee80211_amsdu_copy_frag`: nothing when it runs over the last fragment. -/
def addFrags : List (List UInt8) → ℕ → Option (List (List UInt8))
  | _, 0 => some []
  | [], _ + 1 => none
  | frag :: frags, len + 1 =>
    let curLen := min (len + 1) frag.length
    (addFrags frags (len + 1 - curLen)).map (frag.take curLen :: ·)

/-- `__ieee80211_amsdu_copy_frag`: the fragments added to the frame.  The first piece is the linear
part of the buffer. -/
def amsduCopyFrag : List (List UInt8) → ℕ → ℕ → Option (List (List UInt8))
  | [], _, _ => none
  | frag :: frags, offset, len =>
    if frag.length ≤ offset then amsduCopyFrag frags (offset - frag.length) len
    else
      let curLen := min len (frag.length - offset)
      (addFrags frags (len - curLen)).map ((frag.drop offset).take curLen :: ·)

/-- `__ieee80211_amsdu_copy`: `some none` stands for `NULL`. -/
def amsduCopy (skb : SkBuff) (offset len : ℕ) (reuseFrag : Bool) (minLen : ℕ) :
    Option (Option SkBuff) :=
  if skb.len - offset < len then some none
  else
    -- copy some data to the head when reusing fragments
    let curLen := if reuseFrag then min len minLen else len
    let frame : SkBuff := ⟨skb.copyBits offset curLen, [], [], false⟩
    if len - curLen = 0 then some (some frame)
    else
      (amsduCopyFrag (skb.head :: skb.frags) (offset + curLen) (len - curLen)).map
        fun frags => some { frame with frags := frags }

/-! ### The loop -/

/-- The arguments of `ieee80211_amsdu_to_8023s`; and what stands in `hdr.flags`, which only a mesh
point fills in. -/
structure Args where
  mesh : Bool
  checkDa : Option (List UInt8)
  checkSa : Option (List UInt8)
  meshControl : ℕ
  flags : UInt8

def Args.filters (args : Args) (eth : EthHdr) : Bool :=
  args.checkDa.any (fun da => !isMulticastEtherAddr eth.hDest && da != eth.hDest) ||
    args.checkSa.any (fun sa => sa != eth.hSource)

/-- `copy_len`. -/
def Args.copyLen (args : Args) : ℕ := if args.mesh then ethHlen + 1 else ethHlen

/-- The end of an iteration: the tunnel header is removed and the Ethernet header put in front. -/
def finishSkb (args : Args) (eth : EthHdr) (behind : ℕ → UInt8) (frame : SkBuff) : SkBuff :=
  match if args.mesh then none else get8023TunnelProto (frame.readHeader behind) with
  | some proto => (frame.pull (ethAlen + 2)).push { eth with hProto := proto }.bytes
  | none => frame.push eth.bytes

section loop
variable (args : Args) (skb : SkBuff) (behind : ℕ → ℕ → UInt8)

/-- The loop of `ieee80211_amsdu_to_8023s`, on `offset` and `list`.  `behind` is the memory behind the
frame of the subframe at an offset. -/
def amsduLoop : ℕ → ℕ → List SkBuff → Option (List SkBuff)
  | 0, _, _ => none
  | n + 1, offset, list =>
    let remaining := skb.len - offset
    if args.copyLen > remaining then some []
    else
      let hdr := skb.copyBits offset args.copyLen
      let eth := EthHdr.read hdr
      let flags := if args.mesh then hdr.getD ethHlen 0 else args.flags
      let meshLen := if args.mesh then getMeshHdrlen flags else 0
      let len := amsduSubframeLength eth.hProto flags args.meshControl
      let subframeLen := ethHlen + len
      let padding := (4 - subframeLen % 4) % 4
      if subframeLen > remaining then some []
      else if offset = 0 ∧ isAmsduAggregationAttack eth skb.bytes args.mesh then some []
      else
        let last := decide (remaining ≤ subframeLen + padding)
        let next (list : List SkBuff) : Option (List SkBuff) :=
          if last then some list else amsduLoop n (offset + ethHlen + len + padding) list
        if args.filters eth then next list
        else if !skb.isNonlinear && !skb.reuseFrag && last then
          -- reuse skb for the last subframe
          next (list ++ [finishSkb args eth (behind offset) (skb.pull (offset + ethHlen))])
        else do
          match ← amsduCopy skb (offset + ethHlen) len skb.reuseFrag (32 + meshLen) with
          | none => some []
          | some frame => next (list ++ [finishSkb args eth (behind offset) frame])

/-- `ieee80211_amsdu_to_8023s`: the list of frames. -/
def amsduTo8023s : Option (List SkBuff) := amsduLoop args skb behind (skb.len + 1) 0 []

end loop

/-! ### What is meant -/

/-- The length of the subframe at the beginning of a byte string, if there is a header. -/
def Args.subframeLength (args : Args) (data : List UInt8) : Option ℕ :=
  if data.length < args.copyLen then none
  else
    some (ethHlen + amsduSubframeLength (EthHdr.read data).hProto
      (if args.mesh then data.getD ethHlen 0 else args.flags) args.meshControl)

def Args.passes (args : Args) (sub : List UInt8) : Bool := !args.filters (EthHdr.read sub)

/-- The frame for a subframe: a tunnel header is removed, except for mesh points, whose payload
starts with a mesh header. -/
def Args.frameOf (args : Args) (sub : List UInt8) : List UInt8 :=
  let eth := EthHdr.read sub
  let payload := sub.drop ethHlen
  match if args.mesh ∨ payload.length < 8 then none else get8023TunnelProto payload with
  | some proto => { eth with hProto := proto }.bytes ++ payload.drop 8
  | none => eth.bytes ++ payload

def Args.deaggregate (args : Args) (data : List UInt8) : List (List UInt8) :=
  match split 4 args.subframeLength data with
  | none => []
  | some subs =>
    if isAmsduAggregationAttack (EthHdr.read data) data args.mesh then []
    else (subs.filter args.passes).map args.frameOf

/-- The payload ends before, or inside of, the EtherType of a tunnel header. -/
def CutTunnel (payload : List UInt8) : Prop :=
  payload.length < 8 ∧
    (payload.take 6 <+: rfc1042Header ∨ payload.take 6 <+: bridgeTunnelHeader)

/-- No delivered subframe is cut off inside of a tunnel header, and nothing follows the last one in
a linear buffer that is not in a page. -/
def CleanlyStored (args : Args) (skb : SkBuff) : Prop :=
  ∀ subs, split 4 args.subframeLength skb.bytes = some subs →
    isAmsduAggregationAttack (EthHdr.read skb.bytes) skb.bytes args.mesh = false →
    (∀ s ∈ subs, args.passes s = true → args.mesh = false → ¬ CutTunnel (s.drop ethHlen)) ∧
      (skb.isNonlinear = false → skb.reuseFrag = false →
        (∀ s ∈ subs.getLast?, args.passes s = true) → (concat 4 0 subs).length = skb.len)

variable {args : Args} {skb : SkBuff} {behind : ℕ → ℕ → UInt8}

/-! ### Copies -/

theorem addFrags_flatten (frags : List (List UInt8)) (len : ℕ) (h : len ≤ frags.flatten.length) :
    ∃ out, addFrags frags len = some out ∧ out.flatten = frags.flatten.take len := by
  induction frags generalizing len with
  | nil =>
    obtain rfl : len = 0 := by simpa using h
    exact ⟨[], rfl, rfl⟩
  | cons frag frags ih =>
    cases len with
    | zero => exact ⟨[], by rw [addFrags], by rw [flatten_nil, take_zero]⟩
    | succ len =>
      rw [flatten_cons, length_append] at h
      obtain ⟨out, hout, hflat⟩ := ih (len + 1 - min (len + 1) frag.length) (by omega)
      refine ⟨frag.take (min (len + 1) frag.length) :: out, ?_, ?_⟩
      · rw [addFrags, hout]
        rfl
      · rw [flatten_cons, flatten_cons, hflat, take_append, ← take_eq_take_min,
          show len + 1 - min (len + 1) frag.length = len + 1 - frag.length by omega]

/-- **The walk over the fragments** adds the bytes from `offset` on, wherever the fragments are cut. -/
theorem amsduCopyFrag_flatten (frags : List (List UInt8)) (offset len : ℕ) (hpos : 0 < len)
    (h : offset + len ≤ frags.flatten.length) :
    ∃ out, amsduCopyFrag frags offset len = some out ∧
      out.flatten = (frags.flatten.drop offset).take len := by
  induction frags generalizing offset with
  | nil =>
    simp only [flatten_nil, length_nil] at h
    omega
  | cons frag frags ih =>
    rw [flatten_cons, length_append] at h
    rw [amsduCopyFrag, flatten_cons, drop_append]
    split
    · -- the whole piece is skipped
      rename_i hskip
      obtain ⟨out, hout, hflat⟩ := ih (offset - frag.length) (by omega)
      refine ⟨out, hout, ?_⟩
      rw [hflat, drop_eq_nil_of_le hskip, nil_append]
    next hin =>
      obtain ⟨out, hout, hflat⟩ := addFrags_flatten frags
        (len - min len (frag.length - offset)) (by omega)
      refine ⟨(frag.drop offset).take (min len (frag.length - offset)) :: out, ?_, ?_⟩
      · dsimp only
        rw [hout]
        rfl
      rw [flatten_cons, hflat, take_append, length_drop, show offset - frag.length =
        0 by omega, drop_zero, ← length_drop, ← take_eq_take_min, length_drop]
      congr 2
      omega

theorem SkBuff.flatten_of_reuseFrag (h : skb.reuseFrag = true) :
    (skb.head :: skb.frags).flatten = skb.bytes := by
  unfold SkBuff.reuseFrag at h
  rw [Bool.and_eq_true, List.isEmpty_iff] at h
  rw [SkBuff.bytes, h.2, flatten_cons, flatten_nil, append_nil]

/-- **A copy** has the bytes of the subframe, and the first ones are in its linear part. -/
theorem amsduCopy_spec (skb : SkBuff) (offset len : ℕ) {minLen : ℕ} (hlen : offset + len ≤ skb.len)
    (hmin : 8 ≤ minLen) :
    ∃ frame, amsduCopy skb offset len skb.reuseFrag minLen = some (some frame) ∧
      frame.bytes = (skb.bytes.drop offset).take len ∧ min 8 len ≤ frame.head.length := by
  have htotal : skb.bytes.length = skb.len := rfl
  unfold amsduCopy
  rw [if_neg (by omega)]
  cases hr : skb.reuseFrag with
  | false =>
    refine ⟨⟨skb.copyBits offset len, [], [], false⟩, ?_, ?_, ?_⟩
    · simp
    · simp [SkBuff.bytes, SkBuff.copyBits]
    · simp only [SkBuff.copyBits, length_take, length_drop]
      omega
  | true =>
    have hhead : min 8 len ≤ (skb.copyBits offset (min len minLen)).length := by
      simp only [SkBuff.copyBits, length_take, length_drop]
      omega
    rw [if_pos rfl]
    by_cases hz : len - min len minLen = 0
    · refine ⟨⟨skb.copyBits offset (min len minLen), [], [], false⟩, if_pos hz, ?_, hhead⟩
      rw [show min len minLen = len by omega]
      simp [SkBuff.bytes, SkBuff.copyBits]
    have hflat := SkBuff.flatten_of_reuseFrag hr
    obtain ⟨out, hout, hbytes⟩ := amsduCopyFrag_flatten (skb.head :: skb.frags)
      (offset + min len minLen) (len - min len minLen) (by omega)
      (by rw [hflat]; omega)
    refine ⟨⟨skb.copyBits offset (min len minLen), out, [], false⟩, ?_, ?_, hhead⟩
    · rw [if_neg hz, hout]
      rfl
    rw [hflat] at hbytes
    rw [SkBuff.bytes, hbytes, flatten_nil, append_nil, SkBuff.copyBits,
      ← drop_drop, ← take_add]
    congr 1
    omega

/-! ### Frames -/

/-- The frame for a payload, when `behind` stands behind it in memory. -/
def finishBytes (args : Args) (eth : EthHdr) (behind : ℕ → UInt8) (payload : List UInt8) :
    List UInt8 :=
  match if args.mesh then none
    else get8023TunnelProto ((payload ++ (List.range 8).map behind).take 8) with
  | some proto =>
    { eth with hProto := proto }.bytes ++ if payload.length < 8 then payload else payload.drop 8
  | none => eth.bytes ++ payload

theorem SkBuff.readHeader_eq {frame : SkBuff} (h : min 8 frame.len ≤ frame.head.length)
    (behind : ℕ → UInt8) :
    frame.readHeader behind = (frame.bytes ++ (List.range 8).map behind).take 8 := by
  obtain ⟨rest, hbytes⟩ : ∃ rest, frame.bytes = frame.head ++ rest := ⟨_, append_assoc _ _ _⟩
  have hlen : frame.len = frame.head.length + rest.length := by
    rw [SkBuff.len, hbytes, length_append]
  rw [SkBuff.readHeader, hbytes]
  by_cases h8 : 8 ≤ frame.head.length
  · rw [take_append_of_le_length h8, append_assoc, take_append_of_le_length h8]
  · obtain rfl : rest = [] := eq_nil_of_length_eq_zero (by omega)
    rw [append_nil]

theorem finishSkb_bytes {frame : SkBuff} (h : min 8 frame.len ≤ frame.head.length) (eth : EthHdr)
    (behind : ℕ → UInt8) :
    (finishSkb args eth behind frame).bytes = finishBytes args eth behind frame.bytes := by
  have hpush : ∀ (f : SkBuff) (data : List UInt8), (f.push data).bytes = data ++ f.bytes := by
    intro f data
    simp [SkBuff.push, SkBuff.bytes]
  have hpull : (frame.pull 8).bytes =
      if frame.bytes.length < 8 then frame.bytes else frame.bytes.drop 8 := by
    show (if frame.len < 8 then frame else { frame with head := frame.head.drop 8 }).bytes =
      if frame.len < 8 then frame.bytes else frame.bytes.drop 8
    split
    · rfl
    · have h8 : 8 ≤ frame.head.length := by omega
      simp only [SkBuff.bytes, append_assoc]
      rw [drop_append_of_le_length h8]
  unfold finishSkb finishBytes
  rw [SkBuff.readHeader_eq h]
  split
  · rw [hpush]
    congr 1
  · rw [hpush]

theorem get8023TunnelProto_eq (x : List UInt8) :
    get8023TunnelProto x = (fun a b : List UInt8 =>
      if ¬(a = rfc1042Header ∧ b ≠ ethPAarp ∧ b ≠ ethPIpx) ∧ a ≠ bridgeTunnelHeader then none
      else some b) (x.take 6) ((x.drop 6).take 2) := rfl

theorem get8023TunnelProto_take {hdr : List UInt8} :
    get8023TunnelProto (hdr.take 8) = get8023TunnelProto hdr := by
  have h6 : (hdr.take 8).take 6 = hdr.take 6 := by rw [take_take]; rfl
  have h2 : ((hdr.take 8).drop 6).take 2 = (hdr.drop 6).take 2 := by
    rw [drop_take, take_take]
    rfl
  rw [get8023TunnelProto_eq, get8023TunnelProto_eq, h6, h2]

theorem get8023TunnelProto_isSome {hdr proto : List UInt8} (h : get8023TunnelProto hdr = some proto) :
    hdr.take 6 = rfc1042Header ∨ hdr.take 6 = bridgeTunnelHeader := by
  unfold get8023TunnelProto at h
  dsimp only at h
  split at h
  · cases h
  rename_i hc
  by_contra hno
  rw [not_or] at hno
  exact hc ⟨fun ha => hno.1 ha.1, hno.2⟩

theorem CutTunnel.exists_behind {payload : List UInt8} (h : CutTunnel payload) (field : List UInt8) :
    ∃ behind : ℕ → UInt8, ∃ proto, proto ≠ field ∧
      get8023TunnelProto ((payload ++ (List.range 8).map behind).take 8) = some proto := by
  obtain ⟨hlen, hpre⟩ := h
  obtain ⟨hdr, hhdr, hpre⟩ : ∃ hdr, (hdr = rfc1042Header ∨ hdr = bridgeTunnelHeader) ∧
      payload.take 6 <+: hdr :=
    hpre.elim (fun h => ⟨_, .inl rfl, h⟩) (fun h => ⟨_, .inr rfl, h⟩)
  have hhlen : hdr.length = 6 := by
    obtain rfl | rfl := hhdr
    · rfl
    · rfl
  -- the second byte of the EtherType is in memory
  let x := payload.getD 6 0
  obtain ⟨y, hfield, haarp, hipx⟩ : ∃ y, [x, y] ≠ field ∧ [x, y] ≠ ethPAarp ∧ [x, y] ≠ ethPIpx := by
    by_cases hf : [x, 0] = field
    · refine ⟨1, ?_, by simp [ethPAarp], by simp [ethPIpx]⟩
      rw [← hf]
      simp
    · exact ⟨0, hf, by simp [ethPAarp], by simp [ethPIpx]⟩
  obtain ⟨rest, hrest⟩ : payload <+: hdr ++ [x, y] := by
    rw [← take_append_drop 6 payload]
    by_cases h6 : payload.length ≤ 6
    · rw [drop_eq_nil_of_le h6, append_nil]
      exact hpre.trans (prefix_append _ _)
    have hx : payload.drop 6 = [x] := by
      rw [drop_eq_getElem_cons (by omega), drop_eq_nil_of_le (by omega)]
      simp only [x, getD_eq_getElem?_getD]
      rw [List.getElem?_eq_getElem (by omega), Option.getD_some]
    rw [hpre.eq_of_length (by rw [length_take]; omega), hx]
    exact ⟨[y], by simp⟩
  have hrlen : payload.length + rest.length = 8 := by
    rw [← length_append, hrest, length_append, hhlen]
    rfl
  refine ⟨fun i => rest.getD i 0, [x, y], hfield, ?_⟩
  have hmem : ((List.range 8).map fun i => rest.getD i 0).take rest.length = rest := by
    apply ext_getElem
    · rw [length_take, length_map, length_range]
      omega
    · intro i h₁ h₂
      simp [h₂]
  rw [take_append, take_of_length_le (by omega),
    show 8 - payload.length = rest.length by omega, hmem, hrest]
  rw [get8023TunnelProto_eq, take_left' hhlen, drop_left' hhlen]
  refine if_neg ?_
  rintro ⟨hnot, hne⟩
  exact hnot ⟨hhdr.resolve_right hne, haarp, hipx⟩

/-- **A frame does not depend on the memory** behind its payload if and only if no tunnel header is
cut off. -/
theorem finishBytes_iff (sub : List UInt8) :
    (∀ behind, finishBytes args (EthHdr.read sub) behind (sub.drop ethHlen) = args.frameOf sub) ↔
      (args.mesh = false → ¬ CutTunnel (sub.drop ethHlen)) := by
  generalize hp : sub.drop ethHlen = payload
  unfold Args.frameOf
  rw [hp]
  dsimp only
  constructor
  · intro h hmesh hcut
    obtain ⟨behind, proto, hne, hproto⟩ := hcut.exists_behind (EthHdr.read sub).hProto
    have heq := h behind
    unfold finishBytes at heq
    rw [hmesh, if_neg (by decide), hproto] at heq
    dsimp only at heq
    rw [if_pos (Or.inr hcut.1 : false = true ∨ _), if_pos hcut.1, EthHdr.bytes, EthHdr.bytes,
      append_left_inj, append_right_inj] at heq
    exact hne heq
  · intro h behind
    unfold finishBytes
    cases hmesh : args.mesh with
    | true => simp
    | false =>
      have hcut := h hmesh
      by_cases h8 : payload.length < 8
      · have hnone : get8023TunnelProto ((payload ++ (List.range 8).map behind).take 8) = none := by
          cases hget : get8023TunnelProto ((payload ++ (List.range 8).map behind).take 8) with
          | none => rfl
          | some proto =>
            have hpre : payload.take 6 <+:
                ((payload ++ (List.range 8).map behind).take 8).take 6 := by
              rw [take_take, take_append]
              exact prefix_append _ _
            refine absurd ⟨h8, ?_⟩ hcut
            obtain hhdr | hhdr := get8023TunnelProto_isSome hget
            · exact .inl (hhdr ▸ hpre)
            · exact .inr (hhdr ▸ hpre)
        rw [if_neg (by decide), hnone, if_pos (Or.inr h8 : false = true ∨ _)]
      · have hlong : ¬(false = true ∨ payload.length < 8) := by simpa using h8
        rw [if_neg (by decide), take_append_of_le_length (by omega),
          get8023TunnelProto_take, if_neg hlong, if_neg h8]

theorem length_of_get8023TunnelProto {hdr proto : List UInt8} (hlen : 8 ≤ hdr.length)
    (h : get8023TunnelProto hdr = some proto) : proto.length = 2 := by
  rw [get8023TunnelProto_eq] at h
  dsimp only at h
  split at h <;> cases h
  rw [length_take, length_drop]
  omega

/-- A frame is as long as header and payload, or a tunnel header shorter. -/
theorem length_finishBytes {eth : EthHdr} (heth : eth.hProto.length = 2) (behind : ℕ → UInt8)
    (payload : List UInt8) : ∃ k, (k = 0 ∨ k = 8) ∧ k ≤ payload.length ∧
      (finishBytes args eth behind payload).length + k = eth.bytes.length + payload.length := by
  unfold finishBytes
  split
  next proto h =>
    split at h
    · cases h
    have hread : 8 ≤ ((payload ++ (List.range 8).map behind).take 8).length := by
      rw [length_take, length_append, length_map, length_range]
      omega
    have hproto := length_of_get8023TunnelProto hread h
    simp only [EthHdr.bytes, length_append, hproto, heth]
    split
    · exact ⟨0, .inl rfl, Nat.zero_le _, rfl⟩
    · exact ⟨8, .inr rfl, by omega, by rw [length_drop]; omega⟩
  · exact ⟨0, .inl rfl, Nat.zero_le _, length_append⟩

theorem finishBytes_ne {sub extra : List UInt8} (hsub : ethHlen ≤ sub.length) (hne : extra ≠ [])
    (hextra : extra.length < 8) (behind : ℕ → UInt8) :
    finishBytes args (EthHdr.read sub) behind (sub.drop ethHlen ++ extra) ≠ args.frameOf sub := by
  intro heq
  have hpos := length_pos_iff.mpr hne
  have hproto : (EthHdr.read sub).hProto.length = 2 := by
    unfold ethHlen at hsub
    rw [EthHdr.read, length_take, length_drop]
    omega
  obtain ⟨k, hk, hle, hlen⟩ := length_finishBytes hproto behind (sub.drop ethHlen ++ extra)
  rw [heq, length_append] at hlen
  by_cases h8 : (sub.drop ethHlen).length < 8
  · have hframe : args.frameOf sub = (EthHdr.read sub).bytes ++ sub.drop ethHlen := by
      rw [Args.frameOf, if_pos (.inr h8)]
    rw [hframe, length_append] at hlen
    omega
  · have hframe : finishBytes args _ behind _ = args.frameOf sub :=
      (finishBytes_iff sub).mpr (fun _ hcut => h8 hcut.1) behind
    obtain ⟨k', hk', hle', hlen'⟩ := length_finishBytes hproto behind (sub.drop ethHlen)
    rw [hframe] at hlen'
    omega

/-! ### The loop -/

/-- What the loop delivers from `offset` on, for the subframes found there. -/
def delivered (args : Args) (skb : SkBuff) (behind : ℕ → ℕ → UInt8) :
    ℕ → List (List UInt8) → List (List UInt8)
  | _, [] => []
  | offset, s :: subs =>
    let rest := delivered args skb behind (offset + s.length + padding 4 s.length) subs
    if args.filters (EthHdr.read s) then rest
    else
      finishBytes args (EthHdr.read s) (behind offset)
        (if !skb.isNonlinear && !skb.reuseFrag && subs.isEmpty then skb.bytes.drop (offset + ethHlen)
          else s.drop ethHlen) :: rest

theorem SkBuff.length_rest (skb : SkBuff) (offset : ℕ) :
    (skb.bytes.drop offset).length = skb.len - offset := length_drop

theorem SkBuff.length_take_rest {offset m : ℕ} (h : m ≤ skb.len - offset) :
    ((skb.bytes.drop offset).take m).length = m := by
  rw [length_take, skb.length_rest, Nat.min_eq_left h]

theorem EthHdr.read_take (data : List UInt8) {n : ℕ} (hn : ethHlen ≤ n) :
    EthHdr.read (data.take n) = EthHdr.read data := by
  unfold ethHlen at hn
  have hfield : ∀ i k, i + k ≤ n → ((data.take n).drop i).take k = (data.drop i).take k := by
    intro i k h
    rw [drop_take, take_take, Nat.min_eq_left (by omega)]
  have h6 := hfield 0 6 (by omega)
  rw [drop_zero, drop_zero] at h6
  rw [EthHdr.read, h6, hfield 6 6 (by omega), hfield 12 2 (by omega), EthHdr.read]

theorem SkBuff.bytes_of_linear (h : skb.isNonlinear = false) :
    skb.bytes = skb.head ∧ skb.len = skb.head.length := by
  unfold SkBuff.isNonlinear at h
  rw [bne_eq_false_iff_eq, Nat.add_eq_zero_iff] at h
  have hbytes : skb.bytes = skb.head := by
    rw [SkBuff.bytes, eq_nil_of_length_eq_zero h.1, eq_nil_of_length_eq_zero h.2,
      append_nil, append_nil]
  exact ⟨hbytes, by rw [SkBuff.len, hbytes]⟩

theorem pull_bytes (h : skb.isNonlinear = false) {n : ℕ} (hn : n ≤ skb.len) :
    (skb.pull n).bytes = skb.bytes.drop n ∧ (skb.pull n).len = (skb.pull n).head.length := by
  obtain ⟨hbytes, hlen⟩ := SkBuff.bytes_of_linear h
  have hpull : skb.pull n = { skb with head := skb.head.drop n } := if_neg (by omega)
  have hlin : (skb.pull n).isNonlinear = false := by
    rwa [hpull]
  obtain ⟨hbytes', hlen'⟩ := SkBuff.bytes_of_linear hlin
  exact ⟨by rw [hbytes', hbytes, hpull], hlen'⟩

theorem subframeLength_pos {data : List UInt8} {m : ℕ} (h : args.subframeLength data = some m) :
    ethHlen ≤ m := by
  unfold Args.subframeLength at h
  split at h <;> cases h
  exact Nat.le_add_right _ _

theorem subframeLength_copyBits (args : Args) (skb : SkBuff) (offset : ℕ)
    (h : args.copyLen ≤ skb.len - offset) :
    args.subframeLength (skb.bytes.drop offset) =
        some (ethHlen + amsduSubframeLength (EthHdr.read (skb.copyBits offset args.copyLen)).hProto
          (if args.mesh then (skb.copyBits offset args.copyLen).getD ethHlen 0 else args.flags)
          args.meshControl) ∧
      EthHdr.read (skb.copyBits offset args.copyLen) = EthHdr.read (skb.bytes.drop offset) := by
  have hlen := skb.length_rest offset
  have hcopy : ethHlen ≤ args.copyLen := by
    unfold Args.copyLen
    split
    · exact Nat.le_succ _
    · exact le_rfl
  have hread : EthHdr.read (skb.copyBits offset args.copyLen) = EthHdr.read (skb.bytes.drop offset) :=
    EthHdr.read_take _ hcopy
  refine ⟨?_, hread⟩
  unfold Args.subframeLength
  rw [if_neg (by omega), hread]
  cases hmesh : args.mesh with
  | false => rfl
  | true =>
    have hflags : (skb.copyBits offset args.copyLen).getD ethHlen 0 =
        (skb.bytes.drop offset).getD ethHlen 0 := by
      have hin : ethHlen < args.copyLen := by
        rw [Args.copyLen, hmesh]
        exact Nat.lt_succ_self _
      simp only [SkBuff.copyBits, getD_eq_getElem?_getD, List.getElem?_take, hin, if_true]
    rw [if_pos rfl, if_pos rfl, hflags]

theorem amsduLoop_purge {n offset : ℕ} {list : List SkBuff}
    (h : args.subframeLength (skb.bytes.drop offset) = none ∨
      (∃ m, args.subframeLength (skb.bytes.drop offset) = some m ∧ skb.len - offset < m) ∨
      offset = 0 ∧ isAmsduAggregationAttack (EthHdr.read skb.bytes) skb.bytes args.mesh = true) :
    amsduLoop args skb behind (n + 1) offset list = some [] := by
  unfold amsduLoop
  by_cases hc : args.copyLen > skb.len - offset
  · exact if_pos hc
  obtain ⟨hsub, hread⟩ := subframeLength_copyBits args skb offset
    (by omega)
  dsimp only
  rw [if_neg hc]
  obtain h | ⟨m, h, hm⟩ | ⟨rfl, h⟩ := h
  · rw [hsub] at h
    cases h
  · rw [hsub, Option.some.injEq] at h
    rw [h, if_pos hm]
  · rw [hread, drop_zero]
    exact ite_eq_left_iff.mpr fun _ => if_pos ⟨rfl, h⟩

section step
variable {n offset m : ℕ} {list : List SkBuff}
variable (hm : args.subframeLength (skb.bytes.drop offset) = some m) (hle : m ≤ skb.len - offset)
variable (hattack : offset = 0 →
  isAmsduAggregationAttack (EthHdr.read skb.bytes) skb.bytes args.mesh = false)
include hm hle hattack

variable (behind n list) in
theorem amsduLoop_succ (next : List SkBuff → Option (List SkBuff))
    (hnext : ∀ list, next list = if skb.len - offset ≤ m + padding 4 m then some list
      else amsduLoop args skb behind n (offset + m + padding 4 m) list) :
    ∃ minLen, 8 ≤ minLen ∧ amsduLoop args skb behind (n + 1) offset list =
      if args.filters (EthHdr.read (skb.bytes.drop offset)) then next list
      else if !skb.isNonlinear && !skb.reuseFrag &&
          decide (skb.len - offset ≤ m + padding 4 m) then
        next (list ++ [finishSkb args (EthHdr.read (skb.bytes.drop offset)) (behind offset)
          (skb.pull (offset + ethHlen))])
      else amsduCopy skb (offset + ethHlen) (m - ethHlen) skb.reuseFrag minLen >>= fun copy =>
        copy.elim (some []) fun frame =>
          next (list ++ [finishSkb args (EthHdr.read (skb.bytes.drop offset)) (behind offset)
            frame]) := by
  have hlen := skb.length_rest offset
  have hc : ¬ args.copyLen > skb.len - offset := by
    intro hc
    rw [Args.subframeLength, if_pos (by omega)] at hm
    cases hm
  obtain ⟨hsub, hread⟩ := subframeLength_copyBits args skb offset
    (by omega)
  rw [hsub, Option.some.injEq, hread] at hm
  have hnot : ¬(offset = 0 ∧ isAmsduAggregationAttack (EthHdr.read (skb.bytes.drop offset)) skb.bytes
      args.mesh = true) := by
    rintro ⟨rfl, h⟩
    rw [drop_zero, hattack rfl] at h
    cases h
  unfold amsduLoop
  dsimp only
  rw [if_neg hc, hread]
  refine ⟨32 + if args.mesh then getMeshHdrlen (if args.mesh then
    (skb.copyBits offset args.copyLen).getD ethHlen 0 else args.flags) else 0, by omega, ?_⟩
  have hlong : ¬ m > skb.len - offset := by omega
  generalize hl : amsduSubframeLength _ _ _ = len at hm ⊢
  subst hm
  rw [if_neg hlong, if_neg hnot, Nat.add_sub_cancel_left]
  simp only [hnext, decide_eq_true_eq, Nat.add_assoc]
  congr 2
  cases amsduCopy skb (offset + ethHlen) len skb.reuseFrag _ with
  | none => rfl
  | some copy => cases copy <;> rfl

variable (behind n list) in
theorem amsduLoop_step :
    ∃ frames : List SkBuff,
      frames.map SkBuff.bytes =
        (if args.filters (EthHdr.read (skb.bytes.drop offset)) then []
          else [finishBytes args (EthHdr.read (skb.bytes.drop offset)) (behind offset)
            (if !skb.isNonlinear && !skb.reuseFrag &&
                decide (skb.len - offset ≤ m + padding 4 m) then
              skb.bytes.drop (offset + ethHlen)
            else ((skb.bytes.drop offset).take m).drop ethHlen)]) ∧
      amsduLoop args skb behind (n + 1) offset list =
        if skb.len - offset ≤ m + padding 4 m then some (list ++ frames)
        else amsduLoop args skb behind n (offset + m + padding 4 m) (list ++ frames) := by
  have hpos : 14 ≤ m := subframeLength_pos hm
  have h14 : ethHlen = 14 := rfl
  obtain ⟨minLen, hmin, hsucc⟩ := amsduLoop_succ behind n list hm hle hattack
    _ fun _ => rfl
  rw [hsucc]
  by_cases hf : args.filters (EthHdr.read (skb.bytes.drop offset)) = true
  · exact ⟨[], by rw [if_pos hf]; rfl, by rw [if_pos hf, append_nil]⟩
  rw [if_neg hf, if_neg hf]
  by_cases hkeep : (!skb.isNonlinear && !skb.reuseFrag &&
      decide (skb.len - offset ≤ m + padding 4 m)) = true
  · rw [if_pos hkeep, if_pos hkeep]
    have hlin : skb.isNonlinear = false := by
      rw [Bool.and_eq_true, Bool.and_eq_true, Bool.not_eq_true'] at hkeep
      exact hkeep.1.1
    obtain ⟨hbytes, hpull⟩ := pull_bytes hlin (n := offset + ethHlen) (by omega)
    refine ⟨[_], ?_, rfl⟩
    rw [map_singleton, finishSkb_bytes (by omega), hbytes]
  · rw [if_neg hkeep, if_neg hkeep]
    obtain ⟨frame, hcopy, hbytes, hhead⟩ := amsduCopy_spec skb (offset + ethHlen)
      (m - ethHlen) (by omega) hmin
    have hflen : frame.len = m - ethHlen := by
      have htotal : skb.bytes.length = skb.len := rfl
      rw [SkBuff.len, hbytes, length_take, length_drop]
      omega
    rw [hcopy]
    refine ⟨[_], ?_, rfl⟩
    rw [map_singleton, finishSkb_bytes (by omega), hbytes, drop_take, drop_drop]

end step

theorem amsduLoop_spec (args : Args) (skb : SkBuff) (behind : ℕ → ℕ → UInt8) (n offset : ℕ)
    (list : List SkBuff) (hn : skb.len - offset < n) (hoff : offset ≤ skb.len)
    (hattack : offset = 0 →
      isAmsduAggregationAttack (EthHdr.read skb.bytes) skb.bytes args.mesh = false) :
    (splitFor 4 args.subframeLength n (skb.bytes.drop offset) = none →
      amsduLoop args skb behind n offset list = some []) ∧
    ∀ subs, splitFor 4 args.subframeLength n (skb.bytes.drop offset) = some subs →
      ∃ frames, amsduLoop args skb behind n offset list = some (list ++ frames) ∧
        frames.map SkBuff.bytes = delivered args skb behind offset subs := by
  induction n generalizing offset list with
  | zero => omega
  | succ n ih =>
    have hlen := skb.length_rest offset
    constructor
    · intro hnone
      -- the rest of the data is not well formed here, or later on
      cases hm : args.subframeLength (skb.bytes.drop offset) with
      | none => exact amsduLoop_purge (.inl hm)
      | some m =>
        by_cases hle : m ≤ skb.len - offset
        · obtain ⟨frames, -, hstep⟩ := amsduLoop_step behind n list hm hle hattack
          rw [splitFor, hm] at hnone
          dsimp only at hnone
          rw [if_neg (by omega)] at hnone
          split at hnone
          · cases hnone
          rename_i hlast
          have hpos : 14 ≤ m := subframeLength_pos hm
          rw [hlen] at hlast
          rw [hstep, if_neg hlast]
          refine (ih (offset + m + padding 4 m) _ (by omega) (by omega) (by omega)).1 ?_
          rw [Nat.add_assoc, ← drop_drop]
          exact Option.map_eq_none_iff.mp hnone
        · exact amsduLoop_purge (.inr (.inl ⟨m, hm, by omega⟩))
    · intro subs hsome
      obtain ⟨m, hm, hle, hcases⟩ := splitFor_succ_some hsome
      have hpos : 14 ≤ m := subframeLength_pos hm
      rw [hlen] at hle hcases
      have hslen := SkBuff.length_take_rest hle
      have hread := EthHdr.read_take (skb.bytes.drop offset) hpos
      obtain ⟨frames, hframes, hstep⟩ := amsduLoop_step behind n list hm hle hattack
      obtain ⟨hlast, rfl⟩ | ⟨hlast, rest, hrest, rfl⟩ := hcases
      · refine ⟨frames, by rw [hstep, if_pos hlast], ?_⟩
        rw [hframes, delivered, hread, decide_eq_true hlast]
        rfl
      have hne := splitFor_ne_nil hrest
      rw [drop_drop, ← Nat.add_assoc] at hrest
      obtain ⟨frames', hloop, hframes'⟩ := (ih (offset + m + padding 4 m) (list ++ frames)
        (by omega) (by omega) (by omega)).2 rest hrest
      refine ⟨frames ++ frames', ?_, ?_⟩
      · rw [hstep, if_neg (by omega), hloop, append_assoc]
      · rw [map_append, hframes, hframes', delivered, hread, hslen,
          decide_eq_false (by omega), isEmpty_eq_false_iff.mpr hne]
        split <;> rfl

/-! ### Result -/

/-- The condition for the subframes from `offset` on. -/
def CleanFrom (args : Args) (skb : SkBuff) (offset : ℕ) (subs : List (List UInt8)) : Prop :=
  (∀ s ∈ subs, args.passes s = true → args.mesh = false → ¬ CutTunnel (s.drop ethHlen)) ∧
    (skb.isNonlinear = false → skb.reuseFrag = false →
      (∀ s ∈ subs.getLast?, args.passes s = true) →
        offset + (concat 4 0 subs).length = skb.len)

theorem delivered_last {offset m : ℕ} (hm : args.subframeLength (skb.bytes.drop offset) = some m)
    (hle : m ≤ skb.len - offset) (hlast : skb.len - offset ≤ m + padding 4 m) :
    (∀ behind, delivered args skb behind offset [(skb.bytes.drop offset).take m] =
      ([(skb.bytes.drop offset).take m].filter args.passes).map args.frameOf) ↔
      CleanFrom args skb offset [(skb.bytes.drop offset).take m] := by
  have hpos : 14 ≤ m := subframeLength_pos hm
  have hlen := skb.length_rest offset
  have hslen := SkBuff.length_take_rest hle
  generalize hs : (skb.bytes.drop offset).take m = s at hslen ⊢
  unfold CleanFrom
  simp only [delivered, filter_singleton, mem_singleton, forall_eq, List.getLast?_singleton,
    Option.mem_def, Option.some.injEq, forall_eq', isEmpty_nil, Bool.and_true]
  cases hf : args.filters (EthHdr.read s) with
  | true => simp [Args.passes, hf]
  | false =>
    have hpass : args.passes s = true := by simp [Args.passes, hf]
    have hall : ∀ X : List UInt8,
        (∀ behind : ℕ → ℕ → UInt8, [finishBytes args (EthHdr.read s) (behind offset) X] =
          [args.frameOf s]) ↔ ∀ b, finishBytes args (EthHdr.read s) b X = args.frameOf s := by
      intro X
      constructor
      · intro h b
        exact singleton_inj.mp (h fun _ => b)
      · intro h behind
        rw [h]
    simp only [hpass, cond_true, Bool.false_eq_true, if_false, map_singleton, forall_const, hall]
    by_cases hkeep : (!skb.isNonlinear && !skb.reuseFrag) = true
    · rw [if_pos hkeep]
      rw [Bool.and_eq_true, Bool.not_eq_true', Bool.not_eq_true'] at hkeep
      have hX : skb.bytes.drop (offset + ethHlen) =
          s.drop ethHlen ++ (skb.bytes.drop offset).drop m := by
        rw [← drop_append_of_le_length (by rw [hslen]; exact hpos), ← hs,
          take_append_drop, drop_drop]
      have hend : offset + (concat 4 0 [s]).length = skb.len ↔
          (skb.bytes.drop offset).drop m = [] := by
        show offset + s.length = skb.len ↔ _
        rw [drop_eq_nil_iff, hslen]
        omega
      rw [hX, hend]
      simp only [hkeep.1, hkeep.2, forall_const]
      by_cases hnil : (skb.bytes.drop offset).drop m = []
      · rw [hnil, append_nil, finishBytes_iff]
        simp
      refine ⟨fun h => absurd (h fun _ => 0) ?_, fun h => absurd h.2 hnil⟩
      apply finishBytes_ne (by rw [hslen]; exact hpos) hnil
      have hpad := padding_lt (show 0 < 4 by decide) m
      rw [length_drop]
      omega
    · rw [if_neg hkeep, finishBytes_iff]
      constructor
      · intro h
        refine ⟨h, fun h₁ h₂ => absurd ?_ hkeep⟩
        rw [h₁, h₂]
        rfl
      · exact fun h => h.1

theorem delivered_cons {offset : ℕ} {s : List UInt8} {rest : List (List UInt8)} (hne : rest ≠ [])
    (ih : (∀ behind, delivered args skb behind (offset + s.length + padding 4 s.length) rest =
      (rest.filter args.passes).map args.frameOf) ↔
        CleanFrom args skb (offset + s.length + padding 4 s.length) rest) :
    (∀ behind, delivered args skb behind offset (s :: rest) =
      ((s :: rest).filter args.passes).map args.frameOf) ↔
      CleanFrom args skb offset (s :: rest) := by
  have hconcat : (concat 4 (0 : UInt8) (s :: rest)).length =
      s.length + padding 4 s.length + (concat 4 (0 : UInt8) rest).length := by
    rw [concat_cons, if_neg hne, length_append, length_append, length_replicate]
    omega
  have hclean : CleanFrom args skb offset (s :: rest) ↔
      (args.passes s = true → args.mesh = false → ¬ CutTunnel (s.drop ethHlen)) ∧
        CleanFrom args skb (offset + s.length + padding 4 s.length) rest := by
    obtain ⟨r, rs, rfl⟩ := exists_cons_of_ne_nil hne
    unfold CleanFrom
    rw [forall_mem_cons, List.getLast?_cons_cons, and_assoc, hconcat, ← Nat.add_assoc,
      ← Nat.add_assoc]
  rw [hclean, ← ih]
  simp only [delivered, isEmpty_eq_false_iff.mpr hne, Bool.and_false, Bool.false_eq_true, if_false]
  cases hf : args.filters (EthHdr.read s) with
  | true =>
    have hpass : args.passes s = false := by simp [Args.passes, hf]
    simp [hpass]
  | false =>
    have hpass : args.passes s = true := by simp [Args.passes, hf]
    simp only [hpass, filter_cons_of_pos, map_cons, List.cons.injEq, Bool.false_eq_true,
      if_false, forall_const, forall_and, ← finishBytes_iff]
    refine and_congr_left fun _ => ⟨fun h b => h fun _ => b, fun h behind => h _⟩

/-- **The frames are those that are meant**, whatever is in memory, if and only if the condition
holds. -/
theorem delivered_iff (n offset : ℕ) (subs : List (List UInt8))
    (h : splitFor 4 args.subframeLength n (skb.bytes.drop offset) = some subs) :
    (∀ behind, delivered args skb behind offset subs =
      (subs.filter args.passes).map args.frameOf) ↔ CleanFrom args skb offset subs := by
  induction n generalizing offset subs with
  | zero => cases h
  | succ n ih =>
    have hlen := skb.length_rest offset
    obtain ⟨m, hm, hle, ⟨hlast, rfl⟩ | ⟨hlast, rest, hrest, rfl⟩⟩ := splitFor_succ_some h
    · exact delivered_last hm (by omega) (by omega)
    apply delivered_cons (splitFor_ne_nil hrest)
    rw [SkBuff.length_take_rest (by omega)]
    rw [drop_drop, ← Nat.add_assoc] at hrest
    exact ih _ _ hrest

/-- **De-aggregation does not depend on the storage** of the buffer or the memory behind it, if and
only if the subframes are cleanly stored. -/
theorem amsdu_storage_iff (args : Args) (skb : SkBuff) :
    (∀ behind, ∃ frames, amsduTo8023s args skb behind = some frames ∧
      frames.map SkBuff.bytes = args.deaggregate skb.bytes) ↔ CleanlyStored args skb := by
  cases hattack : isAmsduAggregationAttack (EthHdr.read skb.bytes) skb.bytes args.mesh with
  | true =>
    refine ⟨fun _ subs _ h => (nomatch hattack.symm.trans h), fun _ behind => ⟨[], ?_, ?_⟩⟩
    · exact amsduLoop_purge (.inr (.inr ⟨rfl, hattack⟩))
    · unfold Args.deaggregate
      rw [hattack]
      split <;> rfl
  | false =>
    have hloop := fun behind => amsduLoop_spec args skb behind (skb.len + 1) 0 [] (by omega)
      (by omega) fun _ => hattack
    have hsplit : splitFor 4 args.subframeLength (skb.len + 1) (skb.bytes.drop 0) =
        split 4 args.subframeLength skb.bytes := rfl
    cases hsubs : split 4 args.subframeLength skb.bytes with
    | none =>
      refine ⟨fun _ subs h => (nomatch hsubs.symm.trans h), fun _ behind => ⟨[], ?_, ?_⟩⟩
      · exact (hloop behind).1 hsubs
      · rw [Args.deaggregate, hsubs]
        rfl
    | some subs =>
      have hmeant : args.deaggregate skb.bytes = (subs.filter args.passes).map args.frameOf := by
        rw [Args.deaggregate, hsubs]
        dsimp only
        rw [hattack, if_neg (by decide)]
      have hclean : CleanlyStored args skb ↔ CleanFrom args skb 0 subs := by
        unfold CleanlyStored CleanFrom
        rw [hsubs, hattack]
        simp
      rw [hclean, ← delivered_iff (skb.len + 1) 0 subs (hsplit.trans hsubs), hmeant]
      refine forall_congr' fun behind => ?_
      obtain ⟨frames, hframes, hbytes⟩ := (hloop behind).2 subs hsubs
      rw [← hbytes]
      constructor
      · rintro ⟨frames', hframes', h⟩
        have hsame : some frames' = some frames := hframes'.symm.trans hframes
        rw [← h, Option.some.inj hsame]
      · exact fun h => ⟨frames, hframes, h⟩

def station : Args := ⟨false, none, none, 0, 0⟩

/-- One subframe with one byte of payload, followed by a byte of padding. -/
def paddedAmsdu : List UInt8 := [0, 1, 2, 3, 4, 5, 0, 1, 2, 3, 4, 6, 0, 1, 0x11, 0x22]

def emptyAmsdu : List UInt8 := [0, 1, 2, 3, 4, 5, 0, 1, 2, 3, 4, 6, 0, 0]

/-- The same bytes in a linear buffer and with two of them in a fragment; and an empty subframe,
where the memory behind the frame decides on the EtherType. -/
theorem storage_and_memory_seen :
    (∃ frames, amsduTo8023s station ⟨paddedAmsdu, [], [], false⟩ (fun _ _ => 0) = some frames ∧
      frames.map SkBuff.bytes = [paddedAmsdu]) ∧
    (∃ frames, amsduTo8023s station ⟨paddedAmsdu.take 14, [paddedAmsdu.drop 14], [], false⟩
        (fun _ _ => 0) = some frames ∧
      frames.map SkBuff.bytes = [paddedAmsdu.take 15]) ∧
    station.deaggregate paddedAmsdu = [paddedAmsdu.take 15] ∧
    (∃ frames, amsduTo8023s station ⟨emptyAmsdu, [], [], false⟩
        (fun _ i => (rfc1042Header ++ [8, 6]).getD i 0) = some frames ∧
      frames.map SkBuff.bytes = [emptyAmsdu.take 12 ++ [8, 6]]) ∧
    station.deaggregate emptyAmsdu = [emptyAmsdu] := by
  refine ⟨⟨_, rfl, by decide⟩, ⟨_, rfl, by decide⟩, by decide, ⟨_, rfl, by decide⟩, by decide⟩

end Iwlwifi.Cfg80211.AmsduSkb
