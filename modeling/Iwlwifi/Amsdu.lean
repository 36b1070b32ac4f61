import Iwlwifi.Bytes
import Iwlwifi.Header
import Iwlwifi.Aligned

/-! # De-aggregation of A-MSDUs

A model of `ieee80211_amsdu_to_8023s` of `net/wireless/util.c`, which turns the body of an A-MSDU
into Ethernet frames.

* **Subframes** (`Subframe`): two addresses, the length of the MSDU, and the MSDU.  In the body of
  an A-MSDU every subframe but the last is padded to a multiple of 4 bytes (`body`).
* **The loop** (`amsduLoop`) reads a header, checks that the subframe is complete, and copies it.
  A body that is not well formed gives no frame at all.
* **Conversion** (`finish`): an RFC 1042 or bridge-tunnel header of the MSDU is dropped and its
  EtherType moved to the Ethernet header.
* `split_body` and `amsduTo8023s_body`: a body that is made of subframes gives the subframes back. -/

namespace Iwlwifi.Cfg80211.Amsdu

open Bytes List
open Ieee80211 (isMulticastEtherAddr)

def ethAlen : ℕ := 6

/-- `sizeof(struct ethhdr)`. -/
def ethHlen : ℕ := 14

/-- `struct ethhdr`; the fields are byte strings. -/
structure EthHdr where
  hDest : List UInt8
  hSource : List UInt8
  hProto : List UInt8
deriving DecidableEq

def EthHdr.bytes (eth : EthHdr) : List UInt8 := eth.hDest ++ eth.hSource ++ eth.hProto

def EthHdr.read (data : List UInt8) : EthHdr :=
  ⟨data.take 6, (data.drop 6).take 6, (data.drop 12).take 2⟩

def rfc1042Header : List UInt8 := [0xaa, 0xaa, 0x03, 0x00, 0x00, 0x00]
def bridgeTunnelHeader : List UInt8 := [0xaa, 0xaa, 0x03, 0x00, 0x00, 0xf8]

/-- `htons(ETH_P_AARP)`, `htons(ETH_P_IPX)`. -/
def ethPAarp : List UInt8 := [0x80, 0xf3]
def ethPIpx : List UInt8 := [0x81, 0x37]

/-- `__ieee80211_get_mesh_hdrlen`. -/
def getMeshHdrlen (flags : UInt8) : ℕ :=
  if flags &&& 3 = 1 then 12 else if flags &&& 3 = 2 then 18 else 6

/-- `ieee80211_get_8023_tunnel_proto`. -/
def get8023TunnelProto (hdr : List UInt8) : Option (List UInt8) :=
  let hdrProto := (hdr.drop ethAlen).take 2
  if ¬(hdr.take ethAlen = rfc1042Header ∧ hdrProto ≠ ethPAarp ∧ hdrProto ≠ ethPIpx) ∧
      hdr.take ethAlen ≠ bridgeTunnelHeader then none
  else some hdrProto

/-- `ieee80211_amsdu_subframe_length`. -/
def amsduSubframeLength (field : List UInt8) (meshFlags : UInt8) (hdrType : ℕ) : ℕ :=
  let len := if hdrType ≥ 2 then le16 field 0 else be16 field 0
  (if hdrType ≠ 0 then len + getMeshHdrlen meshFlags else len) % 65536

/-- `is_amsdu_aggregation_attack`: the A-MSDU starts like an MSDU. -/
def isAmsduAggregationAttack (eth : EthHdr) (skb : List UInt8) (mesh : Bool) : Bool :=
  if !mesh then eth.hDest == rfc1042Header
  else
    let offset := getMeshHdrlen (eth.hDest.getD 0 0)
    if offset = 6 then eth.hSource == rfc1042Header
    else if offset + ethAlen ≤ skb.length then (skb.drop offset).take ethAlen == rfc1042Header
    else false

/-- The arguments of `ieee80211_amsdu_to_8023s`, whether the buffer is linear, and whether its pages
are to be reused. -/
structure Config where
  mesh : Bool
  checkDa : Option (List UInt8)
  checkSa : Option (List UInt8)
  meshControl : ℕ
  linear : Bool
  reuseFrag : Bool

/-- The subframe is for somebody else. -/
def Config.filters (cfg : Config) (eth : EthHdr) : Bool :=
  cfg.checkDa.any (fun da => !isMulticastEtherAddr eth.hDest && da != eth.hDest) ||
    cfg.checkSa.any (fun sa => sa != eth.hSource)

def finish (cfg : Config) (eth : EthHdr) (frame : List UInt8) : List UInt8 :=
  match if cfg.mesh then none else get8023TunnelProto frame with
  | some proto => { eth with hProto := proto }.bytes ++ frame.drop (ethAlen + 2)
  | none => eth.bytes ++ frame

section loop
variable (cfg : Config) (skb : List UInt8)

/-- The loop of `ieee80211_amsdu_to_8023s` from an offset on: the frames, or nothing when the list is
purged. -/
def amsduLoop : ℕ → ℕ → Option (List (List UInt8))
  | 0, _ => none
  | n + 1, offset =>
    let remaining := skb.length - offset
    let copyLen := if cfg.mesh then ethHlen + 1 else ethHlen
    if copyLen > remaining then none
    else
      let eth := EthHdr.read (skb.drop offset)
      let flags := skb.getD (offset + ethHlen) 0
      let len := amsduSubframeLength eth.hProto flags cfg.meshControl
      let subframeLen := ethHlen + len
      let padding := (4 - subframeLen % 4) % 4
      if subframeLen > remaining then none
      else if offset = 0 ∧ isAmsduAggregationAttack eth skb cfg.mesh then none
      else
        let last := decide (remaining ≤ subframeLen + padding)
        let rest := if last then some [] else amsduLoop n (offset + ethHlen + len + padding)
        if cfg.filters eth then rest
        else
          let frame :=
            -- the buffer itself becomes the last frame, without being trimmed
            if cfg.linear && !cfg.reuseFrag && last then skb.drop (offset + ethHlen)
            else (skb.drop (offset + ethHlen)).take len
          rest.map (finish cfg eth frame :: ·)

/-- `ieee80211_amsdu_to_8023s`. -/
def amsduTo8023s : List (List UInt8) := (amsduLoop cfg skb (skb.length + 1) 0).getD []

end loop

/-! ### Bodies made of subframes -/

structure Subframe where
  da : List UInt8
  sa : List UInt8
  msdu : List UInt8
  length_da : da.length = 6
  length_sa : sa.length = 6
  short : msdu.length < 65536

namespace Subframe

def eth (s : Subframe) : EthHdr := ⟨s.da, s.sa, putBe16 s.msdu.length⟩

def bytes (s : Subframe) : List UInt8 := s.eth.bytes ++ s.msdu

variable (s : Subframe)

theorem length_eth_bytes : s.eth.bytes.length = 14 := by
  simp [EthHdr.bytes, eth, s.length_da, s.length_sa, putBe16]

theorem length_bytes : s.bytes.length = 14 + s.msdu.length := by
  rw [bytes, length_append, length_eth_bytes]

theorem bytes_ne_nil : s.bytes ≠ [] := by
  have h := s.length_bytes
  exact ne_nil_of_length_pos (by omega)

theorem read_bytes (rest : List UInt8) : EthHdr.read (s.bytes ++ rest) = s.eth := by
  have h6 : (s.bytes ++ rest).drop 6 = s.sa ++ (putBe16 s.msdu.length ++ (s.msdu ++ rest)) := by
    simp only [bytes, EthHdr.bytes, eth, append_assoc]
    exact drop_left' s.length_da
  have h12 : (s.bytes ++ rest).drop 12 = putBe16 s.msdu.length ++ (s.msdu ++ rest) := by
    rw [show (12 : ℕ) = 6 + 6 from rfl, ← drop_drop, h6]
    exact drop_left' s.length_sa
  rw [EthHdr.read, h6, h12, take_left' s.length_sa, eth]
  congr 1
  simp only [bytes, EthHdr.bytes, eth, append_assoc]
  exact take_left' s.length_da

end Subframe

def body (subs : List Subframe) : List UInt8 := Aligned.concat 4 0 (subs.map Subframe.bytes)

/-- The length of the subframe at the beginning of a byte string. -/
def subframeLen (data : List UInt8) : Option ℕ :=
  if data.length < ethHlen then none
  else some (ethHlen + amsduSubframeLength (EthHdr.read data).hProto 0 0)

theorem amsduSubframeLength_eth (s : Subframe) (flags : UInt8) :
    amsduSubframeLength s.eth.hProto flags 0 = s.msdu.length := by
  have h := s.short
  simp only [amsduSubframeLength, Subframe.eth, be16_putBe16]
  simp
  omega

theorem subframeLen_bytes (s : Subframe) (rest : List UInt8) :
    subframeLen (s.bytes ++ rest) = some s.bytes.length := by
  rw [subframeLen, if_neg (by rw [length_append, s.length_bytes, ethHlen]; omega),
    s.read_bytes, amsduSubframeLength_eth, s.length_bytes, ethHlen]

theorem split_body {subs : List Subframe} (hne : subs ≠ []) :
    Aligned.split 4 subframeLen (body subs) = some (subs.map Subframe.bytes) := by
  apply Aligned.split_concat
  · intro r hr
    obtain ⟨s, -, rfl⟩ := mem_map.mp hr
    exact ⟨s.bytes_ne_nil, subframeLen_bytes s⟩
  · simpa using hne

theorem body_cons (s : Subframe) (subs : List Subframe) :
    body (s :: subs) = s.bytes ++
      if subs = [] then [] else
        List.replicate (Aligned.padding 4 s.bytes.length) 0 ++ body subs := by
  rw [body, map_cons, Aligned.concat_cons]
  simp only [map_eq_nil_iff]
  rfl

/-- A receiver that is not a mesh point and takes frames from and for everybody. -/
structure Plain (cfg : Config) : Prop where
  mesh : cfg.mesh = false
  checkDa : cfg.checkDa = none
  checkSa : cfg.checkSa = none
  meshControl : cfg.meshControl = 0

section plain
variable {cfg : Config} (hcfg : Plain cfg) {skb : List UInt8}
include hcfg

theorem Plain.filters (eth : EthHdr) : cfg.filters eth = false := by
  simp [Config.filters, hcfg.checkDa, hcfg.checkSa]

theorem amsduLoop_step {n offset : ℕ} {s : Subframe} {rest : List UInt8}
    (hskb : skb.drop offset = s.bytes ++ rest)
    (hattack : offset = 0 → s.da ≠ rfc1042Header) :
    amsduLoop cfg skb (n + 1) offset =
      (if rest.length ≤ Aligned.padding 4 s.bytes.length then some []
        else amsduLoop cfg skb n (offset + s.bytes.length + Aligned.padding 4 s.bytes.length)).map
        (finish cfg s.eth
          (if cfg.linear && !cfg.reuseFrag &&
              decide (rest.length ≤ Aligned.padding 4 s.bytes.length) then s.msdu ++ rest
            else s.msdu) :: ·) := by
  have hlen : skb.length - offset = 14 + s.msdu.length + rest.length := by
    rw [← length_drop, hskb, length_append, s.length_bytes]
  have hdata : skb.drop (offset + ethHlen) = s.msdu ++ rest := by
    rw [← drop_drop, hskb, Subframe.bytes, append_assoc]
    exact drop_left' s.length_eth_bytes
  have hno : ¬(offset = 0 ∧ isAmsduAggregationAttack s.eth skb false = true) := by
    rintro ⟨h0, h⟩
    exact hattack h0 (by simpa [isAmsduAggregationAttack, Subframe.eth] using h)
  have hpad : (4 - (ethHlen + s.msdu.length) % 4) % 4 = Aligned.padding 4 s.bytes.length := by
    rw [s.length_bytes]
    rfl
  have hlast : (14 + s.msdu.length + rest.length ≤
      ethHlen + s.msdu.length + Aligned.padding 4 s.bytes.length) ↔
      rest.length ≤ Aligned.padding 4 s.bytes.length := by
    rw [ethHlen]
    omega
  have hoff : offset + ethHlen + s.msdu.length = offset + s.bytes.length := by
    rw [s.length_bytes, ethHlen]
    omega
  rw [amsduLoop, hskb, s.read_bytes, hcfg.mesh, hcfg.meshControl]
  simp only [amsduSubframeLength_eth, hcfg.filters, hlen, hdata, hpad, hlast, hoff, take_left,
    Bool.false_eq_true, if_false, decide_eq_true_eq]
  rw [if_neg (by rw [ethHlen]; omega), if_neg (by rw [ethHlen]; omega), if_neg hno]

theorem amsduLoop_body {subs : List Subframe} (hne : subs ≠ []) {n offset : ℕ}
    (hskb : skb.drop offset = body subs) (hn : (body subs).length < n)
    (hattack : offset = 0 → ∀ s ∈ subs.head?, s.da ≠ rfc1042Header) :
    amsduLoop cfg skb n offset = some (subs.map fun s => finish cfg s.eth s.msdu) := by
  induction subs generalizing n offset with
  | nil => exact absurd rfl hne
  | cons s subs ih =>
    have hs := s.length_bytes
    cases n with
    | zero => omega
    | succ n =>
      rw [body_cons] at hskb hn
      rw [amsduLoop_step hcfg hskb fun h0 => hattack h0 s rfl]
      rcases eq_or_ne subs [] with rfl | hsubs
      · simp
      rw [if_neg hsubs] at hskb hn ⊢
      have hbody : 14 ≤ (body subs).length := by
        obtain ⟨t, ts, rfl⟩ := exists_cons_of_ne_nil hsubs
        rw [body_cons, length_append, t.length_bytes]
        omega
      have hrest : ¬(List.replicate (Aligned.padding 4 s.bytes.length) 0 ++
          body subs).length ≤ Aligned.padding 4 s.bytes.length := by
        rw [length_append, length_replicate]
        omega
      have hdrop : skb.drop (offset + s.bytes.length + Aligned.padding 4 s.bytes.length) =
          body subs := by
        rw [Nat.add_assoc, ← drop_drop, hskb, ← append_assoc]
        exact drop_left' (by rw [length_append, length_replicate])
      rw [length_append, length_append, length_replicate] at hn
      rw [if_neg hrest, ih hsubs hdrop (by omega) (by omega), decide_eq_false hrest, Bool.and_false]
      rfl

/-- **De-aggregation** gives a frame for every subframe, unless the first address is the beginning
of an RFC 1042 header. -/
theorem amsduTo8023s_body {subs : List Subframe} (hne : subs ≠ [])
    (hattack : ∀ s ∈ subs.head?, s.da ≠ rfc1042Header) :
    amsduTo8023s cfg (body subs) = subs.map fun s => finish cfg s.eth s.msdu := by
  rw [amsduTo8023s, amsduLoop_body hcfg hne rfl (Nat.lt_succ_self _) fun _ => hattack]
  rfl

end plain

end Iwlwifi.Cfg80211.Amsdu
