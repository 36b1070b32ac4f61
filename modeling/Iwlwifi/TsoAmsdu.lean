import Iwlwifi.Amsdu
import Iwlwifi.Memory
import Iwlwifi.Pieces

/-! # A-MSDUs from TCP segmentation offload

A model of `iwl_fill_data_tbs_amsdu` (`pcie/tx.c`) and `iwl_txq_gen2_build_amsdu`
(`pcie/tx-gen2.c`): the driver cuts the payload of a large TCP frame into subframes of an A-MSDU and
describes them to the device by a list of transmit buffers (TBs).

* **Headers.**  The header of a subframe, the padding of the subframe before it, and the SNAP, IP
  and TCP headers are written to a page, one after the other (`Build.area`); a TB points to each.
* **Payload.**  The payload is mapped for DMA in segments; it is cut at the ends of subframes and at
  the ends of the pieces of the buffer (`putPayload`).
* **The kernel's helpers** are a parameter (`TsoOps`), with their documented behaviour as a
  hypothesis (`Documented`); so is the DMA mapping, which may join pieces but does not divide them
  (`Pieces.Coarser`).
* The two functions differ in the IV, which only the older devices have in the buffer, and in how a
  TB is added (`putPage`, `putData`).  `tso_amsdu_splits` is the result for both. -/

namespace Iwlwifi.Pcie.Tso

open Bytes Pieces Cfg80211.Amsdu List
open Memory (Mem load)
open Ieee80211
open Cfg80211.Amsdu (Subframe body)

/-! ### Frames -/

/-- A frame to send: the linear part, which starts with the MAC header, its fragments, and the
lengths of the IP and TCP headers and of the segments. -/
structure Skb where
  head : List UInt8
  frags : List (List UInt8)
  networkHeaderLen : ℕ
  tcpHdrlen : ℕ
  gsoSize : ℕ

namespace Skb

def len (skb : Skb) : ℕ := skb.head.length + skb.frags.flatten.length

/-- `skb_pull`. -/
def pull (skb : Skb) (n : ℕ) : Skb := { skb with head := skb.head.drop n }

/-- `8 + ip_hdrlen + tcp_hdrlen(skb)`. -/
def snapIpTcpHdrlen (skb : Skb) : ℕ := 8 + skb.networkHeaderLen + skb.tcpHdrlen

/-- The pieces of the payload, behind headers of the given length. -/
def pieces (skb : Skb) (n : ℕ) : List (List UInt8) := skb.head.drop n :: skb.frags

end Skb

def hasTods (fc : ℕ) : Bool := fc &&& 0x0100 != 0
def hasFromds (fc : ℕ) : Bool := fc &&& 0x0200 != 0

/-- `ieee80211_get_DA`. -/
def getDA (hdr : List UInt8) : List UInt8 :=
  (hdr.drop (if hasTods (frameControl hdr) then 16 else 4)).take 6

/-- `ieee80211_get_SA`. -/
def getSA (hdr : List UInt8) : List UInt8 :=
  (hdr.drop (if hasA4 (frameControl hdr) then 24
    else if hasFromds (frameControl hdr) then 16 else 10)).take 6

/-! ### Kernel interfaces -/

/-- The helpers for TCP segmentation, with their state `struct tso_t`: what is left of the current
piece (`tso->data`, of length `tso->size`). -/
structure TsoOps (τ : Type) where
  data : τ → List UInt8
  start : Skb → τ
  buildHdr : Skb → τ → ℕ → Bool → List UInt8 × τ
  buildData : Skb → τ → ℕ → τ

/-- The documented behaviour of the helpers for a buffer whose headers have the length `hdrlen`:
the state has a cursor in the payload, whose piece is `tso->data`. -/
structure Documented {τ : Type} (ops : TsoOps τ) (cursor : τ → List (List UInt8)) (skb : Skb)
    (hdrlen : ℕ) : Prop where
  start : cursor (ops.start skb) = start (skb.pieces hdrlen)
  data : ∀ t p ps, cursor t = p :: ps → ops.data t = p
  length_buildHdr : ∀ t n last, (ops.buildHdr skb t n last).1.length = hdrlen
  cursor_buildHdr : ∀ t n last, cursor (ops.buildHdr skb t n last).2 = cursor t
  cursor_buildData : ∀ t n, cursor (ops.buildData skb t n) = advance (cursor t) n

/-- A mapped area of the scatter-gather table: `sg_dma_address`, `sg_dma_len`. -/
structure Seg where
  addr : ℕ
  len : ℕ

/-- `iwl_pcie_get_sgt_tb_phys`, from the entry with offset `sgOffset` on; nothing stands for
`DMA_MAPPING_ERROR`. -/
def getSgtTbPhys (offset len : ℕ) : ℕ → List Seg → Option ℕ
  | _, [] => none
  | sgOffset, sg :: sgl =>
    if sgOffset ≤ offset ∧ offset + len ≤ sgOffset + sg.len then
      some (sg.addr + offset - sgOffset)
    else getSgtTbPhys offset len (sgOffset + sg.len) sgl

/-! ### Transmit buffers -/

/-- A TB: a part of the page of headers, a part of the mapped payload, or a page with a copy. -/
inductive Tb
  | page (off len : ℕ)
  | dma (addr len : ℕ)
  | copied (data : List UInt8)

def Tb.bytes (mem : Mem) (area : List UInt8) : Tb → List UInt8
  | .page off len => (area.drop off).take len
  | .dma addr len => load mem addr len
  | .copied data => data

def described (mem : Mem) (area : List UInt8) (tbs : List Tb) : List UInt8 :=
  tbs.flatMap (Tb.bytes mem area)

inductive Gen
  | gen1
  | gen2

/-- A device: its kind, the number of TBs of a frame, and `IWL_TSO_PAGE_DATA_SIZE`. -/
structure Hw where
  gen : Gen
  maxTbs : ℕ
  pageDataSize : ℕ

/-- The lengths that a TB can hold are below this: 12 bits, or 16. -/
def Hw.tbLimit (hw : Hw) : ℕ :=
  match hw.gen with
  | .gen1 => 2 ^ 12
  | .gen2 => 2 ^ 16

/-- `trans->info.max_skb_frags`, that is `IWL_TRANS_PCIE_MAX_FRAGS`. -/
def Hw.maxSkbFrags (hw : Hw) : ℕ := hw.maxTbs - 3

/-- Two TBs, with the command and the MAC header, are there already. -/
def numTbs (tbs : List Tb) : ℕ := 2 + tbs.length

/-- `iwl_pcie_txq_build_tfd` or `iwl_txq_gen2_set_tb` for a part of the page, ignoring the result.
-/
def putPage (hw : Hw) (tbs : List Tb) (off len : ℕ) : List Tb :=
  if numTbs tbs ≥ hw.maxTbs then tbs else tbs ++ [.page off (len % hw.tbLimit)]

/-- `iwl_txq_crosses_4g_boundary`. -/
def crosses4gBoundary (phys len : ℕ) : Bool := phys / 2 ^ 32 != (phys + len) / 2 ^ 32

/-- A TB for payload: `iwl_pcie_txq_build_tfd`, ignoring the result, or
`iwl_txq_gen2_set_tb_with_wa`. -/
def putData (hw : Hw) (tbs : List Tb) (phys : ℕ) (virt : List UInt8) (len : ℕ) :
    Option (List Tb) :=
  match hw.gen with
  | .gen1 =>
    if numTbs tbs ≥ hw.maxTbs then some tbs
    else if phys ≥ 2 ^ 36 then some tbs
    else some (tbs ++ [.dma phys (len % hw.tbLimit)])
  | .gen2 =>
    let len := len % hw.tbLimit
    if !crosses4gBoundary phys len then
      if numTbs tbs ≥ hw.maxTbs then none else some (tbs ++ [.dma phys len])
    else if len > hw.pageDataSize then none
    else if numTbs tbs ≥ hw.maxTbs then none
    else some (tbs ++ [.copied (virt.take len)])

/-! ### Building -/

/-- The variables of the loop; `pos_hdr` is the end of `area`, and `start_hdr` an offset in it. -/
structure Build (τ : Type) where
  tso : τ
  totalLen : ℕ
  amsduPad : ℕ
  area : List UInt8
  startHdr : ℕ
  cmdLen : ℕ
  dataOffset : ℕ
  tbs : List Tb

section build
variable {τ : Type} (ops : TsoOps τ) (hw : Hw) (sgt : List Seg) (skb : Skb)

/-- "put the payload": the loop over `data_left`.  An iteration ends the subframe or a piece. -/
def putPayload : ℕ → τ → ℕ → ℕ → List Tb → Option (τ × ℕ × List Tb)
  | 0, _, _, _, _ => none
  | n + 1, tso, dataLeft, dataOffset, tbs =>
    if dataLeft = 0 then some (tso, dataOffset, tbs)
    else
      let size := min (ops.data tso).length dataLeft
      match getSgtTbPhys dataOffset size 0 sgt with
      | none => none
      | some tbPhys =>
        match putData hw tbs tbPhys (ops.data tso) size with
        | none => none
        | some tbs =>
          putPayload n (ops.buildData skb tso size) (dataLeft - size) (dataOffset + size) tbs

variable (da sa : List UInt8)

/-- The bytes in front of the payload of a subframe: padding of the subframe before it, header of
the subframe, and what `tso_build_hdr` writes. -/
def subframeHdrs (amsduPad length : ℕ) (hdr : List UInt8) : List UInt8 :=
  List.replicate amsduPad 0 ++ da ++ sa ++ putBe16 length ++ hdr

def buildSubframe (st : Build τ) : Option (Build τ) :=
  let dataLeft := min skb.gsoSize st.totalLen
  let totalLen := st.totalLen - dataLeft
  let (hdr, tso) := ops.buildHdr skb st.tso dataLeft (totalLen = 0)
  let hdrs := subframeHdrs da sa st.amsduPad (skb.snapIpTcpHdrlen + dataLeft) hdr
  let area := st.area ++ hdrs
  let tbs := putPage hw st.tbs st.startHdr (area.length - st.startHdr)
  match putPayload ops hw sgt skb (skb.frags.length + 2) tso dataLeft st.dataOffset tbs with
  | none => none
  | some (tso, dataOffset, tbs) =>
    some
      { tso, totalLen, area, dataOffset, tbs
        amsduPad := (4 - (14 + skb.snapIpTcpHdrlen + dataLeft) % 4) % 4
        startHdr := area.length
        cmdLen := (st.cmdLen + hdrs.length) % 2 ^ 16 }

/-- `while (total_len)`. -/
def buildSubframes : ℕ → Build τ → Option (Build τ)
  | 0, st => if st.totalLen = 0 then some st else none
  | n + 1, st =>
    if st.totalLen = 0 then some st
    else (buildSubframe ops hw sgt skb da sa st).bind (buildSubframes n)

end build

section amsdu
variable {τ : Type} (ops : TsoOps τ) (hw : Hw) (sgt : List Seg) (skb : Skb)

/-- `DIV_ROUND_UP`. -/
def divRoundUp (n d : ℕ) : ℕ := (n + d - 1) / d

/-- `hdr_room`. -/
def hdrRoom (skb : Skb) (totalLen ivLen : ℕ) : ℕ :=
  divRoundUp totalLen skb.gsoSize * (3 + skb.snapIpTcpHdrlen + 14) + ivLen

/-- The two functions, for an IV of the given length. -/
def buildAmsdu (hdrLen ivLen : ℕ) : Option (Build τ) :=
  let totalLen := skb.len - skb.snapIpTcpHdrlen - hdrLen - ivLen
  let pulled := skb.pull (hdrLen + ivLen)
  buildSubframes ops hw sgt pulled (getDA skb.head) (getSA skb.head) totalLen
    { tso := ops.start pulled
      totalLen
      amsduPad := 0
      area := (skb.head.drop hdrLen).take ivLen
      startHdr := 0
      cmdLen := (skb.len + (2 ^ 16 - skb.snapIpTcpHdrlen % 2 ^ 16)) % 2 ^ 16
      dataOffset := 0
      tbs := [] }

/-- The IV of a protected frame, `IEEE80211_CCMP_HDR_LEN`. -/
def ivLen (hdr : List UInt8) : ℕ := if hasProtected (frameControl hdr) then 8 else 0

/-- `iwl_fill_data_tbs_amsdu`. -/
def fillDataTbsAmsdu (maxTbs pageDataSize : ℕ) (hdrLen : ℕ) : Option (Build τ) :=
  buildAmsdu ops ⟨.gen1, maxTbs, pageDataSize⟩ sgt skb hdrLen (ivLen skb.head)

/-- `iwl_txq_gen2_build_amsdu`. -/
def gen2BuildAmsdu (maxTbs pageDataSize : ℕ) (hdrLen : ℕ) : Option (Build τ) :=
  buildAmsdu ops ⟨.gen2, maxTbs, pageDataSize⟩ sgt skb hdrLen 0

/-- The function of the device, and the length of the IV that it expects in the buffer. -/
def Hw.build (hdrLen : ℕ) : Option (Build τ) :=
  match hw.gen with
  | .gen1 => fillDataTbsAmsdu ops sgt skb hw.maxTbs hw.pageDataSize hdrLen
  | .gen2 => gen2BuildAmsdu ops sgt skb hw.maxTbs hw.pageDataSize hdrLen

def Hw.ivLen (hdr : List UInt8) : ℕ :=
  match hw.gen with
  | .gen1 => Tso.ivLen hdr
  | .gen2 => 0

theorem Hw.build_eq (hdrLen : ℕ) :
    hw.build ops sgt skb hdrLen = buildAmsdu ops hw sgt skb hdrLen (hw.ivLen skb.head) := by
  obtain ⟨gen, maxTbs, pageDataSize⟩ := hw
  cases gen <;> rfl

theorem Hw.ivLen_le (hdr : List UInt8) : hw.ivLen hdr ≤ 8 := by
  unfold Hw.ivLen
  split
  · unfold Tso.ivLen
    split <;> omega
  · omega

end amsdu

/-! ### Payload -/

def Seg.bytes (mem : Mem) (sg : Seg) : List UInt8 := load mem sg.addr sg.len

theorem Seg.length_bytes (mem : Mem) (sg : Seg) : (sg.bytes mem).length = sg.len :=
  Memory.length_load mem sg.addr sg.len

theorem getSgtTbPhys_eq (mem : Mem) (before after : List Seg) (sgOffset : ℕ) {sg : Seg}
    {a len : ℕ} (hle : a + len ≤ sg.len) :
    ∃ sg' ∈ before ++ sg :: after, ∃ a' phys,
      getSgtTbPhys (sgOffset + (before.map Seg.len).sum + a) len sgOffset (before ++ sg :: after) =
        some phys ∧ phys = sg'.addr + a' ∧ a' + len ≤ sg'.len ∧
      load mem phys len = load mem (sg.addr + a) len := by
  induction before generalizing sgOffset with
  | nil =>
    refine ⟨sg, by simp, a, sg.addr + a, ?_, rfl, hle, rfl⟩
    simp only [nil_append, map_nil, sum_nil, Nat.add_zero, getSgtTbPhys]
    rw [if_pos (by omega)]
    congr 1
    omega
  | cons s before ih =>
    simp only [cons_append, map_cons, sum_cons, getSgtTbPhys]
    split
    · -- an earlier area contains the range only when the range is empty
      obtain rfl : len = 0 := by omega
      refine ⟨s, by simp, s.len, _, rfl, ?_, by omega, by simp⟩
      omega
    obtain ⟨sg', hmem, a', phys, hfind, hphys, hle', hload⟩ := ih (sgOffset + s.len)
    refine ⟨sg', .tail _ hmem, a', phys, ?_, hphys, hle', hload⟩
    rw [← hfind]
    congr 1
    omega

/-- The sizes that the device can handle: headers, segments and subframes fit into their length
fields, the older devices reach the mapped areas, and for the newer ones an area that crosses a 4
GiB boundary can be copied. -/
structure Limits (hw : Hw) (sgt : List Seg) (skb : Skb) : Prop where
  mss_pos : 0 < skb.gsoSize
  header : 22 + skb.snapIpTcpHdrlen < hw.tbLimit
  data : skb.gsoSize < hw.tbLimit
  length : skb.snapIpTcpHdrlen + skb.gsoSize < 2 ^ 16
  dma : hw.gen = .gen1 → ∀ sg ∈ sgt, sg.addr + sg.len < 2 ^ 36
  copy : hw.gen = .gen2 → skb.gsoSize ≤ hw.pageDataSize ∨
    ∀ sg ∈ sgt, sg.addr / 2 ^ 32 = (sg.addr + sg.len) / 2 ^ 32

section payload
variable {τ : Type} {ops : TsoOps τ} {cursor : τ → List (List UInt8)} {hw : Hw} {sgt : List Seg}
  {skb : Skb} {mem : Mem}

/-- What the TBs of a part of the payload satisfy: `Q new bytes` for the TBs `new` of the bytes. -/
structure Puts (hw : Hw) (sgt : List Seg) (skb : Skb) (pieces : List (List UInt8))
    (Q : List Tb → List UInt8 → Prop) : Prop where
  nil : Q [] []
  append : ∀ a b x y, Q a x → Q b y → Q (a ++ b) (x ++ y)
  put : ∀ off size p ps tbs, At pieces off (p :: ps) → size ≤ p.length → size ≤ skb.gsoSize →
    numTbs tbs < hw.maxTbs → ∃ phys new, getSgtTbPhys off size 0 sgt = some phys ∧
      putData hw tbs phys p size = some (tbs ++ new) ∧ new.length ≤ 1 ∧ Q new (p.take size)

/-- **The inner loop** uses at most one more TB than the pieces it uses up. -/
theorem putPayload_run {pieces : List (List UInt8)} {Q : List Tb → List UInt8 → Prop}
    (hQ : Puts hw sgt skb pieces Q) {hdrlen : ℕ} (hdoc : Documented ops cursor skb hdrlen) {n : ℕ}
    {tso : τ} {dataLeft off : ℕ} {tbs : List Tb} (hat : At pieces off (cursor tso))
    (hleft : dataLeft ≤ (cursor tso).flatten.length) (hmss : dataLeft ≤ skb.gsoSize)
    (hn : (cursor tso).length < n) (hroom : numTbs tbs + (cursor tso).length ≤ hw.maxTbs) :
    ∃ tso' new, putPayload ops hw sgt skb n tso dataLeft off tbs =
        some (tso', off + dataLeft, tbs ++ new) ∧
      At pieces (off + dataLeft) (cursor tso') ∧
      new.length + (cursor tso').length ≤ (cursor tso).length + 1 ∧
      (cursor tso').length ≤ (cursor tso).length ∧ Q new ((cursor tso).flatten.take dataLeft) := by
  induction n generalizing tso dataLeft off tbs with
  | zero => omega
  | succ n ih =>
    rcases Nat.eq_zero_or_pos dataLeft with rfl | hpos
    · exact ⟨tso, [], by simp [putPayload], hat, by simp, le_rfl, hQ.nil⟩
    obtain ⟨p, ps, hc⟩ := exists_cons_of_ne_nil hat.ne_nil
    have hdata := hdoc.data tso p ps hc
    rw [hc] at hat hleft hn hroom
    rw [length_cons] at hn hroom
    rw [flatten_cons, length_append] at hleft
    have hroom' : numTbs tbs < hw.maxTbs := by omega
    have hmin := Nat.min_le_left p.length dataLeft
    obtain ⟨phys, tb, hfind, hput, hone, hbytes⟩ :=
      hQ.put off _ p ps tbs hat hmin (by omega) hroom'
    have hat' := hat.advance hmin
    have hcur := hdoc.cursor_buildData tso (min p.length dataLeft)
    rw [hc] at hcur
    rw [← hcur] at hat'
    rw [putPayload, if_neg (by omega), hdata]
    simp only [hfind, hput]
    rcases Nat.lt_or_ge p.length dataLeft with hlt | hge
    · -- the piece is used up
      rw [Nat.min_eq_left (by omega)] at hcur hat' hbytes ⊢
      have hps : ps ≠ [] := by
        rintro rfl
        simp at hleft
        omega
      rw [advance_length p hps] at hcur
      have hnum : numTbs (tbs ++ tb) ≤ numTbs tbs + 1 := by
        rw [numTbs, numTbs, length_append]
        omega
      have hleft' : dataLeft - p.length ≤
          (cursor (ops.buildData skb tso p.length)).flatten.length := by
        rw [hcur]
        omega
      have hroom'' : numTbs (tbs ++ tb) + (cursor (ops.buildData skb tso p.length)).length ≤
          hw.maxTbs := by
        rw [hcur]
        omega
      obtain ⟨tso', new, hrun, hat'', hlen, hcursor, hnew⟩ :=
        ih hat' hleft' (by omega) (by rw [hcur]; omega) hroom''
      have hoff : off + p.length + (dataLeft - p.length) = off + dataLeft := by omega
      rw [hoff] at hrun hat''
      rw [hcur] at hlen hcursor hnew
      refine ⟨tso', tb ++ new, ?_, hat'', ?_, ?_, ?_⟩
      · rw [hrun, append_assoc]
      · rw [hc, length_append, length_cons]
        omega
      · rw [hc, length_cons]
        omega
      · rw [hc, flatten_cons, take_append, take_of_length_le (by omega)]
        rw [take_length] at hbytes
        exact hQ.append _ _ _ _ hbytes hnew
    · -- the subframe is complete
      rw [Nat.min_eq_right hge] at hcur hat' hbytes ⊢
      obtain ⟨m, rfl⟩ : ∃ m, n = m + 1 := ⟨n - 1, by omega⟩
      have hle := length_advance_le p ps dataLeft
      refine ⟨ops.buildData skb tso dataLeft, tb, ?_, hat', ?_, ?_, ?_⟩
      · rw [Nat.sub_self, putPayload, if_pos rfl]
      · rw [hcur, hc, length_cons]
        omega
      · rwa [hcur, hc, length_cons]
      · rwa [hc, flatten_cons, take_append_of_le_length hge]

theorem putData_eq (hlim : Limits hw sgt skb) {sg : Seg} (hsg : sg ∈ sgt) {a len : ℕ}
    (hle : a + len ≤ sg.len) (hlen : len ≤ skb.gsoSize) {virt : List UInt8}
    (hvirt : load mem (sg.addr + a) len = virt.take len) {tbs : List Tb}
    (hroom : numTbs tbs < hw.maxTbs) :
    ∃ tb, putData hw tbs (sg.addr + a) virt len = some (tbs ++ [tb]) ∧
      (∀ off n, tb ≠ .page off n) ∧ ∀ area, tb.bytes mem area = virt.take len := by
  have hdata := hlim.data
  have hmod : len % hw.tbLimit = len := Nat.mod_eq_of_lt (by omega)
  have hfull : ¬numTbs tbs ≥ hw.maxTbs := by omega
  have hdirect : (∀ off n, Tb.dma (sg.addr + a) len ≠ .page off n) ∧
      ∀ area, (Tb.dma (sg.addr + a) len).bytes mem area = virt.take len :=
    ⟨fun _ _ h => Tb.noConfusion h, fun _ => hvirt⟩
  cases hgen : hw.gen with
  | gen1 =>
    have hdma := hlim.dma hgen sg hsg
    refine ⟨.dma (sg.addr + a) len, ?_, hdirect⟩
    simp only [putData, hgen, hmod]
    rw [if_neg hfull, if_neg (by omega)]
  | gen2 =>
    simp only [putData, hgen, hmod, if_neg hfull]
    by_cases hcross : crosses4gBoundary (sg.addr + a) len = true
    · have hcopy : skb.gsoSize ≤ hw.pageDataSize := by
        refine (hlim.copy hgen).resolve_right fun h => ?_
        have hseg := h sg hsg
        simp only [crosses4gBoundary, bne_iff_ne] at hcross
        omega
      refine ⟨.copied (virt.take len), ?_, fun _ _ h => Tb.noConfusion h, fun _ => rfl⟩
      simp only [hcross, Bool.not_true, Bool.false_eq_true, if_false]
      rw [if_neg (by omega)]
    · refine ⟨.dma (sg.addr + a) len, ?_, hdirect⟩
      simp [hcross]

variable {pieces : List (List UInt8)} (hmap : Coarser (Seg.bytes mem) sgt pieces)
include hmap

theorem exists_tbPhys {off size : ℕ} {p : List UInt8} {ps : List (List UInt8)}
    (hat : At pieces off (p :: ps)) (hp : size ≤ p.length) :
    ∃ sg ∈ sgt, ∃ a, getSgtTbPhys off size 0 sgt = some (sg.addr + a) ∧ a + size ≤ sg.len ∧
      load mem (sg.addr + a) size = p.take size := by
  obtain ⟨before, sg, after, a, hsgt, hoff, hle, htake⟩ := hmap.exists_segment hat
  rw [Seg.length_bytes] at hle
  have hsum : (before.map fun t => (t.bytes mem).length).sum = (before.map Seg.len).sum := by
    congr 1
    exact map_congr_left fun t _ => t.length_bytes mem
  have hrange : a + size ≤ sg.len := by omega
  obtain ⟨sg', hsg', a', phys, hfind, rfl, hle', hload⟩ :=
    getSgtTbPhys_eq mem before after 0 hrange
  rw [Nat.zero_add, ← hsum, ← hoff, ← hsgt] at hfind
  refine ⟨sg', hsgt ▸ hsg', a', hfind, hle', ?_⟩
  have hbytes : sg.bytes mem = load mem sg.addr a ++ (load mem (sg.addr + a) size ++
      load mem (sg.addr + a + size) (sg.len - a - size)) := by
    rw [← Memory.load_add, ← Memory.load_add, Seg.bytes]
    congr 1
    omega
  rw [hload, ← htake, take_take, Nat.min_eq_left hp, hbytes,
    drop_left' (Memory.length_load _ _ _), take_left' (Memory.length_load _ _ _)]

variable (hlim : Limits hw sgt skb)
include hlim

/-- The TBs of a part of the payload are not in the page, and describe its bytes. -/
theorem puts_described : Puts hw sgt skb pieces fun new bytes =>
    (∀ o m, .page o m ∉ new) ∧ ∀ area, described mem area new = bytes where
  nil := ⟨by simp, fun _ => rfl⟩
  append a b x y ha hb := by
    refine ⟨fun o m hmem => ?_, fun area => ?_⟩
    · rcases mem_append.mp hmem with h | h
      · exact ha.1 o m h
      · exact hb.1 o m h
    · rw [← ha.2 area, ← hb.2 area, described, flatMap_append]
      rfl
  put off size p ps tbs hat hp hsize hroom := by
    obtain ⟨sg, hsg, a, hfind, hle, hload⟩ := exists_tbPhys hmap hat hp
    obtain ⟨tb, hput, hpage, hbytes⟩ := putData_eq hlim hsg hle hsize hload hroom
    refine ⟨sg.addr + a, [tb], hfind, hput, le_rfl, fun o m hmem => ?_, fun area => ?_⟩
    · exact hpage o m (mem_singleton.mp hmem).symm
    · rw [described, flatMap_singleton, hbytes]

end payload

/-! ### Subframes -/

theorem divRoundUp_zero {d : ℕ} (hd : 0 < d) : divRoundUp 0 d = 0 :=
  Nat.div_eq_of_lt (by omega)

theorem divRoundUp_sub {n d : ℕ} (hn : 0 < n) (hd : 0 < d) :
    divRoundUp n d = divRoundUp (n - min d n) d + 1 := by
  unfold divRoundUp
  rcases Nat.le_total d n with h | h
  · rw [Nat.min_eq_left h, ← Nat.add_div_right _ hd]
    congr 1
    omega
  · rw [Nat.min_eq_right h, Nat.sub_self, Nat.zero_add, Nat.div_eq_of_lt (Nat.sub_lt hd Nat.one_pos)]
    exact Nat.div_eq_of_lt_le (by omega) (by omega)

theorem described_append {mem : Mem} {area : List UInt8} {tbs : List Tb}
    (h : ∀ o n, .page o n ∈ tbs → o + n ≤ area.length) (ext : List UInt8) :
    described mem (area ++ ext) tbs = described mem area tbs := by
  apply flatMap_congr
  intro tb htb
  cases tb with
  | page o n =>
    have hle := h o n htb
    rw [Tb.bytes, Tb.bytes, drop_append_of_le_length (by omega),
      take_append_of_le_length (by rw [length_drop]; omega)]
  | dma addr len => rfl
  | copied data => rfl

theorem length_subframeHdrs {da sa : List UInt8} (hda : da.length = 6) (hsa : sa.length = 6)
    (pad length : ℕ) (hdr : List UInt8) :
    (subframeHdrs da sa pad length hdr).length = pad + 14 + hdr.length := by
  simp only [subframeHdrs, putBe16, length_append, length_replicate, hda, hsa,
    length_cons, length_nil]

section subframes
variable {τ : Type} (ops : TsoOps τ) (cursor : τ → List (List UInt8)) (hw : Hw) (skb : Skb)
  (mem : Mem) (pieces : List (List UInt8))

/-- The loop may go on: the helpers stand at the offset, TBs are left for the rest of the payload,
and what is pending in the page is at most an IV or a padding. -/
structure Ready (st : Build τ) : Prop where
  position : At pieces st.dataOffset (cursor st.tso)
  total : st.dataOffset + st.totalLen = pieces.flatten.length
  room : numTbs st.tbs + (cursor st.tso).length + 2 * divRoundUp st.totalLen skb.gsoSize ≤ hw.maxTbs
  cursor_le : (cursor st.tso).length ≤ skb.frags.length + 1
  start_le : st.startHdr ≤ st.area.length
  pending : st.area.length - st.startHdr + st.amsduPad ≤ 8
  pad_le : st.amsduPad ≤ 3
  cmdLen : st.cmdLen < 2 ^ 16
  pages : ∀ o n, .page o n ∈ st.tbs → o + n ≤ st.area.length

structure Subframed (da sa : List UInt8) (st st' : Build τ) (s : Subframe) : Prop where
  da : s.da = da
  sa : s.sa = sa
  header : ∃ t last, s.msdu.take skb.snapIpTcpHdrlen =
    (ops.buildHdr skb t (s.msdu.length - skb.snapIpTcpHdrlen) last).1
  length : s.msdu.length = skb.snapIpTcpHdrlen + min skb.gsoSize st.totalLen
  payload : s.msdu.drop skb.snapIpTcpHdrlen =
    (pieces.flatten.drop st.dataOffset).take (min skb.gsoSize st.totalLen)
  totalLen : st'.totalLen = st.totalLen - min skb.gsoSize st.totalLen
  dataOffset : st'.dataOffset = st.dataOffset + min skb.gsoSize st.totalLen
  startHdr : st'.startHdr = st'.area.length
  amsduPad : st'.amsduPad = Aligned.padding 4 s.bytes.length
  area : st'.area.length = st.area.length + (st.amsduPad + 14 + skb.snapIpTcpHdrlen)
  cmdLen : st'.cmdLen = (st.cmdLen + (st.amsduPad + 14 + skb.snapIpTcpHdrlen)) % 2 ^ 16
  bytes : described mem st'.area st'.tbs = described mem st.area st.tbs ++
    (st.area.drop st.startHdr ++ List.replicate st.amsduPad 0 ++ s.bytes)

structure Built (da sa : List UInt8) (st r : Build τ) (subs : List Subframe) : Prop where
  count : subs.length = divRoundUp st.totalLen skb.gsoSize
  addrs : ∀ s ∈ subs, s.da = da ∧ s.sa = sa
  header : ∀ s ∈ subs, ∃ t last, s.msdu.take skb.snapIpTcpHdrlen =
    (ops.buildHdr skb t (s.msdu.length - skb.snapIpTcpHdrlen) last).1
  length : ∀ s ∈ subs, skb.snapIpTcpHdrlen < s.msdu.length ∧
    s.msdu.length ≤ skb.snapIpTcpHdrlen + skb.gsoSize
  payload : (subs.map fun s => s.msdu.drop skb.snapIpTcpHdrlen).flatten =
    pieces.flatten.drop st.dataOffset
  hdrs : ∃ h, r.area.length = st.area.length + h ∧ r.cmdLen = (st.cmdLen + h) % 2 ^ 16 ∧
    h ≤ subs.length * (3 + skb.snapIpTcpHdrlen + 14) ∧
    (subs ≠ [] → h + st.totalLen = st.amsduPad + (body subs).length)
  bytes : described mem r.area r.tbs = described mem st.area st.tbs ++
    if subs = [] then [] else
      st.area.drop st.startHdr ++ List.replicate st.amsduPad 0 ++ body subs

variable {ops cursor hw skb mem pieces} {sgt : List Seg} {da sa : List UInt8} {st st' r : Build τ}

theorem Built.nil (hmss : 0 < skb.gsoSize) (hst : Ready cursor hw skb pieces st)
    (h0 : st.totalLen = 0) : Built ops skb mem pieces da sa st st [] where
  count := by rw [h0, divRoundUp_zero hmss, length_nil]
  addrs := by simp
  header := by simp
  length := by simp
  payload := by
    have htotal := hst.total
    rw [map_nil, flatten_nil, drop_eq_nil_of_le (by omega)]
  hdrs := ⟨0, rfl, (Nat.mod_eq_of_lt hst.cmdLen).symm, Nat.zero_le _, fun h => absurd rfl h⟩
  bytes := by simp

theorem Built.cons (hmss : 0 < skb.gsoSize) (hst : Ready cursor hw skb pieces st)
    (hpos : 0 < st.totalLen) {s : Subframe} {subs : List Subframe}
    (hsub : Subframed ops skb mem pieces da sa st st' s)
    (h : Built ops skb mem pieces da sa st' r subs) :
    Built ops skb mem pieces da sa st r (s :: subs) where
  count := by
    rw [divRoundUp_sub hpos hmss, ← hsub.totalLen, ← h.count, length_cons]
  addrs := by
    exact forall_mem_cons.mpr ⟨⟨hsub.da, hsub.sa⟩, h.addrs⟩
  header := forall_mem_cons.mpr ⟨hsub.header, h.header⟩
  length := by
    refine forall_mem_cons.mpr ⟨?_, h.length⟩
    have hlen := hsub.length
    omega
  payload := by
    rw [map_cons, flatten_cons, h.payload, hsub.payload, hsub.dataOffset,
      ← drop_drop, take_append_drop]
  hdrs := by
    obtain ⟨k, harea, hcmd, hle, hbody⟩ := h.hdrs
    have hpad := hst.pad_le
    have hlen := hsub.length
    have hsbytes := s.length_bytes
    have htotal := hsub.totalLen
    refine ⟨st.amsduPad + 14 + skb.snapIpTcpHdrlen + k, ?_, ?_, ?_, ?_⟩
    · rw [harea, hsub.area]
      omega
    · rw [hcmd, hsub.cmdLen]
      omega
    · rw [length_cons, Nat.add_mul, Nat.one_mul]
      omega
    intro _
    rw [body_cons]
    rcases eq_or_ne subs [] with rfl | hne
    · have hk : k = 0 := by simpa using hle
      have hzero : divRoundUp st'.totalLen skb.gsoSize = 0 := h.count.symm
      have hdone : st'.totalLen = 0 := by
        by_contra hne
        rw [divRoundUp_sub (by omega) hmss] at hzero
        omega
      simp only [if_true, append_nil]
      omega
    · have hb := hbody hne
      rw [hsub.amsduPad] at hb
      rw [if_neg hne, length_append, length_append, length_replicate]
      omega
  bytes := by
    have hdrop : st'.area.drop st'.startHdr = [] := by
      rw [hsub.startHdr]
      exact drop_length
    rw [h.bytes, hsub.bytes, hdrop, hsub.amsduPad, if_neg (cons_ne_nil s subs), body_cons]
    simp only [nil_append, append_assoc]

/-- **One subframe**: its headers follow the others in the page, and a TB for them is followed by
those of the payload. -/
theorem buildSubframe_run {Q : List Tb → List UInt8 → Prop} (hQ : Puts hw sgt skb pieces Q)
    (hdoc : Documented ops cursor skb skb.snapIpTcpHdrlen) (hda : da.length = 6)
    (hsa : sa.length = 6) {dataLeft : ℕ} (hleft : min skb.gsoSize st.totalLen = dataLeft)
    (hat : At pieces st.dataOffset (cursor st.tso))
    (htotal : st.dataOffset + st.totalLen = pieces.flatten.length)
    (hroom : numTbs st.tbs + (cursor st.tso).length < hw.maxTbs)
    (hcursor : (cursor st.tso).length ≤ skb.frags.length + 1) :
    ∃ hdr hdrs page tso' new, hdr.length = skb.snapIpTcpHdrlen ∧
      (∃ last, (ops.buildHdr skb st.tso dataLeft last).1 = hdr) ∧
      subframeHdrs da sa st.amsduPad (skb.snapIpTcpHdrlen + dataLeft) hdr = hdrs ∧
      hdrs.length = st.amsduPad + 14 + skb.snapIpTcpHdrlen ∧
      Tb.page st.startHdr (((st.area ++ hdrs).length - st.startHdr) % hw.tbLimit) = page ∧
      buildSubframe ops hw sgt skb da sa st = some
        ⟨tso', st.totalLen - dataLeft, (4 - (14 + skb.snapIpTcpHdrlen + dataLeft) % 4) % 4,
          st.area ++ hdrs, (st.area ++ hdrs).length, (st.cmdLen + hdrs.length) % 2 ^ 16,
          st.dataOffset + dataLeft, st.tbs ++ [page] ++ new⟩ ∧
      At pieces (st.dataOffset + dataLeft) (cursor tso') ∧
      new.length + (cursor tso').length ≤ (cursor st.tso).length + 1 ∧
      (cursor tso').length ≤ (cursor st.tso).length ∧
      Q new ((cursor st.tso).flatten.take dataLeft) := by
  have hlen := congrArg List.length hat.drop_flatten
  rw [length_drop] at hlen
  have hhdr := hdoc.length_buildHdr st.tso dataLeft (st.totalLen - dataLeft = 0)
  have hcur := hdoc.cursor_buildHdr st.tso dataLeft (st.totalLen - dataLeft = 0)
  generalize hb : ops.buildHdr skb st.tso dataLeft (st.totalLen - dataLeft = 0) = b at hhdr hcur
  obtain ⟨hdr, tso⟩ := b
  have hhdrs := length_subframeHdrs hda hsa st.amsduPad (skb.snapIpTcpHdrlen + dataLeft) hdr
  rw [hhdr] at hhdrs
  generalize hh : subframeHdrs da sa st.amsduPad (skb.snapIpTcpHdrlen + dataLeft) hdr = hdrs at hhdrs
  generalize htb : Tb.page st.startHdr (((st.area ++ hdrs).length - st.startHdr) % hw.tbLimit) = page
  have hpage : putPage hw st.tbs st.startHdr ((st.area ++ hdrs).length - st.startHdr) =
      st.tbs ++ [page] := htb ▸ if_neg (by omega)
  dsimp only at hcur
  rw [← hcur] at hat hlen hroom hcursor ⊢
  have hroom' : numTbs (st.tbs ++ [page]) + (cursor tso).length ≤ hw.maxTbs := by
    simp only [numTbs, length_append, length_singleton] at hroom ⊢
    omega
  have hfuel : (cursor tso).length < skb.frags.length + 2 := by omega
  have hleft' : dataLeft ≤ (cursor tso).flatten.length := by omega
  obtain ⟨tso', new, hrun, hpay⟩ := putPayload_run hQ hdoc hat hleft' (by omega) hfuel hroom'
  refine ⟨hdr, hdrs, page, tso', new, hhdr, ⟨_, congrArg Prod.fst hb⟩, hh, hhdrs, htb, ?_, hpay⟩
  simp only [buildSubframe, hleft, hb, hh, hpage, hrun]

section step
variable (hlim : Limits hw sgt skb) (hmap : Coarser (Seg.bytes mem) sgt pieces)
  (hdoc : Documented ops cursor skb skb.snapIpTcpHdrlen) (hda : da.length = 6)
  (hsa : sa.length = 6)
include hlim hmap hdoc hda hsa

theorem buildSubframe_eq {st : Build τ} (hst : Ready cursor hw skb pieces st)
    (hpos : 0 < st.totalLen) :
    ∃ st' s, buildSubframe ops hw sgt skb da sa st = some st' ∧
      Ready cursor hw skb pieces st' ∧ Subframed ops skb mem pieces da sa st st' s := by
  have hsegs := divRoundUp_sub hpos hlim.mss_pos
  have hheader := hlim.header
  have hlength := hlim.length
  obtain ⟨hat, htotal, hroom, hcursor, hstart, hpending, hpad, hcmd, hpages⟩ := hst
  generalize hleft : min skb.gsoSize st.totalLen = dataLeft at *
  obtain ⟨hdr, hdrs, page, tso', new, hhdr, ⟨last, hb⟩, hh, hhdrs, htb, hrun, hat', hcount, hcur',
    hnopage, hdesc⟩ := buildSubframe_run (puts_described hmap hlim) hdoc hda hsa hleft hat htotal (by omega) hcursor
  have hrest := hat.drop_flatten
  have harea : (st.area ++ hdrs).length =
      st.area.length + (st.amsduPad + 14 + skb.snapIpTcpHdrlen) := by
    rw [length_append, hhdrs]
  rw [Nat.mod_eq_of_lt (by omega)] at htb
  have hchunk : ((cursor st.tso).flatten.take dataLeft).length = dataLeft := by
    rw [length_take, ← hrest, length_drop]
    omega
  generalize hc : (cursor st.tso).flatten.take dataLeft = chunk at *
  have hmsdu : (hdr ++ chunk).length = skb.snapIpTcpHdrlen + dataLeft := by
    rw [length_append, hhdr, hchunk]
  obtain ⟨s, hsda, hssa, hsmsdu⟩ : ∃ s : Subframe, s.da = da ∧ s.sa = sa ∧ s.msdu = hdr ++ chunk :=
    ⟨⟨da, sa, hdr ++ chunk, hda, hsa, by omega⟩, rfl, rfl, rfl⟩
  have hbytes : described mem (st.area ++ hdrs) (st.tbs ++ [page] ++ new) =
      described mem st.area st.tbs ++
        (st.area.drop st.startHdr ++ List.replicate st.amsduPad 0 ++ s.bytes) := by
    have htbs : described mem (st.area ++ hdrs) st.tbs = described mem st.area st.tbs :=
      described_append hpages hdrs
    have hpb : page.bytes mem (st.area ++ hdrs) = st.area.drop st.startHdr ++ hdrs := by
      rw [← htb, Tb.bytes, take_of_length_le (by rw [length_drop]), drop_append_of_le_length hstart]
    have hsub : hdrs ++ chunk = List.replicate st.amsduPad 0 ++ s.bytes := by
      rw [← hh, Subframe.bytes, Subframe.eth, hsda, hssa, hsmsdu, hmsdu]
      simp only [subframeHdrs, EthHdr.bytes, append_assoc]
    have hnew := hdesc (st.area ++ hdrs)
    simp only [described, flatMap_append, flatMap_singleton] at htbs hnew ⊢
    rw [htbs, hpb, hnew, append_assoc, append_assoc, hsub, append_assoc]
  have hpad' : (4 - (14 + skb.snapIpTcpHdrlen + dataLeft) % 4) % 4 ≤ 3 := by omega
  refine ⟨_, s, hrun, ?_, ?_⟩
  · refine ⟨hat', ?_, ?_, ?_, le_rfl, ?_, hpad', Nat.mod_lt _ (by omega), ?_⟩
    · show st.dataOffset + dataLeft + (st.totalLen - dataLeft) = _
      omega
    · simp only [numTbs, length_append, length_singleton] at hroom ⊢
      omega
    · show (cursor tso').length ≤ _
      omega
    · rw [Nat.sub_self, Nat.zero_add]
      exact hpad'.trans (by omega)
    intro o n hmem
    show o + n ≤ (st.area ++ hdrs).length
    rcases mem_append.mp hmem with hmem | hmem
    · rcases mem_append.mp hmem with hmem | hmem
      · have hle := hpages o n hmem
        omega
      · rw [mem_singleton, ← htb] at hmem
        cases hmem
        omega
    · exact absurd hmem (hnopage o n)
  · refine ⟨hsda, hssa, ⟨st.tso, last, ?_⟩, ?_, ?_, ?_, ?_, rfl, ?_,
      harea, ?_, hbytes⟩
    · rw [hsmsdu, hmsdu, Nat.add_sub_cancel_left, hb, take_left' hhdr]
    · rw [hleft, hsmsdu, hmsdu]
    · rw [hleft, hrest, hc, hsmsdu, drop_left' hhdr]
    · rw [hleft]
    · rw [hleft]
    · rw [Subframe.length_bytes, hsmsdu, hmsdu, ← Nat.add_assoc]
      rfl
    · rw [hhdrs]

theorem buildSubframes_eq {n : ℕ} {st : Build τ} (hst : Ready cursor hw skb pieces st)
    (hn : st.totalLen ≤ n) :
    ∃ r subs, buildSubframes ops hw sgt skb da sa n st = some r ∧
      Built ops skb mem pieces da sa st r subs := by
  have hmss := hlim.mss_pos
  induction n generalizing st with
  | zero =>
    have h0 : st.totalLen = 0 := by omega
    exact ⟨st, [], by rw [buildSubframes, if_pos h0], Built.nil hmss hst h0⟩
  | succ n ih =>
    rcases Nat.eq_zero_or_pos st.totalLen with h0 | hpos
    · exact ⟨st, [], by rw [buildSubframes, if_pos h0], Built.nil hmss hst h0⟩
    obtain ⟨st', s, hstep, hst', hsub⟩ := buildSubframe_eq hlim hmap hdoc hda hsa hst hpos
    have hlt : st'.totalLen ≤ n := by
      rw [hsub.totalLen]
      omega
    obtain ⟨r, subs, hrun, hbuilt⟩ := ih hst' hlt
    refine ⟨r, s :: subs, ?_, hbuilt.cons hmss hst hpos hsub⟩
    rwa [buildSubframes, if_neg (by omega), hstep]

end step

end subframes

/-! ### The whole frame -/

theorem isData_of_isDataQos {fc : ℕ} (h : isDataQos fc = true) : isData fc = true := by
  have heq : fc &&& 0x008c = 0x0088 := by simpa [isDataQos] using h
  have hftype : ftype fc = 0x0008 := by
    have hmask : ftype fc = fc &&& 0x008c &&& 0x000c := by
      rw [Nat.land_assoc]
      rfl
    rw [hmask, heq]
    rfl
  rw [isData, hftype]
  rfl

theorem le_hdrlen_of_isDataQos {fc : ℕ} (h : isDataQos fc = true) :
    (if hasA4 fc then 30 else 24) ≤ hdrlen fc := by
  have hdata := isData_of_isDataQos h
  have hext : isExt fc = false := by
    simp only [isData, isExt, beq_iff_eq, beq_eq_false_iff_ne] at hdata ⊢
    omega
  rw [hdrlen, hext, hdata]
  simp only [Bool.false_eq_true, if_false, if_true]
  omega

section frame
variable {skb : Skb} (hqos : isDataQos (frameControl skb.head) = true)
  (hhead : hdrlen (frameControl skb.head) ≤ skb.head.length)
include hqos hhead

theorem length_getDA : (getDA skb.head).length = 6 := by
  have h := le_hdrlen_of_isDataQos hqos
  have h24 : 24 ≤ hdrlen (frameControl skb.head) := by split at h <;> omega
  rw [getDA, length_take, length_drop]
  split <;> omega

theorem length_getSA : (getSA skb.head).length = 6 := by
  have h := le_hdrlen_of_isDataQos hqos
  rw [getSA, length_take, length_drop]
  split
  next ha4 =>
    rw [if_pos ha4] at h
    omega
  next ha4 =>
    rw [if_neg ha4] at h
    split <;> omega

end frame

section amsdu
variable {τ : Type} {ops : TsoOps τ} {cursor : τ → List (List UInt8)} {hw : Hw} {sgt : List Seg}
  {skb : Skb} {mem : Mem}

/-- **TSO A-MSDUs**: the device reads the IV and the body of an A-MSDU, which splits into one
subframe per segment, with the headers that the helpers have built and the payload of the frame.
The length in the command is that of the MPDU, and the headers fit into the reserved room.  The
frame has to be within the sizes of the device and pass the callers' check for enough TBs. -/
theorem tso_amsdu_splits {hdrLen ivLen : ℕ} (hhdr : hdrLen = hdrlen (frameControl skb.head))
    (hiv : ivLen = hw.ivLen skb.head) (hqos : isDataQos (frameControl skb.head) = true)
    (hhead : hdrLen + ivLen + skb.snapIpTcpHdrlen ≤ skb.head.length)
    {pieces : List (List UInt8)} (hpieces : pieces = skb.pieces (hdrLen + ivLen + skb.snapIpTcpHdrlen))
    (hpay : pieces.flatten ≠ [])
    (hdoc : Documented ops cursor (skb.pull (hdrLen + ivLen)) skb.snapIpTcpHdrlen)
    (hmap : Coarser (Seg.bytes mem) sgt pieces) (hlim : Limits hw sgt skb)
    (htbs : divRoundUp pieces.flatten.length skb.gsoSize * 2 + skb.frags.length + 1 ≤ hw.maxSkbFrags)
    (hcmd : hdrLen + hdrRoom skb pieces.flatten.length ivLen + pieces.flatten.length < 2 ^ 16) :
    ∃ r subs, hw.build ops sgt skb hdrLen = some r ∧
      described mem r.area r.tbs = (skb.head.drop hdrLen).take ivLen ++ body subs ∧
      Aligned.split 4 subframeLen (body subs) = some (subs.map Subframe.bytes) ∧
      (∀ cfg, Plain cfg → getDA skb.head ≠ rfc1042Header →
        amsduTo8023s cfg (body subs) =
          subs.map fun s => finish cfg s.eth s.msdu) ∧
      subs.length = divRoundUp pieces.flatten.length skb.gsoSize ∧
      (∀ s ∈ subs, s.da = getDA skb.head ∧ s.sa = getSA skb.head ∧
        skb.snapIpTcpHdrlen < s.msdu.length ∧
        s.msdu.length ≤ skb.snapIpTcpHdrlen + skb.gsoSize ∧
        ∃ t last, s.msdu.take skb.snapIpTcpHdrlen = (ops.buildHdr (skb.pull (hdrLen + ivLen)) t
          (s.msdu.length - skb.snapIpTcpHdrlen) last).1) ∧
      (subs.map fun s => s.msdu.drop skb.snapIpTcpHdrlen).flatten = pieces.flatten ∧
      r.cmdLen = hdrLen + ivLen + (body subs).length ∧
      r.area.length ≤ hdrRoom skb pieces.flatten.length ivLen := by
  have hmss := hlim.mss_pos
  have hpos := length_pos_iff.mpr hpay
  have hle : ivLen ≤ 8 := hiv ▸ hw.ivLen_le skb.head
  have hpulled : (skb.pull (hdrLen + ivLen)).pieces skb.snapIpTcpHdrlen = pieces := by
    rw [hpieces, Skb.pieces, Skb.pieces, Skb.pull, drop_drop]
  have htotal : skb.len - skb.snapIpTcpHdrlen - hdrLen - ivLen = pieces.flatten.length := by
    rw [hpieces, Skb.pieces, flatten_cons, length_append, length_drop, Skb.len]
    omega
  have hne : pieces ≠ [] := by
    rw [hpieces]
    exact cons_ne_nil _ _
  have hstart := hdoc.start
  rw [hpulled] at hstart
  have hcursor := length_start_le hne
  have hfrags : pieces.length = skb.frags.length + 1 := by
    rw [hpieces, Skb.pieces, length_cons]
  have hivlen : ((skb.head.drop hdrLen).take ivLen).length = ivLen := by
    rw [length_take, length_drop]
    omega
  have hlim' : Limits hw sgt (skb.pull (hdrLen + ivLen)) :=
    ⟨hlim.mss_pos, hlim.header, hlim.data, hlim.length, hlim.dma, hlim.copy⟩
  have hready : Ready cursor hw (skb.pull (hdrLen + ivLen)) pieces
      ⟨ops.start (skb.pull (hdrLen + ivLen)), pieces.flatten.length, 0,
        (skb.head.drop hdrLen).take ivLen, 0,
        (skb.len + (2 ^ 16 - skb.snapIpTcpHdrlen % 2 ^ 16)) % 2 ^ 16, 0, []⟩ := by
    refine ⟨hstart ▸ at_start hne, Nat.zero_add _, ?_, ?_, Nat.zero_le _, ?_, by simp,
      Nat.mod_lt _ (by omega), by simp⟩
    · have hmax : hw.maxSkbFrags = hw.maxTbs - 3 := rfl
      show 2 + 0 + (cursor _).length + 2 * divRoundUp pieces.flatten.length skb.gsoSize ≤ _
      rw [hstart]
      omega
    · show (cursor _).length ≤ skb.frags.length + 1
      rw [hstart]
      omega
    · show ((skb.head.drop hdrLen).take ivLen).length - 0 + 0 ≤ 8
      omega
  obtain ⟨r, subs, hrun, hbuilt⟩ := buildSubframes_eq hlim' hmap hdoc
    (length_getDA hqos (by omega)) (length_getSA hqos (by omega)) hready (le_rfl)
  have hcount : subs.length = divRoundUp pieces.flatten.length skb.gsoSize := hbuilt.count
  have hsubs : subs ≠ [] := by
    intro hnil
    rw [hnil, divRoundUp_sub hpos hmss] at hcount
    simp at hcount
  obtain ⟨h, harea, hcmdLen, hroom, hbody⟩ := hbuilt.hdrs
  have hlen : h + pieces.flatten.length = 0 + (body subs).length := hbody hsubs
  have hroom' : h ≤ divRoundUp pieces.flatten.length skb.gsoSize *
      (3 + skb.snapIpTcpHdrlen + 14) := hcount ▸ hroom
  have hskb : skb.len = hdrLen + ivLen + skb.snapIpTcpHdrlen + pieces.flatten.length := by
    omega
  rw [hdrRoom] at hcmd ⊢
  refine ⟨r, subs, ?_, ?_, split_body hsubs, ?_, hcount, ?_, hbuilt.payload, ?_, ?_⟩
  · rw [hw.build_eq, buildAmsdu, ← hiv, htotal]
    exact hrun
  · have hbytes := hbuilt.bytes
    rw [if_neg hsubs] at hbytes
    simpa [described] using hbytes
  · intro cfg hcfg hda
    refine amsduTo8023s_body hcfg hsubs fun s hs => ?_
    rw [(hbuilt.addrs s (mem_of_mem_head? hs)).1]
    exact hda
  · intro s hs
    obtain ⟨hda, hsa⟩ := hbuilt.addrs s hs
    obtain ⟨hlt, hle⟩ := hbuilt.length s hs
    exact ⟨hda, hsa, hlt, hle, hbuilt.header s hs⟩
  · rw [hcmdLen]
    show ((skb.len + (2 ^ 16 - skb.snapIpTcpHdrlen % 2 ^ 16)) % 2 ^ 16 + h) % 2 ^ 16 = _
    omega
  · rw [harea]
    show ((skb.head.drop hdrLen).take ivLen).length + h ≤ _
    omega

end amsdu

/-! ### Two frames -/

def copyOps : TsoOps (List (List UInt8)) where
  data t := t.headD []
  start skb := start (skb.pieces skb.snapIpTcpHdrlen)
  buildHdr skb t _ _ := (skb.head.take skb.snapIpTcpHdrlen, t)
  buildData _ t n := advance t n

theorem copyOps_documented {skb : Skb} (h : skb.snapIpTcpHdrlen ≤ skb.head.length) :
    Documented copyOps id skb skb.snapIpTcpHdrlen where
  start := rfl
  data t p ps ht := by
    obtain rfl : t = p :: ps := ht
    rfl
  length_buildHdr _ _ _ := by simpa [copyOps] using h
  cursor_buildHdr _ _ _ := rfl
  cursor_buildData _ _ := rfl

def exampleMem : Mem := fun a => UInt8.ofNat a

/-- A QoS data frame with headers of 48 bytes, a payload of 10 bytes and the given segment size. -/
def exampleSkb (gsoSize : ℕ) : Skb where
  head := [0x88, 0x01] ++ List.replicate 24 0x02 ++ List.replicate 48 0x03 ++ load exampleMem 0 10
  frags := []
  networkHeaderLen := 20
  tcpHdrlen := 20
  gsoSize := gsoSize

theorem tso_amsdu_splits_three : ∃ r subs,
    Hw.build copyOps ⟨.gen1, 20, 4072⟩ [⟨0, 10⟩] (exampleSkb 4) 26 = some r ∧
      described exampleMem r.area r.tbs = body subs ∧ subs.length = 3 := by
  have hdoc : Documented copyOps id ((exampleSkb 4).pull (26 + 0)) (exampleSkb 4).snapIpTcpHdrlen :=
    copyOps_documented (by decide)
  have hlim : Limits ⟨.gen1, 20, 4072⟩ [⟨0, 10⟩] (exampleSkb 4) :=
    ⟨by decide, by decide, by decide, by decide, fun _ => by decide, fun h => nomatch h⟩
  have hmap : Coarser (Seg.bytes exampleMem) [⟨0, 10⟩] ((exampleSkb 4).pieces 74) :=
    ⟨[[load exampleMem 0 10]], by decide, by decide⟩
  obtain ⟨r, subs, hrun, hbytes, -, -, hcount, -⟩ :=
    tso_amsdu_splits (by decide) (by decide) (by decide) (by decide) rfl (by decide) hdoc hmap hlim
      (by decide) (by decide)
  exact ⟨r, subs, hrun, hbytes, hcount⟩

/-- With ten segments the TBs run out, and the function succeeds: the device reads nine subframes.
-/
theorem tbs_run_out :
    divRoundUp 10 (exampleSkb 1).gsoSize = 10 ∧
      ((fillDataTbsAmsdu copyOps [⟨0, 10⟩] (exampleSkb 1) 20 4072 26).map fun r =>
        ((Aligned.split 4 subframeLen (described exampleMem r.area r.tbs)).map
          List.length, (described exampleMem r.area r.tbs).length, r.cmdLen)) =
        some (some 9, 8 * 64 + 63, 26 + 9 * 64 + 63) := by
  decide +kernel

end Iwlwifi.Pcie.Tso
