import Iwlwifi.Bytes
import Iwlwifi.Header

/-! # Fragmentation of MSDUs

A model of `ieee80211_tx_h_fragment` of `net/mac80211/tx.c`.

* **Cutting** (`fragment`).  The first fragment is the frame itself, cut off; the loop copies the
  header in front of every further piece of the body.
* **Headers** (`updateHdr`).  The More Fragments bit is set on all fragments but the last, and the
  fragments are numbered.

`txHFragment_spec`: a data frame longer than the threshold becomes pieces of its body behind copies
of its header (`fragHdr`) that differ in the More Fragments bit and the fragment number only. -/

namespace Iwlwifi.Ieee80211.TxFragment

open Bytes List

/-! ### The handler -/

/-- `FCS_LEN`. -/
def fcsLen : ℕ := 4

/-- The loop of `ieee80211_fragment`; every round takes something off `rem`. -/
def fragmentLoop (skb : List UInt8) (hdrlen perFragm : ℕ) : ℕ → ℕ → ℕ → List (List UInt8)
  | 0, _, _ => []
  | fuel + 1, pos, rem =>
    if rem = 0 then []
    else
      let fraglen := if perFragm > rem then rem else perFragm
      (skb.take hdrlen ++ (skb.drop pos).take fraglen) ::
        fragmentLoop skb hdrlen perFragm fuel (pos + fraglen) (rem - fraglen)

/-- `ieee80211_fragment`. -/
def fragment (skb : List UInt8) (hdrlen fragThreshold : ℕ) : Option (List (List UInt8)) :=
  let perFragm := fragThreshold - hdrlen - fcsLen
  let pos := hdrlen + perFragm
  if skb.length < pos then none
  else
    let rem := skb.length - hdrlen - perFragm
    some (skb.take pos :: fragmentLoop skb hdrlen perFragm rem pos rem)

def updateHdr (last : Bool) (fragnum : ℕ) (skb : List UInt8) : List UInt8 :=
  let fc := frameControl skb
  let skb := setField skb 0 (putLe16 (if last then fc &&& 0xfbff else fc ||| 0x0400))
  setField skb 22 (putLe16 (seqCtrl skb ||| (fragnum &&& 0x000f)))

/-- What the handler looks at: flags of the frame and of the hardware. -/
structure TxInfo where
  dontfrag : Bool
  ampdu : Bool
  supportsTxFrag : Bool

/-- `ieee80211_tx_h_fragment`: the frames to send, or `TX_DROP`. -/
def txHFragment (info : TxInfo) (fragThreshold : ℕ) (skb : List UInt8) :
    Option (List (List UInt8)) :=
  if info.dontfrag then some [skb]
  else if info.supportsTxFrag then some [skb]
  else if info.ampdu then none
  else if skb.length + fcsLen ≤ fragThreshold then none
  else
    (fragment skb (hdrlen (frameControl skb)) fragThreshold).map fun skbs =>
      skbs.mapIdx fun i skb => updateHdr (i + 1 == skbs.length) i skb

/-! ### Pieces -/

section pieces
variable {hdr body : List UInt8} {perFragm : ℕ}

theorem fragmentLoop_spec (hper : 0 < perFragm) (fuel pos rem : ℕ) (hfuel : rem ≤ fuel)
    (hpos : hdr.length ≤ pos) (hrem : pos + rem = (hdr ++ body).length) :
    ∃ pieces : List (List UInt8),
      fragmentLoop (hdr ++ body) hdr.length perFragm fuel pos rem = pieces.map (hdr ++ ·) ∧
      pieces.flatten = (hdr ++ body).drop pos ∧ (∀ p ∈ pieces, p.length ≤ perFragm) ∧
      pieces.length * perFragm < rem + perFragm := by
  induction fuel generalizing pos rem with
  | zero =>
    refine ⟨[], rfl, ?_, by simp, by simp; omega⟩
    rw [drop_eq_nil_of_le (by omega)]
    rfl
  | succ fuel ih =>
    rw [fragmentLoop]
    rcases Nat.eq_zero_or_pos rem with rfl | hrpos
    · refine ⟨[], rfl, ?_, by simp, by simp; omega⟩
      rw [drop_eq_nil_of_le (by omega)]
      rfl
    rw [if_neg (by omega)]
    dsimp only
    generalize hf : (if perFragm > rem then rem else perFragm) = fraglen
    have hle : 0 < fraglen ∧ fraglen ≤ rem ∧ fraglen ≤ perFragm ∧
        (fraglen = perFragm ∨ fraglen = rem) := by
      split at hf <;> omega
    obtain ⟨pieces, hloop, hflat, hlen, hcount⟩ :=
      ih (pos + fraglen) (rem - fraglen) (by omega) (by omega) (by omega)
    refine ⟨((hdr ++ body).drop pos).take fraglen :: pieces, ?_, ?_, ?_, ?_⟩
    · rw [hloop, take_left' rfl, map_cons]
    · rw [flatten_cons, hflat, ← drop_drop, take_append_drop]
    · exact forall_mem_cons.mpr ⟨(length_take_le _ _).trans hle.2.2.1, hlen⟩
    rw [length_cons, Nat.succ_mul]
    rcases hle.2.2.2 with h | h
    · omega
    -- nothing is left after a piece that is not full
    have hzero : pieces.length = 0 := by
      by_contra hne
      have hge := Nat.le_mul_of_pos_left perFragm (Nat.pos_of_ne_zero hne)
      omega
    rw [hzero]
    omega

theorem fragment_spec {threshold : ℕ} (hthr : hdr.length + fcsLen < threshold)
    (hlong : threshold < (hdr ++ body).length + fcsLen) :
    ∃ p ps, fragment (hdr ++ body) hdr.length threshold = some ((p :: ps).map (hdr ++ ·)) ∧
      (p :: ps).flatten = body ∧ ps ≠ [] ∧
      (∀ q ∈ p :: ps, hdr.length + q.length + fcsLen ≤ threshold) ∧
      ps.length * (threshold - hdr.length - fcsLen) < body.length := by
  have hlen : (hdr ++ body).length = hdr.length + body.length := length_append
  generalize hper : threshold - hdr.length - fcsLen = perFragm
  have hpos : 0 < perFragm := by omega
  obtain ⟨ps, hloop, hflat, hle, hcount⟩ := fragmentLoop_spec hpos (body.length - perFragm)
    (hdr.length + perFragm) (body.length - perFragm) le_rfl (Nat.le_add_right _ _)
    (show hdr.length + perFragm + (body.length - perFragm) = (hdr ++ body).length by omega)
  have hdrop : (hdr ++ body).drop (hdr.length + perFragm) = body.drop perFragm := by
    rw [← drop_drop, drop_left' rfl]
  rw [hdrop] at hflat
  refine ⟨body.take perFragm, ps, ?_, ?_, ?_, ?_, ?_⟩
  · have hrem : (hdr ++ body).length - hdr.length - perFragm = body.length - perFragm := by omega
    have htake : (hdr ++ body).take (hdr.length + perFragm) = hdr ++ body.take perFragm := by
      rw [take_append, take_of_length_le (by omega), Nat.add_sub_cancel_left]
    rw [fragment]
    simp only [hper, hrem, hloop, htake]
    rw [if_neg (by omega)]
    rfl
  · rw [flatten_cons, hflat, take_append_drop]
  · rintro rfl
    have hnil := congrArg List.length hflat
    simp only [flatten_nil, length_nil, length_drop] at hnil
    omega
  · intro q hq
    have hq' : q.length ≤ perFragm := by
      rcases mem_cons.mp hq with rfl | hq
      · exact length_take_le _ _
      · exact hle q hq
    omega
  · omega

end pieces

/-! ### Headers -/

section headers
variable {hdr : List UInt8} {last : Bool} {i : ℕ}

theorem frameControl_lt (hdr : List UInt8) : frameControl hdr < 65536 := le16_lt hdr 0

def fragFc (last : Bool) (fc : ℕ) : ℕ := if last then fc &&& 0xfbff else fc ||| 0x0400

theorem fragFc_lt {fc : ℕ} (h : fc < 65536) : fragFc last fc < 65536 := by
  unfold fragFc
  split
  · exact lt_of_le_of_lt Nat.and_le_left h
  · exact Nat.or_lt_two_pow (n := 16) h (by decide)

theorem fragFc_and (fc : ℕ) {m : ℕ} (h₁ : 0xfbff &&& m = m) (h₂ : 0x0400 &&& m = 0) :
    fragFc last fc &&& m = fc &&& m := by
  unfold fragFc
  split
  · rw [Nat.and_assoc, h₁]
  · rw [Nat.and_or_distrib_right, h₂, Nat.or_zero]

theorem hasMorefrags_fragFc (fc : ℕ) : hasMorefrags (fragFc last fc) = !last := by
  unfold hasMorefrags fragFc
  cases last with
  | true =>
    have h : fc &&& 0xfbff &&& 0x0400 = 0 := by
      rw [Nat.and_assoc]
      exact Nat.and_zero fc
    simp [h]
  | false =>
    have h : (fc ||| 0x0400) &&& 0x0400 = 0x0400 := by
      apply Nat.eq_of_testBit_eq
      intro j
      simp only [Nat.testBit_or, Nat.testBit_and]
      cases fc.testBit j <;> simp
    simp [h]

section kept
variable (last : Bool) (fc : ℕ)

@[simp] theorem ftype_fragFc : ftype (fragFc last fc) = ftype fc :=
  fragFc_and fc (by decide) (by decide)

@[simp] theorem isDataQos_fragFc : isDataQos (fragFc last fc) = isDataQos fc := by
  rw [isDataQos, isDataQos, fragFc_and fc (by decide) (by decide)]

@[simp] theorem hasA4_fragFc : hasA4 (fragFc last fc) = hasA4 fc := by
  rw [hasA4, hasA4, fragFc_and fc (by decide) (by decide)]

@[simp] theorem hasOrder_fragFc : hasOrder (fragFc last fc) = hasOrder fc := by
  rw [hasOrder, hasOrder, fragFc_and fc (by decide) (by decide)]

@[simp] theorem hasProtected_fragFc : hasProtected (fragFc last fc) = hasProtected fc := by
  rw [hasProtected, hasProtected, fragFc_and fc (by decide) (by decide)]

end kept

theorem hdrlen_of_isData {fc : ℕ} (h : isData fc = true) :
    hdrlen fc = (if hasA4 fc then 30 else 24) +
      if isDataQos fc then 2 + (if hasOrder fc then 4 else 0) else 0 := by
  have hext : isExt fc = false := by
    simp only [isData, isExt, beq_iff_eq] at h ⊢
    rw [h]
    rfl
  rw [hdrlen, hext, h]
  rfl

theorem hdrlen_fragFc {fc : ℕ} (h : isData fc = true) :
    hdrlen (fragFc last fc) = hdrlen fc := by
  have h' : isData (fragFc last fc) = true := by
    rwa [isData, ftype_fragFc]
  rw [hdrlen_of_isData h, hdrlen_of_isData h']
  simp

theorem hdrlen_bounds {fc : ℕ} (h : isData fc = true) : 24 ≤ hdrlen fc ∧ hdrlen fc ≤ 36 := by
  rw [hdrlen_of_isData h]
  split <;> split <;> (try split) <;> omega

/-- What the header of a fragment keeps: the words that are written, and the other fields. -/
structure FragHdr (last : Bool) (i : ℕ) (hdr hdr' : List UInt8) : Prop where
  length : hdr'.length = hdr.length
  frameControl : frameControl hdr' = fragFc last (frameControl hdr)
  seqCtrl : seqCtrl hdr' = seqCtrl hdr + i
  field : ∀ off n, 2 ≤ off → off + n ≤ 22 ∨ 24 ≤ off → field hdr' off n = field hdr off n

theorem or_fragnum {sc : ℕ} (hsc : fragOf sc = 0) (hi : i < 16) :
    sc ||| (i &&& 0x000f) = sc + i := by
  have hmask : i &&& 0x000f = i := by
    rw [show (0x000f : ℕ) = 2 ^ 4 - 1 from rfl, Nat.and_two_pow_sub_one_eq_mod]
    exact Nat.mod_eq_of_lt hi
  obtain ⟨k, rfl⟩ : ∃ k, sc = 2 ^ 4 * k := ⟨sc / 16, by unfold fragOf at hsc; omega⟩
  rw [hmask, Nat.two_pow_add_eq_or_of_lt hi]

theorem updateHdr_append (hlen : 24 ≤ hdr.length) (last : Bool) (i : ℕ) (body : List UInt8) :
    updateHdr last i (hdr ++ body) = updateHdr last i hdr ++ body := by
  have hset : ∀ n, setField (hdr ++ body) 0 (putLe16 n) = setField hdr 0 (putLe16 n) ++ body :=
    fun n => setField_append (show 0 + 2 ≤ hdr.length by omega)
  have hlen' : ∀ n, (setField hdr 0 (putLe16 n)).length = hdr.length :=
    fun n => length_setField (show 0 + 2 ≤ hdr.length by omega)
  simp only [updateHdr, frameControl_append (show 2 ≤ hdr.length by omega), hset]
  rw [seqCtrl, le16_append (by rw [hlen']; omega),
    setField_append (by rw [hlen']; exact (show 22 + 2 ≤ hdr.length by omega)), seqCtrl]

theorem fragHdr_updateHdr (hlen : 24 ≤ hdr.length) (hsc : fragOf (Ieee80211.seqCtrl hdr) = 0)
    (last : Bool) (hi : i < 16) : FragHdr last i hdr (updateHdr last i hdr) := by
  have hfclt : fragFc last (Ieee80211.frameControl hdr) < 65536 := fragFc_lt (frameControl_lt hdr)
  have hsclt : Ieee80211.seqCtrl hdr + i < 65536 := by
    have h := le16_lt hdr 22
    unfold fragOf Ieee80211.seqCtrl at *
    omega
  -- the two writes, one after the other
  obtain ⟨hdr₁, h₁⟩ : ∃ h,
      setField hdr 0 (putLe16 (fragFc last (Ieee80211.frameControl hdr))) = h := ⟨_, rfl⟩
  have hl₁ : hdr₁.length = hdr.length := by
    rw [← h₁, length_setField (show 0 + 2 ≤ hdr.length by omega)]
  have hsc₁ : Ieee80211.seqCtrl hdr₁ = Ieee80211.seqCtrl hdr := by
    rw [← h₁]
    exact le16_setField (Or.inr (show 0 + 2 ≤ 22 by omega)) (Nat.zero_le _)
  have heq : updateHdr last i hdr = setField hdr₁ 22 (putLe16 (Ieee80211.seqCtrl hdr + i)) := by
    rw [← h₁] at hsc₁ ⊢
    rw [updateHdr, ← or_fragnum hsc hi, ← hsc₁]
    rfl
  rw [heq]
  constructor
  · rw [length_setField (show 22 + 2 ≤ hdr₁.length by omega), hl₁]
  · rw [frameControl_setField (Or.inl (by omega)) (by omega), ← h₁]
    exact (le16_setField_putLe16 (Nat.zero_le _) _).trans (Nat.mod_eq_of_lt hfclt)
  · exact (le16_setField_putLe16 (by omega) _).trans (Nat.mod_eq_of_lt hsclt)
  · intro off n hoff hn
    rw [field_setField_of_disjoint (show off + n ≤ 22 ∨ 22 + 2 ≤ off by omega) (by omega), ← h₁,
      field_setField_of_disjoint (Or.inr (show 0 + 2 ≤ off by omega)) (Nat.zero_le _)]

end headers

/-! ### Frames -/

/-- An MSDU that is not protected: a data frame of three or four addresses, with a QoS control field
or not, that is not a fragment itself. -/
structure Msdu where
  hdr : List UInt8
  body : List UInt8
  isData : isData (frameControl hdr) = true
  unprotected : hasProtected (frameControl hdr) = false
  length_hdr : hdr.length = hdrlen (frameControl hdr)
  first : fragOf (seqCtrl hdr) = 0
  short : body.length ≤ 2304

def Msdu.bytes (m : Msdu) : List UInt8 := m.hdr ++ m.body

/-- A fragment: its header and its part of the body. -/
structure Mpdu where
  hdr : List UInt8
  body : List UInt8

def Mpdu.bytes (f : Mpdu) : List UInt8 := f.hdr ++ f.body

/-- **Fragmentation.**  A frame that is longer than the threshold becomes at most 16 fragments
within it, numbered from 0 on. -/
theorem txHFragment_spec (m : Msdu) {info : TxInfo} (hdont : info.dontfrag = false)
    (hampdu : info.ampdu = false) (hhw : info.supportsTxFrag = false) {threshold : ℕ}
    (h256 : 256 ≤ threshold) (hlong : threshold < m.bytes.length + fcsLen) :
    ∃ fs : List Mpdu, txHFragment info threshold m.bytes = some (fs.map Mpdu.bytes) ∧
      (fs.map Mpdu.body).flatten = m.body ∧ 2 ≤ fs.length ∧ fs.length ≤ 16 ∧
      ∀ i f, fs[i]? = some f → FragHdr (i + 1 == fs.length) i m.hdr f.hdr ∧
        f.bytes.length + fcsLen ≤ threshold := by
  obtain ⟨h24, h36⟩ := hdrlen_bounds m.isData
  have hlen := m.length_hdr
  have hfcs : fcsLen = 4 := rfl
  have hthr : m.hdr.length + fcsLen < threshold := by omega
  obtain ⟨p, ps, hfrag, hflat, hne, hle, hcount⟩ := fragment_spec hthr hlong
  -- at least 216 bytes go into a fragment
  have hfew : ps.length < 15 := by
    have hshort := m.short
    by_contra hge
    have hmul := Nat.mul_le_mul (show 15 ≤ ps.length by omega)
      (show 216 ≤ threshold - m.hdr.length - fcsLen by omega)
    omega
  have hpos := length_pos_iff.mpr hne
  refine ⟨(p :: ps).mapIdx fun i q => ⟨updateHdr (i + 1 == (p :: ps).length) i m.hdr, q⟩,
    ?_, ?_, ?_, ?_, ?_⟩
  · rw [txHFragment, hdont, hhw, hampdu, if_neg Bool.false_ne_true, if_neg Bool.false_ne_true,
      if_neg Bool.false_ne_true, if_neg (by omega), Msdu.bytes,
      frameControl_append (by omega), ← hlen, hfrag, Option.map_some]
    congr 1
    apply ext_getElem?
    intro i
    simp only [List.getElem?_mapIdx, List.getElem?_map, Option.map_map, length_map]
    congr 1
    funext q
    exact updateHdr_append (by omega) _ _ _
  · rw [← hflat]
    congr 1
    apply ext_getElem?
    intro i
    simp only [List.getElem?_mapIdx, List.getElem?_map, Option.map_map]
    exact Option.map_id'
  · simp only [length_mapIdx, length_cons]
    omega
  · simp only [length_mapIdx, length_cons]
    omega
  · intro i f hf
    simp only [List.getElem?_mapIdx, Option.map_eq_some_iff] at hf
    obtain ⟨q, hq, rfl⟩ := hf
    have hi : i < (p :: ps).length := (List.getElem?_eq_some_iff.mp hq).1
    have hhdr : FragHdr (i + 1 == (p :: ps).length) i m.hdr
        (updateHdr (i + 1 == (p :: ps).length) i m.hdr) :=
      fragHdr_updateHdr (by omega) m.first _ (by simp only [length_cons] at hi; omega)
    refine ⟨by rw [length_mapIdx]; exact hhdr, ?_⟩
    rw [Mpdu.bytes, length_append, hhdr.length]
    exact hle q (mem_of_getElem? hq)

end Iwlwifi.Ieee80211.TxFragment
