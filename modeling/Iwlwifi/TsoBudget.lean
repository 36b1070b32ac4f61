import Iwlwifi.TsoAmsdu

/-! # The budget of an A-MSDU

`iwl_mld_tx_tso_segment` (`mld/tx.c`) decides, before anything is built, how many subframes an A-MSDU
may have: by its length, by what the peer accepts, and by the number of TBs of a frame.

* **Decision** (`txTsoSegment`): a large frame is passed on as a whole, or segmented by the stack.
* **Counting.**  The functions of `TsoAmsdu` cut the payload at the ends of subframes and of pieces;
  a subframe takes one TB for its headers, and at most one more than the pieces it uses up.
* `tso_amsdu_fits`: the TBs of a frame that is passed on do not exceed those of the device, and the
  A-MSDU is not longer than the decision allows. -/

namespace Iwlwifi.Pcie.Tso

open Pieces List

open Memory (Mem)
open Ieee80211

/-! ### The decision -/

/-- `struct ieee80211_sta`, as far as it is used here. -/
structure TsoSta where
  maxRcAmsduLen : ℕ
  maxTidAmsduLen : ℕ → ℕ
  maxAmsduSubframes : ℕ

/-- What becomes of a frame: `iwl_tx_tso_segment` with the given number of subframes, with checksum
offload or not; an error; or the frame as it is. -/
inductive Sent
  | segmented (numSubframes : ℕ) (csum : Bool) (skb : Skb)
  | einval
  | whole (numSubframes : ℕ) (skb : Skb)

/-- `IEEE80211_QOS_CTL_A_MSDU_PRESENT`. -/
def Skb.setAmsduPresent (skb : Skb) : Skb :=
  { skb with head := skb.head.modify (qosCtlOffs (frameControl skb.head)) (· ||| 0x80) }

/-- `ieee80211_get_tid`. -/
def Skb.tid (skb : Skb) : ℕ := (skb.head.getD (qosCtlOffs (frameControl skb.head)) 0).toNat % 16

def Skb.subfLen (skb : Skb) : ℕ := 14 + skb.snapIpTcpHdrlen + skb.gsoSize

def Skb.pad (skb : Skb) : ℕ := (4 - skb.subfLen % 4) % 4

/-- `iwl_mld_tx_tso_segment`; `ipv6Ext` stands for IPv6 with extension headers. -/
def txTsoSegment (sta : TsoSta) (maxSkbFrags transportHeader : ℕ) (ipv6Ext : Bool) (skb : Skb) : Sent :=
  if !isDataQos (frameControl skb.head) || sta.maxRcAmsduLen = 0 then .segmented 1 true skb
  else if ipv6Ext then .segmented 1 false skb
  else if 8 ≤ skb.tid then .einval
  else
    let maxTidAmsduLen := sta.maxTidAmsduLen skb.tid
    if maxTidAmsduLen = 0 || maxTidAmsduLen = 1 then .segmented 1 true skb
    else
      let numSubframes := (maxTidAmsduLen + skb.pad) / (skb.subfLen + skb.pad)
      if numSubframes = 0 then .segmented 1 true skb
      else
        let numSubframes :=
          if sta.maxAmsduSubframes ≠ 0 ∧ sta.maxAmsduSubframes < numSubframes then sta.maxAmsduSubframes
          else numSubframes
        let tcpPayloadLen :=
          skb.head.length - transportHeader - skb.tcpHdrlen + skb.frags.flatten.length
        let numSubframes :=
          if maxSkbFrags < numSubframes * 2 + skb.frags.length + 1 then 1 else numSubframes
        let sent := if 1 < numSubframes then skb.setAmsduPresent else skb
        if tcpPayloadLen ≤ numSubframes * skb.gsoSize then .whole numSubframes sent
        else .segmented numSubframes true sent

theorem frameControl_setAmsduPresent (skb : Skb) :
    frameControl skb.setAmsduPresent.head = frameControl skb.head := by
  have hoffs : 24 ≤ qosCtlOffs (frameControl skb.head) := by
    unfold qosCtlOffs
    split <;> omega
  have hget (i : ℕ) (hi : i < 2) : skb.setAmsduPresent.head.getD i 0 = skb.head.getD i 0 := by
    have hne : qosCtlOffs (frameControl skb.head) ≠ i := by omega
    simp [Skb.setAmsduPresent, getD_eq_getElem?_getD, hne]
  unfold frameControl Bytes.le16
  rw [hget 0 (by omega), hget 1 (by omega)]

theorem txTsoSegment_whole {sta : TsoSta} {maxSkbFrags transportHeader n : ℕ} {ipv6Ext : Bool}
    {skb sent : Skb}
    (h : txTsoSegment sta maxSkbFrags transportHeader ipv6Ext skb = .whole n sent) :
    isDataQos (frameControl skb.head) = true ∧
      n * (skb.subfLen + skb.pad) ≤ sta.maxTidAmsduLen skb.tid + skb.pad ∧
      skb.head.length - transportHeader - skb.tcpHdrlen + skb.frags.flatten.length ≤ n * skb.gsoSize ∧
      (sent = skb.setAmsduPresent ∨ sent = skb) := by
  unfold txTsoSegment at h
  split at h
  next => cases h
  next hqos =>
  split at h
  next => cases h
  split at h
  next => cases h
  dsimp only at h
  split at h
  next => cases h
  split at h
  next => cases h
  next hn =>
  generalize hmax : (sta.maxTidAmsduLen skb.tid + skb.pad) / (skb.subfLen + skb.pad) = m at h hn
  have hm : m * (skb.subfLen + skb.pad) ≤ sta.maxTidAmsduLen skb.tid + skb.pad :=
    hmax ▸ Nat.div_mul_le_self _ _
  generalize hcap : (if sta.maxAmsduSubframes ≠ 0 ∧ sta.maxAmsduSubframes < m then
    sta.maxAmsduSubframes else m) = c at h
  generalize hnum : (if maxSkbFrags < c * 2 + skb.frags.length + 1 then 1 else c) = k at h
  have hk : k ≤ m := by
    split at hcap <;> split at hnum <;> omega
  split at h <;> cases h
  next hpay =>
    rw [Bool.or_eq_true, not_or, Bool.not_eq_true', Bool.not_eq_false] at hqos
    refine ⟨hqos.1, (Nat.mul_le_mul_right _ hk).trans hm, hpay, ?_⟩
    split
    · exact .inl rfl
    · exact .inr rfl

/-! ### Counting -/

section counting
variable {τ : Type} {ops : TsoOps τ} {cursor : τ → List (List UInt8)} {hw : Hw} {sgt : List Seg}
  {skb : Skb} {mem : Mem} {pieces : List (List UInt8)} {da sa : List UInt8} {bound : ℕ}

/-- No mapped area of a newer device crosses a 4 GiB boundary: the workaround is not used. -/
def NoWorkaround (hw : Hw) (sgt : List Seg) : Prop :=
  hw.gen = .gen2 → ∀ sg ∈ sgt, sg.addr / 2 ^ 32 = (sg.addr + sg.len) / 2 ^ 32

theorem puts_of_noWorkaround (hmap : Coarser (Seg.bytes mem) sgt pieces)
    (hwa : NoWorkaround hw sgt) : Puts hw sgt skb pieces fun _ _ => True where
  nil := trivial
  append _ _ _ _ _ _ := trivial
  put off size p ps tbs hat hp _ hroom := by
    obtain ⟨sg, hsg, a, hfind, hle, -⟩ := exists_tbPhys hmap hat hp
    have hfull : ¬numTbs tbs ≥ hw.maxTbs := by omega
    refine ⟨sg.addr + a, ?_⟩
    cases hgen : hw.gen with
    | gen1 =>
      simp only [putData, hgen, if_neg hfull]
      split
      · exact ⟨[], hfind, by rw [append_nil], Nat.zero_le _, trivial⟩
      · exact ⟨_, hfind, rfl, le_rfl, trivial⟩
    | gen2 =>
      have hseg := hwa hgen sg hsg
      have hmod := Nat.mod_le size hw.tbLimit
      have hcross : crosses4gBoundary (sg.addr + a) (size % hw.tbLimit) = false := by
        simp only [crosses4gBoundary, bne_eq_false_iff_eq]
        omega
      simp only [putData, hgen, hcross, Bool.not_false, if_true, if_neg hfull]
      exact ⟨_, hfind, rfl, le_rfl, trivial⟩

/-- TBs are left for the rest of the payload, within the bound. -/
structure Roomy (cursor : τ → List (List UInt8)) (skb : Skb) (pieces : List (List UInt8)) (bound : ℕ)
    (st : Build τ) : Prop where
  position : At pieces st.dataOffset (cursor st.tso)
  total : st.dataOffset + st.totalLen = pieces.flatten.length
  room : numTbs st.tbs + (cursor st.tso).length + 2 * divRoundUp st.totalLen skb.gsoSize ≤ bound
  cursor_le : (cursor st.tso).length ≤ skb.frags.length + 1

variable (hQ : Puts hw sgt skb pieces fun _ _ => True) (hmss : 0 < skb.gsoSize)
  (hdoc : Documented ops cursor skb skb.snapIpTcpHdrlen) (hda : da.length = 6) (hsa : sa.length = 6)
  (hbound : bound ≤ hw.maxTbs)
include hQ hmss hdoc hda hsa hbound

theorem Roomy.buildSubframe {st : Build τ} (hst : Roomy cursor skb pieces bound st)
    (hpos : 0 < st.totalLen) :
    ∃ st', buildSubframe ops hw sgt skb da sa st = some st' ∧ Roomy cursor skb pieces bound st' ∧
      st'.totalLen = st.totalLen - min skb.gsoSize st.totalLen ∧
      st'.area.length = st.area.length + (st.amsduPad + 14 + skb.snapIpTcpHdrlen) ∧
      st'.amsduPad = (4 - (14 + skb.snapIpTcpHdrlen + min skb.gsoSize st.totalLen) % 4) % 4 := by
  have hsegs := divRoundUp_sub hpos hmss
  obtain ⟨hat, htotal, hroom, hcursor⟩ := hst
  generalize hleft : min skb.gsoSize st.totalLen = dataLeft at *
  obtain ⟨-, hdrs, page, tso', new, -, -, -, hhdrs, -, hrun, hat', hcount, hcur', -⟩ :=
    buildSubframe_run hQ hdoc hda hsa hleft hat htotal (by omega) hcursor
  refine ⟨_, hrun, ⟨hat', ?_, ?_, ?_⟩, rfl, ?_, rfl⟩
  · dsimp only
    omega
  · simp only [numTbs, length_append, length_singleton] at hroom ⊢
    omega
  · dsimp only
    omega
  · rw [length_append, hhdrs]

/-- The headers of the subframes that are left; the last subframe is not padded. -/
def hdrsLen (skb : Skb) (amsduPad totalLen : ℕ) : ℕ :=
  if totalLen = 0 then 0
  else
    amsduPad + divRoundUp totalLen skb.gsoSize * (14 + skb.snapIpTcpHdrlen) +
      (divRoundUp totalLen skb.gsoSize - 1) * skb.pad

theorem Roomy.buildSubframes {n : ℕ} :
    ∀ {st : Build τ}, Roomy cursor skb pieces bound st → st.totalLen ≤ n →
      ∃ r, buildSubframes ops hw sgt skb da sa n st = some r ∧ numTbs r.tbs ≤ bound ∧
        r.area.length = st.area.length + hdrsLen skb st.amsduPad st.totalLen := by
  have hdone {st : Build τ} (hst : Roomy cursor skb pieces bound st) (h0 : st.totalLen = 0) :
      numTbs st.tbs ≤ bound ∧
        st.area.length = st.area.length + hdrsLen skb st.amsduPad st.totalLen := by
    have hroom := hst.room
    rw [hdrsLen, if_pos h0]
    omega
  induction n with
  | zero =>
    intro st hst hn
    have h0 : st.totalLen = 0 := by omega
    exact ⟨st, by rw [Tso.buildSubframes, if_pos h0], hdone hst h0⟩
  | succ n ih =>
    intro st hst hn
    rcases Nat.eq_zero_or_pos st.totalLen with h0 | hpos
    · exact ⟨st, by rw [Tso.buildSubframes, if_pos h0], hdone hst h0⟩
    obtain ⟨st', hstep, hst', htotal, harea, hpad⟩ :=
      hst.buildSubframe hQ hmss hdoc hda hsa hbound hpos
    obtain ⟨r, hrun, htbs, hlen⟩ := ih hst' (by omega)
    refine ⟨r, ?_, htbs, ?_⟩
    · rwa [Tso.buildSubframes, if_neg (by omega), hstep]
    have hsegs := divRoundUp_sub hpos hmss
    rw [← htotal] at hsegs
    rw [hlen, harea, hdrsLen, hdrsLen, if_neg hpos.ne', hsegs, Nat.add_mul, Nat.one_mul,
      Nat.add_sub_cancel]
    by_cases h0 : st'.totalLen = 0
    · rw [if_pos h0, h0, divRoundUp_zero hmss]
      omega
    -- only the last subframe is shorter
    have hfull : min skb.gsoSize st.totalLen = skb.gsoSize := by omega
    have hsub := divRoundUp_sub (Nat.pos_of_ne_zero h0) hmss
    have hpad' : st'.amsduPad = skb.pad := by rw [hpad, hfull, Skb.pad, Skb.subfLen]
    rw [if_neg h0, hpad', hsub, Nat.add_sub_cancel, Nat.add_mul _ 1 skb.pad, Nat.one_mul]
    omega

end counting

/-! ### The result -/

theorem divRoundUp_le {n d k : ℕ} (hd : 0 < d) (h : n ≤ k * d) : divRoundUp n d ≤ k := by
  rw [divRoundUp, Nat.le_iff_lt_add_one, Nat.div_lt_iff_lt_mul hd, Nat.add_mul]
  omega

theorem hdrsLen_add_le {skb : Skb} {total n : ℕ} (hmss : 0 < skb.gsoSize)
    (h : total ≤ n * skb.gsoSize) :
    hdrsLen skb 0 total + total ≤ n * (skb.subfLen + skb.pad) - skb.pad := by
  unfold hdrsLen
  split
  next h0 => omega
  next h0 =>
    obtain ⟨m, rfl⟩ : ∃ m, n = m + 1 := by
      cases n with
      | zero => simp at h; omega
      | succ m => exact ⟨m, rfl⟩
    have hle := divRoundUp_le hmss h
    have hhdrs := Nat.mul_le_mul_right (14 + skb.snapIpTcpHdrlen) hle
    have hpads : (divRoundUp total skb.gsoSize - 1) * skb.pad ≤ m * skb.pad :=
      Nat.mul_le_mul_right _ (by omega)
    have hsum : (m + 1) * (skb.subfLen + skb.pad) =
        (m + 1) * (14 + skb.snapIpTcpHdrlen) + (m + 1) * skb.gsoSize + m * skb.pad + skb.pad := by
      rw [Skb.subfLen, Nat.mul_add, Nat.mul_add, Nat.succ_mul m skb.pad, ← Nat.add_assoc]
    omega

/-- **The budget**: a frame that is passed on as a whole takes at most the TBs of the device, even
if the functions were given more (`limit`), and its A-MSDU is not longer than allowed for its TID.
-/
theorem tso_amsdu_fits {τ : Type} {ops : TsoOps τ} {cursor : τ → List (List UInt8)} {hw : Hw}
    {sgt : List Seg} {skb sent : Skb} {mem : Mem} {sta : TsoSta} {hdrLen ivLen n : ℕ} {ipv6Ext : Bool}
    (hhdr : hdrLen = hdrlen (frameControl sent.head)) (hiv : ivLen = hw.ivLen sent.head)
    (hsent : txTsoSegment sta hw.maxSkbFrags (hdrLen + ivLen + 8 + skb.networkHeaderLen) ipv6Ext skb =
      .whole n sent)
    (hbudget : n * 2 + sent.frags.length + 1 ≤ hw.maxSkbFrags)
    (hhead : hdrLen + ivLen + sent.snapIpTcpHdrlen ≤ sent.head.length) (hmss : 0 < sent.gsoSize)
    {pieces : List (List UInt8)}
    (hpieces : pieces = sent.pieces (hdrLen + ivLen + sent.snapIpTcpHdrlen))
    (hdoc : Documented ops cursor (sent.pull (hdrLen + ivLen)) sent.snapIpTcpHdrlen)
    (hmap : Coarser (Seg.bytes mem) sgt pieces) (hwa : NoWorkaround hw sgt) {limit : ℕ}
    (hlimit : hw.maxTbs ≤ limit) :
    ∃ r, ({ hw with maxTbs := limit } : Hw).build ops sgt sent hdrLen = some r ∧
      numTbs r.tbs ≤ hw.maxTbs ∧
      r.area.length - ivLen + pieces.flatten.length ≤ sta.maxTidAmsduLen skb.tid := by
  obtain ⟨hqos, hlen, hpay, hor⟩ := txTsoSegment_whole hsent
  -- the flag changes nothing of this
  obtain ⟨hfc, hheadLen, hfrags, hgso, hsnap, hpad⟩ : frameControl sent.head = frameControl skb.head ∧
      sent.head.length = skb.head.length ∧ sent.frags = skb.frags ∧ sent.gsoSize = skb.gsoSize ∧
      sent.snapIpTcpHdrlen = skb.snapIpTcpHdrlen ∧ sent.pad = skb.pad := by
    obtain rfl | rfl := hor
    · exact ⟨frameControl_setAmsduPresent skb, length_modify .., rfl, rfl, rfl, rfl⟩
    · exact ⟨rfl, rfl, rfl, rfl, rfl, rfl⟩
  have htotal : pieces.flatten.length =
      sent.head.length - (hdrLen + ivLen + sent.snapIpTcpHdrlen) + sent.frags.flatten.length := by
    rw [hpieces, Skb.pieces, flatten_cons, length_append, length_drop]
  have hfits : pieces.flatten.length ≤ n * sent.gsoSize := by
    have hsub : skb.head.length - (hdrLen + ivLen + 8 + skb.networkHeaderLen) - skb.tcpHdrlen =
        sent.head.length - (hdrLen + ivLen + sent.snapIpTcpHdrlen) := by
      rw [hheadLen, hsnap, Skb.snapIpTcpHdrlen]
      omega
    rwa [htotal, ← hsub, hfrags, hgso]
  have hne : pieces ≠ [] := by
    rw [hpieces]
    exact cons_ne_nil _ _
  have hstart : cursor (ops.start (sent.pull (hdrLen + ivLen))) = start pieces := by
    rw [hdoc.start, hpieces, Skb.pieces, Skb.pieces, Skb.pull, drop_drop]
  have hcursor := length_start_le hne
  have hcount : pieces.length = sent.frags.length + 1 := by
    rw [hpieces, Skb.pieces, length_cons]
  have hivlen : ((sent.head.drop hdrLen).take ivLen).length = ivLen := by
    rw [length_take, length_drop]
    omega
  have hready : Roomy cursor (sent.pull (hdrLen + ivLen)) pieces hw.maxTbs
      ⟨ops.start (sent.pull (hdrLen + ivLen)), pieces.flatten.length, 0,
        (sent.head.drop hdrLen).take ivLen, 0,
        (sent.len + (2 ^ 16 - sent.snapIpTcpHdrlen % 2 ^ 16)) % 2 ^ 16, 0, []⟩ := by
    refine ⟨hstart ▸ at_start hne, Nat.zero_add _, ?_, ?_⟩
    · have hmax : hw.maxSkbFrags = hw.maxTbs - 3 := rfl
      have hsegs : divRoundUp pieces.flatten.length sent.gsoSize ≤ n := divRoundUp_le hmss hfits
      show 2 + 0 + (cursor _).length + 2 * divRoundUp pieces.flatten.length sent.gsoSize ≤ _
      rw [hstart]
      omega
    · show (cursor _).length ≤ sent.frags.length + 1
      rw [hstart]
      omega
  have hqos' : isDataQos (frameControl sent.head) = true := hfc ▸ hqos
  have hputs : Puts { hw with maxTbs := limit } sgt (sent.pull (hdrLen + ivLen)) pieces
      fun _ _ => True := puts_of_noWorkaround hmap hwa
  obtain ⟨r, hrun, htbs, harea⟩ := hready.buildSubframes hputs hmss hdoc
    (length_getDA hqos' (by omega)) (length_getSA hqos' (by omega)) hlimit (le_rfl)
  refine ⟨r, ?_, htbs, ?_⟩
  · have hbuild : sent.len - sent.snapIpTcpHdrlen - hdrLen - ivLen = pieces.flatten.length := by
      rw [htotal, Skb.len]
      omega
    have hiv' : Hw.ivLen { hw with maxTbs := limit } sent.head = ivLen := hiv.symm
    rw [Hw.build_eq, buildAmsdu, hiv', hbuild]
    exact hrun
  · have hbound := hdrsLen_add_le hmss hfits
    have heq : r.area.length = ivLen + hdrsLen sent 0 pieces.flatten.length := hivlen ▸ harea
    have hsubf : sent.subfLen = skb.subfLen := by rw [Skb.subfLen, Skb.subfLen, hsnap, hgso]
    rw [hsubf, hpad] at hbound
    omega

deriving instance DecidableEq for Skb, Sent

def exampleSta : TsoSta := ⟨1, fun _ => 300, 0⟩

theorem tso_amsdu_fits_three :
    txTsoSegment exampleSta 17 54 false (exampleSkb 4) = .whole 4 (exampleSkb 4).setAmsduPresent ∧
      ∃ r, Hw.build copyOps ⟨.gen1, 20, 4072⟩ [⟨0, 10⟩] (exampleSkb 4).setAmsduPresent 26 = some r ∧
        numTbs r.tbs ≤ 20 ∧ r.area.length - 0 + 10 ≤ 300 := by
  refine ⟨by decide +kernel, ?_⟩
  generalize hs : (exampleSkb 4).setAmsduPresent = sent
  have hsent : txTsoSegment exampleSta (Hw.maxSkbFrags ⟨.gen1, 20, 4072⟩)
      (26 + 0 + 8 + (exampleSkb 4).networkHeaderLen) false (exampleSkb 4) = .whole 4 sent := by
    rw [← hs]
    decide +kernel
  have hhdr : 26 = hdrlen (frameControl sent.head) := by rw [← hs]; decide
  have hiv : 0 = Hw.ivLen ⟨.gen1, 20, 4072⟩ sent.head := by rw [← hs]; decide
  have hhead : 26 + 0 + sent.snapIpTcpHdrlen ≤ sent.head.length := by rw [← hs]; decide
  have hdoc : Documented copyOps id (sent.pull (26 + 0)) sent.snapIpTcpHdrlen := by
    rw [← hs]
    exact copyOps_documented (by decide)
  have hmap : Coarser (Seg.bytes exampleMem) [⟨0, 10⟩]
      (sent.pieces (26 + 0 + sent.snapIpTcpHdrlen)) := by
    rw [← hs]
    exact ⟨[[Memory.load exampleMem 0 10]], by decide, by decide⟩
  obtain ⟨r, hrun, htbs, hlen⟩ := tso_amsdu_fits hhdr hiv hsent (by rw [← hs]; decide) hhead
    (by rw [← hs]; decide) rfl hdoc hmap (fun h => nomatch h) (Nat.le_refl 20)
  have hpay : (sent.pieces (26 + 0 + sent.snapIpTcpHdrlen)).flatten.length = 10 := by
    rw [← hs]
    decide
  rw [hpay] at hlen
  exact ⟨r, hrun, htbs, hlen⟩

end Iwlwifi.Pcie.Tso
