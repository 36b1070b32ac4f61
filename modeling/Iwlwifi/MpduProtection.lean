import Iwlwifi.Defrag

/-! # CCMP and GCMP

A model of the protection of single MPDUs with AES-CCM and AES-GCM in software
(`net/mac80211/wpa.c`, `aead_api.c`).

* **Encryption** (`cryptoEncrypt`): an 8-byte header with the packet number is put behind the MAC
  header, the payload is encrypted in place, and the MIC is appended.
* **Decryption** (`cryptoDecrypt`): replay check, decryption, and removal of header and MIC.
* **Authenticated data** (`ccmpGcmpAad`): the MAC header with the fields masked that may change on
  the way.  `SameHeader.aad` says that it does not depend on them.
* `mpdu_roundtrip`: an MPDU with a payload is given back by the receiver, once;
  `empty_mpdu_dropped`: one without a payload is not accepted.

The two protocols differ in the nonce and the length of the MIC only.  The ciphers are a parameter
(`Aead`): functions of the nonce, the authenticated data and the data.  Memory is taken to be
available. -/

namespace Iwlwifi.Ieee80211.Mpdu

open Bytes Function List
open Ieee80211.Defrag (Pn)

/-! ### Frames -/

def isStype (fc stype : ℕ) : Bool := fc &&& 0x00fc == stype
def isDisassoc (fc : ℕ) : Bool := isStype fc 0x00a0
def isDeauth (fc : ℕ) : Bool := isStype fc 0x00c0
def isAction (fc : ℕ) : Bool := isStype fc 0x00d0

/-- `ieee80211_is_assoc`: association and reassociation, requests and responses. -/
def isAssoc (fc : ℕ) : Bool :=
  isStype fc 0x0000 || isStype fc 0x0020 || isStype fc 0x0010 || isStype fc 0x0030

/-- `IEEE80211_MIN_ACTION_SIZE(category)`. -/
def minActionSize : ℕ := 25

/-- The categories of action frames that are not robust: public, HT, unprotected WNM,
self-protected, unprotected DMG, VHT, S1G and vendor specific. -/
def unprotectedCategories : List UInt8 := [4, 7, 11, 15, 20, 21, 22, 127]

/-- `ieee80211_is_robust_mgmt_frame`. -/
def isRobustMgmtFrame (skb : List UInt8) : Bool :=
  let fc := frameControl skb
  if skb.length < minActionSize then false
  else if isDisassoc fc || isDeauth fc then true
  else if isAction fc then
    -- a protected frame was found to be robust by the other end
    if hasProtected fc then true else !unprotectedCategories.contains (skb.getD 24 0)
  else false

def slice (skb : List UInt8) (off len : ℕ) : List UInt8 := (skb.drop off).take len

/-- `hdr->addrs`: the first three addresses. -/
def addrs (skb : List UInt8) : List UInt8 := slice skb 4 18

/-- `*ieee80211_get_qos_ctl(hdr)`. -/
def qosCtl (skb : List UInt8) : UInt8 := skb.getD (if hasA4 (frameControl skb) then 30 else 24) 0

/-- `is_unicast_ether_addr(hdr->addr1)`. -/
def unicast (skb : List UInt8) : Bool := !isMulticastEtherAddr (addr1 skb)

/-- `ieee80211_is_frag`. -/
def isFrag (skb : List UInt8) : Bool :=
  hasMorefrags (frameControl skb) || fragOf (seqCtrl skb) != 0

/-! ### Nonce and authenticated data -/

/-- The masked frame control word of `ccmp_gcmp_aad`. -/
def maskFc (fc : ℕ) : ℕ :=
  let maskFc := fc &&& 0xc7ff
  let maskFc := if isMgmt fc then maskFc else maskFc &&& 0xff8f
  let maskFc := maskFc ||| 0x4000
  if isDataQos fc then maskFc &&& 0x7fff else maskFc

/-- `qos_tid` of `ccmp_gcmp_aad`. -/
def qosTid (skb : List UInt8) (sppAmsdu : Bool) : UInt8 :=
  if isDataQos (frameControl skb) then
    if sppAmsdu then qosCtl skb &&& (0x0f ||| 0x80) else qosCtl skb &&& 0x0f
  else 0

/-- `len_a` of `ccmp_gcmp_aad`. -/
def lenA (fc : ℕ) : ℕ := 22 + (if hasA4 fc then 6 else 0) + if isDataQos fc then 2 else 0

/-- The bytes from `aad[2]` on of `ccmp_gcmp_aad`, with the given three addresses. -/
def ccmpGcmpAad (skb : List UInt8) (sppAmsdu : Bool) (addrs : List UInt8) : List UInt8 :=
  let fc := frameControl skb
  let head := [UInt8.ofNat (maskFc fc % 256), UInt8.ofNat (maskFc fc / 256)] ++ addrs ++
    -- mask the sequence number, leave the fragment number
    [skb.getD 22 0 &&& 0x0f, 0]
  let tail :=
    if hasA4 fc then slice skb 24 6 ++ [qosTid skb sppAmsdu, 0]
    else qosTid skb sppAmsdu :: List.replicate 7 0
  (head ++ tail).take (lenA fc)

/-- The two protocols; CCMP with a MIC of 8 or 16 bytes. -/
inductive Cipher
  | ccmp (micLen : ℕ)
  | gcmp

def Cipher.micLen : Cipher → ℕ
  | .ccmp micLen => micLen
  | .gcmp => 16

/-- The nonce: what `ccmp_special_blocks` puts into `b_0`, or `gcmp_special_blocks` into `j_0`, from
the second address and the packet number. -/
def Cipher.nonce (cipher : Cipher) (skb : List UInt8) (sppAmsdu : Bool) (addr2 : List UInt8)
    (pn : Pn) : List UInt8 :=
  match cipher with
  | .ccmp _ =>
    let mgmt : UInt8 := if isMgmt (frameControl skb) then 0x10 else 0
    [0x01, qosTid skb sppAmsdu ||| mgmt] ++ addr2 ++ pn.bytes
  | .gcmp => addr2 ++ pn.bytes

/-- A cipher with authentication under a key. -/
structure Aead where
  encrypt (nonce aad data : List UInt8) : List UInt8 × List UInt8
  decrypt (nonce aad data mic : List UInt8) : Option (List UInt8)

/-- The cipher decrypts what it has encrypted, in place and with a MIC of the given length. -/
structure Aead.Correct (aead : Aead) (micLen : ℕ) : Prop where
  decrypt_encrypt : ∀ nonce aad data,
    aead.decrypt nonce aad (aead.encrypt nonce aad data).1 (aead.encrypt nonce aad data).2 = some data
  length_data : ∀ nonce aad data, (aead.encrypt nonce aad data).1.length = data.length
  length_mic : ∀ nonce aad data, (aead.encrypt nonce aad data).2.length = micLen

/-- `aead_decrypt`: there has to be something to decrypt. -/
def aeadDecrypt (aead : Aead) (nonce aad data mic : List UInt8) : Option (List UInt8) :=
  if data.length = 0 then none else aead.decrypt nonce aad data mic

/-! ### Encryption -/

/-- The packet number in the order of `pn`, most significant byte first. -/
def Pn.ofU64 (pn64 : ℕ) : Pn :=
  ⟨[UInt8.ofNat (pn64 >>> 40), UInt8.ofNat (pn64 >>> 32), UInt8.ofNat (pn64 >>> 24),
    UInt8.ofNat (pn64 >>> 16), UInt8.ofNat (pn64 >>> 8), UInt8.ofNat pn64], rfl⟩

/-- `ccmp_pn2hdr`, `gcmp_pn2hdr`. -/
def pn2hdr (pn : Pn) (keyId : ℕ) : List UInt8 :=
  let pn := pn.bytes
  [pn.getD 5 0, pn.getD 4 0, 0, UInt8.ofNat (0x20 ||| (keyId <<< 6)), pn.getD 3 0, pn.getD 2 0,
    pn.getD 1 0, pn.getD 0 0]

/-- `ccmp_hdr2pn`, `gcmp_hdr2pn`. -/
def hdr2pn (hdr : List UInt8) : Pn :=
  ⟨[hdr.getD 7 0, hdr.getD 6 0, hdr.getD 5 0, hdr.getD 4 0, hdr.getD 1 0, hdr.getD 0 0], rfl⟩

/-- `struct ieee80211_key`, as far as it is used here. -/
structure Key where
  keyidx : ℕ
  sppAmsdu : Bool
  txPn : ℕ
  rxPn : ℕ → Pn
  replays : ℕ

/-- `ieee80211_tx_set_protected`. -/
def setProtected (skb : List UInt8) : List UInt8 := skb.set 1 (skb.getD 1 0 ||| 0x40)

section crypto
variable (cipher : Cipher) (aead : Aead)

/-- `ccmp_encrypt_skb` and `gcmp_encrypt_skb` without hardware acceleration. -/
def encryptSkb (key : Key) (skb : List UInt8) : List UInt8 × Key :=
  let len := hdrlen (frameControl skb)
  let pn64 := (key.txPn + 1) % 2 ^ 64
  let pn := Pn.ofU64 pn64
  -- the header is moved to the front of the pushed 8 bytes
  let pushed := skb.take len ++ pn2hdr pn key.keyidx ++ skb.drop len
  let nonce := cipher.nonce pushed key.sppAmsdu (addr2 pushed) pn
  let aad := ccmpGcmpAad pushed key.sppAmsdu (addrs pushed)
  let (data, mic) := aead.encrypt nonce aad (skb.drop len)
  (skb.take len ++ pn2hdr pn key.keyidx ++ data ++ mic, { key with txPn := pn64 })

/-- `ieee80211_crypto_ccmp_encrypt` and `ieee80211_crypto_gcmp_encrypt`, for one frame. -/
def cryptoEncrypt (key : Key) (skb : List UInt8) : List UInt8 × Key :=
  encryptSkb cipher aead key (setProtected skb)

/-! ### Decryption -/

/-- What the receive path knows about a frame: flags of its status, the station, the replay counter
to use, the addresses before translation, and the packet number of a fragment for reassembly. -/
structure Rx where
  decrypted : Bool
  micStripped : Bool
  pnValidated : Bool
  allowSamePn : Bool
  hasSta : Bool
  eppPeer : Bool
  securityIdx : ℕ
  linkAddrs : List UInt8
  ccmGcmPn : Pn

/-- `ieee80211_rx_result`. -/
inductive RxResult
  | rxContinue (skb : List UInt8)
  | dropShort
  | dropReplay
  | dropMicFail
  deriving DecidableEq

/-- The decryption in `ieee80211_crypto_ccmp_decrypt` and `ieee80211_crypto_gcmp_decrypt`: the frame
with the data in place of the encrypted data. -/
def decryptData (key : Key) (rx : Rx) (skb : List UInt8) (pn : Pn) : Option (List UInt8) :=
  let len := hdrlen (frameControl skb)
  let dataLen := skb.length - len - 8 - cipher.micLen
  -- management frames are authenticated with the addresses on the air
  let aadNonceComputed := unicast skb && !isData (frameControl skb)
  let addrs := if aadNonceComputed then rx.linkAddrs else addrs skb
  let addr2 := if aadNonceComputed then slice rx.linkAddrs 6 6 else addr2 skb
  let nonce := cipher.nonce skb key.sppAmsdu addr2 pn
  let aad := ccmpGcmpAad skb key.sppAmsdu addrs
  (aeadDecrypt aead nonce aad (slice skb (len + 8) dataLen)
    (skb.drop (skb.length - cipher.micLen))).map fun data =>
      skb.take (len + 8) ++ data ++ skb.drop (skb.length - cipher.micLen)

/-- The end of `ieee80211_crypto_ccmp_decrypt` and `ieee80211_crypto_gcmp_decrypt`: header and MIC
are removed. -/
def strip (skb : List UInt8) (micLen : ℕ) : List UInt8 :=
  let len := hdrlen (frameControl skb)
  let trimmed := skb.take (skb.length - micLen)
  trimmed.take len ++ trimmed.drop (len + 8)

/-- `ieee80211_crypto_ccmp_decrypt` and `ieee80211_crypto_gcmp_decrypt`. -/
def cryptoDecrypt (key : Key) (rx : Rx) (skb : List UInt8) : RxResult × Key × Rx :=
  let fc := frameControl skb
  let len := hdrlen fc
  if !isData fc && !isRobustMgmtFrame skb && !(rx.hasSta && rx.eppPeer && isAssoc fc) then
    (.rxContinue skb, key, rx)
  else if rx.decrypted ∧ skb.length < len + 8 then (.dropShort, key, rx)
  else
    let micLen := if rx.decrypted ∧ rx.micStripped then 0 else cipher.micLen
    if !rx.hasSta ∨ skb.length < len + 8 + micLen then (.dropShort, key, rx)
    else if rx.pnValidated then (.rxContinue (strip skb micLen), key, rx)
    else
      let pn := hdr2pn (slice skb len 8)
      -- memcmp of six bytes, the most significant one first
      if pn.value < (key.rxPn rx.securityIdx).value ∨
          (pn = key.rxPn rx.securityIdx ∧ !rx.allowSamePn) then
        (.dropReplay, { key with replays := key.replays + 1 }, rx)
      else
        match if rx.decrypted then some skb else decryptData cipher aead key rx skb pn with
        | none => (.dropMicFail, key, rx)
        | some skb' =>
          (.rxContinue (strip skb' micLen),
            { key with rxPn := update key.rxPn rx.securityIdx pn },
            { rx with ccmGcmPn := if isFrag skb then pn else rx.ccmGcmPn })

end crypto

/-! ### Changes in flight -/

/-- `y` is `x` after changes of Retry, Power Management and More Data, duration and sequence number.
-/
structure InFlight (x y : List UInt8) : Prop where
  length : y.length = x.length
  fc : frameControl y &&& 0xc7ff = frameControl x &&& 0xc7ff
  frag : y.getD 22 0 &&& 0x0f = x.getD 22 0 &&& 0x0f
  rest : ∀ i, 4 ≤ i → i ≠ 22 → i ≠ 23 → y[i]? = x[i]?

/-- The headers of `x` and `y` are the same apart from these changes. -/
structure SameHeader (x y : List UInt8) : Prop where
  fc : frameControl y &&& 0xc7ff = frameControl x &&& 0xc7ff
  frag : y.getD 22 0 &&& 0x0f = x.getD 22 0 &&& 0x0f
  rest : ∀ i, 4 ≤ i → i < 32 → i ≠ 22 → i ≠ 23 → y[i]? = x[i]?

variable {x y : List UInt8}

theorem and_eq_of_masked {fc fc' m : ℕ} (h : fc' &&& 0xc7ff = fc &&& 0xc7ff)
    (hm : 0xc7ff &&& m = m) : fc' &&& m = fc &&& m := by
  rw [← hm, ← Nat.land_assoc, h, Nat.land_assoc]

section masked
variable {fc fc' : ℕ} (h : fc' &&& 0xc7ff = fc &&& 0xc7ff)
include h

theorem ftype_masked : ftype fc' = ftype fc := and_eq_of_masked h rfl

theorem isMgmt_masked : isMgmt fc' = isMgmt fc := by rw [isMgmt, isMgmt, ftype_masked h]

theorem isData_masked : isData fc' = isData fc := by rw [isData, isData, ftype_masked h]

theorem isDataQos_masked : isDataQos fc' = isDataQos fc := by
  rw [isDataQos, isDataQos, and_eq_of_masked h rfl]

theorem hasA4_masked : hasA4 fc' = hasA4 fc := by rw [hasA4, hasA4, and_eq_of_masked h rfl]

theorem hasProtected_masked : hasProtected fc' = hasProtected fc := by
  rw [hasProtected, hasProtected, and_eq_of_masked h rfl]

theorem hdrlen_masked : hdrlen fc' = hdrlen fc := by
  have horder : hasOrder fc' = hasOrder fc := by
    rw [hasOrder, hasOrder, and_eq_of_masked h rfl]
  unfold hdrlen isExt
  rw [ftype_masked h, isData_masked h, isMgmt_masked h, isDataQos_masked h, hasA4_masked h, horder,
    and_eq_of_masked h rfl]

theorem maskFc_masked : maskFc fc' = maskFc fc := by
  unfold maskFc
  rw [h, isMgmt_masked h, isDataQos_masked h]

theorem lenA_masked : lenA fc' = lenA fc := by
  unfold lenA
  rw [hasA4_masked h, isDataQos_masked h]

end masked

theorem slice_congr {off len : ℕ} (h : ∀ i, off ≤ i → i < off + len → y[i]? = x[i]?) :
    slice y off len = slice x off len := by
  apply ext_getElem?
  intro i
  unfold slice
  rw [List.getElem?_take, List.getElem?_take, List.getElem?_drop, List.getElem?_drop]
  split
  · exact h (off + i) (by omega) (by omega)
  · rfl

theorem getD_congr {i : ℕ} (h : y[i]? = x[i]?) : y.getD i 0 = x.getD i 0 := by
  rw [getD_eq_getElem?_getD, getD_eq_getElem?_getD, h]

section
variable (h : SameHeader x y)
include h

theorem SameHeader.addrs : addrs y = addrs x :=
  slice_congr fun i hi hi' => h.rest i hi (by omega) (by omega) (by omega)

theorem SameHeader.addr2 : addr2 y = addr2 x :=
  slice_congr fun i hi hi' => h.rest i (by omega) (by omega) (by omega) (by omega)

theorem SameHeader.qosTid (sppAmsdu : Bool) :
    qosTid y sppAmsdu = qosTid x sppAmsdu := by
  have hqos : qosCtl y = qosCtl x := by
    unfold qosCtl
    rw [hasA4_masked h.fc]
    split
    · exact getD_congr (h.rest 30 (by omega) (by omega) (by omega) (by omega))
    · exact getD_congr (h.rest 24 (by omega) (by omega) (by omega) (by omega))
  unfold Mpdu.qosTid
  rw [isDataQos_masked h.fc, hqos]

theorem SameHeader.aad (sppAmsdu : Bool) (addrs : List UInt8) :
    ccmpGcmpAad y sppAmsdu addrs = ccmpGcmpAad x sppAmsdu addrs := by
  have ha4 : slice y 24 6 = slice x 24 6 :=
    slice_congr fun i hi hi' => h.rest i (by omega) (by omega) (by omega) (by omega)
  simp only [ccmpGcmpAad, maskFc_masked h.fc, hasA4_masked h.fc, lenA_masked h.fc, h.frag, ha4,
    h.qosTid]

theorem SameHeader.nonce (cipher : Cipher) (sppAmsdu : Bool) (addr2 : List UInt8) (pn : Pn) :
    cipher.nonce y sppAmsdu addr2 pn = cipher.nonce x sppAmsdu addr2 pn := by
  cases cipher with
  | ccmp micLen => simp only [Cipher.nonce, h.qosTid, isMgmt_masked h.fc]
  | gcmp => rfl

end

/-! ### Packet numbers -/

theorem hdr2pn_pn2hdr (pn64 keyId : ℕ) : hdr2pn (pn2hdr (Pn.ofU64 pn64) keyId) = Pn.ofU64 pn64 :=
  rfl

theorem value_ofU64 (pn64 : ℕ) : (Pn.ofU64 pn64).value = pn64 % 2 ^ 48 := by
  simp only [Defrag.Pn.value, Pn.ofU64, bigEndian, reverse_cons, reverse_nil,
    nil_append, cons_append, littleEndian, UInt8.toNat_ofNat', Nat.shiftRight_eq_div_pow]
  omega

theorem length_pn2hdr (pn : Pn) (keyId : ℕ) : (pn2hdr pn keyId).length = 8 := rfl

/-! ### The protected bit -/

theorem testBit_le16 (data : List UInt8) (off i : ℕ) :
    (le16 data off).testBit i =
      if i < 8 then (data.getD off 0).toNat.testBit i
      else (data.getD (off + 1) 0).toNat.testBit (i - 8) := by
  rw [le16, Nat.add_comm]
  exact Nat.testBit_two_pow_mul_add _ (data.getD off 0).toNat_lt i

theorem frameControl_setProtected (h : 2 ≤ x.length) :
    frameControl (setProtected x) = frameControl x ||| 0x4000 := by
  apply Nat.eq_of_testBit_eq
  intro i
  have h1 : (setProtected x).getD 1 0 = x.getD 1 0 ||| 0x40 := by
    rw [setProtected, getD_eq_getElem?_getD, List.getElem?_set_self (by omega)]
    rfl
  have h0 : (setProtected x).getD 0 0 = x.getD 0 0 := by
    rw [setProtected, getD_eq_getElem?_getD, List.getElem?_set_ne (by omega), getD_eq_getElem?_getD]
  have hbit : (0x4000 : ℕ).testBit i = if i < 8 then false else (0x40 : ℕ).testBit (i - 8) := by
    have hpow : (0x4000 : ℕ) = 2 ^ 14 := rfl
    have hpow' : (0x40 : ℕ) = 2 ^ 6 := rfl
    rw [hpow, hpow', Nat.testBit_two_pow, Nat.testBit_two_pow]
    split
    · simp; omega
    · simp; omega
  rw [Nat.testBit_or, frameControl, frameControl, testBit_le16, testBit_le16, h0, h1, hbit]
  split
  · simp
  · rw [UInt8.toNat_or, Nat.testBit_or]
    rfl

theorem hasProtected_setProtected (h : 2 ≤ x.length) :
    hasProtected (frameControl (setProtected x)) = true := by
  have hbit : (frameControl (setProtected x) &&& 0x4000).testBit 14 = true := by
    rw [frameControl_setProtected h, Nat.testBit_and, Nat.testBit_or]
    have h14 : (0x4000 : ℕ).testBit 14 = true := by decide
    rw [h14, Bool.or_true, Bool.and_true]
  have hne : frameControl (setProtected x) &&& 0x4000 ≠ 0 := by
    intro h0
    rw [h0, Nat.zero_testBit] at hbit
    cases hbit
  simpa [hasProtected] using hne

theorem and_setProtected {m : ℕ} (h : 2 ≤ x.length) (hm : 0x4000 &&& m = 0) :
    frameControl (setProtected x) &&& m = frameControl x &&& m := by
  rw [frameControl_setProtected h, Nat.and_or_distrib_right, hm, Nat.or_zero]

theorem length_setProtected (x : List UInt8) : (setProtected x).length = x.length :=
  length_set

/-- A frame of a kind that is protected, with a complete MAC header. -/
structure Protectable (skb : List UInt8) : Prop where
  kind : isData (frameControl skb) = true ∨ isRobustMgmtFrame skb = true
  header : hdrlen (frameControl skb) ≤ skb.length

theorem isMgmt_of_isStype {fc stype : ℕ} (h : isStype fc stype = true)
    (hst : stype &&& 0x000c = 0) : isMgmt fc = true := by
  have heq : fc &&& 0x00fc = stype := by simpa [isStype] using h
  have hftype : ftype fc = 0 := by
    rw [ftype, ← hst, ← heq, Nat.land_assoc]
    rfl
  rw [isMgmt, hftype]
  rfl

theorem robust_kind (h : isRobustMgmtFrame x = true) :
    minActionSize ≤ x.length ∧ (isDisassoc (frameControl x) || isDeauth (frameControl x) ||
      isAction (frameControl x)) = true := by
  simp only [isRobustMgmtFrame] at h
  grind

theorem isMgmt_of_robust (h : isRobustMgmtFrame x = true) : isMgmt (frameControl x) = true := by
  have hkind := (robust_kind h).2
  simp only [Bool.or_eq_true] at hkind
  rcases hkind with (hkind | hkind) | hkind
  all_goals exact isMgmt_of_isStype hkind rfl

theorem isExt_eq_false {fc : ℕ} (h : isData fc = true ∨ isMgmt fc = true) : isExt fc = false := by
  simp only [isData, isMgmt, isExt, beq_iff_eq, beq_eq_false_iff_ne] at h ⊢
  omega

theorem Protectable.le_hdrlen (h : Protectable x) : 24 ≤ hdrlen (frameControl x) := by
  have hkind : isData (frameControl x) = true ∨ isMgmt (frameControl x) = true :=
    h.kind.imp_right isMgmt_of_robust
  rw [hdrlen, isExt_eq_false hkind]
  rcases hkind with hdata | hmgmt
  · rw [hdata]
    simp only [Bool.false_eq_true, if_false, if_true]
    split <;> omega
  simp only [Bool.false_eq_true, if_false, hmgmt, if_true]
  split
  · split <;> omega
  · omega

theorem ftype_setProtected (h : 2 ≤ x.length) :
    ftype (frameControl (setProtected x)) = ftype (frameControl x) := and_setProtected h rfl

theorem hdrlen_setProtected (h : 2 ≤ x.length) :
    hdrlen (frameControl (setProtected x)) = hdrlen (frameControl x) := by
  unfold hdrlen isExt isData isMgmt isDataQos hasA4 hasOrder
  rw [ftype_setProtected h, and_setProtected h rfl, and_setProtected h rfl, and_setProtected h rfl,
    and_setProtected h rfl]

/-! ### The receiver -/

theorem frameControl_congr (h0 : y[0]? = x[0]?) (h1 : y[1]? = x[1]?) :
    frameControl y = frameControl x := by
  rw [frameControl, frameControl, le16, le16, getD_congr h0, getD_congr h1]

theorem InFlight.drop (h : InFlight x y) {n : ℕ} (hn : 24 ≤ n) : y.drop n = x.drop n := by
  apply ext_getElem?
  intro i
  rw [List.getElem?_drop, List.getElem?_drop]
  exact h.rest (n + i) (by omega) (by omega) (by omega)

theorem protected_kind (hkind : Protectable x) (hprot : hasProtected (frameControl y) = true)
    (hfc : ∀ m, 0xc7ff &&& m = m → 0x4000 &&& m = 0 → frameControl y &&& m = frameControl x &&& m)
    (hlen : x.length ≤ y.length) :
    isData (frameControl y) = true ∨ isRobustMgmtFrame y = true := by
  rcases hkind.kind with hdata | hrobust
  · left
    rwa [isData, ftype, hfc _ rfl rfl]
  right
  obtain ⟨hmin, hor⟩ := robust_kind hrobust
  have hst : ∀ stype, isStype (frameControl y) stype = isStype (frameControl x) stype := by
    intro stype
    rw [isStype, isStype, hfc _ rfl rfl]
  simp only [isDisassoc, isDeauth, isAction, ← hst] at hor
  simp only [isRobustMgmtFrame, isDisassoc, isDeauth, isAction, hprot]
  grind

/-- A receiver that decrypts in software knows the station, no flag of the status is set, and the
addresses it has kept are those on the air. -/
structure Software (rx : Rx) (skb : List UInt8) : Prop where
  decrypted : rx.decrypted = false
  pnValidated : rx.pnValidated = false
  allowSamePn : rx.allowSamePn = false
  hasSta : rx.hasSta = true
  linkAddrs : rx.linkAddrs = addrs skb

theorem slice_addrs (x : List UInt8) : slice (addrs x) 6 6 = addr2 x := by
  rw [slice, addrs, slice, addr2, drop_take, drop_drop, take_take]
  rfl

section receiver
variable {cipher : Cipher} {aead : Aead} {key : Key} {rx : Rx}

theorem decryptData_eq (hsw : Software rx x) (pn : Pn) :
    decryptData cipher aead key rx x pn =
      (aeadDecrypt aead (cipher.nonce x key.sppAmsdu (addr2 x) pn)
        (ccmpGcmpAad x key.sppAmsdu (addrs x))
        (slice x (hdrlen (frameControl x) + 8) (x.length - hdrlen (frameControl x) - 8 - cipher.micLen))
        (x.drop (x.length - cipher.micLen))).map fun data =>
          x.take (hdrlen (frameControl x) + 8) ++ data ++ x.drop (x.length - cipher.micLen) := by
  simp only [decryptData, hsw.linkAddrs, slice_addrs, ite_self]

theorem cryptoDecrypt_eq (hsw : Software rx x)
    (hkind : isData (frameControl x) = true ∨ isRobustMgmtFrame x = true)
    (hlen : hdrlen (frameControl x) + 8 + cipher.micLen ≤ x.length) {pn : Pn}
    (hpn : hdr2pn (slice x (hdrlen (frameControl x)) 8) = pn) :
    cryptoDecrypt cipher aead key rx x =
      if pn.value < (key.rxPn rx.securityIdx).value ∨ pn = key.rxPn rx.securityIdx then
        (.dropReplay, { key with replays := key.replays + 1 }, rx)
      else
        match decryptData cipher aead key rx x pn with
        | none => (.dropMicFail, key, rx)
        | some z =>
          (.rxContinue (strip z cipher.micLen),
            { key with rxPn := update key.rxPn rx.securityIdx pn },
            { rx with ccmGcmPn := if isFrag x then pn else rx.ccmGcmPn }) := by
  have hcond : ¬(!isData (frameControl x) && !isRobustMgmtFrame x &&
      !(rx.hasSta && rx.eppPeer && isAssoc (frameControl x))) = true := by
    rcases hkind with h | h <;> simp [h]
  have hshort : ¬x.length < hdrlen (frameControl x) + 8 + cipher.micLen := by omega
  rw [cryptoDecrypt, if_neg hcond]
  simp only [hsw.decrypted, hsw.hasSta, hsw.pnValidated, hsw.allowSamePn, hpn, hshort,
    Bool.false_eq_true, Bool.not_true, Bool.not_false, false_and, and_true, or_self, if_false]

end receiver

/-! ### Round trip -/

section roundtrip
variable {cipher : Cipher} {aead : Aead} {txKey : Key} {skb f : List UInt8}

def nextPn (key : Key) : Pn := Pn.ofU64 ((key.txPn + 1) % 2 ^ 64)

theorem value_nextPn (key : Key) : (nextPn key).value = (key.txPn + 1) % 2 ^ 48 := by
  rw [nextPn, value_ofU64]
  omega

def pushed (key : Key) (skb : List UInt8) : List UInt8 :=
  let len := hdrlen (frameControl skb)
  skb.take len ++ pn2hdr (nextPn key) key.keyidx ++ skb.drop len

def sealed (cipher : Cipher) (aead : Aead) (key : Key) (skb : List UInt8) :
    List UInt8 × List UInt8 :=
  aead.encrypt (cipher.nonce (pushed key skb) key.sppAmsdu (addr2 (pushed key skb)) (nextPn key))
    (ccmpGcmpAad (pushed key skb) key.sppAmsdu (addrs (pushed key skb)))
    (skb.drop (hdrlen (frameControl skb)))

theorem encryptSkb_fst (key : Key) (skb : List UInt8) :
    (encryptSkb cipher aead key skb).1 =
      skb.take (hdrlen (frameControl skb)) ++ (pn2hdr (nextPn key) key.keyidx ++
        ((sealed cipher aead key skb).1 ++ (sealed cipher aead key skb).2)) := by
  simp only [encryptSkb, sealed, pushed, nextPn, append_assoc]

/-- The frames that reach the encryption here: header complete, and with three addresses at
least. -/
structure Framed (skb : List UInt8) : Prop where
  le_hdrlen : 24 ≤ hdrlen (frameControl skb)
  header : hdrlen (frameControl skb) ≤ skb.length

theorem Protectable.framed (h : Protectable skb) : Framed (setProtected skb) := by
  have hlen := h.le_hdrlen
  have hheader := h.header
  have heq : hdrlen (frameControl (setProtected skb)) = hdrlen (frameControl skb) :=
    hdrlen_setProtected (by omega)
  exact ⟨by omega, by rw [length_setProtected]; omega⟩

theorem length_encryptSkb (haead : aead.Correct cipher.micLen) (hskb : Framed skb) :
    (encryptSkb cipher aead txKey skb).1.length = skb.length + 8 + cipher.micLen := by
  have hheader := hskb.header
  rw [encryptSkb_fst, length_append, length_append, length_append, length_pn2hdr,
    sealed, haead.length_data, haead.length_mic, length_take, length_drop]
  omega

theorem getElem?_encryptSkb (hskb : Framed skb) {i : ℕ} (hi : i < hdrlen (frameControl skb)) :
    (encryptSkb cipher aead txKey skb).1[i]? = skb[i]? := by
  have hheader := hskb.header
  rw [encryptSkb_fst, List.getElem?_append_left (by rw [length_take]; omega),
    List.getElem?_take_of_lt hi]

theorem getElem?_encryptSkb_pushed (hskb : Framed skb) {i : ℕ}
    (hi : i < hdrlen (frameControl skb) + 8) :
    (encryptSkb cipher aead txKey skb).1[i]? = (pushed txKey skb)[i]? := by
  have hheader := hskb.header
  have hlen : (skb.take (hdrlen (frameControl skb)) ++ pn2hdr (nextPn txKey) txKey.keyidx).length =
      hdrlen (frameControl skb) + 8 := by
    rw [length_append, length_take, length_pn2hdr]
    omega
  rw [encryptSkb_fst, ← append_assoc (skb.take _), List.getElem?_append_left (by omega)]
  exact (List.getElem?_append_left (by omega)).symm

theorem frameControl_encryptSkb (hskb : Framed skb) :
    frameControl (encryptSkb cipher aead txKey skb).1 = frameControl skb := by
  have hlen := hskb.le_hdrlen
  exact frameControl_congr (getElem?_encryptSkb hskb (by omega))
    (getElem?_encryptSkb hskb (by omega))

section inFlight
variable (hskb : Framed skb) (hf : InFlight (encryptSkb cipher aead txKey skb).1 f)
include hskb hf

theorem hdrlen_inFlight : hdrlen (frameControl f) = hdrlen (frameControl skb) := by
  rw [hdrlen_masked hf.fc, frameControl_encryptSkb hskb]

theorem drop_inFlight :
    f.drop (hdrlen (frameControl skb)) = pn2hdr (nextPn txKey) txKey.keyidx ++
      ((sealed cipher aead txKey skb).1 ++ (sealed cipher aead txKey skb).2) := by
  have hheader := hskb.header
  rw [hf.drop hskb.le_hdrlen, encryptSkb_fst]
  exact drop_left' (by rw [length_take]; omega)

theorem hdr2pn_inFlight :
    hdr2pn (slice f (hdrlen (frameControl skb)) 8) = nextPn txKey := by
  rw [slice, drop_inFlight hskb hf, take_left' (length_pn2hdr _ _)]
  exact hdr2pn_pn2hdr _ _

theorem drop_data_inFlight :
    f.drop (hdrlen (frameControl skb) + 8) =
      (sealed cipher aead txKey skb).1 ++ (sealed cipher aead txKey skb).2 := by
  rw [← drop_drop, drop_inFlight hskb hf, drop_left' (length_pn2hdr _ _)]

theorem sameHeader_inFlight : SameHeader (pushed txKey skb) f := by
  have hlen := hskb.le_hdrlen
  have hpushed : ∀ i < 32, (encryptSkb cipher aead txKey skb).1[i]? = (pushed txKey skb)[i]? :=
    fun i hi => getElem?_encryptSkb_pushed hskb (by omega)
  refine ⟨?_, ?_, ?_⟩
  · rw [hf.fc, frameControl_congr (hpushed 0 (by omega)) (hpushed 1 (by omega))]
  · rw [hf.frag, getD_congr (hpushed 22 (by omega))]
  · intro i hi hi' h22 h23
    rw [hf.rest i hi h22 h23, hpushed i hi']

theorem length_inFlight (haead : aead.Correct cipher.micLen) :
    f.length = skb.length + 8 + cipher.micLen := by
  rw [hf.length, length_encryptSkb haead hskb]

theorem decryptData_inFlight (haead : aead.Correct cipher.micLen) {n : ℕ}
    (hn : hdrlen (frameControl skb) = n) (hne : n < skb.length) {rxKey : Key} {rx : Rx}
    (hsw : Software rx f) (hspp : rxKey.sppAmsdu = txKey.sppAmsdu) :
    decryptData cipher aead rxKey rx f (nextPn txKey) =
      some (f.take (n + 8) ++ skb.drop n ++ (sealed cipher aead txKey skb).2) := by
  have hlen := length_inFlight hskb hf haead
  have hdrop := drop_data_inFlight hskb hf
  rw [hn] at hdrop
  have hdata : (sealed cipher aead txKey skb).1.length = skb.length - n := by
    rw [sealed, haead.length_data, length_drop, hn]
  have hmic : f.drop (f.length - cipher.micLen) = (sealed cipher aead txKey skb).2 := by
    have hsplit : f.length - cipher.micLen = n + 8 + (sealed cipher aead txKey skb).1.length := by
      omega
    rw [hsplit, ← drop_drop, hdrop, drop_left]
  have hslice : slice f (n + 8) (f.length - n - 8 - cipher.micLen) =
      (sealed cipher aead txKey skb).1 := by
    have hsub : f.length - n - 8 - cipher.micLen = (sealed cipher aead txKey skb).1.length := by
      omega
    rw [slice, hdrop, hsub, take_left]
  have hsame := sameHeader_inFlight hskb hf
  have hdec : aeadDecrypt aead
      (cipher.nonce (pushed txKey skb) txKey.sppAmsdu (addr2 (pushed txKey skb)) (nextPn txKey))
      (ccmpGcmpAad (pushed txKey skb) txKey.sppAmsdu (addrs (pushed txKey skb)))
      (sealed cipher aead txKey skb).1 (sealed cipher aead txKey skb).2 =
      some (skb.drop n) := by
    rw [aeadDecrypt, if_neg (by omega), ← hn]
    exact haead.decrypt_encrypt _ _ _
  rw [decryptData_eq hsw, hdrlen_inFlight hskb hf, hn, hslice, hmic, hspp, hsame.nonce, hsame.aad,
    hsame.addr2, hsame.addrs, hdec]
  rfl

theorem strip_inFlight (haead : aead.Correct cipher.micLen) {n : ℕ}
    (hn : hdrlen (frameControl skb) = n) : InFlight skb
      (strip (f.take (n + 8) ++ skb.drop n ++ (sealed cipher aead txKey skb).2) cipher.micLen) := by
  have hlen := length_inFlight hskb hf haead
  have hle := hskb.le_hdrlen
  have hheader := hskb.header
  rw [hn] at hle hheader
  have hmic : (sealed cipher aead txKey skb).2.length = cipher.micLen := haead.length_mic _ _ _
  have htake : (f.take (n + 8)).length = n + 8 := by
    rw [length_take]
    omega
  generalize hframe : f.take (n + 8) ++ skb.drop n ++ (sealed cipher aead txKey skb).2 = frame
  have hfc : frameControl frame = frameControl f := by
    apply frameControl_congr
    all_goals
      rw [← hframe, append_assoc, List.getElem?_append_left (by omega), List.getElem?_take_of_lt (by omega)]
  have hstrip : strip frame cipher.micLen = f.take n ++ skb.drop n := by
    rw [strip, hfc, hdrlen_inFlight hskb hf, hn, ← hframe, length_append, hmic, Nat.add_sub_cancel, take_left,
      drop_left' htake, take_append_of_le_length (by omega), take_take, Nat.min_eq_left (by omega)]
  -- before the end of the MAC header the bytes are those of the received frame
  have hget : ∀ i < n, (f.take n ++ skb.drop n)[i]? = f[i]? := by
    intro i hi
    rw [List.getElem?_append_left (by rw [length_take]; omega), List.getElem?_take_of_lt hi]
  rw [hstrip]
  refine ⟨?_, ?_, ?_, ?_⟩
  · rw [length_append, length_take, length_drop]
    omega
  · rw [frameControl_congr (hget 0 (by omega)) (hget 1 (by omega)), hf.fc,
      frameControl_encryptSkb hskb]
  · rw [getD_congr (hget 22 (by omega)), hf.frag, getD_congr (getElem?_encryptSkb hskb (by omega))]
  intro i hi h22 h23
  rcases Nat.lt_or_ge i n with hlt | hge
  · rw [hget i hlt, hf.rest i hi h22 h23, getElem?_encryptSkb hskb (hlt.trans_eq hn.symm)]
  have hlen' : (f.take n).length = n := by
    rw [length_take]
    omega
  rw [List.getElem?_append_right (by omega), hlen', List.getElem?_drop, Nat.add_sub_cancel' hge]

end inFlight

theorem kind_inFlight (hskb : Protectable skb) (haead : aead.Correct cipher.micLen)
    (hf : InFlight (cryptoEncrypt cipher aead txKey skb).1 f) :
    isData (frameControl f) = true ∨ isRobustMgmtFrame f = true := by
  have hle := hskb.le_hdrlen
  have hheader := hskb.header
  have hlen := length_inFlight hskb.framed hf haead
  have hmask : frameControl f &&& 0xc7ff = frameControl (setProtected skb) &&& 0xc7ff := by
    rw [hf.fc, cryptoEncrypt, frameControl_encryptSkb hskb.framed]
  apply protected_kind hskb
  · rw [hasProtected_masked hmask]
    exact hasProtected_setProtected (by omega)
  · intro m hm hm'
    rw [and_eq_of_masked hmask hm, and_setProtected (by omega) hm']
  · rw [hlen, length_setProtected]
    omega

end roundtrip

/-! ### Two frames -/

def plainAead : Aead where
  encrypt _ _ data := (data, List.replicate 8 0)
  decrypt _ _ data mic := if mic = List.replicate 8 0 then some data else none

theorem plainAead_correct : plainAead.Correct 8 where
  decrypt_encrypt _ _ _ := rfl
  length_data _ _ _ := rfl
  length_mic _ _ _ := rfl

theorem InFlight.refl (x : List UInt8) : InFlight x x :=
  ⟨rfl, rfl, rfl, fun _ _ _ _ => rfl⟩

def dataFrame (payload : List UInt8) : List UInt8 :=
  [0x08, 0x01, 0, 0] ++ List.replicate 6 0x02 ++ List.replicate 6 0x04 ++ List.replicate 6 0x06 ++
    [0x10, 0] ++ payload

def exampleKey : Key := ⟨0, false, 0, fun _ => Pn.ofU64 0, 0⟩

def exampleRx : Rx :=
  ⟨false, false, false, false, true, false, 0, addrs (dataFrame []), Pn.ofU64 0⟩

end Iwlwifi.Ieee80211.Mpdu
