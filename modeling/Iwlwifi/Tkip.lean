import Iwlwifi.Bytes
import Iwlwifi.Transition

/-! # TKIP key mixing

A model of the per-packet keys of TKIP (`net/mac80211/tkip.c`, `wpa.c`).

* **Mixing.**  Phase 1 mixes the temporal key, the transmitter address and the upper 32 bits of the
  IV, phase 2 its result (the P1K) with the lower 16 bits.  Both are sequences of steps that can be
  undone, so that they are injective (`phase1Key_injective`, `tkipMixingPhase2_injective`).
* **Caches.**  The P1K is kept per transmit key and per receive queue.  On the transmit side it is
  recomputed when the IV32 is not the one it was computed for; on the receive side, when the IV32 is
  not the one of the last frame with a valid MIC.
* **Machine** (`step`): frames are decrypted, their IV is recorded after MIC verification, frames
  are encrypted and drivers ask for keys, in any order.

RC4 and the ICV are parameters: whether the ICV is right, for an RC4 key and the encrypted data. -/

namespace Iwlwifi.Ieee80211.Tkip

open Bytes Function

/-! ### Mixing -/

/-- `tkip_sbox`. -/
def tkipSbox : List UInt16 :=
  [0xc6a5, 0xf884, 0xee99, 0xf68d, 0xff0d, 0xd6bd, 0xdeb1, 0x9154, 0x6050, 0x0203, 0xcea9,
    0x567d, 0xe719, 0xb562, 0x4de6, 0xec9a, 0x8f45, 0x1f9d, 0x8940, 0xfa87, 0xef15, 0xb2eb,
    0x8ec9, 0xfb0b, 0x41ec, 0xb367, 0x5ffd, 0x45ea, 0x23bf, 0x53f7, 0xe496, 0x9b5b, 0x75c2,
    0xe11c, 0x3dae, 0x4c6a, 0x6c5a, 0x7e41, 0xf502, 0x834f, 0x685c, 0x51f4, 0xd134, 0xf908,
    0xe293, 0xab73, 0x6253, 0x2a3f, 0x080c, 0x9552, 0x4665, 0x9d5e, 0x3028, 0x37a1, 0x0a0f,
    0x2fb5, 0x0e09, 0x2436, 0x1b9b, 0xdf3d, 0xcd26, 0x4e69, 0x7fcd, 0xea9f, 0x121b, 0x1d9e,
    0x5874, 0x342e, 0x362d, 0xdcb2, 0xb4ee, 0x5bfb, 0xa4f6, 0x764d, 0xb761, 0x7dce, 0x527b,
    0xdd3e, 0x5e71, 0x1397, 0xa6f5, 0xb968, 0x0000, 0xc12c, 0x4060, 0xe31f, 0x79c8, 0xb6ed,
    0xd4be, 0x8d46, 0x67d9, 0x724b, 0x94de, 0x98d4, 0xb0e8, 0x854a, 0xbb6b, 0xc52a, 0x4fe5,
    0xed16, 0x86c5, 0x9ad7, 0x6655, 0x1194, 0x8acf, 0xe910, 0x0406, 0xfe81, 0xa0f0, 0x7844,
    0x25ba, 0x4be3, 0xa2f3, 0x5dfe, 0x80c0, 0x058a, 0x3fad, 0x21bc, 0x7048, 0xf104, 0x63df,
    0x77c1, 0xaf75, 0x4263, 0x2030, 0xe51a, 0xfd0e, 0xbf6d, 0x814c, 0x1814, 0x2635, 0xc32f,
    0xbee1, 0x35a2, 0x88cc, 0x2e39, 0x9357, 0x55f2, 0xfc82, 0x7a47, 0xc8ac, 0xbae7, 0x322b,
    0xe695, 0xc0a0, 0x1998, 0x9ed1, 0xa37f, 0x4466, 0x547e, 0x3bab, 0x0b83, 0x8cca, 0xc729,
    0x6bd3, 0x283c, 0xa779, 0xbce2, 0x161d, 0xad76, 0xdb3b, 0x6456, 0x744e, 0x141e, 0x92db,
    0x0c0a, 0x486c, 0xb8e4, 0x9f5d, 0xbd6e, 0x43ef, 0xc4a6, 0x39a8, 0x31a4, 0xd337, 0xf28b,
    0xd532, 0x8b43, 0x6e59, 0xdab7, 0x018c, 0xb164, 0x9cd2, 0x49e0, 0xd8b4, 0xacfa, 0xf307,
    0xcf25, 0xcaaf, 0xf48e, 0x47e9, 0x1018, 0x6fd5, 0xf088, 0x4a6f, 0x5c72, 0x3824, 0x57f1,
    0x73c7, 0x9751, 0xcb23, 0xa17c, 0xe89c, 0x3e21, 0x96dd, 0x61dc, 0x0d86, 0x0f85, 0xe090,
    0x7c42, 0x71c4, 0xccaa, 0x90d8, 0x0605, 0xf701, 0x1c12, 0xc2a3, 0x6a5f, 0xaef9, 0x69d0,
    0x1791, 0x9958, 0x3a27, 0x27b9, 0xd938, 0xeb13, 0x2bb3, 0x2233, 0xd2bb, 0xa970, 0x0789,
    0x33a7, 0x2db6, 0x3c22, 0x1592, 0xc920, 0x8749, 0xaaff, 0x5078, 0xa57a, 0x038f, 0x59f8,
    0x0980, 0x1a17, 0x65da, 0xd731, 0x84c6, 0xd0b8, 0x82c3, 0x29b0, 0x5a77, 0x1e11, 0x7bcb,
    0xa8fc, 0x6dd6, 0x2c3a]

/-- `swab16`. -/
def swab16 (val : UInt16) : UInt16 := (val <<< 8) ||| (val >>> 8)

/-- `ror16(word, 1)`. -/
def ror16 (word : UInt16) : UInt16 := (word >>> 1) ||| (word <<< 15)

def tkipS (val : UInt16) : UInt16 :=
  tkipSbox.getD (val &&& 0xff).toNat 0 ^^^ swab16 (tkipSbox.getD (val >>> 8).toNat 0)

/-- `get_unaligned_le16`. -/
def getLe16 (data : List UInt8) (off : ℕ) : UInt16 := UInt16.ofNat (le16 data off)

/-- `get_unaligned_le32`. -/
def getLe32 (data : List UInt8) (off : ℕ) : UInt32 :=
  UInt32.ofNat (le16 data off + 2 ^ 16 * le16 data (off + 2))

/-- `put_unaligned_le16`. -/
def putLe16 (val : UInt16) : List UInt8 := [val.toUInt8, (val >>> 8).toUInt8]

/-- `write_tkip_iv`. -/
def writeTkipIv (iv16 : UInt16) : List UInt8 :=
  [(iv16 >>> 8).toUInt8, (((iv16 >>> 8) ||| 0x20) &&& 0x7f).toUInt8, (iv16 &&& 0xff).toUInt8]

@[ext] structure P1k where
  p0 : UInt16
  p1 : UInt16
  p2 : UInt16
  p3 : UInt16
  p4 : UInt16
  deriving DecidableEq

/-- One iteration of the loop of `tkip_mixing_phase1`. -/
def phase1Round (tk : List UInt8) (p1k : P1k) (i : ℕ) : P1k :=
  let j := 2 * (i % 2)
  let p0 := p1k.p0 + tkipS (p1k.p4 ^^^ getLe16 tk (0 + j))
  let p1 := p1k.p1 + tkipS (p0 ^^^ getLe16 tk (4 + j))
  let p2 := p1k.p2 + tkipS (p1 ^^^ getLe16 tk (8 + j))
  let p3 := p1k.p3 + tkipS (p2 ^^^ getLe16 tk (12 + j))
  let p4 := p1k.p4 + (tkipS (p3 ^^^ getLe16 tk (0 + j)) + UInt16.ofNat i)
  ⟨p0, p1, p2, p3, p4⟩

/-- What `tkip_mixing_phase1` leaves in `p1k`. -/
def phase1Key (tk ta : List UInt8) (iv32 : UInt32) : P1k :=
  (List.range 8).foldl (phase1Round tk)
    ⟨(iv32 &&& 0xffff).toUInt16, (iv32 >>> 16).toUInt16, getLe16 ta 0, getLe16 ta 2, getLe16 ta 4⟩

/-- `enum ieee80211_internal_tkip_state`. -/
inductive TkipState
  | notInit | phase1Done | phase1HwUploaded
  deriving DecidableEq

/-- `struct tkip_ctx`. -/
structure TkipCtx where
  p1k : P1k
  p1kIv32 : UInt32
  state : TkipState

/-- `tkip_mixing_phase1`. -/
def tkipMixingPhase1 (tk ta : List UInt8) (iv32 : UInt32) : TkipCtx :=
  { p1k := phase1Key tk ta iv32, p1kIv32 := iv32, state := .phase1Done }

@[ext] structure Ppk where
  k0 : UInt16
  k1 : UInt16
  k2 : UInt16
  k3 : UInt16
  k4 : UInt16
  k5 : UInt16

/-- Six steps of `tkip_mixing_phase2`: a function of the word before is added to each word. -/
def addMixed (f0 f1 f2 f3 f4 f5 : UInt16 → UInt16) (ppk : Ppk) : Ppk :=
  let k0 := ppk.k0 + f0 ppk.k5
  let k1 := ppk.k1 + f1 k0
  let k2 := ppk.k2 + f2 k1
  let k3 := ppk.k3 + f3 k2
  let k4 := ppk.k4 + f4 k3
  let k5 := ppk.k5 + f5 k4
  ⟨k0, k1, k2, k3, k4, k5⟩

/-- The steps of `tkip_mixing_phase2` with the S-box. -/
def phase2Sbox (tk : List UInt8) : Ppk → Ppk :=
  addMixed (fun x => tkipS (x ^^^ getLe16 tk 0)) (fun x => tkipS (x ^^^ getLe16 tk 2))
    (fun x => tkipS (x ^^^ getLe16 tk 4)) (fun x => tkipS (x ^^^ getLe16 tk 6))
    (fun x => tkipS (x ^^^ getLe16 tk 8)) (fun x => tkipS (x ^^^ getLe16 tk 10))

/-- The steps of `tkip_mixing_phase2` with rotations. -/
def phase2Rotate (tk : List UInt8) : Ppk → Ppk :=
  addMixed (fun x => ror16 (x ^^^ getLe16 tk 12)) (fun x => ror16 (x ^^^ getLe16 tk 14))
    ror16 ror16 ror16 ror16

/-- `tkip_mixing_phase2`. -/
def tkipMixingPhase2 (tk : List UInt8) (p1k : P1k) (iv16 : UInt16) : List UInt8 :=
  let ppk := phase2Rotate tk
    (phase2Sbox tk ⟨p1k.p0, p1k.p1, p1k.p2, p1k.p3, p1k.p4, p1k.p4 + iv16⟩)
  writeTkipIv iv16 ++ [((ppk.k5 ^^^ getLe16 tk 0) >>> 1).toUInt8] ++ putLe16 ppk.k0 ++
    putLe16 ppk.k1 ++ putLe16 ppk.k2 ++ putLe16 ppk.k3 ++ putLe16 ppk.k4 ++ putLe16 ppk.k5

def freshKey (tk ta : List UInt8) (iv32 : UInt32) (iv16 : UInt16) : List UInt8 :=
  tkipMixingPhase2 tk (tkipMixingPhase1 tk ta iv32).p1k iv16

/-! ### The mixing can be undone -/

theorem phase1Round_injective (tk : List UInt8) (i : ℕ) :
    Function.Injective fun p1k => phase1Round tk p1k i := by
  intro p q h
  simp only [phase1Round, P1k.mk.injEq] at h
  obtain ⟨h0, h1, h2, h3, h4⟩ := h
  -- from the last word on, each one is known from those that are equal already
  rw [h3, UInt16.add_left_inj] at h4
  rw [h2, UInt16.add_left_inj] at h3
  rw [h1, UInt16.add_left_inj] at h2
  rw [h0, UInt16.add_left_inj] at h1
  rw [h4, UInt16.add_left_inj] at h0
  exact P1k.ext h0 h1 h2 h3 h4

theorem foldl_phase1Round_injective (tk : List UInt8) (is : List ℕ) :
    Function.Injective fun p1k => is.foldl (phase1Round tk) p1k := by
  induction is with
  | nil => exact injective_id
  | cons i is ih => exact ih.comp (phase1Round_injective tk i)

theorem eq_of_halves {a b : UInt32} (hlow : (a &&& 0xffff).toUInt16 = (b &&& 0xffff).toUInt16)
    (hhigh : (a >>> 16).toUInt16 = (b >>> 16).toUInt16) : a = b := by
  have hlow' := congrArg UInt16.toNat hlow
  have hhigh' := congrArg UInt16.toNat hhigh
  have hmask : ∀ n : ℕ, n &&& 65535 = n % 2 ^ 16 := fun n => Nat.and_two_pow_sub_one_eq_mod n 16
  simp only [UInt32.toNat_toUInt16, UInt32.toNat_and, UInt32.toNat_shiftRight, UInt32.reduceToNat,
    hmask, Nat.shiftRight_eq_div_pow, Nat.reduceMod] at hlow' hhigh'
  have ha := a.toNat_lt
  have hb := b.toNat_lt
  apply UInt32.toNat_inj.mp
  omega

theorem phase1Key_injective (tk ta : List UInt8) : Function.Injective (phase1Key tk ta) := by
  intro a b h
  have hstart := foldl_phase1Round_injective tk (List.range 8) h
  rw [P1k.mk.injEq] at hstart
  exact eq_of_halves hstart.1 hstart.2.1

theorem putLe16_injective : Function.Injective putLe16 := by
  intro a b h
  simp only [putLe16, List.cons.injEq, and_true] at h
  have hlow := congrArg UInt8.toNat h.1
  have hhigh := congrArg UInt8.toNat h.2
  simp only [UInt16.toNat_toUInt8, UInt16.toNat_shiftRight, UInt16.reduceToNat,
    Nat.shiftRight_eq_div_pow, Nat.reduceMod] at hlow hhigh
  have ha := a.toNat_lt
  have hb := b.toNat_lt
  apply UInt16.toNat_inj.mp
  omega

theorem addMixed_injective (f0 f1 f2 f3 f4 f5 : UInt16 → UInt16) :
    Function.Injective (addMixed f0 f1 f2 f3 f4 f5) := by
  intro p q h
  simp only [addMixed, Ppk.mk.injEq] at h
  obtain ⟨h0, h1, h2, h3, h4, h5⟩ := h
  rw [h4, UInt16.add_left_inj] at h5
  rw [h3, UInt16.add_left_inj] at h4
  rw [h2, UInt16.add_left_inj] at h3
  rw [h1, UInt16.add_left_inj] at h2
  rw [h0, UInt16.add_left_inj] at h1
  rw [h5, UInt16.add_left_inj] at h0
  exact Ppk.ext h0 h1 h2 h3 h4 h5

theorem ppk_eq_of_append {a b : List UInt8} {p q : Ppk}
    (h : a ++ putLe16 p.k0 ++ putLe16 p.k1 ++ putLe16 p.k2 ++ putLe16 p.k3 ++ putLe16 p.k4 ++
        putLe16 p.k5 =
      b ++ putLe16 q.k0 ++ putLe16 q.k1 ++ putLe16 q.k2 ++ putLe16 q.k3 ++ putLe16 q.k4 ++
        putLe16 q.k5) : p = q := by
  obtain ⟨h, h5⟩ := List.append_inj' h rfl
  obtain ⟨h, h4⟩ := List.append_inj' h rfl
  obtain ⟨h, h3⟩ := List.append_inj' h rfl
  obtain ⟨h, h2⟩ := List.append_inj' h rfl
  obtain ⟨h, h1⟩ := List.append_inj' h rfl
  obtain ⟨-, h0⟩ := List.append_inj' h rfl
  exact Ppk.ext (putLe16_injective h0) (putLe16_injective h1) (putLe16_injective h2)
    (putLe16_injective h3) (putLe16_injective h4) (putLe16_injective h5)

theorem tkipMixingPhase2_injective (tk : List UInt8) (iv16 : UInt16) :
    Function.Injective fun p1k => tkipMixingPhase2 tk p1k iv16 := by
  intro p q h
  have hppk := addMixed_injective _ _ _ _ _ _ (addMixed_injective _ _ _ _ _ _ (ppk_eq_of_append h))
  rw [Ppk.mk.injEq] at hppk
  obtain ⟨h0, h1, h2, h3, h4, -⟩ := hppk
  exact P1k.ext h0 h1 h2 h3 h4

theorem getLe16_eq_iff {a b : List UInt8} {off : ℕ} : getLe16 a off = getLe16 b off ↔
    a.getD off 0 = b.getD off 0 ∧ a.getD (off + 1) 0 = b.getD (off + 1) 0 := by
  refine ⟨fun h => ?_, fun h => ?_⟩
  · have hn := congrArg UInt16.toNat h
    have ha := le16_lt a off
    have hb := le16_lt b off
    rw [getLe16, getLe16, UInt16.toNat_ofNat', UInt16.toNat_ofNat', Nat.mod_eq_of_lt ha,
      Nat.mod_eq_of_lt hb, le16, le16] at hn
    have h₁ := (a.getD off 0).toNat_lt
    have h₂ := (b.getD off 0).toNat_lt
    exact ⟨UInt8.toNat_inj.mp (by omega), UInt8.toNat_inj.mp (by omega)⟩
  · rw [getLe16, getLe16, le16, le16, h.1, h.2]

/-- **Per-packet keys are not used twice**: two RC4 keys of a temporal key are the same only for the
same transmitter address and the same IV. -/
theorem freshKey_eq_iff (tk ta ta' : List UInt8) (iv32 iv32' : UInt32) (iv16 iv16' : UInt16) :
    freshKey tk ta iv32 iv16 = freshKey tk ta' iv32' iv16' ↔
      (∀ i < 6, ta.getD i 0 = ta'.getD i 0) ∧ iv32 = iv32' ∧ iv16 = iv16' := by
  constructor
  · intro h
    -- the second byte of the IV in the key is computed from the first one
    have hiv : iv16 = iv16' := by
      have hlow : (iv16 &&& 0xff).toUInt8 = (iv16' &&& 0xff).toUInt8 :=
        congrArg (fun l : List UInt8 => l.getD 2 0) h
      have hhigh : (iv16 >>> 8).toUInt8 = (iv16' >>> 8).toUInt8 :=
        congrArg (fun l : List UInt8 => l.getD 0 0) h
      apply putLe16_injective
      rw [putLe16, putLe16, hhigh]
      simpa [show (255 : UInt8) = -1 from rfl] using hlow
    subst hiv
    have hstart := foldl_phase1Round_injective tk (List.range 8) (tkipMixingPhase2_injective tk iv16 h)
    simp only [P1k.mk.injEq, getLe16_eq_iff] at hstart
    obtain ⟨hl, hh, h0, h2, h4⟩ := hstart
    refine ⟨fun i hi => ?_, eq_of_halves hl hh, rfl⟩
    interval_cases i
    exacts [h0.1, h0.2, h2.1, h2.2, h4.1, h4.2]
  · rintro ⟨hta, rfl, rfl⟩
    have hword : ∀ off < 5, getLe16 ta off = getLe16 ta' off := fun off hoff =>
      getLe16_eq_iff.mpr ⟨hta off (by omega), hta (off + 1) (by omega)⟩
    rw [freshKey, freshKey, tkipMixingPhase1, tkipMixingPhase1, phase1Key, phase1Key,
      hword 0 (by omega), hword 2 (by omega), hword 4 (by omega)]

/-! ### Caches -/

/-- `struct tkip_ctx_rx`. -/
structure TkipCtxRx where
  ctx : TkipCtx
  iv32 : UInt32
  iv16 : UInt16

/-- The parts of `struct ieee80211_key` that do not change, and the address of the interface. -/
structure Conf where
  tk : List UInt8
  keyidx : ℕ
  vifAddr : List UInt8

def iv16Of (pos : List UInt8) : UInt16 :=
  UInt16.ofNat (2 ^ 8 * (pos.getD 0 0).toNat + (pos.getD 2 0).toNat)

def iv32Of (pos : List UInt8) : UInt32 := getLe32 pos 4

section key
variable (conf : Conf)

/-- `ieee80211_compute_tkip_p1k`. -/
def computeTkipP1k (tx : TkipCtx) (iv32 : UInt32) : TkipCtx :=
  if tx.p1kIv32 ≠ iv32 ∨ tx.state = .notInit then tkipMixingPhase1 conf.tk conf.vifAddr iv32 else tx

/-- `ieee80211_get_tkip_p2k`: the new context and the RC4 key for a frame. -/
def getTkipP2k (tx : TkipCtx) (data : List UInt8) : TkipCtx × List UInt8 :=
  let tx := computeTkipP1k conf tx (iv32Of data)
  (tx, tkipMixingPhase2 conf.tk tx.p1k (iv16Of data))

/-- The checks of `ieee80211_tkip_decrypt_data` before any key is used, and the error they end
with. -/
def tkipCheckIv (rx : TkipCtxRx) (payload : List UInt8) : Option ℤ :=
  let keyid := (payload.getD 3 0).toNat
  let iv32 := iv32Of payload
  let iv16 := iv16Of payload
  if payload.length < 12 then some (-1)
  else if !keyid.testBit 5 then some (-1)
  else if keyid >>> 6 ≠ conf.keyidx then some (-2)
  else if iv32 < rx.iv32 ∨ (iv32 = rx.iv32 ∧ (iv16 < rx.iv16 ∨ (iv16 = rx.iv16 ∧
      (rx.iv32 ≠ 0 ∨ rx.iv16 ≠ 0 ∨ rx.ctx.state ≠ .notInit)))) then some (-3)
  else none

/-- The context with which `ieee80211_tkip_decrypt_data` decrypts a frame; `hwUpload` says that the
driver takes the P1K for its hardware. -/
def rxCtxFor (rx : TkipCtxRx) (ta : List UInt8) (iv32 : UInt32) (hwUpload : Bool) : TkipCtx :=
  let ctx :=
    if rx.ctx.state = .notInit ∨ rx.iv32 ≠ iv32 then tkipMixingPhase1 conf.tk ta iv32 else rx.ctx
  if hwUpload ∧ ctx.state ≠ .phase1HwUploaded then { ctx with state := .phase1HwUploaded } else ctx

/-- What a call of `ieee80211_tkip_decrypt_data` returns, and the RC4 key it used. -/
structure Decrypted where
  res : ℤ
  rc4key : Option (List UInt8)
  rx : TkipCtxRx

/-- `ieee80211_tkip_decrypt_data`, with the IV in the payload as its output if the result is 0. -/
def tkipDecryptData (icvOk : List UInt8 → List UInt8 → Bool) (rx : TkipCtxRx)
    (payload ta : List UInt8) (onlyIv hwUpload : Bool) : Decrypted :=
  match tkipCheckIv conf rx payload with
  | some err => { res := err, rc4key := none, rx }
  | none =>
    if onlyIv then
      { res := 0, rc4key := none,
        rx := { rx with ctx := { rx.ctx with state := .phase1HwUploaded } } }
    else
      let ctx := rxCtxFor conf rx ta (iv32Of payload) hwUpload
      let rc4key := tkipMixingPhase2 conf.tk ctx.p1k (iv16Of payload)
      { res := if icvOk rc4key (payload.drop 8) then 0 else -1,
        rc4key := some rc4key, rx := { rx with ctx } }

/-! ### Runs -/

/-- The contexts of a key.  `accepted` are the IVs of the frames of a queue that were decrypted, the
MIC of which is not verified yet or was found wrong. -/
structure State where
  tx : TkipCtx
  rx : ℕ → TkipCtxRx
  accepted : ℕ → List (UInt32 × UInt16)

inductive Act
  /-- A frame is received. -/
  | decrypt (queue : ℕ) (payload ta : List UInt8) (onlyIv hwUpload : Bool)
  /-- `ieee80211_rx_h_michael_mic_verify` has found the MIC right and records the IV. -/
  | micVerified (queue : ℕ) (iv32 : UInt32) (iv16 : UInt16)
  /-- `ieee80211_tkip_encrypt_data`. -/
  | encrypt (data : List UInt8)
  /-- `ieee80211_get_tkip_p1k_iv`. -/
  | getTkipP1kIv (iv32 : UInt32)
  /-- `ieee80211_get_tkip_p2k` for a driver. -/
  | getTkipP2k (data : List UInt8)

/-- The keys that a step has used or handed out. -/
structure Out where
  res : ℤ := 0
  rc4key : Option (List UInt8) := none
  p1k : Option P1k := none

variable (icvOk : List UInt8 → List UInt8 → Bool)

def step (s : State) : Act → Option (Out × State)
  | .decrypt queue payload ta onlyIv hwUpload =>
    let d := tkipDecryptData conf icvOk (s.rx queue) payload ta onlyIv hwUpload
    let accepted :=
      if d.res = 0 then (iv32Of payload, iv16Of payload) :: s.accepted queue
      else s.accepted queue
    some ({ res := d.res, rc4key := d.rc4key },
      { s with rx := update s.rx queue d.rx,
               accepted := update s.accepted queue accepted })
  | .micVerified queue iv32 iv16 =>
    if (iv32, iv16) ∈ s.accepted queue then
      some ({}, { s with rx := update s.rx queue { s.rx queue with iv32, iv16 } })
    else none
  | .encrypt data | .getTkipP2k data =>
    let (tx, rc4key) := getTkipP2k conf s.tx data
    some ({ rc4key := some rc4key }, { s with tx })
  | .getTkipP1kIv iv32 =>
    let tx := computeTkipP1k conf s.tx iv32
    some ({ p1k := some tx.p1k }, { s with tx })

/-- A key that was just installed; the receive IVs may have been given with it. -/
def Fresh (s : State) : Prop :=
  s.tx.state = .notInit ∧ ∀ q, (s.rx q).ctx.state = .notInit

def KeyRight (l : Label State Act Out) : Prop :=
  match l.act with
  | .decrypt _ payload ta _ _ =>
    ∀ key ∈ l.out.rc4key, key = freshKey conf.tk ta (iv32Of payload) (iv16Of payload)
  | .micVerified _ _ _ => True
  | .encrypt data | .getTkipP2k data =>
    l.out.rc4key = some (freshKey conf.tk conf.vifAddr (iv32Of data) (iv16Of data))
  | .getTkipP1kIv iv32 => l.out.p1k = some (phase1Key conf.tk conf.vifAddr iv32)

def Act.transmits : Act → Bool
  | .decrypt .. | .micVerified .. => false
  | .encrypt _ | .getTkipP1kIv _ | .getTkipP2k _ => true

def OneTransmitter (ta : ℕ → List UInt8) (l : Label State Act Out) : Prop :=
  match l.act with
  | .decrypt queue _ ta' _ _ => ta' = ta queue
  | _ => True

/-- A frame that the hardware has decrypted finds the P1K of the queue computed. -/
def HwAfterPhase1 (l : Label State Act Out) : Prop :=
  match l.act with
  | .decrypt queue payload _ true _ =>
    tkipCheckIv conf (l.pre.rx queue) payload = none → (l.pre.rx queue).ctx.state ≠ .notInit
  | _ => True

/-- A frame that is decrypted in software, with the IV32 of the last valid frame, finds the P1K of
that IV32. -/
def CacheCurrent (l : Label State Act Out) : Prop :=
  match l.act with
  | .decrypt queue payload _ false _ =>
    tkipCheckIv conf (l.pre.rx queue) payload = none →
      (l.pre.rx queue).ctx.state ≠ .notInit → (l.pre.rx queue).iv32 = iv32Of payload →
        (l.pre.rx queue).ctx.p1kIv32 = iv32Of payload
  | _ => True

instance (l : Label State Act Out) : Decidable (KeyRight conf l) := by
  obtain ⟨pre, act, out, post⟩ := l
  cases act <;> dsimp only [KeyRight] <;> infer_instance

instance (ta : ℕ → List UInt8) (l : Label State Act Out) : Decidable (OneTransmitter ta l) := by
  obtain ⟨pre, act, out, post⟩ := l
  cases act <;> dsimp only [OneTransmitter] <;> infer_instance

instance (l : Label State Act Out) : Decidable (HwAfterPhase1 conf l) := by
  obtain ⟨pre, _ | _ | _ | _ | _, out, post⟩ := l <;> dsimp only [HwAfterPhase1] <;>
    first | infer_instance | split <;> infer_instance

instance (l : Label State Act Out) : Decidable (CacheCurrent conf l) := by
  obtain ⟨pre, _ | _ | _ | _ | _, out, post⟩ := l <;> dsimp only [CacheCurrent] <;>
    first | infer_instance | split <;> infer_instance

/-! ### Invariants of the caches -/

def CtxOk (ta : List UInt8) (ctx : TkipCtx) : Prop :=
  ctx.state ≠ .notInit → ctx.p1k = phase1Key conf.tk ta ctx.p1kIv32

variable {conf icvOk} {s s' : State} {ta : ℕ → List UInt8}

theorem ctxOk_tkipMixingPhase1 (ta : List UInt8) (iv32 : UInt32) :
    CtxOk conf ta (tkipMixingPhase1 conf.tk ta iv32) := fun _ => rfl

theorem computeTkipP1k_spec {tx : TkipCtx} (h : CtxOk conf conf.vifAddr tx) (iv32 : UInt32) :
    (computeTkipP1k conf tx iv32).p1k = phase1Key conf.tk conf.vifAddr iv32 ∧
      CtxOk conf conf.vifAddr (computeTkipP1k conf tx iv32) := by
  unfold computeTkipP1k
  split
  · exact ⟨rfl, ctxOk_tkipMixingPhase1 _ _⟩
  rename_i hcur
  obtain ⟨hiv, hinit⟩ := not_or.mp hcur
  rw [not_not] at hiv
  refine ⟨?_, h⟩
  rw [h hinit, hiv]

theorem step_transmit {a : Act} {out : Out} (hs : step conf icvOk s a = some (out, s'))
    (h : CtxOk conf conf.vifAddr s.tx) :
    CtxOk conf conf.vifAddr s'.tx ∧ (a.transmits = true → KeyRight conf ⟨s, a, out, s'⟩) := by
  cases a with
  | decrypt queue payload ta onlyIv hwUpload =>
    obtain ⟨-, rfl⟩ := hs
    exact ⟨h, fun ht => nomatch ht⟩
  | micVerified queue iv32 iv16 =>
    simp only [step] at hs
    split at hs <;> cases hs
    exact ⟨h, fun ht => nomatch ht⟩
  | encrypt data | getTkipP2k data =>
    cases hs
    obtain ⟨hp1k, hok⟩ := computeTkipP1k_spec h (iv32Of data)
    refine ⟨hok, fun _ => ?_⟩
    rw [hp1k]
    rfl
  | getTkipP1kIv iv32 =>
    cases hs
    obtain ⟨hp1k, hok⟩ := computeTkipP1k_spec h iv32
    exact ⟨hok, fun _ => congrArg some hp1k⟩

variable (conf) in
theorem p1k_rxCtxFor (rx : TkipCtxRx) (ta : List UInt8) (iv32 : UInt32) (hwUpload : Bool) :
    (rxCtxFor conf rx ta iv32 hwUpload).p1k = (rxCtxFor conf rx ta iv32 false).p1k ∧
      (rxCtxFor conf rx ta iv32 hwUpload).p1kIv32 = (rxCtxFor conf rx ta iv32 false).p1kIv32 := by
  simp only [rxCtxFor, Bool.false_eq_true, false_and, if_false]
  generalize (if rx.ctx.state = .notInit ∨ rx.iv32 ≠ iv32 then tkipMixingPhase1 conf.tk ta iv32
    else rx.ctx) = ctx
  split
  · exact ⟨rfl, rfl⟩
  · exact ⟨rfl, rfl⟩

theorem rxCtxFor_spec {rx : TkipCtxRx} {ta : List UInt8} (h : CtxOk conf ta rx.ctx)
    (iv32 : UInt32) (hwUpload : Bool) :
    CtxOk conf ta (rxCtxFor conf rx ta iv32 hwUpload) ∧
      ((rxCtxFor conf rx ta iv32 hwUpload).p1k = phase1Key conf.tk ta iv32 ↔
        (rx.ctx.state ≠ .notInit → rx.iv32 = iv32 → rx.ctx.p1kIv32 = iv32)) := by
  obtain ⟨hp1k, hiv⟩ := p1k_rxCtxFor conf rx ta iv32 hwUpload
  unfold CtxOk
  rw [hp1k, hiv]
  unfold rxCtxFor
  simp only [Bool.false_eq_true, false_and, if_false]
  split
  next hnew =>
    refine ⟨fun _ => rfl, iff_of_true rfl fun hinit heq => ?_⟩
    exact absurd hnew (not_or.mpr ⟨hinit, not_not.mpr heq⟩)
  rename_i hold
  obtain ⟨hinit, heq⟩ := not_or.mp hold
  rw [not_not] at heq
  refine ⟨fun _ => h hinit, ?_⟩
  rw [h hinit]
  constructor
  · intro hkey _ _
    exact phase1Key_injective conf.tk ta hkey
  · intro hcur
    rw [hcur hinit heq]

variable (conf ta) in
def CachesOk (s : State) : Prop :=
  CtxOk conf conf.vifAddr s.tx ∧ ∀ q, CtxOk conf (ta q) (s.rx q).ctx

theorem cachesOk_fresh (h : Fresh s) : CachesOk conf ta s :=
  ⟨fun hinit => absurd h.1 hinit, fun q hinit => absurd (h.2 q) hinit⟩

/-- **Receive side.**  With one transmitter for a queue, and hardware decryption after phase 1 only,
a frame keeps the contexts, and its RC4 key is right exactly if the cache is current. -/
theorem decrypt_spec (icvOk : List UInt8 → List UInt8 → Bool) {rx : TkipCtxRx}
    {payload ta : List UInt8} {onlyIv : Bool} (hwUpload : Bool) (h : CtxOk conf ta rx.ctx)
    (hhw : onlyIv = true → tkipCheckIv conf rx payload = none → rx.ctx.state ≠ .notInit) :
    CtxOk conf ta (tkipDecryptData conf icvOk rx payload ta onlyIv hwUpload).rx.ctx ∧
      ((∀ key, (tkipDecryptData conf icvOk rx payload ta onlyIv hwUpload).rc4key = some key →
          key = freshKey conf.tk ta (iv32Of payload) (iv16Of payload)) ↔
        (onlyIv = false → tkipCheckIv conf rx payload = none → rx.ctx.state ≠ .notInit →
          rx.iv32 = iv32Of payload → rx.ctx.p1kIv32 = iv32Of payload)) := by
  unfold tkipDecryptData
  cases hcheck : tkipCheckIv conf rx payload with
  | some err => exact ⟨h, by simp⟩
  | none =>
    cases onlyIv with
    | true => exact ⟨fun _ => h (hhw rfl hcheck), by simp⟩
    | false =>
      obtain ⟨hctx, hiff⟩ := rxCtxFor_spec h (iv32Of payload) hwUpload
      refine ⟨hctx, ?_⟩
      simp only [Bool.false_eq_true, if_false, Option.some.injEq, forall_eq', forall_true_left]
      rw [← hiff]
      exact (tkipMixingPhase2_injective conf.tk (iv16Of payload)).eq_iff

theorem CachesOk.setRx (h : CachesOk conf ta s) {q : ℕ} (rx : TkipCtxRx)
    (hrx : CtxOk conf (ta q) rx.ctx) (accepted : ℕ → List (UInt32 × UInt16)) :
    CachesOk conf ta { s with rx := update s.rx q rx, accepted } := by
  refine ⟨h.1, fun q' => ?_⟩
  by_cases hq : q' = q
  · subst hq
    simpa using hrx
  · simpa [hq] using h.2 q'

theorem step_caches {a : Act} {out : Out} (hs : step conf icvOk s a = some (out, s'))
    (hta : OneTransmitter ta ⟨s, a, out, s'⟩) (hhw : HwAfterPhase1 conf ⟨s, a, out, s'⟩)
    (h : CachesOk conf ta s) :
    CachesOk conf ta s' ∧
      (KeyRight conf ⟨s, a, out, s'⟩ ↔ CacheCurrent conf ⟨s, a, out, s'⟩) := by
  have htx := step_transmit hs h.1
  cases a with
  | decrypt queue payload ta' onlyIv hwUpload =>
    obtain rfl : ta' = ta queue := hta
    have hhw' : onlyIv = true → tkipCheckIv conf (s.rx queue) payload = none →
        (s.rx queue).ctx.state ≠ .notInit := by
      intro honly
      subst honly
      exact hhw
    obtain ⟨hctx, hiff⟩ := decrypt_spec icvOk hwUpload (h.2 queue) hhw'
    cases hs
    refine ⟨h.setRx _ hctx _, hiff.trans ?_⟩
    cases onlyIv with
    | true => exact iff_of_true (fun hf => nomatch hf) trivial
    | false => exact ⟨fun hc => hc rfl, fun hc _ => hc⟩
  | micVerified queue iv32 iv16 =>
    simp only [step] at hs
    split at hs <;> cases hs
    exact ⟨h.setRx ⟨(s.rx queue).ctx, iv32, iv16⟩ (h.2 queue) s.accepted, Iff.rfl⟩
  | encrypt data | getTkipP2k data | getTkipP1kIv iv32 =>
    refine ⟨⟨htx.1, ?_⟩, iff_of_true (htx.2 rfl) trivial⟩
    obtain ⟨-, rfl⟩ := hs
    exact h.2

/-- **Per-packet keys.**  The transmit side always uses the key of the frame's own IV.  So does the
receive side, with one transmitter per queue and hardware decryption after phase 1, exactly if the
cached P1K is current whenever it is used. -/
theorem tkip_keys_right_iff {ls : List (Label State Act Out)} (hfresh : Fresh s)
    (hrun : Run (step conf icvOk) s ls s') :
    (∀ l ∈ ls, l.act.transmits = true → KeyRight conf l) ∧
      ∀ ta, (∀ l ∈ ls, OneTransmitter ta l) → (∀ l ∈ ls, HwAfterPhase1 conf l) →
        ((∀ l ∈ ls, KeyRight conf l) ↔ ∀ l ∈ ls, CacheCurrent conf l) := by
  constructor
  · intro l hl
    have hinv := Run.induct (I := fun s => CtxOk conf conf.vifAddr s.tx) (C := fun _ => True)
      (fun s a b s' hs _ h => (step_transmit hs h).1) hrun (fun _ _ => trivial)
      fun hinit => absurd hfresh.1 hinit
    obtain ⟨hs, hpre, -⟩ := hinv.2 l hl
    exact (step_transmit hs hpre).2
  · intro ta hta hhw
    have hinv := Run.induct (I := CachesOk conf ta)
      (C := fun l => OneTransmitter ta l ∧ HwAfterPhase1 conf l)
      (fun s a b s' hs hC h => (step_caches hs hC.1 hC.2 h).1) hrun
      (fun l hl => ⟨hta l hl, hhw l hl⟩) (cachesOk_fresh hfresh)
    have hiff : ∀ l ∈ ls, (KeyRight conf l ↔ CacheCurrent conf l) := by
      intro l hl
      obtain ⟨hs, hpre, -⟩ := hinv.2 l hl
      exact (step_caches hs (hta l hl) (hhw l hl) hpre).2
    exact forall₂_congr hiff

end key

def zeroConf : Conf := { tk := List.replicate 16 0, keyidx := 0, vifAddr := [2, 0, 0, 0, 0, 1] }

def peer : List UInt8 := [2, 0, 0, 0, 0, 2]

def installed : State :=
  let ctx := { p1k := ⟨0, 0, 0, 0, 0⟩, p1kIv32 := 0, state := .notInit }
  { tx := ctx, rx := fun _ => { ctx, iv32 := 0, iv16 := 0 }, accepted := fun _ => [] }

def frame (iv32 iv16 data : UInt8) : List UInt8 :=
  [0, 0x20, iv16, 0x20, iv32, 0, 0, 0, data, 0, 0, 0]

/-- The ICV of a frame with the data 1 is right for the key of IV32 0; that of others is not. -/
def genuineIcv (rc4key data : List UInt8) : Bool :=
  data.head? == some 1 &&
    (rc4key == freshKey zeroConf.tk peer 0 1 || rc4key == freshKey zeroConf.tk peer 0 2)

/-- Two frames are received, with a frame sent and a key asked for in between. -/
def genuineActs : List Act :=
  [.decrypt 0 (frame 0 1 1) peer false false, .micVerified 0 0 1, .encrypt (frame 7 1 0),
    .getTkipP1kIv 3, .decrypt 0 (frame 0 2 1) peer false true]

theorem tkip_keys_right_iff_genuine :
    ∃ r, execute (step zeroConf genuineIcv) installed genuineActs = some r ∧
      r.1.map (fun l => l.out.res) = [0, 0, 0, 0, 0] ∧ ∀ l ∈ r.1, KeyRight zeroConf l := by
  obtain ⟨r, hr, hres, hta, hhw, hcur⟩ : ∃ r,
      execute (step zeroConf genuineIcv) installed genuineActs = some r ∧
      r.1.map (fun l => l.out.res) = [0, 0, 0, 0, 0] ∧
      (∀ l ∈ r.1, OneTransmitter (fun _ => peer) l) ∧ (∀ l ∈ r.1, HwAfterPhase1 zeroConf l) ∧
      ∀ l ∈ r.1, CacheCurrent zeroConf l := by decide +kernel
  have hrun := (execute_run hr).1
  exact ⟨r, hr, hres,
    ((tkip_keys_right_iff ⟨rfl, fun _ => rfl⟩ hrun).2 (fun _ => peer) hta hhw).mpr hcur⟩

/-- A corrupted frame with IV32 1 is rejected, but the P1K is then the one for IV32 1: the next
genuine frame with IV32 0 is decrypted with a wrong key. -/
theorem corrupted_frame_spoils_cache :
    (∃ r, execute (step zeroConf genuineIcv) installed
        [.decrypt 0 (frame 0 1 1) peer false false, .micVerified 0 0 1,
          .decrypt 0 (frame 1 0 0) peer false false, .decrypt 0 (frame 0 2 1) peer false false] =
          some r ∧
      r.1.map (fun l => l.out.res) = [0, 0, -1, -1] ∧ ∃ l ∈ r.1, ¬ KeyRight zeroConf l) ∧
    ∃ r, execute (step zeroConf genuineIcv) installed
        [.decrypt 0 (frame 0 1 1) peer false false, .micVerified 0 0 1,
          .decrypt 0 (frame 0 2 1) peer false false] = some r ∧
      r.1.map (fun l => l.out.res) = [0, 0, 0] := by
  constructor
  · decide +kernel
  · decide +kernel

end Iwlwifi.Ieee80211.Tkip
