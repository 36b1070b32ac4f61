import Iwlwifi.MpduProtection
import Iwlwifi.Transition

/-! # Runs of CCMP and GCMP

* **Nonces** (`nonces_nodup`).  Whatever frames a key protects, it uses no nonce twice before the
  packet number comes around after 2^48 frames.
* **Replay protection** (`accepted_pns_increase`).  Whatever frames arrive, forged ones included,
  the packet numbers accepted with a replay counter increase. -/

namespace Iwlwifi.Ieee80211.Mpdu

open Bytes Function List
open Ieee80211.Defrag (Pn)

variable (cipher : Cipher) (aead : Aead) {key key' : Key}

/-! ### The sender -/

def encryptStep (key : Key) (skb : List UInt8) : Option (List UInt8 × Key) :=
  some (cryptoEncrypt cipher aead key skb)

/-- The nonce with which a frame is encrypted. -/
def nonceOf (l : Label Key (List UInt8) (List UInt8)) : List UInt8 :=
  cipher.nonce (pushed l.pre (setProtected l.act)) l.pre.sppAmsdu
    (addr2 (pushed l.pre (setProtected l.act))) (nextPn l.pre)

/-- The packet number is at the end of a nonce. -/
theorem nonce_pn (skb addr2 : List UInt8) (sppAmsdu : Bool) (pn : Pn) :
    bigEndian ((cipher.nonce skb sppAmsdu addr2 pn).reverse.take 6).reverse = pn.value := by
  have h : ∀ l : List UInt8, ((l ++ pn.bytes).reverse.take 6).reverse = pn.bytes := by
    intro l
    rw [reverse_append, take_left' (by rw [length_reverse, pn.length]), reverse_reverse]
  cases cipher <;> exact congrArg bigEndian (h _)

variable {cipher aead}

theorem run_pns {ls : List (Label Key (List UInt8) (List UInt8))}
    (hrun : Run (encryptStep cipher aead) key ls key') {n : ℕ} (hn : n % 2 ^ 48 = key.txPn % 2 ^ 48) :
    ls.map (fun l => (nextPn l.pre).value) = (List.range' (n + 1) ls.length).map (· % 2 ^ 48) := by
  induction hrun generalizing n with
  | nil => rfl
  | @cons key key₁ key' skb f ls hstep _ ih =>
    have hkey : (key.txPn + 1) % 2 ^ 64 = key₁.txPn :=
      congrArg (fun r => r.2.txPn) (Option.some.inj hstep)
    have hpn : (nextPn key).value = (n + 1) % 2 ^ 48 := by
      rw [value_nextPn]
      omega
    rw [map_cons, length_cons, range'_succ, map_cons, ih (n := n + 1) (by omega), ← hpn]

/-- **Nonces.**  The packet numbers are consecutive, so they differ for 2^48 frames. -/
theorem nonces_nodup {ls : List (Label Key (List UInt8) (List UInt8))}
    (hrun : Run (encryptStep cipher aead) key ls key') (hlen : ls.length ≤ 2 ^ 48) :
    (ls.map (nonceOf cipher)).Nodup := by
  apply Nodup.of_map fun nonce => bigEndian (nonce.reverse.take 6).reverse
  have hpns : (ls.map (nonceOf cipher)).map (fun nonce => bigEndian (nonce.reverse.take 6).reverse) =
      ls.map fun l => (nextPn l.pre).value := by
    rw [map_map]
    exact map_congr_left fun l _ => nonce_pn cipher _ _ _ _
  rw [hpns, run_pns hrun rfl]
  refine Nodup.map_on (fun i hi j hj h => ?_) nodup_range'
  rw [mem_range'_1] at hi hj
  omega

theorem nonces_nodup_two :
    ∃ ls key', execute (encryptStep (.ccmp 8) plainAead) exampleKey
        [dataFrame [0xaa], dataFrame [0xbb]] = some (ls, key') ∧
      (ls.map (nonceOf (.ccmp 8))).Nodup :=
  exists_execute rfl fun hrun => nonces_nodup hrun (by decide)

/-! ### The receiver -/

variable (cipher aead)

def decryptStep (key : Key) (a : Rx × List UInt8) : Option (RxResult × Key) :=
  let r := cryptoDecrypt cipher aead key a.1 a.2
  some (r.1, r.2.1)

/-- A frame of a protected kind, whose packet number is to be compared. -/
structure Checked (a : Rx × List UInt8) : Prop where
  kind : isData (frameControl a.2) = true ∨ isRobustMgmtFrame a.2 = true
  pnValidated : a.1.pnValidated = false
  allowSamePn : a.1.allowSamePn = false

def acceptedPn (idx : ℕ) (l : Label Key (Rx × List UInt8) RxResult) : List ℕ :=
  match l.out with
  | .rxContinue _ =>
    if l.act.1.securityIdx = idx then
      [(hdr2pn (slice l.act.2 (hdrlen (frameControl l.act.2)) 8)).value]
    else []
  | _ => []

variable {cipher aead}

theorem value_inj {p q : Pn} (h : p.value = q.value) : p = q := by
  obtain ⟨p, hp⟩ := p
  obtain ⟨q, hq⟩ := q
  obtain rfl := reverse_injective (littleEndian_inj (by simp [hp, hq]) h)
  rfl

theorem decryptStep_counter {a : Rx × List UInt8} {r : RxResult} (ha : Checked a) (idx : ℕ)
    (hstep : decryptStep cipher aead key a = some (r, key')) :
    acceptedPn idx ⟨key, a, r, key'⟩ = [] ∧ key'.rxPn idx = key.rxPn idx ∨
      acceptedPn idx ⟨key, a, r, key'⟩ = [(key'.rxPn idx).value] ∧
        (key.rxPn idx).value < (key'.rxPn idx).value := by
  obtain ⟨rx, f⟩ := a
  obtain ⟨hkind, hval, hsame⟩ := ha
  cases hstep
  unfold cryptoDecrypt
  dsimp only at hkind hval hsame ⊢
  rw [if_neg (by rcases hkind with h | h <;> simp [h]), hval, hsame]
  split
  · exact .inl ⟨rfl, rfl⟩
  generalize (if rx.decrypted ∧ rx.micStripped then 0 else cipher.micLen) = micLen
  split
  · exact .inl ⟨rfl, rfl⟩
  rw [if_neg (by decide)]
  split
  · exact .inl ⟨rfl, rfl⟩
  next hnew =>
    rw [not_or, Bool.not_false, and_iff_left rfl] at hnew
    cases if rx.decrypted then some f
      else decryptData cipher aead key rx f (hdr2pn (slice f (hdrlen (frameControl f)) 8)) with
    | none => exact .inl ⟨rfl, rfl⟩
    | some skb =>
      simp only [acceptedPn]
      split
      next hidx =>
        subst hidx
        rw [update_self]
        exact .inr ⟨rfl, lt_of_le_of_ne (not_lt.mp hnew.1) fun h => hnew.2 (value_inj h.symm)⟩
      next hidx => exact .inl ⟨rfl, update_of_ne (Ne.symm hidx) ..⟩

/-- **Replay protection.**  What a counter accepts is above all that it accepted before. -/
theorem accepted_pns_increase {ls : List (Label Key (Rx × List UInt8) RxResult)}
    (hrun : Run (decryptStep cipher aead) key ls key') (hchecked : ∀ l ∈ ls, Checked l.act)
    (idx : ℕ) : (ls.flatMap (acceptedPn idx)).Pairwise (· < ·) ∧
      ∀ pn ∈ ls.flatMap (acceptedPn idx), (key.rxPn idx).value < pn := by
  induction hrun with
  | nil => simp
  | @cons key key₁ key' a r ls hstep _ ih =>
    obtain ⟨hsorted, hgt⟩ := ih fun l hl => hchecked l (.tail _ hl)
    rw [flatMap_cons]
    obtain ⟨hnone, hsame⟩ | ⟨hone, hlt⟩ := decryptStep_counter (hchecked _ (.head _)) idx hstep
    · rw [hnone, ← hsame]
      exact ⟨hsorted, hgt⟩
    · rw [hone]
      exact ⟨pairwise_cons.mpr ⟨hgt, hsorted⟩,
        forall_mem_cons.mpr ⟨hlt, fun pn hpn => hlt.trans (hgt pn hpn)⟩⟩

theorem accepted_pns_increase_again :
    ∃ ls key', execute (decryptStep (.ccmp 8) plainAead) exampleKey
        (replicate 2
          (exampleRx, (cryptoEncrypt (.ccmp 8) plainAead exampleKey (dataFrame [0xaa])).1)) =
          some (ls, key') ∧
      (ls.flatMap (acceptedPn 0)).Pairwise (· < ·) :=
  exists_execute rfl fun hrun => (accepted_pns_increase hrun
    (by simpa using ⟨.inl (by decide), rfl, rfl⟩) 0).1

end Iwlwifi.Ieee80211.Mpdu
