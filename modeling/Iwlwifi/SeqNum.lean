import Iwlwifi.Ring

/-! # Sequence numbers and jiffies

Machine arithmetic used by the receive path.

* **Sequence numbers.**  The helpers of `include/linux/ieee80211.h`: sequence numbers (SN) live
  modulo 4096 (`IEEE80211_SN_MODULO`), the arguments are `u16` values, and `snLess` compares
  them in the half space of 2048.  The C expression `(sn1 - sn2) & IEEE80211_SN_MASK` is
  evaluated in `int`; since 65536 is a multiple of 4096 it is `(sn1 + 65536 - sn2) % 4096` on
  natural numbers.
* **Jiffies.**  `unsigned long` counters of 64 bits; `timeAfter` is the signed comparison of
  `linux/jiffies.h`. -/

namespace Iwlwifi

def u16 (n : ℕ) : ℕ := n % 65536

def u16Dec (n : ℕ) : ℕ := (n + 65535) % 65536

def ulong (n : ℕ) : ℕ := n % 2 ^ 64

/-- `time_after(a, b)`: `(long)(b - a) < 0`. -/
def timeAfter (a b : ℕ) : Bool := decide (2 ^ 63 ≤ (b % 2 ^ 64 + 2 ^ 64 - a % 2 ^ 64) % 2 ^ 64)

namespace Ieee80211

/-- `ieee80211_sn_less`. -/
def snLess (sn1 sn2 : ℕ) : Bool := decide (2048 < (sn1 + 65536 - sn2) % 4096)

/-- `ieee80211_sn_add`. -/
def snAdd (sn1 sn2 : ℕ) : ℕ := (sn1 + sn2) % 4096

/-- `ieee80211_sn_inc`. -/
def snInc (sn : ℕ) : ℕ := snAdd sn 1

/-- `ieee80211_sn_sub`. -/
def snSub (sn1 sn2 : ℕ) : ℕ := (sn1 + 65536 - sn2) % 4096

/-- `ieee80211_get_sn`: the SN field of a `seq_ctrl` word, `(seq_ctrl & 0xFFF0) >> 4`. -/
def getSn (seqCtrl : ℕ) : ℕ := seqCtrl % 65536 / 16

theorem getSn_lt (seqCtrl : ℕ) : getSn seqCtrl < 4096 := by
  unfold getSn
  omega

theorem snSub_lt (a b : ℕ) : snSub a b < 4096 := Nat.mod_lt _ (by omega)

theorem snInc_lt (a : ℕ) : snInc a < 4096 := Nat.mod_lt _ (by omega)

@[simp] theorem snSub_self (a : ℕ) : snSub a a = 0 := by
  unfold snSub
  omega

theorem snSub_eq_off {h : ℕ} (hh : h < 4096) (x : ℕ) : snSub x h = Ring.off 4096 h x := by
  unfold snSub Ring.off
  omega

/-- `snLess` looks at the distance from the second argument: more than half the space. -/
theorem snLess_eq_false {a b : ℕ} : snLess a b = false ↔ snSub a b ≤ 2048 := by
  simp [snLess, snSub]

theorem snLess_eq_true {a b : ℕ} : snLess a b = true ↔ 2048 < snSub a b := by
  simp [snLess, snSub]

end Ieee80211

end Iwlwifi
