import Mathlib.Tactic
import Mathlib.Data.Nat.Bitwise

/-! # Bytes and byte counters

Reading words from a byte string, and big-endian counters kept as arrays of bytes.

* `le16 data off` is the little-endian 16-bit word at an offset; bytes beyond the end read as 0.
  `be16` is the big-endian one; `putLe16`, `putLe32` and `putBe16` write words.
* `field l off n` is the part of a string at an offset, `setField` overwrites one; other fields stay
  (`field_setField_of_disjoint`).
* `bigEndian l` is the number a list of bytes stands for, most significant byte first, and
  `increment l` is the loop that adds one from the last byte on and stops at the first byte that
  does not become zero.  `bigEndian_increment`: it adds one modulo `256 ^ l.length`.
* `and_eq_of_xor_and`: two words agree under a mask when the mask of their difference is zero. -/

namespace Iwlwifi.Bytes

open List

def le16 (data : List UInt8) (off : ℕ) : ℕ :=
  (data.getD off 0).toNat + 256 * (data.getD (off + 1) 0).toNat

theorem le16_lt (data : List UInt8) (off : ℕ) : le16 data off < 65536 := by
  have h₀ := (data.getD off 0).toNat_lt
  have h₁ := (data.getD (off + 1) 0).toNat_lt
  unfold le16
  omega

def putLe16 (n : ℕ) : List UInt8 := [UInt8.ofNat n, UInt8.ofNat (n / 256)]

theorem le16_putLe16_append (n : ℕ) (rest : List UInt8) :
    le16 (putLe16 n ++ rest) 0 = n % 65536 := by
  simp only [putLe16, le16, cons_append, nil_append, getD_cons_zero,
    getD_cons_succ, UInt8.toNat_ofNat']
  omega

def putLe32 (n : ℕ) : List UInt8 := putLe16 n ++ putLe16 (n / 65536)

def be16 (data : List UInt8) (off : ℕ) : ℕ :=
  256 * (data.getD off 0).toNat + (data.getD (off + 1) 0).toNat

def putBe16 (n : ℕ) : List UInt8 := [UInt8.ofNat (n / 256), UInt8.ofNat n]

theorem be16_putBe16 (n : ℕ) : be16 (putBe16 n) 0 = n % 65536 := by
  simp only [putBe16, be16, getD_cons_zero, getD_cons_succ, UInt8.toNat_ofNat']
  omega

theorem and_eq_of_xor_and {a b m : ℕ} (h : (a ^^^ b) &&& m = 0) : a &&& m = b &&& m := by
  rw [Nat.and_xor_distrib_right] at h
  exact Nat.xor_eq_zero_iff.mp h

/-! ### Fields -/

section fields
variable {α : Type} {l bytes : List α} {off off' n : ℕ}

/-- The `n` elements at an offset. -/
def field (l : List α) (off n : ℕ) : List α := (l.drop off).take n

def setField (l : List α) (off : ℕ) (bytes : List α) : List α :=
  l.take off ++ bytes ++ l.drop (off + bytes.length)

theorem length_setField (h : off + bytes.length ≤ l.length) :
    (setField l off bytes).length = l.length := by
  simp only [setField, length_append, length_take, length_drop]
  omega

theorem setField_append {l' : List α} (h : off + bytes.length ≤ l.length) :
    setField (l ++ l') off bytes = setField l off bytes ++ l' := by
  rw [setField, setField, take_append_of_le_length (by omega), drop_append_of_le_length h]
  simp only [append_assoc]

theorem field_setField (h : off ≤ l.length) :
    field (setField l off bytes) off bytes.length = bytes := by
  have hlen : (l.take off).length = off := length_take_of_le h
  rw [field, setField, append_assoc, drop_left' hlen, take_left]

theorem getElem?_setField {i : ℕ} (h : i < off ∨ off + bytes.length ≤ i) (hoff : off ≤ l.length) :
    (setField l off bytes)[i]? = l[i]? := by
  have hlen : (l.take off).length = off := length_take_of_le hoff
  rcases h with h | h
  · rw [setField, append_assoc, List.getElem?_append_left (by omega), List.getElem?_take, if_pos h]
  · have hlen' : (l.take off ++ bytes).length = off + bytes.length := by rw [length_append, hlen]
    rw [setField, List.getElem?_append_right (by omega), hlen', List.getElem?_drop,
      Nat.add_sub_cancel' h]

theorem field_setField_of_disjoint (h : off' + n ≤ off ∨ off + bytes.length ≤ off')
    (hoff : off ≤ l.length) : field (setField l off bytes) off' n = field l off' n := by
  apply ext_getElem?
  intro i
  simp only [field, List.getElem?_take, List.getElem?_drop]
  split
  · rw [getElem?_setField (by omega) hoff]
  · rfl

theorem le16_setField {l bytes : List UInt8} {i : ℕ} (h : i + 2 ≤ off ∨ off + bytes.length ≤ i)
    (hoff : off ≤ l.length) : le16 (setField l off bytes) i = le16 l i := by
  simp only [le16, getD_eq_getElem?_getD]
  rw [getElem?_setField (by omega) hoff, getElem?_setField (by omega) hoff]

theorem le16_setField_putLe16 {l : List UInt8} (hoff : off ≤ l.length) (n : ℕ) :
    le16 (setField l off (putLe16 n)) off = n % 65536 := by
  have hlen : (l.take off).length = off := length_take_of_le hoff
  have hword : ∀ k, (setField l off (putLe16 n))[off + k]? =
      (putLe16 n ++ l.drop (off + 2))[k]? := by
    intro k
    rw [setField, append_assoc, List.getElem?_append_right (by omega), hlen,
      Nat.add_sub_cancel_left]
    rfl
  rw [← le16_putLe16_append n (l.drop (off + 2))]
  simp only [le16, getD_eq_getElem?_getD]
  rw [← hword 0, ← hword 1]
  rfl

theorem le16_append {l : List UInt8} (h : off + 2 ≤ l.length) (rest : List UInt8) :
    le16 (l ++ rest) off = le16 l off := by
  simp only [le16, getD_eq_getElem?_getD]
  rw [List.getElem?_append_left (by omega), List.getElem?_append_left (by omega)]

end fields

/-! ### Counters -/

def littleEndian : List UInt8 → ℕ
  | [] => 0
  | b :: l => b.toNat + 256 * littleEndian l

/-- Add one to the first byte, and carry on while a byte becomes zero. -/
def incrementLe : List UInt8 → List UInt8
  | [] => []
  | b :: l => if b + 1 ≠ 0 then (b + 1) :: l else (b + 1) :: incrementLe l

def bigEndian (l : List UInt8) : ℕ := littleEndian l.reverse

def increment (l : List UInt8) : List UInt8 := (incrementLe l.reverse).reverse

variable (l : List UInt8)

theorem length_incrementLe : (incrementLe l).length = l.length := by
  induction l with
  | nil => rfl
  | cons b l ih =>
    unfold incrementLe
    split <;> simp [ih]

@[simp] theorem length_increment : (increment l).length = l.length := by
  simp [increment, length_incrementLe]

theorem littleEndian_lt : littleEndian l < 256 ^ l.length := by
  induction l with
  | nil => simp [littleEndian]
  | cons b l ih =>
    have hb := b.toNat_lt
    simp only [littleEndian, length_cons, Nat.pow_succ]
    omega

theorem littleEndian_inj : ∀ {l₁ l₂ : List UInt8}, l₁.length = l₂.length →
    littleEndian l₁ = littleEndian l₂ → l₁ = l₂
  | [], [], _, _ => rfl
  | b₁ :: l₁, b₂ :: l₂, hlen, h => by
    have h₁ := b₁.toNat_lt
    have h₂ := b₂.toNat_lt
    simp only [littleEndian] at h
    rw [UInt8.toNat_inj.mp (show b₁.toNat = b₂.toNat by omega),
      littleEndian_inj (Nat.succ.inj hlen) (by omega)]

theorem toNat_succ {b : UInt8} (h : b + 1 ≠ 0) : (b + 1).toNat = b.toNat + 1 := by
  have hb := b.toNat_lt
  have hne : b.toNat ≠ 255 := by
    intro e
    apply h
    apply UInt8.toNat_inj.mp
    simp [e]
  rw [UInt8.toNat_add]
  simp only [UInt8.reduceToNat]
  omega

theorem toNat_of_succ_eq_zero {b : UInt8} (h : b + 1 = 0) : b.toNat = 255 := by
  have hb := b.toNat_lt
  have h' := congrArg UInt8.toNat h
  rw [UInt8.toNat_add] at h'
  simp only [UInt8.reduceToNat] at h'
  omega

theorem littleEndian_incrementLe :
    littleEndian (incrementLe l) = (littleEndian l + 1) % 256 ^ l.length := by
  induction l with
  | nil => simp [incrementLe, littleEndian]
  | cons b l ih =>
    have hl := littleEndian_lt l
    unfold incrementLe
    split
    next h =>
      have hs := toNat_succ h
      have hb := (b + 1).toNat_lt
      simp only [littleEndian, length_cons, Nat.pow_succ]
      rw [Nat.mod_eq_of_lt (by omega)]
      omega
    next h =>
      have h0 : b + 1 = 0 := not_not.mp h
      have hb := toNat_of_succ_eq_zero h0
      simp only [littleEndian, length_cons, Nat.pow_succ, h0, UInt8.toNat_zero, ih, hb]
      rcases Nat.lt_or_ge (littleEndian l + 1) (256 ^ l.length) with hlt | hge
      · rw [Nat.mod_eq_of_lt hlt, Nat.mod_eq_of_lt (by omega)]
        omega
      · have e : littleEndian l + 1 = 256 ^ l.length := by omega
        have e' : 255 + 256 * littleEndian l + 1 = 256 ^ l.length * 256 := by omega
        rw [e, e', Nat.mod_self, Nat.mod_self]

theorem bigEndian_increment : bigEndian (increment l) = (bigEndian l + 1) % 256 ^ l.length := by
  unfold bigEndian increment
  rw [reverse_reverse, littleEndian_incrementLe, length_reverse]

end Iwlwifi.Bytes
