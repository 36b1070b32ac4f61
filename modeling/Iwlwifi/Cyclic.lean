import Iwlwifi.Memory
import Iwlwifi.Ring
import Mathlib.Data.List.GetD

/-! # Copies into and out of a cyclic buffer

A buffer of `n` bytes at the start of a memory, used as a ring: a copy that does not fit before the
end of the buffer is made in two pieces.

* `copyIn n mem pos bytes` writes bytes from `pos` on.  They are then read back from there
  (`contents_copyIn`), and bytes that end where the new ones start are kept, as long as all of them
  together fit in the buffer (`contents_copyIn_before`).
* `load_eq_contents` and `load_append_load`: one piece, or two pieces, read the bytes of the ring. -/

namespace Iwlwifi.Cyclic

open Memory Iwlwifi.Ring List

/-- Copy bytes to the position `pos`, in two pieces where they do not fit before the end. -/
def copyIn (n : ℕ) (mem : Mem) (pos : ℕ) (bytes : List UInt8) : Mem :=
  if pos + bytes.length ≤ n then storeList mem pos bytes
  else storeList (storeList mem pos (bytes.take (n - pos))) 0 (bytes.drop (n - pos))

variable {n pos len h i : ℕ} {mem : Mem} {bytes : List UInt8}

theorem storeList_apply (hi : pos ≤ i) :
    storeList mem pos bytes i = bytes.getD (i - pos) (mem i) :=
  if_pos hi

theorem add_mod_eq (hpos : pos < n) (hi : i < n) :
    (pos + i) % n = if pos + i < n then pos + i else pos + i - n := by
  split
  next hlt => exact Nat.mod_eq_of_lt hlt
  next hge => rw [Nat.mod_eq_sub_mod (by omega), Nat.mod_eq_of_lt (by omega)]

theorem copyIn_apply (hpos : pos < n) (hlen : bytes.length ≤ n) (hi : i < n) :
    copyIn n mem pos bytes ((pos + i) % n) = bytes.getD i (mem ((pos + i) % n)) := by
  rw [add_mod_eq hpos hi, copyIn]
  split
  next hfit =>
    split
    · rw [storeList_apply (by omega), Nat.add_sub_cancel_left]
    · rw [storeList_of_lt (by omega), getD_eq_default _ _ (by omega)]
  next hwrap =>
    split
    · -- in the first piece, and beyond the second one
      rw [storeList_apply (Nat.zero_le _), getD_eq_default _ _ (by simp; omega),
        storeList_apply (by omega), Nat.add_sub_cancel_left]
      simp only [getD_eq_getElem?_getD, List.getElem?_take]
      rw [if_pos (by omega)]
    · rw [storeList_apply (Nat.zero_le _), storeList_of_lt (by omega)]
      simp only [getD_eq_getElem?_getD, List.getElem?_drop]
      congr 2
      omega

/-- **What is copied in is read back.** -/
theorem contents_copyIn (hpos : pos < n) (hlen : bytes.length ≤ n) :
    contents n (copyIn n mem pos bytes) pos bytes.length = bytes := by
  apply ext_getElem
  · simp
  · intro i h₁ h₂
    simp only [contents, getElem_map, getElem_range]
    rw [copyIn_apply hpos hlen (by omega), getD_eq_getElem _ _ h₂]

/-- **Bytes in front of the copy are kept.** -/
theorem contents_copyIn_before (hfit : len + bytes.length ≤ n) (hn : 0 < n) :
    contents n (copyIn n mem ((h + len) % n) bytes) h len = contents n mem h len := by
  apply map_congr_left
  intro k hk
  rw [mem_range] at hk
  -- the position lies `n - len + k` steps from the start of the copy on
  have hcell : (h + k) % n = ((h + len) % n + (n - len + k)) % n := by
    rw [Nat.mod_add_mod, show h + len + (n - len + k) = h + k + n by omega, Nat.add_mod_right]
  rw [hcell, copyIn_apply (Nat.mod_lt _ hn) (by omega) (by omega), getD_eq_default _ _ (by omega)]

theorem load_eq_contents (hfit : pos + len ≤ n) : load mem pos len = contents n mem pos len := by
  apply map_congr_left
  intro i hi
  rw [mem_range] at hi
  rw [Nat.mod_eq_of_lt (by omega)]

theorem load_append_load (hpos : pos ≤ n) (hlen : len ≤ n) (hwrap : n ≤ pos + len) :
    load mem pos (n - pos) ++ load mem 0 (len - (n - pos)) = contents n mem pos len := by
  have hsplit : len = n - pos + (len - (n - pos)) := by omega
  conv_rhs => rw [hsplit, contents_add]
  have hzero : contents n mem (pos + (n - pos)) (len - (n - pos)) =
      contents n mem 0 (len - (n - pos)) := by
    rw [show pos + (n - pos) = n by omega, ← contents_mod (dvd_refl n), Nat.mod_self]
  rw [hzero, load_eq_contents (n := n) (by omega), load_eq_contents (n := n) (by omega)]

end Iwlwifi.Cyclic
