import Mathlib.Tactic

/-! # Byte-addressed memory

Memory as a function from addresses to bytes, with the operations of C on it.

* `load mem a n` reads `n` bytes from `a` on; `store` writes one byte, `storeList` several; `memmove`
  copies bytes that may overlap their destination: what it writes are the bytes before the call.
* `load_add` splits a range, `load_congr` says that a range depends on its bytes only; the frame
  lemmas `load_memmove_of_disjoint` and `load_store_of_disjoint` are instances of it. -/

namespace Iwlwifi.Memory

open List

abbrev Mem : Type := ℕ → UInt8

variable {mem mem' : Mem} {a n : ℕ}

/-- The `n` bytes from `a` on. -/
def load (mem : Mem) (a n : ℕ) : List UInt8 := (List.range n).map fun i => mem (a + i)

def store (mem : Mem) (a : ℕ) (v : UInt8) : Mem := Function.update mem a v

/-- Copy `n` bytes from `src` to `dst`; the ranges may overlap. -/
def memmove (mem : Mem) (dst src n : ℕ) : Mem :=
  fun a => if dst ≤ a ∧ a < dst + n then mem (src + (a - dst)) else mem a

def storeList (mem : Mem) (a : ℕ) (l : List UInt8) : Mem :=
  fun x => if a ≤ x then l.getD (x - a) (mem x) else mem x

@[simp] theorem length_load (mem : Mem) (a n : ℕ) : (load mem a n).length = n := by
  simp [load]

@[simp] theorem load_zero (mem : Mem) (a : ℕ) : load mem a 0 = [] := rfl

theorem load_add (mem : Mem) (a m n : ℕ) :
    load mem a (m + n) = load mem a m ++ load mem (a + m) n := by
  simp [load, range_add, Nat.add_assoc]

theorem load_succ (mem : Mem) (a n : ℕ) : load mem a (n + 1) = mem a :: load mem (a + 1) n := by
  rw [Nat.add_comm, load_add]
  rfl

theorem getElem?_load {i : ℕ} (hi : i < n) : (load mem a n)[i]? = some (mem (a + i)) := by
  simp [load, hi]

variable {v : UInt8}

theorem eq_of_load {l : List UInt8} {i : ℕ} (h : load mem a n = l) (hi : l[i]? = some v) :
    mem (a + i) = v := by
  subst h
  obtain ⟨hlt, rfl⟩ := List.getElem?_eq_some_iff.mp hi
  simp [load]

theorem load_congr (h : ∀ x, a ≤ x → x < a + n → mem x = mem' x) :
    load mem a n = load mem' a n := by
  apply map_congr_left
  intro i hi
  rw [mem_range] at hi
  exact h (a + i) (by omega) (by omega)

theorem load_append {l l' : List UInt8} (h : load mem a n = l ++ l') :
    load mem a l.length = l ∧ load mem (a + l.length) l'.length = l' := by
  have hn : n = l.length + l'.length := by
    have := congrArg List.length h
    simpa using this
  rw [hn, load_add] at h
  exact append_inj h (by simp)

theorem load_cons {l : List UInt8} (h : load mem a n = v :: l) :
    mem a = v ∧ load mem (a + 1) l.length = l := by
  obtain ⟨hv, hl⟩ := load_append (l := [v]) h
  exact ⟨eq_of_load (i := 0) hv rfl, hl⟩

theorem load_memmove (mem : Mem) (dst src n : ℕ) : load (memmove mem dst src n) dst n =
    load mem src n := by
  apply map_congr_left
  intro i hi
  rw [mem_range] at hi
  simp only [memmove]
  rw [if_pos (by omega)]
  congr 1
  omega

theorem memmove_of_disjoint {dst src k : ℕ} (h : a < dst ∨ dst + k ≤ a) :
    memmove mem dst src k a = mem a := if_neg (by omega)

theorem load_memmove_of_disjoint {dst src k : ℕ} (h : a + n ≤ dst ∨ dst + k ≤ a) :
    load (memmove mem dst src k) a n = load mem a n :=
  load_congr fun _ hx hx' => memmove_of_disjoint (by omega)

@[simp] theorem store_self (mem : Mem) (a : ℕ) (v : UInt8) : store mem a v a = v :=
  Function.update_self ..

theorem store_of_ne {b : ℕ} (h : a ≠ b) : store mem b v a = mem a :=
  Function.update_of_ne h _ _

theorem load_store_of_disjoint {b : ℕ} (h : b < a ∨ a + n ≤ b) :
    load (store mem b v) a n = load mem a n :=
  load_congr fun _ hx hx' => store_of_ne (by omega)

theorem storeList_of_lt {l : List UInt8} {x : ℕ} (h : x < a) : storeList mem a l x = mem x :=
  if_neg (by omega)

theorem load_storeList (mem : Mem) (a : ℕ) (l : List UInt8) :
    load (storeList mem a l) a l.length = l := by
  apply ext_getElem
  · simp
  · intro i _ hi
    simp [load, storeList, hi]

end Iwlwifi.Memory
