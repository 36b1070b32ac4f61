import Mathlib.Tactic

/-! # Circular offsets and windows

Positions on a ring of `m` cells and windows on it.

* `off m h x` is the number of steps from `h` forward to `x` on a ring of size `m`: the unique
  `k < m` with `h + k ≡ x (mod m)` (`off_spec`, `off_unique`).
* A window of `b` consecutive positions starting at `h` is `{x | off m h x < b}`.  When `b`
  divides `m`, folding positions modulo `b` is injective on every window, also on one that
  wraps (`eq_of_mod_eq`), and the fold of a position does not depend on its representative
  (`mod_fold`).
* `contents` lists the cells of such a window in ring order; writing to one of them changes the
  list at its offset (`contents_update`). -/

namespace Iwlwifi.Ring

open Function List

/-- Steps from `h` forward to `x` on a ring of size `m`. -/
def off (m h x : ℕ) : ℕ := (x + (m - h % m)) % m

variable {m h x y k : ℕ}

theorem off_lt (hm : 0 < m) (h x : ℕ) : off m h x < m := Nat.mod_lt _ hm

theorem off_spec (hm : 0 < m) (h x : ℕ) : h + off m h x ≡ x [MOD m] := by
  have hh : h % m < m := Nat.mod_lt h hm
  have h1 : h + off m h x ≡ h % m + (x + (m - h % m)) [MOD m] :=
    Nat.ModEq.add (Nat.mod_modEq h m).symm (Nat.mod_modEq _ m)
  have h2 : h % m + (x + (m - h % m)) = x + m := by omega
  rw [h2] at h1
  exact h1.trans (by simp [Nat.ModEq])

theorem off_unique (hk : k < m) (hx : h + k ≡ x [MOD m]) : off m h x = k := by
  have hm : 0 < m := by omega
  have h1 : h + off m h x ≡ h + k [MOD m] := (off_spec hm h x).trans hx.symm
  exact Nat.ModEq.eq_of_lt_of_lt (Nat.ModEq.add_left_cancel' h h1) (off_lt hm h x) hk

theorem off_add (hk : k < m) : off m h (h + k) = k := off_unique hk rfl

@[simp] theorem off_self (hm : 0 < m) : off m h h = 0 := off_unique hm rfl

theorem off_mod_left (hm : 0 < m) (h x : ℕ) : off m (h % m) x = off m h x :=
  off_unique (off_lt hm h x) ((Nat.ModEq.add_right _ (Nat.mod_modEq h m)).trans (off_spec hm h x))

theorem off_mod_right (hm : 0 < m) (h x : ℕ) : off m h (x % m) = off m h x :=
  off_unique (off_lt hm h x) ((off_spec hm h x).trans (Nat.mod_modEq x m).symm)

theorem off_eq_ite (hm : 0 < m) (h x : ℕ) :
    off m h x = if h % m ≤ x % m then x % m - h % m else x % m + m - h % m := by
  have hh := Nat.mod_lt h hm
  have hx := Nat.mod_lt x hm
  rw [← off_mod_left hm, ← off_mod_right hm]
  apply off_unique
  · split <;> omega
  split
  next hle => rw [Nat.add_sub_cancel' hle]
  · have e : h % m + (x % m + m - h % m) = x % m + m := by omega
    rw [e]
    simp [Nat.ModEq]

theorem off_lt_iff (hk : k ≤ m) (hm : 0 < m) (h x : ℕ) :
    off m h x < k ↔ ∃ j < k, x % m = (h + j) % m := by
  constructor
  · intro hlt
    exact ⟨off m h x, hlt, (off_spec hm h x).symm⟩
  · rintro ⟨j, hj, e⟩
    rwa [off_unique (by omega) e.symm]

theorem eq_of_off_eq (hx : x < m) (hy : y < m) (h : ℕ) (e : off m h x = off m h y) : x = y := by
  have hm : 0 < m := by omega
  have h1 : x ≡ y [MOD m] := (off_spec hm h x).symm.trans (e ▸ off_spec hm h y)
  exact Nat.ModEq.eq_of_lt_of_lt h1 hx hy

theorem eq_of_off_zero (hh : h < m) (hx : x < m) (e : off m h x = 0) : h = x := by
  have hspec := off_spec (show 0 < m by omega) h x
  rw [e] at hspec
  exact Nat.ModEq.eq_of_lt_of_lt hspec hh hx

/-- Moving the origin forward by `k ≤ off m h x` subtracts `k` from the offset. -/
theorem off_advance (hm : 0 < m) (hk : k ≤ off m h x) : off m (h + k) x = off m h x - k := by
  apply off_unique
  · have := off_lt hm h x
    omega
  · have e : h + k + (off m h x - k) = h + off m h x := by omega
    rw [e]
    exact off_spec hm h x

theorem off_succ (hlt : off m h x + 1 < m) : off m h (x + 1) = off m h x + 1 := by
  apply off_unique hlt
  exact Nat.ModEq.add_right 1 (off_spec (by omega) h x)

theorem off_sub (hm : 0 < m) (hle : off m h x ≤ off m h y) : off m x y = off m h y - off m h x := by
  rw [← off_advance hm hle, ← off_mod_left hm (h + off m h x), off_spec hm h x, off_mod_left hm]

/-! ### Folding a ring onto a divisor of its size -/

variable {b : ℕ}

theorem mod_fold (hb : b ∣ m) (x : ℕ) : x % m % b = x % b := Nat.mod_mod_of_dvd x hb

theorem mod_eq_off (hm : 0 < m) (hb : b ∣ m) (h x : ℕ) : x % b = (h + off m h x) % b :=
  ((off_spec hm h x).of_dvd hb).symm

theorem slot_inj {k' : ℕ} (hk : k < b) (hk' : k' < b) (e : (h + k) % b = (h + k') % b) : k = k' :=
  Nat.ModEq.eq_of_lt_of_lt (Nat.ModEq.add_left_cancel' h e) hk hk'

theorem eq_of_mod_eq (hb : b ∣ m) (hx : x < m) (hy : y < m) (h : ℕ)
    (hwx : off m h x < b) (hwy : off m h y < b) (e : x % b = y % b) : x = y := by
  have hm : 0 < m := by omega
  have h1 : h + off m h x ≡ h + off m h y [MOD b] :=
    (mod_eq_off hm hb h x).symm.trans (e.trans (mod_eq_off hm hb h y))
  exact eq_of_off_eq hx hy h
    (Nat.ModEq.eq_of_lt_of_lt (Nat.ModEq.add_left_cancel' h h1) hwx hwy)

/-! ### Contents of a window -/

section contents
variable {γ : Type} {n len : ℕ}

/-- The `len` cells from position `h` on, of `n` cells onto which positions are folded. -/
def contents (n : ℕ) (f : ℕ → γ) (h len : ℕ) : List γ :=
  (List.range len).map (fun k => f ((h + k) % n))

variable (f : ℕ → γ)

@[simp] theorem length_contents (h len : ℕ) : (contents n f h len).length = len := by
  simp [contents]

theorem contents_add (h len len' : ℕ) :
    contents n f h (len + len') = contents n f h len ++ contents n f (h + len) len' := by
  simp [contents, range_add, Nat.add_assoc]

theorem contents_succ (h len : ℕ) :
    contents n f h (len + 1) = contents n f h len ++ [f ((h + len) % n)] :=
  contents_add f h len 1

theorem contents_cons (h len : ℕ) :
    contents n f h (len + 1) = f (h % n) :: contents n f (h + 1) len := by
  rw [Nat.add_comm len 1]
  exact contents_add f h 1 len

theorem contents_drop (h len k : ℕ) :
    (contents n f h len).drop k = contents n f (h + k) (len - k) := by
  apply ext_getElem
  · simp
  · intro i h₁ h₂
    simp [contents, Nat.add_assoc]

theorem contents_mod (hn : n ∣ m) (f : ℕ → γ) (h len : ℕ) :
    contents n f (h % m) len = contents n f h len := by
  apply map_congr_left
  intro k _
  have e : (h % m + k) % n = (h + k) % n :=
    Nat.ModEq.add_right k (Nat.mod_mod_of_dvd h hn)
  rw [e]

theorem contents_update (hlen : len ≤ n) (hk : k < n) (v : γ) :
    contents n (update f ((h + k) % n) v) h len = (contents n f h len).set k v := by
  apply ext_getElem
  · simp
  intro i h₁ h₂
  simp only [length_contents] at h₁
  simp only [contents, getElem_map, getElem_range, getElem_set]
  split
  next e => rw [e, update_self]
  rename_i hne
  rw [update_of_ne]
  intro e
  exact hne (slot_inj (by omega) hk e).symm

/-- The cells from the pointer `h` up to the pointer `w`. -/
def between (n : ℕ) (f : ℕ → γ) (h w : ℕ) : List γ := contents n f h (off n h w)

variable {w : ℕ}

@[simp] theorem length_between (h w : ℕ) : (between n f h w).length = off n h w :=
  length_contents f h _

theorem between_advance (hk : k ≤ off n h w) (hn : 0 < n) :
    between n f h w = contents n f h k ++ between n f ((h + k) % n) w := by
  have hlen : off n h w = k + off n (h + k) w := by
    rw [off_advance hn hk]
    omega
  rw [between, hlen, contents_add, between, off_mod_left hn, contents_mod (dvd_refl n)]

theorem between_pop (hlt : 0 < off n h w) (hn : 0 < n) :
    between n f h w = f (h % n) :: between n f ((h + 1) % n) w :=
  between_advance f hlt hn

theorem take_between (hk : k ≤ off n h w) (hn : 0 < n) :
    (between n f h w).take k = contents n f h k := by
  rw [between_advance f hk hn, take_left' (length_contents f h k)]

theorem between_push (hw : w < n) (hlt : off n h w + 1 < n) (v : γ) :
    between n (update f w v) h ((w + 1) % n) = between n f h w ++ [v] := by
  have hcell : (h + off n h w) % n = w := by
    rw [off_spec (by omega) h w, Nat.mod_eq_of_lt hw]
  have hkeep : contents n (update f w v) h (off n h w) = contents n f h (off n h w) := by
    rw [← hcell, contents_update f (by rw [hcell]; omega) (by omega),
      set_eq_of_length_le (by rw [length_contents, hcell])]
  rw [between, off_mod_right (by omega), off_succ hlt, contents_succ, hkeep, hcell,
    update_self, between]

end contents

end Iwlwifi.Ring
