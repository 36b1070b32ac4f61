import Mathlib.Tactic

/-! # Elements: identifier, length, data

Byte strings read as sequences of elements: one byte for the identifier, one for the length, and
the data.

* `first` splits off the first element of a byte string, if it is complete; `scan` iterates it up to
  the first incomplete one and pairs every element with the bytes that follow it.
* **Fragmentation.**  Data of any length becomes one element of 255 bytes followed by elements with
  a fragment identifier, all full but the last: `fragmented`, with `frags` for the part after
  the first element. -/

namespace Iwlwifi.Tlv

open List

structure Element where
  id : UInt8
  data : List UInt8
  short : data.length < 256
deriving DecidableEq, Repr

def Element.bytes (e : Element) : List UInt8 := e.id :: UInt8.ofNat e.data.length :: e.data

variable {l : List UInt8} (e : Element) (rest : List UInt8)

@[simp] theorem Element.length_bytes : e.bytes.length = e.data.length + 2 := by
  simp [Element.bytes]

theorem length_take_lt (len : UInt8) (l : List UInt8) : (l.take len.toNat).length < 256 :=
  (length_take_le _ l).trans_lt len.toNat_lt

/-- The first element, if it is complete, and the bytes after it. -/
def first : List UInt8 → Option (Element × List UInt8)
  | id :: len :: l =>
    if len.toNat ≤ l.length then
      some (⟨id, l.take len.toNat, length_take_lt len l⟩, l.drop len.toNat)
    else none
  | _ => none

/-! ### Scanning -/

def scanFor : ℕ → List UInt8 → List (Element × List UInt8)
  | 0, _ => []
  | n + 1, l =>
    match first l with
    | none => []
    | some (e, rest) => (e, rest) :: scanFor n rest

/-- The elements up to the first incomplete one, each with the bytes after it. -/
def scan (l : List UInt8) : List (Element × List UInt8) := scanFor l.length l

def elements (l : List UInt8) : List Element := (scan l).map Prod.fst

theorem first_bytes_append : first (e.bytes ++ rest) = some (e, rest) := by
  have hlen : (UInt8.ofNat e.data.length).toNat = e.data.length := by
    exact Nat.mod_eq_of_lt e.short
  simp only [Element.bytes, cons_append, first, hlen, length_append]
  rw [if_pos (by omega)]
  simp only [take_left, drop_left]

theorem first_eq_some {e : Element} {rest : List UInt8} (h : first l = some (e, rest)) :
    l = e.bytes ++ rest := by
  unfold first at h
  split at h
  next id len l =>
    split at h <;> cases h
    next hlen =>
      simp only [Element.bytes, length_take, Nat.min_eq_left hlen, UInt8.ofNat_toNat,
        cons_append, take_append_drop]
  · cases h

theorem scan_of_none (h : first l = none) : scan l = [] := by
  unfold scan
  cases l.length with
  | zero => rfl
  | succ n => simp [scanFor, h]

theorem scanFor_of_le {n m : ℕ} (hn : l.length ≤ n) (hm : l.length ≤ m) :
    scanFor n l = scanFor m l := by
  induction n generalizing m l with
  | zero =>
    have hl : l = [] := length_eq_zero_iff.mp (by omega)
    subst hl
    cases m <;> rfl
  | succ n ih =>
    cases m with
    | zero =>
      have hl : l = [] := length_eq_zero_iff.mp (by omega)
      subst hl
      rfl
    | succ m =>
      simp only [scanFor]
      cases h : first l with
      | none => rfl
      | some x =>
        have hlen := congrArg List.length (first_eq_some h)
        rw [length_append, Element.length_bytes] at hlen
        exact congrArg _ (ih (by omega) (by omega))

theorem scan_bytes_append : scan (e.bytes ++ rest) = (e, rest) :: scan rest := by
  have hlen : (e.bytes ++ rest).length = rest.length + e.data.length + 1 + 1 := by
    rw [length_append, Element.length_bytes]
    omega
  rw [scan, hlen, scanFor, first_bytes_append]
  exact congrArg _ (scanFor_of_le (by omega) (Nat.le_refl _))

theorem scan_induct {P : List UInt8 → Prop} (none : ∀ l, first l = none → P l)
    (some : ∀ e rest, P rest → P (Element.bytes e ++ rest)) (l : List UInt8) : P l := by
  induction hn : l.length using Nat.strongRecOn generalizing l with
  | _ n ih =>
    cases h : first l with
    | none => exact none l h
    | some x =>
      obtain ⟨e, rest⟩ := x
      have hl := first_eq_some h
      subst hl
      rw [length_append, Element.length_bytes] at hn
      exact some e rest (ih rest.length (by omega) rest rfl)

theorem length_of_mem_scan {x : Element × List UInt8} (h : x ∈ scan l) :
    x.1.data.length + x.2.length + 2 ≤ l.length := by
  induction l using scan_induct with
  | none l hl =>
    rw [scan_of_none hl] at h
    cases h
  | some e rest ih =>
    rw [scan_bytes_append] at h
    rw [length_append, Element.length_bytes]
    rcases mem_cons.mp h with rfl | h
    · dsimp only
      omega
    · have := ih h
      omega

theorem find?_scan (p : Element × List UInt8 → Bool) (l : List UInt8) :
    ((scan l).find? p = none ∧ (scan l).filter p = []) ∨
    ∃ x, (scan l).find? p = some x ∧ (scan l).filter p = x :: (scan x.2).filter p ∧
      x.2.length < l.length := by
  induction l using scan_induct with
  | none l h => exact .inl (by simp [scan_of_none h])
  | some e rest ih =>
    rw [scan_bytes_append]
    by_cases hp : p (e, rest)
    · refine .inr ⟨(e, rest), by simp [hp], by simp [hp], ?_⟩
      simp only [length_append, Element.length_bytes]
      omega
    rcases ih with ⟨hnone, hnil⟩ | ⟨x, hfind, hfilter, hlen⟩
    · exact .inl (by simp [hp, hnone, hnil])
    · refine .inr ⟨x, by simp [hp, hfind], by simp [hp, hfilter], ?_⟩
      rw [length_append]
      omega

@[simp] theorem elements_bytes_append : elements (e.bytes ++ rest) = e :: elements rest := by
  simp only [elements, scan_bytes_append, map_cons]

theorem elements_append (es : List Element) (l : List UInt8) :
    elements (es.flatMap Element.bytes ++ l) = es ++ elements l := by
  induction es with
  | nil => rfl
  | cons e es ih =>
    rw [flatMap_cons, append_assoc, elements_bytes_append, ih, cons_append]

/-! ### Fragments -/

/-- The fragment elements for the data `q`. -/
def frags (frag : UInt8) : List UInt8 → List UInt8
  | [] => []
  | x :: q =>
    frag :: UInt8.ofNat (min 255 (x :: q).length) :: (x :: q).take 255 ++
      frags frag ((x :: q).drop 255)
termination_by q => q.length
decreasing_by
  simp only [length_drop, length_cons]
  omega

/-- The data `p` from the length byte of its first element on. -/
def lenFragmented (frag : UInt8) (p : List UInt8) : List UInt8 :=
  UInt8.ofNat (min 255 p.length) :: p.take 255 ++ frags frag (p.drop 255)

/-- The data `p` as an element with fragments. -/
def fragmented (id frag : UInt8) (p : List UInt8) : List UInt8 := id :: lenFragmented frag p

@[simp] theorem frags_nil (frag : UInt8) : frags frag [] = [] := by
  rw [frags]

theorem frags_of_ne_nil {frag : UInt8} {q : List UInt8} (h : q ≠ []) :
    frags frag q = frag :: lenFragmented frag q := by
  cases q with
  | nil => exact absurd rfl h
  | cons x q =>
    rw [frags]
    rfl

theorem length_le_frags (frag : UInt8) (q : List UInt8) : q.length ≤ (frags frag q).length := by
  induction q using frags.induct with
  | case1 => exact Nat.zero_le _
  | case2 x q ih =>
    rw [length_drop] at ih
    rw [frags]
    simp only [length_cons, length_append, length_take] at ih ⊢
    omega

theorem lenFragmented_of_le {frag : UInt8} {p : List UInt8} (h : p.length ≤ 255) :
    lenFragmented frag p = UInt8.ofNat p.length :: p := by
  rw [lenFragmented, take_of_length_le h, drop_eq_nil_of_le h, frags_nil,
    Nat.min_eq_right h, append_nil]

theorem lenFragmented_of_lt {frag : UInt8} {p : List UInt8} (h : 255 < p.length) :
    lenFragmented frag p =
      255 :: p.take 255 ++ frag :: lenFragmented frag (p.drop 255) := by
  have hne : p.drop 255 ≠ [] := by
    rw [← length_pos_iff, length_drop]
    omega
  rw [lenFragmented, frags_of_ne_nil hne, Nat.min_eq_left (by omega)]
  rfl

end Iwlwifi.Tlv
