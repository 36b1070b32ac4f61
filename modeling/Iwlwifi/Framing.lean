import Mathlib.Tactic

/-! # Packets in a stream of parts

A stream in which every element but the last of a packet says that the packet goes on.

* `packets more l`: the packets of a stream that are complete, and the beginning of one at the end.
* `Framed more m b evs b'`: the stream is handed out in pieces, marked as delivered or not.  A
  packet of at most `m` elements is one piece and delivered; from a longer one pieces of `m`
  elements are taken off and not delivered, and neither is the last piece.  The flags say whether
  the stream is inside of such a packet, before and after.
* `Framed.delivered`, `Framed.dropped`: whatever the pieces, delivered are the packets that are not
  too long, and the others are not. -/

namespace Iwlwifi.Framing

open List

variable {α : Type} (more : α → Bool)

/-- The packets of a stream that begins with the elements `cur` of a packet. -/
def packets : List α → List α → List (List α) × List α
  | cur, [] => ([], cur)
  | cur, x :: l =>
    if more x then packets (cur ++ [x]) l
    else ((cur ++ [x]) :: (packets [] l).1, (packets [] l).2)

def IsEnd (l : List α) : Prop :=
  ∃ a x, l = a ++ [x] ∧ (∀ y ∈ a, more y = true) ∧ more x = false

variable {more}

theorem IsEnd.length_pos {l : List α} (h : IsEnd more l) : 0 < l.length := by
  obtain ⟨a, x, rfl, -, -⟩ := h
  simp

theorem packets_more {cur a : List α} (h : ∀ y ∈ a, more y = true) (l : List α) :
    packets more cur (a ++ l) = packets more (cur ++ a) l := by
  induction a generalizing cur with
  | nil => rw [nil_append, append_nil]
  | cons y a ih =>
    rw [forall_mem_cons] at h
    rw [cons_append, packets, if_pos h.1, ih h.2, append_assoc, singleton_append]

theorem packets_end {cur g : List α} (h : IsEnd more g) (l : List α) :
    packets more cur (g ++ l) = ((cur ++ g) :: (packets more [] l).1, (packets more [] l).2) := by
  obtain ⟨a, x, rfl, ha, hx⟩ := h
  rw [append_assoc, packets_more ha, singleton_append, packets, if_neg (by simp [hx]), append_assoc]

/-! ### Pieces -/

variable (more) in
/-- The pieces of a stream, marked with `true` when they are delivered. -/
inductive Framed (m : ℕ) : Bool → List (Bool × List α) → Bool → Prop
  | nil (b : Bool) : Framed m b [] b
  /-- the end of a packet -/
  | whole {b b' : Bool} {g : List α} {evs : List (Bool × List α)} (h : IsEnd more g)
      (hlen : g.length ≤ m) (hr : Framed m false evs b') : Framed m b ((!b, g) :: evs) b'
  /-- a piece of a packet that is too long -/
  | long {b b' : Bool} {g : List α} {evs : List (Bool × List α)} (h : ∀ y ∈ g, more y = true)
      (hlen : g.length = m) (hr : Framed m true evs b') : Framed m b ((false, g) :: evs) b'

variable {m : ℕ} {b b' b'' : Bool} {evs evs' : List (Bool × List α)}

theorem Framed.append (h : Framed more m b evs b') (h' : Framed more m b' evs' b'') :
    Framed more m b (evs ++ evs') b'' := by
  induction h with
  | nil b => exact h'
  | whole hg hlen _ ih => exact .whole hg hlen (ih h')
  | long hg hlen _ ih => exact .long hg hlen (ih h')

/-- The elements of the pieces that are delivered, or of those that are not. -/
def marked (d : Bool) (evs : List (Bool × List α)) : List (List α) :=
  (evs.filter fun e => e.1 == d).map Prod.snd

/-- What has been taken off a packet that is too long. -/
structure Inside (more : α → Bool) (m : ℕ) (b : Bool) (cur : List α) : Prop where
  goesOn : ∀ y ∈ cur, more y = true
  nil : b = false → cur = []
  long : b = true → m ≤ cur.length

theorem inside_nil : Inside more m false [] := ⟨by simp, fun _ => rfl, by simp⟩

theorem Inside.append {cur g : List α} (h : Inside more m b cur) (hg : ∀ y ∈ g, more y = true)
    (hlen : g.length = m) : Inside more m true (cur ++ g) := by
  refine ⟨forall_mem_append.mpr ⟨h.goesOn, hg⟩, by simp, fun _ => ?_⟩
  rw [length_append]
  omega

theorem Framed.delivered (h : Framed more m b evs b') (cur : List α) (hcur : Inside more m b cur) :
    marked true evs =
      ((packets more cur (evs.flatMap Prod.snd)).1.filter fun g => decide (g.length ≤ m)) := by
  induction h generalizing cur with
  | nil b => rfl
  | @whole b b' g evs hg hlen _ ih =>
    rw [flatMap_cons, packets_end hg]
    have hrest := ih [] inside_nil
    cases b with
    | false =>
      rw [hcur.nil rfl, nil_append, filter_cons_of_pos (by simpa using hlen), ← hrest]
      rfl
    | true =>
      have hpos := hg.length_pos
      have hlong := hcur.long rfl
      rw [filter_cons_of_neg (by simp; omega), ← hrest]
      rfl
  | @long b b' g evs hg hlen _ ih =>
    rw [flatMap_cons, packets_more hg]
    exact ih _ (hcur.append hg hlen)

theorem Framed.dropped (h : Framed more m b evs b') (cur : List α) (hcur : Inside more m b cur) :
    cur ++ (marked false evs).flatten =
      ((packets more cur (evs.flatMap Prod.snd)).1.filter fun g => decide (m < g.length)).flatten ++
        (packets more cur (evs.flatMap Prod.snd)).2 ∧
      Inside more m b' (packets more cur (evs.flatMap Prod.snd)).2 := by
  induction h generalizing cur with
  | nil b => exact ⟨by simp [marked, packets], hcur⟩
  | @whole b b' g evs hg hlen _ ih =>
    rw [flatMap_cons, packets_end hg]
    obtain ⟨hrest, hin⟩ := ih [] inside_nil
    refine ⟨?_, hin⟩
    cases b with
    | false =>
      rw [hcur.nil rfl, nil_append, filter_cons_of_neg (by simpa using hlen), nil_append, ← hrest]
      rfl
    | true =>
      have hpos := hg.length_pos
      have hlong := hcur.long rfl
      rw [filter_cons_of_pos (by simp; omega), flatten_cons, append_assoc, ← hrest]
      simp [marked]
  | @long b b' g evs hg hlen _ ih =>
    rw [flatMap_cons, packets_more hg]
    obtain ⟨hrest, hin⟩ := ih _ (hcur.append hg hlen)
    refine ⟨?_, hin⟩
    rw [← hrest]
    simp [marked]

end Iwlwifi.Framing
