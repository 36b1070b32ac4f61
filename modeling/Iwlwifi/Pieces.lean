import Mathlib.Tactic

/-! # Strings in pieces

A string that is stored in several pieces, and a cursor that walks over it.

* A cursor is what is left of the current piece followed by the pieces after it (`start`,
  `advance`); a piece that is used up is left for the next one, if there is one.
* `At pieces off c`: the cursor `c` stands `off` elements behind the beginning.  `At.drop_flatten`
  says what is left of the string, `At.advance` how the position moves.
* `Coarser f segs pieces`: segments that each consist of whole pieces.  `Coarser.exists_segment`:
  what is left of a piece lies inside a segment. -/

namespace Iwlwifi.Pieces

open List

variable {α σ : Type}

def start : List (List α) → List (List α)
  | [] => [[]]
  | [p] => [p]
  | p :: q :: ps => if p = [] then q :: ps else p :: q :: ps

/-- The cursor `n` elements on, inside the piece. -/
def advance : List (List α) → ℕ → List (List α)
  | [], _ => []
  | p :: ps, n => if n < p.length then p.drop n :: ps else if ps = [] then [[]] else ps

/-- `c` stands at `off`. -/
inductive At (pieces : List (List α)) : ℕ → List (List α) → Prop
  | intro (pre : List (List α)) (q p : List α) (ps : List (List α))
      (h : pieces = pre ++ (q ++ p) :: ps) : At pieces (pre.flatten.length + q.length) (p :: ps)

variable {pieces c : List (List α)} {off : ℕ}

theorem At.drop_flatten (h : At pieces off c) : pieces.flatten.drop off = c.flatten := by
  obtain ⟨pre, q, p, ps, rfl⟩ := h
  have hsplit : (pre ++ (q ++ p) :: ps).flatten = (pre.flatten ++ q) ++ (p ++ ps.flatten) := by
    simp
  rw [hsplit, drop_left' (length_append), flatten_cons]

theorem At.ne_nil (h : At pieces off c) : c ≠ [] := by
  cases h
  exact cons_ne_nil _ _

theorem at_start (hne : pieces ≠ []) : At pieces 0 (start pieces) := by
  have hfirst : ∀ (p : List α) (ps : List (List α)), At (p :: ps) 0 (p :: ps) :=
    fun p ps => At.intro [] [] p ps rfl
  match pieces, hne with
  | [p], _ => exact hfirst p []
  | p :: q :: ps, _ =>
    rw [start]
    split
    next hp =>
      have hat : At (p :: q :: ps) _ (q :: ps) := At.intro [p] [] q ps rfl
      simpa [hp] using hat
    · exact hfirst p (q :: ps)

theorem length_start_le (hne : pieces ≠ []) : (start pieces).length ≤ pieces.length := by
  match pieces, hne with
  | [p], _ => exact Nat.le_refl _
  | p :: q :: ps, _ =>
    rw [start]
    split
    · simp
    · exact Nat.le_refl _

theorem At.advance {p : List α} {ps : List (List α)} (h : At pieces off (p :: ps)) {n : ℕ}
    (hn : n ≤ p.length) : At pieces (off + n) (advance (p :: ps) n) := by
  obtain ⟨pre, q, p, ps, h⟩ := h
  rw [Pieces.advance]
  split
  · -- inside the piece
    have hq : q ++ p = (q ++ p.take n) ++ p.drop n := by
      rw [append_assoc, take_append_drop]
    rw [hq] at h
    have hat := At.intro _ _ _ _ h
    rw [length_append, length_take, Nat.min_eq_left hn] at hat
    rwa [Nat.add_assoc]
  · have hlen : n = p.length := by omega
    subst hlen
    split
    next hps =>
      subst hps
      have hat : At pieces _ [[]] := At.intro pre (q ++ p) [] [] (by simpa using h)
      rw [length_append] at hat
      rwa [Nat.add_assoc]
    next hps =>
      obtain ⟨r, rs, rfl⟩ := exists_cons_of_ne_nil hps
      have hat : At pieces _ (r :: rs) := At.intro (pre ++ [q ++ p]) [] r rs (by simpa using h)
      simpa [Nat.add_assoc] using hat

theorem length_advance_le (p : List α) (ps : List (List α)) (n : ℕ) :
    (advance (p :: ps) n).length ≤ ps.length + 1 := by
  rw [advance]
  split
  · simp
  · split <;> simp

theorem advance_length {ps : List (List α)} (p : List α) (h : ps ≠ []) :
    advance (p :: ps) p.length = ps := by
  simp [advance, h]

/-! ### Segments -/

/-- The segments `f s` are made of whole pieces. -/
def Coarser (f : σ → List α) (segs : List σ) (pieces : List (List α)) : Prop :=
  ∃ groups : List (List (List α)), groups.flatten = pieces ∧ segs.map f = groups.map List.flatten

variable {f : σ → List α} {segs : List σ}

theorem exists_segment_of_groups {groups : List (List (List α))} {pre ps : List (List α)}
    {q p : List α} (hpieces : groups.flatten = pre ++ (q ++ p) :: ps)
    (hsegs : segs.map f = groups.map List.flatten) :
    ∃ before s after a, segs = before ++ s :: after ∧
      pre.flatten.length + q.length = (before.map fun t => (f t).length).sum + a ∧
      a + p.length ≤ (f s).length ∧ ((f s).drop a).take p.length = p := by
  induction groups generalizing segs pre with
  | nil => simp at hpieces
  | cons g groups ih =>
    obtain ⟨s, segs, rfl⟩ : ∃ s rest, segs = s :: rest := by
      cases segs with
      | nil => simp at hsegs
      | cons s rest => exact ⟨s, rest, rfl⟩
    simp only [map_cons, List.cons.injEq] at hsegs
    obtain ⟨hs, hsegs⟩ := hsegs
    -- the piece is in the first group, or in a later one
    rcases append_eq_append_iff.mp hpieces with ⟨pre', hpre, hrest⟩ | ⟨g', hg, hrest⟩
    · obtain ⟨before, t, after, a, rfl, hoff, hle, htake⟩ := ih hrest hsegs
      refine ⟨s :: before, t, after, a, rfl, ?_, hle, htake⟩
      rw [hpre, flatten_append, length_append, map_cons, sum_cons, hs]
      omega
    cases g' with
    | nil =>
      have hpieces' : groups.flatten = [] ++ (q ++ p) :: ps := by simpa using hrest.symm
      obtain ⟨before, t, after, a, rfl, hoff, hle, htake⟩ := ih hpieces' hsegs
      refine ⟨s :: before, t, after, a, rfl, ?_, hle, htake⟩
      rw [append_nil] at hg
      rw [map_cons, sum_cons, hs, hg]
      simp only [flatten_nil, length_nil] at hoff
      omega
    | cons r g' =>
      simp only [cons_append, List.cons.injEq] at hrest
      have hflat : g.flatten = (pre.flatten ++ q) ++ (p ++ g'.flatten) := by
        rw [hg, ← hrest.1]
        simp
      refine ⟨[], s, segs, pre.flatten.length + q.length, rfl, by simp, ?_, ?_⟩
      · rw [hs, hflat]
        simp only [length_append]
        omega
      · rw [hs, hflat, drop_left' length_append, take_left]

theorem Coarser.exists_segment (h : Coarser f segs pieces) {p : List α} {ps : List (List α)}
    (hat : At pieces off (p :: ps)) :
    ∃ before s after a, segs = before ++ s :: after ∧
      off = (before.map fun t => (f t).length).sum + a ∧
      a + p.length ≤ (f s).length ∧ ((f s).drop a).take p.length = p := by
  obtain ⟨groups, hpieces, hsegs⟩ := h
  obtain ⟨pre, q, p, ps, hat⟩ := hat
  exact exists_segment_of_groups (hpieces.trans hat) hsegs

end Iwlwifi.Pieces
