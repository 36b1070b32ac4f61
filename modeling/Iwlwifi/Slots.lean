import Mathlib.Tactic

/-! # Arrays of queues

An array of `n` queues, as a function from slots to the lists they hold.

* `all n f` lists what the slots below `n` hold, slot by slot.
* `put` appends to one slot, `drain` empties the slots of a list one after the other and returns
  what they held; a slot may occur twice, it is then empty the second time.
* Nothing is lost or duplicated (`all_put`, `drain_perm`); a slot is empty after a drain that
  visits it (`drain_snd`), and a drain that visits no slot twice returns the slots as they were
  (`drain_fst`). -/

namespace Iwlwifi.Slots

open Function List

variable {γ : Type} {n : ℕ}

/-- What the slots below `n` hold. -/
def all (n : ℕ) (f : ℕ → List γ) : List γ := (List.range n).flatMap f

def put (f : ℕ → List γ) (i : ℕ) (x : γ) : ℕ → List γ := update f i (f i ++ [x])

def drain : (ℕ → List γ) → List ℕ → List γ × (ℕ → List γ)
  | f, [] => ([], f)
  | f, i :: is =>
    let r := drain (update f i []) is
    (f i ++ r.1, r.2)

variable (f : ℕ → List γ)

theorem drain_cons_fst (i : ℕ) (is : List ℕ) :
    (drain f (i :: is)).1 = f i ++ (drain (update f i []) is).1 := rfl

theorem drain_cons_snd (i : ℕ) (is : List ℕ) :
    (drain f (i :: is)).2 = (drain (update f i []) is).2 := rfl

theorem mem_all {f : ℕ → List γ} {x : γ} : x ∈ all n f ↔ ∃ i < n, x ∈ f i := by
  simp [all]

theorem all_eq_nil {f : ℕ → List γ} : all n f = [] ↔ ∀ i < n, f i = [] := by
  simp [all]

theorem all_update {i : ℕ} (hi : i < n) :
    ∃ rest, ∀ l, (all n (update f i l)).Perm (l ++ rest) := by
  refine ⟨((List.range n).erase i).flatMap f, fun l => ?_⟩
  have hkeep : ((List.range n).erase i).flatMap (update f i l) =
      ((List.range n).erase i).flatMap f := by
    apply flatMap_congr
    intro j hj
    rw [update_of_ne (nodup_range.mem_erase_iff.mp hj).1]
  have hperm := (perm_cons_erase (mem_range.mpr hi)).flatMap_right (update f i l)
  rwa [flatMap_cons, update_self, hkeep] at hperm

theorem all_put {i : ℕ} (hi : i < n) (x : γ) : (all n (put f i x)).Perm (all n f ++ [x]) := by
  obtain ⟨rest, hrest⟩ := all_update f hi
  have h := hrest (f i)
  rw [update_eq_self] at h
  calc (all n (put f i x)).Perm (f i ++ [x] ++ rest) := hrest _
    _ |>.Perm (f i ++ rest ++ [x]) := by
        rw [append_assoc, append_assoc]
        exact List.Perm.append_left _ perm_append_comm
    _ |>.Perm (all n f ++ [x]) := h.symm.append_right _

theorem all_clear {i : ℕ} (hi : i < n) :
    (f i ++ all n (update f i [])).Perm (all n f) := by
  obtain ⟨rest, hrest⟩ := all_update f hi
  have h := hrest (f i)
  rw [update_eq_self] at h
  exact ((hrest []).append_left (f i)).trans h.symm

theorem drain_perm {is : List ℕ} (his : ∀ i ∈ is, i < n) :
    ((drain f is).1 ++ all n (drain f is).2).Perm (all n f) := by
  induction is generalizing f with
  | nil => exact List.Perm.refl _
  | cons i is ih =>
    have hrec := ih (update f i []) (fun j hj => his j (by simp [hj]))
    simp only [drain, append_assoc]
    exact (hrec.append_left (f i)).trans (all_clear f (his i (by simp)))

theorem drain_snd (is : List ℕ) (j : ℕ) : (drain f is).2 j = if j ∈ is then [] else f j := by
  induction is generalizing f with
  | nil => simp [drain]
  | cons i is ih =>
    simp only [drain, ih, mem_cons]
    by_cases hj : j ∈ is
    · simp [hj]
    · by_cases e : j = i
      · simp [e]
      · simp [hj, e]

theorem drain_fst {is : List ℕ} (hnd : is.Nodup) : (drain f is).1 = is.flatMap f := by
  induction is generalizing f with
  | nil => rfl
  | cons i is ih =>
    obtain ⟨hi, hnd⟩ := nodup_cons.mp hnd
    simp only [drain, ih _ hnd, flatMap_cons]
    congr 1
    apply flatMap_congr
    intro j hj
    rw [update_of_ne]
    rintro rfl
    exact hi hj

end Iwlwifi.Slots
