import Mathlib.Tactic

/-! # Writing to a buffer of bounded size

Code that writes piece after piece to a buffer and gives up at the first piece for which there is no
room.  What is written so far is the state; giving up leaves it behind as the error.

* `emit n l` writes one piece.
* `Emits n f l`: `f` writes `l` if there is room for all of it, and otherwise gives up with at most
  `n` written.  It is closed under sequencing (`Emits.bind`), branches and loops (`Emits.foldlM`),
  so that a program is specified by the list of all its pieces. -/

namespace Iwlwifi.Emit

open List

variable {β : Type}

/-- Write `l` after `out`, if it fits in `n`. -/
def emit (n : ℕ) (l out : List β) : Except (List β) (List β) :=
  if n - out.length < l.length then .error out else .ok (out ++ l)

/-- All of `l` is written, or there is no room for it. -/
def Emits (n : ℕ) (f : List β → Except (List β) (List β)) (l : List β) : Prop :=
  ∀ out, out.length ≤ n →
    (out.length + l.length ≤ n ∧ f out = .ok (out ++ l)) ∨
    (n < out.length + l.length ∧ ∃ w, w.length ≤ n ∧ f out = .error w)

variable {n : ℕ} {f g : List β → Except (List β) (List β)} {l l' : List β}

theorem emits_emit (n : ℕ) (l : List β) : Emits n (emit n l) l := by
  intro out hout
  by_cases h : n - out.length < l.length
  · exact .inr ⟨by omega, out, hout, if_pos h⟩
  · exact .inl ⟨by omega, if_neg h⟩

theorem emits_nil (n : ℕ) : Emits n (fun out : List β => .ok out) [] := by
  intro out hout
  exact .inl ⟨hout, by rw [append_nil]⟩

theorem Emits.bind (hf : Emits n f l) (hg : Emits n g l') :
    Emits n (fun out => f out >>= g) (l ++ l') := by
  intro out hout
  dsimp only
  rw [length_append]
  rcases hf out hout with ⟨hle, hok⟩ | ⟨hlt, w, hw, herr⟩
  · rcases hg (out ++ l) (by rwa [length_append]) with ⟨hle', hok'⟩ | ⟨hlt', w, hw, herr⟩
    · rw [length_append] at hle'
      refine .inl ⟨by omega, ?_⟩
      rw [hok, ← append_assoc, ← hok']
      rfl
    · rw [length_append] at hlt'
      refine .inr ⟨by omega, w, hw, ?_⟩
      rw [hok, ← herr]
      rfl
  · refine .inr ⟨by omega, w, hw, ?_⟩
    rw [herr]
    rfl

theorem Emits.ite {c : Prop} [Decidable c] (hf : c → Emits n f l) (hg : ¬ c → Emits n g l) :
    Emits n (fun out => if c then f out else g out) l := by
  by_cases h : c
  · simpa only [if_pos h] using hf h
  · simpa only [if_neg h] using hg h

theorem Emits.foldlM {α : Type} {f : α → List β → Except (List β) (List β)} {g : α → List β}
    (xs : List α) (h : ∀ x ∈ xs, Emits n (f x) (g x)) :
    Emits n (fun out => xs.foldlM (fun out x => f x out) out) (xs.flatMap g) := by
  induction xs with
  | nil => exact emits_nil n
  | cons x xs ih =>
    have hrest := ih fun y hy => h y (.tail _ hy)
    simpa only [foldlM_cons, flatMap_cons] using (h x (.head _)).bind hrest

end Iwlwifi.Emit
