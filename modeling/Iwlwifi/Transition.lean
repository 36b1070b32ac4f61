import Mathlib.Tactic

/-! # Runs of state machines and bounded loops

* **Machines.**  A partial step function `step : σ → α → Option (β × σ)`: in a state it performs an
  action `α`, produces an output `β` and reaches a new state; `none` means that the action is not
  enabled (or does not return).  Nondeterminism of the environment is part of the action.
* **Runs** (`Run`).  A list of labels: the state before, the action, the output, the state after.
* **Rules.**  Invariants kept by the steps that satisfy a side condition (`Run.induct`), termination
  by a measure (`Run.exists_final`), flows of lists into and out of the state (`Run.flow`), and
  sorted outputs (`Run.sorted`).
* **Loops** (`whileLoop`).  A `while` loop with a bound on the number of iterations;
  `whileLoop_inv` is the invariant rule and `whileLoop_exit` says that the bound is large enough
  when a measure decreases. -/

namespace Iwlwifi

open List

variable {σ α β : Type}

/-- One step of a run: state before, action, output, state after. -/
structure Label (σ α β : Type) where
  pre : σ
  act : α
  out : β
  post : σ

/-- `Run step s ls s'`: the machine goes from `s` to `s'` by the steps recorded in `ls`. -/
inductive Run (step : σ → α → Option (β × σ)) : σ → List (Label σ α β) → σ → Prop
  | nil (s : σ) : Run step s [] s
  | cons {s s' s'' : σ} {a : α} {b : β} {ls : List (Label σ α β)} :
      step s a = some (b, s') → Run step s' ls s'' → Run step s (⟨s, a, b, s'⟩ :: ls) s''

variable {step : σ → α → Option (β × σ)}

theorem Run.split {s s'' : σ} {ls ls' : List (Label σ α β)} (h : Run step s (ls ++ ls') s'') :
    ∃ s', Run step s ls s' ∧ Run step s' ls' s'' := by
  induction ls generalizing s with
  | nil => exact ⟨s, Run.nil s, h⟩
  | cons l ls ih =>
    cases h with
    | cons hs hr =>
      obtain ⟨s', h₁, h₂⟩ := ih hr
      exact ⟨s', Run.cons hs h₁, h₂⟩

variable {γ : Type} {s s' : σ} {ls : List (Label σ α β)}

theorem Run.pre_reached (h : Run step s ls s') {l : Label σ α β} (hl : l ∈ ls) :
    ∃ ls', Run step s ls' l.pre := by
  obtain ⟨ls₁, ls₂, rfl⟩ := append_of_mem hl
  obtain ⟨s₁, h₁, h₂⟩ := h.split
  cases h₂ with
  | cons _ _ => exact ⟨ls₁, h₁⟩

theorem Run.concat {s s' s'' : σ} {a : α} {b : β} (h : Run step s ls s')
    (hs : step s' a = some (b, s'')) : Run step s (ls ++ [⟨s', a, b, s''⟩]) s'' := by
  induction h with
  | nil s => exact .cons hs (.nil _)
  | cons hs₁ _ ih => exact .cons hs₁ (ih hs)

/-- **Termination rule.**  If every state that satisfies `I` is final or has a step that keeps `I`
and decreases a measure, a final state is reached. -/
theorem Run.exists_final {I final : σ → Prop} (μ : σ → ℕ)
    (hstep : ∀ s, I s → final s ∨ ∃ a b s', step s a = some (b, s') ∧ I s' ∧ μ s' < μ s) :
    ∀ s, I s → ∃ ls s', Run step s ls s' ∧ final s' := by
  intro s
  induction hμ : μ s using Nat.strongRecOn generalizing s with
  | ind n ih =>
    intro hs
    rcases hstep s hs with hfin | ⟨a, b, s₁, hs₁, hI, hlt⟩
    · exact ⟨[], s, .nil s, hfin⟩
    · obtain ⟨ls, s', hrun, hfin⟩ := ih (μ s₁) (hμ ▸ hlt) s₁ rfl hI
      exact ⟨_, s', .cons hs₁ hrun, hfin⟩

/-- **Invariant rule.**  An invariant kept by the steps that satisfy `C` holds at the end, and
before and after every step, of a run whose steps all satisfy `C`. -/
theorem Run.induct {I : σ → Prop} {C : Label σ α β → Prop}
    (hstep : ∀ s a b s', step s a = some (b, s') → C ⟨s, a, b, s'⟩ → I s → I s')
    (h : Run step s ls s') (hC : ∀ l ∈ ls, C l) (hs : I s) :
    I s' ∧ ∀ l ∈ ls, step l.pre l.act = some (l.out, l.post) ∧ I l.pre ∧ I l.post := by
  induction h with
  | nil s => exact ⟨hs, by simp⟩
  | @cons s s₁ s₂ a b ls hs₁ _ ih =>
    have h₁ : I s₁ := hstep s a b s₁ hs₁ (hC _ (by simp)) hs
    obtain ⟨he, hl⟩ := ih (fun l hl => hC l (by simp [hl])) h₁
    exact ⟨he, forall_mem_cons.mpr ⟨⟨hs₁, hs, h₁⟩, hl⟩⟩

def execute (step : σ → α → Option (β × σ)) : σ → List α → Option (List (Label σ α β) × σ)
  | s, [] => some ([], s)
  | s, a :: as =>
    match step s a with
    | none => none
    | some (b, s') =>
      match execute step s' as with
      | none => none
      | some (ls, s'') => some (⟨s, a, b, s'⟩ :: ls, s'')

theorem execute_run {as : List α} (h : execute step s as = some (ls, s')) :
    Run step s ls s' ∧ ls.map Label.act = as := by
  induction as generalizing s ls with
  | nil =>
    cases h
    exact ⟨Run.nil _, rfl⟩
  | cons a as ih =>
    unfold execute at h
    split at h
    · cases h
    next hs =>
      split at h <;> cases h
      next he =>
        obtain ⟨hr, hm⟩ := ih he
        exact ⟨Run.cons hs hr, by simp [hm]⟩

/-- What a run yields for a list of actions that can be executed. -/
theorem exists_execute {as : List α} {P : List (Label σ α β) → σ → Prop}
    (h : execute step s as = some (ls, s'))
    (hP : Run step s ls s' → P ls s') : ∃ ls s', execute step s as = some (ls, s') ∧ P ls s' :=
  ⟨ls, s', h, hP (execute_run h).1⟩

theorem exists_run {as : List α} {s : σ} {P : List (Label σ α β) → σ → Prop}
    (h : ∃ r, execute step s as = some r ∧ P r.1 r.2) :
    ∃ ls s', Run step s ls s' ∧ ls.map Label.act = as ∧ P ls s' := by
  obtain ⟨r, hr, hP⟩ := h
  obtain ⟨hrun, hacts⟩ := execute_run hr
  exact ⟨r.1, r.2, hrun, hacts, hP⟩

instance decidableExecuted {γ : Type} (o : Option γ) (p : γ → Prop) [DecidablePred p] :
    Decidable (∃ r, o = some r ∧ p r) :=
  inferInstanceAs (Decidable (∃ r ∈ o, p r))

/-! ### Flows -/

/-- A preorder of lists compatible with appending on both sides. -/
structure AppendPreorder {γ : Type} (R : List γ → List γ → Prop) : Prop where
  refl : ∀ a, R a a
  trans : ∀ a b c, R a b → R b c → R a c
  append : ∀ a b c d, R a b → R c d → R (a ++ c) (b ++ d)

theorem appendPreorder_eq : AppendPreorder (γ := γ) Eq where
  refl _ := rfl
  trans _ _ _ := Eq.trans
  append _ _ _ _ h h' := by rw [h, h']

theorem appendPreorder_sublist : AppendPreorder (γ := γ) List.Sublist where
  refl := List.Sublist.refl
  trans _ _ _ := List.Sublist.trans
  append _ _ _ _ := List.Sublist.append

theorem appendPreorder_perm : AppendPreorder (γ := γ) List.Perm where
  refl := List.Perm.refl
  trans _ _ _ := List.Perm.trans
  append _ _ _ _ := List.Perm.append

/-- **Flow rule.**  If in every step what comes out and what the state then holds is related to
what the state held and what goes in, so it is over the whole run. -/
theorem Run.flow {R : List γ → List γ → Prop} (hR : AppendPreorder R) (held : σ → List γ)
    (inp out : Label σ α β → List γ)
    (h : Run step s ls s')
    (hl : ∀ l ∈ ls, R (out l ++ held l.post) (held l.pre ++ inp l)) :
    R (ls.flatMap out ++ held s') (held s ++ ls.flatMap inp) := by
  induction h with
  | nil s => simpa using hR.refl (held s)
  | @cons s s₁ s₂ a b ls _ _ ih =>
    have h₁ := hl ⟨s, a, b, s₁⟩ (by simp)
    have h₂ := ih (fun l hl' => hl l (by simp [hl']))
    have h₃ := hR.append _ _ _ _ (hR.refl (out ⟨s, a, b, s₁⟩)) h₂
    have h₄ := hR.append _ _ _ _ h₁ (hR.refl (ls.flatMap inp))
    rw [flatMap_cons, flatMap_cons]
    simp only [append_assoc] at h₃ h₄ ⊢
    exact hR.trans _ _ _ h₃ h₄

/-- **Sorted outputs.**  A step outputs sorted values between the floors before and after it. -/
theorem Run.sorted {I : σ → ℕ → Prop} {C : Label σ α β → Prop} (out : Label σ α β → List ℕ)
    (hstep : ∀ s a b s' n, step s a = some (b, s') → C ⟨s, a, b, s'⟩ → I s n →
      ∃ n', I s' n' ∧ n ≤ n' ∧ (out ⟨s, a, b, s'⟩).Pairwise (· ≤ ·) ∧
        ∀ x ∈ out ⟨s, a, b, s'⟩, n ≤ x ∧ x ≤ n') (h : Run step s ls s') (hC : ∀ l ∈ ls, C l) {n : ℕ}
    (hs : I s n) : (ls.flatMap out).Pairwise (· ≤ ·) ∧ ∀ x ∈ ls.flatMap out, n ≤ x := by
  induction h generalizing n with
  | nil s => simp
  | @cons s s₁ s₂ a b ls hs₁ _ ih =>
    obtain ⟨n', hI, hn, hsorted, hmem⟩ := hstep s a b s₁ n hs₁ (hC _ (by simp)) hs
    obtain ⟨htail, hge⟩ := ih (fun l hl => hC l (by simp [hl])) hI
    refine ⟨pairwise_append.mpr ⟨hsorted, htail, ?_⟩, ?_⟩
    · intro x hx y hy
      exact Nat.le_trans (hmem x hx).2 (hge y hy)
    refine forall_mem_append.mpr ?_
    exact ⟨fun x hx => (hmem x hx).1, fun x hx => Nat.le_trans hn (hge x hx)⟩

/-! ### Bounded loops -/

section loops
variable (cond : σ → Bool) (body : σ → σ)

/-- `while (cond) body`, at most `n` iterations. -/
def whileLoop : ℕ → σ → σ
  | 0, s => s
  | n + 1, s => if cond s then whileLoop n (body s) else s

variable {cond body}

theorem whileLoop_inv {I : σ → Prop} (hI : ∀ s, I s → cond s = true → I (body s)) :
    ∀ (n : ℕ) (s : σ), I s → I (whileLoop cond body n s) := by
  intro n
  induction n with
  | zero =>
    intro s hs
    exact hs
  | succ n ih =>
    intro s hs
    unfold whileLoop
    split
    next hc => exact ih (body s) (hI s hs hc)
    · exact hs

/-- The loop has ended when its bound is at least a measure that every iteration decreases. -/
theorem whileLoop_exit {I : σ → Prop} {μ : σ → ℕ} (hI : ∀ s, I s → cond s = true → I (body s))
    (hμ : ∀ s, I s → cond s = true → μ (body s) < μ s) :
    ∀ (n : ℕ) (s : σ), I s → μ s < n → cond (whileLoop cond body n s) = false := by
  intro n
  induction n with
  | zero =>
    intro s _ h
    exact absurd h (Nat.not_lt_zero _)
  | succ n ih =>
    intro s hs h
    unfold whileLoop
    split
    next hc =>
      have hlt := hμ s hs hc
      exact ih (body s) (hI s hs hc) (by omega)
    next hc => simpa using hc

end loops

end Iwlwifi
