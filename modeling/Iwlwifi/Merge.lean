import Mathlib.Tactic

/-! # Merging a list with a partial operation

An operation that takes two elements returns the larger one if the two are comparable, and fails
otherwise.  A list is merged from left to right.

* `Selects.merge_covers`: a successful merge returns an element of the list that covers all others.
* `Selects.merge_perm_iff`: the order of the list makes no difference exactly if, once some element
  covers the list, any two elements are comparable and no other element is as large.

The laws are required on a set `V` of well-formed elements only. -/

namespace Iwlwifi

open List

variable {α : Type}

def merge (op : α → α → Option α) : List α → Option α
  | [] => none
  | x :: l => l.foldlM op x

/-- On `V` the operation returns the larger of two elements that `le` relates, the second one if
both are equally large, and fails if they are not related. -/
structure Selects (V : α → Prop) (le : α → α → Prop) (op : α → α → Option α) : Prop where
  refl : ∀ a, le a a
  trans : ∀ a b c, V a → V b → V c → le a b → le b c → le a c
  of_le : ∀ a b, V a → V b → le a b → op a b = some b
  of_ge : ∀ a b, V a → V b → le b a → ¬ le a b → op a b = some a
  related : ∀ a b r, V a → V b → op a b = some r → le a b ∨ le b a

variable {V : α → Prop} {le : α → α → Prop} {op : α → α → Option α} {a b c r : α} {l : List α}

/-! ### One operation -/

section
variable (h : Selects V le op)
include h

theorem Selects.isSome_iff (ha : V a) (hb : V b) :
    (op a b).isSome ↔ le a b ∨ le b a := by
  constructor
  · intro hs
    obtain ⟨r, hr⟩ := Option.isSome_iff_exists.mp hs
    exact h.related a b r ha hb hr
  intro hle
  by_cases hab : le a b
  · rw [h.of_le a b ha hb hab]; rfl
  · rw [h.of_ge a b ha hb (hle.resolve_left hab) hab]; rfl

theorem Selects.result (ha : V a) (hb : V b) (hr : op a b = some r) :
    (r = a ∨ r = b) ∧ le a r ∧ le b r := by
  by_cases hab : le a b
  · rw [h.of_le a b ha hb hab, Option.some.injEq] at hr
    subst hr
    exact ⟨.inr rfl, hab, h.refl b⟩
  have hba := (h.related a b r ha hb hr).resolve_left hab
  rw [h.of_ge a b ha hb hba hab, Option.some.injEq] at hr
  subst hr
  exact ⟨.inl rfl, h.refl a, hba⟩

/-! ### The fold -/

variable (hl : ∀ x ∈ l, V x)
include hl

theorem Selects.foldlM_covers (ha : V a) (hr : l.foldlM op a = some r) :
    r ∈ a :: l ∧ ∀ x ∈ a :: l, le x r := by
  induction l generalizing a with
  | nil =>
    cases hr
    exact ⟨.head _, fun x hx => mem_singleton.mp hx ▸ h.refl r⟩
  | cons b l ih =>
    obtain ⟨m, hm, hr⟩ := Option.bind_eq_some_iff.mp hr
    have hb := hl b (.head _)
    obtain ⟨hmab, ham, hbm⟩ := h.result ha hb hm
    have hmV : V m := by rcases hmab with rfl | rfl <;> assumption
    have hlV : ∀ x ∈ l, V x := fun x hx => hl x (.tail _ hx)
    obtain ⟨hmem, hcov⟩ := ih hlV hmV hr
    have hrV : V r := forall_mem_cons.mpr ⟨hmV, hlV⟩ r hmem
    obtain ⟨hmr, hcov⟩ := forall_mem_cons.mp hcov
    constructor
    · rcases mem_cons.mp hmem with rfl | hmem
      · rcases hmab with rfl | rfl
        · exact .head _
        · exact .tail _ (.head _)
      · exact .tail _ (.tail _ hmem)
    rw [forall_mem_cons, forall_mem_cons]
    exact ⟨h.trans _ _ _ ha hmV hrV ham hmr, h.trans _ _ _ hb hmV hrV hbm hmr, hcov⟩

omit h hl in
theorem foldlM_isSome_of_inv {I : α → Prop} (ha : I a)
    (hI : ∀ m b, I m → b ∈ l → ∃ r, op m b = some r ∧ I r) : (l.foldlM op a).isSome := by
  induction l generalizing a with
  | nil => rfl
  | cons b l ih =>
    obtain ⟨m, hm, hmI⟩ := hI a b ha (.head _)
    rw [foldlM_cons, hm]
    exact ih hmI fun m c hm hc => hI m c hm (.tail _ hc)

theorem Selects.foldlM_isSome (ha : V a)
    (hrel : ∀ x ∈ a :: l, ∀ y ∈ l, le x y ∨ le y x) : (l.foldlM op a).isSome := by
  -- the accumulator is one of the elements, hence related to the others
  refine foldlM_isSome_of_inv (I := (· ∈ a :: l)) (.head _) fun m b hm hb => ?_
  have hmV : V m := forall_mem_cons.mpr ⟨ha, hl⟩ m hm
  obtain ⟨r, hr⟩ := Option.isSome_iff_exists.mp
    ((h.isSome_iff hmV (hl b hb)).mpr (hrel m hm b hb))
  refine ⟨r, hr, ?_⟩
  rcases (h.result hmV (hl b hb) hr).1 with rfl | rfl
  · exact hm
  · exact .tail _ hb

theorem Selects.foldlM_isSome_of_covers (ha : V a) (hcov : ∀ x ∈ l, le x a) :
    (l.foldlM op a).isSome := by
  refine foldlM_isSome_of_inv (I := fun m => V m ∧ ∀ x ∈ l, le x m) ⟨ha, hcov⟩ ?_
  intro m b ⟨hmV, hcov⟩ hb
  have hbV := hl b hb
  obtain ⟨r, hr⟩ := Option.isSome_iff_exists.mp ((h.isSome_iff hmV hbV).mpr (.inr (hcov b hb)))
  obtain ⟨hrm, hmr, -⟩ := h.result hmV hbV hr
  have hrV : V r := by rcases hrm with rfl | rfl <;> assumption
  exact ⟨r, hr, hrV, fun x hx => h.trans _ _ _ (hl x hx) hmV hrV (hcov x hx) hmr⟩

/-! ### Merges -/

theorem Selects.merge_covers (hr : merge op l = some r) :
    r ∈ l ∧ ∀ x ∈ l, le x r := by
  cases l with
  | nil => cases hr
  | cons a l =>
    exact h.foldlM_covers (fun x hx => hl x (.tail _ hx)) (hl a (.head _)) hr

theorem Selects.merge_isSome (hne : l ≠ [])
    (hrel : ∀ x ∈ l, ∀ y ∈ l, le x y ∨ le y x) : (merge op l).isSome := by
  cases l with
  | nil => exact absurd rfl hne
  | cons a l =>
    exact h.foldlM_isSome (fun x hx => hl x (.tail _ hx)) (hl a (.head _))
      fun x hx y hy => hrel x hx y (.tail _ hy)

theorem Selects.exists_perm_isSome (hc : c ∈ l) (hcov : ∀ x ∈ l, le x c) :
    ∃ l', l'.Perm l ∧ (merge op l').isSome := by
  obtain ⟨s, t, rfl⟩ := append_of_mem hc
  refine ⟨c :: (s ++ t), perm_middle.symm, ?_⟩
  have hsub : ∀ x ∈ s ++ t, x ∈ s ++ c :: t := fun x hx =>
    perm_middle.mem_iff.mpr (.tail _ hx)
  exact h.foldlM_isSome_of_covers (fun x hx => hl x (hsub x hx)) (hl c hc)
    fun x hx => hcov x (hsub x hx)

end

theorem merge_concat (op : α → α → Option α) (hne : l ≠ []) (c : α) :
    merge op (l ++ [c]) = (merge op l).bind fun a => op a c := by
  cases l with
  | nil => exact absurd rfl hne
  | cons a l =>
    rw [cons_append, merge, merge, foldlM_append]
    simp only [foldlM_cons, foldlM_nil, bind_pure]
    rfl

theorem Selects.exists_perm_eq (h : Selects V le op) (hl : ∀ x ∈ c :: l, V x) (ha : a ∈ l)
    (hac : le a c) (hcov : ∀ x ∈ l, le x a) : ∃ l', l'.Perm (c :: l) ∧ merge op l' = some c := by
  have hlV : ∀ x ∈ l, V x := fun x hx => hl x (.tail _ hx)
  have hcV := hl c (.head _)
  obtain ⟨l', hperm, hsome⟩ := h.exists_perm_isSome hlV ha hcov
  obtain ⟨m, hm⟩ := Option.isSome_iff_exists.mp hsome
  have hml' := (h.merge_covers (fun x hx => hlV x (hperm.mem_iff.mp hx)) hm).1
  have hml : m ∈ l := hperm.mem_iff.mp hml'
  have hmc : le m c := h.trans m a c (hlV m hml) (hlV a ha) hcV (hcov m hml) hac
  refine ⟨l' ++ [c], (perm_append_singleton c l').trans (hperm.cons c), ?_⟩
  rw [merge_concat op (ne_nil_of_mem hml'), hm]
  exact h.of_le m c (hlV m hml) hcV hmc

theorem exists_perm_cons_cons (ha : a ∈ l) (hb : b ∈ l) (hne : a ≠ b) :
    ∃ l', (a :: b :: l').Perm l := by
  classical
  have hb' : b ∈ l.erase a := (mem_erase_of_ne hne.symm).mpr hb
  exact ⟨_, ((perm_cons_erase hb').symm.cons a).trans (perm_cons_erase ha).symm⟩

/-- **Order independence** of a merge: if some element covers the list, any two are related, and no
other is as large. -/
theorem Selects.merge_perm_iff (h : Selects V le op) (hl : ∀ x ∈ l, V x) :
    (∀ l', l'.Perm l → merge op l' = merge op l) ↔
      ∀ c ∈ l, (∀ x ∈ l, le x c) →
        (∀ x ∈ l, ∀ y ∈ l, le x y ∨ le y x) ∧ ∀ x ∈ l, le c x → x = c := by
  constructor
  · intro hperm c hc hcov
    obtain ⟨l₁, hl₁, hsome⟩ := h.exists_perm_isSome hl hc hcov
    rw [hperm l₁ hl₁] at hsome
    constructor
    · intro x hx y hy
      by_cases hxy : x = y
      · exact .inl (hxy ▸ h.refl x)
      obtain ⟨l₂, hl₂⟩ := exists_perm_cons_cons hx hy hxy
      rw [← hperm _ hl₂, merge, foldlM_cons] at hsome
      obtain ⟨r, hr⟩ := Option.isSome_iff_exists.mp hsome
      obtain ⟨m, hm, -⟩ := Option.bind_eq_some_iff.mp hr
      exact h.related x y m (hl x hx) (hl y hy) hm
    · intro x hx hcx
      by_contra hne
      -- merged last, each of the two is the result
      obtain ⟨l₂, hl₂⟩ := exists_perm_cons_cons hc hx (Ne.symm hne)
      have hl₂' : (x :: c :: l₂).Perm l := (List.Perm.swap c x l₂).trans hl₂
      have hcov' : ∀ y ∈ l, le y x := fun y hy =>
        h.trans y c x (hl y hy) (hl c hc) (hl x hx) (hcov y hy) hcx
      obtain ⟨l₃, hl₃, hl₃c⟩ := h.exists_perm_eq (fun y hy => hl y (hl₂.mem_iff.mp hy))
        (.head _) (hcov x hx)
        fun y hy => hcov' y (hl₂.mem_iff.mp (.tail _ hy))
      obtain ⟨l₄, hl₄, hl₄x⟩ := h.exists_perm_eq (fun y hy => hl y (hl₂'.mem_iff.mp hy))
        (.head _) hcx fun y hy => hcov y (hl₂'.mem_iff.mp (.tail _ hy))
      have hcx' : some c = some x := by
        rw [← hl₃c, ← hl₄x, hperm _ (hl₃.trans hl₂), hperm _ (hl₄.trans hl₂')]
      exact hne (Option.some.inj hcx').symm
  · intro hcond l' hl'
    by_cases hex : ∃ c ∈ l, ∀ x ∈ l, le x c
    · obtain ⟨c, hc, hcov⟩ := hex
      obtain ⟨hrel, htop⟩ := hcond c hc hcov
      -- every order has `c` as its result
      have key : ∀ k, k.Perm l → merge op k = some c := by
        intro k hk
        have hkV : ∀ x ∈ k, V x := fun x hx => hl x (hk.mem_iff.mp hx)
        have hsome := h.merge_isSome hkV (ne_nil_of_mem (hk.mem_iff.mpr hc))
          fun x hx y hy => hrel x (hk.mem_iff.mp hx) y (hk.mem_iff.mp hy)
        obtain ⟨r, hr⟩ := Option.isSome_iff_exists.mp hsome
        obtain ⟨hrk, hrcov⟩ := h.merge_covers hkV hr
        rw [hr, htop r (hk.mem_iff.mp hrk) (hrcov c (hk.mem_iff.mpr hc))]
      rw [key l' hl', key l (List.Perm.refl l)]
    · have key : ∀ k, k.Perm l → merge op k = none := by
        intro k hk
        by_contra hne
        obtain ⟨r, hr⟩ := Option.ne_none_iff_exists'.mp hne
        obtain ⟨hrk, hrcov⟩ := h.merge_covers (fun x hx => hl x (hk.mem_iff.mp hx)) hr
        exact hex ⟨r, hk.mem_iff.mp hrk, fun x hx => hrcov x (hk.mem_iff.mpr hx)⟩
      rw [key l' hl', key l (List.Perm.refl l)]

end Iwlwifi
