import Mathlib.Tactic

/-! # Programs that read a memory

What a program computes from a memory, together with the places that it reads.

* `Access α`: the value and the reads, each an offset and a length.  Programs are sequenced as in
  a monad; the reads are appended.
* `Within n a`: all reads are below `n`.  The rules say exactly when this is so for sequences,
  branches and loops (`within_bind`, `within_ite`, `within_mapA`), so that the reads of a program
  are computed by rewriting. -/

namespace Iwlwifi

/-- A value, and the offsets and lengths of what was read for it. -/
structure Access (α : Type) where
  val : α
  reads : List (ℕ × ℕ)

namespace Access

variable {α β : Type}

instance : Monad Access where
  pure a := ⟨a, []⟩
  bind a f := ⟨(f a.val).val, a.reads ++ (f a.val).reads⟩

@[simp] theorem val_pure (a : α) : (pure a : Access α).val = a := rfl

@[simp] theorem val_bind (a : Access α) (f : α → Access β) : (a >>= f).val = (f a.val).val := rfl

/-- All reads are below `n`. -/
def Within (n : ℕ) (a : Access α) : Prop := ∀ r ∈ a.reads, r.1 + r.2 ≤ n

instance (n : ℕ) (a : Access α) : Decidable (Within n a) := List.decidableBAll _ a.reads

variable {n : ℕ}

@[simp] theorem within_pure (a : α) : Within n (pure a : Access α) := by
  intro r hr
  cases hr

@[simp] theorem within_bind (a : Access α) (f : α → Access β) :
    Within n (a >>= f) ↔ Within n a ∧ Within n (f a.val) := by
  exact List.forall_mem_append

@[simp] theorem within_ite (c : Prop) [Decidable c] (a b : Access α) :
    Within n (if c then a else b) ↔ (c → Within n a) ∧ (¬ c → Within n b) := by
  split
  · simp [*]
  · simp [*]

def mapA (f : α → Access β) : List α → Access (List β)
  | [] => pure []
  | x :: xs => do
    let y ← f x
    let ys ← mapA f xs
    pure (y :: ys)

@[simp] theorem within_mapA (f : α → Access β) (xs : List α) :
    Within n (mapA f xs) ↔ ∀ x ∈ xs, Within n (f x) := by
  induction xs with
  | nil => simp [mapA]
  | cons x xs ih => simp [mapA, ih]

def allA (f : α → Access Bool) : List α → Access Bool
  | [] => pure true
  | x :: xs => do
    let ok ← f x
    if ok then allA f xs else pure false

theorem val_allA (f : α → Access Bool) (xs : List α) :
    (allA f xs).val = true ↔ ∀ x ∈ xs, (f x).val = true := by
  induction xs with
  | nil => simp [allA]
  | cons x xs ih =>
    cases hx : (f x).val with
    | true => simp [allA, hx, ih]
    | false => simp [allA, hx]

theorem within_allA {f : α → Access Bool} {xs : List α} (h : ∀ x ∈ xs, Within n (f x)) :
    Within n (allA f xs) := by
  induction xs with
  | nil => simp [allA]
  | cons x xs ih =>
    have hxs := ih fun y hy => h y (.tail _ hy)
    simp [allA, h x (.head _), hxs]

def ofFnA {k : ℕ} (f : Fin k → Access α) : Access (Vector α k) :=
  ⟨Vector.ofFn fun i => (f i).val, (List.finRange k).flatMap fun i => (f i).reads⟩

@[simp] theorem within_ofFnA {k : ℕ} (f : Fin k → Access α) :
    Within n (ofFnA f) ↔ ∀ i, Within n (f i) := by
  constructor
  · intro h i r hr
    exact h r (List.mem_flatMap.mpr ⟨i, List.mem_finRange i, hr⟩)
  · intro h r hr
    obtain ⟨i, -, hr⟩ := List.mem_flatMap.mp hr
    exact h i r hr

/-! ### Reads -/

section reads
variable (mem : ℕ → UInt8) (o : ℕ)

def byteAt : Access UInt8 := ⟨mem o, [(o, 1)]⟩

def be16At : Access ℕ := ⟨2 ^ 8 * (mem o).toNat + (mem (o + 1)).toNat, [(o, 2)]⟩

def be32At : Access ℕ :=
  ⟨2 ^ 24 * (mem o).toNat + 2 ^ 16 * (mem (o + 1)).toNat + 2 ^ 8 * (mem (o + 2)).toNat +
    (mem (o + 3)).toNat, [(o, 4)]⟩

def le16At : Access ℕ := ⟨(mem o).toNat + 2 ^ 8 * (mem (o + 1)).toNat, [(o, 2)]⟩

def le32At : Access ℕ :=
  ⟨(mem o).toNat + 2 ^ 8 * (mem (o + 1)).toNat + 2 ^ 16 * (mem (o + 2)).toNat +
    2 ^ 24 * (mem (o + 3)).toNat, [(o, 4)]⟩

@[simp] theorem val_byteAt : (byteAt mem o).val = mem o := rfl

@[simp] theorem within_byteAt : Within n (byteAt mem o) ↔ o + 1 ≤ n := by simp [Within, byteAt]

@[simp] theorem within_be16At : Within n (be16At mem o) ↔ o + 2 ≤ n := by simp [Within, be16At]

@[simp] theorem within_be32At : Within n (be32At mem o) ↔ o + 4 ≤ n := by simp [Within, be32At]

@[simp] theorem within_le16At : Within n (le16At mem o) ↔ o + 2 ≤ n := by simp [Within, le16At]

@[simp] theorem within_le32At : Within n (le32At mem o) ↔ o + 4 ≤ n := by simp [Within, le32At]

end reads

end Access

end Iwlwifi
