import Mathlib.Tactic

/-! # Reference counts of linked objects

Objects are reference counted and point to each other.  A reference to an object counts for the
object and for those it points to, but not further.

* **Pools** (`Pool`).  The counters, and the objects freed when their counter became 0.  `Counts`
  says that the counters are what is expected and that exactly the objects with 0 are freed.
* **Weights** (`weight`).  What is expected: the references to an object and those to the objects
  that point to it.  The weight is linear in the references, so taking and giving up
  one are opposite (`Balanced.acquire`, `Balanced.release`).
* **Links** (`Balanced.link`).  When a link is made, the references counted so far are added at the
  other end.
* **Safety** (`Balanced.no_dangling`, `Balanced.all_freed`).  If nobody that is pointed to points
  elsewhere (`Flat`), no freed object is referenced or pointed to, and objects that are not
  referenced any more are freed once. -/

namespace Iwlwifi.RefCount

open Finset

variable {ι : Type} [DecidableEq ι]

/-! ### Pools -/

/-- Counters of objects, and the objects freed so far. -/
@[ext] structure Pool (ι : Type) where
  count : ι → ℕ
  freed : List ι

/-- The counter of `b` is raised by `k`. -/
def Pool.add (p : Pool ι) (b : ι) (k : ℕ) : Pool ι :=
  { p with count := Function.update p.count b (p.count b + k) }

/-- The counter of `b` is lowered, and `b` is freed at 0.  A counter at 0 becomes `top`. -/
def Pool.dec (top : ℕ) (p : Pool ι) (b : ι) : Pool ι where
  count := Function.update p.count b (if p.count b = 0 then top else p.count b - 1)
  freed := if (if p.count b = 0 then top else p.count b - 1) = 0 then p.freed ++ [b] else p.freed

def tally (l : List ι) : ι → ℕ := fun e => l.count e

theorem tally_cons (b : ι) (l : List ι) : tally (b :: l) = tally l + Pi.single b 1 := by
  funext e
  by_cases heb : e = b
  · simp [tally, heb]
  · simp [tally, heb, Ne.symm heb]

theorem tally_perm {l l' : List ι} (h : l.Perm l') : tally l = tally l' :=
  funext fun e => h.count_eq e

/-- The counters of the objects `A` are `c`, and those with 0 are freed. -/
structure Counts (A : Finset ι) (p : Pool ι) (c : ι → ℕ) : Prop where
  count : ∀ e ∈ A, p.count e = c e
  freed : ∀ e, e ∈ p.freed ↔ e ∈ A ∧ c e = 0
  nodup : p.freed.Nodup

variable {A : Finset ι} {p : Pool ι} {c : ι → ℕ} {b : ι}

theorem Counts.add (h : Counts A p c) (hpos : 0 < c b) (k : ℕ) :
    Counts A (p.add b k) (c + Pi.single b k) := by
  refine ⟨fun e he => ?_, fun e => ?_, h.nodup⟩
  · by_cases heb : e = b
    · subst heb
      simp [Pool.add, h.count e he]
    · simp [Pool.add, heb, h.count e he]
  rw [Pool.add, h.freed]
  by_cases heb : e = b
  · subst heb
    simp [hpos.ne']
  · simp [heb]

theorem Counts.dec (h : Counts A p (c + Pi.single b 1)) (hb : b ∈ A) (top : ℕ) :
    Counts A (p.dec top b) c := by
  have hcount : p.count b = c b + 1 := by simp [h.count b hb]
  have hnew : (if p.count b = 0 then top else p.count b - 1) = c b := by
    rw [if_neg (by omega)]
    omega
  have hfresh : b ∉ p.freed := by simp [h.freed]
  have hother : ∀ e ≠ b, e ∈ p.freed ↔ e ∈ A ∧ c e = 0 := by
    intro e heb
    simp [h.freed, heb]
  unfold Pool.dec
  rw [hnew]
  refine ⟨fun e he => ?_, fun e => ?_, ?_⟩
  · by_cases heb : e = b
    · subst heb
      simp
    · simp [h.count e he, heb]
  · by_cases heb : e = b
    · subst heb
      by_cases hz : c e = 0
      · simp [hz, hb]
      · simp [hz, hfresh]
    · by_cases hz : c b = 0
      · simp [hz, heb, hother e heb]
      · simp [hz, hother e heb]
  · by_cases hz : c b = 0
    · simp only [hz, if_true]
      exact List.Nodup.append h.nodup (List.nodup_singleton b) (by simpa using hfresh)
    · simp only [hz, if_false]
      exact h.nodup

theorem Counts.addAll (h : Counts A p c) {l : List ι} (hl : ∀ e ∈ l, 0 < c e) :
    Counts A (l.foldl (fun p b => p.add b 1) p) (c + tally l) := by
  induction l generalizing p c with
  | nil => exact h
  | cons b l ih =>
    have hstep := h.add (hl b (.head _)) 1
    have hrest := ih hstep fun e he => by
      have := hl e (.tail _ he)
      simp only [Pi.add_apply]
      omega
    rw [List.foldl_cons, tally_cons]
    rwa [add_assoc, add_comm (Pi.single b 1)] at hrest

theorem Counts.decAll {l : List ι} (h : Counts A p (c + tally l)) (hl : ∀ e ∈ l, e ∈ A) (top : ℕ) :
    Counts A (l.foldl (Pool.dec top) p) c := by
  induction l generalizing p with
  | nil => exact h
  | cons b l ih =>
    rw [tally_cons, ← add_assoc] at h
    exact ih (h.dec (hl b (.head _)) top) fun e he => hl e (.tail _ he)

theorem freed_addAll (l : List ι) (p : Pool ι) :
    (l.foldl (fun p b => p.add b 1) p).freed = p.freed := by
  induction l generalizing p with
  | nil => rfl
  | cons b l ih => exact ih (p.add b 1)

theorem freed_decAll (top : ℕ) (l : List ι) (p : Pool ι) :
    p.freed ⊆ (l.foldl (Pool.dec top) p).freed := by
  induction l generalizing p with
  | nil => exact fun _ he => he
  | cons b l ih =>
    intro e he
    apply ih (p.dec top b)
    unfold Pool.dec
    generalize (if p.count b = 0 then top else p.count b - 1) = n
    split
    · exact List.mem_append_left _ he
    · exact he

/-! ### Weights -/

/-- The references to an object, and those to the objects that point to it. -/
def weight (A : Finset ι) (base : ι → ℕ) (links : ι → List ι) : ι → ℕ :=
  fun e => base e + ∑ f ∈ A, base f * (links f).count e

variable {base base' : ι → ℕ} {links links' : ι → List ι}

theorem weight_add : weight A (base + base') links = weight A base links + weight A base' links := by
  funext e
  simp only [weight, Pi.add_apply, add_mul, sum_add_distrib]
  omega

theorem weight_single (hb : b ∈ A) : weight A (Pi.single b 1) links = tally (b :: links b) := by
  funext e
  rw [tally_cons]
  simp [weight, tally, Pi.single_apply, hb, add_comm]

theorem le_weight (e : ι) : base e ≤ weight A base links e := Nat.le_add_right ..

theorem le_weight_of_mem {e f : ι} (hf : f ∈ A) (he : e ∈ links f) :
    base f ≤ weight A base links e := by
  have hterm := single_le_sum (f := fun g => base g * (links g).count e)
    (fun _ _ => Nat.zero_le _) hf
  have hone : 1 ≤ (links f).count e := List.one_le_count_iff.mpr he
  calc base f ≤ base f * (links f).count e := Nat.le_mul_of_pos_right _ hone
    _ ≤ ∑ g ∈ A, base g * (links g).count e := hterm
    _ ≤ weight A base links e := Nat.le_add_left ..

structure Balanced (A : Finset ι) (p : Pool ι) (base : ι → ℕ) (links : ι → List ι) : Prop where
  counts : Counts A p (weight A base links)
  closed : ∀ f ∈ A, ∀ e ∈ links f, e ∈ A

theorem Balanced.acquire (h : Balanced A p base links) (hb : b ∈ A) (hpos : 0 < base b) :
    Balanced A ((b :: links b).foldl (fun p b => p.add b 1) p) (base + Pi.single b 1) links := by
  refine ⟨?_, h.closed⟩
  rw [weight_add, weight_single hb]
  apply h.counts.addAll
  refine List.forall_mem_cons.mpr ?_
  exact ⟨hpos.trans_le (le_weight b), fun e he => hpos.trans_le (le_weight_of_mem hb he)⟩

theorem Balanced.release (h : Balanced A p (base + Pi.single b 1) links) (hb : b ∈ A) (top : ℕ) :
    Balanced A ((links b ++ [b]).foldl (Pool.dec top) p) base links := by
  refine ⟨?_, h.closed⟩
  have hcounts := h.counts
  rw [weight_add, weight_single hb, tally_perm (List.perm_append_singleton b (links b)).symm] at hcounts
  apply hcounts.decAll
  exact List.forall_mem_append.mpr ⟨h.closed b hb, List.forall_mem_singleton.mpr hb⟩

theorem Balanced.link (h : Balanced A p base links) {f t : ι} (hf : f ∈ A) (ht : t ∈ A)
    (hpos : 0 < base t) (hself : (links' f).Perm (t :: links f))
    (hother : ∀ g ∈ A, g ≠ f → links' g = links g) :
    Balanced A (p.add t (base f)) base links' := by
  have hweight : weight A base links' = weight A base links + Pi.single t (base f) := by
    funext e
    have hterm : ∀ g ∈ A, base g * (links' g).count e =
        base g * (links g).count e + if g = f then (Pi.single t (base f) : ι → ℕ) e else 0 := by
      intro g hg
      by_cases hgf : g = f
      · subst hgf
        rw [hself.count_eq, List.count_cons, if_pos rfl, Pi.single_apply, mul_add]
        by_cases het : e = t
        · simp [het]
        · simp [het, Ne.symm het]
      · rw [hother g hg hgf, if_neg hgf, add_zero]
    simp only [weight, Pi.add_apply]
    rw [sum_congr rfl hterm, sum_add_distrib, sum_ite_eq' A f, if_pos hf]
    omega
  refine ⟨?_, ?_⟩
  · rw [hweight]
    exact h.counts.add (hpos.trans_le (le_weight t)) _
  intro g hg e he
  by_cases hgf : g = f
  · subst hgf
    rcases List.mem_cons.mp (hself.mem_iff.mp he) with rfl | he
    · exact ht
    · exact h.closed g hg e he
  · exact h.closed g hg e (hother g hg hgf ▸ he)

theorem Balanced.create (h : Balanced A p base links) (hb : b ∉ A) (hbase : base b = 0)
    {p' : Pool ι} (hcount : p'.count = Function.update p.count b 1) (hfreed : p'.freed = p.freed)
    (hself : links' b = []) (hother : ∀ g ≠ b, links' g = links g) :
    Balanced (insert b A) p' (base + Pi.single b 1) links' := by
  have hlinks : ∀ f ∈ A, links' f = links f := fun f hf => hother f fun hfb => hb (hfb ▸ hf)
  have hsum : ∀ e, ∑ f ∈ A, (base + Pi.single b 1 : ι → ℕ) f * (links' f).count e =
      ∑ f ∈ A, base f * (links f).count e := by
    intro e
    refine sum_congr rfl fun f hf => ?_
    have hfb : f ≠ b := fun hfb => hb (hfb ▸ hf)
    simp [hlinks f hf, hfb]
  have hweight : ∀ e, weight (insert b A) (base + Pi.single b 1) links' e =
      if e = b then 1 else weight A base links e := by
    intro e
    rw [weight, sum_insert hb, hsum, hself]
    by_cases heb : e = b
    · subst heb
      have hzero : ∑ f ∈ A, base f * (links f).count e = 0 := by
        refine sum_eq_zero fun f hf => ?_
        rw [List.count_eq_zero.mpr fun he => hb (h.closed f hf e he), mul_zero]
      simp [hbase, hzero]
    · simp [heb, weight]
  refine ⟨⟨fun e he => ?_, fun e => ?_, hfreed ▸ h.counts.nodup⟩, ?_⟩
  · rw [hweight, hcount]
    rcases mem_insert.mp he with rfl | he
    · simp
    · have heb : e ≠ b := fun heb => hb (heb ▸ he)
      rw [Function.update_of_ne heb, if_neg heb, h.counts.count e he]
  · rw [hweight, hfreed, h.counts.freed]
    by_cases heb : e = b
    · simp [heb, hb]
    · simp [heb]
  intro f hf e he
  rcases mem_insert.mp hf with rfl | hf
  · rw [hself] at he
    cases he
  · rw [hlinks f hf] at he
    exact mem_insert_of_mem (h.closed f hf e he)

/-! ### Safety -/

/-- What an object that is not freed points to does not point elsewhere. -/
def Flat (A : Finset ι) (p : Pool ι) (links : ι → List ι) : Prop :=
  ∀ f ∈ A, f ∉ p.freed → ∀ e ∈ links f, links e = []

omit [DecidableEq ι] in
theorem Flat.mono {p' : Pool ι} (h : Flat A p links) (hsub : p.freed ⊆ p'.freed) : Flat A p' links :=
  fun f hf hlive => h f hf fun hfreed => hlive (hsub hfreed)

section
variable (h : Balanced A p base links)
include h

theorem Balanced.not_freed {e : ι} (he : 0 < base e) : e ∉ p.freed := by
  intro hfreed
  have hzero := ((h.counts.freed e).mp hfreed).2
  have hle : base e ≤ weight A base links e := le_weight e
  omega

theorem Balanced.count_eq_base {e : ι} (he : e ∈ A) (hnone : ∀ f ∈ A, f ∉ p.freed → e ∉ links f) :
    p.count e = base e := by
  rw [h.counts.count e he, weight, sum_eq_zero, add_zero]
  intro f hf
  by_cases hbase : base f = 0
  · rw [hbase, zero_mul]
  · have hlive := h.not_freed (Nat.pos_of_ne_zero hbase)
    rw [List.count_eq_zero.mpr (hnone f hf hlive), mul_zero]

theorem Balanced.no_dangling (hflat : Flat A p links) {e : ι} (he : e ∈ p.freed) :
    base e = 0 ∧ ∀ f ∈ A, f ∉ p.freed → e ∉ links f := by
  have hzero := ((h.counts.freed e).mp he).2
  refine ⟨Nat.eq_zero_of_not_pos fun hpos => h.not_freed hpos he, ?_⟩
  intro f hf hlive hmem
  -- nobody points to `f`, which is therefore referenced itself
  have hcount : p.count f = base f := by
    refine h.count_eq_base hf fun g hg hglive hmem' => ?_
    rw [hflat g hg hglive f hmem'] at hmem
    cases hmem
  have hpos : weight A base links f ≠ 0 := fun hw => hlive ((h.counts.freed f).mpr ⟨hf, hw⟩)
  rw [← h.counts.count f hf, hcount] at hpos
  have hle : base f ≤ weight A base links e := le_weight_of_mem hf hmem
  omega

theorem Balanced.all_freed (hbase : ∀ e ∈ A, base e = 0) :
    ∀ e ∈ A, p.freed.count e = 1 := by
  intro e he
  apply List.count_eq_one_of_mem h.counts.nodup
  refine (h.counts.freed e).mpr ⟨he, ?_⟩
  rw [weight, hbase e he, zero_add]
  exact sum_eq_zero fun f hf => by rw [hbase f hf, zero_mul]

end

end Iwlwifi.RefCount
