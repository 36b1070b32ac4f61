import Iwlwifi.BssOrder
import Iwlwifi.RefCount

/-! # References to BSS entries

When the reference counts of the BSS table are balanced.

* **Counters** (`State.pool`).  The counters and freed entries of the table are a pool of linked
  objects: `bss_ref_get` and `bss_ref_put` raise and lower the counters of an entry and of those it
  points to (`bssRefGet_eq`, `bssRefPut_eq`).
* **References** (`State.base`).  An entry is referenced by the list and by outside holders.
* **Invariant** (`RefOk`).  The counters are balanced, and no entry that is pointed to points to
  another.  `KeepsFlat` is what an update has to meet for this.
* `bss_refs_balanced` is the result; `bss_refs_unbalanced`: with chained links a hidden beacon is
  never freed, and a transmitted BSS is freed too early. -/

namespace Iwlwifi.Cfg80211

open SearchTree RefCount Function Finset

/-! ### Counters -/

def Bss.links (x : Bss) : List ℕ := x.pub.hiddenBeaconBss.toList ++ x.pub.transmittedBss.toList

def State.links (s : State) (b : ℕ) : List ℕ := (s.heap b).links

def State.base (s : State) : ℕ → ℕ := tally s.bssList + s.outside

def State.pool (s : State) : Pool ℕ := ⟨fun b => (s.heap b).refcount, s.freed⟩

/-- What a change of a counter keeps. -/
structure SameEntries (s s' : State) : Prop where
  next : s'.next = s.next
  pub : ∀ b, (s'.heap b).pub = (s.heap b).pub
  hold : ∀ b, (s'.heap b).hold = (s.heap b).hold

variable {s s' : State}

theorem SameEntries.refl (s : State) : SameEntries s s := ⟨rfl, fun _ => rfl, fun _ => rfl⟩

theorem SameEntries.trans {s'' : State} (h : SameEntries s s') (h' : SameEntries s' s'') :
    SameEntries s s'' :=
  ⟨h'.next.trans h.next, fun b => (h'.pub b).trans (h.pub b), fun b => (h'.hold b).trans (h.hold b)⟩

theorem SameEntries.links (h : SameEntries s s') : s'.links = s.links := by
  funext b
  rw [State.links, Bss.links, h.pub]
  rfl

theorem sameEntries_modify (s : State) (b : ℕ) {f : Bss → Bss}
    (hf : ∀ x, (f x).pub = x.pub ∧ (f x).hold = x.hold) : SameEntries s (s.modify b f) :=
  ⟨rfl, proj_modify_same Bss.pub s b fun x => (hf x).1,
    proj_modify_same Bss.hold s b fun x => (hf x).2⟩

theorem pool_modify (s : State) (b : ℕ) (f : Bss → Bss) : (s.modify b f).pool =
    ⟨update s.pool.count b (f (s.heap b)).refcount, s.freed⟩ :=
  Pool.ext (funext (proj_modify Bss.refcount s b f)) rfl

theorem pool_modify_same (s : State) (b : ℕ) {f : Bss → Bss}
    (hf : ∀ x, (f x).refcount = x.refcount) : (s.modify b f).pool = s.pool :=
  Pool.ext (funext (proj_modify_same Bss.refcount s b hf)) rfl

theorem sameEntries_hiddenListLeave (s : State) (b : ℕ) : SameEntries s (s.hiddenListLeave b) := by
  unfold State.hiddenListLeave State.hiddenListDel
  split
  · exact SameEntries.refl s
  · have h : SameEntries s (s.modify b fun x => { x with hiddenList := s.lists }) :=
      sameEntries_modify s b fun _ => ⟨rfl, rfl⟩
    exact ⟨h.next, h.pub, h.hold⟩

theorem pool_hiddenListLeave (s : State) (b : ℕ) : (s.hiddenListLeave b).pool = s.pool := by
  unfold State.hiddenListLeave State.hiddenListDel
  split
  · rfl
  · exact pool_modify_same s b (f := fun x => { x with hiddenList := s.lists }) fun _ => rfl

theorem sameEntries_refInc (s : State) (b : ℕ) : SameEntries s (refInc s b) :=
  sameEntries_modify s b fun _ => ⟨rfl, rfl⟩

theorem pool_refInc (s : State) (b : ℕ) : (refInc s b).pool = s.pool.add b 1 := pool_modify ..

theorem sameEntries_refDec (s : State) (b : ℕ) : SameEntries s (refDec s b) := by
  unfold refDec
  dsimp only
  generalize hs₁ : s.modify b _ = s₁
  have h : SameEntries s s₁ := by
    rw [← hs₁]
    exact sameEntries_modify s b fun _ => ⟨rfl, rfl⟩
  split
  · unfold bssFree
    split
    · exact h
    · have h' := h.trans (sameEntries_hiddenListLeave s₁ b)
      exact ⟨h'.next, h'.pub, h'.hold⟩
  · exact h

theorem pool_bssFree (s : State) {b : ℕ} (hhold : (s.heap b).hold = 0) :
    (bssFree s b).pool = ⟨s.pool.count, s.freed ++ [b]⟩ := by
  have h := pool_hiddenListLeave s b
  unfold bssFree
  rw [if_neg (not_not.mpr hhold)]
  ext x
  · exact congrFun (congrArg Pool.count h) x
  · rfl

theorem pool_refDec (s : State) {b : ℕ} (hhold : (s.heap b).hold = 0) :
    (refDec s b).pool = s.pool.dec (2 ^ 64 - 1) b := by
  unfold refDec Pool.dec
  dsimp only
  have hpool := pool_modify s b fun x =>
    { x with refcount := if x.refcount = 0 then 2 ^ 64 - 1 else x.refcount - 1 }
  split
  next hzero =>
    rw [heap_modify_self] at hzero
    have hzero : (if s.pool.count b = 0 then 2 ^ 64 - 1 else s.pool.count b - 1) = 0 := hzero
    rw [pool_bssFree _ (by rw [heap_modify_self]; exact hhold), hpool, if_pos hzero]
    rfl
  next hzero =>
    rw [heap_modify_self] at hzero
    have hzero : ¬ (if s.pool.count b = 0 then 2 ^ 64 - 1 else s.pool.count b - 1) = 0 := hzero
    rw [hpool, if_neg hzero]
    rfl

theorem foldl_refInc (s : State) (l : List ℕ) : SameEntries s (l.foldl refInc s) ∧
    (l.foldl refInc s).pool = l.foldl (fun p b => p.add b 1) s.pool := by
  induction l generalizing s with
  | nil => exact ⟨SameEntries.refl s, rfl⟩
  | cons b l ih =>
    obtain ⟨hsame, hpool⟩ := ih (refInc s b)
    exact ⟨(sameEntries_refInc s b).trans hsame, by rw [List.foldl_cons, hpool, pool_refInc]; rfl⟩

theorem foldl_refDec (s : State) (l : List ℕ) (hhold : ∀ b, (s.heap b).hold = 0) :
    SameEntries s (l.foldl refDec s) ∧
    (l.foldl refDec s).pool = l.foldl (Pool.dec (2 ^ 64 - 1)) s.pool := by
  induction l generalizing s with
  | nil => exact ⟨SameEntries.refl s, rfl⟩
  | cons b l ih =>
    have hdec := sameEntries_refDec s b
    obtain ⟨hsame, hpool⟩ := ih (refDec s b) fun x => (hdec.hold x).trans (hhold x)
    refine ⟨hdec.trans hsame, ?_⟩
    rw [List.foldl_cons, hpool, pool_refDec s (hhold b), List.foldl_cons]

theorem onPointer_eq_foldl (f : State → ℕ → State) (s : State) (q : Option ℕ) :
    onPointer f s q = q.toList.foldl f s := by
  cases q with
  | none => rfl
  | some b => rfl

theorem sameEntries_onPointer {f : State → ℕ → State} (hf : ∀ s b, SameEntries s (f s b))
    (s : State) (q : Option ℕ) : SameEntries s (onPointer f s q) := by
  cases q with
  | none => exact SameEntries.refl s
  | some b => exact hf s b

theorem bssRefGet_eq (s : State) (b : ℕ) : bssRefGet s b = (b :: s.links b).foldl refInc s := by
  have h₁ := sameEntries_refInc s b
  have h₂ := sameEntries_onPointer sameEntries_refInc (refInc s b)
    ((refInc s b).heap b).pub.hiddenBeaconBss
  unfold bssRefGet
  dsimp only
  rw [h₂.pub, h₁.pub, onPointer_eq_foldl, onPointer_eq_foldl, ← List.foldl_append]
  rfl

theorem bssRefPut_eq (s : State) (b : ℕ) : bssRefPut s b = (s.links b ++ [b]).foldl refDec s := by
  have h := sameEntries_onPointer sameEntries_refDec s (s.heap b).pub.hiddenBeaconBss
  unfold bssRefPut
  dsimp only
  rw [h.pub, onPointer_eq_foldl, onPointer_eq_foldl, List.foldl_append, State.links, Bss.links,
    List.foldl_append]
  rfl

/-- Counters and links are the same. -/
structure SameRefs (s s' : State) : Prop where
  next : s'.next = s.next
  hold : ∀ b, (s'.heap b).hold = (s.heap b).hold
  links : s'.links = s.links
  pool : s'.pool = s.pool

theorem SameRefs.refl (s : State) : SameRefs s s := ⟨rfl, fun _ => rfl, rfl, rfl⟩

theorem SameRefs.trans {s'' : State} (h : SameRefs s s') (h' : SameRefs s' s'') : SameRefs s s'' :=
  ⟨h'.next.trans h.next, fun b => (h'.hold b).trans (h.hold b), h'.links.trans h.links,
    h'.pool.trans h.pool⟩

theorem sameRefs_of_heap (hnext : s'.next = s.next) (hfreed : s'.freed = s.freed)
    (hheap : ∀ b, (s'.heap b).hold = (s.heap b).hold ∧
      (s'.heap b).refcount = (s.heap b).refcount ∧ (s'.heap b).links = (s.heap b).links) :
    SameRefs s s' :=
  ⟨hnext, fun b => (hheap b).1, funext fun b => (hheap b).2.2,
    Pool.ext (funext fun b => (hheap b).2.1) hfreed⟩

theorem sameRefs_modify (s : State) (b : ℕ) {f : Bss → Bss} (hf : ∀ x, (f x).hold = x.hold ∧
    (f x).refcount = x.refcount ∧ (f x).links = x.links) : SameRefs s (s.modify b f) :=
  ⟨rfl, proj_modify_same Bss.hold s b fun x => (hf x).1,
    funext (proj_modify_same Bss.links s b fun x => (hf x).2.2),
    pool_modify_same s b fun x => (hf x).2.1⟩

theorem sameRefs_updateKnownBss (s : State) (known : ℕ) (f : Frame) :
    SameRefs s (updateKnownBss s known f.tmp f.ts).2 := by
  have hprobe : SameRefs s (s.modify known fun x =>
      { x with ts := f.ts, pub := x.pub.updateProberesp f.tmp }) := by
    refine sameRefs_modify s known fun x => ⟨rfl, rfl, ?_⟩
    unfold Bss.links Pub.updateProberesp
    split
    · rfl
    · rfl
  have hcap : ∀ s' : State, SameRefs s' (setCapability s' known f.tmp) := fun s' =>
    sameRefs_modify s' known fun _ => ⟨rfl, rfl, rfl⟩
  have hhidden : ∀ (s' : State) (ies : Ies), SameRefs s' (updateHiddenBsses s' known ies) := by
    intro s' ies
    refine sameRefs_of_heap rfl rfl fun b => ?_
    unfold updateHiddenBsses
    dsimp only
    split
    all_goals exact ⟨rfl, rfl, rfl⟩
  unfold updateKnownBss
  dsimp only
  split
  · exact hprobe.trans (hcap _)
  rename_i ies _
  split
  · exact hprobe
  have hbeacon := sameRefs_modify (s.modify known fun x =>
    { x with ts := f.ts, pub := x.pub.updateProberesp f.tmp }) known
    (f := fun x => { x with pub := x.pub.updateBeacon ies }) fun _ => ⟨rfl, rfl, rfl⟩
  exact hprobe.trans (hbeacon.trans ((hhidden _ ies).trans (hcap _)))

/-! ### Invariant -/

/-- The counters are balanced with the references `base`, and links are not chained. -/
structure RefOk (s : State) (base : ℕ → ℕ) : Prop where
  hold : ∀ b, (s.heap b).hold = 0
  balanced : Balanced (range s.next) s.pool base s.links
  flat : Flat (range s.next) s.pool s.links

variable {base : ℕ → ℕ} {b : ℕ}

theorem RefOk.same (h : RefOk s base) (hs : SameRefs s s') : RefOk s' base := by
  refine ⟨fun b => (hs.hold b).trans (h.hold b), ?_, ?_⟩
  · rw [hs.next, hs.links, hs.pool]
    exact h.balanced
  · rw [hs.next, hs.links, hs.pool]
    exact h.flat

theorem RefOk.get (h : RefOk s base) (hb : b < s.next) (hpos : 0 < base b) :
    RefOk (bssRefGet s b) (base + Pi.single b 1) := by
  obtain ⟨hs, hpool⟩ := foldl_refInc s (b :: s.links b)
  rw [bssRefGet_eq]
  refine ⟨fun b => (hs.hold b).trans (h.hold b), ?_, ?_⟩
  · rw [hs.next, hs.links, hpool]
    exact h.balanced.acquire (mem_range.mpr hb) hpos
  rw [hs.next, hs.links, hpool]
  refine h.flat.mono ?_
  rw [freed_addAll]
  exact List.Subset.refl _

theorem RefOk.put (h : RefOk s (base + Pi.single b 1)) (hb : b < s.next) :
    RefOk (bssRefPut s b) base := by
  obtain ⟨hs, hpool⟩ := foldl_refDec s (s.links b ++ [b]) h.hold
  rw [bssRefPut_eq]
  refine ⟨fun b => (hs.hold b).trans (h.hold b), ?_, ?_⟩
  · rw [hs.next, hs.links, hpool]
    exact h.balanced.release (mem_range.mpr hb) _
  · rw [hs.next, hs.links, hpool]
    exact h.flat.mono (freed_decAll _ _ s.pool)

/-- No entry points to `b`. -/
def State.Unpointed (s : State) (b : ℕ) : Prop := ∀ f < s.next, f ∉ s.freed → b ∉ s.links f

instance (s : State) (b : ℕ) : Decidable (s.Unpointed b) :=
  inferInstanceAs (Decidable (∀ f < s.next, f ∉ s.freed → b ∉ s.links f))

/-- A link from `f` to `t` is made, and `k` is added at `t`. -/
structure Linked (s : State) (f t k : ℕ) (s' : State) : Prop where
  next : s'.next = s.next
  hold : ∀ b, (s'.heap b).hold = (s.heap b).hold
  pool : s'.pool = s.pool.add t k
  self : (s'.links f).Perm (t :: s.links f)
  other : ∀ g ≠ f, s'.links g = s.links g

theorem Linked.mem {f t k g e : ℕ} (hl : Linked s f t k s') (he : e ∈ s'.links g) :
    e = t ∨ e ∈ s.links g := by
  by_cases hgf : g = f
  · subst hgf
    exact List.mem_cons.mp (hl.self.mem_iff.mp he)
  · exact .inr (hl.other g hgf ▸ he)

/-- A link that is not chained with others, when the references to `f` are added at `t`. -/
theorem RefOk.link {f t : ℕ} (h : RefOk s base) (hl : Linked s f t (base f) s') (hf : f < s.next)
    (ht : t < s.next) (hpos : 0 < base t) (hft : f ≠ t) (hend : s.links t = [])
    (hun : s.Unpointed f) : RefOk s' base := by
  refine ⟨fun b => (hl.hold b).trans (h.hold b), ?_, ?_⟩
  · rw [hl.next, hl.pool]
    exact h.balanced.link (mem_range.mpr hf) (mem_range.mpr ht) hpos hl.self
      fun g _ hg => hl.other g hg
  rw [hl.next, hl.pool]
  intro g hg hlive e he
  rcases hl.mem he with rfl | hmem
  · rw [hl.other e (Ne.symm hft), hend]
  · have hef : e ≠ f := fun heq => hun g (mem_range.mp hg) hlive (heq ▸ hmem)
    rw [hl.other e hef, h.flat g hg hlive e hmem]

theorem Linked.unpointed {f t k : ℕ} (hl : Linked s f t k s') (hbt : b ≠ t) (h : s.Unpointed b) :
    s'.Unpointed b := by
  intro g hg hlive hmem
  have hfreed : s'.freed = s.freed := congrArg Pool.freed hl.pool
  rw [hl.next] at hg
  rw [hfreed] at hlive
  exact (hl.mem hmem).elim hbt (h g hg hlive)

/-! ### Links -/

theorem links_modify (s : State) (b : ℕ) (f : Bss → Bss) :
    (s.modify b f).links = update s.links b (f (s.heap b)).links :=
  funext (proj_modify Bss.links s b f)

theorem hold_modify (s : State) (b : ℕ) {f : Bss → Bss} (hf : ∀ x, (f x).hold = x.hold) (x : ℕ) :
    ((s.modify b f).heap x).hold = (s.heap x).hold :=
  proj_modify_same Bss.hold s b hf x

theorem linked_joinHidden (s : State) {new hidden : ℕ} (hne : new ≠ hidden)
    (hnone : (s.heap new).pub.hiddenBeaconBss = none) :
    Linked s new hidden 1 (joinHidden s new hidden) := by
  unfold joinHidden State.hiddenListAdd
  refine ⟨rfl, fun b => ?_, ?_, ?_, fun g hg => ?_⟩
  · rw [hold_modify, refInc, hold_modify, hold_modify, hold_modify]
    all_goals exact fun _ => rfl
  · rw [pool_modify_same, pool_refInc, pool_modify_same, pool_modify_same]
    all_goals exact fun _ => rfl
  · simp [State.links, Bss.links, refInc, heap_modify_of_ne _ _ hne, hnone]
  · rw [links_modify, update_of_ne hg, (sameEntries_refInc _ _).links, links_modify,
      update_of_ne hg, links_modify, update_of_ne hg]

theorem linked_combineBss (s : State) {new ssidlen b : ℕ} (hne : b ≠ new)
    (hc : (s.heap new).pub.combines (s.heap b).pub ssidlen = true) :
    Linked s b new (s.heap b).refcount (combineBss new ssidlen s b) := by
  have hnone : (s.heap b).pub.hiddenBeaconBss = none := by
    simp only [Pub.combines, Bool.decide_and, Bool.and_eq_true, decide_eq_true_eq] at hc
    exact hc.2.2.2.2
  have hleave := sameEntries_hiddenListLeave s b
  have hpool := pool_hiddenListLeave s b
  unfold combineBss State.hiddenListAdd
  rw [if_pos hc]
  have hcount : ((s.hiddenListLeave b).heap b).refcount = (s.heap b).refcount :=
    congrFun (congrArg Pool.count hpool) b
  have hpub := hleave.pub b
  generalize s.hiddenListLeave b = s₁ at hleave hpool hcount hpub
  refine ⟨hleave.next, fun x => ?_, ?_, ?_, fun g hg => ?_⟩
  · rw [hold_modify, hold_modify, hold_modify, hold_modify, hleave.hold]
    all_goals exact fun _ => rfl
  · have hadd : ∀ s₂ : State, s₂.pool = s₁.pool → (s₂.heap b).refcount = (s.heap b).refcount →
        (s₂.modify new fun x => { x with refcount := x.refcount + (s₂.heap b).refcount }).pool =
          s.pool.add new (s.heap b).refcount := by
      intro s₂ hp hb
      rw [pool_modify, ← hpool, ← hp, ← hb]
      rfl
    rw [pool_modify_same, hadd]
    · rw [pool_modify_same, pool_modify_same]
      all_goals exact fun _ => rfl
    · rwa [heap_modify_self, heap_modify_self]
    · exact fun _ => rfl
  · simp [State.links, Bss.links, heap_modify_of_ne _ _ hne, hpub, hnone]
  · rw [links_modify, update_of_ne hg, State.links, proj_modify_same Bss.links,
      heap_modify_of_ne _ _ hg, heap_modify_of_ne _ _ hg, ← hleave.links]
    · rfl
    · exact fun _ => rfl

theorem linked_setTransmitted (s : State) {new t : ℕ} (hne : new ≠ t) (hend : s.links t = [])
    (hnone : (s.heap new).pub.transmittedBss = none) :
    Linked s new t 1 (setTransmitted s new (some t)) := by
  have hlinks : (s.linkTransmitted new t).links = update s.links new
      ((s.heap new).pub.hiddenBeaconBss.toList ++ [t]) := links_modify s new _
  have hget : setTransmitted s new (some t) = refInc (s.linkTransmitted new t) t := by
    rw [setTransmitted, bssRefGet_eq, hlinks, update_of_ne hne.symm, hend]
    rfl
  have hsame := sameEntries_refInc (s.linkTransmitted new t) t
  rw [hget]
  refine ⟨hsame.next, fun b => (hsame.hold b).trans ?_, ?_, ?_, fun g hg => ?_⟩
  · rw [State.linkTransmitted, hold_modify]
    exact fun _ => rfl
  · rw [pool_refInc, State.linkTransmitted, pool_modify_same]
    exact fun _ => rfl
  · have hold : s.links new = (s.heap new).pub.hiddenBeaconBss.toList := by
      rw [State.links, Bss.links, hnone, Option.toList_none, List.append_nil]
    rw [hsame.links, hlinks, update_self, hold]
    exact List.perm_append_singleton t _
  · rw [hsame.links, hlinks, update_of_ne hg]

/-! ### New entries -/

theorem links_allocBss (s : State) (f : Frame) (b : ℕ) :
    (allocBss s f.tmp f.ts).links b = if b = s.next then [] else s.links b := by
  by_cases hb : b = s.next
  · subst hb
    rw [if_pos rfl, State.links, heap_allocBss_self]
    rfl
  · rw [if_neg hb, State.links, heap_allocBss_of_ne s f.tmp f.ts hb]
    rfl

theorem RefOk.allocBss (h : RefOk s base) (hbase : base s.next = 0) (f : Frame) :
    RefOk (allocBss s f.tmp f.ts) (base + Pi.single s.next 1) := by
  have hself : (Cfg80211.allocBss s f.tmp f.ts).links s.next = [] := by simp [links_allocBss]
  have hother : ∀ g ≠ s.next, (Cfg80211.allocBss s f.tmp f.ts).links g = s.links g := by
    intro g hg
    simp [links_allocBss, hg]
  have hrange : range (Cfg80211.allocBss s f.tmp f.ts).next =
      insert s.next (range s.next) := range_add_one
  refine ⟨fun b => ?_, ?_, ?_⟩
  · by_cases hb : b = s.next
    · rw [hb, heap_allocBss_self]
    · rw [heap_allocBss_of_ne s f.tmp f.ts hb, h.hold]
  · rw [hrange]
    refine h.balanced.create (by simp) hbase (funext fun b => ?_) rfl hself hother
    by_cases hb : b = s.next
    · simp [State.pool, hb, heap_allocBss_self]
    · simp [State.pool, hb, heap_allocBss_of_ne s f.tmp f.ts hb]
  rw [hrange]
  intro g hg hlive e he
  rcases mem_insert.mp hg with rfl | hg
  · rw [hself] at he
    cases he
  · rw [hother g (mem_range.mp hg).ne] at he
    have hlt := mem_range.mp (h.balanced.closed g hg e he)
    rw [hother e hlt.ne, h.flat g hg hlive e he]

theorem pub_combineBss (s : State) (new ssidlen b : ℕ) {x : ℕ} (hx : x ≠ b) :
    ((combineBss new ssidlen s b).heap x).pub = (s.heap x).pub := by
  unfold combineBss State.hiddenListAdd
  split
  · rw [heap_modify_of_ne _ _ hx, proj_modify_same Bss.pub, heap_modify_of_ne _ _ hx,
      heap_modify_of_ne _ _ hx, (sameEntries_hiddenListLeave s b).pub]
    exact fun _ => rfl
  · rfl

/-- The loop of `cfg80211_combine_bsses`: entries that nobody points to become members of a group.
-/
theorem RefOk.foldl_combineBss {new ssidlen : ℕ} (l : List ℕ) (h : RefOk s base)
    (hnew : new < s.next) (hpos : 0 < base new) (hend : s.links new = []) (hl : l.Nodup)
    (hnot : new ∉ l) (hlt : ∀ b ∈ l, b < s.next)
    (hun : ∀ b ∈ l, (s.heap new).pub.combines (s.heap b).pub ssidlen = true → s.Unpointed b) :
    RefOk (l.foldl (combineBss new ssidlen) s) base ∧
      (l.foldl (combineBss new ssidlen) s).next = s.next := by
  induction l generalizing s with
  | nil => exact ⟨h, rfl⟩
  | cons b l ih =>
    obtain ⟨hb, hl⟩ := List.nodup_cons.mp hl
    obtain ⟨hnb, hnot⟩ := List.ne_and_not_mem_of_not_mem_cons hnot
    rw [List.foldl_cons]
    by_cases hc : (s.heap new).pub.combines (s.heap b).pub ssidlen = true
    · have hlink := linked_combineBss s (Ne.symm hnb) hc
      have hbun := hun b (.head _) hc
      have hbase : (s.heap b).refcount = base b :=
        h.balanced.count_eq_base (mem_range.mpr (hlt b (.head _)))
          fun f hf hlive => hbun f (mem_range.mp hf) hlive
      rw [hbase] at hlink
      have hok := h.link hlink (hlt b (.head _)) hnew hpos (Ne.symm hnb) hend hbun
      have hrest := ih hok (hlink.next ▸ hnew) (by rw [hlink.other new hnb, hend]) hl hnot
        (fun x hx => hlink.next ▸ hlt x (.tail _ hx)) fun x hx hcx => by
          have hxb : x ≠ b := fun heq => hb (heq ▸ hx)
          have hxn : x ≠ new := fun heq => hnot (heq ▸ hx)
          rw [pub_combineBss s new ssidlen b hnb, pub_combineBss s new ssidlen b hxb] at hcx
          exact hlink.unpointed hxn (hun x (.tail _ hx) hcx)
      exact ⟨hrest.1, hrest.2.trans hlink.next⟩
    · have hskip : combineBss new ssidlen s b = s := if_neg hc
      rw [hskip]
      exact ih h hnew hend hl hnot (fun x hx => hlt x (.tail _ hx))
        fun x hx => hun x (.tail _ hx)

theorem foldl_combineBss_eq_self {new ssidlen : ℕ} (l : List ℕ)
    (hnone : ∀ b ∈ l, (s.heap new).pub.combines (s.heap b).pub ssidlen = false) :
    l.foldl (combineBss new ssidlen) s = s := by
  induction l with
  | nil => rfl
  | cons b l ih =>
    have hskip : combineBss new ssidlen s b = s :=
      if_neg (by rw [hnone b (.head _)]; exact Bool.false_ne_true)
    rw [List.foldl_cons, hskip]
    exact ih fun x hx => hnone x (.tail _ hx)

/-! ### Updates -/

/-- No chained links: the transmitted BSS of the frame and the beacon that a probe response may join
point to no entry, a hidden beacon with a transmitted BSS gets no members, and nobody points to the
members that a hidden beacon gets. -/
@[mk_iff] structure FlatUpdate (s : State) (f : Frame) : Prop where
  transmitted : ∀ t ∈ f.transmittedBss, s.links t = []
  alone : f.transmittedBss.isSome → ∀ n ∈ f.tmp.hiddenSsid, ∀ b ∈ s.bssList,
    f.tmp.combines (s.heap b).pub n = false
  joined : f.presp = true → ∀ h ∈ s.bssList, cmpBss f.tmp (s.heap h).pub .hideZlen = 0 ∨
    cmpBss f.tmp (s.heap h).pub .hideNul = 0 → s.links h = []
  members : ∀ n ∈ f.tmp.hiddenSsid, ∀ b ∈ s.bssList,
    f.tmp.combines (s.heap b).pub n = true → s.Unpointed b

instance (s : State) (f : Frame) : Decidable (FlatUpdate s f) :=
  decidable_of_iff' _ (flatUpdate_iff s f)

def KeepsFlat (s : State) : Act → Prop
  | .update f _ => FlatUpdate s f
  | _ => True

instance (s : State) : ∀ a, Decidable (KeepsFlat s a)
  | .update f _ => inferInstanceAs (Decidable (FlatUpdate s f))
  | .ref _ | .put _ | .unlink _ | .expire _ => .isTrue trivial

/-- The table, the counters and the outside holders fit together. -/
structure RefInv (s : State) : Prop where
  table : TableOk s
  ref : RefOk s s.base
  outside : ∀ e, s.next ≤ e → s.outside e = 0

theorem base_pos_of_mem (hb : b ∈ s.bssList) : 0 < s.base b :=
  Nat.add_pos_left (List.count_pos_iff.mpr hb) _

theorem base_pos_of_outside (hb : 0 < s.outside b) : 0 < s.base b := Nat.add_pos_right _ hb

theorem RefInv.base_next (h : RefInv s) : s.base s.next = 0 := by
  have hlist : s.next ∉ s.bssList := fun hmem => (h.table.alloc _ hmem).false
  simp [State.base, tally, List.count_eq_zero.mpr hlist, h.outside]

theorem RefInv.lt_next (h : RefInv s) (hb : 0 < s.outside b) : b < s.next := by
  by_contra hge
  rw [h.outside b (not_lt.mp hge)] at hb
  exact hb.false

/-- A new entry after the grouping. -/
structure Grouped (s : State) (f : Frame) (s' : State) : Prop where
  ref : RefOk s' (s.base + Pi.single s.next 1)
  next : s'.next = s.next + 1
  /-- what the link to the transmitted BSS needs -/
  link : ∀ t ∈ f.transmittedBss, s'.links t = [] ∧
    (s'.heap s.next).pub.transmittedBss = none ∧ ∀ g < s'.next, s.next ∉ s'.links g

variable {f : Frame}

theorem RefInv.not_pointed (h : RefInv s) {g : ℕ} (hg : g < s.next + 1) :
    s.next ∉ (allocBss s f.tmp f.ts).links g := by
  rw [links_allocBss]
  split
  · exact List.not_mem_nil
  intro hmem
  have hlt : g < s.next := Nat.lt_of_le_of_ne (Nat.lt_succ_iff.mp hg) ‹_›
  have hclosed := h.ref.balanced.closed g (mem_range.mpr hlt) _ hmem
  exact (mem_range.mp hclosed).false

theorem RefInv.grouped_allocBss (h : RefInv s) (hflat : FlatUpdate s f) :
    Grouped s f (allocBss s f.tmp f.ts) := by
  refine ⟨h.ref.allocBss h.base_next f, rfl, fun t htr => ⟨?_, ?_, fun g hg => h.not_pointed hg⟩⟩
  · rw [links_allocBss, hflat.transmitted t htr, ite_self]
  · rw [heap_allocBss_self]

theorem findHidden_some (ht : TableOk s) {tmp : Pub} {hidden : ℕ} (h : findHidden s tmp = some hidden) :
    hidden ∈ s.bssList ∧ (cmpBss tmp (s.heap hidden).pub .hideZlen = 0 ∨
      cmpBss tmp (s.heap hidden).pub .hideNul = 0) := by
  have hor : (rbFindBss s tmp .hideZlen).or (rbFindBss s tmp .hideNul) = some hidden :=
    (Option.filter_eq_some_iff.mp h).1
  rcases Option.or_eq_some_iff.mp hor with hz | ⟨-, hn⟩
  · exact ⟨(ht.rbFindBss_some hz).1, .inl (ht.rbFindBss_some hz).2⟩
  · exact ⟨(ht.rbFindBss_some hn).1, .inr (ht.rbFindBss_some hn).2⟩

theorem transmittedBss_joinHidden (s : State) (new hidden : ℕ) :
    ((joinHidden s new hidden).heap new).pub.transmittedBss = (s.heap new).pub.transmittedBss := by
  unfold joinHidden State.hiddenListAdd
  rw [heap_modify_self]
  rw [(sameEntries_refInc _ _).pub, heap_modify_self, heap_modify_self]

theorem RefInv.grouped_joinHidden (h : RefInv s) (hflat : FlatUpdate s f)
    (hheld : ∀ t ∈ f.transmittedBss, 0 < s.outside t) (hp : f.presp = true) {hidden : ℕ}
    (hfind : findHidden (allocBss s f.tmp f.ts) f.tmp = some hidden) :
    Grouped s f (joinHidden (allocBss s f.tmp f.ts) s.next hidden) := by
  have hg := h.grouped_allocBss hflat
  obtain ⟨hmem, hcmp⟩ := findHidden_some (h.table.same (sameTable_allocBss s f.tmp f.ts)) hfind
  have hlt := h.table.alloc hidden hmem
  rw [heap_allocBss_of_ne s f.tmp f.ts hlt.ne] at hcmp
  have hend : (allocBss s f.tmp f.ts).links hidden = [] := by
    rw [links_allocBss, hflat.joined hp hidden hmem hcmp, ite_self]
  have hlink := linked_joinHidden (allocBss s f.tmp f.ts) hlt.ne'
    (by rw [heap_allocBss_self]; rfl)
  have hbase : (s.base + Pi.single s.next 1 : ℕ → ℕ) s.next = 1 := by simp [h.base_next]
  refine ⟨?_, hlink.next, fun t htr => ?_⟩
  · refine hg.ref.link (by rw [hbase]; exact hlink) (Nat.lt_succ_self _) (Nat.lt_succ_of_lt hlt)
      (Nat.add_pos_left (base_pos_of_mem hmem) _) hlt.ne' hend fun g hg _ => h.not_pointed hg
  obtain ⟨hlinks, htrans, -⟩ := hg.link t htr
  refine ⟨?_, ?_, fun g hg hmem => (hlink.mem hmem).elim hlt.ne' (h.not_pointed hg)⟩
  · rw [hlink.other t (h.lt_next (hheld t htr)).ne, hlinks]
  · rw [transmittedBss_joinHidden, htrans]

theorem RefInv.grouped_combine (h : RefInv s) (hflat : FlatUpdate s f) {n : ℕ}
    (hn : f.tmp.hiddenSsid = some n) :
    Grouped s f (s.bssList.foldl (combineBss s.next n) (allocBss s f.tmp f.ts)) := by
  have hg := h.grouped_allocBss hflat
  have hcombines : ∀ b ∈ s.bssList, ((allocBss s f.tmp f.ts).heap s.next).pub.combines
      ((allocBss s f.tmp f.ts).heap b).pub n = f.tmp.combines (s.heap b).pub n := by
    intro b hb
    rw [heap_allocBss_self, heap_allocBss_of_ne s f.tmp f.ts (h.table.alloc b hb).ne]
    rfl
  cases htr : f.transmittedBss with
  | some t =>
    rw [foldl_combineBss_eq_self]
    · exact hg
    · intro b hb
      rw [hcombines b hb]
      exact hflat.alone (by rw [htr]; rfl) n hn b hb
  | none =>
    have hun : ∀ b ∈ s.bssList, ((allocBss s f.tmp f.ts).heap s.next).pub.combines
        ((allocBss s f.tmp f.ts).heap b).pub n = true →
        (allocBss s f.tmp f.ts).Unpointed b := by
      intro b hb hc g hg hlive
      rw [hcombines b hb] at hc
      rw [links_allocBss]
      split
      · exact List.not_mem_nil
      · have hlt : g < s.next := Nat.lt_of_le_of_ne (Nat.lt_succ_iff.mp hg) ‹_›
        exact hflat.members n hn b hb hc g hlt hlive
    obtain ⟨hok, hnext⟩ := hg.ref.foldl_combineBss s.bssList (Nat.lt_succ_self _) (by simp)
      (by rw [links_allocBss, if_pos rfl]) h.table.nodup
      (fun hmem => (h.table.alloc _ hmem).false)
      (fun b hb => Nat.lt_succ_of_lt (h.table.alloc b hb)) hun
    refine ⟨hok, hnext, fun t ht => ?_⟩
    rw [htr] at ht
    cases ht

theorem RefInv.grouped (h : RefInv s) (hflat : FlatUpdate s f)
    (hheld : ∀ t ∈ f.transmittedBss, 0 < s.outside t) :
    Grouped s f (groupBss (allocBss s f.tmp f.ts) s.next f.tmp).2 := by
  have halloc := h.grouped_allocBss hflat
  unfold groupBss
  split
  next hprobe =>
    have hp : f.presp = true := by
      by_contra hp
      simp [Frame.tmp, hp] at hprobe
    split
    · exact halloc
    next hidden hfind => exact h.grouped_joinHidden hflat hheld hp hfind
  · unfold combineBsses
    split
    · exact halloc
    split
    · exact halloc
    next n hn =>
      rw [heap_allocBss_self] at hn
      exact h.grouped_combine hflat hn

/-! ### Removal -/

section table
variable (rb : Rebalance ℕ) {limit : ℕ}

theorem tally_erase {l : List ℕ} (hb : b ∈ l) : tally l = tally (l.erase b) + Pi.single b 1 := by
  rw [tally_perm (List.perm_cons_erase hb), tally_cons]

/-- `__cfg80211_unlink_bss` gives up the reference of the list; there may be others. -/
theorem RefOk.unlinkBss (extra : ℕ → ℕ) (h : RefOk s (s.base + extra)) (hb : b ∈ s.bssList)
    (hlt : b < s.next) : RefOk (unlinkBss rb s b).2 ((unlinkBss rb s b).2.base + extra) ∧
      SameEntries s (unlinkBss rb s b).2 ∧ (unlinkBss rb s b).2.outside = s.outside := by
  unfold Cfg80211.unlinkBss
  split
  · exact ⟨h, SameEntries.refl s, rfl⟩
  dsimp only
  have hleave := sameEntries_hiddenListLeave s b
  have htable := (SameTable.refl s).hiddenListLeave b
  generalize hs₁ : ({ s.hiddenListLeave b with
      bssList := (s.hiddenListLeave b).bssList.erase b
      bssTree := rb.erase (s.hiddenListLeave b).bssTree b
      bssEntries := (s.hiddenListLeave b).bssEntries - 1 } : State) = s₁
  have hok : RefOk s₁ (tally (s.bssList.erase b) + s.outside + extra + Pi.single b 1) := by
    have hbase : s.base + extra =
        tally (s.bssList.erase b) + s.outside + extra + Pi.single b 1 := by
      rw [State.base, tally_erase hb]
      ac_rfl
    rw [← hbase, ← hs₁]
    exact h.same ⟨hleave.next, hleave.hold, hleave.links, pool_hiddenListLeave s b⟩
  have hnext : s₁.next = s.next := by
    rw [← hs₁]
    exact hleave.next
  have hput := (SameTable.refl s₁).bssRefPut b
  have hbase : (bssRefPut s₁ b).base = tally (s.bssList.erase b) + s.outside := by
    rw [State.base, hput.list, hput.outside, ← hs₁, htable.list, htable.outside]
  rw [hbase]
  refine ⟨hok.put (hnext ▸ hlt), ?_, ?_⟩
  · rw [bssRefPut_eq]
    have hsame := (foldl_refDec s₁ (s₁.links b ++ [b]) hok.hold).1
    rw [← hs₁] at hsame ⊢
    exact hleave.trans ⟨hsame.next, hsame.pub, hsame.hold⟩
  · rw [hput.outside, ← hs₁, htable.outside]

theorem RefInv.unlinkBss (h : RefInv s) (hb : b ∈ s.bssList) : RefInv (unlinkBss rb s b).2 := by
  have hzero : s.base + 0 = s.base := add_zero _
  obtain ⟨hok, hsame, hout⟩ := RefOk.unlinkBss rb 0 (hzero.symm ▸ h.ref) hb
    (h.table.alloc b hb)
  refine ⟨h.table.unlinkBss rb hb, by rwa [add_zero] at hok, fun e he => ?_⟩
  rw [hout]
  exact h.outside e (hsame.next ▸ he)

theorem RefInv.makeRoom (h : RefInv s) (hflat : FlatUpdate s f)
    (hheld : ∀ t ∈ f.transmittedBss, 0 < s.outside t) (limit : ℕ) {room : State}
    (hr : room = (makeRoom rb limit (groupBss (allocBss s f.tmp f.ts) s.next f.tmp).2).2) :
    Grouped { s with bssList := room.bssList } f room ∧ room.outside = s.outside := by
  have hg := h.grouped hflat hheld
  have htable := (sameTable_allocBss s f.tmp f.ts).trans
    (sameTable_groupBss (allocBss s f.tmp f.ts) s.next f.tmp)
  generalize (groupBss (allocBss s f.tmp f.ts) s.next f.tmp).2 = g at hg htable hr
  have hbase : g.base = s.base := by rw [State.base, htable.list, htable.outside, State.base]
  have hkeep : RefOk room (room.base + Pi.single s.next 1) ∧ SameEntries g room ∧
      room.outside = s.outside ∧ ∀ b ∈ room.bssList, b < g.next := by
    rw [hr]
    refine makeRoom_keeps rb (I := fun r => RefOk r (r.base + Pi.single s.next 1) ∧
      SameEntries g r ∧ r.outside = s.outside ∧ ∀ b ∈ r.bssList, b < g.next) ?_ ?_ limit
    · rintro r b ⟨hok, hsame, hout, hlt⟩ hb
      obtain ⟨hok', hsame', hout'⟩ := RefOk.unlinkBss rb _ hok hb (hsame.next ▸ hlt b hb)
      refine ⟨hok', hsame.trans hsame', hout'.trans hout, fun x hx => hlt x ?_⟩
      rcases unlinkBss_list rb r b with hlist | hlist
      · exact hlist ▸ hx
      · exact List.mem_of_mem_erase (hlist ▸ hx)
    · refine ⟨hbase.symm ▸ hg.ref, SameEntries.refl g, htable.outside, fun b hb => ?_⟩
      rw [hg.next]
      exact Nat.lt_succ_of_lt (h.table.alloc b (htable.list ▸ hb))
  obtain ⟨hok, hsame, hout, -⟩ := hkeep
  refine ⟨⟨?_, hsame.next.trans hg.next, fun t htr => ?_⟩, hout⟩
  · rwa [State.base, hout] at hok
  · obtain ⟨hlinks, htrans, hnot⟩ := hg.link t htr
    rw [hsame.links, hsame.pub, hsame.next]
    exact ⟨hlinks, htrans, hnot⟩

theorem Grouped.setTransmitted {r r' : State} (h : Grouped s f r)
    (hlt : ∀ t ∈ f.transmittedBss, t < s.next) (hheld : ∀ t ∈ f.transmittedBss, 0 < s.outside t)
    (hbase : s.base s.next = 0) (hr : setTransmitted r s.next f.transmittedBss = r') :
    RefOk r' (s.base + Pi.single s.next 1) ∧ r'.next = s.next + 1 := by
  subst hr
  cases htr : f.transmittedBss with
  | none => exact ⟨h.ref, h.next⟩
  | some t =>
    obtain ⟨hlinks, htrans, hnot⟩ := h.link t htr
    have htlt := hlt t htr
    have hlink := linked_setTransmitted r htlt.ne' hlinks htrans
    have hone : (s.base + Pi.single s.next 1 : ℕ → ℕ) s.next = 1 := by simp [hbase]
    refine ⟨h.ref.link (by rw [hone]; exact hlink) ?_ ?_ ?_ htlt.ne' hlinks fun g hg _ => hnot g hg,
      hlink.next.trans h.next⟩
    · rw [h.next]
      exact Nat.lt_succ_self _
    · rw [h.next]
      exact Nat.lt_succ_of_lt htlt
    · exact Nat.add_pos_left (base_pos_of_outside (hheld t htr)) _

theorem sameRefs_insertBss (s : State) (b : ℕ) : SameRefs s (insertBss rb s b) := by
  unfold insertBss
  split
  · exact SameRefs.refl s
  · exact ⟨rfl, fun _ => rfl, rfl, rfl⟩

/-! ### Runs -/

theorem outside_setOutside_of_ne (s : State) (n : ℕ) {b e : ℕ} (h : e ≠ b) :
    (s.setOutside b n).outside e = s.outside e := update_of_ne h ..

theorem base_setOutside_succ (s : State) (b : ℕ) :
    (s.setOutside b (s.outside b + 1)).base = s.base + Pi.single b 1 := by
  funext e
  by_cases heb : e = b <;> simp [State.base, State.setOutside, heb, add_assoc]

theorem RefInv.get (h : RefInv s) (hlt : b < s.next) (hpos : 0 < s.base b) :
    RefInv ((bssRefGet s b).handOut (some b)) := by
  have hget := (SameTable.refl s).bssRefGet b
  have hbase : (bssRefGet s b).base = s.base := by rw [State.base, hget.list, hget.outside, State.base]
  refine ⟨(h.table.same hget).setOutside b _, ?_, fun e he => ?_⟩
  · have hok := h.ref.get hlt hpos
    rw [← hbase, ← base_setOutside_succ] at hok
    exact hok.same ⟨rfl, fun _ => rfl, rfl, rfl⟩
  have hlt' := hlt.trans_le hget.next
  rw [State.handOut, onPointer, outside_setOutside_of_ne _ _ (hlt'.trans_le he).ne', hget.outside]
  exact h.outside e (hget.next.trans he)

theorem RefInv.put (h : RefInv s) (hpos : 0 < s.outside b) :
    RefInv ((bssRefPut s b).setOutside b (s.outside b - 1)) := by
  have hput := (SameTable.refl s).bssRefPut b
  have hlt := h.lt_next hpos
  have hbase : ((bssRefPut s b).setOutside b (s.outside b - 1)).base + Pi.single b 1 = s.base := by
    funext e
    by_cases heb : e = b
    · subst heb
      simp only [State.base, State.setOutside, hput.list, Pi.add_apply, update_self,
        Pi.single_eq_same]
      omega
    · simp [State.base, State.setOutside, hput.list, hput.outside, heb]
  refine ⟨(h.table.same hput).setOutside b _, ?_, fun e he => ?_⟩
  · have hok := h.ref
    rw [← hbase] at hok
    exact (hok.put hlt).same ⟨rfl, fun _ => rfl, rfl, rfl⟩
  · rw [outside_setOutside_of_ne _ _ ((hlt.trans_le hput.next).trans_le he).ne', hput.outside]
    exact h.outside e (hput.next.trans he)

theorem Grouped.bssRefPut {r : State} (h : Grouped s f r) (ht : TableOk r)
    (hlist : r.bssList = s.bssList) (hout : r.outside = s.outside)
    (hzero : ∀ e, s.next ≤ e → s.outside e = 0) : RefInv (bssRefPut r s.next) := by
  have hput := (SameTable.refl r).bssRefPut s.next
  refine ⟨ht.same hput, ?_, fun e he => ?_⟩
  · have hbase : (Cfg80211.bssRefPut r s.next).base = s.base := by
      rw [State.base, hput.list, hput.outside, hlist, hout, State.base]
    rw [hbase]
    exact h.ref.put (h.next ▸ Nat.lt_succ_self _)
  · have hnext := h.next
    have hle := hput.next.trans he
    rw [hput.outside, hout]
    exact hzero e (by omega)

theorem RefInv.addBss (h : RefInv s) (limit : ℕ) (hflat : FlatUpdate s f)
    (hheld : ∀ t ∈ f.transmittedBss, 0 < s.outside t) (hfits : Fits s f.tmp)
    (hnone : rbFindBss s f.tmp .regular = none) :
    RefInv ((addBss rb limit s f.tmp f.ts).2.handOut (addBss rb limit s f.tmp f.ts).1) := by
  obtain ⟨htroom, htins, hlist⟩ := h.table.insert_room rb limit hfits hnone rfl
  obtain ⟨hroom, hout⟩ := h.makeRoom rb hflat hheld limit rfl
  rcases addBss_cases rb limit s f.tmp f.ts with heq | heq | heq <;> rw [heq]
  · have htable := (sameTable_allocBss s f.tmp f.ts).trans (sameTable_groupBss _ s.next f.tmp)
    exact (h.grouped hflat hheld).bssRefPut (h.table.same htable) htable.list htable.outside
      h.outside
  · exact hroom.bssRefPut htroom rfl hout h.outside
  generalize (Cfg80211.makeRoom rb limit
    (groupBss (allocBss s f.tmp f.ts) s.next f.tmp).2).2 = room at htroom htins hlist hroom hout
  have hnext : ({ s with bssList := room.bssList } : State).base s.next = 0 := by
    have hnot : s.next ∉ room.bssList := by
      intro hmem
      have hnodup := htins.nodup
      rw [hlist] at hnodup
      exact (List.nodup_append.mp hnodup).2.2 _ hmem _ (.head _) rfl
    simp [State.base, tally, List.count_eq_zero.mpr hnot, h.outside]
  have htrans := sameTable_setTransmitted room s.next f.tmp.transmittedBss
  generalize hs' : setTransmitted room s.next f.tmp.transmittedBss = s' at *
  obtain ⟨hok, hn⟩ := hroom.setTransmitted (fun t ht => h.lt_next (hheld t ht)) hheld hnext hs'
  have hins := sameRefs_insertBss rb s' s.next
  have hinsout : (insertBss rb s' s.next).outside = s.outside := by
    unfold insertBss
    split
    all_goals exact htrans.outside.trans hout
  have hinv : RefInv (insertBss rb s' s.next) := by
    refine ⟨htins, ?_, fun e he => ?_⟩
    · have hbase : (insertBss rb s' s.next).base =
          ({ s with bssList := room.bssList } : State).base + Pi.single s.next 1 := by
        rw [State.base, hlist, hinsout, tally_perm (List.perm_append_singleton _ _), tally_cons,
          State.base]
        ac_rfl
      rw [hbase]
      exact hok.same hins
    · rw [hins.next, hn] at he
      rw [hinsout]
      exact h.outside e (Nat.le_of_succ_le he)
  have hmem : s.next ∈ (insertBss rb s' s.next).bssList := by
    rw [hlist]
    exact List.mem_append_right _ (.head _)
  exact hinv.get (htins.alloc _ hmem) (base_pos_of_mem hmem)

theorem RefInv.bssUpdate (h : RefInv s) (limit : ℕ) {alloc : Bool}
    (hflat : KeepsFlat s (.update f alloc)) (hheld : ∀ t ∈ f.transmittedBss, 0 < s.outside t)
    (hkeep : KeepsLayout s (.update f alloc)) :
    RefInv ((bssUpdate rb limit s f alloc).2.handOut (bssUpdate rb limit s f alloc).1) := by
  unfold Cfg80211.bssUpdate
  cases hfind : rbFindBss s f.tmp .regular with
  | some found =>
    have hmem := (h.table.rbFindBss_some hfind).1
    have hu := knownUpdate s found f
    have hs := sameRefs_updateKnownBss s found f
    have hout : (updateKnownBss s found f.tmp f.ts).2.outside = s.outside := hu.outside
    have hinv : RefInv (updateKnownBss s found f.tmp f.ts).2 := by
      refine ⟨h.table.updateKnownBss hkeep hfind, ?_, fun e he => ?_⟩
      · rw [State.base, hu.list, hout]
        exact h.ref.same hs
      · rw [hout]
        exact h.outside e (hs.next ▸ he)
    dsimp only
    split
    · refine hinv.get (hs.next ▸ h.table.alloc found hmem) (base_pos_of_mem ?_)
      rwa [hu.list]
    · exact hinv
  | none =>
    dsimp only
    split
    · exact h.addBss rb limit hflat hheld hkeep.1 hfind
    · exact h

theorem RefInv.step (h : RefInv s) {a : Act} {o : Option ℕ}
    (hs : step rb limit s a = some (o, s')) (hkeep : KeepsLayout s a) (hflat : KeepsFlat s a) :
    RefInv s' := by
  cases a with
  | update f alloc =>
    simp only [Cfg80211.step] at hs
    split at hs <;> cases hs
    next hheld =>
      refine h.bssUpdate rb limit hflat (fun t ht => ?_) hkeep
      rw [Option.mem_def.mp ht] at hheld
      simpa using hheld
  | ref b =>
    simp only [Cfg80211.step] at hs
    split at hs
    next hb =>
      have hget := (SameTable.refl s).bssRefGet b
      cases hs
      rw [← hget.outside]
      rcases hb with hb | hb
      · exact h.get (h.table.alloc b hb) (base_pos_of_mem hb)
      · exact h.get (h.lt_next hb) (base_pos_of_outside hb)
    · cases hs
  | put b =>
    simp only [Cfg80211.step] at hs
    split at hs <;> cases hs
    next hb => exact h.put hb
  | unlink b =>
    simp only [Cfg80211.step] at hs
    split at hs <;> cases hs
    next hb => exact h.unlinkBss rb hb
  | expire time =>
    cases hs
    exact bssExpire_keeps rb (fun _ _ h hb => RefInv.unlinkBss rb h hb) h h.table.nodup time

theorem refInv_initial : RefInv initial := by
  refine ⟨tableOk_initial, ⟨fun _ => rfl, ⟨⟨?_, ?_, List.nodup_nil⟩, ?_⟩, ?_⟩, fun _ _ => rfl⟩
  · simp [initial]
  · simp [initial, State.pool]
  · simp [initial]
  · simp [initial, Flat]

/-- What is required of the references in a state. -/
structure RefsBalanced (s : State) : Prop where
  /-- a freed entry is not in the list, nobody outside has it, and no other entry points to it -/
  safe : ∀ e ∈ s.freed, e ∉ s.bssList ∧ s.outside e = 0 ∧
    ∀ b < s.next, b ∉ s.freed → (s.heap b).pub.hiddenBeaconBss ≠ some e ∧
      (s.heap b).pub.transmittedBss ≠ some e
  /-- without references every entry has been freed once -/
  complete : s.bssList = [] → (∀ e < s.next, s.outside e = 0) → ∀ e < s.next, s.freed.count e = 1
  /-- no entry is freed twice -/
  nodup : s.freed.Nodup

theorem RefInv.refsBalanced (h : RefInv s) : RefsBalanced s where
  safe := by
    intro e he
    obtain ⟨hbase, hnot⟩ := h.ref.balanced.no_dangling h.ref.flat he
    refine ⟨fun hmem => ?_, Nat.eq_zero_of_add_eq_zero_left hbase, fun b hb hlive => ?_⟩
    · exact (base_pos_of_mem hmem).ne' hbase
    · have hlinks := hnot b (mem_range.mpr hb) hlive
      simp only [State.links, Bss.links, List.mem_append, Option.mem_toList, not_or] at hlinks
      exact hlinks
  complete := by
    intro hlist hout e he
    refine h.ref.balanced.all_freed (fun x hx => ?_) e (mem_range.mpr he)
    simp [State.base, hlist, hout x (mem_range.mp hx), tally]
  nodup := h.ref.balanced.counts.nodup

/-- **References.**  Without chained links no entry is freed while it is in the list, held or
pointed to, and when all entries are unlinked and all references put, every entry has been freed
once. -/
theorem bss_refs_balanced {ls : List (Label State Act (Option ℕ))}
    (hrun : Run (step rb limit) initial ls s) (hkeep : ∀ l ∈ ls, KeepsLayout l.pre l.act)
    (hflat : ∀ l ∈ ls, KeepsFlat l.pre l.act) : RefsBalanced s := by
  have hinv := hrun.induct (I := RefInv)
    (C := fun l => KeepsLayout l.pre l.act ∧ KeepsFlat l.pre l.act)
    (fun _ _ _ _ hs hC h => h.step rb hs hC.1 hC.2) (fun l hl => ⟨hkeep l hl, hflat l hl⟩)
    refInv_initial
  exact hinv.1.refsBalanced

end table

def proberesp (addr bssid : ℕ) (ies : List UInt8) : Frame :=
  { beacon addr bssid 1 ies with presp := true }

/-- A frame of a BSS in the Multiple-BSSID set of the entry `t`. -/
def Frame.nontransmitted (f : Frame) (t : ℕ) : Frame := { f with transmittedBss := some t }

/-- A hidden group and a BSS with a transmitted BSS are made and removed. -/
def groupAndSet : List Act :=
  [.update (beacon 0 1 1 (ssidElem [])) true, .update (proberesp 1 1 (ssidElem [115])) true,
    .update (beacon 2 2 1 (ssidElem [116])) true,
    .update ((beacon 3 3 1 (ssidElem [117])).nontransmitted 2) true,
    .put 0, .unlink 1, .put 2, .unlink 2, .put 3, .put 1, .unlink 0, .unlink 3]

theorem bss_refs_balanced_group : ∃ ls s,
    execute (step (unbalanced ℕ) 1000) initial groupAndSet = some (ls, s) ∧
    (∀ l ∈ ls, KeepsLayout l.pre l.act) ∧ (∀ l ∈ ls, KeepsFlat l.pre l.act) ∧
    s.next = 4 ∧ s.freed = [1, 0, 2, 3] ∧ RefsBalanced s := by
  refine exists_execute rfl fun hrun =>
    ⟨by decide +kernel, by decide +kernel, by decide +kernel, by decide +kernel, ?_⟩
  exact bss_refs_balanced (unbalanced ℕ) hrun (by decide +kernel) (by decide +kernel)

/-- The probe response 1 is a member of the group of the hidden beacon 0 and the transmitted BSS of
2: the link from 2 to 1 counts for 0. -/
def leakedBeacon : List Act :=
  [.update (beacon 0 1 1 (ssidElem [])) true, .update (proberesp 1 1 (ssidElem [115])) true,
    .update ((beacon 2 3 1 (ssidElem [117])).nontransmitted 1) true,
    .put 0, .put 1, .put 2, .unlink 2, .unlink 1, .unlink 0]

/-- The hidden beacon 1 has the transmitted BSS 0 and the member 2, whose references count for 1,
but not for 0. -/
def danglingTransmitted : List Act :=
  [.update (beacon 0 2 1 (ssidElem [116])) true,
    .update ((beacon 1 1 1 (ssidElem [])).nontransmitted 0) true,
    .update (proberesp 2 1 (ssidElem [115])) true,
    .put 0, .put 1, .unlink 2, .unlink 1, .unlink 0]

theorem bss_refs_unbalanced :
    (∃ ls s, execute (step (unbalanced ℕ) 1000) initial leakedBeacon = some (ls, s) ∧
      s.bssList = [] ∧ (∀ e < s.next, s.outside e = 0) ∧ s.next = 3 ∧ s.freed = [2, 1] ∧
      ¬ RefsBalanced s) ∧
    ∃ ls s, execute (step (unbalanced ℕ) 1000) initial danglingTransmitted = some (ls, s) ∧
      s.freed = [0] ∧ (s.heap 1).pub.transmittedBss = some 0 ∧ ¬ RefsBalanced s := by
  refine ⟨⟨_, _, rfl, by decide +kernel, by decide +kernel, by decide +kernel, by decide +kernel,
    fun h => ?_⟩, ⟨_, _, rfl, by decide +kernel, by decide +kernel, fun h => ?_⟩⟩
  · have hfreed := h.complete (by decide +kernel) (by decide +kernel) 0 (by decide +kernel)
    revert hfreed
    decide +kernel
  · have hsafe := (h.safe 0 (by decide +kernel)).2.2 1 (by decide +kernel) (by decide +kernel)
    revert hsafe
    decide +kernel

end Iwlwifi.Cfg80211
