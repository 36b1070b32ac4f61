import Iwlwifi.BssTable
import Iwlwifi.Compare

/-! # Order of the BSS table

When `cmp_bss` is an order, and what follows for the search tree.

* **Keys** (`key`).  For a fixed layout, mesh or not, the comparison is that of lists of numbers in
  lexicographic order (`leads_cmpBss`).  Between layouts it falls back to the address and is not
  transitive.
* **Invariant** (`TableOk`).  List, tree and counter describe the same entries, those on one channel
  have one layout, and the tree is sorted by the keys.  `KeepsLayout` is what an update has to
  meet for this.
* `bss_table_ordered`: in a run of such updates, references, removals and expiry the tree is
  a search tree; `bss_table_unordered`: three frames after which it is not. -/

namespace Iwlwifi.Cfg80211

open Tlv SearchTree List

/-! ### Keys -/

/-- Length, the longer one first, and contents. -/
def dataKey (l : List UInt8) : List ℤ := -(l.length : ℤ) :: l.map fun x => (x.toNat : ℤ)

theorem leads_memcmp {a b : List UInt8} (h : a.length = b.length) :
    Leads (memcmp a b) (a.map fun x => (x.toNat : ℤ)) (b.map fun x => (x.toNat : ℤ)) := by
  induction a generalizing b with
  | nil =>
    have hb : b = [] := length_eq_zero_iff.mp h.symm
    subst hb
    exact leads_nil
  | cons u a ih =>
    cases b with
    | nil => simp at h
    | cons v b =>
      have hlead := (leads_sub u.toNat v.toNat).and_then (ih (Nat.succ_injective h))
      have hmem : memcmp (u :: a) (v :: b) =
          if (u.toNat : ℤ) - v.toNat ≠ 0 then (u.toNat : ℤ) - v.toNat else memcmp a b := by
        rw [memcmp]
        by_cases huv : u = v
        · simp [huv]
        · have hne : u.toNat ≠ v.toNat := fun h => huv (UInt8.toNat_inj.mp h)
          rw [if_neg huv, if_pos (by omega)]
      rwa [hmem]

theorem leads_cmpData (a b : List UInt8) : Leads (cmpData a b) (dataKey a) (dataKey b) := by
  have hlen := leads_sub (-(a.length : ℤ)) (-(b.length : ℤ))
  have hsub : -(a.length : ℤ) - -(b.length : ℤ) = (b.length : ℤ) - a.length := by omega
  rw [hsub] at hlen
  by_cases h : a.length = b.length
  · rw [cmpData, if_neg (not_not.mpr h)]
    exact hlen.append_of_eq (by omega) (leads_memcmp h)
  · rw [cmpData, if_pos h]
    exact hlen.append_of_ne (by omega) _ _

/-- Missing, or present and then by length and contents. -/
def ssidKey : Option (List UInt8) → List ℤ
  | none => [0]
  | some l => 1 :: dataKey l

theorem leads_cmpSsid (a b : Option (List UInt8)) :
    Leads (cmpSsid a b .regular) (ssidKey a) (ssidKey b) := by
  cases a with
  | none =>
    cases b with
    | none => exact leads_sub 0 0
    | some b => exact (leads_sub 0 1).append_of_ne (by decide) [] (dataKey b)
  | some a =>
    cases b with
    | none => exact (leads_sub 1 0).append_of_ne (by decide) (dataKey a) []
    | some b => exact (leads_sub 1 1).append_of_eq rfl (leads_cmpData a b)

def Pub.meshKey (a : Pub) : Option (List ℤ) :=
  match a.meshId, a.ies.find eidMeshConfig with
  | some id, some config => some (dataKey id ++ dataKey config)
  | _, _ => none

/-- The BSS is compared by its mesh identifier and configuration, with others of this kind. -/
def Pub.mesh (a : Pub) : Bool := a.meshKey.isSome

def Pub.key (a : Pub) : List ℤ :=
  -(a.channel : ℤ) ::
    match a.meshKey with
    | some k => k
    | none => (a.bssid : ℤ) :: ssidKey (a.ies.find eidSsid)

def SameLayout (a b : Pub) : Prop := a.channel = b.channel → a.mesh = b.mesh

instance (a b : Pub) : Decidable (SameLayout a b) := inferInstanceAs (Decidable (_ → _))

theorem leads_cmpBssid (a b : Pub) : Leads (cmpBssid a b .regular)
    ((a.bssid : ℤ) :: ssidKey (a.ies.find eidSsid))
    ((b.bssid : ℤ) :: ssidKey (b.ies.find eidSsid)) := by
  have h := leads_sub a.bssid b.bssid
  rw [cmpBssid]
  by_cases hne : a.bssid = b.bssid
  · rw [if_neg (not_not.mpr hne)]
    exact h.append_of_eq (by omega) (leads_cmpSsid _ _)
  · rw [if_pos hne]
    exact h.append_of_ne (by omega) _ _

theorem Pub.meshKey_cases (a : Pub) :
    (a.mesh = false ∧ a.meshKey = none) ∨
    ∃ id config, a.mesh = true ∧ a.meshId = some id ∧ a.ies.find eidMeshConfig = some config ∧
      a.meshKey = some (dataKey id ++ dataKey config) := by
  unfold Pub.mesh Pub.meshKey
  cases hid : a.meshId with
  | none => exact .inl ⟨rfl, rfl⟩
  | some id =>
    cases hconfig : a.ies.find eidMeshConfig with
    | none => exact .inl ⟨rfl, rfl⟩
    | some config => exact .inr ⟨id, config, rfl, rfl, rfl, rfl⟩

theorem cmpBss_of_not_mesh {a b : Pub} (hc : a.channel = b.channel)
    (h : a.mesh = false ∨ b.mesh = false) (mode : CmpMode) : cmpBss a b mode = cmpBssid a b mode := by
  rw [cmpBss, if_neg (not_not.mpr hc)]
  split
  · simp_all [Pub.mesh, Pub.meshKey]
  · rfl

/-- **Comparison.**  `cmp_bss` compares the keys of BSSs with the same layout. -/
theorem leads_cmpBss {a b : Pub} (h : SameLayout a b) : Leads (cmpBss a b .regular) a.key b.key := by
  have hchannel := leads_sub (-(a.channel : ℤ)) (-(b.channel : ℤ))
  have hsub : -(a.channel : ℤ) - -(b.channel : ℤ) = (b.channel : ℤ) - a.channel := by omega
  rw [hsub] at hchannel
  by_cases hc : a.channel = b.channel
  · have hm := h hc
    refine Leads.append_of_eq hchannel (by omega) ?_
    rcases a.meshKey_cases with ⟨hma, hka⟩ | ⟨id, config, hma, hid, hconfig, hka⟩
    · rcases b.meshKey_cases with ⟨-, hkb⟩ | ⟨_, _, hmb, -⟩
      · rw [cmpBss_of_not_mesh hc (.inl hma), hka, hkb]
        exact leads_cmpBssid a b
      · rw [hma, hmb] at hm
        cases hm
    rcases b.meshKey_cases with ⟨hmb, -⟩ | ⟨id', config', -, hid', hconfig', hkb⟩
    · rw [hma, hmb] at hm
      cases hm
    · rw [cmpBss, if_neg (not_not.mpr hc), hid, hid', hconfig, hconfig', hka, hkb]
      exact (leads_cmpData id id').and_then (leads_cmpData config config')
  · rw [cmpBss, if_pos hc]
    exact hchannel.append_of_ne (by omega) _ _

/-! ### What keeps the keys -/

/-- The properties that are compared are the same. -/
structure SamePub (a a' : Pub) : Prop where
  channel : a'.channel = a.channel
  bssid : a'.bssid = a.bssid
  capability : a'.capability = a.capability
  ies : a'.ies = a.ies

theorem SamePub.refl (a : Pub) : SamePub a a := ⟨rfl, rfl, rfl, rfl⟩

theorem SamePub.trans {a b c : Pub} (h : SamePub a b) (h' : SamePub b c) : SamePub a c :=
  ⟨h'.channel.trans h.channel, h'.bssid.trans h.bssid, h'.capability.trans h.capability,
    h'.ies.trans h.ies⟩

theorem SamePub.meshKey {a a' : Pub} (h : SamePub a a') : a'.meshKey = a.meshKey := by
  simp only [Pub.meshKey, Pub.meshId, h.capability, h.ies]

theorem SamePub.key {a a' : Pub} (h : SamePub a a') : a'.key = a.key := by
  simp only [Pub.key, h.meshKey, h.channel, h.bssid, h.ies]

/-- Key, channel and layout are the same. -/
structure SameKey (a a' : Pub) : Prop where
  key : a'.key = a.key
  channel : a'.channel = a.channel
  mesh : a'.mesh = a.mesh

theorem SamePub.sameKey {a a' : Pub} (h : SamePub a a') : SameKey a a' :=
  ⟨h.key, h.channel, by simp only [Pub.mesh, h.meshKey]⟩

/-- The entries keep the properties that are compared. -/
structure SameHeap (s s' : State) : Prop where
  next : s.next ≤ s'.next
  pub : ∀ b < s.next, SamePub (s.heap b).pub (s'.heap b).pub

/-- And list, tree, counter and the references of outside holders are the same. -/
structure SameTable (s s' : State) : Prop extends SameHeap s s' where
  list : s'.bssList = s.bssList
  tree : s'.bssTree = s.bssTree
  entries : s'.bssEntries = s.bssEntries
  outside : s'.outside = s.outside

theorem SameHeap.trans {s s' s'' : State} (h : SameHeap s s') (h' : SameHeap s' s'') :
    SameHeap s s'' :=
  ⟨h.next.trans h'.next, fun b hb => (h.pub b hb).trans (h'.pub b (hb.trans_le h.next))⟩

theorem SameTable.refl (s : State) : SameTable s s :=
  ⟨⟨le_rfl, fun _ _ => SamePub.refl _⟩, rfl, rfl, rfl, rfl⟩

theorem SameTable.trans {s s' s'' : State} (h : SameTable s s') (h' : SameTable s' s'') :
    SameTable s s'' :=
  ⟨h.toSameHeap.trans h'.toSameHeap, h'.list.trans h.list, h'.tree.trans h.tree,
    h'.entries.trans h.entries, h'.outside.trans h.outside⟩

variable {s s' : State}

section
variable (h : SameTable s s')
include h

variable (b : ℕ)

theorem SameTable.modify {f : Bss → Bss} (hf : ∀ x, SamePub x.pub (f x).pub) :
    SameTable s (s'.modify b f) := by
  refine h.trans ⟨⟨le_rfl, fun x _ => ?_⟩, rfl, rfl, rfl, rfl⟩
  by_cases hx : x = b
  · subst hx
    rw [heap_modify_self]
    exact hf _
  · rw [heap_modify_of_ne s' f hx]
    exact SamePub.refl _

theorem SameTable.hiddenListDel : SameTable s (s'.hiddenListDel b) := by
  have h : SameTable s (s'.modify b fun x => { x with hiddenList := s'.lists }) :=
    h.modify b fun _ => ⟨rfl, rfl, rfl, rfl⟩
  exact ⟨⟨h.next, h.pub⟩, h.list, h.tree, h.entries, h.outside⟩

theorem SameTable.hiddenListLeave : SameTable s (s'.hiddenListLeave b) := by
  unfold State.hiddenListLeave
  split
  · exact h
  · exact h.hiddenListDel b

theorem SameTable.bssFree : SameTable s (bssFree s' b) := by
  unfold Cfg80211.bssFree
  split
  · exact h
  · have h := h.hiddenListLeave b
    exact ⟨⟨h.next, h.pub⟩, h.list, h.tree, h.entries, h.outside⟩

theorem SameTable.refInc : SameTable s (refInc s' b) :=
  h.modify b fun _ => SamePub.refl _

theorem SameTable.refDec : SameTable s (refDec s' b) := by
  unfold Cfg80211.refDec
  dsimp only
  split
  · apply SameTable.bssFree
    exact h.modify b fun _ => ⟨rfl, rfl, rfl, rfl⟩
  · exact h.modify b fun _ => ⟨rfl, rfl, rfl, rfl⟩

theorem SameTable.onPointer {f : State → ℕ → State}
    (hf : ∀ s' b, SameTable s s' → SameTable s (f s' b)) (p : Option ℕ) :
    SameTable s (onPointer f s' p) := by
  cases p with
  | none => exact h
  | some b => exact hf s' b h

theorem SameTable.bssRefGet : SameTable s (bssRefGet s' b) :=
  ((h.refInc b).onPointer (fun _ b h => h.refInc b) _).onPointer (fun _ b h => h.refInc b) _

theorem SameTable.bssRefPut : SameTable s (bssRefPut s' b) :=
  ((h.onPointer (fun _ b h => h.refDec b) _).onPointer (fun _ b h => h.refDec b) _).refDec b

theorem SameTable.joinHidden (new hidden : ℕ) :
    SameTable s (joinHidden s' new hidden) := by
  unfold Cfg80211.joinHidden State.hiddenListAdd
  dsimp only
  apply SameTable.modify
  · apply SameTable.refInc
    apply SameTable.modify
    · exact h.modify new fun _ => ⟨rfl, rfl, rfl, rfl⟩
    · exact fun _ => ⟨rfl, rfl, rfl, rfl⟩
  · exact fun _ => ⟨rfl, rfl, rfl, rfl⟩

theorem SameTable.combineBss (new ssidlen b : ℕ) :
    SameTable s (combineBss new ssidlen s' b) := by
  unfold Cfg80211.combineBss State.hiddenListAdd
  split
  · dsimp only
    have hleave := h.hiddenListLeave b
    generalize s'.hiddenListLeave b = s₁ at hleave ⊢
    apply SameTable.modify
    · apply SameTable.modify
      · apply SameTable.modify
        · exact hleave.modify b fun _ => ⟨rfl, rfl, rfl, rfl⟩
        · exact fun _ => ⟨rfl, rfl, rfl, rfl⟩
      · exact fun _ => ⟨rfl, rfl, rfl, rfl⟩
    · exact fun _ => ⟨rfl, rfl, rfl, rfl⟩
  · exact h

end

theorem sameTable_groupBss (s : State) (new : ℕ) (tmp : Pub) :
    SameTable s (groupBss s new tmp).2 := by
  unfold groupBss
  split
  · split
    · exact SameTable.refl s
    · exact (SameTable.refl s).joinHidden new _
  unfold combineBsses
  split
  · exact SameTable.refl s
  · split
    · exact SameTable.refl s
    · exact List.foldlRecOn s.bssList _ (SameTable.refl s) fun s' h b _ => h.combineBss new _ b

theorem sameTable_setTransmitted (s : State) (new : ℕ) (transmitted : Option ℕ) :
    SameTable s (setTransmitted s new transmitted) := by
  cases transmitted with
  | none => exact SameTable.refl s
  | some t =>
    apply SameTable.bssRefGet
    exact (SameTable.refl s).modify new fun _ => ⟨rfl, rfl, rfl, rfl⟩

/-! ### Invariant -/

def State.key (s : State) (b : ℕ) : List ℤ := (s.heap b).pub.key

/-- List, tree and counter describe the same entries, and the tree is sorted. -/
structure TableOk (s : State) : Prop where
  alloc : ∀ b ∈ s.bssList, b < s.next
  nodup : s.bssList.Nodup
  perm : s.bssTree.toList.Perm s.bssList
  entries : s.bssEntries = s.bssList.length
  layout : ∀ a ∈ s.bssList, ∀ b ∈ s.bssList, SameLayout (s.heap a).pub (s.heap b).pub
  sorted : Sorted s.key s.bssTree.toList

theorem TableOk.frame (h : TableOk s) (hlist : s'.bssList = s.bssList)
    (htree : s'.bssTree = s.bssTree) (hentries : s'.bssEntries = s.bssEntries)
    (hnext : s.next ≤ s'.next)
    (hkey : ∀ b ∈ s.bssList, SameKey (s.heap b).pub (s'.heap b).pub) : TableOk s' where
  alloc := fun b hb => (h.alloc b (hlist ▸ hb)).trans_le hnext
  nodup := hlist ▸ h.nodup
  perm := by rw [hlist, htree]; exact h.perm
  entries := by rw [hlist, hentries]; exact h.entries
  layout := by
    rw [hlist]
    intro a ha b hb hc
    rw [(hkey a ha).mesh, (hkey b hb).mesh]
    rw [(hkey a ha).channel, (hkey b hb).channel] at hc
    exact h.layout a ha b hb hc
  sorted := by
    rw [htree]
    refine List.Pairwise.imp_of_mem ?_ h.sorted
    intro a b ha hb hlt
    rwa [State.key, State.key, (hkey a (h.perm.mem_iff.mp ha)).key, (hkey b (h.perm.mem_iff.mp hb)).key]

theorem TableOk.same (h : TableOk s) (hs : SameTable s s') : TableOk s' :=
  h.frame hs.list hs.tree hs.entries hs.next fun b hb => (hs.pub b (h.alloc b hb)).sameKey

section table
variable (rb : Rebalance ℕ)

/-! ### Removal -/

theorem TableOk.erase (h : TableOk s) {b : ℕ} (hb : b ∈ s.bssList) :
    TableOk { s with
      bssList := s.bssList.erase b
      bssTree := rb.erase s.bssTree b
      bssEntries := s.bssEntries - 1 } where
  alloc := fun x hx => h.alloc x (mem_of_mem_erase hx)
  nodup := h.nodup.erase b
  perm := by
    simp only [rb.toList_erase]
    exact h.perm.erase b
  entries := by
    simp only [length_erase_of_mem hb, h.entries]
  layout := fun x hx y hy => h.layout x (mem_of_mem_erase hx) y (mem_of_mem_erase hy)
  sorted := by
    simp only [rb.toList_erase]
    exact List.Pairwise.sublist erase_sublist h.sorted

theorem unlinkBss_cases (s : State) (b : ℕ) :
    unlinkBss rb s b = (false, s) ∨
    ∃ s₁, SameTable s s₁ ∧ (unlinkBss rb s b).1 = true ∧
      SameTable { s₁ with
        bssList := s₁.bssList.erase b
        bssTree := rb.erase s₁.bssTree b
        bssEntries := s₁.bssEntries - 1 } (unlinkBss rb s b).2 := by
  unfold unlinkBss
  split
  · exact .inl rfl
  · exact .inr ⟨_, (SameTable.refl s).hiddenListLeave b, rfl, (SameTable.refl _).bssRefPut b⟩

theorem sameHeap_unlinkBss (s : State) (b : ℕ) : SameHeap s (unlinkBss rb s b).2 := by
  rcases unlinkBss_cases rb s b with h | ⟨s₁, hs, -, h⟩
  · rw [h]
    exact (SameTable.refl s).toSameHeap
  · exact hs.toSameHeap.trans ⟨h.next, h.pub⟩

theorem unlinkBss_list (s : State) (b : ℕ) :
    (unlinkBss rb s b).2.bssList = s.bssList ∨ (unlinkBss rb s b).2.bssList = s.bssList.erase b := by
  rcases unlinkBss_cases rb s b with h | ⟨s₁, hs, -, h⟩
  · rw [h]
    exact .inl rfl
  · right
    rw [h.list, hs.list]

theorem TableOk.unlinkBss (h : TableOk s) {b : ℕ} (hb : b ∈ s.bssList) :
    TableOk (unlinkBss rb s b).2 := by
  rcases unlinkBss_cases rb s b with heq | ⟨s₁, hs, -, hput⟩
  · rwa [heq]
  · exact ((h.same hs).erase rb (by rwa [hs.list])).same hput

section
variable {I : State → Prop} (hI : ∀ s b, I s → b ∈ s.bssList → I (unlinkBss rb s b).2)
include hI

theorem foldl_unlinkBss {f : State → ℕ → State}
    (hf : ∀ s b, f s b = s ∨ f s b = (unlinkBss rb s b).2) (l : List ℕ) (h : I s) (hl : l.Nodup)
    (hsub : ∀ b ∈ l, b ∈ s.bssList) : I (l.foldl f s) := by
  induction l generalizing s with
  | nil => exact h
  | cons b l ih =>
    obtain ⟨hb, hl⟩ := nodup_cons.mp hl
    rw [foldl_cons]
    rcases hf s b with heq | heq
    · rw [heq]
      exact ih h hl fun x hx => hsub x (.tail _ hx)
    rw [heq]
    apply ih (hI s b h (hsub b (.head _))) hl
    intro x hx
    have hx' := hsub x (.tail _ hx)
    rcases unlinkBss_list rb s b with hlist | hlist
    · rwa [hlist]
    · rw [hlist]
      have hne : x ≠ b := fun heq => hb (heq ▸ hx)
      exact (mem_erase_of_ne hne).mpr hx'

theorem bssExpire_keeps (h : I s) (hnodup : s.bssList.Nodup) (time : ℕ) :
    I (bssExpire rb s time) := by
  refine foldl_unlinkBss rb hI (fun s b => ?_) s.bssList h hnodup fun _ hb => hb
  split
  · exact .inl rfl
  · split
    · exact .inl rfl
    · exact .inr rfl

end

theorem oldestBss_mem {oldest : ℕ} (h : oldestBss s = some oldest) : oldest ∈ s.bssList := by
  have hall : ∀ x ∈ oldestBss s, x ∈ s.bssList := by
    refine List.foldlRecOn (motive := fun o : Option ℕ => ∀ x ∈ o, x ∈ s.bssList) s.bssList _
      (fun _ hx => by cases hx) ?_
    intro oldest hold b hb
    split
    · exact hold
    split
    · exact hold
    · split
      · exact hold
      · simpa using hb
  exact hall oldest h

theorem makeRoom_keeps {I : State → Prop}
    (hI : ∀ s b, I s → b ∈ s.bssList → I (unlinkBss rb s b).2) (h : I s) (limit : ℕ) :
    I (makeRoom rb limit s).2 := by
  unfold makeRoom
  split
  · unfold bssExpireOldest
    split
    · exact h
    next oldest hold => exact hI s oldest h (oldestBss_mem hold)
  · exact h

theorem makeRoom_sub (limit : ℕ) (s : State) :
    SameHeap s (makeRoom rb limit s).2 ∧ (makeRoom rb limit s).2.bssList ⊆ s.bssList := by
  refine makeRoom_keeps rb (I := fun s' => SameHeap s s' ∧ s'.bssList ⊆ s.bssList) ?_
    ⟨(SameTable.refl s).toSameHeap, fun _ hb => hb⟩ limit
  rintro s' b ⟨hheap, hsub⟩ -
  refine ⟨hheap.trans (sameHeap_unlinkBss rb s' b), ?_⟩
  rcases unlinkBss_list rb s' b with hlist | hlist
  · rwa [hlist]
  · rw [hlist]
    exact fun _ hb => hsub (mem_of_mem_erase hb)

/-! ### Search and insertion -/

def Fits (s : State) (a : Pub) : Prop := ∀ b ∈ s.bssList, SameLayout a (s.heap b).pub

instance (s : State) (a : Pub) : Decidable (Fits s a) := List.decidableBAll _ s.bssList

theorem TableOk.agrees (h : TableOk s) {a : Pub} (ha : Fits s a) :
    Agrees s.key (fun b => cmpBss a (s.heap b).pub .regular) a.key s.bssTree.toList := by
  intro b hb
  have hlead := leads_cmpBss (ha b (h.perm.mem_iff.mp hb))
  exact ⟨hlead.lt_iff, hlead.eq_iff⟩

theorem TableOk.rbFindBss_none (h : TableOk s) {a : Pub} (ha : Fits s a)
    (hnone : rbFindBss s a .regular = none) : ∀ b ∈ s.bssList, a.key ≠ s.key b := by
  intro b hb
  exact search_eq_none h.sorted (h.agrees ha) hnone b (h.perm.mem_iff.mpr hb)

theorem TableOk.rbFindBss_some (h : TableOk s) {a : Pub} {mode : CmpMode} {b : ℕ}
    (hsome : rbFindBss s a mode = some b) :
    b ∈ s.bssList ∧ cmpBss a (s.heap b).pub mode = 0 := by
  obtain ⟨hb, hcmp⟩ := search_eq_some hsome
  exact ⟨h.perm.mem_iff.mp hb, hcmp⟩

theorem TableOk.insertBss (h : TableOk s) {b : ℕ} (hb : b < s.next) (hnot : b ∉ s.bssList)
    (hfits : Fits s (s.heap b).pub) (hnew : ∀ x ∈ s.bssList, s.key b ≠ s.key x) :
    TableOk (insertBss rb s b) ∧ (insertBss rb s b).bssList = s.bssList ++ [b] := by
  obtain ⟨t, l₁, l₂, hlink, hl, ht, h₁, h₂⟩ := link_sorted h.sorted (h.agrees hfits)
    fun x hx => hnew x (h.perm.mem_iff.mp hx)
  have hins : Cfg80211.insertBss rb s b =
      { s with
        bssTree := rb.color t b
        bssList := s.bssList ++ [b]
        bssEntries := s.bssEntries + 1 } := by
    rw [Cfg80211.insertBss, rbInsertBss, hlink]
    rfl
  have hperm : t.toList.Perm (s.bssList ++ [b]) := by
    rw [ht]
    exact perm_middle.trans ((List.Perm.cons b (hl ▸ h.perm)).trans
      (perm_append_singleton ..).symm)
  have hsort := h.sorted
  rw [hl] at hsort
  obtain ⟨hs₁, hs₂, hs₁₂⟩ := pairwise_append.mp hsort
  rw [hins]
  refine ⟨⟨?_, ?_, ?_, ?_, ?_, ?_⟩, rfl⟩
  · exact forall_mem_append.mpr ⟨h.alloc, forall_mem_singleton.mpr hb⟩
  · exact nodup_append.mpr ⟨h.nodup, by simp, by
      intro x hx y hy
      rw [mem_singleton.mp hy]
      exact fun heq => hnot (heq ▸ hx)⟩
  · simp only [rb.toList_color]
    exact hperm
  · simp only [length_append, length_singleton, h.entries]
  · refine forall_mem_append.mpr ?_
    refine ⟨fun x hx => forall_mem_append.mpr ⟨h.layout x hx, ?_⟩, ?_⟩
    · exact forall_mem_singleton.mpr fun hc => (hfits x hx hc.symm).symm
    refine forall_mem_singleton.mpr ?_
    exact forall_mem_append.mpr ⟨hfits, forall_mem_singleton.mpr fun _ => rfl⟩
  · simp only [rb.toList_color]
    rw [ht]
    refine pairwise_append.mpr ⟨hs₁, pairwise_cons.mpr ⟨h₂, hs₂⟩, ?_⟩
    exact fun x hx => forall_mem_cons.mpr ⟨h₁ x hx, hs₁₂ x hx⟩

/-! ### Updates -/

/-- The frame, and its capability with the elements of the entry that it is about, have the layout
of the entries on its channel. -/
def KeepsLayout (s : State) : Act → Prop
  | .update f _ => Fits s f.tmp ∧
      ∀ b ∈ s.bssList, cmpBss f.tmp (s.heap b).pub .regular = 0 →
        Pub.mesh { (s.heap b).pub with capability := f.capability } = f.tmp.mesh
  | _ => True

instance (s : State) (a : Act) : Decidable (KeepsLayout s a) := by
  cases a <;> dsimp only [KeepsLayout] <;> infer_instance

theorem Pub.find_of_meshId {a : Pub} {id : List UInt8} (h : a.meshId = some id) :
    a.ies.find eidMeshId = some id := by
  unfold Pub.meshId at h
  split at h
  · exact h
  · cases h

theorem key_of_mesh_eq {a a' : Pub} (hchannel : a'.channel = a.channel) (hbssid : a'.bssid = a.bssid)
    (hies : a'.ies = a.ies) (hmesh : a'.mesh = a.mesh) : a'.key = a.key := by
  unfold Pub.key
  rw [hchannel, hbssid, hies]
  rcases a.meshKey_cases with ⟨hm, hk⟩ | ⟨id, config, hm, hid, hconfig, hk⟩
  · rcases a'.meshKey_cases with ⟨-, hk'⟩ | ⟨_, _, hm', -⟩
    · rw [hk, hk']
    · rw [hm, hm'] at hmesh
      cases hmesh
  rcases a'.meshKey_cases with ⟨hm', -⟩ | ⟨id', config', -, hid', hconfig', hk'⟩
  · rw [hm, hm'] at hmesh
    cases hmesh
  have hid := Pub.find_of_meshId hid
  have hid' := Pub.find_of_meshId hid'
  rw [hies] at hid' hconfig'
  rw [hk, hk', Option.some.inj (hid.symm.trans hid'), Option.some.inj (hconfig.symm.trans hconfig')]

theorem sameKey_update {known new known' : Pub} (hfits : SameLayout new known)
    (hcmp : cmpBss new known .regular = 0)
    (hcap : Pub.mesh { known with capability := new.capability } = new.mesh)
    (hchannel : known'.channel = known.channel) (hbssid : known'.bssid = known.bssid)
    (hcapability : known'.capability = new.capability)
    (hies : known'.ies = known.ies ∨ known'.ies = new.ies) : SameKey known known' := by
  have hkey : new.key = known.key := (leads_cmpBss hfits).eq_iff.mp hcmp
  have hc : new.channel = known.channel := by
    have := (List.cons.inj hkey).1
    omega
  have hmesh := hfits hc
  rcases hies with hies | hies
  · -- the elements stay: only the capability could change the layout, and it does not
    have hsame : SamePub { known with capability := new.capability } known' :=
      ⟨hchannel, hbssid, hcapability, hies⟩
    have hm : known'.mesh = known.mesh := hsame.sameKey.mesh.trans (hcap.trans hmesh)
    exact ⟨key_of_mesh_eq hchannel hbssid hies hm, hchannel, hm⟩
  -- the elements are those of the frame, and the key is that of the frame
  have hmk : known'.meshKey = new.meshKey := by
    simp only [Pub.meshKey, Pub.meshId, hcapability, hies]
  have hm : known'.mesh = known.mesh := by rw [← hmesh, Pub.mesh, hmk, Pub.mesh]
  refine ⟨?_, hchannel, hm⟩
  rw [← hkey, Pub.key, Pub.key, hmk, hchannel, ← hc, hies]
  cases hk : new.meshKey with
  | some k => rfl
  | none =>
    have hk' : known.meshKey = none := by
      rw [Pub.mesh, hk, Pub.mesh] at hmesh
      simpa using hmesh.symm
    have hrest := (List.cons.inj hkey).2
    rw [hk, hk'] at hrest
    rw [hbssid, ← (List.cons.inj hrest).1]

/-- What an update of a known entry changes: in the entry itself the capability and possibly the
elements, in others nothing that is compared. -/
structure KnownUpdate (s : State) (known : ℕ) (f : Frame) (s' : State) : Prop where
  list : s'.bssList = s.bssList
  tree : s'.bssTree = s.bssTree
  entries : s'.bssEntries = s.bssEntries
  next : s'.next = s.next
  outside : s'.outside = s.outside
  other : ∀ b ≠ known, SamePub (s.heap b).pub (s'.heap b).pub
  channel : (s'.heap known).pub.channel = (s.heap known).pub.channel
  bssid : (s'.heap known).pub.bssid = (s.heap known).pub.bssid
  capability : (s'.heap known).pub.capability = f.capability ∨
    SamePub (s.heap known).pub (s'.heap known).pub
  ies : (s'.heap known).pub.ies = (s.heap known).pub.ies ∨ (s'.heap known).pub.ies = f.ies

theorem samePub_updateHiddenBsses (s : State) (known : ℕ) (ies : Ies) (b : ℕ) :
    SamePub (s.heap b).pub ((updateHiddenBsses s known ies).heap b).pub := by
  unfold updateHiddenBsses
  dsimp only
  split
  · exact ⟨rfl, rfl, rfl, rfl⟩
  · exact SamePub.refl _

theorem updateHiddenBsses_self (s : State) (known : ℕ) (ies : Ies) :
    (updateHiddenBsses s known ies).heap known = s.heap known := by
  simp [updateHiddenBsses]

theorem knownUpdate (s : State) (known : ℕ) (f : Frame) :
    KnownUpdate s known f (updateKnownBss s known f.tmp f.ts).2 := by
  unfold updateKnownBss setCapability
  cases hp : f.presp with
  | true =>
    have hbeacon : f.tmp.beaconIes = none := by simp [Frame.tmp, hp]
    have hprobe : f.tmp.proberespIes = some f.ies := by simp [Frame.tmp, hp]
    simp only [hbeacon, Pub.updateProberesp, hprobe]
    refine ⟨rfl, rfl, rfl, rfl, rfl, fun b hb => ?_, ?_, ?_, .inl ?_, .inr ?_⟩
    · rw [heap_modify_of_ne _ _ hb, heap_modify_of_ne _ _ hb]
      exact SamePub.refl _
    all_goals simp [Frame.tmp]
  | false =>
    have hbeacon : f.tmp.beaconIes = some f.ies := by simp [Frame.tmp, hp]
    have hprobe : f.tmp.proberespIes = none := by simp [Frame.tmp, hp]
    simp only [hbeacon, Pub.updateProberesp, hprobe]
    split
    · refine ⟨rfl, rfl, rfl, rfl, rfl, fun b hb => ?_, ?_, ?_, .inr ?_, .inl ?_⟩
      · rw [heap_modify_of_ne _ _ hb]
        exact SamePub.refl _
      · rw [heap_modify_self]
      · rw [heap_modify_self]
      · rw [heap_modify_self]
        exact SamePub.refl _
      · rw [heap_modify_self]
    · refine ⟨rfl, rfl, rfl, rfl, rfl, fun b hb => ?_, ?_, ?_, .inl ?_, ?_⟩
      · have hhidden := samePub_updateHiddenBsses
          ((s.modify known fun x => { x with ts := f.ts }).modify known
            fun x => { x with pub := x.pub.updateBeacon f.ies }) known f.ies b
        rw [heap_modify_of_ne _ _ hb, heap_modify_of_ne _ _ hb] at hhidden
        rwa [heap_modify_of_ne _ _ hb]
      all_goals simp only [heap_modify_self, updateHiddenBsses_self, Pub.updateBeacon, Frame.tmp]
      split
      · exact .inr rfl
      · exact .inl rfl

theorem TableOk.updateKnownBss (h : TableOk s) {known : ℕ} {f : Frame} {alloc : Bool}
    (hkeep : KeepsLayout s (.update f alloc)) (hfound : rbFindBss s f.tmp .regular = some known) :
    TableOk (updateKnownBss s known f.tmp f.ts).2 := by
  obtain ⟨hmem, hcmp⟩ := h.rbFindBss_some hfound
  have hu := knownUpdate s known f
  refine h.frame hu.list hu.tree hu.entries hu.next.ge fun b hb => ?_
  by_cases hbk : b = known
  · subst hbk
    rcases hu.capability with hcap | hsame
    · exact sameKey_update (hkeep.1 b hmem) hcmp (hkeep.2 b hmem hcmp) hu.channel hu.bssid hcap
        hu.ies
    · exact hsame.sameKey
  · exact (hu.other b hbk).sameKey

theorem sameTable_allocBss (s : State) (tmp : Pub) (ts : ℕ) : SameTable s (allocBss s tmp ts) := by
  refine ⟨⟨Nat.le_succ _, fun b hb => ?_⟩, rfl, rfl, rfl, rfl⟩
  rw [heap_allocBss_of_ne s tmp ts hb.ne]
  exact SamePub.refl _

theorem samePub_allocBss (s : State) (tmp : Pub) (ts : ℕ) :
    SamePub tmp ((allocBss s tmp ts).heap s.next).pub := by
  rw [heap_allocBss_self]
  exact ⟨rfl, rfl, rfl, rfl⟩

theorem SameKey.sameLayout {a a' b b' : Pub} (ha : SameKey a a') (hb : SameKey b b')
    (h : SameLayout a b) : SameLayout a' b' := by
  intro hc
  rw [ha.channel, hb.channel] at hc
  rw [ha.mesh, hb.mesh]
  exact h hc

section
variable (h : TableOk s)
include h

variable {f : Frame}

section
variable (limit : ℕ) (hfits : Fits s f.tmp) (hnone : rbFindBss s f.tmp .regular = none)
include hfits hnone

theorem TableOk.insert_new (hok : TableOk s')
    (hheap : SameHeap (allocBss s f.tmp f.ts) s') (hlist : s'.bssList ⊆ s.bssList) :
    TableOk (Cfg80211.insertBss rb s' s.next) ∧
      (Cfg80211.insertBss rb s' s.next).bssList = s'.bssList ++ [s.next] := by
  have hnew : SamePub f.tmp (s'.heap s.next).pub :=
    (samePub_allocBss s f.tmp f.ts).trans (hheap.pub s.next (Nat.lt_succ_self _))
  have hold : ∀ b ∈ s.bssList, SamePub (s.heap b).pub (s'.heap b).pub := fun b hb =>
    ((sameTable_allocBss s f.tmp f.ts).toSameHeap.trans hheap).pub b (h.alloc b hb)
  apply hok.insertBss
  · exact (Nat.lt_succ_self _).trans_le hheap.next
  · intro hmem
    exact (h.alloc s.next (hlist hmem)).false
  · intro b hb
    exact hnew.sameKey.sameLayout (hold b (hlist hb)).sameKey (hfits b (hlist hb))
  · intro b hb
    rw [State.key, State.key, hnew.key, (hold b (hlist hb)).key]
    exact h.rbFindBss_none hfits hnone b (hlist hb)

theorem TableOk.insert_room {room : State}
    (hr : room = (makeRoom rb limit (groupBss (allocBss s f.tmp f.ts) s.next f.tmp).2).2) :
    TableOk room ∧
    TableOk (Cfg80211.insertBss rb (setTransmitted room s.next f.tmp.transmittedBss) s.next) ∧
    (Cfg80211.insertBss rb (setTransmitted room s.next f.tmp.transmittedBss) s.next).bssList =
      room.bssList ++ [s.next] := by
  have hgroup := sameTable_groupBss (allocBss s f.tmp f.ts) s.next f.tmp
  have hlist := ((sameTable_allocBss s f.tmp f.ts).trans hgroup).list
  have hok := h.same ((sameTable_allocBss s f.tmp f.ts).trans hgroup)
  have hroom := makeRoom_keeps rb (fun _ _ h hb => TableOk.unlinkBss rb h hb) hok limit
  obtain ⟨hheap, hsub⟩ := makeRoom_sub rb limit (groupBss (allocBss s f.tmp f.ts) s.next f.tmp).2
  rw [← hr] at hroom hheap hsub
  have htrans := sameTable_setTransmitted room s.next f.tmp.transmittedBss
  have hins := TableOk.insert_new rb h hfits hnone (hroom.same htrans)
    (hgroup.toSameHeap.trans (hheap.trans htrans.toSameHeap))
    (by rw [htrans.list]; exact fun b hb => hlist ▸ hsub hb)
  rw [htrans.list] at hins
  exact ⟨hroom, hins⟩

theorem TableOk.addBss : TableOk (addBss rb limit s f.tmp f.ts).2 := by
  obtain ⟨hroom, hins, -⟩ := h.insert_room rb limit hfits hnone rfl
  rcases addBss_cases rb limit s f.tmp f.ts with heq | heq | heq <;> rw [heq]
  · exact h.same (((sameTable_allocBss s f.tmp f.ts).trans (sameTable_groupBss _ _ _)).bssRefPut _)
  · exact hroom.same ((SameTable.refl _).bssRefPut _)
  · exact hins.same ((SameTable.refl _).bssRefGet _)

end

theorem TableOk.bssUpdate (limit : ℕ) {alloc : Bool} (hkeep : KeepsLayout s (.update f alloc)) :
    TableOk (bssUpdate rb limit s f alloc).2 := by
  unfold Cfg80211.bssUpdate
  cases hfind : rbFindBss s f.tmp .regular with
  | some found =>
    have hknown := h.updateKnownBss hkeep hfind
    dsimp only
    split
    · exact hknown.same ((SameTable.refl _).bssRefGet _)
    · exact hknown
  | none =>
    dsimp only
    split
    · exact h.addBss rb limit hkeep.1 hfind
    · exact h

/-! ### Runs -/

theorem TableOk.setOutside (b n : ℕ) : TableOk (s.setOutside b n) :=
  h.frame rfl rfl rfl le_rfl fun _ _ => (SamePub.refl _).sameKey

theorem TableOk.handOut (r : Option ℕ) : TableOk (s.handOut r) := by
  cases r with
  | none => exact h
  | some b => exact h.setOutside b _

theorem TableOk.step {limit : ℕ} {a : Act} {o : Option ℕ} (hs : step rb limit s a = some (o, s'))
    (hkeep : KeepsLayout s a) : TableOk s' := by
  cases a with
  | update f alloc =>
    simp only [Cfg80211.step] at hs
    split at hs <;> cases hs
    exact (h.bssUpdate rb limit hkeep).handOut _
  | ref b =>
    simp only [Cfg80211.step] at hs
    split at hs <;> cases hs
    exact (h.same ((SameTable.refl s).bssRefGet b)).setOutside b _
  | put b =>
    simp only [Cfg80211.step] at hs
    split at hs <;> cases hs
    exact (h.same ((SameTable.refl s).bssRefPut b)).setOutside b _
  | unlink b =>
    simp only [Cfg80211.step] at hs
    split at hs <;> cases hs
    next hb => exact h.unlinkBss rb hb
  | expire time =>
    cases hs
    exact bssExpire_keeps rb (fun _ _ h hb => TableOk.unlinkBss rb h hb) h h.nodup time

end

theorem tableOk_initial : TableOk initial where
  alloc := by simp [initial]
  nodup := nodup_nil
  perm := List.Perm.refl _
  entries := rfl
  layout := by simp [initial]
  sorted := List.Pairwise.nil

/-- What the table is required to be. -/
structure Ordered (s : State) : Prop where
  increasing : s.bssTree.toList.Pairwise fun a b => cmpBss (s.heap a).pub (s.heap b).pub .regular < 0
  perm : s.bssTree.toList.Perm s.bssList
  nodup : s.bssList.Nodup
  entries : s.bssEntries = s.bssList.length
  find : ∀ probe : Pub, Fits s probe → ((rbFindBss s probe .regular).isSome ↔
    ∃ b ∈ s.bssList, cmpBss probe (s.heap b).pub .regular = 0)

theorem TableOk.ordered (h : TableOk s) : Ordered s where
  increasing := by
    refine List.Pairwise.imp_of_mem ?_ h.sorted
    intro a b ha hb hlt
    exact (leads_cmpBss (h.layout a (h.perm.mem_iff.mp ha) b (h.perm.mem_iff.mp hb))).lt_iff.mpr hlt
  perm := h.perm
  nodup := h.nodup
  entries := h.entries
  find := by
    intro probe hfits
    constructor
    · intro hsome
      obtain ⟨b, hb⟩ := Option.isSome_iff_exists.mp hsome
      exact ⟨b, h.rbFindBss_some hb⟩
    rintro ⟨b, hb, hcmp⟩
    by_contra hnone
    have hne := h.rbFindBss_none hfits (by simpa using hnone) b hb
    exact hne ((leads_cmpBss (hfits b hb)).eq_iff.mp hcmp)

/-- **Order.**  If every frame has the layout of the entries on its channel, tree, list and counter
describe the same entries, the tree is strictly increasing, and a search finds an entry exactly if
one compares equal. -/
theorem bss_table_ordered {limit : ℕ} {ls : List (Label State Act (Option ℕ))}
    (hrun : Run (step rb limit) initial ls s) (hkeep : ∀ l ∈ ls, KeepsLayout l.pre l.act) :
    Ordered s := by
  have hinv := hrun.induct (I := TableOk) (C := fun l => KeepsLayout l.pre l.act)
    (fun _ _ _ _ hs hkeep h => h.step rb hs hkeep) hkeep tableOk_initial
  exact hinv.1.ordered

end table

def beacon (addr bssid capability : ℕ) (ies : List UInt8) : Frame :=
  ⟨2412000, bssid, capability, ⟨addr, ies⟩, false, none, addr⟩

def ssidElem (ssid : List UInt8) : List UInt8 := eidSsid :: UInt8.ofNat ssid.length :: ssid

def meshElems (id : UInt8) : List UInt8 := [eidMeshId, 1, id, eidMeshConfig, 7, 1, 1, 0, 1, 0, 0, 9]

/-- Two BSSs, one of which changes its capability and elements, and the removal of the other. -/
def twoAps : List Act :=
  [.update (beacon 0 2 1 (ssidElem [115])) true, .update (beacon 1 1 1 (ssidElem [116])) true,
    .update (beacon 2 1 17 (ssidElem [116] ++ [5, 0])) true, .put 0, .unlink 0]

theorem bss_table_ordered_two : ∃ ls s,
    execute (step (unbalanced ℕ) 1000) initial twoAps = some (ls, s) ∧
    (∀ l ∈ ls, KeepsLayout l.pre l.act) ∧ s.bssList = [1] ∧ Ordered s := by
  refine exists_execute rfl fun hrun => ⟨by decide +kernel, by decide +kernel, ?_⟩
  exact bss_table_ordered (unbalanced ℕ) hrun (by decide +kernel)

/-- The mesh BSS `A` compares equal to an AP, but is before the mesh BSS `B` and is not found. -/
theorem bss_table_unordered : ∃ ls s, execute (step (unbalanced ℕ) 1000) initial
      [.update (beacon 0 1 0 (meshElems 66)) true, .update (beacon 1 2 1 (ssidElem [115])) true,
        .update (beacon 2 2 0 (ssidElem [115] ++ meshElems 65)) true] = some (ls, s) ∧
      s.bssList = [0, 1, 2] ∧ cmpBss (s.heap 2).pub (s.heap 1).pub .regular = 0 ∧
      s.bssTree.toList = [2, 0, 1] ∧ ¬ Ordered s := by
  refine ⟨_, _, rfl, by decide +kernel, by decide +kernel, by decide +kernel, ?_⟩
  intro h
  have hpair := h.increasing
  revert hpair
  decide +kernel

end Iwlwifi.Cfg80211
