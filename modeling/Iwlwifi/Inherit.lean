import Iwlwifi.Elements
import Iwlwifi.Emit

/-! # Elements of a non-transmitted BSS

A model of `cfg80211_gen_new_ie` (`net/wireless/scan.c`): the elements of a non-transmitted BSS are
those of its profile `subie` and those that it inherits from the frame `ie` of the transmitted one.

* **Program** (`genNewIe`).  A pass over `ie` copies inherited elements, and at the first element of
  a type that the profile has too, all elements of the profile of this type; a pass over `subie`
  copies the rest.  Elements are copied with their fragments.
* **Pieces** (`parentGroups`, `subGroups`).  What the passes write, element by element, as lists of
  groups, a group being an element with its fragments; `genNewIe_emits` is the relation to
  the program, `genNewIe_inherits` the result. -/

namespace Iwlwifi.Cfg80211

open Tlv Emit List

/-! ### Program -/

/-- `cfg80211_is_element_inherited`. -/
def isElementInherited (elem : Element) (nonInheritElem : Option Element) : Bool :=
  if elem.id = eidMultipleBssid then false
  else if elem.id = eidExtension ∧ 1 < elem.data.length ∧ elem.data.getD 0 0 = eidExtEhtMultiLink then
    false
  else
    match nonInheritElem with
    | none => true
    | some n =>
      if n.data.length < 2 then true
      else
        let idLen := (n.data.getD 1 0).toNat
        if n.data.length < 3 + idLen then true
        else
          let extIdLen := (n.data.getD (2 + idLen) 0).toNat
          if n.data.length < 3 + idLen + extIdLen then true
          else if elem.id = eidExtension then
            if extIdLen = 0 ∨ elem.data.length = 0 then true
            else !((n.data.drop (3 + idLen)).take extIdLen).contains (elem.data.getD 0 0)
          else if idLen = 0 then true
          else !((n.data.drop 2).take idLen).contains elem.id

/-- The loop of `cfg80211_copy_elem_with_frags` over the elements that follow. -/
def copyFrags (bufLen : ℕ) : List Element → List UInt8 → Except (List UInt8) (List UInt8)
  | [], out => .ok out
  | elem :: elems, out =>
    if elem.id ≠ eidFragment then .ok out
    else
      emit bufLen elem.bytes out >>= fun out =>
        if elem.data.length ≠ 255 then .ok out else copyFrags bufLen elems out

/-- `cfg80211_copy_elem_with_frags`.  Its check is that the element is part of the frame, which a
`Place` is. -/
def copyElemWithFrags (bufLen : ℕ) (elem : Place) (out : List UInt8) :
    Except (List UInt8) (List UInt8) :=
  emit bufLen elem.1.bytes out >>= fun out =>
    if elem.1.data.length ≠ 255 then .ok out else copyFrags bufLen (elements elem.2) out

/-- `id` and, for an extension, `ext_id` of an element; none for those that are skipped. -/
def elemType (elem : Element) : Option (UInt8 × List UInt8) :=
  if elem.id = eidFragment then none
  else if elem.id = eidExtension then elem.data.head?.map fun extId => (eidExtension, [extId])
  else some (elem.id, [])

/-- The bytes of `ie` in front of an element. -/
def bytesBefore (ie : List UInt8) (elem : Place) : List UInt8 :=
  ie.take (ie.length - (elem.1.bytes ++ elem.2).length)

/-- The loop that copies all similar elements from `subie`; `n` bounds their number. -/
def copySimilar (newIeLen : ℕ) (id : UInt8) (mtch : List UInt8) :
    ℕ → Option Place → List UInt8 → Except (List UInt8) (List UInt8)
  | n + 1, some sub, out =>
    copyElemWithFrags newIeLen sub out >>= fun out =>
      copySimilar newIeLen id mtch n (findElemMatch id sub.2 mtch 0) out
  | _, _, out => .ok out

/-- The first pass, for one element of `ie`. -/
def genParent (ie subie : List UInt8) (newIeLen : ℕ) (nonInheritElem : Option Element)
    (bssidIndex : UInt8) (parent : Place) (out : List UInt8) : Except (List UInt8) (List UInt8) :=
  match elemType parent.1 with
  | none => .ok out
  | some (id, mtch) =>
    let sub := findElemMatch id subie mtch 0
    if sub = none ∧ isElementInherited parent.1 nonInheritElem then
      copyElemWithFrags newIeLen parent out
    else if parent.1.id = eidExtension ∧ parent.1.data.getD 0 0 = eidExtEhtMultiLink ∧
        mleTypeOk (parent.1.data.drop 1) 0 ∧ bssidIndex = mleGetMldId (parent.1.data.drop 1) then
      copyElemWithFrags newIeLen parent out
    else if findElemMatch id (bytesBefore ie parent) mtch 0 ≠ none then .ok out
    else copySimilar newIeLen id mtch subie.length sub out

/-- The second pass, for one element of `subie`. -/
def genSub (ie : List UInt8) (newIeLen : ℕ) (sub : Place) (out : List UInt8) :
    Except (List UInt8) (List UInt8) :=
  if sub.1.id = eidNonTxBssidCap then .ok out
  else
    match elemType sub.1 with
    | none => .ok out
    | some (id, mtch) =>
      if id = eidExtension ∧ mtch = [eidExtNonInheritance] then .ok out
      else if findElemMatch id ie mtch 0 ≠ none then .ok out
      else copyElemWithFrags newIeLen sub out

/-- `bssid_index` of a profile. -/
def bssidIndex (subie : List UInt8) : UInt8 :=
  match findElem eidMultiBssidIdx subie with
  | none => 255
  | some elem =>
    if 0 < elem.1.data.length ∧ 0 < elem.1.data.getD 0 0 ∧ elem.1.data.getD 0 0 ≤ 46 then
      elem.1.data.getD 0 0
    else 255

/-- `cfg80211_gen_new_ie`: the return value and what was written to `new_ie`. -/
def genNewIe (ie subie : List UInt8) (newIeLen : ℕ) : ℕ × List UInt8 :=
  let nonInheritElem := (findExtElem eidExtNonInheritance subie).map Prod.fst
  let passes : Except (List UInt8) (List UInt8) :=
    (scan ie).foldlM (fun out parent =>
      genParent ie subie newIeLen nonInheritElem (bssidIndex subie) parent out) [] >>= fun out =>
    (scan subie).foldlM (fun out sub => genSub ie newIeLen sub out) out
  match passes with
  | .ok out => (out.length, out)
  | .error out => (0, out)

/-! ### Groups -/

abbrev Group := Element × List Element

def Group.bytes (g : Group) : List UInt8 := (g.1 :: g.2).flatMap Element.bytes

/-- The fragments of `e` among the elements that follow it. -/
def takeFrags : Element → List Element → List Element
  | _, [] => []
  | e, f :: es => if e.data.length = 255 ∧ f.id = eidFragment then f :: takeFrags f es else []

def group (x : Place) : Group := (x.1, takeFrags x.1 (elements x.2))

def groups (l : List UInt8) : List Group :=
  ((scan l).filter fun x => x.1.id ≠ eidFragment).map group

variable {e : Element} (subie : List UInt8)

theorem takeFrags_of_short (h : e.data.length ≠ 255) (es : List Element) : takeFrags e es = [] := by
  cases es with
  | nil => rfl
  | cons f es => simp [takeFrags, h]

theorem takeFrags_takeFrags (e : Element) (es : List Element) :
    takeFrags e (takeFrags e es) = takeFrags e es := by
  induction es generalizing e with
  | nil => rfl
  | cons f es ih =>
    simp only [takeFrags]
    split
    next h => simp [takeFrags, h, ih]
    · rfl

theorem mem_takeFrags {e f : Element} {es : List Element} (h : f ∈ takeFrags e es) :
    f.id = eidFragment := by
  induction es generalizing e with
  | nil => cases h
  | cons f' es ih =>
    rw [takeFrags] at h
    split at h
    next hf =>
      rcases mem_cons.mp h with rfl | h
      · exact hf.2
      · exact ih h
    · cases h

theorem takeFrags_append {fs es : List Element} (h : takeFrags e fs = fs)
    (hes : ∀ f ∈ es.head?, f.id ≠ eidFragment) : takeFrags e (fs ++ es) = fs := by
  induction fs generalizing e with
  | nil =>
    cases es with
    | nil => rfl
    | cons f es => simp [takeFrags, hes f rfl]
  | cons f fs ih =>
    rw [takeFrags] at h
    split at h
    next hf => rw [cons_append, takeFrags, if_pos hf, ih (List.cons.inj h).2]
    · cases h

theorem groups_bytes_append (e : Element) (l : List UInt8) :
    groups (e.bytes ++ l) =
      if e.id = eidFragment then groups l else (e, takeFrags e (elements l)) :: groups l := by
  rw [groups, scan_bytes_append]
  by_cases h : e.id = eidFragment <;> simp [h, groups, group]

theorem groups_frags_append {fs : List Element} (h : ∀ f ∈ fs, f.id = eidFragment)
    (l : List UInt8) : groups (fs.flatMap Element.bytes ++ l) = groups l := by
  induction fs with
  | nil => rfl
  | cons f fs ih =>
    rw [flatMap_cons, append_assoc, groups_bytes_append,
      if_pos (h f (.head _)), ih fun f' hf => h f' (.tail _ hf)]

def Group.Proper (g : Group) : Prop := g.1.id ≠ eidFragment ∧ takeFrags g.1 g.2 = g.2

theorem group_proper {x : Place} (h : x.1.id ≠ eidFragment) : (group x).Proper :=
  ⟨h, takeFrags_takeFrags _ _⟩

theorem groups_flatMap {gs : List Group} (h : ∀ g ∈ gs, g.Proper) :
    groups (gs.flatMap Group.bytes) = gs := by
  induction gs with
  | nil => rfl
  | cons g gs ih =>
    obtain ⟨e, fs⟩ := g
    obtain ⟨hid, hfs⟩ := h _ (.head _)
    dsimp only at hid hfs
    have hrest := ih fun g hg => h g (.tail _ hg)
    have hhead : ∀ f ∈ (elements (gs.flatMap Group.bytes)).head?, f.id ≠ eidFragment := by
      intro f hf
      cases gs with
      | nil => cases hf
      | cons g gs =>
        rw [flatMap_cons, Group.bytes, flatMap_cons, append_assoc,
          elements_bytes_append, List.head?_cons] at hf
        cases hf
        exact (h g (.tail _ (.head _))).1
    have hall : ∀ f ∈ fs, f.id = eidFragment := by
      intro f hf
      rw [← hfs] at hf
      exact mem_takeFrags hf
    rw [flatMap_cons, Group.bytes, flatMap_cons, append_assoc, groups_bytes_append, if_neg hid,
      elements_append, groups_frags_append hall, hrest, takeFrags_append hfs hhead]

/-! ### Pieces -/

theorem copyFrags_emits (n : ℕ) (he : e.data.length = 255) (es : List Element) :
    Emits n (copyFrags n es) ((takeFrags e es).flatMap Element.bytes) := by
  induction es generalizing e with
  | nil => exact emits_nil n
  | cons f es ih =>
    by_cases hf : f.id = eidFragment
    · have hrest : Emits n
          (fun out => if f.data.length ≠ 255 then .ok out else copyFrags n es out)
          ((takeFrags f es).flatMap Element.bytes) := by
        by_cases hfull : f.data.length = 255
        · simpa [hfull] using ih hfull
        · simpa [hfull, takeFrags_of_short hfull] using emits_nil n
      have h := (emits_emit n f.bytes).bind hrest
      simpa [takeFrags, he, hf, copyFrags] using h
    · simpa [takeFrags, hf, copyFrags] using emits_nil n

theorem copyElemWithFrags_emits (n : ℕ) (x : Place) :
    Emits n (copyElemWithFrags n x) (group x).bytes := by
  have hrest : Emits n
      (fun out => if x.1.data.length ≠ 255 then .ok out else copyFrags n (elements x.2) out)
      ((takeFrags x.1 (elements x.2)).flatMap Element.bytes) := by
    by_cases hfull : x.1.data.length = 255
    · simpa [hfull] using copyFrags_emits n hfull _
    · simpa [hfull, takeFrags_of_short hfull] using emits_nil n
  exact (emits_emit n x.1.bytes).bind hrest

def types (l : List UInt8) : List (Option (UInt8 × List UInt8)) := (elements l).map elemType

theorem elemType_cases (e : Element) :
    (e.id = eidFragment ∧ elemType e = none) ∨
    (e.id = eidExtension ∧ elemType e = e.data.head?.map fun extId => (eidExtension, [extId])) ∨
    (e.id ≠ eidFragment ∧ e.id ≠ eidExtension ∧ elemType e = some (e.id, [])) := by
  by_cases hfrag : e.id = eidFragment
  · exact .inl ⟨hfrag, if_pos hfrag⟩
  · by_cases hext : e.id = eidExtension
    · exact .inr (.inl ⟨hext, by rw [elemType, if_neg hfrag, if_pos hext]⟩)
    · exact .inr (.inr ⟨hfrag, hext, by rw [elemType, if_neg hfrag, if_neg hext]⟩)

theorem elemMatches_iff {e e' : Element} {id : UInt8} {mtch : List UInt8}
    (h : elemType e = some (id, mtch)) :
    elemMatches id mtch 0 e' = true ↔ elemType e' = some (id, mtch) := by
  rcases elemType_cases e with ⟨-, ht⟩ | ⟨-, ht⟩ | ⟨hfrag, hext, ht⟩
  · rw [ht] at h
    cases h
  · -- an extension is matched by the first byte of its data
    rw [ht] at h
    obtain ⟨x, -, hx⟩ := Option.map_eq_some_iff.mp h
    cases hx
    rcases elemType_cases e' with ⟨hid', ht'⟩ | ⟨hid', ht'⟩ | ⟨-, hid', ht'⟩
    · simp [elemMatches, ht', hid', eidFragment, eidExtension]
    · rw [ht']
      cases hdata : e'.data <;> simp [elemMatches, hid', hdata]
    · simp [elemMatches, ht', hid']
  · rw [ht] at h
    cases h
    rcases elemType_cases e' with ⟨hid', ht'⟩ | ⟨hid', ht'⟩ | ⟨-, -, ht'⟩
    · simp [elemMatches, ht', hid', Ne.symm hfrag]
    · rw [ht']
      cases hdata : e'.data <;> simp [elemMatches, hid', hdata, Ne.symm hext]
    · simp [elemMatches, ht']

/-- The elements of a frame that have the type `t`. -/
def ofType (l : List UInt8) (t : UInt8 × List UInt8) : List Place :=
  (scan l).filter fun x => elemType x.1 = some t

section
variable {e : Element} {id : UInt8} {mtch : List UInt8} (h : elemType e = some (id, mtch))
include h

theorem findElemMatch_cases (l : List UInt8) :
    (findElemMatch id l mtch 0 = none ∧ ofType l (id, mtch) = []) ∨
    ∃ x, findElemMatch id l mtch 0 = some x ∧
      ofType l (id, mtch) = x :: ofType x.2 (id, mtch) ∧ x.2.length < l.length := by
  have hp : (fun x : Place => elemMatches id mtch 0 x.1) =
      fun x => decide (elemType x.1 = some (id, mtch)) := by
    funext x
    rw [Bool.eq_iff_iff, elemMatches_iff h, decide_eq_true_iff]
  rw [findElemMatch, hp]
  exact find?_scan _ l

theorem findElemMatch_eq_none (l : List UInt8) :
    findElemMatch id l mtch 0 = none ↔ some (id, mtch) ∉ types l := by
  have hnil : ofType l (id, mtch) = [] ↔ some (id, mtch) ∉ types l := by
    simp only [ofType, filter_eq_nil_iff, decide_eq_true_iff]
    simp only [types, elements, map_map, mem_map, Function.comp_apply, not_exists, not_and]
  rw [← hnil]
  rcases findElemMatch_cases h l with ⟨hnone, hempty⟩ | ⟨x, hsome, hcons, -⟩
  · simp [hnone, hempty]
  · simp [hsome, hcons]

end

theorem copySimilar_emits (bufLen : ℕ) {id : UInt8} {mtch : List UInt8}
    (h : elemType e = some (id, mtch)) (n : ℕ) (l : List UInt8) (hn : l.length ≤ n) :
    Emits bufLen (copySimilar bufLen id mtch n (findElemMatch id l mtch 0))
      (((ofType l (id, mtch)).map group).flatMap Group.bytes) := by
  induction n generalizing l with
  | zero =>
    rcases findElemMatch_cases h l with ⟨hnone, hempty⟩ | ⟨x, -, -, hlen⟩
    · rw [hnone, hempty]
      exact emits_nil bufLen
    · omega
  | succ n ih =>
    rcases findElemMatch_cases h l with ⟨hnone, hempty⟩ | ⟨x, hsome, hcons, hlen⟩
    · rw [hnone, hempty]
      exact emits_nil bufLen
    · rw [hsome, hcons]
      exact (copyElemWithFrags_emits bufLen x).bind (ih x.2 (by omega))

/-- An element that the non-inheritance element of the profile, if any, does not exclude. -/
def inheritable (subie : List UInt8) (e : Element) : Bool :=
  isElementInherited e ((findExtElem eidExtNonInheritance subie).map Prod.fst)

/-- What the first pass writes for an element of `ie`, if the elements before it have the types
`seen`. -/
def parentGroups (subie : List UInt8) (seen : List (Option (UInt8 × List UInt8))) (x : Place) :
    List Group :=
  match elemType x.1 with
  | none => []
  | some t =>
    if some t ∉ types subie ∧ inheritable subie x.1 then [group x]
    else if some t ∈ seen then []
    else (ofType subie t).map group

def IsMultiLink (e : Element) : Prop :=
  e.id = eidExtension ∧ e.data.head? = some eidExtEhtMultiLink

instance (e : Element) : Decidable (IsMultiLink e) := inferInstanceAs (Decidable (_ ∧ _))

theorem genParent_emits (ie subie : List UInt8) (n : ℕ) {x : Place} (hml : ¬ IsMultiLink x.1) :
    Emits n
      (genParent ie subie n ((findExtElem eidExtNonInheritance subie).map Prod.fst)
        (bssidIndex subie) x)
      ((parentGroups subie (types (bytesBefore ie x)) x).flatMap Group.bytes) := by
  unfold genParent parentGroups
  cases ht : elemType x.1 with
  | none => exact emits_nil n
  | some t =>
    have hsub := findElemMatch_eq_none ht subie
    have hseen := findElemMatch_eq_none ht (bytesBefore ie x)
    refine Emits.ite (fun hinh => ?_) fun hinh => Emits.ite (fun hmle => ?_) fun _ =>
      Emits.ite (fun hbefore => ?_) fun hbefore => ?_
    · rw [hsub] at hinh
      simp only [if_pos (show _ ∧ inheritable subie x.1 = true from hinh)]
      simpa using copyElemWithFrags_emits n x
    · refine absurd ⟨hmle.1, ?_⟩ hml
      cases hx : x.1.data with
      | nil => simp [hx, eidExtEhtMultiLink] at hmle
      | cons a l => simpa [hx] using hmle.2.1
    · rw [Ne, hseen, not_not] at hbefore
      rw [hsub] at hinh
      simp only [if_neg (show ¬ (_ ∧ inheritable subie x.1 = true) from hinh), if_pos hbefore]
      exact emits_nil n
    · rw [not_not, hseen] at hbefore
      rw [hsub] at hinh
      simp only [if_neg (show ¬ (_ ∧ inheritable subie x.1 = true) from hinh), if_neg hbefore]
      exact copySimilar_emits n ht _ subie (Nat.le_refl _)

/-- The second pass copies an element of `subie`. -/
def subKept (ie : List UInt8) (y : Place) : Bool :=
  y.1.id ≠ eidNonTxBssidCap ∧ elemType y.1 ≠ none ∧
  elemType y.1 ≠ some (eidExtension, [eidExtNonInheritance]) ∧
    elemType y.1 ∉ types ie

/-- What the second pass writes for an element of `subie`. -/
def subGroups (ie : List UInt8) (y : Place) : List Group := if subKept ie y then [group y] else []

theorem genSub_emits (ie : List UInt8) (n : ℕ) (y : Place) :
    Emits n (genSub ie n y) ((subGroups ie y).flatMap Group.bytes) := by
  unfold genSub subGroups subKept
  refine Emits.ite (fun hid => ?_) fun hid => ?_
  · simpa [hid] using emits_nil n
  cases ht : elemType y.1 with
  | none => simpa using emits_nil n
  | some t =>
    obtain ⟨id, mtch⟩ := t
    have hie := findElemMatch_eq_none ht ie
    refine Emits.ite (fun hnon => ?_) fun hnon => Emits.ite (fun hin => ?_) fun hin => ?_
    · simpa [hnon] using emits_nil n
    · rw [Ne, hie, not_not] at hin
      simpa [hin] using emits_nil n
    · rw [not_not, hie] at hin
      simpa [hid, hnon, hin] using copyElemWithFrags_emits n y

def allGroups (ie subie : List UInt8) : List Group :=
  (scan ie).flatMap (fun x => parentGroups subie (types (bytesBefore ie x)) x) ++
    (scan subie).flatMap (subGroups ie)

/-- **Program.**  The two passes write their groups, or there is no room for them. -/
theorem genNewIe_emits {ie : List UInt8} (hml : ∀ e ∈ elements ie, ¬ IsMultiLink e) (n : ℕ) :
    let out := (allGroups ie subie).flatMap Group.bytes
    (out.length ≤ n ∧ genNewIe ie subie n = (out.length, out)) ∨
    (n < out.length ∧ ∃ w, w.length ≤ n ∧ genNewIe ie subie n = (0, w)) := by
  have hparents := Emits.foldlM (scan ie) fun x hx =>
    genParent_emits ie subie n (hml x.1 (mem_map_of_mem hx))
  have hsubs := Emits.foldlM (scan subie) fun y _ => genSub_emits ie n y
  have h := hparents.bind hsubs [] (Nat.zero_le n)
  dsimp only at h
  rw [← flatMap_assoc, ← flatMap_assoc, ← flatMap_append, ← allGroups,
    nil_append, length_nil, Nat.zero_add] at h
  rcases h with ⟨hle, hok⟩ | ⟨hlt, w, hw, herr⟩
  · refine .inl ⟨hle, ?_⟩
    simp only [genNewIe]
    rw [hok]
  · refine .inr ⟨hlt, w, hw, ?_⟩
    simp only [genNewIe]
    rw [herr]

/-! ### Elements of the output -/

/-- The first pass, with the types of the elements passed so far. -/
def passGroups (subie : List UInt8) :
    List (Option (UInt8 × List UInt8)) → List Place → List Group
  | _, [] => []
  | seen, x :: xs => parentGroups subie seen x ++ passGroups subie (seen ++ [elemType x.1]) xs

theorem flatMap_parentGroups (es : List Element) (l : List UInt8) : (scan l).flatMap (fun x =>
        parentGroups subie (types (bytesBefore (es.flatMap Element.bytes ++ l) x)) x) =
      passGroups subie (es.map elemType) (scan l) := by
  induction l using scan_induct generalizing es with
  | none l h => simp [scan_of_none h, passGroups]
  | some e rest ih =>
    have hbefore : bytesBefore (es.flatMap Element.bytes ++ (e.bytes ++ rest)) (e, rest) =
        es.flatMap Element.bytes := by
      have hlen : (es.flatMap Element.bytes ++ (e.bytes ++ rest)).length - (e.bytes ++ rest).length =
          (es.flatMap Element.bytes).length := by
        rw [length_append, Nat.add_sub_cancel]
      rw [bytesBefore, hlen, take_left]
    have htypes : types (es.flatMap Element.bytes) = es.map elemType := by
      have h := elements_append es []
      rw [append_nil] at h
      rw [types, h, show elements [] = [] from rfl, append_nil]
    have hassoc : es.flatMap Element.bytes ++ (e.bytes ++ rest) =
        (es ++ [e]).flatMap Element.bytes ++ rest := by
      simp
    rw [scan_bytes_append, flatMap_cons, hbefore, htypes, hassoc, ih, passGroups, map_append]
    rfl

/-- An element of `ie` that is inherited: neither a fragment nor an empty extension, of a type
that the profile does not have, and accepted by `cfg80211_is_element_inherited`. -/
def Inherited (subie : List UInt8) (e : Element) : Prop :=
  elemType e ≠ none ∧ elemType e ∉ types subie ∧ inheritable subie e = true

/-- An element of `subie` that belongs to the BSS: neither a fragment nor an empty extension, and
a Non-Transmitted BSSID Capability or Non-Inheritance element only if `ie` has one too. -/
def Own (ie : List UInt8) (e : Element) : Prop :=
  elemType e ≠ none ∧
    ¬ ((e.id = eidNonTxBssidCap ∨ elemType e = some (eidExtension, [eidExtNonInheritance])) ∧
      elemType e ∉ types ie)

instance (subie : List UInt8) (e : Element) : Decidable (Inherited subie e) :=
  inferInstanceAs (Decidable (_ ∧ _))

instance (ie : List UInt8) (e : Element) : Decidable (Own ie e) :=
  inferInstanceAs (Decidable (_ ∧ _))

theorem filter_append_filter_perm {α : Type} {p q r : α → Bool} {l : List α}
    (h : ∀ x ∈ l, r x = (p x || q x)) (hdisj : ∀ x ∈ l, p x = true → q x = false) :
    (l.filter p ++ l.filter q).Perm (l.filter r) := by
  induction l with
  | nil => exact List.Perm.refl _
  | cons x l ih =>
    have hrest := ih (fun y hy => h y (.tail _ hy)) fun y hy =>
      hdisj y (.tail _ hy)
    have hx := h x (.head _)
    have hdx := hdisj x (.head _)
    cases hp : p x with
    | true =>
      simpa [hp, hdx hp, hx] using hrest
    | false =>
      cases hq : q x with
      | true =>
        simpa [hp, hq, hx] using perm_middle.trans (hrest.cons x)
      | false =>
        simpa [hp, hq, hx] using hrest

/-- An element of the profile whose type is new and among those of `xs`. -/
def Fresh (seen : List (Option (UInt8 × List UInt8))) (xs : List Place) (y : Place) : Prop :=
  elemType y.1 ≠ none ∧ elemType y.1 ∈ xs.map (fun x => elemType x.1) ∧ elemType y.1 ∉ seen

instance (seen : List (Option (UInt8 × List UInt8))) (xs : List Place) (y : Place) :
    Decidable (Fresh seen xs y) := inferInstanceAs (Decidable (_ ∧ _))

theorem fresh_cons {seen : List (Option (UInt8 × List UInt8))} {x y : Place} {xs : List Place} :
    Fresh seen (x :: xs) y ↔
      (elemType y.1 = elemType x.1 ∧ elemType y.1 ≠ none ∧ elemType y.1 ∉ seen) ∨
      Fresh (seen ++ [elemType x.1]) xs y := by
  simp only [Fresh, map_cons, mem_cons, mem_append, not_mem_nil, or_false]
  by_cases h : elemType y.1 = elemType x.1 <;> simp [h]

/-- **First pass.**  It writes the inherited elements, and those of the profile of the types it
meets first. -/
theorem passGroups_perm (seen : List (Option (UInt8 × List UInt8))) (xs : List Place) :
    (passGroups subie seen xs).Perm
      ((xs.filter fun x => Inherited subie x.1).map group ++
        ((scan subie).filter fun y => Fresh seen xs y).map group) := by
  induction xs generalizing seen with
  | nil => simp [passGroups, Fresh]
  | cons x xs ih =>
    have hrest := ih (seen ++ [elemType x.1])
    -- unless elements of the profile are copied, the fresh ones are those of the rest
    have hsame : (∀ y ∈ scan subie, elemType y.1 = elemType x.1 → elemType y.1 ≠ none →
          elemType y.1 ∈ seen) →
        ((scan subie).filter fun y => Fresh seen (x :: xs) y) =
          (scan subie).filter fun y => Fresh (seen ++ [elemType x.1]) xs y := by
      intro h
      apply filter_congr
      intro y hy
      rw [decide_eq_decide, fresh_cons, or_iff_right]
      rintro ⟨heq, hne, hnot⟩
      exact hnot (h y hy heq hne)
    rw [passGroups, parentGroups]
    cases ht : elemType x.1 with
    | none =>
      have hinh : ¬ Inherited subie x.1 := fun h => h.1 ht
      rw [hsame fun y _ heq hne => absurd (heq.trans ht) hne, filter_cons_of_neg (by simpa)]
      simpa [ht] using hrest
    | some t =>
      dsimp only
      split
      next hinh =>
        have hin : Inherited subie x.1 := ⟨by simp [ht], by rw [ht]; exact hinh.1, hinh.2⟩
        rw [hsame, filter_cons_of_pos (by simpa)]
        · simpa [ht] using hrest
        intro y hy heq
        refine absurd ?_ hinh.1
        rw [← ht, ← heq]
        exact mem_map_of_mem (mem_map_of_mem hy)
      next hinh =>
        have hin : ¬ Inherited subie x.1 := fun h => hinh ⟨by rw [← ht]; exact h.2.1, h.2.2⟩
        rw [filter_cons_of_neg (by simpa)]
        split
        next hseen =>
          rw [hsame fun y _ heq _ => by rwa [heq, ht]]
          simpa [ht] using hrest
        have hsplit : (ofType subie t ++
              (scan subie).filter fun y => Fresh (seen ++ [elemType x.1]) xs y).Perm
            ((scan subie).filter fun y => Fresh seen (x :: xs) y) := by
          apply filter_append_filter_perm
          · intro y _
            rw [← Bool.decide_or, decide_eq_decide, fresh_cons, ht]
            constructor
            · rintro (⟨heq, -⟩ | h)
              · exact .inl heq
              · exact .inr h
            · rintro (heq | h)
              · exact .inl ⟨heq, by simp [heq], by rwa [heq]⟩
              · exact .inr h
          · intro y _ heq
            rw [decide_eq_true_iff] at heq
            simp [Fresh, heq, ht]
        rw [← ht]
        refine (hrest.append_left _).trans ((perm_append_comm_assoc ..).trans ?_)
        rw [← map_append]
        exact (hsplit.map group).append_left _

theorem flatMap_subGroups (ie : List UInt8) (ys : List Place) :
    ys.flatMap (subGroups ie) = (ys.filter (subKept ie)).map group := by
  induction ys with
  | nil => rfl
  | cons y ys ih =>
    rw [flatMap_cons, ih, subGroups]
    cases h : subKept ie y <;> simp [h]

theorem filter_groups {p : Element → Prop} [DecidablePred p] (h : ∀ e, p e → elemType e ≠ none)
    (l : List UInt8) :
    (groups l).filter (fun g => p g.1) = ((scan l).filter fun x => p x.1).map group := by
  rw [groups, filter_map, filter_filter]
  congr 1
  apply filter_congr
  intro x _
  have hid : p x.1 → x.1.id ≠ eidFragment := by
    intro hp hid
    exact h x.1 hp (if_pos hid)
  by_cases hp : p x.1
  · simp [group, hp, hid hp]
  · simp [group, hp]

def newGroups (ie subie : List UInt8) : List Group :=
  ((groups subie).filter fun g => Own ie g.1) ++ (groups ie).filter fun g => Inherited subie g.1

theorem allGroups_perm (ie subie : List UInt8) :
    (allGroups ie subie).Perm (newGroups ie subie) := by
  have hpass : (scan ie).flatMap (fun x => parentGroups subie (types (bytesBefore ie x)) x) =
      passGroups subie [] (scan ie) := flatMap_parentGroups subie [] ie
  have hsubs : (((scan subie).filter fun y => Fresh [] (scan ie) y) ++
        (scan subie).filter (subKept ie)).Perm
      ((scan subie).filter fun y => Own ie y.1) := by
    have htypes : ∀ y : Place, elemType y.1 ∈ types ie ↔
        elemType y.1 ∈ (scan ie).map fun x => elemType x.1 := by
      intro y
      rw [types, elements, map_map]
      rfl
    apply filter_append_filter_perm
    · intro y _
      rw [subKept, ← Bool.decide_or, decide_eq_decide, Own, Fresh, htypes]
      by_cases h : elemType y.1 ∈ (scan ie).map fun x => elemType x.1 <;> simp [h]
      tauto
    · intro y _ hy
      rw [decide_eq_true_iff] at hy
      simp [subKept, htypes, hy.2.1]
  rw [allGroups, hpass, flatMap_subGroups, newGroups, filter_groups fun e h => h.1,
    filter_groups fun e h => h.1]
  refine ((passGroups_perm subie [] (scan ie)).append_right _).trans ?_
  rw [append_assoc, ← map_append]
  exact perm_append_comm.trans ((hsubs.map group).append_right _)

/-- `out` has the elements of the non-transmitted BSS. -/
structure Inherits (ie subie out : List UInt8) : Prop where
  /-- it is a sequence of elements with their fragments; -/
  wellFormed : (groups out).flatMap Group.bytes = out
  /-- those of the profile and -/
  own : ∀ g ∈ groups subie, Own ie g.1 → (groups out).count g = (groups subie).count g
  /-- the inherited ones occur as often as in their frames, -/
  inherited : ∀ g ∈ groups ie, Inherited subie g.1 → (groups out).count g = (groups ie).count g
  /-- and nothing else -/
  only : ∀ g ∈ groups out,
    (g ∈ groups subie ∧ Own ie g.1) ∨ (g ∈ groups ie ∧ Inherited subie g.1)

theorem groups_proper {l : List UInt8} {g : Group} (h : g ∈ groups l) : g.Proper := by
  obtain ⟨x, hx, rfl⟩ := mem_map.mp h
  exact group_proper (by simpa using (mem_filter.mp hx).2)

theorem mem_types_of_mem_groups {l : List UInt8} {g : Group} (h : g ∈ groups l) :
    elemType g.1 ∈ types l := by
  obtain ⟨x, hx, rfl⟩ := mem_map.mp h
  exact mem_map_of_mem (mem_map_of_mem (mem_filter.mp hx).1)

theorem mem_newGroups {ie subie : List UInt8} {g : Group} :
    g ∈ newGroups ie subie ↔
      (g ∈ groups subie ∧ Own ie g.1) ∨ (g ∈ groups ie ∧ Inherited subie g.1) := by
  simp [newGroups]

theorem inherits_of_perm {ie subie : List UInt8} {gs : List Group}
    (h : gs.Perm (newGroups ie subie)) : Inherits ie subie (gs.flatMap Group.bytes) := by
  have hproper : ∀ g ∈ gs, g.Proper := by
    intro g hg
    rcases mem_newGroups.mp (h.mem_iff.mp hg) with ⟨hg, -⟩ | ⟨hg, -⟩
    all_goals exact groups_proper hg
  have hgroups := groups_flatMap hproper
  -- an element of a type of the profile is not inherited
  have hcount : ∀ g, gs.count g = ((groups subie).filter fun g => Own ie g.1).count g +
      ((groups ie).filter fun g => Inherited subie g.1).count g := by
    intro g
    rw [h.count_eq, newGroups, count_append]
  refine ⟨by rw [hgroups], fun g hg hown => ?_, fun g hg hinh => ?_, fun g hg => ?_⟩
  · have hnot : g ∉ (groups ie).filter fun g => Inherited subie g.1 := by
      intro hmem
      have hinh := (mem_filter.mp hmem).2
      rw [decide_eq_true_iff] at hinh
      exact hinh.2.1 (mem_types_of_mem_groups hg)
    rw [hgroups, hcount, count_eq_zero.mpr hnot, Nat.add_zero, count_filter (by simpa using hown)]
  · have hnot : g ∉ (groups subie).filter fun g => Own ie g.1 := fun hmem =>
      hinh.2.1 (mem_types_of_mem_groups (mem_filter.mp hmem).1)
    rw [hgroups, hcount, count_eq_zero.mpr hnot, Nat.zero_add, count_filter (by simpa using hinh)]
  · rw [hgroups] at hg
    exact mem_newGroups.mp (h.mem_iff.mp hg)

def newSize (ie subie : List UInt8) : ℕ := ((newGroups ie subie).flatMap Group.bytes).length

/-- **Inheritance.**  If there is room, the output has the elements of the profile and those
inherited; if not, 0 is returned.  Nothing is written beyond the buffer. -/
theorem genNewIe_inherits (ie subie : List UInt8) (hml : ∀ e ∈ elements ie, ¬ IsMultiLink e)
    (newIeLen : ℕ) :
    (newSize ie subie ≤ newIeLen →
      ∃ out, genNewIe ie subie newIeLen = (newSize ie subie, out) ∧
        out.length = newSize ie subie ∧ Inherits ie subie out) ∧
    (newIeLen < newSize ie subie → (genNewIe ie subie newIeLen).1 = 0) ∧
    (genNewIe ie subie newIeLen).2.length ≤ newIeLen := by
  have hperm := allGroups_perm ie subie
  have hsize : ((allGroups ie subie).flatMap Group.bytes).length = newSize ie subie :=
    (hperm.flatMap_right _).length_eq
  rcases genNewIe_emits subie hml newIeLen with ⟨hle, hok⟩ | ⟨hlt, w, hw, herr⟩
  · rw [hsize] at hle hok
    refine ⟨fun _ => ⟨_, hok, hsize, inherits_of_perm hperm⟩, fun hlt => by omega, ?_⟩
    rw [hok, hsize]
    exact hle
  · refine ⟨fun hle => by omega, fun _ => by rw [herr], ?_⟩
    rw [herr]
    exact hw

/-- The SSID of the profile replaces that of the frame, an extension is inherited. -/
theorem genNewIe_inherits_ssid :
    (∀ e ∈ elements [0, 1, 65, 255, 2, 35, 1, 71, 1, 2], ¬ IsMultiLink e) ∧
    newSize [0, 1, 65, 255, 2, 35, 1, 71, 1, 2] [83, 2, 1, 0, 0, 1, 66] = 7 ∧
    ∃ out, Inherits [0, 1, 65, 255, 2, 35, 1, 71, 1, 2] [83, 2, 1, 0, 0, 1, 66] out ∧
      genNewIe [0, 1, 65, 255, 2, 35, 1, 71, 1, 2] [83, 2, 1, 0, 0, 1, 66] 64 = (7, out) := by
  have hml : ∀ e ∈ elements [0, 1, 65, 255, 2, 35, 1, 71, 1, 2], ¬ IsMultiLink e := by decide
  have hsize : newSize [0, 1, 65, 255, 2, 35, 1, 71, 1, 2] [83, 2, 1, 0, 0, 1, 66] = 7 := by decide
  obtain ⟨out, hout, -, hinh⟩ := (genNewIe_inherits _ _ hml 64).1 (by rw [hsize]; decide)
  exact ⟨hml, hsize, out, hinh, hsize ▸ hout⟩

/-- An empty extension is accepted by `cfg80211_is_element_inherited` and yet not inherited. -/
theorem empty_extension_dropped :
    ∃ (ie subie : List UInt8) (newIeLen : ℕ) (g : Group),
      (∀ e ∈ elements ie ++ elements subie, ¬ IsMultiLink e) ∧
      g ∈ groups ie ∧ g.1.id ≠ eidFragment ∧ elemType g.1 ∉ types subie ∧
      inheritable subie g.1 = true ∧ (ie ++ subie).length ≤ newIeLen ∧
      (groups (genNewIe ie subie newIeLen).2).count g ≠ (groups ie).count g :=
  ⟨[255, 0], [], 10, (⟨255, [], by decide⟩, []), by decide, by decide, by decide, by decide,
    by decide, by decide, by decide⟩

end Iwlwifi.Cfg80211
