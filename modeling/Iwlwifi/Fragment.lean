import Iwlwifi.Elements
import Iwlwifi.Memory
import Iwlwifi.Transition

/-! # Fragmentation of elements

A model of `ieee80211_fragment_element` (`net/wireless/util.c`) and of
`cfg80211_defragment_element` (`net/wireless/scan.c`) on memory, and their round trip.

* **Encoder** (`fragmentElement`).  The element is the end of an skb.  While it is longer than 255
  bytes, the rest is moved up by two and a fragment header is put in front of it.
  `fragmentElement_encoded`: what stands in memory afterwards is `Tlv.fragmented`.
* **Decoder** (`defragmentElement`).  The data of the element and of the fragments that follow it
  is moved to a destination, which may overlap the element, or only counted.
  `defragmentElement_gathered`: on `Tlv.fragmented` it gives back the data, as long as
  the destination does not reach into fragments not yet read.
* `fragment_roundtrip` composes the two, also for a fragmented subelement of a fragmented element.

Addresses and lengths are natural numbers; `skb_put` has the tail room that it needs. -/

namespace Iwlwifi.Cfg80211

open Memory Tlv List

/-! ### Encoder -/

/-- A socket buffer: `len` bytes of memory from `data` on. -/
structure Skb where
  mem : Mem
  data : ℕ
  len : ℕ

def Skb.tail (skb : Skb) : ℕ := skb.data + skb.len

/-- `skb_put`: the bytes added are those that are in memory. -/
def skbPut (skb : Skb) (n : ℕ) : Skb := { skb with len := skb.len + n }

/-- `skb_put_data`. -/
def skbPutData (skb : Skb) (l : List UInt8) : Skb :=
  { skb with mem := storeList skb.mem skb.tail l, len := skb.len + l.length }

/-- The variables of `ieee80211_fragment_element`. -/
structure FragmentLoop where
  skb : Skb
  lenPos : ℕ
  elemLen : ℕ

/-- One iteration: 255 bytes stay, the rest is moved up and gets a header. -/
def fragmentBody (fragId : UInt8) (s : FragmentLoop) : FragmentLoop :=
  let mem := store s.skb.mem s.lenPos 255
  let elemLen := s.elemLen - 255
  let skb := skbPut { s.skb with mem := mem } 2
  let mem := memmove skb.mem (s.lenPos + 255 + 3) (s.lenPos + 255 + 1) elemLen
  let lenPos := s.lenPos + 255 + 1
  { skb := { skb with mem := store mem lenPos fragId }
    lenPos := lenPos + 1
    elemLen := elemLen }

def fragmentLoop (fragId : UInt8) (n : ℕ) (s : FragmentLoop) : Skb :=
  let s := whileLoop (fun s => decide (255 < s.elemLen)) (fragmentBody fragId) n s
  { s.skb with mem := store s.skb.mem s.lenPos (UInt8.ofNat s.elemLen) }

/-- `ieee80211_fragment_element`. -/
def fragmentElement (skb : Skb) (lenPos : Option ℕ) (fragId : UInt8) : Skb :=
  match lenPos with
  | none => skb
  | some lenPos =>
    let elemLen := skb.data + skb.len - lenPos - 1
    fragmentLoop fragId elemLen ⟨skb, lenPos, elemLen⟩

/-! ### Decoder -/

inductive Errno
  | einval
  | enospc
deriving DecidableEq, Repr

/-- The conversion of a `ssize_t` to `size_t`. -/
def sizeT (n : ℤ) : ℕ := (n % 2 ^ 64).toNat

/-- Copy `n` bytes to offset `off` of the destination, if there is one and it is large enough. -/
def copyOut (data : Option ℕ) (dataLen : ℕ) (mem : Mem) (off src n : ℕ) : Except Errno Mem :=
  match data with
  | none => .ok mem
  | some d => if dataLen < off + n then .error .enospc else .ok (memmove mem (d + off) src n)

def afterCopy (r : Except Errno Mem) (mem : Mem) (k : Mem → Except Errno ℤ × Mem) :
    Except Errno ℤ × Mem :=
  match r with
  | .error e => (.error e, mem)
  | .ok mem' => k mem'

/-- The loop of `cfg80211_defragment_element` over the elements before `ends`.  `n` bounds the number
of iterations; each passes at least two bytes. -/
def defragmentLoop (ends : ℕ) (data : Option ℕ) (dataLen : ℕ) (fragId : UInt8) :
    ℕ → Mem → ℕ → ℕ → Except Errno ℤ × Mem
  | 0, mem, _, copied => (.ok copied, mem)
  | n + 1, mem, elem, copied =>
    if elem + 2 < ends ∧ elem + 2 + (mem (elem + 1)).toNat ≤ ends then
      if mem elem ≠ fragId then (.ok copied, mem)
      else
        let elemDatalen := (mem (elem + 1)).toNat
        afterCopy (copyOut data dataLen mem copied (elem + 2) elemDatalen) mem fun mem' =>
          if elemDatalen ≠ 255 then (.ok (copied + elemDatalen : ℕ), mem')
          else
            defragmentLoop ends data dataLen fragId n mem' (elem + 2 + elemDatalen)
              (copied + elemDatalen)
    else (.ok copied, mem)

/-- `cfg80211_defragment_element`: the return value and the memory afterwards. -/
def defragmentElement (mem : Mem) (elem : Option ℕ) (ies ieslen : ℕ) (data : Option ℕ)
    (dataLen : ℕ) (fragId : UInt8) : Except Errno ℤ × Mem :=
  match elem with
  | none => (.error .einval, mem)
  | some elem =>
    let datalen := (mem (elem + 1)).toNat
    if elem < ies ∨ ies + ieslen < elem + 2 ∨ ies + ieslen < elem + 2 + datalen then
      (.error .einval, mem)
    else
      -- an extended element starts with its extended identifier, which is not copied
      let ext : ℕ := if mem elem = eidExtension then 1 else 0
      let copied : ℤ := datalen - ext
      afterCopy (copyOut data dataLen mem 0 (elem + 2 + ext) (sizeT copied)) mem fun mem' =>
        if datalen < 255 then (.ok copied, mem')
        else
          defragmentLoop (ies + ieslen) data dataLen fragId ieslen mem' (elem + 2 + datalen)
            copied.toNat

/-! ### What the encoder writes -/

variable {fragId : UInt8}

/-- The encoder has turned `p`, whose length byte is at `lenPos`, into an element with fragments. -/
structure Encoded (fragId : UInt8) (p : List UInt8) (s : FragmentLoop) (r : Skb) : Prop where
  data : r.data = s.skb.data
  bytes : load r.mem s.lenPos (lenFragmented fragId p).length = lenFragmented fragId p
  /-- what is before the length byte stays -/
  below : ∀ x < s.lenPos, r.mem x = s.skb.mem x
  len : r.len + p.length + 1 = s.skb.len + (lenFragmented fragId p).length

variable {l p : List UInt8} {elem ies ieslen : ℕ} (k : ElementKind)

theorem encoded_last {s : FragmentLoop} (hp : load s.skb.mem (s.lenPos + 1) p.length = p)
    (h : p.length ≤ 255) :
    Encoded fragId p s
      { s.skb with mem := store s.skb.mem s.lenPos (UInt8.ofNat p.length) } where
  data := rfl
  bytes := by
    simp only [lenFragmented_of_le h, length_cons, load_succ, store_self]
    rw [load_store_of_disjoint (by omega), hp]
  below := fun x hx => store_of_ne (by omega)
  len := by
    rw [lenFragmented_of_le h, length_cons, Nat.add_assoc]

theorem load_fragmentBody_head (s : FragmentLoop) :
    load (fragmentBody fragId s).skb.mem s.lenPos 257 =
      255 :: load s.skb.mem (s.lenPos + 1) 255 ++ [fragId] := by
  have hid : load (fragmentBody fragId s).skb.mem (s.lenPos + 1 + 255) 1 = [fragId] := by
    exact congrArg (fun x => [x]) (store_self ..)
  have hlen : (fragmentBody fragId s).skb.mem s.lenPos = 255 := by
    simp only [fragmentBody, skbPut]
    rw [store_of_ne (by omega), memmove_of_disjoint (by omega), store_self]
  have hdata : load (fragmentBody fragId s).skb.mem (s.lenPos + 1) 255 =
      load s.skb.mem (s.lenPos + 1) 255 := by
    simp only [fragmentBody, skbPut]
    rw [load_store_of_disjoint (by omega), load_memmove_of_disjoint (by omega),
      load_store_of_disjoint (by omega)]
  rw [load_succ, hlen, load_add _ _ 255 1, hdata, hid]
  rfl

theorem load_fragmentBody_rest (fragId : UInt8) (s : FragmentLoop) :
    load (fragmentBody fragId s).skb.mem (s.lenPos + 258) (s.elemLen - 255) =
      load s.skb.mem (s.lenPos + 256) (s.elemLen - 255) := by
  simp only [fragmentBody, skbPut]
  rw [load_store_of_disjoint (by omega), load_memmove, load_store_of_disjoint (by omega)]

theorem Encoded.step {s : FragmentLoop} (hp : load s.skb.mem (s.lenPos + 1) p.length = p)
    (h : 255 < p.length) {r : Skb}
    (hr : Encoded fragId (p.drop 255) (fragmentBody fragId s) r) : Encoded fragId p s r := by
  have hpos : (fragmentBody fragId s).lenPos = s.lenPos + 257 := rfl
  have htake : load s.skb.mem (s.lenPos + 1) 255 = p.take 255 := by
    have hsplit := load_add s.skb.mem (s.lenPos + 1) 255 (p.length - 255)
    rw [Nat.add_sub_cancel' (by omega), hp] at hsplit
    rw [hsplit, take_left' (by simp)]
  have hhead : load r.mem s.lenPos 257 = 255 :: p.take 255 ++ [fragId] := by
    rw [← htake, ← load_fragmentBody_head]
    apply load_congr
    intro x _ hx
    exact hr.below x (by omega)
  have heq : lenFragmented fragId p =
      (255 :: p.take 255 ++ [fragId]) ++ lenFragmented fragId (p.drop 255) := by
    rw [lenFragmented_of_lt h]
    simp
  have hlen : (255 :: p.take 255 ++ [fragId]).length = 257 := by
    simp only [length_append, length_cons, length_take, length_nil]
    omega
  refine ⟨hr.data, ?_, ?_, ?_⟩
  · rw [heq, length_append, load_add, hlen, hhead, ← hpos, hr.bytes]
  · intro x hx
    rw [hr.below x (by omega)]
    simp only [fragmentBody, skbPut]
    rw [store_of_ne (by omega), memmove_of_disjoint (by omega), store_of_ne (by omega)]
  have hsk := hr.len
  have : (fragmentBody fragId s).skb.len = s.skb.len + 2 := rfl
  rw [heq, length_append, hlen]
  rw [length_drop] at hsk
  omega

theorem fragmentLoop_encoded (n : ℕ) (s : FragmentLoop)
    (hp : load s.skb.mem (s.lenPos + 1) p.length = p) (hlen : s.elemLen = p.length)
    (hn : p.length ≤ n + 255) : Encoded fragId p s (fragmentLoop fragId n s) := by
  induction n generalizing s p with
  | zero =>
    simp only [fragmentLoop, whileLoop, hlen]
    exact encoded_last hp (by omega)
  | succ n ih =>
    unfold fragmentLoop
    rw [whileLoop]
    by_cases h : 255 < p.length
    · rw [if_pos (by simpa [hlen] using h)]
      apply Encoded.step hp h
      apply ih
      · have hrest := load_fragmentBody_rest fragId s
        rw [hlen] at hrest
        have hsplit := load_add s.skb.mem (s.lenPos + 1) 255 (p.length - 255)
        rw [Nat.add_sub_cancel' (by omega), hp] at hsplit
        rw [hsplit, drop_left' (by simp), length_load]
        exact hrest
      · simp only [fragmentBody, hlen, length_drop]
      · rw [length_drop]
        omega
    · rw [if_neg (by simpa [hlen] using h)]
      simp only [hlen]
      exact encoded_last hp (by omega)

/-- **Encoder.**  `ieee80211_fragment_element` on an skb that ends with the contents of an element. -/
theorem fragmentElement_encoded {skb : Skb} {lenPos : ℕ}
    (hp : load skb.mem (lenPos + 1) p.length = p) (htail : skb.tail = lenPos + 1 + p.length) :
    Encoded fragId p ⟨skb, lenPos, p.length⟩ (fragmentElement skb (some lenPos) fragId) := by
  have hlen : skb.data + skb.len - lenPos - 1 = p.length := by
    rw [Skb.tail] at htail
    omega
  simp only [fragmentElement, hlen]
  exact fragmentLoop_encoded p.length _ hp rfl (by omega)

/-! ### What the decoder gathers -/

variable {mem : Mem} {data : Option ℕ} {dataLen c ends : ℕ} {q rest : List UInt8}

/-- `rest` does not start with an element of identifier `fragId`. -/
def Stops (fragId : UInt8) (rest : List UInt8) : Prop := ∀ e ∈ first rest, e.1.id ≠ fragId

instance (rest : List UInt8) : Decidable (Stops fragId rest) :=
  inferInstanceAs (Decidable (∀ e ∈ first rest, e.1.id ≠ fragId))

/-- The data `q` was put at offset `c` of the destination, if it fits, and counted. -/
structure Gathered (data : Option ℕ) (dataLen c : ℕ) (q : List UInt8) (mem : Mem)
    (r : Except Errno ℤ × Mem) : Prop where
  counted : data = none → r.1 = .ok (c + q.length : ℕ)
  copied : ∀ d, data = some d → c + q.length ≤ dataLen →
    r.1 = .ok (c + q.length : ℕ) ∧ load r.2 (d + c) q.length = q ∧
      ∀ x, x < d + c ∨ d + c + q.length ≤ x → r.2 x = mem x
  full : ∀ d, data = some d → dataLen < c + q.length → r.1 = .error .enospc

theorem gathered_nil (mem : Mem) (h : ∀ d, data = some d → c ≤ dataLen) :
    Gathered data dataLen c [] mem (.ok c, mem) where
  counted := fun _ => rfl
  copied := fun _ _ _ => ⟨rfl, rfl, fun _ _ => rfl⟩
  full := fun d hd hlt => absurd (h d hd) (by simpa using hlt)

section copyOut
variable {src k : ℕ} {mem' : Mem}

theorem copyOut_ok (h : copyOut data dataLen mem c src k = .ok mem') : data = none ∧ mem' = mem ∨
    ∃ d, data = some d ∧ c + k ≤ dataLen ∧ mem' = memmove mem (d + c) src k := by
  cases data with
  | none =>
    cases h
    exact .inl ⟨rfl, rfl⟩
  | some d =>
    simp only [copyOut] at h
    split at h <;> cases h
    exact .inr ⟨d, rfl, by omega, rfl⟩

theorem copyOut_error {e : Errno} (h : copyOut data dataLen mem c src k = .error e) :
    ∃ d, data = some d ∧ dataLen < c + k ∧ e = .enospc := by
  cases data with
  | none => cases h
  | some d =>
    simp only [copyOut] at h
    split at h <;> cases h
    exact ⟨d, rfl, by omega, rfl⟩

theorem copyOut_fits (h : copyOut data dataLen mem c src k = .ok mem') :
    ∀ d, data = some d → c + k ≤ dataLen := by
  rcases copyOut_ok h with ⟨rfl, -⟩ | ⟨d, rfl, hle, -⟩
  · nofun
  · exact fun _ _ => hle

end copyOut

theorem Gathered.append {src : ℕ} {mem' : Mem} {r : Except Errno ℤ × Mem}
    (h : copyOut data dataLen mem c src l.length = .ok mem') (hl : load mem src l.length = l)
    (hr : Gathered data dataLen (c + l.length) q mem' r) :
    Gathered data dataLen c (l ++ q) mem r := by
  rcases copyOut_ok h with ⟨rfl, rfl⟩ | ⟨d, rfl, hle, rfl⟩
  · refine ⟨fun hd => ?_, by simp, by simp⟩
    rw [hr.counted hd, length_append, Nat.add_assoc]
  refine ⟨by simp, ?_, ?_⟩
  · rintro _ ⟨⟩ hfit
    rw [length_append] at hfit
    obtain ⟨hret, hload, hframe⟩ := hr.copied d rfl (by omega)
    have hfirst : load r.2 (d + c) l.length = l := by
      refine Eq.trans ?_ ((load_memmove mem (d + c) src l.length).trans hl)
      apply load_congr
      intro x hx hx'
      exact hframe x (by omega)
    refine ⟨?_, ?_, ?_⟩
    · rw [hret, length_append, Nat.add_assoc]
    · rw [length_append, load_add, hfirst, Nat.add_assoc, hload]
    · intro x hx
      rw [length_append] at hx
      rw [hframe x (by omega), memmove_of_disjoint (by omega)]
  · rintro _ ⟨⟩ hlt
    rw [length_append] at hlt
    exact hr.full d rfl (by omega)

theorem gathered_afterCopy {src : ℕ} {k : Mem → Except Errno ℤ × Mem}
    (hl : load mem src l.length = l)
    (hk : ∀ mem', copyOut data dataLen mem c src l.length = .ok mem' →
      Gathered data dataLen (c + l.length) q mem' (k mem')) :
    Gathered data dataLen c (l ++ q) mem
      (afterCopy (copyOut data dataLen mem c src l.length) mem k) := by
  cases hco : copyOut data dataLen mem c src l.length with
  | ok mem' => exact Gathered.append hco hl (hk mem' hco)
  | error e =>
    -- it does not fit, and then the whole does not
    obtain ⟨d, rfl, hlt, rfl⟩ := copyOut_error hco
    refine ⟨by simp, ?_, fun _ _ _ => rfl⟩
    intro _ _ hle
    rw [length_append] at hle
    omega

/-- A copy to a place before the fragments not yet read, or behind all of them. -/
def Clear (data : Option ℕ) (c elem ends : ℕ) : Prop :=
  ∀ d, data = some d → d + c ≤ elem ∨ ends ≤ d

theorem load_copyOut {src k next n : ℕ} {mem' : Mem}
    (h : copyOut data dataLen mem c src k = .ok mem') (hclear : Clear data (c + k) next ends)
    (hn : next + n ≤ ends) : load mem' next n = load mem next n := by
  rcases copyOut_ok h with ⟨-, rfl⟩ | ⟨d, rfl, -, rfl⟩
  · rfl
  have := hclear d rfl
  exact load_memmove_of_disjoint (by omega)

theorem toNat_min (n : ℕ) : (UInt8.ofNat (min 255 n)).toNat = min 255 n := by
  rw [UInt8.toNat_ofNat']
  omega

theorem load_element {a : ℕ} {id len : UInt8}
    (h : load mem a (id :: len :: l).length = id :: len :: l) :
    mem a = id ∧ mem (a + 1) = len ∧ load mem (a + 2) l.length = l := by
  rw [length_cons, length_cons, load_succ, load_succ] at h
  obtain ⟨h1, h⟩ := List.cons.inj h
  obtain ⟨h2, h3⟩ := List.cons.inj h
  exact ⟨h1, h2, h3⟩

theorem defragmentLoop_stops (hstop : Stops fragId rest) {elem : ℕ}
    (hload : load mem elem rest.length = rest) (hend : elem + rest.length = ends) (n : ℕ) :
    defragmentLoop ends data dataLen fragId n mem elem c = (.ok c, mem) := by
  cases n with
  | zero => rfl
  | succ n =>
    rw [defragmentLoop]
    split
    next hin =>
      match rest, hload, hend, hstop with
      | [], _, hend, _ => simp at hend; omega
      | [_], _, hend, _ => simp at hend; omega
      | id :: len :: l, hload, hend, hstop =>
        obtain ⟨hid, hlen, -⟩ := load_element hload
        rw [hlen] at hin
        simp only [length_cons] at hend
        have hne := hstop _ (by rw [first, if_pos (by omega)]; exact rfl)
        rw [if_pos (by rw [hid]; exact hne)]
    · rfl

theorem defragmentLoop_gathered (rest : List UInt8) (n elem : ℕ) (mem : Mem)
    (hload : load mem elem (frags fragId q ++ rest).length = frags fragId q ++ rest)
    (hend : elem + (frags fragId q ++ rest).length = ends)
    (hstop : q.length % 255 = 0 → Stops fragId rest) (hclear : Clear data c elem ends)
    (hfit : ∀ d, data = some d → c ≤ dataLen) (hn : q.length ≤ n) :
    Gathered data dataLen c q mem (defragmentLoop ends data dataLen fragId n mem elem c) := by
  induction n generalizing elem mem q c with
  | zero =>
    have hq : q = [] := length_eq_zero_iff.mp (by omega)
    subst hq
    exact gathered_nil _ hfit
  | succ n ih =>
    by_cases hq : q = []
    · subst hq
      rw [frags_nil, nil_append] at hload hend
      rw [defragmentLoop_stops (hstop rfl) hload hend]
      exact gathered_nil _ hfit
    have hpos := length_pos_iff.mpr hq
    rw [frags_of_ne_nil hq, lenFragmented] at hload hend
    simp only [cons_append, append_assoc] at hload hend
    obtain ⟨hid, hlen, hrest⟩ := load_element hload
    obtain ⟨htake, hrest⟩ := load_append hrest
    have htl : (q.take 255).length = min 255 q.length := length_take
    have hdl : (mem (elem + 1)).toNat = (q.take 255).length := by
      rw [hlen, toNat_min, htl]
    simp only [length_cons, length_append] at hend
    rw [defragmentLoop, if_pos ⟨by omega, by omega⟩, if_neg (by simpa using hid)]
    simp only [hdl]
    have hclear' : Clear data (c + (q.take 255).length) (elem + 2 + (q.take 255).length) ends := by
      intro d hd
      have := hclear d hd
      omega
    refine Eq.subst (motive := fun l => Gathered data dataLen c l mem _)
      (take_append_drop 255 q) (gathered_afterCopy htake fun mem' hco => ?_)
    by_cases hfull : (q.take 255).length = 255
    · rw [if_neg (not_not.mpr hfull)]
      apply ih
      · rw [load_copyOut hco hclear' (by rw [length_append]; omega)]
        exact hrest
      · rw [length_append]
        omega
      · rw [length_drop]
        intro h
        exact hstop (by omega)
      · exact hclear'
      · exact copyOut_fits hco
      · rw [length_drop]
        omega
    · rw [if_pos hfull, drop_eq_nil_of_le (by omega)]
      exact gathered_nil _ (copyOut_fits hco)

/-! ### Round trip -/

/-- The identifiers of an element to be written. -/
structure ElementKind where
  id : UInt8
  /-- the extended identifier -/
  ext : Option UInt8
  fragId : UInt8
  ext_iff : id = eidExtension ↔ ext.isSome

def ElementKind.body (k : ElementKind) (p : List UInt8) : List UInt8 := k.ext.toList ++ p

/-- The bytes of an element with contents `p` and its fragments. -/
def ElementKind.bytes (k : ElementKind) (p : List UInt8) : List UInt8 :=
  fragmented k.id k.fragId (k.body p)

/-- An element as it is written: header, extended identifier and contents, then
`ieee80211_fragment_element`. -/
def putElement (k : ElementKind) (contents : Skb → Skb) (skb : Skb) : Skb :=
  let skb := skbPutData skb [k.id]
  let lenPos := skb.tail
  let skb := skbPut skb 1
  let skb := skbPutData skb k.ext.toList
  fragmentElement (contents skb) (some lenPos) k.fragId

/-- `f` adds the bytes `l` to an skb. -/
structure Appends (f : Skb → Skb) (l : List UInt8) : Prop where
  data : ∀ s, (f s).data = s.data
  len : ∀ s, (f s).len = s.len + l.length
  below : ∀ s, ∀ x < s.tail, (f s).mem x = s.mem x
  bytes : ∀ s, load (f s).mem s.tail l.length = l

theorem Appends.tail {f : Skb → Skb} (h : Appends f l) (s : Skb) :
    (f s).tail = s.tail + l.length := by
  rw [Skb.tail, h.data, h.len, Skb.tail, Nat.add_assoc]

theorem appends_skbPutData (l : List UInt8) : Appends (skbPutData · l) l where
  data := fun _ => rfl
  len := fun _ => rfl
  below := fun _ _ hx => storeList_of_lt hx
  bytes := fun s => load_storeList s.mem s.tail l

theorem Appends.comp {f g : Skb → Skb} {l l' : List UInt8} (hg : Appends g l') (hf : Appends f l) :
    Appends (fun s => g (f s)) (l ++ l') where
  data := fun s => by rw [hg.data, hf.data]
  len := fun s => by rw [hg.len, hf.len, length_append, Nat.add_assoc]
  below := fun s x hx => by
    rw [hg.below _ x (by rw [hf.tail]; omega), hf.below s x hx]
  bytes := fun s => by
    have hfirst : load (g (f s)).mem s.tail l.length = l := by
      refine Eq.trans (load_congr fun x _ hx => ?_) (hf.bytes s)
      exact hg.below _ x (by rwa [hf.tail])
    rw [length_append, load_add, hfirst, ← hf.tail, hg.bytes]

theorem appends_putElement {contents : Skb → Skb} (h : Appends contents p) :
    Appends (putElement k contents) (k.bytes p) := by
  -- after the header come the extended identifier and the contents
  have hbody : Appends (fun s => contents (skbPutData s k.ext.toList)) (k.body p) :=
    h.comp (appends_skbPutData _)
  have henc : ∀ s : Skb, Encoded k.fragId (k.body p)
      ⟨contents (skbPutData (skbPut (skbPutData s [k.id]) 1) k.ext.toList), s.tail + 1,
        (k.body p).length⟩ (putElement k contents s) :=
    fun s => fragmentElement_encoded (hbody.bytes _) (hbody.tail _)
  have hlen : ∀ q, (k.bytes q).length = (lenFragmented k.fragId (k.body q)).length + 1 :=
    fun _ => rfl
  -- below the contents is the header
  have hbelow : ∀ s : Skb, ∀ x ≤ s.tail,
      (putElement k contents s).mem x = storeList s.mem s.tail [k.id] x := by
    intro s x hx
    rw [(henc s).below x (by simpa using Nat.lt_succ_of_le hx)]
    exact hbody.below _ x (Nat.lt_of_le_of_lt hx (Nat.lt_add_of_pos_right (Nat.zero_lt_two)))
  refine ⟨fun s => ?_, fun s => ?_, fun s x hx => ?_, fun s => ?_⟩
  · rw [(henc s).data]
    exact hbody.data _
  · have hadded := (henc s).len
    have hput := hbody.len (skbPut (skbPutData s [k.id]) 1)
    have hheader : (skbPut (skbPutData s [k.id]) 1).len = s.len + 2 := rfl
    simp only at hadded hput
    rw [hlen]
    omega
  · rw [hbelow s x (Nat.le_of_lt hx), storeList_of_lt hx]
  · have hid : (putElement k contents s).mem s.tail = k.id := by
      rw [hbelow s _ (Nat.le_refl _)]
      simp [storeList]
    rw [hlen, load_succ, hid, (henc s).bytes]
    rfl

theorem ElementKind.length_ext : (if k.id = eidExtension then 1 else 0) = k.ext.toList.length := by
  have h := k.ext_iff
  cases hext : k.ext with
  | none => simp [h, hext]
  | some x => simp [h, hext]

theorem ElementKind.length_ext_le : k.ext.toList.length ≤ 1 := by
  rw [← k.length_ext]
  split <;> omega

theorem ElementKind.length_body (p : List UInt8) :
    (k.body p).length = k.ext.toList.length + p.length := length_append

theorem ElementKind.take_body (p : List UInt8) :
    (k.body p).take 255 = k.ext.toList ++ p.take (255 - k.ext.toList.length) := by
  have := k.length_ext_le
  rw [ElementKind.body, take_append, take_of_length_le (by omega)]

theorem ElementKind.drop_body (p : List UInt8) :
    (k.body p).drop 255 = p.drop (255 - k.ext.toList.length) := by
  have := k.length_ext_le
  rw [ElementKind.body, drop_append, drop_eq_nil_of_le (by omega), nil_append]

theorem sizeT_natCast {n : ℕ} (h : n < 2 ^ 64) : sizeT n = n := by
  simp only [sizeT]
  omega

/-- The last fragment of `p` is full. -/
def ElementKind.LastFull (k : ElementKind) (p : List UInt8) : Prop :=
  0 < (k.body p).length ∧ (k.body p).length % 255 = 0

/-- The bytes `rest` after an element with contents `p` are not taken for one more fragment of it. -/
def ElementKind.Followed (k : ElementKind) (p rest : List UInt8) : Prop :=
  k.LastFull p → Stops k.fragId rest

/-- A destination in front of the first byte to be copied, or after the buffer. -/
def Dest (k : ElementKind) (elem ies ieslen dest : ℕ) : Prop :=
  dest ≤ elem + 2 + k.ext.toList.length ∨ ies + ieslen ≤ dest

/-- The element at `elem` is put together to `p`. -/
structure Defragments (mem : Mem) (k : ElementKind) (elem ies ieslen : ℕ) (p : List UInt8) :
    Prop where
  /-- without a destination the length is returned, -/
  counts : ∀ dataLen,
    (defragmentElement mem (some elem) ies ieslen none dataLen k.fragId).1 = .ok p.length
  /-- which the copying call copies, wherever the destination is, -/
  copies : ∀ dest dataLen, Dest k elem ies ieslen dest → p.length ≤ dataLen →
    ∃ mem', defragmentElement mem (some elem) ies ieslen (some dest) dataLen k.fragId =
        (.ok p.length, mem') ∧
      load mem' dest p.length = p ∧ ∀ x, x < dest ∨ dest + p.length ≤ x → mem' x = mem x
  /-- if there is room for it -/
  full : ∀ dest dataLen, Dest k elem ies ieslen dest →
    ((defragmentElement mem (some elem) ies ieslen (some dest) dataLen k.fragId).1 =
      .error .enospc ↔ dataLen < p.length)

section
variable {k} (hload : load mem elem (k.bytes p ++ rest).length = k.bytes p ++ rest)
  (hies : ies ≤ elem) (hend : elem + (k.bytes p ++ rest).length = ies + ieslen)
  (hrest : k.Followed p rest)
include hload hies hend hrest

theorem defragmentElement_gathered
    (hclear : Clear data 0 (elem + 2 + k.ext.toList.length) (ies + ieslen)) :
    Gathered data dataLen 0 p mem
      (defragmentElement mem (some elem) ies ieslen data dataLen k.fragId) := by
  rw [ElementKind.bytes, fragmented, lenFragmented] at hload hend
  simp only [cons_append, append_assoc] at hload hend
  obtain ⟨hid, hlen, hbody⟩ := load_element hload
  obtain ⟨htake, hfrags⟩ := load_append hbody
  simp only [length_cons, length_append] at hend
  have hfirst := htake
  rw [k.take_body] at hfirst
  obtain ⟨-, hfirst⟩ := load_append hfirst
  rw [k.drop_body] at hfrags hend
  have hext := k.length_ext_le
  have hlb := k.length_body p
  generalize hm : 255 - k.ext.toList.length = m at *
  have hl : (p.take m).length = min 255 (k.body p).length - k.ext.toList.length := by
    rw [length_take]
    omega
  have hcopied : ((min 255 (k.body p).length : ℕ) : ℤ) - (k.ext.toList.length : ℕ) =
      ((p.take m).length : ℕ) := by
    omega
  have htl : ((k.body p).take 255).length = min 255 (k.body p).length := length_take
  simp only [defragmentElement, hid, hlen, toNat_min, k.length_ext, hcopied, Int.toNat_natCast]
  rw [if_neg (by omega), sizeT_natCast (by omega)]
  refine Eq.subst (motive := fun l => Gathered data dataLen 0 l mem _)
    (take_append_drop m p)
    (gathered_afterCopy hfirst fun mem' hco => ?_)
  have hclear' : Clear data (0 + (p.take m).length)
      (elem + 2 + min 255 (k.body p).length) (ies + ieslen) := by
    intro d hd
    have := hclear d hd
    omega
  by_cases hshort : min 255 (k.body p).length < 255
  · rw [if_pos hshort, drop_eq_nil_of_le (by omega)]
    have hnil := gathered_nil mem' (copyOut_fits hco)
    rwa [Nat.zero_add] at hnil ⊢
  rw [if_neg hshort]
  suffices hmore : Gathered data dataLen (0 + (p.take m).length)
      (p.drop m) mem'
      (defragmentLoop (ies + ieslen) data dataLen k.fragId ieslen mem'
        (elem + 2 + min 255 (k.body p).length)
        (0 + (p.take m).length)) by
    simpa only [Nat.zero_add] using hmore
  refine defragmentLoop_gathered rest ieslen _ mem' ?_ ?_ ?_ hclear' (copyOut_fits hco) ?_
  · rw [load_copyOut hco hclear' (by rw [length_append]; omega), ← htl]
    exact hfrags
  · rw [length_append]
    omega
  · rw [length_drop]
    intro hfull
    apply hrest
    constructor <;> omega
  · have := length_le_frags k.fragId (p.drop m)
    omega

theorem defragments : Defragments mem k elem ies ieslen p := by
  have hdest : ∀ dest dataLen, Dest k elem ies ieslen dest → Gathered (some dest) dataLen 0 p mem
      (defragmentElement mem (some elem) ies ieslen (some dest) dataLen k.fragId) := by
    intro dest dataLen h
    apply defragmentElement_gathered hload hies hend hrest
    rintro _ ⟨⟩
    exact h
  refine ⟨fun dataLen => ?_, fun dest dataLen h hle => ?_,
    fun dest dataLen h => ⟨fun herr => ?_, fun hlt => ?_⟩⟩
  · have h : Gathered none dataLen 0 p mem
        (defragmentElement mem (some elem) ies ieslen none dataLen k.fragId) :=
      defragmentElement_gathered hload hies hend hrest (by simp [Clear])
    simpa using h.counted rfl
  · obtain ⟨hret, hload, hframe⟩ := (hdest dest dataLen h).copied dest rfl (by omega)
    rw [Nat.zero_add] at hret
    exact ⟨_, Prod.ext hret rfl, hload, hframe⟩
  · by_contra hle
    obtain ⟨hret, -⟩ := (hdest dest dataLen h).copied dest rfl (by omega)
    rw [hret] at herr
    cases herr
  · exact (hdest dest dataLen h).full dest rfl (by omega)

end

theorem Appends.defragments {k : ElementKind} {contents : Skb → Skb} (h : Appends contents p)
    (hrest : k.Followed p rest) {skb : Skb} {ies ieslen : ℕ}
    (hies : ies ≤ skb.tail)
    (hend : ies + ieslen = (skbPutData (putElement k contents skb) rest).tail) :
    Defragments (skbPutData (putElement k contents skb) rest).mem k skb.tail ies ieslen p := by
  have happ : Appends (fun s => skbPutData (putElement k contents s) rest) (k.bytes p ++ rest) :=
    (appends_skbPutData rest).comp (appends_putElement k h)
  apply Cfg80211.defragments (happ.bytes skb) hies _ hrest
  rw [hend, happ.tail]

theorem Defragments.nested {k k' : ElementKind} {pre q post post' : List UInt8}
    (h : Defragments mem k elem ies ieslen (pre ++ k'.bytes q ++ (post ++ post')))
    (hpost : k'.Followed q post) {dest dataLen : ℕ} (hdest : Dest k elem ies ieslen dest)
    (hlen : (pre ++ k'.bytes q ++ (post ++ post')).length ≤ dataLen) {ies' ieslen' : ℕ}
    (hies : ies' ≤ dest + pre.length)
    (hend : ies' + ieslen' = dest + (pre ++ k'.bytes q ++ post).length) :
    Defragments (defragmentElement mem (some elem) ies ieslen (some dest) dataLen k.fragId).2 k'
      (dest + pre.length) ies' ieslen' q := by
  obtain ⟨mem', hret, hload, -⟩ := h.copies dest dataLen hdest hlen
  rw [hret]
  have hassoc : pre ++ k'.bytes q ++ (post ++ post') = pre ++ ((k'.bytes q ++ post) ++ post') := by
    simp only [append_assoc]
  rw [hassoc] at hload
  obtain ⟨-, hload⟩ := load_append hload
  obtain ⟨hload, -⟩ := load_append hload
  apply defragments hload hies _ hpost
  rw [hend, append_assoc, length_append, length_append, length_append]
  omega

def putNested (k : ElementKind) (pre q post : List UInt8) (skb : Skb) : Skb :=
  skbPutData (putElement k (skbPutData · q) (skbPutData skb pre)) post

theorem appends_putNested (pre q post : List UInt8) :
    Appends (putNested k pre q post) (pre ++ k.bytes q ++ post) :=
  (appends_skbPutData post).comp
    ((appends_putElement k (appends_skbPutData q)).comp (appends_skbPutData pre))

/-- **Round trip.**  An element fragmented at the end of an skb, and followed by bytes that are no
fragment of it, is put together to its contents, counted or copied to any destination in front of
them or outside the buffer; and in the copy a subelement. -/
theorem fragment_roundtrip (skb : Skb) (k : ElementKind) (rest : List UInt8) (ies ieslen : ℕ)
    (hies : ies ≤ skb.tail) :
    (∀ p, k.Followed p rest →
      ies + ieslen = (skbPutData (putElement k (skbPutData · p) skb) rest).tail →
      Defragments (skbPutData (putElement k (skbPutData · p) skb) rest).mem k skb.tail ies ieslen
        p) ∧
    ∀ (k' : ElementKind) (pre q post post' p : List UInt8),
      p = pre ++ k'.bytes q ++ (post ++ post') → k.Followed p rest → k'.Followed q post →
      ∀ skb', skb' = skbPutData (putElement k (putNested k' pre q (post ++ post')) skb) rest →
        ies + ieslen = skb'.tail →
        Defragments skb'.mem k skb.tail ies ieslen p ∧
        ∀ dest dataLen, Dest k skb.tail ies ieslen dest → p.length ≤ dataLen →
          ∀ ies' ieslen', ies' ≤ dest + pre.length →
            ies' + ieslen' = dest + (pre ++ k'.bytes q ++ post).length →
            Defragments
              (defragmentElement skb'.mem (some skb.tail) ies ieslen (some dest) dataLen k.fragId).2
              k' (dest + pre.length) ies' ieslen' q := by
  constructor
  · intro p hrest hend
    exact (appends_skbPutData p).defragments hrest hies hend
  rintro k' pre q post post' _ rfl hrest hpost _ rfl hend
  have h := (appends_putNested k' pre q (post ++ post')).defragments hrest hies hend
  exact ⟨h, fun dest dataLen hdest hlen ies' ieslen' hies' hend' =>
    h.nested hpost hdest hlen hies' hend'⟩

def multiLink : ElementKind := ⟨255, some 107, 242, by decide⟩

def perStaProfile : ElementKind := ⟨0, none, 254, by decide⟩

def emptySkb : Skb := ⟨fun _ => 0, 0, 0⟩

def fullSkb : Skb :=
  skbPutData (putElement multiLink (skbPutData · (List.replicate 254 7)) emptySkb) [1, 0]

/-- A Multi-Link element with a profile whose last fragment is full. -/
def nestedSkb : Skb :=
  skbPutData (putElement multiLink
    (putNested perStaProfile [9] (List.replicate 255 5) ([0, 0] ++ [])) emptySkb) [1, 0]

theorem fragment_roundtrip_full :
    multiLink.LastFull (List.replicate 254 7) ∧ perStaProfile.LastFull (List.replicate 255 5) ∧
    Defragments fullSkb.mem multiLink 0 0 fullSkb.tail (List.replicate 254 7) ∧
    ∃ n, Defragments
      (defragmentElement nestedSkb.mem (some 0) 0 nestedSkb.tail (some 3) 600 242).2 perStaProfile
      (3 + 1) 3 n (List.replicate 255 5) :=
  ⟨by rw [ElementKind.LastFull, ElementKind.length_body, length_replicate]; decide,
    by rw [ElementKind.LastFull, ElementKind.length_body, length_replicate]; decide,
    (fragment_roundtrip emptySkb multiLink [1, 0] 0 fullSkb.tail (by decide)).1 _
      (fun _ => by decide) (Nat.zero_add _),
    _, ((fragment_roundtrip emptySkb multiLink [1, 0] 0 nestedSkb.tail (by decide)).2
      perStaProfile [9] (List.replicate 255 5) [0, 0] [] _ rfl (fun _ => by decide)
      (fun _ => by decide) nestedSkb rfl (Nat.zero_add _)).2 3 600 (.inl (by decide))
      (by
        have hle : (perStaProfile.body (List.replicate 255 5)).length ≤ 255 := by
          rw [ElementKind.length_body, length_replicate]
          decide
        rw [ElementKind.bytes, fragmented, lenFragmented_of_le hle]
        simp only [length_append, length_cons, ElementKind.length_body, length_replicate]
        decide)
      3 _ (by decide) rfl⟩

end Iwlwifi.Cfg80211
