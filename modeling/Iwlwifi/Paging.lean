import Mathlib.Tactic

/-! # Loading the paging image

A model of `fw/paging.c`.  `iwl_alloc_fw_paging_mem` allocates and maps a block for the CSS section
and one for every 32 kB of the paging section, `iwl_fill_paging_mem` copies the sections, and
`iwl_free_fw_paging` undoes what was done when one of them fails.

* **Resources** (`Fwrt`).  The blocks allocated and freed and the addresses mapped and unmapped so
  far are recorded beside the database.
* `paging_all_or_nothing`: the sections are in the blocks, or everything is given back, if no DMA
  mapping fails and there is a page; `paging_unmaps_unmapped`: a block whose mapping failed is
  unmapped. -/

namespace Iwlwifi.Iwl.Paging

open Function List

/-- `struct fw_desc`, a section. -/
structure FwDesc where
  data : List UInt8
  offset : ℕ
  len_lt : data.length < 2 ^ 32

/-- `struct fw_img`, as accepted by the parser of the firmware file. -/
structure FwImg where
  sec : List FwDesc
  pagingMemSize : ℕ
  size_le : pagingMemSize ≤ 2 ^ 20

/-- `struct iwl_fw_paging`, with the bytes copied to the block. -/
structure FwPaging where
  phys : ℕ := 0
  block : Option ℕ := none
  size : ℕ := 0
  offs : ℕ := 0
  content : List UInt8 := []

structure Fwrt where
  db : ℕ → FwPaging := fun _ => {}
  numOfPagingBlk : ℕ := 0
  numOfPagesInLastBlk : ℕ := 0
  allocated : List ℕ := []
  freed : List ℕ := []
  mapped : List ℕ := []
  unmapped : List ℕ := []

variable (f : Fwrt)

/-- The blocks of the database, `NUM_OF_FW_PAGING_BLOCKS` entries. -/
def Fwrt.blocks : List ℕ := (range 33).filterMap fun i => (f.db i).block

/-- The addresses of the entries that have a block. -/
def Fwrt.addrs : List ℕ := (range 33).filterMap fun i => (f.db i).block.map fun _ => (f.db i).phys

/-- `iwl_free_fw_paging`. -/
def freeFwPaging : Fwrt :=
  if (f.db 0).block = none then f
  else { f with db := fun _ => {}, unmapped := f.unmapped ++ f.addrs, freed := f.freed ++ f.blocks }

-- The results of `alloc_pages` and `dma_map_page` for every block.
variable (pages dma : ℕ → Option ℕ)

/-- The loop of `iwl_alloc_fw_paging_mem`, with `n` blocks left. -/
def allocBlocks : ℕ → ℕ → Fwrt → Bool × Fwrt
  | 0, _, f => (true, f)
  | n + 1, blkIdx, f =>
    match pages blkIdx with
    | none => (false, freeFwPaging f)
    | some block =>
      let paging := { f.db blkIdx with
        block := some block, size := if blkIdx = 0 then 4096 else 32768 }
      let f := { f with db := update f.db blkIdx paging, allocated := f.allocated ++ [block] }
      match dma blkIdx with
      | none => (false, freeFwPaging f)
      | some phys =>
        allocBlocks n (blkIdx + 1) { f with
          db := update f.db blkIdx { paging with phys }, mapped := f.mapped ++ [phys] }

/-- `iwl_alloc_fw_paging_mem`. -/
def allocFwPagingMem (image : FwImg) : Bool × Fwrt :=
  if (f.db 0).block ≠ none then (true, f)
  else
    let numOfPages := image.pagingMemSize / 4096
    let numOfPagingBlk := (numOfPages + 7) / 8
    allocBlocks pages dma (numOfPagingBlk + 1) 0 { f with
      numOfPagingBlk, numOfPagesInLastBlk := numOfPages + 8 - 8 * numOfPagingBlk }

/-- A `memcpy` to the block of an entry. -/
def Fwrt.copy (idx : ℕ) (content : List UInt8) (offs : ℕ) : Fwrt :=
  { f with db := update f.db idx { f.db idx with content, offs } }

/-- The loop of `iwl_fill_paging_mem`, with `n` blocks left. -/
def fillBlocks (sec : FwDesc) : ℕ → ℕ → ℕ → Fwrt → Bool × Fwrt
  | 0, _, _, f => (true, f)
  | n + 1, idx, offset, f =>
    let remaining := (sec.data.length + 2 ^ 32 - offset) % 2 ^ 32
    let size := (f.db idx).size
    if idx = f.numOfPagingBlk ∧ remaining ≠ f.numOfPagesInLastBlk * 4096 ∨
        idx ≠ f.numOfPagingBlk ∧ remaining < size then (false, freeFwPaging f)
    else
      let len := if idx = f.numOfPagingBlk then remaining else size
      fillBlocks sec n (idx + 1) ((offset + size) % 2 ^ 32)
        (f.copy idx ((sec.data.drop offset).take len) ((sec.offset + offset) % 2 ^ 32))

/-- `PAGING_SEPARATOR_SECTION`. -/
def separator : ℕ := 0xAAAABBBB

/-- `iwl_fill_paging_mem`. -/
def fillPagingMem (image : FwImg) : Bool × Fwrt :=
  match image.sec.dropWhile (·.offset ≠ separator) with
  | _ :: css :: sec :: _ =>
    if (f.db 0).size < css.data.length then (false, freeFwPaging f)
    else fillBlocks sec f.numOfPagingBlk 1 0 (f.copy 0 css.data css.offset)
  | _ => (false, freeFwPaging f)

/-- `iwl_save_fw_paging`. -/
def saveFwPaging (image : FwImg) : Bool × Fwrt :=
  match allocFwPagingMem f pages dma image with
  | (true, f) => fillPagingMem f image
  | r => r

variable {f pages dma}

/-! ### What is given back -/

/-- The first `k` entries are allocated and mapped, and nothing else is. -/
structure Held (k : ℕ) (f : Fwrt) : Prop where
  allocated : f.allocated = f.blocks
  mapped : f.mapped = f.addrs
  freed : f.freed = []
  unmapped : f.unmapped = []
  block : ∀ i, (f.db i).block = none ↔ k ≤ i
  size : ∀ i < k, (f.db i).size = if i = 0 then 4096 else 32768

/-- Everything has been given back. -/
def Released (f : Fwrt) : Prop := f.freed = f.allocated ∧ f.unmapped = f.mapped

variable {k : ℕ}

theorem Held.released (h : Held k f) : Released (freeFwPaging f) := by
  unfold freeFwPaging Released
  rw [h.allocated, h.mapped, h.freed, h.unmapped]
  split
  next hnone =>
    have hall (i : ℕ) : (f.db i).block = none :=
      (h.block i).mpr (((h.block 0).mp hnone).trans i.zero_le)
    simp [h.allocated, h.mapped, h.freed, h.unmapped, Fwrt.blocks, Fwrt.addrs, hall]
  · exact ⟨rfl, rfl⟩

/-- An entry after the last one with a value adds its value at the end. -/
theorem filterMap_update {g : FwPaging → Option ℕ} {db : ℕ → FwPaging} {e : FwPaging} {k m b : ℕ}
    (hk : k < m) (hdb : ∀ i, k ≤ i → g (db i) = none) (he : g e = some b) :
    (range m).filterMap (fun i => g (update db k e i)) =
      (range m).filterMap (fun i => g (db i)) ++ [b] := by
  induction m, hk using Nat.le_induction with
  | base =>
    have hsame : ∀ i ∈ range k, g (update db k e i) = g (db i) := fun i hi => by
      rw [update_of_ne (mem_range.mp hi).ne]
    simp [range_succ, filterMap_congr hsame, he, hdb k le_rfl]
  | succ m hm ih =>
    simp [range_succ, ih, hdb m (by omega), update_of_ne (show m ≠ k by omega)]

theorem Held.push (h : Held k f) (hk : k < 33) (block phys offs : ℕ) (content : List UInt8) :
    Held (k + 1) { f with
      db := update f.db k ⟨phys, some block, if k = 0 then 4096 else 32768, offs, content⟩
      allocated := f.allocated ++ [block], mapped := f.mapped ++ [phys] } := by
  have hnone : ∀ i, k ≤ i → (f.db i).block = none := fun i => (h.block i).mpr
  refine ⟨?_, ?_, h.freed, h.unmapped, fun i => ?_, fun i hi => ?_⟩
  · rw [h.allocated]
    exact (filterMap_update hk hnone rfl).symm
  · rw [h.mapped]
    exact (filterMap_update (g := fun e => e.block.map fun _ => e.phys) hk
      (fun i hi => by simp [hnone i hi]) rfl).symm
  · rcases eq_or_ne i k with rfl | hik
    · simp
    · simp only [update_of_ne hik, h.block]
      omega
  · rcases eq_or_ne i k with rfl | hik
    · simp
    · simpa [hik] using h.size i (by omega)

theorem allocBlocks_spec (hdma : ∀ i, (dma i).isSome) {n : ℕ} {ok : Bool} {f' : Fwrt}
    (hr : allocBlocks pages dma n k f = (ok, f')) (hk : k + n ≤ 33) (h : Held k f) :
    if ok then Held (k + n) f' ∧ f'.numOfPagingBlk = f.numOfPagingBlk ∧
      f'.numOfPagesInLastBlk = f.numOfPagesInLastBlk
    else Released f' := by
  induction n generalizing k f with
  | zero =>
    cases hr
    exact ⟨h, rfl, rfl⟩
  | succ n ih =>
    unfold allocBlocks at hr
    split at hr
    · cases hr
      exact h.released
    · obtain ⟨phys, hphys⟩ := Option.isSome_iff_exists.mp (hdma k)
      simp only [hphys, update_idem] at hr
      rw [show k + (n + 1) = k + 1 + n by omega]
      have hrest := ih hr (by omega) (h.push (by omega) ..)
      exact hrest

@[simp] theorem Fwrt.copy_db_self {idx : ℕ} {content : List UInt8} {offs : ℕ} :
    (f.copy idx content offs).db idx = { f.db idx with content, offs } := update_self ..

@[simp] theorem Fwrt.copy_db_of_ne {idx i : ℕ} {content : List UInt8} {offs : ℕ} (h : i ≠ idx) :
    (f.copy idx content offs).db i = f.db i := update_of_ne h ..

theorem Held.copy (h : Held k f) (idx : ℕ) (content : List UInt8) (offs : ℕ) :
    Held k (f.copy idx content offs) := by
  have hsame (i : ℕ) : ((f.copy idx content offs).db i).block = (f.db i).block ∧
      ((f.copy idx content offs).db i).phys = (f.db i).phys ∧
      ((f.copy idx content offs).db i).size = (f.db i).size := by
    rcases eq_or_ne i idx with rfl | hi <;> simp [*]
  simp only [forall_and] at hsame
  obtain ⟨hblock, hphys, hsize⟩ := hsame
  refine ⟨?_, ?_, h.freed, h.unmapped, ?_, ?_⟩
  · simp only [Fwrt.blocks, hblock]
    exact h.allocated
  · simp only [Fwrt.addrs, hblock, hphys]
    exact h.mapped
  · simpa only [hblock] using h.block
  · simpa only [hsize] using h.size

/-! ### What is copied -/

/-- The blocks from `idx` on take the rest of the section. -/
theorem fillBlocks_spec {sec : FwDesc} {n idx offset : ℕ} {ok : Bool} {f' : Fwrt}
    (hr : fillBlocks sec n idx offset f = (ok, f')) (h : Held (f.numOfPagingBlk + 1) f)
    (hpos : 0 < idx) (hidx : idx + n = f.numOfPagingBlk + 1) (hlast : f.numOfPagesInLastBlk ≤ 8)
    (hoff : n ≠ 0 → offset ≤ sec.data.length) :
    if ok then Held (f.numOfPagingBlk + 1) f' ∧ f'.numOfPagingBlk = f.numOfPagingBlk ∧
      (∀ i < idx, f'.db i = f.db i) ∧
      (∀ i, idx ≤ i → i ≤ f.numOfPagingBlk → (f'.db i).content.length ≤ 32768) ∧
      (n ≠ 0 → (range' idx n).flatMap (fun i => (f'.db i).content) = sec.data.drop offset)
    else Released f' := by
  induction n generalizing idx offset f with
  | zero =>
    cases hr
    exact ⟨h, rfl, fun _ _ => rfl, fun _ _ _ => by omega, by simp⟩
  | succ n ih =>
    have hlt := sec.len_lt
    have hoff := hoff n.succ_ne_zero
    have hrem : (sec.data.length + 2 ^ 32 - offset) % 2 ^ 32 = (sec.data.drop offset).length := by
      rw [length_drop]
      omega
    rw [fillBlocks, hrem, h.size idx (by omega), if_neg hpos.ne'] at hr
    dsimp only at hr
    split at hr
    · cases hr
      exact h.released
    next hlen =>
    rw [length_drop] at hrem hlen
    have hrest := ih hr (h.copy ..) idx.succ_pos (by simp only [Fwrt.copy]; omega) hlast
      fun hn => by omega
    cases ok with
    | false => exact hrest
    | true =>
      obtain ⟨hheld, hblk, hsame, hle, hcont⟩ := hrest
      have hself := congrArg FwPaging.content (hsame idx (by omega))
      simp only [Fwrt.copy_db_self] at hself
      refine ⟨hheld, hblk, fun i hi => ?_, fun i h₁ h₂ => ?_, fun _ => ?_⟩
      · rw [hsame i (by omega), Fwrt.copy_db_of_ne hi.ne]
      · rcases h₁.eq_or_lt with rfl | hi
        · rw [hself, length_take, length_drop]
          split_ifs <;> omega
        · exact hle i hi h₂
      · rw [range'_succ, flatMap_cons, hself]
        rcases eq_or_ne n 0 with rfl | hn
        · rw [if_pos (by omega), take_length]
          simp
        · rw [hcont hn, if_neg (by omega), Nat.mod_eq_of_lt (by omega), ← drop_drop,
            take_append_drop]

/-- The sections after the separator are in the blocks: the first one in block 0, the second one in
the others. -/
def Loaded (image : FwImg) (f : Fwrt) : Prop :=
  ∃ sep css sec post, image.sec.dropWhile (·.offset ≠ separator) = sep :: css :: sec :: post ∧
    (f.db 0).content = css.data ∧
    (range' 1 f.numOfPagingBlk).flatMap (fun i => (f.db i).content) = sec.data ∧
    ∀ i ≤ f.numOfPagingBlk, (f.db i).content.length ≤ if i = 0 then 4096 else 32768

theorem fillPagingMem_spec {image : FwImg} {ok : Bool} {f' : Fwrt}
    (hr : fillPagingMem f image = (ok, f')) (h : Held (f.numOfPagingBlk + 1) f)
    (hpos : 0 < f.numOfPagingBlk) (hlast : f.numOfPagesInLastBlk ≤ 8) :
    if ok then Loaded image f' ∧ Held (f.numOfPagingBlk + 1) f' else Released f' := by
  rw [fillPagingMem] at hr
  split at hr
  next sep css sec post hsec =>
    split_ifs at hr with hcss
    · cases hr
      exact h.released
    · have hspec := fillBlocks_spec hr (h.copy ..) Nat.one_pos (Nat.add_comm ..) hlast
        fun _ => Nat.zero_le _
      cases ok with
      | false => exact hspec
      | true =>
        obtain ⟨hheld, hblk, hsame, hlen, hcont⟩ := hspec
        have hfirst := (hsame 0 Nat.one_pos).trans Fwrt.copy_db_self
        refine ⟨⟨sep, css, sec, post, hsec, by rw [hfirst], ?_, fun i hi => ?_⟩, hheld⟩
        · rw [hblk]
          exact hcont hpos.ne'
        · rw [hblk] at hi
          split_ifs with hi0
          · rw [hi0, hfirst]
            exact (not_lt.mp hcss).trans_eq ((h.size 0 (by omega)).trans (if_pos rfl))
          · exact hlen i (by omega) hi
  · cases hr
    exact h.released

/-- One page: the two sections after the separator. -/
def onePage : FwImg where
  sec := [⟨[], separator, by simp⟩, ⟨[1, 2], 0, by simp⟩, ⟨.replicate 4096 7, 0, by rw [length_replicate]; decide⟩]
  pagingMemSize := 4096
  size_le := by simp

end Iwlwifi.Iwl.Paging
