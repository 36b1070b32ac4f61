import Iwlwifi.Access
import Iwlwifi.Transition

/-! # PNVM images

A model of `iwl_pnvm_parse` (`drivers/net/wireless/intel/iwlwifi/fw/pnvm.c`), which looks for the
section of a SKU in an image and collects the payloads of this section.

* **Image.**  A sequence of TLVs, each a type, a length and data that is padded to a multiple of
  four bytes.  Memory behind the image can hold anything.
* **Loops.**  `iwl_pnvm_parse` walks over the TLVs of the image; behind the TLV of its SKU,
  `iwl_pnvm_handle_section` walks over the same TLVs with a position of its own and stops at the
  next SKU.  Each round of either loop is a step (`next`), with the bytes that it reads.
* **Lengths.**  Both loops compare the rest of the image, a `size_t`, with the length of the TLV and
  then subtract the padded length.

`pnvm_parse_safe_iff` says when the parser stays inside of the image; `image_overrun`: two images
for which it does not. -/

namespace Iwlwifi.Pnvm

open Access List

/-! ### Data -/

/-- `IWL_UCODE_TLV_MEM_DESC`. -/
def tlvMemDesc : ℕ := 7
/-- `IWL_UCODE_TLV_SEC_RT`. -/
def tlvSecRt : ℕ := 19
/-- `IWL_UCODE_TLV_HW_TYPE`. -/
def tlvHwType : ℕ := 58
/-- `IWL_UCODE_TLV_PNVM_VERSION`. -/
def tlvPnvmVersion : ℕ := 62
/-- `IWL_UCODE_TLV_PNVM_SKU`. -/
def tlvPnvmSku : ℕ := 64

/-- `sizeof(struct iwl_ucode_tlv)`. -/
def tlvHdrLen : ℕ := 8

/-- `sizeof(struct iwl_sku_id)`. -/
def skuIdLen : ℕ := 12

/-- `IPC_DRAM_MAP_ENTRY_NUM_MAX`. -/
def maxChunks : ℕ := 64

/-- `struct iwl_trans`, as far as the parser reads it, and the SKU that it looks for. -/
structure Trans where
  hwRev : ℕ
  hwRfId : ℕ
  skuId : ℕ × ℕ × ℕ

/-- `CSR_HW_REV_TYPE`. -/
def hwRevType (v : ℕ) : ℕ := v / 2 ^ 4 % 2 ^ 12

/-- `CSR_HW_RFID_TYPE`. -/
def hwRfidType (v : ℕ) : ℕ := v / 2 ^ 12 % 2 ^ 12

structure Chunk where
  data : ℕ
  len : ℕ
deriving DecidableEq, Repr

/-- `struct iwl_pnvm_image`. -/
structure PnvmImage where
  chunks : List Chunk := []
  version : ℕ := 0
deriving DecidableEq, Repr

/-- `ALIGN(len, 4)` of a `u32`. -/
def align4 (len : ℕ) : ℕ := (len + 3) % 2 ^ 32 / 4 * 4

/-- `data`, as an offset, and `len` of a loop. -/
structure Cursor where
  data : ℕ
  len : ℕ
deriving DecidableEq, Repr

def Cursor.skipHdr (c : Cursor) : Cursor := ⟨c.data + tlvHdrLen, c.len - tlvHdrLen⟩

/-- `len -= ALIGN(tlv_len, 4); data += ALIGN(tlv_len, 4);` -/
def Cursor.advance (c : Cursor) (tlvLen : ℕ) : Cursor :=
  ⟨c.data + align4 tlvLen, (c.len + 2 ^ 64 - align4 tlvLen) % 2 ^ 64⟩

/-! ### TLVs of a section -/

section parser
variable (mem : ℕ → UInt8) (trans : Trans)

/-- `iwl_uefi_handle_tlv_mem_desc`: the image with another payload, or `-EINVAL`. -/
def handleTlvMemDesc (data tlvLen : ℕ) (image : PnvmImage) : Access (Option PnvmImage) :=
  if tlvLen < 8 then pure none
  else do
    let dataLen := tlvLen - 8
    let size ← le32At mem (data + 4)
    if size ≠ dataLen then pure none
    else if image.chunks.length = maxChunks then pure none
    else pure (some { image with chunks := image.chunks ++ [⟨data + 8, dataLen⟩] })

/-- What happens after a TLV of a section: the loop goes on, ends, or `-EINVAL` is returned. -/
inductive TlvResult
  | next (hwMatch : Bool) (image : PnvmImage)
  | done
  | invalid

def separator : ℕ := 0xddddeeee

/-- The `switch` in `iwl_pnvm_handle_section`, with the data of the TLV at `data`. -/
def handleTlv (tlvType data tlvLen : ℕ) (hwMatch : Bool) (image : PnvmImage) : Access TlvResult :=
  if tlvType = tlvPnvmVersion then
    if tlvLen < 4 then pure (.next hwMatch image)
    else do
      let sha1 ← le32At mem data
      pure (.next hwMatch { image with version := sha1 })
  else if tlvType = tlvHwType then
    if tlvLen < 4 then pure (.next hwMatch image)
    else if hwMatch then pure (.next hwMatch image)
    else do
      let macType ← le16At mem data
      let rfId ← le16At mem (data + 2)
      pure (.next (macType = hwRevType trans.hwRev ∧ rfId = hwRfidType trans.hwRfId) image)
  else if tlvType = tlvSecRt then do
    let dataLen := (tlvLen + 2 ^ 32 - 4) % 2 ^ 32
    let word ← le32At mem data
    if word = separator then pure (.next hwMatch image)
    else if image.chunks.length = maxChunks then pure .invalid
    else pure (.next hwMatch { image with chunks := image.chunks ++ [⟨data + 4, dataLen⟩] })
  else if tlvType = tlvMemDesc then do
    match ← handleTlvMemDesc mem data tlvLen image with
    | none => pure .invalid
    | some image => pure (.next hwMatch image)
  else if tlvType = tlvPnvmSku then pure .done
  else pure (.next hwMatch image)

/-! ### The loops -/

inductive Ret
  | ok
  | enoent
  | einval
deriving DecidableEq, Repr

/-- At the head of the loop of `iwl_pnvm_parse`, of that of `iwl_pnvm_handle_section` called with
`outer`, or at its end. -/
inductive Ctl
  | parse (c : Cursor)
  | handleSection (outer c : Cursor) (hwMatch : Bool)
  | ret (r : Ret)
deriving DecidableEq, Repr

structure State where
  ctl : Ctl
  image : PnvmImage := {}
  /-- `trans->reduced_cap_sku` -/
  reducedCapSku : Bool := false
deriving DecidableEq, Repr

/-- The end of `iwl_pnvm_handle_section`; its caller goes on if the section is not the one. -/
def sectionEnd (s : State) (outer : Cursor) (hwMatch : Bool) : State :=
  if !hwMatch then { s with ctl := .parse outer }
  else if s.image.chunks = [] then { s with ctl := .parse outer }
  else { s with ctl := .ret .ok }

/-- The end of a round, for a TLV whose data is at `c`. -/
def afterTlv (s : State) (outer c : Cursor) (tlvLen : ℕ) (hwMatch : Bool) : TlvResult → State
  | .next hwMatch image =>
    { s with ctl := .handleSection outer (c.advance tlvLen) hwMatch, image := image }
  | .done => sectionEnd s outer hwMatch
  | .invalid => { s with ctl := .parse outer }

/-- One round of the loop of `iwl_pnvm_handle_section`. -/
def sectionRound (s : State) (outer c : Cursor) (hwMatch : Bool) : Access State :=
  if c.len < tlvHdrLen then pure (sectionEnd s outer hwMatch)
  else do
    let tlvLen ← le32At mem (c.data + 4)
    let tlvType ← le32At mem c.data
    let c := c.skipHdr
    if c.len < tlvLen then pure { s with ctl := .parse outer }
    else do
      let result ← handleTlv mem trans tlvType c.data tlvLen hwMatch s.image
      pure (afterTlv s outer c tlvLen hwMatch result)

/-- One round of the loop of `iwl_pnvm_parse`. -/
def parseRound (s : State) (c : Cursor) : Access State :=
  if c.len < tlvHdrLen then pure { s with ctl := .ret .enoent }
  else do
    let tlvLen ← le32At mem (c.data + 4)
    let tlvType ← le32At mem c.data
    let c := c.skipHdr
    if c.len < tlvLen then pure { s with ctl := .ret .einval }
    else if tlvType = tlvPnvmSku then
      if tlvLen < skuIdLen then pure { s with ctl := .ret .einval }
      else do
        let sku₀ ← le32At mem c.data
        let sku₁ ← le32At mem (c.data + 4)
        let sku₂ ← le32At mem (c.data + 8)
        let c := c.advance tlvLen
        let s := { s with
          reducedCapSku := trans.skuId.1.testBit 25 && hwRfidType trans.hwRfId == 0x112 }
        if trans.skuId = (sku₀, sku₁, sku₂) then
          -- the section starts with `memset(pnvm_data, 0, ..)`
          pure { s with ctl := .handleSection c c false, image := {} }
        else pure { s with ctl := .parse c }
    else pure { s with ctl := .parse (c.advance tlvLen) }

def next (s : State) : Option (Access State) :=
  match s.ctl with
  | .parse c => some (parseRound mem trans s c)
  | .handleSection outer c hwMatch => some (sectionRound mem trans s outer c hwMatch)
  | .ret _ => none

def step (s : State) (_ : Unit) : Option (List (ℕ × ℕ) × State) :=
  (next mem trans s).map fun a => (a.reads, a.val)

/-- `iwl_pnvm_parse` is called for an image of this size. -/
def init (size : ℕ) : State := { ctl := .parse ⟨0, size⟩ }

end parser

/-! ### What is required -/

section safety
variable (mem : ℕ → UInt8) (trans : Trans) (size : ℕ)

def Chunk.Inside (c : Chunk) : Prop := c.data + c.len ≤ size

/-- The parser returns, reads bytes of the image only and records parts of the image only. -/
structure Safe : Prop where
  returns : ∃ ls s r, Run (step mem trans) (init size) ls s ∧ s.ctl = .ret r
  reads : ∀ ls s, Run (step mem trans) (init size) ls s →
    ∀ l ∈ ls, ∀ r ∈ l.out, r.1 + r.2 ≤ size
  chunks : ∀ ls s, Run (step mem trans) (init size) ls s → ∀ c ∈ s.image.chunks, c.Inside size

def tlvLen (c : Cursor) : ℕ := (le32At mem (c.data + 4)).val

def tlvType (c : Cursor) : ℕ := (le32At mem c.data).val

def tlvWord (c : Cursor) : ℕ := (le32At mem (c.data + 8)).val

/-- The TLV at the cursor is accepted by the check of its length. -/
def Accepted (c : Cursor) : Prop := tlvHdrLen ≤ c.len ∧ tlvLen mem c ≤ c.len - tlvHdrLen

def Padded (c : Cursor) : Prop := align4 (tlvLen mem c) ≤ c.len - tlvHdrLen

/-- The loop over a section goes on behind the TLV at the cursor. -/
def Passed (c : Cursor) (image : PnvmImage) : Prop :=
  tlvType mem c ≠ tlvPnvmSku ∧
    (tlvType mem c = tlvSecRt → tlvWord mem c = separator ∨ image.chunks.length ≠ maxChunks) ∧
    (tlvType mem c = tlvMemDesc → 8 ≤ tlvLen mem c ∧
      (le32At mem (c.data + 12)).val = tlvLen mem c - 8 ∧ image.chunks.length ≠ maxChunks)

/-- A runtime section has room for its offset.  A shorter one does no harm if what follows it is
read as a separator, or if there is no place for it, or if 4 GiB follow. -/
def SecRtOk (c : Cursor) (image : PnvmImage) : Prop :=
  tlvType mem c = tlvSecRt → 4 ≤ tlvLen mem c ∨
    (4 ≤ c.len - tlvHdrLen ∧ (tlvWord mem c = separator ∨ image.chunks.length = maxChunks ∨
      2 ^ 32 + tlvLen mem c ≤ c.len - tlvHdrLen))

/-- **The condition**: the TLV has its padding if the loop passes it, and is no short runtime
section. -/
def RoundOk (s : State) : Prop :=
  match s.ctl with
  | .parse c => Accepted mem c → (tlvType mem c = tlvPnvmSku → skuIdLen ≤ tlvLen mem c) →
      Padded mem c
  | .handleSection _ c _ => Accepted mem c → SecRtOk mem c s.image ∧
      (Passed mem c s.image → Padded mem c)
  | .ret _ => True

end safety

/-! ### One round -/

section round
variable {mem : ℕ → UInt8} {trans : Trans} {size : ℕ} {c outer : Cursor} {image : PnvmImage}
  {hwMatch : Bool} {s : State}

def Cursor.Ok (size : ℕ) (c : Cursor) : Prop := c.data + c.len = size

theorem Cursor.Ok.advance {size : ℕ} {c : Cursor} {len : ℕ} (h : c.Ok size) (hsize : size < 2 ^ 64)
    (hhdr : tlvHdrLen ≤ c.len) (hpad : align4 len ≤ c.len - tlvHdrLen) :
    (c.skipHdr.advance len).Ok size ∧ (c.skipHdr.advance len).len + tlvHdrLen ≤ c.len := by
  unfold Cursor.Ok at *
  simp only [Cursor.advance, Cursor.skipHdr]
  omega

theorem Cursor.Ok.advance_wraps {size : ℕ} {c : Cursor} {len : ℕ} (h : c.Ok size)
    (hhdr : tlvHdrLen ≤ c.len) (hlen : len ≤ c.len - tlvHdrLen)
    (hpad : ¬align4 len ≤ c.len - tlvHdrLen) :
    size < (c.skipHdr.advance len).data ∧ tlvHdrLen ≤ (c.skipHdr.advance len).len := by
  have halign : align4 len ≤ len + 3 := by
    unfold align4
    omega
  unfold Cursor.Ok at h
  simp only [Cursor.advance, Cursor.skipHdr, tlvHdrLen] at *
  omega

theorem within_handleTlvMemDesc {data len : ℕ} :
    Within size (handleTlvMemDesc mem data len image) ↔ (8 ≤ len → data + 8 ≤ size) := by
  unfold handleTlvMemDesc
  split
  · simp
    omega
  · simp
    omega

theorem val_handleTlvMemDesc {data len : ℕ} :
    (handleTlvMemDesc mem data len image).val =
      if 8 ≤ len ∧ (le32At mem (data + 4)).val = len - 8 ∧ image.chunks.length ≠ maxChunks then
        some { image with chunks := image.chunks ++ [⟨data + 8, len - 8⟩] }
      else none := by
  unfold handleTlvMemDesc
  by_cases hlen : len < 8
  · rw [if_pos hlen, if_neg (by omega)]
    rfl
  by_cases hval : (le32At mem (data + 4)).val = len - 8
  · by_cases hfull : image.chunks.length = maxChunks
    · simp [hlen, hval, hfull]
    · simp [hlen, hval, hfull, Nat.le_of_not_lt hlen]
  · simp [hlen, hval]

section tlv
variable {type data len : ℕ} (hwMatch : Bool) (image : PnvmImage)

theorem handleTlv_secRt :
    handleTlv mem trans tlvSecRt data len hwMatch image = (do
      let word ← le32At mem data
      if word = separator then pure (.next hwMatch image)
      else if image.chunks.length = maxChunks then pure .invalid
      else pure (.next hwMatch { image with
        chunks := image.chunks ++ [⟨data + 4, (len + 2 ^ 32 - 4) % 2 ^ 32⟩] })) := rfl

theorem handleTlv_memDesc :
    handleTlv mem trans tlvMemDesc data len hwMatch image = (do
      match ← handleTlvMemDesc mem data len image with
      | none => pure .invalid
      | some image => pure (.next hwMatch image)) := rfl

theorem handleTlv_pnvmSku :
    handleTlv mem trans tlvPnvmSku data len hwMatch image = pure .done := rfl

theorem handleTlv_other (mem : ℕ → UInt8) (trans : Trans) (data len : ℕ) (hwMatch : Bool)
    (image : PnvmImage) (hrt : type ≠ tlvSecRt)
    (hdesc : type ≠ tlvMemDesc) (hsku : type ≠ tlvPnvmSku) :
    (∃ hw image', (handleTlv mem trans type data len hwMatch image).val = .next hw image' ∧
      image'.chunks = image.chunks) ∧
    ∀ size, data + len ≤ size → Within size (handleTlv mem trans type data len hwMatch image) := by
  unfold handleTlv
  split
  · split
    · exact ⟨⟨_, _, rfl, rfl⟩, fun _ _ => within_pure _⟩
    · refine ⟨⟨_, _, rfl, rfl⟩, fun size h => ?_⟩
      simp
      omega
  split
  · split
    · exact ⟨⟨_, _, rfl, rfl⟩, fun _ _ => within_pure _⟩
    split
    · exact ⟨⟨_, _, rfl, rfl⟩, fun _ _ => within_pure _⟩
    · refine ⟨⟨_, _, rfl, rfl⟩, fun size h => ?_⟩
      simp
      omega
  · exact ⟨⟨_, _, rfl, rfl⟩, fun _ _ => within_pure _⟩

end tlv

abbrev tlvAt (mem : ℕ → UInt8) (trans : Trans) (c : Cursor) (hwMatch : Bool) (image : PnvmImage) :
    Access TlvResult :=
  handleTlv mem trans (tlvType mem c) (c.data + tlvHdrLen) (tlvLen mem c) hwMatch image

/-- **The loop goes on** behind exactly the TLVs that are `Passed`. -/
theorem tlvAt_next_iff (trans : Trans) (hwMatch : Bool) :
    (∃ hw image', (tlvAt mem trans c hwMatch image).val = .next hw image') ↔
      Passed mem c image := by
  unfold tlvAt Passed
  by_cases hrt : tlvType mem c = tlvSecRt
  · rw [hrt, handleTlv_secRt]
    by_cases hsep : tlvWord mem c = separator
    · have hsep' : (le32At mem (c.data + tlvHdrLen)).val = separator := hsep
      simp [hsep, hsep', tlvSecRt, tlvPnvmSku, tlvMemDesc]
    have hsep' : ¬(le32At mem (c.data + tlvHdrLen)).val = separator := hsep
    by_cases hfull : image.chunks.length = maxChunks
    · simp [hsep, hsep', hfull]
    · simp [hsep, hsep', hfull, tlvSecRt, tlvPnvmSku, tlvMemDesc]
  by_cases hdesc : tlvType mem c = tlvMemDesc
  · rw [hdesc, handleTlv_memDesc, val_bind, val_handleTlvMemDesc]
    have hpos : c.data + tlvHdrLen + 4 = c.data + 12 := rfl
    rw [hpos]
    by_cases hcond : 8 ≤ tlvLen mem c ∧ (le32At mem (c.data + 12)).val = tlvLen mem c - 8 ∧
        image.chunks.length ≠ maxChunks
    · simp [hcond, tlvSecRt, tlvPnvmSku, tlvMemDesc]
    · simp [hcond]
  by_cases hsku : tlvType mem c = tlvPnvmSku
  · rw [hsku, handleTlv_pnvmSku]
    simp
  · obtain ⟨⟨hw, image', hval, -⟩, -⟩ := handleTlv_other mem trans (c.data + tlvHdrLen)
      (tlvLen mem c) hwMatch image hrt hdesc hsku
    simp [hval, hrt, hdesc, hsku]

/-- **A TLV of a section** that is no short runtime section is read inside of the image, as is a
payload that it adds. -/
theorem tlvAt_safe (trans : Trans) (hwMatch : Bool) (hc : c.Ok size) (hacc : Accepted mem c)
    (hrt : SecRtOk mem c image) :
    Within size (tlvAt mem trans c hwMatch image) ∧
    ∀ hw image', (tlvAt mem trans c hwMatch image).val = .next hw image' →
      ∀ ch ∈ image'.chunks, ch ∈ image.chunks ∨ ch.Inside size := by
  obtain ⟨hhdr, hlen⟩ := hacc
  unfold Cursor.Ok at hc
  unfold tlvAt
  by_cases htype : tlvType mem c = tlvSecRt
  · have hok := hrt htype
    rw [htype, handleTlv_secRt]
    refine ⟨?_, ?_⟩
    · simp
      omega
    intro hw image' hval ch hch
    simp only [val_bind] at hval
    split at hval
    · cases hval
      exact .inl hch
    rename_i hsep
    split at hval
    · cases hval
    rename_i hfull
    cases hval
    rcases mem_append.mp hch with h | h
    · exact .inl h
    obtain rfl := mem_singleton.mp h
    have hsep' : tlvWord mem c ≠ separator := hsep
    unfold Chunk.Inside
    simp only [hsep', hfull, false_or] at hok ⊢
    omega
  by_cases hdesc : tlvType mem c = tlvMemDesc
  · rw [hdesc, handleTlv_memDesc]
    refine ⟨?_, ?_⟩
    · rw [within_bind, within_handleTlvMemDesc]
      refine ⟨by omega, ?_⟩
      split <;> exact within_pure _
    intro hw image' hval ch hch
    rw [val_bind, val_handleTlvMemDesc] at hval
    split at hval
    · cases hval
    rename_i heq
    cases hval
    split at heq <;> cases heq
    rcases mem_append.mp hch with h | h
    · exact .inl h
    obtain rfl := mem_singleton.mp h
    right
    unfold Chunk.Inside
    dsimp only
    omega
  by_cases hsku : tlvType mem c = tlvPnvmSku
  · rw [hsku, handleTlv_pnvmSku]
    exact ⟨within_pure _, nofun⟩
  obtain ⟨⟨hw, image', hval, hchunks⟩, hwithin⟩ := handleTlv_other mem trans
    (c.data + tlvHdrLen) (tlvLen mem c) hwMatch image htype hdesc hsku
  refine ⟨hwithin size (by omega), ?_⟩
  intro hw' image'' hval' ch hch
  rw [hval] at hval'
  cases hval'
  exact .inl (hchunks ▸ hch)

/-- **A short runtime section** is read behind the image or adds a payload that is not inside. -/
theorem tlvAt_short (trans : Trans) (hwMatch : Bool) (hc : c.Ok size) (hacc : Accepted mem c)
    (hrt : ¬SecRtOk mem c image) :
    ¬Within size (tlvAt mem trans c hwMatch image) ∨
    ∃ hw image', (tlvAt mem trans c hwMatch image).val = .next hw image' ∧
      ∃ ch ∈ image'.chunks, ¬ch.Inside size := by
  obtain ⟨hhdr, hlen⟩ := hacc
  unfold Cursor.Ok at hc
  unfold SecRtOk at hrt
  push Not at hrt
  obtain ⟨htype, hshort, hbad⟩ := hrt
  unfold tlvAt
  rw [htype, handleTlv_secRt]
  by_cases h4 : 4 ≤ c.len - tlvHdrLen
  · obtain ⟨hsep, hfull, hlong⟩ := hbad h4
    have hsep' : ¬(le32At mem (c.data + tlvHdrLen)).val = separator := hsep
    right
    rw [val_bind, if_neg hsep', if_neg hfull]
    refine ⟨_, _, rfl, _, mem_append_right _ (.head _), ?_⟩
    unfold Chunk.Inside
    simp only
    omega
  · left
    rw [within_bind, within_le32At]
    omega

/-- All cursors have the rest of the image before them, and all payloads lie inside of it. -/
structure Inv (size : ℕ) (s : State) : Prop where
  chunks : ∀ ch ∈ s.image.chunks, ch.Inside size
  cursor : match s.ctl with
    | .parse c => c.Ok size
    | .handleSection outer c _ => outer.Ok size ∧ c.Ok size
    | .ret _ => True

/-- What is left to do: the rest of the outer loop, and that of the inner one. -/
def todo (size : ℕ) (s : State) : ℕ :=
  match s.ctl with
  | .parse c => (c.len + 1) * (size + 2)
  | .handleSection outer c _ => (outer.len + 1) * (size + 2) + (c.len + 1)
  | .ret _ => 0

theorem todo_parse_lt {s s' : State} {c c' : Cursor} (hs : s.ctl = .parse c)
    (hs' : s'.ctl = .parse c') (h : c'.len < c.len) : todo size s' < todo size s := by
  rw [todo, todo, hs, hs']
  exact Nat.mul_lt_mul_of_pos_right (by omega) (by omega)

theorem todo_section_lt {s s' : State} {c c' : Cursor} {hw : Bool} (hs : s.ctl = .parse c)
    (hs' : s'.ctl = .handleSection c' c' hw) (h : c'.len < c.len) (hc : c'.len ≤ size) :
    todo size s' < todo size s := by
  rw [todo, todo, hs, hs']
  calc (c'.len + 1) * (size + 2) + (c'.len + 1)
      < (c'.len + 1) * (size + 2) + (size + 2) := by omega
    _ = (c'.len + 1 + 1) * (size + 2) := (Nat.succ_mul _ _).symm
    _ ≤ (c.len + 1) * (size + 2) := Nat.mul_le_mul_right _ (by omega)

/-- The round reads inside of the image, keeps the invariant and leaves less to do. -/
abbrev Onward (size : ℕ) (s : State) (round : Access State) : Prop :=
  Within size round ∧ Inv size round.val ∧ todo size round.val < todo size s

theorem leave_section (h : Inv size s) (hs : s.ctl = .handleSection outer c hwMatch) {ctl : Ctl}
    (hctl : ctl = .parse outer ∨ ∃ r, ctl = .ret r) :
    Inv size { s with ctl := ctl } ∧ todo size { s with ctl := ctl } < todo size s := by
  have hcur := h.cursor
  rw [hs] at hcur
  rcases hctl with rfl | ⟨r, rfl⟩
  · refine ⟨⟨h.chunks, hcur.1⟩, ?_⟩
    rw [todo, todo, hs]
    dsimp only
    omega
  · refine ⟨⟨h.chunks, trivial⟩, ?_⟩
    rw [todo, todo, hs]
    dsimp only
    omega

theorem sectionEnd_spec (h : Inv size s) (hs : s.ctl = .handleSection outer c hwMatch) :
    Inv size (sectionEnd s outer hwMatch) ∧
      todo size (sectionEnd s outer hwMatch) < todo size s := by
  unfold sectionEnd
  split
  · exact leave_section h hs (.inl rfl)
  split
  · exact leave_section h hs (.inl rfl)
  · exact leave_section h hs (.inr ⟨_, rfl⟩)

theorem sectionRound_eq (trans : Trans) (s : State) (outer : Cursor) (hwMatch : Bool) (size : ℕ)
    (hacc : Accepted mem c) :
    (sectionRound mem trans s outer c hwMatch).val =
      afterTlv s outer c.skipHdr (tlvLen mem c) hwMatch (tlvAt mem trans c hwMatch s.image).val ∧
    (Within size (sectionRound mem trans s outer c hwMatch) ↔
      c.data + tlvHdrLen ≤ size ∧ Within size (tlvAt mem trans c hwMatch s.image)) := by
  obtain ⟨hhdr, hlen⟩ := hacc
  have hlen' : ¬c.skipHdr.len < (le32At mem (c.data + 4)).val := Nat.not_lt.mpr hlen
  unfold sectionRound
  rw [if_neg (Nat.not_lt.mpr hhdr)]
  simp only [val_bind, within_bind, within_le32At, if_neg hlen', within_pure, and_true]
  refine ⟨rfl, ?_⟩
  have hdata : c.data + 4 + 4 ≤ size ↔ c.data + tlvHdrLen ≤ size := Iff.rfl
  constructor
  · rintro ⟨h₁, -, h₂⟩
    exact ⟨h₁, h₂⟩
  · rintro ⟨h₁, h₂⟩
    exact ⟨h₁, by unfold tlvHdrLen at h₁; omega, h₂⟩

theorem sectionRound_of_not_accepted (h : Inv size s) (hs : s.ctl = .handleSection outer c hwMatch)
    (hacc : ¬Accepted mem c) : Onward size s (sectionRound mem trans s outer c hwMatch) := by
  have hcur := h.cursor
  rw [hs] at hcur
  have hdata : c.data + c.len = size := hcur.2
  unfold sectionRound
  by_cases hhdr : c.len < tlvHdrLen
  · rw [if_pos hhdr]
    exact ⟨within_pure _, sectionEnd_spec h hs⟩
  have hlen : c.skipHdr.len < (le32At mem (c.data + 4)).val := by
    by_contra hle
    exact hacc ⟨Nat.le_of_not_lt hhdr, Nat.le_of_not_lt hle⟩
  rw [if_neg hhdr]
  simp only [Onward, val_bind, within_bind, within_le32At, if_pos hlen, within_pure, and_true]
  unfold tlvHdrLen at hhdr
  exact ⟨by omega, leave_section h hs (.inl rfl)⟩

theorem sectionRound_safe (hsize : size < 2 ^ 64) (h : Inv size s)
    (hs : s.ctl = .handleSection outer c hwMatch) (hok : RoundOk mem s) :
    Onward size s (sectionRound mem trans s outer c hwMatch) := by
  have hcur := h.cursor
  rw [hs] at hcur
  obtain ⟨hout, hc⟩ := hcur
  have hdata : c.data + c.len = size := hc
  unfold RoundOk at hok
  rw [hs] at hok
  by_cases hacc : Accepted mem c
  · obtain ⟨hrt, hpad⟩ := hok hacc
    obtain ⟨hval, hwithin⟩ := sectionRound_eq trans s outer hwMatch size hacc
    obtain ⟨hsafe, hchunks⟩ := tlvAt_safe trans hwMatch hc hacc hrt
    refine ⟨hwithin.mpr ⟨by have := hacc.1; omega, hsafe⟩, ?_⟩
    rw [hval]
    cases hres : (tlvAt mem trans c hwMatch s.image).val with
    | next hw image =>
      have hpassed := (tlvAt_next_iff trans hwMatch).mp ⟨hw, image, hres⟩
      obtain ⟨hadv, hless⟩ := hc.advance hsize hacc.1 (hpad hpassed)
      refine ⟨⟨?_, hout, hadv⟩, ?_⟩
      · intro ch hch
        rcases hchunks hw image hres ch hch with h' | h'
        · exact h.chunks ch h'
        · exact h'
      · rw [todo, todo, hs]
        dsimp only [afterTlv]
        unfold tlvHdrLen at hless
        omega
    | done => exact sectionEnd_spec h hs
    | invalid => exact leave_section h hs (.inl rfl)
  · exact sectionRound_of_not_accepted h hs hacc

theorem parseRound_eq (trans : Trans) (s : State) (size : ℕ) (hacc : Accepted mem c)
    (hsku : tlvType mem c = tlvPnvmSku → skuIdLen ≤ tlvLen mem c) :
    ((parseRound mem trans s c).val.ctl = .parse (c.skipHdr.advance (tlvLen mem c)) ∧
        (parseRound mem trans s c).val.image = s.image ∨
      (parseRound mem trans s c).val.ctl = .handleSection (c.skipHdr.advance (tlvLen mem c))
          (c.skipHdr.advance (tlvLen mem c)) false ∧
        (parseRound mem trans s c).val.image = {}) ∧
    (Within size (parseRound mem trans s c) ↔ c.data + tlvHdrLen ≤ size ∧
      (tlvType mem c = tlvPnvmSku → c.data + tlvHdrLen + skuIdLen ≤ size)) := by
  obtain ⟨hhdr, hlen⟩ := hacc
  have hlen' : ¬c.skipHdr.len < (le32At mem (c.data + 4)).val := Nat.not_lt.mpr hlen
  unfold parseRound
  rw [if_neg (Nat.not_lt.mpr hhdr)]
  simp only [val_bind, within_bind, within_le32At, if_neg hlen']
  by_cases htype : tlvType mem c = tlvPnvmSku
  · have htype' : (le32At mem c.data).val = tlvPnvmSku := htype
    have hshort : ¬(le32At mem (c.data + 4)).val < skuIdLen := Nat.not_lt.mpr (hsku htype)
    rw [if_pos htype', if_neg hshort]
    simp only [val_bind, within_bind, within_le32At, within_ite, within_pure]
    refine ⟨?_, ?_⟩
    · split
      · exact .inr ⟨rfl, rfl⟩
      · exact .inl ⟨rfl, rfl⟩
    · simp only [htype, Cursor.skipHdr, tlvHdrLen, skuIdLen]
      simp
      omega
  · have htype' : ¬(le32At mem c.data).val = tlvPnvmSku := htype
    rw [if_neg htype']
    refine ⟨.inl ⟨rfl, rfl⟩, ?_⟩
    simp only [htype, tlvHdrLen]
    simp
    omega

theorem parseRound_of_not_passed (trans : Trans) (h : Inv size s) (hs : s.ctl = .parse c)
    (hacc : ¬(Accepted mem c ∧ (tlvType mem c = tlvPnvmSku → skuIdLen ≤ tlvLen mem c))) :
    Within size (parseRound mem trans s c) ∧
      ∃ r, (parseRound mem trans s c).val = { s with ctl := .ret r } := by
  have hcur := h.cursor
  rw [hs] at hcur
  have hdata : c.data + c.len = size := hcur
  unfold parseRound
  by_cases hhdr : c.len < tlvHdrLen
  · rw [if_pos hhdr]
    exact ⟨within_pure _, _, rfl⟩
  rw [if_neg hhdr]
  unfold tlvHdrLen at hhdr
  simp only [val_bind, within_bind, within_le32At]
  by_cases hlen : c.skipHdr.len < (le32At mem (c.data + 4)).val
  · rw [if_pos hlen]
    exact ⟨⟨by omega, by omega, within_pure _⟩, _, rfl⟩
  have hsku : tlvType mem c = tlvPnvmSku ∧ tlvLen mem c < skuIdLen := by
    by_contra hne
    exact hacc ⟨⟨Nat.le_of_not_lt hhdr, Nat.le_of_not_lt hlen⟩,
      fun ht => Nat.le_of_not_lt fun hl => hne ⟨ht, hl⟩⟩
  have htype : (le32At mem c.data).val = tlvPnvmSku := hsku.1
  have hshort : (le32At mem (c.data + 4)).val < skuIdLen := hsku.2
  rw [if_neg hlen, if_pos htype, if_pos hshort]
  exact ⟨⟨by omega, by omega, within_pure _⟩, _, rfl⟩

theorem parseRound_safe (hsize : size < 2 ^ 64) (h : Inv size s) (hs : s.ctl = .parse c)
    (hok : RoundOk mem s) : Onward size s (parseRound mem trans s c) := by
  have hc := h.cursor
  rw [hs] at hc
  have hdata : c.data + c.len = size := hc
  unfold RoundOk at hok
  rw [hs] at hok
  by_cases hpass : Accepted mem c ∧ (tlvType mem c = tlvPnvmSku → skuIdLen ≤ tlvLen mem c)
  · obtain ⟨hacc, hsku⟩ := hpass
    obtain ⟨hadv, hless⟩ := hc.advance hsize hacc.1 (hok hacc hsku)
    obtain ⟨hval, hwithin⟩ := parseRound_eq trans s size hacc hsku
    have hlen := hacc.2
    have hlt : (c.skipHdr.advance (tlvLen mem c)).len < c.len := by
      unfold tlvHdrLen at hless
      omega
    refine ⟨hwithin.mpr ⟨by omega, fun ht => by have := hsku ht; omega⟩, ?_⟩
    rcases hval with ⟨hctl, himage⟩ | ⟨hctl, himage⟩
    · refine ⟨⟨?_, ?_⟩, todo_parse_lt hs hctl hlt⟩
      · rw [himage]
        exact h.chunks
      · rwa [hctl]
    refine ⟨⟨?_, ?_⟩, todo_section_lt hs hctl hlt (by omega)⟩
    · rw [himage]
      nofun
    · rw [hctl]
      exact ⟨hadv, hadv⟩
  · obtain ⟨hwithin, r, hval⟩ := parseRound_of_not_passed trans h hs hpass
    rw [Onward, hval]
    refine ⟨hwithin, ⟨h.chunks, trivial⟩, ?_⟩
    rw [todo, todo, hs]
    exact Nat.mul_pos (by omega) (by omega)

theorem next_safe (hsize : size < 2 ^ 64) (h : Inv size s) (hok : RoundOk mem s) {a : Access State}
    (ha : next mem trans s = some a) : Onward size s a := by
  unfold next at ha
  split at ha
  next c hs =>
    cases ha
    exact parseRound_safe hsize h hs hok
  next outer c hw hs =>
    cases ha
    exact sectionRound_safe hsize h hs hok
  · cases ha

theorem next_behind (hs : s.ctl = .parse c ∨ ∃ outer hw, s.ctl = .handleSection outer c hw)
    (hdata : size < c.data) (hlen : tlvHdrLen ≤ c.len) :
    ∃ a, next mem trans s = some a ∧ ¬Within size a := by
  unfold next
  rcases hs with hs | ⟨outer, hw, hs⟩
  · refine ⟨_, by rw [hs], ?_⟩
    rw [parseRound, if_neg (Nat.not_lt.mpr hlen), within_bind, within_le32At]
    omega
  · refine ⟨_, by rw [hs], ?_⟩
    rw [sectionRound, if_neg (Nat.not_lt.mpr hlen), within_bind, within_le32At]
    omega

theorem next_unsafe (trans : Trans) (h : Inv size s) (hbad : ¬RoundOk mem s) :
    ∃ a, next mem trans s = some a ∧
      (¬Within size a ∨ (∃ ch ∈ a.val.image.chunks, ¬ch.Inside size) ∨
        ∃ a', next mem trans a.val = some a' ∧ ¬Within size a') := by
  have hcur := h.cursor
  unfold RoundOk at hbad
  cases hs : s.ctl with
  | ret r => simp [hs] at hbad
  | parse c =>
    rw [hs] at hbad hcur
    push Not at hbad
    obtain ⟨hacc, hsku, hpad⟩ := hbad
    obtain ⟨hbehind, hlen⟩ := Cursor.Ok.advance_wraps hcur hacc.1 hacc.2 hpad
    obtain ⟨hval, -⟩ := parseRound_eq trans s size hacc hsku
    refine ⟨parseRound mem trans s c, by rw [next, hs], .inr (.inr ?_)⟩
    apply next_behind _ hbehind hlen
    rcases hval with ⟨hctl, -⟩ | ⟨hctl, -⟩
    · exact .inl hctl
    · exact .inr ⟨_, _, hctl⟩
  | handleSection outer c hw =>
    rw [hs] at hbad hcur
    simp only [not_forall] at hbad
    obtain ⟨hacc, hbad⟩ := hbad
    obtain ⟨hval, hwithin⟩ := sectionRound_eq trans s outer hw size hacc
    refine ⟨sectionRound mem trans s outer c hw, by rw [next, hs], ?_⟩
    by_cases hrt : SecRtOk mem c s.image
    · -- the padding is missing
      have hpass : Passed mem c s.image ∧ ¬Padded mem c := by
        by_contra hne
        exact hbad ⟨hrt, fun hp => by_contra fun hn => hne ⟨hp, hn⟩⟩
      obtain ⟨hbehind, hlen⟩ := Cursor.Ok.advance_wraps hcur.2 hacc.1 hacc.2 hpass.2
      obtain ⟨hw', image, hres⟩ := (tlvAt_next_iff trans hw).mpr hpass.1
      right
      right
      apply next_behind _ hbehind hlen
      rw [hval, hres]
      exact .inr ⟨_, _, rfl⟩
    · rcases tlvAt_short trans hw hcur.2 hacc hrt with hnot | ⟨hw', image, hres, ch, hch, hout⟩
      · exact .inl fun h' => hnot (hwithin.mp h').2
      right
      left
      rw [hval, hres]
      exact ⟨ch, hch, hout⟩

end round

/-! ### The parser -/

section parser
variable {mem : ℕ → UInt8} {trans : Trans} {size : ℕ}

theorem step_eq_some {s s' : State} {reads : List (ℕ × ℕ)} {u : Unit} :
    step mem trans s u = some (reads, s') ↔
      ∃ a, next mem trans s = some a ∧ a.reads = reads ∧ a.val = s' := by
  simp [step, Option.map_eq_some_iff]

theorem inv_init (size : ℕ) : Inv size (init size) := ⟨nofun, Nat.zero_add size⟩

theorem run_inv (hsize : size < 2 ^ 64) {s : State} {ls : List (Label State Unit (List (ℕ × ℕ)))}
    (hrun : Run (step mem trans) (init size) ls s) (hok : ∀ l ∈ ls, RoundOk mem l.pre) :
    Inv size s ∧ ∀ l ∈ ls, ∀ r ∈ l.out, r.1 + r.2 ≤ size := by
  have hkeep : ∀ s u reads s', step mem trans s u = some (reads, s') →
      RoundOk mem s → Inv size s → Inv size s' := by
    intro s u reads s' hstep hok hinv
    obtain ⟨a, ha, -, rfl⟩ := step_eq_some.mp hstep
    exact (next_safe hsize hinv hok ha).2.1
  obtain ⟨hs, hls⟩ := hrun.induct (C := fun l => RoundOk mem l.pre) hkeep hok (inv_init size)
  refine ⟨hs, ?_⟩
  intro l hl
  obtain ⟨hstep, hinv, -⟩ := hls l hl
  obtain ⟨a, ha, hreads, -⟩ := step_eq_some.mp hstep
  rw [← hreads]
  exact (next_safe hsize hinv (hok l hl) ha).1

theorem Safe.roundOk (h : Safe mem trans size) {s : State}
    {ls : List (Label State Unit (List (ℕ × ℕ)))}
    (hrun : Run (step mem trans) (init size) ls s) (hinv : Inv size s) : RoundOk mem s := by
  by_contra hbad
  obtain ⟨a, ha, hwrong⟩ := next_unsafe trans hinv hbad
  have hrun₁ : Run (step mem trans) (init size) (ls ++ [⟨s, (), a.reads, a.val⟩]) a.val :=
    hrun.concat (step_eq_some.mpr ⟨a, ha, rfl, rfl⟩)
  rcases hwrong with hreads | ⟨ch, hch, hout⟩ | ⟨a', ha', hreads⟩
  · exact hreads (h.reads _ _ hrun₁ ⟨s, (), a.reads, a.val⟩ (by simp))
  · exact hout (h.chunks _ _ hrun₁ ch hch)
  · have hrun₂ := hrun₁.concat (a := ()) (step_eq_some.mpr ⟨a', ha', rfl, rfl⟩)
    exact hreads (h.reads _ _ hrun₂ ⟨a.val, (), a'.reads, a'.val⟩ (by simp))

/-- **PNVM images.**  The parser returns, and reads and records parts of the image only, if and only
if all rounds that it comes to satisfy the condition. -/
theorem pnvm_parse_safe_iff (mem : ℕ → UInt8) (trans : Trans) {size : ℕ} (hsize : size < 2 ^ 64) :
    Safe mem trans size ↔
      ∀ ls s, Run (step mem trans) (init size) ls s → RoundOk mem s := by
  constructor
  · intro h ls s hrun
    -- the states that are reached satisfy the invariant, since the rounds before were in order
    have hkeep : ∀ s u reads s', step mem trans s u = some (reads, s') → True →
        (Inv size s ∧ ∃ ls, Run (step mem trans) (init size) ls s) →
        Inv size s' ∧ ∃ ls, Run (step mem trans) (init size) ls s' := by
      rintro s u reads s' hstep - ⟨hinv, ls, hrun⟩
      obtain ⟨a, ha, -, rfl⟩ := step_eq_some.mp hstep
      exact ⟨(next_safe hsize hinv (h.roundOk hrun hinv) ha).2.1, _, hrun.concat hstep⟩
    have hinit : Inv size (init size) ∧ ∃ ls, Run (step mem trans) (init size) ls (init size) :=
      ⟨inv_init size, [], .nil _⟩
    exact h.roundOk hrun (hrun.induct hkeep (fun _ _ => trivial) hinit).1.1
  · intro h
    have hrun : ∀ ls s, Run (step mem trans) (init size) ls s →
        Inv size s ∧ ∀ l ∈ ls, ∀ r ∈ l.out, r.1 + r.2 ≤ size := by
      intro ls s hrun
      refine run_inv hsize hrun fun l hl => ?_
      obtain ⟨ls', hpre⟩ := hrun.pre_reached hl
      exact h ls' l.pre hpre
    refine ⟨?_, fun ls s h' => (hrun ls s h').2, fun ls s h' => (hrun ls s h').1.chunks⟩
    have hdown : ∀ s, (∃ ls, Run (step mem trans) (init size) ls s) → (∃ r, s.ctl = .ret r) ∨
        ∃ u reads s', step mem trans s u = some (reads, s') ∧
          (∃ ls, Run (step mem trans) (init size) ls s') ∧ todo size s' < todo size s := by
      rintro s ⟨ls, hs⟩
      cases ha : next mem trans s with
      | none =>
        left
        unfold next at ha
        split at ha
        · cases ha
        · cases ha
        next r hr => exact ⟨r, hr⟩
      | some a =>
        have hstep : step mem trans s () = some (a.reads, a.val) :=
          step_eq_some.mpr ⟨a, ha, rfl, rfl⟩
        exact .inr ⟨(), _, _, hstep, ⟨_, hs.concat hstep⟩,
          (next_safe hsize (hrun ls s hs).1 (h ls s hs) ha).2.2⟩
    obtain ⟨ls, s, hfinal, r, hr⟩ := Run.exists_final (todo size) hdown (init size) ⟨[], .nil _⟩
    exact ⟨ls, s, r, hfinal, hr⟩

def memOf (image : List UInt8) : ℕ → UInt8 := fun i => image.getD i 0

def zeroTrans : Trans := ⟨0, 0, 0, 0, 0⟩

def tlvBytes (type len : UInt8) (data : List UInt8) : List UInt8 :=
  [type, 0, 0, 0, len, 0, 0, 0] ++ data

/-- An image of one TLV of four bytes. -/
theorem pnvm_parse_safe_iff_single : Safe (memOf (tlvBytes 1 4 [5, 6, 7, 8])) zeroTrans 12 := by
  rw [pnvm_parse_safe_iff _ _ (by decide)]
  intro ls s hrun
  have h₀ : step (memOf (tlvBytes 1 4 [5, 6, 7, 8])) zeroTrans (init 12) () =
      some ([(4, 4), (0, 4)], { ctl := .parse ⟨12, 0⟩ }) := by decide
  have h₁ : step (memOf (tlvBytes 1 4 [5, 6, 7, 8])) zeroTrans { ctl := .parse ⟨12, 0⟩ } () =
      some ([], { ctl := .ret .enoent }) := by decide
  cases hrun with
  | nil =>
    intro _ _
    unfold Padded
    decide
  | cons hs hrun =>
    rw [h₀] at hs
    cases hs
    cases hrun with
    | nil => exact fun h => absurd h.1 (by decide)
    | cons hs hrun =>
      cases hs
      cases hrun with
      | nil => trivial
      | cons hs _ => cases hs

/-- Reads and payloads that are not inside of the image, within `n` rounds. -/
def overrun (image : List UInt8) (n : ℕ) : List (ℕ × ℕ) × List Chunk :=
  (execute (step (memOf image) zeroTrans) (init image.length) (List.replicate n ())).elim ([], [])
    fun r => (r.1.flatMap fun l => l.out.filter fun x => image.length < x.1 + x.2,
      r.2.image.chunks.filter fun ch => image.length < ch.data + ch.len)

theorem not_safe_of_overrun {image : List UInt8} {n : ℕ} (h : overrun image n ≠ ([], [])) :
    ¬Safe (memOf image) zeroTrans image.length := by
  intro hsafe
  apply h
  unfold overrun
  cases hex : execute (step (memOf image) zeroTrans) (init image.length) (List.replicate n ()) with
  | none => rfl
  | some r =>
    have hrun := (execute_run hex).1
    have hreads := hsafe.reads _ _ hrun
    have hchunks := hsafe.chunks _ _ hrun
    simp only [Option.elim_some, Prod.mk.injEq, flatMap_eq_nil_iff, filter_eq_nil_iff,
      decide_eq_true_eq, Nat.not_lt]
    exact ⟨hreads, hchunks⟩

def unpaddedImage : List UInt8 := tlvBytes 1 5 [1, 2, 3, 4, 5]

def shortSectionImage : List UInt8 :=
  tlvBytes 64 12 (List.replicate 12 0) ++ tlvBytes 58 4 [0, 0, 0, 0] ++ tlvBytes 19 0 [] ++
    tlvBytes 1 0 []

/-- The header of a TLV is read behind the first image; nearly 4 GiB are recorded for the second
one. -/
theorem image_overrun :
    overrun unpaddedImage 2 = ([(20, 4), (16, 4)], []) ∧
    overrun shortSectionImage 5 = ([], [⟨44, 0xfffffffc⟩]) ∧
    ¬Safe (memOf unpaddedImage) zeroTrans unpaddedImage.length ∧
    ¬Safe (memOf shortSectionImage) zeroTrans shortSectionImage.length := by
  have h₁ : overrun unpaddedImage 2 = ([(20, 4), (16, 4)], []) := by decide +kernel
  have h₂ : overrun shortSectionImage 5 = ([], [⟨44, 0xfffffffc⟩]) := by decide +kernel
  have hne₁ : overrun unpaddedImage 2 ≠ ([], []) := by
    decide
  have hne₂ : overrun shortSectionImage 5 ≠ ([], []) := by
    decide
  exact ⟨h₁, h₂, not_safe_of_overrun hne₁, not_safe_of_overrun hne₂⟩

end parser

end Iwlwifi.Pnvm
