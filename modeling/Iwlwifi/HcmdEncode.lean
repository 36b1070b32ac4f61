import Iwlwifi.Bytes
import Iwlwifi.CmdQueue

/-! # Host commands as transfer buffers

A host command is a header and two chunks of data.  `iwl_pcie_enqueue_hcmd` (`pcie/tx.c`) and
`iwl_pcie_gen2_enqueue_hcmd` (`pcie/tx-gen2.c`) copy the header and the normal chunks into the
command buffer of the slot, and describe the command to the device by a TFD, a list of transfer
buffers: the first 20 bytes, the rest of what was copied, and the remainders of the chunks that are
mapped where they are (`NOCOPY`) or in a duplicate (`DUP`).

* **The two passes** (`firstPass`, `secondPass`).  The first one cuts from each chunk what goes into
  the first transfer buffer, the second one copies.  Both keep a `copy_size` of their own.
* **The TFD** (`setTb`, `buildTfd`).  The address of a transfer buffer stands for the bytes mapped
  there (`Tb.read`); the length field has 12 bits in the first generation, 16 in the second.
* **Result** (`hcmd_encoding_iff`): when the buffers concatenate to the command.

All that matters of a `copy_size` is how far it is from 20, and so is the position in the command
(`firstStep_spec`, for both generations). -/

namespace Iwlwifi.Iwl.Pcie.Hcmd

open Bytes Function List

/-- A chunk of data: `data[i]` with `len[i]` bytes, and `dataflags[i]`. -/
structure Chunk where
  data : List UInt8 := []
  nocopy : Bool := false
  dup : Bool := false
deriving DecidableEq

def Chunk.mapped (c : Chunk) : Bool := c.nocopy || c.dup

/-- `struct iwl_host_cmd`, with `IWL_MAX_CMD_CHUNKS_PER_HCMD` chunks. -/
structure Cmd where
  id : ℕ
  flags : CmdFlags := {}
  chunk0 : Chunk := {}
  chunk1 : Chunk := {}
deriving DecidableEq

def Cmd.chunks (cmd : Cmd) : List Chunk := [cmd.chunk0, cmd.chunk1]

def joined (cs : List Chunk) : List UInt8 := (cs.map Chunk.data).flatten

/-- The transports: `pcie/tx.c` and `pcie/tx-gen2.c`. -/
inductive Gen
  | gen1
  | gen2
deriving DecidableEq

/-- `IWL_FIRST_TB_SIZE`. -/
def firstTbSize : ℕ := 20

/-- `TFD_MAX_PAYLOAD_SIZE`, the size of `struct iwl_device_cmd`: a short header and 320 bytes. -/
def tfdMaxPayloadSize : ℕ := 324

/-- `iwl_cmd_version`. -/
def cmdVersion (cmdid : ℕ) : ℕ := (cmdid &&& 0xFF0000) >>> 16

/-! ### What is accepted -/

/-- The variables of `iwl_trans_validate_hcmd`. -/
structure Validation where
  copySize : ℕ
  hadNocopy : Bool := false
  hadDup : Bool := false

/-- An iteration of `iwl_trans_validate_hcmd`. -/
def validateStep (v : Validation) (c : Chunk) : Except Errno Validation :=
  if c.data.length = 0 then .ok v
  else if c.nocopy then
    if c.dup then .error .einval else .ok { v with hadNocopy := true }
  else if c.dup then
    if v.hadDup then .error .einval else .ok { v with hadNocopy := true, hadDup := true }
  else if v.hadNocopy then .error .einval
  else .ok { v with copySize := v.copySize + c.data.length }

/-- `iwl_trans_validate_hcmd`. -/
def validateHcmd (cmd : Cmd) : Except Errno Unit := do
  let v ← cmd.chunks.foldlM validateStep
    { copySize := if cmdGroupid cmd.id ≠ 0 then 8 else 4 }
  if tfdMaxPayloadSize < v.copySize then .error .einval else .ok ()

/-! ### The header -/

/-- The header a generation sends: the second one always uses the wide header. -/
def Gen.wide (g : Gen) (cmd : Cmd) : Bool :=
  match g with
  | .gen1 => cmdGroupid cmd.id != 0
  | .gen2 => true

/-- Size of `struct iwl_cmd_header_wide` or of `struct iwl_cmd_header`. -/
def headerSize (wide : Bool) : ℕ := if wide then 8 else 4

/-- The header of a command with `length` bytes of data; the short one has no length. -/
def header (wide : Bool) (id sequence length : ℕ) : List UInt8 :=
  if wide then
    [UInt8.ofNat (cmdOpcode id), UInt8.ofNat (cmdGroupid id)] ++ putLe16 sequence ++
      putLe16 length ++ [0, UInt8.ofNat (cmdVersion id)]
  else [UInt8.ofNat (cmdOpcode id), 0] ++ putLe16 sequence

/-- The header followed by the data in full: what the device is to be told. -/
def Gen.wire (g : Gen) (cmd : Cmd) (sequence : ℕ) : List UInt8 :=
  header (g.wide cmd) cmd.id sequence (joined cmd.chunks).length ++ joined cmd.chunks

/-! ### The two passes -/

/-- The variables of the first pass: `copy_size` and `cmd_size` (of type `u16`), `dup_buf`, and each
chunk with its adjusted `cmddata[i]` and `cmdlen[i]`. -/
structure First where
  copySize : ℕ
  cmdSize : ℕ
  dupBuf : Option (List UInt8) := none
  adjusted : List (Chunk × List UInt8) := []

def firstStep (f : First) (c : Chunk) : First :=
  if c.data.length = 0 then { f with adjusted := f.adjusted ++ [(c, c.data)] }
  else
    -- need at least `IWL_FIRST_TB_SIZE` copied
    let copy := if f.copySize < firstTbSize then min (firstTbSize - f.copySize) c.data.length else 0
    let rest := c.data.drop copy
    let copySize := (f.copySize + copy) % 65536
    { copySize :=
        if c.dup then copySize
        else if !c.nocopy then (copySize + rest.length) % 65536
        else copySize
      cmdSize := (f.cmdSize + c.data.length) % 65536
      dupBuf := if c.dup then some rest else f.dupBuf
      adjusted := f.adjusted ++ [(c, rest)] }

def firstPass (size : ℕ) (cs : List Chunk) : First :=
  cs.foldl firstStep { copySize := size, cmdSize := size }

/-- The variables of the second pass: the bytes written to the command buffer, as many as `cmd_pos`
says, and `copy_size`. -/
structure Second where
  outCmd : List UInt8
  copySize : ℕ

/-- An iteration of the second pass.  With `cmd_pos` above `TFD_MAX_PAYLOAD_SIZE` the length given to
`memcpy` is negative. -/
def secondStep (s : Second) (c : Chunk) : Option Second :=
  if c.data.length = 0 then some s
  else if !c.mapped then
    some ⟨s.outCmd ++ c.data, (s.copySize + c.data.length) % 65536⟩
  else if tfdMaxPayloadSize < s.outCmd.length then none
  else
    let copy := min (tfdMaxPayloadSize - s.outCmd.length) c.data.length
    some ⟨s.outCmd ++ c.data.take copy,
      if s.copySize < firstTbSize then
        (s.copySize + min (firstTbSize - s.copySize) c.data.length) % 65536
      else s.copySize⟩

def secondPass (s : Second) (cs : List Chunk) : Option Second := cs.foldlM secondStep s

structure Encoded where
  first : First
  second : Second

/-- The two passes of `iwl_pcie_enqueue_hcmd` and of `iwl_pcie_gen2_enqueue_hcmd`. -/
def encode (g : Gen) (cmd : Cmd) (sequence : ℕ) : Option Encoded :=
  let size := headerSize (g.wide cmd)
  let first := firstPass size cmd.chunks
  -- `cpu_to_le16(cmd_size - sizeof(struct iwl_cmd_header_wide))`
  let length := (first.cmdSize + 65536 - size) % 65536
  (secondPass ⟨header (g.wide cmd) cmd.id sequence length, size⟩ cmd.chunks).map (⟨first, ·⟩)

/-- `tb0_size`. -/
def Encoded.tb0Size (e : Encoded) : ℕ := min e.second.copySize firstTbSize

def isMapped (x : Chunk × List UInt8) : Bool := x.2.length != 0 && x.1.mapped

/-- What the transfer buffers are set to: the first bytes, what else was copied, and the adjusted
mapped chunks. -/
def Encoded.regions (e : Encoded) : List (List UInt8 × ℕ) :=
  [(e.second.outCmd, e.tb0Size)] ++
  (if e.tb0Size < e.second.copySize then
    [(e.second.outCmd.drop e.tb0Size, e.second.copySize - e.tb0Size)] else []) ++
  (e.first.adjusted.filter isMapped).map fun x =>
    (if x.1.dup then e.first.dupBuf.getD [] else x.2, x.2.length)

/-! ### The TFD -/

/-- A transfer buffer: its DMA address and the value of its length field. -/
structure Tb (A : Type) where
  addr : A
  len : ℕ

structure Tfd (A : Type) where
  numTbs : ℕ
  tbs : ℕ → Tb A

section
variable {A : Type}

/-- `memset(tfd, 0, sizeof(*tfd))`. -/
def Tfd.clear [Inhabited A] : Tfd A := ⟨0, fun _ => ⟨default, 0⟩⟩

/-- `txqs.tfd.max_tbs`: `IWL_NUM_OF_TBS` or `IWL_TFH_NUM_TBS`. -/
def Gen.maxTbs : Gen → ℕ
  | .gen1 => 20
  | .gen2 => 25

/-- What is read back from the length field: `hi_n_len` holds `len << 4` in 16 bits, `tb_len` the
16 bits of `len`. -/
def Gen.tbLen : Gen → ℕ → ℕ
  | .gen1, len => ((len <<< 4) % 65536) >>> 4
  | .gen2, len => len % 65536

/-- `iwl_pcie_txq_build_tfd` and `iwl_txq_gen2_set_tb`. -/
def Gen.setTb (g : Gen) (tfd : Tfd A) (addr : A) (len : ℕ) : Tfd A :=
  let idx := tfd.numTbs &&& 0x1f
  if g.maxTbs ≤ idx then tfd
  else ⟨idx + 1, update tfd.tbs idx ⟨addr, g.tbLen len⟩⟩

def Tfd.used (tfd : Tfd A) : List (Tb A) := (List.range tfd.numTbs).map tfd.tbs

end

def Tb.read (tb : Tb (List UInt8)) : List UInt8 := tb.addr.take tb.len

/-- The TFD of a command, each transfer buffer with the memory mapped for it. -/
def Gen.buildTfd (g : Gen) (e : Encoded) : Tfd (List UInt8) :=
  e.regions.foldl (fun tfd r => g.setTb tfd r.1 r.2) Tfd.clear

/-- The transfer buffers are the command cut into pieces, the first one with 20 bytes if there are
as many, they fit into the TFD, and the command buffer is not overrun. -/
def EncodedRight (g : Gen) (cmd : Cmd) (sequence : ℕ) : Prop :=
  ∃ e, encode g cmd sequence = some e ∧
    ((g.buildTfd e).used.map Tb.read).flatten = g.wire cmd sequence ∧
    (g.buildTfd e).used.head?.map Tb.len =
      some (min firstTbSize (g.wire cmd sequence).length) ∧
    (g.buildTfd e).used.length ≤ g.maxTbs ∧
    e.second.outCmd.length ≤ tfdMaxPayloadSize

/-! ### Transfer buffers of a TFD -/

section
variable {A : Type} (g : Gen) {tfd : Tfd A}

theorem tbLen_gen1 (len : ℕ) : Gen.gen1.tbLen len = len % 4096 := by
  simp only [Gen.tbLen, Nat.shiftLeft_eq, Nat.shiftRight_eq_div_pow]
  omega

theorem tbLen_of_lt {len : ℕ} (h : len < 4096) : g.tbLen len = len := by
  cases g with
  | gen1 => rw [tbLen_gen1, Nat.mod_eq_of_lt h]
  | gen2 => exact Nat.mod_eq_of_lt (by omega)

theorem maxTbs_lt : g.maxTbs < 32 := by
  cases g <;> decide

theorem setTb_spec (h : tfd.numTbs < g.maxTbs) (addr : A) (len : ℕ) :
    (g.setTb tfd addr len).numTbs = tfd.numTbs + 1 ∧
      (g.setTb tfd addr len).used = tfd.used ++ [⟨addr, g.tbLen len⟩] := by
  have hidx : tfd.numTbs &&& 0x1f = tfd.numTbs := by
    have := maxTbs_lt g
    rw [show 0x1f = 2 ^ 5 - 1 from rfl, Nat.and_two_pow_sub_one_eq_mod]
    exact Nat.mod_eq_of_lt (by omega)
  unfold Gen.setTb
  rw [hidx, if_neg (by omega)]
  refine ⟨rfl, ?_⟩
  unfold Tfd.used
  dsimp only
  rw [range_succ, map_append, map_singleton, update_self]
  congr 1
  apply map_congr_left
  intro i hi
  exact update_of_ne (mem_range.mp hi).ne _ _

theorem foldl_setTb (rs : List (A × ℕ)) (h : tfd.numTbs + rs.length ≤ g.maxTbs) :
    (rs.foldl (fun tfd r => g.setTb tfd r.1 r.2) tfd).used =
      tfd.used ++ rs.map fun r => ⟨r.1, g.tbLen r.2⟩ := by
  induction rs generalizing tfd with
  | nil => simp
  | cons r rs ih =>
    rw [length_cons] at h
    obtain ⟨hnum, hused⟩ := setTb_spec g (by omega : tfd.numTbs < g.maxTbs) r.1 r.2
    rw [foldl_cons, ih (by omega), hused, map_cons, append_assoc]
    rfl

end

/-! ### What acceptance says -/

def Chunk.copiedLen (c : Chunk) : ℕ := if c.mapped then 0 else c.data.length

/-- The bytes of the chunks that are copied to the command buffer. -/
def copiedLen (cs : List Chunk) : ℕ := (cs.map Chunk.copiedLen).sum

def Chunk.Dups (c : Chunk) : Prop := c.dup = true ∧ c.data ≠ []

/-- The chunk is copied, or has nothing to copy. -/
def Chunk.Normal (c : Chunk) : Prop := c.data = [] ∨ c.mapped = false

/-- The chunk is mapped, or has nothing to map. -/
def Chunk.Special (c : Chunk) : Prop := c.data = [] ∨ c.mapped = true

/-- The copied chunks come before the mapped ones, and one at most is duplicated. -/
structure Arranged (cs normal special : List Chunk) : Prop where
  eq : cs = normal ++ special
  normal : ∀ c ∈ normal, c.Normal
  special : ∀ c ∈ special, c.Special
  dups : cs.Pairwise fun a b => ¬ (a.Dups ∧ b.Dups)

@[simp] theorem joined_cons (c : Chunk) (cs : List Chunk) :
    joined (c :: cs) = c.data ++ joined cs := rfl

@[simp] theorem joined_append (cs ds : List Chunk) : joined (cs ++ ds) = joined cs ++ joined ds := by
  simp [joined]

@[simp] theorem copiedLen_cons (c : Chunk) (cs : List Chunk) :
    copiedLen (c :: cs) = c.copiedLen + copiedLen cs := rfl

theorem Chunk.copiedLen_of_special {c : Chunk} (h : c.Special) : c.copiedLen = 0 := by
  obtain h | h := h <;> simp [Chunk.copiedLen, h]

theorem copiedLen_of_special {cs : List Chunk} (h : ∀ c ∈ cs, c.Special) : copiedLen cs = 0 := by
  have e : cs.map Chunk.copiedLen = List.replicate cs.length 0 :=
    map_eq_replicate_iff.mpr fun c hc => Chunk.copiedLen_of_special (h c hc)
  simp [copiedLen, e]

theorem copiedLen_of_normal {cs : List Chunk} (h : ∀ c ∈ cs, c.Normal) :
    copiedLen cs = (joined cs).length := by
  rw [copiedLen, joined, length_flatten, map_map]
  congr 1
  apply map_congr_left
  intro c hc
  obtain h | h := h c hc <;> simp [Chunk.copiedLen, h]

theorem Arranged.joined_eq {cs ns ss : List Chunk} (h : Arranged cs ns ss) :
    joined cs = joined ns ++ joined ss := by
  rw [h.eq, joined_append]

theorem Arranged.copiedLen_eq {cs ns ss : List Chunk} (h : Arranged cs ns ss) :
    copiedLen cs = (joined ns).length := by
  have hadd : copiedLen (ns ++ ss) = copiedLen ns + copiedLen ss := by simp [copiedLen]
  rw [h.eq, hadd, copiedLen_of_special h.special, copiedLen_of_normal h.normal, Nat.add_zero]

theorem validateStep_cases {v v' : Validation} {c : Chunk} (h : validateStep v c = .ok v') :
    (c.data = [] ∧ v' = v) ∨
    (c.data ≠ [] ∧ c.mapped = true ∧ v'.copySize = v.copySize ∧ v'.hadNocopy = true ∧
      (c.dup = true → v.hadDup = false ∧ v'.hadDup = true) ∧
      (v.hadDup = true → v'.hadDup = true)) ∨
    (c.data ≠ [] ∧ c.mapped = false ∧ v.hadNocopy = false ∧
      v' = { v with copySize := v.copySize + c.data.length }) := by
  unfold validateStep at h
  split at h
  next h0 =>
    cases h
    exact .inl ⟨length_eq_zero_iff.mp h0, rfl⟩
  rename_i h0
  have hne : c.data ≠ [] := fun e => h0 (by rw [e]; rfl)
  split at h
  next hno =>
    split at h <;> cases h
    next hdup =>
      exact .inr (.inl ⟨hne, by simp [Chunk.mapped, hno], rfl, rfl, fun hd => absurd hd hdup, id⟩)
  next hno =>
    split at h
    next hdup =>
      split at h
      · cases h
      rename_i hhad
      cases h
      exact .inr (.inl ⟨hne, by simp [Chunk.mapped, hdup], rfl, rfl,
        fun _ => ⟨Bool.eq_false_iff.mpr hhad, rfl⟩, fun _ => rfl⟩)
    next hdup =>
      split at h
      · cases h
      rename_i hhad
      cases h
      exact .inr (.inr ⟨hne, by simp [Chunk.mapped, hno, hdup], Bool.eq_false_iff.mpr hhad,
        rfl⟩)

theorem validateLoop_spec {v v' : Validation} {cs : List Chunk}
    (h : cs.foldlM validateStep v = .ok v') :
    (∃ ns ss, Arranged cs ns ss ∧ (v.hadNocopy = true → ns = [])) ∧
      v'.copySize = v.copySize + copiedLen cs ∧
      (v.hadDup = true → ∀ c ∈ cs, ¬ c.Dups) := by
  induction cs generalizing v with
  | nil =>
    cases h
    refine ⟨⟨[], [], ⟨rfl, ?_, ?_, .nil⟩, fun _ => rfl⟩, rfl, ?_⟩ <;> simp
  | cons c cs ih =>
    rw [foldlM_cons] at h
    cases hstep : validateStep v c with
    | error e =>
      rw [hstep] at h
      cases h
    | ok v₁ =>
      rw [hstep] at h
      obtain ⟨⟨ns, ss, harr, hns⟩, hsize, hdups⟩ := ih h
      have hdups' : ∀ {v : Validation}, (v.hadDup = true → ¬ c.Dups ∧ v₁.hadDup = true) →
          v.hadDup = true → ∀ d ∈ c :: cs, ¬ d.Dups :=
        fun hc hd => forall_mem_cons.mpr ⟨(hc hd).1, hdups (hc hd).2⟩
      rw [copiedLen_cons]
      obtain ⟨he, rfl⟩ | ⟨hne, hm, hsz, hno, hdup, hkeep⟩ | ⟨hne, hm, hno, rfl⟩ :=
        validateStep_cases hstep
      · have hc : ¬ c.Dups := fun hd => hd.2 he
        have hpair : (c :: cs).Pairwise fun a b => ¬ (a.Dups ∧ b.Dups) :=
          pairwise_cons.mpr ⟨fun _ _ hd => hc hd.1, harr.dups⟩
        refine ⟨?_, ?_, hdups' fun hd => ⟨hc, hd⟩⟩
        · cases hn : v₁.hadNocopy with
          | true =>
            -- an empty chunk may also stand behind mapped ones
            refine ⟨[], c :: ss, ⟨?_, by simp, ?_, hpair⟩, fun _ => rfl⟩
            · rw [harr.eq, hns hn]
              rfl
            · exact forall_mem_cons.mpr ⟨.inl he, harr.special⟩
          | false =>
            refine ⟨c :: ns, ss, ⟨by rw [harr.eq]; rfl, ?_, harr.special, hpair⟩, nofun⟩
            exact forall_mem_cons.mpr ⟨.inl he, harr.normal⟩
        · rw [hsize, Chunk.copiedLen_of_special (.inl he), Nat.zero_add]
      · -- from a mapped chunk on there are no normal ones
        have hcs : cs = ss := by rw [harr.eq, hns hno, nil_append]
        refine ⟨⟨[], c :: cs, ⟨rfl, by simp, ?_, ?_⟩, fun _ => rfl⟩, ?_, hdups' fun hd => ⟨?_, ?_⟩⟩
        · exact forall_mem_cons.mpr ⟨.inr hm, hcs ▸ harr.special⟩
        · refine pairwise_cons.mpr ⟨fun d hd hboth => ?_, harr.dups⟩
          exact hdups (hdup hboth.1.1).2 d hd hboth.2
        · rw [hsize, hsz, Chunk.copiedLen_of_special (.inr hm), Nat.zero_add]
        · intro hc
          rw [(hdup hc.1).1] at hd
          cases hd
        · exact hkeep hd
      · have hnd : ¬ c.Dups := by
          intro hd
          simp [Chunk.mapped, hd.1] at hm
        refine ⟨⟨c :: ns, ss, ⟨by rw [harr.eq]; rfl, ?_, harr.special, ?_⟩, ?_⟩, ?_,
          hdups' fun hd => ⟨hnd, hd⟩⟩
        · exact forall_mem_cons.mpr ⟨.inr hm, harr.normal⟩
        · exact pairwise_cons.mpr ⟨fun _ _ hd => hnd hd.1, harr.dups⟩
        · intro h
          rw [hno] at h
          cases h
        · rw [hsize]
          simp [Chunk.copiedLen, hm, Nat.add_assoc]

theorem validateHcmd_spec {cmd : Cmd} (h : validateHcmd cmd = .ok ()) :
    (∃ ns ss, Arranged cmd.chunks ns ss) ∧
      headerSize (Gen.gen1.wide cmd) + copiedLen cmd.chunks ≤ tfdMaxPayloadSize := by
  unfold validateHcmd at h
  cases hloop : cmd.chunks.foldlM validateStep
      { copySize := if cmdGroupid cmd.id ≠ 0 then 8 else 4 } with
  | error e =>
    rw [hloop] at h
    cases h
  | ok v =>
    rw [hloop] at h
    obtain ⟨⟨ns, ss, harr, -⟩, hsize, -⟩ := validateLoop_spec hloop
    refine ⟨⟨ns, ss, harr⟩, ?_⟩
    change (if tfdMaxPayloadSize < v.copySize then _ else _) = _ at h
    split at h
    · cases h
    have e : headerSize (Gen.gen1.wide cmd) = if cmdGroupid cmd.id ≠ 0 then 8 else 4 := by
      simp [headerSize, Gen.wide]
    rw [e, ← hsize]
    omega

/-! ### The first pass -/

/-- The chunks from position `p` on, without the bytes that belong to the first transfer buffer. -/
def restsFrom (p : ℕ) : List Chunk → List (Chunk × List UInt8)
  | [] => []
  | c :: cs => (c, c.data.drop (firstTbSize - p)) :: restsFrom (p + c.data.length) cs

theorem firstStep_eq {f : First} {c : Chunk} (hne : c.data ≠ [])
    (hb : max f.copySize firstTbSize + c.copiedLen < 65536) :
    firstStep f c =
      { copySize :=
          if c.mapped then
            f.copySize + min (firstTbSize - f.copySize) c.data.length
          else f.copySize + c.data.length
        cmdSize := (f.cmdSize + c.data.length) % 65536
        dupBuf := if c.dup then some (c.data.drop (firstTbSize - f.copySize)) else f.dupBuf
        adjusted := f.adjusted ++ [(c, c.data.drop (firstTbSize - f.copySize))] } := by
  have hcopy : (if f.copySize < firstTbSize then
      min (firstTbSize - f.copySize) c.data.length else 0) =
      min (firstTbSize - f.copySize) c.data.length := by
    split
    · rfl
    · rw [Nat.sub_eq_zero_of_le (by omega), Nat.zero_min]
  have hb' : max f.copySize firstTbSize < 65536 := by omega
  have hsum : (f.copySize + min (firstTbSize - f.copySize) c.data.length) % 65536 =
      f.copySize + min (firstTbSize - f.copySize) c.data.length :=
    Nat.mod_eq_of_lt (by omega)
  unfold firstStep
  rw [if_neg (by simpa using hne)]
  simp only [hcopy, hsum, ← drop_eq_drop_min, length_drop]
  congr 1
  cases hm : c.mapped with
  | true =>
    cases hd : c.dup with
    | true => simp
    | false =>
      have : c.nocopy = true := by simpa [Chunk.mapped, hd] using hm
      simp [this]
  | false =>
    obtain ⟨hno, hd⟩ : c.nocopy = false ∧ c.dup = false := by simpa [Chunk.mapped] using hm
    simp only [Chunk.copiedLen, hm, Bool.false_eq_true, if_false] at hb
    simp only [hno, hd, Bool.not_false, if_true, Bool.false_eq_true, if_false]
    rw [Nat.mod_eq_of_lt (by omega)]
    omega

/-- What an iteration cuts off depends on the position in the command only. -/
theorem firstStep_spec {f : First} {c : Chunk} {p : ℕ}
    (hp : firstTbSize - f.copySize = firstTbSize - p)
    (hb : max f.copySize firstTbSize + c.copiedLen < 65536) :
    (firstStep f c).adjusted = f.adjusted ++ [(c, c.data.drop (firstTbSize - p))] ∧
      firstTbSize - (firstStep f c).copySize = firstTbSize - (p + c.data.length) ∧
      max (firstStep f c).copySize firstTbSize ≤ max f.copySize firstTbSize + c.copiedLen ∧
      (firstStep f c).cmdSize % 65536 = (f.cmdSize + c.data.length) % 65536 ∧
      (¬ c.Dups → (firstStep f c).dupBuf = f.dupBuf) ∧
      (c.Dups → (firstStep f c).dupBuf = some (c.data.drop (firstTbSize - p))) := by
  by_cases hne : c.data = []
  · have e : firstStep f c = { f with adjusted := f.adjusted ++ [(c, c.data)] } := by
      unfold firstStep
      rw [if_pos (by simp [hne])]
    rw [e, Chunk.copiedLen_of_special (.inl hne)]
    simp [hne, hp, Chunk.Dups]
  rw [firstStep_eq hne hb, hp]
  refine ⟨rfl, ?_, ?_, ?_, ?_, ?_⟩
  · dsimp only
    split <;> omega
  · simp only [Chunk.copiedLen]
    split <;> omega
  · exact Nat.mod_mod _ _
  · intro hd
    have : c.dup = false := Bool.eq_false_iff.mpr fun h => hd ⟨h, hne⟩
    simp [this]
  · intro hd
    simp [hd.1]

theorem firstLoop_spec (cs : List Chunk) {f : First} {p : ℕ}
    (hp : firstTbSize - f.copySize = firstTbSize - p)
    (hb : max f.copySize firstTbSize + copiedLen cs < 65536) :
    (cs.foldl firstStep f).adjusted = f.adjusted ++ restsFrom p cs ∧
      (cs.foldl firstStep f).cmdSize % 65536 = (f.cmdSize + (joined cs).length) % 65536 ∧
      ((∀ c ∈ cs, ¬ c.Dups) → (cs.foldl firstStep f).dupBuf = f.dupBuf) ∧
      ((cs.Pairwise fun a b => ¬ (a.Dups ∧ b.Dups)) →
        ∀ x ∈ restsFrom p cs, x.1.Dups → (cs.foldl firstStep f).dupBuf = some x.2) := by
  induction cs generalizing f p with
  | nil => simp [restsFrom, joined]
  | cons c cs ih =>
    rw [copiedLen_cons] at hb
    obtain ⟨hadj, hp', hb', hsize, hkeep, hdup⟩ := firstStep_spec hp (c := c) (by omega)
    obtain ⟨hadj', hsize', hkeep', hdup'⟩ := ih hp' (by omega)
    rw [foldl_cons]
    refine ⟨?_, ?_, ?_, ?_⟩
    · rw [hadj', hadj, append_assoc]
      rfl
    · rw [hsize', Nat.add_mod, hsize, ← Nat.add_mod]
      simp [Nat.add_assoc]
    · intro hno
      rw [hkeep' fun d hd => hno d (.tail _ hd)]
      exact hkeep (hno c (.head _))
    intro hpair x hx hxd
    obtain ⟨hc, hpair⟩ := pairwise_cons.mp hpair
    cases hx with
    | head =>
      rw [hkeep' fun d hd hdd => hc d hd ⟨hxd, hdd⟩]
      exact hdup hxd
    | tail _ hx => exact hdup' hpair x hx hxd

theorem flatten_restsFrom (p : ℕ) (cs : List Chunk) :
    ((restsFrom p cs).map Prod.snd).flatten = (joined cs).drop (firstTbSize - p) := by
  induction cs generalizing p with
  | nil => simp [restsFrom, joined]
  | cons c cs ih =>
    rw [restsFrom, map_cons, flatten_cons, ih, joined_cons, drop_append]
    congr 2
    omega

theorem restsFrom_append (p : ℕ) (cs ds : List Chunk) :
    restsFrom p (cs ++ ds) = restsFrom p cs ++ restsFrom (p + (joined cs).length) ds := by
  induction cs generalizing p with
  | nil => simp [restsFrom, joined]
  | cons c cs ih =>
    rw [cons_append, restsFrom, restsFrom, ih, cons_append]
    simp [Nat.add_assoc]

theorem mem_restsFrom {p : ℕ} {cs : List Chunk} {x : Chunk × List UInt8}
    (hx : x ∈ restsFrom p cs) : x.1 ∈ cs ∧ ∃ k, x.2 = x.1.data.drop k := by
  induction cs generalizing p with
  | nil => cases hx
  | cons c cs ih =>
    cases hx with
    | head => exact ⟨.head _, _, rfl⟩
    | tail _ hx => exact ⟨.tail _ (ih hx).1, (ih hx).2⟩

/-! ### The second pass -/

theorem secondPass_normal {ns : List Chunk} {s : Second} (hns : ∀ c ∈ ns, c.Normal)
    (hb : s.copySize + (joined ns).length < 65536) :
    secondPass s ns = some ⟨s.outCmd ++ joined ns, s.copySize + (joined ns).length⟩ := by
  unfold secondPass
  induction ns generalizing s with
  | nil => simp [joined]
  | cons c ns ih =>
    rw [joined_cons, length_append] at hb
    have hstep : secondStep s c = some ⟨s.outCmd ++ c.data, s.copySize + c.data.length⟩ := by
      unfold secondStep
      split
      next h0 => simp [length_eq_zero_iff.mp h0]
      rename_i h0
      have hm : c.mapped = false :=
        (hns c (.head _)).resolve_left fun he => h0 (by rw [he]; rfl)
      simp only [hm, Bool.not_false, if_true]
      rw [Nat.mod_eq_of_lt (by omega)]
    rw [foldlM_cons, hstep]
    change ns.foldlM secondStep _ = _
    rw [ih (fun d hd => hns d (.tail _ hd)) (by dsimp only; omega), joined_cons]
    simp [Nat.add_assoc]

theorem take_append_take {α : Type} (n : ℕ) (l m : List α) :
    (l.take n ++ m).take n = (l ++ m).take n := by
  rw [take_append, take_append, take_take, Nat.min_self, length_take]
  congr 2
  omega

/-- Mapped chunks are copied as far as the command buffer goes; `copy_size` counts what is in the
first transfer buffer. -/
theorem secondPass_special {ss : List Chunk} {s : Second} (hss : ∀ c ∈ ss, c.Special)
    (hout : s.outCmd.length ≤ tfdMaxPayloadSize) :
    secondPass s ss = some ⟨(s.outCmd ++ joined ss).take tfdMaxPayloadSize,
      max s.copySize (min firstTbSize (s.copySize + (joined ss).length))⟩ := by
  unfold secondPass
  induction ss generalizing s with
  | nil =>
    simp only [joined, map_nil, flatten_nil, append_nil, length_nil,
      Nat.add_zero, foldlM_nil, take_of_length_le hout]
    rw [Nat.max_eq_left (Nat.min_le_right _ _)]
    rfl
  | cons c ss ih =>
    have hstep : secondStep s c = some ⟨(s.outCmd ++ c.data).take tfdMaxPayloadSize,
        max s.copySize (min firstTbSize (s.copySize + c.data.length))⟩ := by
      unfold secondStep
      split
      next h0 =>
        rw [length_eq_zero_iff.mp h0, append_nil, take_of_length_le hout]
        simp
      rename_i h0
      have hm : c.mapped = true :=
        (hss c (.head _)).resolve_left fun he => h0 (by rw [he]; rfl)
      simp only [hm, Bool.not_true, Bool.false_eq_true, if_false]
      rw [if_neg (by omega), take_append, take_of_length_le hout]
      congr 2
      · rw [← take_eq_take_min]
      have h20 : firstTbSize = 20 := rfl
      split
      · omega
      · omega
    rw [foldlM_cons, hstep]
    change ss.foldlM secondStep _ = _
    rw [ih (fun d hd => hss d (.tail _ hd)) (length_take_le _ _), joined_cons]
    congr 2
    · rw [← append_assoc, take_append_take]
    · dsimp only
      rw [length_append]
      omega

theorem secondPass_overrun {ss : List Chunk} {s s' : Second} (hss : ∀ c ∈ ss, c.Special)
    (hout : tfdMaxPayloadSize < s.outCmd.length) (h : secondPass s ss = some s') :
    s'.outCmd = s.outCmd := by
  unfold secondPass at h
  induction ss with
  | nil =>
    cases h
    rfl
  | cons c ss ih =>
    rw [foldlM_cons] at h
    have hstep : secondStep s c = some s ∨ secondStep s c = none := by
      unfold secondStep
      split
      · exact .inl rfl
      rename_i h0
      have hm : c.mapped = true :=
        (hss c (.head _)).resolve_left fun he => h0 (by rw [he]; rfl)
      right
      simp [hm]
    cases hstep with
    | inl hstep =>
      rw [hstep] at h
      exact ih (fun d hd => hss d (.tail _ hd)) h
    | inr hstep =>
      rw [hstep] at h
      cases h

/-! ### The encoded command -/

theorem length_header (wide : Bool) (id sequence length : ℕ) :
    (header wide id sequence length).length = headerSize wide := by
  cases wide <;> rfl

theorem headerSize_le (wide : Bool) : headerSize wide ≤ 8 := by
  cases wide <;> decide

section
variable {g : Gen} {cmd : Cmd} {ns ss : List Chunk}

theorem length_wire (g : Gen) (cmd : Cmd) (sequence : ℕ) : (g.wire cmd sequence).length =
    headerSize (g.wide cmd) + (joined cmd.chunks).length := by
  rw [Gen.wire, length_append, length_header]

variable {size : ℕ} (sequence : ℕ) (harr : Arranged cmd.chunks ns ss)
include harr

theorem firstPass_spec (h8 : size ≤ 8) (hb : (joined ns).length + 28 < 65536) :
    (firstPass size cmd.chunks).adjusted = restsFrom size cmd.chunks ∧
      (firstPass size cmd.chunks).cmdSize % 65536 = (size + (joined cmd.chunks).length) % 65536 ∧
      ∀ x ∈ restsFrom size cmd.chunks, x.1.Dups →
        (firstPass size cmd.chunks).dupBuf = some x.2 := by
  have h20 : firstTbSize = 20 := rfl
  obtain ⟨hadj, hsize, -, hdup⟩ := firstLoop_spec cmd.chunks
    (f := { copySize := size, cmdSize := size }) (p := size) rfl (by rw [harr.copiedLen_eq]; dsimp only; omega)
  exact ⟨hadj, hsize, hdup harr.dups⟩

variable (g) (hsize : headerSize (g.wide cmd) = size)
include hsize

theorem le_length_wire : size + (joined ns).length ≤ (g.wire cmd sequence).length := by
  rw [length_wire, hsize, harr.joined_eq, length_append]
  omega

/-- `cmd_size` may have wrapped, but the length in the header is again below 65536. -/
theorem encode_eq (hb : (joined ns).length + 28 < 65536) (htot : (joined cmd.chunks).length < 65536) :
    encode g cmd sequence =
      (secondPass ⟨header (g.wide cmd) cmd.id sequence (joined cmd.chunks).length ++ joined ns,
        size + (joined ns).length⟩ ss).map (⟨firstPass size cmd.chunks, ·⟩) := by
  have h8 : size ≤ 8 := hsize ▸ headerSize_le _
  obtain ⟨-, hcmd, -⟩ := firstPass_spec harr h8 hb
  have hlen : ((firstPass size cmd.chunks).cmdSize + 65536 - size) % 65536 =
      (joined cmd.chunks).length := by omega
  unfold encode
  dsimp only
  rw [hsize, hlen]
  congr 1
  have hnormal := secondPass_normal (s := ⟨header (g.wide cmd) cmd.id sequence
    (joined cmd.chunks).length, size⟩) harr.normal (by dsimp only; omega)
  unfold secondPass at hnormal ⊢
  rw [harr.eq] at hnormal ⊢
  rw [foldlM_append, hnormal]
  rfl

theorem encode_spec (hfit : size + (joined ns).length ≤ tfdMaxPayloadSize)
    (htot : (joined cmd.chunks).length < 65536) :
    ∃ e, encode g cmd sequence = some e ∧
      e.first = firstPass size cmd.chunks ∧
      e.second.outCmd = (g.wire cmd sequence).take tfdMaxPayloadSize ∧
      e.second.copySize = max (size + (joined ns).length)
        (min firstTbSize (g.wire cmd sequence).length) := by
  have h324 : tfdMaxPayloadSize = 324 := rfl
  rw [encode_eq g sequence harr hsize (by omega) htot, secondPass_special harr.special
    (by rw [length_append, length_header, hsize]; exact hfit)]
  refine ⟨_, rfl, rfl, ?_, ?_⟩
  · rw [Gen.wire, harr.joined_eq, append_assoc]
  · rw [length_wire, hsize, harr.joined_eq, length_append, ← Nat.add_assoc]

theorem encode_overrun (hb : (joined ns).length + 28 < 65536)
    (htot : (joined cmd.chunks).length < 65536)
    (hover : tfdMaxPayloadSize < size + (joined ns).length) {e : Encoded}
    (h : encode g cmd sequence = some e) : tfdMaxPayloadSize < e.second.outCmd.length := by
  rw [encode_eq g sequence harr hsize hb htot, Option.map_eq_some_iff] at h
  obtain ⟨s, hs, rfl⟩ := h
  have hlen : (header (g.wide cmd) cmd.id sequence (joined cmd.chunks).length ++
      joined ns).length = size + (joined ns).length := by
    rw [length_append, length_header, hsize]
  rw [secondPass_overrun harr.special (by rw [hlen]; exact hover) hs, hlen]
  exact hover

end

/-! ### The transfer buffers of a command -/

/-- The chunks that are mapped, without what is in the first transfer buffer. -/
def mappedRests (size : ℕ) (cs : List Chunk) : List (Chunk × List UInt8) :=
  (restsFrom size cs).filter isMapped

theorem flatten_filter_isMapped {l : List (Chunk × List UInt8)}
    (h : ∀ x ∈ l, isMapped x = false → x.2 = []) :
    ((l.filter isMapped).map Prod.snd).flatten = (l.map Prod.snd).flatten := by
  induction l with
  | nil => rfl
  | cons x l ih =>
    have ih := ih fun y hy => h y (.tail _ hy)
    cases hx : isMapped x with
    | true => simp [hx, ih]
    | false => simp [hx, ih, h x (.head _) hx]

theorem flatten_take_iff {α β : Type} {l : List β} {d : β → List α} {k : β → ℕ} :
    (l.map fun x => (d x).take (k x)).flatten = (l.map d).flatten ↔
      ∀ x ∈ l, (d x).length ≤ k x := by
  constructor
  · intro h
    have hlen := congrArg List.length h
    rw [length_flatten, length_flatten, map_map, map_map] at hlen
    clear h
    induction l with
    | nil => simp
    | cons x l ih =>
      simp only [map_cons, sum_cons, comp_apply, length_take] at hlen
      have hle : (l.map (List.length ∘ fun x => (d x).take (k x))).sum ≤
          (l.map (List.length ∘ d)).sum := by
        apply sum_le_sum
        intro y _
        simp
      intro y hy
      cases hy with
      | head => omega
      | tail _ hy => exact ih (by omega) y hy
  · intro h
    congr 1
    apply map_congr_left
    intro x hx
    exact take_of_length_le (h x hx)

theorem length_mappedRests_le (size : ℕ) (cmd : Cmd) :
    (mappedRests size cmd.chunks).length ≤ 2 :=
  length_filter_le _ _

section
variable (g : Gen) {cmd : Cmd} {ns ss : List Chunk} (sequence : ℕ)
  (harr : Arranged cmd.chunks ns ss) {size : ℕ} (hsize : headerSize (g.wide cmd) = size)
include harr hsize

theorem flatten_mappedRests :
    ((mappedRests size cmd.chunks).map Prod.snd).flatten =
      (g.wire cmd sequence).drop (max (size + (joined ns).length)
        (min firstTbSize (g.wire cmd sequence).length)) := by
  have hnormal : (restsFrom size ns).filter isMapped = [] := by
    rw [filter_eq_nil_iff]
    intro x hx
    obtain ⟨hmem, k, hk⟩ := mem_restsFrom hx
    cases harr.normal _ hmem with
    | inl h => simp [isMapped, hk, h]
    | inr h => simp [isMapped, h]
  have hspecial : ∀ x ∈ restsFrom (size + (joined ns).length) ss,
      isMapped x = false → x.2 = [] := by
    intro x hx hm
    obtain ⟨hmem, k, hk⟩ := mem_restsFrom hx
    cases harr.special _ hmem with
    | inl h => rw [hk, h, drop_nil]
    | inr h => simpa [isMapped, h] using hm
  obtain ⟨front, hfront, hwire⟩ : ∃ front : List UInt8,
      front.length = size + (joined ns).length ∧ g.wire cmd sequence = front ++ joined ss := by
    refine ⟨header (g.wide cmd) cmd.id sequence (joined cmd.chunks).length ++ joined ns, ?_, ?_⟩
    · rw [length_append, length_header, hsize]
    · rw [Gen.wire, append_assoc, ← harr.joined_eq]
  unfold mappedRests
  rw [harr.eq, restsFrom_append, filter_append, hnormal, nil_append,
    flatten_filter_isMapped hspecial, flatten_restsFrom, hwire, ← hfront, drop_append,
    drop_eq_nil_of_le (Nat.le_max_left front.length _), nil_append, length_append]
  -- both cut off what is missing to 20, but no more than there is
  rw [drop_eq_drop_min]
  congr 1
  omega

theorem regions_eq (hfit : size + (joined ns).length ≤ tfdMaxPayloadSize)
    {e : Encoded} (hfirst : e.first = firstPass size cmd.chunks)
    (hcopy : e.second.copySize = max (size + (joined ns).length)
      (min firstTbSize (g.wire cmd sequence).length)) :
    e.regions = [(e.second.outCmd, min firstTbSize (g.wire cmd sequence).length)] ++
      (if firstTbSize < e.second.copySize then
        [(e.second.outCmd.drop firstTbSize, e.second.copySize - firstTbSize)] else []) ++
      (mappedRests size cmd.chunks).map fun x => (x.2, x.2.length) := by
  have h324 : tfdMaxPayloadSize = 324 := rfl
  obtain ⟨hadj, -, hdup⟩ := firstPass_spec harr (hsize ▸ headerSize_le _) (by omega)
  have hle := le_length_wire g sequence harr hsize
  have htb0 : e.tb0Size = min firstTbSize (g.wire cmd sequence).length := by
    unfold Encoded.tb0Size
    omega
  unfold Encoded.regions mappedRests
  rw [hfirst, hadj, htb0]
  congr 1
  · congr 1
    by_cases h : firstTbSize < e.second.copySize
    · rw [if_pos (by omega), if_pos h, Nat.min_eq_left (by omega)]
    · rw [if_neg (by omega), if_neg h]
  apply map_congr_left
  intro x hx
  obtain ⟨hmem, hm⟩ := mem_filter.mp hx
  cases hd : x.1.dup with
  | false => simp
  | true =>
    have hne : x.1.data ≠ [] := by
      obtain ⟨-, k, hk⟩ := mem_restsFrom hmem
      intro h
      simp [isMapped, hk, h] at hm
    simp [hdup x hmem ⟨hd, hne⟩]

theorem encodedRight_iff (hfit : size + (joined ns).length ≤ tfdMaxPayloadSize)
    (htot : (joined cmd.chunks).length < 65536) :
    EncodedRight g cmd sequence ↔
      ∀ x ∈ mappedRests size cmd.chunks, x.2.length ≤ g.tbLen x.2.length := by
  have h20 : firstTbSize = 20 := rfl
  have h324 : tfdMaxPayloadSize = 324 := rfl
  have hle := le_length_wire g sequence harr hsize
  obtain ⟨e, henc, hfirst, hout, hcopy⟩ := encode_spec g sequence harr hsize hfit htot
  have hregions := regions_eq g sequence harr hsize hfit hfirst hcopy
  have hrests := flatten_mappedRests g sequence harr hsize
  have hcount := length_mappedRests_le size cmd
  rw [← hcopy] at hrests
  generalize mappedRests size cmd.chunks = rests at hregions hrests hcount ⊢
  have hfew : e.regions.length ≤ g.maxTbs := by
    have hmax : 20 ≤ g.maxTbs := by cases g <;> decide
    rw [hregions, length_append, length_append, length_map]
    split <;> simp <;> omega
  have hused : (g.buildTfd e).used = e.regions.map fun r => ⟨r.1, g.tbLen r.2⟩ :=
    (foldl_setTb g e.regions ((Nat.zero_add _).trans_le hfew)).trans (nil_append _)
  have hread : ((g.buildTfd e).used.map Tb.read).flatten =
      (g.wire cmd sequence).take e.second.copySize ++
        (rests.map fun x => x.2.take (g.tbLen x.2.length)).flatten := by
    have hcopied : e.second.outCmd.take e.second.copySize =
        (g.wire cmd sequence).take e.second.copySize := by
      rw [hout, take_take, Nat.min_eq_left (by omega)]
    rw [hused, hregions, ← hcopied]
    simp only [map_append, flatten_append, map_map, comp_def, Tb.read]
    congr 1
    by_cases h : firstTbSize < e.second.copySize
    · rw [if_pos h, Nat.min_eq_left (by omega)]
      simp only [map_cons, map_nil, flatten_cons, flatten_nil, append_nil]
      rw [tbLen_of_lt g (by omega), tbLen_of_lt g (by omega), ← take_add]
      congr 1
      omega
    · simp only [if_neg h, map_cons, map_nil, flatten_cons, flatten_nil, append_nil]
      rw [tbLen_of_lt g (by omega)]
      congr 1
      omega
  have hhead : (g.buildTfd e).used.head?.map Tb.len =
      some (min firstTbSize (g.wire cmd sequence).length) := by
    rw [hused, hregions]
    simp [tbLen_of_lt g (by omega : min firstTbSize (g.wire cmd sequence).length < 4096)]
  rw [← flatten_take_iff (d := Prod.snd), hrests]
  constructor
  · rintro ⟨e', henc', hflat, -⟩
    obtain rfl : e = e' := Option.some.inj (henc.symm.trans henc')
    rw [hread] at hflat
    refine append_cancel_left (hflat.trans ?_)
    exact (take_append_drop _ _).symm
  intro h
  refine ⟨e, henc, ?_, hhead, ?_, ?_⟩
  · rw [hread, h, take_append_drop]
  · rwa [hused, length_map]
  · rw [hout]
    exact length_take_le _ _

end

/-- No chunk that is mapped has 4096 bytes or more behind the first 20 bytes of the command. -/
def Cmd.ShortMappings (cmd : Cmd) (size : ℕ) : Prop :=
  (cmd.chunk0.mapped = true →
    cmd.chunk0.data.length - (firstTbSize - size) < 4096) ∧
  (cmd.chunk1.mapped = true →
    cmd.chunk1.data.length - (firstTbSize - (size + cmd.chunk0.data.length)) < 4096)

theorem shortMappings_iff (cmd : Cmd) (size : ℕ) :
    cmd.ShortMappings size ↔ ∀ x ∈ mappedRests size cmd.chunks, x.2.length < 4096 := by
  simp only [mappedRests, Cmd.chunks, restsFrom, mem_filter, mem_cons,
    not_mem_nil, or_false, and_imp, forall_eq_or_imp, forall_eq, isMapped, length_drop,
    Bool.and_eq_true, bne_iff_ne, Cmd.ShortMappings]
  constructor
  · rintro ⟨h0, h1⟩
    exact ⟨fun _ hm => h0 hm, fun _ hm => h1 hm⟩
  rintro ⟨h0, h1⟩
  refine ⟨fun hm => ?_, fun hm => ?_⟩
  · by_contra hlong
    exact hlong (h0 (by omega) hm)
  · by_contra hlong
    exact hlong (h1 (by omega) hm)

/-- **Host commands as transfer buffers.**  An accepted command is encoded right by
`iwl_pcie_enqueue_hcmd` if and only if every mapped remainder is shorter than 4096 bytes, and by
`iwl_pcie_gen2_enqueue_hcmd` if and only if its copied chunks fit behind the wide header. -/
theorem hcmd_encoding_iff (cmd : Cmd) (sequence : ℕ) (hvalid : validateHcmd cmd = .ok ())
    (htot : cmd.chunk0.data.length + cmd.chunk1.data.length < 65536) :
    (EncodedRight .gen1 cmd sequence ↔
      cmd.ShortMappings (headerSize (Gen.gen1.wide cmd))) ∧
    (EncodedRight .gen2 cmd sequence ↔ 8 + copiedLen cmd.chunks ≤ tfdMaxPayloadSize) := by
  obtain ⟨⟨ns, ss, harr⟩, hfit⟩ := validateHcmd_spec hvalid
  have htot' : (joined cmd.chunks).length < 65536 := by
    simpa [joined, Cmd.chunks] using htot
  have hcopied := harr.copiedLen_eq
  have h324 : tfdMaxPayloadSize = 324 := rfl
  constructor
  · rw [encodedRight_iff .gen1 sequence harr rfl (by omega) htot', shortMappings_iff]
    refine forall₂_congr fun x _ => ?_
    rw [tbLen_gen1]
    omega
  constructor
  · rintro ⟨e, henc, -, -, -, hout⟩
    by_contra hover
    have := encode_overrun .gen2 sequence harr rfl (by omega) htot'
      (by rw [← hcopied]; exact Nat.lt_of_not_le hover) henc
    omega
  intro hle
  refine (encodedRight_iff .gen2 sequence harr rfl (by rw [← hcopied]; exact hle) htot').mpr ?_
  intro x hx
  obtain ⟨hmem, -⟩ := mem_filter.mp hx
  obtain ⟨hc, k, hk⟩ := mem_restsFrom hmem
  have hlen : x.2.length ≤ x.1.data.length := by
    rw [hk, length_drop]
    omega
  have hx : x.1.data.length < 65536 := by
    simp only [Cmd.chunks, mem_cons, not_mem_nil, or_false] at hc
    cases hc with
    | inl h => rw [h]; omega
    | inr h => rw [h]; omega
  exact (Nat.mod_eq_of_lt (by omega)).ge

def mixedCmd : Cmd where
  id := 0x1c
  chunk0 := { data := List.replicate 4 1 }
  chunk1 := { data := List.replicate 40 2, dup := true }

theorem hcmd_encoding_iff_mixed :
    validateHcmd mixedCmd = .ok () ∧
      (EncodedRight .gen1 mixedCmd 0 ↔ mixedCmd.ShortMappings 4) ∧
      (EncodedRight .gen2 mixedCmd 0 ↔ 8 + copiedLen mixedCmd.chunks ≤ tfdMaxPayloadSize) ∧
      mixedCmd.ShortMappings 4 ∧ 8 + copiedLen mixedCmd.chunks ≤ tfdMaxPayloadSize :=
  have h := hcmd_encoding_iff mixedCmd 0 rfl (by decide)
  ⟨rfl, h.1, h.2, ⟨by decide, by decide⟩, by decide⟩

theorem length_read_le (tbs : List (Tb (List UInt8))) :
    (tbs.map Tb.read).flatten.length ≤ (tbs.map Tb.len).sum := by
  rw [length_flatten, map_map]
  apply sum_le_sum
  intro tb _
  exact length_take_le _ _

def longMappingCmd : Cmd where
  id := 0x1c
  chunk0 := { data := List.replicate 4112 1, nocopy := true }

def fullCmd : Cmd where
  id := 0x1c
  chunk0 := { data := List.replicate 320 1 }

/-- The first generation gives a mapped remainder of 4096 bytes the length 0.  The second one writes
328 bytes to the command buffer. -/
theorem accepted_not_encoded :
    validateHcmd longMappingCmd = .ok () ∧
      ((encode .gen1 longMappingCmd 0).map fun e =>
        (Gen.gen1.buildTfd e).used.map Tb.len) = some [20, 0] ∧
      ¬ EncodedRight .gen1 longMappingCmd 0 ∧
    validateHcmd fullCmd = .ok () ∧
      ((encode .gen2 fullCmd 0).map fun e => e.second.outCmd.length) = some 328 ∧
      ¬ EncodedRight .gen2 fullCmd 0 := by
  have hlong : ((encode .gen1 longMappingCmd 0).map fun e =>
      (Gen.gen1.buildTfd e).used.map Tb.len) = some [20, 0] := by decide +kernel
  have hfull : ((encode .gen2 fullCmd 0).map fun e => e.second.outCmd.length) = some 328 := by
    decide +kernel
  refine ⟨by decide +kernel, hlong, ?_, by decide +kernel, hfull, ?_⟩
  · rintro ⟨e, henc, hflat, -⟩
    rw [henc, Option.map_some, Option.some.injEq] at hlong
    have hle := length_read_le (Gen.gen1.buildTfd e).used
    rw [hflat, hlong] at hle
    exact absurd hle (by decide +kernel)
  · rintro ⟨e, henc, -, -, -, hout⟩
    rw [henc, Option.map_some, Option.some.injEq] at hfull
    rw [hfull] at hout
    exact absurd hout (by decide)

end Iwlwifi.Iwl.Pcie.Hcmd
