import Iwlwifi.Access

/-! # The fields of Multi-Link elements

A model of the validators and getters for Multi-Link elements (`include/linux/ieee80211-eht.h`).
Behind a control field with presence bits and a length follow the fields that are present; every
function adds up the sizes of the fields before the place it needs.

* **Fields** (`Field`).  The size of a field for a control value, at most 8.
* **Validators** (`mleSizeOk`, `mleBasicStaProfSizeOk`).  Their running sizes have 8 bits.
* `mle_getters_safe`: what the validators accept is read inside of the announced length, which is
  inside of the element, and no running size wraps. -/

namespace Iwlwifi.Ieee80211.Mle

open Access

structure Field where
  size : ℕ → ℕ
  size_le : ∀ control, size control ≤ 8

/-- A field of `n` bytes with a presence bit. -/
def flag (mask n : ℕ) (h : n ≤ 8 := by decide) : Field where
  size control := if control &&& mask ≠ 0 then n else 0
  size_le _ := by split <;> omega

/-- The NSTR bitmap of a complete profile. -/
def nstrBitmap : Field where
  size control :=
    if control &&& 0x10 ≠ 0 ∧ control &&& 0x200 ≠ 0 then if control &&& 0x400 ≠ 0 then 2 else 1 else 0
  size_le _ := by split_ifs <;> omega

/-- A sum of sizes without overflow. -/
def fieldsLen (control : ℕ) (fields : List Field) : ℕ := (fields.map fun f => f.size control).sum

/-- A running size in a `u8`. -/
def runningSize (control start : ℕ) (fields : List Field) : ℕ :=
  fields.foldl (fun size f => (size + f.size control) % 256) start

/-! ### Validators -/

section elem
variable (mem : ℕ → UInt8) (len : ℕ)

def basicFields : List Field :=
  [flag 0x10 1, flag 0x20 1, flag 0x40 2, flag 0x80 2, flag 0x100 2, flag 0x200 1, flag 0x400 2,
    flag 0x800 1, flag 0x1000 1]

/-- The cases of the switch in `ieee80211_mle_size_ok`: what `common` starts with, and the fields. -/
def mleCommon : ℕ → Option (ℕ × List Field)
  | 0 => some (7, basicFields)
  | 1 => some (1, [flag 0x10 1, flag 0x20 6, flag 0x40 6])
  | 2 => some (1, [flag 0x10 6, flag 0x20 2, flag 0x40 2, flag 0x80 2, flag 0x100 6])
  | 3 => some (7, [])
  | 4 => some (7, [])
  | _ => none

/-- `ieee80211_mle_size_ok`. -/
def mleSizeOk : Access Bool :=
  if len < 2 then pure false
  else do
    let control ← le16At mem 0
    match mleCommon (control % 8) with
    | none => pure true
    | some (start, fields) =>
      let common := runningSize control start fields
      if len < 2 + common then pure false
      else do
        let commonLen ← byteAt mem 2
        pure (decide (common ≤ commonLen.toNat ∧ commonLen.toNat ≤ len - 2))

/-- `ieee80211_mle_type_ok`. -/
def mleTypeOk (type : ℕ) : Access Bool := do
  let ok ← mleSizeOk mem len
  if ok then do
    let control ← le16At mem 0
    pure (control % 8 == type)
  else pure false

def staProfFields : List Field :=
  [flag 0x20 6, flag 0x40 2, flag 0x80 8, flag 0x100 2, nstrBitmap, flag 0x800 1, flag 0x1000 1,
    flag 0x2000 1, flag 0x4000 1]

/-- `ieee80211_mle_basic_sta_prof_size_ok`. -/
def mleBasicStaProfSizeOk : Access Bool :=
  if len < 3 then pure false
  else do
    let control ← le16At mem 0
    let staInfoLen ← byteAt mem 2
    pure (decide (runningSize control 1 staProfFields ≤ staInfoLen.toNat ∧
      3 + staInfoLen.toNat - 1 ≤ len))

/-! ### Getters -/

def leAt (size o : ℕ) : Access ℕ :=
  ⟨Nat.ofDigits 256 ((List.range size).map fun i => (mem (o + i)).toNat), [(o, size)]⟩

/-- The form of the getters: a default, or what is read behind the fields before. -/
def getField {α : Type} (base mask size : ℕ) (before : List Field) (f : ℕ → α) (default : α) :
    Access α := do
  let control ← le16At mem 0
  if control &&& mask = 0 then pure default
  else
    let v ← leAt mem size (base + fieldsLen control before)
    pure (f v)

def mleGetLinkId : Access ℤ := getField mem 9 0x10 1 [] (↑) (-1)

def mleGetBssParamChCnt : Access ℤ := getField mem 9 0x20 1 [flag 0x10 1] (↑) (-1)

def mleGetEmlMedSyncDelay : Access ℕ :=
  getField mem 9 0x40 2 [flag 0x10 1, flag 0x20 1] id 0x10ac

def mleGetEmlCap : Access ℕ :=
  getField mem 9 0x80 2 [flag 0x10 1, flag 0x20 1, flag 0x40 2] id 0

def mleGetMldCapaOp : Access ℕ :=
  getField mem 9 0x100 2 [flag 0x10 1, flag 0x20 1, flag 0x40 2, flag 0x80 2] id 0

def mleGetExtMldCapaOp : Access ℕ :=
  getField mem 9 0x400 2
    [flag 0x10 1, flag 0x20 1, flag 0x40 2, flag 0x80 2, flag 0x100 2, flag 0x200 1] id 0

/-- `ieee80211_mle_get_enh_crit_upd_info`: what the pointer points to. -/
def mleGetEnhCritUpdInfo : Access (Option ℕ) :=
  getField mem 9 0x800 1 [flag 0x10 1, flag 0x20 1, flag 0x40 2, flag 0x80 2, flag 0x100 2,
    flag 0x200 1, flag 0x400 2] some none

def mleGetMldId : Access ℕ :=
  getField mem 9 0x200 1 [flag 0x10 1, flag 0x20 1, flag 0x40 2, flag 0x80 2, flag 0x100 2] id 0

def mleBasicStaProfBssParamChCnt : Access ℕ :=
  getField mem 3 0x800 1 [flag 0x20 6, flag 0x40 2, flag 0x80 8, flag 0x100 2, nstrBitmap] id 0

def mleBasicStaProfEnhCritUpd : Access (Option ℕ) :=
  getField mem 3 0x1000 1
    [flag 0x20 6, flag 0x40 2, flag 0x80 8, flag 0x100 2, nstrBitmap, flag 0x800 1] some none

end elem

/-! ### Safety -/

variable {mem : ℕ → UInt8} {len n : ℕ} {fields : List Field}

theorem runningSize_eq (control : ℕ) {start : ℕ} (h : start + 8 * fields.length < 256) :
    runningSize control start fields = start + fieldsLen control fields := by
  induction fields generalizing start with
  | nil => rfl
  | cons f fields ih =>
    have hle := f.size_le control
    rw [List.length_cons] at h
    rw [runningSize, List.foldl_cons, Nat.mod_eq_of_lt (by omega), ← runningSize, ih (by omega)]
    simp [fieldsLen, Nat.add_assoc]

theorem within_getField {α : Type} {base mask size : ℕ} {before : List Field} {f : ℕ → α}
    {default : α} {hsize : size ≤ 8} (hfields : before ++ [flag mask size hsize] <+: fields)
    (hlen : base + fieldsLen (le16At mem 0).val fields ≤ n) (hn : 2 ≤ n) :
    Within n (getField mem base mask size before f default) := by
  obtain ⟨rest, rfl⟩ := hfields
  rw [getField, within_bind, within_le16At, within_ite, within_bind]
  refine ⟨hn, fun _ => within_pure _, fun hmask => ⟨?_, within_pure _⟩⟩
  simp [fieldsLen, flag, hmask] at hlen
  simp [Within, leAt, fieldsLen]
  omega

theorem fieldsLen_of_mleTypeOk (h : (mleTypeOk mem len 0).val = true) :
    9 + fieldsLen (le16At mem 0).val basicFields ≤ 2 + (mem 2).toNat ∧ 2 + (mem 2).toNat ≤ len := by
  rw [mleTypeOk, val_bind] at h
  split at h
  next hok =>
    rw [val_bind, val_pure, beq_iff_eq] at h
    unfold mleSizeOk at hok
    split at hok
    · cases hok
    rw [val_bind, h, show mleCommon 0 = some (7, basicFields) from rfl] at hok
    dsimp only at hok
    rw [runningSize_eq _ (by decide)] at hok
    split at hok
    · cases hok
    rw [val_bind, val_pure, decide_eq_true_iff, val_byteAt] at hok
    omega
  next => cases h

theorem fieldsLen_of_staProfSizeOk (h : (mleBasicStaProfSizeOk mem len).val = true) :
    3 + fieldsLen (le16At mem 0).val staProfFields ≤ 2 + (mem 2).toNat ∧ 2 + (mem 2).toNat ≤ len := by
  unfold mleBasicStaProfSizeOk at h
  split at h
  · cases h
  rw [val_bind, val_bind, val_pure, decide_eq_true_iff, runningSize_eq _ (by decide), val_byteAt] at h
  omega

/-- **Validated elements are read safely**, inside of the announced length. -/
theorem mle_getters_safe (mem : ℕ → UInt8) (len : ℕ) :
    ((mleTypeOk mem len 0).val = true → 2 + (mem 2).toNat ≤ len ∧
      let n := 2 + (mem 2).toNat
      Within n (mleGetLinkId mem) ∧ Within n (mleGetBssParamChCnt mem) ∧
        Within n (mleGetEmlMedSyncDelay mem) ∧ Within n (mleGetEmlCap mem) ∧
        Within n (mleGetMldCapaOp mem) ∧ Within n (mleGetExtMldCapaOp mem) ∧
        Within n (mleGetEnhCritUpdInfo mem) ∧ Within n (mleGetMldId mem)) ∧
    ((mleBasicStaProfSizeOk mem len).val = true → 2 + (mem 2).toNat ≤ len ∧
      let n := 2 + (mem 2).toNat
      Within n (mleBasicStaProfBssParamChCnt mem) ∧ Within n (mleBasicStaProfEnhCritUpd mem)) ∧
    ∀ control, (∀ type, ∀ p ∈ mleCommon type,
        runningSize control p.1 p.2 = p.1 + fieldsLen control p.2) ∧
      runningSize control 1 staProfFields = 1 + fieldsLen control staProfFields := by
  have hn : 2 ≤ 2 + (mem 2).toNat := by omega
  refine ⟨fun h => ?_, fun h => ?_, fun control => ⟨?_, runningSize_eq control (by decide)⟩⟩
  · obtain ⟨hlen, hle⟩ := fieldsLen_of_mleTypeOk h
    refine ⟨hle, ?_, ?_, ?_, ?_, ?_, ?_, ?_, ?_⟩ <;> exact within_getField ⟨_, rfl⟩ hlen hn
  · obtain ⟨hlen, hle⟩ := fieldsLen_of_staProfSizeOk h
    exact ⟨hle, within_getField ⟨_, rfl⟩ hlen hn, within_getField ⟨_, rfl⟩ hlen hn⟩
  · intro type p hp
    apply runningSize_eq
    unfold mleCommon at hp
    split at hp <;> cases hp <;> decide

end Iwlwifi.Ieee80211.Mle
