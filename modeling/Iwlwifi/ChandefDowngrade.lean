import Iwlwifi.ChandefParts

/-! # Downgrading a channel

`ieee80211_chandef_downgrade` (`net/mac80211/util.c`) replaces a channel by its primary half.  A half
that is punctured in a way that is not allowed at its width is no valid channel, and the function
then goes on to the next half.

* **Model** (`chandefDowngrade`), with the connection settings that go with the width.  `none` says
  that the `goto again` was taken more often than there are widths.
* **Parts** (`downgradeLoop_spec`).  The result is one of the parts of `ChandefParts`, and the wider
  ones that were passed are not valid (`chandef_downgrade_widest`). -/

namespace Iwlwifi.Cfg80211

open Halving

variable {κ : Type} {channels : κ → Channel} {c e : ChanDef κ} {m s p j : ℕ}

/-- `enum ieee80211_conn_mode`. -/
inductive ConnMode
  | s1g | legacy | ht | vht | he | eht | uhr
  deriving DecidableEq

/-- `enum ieee80211_conn_bw_limit`. -/
inductive ConnBwLimit
  | limit20 | limit40 | limit80 | limit160 | limit320
  deriving DecidableEq

/-- `struct ieee80211_conn_settings`, as far as the function writes it. -/
structure ConnSettings where
  mode : ConnMode
  bwLimit : ConnBwLimit
  deriving DecidableEq

def ConnMode.belowVht : ConnMode → ConnMode
  | .vht => .ht
  | mode => mode

/-- The switch on the width: the chandef, the settings and `new_primary_width`. -/
def downgradeWidth (channels : κ → Channel) (c : ChanDef κ) (conn : ConnSettings) :
    ChanDef κ × ConnSettings × ChanWidth :=
  match c.width with
  | .width40 =>
    ({ c with
        width := .width20
        centerFreq1 := (c.chan.map fun k => (channels k).centerFreq).getD 0
        punctured := 0 },
      ⟨conn.mode.belowVht, .limit20⟩, .width20NoHt)
  | .width80 => (c, ⟨conn.mode.belowVht, .limit40⟩, .width40)
  | .width80p80 =>
    ({ c with centerFreq2 := 0, width := .width80 }, { conn with bwLimit := .limit80 },
      .width20NoHt)
  | .width160 => (c, { conn with bwLimit := .limit80 }, .width80)
  | .width320 => (c, { conn with bwLimit := .limit160 }, .width160)
  | .width1 | .width2 | .width4 | .width8 | .width16 => (c, ⟨.s1g, .limit20⟩, .width20NoHt)
  | .width20 | .width20NoHt | .width5 | .width10 =>
    ({ c with width := .width20NoHt, punctured := 0 }, ⟨.legacy, .limit20⟩, .width20NoHt)

/-- One pass of `ieee80211_chandef_downgrade`. -/
def downgradeOnce (channels : κ → Channel) (c : ChanDef κ) (conn : ConnSettings) :
    ChanDef κ × ConnSettings :=
  let (c, conn, newPrimaryWidth) := downgradeWidth channels c conn
  let c :=
    if newPrimaryWidth ≠ .width20NoHt then
      { c with
        centerFreq1 := (chandefPrimary channels c newPrimaryWidth).1
        punctured := (chandefPrimary channels c newPrimaryWidth).2
        width := newPrimaryWidth }
    else c
  -- whatever we do, downgrading removes NPCA
  ({ c with npcaChan := none, npcaPunctured := 0 }, conn)

/-- The passes, at most `n` of them. -/
def downgradeLoop (channels : κ → Channel) :
    ℕ → ChanDef κ → ConnSettings → Option (ChanDef κ × ConnSettings)
  | 0, _, _ => none
  | n + 1, c, conn =>
    let r := downgradeOnce channels c conn
    if !chandefValid channels r.1 && r.1.punctured != 0 then downgradeLoop channels n r.1 r.2
    else some r

/-- `ieee80211_chandef_downgrade`. -/
def chandefDowngrade (channels : κ → Channel) (c : ChanDef κ) (conn : ConnSettings) :
    Option (ChanDef κ × ConnSettings) :=
  downgradeLoop channels 5 c conn

/-! ### The passes -/

theorem partPunctured_zero {x : ℕ} (h : x.testBit p = false) : partPunctured x p 0 = 0 := by
  have h0 : slice x 0 p = 0 := by
    apply Nat.eq_of_testBit_eq
    intro i
    rw [testBit_slice, Nat.zero_testBit, low_zero]
    obtain rfl | hi := Nat.eq_zero_or_pos i
    · simp [h]
    · simp [show ¬ i < 1 by omega]
  rw [partPunctured, h0]
  rfl

theorem downgradeOnce_eq (h : Placed channels e (j + 1) s p) (hw : e.width = partWidth (j + 1))
    (h2 : e.centerFreq2 = 0) (hbit : e.punctured.toNat.testBit p = false) (conn : ConnSettings) :
    (downgradeOnce channels e conn).1 = primaryPart channels e (partWidth j) := by
  have hsize := h.size
  obtain rfl | rfl | rfl | rfl : j = 0 ∨ j = 1 ∨ j = 2 ∨ j = 3 := by omega
  · obtain ⟨k, hk, hcontrol⟩ := h.chan
    have hcenter : partCenter s p 0 = (channels k).centerFreq := by
      rw [← UInt32.toNat_inj, toNat_partCenter (by omega) h.primary h.range, hcontrol, low_zero]
      omega
    rw [primaryPart_eq h (by omega), partPunctured_zero hbit, hcenter]
    simp [downgradeOnce, downgradeWidth, hw, partWidth, hk, h2]
  all_goals simp [downgradeOnce, downgradeWidth, hw, partWidth, primaryPart, h2]

section
variable {d : ChanDef κ} {conn : ConnSettings} (n : ℕ)
  (hone : (downgradeOnce channels e conn).1 = d)
include n hone

theorem downgradeLoop_stop (h : chandefValid channels d = true ∨ d.punctured = 0) :
    downgradeLoop channels (n + 1) e conn = some (d, (downgradeOnce channels e conn).2) := by
  subst hone
  refine if_neg ?_
  obtain h | h := h
  · simp [h]
  · simp [h]

theorem downgradeLoop_again (hv : chandefValid channels d = false) (hp : d.punctured ≠ 0) :
    downgradeLoop channels (n + 1) e conn =
      downgradeLoop channels n d (downgradeOnce channels e conn).2 := by
  subst hone
  exact if_pos (by simp [hv, hp])

end

/-- **The passes stop at the first part that is valid or not punctured.** -/
theorem downgradeLoop_spec : ∀ (j n : ℕ) (e : ChanDef κ) (s p : ℕ) (conn : ConnSettings), j < n →
    Placed channels e (j + 1) s p → e.width = partWidth (j + 1) → e.centerFreq2 = 0 →
    e.punctured.toNat.testBit p = false →
    ∃ i ≤ j, ∃ conn',
      downgradeLoop channels n e conn = some (primaryPart channels e (partWidth i), conn') ∧
      (chandefValid channels (primaryPart channels e (partWidth i)) = true ∨
        (primaryPart channels e (partWidth i)).punctured = 0) ∧
      ∀ i', i < i' → i' ≤ j →
        chandefValid channels (primaryPart channels e (partWidth i')) = false ∧
          (primaryPart channels e (partWidth i')).punctured ≠ 0 := by
  intro j
  induction j with
  | zero =>
    intro n e s p conn hn h hw h2 hbit
    obtain ⟨n, rfl⟩ : ∃ n', n = n' + 1 := ⟨n - 1, by omega⟩
    have hone := downgradeOnce_eq h hw h2 hbit conn
    have hpunct : (primaryPart channels e (partWidth 0)).punctured = 0 := by
      rw [primaryPart_eq h (by omega)]
      exact partPunctured_zero hbit
    refine ⟨0, le_rfl, _, downgradeLoop_stop n hone (.inr hpunct), .inr hpunct, ?_⟩
    intro i' h₁ h₂
    omega
  | succ j ih =>
    intro n e s p conn hn h hw h2 hbit
    obtain ⟨n, rfl⟩ : ∃ n', n = n' + 1 := ⟨n - 1, by omega⟩
    have hone := downgradeOnce_eq h hw h2 hbit conn
    by_cases hstop : chandefValid channels (primaryPart channels e (partWidth (j + 1))) = true ∨
        (primaryPart channels e (partWidth (j + 1))).punctured = 0
    · refine ⟨j + 1, le_rfl, _, downgradeLoop_stop n hone hstop, hstop, ?_⟩
      intro i' h₁ h₂
      omega
    -- a punctured half that is not valid: go on with its own half
    obtain ⟨hinv, hpunct⟩ := not_or.mp hstop
    rw [Bool.not_eq_true] at hinv
    obtain ⟨i, hi, conn', hloop, hend, hpassed⟩ := ih n
      (primaryPart channels e (partWidth (j + 1))) _ _ (downgradeOnce channels e conn).2
      (by omega) (primaryPart_placed h (by omega)) rfl rfl
      (primaryPart_primary h (by omega) hbit)
    rw [primaryPart_primaryPart h (by omega) (by omega)] at hloop hend
    refine ⟨i, by omega, conn', (downgradeLoop_again n hone hinv hpunct).trans hloop, hend, ?_⟩
    intro i' h₁ h₂
    obtain h₃ | rfl := Nat.lt_or_eq_of_le h₂
    · rw [← primaryPart_primaryPart h (j := j + 1) (by omega) (by omega)]
      exact hpassed i' h₁ (by omega)
    · exact ⟨hinv, hpunct⟩

theorem ChanWidth.eq_partWidth {w : ChanWidth} (hw : w.wide = true) (hne : w ≠ .width80p80) :
    w = partWidth w.halvings := by
  cases w <;> simp [ChanWidth.wide, ChanWidth.halvings, partWidth] at hw hne ⊢

theorem partWidth_val_lt {w : ChanWidth} (hw : w.wide = true) {i : ℕ} (hi : i ≤ 4) :
    (partWidth i).val < w.val ↔ i < w.halvings ∨ w = .width80p80 ∧ i = 2 := by
  interval_cases i
  all_goals cases w <;>
    simp [ChanWidth.wide, ChanWidth.halvings, partWidth, ChanWidth.val] at hw ⊢

theorem centerFreq2_of_validWidth (hw : c.width.wide = true) (hne : c.width ≠ .width80p80)
    {chan : Channel} (h : validWidth chan c = true) : c.centerFreq2 = 0 := by
  unfold validWidth at h
  cases hc : c.width <;> rw [hc] at h hw hne <;> simp [ChanWidth.wide] at h hw hne
  all_goals exact h

theorem chandefDowngrade_80p80 (hv : chandefValid channels c = true) (h80 : c.width = .width80p80)
    (conn : ConnSettings) :
    (∃ conn', chandefDowngrade channels c conn = some (primaryPart channels c .width80, conn')) ∧
      c.punctured = 0 ∧ chandefPrimary channels c .width80 = (c.centerFreq1, 0) := by
  have hpunct : c.punctured = 0 := by
    cases hk : c.chan with
    | none => simp [chandefValid, hk] at hv
    | some k =>
      obtain ⟨-, -, -, -, -, -, -, -, hpunct⟩ := (chandefValid_iff hk).mp hv
      unfold validPuncturingBitmap at hpunct
      simp only [h80, decide_eq_true_eq] at hpunct
      exact UInt16.toNat_inj.mp hpunct
  have hpri : chandefPrimary channels c .width80 = (c.centerFreq1, 0) := by
    have hself := chandefPrimary_self channels (c := c) (by rw [h80]; decide)
    rwa [h80, hpunct] at hself
  have hone : (downgradeOnce channels c conn).1 = primaryPart channels c .width80 := by
    simp [downgradeOnce, downgradeWidth, h80, primaryPart, hpri, hpunct]
  have hzero : (primaryPart channels c .width80).punctured = 0 := by
    show (chandefPrimary channels c .width80).2 = 0
    rw [hpri]
  exact ⟨⟨_, downgradeLoop_stop 4 hone (.inr hzero)⟩, hpunct, hpri⟩

theorem chandefDowngrade_part (hv : chandefValid channels c = true) (hw : c.width.wide = true)
    (h : Placed channels c c.width.halvings s p) (hbit : c.punctured.toNat.testBit p = false)
    (conn : ConnSettings) :
    ∃ i ≤ 3, i ≤ c.width.halvings ∧ (partWidth i).val < c.width.val ∧ (∃ conn',
      chandefDowngrade channels c conn = some (primaryPart channels c (partWidth i), conn')) ∧
      (chandefValid channels (primaryPart channels c (partWidth i)) = true ∨
        (primaryPart channels c (partWidth i)).punctured = 0) ∧
      ∀ i', i < i' → i' ≤ 4 → (partWidth i').val < c.width.val →
        chandefValid channels (primaryPart channels c (partWidth i')) = false := by
  obtain ⟨-, hpos, hle⟩ := ChanWidth.halvings_spec hw
  obtain ⟨k, hk, -⟩ := h.chan
  obtain ⟨-, hwidth, -⟩ := (chandefValid_iff hk).mp hv
  by_cases h80 : c.width = .width80p80
  · obtain ⟨hres, -, hpri⟩ := chandefDowngrade_80p80 hv h80 conn
    have hh : c.width.halvings = 2 := by rw [h80]; rfl
    have hpunct : (primaryPart channels c (partWidth 2)).punctured = 0 := by
      show (chandefPrimary channels c .width80).2 = 0
      rw [hpri]
    refine ⟨2, by omega, by omega, by rw [h80]; decide, hres, .inr hpunct, ?_⟩
    intro i' h₁ h₂ h₃
    rw [partWidth_val_lt hw h₂, hh] at h₃
    omega
  · have hpart := ChanWidth.eq_partWidth hw h80
    have h2 := centerFreq2_of_validWidth hw h80 hwidth
    obtain ⟨j, hj⟩ : ∃ j, c.width.halvings = j + 1 := ⟨c.width.halvings - 1, by omega⟩
    rw [hj] at h hpart hle
    obtain ⟨i, hi, conn', hloop, hend, hpassed⟩ := downgradeLoop_spec j 5 c s p conn (by omega) h
      hpart h2 hbit
    refine ⟨i, by omega, by omega, ?_, ⟨conn', hloop⟩, hend, ?_⟩
    · rw [partWidth_val_lt hw (by omega)]
      omega
    intro i' h₁ h₂ h₃
    obtain h₃ | ⟨h₃, -⟩ := (partWidth_val_lt hw h₂).mp h₃
    · exact (hpassed i' h₁ (by omega)).1
    · exact absurd h₃ h80

/-! ### What the result is -/

def ChanDef.lowEdge (c : ChanDef κ) : ℤ := c.centerFreq1.toNat - c.getWidth / 2

def ChanDef.highEdge (c : ChanDef κ) : ℤ := c.centerFreq1.toNat + c.getWidth / 2

/-- The number of the subchannel of `c` that is the first one of `d`. -/
def subchannelOffset (d c : ChanDef κ) : ℕ := ((d.lowEdge - c.lowEdge) / 20).toNat

/-- `d` is a narrower channel in `c`, around the same control channel and punctured where `c` is. -/
structure Narrowed (d c : ChanDef κ) : Prop where
  narrower : d.width.val < c.width.val
  chan : d.chan = c.chan
  inside : c.lowEdge ≤ d.lowEdge ∧ d.highEdge ≤ c.highEdge
  punctured : ∀ i : ℕ, d.punctured.toNat.testBit i =
    (decide ((i : ℤ) < d.getWidth / 20) && c.punctured.toNat.testBit (subchannelOffset d c + i))

/-- `d` is one of the parts that `cfg80211_chandef_primary` finds in `c`. -/
def IsPrimaryPart (channels : κ → Channel) (d c : ChanDef κ) : Prop :=
  d.chan = c.chan ∧ d.width.val < c.width.val ∧
    (∃ j ≤ 4, d.width = partWidth j) ∧
      (d.centerFreq1, d.punctured) = chandefPrimary channels c d.width

theorem Placed.edges (h : Placed channels c m s p) :
    c.lowEdge = s ∧ c.highEdge = s + 20 * 2 ^ m ∧ c.getWidth / 20 = 2 ^ m := by
  have hw := h.width
  have hc := h.center
  unfold ChanDef.lowEdge ChanDef.highEdge
  rw [hw, hc]
  push_cast
  omega

theorem primaryPart_narrowed (h : Placed channels c m s p) (hj : j ≤ m)
    (hlt : (partWidth j).val < c.width.val) :
    Narrowed (primaryPart channels c (partWidth j)) c := by
  have hm := h.size
  have hin := low_mono hj p
  rw [low_eq_zero h.primary] at hin
  obtain ⟨hlow, hhigh, -⟩ := h.edges
  obtain ⟨hlow', hhigh', hcount⟩ := (primaryPart_placed h hj).edges
  have hz : ((low j p + 2 ^ j : ℕ) : ℤ) ≤ ((0 + 2 ^ m : ℕ) : ℤ) := by exact_mod_cast hin.2
  push_cast at hlow' hhigh' hz
  refine ⟨hlt, rfl, ⟨by omega, by omega⟩, ?_⟩
  intro i
  have hoff : subchannelOffset (primaryPart channels c (partWidth j)) c = low j p := by
    unfold subchannelOffset
    omega
  have hdec : decide ((i : ℤ) < 2 ^ j) = decide (i < 2 ^ j) := by
    congr 1
    exact_mod_cast rfl
  rw [hcount, hoff, hdec, primaryPart_eq h hj]
  rw [toNat_partPunctured (by omega), testBit_slice]

theorem primaryPart_compatible [DecidableEq κ] (h : Placed channels c m s p) (hj : j ≤ m)
    (hj3 : j ≤ 3) (hlt : (partWidth j).val < c.width.val) (hs : c.width.isS1g = false)
    (hnpca : c.npcaChan = none) :
    chandefCompatible channels (primaryPart channels c (partWidth j)) c = some c ∧
      chandefCompatible channels c (primaryPart channels c (partWidth j)) = some c := by
  obtain ⟨-, hs', -⟩ := partWidth_cases hj3
  have hpri : ∀ i, i ≤ j → checkPrimaryCompat channels (primaryPart channels c (partWidth j)) c
      (partWidth i) = if partWidth j = partWidth i then .chandef c else .null := by
    intro i hi
    exact checkPrimaryCompat_of_eq (chandefPrimary_primaryPart h hi hj)
  have hnarrow : narrowerCompatible channels (primaryPart channels c (partWidth j)) c =
      .chandef c := by
    have h40 : ChanWidth.width40 = partWidth 1 := rfl
    have h80 : ChanWidth.width80 = partWidth 2 := rfl
    have h160 : ChanWidth.width160 = partWidth 3 := rfl
    unfold narrowerCompatible
    interval_cases j
    · rfl
    · rw [h40, hpri 1 le_rfl]
      rfl
    · rw [h40, h80, hpri 1 (by omega), hpri 2 le_rfl]
      rfl
    rw [h40, h80, h160, hpri 1 (by omega), hpri 2 (by omega), hpri 3 le_rfl]
    rfl
  have hchan : (primaryPart channels c (partWidth j)).chan = c.chan := rfl
  have hnpca' : (primaryPart channels c (partWidth j)).npcaChan = none := rfl
  have hwidth : (primaryPart channels c (partWidth j)).width = partWidth j := rfl
  generalize primaryPart channels c (partWidth j) = e at *
  rw [← hwidth] at hlt hs'
  have hne : e.width ≠ c.width := fun hw => hlt.ne (congrArg _ hw)
  have hid : chandefIdentical e c = false :=
    Bool.not_eq_true _ ▸ fun hid => hne (by rw [chandefIdentical_iff.mp hid])
  have hid' : chandefIdentical c e = false :=
    Bool.not_eq_true _ ▸ fun hid => hne (by rw [chandefIdentical_iff.mp hid])
  constructor
  · unfold chandefCompatible chandefCompatibleVerdict
    simp [hid, hne, hchan, hnpca, hnpca', hs, hs', hlt.not_gt, hnarrow]
  · unfold chandefCompatible chandefCompatibleVerdict
    simp [hid', hne.symm, hchan, hnpca, hnpca', hs, hs', hlt, hnarrow]

theorem not_compatible_of_npca [DecidableEq κ] {d : ChanDef κ} (hw : d.width ≠ c.width)
    (hnpca : c.npcaChan.isSome = true) : chandefCompatible channels d c = none := by
  have hid : chandefIdentical d c = false := by
    rw [← Bool.not_eq_true]
    intro hid
    exact hw (by rw [chandefIdentical_iff.mp hid])
  unfold chandefCompatible chandefCompatibleVerdict
  by_cases hchan : d.chan = c.chan
  · simp [hid, hchan, hw, hnpca]
  · simp [hid, hchan]

/-! ### Frequencies -/

theorem validCenterFreq_iff {center : UInt32} {w : ChanWidth} {n : ℕ} (hn : n ≤ 4)
    (hw : chanWidthToMhz w = 20 * 2 ^ n) (hlow : 10 * 2 ^ n ≤ center.toNat)
    (hhigh : center.toNat + 10 * 2 ^ n < 2 ^ 32) :
    validCenterFreq center w = true ↔
      center.toNat < 5955 ∨ 7215 < center.toNat ∨
        (5945 ≤ center.toNat - 10 * 2 ^ n ∧ center.toNat + 10 * 2 ^ n ≤ 7225) ∧
          (center.toNat - 10 * 2 ^ n - 5945) % (20 * 2 ^ min n 3) = 0 := by
  have key : ∀ half step : UInt32, half.toNat = 10 * 2 ^ n → step.toNat = 20 * 2 ^ min n 3 →
      ((if center < 5955 ∨ 7215 < center then true
        else if center - half < 5945 ∨ 7225 < center + half then false
        else (center - half - 5945) % step == 0) = true ↔
      center.toNat < 5955 ∨ 7215 < center.toNat ∨
        (5945 ≤ center.toNat - 10 * 2 ^ n ∧ center.toNat + 10 * 2 ^ n ≤ 7225) ∧
          (center.toNat - 10 * 2 ^ n - 5945) % (20 * 2 ^ min n 3) = 0) := by
    intro half step hhalf hstep
    have hsub : (center - half).toNat = center.toNat - 10 * 2 ^ n := by
      rw [UInt32.toNat_sub_of_le _ _ (by rw [UInt32.le_iff_toNat_le]; omega), hhalf]
    have hadd : (center + half).toNat = center.toNat + 10 * 2 ^ n := by
      rw [UInt32.toNat_add, hhalf, Nat.mod_eq_of_lt (by omega)]
    have h5945 : (5945 : UInt32).toNat = 5945 := rfl
    simp only [UInt32.lt_iff_toNat_lt, hsub, hadd, h5945, show (5955 : UInt32).toNat = 5955 from rfl,
      show (7215 : UInt32).toNat = 7215 from rfl, show (7225 : UInt32).toNat = 7225 from rfl]
    split
    next hc =>
      simp only [true_iff]
      omega
    split
    next hb =>
      simp only [Bool.false_eq_true, false_iff]
      omega
    rw [beq_iff_eq, ← UInt32.toNat_inj, UInt32.toNat_mod, hstep,
      UInt32.toNat_sub_of_le _ _ (by rw [UInt32.le_iff_toNat_le, hsub, h5945]; omega), hsub, h5945]
    show _ = 0 ↔ _
    omega
  unfold validCenterFreq
  rw [hw]
  interval_cases n
  · exact key 10 20 rfl rfl
  · exact key 20 40 rfl rfl
  · exact key 40 80 rfl rfl
  · exact key 80 160 rfl rfl
  · exact key 160 160 rfl rfl

/-- The channel is on the grid of the 6 GHz band, or away from that band and from channel 14. -/
def InBand (c : ChanDef κ) : Prop :=
  (5955 ≤ c.centerFreq1.toNat ∧ c.centerFreq1.toNat ≤ 7215) ∨ c.highEdge ≤ 2484 ∨
    (2484 ≤ c.lowEdge ∧ c.highEdge ≤ 5955) ∨ 7215 ≤ c.lowEdge

theorem primaryPart_freqAccepted (hv : chandefValid channels c = true) (h : Placed channels c m s p)
    (hj : j < m ∨ j = m ∧ j ≤ 3) (hband : InBand c)
    (hsame : ∀ k, c.chan = some k → c.freq1Offset = (channels k).freqOffset) :
    FreqAccepted channels (primaryPart channels c (partWidth j)) := by
  have hm := h.size
  have hr := h.range
  have hpart := primaryPart_placed h (j := j) (by omega)
  have hwj := chanWidthToMhz_partWidth (j := j) (by omega)
  have hin := low_mono (show j ≤ m by omega) p
  rw [low_eq_zero h.primary] at hin
  have hpos := Nat.two_pow_pos j
  obtain ⟨k, hk, -⟩ := h.chan
  obtain ⟨-, -, -, -, ⟨hvalid, -⟩, -⟩ := (chandefValid_iff hk).mp hv
  obtain ⟨hlow, hhigh, -⟩ := h.edges
  have hcenter := h.center
  have hcenter' := hpart.center
  have hz : ((s + 20 * 2 ^ m : ℕ) : ℤ) = s + 20 * 2 ^ m := by push_cast; ring
  unfold InBand at hband
  have hrule := (validCenterFreq_iff hm h.width (by omega) (by omega)).mp hvalid
  have hdvd : 20 * 2 ^ j ∣ 20 * 2 ^ min m 3 :=
    Nat.mul_dvd_mul_left _ (Nat.pow_dvd_pow 2 (by omega))
  have hlowdvd : 20 * 2 ^ j ∣ 20 * low j p :=
    Nat.mul_dvd_mul_left _ (Nat.dvd_mul_left _ _)
  refine ⟨?_, ?_, fun _ k' hk' => hsame k' hk'⟩
  · refine (validCenterFreq_iff (n := j) (by omega) hwj (by omega) (by omega)).mpr ?_
    rw [hcenter']
    by_cases h6 : 5955 ≤ c.centerFreq1.toNat ∧ c.centerFreq1.toNat ≤ 7215
    · -- on the grid: the part starts at a multiple of its own width
      obtain h' | h' | ⟨hrange, hgrid⟩ := hrule
      · omega
      · omega
      refine .inr (.inr ⟨by omega, ?_⟩)
      have hstart : s + 20 * low j p + 10 * 2 ^ j - 10 * 2 ^ j - 5945 =
          (c.centerFreq1.toNat - 10 * 2 ^ m - 5945) + 20 * low j p := by omega
      have hmin : 20 * 2 ^ min j 3 = 20 * 2 ^ j := by
        rw [Nat.min_eq_left (by omega)]
      rw [hstart, hmin]
      exact Nat.mod_eq_zero_of_dvd
        (Nat.dvd_add (hdvd.trans (Nat.dvd_of_mod_eq_zero hgrid)) hlowdvd)
    · omega
  · intro e
    have : (2484 : UInt32).toNat = 2484 := rfl
    rw [← UInt32.toNat_inj, hcenter'] at e
    by_cases h6 : 5955 ≤ c.centerFreq1.toNat ∧ c.centerFreq1.toNat ≤ 7215
    · obtain h' | h' | ⟨hrange, -⟩ := hrule
      · omega
      · omega
      · omega
    · omega

/-! ### The result -/

theorem ChanWidth.isS1g_of_wide {w : ChanWidth} (hw : w.wide = true) : w.isS1g = false := by
  cases w <;> simp [ChanWidth.wide, ChanWidth.isS1g] at hw ⊢

theorem IsPrimaryPart.valid (hv : chandefValid channels c = true) (hs : c.width.isS1g = false)
    (h : Placed channels c m s p) (hj : j ≤ m) (hpos : 1 ≤ j) (hj3 : j ≤ 3)
    (hpart : IsPrimaryPart channels e c) (hw : e.width = partWidth j)
    (hve : chandefValid channels e = true) :
    chandefValid channels (primaryPart channels c (partWidth j)) = true := by
  obtain ⟨hchan, -, -, hpri⟩ := hpart
  obtain ⟨k, hk, -⟩ := h.chan
  obtain ⟨-, -, -, -, ⟨hcenter, -⟩, h14, -, -, hpunct⟩ := (chandefValid_iff (hchan.trans hk)).mp hve
  obtain ⟨h20, -, -, hnoHt, -⟩ := partWidth_cases hj3
  rw [hw, Prod.ext_iff] at hpri
  obtain ⟨hc1, hp⟩ := hpri
  have hcenter1 : (primaryPart channels c (partWidth j)).centerFreq1 = e.centerFreq1 := hc1.symm
  have hpunctured : (primaryPart channels c (partWidth j)).punctured = e.punctured := hp.symm
  have hbitmap : validPuncturingBitmap (primaryPart channels c (partWidth j)) (channels k).centerFreq
      (primaryPart channels c (partWidth j)).punctured.toNat =
        validPuncturingBitmap e (channels k).centerFreq e.punctured.toNat := by
    unfold validPuncturingBitmap
    rw [hcenter1, hpunctured, hw]
    rfl
  rw [primaryPart_valid_iff hv hs h hj hj3 hk, hbitmap]
  refine ⟨⟨?_, ?_, fun h0 => absurd (h20.mp h0) (by omega)⟩, hpunct⟩
  · rw [hcenter1]
    rwa [hw] at hcenter
  · rw [hcenter1]
    intro h2484
    exact hnoHt (hw.symm.trans (h14 h2484))

/-- **Downgrading gives the widest part.**  A valid channel from 40 to 320 MHz becomes its widest
valid primary part that is narrower.  The result is compatible with the channel unless that has
NPCA, and valid if and only if its frequency is accepted. -/
theorem chandef_downgrade_widest [DecidableEq κ] (hv : chandefValid channels c = true)
    (hw : c.width.wide = true) (hnw : NoFreqWrap c) (conn : ConnSettings) :
    ∃ d conn', chandefDowngrade channels c conn = some (d, conn') ∧ Narrowed d c ∧
      (chandefValid channels d = true ↔ FreqAccepted channels d) ∧
      (InBand c → (∀ k, c.chan = some k → c.freq1Offset = (channels k).freqOffset) →
        chandefValid channels d = true) ∧
      (chandefCompatible channels d c = some c ↔ c.npcaChan = none) ∧
      ∀ e, IsPrimaryPart channels e c → d.width.val < e.width.val →
        chandefValid channels e = false := by
  obtain ⟨s, p, h, hbit⟩ := exists_placed hv hw hnw
  obtain ⟨i, hi3, hi, hlt, ⟨conn', hres⟩, hend, hpassed⟩ :=
    chandefDowngrade_part hv hw h hbit conn
  obtain ⟨k, hk, -⟩ := h.chan
  have hs := ChanWidth.isS1g_of_wide hw
  have hvalid : chandefValid channels (primaryPart channels c (partWidth i)) = true ↔
      FreqAccepted channels (primaryPart channels c (partWidth i)) := by
    have hiff := primaryPart_valid_iff hv hs h hi hi3 hk
    constructor
    · exact fun hval => (hiff.mp hval).1
    intro hfreq
    obtain hval | hzero := hend
    · exact hval
    refine hiff.mpr ⟨hfreq, ?_⟩
    -- an empty bitmap is valid at every width
    rw [hzero]
    unfold validPuncturingBitmap validPuncturingValue
    split <;> rfl
  refine ⟨_, conn', hres, primaryPart_narrowed h hi hlt, hvalid, ?_, ?_, ?_⟩
  · intro hband hsame
    exact hvalid.mpr (primaryPart_freqAccepted hv h (by omega) hband hsame)
  · constructor
    · intro hcompat
      by_contra hnpca
      have hne : (primaryPart channels c (partWidth i)).width ≠ c.width := by
        intro e
        rw [← e] at hlt
        exact lt_irrefl _ hlt
      rw [not_compatible_of_npca hne (Option.ne_none_iff_isSome.mp hnpca)] at hcompat
      cases hcompat
    · exact fun hnpca => (primaryPart_compatible h hi hi3 hlt hs hnpca).1
  · intro e hpart hwide
    obtain ⟨hchan, hlt', ⟨j, hj4, hj⟩, hpri⟩ := id hpart
    rw [← Bool.not_eq_true]
    intro hve
    have hij : i < j := by
      by_contra hji
      rw [hj] at hwide
      have hmono : ∀ a ≤ 4, ∀ b ≤ 4, (partWidth a).val < (partWidth b).val → a < b := by decide
      exact hji (hmono i (by omega) j hj4 hwide)
    rw [hj] at hlt'
    have hinv := hpassed j hij hj4 hlt'
    have hjm : j ≤ c.width.halvings ∧ j ≤ 3 := by
      have hh := (ChanWidth.halvings_spec hw).2.2
      obtain h₁ | ⟨h₁, h₂⟩ := (partWidth_val_lt hw hj4).mp hlt'
      · omega
      · rw [h₁, h₂]
        decide
    rw [hpart.valid hv hs h hjm.1 (by omega) hjm.2 hj hve] at hinv
    cases hinv

def chan5955 : Unit → Channel := fun _ => ⟨.band6GHz, 5955, 0⟩

def punctured320 : ChanDef Unit :=
  ⟨some (), none, .width320, 6105, 0, ⟨0, 0⟩, 0, 0xf0, 0, false⟩

/-- The primary 160 MHz, of which one half is punctured, are not a valid channel. -/
theorem chandef_downgrade_widest_punctured :
    ∃ d conn', chandefDowngrade chan5955 punctured320 ⟨.eht, .limit320⟩ = some (d, conn') ∧
      Narrowed d punctured320 ∧
      (chandefValid chan5955 d = true ↔ FreqAccepted chan5955 d) ∧
      (InBand punctured320 → (∀ k, punctured320.chan = some k →
        punctured320.freq1Offset = (chan5955 k).freqOffset) → chandefValid chan5955 d = true) ∧
      (chandefCompatible chan5955 d punctured320 = some punctured320 ↔
        punctured320.npcaChan = none) ∧
      ∀ e, IsPrimaryPart chan5955 e punctured320 → d.width.val < e.width.val →
        chandefValid chan5955 e = false :=
  chandef_downgrade_widest (by decide) (by decide) (by decide) _

/-- The downgrade is not compatible, for NPCA, or not valid: on channel 14, with another offset than
the control channel, at the lower end of the 6 GHz grid, and with frequencies that wrap around. -/
theorem downgrade_not_valid_or_compatible :
    (∃ c d : ChanDef Unit, ∃ conn, chandefValid chan5955 c = true ∧ c.width = .width80 ∧
      chandefDowngrade chan5955 c conn = some (d, ⟨.eht, .limit40⟩) ∧
        chandefCompatible chan5955 d c = none) ∧
    (∃ (channels : Unit → Channel) (c d : ChanDef Unit), ∃ conn,
      chandefValid channels c = true ∧ c.centerFreq1 = 2474 ∧
        chandefDowngrade channels c conn = some (d, conn) ∧ chandefValid channels d = false) ∧
    (∃ (channels : Unit → Channel) (c d : ChanDef Unit), ∃ conn,
      chandefValid channels c = true ∧ c.freq1Offset = 500 ∧
        chandefDowngrade channels c conn = some (d, conn) ∧ chandefValid channels d = false) ∧
    (∃ (channels : Unit → Channel) (c d : ChanDef Unit), ∃ conn,
      chandefValid channels c = true ∧ c.centerFreq1 = 5925 ∧
        chandefDowngrade channels c conn = some (d, conn) ∧ chandefValid channels d = false) ∧
    ∃ (channels : Unit → Channel) (c d : ChanDef Unit), ∃ conn,
      chandefValid channels c = true ∧ c.centerFreq1 = 5 - 30 ∧
        chandefDowngrade channels c conn = some (d, conn) ∧ chandefValid channels d = false := by
  refine ⟨⟨⟨some (), some (), .width80, 5985, 0, ⟨0, 0⟩, 0, 0, 0, false⟩, _, ⟨.eht, .limit320⟩,
      by decide, rfl, rfl, by decide⟩,
    ⟨fun _ => ⟨.band2GHz, 2484, 0⟩, ⟨some (), none, .width40, 2474, 0, ⟨0, 0⟩, 0, 0, 0, false⟩, _,
      ⟨.ht, .limit20⟩, by decide, rfl, rfl, by decide⟩,
    ⟨fun _ => ⟨.band5GHz, 5180, 0⟩, ⟨some (), none, .width40, 5190, 0, ⟨0, 0⟩, 500, 0, 0, false⟩, _,
      ⟨.ht, .limit20⟩, by decide, rfl, rfl, by decide⟩,
    ⟨fun _ => ⟨.band6GHz, 5955, 0⟩, ⟨some (), none, .width160, 5925, 0, ⟨0, 0⟩, 0, 0, 0, false⟩, _,
      ⟨.eht, .limit80⟩, by decide, rfl, rfl, by decide⟩,
    ⟨fun _ => ⟨.band5GHz, 5, 0⟩, ⟨some (), none, .width80, 5 - 30, 0, ⟨0, 0⟩, 0, 0, 0, false⟩, _,
      ⟨.ht, .limit40⟩, by decide, rfl, rfl, by decide⟩⟩

end Iwlwifi.Cfg80211
