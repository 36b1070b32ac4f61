import Mathlib.Tactic

/-! # The channels of a NAN peer

A model of `ieee80211_nan_update_peer_channels` (`net/mac80211/nan.c`).  The channels of a peer that
use a removed channel context are taken out of the array of its schedule; the others move down in
place, and the slots of the maps, which point into the array, follow one move at a time.

* **Loops** (`nullStep`, `compactStep`).  One iteration each; pointers are indices.
* **Where a channel goes** (`follow`).  Number `k` becomes number `Nat.count kept k`, as soon as the
  loop has passed it.
* `peer_channels_compacted`: the array holds the channels with another context in their old order,
  and every slot has followed its channel, or is `NULL`. -/

namespace Iwlwifi.Ieee80211.NanPeer

open Function List

variable {κ γ : Type}

/-- `struct ieee80211_nan_channel`, with the fields no loop looks at in `rest`. -/
structure NanChannel (κ γ : Type) where
  chanctxConf : Option κ
  rest : γ

/-- `CFG80211_NAN_INVALID_MAP_ID`. -/
def invalidMapId : ℕ := 0xff

/-- `struct ieee80211_nan_peer_map`: a slot is `NULL` or the number of a channel. -/
structure PeerMap where
  mapId : ℕ
  slots : List (Option ℕ)

/-- `struct ieee80211_nan_peer_sched`, as far as it is written. -/
structure PeerSched (κ γ : Type) where
  maps : List PeerMap
  nChannels : ℕ
  channels : ℕ → NanChannel κ γ

/-- `struct sta_info`. -/
structure Sta (κ γ : Type) where
  sdata : ℕ
  nanSched : Option (PeerSched κ γ)

def onSlots (f : Option ℕ → Option ℕ) (maps : List PeerMap) : List PeerMap :=
  maps.map fun map =>
    if map.mapId = invalidMapId then map else { map with slots := map.slots.map f }

/-- A slot that points to channel `i` is set to `x`. -/
def repoint (i : ℕ) (x s : Option ℕ) : Option ℕ := if s = some i then x else s

variable [DecidableEq κ] (removedConf : κ)

def nullStep (sched : PeerSched κ γ) (i : ℕ) : PeerSched κ γ :=
  if (sched.channels i).chanctxConf ≠ some removedConf then sched
  else { sched with maps := onSlots (repoint i none) sched.maps }

structure Compaction (κ γ : Type) where
  sched : PeerSched κ γ
  writeIdx : ℕ
  updated : Bool

def compactStep (c : Compaction κ γ) (i : ℕ) : Compaction κ γ :=
  if (c.sched.channels i).chanctxConf = some removedConf then { c with updated := true }
  else
    let sched :=
      if c.writeIdx ≠ i then
        { c.sched with
          maps := onSlots (repoint i (some c.writeIdx)) c.sched.maps
          channels := update c.sched.channels c.writeIdx (c.sched.channels i) }
      else c.sched
    { c with sched, writeIdx := c.writeIdx + 1 }

/-- The body of the loop over the stations, for one schedule; the flag says that the driver is told.
An entry that is cleared has the contents `zero`. -/
def updatePeerSched (zero : γ) (sched : PeerSched κ γ) : PeerSched κ γ × Bool :=
  let n := sched.nChannels
  let nulled := (List.range n).foldl (nullStep removedConf) sched
  let c := (List.range n).foldl (compactStep removedConf) ⟨nulled, 0, false⟩
  ({ c.sched with
      nChannels := c.writeIdx
      channels := fun i =>
        if c.writeIdx ≤ i ∧ i < n then ⟨none, zero⟩ else c.sched.channels i },
    c.updated)

/-- `ieee80211_nan_update_peer_channels`: the stations afterwards. -/
def nanUpdatePeerChannels (zero : γ) (sdata : ℕ) (staList : List (Sta κ γ)) : List (Sta κ γ) :=
  staList.map fun sta =>
    if sta.sdata ≠ sdata then sta
    else { sta with nanSched := sta.nanSched.map fun s => (updatePeerSched removedConf zero s).1 }

/-! ### The loops -/

def Kept (sched : PeerSched κ γ) (i : ℕ) : Prop :=
  (sched.channels i).chanctxConf ≠ some removedConf

instance (sched : PeerSched κ γ) : DecidablePred (Kept removedConf sched) :=
  fun _ => inferInstanceAs (Decidable (_ ≠ _))

/-- Where a slot that pointed to channel `k` points after `n` and `m` iterations of the loops. -/
def follow (kept : ℕ → Prop) [DecidablePred kept] (n m k : ℕ) : Option ℕ :=
  if n ≤ k ∨ kept k then some (if k < m then Nat.count kept k else k) else none

section follow
variable (kept : ℕ → Prop) [DecidablePred kept] {n m : ℕ}

theorem follow_null (m k : ℕ) : follow kept (m + 1) 0 k =
    if kept m then follow kept m 0 k else repoint m none (follow kept m 0 k) := by
  unfold follow repoint
  grind

theorem follow_move (hm : m < n) (k : ℕ) : follow kept n (m + 1) k =
    if kept m then repoint m (some (Nat.count kept m)) (follow kept n m k)
    else follow kept n m k := by
  have hle := Nat.count_le (p := kept) (n := k)
  unfold follow repoint
  grind

end follow

theorem onSlots_repoint (i : ℕ) (x : Option ℕ) (g : ℕ → Option ℕ) (maps : List PeerMap) :
    onSlots (repoint i x) (onSlots (Option.bind · g) maps) =
      onSlots (Option.bind · fun k => repoint i x (g k)) maps := by
  unfold onSlots
  rw [map_map]
  apply map_congr_left
  intro map _
  have hs : repoint i x ∘ (Option.bind · g) = (Option.bind · fun k => repoint i x (g k)) := by
    funext s
    cases s <;> rfl
  by_cases h : map.mapId = invalidMapId <;> simp [h, hs]

variable {removedConf} {sched : PeerSched κ γ}

theorem nullLoop_eq (m : ℕ) :
    (List.range m).foldl (nullStep removedConf) sched =
      { sched with maps := onSlots (Option.bind · (follow (Kept removedConf sched) m 0)) sched.maps } := by
  induction m with
  | zero =>
    have hid : (Option.bind · (follow (Kept removedConf sched) 0 0)) = (id : Option ℕ → Option ℕ) := by
      funext s
      cases s <;> simp [follow]
    simp [hid, onSlots]
  | succ m ih =>
    have hstep := funext (follow_null (Kept removedConf sched) m)
    rw [range_succ, foldl_append, ih, foldl_cons, foldl_nil, nullStep, hstep]
    split
    next hm =>
      have hkept : Kept removedConf sched m := hm
      simp only [if_pos hkept]
    next hm =>
      have hkept : ¬ Kept removedConf sched m := hm
      simp only [if_neg hkept, onSlots_repoint]

/-- With `writeIdx = i` the move changes nothing. -/
theorem compactStep_kept {c : Compaction κ γ} {i : ℕ}
    (hi : (c.sched.channels i).chanctxConf ≠ some removedConf) :
    compactStep removedConf c i =
      { c with
        sched :=
          { c.sched with
            maps := onSlots (repoint i (some c.writeIdx)) c.sched.maps
            channels := update c.sched.channels c.writeIdx (c.sched.channels i) }
        writeIdx := c.writeIdx + 1 } := by
  rw [compactStep, if_neg hi]
  dsimp only
  split
  · rfl
  next hw =>
    have hrepoint : repoint i (some i) = id := by
      funext s
      unfold repoint
      split
      next hs => exact hs.symm
      · rfl
    rw [not_not.mp hw, hrepoint, update_eq_self]
    simp [onSlots]

/-- What holds after `m` iterations of the second loop. -/
structure Compacted (removedConf : κ) (sched : PeerSched κ γ) (m : ℕ) (c : Compaction κ γ) :
    Prop where
  writeIdx : c.writeIdx = Nat.count (Kept removedConf sched) m
  maps : c.sched.maps =
    onSlots (Option.bind · (follow (Kept removedConf sched) sched.nChannels m)) sched.maps
  ahead : ∀ k, m ≤ k → c.sched.channels k = sched.channels k
  moved : ∀ k < m, Kept removedConf sched k →
    c.sched.channels (Nat.count (Kept removedConf sched) k) = sched.channels k

theorem Compacted.step {m : ℕ} {c : Compaction κ γ} (h : Compacted removedConf sched m c)
    (hlt : m < sched.nChannels) :
    Compacted removedConf sched (m + 1) (compactStep removedConf c m) := by
  have hcount := Nat.count_succ (Kept removedConf sched) m
  have hle := Nat.count_le (p := Kept removedConf sched) (n := m)
  have hfollow := funext (follow_move (Kept removedConf sched) hlt)
  by_cases hm : Kept removedConf sched m
  · simp only [if_pos hm] at hcount hfollow
    rw [compactStep_kept (by rw [h.ahead m le_rfl]; exact hm), h.writeIdx, h.ahead m le_rfl]
    refine ⟨hcount.symm, ?_, ?_, ?_⟩
    · dsimp only
      rw [h.maps, onSlots_repoint, hfollow]
    · intro k hk
      exact (update_of_ne (by omega) ..).trans (h.ahead k (by omega))
    intro k hk hkept
    obtain rfl | hlt := Nat.eq_or_lt_of_le (Nat.le_of_lt_succ hk)
    · exact update_self ..
    · have hne := (Nat.count_strict_mono hkept hlt).ne
      exact (update_of_ne hne ..).trans (h.moved k hlt hkept)
  · simp only [if_neg hm] at hcount hfollow
    rw [compactStep, if_pos (by rw [h.ahead m le_rfl]; exact not_not.mp hm)]
    refine ⟨h.writeIdx.trans hcount.symm, hfollow ▸ h.maps, fun k hk => h.ahead k (by omega), ?_⟩
    intro k hk hkept
    refine h.moved k (lt_of_le_of_ne (by omega) ?_) hkept
    rintro rfl
    exact hm hkept

theorem compactLoop_compacted (removedConf : κ) (sched : PeerSched κ γ) {m : ℕ}
    (hm : m ≤ sched.nChannels) :
    Compacted removedConf sched m ((List.range m).foldl (compactStep removedConf)
      ⟨(List.range sched.nChannels).foldl (nullStep removedConf) sched, 0, false⟩) := by
  induction m with
  | zero =>
    rw [nullLoop_eq]
    exact ⟨rfl, rfl, fun _ _ => rfl, nofun⟩
  | succ m ih =>
    rw [range_succ, foldl_append]
    exact (ih (by omega)).step hm

theorem map_range_count {α : Type} {kept : ℕ → Prop} [DecidablePred kept] {f g : ℕ → α} {n : ℕ}
    (h : ∀ k < n, kept k → f (Nat.count kept k) = g k) :
    (List.range (Nat.count kept n)).map f = ((List.range n).filter kept).map g := by
  induction n with
  | zero => simp
  | succ n ih =>
    rw [Nat.count_succ, range_succ, filter_append, map_append, ← ih fun k hk => h k (by omega)]
    by_cases hn : kept n
    · simp [hn, range_succ, h n (by omega) hn]
    · simp [hn]

/-- **The channels are compacted and the slots follow them.**  The channels with another context are
at the front of the array in their old order.  Every slot points to the new place of its channel,
below `n_channels`, or is `NULL` if the channel is removed. -/
theorem peer_channels_compacted (zero : γ) {sdata j : ℕ} {staList : List (Sta κ γ)} {sta : Sta κ γ}
    (hsta : staList[j]? = some sta) (hsdata : sta.sdata = sdata) (hsched : sta.nanSched = some sched)
    (hslots : ∀ map ∈ sched.maps, map.mapId ≠ invalidMapId →
      ∀ s ∈ map.slots, ∀ k ∈ s, k < sched.nChannels) :
    ∃ sched', (nanUpdatePeerChannels removedConf zero sdata staList)[j]? =
        some { sta with nanSched := some sched' } ∧
      (List.range sched'.nChannels).map sched'.channels =
        ((List.range sched.nChannels).filter (Kept removedConf sched)).map sched.channels ∧
      (∀ k < sched.nChannels, Kept removedConf sched k →
        Nat.count (Kept removedConf sched) k < sched'.nChannels ∧
          sched'.channels (Nat.count (Kept removedConf sched) k) = sched.channels k) ∧
      sched'.maps = onSlots (Option.bind · fun k => if Kept removedConf sched k
        then some (Nat.count (Kept removedConf sched) k) else none) sched.maps := by
  have hc := compactLoop_compacted removedConf sched le_rfl
  have hbelow : ∀ k < sched.nChannels, Kept removedConf sched k →
      Nat.count (Kept removedConf sched) k < (updatePeerSched removedConf zero sched).1.nChannels ∧
        (updatePeerSched removedConf zero sched).1.channels (Nat.count (Kept removedConf sched) k) =
          sched.channels k := by
    intro k hk hkept
    have hlt := Nat.count_strict_mono hkept hk
    rw [← hc.writeIdx] at hlt
    exact ⟨hlt, (if_neg fun h => hlt.not_ge h.1).trans (hc.moved k hk hkept)⟩
  refine ⟨(updatePeerSched removedConf zero sched).1, ?_, ?_, hbelow, ?_⟩
  · simp [nanUpdatePeerChannels, hsta, hsdata, hsched]
  · rw [← map_range_count fun k hk hkept => (hbelow k hk hkept).2, ← hc.writeIdx]
    rfl
  · refine hc.maps.trans (map_congr_left fun map hmap => ?_)
    split
    · rfl
    next hid =>
      congr 1
      refine map_congr_left fun s hs => ?_
      cases s with
      | none => rfl
      | some k =>
        have hk := hslots map hmap hid _ hs k rfl
        simp [follow, hk, hk.not_ge]

def threeChannels : PeerSched Bool ℕ :=
  ⟨[⟨1, [some 1, some 0, none, some 2]⟩], 3, fun i => ⟨some (i == 0), i⟩⟩

theorem peer_channels_compacted_first :
    ∃ sched', (nanUpdatePeerChannels true 0 7 [⟨7, some threeChannels⟩])[0]? =
        some ⟨7, some sched'⟩ ∧
      (List.range sched'.nChannels).map sched'.channels = [⟨some false, 1⟩, ⟨some false, 2⟩] ∧
      sched'.maps = [⟨1, [some 0, none, none, some 1]⟩] := by
  have hslots : ∀ map ∈ threeChannels.maps, map.mapId ≠ invalidMapId →
      ∀ s ∈ map.slots, ∀ k ∈ s, k < threeChannels.nChannels := by decide
  obtain ⟨sched', h, hchannels, -, hmaps⟩ := @peer_channels_compacted Bool ℕ _ true threeChannels 0
    7 0 [⟨7, some threeChannels⟩] _ rfl rfl rfl hslots
  exact ⟨sched', h, hchannels, hmaps⟩

end Iwlwifi.Ieee80211.NanPeer
