import Mathlib.Tactic

/-! # PTP time from the GP2 counter

A model of the clock in `mld/ptp.c`.  The driver sees an unbounded counter of microseconds modulo
`2 ^ 32`, counts its wraparounds, and scales the distance from the reading of the last `adjfine`.

* **Reference** (`Clock`).  The same clock over the unbounded counter.
* `ptp_follows_counter`: every reading gives the time of the reference, and `adjfine` does not make
  the clock jump, if no late reading is from before a wraparound; `ptp_late_reading_jumps`: such a
  reading is more than an hour in the future. -/

namespace Iwlwifi.Iwl.Mld.Ptp

/-- `PTP_SCALE_FACTOR`. -/
def scaleFactor : ℕ := 65536000000

/-- `struct ptp_data`. -/
structure PtpData where
  delta : ℤ := 0
  scaleUpdateGp2 : ℕ := 0
  scaleUpdateAdjTimeNs : ℤ := 0
  scaledFreq : ℕ := scaleFactor
  lastGp2 : ℕ := 0
  wrapCounter : ℕ := 0

/-- `iwl_mld_ptp_update_new_read`. -/
def ptpUpdateNewRead (data : PtpData) (gp2 : ℕ) : PtpData :=
  if gp2 < data.lastGp2 then
    if data.lastGp2 - gp2 < 5000 then data
    else { data with wrapCounter := data.wrapCounter + 1, lastGp2 := gp2 }
  else { data with lastGp2 := gp2 }

/-- `iwl_mld_ptp_get_adj_time`. -/
def ptpGetAdjTime (data : PtpData) (baseTimeNs : ℕ) : PtpData × ℤ :=
  let scaleTimeGp2Ns := data.scaleUpdateGp2 * 1000
  let data := ptpUpdateNewRead data (baseTimeNs / 1000)
  let baseTimeNs := baseTimeNs + data.wrapCounter * 2 ^ 32 * 1000
  let scaledDiff : ℤ :=
    if baseTimeNs < scaleTimeGp2Ns then
      -((scaleTimeGp2Ns - baseTimeNs) * data.scaledFreq / scaleFactor : ℕ)
    else ((baseTimeNs - scaleTimeGp2Ns) * data.scaledFreq / scaleFactor : ℕ)
  (data, data.scaleUpdateAdjTimeNs + data.delta + scaledDiff)

/-- `iwl_mld_ptp_adjfine`. -/
def ptpAdjfine (data : PtpData) (gp2 : ℕ) (scaledPpm : ℤ) : PtpData :=
  let (data, res) := ptpGetAdjTime data (gp2 * 1000)
  { data with scaleUpdateAdjTimeNs := res, scaleUpdateGp2 := gp2, delta := 0, wrapCounter := 0
              scaledFreq := (scaleFactor + scaledPpm).toNat }

/-- What happens to the clock; a reading is a value of the unbounded counter. -/
inductive Event
  | read (c : ℕ)
  | adjtime (delta : ℤ)
  | adjfine (c : ℕ) (scaledPpm : ℤ)

def step (data : PtpData) : Event → PtpData
  | .read c => (ptpGetAdjTime data (c % 2 ^ 32 * 1000)).1
  | .adjtime delta => { data with delta := data.delta + delta }
  | .adjfine c scaledPpm => ptpAdjfine data (c % 2 ^ 32) scaledPpm

/-! ### Reference -/

/-- The newest reading, the adjusted time and the reading at the last `adjfine`, the frequency since
then, and the sum of the later deltas. -/
structure Clock where
  newest : ℕ := 0
  adjTime : ℤ := 0
  base : ℕ := 0
  freq : ℤ := scaleFactor
  delta : ℤ := 0

def Clock.time (clock : Clock) (c : ℕ) : ℤ :=
  clock.adjTime + clock.delta + (((c : ℤ) - clock.base) * 1000 * clock.freq).tdiv scaleFactor

def Clock.step (clock : Clock) : Event → Clock
  | .read c => { clock with newest := max clock.newest c }
  | .adjtime delta => { clock with delta := clock.delta + delta }
  | .adjfine c scaledPpm => ⟨max clock.newest c, clock.time c, c, scaleFactor + scaledPpm, 0⟩

/-- A reading is a little late or not too far ahead; a late one is not from before a wraparound. -/
structure Clock.InTime (clock : Clock) (c : ℕ) : Prop where
  late : clock.newest < c + 5000
  ahead : c + 5000 ≤ clock.newest + 2 ^ 32
  sameWrap : c < clock.newest → c / 2 ^ 32 = clock.newest / 2 ^ 32

def Clock.Admits (clock : Clock) : Event → Prop
  | .read c => clock.InTime c
  | .adjtime _ => True
  | .adjfine c scaledPpm => clock.InTime c ∧ 0 ≤ scaleFactor + scaledPpm

def Clock.AdmitsAll : Clock → List Event → Prop
  | _, [] => True
  | clock, e :: events => clock.Admits e ∧ (clock.step e).AdmitsAll events

/-! ### Simulation -/

structure Tracks (data : PtpData) (clock : Clock) : Prop where
  last : data.lastGp2 = clock.newest % 2 ^ 32
  wraps : data.wrapCounter + clock.base / 2 ^ 32 = clock.newest / 2 ^ 32
  base : data.scaleUpdateGp2 = clock.base % 2 ^ 32
  adjTime : data.scaleUpdateAdjTimeNs = clock.adjTime
  freq : (data.scaledFreq : ℤ) = clock.freq
  delta : data.delta = clock.delta

variable {data : PtpData} {clock : Clock} {c : ℕ}

/-- **A reading** counts a wraparound if there is one, and is in the same period as the newest one. -/
theorem Tracks.update (h : Tracks data clock) (hc : clock.InTime c) :
    Tracks (ptpUpdateNewRead data (c % 2 ^ 32)) (clock.step (.read c)) ∧
      c / 2 ^ 32 = max clock.newest c / 2 ^ 32 := by
  obtain ⟨hlast, hwraps, hbase, hadj, hfreq, hdelta⟩ := h
  obtain ⟨hlate, hahead, hsame⟩ := hc
  obtain hlt | hge := lt_or_ge c clock.newest
  · have hold : ptpUpdateNewRead data (c % 2 ^ 32) = data := by
      rw [ptpUpdateNewRead, if_pos (by omega), if_pos (by omega)]
    rw [hold, Clock.step, max_eq_left hlt.le]
    exact ⟨⟨hlast, hwraps, hbase, hadj, hfreq, hdelta⟩, hsame hlt⟩
  · rw [Clock.step, max_eq_right hge, ptpUpdateNewRead]
    refine ⟨?_, rfl⟩
    split
    · rw [if_neg (by omega)]
      exact ⟨rfl, by dsimp only; omega, hbase, hadj, hfreq, hdelta⟩
    · exact ⟨rfl, by dsimp only; omega, hbase, hadj, hfreq, hdelta⟩

theorem tdiv_natSub (x y f n : ℕ) : (((x : ℤ) - y) * f).tdiv n =
    if x < y then -(((y - x) * f / n : ℕ) : ℤ) else ((x - y) * f / n : ℕ) := by
  split
  next h =>
    rw [← neg_sub, neg_mul, Int.neg_tdiv, ← Nat.cast_sub h.le]
    norm_cast
  next h =>
    rw [← Nat.cast_sub (not_lt.mp h)]
    norm_cast

theorem Tracks.read (h : Tracks data clock) (hc : clock.InTime c) :
    Tracks (step data (.read c)) (clock.step (.read c)) ∧
      (ptpGetAdjTime data (c % 2 ^ 32 * 1000)).2 = clock.time c := by
  obtain ⟨hread, hperiod⟩ := h.update hc
  simp only [step, ptpGetAdjTime, Nat.mul_div_cancel _ (show 0 < 1000 by decide)]
  refine ⟨hread, ?_⟩
  generalize ptpUpdateNewRead data (c % 2 ^ 32) = data' at *
  obtain ⟨-, hwraps, -, hadj, hfreq, hdelta⟩ := hread
  dsimp only [Clock.step] at hwraps hadj hfreq hdelta
  have hdist : ((c : ℤ) - clock.base) * 1000 =
      (c % 2 ^ 32 * 1000 + data'.wrapCounter * 2 ^ 32 * 1000 : ℕ) -
        (clock.base % 2 ^ 32 * 1000 : ℕ) := by omega
  rw [Clock.time, hadj, hdelta, h.base, ← hfreq, hdist, tdiv_natSub]

theorem Tracks.step {e : Event} (h : Tracks data clock) (he : clock.Admits e) :
    Tracks (step data e) (clock.step e) := by
  cases e with
  | read c => exact (h.read he).1
  | adjtime delta => exact { h with delta := congrArg (· + delta) h.delta }
  | adjfine c scaledPpm =>
    obtain ⟨hread, htime⟩ := h.read he.1
    have hperiod := (h.update he.1).2
    exact ⟨hread.last, (Nat.zero_add _).trans hperiod, rfl, htime, Int.toNat_of_nonneg he.2, rfl⟩

theorem Tracks.run {events : List Event} (h : Tracks data clock) (hadm : clock.AdmitsAll events) :
    Tracks (events.foldl Ptp.step data) (events.foldl Clock.step clock) := by
  induction events generalizing data clock with
  | nil => exact h
  | cons e events ih => exact ih (h.step hadm.1) hadm.2

/-- **PTP time follows the counter.**  After any events, a reading gives the time of the reference,
also directly after an `adjfine` at the same reading. -/
theorem ptp_follows_counter {events : List Event} (h : Clock.AdmitsAll {} events) :
    let data := events.foldl step {}
    let clock := events.foldl Clock.step {}
    ∀ c, clock.InTime c → (ptpGetAdjTime data (c % 2 ^ 32 * 1000)).2 = clock.time c ∧
      ∀ scaledPpm : ℤ, 0 ≤ scaleFactor + scaledPpm →
        (ptpGetAdjTime (ptpAdjfine data (c % 2 ^ 32) scaledPpm) (c % 2 ^ 32 * 1000)).2 =
          clock.time c := by
  intro data clock c hc
  have htracks : Tracks data clock := Tracks.run ⟨rfl, rfl, rfl, rfl, rfl, rfl⟩ h
  refine ⟨(htracks.read hc).2, fun scaledPpm hppm => ?_⟩
  have hagain : (clock.step (.adjfine c scaledPpm)).InTime c :=
    ⟨max_lt hc.late (by omega), hc.ahead.trans (by simp [Clock.step]), fun _ => (htracks.update hc).2⟩
  have hfine := htracks.step (e := .adjfine c scaledPpm) ⟨hc, hppm⟩
  refine (hfine.read hagain).2.trans ?_
  simp [Clock.time, Clock.step]

def wrapEvents : List Event := [.read (2 ^ 31), .read (2 ^ 32 - 10), .read (2 ^ 32 + 5)]

theorem ptp_follows_counter_wraps :
    (ptpGetAdjTime (wrapEvents.foldl step {}) ((2 ^ 32 + 2) % 2 ^ 32 * 1000)).2 =
      (wrapEvents.foldl Clock.step {}).time (2 ^ 32 + 2) := by
  have hadm : Clock.AdmitsAll {} wrapEvents := ⟨⟨by decide, by decide, by decide⟩,
    ⟨by decide, by decide, by decide⟩, ⟨by decide, by decide, by decide⟩, trivial⟩
  exact (ptp_follows_counter hadm _ ⟨by decide, by decide, by decide⟩).1

/-- A reading 3 microseconds before the wraparound, and 8 behind the newest one. -/
theorem ptp_late_reading_jumps :
    (ptpGetAdjTime (wrapEvents.foldl step {}) ((2 ^ 32 - 3) % 2 ^ 32 * 1000)).2 = (2 ^ 33 - 3) * 1000 ∧
      (wrapEvents.foldl Clock.step {}).time (2 ^ 32 - 3) = (2 ^ 32 - 3) * 1000 := by
  decide

end Iwlwifi.Iwl.Mld.Ptp
