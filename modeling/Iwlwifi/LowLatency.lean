import Iwlwifi.SeqNum
import Iwlwifi.Transition

/-! # Low-latency mode

A model of the low-latency detection in `mld/low_latency.c`.  VO and VI packets are counted per MAC
and queue; a work compares the counts with a threshold and sets the result of each MAC.

* **Machine** (`step`).  Packets, executions of the work, stop and restart.
* `low_latency_not_stuck`: while a result is true the work is pending, and without further packets
  the second execution after a whole period clears the result, if no restart finds a result that is
  true; `low_latency_stuck`: such a restart leaves the result true for ever. -/

namespace Iwlwifi.Iwl.Mld.Ll

open Function

/-- A MAC; there are `NUM_MAC_INDEX_DRIVER`. -/
abbrev Mac := Fin 4

/-- `struct iwl_mld_low_latency`; `pending` says whether the work is queued. -/
structure LowLatency where
  timestamp : ℕ := 0
  windowStart : Mac → ℕ := fun _ => 0
  result : Mac → Bool := fun _ => false
  voVi : ℕ → Mac → ℕ := fun _ _ => 0
  stopped : Bool := false
  pending : Bool := false

variable (hz numRxQ : ℕ) (ll : LowLatency)

/-- `ll_period_expired`, of a MAC with a window. -/
def periodExpired (timestamp : ℕ) (mac : Mac) : Bool :=
  decide (ll.windowStart mac ≠ 0) && timeAfter timestamp (ulong (ll.windowStart mac + hz * 10))

/-- `total_vo_vi_pkts`. -/
def totalVoViPkts (mac : Mac) : ℕ := ((List.range numRxQ).map (ll.voVi · mac)).sum % 2 ^ 32

/-- `iwl_mld_calc_low_latency`, for every MAC by itself. -/
def calcLowLatency (timestamp : ℕ) : LowLatency :=
  { ll with
    windowStart := fun mac => if periodExpired hz ll timestamp mac then timestamp else ll.windowStart mac
    voVi := fun q mac =>
      if q < numRxQ ∧ periodExpired hz ll timestamp mac then 0 else ll.voVi q mac
    result := fun mac =>
      if ll.windowStart mac = 0 then ll.result mac
      else if 100 < totalVoViPkts numRxQ ll mac then true
      else if periodExpired hz ll timestamp mac then false
      else ll.result mac }

/-- `iwl_mld_low_latency_wk`, without a hardware restart. -/
def lowLatencyWk (jiffies : ℕ) : LowLatency :=
  let ll' := calcLowLatency hz numRxQ ll jiffies
  { ll' with
    timestamp := jiffies
    pending := decide (∃ mac, ll.windowStart mac ≠ 0 ∧ ll'.result mac = true) }

/-- `iwl_mld_low_latency_update_counters`, for a VO or VI packet. -/
def lowLatencyUpdateCounters (mac : Mac) (queue jiffies : ℕ) : LowLatency :=
  if numRxQ ≤ queue ∨ ll.stopped = true then ll
  else
    { ll with
      voVi := update ll.voVi queue (update (ll.voVi queue) mac ((ll.voVi queue mac + 1) % 2 ^ 32))
      windowStart := update ll.windowStart mac
        (if ll.windowStart mac = 0 then if jiffies = 0 then 1 else jiffies else ll.windowStart mac)
      pending := ll.pending || timeAfter jiffies (ulong (ll.timestamp + hz * 500 / 1000)) }

/-- `iwl_mld_low_latency_stop`. -/
def lowLatencyStop : LowLatency := { ll with stopped := true, pending := false }

/-- `iwl_mld_low_latency_restart`. -/
def lowLatencyRestart (jiffies : ℕ) : LowLatency :=
  { ll with
    timestamp := jiffies
    stopped := false
    windowStart := fun _ => 0
    voVi := fun q mac => if q < numRxQ then 0 else ll.voVi q mac
    pending := ll.pending || decide (∃ mac, ll.result mac = true) }

inductive Action
  | packet (mac : Mac) (queue jiffies : ℕ)
  | work (jiffies : ℕ)
  | stop
  | restart (jiffies : ℕ)

/-- The work is executed only when it is pending. -/
def step (ll : LowLatency) : Action → Option (Unit × LowLatency)
  | .packet mac queue jiffies => some ((), lowLatencyUpdateCounters hz numRxQ ll mac queue jiffies)
  | .work jiffies => if ll.pending then some ((), lowLatencyWk hz numRxQ ll jiffies) else none
  | .stop => some ((), lowLatencyStop ll)
  | .restart jiffies => some ((), lowLatencyRestart numRxQ ll jiffies)

abbrev LlLabel := Label LowLatency Action Unit

/-- No restart finds a result that is true, and the work does not run when `jiffies` is 0, the value
of a window that has not started. -/
def Regular (l : LlLabel) : Prop :=
  match l.act with
  | .restart _ => ∀ mac, l.pre.result mac = false
  | .work jiffies => jiffies ≠ 0
  | _ => True

instance : DecidablePred Regular := fun l => by
  unfold Regular
  split <;> infer_instance

def counts (mac : Mac) (l : LlLabel) : Bool :=
  match l.act with
  | .packet m _ _ => m == mac
  | _ => false

/-- The step is an execution of the work more than an active period after the start of the window. -/
def expired (mac : Mac) (l : LlLabel) : Bool :=
  match l.act with
  | .work jiffies => periodExpired hz l.pre jiffies mac
  | _ => false

variable {hz numRxQ}

/-- A result that is true has a window, and the work is pending. -/
def Live (ll : LowLatency) : Prop :=
  ∀ mac, ll.result mac = true → ll.windowStart mac ≠ 0 ∧ (ll.stopped = false → ll.pending = true)

theorem live_step {ll ll' : LowLatency} {a : Action} (hs : step hz numRxQ ll a = some ((), ll'))
    (hreg : Regular ⟨ll, a, (), ll'⟩) (h : Live ll) : Live ll' := by
  cases a with
  | packet m queue jiffies =>
    cases hs
    intro mac hres
    unfold lowLatencyUpdateCounters at hres ⊢
    split at hres
    · rw [if_pos (by assumption)]
      exact h mac hres
    · rw [if_neg (by assumption)]
      obtain ⟨hwin, hpend⟩ := h mac hres
      refine ⟨?_, fun hst => by simp [hpend hst]⟩
      by_cases hm : mac = m
      · subst hm
        simp [hwin]
      · simpa [hm] using hwin
  | work jiffies =>
    rw [step] at hs
    split at hs
    · cases hs
      intro mac hres
      have hwin : ll.windowStart mac ≠ 0 := by
        intro hzero
        have hkept : ll.result mac = true := by
          simpa [lowLatencyWk, calcLowLatency, hzero] using hres
        exact (h mac hkept).1 hzero
      refine ⟨?_, fun _ => decide_eq_true ⟨mac, hwin, hres⟩⟩
      simp only [lowLatencyWk, calcLowLatency]
      split
      · exact hreg
      · exact hwin
    · cases hs
  | stop =>
    cases hs
    exact fun mac hres => ⟨(h mac hres).1, nofun⟩
  | restart jiffies =>
    cases hs
    intro mac hres
    exact absurd hres (by simpa [lowLatencyRestart] using hreg mac)

/-- After `n` executions for a whole period without packets of a MAC. -/
structure Faded (numRxQ : ℕ) (mac : Mac) (n : ℕ) (ll : LowLatency) : Prop where
  zero : 1 ≤ n → ∀ q < numRxQ, ll.voVi q mac = 0
  clear : 2 ≤ n → ll.result mac = false

theorem faded_step {ll ll' : LowLatency} {a : Action} {mac : Mac} {n : ℕ}
    (hs : step hz numRxQ ll a = some ((), ll')) (hquiet : counts mac ⟨ll, a, (), ll'⟩ = false)
    (h : Faded numRxQ mac n ll) :
    Faded numRxQ mac (n + if expired hz mac ⟨ll, a, (), ll'⟩ then 1 else 0) ll' := by
  cases a with
  | packet m queue jiffies =>
    cases hs
    have hm : mac ≠ m := fun hm => by simp [counts, hm] at hquiet
    unfold lowLatencyUpdateCounters
    split
    · exact h
    · refine ⟨fun hn q hq => ?_, h.clear⟩
      by_cases hqueue : q = queue
      · subst hqueue
        simpa [hm] using h.zero hn q hq
      · simpa [hqueue] using h.zero hn q hq
  | work jiffies =>
    rw [step] at hs
    split at hs
    · cases hs
      have htotal : 1 ≤ n → totalVoViPkts numRxQ ll mac = 0 := by
        intro hn
        rw [totalVoViPkts, List.sum_eq_zero (by simpa using h.zero hn), Nat.zero_mod]
      by_cases hexp : periodExpired hz ll jiffies mac = true
      · have hwin : ll.windowStart mac ≠ 0 := by simp_all [periodExpired]
        rw [if_pos (show expired hz mac ⟨ll, .work jiffies, _, _⟩ = true from hexp)]
        refine ⟨fun _ q hq => by simp [lowLatencyWk, calcLowLatency, hexp, hq], fun hn => ?_⟩
        simp [lowLatencyWk, calcLowLatency, hexp, hwin, htotal (by omega)]
      · rw [if_neg (show ¬ expired hz mac ⟨ll, .work jiffies, _, _⟩ = true from hexp), Nat.add_zero]
        refine ⟨fun hn q hq => ?_, fun hn => ?_⟩
        · simpa [lowLatencyWk, calcLowLatency, hexp] using h.zero hn q hq
        · simp [lowLatencyWk, calcLowLatency, hexp, htotal (Nat.le_of_succ_le hn), h.clear hn]
    · cases hs
  | stop =>
    cases hs
    exact ⟨h.zero, h.clear⟩
  | restart jiffies =>
    cases hs
    exact ⟨fun _ q hq => if_pos hq, h.clear⟩

/-- **Low-latency mode does not get stuck**, if every restart finds all results false. -/
theorem low_latency_not_stuck {ls : List LlLabel} {ll : LowLatency}
    (hrun : Run (step hz numRxQ) {} ls ll) (hreg : ∀ l ∈ ls, Regular l) :
    (∀ mac, ll.stopped = false → ll.result mac = true →
      ll.pending = true ∧ ll.windowStart mac ≠ 0) ∧
    ∀ mac ls' ll', Run (step hz numRxQ) ll ls' ll' → (∀ l ∈ ls', counts mac l = false) →
      2 ≤ ls'.countP (expired hz mac) → ll'.result mac = false := by
  constructor
  · intro mac hst hres
    obtain ⟨hwin, hpend⟩ := (hrun.induct (fun _ _ _ _ => live_step) hreg nofun).1 mac hres
    exact ⟨hpend hst, hwin⟩
  · intro mac ls' ll' hrun' hquiet hcount
    have hfaded {n : ℕ} (h : Faded numRxQ mac n ll) :
        Faded numRxQ mac (n + ls'.countP (expired hz mac)) ll' := by
      clear hrun hcount
      induction hrun' generalizing n with
      | nil => exact h
      | cons hs _ ih =>
        have := ih (fun l hl => hquiet l (.tail _ hl)) (faded_step hs (hquiet _ (.head _)) h)
        rwa [List.countP_cons, Nat.add_comm (List.countP _ _), ← Nat.add_assoc]
    exact (hfaded (n := 0) ⟨by simp, by simp⟩).clear (by omega)

/-- Many packets of a MAC, and two executions of the work that find none in the last period. -/
theorem low_latency_not_stuck_packets :
    ∃ ls ll, Run (step 1000 1) {} ls ll ∧ ll.result 0 = true ∧ ll.pending = true ∧
      ∃ ls' ll', Run (step 1000 1) ll ls' ll' ∧ ll'.result 0 = false := by
  obtain ⟨⟨ls, ll⟩, hls, hreg, hst, hres, ⟨ls', ll'⟩, hls', hquiet, hcount⟩ :
      ∃ r, execute (step 1000 1) {} (.replicate 101 (.packet 0 0 2000) ++ [.work 2000]) = some r ∧
        (∀ l ∈ r.1, Regular l) ∧ r.2.stopped = false ∧ r.2.result 0 = true ∧
        ∃ r', execute (step 1000 1) r.2 [.work 12001, .work 22002] = some r' ∧
          (∀ l ∈ r'.1, counts 0 l = false) ∧ 2 ≤ r'.1.countP (expired 1000 0) := by
    decide +kernel
  have hrun := (execute_run hls).1
  have hrun' := (execute_run hls').1
  obtain ⟨hpend, hfade⟩ := low_latency_not_stuck hrun hreg
  exact ⟨ls, ll, hrun, hres, (hpend 0 hst hres).1, ls', ll', hrun',
    hfade 0 ls' ll' hrun' hquiet hcount⟩

/-- **Counterexample.**  A stop cancels the work while the result of MAC 0 is true.  The restart
resets the window and queues the work, which skips the MAC and is not queued again. -/
theorem low_latency_stuck :
    (execute (step 1000 1) {} (List.replicate 101 (.packet 0 0 2000) ++
      [.work 2000, .stop, .restart 3000, .work 3500])).map
        (fun r => (r.2.stopped, r.2.result 0, r.2.pending)) = some (false, true, false) := by
  decide +kernel

end Iwlwifi.Iwl.Mld.Ll
