import Iwlwifi.Ring
import Mathlib.Data.Nat.Bitwise

/-! # Pointers of a transmit queue

The index arithmetic of the PCIe transmit queues (`pcie/internal.h`, `pcie/tx.c`,
`pcie/tx-gen2.c`).

* The hardware ring has `max_tfd_queue_size` descriptors; the pointers `read_ptr` and `write_ptr`
  are positions on it.  The driver keeps only `n_window` entries for a queue and folds positions
  onto them (`getCmdIndex`).  Both sizes are powers of two.
* `outstanding` is the number of positions from `read_ptr` to `write_ptr`; `txqSpace` is computed
  from it on the hardware ring.
* `txqUsed` compares the folded pointers.  In terms of offsets on the folded ring it is a
  comparison of two of them (`txqUsed_iff`); as long as fewer than `n_window` positions are
  outstanding this is membership (`txqUsed_iff_outstanding`), but a full window looks empty
  (`txqUsed_full`). -/

namespace Iwlwifi.Iwl

open Iwlwifi.Ring

inductive Errno
  | eperm | eio | enomem | enodev | einval | enospc
deriving DecidableEq

/-- The configuration of the transport (`trans->mac_cfg->base` and `trans->conf`). -/
structure Trans where
  maxTfdQueueSize : ℕ
  cmdQueue : ℕ := 0
  wideCmdHeader : Bool := true
  apmgWakeUpWa : Bool := false
  gen2 : Bool := false
  maxPow : ∃ k ≤ 16, maxTfdQueueSize = 2 ^ k

/-- `struct iwl_txq`: sizes and pointers. -/
structure Txq where
  nWindow : ℕ
  readPtr : ℕ := 0
  writePtr : ℕ := 0
  lowMark : ℕ := 0
  highMark : ℕ := 0
  windowPow : ∃ k, nWindow = 2 ^ k

/-- `iwl_queue_init`, for a power of two. -/
def queueInit (slotsNum : ℕ) (h : ∃ k, slotsNum = 2 ^ k) : Txq where
  nWindow := slotsNum
  lowMark := max (slotsNum / 4) 4
  highMark := max (slotsNum / 8) 2
  windowPow := h

/-- `iwl_txq_get_cmd_index`. -/
def getCmdIndex (q : Txq) (index : ℕ) : ℕ := index &&& (q.nWindow - 1)

/-- `iwl_txq_inc_wrap`. -/
def txqIncWrap (trans : Trans) (index : ℕ) : ℕ := (index + 1) &&& (trans.maxTfdQueueSize - 1)

/-- `iwl_txq_dec_wrap`; the subtraction is one of `int`. -/
def txqDecWrap (trans : Trans) (index : ℕ) : ℕ :=
  (index + (2 ^ 32 - 1)) &&& (trans.maxTfdQueueSize - 1)

/-- The positions between the pointers, `(write_ptr - read_ptr) & (max_tfd_queue_size - 1)`. -/
def outstanding (trans : Trans) (q : Txq) : ℕ :=
  (q.writePtr + (2 ^ 32 - q.readPtr)) &&& (trans.maxTfdQueueSize - 1)

/-- `iwl_txq_space`. -/
def txqSpace (trans : Trans) (q : Txq) : ℕ :=
  let max := if q.nWindow < trans.maxTfdQueueSize then q.nWindow else trans.maxTfdQueueSize - 1
  if max < outstanding trans q then 0 else max - outstanding trans q

/-- `iwl_txq_used`. -/
def txqUsed (q : Txq) (i readPtr writePtr : ℕ) : Bool :=
  let index := getCmdIndex q i
  let r := getCmdIndex q readPtr
  let w := getCmdIndex q writePtr
  if r ≤ w then decide (r ≤ index ∧ index < w) else !decide (index < r ∧ w ≤ index)

/-! ### Masks are remainders -/

variable {trans : Trans} {q : Txq}

theorem Trans.max_pos (trans : Trans) : 0 < trans.maxTfdQueueSize := by
  obtain ⟨k, _, hk⟩ := trans.maxPow
  rw [hk]
  exact Nat.two_pow_pos k

theorem Trans.max_le (trans : Trans) : trans.maxTfdQueueSize ≤ 65536 := by
  obtain ⟨k, hk, e⟩ := trans.maxPow
  rw [e]
  exact Nat.pow_le_pow_right (by omega) hk

theorem Trans.max_dvd (trans : Trans) : trans.maxTfdQueueSize ∣ 2 ^ 32 := by
  obtain ⟨k, hk, e⟩ := trans.maxPow
  rw [e]
  exact Nat.pow_dvd_pow 2 (by omega)

theorem Trans.and_mask (trans : Trans) (x : ℕ) :
    x &&& (trans.maxTfdQueueSize - 1) = x % trans.maxTfdQueueSize := by
  obtain ⟨k, _, hk⟩ := trans.maxPow
  rw [hk, Nat.and_two_pow_sub_one_eq_mod]

theorem Txq.window_pos (q : Txq) : 0 < q.nWindow := by
  obtain ⟨k, hk⟩ := q.windowPow
  rw [hk]
  exact Nat.two_pow_pos k

theorem getCmdIndex_eq (q : Txq) (x : ℕ) : getCmdIndex q x = x % q.nWindow := by
  obtain ⟨k, hk⟩ := q.windowPow
  rw [getCmdIndex, hk, Nat.and_two_pow_sub_one_eq_mod]

theorem txqIncWrap_eq (trans : Trans) (x : ℕ) :
    txqIncWrap trans x = (x + 1) % trans.maxTfdQueueSize := trans.and_mask _

theorem txqIncWrap_lt (trans : Trans) (x : ℕ) : txqIncWrap trans x < trans.maxTfdQueueSize := by
  rw [txqIncWrap_eq]
  exact Nat.mod_lt _ trans.max_pos

theorem window_dvd (h : q.nWindow ≤ trans.maxTfdQueueSize) :
    q.nWindow ∣ trans.maxTfdQueueSize := by
  obtain ⟨k, hk⟩ := q.windowPow
  obtain ⟨m, _, hm⟩ := trans.maxPow
  rw [hk, hm] at h ⊢
  exact Nat.pow_dvd_pow 2 ((Nat.pow_le_pow_iff_right (by omega)).mp h)

/-- The number of outstanding positions is the offset of `write_ptr` from `read_ptr`. -/
theorem outstanding_eq (hr : q.readPtr < trans.maxTfdQueueSize) :
    outstanding trans q = off trans.maxTfdQueueSize q.readPtr q.writePtr := by
  have hmax := trans.max_le
  obtain ⟨c, hc⟩ := trans.max_dvd
  unfold outstanding
  rw [trans.and_mask]
  symm
  apply off_unique (Nat.mod_lt _ trans.max_pos)
  have e : q.readPtr + (q.writePtr + (2 ^ 32 - q.readPtr)) = q.writePtr + 2 ^ 32 := by omega
  calc q.readPtr + (q.writePtr + (2 ^ 32 - q.readPtr)) % trans.maxTfdQueueSize
      ≡ q.readPtr + (q.writePtr + (2 ^ 32 - q.readPtr)) [MOD trans.maxTfdQueueSize] :=
        Nat.ModEq.add_left _ (Nat.mod_modEq _ _)
    _ ≡ q.writePtr [MOD trans.maxTfdQueueSize] := by
        rw [e, hc]
        simp [Nat.ModEq]

/-! ### The used test -/

theorem txqUsed_iff (q : Txq) (i r w : ℕ) :
    txqUsed q i r w = true ↔ off q.nWindow r i < off q.nWindow r w := by
  have hn := q.window_pos
  have hi := Nat.mod_lt i hn
  have hr := Nat.mod_lt r hn
  have hw := Nat.mod_lt w hn
  simp only [txqUsed, getCmdIndex_eq, off_eq_ite hn]
  split <;> split <;> simp <;> omega

section
variable (hn : q.nWindow ≤ trans.maxTfdQueueSize) (hr : q.readPtr < trans.maxTfdQueueSize)
include hn hr

/-- The folded offset of the pointers, while fewer than `n_window` positions are outstanding. -/
theorem off_window (h : outstanding trans q < q.nWindow) :
    off q.nWindow q.readPtr q.writePtr = outstanding trans q := by
  apply off_unique h
  rw [outstanding_eq hr]
  exact (off_spec trans.max_pos _ _).of_dvd (window_dvd hn)

theorem txqUsed_iff_outstanding (h : outstanding trans q < q.nWindow) (i : ℕ) :
    txqUsed q i q.readPtr q.writePtr = true ↔
      ∃ k < outstanding trans q, i % q.nWindow = (q.readPtr + k) % q.nWindow := by
  rw [txqUsed_iff, off_window hn hr h]
  exact off_lt_iff h.le q.window_pos _ _

theorem txqUsed_full (h : outstanding trans q = q.nWindow) (i : ℕ) :
    txqUsed q i q.readPtr q.writePtr = false := by
  have h0 : off q.nWindow q.readPtr q.writePtr = 0 := by
    apply off_unique q.window_pos
    have hspec := (off_spec trans.max_pos q.readPtr q.writePtr).of_dvd (window_dvd hn)
    rw [← outstanding_eq hr, h] at hspec
    exact (by simp [Nat.ModEq] : q.readPtr + 0 ≡ q.readPtr + q.nWindow [MOD q.nWindow]).trans hspec
  rw [Bool.eq_false_iff, ne_eq, txqUsed_iff, h0]
  omega

end

/-! ### Moving the pointers -/

theorem outstanding_push (trans : Trans) (q : Txq) (hr : q.readPtr < trans.maxTfdQueueSize)
    (h : outstanding trans q + 1 < trans.maxTfdQueueSize) :
    outstanding trans { q with writePtr := txqIncWrap trans q.writePtr } =
      outstanding trans q + 1 := by
  rw [outstanding_eq hr] at h ⊢
  rw [outstanding_eq (q := { q with writePtr := txqIncWrap trans q.writePtr }) hr]
  simp only [txqIncWrap_eq]
  rw [off_mod_right trans.max_pos]
  apply off_unique h
  rw [← Nat.add_assoc]
  exact Nat.ModEq.add_right 1 (off_spec trans.max_pos _ _)

theorem outstanding_pop (trans : Trans) (q : Txq) (hr : q.readPtr < trans.maxTfdQueueSize)
    (h : 0 < outstanding trans q) :
    outstanding trans { q with readPtr := txqIncWrap trans q.readPtr } =
      outstanding trans q - 1 := by
  rw [outstanding_eq hr] at h ⊢
  rw [outstanding_eq (q := { q with readPtr := txqIncWrap trans q.readPtr }) (txqIncWrap_lt _ _)]
  simp only [txqIncWrap_eq]
  rw [off_mod_left trans.max_pos, off_advance trans.max_pos h]

theorem txqSpace_eq (hn : q.nWindow < trans.maxTfdQueueSize)
    (h : outstanding trans q ≤ q.nWindow) : txqSpace trans q = q.nWindow - outstanding trans q := by
  unfold txqSpace
  rw [if_pos hn, if_neg (by omega)]

end Iwlwifi.Iwl
