/-
  Go timers.

  A `*time.Timer` is stopped or waiting, and owns a channel of one element that
  its expiry fills.  A timer created with a duration that no run reaches
  (`forever`) counts as active for `Stop` but does not expire.
-/
import Mathlib.Tactic.Common

namespace VmEngine

/-- What a timer waits for. -/
inductive Arm where
  | stopped
  | never
  | running
deriving DecidableEq, Repr

/-- A timer: its state and whether its channel `C` holds an unread tick. -/
structure Timer where
  arm : Arm
  tick : Bool
deriving DecidableEq, Repr

namespace Timer

/-- `time.NewTimer` with a duration that no run reaches. -/
def forever : Timer := ⟨.never, false⟩

/-- The result of `Stop()`: whether the call stopped an active timer. -/
def active (t : Timer) : Bool := t.arm != .stopped

/-- `Stop()`; a tick that was already sent stays in the channel. -/
def stop (t : Timer) : Timer := { t with arm := .stopped }

/-- `Reset(d)`; the channel is not drained. -/
def reset (t : Timer) : Timer := { t with arm := .running }

/-- The runtime fires the timer. -/
def expire (t : Timer) : Option Timer :=
  if t.arm = .running then some ⟨.stopped, true⟩ else none

/-- `<-t.C`, which blocks when there is no tick. -/
def recv (t : Timer) : Option Timer := if t.tick then some { t with tick := false } else none

/-- `if !t.Stop() && len(t.C) > 0 { <-t.C }`. -/
def stopAndDrain (t : Timer) : Timer :=
  if !t.active && t.tick then { t.stop with tick := false } else t.stop

/-- The timer is running or its tick is waiting to be read. -/
def Pending (t : Timer) : Prop := t.arm = .running ∨ t.tick = true

instance (t : Timer) : Decidable t.Pending := inferInstanceAs (Decidable (_ ∨ _))

theorem not_pending_forever : ¬ forever.Pending := by decide

theorem pending_reset (t : Timer) : t.reset.Pending := Or.inl rfl

/-- A drained timer is idle unless it was active with a stale tick. -/
theorem not_pending_stopAndDrain {t : Timer} (h : t.arm = .running → t.tick = false)
    (h' : t.arm = .never → t.tick = false) : ¬ t.stopAndDrain.Pending := by
  obtain ⟨arm, tick⟩ := t
  cases arm <;> cases tick <;> simp_all [stopAndDrain, active, stop, Pending]

/-- Draining leaves no tick behind, unless the timer was active with a stale one. -/
theorem tick_stopAndDrain {t : Timer} (h : t.arm ≠ .stopped → t.tick = false) :
    t.stopAndDrain.tick = false := by
  obtain ⟨arm, tick⟩ := t
  cases arm <;> cases tick <;> simp_all [stopAndDrain, active, stop]

theorem expire_eq_some {t t' : Timer} :
    t.expire = some t' ↔ t.arm = .running ∧ t' = ⟨.stopped, true⟩ := by
  unfold expire
  split_ifs with h <;> simp [h, eq_comm]

theorem recv_eq_some {t t' : Timer} :
    t.recv = some t' ↔ t.tick = true ∧ t' = { t with tick := false } := by
  unfold recv
  split_ifs with h <;> simp [h, eq_comm]

end Timer

end VmEngine
