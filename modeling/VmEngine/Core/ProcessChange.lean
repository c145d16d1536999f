/-
  `ChangeSandbox` when it returns an error.

  The call replaces the context of the process (`resetContext`) before it kills the sandbox
  (`killProcess`), and nothing puts the old context back.  So after an error the process may
  report a name under which its manager does not know it: the manager keeps a process whose
  change failed under the old name.
-/
import VmEngine.Core.ProcessStep
import VmEngine.Core.ProcessManager

namespace VmEngine

namespace Process
variable {p p' : Process} {key : RequestGroupKey} {name : String} {found sigOk : Bool}

/-- The fields that `ChangeSandbox` rewrites, and the state. -/
structure SameContext (p p' : Process) : Prop where
  key : p'.key = p.key
  processName : p'.processName = p.processName
  requestGroup : p'.requestGroup = p.requestGroup
  txCh : p'.txCh = p.txCh
  processState : p'.processState = p.processState

/-- An idle process whose sandbox cannot be killed: there is no command, or the signal
    fails. -/
def KillFails (p : Process) (sigOk : Bool) : Prop :=
  p.cmdReadyCh = true ∧
    (p.cmd = none ∨ ∃ c sid, p.cmd = some c ∧ c.sandbox = some sid ∧ sigOk = false)

/-- The arguments of the call are the context that the process already has. -/
def HasContext (p : Process) (key : RequestGroupKey) (name : String) : Prop :=
  p.key = key ∧ p.processName = name ∧ p.requestGroup = some key.groupKey ∧ p.txCh = key.groupKey

theorem killProcess_fails_iff :
    (∃ p', killProcess p sigOk = .ok (p', false)) ↔ p.KillFails sigOk := by
  unfold killProcess KillFails
  cases htok : p.cmdReadyCh with
  | false => simp
  | true =>
    cases hc : p.cmd with
    | none => simp
    | some c =>
      cases hs : c.sandbox with
      | none => simp [hs]
      | some sid => simp [hs]

/-- The context after the call has rewritten it. -/
theorem sameContext_reset_iff :
    SameContext p (resetContext p key name true).1.killed ↔ p.HasContext key name := by
  constructor
  · rintro ⟨hkey, hname, hgroup, htx, -⟩
    exact ⟨hkey.symm, hname.symm, hgroup.symm, htx.symm⟩
  · rintro ⟨hkey, hname, hgroup, htx⟩
    exact ⟨hkey.symm, hname.symm, hgroup.symm, htx.symm, rfl⟩

theorem changeSandbox_not_found (hst : p.processState = .idle) (hlock : p.lockedBy = none) :
    changeSandbox p key name false sigOk = .ok ({ p with requestGroup := none }, false) := by
  unfold changeSandbox
  rw [if_neg (not_not.2 hst), if_neg (by rw [hlock]; exact Bool.false_ne_true)]
  rfl

/-- With a request group the call fails exactly when `killProcess` fails, after the context
    was rewritten. -/
theorem changeSandbox_found_iff (hst : p.processState = .idle) (hlock : p.lockedBy = none) :
    changeSandbox p key name true sigOk = .ok (p', false) ↔
      killProcess (resetContext p key name true).1 sigOk = .ok (p', false) := by
  unfold changeSandbox
  rw [if_neg (not_not.2 hst), if_neg (by rw [hlock]; exact Bool.false_ne_true)]
  constructor
  · intro h
    obtain ⟨⟨p₁, killed⟩, h₁, h₂⟩ := Go.bind_eq_ok.1 h
    cases killed with
    | true => cases h₂
    | false => cases h₂; exact h₁
  · intro h
    exact Go.bind_eq_ok.2 ⟨_, h, rfl⟩

/-- **When `ChangeSandbox` is atomic on error.**  An error leaves the context as it was
    exactly when the call stops at the state check, does not return an error, finds no
    request group for a process that has none, or fails to kill a sandbox whose process
    already has the context of the arguments. -/
theorem changeSandbox_atomic_iff (p : Process) (key : RequestGroupKey) (name : String)
    (found sigOk : Bool) :
    (∀ p', changeSandbox p key name found sigOk = .ok (p', false) → SameContext p p') ↔
      (p.processState = .idle → p.lockedBy = none →
        (found = false → p.requestGroup = none) ∧
        (found = true → p.KillFails sigOk → p.HasContext key name)) := by
  -- `resetContext` changes nothing that `killProcess` reads
  have hreset : (resetContext p key name true).1.KillFails sigOk ↔ p.KillFails sigOk := Iff.rfl
  constructor
  · intro hall hst hlock
    refine ⟨?_, ?_⟩
    · rintro rfl
      exact (hall _ (changeSandbox_not_found hst hlock)).requestGroup.symm
    · rintro rfl hkill
      obtain ⟨p', h⟩ := killProcess_fails_iff.2 (hreset.2 hkill)
      have hsame := hall p' ((changeSandbox_found_iff hst hlock).2 h)
      rw [(killProcess_eq h).2.1] at hsame
      exact sameContext_reset_iff.1 hsame
  · intro hcond p' h
    rcases changeSandbox_cases h with ⟨-, rfl, -⟩ | ⟨hst, hlock, rfl, rfl, -⟩ | ⟨hst, hlock, rfl, -⟩
    · exact ⟨rfl, rfl, rfl, rfl, rfl⟩
    · exact ⟨rfl, rfl, ((hcond hst hlock).1 rfl).symm, rfl, rfl⟩
    · have hkill := (changeSandbox_found_iff hst hlock).1 h
      have hfails := hreset.1 (killProcess_fails_iff.1 ⟨p', hkill⟩)
      rw [(killProcess_eq hkill).2.1]
      exact sameContext_reset_iff.2 ((hcond hst hlock).2 rfl hfails)

/-- The sandbox of an idle process cannot be signalled.  The process reports the new name,
    its manager has it under the old one, and releasing it dereferences nil. -/
theorem changeSandbox_error_renames :
    let p : Process :=
      { Process.new 1 .sample "old" true with
        processState := .idle, cmd := some ⟨some 0, false⟩, cmdReadyCh := true, launch := .running 0 }
    let pm : ProcessManager :=
      { ProcessManager.new 1 0 true with idleProcesses := LinkedMap.empty.put "old" 0 }
    ∃ p', changeSandbox p ⟨"chain1", "asset", "v1"⟩ "new" true false = .ok (p', false) ∧
      p'.processName = "new" ∧ p'.key ≠ p.key ∧ p'.requestGroup ≠ p.requestGroup ∧
      p'.txCh ≠ p.txCh ∧ pm.getProcessByName p.processName = some 0 ∧
      pm.closeSandbox (fun _ => true) p'.key p'.processName = .error .panics := by
  refine ⟨_, rfl, rfl, by decide, by decide, by decide, by decide, rfl⟩

end Process

end VmEngine
