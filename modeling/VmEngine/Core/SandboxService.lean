/-
  The RPC service of the sandboxes (`rpc/contract_engine_sandbox_service.go`).

  A stream belongs to the process that its first message names.  The stream is given by
  the turns of the loop: what `RecvMsg` returns, with the process managers as the turn
  finds them.
-/
import VmEngine.Core.ProcessManager

namespace VmEngine.SandboxRPCService

structure Turn where
  recv : Except String DockerVMMessage
  origProcessMgr : ProcessManager
  crossProcessMgr : ProcessManager

/-- What a turn does to the process of the stream. -/
inductive Effect where
  | setStream (process : ℕ)
  | putMsg (process : ℕ) (msg : DockerVMMessage)

/-- The process of the stream, looked up by name while it is nil. -/
def findProcess (t : Turn) (process : Option ℕ) (msg : DockerVMMessage) : Go (Except String ℕ) :=
  match process with
  | some pid => .ok (.ok pid)
  | none =>
    match msg.crossContext with
    | none => .error .panics
    | some c =>
      match (t.origProcessMgr.getProcessByName c.processName).or
          (t.crossProcessMgr.getProcessByName c.processName) with
      | some pid => .ok (.ok pid)
      | none => .ok (.error "failed to get process, <nil>")

/-- `DockerVMCommunicate` over the given turns: what it did, and the error it returned.
    Without an error it waits for the next message. -/
def dockerVMCommunicate : Option ℕ → List Turn → Go (List Effect × Option String)
  | _, [] => .ok ([], none)
  | process, t :: ts =>
    match t.recv with
    | .error err => .ok ([], some err)
    | .ok msg => do
      match ← findProcess t process msg with
      | .error err => .ok ([], some err)
      | .ok pid =>
        let rest ← dockerVMCommunicate (some pid) ts
        .ok ((if msg.type = .register then .setStream pid else .putMsg pid msg) :: rest.1, rest.2)

/-- A stream that has its process serves every further message. -/
theorem dockerVMCommunicate_some (pid : ℕ) (ts : List Turn) :
    (dockerVMCommunicate (some pid) ts).Returns := by
  induction ts with
  | nil => exact Go.returns_ok _
  | cons t ts ih =>
    obtain ⟨r, hr⟩ := ih
    rcases hrecv : t.recv with err | msg
    · simp only [dockerVMCommunicate, hrecv]
      exact Go.returns_ok _
    · simp only [dockerVMCommunicate, hrecv, findProcess]
      exact Go.returns_bind.2 ⟨_, rfl, Go.returns_bind.2 ⟨r, hr, Go.returns_ok _⟩⟩

/-- The first message of a stream, if there is one, names a process. -/
def NamesProcess : List Turn → Prop
  | ⟨.ok msg, _, _⟩ :: _ => msg.crossContext.isSome
  | _ => True

/-- **A stream is served to its end exactly if its first message names a process.** -/
theorem dockerVMCommunicate_returns (ts : List Turn) :
    (dockerVMCommunicate none ts).Returns ↔ NamesProcess ts := by
  rcases ts with _ | ⟨⟨err | msg, orig, cross⟩, ts⟩
  · exact iff_of_true (Go.returns_ok _) trivial
  · exact iff_of_true (Go.returns_ok _) trivial
  simp only [NamesProcess, dockerVMCommunicate, findProcess]
  rcases msg.crossContext with _ | c
  · exact iff_of_false (Go.not_returns_error _) (by simp)
  · refine iff_of_true ?_ rfl
    dsimp only
    rcases (orig.getProcessByName c.processName).or
        (cross.getProcessByName c.processName) with _ | pid
    · exact Go.returns_ok _
    · obtain ⟨r, hr⟩ := dockerVMCommunicate_some pid ts
      exact Go.returns_bind.2 ⟨_, rfl, Go.returns_bind.2 ⟨r, hr, Go.returns_ok _⟩⟩

end VmEngine.SandboxRPCService
