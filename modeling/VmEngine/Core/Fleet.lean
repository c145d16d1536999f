/-
  The request groups and their processes, joined by the request scheduler
  (`vm_mgr/module/core/request_scheduler.go`).

  The scheduler hands every transaction to the group of its contract and creates the
  group on the first one.  Processes receive from the queues of the groups, give
  transactions back to the scheduler and report bad contracts to their group.  The
  groups and processes are the ones of `RequestGroup` and `Process`; what reaches them
  from the process managers, the contract manager, the sandboxes and the clock stays
  free.

  `seen`, `sent` and `answered` record what the chain and the sandboxes know of the
  transactions: those requested, those sent to a sandbox, and those answered by an error
  or by their sandbox.
-/
import VmEngine.Core.ProcessStep
import VmEngine.Core.GroupQueues
import VmEngine.Lib.Indexed

namespace VmEngine

structure Fleet where
  requestGroups : String → Option RequestGroup
  procs : List Process
  /-- of the request scheduler -/
  txCh : List DockerVMMessage
  seen : List String
  sent : List String
  answered : List String

/-- What a group or a process put to the other components. -/
inductive FleetOut where
  | group (k : String) (out : GroupOut)
  | proc (pid : ℕ) (out : ProcessOut)
deriving DecidableEq, Repr

namespace Fleet

def init : Fleet := ⟨fun _ => none, [], [], [], [], []⟩

/-- The steps of the groups and processes, and those of their environment. -/
inductive Action where
  /-- the chain requests a transaction; its keys are unique (`GetUniqueTxKey`) -/
  | request (tx : DockerVMMessage)
  /-- the scheduler handles the next transaction -/
  | schedule
  | group (k : String) (a : RequestGroup.Action)
  /-- a process manager creates a process for a group -/
  | create (user : ℕ) (key : RequestGroupKey) (processName : String) (isOrig : Bool)
  | proc (pid : ℕ) (a : Process.Action)
  /-- a sandbox answers a transaction to the chain -/
  | answer (txId : String)

/-! ## Queues and versions -/

/-- The transaction at the head of the queue from which a process receives. -/
def queueHead (f : Fleet) (k : String) (isOrig : Bool) : Option DockerVMMessage :=
  (f.requestGroups k).bind fun r => (r.queue isOrig).head?

def contractFileVersion (f : Fleet) (k : String) : Option ℤ :=
  (f.requestGroups k).map (·.contractFileVersion)

/-- A process takes the head of a queue. -/
def dropHead (r : RequestGroup) (isOrig : Bool) : RequestGroup :=
  r.setController isOrig { r.controller isOrig with txCh := (r.queue isOrig).tail }

def setGroup (f : Fleet) (k : String) (r : RequestGroup) : Fleet :=
  { f with requestGroups := Function.update f.requestGroups k (some r) }

/-! ## Steps -/

/-- `handleTxReq` of the scheduler. -/
def handleTxReq (f : Fleet) (tx : DockerVMMessage) : Fleet :=
  match tx.request with
  | none => f
  | some q =>
    let r := (f.requestGroups q.key.groupKey).getD (.new q.key)
    f.setGroup q.key.groupKey { r with txCh := r.txCh ++ [tx] }

/-- The steps of a group that are not made by the scheduler or by a process. -/
def OfGroup : RequestGroup.Action → Prop
  | .putTx msg => msg.type ≠ .txRequest
  | .putEvent (.badContract _) | .take _ => False
  | .putEvent (.processResp _) | .recvTx _ _ | .recvEvent _ | .recvTimer | .expire => True

instance : DecidablePred OfGroup
  | .putTx _ => inferInstanceAs (Decidable (_ ≠ _))
  | .putEvent (.badContract _) | .take _ => instDecidableFalse
  | .putEvent (.processResp _) | .recvTx _ _ | .recvEvent _ | .recvTimer | .expire => instDecidableTrue

/-- The queue from which a process receives in a step, and what it receives. -/
def receives (p : Process) : Process.Action → Option (String × DockerVMMessage)
  | .txReq tx _ _ =>
    match p.listen with
    | some (.ready q) => some (q, tx)
    | _ => none
  | .idleTxReq tx _ =>
    match p.listen with
    | some (.idle q) => some (q, tx)
    | _ => none
  | .exit (some tx) _ => some (p.txCh, tx)
  | _ => none

/-- The transaction that `handleProcessExit` finds: it looks for one after a failed
    start only. -/
def exitTx (f : Fleet) (p : Process) : Option DockerVMMessage :=
  match p.launch with
  | .exited e => if e.kind = .other then none else f.queueHead p.txCh p.isOrigProcess
  | _ => none

/-- What the groups tell a process in its step. -/
def Offers (f : Fleet) (p : Process) : Process.Action → Prop
  | .exit next cfv =>
    next = f.exitTx p ∧ ∀ g ∈ p.requestGroup, f.contractFileVersion g = some cfv
  | .launchProcess (.startError _ cfv) => p.requestGroup.bind f.contractFileVersion = some cfv
  | .launchProcess _ => (p.requestGroup.bind f.contractFileVersion).isSome
  | .changeSandbox key _ found _ => found = (f.requestGroups key.groupKey).isSome
  | a => ∀ t ∈ receives p a, f.queueHead t.1 p.isOrigProcess = some t.2

instance (f : Fleet) (p : Process) : DecidablePred (f.Offers p)
  | .exit _ _ => inferInstanceAs (Decidable (_ ∧ ∀ g ∈ p.requestGroup, _))
  | .launchProcess (.startError _ _) => inferInstanceAs (Decidable (_ = _))
  | .launchProcess (.pipeError _) | .launchProcess (.started _) => inferInstanceAs (Decidable (_ = true))
  | .changeSandbox _ _ _ _ => inferInstanceAs (Decidable (_ = _))
  | .loopHead | .wake | .txReq _ _ _ | .idleTxReq _ _ | .txResp _ | .tick _ _ | .putMsg _ | .setStream _
  | .closeSandbox _ | .leaveWindow _ | .sendReady | .cgroupError _ | .wait _ | .expire | .pop =>
    inferInstanceAs (Decidable (∀ t ∈ receives p _, f.queueHead t.1 p.isOrigProcess = some t.2))

/-- What was received leaves its queue. -/
def taken (f : Fleet) (p : Process) (a : Process.Action) : Fleet :=
  match receives p a with
  | none => f
  | some (k, _) =>
    match f.requestGroups k with
    | none => f
    | some r => f.setGroup k (dropHead r p.isOrigProcess)

/-- The reports for a group among the messages of a process. -/
def reportsTo (k : String) (outs : List ProcessOut) : List GroupEvent :=
  outs.filterMap fun
    | .badContract g msg => if g = k then some (.badContract msg) else none
    | _ => none

/-- The transactions given back among the messages of a process. -/
def returned (outs : List ProcessOut) : List DockerVMMessage :=
  outs.filterMap fun
    | .returnTx tx => some tx
    | _ => none

/-- The messages of a process reach the groups, the scheduler, the sandbox and the chain. -/
def putOuts (f : Fleet) (outs : List ProcessOut) : Fleet :=
  { f with
    requestGroups := fun k =>
      (f.requestGroups k).map fun r => { r with eventCh := r.eventCh ++ reportsTo k outs }
    txCh := f.txCh ++ returned outs
    sent := f.sent ++ (Process.sends outs).map (·.2.txId)
    answered := f.answered ++ Process.errTxIds outs }

def setProc (f : Fleet) (pid : ℕ) (p : Process) : Fleet := { f with procs := f.procs.set pid p }

def act (C : ChainConsts) (cfg : ProcessConfig) (f : Fleet) : Action → Option (Fleet × List FleetOut)
  | .request tx =>
    if tx.type = .txRequest ∧ tx.txId ∉ f.seen then
      some ({ f with txCh := f.txCh ++ [tx], seen := tx.txId :: f.seen }, [])
    else none
  | .schedule =>
    match f.txCh with
    | [] => none
    | tx :: rest => some (handleTxReq { f with txCh := rest } tx, [])
  | .group k a =>
    match f.requestGroups k with
    | none => none
    | some r =>
      if OfGroup a then
        (RequestGroup.act C r a).toOption.map fun (r', outs) =>
          ({ f.setGroup k r' with
              answered := f.answered ++ (RequestGroup.answersOf outs).map (·.txId) },
            outs.map (.group k))
      else none
  | .create user key processName isOrig =>
    if (f.requestGroups key.groupKey).isSome then
      some ({ f with procs := f.procs ++ [Process.new user key processName isOrig] }, [])
    else none
  | .proc pid a =>
    match f.procs[pid]? with
    | none => none
    | some p =>
      if f.Offers p a then
        (Process.act cfg p a).toOption.map fun (p', outs) =>
          (((f.taken p a).setProc pid p').putOuts outs, outs.map (.proc pid))
      else none
  | .answer txId =>
    if txId ∈ f.sent then some ({ f with answered := f.answered ++ [txId] }, []) else none

def step (C : ChainConsts) (cfg : ProcessConfig) (f : Fleet) (a : Action) : Option Fleet :=
  (act C cfg f a).map Prod.fst

/-- A step of the fleet, with the step of the group or process in it. -/
inductive FleetStep (C : ChainConsts) (f : Fleet) : Action → Fleet → List FleetOut → Prop
  | request {tx : DockerVMMessage} : tx.type = .txRequest → tx.txId ∉ f.seen →
      FleetStep C f (.request tx) { f with txCh := f.txCh ++ [tx], seen := tx.txId :: f.seen } []
  | schedule {tx : DockerVMMessage} {rest : List DockerVMMessage} : f.txCh = tx :: rest →
      FleetStep C f .schedule (handleTxReq { f with txCh := rest } tx) []
  | group {k : String} {a : RequestGroup.Action} {r r' : RequestGroup} {outs : List GroupOut} :
      f.requestGroups k = some r → OfGroup a → RequestGroup.act C r a = .ok (r', outs) →
      FleetStep C f (.group k a)
        { f.setGroup k r' with
          answered := f.answered ++ (RequestGroup.answersOf outs).map (·.txId) }
        (outs.map (.group k))
  | create {user : ℕ} {key : RequestGroupKey} {name : String} {isOrig : Bool} :
      FleetStep C f (.create user key name isOrig)
        { f with procs := f.procs ++ [Process.new user key name isOrig] } []
  | proc {pid : ℕ} {a : Process.Action} {p p' : Process} {outs : List ProcessOut} :
      f.procs[pid]? = some p → f.Offers p a → Process.ProcStep p a p' outs →
      FleetStep C f (.proc pid a) (((f.taken p a).setProc pid p').putOuts outs) (outs.map (.proc pid))
  | answer {txId : String} : txId ∈ f.sent →
      FleetStep C f (.answer txId) { f with answered := f.answered ++ [txId] } []

theorem act_step {C : ChainConsts} {cfg : ProcessConfig} {f f' : Fleet} {a : Action}
    {outs : List FleetOut} (h : act C cfg f a = some (f', outs)) : FleetStep C f a f' outs := by
  cases a with
  | request tx =>
    simp only [act] at h
    split_ifs at h with hreq
    cases h
    exact .request hreq.1 hreq.2
  | schedule =>
    simp only [act] at h
    split at h
    · cases h
    · rename_i tx rest hch
      cases h
      exact .schedule hch
  | group k a =>
    simp only [act] at h
    split at h
    · cases h
    · rename_i r hr
      split_ifs at h with ha
      obtain ⟨⟨r', outs⟩, hact, heq⟩ := Option.map_eq_some_iff.1 h
      cases heq
      exact .group hr ha (Go.toOption_eq_some.1 hact)
  | create user key name isOrig =>
    simp only [act] at h
    split_ifs at h
    cases h
    exact .create
  | proc pid a =>
    simp only [act] at h
    split at h
    · cases h
    · rename_i p hp
      split_ifs at h with hoff
      obtain ⟨⟨p', outs⟩, hact, heq⟩ := Option.map_eq_some_iff.1 h
      cases heq
      exact .proc hp hoff (Process.act_step (Go.toOption_eq_some.1 hact))
  | answer txId =>
    simp only [act] at h
    split_ifs at h with hsent
    cases h
    exact .answer hsent

theorem step_eq_some {C : ChainConsts} {cfg : ProcessConfig} {f f' : Fleet} {a : Action}
    (h : step C cfg f a = some f') : ∃ outs, act C cfg f a = some (f', outs) := by
  obtain ⟨⟨f₁, outs⟩, hact, rfl⟩ := Option.map_eq_some_iff.1 h
  exact ⟨outs, hact⟩

/-! ## Runs -/

def sampleGroup : String := RequestGroupKey.sample.groupKey

/-- The group gets a transaction and the contract at time `now`. -/
def runFetched (txId method : String) (now : ℤ) : List Action :=
  [.request (sampleTx .sample txId method), .schedule,
    .group sampleGroup (.recvTx RequestGroup.noProcesses 0),
    .group sampleGroup (.putTx (RequestGroup.bytecodeResp txId .ok)),
    .group sampleGroup (.recvTx RequestGroup.noProcesses now)]

end Fleet

end VmEngine
