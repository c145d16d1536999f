/-
  The process manager (`vm_mgr/module/core/process_manager.go`).

  A handler of the manager holds `pm.lock` and runs its jobs (creating a process,
  changing or closing one) in goroutines of their own, which it waits for.  Here a
  running handler is the `task` of the manager with the list of its jobs; every
  `job` step advances one of them, and `advance` goes on when all are done.  Only
  when there is no task can another handler start, and only then do
  `ChangeProcessState` and the readers of the maps get the lock.

  The manager does not look into its processes: what it learns from them is part of
  the action.  Processes are numbers.  What a step puts to the request groups, and
  the processes whose users it frees, are appended to `outbox`.
-/
import VmEngine.Core.Messages
import VmEngine.Lib.LinkedMap
import VmEngine.Lib.Timer
import VmEngine.Lib.System

namespace VmEngine

/-- The messages of the manager's `eventCh`. -/
inductive ManagerEvent where
  | getProcessReq (msg : GetProcessReqMsg)
  | sandboxExit (msg : SandboxExitMsg)
deriving DecidableEq, Repr

/-- What a manager puts to the other components. -/
inductive ManagerOut where
  /-- to the request group that the scheduler has for the key -/
  | resp (key : RequestGroupKey) (msg : GetProcessRespMsg)
  /-- the user of the process, to the user manager -/
  | freeUser (pid : ℕ)
deriving DecidableEq, Repr

/-- The pids whose users are freed by the messages. -/
def freesOf (outs : List ManagerOut) : List ℕ :=
  outs.filterMap fun
    | .freeUser pid => some pid
    | .resp _ _ => none

/-- An idle process that changes to another contract. -/
structure Change where
  pid : ℕ
  key : RequestGroupKey
  oldKey : RequestGroupKey
  oldName : String
  newName : String
deriving DecidableEq, Repr

/-- A goroutine of a handler, by the step it takes next. -/
inductive Job where
  /-- generate the name of a new process -/
  | create (key : RequestGroupKey)
  /-- `createNewProcess` -/
  | named (key : RequestGroupKey) (name : String)
  /-- add the new process to the cache -/
  | made (key : RequestGroupKey) (name : String) (pid : ℕ)
  /-- compare the contracts, generate the new name of an idle process -/
  | change (pid : ℕ) (key : RequestGroupKey)
  /-- `ChangeSandbox`, up to the update of the state -/
  | renamed (c : Change)
  /-- the rest of `ChangeSandbox` -/
  | killed (c : Change)
  /-- move the process in the cache -/
  | changed (c : Change)
  /-- `CloseSandbox`, up to the update of the state -/
  | close (pid : ℕ)
  /-- the rest of `CloseSandbox` -/
  | closeKilled (pid : ℕ)
  /-- `closeSandbox` -/
  | closed (pid : ℕ)
deriving DecidableEq, Repr

/-- A handler that waits for its jobs. -/
inductive Task where
  /-- `handleGetProcessReq`, with `needProcessNum`, and whether the idle processes
      were already asked -/
  | getProcess (msg : GetProcessReqMsg) (need : ℤ) (idleAsked : Bool)
  | allocateIdle
  | allocateNew
  /-- `handleCleanIdleProcesses`, with `actualNum` -/
  | clean (actualNum : ℕ)
deriving DecidableEq, Repr

/-- One process more was allocated, or released. -/
def Task.served : Task → Task
  | .getProcess msg need idleAsked => .getProcess msg (need - 1) idleAsked
  | .clean n => .clean (n + 1)
  | t => t

structure ProcessManager where
  maxProcessNum : ℤ
  /-- `int(pm.releaseRate * float64(pm.maxProcessNum))` -/
  releaseNum : ℤ
  isOrigManager : Bool
  idleProcesses : LinkedMap String ℕ
  busyProcesses : LinkedMap String ℕ
  processGroups : LinkedMap String (LinkedMap String ℕ)
  waitingRequestGroups : List RequestGroupKey
  eventCh : List ManagerEvent
  allocateIdleCh : ℕ
  allocateNewCh : ℕ
  cleanTimer : Timer
  processCnt : ℕ
  task : Option (Task × List Job)
  outbox : List ManagerOut

namespace ProcessManager

/-- `NewProcessManager`. -/
def new (maxProcessNum releaseNum : ℤ) (isOrigManager : Bool) : ProcessManager where
  maxProcessNum := maxProcessNum
  releaseNum := releaseNum
  isOrigManager := isOrigManager
  idleProcesses := .empty
  busyProcesses := .empty
  processGroups := .empty
  waitingRequestGroups := []
  eventCh := []
  allocateIdleCh := 0
  allocateNewCh := 0
  cleanTimer := ⟨.running, false⟩
  processCnt := 0
  task := none
  outbox := []

/-! ## Cache, process groups and waiting groups

  `found` tells for which keys the scheduler has a request group. -/

section
variable (found : String → Bool)

/-- `sendProcessReadyResp`; the flag tells whether it returns nil. -/
def sendProcessReadyResp (pm : ProcessManager) (processNum : ℤ) (key : RequestGroupKey) :
    ProcessManager × Bool :=
  if found key.groupKey then
    ({ pm with outbox := pm.outbox ++ [.resp key ⟨pm.isOrigManager, processNum⟩] }, true)
  else (pm, false)

/-- `removeFromWaitingGroup`. -/
def removeFromWaitingGroup (pm : ProcessManager) (key : RequestGroupKey) : ProcessManager :=
  (sendProcessReadyResp found
    { pm with waitingRequestGroups := pm.waitingRequestGroups.filter (· ≠ key) } 0 key).1

/-- `addToProcessGroup`. -/
def addToProcessGroup (pm : ProcessManager) (pid : ℕ) (key : RequestGroupKey)
    (processName : String) : ProcessManager :=
  let group := (pm.processGroups.get? key.groupKey).getD .empty
  { pm with processGroups := pm.processGroups.put key.groupKey (group.put processName pid) }

/-- `removeFromProcessGroup`. -/
def removeFromProcessGroup (pm : ProcessManager) (key : RequestGroupKey) (processName : String) :
    ProcessManager :=
  match pm.processGroups.get? key.groupKey with
  | none => pm
  | some group =>
    let group := group.remove processName
    if group.size = 0 then
      removeFromWaitingGroup found
        { pm with processGroups := pm.processGroups.remove key.groupKey } key
    else { pm with processGroups := pm.processGroups.put key.groupKey group }

/-- `addProcessToIdle`, for a process that works on `key`. -/
def addProcessToIdle (pm : ProcessManager) (processName : String) (pid : ℕ)
    (key : RequestGroupKey) : ProcessManager :=
  let pm := { pm with idleProcesses := pm.idleProcesses.put processName pid }
  let pm := if key ∈ pm.waitingRequestGroups then removeFromWaitingGroup found pm key else pm
  if 0 < pm.waitingRequestGroups.length then { pm with allocateIdleCh := pm.allocateIdleCh + 1 }
  else pm

/-- `addProcessToCache`, which all callers use for a busy process. -/
def addProcessToCache (pm : ProcessManager) (key : RequestGroupKey) (processName : String)
    (pid : ℕ) : ProcessManager :=
  addToProcessGroup { pm with busyProcesses := pm.busyProcesses.put processName pid } pid key
    processName

/-- `removeProcessFromCache`. -/
def removeProcessFromCache (pm : ProcessManager) (key : RequestGroupKey) (processName : String) :
    ProcessManager :=
  removeFromProcessGroup found
    { pm with
      busyProcesses := pm.busyProcesses.remove processName
      idleProcesses := pm.idleProcesses.remove processName } key processName

/-- `getProcessByName`. -/
def getProcessByName (pm : ProcessManager) (processName : String) : Option ℕ :=
  (pm.idleProcesses.get? processName).or (pm.busyProcesses.get? processName)

/-- `closeSandbox`; `releaseUser` dereferences a process that is not found. -/
def closeSandbox (pm : ProcessManager) (key : RequestGroupKey) (processName : String) :
    Go ProcessManager :=
  match pm.getProcessByName processName with
  | none => .error .panics
  | some pid =>
    .ok (removeProcessFromCache found { pm with outbox := pm.outbox ++ [.freeUser pid] } key
      processName)

/-- `getAvailableProcessNum`. -/
def getAvailableProcessNum (pm : ProcessManager) : ℤ :=
  pm.maxProcessNum - pm.idleProcesses.size - pm.busyProcesses.size

/-- `generateProcessName`. -/
def generateProcessName (pm : ProcessManager) (key : RequestGroupKey) : ProcessManager × String :=
  let localIndex := ((pm.processGroups.get? key.groupKey).map LinkedMap.size).getD 0
  let processCnt := pm.processCnt + 1
  ({ pm with processCnt := processCnt },
    constructProcessName key localIndex processCnt pm.isOrigManager)

/-- `ChangeProcessState`, for a process that works on `key`; an error is `none`. -/
def changeProcessState (pm : ProcessManager) (processName : String) (toBusy : Bool)
    (key : RequestGroupKey) : Option ProcessManager :=
  if toBusy then
    (pm.idleProcesses.get? processName).map fun pid =>
      { pm with
        busyProcesses := pm.busyProcesses.put processName pid
        idleProcesses := pm.idleProcesses.remove processName }
  else
    (pm.busyProcesses.get? processName).map fun pid =>
      let pm := addProcessToIdle found pm processName pid key
      { pm with busyProcesses := pm.busyProcesses.remove processName }

end

/-! ## Handlers -/

section
variable (found : String → Bool)

/-- `handleGetProcessReq` up to the creation of processes.  The wait group panics
    on a negative count. -/
def handleGetProcessReq (pm : ProcessManager) (msg : GetProcessReqMsg) : Go ProcessManager :=
  if msg.processNum = 0 then .ok (removeFromWaitingGroup found pm msg.key)
  else
    let availableProcessNum := pm.getAvailableProcessNum
    if 0 < availableProcessNum then
      let newProcessNum := min msg.processNum availableProcessNum
      if newProcessNum < 0 then .error .panics
      else .ok { pm with task := some (.getProcess msg msg.processNum false,
        List.replicate newProcessNum.toNat (.create msg.key)) }
    else .ok { pm with task := some (.getProcess msg msg.processNum false, []) }

/-- The second part of `handleGetProcessReq`: ask idle processes to change. -/
def askIdleProcesses (pm : ProcessManager) (msg : GetProcessReqMsg) (need : ℤ) : ProcessManager :=
  let idleProcessesSize := pm.idleProcesses.size
  let jobs := if 0 < need ∧ 0 < idleProcessesSize then
      (pm.idleProcesses.peek (min need idleProcessesSize).toNat).map (Job.change · msg.key)
    else []
  { pm with task := some (.getProcess msg need true, jobs) }

/-- The end of `handleGetProcessReq`. -/
def finishGetProcessReq (pm : ProcessManager) (msg : GetProcessReqMsg) (need : ℤ) :
    ProcessManager :=
  let pm := { pm with task := none }
  if msg.processNum = need then
    if msg.key ∈ pm.waitingRequestGroups then pm
    else { pm with waitingRequestGroups := pm.waitingRequestGroups ++ [msg.key] }
  else (sendProcessReadyResp found pm (msg.processNum - need) msg.key).1

/-- `handleSandboxExitMsg`. -/
def handleSandboxExitMsg (pm : ProcessManager) (msg : SandboxExitMsg) : Go ProcessManager := do
  let pm ← closeSandbox found pm msg.key msg.processName
  return { pm with allocateNewCh := pm.allocateNewCh + 1 }

/-- `handleCleanIdleProcesses` up to the closing of processes. -/
def handleCleanIdleProcesses (pm : ProcessManager) : ProcessManager :=
  let releaseNum := min (pm.releaseNum - pm.getAvailableProcessNum) pm.idleProcesses.size
  if releaseNum ≤ 0 then pm
  else { pm with task := some (.clean 0, (pm.idleProcesses.peek releaseNum.toNat).map Job.close) }

/-- The end of `handleCleanIdleProcesses`, with `startTimer`. -/
def finishClean (pm : ProcessManager) (actualNum : ℕ) : ProcessManager :=
  { pm with
    task := none
    allocateNewCh := if 0 < actualNum then pm.allocateNewCh + 1 else pm.allocateNewCh
    cleanTimer := pm.cleanTimer.stopAndDrain.reset }

/-- `handleAllocateIdleProcesses` up to the changes. -/
def handleAllocateIdleProcesses (pm : ProcessManager) : ProcessManager :=
  let allocateNum := min pm.waitingRequestGroups.length pm.idleProcesses.size
  if allocateNum = 0 then pm
  else { pm with task := some (.allocateIdle,
    List.zipWith Job.change (pm.idleProcesses.peek allocateNum)
      (pm.waitingRequestGroups.take allocateNum)) }

/-- `handleAllocateNewProcesses` up to the creations. -/
def handleAllocateNewProcesses (pm : ProcessManager) : Go ProcessManager :=
  let allocateNum := min (pm.waitingRequestGroups.length : ℤ) pm.getAvailableProcessNum
  if allocateNum = 0 then .ok pm
  else if allocateNum < 0 then .error .panics
  else .ok { pm with task := some (.allocateNew,
    (pm.waitingRequestGroups.take allocateNum.toNat).map Job.create) }

/-! ## Jobs -/

/-- What happens to a job. -/
inductive JobEvent where
  | nameNew
  | createOk (pid : ℕ)
  | createFail
  | cacheNew
  /-- the contract and the name that the process has -/
  | nameChange (oldKey : RequestGroupKey) (oldName : String)
  | changeFail
  | changeKill
  | changeDone
  | recache
  | closeFail
  | closeKill
  | closeDone
  /-- the contract and the name that the process has -/
  | release (key : RequestGroupKey) (name : String)
deriving DecidableEq, Repr

/-- `nameNew`: a group that waits is told before its process is created. -/
def nameNew (pm : ProcessManager) (t : Task) (key : RequestGroupKey) :
    ProcessManager × Option Job :=
  let r := match t with
    | .allocateNew => sendProcessReadyResp found pm 1 key
    | _ => (pm, true)
  if r.2 then
    let g := generateProcessName r.1 key
    (g.1, some (.named key g.2))
  else (r.1, none)

/-- A new process comes into the cache. -/
def cacheNew (pm : ProcessManager) (t : Task) (key : RequestGroupKey) (name : String) (pid : ℕ) :
    ProcessManager :=
  match t with
  | .getProcess _ _ _ => addProcessToCache pm key name pid
  | _ => addProcessToCache (removeFromWaitingGroup found pm key) key name pid

/-- The same contract, up to the chain: the process is left as it is. -/
def SameContract (key oldKey : RequestGroupKey) : Prop :=
  key.contractName = oldKey.contractName ∧ key.contractVersion = oldKey.contractVersion

instance (key oldKey : RequestGroupKey) : Decidable (SameContract key oldKey) :=
  inferInstanceAs (Decidable (_ ∧ _))

/-- The answer to a group whose contract an idle process already runs. -/
def meetIdle (pm : ProcessManager) (t : Task) (key : RequestGroupKey) : ProcessManager :=
  match t with
  | .getProcess _ _ _ => pm
  | _ => (sendProcessReadyResp found (removeFromWaitingGroup found pm key) 0 key).1

/-- A changed process moves in the cache. -/
def moveInCache (pm : ProcessManager) (c : Change) : ProcessManager :=
  addProcessToCache (removeProcessFromCache found pm c.oldKey c.oldName) c.key c.newName c.pid

def recache (pm : ProcessManager) (t : Task) (c : Change) : ProcessManager :=
  match t with
  | .getProcess _ _ _ => moveInCache found pm c
  | _ =>
    let r := sendProcessReadyResp found pm 1 c.key
    if r.2 then moveInCache found (removeFromWaitingGroup found r.1 c.key) c else r.1

/-- One step of a job of the task: the manager, the task and what is left of the job. -/
def runJob (pm : ProcessManager) (t : Task) (j : Job) (e : JobEvent) :
    Go (ProcessManager × Task × Option Job) :=
  match j, e with
  | .create key, .nameNew =>
    let r := nameNew found pm t key
    .ok (r.1, t, r.2)
  | .named key name, .createOk pid => .ok (pm, t, some (.made key name pid))
  | .named _ _, .createFail => .ok (pm, t, none)
  | .made key name pid, .cacheNew => .ok (cacheNew found pm t key name pid, t.served, none)
  | .change pid key, .nameChange oldKey oldName =>
    if SameContract key oldKey then .ok (meetIdle found pm t key, t.served, none)
    else
      let g := generateProcessName pm key
      .ok (g.1, t, some (.renamed ⟨pid, key, oldKey, oldName, g.2⟩))
  | .renamed _, .changeFail => .ok (pm, t, none)
  | .renamed c, .changeKill => .ok (pm, t, some (.killed c))
  | .killed c, .changeDone => .ok (pm, t, some (.changed c))
  | .changed c, .recache => .ok (recache found pm t c, t.served, none)
  | .close _, .closeFail => .ok (pm, t, none)
  | .close pid, .closeKill => .ok (pm, t, some (.closeKilled pid))
  | .closeKilled pid, .closeDone => .ok (pm, t, some (.closed pid))
  | .closed _, .release key name => do
    let pm ← closeSandbox found pm key name
    return (pm, t.served, none)
  | _, _ => .error .blocks

/-- The end of a task, or its next part. -/
def finishTask (pm : ProcessManager) : Task → ProcessManager
  | .getProcess msg need false => askIdleProcesses pm msg need
  | .getProcess msg need true => finishGetProcessReq found pm msg need
  | .allocateIdle | .allocateNew => { pm with task := none }
  | .clean actualNum => finishClean pm actualNum

/-! ## The manager as a transition system -/

inductive Action where
  /-- `PutMsg` -/
  | putMsg (e : ManagerEvent)
  /-- `<-pm.eventCh` -/
  | recvEvent
  /-- `<-pm.cleanTimer.C` -/
  | recvClean
  /-- `<-pm.allocateIdleCh` -/
  | recvAllocateIdle
  /-- `<-pm.allocateNewCh` -/
  | recvAllocateNew
  /-- the runtime fires the clean timer -/
  | expire
  /-- a step of the job at position `i` -/
  | job (i : ℕ) (e : JobEvent)
  /-- all jobs are done -/
  | advance
  /-- a process that works on `key` calls `ChangeProcessState` -/
  | changeProcessState (processName : String) (toBusy : Bool) (key : RequestGroupKey)
deriving DecidableEq, Repr

/-- The steps of the manager's own goroutine and of its timer. -/
def Action.IsTurn : Action → Bool
  | .recvEvent | .recvClean | .recvAllocateIdle | .recvAllocateNew | .expire | .advance => true
  | .putMsg _ | .job _ _ | .changeProcessState _ _ _ => false

/-- The handler of a message of `eventCh`. -/
def handleEvent (pm : ProcessManager) : ManagerEvent → Go ProcessManager
  | .getProcessReq msg => handleGetProcessReq found pm msg
  | .sandboxExit msg => handleSandboxExitMsg found pm msg

/-- A step of job `i`. -/
def stepJob (pm : ProcessManager) (i : ℕ) (e : JobEvent) : Go ProcessManager :=
  match pm.task with
  | none => .error .blocks
  | some (t, jobs) =>
    match jobs[i]? with
    | none => .error .blocks
    | some j => do
      let (pm, t, next) ← runJob found pm t j e
      return { pm with task := some (t, match next with
        | some j => jobs.set i j
        | none => jobs.eraseIdx i) }

/-- One step.  The handlers start only when no other holds the lock. -/
def act (pm : ProcessManager) : Action → Go ProcessManager
  | .putMsg e => .ok { pm with eventCh := pm.eventCh ++ [e] }
  | .recvEvent =>
    match pm.task, pm.eventCh with
    | none, e :: rest => handleEvent found { pm with eventCh := rest } e
    | _, _ => .error .blocks
  | .recvClean =>
    match pm.task, pm.cleanTimer.recv with
    | none, some t => .ok (handleCleanIdleProcesses { pm with cleanTimer := t })
    | _, _ => .error .blocks
  | .recvAllocateIdle =>
    match pm.task, pm.allocateIdleCh with
    | none, n + 1 => .ok (handleAllocateIdleProcesses { pm with allocateIdleCh := n })
    | _, _ => .error .blocks
  | .recvAllocateNew =>
    match pm.task, pm.allocateNewCh with
    | none, n + 1 => handleAllocateNewProcesses { pm with allocateNewCh := n }
    | _, _ => .error .blocks
  | .expire =>
    match pm.cleanTimer.expire with
    | none => .error .blocks
    | some t => .ok { pm with cleanTimer := t }
  | .job i e => stepJob found pm i e
  | .advance =>
    match pm.task with
    | some (t, []) => .ok (finishTask found pm t)
    | _ => .error .blocks
  | .changeProcessState processName toBusy key =>
    match pm.task with
    | none => .ok ((changeProcessState found pm processName toBusy key).getD pm)
    | some _ => .error .blocks

end

end ProcessManager

end VmEngine
