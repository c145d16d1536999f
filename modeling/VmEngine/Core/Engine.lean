/-
  The engine: both process managers, their processes, the user manager
  (`user_manager.go`), the sandboxes and the sandbox service
  (`contract_engine_sandbox_service.go`).

  The calls between them are made here: a job of a manager creates, changes or closes
  a process, a process calls `ChangeProcessState`, its launch starts a sandbox under
  its user, and a sandbox registers with the process that its stream is connected to.
  The request groups are the environment.  Every key that a manager knows comes from
  a request of its group, and groups are never removed, so `GetRequestGroup` finds the
  group of every key.
-/
import VmEngine.Core.ProcessManager
import VmEngine.Core.ProcessStep

namespace VmEngine

/-- A sandbox: the process, name, contract and user it was launched with. -/
structure Sandbox where
  pid : ℕ
  processName : String
  key : RequestGroupKey
  user : ℕ
  /-- until its exit event -/
  alive : Bool
  /-- `cmd.Wait` has returned for it -/
  waited : Bool
  /-- the process that `DockerVMCommunicate` keeps for its stream -/
  conn : Option ℕ
deriving DecidableEq, Repr

/-- Processes and sandboxes are named by their positions. -/
structure Engine where
  mgr : Bool → ProcessManager
  procs : List Process
  sandboxes : List Sandbox
  /-- `userQueue` -/
  users : List ℕ
  /-- history: the names given to processes of each manager -/
  names : Bool → List (String × ℕ)
  /-- history: the processes whose users were freed -/
  freed : List ℕ

namespace Engine

/-- The engine at its start, with the users that `BatchCreateUsers` makes. -/
def new (maxProcessNum releaseNum : Bool → ℤ) (users : List ℕ) : Engine where
  mgr o := .new (maxProcessNum o) (releaseNum o) o
  procs := []
  sandboxes := []
  users := users
  names _ := []
  freed := []

def found (_ : String) : Bool := true

/-! ## Updates -/

def setMgr (e : Engine) (o : Bool) (pm : ProcessManager) : Engine :=
  { e with mgr := Function.update e.mgr o pm }

def setProc (e : Engine) (pid : ℕ) (p : Process) : Engine :=
  { e with procs := e.procs.set pid p }

def setSandbox (e : Engine) (sid : ℕ) (sb : Sandbox) : Engine :=
  { e with sandboxes := e.sandboxes.set sid sb }

/-- The process gets a name. -/
def logName (e : Engine) (o : Bool) (name : String) (pid : ℕ) : Engine :=
  { e with names := Function.update e.names o (e.names o ++ [(name, pid)]) }

/-- The manager after a step: the users of its messages go back to the queue. -/
def settle (e : Engine) (o : Bool) (pm : ProcessManager) : Engine :=
  let pids := freesOf pm.outbox
  { e.setMgr o { pm with outbox := [] } with
    users := e.users ++ pids.filterMap fun pid => e.procs[pid]?.map (·.user)
    freed := e.freed ++ pids }

/-- The exit messages of a process are put to its manager. -/
def putExits (e : Engine) (o : Bool) (outs : List ProcessOut) : Engine :=
  e.setMgr o { e.mgr o with
    eventCh := (e.mgr o).eventCh ++ (Process.exitMsgs outs).map .sandboxExit }

/-! ## Jobs of a manager -/

/-- The current command of the process can be signalled: `cmd.Wait` has not returned
    for it. -/
def Signalable (e : Engine) (p : Process) : Bool :=
  ((p.cmd.bind (·.sandbox)).bind (e.sandboxes[·]?)).any fun sb => !sb.waited

/-- `createNewProcess`. -/
def createNewProcess (e : Engine) (o : Bool) (key : RequestGroupKey) (name : String) :
    Go (Engine × ℕ) :=
  match e.users with
  | [] => .error .blocks
  | user :: users =>
    let pid := e.procs.length
    let e := { e with users := users, procs := e.procs ++ [Process.new user key name o] }
    .ok (e.logName o name pid, pid)

/-- `ChangeSandbox` of the process of a job, up to the update of the state. -/
def changeSandbox (e : Engine) (o : Bool) (c : Change) (sigOk : Bool) : Go (Engine × Bool) :=
  match e.procs[c.pid]? with
  | none => .error .panics
  | some p =>
    if sigOk && !e.Signalable p then .error .blocks
    else do
      let (p', ok) ← p.changeSandbox c.key c.newName (found c.key.groupKey) sigOk
      let e := e.setProc c.pid p'
      return (if p.processState = .idle then e.logName o c.newName c.pid else e, ok)

/-- `CloseSandbox` of the process of a job, up to the update of the state. -/
def closeSandbox (e : Engine) (pid : ℕ) (sigOk : Bool) : Go (Engine × Bool) :=
  match e.procs[pid]? with
  | none => .error .panics
  | some p =>
    if sigOk && !e.Signalable p then .error .blocks
    else do
      let (p, ok) ← p.closeSandbox sigOk
      return (e.setProc pid p, ok)

/-- The end of `ChangeSandbox` or `CloseSandbox`. -/
def leaveWindow (e : Engine) (pid : ℕ) (w : Window) : Go Engine :=
  match e.procs[pid]? with
  | none => .error .panics
  | some p => do
    let p ← p.leaveWindow w
    return e.setProc pid p

/-- The call that a job makes, and what the job learns from it.  The flag tells
    whether a process can be created, and whether a signal succeeds. -/
def callJob (e : Engine) (o ok : Bool) : Job → Go (Engine × ProcessManager.JobEvent)
  | .create _ => .ok (e, .nameNew)
  | .named key name =>
    if ok then do
      let (e, pid) ← e.createNewProcess o key name
      return (e, .createOk pid)
    else .ok (e, .createFail)
  | .made _ _ _ => .ok (e, .cacheNew)
  | .change pid _ =>
    match e.procs[pid]? with
    | none => .error .panics
    | some p => .ok (e, .nameChange p.key p.processName)
  | .renamed c => do
    let (e, ok) ← e.changeSandbox o c ok
    return (e, if ok then .changeKill else .changeFail)
  | .killed c => do
    let e ← e.leaveWindow c.pid .changing
    return (e, .changeDone)
  | .changed _ => .ok (e, .recache)
  | .close pid => do
    let (e, ok) ← e.closeSandbox pid ok
    return (e, if ok then .closeKill else .closeFail)
  | .closeKilled pid => do
    let e ← e.leaveWindow pid .closing
    return (e, .closeDone)
  | .closed pid =>
    match e.procs[pid]? with
    | none => .error .panics
    | some p => .ok (e, .release p.key p.processName)

/-- A step of the job at position `i` of the task of manager `o`. -/
def stepJob (e : Engine) (o : Bool) (i : ℕ) (ok : Bool) : Go Engine :=
  match ((e.mgr o).task.map Prod.snd).bind (·[i]?) with
  | none => .error .blocks
  | some j => do
    let (e, ev) ← e.callJob o ok j
    let pm ← (e.mgr o).act found (.job i ev)
    return e.settle o pm

/-! ## Steps of a process -/

/-- `ChangeProcessState`, called by the process; it waits for the manager's lock. -/
def changeProcessState (e : Engine) (p : Process) (toBusy : Bool) : Go (Engine × Bool) :=
  let o := p.isOrigProcess
  if (e.mgr o).task.isSome then .error .blocks
  else
    match (e.mgr o).changeProcessState found p.processName toBusy p.key with
    | none => .ok (e, false)
    | some pm => .ok (e.settle o pm, true)

/-- What a step of the process needs from the others.  `PutMsg`, `SetStream` and the
    calls of the manager are not its own steps. -/
def callProc (e : Engine) (pid : ℕ) (p : Process) : Process.Action → Go (Engine × Process.Action)
  | .tick _ sigOk =>
    if p.processState = .ready then do
      let (e, pmOk) ← e.changeProcessState p false
      return (e, .tick pmOk sigOk)
    else .ok (e, .tick false sigOk)
  | .idleTxReq tx _ => do
    let (e, pmOk) ← e.changeProcessState p true
    return (e, .idleTxReq tx pmOk)
  | .txReq tx el sendOk =>
    -- the scheduler puts a transaction to the group with its joined key
    match p.listen, tx.request with
    | some (.ready q), some r =>
      if r.key.groupKey = q then .ok (e, .txReq tx el sendOk) else .error .blocks
    | _, _ => .error .blocks
  | .launchProcess (.started _) =>
    .ok ({ e with sandboxes := e.sandboxes ++
        [⟨pid, p.processName, p.key, p.user, true, false, none⟩] },
      .launchProcess (.started e.sandboxes.length))
  | .wait err =>
    match p.launch with
    | .running sid =>
      match e.sandboxes[sid]? with
      | none => .error .panics
      | some sb =>
        if sb.alive then .error .blocks else .ok (e.setSandbox sid { sb with waited := true }, .wait err)
    | _ => .error .blocks
  | .putMsg _ | .setStream _ | .changeSandbox _ _ _ _ | .closeSandbox _ | .leaveWindow _ =>
    .error .blocks
  | a => .ok (e, a)

/-- A step of the process `pid`. -/
def stepProc (cfg : ProcessConfig) (e : Engine) (pid : ℕ) (a : Process.Action) :
    Go (Engine × List ProcessOut) :=
  match e.procs[pid]? with
  | none => .error .blocks
  | some p => do
    let (e, a) ← e.callProc pid p a
    let (p, outs) ← p.act cfg a
    return ((e.setProc pid p).putExits p.isOrigProcess outs, outs)

/-! ## Messages of a sandbox -/

/-- `GetProcessByName` of both managers, in the order of `DockerVMCommunicate`. -/
def getProcessByName (e : Engine) (name : String) : Go ℕ :=
  if (e.mgr true).task.isSome then .error .blocks
  else
    match (e.mgr true).getProcessByName name with
    | some pid => .ok pid
    | none =>
      if (e.mgr false).task.isSome then .error .blocks
      else
        match (e.mgr false).getProcessByName name with
        | some pid => .ok pid
        | none => .error .blocks

/-- The first message on the stream of the sandbox, which names its process. -/
def connect (e : Engine) (sid : ℕ) : Go Engine :=
  match e.sandboxes[sid]? with
  | none => .error .blocks
  | some sb =>
    if sb.conn.isSome then .error .blocks
    else do
      let pid ← e.getProcessByName sb.processName
      return e.setSandbox sid { sb with conn := some pid }

/-- A message to the process that the stream is connected to. -/
def deliver (e : Engine) (sid : ℕ) (f : Process → Go Process) : Go Engine :=
  match e.sandboxes[sid]?.bind (·.conn) with
  | none => .error .blocks
  | some pid =>
    match e.procs[pid]? with
    | none => .error .panics
    | some p => do
      let p ← f p
      return e.setProc pid p

/-- `PutMsg` of a response. -/
def putMsg (msg : DockerVMMessage) (p : Process) : Go Process :=
  if p.respCh.isSome then .error .blocks else .ok { p with respCh := some msg }

/-! ## The engine as a transition system -/

inductive Action where
  /-- a request group asks for processes -/
  | request (isOrig : Bool) (msg : GetProcessReqMsg)
  /-- a step of the manager's goroutine -/
  | manager (isOrig : Bool) (a : ProcessManager.Action)
  /-- a step of a job of the manager's task -/
  | job (isOrig : Bool) (i : ℕ) (ok : Bool)
  /-- a step of a process -/
  | proc (pid : ℕ) (a : Process.Action)
  /-- the first message of a sandbox -/
  | connect (sid : ℕ)
  /-- a message `REGISTER` of a sandbox -/
  | register (sid : ℕ)
  /-- another message of a sandbox -/
  | respond (sid : ℕ) (msg : DockerVMMessage)
  /-- the sandbox exits -/
  | exit (sid : ℕ)
deriving DecidableEq, Repr

/-- One step, with what processes put to the other components. -/
def act (cfg : ProcessConfig) (e : Engine) : Action → Go (Engine × List ProcessOut)
  | .request o msg =>
    .ok (e.setMgr o { e.mgr o with eventCh := (e.mgr o).eventCh ++ [.getProcessReq msg] }, [])
  | .manager o a =>
    if a.IsTurn then do
      let pm ← (e.mgr o).act found a
      return (e.settle o pm, [])
    else .error .blocks
  | .job o i ok => do
    let e ← e.stepJob o i ok
    return (e, [])
  | .proc pid a => e.stepProc cfg pid a
  | .connect sid => do
    let e ← e.connect sid
    return (e, [])
  | .register sid => do
    let e ← e.deliver sid (·.setStream sid)
    return (e, [])
  | .respond sid msg => do
    let e ← e.deliver sid (putMsg msg)
    return (e, [])
  | .exit sid =>
    match e.sandboxes[sid]? with
    | none => .error .blocks
    | some sb => .ok (e.setSandbox sid { sb with alive := false }, [])

def step (cfg : ProcessConfig) (e : Engine) (a : Action) : Option Engine :=
  (act cfg e a).toOption.map Prod.fst

/-- An engine for concrete runs: `n` processes for each manager. -/
def sample (n : ℤ) (users : List ℕ) : Engine := new (fun _ => n) (fun _ => n) users

/-- A process is created for the contract, its sandbox registers, and it waits for
    transactions. -/
def runToReady (key : RequestGroupKey) : List Action :=
  [.request true ⟨key, 1⟩, .manager true .recvEvent, .job true 0 true, .job true 0 true,
    .job true 0 true, .manager true .advance, .manager true .advance,
    .proc 0 (.launchProcess (.started 0)), .proc 0 .loopHead, .connect 0, .register 0,
    .proc 0 .wake, .proc 0 .loopHead]

/-- The process becomes idle. -/
def runToIdle : List Action := runToReady .sample ++ [.proc 0 .expire, .proc 0 (.tick true true)]

/-- The idle process is asked to change to another contract, and is signalled. -/
def runChange (key : RequestGroupKey) (ok : Bool) : List Action :=
  [.request true ⟨key, 1⟩, .manager true .recvEvent, .manager true .advance, .job true 0 true,
    .job true 0 ok]

/-- The first sandbox exits before it registers, so its process is restarted; then its
    message `REGISTER` arrives, and the process becomes idle. -/
def runRestarted : List Action :=
  [.request true ⟨.sample, 1⟩, .manager true .recvEvent, .job true 0 true, .job true 0 true,
    .job true 0 true, .manager true .advance, .manager true .advance,
    .proc 0 (.launchProcess (.started 0)), .connect 0, .exit 0,
    .proc 0 (.wait none), .proc 0 .loopHead, .proc 0 (.exit none 0), .register 0,
    .proc 0 .loopHead, .proc 0 .expire, .proc 0 (.tick true true)]

end Engine

end VmEngine
