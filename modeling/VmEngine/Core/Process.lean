/-
  A process (`vm_mgr/module/core/process.go`): the engine's side of one sandbox.

  Three goroutines work on a process.  `listenProcess` reads the state, enters the
  `select` for it and runs one handler; `startProcess` launches the sandbox, waits
  for it and hands its exit to the listener; the process manager and the sandbox
  service call `ChangeSandbox`, `CloseSandbox`, `SetStream` and `PutMsg`.

  `Process.act` is one step of one of them.  A handler is one step, but
  `ChangeSandbox` and `CloseSandbox` take two, before and after the state is
  updated, since `handleProcessExit` takes no lock and may run in between.  What a
  step learns from the other components (signals, streams, the manager's answer)
  is part of the action.
-/
import VmEngine.Core.Messages
import VmEngine.Lib.Timer
import VmEngine.Lib.System
import Mathlib.Tactic

namespace VmEngine

/-- `processState`. -/
inductive ProcessState where
  | created
  | ready
  | busy
  | idle
  | changing
  | closing
  | timeout
deriving DecidableEq, Repr

/-- The states in which the listener does not wait for `updateCh`. -/
def ProcessState.serving : ProcessState → Bool
  | .ready | .busy | .idle => true
  | _ => false

/-- The errors that `handleProcessExit` tells apart. -/
inductive ExitKind where
  | contractExecError
  | contractNotExistError
  | other
deriving DecidableEq, Repr

/-- `exitErr`: the class and text of the error, and the integer that `desc`
    spells, if it spells one. -/
structure ExitErr where
  kind : ExitKind
  err : String
  desc : Option ℤ
deriving DecidableEq, Repr

/-- `exec.Cmd`: the sandbox once it is started, and whether `killProcess` has
    called `Signal` for it. -/
structure Cmd where
  sandbox : Option ℕ
  signalled : Bool
deriving DecidableEq, Repr

/-- Where the goroutine of `startProcess` stands. -/
inductive Launch where
  /-- before `cmd.Start` -/
  | starting
  /-- started, the send on `cmdReadyCh` blocks -/
  | sending (sid : ℕ)
  /-- until `cmd.Wait` returns -/
  | running (sid : ℕ)
  /-- `launchProcess` has returned, the send on `exitCh` waits for the listener -/
  | exited (e : ExitErr)
  /-- there is no such goroutine -/
  | none
deriving DecidableEq, Repr

/-- Where the goroutine of `listenProcess` stands: before it reads the state, or
    in one of the four `select`s, with the queue it receives from. -/
inductive Select where
  | head
  | ready (txCh : String)
  | busy
  | idle (txCh : String)
  | other
deriving DecidableEq, Repr

/-- A call that holds `p.lock` between `killProcess` and `updateProcessState`. -/
inductive Window where
  | changing
  | closing
deriving DecidableEq, Repr

/-- A process.  A request group and its queues are named by the key under which
    the scheduler stores the group, sandboxes and their streams by numbers. -/
structure Process where
  processName : String
  key : RequestGroupKey
  user : ℕ
  cmd : Option Cmd
  processState : ProcessState
  isOrigProcess : Bool
  cmdReadyCh : Bool
  updateCh : Bool
  txCh : String
  respCh : Option DockerVMMessage
  timer : Timer
  tx : Option DockerVMMessage
  stream : Option ℕ
  requestGroup : Option String
  timerPopped : Bool
  /-- the listener, until it returns -/
  listen : Option Select
  launch : Launch
  lockedBy : Option Window
  /-- the goroutine of `launch` is a former listener, whose `popTimer` is deferred -/
  launchPops : Bool
  /-- former listeners whose deferred `popTimer` is due -/
  pops : ℕ
deriving DecidableEq, Repr

/-- What a process puts to the other components. -/
inductive ProcessOut where
  /-- an error response, to the request scheduler -/
  | errResp (msg : DockerVMMessage)
  /-- a transaction given back, to the request scheduler -/
  | returnTx (tx : DockerVMMessage)
  /-- to the process manager -/
  | sandboxExit (msg : SandboxExitMsg)
  /-- to the request group -/
  | badContract (group : String) (msg : BadContractResp)
  /-- to the sandbox, on its stream -/
  | send (sid : ℕ) (msg : DockerVMMessage)
deriving DecidableEq, Repr

/-- `config.DockerVMConfig.Process` and the text of a duration. -/
structure ProcessConfig where
  execTxTimeout : ℕ
  durationText : ℕ → String

/-- A configuration for concrete runs. -/
def ProcessConfig.sample : ProcessConfig := ⟨8000, fun ms => toString ms ++ "ms"⟩

/-- `_removeTxTime` -/
def removeTxTime : ℕ := 9000

def initContract : String := "init_contract"

def upgradeContract : String := "upgrade"

namespace Process

/-- `NewProcess` and `Start`. -/
def new (user : ℕ) (key : RequestGroupKey) (processName : String) (isOrigProcess : Bool) :
    Process where
  processName := processName
  key := key
  user := user
  cmd := none
  processState := .created
  isOrigProcess := isOrigProcess
  cmdReadyCh := false
  updateCh := false
  txCh := key.groupKey
  respCh := none
  timer := .forever
  tx := none
  stream := none
  requestGroup := some key.groupKey
  timerPopped := false
  listen := some .head
  launch := .starting
  lockedBy := none
  launchPops := false
  pops := 0

/-! ## Timers and states -/

/-- `popTimer`; the receive blocks when the channel is empty. -/
def popTimer (p : Process) : Go Process :=
  if !p.timer.active && !p.timerPopped then
    match p.timer.stop.recv with
    | none => .error .blocks
    | some t => .ok { p with timer := t }
  else .ok { p with timer := p.timer.stop }

/-- `startBusyTimer` and `startReadyTimer`, which differ in the duration. -/
def startTimer (p : Process) : Go Process := do
  let p ← popTimer p
  return { p with timer := p.timer.reset, timerPopped := false }

/-- The first half of `updateProcessState`: set the state and wake the listener.
    The send on `updateCh`, of capacity one, may block. -/
def setState (p : Process) (state : ProcessState) : Go Process :=
  if !p.processState.serving && state.serving then
    if p.updateCh then .error .blocks
    else .ok { p with processState := state, updateCh := true }
  else .ok { p with processState := state }

/-- `updateProcessState`. -/
def updateProcessState (p : Process) (state : ProcessState) : Go Process := do
  let p ← setState p state
  if state = .ready ∨ state = .busy then startTimer p else return p

/-! ## Handlers -/

/-- The call to `Signal` in `killProcess`, for a command that exists. -/
def signal (p : Process) (c : Cmd) : Process :=
  { p with cmdReadyCh := false, cmd := some { c with signalled := true } }

/-- `killProcess`; the flag tells whether it returns nil.  The receive from
    `cmdReadyCh` blocks when there is no token, and a command that was not started
    has no process to signal. -/
def killProcess (p : Process) (sigOk : Bool) : Go (Process × Bool) :=
  if p.cmdReadyCh then
    match p.cmd with
    | none => .ok ({ p with cmdReadyCh := false }, false)
    | some c =>
      match c.sandbox with
      | none => .error .panics
      | some _ => .ok (p.signal c, sigOk)
  else .error .blocks

/-- `returnTxErrorResp`. -/
def returnTxErrorResp (p : Process) (txId errMsg : String) : ProcessOut :=
  .errResp (txErrorResp p.key.chainID txId errMsg)

/-- The message that `handleTxRequest` sends to the sandbox. -/
def sandboxMsg (p : Process) (tx : DockerVMMessage) : DockerVMMessage :=
  ⟨p.key.chainID, tx.txId, .undefined, tx.crossContext, tx.request, none⟩

/-- `handleTxRequest`, on a transaction that has waited for `elapsedTime`.  The
    last component is the error it returns. -/
def handleTxRequest (cfg : ProcessConfig) (p : Process) (tx : DockerVMMessage) (elapsedTime : ℕ)
    (sendOk : Bool) : Go (Process × List ProcessOut × Option String) :=
  if removeTxTime < elapsedTime then .ok (p, [], none)
  else if cfg.execTxTimeout < elapsedTime then
    .ok (p, [], some ("tx [" ++ tx.txId ++ "] expired for " ++ cfg.durationText cfg.execTxTimeout ++
      ", elapsed time: " ++ cfg.durationText elapsedTime))
  else do
    let p ← updateProcessState { p with tx := some tx } .busy
    match p.stream with
    | none => .error .panics
    | some sid =>
      if sendOk then return (p, [.send sid (p.sandboxMsg tx)], none)
      else return (p, [], some "failed to send msg to stream")

/-- `handleIdleTxRequest`; `pmOk` is the answer of `ChangeProcessState`. -/
def handleIdleTxRequest (p : Process) (tx : DockerVMMessage) (pmOk : Bool) :
    Go (Process × List ProcessOut) := do
  let p ← if pmOk then updateProcessState p .ready else .ok p
  return (p, [.returnTx tx])

/-- The test for a failed `init_contract` or `upgrade`. -/
def isDeployMethod (q : TxRequest) : Bool := q.method == initContract || q.method == upgradeContract

/-- `handleTxResp`.  A response with another `TxId` is only logged. -/
def handleTxResp (p : Process) (msg : DockerVMMessage) (sigOk : Bool) : Go Process :=
  match p.tx with
  | none => .error .panics
  | some tx => do
    let p ← updateProcessState p .ready
    if msg.type = .error then
      match tx.request with
      | none => .error .panics
      | some q =>
        if isDeployMethod q then
          let (p, _) ← killProcess p sigOk
          return p
        else return p
    else return p

/-- `handleTimeout`. -/
def handleTimeout (p : Process) (pmOk sigOk : Bool) : Go Process :=
  let p := { p with timerPopped := true }
  match p.processState with
  | .busy => do
    let p ← updateProcessState p .timeout
    let (p, _) ← killProcess p sigOk
    return p
  | .ready => if pmOk then updateProcessState p .idle else .ok p
  | _ => .ok p

/-- The flags that `handleProcessExit` sets for its deferred function, the text of
    the error response and the result. -/
structure ExitFlags where
  restartSandbox : Bool := false
  returnErrResp : Bool := false
  exitSandbox : Bool := false
  restartAll : Bool := false
  returnBadContractResp : Bool := false
  errRet : String
  released : Bool := true

/-- The body of `handleProcessExit`; `next` is the transaction at the head of
    `p.txCh`. -/
def exitBody (p : Process) (e : ExitErr) (next : Option DockerVMMessage) :
    Go (Process × List ProcessOut × ExitFlags) :=
  match e.kind, next with
  | .contractExecError, some tx => .ok ({ p with tx := some tx }, [],
      { exitSandbox := true, returnErrResp := true, returnBadContractResp := true, errRet := e.err })
  | .contractExecError, none => .ok (p, [], { exitSandbox := true, errRet := e.err })
  | .contractNotExistError, some tx => .ok ({ p with tx := some tx }, [.returnTx tx],
      { exitSandbox := true, returnBadContractResp := true, errRet := e.err })
  | .contractNotExistError, none => .ok (p, [], { exitSandbox := true, errRet := e.err })
  | .other, _ =>
    match p.processState with
    | .created => .ok (p, [], { restartSandbox := true, errRet := e.err, released := false })
    | .ready =>
      match p.tx.bind (·.request) with
      | none => .ok (p, [], { exitSandbox := true, errRet := e.err })
      | some q => .ok (p, [],
          { exitSandbox := true, returnBadContractResp := isDeployMethod q, errRet := e.err })
    | .idle => .ok (p, [], { exitSandbox := true, errRet := e.err })
    | .busy =>
      match p.tx.bind (·.request) with
      | none => .error .panics
      | some q => .ok ({ p with processState := .created }, [],
          { exitSandbox := true, returnErrResp := true, returnBadContractResp := isDeployMethod q,
            errRet := "runtime panic" })
    | .changing => .ok ({ p with processState := .created }, [],
        { restartAll := true, errRet := e.err })
    | .closing => .ok (p, [], { errRet := e.err })
    | .timeout => .ok ({ p with processState := .created }, [],
        { exitSandbox := true, returnErrResp := true, errRet := "tx time out" })

/-- `returnBadContractResp`, if the flag is set. -/
def returnBadContractResp (p : Process) (flag : Bool) (cfv : ℤ) : Go (List ProcessOut) :=
  if flag then
    match p.tx, p.requestGroup with
    | some tx, some g => .ok [.badContract g ⟨tx.txId, p.key, p.isOrigProcess, cfv⟩]
    | _, _ => .error .panics
  else .ok []

/-- The responses of the deferred function, in order; `cfv` is the current
    version of the request group. -/
def exitResponses (p : Process) (e : ExitErr) (f : ExitFlags) (cfv : ℤ) : Go (List ProcessOut) := do
  let bad ← returnBadContractResp p f.returnBadContractResp (e.desc.getD cfv)
  let txId := (p.tx.map (·.txId)).getD ""
  let errs := if f.returnErrResp then [p.returnTxErrorResp txId f.errRet] else []
  let exits := if f.exitSandbox then [.sandboxExit ⟨p.key, p.processName⟩] else []
  return errs ++ exits ++ bad

/-- The goroutines after `handleProcessExit`.  When the process is restarted as a
    whole, the listener becomes the launching goroutine, and its `popTimer` is due
    only after that launch has ended; otherwise `popTimer` runs at once, and the
    listener hangs if it blocks. -/
def finishExit (p : Process) (f : ExitFlags) : Process :=
  let p := { p with
    launch := if f.restartSandbox || f.restartAll then .starting else .none
    pops := if p.launchPops then p.pops + 1 else p.pops
    launchPops := f.restartAll }
  if f.restartAll then { p with listen := some .head }
  else
    match popTimer p with
    | .ok p => { p with timerPopped := true, listen := if f.released then none else some .head }
    | .error _ => { p with timer := p.timer.stop, listen := none }

/-- `handleProcessExit` with its deferred functions. -/
def handleProcessExit (p : Process) (e : ExitErr) (next : Option DockerVMMessage) (cfv : ℤ) :
    Go (Process × List ProcessOut) := do
  let (p, outs, f) ← exitBody p e next
  let resps ← exitResponses p e f cfv
  return (finishExit p f, outs ++ resps)

/-! ## Calls of the process manager and of the sandbox service -/

/-- `resetContext`; `found` tells whether the scheduler has the request group. -/
def resetContext (p : Process) (key : RequestGroupKey) (processName : String) (found : Bool) :
    Process × Bool :=
  if found then
    ({ p with
        requestGroup := some key.groupKey, key := key, processName := processName,
        txCh := key.groupKey }, true)
  else ({ p with requestGroup := none }, false)

/-- `ChangeSandbox` up to the update of the state.  The flag tells whether the
    call goes on; otherwise it returns an error. -/
def changeSandbox (p : Process) (key : RequestGroupKey) (processName : String)
    (found sigOk : Bool) : Go (Process × Bool) :=
  if p.processState ≠ .idle then .ok (p, false)
  else if p.lockedBy.isSome then .error .blocks
  else
    let (p, ok) := resetContext p key processName found
    if ok then do
      let (p, killed) ← killProcess p sigOk
      if killed then return ({ p with lockedBy := some .changing }, true) else return (p, false)
    else .ok (p, false)

/-- `CloseSandbox` up to the update of the state. -/
def closeSandbox (p : Process) (sigOk : Bool) : Go (Process × Bool) :=
  if p.processState ≠ .idle then .ok (p, false)
  else if p.lockedBy.isSome then .error .blocks
  else do
    let (p, killed) ← killProcess p sigOk
    if killed then return ({ p with lockedBy := some .closing }, true) else return (p, false)

/-- The update of the state at the end of `ChangeSandbox` or `CloseSandbox`. -/
def leaveWindow (p : Process) (w : Window) : Go Process :=
  if p.lockedBy = some w then do
    let p ← updateProcessState p (match w with | .changing => .changing | .closing => .closing)
    return { p with lockedBy := none }
  else .error .blocks

/-- `SetStream`. -/
def setStream (p : Process) (sid : ℕ) : Go Process :=
  if p.lockedBy.isSome then .error .blocks
  else do
    let p ← updateProcessState p .ready
    return { p with stream := some sid }

/-! ## Launching -/

/-- What becomes of `cmd.StdoutPipe` and `cmd.Start`. -/
inductive LaunchOutcome where
  | pipeError (err : String)
  | startError (notExist : Bool) (cfv : ℤ)
  | started (sid : ℕ)
deriving DecidableEq, Repr

/-- `launchProcess` up to the send on `cmdReadyCh`, which blocks when the channel
    holds a token. -/
def launchProcess (p : Process) : LaunchOutcome → Process
  | .pipeError err => { p with launch := .exited ⟨.other, err, none⟩ }
  | .startError notExist cfv =>
    let e : ExitErr :=
      if notExist then ⟨.contractNotExistError, "contract exec file not exist", some cfv⟩
      else ⟨.contractExecError, "bad contract exec file", some cfv⟩
    { p with cmd := some ⟨none, false⟩, launch := .exited e }
  | .started sid =>
    if p.cmdReadyCh then { p with cmd := some ⟨some sid, false⟩, launch := .sending sid }
    else { p with cmd := some ⟨some sid, false⟩, cmdReadyCh := true, launch := .running sid }

/-- The exit of a sandbox, with the error of `cmd.Wait` if it returns one. -/
def waitErr (err : Option (String × Option ℤ)) : ExitErr :=
  match err with
  | none => ⟨.other, "exit with no additional error message", none⟩
  | some (err, desc) => ⟨.other, err, desc⟩

/-! ## The process as a transition system -/

/-- A step of one of the goroutines that work on a process. -/
inductive Action where
  /-- the listener reads the state and enters a `select` -/
  | loopHead
  /-- `<-p.updateCh` -/
  | wake
  /-- `<-p.txCh` when ready -/
  | txReq (tx : DockerVMMessage) (elapsedTime : ℕ) (sendOk : Bool)
  /-- `<-p.txCh` when idle -/
  | idleTxReq (tx : DockerVMMessage) (pmOk : Bool)
  /-- `<-p.respCh` -/
  | txResp (sigOk : Bool)
  /-- `<-p.timer.C` -/
  | tick (pmOk sigOk : Bool)
  /-- `<-p.exitCh` -/
  | exit (next : Option DockerVMMessage) (cfv : ℤ)
  /-- `PutMsg` of a response -/
  | putMsg (msg : DockerVMMessage)
  | setStream (sid : ℕ)
  | changeSandbox (key : RequestGroupKey) (processName : String) (found sigOk : Bool)
  | closeSandbox (sigOk : Bool)
  | leaveWindow (w : Window)
  | launchProcess (o : LaunchOutcome)
  /-- the blocked send on `cmdReadyCh` -/
  | sendReady
  /-- `utils.WriteToFile` fails for the control group -/
  | cgroupError (err : String)
  /-- `cmd.Wait` returns -/
  | wait (err : Option (String × Option ℤ))
  /-- the runtime fires the timer -/
  | expire
  /-- the deferred `popTimer` of a former listener -/
  | pop
deriving DecidableEq, Repr

/-- The `select` that the listener enters. -/
def selectFor (p : Process) : Select :=
  match p.processState with
  | .ready => .ready p.txCh
  | .busy => .busy
  | .idle => .idle p.txCh
  | _ => .other

/-- The error of `handleTxRequest` is reported by the listener. -/
def reportErr (p : Process) (tx : DockerVMMessage) : Option String → List ProcessOut
  | none => []
  | some err => [p.returnTxErrorResp tx.txId err]

/-- One step, with what the process puts to the other components. -/
def act (cfg : ProcessConfig) (p : Process) : Action → Go (Process × List ProcessOut)
  | .loopHead =>
    if p.listen = some .head then .ok ({ p with listen := some p.selectFor }, [])
    else .error .blocks
  | .wake =>
    if p.listen = some .other ∧ p.updateCh then
      .ok ({ p with updateCh := false, listen := some .head }, [])
    else .error .blocks
  | .txReq tx elapsedTime sendOk =>
    match p.listen, p.lockedBy with
    | some (.ready _), none => do
      let (p, outs, err) ← handleTxRequest cfg p tx elapsedTime sendOk
      return ({ p with listen := some .head }, outs ++ p.reportErr tx err)
    | _, _ => .error .blocks
  | .idleTxReq tx pmOk =>
    match p.listen with
    | some (.idle _) =>
      if pmOk ∧ p.lockedBy.isSome then .error .blocks
      else do
        let (p, outs) ← handleIdleTxRequest p tx pmOk
        return ({ p with listen := some .head }, outs)
    | _ => .error .blocks
  | .txResp sigOk =>
    match p.listen, p.respCh, p.lockedBy with
    | some .busy, some msg, none => do
      let p ← handleTxResp { p with respCh := none } msg sigOk
      return ({ p with listen := some .head }, [])
    | _, _, _ => .error .blocks
  | .tick pmOk sigOk =>
    match p.listen, p.timer.recv, p.lockedBy with
    | some (.ready _), some t, none | some .busy, some t, none => do
      let p ← handleTimeout { p with timer := t } pmOk sigOk
      return ({ p with listen := some .head }, [])
    | _, _, _ => .error .blocks
  | .exit next cfv =>
    match p.launch, p.listen with
    | .exited e, some sel =>
      if sel = .head then .error .blocks else handleProcessExit p e next cfv
    | _, _ => .error .blocks
  | .putMsg msg =>
    if p.respCh.isSome then .error .blocks else .ok ({ p with respCh := some msg }, [])
  | .setStream sid => do
    let p ← setStream p sid
    return (p, [])
  | .changeSandbox key processName found sigOk => do
    let (p, _) ← changeSandbox p key processName found sigOk
    return (p, [])
  | .closeSandbox sigOk => do
    let (p, _) ← closeSandbox p sigOk
    return (p, [])
  | .leaveWindow w => do
    let p ← leaveWindow p w
    return (p, [])
  | .launchProcess o =>
    if p.launch = .starting then .ok (launchProcess p o, []) else .error .blocks
  | .sendReady =>
    match p.launch with
    | .sending sid =>
      if p.cmdReadyCh then .error .blocks
      else .ok ({ p with cmdReadyCh := true, launch := .running sid }, [])
    | _ => .error .blocks
  | .cgroupError err =>
    match p.launch with
    | .running _ => .ok ({ p with launch := .exited ⟨.other, err, none⟩ }, [])
    | _ => .error .blocks
  | .wait err =>
    match p.launch with
    | .running _ => .ok ({ p with launch := .exited (waitErr err) }, [])
    | _ => .error .blocks
  | .expire =>
    match p.timer.expire with
    | none => .error .blocks
    | some t => .ok ({ p with timer := t }, [])
  | .pop =>
    if p.pops = 0 then .error .blocks
    else do
      let p ← popTimer { p with pops := p.pops - 1 }
      return ({ p with timerPopped := true }, [])

/-- The step function of the process alone. -/
def step (cfg : ProcessConfig) (p : Process) (a : Action) : Option Process :=
  (act cfg p a).toOption.map Prod.fst

end Process

end VmEngine
