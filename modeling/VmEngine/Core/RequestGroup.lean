/-
  The request group (`vm_mgr/module/core/request_group.go`).

  A group collects the transactions of one contract.  Its goroutine takes a
  message from one of its channels at a time (`Start`) and runs the handler to
  its end; `RequestGroup.step` is one such turn, or a step of the environment: a
  message arrives, the timer fires, or a process takes a transaction.

  Handlers return the new group and the messages they put to the other
  components.  The channels are unbounded queues here.  What the group reads of
  its process managers (`GetProcessNumByContractKey`, `GetReadyOrBusyProcessNum`)
  and of the clock is part of the action.
-/
import VmEngine.Core.Messages
import VmEngine.Lib.Timer
import VmEngine.Lib.System
import Mathlib.Tactic

namespace VmEngine

/-- The contract state of a request group. -/
inductive ContractState where
  | empty
  | waiting
  | ready
deriving DecidableEq, Repr

/-- The queue of transactions for the processes of one manager. -/
structure TxController where
  txCh : List DockerVMMessage
  processWaiting : Bool
deriving DecidableEq, Repr

/-- The messages of a group's `eventCh`. -/
inductive GroupEvent where
  | processResp (msg : GetProcessRespMsg)
  | badContract (msg : BadContractResp)
deriving DecidableEq, Repr

structure RequestGroup where
  key : RequestGroupKey
  contractState : ContractState
  eventCh : List GroupEvent
  txCh : List DockerVMMessage
  bufCh : List DockerVMMessage
  getBytecodeTimer : Timer
  origTxController : TxController
  crossTxController : TxController
  contractFileVersion : ℤ
deriving DecidableEq, Repr

/-- What a group puts to the other components. -/
inductive GroupOut where
  | scheduler (msg : DockerVMMessage)
  | getBytecodeReq (txId : String) (key : RequestGroupKey)
  | removeContract (msg : BadContractResp)
  | getProcessReq (isOrig : Bool) (msg : GetProcessReqMsg)
deriving DecidableEq, Repr

/-- The process numbers that `getProcesses` reads from a process manager. -/
structure ProcessCounts where
  processNum : ℕ
  readyOrBusyProcessNum : ℕ
deriving DecidableEq, Repr

namespace RequestGroup

/-- `NewRequestGroup`. -/
def new (key : RequestGroupKey) : RequestGroup where
  key := key
  contractState := .empty
  eventCh := []
  txCh := []
  bufCh := []
  getBytecodeTimer := .forever
  origTxController := ⟨[], false⟩
  crossTxController := ⟨[], false⟩
  contractFileVersion := 0

/-- The controller of the original or of the cross transactions. -/
def controller (r : RequestGroup) (isOrig : Bool) : TxController :=
  if isOrig then r.origTxController else r.crossTxController

def setController (r : RequestGroup) (isOrig : Bool) (c : TxController) : RequestGroup :=
  if isOrig then { r with origTxController := c } else { r with crossTxController := c }

/-- `updateControllerState`. -/
def updateControllerState (r : RequestGroup) (isOrig toWaiting : Bool) : RequestGroup :=
  r.setController isOrig { r.controller isOrig with processWaiting := toWaiting }

/-- `enqueueCh`: append to the queue of the transaction's controller. -/
def enqueueCh (C : ChainConsts) (r : RequestGroup) (req : DockerVMMessage) : Go RequestGroup := do
  let o ← isOrig C req
  let c := r.controller o
  return r.setController o { c with txCh := c.txCh ++ [req] }

/-- `getProcesses`: ask the manager for as many processes as transactions would
    wait; nothing is asked while a request is open or the contract is missing. -/
def getProcesses (view : Bool → ProcessCounts) (r : RequestGroup) (isOrig : Bool) :
    RequestGroup × List GroupOut :=
  let c := r.controller isOrig
  if c.processWaiting ∨ r.contractState ≠ .ready then (r, [])
  else
    let v := view isOrig
    let needProcessNum : ℤ := c.txCh.length - (v.processNum - v.readyOrBusyProcessNum)
    if 0 < needProcessNum then
      (r.updateControllerState isOrig true, [.getProcessReq isOrig ⟨r.key, needProcessNum⟩])
    else (r, [])

/-- `sendGetContractReq`. -/
def sendGetContractReq (r : RequestGroup) (txId : String) : RequestGroup × List GroupOut :=
  ({ r with getBytecodeTimer := r.getBytecodeTimer.reset, contractState := .waiting },
    [.getBytecodeReq txId r.key])

/-- The answer to a transaction whose call depth is too large. -/
def depthErrorResp (C : ChainConsts) (r : RequestGroup) (txId : String) (q : TxRequest) :
    DockerVMMessage where
  chainId := r.key.chainID
  txId := txId
  type := .error
  crossContext := none
  request := none
  response := some ⟨.fail, "current depth exceed " ++ toString C.callContractDepth, r.key.chainID,
    q.contractName, q.contractVersion, []⟩

/-- `putTxReqToCh`; the flag tells whether the transaction was enqueued. -/
def putTxReqToCh (C : ChainConsts) (r : RequestGroup) (req : DockerVMMessage) :
    Go (RequestGroup × List GroupOut × Bool) :=
  match req.crossContext with
  | none => .ok (r, [], false)
  | some c =>
    if C.callContractDepth < c.currentDepth then
      match req.request with
      | none => .error .panics
      | some q => .ok (r, [.scheduler (depthErrorResp C r req.txId q)], false)
    else do
      let r ← enqueueCh C r req
      return (r, [], true)

/-- `handleTxReq`. -/
def handleTxReq (C : ChainConsts) (view : Bool → ProcessCounts) (r : RequestGroup)
    (req : DockerVMMessage) : Go (RequestGroup × List GroupOut) :=
  match r.contractState with
  | .empty => .ok (sendGetContractReq { r with bufCh := r.bufCh ++ [req] } req.txId)
  | .waiting => .ok ({ r with bufCh := r.bufCh ++ [req] }, [])
  | .ready => do
    let (r, outs, enqueued) ← putTxReqToCh C r req
    if enqueued then
      let o ← isOrig C req
      let (r, outs') := getProcesses view r o
      return (r, outs ++ outs')
    else return (r, outs)

/-- `handleGetBytecodeErr`: fail the first buffered transaction, and fetch again
    when others wait.  The receive from `bufCh` blocks when it is empty. -/
def handleGetBytecodeErr (r : RequestGroup) : Go (RequestGroup × List GroupOut) :=
  match r.bufCh with
  | [] => .error .blocks
  | tx :: rest =>
    let r := { r with contractState := .empty, bufCh := rest }
    let resp := GroupOut.scheduler (txErrorResp r.key.chainID tx.txId "get bytecode error")
    if 0 < rest.length then
      let (r, outs) := sendGetContractReq r tx.txId
      .ok (r, resp :: outs)
    else .ok (r, [resp])

/-- `handleGetBytecodeTimeout`. -/
def handleGetBytecodeTimeout (r : RequestGroup) : Go (RequestGroup × List GroupOut) :=
  handleGetBytecodeErr r

/-- `handleGetBytecodeFailed`. -/
def handleGetBytecodeFailed (r : RequestGroup) : Go (RequestGroup × List GroupOut) :=
  handleGetBytecodeErr r

/-- The loop `moveTxs`: `bufCh` into the controllers' queues. -/
def moveTxs (C : ChainConsts) : RequestGroup → List DockerVMMessage → Go RequestGroup
  | r, [] => .ok r
  | r, tx :: txs => do
    let r ← enqueueCh C r tx
    moveTxs C r txs

/-- `handleContractReadyResp`, on a response with the code `code`. -/
def handleContractReadyResp (C : ChainConsts) (view : Bool → ProcessCounts) (now : ℤ)
    (r : RequestGroup) (code : DockerVMCode) : Go (RequestGroup × List GroupOut) :=
  let r := { r with getBytecodeTimer := r.getBytecodeTimer.stopAndDrain }
  match code with
  | .fail => handleGetBytecodeFailed r
  | .ok => do
    let r := { r with contractState := .ready, contractFileVersion := now }
    let r ← moveTxs C { r with bufCh := [] } r.bufCh
    let (r, outs) := getProcesses view r true
    let (r, outs') := getProcesses view r false
    return (r, outs ++ outs')

/-- `handleProcessReadyResp`. -/
def handleProcessReadyResp (view : Bool → ProcessCounts) (r : RequestGroup)
    (msg : GetProcessRespMsg) : RequestGroup × List GroupOut :=
  getProcesses view (r.updateControllerState msg.isOrig false) msg.isOrig

/-- The test at the head of `handleBadContractResp`: the report is about the
    binary that the group uses. -/
def Accepts (r : RequestGroup) (msg : BadContractResp) : Prop :=
  r.contractState = .ready ∧ msg.contractFileVersion = r.contractFileVersion

instance (r : RequestGroup) (msg : BadContractResp) : Decidable (r.Accepts msg) :=
  inferInstanceAs (Decidable (_ ∧ _))

/-- `handleBadContractResp`. -/
def handleBadContractResp (r : RequestGroup) (msg : BadContractResp) :
    RequestGroup × List GroupOut :=
  if r.Accepts msg then
    let r := { r with contractState := .empty }
    if 0 < r.origTxController.txCh.length ∨ 0 < r.crossTxController.txCh.length then
      let (r, outs) := sendGetContractReq r msg.txId
      (r, .removeContract msg :: outs)
    else (r, [.removeContract msg])
  else (r, [])

/-! ## The group as a transition system -/

/-- A turn of the group's goroutine or a step of its environment. -/
inductive Action where
  /-- `PutMsg` of a transaction request or a bytecode response -/
  | putTx (msg : DockerVMMessage)
  /-- `PutMsg` of an event -/
  | putEvent (e : GroupEvent)
  /-- `<-r.txCh` and its handler -/
  | recvTx (view : Bool → ProcessCounts) (now : ℤ)
  /-- `<-r.eventCh` and its handler -/
  | recvEvent (view : Bool → ProcessCounts)
  /-- `<-r.getBytecodeTimer.C` and its handler -/
  | recvTimer
  /-- the runtime fires the timer -/
  | expire
  /-- a process receives from a controller's `txCh` -/
  | take (isOrig : Bool)

/-- The handler of a message of `txCh`. -/
def handleTxCh (C : ChainConsts) (view : Bool → ProcessCounts) (now : ℤ) (r : RequestGroup)
    (msg : DockerVMMessage) : Go (RequestGroup × List GroupOut) :=
  match msg.type with
  | .txRequest => handleTxReq C view r msg
  | .getBytecodeResponse =>
    match msg.response with
    | none => .error .panics
    | some resp => handleContractReadyResp C view now r resp.code
  | _ => .ok (r, [])

/-- The handler of a message of `eventCh`. -/
def handleEventCh (view : Bool → ProcessCounts) (r : RequestGroup) :
    GroupEvent → RequestGroup × List GroupOut
  | .processResp msg => handleProcessReadyResp view r msg
  | .badContract msg => handleBadContractResp r msg

/-- One step, with what the group puts to the other components. -/
def act (C : ChainConsts) (r : RequestGroup) : Action → Go (RequestGroup × List GroupOut)
  | .putTx msg => .ok ({ r with txCh := r.txCh ++ [msg] }, [])
  | .putEvent e => .ok ({ r with eventCh := r.eventCh ++ [e] }, [])
  | .recvTx view now =>
    match r.txCh with
    | [] => .error .blocks
    | msg :: rest => handleTxCh C view now { r with txCh := rest } msg
  | .recvEvent view =>
    match r.eventCh with
    | [] => .error .blocks
    | e :: rest => .ok (handleEventCh view { r with eventCh := rest } e)
  | .recvTimer =>
    match r.getBytecodeTimer.recv with
    | none => .error .blocks
    | some t => handleGetBytecodeTimeout { r with getBytecodeTimer := t }
  | .expire =>
    match r.getBytecodeTimer.expire with
    | none => .error .blocks
    | some t => .ok ({ r with getBytecodeTimer := t }, [])
  | .take isOrig =>
    match (r.controller isOrig).txCh with
    | [] => .error .blocks
    | _ :: rest =>
      .ok (r.setController isOrig { r.controller isOrig with txCh := rest }, [])

/-- The step function of the group alone. -/
def step (C : ChainConsts) (r : RequestGroup) (a : Action) : Option RequestGroup :=
  (act C r a).toOption.map Prod.fst

end RequestGroup

/-! ## What the handlers change -/

namespace RequestGroup
variable {C : ChainConsts} {view : Bool → ProcessCounts} {r r' : RequestGroup}

@[simp] theorem controller_setController (r : RequestGroup) (o o' : Bool) (c : TxController) :
    (r.setController o c).controller o' = if o = o' then c else r.controller o' := by
  cases o <;> cases o' <;> rfl

@[simp] theorem contractState_setController (r : RequestGroup) (o : Bool) (c : TxController) :
    (r.setController o c).contractState = r.contractState := by cases o <;> rfl

@[simp] theorem bufCh_setController (r : RequestGroup) (o : Bool) (c : TxController) :
    (r.setController o c).bufCh = r.bufCh := by cases o <;> rfl

@[simp] theorem timer_setController (r : RequestGroup) (o : Bool) (c : TxController) :
    (r.setController o c).getBytecodeTimer = r.getBytecodeTimer := by cases o <;> rfl

@[simp] theorem key_setController (r : RequestGroup) (o : Bool) (c : TxController) :
    (r.setController o c).key = r.key := by cases o <;> rfl

@[simp] theorem eventCh_setController (r : RequestGroup) (o : Bool) (c : TxController) :
    (r.setController o c).eventCh = r.eventCh := by cases o <;> rfl

@[simp] theorem txCh_setController (r : RequestGroup) (o : Bool) (c : TxController) :
    (r.setController o c).txCh = r.txCh := by cases o <;> rfl

/-- Two groups that agree on all that concerns fetching the contract. -/
structure SameFetch (r r' : RequestGroup) : Prop where
  contractState : r'.contractState = r.contractState
  bufCh : r'.bufCh = r.bufCh
  timer : r'.getBytecodeTimer = r.getBytecodeTimer

theorem SameFetch.refl (r : RequestGroup) : SameFetch r r := ⟨rfl, rfl, rfl⟩

theorem SameFetch.trans {r₁ r₂ r₃ : RequestGroup} (h : SameFetch r₁ r₂) (h' : SameFetch r₂ r₃) :
    SameFetch r₁ r₃ :=
  ⟨h'.1.trans h.1, h'.2.trans h.2, h'.3.trans h.3⟩

theorem sameFetch_setController (r : RequestGroup) (o : Bool) (c : TxController) :
    SameFetch r (r.setController o c) := by constructor <;> simp

theorem enqueueCh_eq {req : DockerVMMessage} (h : enqueueCh C r req = .ok r') :
    ∃ o, isOrig C req = .ok o ∧
      r' = r.setController o { r.controller o with txCh := (r.controller o).txCh ++ [req] } := by
  obtain ⟨o, ho, h⟩ := Go.bind_eq_ok.1 h
  cases h
  exact ⟨o, ho, rfl⟩

theorem sameFetch_enqueueCh {req : DockerVMMessage} (h : enqueueCh C r req = .ok r') :
    SameFetch r r' := by
  obtain ⟨o, -, rfl⟩ := enqueueCh_eq h
  exact sameFetch_setController _ _ _

theorem sameFetch_moveTxs {txs : List DockerVMMessage} (h : moveTxs C r txs = .ok r') :
    SameFetch r r' := by
  induction txs generalizing r with
  | nil => cases h; exact .refl _
  | cons tx txs ih =>
    obtain ⟨r₁, he, h⟩ := Go.bind_eq_ok.1 h
    exact (sameFetch_enqueueCh he).trans (ih h)

/-- `getProcesses` asks for processes and sets the flag, or does nothing. -/
theorem getProcesses_cases (view : Bool → ProcessCounts) (r : RequestGroup) (o : Bool) :
    getProcesses view r o = (r, []) ∨
      ((r.controller o).processWaiting = false ∧ r.contractState = .ready ∧
        ∃ n : ℤ, 0 < n ∧ n = (r.controller o).txCh.length -
            ((view o).processNum - (view o).readyOrBusyProcessNum) ∧
          getProcesses view r o =
            (r.updateControllerState o true, [.getProcessReq o ⟨r.key, n⟩])) := by
  unfold getProcesses
  by_cases h : (r.controller o).processWaiting = true ∨ r.contractState ≠ .ready
  · rw [if_pos h]; exact Or.inl rfl
  · rw [if_neg h]
    push Not at h
    obtain ⟨hw, hc⟩ := h
    dsimp only
    split_ifs with hn
    · exact Or.inr ⟨by simpa using hw, hc, _, hn, rfl, rfl⟩
    · exact Or.inl rfl

theorem sameFetch_getProcesses (view : Bool → ProcessCounts) (r : RequestGroup) (o : Bool) :
    SameFetch r (getProcesses view r o).1 := by
  rcases getProcesses_cases view r o with h | ⟨-, -, n, -, -, h⟩
  · rw [h]; exact .refl _
  · rw [h]; exact sameFetch_setController _ _ _

theorem sameFetch_handleProcessReadyResp (view : Bool → ProcessCounts) (r : RequestGroup)
    (msg : GetProcessRespMsg) : SameFetch r (handleProcessReadyResp view r msg).1 :=
  (sameFetch_setController _ _ _).trans (sameFetch_getProcesses _ _ _)

theorem putTxReqToCh_cases {req : DockerVMMessage} {outs : List GroupOut} {b : Bool}
    (h : putTxReqToCh C r req = .ok (r', outs, b)) :
    (b = true ∧ outs = [] ∧ enqueueCh C r req = .ok r') ∨ (b = false ∧ r' = r) := by
  unfold putTxReqToCh at h
  split at h
  · cases h; exact Or.inr ⟨rfl, rfl⟩
  · split_ifs at h
    · split at h
      · cases h
      · cases h; exact Or.inr ⟨rfl, rfl⟩
    · obtain ⟨r₁, he, h⟩ := Go.bind_eq_ok.1 h
      cases h
      exact Or.inl ⟨rfl, rfl, he⟩

/-! ## Steps -/

/-- The steps of a group, each with what it has read. -/
inductive ActCase (C : ChainConsts) (r : RequestGroup) :
    Action → RequestGroup → List GroupOut → Prop
  | putTx (msg : DockerVMMessage) : ActCase C r (.putTx msg) { r with txCh := r.txCh ++ [msg] } []
  | putEvent (e : GroupEvent) : ActCase C r (.putEvent e) { r with eventCh := r.eventCh ++ [e] } []
  | recvTx {view : Bool → ProcessCounts} {now : ℤ} {msg : DockerVMMessage}
      {rest : List DockerVMMessage} {r' : RequestGroup} {outs : List GroupOut} :
      r.txCh = msg :: rest → handleTxCh C view now { r with txCh := rest } msg = .ok (r', outs) →
      ActCase C r (.recvTx view now) r' outs
  | ready {view : Bool → ProcessCounts} {msg : GetProcessRespMsg} {rest : List GroupEvent} :
      r.eventCh = .processResp msg :: rest →
      ActCase C r (.recvEvent view) (handleProcessReadyResp view { r with eventCh := rest } msg).1
        (handleProcessReadyResp view { r with eventCh := rest } msg).2
  | bad {view : Bool → ProcessCounts} {msg : BadContractResp} {rest : List GroupEvent} :
      r.eventCh = .badContract msg :: rest →
      ActCase C r (.recvEvent view) (handleBadContractResp { r with eventCh := rest } msg).1
        (handleBadContractResp { r with eventCh := rest } msg).2
  | timeout {t : Timer} {r' : RequestGroup} {outs : List GroupOut} :
      r.getBytecodeTimer.recv = some t →
      handleGetBytecodeErr { r with getBytecodeTimer := t } = .ok (r', outs) →
      ActCase C r .recvTimer r' outs
  | expire {t : Timer} : r.getBytecodeTimer.expire = some t →
      ActCase C r .expire { r with getBytecodeTimer := t } []
  | take {o : Bool} {tx : DockerVMMessage} {rest : List DockerVMMessage} :
      (r.controller o).txCh = tx :: rest →
      ActCase C r (.take o) (r.setController o { r.controller o with txCh := rest }) []

theorem act_case {a : Action} {outs : List GroupOut} (h : act C r a = .ok (r', outs)) :
    ActCase C r a r' outs := by
  cases a with
  | putTx msg => cases h; exact .putTx msg
  | putEvent e => cases h; exact .putEvent e
  | recvTx view now =>
    simp only [act] at h
    split at h
    · cases h
    · rename_i msg rest hr
      exact .recvTx hr h
  | recvEvent view =>
    simp only [act] at h
    split at h
    · cases h
    · rename_i e rest hr
      cases e with
      | processResp msg =>
        obtain ⟨rfl, rfl⟩ : (handleProcessReadyResp view { r with eventCh := rest } msg).1 = r' ∧
          (handleProcessReadyResp view { r with eventCh := rest } msg).2 = outs :=
          Prod.mk.inj (Except.ok.inj h)
        exact .ready hr
      | badContract msg =>
        obtain ⟨rfl, rfl⟩ : (handleBadContractResp { r with eventCh := rest } msg).1 = r' ∧
          (handleBadContractResp { r with eventCh := rest } msg).2 = outs :=
          Prod.mk.inj (Except.ok.inj h)
        exact .bad hr
  | recvTimer =>
    simp only [act] at h
    split at h
    · cases h
    · rename_i t ht
      exact .timeout ht h
  | expire =>
    simp only [act] at h
    split at h
    · cases h
    · rename_i t ht
      cases h
      exact .expire ht
  | take o =>
    simp only [act] at h
    split at h
    · cases h
    · rename_i tx rest hq
      cases h
      exact .take hq

/-- The three outcomes of a report. -/
theorem handleBadContractResp_cases (r : RequestGroup) (msg : BadContractResp) :
    (r.Accepts msg ∧ (0 < r.origTxController.txCh.length ∨ 0 < r.crossTxController.txCh.length) ∧
      handleBadContractResp r msg =
        ((sendGetContractReq { r with contractState := .empty } msg.txId).1,
          .removeContract msg :: (sendGetContractReq { r with contractState := .empty } msg.txId).2)) ∨
    (r.Accepts msg ∧
      ¬ (0 < r.origTxController.txCh.length ∨ 0 < r.crossTxController.txCh.length) ∧
      handleBadContractResp r msg = ({ r with contractState := .empty }, [.removeContract msg])) ∨
    (¬ r.Accepts msg ∧ handleBadContractResp r msg = (r, [])) := by
  unfold handleBadContractResp
  by_cases hacc : r.Accepts msg
  · rw [if_pos hacc]
    dsimp only
    split_ifs with hq
    · exact Or.inl ⟨hacc, hq, rfl⟩
    · exact Or.inr (Or.inl ⟨hacc, hq, rfl⟩)
  · rw [if_neg hacc]
    exact Or.inr (Or.inr ⟨hacc, rfl⟩)

end RequestGroup

end VmEngine
