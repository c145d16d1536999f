/-
  `RuntimeInstance.Invoke` (`runtime.go`): the charges before the loop, and the loop that
  handles the messages of the sandbox and of the engine until the transaction ends.

  `beforeLoop` runs to the loop: registering the two notifiers never fails
  (`RegisterSandboxMsgNotify` and `registerNotify` return nil), and the request itself,
  with its parameters, is the subject of `RequestPool`.  `turn` is one turn of the loop.
  `handleGetByteCodeRequest` reads the request of the engine's message and does not touch
  the gas; its answer is the subject of `ByteCode`.
-/
import VmEngine.Runtime.Handlers
import VmEngine.Lib.System

namespace VmEngine.Runtime

/-- The arguments of a call of `Invoke`, and the key under which the engine knows it. -/
structure Invocation where
  contract : Contract
  method : Bytes
  byteCode : Bytes
  uniqueTxKey : Bytes

/-- A call of `Invoke`: in its loop, or with the result it returned. -/
inductive InvokeState (σ κ η : Type) where
  | running (gasUsed : UInt64) (specialTxType : ExecOrderTxType) (state : RuntimeState σ κ η)
  | returned (result : ContractResult) (txType : ExecOrderTxType) (state : RuntimeState σ κ η)

/-- What a turn of the loop receives: a message of the sandbox, with the orders in which its
    maps are enumerated, a message of the engine, or the timeout. -/
inductive Received where
  | sandbox (msg : DockerVMMessage) (ordRead ordWrite : MapOrder)
  | engine (msg : DockerVMMessage)
  | timeout

variable {σ κ η : Type}

namespace InvokeState

def state : InvokeState σ κ η → RuntimeState σ κ η
  | .running _ _ st | .returned _ _ st => st

/-- The gas used so far, or as reported in the result. -/
def gasUsed : InvokeState σ κ η → UInt64
  | .running gasUsed _ _ => gasUsed
  | .returned result _ _ => result.gasUsed

end InvokeState

/-- `contractResult` as `Invoke` starts with it. -/
def initialResult : ContractResult := ⟨1, [], [], 0, []⟩

variable (P : Protocol) (S : TxSimContext σ κ η)

/-- `getChainConfigDefaultGas`. -/
def getChainConfigDefaultGas : UInt64 :=
  match S.accountConfig with
  | some c => if c.defaultGas > 0 then c.defaultGas else 0
  | none => 0

/-- `Invoke` returns the result of an error with the gas used so far. -/
def InvokeState.fail (errMsg : Bytes) (gasUsed : UInt64) (st : RuntimeState σ κ η) :
    InvokeState σ κ η :=
  let r := errorResult { initialResult with gasUsed := gasUsed } errMsg
  .returned r.1 r.2 st

/-- `Invoke` up to its loop. -/
def beforeLoop (call : Invocation) (hasActiveConnections : Bool) (gasUsed : UInt64)
    (st : RuntimeState σ κ η) : InvokeState σ κ η :=
  if hasActiveConnections then
    if S.blockVersion < version2312 then
      match initFuncGasUsedLt2312 P gasUsed (getChainConfigDefaultGas S) with
      | (gasUsed, some err) => .fail err gasUsed st
      | (gasUsed, none) =>
        match contractGasUsed P gasUsed call.method call.contract.name call.byteCode with
        | (gasUsed, some err) => .fail err gasUsed st
        | (gasUsed, none) => .running gasUsed .normal st
    else .running gasUsed .normal st
  else .fail (text "contract engine client not connected") 0 st

/-- A system call was answered: the loop goes on, and the response is sent. -/
def Reply.goOn (specialTxType : ExecOrderTxType) (r : Reply σ κ η) :
    InvokeState σ κ η × Option DockerVMMessage :=
  (.running r.gasUsed specialTxType r.state, some r.response)

/-- A message of the sandbox. -/
def handleSandboxMsg (call : Invocation) (ordRead ordWrite : MapOrder) (recvMsg : DockerVMMessage)
    (gasUsed : UInt64) (specialTxType : ExecOrderTxType) (st : RuntimeState σ κ η) :
    Go (InvokeState σ κ η × Option DockerVMMessage) :=
  match recvMsg.type with
  | .getStateRequest =>
    (handleGetStateRequest P S call.uniqueTxKey recvMsg gasUsed st).map (Reply.goOn specialTxType)
  | .getBatchStateRequest =>
    -- forbidden before 2310: the sandbox is left without an answer
    if S.blockVersion < version2310 then .ok (.running gasUsed specialTxType st, none)
    else (handleGetBatchStateRequest P S call.uniqueTxKey recvMsg gasUsed st).map
      (Reply.goOn specialTxType)
  | .txResponse =>
    (handleTxResponse P S ordRead ordWrite S.txId recvMsg gasUsed specialTxType
      call.contract.name st).map fun r => (.returned r.1.1 r.1.2 r.2, none)
  | .callContractRequest =>
    (handlerCallContract P S call.uniqueTxKey recvMsg gasUsed call.contract st).map fun r =>
      r.1.goOn (if r.2 ≠ .normal then r.2 else specialTxType)
  | .createKvIteratorRequest =>
    (handleCreateKvIterator P S ordWrite call.uniqueTxKey recvMsg gasUsed call.contract.name st).map
      (Reply.goOn .iterator)
  | .consumeKvIteratorRequest =>
    (handleConsumeKvIterator P S call.uniqueTxKey recvMsg gasUsed st).map (Reply.goOn .iterator)
  | .createKeyHistoryIterRequest =>
    (handleCreateKeyHistoryIterator P S ordWrite call.uniqueTxKey recvMsg gasUsed call.contract.name
      st).map (Reply.goOn .iterator)
  | .consumeKeyHistoryIterRequest =>
    (handleConsumeKeyHistoryIterator P S call.uniqueTxKey recvMsg gasUsed st).map
      (Reply.goOn .iterator)
  | .getSenderAddressRequest =>
    (handleGetSenderAddress P S call.uniqueTxKey gasUsed st).map (Reply.goOn specialTxType)
  | _ => .ok (.fail (text "unknown msg type") gasUsed st, none)

/-- A message of the engine. -/
def handleEngineMsg (recvMsg : DockerVMMessage) (gasUsed : UInt64) (specialTxType : ExecOrderTxType)
    (st : RuntimeState σ κ η) : Go (InvokeState σ κ η × Option DockerVMMessage) :=
  match recvMsg.type with
  | .getBytecodeRequest =>
    match recvMsg.request with
    | none => .error .panics
    | some _ => .ok (.running gasUsed specialTxType st, none)
  | .error =>
    match recvMsg.response with
    | none => .error .panics
    | some r => .ok (.fail r.message gasUsed st, none)
  | _ => .ok (.fail (text "unknown msg type") gasUsed st, none)

/-- One turn of the loop, with the system response it sends. -/
def InvokeState.turn (call : Invocation) (s : InvokeState σ κ η) (r : Received) :
    Option (Go (InvokeState σ κ η × Option DockerVMMessage)) :=
  match s with
  | .returned .. => none
  | .running gasUsed specialTxType st =>
    some <| match r with
      | .sandbox msg ordRead ordWrite =>
        handleSandboxMsg P S call ordRead ordWrite msg gasUsed specialTxType st
      | .engine msg => handleEngineMsg msg gasUsed specialTxType st
      | .timeout => .ok (.fail (text "tx timeout") gasUsed st, none)

/-- The loop as a transition system: a turn that panics leads nowhere. -/
def InvokeState.step (call : Invocation) (s : InvokeState σ κ η) (r : Received) :
    Option (InvokeState σ κ η) :=
  (s.turn P S call r).bind fun t => t.toOption.map Prod.fst

/-- The first contract of a transaction, for concrete runs. -/
def Invocation.sample : Invocation := ⟨⟨text "fact", text "v1"⟩, text "invoke", [], text "tx1#1"⟩

/-- A new instance with an empty context, for concrete runs. -/
def RuntimeState.sample : RuntimeState SampleStore ℕ ℕ :=
  ⟨newRuntimeInstance (text "chain1"), .empty, fun _ => none⟩

end VmEngine.Runtime
