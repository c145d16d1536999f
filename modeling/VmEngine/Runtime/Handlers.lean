/-
  The handlers of sandbox messages (`runtime_handler.go`).

  A handler reads the message, the simulation context and the gas used so far, and
  returns the response, the new amount of gas and the new state of the runtime
  instance and of the context.  Reading a sub-message that is absent, or a position
  outside a slice, panics.  The responses keep what the source leaves in them: an error
  branch that goes on, or that does not set a code, leaves the success code of a fresh
  response.

  `handlerCallContract` is split where it calls `CallContract`: `startCallContract`
  ends with the call to make, `finishCallContract` goes on with its outcome.
-/
import VmEngine.Runtime.Merge

namespace VmEngine.Runtime

/-- The fields of a `RuntimeInstance` that its handlers change, and its chain. -/
structure RuntimeInstance where
  chainId : Bytes
  rowIndex : Int32
  event : List ContractEvent
deriving DecidableEq, Repr

/-- `InstancesManager.NewRuntimeInstance`. -/
def newRuntimeInstance (chainId : Bytes) : RuntimeInstance := ⟨chainId, 0, []⟩

/-- A runtime instance and the context of its transaction. -/
structure RuntimeState (σ κ η : Type) where
  inst : RuntimeInstance
  sim : SimContext σ κ η

/-- What a handler of a system call returns. -/
structure Reply (σ κ η : Type) where
  txId : Bytes
  type : DockerVMType
  message : SysCallMessage
  gasUsed : UInt64
  state : RuntimeState σ κ η

variable {σ κ η : Type}

/-- The response of a handler: `newEmptyResponse` with the call's results. -/
def Reply.response (r : Reply σ κ η) : DockerVMMessage where
  chainId := r.state.inst.chainId
  txId := r.txId
  type := r.type
  crossContext := none
  sysCallMessage := some r.message
  request := none
  response := none

/-- The state after an operation on the store. -/
def RuntimeState.withStore (st : RuntimeState σ κ η) (s : σ) : RuntimeState σ κ η :=
  { st with sim := { st.sim with store := s } }

/-- `atomic.AddInt32(&r.rowIndex, 1)` and `SetIterHandle` under the new index. -/
def RuntimeState.addIter (st : RuntimeState σ κ η) (h : Handle κ η) : RuntimeState σ κ η :=
  { inst := { st.inst with rowIndex := st.inst.rowIndex + 1 },
    sim := st.sim.setIterHandle (st.inst.rowIndex + 1) h }

variable (P : Protocol) (S : TxSimContext σ κ η)

/-! ## State -/

def handleGetStateRequest (txId : Bytes) (recvMsg : DockerVMMessage) (gasUsed : UInt64)
    (st : RuntimeState σ κ η) : Go (Reply σ κ η) :=
  match recvMsg.sysCallMessage with
  | none => .error .panics
  | some call =>
    match call.payload.lookup .contractName with
    | none => .ok ⟨txId, .getStateResponse, .failed (text "unknown contract name"), gasUsed, st⟩
    | some contractName =>
      let stateKey := call.payload.get .stateKey
      match S.get st.sim.store contractName stateKey with
      | (.error err, s) => .ok ⟨txId, .getStateResponse, .failed err, gasUsed, st.withStore s⟩
      | (.ok value, s) =>
        let payload := if S.blockVersion < version2310 ∨ value.isSome then
            [(PayloadKey.stateValue, value.getD [])] else []
        let keyList := split stateKey
        do
          let key ← index keyList 0
          let field ← secondIf (keyList.length = 2) keyList
          match getStateGasUsed P S.blockVersion (S.gasConfig P) gasUsed contractName key field
              (value.getD []) with
          | (gasUsed, some err) =>
            .ok ⟨txId, .getStateResponse, ⟨.fail, err, payload⟩, gasUsed, st.withStore s⟩
          | (gasUsed, none) =>
            .ok ⟨txId, .getStateResponse, ⟨.ok, [], payload⟩, gasUsed, st.withStore s⟩

def handleGetBatchStateRequest (txId : Bytes) (recvMsg : DockerVMMessage) (gasUsed : UInt64)
    (st : RuntimeState σ κ η) : Go (Reply σ κ η) :=
  match recvMsg.sysCallMessage with
  | none => .error .panics
  | some call =>
    match P.unmarshalBatchKeys (call.payload.get .stateKey) with
    | .error err => .ok ⟨txId, .getBatchStateResponse, .failed err, gasUsed, st⟩
    | .ok keys =>
      match S.getKeys st.sim.store keys with
      -- the code of the fresh response stays
      | (.error err, s) =>
        .ok ⟨txId, .getBatchStateResponse, ⟨.ok, err, []⟩, gasUsed, st.withStore s⟩
      | (.ok getKeys, s) =>
        match P.marshalBatchKeys getKeys with
        | .error err =>
          .ok ⟨txId, .getBatchStateResponse, ⟨.ok, err, []⟩, gasUsed, st.withStore s⟩
        | .ok payload =>
          match getBatchStateGasUsed P S.blockVersion (S.gasConfig P) gasUsed payload with
          | (gasUsed, some err) =>
            .ok ⟨txId, .getBatchStateResponse, ⟨.fail, err, [(.stateValue, payload)]⟩, gasUsed,
              st.withStore s⟩
          | (gasUsed, none) =>
            .ok ⟨txId, .getBatchStateResponse, ⟨.ok, [], [(.stateValue, payload)]⟩, gasUsed,
              st.withStore s⟩

/-! ## Key-value iterators -/

def funcKvIteratorCreate : Bytes := text "createKvIterator"
def funcKvPreIteratorCreate : Bytes := text "createKvPreIterator"
def funcKvIteratorHasNext : Bytes := text "kvIteratorHasNext"
def funcKvIteratorNext : Bytes := text "kvIteratorNext"
def funcKvIteratorClose : Bytes := text "kvIteratorClose"

/-- `kvIteratorCreate`: the iterator or an error, the gas used and the store. -/
def kvIteratorCreate (calledContractName : Bytes) (params : Payload) (gasUsed : UInt64) (s : σ) :
    Except Bytes (Option κ) × UInt64 × σ :=
  match createKvIteratorGasUsed P S.blockVersion (S.gasConfig P) params gasUsed with
  | (gasUsed, some err) => (.error err, gasUsed, s)
  | (gasUsed, none) =>
    match P.checkKeyFieldStr (params.get .iterLimitKey) (params.get .iterLimitField) with
    | some err => (.error err, gasUsed, s)
    | none =>
      let key := P.getKeyStr (params.get .iterStartKey) (params.get .iterStartField)
      let limit := P.getKeyStr (params.get .iterLimitKey) (params.get .iterLimitField)
      let r := S.select s calledContractName key limit
      (r.1, gasUsed, r.2)

/-- `keyStr[:len(keyStr)-1] + string(keyStr[len(keyStr)-1] + 1)`: the last byte is
    incremented as a byte and converted as a code point. -/
def prefixLimit (key : Bytes) : Go Bytes := do
  let last ← index key (key.length - 1)
  .ok (key.take (key.length - 1) ++ String.utf8EncodeChar (Char.ofNat (last + 1).toNat))

/-- The branch `createKvPreIterator`. -/
def kvPreIteratorCreate (calledContractName : Bytes) (params : Payload) (gasUsed : UInt64) (s : σ) :
    Go (Except Bytes (Option κ) × UInt64 × σ) :=
  match createKvIteratorGasUsed P S.blockVersion (S.gasConfig P) params gasUsed with
  | (gasUsed, some err) => .ok (.error err, gasUsed, s)
  | (gasUsed, none) => do
    let key := P.getKeyStr (params.get .iterStartKey) (params.get .iterStartField)
    let limit ← prefixLimit key
    let r := S.select s calledContractName key limit
    .ok (r.1, gasUsed, r.2)

/-- The `switch` over the function name; another name creates nothing. -/
def kvIteratorOf (createFunc calledContractName : Bytes) (params : Payload) (gasUsed : UInt64)
    (s : σ) : Go (Except Bytes (Option κ) × UInt64 × σ) :=
  if createFunc = funcKvIteratorCreate then
    .ok (kvIteratorCreate P S calledContractName params gasUsed s)
  else if createFunc = funcKvPreIteratorCreate then
    kvPreIteratorCreate P S calledContractName params gasUsed s
  else .ok (.ok none, gasUsed, s)

def Handle.ofKv : Option κ → Handle κ η
  | some iter => .kv iter
  | none => .nil

/-- An error branch of `handleCreateKvIterator`: it keeps the error's text and charges the
    creation, and ends the request only if that charge fails.  `error` holds the response
    and the gas with which it ends, `ok` the text and the gas with which it goes on. -/
def noteCreateErr (params : Payload) (err : Option Bytes) (note : Bytes × UInt64) :
    Except (SysCallMessage × UInt64) (Bytes × UInt64) :=
  match err with
  | none => .ok note
  | some err =>
    match createKvIteratorGasUsed P S.blockVersion (S.gasConfig P) params note.2 with
    | (gasUsed, some _) => .error (.failed err, gasUsed)
    | (gasUsed, none) => .ok (err, gasUsed)

def handleCreateKvIterator (ord : MapOrder) (txId : Bytes) (recvMsg : DockerVMMessage)
    (gasUsed : UInt64) (contractName : Bytes) (st : RuntimeState σ κ η) : Go (Reply σ κ η) :=
  match recvMsg.sysCallMessage with
  | none => .error .panics
  | some call =>
    let decoded := P.unmarshalWriteMap (call.payload.get .writeMap)
    match noteCreateErr P S call.payload decoded.1 ([], gasUsed) with
    | .error (m, gasUsed) => .ok ⟨txId, .createKvIteratorResponse, m, gasUsed, st⟩
    | .ok (note, gasUsed) =>
      let merged := mergeSimContextWriteMap P S ord decoded.2 gasUsed contractName st.sim.store
      let st := st.withStore merged.store
      match noteCreateErr P S call.payload merged.err (note, merged.gasUsed) with
      | .error (m, gasUsed) => .ok ⟨txId, .createKvIteratorResponse, m, gasUsed, st⟩
      | .ok (note, gasUsed) =>
        let keyErr := P.checkKeyFieldStr (call.payload.get .iterStartKey)
          (call.payload.get .iterStartField)
        match noteCreateErr P S call.payload keyErr (note, gasUsed) with
        | .error (m, gasUsed) => .ok ⟨txId, .createKvIteratorResponse, m, gasUsed, st⟩
        | .ok (note, gasUsed) => do
          let r ← kvIteratorOf P S (call.payload.get .iteratorFuncName)
            (call.payload.get .contractName) call.payload gasUsed st.sim.store
          let st := st.withStore r.2.2
          match r.1 with
          | .error err => .ok ⟨txId, .createKvIteratorResponse, .failed err, r.2.1, st⟩
          | .ok iter =>
            let st := st.addIter (.ofKv iter)
            .ok ⟨txId, .createKvIteratorResponse,
              ⟨.ok, note, [(.iterIndex, P.intToBytes st.inst.rowIndex)]⟩, r.2.1, st⟩

/-- `config.BoolTrue` and `config.BoolFalse`. -/
def goBool (b : Bool) : Int32 := if b then 1 else 0

/-- The response, the gas used and the store after a step on an iterator. -/
structure Consumed (σ : Type) where
  message : SysCallMessage
  gasUsed : UInt64
  store : σ

/-- `kvIteratorHasNext` and `keyHistoryIterHasNext`. -/
def iterHasNext (charged : UInt64 × Option Bytes) (next : σ → Bool × σ) (s : σ) : Consumed σ :=
  match charged with
  | (gasUsed, some err) => ⟨.failed err, gasUsed, s⟩
  | (gasUsed, none) =>
    let r := next s
    ⟨⟨.ok, [], [(.iteratorHasNext, P.intToBytes (goBool r.1))]⟩, gasUsed, r.2⟩

/-- `kvIteratorClose` and `keyHistoryIterClose`. -/
def iterClose (charged : UInt64 × Option Bytes) (release : σ → σ) (s : σ) : Consumed σ :=
  match charged with
  | (gasUsed, some err) => ⟨.failed err, gasUsed, s⟩
  | (gasUsed, none) => ⟨⟨.ok, [], []⟩, gasUsed, release s⟩

def kvIteratorHasNext (iter : κ) (gasUsed : UInt64) (s : σ) : Consumed σ :=
  iterHasNext P (consumeKvIteratorGasUsed P S.blockVersion (S.gasConfig P) gasUsed)
    (S.kvNext · iter) s

def kvIteratorClose (iter : κ) (gasUsed : UInt64) (s : σ) : Consumed σ :=
  iterClose (consumeKvIteratorGasUsed P S.blockVersion (S.gasConfig P) gasUsed)
    (S.kvRelease · iter) s

def msgIterIsNil : Bytes := text "iterator is nil"

/-- The charge that only versions before 2312 make. -/
def chargeLt2312 (charge : UInt64 → UInt64 × Option Bytes) (gasUsed : UInt64) :
    UInt64 × Option Bytes :=
  if S.blockVersion < version2312 then charge gasUsed else (gasUsed, none)

def kvIteratorNext (iter : Option κ) (gasUsed : UInt64) (s : σ) : Go (Consumed σ) :=
  match chargeLt2312 S (consumeKvIteratorGasUsedLt2312 P) gasUsed with
  | (gasUsed, some err) => .ok ⟨.failed err, gasUsed, s⟩
  | (gasUsed, none) =>
    match iter with
    | none => .ok ⟨.failed msgIterIsNil, gasUsed, s⟩
    | some iter =>
      match S.kvValue s iter with
      | (.error err, s) => .ok ⟨.failed err, gasUsed, s⟩
      -- at the end of the iterator the row is nil
      | (.ok none, _) => .error .panics
      | (.ok (some kvRow), s) => do
        let arrKey := split kvRow.key
        let key ← index arrKey 0
        let field ← secondIf (1 < arrKey.length) arrKey
        let payload := [(PayloadKey.userKey, key), (.userField, field), (.stateValue, kvRow.value)]
        if version2312 ≤ S.blockVersion then
          match consumeKvIteratorNextGasUsed2312 (S.gasConfig P) gasUsed key field kvRow.value with
          | (gasUsed, some err) => .ok ⟨.failed err, gasUsed, s⟩
          | (gasUsed, none) => .ok ⟨⟨.ok, [], payload⟩, gasUsed, s⟩
        else .ok ⟨⟨.ok, [], payload⟩, gasUsed, s⟩

/-- The end of a key-value request whose iterator is not found: the consumption is charged,
    and only if that fails does the response get the failure code. -/
def consumeKvNotFound (message : Bytes) (gasUsed : UInt64) (s : σ) : Consumed σ :=
  match consumeKvIteratorGasUsed P S.blockVersion (S.gasConfig P) gasUsed with
  | (gasUsed, some err) => ⟨.failed err, gasUsed, s⟩
  | (gasUsed, none) => ⟨⟨.ok, message, []⟩, gasUsed, s⟩

/-- The `switch` over the function name. -/
def consumeKv (func : Bytes) (iter : κ) (gasUsed : UInt64) (s : σ) : Go (Consumed σ) :=
  if func = funcKvIteratorHasNext then .ok (kvIteratorHasNext P S iter gasUsed s)
  else if func = funcKvIteratorNext then kvIteratorNext P S (some iter) gasUsed s
  else if func = funcKvIteratorClose then .ok (kvIteratorClose P S iter gasUsed s)
  else .ok ⟨.failed (func ++ text " not found"), gasUsed, s⟩

/-- The iterator under an index, which must be a `StateIterator`, and the step on it. -/
def consumeKvAt (payload : Payload) (gasUsed : UInt64) (sim : SimContext σ κ η) : Go (Consumed σ) :=
  match P.bytesToInt (payload.get .iterIndex) with
  | .error _ => .ok (consumeKvNotFound P S [] gasUsed sim.store)
  | .ok i =>
    match sim.iterHandles i with
    | none => .ok (consumeKvNotFound P S
        (text ("[kv iterator consume] can not found iterator index [" ++ toString i.toInt ++ "]"))
        gasUsed sim.store)
    | some (.kv iter) => consumeKv P S (payload.get .iteratorFuncName) iter gasUsed sim.store
    | some _ => .ok (consumeKvNotFound P S
        (text ("[kv iterator consume] failed, iterator " ++ toString i.toInt ++ " assertion failed"))
        gasUsed sim.store)

def handleConsumeKvIterator (txId : Bytes) (recvMsg : DockerVMMessage) (gasUsed : UInt64)
    (st : RuntimeState σ κ η) : Go (Reply σ κ η) :=
  match recvMsg.sysCallMessage with
  | none => .error .panics
  | some call => do
    let c ← consumeKvAt P S call.payload gasUsed st.sim
    .ok ⟨txId, .consumeKvIteratorResponse, c.message, c.gasUsed, st.withStore c.store⟩

/-! ## Key history iterators -/

def funcKeyHistoryIterHasNext : Bytes := text "keyHistoryIterHasNext"
def funcKeyHistoryIterNext : Bytes := text "keyHistoryIterNext"
def funcKeyHistoryIterClose : Bytes := text "keyHistoryIterClose"

def Handle.ofHistory : Option η → Handle κ η
  | some iter => .history iter
  | none => .nil

def handleCreateKeyHistoryIterator (ord : MapOrder) (txId : Bytes) (recvMsg : DockerVMMessage)
    (gasUsed : UInt64) (contractName : Bytes) (st : RuntimeState σ κ η) : Go (Reply σ κ η) :=
  match recvMsg.sysCallMessage with
  | none => .error .panics
  | some call =>
    match createKeyHistoryIterGasUsed P S.blockVersion (S.gasConfig P) call.payload gasUsed with
    | (gasUsed, some err) => .ok ⟨txId, .createKeyHistoryTerResponse, .failed err, gasUsed, st⟩
    | (gasUsed, none) =>
      match P.unmarshalWriteMap (call.payload.get .writeMap) with
      | (some err, _) => .ok ⟨txId, .createKeyHistoryTerResponse, .failed err, gasUsed, st⟩
      | (none, writeMap) =>
        let merged := mergeSimContextWriteMap P S ord writeMap gasUsed contractName st.sim.store
        let st := st.withStore merged.store
        match merged.err with
        | some err =>
          .ok ⟨txId, .createKeyHistoryTerResponse, .failed err, merged.gasUsed, st⟩
        | none =>
          let keyStr := call.payload.get .historyIterKey
          let field := call.payload.get .historyIterField
          match P.checkKeyFieldStr keyStr field with
          | some err =>
            .ok ⟨txId, .createKeyHistoryTerResponse, .failed err, merged.gasUsed, st⟩
          | none =>
            match S.getHistoryIterForKey st.sim.store (call.payload.get .contractName)
                (P.getKeyStr keyStr field) with
            | (.error err, s) =>
              .ok ⟨txId, .createKeyHistoryTerResponse, .failed err, merged.gasUsed, st.withStore s⟩
            | (.ok iter, s) =>
              let st := (st.withStore s).addIter (.ofHistory iter)
              .ok ⟨txId, .createKeyHistoryTerResponse,
                ⟨.ok, [], [(.iterIndex, P.intToBytes st.inst.rowIndex)]⟩, merged.gasUsed, st⟩

def keyHistoryIterHasNext (iter : η) (gasUsed : UInt64) (s : σ) : Consumed σ :=
  iterHasNext P (consumeKeyHistoryIterGasUsed P S.blockVersion (S.gasConfig P) gasUsed)
    (S.historyNext · iter) s

def keyHistoryIterClose (iter : η) (gasUsed : UInt64) (s : σ) : Consumed σ :=
  iterClose (consumeKeyHistoryIterGasUsed P S.blockVersion (S.gasConfig P) gasUsed)
    (S.historyRelease · iter) s

def keyHistoryIterNext (iter : Option η) (gasUsed : UInt64) (s : σ) : Go (Consumed σ) :=
  match chargeLt2312 S (consumeKeyHistoryIterGasUsedLt2312 P) gasUsed with
  | (gasUsed, some err) => .ok ⟨.failed err, gasUsed, s⟩
  | (gasUsed, none) =>
    match iter with
    | none => .ok ⟨.failed msgIterIsNil, gasUsed, s⟩
    | some iter =>
      match S.historyValue s iter with
      | (.error err, s) => .ok ⟨.failed err, gasUsed, s⟩
      | (.ok none, _) => .error .panics
      | (.ok (some v), s) =>
        let payload := [(PayloadKey.txId, v.txId),
          (.blockHeight, P.intToBytes (Int32.ofNat v.blockHeight.toNat)), (.stateValue, v.value),
          (.isDelete, P.intToBytes (goBool v.isDelete)), (.timestamp, text (toString v.timestamp.toInt))]
        if version2312 ≤ S.blockVersion then
          match consumeKeyHistoryIterNextGasUsed2312 (S.gasConfig P) gasUsed v.value with
          | (gasUsed, some err) => .ok ⟨.failed err, gasUsed, s⟩
          | (gasUsed, none) => .ok ⟨⟨.ok, [], payload⟩, gasUsed, s⟩
        else .ok ⟨⟨.ok, [], payload⟩, gasUsed, s⟩

/-- The `switch` over the function name.  Only its default returns `currentGasUsed`. -/
def consumeKeyHistory (func : Bytes) (iter : η) (gasUsed currentGasUsed : UInt64) (s : σ) :
    Go (Consumed σ) :=
  if func = funcKeyHistoryIterHasNext then .ok (keyHistoryIterHasNext P S iter gasUsed s)
  else if func = funcKeyHistoryIterNext then keyHistoryIterNext P S (some iter) gasUsed s
  else if func = funcKeyHistoryIterClose then .ok (keyHistoryIterClose P S iter gasUsed s)
  else .ok ⟨.failed (func ++ text " not found"), currentGasUsed, s⟩

/-- `currentGasUsed` and its error: a charge before version 2312, otherwise the zero value of
    the variable. -/
def currentGasUsed (gasUsed : UInt64) : UInt64 × Option Bytes :=
  if S.blockVersion < version2312 then consumeKvIteratorGasUsedLt2312 P gasUsed else (0, none)

/-- The iterator under an index, which must be a `KeyHistoryIterator`, and the step on it. -/
def consumeKeyHistoryAt (payload : Payload) (gasUsed current : UInt64) (sim : SimContext σ κ η) :
    Go (Consumed σ) :=
  match P.bytesToInt (payload.get .iterIndex) with
  | .error err => .ok ⟨.failed err, current, sim.store⟩
  | .ok i =>
    match sim.iterHandles i with
    | none => .ok ⟨.failed (text ("[key history iterator consume] can not found iterator index [" ++
        toString i.toInt ++ "]")), current, sim.store⟩
    | some (.history iter) =>
      consumeKeyHistory P S (payload.get .iteratorFuncName) iter gasUsed current sim.store
    | some _ => .ok ⟨.failed (text "assertion failed"), current, sim.store⟩

def handleConsumeKeyHistoryIterator (txId : Bytes) (recvMsg : DockerVMMessage) (gasUsed : UInt64)
    (st : RuntimeState σ κ η) : Go (Reply σ κ η) :=
  match currentGasUsed P S gasUsed with
  | (current, some err) =>
    .ok ⟨txId, .consumeKeyHistoryIterResponse, .failed err, current, st⟩
  | (current, none) =>
    match recvMsg.sysCallMessage with
    | none => .error .panics
    | some call => do
      let c ← consumeKeyHistoryAt P S call.payload gasUsed current st.sim
      .ok ⟨txId, .consumeKeyHistoryIterResponse, c.message, c.gasUsed, st.withStore c.store⟩

/-! ## The sender's address -/

def handleGetSenderAddress (txId : Bytes) (gasUsed : UInt64) (st : RuntimeState σ κ η) :
    Go (Reply σ κ η) :=
  match getSenderAddressGasUsed P gasUsed with
  | (gasUsed, some err) => .ok ⟨txId, .getSenderAddressResponse, .failed err, gasUsed, st⟩
  | (gasUsed, none) =>
    match S.getSenderAddress st.sim.store with
    | (.error err, s) => .ok ⟨txId, .getSenderAddressResponse, .failed err, gasUsed, st.withStore s⟩
    | (.ok address, s) =>
      let address := if S.addrTypeZXL then text "ZX" ++ address else address
      .ok ⟨txId, .getSenderAddressResponse, ⟨.ok, [], [(.senderAddr, address)]⟩, gasUsed,
        st.withStore s⟩

/-! ## Events and cross-contract calls -/

/-- Charging and caching events one by one: the gas used, the error that stopped it, and the
    event cache. -/
def emitEvents : List ContractEvent → UInt64 → List ContractEvent →
    UInt64 × Option Bytes × List ContractEvent
  | [], gasUsed, cache => (gasUsed, none, cache)
  | e :: es, gasUsed, cache =>
    match emitEventGasUsed P S.blockVersion (S.gasConfig P) gasUsed e with
    | (gasUsed, some err) => (gasUsed, some err, cache)
    | (gasUsed, none) => emitEvents es gasUsed (cache ++ [e])

/-- A request to call a contract, up to the call: it is answered, or the call is made. -/
inductive CallStart (σ κ η : Type) where
  | answered (reply : Reply σ κ η)
  | calls (call : CrossCall) (state : RuntimeState σ κ η)

def startCallContract (txId : Bytes) (recvMsg : DockerVMMessage) (gasUsed : UInt64)
    (caller : Contract) (st : RuntimeState σ κ η) : Go (CallStart σ κ η) :=
  match recvMsg.sysCallMessage with
  | none => .error .panics
  | some call =>
    let answer := fun err gasUsed st =>
      CallStart.answered ⟨txId, .callContractResponse, .failed err, gasUsed, st⟩
    match P.unmarshalCallContractRequest (call.payload.get .callContractReq) with
    | .error err => .ok (answer err gasUsed st)
    | .ok req =>
      if req.contractName.length = 0 then .ok (answer (text "missing contract name") gasUsed st)
      else if req.contractMethod.length = 0 then
        .ok (answer (text "missing contract method") gasUsed st)
      else
        match recvMsg.crossContext with
        | none => .error .panics
        | some cross =>
          if cross.currentDepth > P.callContractDepth then
            .ok (answer (text "exceed max depth") gasUsed st)
          else
            match S.getContractByName st.sim.store req.contractName with
            | (.error err, s) =>
              .ok (answer (text "[call contract] failed to get contract by [" ++ req.contractName ++
                text "], err: " ++ err) gasUsed (st.withStore s))
            | (.ok contract, s) =>
              match callContractGasUsed P S.blockVersion (S.gasConfig P) gasUsed req.contractName
                  req.contractMethod req.args with
              | (gasUsed, some err) =>
                .ok (answer (text "[call contract] failed to subtract gas by [" ++
                  req.contractName ++ text "], err: " ++ err) gasUsed (st.withStore s))
              | (gasUsed, none) =>
                .ok (.calls ⟨caller, contract, req.contractMethod, req.args, gasUsed⟩ (st.withStore s))

/-- `constructCallContractResponse`. -/
def constructCallContractResponse (result : ContractResult) (contractName : Bytes) (s : σ) :
    ContractResponse where
  status := result.code
  message := result.message
  payload := result.result
  readMap := (S.getTxRWMapByContractName s contractName).1
  writeMap := (S.getTxRWMapByContractName s contractName).2

/-- The rest of a request whose call returned. -/
def finishCallContract (txId : Bytes) (call : CrossCall) (out : CallOutcome)
    (st : RuntimeState σ κ η) : Reply σ κ η × ExecOrderTxType :=
  match out.code with
  | .failure name =>
    (⟨txId, .callContractResponse,
      ⟨.fail, text "[call contract] execute error code: " ++ name ++ text ", msg: " ++
        out.result.message, [(.callContractResp, out.result.result)]⟩, call.gasUsed, st⟩, out.txType)
  | .success =>
    match emitEvents P S out.result.contractEvent out.result.gasUsed st.inst.event with
    | (gasUsed, some err, events) =>
      (⟨txId, .callContractResponse, .failed err, gasUsed,
        { st with inst := { st.inst with event := events } }⟩, out.txType)
    | (gasUsed, none, events) =>
      let st := { st with inst := { st.inst with event := events } }
      match P.marshalContractResponse
          (constructCallContractResponse S out.result call.caller.name st.sim.store) with
      | .error err => (⟨txId, .callContractResponse, .failed err, gasUsed, st⟩, out.txType)
      | .ok respBytes =>
        (⟨txId, .callContractResponse, ⟨.ok, [], [(.callContractResp, respBytes)]⟩, gasUsed, st⟩,
          out.txType)

def handlerCallContract (txId : Bytes) (recvMsg : DockerVMMessage) (gasUsed : UInt64)
    (caller : Contract) (st : RuntimeState σ κ η) : Go (Reply σ κ η × ExecOrderTxType) := do
  match ← startCallContract P S txId recvMsg gasUsed caller st with
  | .answered reply => .ok (reply, .normal)
  | .calls call st =>
    let r := S.callContract st.sim call
    .ok (finishCallContract P S txId call r.1 { st with sim := r.2 })

/-! ## The transaction's response -/

/-- `errorResult`. -/
def errorResult (contractResult : ContractResult) (errMsg : Bytes) :
    ContractResult × ExecOrderTxType :=
  ({ contractResult with code := 1, message := errMsg }, .normal)

/-- The chain's event for an event of the sandbox. -/
def DockerContractEvent.toEvent (txId : Bytes) (e : DockerContractEvent) : ContractEvent :=
  ⟨e.topic, txId, e.contractName, e.data⟩

def handleTxResponse (ordRead ordWrite : MapOrder) (txId : Bytes) (recvMsg : DockerVMMessage)
    (gasUsed : UInt64) (txType : ExecOrderTxType) (contractName : Bytes)
    (st : RuntimeState σ κ η) :
    Go ((ContractResult × ExecOrderTxType) × RuntimeState σ κ η) :=
  match recvMsg.response with
  | none => .error .panics
  | some txResponse =>
    if txResponse.code ≠ .ok then
      .ok ((⟨1, txResponse.result, txResponse.message, gasUsed, []⟩, .normal), st)
    else
      let contractResult : ContractResult := ⟨0, txResponse.result, txResponse.message, 0, []⟩
      match mergeSimContextReadMap P S ordRead txResponse.readMap contractName st.sim.store with
      | (some _, s) =>
        .ok (errorResult contractResult (text "fail to put in sim context"), st.withStore s)
      | (none, s) =>
        let merged := mergeSimContextWriteMap P S ordWrite txResponse.writeMap gasUsed contractName s
        let st := st.withStore merged.store
        match merged.err with
        | some _ =>
          .ok (errorResult { contractResult with gasUsed := merged.gasUsed }
            (text "fail to put in sim context"), st)
        | none =>
          match emitEvents P S (txResponse.events.map (DockerContractEvent.toEvent txId))
              merged.gasUsed st.inst.event with
          | (gasUsed, some err, events) =>
            .ok (errorResult { contractResult with gasUsed := gasUsed } err,
              { st with inst := { st.inst with event := events } })
          | (gasUsed, none, events) =>
            .ok (({ contractResult with gasUsed := gasUsed, contractEvent := events }, txType),
              { st with inst := { st.inst with event := events } })

end VmEngine.Runtime
