/-
  The messages of the chain node (`pb/protogo`) and the code outside the repository
  that the runtime calls: the constants and codecs of the chain's packages
  (`Protocol`) and the transaction's simulation context (`TxSimContext`).

  Go strings and byte slices are lists of bytes.  A pointer that may be nil is an
  `Option`; a nil slice differs from an empty one only where the source tests for it.
  A Go map is the list of its entries, and `MapOrder` is an order in which `range`
  meets them.  Errors are known by their texts.  Fields that no handler reads, the
  time statistics and the loggers are left out.
-/
import VmEngine.Core.Messages

namespace VmEngine.Runtime

abbrev Bytes := List UInt8

/-- The bytes of a Go string constant. -/
def text (s : String) : Bytes := s.toUTF8.data.toList

/-- The element at a position; outside the slice the access panics. -/
def index {α : Type} (l : List α) (i : ℕ) : Go α :=
  match l[i]? with
  | some a => .ok a
  | none => .error .panics

/-- The second element where a condition holds, else the empty string. -/
def secondIf (c : Bool) (l : List Bytes) : Go Bytes := if c then index l 1 else .ok []

/-- `strings.Split(s, "#")`. -/
def split (s : Bytes) : List Bytes := s.splitOn 35

/-! ## Maps -/

/-- A `map[string][]byte`. -/
structure GoMap where
  entries : List (Bytes × Bytes)
  nodup : (entries.map Prod.fst).Nodup

def GoMap.empty : GoMap := ⟨[], List.nodup_nil⟩

/-- An order in which `range` enumerates each map. -/
structure MapOrder where
  enum : GoMap → List (Bytes × Bytes)
  perm : ∀ m, (enum m).Perm m.entries

/-- The order in which the entries are listed. -/
def MapOrder.listed : MapOrder := ⟨GoMap.entries, fun _ => .refl _⟩

/-- The opposite order. -/
def MapOrder.reversed : MapOrder := ⟨fun m => m.entries.reverse, fun _ => List.reverse_perm _⟩

/-! ## Messages -/

/-- `protogo.DockerVMType`; a number without a name is treated like `undefined`. -/
inductive DockerVMType where
  | undefined
  | register
  | registered
  | prepare
  | ready
  | init
  | invoke
  | txRequest
  | txResponse
  | getStateRequest
  | getStateResponse
  | getBytecodeRequest
  | getBytecodeResponse
  | callContractRequest
  | callContractResponse
  | completed
  | error
  | createKvIteratorRequest
  | createKvIteratorResponse
  | consumeKvIteratorRequest
  | consumeKvIteratorResponse
  | createKeyHistoryIterRequest
  | createKeyHistoryTerResponse
  | consumeKeyHistoryIterRequest
  | consumeKeyHistoryIterResponse
  | getSenderAddressRequest
  | getSenderAddressResponse
  | getBatchStateRequest
  | getBatchStateResponse
deriving DecidableEq, Repr

/-- The keys of `config` under which payloads are read and written. -/
inductive PayloadKey where
  | senderAddr
  | callContractResp
  | callContractReq
  | stateKey
  | userKey
  | userField
  | stateValue
  | iterIndex
  | historyIterKey
  | historyIterField
  | contractName
  | iteratorFuncName
  | iterStartKey
  | iterStartField
  | iterLimitKey
  | iterLimitField
  | writeMap
  | iteratorHasNext
  | txId
  | blockHeight
  | isDelete
  | timestamp
deriving DecidableEq, Repr

abbrev Payload := List (PayloadKey × Bytes)

/-- `payload[key]`: a missing key reads as nil. -/
def Payload.get (p : Payload) (k : PayloadKey) : Bytes := (p.lookup k).getD []

structure SysCallMessage where
  code : DockerVMCode
  message : Bytes
  payload : Payload
deriving DecidableEq, Repr

/-- A response with the failure code, the text of an error and no payload. -/
def SysCallMessage.failed (err : Bytes) : SysCallMessage := ⟨.fail, err, []⟩

structure CrossContext where
  currentDepth : UInt32
  processName : Bytes
deriving DecidableEq, Repr

structure TxRequest where
  chainId : Bytes
  contractName : Bytes
  contractVersion : Bytes
deriving DecidableEq, Repr

structure DockerContractEvent where
  topic : Bytes
  contractName : Bytes
  data : List Bytes
deriving DecidableEq, Repr

structure TxResponse where
  code : DockerVMCode
  result : Bytes
  message : Bytes
  writeMap : GoMap
  readMap : GoMap
  events : List DockerContractEvent

/-- `protogo.DockerVMMessage`. -/
structure DockerVMMessage where
  chainId : Bytes
  txId : Bytes
  type : DockerVMType
  crossContext : Option CrossContext
  sysCallMessage : Option SysCallMessage
  request : Option TxRequest
  response : Option TxResponse

/-! ## The chain's types -/

structure Contract where
  name : Bytes
  version : Bytes
deriving DecidableEq, Repr

structure ContractEvent where
  topic : Bytes
  txId : Bytes
  contractName : Bytes
  eventData : List Bytes
deriving DecidableEq, Repr

structure ContractResult where
  code : UInt32
  result : Bytes
  message : Bytes
  gasUsed : UInt64
  contractEvent : List ContractEvent
deriving DecidableEq, Repr

inductive ExecOrderTxType where
  | normal
  | iterator
  | other
deriving DecidableEq, Repr

/-- `commonPb.TxStatusCode`: success, or a failure with its name. -/
inductive TxStatusCode where
  | success
  | failure (name : Bytes)
deriving DecidableEq, Repr

/-- `store.KV`. -/
structure KV where
  key : Bytes
  value : Bytes
deriving DecidableEq, Repr

/-- `store.KeyModification`. -/
structure KeyModification where
  txId : Bytes
  value : Bytes
  timestamp : Int64
  isDelete : Bool
  blockHeight : UInt64
deriving DecidableEq

/-- `vmPb.BatchKey`. -/
structure BatchKey where
  contractName : Bytes
  key : Bytes
  field : Bytes
  value : Bytes
deriving DecidableEq, Repr

structure CallContractRequest where
  contractName : Bytes
  contractMethod : Bytes
  args : GoMap

/-- `protogo.ContractResponse`, with the fields of its `Response`. -/
structure ContractResponse where
  status : UInt32
  message : Bytes
  payload : Bytes
  readMap : GoMap
  writeMap : GoMap

structure AccountConfig where
  defaultGas : UInt64
  gasPriceForInvoke : Float32

/-- `gasutils.GasConfig`. -/
structure GasConfig where
  gasPriceForInvoke : Float32

/-! ## Code outside the repository -/

/-- The constants and functions of the chain's packages.  `unmarshalWriteMap` returns
    the error together with the entries decoded in spite of it. -/
structure Protocol where
  gasLimit : UInt64
  callContractDepth : UInt32
  prefixContractByteCode : Bytes
  getKeyStr : Bytes → Bytes → Bytes
  checkKeyFieldStr : Bytes → Bytes → Option Bytes
  newGasConfig : Option AccountConfig → Option GasConfig
  multiplyGasPrice : ℕ → Float32 → Except Bytes UInt64
  bytesToInt : Bytes → Except Bytes Int32
  intToBytes : Int32 → Bytes
  unmarshalWriteMap : Bytes → Option Bytes × GoMap
  unmarshalCallContractRequest : Bytes → Except Bytes CallContractRequest
  unmarshalBatchKeys : Bytes → Except Bytes (List BatchKey)
  marshalBatchKeys : List BatchKey → Except Bytes Bytes
  marshalContractEvent : ContractEvent → Except Bytes Bytes
  marshalContractResponse : ContractResponse → Except Bytes Bytes

/-- A value stored by `SetIterHandle`: nil, a `StateIterator` or a `KeyHistoryIterator`. -/
inductive Handle (κ η : Type) where
  | nil
  | kv (iter : κ)
  | history (iter : η)
deriving DecidableEq, Repr

/-- The contents of a simulation context: its iterator handles, keyed by their index,
    and the rest of its state. -/
structure SimContext (σ κ η : Type) where
  store : σ
  iterHandles : Int32 → Option (Handle κ η)

section
variable {σ κ η : Type}

/-- `SetIterHandle`. -/
def SimContext.setIterHandle (sim : SimContext σ κ η) (i : Int32) (h : Handle κ η) :
    SimContext σ κ η :=
  { sim with iterHandles := fun j => if j = i then some h else sim.iterHandles j }

end

/-- What `CallContract` is asked to run. -/
structure CrossCall where
  caller : Contract
  contract : Contract
  method : Bytes
  parameters : GoMap
  gasUsed : UInt64

/-- What `CallContract` returns. -/
structure CallOutcome where
  result : ContractResult
  txType : ExecOrderTxType
  code : TxStatusCode
deriving DecidableEq, Repr

/-- `protocol.TxSimContext` and its iterators.  The values of a transaction that do not
    change (`txId`, `blockVersion`, the chain's configuration) are fields; the other
    operations act on the state `σ`, and `CallContract`, which runs another contract in
    the same context, on all of it. -/
structure TxSimContext (σ κ η : Type) where
  txId : Bytes
  blockVersion : UInt32
  accountConfig : Option AccountConfig
  /-- `GetLastChainConfig().Vm.AddrType == AddrType_ZXL` -/
  addrTypeZXL : Bool
  get : σ → Bytes → Bytes → Except Bytes (Option Bytes) × σ
  getKeys : σ → List BatchKey → Except Bytes (List BatchKey) × σ
  put : σ → Bytes → Bytes → Bytes → Option Bytes × σ
  putIntoReadSet : σ → Bytes → Bytes → Bytes → σ
  select : σ → Bytes → Bytes → Bytes → Except Bytes (Option κ) × σ
  getHistoryIterForKey : σ → Bytes → Bytes → Except Bytes (Option η) × σ
  kvNext : σ → κ → Bool × σ
  /-- no row for an iterator at its end -/
  kvValue : σ → κ → Except Bytes (Option KV) × σ
  kvRelease : σ → κ → σ
  historyNext : σ → η → Bool × σ
  historyValue : σ → η → Except Bytes (Option KeyModification) × σ
  historyRelease : σ → η → σ
  getContractByName : σ → Bytes → Except Bytes Contract × σ
  getTxRWMapByContractName : σ → Bytes → GoMap × GoMap
  getSenderAddress : σ → Except Bytes Bytes × σ
  callContract : SimContext σ κ η → CrossCall → CallOutcome × SimContext σ κ η

/-! ## Values for concrete runs -/

def Protocol.sample : Protocol where
  gasLimit := 10000000000
  callContractDepth := 5
  prefixContractByteCode := text "ContractByteCode:"
  getKeyStr key field := if field = [] then key else key ++ 35 :: field
  checkKeyFieldStr key _ := if key = [] then some (text "key[] can only consist of letters") else none
  newGasConfig := Option.map fun c => ⟨c.gasPriceForInvoke⟩
  multiplyGasPrice dataSize _ := .ok (UInt64.ofNat dataSize)
  bytesToInt
    | b₀ :: b₁ :: b₂ :: b₃ :: _ => .ok (Int32.ofNat
        (b₀.toNat + 256 * (b₁.toNat + 256 * (b₂.toNat + 256 * b₃.toNat))))
    | _ => .error (text "EOF")
  intToBytes i := [0, 8, 16, 24].map fun k => UInt8.ofNat (i.toBitVec.toNat >>> k)
  unmarshalWriteMap b := (if b = [] then some (text "unexpected end of JSON input") else none, .empty)
  unmarshalCallContractRequest b := .ok ⟨b, text "invoke", .empty⟩
  unmarshalBatchKeys _ := .ok []
  marshalBatchKeys _ := .ok []
  marshalContractEvent e := .ok e.topic
  marshalContractResponse r := .ok r.payload

/-- A store that keeps what was written, and numbers its iterators. -/
structure SampleStore where
  writes : List ((Bytes × Bytes) × Bytes)
  iters : ℕ
deriving DecidableEq, Repr

def SampleStore.empty : SampleStore := ⟨[], 0⟩

/-- A context in which every operation succeeds. -/
def TxSimContext.sample (blockVersion : UInt32) : TxSimContext SampleStore ℕ ℕ where
  txId := text "tx1"
  blockVersion := blockVersion
  accountConfig := none
  addrTypeZXL := false
  get s contractName key := (.ok (s.writes.lookup (contractName, key)), s)
  getKeys s keys := (.ok keys, s)
  put s contractName key value := (none, { s with writes := ((contractName, key), value) :: s.writes })
  putIntoReadSet s _ _ _ := s
  select s _ _ _ := (.ok (some s.iters), { s with iters := s.iters + 1 })
  getHistoryIterForKey s _ _ := (.ok (some s.iters), { s with iters := s.iters + 1 })
  kvNext s _ := (false, s)
  kvValue s _ := (.ok (some ⟨text "key", text "value"⟩), s)
  kvRelease s _ := s
  historyNext s _ := (false, s)
  historyValue s _ := (.ok (some ⟨text "tx0", text "value", 0, false, 1⟩), s)
  historyRelease s _ := s
  getContractByName s name := (.ok ⟨name, text "v1"⟩, s)
  getTxRWMapByContractName _ _ := (.empty, .empty)
  getSenderAddress s := (.ok (text "sender"), s)
  callContract sim call := (⟨⟨0, [], [], call.gasUsed, []⟩, .normal, .success⟩, sim)

/-- A system call of a sandbox. -/
def sampleSysCall (type : DockerVMType) (payload : Payload) : DockerVMMessage where
  chainId := text "chain1"
  txId := text "tx1#1"
  type := type
  crossContext := some ⟨0, text "chain1#o#fact#v1#0#1"⟩
  sysCallMessage := some ⟨.ok, [], payload⟩
  request := none
  response := none

end VmEngine.Runtime
