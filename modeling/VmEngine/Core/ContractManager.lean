/-
  The contract manager (`vm_mgr/module/core/contract_manager.go`).

  It keeps the binaries of the contracts in a directory and their paths in an LRU
  cache.  Requests for a contract that is cached are answered at once, the others go to
  the chain; the chain's answer is stored, and the contract that was used least recently
  makes room for it.

  The directory is part of the state.  Over TCP the manager writes the binary itself,
  over a Unix domain socket the chain has written it before its response arrives.  What
  the file operations return is part of the action.
-/
import VmEngine.Core.Messages
import VmEngine.Lib.Lru
import VmEngine.Lib.System

namespace VmEngine

/-- The elements of a rooted path. -/
abbrev Path := List String

/-- `filepath.Clean` on the elements of a rooted path. -/
def cleanPath (elems : List String) : Path :=
  elems.foldl (fun path e =>
    if e = "" ∨ e = "." then path else if e = ".." then path.dropLast else path ++ [e]) []

/-- `filepath.Join` of a rooted directory and a name. -/
def joinPath (dir : Path) (name : String) : Path :=
  cleanPath (dir ++ (name.toList.splitOn '/').map String.ofList)

/-- What is found under a path: nothing, a file that was not written to its end, or the
    binary of a contract. -/
inductive FileState where
  | absent
  | broken
  | binary
deriving DecidableEq, Repr

/-- What `ioutil.WriteFile` does: it fails to open the file, or to write it. -/
inductive WriteResult where
  | written
  | notOpened
  | cutShort
deriving DecidableEq, Repr

/-- `config.ChainRPCProtocolType`. -/
inductive ChainRPCProtocol where
  | uds
  | tcp
deriving DecidableEq, Repr

structure ContractConfig where
  chainRPCProtocol : ChainRPCProtocol
  mountDir : Path

/-- The path of a contract's binary. -/
def ContractConfig.path (cfg : ContractConfig) (contractKey : String) : Path :=
  joinPath cfg.mountDir contractKey

/-- The messages of the manager's `eventCh`. -/
inductive ContractEvent where
  | message (msg : DockerVMMessage)
  | badContract (msg : BadContractResp)
deriving DecidableEq, Repr

/-- What the manager puts to the other components: the ready signal to a request group,
    and requests to the scheduler. -/
inductive ContractOut where
  | ready (key : RequestGroupKey) (code : DockerVMCode)
  | scheduler (msg : DockerVMMessage)
deriving DecidableEq, Repr

structure ContractManager where
  contractsLRU : Lru String Path
  eventCh : List ContractEvent
  disk : Path → FileState

/-- The contract a response names. -/
def TxResponse.key (r : TxResponse) : RequestGroupKey := ⟨r.chainId, r.contractName, r.contractVersion⟩

namespace ContractManager

/-! ## Files -/

/-- `utils.RemoveDir`; a file that is not there cannot be removed. -/
def removeDir (disk : Path → FileState) (path : Path) (removeOk : Bool) : (Path → FileState) × Bool :=
  if removeOk = true ∧ disk path ≠ .absent then (Function.update disk path .absent, true)
  else (disk, false)

/-- `ioutil.WriteFile` of a contract's binary. -/
def writeFile (disk : Path → FileState) (path : Path) : WriteResult → (Path → FileState) × Bool
  | .written => (Function.update disk path .binary, true)
  | .notOpened => (disk, false)
  | .cutShort => (Function.update disk path .broken, false)

/-- `initContractLRU`: the first files of the directory are cached, the others are
    removed; each file comes with the outcome of its removal. -/
def initContractLRU (cfg : ContractConfig) :
    ContractManager → ℕ → List (String × Bool) → Option ContractManager
  | cm, _, [] => some cm
  | cm, i, (name, removeOk) :: files =>
    let path := cfg.path name
    if i < cm.contractsLRU.maxEntries then
      initContractLRU cfg { cm with contractsLRU := cm.contractsLRU.add name path } (i + 1) files
    else
      match removeDir cm.disk path removeOk with
      | (disk, true) => initContractLRU cfg { cm with disk := disk } (i + 1) files
      | (_, false) => none

/-- `NewContractManager` over a directory that holds the given binaries. -/
def new (cfg : ContractConfig) (maxEntries : ℕ) (files : List (String × Bool)) :
    Option ContractManager :=
  initContractLRU cfg
    { contractsLRU := .new maxEntries
      eventCh := []
      disk := fun path => if path ∈ files.map (cfg.path ·.1) then .binary else .absent }
    0 files

/-! ## Handlers -/

/-- `sendContractReadySignal`; the group may be unknown to the scheduler. -/
def sendContractReadySignal (key : RequestGroupKey) (status : DockerVMCode) (groupFound : Bool) :
    List ContractOut × Option String :=
  if groupFound then ([.ready key status], none)
  else ([], some ("failed to get request group, " ++ key.groupKey))

/-- `handleGetContractReq`. -/
def handleGetContractReq (cm : ContractManager) (req : DockerVMMessage) (groupFound : Bool) :
    ContractManager × List ContractOut × Option String :=
  match req.request with
  | none => (cm, [], some "empty request payload")
  | some q =>
    match cm.contractsLRU.get q.key.groupKey with
    | (some _, lru) =>
      let (outs, err) := sendContractReadySignal q.key .ok groupFound
      ({ cm with contractsLRU := lru }, outs,
        err.map ("failed to handle get bytecode request, " ++ ·))
    | (none, lru) => ({ cm with contractsLRU := lru }, [.scheduler req], none)

/-- The first part of `handleGetContractResp`: a full cache gives up its oldest
    contract, with the file. -/
def evictOldest (cm : ContractManager) (removeOk : Bool) : ContractManager × Option String :=
  if cm.contractsLRU.len = cm.contractsLRU.maxEntries then
    match cm.contractsLRU.getOldest with
    | none => (cm, some "oldest contract is nil")
    | some oldestContractPath =>
      let cm := { cm with contractsLRU := cm.contractsLRU.removeOldest }
      match removeDir cm.disk oldestContractPath removeOk with
      | (disk, true) => ({ cm with disk := disk }, none)
      | (_, false) => (cm, some "failed to remove file")
  else (cm, none)

/-- The second part of `handleGetContractResp`: the contract is cached and, over TCP,
    written. -/
def saveContract (cfg : ContractConfig) (cm : ContractManager) (r : TxResponse) (write : WriteResult) :
    ContractManager × Option String :=
  let contractKey := r.key.groupKey
  let path := cfg.path contractKey
  let cm := { cm with contractsLRU := cm.contractsLRU.add contractKey path }
  match cfg.chainRPCProtocol with
  | .uds => (cm, none)
  | .tcp =>
    if r.result = [] then (cm, some "invalid contract, contract is nil")
    else
      match writeFile cm.disk path write with
      | (disk, true) => ({ cm with disk := disk }, none)
      | (disk, false) =>
        ({ cm with disk := disk }, some ("failed to write contract file, [" ++ contractKey ++ "]"))

/-- `handleGetContractResp`. -/
def handleGetContractResp (cfg : ContractConfig) (cm : ContractManager) (resp : DockerVMMessage)
    (removeOk : Bool) (write : WriteResult) : ContractManager × Option String :=
  match resp.response with
  | none => (cm, some "empty response payload")
  | some r =>
    if r.code = .fail then (cm, some "chain failed to load bytecode")
    else
      match evictOldest cm removeOk with
      | (cm, some err) => (cm, some err)
      | (cm, none) => saveContract cfg cm r write

/-- `processContractResp`: the group learns whether the contract was stored; the
    response is dereferenced. -/
def processContractResp (msg : DockerVMMessage) (err : Option String) (groupFound : Bool) :
    Go (List ContractOut) :=
  match msg.response with
  | none => .error .panics
  | some r =>
    let code := if err.isSome then .fail else .ok
    .ok (sendContractReadySignal r.key code groupFound).1

/-- `handleBadContractResp`: the contract leaves the cache, and its file is removed. -/
def handleBadContractResp (cm : ContractManager) (msg : BadContractResp) (removeOk : Bool) :
    ContractManager × Option String :=
  let contractKey := msg.key.groupKey
  match cm.contractsLRU.get contractKey with
  | (none, lru) =>
    ({ cm with contractsLRU := lru }, some ("contract " ++ contractKey ++ " not exists in lru"))
  | (some path, lru) =>
    let cm := { cm with contractsLRU := lru.remove contractKey }
    match removeDir cm.disk path removeOk with
    | (disk, true) => ({ cm with disk := disk }, none)
    | (_, false) => (cm, some "failed to remove file")

/-! ## Turns -/

/-- A message arrives, or the manager takes one; then the scheduler knows the group or
    not, and the file operations of the handler succeed or fail. -/
inductive Action where
  | put (e : ContractEvent)
  | recv (groupFound removeOk : Bool) (write : WriteResult)
deriving DecidableEq, Repr

/-- The path that the chain has written when a message arrives: over a Unix domain
    socket the one of a response with code OK. -/
def writtenByChain (cfg : ContractConfig) : ContractEvent → Option Path
  | .badContract _ => none
  | .message msg =>
    match cfg.chainRPCProtocol, msg.type, msg.response with
    | .uds, .getBytecodeResponse, some r => if r.code = .ok then some (cfg.path r.key.groupKey) else none
    | _, _, _ => none

/-- `PutMsg`. -/
def putMsg (cfg : ContractConfig) (cm : ContractManager) (e : ContractEvent) : ContractManager :=
  { cm with
    eventCh := cm.eventCh ++ [e]
    disk := match writtenByChain cfg e with
      | none => cm.disk
      | some path => Function.update cm.disk path .binary }

/-- What the goroutine of `Start` does with a message. -/
def handleEvent (cfg : ContractConfig) (cm : ContractManager) (groupFound removeOk : Bool)
    (write : WriteResult) : ContractEvent → Go (ContractManager × List ContractOut)
  | .message msg =>
    match msg.type with
    | .getBytecodeRequest =>
      let (cm, outs, _) := handleGetContractReq cm msg groupFound
      .ok (cm, outs)
    | .getBytecodeResponse => do
      let (cm, err) := handleGetContractResp cfg cm msg removeOk write
      let outs ← processContractResp msg err groupFound
      return (cm, outs)
    | _ => .ok (cm, [])
  | .badContract msg => .ok ((handleBadContractResp cm msg removeOk).1, [])

def act (cfg : ContractConfig) (cm : ContractManager) : Action → Go (ContractManager × List ContractOut)
  | .put e => .ok (putMsg cfg cm e, [])
  | .recv groupFound removeOk write =>
    match cm.eventCh with
    | [] => .error .blocks
    | e :: rest => handleEvent cfg { cm with eventCh := rest } groupFound removeOk write e

def step (cfg : ContractConfig) (cm : ContractManager) (a : Action) : Option ContractManager :=
  (act cfg cm a).toOption.map Prod.fst

end ContractManager

end VmEngine
