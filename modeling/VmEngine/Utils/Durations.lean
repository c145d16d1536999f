/-
  Time statistics of transactions (`utils/time_statics.go`).

  Every invocation has a `TxDuration`.  Those of one original transaction form a tree:
  the first is the root, and `BlockTxsDuration` hangs each later one under the node that
  it takes for its caller.  When a node finishes, its counters are added to the root.

  The code works on shared objects, so a node and a system call are known by their
  positions in the lists of all nodes and calls.  Counters and durations are machine
  integers.  The times that a call reads are part of its arguments, and so is the object
  that `sysCallPool.Get` returns.
-/
import VmEngine.Runtime.Messages
import VmEngine.Lib.LinkedMap
import Mathlib.Algebra.BigOperators.Group.List.Basic

namespace VmEngine.Utils

structure SysCallDuration where
  opType : Runtime.DockerVMType
  startTime : Int64
  totalDuration : Int64
  storageDuration : Int64
deriving DecidableEq

/-! ## Counters -/

/-- The counters of a node that `FinishTxDuration` adds to the root. -/
@[ext] structure Counters where
  sysCallCnt : Int32
  sysCallDuration : Int64
  contingentSysCallCnt : Int32
  contingentSysCallDuration : Int64
  crossCallCnt : Int32
  crossCallDuration : Int64
deriving DecidableEq

namespace Counters

instance : Zero Counters := ⟨⟨0, 0, 0, 0, 0, 0⟩⟩

instance : Add Counters := ⟨fun a b =>
  ⟨a.sysCallCnt + b.sysCallCnt, a.sysCallDuration + b.sysCallDuration,
    a.contingentSysCallCnt + b.contingentSysCallCnt,
    a.contingentSysCallDuration + b.contingentSysCallDuration,
    a.crossCallCnt + b.crossCallCnt, a.crossCallDuration + b.crossCallDuration⟩⟩

theorem add_def (a b : Counters) : a + b =
    ⟨a.sysCallCnt + b.sysCallCnt, a.sysCallDuration + b.sysCallDuration,
      a.contingentSysCallCnt + b.contingentSysCallCnt,
      a.contingentSysCallDuration + b.contingentSysCallDuration,
      a.crossCallCnt + b.crossCallCnt, a.crossCallDuration + b.crossCallDuration⟩ := rfl

theorem zero_def : (0 : Counters) = ⟨0, 0, 0, 0, 0, 0⟩ := rfl

instance : AddCommMonoid Counters where
  add_assoc a b c := by simp only [add_def, Int32.add_assoc, Int64.add_assoc]
  zero_add a := by simp only [add_def, zero_def, Int32.zero_add, Int64.zero_add]
  add_zero a := by simp only [add_def, zero_def, Int32.add_zero, Int64.add_zero]
  add_comm a b := by simp only [add_def, Int32.add_comm, Int64.add_comm]
  nsmul := nsmulRec

/-- Counters that do not change when they are doubled are 0. -/
theorem add_self_eq (a : Counters) : a + a = a ↔ a = 0 := by
  simp only [add_def, zero_def, Counters.ext_iff, Int32.add_eq_left, Int64.add_eq_left]

end Counters

/-! ## Nodes -/

structure TxDuration extends Counters where
  originalTxId : String
  txId : String
  startTime : Int64
  totalDuration : Int64
  storageDuration : Int64
  sysCallList : List ℕ
  crossCallList : List ℕ
  sealed : Bool

namespace TxDuration

/-- `NewTxDuration`. -/
def new (originalTxId txId : String) (startTime : Int64) : TxDuration where
  toCounters := 0
  originalTxId := originalTxId
  txId := txId
  startTime := startTime
  totalDuration := 0
  storageDuration := 0
  sysCallList := []
  crossCallList := []
  sealed := false

/-- `addSysCallDuration`. -/
def addSysCallDuration (e : TxDuration) (duration : SysCallDuration) : TxDuration :=
  match duration.opType with
  | .getBytecodeRequest =>
    { e with
      contingentSysCallCnt := e.contingentSysCallCnt + 1
      contingentSysCallDuration := e.contingentSysCallDuration + duration.totalDuration
      storageDuration := e.storageDuration + duration.storageDuration }
  | .getStateRequest | .getBatchStateRequest | .createKvIteratorRequest | .consumeKvIteratorRequest
  | .createKeyHistoryIterRequest | .consumeKeyHistoryIterRequest | .getSenderAddressRequest =>
    { e with
      sysCallCnt := e.sysCallCnt + 1
      sysCallDuration := e.sysCallDuration + duration.totalDuration
      storageDuration := e.storageDuration + duration.storageDuration }
  | .callContractRequest =>
    { e with
      crossCallCnt := e.crossCallCnt + 1
      crossCallDuration := e.crossCallDuration + duration.totalDuration }
  | _ => e

/-- `Add`, which `ToString` of a block calls for its roots. -/
def add (e txDuration : TxDuration) : TxDuration :=
  { e with
    toCounters := e.toCounters + txDuration.toCounters
    totalDuration := e.totalDuration + txDuration.totalDuration
    storageDuration := e.storageDuration + txDuration.storageDuration }

/-- `ToString`. -/
def toText (e : TxDuration) : String :=
  let micros (d : Int64) : String := toString (d / 1000).toInt ++ "μs"
  let count (n : Int32) : String := "(count: " ++ toString n.toInt ++ ")"
  e.txId ++ " spend time: " ++ micros e.totalDuration ++
    ", syscall: " ++ micros e.sysCallDuration ++ count e.sysCallCnt ++
    ", r/w store: " ++ micros e.storageDuration ++
    ", possible syscall: " ++ micros e.contingentSysCallDuration ++ count e.contingentSysCallCnt ++
    ", cross contract: " ++ micros e.crossCallDuration ++ count e.crossCallCnt

/-- What `addSysCallDuration` adds to the counters of a node. -/
def recordOf (duration : SysCallDuration) : Counters :=
  ((new "" "" 0).addSysCallDuration duration).toCounters

theorem addSysCallDuration_counters (e : TxDuration) (d : SysCallDuration) :
    (e.addSysCallDuration d).toCounters = e.toCounters + recordOf d := by
  unfold recordOf addSysCallDuration
  split <;>
    simp only [new, Counters.add_def, Counters.zero_def, Int32.zero_add, Int64.zero_add,
      Int32.add_zero, Int64.add_zero]

/-- What a system call does not change. -/
theorem addSysCallDuration_frame (e : TxDuration) (d : SysCallDuration) :
    (e.addSysCallDuration d).crossCallList = e.crossCallList ∧
      (e.addSysCallDuration d).sealed = e.sealed ∧
      (e.addSysCallDuration d).originalTxId = e.originalTxId := by
  unfold addSysCallDuration
  split <;> exact ⟨rfl, rfl, rfl⟩

end TxDuration

/-! ## Blocks -/

/-- The statistics of all blocks, with the objects that they share: the system calls, those
    in `sysCallPool`, and the nodes.  A block has the root of each original transaction. -/
structure BlockTxsDurationMgr where
  sysCalls : List SysCallDuration
  sysCallPool : List ℕ
  nodes : List TxDuration
  blockDurations : LinkedMap String (LinkedMap String ℕ)

namespace BlockTxsDurationMgr

/-- `NewBlockTxsDurationMgr`. -/
def new : BlockTxsDurationMgr := ⟨[], [], [], .empty⟩

/-- The root of an original transaction in a block. -/
def root? (r : BlockTxsDurationMgr) (id originalTxId : String) : Option ℕ :=
  (r.blockDurations.get? id).bind (·.get? originalTxId)

def unsealed (nodes : List TxDuration) (item : ℕ) : Bool := nodes[item]?.any (!·.sealed)

/-- `getCallerNode`.  A search that is deeper than there are nodes does not end. -/
def getCallerNode (nodes : List TxDuration) : ℕ → ℕ → Go ℕ
  | 0, _ => .error .panics
  | depth + 1, e =>
    match nodes[e]? with
    | none => .error .panics
    | some node =>
      match node.crossCallList.find? (unsealed nodes) with
      | some item => getCallerNode nodes depth item
      | none => .ok e

/-- `AddBlockTxsDuration`. -/
def addBlockTxsDuration (r : BlockTxsDurationMgr) (id : String) : BlockTxsDurationMgr :=
  match r.blockDurations.get? id with
  | some _ => r
  | none => { r with blockDurations := r.blockDurations.put id .empty }

/-- `AddTx` with `AddTxDuration`. -/
def addTx (r : BlockTxsDurationMgr) (id : String) (t : ℕ) : Go BlockTxsDurationMgr :=
  match r.blockDurations.get? id, r.nodes[t]? with
  | some txs, some node =>
    match txs.get? node.originalTxId with
    | none =>
      .ok { r with blockDurations := r.blockDurations.put id (txs.put node.originalTxId t) }
    | some root => do
      let callerNode ← getCallerNode r.nodes r.nodes.length root
      return { r with nodes := r.nodes.modify callerNode fun c =>
        { c with crossCallList := c.crossCallList ++ [t] } }
  | _, _ => .ok r

/-- `FinishTxDuration`, for a root that the block has. -/
def finishTxDuration (r : BlockTxsDurationMgr) (root t : ℕ) : BlockTxsDurationMgr :=
  match r.nodes[root]?, r.nodes[t]? with
  | some txDuration, some node =>
    { r with
      nodes := r.nodes.set root
        { txDuration with toCounters := txDuration.toCounters + node.toCounters }
      sysCallPool := r.sysCallPool ++ txDuration.sysCallList }
  | _, _ => r

/-- `FinishTx`, with `Seal`. -/
def finishTx (r : BlockTxsDurationMgr) (id : String) (t : ℕ) : BlockTxsDurationMgr :=
  let r := { r with nodes := r.nodes.modify t fun node => { node with sealed := true } }
  match r.nodes[t]?.bind fun node => r.root? id node.originalTxId with
  | some root => r.finishTxDuration root t
  | none => r

/-- The deferred function of `Invoke`: set the time that the invocation took, and finish. -/
def endInvoke (r : BlockTxsDurationMgr) (fingerprint : String) (t : ℕ) (totalDuration : Int64) :
    BlockTxsDurationMgr :=
  { r with nodes := r.nodes.modify t fun node => { node with totalDuration := totalDuration } }.finishTx
    fingerprint t

/-- The total that `ToString` prints for a block. -/
def blockTotal (r : BlockTxsDurationMgr) (id : String) : TxDuration :=
  ((r.blockDurations.get? id).getD .empty).entries.foldl
    (fun total e => (r.nodes[e.2]?).elim total total.add) (.new "" "" 0)

/-- `PrintBlockTxsDuration`, with `ToString` of the block. -/
def printBlockTxsDuration (r : BlockTxsDurationMgr) (id : String) : String :=
  match r.blockDurations.get? id with
  | none => ""
  | some _ => (r.blockTotal id).toText

/-! ## System calls of a node -/

/-- The object that `sysCallPool.Get` returns: one of the pool, or a new one. -/
def getSysCall (r : BlockTxsDurationMgr) (got : Option ℕ) (call : SysCallDuration) :
    Option (BlockTxsDurationMgr × ℕ) :=
  match got with
  | none => some ({ r with sysCalls := r.sysCalls ++ [call] }, r.sysCalls.length)
  | some i =>
    if i ∈ r.sysCallPool then
      some ({ r with sysCalls := r.sysCalls.set i call, sysCallPool := r.sysCallPool.erase i }, i)
    else none

/-- `StartSysCall`. -/
def startSysCall (r : BlockTxsDurationMgr) (e : ℕ) (msgType : Runtime.DockerVMType) (now : Int64)
    (got : Option ℕ) : Option BlockTxsDurationMgr :=
  (r.getSysCall got ⟨msgType, now, 0, 0⟩).map fun (r, i) =>
    { r with nodes := r.nodes.modify e fun node =>
      { node with sysCallList := node.sysCallList ++ [i] } }

/-- `GetLatestSysCall`. -/
def getLatestSysCall (r : BlockTxsDurationMgr) (e : ℕ) : Option ℕ :=
  r.nodes[e]?.bind (·.sysCallList.getLast?)

/-- `AddLatestStorageDuration`. -/
def addLatestStorageDuration (r : BlockTxsDurationMgr) (e : ℕ) (duration : Int64) :
    BlockTxsDurationMgr :=
  match r.getLatestSysCall e with
  | none => r
  | some i => { r with sysCalls := r.sysCalls.modify i fun call =>
      { call with storageDuration := call.storageDuration + duration } }

/-- The latest call of a node, with the time that has passed since its start. -/
def endedSysCall (r : BlockTxsDurationMgr) (e : ℕ) (now : Int64) : Option (ℕ × SysCallDuration) :=
  (r.getLatestSysCall e).bind fun i => r.sysCalls[i]?.map fun call =>
    (i, { call with totalDuration := now - call.startTime })

/-- `EndSysCall`. -/
def endSysCall (r : BlockTxsDurationMgr) (e : ℕ) (now : Int64) : BlockTxsDurationMgr :=
  match r.endedSysCall e now with
  | none => r
  | some (i, call) =>
    { r with
      sysCalls := r.sysCalls.set i call
      nodes := r.nodes.modify e (·.addSysCallDuration call) }

end BlockTxsDurationMgr

end VmEngine.Utils
