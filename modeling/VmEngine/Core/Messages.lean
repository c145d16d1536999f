/-
  The messages of the contract engine (`vm_mgr/messages`, `vm_mgr/pb`) and the
  helpers of `vm_mgr/utils` that build keys and names from them.

  Pointers that may be nil are `Option`s.  Timestamps, step durations and request
  parameters are read by none of the modelled handlers and are left out.
-/
import Mathlib.Tactic.Common
import Mathlib.Data.Int.Notation

namespace VmEngine

/-- Why a call does not return: it blocks on a channel, or it panics. -/
inductive Fault where
  | blocks
  | panics
deriving DecidableEq, Repr

/-- A Go call that may fail to return. -/
abbrev Go := Except Fault

/-- A sequence of two calls returns iff both do. -/
theorem Go.bind_eq_ok {α β : Type} {x : Go α} {f : α → Go β} {b : β} :
    (x >>= f) = .ok b ↔ ∃ a, x = .ok a ∧ f a = .ok b := by
  cases x with
  | error e =>
    constructor
    · intro h; cases h
    · rintro ⟨a, h, -⟩; cases h
  | ok a =>
    constructor
    · intro h; exact ⟨a, rfl, h⟩
    · rintro ⟨a', h, h'⟩; cases h; exact h'

/-- The results of a call that returns. -/
theorem Go.toOption_eq_some {α : Type} {x : Go α} {a : α} : x.toOption = some a ↔ x = .ok a := by
  cases x with
  | error e => constructor <;> intro h <;> cases h
  | ok b => constructor <;> intro h <;> cases h <;> rfl

/-- The call returns. -/
def Go.Returns {α : Type} (x : Go α) : Prop := ∃ a, x = .ok a

section
variable {α β : Type}

theorem Go.returns_ok (a : α) : Go.Returns (.ok a : Go α) := ⟨a, rfl⟩

theorem Go.not_returns_error (f : Fault) : ¬ Go.Returns (.error f : Go α) := by
  rintro ⟨a, h⟩
  cases h

theorem Go.returns_map {x : Go α} {f : α → β} : Go.Returns (x.map f) ↔ x.Returns := by
  cases x with
  | error e => exact iff_of_false (Go.not_returns_error e) (Go.not_returns_error e)
  | ok a => exact iff_of_true (Go.returns_ok _) (Go.returns_ok a)

theorem Go.returns_bind {x : Go α} {f : α → Go β} :
    Go.Returns (x >>= f) ↔ ∃ a, x = .ok a ∧ (f a).Returns := by
  constructor
  · rintro ⟨b, h⟩
    obtain ⟨a, ha, hb⟩ := Go.bind_eq_ok.1 h
    exact ⟨a, ha, b, hb⟩
  · rintro ⟨a, ha, b, hb⟩
    exact ⟨b, Go.bind_eq_ok.2 ⟨a, ha, hb⟩⟩

theorem Go.returns_bind_of {x : Go α} {f : α → Go β} (h : ∀ a, (f a).Returns) :
    Go.Returns (x >>= f) ↔ x.Returns := by
  rw [Go.returns_bind]
  exact ⟨fun ⟨a, ha, _⟩ => ⟨a, ha⟩, fun ⟨a, ha⟩ => ⟨a, ha, h a⟩⟩

end

/-- Whatever the call returns has a property. -/
def Go.Ensures {α : Type} (x : Go α) (p : α → Prop) : Prop := ∀ a, x = .ok a → p a

section
variable {α β : Type} {p : α → Prop} {q : β → Prop}

theorem Go.ensures_ok {a : α} (h : p a) : Go.Ensures (.ok a) p := by
  intro b hb
  cases hb
  exact h

theorem Go.ensures_error (f : Fault) : Go.Ensures (.error f) p := by
  intro b hb
  cases hb

theorem Go.Ensures.bind {x : Go α} {f : α → Go β} (h : x.Ensures p)
    (hf : ∀ a, p a → (f a).Ensures q) : Go.Ensures (x >>= f) q := by
  intro b hb
  obtain ⟨a, ha, hfa⟩ := Go.bind_eq_ok.1 hb
  exact hf a (h a ha) b hfa

theorem Go.Ensures.map {x : Go α} {f : α → β} (h : x.Ensures fun a => q (f a)) :
    Go.Ensures (x.map f) q := by
  cases x with
  | error e => exact Go.ensures_error e
  | ok a => exact Go.ensures_ok (h a rfl)

theorem Go.Ensures.any (x : Go α) : x.Ensures fun _ => True := fun _ _ => trivial

end

/-- `DockerVMCode`. -/
inductive DockerVMCode where
  | ok
  | fail
deriving DecidableEq, Repr

/-- The message types that the contract engine distinguishes. -/
inductive DockerVMType where
  | undefined
  | register
  | txRequest
  | txResponse
  | getBytecodeRequest
  | getBytecodeResponse
  | error
deriving DecidableEq, Repr

structure TxRequest where
  chainId : String
  contractName : String
  contractVersion : String
  method : String
deriving DecidableEq, Repr

structure CrossContext where
  currentDepth : ℕ
  processName : String
  crossInfo : ℕ
deriving DecidableEq, Repr

structure TxResponse where
  code : DockerVMCode
  message : String
  chainId : String
  contractName : String
  contractVersion : String
  result : List UInt8
deriving DecidableEq, Repr

/-- `protogo.DockerVMMessage`. -/
structure DockerVMMessage where
  chainId : String
  txId : String
  type : DockerVMType
  crossContext : Option CrossContext
  request : Option TxRequest
  response : Option TxResponse
deriving DecidableEq, Repr

/-- `messages.RequestGroupKey`. -/
structure RequestGroupKey where
  chainID : String
  contractName : String
  contractVersion : String
deriving DecidableEq, Repr

/-- `messages.GetProcessReqMsg` (request group -> process manager). -/
structure GetProcessReqMsg where
  key : RequestGroupKey
  processNum : ℤ
deriving DecidableEq, Repr

/-- `messages.GetProcessRespMsg` (process manager -> request group). -/
structure GetProcessRespMsg where
  isOrig : Bool
  processNum : ℤ
deriving DecidableEq, Repr

/-- `messages.SandboxExitMsg` (process -> process manager). -/
structure SandboxExitMsg where
  key : RequestGroupKey
  processName : String
deriving DecidableEq, Repr

/-- `messages.BadContractResp` (process -> request group -> contract manager). -/
structure BadContractResp where
  txId : String
  key : RequestGroupKey
  isOrig : Bool
  contractFileVersion : ℤ
deriving DecidableEq, Repr

/-! ## Keys and names -/

/-- `utils.ConstructContractKey`: the components joined by `#`. -/
def constructContractKey (names : List String) : String := String.intercalate "#" names

/-- The string under which a contract is looked up. -/
def RequestGroupKey.groupKey (k : RequestGroupKey) : String :=
  constructContractKey [k.chainID, k.contractName, k.contractVersion]

/-- `utils.ConstructProcessName`. -/
def constructProcessName (k : RequestGroupKey) (localIndex overallIndex : ℕ) (isOrig : Bool) :
    String :=
  let typeStr := if isOrig then "o" else "c"
  String.intercalate "#" [k.chainID, typeStr, k.contractName, k.contractVersion,
    toString localIndex, toString overallIndex]

/-- The contract a request names. -/
def TxRequest.key (q : TxRequest) : RequestGroupKey := ⟨q.chainId, q.contractName, q.contractVersion⟩

/-- The constants of the chain's own packages that the engine uses. -/
structure ChainConsts where
  /-- `protocol.CallContractDepth` -/
  callContractDepth : ℕ
  /-- `common.RuntimeType_GO` -/
  runtimeTypeGo : ℕ

/-- Values of the constants for concrete runs. -/
def ChainConsts.sample : ChainConsts := ⟨5, 6⟩

/-- `utils.hasUsed`: the bit of the Go runtime in the history flags. -/
def hasUsed (C : ChainConsts) (ctxBitmap : ℕ) : Bool := ctxBitmap.testBit (59 - C.runtimeTypeGo)

/-- `utils.IsOrig`; a message without a cross context is dereferenced. -/
def isOrig (C : ChainConsts) (tx : DockerVMMessage) : Go Bool :=
  match tx.crossContext with
  | none => .error .panics
  | some c => .ok (c.currentDepth == 0 || !hasUsed C c.crossInfo)

/-- The error message that `returnTxErrorResp` puts to the request scheduler. -/
def txErrorResp (chainID txId errMsg : String) : DockerVMMessage where
  chainId := chainID
  txId := txId
  type := .error
  crossContext := none
  request := none
  response := some ⟨.fail, errMsg, "", "", "", []⟩

/-- A contract, for concrete runs. -/
def RequestGroupKey.sample : RequestGroupKey := ⟨"chain1", "fact", "v1"⟩

/-- A transaction of a contract, for concrete runs. -/
def sampleTx (k : RequestGroupKey) (txId method : String) : DockerVMMessage where
  chainId := k.chainID
  txId := txId
  type := .txRequest
  crossContext := some ⟨0, "", 0⟩
  request := some ⟨k.chainID, k.contractName, k.contractVersion, method⟩
  response := none

end VmEngine
