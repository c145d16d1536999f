/-
  Merging the read and write maps of a sandbox into the simulation context
  (`runtime_handler.go`: `mergeSimContextReadMap`, `mergeSimContextWriteMap`).

  Both loops run over a Go map, so the order of the entries is any `MapOrder`.  They
  stop at the first error and keep what was done before it.
-/
import VmEngine.Runtime.Gas

namespace VmEngine.Runtime

/-- The key and the field in a map key `contract#key` or `contract#key#field`.  A key with
    more separators has no field. -/
def keyParts (tooShort : ℕ → Bytes) (wrongName : Bytes → Bytes) (txContractName key : Bytes) :
    Except Bytes (Bytes × Bytes) :=
  match split key with
  | contractName :: contractKey :: rest =>
    if contractName = txContractName then
      .ok (contractKey, match rest with | [contractField] => contractField | _ => [])
    else .error (wrongName contractName)
  | keyList => .error (tooShort keyList.length)

def readKeyParts (txContractName key : Bytes) : Except Bytes (Bytes × Bytes) :=
  keyParts
    (fun n => key ++ text ("'s key list length == " ++ toString n ++ ", needs to be >= 2"))
    (fun name => text "wrong contract name [" ++ name ++ text "] of read map key, need [" ++
      txContractName ++ text "]") txContractName key

def writeKeyParts (txContractName key : Bytes) : Except Bytes (Bytes × Bytes) :=
  keyParts (fun n => text ("key list length == " ++ toString n ++ ", needs to be >= 2"))
    (fun name => text "wrong contract name [" ++ name ++ text "] of write map key, need [" ++
      txContractName ++ text "]") txContractName key

variable {σ κ η : Type} (P : Protocol) (S : TxSimContext σ κ η)

/-- `gasutils.NewGasConfig(txSimContext.GetLastChainConfig().AccountConfig)`. -/
def TxSimContext.gasConfig : Option GasConfig := P.newGasConfig S.accountConfig

/-- The loop of `mergeSimContextReadMap`. -/
def mergeReadEntries (txContractName : Bytes) : List (Bytes × Bytes) → σ → Option Bytes × σ
  | [], s => (none, s)
  | (key, value) :: rest, s =>
    match readKeyParts txContractName key with
    | .error err => (some err, s)
    | .ok (contractKey, contractField) =>
      mergeReadEntries txContractName rest
        (S.putIntoReadSet s txContractName (P.getKeyStr contractKey contractField) value)

def mergeSimContextReadMap (ord : MapOrder) (readMap : GoMap) (txContractName : Bytes) (s : σ) :
    Option Bytes × σ :=
  mergeReadEntries P S txContractName (ord.enum readMap) s

/-- What a merge of the write map leaves: the gas used, the error that stopped it, and
    the store. -/
structure Merged (σ : Type) where
  gasUsed : UInt64
  err : Option Bytes
  store : σ

/-- The loop of `mergeSimContextWriteMap`. -/
def mergeWriteEntries (txContractName : Bytes) :
    List (Bytes × Bytes) → UInt64 → σ → Merged σ
  | [], gasUsed, s => ⟨gasUsed, none, s⟩
  | (key, value) :: rest, gasUsed, s =>
    match writeKeyParts txContractName key with
    | .error err => ⟨gasUsed, some err, s⟩
    | .ok (contractKey, contractField) =>
      match putStateGasUsed P S.blockVersion (S.gasConfig P) gasUsed txContractName contractKey
          contractField value with
      | (gasUsed, some err) => ⟨gasUsed, some err, s⟩
      | (gasUsed, none) =>
        match S.put s txContractName (P.getKeyStr contractKey contractField) value with
        | (some err, s) => ⟨gasUsed, some err, s⟩
        | (none, s) => mergeWriteEntries txContractName rest gasUsed s

def mergeSimContextWriteMap (ord : MapOrder) (writeMap : GoMap) (gasUsed : UInt64)
    (txContractName : Bytes) (s : σ) : Merged σ :=
  mergeWriteEntries P S txContractName (ord.enum writeMap) gasUsed s

end VmEngine.Runtime
