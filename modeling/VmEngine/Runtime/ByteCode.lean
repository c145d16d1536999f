/-
  The answer to the engine's request for a contract (`runtime_handler.go`:
  `handleGetByteCodeRequest`, `saveBytesToDisk`, `extractContract`).

  The contract is what `Invoke` was given, or it is fetched as an archive, extracted in a
  temporary directory and read from there.  Over TCP it is sent in the response; over a
  Unix domain socket it is written to the directory that the engine shares.

  What the storage, the archiver and the file operations do is part of the arguments
  (`Outcomes`).  A file is what was written to it, and whether that was synced.  The
  temporary directory has a new name; of it only the outcomes are seen.
-/
import VmEngine.Runtime.Messages

namespace VmEngine.Runtime

/-- What a file has, and whether it was synced after it was written. -/
structure DiskFile where
  content : Bytes
  synced : Bool
deriving DecidableEq, Repr

/-- A directory. -/
abbrev Dir := Bytes → Option DiskFile

/-- What the operations of one `saveBytesToDisk` do.  A `Write` that fails has written a number
    of bytes. -/
structure SaveOutcome where
  notExist : Bool
  mkdir : Option Bytes
  openFile : Option Bytes
  write : Option (ℕ × Bytes)
  sync : Option Bytes
  close : Option Bytes

/-- `saveBytesToDisk`, with or without a directory to make.  The error of `Close` is dropped. -/
def saveBytesToDisk (o : SaveOutcome) (bytes file : Bytes) (makeDir : Bool) (d : Dir) :
    Option Bytes × Dir :=
  match (if makeDir && o.notExist then o.mkdir else none), o.openFile with
  | some err, _ => (some err, d)
  | none, some err => (some err, d)
  | none, none =>
    match o.write with
    | some (n, err) => (some err, Function.update d file (some ⟨bytes.take n, false⟩))
    | none => (o.sync, Function.update d file (some ⟨bytes, o.sync.isNone⟩))

/-- What is outside the handler: the storage, the time statistics, and the operations on files. -/
structure Outcomes where
  getContractBytecode : Except Bytes Bytes
  addLatestStorageDuration : Option Bytes
  uuid : Bytes
  saveZip : SaveOutcome
  runCmd : Option Bytes
  readDir : Except Bytes (List Bytes)
  readFile : Bytes → Except Bytes Bytes
  saveContract : SaveOutcome

/-- `config.ConnectionProtocol`. -/
inductive ConnectionProtocol where
  | uds
  | tcp
deriving DecidableEq, Repr

/-- `strings.HasSuffix(name, ".7z")`. -/
def isZip (name : Bytes) : Bool := (text ".7z").isSuffixOf name

/-- `NeedSendContractByteCode`. -/
def ConnectionProtocol.sendContract (p : ConnectionProtocol) : Bool := p == .tcp

/-- The loop of `extractContract` over the files of the temporary directory. -/
def readBinary (o : Outcomes) (tmpContractDir contractFullName : Bytes) (sendContract : Bool) :
    List Bytes → Dir → Except Bytes Bytes × Dir
  | [], d => (.error (text "no contract binaries satisfied"), d)
  | name :: names, d =>
    if isZip name then readBinary o tmpContractDir contractFullName sendContract names d
    else
      let fp := tmpContractDir ++ text "/" ++ name
      match o.readFile fp with
      | .error err =>
        (.error (text "read from byteCode file " ++ fp ++ text " failed, " ++ err), d)
      | .ok extBytecode =>
        if sendContract then (.ok extBytecode, d)
        else
          match saveBytesToDisk o.saveContract extBytecode contractFullName false d with
          | (some err, d) => (.error (text "failed to save bytecode to disk: " ++ err), d)
          | (none, d) => (.ok extBytecode, d)

/-- `extractContract`.  The archive goes to a temporary directory. -/
def extractContract (o : Outcomes) (bytecode contractFullName : Bytes) (sendContract : Bool) (d : Dir) :
    Except Bytes Bytes × Dir :=
  let tmpContractDir := text "tmp-contract-" ++ o.uuid
  match (saveBytesToDisk o.saveZip bytecode (contractFullName ++ text ".7z") true fun _ => none).1 with
  | some _ => (.error (text "failed to save tmp contract bin for version query"), d)
  | none =>
    match o.runCmd with
    | some err => (.error (text "failed to extract contract, " ++ err), d)
    | none =>
      match o.readDir with
      | .error err =>
        (.error (text "failed to read tmp contract dir " ++ tmpContractDir ++ text ", " ++ err), d)
      | .ok fileInfoList =>
        if fileInfoList.length ≠ 2 then
          (.error (text "file num in contract dir " ++ tmpContractDir ++ text " != 2"), d)
        else readBinary o tmpContractDir contractFullName sendContract fileInfoList d

/-- `constructContractKey`. -/
def TxRequest.contractKey (r : TxRequest) : Bytes :=
  r.chainId ++ text "#" ++ r.contractName ++ text "#" ++ r.contractVersion

/-- The `Response` of a bytecode response. -/
structure ByteCodeResponse where
  chainId : Bytes
  contractName : Bytes
  contractVersion : Bytes
  code : DockerVMCode
  result : Bytes
  message : Bytes
deriving DecidableEq, Repr

/-- `handleGetByteCodeRequest`: the response, and the directory of the contracts. -/
def handleGetByteCodeRequest (chainId : Bytes) (proto : ConnectionProtocol) (o : Outcomes)
    (recvMsg : DockerVMMessage) (byteCode : Bytes) (d : Dir) : Go (ByteCodeResponse × Dir) :=
  match recvMsg.request with
  | none => .error .panics
  | some request =>
    let contractFullName := request.contractKey
    let response : ByteCodeResponse :=
      ⟨chainId, request.contractName, request.contractVersion, .fail, [0], []⟩
    if byteCode.length = 0 then
      match o.getContractBytecode with
      | .error _ | .ok [] =>
        -- the error of the storage is overwritten by that of the statistics
        let message := o.addLatestStorageDuration.getD (text "contract byte is nil")
        .ok ({ response with message := message }, d)
      | .ok byteCode =>
        match extractContract o byteCode contractFullName proto.sendContract d with
        | (.error err, d) => .ok ({ response with message := err }, d)
        | (.ok extractedBytecode, d) =>
          let result := if proto.sendContract then extractedBytecode else response.result
          .ok ({ response with code := .ok, result := result }, d)
    else if proto.sendContract then
      .ok ({ response with code := .ok, result := byteCode }, d)
    else
      match saveBytesToDisk o.saveContract byteCode contractFullName false d with
      | (some err, d) => .ok ({ response with code := .ok, message := err }, d)
      | (none, d) => .ok ({ response with code := .ok }, d)

/-! ## What is delivered -/

/-- The executable of the contract: what `Invoke` was given, or the file beside the archive. -/
def executable (o : Outcomes) (byteCode : Bytes) : Option Bytes :=
  if byteCode.length = 0 then
    match o.readDir with
    | .error _ => none
    | .ok names => (names.find? (!isZip ·)).bind fun name =>
      (o.readFile (text "tmp-contract-" ++ o.uuid ++ text "/" ++ name)).toOption
  else some byteCode

/-- The executable is in the response and not empty, or it is on the disk under the name from
    which the engine launches it. -/
def Delivered (proto : ConnectionProtocol) (request : TxRequest) (exe : Bytes)
    (response : ByteCodeResponse) (d : Dir) : Prop :=
  match proto with
  | .tcp => response.result = exe ∧ exe ≠ []
  | .uds => d request.contractKey = some ⟨exe, true⟩

/-- The file is opened, written and synced. -/
def SaveOutcome.Saves (o : SaveOutcome) : Prop := o.openFile = none ∧ o.write = none ∧ o.sync = none

/-- Nothing goes wrong unnoticed: what is sent is not empty, and what `Invoke` was given is saved. -/
def Noticed (proto : ConnectionProtocol) (o : Outcomes) (byteCode exe : Bytes) : Prop :=
  match proto with
  | .tcp => exe ≠ []
  | .uds => byteCode.length ≠ 0 → o.saveContract.Saves

/-! ## Saving and extracting -/

variable {o : Outcomes} {d d' : Dir} {s : SaveOutcome} {bytes file err : Bytes} {makeDir : Bool}

theorem saveBytesToDisk_ok (h : saveBytesToDisk s bytes file makeDir d = (none, d')) :
    d' file = some ⟨bytes, true⟩ := by
  unfold saveBytesToDisk at h
  split at h
  · cases h
  · cases h
  · split at h
    · cases h
    · obtain ⟨hsync, rfl⟩ := Prod.mk.inj h
      rw [Function.update_self, hsync]
      rfl

/-- What a save that fails leaves is not synced, unless it was there before. -/
theorem saveBytesToDisk_error (h : saveBytesToDisk s bytes file makeDir d = (some err, d'))
    (hd : d file = none) : d' file ≠ some ⟨bytes, true⟩ := by
  have hunsynced : ∀ b : Bytes, some (DiskFile.mk b false) ≠ some ⟨bytes, true⟩ := by
    intro b heq
    cases congrArg DiskFile.synced (Option.some.inj heq)
  unfold saveBytesToDisk at h
  split at h
  · cases h
    rw [hd]
    exact nofun
  · cases h
    rw [hd]
    exact nofun
  · split at h
    · cases h
      rw [Function.update_self]
      exact hunsynced _
    · obtain ⟨hsync, rfl⟩ := Prod.mk.inj h
      rw [Function.update_self, hsync]
      exact hunsynced _

theorem saves_iff : s.Saves ↔ (saveBytesToDisk s bytes file false d).1 = none := by
  unfold SaveOutcome.Saves saveBytesToDisk
  rcases s.openFile with _ | err
  · rcases s.write with _ | ⟨n, err⟩ <;> simp
  · simp

/-- The first file that is not an archive is read, and saved where it is not sent. -/
theorem readBinary_ok {tmp name b : Bytes} {send : Bool} {names : List Bytes}
    (h : readBinary o tmp name send names d = (.ok b, d')) :
    ((names.find? (!isZip ·)).bind fun n => (o.readFile (tmp ++ text "/" ++ n)).toOption) = some b ∧
      (send = false → d' name = some ⟨b, true⟩) := by
  induction names with
  | nil => cases h
  | cons n names ih =>
    unfold readBinary at h
    by_cases hzip : isZip n = true
    · rw [if_pos hzip] at h
      rw [List.find?_cons_of_neg (by simp [hzip])]
      exact ih h
    · rw [if_neg hzip] at h
      rw [List.find?_cons_of_pos (by simp [hzip]), Option.bind_some]
      dsimp only at h
      rcases hread : o.readFile (tmp ++ text "/" ++ n) with err | content
      · rw [hread] at h
        cases h
      rw [hread] at h
      dsimp only at h
      split_ifs at h with hsend
      · cases h
        refine ⟨rfl, fun hfalse => ?_⟩
        rw [hsend] at hfalse
        cases hfalse
      · rcases hsave : saveBytesToDisk o.saveContract content name false d with ⟨_ | err, d₁⟩
        · rw [hsave] at h
          cases h
          exact ⟨rfl, fun _ => saveBytesToDisk_ok hsave⟩
        · rw [hsave] at h
          cases h

theorem extractContract_ok {bytecode name b : Bytes} {send : Bool}
    (h : extractContract o bytecode name send d = (.ok b, d')) :
    executable o [] = some b ∧ (send = false → d' name = some ⟨b, true⟩) := by
  unfold extractContract at h
  dsimp only at h
  split at h
  · cases h
  split at h
  · cases h
  split at h
  · cases h
  rename_i names hnames
  split_ifs at h
  · cases h
  · obtain ⟨hread, hsave⟩ := readBinary_ok h
    refine ⟨?_, hsave⟩
    rw [executable, if_pos List.length_nil, hnames]
    exact hread

/-- The code does not depend on the outcome of the save, but what is on the disk does. -/
theorem saved_delivered {byteCode : Bytes} {request : TxRequest} {response : ByteCodeResponse}
    {err : Option Bytes} (hempty : byteCode.length ≠ 0)
    (hsave : saveBytesToDisk o.saveContract byteCode request.contractKey false d = (err, d')) :
    (Noticed .uds o byteCode byteCode → Delivered .uds request byteCode response d') ∧
      (d request.contractKey = none → Delivered .uds request byteCode response d' →
        Noticed .uds o byteCode byteCode) := by
  cases err with
  | none =>
    have hsaves : o.saveContract.Saves := saves_iff.2 (congrArg Prod.fst hsave)
    exact ⟨fun _ => saveBytesToDisk_ok hsave, fun _ _ _ => hsaves⟩
  | some err =>
    refine ⟨fun hnoticed => ?_, fun hnew hdel => absurd hdel (saveBytesToDisk_error hsave hnew)⟩
    have hnone : (saveBytesToDisk o.saveContract byteCode request.contractKey false d).1 = none :=
      saves_iff.1 (hnoticed hempty)
    rw [hsave] at hnone
    cases hnone

/-- **Delivered bytecode.**  For every request, protocol, given bytecode and outcome of the storage,
    the archiver and the files: a response with the code OK has delivered the executable if
    nothing went wrong unnoticed, and only then if the contract was not on the disk before. -/
theorem bytecode_delivered {chainId byteCode : Bytes} {proto : ConnectionProtocol}
    {m : DockerVMMessage} {request : TxRequest} {response : ByteCodeResponse}
    (hm : m.request = some request)
    (h : handleGetByteCodeRequest chainId proto o m byteCode d = .ok (response, d'))
    (hok : response.code = .ok) :
    ∃ exe, executable o byteCode = some exe ∧
      (Noticed proto o byteCode exe → Delivered proto request exe response d') ∧
      (d request.contractKey = none → Delivered proto request exe response d' →
        Noticed proto o byteCode exe) := by
  unfold handleGetByteCodeRequest at h
  rw [hm] at h
  dsimp only at h
  by_cases hempty : byteCode.length = 0
  · -- the contract is fetched
    rw [if_pos hempty] at h
    obtain rfl := List.length_eq_zero_iff.1 hempty
    split at h
    · cases h
      cases hok
    · cases h
      cases hok
    · rename_i fetched _ _
      rcases hext : extractContract o fetched request.contractKey proto.sendContract d with
        ⟨err | exe, d₁⟩
      · rw [hext] at h
        cases h
        cases hok
      · rw [hext] at h
        cases h
        obtain ⟨hexe, hsave⟩ := extractContract_ok hext
        refine ⟨exe, hexe, ?_⟩
        cases proto with
        | tcp => exact ⟨fun hne => ⟨rfl, hne⟩, fun _ hdel => hdel.2⟩
        | uds => exact ⟨fun _ => hsave rfl, fun _ _ hne => absurd rfl hne⟩
  · rw [if_neg hempty] at h
    refine ⟨byteCode, if_neg hempty, ?_⟩
    cases proto with
    | tcp =>
      cases h
      exact ⟨fun hne => ⟨rfl, hne⟩, fun _ hdel => hdel.2⟩
    | uds =>
      have h : (match saveBytesToDisk o.saveContract byteCode request.contractKey false d with
        | (some err, d) => _
        | (none, d) => _) = Except.ok (response, d') := h
      rcases hsave : saveBytesToDisk o.saveContract byteCode request.contractKey false d with
        ⟨_ | err, d₁⟩
      · rw [hsave] at h
        cases h
        exact saved_delivered hempty hsave
      · rw [hsave] at h
        cases h
        exact saved_delivered hempty hsave

/-- Everything succeeds: the archive has the binary of the contract. -/
def SaveOutcome.good : SaveOutcome := ⟨true, none, none, none, none, none⟩

def Outcomes.good : Outcomes where
  getContractBytecode := .ok (text "7z")
  addLatestStorageDuration := none
  uuid := text "1"
  saveZip := .good
  runCmd := none
  readDir := .ok [text "chain1#fact#v1.7z", text "fact"]
  readFile _ := .ok (text "ELF")
  saveContract := .good

/-- A request of the engine. -/
def contractRequest : DockerVMMessage where
  chainId := text "chain1"
  txId := text "tx1#1"
  type := .getBytecodeRequest
  crossContext := none
  sysCallMessage := none
  request := some ⟨text "chain1", text "fact", text "v1"⟩
  response := none

theorem bytecode_delivered_fetched :
    ∃ response d', handleGetByteCodeRequest (text "chain1") .uds .good contractRequest []
        (fun _ => none) = .ok (response, d') ∧ response.code = .ok ∧
      Delivered .uds ⟨text "chain1", text "fact", text "v1"⟩ (text "ELF") response d' := by
  have h : handleGetByteCodeRequest (text "chain1") .uds .good contractRequest [] (fun _ => none) =
    .ok (_, _) := rfl
  obtain ⟨exe, hexe, hdel, -⟩ := bytecode_delivered rfl h rfl
  cases hexe
  exact ⟨_, _, rfl, rfl, hdel fun hne => absurd rfl hne⟩

/-- The disk is full, and the archive has an empty file. -/
def Outcomes.bad : Outcomes :=
  { Outcomes.good with
    saveContract := { SaveOutcome.good with write := some (1, text "no space left on device") }
    readFile := fun _ => .ok [] }

/-- The code is OK although the given bytecode was not written, and although the response has no
    bytecode. -/
theorem bytecode_undelivered :
    (∃ response d', handleGetByteCodeRequest (text "chain1") .uds .bad contractRequest (text "ELF")
        (fun _ => none) = .ok (response, d') ∧ response.code = .ok ∧
      d' (text "chain1#fact#v1") = some ⟨text "E", false⟩) ∧
    ∃ response d', handleGetByteCodeRequest (text "chain1") .tcp .bad contractRequest []
        (fun _ => none) = .ok (response, d') ∧ response.code = .ok ∧ response.result = [] :=
  ⟨⟨_, _, rfl, rfl, by decide⟩, ⟨_, _, rfl, rfl, rfl⟩⟩

end VmEngine.Runtime
