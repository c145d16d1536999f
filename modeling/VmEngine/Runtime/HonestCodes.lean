/-
  When a success code means success (`runtime_handler.go`, the handlers of system calls).

  `failures` lists the steps of an operation that fail: decoding its payload, merging the
  pending writes, checking keys, finding the iterator, accessing the state and paying for
  it.  A handler is honest if it returns the success code only when this list is empty.

  Five handlers are.  The other three have branches that note an error, or none at all, and
  leave the code of the fresh response, which is the success code; `Hidden` says when such a
  branch is taken.  `syscall_code_honest` says that nothing else is wrong with them.
-/
import VmEngine.Runtime.Invoke

namespace VmEngine.Runtime

variable {σ κ η α : Type}

/-- A step of an operation that fails. -/
inductive Failure where
  /-- the payload does not have, or does not encode, what is needed -/
  | decode
  | merge
  | keyCheck
  /-- there is no iterator of the right kind under the index -/
  | lookup
  | storage
  | gas
  /-- the result cannot be encoded -/
  | marshal
  /-- the called contract fails, or must not be called -/
  | call
deriving DecidableEq, Repr

/-- A step, and what follows if it succeeds. -/
def attempt (f : Failure) (step : Except Bytes α) (next : α → List Failure) : List Failure :=
  match step with
  | .error _ => [f]
  | .ok a => next a

/-- A charge, and what follows if it can be paid. -/
def payFor (charged : UInt64 × Option Bytes) (next : UInt64 → List Failure) : List Failure :=
  match charged with
  | (_, some _) => [.gas]
  | (gasUsed, none) => next gasUsed

/-- The arguments of a handler. -/
structure SysRequest (σ κ η : Type) where
  ord : MapOrder
  txId : Bytes
  recvMsg : DockerVMMessage
  gasUsed : UInt64
  contract : Contract
  state : RuntimeState σ κ η

/-- The payload of the message. -/
def SysRequest.params (r : SysRequest σ κ η) : Payload :=
  (r.recvMsg.sysCallMessage.map (·.payload)).getD []

/-- The system calls of a sandbox. -/
inductive SysCall where
  | getState
  | getBatchState
  | createKvIterator
  | consumeKvIterator
  | createKeyHistoryIterator
  | consumeKeyHistoryIterator
  | getSenderAddress
  | callContract
deriving DecidableEq, Repr

variable (P : Protocol) (S : TxSimContext σ κ η)

/-- The handler of a system call. -/
def SysCall.handle (r : SysRequest σ κ η) : SysCall → Go (Reply σ κ η)
  | getState => handleGetStateRequest P S r.txId r.recvMsg r.gasUsed r.state
  | getBatchState => handleGetBatchStateRequest P S r.txId r.recvMsg r.gasUsed r.state
  | createKvIterator =>
    handleCreateKvIterator P S r.ord r.txId r.recvMsg r.gasUsed r.contract.name r.state
  | consumeKvIterator => handleConsumeKvIterator P S r.txId r.recvMsg r.gasUsed r.state
  | createKeyHistoryIterator =>
    handleCreateKeyHistoryIterator P S r.ord r.txId r.recvMsg r.gasUsed r.contract.name r.state
  | consumeKeyHistoryIterator =>
    handleConsumeKeyHistoryIterator P S r.txId r.recvMsg r.gasUsed r.state
  | getSenderAddress => handleGetSenderAddress P S r.txId r.gasUsed r.state
  | callContract =>
    (handlerCallContract P S r.txId r.recvMsg r.gasUsed r.contract r.state).map Prod.fst

/-! ## The steps of each operation -/

section
variable (params : Payload) (gasUsed : UInt64) (s : σ)

def getStateFailures : List Failure :=
  match params.lookup .contractName with
  | none => [.decode]
  | some contractName =>
    let keyList := split (params.get .stateKey)
    attempt .storage (S.get s contractName (params.get .stateKey)).1 fun value =>
      payFor (getStateGasUsed P S.blockVersion (S.gasConfig P) gasUsed contractName
        (keyList.headD []) (keyList.tail.headD []) (value.getD [])) fun _ => []

def getBatchStateFailures : List Failure :=
  attempt .decode (P.unmarshalBatchKeys (params.get .stateKey)) fun keys =>
    attempt .storage (S.getKeys s keys).1 fun getKeys =>
      attempt .marshal (P.marshalBatchKeys getKeys) fun payload =>
        payFor (getBatchStateGasUsed P S.blockVersion (S.gasConfig P) gasUsed payload) fun _ => []

/-- An error that a key-value request notes: it is charged, and the request goes on. -/
def noted (f : Failure) (err : Option Bytes) (gasUsed : UInt64) (next : UInt64 → List Failure) :
    List Failure :=
  match err with
  | none => next gasUsed
  | some _ =>
    f :: payFor (createKvIteratorGasUsed P S.blockVersion (S.gasConfig P) params gasUsed) next

/-- The `switch` of the creation, which has no `default`: with another function name nothing is
    created. -/
def kvIteratorFailures : List Failure :=
  let name := params.get .contractName
  let key := P.getKeyStr (params.get .iterStartKey) (params.get .iterStartField)
  if params.get .iteratorFuncName = funcKvIteratorCreate then
    payFor (createKvIteratorGasUsed P S.blockVersion (S.gasConfig P) params gasUsed) fun _ =>
      match P.checkKeyFieldStr (params.get .iterLimitKey) (params.get .iterLimitField) with
      | some _ => [.keyCheck]
      | none =>
        let limit := P.getKeyStr (params.get .iterLimitKey) (params.get .iterLimitField)
        attempt .storage (S.select s name key limit).1 fun _ => []
  else if params.get .iteratorFuncName = funcKvPreIteratorCreate then
    payFor (createKvIteratorGasUsed P S.blockVersion (S.gasConfig P) params gasUsed) fun _ =>
      match prefixLimit key with
      | .error _ => []
      | .ok limit => attempt .storage (S.select s name key limit).1 fun _ => []
  else [.decode]

def createKvFailures (ord : MapOrder) (contractName : Bytes) : List Failure :=
  let decoded := P.unmarshalWriteMap (params.get .writeMap)
  noted P S params .decode decoded.1 gasUsed fun gasUsed =>
    let merged := mergeSimContextWriteMap P S ord decoded.2 gasUsed contractName s
    noted P S params .merge merged.err merged.gasUsed fun gasUsed =>
      noted P S params .keyCheck
        (P.checkKeyFieldStr (params.get .iterStartKey) (params.get .iterStartField)) gasUsed
        fun gasUsed => kvIteratorFailures P S params gasUsed merged.store

/-- The step on a key-value iterator. -/
def consumeKvFailures (iter : κ) : List Failure :=
  let func := params.get .iteratorFuncName
  if func = funcKvIteratorNext then
    payFor (chargeLt2312 S (consumeKvIteratorGasUsedLt2312 P) gasUsed) fun _ =>
      attempt .storage (S.kvValue s iter).1 fun _ => []
  else if func = funcKvIteratorHasNext ∨ func = funcKvIteratorClose then
    payFor (consumeKvIteratorGasUsed P S.blockVersion (S.gasConfig P) gasUsed) fun _ => []
  else [.decode]

/-- A key-value iterator that is not found: the consumption is charged. -/
def kvNotFound (f : Failure) : List Failure :=
  f :: payFor (consumeKvIteratorGasUsed P S.blockVersion (S.gasConfig P) gasUsed) fun _ => []

def consumeKvAtFailures (sim : SimContext σ κ η) : List Failure :=
  match P.bytesToInt (params.get .iterIndex) with
  | .error _ => kvNotFound P S gasUsed .decode
  | .ok i =>
    match sim.iterHandles i with
    | some (.kv iter) => consumeKvFailures P S params gasUsed sim.store iter
    | _ => kvNotFound P S gasUsed .lookup

def createKeyHistoryFailures (ord : MapOrder) (contractName : Bytes) : List Failure :=
  payFor (createKeyHistoryIterGasUsed P S.blockVersion (S.gasConfig P) params gasUsed) fun gasUsed =>
    match P.unmarshalWriteMap (params.get .writeMap) with
    | (some _, _) => [.decode]
    | (none, writeMap) =>
      let merged := mergeSimContextWriteMap P S ord writeMap gasUsed contractName s
      let keyStr := params.get .historyIterKey
      let field := params.get .historyIterField
      match merged.err, P.checkKeyFieldStr keyStr field with
      | some _, _ => [.merge]
      | none, some _ => [.keyCheck]
      | none, none =>
        attempt .storage (S.getHistoryIterForKey merged.store (params.get .contractName)
          (P.getKeyStr keyStr field)).1 fun _ => []

/-- The step on a history iterator. -/
def consumeKeyHistoryFailures (iter : η) : List Failure :=
  let func := params.get .iteratorFuncName
  if func = funcKeyHistoryIterNext then
    payFor (chargeLt2312 S (consumeKeyHistoryIterGasUsedLt2312 P) gasUsed) fun _ =>
      attempt .storage (S.historyValue s iter).1 fun _ => []
  else if func = funcKeyHistoryIterHasNext ∨ func = funcKeyHistoryIterClose then
    payFor (consumeKeyHistoryIterGasUsed P S.blockVersion (S.gasConfig P) gasUsed) fun _ => []
  else [.decode]

def consumeKeyHistoryAtFailures (sim : SimContext σ κ η) : List Failure :=
  payFor (currentGasUsed P S gasUsed) fun _ =>
    match P.bytesToInt (params.get .iterIndex) with
    | .error _ => [.decode]
    | .ok i =>
      match sim.iterHandles i with
      | some (.history iter) => consumeKeyHistoryFailures P S params gasUsed sim.store iter
      | _ => [.lookup]

def getSenderAddressFailures : List Failure :=
  payFor (getSenderAddressGasUsed P gasUsed) fun _ =>
    attempt .storage (S.getSenderAddress s).1 fun _ => []

/-- The outcome of the called contract, its events and its response. -/
def finishCallFailures (call : CrossCall) (out : CallOutcome) (st : RuntimeState σ κ η) :
    List Failure :=
  match out.code with
  | .failure _ => [.call]
  | .success =>
    match (emitEvents P S out.result.contractEvent out.result.gasUsed st.inst.event).2.1 with
    | some _ => [.gas]
    | none =>
      attempt .marshal (P.marshalContractResponse
        (constructCallContractResponse S out.result call.caller.name st.sim.store)) fun _ => []

def callContractFailures (recvMsg : DockerVMMessage) (caller : Contract) (st : RuntimeState σ κ η) :
    List Failure :=
  attempt .decode (P.unmarshalCallContractRequest (params.get .callContractReq)) fun req =>
    if req.contractName.length = 0 ∨ req.contractMethod.length = 0 then [.decode]
    else
      match recvMsg.crossContext with
      | none => []
      | some cross =>
        if cross.currentDepth > P.callContractDepth then [.call]
        else
          let found := S.getContractByName st.sim.store req.contractName
          attempt .storage found.1 fun contract =>
            payFor (callContractGasUsed P S.blockVersion (S.gasConfig P) gasUsed req.contractName
              req.contractMethod req.args) fun gasUsed =>
              let call := ⟨caller, contract, req.contractMethod, req.args, gasUsed⟩
              let r := S.callContract (st.withStore found.2).sim call
              finishCallFailures P S call r.1 { st with sim := r.2 }

end

/-- The steps of a system call that fail. -/
def SysCall.failures (r : SysRequest σ κ η) : SysCall → List Failure
  | getState => getStateFailures P S r.params r.gasUsed r.state.sim.store
  | getBatchState => getBatchStateFailures P S r.params r.gasUsed r.state.sim.store
  | createKvIterator =>
    createKvFailures P S r.params r.gasUsed r.state.sim.store r.ord r.contract.name
  | consumeKvIterator => consumeKvAtFailures P S r.params r.gasUsed r.state.sim
  | createKeyHistoryIterator =>
    createKeyHistoryFailures P S r.params r.gasUsed r.state.sim.store r.ord r.contract.name
  | consumeKeyHistoryIterator => consumeKeyHistoryAtFailures P S r.params r.gasUsed r.state.sim
  | getSenderAddress => getSenderAddressFailures P S r.gasUsed r.state.sim.store
  | callContract => callContractFailures P S r.params r.gasUsed r.recvMsg r.contract r.state

/-- An error that a handler notes without setting the code. -/
def SysCall.Hidden (r : SysRequest σ κ η) : SysCall → Prop
  | getBatchState =>
    ∃ keys, P.unmarshalBatchKeys (r.params.get .stateKey) = .ok keys ∧
      ((∃ err, (S.getKeys r.state.sim.store keys).1 = .error err) ∨
        ∃ getKeys err, (S.getKeys r.state.sim.store keys).1 = .ok getKeys ∧
          P.marshalBatchKeys getKeys = .error err)
  | createKvIterator =>
    (P.unmarshalWriteMap (r.params.get .writeMap)).1 ≠ none ∨
      (mergeSimContextWriteMap P S r.ord (P.unmarshalWriteMap (r.params.get .writeMap)).2 r.gasUsed
        r.contract.name r.state.sim.store).err ≠ none ∨
      P.checkKeyFieldStr (r.params.get .iterStartKey) (r.params.get .iterStartField) ≠ none ∨
      r.params.get .iteratorFuncName ∉ [funcKvIteratorCreate, funcKvPreIteratorCreate]
  | consumeKvIterator =>
    ¬ ∃ i iter, P.bytesToInt (r.params.get .iterIndex) = .ok i ∧
      r.state.sim.iterHandles i = some (.kv iter)
  | _ => False

/-! ## State and the sender -/

variable {P S} {params : Payload} {gasUsed : UInt64} {txId : Bytes} {m : DockerVMMessage}
  {call : SysCallMessage} {st : RuntimeState σ κ η} {reply : Reply σ κ η}

@[simp] theorem attempt_error (f : Failure) (err : Bytes) (next : α → List Failure) :
    attempt f (.error err) next = [f] := rfl

@[simp] theorem attempt_ok (f : Failure) (a : α) (next : α → List Failure) :
    attempt f (.ok a) next = next a := rfl

@[simp] theorem payFor_error (g : UInt64) (err : Bytes) (next : UInt64 → List Failure) :
    payFor (g, some err) next = [.gas] := rfl

@[simp] theorem payFor_none (g : UInt64) (next : UInt64 → List Failure) :
    payFor (g, none) next = next g := rfl

theorem getState_honest (hm : m.sysCallMessage = some call)
    (h : handleGetStateRequest P S txId m gasUsed st = .ok reply) :
    reply.message.code = .ok ↔ getStateFailures P S call.payload gasUsed st.sim.store = [] := by
  revert h
  simp only [handleGetStateRequest, getStateFailures, hm]
  rcases List.lookup PayloadKey.contractName call.payload with _ | name
  · rintro ⟨⟩
    simp [SysCallMessage.failed]
  dsimp only
  rcases S.get st.sim.store name (call.payload.get .stateKey) with ⟨err | value, s⟩
  · rintro ⟨⟩
    simp [SysCallMessage.failed]
  intro h
  obtain ⟨key, -, h⟩ := Go.bind_eq_ok.1 h
  obtain ⟨field, -, h⟩ := Go.bind_eq_ok.1 h
  -- the charge does not depend on key and field
  have hgas : ∀ k f, getStateGasUsed P S.blockVersion (S.gasConfig P) gasUsed name k f
      (value.getD []) = getStateGasUsed P S.blockVersion (S.gasConfig P) gasUsed name key field
      (value.getD []) := fun _ _ => rfl
  rw [attempt_ok, hgas]
  revert h
  rcases getStateGasUsed P S.blockVersion (S.gasConfig P) gasUsed name key field (value.getD [])
    with ⟨g, _ | err⟩
  · rintro ⟨⟩
    simp
  · rintro ⟨⟩
    simp

theorem getSenderAddress_honest (h : handleGetSenderAddress P S txId gasUsed st = .ok reply) :
    reply.message.code = .ok ↔ getSenderAddressFailures P S gasUsed st.sim.store = [] := by
  revert h
  simp only [handleGetSenderAddress, getSenderAddressFailures]
  rcases getSenderAddressGasUsed P gasUsed with ⟨g, _ | err⟩
  · dsimp only [payFor_none]
    rcases S.getSenderAddress st.sim.store with ⟨err | address, s⟩
    · rintro ⟨⟩
      simp [SysCallMessage.failed]
    · rintro ⟨⟩
      simp
  · rintro ⟨⟩
    simp [SysCallMessage.failed]

/-- Two errors do not set the code. -/
theorem getBatchState_code (hm : m.sysCallMessage = some call)
    (h : handleGetBatchStateRequest P S txId m gasUsed st = .ok reply)
    (hok : reply.message.code = .ok) :
    getBatchStateFailures P S call.payload gasUsed st.sim.store = [] ↔
      ¬ ∃ keys, P.unmarshalBatchKeys (call.payload.get .stateKey) = .ok keys ∧
        ((∃ err, (S.getKeys st.sim.store keys).1 = .error err) ∨
          ∃ getKeys err, (S.getKeys st.sim.store keys).1 = .ok getKeys ∧
            P.marshalBatchKeys getKeys = .error err) := by
  revert h
  simp only [handleGetBatchStateRequest, getBatchStateFailures, hm]
  rcases P.unmarshalBatchKeys (call.payload.get .stateKey) with err | keys
  · rintro ⟨⟩
    cases hok
  simp only [attempt_ok, Except.ok.injEq, exists_eq_left']
  rcases S.getKeys st.sim.store keys with ⟨err | getKeys, s⟩
  · rintro ⟨⟩
    simp
  simp only [attempt_ok, Except.ok.injEq, reduceCtorEq, exists_false, false_or, exists_and_left,
    exists_eq_left']
  rcases P.marshalBatchKeys getKeys with err | payload
  · rintro ⟨⟩
    simp
  dsimp only [attempt_ok]
  rcases getBatchStateGasUsed P S.blockVersion (S.gasConfig P) gasUsed payload with ⟨g, _ | err⟩
  · rintro ⟨⟩
    simp
  · rintro ⟨⟩
    cases hok

/-! ## Key-value iterators -/

variable {c : Consumed σ} {s : σ}

/-- A creation without an error has failed only if the function name is unknown. -/
theorem kvIteratorOf_code {g : UInt64} {x : Except Bytes (Option κ) × UInt64 × σ}
    (h : kvIteratorOf P S (params.get .iteratorFuncName) (params.get .contractName) params g s =
      .ok x) {iter : Option κ} (hiter : x.1 = .ok iter) :
    kvIteratorFailures P S params g s = [] ↔
      params.get .iteratorFuncName ∈ [funcKvIteratorCreate, funcKvPreIteratorCreate] := by
  revert h
  simp only [kvIteratorOf, kvIteratorFailures]
  split_ifs with hcreate hpre
  · intro h
    refine iff_of_true ?_ (by simp [hcreate])
    revert h
    simp only [kvIteratorCreate]
    rcases createKvIteratorGasUsed P S.blockVersion (S.gasConfig P) params g with ⟨g', _ | err⟩
    · dsimp only [payFor_none]
      rcases P.checkKeyFieldStr (params.get .iterLimitKey) (params.get .iterLimitField) with _ | err
      · rintro ⟨⟩
        dsimp only at hiter ⊢
        rw [hiter, attempt_ok]
      · rintro ⟨⟩
        cases hiter
    · rintro ⟨⟩
      cases hiter
  · intro h
    refine iff_of_true ?_ (by simp [hpre])
    revert h
    simp only [kvPreIteratorCreate]
    rcases createKvIteratorGasUsed P S.blockVersion (S.gasConfig P) params g with ⟨g', _ | err⟩
    · dsimp only [payFor_none]
      intro h
      obtain ⟨limit, hlimit, h⟩ := Go.bind_eq_ok.1 h
      cases h
      rw [hlimit]
      dsimp only at hiter ⊢
      rw [hiter, attempt_ok]
    · rintro ⟨⟩
      cases hiter
  · intro _
    exact iff_of_false (by simp) (by simp [hcreate, hpre])

/-- An error that is noted ends the request with a failure, or remains among the failures. -/
theorem noteCreateErr_noted (params : Payload) (err : Option Bytes) (note : Bytes) (g : UInt64) :
    (∃ msg g', noteCreateErr P S params err (note, g) = .error (msg, g') ∧ msg.code = .fail) ∨
    ∃ note' g', noteCreateErr P S params err (note, g) = .ok (note', g') ∧ (err = none → g' = g) ∧
      ∀ f next, noted P S params f err g next = [] ↔ err = none ∧ next g' = [] := by
  rcases err with _ | err
  · exact Or.inr ⟨note, g, rfl, fun _ => rfl, fun f next => by simp [noted]⟩
  · simp only [noteCreateErr]
    rcases createKvIteratorGasUsed P S.blockVersion (S.gasConfig P) params g with ⟨g', _ | err'⟩
    · refine Or.inr ⟨err, g', rfl, fun hnone => ?_, fun f next => by simp [noted]⟩
      exact absurd hnone (Option.some_ne_none err)
    · exact Or.inl ⟨_, g', rfl, rfl⟩

/-- Three errors are noted and the request goes on, as it does with an unknown function name. -/
theorem createKv_code {ord : MapOrder} {contractName : Bytes} (hm : m.sysCallMessage = some call)
    (h : handleCreateKvIterator P S ord txId m gasUsed contractName st = .ok reply)
    (hok : reply.message.code = .ok) :
    createKvFailures P S call.payload gasUsed st.sim.store ord contractName = [] ↔
      ¬ ((P.unmarshalWriteMap (call.payload.get .writeMap)).1 ≠ none ∨
        (mergeSimContextWriteMap P S ord (P.unmarshalWriteMap (call.payload.get .writeMap)).2 gasUsed
          contractName st.sim.store).err ≠ none ∨
        P.checkKeyFieldStr (call.payload.get .iterStartKey) (call.payload.get .iterStartField) ≠
          none ∨
        call.payload.get .iteratorFuncName ∉ [funcKvIteratorCreate, funcKvPreIteratorCreate]) := by
  simp only [handleCreateKvIterator, hm] at h
  simp only [createKvFailures, not_or, not_not]
  rcases noteCreateErr_noted (P := P) (S := S) call.payload
      (P.unmarshalWriteMap (call.payload.get .writeMap)).1 [] gasUsed with
    ⟨msg, g, hn, hfail⟩ | ⟨note, g, hn, hgas, hnoted⟩
  · rw [hn] at h
    cases h
    rw [hfail] at hok
    cases hok
  rw [hn] at h
  rw [hnoted]
  refine and_congr_right fun hdecoded => ?_
  obtain rfl := hgas hdecoded
  dsimp only at h ⊢
  generalize mergeSimContextWriteMap P S ord (P.unmarshalWriteMap (call.payload.get .writeMap)).2 g
    contractName st.sim.store = merged at h ⊢
  rcases noteCreateErr_noted (P := P) (S := S) call.payload merged.err note
      merged.gasUsed with ⟨msg, g, hn, hfail⟩ | ⟨note, g, hn, -, hnoted⟩
  · rw [hn] at h
    cases h
    rw [hfail] at hok
    cases hok
  rw [hn] at h
  rw [hnoted]
  refine and_congr_right fun _ => ?_
  dsimp only at h
  rcases noteCreateErr_noted (P := P) (S := S) call.payload
      (P.checkKeyFieldStr (call.payload.get .iterStartKey) (call.payload.get .iterStartField)) note g
    with ⟨msg, g, hn, hfail⟩ | ⟨note, g, hn, -, hnoted⟩
  · rw [hn] at h
    cases h
    rw [hfail] at hok
    cases hok
  rw [hn] at h
  rw [hnoted]
  obtain ⟨x, hx, h⟩ := Go.bind_eq_ok.1 h
  rcases hiter : x.1 with err | iter
  · rw [hiter] at h
    cases h
    cases hok
  · exact and_congr_right fun _ => kvIteratorOf_code hx hiter

theorem kvIteratorNext_honest {iter : κ} (h : kvIteratorNext P S (some iter) gasUsed s = .ok c) :
    c.message.code = .ok ↔
      (payFor (chargeLt2312 S (consumeKvIteratorGasUsedLt2312 P) gasUsed) fun _ =>
        attempt .storage (S.kvValue s iter).1 fun _ => []) = [] := by
  revert h
  simp only [kvIteratorNext]
  rcases chargeLt2312 S (consumeKvIteratorGasUsedLt2312 P) gasUsed with ⟨g, _ | err⟩
  · dsimp only [payFor_none]
    rcases S.kvValue s iter with ⟨err | _ | row, s⟩
    · rintro ⟨⟩
      simp [SysCallMessage.failed]
    · rintro ⟨⟩
    · intro h
      obtain ⟨key, -, h⟩ := Go.bind_eq_ok.1 h
      obtain ⟨field, -, h⟩ := Go.bind_eq_ok.1 h
      simp only [consumeKvIteratorNextGasUsed2312] at h
      split_ifs at h <;> (cases h; simp)
  · rintro ⟨⟩
    simp [SysCallMessage.failed]

/-- A step that is only charged. -/
theorem iterHasNext_honest (charged : UInt64 × Option Bytes) (next : σ → Bool × σ) (s : σ) :
    (iterHasNext P charged next s).message.code = .ok ↔ (payFor charged fun _ => []) = [] := by
  rcases charged with ⟨g, _ | err⟩ <;> simp [iterHasNext, SysCallMessage.failed]

theorem iterClose_honest (charged : UInt64 × Option Bytes) (release : σ → σ) (s : σ) :
    (iterClose charged release s).message.code = .ok ↔ (payFor charged fun _ => []) = [] := by
  rcases charged with ⟨g, _ | err⟩ <;> simp [iterClose, SysCallMessage.failed]

/-- The `switch` over the step on an iterator, whose `next` is honest. -/
theorem iterSwitch_honest {func hasNext next close err : Bytes} {charged : UInt64 × Option Bytes}
    {step : Go (Consumed σ)} {more : σ → Bool × σ} {release : σ → σ} {fs : List Failure}
    (hhasNext : hasNext ≠ next) (hclose : close ≠ next)
    (h : (if func = hasNext then .ok (iterHasNext P charged more s)
      else if func = next then step
      else if func = close then .ok (iterClose charged release s)
      else .ok ⟨.failed err, gasUsed, s⟩) = Except.ok c)
    (hnext : step = .ok c → (c.message.code = .ok ↔ fs = [])) :
    c.message.code = .ok ↔ (if func = next then fs
      else if func = hasNext ∨ func = close then payFor charged fun _ => [] else [.decode]) = [] := by
  split_ifs at h with h₁ h₂ h₃
  · cases h
    rw [h₁, if_neg hhasNext, if_pos (Or.inl rfl)]
    exact iterHasNext_honest _ _ _
  · rw [if_pos h₂]
    exact hnext h
  · cases h
    rw [h₃, if_neg hclose, if_pos (Or.inr rfl)]
    exact iterClose_honest _ _ _
  · cases h
    rw [if_neg h₂, if_neg (by tauto)]
    simp [SysCallMessage.failed]

theorem consumeKv_honest {iter : κ}
    (h : consumeKv P S (params.get .iteratorFuncName) iter gasUsed s = .ok c) :
    c.message.code = .ok ↔ consumeKvFailures P S params gasUsed s iter = [] := by
  exact iterSwitch_honest (by decide) (by decide) h kvIteratorNext_honest

/-- Without an iterator the consumption is charged, and the code stays. -/
theorem consumeKv_code (hm : m.sysCallMessage = some call)
    (h : handleConsumeKvIterator P S txId m gasUsed st = .ok reply)
    (hok : reply.message.code = .ok) :
    consumeKvAtFailures P S call.payload gasUsed st.sim = [] ↔
      ∃ i iter, P.bytesToInt (call.payload.get .iterIndex) = .ok i ∧
        st.sim.iterHandles i = some (.kv iter) := by
  simp only [handleConsumeKvIterator, hm] at h
  obtain ⟨c, hc, h⟩ := Go.bind_eq_ok.1 h
  cases h
  revert hc
  simp only [consumeKvAt, consumeKvAtFailures]
  rcases P.bytesToInt (call.payload.get .iterIndex) with err | i
  · intro _
    simp [kvNotFound]
  simp only [Except.ok.injEq, exists_and_left, exists_eq_left']
  rcases st.sim.iterHandles i with _ | ⟨_ | iter | iter⟩
  · intro _
    simp [kvNotFound]
  · intro _
    simp [kvNotFound]
  · intro hc
    exact iff_of_true ((consumeKv_honest hc).1 hok) ⟨iter, rfl⟩
  · intro _
    simp [kvNotFound]

/-! ## Key history iterators -/

theorem createKeyHistory_honest {ord : MapOrder} {contractName : Bytes}
    (hm : m.sysCallMessage = some call)
    (h : handleCreateKeyHistoryIterator P S ord txId m gasUsed contractName st = .ok reply) :
    reply.message.code = .ok ↔
      createKeyHistoryFailures P S call.payload gasUsed st.sim.store ord contractName = [] := by
  revert h
  simp only [handleCreateKeyHistoryIterator, createKeyHistoryFailures, hm]
  rcases createKeyHistoryIterGasUsed P S.blockVersion (S.gasConfig P) call.payload gasUsed with
    ⟨g, _ | err⟩
  · dsimp only [payFor_none]
    rcases P.unmarshalWriteMap (call.payload.get .writeMap) with ⟨_ | err, writeMap⟩
    · dsimp only
      generalize mergeSimContextWriteMap P S ord writeMap g contractName st.sim.store = merged
      rcases merged.err with _ | err
      · dsimp only
        rcases P.checkKeyFieldStr (call.payload.get .historyIterKey)
          (call.payload.get .historyIterField) with _ | err
        · dsimp only [RuntimeState.withStore]
          rcases S.getHistoryIterForKey merged.store (call.payload.get .contractName) _ with
            ⟨err | iter, s⟩
          · rintro ⟨⟩
            simp [SysCallMessage.failed]
          · rintro ⟨⟩
            simp
        · rintro ⟨⟩
          simp [SysCallMessage.failed]
      · rintro ⟨⟩
        simp [SysCallMessage.failed]
    · rintro ⟨⟩
      simp [SysCallMessage.failed]
  · rintro ⟨⟩
    simp [SysCallMessage.failed]

theorem keyHistoryIterNext_honest {iter : η}
    (h : keyHistoryIterNext P S (some iter) gasUsed s = .ok c) :
    c.message.code = .ok ↔
      (payFor (chargeLt2312 S (consumeKeyHistoryIterGasUsedLt2312 P) gasUsed) fun _ =>
        attempt .storage (S.historyValue s iter).1 fun _ => []) = [] := by
  revert h
  simp only [keyHistoryIterNext]
  rcases chargeLt2312 S (consumeKeyHistoryIterGasUsedLt2312 P) gasUsed with ⟨g, _ | err⟩
  · dsimp only [payFor_none]
    rcases S.historyValue s iter with ⟨err | _ | v, s⟩
    · rintro ⟨⟩
      simp [SysCallMessage.failed]
    · rintro ⟨⟩
    · intro h
      simp only [consumeKeyHistoryIterNextGasUsed2312] at h
      split_ifs at h <;> (cases h; simp)
  · rintro ⟨⟩
    simp [SysCallMessage.failed]

theorem consumeKeyHistory_step_honest {iter : η} {current : UInt64}
    (h : consumeKeyHistory P S (params.get .iteratorFuncName) iter gasUsed current s = .ok c) :
    c.message.code = .ok ↔ consumeKeyHistoryFailures P S params gasUsed s iter = [] := by
  exact iterSwitch_honest (by decide) (by decide) h keyHistoryIterNext_honest

theorem consumeKeyHistory_honest (hm : m.sysCallMessage = some call)
    (h : handleConsumeKeyHistoryIterator P S txId m gasUsed st = .ok reply) :
    reply.message.code = .ok ↔ consumeKeyHistoryAtFailures P S call.payload gasUsed st.sim = [] := by
  revert h
  simp only [handleConsumeKeyHistoryIterator, consumeKeyHistoryAtFailures, hm]
  rcases currentGasUsed P S gasUsed with ⟨current, _ | err⟩
  · dsimp only [payFor_none]
    intro h
    obtain ⟨c, hc, h⟩ := Go.bind_eq_ok.1 h
    cases h
    revert hc
    dsimp only [consumeKeyHistoryAt]
    rcases P.bytesToInt (call.payload.get .iterIndex) with err | i
    · rintro ⟨⟩
      simp [SysCallMessage.failed]
    dsimp only
    rcases st.sim.iterHandles i with _ | ⟨_ | iter | iter⟩
    · rintro ⟨⟩
      simp [SysCallMessage.failed]
    · rintro ⟨⟩
      simp [SysCallMessage.failed]
    · rintro ⟨⟩
      simp [SysCallMessage.failed]
    · exact consumeKeyHistory_step_honest
  · rintro ⟨⟩
    simp [SysCallMessage.failed]

/-! ## Calls of contracts -/

theorem finishCallContract_honest (cross : CrossCall) (out : CallOutcome) :
    (finishCallContract P S txId cross out st).1.message.code = .ok ↔
      finishCallFailures P S cross out st = [] := by
  unfold finishCallContract finishCallFailures
  rcases out.code with _ | name
  · dsimp only
    rcases emitEvents P S out.result.contractEvent out.result.gasUsed st.inst.event with
      ⟨g, _ | err, events⟩
    · dsimp only
      rcases P.marshalContractResponse
        (constructCallContractResponse S out.result cross.caller.name st.sim.store) with err | b
      · simp [SysCallMessage.failed]
      · simp
    · simp [SysCallMessage.failed]
  · simp

theorem callContract_honest {caller : Contract} {x : Reply σ κ η × ExecOrderTxType}
    (hm : m.sysCallMessage = some call)
    (h : handlerCallContract P S txId m gasUsed caller st = .ok x) :
    x.1.message.code = .ok ↔ callContractFailures P S call.payload gasUsed m caller st = [] := by
  obtain ⟨start, hstart, h⟩ := Go.bind_eq_ok.1 h
  revert hstart
  simp only [startCallContract, callContractFailures, hm]
  rcases P.unmarshalCallContractRequest (call.payload.get .callContractReq) with err | req
  · rintro ⟨⟩
    cases h
    simp [SysCallMessage.failed]
  dsimp only [attempt_ok]
  by_cases hname : req.contractName.length = 0
  · rw [if_pos hname, if_pos (Or.inl hname)]
    rintro ⟨⟩
    cases h
    simp [SysCallMessage.failed]
  by_cases hmethod : req.contractMethod.length = 0
  · rw [if_neg hname, if_pos hmethod, if_pos (Or.inr hmethod)]
    rintro ⟨⟩
    cases h
    simp [SysCallMessage.failed]
  rw [if_neg hname, if_neg hmethod, if_neg (by tauto)]
  rcases m.crossContext with _ | cross
  · rintro ⟨⟩
  dsimp only
  by_cases hdepth : cross.currentDepth > P.callContractDepth
  · rw [if_pos hdepth, if_pos hdepth]
    rintro ⟨⟩
    cases h
    simp [SysCallMessage.failed]
  rw [if_neg hdepth, if_neg hdepth]
  rcases S.getContractByName st.sim.store req.contractName with ⟨err | contract, s⟩
  · rintro ⟨⟩
    cases h
    simp [SysCallMessage.failed]
  dsimp only [attempt_ok]
  rcases callContractGasUsed P S.blockVersion (S.gasConfig P) gasUsed req.contractName
    req.contractMethod req.args with ⟨g, _ | err⟩
  · rintro ⟨⟩
    cases h
    exact finishCallContract_honest _ _
  · rintro ⟨⟩
    cases h
    simp [SysCallMessage.failed]

/-! ## All system calls -/

/-- Without a payload only the sender's address is returned. -/
theorem handle_of_none {c : SysCall} {r : SysRequest σ κ η} (hm : r.recvMsg.sysCallMessage = none)
    (h : c.handle P S r = .ok reply) (hok : reply.message.code = .ok) : c = .getSenderAddress := by
  cases c with
  | getSenderAddress => rfl
  | getState | getBatchState | createKvIterator | createKeyHistoryIterator =>
    simp only [SysCall.handle, handleGetStateRequest, handleGetBatchStateRequest,
      handleCreateKvIterator, handleCreateKeyHistoryIterator, hm] at h
    cases h
  | consumeKvIterator =>
    simp only [SysCall.handle, handleConsumeKvIterator, hm] at h
    cases h
  | consumeKeyHistoryIterator =>
    revert h
    simp only [SysCall.handle, handleConsumeKeyHistoryIterator, hm]
    rcases currentGasUsed P S r.gasUsed with ⟨g, _ | err⟩
    · rintro ⟨⟩
    · rintro ⟨⟩
      cases hok
  | callContract =>
    simp only [SysCall.handle, handlerCallContract, startCallContract, hm] at h
    cases h

/-- **Honest codes.**  For every system call, request and context: in a response with the success
    code no step of the operation has failed, unless an error was hidden; and then one has. -/
theorem syscall_code_honest (c : SysCall) (r : SysRequest σ κ η) {reply : Reply σ κ η}
    (h : c.handle P S r = .ok reply) (hok : reply.message.code = .ok) :
    c.failures P S r = [] ↔ ¬ c.Hidden P S r := by
  rcases hm : r.recvMsg.sysCallMessage with _ | call
  · obtain rfl := handle_of_none hm h hok
    exact iff_of_true ((getSenderAddress_honest h).1 hok) not_false
  have hparams : r.params = call.payload := by
    rw [SysRequest.params, hm]
    rfl
  unfold SysCall.failures SysCall.Hidden
  rw [hparams]
  cases c with
  | getState => exact iff_of_true ((getState_honest hm h).1 hok) not_false
  | getBatchState => exact getBatchState_code hm h hok
  | createKvIterator => exact createKv_code hm h hok
  | consumeKvIterator =>
    rw [not_not]
    exact consumeKv_code hm h hok
  | createKeyHistoryIterator => exact iff_of_true ((createKeyHistory_honest hm h).1 hok) not_false
  | consumeKeyHistoryIterator => exact iff_of_true ((consumeKeyHistory_honest hm h).1 hok) not_false
  | getSenderAddress => exact iff_of_true ((getSenderAddress_honest h).1 hok) not_false
  | callContract =>
    have h : (handlerCallContract P S r.txId r.recvMsg r.gasUsed r.contract r.state).map Prod.fst =
      .ok reply := h
    rcases hx : handlerCallContract P S r.txId r.recvMsg r.gasUsed r.contract r.state with e | x
    · rw [hx] at h
      cases h
    · rw [hx] at h
      cases h
      exact iff_of_true ((callContract_honest hm hx).1 hok) not_false

/-- A request of a sandbox, in a context without iterators. -/
def sampleRequest (type : DockerVMType) (payload : Payload) : SysRequest SampleStore ℕ ℕ where
  ord := .listed
  txId := text "tx1#1"
  recvMsg := sampleSysCall type payload
  gasUsed := 0
  contract := ⟨text "fact", text "v1"⟩
  state := .sample

theorem syscall_code_honest_get :
    ∃ reply, SysCall.getState.handle .sample (TxSimContext.sample 2030100)
        (sampleRequest .getStateRequest [(.contractName, text "fact"), (.stateKey, text "k")]) =
          .ok reply ∧ reply.message.code = .ok ∧
      SysCall.getState.failures .sample (TxSimContext.sample 2030100)
        (sampleRequest .getStateRequest [(.contractName, text "fact"), (.stateKey, text "k")]) = [] :=
  ⟨_, rfl, rfl, (syscall_code_honest .getState (sampleRequest .getStateRequest
    [(.contractName, text "fact"), (.stateKey, text "k")]) rfl rfl).2 not_false⟩

/-- A context whose state cannot be read. -/
def TxSimContext.broken : TxSimContext SampleStore ℕ ℕ :=
  { TxSimContext.sample 2030102 with getKeys := fun s _ => (.error (text "leveldb: closed"), s) }

/-- Success codes after a failed read of the state, for an iterator that was created although the
    write map could not be decoded, for a creation with an unknown function name, and for an
    iterator that does not exist. -/
theorem syscall_code_dishonest :
    (∃ reply, SysCall.getBatchState.handle .sample TxSimContext.broken
        (sampleRequest .getBatchStateRequest []) = .ok reply ∧ reply.message.code = .ok ∧
      SysCall.getBatchState.failures .sample TxSimContext.broken
        (sampleRequest .getBatchStateRequest []) = [.storage]) ∧
    (∃ reply, SysCall.createKvIterator.handle .sample (TxSimContext.sample 2030100)
        (sampleRequest .createKvIteratorRequest
          [(.iteratorFuncName, funcKvPreIteratorCreate), (.iterStartKey, text "k")]) = .ok reply ∧
      reply.message.code = .ok ∧
      SysCall.createKvIterator.failures .sample (TxSimContext.sample 2030100)
        (sampleRequest .createKvIteratorRequest
          [(.iteratorFuncName, funcKvPreIteratorCreate), (.iterStartKey, text "k")]) = [.decode]) ∧
    (∃ reply, SysCall.createKvIterator.handle .sample (TxSimContext.sample 2030100)
        (sampleRequest .createKvIteratorRequest [(.iteratorFuncName, text "createIterator"),
          (.writeMap, text "null"), (.iterStartKey, text "k")]) = .ok reply ∧
      reply.message.code = .ok ∧
      SysCall.createKvIterator.failures .sample (TxSimContext.sample 2030100)
        (sampleRequest .createKvIteratorRequest [(.iteratorFuncName, text "createIterator"),
          (.writeMap, text "null"), (.iterStartKey, text "k")]) = [.decode]) ∧
    ∃ reply, SysCall.consumeKvIterator.handle .sample (TxSimContext.sample 2030100)
        (sampleRequest .consumeKvIteratorRequest
          [(.iteratorFuncName, funcKvIteratorNext), (.iterIndex, [5, 0, 0, 0])]) = .ok reply ∧
      reply.message.code = .ok ∧
      SysCall.consumeKvIterator.failures .sample (TxSimContext.sample 2030100)
        (sampleRequest .consumeKvIteratorRequest
          [(.iteratorFuncName, funcKvIteratorNext), (.iterIndex, [5, 0, 0, 0])]) = [.lookup] :=
  ⟨⟨_, rfl, rfl, rfl⟩, ⟨_, rfl, rfl, by decide⟩, ⟨_, rfl, rfl, by decide⟩, ⟨_, rfl, rfl, by decide⟩⟩

end VmEngine.Runtime
