/-
  When the handlers of sandbox messages return.

  `handleSandboxMsg_returns` says for each message exactly when its handler returns:
  the sub-messages it reads are there, a prefix iterator is not created for an empty
  key, and an iterator is not asked for a row past its end.  The charges before the
  last two may end the request first; `CreateRefused`, `KvExhausted` and
  `HistoryExhausted` say when they do not.
-/
import VmEngine.Runtime.Charges
import VmEngine.Runtime.Invoke
import VmEngine.Core.SandboxService

namespace VmEngine.Runtime

variable {σ κ η : Type} {P : Protocol} {S : TxSimContext σ κ η}

/-! ## Positions in slices -/

theorem index_of_lt {α : Type} {l : List α} {i : ℕ} (h : i < l.length) : index l i = .ok l[i] := by
  simp only [index, List.getElem?_eq_getElem h]

theorem index_returns {α : Type} {l : List α} {i : ℕ} : (index l i).Returns ↔ i < l.length := by
  constructor
  · rintro ⟨a, ha⟩
    by_contra h
    simp only [index, List.getElem?_eq_none (Nat.le_of_not_lt h)] at ha
    cases ha
  · intro h
    exact ⟨_, index_of_lt h⟩

theorem secondIf_returns {c : Bool} {l : List Bytes} (h : c = true → 1 < l.length) :
    (secondIf c l).Returns := by
  unfold secondIf
  split_ifs with hc
  · exact index_returns.2 (h hc)
  · exact Go.returns_ok _

theorem split_length_pos (s : Bytes) : 0 < (split s).length :=
  List.length_pos_iff.2 (List.splitOn_ne_nil _ _)

/-- The last byte of the key is the only position read. -/
theorem prefixLimit_returns (key : Bytes) : (prefixLimit key).Returns ↔ key ≠ [] := by
  rw [prefixLimit, Go.returns_bind]
  constructor
  · rintro ⟨a, ha, -⟩ rfl
    cases ha
  · intro h
    have hlt : key.length - 1 < key.length := by
      have := List.length_pos_iff.2 h
      omega
    exact ⟨_, index_of_lt hlt, Go.returns_ok _⟩

/-! ## State and consumption -/

variable {contractName txId : Bytes} {gasUsed : UInt64} {m : DockerVMMessage}
  {st : RuntimeState σ κ η}

theorem handleGetStateRequest_returns :
    (handleGetStateRequest P S txId m gasUsed st).Returns ↔ m.sysCallMessage.isSome := by
  unfold handleGetStateRequest
  rcases m.sysCallMessage with _ | call
  · exact iff_of_false (Go.not_returns_error _) (by simp)
  refine iff_of_true ?_ rfl
  dsimp only
  split
  · exact Go.returns_ok _
  split
  · exact Go.returns_ok _
  refine Go.returns_bind.2 ⟨_, index_of_lt (split_length_pos _), Go.returns_bind.2 ?_⟩
  obtain ⟨field, hfield⟩ := secondIf_returns (c := (split (call.payload.get .stateKey)).length = 2)
    (l := split (call.payload.get .stateKey)) fun h => by simp only [decide_eq_true_eq] at h; omega
  refine ⟨field, hfield, ?_⟩
  split <;> exact Go.returns_ok _

theorem handleGetBatchStateRequest_returns :
    (handleGetBatchStateRequest P S txId m gasUsed st).Returns ↔ m.sysCallMessage.isSome := by
  unfold handleGetBatchStateRequest
  rcases m.sysCallMessage with _ | call
  · exact iff_of_false (Go.not_returns_error _) (by simp)
  refine iff_of_true ?_ rfl
  dsimp only
  repeat' split
  all_goals exact Go.returns_ok _

/-- Of the steps on an iterator only `next` may not return. -/
theorem iterSwitch_returns {func hasNext next close : Bytes} {a c d : Consumed σ}
    {b : Go (Consumed σ)} {p : Prop} (hne : hasNext ≠ next) (hb : b.Returns ↔ ¬ p) :
    (if func = hasNext then .ok a else if func = next then b else if func = close then .ok c
      else .ok d : Go (Consumed σ)).Returns ↔ ¬ (func = next ∧ p) := by
  split_ifs with hhas hnext hclose
  · exact iff_of_true (Go.returns_ok _) fun h => hne (hhas.symm.trans h.1)
  · rw [hb]
    exact not_congr ⟨fun h => ⟨hnext, h⟩, And.right⟩
  · exact iff_of_true (Go.returns_ok _) fun h => hnext h.1
  · exact iff_of_true (Go.returns_ok _) fun h => hnext h.1

/-- A row past the end of the iterator, if the charge before it is paid. -/
theorem kvIteratorNext_returns (iter : κ) (gasUsed : UInt64) (s : σ) :
    (kvIteratorNext P S (some iter) gasUsed s).Returns ↔
      ¬ ((chargeLt2312 S (consumeKvIteratorGasUsedLt2312 P) gasUsed).2 = none ∧
        (S.kvValue s iter).1 = .ok none) := by
  unfold kvIteratorNext
  rcases chargeLt2312 S (consumeKvIteratorGasUsedLt2312 P) gasUsed with ⟨g, _ | err⟩
  · dsimp only
    rcases S.kvValue s iter with ⟨err | _ | kvRow, s⟩
    · exact iff_of_true (Go.returns_ok _) (by simp)
    · exact iff_of_false (Go.not_returns_error _) (by simp)
    · refine iff_of_true ?_ (by simp)
      refine Go.returns_bind.2 ⟨_, index_of_lt (split_length_pos _), Go.returns_bind.2 ?_⟩
      obtain ⟨field, hfield⟩ := secondIf_returns (c := 1 < (split kvRow.key).length)
        (l := split kvRow.key) fun h => of_decide_eq_true h
      refine ⟨field, hfield, ?_⟩
      split_ifs
      · split <;> exact Go.returns_ok _
      · exact Go.returns_ok _
  · exact iff_of_true (Go.returns_ok _) (by simp)

/-- The request asks a key-value iterator that is at its end for a row, and can pay for it. -/
def KvExhausted (P : Protocol) (S : TxSimContext σ κ η) (params : Payload) (gasUsed : UInt64)
    (sim : SimContext σ κ η) : Prop :=
  params.get .iteratorFuncName = funcKvIteratorNext ∧
    (chargeLt2312 S (consumeKvIteratorGasUsedLt2312 P) gasUsed).2 = none ∧
    ∃ i iter, P.bytesToInt (params.get .iterIndex) = .ok i ∧ sim.iterHandles i = some (.kv iter) ∧
      (S.kvValue sim.store iter).1 = .ok none

theorem consumeKvAt_returns (params : Payload) (gasUsed : UInt64) (sim : SimContext σ κ η) :
    (consumeKvAt P S params gasUsed sim).Returns ↔ ¬ KvExhausted P S params gasUsed sim := by
  unfold consumeKvAt KvExhausted
  rcases P.bytesToInt (params.get .iterIndex) with err | i
  · exact iff_of_true (Go.returns_ok _) (by simp)
  simp only [Except.ok.injEq, exists_and_left, exists_eq_left']
  rcases sim.iterHandles i with _ | ⟨_ | iter | iter⟩
  · exact iff_of_true (Go.returns_ok _) (by simp)
  · exact iff_of_true (Go.returns_ok _) (by simp)
  · simp only [Option.some.injEq, Handle.kv.injEq, exists_eq_left']
    exact iterSwitch_returns (by decide) (kvIteratorNext_returns ..)
  · exact iff_of_true (Go.returns_ok _) (by simp)

theorem handleConsumeKvIterator_returns :
    (handleConsumeKvIterator P S txId m gasUsed st).Returns ↔
      ∃ call, m.sysCallMessage = some call ∧ ¬ KvExhausted P S call.payload gasUsed st.sim := by
  unfold handleConsumeKvIterator
  rcases m.sysCallMessage with _ | call
  · exact iff_of_false (Go.not_returns_error _) (by simp)
  simp only [Option.some.injEq, exists_eq_left', ← consumeKvAt_returns]
  exact Go.returns_bind_of fun _ => Go.returns_ok _

/-- The charge with which a history request starts is refused. -/
def HistoryRefused (P : Protocol) (S : TxSimContext σ κ η) (gasUsed : UInt64) : Prop :=
  S.blockVersion < version2312 ∧ P.gasLimit < gasUsed + 10 * kvIteratorNextGasPrice

theorem currentGasUsed_error :
    (currentGasUsed P S gasUsed).2.isSome ↔ HistoryRefused P S gasUsed := by
  unfold currentGasUsed HistoryRefused
  split_ifs with h
  · simp only [consumeKvIteratorGasUsedLt2312, charge, checkGasLimit, decide_eq_true_eq]
    split_ifs with hlt
    · exact iff_of_true rfl ⟨h, hlt⟩
    · exact iff_of_false (by simp) fun h' => hlt h'.2
  · exact iff_of_false (by simp) fun h' => h h'.1

theorem keyHistoryIterNext_returns (iter : η) (gasUsed : UInt64) (s : σ) :
    (keyHistoryIterNext P S (some iter) gasUsed s).Returns ↔
      ¬ ((chargeLt2312 S (consumeKeyHistoryIterGasUsedLt2312 P) gasUsed).2 = none ∧
        (S.historyValue s iter).1 = .ok none) := by
  unfold keyHistoryIterNext
  rcases chargeLt2312 S (consumeKeyHistoryIterGasUsedLt2312 P) gasUsed with ⟨g, _ | err⟩
  · dsimp only
    rcases S.historyValue s iter with ⟨err | _ | v, s⟩
    · exact iff_of_true (Go.returns_ok _) (by simp)
    · exact iff_of_false (Go.not_returns_error _) (by simp)
    · refine iff_of_true ?_ (by simp)
      dsimp only
      split_ifs
      · split <;> exact Go.returns_ok _
      · exact Go.returns_ok _
  · exact iff_of_true (Go.returns_ok _) (by simp)

/-- The same for a history iterator. -/
def HistoryExhausted (P : Protocol) (S : TxSimContext σ κ η) (params : Payload) (gasUsed : UInt64)
    (sim : SimContext σ κ η) : Prop :=
  params.get .iteratorFuncName = funcKeyHistoryIterNext ∧
    (chargeLt2312 S (consumeKeyHistoryIterGasUsedLt2312 P) gasUsed).2 = none ∧
    ∃ i iter, P.bytesToInt (params.get .iterIndex) = .ok i ∧
      sim.iterHandles i = some (.history iter) ∧ (S.historyValue sim.store iter).1 = .ok none

theorem consumeKeyHistoryAt_returns (params : Payload) (gasUsed current : UInt64)
    (sim : SimContext σ κ η) :
    (consumeKeyHistoryAt P S params gasUsed current sim).Returns ↔
      ¬ HistoryExhausted P S params gasUsed sim := by
  unfold consumeKeyHistoryAt HistoryExhausted
  rcases P.bytesToInt (params.get .iterIndex) with err | i
  · exact iff_of_true (Go.returns_ok _) (by simp)
  simp only [Except.ok.injEq, exists_and_left, exists_eq_left']
  rcases sim.iterHandles i with _ | ⟨_ | iter | iter⟩
  · exact iff_of_true (Go.returns_ok _) (by simp)
  · exact iff_of_true (Go.returns_ok _) (by simp)
  · exact iff_of_true (Go.returns_ok _) (by simp)
  · simp only [Option.some.injEq, Handle.history.injEq, exists_eq_left']
    exact iterSwitch_returns (by decide) (keyHistoryIterNext_returns ..)

/-- The charge at the start of the handler may end it before it reads the message. -/
theorem handleConsumeKeyHistoryIterator_returns :
    (handleConsumeKeyHistoryIterator P S txId m gasUsed st).Returns ↔ HistoryRefused P S gasUsed ∨
      ∃ call, m.sysCallMessage = some call ∧ ¬ HistoryExhausted P S call.payload gasUsed st.sim := by
  rw [← currentGasUsed_error]
  unfold handleConsumeKeyHistoryIterator
  rcases currentGasUsed P S gasUsed with ⟨current, _ | err⟩
  · rcases m.sysCallMessage with _ | call
    · exact iff_of_false (Go.not_returns_error _) (by simp)
    simp only [Option.isSome_none, Bool.false_eq_true, false_or, Option.some.injEq, exists_eq_left',
      ← consumeKeyHistoryAt_returns _ _ current]
    exact Go.returns_bind_of fun _ => Go.returns_ok _
  · exact iff_of_true (Go.returns_ok _) (.inl rfl)

/-! ## Creating iterators -/

theorem handleCreateKeyHistoryIterator_returns {ord : MapOrder} :
    (handleCreateKeyHistoryIterator P S ord txId m gasUsed contractName st).Returns ↔
      m.sysCallMessage.isSome := by
  unfold handleCreateKeyHistoryIterator
  rcases m.sysCallMessage with _ | call
  · exact iff_of_false (Go.not_returns_error _) (by simp)
  refine iff_of_true ?_ rfl
  dsimp only
  repeat' split
  all_goals exact Go.returns_ok _

/-- How often an error branch charges. -/
def errCount (err : Option Bytes) : ℕ := if err.isSome then 1 else 0

/-- An error branch goes on exactly if the creation can be paid. -/
theorem noteCreateErr_case (params : Payload) (err : Option Bytes) (note : Bytes) (g : UInt64) :
    (∃ e, noteCreateErr P S params err (note, g) = .error e ∧
      pays P (createKvPrice P S params) (errCount err) g = none) ∨
    (∃ note' g', noteCreateErr P S params err (note, g) = .ok (note', g') ∧
      pays P (createKvPrice P S params) (errCount err) g = some g') := by
  rcases err with _ | err
  · exact .inr ⟨note, g, rfl, rfl⟩
  · simp only [noteCreateErr, createKvIteratorGasUsed_eq]
    rcases hc : charge P overGasLimited g (createKvPrice P S params) with ⟨g', _ | e⟩
    · exact .inr ⟨err, g', rfl, charge_ok.1 hc⟩
    · exact .inl ⟨_, rfl, charge_error hc⟩

/-- The request asks for the iterator over an empty prefix. -/
def EmptyPrefix (P : Protocol) (params : Payload) : Prop :=
  params.get .iteratorFuncName = funcKvPreIteratorCreate ∧
    P.getKeyStr (params.get .iterStartKey) (params.get .iterStartField) = []

theorem kvIteratorOf_returns {params : Payload} {contract : Bytes} {g : UInt64} {s : σ} :
    (kvIteratorOf P S (params.get .iteratorFuncName) contract params g s).Returns ↔
      (EmptyPrefix P params → pays P (createKvPrice P S params) 1 g = none) := by
  have hne : funcKvPreIteratorCreate ≠ funcKvIteratorCreate := by decide
  unfold kvIteratorOf
  split_ifs with hkv hpre
  · exact iff_of_true (Go.returns_ok _) fun h => absurd (h.1.symm.trans hkv) hne
  · simp only [kvPreIteratorCreate, createKvIteratorGasUsed_eq, EmptyPrefix, hpre, true_and]
    rcases hc : charge P overGasLimited g (createKvPrice P S params) with ⟨g', _ | err⟩
    · simp only [charge_ok.1 hc, reduceCtorEq, imp_false]
      rw [← ne_eq, ← prefixLimit_returns]
      exact Go.returns_bind_of fun _ => Go.returns_ok _
    · exact iff_of_true (Go.returns_ok _) fun _ => charge_error hc
  · exact iff_of_true (Go.returns_ok _) fun h => absurd h.1 hpre

/-- A creation is refused for lack of gas: the charges that its errors cause, and its own, cannot
    all be paid. -/
def CreateRefused (P : Protocol) (S : TxSimContext σ κ η) (ord : MapOrder) (params : Payload)
    (gasUsed : UInt64) (contractName : Bytes) (s : σ) : Prop :=
  ∀ g, pays P (createKvPrice P S params)
      (errCount (P.unmarshalWriteMap (params.get .writeMap)).1) gasUsed = some g →
    pays P (createKvPrice P S params)
      (errCount (mergeSimContextWriteMap P S ord (P.unmarshalWriteMap (params.get .writeMap)).2 g
          contractName s).err +
        (errCount (P.checkKeyFieldStr (params.get .iterStartKey) (params.get .iterStartField)) + 1))
      (mergeSimContextWriteMap P S ord (P.unmarshalWriteMap (params.get .writeMap)).2 g
        contractName s).gasUsed = none

theorem handleCreateKvIterator_returns {ord : MapOrder} :
    (handleCreateKvIterator P S ord txId m gasUsed contractName st).Returns ↔
      ∃ call, m.sysCallMessage = some call ∧ (EmptyPrefix P call.payload →
        CreateRefused P S ord call.payload gasUsed contractName st.sim.store) := by
  unfold handleCreateKvIterator
  rcases m.sysCallMessage with _ | call
  · refine iff_of_false (Go.not_returns_error _) ?_
    rintro ⟨call, h, -⟩
    cases h
  simp only [Option.some.injEq, exists_eq_left', CreateRefused]
  rcases noteCreateErr_case (P := P) (S := S) call.payload
    (P.unmarshalWriteMap (call.payload.get .writeMap)).1 [] gasUsed with
    ⟨e, h, hp⟩ | ⟨note, g, h, hp⟩
  · rw [h]
    refine iff_of_true (Go.returns_ok _) fun _ g hg => ?_
    rw [hp] at hg
    cases hg
  rw [h]
  simp only [hp, Option.some.injEq, forall_eq']
  generalize mergeSimContextWriteMap P S ord (P.unmarshalWriteMap (call.payload.get .writeMap)).2 g
    contractName st.sim.store = merged
  rw [pays_add]
  rcases noteCreateErr_case (P := P) (S := S) call.payload merged.err note merged.gasUsed with
    ⟨e, h, hp⟩ | ⟨note, g, h, hp⟩
  · rw [h, hp]
    exact iff_of_true (Go.returns_ok _) fun _ => rfl
  rw [h, hp, Option.bind_some, pays_add]
  dsimp only
  rcases noteCreateErr_case (P := P) (S := S) call.payload
    (P.checkKeyFieldStr (call.payload.get .iterStartKey) (call.payload.get .iterStartField)) note g
    with ⟨e, h, hp⟩ | ⟨note, g, h, hp⟩
  · rw [h, hp]
    exact iff_of_true (Go.returns_ok _) fun _ => rfl
  rw [h, hp, Option.bind_some, ← kvIteratorOf_returns]
  dsimp only
  exact Go.returns_bind_of fun r => by split <;> exact Go.returns_ok _

/-! ## Calls, the sender and the response -/

/-- A call request that is answered before the depth of the call is read. -/
def CallRejected (P : Protocol) (params : Payload) : Prop :=
  ∀ req, P.unmarshalCallContractRequest (params.get .callContractReq) = .ok req →
    req.contractName = [] ∨ req.contractMethod = []

theorem startCallContract_returns {caller : Contract} :
    (startCallContract P S txId m gasUsed caller st).Returns ↔
      ∃ call, m.sysCallMessage = some call ∧
        (m.crossContext.isSome ∨ CallRejected P call.payload) := by
  unfold startCallContract
  rcases m.sysCallMessage with _ | call
  · refine iff_of_false (Go.not_returns_error _) ?_
    rintro ⟨call, h, -⟩
    cases h
  simp only [Option.some.injEq, exists_eq_left', CallRejected, List.length_eq_zero_iff]
  rcases P.unmarshalCallContractRequest (call.payload.get .callContractReq) with err | req
  · exact iff_of_true (Go.returns_ok _) (.inr fun req h => by cases h)
  simp only [Except.ok.injEq, forall_eq']
  split_ifs with hname hmethod
  · exact iff_of_true (Go.returns_ok _) (.inr (.inl hname))
  · exact iff_of_true (Go.returns_ok _) (.inr (.inr hmethod))
  rcases m.crossContext with _ | cross
  · refine iff_of_false (Go.not_returns_error _) ?_
    rintro (h | h | h)
    · cases h
    · exact hname h
    · exact hmethod h
  refine iff_of_true ?_ (.inl rfl)
  dsimp only
  repeat' split
  all_goals exact Go.returns_ok _

theorem handlerCallContract_returns {caller : Contract} :
    (handlerCallContract P S txId m gasUsed caller st).Returns ↔
      (startCallContract P S txId m gasUsed caller st).Returns := by
  unfold handlerCallContract
  exact Go.returns_bind_of fun r => by split <;> exact Go.returns_ok _

theorem handleGetSenderAddress_returns : (handleGetSenderAddress P S txId gasUsed st).Returns := by
  unfold handleGetSenderAddress
  repeat' split
  all_goals exact Go.returns_ok _

theorem handleTxResponse_returns {ordRead ordWrite : MapOrder} {txType : ExecOrderTxType} :
    (handleTxResponse P S ordRead ordWrite txId m gasUsed txType contractName st).Returns ↔
      m.response.isSome := by
  unfold handleTxResponse
  rcases m.response with _ | txResponse
  · exact iff_of_false (Go.not_returns_error _) (by simp)
  refine iff_of_true ?_ rfl
  dsimp only
  repeat' split
  all_goals exact Go.returns_ok _

/-! ## All messages -/

/-- What a message must bring for its handler to return. -/
def Answerable (P : Protocol) (S : TxSimContext σ κ η) (ordWrite : MapOrder) (contractName : Bytes)
    (gasUsed : UInt64) (sim : SimContext σ κ η) (m : DockerVMMessage) : Prop :=
  match m.type with
  | .getStateRequest | .createKeyHistoryIterRequest => m.sysCallMessage.isSome
  | .getBatchStateRequest => S.blockVersion < version2310 ∨ m.sysCallMessage.isSome
  | .consumeKvIteratorRequest => ∃ call, m.sysCallMessage = some call ∧
      ¬ KvExhausted P S call.payload gasUsed sim
  | .consumeKeyHistoryIterRequest => HistoryRefused P S gasUsed ∨
      ∃ call, m.sysCallMessage = some call ∧ ¬ HistoryExhausted P S call.payload gasUsed sim
  | .createKvIteratorRequest => ∃ call, m.sysCallMessage = some call ∧
      (EmptyPrefix P call.payload →
        CreateRefused P S ordWrite call.payload gasUsed contractName sim.store)
  | .callContractRequest => ∃ call, m.sysCallMessage = some call ∧
      (m.crossContext.isSome ∨ CallRejected P call.payload)
  | .txResponse => m.response.isSome
  | _ => True

/-- **A message is answered exactly if it is `Answerable`.** -/
theorem handleSandboxMsg_returns {call : Invocation} {ordRead ordWrite : MapOrder}
    {specialTxType : ExecOrderTxType} :
    (handleSandboxMsg P S call ordRead ordWrite m gasUsed specialTxType st).Returns ↔
      Answerable P S ordWrite call.contract.name gasUsed st.sim m := by
  unfold handleSandboxMsg Answerable
  cases m.type with
  | getStateRequest => rw [Go.returns_map, handleGetStateRequest_returns]
  | getBatchStateRequest =>
    dsimp only
    split_ifs with h
    · exact iff_of_true (Go.returns_ok _) (.inl h)
    · rw [Go.returns_map, handleGetBatchStateRequest_returns]
      exact ⟨.inr, fun h' => h'.resolve_left h⟩
  | txResponse => rw [Go.returns_map, handleTxResponse_returns]
  | callContractRequest =>
    rw [Go.returns_map, handlerCallContract_returns, startCallContract_returns]
  | createKvIteratorRequest => rw [Go.returns_map, handleCreateKvIterator_returns]
  | consumeKvIteratorRequest => rw [Go.returns_map, handleConsumeKvIterator_returns]
  | createKeyHistoryIterRequest => rw [Go.returns_map, handleCreateKeyHistoryIterator_returns]
  | consumeKeyHistoryIterRequest => rw [Go.returns_map, handleConsumeKeyHistoryIterator_returns]
  | getSenderAddressRequest =>
    exact iff_of_true (Go.returns_map.2 handleGetSenderAddress_returns) trivial
  | _ => exact iff_of_true (Go.returns_ok _) trivial

/-- **What a sandbox can send without crashing a peer.**  On the chain node the handler of a
    message returns exactly if the message is `Answerable`; on the engine a stream is served
    exactly if its first message names a process. -/
theorem sandbox_messages_served (P : Protocol) (S : TxSimContext σ κ η) (call : Invocation)
    (ordRead ordWrite : MapOrder) (m : DockerVMMessage) (gasUsed : UInt64)
    (specialTxType : ExecOrderTxType) (st : RuntimeState σ κ η)
    (stream : List SandboxRPCService.Turn) :
    ((handleSandboxMsg P S call ordRead ordWrite m gasUsed specialTxType st).Returns ↔
      Answerable P S ordWrite call.contract.name gasUsed st.sim m) ∧
    ((SandboxRPCService.dockerVMCommunicate none stream).Returns ↔
      SandboxRPCService.NamesProcess stream) :=
  ⟨handleSandboxMsg_returns, SandboxRPCService.dockerVMCommunicate_returns stream⟩

/-- A context whose iterators are at their end. -/
def TxSimContext.exhausted : TxSimContext SampleStore ℕ ℕ :=
  { TxSimContext.sample version2312 with
    kvValue := fun s _ => (.ok none, s)
    historyValue := fun s _ => (.ok none, s) }

/-- A prefix iterator over the empty key, a system call without its sub-message, a response
    without one, a call without cross context and a step past the end of an iterator crash the
    chain node; a first message without cross context crashes the engine. -/
theorem sandbox_crashes_peers :
    let handle := fun S st m => handleSandboxMsg .sample S .sample .listed .listed m 0 .normal st
    let serve := handle (.sample version2312) .sample
    let call := sampleSysCall .createKvIteratorRequest
      [(.iteratorFuncName, funcKvPreIteratorCreate)]
    let state := RuntimeState.sample.addIter (.kv 0)
    let next := [(PayloadKey.iterIndex, Protocol.sample.intToBytes 1),
      (.iteratorFuncName, funcKvIteratorNext)]
    serve call = .error .panics ∧
    serve { call with type := .getStateRequest, sysCallMessage := none } = .error .panics ∧
    serve { call with type := .txResponse } = .error .panics ∧
    serve { sampleSysCall .callContractRequest [(.callContractReq, text "other")] with
      crossContext := none } = .error .panics ∧
    handle .exhausted state (sampleSysCall .consumeKvIteratorRequest next) = .error .panics ∧
    SandboxRPCService.dockerVMCommunicate none
      [⟨.ok { sampleTx .sample "tx1" "invoke" with crossContext := none }, .new 1 1 true,
        .new 1 1 false⟩] = .error .panics :=
  ⟨rfl, rfl, rfl, rfl, rfl, rfl⟩

end VmEngine.Runtime
