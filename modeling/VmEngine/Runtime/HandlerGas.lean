/-
  The gas used by a transaction does not go down as long as its requests can be paid.

  A charge that is refused resets the gas used to 0, and so do two handlers on other
  errors: a history request with a bad index since version 2312, and a response whose read
  map cannot be merged.  The lemmas here exclude these cases: every charge of the request
  can be paid (its bill is a function of the request and the state), the history request
  finds its iterator, the read map can be merged.
-/
import VmEngine.Runtime.HandlerReturns

namespace VmEngine.Runtime

variable {σ κ η : Type} (P : Protocol) (S : TxSimContext σ κ η)

/-! ## Bills -/

def getStateBill (params : Payload) (s : σ) : Bill :=
  match params.lookup .contractName with
  | none => []
  | some contractName =>
    match (S.get s contractName (params.get .stateKey)).1 with
    | .error _ => []
    | .ok value => S.old [.ok (goLen (value.getD []) * getStateGasPrice)]

def getBatchStateBill (params : Payload) (s : σ) : Bill :=
  match P.unmarshalBatchKeys (params.get .stateKey) with
  | .error _ => []
  | .ok keys =>
    match (S.getKeys s keys).1 with
    | .error _ => []
    | .ok getKeys =>
      match P.marshalBatchKeys getKeys with
      | .error _ => []
      | .ok payload => S.old [.ok (goLen payload * getBatchStateGasPrice)]

/-- The entries of a write map, up to the first that is malformed or refused. -/
def writeBill (txContractName : Bytes) : List (Bytes × Bytes) → σ → Bill
  | [], _ => []
  | (key, value) :: rest, s =>
    match writeKeyParts txContractName key with
    | .error _ => []
    | .ok (contractKey, contractField) =>
      S.old [.ok (putStatePrice txContractName contractKey contractField value)] ++
        match S.put s txContractName (P.getKeyStr contractKey contractField) value with
        | (some _, _) => []
        | (none, s) => writeBill txContractName rest s

/-- The charge of an error branch of a creation. -/
def createErrBill (params : Payload) (err : Option Bytes) : Bill :=
  if err.isSome then [createKvPrice P S params] else []

/-- The charge of the creation itself, for the two functions that exist. -/
def createFuncBill (params : Payload) : Bill :=
  if params.get .iteratorFuncName = funcKvIteratorCreate ∨
      params.get .iteratorFuncName = funcKvPreIteratorCreate then [createKvPrice P S params]
  else []

/-- The price of the creation of a history iterator. -/
def createHistoryPrice (params : Payload) : Except Bytes UInt64 :=
  if S.blockVersion < version2312 then .ok (10 * keyHistoryIterCreateGasPrice)
  else dataPrice P (S.gasConfig P)
    ((params.get .historyIterKey).length + (params.get .historyIterField).length)

/-- Consuming an iterator costs 10 before version 2312. -/
def consumeBill : Bill := S.old [.ok 10]

def eventsBill (events : List ContractEvent) : Bill :=
  events.flatMap fun e => S.old [emitEventPrice P e]

/-- A call, if its request gets as far as the charge. -/
def callBill (m : DockerVMMessage) (params : Payload) (s : σ) : Bill :=
  match P.unmarshalCallContractRequest (params.get .callContractReq), m.crossContext with
  | .ok req, some cross =>
    if req.contractName.length = 0 ∨ req.contractMethod.length = 0 ∨
        cross.currentDepth > P.callContractDepth ∨ S.blockVersion < version2312 then []
    else
      match (S.getContractByName s req.contractName).1 with
      | .error _ => []
      | .ok _ =>
        [dataPrice P (S.gasConfig P) (callDataSize req.contractName req.contractMethod req.args)]
  | _, _ => []

/-! ## What the steps of the handlers charge -/

variable {P S}

variable {g : UInt64}

theorem mergeWriteEntries_gas {name : Bytes} {entries : List (Bytes × Bytes)} {s : σ}
    (h : Affords P g (writeBill P S name entries s)) :
    (mergeWriteEntries P S name entries g s).gasUsed = paid g (writeBill P S name entries s) := by
  induction entries generalizing g s with
  | nil => rfl
  | cons e rest ih =>
    obtain ⟨key, value⟩ := e
    rcases hkey : writeKeyParts name key with err | ⟨k, f⟩
    · simp only [mergeWriteEntries, writeBill, hkey]
      rfl
    · simp only [mergeWriteEntries, writeBill, hkey] at h ⊢
      rw [affords_append] at h
      have hput : putStateGasUsed P S.blockVersion (S.gasConfig P) g name k f value =
          (paid g (S.old [.ok (putStatePrice name k f value)]), none) := h.1.chargeOld _
      rw [hput, paid_append]
      rcases hres : S.put s name (P.getKeyStr k f) value with ⟨_ | err, s'⟩
      · rw [hres] at h
        exact ih h.2
      · rfl

theorem createKvIteratorGasUsed_of_affords {params : Payload}
    (h : Affords P g [createKvPrice P S params]) :
    createKvIteratorGasUsed P S.blockVersion (S.gasConfig P) params g =
      (paid g [createKvPrice P S params], none) := by
  rw [createKvIteratorGasUsed_eq]
  exact h.charge _

theorem noteCreateErr_of_affords (note : Bytes) {params : Payload} {err : Option Bytes}
    (h : Affords P g (createErrBill P S params err)) :
    ∃ note', noteCreateErr P S params err (note, g) =
      .ok (note', paid g (createErrBill P S params err)) := by
  rcases err with _ | err
  · exact ⟨note, rfl⟩
  · refine ⟨err, ?_⟩
    have h' : Affords P g [createKvPrice P S params] := h
    simp only [noteCreateErr, createKvIteratorGasUsed_of_affords h']
    rfl

theorem consumeKvIteratorGasUsed_of_affords (h : Affords P g (consumeBill S)) :
    consumeKvIteratorGasUsed P S.blockVersion (S.gasConfig P) g = (paid g (consumeBill S), none) :=
  h.chargeOld _

theorem emitEvents_gas (cache : List ContractEvent) {events : List ContractEvent}
    (h : Affords P g (eventsBill P S events)) :
    (emitEvents P S events g cache).1 = paid g (eventsBill P S events) := by
  induction events generalizing g cache with
  | nil => rfl
  | cons e es ih =>
    simp only [eventsBill, List.flatMap_cons] at h ⊢
    rw [affords_append] at h
    have hemit : emitEventGasUsed P S.blockVersion (S.gasConfig P) g e =
        (paid g (S.old [emitEventPrice P e]), none) := h.1.chargeOld _
    simp only [emitEvents, hemit]
    rw [paid_append]
    exact ih _ h.2

/-! ## The handlers -/

section
variable {txId : Bytes} {m : DockerVMMessage} {g : UInt64} {st : RuntimeState σ κ η}

theorem handleGetStateRequest_gas (h : ∀ c, m.sysCallMessage = some c →
      Affords P g (getStateBill S c.payload st.sim.store)) :
    (handleGetStateRequest P S txId m g st).Ensures fun r => g ≤ r.gasUsed := by
  unfold handleGetStateRequest
  split
  · exact Go.ensures_error _
  rename_i call hm
  have h := h call hm
  unfold getStateBill at h
  split
  · exact Go.ensures_ok (UInt64.le_refl g)
  rename_i name hname
  rw [hname] at h
  dsimp only at h ⊢
  rcases hget : S.get st.sim.store name (call.payload.get .stateKey) with ⟨err | value, s⟩
  · exact Go.ensures_ok (UInt64.le_refl g)
  rw [hget] at h
  refine (Go.Ensures.any _).bind fun key _ => (Go.Ensures.any _).bind fun field _ => ?_
  have hcharge : getStateGasUsed P S.blockVersion (S.gasConfig P) g name key field (value.getD []) =
      (paid g (S.old [.ok (goLen (value.getD []) * getStateGasPrice)]), none) := Affords.chargeOld _ h
  rw [hcharge]
  exact Go.ensures_ok (Affords.le_paid h)

theorem handleGetBatchStateRequest_gas (h : ∀ c, m.sysCallMessage = some c →
      Affords P g (getBatchStateBill P S c.payload st.sim.store)) :
    (handleGetBatchStateRequest P S txId m g st).Ensures fun r => g ≤ r.gasUsed := by
  unfold handleGetBatchStateRequest
  split
  · exact Go.ensures_error _
  rename_i call hm
  have h := h call hm
  unfold getBatchStateBill at h
  rcases hkeys : P.unmarshalBatchKeys (call.payload.get .stateKey) with err | keys
  · exact Go.ensures_ok (UInt64.le_refl g)
  rw [hkeys] at h
  dsimp only at h ⊢
  rcases hget : S.getKeys st.sim.store keys with ⟨err | getKeys, s⟩
  · exact Go.ensures_ok (UInt64.le_refl g)
  rw [hget] at h
  dsimp only at h ⊢
  rcases hpay : P.marshalBatchKeys getKeys with err | payload
  · exact Go.ensures_ok (UInt64.le_refl g)
  rw [hpay] at h
  have hcharge : getBatchStateGasUsed P S.blockVersion (S.gasConfig P) g payload =
      (paid g (S.old [.ok (goLen payload * getBatchStateGasPrice)]), none) := Affords.chargeOld _ h
  dsimp only
  rw [hcharge]
  exact Go.ensures_ok (Affords.le_paid h)

theorem handleGetSenderAddress_gas (h : Affords P g [.ok 10]) :
    (handleGetSenderAddress P S txId g st).Ensures fun r => g ≤ r.gasUsed := by
  have hcharge : getSenderAddressGasUsed P g = (paid g [.ok 10], none) := Affords.charge _ h
  unfold handleGetSenderAddress
  rw [hcharge]
  dsimp only
  split
  · exact Go.ensures_ok h.le_paid
  · exact Go.ensures_ok h.le_paid

/-! ### Consuming iterators -/

variable {name : Bytes} {params : Payload} {s : σ}

theorem iterHasNext_gas {next : σ → Bool × σ} (h : Affords P g (consumeBill S)) :
    g ≤ (iterHasNext P (paid g (consumeBill S), none) next s).gasUsed := h.le_paid

theorem iterClose_gas {release : σ → σ} (h : Affords P g (consumeBill S)) :
    g ≤ (iterClose (paid g (consumeBill S), none) release s).gasUsed := h.le_paid

theorem kvIteratorNext_gas {iter : Option κ} (h : Affords P g (consumeBill S)) :
    (kvIteratorNext P S iter g s).Ensures fun c => g ≤ c.gasUsed := by
  have hcharge : chargeLt2312 S (consumeKvIteratorGasUsedLt2312 P) g =
      (paid g (consumeBill S), none) := h.chargeOld _
  unfold kvIteratorNext
  rw [hcharge]
  dsimp only
  split
  · exact Go.ensures_ok h.le_paid
  split
  · exact Go.ensures_ok h.le_paid
  · exact Go.ensures_error _
  refine (Go.Ensures.any _).bind fun key _ => (Go.Ensures.any _).bind fun field _ => ?_
  dsimp only [consumeKvIteratorNextGasUsed2312]
  split_ifs <;> exact Go.ensures_ok h.le_paid

theorem consumeKvNotFound_gas {message : Bytes} (h : Affords P g (consumeBill S)) :
    g ≤ (consumeKvNotFound P S message g s).gasUsed := by
  unfold consumeKvNotFound
  rw [consumeKvIteratorGasUsed_of_affords h]
  exact h.le_paid

/-- A key-value request is charged: only a request that finds its iterator and names none of
    the three functions is not. -/
def KvCharged (P : Protocol) (params : Payload) (sim : SimContext σ κ η) : Prop :=
  ∀ i iter, P.bytesToInt (params.get .iterIndex) = .ok i → sim.iterHandles i = some (.kv iter) →
    params.get .iteratorFuncName ∈ [funcKvIteratorHasNext, funcKvIteratorNext, funcKvIteratorClose]

theorem consumeKv_gas {func : Bytes} {iter : κ}
    (h : func ∈ [funcKvIteratorHasNext, funcKvIteratorNext, funcKvIteratorClose] →
      Affords P g (consumeBill S)) :
    (consumeKv P S func iter g s).Ensures fun c => g ≤ c.gasUsed := by
  unfold consumeKv kvIteratorHasNext kvIteratorClose
  split_ifs with hnext hvalue hclose
  · have h := h (by simp [hnext])
    rw [consumeKvIteratorGasUsed_of_affords h]
    exact Go.ensures_ok (iterHasNext_gas h)
  · exact kvIteratorNext_gas (h (by simp [hvalue]))
  · have h := h (by simp [hclose])
    rw [consumeKvIteratorGasUsed_of_affords h]
    exact Go.ensures_ok (iterClose_gas h)
  · exact Go.ensures_ok (UInt64.le_refl g)

theorem consumeKvAt_gas {sim : SimContext σ κ η}
    (h : KvCharged P params sim → Affords P g (consumeBill S)) :
    (consumeKvAt P S params g sim).Ensures fun c => g ≤ c.gasUsed := by
  unfold consumeKvAt
  split
  · rename_i hi
    exact Go.ensures_ok (consumeKvNotFound_gas (h fun i iter hi' _ => by cases hi.symm.trans hi'))
  rename_i i hi
  have hfound : ∀ handle, sim.iterHandles i = handle → (∀ iter, handle ≠ some (.kv iter)) →
      Affords P g (consumeBill S) := by
    rintro _ rfl hne
    refine h fun j iter hj hiter => ?_
    cases hi.symm.trans hj
    exact absurd hiter (hne iter)
  split
  · rename_i heq
    exact Go.ensures_ok (consumeKvNotFound_gas (hfound _ heq (by simp)))
  · exact consumeKv_gas fun hfunc => h fun _ _ _ _ => hfunc
  · rename_i handle hne heq
    exact Go.ensures_ok (consumeKvNotFound_gas
      (hfound _ heq fun iter h => hne iter (Option.some.inj h)))

theorem handleConsumeKvIterator_gas
    (h : ∀ c, m.sysCallMessage = some c → KvCharged P c.payload st.sim →
      Affords P g (consumeBill S)) :
    (handleConsumeKvIterator P S txId m g st).Ensures fun r => g ≤ r.gasUsed := by
  unfold handleConsumeKvIterator
  split
  · exact Go.ensures_error _
  rename_i call hcall
  exact (consumeKvAt_gas (h call hcall)).bind fun c hc => Go.ensures_ok hc

/-- A history request names a history iterator and one of the three functions. -/
def HistoryFound (P : Protocol) (params : Payload) (sim : SimContext σ κ η) : Prop :=
  ∃ i iter, P.bytesToInt (params.get .iterIndex) = .ok i ∧
    sim.iterHandles i = some (.history iter) ∧
    params.get .iteratorFuncName ∈
      [funcKeyHistoryIterHasNext, funcKeyHistoryIterNext, funcKeyHistoryIterClose]

theorem keyHistoryIterNext_gas {iter : Option η} (h : Affords P g (consumeBill S)) :
    (keyHistoryIterNext P S iter g s).Ensures fun c => g ≤ c.gasUsed := by
  have hcharge : chargeLt2312 S (consumeKeyHistoryIterGasUsedLt2312 P) g =
      (paid g (consumeBill S), none) := h.chargeOld _
  unfold keyHistoryIterNext
  rw [hcharge]
  dsimp only [consumeKeyHistoryIterNextGasUsed2312]
  repeat' split
  all_goals first
    | exact Go.ensures_error _
    | exact Go.ensures_ok h.le_paid

theorem consumeKeyHistory_gas {func : Bytes} {iter : η} {current : UInt64}
    (h : Affords P g (consumeBill S)) (hfunc : g ≤ current ∨ func ∈
      [funcKeyHistoryIterHasNext, funcKeyHistoryIterNext, funcKeyHistoryIterClose]) :
    (consumeKeyHistory P S func iter g current s).Ensures fun c => g ≤ c.gasUsed := by
  have hcharge : consumeKeyHistoryIterGasUsed P S.blockVersion (S.gasConfig P) g =
      (paid g (consumeBill S), none) := h.chargeOld _
  unfold consumeKeyHistory keyHistoryIterHasNext keyHistoryIterClose
  rw [hcharge]
  split_ifs with hnext hvalue hclose
  · exact Go.ensures_ok (iterHasNext_gas h)
  · exact keyHistoryIterNext_gas h
  · exact Go.ensures_ok (iterClose_gas h)
  · refine Go.ensures_ok (hfunc.resolve_right fun hmem => ?_)
    simp only [List.mem_cons, List.not_mem_nil, or_false] at hmem
    rcases hmem with hmem | hmem | hmem
    · exact hnext hmem
    · exact hvalue hmem
    · exact hclose hmem

theorem consumeKeyHistoryAt_gas {current : UInt64} {sim : SimContext σ κ η}
    (h : Affords P g (consumeBill S)) (hfound : g ≤ current ∨ HistoryFound P params sim) :
    (consumeKeyHistoryAt P S params g current sim).Ensures fun c => g ≤ c.gasUsed := by
  unfold consumeKeyHistoryAt
  rcases hfound with hle | ⟨i, iter, hi, hiter, hfunc⟩
  · split
    · exact Go.ensures_ok hle
    split
    · exact Go.ensures_ok hle
    · exact consumeKeyHistory_gas h (.inl hle)
    · exact Go.ensures_ok hle
  · simp only [hi, hiter]
    exact consumeKeyHistory_gas h (.inr hfunc)

theorem handleConsumeKeyHistoryIterator_gas (h : Affords P g (consumeBill S))
    (hfound : ∀ c, m.sysCallMessage = some c → version2312 ≤ S.blockVersion →
      HistoryFound P c.payload st.sim) :
    (handleConsumeKeyHistoryIterator P S txId m g st).Ensures fun r => g ≤ r.gasUsed := by
  unfold handleConsumeKeyHistoryIterator
  by_cases hv : S.blockVersion < version2312
  · -- the first charge is that of the consumption itself
    have hcharge : currentGasUsed P S g = (paid g (consumeBill S), none) := by
      have := h.chargeOld overGasLimited
      rw [if_pos hv] at this
      rw [currentGasUsed, if_pos hv]
      exact this
    rw [hcharge]
    dsimp only
    split
    · exact Go.ensures_error _
    · exact (consumeKeyHistoryAt_gas h (.inl h.le_paid)).bind fun c hc => Go.ensures_ok hc
  · have hcharge : currentGasUsed P S g = (0, none) := if_neg hv
    rw [hcharge]
    dsimp only
    split
    · exact Go.ensures_error _
    · rename_i call hm
      have hfound := hfound call hm (UInt32.not_lt.1 hv)
      exact (consumeKeyHistoryAt_gas h (.inr hfound)).bind fun c hc => Go.ensures_ok hc

/-! ### Creating iterators -/

/-- The charges of a creation of a history iterator. -/
def createHistoryBill (P : Protocol) (S : TxSimContext σ κ η) (ord : MapOrder) (params : Payload)
    (contractName : Bytes) (s : σ) : Bill :=
  createHistoryPrice P S params ::
    match P.unmarshalWriteMap (params.get .writeMap) with
    | (some _, _) => []
    | (none, writeMap) => writeBill P S contractName (ord.enum writeMap) s

theorem handleCreateKeyHistoryIterator_gas {ord : MapOrder} (h : ∀ c, m.sysCallMessage = some c →
      Affords P g (createHistoryBill P S ord c.payload name st.sim.store)) :
    (handleCreateKeyHistoryIterator P S ord txId m g name st).Ensures fun r => g ≤ r.gasUsed := by
  unfold handleCreateKeyHistoryIterator
  split
  · exact Go.ensures_error _
  rename_i call hm
  have h := h call hm
  unfold createHistoryBill at h
  rw [← List.singleton_append, affords_append] at h
  obtain ⟨hprice, hwrites⟩ := h
  have hcharge : createKeyHistoryIterGasUsed P S.blockVersion (S.gasConfig P) call.payload g =
      (paid g [createHistoryPrice P S call.payload], none) := by
    rw [← hprice.charge overGasLimited]
    unfold createKeyHistoryIterGasUsed createHistoryPrice
    split_ifs <;> rfl
  rw [hcharge]
  dsimp only
  rcases hdec : P.unmarshalWriteMap (call.payload.get .writeMap) with ⟨_ | err, writeMap⟩
  · rw [hdec] at hwrites
    have hmerged : g ≤ (mergeSimContextWriteMap P S ord writeMap
        (paid g [createHistoryPrice P S call.payload]) name st.sim.store).gasUsed := by
      rw [mergeSimContextWriteMap, mergeWriteEntries_gas hwrites]
      exact UInt64.le_trans hprice.le_paid (Affords.le_paid hwrites)
    dsimp only
    repeat' split
    all_goals exact Go.ensures_ok hmerged
  · exact Go.ensures_ok hprice.le_paid

/-- Every charge of a creation of a key-value iterator can be paid: those of its errors, those of
    the write map and its own. -/
structure AffordsCreateKv (P : Protocol) (S : TxSimContext σ κ η) (ord : MapOrder) (params : Payload)
    (g : UInt64) (contractName : Bytes) (s : σ) : Prop where
  decoded : Affords P g (createErrBill P S params (P.unmarshalWriteMap (params.get .writeMap)).1)
  writes : Affords P
    (paid g (createErrBill P S params (P.unmarshalWriteMap (params.get .writeMap)).1))
    (writeBill P S contractName (ord.enum (P.unmarshalWriteMap (params.get .writeMap)).2) s)
  created : ∀ merged, merged = mergeSimContextWriteMap P S ord
      (P.unmarshalWriteMap (params.get .writeMap)).2
      (paid g (createErrBill P S params (P.unmarshalWriteMap (params.get .writeMap)).1))
      contractName s →
    Affords P merged.gasUsed (createErrBill P S params merged.err ++
      (createErrBill P S params
        (P.checkKeyFieldStr (params.get .iterStartKey) (params.get .iterStartField)) ++
      createFuncBill P S params))

theorem kvIteratorOf_gas {contract : Bytes} (h : Affords P g (createFuncBill P S params)) :
    (kvIteratorOf P S (params.get .iteratorFuncName) contract params g s).Ensures fun r =>
      g ≤ r.2.1 := by
  unfold kvIteratorOf
  split_ifs with hkv hpre
  · unfold createFuncBill at h
    rw [if_pos (.inl hkv)] at h
    unfold kvIteratorCreate
    rw [createKvIteratorGasUsed_of_affords h]
    dsimp only
    split <;> exact Go.ensures_ok h.le_paid
  · unfold createFuncBill at h
    rw [if_pos (.inr hpre)] at h
    unfold kvPreIteratorCreate
    rw [createKvIteratorGasUsed_of_affords h]
    exact (Go.Ensures.any _).bind fun limit _ => Go.ensures_ok h.le_paid
  · exact Go.ensures_ok (UInt64.le_refl g)

theorem handleCreateKvIterator_gas {ord : MapOrder} (h : ∀ c, m.sysCallMessage = some c →
      AffordsCreateKv P S ord c.payload g name st.sim.store) :
    (handleCreateKvIterator P S ord txId m g name st).Ensures fun r => g ≤ r.gasUsed := by
  unfold handleCreateKvIterator
  split
  · exact Go.ensures_error _
  rename_i call hm
  have h := h call hm
  have hcreated := h.created _ rfl
  have hwrites := mergeWriteEntries_gas h.writes
  obtain ⟨note₁, hnote₁⟩ := noteCreateErr_of_affords [] h.decoded
  dsimp only
  rw [hnote₁]
  dsimp only
  have hle : g ≤ (mergeSimContextWriteMap P S ord
      (P.unmarshalWriteMap (call.payload.get .writeMap)).2
      (paid g (createErrBill P S call.payload
        (P.unmarshalWriteMap (call.payload.get .writeMap)).1)) name st.sim.store).gasUsed := by
    rw [mergeSimContextWriteMap, hwrites]
    exact UInt64.le_trans h.decoded.le_paid h.writes.le_paid
  generalize mergeSimContextWriteMap P S ord (P.unmarshalWriteMap (call.payload.get .writeMap)).2
    (paid g (createErrBill P S call.payload
      (P.unmarshalWriteMap (call.payload.get .writeMap)).1)) name st.sim.store = merged
    at hle hcreated
  rw [affords_append, affords_append] at hcreated
  obtain ⟨herr, hkey, hfunc⟩ := hcreated
  obtain ⟨note₂, hnote₂⟩ := noteCreateErr_of_affords note₁ herr
  rw [hnote₂]
  dsimp only
  obtain ⟨note₃, hnote₃⟩ := noteCreateErr_of_affords note₂ hkey
  rw [hnote₃]
  dsimp only
  refine (kvIteratorOf_gas hfunc).bind fun r hr => ?_
  have hg : g ≤ r.2.1 :=
    UInt64.le_trans hle (UInt64.le_trans herr.le_paid (UInt64.le_trans hkey.le_paid hr))
  split <;> exact Go.ensures_ok hg

/-! ### Calls and the response -/

/-- `CallContract` returns on success at least the gas that it was given. -/
def CallKeepsGas (S : TxSimContext σ κ η) : Prop :=
  ∀ sim call, (S.callContract sim call).1.code = .success →
    call.gasUsed ≤ (S.callContract sim call).1.result.gasUsed

def CallStart.gasUsed : CallStart σ κ η → UInt64
  | .answered r => r.gasUsed
  | .calls call _ => call.gasUsed

theorem startCallContract_gas {caller : Contract} (h : ∀ c, m.sysCallMessage = some c →
      Affords P g (callBill P S m c.payload st.sim.store)) :
    (startCallContract P S txId m g caller st).Ensures fun r => g ≤ r.gasUsed := by
  unfold startCallContract
  split
  · exact Go.ensures_error _
  rename_i call hm
  have h := h call hm
  dsimp only
  rcases hreq : P.unmarshalCallContractRequest (call.payload.get .callContractReq) with err | req
  · exact Go.ensures_ok (UInt64.le_refl g)
  dsimp only
  split_ifs with hname hmethod
  · exact Go.ensures_ok (UInt64.le_refl g)
  · exact Go.ensures_ok (UInt64.le_refl g)
  rcases hctx : m.crossContext with _ | cross
  · exact Go.ensures_error _
  dsimp only
  split_ifs with hdepth
  · exact Go.ensures_ok (UInt64.le_refl g)
  rcases hget : S.getContractByName st.sim.store req.contractName with ⟨err | contract, s⟩
  · exact Go.ensures_ok (UInt64.le_refl g)
  dsimp only
  by_cases hv : S.blockVersion < version2312
  · rw [callContractGasUsed, if_pos hv]
    exact Go.ensures_ok (UInt64.le_refl g)
  · simp only [callBill, hreq, hctx, hget, hname, hmethod, hdepth, hv, or_self, if_false] at h
    rw [callContractGasUsed, if_neg hv, callContractGasUsed2312, h.charge _]
    exact Go.ensures_ok h.le_paid

/-- The charges of a call can be paid: its own, and those of the events it returns. -/
structure AffordsCall (P : Protocol) (S : TxSimContext σ κ η) (txId : Bytes) (m : DockerVMMessage)
    (params : Payload) (g : UInt64) (caller : Contract) (st : RuntimeState σ κ η) : Prop where
  call : Affords P g (callBill P S m params st.sim.store)
  events : ∀ call st', startCallContract P S txId m g caller st = .ok (.calls call st') →
    ∀ out, out = (S.callContract st'.sim call).1 → out.code = .success →
      Affords P out.result.gasUsed (eventsBill P S out.result.contractEvent)

theorem finishCallContract_gas {call : CrossCall} {out : CallOutcome}
    (hsucc : out.code = .success → call.gasUsed ≤ out.result.gasUsed ∧
      Affords P out.result.gasUsed (eventsBill P S out.result.contractEvent)) :
    call.gasUsed ≤ (finishCallContract P S txId call out st).1.gasUsed := by
  unfold finishCallContract
  split
  · exact UInt64.le_refl _
  · rename_i hcode
    obtain ⟨hle, hevents⟩ := hsucc hcode
    have hgas := emitEvents_gas st.inst.event hevents
    have hle' := UInt64.le_trans hle hevents.le_paid
    rw [← hgas] at hle'
    generalize emitEvents P S out.result.contractEvent out.result.gasUsed st.inst.event = emitted
      at hle' ⊢
    obtain ⟨g', _ | err, events⟩ := emitted
    · dsimp only
      split <;> exact hle'
    · exact hle'

theorem handlerCallContract_gas {caller : Contract} (hcall : CallKeepsGas S)
    (h : ∀ c, m.sysCallMessage = some c → AffordsCall P S txId m c.payload g caller st) :
    (handlerCallContract P S txId m g caller st).Ensures fun r => g ≤ r.1.gasUsed := by
  intro r hr
  obtain ⟨start, hstart, hr⟩ := Go.bind_eq_ok.1 hr
  have hgas := startCallContract_gas (fun c hc => (h c hc).call) start hstart
  obtain ⟨c, hc, -⟩ := startCallContract_returns.1 ⟨start, hstart⟩
  cases start with
  | answered reply =>
    cases hr
    exact hgas
  | calls cross st' =>
    cases hr
    refine UInt64.le_trans hgas (finishCallContract_gas fun hcode => ?_)
    exact ⟨hcall _ _ hcode, (h c hc).events _ _ hstart _ rfl hcode⟩

/-- A response whose transaction succeeded can be merged and paid. -/
structure AffordsResponse (P : Protocol) (S : TxSimContext σ κ η) (ordRead ordWrite : MapOrder)
    (r : TxResponse) (g : UInt64) (contractName : Bytes) (s : σ) : Prop where
  read : (mergeSimContextReadMap P S ordRead r.readMap contractName s).1 = none
  writes : Affords P g (writeBill P S contractName (ordWrite.enum r.writeMap)
    (mergeSimContextReadMap P S ordRead r.readMap contractName s).2)
  events : ∀ merged, merged = mergeSimContextWriteMap P S ordWrite r.writeMap g contractName
      (mergeSimContextReadMap P S ordRead r.readMap contractName s).2 → merged.err = none →
    Affords P merged.gasUsed
      (eventsBill P S (r.events.map (DockerContractEvent.toEvent S.txId)))

theorem handleTxResponse_gas {ordRead ordWrite : MapOrder} {txType : ExecOrderTxType}
    (h : ∀ r, m.response = some r → r.code = .ok →
      AffordsResponse P S ordRead ordWrite r g name st.sim.store) :
    (handleTxResponse P S ordRead ordWrite S.txId m g txType name st).Ensures fun r =>
      g ≤ r.1.1.gasUsed := by
  unfold handleTxResponse
  split
  · exact Go.ensures_error _
  rename_i resp hm
  split_ifs with hcode
  · exact Go.ensures_ok (UInt64.le_refl g)
  obtain ⟨hread, hwrites, hevents⟩ := h resp hm (Classical.not_not.1 hcode)
  have hgas := mergeWriteEntries_gas hwrites
  rcases hr : mergeSimContextReadMap P S ordRead resp.readMap name st.sim.store with ⟨_ | err, s⟩
  · rw [hr] at hwrites hevents hgas
    dsimp only at hwrites hevents hgas ⊢
    have hle : g ≤ (mergeSimContextWriteMap P S ordWrite resp.writeMap g name s).gasUsed := by
      rw [mergeSimContextWriteMap, hgas]
      exact hwrites.le_paid
    have hevents := hevents _ rfl
    generalize mergeSimContextWriteMap P S ordWrite resp.writeMap g name s = merged at hle hevents
    rcases herr : merged.err with _ | err
    · have hev := hevents herr
      have hgas := emitEvents_gas (st.withStore merged.store).inst.event hev
      have hle' := UInt64.le_trans hle hev.le_paid
      rw [← hgas] at hle'
      dsimp only
      generalize emitEvents P S (resp.events.map (DockerContractEvent.toEvent S.txId)) merged.gasUsed
        (st.withStore merged.store).inst.event = emitted at hle' ⊢
      obtain ⟨g', _ | err, events⟩ := emitted
      · exact Go.ensures_ok hle'
      · exact Go.ensures_ok hle'
    · exact Go.ensures_ok hle
  · rw [hr] at hread
    cases hread

end

end VmEngine.Runtime
