/-
  What the handlers do to an instance and to the shared context.

  A system call leaves the event cache of the instance as it is.  The row index and the
  handles change only when an iterator is created, and then the response carries the new
  index; no other response carries one.  The store is read, and a message that brings a
  write map may merge it.

  `Effect` says this of a system call, `Finished` of the return from another contract and
  `Responded` of the response that ends the transaction.
-/
import VmEngine.Runtime.Invoke

namespace VmEngine.Runtime

variable {σ κ η : Type} {P : Protocol} {S : TxSimContext σ κ η}

/-! ## The iterators -/

/-- The iterators are the same. -/
structure SameIters (st st' : RuntimeState σ κ η) : Prop where
  rowIndex : st'.inst.rowIndex = st.inst.rowIndex
  handles : st'.sim.iterHandles = st.sim.iterHandles

theorem SameIters.refl (st : RuntimeState σ κ η) : SameIters st st := ⟨rfl, rfl⟩

/-- The response of a system call carries an iterator index. -/
def SysCallMessage.carriesIndex (m : SysCallMessage) : Bool := (m.payload.lookup .iterIndex).isSome

/-- A system call leaves the iterators as they are, or adds one and returns its index. -/
inductive IterEffect (P : Protocol) (st : RuntimeState σ κ η) (r : Reply σ κ η) : Prop
  | same (hm : r.message.carriesIndex = false) (hs : SameIters st r.state)
  | added (h : Handle κ η) (hm : r.message.payload = [(.iterIndex, P.intToBytes (st.inst.rowIndex + 1))])
      (hrow : r.state.inst.rowIndex = st.inst.rowIndex + 1)
      (hs : r.state.sim.iterHandles = (st.sim.setIterHandle (st.inst.rowIndex + 1) h).iterHandles)

/-! ## The store -/

/-- Operations on the store other than `Put`. -/
inductive Reads (S : TxSimContext σ κ η) : σ → σ → Prop
  | refl (s : σ) : Reads S s s
  | trans {s s' s'' : σ} (h : Reads S s s') (h' : Reads S s' s'') : Reads S s s''
  | get {s s' c k r} (h : S.get s c k = (r, s')) : Reads S s s'
  | getKeys {s s' keys r} (h : S.getKeys s keys = (r, s')) : Reads S s s'
  | putIntoReadSet (s : σ) (c k v : Bytes) : Reads S s (S.putIntoReadSet s c k v)
  | select (s : σ) (c k limit : Bytes) : Reads S s (S.select s c k limit).2
  | getHistoryIterForKey {s s' c k r} (h : S.getHistoryIterForKey s c k = (r, s')) : Reads S s s'
  | kvNext (s : σ) (i : κ) : Reads S s (S.kvNext s i).2
  | kvValue {s s' i r} (h : S.kvValue s i = (r, s')) : Reads S s s'
  | kvRelease (s : σ) (i : κ) : Reads S s (S.kvRelease s i)
  | historyNext (s : σ) (i : η) : Reads S s (S.historyNext s i).2
  | historyValue {s s' i r} (h : S.historyValue s i = (r, s')) : Reads S s s'
  | historyRelease (s : σ) (i : η) : Reads S s (S.historyRelease s i)
  | getContractByName {s s' c r} (h : S.getContractByName s c = (r, s')) : Reads S s s'
  | getSenderAddress {s s' r} (h : S.getSenderAddress s = (r, s')) : Reads S s s'

theorem mergeReadEntries_reads (name : Bytes) (l : List (Bytes × Bytes)) (s : σ) :
    Reads S s (mergeReadEntries P S name l s).2 := by
  induction l generalizing s with
  | nil => exact .refl s
  | cons e l ih =>
    rw [mergeReadEntries]
    split
    · exact .refl s
    · exact (Reads.putIntoReadSet ..).trans (ih _)

/-- The entries that a message of the sandbox carries. -/
def sentEntries (P : Protocol) (m : DockerVMMessage) : List (Bytes × Bytes) :=
  match m.type with
  | .txResponse => m.response.elim [] fun r => r.writeMap.entries
  | .createKvIteratorRequest | .createKeyHistoryIterRequest =>
    m.sysCallMessage.elim [] fun call =>
      (P.unmarshalWriteMap (call.payload.get .writeMap)).2.entries
  | _ => []

/-- A message makes the store be read, and at most once the entries it carries be merged. -/
inductive Merges (P : Protocol) (S : TxSimContext σ κ η) (name : Bytes) (ord : MapOrder)
    (m : DockerVMMessage) (s s' : σ) : Prop
  | reads (h : Reads S s s')
  | merged {writeMap : GoMap} {g : UInt64} {s₁ : σ} (hsent : sentEntries P m = writeMap.entries)
      (hread : Reads S s s₁)
      (h : Reads S (mergeSimContextWriteMap P S ord writeMap g name s₁).store s')

/-! ## System calls -/

/-- What a system call does. -/
structure Effect (P : Protocol) (S : TxSimContext σ κ η) (name : Bytes) (ord : MapOrder)
    (m : DockerVMMessage) (st : RuntimeState σ κ η) (r : Reply σ κ η) : Prop where
  iters : IterEffect P st r
  event : r.state.inst.event = st.inst.event
  store : Merges P S name ord m st.sim.store r.state.sim.store

section
variable {txId name : Bytes} {ord : MapOrder} {m : DockerVMMessage} {g : UInt64}
  {st : RuntimeState σ κ η} {type : DockerVMType} {message : SysCallMessage}

theorem Effect.answered {s : σ} (hm : message.carriesIndex = false)
    (h : Merges P S name ord m st.sim.store s) :
    Effect P S name ord m st ⟨txId, type, message, g, st.withStore s⟩ :=
  ⟨.same hm ⟨rfl, rfl⟩, rfl, h⟩

/-- The request is answered before the store is touched. -/
theorem Effect.early (hm : message.carriesIndex = false) :
    Effect P S name ord m st ⟨txId, type, message, g, st⟩ :=
  .answered hm (.reads (.refl _))

theorem handleGetStateRequest_effect :
    (handleGetStateRequest P S txId m g st).Ensures (Effect P S name ord m st) := by
  unfold handleGetStateRequest
  split
  · exact Go.ensures_error _
  split
  · exact Go.ensures_ok (.early rfl)
  dsimp only
  split
  · exact Go.ensures_ok (.answered rfl (.reads (.get ‹_›)))
  refine (Go.Ensures.any _).bind fun key _ => (Go.Ensures.any _).bind fun field _ => ?_
  split
  all_goals
    refine Go.ensures_ok (.answered ?_ (.reads (.get ‹_›)))
    simp only [SysCallMessage.carriesIndex]
    split_ifs <;> rfl

theorem handleGetBatchStateRequest_effect :
    (handleGetBatchStateRequest P S txId m g st).Ensures (Effect P S name ord m st) := by
  unfold handleGetBatchStateRequest
  split
  · exact Go.ensures_error _
  split
  · exact Go.ensures_ok (.early rfl)
  repeat' split
  all_goals exact Go.ensures_ok (.answered rfl (.reads (.getKeys ‹_›)))

theorem handleGetSenderAddress_effect :
    (handleGetSenderAddress P S txId g st).Ensures (Effect P S name ord m st) := by
  unfold handleGetSenderAddress
  split
  · exact Go.ensures_ok (.early rfl)
  split <;> exact Go.ensures_ok (.answered rfl (.reads (.getSenderAddress ‹_›)))

/-- A step on an iterator. -/
structure Consumed.Effect (S : TxSimContext σ κ η) (s : σ) (c : Consumed σ) : Prop where
  message : c.message.carriesIndex = false
  store : Reads S s c.store

theorem iterHasNext_effect {charged : UInt64 × Option Bytes} {next : σ → Bool × σ} {s : σ}
    (h : Reads S s (next s).2) : (iterHasNext P charged next s).Effect S s := by
  rcases charged with ⟨g, _ | err⟩
  · exact ⟨rfl, h⟩
  · exact ⟨rfl, .refl s⟩

theorem iterClose_effect {charged : UInt64 × Option Bytes} {release : σ → σ} {s : σ}
    (h : Reads S s (release s)) : (iterClose charged release s).Effect S s := by
  rcases charged with ⟨g, _ | err⟩
  · exact ⟨rfl, h⟩
  · exact ⟨rfl, .refl s⟩

theorem consumeKvNotFound_effect (message : Bytes) (s : σ) :
    (consumeKvNotFound P S message g s).Effect S s := by
  unfold consumeKvNotFound
  split <;> exact ⟨rfl, .refl s⟩

theorem kvIteratorNext_effect (iter : Option κ) (s : σ) :
    (kvIteratorNext P S iter g s).Ensures (Consumed.Effect S s) := by
  unfold kvIteratorNext
  split
  · exact Go.ensures_ok ⟨rfl, .refl s⟩
  split
  · exact Go.ensures_ok ⟨rfl, .refl s⟩
  split
  · exact Go.ensures_ok ⟨rfl, .kvValue ‹_›⟩
  · exact Go.ensures_error _
  refine (Go.Ensures.any _).bind fun key _ => (Go.Ensures.any _).bind fun field _ => ?_
  dsimp only
  repeat' split
  all_goals exact Go.ensures_ok ⟨rfl, .kvValue ‹_›⟩

theorem consumeKvAt_effect (payload : Payload) (sim : SimContext σ κ η) :
    (consumeKvAt P S payload g sim).Ensures (Consumed.Effect S sim.store) := by
  unfold consumeKvAt
  split
  · exact Go.ensures_ok (consumeKvNotFound_effect ..)
  split
  · exact Go.ensures_ok (consumeKvNotFound_effect ..)
  · unfold consumeKv
    split_ifs
    · exact Go.ensures_ok (iterHasNext_effect (.kvNext _ _))
    · exact kvIteratorNext_effect _ _
    · exact Go.ensures_ok (iterClose_effect (.kvRelease _ _))
    · exact Go.ensures_ok ⟨rfl, .refl _⟩
  · exact Go.ensures_ok (consumeKvNotFound_effect ..)

theorem handleConsumeKvIterator_effect :
    (handleConsumeKvIterator P S txId m g st).Ensures (Effect P S name ord m st) := by
  unfold handleConsumeKvIterator
  split
  · exact Go.ensures_error _
  exact (consumeKvAt_effect _ _).bind fun c hc =>
    Go.ensures_ok (.answered hc.message (.reads hc.store))

theorem keyHistoryIterNext_effect (iter : Option η) (s : σ) :
    (keyHistoryIterNext P S iter g s).Ensures (Consumed.Effect S s) := by
  unfold keyHistoryIterNext
  split
  · exact Go.ensures_ok ⟨rfl, .refl s⟩
  split
  · exact Go.ensures_ok ⟨rfl, .refl s⟩
  repeat' split
  all_goals first
    | exact Go.ensures_error _
    | exact Go.ensures_ok ⟨rfl, .historyValue ‹_›⟩

theorem consumeKeyHistoryAt_effect (payload : Payload) (current : UInt64) (sim : SimContext σ κ η) :
    (consumeKeyHistoryAt P S payload g current sim).Ensures (Consumed.Effect S sim.store) := by
  unfold consumeKeyHistoryAt
  split
  · exact Go.ensures_ok ⟨rfl, .refl _⟩
  split
  · exact Go.ensures_ok ⟨rfl, .refl _⟩
  · unfold consumeKeyHistory
    split_ifs
    · exact Go.ensures_ok (iterHasNext_effect (.historyNext _ _))
    · exact keyHistoryIterNext_effect _ _
    · exact Go.ensures_ok (iterClose_effect (.historyRelease _ _))
    · exact Go.ensures_ok ⟨rfl, .refl _⟩
  · exact Go.ensures_ok ⟨rfl, .refl _⟩

theorem handleConsumeKeyHistoryIterator_effect :
    (handleConsumeKeyHistoryIterator P S txId m g st).Ensures (Effect P S name ord m st) := by
  unfold handleConsumeKeyHistoryIterator
  split
  · exact Go.ensures_ok (.early rfl)
  split
  · exact Go.ensures_error _
  exact (consumeKeyHistoryAt_effect _ _ _).bind fun c hc =>
    Go.ensures_ok (.answered hc.message (.reads hc.store))

/-- An error branch that ends the creation answers with a failure. -/
theorem noteCreateErr_failed {params : Payload} {err : Option Bytes} {note : Bytes × UInt64}
    {g' : UInt64} (h : noteCreateErr P S params err note = .error (message, g')) :
    message.carriesIndex = false := by
  rcases err with _ | err
  · cases h
  · simp only [noteCreateErr] at h
    split at h
    · cases h; rfl
    · cases h

theorem kvIteratorOf_reads (func contractName : Bytes) (params : Payload) (s : σ) :
    (kvIteratorOf P S func contractName params g s).Ensures fun r => Reads S s r.2.2 := by
  unfold kvIteratorOf
  split_ifs
  · unfold kvIteratorCreate
    repeat' split
    · exact Go.ensures_ok (.refl s)
    · exact Go.ensures_ok (.refl s)
    · exact Go.ensures_ok (.select ..)
  · unfold kvPreIteratorCreate
    split
    · exact Go.ensures_ok (.refl s)
    · exact (Go.Ensures.any _).bind fun limit _ => Go.ensures_ok (.select ..)
  · exact Go.ensures_ok (.refl s)

theorem handleCreateKvIterator_effect (htype : m.type = .createKvIteratorRequest) :
    (handleCreateKvIterator P S ord txId m g name st).Ensures (Effect P S name ord m st) := by
  unfold handleCreateKvIterator
  split
  · exact Go.ensures_error _
  rename_i call hcall
  have hsent : sentEntries P m = (P.unmarshalWriteMap (call.payload.get .writeMap)).2.entries := by
    simp only [sentEntries, htype, hcall, Option.elim_some]
  dsimp only
  split
  · exact Go.ensures_ok (.early (noteCreateErr_failed ‹_›))
  split
  · exact Go.ensures_ok (.answered (noteCreateErr_failed ‹_›) (.merged hsent (.refl _) (.refl _)))
  split
  · exact Go.ensures_ok (.answered (noteCreateErr_failed ‹_›) (.merged hsent (.refl _) (.refl _)))
  refine (kvIteratorOf_reads _ _ _ _).bind fun r hr => ?_
  split
  · exact Go.ensures_ok (.answered rfl (.merged hsent (.refl _) hr))
  · exact Go.ensures_ok ⟨.added _ rfl rfl rfl, rfl, .merged hsent (.refl _) hr⟩

theorem handleCreateKeyHistoryIterator_effect (htype : m.type = .createKeyHistoryIterRequest) :
    (handleCreateKeyHistoryIterator P S ord txId m g name st).Ensures
      (Effect P S name ord m st) := by
  unfold handleCreateKeyHistoryIterator
  split
  · exact Go.ensures_error _
  rename_i call hcall
  split
  · exact Go.ensures_ok (.early rfl)
  split
  · exact Go.ensures_ok (.early rfl)
  rename_i writeMap hmap
  have hsent : sentEntries P m = writeMap.entries := by
    simp only [sentEntries, htype, hcall, hmap, Option.elim_some]
  dsimp only
  split
  · exact Go.ensures_ok (.answered rfl (.merged hsent (.refl _) (.refl _)))
  split
  · exact Go.ensures_ok (.answered rfl (.merged hsent (.refl _) (.refl _)))
  split
  all_goals
    rename_i heq
    have hread := Reads.getHistoryIterForKey heq
  · exact Go.ensures_ok (.answered rfl (.merged hsent (.refl _) hread))
  · exact Go.ensures_ok ⟨.added _ rfl rfl rfl, rfl, .merged hsent (.refl _) hread⟩

/-! ## Calls of other contracts -/

/-- A request to call a contract, up to the call. -/
def CallStart.Effect (P : Protocol) (S : TxSimContext σ κ η) (name : Bytes) (ord : MapOrder)
    (m : DockerVMMessage) (st : RuntimeState σ κ η) : CallStart σ κ η → Prop
  | .answered r => Runtime.Effect P S name ord m st r
  | .calls _ st' => ∃ s, Reads S st.sim.store s ∧ st' = st.withStore s

theorem startCallContract_effect {caller : Contract} :
    (startCallContract P S txId m g caller st).Ensures (CallStart.Effect P S name ord m st) := by
  unfold startCallContract
  split
  · exact Go.ensures_error _
  dsimp only
  split
  · exact Go.ensures_ok (Effect.early rfl)
  split_ifs
  · exact Go.ensures_ok (Effect.early rfl)
  · exact Go.ensures_ok (Effect.early rfl)
  split
  · exact Go.ensures_error _
  split_ifs
  · exact Go.ensures_ok (Effect.early rfl)
  split
  all_goals
    rename_i heq
    have hread := Reads.getContractByName heq
  · exact Go.ensures_ok (Effect.answered rfl (.reads hread))
  split
  · exact Go.ensures_ok (Effect.answered rfl (.reads hread))
  · exact Go.ensures_ok ⟨_, hread, rfl⟩

/-- Events that are all charged are all cached. -/
theorem emitEvents_ok {es cache cache' : List ContractEvent} {g' : UInt64}
    (h : emitEvents P S es g cache = (g', none, cache')) : cache' = cache ++ es := by
  induction es generalizing g cache with
  | nil =>
    cases h
    exact (List.append_nil _).symm
  | cons e es ih =>
    rw [emitEvents] at h
    split at h
    · cases h
    · rw [ih h, List.append_assoc, List.singleton_append]

/-- Since version 2312 events are free. -/
theorem emitEvents_of_version (hv : version2312 ≤ S.blockVersion) (es cache : List ContractEvent) :
    emitEvents P S es g cache = (g, none, cache ++ es) := by
  induction es generalizing cache with
  | nil => rw [List.append_nil]; rfl
  | cons e es ih =>
    have hfree : emitEventGasUsed P S.blockVersion (S.gasConfig P) g e = (g, none) :=
      if_neg (UInt32.not_lt.2 hv)
    rw [emitEvents, hfree]
    exact (ih _).trans (by rw [List.append_assoc, List.singleton_append])

/-- What `handlerCallContract` does with the outcome of the call. -/
structure Finished (S : TxSimContext σ κ η) (out : CallOutcome) (st : RuntimeState σ κ η)
    (r : Reply σ κ η) : Prop where
  message : r.message.carriesIndex = false
  sim : r.state.sim = st.sim
  rowIndex : r.state.inst.rowIndex = st.inst.rowIndex
  failed : out.code ≠ .success → r.state.inst.event = st.inst.event
  served : version2312 ≤ S.blockVersion → out.code = .success →
    r.state.inst.event = st.inst.event ++ out.result.contractEvent

theorem finishCallContract_finished (txId : Bytes) (call : CrossCall) (out : CallOutcome)
    (st : RuntimeState σ κ η) :
    Finished S out st (finishCallContract P S txId call out st).1 ∧
      (finishCallContract P S txId call out st).2 = out.txType := by
  unfold finishCallContract
  split
  · rename_i hcode
    exact ⟨⟨rfl, rfl, rfl, fun _ => rfl, fun _ h => by rw [hcode] at h; cases h⟩, rfl⟩
  rename_i hcode
  have hnot : ∀ {q : Prop}, out.code ≠ .success → q := fun h => absurd hcode h
  split
  · rename_i hemit
    refine ⟨⟨rfl, rfl, rfl, hnot, fun hv _ => ?_⟩, rfl⟩
    rw [emitEvents_of_version hv] at hemit
    cases hemit
  · rename_i hemit
    dsimp only
    split <;> exact ⟨⟨rfl, rfl, rfl, hnot, fun _ _ => emitEvents_ok hemit⟩, rfl⟩

/-! ## The response of the transaction -/

/-- How a response ends a call of `Invoke`: with a failure, or with all its entries merged and its
    events cached. -/
inductive Responded (P : Protocol) (S : TxSimContext σ κ η) (txId name : Bytes) (ord : MapOrder)
    (m : DockerVMMessage) (ty : ExecOrderTxType) (st : RuntimeState σ κ η) :
    (ContractResult × ExecOrderTxType) × RuntimeState σ κ η → Prop
  | fails {result st'} (hcode : result.code ≠ 0) (hs : SameIters st st')
      (hm : Merges P S name ord m st.sim.store st'.sim.store) :
      Responded P S txId name ord m ty st ((result, .normal), st')
  | succeeds {result st' resp g s} (hcode : result.code = 0) (hs : SameIters st st')
      (hresp : m.response = some resp) (hread : Reads S st.sim.store s)
      (herr : (mergeSimContextWriteMap P S ord resp.writeMap g name s).err = none)
      (hstore : st'.sim.store = (mergeSimContextWriteMap P S ord resp.writeMap g name s).store)
      (hevent : result.contractEvent = st.inst.event ++ resp.events.map (·.toEvent txId)) :
      Responded P S txId name ord m ty st ((result, ty), st')

theorem code_one_ne_zero : (1 : UInt32) ≠ 0 := by decide

theorem handleTxResponse_responded {ordRead : MapOrder} {ty : ExecOrderTxType}
    (htype : m.type = .txResponse) :
    (handleTxResponse P S ordRead ord txId m g ty name st).Ensures
      (Responded P S txId name ord m ty st) := by
  unfold handleTxResponse
  split
  · exact Go.ensures_error _
  rename_i resp hresp
  have hsent : sentEntries P m = resp.writeMap.entries := by
    simp only [sentEntries, htype, hresp, Option.elim_some]
  split_ifs
  · exact Go.ensures_ok (.fails code_one_ne_zero (.refl st) (.reads (.refl _)))
  dsimp only
  have hread := mergeReadEntries_reads (P := P) (S := S) name (ordRead.enum resp.readMap) st.sim.store
  split
  all_goals
    rename_i s heq
    unfold mergeSimContextReadMap at heq
    rw [heq] at hread
  · exact Go.ensures_ok (.fails code_one_ne_zero ⟨rfl, rfl⟩ (.reads hread))
  have hmerged : Merges P S name ord m st.sim.store
      (mergeSimContextWriteMap P S ord resp.writeMap g name s).store :=
    .merged hsent hread (.refl _)
  split
  · exact Go.ensures_ok (.fails code_one_ne_zero ⟨rfl, rfl⟩ hmerged)
  rename_i herr
  split
  · exact Go.ensures_ok (.fails code_one_ne_zero ⟨rfl, rfl⟩ hmerged)
  · rename_i hemit
    exact Go.ensures_ok (.succeeds rfl ⟨rfl, rfl⟩ hresp hread herr rfl (emitEvents_ok hemit))

end

end VmEngine.Runtime
