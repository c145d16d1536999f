/-
  Replicas of a transaction.

  Every node of a chain runs a transaction on its own and has to come to the same
  result.  The nodes get the same messages, but each goes over the maps in them in an
  order of its own: Go leaves the order of a map open.  `merge_order_free` says when one
  merge does not depend on it.  Here this is carried to whole transactions, with
  contract calls to any depth: if all merged maps are clean, that is, every entry can be
  merged in every order and entries of one stored key agree, then the nodes send the
  same responses, return the same results and end with the same context.

  `Commuting` is what is assumed of the context: its state does not keep the order in
  which different keys were put.
-/
import VmEngine.Runtime.CallStack
import VmEngine.Runtime.MergeOrder

namespace VmEngine.Runtime

variable {σ κ η : Type} {P : Protocol} {S : TxSimContext σ κ η}

structure Commuting (S : TxSimContext σ κ η) extends WriteSet S where
  put_comm : ∀ s c k v k' v', k ≠ k' →
    (S.put (S.put s c k v).2 c k' v').2 = (S.put (S.put s c k' v').2 c k v).2
  read_comm : ∀ s c k v k' v', k ≠ k' →
    S.putIntoReadSet (S.putIntoReadSet s c k v) c k' v' =
      S.putIntoReadSet (S.putIntoReadSet s c k' v') c k v

/-! ## Clean maps -/

/-- The key under which an entry of a read map is stored. -/
def readKey (P : Protocol) (name : Bytes) (e : Entry) : Bytes :=
  match readKeyParts name e.1 with
  | .error _ => []
  | .ok (contractKey, contractField) => P.getKeyStr contractKey contractField

/-- A read map whose entries are all well formed and agree on every stored key. -/
structure CleanReads (P : Protocol) (name : Bytes) (readMap : GoMap) : Prop where
  formed : ∀ e ∈ readMap.entries, ∃ parts, readKeyParts name e.1 = .ok parts
  agree : ∀ e₁ ∈ readMap.entries, ∀ e₂ ∈ readMap.entries,
    readKey P name e₁ = readKey P name e₂ → e₁.2 = e₂.2

/-- A write map whose entries can be merged in every order and agree on every stored key. -/
structure CleanWrites (W : WriteSet S) (P : Protocol) (name : Bytes) (writeMap : GoMap)
    (g : UInt64) : Prop where
  accepted : ∀ e ∈ writeMap.entries, Entry.Accepted W P name e
  agree : ∀ e₁ ∈ writeMap.entries, ∀ e₂ ∈ writeMap.entries,
    Entry.storedKey P name e₁ = Entry.storedKey P name e₂ → e₁.2 = e₂.2
  payable : ∀ l, l.Perm writeMap.entries → Payable P S name g l

/-- An entry is put into the read set, or into the write set. -/
def putRead (P : Protocol) (S : TxSimContext σ κ η) (name : Bytes) (s : σ) (e : Entry) : σ :=
  S.putIntoReadSet s name (readKey P name e) e.2

def putWrite (P : Protocol) (S : TxSimContext σ κ η) (name : Bytes) (s : σ) (e : Entry) : σ :=
  (S.put s name (Entry.storedKey P name e) e.2).2

theorem mergeReadEntries_eq {name : Bytes} {l : List Entry}
    (h : ∀ e ∈ l, ∃ parts, readKeyParts name e.1 = .ok parts) (s : σ) :
    mergeReadEntries P S name l s = (none, l.foldl (putRead P S name) s) := by
  induction l generalizing s with
  | nil => rfl
  | cons e l ih =>
    obtain ⟨he, hl⟩ := List.forall_mem_cons.1 h
    obtain ⟨⟨contractKey, contractField⟩, hparts⟩ := he
    rw [mergeReadEntries, hparts]
    dsimp only
    rw [ih hl, List.foldl_cons, putRead, readKey, hparts]

variable (C : Commuting S)

include C in
/-- A clean read map leaves the same in every order. -/
theorem mergeSimContextReadMap_orders {name : Bytes} {readMap : GoMap}
    (h : CleanReads P name readMap) (o₁ o₂ : MapOrder) (s : σ) :
    mergeSimContextReadMap P S o₁ readMap name s = mergeSimContextReadMap P S o₂ readMap name s := by
  have hperm : (o₁.enum readMap).Perm (o₂.enum readMap) :=
    (o₁.perm readMap).trans (o₂.perm readMap).symm
  unfold mergeSimContextReadMap
  rw [mergeReadEntries_eq fun e he => h.formed e ((o₁.perm readMap).mem_iff.1 he),
    mergeReadEntries_eq fun e he => h.formed e ((o₂.perm readMap).mem_iff.1 he)]
  refine congrArg (Prod.mk none) (hperm.foldl_eq' (fun e₁ h₁ e₂ h₂ s => ?_) s)
  by_cases hkey : readKey P name e₁ = readKey P name e₂
  · have hvalue := h.agree e₁ ((o₁.perm readMap).mem_iff.1 h₁) e₂ ((o₁.perm readMap).mem_iff.1 h₂) hkey
    unfold putRead
    rw [hkey, hvalue]
  · exact C.read_comm _ _ _ _ _ _ hkey

/-- A merge that nothing stops puts its entries one after another. -/
theorem mergeWriteEntries_store {name : Bytes} {l : List Entry} {g g' : UInt64}
    (h : (mergeLoop C.toWriteSet P name).run l g = .ok g') (s : σ) :
    mergeWriteEntries P S name l g s = ⟨g', none, l.foldl (putWrite P S name) s⟩ := by
  induction l generalizing g s with
  | nil => cases h; rfl
  | cons e l ih =>
    rcases hnext : (mergeLoop C.toWriteSet P name).next g e with g₁ | g₁
    · rw [WriteLoop.run_cons_error hnext] at h
      cases h
    · rw [WriteLoop.run_cons_ok hnext] at h
      rw [mergeWriteEntries_of_ok C.toWriteSet hnext, ih h]
      rfl

/-- A clean write map leaves the same in every order. -/
theorem mergeSimContextWriteMap_orders {name : Bytes} {writeMap : GoMap} {g : UInt64}
    (h : CleanWrites C.toWriteSet P name writeMap g) (o₁ o₂ : MapOrder) (s : σ) :
    mergeSimContextWriteMap P S o₁ writeMap g name s =
      mergeSimContextWriteMap P S o₂ writeMap g name s := by
  have hperm : (o₁.enum writeMap).Perm (o₂.enum writeMap) :=
    (o₁.perm writeMap).trans (o₂.perm writeMap).symm
  have hrun : ∀ l, l.Perm writeMap.entries → (mergeLoop C.toWriteSet P name).Runs g l := fun l hl =>
    (runs_iff C.toWriteSet).2 ⟨fun e he => h.accepted e (hl.mem_iff.1 he), h.payable l hl⟩
  obtain ⟨g', hg'⟩ := hrun _ (o₁.perm writeMap)
  have hsame := WriteLoop.run_perm (next_comm C.toWriteSet) hperm fun l hl =>
    hrun l (hl.trans (o₁.perm writeMap))
  unfold mergeSimContextWriteMap
  rw [mergeWriteEntries_store C hg', mergeWriteEntries_store C (hsame.symm.trans hg')]
  refine congrArg (Merged.mk g' none) (hperm.foldl_eq' (fun e₁ h₁ e₂ h₂ s => ?_) s)
  by_cases hkey : Entry.storedKey P name e₁ = Entry.storedKey P name e₂
  · have hvalue := h.agree e₁ ((o₁.perm writeMap).mem_iff.1 h₁) e₂ ((o₁.perm writeMap).mem_iff.1 h₂) hkey
    unfold putWrite
    rw [hkey, hvalue]
  · exact C.put_comm _ _ _ _ _ _ hkey

/-! ## Clean messages -/

/-- The maps that a message brings to be merged are clean, at the gas with which the merge
    starts. -/
def CleanMsg (W : WriteSet S) (P : Protocol) (name : Bytes) (g : UInt64) (m : DockerVMMessage) :
    Prop :=
  match m.type with
  | .txResponse => ∀ r, m.response = some r → r.code = .ok →
    CleanReads P name r.readMap ∧ CleanWrites W P name r.writeMap g
  | .createKvIteratorRequest => ∀ call, m.sysCallMessage = some call → ∀ note g',
    noteCreateErr P S call.payload (P.unmarshalWriteMap (call.payload.get .writeMap)).1 ([], g) =
      .ok (note, g') →
    CleanWrites W P name (P.unmarshalWriteMap (call.payload.get .writeMap)).2 g'
  | .createKeyHistoryIterRequest => ∀ call, m.sysCallMessage = some call → ∀ g',
    createKeyHistoryIterGasUsed P S.blockVersion (S.gasConfig P) call.payload g = (g', none) →
    ∀ writeMap, P.unmarshalWriteMap (call.payload.get .writeMap) = (none, writeMap) →
    CleanWrites W P name writeMap g'
  | _ => True

section
variable {txId name : Bytes} {m : DockerVMMessage} {g : UInt64} {ty : ExecOrderTxType}
  {st : RuntimeState σ κ η}

theorem handleCreateKvIterator_orders (htype : m.type = .createKvIteratorRequest)
    (h : CleanMsg C.toWriteSet P name g m) (o₁ o₂ : MapOrder) :
    handleCreateKvIterator P S o₁ txId m g name st = handleCreateKvIterator P S o₂ txId m g name st := by
  simp only [CleanMsg, htype] at h
  unfold handleCreateKvIterator
  rcases hcall : m.sysCallMessage with _ | call
  · rfl
  dsimp only
  rcases hnote : noteCreateErr P S call.payload
      (P.unmarshalWriteMap (call.payload.get .writeMap)).1 ([], g) with _ | ⟨note, g'⟩
  · rfl
  dsimp only
  rw [mergeSimContextWriteMap_orders C (h call hcall note g' hnote) o₁ o₂]

theorem handleCreateKeyHistoryIterator_orders (htype : m.type = .createKeyHistoryIterRequest)
    (h : CleanMsg C.toWriteSet P name g m) (o₁ o₂ : MapOrder) :
    handleCreateKeyHistoryIterator P S o₁ txId m g name st =
      handleCreateKeyHistoryIterator P S o₂ txId m g name st := by
  simp only [CleanMsg, htype] at h
  unfold handleCreateKeyHistoryIterator
  rcases hcall : m.sysCallMessage with _ | call
  · rfl
  dsimp only
  rcases hgas : createKeyHistoryIterGasUsed P S.blockVersion (S.gasConfig P) call.payload g with
    ⟨g', _ | err⟩
  · dsimp only
    rcases hmap : P.unmarshalWriteMap (call.payload.get .writeMap) with ⟨_ | err, writeMap⟩
    · dsimp only
      rw [mergeSimContextWriteMap_orders C (h call hcall g' hgas writeMap hmap) o₁ o₂]
    · rfl
  · rfl

theorem handleTxResponse_orders (htype : m.type = .txResponse)
    (h : CleanMsg C.toWriteSet P name g m) (o₁ o₁' o₂ o₂' : MapOrder) :
    handleTxResponse P S o₁ o₁' txId m g ty name st =
      handleTxResponse P S o₂ o₂' txId m g ty name st := by
  simp only [CleanMsg, htype] at h
  unfold handleTxResponse
  rcases hresp : m.response with _ | r
  · rfl
  dsimp only
  split_ifs with hcode
  · rfl
  obtain ⟨hreads, hwrites⟩ := h r hresp (not_not.1 hcode)
  rw [mergeSimContextReadMap_orders C hreads o₁ o₂]
  rcases mergeSimContextReadMap P S o₂ r.readMap name st.sim.store with ⟨_ | err, s⟩
  · dsimp only
    rw [mergeSimContextWriteMap_orders C hwrites o₁' o₂']
  · rfl

theorem handleSandboxMsg_orders {call : Invocation}
    (h : CleanMsg C.toWriteSet P call.contract.name g m) (o₁ o₁' o₂ o₂' : MapOrder) :
    handleSandboxMsg P S call o₁ o₁' m g ty st = handleSandboxMsg P S call o₂ o₂' m g ty st := by
  unfold handleSandboxMsg
  cases htype : m.type with
  | txResponse =>
    dsimp only
    rw [handleTxResponse_orders C htype h o₁ o₁' o₂ o₂']
  | createKvIteratorRequest =>
    dsimp only
    rw [handleCreateKvIterator_orders C htype h o₁' o₂']
  | createKeyHistoryIterRequest =>
    dsimp only
    rw [handleCreateKeyHistoryIterator_orders C htype h o₁' o₂']
  | _ => rfl

end

/-! ## Runs of two replicas -/

/-- The same step, up to the orders in which maps are enumerated. -/
inductive SameStep : CallAction → CallAction → Prop
  | refl (a : CallAction) : SameStep a a
  | orders (m : DockerVMMessage) (o₁ o₁' o₂ o₂' : MapOrder) :
      SameStep (.received (.sandbox m o₁ o₁')) (.received (.sandbox m o₂ o₂'))

/-- The maps that a step merges are clean. -/
def CleanStep (W : WriteSet S) (P : Protocol) (s : CallStack σ κ η) : CallAction → Prop
  | .received (.sandbox m _ _) => ∀ g ty st, s.loop = .running g ty st →
    CleanMsg W P s.invocation.contract.name g m
  | _ => True

namespace CallStack

/-- A run of a replica: the state it ends in, and the responses sent to the sandboxes. -/
def runAll (P : Protocol) (S : TxSimContext σ κ η) :
    CallStack σ κ η → List CallAction → Option (CallStack σ κ η × List DockerVMMessage)
  | s, [] => some (s, [])
  | s, a :: as => do
    let (s', sent) ← s.act P S a
    let (t, rest) ← runAll P S s' as
    some (t, sent.toList ++ rest)

/-- All maps that the run merges are clean. -/
def CleanRun (W : WriteSet S) (P : Protocol) : CallStack σ κ η → List CallAction → Prop
  | _, [] => True
  | s, a :: as => CleanStep W P s a ∧ ∀ s' sent, s.act P S a = some (s', sent) → CleanRun W P s' as

end CallStack

theorem act_orders {s : CallStack σ κ η} {a b : CallAction} (hsame : SameStep a b)
    (hclean : CleanStep C.toWriteSet P s a) : s.act P S a = s.act P S b := by
  cases hsame with
  | refl => rfl
  | orders m o₁ o₁' o₂ o₂' =>
    obtain ⟨id, inv, loop, callers, fresh⟩ := s
    rcases loop with ⟨g, ty, st⟩ | _
    · have heq : handleSandboxMsg P S inv o₁ o₁' m g ty st =
          handleSandboxMsg P S inv o₂ o₂' m g ty st :=
        handleSandboxMsg_orders C (hclean g ty st rfl) o₁ o₁' o₂ o₂'
      simp only [CallStack.act, InvokeState.turn, makesCall, heq]
      rfl
    · rfl

/-- Since version 2312 every entry can be paid for. -/
theorem payable_of_version (hv : version2312 ≤ S.blockVersion) (name : Bytes) (g : UInt64)
    (l : List Entry) : Payable P S name g l := by
  induction l generalizing g with
  | nil => trivial
  | cons e l ih => exact ⟨fun h => absurd h (UInt32.not_lt.2 hv), ih _⟩

abbrev MapStore := Bytes → Bytes → Option Bytes

def MapStore.put (s : MapStore) (c k v : Bytes) : MapStore :=
  fun c' k' => if c' = c ∧ k' = k then some v else s c' k'

def TxSimContext.mapped (blockVersion : UInt32) : TxSimContext MapStore ℕ ℕ where
  txId := text "tx1"
  blockVersion := blockVersion
  accountConfig := none
  addrTypeZXL := false
  get s c k := (.ok (s c k), s)
  getKeys s keys := (.ok keys, s)
  put s c k v := (none, s.put c k v)
  putIntoReadSet s _ _ _ := s
  select s _ _ _ := (.ok none, s)
  getHistoryIterForKey s _ _ := (.ok none, s)
  kvNext s _ := (false, s)
  kvValue s _ := (.error [], s)
  kvRelease s _ := s
  historyNext s _ := (false, s)
  historyValue s _ := (.error [], s)
  historyRelease s _ := s
  getContractByName s name := (.ok ⟨name, text "v1"⟩, s)
  getTxRWMapByContractName _ _ := (.empty, .empty)
  getSenderAddress s := (.ok (text "sender"), s)
  callContract sim call := (⟨⟨0, [], [], call.gasUsed, []⟩, .normal, .success⟩, sim)

def Commuting.mapped (blockVersion : UInt32) : Commuting (TxSimContext.mapped blockVersion) where
  of s := s
  refusal _ _ _ := none
  put_err _ _ _ _ := rfl
  put_accepted _ _ _ _ _ _ _ := rfl
  put_refused _ _ _ _ h := absurd rfl h
  initial := fun _ _ => none
  initial_empty _ _ := rfl
  put_comm s c k v k' v' hne := by
    funext c₁ k₁
    by_cases h : k₁ = k
    · subst h
      simp [TxSimContext.mapped, MapStore.put, hne]
    · simp [TxSimContext.mapped, MapStore.put, h]
  read_comm _ _ _ _ _ _ _ := rfl

/-- A response with two writes, met in the order `o`. -/
def respondTwo (o : MapOrder) : CallAction :=
  .received (.sandbox { sampleSysCall .txResponse [] with
    response := some ⟨.ok, [], [],
      ⟨[(text "fact#k", text "v"), (text "fact#l", text "w")], by decide⟩, .empty, []⟩ } .listed o)

end VmEngine.Runtime
