/-
  The iterators of a transaction with cross-contract calls.

  A transaction runs one `Invoke` for its first contract and one for each call that a
  contract makes.  All of them share the simulation context, and so its iterator
  handles; each call runs on a new `RuntimeInstance`, with a row index of its own that
  starts at 0.  While a callee runs, its caller waits inside `CallContract`, which is
  outside the repository: the code bytes, the gas, the state of the connection and the
  outcome that it passes on are free.

  `issued` records the indices that were returned to contracts, with the iterator that
  the index stood for at that moment.  `iterators_denoted`: as long as all indices go to
  one instance, and to that at most 2³² of them, every index keeps its iterator.
-/
import VmEngine.Runtime.HandlerEffect
import Mathlib.Data.List.Nodup
import Mathlib.Algebra.Group.Nat.Defs

namespace VmEngine.Runtime

/-- A call of `Invoke` that waits for the contract it called. -/
structure Caller where
  id : ℕ
  invocation : Invocation
  inst : RuntimeInstance
  specialTxType : ExecOrderTxType
  call : CrossCall

/-- The calls of `Invoke` of a transaction, the running one first.  Instances are numbered
    in the order of their creation; `fresh` is the next number. -/
structure CallStack (σ κ η : Type) where
  id : ℕ
  invocation : Invocation
  loop : InvokeState σ κ η
  callers : List Caller
  fresh : ℕ

/-- `received`: a turn of the running loop that does not make a call.  `call`: a request
    that makes one.  `ret`: `CallContract` returns after the loop of the callee did. -/
inductive CallAction where
  | received (r : Received)
  | call (msg : DockerVMMessage) (byteCode uniqueTxKey : Bytes) (connected : Bool) (gasUsed : UInt64)
  | ret (out : CallOutcome)

variable {σ κ η : Type} (P : Protocol) (S : TxSimContext σ κ η)

/-- The message asks for a contract call that is made. -/
def makesCall (call : Invocation) (gasUsed : UInt64) (st : RuntimeState σ κ η) : Received → Bool
  | .sandbox msg _ _ => msg.type = .callContractRequest &&
      match startCallContract P S call.uniqueTxKey msg gasUsed call.contract st with
      | .ok (.calls ..) => true
      | _ => false
  | _ => false

namespace CallStack

/-- One step of a transaction, with the response sent to the sandbox. -/
def act (s : CallStack σ κ η) : CallAction → Option (CallStack σ κ η × Option DockerVMMessage)
  | .received r =>
    match s.loop with
    | .returned .. => none
    | .running gasUsed _ st =>
      if makesCall P S s.invocation gasUsed st r then none
      else ((s.loop.turn P S s.invocation r).bind (·.toOption)).map fun t =>
        ({ s with loop := t.1 }, t.2)
  | .call msg byteCode uniqueTxKey connected gas =>
    match s.loop with
    | .returned .. => none
    | .running gasUsed specialTxType st =>
      if msg.type = .callContractRequest then
        match startCallContract P S s.invocation.uniqueTxKey msg gasUsed s.invocation.contract st with
        | .ok (.calls call st') =>
          let callee : Invocation := ⟨call.contract, call.method, byteCode, uniqueTxKey⟩
          some ({ id := s.fresh
                  invocation := callee
                  loop := beforeLoop P S callee connected gas
                    ⟨newRuntimeInstance st'.inst.chainId, st'.sim⟩
                  callers := ⟨s.id, s.invocation, st'.inst, specialTxType, call⟩ :: s.callers
                  fresh := s.fresh + 1 }, none)
        | _ => none
      else none
  | .ret out =>
    match s.loop, s.callers with
    | .returned _ _ st, c :: cs =>
      let r := finishCallContract P S c.invocation.uniqueTxKey c.call out ⟨c.inst, st.sim⟩
      let t := r.1.goOn (if r.2 ≠ .normal then r.2 else c.specialTxType)
      some ({ s with id := c.id, invocation := c.invocation, loop := t.1, callers := cs }, t.2)
    | _, _ => none

/-- What the handles of the shared context hold. -/
def handle (s : CallStack σ κ η) (i : Int32) : Option (Handle κ η) := s.loop.state.sim.iterHandles i

/-- The instances on the stack with their row indices. -/
def rows (s : CallStack σ κ η) : List (ℕ × Int32) :=
  (s.id, s.loop.state.inst.rowIndex) :: s.callers.map fun c => (c.id, c.inst.rowIndex)

end CallStack

/-! ## The record of issued indices -/

/-- An index returned to the contract of an instance, and what it denoted then. -/
structure Issue (κ η : Type) where
  owner : ℕ
  index : Int32
  handle : Option (Handle κ η)
deriving DecidableEq, Repr

/-- The response carries an iterator index. -/
def carriesIndex : Option DockerVMMessage → Bool
  | some m => m.sysCallMessage.any SysCallMessage.carriesIndex
  | none => false

/-- The index that a step returned to the running contract. -/
def newIssues (s : CallStack σ κ η) (sent : Option DockerVMMessage) : List (Issue κ η) :=
  if carriesIndex sent then
    [⟨s.id, s.loop.state.inst.rowIndex, s.handle s.loop.state.inst.rowIndex⟩]
  else []

/-- A transaction with the indices issued so far. -/
structure Transaction (σ κ η : Type) where
  stack : CallStack σ κ η
  issued : List (Issue κ η)

namespace Transaction

def step (t : Transaction σ κ η) (a : CallAction) : Option (Transaction σ κ η) :=
  (t.stack.act P S a).map fun r => ⟨r.1, t.issued ++ newIssues r.1 r.2⟩

/-- A transaction before the loop of its first contract. -/
def start (call : Invocation) (connected : Bool) (gasUsed : UInt64) (chainId : Bytes) (s : σ) :
    Transaction σ κ η :=
  ⟨⟨0, call, beforeLoop P S call connected gasUsed ⟨newRuntimeInstance chainId, s, fun _ => none⟩,
    [], 1⟩, []⟩

/-- The step answers its request with an iterator index. -/
def issues (t : Transaction σ κ η) (a : CallAction) : Bool :=
  (t.stack.act P S a).any fun r => carriesIndex r.2

/-- **When an iterator may be created**: no other instance of the transaction has created one,
    and this one fewer than 2³². -/
def SoleCreator (t : Transaction σ κ η) (a : CallAction) : Prop :=
  t.issues P S a = true → (∀ i ∈ t.issued, i.owner = t.stack.id) ∧ t.issued.length < 2 ^ 32

instance : DecidableRel (SoleCreator P S : Transaction σ κ η → CallAction → Prop) := fun t a =>
  inferInstanceAs (Decidable
    (t.issues P S a = true → (∀ i ∈ t.issued, i.owner = t.stack.id) ∧ t.issued.length < 2 ^ 32))

/-- Every index issued still denotes the iterator it was issued for. -/
def Denotes (t : Transaction σ κ η) : Prop := ∀ i ∈ t.issued, t.stack.handle i.index = i.handle

/-- No index was issued twice. -/
def Distinct (t : Transaction σ κ η) : Prop := (t.issued.map Issue.index).Nodup

end Transaction

/-! ## What a step does -/

/-- A request about iterators. -/
def DockerVMType.aboutIterators : DockerVMType → Bool
  | .createKvIteratorRequest | .consumeKvIteratorRequest | .createKeyHistoryIterRequest
  | .consumeKeyHistoryIterRequest => true
  | _ => false

/-- The running contract uses an iterator. -/
def Received.iterates : Received → Bool
  | .sandbox m _ _ => m.type.aboutIterators
  | _ => false

variable {P S}

/-- A turn of the loop of a contract: a request is answered, the response ends the loop, nothing
    happens, or an error ends the loop. -/
inductive LoopTurn (P : Protocol) (S : TxSimContext σ κ η) (name : Bytes) (ty : ExecOrderTxType)
    (st : RuntimeState σ κ η) : Received → InvokeState σ κ η × Option DockerVMMessage → Prop
  | answers {m ordRead ordWrite reply ty'}
      (hty : ty' = if m.type.aboutIterators then .iterator else ty)
      (h : Effect P S name ordWrite m st reply) :
      LoopTurn P S name ty st (.sandbox m ordRead ordWrite) (reply.goOn ty')
  | responds {m ordRead ordWrite r} (htype : m.type = .txResponse)
      (h : Responded P S S.txId name ordWrite m ty st r) :
      LoopTurn P S name ty st (.sandbox m ordRead ordWrite) (.returned r.1.1 r.1.2 r.2, none)
  | stays {r g} (hr : r.iterates = false) : LoopTurn P S name ty st r (.running g ty st, none)
  | fails {r err g} (hr : r.iterates = false) : LoopTurn P S name ty st r (.fail err g st, none)

variable {s : CallStack σ κ η} {sent : Option DockerVMMessage} {ty : ExecOrderTxType}

theorem handleSandboxMsg_turn {call : Invocation} {ordRead ordWrite : MapOrder}
    {m : DockerVMMessage} {g : UInt64} {st : RuntimeState σ κ η}
    (hcall : makesCall P S call g st (.sandbox m ordRead ordWrite) = false) :
    (handleSandboxMsg P S call ordRead ordWrite m g ty st).Ensures
      (LoopTurn P S call.contract.name ty st (.sandbox m ordRead ordWrite)) := by
  have hr : (Received.sandbox m ordRead ordWrite).iterates = m.type.aboutIterators := rfl
  unfold handleSandboxMsg
  cases htype : m.type with
  | getStateRequest =>
    exact Go.Ensures.map fun r h => .answers (by rw [htype]; rfl) (handleGetStateRequest_effect r h)
  | getBatchStateRequest =>
    dsimp only
    split_ifs
    · exact Go.ensures_ok (.stays (by rw [hr, htype]; rfl))
    · exact Go.Ensures.map fun r h =>
        .answers (by rw [htype]; rfl) (handleGetBatchStateRequest_effect r h)
  | txResponse => exact Go.Ensures.map fun r h => .responds htype (handleTxResponse_responded htype r h)
  | callContractRequest =>
    refine Go.Ensures.map fun r h => ?_
    obtain ⟨start, hstart, h⟩ := Go.bind_eq_ok.1 h
    cases start with
    | answered reply =>
      cases h
      exact .answers (by rw [htype]; rfl) (startCallContract_effect _ hstart)
    | calls call' st' =>
      simp only [makesCall, htype, hstart, decide_true, Bool.true_and] at hcall
      cases hcall
  | createKvIteratorRequest =>
    exact Go.Ensures.map fun r h =>
      .answers (by rw [htype]; rfl) (handleCreateKvIterator_effect htype r h)
  | consumeKvIteratorRequest =>
    exact Go.Ensures.map fun r h =>
      .answers (by rw [htype]; rfl) (handleConsumeKvIterator_effect r h)
  | createKeyHistoryIterRequest =>
    exact Go.Ensures.map fun r h =>
      .answers (by rw [htype]; rfl) (handleCreateKeyHistoryIterator_effect htype r h)
  | consumeKeyHistoryIterRequest =>
    exact Go.Ensures.map fun r h =>
      .answers (by rw [htype]; rfl) (handleConsumeKeyHistoryIterator_effect r h)
  | getSenderAddressRequest =>
    exact Go.Ensures.map fun r h => .answers (by rw [htype]; rfl) (handleGetSenderAddress_effect r h)
  | _ => exact Go.ensures_ok (.fails (by rw [hr, htype]; rfl))

theorem handleEngineMsg_turn {m : DockerVMMessage} {name : Bytes} {g : UInt64}
    {st : RuntimeState σ κ η} :
    (handleEngineMsg m g ty st).Ensures (LoopTurn P S name ty st (.engine m)) := by
  unfold handleEngineMsg
  repeat' split
  all_goals first
    | exact Go.ensures_error _
    | exact Go.ensures_ok (.stays rfl)
    | exact Go.ensures_ok (.fails rfl)

/-- A step of a transaction: a turn of the running loop, a call of another contract, or the return
    from one. -/
inductive ActStep (P : Protocol) (S : TxSimContext σ κ η) (s : CallStack σ κ η) :
    CallAction → CallStack σ κ η → Option DockerVMMessage → Prop
  | turn {r g ty st t} (hloop : s.loop = .running g ty st)
      (h : LoopTurn P S s.invocation.contract.name ty st r t) :
      ActStep P S s (.received r) { s with loop := t.1 } t.2
  | call {msg byteCode key connected gas g ty callee call store} (st : RuntimeState σ κ η)
      (hloop : s.loop = .running g ty st) (hread : Reads S st.sim.store store) :
      ActStep P S s (.call msg byteCode key connected gas)
        ⟨s.fresh, callee, beforeLoop P S callee connected gas
            ⟨newRuntimeInstance st.inst.chainId, (st.withStore store).sim⟩,
          ⟨s.id, s.invocation, st.inst, ty, call⟩ :: s.callers, s.fresh + 1⟩ none
  | ret {out result ty st c cs reply ty'} (hloop : s.loop = .returned result ty st)
      (hcallers : s.callers = c :: cs)
      (hty : ty' = if out.txType ≠ .normal then out.txType else c.specialTxType)
      (h : Finished S out ⟨c.inst, st.sim⟩ reply) :
      ActStep P S s (.ret out) ⟨c.id, c.invocation, (reply.goOn ty').1, cs, s.fresh⟩
        (reply.goOn ty').2

theorem act_step {s' : CallStack σ κ η} {a : CallAction} (h : s.act P S a = some (s', sent)) :
    ActStep P S s a s' sent := by
  obtain ⟨id, inv, loop, callers, fresh⟩ := s
  cases a with
  | received r =>
    rcases loop with ⟨g, ty, st⟩ | _
    · simp only [CallStack.act] at h
      split_ifs at h with hcall
      obtain ⟨t, ht, heq⟩ := Option.map_eq_some_iff.1 h
      cases heq
      simp only [InvokeState.turn, Option.bind_some] at ht
      have hok := Go.toOption_eq_some.1 ht
      refine .turn rfl ?_
      cases r with
      | sandbox m ordRead ordWrite => exact handleSandboxMsg_turn (Bool.eq_false_iff.2 hcall) t hok
      | engine m => exact handleEngineMsg_turn t hok
      | timeout => cases hok; exact .fails rfl
    · cases h
  | call msg byteCode key connected gas =>
    rcases loop with ⟨g, ty, st⟩ | _
    · simp only [CallStack.act] at h
      split_ifs at h
      split at h
      · rename_i call st' hstart
        have heffect : CallStart.Effect P S inv.contract.name .listed msg st (.calls call st') :=
          startCallContract_effect _ hstart
        obtain ⟨store, hread, rfl⟩ := heffect
        cases h
        exact .call st rfl hread
      · cases h
    · cases h
  | ret out =>
    rcases loop with _ | ⟨res, ty, st⟩
    · cases h
    · rcases callers with _ | ⟨c, cs⟩
      · cases h
      · cases h
        obtain ⟨hfin, hty⟩ := finishCallContract_finished (P := P) (S := S)
          c.invocation.uniqueTxKey c.call out ⟨c.inst, st.sim⟩
        rw [hty]
        exact .ret rfl rfl rfl hfin

/-! ## What a step does to instances and handles -/

theorem beforeLoop_state (call : Invocation) (connected : Bool) (gasUsed : UInt64)
    (st : RuntimeState σ κ η) : (beforeLoop P S call connected gasUsed st).state = st := by
  unfold beforeLoop
  repeat' split
  all_goals rfl

/-- A step adds an iterator of the running instance, starts an instance, goes back to a caller,
    or leaves instances and handles as they are. -/
inductive StackStep (s s' : CallStack σ κ η) (sent : Option DockerVMMessage) : Prop
  | same (hm : carriesIndex sent = false) (hh : s'.handle = s.handle) (hf : s'.fresh = s.fresh)
      (hr : s'.rows = s.rows)
  | added (h : Handle κ η) (hm : carriesIndex sent = true)
      (hh : s'.handle = fun j => if j = s.loop.state.inst.rowIndex + 1 then some h else s.handle j)
      (hf : s'.fresh = s.fresh)
      (hr : s'.rows = (s.id, s.loop.state.inst.rowIndex + 1) :: s.rows.tail)
  | pushed (hm : carriesIndex sent = false) (hh : s'.handle = s.handle) (hf : s'.fresh = s.fresh + 1)
      (hr : s'.rows = (s.fresh, 0) :: s.rows)
  | popped (hm : carriesIndex sent = false) (hh : s'.handle = s.handle) (hf : s'.fresh = s.fresh)
      (hr : s'.rows = s.rows.tail)

theorem StackStep.same_of_iters {loop : InvokeState σ κ η} (hm : carriesIndex sent = false)
    (hs : SameIters s.loop.state loop.state) : StackStep s { s with loop := loop } sent := by
  refine .same hm ?_ rfl ?_
  · funext i
    exact congrFun hs.handles i
  · simp only [CallStack.rows, hs.rowIndex]

theorem LoopTurn.stackStep {name : Bytes} {r : Received}
    {t : InvokeState σ κ η × Option DockerVMMessage} (h : LoopTurn P S name ty s.loop.state r t) :
    StackStep s { s with loop := t.1 } t.2 := by
  cases h with
  | @answers m _ _ reply _ _ h =>
    cases h.iters with
    | same hm hs => exact .same_of_iters hm hs
    | added x hm hrow hs =>
      refine .added x ?_ ?_ rfl ?_
      · show reply.message.carriesIndex = true
        rw [SysCallMessage.carriesIndex, hm]
        rfl
      · funext i
        exact congrFun hs i
      · simp only [CallStack.rows, Reply.goOn, InvokeState.state, hrow, List.tail_cons]
  | responds _ h => cases h <;> exact .same_of_iters rfl ‹_›
  | stays | fails => exact .same_of_iters rfl (.refl _)

theorem act_stackStep {s' : CallStack σ κ η} {a : CallAction} (h : s.act P S a = some (s', sent)) :
    StackStep s s' sent := by
  cases act_step h with
  | @turn r _ ty st t hloop hturn =>
    have hst : s.loop.state = st := congrArg InvokeState.state hloop
    exact LoopTurn.stackStep (hst ▸ hturn)
  | call st hloop hread =>
    refine .pushed rfl ?_ rfl ?_
    · funext i
      simp only [CallStack.handle, beforeLoop_state, hloop]
      rfl
    · simp only [CallStack.rows, beforeLoop_state, List.map_cons, hloop]
      rfl
  | ret hloop hcallers hty hfin =>
    refine .popped hfin.message ?_ rfl ?_
    · funext i
      simp only [CallStack.handle, hloop]
      exact congrArg (fun sim => sim.iterHandles i) hfin.sim
    · simp only [CallStack.rows, hcallers, List.map_cons, List.tail_cons, List.cons.injEq, and_true]
      exact Prod.ext rfl hfin.rowIndex

/-! ## Counting the indices of an instance -/

namespace Transaction

/-- How many indices an instance has issued. -/
def count (t : Transaction σ κ η) (id : ℕ) : ℕ := t.issued.countP fun i => i.owner = id

/-- The row index of every instance counts its indices, and the indices of the one creator are
    numbered in order. -/
structure IterInv (t : Transaction σ κ η) : Prop where
  rows : ∀ r ∈ t.stack.rows, r.2 = Int32.ofNat (t.count r.1)
  nodup : (t.stack.rows.map Prod.fst).Nodup
  ids : ∀ r ∈ t.stack.rows, r.1 < t.stack.fresh
  owners : ∀ i ∈ t.issued, i.owner < t.stack.fresh
  sole : ∀ i ∈ t.issued, ∀ j ∈ t.issued, i.owner = j.owner
  room : t.issued.length ≤ 2 ^ 32
  index : t.issued.map Issue.index = (List.range t.issued.length).map fun k => Int32.ofNat (k + 1)
  denotes : t.Denotes

theorem iterInv_start (call : Invocation) (connected : Bool) (gasUsed : UInt64) (chainId : Bytes)
    (s : σ) : (start P S call connected gasUsed chainId s).IterInv := by
  have hrows : (start P S call connected gasUsed chainId s).stack.rows = [(0, 0)] := by
    simp only [start, CallStack.rows, beforeLoop_state, List.map_nil]
    rfl
  refine ⟨?_, ?_, ?_, ?_, ?_, Nat.zero_le _, rfl, ?_⟩
  · rw [hrows]
    intro r hr
    rw [List.mem_singleton.1 hr]
    rfl
  · rw [hrows]
    simp
  · rw [hrows]
    intro r hr
    rw [List.mem_singleton.1 hr]
    exact Nat.one_pos
  · exact fun i hi => absurd hi List.not_mem_nil
  · exact fun i hi => absurd hi List.not_mem_nil
  · exact fun i hi => absurd hi List.not_mem_nil

theorem ofNat_add_one_inj {m n : ℕ} (hm : m < 2 ^ 32) (hn : n < 2 ^ 32)
    (h : Int32.ofNat (m + 1) = Int32.ofNat (n + 1)) : m = n := by
  have h' := congrArg (fun i => i.toBitVec.toNat) h
  simp only [Int32.toBitVec_ofNat', BitVec.toNat_ofNat] at h'
  omega

variable {a : CallAction} {t t' : Transaction σ κ η}

/-- All indices belong to one instance, which has issued as many as there are. -/
theorem count_of_sole {id : ℕ} (h : ∀ i ∈ t.issued, i.owner = id) : t.count id = t.issued.length :=
  List.countP_eq_length.2 fun i hi => decide_eq_true (h i hi)

theorem count_eq_zero {id : ℕ} (h : ∀ i ∈ t.issued, i.owner ≠ id) : t.count id = 0 :=
  List.countP_eq_zero.2 fun i hi => by simpa using h i hi

/-- A step that issues nothing: instances stay, go or start at 0. -/
theorem IterInv.keep (h : t.IterInv) {s' : CallStack σ κ η} (hh : s'.handle = t.stack.handle)
    (hf : t.stack.fresh ≤ s'.fresh)
    (hrows : ∀ r ∈ s'.rows, r ∈ t.stack.rows ∨ r = (t.stack.fresh, 0))
    (hids : ∀ r ∈ s'.rows, r.1 < s'.fresh) (hnodup : (s'.rows.map Prod.fst).Nodup) :
    (⟨s', t.issued⟩ : Transaction σ κ η).IterInv where
  rows r hr := by
    rcases hrows r hr with hr | rfl
    · exact h.rows r hr
    · have : t.count t.stack.fresh = 0 := count_eq_zero fun i hi => Nat.ne_of_lt (h.owners i hi)
      exact (congrArg Int32.ofNat this).symm
  nodup := hnodup
  ids := hids
  owners i hi := Nat.lt_of_lt_of_le (h.owners i hi) hf
  sole := h.sole
  room := h.room
  index := h.index
  denotes i hi := (congrFun hh i.index).trans (h.denotes i hi)

/-- The new index is not among the numbers of the earlier ones. -/
theorem IterInv.index_ne (h : t.IterInv) (hlt : t.issued.length < 2 ^ 32) {i : Issue κ η}
    (hi : i ∈ t.issued) : i.index ≠ Int32.ofNat (t.issued.length + 1) := by
  intro heq
  have hmem : i.index ∈ t.issued.map Issue.index := List.mem_map_of_mem hi
  rw [h.index] at hmem
  obtain ⟨k, hk, hki⟩ := List.mem_map.1 hmem
  have hk := List.mem_range.1 hk
  have := ofNat_add_one_inj (by omega) hlt (hki.trans heq)
  omega

/-- The running instance issues an index while it is the only creator. -/
theorem IterInv.add (h : t.IterInv) {s' : CallStack σ κ η} {x : Handle κ η}
    (hsole : ∀ i ∈ t.issued, i.owner = t.stack.id) (hlt : t.issued.length < 2 ^ 32)
    (hh : s'.handle = fun j =>
      if j = t.stack.loop.state.inst.rowIndex + 1 then some x else t.stack.handle j)
    (hf : s'.fresh = t.stack.fresh)
    (hr : s'.rows = (t.stack.id, t.stack.loop.state.inst.rowIndex + 1) :: t.stack.rows.tail) :
    (⟨s', t.issued ++ [⟨s'.id, s'.loop.state.inst.rowIndex,
      s'.handle s'.loop.state.inst.rowIndex⟩]⟩ : Transaction σ κ η).IterInv := by
  have hid : s'.id = t.stack.id := congrArg Prod.fst (List.cons.inj hr).1
  have htop : t.stack.id < t.stack.fresh :=
    h.ids (t.stack.id, t.stack.loop.state.inst.rowIndex) List.mem_cons_self
  have hrow : t.stack.loop.state.inst.rowIndex + 1 = Int32.ofNat (t.issued.length + 1) := by
    have := h.rows (t.stack.id, t.stack.loop.state.inst.rowIndex) List.mem_cons_self
    rw [count_of_sole hsole] at this
    rw [Int32.ofNat_add, ← this]
    rfl
  have hrow' : s'.loop.state.inst.rowIndex = Int32.ofNat (t.issued.length + 1) :=
    (congrArg Prod.snd (List.cons.inj hr).1).trans hrow
  have hfst : s'.rows.map Prod.fst = t.stack.rows.map Prod.fst := by
    rw [hr]
    rfl
  rw [hid, hrow']
  rw [hrow] at hh hr
  refine ⟨fun r hmem => ?_, hfst ▸ h.nodup, fun r hmem => ?_, fun i hi => ?_, fun i hi j hj => ?_,
    ?_, ?_, fun i hi => ?_⟩
  · simp only [count, List.countP_append]
    rw [hr] at hmem
    rcases List.mem_cons.1 hmem with rfl | hmem
    · have := count_of_sole hsole
      unfold count at this
      rw [this]
      simp
    · -- another instance of the stack: it has another number
      have hne : t.stack.id ≠ r.1 := by
        intro heq
        have hmem' : r.1 ∈ t.stack.rows.tail.map Prod.fst := List.mem_map_of_mem hmem
        exact (List.nodup_cons.1 h.nodup).1 (heq ▸ hmem')
      rw [h.rows r (List.mem_of_mem_tail hmem)]
      simp [count, hne]
  · rw [hf]
    rw [hr] at hmem
    rcases List.mem_cons.1 hmem with rfl | hmem
    · exact htop
    · exact h.ids r (List.mem_of_mem_tail hmem)
  · rw [hf]
    rcases List.mem_append.1 hi with hi | hi
    · exact h.owners i hi
    · rw [List.mem_singleton.1 hi]
      exact htop
  · have hown : ∀ i ∈ t.issued ++ [⟨t.stack.id, Int32.ofNat (t.issued.length + 1),
        s'.handle (Int32.ofNat (t.issued.length + 1))⟩], i.owner = t.stack.id := by
      intro i hi
      rcases List.mem_append.1 hi with hi | hi
      · exact hsole i hi
      · rw [List.mem_singleton.1 hi]
    rw [hown i hi, hown j hj]
  · simp only [List.length_append, List.length_singleton]
    omega
  · simp only [List.map_append, h.index, List.length_append, List.length_singleton,
      List.range_succ, List.map_cons, List.map_nil]
  · rcases List.mem_append.1 hi with hi | hi
    · rw [← h.denotes i hi, hh]
      exact if_neg (h.index_ne hlt hi)
    · rw [List.mem_singleton.1 hi]

theorem step_eq_some (h : t.step P S a = some t') :
    ∃ sent, t.stack.act P S a = some (t'.stack, sent) ∧
      t'.issued = t.issued ++ newIssues t'.stack sent ∧ t.issues P S a = carriesIndex sent := by
  obtain ⟨⟨s', sent⟩, hact, rfl⟩ := Option.map_eq_some_iff.1 h
  exact ⟨sent, hact, rfl, by simp only [issues, hact, Option.any_some]⟩

theorem IterInv.step (h : t.IterInv) (hok : SoleCreator P S t a) (hstep : t.step P S a = some t') :
    t'.IterInv := by
  obtain ⟨sent, hact, hissued, hiss⟩ := step_eq_some hstep
  obtain ⟨s', issued'⟩ := t'
  dsimp only at hact hissued
  subst hissued
  unfold newIssues
  cases act_stackStep hact with
  | same hm hh hf hr =>
    simp only [hm, Bool.false_eq_true, if_false, List.append_nil]
    refine h.keep hh (Nat.le_of_eq hf.symm) (fun r hmem => .inl (hr ▸ hmem)) (fun r hmem => ?_)
      (hr ▸ h.nodup)
    rw [hf]
    exact h.ids r (hr ▸ hmem)
  | added x hm hh hf hr =>
    obtain ⟨hsole, hlt⟩ := hok (hiss.trans hm)
    rw [if_pos hm]
    exact h.add hsole hlt hh hf hr
  | pushed hm hh hf hr =>
    simp only [hm, Bool.false_eq_true, if_false, List.append_nil]
    refine h.keep hh (by omega) (fun r hmem => ?_) (fun r hmem => ?_) ?_
    · rw [hr] at hmem
      exact (List.mem_cons.1 hmem).symm
    · rw [hr] at hmem
      rw [hf]
      rcases List.mem_cons.1 hmem with rfl | hmem
      · exact Nat.lt_succ_self _
      · exact Nat.lt_succ_of_lt (h.ids r hmem)
    · rw [hr, List.map_cons, List.nodup_cons]
      refine ⟨fun hmem => ?_, h.nodup⟩
      obtain ⟨r, hmem, heq⟩ := List.mem_map.1 hmem
      exact Nat.ne_of_lt (h.ids r hmem) heq
  | popped hm hh hf hr =>
    simp only [hm, Bool.false_eq_true, if_false, List.append_nil]
    have hsub : s'.rows.Sublist t.stack.rows := hr ▸ List.tail_sublist _
    refine h.keep hh (Nat.le_of_eq hf.symm) (fun r hmem => .inl (hsub.subset hmem)) (fun r hmem => ?_)
      ((hsub.map _).nodup h.nodup)
    rw [hf]
    exact h.ids r (hsub.subset hmem)

/-! ## Indices that keep their iterator -/

theorem IterInv.distinct (h : t.IterInv) : t.Distinct := by
  unfold Distinct
  rw [h.index]
  refine List.Nodup.map_on (fun m hm n hn heq => ?_) List.nodup_range
  have hroom := h.room
  have hm := List.mem_range.1 hm
  have hn := List.mem_range.1 hn
  exact ofNat_add_one_inj (by omega) (by omega) heq

/-- The first index is 1. -/
theorem IterInv.one_mem (h : t.IterInv) (hne : t.issued ≠ []) :
    Int32.ofNat 1 ∈ t.issued.map Issue.index := by
  rw [h.index]
  exact List.mem_map.2 ⟨0, List.mem_range.2 (List.length_pos_iff.2 hne), rfl⟩

/-- A second creator, or one index too many, gets the index 1 again. -/
theorem IterInv.next_index (h : t.IterInv)
    (hnot : ¬ ((∀ i ∈ t.issued, i.owner = t.stack.id) ∧ t.issued.length < 2 ^ 32)) :
    t.issued ≠ [] ∧ t.stack.loop.state.inst.rowIndex + 1 = Int32.ofNat 1 := by
  have hrow := h.rows (t.stack.id, t.stack.loop.state.inst.rowIndex) List.mem_cons_self
  dsimp only at hrow
  rw [hrow]
  by_cases hall : ∀ i ∈ t.issued, i.owner = t.stack.id
  · have hlen : t.issued.length = 2 ^ 32 := by
      have := h.room
      by_contra hne
      exact hnot ⟨hall, by omega⟩
    rw [count_of_sole hall, hlen]
    refine ⟨fun hnil => ?_, by decide⟩
    rw [hnil] at hlen
    cases hlen
  · simp only [not_forall] at hall
    obtain ⟨i, hi, hne⟩ := hall
    have hzero : t.count t.stack.id = 0 :=
      count_eq_zero fun j hj => by rw [h.sole j hj i hi]; exact hne
    rw [hzero]
    exact ⟨List.ne_nil_of_mem hi, rfl⟩

theorem IterInv.not_distinct (h : t.IterInv) (hstep : t.step P S a = some t')
    (hok : ¬ SoleCreator P S t a) : ¬ t'.Distinct := by
  obtain ⟨sent, hact, hissued, hiss⟩ := step_eq_some hstep
  obtain ⟨hissue, hnot⟩ := Classical.not_imp.1 hok
  obtain ⟨hne, hrow⟩ := h.next_index hnot
  have hcarry : carriesIndex sent = true := hiss.symm.trans hissue
  unfold Distinct
  rw [hissued, newIssues, if_pos hcarry, List.map_append]
  cases act_stackStep hact with
  | same hm | pushed hm | popped hm => rw [hm] at hcarry; cases hcarry
  | added x hm hh hf hr =>
    have hrow' : t'.stack.loop.state.inst.rowIndex = Int32.ofNat 1 :=
      (congrArg Prod.snd (List.cons.inj hr).1).trans hrow
    rw [hrow']
    intro hnodup
    exact List.disjoint_of_nodup_append hnodup (h.one_mem hne) List.mem_cons_self

end Transaction

open Transaction

/-- **Iterator indices keep their iterators** as long as only one instance of the transaction
    creates iterators, and at most 2³² of them; the condition is exact: the first step that does
    not meet it issues an index a second time. -/
theorem iterators_denoted (P : Protocol) (S : TxSimContext σ κ η) (call : Invocation)
    (connected : Bool) (gasUsed : UInt64) (chainId : Bytes) (s : σ) {t : Transaction σ κ η}
    (h : Reach (step P S) (SoleCreator P S) (start P S call connected gasUsed chainId s) t) :
    t.Denotes ∧ ∀ a t', t.step P S a = some t' → (t'.Distinct ↔ SoleCreator P S t a) := by
  have hinv : t.IterInv :=
    h.inv (I := IterInv) (iterInv_start ..) fun hinv hok hstep => hinv.step hok hstep
  refine ⟨hinv.denotes, fun a t' hstep => ⟨fun hd => ?_, fun hok => (hinv.step hok hstep).distinct⟩⟩
  by_contra hok
  exact hinv.not_distinct hstep hok hd

/-- A request for an iterator, and a request to call another contract, for concrete runs. -/
def createIter : CallAction :=
  .received (.sandbox (sampleSysCall .createKvIteratorRequest
    [(.iteratorFuncName, funcKvIteratorCreate), (.writeMap, text "x"), (.iterStartKey, text "a"),
      (.iterLimitKey, text "b")]) .listed .listed)

def callOther : CallAction :=
  .call (sampleSysCall .callContractRequest [(.callContractReq, text "other")]) [] (text "tx1#2") true 0

/-- The callee answers, and its caller gets a result. -/
def answerCall : List CallAction :=
  [.received (.sandbox { sampleSysCall .txResponse [] with
      response := some ⟨.ok, [], [], .empty, .empty, []⟩ } .listed .listed),
    .ret ⟨⟨0, [], [], 0, []⟩, .normal, .success⟩]

def sampleTransaction : Transaction SampleStore ℕ ℕ :=
  start .sample (.sample version2312) .sample true 0 (text "chain1") .empty

/-- Two iterators of the caller around a call that creates none. -/
theorem iterators_denoted_two :
    ∃ t, Reach (step .sample (.sample version2312)) (SoleCreator .sample (.sample version2312))
      sampleTransaction t ∧ t.issued.map Issue.index = [1, 2] ∧ t.Denotes := by
  obtain ⟨t, ht, hp⟩ := exists_reach (step .sample (.sample version2312))
    (SoleCreator .sample (.sample version2312)) sampleTransaction
    (fun t => decide (t.issued.map Issue.index = [1, 2]))
    ([createIter, callOther] ++ answerCall ++ [createIter]) (by decide)
  exact ⟨t, ht, of_decide_eq_true hp, (iterators_denoted _ _ _ _ _ _ _ ht).1⟩

/-- The caller creates an iterator, the contract it calls creates another: both have the index 1,
    and the caller's index now stands for the iterator of the callee. -/
theorem iterator_replaced :
    ∃ t, Reach (step .sample (.sample version2312)) Free sampleTransaction t ∧
      t.issued = [⟨0, 1, some (.kv 0)⟩, ⟨1, 1, some (.kv 1)⟩] ∧ ¬ t.Denotes := by
  obtain ⟨t, ht, hp⟩ := exists_reach (step .sample (.sample version2312)) Free sampleTransaction
    (fun t => decide (t.issued = [⟨0, 1, some (.kv 0)⟩, ⟨1, 1, some (.kv 1)⟩] ∧
      t.stack.handle 1 = some (.kv 1)))
    ([createIter, callOther, createIter] ++ answerCall) (by decide)
  obtain ⟨hissued, hhandle⟩ := of_decide_eq_true hp
  refine ⟨t, ht, hissued, fun hden => ?_⟩
  have h0 := hden ⟨0, 1, some (.kv 0)⟩ (by rw [hissued]; exact List.mem_cons_self)
  rw [hhandle] at h0
  cases h0

end VmEngine.Runtime
