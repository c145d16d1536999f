/-
  How the chain node hands messages to the calls of `Invoke` (`runtime.go`): the receive
  routines of the sandbox streams (`rpc/runtime_service.go`) and of the engine's clients
  (`rpc/contract_engine_client.go`), the two maps of notifiers, the two channels of a call,
  the answers that go back to the sandboxes, and the two channels of the client manager.

  A call registers a notifier for each side under its unique key, waits in its loop, and
  deletes both when it returns.  A receive routine looks the notifier up and then blocks
  in it until the channel of the call has room: look-up and delivery are different steps,
  so a call may return in between.  The notifier for sandboxes first stores where the
  answers go, `sendSysResponse`, and then puts the message.

  A call also puts into the channels of the client manager, from which the send routines of
  all clients take: its request into `txSendCh`, and bytecode into `byteCodeRespCh`.

  A message is known by what routes it, its chain, transaction and type; what the handlers
  compute is the subject of `Invoke`, and a handler here is one step.  Each call has a
  runtime instance of its own.
-/
import VmEngine.Runtime.Messages
import VmEngine.Runtime.RequestPool
import VmEngine.Lib.Joined

namespace VmEngine

/-- `utils.ConstructNotifyMapKey`. -/
def constructNotifyMapKey (chainId txId : String) : String := String.intercalate "#" [chainId, txId]

namespace ChainNode

/-- Where a message comes from: a client of the contract engine or a sandbox. -/
inductive Side where
  | engine
  | sandbox
deriving DecidableEq, Repr

structure Msg where
  chainId : String
  txId : String
  type : Runtime.DockerVMType
deriving DecidableEq, Repr

def Msg.key (msg : Msg) : String := constructNotifyMapKey msg.chainId msg.txId

/-- A message for a call, with the stream it came from. -/
structure Delivery where
  call : ℕ
  stream : ℕ
  msg : Msg
deriving DecidableEq, Repr

/-- Whether the sandbox waits for an answer. -/
def Delivery.isRequest (d : Delivery) : Bool := d.msg.type != .txResponse

/-- The receive routine of a stream: it receives, it has called a notifier, or it puts the
    message into the channel of a call. -/
inductive Receiver where
  | receiving
  | notifying (d : Delivery)
  | putting (d : Delivery)
  | stopped
deriving DecidableEq, Repr

/-- What the routine delivers. -/
def Receiver.holds : Receiver → List Delivery
  | .notifying d | .putting d => [d]
  | .receiving | .stopped => []

/-- The send routine of a sandbox stream, and its channel with the request that the waiting
    response answers. -/
structure Sender where
  running : Bool
  sendResponseCh : Option Delivery
deriving DecidableEq, Repr

/-- `txSendCh` and `byteCodeRespCh`, the channels of the client manager. -/
inductive SendCh where
  | tx
  | byteCodeResp
deriving DecidableEq, Repr

def SendCh.cap : SendCh → ℕ
  | .tx => 50000
  | .byteCodeResp => 8

/-- How far a call of `Invoke` has come.  `byteCode`: it puts the bytecode that the engine asked
    for.  `responding`: it has read `sendSysResponse` and puts its answer into the channel of the
    stream. -/
inductive Phase where
  | started
  | sandboxRegistered
  | registered
  | looping
  | byteCode
  | answering (d : Delivery)
  | responding (d : Delivery) (stream : ℕ)
  | returned
  | sandboxDeleted
  | ended
deriving DecidableEq, Repr

namespace Phase

/-- The request that is answered. -/
def answer : Phase → Option Delivery
  | .answering d | .responding d _ => some d
  | _ => none

/-- `Invoke` ends before it registers: no connection, or not enough gas. -/
def refuse : Phase → Option Phase
  | .started => some .ended
  | _ => none

/-- `RegisterSandboxMsgNotify`, and then `registerNotify`. -/
def registerNotify : Side → Phase → Option Phase
  | .sandbox, .started => some .sandboxRegistered
  | .engine, .sandboxRegistered => some .registered
  | _, _ => none

/-- The end of `PutTxRequestWithNotify`, after which the loop begins, and `PutByteCodeResp`. -/
def enqueue : SendCh → Phase → Option Phase
  | .tx, .registered => some .looping
  | .byteCodeResp, .byteCode => some .looping
  | _, _ => none

/-- The channel that the call puts into next. -/
def sendCh : Phase → Option SendCh
  | .sandboxRegistered | .registered => some .tx
  | .byteCode => some .byteCodeResp
  | _ => none

def timeout : Phase → Option Phase
  | .looping => some .returned
  | _ => none

/-- The deferred `DeleteSandboxMsgNotify`, and then `DeleteNotify`. -/
def deleteNotify : Side → Phase → Option Phase
  | .sandbox, .returned => some .sandboxDeleted
  | .engine, .sandboxDeleted => some .ended
  | _, _ => none

/-- Whether the notifier for a side is registered. -/
def isRegistered : Side → Phase → Bool
  | .sandbox, .sandboxRegistered | .sandbox, .registered | .sandbox, .looping
  | .sandbox, .byteCode | .sandbox, .answering _ | .sandbox, .responding _ _
  | .sandbox, .returned => true
  | .engine, .registered | .engine, .looping | .engine, .byteCode | .engine, .answering _
  | .engine, .responding _ _ | .engine, .returned | .engine, .sandboxDeleted => true
  | _, _ => false

/-- Whether the call has left its loop. -/
def hasLeft : Phase → Bool
  | .returned | .sandboxDeleted | .ended => true
  | _ => false

/-- A move that touches no notifier and no answer. -/
structure Quiet (p p' : Phase) : Prop where
  registered : ∀ side, p'.isRegistered side = p.isRegistered side
  left : p.hasLeft = true → p'.hasLeft = true
  before : p.answer = none
  after : p'.answer = none
  begun : p' ≠ .started

theorem quiet_leave {p p' : Phase} (h : p.refuse = some p' ∨ p.timeout = some p') :
    Quiet p p' ∧ p.sendCh = none := by
  rcases h with h | h <;> cases p <;> cases h <;>
    exact ⟨⟨fun side => by cases side <;> rfl, fun _ => rfl, rfl, rfl, by simp⟩, rfl⟩

theorem quiet_enqueue {ch : SendCh} {p p' : Phase} (h : p.enqueue ch = some p') :
    Quiet p p' ∧ p.sendCh = some ch := by
  cases ch <;> cases p <;> cases h <;>
    exact ⟨⟨fun side => by cases side <;> rfl, (fun h => by cases h), rfl, rfl, by simp⟩, rfl⟩

end Phase

/-- `msgCh` is `contractEngineMsgCh` and `sandboxMsgCh`, of capacity one; `hasBatchState` says
    that the block version allows batches; `sendSysResponse` is the stream for answers. -/
structure Call where
  chainId : String
  uniqueTxKey : String
  hasBatchState : Bool
  phase : Phase
  msgCh : Side → Option Delivery
  sendSysResponse : Option ℕ

def Call.key (c : Call) : String := constructNotifyMapKey c.chainId c.uniqueTxKey

/-- What the loop does after a message. -/
inductive Outcome where
  | goOn
  | byteCode
  | answer
  | leave
deriving DecidableEq, Repr

/-- The `switch recvMsg.Type` of the loop. -/
def Call.outcome (c : Call) : Side → Runtime.DockerVMType → Outcome
  | .engine, .getBytecodeRequest => .byteCode
  | .engine, _ => .leave
  | .sandbox, .getBatchStateRequest => if c.hasBatchState then .answer else .goOn
  | .sandbox, .getStateRequest | .sandbox, .callContractRequest
  | .sandbox, .createKvIteratorRequest | .sandbox, .consumeKvIteratorRequest
  | .sandbox, .createKeyHistoryIterRequest | .sandbox, .consumeKeyHistoryIterRequest
  | .sandbox, .getSenderAddressRequest => .answer
  | .sandbox, _ => .leave

/-- The types that the receive routines look up: `recvRoutine` and `receiveMsgRoutine`. -/
def isRouted : Side → Runtime.DockerVMType → Bool
  | .sandbox, .txResponse | .sandbox, .callContractRequest | .sandbox, .getStateRequest
  | .sandbox, .getBatchStateRequest | .sandbox, .createKvIteratorRequest
  | .sandbox, .consumeKvIteratorRequest | .sandbox, .createKeyHistoryIterRequest
  | .sandbox, .consumeKeyHistoryIterRequest | .sandbox, .getSenderAddressRequest => true
  | .engine, .txResponse | .engine, .getBytecodeRequest | .engine, .error => true
  | _, _ => false

end ChainNode

open ChainNode in
/-- `notify` is the `notify` of the client manager and the `sandboxMsgNotify` of the runtime
    service: the calls that are registered.  `senders` are those of the sandbox streams.
    `clients` says of each client whether its send routine runs, `sendLen` how many messages
    wait for them. -/
structure ChainNode where
  count : UInt64
  calls : List Call
  notify : Side → String → Option ℕ
  receivers : Side → List Receiver
  senders : List ChainNode.Sender
  clients : List Bool
  sendLen : SendCh → ℕ

namespace ChainNode

def init : ChainNode := ⟨0, [], fun _ _ => none, fun _ => [], [], [], fun _ => 0⟩

def setCall (f : ChainNode) (i : ℕ) (c : Call) : ChainNode := { f with calls := f.calls.set i c }

def setNotify (f : ChainNode) (side : Side) (key : String) (call : Option ℕ) : ChainNode :=
  { f with notify := Function.update f.notify side (Function.update (f.notify side) key call) }

def setReceiver (f : ChainNode) (side : Side) (s : ℕ) (r : Receiver) : ChainNode :=
  { f with receivers := Function.update f.receivers side ((f.receivers side).set s r) }

def setSender (f : ChainNode) (s : ℕ) (q : Sender) : ChainNode := { f with senders := f.senders.set s q }

/-- `invoke`: a call gets its unique key.  `refuse`: it ends before it registers.
    `register`, `enqueue`, `timeout`, `delete`: see `Phase`; `enqueue` waits for room.  `take`:
    the loop takes a message from a channel and handles it.  `sendSys`, `putResp`: it sends the
    answer of a handler, which reads `sendSysResponse` and then waits for room.

    `connect`, `disconnect`: a stream begins, and its receive routine ends.  `recvMsg`: a
    routine receives a message and looks the notifier up.  `setSendF`, `put`: the notifier.
    `sendResp`, `endSend`: the send routine of a sandbox stream.  `sendMsg`, `endClient`: that
    of a client. -/
inductive Action where
  | invoke (chainId originalTxId : String) (hasBatchState : Bool)
  | refuse (i : ℕ)
  | register (side : Side) (i : ℕ)
  | enqueue (ch : SendCh) (i : ℕ)
  | timeout (i : ℕ)
  | delete (side : Side) (i : ℕ)
  | take (side : Side) (i : ℕ)
  | sendSys (i : ℕ)
  | putResp (i : ℕ)
  | connect (side : Side)
  | disconnect (side : Side) (s : ℕ)
  | recvMsg (side : Side) (s : ℕ) (msg : Msg)
  | setSendF (s : ℕ)
  | put (side : Side) (s : ℕ)
  | sendResp (s : ℕ) (res : SendResult)
  | endSend (s : ℕ)
  | sendMsg (ch : SendCh) (s : ℕ) (res : SendResult)
  | endClient (s : ℕ)
deriving DecidableEq, Repr

/-- `GetReceiveNotify` and `getNotify`, for the types that are looked up. -/
def lookup (f : ChainNode) (side : Side) (msg : Msg) : Option ℕ :=
  if isRouted side msg.type then f.notify side msg.key else none

/-- The routine of a stream calls the notifier of a call; the engine's puts at once. -/
def deliver (side : Side) (d : Delivery) : Receiver :=
  match side with
  | .engine => .putting d
  | .sandbox => .notifying d

/-- A call moves to another phase. -/
def goto (f : ChainNode) (i : ℕ) (move : Phase → Option Phase) : Option (Call × ChainNode) :=
  f.calls[i]?.bind fun c => (move c.phase).map fun phase => (c, f.setCall i { c with phase := phase })

def step (f : ChainNode) : Action → Option ChainNode
  | .invoke chainId originalTxId hasBatchState =>
    let nextCount := f.count + 1
    let c : Call :=
      ⟨chainId, constructUniqueTxKey originalTxId nextCount, hasBatchState, .started, fun _ => none,
        none⟩
    some { f with count := nextCount, calls := f.calls ++ [c] }
  | .refuse i => (f.goto i Phase.refuse).map Prod.snd
  | .register side i => (f.goto i (Phase.registerNotify side)).map fun r =>
    r.2.setNotify side r.1.key (some i)
  | .enqueue ch i =>
    if f.sendLen ch < ch.cap then
      (f.goto i (Phase.enqueue ch)).map fun r =>
        { r.2 with sendLen := Function.update f.sendLen ch (f.sendLen ch + 1) }
    else none
  | .timeout i => (f.goto i Phase.timeout).map Prod.snd
  | .delete side i => (f.goto i (Phase.deleteNotify side)).map fun r => r.2.setNotify side r.1.key none
  | .take side i =>
    match f.calls[i]? with
    | some c =>
      match c.phase, c.msgCh side with
      | .looping, some d =>
        let phase : Phase :=
          match c.outcome side d.msg.type with
          | .goOn => .looping
          | .byteCode => .byteCode
          | .answer => .answering d
          | .leave => .returned
        some (f.setCall i { c with msgCh := Function.update c.msgCh side none, phase := phase })
      | _, _ => none
    | none => none
  | .sendSys i =>
    match f.calls[i]? with
    | some c =>
      match c.phase, c.sendSysResponse with
      | .answering d, some s => some (f.setCall i { c with phase := .responding d s })
      | _, _ => none
    | none => none
  | .putResp i =>
    match f.calls[i]? with
    | some c =>
      match c.phase with
      | .responding d s =>
        match f.senders[s]? with
        | some ⟨running, none⟩ =>
          some ((f.setCall i { c with phase := .looping }).setSender s ⟨running, some d⟩)
        | _ => none
      | _ => none
    | none => none
  | .connect side =>
    some { f with
      receivers := Function.update f.receivers side (f.receivers side ++ [.receiving])
      senders := if side = .sandbox then f.senders ++ [⟨true, none⟩] else f.senders
      clients := if side = .engine then f.clients ++ [true] else f.clients }
  | .disconnect side s =>
    match (f.receivers side)[s]? with
    | some .receiving => some (f.setReceiver side s .stopped)
    | _ => none
  | .recvMsg side s msg =>
    match (f.receivers side)[s]? with
    | some .receiving =>
      match f.lookup side msg with
      | some i => some (f.setReceiver side s (deliver side ⟨i, s, msg⟩))
      -- without a notifier the message is dropped
      | none => some f
    | _ => none
  | .setSendF s =>
    match (f.receivers .sandbox)[s]? with
    | some (.notifying d) =>
      f.calls[d.call]?.map fun c =>
        (f.setCall d.call { c with sendSysResponse := some s }).setReceiver .sandbox s (.putting d)
    | _ => none
  | .put side s =>
    match (f.receivers side)[s]? with
    | some (.putting d) =>
      match f.calls[d.call]? with
      | some c =>
        match c.msgCh side with
        | none =>
          some ((f.setCall d.call { c with msgCh := Function.update c.msgCh side (some d) }).setReceiver
            side s .receiving)
        | some _ => none
      | none => none
    | _ => none
  | .sendResp s res =>
    match f.senders[s]? with
    | some ⟨true, some _⟩ =>
      -- an answer that is too large is dropped; another failure ends the routine
      some (f.setSender s ⟨decide (res ≠ .failed), none⟩)
    | _ => none
  | .endSend s =>
    match (f.receivers .sandbox)[s]?, f.senders[s]? with
    | some .stopped, some ⟨true, resp⟩ => some (f.setSender s ⟨false, resp⟩)
    | _, _ => none
  | .sendMsg ch s res =>
    if f.clients[s]? = some true ∧ 0 < f.sendLen ch then
      some { f with
        clients := f.clients.set s (decide (res ≠ .failed))
        sendLen := Function.update f.sendLen ch (f.sendLen ch - 1) }
    else none
  | .endClient s =>
    if (f.receivers .engine)[s]? = some .stopped ∧ f.clients[s]? = some true then
      some { f with clients := f.clients.set s false }
    else none

/-! ## Steps -/

/-- The ways in which a step changes the node. -/
inductive NodeStep (f : ChainNode) : Action → ChainNode → Prop
  | invoke {chainId originalTxId : String} {hasBatchState : Bool} :
      NodeStep f (.invoke chainId originalTxId hasBatchState)
        { f with
          count := f.count + 1
          calls := f.calls ++ [⟨chainId, constructUniqueTxKey originalTxId (f.count + 1),
            hasBatchState, .started, fun _ => none, none⟩] }
  | quiet {a : Action} {i : ℕ} {c : Call} {phase : Phase} {len : SendCh → ℕ}
      (hc : f.calls[i]? = some c) (hphase : c.phase.Quiet phase)
      (hroom : ∀ ch, c.phase.sendCh = some ch → f.sendLen ch < ch.cap)
      (hlen : ∀ ch, len ch = f.sendLen ch ∨
        f.sendLen ch < ch.cap ∧ len ch = f.sendLen ch + 1) :
      NodeStep f a { f.setCall i { c with phase := phase } with sendLen := len }
  | register {side : Side} {i : ℕ} {c : Call} {phase : Phase} (hc : f.calls[i]? = some c)
      (hphase : c.phase.registerNotify side = some phase) :
      NodeStep f (.register side i)
        ((f.setCall i { c with phase := phase }).setNotify side c.key (some i))
  | delete {side : Side} {i : ℕ} {c : Call} {phase : Phase} (hc : f.calls[i]? = some c)
      (hphase : c.phase.deleteNotify side = some phase) :
      NodeStep f (.delete side i)
        ((f.setCall i { c with phase := phase }).setNotify side c.key none)
  | take {side : Side} {i : ℕ} {c : Call} {d : Delivery} {phase : Phase} (hc : f.calls[i]? = some c)
      (hloop : c.phase = .looping) (hch : c.msgCh side = some d)
      (hphase : phase = .looping ∨ phase = .returned ∨ phase = .byteCode ∨
        (phase = .answering d ∧ side = .sandbox ∧ d.isRequest = true)) :
      NodeStep f (.take side i)
        (f.setCall i { c with msgCh := Function.update c.msgCh side none, phase := phase })
  | sendSys {i s : ℕ} {c : Call} {d : Delivery} (hc : f.calls[i]? = some c)
      (hans : c.phase = .answering d) (hto : c.sendSysResponse = some s) :
      NodeStep f (.sendSys i) (f.setCall i { c with phase := .responding d s })
  | putResp {i s : ℕ} {c : Call} {d : Delivery} {running : Bool} (hc : f.calls[i]? = some c)
      (hresp : c.phase = .responding d s) (hs : f.senders[s]? = some ⟨running, none⟩) :
      NodeStep f (.putResp i)
        ((f.setCall i { c with phase := .looping }).setSender s ⟨running, some d⟩)
  | connect {side : Side} :
      NodeStep f (.connect side)
        { f with
          receivers := Function.update f.receivers side (f.receivers side ++ [.receiving])
          senders := if side = .sandbox then f.senders ++ [⟨true, none⟩] else f.senders
          clients := if side = .engine then f.clients ++ [true] else f.clients }
  | disconnect {side : Side} {s : ℕ} (hr : (f.receivers side)[s]? = some .receiving) :
      NodeStep f (.disconnect side s) (f.setReceiver side s .stopped)
  | dropped {side : Side} {s : ℕ} {msg : Msg} (hl : f.lookup side msg = none) :
      NodeStep f (.recvMsg side s msg) f
  | recvMsg {side : Side} {s i : ℕ} {msg : Msg} (hr : (f.receivers side)[s]? = some .receiving)
      (hl : f.lookup side msg = some i) :
      NodeStep f (.recvMsg side s msg) (f.setReceiver side s (deliver side ⟨i, s, msg⟩))
  | setSendF {s : ℕ} {c : Call} {d : Delivery} (hr : (f.receivers .sandbox)[s]? = some (.notifying d))
      (hc : f.calls[d.call]? = some c) :
      NodeStep f (.setSendF s)
        ((f.setCall d.call { c with sendSysResponse := some s }).setReceiver .sandbox s (.putting d))
  | put {side : Side} {s : ℕ} {c : Call} {d : Delivery}
      (hr : (f.receivers side)[s]? = some (.putting d)) (hc : f.calls[d.call]? = some c)
      (hch : c.msgCh side = none) :
      NodeStep f (.put side s)
        ((f.setCall d.call { c with msgCh := Function.update c.msgCh side (some d) }).setReceiver
          side s .receiving)
  | sendResp {s : ℕ} {res : SendResult} {d : Delivery} {running : Bool}
      (hs : f.senders[s]? = some ⟨true, some d⟩) :
      NodeStep f (.sendResp s res) (f.setSender s ⟨running, none⟩)
  | endSend {s : ℕ} {resp : Option Delivery} (hs : f.senders[s]? = some ⟨true, resp⟩) :
      NodeStep f (.endSend s) (f.setSender s ⟨false, resp⟩)
  | client {a : Action} {s : ℕ} {clients : List Bool} {len : SendCh → ℕ}
      (hs : f.clients[s]? = some true) (hlen : ∀ ch, len ch ≤ f.sendLen ch) :
      NodeStep f a { f with clients := clients, sendLen := len }

variable {f f' : ChainNode} {a : Action} {i : ℕ} {c : Call} {d : Delivery} {side : Side}

theorem receivers_self (f : ChainNode) (side : Side) (s : ℕ) (r : Receiver) :
    (f.setReceiver side s r).receivers side = (f.receivers side).set s r := Function.update_self ..

theorem receivers_other (f : ChainNode) {side' : Side} (hne : side ≠ side') (s : ℕ) (r : Receiver) :
    (f.setReceiver side' s r).receivers side = f.receivers side := Function.update_of_ne hne _ _

theorem map_goto_eq_some {move : Phase → Option Phase} {g : Call × ChainNode → ChainNode}
    (h : (f.goto i move).map g = some f') :
    ∃ c phase, f.calls[i]? = some c ∧ move c.phase = some phase ∧
      f' = g (c, f.setCall i { c with phase := phase }) := by
  obtain ⟨r, hr, rfl⟩ := Option.map_eq_some_iff.1 h
  obtain ⟨c, hc, hr⟩ := Option.bind_eq_some_iff.1 hr
  obtain ⟨phase, hp, rfl⟩ := Option.map_eq_some_iff.1 hr
  exact ⟨c, phase, hc, hp, rfl⟩

/-- A message that the loop answers is a request of a sandbox. -/
theorem Call.outcome_answer (h : c.outcome side d.msg.type = .answer) :
    side = .sandbox ∧ d.isRequest = true := by
  unfold Delivery.isRequest
  cases side
  · cases ht : d.msg.type <;> rw [ht] at h <;> cases h
  · refine ⟨rfl, ?_⟩
    rw [bne_iff_ne]
    intro ht
    rw [ht] at h
    cases h

theorem step_cases (h : f.step a = some f') : NodeStep f a f' := by
  cases a with
  | invoke chainId originalTxId hasBatchState =>
    cases h
    exact .invoke
  | refuse i =>
    obtain ⟨c, phase, hc, hp, rfl⟩ := map_goto_eq_some h
    obtain ⟨hquiet, hnone⟩ := Phase.quiet_leave (.inl hp)
    exact .quiet hc hquiet (by simp [hnone]) fun _ => Or.inl rfl
  | register side i =>
    obtain ⟨c, phase, hc, hp, rfl⟩ := map_goto_eq_some h
    exact .register hc hp
  | enqueue ch i =>
    simp only [step] at h
    split_ifs at h with hlt
    obtain ⟨c, phase, hc, hp, rfl⟩ := map_goto_eq_some h
    obtain ⟨hquiet, hch⟩ := Phase.quiet_enqueue hp
    refine .quiet hc hquiet (fun ch' h => ?_) fun ch' => ?_
    · cases hch.symm.trans h
      exact hlt
    · by_cases hne : ch' = ch
      · subst hne
        exact Or.inr ⟨hlt, Function.update_self ..⟩
      · exact Or.inl (Function.update_of_ne hne _ _)
  | timeout i =>
    obtain ⟨c, phase, hc, hp, rfl⟩ := map_goto_eq_some h
    obtain ⟨hquiet, hnone⟩ := Phase.quiet_leave (.inr hp)
    exact .quiet hc hquiet (by simp [hnone]) fun _ => Or.inl rfl
  | delete side i =>
    obtain ⟨c, phase, hc, hp, rfl⟩ := map_goto_eq_some h
    exact .delete hc hp
  | take side i =>
    simp only [step] at h
    split at h
    · rename_i c hc
      split at h
      · rename_i d hloop hch
        cases h
        refine .take hc hloop hch ?_
        cases hout : c.outcome side d.msg.type with
        | goOn => exact Or.inl rfl
        | leave => exact Or.inr (Or.inl rfl)
        | byteCode => exact Or.inr (Or.inr (Or.inl rfl))
        | answer => exact Or.inr (Or.inr (Or.inr ⟨rfl, Call.outcome_answer hout⟩))
      · cases h
    · cases h
  | sendSys i =>
    simp only [step] at h
    split at h
    · rename_i c hc
      split at h
      · rename_i d s hans hto
        cases h
        exact .sendSys hc hans hto
      · cases h
    · cases h
  | putResp i =>
    simp only [step] at h
    split at h
    · rename_i c hc
      split at h
      · rename_i d s hresp
        split at h
        · rename_i running hs
          cases h
          exact .putResp hc hresp hs
        · cases h
      · cases h
    · cases h
  | connect side =>
    cases h
    exact .connect
  | disconnect side s =>
    simp only [step] at h
    split at h
    · rename_i hr
      cases h
      exact .disconnect hr
    · cases h
  | recvMsg side s msg =>
    simp only [step] at h
    split at h
    · rename_i hr
      split at h
      · rename_i i hl
        cases h
        exact .recvMsg hr hl
      · rename_i hl
        cases h
        exact .dropped hl
    · cases h
  | setSendF s =>
    simp only [step] at h
    split at h
    · rename_i d hr
      obtain ⟨c, hc, rfl⟩ := Option.map_eq_some_iff.1 h
      exact .setSendF hr hc
    · cases h
  | put side s =>
    simp only [step] at h
    split at h
    · rename_i d hr
      split at h
      · rename_i c hc
        split at h
        · rename_i hch
          cases h
          exact .put hr hc hch
        · cases h
      · cases h
    · cases h
  | sendResp s res =>
    simp only [step] at h
    split at h
    · rename_i d hs
      cases h
      exact .sendResp hs
    · cases h
  | endSend s =>
    simp only [step] at h
    split at h
    · rename_i resp hr hs
      cases h
      exact .endSend hs
    · cases h
  | sendMsg ch s res =>
    simp only [step] at h
    split_ifs at h with hs
    cases h
    refine .client hs.1 fun ch' => ?_
    by_cases hne : ch' = ch
    · subst hne
      rw [Function.update_self]
      exact Nat.sub_le _ _
    · rw [Function.update_of_ne hne]
  | endClient s =>
    simp only [step] at h
    split_ifs at h with hs
    cases h
    exact .client hs.2 fun _ => Nat.le_refl _

/-- What a step makes of a call. -/
inductive CallMove (f : ChainNode) (i : ℕ) (c : Call) : Action → Call → Prop
  | same {a : Action} : CallMove f i c a c
  | quiet {a : Action} {phase : Phase} (hphase : c.phase.Quiet phase)
      (hroom : ∀ ch, c.phase.sendCh = some ch → f.sendLen ch < ch.cap) :
      CallMove f i c a { c with phase := phase }
  | register {side : Side} {phase : Phase} (hphase : c.phase.registerNotify side = some phase) :
      CallMove f i c (.register side i) { c with phase := phase }
  | delete {side : Side} {phase : Phase} (hphase : c.phase.deleteNotify side = some phase) :
      CallMove f i c (.delete side i) { c with phase := phase }
  | take {side : Side} {d : Delivery} {phase : Phase} (hloop : c.phase = .looping)
      (hch : c.msgCh side = some d) (hphase : phase = .looping ∨ phase = .returned ∨
        phase = .byteCode ∨ (phase = .answering d ∧ side = .sandbox ∧ d.isRequest = true)) :
      CallMove f i c (.take side i)
        { c with msgCh := Function.update c.msgCh side none, phase := phase }
  | sendSys {s : ℕ} {d : Delivery} (hans : c.phase = .answering d) (hto : c.sendSysResponse = some s) :
      CallMove f i c (.sendSys i) { c with phase := .responding d s }
  | putResp {s : ℕ} {d : Delivery} {running : Bool} (hresp : c.phase = .responding d s)
      (hs : f.senders[s]? = some ⟨running, none⟩) :
      CallMove f i c (.putResp i) { c with phase := .looping }
  | setSendF {s : ℕ} {d : Delivery} (hr : (f.receivers .sandbox)[s]? = some (.notifying d))
      (hd : d.call = i) : CallMove f i c (.setSendF s) { c with sendSysResponse := some s }
  | put {side : Side} {s : ℕ} {d : Delivery} (hr : (f.receivers side)[s]? = some (.putting d))
      (hd : d.call = i) (hch : c.msgCh side = none) :
      CallMove f i c (.put side s) { c with msgCh := Function.update c.msgCh side (some d) }

/-- A call after a step is a new one, or was there before. -/
theorem NodeStep.call {c' : Call} (h : NodeStep f a f') (hc' : f'.calls[i]? = some c') :
    (i = f.calls.length ∧ c'.phase = .started ∧ c'.msgCh = (fun _ => none) ∧
      c'.sendSysResponse = none) ∨
    ∃ c, f.calls[i]? = some c ∧ CallMove f i c a c' := by
  have hset : ∀ {k : ℕ} {b b' : Call}, f.calls[k]? = some b → (f.calls.set k b')[i]? = some c' →
      (k = i → CallMove f i b a b') → ∃ c, f.calls[i]? = some c ∧ CallMove f i c a c' := by
    intro k b b' hb hb' hmove
    rcases getElem?_set_some hb' with ⟨rfl, rfl⟩ | ⟨-, hold⟩
    · exact ⟨b, hb, hmove rfl⟩
    · exact ⟨c', hold, .same⟩
  cases h with
  | invoke =>
    rcases getElem?_concat_some hc' with ⟨rfl, rfl⟩ | hold
    · exact Or.inl ⟨rfl, rfl, rfl, rfl⟩
    · exact Or.inr ⟨c', hold, .same⟩
  | quiet hc hphase hroom _ => exact Or.inr (hset hc hc' fun _ => .quiet hphase hroom)
  | register hc hphase => exact Or.inr (hset hc hc' fun hk => hk ▸ .register hphase)
  | delete hc hphase => exact Or.inr (hset hc hc' fun hk => hk ▸ .delete hphase)
  | take hc hloop hch hphase => exact Or.inr (hset hc hc' fun hk => hk ▸ .take hloop hch hphase)
  | sendSys hc hans hto => exact Or.inr (hset hc hc' fun hk => hk ▸ .sendSys hans hto)
  | putResp hc hresp hs => exact Or.inr (hset hc hc' fun hk => hk ▸ .putResp hresp hs)
  | setSendF hr hc => exact Or.inr (hset hc hc' fun hk => .setSendF hr hk)
  | put hr hc hch => exact Or.inr (hset hc hc' fun hk => .put hr hk hch)
  | connect | disconnect | dropped | recvMsg | sendResp | endSend | client =>
    exact Or.inr ⟨c', hc', .same⟩

theorem NodeStep.length_calls (h : NodeStep f a f') : f.calls.length ≤ f'.calls.length := by
  cases h with
  | invoke =>
    rw [List.length_append]
    exact Nat.le_add_right _ _
  | quiet | register | delete | take | sendSys | putResp | setSendF | put =>
    exact List.length_set.ge
  | connect | disconnect | dropped | recvMsg | sendResp | endSend | client => exact Nat.le_refl _

/-- No call is lost. -/
theorem NodeStep.move (h : NodeStep f a f') (hc : f.calls[i]? = some c) :
    ∃ c', f'.calls[i]? = some c' ∧ CallMove f i c a c' := by
  have hlt := (List.getElem?_eq_some_iff.1 hc).1
  have hlt' := Nat.lt_of_lt_of_le hlt h.length_calls
  have hc' := List.getElem?_eq_getElem hlt'
  refine ⟨_, hc', ?_⟩
  rcases h.call hc' with ⟨rfl, -⟩ | ⟨b, hb, hmove⟩
  · exact absurd hlt (Nat.lt_irrefl _)
  · cases hc.symm.trans hb
    exact hmove

/-- The key of a call stays. -/
theorem CallMove.key {c' : Call} (h : CallMove f i c a c') : c'.key = c.key := by
  cases h <;> rfl

end ChainNode

end VmEngine
