/-
  The connections to the contract engine (`rpc/contract_engine_client_manager.go`,
  `rpc/contract_engine_client.go`).

  `establishConnections` and `reconnect` run one goroutine for each client: it takes the
  next index, calls `Start` until it succeeds, and puts the client into `aliveClientMap`.
  `Start` already launches the routines of the client.  The receive routine ends with an
  event to the manager, and `listen`, which starts after `establishConnections`, drops the
  client of each event and reconnects.

  A client is known by its index, which is its position in `clients`; indices are not
  reused.  Messages, notifications and the send routine do not matter here: a receive
  routine may stop at any time.
-/
import VmEngine.Lib.System
import VmEngine.Lib.Indexed
import Mathlib.Data.Finset.Basic

namespace VmEngine.Rpc

/-- `eventSize` -/
def eventSize : ℕ := 100

/-- The receive routine of a client. -/
inductive Routine where
  /-- `Start` has not succeeded -/
  | created
  | running
  /-- the loop has ended, the deferred `PutEvent` is due -/
  | stopping
  | stopped
deriving DecidableEq, Repr

/-- Where a goroutine that connects a client stands. -/
inductive Phase where
  /-- before `getNextIndex` -/
  | indexing
  /-- in the loop around `Start` -/
  | starting (id : ℕ)
  /-- between `Start` and the insertion into the map -/
  | inserting (id : ℕ)
  | inserted (id : ℕ)
  /-- left the loop because the manager was stopped -/
  | gaveUp
deriving DecidableEq, Repr

def Phase.isInserted : Phase → Bool
  | .inserted _ => true
  | _ => false

/-- A goroutine of `establishConnections`, or of `reconnect`. -/
structure Connector where
  initial : Bool
  phase : Phase
deriving DecidableEq, Repr

/-- The goroutine of `listen`. -/
inductive Listener where
  | notStarted
  | waiting
  /-- received the event of the client -/
  | handling (id : ℕ)
deriving DecidableEq, Repr

structure ContractEngineClientManager where
  clients : List Routine
  connectors : List Connector
  aliveClientMap : Finset ℕ
  eventCh : List ℕ
  listener : Listener
  stop : Bool
deriving DecidableEq

namespace ContractEngineClientManager

/-- `Start`, with `totalConnections` goroutines of `establishConnections`. -/
def start (totalConnections : ℕ) : ContractEngineClientManager where
  clients := []
  connectors := List.replicate totalConnections ⟨true, .indexing⟩
  aliveClientMap := ∅
  eventCh := []
  listener := .notStarted
  stop := false

/-- `HasActiveConnections` -/
def hasActiveConnections (cm : ContractEngineClientManager) : Bool := 0 < cm.aliveClientMap.card

/-- `wg.Wait` returns: every goroutine of `establishConnections` has put its client into
    the map. -/
def Established (cm : ContractEngineClientManager) : Prop :=
  ∀ c ∈ cm.connectors, c.initial = true → c.phase.isInserted = true

instance (cm : ContractEngineClientManager) : Decidable cm.Established :=
  inferInstanceAs (Decidable (∀ c ∈ cm.connectors, _ → _))

def setPhase (cm : ContractEngineClientManager) (g : ℕ) (c : Connector) (phase : Phase) :
    ContractEngineClientManager :=
  { cm with connectors := cm.connectors.set g { c with phase := phase } }

inductive Action where
  /-- `getNextIndex` and `NewContractEngineClient` of connector `g` -/
  | getNextIndex (g : ℕ)
  /-- `newClient.Start` -/
  | startClient (g : ℕ) (ok : Bool)
  /-- the loop around `Start` sees `cm.stop` -/
  | giveUp (g : ℕ)
  /-- the client is put into `aliveClientMap` -/
  | insert (g : ℕ)
  /-- the receive routine leaves its loop -/
  | receiveEnd (id : ℕ)
  /-- its deferred `PutEvent` -/
  | putEvent (id : ℕ)
  /-- `establishConnections` returns and `listen` starts -/
  | listen
  /-- `<-cm.eventCh` -/
  | recvEvent
  /-- `dropConnection` and `go cm.reconnect()` -/
  | dropConnection
  /-- `Stop` -/
  | stop
deriving DecidableEq, Repr

def step (cm : ContractEngineClientManager) : Action → Option ContractEngineClientManager
  | .getNextIndex g =>
    match cm.connectors[g]? with
    | some ⟨initial, .indexing⟩ =>
      some { cm.setPhase g ⟨initial, .indexing⟩ (.starting cm.clients.length) with
        clients := cm.clients ++ [.created] }
    | _ => none
  | .startClient g ok =>
    match cm.connectors[g]? with
    | some ⟨initial, .starting id⟩ =>
      if ok then
        some { cm.setPhase g ⟨initial, .starting id⟩ (.inserting id) with
          clients := cm.clients.set id .running }
      else some cm
    | _ => none
  | .giveUp g =>
    match cm.connectors[g]?, cm.stop with
    | some ⟨initial, .starting id⟩, true => some (cm.setPhase g ⟨initial, .starting id⟩ .gaveUp)
    | _, _ => none
  | .insert g =>
    match cm.connectors[g]? with
    | some ⟨initial, .inserting id⟩ =>
      some { cm.setPhase g ⟨initial, .inserting id⟩ (.inserted id) with
        aliveClientMap := insert id cm.aliveClientMap }
    | _ => none
  | .receiveEnd id =>
    match cm.clients[id]? with
    | some .running => some { cm with clients := cm.clients.set id .stopping }
    | _ => none
  | .putEvent id =>
    match cm.clients[id]? with
    | some .stopping =>
      if cm.eventCh.length < eventSize then
        some { cm with clients := cm.clients.set id .stopped, eventCh := cm.eventCh ++ [id] }
      else none
    | _ => none
  | .listen =>
    match cm.listener with
    | .notStarted => if cm.Established then some { cm with listener := .waiting } else none
    | _ => none
  | .recvEvent =>
    match cm.listener, cm.eventCh with
    | .waiting, id :: rest => some { cm with listener := .handling id, eventCh := rest }
    | _, _ => none
  | .dropConnection =>
    match cm.listener with
    | .handling id =>
      some { cm with
        aliveClientMap := cm.aliveClientMap.erase id
        listener := .waiting
        connectors := cm.connectors ++ [⟨false, .indexing⟩] }
    | _ => none
  | .stop => some { cm with stop := true }

/-! ## What a step does -/

/-- The goroutine of the client stands between `Start` and the insertion. -/
def Inserting (cm : ContractEngineClientManager) (id : ℕ) : Prop :=
  ∃ c ∈ cm.connectors, c.phase = .inserting id

instance (cm : ContractEngineClientManager) (id : ℕ) : Decidable (cm.Inserting id) :=
  inferInstanceAs (Decidable (∃ c ∈ cm.connectors, _))

/-- The receive routine of the client has not returned. -/
def Receiving (cm : ContractEngineClientManager) (id : ℕ) : Prop :=
  cm.clients[id]? = some .running ∨ cm.clients[id]? = some .stopping

instance (cm : ContractEngineClientManager) (id : ℕ) : Decidable (cm.Receiving id) :=
  inferInstanceAs (Decidable (_ ∨ _))

/-- The events that are not handled yet. -/
def events (cm : ContractEngineClientManager) : List ℕ :=
  match cm.listener with
  | .handling id => id :: cm.eventCh
  | _ => cm.eventCh

/-- The effects of the actions. -/
inductive Effect (cm : ContractEngineClientManager) : Action → ContractEngineClientManager → Prop
  | getNextIndex {g : ℕ} {b : Bool} : cm.connectors[g]? = some ⟨b, .indexing⟩ →
      Effect cm (.getNextIndex g)
        { cm with
          connectors := cm.connectors.set g ⟨b, .starting cm.clients.length⟩
          clients := cm.clients ++ [.created] }
  | started {g id : ℕ} {b : Bool} : cm.connectors[g]? = some ⟨b, .starting id⟩ →
      Effect cm (.startClient g true)
        { cm with
          connectors := cm.connectors.set g ⟨b, .inserting id⟩
          clients := cm.clients.set id .running }
  | retry {g : ℕ} : Effect cm (.startClient g false) cm
  | giveUp {g id : ℕ} {b : Bool} : cm.connectors[g]? = some ⟨b, .starting id⟩ →
      Effect cm (.giveUp g) { cm with connectors := cm.connectors.set g ⟨b, .gaveUp⟩ }
  | insert {g id : ℕ} {b : Bool} : cm.connectors[g]? = some ⟨b, .inserting id⟩ →
      Effect cm (.insert g)
        { cm with
          connectors := cm.connectors.set g ⟨b, .inserted id⟩
          aliveClientMap := Insert.insert id cm.aliveClientMap }
  | receiveEnd {id : ℕ} : cm.clients[id]? = some .running →
      Effect cm (.receiveEnd id) { cm with clients := cm.clients.set id .stopping }
  | putEvent {id : ℕ} : cm.clients[id]? = some .stopping →
      Effect cm (.putEvent id)
        { cm with clients := cm.clients.set id .stopped, eventCh := cm.eventCh ++ [id] }
  | listen : cm.listener = .notStarted → cm.Established →
      Effect cm .listen { cm with listener := .waiting }
  | recvEvent {id : ℕ} {rest : List ℕ} : cm.listener = .waiting → cm.eventCh = id :: rest →
      Effect cm .recvEvent { cm with listener := .handling id, eventCh := rest }
  | dropConnection {id : ℕ} : cm.listener = .handling id →
      Effect cm .dropConnection
        { cm with
          aliveClientMap := cm.aliveClientMap.erase id
          listener := .waiting
          connectors := cm.connectors ++ [⟨false, .indexing⟩] }
  | stop : Effect cm .stop { cm with stop := true }

theorem step_effect {cm cm' : ContractEngineClientManager} {a : Action} (h : step cm a = some cm') :
    Effect cm a cm' := by
  cases a with
  | getNextIndex g =>
    simp only [step] at h
    split at h
    · rename_i b hg
      cases h
      exact .getNextIndex hg
    · cases h
  | startClient g ok =>
    simp only [step] at h
    split at h
    · rename_i b id hg
      cases ok with
      | true => cases h; exact .started hg
      | false => cases h; exact .retry
    · cases h
  | giveUp g =>
    simp only [step] at h
    split at h
    · rename_i b id hg _
      cases h
      exact .giveUp hg
    · cases h
  | insert g =>
    simp only [step] at h
    split at h
    · rename_i b id hg
      cases h
      exact .insert hg
    · cases h
  | receiveEnd id =>
    simp only [step] at h
    split at h
    · rename_i hid
      cases h
      exact .receiveEnd hid
    · cases h
  | putEvent id =>
    simp only [step] at h
    split at h
    · rename_i hid
      split_ifs at h
      cases h
      exact .putEvent hid
    · cases h
  | listen =>
    simp only [step] at h
    split at h
    · rename_i hl
      split_ifs at h with he
      cases h
      exact .listen hl he
    · cases h
  | recvEvent =>
    simp only [step] at h
    split at h
    · rename_i id rest hl hev
      cases h
      exact .recvEvent hl hev
    · cases h
  | dropConnection =>
    simp only [step] at h
    split at h
    · rename_i id hl
      cases h
      exact .dropConnection hl
    · cases h
  | stop => cases h; exact .stop

end ContractEngineClientManager

end VmEngine.Rpc
