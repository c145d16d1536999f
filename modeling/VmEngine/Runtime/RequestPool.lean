/-
  The request messages of the chain node: `dockerVMMsgPool` (`runtime.go`), the queue
  `txSendCh` of the client manager and the `sendMsgRoutine`s of the clients
  (`rpc/contract_engine_client_manager.go`, `rpc/contract_engine_client.go`).

  A call of `Invoke` takes a message object from the pool, writes its request into it
  and queues the object; a client takes it from the queue and sends it.  When the call
  ends, on whatever path, the object goes back to the pool.  Objects are known by their
  position in `heap`; sending reads what the object holds at that moment.

  What the calls do between queueing and their end, and the bytecode responses, which
  are not pooled, are left out.
-/
import VmEngine.Core.Messages
import VmEngine.Lib.System
import VmEngine.Lib.Indexed

namespace VmEngine

/-- What `Invoke` writes into a request. -/
structure InvokeArgs where
  chainId : String
  originalTxId : String
  contractName : String
  contractVersion : String
  method : String
  crossInfo : ℕ
  currentDepth : ℕ
deriving DecidableEq, Repr

/-- `utils.ConstructUniqueTxKey`. -/
def constructUniqueTxKey (txId : String) (count : UInt64) : String :=
  String.intercalate "#" [txId, toString count.toNat]

/-- How far a call of `Invoke` has come, and the message object it owns. -/
inductive InvokePhase where
  | started
  | prepared (obj : ℕ)
  | waiting (obj : ℕ)
  | ended
deriving DecidableEq, Repr

def InvokePhase.obj : InvokePhase → Option ℕ
  | .prepared obj | .waiting obj => some obj
  | .started | .ended => none

structure InvokeCall where
  args : InvokeArgs
  uniqueTxKey : String
  phase : InvokePhase
deriving DecidableEq, Repr

/-- `dockerVMMsgPool.New`. -/
def newRequestMsg : DockerVMMessage := ⟨"", "", .undefined, some ⟨0, "", 0⟩, some ⟨"", "", "", ""⟩, none⟩

/-- The fields that `Invoke` sets before it queues the message. -/
def InvokeCall.writeRequest (c : InvokeCall) (msg : DockerVMMessage) : DockerVMMessage :=
  { msg with
    chainId := c.args.chainId
    txId := c.uniqueTxKey
    type := .txRequest
    request := msg.request.map fun q =>
      { q with
        chainId := c.args.chainId
        contractName := c.args.contractName
        contractVersion := c.args.contractVersion
        method := c.args.method }
    crossContext := msg.crossContext.map fun x =>
      { x with crossInfo := c.args.crossInfo, currentDepth := c.args.currentDepth } }

/-- An object in `txSendCh`, with the call that queued it. -/
structure Queued where
  obj : ℕ
  call : ℕ
deriving DecidableEq, Repr

/-- The `sendMsgRoutine` of a client. -/
inductive Sender where
  | idle
  | sending (q : Queued)
  | stopped
deriving DecidableEq, Repr

def Sender.holding : Sender → Option Queued
  | .sending q => some q
  | .idle | .stopped => none

/-- What `stream.Send` returns: nothing, `ResourceExhausted`, or another error. -/
inductive SendResult where
  | sent
  | resourceExhausted
  | failed
deriving DecidableEq, Repr

/-- What ends a call of `Invoke`. -/
inductive Ending where
  | response
  | error
  | timeout
deriving DecidableEq, Repr

/-- `received` lists what the engine got, with the call that queued it. -/
structure RequestPool where
  count : UInt64
  heap : List DockerVMMessage
  dockerVMMsgPool : List ℕ
  calls : List InvokeCall
  txSendCh : List Queued
  senders : List Sender
  received : List (ℕ × DockerVMMessage)
deriving DecidableEq, Repr

namespace RequestPool

def init : RequestPool := ⟨0, [], [], [], [], [], []⟩

/-- The capacity of `txSendCh`. -/
def txSize : ℕ := 50000

/-- `start`: a call of `Invoke` gets its unique key.  `get`: it takes an object from the
    pool, or a new one.  `abort`: registering the call fails.  `enqueue`: the object is
    queued.  `finish`: the call ends.  `collect`: the pool gives up an object, as
    `sync.Pool` may.  The others are the steps of the clients. -/
inductive Action where
  | start (args : InvokeArgs)
  | get (i : ℕ) (pooled : Option ℕ)
  | abort (i : ℕ)
  | enqueue (i : ℕ)
  | finish (i : ℕ) (how : Ending)
  | collect (obj : ℕ)
  | connect
  | take (j : ℕ)
  | send (j : ℕ) (res : SendResult)
  | stop (j : ℕ)
deriving DecidableEq, Repr

def setPhase (s : RequestPool) (i : ℕ) (c : InvokeCall) (phase : InvokePhase) : RequestPool :=
  { s with calls := s.calls.set i { c with phase := phase } }

/-- The deferred `dockerVMMsgPool.Put`. -/
def putBack (s : RequestPool) (i : ℕ) (c : InvokeCall) (obj : ℕ) : RequestPool :=
  { s.setPhase i c .ended with dockerVMMsgPool := s.dockerVMMsgPool ++ [obj] }

/-- `dockerVMMsgPool.Get`, and the writing of the request. -/
def getMsg (s : RequestPool) (i : ℕ) (c : InvokeCall) : Option ℕ → Option RequestPool
  | none => some
      { s.setPhase i c (.prepared s.heap.length) with heap := s.heap ++ [c.writeRequest newRequestMsg] }
  | some obj =>
    match s.heap[obj]? with
    | none => none
    | some old =>
      if obj ∈ s.dockerVMMsgPool then some
        { s.setPhase i c (.prepared obj) with
          dockerVMMsgPool := s.dockerVMMsgPool.erase obj
          heap := s.heap.set obj (c.writeRequest old) }
      else none

/-- The step of a call that is in some phase. -/
def callStep (s : RequestPool) (i : ℕ) (c : InvokeCall) : Action → Option RequestPool
  | .get _ pooled => if c.phase = .started then s.getMsg i c pooled else none
  | .abort _ =>
    match c.phase with
    | .prepared obj => some (s.putBack i c obj)
    | _ => none
  | .enqueue _ =>
    match c.phase with
    | .prepared obj =>
      if s.txSendCh.length < txSize then
        some { s.setPhase i c (.waiting obj) with txSendCh := s.txSendCh ++ [⟨obj, i⟩] }
      else none
    | _ => none
  | .finish _ _ =>
    match c.phase with
    | .waiting obj => some (s.putBack i c obj)
    | _ => none
  | _ => none

/-- `sendMsg`: the engine gets what the object holds now. -/
def sendMsg (s : RequestPool) (j : ℕ) (q : Queued) (res : SendResult) : Option RequestPool :=
  match res, s.heap[q.obj]? with
  | .sent, some msg =>
    some { s with senders := s.senders.set j .idle, received := s.received ++ [(q.call, msg)] }
  | .sent, none => none
  | .resourceExhausted, _ => some { s with senders := s.senders.set j .idle }
  | .failed, _ => some { s with senders := s.senders.set j .stopped }

def step (s : RequestPool) (a : Action) : Option RequestPool :=
  match a with
  | .start args =>
    let count := s.count + 1
    some { s with
      count := count
      calls := s.calls ++ [⟨args, constructUniqueTxKey args.originalTxId count, .started⟩] }
  | .get i _ | .abort i | .enqueue i | .finish i _ =>
    match s.calls[i]? with
    | none => none
    | some c => s.callStep i c a
  | .collect obj => some { s with dockerVMMsgPool := s.dockerVMMsgPool.erase obj }
  | .connect => some { s with senders := s.senders ++ [.idle] }
  | .take j =>
    match s.senders[j]?, s.txSendCh with
    | some .idle, q :: rest => some { s with senders := s.senders.set j (.sending q), txSendCh := rest }
    | _, _ => none
  | .send j res =>
    match s.senders[j]? with
    | some (.sending q) => s.sendMsg j q res
    | _ => none
  | .stop j =>
    match s.senders[j]? with
    | some .idle => some { s with senders := s.senders.set j .stopped }
    | _ => none

/-- The objects that are queued or being sent. -/
def inFlight (s : RequestPool) : List Queued := s.txSendCh ++ s.senders.filterMap Sender.holding

/-- An object that is queued or being sent is not in the pool, and belongs to the call
    that queued it and to no other. -/
def SingleOwner (s : RequestPool) : Prop :=
  ∀ q ∈ s.inFlight, q.obj ∉ s.dockerVMMsgPool ∧
    (∃ c, s.calls[q.call]? = some c ∧ c.phase.obj = some q.obj) ∧
    ∀ i c, s.calls[i]? = some c → c.phase.obj = some q.obj → i = q.call

/-- A call ends only when its request is neither queued nor being sent. -/
def SentBeforeEnd (s : RequestPool) : Action → Prop
  | .finish i _ => ∀ q ∈ s.inFlight, q.call ≠ i
  | _ => True

instance : DecidableRel SentBeforeEnd := fun s a =>
  match a with
  | .finish i _ => inferInstanceAs (Decidable (∀ q ∈ s.inFlight, q.call ≠ i))
  | .start _ | .get _ _ | .abort _ | .enqueue _ | .collect _ | .connect | .take _ | .send _ _ |
    .stop _ => instDecidableTrue

/-! ## Steps -/

/-- What a step does. -/
inductive PoolStep (s : RequestPool) : Action → RequestPool → Prop
  | start (args : InvokeArgs) : PoolStep s (.start args)
      { s with
        count := s.count + 1
        calls := s.calls ++ [⟨args, constructUniqueTxKey args.originalTxId (s.count + 1), .started⟩] }
  | getNew {i c} : s.calls[i]? = some c → c.phase = .started → PoolStep s (.get i none)
      { s.setPhase i c (.prepared s.heap.length) with
        heap := s.heap ++ [c.writeRequest newRequestMsg] }
  | getPooled {i c obj old} : s.calls[i]? = some c → c.phase = .started →
      s.heap[obj]? = some old → obj ∈ s.dockerVMMsgPool → PoolStep s (.get i (some obj))
        { s.setPhase i c (.prepared obj) with
          dockerVMMsgPool := s.dockerVMMsgPool.erase obj
          heap := s.heap.set obj (c.writeRequest old) }
  | abort {i c obj} : s.calls[i]? = some c → c.phase = .prepared obj →
      PoolStep s (.abort i) (s.putBack i c obj)
  | enqueue {i c obj} : s.calls[i]? = some c → c.phase = .prepared obj → PoolStep s (.enqueue i)
      { s.setPhase i c (.waiting obj) with txSendCh := s.txSendCh ++ [⟨obj, i⟩] }
  | finish {i c obj} (how : Ending) : s.calls[i]? = some c → c.phase = .waiting obj →
      PoolStep s (.finish i how) (s.putBack i c obj)
  | collect (obj : ℕ) :
      PoolStep s (.collect obj) { s with dockerVMMsgPool := s.dockerVMMsgPool.erase obj }
  | move {a senders txSendCh} : (∀ i how, a ≠ .finish i how) →
      (txSendCh ++ senders.filterMap Sender.holding).Perm s.inFlight →
      PoolStep s a { s with senders := senders, txSendCh := txSendCh }
  | sent {j q msg senders} : s.heap[q.obj]? = some msg →
      s.inFlight.Perm (q :: (s.txSendCh ++ senders.filterMap Sender.holding)) →
      PoolStep s (.send j .sent)
        { s with senders := senders, received := s.received ++ [(q.call, msg)] }
  | lost {j res q senders} :
      s.inFlight.Perm (q :: (s.txSendCh ++ senders.filterMap Sender.holding)) →
      PoolStep s (.send j res) { s with senders := senders }

/-- A sender that gives up what it holds. -/
theorem inFlight_release {s : RequestPool} {j : ℕ} {q : Queued} (h : s.senders[j]? = some (.sending q))
    {x : Sender} (hx : x.holding = none) :
    s.inFlight.Perm (q :: (s.txSendCh ++ (s.senders.set j x).filterMap Sender.holding)) := by
  obtain ⟨rest, hold, hnew⟩ := filterMap_set_perm Sender.holding h x
  rw [hx] at hnew
  exact ((List.Perm.refl _).append hold).trans
    (List.perm_middle.trans (((List.Perm.refl _).append hnew.symm).cons q))

theorem step_case {s s' : RequestPool} {a : Action} (h : step s a = some s') : PoolStep s a s' := by
  cases a with
  | start args => cases h; exact .start args
  | get i pooled =>
    simp only [step, callStep] at h
    split at h
    · cases h
    · rename_i c hc
      split_ifs at h with hp
      unfold getMsg at h
      split at h
      · cases h; exact .getNew hc hp
      · split at h
        · cases h
        · rename_i obj old hold
          split_ifs at h with hmem
          cases h
          exact .getPooled hc hp hold hmem
  | abort i =>
    simp only [step, callStep] at h
    split at h
    · cases h
    · rename_i c hc
      split at h
      · rename_i obj hp; cases h; exact .abort hc hp
      · cases h
  | enqueue i =>
    simp only [step, callStep] at h
    split at h
    · cases h
    · rename_i c hc
      split at h
      · rename_i obj hp
        split_ifs at h
        cases h
        exact .enqueue hc hp
      · cases h
  | finish i how =>
    simp only [step, callStep] at h
    split at h
    · cases h
    · rename_i c hc
      split at h
      · rename_i obj hp; cases h; exact .finish how hc hp
      · cases h
  | collect obj => cases h; exact .collect obj
  | connect =>
    cases h
    refine .move nofun ?_
    rw [List.filterMap_append]
    show (s.txSendCh ++ (_ ++ [])).Perm _
    rw [List.append_nil]
    exact List.Perm.refl _
  | take j =>
    simp only [step] at h
    split at h
    · rename_i q rest hj hq
      cases h
      refine .move nofun ?_
      obtain ⟨held, hold, hnew⟩ := filterMap_set_perm Sender.holding hj (.sending q)
      unfold inFlight
      rw [hq]
      exact ((List.Perm.refl _).append hnew).trans
        (List.perm_middle.trans (((List.Perm.refl _).append hold.symm).cons q))
    · cases h
  | send j res =>
    simp only [step, sendMsg] at h
    split at h
    · rename_i q hj
      split at h
      · rename_i msg hmsg
        cases h
        exact .sent hmsg (inFlight_release hj rfl)
      · cases h
      · cases h
        exact .lost (inFlight_release hj rfl)
      · cases h
        exact .lost (inFlight_release hj rfl)
    · cases h
  | stop j =>
    simp only [step] at h
    split at h
    · rename_i hj
      cases h
      refine .move nofun ?_
      obtain ⟨held, hold, hnew⟩ := filterMap_set_perm Sender.holding hj .stopped
      exact (List.Perm.refl _).append (hnew.trans hold.symm)
    · cases h

/-! ## Ownership -/

/-- Pooled objects, the objects of the calls and the objects in flight are kept apart:
    what is in flight belongs to a waiting call, each call puts one object in flight, and
    an object holds what its owner wrote. -/
structure PoolInv (s : RequestPool) : Prop where
  nodup : s.dockerVMMsgPool.Nodup
  made : ∀ o ∈ s.dockerVMMsgPool, o < s.heap.length
  owned : ∀ {i o : ℕ} {c : InvokeCall}, s.calls[i]? = some c → c.phase.obj = some o →
    o ∉ s.dockerVMMsgPool ∧ ∃ old, s.heap[o]? = some (c.writeRequest old)
  once : ∀ {i j o : ℕ} {c d : InvokeCall}, s.calls[i]? = some c → s.calls[j]? = some d →
    c.phase.obj = some o → d.phase.obj = some o → i = j
  flight : ∀ q ∈ s.inFlight, ∃ c, s.calls[q.call]? = some c ∧ c.phase = .waiting q.obj
  sentOnce : (s.inFlight.map Queued.call ++ s.received.map Prod.fst).Nodup
  got : ∀ p ∈ s.received, ∃ c, s.calls[p.1]? = some c ∧ (∃ old, p.2 = c.writeRequest old) ∧
    (c.phase = .ended ∨ ∃ o, c.phase = .waiting o)

section
variable {s s' : RequestPool} {a : Action} {i : ℕ} {c : InvokeCall} {obj : ℕ}

theorem poolInv_init : PoolInv init where
  nodup := List.nodup_nil
  made _ h := by cases h
  owned h := by cases h
  once h := by cases h
  flight _ h := by cases h
  sentOnce := List.nodup_nil
  got _ h := by cases h

variable {phase : InvokePhase}

theorem calls_setPhase {k : ℕ} {d : InvokeCall} (h : (s.setPhase i c phase).calls[k]? = some d) :
    (k = i ∧ d = { c with phase := phase }) ∨ (k ≠ i ∧ s.calls[k]? = some d) :=
  getElem?_set_some h

theorem calls_setPhase_of_ne {k : ℕ} (h : k ≠ i) : (s.setPhase i c phase).calls[k]? = s.calls[k]? :=
  List.getElem?_set_ne (Ne.symm h)

/-- A call that is not waiting has nothing in flight. -/
theorem PoolInv.not_inFlight (hI : PoolInv s) (hc : s.calls[i]? = some c)
    (hp : ∀ o, c.phase ≠ .waiting o) : ∀ q ∈ s.inFlight, q.call ≠ i := by
  rintro q hq rfl
  obtain ⟨d, hd, hphase⟩ := hI.flight q hq
  cases hc.symm.trans hd
  exact hp _ hphase

/-- A call that is neither waiting nor ended has sent nothing. -/
theorem PoolInv.not_received (hI : PoolInv s) (hc : s.calls[i]? = some c)
    (hp : c.phase ≠ .ended) (hw : ∀ o, c.phase ≠ .waiting o) : ∀ p ∈ s.received, p.1 ≠ i := by
  rintro p hmem rfl
  obtain ⟨d, hd, -, hphase⟩ := hI.got p hmem
  cases hc.symm.trans hd
  rcases hphase with h | ⟨o, h⟩
  · exact hp h
  · exact hw o h

/-- Calls with no object in flight may change their phase. -/
theorem PoolInv.flight_set (hI : PoolInv s) (hi : ∀ q ∈ s.inFlight, q.call ≠ i) :
    ∀ q ∈ s.inFlight, ∃ d, (s.setPhase i c phase).calls[q.call]? = some d ∧
      d.phase = .waiting q.obj := by
  intro q hq
  rw [calls_setPhase_of_ne (hi q hq)]
  exact hI.flight q hq

theorem PoolInv.got_set (hI : PoolInv s) (hc : s.calls[i]? = some c)
    (hp : (∀ p ∈ s.received, p.1 ≠ i) ∨ phase = .ended) :
    ∀ p ∈ s.received, ∃ d, (s.setPhase i c phase).calls[p.1]? = some d ∧
      (∃ old, p.2 = d.writeRequest old) ∧ (d.phase = .ended ∨ ∃ o, d.phase = .waiting o) := by
  intro p hmem
  by_cases hi : p.1 = i
  · rcases hp with hp | rfl
    · exact absurd hi (hp p hmem)
    · obtain ⟨d, hd, hold, -⟩ := hI.got p hmem
      rw [hi] at hd ⊢
      cases hc.symm.trans hd
      exact ⟨_, getElem?_set_self_of_some hc _, hold, Or.inl rfl⟩
  · rw [calls_setPhase_of_ne hi]
    exact hI.got p hmem

/-- The end of a call whose object is not in flight. -/
theorem PoolInv.putBack (hI : PoolInv s) (hc : s.calls[i]? = some c) (ho : c.phase.obj = some obj)
    (hi : ∀ q ∈ s.inFlight, q.call ≠ i) : PoolInv (s.putBack i c obj) := by
  obtain ⟨hnot, old, hold⟩ := hI.owned hc ho
  -- no call but the one that ends owned the object
  have hother : ∀ {k o : ℕ} {d : InvokeCall},
      (s.setPhase i c .ended).calls[k]? = some d → d.phase.obj = some o →
      s.calls[k]? = some d ∧ o ≠ obj := by
    intro k o d hd hdo
    rcases calls_setPhase hd with ⟨rfl, rfl⟩ | ⟨hk, hd⟩
    · cases hdo
    · refine ⟨hd, ?_⟩
      rintro rfl
      exact hk (hI.once hd hc hdo ho)
  constructor
  · exact List.nodup_append.2 ⟨hI.nodup, List.nodup_singleton _, by
      intro x hx y hy
      rw [List.mem_singleton] at hy
      rintro rfl
      exact hnot (hy ▸ hx)⟩
  · intro o hmem
    rcases List.mem_append.1 hmem with hmem | hmem
    · exact hI.made o hmem
    · rw [List.mem_singleton.1 hmem]
      exact (List.getElem?_eq_some_iff.1 hold).1
  · intro k o d hd hdo
    obtain ⟨hd, hne⟩ := hother hd hdo
    obtain ⟨hout, hold⟩ := hI.owned hd hdo
    refine ⟨fun hmem => ?_, hold⟩
    rcases List.mem_append.1 hmem with hmem | hmem
    · exact hout hmem
    · exact hne (List.mem_singleton.1 hmem)
  · intro k l o d e hd he hdo heo
    exact hI.once (hother hd hdo).1 (hother he heo).1 hdo heo
  · exact hI.flight_set hi
  · exact hI.sentOnce
  · exact hI.got_set hc (Or.inr rfl)

/-- A call takes an object that was in the pool, or a new one, and writes its request. -/
theorem PoolInv.taken (hI : PoolInv s) (hc : s.calls[i]? = some c) (hp : c.phase = .started)
    {pool : List ℕ} {heap : List DockerVMMessage} (old : DockerVMMessage)
    (hpool : pool.Sublist s.dockerVMMsgPool) (hout : obj ∉ pool)
    (hfresh : ∀ {k : ℕ} {d : InvokeCall}, s.calls[k]? = some d → d.phase.obj ≠ some obj)
    (hlen : s.heap.length ≤ heap.length) (hobj : heap[obj]? = some (c.writeRequest old))
    (hheap : ∀ o m, o ≠ obj → s.heap[o]? = some m → heap[o]? = some m) :
    PoolInv { s.setPhase i c (.prepared obj) with dockerVMMsgPool := pool, heap := heap } := by
  have hw : ∀ o, c.phase ≠ .waiting o := by rw [hp]; exact nofun
  have he : c.phase ≠ .ended := by rw [hp]; exact nofun
  constructor
  · exact hI.nodup.sublist hpool
  · exact fun o ho => lt_of_lt_of_le (hI.made o (hpool.subset ho)) hlen
  · intro k o d hd hdo
    rcases calls_setPhase hd with ⟨rfl, rfl⟩ | ⟨-, hd'⟩
    · cases hdo
      exact ⟨hout, old, hobj⟩
    · obtain ⟨hnot, old', hold⟩ := hI.owned hd' hdo
      refine ⟨fun hmem => hnot (hpool.subset hmem), old', hheap o _ ?_ hold⟩
      rintro rfl
      exact hfresh hd' hdo
  · intro k l o d e hd he hdo heo
    rcases calls_setPhase hd with ⟨rfl, rfl⟩ | ⟨-, hd'⟩
    · cases hdo
      rcases calls_setPhase he with ⟨rfl, -⟩ | ⟨-, he'⟩
      · rfl
      · exact absurd heo (hfresh he')
    · rcases calls_setPhase he with ⟨rfl, rfl⟩ | ⟨-, he'⟩
      · cases heo
        exact absurd hdo (hfresh hd')
      · exact hI.once hd' he' hdo heo
  · exact hI.flight_set (hI.not_inFlight hc hw)
  · exact hI.sentOnce
  · exact hI.got_set hc (Or.inl (hI.not_received hc he hw))

theorem PoolInv.enqueued (hI : PoolInv s) (hc : s.calls[i]? = some c) (hp : c.phase = .prepared obj) :
    PoolInv { s.setPhase i c (.waiting obj) with txSendCh := s.txSendCh ++ [⟨obj, i⟩] } := by
  have hw : ∀ o, c.phase ≠ .waiting o := by rw [hp]; exact nofun
  have he : c.phase ≠ .ended := by rw [hp]; exact nofun
  have hi := hI.not_inFlight hc hw
  have hr := hI.not_received hc he hw
  have hperm : (s.txSendCh ++ [Queued.mk obj i] ++ s.senders.filterMap Sender.holding).Perm
      (⟨obj, i⟩ :: s.inFlight) := by
    rw [List.append_assoc]
    exact List.perm_middle
  -- the owner of each object is as before
  have hsame : ∀ {k o : ℕ} {d : InvokeCall}, (s.setPhase i c (.waiting obj)).calls[k]? = some d →
      d.phase.obj = some o → ∃ d', s.calls[k]? = some d' ∧ d'.phase.obj = some o ∧
        d'.writeRequest = d.writeRequest := by
    intro k o d hd hdo
    rcases calls_setPhase hd with ⟨rfl, rfl⟩ | ⟨-, hd⟩
    · exact ⟨c, hc, by rw [hp]; exact hdo, rfl⟩
    · exact ⟨d, hd, hdo, rfl⟩
  constructor
  · exact hI.nodup
  · exact hI.made
  · intro k o d hd hdo
    obtain ⟨d', hd', hdo', hwrite⟩ := hsame hd hdo
    rw [← hwrite]
    exact hI.owned hd' hdo'
  · intro k l o d e hd he hdo heo
    obtain ⟨d', hd', hdo', -⟩ := hsame hd hdo
    obtain ⟨e', he', heo', -⟩ := hsame he heo
    exact hI.once hd' he' hdo' heo'
  · intro q hq
    rcases List.mem_cons.1 (hperm.subset hq) with rfl | hq
    · exact ⟨_, getElem?_set_self_of_some hc _, rfl⟩
    · exact hI.flight_set hi q hq
  · refine (((hperm.map Queued.call).append_right _).nodup_iff).2 ?_
    refine List.nodup_cons.2 ⟨fun hmem => ?_, hI.sentOnce⟩
    rcases List.mem_append.1 hmem with hmem | hmem
    · obtain ⟨q, hq, hqi⟩ := List.mem_map.1 hmem
      exact hi q hq hqi
    · obtain ⟨p, hp, hpi⟩ := List.mem_map.1 hmem
      exact hr p hp hpi
  · exact hI.got_set hc (Or.inl hr)

/-- What is in flight is moved, dropped or sent by the clients. -/
theorem PoolInv.clients (hI : PoolInv s) {txSendCh : List Queued} {senders : List Sender}
    {received : List (ℕ × DockerVMMessage)}
    (hflight : ∀ q ∈ txSendCh ++ senders.filterMap Sender.holding, q ∈ s.inFlight)
    (honce : ((txSendCh ++ senders.filterMap Sender.holding).map Queued.call ++
      received.map Prod.fst).Nodup)
    (hgot : ∀ p ∈ received, p ∈ s.received ∨
      ∃ q ∈ s.inFlight, p.1 = q.call ∧ s.heap[q.obj]? = some p.2) :
    PoolInv { s with senders := senders, txSendCh := txSendCh, received := received } where
  nodup := hI.nodup
  made := hI.made
  owned := hI.owned
  once := hI.once
  flight q hq := hI.flight q (hflight q hq)
  sentOnce := honce
  got p hp := by
    rcases hgot p hp with hp | ⟨q, hq, hcall, hmsg⟩
    · exact hI.got p hp
    · obtain ⟨c, hc, hphase⟩ := hI.flight q hq
      obtain ⟨-, old, hold⟩ := hI.owned hc (o := q.obj) (by rw [hphase]; rfl)
      refine ⟨c, hcall ▸ hc, ⟨old, ?_⟩, Or.inr ⟨_, hphase⟩⟩
      exact Option.some.inj (hmsg.symm.trans hold)

theorem PoolInv.step (hI : PoolInv s) (hok : SentBeforeEnd s a) (h : PoolStep s a s') : PoolInv s' := by
  cases h with
  | start args =>
    have hcalls : ∀ {k : ℕ} {d : InvokeCall} {x : InvokeCall}, x.phase = .started →
        (s.calls ++ [x])[k]? = some d → d.phase.obj ≠ none → s.calls[k]? = some d := by
      intro k d x hx hd hdo
      rcases getElem?_concat_some hd with ⟨-, rfl⟩ | hd
      · rw [hx] at hdo
        exact absurd rfl hdo
      · exact hd
    refine ⟨hI.nodup, hI.made, ?_, ?_, ?_, hI.sentOnce, ?_⟩
    · intro k o d hd hdo
      exact hI.owned (hcalls rfl hd (by rw [hdo]; exact nofun)) hdo
    · intro k l o d e hd he hdo heo
      exact hI.once (hcalls rfl hd (by rw [hdo]; exact nofun))
        (hcalls rfl he (by rw [heo]; exact nofun)) hdo heo
    · intro q hq
      obtain ⟨c, hc, hphase⟩ := hI.flight q hq
      exact ⟨c, getElem?_concat_of_some hc _, hphase⟩
    · intro p hp
      obtain ⟨c, hc, hrest⟩ := hI.got p hp
      exact ⟨c, getElem?_concat_of_some hc _, hrest⟩
  | @getNew i c hc hp =>
    refine hI.taken hc hp newRequestMsg (List.Sublist.refl _) ?_ ?_ ?_ ?_ ?_
    · exact fun hmem => lt_irrefl _ (hI.made _ hmem)
    · intro k d hd hdo
      obtain ⟨-, old, hold⟩ := hI.owned hd hdo
      exact lt_irrefl _ (List.getElem?_eq_some_iff.1 hold).1
    · rw [List.length_append]
      exact Nat.le_add_right _ _
    · exact List.getElem?_concat_length
    · exact fun o m _ hm => getElem?_concat_of_some hm _
  | @getPooled i c obj old hc hp hold hmem =>
    refine hI.taken hc hp old List.erase_sublist ?_ ?_ ?_ ?_ ?_
    · exact fun h => (List.Nodup.mem_erase_iff hI.nodup).1 h |>.1 rfl
    · exact fun hd hdo => (hI.owned hd hdo).1 hmem
    · rw [List.length_set]
    · exact getElem?_set_self_of_some hold _
    · intro o m ho hm
      rw [List.getElem?_set_ne (Ne.symm ho)]
      exact hm
  | @abort i c obj hc hp =>
    refine hI.putBack hc (by rw [hp]; rfl) (hI.not_inFlight hc ?_)
    rw [hp]
    exact nofun
  | enqueue hc hp => exact hI.enqueued hc hp
  | finish how hc hp => exact hI.putBack hc (by rw [hp]; rfl) hok
  | collect obj =>
    refine ⟨hI.nodup.erase obj, fun o ho => hI.made o (List.mem_of_mem_erase ho), ?_, hI.once,
      hI.flight, hI.sentOnce, hI.got⟩
    intro k o d hd hdo
    obtain ⟨hnot, hold⟩ := hI.owned hd hdo
    exact ⟨fun hmem => hnot (List.mem_of_mem_erase hmem), hold⟩
  | move _ hperm =>
    refine hI.clients (fun q hq => hperm.subset hq) ?_ fun p hp => Or.inl hp
    exact ((hperm.map Queued.call).append_right _).nodup_iff.2 hI.sentOnce
  | @sent j q msg senders hmsg hperm =>
    refine hI.clients (fun q' hq => hperm.symm.subset (List.mem_cons_of_mem _ hq)) ?_ fun p hp => ?_
    · rw [List.map_append (f := Prod.fst), ← List.append_assoc]
      refine (List.perm_append_singleton q.call _).nodup_iff.2 ?_
      exact ((hperm.map Queued.call).append_right _).nodup_iff.1 hI.sentOnce
    · rcases List.mem_append.1 hp with hp | hp
      · exact Or.inl hp
      · rw [List.mem_singleton.1 hp]
        exact Or.inr ⟨q, hperm.symm.subset List.mem_cons_self, rfl, hmsg⟩
  | @lost j res q senders hperm =>
    refine hI.clients (fun q' hq => hperm.symm.subset (List.mem_cons_of_mem _ hq)) ?_
      fun p hp => Or.inl hp
    have hnd := ((hperm.map Queued.call).append_right _).nodup_iff.1 hI.sentOnce
    exact (List.nodup_cons.1 hnd).2

theorem PoolInv.singleOwner (hI : PoolInv s) : SingleOwner s := by
  intro q hq
  obtain ⟨c, hc, hphase⟩ := hI.flight q hq
  have hobj : c.phase.obj = some q.obj := by rw [hphase]; rfl
  exact ⟨(hI.owned hc hobj).1, ⟨c, hc, hobj⟩, fun i d hd hdo => hI.once hd hc hdo hobj⟩

/-- A call that ends too early puts an object into the pool that is in flight. -/
theorem PoolInv.not_singleOwner (hI : PoolInv s) (hok : ¬ SentBeforeEnd s a) (h : PoolStep s a s') :
    ¬ SingleOwner s' := by
  cases h with
  | @finish i c obj how hc hp =>
    unfold SentBeforeEnd at hok
    push Not at hok
    obtain ⟨q, hq, rfl⟩ := hok
    obtain ⟨d, hd, hphase⟩ := hI.flight q hq
    cases hc.symm.trans hd
    cases hp.symm.trans hphase
    intro hsingle
    exact (hsingle q hq).1 (List.mem_append_right _ List.mem_cons_self)
  | move hne _ =>
    cases a with
    | finish i how => exact absurd rfl (hne i how)
    | _ => exact absurd trivial hok
  | _ => exact absurd trivial hok

end

/-- **Requests have a single owner**, if no call ends before its request was sent: what
    is queued or being sent is not in the pool and belongs to the call that queued it;
    the engine gets what that call wrote, with its key, and from each call once.  A step
    keeps the ownership exactly if it meets the condition. -/
theorem request_single_owner {s : RequestPool} (h : Reach step SentBeforeEnd init s) :
    SingleOwner s ∧
    (∀ p ∈ s.received, ∃ c, s.calls[p.1]? = some c ∧ p.2.txId = c.uniqueTxKey) ∧
    (s.received.map Prod.fst).Nodup ∧
    ∀ a s', step s a = some s' → (SingleOwner s' ↔ SentBeforeEnd s a) := by
  have hI : PoolInv s :=
    h.inv (I := PoolInv) poolInv_init fun hinv hok hstep => hinv.step hok (step_case hstep)
  refine ⟨hI.singleOwner, fun p hp => ?_, (List.nodup_append.1 hI.sentOnce).2.1, fun a s' hstep => ?_⟩
  · obtain ⟨c, hc, ⟨old, hold⟩, -⟩ := hI.got p hp
    exact ⟨c, hc, by rw [hold]; rfl⟩
  · constructor
    · intro hsingle
      by_contra hok
      exact hI.not_singleOwner hok (step_case hstep) hsingle
    · intro hok
      exact (hI.step hok (step_case hstep)).singleOwner

def sampleArgs (txId : String) : InvokeArgs := ⟨"chain1", txId, "fact", "v1", "save", 0, 0⟩

/-- The object of the first call is used again after its request was sent. -/
theorem request_single_owner_reused : ∃ s, Reach step SentBeforeEnd init s ∧
    (s.received.map (·.2.txId) = ["tx1#1"] ∧ s.inFlight = [⟨0, 1⟩]) ∧ SingleOwner s := by
  obtain ⟨s, hs, hP⟩ := exists_reach step SentBeforeEnd init
    (fun s => decide (s.received.map (·.2.txId) = ["tx1#1"] ∧ s.inFlight = [⟨0, 1⟩]))
    [.connect, .start (sampleArgs "tx1"), .get 0 none, .enqueue 0, .take 0, .send 0 .sent,
      .finish 0 .response, .start (sampleArgs "tx2"), .get 1 (some 0), .enqueue 1]
    (by decide)
  exact ⟨s, hs, of_decide_eq_true hP, (request_single_owner hs).1⟩

/-- The first call times out while its request is queued.  The second call gets the same
    object, and the engine receives the request of the second call twice. -/
theorem request_sent_twice : ∃ s, Reach step Free init s ∧
    (s.received.map fun p => (p.1, p.2.txId)) = [(0, "tx2#2"), (1, "tx2#2")] := by
  obtain ⟨s, hs, hP⟩ := exists_reach step Free init
    (fun s => decide ((s.received.map fun p => (p.1, p.2.txId)) = [(0, "tx2#2"), (1, "tx2#2")]))
    [.connect, .start (sampleArgs "tx1"), .get 0 none, .enqueue 0, .finish 0 .timeout,
      .start (sampleArgs "tx2"), .get 1 (some 0), .enqueue 1, .take 0, .send 0 .sent, .take 0,
      .send 0 .sent]
    (by decide)
  exact ⟨s, hs, of_decide_eq_true hP⟩

end RequestPool

end VmEngine
