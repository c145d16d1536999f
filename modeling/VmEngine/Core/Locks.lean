/-
  The locks of the process managers and the event channels of the request groups.

  A manager puts its responses while it holds `pm.lock`, into the `eventCh` of a group,
  which has room for 100 events.  The only goroutine that takes events from there waits for
  the same lock whenever a turn comes to `getProcesses`.  So a group whose `eventCh` is full
  can wait for a manager that waits for the group (`CyclicWait`).

  Here a manager holds its lock while a handler runs or a message is in its `outbox`, and
  each response is put in a step of its own.  The turns of a group are cut at the calls of
  `getProcesses`.  The processes and the scheduler are the environment, as in `WakeSys`.

  * `no_cyclic_wait`: there is no cyclic wait as long as the events of a group that calls a
    manager, with the responses that the manager has still to put, leave room for what the
    next step can add, and a group comes to a lock only when there is room.
  * `Overload.of_turn`, `Overload.reach` and `Overload.cyclicWait`: a group that comes to the
    lock without that room never gets it, and a cyclic wait follows.
-/
import VmEngine.Core.GroupCalls
import VmEngine.Core.GroupFetch
import VmEngine.Core.Wakeup
import VmEngine.Lib.Indexed

namespace VmEngine

/-- `_requestGroupEventChSize` -/
def requestGroupEventChSize : ℕ := 100

/-- A request group, with the calls of `getProcesses` that its goroutine has still to make. -/
structure Member where
  group : RequestGroup
  calls : List Bool
deriving DecidableEq, Repr

/-- The goroutine of the group has come to the lock of the manager, in `getProcesses`. -/
def Member.Calls (m : Member) (isOrig : Bool) : Prop :=
  m.calls.head? = some isOrig ∧ m.group.Asks isOrig

instance (m : Member) (isOrig : Bool) : Decidable (m.Calls isOrig) :=
  inferInstanceAs (Decidable (_ ∧ _))

/-- The responses for the group `s` among the messages of a manager. -/
def respsFor (s : String) (outs : List ManagerOut) : List GroupEvent :=
  outs.filterMap (WakeSys.respFor s)

namespace ProcessManager

/-- A handler or `ChangeProcessState` holds `pm.lock`. -/
def Locked (pm : ProcessManager) : Prop := pm.task.isSome = true ∨ pm.outbox ≠ []

instance (pm : ProcessManager) : Decidable pm.Locked := inferInstanceAs (Decidable (_ ∨ _))

/-- The steps that begin with `pm.lock.Lock`, or go on when all jobs have returned. -/
def Action.Locks : Action → Bool
  | .putMsg _ | .expire | .job _ _ => false
  | _ => true

/-! ## How many responses a step sends -/

/-- The most responses for one group that a step of a job puts. -/
def JobEvent.sends : JobEvent → ℕ
  | .nameNew | .cacheNew | .release _ _ => 1
  | .nameChange _ _ => 2
  | .recache => 3
  | _ => 0

/-- The most responses for one group that a step puts. -/
def Action.sends : Action → ℕ
  | .recvEvent | .advance | .changeProcessState _ _ _ => 1
  | .job _ e => e.sends
  | _ => 0

section
variable {pm pm' pm'' : ProcessManager} {m n : ℕ}

/-- At most `n` responses for each group are added to the outbox. -/
def Sends (n : ℕ) (pm pm' : ProcessManager) : Prop :=
  ∃ new : List ManagerOut, pm'.outbox = pm.outbox ++ new ∧ ∀ s, (respsFor s new).length ≤ n

theorem sends_of_eq (h : pm'.outbox = pm.outbox) : Sends n pm pm' :=
  ⟨[], by rw [h, List.append_nil], fun _ => Nat.zero_le _⟩

theorem Sends.trans (h : Sends m pm pm') (h' : Sends n pm' pm'') : Sends (m + n) pm pm'' := by
  obtain ⟨new, heq, hle⟩ := h
  obtain ⟨new', heq', hle'⟩ := h'
  refine ⟨new ++ new', by rw [heq', heq, List.append_assoc], fun s => ?_⟩
  have := hle s
  have := hle' s
  simp only [respsFor, List.filterMap_append, List.length_append] at *
  omega

theorem Sends.mono (h : Sends m pm pm') (hle : m ≤ n) : Sends n pm pm' := by
  obtain ⟨new, heq, hnew⟩ := h
  exact ⟨new, heq, fun s => (hnew s).trans hle⟩

variable (found : String → Bool)

theorem sends_sendProcessReadyResp (pm : ProcessManager) (k : ℤ) (key : RequestGroupKey) :
    Sends 1 pm (sendProcessReadyResp found pm k key).1 := by
  unfold sendProcessReadyResp
  split_ifs
  · exact ⟨_, rfl, fun s => List.length_filterMap_le _ _⟩
  · exact sends_of_eq rfl

theorem sends_removeFromWaitingGroup (pm : ProcessManager) (key : RequestGroupKey) :
    Sends 1 pm (removeFromWaitingGroup found pm key) :=
  sends_sendProcessReadyResp found
    { pm with waitingRequestGroups := pm.waitingRequestGroups.filter (· ≠ key) } 0 key

theorem sends_removeFromProcessGroup (pm : ProcessManager) (key : RequestGroupKey)
    (name : String) : Sends 1 pm (removeFromProcessGroup found pm key name) := by
  unfold removeFromProcessGroup
  split
  · exact sends_of_eq rfl
  · dsimp only
    split_ifs
    · exact sends_removeFromWaitingGroup found
        { pm with processGroups := pm.processGroups.remove key.groupKey } key
    · exact sends_of_eq rfl

theorem sends_removeProcessFromCache (pm : ProcessManager) (key : RequestGroupKey)
    (name : String) : Sends 1 pm (removeProcessFromCache found pm key name) :=
  sends_removeFromProcessGroup found
    { pm with
      busyProcesses := pm.busyProcesses.remove name
      idleProcesses := pm.idleProcesses.remove name } key name

theorem sends_addProcessToIdle (pm : ProcessManager) (name : String) (pid : ℕ)
    (key : RequestGroupKey) : Sends 1 pm (addProcessToIdle found pm name pid key) := by
  unfold addProcessToIdle
  dsimp only
  by_cases hk : key ∈ pm.waitingRequestGroups
  · rw [if_pos hk]
    have h := sends_removeFromWaitingGroup found
      { pm with idleProcesses := pm.idleProcesses.put name pid } key
    split_ifs <;> exact h
  · rw [if_neg hk]
    split_ifs <;> exact sends_of_eq rfl

variable {found}

theorem sends_closeSandbox {key : RequestGroupKey} {name : String}
    (h : closeSandbox found pm key name = .ok pm') : Sends 1 pm pm' := by
  unfold closeSandbox at h
  split at h
  · cases h
  · rename_i pid _
    cases h
    have hfree : Sends 0 pm { pm with outbox := pm.outbox ++ [.freeUser pid] } :=
      ⟨[.freeUser pid], rfl, fun _ => Nat.le_refl 0⟩
    exact hfree.trans (sends_removeProcessFromCache found _ key name)

theorem sends_moveInCache (pm : ProcessManager) (c : Change) :
    Sends 1 pm (moveInCache found pm c) :=
  sends_removeProcessFromCache found pm c.oldKey c.oldName

theorem sends_recache (pm : ProcessManager) (t : Task) (c : Change) :
    Sends 3 pm (recache found pm t c) := by
  have hresp := sends_sendProcessReadyResp found pm 1 c.key
  unfold recache
  split
  · exact (sends_moveInCache pm c).mono (by omega)
  · dsimp only
    split_ifs
    · exact (hresp.trans (sends_removeFromWaitingGroup found _ _)).trans (sends_moveInCache _ c)
    · exact hresp.mono (by omega)

theorem sends_meetIdle (pm : ProcessManager) (t : Task) (key : RequestGroupKey) :
    Sends 2 pm (meetIdle found pm t key) := by
  unfold meetIdle
  split
  · exact sends_of_eq rfl
  · exact (sends_removeFromWaitingGroup found pm key).trans
      (sends_sendProcessReadyResp found _ 0 key)

theorem sends_cacheNew (pm : ProcessManager) (t : Task) (key : RequestGroupKey) (name : String)
    (pid : ℕ) : Sends 1 pm (cacheNew found pm t key name pid) := by
  unfold cacheNew
  split
  · exact sends_of_eq rfl
  · exact sends_removeFromWaitingGroup found pm key

theorem sends_nameNew (pm : ProcessManager) (t : Task) (key : RequestGroupKey) :
    Sends 1 pm (nameNew found pm t key).1 := by
  unfold nameNew
  dsimp only
  cases t with
  | allocateNew => split_ifs <;> exact sends_sendProcessReadyResp found pm 1 key
  | _ => split_ifs <;> exact sends_of_eq rfl

theorem sends_runJob {t t' : Task} {j : Job} {e : JobEvent} {next : Option Job}
    (h : runJob found pm t j e = .ok (pm', t', next)) : Sends e.sends pm pm' := by
  cases runJob_case h with
  | nameNew => exact sends_nameNew pm t _
  | cacheNew => exact sends_cacheNew pm t _ _ _
  | meet _ => exact sends_meetIdle pm t _
  | recache => exact sends_recache pm t _
  | release hc => exact sends_closeSandbox hc
  | _ => exact sends_of_eq rfl

theorem sends_finishTask (pm : ProcessManager) (t : Task) : Sends 1 pm (finishTask found pm t) := by
  unfold finishTask
  split
  · exact sends_of_eq rfl
  · unfold finishGetProcessReq
    dsimp only
    split_ifs
    · exact sends_of_eq rfl
    · exact sends_of_eq rfl
    · exact sends_sendProcessReadyResp found { pm with task := none } _ _
  · exact sends_of_eq rfl
  · exact sends_of_eq rfl
  · exact sends_of_eq rfl

theorem sends_handleGetProcessReq {msg : GetProcessReqMsg}
    (h : handleGetProcessReq found pm msg = .ok pm') : Sends 1 pm pm' := by
  unfold handleGetProcessReq at h
  dsimp only at h
  split_ifs at h
  · cases h; exact sends_removeFromWaitingGroup found pm msg.key
  · cases h; exact sends_of_eq rfl
  · cases h; exact sends_of_eq rfl

theorem sends_changeProcessState {name : String} {toBusy : Bool} {key : RequestGroupKey}
    (h : changeProcessState found pm name toBusy key = some pm') : Sends 1 pm pm' := by
  unfold changeProcessState at h
  split_ifs at h
  · obtain ⟨pid, -, rfl⟩ := Option.map_eq_some_iff.1 h
    exact sends_of_eq rfl
  · obtain ⟨pid, -, rfl⟩ := Option.map_eq_some_iff.1 h
    exact sends_addProcessToIdle found pm name pid key

theorem sends_act {a : Action} (h : act found pm a = .ok pm') : Sends a.sends pm pm' := by
  cases act_case h with
  | request _ _ h =>
    have hs := sends_handleGetProcessReq h
    exact hs
  | exit _ _ hc =>
    have hs := sends_closeSandbox hc
    exact hs
  | job h =>
    obtain ⟨t, jobs, j, pm₁, t₁, next, -, -, hr, rfl⟩ := stepJob_run h
    have hs := sends_runJob hr
    exact hs
  | advance _ => exact sends_finishTask pm _
  | changed _ hc => exact sends_changeProcessState hc
  | _ => exact sends_of_eq rfl

end

end ProcessManager

/-- The request groups by their joined key, with their goroutines, and the two managers. -/
structure LockSys where
  groups : LinkedMap String Member
  mgr : Bool → ProcessManager

namespace LockSys

/-- Both managers as `NewProcessManager` makes them, and no groups. -/
def new (maxProcessNum releaseNum : Bool → ℤ) : LockSys where
  groups := .empty
  mgr o := .new (maxProcessNum o) (releaseNum o) o

/-- `GetRequestGroup` finds a group. -/
def found (sys : LockSys) (s : String) : Bool := (sys.groups.get? s).isSome

/-- The processes of the contract, as `GetProcessNumByContractKey` counts them. -/
def processNum (sys : LockSys) (o : Bool) (s : String) : ℕ :=
  (((sys.mgr o).processGroups.get? s).map LinkedMap.size).getD 0

/-- The numbers that `getProcesses` reads from the manager. -/
def Sees (sys : LockSys) (o : Bool) (s : String) (counts : ProcessCounts) : Prop :=
  counts.processNum = sys.processNum o s ∧ counts.readyOrBusyProcessNum ≤ counts.processNum

instance (sys : LockSys) (o : Bool) (s : String) (counts : ProcessCounts) :
    Decidable (sys.Sees o s counts) := inferInstanceAs (Decidable (_ ∧ _))

inductive Action where
  /-- the scheduler creates the group of a contract -/
  | newGroup (key : RequestGroupKey)
  /-- the scheduler, a process or the runtime, on the group `s` -/
  | env (s : String) (a : RequestGroup.Action)
  /-- the group takes a message from `txCh` -/
  | recvTx (s : String) (now : ℤ)
  /-- the group takes an event -/
  | recvEvent (s : String)
  /-- the group takes the tick of its timer -/
  | recvTimer (s : String)
  /-- the next call of `getProcesses` in the turn of the group -/
  | getProcesses (s : String) (counts : ProcessCounts)
  /-- a step of a manager -/
  | manager (isOrig : Bool) (a : ProcessManager.Action)
  /-- the message at position `i` of the outbox is put -/
  | send (isOrig : Bool) (i : ℕ)

/-- What the environment does to a group; a report of a bad contract needs room. -/
def EnvOk (g : RequestGroup) : RequestGroup.Action → Prop
  | .putEvent (.badContract _) => g.eventCh.length < requestGroupEventChSize
  | .putTx _ | .expire | .take _ => True
  | _ => False

instance (g : RequestGroup) : DecidablePred (EnvOk g)
  | .putEvent (.badContract _) =>
    inferInstanceAs (Decidable (g.eventCh.length < requestGroupEventChSize))
  | .putTx _ | .expire | .take _ => instDecidableTrue
  | .putEvent (.processResp _) | .recvTx _ _ | .recvEvent _ | .recvTimer => instDecidableFalse

/-- A part of a turn: the group, what it puts and the calls that are left. -/
def putTurn (sys : LockSys) (s : String) (b : RequestGroup × List GroupOut × List Bool) :
    LockSys where
  groups := sys.groups.put s ⟨b.1, b.2.2⟩
  mgr o := { sys.mgr o with eventCh := (sys.mgr o).eventCh ++ b.2.1.filterMap (WakeSys.reqFor o) }

/-- A message of the outbox is put; the send to a full `eventCh` blocks. -/
def putMsg (sys : LockSys) (o : Bool) (i : ℕ) : Option LockSys :=
  let rest := { sys.mgr o with outbox := (sys.mgr o).outbox.eraseIdx i }
  match (sys.mgr o).outbox[i]? with
  | some (.resp key msg) =>
    match sys.groups.get? key.groupKey with
    | some m =>
      if m.group.eventCh.length < requestGroupEventChSize then
        some
          { groups := sys.groups.put key.groupKey
              { m with group :=
                { m.group with eventCh := m.group.eventCh ++ [.processResp msg] } }
            mgr := Function.update sys.mgr o rest }
      else none
    | none => none
  | some (.freeUser _) => some { sys with mgr := Function.update sys.mgr o rest }
  | none => none

/-- One step of the system.  A call that panics ends the run. -/
def step (C : ChainConsts) (sys : LockSys) : Action → Option LockSys
  | .newGroup key =>
    if sys.found key.groupKey then none
    else some { sys with groups := sys.groups.put key.groupKey ⟨.new key, []⟩ }
  | .env s a =>
    match sys.groups.get? s with
    | none => none
    | some m =>
      if EnvOk m.group a then
        (m.group.act C a).toOption.map fun r =>
          { sys with groups := sys.groups.put s { m with group := r.1 } }
      else none
  | .recvTx s now =>
    match sys.groups.get? s with
    | some ⟨g, []⟩ =>
      match g.txCh with
      | [] => none
      | msg :: rest =>
        (RequestGroup.beginTxCh C now { g with txCh := rest } msg).toOption.map (sys.putTurn s)
    | _ => none
  | .recvEvent s =>
    match sys.groups.get? s with
    | some ⟨g, []⟩ =>
      match g.eventCh with
      | [] => none
      | e :: rest => some (sys.putTurn s (RequestGroup.beginEventCh { g with eventCh := rest } e))
    | _ => none
  | .recvTimer s =>
    match sys.groups.get? s with
    | some ⟨g, []⟩ => (g.act C .recvTimer).toOption.map fun r => sys.putTurn s (r.1, r.2, [])
    | _ => none
  | .getProcesses s counts =>
    match sys.groups.get? s with
    | some ⟨g, o :: os⟩ =>
      if g.Asks o → ¬ (sys.mgr o).Locked ∧ sys.Sees o s counts then
        let r := RequestGroup.getProcesses (fun _ => counts) g o
        some (sys.putTurn s (r.1, r.2, os))
      else none
    | _ => none
  | .manager o a =>
    if WakeSys.ManagerOk a = true ∧ (a.Locks = true → (sys.mgr o).outbox = []) then
      ((sys.mgr o).act sys.found a).toOption.map fun pm =>
        { sys with mgr := Function.update sys.mgr o pm }
    else none
  | .send o i => sys.putMsg o i

/-! ## Cyclic waits -/

/-- The events of the group, with the responses that the manager has still to put. -/
def load (sys : LockSys) (o : Bool) (s : String) (m : Member) : ℕ :=
  m.group.eventCh.length + (respsFor s (sys.mgr o).outbox).length

/-- The manager holds its lock and cannot put a response, since the `eventCh` of the group
    is full; and the goroutine of the group waits for the lock. -/
structure CyclicWait (sys : LockSys) (s : String) (o : Bool) (m : Member) : Prop where
  member : sys.groups.get? s = some m
  calls : m.Calls o
  resps : respsFor s (sys.mgr o).outbox ≠ []
  full : requestGroupEventChSize ≤ m.group.eventCh.length

/-- The group whose goroutine makes the step. -/
def Action.turnOf : Action → Option String
  | .recvTx s _ | .recvEvent s | .recvTimer s | .getProcesses s _ => some s
  | _ => none

/-- The most that a step adds to the load of the group `s` at the manager `o`. -/
def adds (sys : LockSys) (o : Bool) (s : String) : Action → ℕ
  | .env s' (.putEvent _) => if s' = s then 1 else 0
  | .manager o' a => if o' = o then a.sends else 0
  | .send o' i =>
    if o' = o then 0 else (((sys.mgr o').outbox[i]?).bind (WakeSys.respFor s)).toList.length
  | _ => 0

/-- What a turn takes from the events of its group. -/
def Action.takes : Action → ℕ
  | .recvEvent _ => 1
  | _ => 0

/-- The turn of the group comes to the lock of the manager `o`. -/
def Comes (C : ChainConsts) (m : Member) (o : Bool) : Action → Prop
  | .recvTx _ _ =>
    match m.group.txCh with
    | [] => False
    | msg :: rest => { m.group with txCh := rest }.TxCalls C msg o
  | .recvEvent _ =>
    match m.group.eventCh with
    | [] => False
    | e :: rest => { m.group with eventCh := rest }.EventCalls e o
  | .getProcesses _ _ => m.calls.tail.head? = some o ∧ m.group.Asks o
  | _ => False

instance (C : ChainConsts) (m : Member) (o : Bool) : DecidablePred (Comes C m o)
  | .recvTx _ _ =>
    match h : m.group.txCh with
    | [] => .isFalse (by simp [Comes, h])
    | msg :: rest => decidable_of_iff ({ m.group with txCh := rest }.TxCalls C msg o)
        (by simp [Comes, h])
  | .recvEvent _ =>
    match h : m.group.eventCh with
    | [] => .isFalse (by simp [Comes, h])
    | e :: rest => decidable_of_iff ({ m.group with eventCh := rest }.EventCalls e o)
        (by simp [Comes, h])
  | .getProcesses _ _ => inferInstanceAs (Decidable (_ ∧ _))
  | .newGroup _ | .env _ _ | .recvTimer _ | .manager _ _ | .send _ _ => instDecidableFalse

/-- The step adds to the load of the group while it calls the manager `o`, or it is a turn
    of the group that comes to the lock of `o`. -/
def Concerns (C : ChainConsts) (sys : LockSys) (a : Action) (s : String) (m : Member) (o : Bool) :
    Prop :=
  m.Calls o ∧ 0 < sys.adds o s a ∨ a.turnOf = some s ∧ Comes C m o a

instance (C : ChainConsts) (sys : LockSys) (a : Action) (s : String) (m : Member) (o : Bool) :
    Decidable (sys.Concerns C a s m o) := inferInstanceAs (Decidable (_ ∨ _))

/-- There is room for what the step adds, and for the responses that the manager `o` has
    still to put when the group comes to its lock. -/
def RoomOk (C : ChainConsts) (sys : LockSys) (a : Action) : Prop :=
  ∀ e ∈ sys.groups.entries, ∀ o, sys.Concerns C a e.1 e.2 o →
    sys.load o e.1 e.2 + sys.adds o e.1 a ≤ requestGroupEventChSize + a.takes

instance (C : ChainConsts) : DecidableRel (RoomOk C) := fun sys _ =>
  inferInstanceAs (Decidable (∀ e ∈ sys.groups.entries, ∀ _, _))

/-! ## What a step does -/

section
variable {C : ChainConsts} {sys sys' : LockSys} {a : Action} {s : String} {m m' : Member} {o : Bool}

/-- The steps of the system.  Those of a group's own goroutine are one case: it takes what
    `takes` says, it gets a lock only when the manager does not hold it, and it comes to the
    locks that `Comes` says. -/
inductive StepCase (C : ChainConsts) (sys : LockSys) : Action → LockSys → Prop
  | newGroup {key : RequestGroupKey} : sys.groups.get? key.groupKey = none →
      StepCase C sys (.newGroup key)
        { sys with groups := sys.groups.put key.groupKey ⟨.new key, []⟩ }
  | env {s : String} {m : Member} {ga : RequestGroup.Action} {r : RequestGroup × List GroupOut} :
      sys.groups.get? s = some m → EnvOk m.group ga → m.group.act C ga = .ok r →
      StepCase C sys (.env s ga) { sys with groups := sys.groups.put s { m with group := r.1 } }
  | turn {a : Action} {s : String} {m : Member} {b : RequestGroup × List GroupOut × List Bool} :
      sys.groups.get? s = some m → a.turnOf = some s →
      b.1.eventCh.length + a.takes = m.group.eventCh.length →
      (∀ o, m.Calls o → ¬ (sys.mgr o).Locked) →
      (∀ o, b.2.2.head? = some o → b.1.Asks o → Comes C m o a) →
      StepCase C sys a (sys.putTurn s b)
  | manager {o : Bool} {ma : ProcessManager.Action} {pm : ProcessManager} :
      (sys.mgr o).act sys.found ma = .ok pm →
      StepCase C sys (.manager o ma) { sys with mgr := Function.update sys.mgr o pm }
  | resp {o : Bool} {i : ℕ} {key : RequestGroupKey} {msg : GetProcessRespMsg} {m : Member} :
      (sys.mgr o).outbox[i]? = some (.resp key msg) → sys.groups.get? key.groupKey = some m →
      m.group.eventCh.length < requestGroupEventChSize →
      StepCase C sys (.send o i)
        { groups := sys.groups.put key.groupKey
            { m with group := { m.group with eventCh := m.group.eventCh ++ [.processResp msg] } }
          mgr := Function.update sys.mgr o
            { sys.mgr o with outbox := (sys.mgr o).outbox.eraseIdx i } }
  | freeUser {o : Bool} {i pid : ℕ} : (sys.mgr o).outbox[i]? = some (.freeUser pid) →
      StepCase C sys (.send o i)
        { sys with
          mgr := Function.update sys.mgr o
            { sys.mgr o with outbox := (sys.mgr o).outbox.eraseIdx i } }

/-- A turn of the group with no calls left. -/
theorem StepCase.begin {g : RequestGroup} {b : RequestGroup × List GroupOut × List Bool}
    (hm : sys.groups.get? s = some ⟨g, []⟩) (ht : a.turnOf = some s)
    (hev : b.1.eventCh.length + a.takes = g.eventCh.length)
    (hcomes : ∀ o, b.2.2.head? = some o → b.1.Asks o → Comes C ⟨g, []⟩ o a) :
    StepCase C sys a (sys.putTurn s b) := by
  refine .turn hm ht hev (fun o hc => ?_) hcomes
  cases hc.1

theorem putMsg_case {i : ℕ} (h : sys.putMsg o i = some sys') : StepCase C sys (.send o i) sys' := by
  unfold putMsg at h
  dsimp only at h
  split at h
  · rename_i key msg hi
    split at h
    · rename_i m hm
      split_ifs at h with hlen
      cases h
      exact .resp hi hm hlen
    · cases h
  · rename_i pid hi
    cases h
    exact .freeUser hi
  · cases h

/-- Every step is one of these. -/
theorem step_case (h : step C sys a = some sys') : StepCase C sys a sys' := by
  cases a with
  | newGroup key =>
    simp only [step] at h
    split_ifs at h with hf
    cases h
    exact .newGroup (by simpa [found] using hf)
  | env s ga =>
    simp only [step] at h
    split at h
    · cases h
    · rename_i m hm
      split_ifs at h with hok
      obtain ⟨r, hr, rfl⟩ := Option.map_eq_some_iff.1 h
      exact .env hm hok (Go.toOption_eq_some.1 hr)
  | recvTx s now =>
    simp only [step] at h
    split at h
    · rename_i g hm
      split at h
      · cases h
      · rename_i msg rest htx
        obtain ⟨⟨g', outs, calls⟩, hb, rfl⟩ := Option.map_eq_some_iff.1 h
        have hb := Go.toOption_eq_some.1 hb
        refine .begin hm rfl ?_ fun o hc ha => ?_
        · rw [RequestGroup.eventCh_beginTxCh hb]
          rfl
        · simp only [Comes, htx]
          exact RequestGroup.beginTxCh_calls hb hc ha
    · cases h
  | recvEvent s =>
    simp only [step] at h
    split at h
    · rename_i g hm
      split at h
      · cases h
      · rename_i e rest hrest
        cases h
        refine .begin hm rfl ?_ fun o hc ha => ?_
        · rw [RequestGroup.eventCh_beginEventCh, hrest]
          rfl
        · simp only [Comes, hrest]
          exact RequestGroup.beginEventCh_calls hc ha
    · cases h
  | recvTimer s =>
    simp only [step] at h
    split at h
    · rename_i g hm
      obtain ⟨⟨g', outs⟩, hr, rfl⟩ := Option.map_eq_some_iff.1 h
      have hev := (RequestGroup.act_chans (Go.toOption_eq_some.1 hr)).2
      refine .begin hm rfl (by rw [hev]; rfl) fun o hc => ?_
      cases hc
    · cases h
  | getProcesses s counts =>
    simp only [step] at h
    split at h
    · rename_i g o os hm
      split_ifs at h with hlock
      cases h
      have hev := (RequestGroup.sameChans_getProcesses (fun _ => counts) g o).eventCh
      refine .turn hm rfl (by rw [hev]; rfl) (fun o' hc => ?_) fun o' hc ha => ?_
      · obtain rfl : o = o' := Option.some.inj hc.1
        exact (hlock hc.2).1
      · exact ⟨hc, RequestGroup.asks_of_getProcesses ha⟩
    · cases h
  | manager o ma =>
    simp only [step] at h
    split_ifs at h
    obtain ⟨pm, hpm, rfl⟩ := Option.map_eq_some_iff.1 h
    exact .manager (Go.toOption_eq_some.1 hpm)
  | send o i => exact putMsg_case h

/-! ## What a step does to a group -/

/-- The channel does not grow beyond its size. -/
def Fits (g g' : RequestGroup) : Prop :=
  g.eventCh.length ≤ requestGroupEventChSize → g'.eventCh.length ≤ requestGroupEventChSize

inductive MemberStep (C : ChainConsts) (sys sys' : LockSys) (a : Action) (s : String)
    (m m' : Member) : Prop
  /-- another goroutine -/
  | other : a.turnOf ≠ some s → m'.calls = m.calls → (∀ o, m'.group.Asks o ↔ m.group.Asks o) →
      Fits m.group m'.group →
      (∀ o, sys.load o s m ≤ sys'.load o s m' ∧ sys'.load o s m' ≤ sys.load o s m + sys.adds o s a) →
      MemberStep C sys sys' a s m m'
  /-- its own; it gets the lock only when the manager does not hold it -/
  | turn : a.turnOf = some s → m'.group.eventCh.length + a.takes = m.group.eventCh.length →
      (∀ o, sys'.load o s m' + a.takes = sys.load o s m) →
      (∀ o, m.Calls o → ¬ (sys.mgr o).Locked) → (∀ o, m'.Calls o → Comes C m o a) →
      MemberStep C sys sys' a s m m'

/-- A step that leaves the group and the outboxes alone. -/
theorem MemberStep.same (ht : a.turnOf ≠ some s)
    (hout : ∀ o, (sys'.mgr o).outbox = (sys.mgr o).outbox) : MemberStep C sys sys' a s m m := by
  refine .other ht rfl (fun _ => Iff.rfl) id fun o => ?_
  simp only [load, hout]
  omega

theorem env_member (sys : LockSys) (s : String) {g : RequestGroup} {ga : RequestGroup.Action}
    {r : RequestGroup × List GroupOut} (hok : EnvOk g ga) (h : g.act C ga = .ok r) :
    (∀ o, r.1.Asks o ↔ g.Asks o) ∧ Fits g r.1 ∧ g.eventCh.length ≤ r.1.eventCh.length ∧
      ∀ o, r.1.eventCh.length ≤ g.eventCh.length + sys.adds o s (.env s ga) := by
  obtain ⟨g', outs⟩ := r
  cases RequestGroup.act_case h with
  | putTx | expire => exact ⟨fun _ => Iff.rfl, id, le_rfl, fun _ => le_rfl⟩
  | putEvent e =>
    cases e with
    | processResp msg => exact absurd hok not_false
    | badContract msg =>
      have hlt : g.eventCh.length < requestGroupEventChSize := hok
      refine ⟨fun _ => Iff.rfl, fun _ => ?_, ?_, fun o => ?_⟩
      · simpa using hlt
      · simp
      · simp [adds]
  | take _ =>
    refine ⟨fun o' => ?_, by simp [Fits], by simp, fun o' => by simp⟩
    simp only [RequestGroup.Asks, RequestGroup.controller_setController,
      RequestGroup.contractState_setController]
    split_ifs with ho
    · rw [ho]
    · rfl
  | recvTx | ready | bad | timeout => exact absurd hok not_false

theorem respsFor_append (s : String) (outs outs' : List ManagerOut) :
    respsFor s (outs ++ outs') = respsFor s outs ++ respsFor s outs' := List.filterMap_append ..

theorem manager_member {ma : ProcessManager.Action} {pm : ProcessManager}
    (h : (sys.mgr o).act sys.found ma = .ok pm) :
    MemberStep C sys { sys with mgr := Function.update sys.mgr o pm } (.manager o ma) s m m := by
  obtain ⟨new, heq, hle⟩ := ProcessManager.sends_act h
  refine .other (by simp [Action.turnOf]) rfl (fun _ => Iff.rfl) id fun o' => ?_
  rcases eq_or_ne o' o with rfl | hne
  · have := hle s
    simp only [load, Function.update_self, heq, respsFor_append, List.length_append, adds, if_true]
    omega
  · simp only [load, Function.update_of_ne hne]
    omega

/-- A response leaves the outbox, or another message does. -/
theorem respsFor_eraseIdx {outs : List ManagerOut} {i : ℕ} {out : ManagerOut}
    (h : outs[i]? = some out) (s : String) :
    (respsFor s outs).length =
      (respsFor s (outs.eraseIdx i)).length + (WakeSys.respFor s out).toList.length := by
  obtain ⟨rest, hperm, -, herase⟩ := exists_rest h
  have h₁ := (hperm.filterMap (WakeSys.respFor s)).length_eq
  have h₂ := (herase.filterMap (WakeSys.respFor s)).length_eq
  simp only [respsFor, h₁, h₂]
  cases hr : WakeSys.respFor s out with
  | none => simp [List.filterMap_cons_none hr]
  | some e => simp [List.filterMap_cons_some hr]

/-- A message of the outbox is put, but not to the group. -/
theorem MemberStep.of_erase {i : ℕ} {groups : LinkedMap String Member} (ht : a.turnOf ≠ some s)
    (herase : (respsFor s (sys.mgr o).outbox).length =
      (respsFor s ((sys.mgr o).outbox.eraseIdx i)).length) :
    MemberStep C sys
      { groups := groups
        mgr := Function.update sys.mgr o
          { sys.mgr o with outbox := (sys.mgr o).outbox.eraseIdx i } } a s m m := by
  refine .other ht rfl (fun _ => Iff.rfl) id fun o' => ?_
  rcases eq_or_ne o' o with rfl | ho
  · simp only [load, Function.update_self]
    omega
  · simp only [load, Function.update_of_ne ho]
    omega

/-- A response for a group is put. -/
theorem resp_member {i : ℕ} {key : RequestGroupKey} {msg : GetProcessRespMsg} {m₁ : Member}
    (hi : (sys.mgr o).outbox[i]? = some (.resp key msg))
    (hm₁ : sys.groups.get? key.groupKey = some m₁)
    (hlen : m₁.group.eventCh.length < requestGroupEventChSize)
    (hm : sys.groups.get? s = some m) :
    ∃ m', (sys.groups.put key.groupKey { m₁ with group :=
        { m₁.group with eventCh := m₁.group.eventCh ++ [.processResp msg] } }).get? s = some m' ∧
      MemberStep C sys
        { groups := sys.groups.put key.groupKey { m₁ with group :=
            { m₁.group with eventCh := m₁.group.eventCh ++ [.processResp msg] } }
          mgr := Function.update sys.mgr o
            { sys.mgr o with outbox := (sys.mgr o).outbox.eraseIdx i } } (.send o i) s m m' := by
  have hturn : (Action.send o i).turnOf ≠ some s := by simp [Action.turnOf]
  have herase := respsFor_eraseIdx hi s
  rcases eq_or_ne s key.groupKey with rfl | hne
  · obtain rfl : m₁ = m := Option.some.inj (hm₁.symm.trans hm)
    refine ⟨_, LinkedMap.get?_put_self _ _ _, .other hturn rfl (fun _ => Iff.rfl)
      (fun _ => by simpa using hlen) fun o' => ?_⟩
    simp only [WakeSys.respFor, if_true, Option.toList_some, List.length_singleton] at herase
    rcases eq_or_ne o' o with rfl | ho
    · simp only [load, Function.update_self, List.length_append, List.length_singleton]
      omega
    · simp only [load, Function.update_of_ne ho, List.length_append, List.length_singleton,
        adds, if_neg ho.symm, hi, Option.bind_some, WakeSys.respFor, if_true, Option.toList_some]
      omega
  · simp only [WakeSys.respFor, if_neg hne.symm, Option.toList_none, List.length_nil] at herase
    exact ⟨m, (LinkedMap.get?_put_of_ne _ hne).trans hm, .of_erase hturn herase⟩

/-- What every step does to a group. -/
theorem step_member (h : step C sys a = some sys') (hm : sys.groups.get? s = some m) :
    ∃ m', sys'.groups.get? s = some m' ∧ MemberStep C sys sys' a s m m' := by
  cases step_case h with
  | newGroup hnone =>
    have hne : s ≠ _ := LinkedMap.ne_of_get? hm hnone
    exact ⟨m, (LinkedMap.get?_put_of_ne _ hne).trans hm, .same (by simp [Action.turnOf]) fun _ => rfl⟩
  | @env s' m₁ ga r hm₁ hok hr =>
    have hturn : (Action.env s' ga).turnOf ≠ some s := by simp [Action.turnOf]
    rcases eq_or_ne s s' with rfl | hne
    · obtain rfl : m₁ = m := Option.some.inj (hm₁.symm.trans hm)
      obtain ⟨hasks, hfits, hge, hle⟩ := env_member sys s hok hr
      refine ⟨_, LinkedMap.get?_put_self _ _ _, .other hturn rfl hasks hfits fun o => ?_⟩
      have := hle o
      simp only [load]
      omega
    · exact ⟨m, (LinkedMap.get?_put_of_ne _ hne).trans hm, .same hturn fun _ => rfl⟩
  | @turn _ s' m₁ b hm₁ ht hev hfree hcomes =>
    rcases eq_or_ne s s' with rfl | hne
    · obtain rfl : m₁ = m := Option.some.inj (hm₁.symm.trans hm)
      refine ⟨_, LinkedMap.get?_put_self _ _ _,
        .turn ht hev (fun o => ?_) hfree fun o hc => hcomes o hc.1 hc.2⟩
      simp only [load, putTurn]
      omega
    · refine ⟨m, (LinkedMap.get?_put_of_ne _ hne).trans hm, .same ?_ fun _ => rfl⟩
      rw [ht]
      simpa using hne.symm
  | manager hpm => exact ⟨m, hm, manager_member hpm⟩
  | resp hi hm₁ hlen => exact resp_member hi hm₁ hlen hm
  | freeUser hi =>
    exact ⟨m, hm, .of_erase (by simp [Action.turnOf]) (respsFor_eraseIdx hi s)⟩

/-- A new group makes no calls. -/
theorem step_new (h : step C sys a = some sys') (hm : sys.groups.get? s = none)
    (hm' : sys'.groups.get? s = some m') : m'.calls = [] := by
  -- a step that puts a group that is there leaves `s` absent
  have hput : ∀ {s' : String} {m₁ v : Member}, sys.groups.get? s' = some m₁ →
      (sys.groups.put s' v).get? s ≠ some m' := by
    intro s' m₁ v hm₁ hs
    rw [LinkedMap.get?_put_of_ne _ (LinkedMap.ne_of_get? hm₁ hm).symm, hm] at hs
    cases hs
  cases step_case h with
  | newGroup _ =>
    rcases LinkedMap.get?_of_put hm' with ⟨-, rfl⟩ | hold
    · rfl
    · rw [hm] at hold
      cases hold
  | env hm₁ => exact absurd hm' (hput hm₁)
  | turn hm₁ => exact absurd hm' (hput hm₁)
  | resp _ hm₁ => exact absurd hm' (hput hm₁)
  | manager _ => rw [hm] at hm'; cases hm'
  | freeUser _ => rw [hm] at hm'; cases hm'

/-! ## Results -/

/-- A group that calls a manager can take all its responses. -/
def Room (sys : LockSys) : Prop :=
  ∀ s m o, sys.groups.get? s = some m → m.Calls o → sys.load o s m ≤ requestGroupEventChSize

theorem RoomOk.load_le (h : RoomOk C sys a) (hm : sys.groups.get? s = some m)
    (hc : sys.Concerns C a s m o) :
    sys.load o s m + sys.adds o s a ≤ requestGroupEventChSize + a.takes :=
  h (s, m) (LinkedMap.get?_eq_some.1 hm) o hc

/-- A turn adds nothing. -/
theorem takes_eq_zero (h : 0 < sys.adds o s a) : a.takes = 0 := by
  cases a with
  | recvEvent s' => exact absurd h (lt_irrefl 0)
  | _ => rfl

theorem Room.step (hr : sys.Room) (hok : RoomOk C sys a) (h : step C sys a = some sys') :
    sys'.Room := by
  intro s m' o hm' hc
  cases hm : sys.groups.get? s with
  | none =>
    have := hc.1
    rw [step_new h hm hm'] at this
    cases this
  | some m =>
    obtain ⟨m₁, hm₁, hstep⟩ := step_member h hm
    obtain rfl : m₁ = m' := Option.some.inj (hm₁.symm.trans hm')
    cases hstep with
    | other _ hcalls hasks _ hload =>
      have hc₀ : m.Calls o := ⟨hcalls ▸ hc.1, (hasks o).1 hc.2⟩
      have hle := (hload o).2
      rcases Nat.eq_zero_or_pos (sys.adds o s a) with hzero | hpos
      · have := hr s m o hm hc₀
        omega
      · have := hok.load_le hm (Or.inl ⟨hc₀, hpos⟩)
        have := takes_eq_zero hpos
        omega
    | turn hturn _ hload _ hcomes =>
      have := hok.load_le hm (Or.inr ⟨hturn, hcomes o hc⟩)
      have := hload o
      omega

theorem room_of_reach {maxProcessNum releaseNum : Bool → ℤ}
    (h : Reach (LockSys.step C) (RoomOk C) (new maxProcessNum releaseNum) sys) : sys.Room :=
  h.inv (fun _ _ _ hm => by cases hm) fun hr hok hs => hr.step hok hs

/-- **No cyclic wait.**  In every state of a run whose steps all satisfy `RoomOk`, no manager
    that holds its lock is blocked by the full `eventCh` of a group whose goroutine waits for
    that lock. -/
theorem no_cyclic_wait {maxProcessNum releaseNum : Bool → ℤ}
    (h : Reach (LockSys.step C) (RoomOk C) (new maxProcessNum releaseNum) sys) (s : String) (o : Bool)
    (m : Member) : ¬ sys.CyclicWait s o m := by
  intro hw
  have hresps := List.length_pos_of_ne_nil hw.resps
  have hfull := hw.full
  have hroom := room_of_reach h s m o hw.member hw.calls
  simp only [load] at hroom
  omega

/-- A transaction that another contract calls, for concrete runs. -/
def sampleCrossTx (txId : String) : DockerVMMessage :=
  { sampleTx .sample txId "save" with crossContext := some ⟨1, "", 2 ^ 53⟩ }

/-- A manager creates a process for a request, and the response is in its outbox. -/
def sampleCreate (o : Bool) (pid : ℕ) : List Action :=
  [.manager o .recvEvent, .manager o (.job 0 .nameNew), .manager o (.job 0 (.createOk pid)),
    .manager o (.job 0 .cacheNew), .manager o .advance, .manager o .advance]

/-- Requests for an original and for a cross transaction are open. -/
def sampleAsk : List Action :=
  let s := RequestGroupKey.sample.groupKey
  [.newGroup .sample, .env s (.putTx (sampleTx .sample "tx1" "save")), .recvTx s 0,
    .env s (.putTx (RequestGroup.bytecodeResp "tx1" .ok)), .recvTx s 7, .getProcesses s ⟨0, 0⟩,
    .getProcesses s ⟨0, 0⟩, .env s (.putTx (sampleCrossTx "tx2")), .recvTx s 7,
    .getProcesses s ⟨0, 0⟩]

/-- The cross transaction has its process, whose sandbox exits when the next one has arrived. -/
def sampleTake : List Action :=
  let s := RequestGroupKey.sample.groupKey
  [.send false 0, .env s (.take false), .recvEvent s, .getProcesses s ⟨1, 1⟩,
    .env s (.putTx (sampleCrossTx "tx3")),
    .manager false (.putMsg (.sandboxExit ⟨.sample, constructProcessName .sample 0 1 false⟩))]

def sampleExit : List Action := sampleAsk ++ sampleCreate false 0 ++ sampleTake

theorem no_cyclic_wait_called : ∃ sys m,
    Reach (LockSys.step .sample) (RoomOk .sample) (new (fun _ => 1) (fun _ => 0)) sys ∧
      sys.groups.get? RequestGroupKey.sample.groupKey = some m ∧ m.Calls false ∧
      respsFor RequestGroupKey.sample.groupKey (sys.mgr false).outbox ≠ [] ∧
      ¬ sys.CyclicWait RequestGroupKey.sample.groupKey false m := by
  obtain ⟨sys, hr, hP⟩ := exists_reach (LockSys.step .sample) (RoomOk .sample)
    (new (fun _ => 1) (fun _ => 0))
    (fun sys => (sys.groups.get? RequestGroupKey.sample.groupKey).any fun m =>
      decide (m.Calls false ∧
        respsFor RequestGroupKey.sample.groupKey (sys.mgr false).outbox ≠ []))
    (sampleExit ++ [.manager false .recvEvent, .recvTx RequestGroupKey.sample.groupKey 7])
    (by decide)
  obtain ⟨m, hm, hP⟩ := (Option.any_eq_true _ _).1 hP
  obtain ⟨hcalls, hresps⟩ := of_decide_eq_true hP
  exact ⟨sys, m, hr, hm, hcalls, hresps, no_cyclic_wait hr _ _ _⟩

/-! ## Without room -/

/-- The group waits for the lock, and the manager has more to put than `eventCh` can take. -/
structure Overload (sys : LockSys) (s : String) (o : Bool) (m : Member) : Prop where
  member : sys.groups.get? s = some m
  calls : m.Calls o
  fits : m.group.eventCh.length ≤ requestGroupEventChSize
  full : requestGroupEventChSize < sys.load o s m

theorem Overload.resps_ne_nil (h : sys.Overload s o m) : respsFor s (sys.mgr o).outbox ≠ [] := by
  intro hnil
  have := h.full
  have := h.fits
  simp only [load, hnil, List.length_nil] at *
  omega

theorem Overload.step (h : sys.Overload s o m) (hs : LockSys.step C sys a = some sys') :
    ∃ m', sys'.Overload s o m' := by
  obtain ⟨m', hm', hstep⟩ := step_member hs h.member
  cases hstep with
  | other _ hcalls hasks hfits hload =>
    refine ⟨m', hm', ⟨?_, (hasks o).2 h.calls.2⟩, hfits h.fits, h.full.trans_le (hload o).1⟩
    rw [hcalls]
    exact h.calls.1
  | turn _ _ _ hfree _ =>
    -- the lock is held as long as there is a response to put
    refine absurd (Or.inr fun hnil => ?_) (hfree o h.calls)
    exact h.resps_ne_nil (by rw [hnil]; rfl)

/-- A turn that comes to the lock without room. -/
theorem Overload.of_turn (hs : LockSys.step C sys a = some sys') (hm : sys.groups.get? s = some m)
    (ht : a.turnOf = some s) (hm' : sys'.groups.get? s = some m') (hc : m'.Calls o)
    (hfits : m.group.eventCh.length ≤ requestGroupEventChSize)
    (hload : requestGroupEventChSize + a.takes < sys.load o s m) : sys'.Overload s o m' := by
  obtain ⟨m₁, hm₁, hstep⟩ := step_member hs hm
  obtain rfl : m₁ = m' := Option.some.inj (hm₁.symm.trans hm')
  cases hstep with
  | other hne => exact absurd ht hne
  | turn _ hlen hle _ _ =>
    have := hle o
    exact ⟨hm', hc, by omega, by omega⟩

/-- The group never gets the lock. -/
theorem Overload.reach (h : sys.Overload s o m) (hr : Reach (LockSys.step C) Free sys sys') :
    ∃ m', sys'.Overload s o m' :=
  hr.inv (I := fun sys => ∃ m, sys.Overload s o m) ⟨m, h⟩ fun ⟨_, hm⟩ _ hs => hm.step hs

/-- A response for the group can be put while there is room. -/
theorem Overload.put (h : sys.Overload s o m)
    (hlt : m.group.eventCh.length < requestGroupEventChSize) :
    ∃ i sys' m', LockSys.step C sys (.send o i) = some sys' ∧ sys'.Overload s o m' ∧
      m'.group.eventCh.length = m.group.eventCh.length + 1 := by
  obtain ⟨e, he⟩ := List.exists_mem_of_ne_nil _ h.resps_ne_nil
  obtain ⟨out, hout, hresp⟩ := List.mem_filterMap.1 he
  obtain ⟨i, hi⟩ := List.getElem?_of_mem hout
  cases out with
  | freeUser pid => cases hresp
  | resp key msg =>
    simp only [WakeSys.respFor] at hresp
    split_ifs at hresp with hkey
    subst hkey
    have hs := h.member
    have hstep : LockSys.step C sys (.send o i) = some
        { groups := sys.groups.put key.groupKey
            { m with group := { m.group with eventCh := m.group.eventCh ++ [.processResp msg] } }
          mgr := Function.update sys.mgr o
            { sys.mgr o with outbox := (sys.mgr o).outbox.eraseIdx i } } := by
      simp only [LockSys.step, putMsg, hi, hs, if_pos hlt]
    obtain ⟨m', hm'⟩ := h.step hstep
    refine ⟨i, _, m', hstep, hm', ?_⟩
    obtain rfl := Option.some.inj ((LinkedMap.get?_put_self _ _ _).symm.trans hm'.member)
    simp

/-- A cyclic wait follows when the manager puts its responses. -/
theorem Overload.cyclicWait (h : sys.Overload s o m) :
    ∃ sys' m', Reach (LockSys.step C) Free sys sys' ∧ sys'.CyclicWait s o m' := by
  obtain ⟨n, hn⟩ : ∃ n, requestGroupEventChSize = m.group.eventCh.length + n :=
    Nat.exists_eq_add_of_le h.fits
  induction n generalizing sys m with
  | zero => exact ⟨sys, m, .start, h.member, h.calls, h.resps_ne_nil, hn.le⟩
  | succ n ih =>
    obtain ⟨i, sys₁, m₁, hstep, h₁, hlen⟩ := h.put (C := C) (by omega)
    obtain ⟨sys', m', hr, hw⟩ := ih h₁ (by omega)
    exact ⟨sys', m', Reach.trans (.next .start trivial hstep) hr, hw⟩

end

end LockSys

end VmEngine
