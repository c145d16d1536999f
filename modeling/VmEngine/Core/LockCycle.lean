/-
  A crash loop that fills the event channel of a request group.

  A process whose sandbox exits when it is ready is answered twice: the request that it was
  created for gets its response, and `removeFromProcessGroup`, which empties the process
  group of the contract, sends another.  The group takes one of them and asks again, so the
  crash loop of the original transactions leaves one event more in each round
  (`leads_round`).  When the channel is full, a cross transaction lets the group wait for
  the other manager, which has the exit of a sandbox to report (`cyclic_wait_crashing`).
-/
import VmEngine.Core.Locks

namespace VmEngine

namespace LockSys
variable {C : ChainConsts} {m : Member} {f : Bool → ProcessManager} {b : ProcessManager}

/-- The group of the contract and both managers. -/
structure At (m : Member) (f : Bool → ProcessManager) (sys : LockSys) : Prop where
  group : sys.groups.get? RequestGroupKey.sample.groupKey = some m
  mgr : sys.mgr = f

theorem At.found {sys : LockSys} (h : At m f sys) :
    sys.found RequestGroupKey.sample.groupKey = true := by
  simp [LockSys.found, h.group]

/-! ## Steps of the managers -/

/-- A step of a manager that may know that the group exists. -/
theorem leads_manager (o : Bool) (x : ProcessManager.Action) {pm : ProcessManager}
    (hok : WakeSys.ManagerOk x = true) (hlock : x.Locks = true → (f o).outbox = [])
    (hact : ∀ found, found RequestGroupKey.sample.groupKey = true → (f o).act found x = .ok pm) :
    Leads (LockSys.step C) (At m f) (At m (Function.update f o pm)) := by
  refine .of_step (.manager o x) fun sys h => ?_
  obtain ⟨hg, rfl⟩ := h
  refine ⟨{ sys with mgr := Function.update sys.mgr o pm }, ?_, hg, rfl⟩
  simp only [LockSys.step, if_pos (And.intro hok hlock), hact _ (At.found ⟨hg, rfl⟩)]
  rfl

theorem leads_freeUser (o : Bool) {pid : ℕ} {rest : List ManagerOut}
    (hout : (f o).outbox = .freeUser pid :: rest) :
    Leads (LockSys.step C) (At m f) (At m (Function.update f o { f o with outbox := rest })) := by
  refine .of_step (.send o 0) fun sys h => ?_
  obtain ⟨hg, rfl⟩ := h
  refine ⟨{ sys with mgr := Function.update sys.mgr o _ }, ?_, hg, rfl⟩
  simp [LockSys.step, putMsg, hout]

/-- A response for the group. -/
theorem leads_resp (o : Bool) {msg : GetProcessRespMsg} {rest : List ManagerOut}
    (hout : (f o).outbox = .resp .sample msg :: rest)
    (hlt : m.group.eventCh.length < requestGroupEventChSize) :
    Leads (LockSys.step C) (At m f)
      (At { m with group := { m.group with eventCh := m.group.eventCh ++ [.processResp msg] } }
        (Function.update f o { f o with outbox := rest })) := by
  refine .of_step (.send o 0) fun sys h => ?_
  obtain ⟨hg, rfl⟩ := h
  refine ⟨⟨sys.groups.put RequestGroupKey.sample.groupKey _, Function.update sys.mgr o _⟩, ?_,
    LinkedMap.get?_put_self _ _ _, rfl⟩
  simp [LockSys.step, putMsg, hout, hg, hlt]

/-- The manager of the original transactions and that of the cross transactions. -/
def duo (a b : ProcessManager) : Bool → ProcessManager
  | true => a
  | false => b

@[simp] theorem update_duo_true (a a' b : ProcessManager) :
    Function.update (duo a b) true a' = duo a' b := by
  funext o
  cases o <;> rfl

@[simp] theorem update_duo_false (a b b' : ProcessManager) :
    Function.update (duo a b) false b' = duo a b' := by
  funext o
  cases o <;> rfl

theorem leads_orig (a a' : ProcessManager) (x : ProcessManager.Action) (hok : WakeSys.ManagerOk x = true)
    (hlock : x.Locks = true → a.outbox = [])
    (hact : ∀ found, found RequestGroupKey.sample.groupKey = true → a.act found x = .ok a') :
    Leads (LockSys.step C) (At m (duo a b)) (At m (duo a' b)) := by
  have h := leads_manager (C := C) (m := m) (f := duo a b) true x hok hlock hact
  rwa [update_duo_true] at h

/-! ## One process of a manager with room for one -/

/-- The name of the process that is created after `n` others. -/
def processName (o : Bool) (n : ℕ) : String := constructProcessName .sample 0 (n + 1) o

/-- A manager without processes, which has created `n`. -/
def bare (o : Bool) (n : ℕ) : ProcessManager := { ProcessManager.new 1 0 o with processCnt := n }

/-- The request of the group, for one process. -/
def request : GetProcessReqMsg := ⟨.sample, 1⟩

/-- A manager with the last process that it created. -/
def running (o : Bool) (n pid : ℕ) : ProcessManager :=
  { bare o (n + 1) with
    busyProcesses := LinkedMap.empty.put (processName o n) pid
    processGroups := LinkedMap.empty.put RequestGroupKey.sample.groupKey
      (LinkedMap.empty.put (processName o n) pid) }

/-- `handleSandboxExitMsg`: the user is freed, and the group is told that it has no process. -/
theorem act_sandboxExit (found : String → Bool)
    (hf : found RequestGroupKey.sample.groupKey = true) (o : Bool) (n pid : ℕ) :
    ProcessManager.act found
      { running o n pid with eventCh := [.sandboxExit ⟨.sample, processName o n⟩] } .recvEvent =
      .ok { bare o (n + 1) with
        allocateNewCh := 1, outbox := [.freeUser pid, .resp .sample ⟨o, 0⟩] } := by
  have hname : ProcessManager.getProcessByName (running o n pid) (processName o n) = some pid := by
    simp [ProcessManager.getProcessByName, running, bare, ProcessManager.new]
  have hgroup : (running o n pid).processGroups.get? RequestGroupKey.sample.groupKey =
      some (LinkedMap.empty.put (processName o n) pid) := LinkedMap.get?_put_self _ _ _
  have hbusy : (running o n pid).busyProcesses.remove (processName o n) = .empty :=
    LinkedMap.remove_put_empty _ _
  have hgroups : (running o n pid).processGroups.remove RequestGroupKey.sample.groupKey = .empty :=
    LinkedMap.remove_put_empty _ _
  have hclose : ProcessManager.closeSandbox found (running o n pid) .sample (processName o n) =
      .ok { bare o (n + 1) with outbox := [.freeUser pid, .resp .sample ⟨o, 0⟩] } := by
    simp only [ProcessManager.closeSandbox, hname, ProcessManager.removeProcessFromCache,
      ProcessManager.removeFromProcessGroup, hgroup, hbusy, hgroups, LinkedMap.remove_put_empty,
      ProcessManager.removeFromWaitingGroup, ProcessManager.sendProcessReadyResp, hf, if_true]
    rfl
  have hhandle : ProcessManager.handleSandboxExitMsg found (running o n pid)
      ⟨.sample, processName o n⟩ = .ok { bare o (n + 1) with
        allocateNewCh := 1, outbox := [.freeUser pid, .resp .sample ⟨o, 0⟩] } := by
    simp only [ProcessManager.handleSandboxExitMsg, hclose]
    rfl
  exact hhandle

/-- The request is answered by a new process. -/
theorem leads_running (n : ℕ) :
    Leads (LockSys.step C) (At m (duo { bare true n with eventCh := [.getProcessReq request] } b))
      (At m (duo { running true n (n + 1) with outbox := [.resp .sample ⟨true, 1⟩] } b)) := by
  have named := leads_orig (C := C) (m := m) (b := b)
    { bare true n with task := some (.getProcess request 1 false, [.create .sample]) }
    { bare true (n + 1) with
      task := some (.getProcess request 1 false, [.named .sample (processName true n)]) }
    (.job 0 .nameNew) rfl (fun _ => rfl) fun _ _ => rfl
  have made := leads_orig (C := C) (m := m) (b := b)
    { bare true (n + 1) with
      task := some (.getProcess request 1 false, [.named .sample (processName true n)]) }
    { bare true (n + 1) with
      task := some (.getProcess request 1 false, [.made .sample (processName true n) (n + 1)]) }
    (.job 0 (.createOk (n + 1))) rfl (fun _ => rfl) fun _ _ => rfl
  have cached := leads_orig (C := C) (m := m) (b := b)
    { bare true (n + 1) with
      task := some (.getProcess request 1 false, [.made .sample (processName true n) (n + 1)]) }
    { running true n (n + 1) with task := some (.getProcess request 0 false, []) }
    (.job 0 .cacheNew) rfl (fun _ => rfl) fun _ _ => rfl
  have asked := leads_orig (C := C) (m := m) (b := b)
    { running true n (n + 1) with task := some (.getProcess request 0 false, []) }
    { running true n (n + 1) with task := some (.getProcess request 0 true, []) }
    .advance rfl (fun _ => rfl) fun _ _ => rfl
  have answered := leads_orig (C := C) (m := m) (b := b)
    { running true n (n + 1) with task := some (.getProcess request 0 true, []) }
    { running true n (n + 1) with outbox := [.resp .sample ⟨true, 1⟩] }
    .advance rfl (fun _ => rfl) fun found hf => by
      have hneed : request.processNum ≠ 0 := by decide
      simp only [ProcessManager.act, ProcessManager.finishTask, if_neg hneed,
        ProcessManager.finishGetProcessReq, ProcessManager.sendProcessReadyResp]
      simp only [request, hf, if_true]
      rfl
  refine .trans (leads_orig _ _ .recvEvent rfl (fun _ => rfl) fun _ _ => rfl) ?_
  exact named.trans (made.trans (cached.trans (asked.trans answered)))

/-! ## The group -/

/-- The group with open events, an original transaction and the calls it has still to make. -/
def member (evs : List ℤ) (origWaiting : Bool) (calls : List Bool) : Member where
  group :=
    { key := .sample
      contractState := .ready
      eventCh := evs.map fun k => .processResp ⟨true, k⟩
      txCh := [sampleCrossTx "tx3"]
      bufCh := []
      getBytecodeTimer := ⟨.stopped, false⟩
      origTxController := ⟨[sampleTx .sample "tx1" "save"], origWaiting⟩
      crossTxController := ⟨[], false⟩
      contractFileVersion := 7 }
  calls := calls

theorem length_member (evs : List ℤ) (origWaiting : Bool) (calls : List Bool) :
    (member evs origWaiting calls).group.eventCh.length = evs.length := List.length_map ..

/-- The managers of a step in which the group puts nothing. -/
theorem putTurn_nil (sys : LockSys) (s : String) (g : RequestGroup) (calls : List Bool) :
    (sys.putTurn s (g, [], calls)).mgr = sys.mgr := by
  funext o
  simp [putTurn]

/-- A response of the original manager. -/
theorem leads_origResp {evs : List ℤ} {k : ℤ} {rest : List ManagerOut} (a : ProcessManager)
    (hout : a.outbox = .resp .sample ⟨true, k⟩ :: rest)
    (hlt : evs.length < requestGroupEventChSize) :
    Leads (LockSys.step C) (At (member evs true []) (duo a b))
      (At (member (evs ++ [k]) true []) (duo { a with outbox := rest } b)) := by
  have h := leads_resp (C := C) (m := member evs true []) (f := duo a b) true hout
    (by rwa [length_member])
  simpa [member, duo] using h

/-- The group takes a response, and the request counts as answered. -/
theorem leads_recvEvent (k : ℤ) (evs : List ℤ) :
    Leads (LockSys.step C) (At (member (k :: evs) true []) f) (At (member evs false [true]) f) := by
  refine .of_step (.recvEvent RequestGroupKey.sample.groupKey) fun sys h => ?_
  obtain ⟨hg, rfl⟩ := h
  refine ⟨sys.putTurn RequestGroupKey.sample.groupKey
    ((member evs false [true]).group, [], [true]), ?_, LinkedMap.get?_put_self _ _ _,
    putTurn_nil _ _ _ _⟩
  simp only [LockSys.step, hg]
  rfl

/-- No process is left, so it asks again. -/
theorem leads_getProcesses (evs : List ℤ) (n : ℕ) :
    Leads (LockSys.step C) (At (member evs false [true]) (duo (bare true n) b))
      (At (member evs true [])
        (duo { bare true n with eventCh := [.getProcessReq request] } b)) := by
  refine .of_step (.getProcesses RequestGroupKey.sample.groupKey ⟨0, 0⟩) fun sys h => ?_
  obtain ⟨hg, hmgr⟩ := h
  have hfree : ¬ (sys.mgr true).Locked ∧
      sys.Sees true RequestGroupKey.sample.groupKey ⟨0, 0⟩ := by
    simp only [Sees, processNum, hmgr, duo]
    refine ⟨?_, rfl, le_rfl⟩
    simp [ProcessManager.Locked, bare, ProcessManager.new]
  refine ⟨sys.putTurn RequestGroupKey.sample.groupKey ((member evs true []).group,
    [.getProcessReq true request], []), ?_, LinkedMap.get?_put_self _ _ _, ?_⟩
  · simp only [LockSys.step, hg, member]
    rw [if_pos fun _ => hfree]
    rfl
  · funext o
    cases o <;> simp [putTurn, hmgr, duo, WakeSys.reqFor, bare, ProcessManager.new]

/-! ## The crash loop -/

/-- The cross manager, whose process has exited. -/
def crossManager : ProcessManager :=
  { running false 0 0 with eventCh := [.sandboxExit ⟨.sample, processName false 0⟩] }

/-- A request for the original transaction is open. -/
def Crashing (evs : List ℤ) (n : ℕ) : LockSys → Prop :=
  At (member evs true [])
    (duo { bare true n with eventCh := [.getProcessReq request] } crossManager)

theorem reach_crashing : ∃ sys,
    Reach (LockSys.step .sample) Free (new (fun _ => 1) (fun _ => 0)) sys ∧ Crashing [] 0 sys := by
  have hexec : execIf (LockSys.step .sample) Free (new (fun _ => 1) fun _ => 0) sampleExit =
    some _ := rfl
  refine ⟨_, Reach.start.execIf hexec, rfl, ?_⟩
  funext o
  cases o <;> rfl

/-- A process is created, and the request is answered. -/
theorem leads_created (evs : List ℤ) (n : ℕ) (hlt : evs.length < requestGroupEventChSize) :
    Leads (LockSys.step C) (Crashing evs n)
      (At (member (evs ++ [1]) true []) (duo (running true n (n + 1)) crossManager)) :=
  (leads_running n).trans
    (leads_origResp { running true n (n + 1) with outbox := [.resp .sample ⟨true, 1⟩] } rfl hlt)

/-- Its sandbox exits, and the group gets another response. -/
theorem leads_exited (evs : List ℤ) (n : ℕ) (hlt : evs.length < requestGroupEventChSize) :
    Leads (LockSys.step C) (At (member evs true []) (duo (running true n (n + 1)) b))
      (At (member (evs ++ [0]) true []) (duo (bare true (n + 1)) b)) := by
  have reported := leads_orig (C := C) (m := member evs true []) (b := b)
    (running true n (n + 1))
    { running true n (n + 1) with eventCh := [.sandboxExit ⟨.sample, processName true n⟩] }
    (.putMsg (.sandboxExit ⟨.sample, processName true n⟩)) rfl (fun _ => rfl) fun _ _ => rfl
  have handled := leads_orig (C := C) (m := member evs true []) (b := b) _ _ .recvEvent rfl
    (fun _ => rfl) fun found hf => act_sandboxExit found hf true n (n + 1)
  have freed := leads_freeUser (C := C) (m := member evs true []) true
    (f := duo { bare true (n + 1) with
      allocateNewCh := 1, outbox := [.freeUser (n + 1), .resp .sample ⟨true, 0⟩] } b) rfl
  rw [update_duo_true] at freed
  have told := leads_origResp (C := C) (b := b) { bare true (n + 1) with
    allocateNewCh := 1, outbox := [.resp .sample ⟨true, 0⟩] } rfl hlt
  have allocated := leads_orig (C := C) (m := member (evs ++ [0]) true []) (b := b)
    { bare true (n + 1) with allocateNewCh := 1 } (bare true (n + 1)) .recvAllocateNew rfl
    (fun _ => rfl) fun _ _ => rfl
  exact reported.trans (handled.trans (freed.trans (told.trans allocated)))

/-- **A round of the crash loop** leaves one event more. -/
theorem leads_round (evs : List ℤ) (n : ℕ) (hlt : evs.length + 1 < requestGroupEventChSize) :
    Leads (LockSys.step C) (Crashing evs n)
      (fun sys => ∃ evs', evs'.length = evs.length + 1 ∧ Crashing evs' (n + 1) sys) := by
  obtain ⟨k, rest, hrest⟩ := List.exists_cons_of_ne_nil (l := evs ++ [1] ++ [0]) (by simp)
  have hlen : rest.length = evs.length + 1 := by
    have := congrArg List.length hrest
    simp only [List.length_append, List.length_cons, List.length_nil] at this
    omega
  have exited := leads_exited (C := C) (b := crossManager) (evs ++ [1]) n (by simpa using hlt)
  rw [hrest] at exited
  intro sys h
  obtain ⟨sys', hr, h'⟩ := ((leads_created evs n (by omega)).trans (exited.trans
    ((leads_recvEvent k rest).trans (leads_getProcesses rest (n + 1))))) sys h
  exact ⟨sys', hr, rest, hlen, h'⟩

/-- The channel fills up to the last place. -/
theorem reach_round (k : ℕ) (hk : k < requestGroupEventChSize) : ∃ sys evs,
    Reach (LockSys.step .sample) Free (new (fun _ => 1) (fun _ => 0)) sys ∧ evs.length = k ∧
      Crashing evs k sys := by
  induction k with
  | zero =>
    obtain ⟨sys, hr, h⟩ := reach_crashing
    exact ⟨sys, [], hr, rfl, h⟩
  | succ k ih =>
    obtain ⟨sys, evs, hr, hlen, h⟩ := ih (by omega)
    obtain ⟨sys', hr', evs', hlen', h'⟩ := leads_round evs k (by omega) sys h
    exact ⟨sys', evs', hr.trans hr', by omega, h'⟩

/-! ## The cross transaction -/

/-- The group has taken the cross transaction, and calls the cross manager. -/
def calling (evs : List ℤ) : Member where
  group :=
    { (member evs true []).group with
      txCh := [], crossTxController := ⟨[sampleCrossTx "tx3"], false⟩ }
  calls := [false]

theorem leads_calling (evs : List ℤ) :
    Leads (LockSys.step .sample) (At (member evs true []) f) (At (calling evs) f) := by
  refine .of_step (.recvTx RequestGroupKey.sample.groupKey 7) fun sys h => ?_
  obtain ⟨hg, rfl⟩ := h
  refine ⟨sys.putTurn RequestGroupKey.sample.groupKey ((calling evs).group, [], [false]), ?_,
    LinkedMap.get?_put_self _ _ _, putTurn_nil _ _ _ _⟩
  simp only [LockSys.step, hg]
  rfl

/-- The exit of its process is reported to the cross manager, which frees the user. -/
theorem leads_cross (a : ProcessManager) :
    Leads (LockSys.step C) (At m (duo a crossManager))
      (At m (duo a { bare false 1 with
        allocateNewCh := 1, outbox := [.resp .sample ⟨false, 0⟩] })) := by
  have handled := leads_manager (C := C) (m := m) (f := duo a crossManager) false .recvEvent rfl
    (fun _ => rfl) fun found hf => act_sandboxExit found hf false 0 0
  have freed := leads_freeUser (C := C) (m := m) false
    (f := duo a { bare false 1 with
      allocateNewCh := 1, outbox := [.freeUser 0, .resp .sample ⟨false, 0⟩] }) rfl
  rw [update_duo_false] at handled freed
  exact handled.trans freed

/-- The cross manager is blocked with its last message, a response for the group, whose
    `eventCh` is full; and the group waits for the lock of that manager. -/
theorem cyclic_wait_crashing : ∃ sys m,
    Reach (LockSys.step .sample) Free (new (fun _ => 1) (fun _ => 0)) sys ∧
      (sys.mgr false).outbox = [.resp .sample ⟨false, 0⟩] ∧
      sys.CyclicWait RequestGroupKey.sample.groupKey false m := by
  obtain ⟨sys, evs, hr, hlen, h⟩ := reach_round 99 (by decide)
  have hfill := leads_created (C := .sample) evs 99 (by rw [hlen]; decide)
  obtain ⟨sys', hr', hg, hmgr⟩ :=
    (hfill.trans ((leads_cross _).trans (leads_calling (evs ++ [1])))) sys h
  refine ⟨sys', calling (evs ++ [1]), hr.trans hr', by rw [hmgr]; rfl, hg, ⟨rfl, rfl, rfl⟩, ?_, ?_⟩
  · rw [hmgr]
    decide
  · simp [calling, member, hlen, requestGroupEventChSize]

end LockSys

end VmEngine
