/-
  Room for processes, and their users.

  Both managers together hold at most as many processes as there are users, and every
  user waits in the queue or belongs to one entry of a cache.  This breaks when a
  process is changed that is not cached under the name it has: it is then cached under
  two names.
-/
import VmEngine.Core.EngineCache
import VmEngine.Core.EngineLaunch

namespace VmEngine

namespace Engine
variable {cfg : ProcessConfig} {e e' e₁ : Engine} {o ok : Bool} {v v' : ManagerView} {t : Task}
  {jobs : List Job} {i pid : ℕ} {j : Job} {ev : ProcessManager.JobEvent} {outs : List ProcessOut}
  {p p' : Process} {a : Action} {limit : Bool → ℤ} {users us : List ℕ} {added : List ℕ}

open ManagerView

/-! ## The users of the processes -/

/-- The user of a process. -/
def userOf (e : Engine) (pid : ℕ) : Option ℕ := e.procs[pid]?.map (·.user)

theorem userOf_setProc (hp : e.procs[pid]? = some p) (hu : p'.user = p.user) :
    (e.setProc pid p').userOf = e.userOf := by
  funext k
  unfold userOf Engine.setProc
  dsimp only
  by_cases hk : k = pid
  · subst hk
    rw [getElem?_set_self_of_some hp, hp]
    exact congrArg some hu
  · rw [List.getElem?_set_ne (Ne.symm hk)]

/-- The processes that the managers hold. -/
def heldPids (e : Engine) : List ℕ := (e.view true).managed ++ (e.view false).managed

/-- The users of the processes that the managers hold. -/
def heldUsers (e : Engine) : List ℕ := e.heldPids.filterMap e.userOf

theorem mem_heldPids : pid ∈ e.heldPids ↔ ∃ o, pid ∈ (e.view o).managed := by
  unfold heldPids
  rw [List.mem_append, Bool.exists_bool, or_comm]

theorem NameInv.heldPids (h : e.NameInv) (hpid : pid ∈ e.heldPids) :
    ∃ p, e.procs[pid]? = some p := by
  obtain ⟨o, hpid⟩ := mem_heldPids.1 hpid
  obtain ⟨p, hp, -⟩ := h.managed hpid
  exact ⟨p, hp⟩

theorem NameInv.length_heldUsers (h : e.NameInv) : e.heldUsers.length = e.heldPids.length := by
  refine List.filterMap_length_eq_length.2 fun pid hpid => ?_
  obtain ⟨p, hp⟩ := h.heldPids hpid
  unfold userOf
  rw [hp]
  rfl

/-- A flow in one manager. -/
theorem heldPids_flow {freed : List ℕ} (hother : ∀ {o'}, o' ≠ o → e'.view o' = e.view o')
    (h : (freed ++ (e'.view o).managed).Perm (added ++ (e.view o).managed)) :
    (freed ++ e'.heldPids).Perm (added ++ e.heldPids) := by
  unfold heldPids
  rw [List.perm_iff_count] at h ⊢
  intro pid
  have hpid := h pid
  cases o with
  | true =>
    rw [hother Bool.false_ne_true]
    simp only [List.count_append] at hpid ⊢
    omega
  | false =>
    rw [hother Bool.false_ne_true.symm]
    simp only [List.count_append] at hpid ⊢
    omega

/-- Users go from the queue to new processes, and back from freed ones. -/
theorem users_flow {freed : List ℕ} (husers : e'.users = us ++ freed.filterMap e'.userOf)
    (hadd : (added.filterMap e'.userOf ++ us).Perm e.users)
    (hown : ∀ pid ∈ e.heldPids, e'.userOf pid = e.userOf pid)
    (h : (freed ++ e'.heldPids).Perm (added ++ e.heldPids)) :
    (e'.users ++ e'.heldUsers).Perm (e.users ++ e.heldUsers) := by
  have hkept : e.heldPids.filterMap e'.userOf = e.heldUsers := List.filterMap_congr hown
  have hflow := h.filterMap e'.userOf
  rw [List.filterMap_append, List.filterMap_append, hkept] at hflow
  rw [husers, List.append_assoc]
  calc us ++ (freed.filterMap e'.userOf ++ e'.heldUsers)
      |>.Perm (us ++ (added.filterMap e'.userOf ++ e.heldUsers)) := hflow.append_left us
    _ |>.Perm ((added.filterMap e'.userOf ++ us) ++ e.heldUsers) := by
      rw [← List.append_assoc]
      exact List.perm_append_comm.append_right _
    _ |>.Perm (e.users ++ e.heldUsers) := hadd.append_right _

/-! ## The invariant -/

/-- The managers keep to their limits, and no user is lost. -/
structure RoomInv (limit : Bool → ℤ) (users : List ℕ) (e : Engine) : Prop where
  max : ∀ o, (e.mgr o).maxProcessNum = limit o
  room : ∀ o, (((e.view o).managed.length + (e.view o).creating : ℕ) : ℤ) ≤ limit o
  users : (e.users ++ e.heldUsers).Perm users

theorem roomInv_new (releaseNum : Bool → ℤ) (hlim : ∀ o, 0 ≤ limit o) (users : List ℕ) :
    (new limit releaseNum users).RoomInv limit users where
  max _ := rfl
  room o := hlim o
  users := by
    show (users ++ []).Perm users
    rw [List.append_nil]

/-- A step that changes the view of one manager. -/
theorem RoomInv.next (h : e.RoomInv limit users)
    (hmax : ∀ o, (e'.mgr o).maxProcessNum = (e.mgr o).maxProcessNum)
    (hview : e'.view o = { v with frees := [] }) (hother : ∀ {o'}, o' ≠ o → e'.view o' = e.view o')
    (hfrees : (e.view o).frees = []) (hflow : Flow (e.view o) v added)
    (husers : e'.users = us ++ v.frees.filterMap e'.userOf)
    (hadd : (added.filterMap e'.userOf ++ us).Perm e.users)
    (hown : ∀ pid ∈ e.heldPids, e'.userOf pid = e.userOf pid)
    (hroom : ((v.managed.length + v.creating : ℕ) : ℤ) ≤ limit o) : e'.RoomInv limit users := by
  obtain ⟨freed, hfreed, hperm⟩ := hflow
  rw [hfrees, List.nil_append] at hfreed
  rw [hfreed] at husers
  have hview' : (freed ++ (e'.view o).managed).Perm (added ++ (e.view o).managed) := by
    rw [hview]
    exact hperm
  refine ⟨fun o' => (hmax o').trans (h.max o'), fun o' => ?_, ?_⟩
  · by_cases ho : o' = o
    · rw [ho, hview]; exact hroom
    · rw [hother ho]; exact h.room o'
  · exact (users_flow husers hadd hown (heldPids_flow hother hview')).trans h.users

/-- A step that changes the view of one manager, and no process. -/
theorem RoomInv.turned (h : e.RoomInv limit users) (hn : e.NameInv)
    (hmax : ∀ o, (e'.mgr o).maxProcessNum = (e.mgr o).maxProcessNum) (ht : Turned e o v e')
    (hflow : Flow (e.view o) v [])
    (hroom : ((v.managed.length + v.creating : ℕ) : ℤ) ≤ limit o) : e'.RoomInv limit users := by
  have huser : e'.userOf = e.userOf := by
    unfold userOf
    rw [ht.procs]
  refine h.next hmax ht.view ht.other (hn.frees o) hflow ?_ (List.Perm.refl _)
    (fun pid _ => congrFun huser pid) hroom
  rw [huser]
  exact ht.users

/-- A process changes and keeps its user. -/
theorem RoomInv.setProc (h : e.RoomInv limit users) (hp : e.procs[pid]? = some p)
    (hu : p'.user = p.user) : (e.setProc pid p').RoomInv limit users := by
  refine ⟨h.max, h.room, ?_⟩
  unfold heldUsers
  rw [userOf_setProc hp hu]
  exact h.users

variable {pm : ProcessManager}

theorem mgr_setMgr_maxProcessNum (hm : e₁.mgr = e.mgr)
    (hpm : pm.maxProcessNum = (e.mgr o).maxProcessNum) (o' : Bool) :
    ((e₁.setMgr o pm).mgr o').maxProcessNum = (e.mgr o').maxProcessNum := by
  unfold setMgr
  dsimp only
  by_cases ho : o' = o
  · rw [ho, Function.update_self, hpm]
  · rw [Function.update_of_ne ho, hm]

/-! ## Steps -/

/-- A turn of a manager keeps the room. -/
theorem RoomInv.turn {a : ProcessManager.Action} (h : e.RoomInv limit users) (hn : e.NameInv)
    (hc : e.CacheInv) (ha : a.IsTurn = true) (hact : (e.mgr o).act found a = .ok pm) :
    (e.settle o pm).RoomInv limit users := by
  have hl := ProcessManager.turn_limited ha hact
  have hflow := flow_of_turn (ProcessManager.turn_case ha hact) (hc.live o)
  refine h.turned hn (mgr_setMgr_maxProcessNum rfl hl.limit) (turned_settle e o pm) hflow ?_
  have hlen : pm.view.managed.length ≤ 0 + (e.view o).managed.length := hflow.length_le
  rcases hl.room with hle | ⟨hno, hle⟩
  · have hroom := h.room o
    have hle : pm.view.creating ≤ (e.view o).creating := hle
    omega
  · -- no job runs, so the manager holds what is cached
    have hcells : (e.view o).managed.length = (e.view o).cells.length := by
      have hno : (e.view o).jobs = [] := hno
      unfold ManagerView.managed
      rw [hno]
      simp
    have hmax := h.max o
    have hle : (((e.view o).cells.length + pm.view.creating : ℕ) : ℤ) ≤ (e.mgr o).maxProcessNum := hle
    omega

/-- What the call of a job does to the users: a new process takes the first one. -/
theorem CallCase.userOf (hc : CallCase e o ok j ev e₁) :
    (ev.added = [] ∧ e₁.users = e.users ∧ e₁.userOf = e.userOf) ∨
    ∃ user key name, ev = .createOk e.procs.length ∧ e.users = user :: e₁.users ∧
      e₁.procs = e.procs ++ [Process.new user key name o] := by
  cases hc with
  | plain hp => cases hp <;> exact Or.inl ⟨rfl, rfl, rfl⟩
  | create hu => exact Or.inr ⟨_, _, _, rfl, hu, rfl⟩
  | nameChange _ | refused _ _ | refusedClose _ _ | release _ => exact Or.inl ⟨rfl, rfl, rfl⟩
  | lost hp _ _ _ | killed hp _ _ _ _ | leaveChange hp _ | closeLost hp _ _ _
  | closeKilled hp _ _ _ _ | leaveClose hp _ =>
    exact Or.inl ⟨rfl, rfl, userOf_setProc hp rfl⟩

/-- A step of a job keeps the room. -/
theorem RoomInv.job (h : e.RoomInv limit users) (hn : e.NameInv) (hinv : e.CacheInv)
    (ht : (e.view o).task = some (t, jobs)) (hi : jobs[i]? = some j) (hc : CallCase e o ok j ev e₁)
    (hj : ProcessManager.JobCase (e.view o) t jobs i j ev pm.view)
    (hmax : pm.maxProcessNum = (e.mgr o).maxProcessNum) : (e₁.settle o pm).RoomInv limit users := by
  have hview : ∀ o, e₁.view o = e.view o := fun o => congrArg (fun mgr => (mgr o).view) hc.mgr
  have hflow := flow_of_job ht hi hj (hinv.live o) (hinv.cached_of_changed ht hi)
  have hroom : ((pm.view.managed.length + pm.view.creating : ℕ) : ℤ) ≤ limit o := by
    have hle := hflow.length_le
    have hcr := creating_of_job ht hi hj
    have := h.room o
    omega
  refine h.next (mgr_setMgr_maxProcessNum hc.mgr hmax) (view_settle ..)
    (fun ho => (view_settle_of_ne _ ho _).trans (hview _)) (hn.frees o) hflow rfl ?_ ?_ hroom
  · rcases hc.userOf with ⟨hadd, hus, -⟩ | ⟨user, key, name, rfl, hus, hprocs⟩
    · rw [hadd, hus]
      exact List.Perm.refl _
    · have huser : (e₁.settle o pm).userOf e.procs.length = some user := by
        show e₁.procs[e.procs.length]?.map (·.user) = some user
        rw [hprocs, List.getElem?_concat_length]
        rfl
      rw [hus]
      show ([e.procs.length].filterMap _ ++ _).Perm _
      rw [List.filterMap_cons_some huser]
      exact List.Perm.refl _
  · intro pid hpid
    rcases hc.userOf with ⟨-, -, huser⟩ | ⟨user, key, name, rfl, hus, hprocs⟩
    · exact congrFun huser pid
    · obtain ⟨p, hp⟩ := hn.heldPids hpid
      show e₁.procs[pid]?.map (·.user) = e.procs[pid]?.map (·.user)
      rw [hprocs, hp, getElem?_concat_of_some hp]

/-- `ChangeProcessState` keeps the room. -/
theorem RoomInv.changeProcessState {name : String} {toBusy : Bool} {key : RequestGroupKey}
    (h : e.RoomInv limit users) (hn : e.NameInv) (hc : e.CacheInv)
    (hpm : (e.mgr o).changeProcessState found name toBusy key = some pm) :
    (e.settle o pm).RoomInv limit users := by
  have hm : CellsMoved (e.view o) pm.view := cellsMoved_of (hc.live o) hpm
  have hmax :=
    ProcessManager.maxProcessNum_of_settings (ProcessManager.settings_changeProcessState hpm)
  refine h.turned hn (mgr_setMgr_maxProcessNum rfl hmax) (turned_settle e o pm) hm.flow ?_
  have hroom := h.room o
  unfold ManagerView.creating at hroom ⊢
  rw [hm.managed.length_eq, hm.jobs]
  exact hroom

theorem RoomInv.congr (h : e.RoomInv limit users) (hm : e'.mgr = e.mgr) (hp : e'.procs = e.procs)
    (hu : e'.users = e.users) : e'.RoomInv limit users := by
  have hview : e'.view = e.view := by
    unfold Engine.view
    rw [hm]
  refine ⟨?_, ?_, ?_⟩
  · rw [hm]; exact h.max
  · rw [hview]; exact h.room
  · unfold heldUsers heldPids userOf
    rw [hview, hp, hu]
    exact h.users

theorem RoomInv.procCall {a a' : Process.Action} (h : e.RoomInv limit users) (hn : e.NameInv)
    (hinv : e.CacheInv) (hc : ProcCall e pid p a a' e₁) : e₁.RoomInv limit users := by
  cases hc with
  | toIdle _ _ hpm => exact h.changeProcessState hn hinv hpm
  | toBusy _ hpm => exact h.changeProcessState hn hinv hpm
  | _ => exact h.congr rfl rfl rfl

theorem RoomInv.putEvents (h : e.RoomInv limit users) (hn : e.NameInv) (events : List ManagerEvent) :
    (e.setMgr o { e.mgr o with eventCh := (e.mgr o).eventCh ++ events }).RoomInv limit users :=
  h.turned hn (mgr_setMgr_maxProcessNum rfl rfl) (turned_putEvents (hn.frees o) events)
    (Flow.refl rfl rfl rfl) (h.room o)

/-- Every step keeps the room. -/
theorem RoomInv.step (h : e.RoomInv limit users) (hn : e.NameInv) (hinv : e.CacheInv)
    (hact : act cfg e a = .ok (e', outs)) : e'.RoomInv limit users := by
  cases a with
  | request o msg => cases hact; exact h.putEvents hn _
  | manager o a =>
    obtain ⟨pm, ha, hpm, rfl, -⟩ := act_manager hact
    exact h.turn hn hinv ha hpm
  | job o i ok =>
    obtain ⟨t, jobs, j, ev, e₁, pm, ht, hi, hc, hpm, hj, rfl, -⟩ := act_job hact
    exact h.job hn hinv ht hi (callJob_case hc) hj (ProcessManager.maxProcessNum_stepJob hpm)
  | proc pid a =>
    cases act_step hact with
    | @proc _ p p' _ a' e₁ _ hp hc hs =>
      obtain ⟨hprocs, -, -⟩ := hc.same
      have hset := (h.procCall hn hinv hc).setProc (hprocs ▸ hp) hs.user
      exact hset.putEvents (hn.procStep hp hc hs) _
  | connect sid =>
    cases act_step hact with
    | connect _ => exact h.congr rfl rfl rfl
  | register sid =>
    cases act_step hact with
    | register _ _ hp hs => exact h.setProc hp hs.user
  | respond sid msg =>
    cases act_step hact with
    | respond _ _ hp hs => exact h.setProc hp hs.user
  | exit sid =>
    cases act_step hact with
    | exit _ => exact h.congr rfl rfl rfl

/-! ## Runs -/

/-- The limits of the managers: `MaxOriginalProcessNum`, and `CallContractDepth` times
    as much for the processes of cross calls. -/
def processLimit (maxOriginalProcessNum callContractDepth : ℕ) : Bool → ℤ
  | true => maxOriginalProcessNum
  | false => maxOriginalProcessNum * callContractDepth

/-- The users of the processes in the caches of both managers. -/
def cachedUsers (e : Engine) : List ℕ :=
  ((e.view true).cells ++ (e.view false).cells).filterMap fun cell => e.userOf cell.2

/-- Without handlers, the managers hold what they have cached. -/
theorem heldUsers_eq_cachedUsers (h : ∀ o, (e.mgr o).task = none) : e.heldUsers = e.cachedUsers := by
  have hheld : ∀ o, (e.view o).managed = (e.view o).cells.map Prod.snd := by
    intro o
    unfold ManagerView.managed
    rw [jobs_of_no_task (h o)]
    exact List.append_nil _
  unfold heldUsers heldPids cachedUsers
  rw [hheld, hheld, ← List.map_append, List.filterMap_map]
  rfl

theorem roomInv_reach {releaseNum : Bool → ℤ} (hlim : ∀ o, 0 ≤ limit o)
    (h : Reach (Engine.step cfg) ChangesCached (new limit releaseNum users) e) :
    e.NameInv ∧ e.CacheInv ∧ e.RoomInv limit users := by
  refine h.inv (I := fun e => e.NameInv ∧ e.CacheInv ∧ e.RoomInv limit users)
    ⟨nameInv_new .., cacheInv_new .., roomInv_new releaseNum hlim users⟩
    fun {e a e'} hinv hok hstep => ?_
  obtain ⟨outs, hact⟩ := step_eq_some hstep
  obtain ⟨hn, hc, hr⟩ := hinv
  exact ⟨hn.step (act_step hact), hc.step hn hok (act_step hact), hr.step hn hc hact⟩

/-- A process that is about to be created finds a user. -/
theorem RoomInv.users_ne_nil {m d : ℕ} (h : e.RoomInv (processLimit m d) users) (hn : e.NameInv)
    (hlen : users.length = m * (d + 1)) (hj : j ∈ (e.view o).jobs) (hc : j.creates = true) :
    e.users ≠ [] := by
  intro hnil
  have hperm := h.users.length_eq
  rw [hnil, List.nil_append, hn.length_heldUsers, hlen] at hperm
  have hheld : e.heldPids.length = (e.view true).managed.length + (e.view false).managed.length :=
    List.length_append
  have hpos : 0 < (e.view o).creating := List.countP_pos_iff.2 ⟨j, hj, hc⟩
  have htrue := h.room true
  have hfalse := h.room false
  have hsum : m * (d + 1) = m + m * d := by rw [Nat.mul_add, Nat.mul_one, Nat.add_comm]
  simp only [processLimit] at htrue hfalse
  cases o
  · omega
  · omega

/-- **Room and users.**  In every run in which only processes in the cache are changed,
    the managers keep to their limits, every user waits in the queue or belongs to one
    entry of a cache while no handler runs, and `createNewProcess` finds a user. -/
theorem capacity_and_users {m d : ℕ} {releaseNum : Bool → ℤ} (hu : users.Nodup)
    (hlen : users.length = m * (d + 1))
    (h : Reach (Engine.step cfg) ChangesCached (new (processLimit m d) releaseNum users) e) :
    (∀ o, ((e.mgr o).idleProcesses.size + (e.mgr o).busyProcesses.size : ℤ) ≤ processLimit m d o) ∧
    ((∀ o, (e.mgr o).task = none) →
      (e.users ++ e.cachedUsers).Perm users ∧ (e.users ++ e.cachedUsers).Nodup) ∧
    ∀ o key name, Job.named key name ∈ (e.view o).jobs →
      ∃ r, e.createNewProcess o key name = .ok r := by
  have hlim : ∀ o, 0 ≤ processLimit m d o := by
    rintro (_ | _)
    · exact Int.natCast_nonneg (m * d)
    · exact Int.natCast_nonneg m
  obtain ⟨hn, -, hr⟩ := roomInv_reach hlim h
  refine ⟨fun o => ?_, fun htask => ?_, fun o key name hj => ?_⟩
  · have hroom := hr.room o
    have hcells : (e.view o).managed.length = (e.view o).cells.length + _ :=
      List.length_append.trans (congrArg (· + _) (List.length_map _))
    have hlen : (e.view o).cells.length =
        (e.mgr o).idleProcesses.size + (e.mgr o).busyProcesses.size := length_cells _
    omega
  · have hperm := hr.users
    rw [heldUsers_eq_cachedUsers htask] at hperm
    exact ⟨hperm, hperm.nodup_iff.2 hu⟩
  · have hne := hr.users_ne_nil hn hlen hj rfl
    unfold createNewProcess
    cases hus : e.users with
    | nil => exact absurd hus hne
    | cons user rest => exact ⟨_, rfl⟩

/-- A cross call waits for a process, which has got its name. -/
def Creating (e : Engine) : Bool :=
  (e.view true).busy.size == 1 && (e.view false).jobs.any fun
    | .named _ _ => true
    | _ => false

set_option maxRecDepth 20000 in
/-- A process has been changed, and another one is created. -/
theorem capacity_and_users_changed : ∃ e key name,
    Reach (Engine.step .sample) ChangesCached (new (processLimit 1 1) (fun _ => 1) [10000, 10001]) e ∧
    Job.named key name ∈ (e.view false).jobs ∧ (∃ r, e.createNewProcess false key name = .ok r) ∧
    ((e.mgr true).idleProcesses.size + (e.mgr true).busyProcesses.size : ℤ) ≤ 1 := by
  obtain ⟨e, h, hP⟩ := exists_reach (Engine.step .sample) ChangesCached
    (new (processLimit 1 1) (fun _ => 1) [10000, 10001]) Creating
    (runToIdle ++ runChange ⟨"chain1", "asset", "v1"⟩ true ++ [.job true 0 true, .job true 0 true,
      .manager true .advance, .request false ⟨.sample, 1⟩, .manager false .recvEvent,
      .job false 0 true]) (by decide)
  obtain ⟨-, hjobs⟩ := Bool.and_eq_true_iff.1 hP
  obtain ⟨j, hj, hnamed⟩ := List.any_eq_true.1 hjobs
  obtain ⟨hroom, -, hcreate⟩ := capacity_and_users (m := 1) (d := 1) (by decide) rfl h
  cases j with
  | named key name => exact ⟨e, key, name, h, hj, hcreate false key name hj, hroom true⟩
  | _ => cases hnamed

/-- No handler runs, and the process of the original manager is cached twice. -/
def CachedTwice (e : Engine) : Bool :=
  (e.mgr true).task.isNone && (e.mgr false).task.isNone &&
    (e.mgr true).idleProcesses.size == 1 && (e.mgr true).busyProcesses.size == 1 &&
    e.cachedUsers == [10000, 10000]

set_option maxRecDepth 20000 in
/-- A limit of one process is exceeded.  The restarted process is idle while its second
    sandbox is still to be launched, so the signal of a change goes to the finished
    command and fails, after the process has got its new name; when a later change
    succeeds, the manager does not find that name in its cache. -/
theorem capacity_exceeded : ∃ e,
    Reach (Engine.step .sample) Free (new (processLimit 1 1) (fun _ => 1) [10000, 10001]) e ∧
    (∀ o, (e.mgr o).task = none) ∧
    processLimit 1 1 true < (e.mgr true).idleProcesses.size + (e.mgr true).busyProcesses.size ∧
    ¬ (e.users ++ e.cachedUsers).Nodup := by
  obtain ⟨e, h, hP⟩ := exists_reach (Engine.step .sample) Free
    (new (processLimit 1 1) (fun _ => 1) [10000, 10001]) CachedTwice
    (runRestarted ++ runChange ⟨"chain1", "asset", "v1"⟩ false ++ [.manager true .advance,
      .proc 0 (.launchProcess (.started 1))] ++ runChange ⟨"chain1", "token", "v1"⟩ true ++
      [.job true 0 true, .job true 0 true, .manager true .advance]) (by decide)
  simp only [CachedTwice, Bool.and_eq_true, beq_iff_eq, Option.isNone_iff_eq_none] at hP
  obtain ⟨⟨⟨⟨htrue, hfalse⟩, hidle⟩, hbusy⟩, hcached⟩ := hP
  refine ⟨e, h, ?_, ?_, ?_⟩
  · rintro (_ | _)
    · exact hfalse
    · exact htrue
  · rw [hidle, hbusy]
    decide
  · rw [hcached]
    intro hnd
    have := (List.nodup_append.1 hnd).2.1
    revert this
    decide

end Engine

end VmEngine
