/-
  What the steps of a process manager do to its processes.

  The waiting groups and the process groups do not matter here: a `View` keeps the
  names under which processes are cached, the names given so far, the messages, the
  running task and the users that were freed.  Every helper function acts on the view
  by an equation; `turn_case` and `stepJob_case` list what the steps do.
-/
import VmEngine.Core.ManagerStep
import VmEngine.Lib.Joined

namespace VmEngine

/-! ## Names -/

variable {cnt l : ℕ} {o : Bool}

theorem constructProcessName_overallIndex {k k' : RequestGroupKey} {l' n n' : ℕ} {o' : Bool}
    (h : constructProcessName k l n o = constructProcessName k' l' n' o') : n = n' := by
  have hl : ∀ (k : RequestGroupKey) (l : ℕ) (o : Bool),
      [k.chainID, if o then "o" else "c", k.contractName, k.contractVersion, toString l] ≠ [] :=
    fun _ _ _ => List.cons_ne_nil _ _
  exact eq_of_intercalate_eq (hl k l o) (hl k' l' o') h

/-- The name was generated when the counter was at most `cnt`. -/
def NameBelow (cnt : ℕ) (name : String) : Prop :=
  ∃ key localIndex n o, n ≤ cnt ∧ name = constructProcessName key localIndex n o

theorem NameBelow.mono {cnt' : ℕ} {name : String} (h : NameBelow cnt name) (hc : cnt ≤ cnt') :
    NameBelow cnt' name := by
  obtain ⟨key, l, n, o, hn, hname⟩ := h
  exact ⟨key, l, n, o, hn.trans hc, hname⟩

/-- The next name is new. -/
theorem not_nameBelow {key : RequestGroupKey} :
    ¬ NameBelow cnt (constructProcessName key l (cnt + 1) o) := by
  rintro ⟨key', l', n, o', hn, hname⟩
  have := constructProcessName_overallIndex hname
  omega

theorem nameBelow_next {key : RequestGroupKey} :
    NameBelow (cnt + 1) (constructProcessName key l (cnt + 1) o) :=
  ⟨key, l, cnt + 1, o, le_rfl, rfl⟩

/-! ## Views -/

/-- The exit messages among the events. -/
def exitsOf (events : List ManagerEvent) : List SandboxExitMsg :=
  events.filterMap fun
    | .sandboxExit msg => some msg
    | .getProcessReq _ => none

/-- The part of a manager that concerns its processes. -/
structure ManagerView where
  isOrig : Bool
  idle : LinkedMap String ℕ
  busy : LinkedMap String ℕ
  processCnt : ℕ
  eventCh : List ManagerEvent
  task : Option (Task × List Job)
  frees : List ℕ

namespace ManagerView

/-- The jobs of the running task. -/
def jobs (v : ManagerView) : List Job := (v.task.map Prod.snd).getD []

/-- The exit messages that wait. -/
def exits (v : ManagerView) : List SandboxExitMsg := exitsOf v.eventCh

/-- The process is cached under the name. -/
def Cached (v : ManagerView) (name : String) (pid : ℕ) : Prop :=
  v.idle.get? name = some pid ∨ v.busy.get? name = some pid

/-- `removeProcessFromCache`. -/
def uncache (v : ManagerView) (name : String) : ManagerView :=
  { v with idle := v.idle.remove name, busy := v.busy.remove name }

/-- `addProcessToCache`. -/
def cache (v : ManagerView) (name : String) (pid : ℕ) : ManagerView :=
  { v with busy := v.busy.put name pid }

variable {n name : String} {pid : ℕ} {v : ManagerView}

theorem cached_uncache : (v.uncache name).Cached n pid ↔ n ≠ name ∧ v.Cached n pid := by
  unfold Cached uncache
  rw [LinkedMap.get?_remove, LinkedMap.get?_remove]
  by_cases h : n = name
  · simp [h]
  · simp [h]

theorem of_cached_cache {p : ℕ} (h : (v.cache name p).Cached n pid) :
    (n = name ∧ pid = p) ∨ v.Cached n pid := by
  rcases h with h | h
  · exact Or.inr (Or.inl h)
  · rw [cache, LinkedMap.get?_put] at h
    split_ifs at h with hn
    · exact Or.inl ⟨hn, (Option.some.inj h).symm⟩
    · exact Or.inr (Or.inr h)

theorem cached_cache_self (v : ManagerView) (name : String) (pid : ℕ) :
    (v.cache name pid).Cached name pid := Or.inr (LinkedMap.get?_put_self _ _ _)

theorem cached_cache_of_ne {p : ℕ} (h : v.Cached n pid) (hn : n ≠ name) :
    (v.cache name p).Cached n pid := by
  rcases h with h | h
  · exact Or.inl h
  · refine Or.inr ?_
    rw [cache, LinkedMap.get?_put, if_neg hn]
    exact h

end ManagerView

namespace ProcessManager
variable {found : String → Bool} {pm pm' : ProcessManager} {key : RequestGroupKey}

def view (pm : ProcessManager) : ManagerView :=
  ⟨pm.isOrigManager, pm.idleProcesses, pm.busyProcesses, pm.processCnt, pm.eventCh, pm.task,
    freesOf pm.outbox⟩

/-! ## Helper functions -/

theorem view_sendProcessReadyResp (pm : ProcessManager) (n : ℤ) (key : RequestGroupKey) :
    (sendProcessReadyResp found pm n key).1.view = pm.view := by
  unfold sendProcessReadyResp
  split_ifs
  · unfold view freesOf
    simp only [List.filterMap_append, List.filterMap_cons, List.filterMap_nil, List.append_nil]
  · rfl

theorem view_removeFromWaitingGroup (pm : ProcessManager) (key : RequestGroupKey) :
    (removeFromWaitingGroup found pm key).view = pm.view :=
  view_sendProcessReadyResp _ _ _

theorem view_removeFromProcessGroup (pm : ProcessManager) (key : RequestGroupKey) (name : String) :
    (removeFromProcessGroup found pm key name).view = pm.view := by
  unfold removeFromProcessGroup
  split
  · rfl
  · dsimp only
    split_ifs
    · exact view_removeFromWaitingGroup _ _
    · rfl

theorem view_addProcessToCache (pm : ProcessManager) (key : RequestGroupKey) (name : String)
    (pid : ℕ) : (addProcessToCache pm key name pid).view = pm.view.cache name pid := rfl

theorem view_removeProcessFromCache (pm : ProcessManager) (key : RequestGroupKey) (name : String) :
    (removeProcessFromCache found pm key name).view = pm.view.uncache name :=
  view_removeFromProcessGroup _ _ _

/-- `addProcessToIdle` puts the process to the idle ones. -/
theorem view_addProcessToIdle (pm : ProcessManager) (name : String) (pid : ℕ)
    (key : RequestGroupKey) : (addProcessToIdle found pm name pid key).view =
      { pm.view with idle := pm.view.idle.put name pid } := by
  unfold addProcessToIdle
  dsimp only
  split_ifs
  · exact view_removeFromWaitingGroup _ _
  · exact view_removeFromWaitingGroup _ _
  · rfl
  · rfl

variable {name : String}

/-- A process that is closed was cached under the name, and its user is freed. -/
theorem view_closeSandbox (h : closeSandbox found pm key name = .ok pm') :
    ∃ pid, pm.view.Cached name pid ∧
      pm'.view = { pm.view.uncache name with frees := pm.view.frees ++ [pid] } := by
  unfold closeSandbox at h
  split at h
  · cases h
  · rename_i pid hpid
    obtain rfl := Except.ok.inj h
    refine ⟨pid, ?_, ?_⟩
    · exact Option.or_eq_some_iff.1 hpid |>.imp id And.right
    · rw [view_removeProcessFromCache]
      unfold view freesOf ManagerView.uncache
      simp only [List.filterMap_append, List.filterMap_cons, List.filterMap_nil]

/-- `ChangeProcessState` moves a cached process between idle and busy. -/
theorem view_changeProcessState_eq {toBusy : Bool}
    (h : changeProcessState found pm name toBusy key = some pm') :
    ∃ pid, (if toBusy then pm.view.idle else pm.view.busy).get? name = some pid ∧
      pm'.view = if toBusy then
          { pm.view with idle := pm.view.idle.remove name, busy := pm.view.busy.put name pid }
        else { pm.view with idle := pm.view.idle.put name pid, busy := pm.view.busy.remove name } := by
  unfold changeProcessState at h
  split_ifs at h with hb
  · obtain ⟨pid, hpid, rfl⟩ := Option.map_eq_some_iff.1 h
    exact ⟨pid, by rw [if_pos hb]; exact hpid, by rw [if_pos hb]; rfl⟩
  · obtain ⟨pid, hpid, rfl⟩ := Option.map_eq_some_iff.1 h
    refine ⟨pid, by rw [if_neg hb]; exact hpid, ?_⟩
    set pm₁ := addProcessToIdle found pm name pid key with hpm₁
    have h₁ : pm₁.view = _ := view_addProcessToIdle pm name pid key
    have h₂ : pm₁.busyProcesses = pm.view.busy := congrArg ManagerView.busy h₁
    rw [if_neg hb]
    calc _ = { pm₁.view with busy := pm₁.busyProcesses.remove name } := rfl
      _ = _ := by rw [h₂, h₁]

/-- The names that are cached stay the same. -/
theorem view_changeProcessState {toBusy : Bool}
    (h : changeProcessState found pm name toBusy key = some pm') :
    ∃ idle busy pid, pm'.view = { pm.view with idle := idle, busy := busy } ∧
      (if toBusy then pm.view.idle else pm.view.busy).get? name = some pid ∧
      (∀ n p, pm'.view.Cached n p → pm.view.Cached n p) ∧
      ∀ n p, pm.view.Cached n p → ∃ p', pm'.view.Cached n p' := by
  obtain ⟨pid, hpid, hv⟩ := view_changeProcessState_eq h
  cases toBusy with
  | true =>
    have hpid : pm.view.idle.get? name = some pid := hpid
    rw [if_pos rfl] at hv
    refine ⟨_, _, pid, hv, hpid, fun n p hc => ?_, fun n p hc => ?_⟩
    · rw [hv] at hc
      rcases hc with hc | hc
      · exact Or.inl (LinkedMap.get?_of_remove hc)
      · rcases LinkedMap.get?_of_put hc with ⟨rfl, rfl⟩ | hc
        · exact Or.inl hpid
        · exact Or.inr hc
    · rw [hv]
      by_cases hn : n = name
      · exact ⟨pid, Or.inr (by rw [hn]; exact LinkedMap.get?_put_self _ _ _)⟩
      · refine ⟨p, hc.imp (fun hc => ?_) fun hc => ?_⟩
        · exact (LinkedMap.get?_remove_of_ne _ hn).trans hc
        · exact (LinkedMap.get?_put_of_ne _ hn).trans hc
  | false =>
    have hpid : pm.view.busy.get? name = some pid := hpid
    rw [if_neg Bool.false_ne_true] at hv
    refine ⟨_, _, pid, hv, hpid, fun n p hc => ?_, fun n p hc => ?_⟩
    · rw [hv] at hc
      rcases hc with hc | hc
      · rcases LinkedMap.get?_of_put hc with ⟨rfl, rfl⟩ | hc
        · exact Or.inr hpid
        · exact Or.inl hc
      · exact Or.inr (LinkedMap.get?_of_remove hc)
    · rw [hv]
      by_cases hn : n = name
      · exact ⟨pid, Or.inl (by rw [hn]; exact LinkedMap.get?_put_self _ _ _)⟩
      · refine ⟨p, hc.imp (fun hc => ?_) fun hc => ?_⟩
        · exact (LinkedMap.get?_put_of_ne _ hn).trans hc
        · exact (LinkedMap.get?_remove_of_ne _ hn).trans hc

/-! ## Jobs -/

/-- What the step `e` of the job `j` at position `i` does. -/
inductive JobCase (v : ManagerView) (t : Task) (jobs : List Job) (i : ℕ) :
    Job → JobEvent → ManagerView → Prop
  | name {key : RequestGroupKey} {localIndex : ℕ} : JobCase v t jobs i (.create key) .nameNew
      { v with
        processCnt := v.processCnt + 1
        task := some (t, jobs.set i
          (.named key (constructProcessName key localIndex (v.processCnt + 1) v.isOrig))) }
  | createOk {key : RequestGroupKey} {name : String} {pid : ℕ} :
      JobCase v t jobs i (.named key name) (.createOk pid)
        { v with task := some (t, jobs.set i (.made key name pid)) }
  | createFail {key : RequestGroupKey} {name : String} :
      JobCase v t jobs i (.named key name) .createFail { v with task := some (t, jobs.eraseIdx i) }
  | cache {key : RequestGroupKey} {name : String} {pid : ℕ} :
      JobCase v t jobs i (.made key name pid) .cacheNew
        { v.cache name pid with task := some (t.served, jobs.eraseIdx i) }
  | meet {pid : ℕ} {key oldKey : RequestGroupKey} {oldName : String} :
      JobCase v t jobs i (.change pid key) (.nameChange oldKey oldName)
        { v with task := some (t.served, jobs.eraseIdx i) }
  | rename {pid : ℕ} {key oldKey : RequestGroupKey} {oldName : String} {localIndex : ℕ} :
      JobCase v t jobs i (.change pid key) (.nameChange oldKey oldName)
        { v with
          processCnt := v.processCnt + 1
          task := some (t, jobs.set i (.renamed ⟨pid, key, oldKey, oldName,
            constructProcessName key localIndex (v.processCnt + 1) v.isOrig⟩)) }
  | changeFail {c : Change} :
      JobCase v t jobs i (.renamed c) .changeFail { v with task := some (t, jobs.eraseIdx i) }
  | changeKill {c : Change} :
      JobCase v t jobs i (.renamed c) .changeKill { v with task := some (t, jobs.set i (.killed c)) }
  | changeDone {c : Change} :
      JobCase v t jobs i (.killed c) .changeDone { v with task := some (t, jobs.set i (.changed c)) }
  | recache {c : Change} : JobCase v t jobs i (.changed c) .recache
      { (v.uncache c.oldName).cache c.newName c.pid with task := some (t.served, jobs.eraseIdx i) }
  | closeFail {pid : ℕ} :
      JobCase v t jobs i (.close pid) .closeFail { v with task := some (t, jobs.eraseIdx i) }
  | closeKill {pid : ℕ} :
      JobCase v t jobs i (.close pid) .closeKill
        { v with task := some (t, jobs.set i (.closeKilled pid)) }
  | closeDone {pid : ℕ} :
      JobCase v t jobs i (.closeKilled pid) .closeDone
        { v with task := some (t, jobs.set i (.closed pid)) }
  | release {pid pid' : ℕ} {key : RequestGroupKey} {name : String} : v.Cached name pid' →
      JobCase v t jobs i (.closed pid) (.release key name)
        { v.uncache name with
          frees := v.frees ++ [pid']
          task := some (t.served, jobs.eraseIdx i) }

/-- With every group found, `nameNew` gives a name. -/
theorem nameNew_eq (hf : ∀ s, found s = true) (pm : ProcessManager) (t : Task)
    (key : RequestGroupKey) : ∃ localIndex,
      (nameNew found pm t key).1.view = { pm.view with processCnt := pm.view.processCnt + 1 } ∧
      (nameNew found pm t key).2 = some (.named key
        (constructProcessName key localIndex (pm.view.processCnt + 1) pm.view.isOrig)) := by
  have hgen : ∀ pm₁ : ProcessManager, pm₁.view = pm.view → ∃ localIndex,
      (generateProcessName pm₁ key).1.view =
        { pm.view with processCnt := pm.view.processCnt + 1 } ∧
      (generateProcessName pm₁ key).2 =
        constructProcessName key localIndex (pm.view.processCnt + 1) pm.view.isOrig := by
    intro pm₁ h
    rw [← h]
    exact ⟨_, rfl, rfl⟩
  have hsend : (sendProcessReadyResp found pm 1 key).2 = true := by
    unfold sendProcessReadyResp
    rw [if_pos (hf _)]
  unfold nameNew
  dsimp only
  split
  · rw [if_pos hsend]
    obtain ⟨l, h1, h2⟩ := hgen _ (view_sendProcessReadyResp pm 1 key)
    exact ⟨l, h1, by rw [h2]⟩
  · obtain ⟨l, h1, h2⟩ := hgen pm rfl
    exact ⟨l, h1, by rw [← h2]; rfl⟩

theorem view_cacheNew (pm : ProcessManager) (t : Task) (key : RequestGroupKey) (name : String)
    (pid : ℕ) : (cacheNew found pm t key name pid).view = pm.view.cache name pid := by
  unfold cacheNew
  split
  · exact view_addProcessToCache pm key name pid
  · rw [view_addProcessToCache, view_removeFromWaitingGroup]

theorem view_meetIdle (pm : ProcessManager) (t : Task) (key : RequestGroupKey) :
    (meetIdle found pm t key).view = pm.view := by
  unfold meetIdle
  split
  · rfl
  · rw [view_sendProcessReadyResp, view_removeFromWaitingGroup]

theorem view_recache (hf : ∀ s, found s = true) (pm : ProcessManager) (t : Task) (c : Change) :
    (recache found pm t c).view = (pm.view.uncache c.oldName).cache c.newName c.pid := by
  have hmove : ∀ pm₁ : ProcessManager, pm₁.view = pm.view → (moveInCache found pm₁ c).view =
      (pm.view.uncache c.oldName).cache c.newName c.pid := by
    intro pm₁ h
    unfold moveInCache
    rw [view_addProcessToCache, view_removeProcessFromCache, h]
  unfold recache
  split
  · exact hmove pm rfl
  · have hsend : (sendProcessReadyResp found pm 1 c.key).2 = true := by
      unfold sendProcessReadyResp
      rw [if_pos (hf _)]
    dsimp only
    rw [if_pos hsend]
    refine hmove _ ?_
    rw [view_removeFromWaitingGroup, view_sendProcessReadyResp]

/-- Every step of a job is one of `JobCase`. -/
theorem stepJob_case (hf : ∀ s, found s = true) {i : ℕ} {e : JobEvent}
    (h : stepJob found pm i e = .ok pm') :
    ∃ t jobs j, pm.task = some (t, jobs) ∧ jobs[i]? = some j ∧
      JobCase pm.view t jobs i j e pm'.view := by
  obtain ⟨t, jobs, j, pm₁, t₁, next, ht, hj, hr, rfl⟩ := stepJob_run h
  refine ⟨t, jobs, j, ht, hj, ?_⟩
  -- the task is set after the step, so only the rest of the view is open
  have hview : ∀ task, ({ pm₁ with task := task } : ProcessManager).view =
      { pm₁.view with task := task } := fun _ => rfl
  rw [hview]
  cases runJob_case hr with
  | @nameNew key =>
    obtain ⟨l, h1, h2⟩ := nameNew_eq hf pm t key
    rw [h1, h2]
    exact .name
  | createOk => exact .createOk
  | createFail => exact .createFail
  | cacheNew =>
    rw [view_cacheNew]
    exact .cache
  | meet _ =>
    rw [view_meetIdle]
    exact .meet
  | rename _ => exact .rename
  | changeFail => exact .changeFail
  | changeKill => exact .changeKill
  | changeDone => exact .changeDone
  | recache =>
    rw [view_recache hf]
    exact .recache
  | closeFail => exact .closeFail
  | closeKill => exact .closeKill
  | closeDone => exact .closeDone
  | release hc =>
    obtain ⟨pid, hcached, hv⟩ := view_closeSandbox hc
    rw [hv]
    exact .release hcached

/-! ## Handlers -/

/-- The jobs of a task that starts: only the cleaner closes processes, and it does
    nothing else. -/
def StartJobs (v : ManagerView) (t : Task) (jobs : List Job) : Prop :=
  ∀ j ∈ jobs, (t.isClean = false ∧ ((∃ key, j = .create key) ∨
    ∃ n pid key, j = .change pid key ∧ v.idle.get? n = some pid)) ∨
    (t.isClean = true ∧ ∃ n pid, j = .close pid ∧ v.idle.get? n = some pid)

/-- What the other steps of a manager do. -/
inductive TurnCase (v : ManagerView) : ManagerView → Prop
  /-- nothing for the processes -/
  | stay {events : List ManagerEvent} : exitsOf events = v.exits →
      TurnCase v { v with eventCh := events }
  /-- a handler starts its jobs, or its second part -/
  | start {events : List ManagerEvent} {t : Task} {jobs : List Job} : v.jobs = [] →
      exitsOf events = v.exits → StartJobs v t jobs →
      TurnCase v { v with eventCh := events, task := some (t, jobs) }
  | finish : v.jobs = [] → TurnCase v { v with task := none }
  /-- `handleSandboxExitMsg` -/
  | exit {msg : SandboxExitMsg} {rest : List ManagerEvent} {pid : ℕ} : v.task = none →
      v.eventCh = .sandboxExit msg :: rest → v.Cached msg.processName pid →
      TurnCase v
        { v.uncache msg.processName with eventCh := rest, frees := v.frees ++ [pid] }

theorem jobs_view_of_no_task (h : pm.task = none) : pm.view.jobs = [] := by
  unfold ManagerView.jobs view
  rw [h]
  rfl

theorem startJobs_creates {v : ManagerView} {t : Task} (ht : t.isClean = false)
    (keys : List RequestGroupKey) : StartJobs v t (keys.map Job.create) := by
  intro j hj
  obtain ⟨key, -, rfl⟩ := List.mem_map.1 hj
  exact Or.inl ⟨ht, Or.inl ⟨key, rfl⟩⟩

theorem askIdleProcesses_start (pm : ProcessManager) (msg : GetProcessReqMsg) (need : ℤ) :
    ∃ jobs, (askIdleProcesses pm msg need).view =
        { pm.view with task := some (.getProcess msg need true, jobs) } ∧
      StartJobs pm.view (.getProcess msg need true) jobs := by
  refine ⟨_, rfl, fun j hj => ?_⟩
  split_ifs at hj
  · obtain ⟨pid, hpid, rfl⟩ := List.mem_map.1 hj
    obtain ⟨n, hn⟩ := LinkedMap.mem_peek hpid
    exact Or.inl ⟨rfl, Or.inr ⟨n, pid, _, rfl, hn⟩⟩
  · cases hj

theorem handleGetProcessReq_turn {msg : GetProcessReqMsg} {rest : List ManagerEvent}
    (ht : pm.task = none) (hev : pm.eventCh = .getProcessReq msg :: rest)
    (h : handleGetProcessReq found { pm with eventCh := rest } msg = .ok pm') :
    TurnCase pm.view pm'.view := by
  have hexits : exitsOf rest = pm.view.exits := by
    unfold ManagerView.exits view
    rw [hev]
    rfl
  unfold handleGetProcessReq at h
  split_ifs at h
  · obtain rfl := Except.ok.inj h
    rw [view_removeFromWaitingGroup]
    exact .stay hexits
  · dsimp only at h
    split_ifs at h
    · obtain rfl := Except.ok.inj h
      refine .start (jobs_view_of_no_task ht) hexits ?_
      intro j hj
      exact Or.inl ⟨rfl, Or.inl ⟨_, List.eq_of_mem_replicate hj⟩⟩
    · obtain rfl := Except.ok.inj h
      exact .start (jobs_view_of_no_task ht) hexits fun j hj => absurd hj List.not_mem_nil

/-- Every turn of a manager is one of `TurnCase`. -/
theorem turn_case {a : Action} (ha : a.IsTurn = true) (h : act found pm a = .ok pm') :
    TurnCase pm.view pm'.view := by
  cases act_case h with
  | putMsg | job | unchanged | changed => cases ha
  | quiet => exact .stay rfl
  | request ht hev h => exact handleGetProcessReq_turn ht hev h
  | @exit _ _ pm₁ ht hev hc =>
    obtain ⟨pid, hcached, hv⟩ := view_closeSandbox hc
    have hset : ({ pm₁ with allocateNewCh := pm₁.allocateNewCh + 1 } : ProcessManager).view =
        pm₁.view := rfl
    rw [hset, hv]
    exact .exit ht hev hcached
  | clean _ n ht =>
    refine .start (jobs_view_of_no_task ht) rfl fun j hj => ?_
    obtain ⟨pid, hpid, rfl⟩ := List.mem_map.1 hj
    obtain ⟨n, hn⟩ := LinkedMap.mem_peek hpid
    exact Or.inr ⟨rfl, n, pid, rfl, hn⟩
  | allocateIdle _ n ht =>
    refine .start (jobs_view_of_no_task ht) rfl fun j hj => ?_
    rw [← List.map_uncurry_zip_eq_zipWith] at hj
    obtain ⟨⟨pid, key⟩, hpid, rfl⟩ := List.mem_map.1 hj
    obtain ⟨n, hn⟩ := LinkedMap.mem_peek (List.of_mem_zip hpid).1
    exact Or.inl ⟨rfl, Or.inr ⟨n, pid, key, rfl, hn⟩⟩
  | allocateNew _ n ht _ => exact .start (jobs_view_of_no_task ht) rfl (startJobs_creates rfl _)
  | @advance t ht =>
    have hjobs : pm.view.jobs = [] := by
      unfold ManagerView.jobs view
      rw [ht]
      rfl
    cases t with
    | getProcess msg need idleAsked =>
      cases idleAsked with
      | false =>
        obtain ⟨jobs, hv, hs⟩ := askIdleProcesses_start pm msg need
        rw [finishTask, hv]
        exact .start hjobs rfl hs
      | true =>
        unfold finishTask finishGetProcessReq
        dsimp only
        split_ifs
        · exact .finish hjobs
        · exact .finish hjobs
        · rw [view_sendProcessReadyResp]
          exact .finish hjobs
    | allocateIdle => exact .finish hjobs
    | allocateNew => exact .finish hjobs
    | clean n => exact .finish hjobs

end ProcessManager

end VmEngine
