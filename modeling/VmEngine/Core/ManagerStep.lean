/-
  What a step of a process manager does.

  `RunCase` lists the steps of a job and `ActCase` those of the manager, each with what it
  has read; `runJob_case` and `act_case` show that there are no others.  What is proved of
  every step of a manager is proved from these cases.
-/
import VmEngine.Core.ProcessManager

namespace VmEngine

/-- The task closes idle processes. -/
def Task.isClean : Task → Bool
  | .clean _ => true
  | _ => false

theorem Task.isClean_served (t : Task) : t.served.isClean = t.isClean := by cases t <;> rfl

namespace ProcessManager
variable {found : String → Bool} {pm pm' : ProcessManager} {t t' : Task} {j : Job} {e : JobEvent}
  {next : Option Job}

/-! ## Jobs -/

/-- The steps of a job of the task `t`: the manager, the task and what is left of the job. -/
inductive RunCase (found : String → Bool) (pm : ProcessManager) (t : Task) :
    Job → JobEvent → ProcessManager → Task → Option Job → Prop
  | nameNew {key : RequestGroupKey} : RunCase found pm t (.create key) .nameNew
      (nameNew found pm t key).1 t (nameNew found pm t key).2
  | createOk {key : RequestGroupKey} {name : String} {pid : ℕ} :
      RunCase found pm t (.named key name) (.createOk pid) pm t (some (.made key name pid))
  | createFail {key : RequestGroupKey} {name : String} :
      RunCase found pm t (.named key name) .createFail pm t none
  | cacheNew {key : RequestGroupKey} {name : String} {pid : ℕ} :
      RunCase found pm t (.made key name pid) .cacheNew (cacheNew found pm t key name pid) t.served
        none
  | meet {pid : ℕ} {key oldKey : RequestGroupKey} {oldName : String} : SameContract key oldKey →
      RunCase found pm t (.change pid key) (.nameChange oldKey oldName) (meetIdle found pm t key)
        t.served none
  | rename {pid : ℕ} {key oldKey : RequestGroupKey} {oldName : String} : ¬ SameContract key oldKey →
      RunCase found pm t (.change pid key) (.nameChange oldKey oldName)
        (generateProcessName pm key).1 t
        (some (.renamed ⟨pid, key, oldKey, oldName, (generateProcessName pm key).2⟩))
  | changeFail {c : Change} : RunCase found pm t (.renamed c) .changeFail pm t none
  | changeKill {c : Change} : RunCase found pm t (.renamed c) .changeKill pm t (some (.killed c))
  | changeDone {c : Change} : RunCase found pm t (.killed c) .changeDone pm t (some (.changed c))
  | recache {c : Change} :
      RunCase found pm t (.changed c) .recache (recache found pm t c) t.served none
  | closeFail {pid : ℕ} : RunCase found pm t (.close pid) .closeFail pm t none
  | closeKill {pid : ℕ} : RunCase found pm t (.close pid) .closeKill pm t (some (.closeKilled pid))
  | closeDone {pid : ℕ} :
      RunCase found pm t (.closeKilled pid) .closeDone pm t (some (.closed pid))
  | release {pid : ℕ} {key : RequestGroupKey} {name : String} {pm' : ProcessManager} :
      closeSandbox found pm key name = .ok pm' →
      RunCase found pm t (.closed pid) (.release key name) pm' t.served none

theorem runJob_case (h : runJob found pm t j e = .ok (pm', t', next)) :
    RunCase found pm t j e pm' t' next := by
  unfold runJob at h
  split at h
  · cases h; exact .nameNew
  · cases h; exact .createOk
  · cases h; exact .createFail
  · cases h; exact .cacheNew
  · split_ifs at h with hs
    · cases h; exact .meet hs
    · cases h; exact .rename hs
  · cases h; exact .changeFail
  · cases h; exact .changeKill
  · cases h; exact .changeDone
  · cases h; exact .recache
  · cases h; exact .closeFail
  · cases h; exact .closeKill
  · cases h; exact .closeDone
  · obtain ⟨pm₁, hc, h⟩ := Go.bind_eq_ok.1 h
    cases h
    exact .release hc
  · cases h

/-- The jobs when the one at position `i` goes on, or ends. -/
def jobsAfter (jobs : List Job) (i : ℕ) : Option Job → List Job
  | some j => jobs.set i j
  | none => jobs.eraseIdx i

theorem stepJob_run {i : ℕ} (h : stepJob found pm i e = .ok pm') :
    ∃ t jobs j pm₁ t' next, pm.task = some (t, jobs) ∧ jobs[i]? = some j ∧
      runJob found pm t j e = .ok (pm₁, t', next) ∧
      pm' = { pm₁ with task := some (t', jobsAfter jobs i next) } := by
  unfold stepJob at h
  split at h
  · cases h
  · rename_i t jobs ht
    split at h
    · cases h
    · rename_i j hj
      obtain ⟨⟨pm₁, t', next⟩, hr, h⟩ := Go.bind_eq_ok.1 h
      cases h
      refine ⟨t, jobs, j, pm₁, t', next, ht, hj, hr, ?_⟩
      cases next <;> rfl

/-! ## What the jobs leave alone -/

/-- The limits of a manager, its timer and its running handler. -/
def settings (pm : ProcessManager) : ℤ × ℤ × Timer × Option (Task × List Job) :=
  (pm.maxProcessNum, pm.releaseNum, pm.cleanTimer, pm.task)

theorem maxProcessNum_of_settings (h : pm'.settings = pm.settings) :
    pm'.maxProcessNum = pm.maxProcessNum := congrArg Prod.fst h

theorem cleanTimer_of_settings (h : pm'.settings = pm.settings) : pm'.cleanTimer = pm.cleanTimer :=
  congrArg (·.2.2.1) h

theorem task_of_settings (h : pm'.settings = pm.settings) : pm'.task = pm.task :=
  congrArg (·.2.2.2) h

theorem settings_sendProcessReadyResp (pm : ProcessManager) (n : ℤ) (key : RequestGroupKey) :
    (sendProcessReadyResp found pm n key).1.settings = pm.settings := by
  unfold sendProcessReadyResp
  split_ifs <;> rfl

theorem settings_removeFromWaitingGroup (pm : ProcessManager) (key : RequestGroupKey) :
    (removeFromWaitingGroup found pm key).settings = pm.settings :=
  settings_sendProcessReadyResp _ _ _

theorem settings_removeProcessFromCache (pm : ProcessManager) (key : RequestGroupKey)
    (name : String) : (removeProcessFromCache found pm key name).settings = pm.settings := by
  unfold removeProcessFromCache removeFromProcessGroup
  split
  · rfl
  · dsimp only
    split_ifs
    · exact settings_removeFromWaitingGroup _ _
    · rfl

theorem settings_moveInCache (pm : ProcessManager) (c : Change) :
    (moveInCache found pm c).settings = pm.settings :=
  settings_removeProcessFromCache pm c.oldKey c.oldName

theorem settings_closeSandbox {key : RequestGroupKey} {name : String}
    (h : closeSandbox found pm key name = .ok pm') : pm'.settings = pm.settings := by
  unfold closeSandbox at h
  split at h
  · cases h
  · obtain rfl := Except.ok.inj h
    exact settings_removeProcessFromCache _ _ _

theorem settings_changeProcessState {key : RequestGroupKey} {name : String} {toBusy : Bool}
    (h : changeProcessState found pm name toBusy key = some pm') : pm'.settings = pm.settings := by
  unfold changeProcessState at h
  split_ifs at h
  · obtain ⟨pid, -, rfl⟩ := Option.map_eq_some_iff.1 h
    rfl
  · obtain ⟨pid, -, rfl⟩ := Option.map_eq_some_iff.1 h
    unfold addProcessToIdle
    dsimp only
    split_ifs
    · exact settings_removeFromWaitingGroup _ _
    · exact settings_removeFromWaitingGroup _ _
    · rfl
    · rfl

theorem settings_runJob (h : runJob found pm t j e = .ok (pm', t', next)) :
    pm'.settings = pm.settings := by
  cases runJob_case h with
  | nameNew =>
    unfold nameNew
    cases t
    case allocateNew =>
      dsimp only
      split_ifs
      · exact settings_sendProcessReadyResp _ _ _
      · exact settings_sendProcessReadyResp _ _ _
    all_goals rfl
  | cacheNew =>
    unfold cacheNew
    split
    · rfl
    · exact settings_removeFromWaitingGroup _ _
  | meet _ =>
    unfold meetIdle
    split
    · rfl
    · rw [settings_sendProcessReadyResp, settings_removeFromWaitingGroup]
  | recache =>
    unfold recache
    split
    · exact settings_moveInCache _ _
    · dsimp only
      split_ifs
      · rw [settings_moveInCache, settings_removeFromWaitingGroup, settings_sendProcessReadyResp]
      · exact settings_sendProcessReadyResp _ _ _
  | release hc => exact settings_closeSandbox hc
  | _ => rfl

theorem maxProcessNum_stepJob {i : ℕ} (h : stepJob found pm i e = .ok pm') :
    pm'.maxProcessNum = pm.maxProcessNum := by
  obtain ⟨t, jobs, j, pm₁, t₁, next, -, -, hr, rfl⟩ := stepJob_run h
  have hm := maxProcessNum_of_settings (settings_runJob hr)
  exact hm

theorem cleanTimer_stepJob {i : ℕ} (h : stepJob found pm i e = .ok pm') :
    pm'.cleanTimer = pm.cleanTimer := by
  obtain ⟨t, jobs, j, pm₁, t₁, next, -, -, hr, rfl⟩ := stepJob_run h
  have hm := cleanTimer_of_settings (settings_runJob hr)
  exact hm

/-! ## The manager -/

inductive ActCase (found : String → Bool) (pm : ProcessManager) : Action → ProcessManager → Prop
  | putMsg (e : ManagerEvent) :
      ActCase found pm (.putMsg e) { pm with eventCh := pm.eventCh ++ [e] }
  /-- only the timer and the two counters change -/
  | quiet {a : Action} (timer : Timer) (allocateIdleCh allocateNewCh : ℕ) : a.IsTurn = true →
      (timer = pm.cleanTimer ∧ a ≠ .recvClean ∨ a = .recvClean ∨ a = .expire) →
      ActCase found pm a { pm with
        cleanTimer := timer, allocateIdleCh := allocateIdleCh, allocateNewCh := allocateNewCh }
  | request {msg : GetProcessReqMsg} {rest : List ManagerEvent} {pm' : ProcessManager} :
      pm.task = none → pm.eventCh = .getProcessReq msg :: rest →
      handleGetProcessReq found { pm with eventCh := rest } msg = .ok pm' →
      ActCase found pm .recvEvent pm'
  | exit {msg : SandboxExitMsg} {rest : List ManagerEvent} {pm₁ : ProcessManager} :
      pm.task = none → pm.eventCh = .sandboxExit msg :: rest →
      closeSandbox found { pm with eventCh := rest } msg.key msg.processName = .ok pm₁ →
      ActCase found pm .recvEvent { pm₁ with allocateNewCh := pm₁.allocateNewCh + 1 }
  | clean (timer : Timer) (n : ℕ) : pm.task = none →
      ActCase found pm .recvClean { pm with
        cleanTimer := timer, task := some (.clean 0, (pm.idleProcesses.peek n).map Job.close) }
  | allocateIdle (allocateIdleCh n : ℕ) : pm.task = none →
      ActCase found pm .recvAllocateIdle { pm with
        allocateIdleCh := allocateIdleCh
        task := some (.allocateIdle,
          List.zipWith Job.change (pm.idleProcesses.peek n) (pm.waitingRequestGroups.take n)) }
  | allocateNew (allocateNewCh n : ℕ) : pm.task = none → (n : ℤ) ≤ pm.getAvailableProcessNum →
      ActCase found pm .recvAllocateNew { pm with
        allocateNewCh := allocateNewCh
        task := some (.allocateNew, (pm.waitingRequestGroups.take n).map Job.create) }
  | job {i : ℕ} {e : JobEvent} {pm' : ProcessManager} : stepJob found pm i e = .ok pm' →
      ActCase found pm (.job i e) pm'
  | advance {t : Task} : pm.task = some (t, []) →
      ActCase found pm .advance (finishTask found pm t)
  /-- the process is not found -/
  | unchanged {name : String} {toBusy : Bool} {key : RequestGroupKey} : pm.task = none →
      ActCase found pm (.changeProcessState name toBusy key) pm
  | changed {name : String} {toBusy : Bool} {key : RequestGroupKey} {pm' : ProcessManager} :
      pm.task = none → changeProcessState found pm name toBusy key = some pm' →
      ActCase found pm (.changeProcessState name toBusy key) pm'

/-- Every step is one of these. -/
theorem act_case {a : Action} (h : act found pm a = .ok pm') : ActCase found pm a pm' := by
  cases a with
  | putMsg e => cases h; exact .putMsg e
  | recvEvent =>
    simp only [act] at h
    split at h
    · rename_i ev rest ht hev
      cases ev with
      | getProcessReq msg => exact .request ht hev h
      | sandboxExit msg =>
        obtain ⟨pm₁, hc, h⟩ := Go.bind_eq_ok.1 h
        cases h
        exact .exit ht hev hc
    · cases h
  | recvClean =>
    simp only [act, handleCleanIdleProcesses] at h
    split at h
    · rename_i timer ht _
      split_ifs at h
      · cases h; exact .quiet timer _ _ rfl (Or.inr (Or.inl rfl))
      · cases h; exact .clean timer _ ht
    · cases h
  | recvAllocateIdle =>
    simp only [act, handleAllocateIdleProcesses] at h
    split at h
    · rename_i n ht _
      split_ifs at h
      · cases h; exact .quiet _ n _ rfl (Or.inl ⟨rfl, by simp⟩)
      · cases h; exact .allocateIdle n _ ht
    · cases h
  | recvAllocateNew =>
    simp only [act, handleAllocateNewProcesses] at h
    split at h
    · rename_i n ht _
      split_ifs at h with hzero hneg
      · cases h; exact .quiet _ _ n rfl (Or.inl ⟨rfl, by simp⟩)
      · cases h
        refine .allocateNew n _ ht ?_
        have hle := min_le_right (pm.waitingRequestGroups.length : ℤ) pm.getAvailableProcessNum
        exact (Int.toNat_of_nonneg (not_lt.1 hneg)).trans_le hle
    · cases h
  | expire =>
    simp only [act] at h
    split at h
    · cases h
    · rename_i timer _
      cases h
      exact .quiet timer _ _ rfl (Or.inr (Or.inr rfl))
  | job i ev => exact .job h
  | advance =>
    simp only [act] at h
    split at h
    · rename_i t ht
      cases h
      exact .advance ht
    · cases h
  | changeProcessState name toBusy key =>
    simp only [act] at h
    split at h
    · rename_i ht
      cases h
      cases hc : changeProcessState found pm name toBusy key with
      | none => exact .unchanged ht
      | some pm' => exact .changed ht hc
    · cases h

end ProcessManager

end VmEngine
