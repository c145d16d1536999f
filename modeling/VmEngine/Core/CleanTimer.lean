/-
  The clean timer of a process manager.

  `NewProcessManager` starts the timer, and its tick runs `handleCleanIdleProcesses`, which
  starts it again at its end.  The handler has another end: when there is nothing to release
  it returns at once, and the timer is not started again.  No other code of the manager
  touches the timer, so after the first such tick there is no further cleaning
  (`cleaner_alive`).
-/
import VmEngine.Core.ManagerStep

namespace VmEngine

namespace ProcessManager
variable {found : String → Bool} {pm pm' : ProcessManager}

/-- The manager alone; which groups the scheduler has may change from step to step. -/
def step (pm : ProcessManager) (a : (String → Bool) × Action) : Option ProcessManager :=
  (act a.1 pm a.2).toOption

/-- The cleaning handler is running, since it has found something to release. -/
def cleans (pm : ProcessManager) : Bool := pm.task.any (·.1.isClean)

/-- A further cleaning is scheduled: the timer runs or its tick waits to be read, or the
    handler that will start the timer is running. -/
def Cleaning (pm : ProcessManager) : Prop := pm.cleanTimer.Pending ∨ pm.cleans = true

instance (pm : ProcessManager) : Decidable pm.Cleaning := inferInstanceAs (Decidable (_ ∨ _))

/-- How many processes a tick finds to release. -/
def toRelease (pm : ProcessManager) : ℤ :=
  min (pm.releaseNum - pm.getAvailableProcessNum) pm.idleProcesses.size

/-- A tick is read only when there is something to release. -/
def CleanOk (pm : ProcessManager) (a : (String → Bool) × Action) : Prop :=
  a.2 = .recvClean → 0 < pm.toRelease

instance : DecidableRel CleanOk := fun _ _ => inferInstanceAs (Decidable (_ → _))

/-! ## What a step does to the timer -/

inductive CleanCase (pm : ProcessManager) : Action → ProcessManager → Prop
  | kept {a : Action} {pm' : ProcessManager} : a ≠ .recvClean → pm'.cleanTimer = pm.cleanTimer →
      pm'.cleans = pm.cleans → CleanCase pm a pm'
  | fired : pm.cleanTimer.arm = .running →
      CleanCase pm .expire { pm with cleanTimer := ⟨.stopped, true⟩ }
  /-- the handler returns at once -/
  | nothing : pm.cleanTimer.tick = true → pm.cleans = false → pm.toRelease ≤ 0 →
      CleanCase pm .recvClean { pm with cleanTimer := { pm.cleanTimer with tick := false } }
  | begins {pm' : ProcessManager} : pm.cleanTimer.tick = true → 0 < pm.toRelease →
      pm'.cleanTimer = { pm.cleanTimer with tick := false } → pm'.cleans = true →
      CleanCase pm .recvClean pm'
  | ends (n : ℕ) : pm.cleans = true → CleanCase pm .advance (finishClean pm n)

theorem cleans_of_no_task (h : pm.task = none) : pm.cleans = false := by
  simp [cleans, h]

/-- A job does not change which handler it belongs to. -/
theorem cleans_stepJob {i : ℕ} {e : JobEvent} (h : stepJob found pm i e = .ok pm') :
    pm'.cleans = pm.cleans := by
  obtain ⟨t, jobs, j, pm₁, t', next, ht, -, hr, rfl⟩ := stepJob_run h
  have hserved : t' = t ∨ t' = t.served := by
    cases runJob_case hr <;> simp
  rcases hserved with rfl | rfl
  · simp [cleans, ht]
  · simp [cleans, ht, Task.isClean_served]

theorem request_clean {msg : GetProcessReqMsg} (h : handleGetProcessReq found pm msg = .ok pm')
    (ht : pm.task = none) :
    pm'.cleanTimer = pm.cleanTimer ∧ pm'.cleans = false := by
  simp only [handleGetProcessReq] at h
  split_ifs at h
  · cases h
    have hs : (removeFromWaitingGroup found pm msg.key).settings = pm.settings :=
      settings_removeFromWaitingGroup ..
    exact ⟨cleanTimer_of_settings hs, cleans_of_no_task ((task_of_settings hs).trans ht)⟩
  · cases h
    exact ⟨rfl, rfl⟩
  · cases h
    exact ⟨rfl, rfl⟩

/-- The end of the other handlers. -/
theorem finishTask_clean (found : String → Bool) (pm : ProcessManager) {t : Task}
    (h : t.isClean = false) :
    (finishTask found pm t).cleanTimer = pm.cleanTimer ∧ (finishTask found pm t).cleans = false := by
  cases t with
  | getProcess msg need idleAsked =>
    cases idleAsked with
    | false => exact ⟨rfl, rfl⟩
    | true =>
      simp only [finishTask, finishGetProcessReq]
      split_ifs
      · exact ⟨rfl, rfl⟩
      · exact ⟨rfl, rfl⟩
      · have hs : (sendProcessReadyResp found { pm with task := none } (msg.processNum - need)
            msg.key).1.settings = { pm with task := none }.settings :=
          settings_sendProcessReadyResp ..
        have hc := cleanTimer_of_settings hs
        exact ⟨hc, cleans_of_no_task (task_of_settings hs)⟩
  | allocateIdle => exact ⟨rfl, rfl⟩
  | allocateNew => exact ⟨rfl, rfl⟩
  | clean n => cases h

theorem recvClean_clean (h : act found pm .recvClean = .ok pm') : CleanCase pm .recvClean pm' := by
  simp only [act] at h
  split at h
  · rename_i t ht hrecv
    obtain ⟨htick, rfl⟩ := Timer.recv_eq_some.1 hrecv
    cases h
    simp only [handleCleanIdleProcesses]
    split_ifs with hle
    · exact .nothing htick (cleans_of_no_task ht) hle
    · exact .begins htick (not_le.1 hle) rfl rfl
  · cases h

theorem expire_clean (h : act found pm .expire = .ok pm') : CleanCase pm .expire pm' := by
  simp only [act] at h
  split at h
  · cases h
  · rename_i t hexp
    obtain ⟨hrun, rfl⟩ := Timer.expire_eq_some.1 hexp
    cases h
    exact .fired hrun

theorem act_clean {a : Action} (h : act found pm a = .ok pm') : CleanCase pm a pm' := by
  cases act_case h with
  | putMsg | unchanged => exact .kept (by simp) rfl rfl
  | quiet _ _ _ _ hwhy =>
    rcases hwhy with ⟨rfl, ha⟩ | rfl | rfl
    · exact .kept ha rfl rfl
    · exact recvClean_clean h
    · exact expire_clean h
  | clean => exact recvClean_clean h
  | request ht _ hreq =>
    obtain ⟨hc, hcl⟩ := request_clean hreq ht
    exact .kept (by simp) hc (hcl.trans (cleans_of_no_task ht).symm)
  | exit ht _ hclose =>
    have hs := settings_closeSandbox hclose
    have hcl := cleans_of_no_task ((task_of_settings hs).trans ht)
    exact .kept (by simp) (cleanTimer_of_settings hs) (hcl.trans (cleans_of_no_task ht).symm)
  | allocateIdle _ _ ht | allocateNew _ _ ht _ =>
    exact .kept (by simp) rfl (cleans_of_no_task ht).symm
  | job h => exact .kept (by simp) (cleanTimer_stepJob h) (cleans_stepJob h)
  | @advance t ht =>
    have hcl : pm.cleans = t.isClean := by simp [cleans, ht]
    cases hclean : t.isClean with
    | false =>
      obtain ⟨htimer, hcl'⟩ := finishTask_clean found pm hclean
      exact .kept (by simp) htimer (hcl'.trans (hclean.symm.trans hcl.symm))
    | true =>
      cases t with
      | clean n => exact .ends n (hcl.trans hclean)
      | _ => cases hclean
  | changed _ hc =>
    have hs := settings_changeProcessState hc
    exact .kept (by simp) (cleanTimer_of_settings hs) (by simp only [cleans, task_of_settings hs])

/-! ## Runs -/

/-- An active timer has no old tick. -/
def SingleTick (pm : ProcessManager) : Prop :=
  pm.cleanTimer.arm ≠ .stopped → pm.cleanTimer.tick = false

theorem CleanCase.singleTick {a : Action} (h : CleanCase pm a pm') (hs : pm.SingleTick) :
    pm'.SingleTick := by
  cases h with
  | kept _ ht _ =>
    intro harm
    rw [ht] at harm ⊢
    exact hs harm
  | fired _ => exact fun harm => absurd rfl harm
  | nothing => exact fun _ => rfl
  | begins _ _ ht _ =>
    intro _
    rw [ht]
  | ends n _ =>
    intro _
    exact Timer.tick_stopAndDrain hs

/-- One step keeps a cleaning scheduled exactly if it satisfies `CleanOk`. -/
theorem CleanCase.cleaning_iff {a : (String → Bool) × Action} (h : CleanCase pm a.2 pm')
    (hs : pm.SingleTick) (hc : pm.Cleaning) : pm'.Cleaning ↔ CleanOk pm a := by
  obtain ⟨found, a⟩ := a
  cases h with
  | kept ha ht hcl =>
    refine iff_of_true ?_ fun h => absurd h ha
    rw [Cleaning, ht, hcl]
    exact hc
  | fired _ => exact iff_of_true (Or.inl (Or.inr rfl)) nofun
  | nothing htick hcl hle =>
    -- the tick was the only thing left of the timer
    have harm : pm.cleanTimer.arm = .stopped := by
      by_contra hne
      rw [hs hne] at htick
      cases htick
    refine iff_of_false ?_ fun h => absurd (h rfl) (not_lt.2 hle)
    rintro ((hrun | htick') | hcl')
    · rw [harm] at hrun
      cases hrun
    · cases htick'
    · rw [cleans] at hcl hcl'
      rw [hcl] at hcl'
      cases hcl'
  | begins _ hpos _ hcl => exact iff_of_true (Or.inr hcl) fun _ => hpos
  | ends n _ => exact iff_of_true (Or.inl (Timer.pending_reset _)) nofun

/-- A manager without a scheduled cleaning stays so. -/
theorem CleanCase.not_cleaning {a : Action} (h : CleanCase pm a pm') (hc : ¬ pm.Cleaning) :
    ¬ pm'.Cleaning := by
  cases h with
  | kept _ ht hcl =>
    rw [Cleaning, ht, hcl]
    exact hc
  | fired hrun => exact absurd (Or.inl (Or.inl hrun)) hc
  | nothing htick _ _ => exact absurd (Or.inl (Or.inr htick)) hc
  | begins htick _ _ _ => exact absurd (Or.inl (Or.inr htick)) hc
  | ends n hcl => exact absurd (Or.inr hcl) hc

theorem step_clean {a : (String → Bool) × Action} (h : step pm a = some pm') :
    CleanCase pm a.2 pm' :=
  act_clean (Go.toOption_eq_some.1 h)

theorem not_cleaning_of_reach (h : Reach step Free pm pm') (hc : ¬ pm.Cleaning) : ¬ pm'.Cleaning :=
  h.inv (I := fun pm => ¬ pm.Cleaning) hc fun hc _ hstep => (step_clean hstep).not_cleaning hc

/-- **The idle cleaner.**  As long as every tick finds something to release, a further
    cleaning is scheduled; a tick that finds nothing leaves none, and there will never be
    one again. -/
theorem cleaner_alive {maxProcessNum releaseNum : ℤ} {o : Bool}
    (h : Reach step CleanOk (new maxProcessNum releaseNum o) pm) :
    pm.Cleaning ∧ ∀ a pm', step pm a = some pm' → (pm'.Cleaning ↔ CleanOk pm a) ∧
      (¬ CleanOk pm a → ∀ pm'', Reach step Free pm' pm'' → ¬ pm''.Cleaning) := by
  obtain ⟨hs, hc⟩ : pm.SingleTick ∧ pm.Cleaning := by
    refine h.inv (I := fun pm => pm.SingleTick ∧ pm.Cleaning) ⟨fun _ => rfl, Or.inl (Or.inl rfl)⟩ ?_
    rintro pm a pm' ⟨hs, hc⟩ hok hstep
    have hcase := step_clean hstep
    exact ⟨hcase.singleTick hs, (hcase.cleaning_iff hs hc).2 hok⟩
  refine ⟨hc, fun a pm' hstep => ?_⟩
  have hiff := (step_clean hstep).cleaning_iff hs hc
  exact ⟨hiff, fun hnot pm'' hr => not_cleaning_of_reach hr fun hc' => hnot (hiff.1 hc')⟩

/-- A process is created, becomes idle and is released by the cleaner. -/
def releaseRun : List ((String → Bool) × Action) :=
  let name := constructProcessName .sample 0 1 true
  [.putMsg (.getProcessReq ⟨.sample, 1⟩), .recvEvent, .job 0 .nameNew, .job 0 (.createOk 0),
    .job 0 .cacheNew, .advance, .advance, .changeProcessState name false .sample, .expire,
    .recvClean, .job 0 .closeKill, .job 0 .closeDone, .job 0 (.release .sample name),
    .advance].map (fun _ => true, ·)

theorem cleaner_alive_released : ∃ pm, Reach step CleanOk (new 1 1 true) pm ∧
    ManagerOut.freeUser 0 ∈ pm.outbox ∧ pm.task = none ∧ pm.cleanTimer.Pending := by
  obtain ⟨pm, hr, hP⟩ := exists_reach step CleanOk (new 1 1 true)
    (fun pm => ManagerOut.freeUser 0 ∈ pm.outbox ∧ pm.task = none) releaseRun (by decide)
  obtain ⟨hfree, ht⟩ := of_decide_eq_true hP
  refine ⟨pm, hr, hfree, ht, ?_⟩
  rcases (cleaner_alive hr).1 with hp | hcl
  · exact hp
  · rw [cleans_of_no_task ht] at hcl
    cases hcl

/-- Whatever the limits are, the first tick may come before any process is idle. -/
theorem exists_never_pending (maxProcessNum releaseNum : ℤ) (o : Bool) :
    ∃ pm, Reach step Free (new maxProcessNum releaseNum o) pm ∧ pm.task = none ∧
      ∀ pm', Reach step Free pm pm' → ¬ pm'.cleanTimer.Pending := by
  let found : String → Bool := fun _ => true
  let pm₁ : ProcessManager := { new maxProcessNum releaseNum o with cleanTimer := ⟨.stopped, true⟩ }
  let pm₂ : ProcessManager := { new maxProcessNum releaseNum o with cleanTimer := ⟨.stopped, false⟩ }
  have h₁ : step (new maxProcessNum releaseNum o) (found, .expire) = some pm₁ := rfl
  have hle : pm₁.toRelease ≤ 0 := min_le_right _ _
  have h₂ : step pm₁ (found, .recvClean) = some pm₂ := by
    have hclean : handleCleanIdleProcesses pm₂ = pm₂ := if_pos hle
    show some (handleCleanIdleProcesses pm₂) = some pm₂
    rw [hclean]
  have hdead : ¬ pm₂.Cleaning := by
    rintro ((h | h) | h) <;> cases h
  refine ⟨pm₂, .next (.next .start trivial h₁) trivial h₂, rfl, fun pm' hr hp => ?_⟩
  exact not_cleaning_of_reach hr hdead (Or.inl hp)

/-- Ten processes, of which three are kept free, and no cleaning after the first tick. -/
theorem cleaner_dead :
    ∃ pm, Reach step Free (new 10 3 true) pm ∧ pm.task = none ∧
      ∀ pm', Reach step Free pm pm' → ¬ pm'.cleanTimer.Pending :=
  exists_never_pending 10 3 true

end ProcessManager

end VmEngine
