/-
  Exit messages find their processes.

  Between the signal and the update of the state, and between the reset of the name and
  its cache, orders of steps are possible in which the lookup of a process by its name
  fails (`exit_not_found`).  Under `ExitOk` every lookup succeeds (`exit_found`), and the
  user of a process is freed at most once.
-/
import VmEngine.Core.EnginePresent

namespace VmEngine

namespace Engine
variable {cfg : ProcessConfig} {e e' e₁ : Engine} {o ok : Bool} {v v' : ManagerView} {t : Task}
  {jobs : List Job} {i pid : ℕ} {j : Job} {ev : ProcessManager.JobEvent} {outs : List ProcessOut}
  {p p' : Process}

/-! ## Steps of a job -/

variable {n : String}

theorem dropped_cases (h : j.dropped ev = some n) :
    (∃ c, j = .changed c ∧ ev = .recache ∧ n = c.oldName) ∨
      ∃ pid key, j = .closed pid ∧ ev = .release key n := by
  unfold Job.dropped at h
  split at h
  · cases h; exact Or.inl ⟨_, rfl, rfl, rfl⟩
  · cases h; exact Or.inr ⟨_, _, rfl, rfl⟩
  · cases h

/-- A process with a new name. -/
theorem procLive_renamed {w : Option Window} {c : Change} (hst : p.processState = .idle)
    (hw : w ≠ some .closing)
    (hl : p.listen ≠ none → (e'.view p.isOrigProcess).Live c.newName) :
    ProcLive e' pid (renamed p c w) := by
  refine ⟨fun h1 _ _ => hl h1, fun h1 => ?_⟩
  rcases h1 with h1 | h1
  · exact absurd h1 hw
  · have h1 : p.processState = .closing := h1
    rw [hst] at h1; cases h1

/-- A step of a job and what is known before it. -/
structure JobStep (e : Engine) (o ok : Bool) (t : Task) (jobs : List Job) (i : ℕ) (j : Job)
    (ev : ProcessManager.JobEvent) (e₁ : Engine) (pm : ProcessManager) : Prop where
  present : e.PresentInv
  names : e.NameInv
  ended : e.ExitsInv
  task : (e.mgr o).task = some (t, jobs)
  job : jobs[i]? = some j
  call : CallCase e o ok j ev e₁
  effect : ProcessManager.JobCase (e.view o) t jobs i j ev pm.view
  signals : SignalsRunning e (.job o i ok)

namespace JobStep
variable {pm : ProcessManager} {k : ℕ} {q : Process}

theorem mem (s : JobStep e o ok t jobs i j ev e₁ pm) : j ∈ (e.view o).jobs := by
  rw [jobs_eq_of_task s.task]
  exact List.mem_of_getElem? s.job

theorem jobOk (s : JobStep e o ok t jobs i j ev e₁ pm) : JobOk e.procs (e.names o) o j :=
  (s.names.jobs o).ok j s.mem

/-- The name that is dropped is that of a process that is being closed. -/
theorem dropped_proc (s : JobStep e o ok t jobs i j ev e₁ pm) (hq : e.procs[k]? = some q)
    (ho : q.isOrigProcess = o) (hd : j.dropped ev = some q.processName) :
    q.processState = .closing ∧ j = .closed k := by
  have hmem := s.names.procs hq
  rw [ho] at hmem
  rcases dropped_cases hd with ⟨c, rfl, rfl, hname⟩ | ⟨pid, key, rfl, rfl⟩
  · obtain ⟨hold, -, hne, p, hp, -, hpn, -⟩ := s.jobOk
    rw [hname] at hmem
    obtain rfl := s.names.unique hold hmem
    obtain rfl := Option.some.inj (hp.symm.trans hq)
    exact absurd (hname.symm.trans hpn) hne
  · obtain ⟨-, p, hp, hpn⟩ := s.call.release_eq
    have hpm := s.names.procs hp
    obtain ⟨p', hp', ho', -⟩ := s.jobOk
    obtain rfl := Option.some.inj (hp.symm.trans hp')
    rw [ho', ← hpn] at hpm
    obtain rfl := s.names.unique hpm hmem
    obtain rfl := Option.some.inj (hp.symm.trans hq)
    exact ⟨(s.present.jobs s.mem p hp).1, rfl⟩

/-- No exit message has the name that is dropped. -/
theorem dropped_exit (s : JobStep e o ok t jobs i j ev e₁ pm) {m : SandboxExitMsg}
    (hm : m ∈ (e.view o).exits) : j.dropped ev ≠ some m.processName := by
  intro hd
  rcases dropped_cases hd with ⟨c, rfl, rfl, hname⟩ | ⟨pid, key, rfl, rfl⟩
  · exact s.present.jobs s.mem m hm hname
  · obtain ⟨-, p, hp, hpn⟩ := s.call.release_eq
    have hmem := s.names.procs hp
    obtain ⟨p', hp', ho, -⟩ := s.jobOk
    obtain rfl := Option.some.inj (hp.symm.trans hp')
    have hst := (s.present.jobs s.mem p hp).1
    obtain ⟨-, hno, -⟩ := (s.present.procs hp).closing (Or.inr hst)
    rw [ho] at hno hmem
    exact hno hm (hpn ▸ hmem)

theorem live (s : JobStep e o ok t jobs i j ev e₁ pm) {n : String} (hl : (e.view o).Live n)
    (hd : j.dropped ev ≠ some n) : ((e₁.settle o pm).view o).Live n := by
  have hl' : pm.view.Live n := live_job s.task s.job s.effect hl hd
  rw [view_settle]
  exact hl'

variable {j' : Job} {o' : Bool} {q' : Process}

theorem view_other (s : JobStep e o ok t jobs i j ev e₁ pm) (ho : o' ≠ o) :
    (e₁.settle o pm).view o' = e.view o' := by
  rw [view_settle_of_ne _ ho]
  exact congrArg (fun mgr => (mgr o').view) s.call.mgr

theorem exits (s : JobStep e o ok t jobs i j ev e₁ pm) (o' : Bool) :
    ((e₁.settle o pm).view o').exits = (e.view o').exits := by
  by_cases ho : o' = o
  · have hev : pm.view.exits = (e.view o).exits := congrArg exitsOf (eventCh_of_job s.effect)
    rw [ho, view_settle]
    exact hev
  · rw [s.view_other ho]

theorem engStep (s : JobStep e o ok t jobs i j ev e₁ pm) :
    EngStep e (.job o i ok) (e₁.settle o pm) [] := .job s.task s.job s.call s.effect

/-- The messages of a process are those it had. -/
theorem mem_names (s : JobStep e o ok t jobs i j ev e₁ pm) {m : SandboxExitMsg}
    (hm : m ∈ ((e₁.settle o pm).view o').exits)
    (hk : (m.processName, k) ∈ (e₁.settle o pm).names o') :
    m ∈ (e.view o').exits ∧ (m.processName, k) ∈ e.names o' := by
  rw [s.exits] at hm
  exact ⟨hm, (s.engStep.carry s.names s.signals).of_names s.names (s.names.step s.engStep) hm hk⟩

/-- The job that closes a process is still there, or has released it. -/
theorem closing (s : JobStep e o ok t jobs i j ev e₁ pm)
    (hk : (∃ j' ∈ (e.view o').jobs, j'.closingPid = some k) ∨ k ∈ e.freed) :
    (∃ j' ∈ ((e₁.settle o pm).view o').jobs, j'.closingPid = some k) ∨
      k ∈ (e₁.settle o pm).freed := by
  have hfreed : ∀ {k}, k ∈ e.freed → k ∈ (e₁.settle o pm).freed := by
    intro k hk
    have h₁ : e₁.freed = e.freed := s.call.freed
    rw [(turned_settle e₁ o pm).freed, h₁]
    exact List.mem_append_left _ hk
  rcases hk with ⟨j', hj', hk⟩ | hk
  · by_cases ho : o' = o
    · subst ho
      rw [view_settle]
      rw [jobs_eq_of_task s.task] at hj'
      obtain ⟨rest, hperm, hset, herase⟩ := exists_rest s.job
      have hrest : j' ∈ rest → ∃ j' ∈ pm.view.jobs, j'.closingPid = some k := by
        intro hj'
        have hs' := s.effect
        generalize pm.view = v at hs'
        cases hs' with
        | name | createOk | rename | changeKill | changeDone | closeKill | closeDone =>
          exact ⟨j', (hset _).mem_iff.2 (List.mem_cons_of_mem _ hj'), hk⟩
        | createFail | cache | meet | changeFail | recache | closeFail | release _ =>
          exact ⟨j', herase.mem_iff.2 hj', hk⟩
      rcases List.mem_cons.1 (hperm.mem_iff.1 hj') with rfl | hj'
      · cases j' with
        | closeKilled pid =>
          refine Or.inl ?_
          have hs' := s.effect
          generalize pm.view = v at hs'
          cases hs' with
          | closeDone => exact ⟨_, (hset _).mem_iff.2 List.mem_cons_self, hk⟩
        | closed pid =>
          obtain rfl := Option.some.inj hk
          refine Or.inr ?_
          obtain ⟨key, name, pid', rfl, hcd, hv⟩ := release_of_job s.effect
          obtain ⟨he, p, hp, hname⟩ := s.call.release_eq
          subst hname he
          obtain ⟨hf, -⟩ := freed_release s.names s.ended s.task s.job hp hcd hv
          rw [hf]
          exact List.mem_append_right _ (List.mem_singleton_self _)
        | _ => cases hk
      · exact Or.inl (hrest hj')
    · rw [s.view_other ho]
      exact Or.inl ⟨j', hj', hk⟩
  · exact Or.inr (hfreed hk)

/-- What a process keeps that keeps its name. -/
theorem keep_proc (s : JobStep e o ok t jobs i j ev e₁ pm) (hq : e.procs[k]? = some q)
    (hor : q'.isOrigProcess = q.isOrigProcess) (hname : q'.processName = q.processName)
    (hlis : q'.listen = q.listen)
    (hopen : q'.lockedBy ≠ some .closing → q'.processState ≠ .closing →
      q.lockedBy ≠ some .closing ∧ q.processState ≠ .closing)
    (hclosing : q'.lockedBy = some .closing ∨ q'.processState = .closing →
      (q.lockedBy = some .closing ∨ q.processState = .closing) ∧
        (q.launch.mayExit → q'.launch.mayExit)) : ProcLive (e₁.settle o pm) k q' := by
  refine (s.present.procs hq).keep hor hname (fun h => hlis ▸ h) hopen hclosing ?_
    (fun _ _ hm hk => s.mem_names hm hk) s.closing
  intro _ _ hst hl
  by_cases ho : q.isOrigProcess = o
  · rw [ho] at hl ⊢
    exact s.live hl fun hd => hst (s.dropped_proc hq ho hd).1
  · rwa [s.view_other ho]

theorem same_proc (s : JobStep e o ok t jobs i j ev e₁ pm) (hq : e.procs[k]? = some q) :
    ProcLive (e₁.settle o pm) k q :=
  s.keep_proc hq rfl rfl rfl (fun h1 h2 => ⟨h1, h2⟩) fun h => ⟨h, id⟩

/-- The processes after a step of a job. -/
theorem procs (s : JobStep e o ok t jobs i j ev e₁ pm) (hok : ExitOk e (.job o i ok))
    (hlis : ∀ {pid : ℕ} {p}, e.procs[pid]? = some p → Process.ListenInv p)
    (hq' : e₁.procs[k]? = some q') : ProcLive (e₁.settle o pm) k q' := by
  have hjob := s.jobOk
  have hset : ∀ {pid : ℕ} {p'}, (e.procs.set pid p')[k]? = some q' →
      ProcLive (e₁.settle o pm) pid p' → ProcLive (e₁.settle o pm) k q' := by
    intro pid p' hk hp'
    rcases getElem?_set_some hk with ⟨rfl, rfl⟩ | ⟨-, hq⟩
    · exact hp'
    · exact s.same_proc hq
  have hcall := s.call
  have heff := s.effect
  cases hcall with
  | plain _ | nameChange _ | refused _ _ | refusedClose _ _ | release _ => exact s.same_proc hq'
  | @create key name user users hu =>
    rcases getElem?_concat_some hq' with ⟨rfl, rfl⟩ | hq
    · refine ⟨fun _ _ _ => Or.inr ?_, fun h => (by rcases h with h | h <;> cases h)⟩
      obtain ⟨rest, -, hset, -⟩ := exists_rest s.job
      generalize hv : pm.view = v at heff
      cases heff with
      | createOk =>
        have hview := view_settle ({ e with
          users := users, procs := e.procs ++ [Process.new user key name o] }.logName o name
            e.procs.length) o pm
        have hor : (Process.new user key name o).isOrigProcess = o := rfl
        rw [hor, hview, hv]
        exact List.mem_filterMap.2 ⟨_, (hset _).mem_iff.2 List.mem_cons_self, rfl⟩
    · exact s.same_proc hq
  | @lost c p hp hst hlock htok =>
    refine hset hq' (procLive_renamed hst nofun fun hl => absurd ?_ hl)
    have htarget : e.renameTarget o i = e.procs[c.pid]? := by
      unfold renameTarget jobAt
      rw [s.task]
      simp only [Option.map_some, Option.bind_some, s.job]
    exact hok p (htarget.trans hp) hst
  | @killed c p hp hst hlock htok hsig =>
    refine hset hq' (procLive_renamed hst nofun fun _ => ?_)
    obtain ⟨p', hp', ho, -⟩ := hjob.2
    obtain rfl := Option.some.inj (hp.symm.trans hp')
    rw [ho]
    obtain ⟨rest, -, hset, -⟩ := exists_rest s.job
    generalize hv : pm.view = v at heff
    cases heff with
    | changeKill =>
      rw [view_settle, hv]
      exact Or.inr (List.mem_filterMap.2 ⟨_, (hset _).mem_iff.2 List.mem_cons_self, rfl⟩)
  | leaveChange hp hw =>
    have hst := (hlis hp).lock (by rw [hw]; nofun)
    refine hset hq' (s.keep_proc hp rfl rfl rfl (fun _ _ => ⟨?_, ?_⟩) ?_)
    · rw [hw]; nofun
    · rw [hst]; nofun
    · rintro (h | h) <;> cases h
  | closeLost hp hst hlock _ =>
    refine hset hq' (s.keep_proc hp rfl rfl rfl (fun _ _ => ⟨?_, ?_⟩) ?_)
    · rw [hlock]; nofun
    · rw [hst]; nofun
    · rintro (h | h)
      · cases h
      · have h : _ = ProcessState.closing := h
        exact ⟨Or.inr h, id⟩
  | @closeKilled pid p hp hst hlock htok hsig =>
    have hup := hok p ((target_eq s.task s.job rfl).trans hp) hst
    obtain ⟨p', hp', ho, -⟩ := hjob
    obtain rfl := Option.some.inj (hp.symm.trans hp')
    refine hset hq' ⟨fun _ h _ => absurd rfl h, fun _ => ⟨?_, fun hm hk => ?_, Or.inl ?_⟩⟩
    · exact Launch.mayExit_of_isUp hup
    · obtain ⟨hm, hk⟩ := s.mem_names hm hk
      have hnone := (s.ended.ended hm hk hp).1
      rw [hnone] at hup; cases hup
    · obtain ⟨rest, -, hset, -⟩ := exists_rest s.job
      generalize hv : pm.view = v at heff
      cases heff with
      | closeKill =>
        refine ⟨.closeKilled pid, ?_, rfl⟩
        have hor : ({ p.killed with lockedBy := some .closing } : Process).isOrigProcess = o := ho
        rw [hor, view_settle, hv]
        exact (hset _).mem_iff.2 List.mem_cons_self
  | leaveClose hp hw =>
    refine hset hq' (s.keep_proc hp rfl rfl rfl (fun _ h => absurd rfl h) ?_)
    exact fun _ => ⟨Or.inl hw, id⟩

/-- The process of a job of the cleaner keeps its name. -/
theorem closing_proc (s : JobStep e o ok t jobs i j ev e₁ pm) (hj' : j' ∈ (e.view o).jobs)
    (hk : j'.closingPid = some k) (hq' : e₁.procs[k]? = some q') :
    ∃ q, e.procs[k]? = some q ∧ q'.processName = q.processName ∧
      (q.processState = .closing → q'.processState = .closing) := by
  have hclean : j.ofClean = true := by
    have h1 := s.names.kinds s.task j (List.mem_of_getElem? s.job)
    rw [jobs_eq_of_task s.task] at hj'
    have h2 := s.names.kinds s.task j' hj'
    rw [h1, ← h2]
    cases j' with
    | closeKilled _ | closed _ => rfl
    | _ => cases hk
  have hset : ∀ {pid p p'}, e.procs[pid]? = some p → (e.procs.set pid p')[k]? = some q' →
      p'.processName = p.processName →
      (p.processState = .closing → p'.processState = .closing) →
      ∃ q, e.procs[k]? = some q ∧ q'.processName = q.processName ∧
        (q.processState = .closing → q'.processState = .closing) := by
    intro pid p p' hp hk hname hst
    rcases getElem?_set_some hk with ⟨rfl, rfl⟩ | ⟨-, hq⟩
    · exact ⟨p, hp, hname, hst⟩
    · exact ⟨q', hq, rfl, id⟩
  have hcall := s.call
  cases hcall with
  | refusedClose _ _ | release _ => exact ⟨q', hq', rfl, id⟩
  | closeLost hp _ _ _ | closeKilled hp _ _ _ _ => exact hset hp hq' rfl id
  | leaveClose hp _ => exact hset hp hq' rfl fun _ => rfl
  | plain hpl => cases hpl <;> cases hclean
  | create _ | nameChange _ | refused _ _ | lost _ _ _ _ | killed _ _ _ _ _ | leaveChange _ _ =>
    cases hclean

/-- The other jobs of the manager. -/
theorem rest_job (s : JobStep e o ok t jobs i j ev e₁ pm) {rest : List Job}
    (hperm : jobs.Perm (j :: rest)) (hj' : j' ∈ rest) : JobLive (e₁.settle o pm) o j' := by
  have hmem : j' ∈ (e.view o).jobs := by
    rw [jobs_eq_of_task s.task]
    exact hperm.mem_iff.2 (List.mem_cons_of_mem _ hj')
  refine (s.present.jobs hmem).keep (fun c _ m hm => Or.inl ?_)
    (fun hk q' hq' => s.closing_proc hmem hk hq') fun {k q} hk hq hl => s.live hl fun hd => ?_
  · rwa [s.exits] at hm
  · -- the released process has one job only
    have ho : q.isOrigProcess = o := by
      have hjok := (s.names.jobs o).ok j' hmem
      have hown : HasProc e.procs o k fun _ => True := by
        cases j' with
        | closeKilled _ | closed _ =>
          cases hk
          obtain ⟨r, hr, hro, -⟩ := hjok
          exact ⟨r, hr, hro, trivial⟩
        | _ => cases hk
      obtain ⟨r, hr, hro, -⟩ := hown
      rwa [Option.some.inj (hr.symm.trans hq)] at hro
    obtain ⟨-, rfl⟩ := s.dropped_proc hq ho hd
    have hnd := (s.names.jobs o).closing
    rw [jobs_eq_of_task s.task] at hnd
    have hnd : (k :: rest.filterMap Job.closingPid).Nodup := (hperm.filterMap _).nodup_iff.1 hnd
    exact (List.nodup_cons.1 hnd).1 (List.mem_filterMap.2 ⟨j', hj', hk⟩)

/-- The job itself. -/
theorem next_job (s : JobStep e o ok t jobs i j ev e₁ pm) (hok : ExitOk e (.job o i ok))
    (hlis : ∀ {pid : ℕ} {p}, e.procs[pid]? = some p → Process.ListenInv p)
    (hnext : NextJob j ev j') : JobLive (e₁.settle o pm) o j' := by
  have hpres := s.present.jobs s.mem
  have hcall := s.call
  cases hnext with
  | named | made | renamed => trivial
  | @killed c =>
    intro m hm heq
    rw [s.exits] at hm
    cases hcall with
    | plain hpl => cases hpl
    | @killed _ p hp hst _ _ _ =>
      have hup := hok p ((target_eq s.task s.job rfl).trans hp) hst
      have hold := s.jobOk.1
      have hnone := (s.ended.ended hm (heq ▸ hold) hp).1
      rw [hnone] at hup; cases hup
  | @changed c =>
    intro m hm
    rw [s.exits] at hm
    exact hpres m hm
  | @closeKilled pid =>
    cases hcall with
    | plain hpl => cases hpl
    | @closeKilled _ p hp hst hlock _ _ =>
      intro p' hp'
      rcases getElem?_set_some hp' with ⟨-, rfl⟩ | ⟨hne, -⟩
      · have hup := hok p ((target_eq s.task s.job rfl).trans hp) hst
        obtain ⟨r, hr, ho, -⟩ := s.jobOk
        obtain rfl := Option.some.inj (hp.symm.trans hr)
        have hl : p.listen ≠ none := by
          intro hl
          rcases (hlis hp).ended hl with hnone | hno
          · rw [hnone] at hup; cases hup
          · exact hno hst
        have hlive := (s.present.procs hp).live hl (by rw [hlock]; nofun) (by rw [hst]; nofun)
        rw [ho] at hlive
        exact s.live hlive nofun
      · exact absurd rfl hne
  | @closed pid =>
    cases hcall with
    | plain hpl => cases hpl
    | @leaveClose _ _ p _ _ _ hp _ =>
      intro p' hp'
      have hl := hpres p hp
      rcases getElem?_set_some hp' with ⟨-, rfl⟩ | ⟨hne, -⟩
      · exact ⟨rfl, s.live hl nofun⟩
      · exact absurd rfl hne

/-- The jobs of the other manager. -/
theorem other_job (s : JobStep e o ok t jobs i j ev e₁ pm) (ho : o' ≠ o)
    (hj' : j' ∈ (e.view o').jobs) : JobLive (e₁.settle o pm) o' j' := by
  refine (s.present.jobs hj').keep (fun c _ m hm => Or.inl ?_) (fun {k} hk q' hq' => ?_)
    fun _ _ hl => ?_
  · rwa [s.exits] at hm
  · have hown : HasProc e.procs o' k fun _ => True := by
      have hjok := (s.names.jobs o').ok j' hj'
      cases j' with
      | closeKilled _ | closed _ => cases hk; obtain ⟨r, hr, hro, -⟩ := hjok; exact ⟨r, hr, hro, trivial⟩
      | _ => cases hk
    obtain ⟨r, hr, hro, -⟩ := hown
    obtain ⟨r', hr', -, hsame⟩ := (s.call.effect s.jobOk).kept hr
    obtain rfl := Option.some.inj (hr'.symm.trans hq')
    exact ⟨r, hr, congrArg _ (hsame (hro ▸ ho)), fun h => hsame (hro ▸ ho) ▸ h⟩
  · rwa [s.view_other ho]

/-- A step of a job keeps the invariant, under the condition on exits. -/
theorem presentInv (s : JobStep e o ok t jobs i j ev e₁ pm) (hok : ExitOk e (.job o i ok))
    (hlis : ∀ {pid : ℕ} {p}, e.procs[pid]? = some p → Process.ListenInv p) :
    (e₁.settle o pm).PresentInv := by
  refine ⟨fun hp => s.procs hok hlis hp, fun {o' m} hm => ?_, fun {o' j'} hj' => ?_⟩
  · rw [s.exits] at hm
    by_cases ho : o' = o
    · subst ho
      exact s.live (s.present.exits hm) (s.dropped_exit hm)
    · rw [s.view_other ho]
      exact s.present.exits hm
  · by_cases ho : o' = o
    · subst ho
      rw [view_settle] at hj'
      obtain ⟨rest, hperm, hset, herase⟩ := exists_rest s.job
      rcases next_of_job s.effect hset herase hj' with hj' | hnext
      · exact s.rest_job hperm hj'
      · exact s.next_job hok hlis hnext
    · rw [s.view_other ho] at hj'
      exact s.other_job ho hj'

end JobStep

/-! ## Runs -/

/-- What holds of every run under the condition. -/
structure ExitInv (e : Engine) : Prop where
  names : e.NameInv
  ended : e.ExitsInv
  freed : e.FreedInv
  listen : ∀ {pid : ℕ} {p}, e.procs[pid]? = some p → Process.ListenInv p
  present : e.PresentInv

theorem exitInv_new (maxProcessNum releaseNum : Bool → ℤ) (users : List ℕ) :
    (new maxProcessNum releaseNum users).ExitInv :=
  ⟨nameInv_new .., ⟨fun h => (by cases h), fun _ => List.Pairwise.nil⟩,
    ⟨fun h => (by cases h), List.nodup_nil⟩, fun h => (by cases h), presentInv_new ..⟩

theorem PresentInv.sandbox (h : e.PresentInv) (sid : ℕ) (sb : Sandbox) :
    (e.setSandbox sid sb).PresentInv :=
  ⟨fun hp => ⟨(h.procs hp).live, (h.procs hp).closing⟩, h.exits, fun hj =>
    (h.jobs hj).congr (fun _ hm => hm) rfl fun hl => hl⟩

/-- Every step under the condition keeps exit messages and processes together. -/
theorem PresentInv.step {a : Action} (h : e.ExitInv) (hs : EngStep e a e' outs)
    (hok : ExitOk e a) : e'.PresentInv := by
  obtain ⟨hn, hx, hf, hl, hp⟩ := h
  cases hs with
  | request => exact hp.turn hn hx (turned_putEvents (hn.frees _) _) (.stay (by
      unfold exitsOf ManagerView.exits
      rw [List.filterMap_append]
      exact List.append_nil _))
  | turn hc => exact hp.turn hn hx (turned_settle _ _ _) hc
  | job ht hi hc hj => exact JobStep.presentInv ⟨hp, hn, hx, ht, hi, hc, hj, hok.signalsRunning⟩ hok hl
  | proc hq hc hs => exact hp.proc hn hf (hl hq) hq hc hs hok
  | connect _ | exit _ => exact hp.sandbox _ _
  | register hsb hconn hq hs =>
    refine hp.message hn hq hs rfl (fun _ _ ha => by cases ha) fun hst => ?_
    exact absurd hst (hok _ ((connected_eq hsb hconn).trans hq))
  | respond _ _ hq hs =>
    refine hp.message hn hq hs rfl (fun _ _ ha => by cases ha) fun hst => ?_
    cases hs with
    | putMsg _ => exact hst

theorem ExitInv.step {a : Action} (h : e.ExitInv) (hok : ExitOk e a)
    (hs : EngStep e a e' outs) : e'.ExitInv :=
  ⟨h.names.step hs, h.ended.step hs h.names hok.signalsRunning,
    h.freed.step hs h.names h.ended hok.signalsRunning,
    hs.forall_procs Process.listenInv_new (fun hp hs => hp.step hs) h.listen, PresentInv.step h hs hok⟩

theorem exitInv_reach {maxProcessNum releaseNum : Bool → ℤ} {users : List ℕ}
    (h : Reach (step cfg) ExitOk (new maxProcessNum releaseNum users) e) : e.ExitInv := by
  refine h.inv (exitInv_new ..) fun hinv hok hstep => ?_
  obtain ⟨outs, hact⟩ := step_eq_some hstep
  exact hinv.step hok (act_step hact)

theorem getProcessByName_of_cached {k : ℕ} (h : (e.view o).Cached n k) :
    ((e.mgr o).getProcessByName n).isSome := by
  unfold ProcessManager.getProcessByName
  rw [Option.isSome_or, Bool.or_eq_true]
  rcases h with h | h
  · exact Or.inl (by rw [show (e.mgr o).idleProcesses.get? n = some k from h]; rfl)
  · exact Or.inr (by rw [show (e.mgr o).busyProcesses.get? n = some k from h]; rfl)

/-- A task of the cleaner is about to cache nothing. -/
theorem NameInv.cached_of_clean (h : e.NameInv) (ht : (e.view o).task = some (t, jobs))
    (hj : j ∈ jobs) (hclean : j.ofClean = true) (hl : (e.view o).Live n) :
    ∃ k, (e.view o).Cached n k := by
  rcases hl with hl | hl
  · exact hl
  · rw [jobs_eq_of_task ht] at hl
    obtain ⟨j', hj', hn⟩ := List.mem_filterMap.1 hl
    have hk := h.kinds ht j' hj'
    rw [← h.kinds ht j hj, hclean] at hk
    cases j' with
    | made _ _ _ | killed _ | changed _ => cases hk
    | _ => cases hn

/-- The exit message that the manager handles next. -/
def nextExit (pm : ProcessManager) : Option SandboxExitMsg :=
  match pm.task, pm.eventCh with
  | none, .sandboxExit msg :: _ => some msg
  | _, _ => none

/-- **Exit messages find their processes.**  In every run under `ExitOk`, the process
    that the next exit message names is idle or busy, and so is a process that the
    cleaner is about to release; the user of a process is freed at most once. -/
theorem exit_found {maxProcessNum releaseNum : Bool → ℤ} {users : List ℕ}
    (h : Reach (step cfg) ExitOk (new maxProcessNum releaseNum users) e) :
    (∀ o msg, nextExit (e.mgr o) = some msg →
      ((e.mgr o).getProcessByName msg.processName).isSome) ∧
    (∀ o i pid p, e.jobAt o i = some (.closed pid) → e.procs[pid]? = some p →
      ((e.mgr o).getProcessByName p.processName).isSome) ∧
    e.freed.Nodup := by
  have hinv := exitInv_reach h
  refine ⟨fun o msg hm => ?_, fun o i pid p hj hp => ?_, hinv.freed.nodup⟩
  · unfold nextExit at hm
    split at hm
    · rename_i msg' rest ht hev
      cases hm
      have hm : msg ∈ (e.view o).exits := by
        have hev : (e.view o).eventCh = .sandboxExit msg :: rest := hev
        unfold ManagerView.exits
        rw [hev]
        exact List.mem_cons_self
      rcases hinv.present.exits hm with ⟨k, hk⟩ | hk
      · exact getProcessByName_of_cached hk
      · rw [jobs_of_no_task ht] at hk; cases hk
    · cases hm
  · obtain ⟨jobs, hjobs, hi⟩ := Option.bind_eq_some_iff.1 hj
    obtain ⟨⟨t, _⟩, ht, rfl⟩ := Option.map_eq_some_iff.1 hjobs
    have hmem : Job.closed pid ∈ (e.view o).jobs := by
      rw [jobs_eq_of_task ht]
      exact List.mem_of_getElem? hi
    have hl := (hinv.present.jobs hmem p hp).2
    obtain ⟨k, hk⟩ := hinv.names.cached_of_clean ht (List.mem_of_getElem? hi) rfl hl
    exact getProcessByName_of_cached hk

set_option maxRecDepth 20000 in
/-- The sandbox of an idle process exits, and the manager finds the process. -/
theorem exit_found_idle : ∃ e, Reach (step .sample) ExitOk (sample 2 [10000]) e ∧
    ∃ msg, nextExit (e.mgr true) = some msg ∧
      ((e.mgr true).getProcessByName msg.processName).isSome := by
  obtain ⟨e, h, hP⟩ := exists_reach (step .sample) ExitOk (sample 2 [10000])
    (fun e => (nextExit (e.mgr true)).isSome)
    (runToIdle ++ [.proc 0 .loopHead, .exit 0, .proc 0 (.wait none), .proc 0 (.exit none 0)])
    (by decide)
  obtain ⟨msg, hmsg⟩ := Option.isSome_iff_exists.1 hP
  exact ⟨e, h, msg, hmsg, (exit_found h).1 true msg hmsg⟩

/-- The manager does not find the process of the next exit message, and the processes
    are in these states. -/
def ExitNotFound (states : List ProcessState) (e : Engine) : Bool :=
  (nextExit (e.mgr true)).any (fun msg =>
    ((e.mgr true).getProcessByName msg.processName).isNone) &&
    decide (e.procs.map (·.processState) = states)

/-- The cleaner has signalled the idle process. -/
def runToClosing : List Action :=
  runToIdle ++ [.proc 0 .loopHead, .manager true .expire, .manager true .recvClean, .job true 0 true]

/-- The signal of `ChangeSandbox` fails after the name was reset. -/
def runToLost : List Action :=
  runToIdle ++ [.request true ⟨⟨"chain1", "asset", "v1"⟩, 1⟩, .manager true .recvEvent,
    .manager true .advance, .job true 0 true, .job true 0 false, .manager true .advance,
    .proc 0 .loopHead]

/-- The sandbox exits, and the listener handles it. -/
def sandboxExits : List Action := [.exit 0, .proc 0 (.wait none), .proc 0 (.exit none 0)]

set_option maxRecDepth 20000 in
/-- The manager looks up a process in vain: when the exit is handled between the signal
    of `CloseSandbox` and its update of the state, when a sandbox registers after that
    update, and when a signal of `ChangeSandbox` fails after the name was reset. -/
theorem exit_not_found :
    (∃ e, Reach (step .sample) Free (sample 2 [10000]) e ∧ ExitNotFound [.closing] e = true) ∧
    (∃ e, Reach (step .sample) Free (sample 2 [10000]) e ∧ ExitNotFound [.ready] e = true) ∧
    (∃ e, Reach (step .sample) Free (sample 1 [10000]) e ∧ ExitNotFound [.idle] e = true) := by
  refine ⟨?_, ?_, ?_⟩
  · exact exists_reach _ Free _ _ (runToClosing ++ sandboxExits ++
      [.job true 0 true, .job true 0 true, .manager true .advance]) (by decide)
  · exact exists_reach _ Free _ _ (runToClosing ++
      [.job true 0 true, .register 0, .job true 0 true, .manager true .advance] ++ sandboxExits)
      (by decide)
  · exact exists_reach _ Free _ _ (runToLost ++ sandboxExits) (by decide)

end Engine

end VmEngine
