/-
  Names of processes.

  The history `names` records which process got which name.  A name is given once, and
  everything that mentions a name (the cache, exit messages, jobs) mentions it for the
  process that got it, in every state of the engine.
-/
import VmEngine.Core.EngineJobs

namespace VmEngine

namespace Engine
variable {cfg : ProcessConfig} {e e' e₁ : Engine} {o ok : Bool} {v v' : ManagerView} {t : Task}
  {jobs rest : List Job} {i : ℕ} {j : Job} {ev : ProcessManager.JobEvent} {outs : List ProcessOut}

/-! ## Views -/

/-- The view of the manager. -/
def view (e : Engine) (o : Bool) : ManagerView := (e.mgr o).view

theorem view_setMgr (e : Engine) (o : Bool) (pm : ProcessManager) : (e.setMgr o pm).view o = pm.view :=
  congrArg ProcessManager.view (Function.update_self ..)

variable {a a' : Process.Action} {n : String} {o' : Bool} {p p' : Process} {pid : ℕ}

theorem view_setMgr_of_ne (e : Engine) {o : Bool} (h : o' ≠ o) (pm : ProcessManager) :
    (e.setMgr o pm).view o' = e.view o' :=
  congrArg ProcessManager.view (Function.update_of_ne h ..)

theorem view_settle (e : Engine) (o : Bool) (pm : ProcessManager) :
    (e.settle o pm).view o = { pm.view with frees := [] } := view_setMgr ..

theorem view_settle_of_ne (e : Engine) {o : Bool} (h : o' ≠ o) (pm : ProcessManager) :
    (e.settle o pm).view o' = e.view o' := view_setMgr_of_ne _ h _

theorem view_putExits (e : Engine) (o : Bool) (outs : List ProcessOut) :
    (e.putExits o outs).view o = { e.view o with
      eventCh := (e.view o).eventCh ++ (Process.exitMsgs outs).map .sandboxExit } := view_setMgr ..

theorem view_putExits_of_ne (e : Engine) {o : Bool} (h : o' ≠ o) (outs : List ProcessOut) :
    (e.putExits o outs).view o' = e.view o' := view_setMgr_of_ne _ h _

theorem exits_putExits (e : Engine) (o : Bool) (outs : List ProcessOut) :
    ((e.putExits o outs).view o).exits = (e.view o).exits ++ Process.exitMsgs outs := by
  rw [view_putExits]
  unfold ManagerView.exits exitsOf
  rw [List.filterMap_append, List.filterMap_map]
  exact congrArg _ (List.filterMap_some)

/-! ## Names -/

/-- What the call of a job does to the processes and their names. -/
inductive CallEffect (e : Engine) (o : Bool) (e₁ : Engine) : Prop
  | same : e₁.procs = e.procs → e₁.names = e.names → CallEffect e o e₁
  | append {q : Process} : e₁.procs = e.procs ++ [q] → q.isOrigProcess = o →
      e₁.names = (e.logName o q.processName e.procs.length).names → CallEffect e o e₁
  | set {pid : ℕ} {p p' : Process} : e.procs[pid]? = some p → e₁.procs = e.procs.set pid p' →
      p.isOrigProcess = o → p'.isOrigProcess = p.isOrigProcess → p'.processName = p.processName →
      e₁.names = e.names → CallEffect e o e₁
  | rename {pid : ℕ} {p p' : Process} : e.procs[pid]? = some p → e₁.procs = e.procs.set pid p' →
      p.isOrigProcess = o → p'.isOrigProcess = p.isOrigProcess →
      e₁.names = (e.logName o p'.processName pid).names → CallEffect e o e₁

theorem CallCase.effect (hc : CallCase e o ok j ev e₁) (hok : JobOk e.procs (e.names o) o j) :
    CallEffect e o e₁ := by
  have hown : ∀ {pid : ℕ} {p : Process} {P : Process → Prop}, HasProc e.procs o pid P →
      e.procs[pid]? = some p → p.isOrigProcess = o := by
    rintro pid p P ⟨q, hq, ho, -⟩ hp
    obtain rfl := Option.some.inj (hq.symm.trans hp)
    exact ho
  cases hc with
  | plain _ | nameChange _ | refused _ _ | refusedClose _ _ | release _ => exact .same rfl rfl
  | create _ => exact .append rfl rfl rfl
  | lost hp _ _ _ | killed hp _ _ _ _ => exact .rename hp rfl (hown hok.2 hp) rfl rfl
  | leaveChange hp _ => exact .set hp rfl (hown hok.2.2.2 hp) rfl rfl rfl
  | closeLost hp _ _ _ | closeKilled hp _ _ _ _ | leaveClose hp _ =>
    exact .set hp rfl (hown hok hp) rfl rfl rfl

/-- Names belong to one process each, and everything that has a name has the name of
    its process. -/
structure NameInv (e : Engine) : Prop where
  isOrig : ∀ o, (e.view o).isOrig = o
  frees : ∀ o, (e.view o).frees = []
  procs : ∀ {pid p}, e.procs[pid]? = some p → (p.processName, pid) ∈ e.names p.isOrigProcess
  owner : ∀ {o n pid}, (n, pid) ∈ e.names o → HasProc e.procs o pid fun _ => True
  cached : ∀ {o n pid}, (e.view o).Cached n pid → (n, pid) ∈ e.names o
  exits : ∀ {o m}, m ∈ (e.view o).exits → ∃ pid, (m.processName, pid) ∈ e.names o
  jobs : ∀ o, JobsInv e.procs (e.names o) (e.view o).processCnt o (e.view o).jobs
  kinds : ∀ {o t js}, (e.view o).task = some (t, js) → ∀ j ∈ js, j.ofClean = t.isClean

theorem nameInv_new (maxProcessNum releaseNum : Bool → ℤ) (users : List ℕ) :
    (new maxProcessNum releaseNum users).NameInv where
  isOrig _ := rfl
  frees _ := rfl
  procs h := by cases h
  owner h := by cases h
  cached h := by rcases h with h | h <;> cases h
  exits h := by cases h
  jobs _ := ⟨fun j h => (by cases h), List.nodup_nil, fun n h => (by cases h), List.nodup_nil,
    List.nodup_nil⟩
  kinds h := by cases h

/-- A name is given to one process. -/
theorem NameInv.unique (h : e.NameInv) {pid' : ℕ} (h₁ : (n, pid) ∈ e.names o)
    (h₂ : (n, pid') ∈ e.names o) : pid = pid' := (h.jobs o).unique h₁ h₂

theorem names_logName_sub (e : Engine) (o o' : Bool) (name : String) (pid : ℕ) :
    e.names o' ⊆ (e.logName o name pid).names o' := by
  by_cases ho : o' = o
  · rw [ho, names_logName]
    exact List.subset_append_left _ _
  · rw [names_logName_of_ne _ ho]
    exact List.Subset.refl _

theorem mem_names_logName (e : Engine) (o : Bool) (name : String) (pid : ℕ) :
    (name, pid) ∈ (e.logName o name pid).names o := by
  rw [names_logName]
  exact List.mem_append_right _ (List.mem_singleton_self _)

theorem of_mem_names_logName {name : String} {pid' : ℕ}
    (h : (n, pid) ∈ (e.logName o name pid').names o') :
    (n, pid) ∈ e.names o' ∨ (o' = o ∧ n = name ∧ pid = pid') := by
  by_cases ho : o' = o
  · rw [ho, names_logName] at h
    rw [ho]
    rcases List.mem_append.1 h with h | h
    · exact Or.inl h
    · exact Or.inr ⟨rfl, Prod.mk.inj (List.mem_singleton.1 h)⟩
  · rw [names_logName_of_ne _ ho] at h
    exact Or.inl h

namespace CallEffect

theorem names_sub (hc : CallEffect e o e₁) (o' : Bool) : e.names o' ⊆ e₁.names o' := by
  cases hc with
  | same _ hnames | set _ _ _ _ _ hnames => rw [hnames]; exact List.Subset.refl _
  | append _ _ hnames | rename _ _ _ _ hnames => rw [hnames]; exact names_logName_sub ..

theorem names_of_ne (hc : CallEffect e o e₁) {o' : Bool} (ho : o' ≠ o) :
    e₁.names o' = e.names o' := by
  cases hc with
  | same _ hnames | set _ _ _ _ _ hnames => rw [hnames]
  | append _ _ hnames | rename _ _ _ _ hnames => rw [hnames]; exact names_logName_of_ne _ ho ..

variable {pid : ℕ}

/-- Processes stay, and those of the other manager do not change. -/
theorem kept (hc : CallEffect e o e₁) {p : Process} (hp : e.procs[pid]? = some p) :
    ∃ p₁, e₁.procs[pid]? = some p₁ ∧ p₁.isOrigProcess = p.isOrigProcess ∧
      (p.isOrigProcess ≠ o → p₁ = p) := by
  have hset : ∀ {pid₀ q q'}, e.procs[pid₀]? = some q → q.isOrigProcess = o →
      q'.isOrigProcess = q.isOrigProcess → ∃ p₁, (e.procs.set pid₀ q')[pid]? = some p₁ ∧
        p₁.isOrigProcess = p.isOrigProcess ∧ (p.isOrigProcess ≠ o → p₁ = p) := by
    intro pid₀ q q' hq ho hor
    by_cases hpid : pid = pid₀
    · subst hpid
      obtain rfl := Option.some.inj (hp.symm.trans hq)
      exact ⟨q', List.getElem?_set_self (List.getElem?_eq_some_iff.1 hp).1, hor, fun h => absurd ho h⟩
    · exact ⟨p, (List.getElem?_set_ne (Ne.symm hpid)).trans hp, rfl, fun _ => rfl⟩
  cases hc with
  | same hprocs _ => rw [hprocs]; exact ⟨p, hp, rfl, fun _ => rfl⟩
  | append hprocs _ _ =>
    rw [hprocs, List.getElem?_append_left (List.getElem?_eq_some_iff.1 hp).1]
    exact ⟨p, hp, rfl, fun _ => rfl⟩
  | set hq hprocs ho hor _ _ => rw [hprocs]; exact hset hq ho hor
  | rename hq hprocs ho hor _ => rw [hprocs]; exact hset hq ho hor

/-- Processes have their names. -/
theorem procs (hc : CallEffect e o e₁) (h : e.NameInv) {p : Process}
    (hp : e₁.procs[pid]? = some p) : (p.processName, pid) ∈ e₁.names p.isOrigProcess := by
  have hsub := hc.names_sub
  cases hc with
  | same hprocs hnames =>
    rw [hprocs] at hp
    exact hsub _ (h.procs hp)
  | append hprocs ho hnames =>
    rw [hprocs] at hp
    rcases getElem?_concat_some hp with ⟨rfl, rfl⟩ | hp
    · rw [hnames, ho]; exact mem_names_logName ..
    · exact hsub _ (h.procs hp)
  | set hq hprocs ho hor hname hnames =>
    rw [hprocs] at hp
    rcases getElem?_set_some hp with ⟨rfl, rfl⟩ | ⟨-, hp⟩
    · rw [hname, hor]; exact hsub _ (h.procs hq)
    · exact hsub _ (h.procs hp)
  | rename hq hprocs ho hor hnames =>
    rw [hprocs] at hp
    rcases getElem?_set_some hp with ⟨rfl, rfl⟩ | ⟨-, hp⟩
    · rw [hnames, hor, ho]; exact mem_names_logName ..
    · exact hsub _ (h.procs hp)

/-- Names have their processes. -/
theorem owner (hc : CallEffect e o e₁) (h : e.NameInv) {o' : Bool} {n : String}
    (hn : (n, pid) ∈ e₁.names o') : HasProc e₁.procs o' pid fun _ => True := by
  have hold : (n, pid) ∈ e.names o' → HasProc e₁.procs o' pid fun _ => True := by
    intro hn
    refine (h.owner hn).imp fun p hp ho _ => ?_
    obtain ⟨p₁, hp₁, hor, -⟩ := hc.kept hp
    exact ⟨p₁, hp₁, hor.trans ho, trivial⟩
  cases hc with
  | same _ hnames | set _ _ _ _ _ hnames => rw [hnames] at hn; exact hold hn
  | append hprocs ho hnames =>
    rw [hnames] at hn
    rcases of_mem_names_logName hn with hn | ⟨rfl, -, rfl⟩
    · exact hold hn
    · rw [hprocs]; exact ⟨_, List.getElem?_concat_length, ho, trivial⟩
  | rename hq hprocs ho hor hnames =>
    rw [hnames] at hn
    rcases of_mem_names_logName hn with hn | ⟨rfl, -, rfl⟩
    · exact hold hn
    · rw [hprocs]
      exact ⟨_, List.getElem?_set_self (List.getElem?_eq_some_iff.1 hq).1, hor.trans ho, trivial⟩

end CallEffect

/-! ## Steps of a manager -/

/-- What is cached after a step of a job. -/
theorem cached_of_job (hj : ProcessManager.JobCase v t jobs i j ev v') (h : v'.Cached n pid) :
    v.Cached n pid ∨ (∃ key, j = .made key n pid) ∨
      ∃ c, j = .changed c ∧ n = c.newName ∧ pid = c.pid := by
  cases hj with
  | @cache key name pid' =>
    have h : (v.cache name pid').Cached n pid := h
    rcases ManagerView.of_cached_cache h with ⟨rfl, rfl⟩ | h
    · exact Or.inr (Or.inl ⟨_, rfl⟩)
    · exact Or.inl h
  | @recache c =>
    have h : ((v.uncache c.oldName).cache c.newName c.pid).Cached n pid := h
    rcases ManagerView.of_cached_cache h with ⟨rfl, rfl⟩ | h
    · exact Or.inr (Or.inr ⟨_, rfl, rfl, rfl⟩)
    · exact Or.inl (ManagerView.cached_uncache.1 h).2
  | release _ => exact Or.inl (ManagerView.cached_uncache.1 h).2
  | _ => exact Or.inl h

/-- Jobs stay jobs of the cleaner, or of another handler. -/
theorem kinds_of_job (hk : ∀ j ∈ jobs, j.ofClean = t.isClean) (hi : jobs[i]? = some j)
    (hj : ProcessManager.JobCase v t jobs i j ev v') {t' : Task} {js : List Job}
    (ht : v'.task = some (t', js)) : ∀ x ∈ js, x.ofClean = t'.isClean := by
  have hjk : j.ofClean = t.isClean := hk j (List.mem_of_getElem? hi)
  have hset : ∀ {y}, y.ofClean = j.ofClean → ∀ x ∈ jobs.set i y, x.ofClean = t.isClean := by
    intro y hy x hx
    rcases List.mem_or_eq_of_mem_set hx with hx | rfl
    · exact hk x hx
    · exact hy.trans hjk
  have herase : ∀ x ∈ jobs.eraseIdx i, x.ofClean = t.isClean :=
    fun x hx => hk x ((List.eraseIdx_sublist _ _).subset hx)
  cases hj with
  | name | createOk | rename | changeKill | changeDone | closeKill | closeDone =>
    cases ht; exact hset rfl
  | createFail | changeFail | closeFail => cases ht; exact herase
  | cache | meet | recache | release _ => cases ht; rw [Task.isClean_served]; exact herase

theorem isOrig_of_job (hj : ProcessManager.JobCase v t jobs i j ev v') : v'.isOrig = v.isOrig := by
  cases hj <;> rfl

theorem eventCh_of_job (hj : ProcessManager.JobCase v t jobs i j ev v') : v'.eventCh = v.eventCh := by
  cases hj <;> rfl

theorem jobs_eq_of_task (h : v.task = some (t, jobs)) : v.jobs = jobs := by
  unfold ManagerView.jobs
  rw [h]
  rfl

/-- A step of a job keeps the names. -/
theorem NameInv.job {pm : ProcessManager} (h : e.NameInv) (ht : (e.view o).task = some (t, jobs))
    (hi : jobs[i]? = some j) (hc : CallCase e o ok j ev e₁)
    (hj : ProcessManager.JobCase (e.view o) t jobs i j ev pm.view) : (e₁.settle o pm).NameInv := by
  have hjobs := h.jobs o
  rw [jobs_eq_of_task ht] at hjobs
  obtain ⟨rest, hperm, hset, herase⟩ := exists_rest hi
  have hok := (hjobs.perm hperm).head
  have heff := hc.effect hok
  have hview : ∀ {o'}, o' ≠ o → (e₁.settle o pm).view o' = e.view o' := by
    intro o' ho
    rw [view_settle_of_ne _ ho]
    exact congrArg (fun mgr => (mgr o').view) hc.mgr
  have hcached : ∀ {n pid}, pm.view.Cached n pid → (n, pid) ∈ e₁.names o := by
    intro n pid hcd
    rcases cached_of_job hj hcd with hcd | ⟨key, rfl⟩ | ⟨c, rfl, rfl, rfl⟩
    · exact heff.names_sub o (h.cached hcd)
    · exact heff.names_sub o hok.1
    · exact heff.names_sub o hok.2.1
  refine ⟨fun o' => ?_, fun o' => ?_, heff.procs h, heff.owner h, ?_, ?_, fun o' => ?_, ?_⟩
  · by_cases ho : o' = o
    · rw [ho, view_settle]; exact (isOrig_of_job hj).trans (h.isOrig o)
    · rw [hview ho]; exact h.isOrig o'
  · by_cases ho : o' = o
    · rw [ho, view_settle]
    · rw [hview ho]; exact h.frees o'
  · intro o' n pid hcd
    by_cases ho : o' = o
    · rw [ho, view_settle] at hcd
      rw [ho]; exact hcached hcd
    · rw [hview ho] at hcd
      exact heff.names_sub o' (h.cached hcd)
  · intro o' m hm
    have hm' : m ∈ (e.view o').exits := by
      by_cases ho : o' = o
      · rw [ho, view_settle] at hm
        rw [ho]
        unfold ManagerView.exits at hm ⊢
        rwa [← eventCh_of_job hj]
      · rwa [hview ho] at hm
    obtain ⟨pid, hpid⟩ := h.exits hm'
    exact ⟨pid, heff.names_sub o' hpid⟩
  · by_cases ho : o' = o
    · rw [ho, view_settle]
      have := jobsInv_call (hjobs.perm hperm) h.procs (h.isOrig o) hc hj hset herase
      exact this
    · rw [hview ho]
      have hnames : (e₁.settle o pm).names o' = e.names o' := heff.names_of_ne ho
      have hj' := h.jobs o'
      refine ⟨fun j hj => ?_, hnames ▸ hj'.fresh, hnames ▸ hj'.below, hj'.given, hj'.closing⟩
      refine (hj'.ok j hj).keep (fun pid p hp hpo => ?_) (heff.names_sub o')
      obtain ⟨p₁, hp₁, -, hsame⟩ := heff.kept hp
      exact ⟨p₁, hp₁, hsame (hpo ▸ ho) ▸ Keep.refl p⟩
  · intro o' t' js ht'
    by_cases ho : o' = o
    · rw [ho, view_settle] at ht'
      exact kinds_of_job (h.kinds ht) hi hj ht'
    · rw [hview ho] at ht'
      exact h.kinds ht'

/-- The engine after a step that changes the view of one manager only. -/
structure Turned (e : Engine) (o : Bool) (v : ManagerView) (e' : Engine) : Prop where
  view : e'.view o = { v with frees := [] }
  other : ∀ {o'}, o' ≠ o → e'.view o' = e.view o'
  procs : e'.procs = e.procs
  names : e'.names = e.names
  sandboxes : e'.sandboxes = e.sandboxes
  freed : e'.freed = e.freed ++ v.frees
  users : e'.users = e.users ++ v.frees.filterMap fun pid => e.procs[pid]?.map (·.user)

theorem turned_settle (e : Engine) (o : Bool) (pm : ProcessManager) :
    Turned e o pm.view (e.settle o pm) :=
  ⟨view_settle .., fun h => view_settle_of_ne _ h _, rfl, rfl, rfl, rfl, rfl⟩

/-- The names are kept if nothing new is cached, no exit message is new, and the jobs
    stay or are those of a handler that starts. -/
theorem NameInv.turned (h : e.NameInv) (ht : Turned e o v e') (horig : v.isOrig = (e.view o).isOrig)
    (hcnt : v.processCnt = (e.view o).processCnt)
    (hcached : ∀ {n pid}, v.Cached n pid → (n, pid) ∈ e.names o)
    (hexits : ∀ {m}, m ∈ v.exits → ∃ pid, (m.processName, pid) ∈ e.names o)
    (hjobs : JobsInv e.procs (e.names o) (e.view o).processCnt o v.jobs)
    (hkinds : ∀ {t js}, v.task = some (t, js) → ∀ j ∈ js, j.ofClean = t.isClean) : e'.NameInv := by
  have hv := ht.view
  refine ⟨fun o' => ?_, fun o' => ?_, ?_, ?_, ?_, ?_, fun o' => ?_, ?_⟩
  · by_cases ho : o' = o
    · rw [ho, hv]; exact horig.trans (h.isOrig o)
    · rw [ht.other ho]; exact h.isOrig o'
  · by_cases ho : o' = o
    · rw [ho, hv]
    · rw [ht.other ho]; exact h.frees o'
  · rw [ht.procs, ht.names]; exact h.procs
  · rw [ht.procs, ht.names]; exact h.owner
  · intro o' n pid hc
    rw [ht.names]
    by_cases ho : o' = o
    · rw [ho, hv] at hc; rw [ho]; exact hcached hc
    · rw [ht.other ho] at hc; exact h.cached hc
  · intro o' m hm
    rw [ht.names]
    by_cases ho : o' = o
    · rw [ho, hv] at hm; rw [ho]; exact hexits hm
    · rw [ht.other ho] at hm; exact h.exits hm
  · rw [ht.procs, ht.names]
    by_cases ho : o' = o
    · rw [ho, hv]
      have := hjobs
      rwa [← hcnt] at this
    · rw [ht.other ho]; exact h.jobs o'
  · intro o' t js htask
    by_cases ho : o' = o
    · rw [ho, hv] at htask; exact hkinds htask
    · rw [ht.other ho] at htask; exact h.kinds htask

/-- The jobs of a handler that starts. -/
theorem jobsInv_start (h : e.NameInv) (hs : ProcessManager.StartJobs (e.view o) t jobs)
    (hno : (e.view o).jobs = []) :
    JobsInv e.procs (e.names o) (e.view o).processCnt o jobs ∧ ∀ j ∈ jobs, j.ofClean = t.isClean := by
  have hold := h.jobs o
  rw [hno] at hold
  have hown : ∀ {n pid}, (e.view o).idle.get? n = some pid → HasProc e.procs o pid fun _ => True :=
    fun hn => h.owner (h.cached (Or.inl hn))
  have hnone : ∀ {β : Type} (f : Job → Option β), (∀ key, f (.create key) = none) →
      (∀ pid key, f (.change pid key) = none) → (∀ pid, f (.close pid) = none) →
      jobs.filterMap f = [] := by
    intro β f h1 h2 h3
    refine List.filterMap_eq_nil_iff.2 fun j hj => ?_
    rcases hs j hj with ⟨-, ⟨key, rfl⟩ | ⟨n, pid, key, rfl, -⟩⟩ | ⟨-, n, pid, rfl, -⟩
    · exact h1 key
    · exact h2 pid key
    · exact h3 pid
  have hp := hnone Job.pending (fun _ => rfl) (fun _ _ => rfl) fun _ => rfl
  have hg := hnone Job.given (fun _ => rfl) (fun _ _ => rfl) fun _ => rfl
  have hc := hnone Job.closingPid (fun _ => rfl) (fun _ _ => rfl) fun _ => rfl
  refine ⟨⟨fun j hj => ?_, by rw [hp]; exact hold.fresh, by rw [hp]; exact hold.below,
    by rw [hg]; exact List.nodup_nil, by rw [hc]; exact List.nodup_nil⟩, fun j hj => ?_⟩
  · rcases hs j hj with ⟨-, ⟨key, rfl⟩ | ⟨n, pid, key, rfl, hn⟩⟩ | ⟨-, n, pid, rfl, hn⟩
    · trivial
    · exact hown hn
    · exact hown hn
  · rcases hs j hj with ⟨ht, ⟨key, rfl⟩ | ⟨n, pid, key, rfl, -⟩⟩ | ⟨ht, n, pid, rfl, -⟩
    · exact ht.symm
    · exact ht.symm
    · exact ht.symm

/-- The other steps of a manager keep the names. -/
theorem NameInv.turn (h : e.NameInv) (ht : Turned e o v e')
    (hc : ProcessManager.TurnCase (e.view o) v) : e'.NameInv := by
  cases hc with
  | stay hexits =>
    refine h.turned ht rfl rfl h.cached (fun hm => h.exits ?_) (h.jobs o) h.kinds
    rw [← hexits]; exact hm
  | start hno hexits hs =>
    obtain ⟨hjobs, hkinds⟩ := jobsInv_start h hs hno
    refine h.turned ht rfl rfl h.cached (fun hm => h.exits ?_) hjobs ?_
    · rw [← hexits]; exact hm
    · intro t js htask
      cases htask
      exact hkinds
  | finish hno =>
    refine h.turned ht rfl rfl h.cached h.exits ?_ nofun
    have := h.jobs o
    rwa [hno] at this
  | @exit msg rest pid htask hev hcd =>
    refine h.turned ht rfl rfl (fun hn => h.cached (ManagerView.cached_uncache.1 hn).2)
      (fun hm => h.exits ?_) (h.jobs o) h.kinds
    unfold ManagerView.exits at hm ⊢
    rw [hev]
    exact List.mem_cons_of_mem _ hm

/-! ## Steps of a process -/

/-- Sandboxes, users and freed processes do not matter for the names. -/
theorem NameInv.congr (h : e.NameInv) (hm : e'.mgr = e.mgr) (hp : e'.procs = e.procs)
    (hn : e'.names = e.names) : e'.NameInv := by
  have hv : e'.view = e.view := by
    unfold view
    rw [hm]
  refine ⟨?_, ?_, ?_, ?_, ?_, ?_, ?_, ?_⟩
  · rw [hv]; exact h.isOrig
  · rw [hv]; exact h.frees
  · rw [hp, hn]; exact h.procs
  · rw [hp, hn]; exact h.owner
  · rw [hv, hn]; exact h.cached
  · rw [hv, hn]; exact h.exits
  · rw [hv, hp, hn]; exact h.jobs
  · rw [hv]; exact h.kinds

/-- Messages put to a manager. -/
theorem turned_putEvents (h : (e.view o).frees = []) (events : List ManagerEvent) :
    Turned e o { e.view o with eventCh := (e.view o).eventCh ++ events }
      (e.setMgr o { e.mgr o with eventCh := (e.mgr o).eventCh ++ events }) := by
  refine ⟨?_, fun ho => view_setMgr_of_ne _ ho _, rfl, rfl, rfl, ?_, ?_⟩
  · rw [view_setMgr, ← h]
    rfl
  · exact (List.append_nil _).symm.trans (congrArg _ h.symm)
  · dsimp only
    rw [h]
    exact (List.append_nil _).symm

theorem NameInv.putEvents {events : List ManagerEvent} (h : e.NameInv)
    (hm : ∀ {m}, m ∈ exitsOf events → ∃ pid, (m.processName, pid) ∈ e.names o) :
    (e.setMgr o { e.mgr o with eventCh := (e.mgr o).eventCh ++ events }).NameInv := by
  refine h.turned (turned_putEvents (h.frees o) events) rfl rfl h.cached (fun hx => ?_) (h.jobs o)
    h.kinds
  unfold ManagerView.exits exitsOf at hx
  rw [List.filterMap_append] at hx
  rcases List.mem_append.1 hx with hx | hx
  · exact h.exits hx
  · exact hm hx

/-- A process keeps its name, and is not made idle while its manager has jobs. -/
theorem NameInv.setProc (h : e.NameInv) (hp : e.procs[pid]? = some p) (hf : Process.Frame p p')
    (hi : p'.processState = .idle → p.processState = .idle ∨
      (e.view p.isOrigProcess).jobs = []) : (e.setProc pid p').NameInv := by
  have hlt := (List.getElem?_eq_some_iff.1 hp).1
  refine ⟨h.isOrig, h.frees, fun hq => ?_, fun hn => ?_, h.cached, h.exits, fun o => ?_, h.kinds⟩
  · rcases getElem?_set_some hq with ⟨rfl, rfl⟩ | ⟨-, hq⟩
    · rw [hf.processName, hf.isOrigProcess]; exact h.procs hp
    · exact h.procs hq
  · exact (h.owner hn).set hp hf.isOrigProcess fun _ _ => trivial
  · have hj := h.jobs o
    refine ⟨fun j hjm => ?_, hj.fresh, hj.below, hj.given, hj.closing⟩
    refine (hj.ok j hjm).keep (fun pid' q hq hqo => ?_) (List.Subset.refl _)
    by_cases hpid : pid' = pid
    · subst hpid
      obtain rfl := Option.some.inj (hp.symm.trans hq)
      refine ⟨p', List.getElem?_set_self hlt, hf.isOrigProcess, hf.processName, hf.lockedBy,
        fun hidle => ?_⟩
      rcases hi hidle with hidle | hno
      · exact hidle
      · rw [hqo] at hno
        exact absurd (hno ▸ hjm) List.not_mem_nil
    · exact ⟨q, (List.getElem?_set_ne (Ne.symm hpid)).trans hq, Keep.refl q⟩

theorem jobs_of_no_task (h : v.task = none) : v.jobs = [] := by
  unfold ManagerView.jobs
  rw [h]
  rfl

/-- The manager moves a process in its cache. -/
structure Moved (v v' : ManagerView) : Prop where
  eq : ∃ idle busy, v' = { v with idle := idle, busy := busy }
  sub : ∀ {n pid}, v'.Cached n pid → v.Cached n pid
  sup : ∀ {n pid}, v.Cached n pid → ∃ pid', v'.Cached n pid'

/-- The call of a process leaves the managers alone, or its manager, which runs no
    handler, moves it in its cache. -/
theorem ProcCall.turned (hc : ProcCall e pid p a a' e₁) :
    (e₁.mgr = e.mgr ∧ e₁.freed = e.freed ∧ e₁.users = e.users ∧ (∀ sigOk, a' ≠ .tick true sigOk)) ∨
    ((e.view p.isOrigProcess).task = none ∧ ∃ v', Turned e p.isOrigProcess v' e₁ ∧
      Moved (e.view p.isOrigProcess) v' ∧
        ∃ pid', (e.view p.isOrigProcess).Cached p.processName pid') := by
  have hmove : ∀ {toBusy pm}, (e.mgr p.isOrigProcess).task = none →
      (e.mgr p.isOrigProcess).changeProcessState found p.processName toBusy p.key = some pm →
      (e.view p.isOrigProcess).task = none ∧ ∃ v',
        Turned e p.isOrigProcess v' (e.settle p.isOrigProcess pm) ∧
        Moved (e.view p.isOrigProcess) v' ∧
        ∃ pid', (e.view p.isOrigProcess).Cached p.processName pid' := by
    intro toBusy pm ht hpm
    obtain ⟨idle, busy, pid', hv, hget, hsub, hsup⟩ := ProcessManager.view_changeProcessState hpm
    refine ⟨ht, pm.view, turned_settle _ _ _,
      ⟨⟨idle, busy, hv⟩, fun hn => hsub _ _ hn, fun hn => hsup _ _ hn⟩, pid', ?_⟩
    cases toBusy
    · exact Or.inr hget
    · exact Or.inl hget
  cases hc with
  | alone ha => exact Or.inl ⟨rfl, rfl, rfl, fun _ hax => by subst hax; exact ha⟩
  | txReq _ _ _ | tick | idleTxReq | launch | wait _ _ _ => exact Or.inl ⟨rfl, rfl, rfl, nofun⟩
  | toIdle _ ht hpm => exact Or.inr (hmove ht hpm)
  | toBusy ht hpm => exact Or.inr (hmove ht hpm)

theorem ProcCall.same (hc : ProcCall e pid p a a' e₁) :
    e₁.procs = e.procs ∧ e₁.names = e.names ∧ a'.OfManager = false := by
  cases hc with
  | @alone a ha =>
    refine ⟨rfl, rfl, ?_⟩
    cases a with
    | changeSandbox _ _ _ _ | closeSandbox _ | leaveWindow _ => cases ha
    | _ => rfl
  | _ => exact ⟨rfl, rfl, rfl⟩

theorem ProcCall.jobs_eq (hc : ProcCall e pid p a a' e₁) (o : Bool) :
    (e₁.view o).jobs = (e.view o).jobs := by
  rcases hc.turned with ⟨hm, -⟩ | ⟨-, v', ht, hmoved, -⟩
  · exact congrArg (fun mgr => (mgr o).view.jobs) hm
  · obtain ⟨idle, busy, rfl⟩ := hmoved.eq
    by_cases ho : o = p.isOrigProcess
    · rw [ho, ht.view]; rfl
    · rw [ht.other ho]

theorem NameInv.procCall (h : e.NameInv) (hc : ProcCall e pid p a a' e₁) : e₁.NameInv := by
  obtain ⟨hprocs, hnames, -⟩ := hc.same
  rcases hc.turned with ⟨hm, -⟩ | ⟨htask, v', ht, hmoved, -⟩
  · exact h.congr hm hprocs hnames
  · obtain ⟨⟨idle, busy, rfl⟩, hsub, -⟩ := hmoved
    exact h.turned ht rfl rfl (fun hn => h.cached (hsub hn)) h.exits (h.jobs _) h.kinds

/-- A process after its call and its own step. -/
theorem NameInv.procStep (h : e.NameInv) (hp : e.procs[pid]? = some p)
    (hc : ProcCall e pid p a a' e₁) (hs : Process.ProcStep p a' p' outs) :
    (e₁.setProc pid p').NameInv := by
  obtain ⟨hprocs, -, ha⟩ := hc.same
  refine (h.procCall hc).setProc (hprocs ▸ hp) (hs.frame ha) fun hi => ?_
  refine (hs.idle ha hi).imp id fun ⟨sigOk, htick⟩ => ?_
  rcases hc.turned with ⟨-, -, -, hno⟩ | ⟨htask, v', ht, hmoved, -⟩
  · exact absurd htick (hno sigOk)
  · obtain ⟨idle, busy, rfl⟩ := hmoved.eq
    rw [ht.view]
    exact jobs_of_no_task htask

/-- A step of a process keeps the names. -/
theorem NameInv.proc (h : e.NameInv) (hp : e.procs[pid]? = some p) (hc : ProcCall e pid p a a' e₁)
    (hs : Process.ProcStep p a' p' outs) :
    ((e₁.setProc pid p').putExits p'.isOrigProcess outs).NameInv := by
  obtain ⟨hprocs, hnames, ha⟩ := hc.same
  have hf := hs.frame ha
  have hmem := h.procs hp
  have hset := h.procStep hp hc hs
  refine hset.putEvents fun {m} hm => ⟨pid, ?_⟩
  have hm' : m ∈ Process.exitMsgs outs := by
    unfold exitsOf at hm
    rw [List.filterMap_map] at hm
    obtain ⟨x, hx, hxm⟩ := List.mem_filterMap.1 hm
    cases hxm
    exact hx
  have hnames' : (e₁.setProc pid p').names = e.names := hnames
  rw [hnames', hf.isOrigProcess]
  rcases hs.exitMsgs with h0 | ⟨h1, -⟩
  · rw [h0] at hm'; cases hm'
  · rw [h1] at hm'
    rw [List.mem_singleton.1 hm']
    exact hmem

/-- A message to a process keeps the names. -/
theorem NameInv.message (h : e.NameInv) (hp : e.procs[pid]? = some p)
    (hs : Process.ProcStep p a p' []) (ha : a.OfManager = false)
    (htick : ∀ sigOk, a ≠ .tick true sigOk) : (e.setProc pid p').NameInv :=
  h.setProc hp (hs.frame ha) fun hi =>
    (hs.idle ha hi).imp id fun ⟨sigOk, hx⟩ => absurd hx (htick sigOk)

/-- Every step keeps the names. -/
theorem NameInv.step {a : Action} (h : e.NameInv) (hs : EngStep e a e' outs) : e'.NameInv := by
  cases hs with
  | request => exact h.putEvents fun hm => absurd hm List.not_mem_nil
  | turn hc => exact h.turn (turned_settle _ _ _) hc
  | job ht hi hc hj => exact h.job ht hi hc hj
  | proc hp hc hs => exact h.proc hp hc hs
  | connect _ => exact h.congr rfl rfl rfl
  | register _ _ hp hs => exact h.message hp hs rfl nofun
  | respond _ _ hp hs => exact h.message hp hs rfl nofun
  | exit _ => exact h.congr rfl rfl rfl

end Engine

end VmEngine
