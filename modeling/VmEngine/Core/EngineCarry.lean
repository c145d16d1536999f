/-
  Live names, and what a step carries over.

  A name is live while its process is cached under it or a job is about to cache it.
  `Carry` says what every step keeps: processes that have ended stay so, and no name
  that was given before becomes live.  This needs that a signal to a process succeeds
  only while `launchProcess` has not returned (`SignalsRunning`).
-/
import VmEngine.Core.EngineNames

namespace VmEngine

/-! ## Live names -/

namespace ManagerView

/-- A process is cached under the name, or a job is about to cache one. -/
def Live (v : ManagerView) (n : String) : Prop :=
  (∃ pid, v.Cached n pid) ∨ n ∈ v.jobs.filterMap Job.given

end ManagerView

/-- The name that becomes live by a step of a job. -/
def Job.added : Job → ProcessManager.JobEvent → Option String
  | .named _ name, .createOk _ => some name
  | .renamed c, .changeKill => some c.newName
  | _, _ => none

/-- The name that is uncached by a step of a job. -/
def Job.dropped : Job → ProcessManager.JobEvent → Option String
  | .changed c, .recache => some c.oldName
  | .closed _, .release _ name => some name
  | _, _ => none

/-- The process that a job is about to signal. -/
def Job.target : Job → Option ℕ
  | .renamed c => some c.pid
  | .close pid => some pid
  | _ => none

/-- `launchProcess` has started a sandbox and not returned. -/
def Launch.isUp : Launch → Bool
  | .sending _ | .running _ => true
  | _ => false

namespace Engine
variable {cfg : ProcessConfig} {e e' e₁ : Engine} {o ok : Bool} {v v' : ManagerView} {t : Task}
  {jobs rest : List Job} {i pid : ℕ} {j : Job} {ev : ProcessManager.JobEvent} {outs : List ProcessOut}
  {n : String} {p p' : Process}

/-- A step of a job makes at most one name live. -/
theorem live_of_job (ht : v.task = some (t, jobs)) (hi : jobs[i]? = some j)
    (hj : ProcessManager.JobCase v t jobs i j ev v') (h : v'.Live n) :
    v.Live n ∨ j.added ev = some n := by
  obtain ⟨rest, hperm, hset, herase⟩ := exists_rest hi
  have hrest : n ∈ rest.filterMap Job.given → v.Live n := by
    intro hn
    refine Or.inr ?_
    rw [jobs_eq_of_task ht, (hperm.filterMap _).mem_iff]
    exact ((List.sublist_cons_self j rest).filterMap _).subset hn
  have hself : j.given = some n → v.Live n := by
    intro hn
    refine Or.inr ?_
    rw [jobs_eq_of_task ht]
    exact List.mem_filterMap.2 ⟨j, List.mem_of_getElem? hi, hn⟩
  have hkeep : ∀ {y}, n ∈ (jobs.set i y).filterMap Job.given → v.Live n ∨ y.given = some n := by
    intro y hn
    rw [((hset y).filterMap _).mem_iff, List.mem_filterMap] at hn
    obtain ⟨x, hx, hxn⟩ := hn
    rcases List.mem_cons.1 hx with rfl | hx
    · exact Or.inr hxn
    · exact Or.inl (hrest (List.mem_filterMap.2 ⟨x, hx, hxn⟩))
  have hdrop : n ∈ (jobs.eraseIdx i).filterMap Job.given → v.Live n :=
    fun hn => hrest (((herase).filterMap _).mem_iff.1 hn)
  cases hj with
  | name | rename | closeKill | closeDone =>
    rcases h with h | h
    · exact Or.inl (Or.inl h)
    · rcases hkeep h with h | h
      · exact Or.inl h
      · cases h
  | createOk | changeKill =>
    rcases h with h | h
    · exact Or.inl (Or.inl h)
    · exact hkeep h
  | changeDone =>
    rcases h with h | h
    · exact Or.inl (Or.inl h)
    · exact Or.inl ((hkeep h).elim id hself)
  | createFail | meet | changeFail | closeFail =>
    rcases h with h | h
    · exact Or.inl (Or.inl h)
    · exact Or.inl (hdrop h)
  | cache =>
    rcases h with ⟨pid, h⟩ | h
    · rcases ManagerView.of_cached_cache (v := v) h with ⟨rfl, -⟩ | h
      · exact Or.inl (hself rfl)
      · exact Or.inl (Or.inl ⟨pid, h⟩)
    · exact Or.inl (hdrop h)
  | @recache c =>
    rcases h with ⟨pid, h⟩ | h
    · rcases ManagerView.of_cached_cache (v := v.uncache c.oldName) h with ⟨rfl, -⟩ | h
      · exact Or.inl (hself rfl)
      · exact Or.inl (Or.inl ⟨pid, (ManagerView.cached_uncache.1 h).2⟩)
    · exact Or.inl (hdrop h)
  | release _ =>
    rcases h with ⟨pid, h⟩ | h
    · exact Or.inl (Or.inl ⟨pid, (ManagerView.cached_uncache.1 h).2⟩)
    · exact Or.inl (hdrop h)

/-- A step of a job uncaches at most one name. -/
theorem live_job (ht : v.task = some (t, jobs)) (hi : jobs[i]? = some j)
    (hj : ProcessManager.JobCase v t jobs i j ev v') (h : v.Live n) (hd : j.dropped ev ≠ some n) :
    v'.Live n := by
  obtain ⟨rest, hperm, hset, herase⟩ := exists_rest hi
  have hgiv : n ∈ v.jobs.filterMap Job.given → j.given = some n ∨ n ∈ rest.filterMap Job.given := by
    rw [jobs_eq_of_task ht, (hperm.filterMap _).mem_iff, List.mem_filterMap]
    rintro ⟨x, hx, hxn⟩
    rcases List.mem_cons.1 hx with rfl | hx
    · exact Or.inl hxn
    · exact Or.inr (List.mem_filterMap.2 ⟨x, hx, hxn⟩)
  have hkeep : ∀ {y}, n ∈ rest.filterMap Job.given → n ∈ (jobs.set i y).filterMap Job.given := by
    intro y hn
    rw [((hset y).filterMap _).mem_iff]
    exact ((List.sublist_cons_self y rest).filterMap _).subset hn
  have hdrop : n ∈ rest.filterMap Job.given → n ∈ (jobs.eraseIdx i).filterMap Job.given :=
    fun hn => (herase.filterMap _).mem_iff.2 hn
  cases hj with
  | name | rename | closeKill | closeDone | createOk | changeKill =>
    rcases h with h | h
    · exact Or.inl h
    · rcases hgiv h with h | h
      · cases h
      · exact Or.inr (hkeep h)
  | changeDone =>
    rcases h with h | h
    · exact Or.inl h
    · rcases hgiv h with h | h
      · refine Or.inr ?_
        exact List.mem_filterMap.2 ⟨_, (hset _).mem_iff.2 List.mem_cons_self, h⟩
      · exact Or.inr (hkeep h)
  | createFail | meet | changeFail | closeFail =>
    rcases h with h | h
    · exact Or.inl h
    · rcases hgiv h with h | h
      · cases h
      · exact Or.inr (hdrop h)
  | @cache key name pid =>
    by_cases hn : n = name
    · exact Or.inl ⟨pid, by rw [hn]; exact ManagerView.cached_cache_self v name pid⟩
    · rcases h with ⟨pid', h⟩ | h
      · exact Or.inl ⟨pid', ManagerView.cached_cache_of_ne (v := v) h hn⟩
      · rcases hgiv h with h | h
        · exact absurd (Option.some.inj h).symm hn
        · exact Or.inr (hdrop h)
  | @recache c =>
    by_cases hn : n = c.newName
    · exact Or.inl ⟨c.pid, by
        rw [hn]; exact ManagerView.cached_cache_self (v.uncache c.oldName) c.newName c.pid⟩
    · rcases h with ⟨pid', h⟩ | h
      · have hold : n ≠ c.oldName := fun h => hd (congrArg some h.symm)
        refine Or.inl ⟨pid', ?_⟩
        exact ManagerView.cached_cache_of_ne (v := v.uncache c.oldName)
          (ManagerView.cached_uncache.2 ⟨hold, h⟩) hn
      · rcases hgiv h with h | h
        · exact absurd (Option.some.inj h).symm hn
        · exact Or.inr (hdrop h)
  | @release _ _ key name _ =>
    rcases h with ⟨pid', h⟩ | h
    · refine Or.inl ⟨pid', ?_⟩
      exact ManagerView.cached_uncache.2 ⟨fun hn => hd (congrArg some hn.symm), h⟩
    · rcases hgiv h with h | h
      · cases h
      · exact Or.inr (hdrop h)

/-- Live names were given. -/
theorem NameInv.of_live (h : e.NameInv) (hn : (e.view o).Live n) : ∃ pid, (n, pid) ∈ e.names o := by
  rcases hn with ⟨pid, hn⟩ | hn
  · exact ⟨pid, h.cached hn⟩
  · exact JobsInv.of_given (h.jobs o).ok hn

/-! ## What a step carries over -/

/-- The job at a position of the task of a manager. -/
def jobAt (e : Engine) (o : Bool) (i : ℕ) : Option Job := ((e.mgr o).task.map Prod.snd).bind (·[i]?)

/-- The process that the job is about to signal. -/
def target (e : Engine) (o : Bool) (i : ℕ) : Option Process :=
  ((e.jobAt o i).bind Job.target).bind (e.procs[·]?)

/-- A signal of `ChangeSandbox` or `CloseSandbox` succeeds only while `launchProcess`
    has not returned. -/
def SignalsRunning (e : Engine) : Action → Prop
  | .job o i true => ∀ p ∈ e.target o i, p.processState = .idle → p.launch.isUp = true
  | _ => True

/-- What a step does to a process: one that has ended stays so, and one whose name is
    not live does not become idle while its sandbox may run. -/
structure Kept (e e' : Engine) (p p' : Process) : Prop where
  isOrig : p'.isOrigProcess = p.isOrigProcess
  ended : p.launch = .none → p.listen = none → p'.launch = .none ∧ p'.listen = none
  idle : ¬ (e.view p.isOrigProcess).Live p.processName →
    (p.launch = .none ∨ p.processState ≠ .idle) → p'.launch = .none ∨ p'.processState ≠ .idle
  name : p'.processName = p.processName ∨ ¬ (e'.view p.isOrigProcess).Live p'.processName ∨
    (p.launch ≠ .none ∧ p.processState = .idle)

/-- What a step does to processes and names: no old name becomes live. -/
structure Carry (e e' : Engine) : Prop where
  names : ∀ o, e.names o ⊆ e'.names o
  procs : ∀ {pid : ℕ} {p}, e.procs[pid]? = some p → ∃ p', e'.procs[pid]? = some p' ∧ Kept e e' p p'
  live : ∀ {o n pid}, (n, pid) ∈ e.names o → (e'.view o).Live n → (e.view o).Live n

theorem Kept.refl (e e' : Engine) (p : Process) : Kept e e' p p :=
  ⟨rfl, fun h h' => ⟨h, h'⟩, fun _ h => h, Or.inl rfl⟩

/-- A process changes and the others do not. -/
theorem carry_setProc (hp : e.procs[pid]? = some p) (hk : Kept e e' p p')
    (hprocs : e'.procs = e.procs.set pid p') {q : Process} {k : ℕ} (hq : e.procs[k]? = some q) :
    ∃ q', e'.procs[k]? = some q' ∧ Kept e e' q q' := by
  rw [hprocs]
  by_cases hpid : k = pid
  · subst hpid
    obtain rfl := Option.some.inj (hp.symm.trans hq)
    exact ⟨p', List.getElem?_set_self (List.getElem?_eq_some_iff.1 hp).1, hk⟩
  · exact ⟨q, (List.getElem?_set_ne (Ne.symm hpid)).trans hq, Kept.refl e e' q⟩

/-- A step that changes no process, and makes no name live. -/
theorem carry_of_same (hprocs : e'.procs = e.procs) (hnames : e'.names = e.names)
    (hlive : ∀ {o n}, (e'.view o).Live n → (e.view o).Live n) : Carry e e' where
  names _ := by rw [hnames]; exact List.Subset.refl _
  procs hp := by rw [hprocs]; exact ⟨_, hp, Kept.refl ..⟩
  live _ h := hlive h

variable {a : Process.Action} {o' : Bool} {pm : ProcessManager}

theorem Turned.live (ht : Turned e o v e') (hv : v.Live n → (e.view o).Live n)
    (h : (e'.view o').Live n) : (e.view o').Live n := by
  by_cases ho : o' = o
  · rw [ho, ht.view] at h
    rw [ho]; exact hv h
  · rwa [ht.other ho] at h

theorem live_turn (hc : ProcessManager.TurnCase v v') (h : v'.Live n) : v.Live n := by
  cases hc with
  | stay _ => exact h
  | start hno _ hs =>
    rcases h with h | h
    · exact Or.inl h
    · obtain ⟨j, hj, hjn⟩ := List.mem_filterMap.1 h
      rcases hs j hj with ⟨-, ⟨key, rfl⟩ | ⟨n, pid, key, rfl, -⟩⟩ | ⟨-, n, pid, rfl, -⟩
      all_goals cases hjn
  | finish _ =>
    rcases h with h | h
    · exact Or.inl h
    · cases h
  | exit _ _ _ =>
    rcases h with ⟨pid, h⟩ | h
    · exact Or.inl ⟨pid, (ManagerView.cached_uncache.1 h).2⟩
    · exact Or.inr h

theorem Moved.live_iff (hm : Moved v v') : v'.Live n ↔ v.Live n := by
  obtain ⟨⟨idle, busy, rfl⟩, hsub, hsup⟩ := hm
  constructor
  · rintro (⟨pid, h⟩ | h)
    · exact Or.inl ⟨pid, hsub h⟩
    · exact Or.inr h
  · rintro (⟨pid, h⟩ | h)
    · exact Or.inl (hsup h)
    · exact Or.inr h

theorem target_eq (ht : (e.mgr o).task = some (t, jobs)) (hi : jobs[i]? = some j)
    (hj : j.target = some pid) : e.target o i = e.procs[pid]? := by
  unfold target jobAt
  rw [ht]
  simp only [Option.map_some, Option.bind_some, hi, hj]

/-- The names after the call of a job. -/
theorem live_call (ht : (e.view o).task = some (t, jobs)) (hi : jobs[i]? = some j)
    (hc : CallCase e o ok j ev e₁) (hj : ProcessManager.JobCase (e.view o) t jobs i j ev pm.view)
    (hl : ((e₁.settle o pm).view o').Live n) :
    (e.view o').Live n ∨ (o' = o ∧ j.added ev = some n) := by
  by_cases ho : o' = o
  · rw [ho, view_settle] at hl
    rw [ho]
    exact (live_of_job ht hi hj hl).imp id fun h => ⟨rfl, h⟩
  · rw [view_settle_of_ne _ ho] at hl
    have hm : e₁.view o' = e.view o' := congrArg (fun mgr => (mgr o').view) hc.mgr
    rw [hm] at hl
    exact Or.inl hl

/-- The name of a job is not live before it is given. -/
theorem not_live_pending (h : e.NameInv) (ht : (e.view o).task = some (t, jobs))
    (hi : jobs[i]? = some j) (hpend : j.pending = some n) : ¬ (e.view o).Live n := by
  intro hl
  obtain ⟨pid, hpid⟩ := h.of_live hl
  obtain ⟨rest, hperm, -, -⟩ := exists_rest hi
  have hjobs := h.jobs o
  rw [jobs_eq_of_task ht] at hjobs
  exact (hjobs.perm hperm).pending_new hpend pid hpid

theorem pending_of_added (h : j.added ev = some n) : j.pending = some n := by
  unfold Job.added at h
  split at h
  · exact h
  · exact h
  · cases h

/-- No name that was given becomes live by a step of a job. -/
theorem live_of_names (h : e.NameInv) (ht : (e.view o).task = some (t, jobs))
    (hi : jobs[i]? = some j) (hc : CallCase e o ok j ev e₁)
    (hj : ProcessManager.JobCase (e.view o) t jobs i j ev pm.view) (hn : (n, pid) ∈ e.names o')
    (hl : ((e₁.settle o pm).view o').Live n) : (e.view o').Live n := by
  rcases live_call ht hi hc hj hl with hl | ⟨rfl, hadd⟩
  · exact hl
  · have hjobs := h.jobs o'
    rw [jobs_eq_of_task ht] at hjobs
    obtain ⟨rest, hperm, -, -⟩ := exists_rest hi
    exact absurd hn ((hjobs.perm hperm).pending_new (pending_of_added hadd) pid)

/-- The name of a change whose signal failed is not live. -/
theorem not_live_lost {c : Change} (h : e.NameInv) (ht : (e.view o).task = some (t, jobs))
    (hi : jobs[i]? = some (.renamed c)) (hc : CallCase e o ok (.renamed c) .changeFail e₁)
    (hj : ProcessManager.JobCase (e.view o) t jobs i (.renamed c) .changeFail pm.view) :
    ¬ ((e₁.settle o pm).view o).Live c.newName := by
  intro hl
  rcases live_call ht hi hc hj hl with hl | ⟨-, hadd⟩
  · exact not_live_pending h ht hi rfl hl
  · cases hadd

/-- A step of a job. -/
theorem carry_job (h : e.NameInv) (ht : (e.mgr o).task = some (t, jobs)) (hi : jobs[i]? = some j)
    (hc : CallCase e o ok j ev e₁) (hj : ProcessManager.JobCase (e.view o) t jobs i j ev pm.view)
    (hsig : SignalsRunning e (.job o i ok)) : Carry e (e₁.settle o pm) := by
  have hjobs := h.jobs o
  rw [jobs_eq_of_task ht] at hjobs
  have hok := hjobs.ok j (List.mem_of_getElem? hi)
  have heff := hc.effect hok
  have hlive : ∀ {o' n pid}, (n, pid) ∈ e.names o' → ((e₁.settle o pm).view o').Live n →
      (e.view o').Live n := fun hn hl => live_of_names h ht hi hc hj hn hl
  have hset : ∀ {pid p p'}, e.procs[pid]? = some p → e₁.procs = e.procs.set pid p' →
      p'.isOrigProcess = p.isOrigProcess → p'.launch = p.launch → p'.listen = p.listen →
      (p'.processState = p.processState ∨ p'.processState ≠ .idle) →
      (p'.processName = p.processName ∨
        ¬ ((e₁.settle o pm).view p.isOrigProcess).Live p'.processName ∨
        (p.launch ≠ .none ∧ p.processState = .idle)) → Carry e (e₁.settle o pm) := by
    intro pid p p' hp hprocs hor hla hli hst hname
    refine ⟨heff.names_sub, fun hq => carry_setProc hp ⟨hor, ?_, ?_, hname⟩ hprocs hq, hlive⟩
    · intro h1 h2
      exact ⟨hla.trans h1, hli.trans h2⟩
    · rintro - (h1 | h1)
      · exact Or.inl (hla.trans h1)
      · rcases hst with hst | hst
        · exact Or.inr (hst ▸ h1)
        · exact Or.inr hst
  have hsame : e₁.procs = e.procs → Carry e (e₁.settle o pm) := fun hprocs =>
    ⟨heff.names_sub, fun hp => ⟨_, (congrArg (·[_]?) hprocs).trans hp, Kept.refl ..⟩, hlive⟩
  cases hc with
  | plain _ | nameChange _ | refused _ _ | refusedClose _ _ | release _ => exact hsame rfl
  | create _ =>
    refine ⟨heff.names_sub, fun hp => ⟨_, ?_, Kept.refl ..⟩, hlive⟩
    exact (List.getElem?_append_left (List.getElem?_eq_some_iff.1 hp).1).trans hp
  | @lost c p hp hst hlock htok =>
    have hor : p.isOrigProcess = o := by
      obtain ⟨q, hq, ho, -⟩ := hok.2
      rwa [← Option.some.inj (hp.symm.trans hq)] at ho
    refine hset hp rfl rfl rfl rfl (Or.inl rfl) (Or.inr (Or.inl ?_))
    rw [hor]
    exact not_live_lost h ht hi (.lost hp hst hlock htok) hj
  | @killed c p hp hst hlock htok hs =>
    have hup := hsig p ((target_eq ht hi rfl).trans hp) hst
    refine hset hp rfl rfl rfl rfl (Or.inl rfl) (Or.inr (Or.inr ⟨fun hnone => ?_, hst⟩))
    rw [hnone] at hup; cases hup
  | leaveChange hp _ => exact hset hp rfl rfl rfl rfl (Or.inr nofun) (Or.inl rfl)
  | closeLost hp _ _ _ => exact hset hp rfl rfl rfl rfl (Or.inl rfl) (Or.inl rfl)
  | closeKilled hp _ _ _ _ => exact hset hp rfl rfl rfl rfl (Or.inl rfl) (Or.inl rfl)
  | leaveClose hp _ => exact hset hp rfl rfl rfl rfl (Or.inr nofun) (Or.inl rfl)

/-- A step of a process that its manager does not make. -/
theorem kept_procStep (hs : Process.ProcStep p a p' outs) (ha : a.OfManager = false)
    (htick : ∀ sigOk, a = .tick true sigOk → (e.view p.isOrigProcess).Live p.processName) :
    Kept e e' p p' := by
  have hf := hs.frame ha
  refine ⟨hf.isOrigProcess, fun h1 h2 => ⟨hs.launch_none h1, hs.listen_none h2⟩, ?_,
    Or.inl hf.processName⟩
  intro hl hor
  by_cases hi : p'.processState = .idle
  · rcases hs.idle ha hi with hi | ⟨sigOk, hx⟩
    · rcases hor with hor | hor
      · exact Or.inl (hs.launch_none hor)
      · exact absurd hi hor
    · exact absurd (htick sigOk hx) hl
  · exact Or.inr hi

/-- The views after a call of a process. -/
theorem ProcCall.live {a' : Process.Action} (hc : ProcCall e pid p a a' e₁) :
    (e₁.view o).Live n ↔ (e.view o).Live n := by
  rcases hc.turned with ⟨hm, -⟩ | ⟨-, v', ht, hmoved, -⟩
  · have : e₁.view o = e.view o := congrArg (fun mgr => (mgr o).view) hm
    rw [this]
  · by_cases ho : o = p.isOrigProcess
    · rw [ho, ht.view]
      exact hmoved.live_iff
    · rw [ht.other ho]

theorem live_putExits : ((e.putExits o' outs).view o).Live n ↔ (e.view o).Live n := by
  by_cases ho : o = o'
  · rw [ho, view_putExits]
    exact Iff.rfl
  · rw [view_putExits_of_ne _ ho]

theorem carry_proc {a' : Process.Action} (hp : e.procs[pid]? = some p)
    (hc : ProcCall e pid p a a' e₁) (hs : Process.ProcStep p a' p' outs) :
    Carry e ((e₁.setProc pid p').putExits p'.isOrigProcess outs) := by
  obtain ⟨hprocs, hnames, ha⟩ := hc.same
  refine ⟨fun o => ?_, fun hq => carry_setProc hp (kept_procStep hs ha fun sigOk hx => ?_)
    (congrArg (List.set · pid p') hprocs) hq, fun _ hl => ?_⟩
  · have hn : ((e₁.setProc pid p').putExits p'.isOrigProcess outs).names = e.names := hnames
    rw [hn]
    exact List.Subset.refl _
  · rcases hc.turned with ⟨-, -, -, hno⟩ | ⟨-, v', -, -, hcached⟩
    · exact absurd hx (hno sigOk)
    · exact Or.inl hcached
  · exact hc.live.1 (live_putExits.1 hl)

/-- **No name that was given becomes live.** -/
theorem EngStep.live {a : Action} (hs : EngStep e a e' outs) (h : e.NameInv)
    (hn : (n, pid) ∈ e.names o) (hl : (e'.view o).Live n) : (e.view o).Live n := by
  cases hs with
  | request => exact (turned_putEvents (h.frees _) _).live (fun hl => hl) hl
  | turn hc => exact (turned_settle _ _ _).live (live_turn hc) hl
  | job ht hi hc hj => exact live_of_names h ht hi hc hj hn hl
  | proc _ hc _ => exact hc.live.1 (live_putExits.1 hl)
  | connect _ | register _ _ _ _ | respond _ _ _ _ | exit _ => exact hl

/-- **What every step carries over.** -/
theorem EngStep.carry {a : Action} (hs : EngStep e a e' outs) (h : e.NameInv)
    (hsig : SignalsRunning e a) : Carry e e' := by
  cases hs with
  | request =>
    exact carry_of_same rfl rfl fun hl => (turned_putEvents (h.frees _) _).live (fun hl => hl) hl
  | turn hc => exact carry_of_same rfl rfl fun hl => (turned_settle _ _ _).live (live_turn hc) hl
  | job ht hi hc hj => exact carry_job h ht hi hc hj hsig
  | proc hp hc hs => exact carry_proc hp hc hs
  | connect _ | exit _ => exact carry_of_same rfl rfl fun hl => hl
  | register _ _ hp hs | respond _ _ hp hs =>
    exact ⟨fun _ => List.Subset.refl _, fun hq => carry_setProc hp (kept_procStep hs rfl nofun) rfl hq,
      fun _ hl => hl⟩

end Engine

end VmEngine
