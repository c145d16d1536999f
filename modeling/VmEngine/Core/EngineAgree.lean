/-
  The states of processes and the caches of their managers.

  The manager keeps a process among the idle ones or among the busy ones, and the
  process keeps its own state.  The two agree whenever the manager runs no handler, if
  only processes in the cache are changed and no message `REGISTER` reaches a process
  that is idle.
-/
import VmEngine.Core.EngineCache
import VmEngine.Core.ProcessListen

namespace VmEngine

/-- The states of a process that its manager has among the busy ones. -/
def ProcessState.active : ProcessState → Bool
  | .created | .ready | .busy | .changing | .timeout => true
  | .idle | .closing => false

namespace Process
variable {p p' : Process} {a : Action} {outs : List ProcessOut}

/-- No sandbox registers, and the manager does not move the process. -/
def Action.quiet : Action → Bool
  | .setStream _ | .idleTxReq _ true | .tick true _ => false
  | _ => true

/-- An idle process stays idle. -/
theorem ProcStep.of_idle (hs : ProcStep p a p' outs) (hl : p.ListenInv) (ha : a.OfManager = false)
    (hq : a.quiet = true) (hi : p.processState = .idle) : p'.processState = .idle := by
  cases hs with
  | dispatched hsel _ _ _ =>
    have := (hl.ready hsel).1
    rw [hi] at this; cases this
  | answered hsel _ _ _ _ | deployFailed hsel _ _ _ _ _ =>
    rcases hl.busy hsel with h | h
    · rw [hi] at h; cases h
    · rw [hi] at h; cases h
  | busyTimeout _ _ _ hst _ => rw [hi] at hst; cases hst
  | idleTaken _ _ | setStream _ | readyTimeout _ _ _ _ => cases hq
  | exit _ _ _ hc _ =>
    cases hc with
    | ended hs _ _ =>
      rcases hs with ⟨-, rfl⟩ | ⟨-, rfl, -⟩ | ⟨hst, -⟩
      · exact hi
      · exact hi
      · rw [hi] at hst; simp at hst
    | restart _ _ _ => exact hi
    | restartAll _ hst => rw [hi] at hst; cases hst
    | closed _ _ => exact hi
  | launchProcess _ => exact (launchProcess_frame p _).2.1.trans hi
  | leaveWindow _ => cases ha
  | _ => exact hi

/-- An active process stays active. -/
theorem ProcStep.of_active (hs : ProcStep p a p' outs) (ha : a.OfManager = false)
    (hq : a.quiet = true) (hact : p.processState.active = true) :
    p'.processState.active = true := by
  cases hs with
  | dispatched _ _ _ _ | answered _ _ _ _ _ | deployFailed _ _ _ _ _ _ | busyTimeout _ _ _ _ _
  | idleTaken _ _ | setStream _ => rfl
  | readyTimeout _ _ _ _ => cases hq
  | exit _ _ _ hc _ =>
    cases hc with
    | ended hs _ _ =>
      rcases hs with ⟨-, rfl⟩ | ⟨-, rfl, -⟩ | ⟨-, rfl, -⟩
      · exact hact
      · exact hact
      · rfl
    | restart _ _ _ => exact hact
    | restartAll _ _ => rfl
    | closed _ _ => exact hact
  | launchProcess _ => rw [(launchProcess_frame p _).2.1]; exact hact
  | leaveWindow _ => cases ha
  | _ => exact hact

end Process

/-! ## Jobs -/

namespace Job

/-- The process that a job is about to take from the idle ones. -/
def moving : Job → Option ℕ
  | .changed c => some c.pid
  | .closed pid => some pid
  | _ => none

/-- The process that a job is about to put to the busy ones. -/
def caching : Job → Option ℕ
  | .made _ _ pid => some pid
  | .changed c => some c.pid
  | _ => none

/-- The process whose window a job is about to leave. -/
def leaving : Job → Option ℕ
  | .killed c => some c.pid
  | .closeKilled pid => some pid
  | _ => none

end Job

/-! ## Agreement with one manager -/

/-- The manager's cache agrees with the states of the processes; `k` is a process that
    has just left its window. -/
structure Agree (procs : List Process) (v : ManagerView) (k : Option ℕ) : Prop where
  idle : ∀ {n : String} {pid : ℕ} {p}, v.idle.get? n = some pid → procs[pid]? = some p →
    p.processState = .idle ∨ pid ∈ v.jobs.filterMap Job.moving ∨ k = some pid
  busy : ∀ {n : String} {pid : ℕ} {p}, v.busy.get? n = some pid → procs[pid]? = some p →
    p.processState.active = true
  caching : ∀ {pid : ℕ} {p}, pid ∈ v.jobs.filterMap Job.caching → procs[pid]? = some p →
    p.processState.active = true

namespace Agree
variable {procs : List Process} {v v' : ManagerView} {k : Option ℕ} {pid : ℕ} {p p' : Process}
  {j y : Job} {rest : List Job}

theorem congr (h : Agree procs v k) (hidle : v'.idle = v.idle) (hbusy : v'.busy = v.busy)
    (hjobs : v'.jobs = v.jobs) : Agree procs v' k := by
  refine ⟨?_, ?_, ?_⟩
  · rw [hidle, hjobs]; exact h.idle
  · rw [hbusy]; exact h.busy
  · rw [hjobs]; exact h.caching

/-- A process takes a step. -/
theorem setProc (h : Agree procs v none) (hp : procs[pid]? = some p)
    (hidle : (∃ n, v.idle.get? n = some pid) → p.processState = .idle →
      p'.processState = .idle ∨ k = some pid)
    (hact : p.processState.active = true → p'.processState.active = true) :
    Agree (procs.set pid p') v k := by
  refine ⟨fun hn hq => ?_, fun hn hq => ?_, fun hn hq => ?_⟩
  · rcases getElem?_set_some hq with ⟨rfl, rfl⟩ | ⟨-, hq⟩
    · rcases h.idle hn hp with hi | hm | hk
      · exact (hidle ⟨_, hn⟩ hi).imp id Or.inr
      · exact Or.inr (Or.inl hm)
      · cases hk
    · rcases h.idle hn hq with hi | hm | hk
      · exact Or.inl hi
      · exact Or.inr (Or.inl hm)
      · cases hk
  · rcases getElem?_set_some hq with ⟨rfl, rfl⟩ | ⟨-, hq⟩
    · exact hact (h.busy hn hp)
    · exact h.busy hn hq
  · rcases getElem?_set_some hq with ⟨rfl, rfl⟩ | ⟨-, hq⟩
    · exact hact (h.caching hn hp)
    · exact h.caching hn hq

/-- A process that the manager does not have changes. -/
theorem setOther (h : Agree procs v k) (hcached : ∀ {n}, ¬ v.Cached n pid)
    (hjobs : pid ∉ v.jobs.filterMap Job.caching) : Agree (procs.set pid p') v k := by
  have hold : ∀ {q : ℕ} {r : Process}, q ≠ pid → (procs.set pid p')[q]? = some r →
      procs[q]? = some r := by
    intro q r hne hr
    rwa [List.getElem?_set_ne (Ne.symm hne)] at hr
  refine ⟨fun hn hr => h.idle hn (hold ?_ hr), fun hn hr => h.busy hn (hold ?_ hr),
    fun hm hr => h.caching hm (hold ?_ hr)⟩
  · rintro rfl
    exact hcached (Or.inl hn)
  · rintro rfl
    exact hcached (Or.inr hn)
  · rintro rfl
    exact hjobs hm

/-- A process is created. -/
theorem append (h : Agree procs v k) (q : Process)
    (hcached : ∀ {n pid}, v.Cached n pid → pid < procs.length)
    (hjobs : ∀ {pid}, pid ∈ v.jobs.filterMap Job.caching → pid < procs.length) :
    Agree (procs ++ [q]) v k := by
  have hold : ∀ {pid : ℕ} {p}, pid < procs.length → (procs ++ [q])[pid]? = some p →
      procs[pid]? = some p := by
    intro pid p hlt hp
    rwa [List.getElem?_append_left hlt] at hp
  exact ⟨fun hn hp => h.idle hn (hold (hcached (Or.inl hn)) hp),
    fun hn hp => h.busy hn (hold (hcached (Or.inr hn)) hp),
    fun hn hp => h.caching hn (hold (hjobs hn) hp)⟩

/-- A job goes on. -/
theorem next (h : Agree procs v j.leaving) (hjobs : v.jobs.Perm (j :: rest))
    (hjobs' : v'.jobs.Perm (y :: rest)) (hidle : v'.idle = v.idle) (hbusy : v'.busy = v.busy)
    (hj : j.moving = none) (hy : y.moving = j.leaving)
    (hnew : ∀ {pid : ℕ} {p}, y.caching = some pid → procs[pid]? = some p →
      p.processState.active = true) : Agree procs v' none := by
  have hmem : ∀ {f : Job → Option ℕ} {pid}, pid ∈ rest.filterMap f → pid ∈ v'.jobs.filterMap f :=
    fun hm => (hjobs'.filterMap _).mem_iff.2 (((List.sublist_cons_self y rest).filterMap _).subset hm)
  refine ⟨fun {n pid p} hn hp => ?_, ?_, fun {pid p} hm hp => ?_⟩
  · rw [hidle] at hn
    rcases h.idle hn hp with hi | hm | hk
    · exact Or.inl hi
    · rw [(hjobs.filterMap _).mem_iff, List.filterMap_cons_none hj] at hm
      exact Or.inr (Or.inl (hmem hm))
    · refine Or.inr (Or.inl ((hjobs'.filterMap _).mem_iff.2 ?_))
      exact List.mem_filterMap.2 ⟨y, List.mem_cons_self, hy.trans hk⟩
  · rw [hbusy]; exact h.busy
  · rw [(hjobs'.filterMap _).mem_iff] at hm
    obtain ⟨x, hx, hpid⟩ := List.mem_filterMap.1 hm
    rcases List.mem_cons.1 hx with rfl | hx
    · exact hnew hpid hp
    · refine h.caching ((hjobs.filterMap _).mem_iff.2 ?_) hp
      exact List.mem_filterMap.2 ⟨x, List.mem_cons_of_mem _ hx, hpid⟩

/-- A job ends. -/
theorem erase (h : Agree procs v j.leaving) (hjobs : v.jobs.Perm (j :: rest))
    (hjobs' : v'.jobs.Perm rest) (hl : j.leaving = none)
    (hidle : ∀ {n pid}, v'.idle.get? n = some pid → v.idle.get? n = some pid ∧ j.moving ≠ some pid)
    (hbusy : ∀ {n pid}, v'.busy.get? n = some pid →
      v.busy.get? n = some pid ∨ j.caching = some pid) : Agree procs v' none := by
  refine ⟨fun {n pid p} hn hp => ?_, fun {n pid p} hn hp => ?_, fun {pid p} hm hp => ?_⟩
  · obtain ⟨hn, hne⟩ := hidle hn
    rcases h.idle hn hp with hi | hm | hk
    · exact Or.inl hi
    · rw [(hjobs.filterMap _).mem_iff] at hm
      obtain ⟨x, hx, hpid⟩ := List.mem_filterMap.1 hm
      rcases List.mem_cons.1 hx with rfl | hx
      · exact absurd hpid hne
      · refine Or.inr (Or.inl ((hjobs'.filterMap _).mem_iff.2 ?_))
        exact List.mem_filterMap.2 ⟨x, hx, hpid⟩
    · rw [hl] at hk; cases hk
  · rcases hbusy hn with hn | hc
    · exact h.busy hn hp
    · exact h.caching (List.mem_filterMap.2 ⟨j, hjobs.mem_iff.2 List.mem_cons_self, hc⟩) hp
  · rw [(hjobs'.filterMap _).mem_iff] at hm
    refine h.caching ((hjobs.filterMap _).mem_iff.2 ?_) hp
    exact ((List.sublist_cons_self j rest).filterMap _).subset hm

/-- A turn of the manager. -/
theorem turn (h : Agree procs v none) (hc : ProcessManager.TurnCase v v') : Agree procs v' none := by
  cases hc with
  | stay _ => exact h.congr rfl rfl rfl
  | @start events t jobs hno _ hs =>
    have hcaching : jobs.filterMap Job.caching = [] :=
      Engine.filterMap_startJobs hs (fun _ => rfl) (fun _ _ => rfl) fun _ => rfl
    refine ⟨fun {n pid p} hn hp => ?_, h.busy, fun {pid p} hm hp => ?_⟩
    · rcases h.idle hn hp with hi | hm | hk
      · exact Or.inl hi
      · rw [hno] at hm; cases hm
      · cases hk
    · have hm : pid ∈ jobs.filterMap Job.caching := hm
      rw [hcaching] at hm; cases hm
  | finish hno =>
    refine ⟨fun {n pid p} hn hp => ?_, h.busy, fun hm _ => by cases hm⟩
    rcases h.idle hn hp with hi | hm | hk
    · exact Or.inl hi
    · rw [hno] at hm; cases hm
    · cases hk
  | exit _ _ _ =>
    exact ⟨fun hn hp => h.idle (LinkedMap.get?_of_remove hn) hp,
      fun hn hp => h.busy (LinkedMap.get?_of_remove hn) hp, h.caching⟩

end Agree

namespace Engine
variable {cfg : ProcessConfig} {e e' e₁ : Engine} {o ok : Bool} {v v' : ManagerView} {t : Task}
  {jobs : List Job} {i pid : ℕ} {j : Job} {ev : ProcessManager.JobEvent} {outs : List ProcessOut}
  {p p' : Process} {a : Action}

open ManagerView

/-! ## The invariant -/

structure AgreeInv (e : Engine) : Prop where
  names : e.NameInv
  cache : e.CacheInv
  listen : ∀ {pid : ℕ} {p}, e.procs[pid]? = some p → p.ListenInv
  agree : ∀ o, Agree e.procs (e.view o) none

/-- No message `REGISTER` reaches a process that is idle, and so in the cache. -/
def RegistersBusy (e : Engine) : Action → Prop
  | .register sid => ∀ pid ∈ e.sandboxes[sid]?.bind (·.conn), ∀ p ∈ e.procs[pid]?,
      p.processState = .idle → pid ∉ (e.mgr p.isOrigProcess).idleProcesses.entries.map Prod.snd
  | _ => True

instance : DecidableRel RegistersBusy
  | e, .register sid => inferInstanceAs (Decidable (∀ pid ∈ e.sandboxes[sid]?.bind (·.conn),
      ∀ p ∈ e.procs[pid]?, p.processState = .idle →
        pid ∉ (e.mgr p.isOrigProcess).idleProcesses.entries.map Prod.snd))
  | _, .job _ _ _ | _, .request _ _ | _, .manager _ _ | _, .proc _ _ | _, .connect _
  | _, .respond _ _ | _, .exit _ => instDecidableTrue

/-- Only processes in the cache are changed, and sandboxes register with processes that
    are not idle. -/
def AgreeOk (e : Engine) (a : Action) : Prop := ChangesCached e a ∧ RegistersBusy e a

instance : DecidableRel AgreeOk := fun e a =>
  inferInstanceAs (Decidable (ChangesCached e a ∧ RegistersBusy e a))

/-- A cached process belongs to the manager. -/
theorem NameInv.cached_proc (h : e.NameInv) {n : String} (hn : (e.view o).Cached n pid)
    (hp : e.procs[pid]? = some p) : p.isOrigProcess = o := by
  obtain ⟨q, hq, ho, -⟩ := h.owner (h.cached hn)
  obtain rfl := Option.some.inj (hq.symm.trans hp)
  exact ho

theorem NameInv.cached_lt (h : e.NameInv) {n : String} (hn : (e.view o).Cached n pid) :
    pid < e.procs.length := by
  obtain ⟨q, hq, -⟩ := h.owner (h.cached hn)
  exact (List.getElem?_eq_some_iff.1 hq).1

/-- A process that is about to be cached belongs to the manager. -/
theorem NameInv.caching (h : e.NameInv) (hm : pid ∈ (e.view o).jobs.filterMap Job.caching) :
    HasProc e.procs o pid fun _ => True := by
  obtain ⟨j, hj, hpid⟩ := List.mem_filterMap.1 hm
  have hok := (h.jobs o).ok j hj
  cases j with
  | made _ _ _ =>
    cases hpid
    obtain ⟨q, hq, ho, -⟩ := hok.2
    exact ⟨q, hq, ho, trivial⟩
  | changed _ =>
    cases hpid
    obtain ⟨q, hq, ho, -⟩ := hok.2.2.2
    exact ⟨q, hq, ho, trivial⟩
  | _ => cases hpid

theorem NameInv.caching_lt (h : e.NameInv) (hm : pid ∈ (e.view o).jobs.filterMap Job.caching) :
    pid < e.procs.length := by
  obtain ⟨q, hq, -⟩ := h.caching hm
  exact (List.getElem?_eq_some_iff.1 hq).1

/-- A process of one manager changes: the other one does not notice. -/
theorem AgreeInv.other (h : e.AgreeInv) (hp : e.procs[pid]? = some p) (ho : o ≠ p.isOrigProcess) :
    Agree (e.procs.set pid p') (e.view o) none := by
  refine (h.agree o).setOther (fun hcd => ho (h.names.cached_proc hcd hp).symm) fun hm => ?_
  obtain ⟨q, hq, hqo, -⟩ := h.names.caching hm
  obtain rfl := Option.some.inj (hp.symm.trans hq)
  exact ho hqo.symm

/-! ## Jobs -/

/-- What the call of a job does to the state of a process: an idle process stays so or
    leaves its window. -/
inductive CallState (e : Engine) (o : Bool) (j : Job) (ev : ProcessManager.JobEvent) (e₁ : Engine) :
    Prop
  | same : e₁.procs = e.procs → ev.added = [] → j.leaving = none →
      CallState e o j ev e₁
  | append {q : Process} : e₁.procs = e.procs ++ [q] → q.processState = .created →
      ev = .createOk e.procs.length → j.leaving = none → CallState e o j ev e₁
  | idle {pid : ℕ} {p p' : Process} : e.procs[pid]? = some p → e₁.procs = e.procs.set pid p' →
      p.processState = .idle → p'.processState = .idle → ev.added = [] →
      j.leaving = none → CallState e o j ev e₁
  | leave {pid : ℕ} {p p' : Process} : e.procs[pid]? = some p → e₁.procs = e.procs.set pid p' →
      p.processState = .idle → ev.added = [] → j.leaving = some pid →
      (∀ c, j = .killed c → p'.processState = .changing) → CallState e o j ev e₁

theorem CallCase.state (hc : CallCase e o ok j ev e₁)
    (hl : ∀ {pid : ℕ} {p}, e.procs[pid]? = some p → p.ListenInv) : CallState e o j ev e₁ := by
  cases hc with
  | plain hp => cases hp <;> exact .same rfl rfl rfl
  | create hu => exact .append rfl rfl rfl rfl
  | nameChange _ | refused _ _ | refusedClose _ _ | release _ => exact .same rfl rfl rfl
  | lost hp hst _ _ | killed hp hst _ _ _ | closeLost hp hst _ _ | closeKilled hp hst _ _ _ =>
    exact .idle hp rfl hst hst rfl rfl
  | leaveChange hp hw =>
    exact .leave hp rfl ((hl hp).lock (by rw [hw]; nofun)) rfl rfl fun _ _ => rfl
  | leaveClose hp hw => exact .leave hp rfl ((hl hp).lock (by rw [hw]; nofun)) rfl rfl nofun

/-- The processes after the call of a job, for its own manager. -/
theorem CallState.agree (hc : CallState e o j ev e₁) (hn : e.NameInv)
    (h : Agree e.procs (e.view o) none) : Agree e₁.procs (e.view o) j.leaving := by
  cases hc with
  | same hprocs _ hl => rw [hprocs, hl]; exact h
  | append hprocs _ _ hl => rw [hprocs, hl]; exact h.append _ hn.cached_lt hn.caching_lt
  | idle hp hprocs hst hst' _ hl =>
    rw [hprocs, hl]
    refine h.setProc hp (fun _ _ => Or.inl hst') fun hact => ?_
    rw [hst] at hact; cases hact
  | leave hp hprocs hst _ hl _ =>
    rw [hprocs]
    refine h.setProc hp (fun _ _ => Or.inr hl) fun hact => ?_
    rw [hst] at hact; cases hact

/-- The processes after the call of a job, for the other manager. -/
theorem AgreeInv.call_other (h : e.AgreeInv) (hc : CallEffect e o e₁) {o' : Bool} (ho : o' ≠ o) :
    Agree e₁.procs (e.view o') none := by
  cases hc with
  | same hprocs _ => rw [hprocs]; exact h.agree o'
  | append hprocs _ _ =>
    rw [hprocs]
    exact (h.agree o').append _ h.names.cached_lt h.names.caching_lt
  | set hp hprocs hown _ _ _ => rw [hprocs]; exact h.other hp (hown ▸ ho)
  | rename hp hprocs hown _ _ => rw [hprocs]; exact h.other hp (hown ▸ ho)

/-- A process that a job is about to cache is active. -/
theorem CallState.caching_new (hc : CallState e o j ev e₁) {y : Job} (hnext : NextJob j ev y)
    (hy : y.caching = some pid) (hp : e₁.procs[pid]? = some p) : p.processState.active = true := by
  cases hnext with
  | made =>
    cases hy
    cases hc with
    | append hprocs hst hev _ =>
      cases hev
      rw [hprocs, List.getElem?_concat_length] at hp
      rw [← Option.some.inj hp, hst]
      rfl
    | same _ hno _ => cases hno
    | idle _ _ _ _ hno _ => cases hno
    | leave _ _ _ hno _ _ => cases hno
  | changed =>
    cases hy
    cases hc with
    | leave hq hprocs _ _ hl hst =>
      cases hl
      rw [hprocs, getElem?_set_self_of_some hq] at hp
      rw [← Option.some.inj hp, hst _ rfl]
      rfl
    | same _ _ hl => cases hl
    | append _ _ _ hl => cases hl
    | idle _ _ _ _ _ hl => cases hl
  | _ => cases hy

/-- A step of a job of the manager. -/
theorem AgreeInv.agree_job (h : e.AgreeInv)
    (ht : (e.view o).task = some (t, jobs)) (hi : jobs[i]? = some j)
    (hc : CallCase e o ok j ev e₁)
    (hj : ProcessManager.JobCase (e.view o) t jobs i j ev v') : Agree e₁.procs v' none := by
  have hstate := hc.state h.listen
  have hag := hstate.agree h.names (h.agree o)
  obtain ⟨rest, hperm, hset, herase⟩ := exists_rest hi
  rw [← jobs_eq_of_task ht] at hperm
  cases hj with
  | name | rename | changeKill | closeKill | closeDone =>
    exact hag.next hperm (hset _) rfl rfl rfl rfl fun hy _ => by cases hy
  | createOk =>
    exact hag.next hperm (hset _) rfl rfl rfl rfl fun hy hp => hstate.caching_new .made hy hp
  | changeDone =>
    exact hag.next hperm (hset _) rfl rfl rfl rfl fun hy hp => hstate.caching_new .changed hy hp
  | createFail | meet | changeFail | closeFail =>
    exact hag.erase hperm herase rfl (fun hn => ⟨hn, nofun⟩) Or.inl
  | cache =>
    refine hag.erase hperm herase rfl (fun hn => ⟨hn, nofun⟩) fun hn => ?_
    rcases LinkedMap.get?_of_put hn with ⟨-, rfl⟩ | hn
    · exact Or.inr rfl
    · exact Or.inl hn
  | @recache c =>
    have hold := h.cache.cached_of_changed ht hi c rfl
    refine hag.erase hperm herase rfl (fun {n pid} hn => ?_) fun hn => ?_
    · have hn : ((e.view o).idle.remove c.oldName).get? n = some pid := hn
      rw [LinkedMap.get?_remove] at hn
      split_ifs at hn with hne
      refine ⟨hn, fun hpid => hne ?_⟩
      cases hpid
      exact h.cache.cached_unique (Or.inl hn) hold
    · rcases LinkedMap.get?_of_put hn with ⟨-, rfl⟩ | hn
      · exact Or.inr rfl
      · exact Or.inl (LinkedMap.get?_of_remove hn)
  | @release pid₀ pid' key name hcd =>
    -- the process is released under its own name
    have hold : (e.view o).Cached name pid₀ := by
      cases hc with
      | plain hp => cases hp
      | release hp =>
        have hok := (h.names.jobs o).ok _ (hperm.mem_iff.2 List.mem_cons_self)
        obtain ⟨q, hq, ho, -⟩ := hok
        obtain rfl := Option.some.inj (hp.symm.trans hq)
        have hmem := h.names.procs hp
        rw [ho] at hmem
        rwa [h.names.unique hmem (h.names.cached hcd)]
    refine hag.erase hperm herase rfl (fun {n pid} hn => ?_) fun hn =>
      Or.inl (LinkedMap.get?_of_remove hn)
    have hn : ((e.view o).idle.remove name).get? n = some pid := hn
    rw [LinkedMap.get?_remove] at hn
    split_ifs at hn with hne
    refine ⟨hn, fun hpid => hne ?_⟩
    cases hpid
    exact h.cache.cached_unique (Or.inl hn) hold

variable {b : Process.Action} {pm : ProcessManager}

/-- A step of a job, for both managers. -/
theorem AgreeInv.job (h : e.AgreeInv) (ht : (e.view o).task = some (t, jobs))
    (hi : jobs[i]? = some j) (hc : CallCase e o ok j ev e₁)
    (hj : ProcessManager.JobCase (e.view o) t jobs i j ev pm.view) (o' : Bool) :
    Agree (e₁.settle o pm).procs ((e₁.settle o pm).view o') none := by
  by_cases ho : o' = o
  · rw [ho, view_settle]
    exact (h.agree_job ht hi hc hj).congr rfl rfl rfl
  · rw [view_settle_of_ne _ ho]
    have hview : e₁.view o' = e.view o' := congrArg (fun mgr => (mgr o').view) hc.mgr
    rw [hview]
    have hok := (h.names.jobs o).ok j (jobs_eq_of_task ht ▸ List.mem_of_getElem? hi)
    exact h.call_other (hc.effect hok) ho

/-! ## Processes -/

/-- The manager moves a ready process to the idle ones, and it becomes idle. -/
theorem AgreeInv.toIdle {sigOk : Bool} (h : e.AgreeInv) (hp : e.procs[pid]? = some p)
    (hst : p.processState = .ready) (htask : (e.mgr p.isOrigProcess).task = none)
    (hpm : (e.mgr p.isOrigProcess).changeProcessState found p.processName false p.key = some pm)
    (hs : Process.ProcStep p (.tick true sigOk) p' outs) :
    Agree (e.procs.set pid p') pm.view none := by
  have hidle : p'.processState = .idle := by
    cases hs with
    | busyTimeout _ _ _ hb _ => rw [hst] at hb; cases hb
    | strayTimeout _ _ _ hno => cases hno hst
    | readyTimeout _ _ _ _ => rfl
  obtain ⟨k, hk, hv⟩ := ProcessManager.view_changeProcessState_eq hpm
  have hk : (e.view p.isOrigProcess).busy.get? p.processName = some k := hk
  obtain rfl := h.names.unique (h.names.cached (Or.inr hk)) (h.names.procs hp)
  have hjobs : pm.view.jobs = [] := by
    rw [hv]
    exact jobs_of_no_task htask
  have hag := h.agree p.isOrigProcess
  rw [if_neg Bool.false_ne_true] at hv
  refine ⟨fun {n q r} hn hr => Or.inl ?_, fun {n q r} hn hr => ?_, fun {q r} hm hr => ?_⟩
  · rcases getElem?_set_some hr with ⟨-, rfl⟩ | ⟨hne, hr⟩
    · exact hidle
    · rw [hv] at hn
      rcases LinkedMap.get?_of_put hn with ⟨-, rfl⟩ | hn
      · exact absurd rfl hne
      · rcases hag.idle hn hr with hi | hm | hx
        · exact hi
        · rw [jobs_of_no_task htask] at hm; cases hm
        · cases hx
  · have hn' : ((e.view p.isOrigProcess).busy.remove p.processName).get? n = some q := by
      rw [hv] at hn
      exact hn
    rw [LinkedMap.get?_remove] at hn'
    split_ifs at hn' with hname
    rcases getElem?_set_some hr with ⟨rfl, rfl⟩ | ⟨hne, hr⟩
    · exact absurd (h.cache.cached_unique (Or.inr hn') (Or.inr hk)) hname
    · exact hag.busy hn' hr
  · rw [hjobs] at hm; cases hm

/-- The manager moves an idle process to the busy ones, and it becomes ready. -/
theorem AgreeInv.toBusy {tx : DockerVMMessage} (h : e.AgreeInv) (hp : e.procs[pid]? = some p)
    (htask : (e.mgr p.isOrigProcess).task = none)
    (hpm : (e.mgr p.isOrigProcess).changeProcessState found p.processName true p.key = some pm)
    (hs : Process.ProcStep p (.idleTxReq tx true) p' outs) :
    Agree (e.procs.set pid p') pm.view none := by
  have hready : p'.processState = .ready := by
    cases hs
    rfl
  obtain ⟨k, hk, hv⟩ := ProcessManager.view_changeProcessState_eq hpm
  have hk : (e.view p.isOrigProcess).idle.get? p.processName = some k := hk
  obtain rfl := h.names.unique (h.names.cached (Or.inl hk)) (h.names.procs hp)
  have hjobs : pm.view.jobs = [] := by
    rw [hv]
    exact jobs_of_no_task htask
  have hag := h.agree p.isOrigProcess
  rw [if_pos rfl] at hv
  refine ⟨fun {n q r} hn hr => Or.inl ?_, fun {n q r} hn hr => ?_, fun {q r} hm hr => ?_⟩
  · have hn' : ((e.view p.isOrigProcess).idle.remove p.processName).get? n = some q := by
      rw [hv] at hn
      exact hn
    rw [LinkedMap.get?_remove] at hn'
    split_ifs at hn' with hname
    rcases getElem?_set_some hr with ⟨rfl, rfl⟩ | ⟨hne, hr⟩
    · exact absurd (h.cache.cached_unique (Or.inl hn') (Or.inl hk)) hname
    · rcases hag.idle hn' hr with hi | hm | hx
      · exact hi
      · rw [jobs_of_no_task htask] at hm; cases hm
      · cases hx
  · rcases getElem?_set_some hr with ⟨-, rfl⟩ | ⟨hne, hr⟩
    · rw [hready]; rfl
    · rw [hv] at hn
      rcases LinkedMap.get?_of_put hn with ⟨-, rfl⟩ | hn
      · exact absurd rfl hne
      · exact hag.busy hn hr
  · rw [hjobs] at hm; cases hm

/-- A step of a process that the manager does not hear of. -/
theorem AgreeInv.own (h : e.AgreeInv) (hp : e.procs[pid]? = some p)
    (hs : Process.ProcStep p b p' outs) (hb : b.OfManager = false) (hq : b.quiet = true) (o : Bool)
    :
    Agree (e.procs.set pid p') (e.view o) none :=
  (h.agree o).setProc hp (fun _ hi => Or.inl (hs.of_idle (h.listen hp) hb hq hi))
    fun hact => hs.of_active hb hq hact

theorem quiet_of_alone (h : Alone b) : b.quiet = true := by
  cases b with
  | setStream _ | idleTxReq _ _ | tick _ _ => exact h.elim
  | _ => rfl

/-- A step of a process, with the call that it makes. -/
theorem AgreeInv.proc {b' : Process.Action} (h : e.AgreeInv) (hp : e.procs[pid]? = some p)
    (hc : ProcCall e pid p b b' e₁) (hs : Process.ProcStep p b' p' outs) (o : Bool) :
    Agree (e₁.setProc pid p').procs ((e₁.setProc pid p').view o) none := by
  obtain ⟨-, -, hb⟩ := hc.same
  have hmoved : ∀ {pm : ProcessManager}, Agree (e.procs.set pid p') pm.view none →
      Agree (e.procs.set pid p') ((e.settle p.isOrigProcess pm).view o) none := by
    intro pm hown
    by_cases ho : o = p.isOrigProcess
    · rw [ho, view_settle]
      exact hown.congr rfl rfl rfl
    · rw [view_settle_of_ne _ ho]
      exact h.other hp ho
  cases hc with
  | toIdle hst ht hpm => exact hmoved (h.toIdle hp hst ht hpm hs)
  | toBusy ht hpm => exact hmoved (h.toBusy hp ht hpm hs)
  | alone hal => exact h.own hp hs hb (quiet_of_alone hal) o
  | txReq _ _ _ | tick | idleTxReq | launch | wait _ _ _ => exact h.own hp hs hb rfl o

/-- A sandbox registers. -/
theorem AgreeInv.register {sid : ℕ} {sb : Sandbox} (h : e.AgreeInv)
    (hok : RegistersBusy e (.register sid)) (hsb : e.sandboxes[sid]? = some sb)
    (hconn : sb.conn = some pid) (hp : e.procs[pid]? = some p)
    (hs : Process.ProcStep p (.setStream sid) p' []) (o : Bool) :
    Agree (e.procs.set pid p') (e.view o) none := by
  have hready : p'.processState = .ready := by
    cases hs
    rfl
  refine (h.agree o).setProc hp (fun hcached hi => ?_) fun _ => ?_
  · obtain ⟨n, hn⟩ := hcached
    have hpid : pid ∈ e.sandboxes[sid]?.bind (·.conn) := by
      rw [hsb]
      exact hconn
    refine absurd ?_ (hok pid hpid p hp hi)
    rw [h.names.cached_proc (Or.inl hn) hp]
    exact List.mem_map.2 ⟨_, LinkedMap.get?_eq_some.1 hn, rfl⟩
  · rw [hready]
    rfl

/-- Every step keeps the agreement. -/
theorem AgreeInv.step (h : e.AgreeInv) (hok : AgreeOk e a) (hs : EngStep e a e' outs) :
    e'.AgreeInv := by
  refine ⟨h.names.step hs, h.cache.step h.names hok.1 hs,
    hs.forall_procs Process.listenInv_new (fun hl hp => hl.step hp) h.listen, fun o => ?_⟩
  have hput : ∀ {e₁ : Engine} {o' : Bool} {events : List ManagerEvent},
      Agree e₁.procs (e₁.view o) none → Agree e₁.procs
        ((e₁.setMgr o' { e₁.mgr o' with eventCh := (e₁.mgr o').eventCh ++ events }).view o) none := by
    intro e₁ o' events hag
    by_cases ho : o = o'
    · rw [ho] at hag ⊢
      rw [view_setMgr]
      exact hag.congr rfl rfl rfl
    · rw [view_setMgr_of_ne _ ho]
      exact hag
  cases hs with
  | request => exact hput (h.agree o)
  | @turn o' _ pm hc =>
    by_cases ho : o = o'
    · subst ho
      rw [view_settle]
      exact ((h.agree o).turn hc).congr rfl rfl rfl
    · rw [view_settle_of_ne _ ho]
      exact h.agree o
  | job ht hi hc hj => exact h.job ht hi hc hj o
  | proc hp hc hs => exact hput (h.proc hp hc hs o)
  | connect _ | exit _ => exact h.agree o
  | register hsb hconn hp hs => exact h.register hok.2 hsb hconn hp hs o
  | respond _ _ hp hs => exact h.own hp hs rfl rfl o

/-! ## Runs -/

theorem agreeInv_new (maxProcessNum releaseNum : Bool → ℤ) (users : List ℕ) :
    (new maxProcessNum releaseNum users).AgreeInv where
  names := nameInv_new ..
  cache := cacheInv_new ..
  listen h := by cases h
  agree _ := ⟨fun h _ => (by cases h), fun h _ => (by cases h), fun h _ => (by cases h)⟩

/-- **Process and manager agree.**  In every run under `AgreeOk`, while the manager runs
    no handler, a process in its cache is among the idle ones exactly when it is idle,
    and among the busy ones exactly when it is in one of the other states but closing. -/
theorem states_agree {maxProcessNum releaseNum : Bool → ℤ} {users : List ℕ}
    (h : Reach (Engine.step cfg) AgreeOk (new maxProcessNum releaseNum users) e)
    (htask : (e.mgr o).task = none) (hp : e.procs[pid]? = some p)
    (hcached : ∃ n, (e.mgr o).getProcessByName n = some pid) :
    ((∃ n, (e.mgr o).idleProcesses.get? n = some pid) ↔ p.processState = .idle) ∧
    ((∃ n, (e.mgr o).busyProcesses.get? n = some pid) ↔
      p.processState ∈ [.created, .ready, .busy, .changing, .timeout]) := by
  have hinv : e.AgreeInv := by
    refine h.inv (agreeInv_new ..) fun {e a e'} hinv hok hstep => ?_
    obtain ⟨outs, hact⟩ := step_eq_some hstep
    exact hinv.step hok (act_step hact)
  have hag := hinv.agree o
  have hidle : ∀ {n}, (e.view o).idle.get? n = some pid → p.processState = .idle := by
    intro n hn
    rcases hag.idle hn hp with hi | hm | hk
    · exact hi
    · rw [jobs_of_no_task htask] at hm; cases hm
    · cases hk
  have hbusy : ∀ {n}, (e.view o).busy.get? n = some pid → p.processState.active = true :=
    fun hn => hag.busy hn hp
  have hmem : p.processState ∈ [.created, .ready, .busy, .changing, .timeout] ↔
      p.processState.active = true := by
    cases p.processState <;> decide
  obtain ⟨n, hn⟩ := hcached
  have hcd : (e.view o).Cached n pid := (Option.or_eq_some_iff.1 hn).imp id And.right
  rw [hmem]
  refine ⟨⟨fun ⟨n, hn⟩ => hidle hn, fun hi => ?_⟩, ⟨fun ⟨n, hn⟩ => hbusy hn, fun hact => ?_⟩⟩
  · rcases hcd with hcd | hcd
    · exact ⟨n, hcd⟩
    · have := hbusy hcd
      rw [hi] at this; cases this
  · rcases hcd with hcd | hcd
    · rw [hidle hcd] at hact; cases hact
    · exact ⟨n, hcd⟩

/-- No handler runs, and the first process is idle. -/
def IdleFirst (e : Engine) : Bool :=
  (e.mgr true).task.isNone && e.procs[0]?.any (·.processState == .idle) &&
    (e.mgr true).getProcessByName "chain1#o#fact#v1#0#1" == some 0

set_option maxRecDepth 20000 in
/-- A process has become idle, and its manager has it among the idle ones. -/
theorem states_agree_idle : ∃ e p, Reach (Engine.step .sample) AgreeOk (sample 1 [10000]) e ∧
    e.procs[0]? = some p ∧ p.processState = .idle ∧
    ∃ n, (e.mgr true).idleProcesses.get? n = some 0 := by
  obtain ⟨e, h, hP⟩ := exists_reach (Engine.step .sample) AgreeOk (sample 1 [10000]) IdleFirst
    runToIdle (by decide)
  simp only [IdleFirst, Bool.and_eq_true, beq_iff_eq, Option.isNone_iff_eq_none] at hP
  obtain ⟨⟨htask, hidle⟩, hname⟩ := hP
  obtain ⟨p, hp, hst⟩ := (Option.any_eq_true _ _).1 hidle
  have hst := beq_iff_eq.1 hst
  exact ⟨e, p, h, hp, hst, (states_agree h htask hp ⟨_, hname⟩).1.2 hst⟩

/-- The sandbox whose message `REGISTER` arrives. -/
def Action.registers : Action → Option ℕ
  | .register sid => some sid
  | _ => none

/-- No handler runs, and the first process is among the idle ones in another state. -/
def IdleIn (state : ProcessState) (e : Engine) : Bool :=
  (e.mgr true).task.isNone && e.procs[0]?.any (·.processState == state) &&
    (e.mgr true).idleProcesses.get? "chain1#o#fact#v1#0#1" == some 0

set_option maxRecDepth 20000 in
/-- The manager has a process among the idle ones that is not idle, though no sandbox
    registers twice.  The first sandbox of a process exits, and its message arrives only
    after the restart; the process becomes idle, and then the second sandbox registers.
    Or a change fails after the process got its new name, and the next one succeeds. -/
theorem states_disagree :
    (∃ as e, (as.filterMap Action.registers).Nodup ∧
      execIf (Engine.step .sample) Free (sample 1 [10000]) as = some e ∧ IdleIn .ready e = true) ∧
    ∃ as e, (as.filterMap Action.registers).Nodup ∧
      execIf (Engine.step .sample) Free (sample 1 [10000]) as = some e ∧
      IdleIn .changing e = true := by
  have hrun : ∀ as state, (as.filterMap Action.registers).Nodup →
      (execIf (Engine.step .sample) Free (sample 1 [10000]) as).any (IdleIn state) = true →
      ∃ as e, (as.filterMap Action.registers).Nodup ∧
        execIf (Engine.step .sample) Free (sample 1 [10000]) as = some e ∧
        IdleIn state e = true := by
    intro as state hnd hany
    obtain ⟨e, he, hP⟩ := (Option.any_eq_true _ _).1 hany
    exact ⟨as, e, hnd, he, hP⟩
  constructor
  · exact hrun (runRestarted ++ [.proc 0 (.launchProcess (.started 1)), .connect 1,
      .register 1]) .ready (by decide) (by decide)
  · exact hrun (runRestarted ++ runChange ⟨"chain1", "asset", "v1"⟩ false ++
      [.manager true .advance, .proc 0 (.launchProcess (.started 1))] ++
      runChange ⟨"chain1", "token", "v1"⟩ true ++
      [.job true 0 true, .job true 0 true, .manager true .advance]) .changing (by decide)
      (by decide)

end Engine

end VmEngine
