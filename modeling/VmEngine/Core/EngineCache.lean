/-
  The caches of the managers.

  In a run in which only processes in the cache are changed, no name is live twice, no
  process is held twice, and a process that is being changed is cached under its old
  name.
-/
import VmEngine.Core.ManagerRoom

namespace VmEngine

/-- The change that a job is about to make. -/
def Job.renaming : Job → Option Change
  | .renamed c => some c
  | _ => none

theorem Job.given_of_signalled {j : Job} {c : Change} (h : j.signalled = some c) :
    j.given = some c.newName := by
  cases j with
  | killed _ | changed _ => cases h; rfl
  | _ => cases h

theorem JobOk.signalled {procs : List Process} {names : Names} {o : Bool} {j : Job} {c : Change}
    (h : JobOk procs names o j) (hs : j.signalled = some c) :
    HasProc procs o c.pid fun p => p.processName = c.newName := by
  cases j with
  | killed _ | changed _ =>
    cases hs
    obtain ⟨p, hp, ho, hname, -⟩ := h.2.2.2
    exact ⟨p, hp, ho, hname⟩
  | _ => cases hs

namespace Engine
variable {cfg : ProcessConfig} {e e' e₁ : Engine} {o ok : Bool} {v v' : ManagerView} {t : Task}
  {jobs : List Job} {i pid : ℕ} {j : Job} {ev : ProcessManager.JobEvent} {outs : List ProcessOut}
  {p p' : Process} {a : Action} {added : List ℕ}

open ManagerView

/-- A process that a manager holds exists. -/
theorem NameInv.managed (h : e.NameInv) (hpid : pid ∈ (e.view o).managed) :
    HasProc e.procs o pid fun _ => True := by
  rcases List.mem_append.1 hpid with hpid | hpid
  · obtain ⟨⟨n, pid⟩, hcell, rfl⟩ := List.mem_map.1 hpid
    exact h.owner (h.cached (mem_cells.1 hcell))
  · obtain ⟨j, hj, hmade⟩ := List.mem_filterMap.1 hpid
    have hok := (h.jobs o).ok j hj
    cases j with
    | made _ _ _ =>
      cases hmade
      obtain ⟨p, hp, ho, -⟩ := hok.2
      exact ⟨p, hp, ho, trivial⟩
    | _ => cases hmade

/-! ## The invariant -/

structure CacheInv (e : Engine) : Prop where
  live : ∀ o, (e.view o).liveNames.Nodup
  held : ∀ o, (e.view o).managed.Nodup
  signalled : ∀ {o c}, c ∈ (e.view o).jobs.filterMap Job.signalled →
    (e.view o).Cached c.oldName c.pid

theorem cacheInv_new (maxProcessNum releaseNum : Bool → ℤ) (users : List ℕ) :
    (new maxProcessNum releaseNum users).CacheInv where
  live _ := List.nodup_nil
  held _ := List.nodup_nil
  signalled h := by cases h

/-- A process is cached under one name. -/
theorem CacheInv.cached_unique (h : e.CacheInv) {n n' : String} (hn : (e.view o).Cached n pid)
    (hn' : (e.view o).Cached n' pid) : n = n' := by
  have hcells := (List.nodup_append.1 (h.held o)).1
  exact congrArg Prod.fst (List.inj_on_of_nodup_map hcells (mem_cells.2 hn) (mem_cells.2 hn') rfl)

/-- A step that changes the view of one manager. -/
theorem CacheInv.next (h : e.CacheInv) (hview : e'.view o = { v with frees := [] })
    (hother : ∀ {o'}, o' ≠ o → e'.view o' = e.view o') (hflow : Flow (e.view o) v added)
    (hadd : (added ++ (e.view o).managed).Nodup) (hlive : v.liveNames.Nodup)
    (hsig : ∀ {c}, c ∈ v.jobs.filterMap Job.signalled → v.Cached c.oldName c.pid) : e'.CacheInv := by
  refine ⟨fun o' => ?_, fun o' => ?_, fun {o' c} hc => ?_⟩
  · by_cases ho : o' = o
    · rw [ho, hview]; exact hlive
    · rw [hother ho]; exact h.live o'
  · by_cases ho : o' = o
    · rw [ho, hview]; exact hflow.nodup hadd
    · rw [hother ho]; exact h.held o'
  · by_cases ho : o' = o
    · subst ho
      rw [hview] at hc ⊢; exact hsig hc
    · rw [hother ho] at hc ⊢; exact h.signalled hc

theorem CacheInv.congr (h : e.CacheInv) (hm : e'.mgr = e.mgr) : e'.CacheInv := by
  have hview : e'.view = e.view := by
    unfold Engine.view
    rw [hm]
  refine ⟨?_, ?_, ?_⟩
  · rw [hview]; exact h.live
  · rw [hview]; exact h.held
  · rw [hview]; exact h.signalled

/-! ## Turns -/

variable {c : Change} {pm : ProcessManager}

/-- No job that starts has signalled a process. -/
theorem signalled_of_turn (hc : ProcessManager.TurnCase v v')
    (h : ∀ {c}, c ∈ v.jobs.filterMap Job.signalled → v.Cached c.oldName c.pid)
    (hmem : c ∈ v'.jobs.filterMap Job.signalled) : v'.Cached c.oldName c.pid := by
  cases hc with
  | stay _ => exact h hmem
  | @start events t jobs hno _ hs =>
    have hnone : jobs.filterMap Job.signalled = [] :=
      filterMap_startJobs hs (fun _ => rfl) (fun _ _ => rfl) fun _ => rfl
    have hmem : c ∈ jobs.filterMap Job.signalled := hmem
    rw [hnone] at hmem
    cases hmem
  | finish _ => cases hmem
  | exit htask _ _ =>
    have hmem : c ∈ v.jobs.filterMap Job.signalled := hmem
    rw [jobs_of_no_task htask] at hmem
    cases hmem

theorem CacheInv.turned (h : e.CacheInv) (ht : Turned e o v e') (hflow : Flow (e.view o) v [])
    (hlive : v.liveNames.Nodup)
    (hsig : ∀ {c}, c ∈ v.jobs.filterMap Job.signalled → v.Cached c.oldName c.pid) : e'.CacheInv :=
  h.next ht.view ht.other hflow (h.held o) hlive hsig

theorem CacheInv.turn (h : e.CacheInv) (hc : ProcessManager.TurnCase (e.view o) pm.view) :
    (e.settle o pm).CacheInv :=
  h.turned (turned_settle e o pm) (flow_of_turn hc (h.live o)) (nodup_of_turn hc (h.live o))
    (signalled_of_turn hc h.signalled)

theorem CacheInv.putEvents (h : e.CacheInv) (hn : e.NameInv) (events : List ManagerEvent) :
    (e.setMgr o { e.mgr o with eventCh := (e.mgr o).eventCh ++ events }).CacheInv :=
  h.turned (turned_putEvents (hn.frees o) events) (Flow.refl rfl rfl rfl) (h.live o) h.signalled

/-! ## Jobs -/

/-- A change of a process succeeds only if it is cached under the name that the job
    has read. -/
def ChangesCached (e : Engine) : Action → Prop
  | .job o i true => ∀ c ∈ (e.jobAt o i).bind Job.renaming, ∀ p ∈ e.procs[c.pid]?,
      p.processState = .idle → (e.mgr o).getProcessByName c.oldName = some c.pid
  | _ => True

instance : DecidableRel ChangesCached
  | e, .job o i true => inferInstanceAs (Decidable (∀ c ∈ (e.jobAt o i).bind Job.renaming,
      ∀ p ∈ e.procs[c.pid]?, p.processState = .idle →
        (e.mgr o).getProcessByName c.oldName = some c.pid))
  | _, .job _ _ false | _, .request _ _ | _, .manager _ _ | _, .proc _ _ | _, .connect _
  | _, .register _ | _, .respond _ _ | _, .exit _ => instDecidableTrue

/-- Two changes are about different processes. -/
theorem signalled_ne {rest : List Job} {c' : Change} {j' : Job} (hn : e.NameInv)
    (hlive : (e.view o).liveNames.Nodup) (hperm : (e.view o).jobs.Perm (.changed c :: rest))
    (hj : j' ∈ rest) (hs : j'.signalled = some c') : c'.pid ≠ c.pid := by
  intro hpid
  have hok := ((hn.jobs o).perm hperm).ok
  obtain ⟨p, hp, -, hname⟩ := (hok _ List.mem_cons_self).signalled rfl
  obtain ⟨p', hp', -, hname'⟩ := (hok _ (List.mem_cons_of_mem _ hj)).signalled hs
  rw [hpid] at hp'
  obtain rfl := Option.some.inj (hp.symm.trans hp')
  have hnd := (hperm.filterMap Job.given).nodup_iff.1 (List.nodup_append.1 hlive).2.1
  refine (List.nodup_cons.1 (hnd : (c.newName :: _).Nodup)).1 ?_
  exact List.mem_filterMap.2 ⟨j', hj, (Job.given_of_signalled hs).trans
    (congrArg some (hname'.symm.trans hname))⟩

/-- A step of a job leaves the processes of the other changes in the cache. -/
theorem signalled_rest {rest : List Job} {j' : Job} (hn : e.NameInv)
    (hlive : (e.view o).liveNames.Nodup) (ht : (e.view o).task = some (t, jobs))
    (hi : jobs[i]? = some j) (hperm : (e.view o).jobs.Perm (j :: rest))
    (hj : ProcessManager.JobCase (e.view o) t jobs i j ev v') (hrest : j' ∈ rest)
    (hs : j'.signalled = some c) (hcd : (e.view o).Cached c.oldName c.pid)
    (hrec : ∀ c, j = .changed c → (e.view o).Cached c.oldName c.pid) :
    v'.Cached c.oldName c.pid := by
  have hmem : j ∈ (e.view o).jobs := hperm.mem_iff.2 List.mem_cons_self
  have hne : ∀ {n}, j.given = some n → c.oldName ≠ n := by
    rintro n hgiven rfl
    refine not_mem_cells_of_given hlive hmem hgiven ?_
    exact List.mem_map.2 ⟨_, mem_cells.2 hcd, rfl⟩
  cases hj with
  | cache => exact cached_cache_of_ne hcd (hne rfl)
  | @recache c₀ =>
    have hold : c.oldName ≠ c₀.oldName := by
      intro heq
      refine signalled_ne hn hlive hperm hrest hs ?_
      exact hn.unique (hn.cached hcd) (heq ▸ hn.cached (hrec c₀ rfl))
    exact cached_cache_of_ne (cached_uncache.2 ⟨hold, hcd⟩) (hne rfl)
  | release _ =>
    -- the cleaner changes no process
    have hk := hn.kinds ht
    have hj' : j' ∈ jobs := by
      rw [← jobs_eq_of_task ht]
      exact hperm.mem_iff.2 (List.mem_cons_of_mem _ hrest)
    have hclean := (hk j' hj').trans (hk _ (List.mem_of_getElem? hi)).symm
    cases j' with
    | killed _ | changed _ => cases hclean
    | _ => cases hs
  | _ => exact hcd

/-- After a step of a job, the processes that are being changed are cached under their
    old names. -/
theorem CacheInv.signalled_of_job (h : e.CacheInv) (hn : e.NameInv)
    (ht : (e.view o).task = some (t, jobs)) (hi : jobs[i]? = some j) (hc : CallCase e o ok j ev e₁)
    (hok : ChangesCached e (.job o i ok)) (hj : ProcessManager.JobCase (e.view o) t jobs i j ev v')
    (hmem : c ∈ v'.jobs.filterMap Job.signalled) : v'.Cached c.oldName c.pid := by
  obtain ⟨rest, hperm, hset, herase⟩ := exists_rest hi
  obtain ⟨j', hj', hs⟩ := List.mem_filterMap.1 hmem
  have hjobs := jobs_eq_of_task ht
  have hold : ∀ {x}, x ∈ jobs → ∀ {c}, x.signalled = some c → (e.view o).Cached c.oldName c.pid :=
    fun hx _ hs => h.signalled (hjobs ▸ List.mem_filterMap.2 ⟨_, hx, hs⟩)
  rcases next_of_job hj hset herase hj' with hrest | hnext
  · have hx := hperm.mem_iff.2 (List.mem_cons_of_mem j hrest)
    refine signalled_rest hn (h.live o) ht hi (hjobs ▸ hperm) hj hrest hs (hold hx hs) ?_
    rintro c rfl
    exact hold (List.mem_of_getElem? hi) rfl
  · cases hnext with
    | @killed c₀ =>
      cases hs
      cases hj
      cases hc with
      | plain hp => cases hp
      | killed hp hst _ _ _ =>
        have hat : e.jobAt o i = some (.renamed c) := by
          unfold jobAt
          have ht : (e.mgr o).task = some (t, jobs) := ht
          rw [ht]
          exact hi
        have hname := hok c (by rw [hat]; rfl) _ hp hst
        exact (Option.or_eq_some_iff.1 hname).imp id And.right
    | changed =>
      cases hs
      cases hj
      exact hold (List.mem_of_getElem? hi) rfl
    | _ => cases hs

/-- The name that a step of a job makes live is new. -/
theorem NameInv.added_new (hn : e.NameInv) (ht : (e.view o).task = some (t, jobs))
    (hi : jobs[i]? = some j) {n : String} (hadd : j.added ev = some n) :
    n ∉ (e.view o).liveNames := by
  obtain ⟨rest, hperm, -, -⟩ := exists_rest hi
  have hjobs := hn.jobs o
  rw [jobs_eq_of_task ht] at hjobs
  have hpend : j.pending = some n := by
    unfold Job.added at hadd
    split at hadd
    · exact hadd
    · exact hadd
    · cases hadd
  intro hmem
  have hlive : (e.view o).Live n := by
    rcases List.mem_append.1 hmem with hmem | hmem
    · obtain ⟨⟨n, pid⟩, hcell, rfl⟩ := List.mem_map.1 hmem
      exact Or.inl ⟨pid, mem_cells.1 hcell⟩
    · exact Or.inr hmem
  obtain ⟨pid, hpid⟩ := hn.of_live hlive
  exact (hjobs.perm hperm).pending_new hpend pid hpid

/-- The process of a change that ends is cached under its old name. -/
theorem CacheInv.cached_of_changed (h : e.CacheInv) (ht : (e.view o).task = some (t, jobs))
    (hi : jobs[i]? = some j) (c : Change) (hj : j = .changed c) :
    (e.view o).Cached c.oldName c.pid := by
  subst hj
  refine h.signalled ?_
  rw [jobs_eq_of_task ht]
  exact List.mem_filterMap.2 ⟨_, List.mem_of_getElem? hi, rfl⟩

/-- What a job adds is a new process. -/
theorem CallCase.added_eq (hc : CallCase e o ok j ev e₁) :
    ev.added = [] ∨ ev.added = [e.procs.length] := by
  cases hc with
  | plain hp => cases hp <;> exact Or.inl rfl
  | create _ => exact Or.inr rfl
  | _ => exact Or.inl rfl

theorem CacheInv.added_nodup (h : e.CacheInv) (hn : e.NameInv) (hc : CallCase e o ok j ev e₁) :
    (ev.added ++ (e.view o).managed).Nodup := by
  rcases hc.added_eq with hadd | hadd
  · rw [hadd]
    exact h.held o
  · rw [hadd]
    refine List.nodup_cons.2 ⟨fun hmem => ?_, h.held o⟩
    obtain ⟨p, hp, -⟩ := hn.managed hmem
    exact (List.getElem?_eq_some_iff.1 hp).1.ne rfl

/-- A step of a job keeps the caches. -/
theorem CacheInv.job (h : e.CacheInv) (hn : e.NameInv) (ht : (e.view o).task = some (t, jobs))
    (hi : jobs[i]? = some j) (hc : CallCase e o ok j ev e₁) (hok : ChangesCached e (.job o i ok))
    (hj : ProcessManager.JobCase (e.view o) t jobs i j ev pm.view) : (e₁.settle o pm).CacheInv := by
  have hview : ∀ o, e₁.view o = e.view o := fun o => congrArg (fun mgr => (mgr o).view) hc.mgr
  exact h.next (view_settle ..) (fun ho => (view_settle_of_ne _ ho _).trans (hview _))
    (flow_of_job ht hi hj (h.live o) (h.cached_of_changed ht hi)) (h.added_nodup hn hc)
    (nodup_of_job ht hi hj (h.live o) fun n hadd => hn.added_new ht hi hadd)
    (h.signalled_of_job hn ht hi hc hok hj)

/-! ## Processes -/

/-- `ChangeProcessState` moves an entry of the cache. -/
structure CellsMoved (v v' : ManagerView) : Prop where
  cells : v'.cells.Perm v.cells
  jobs : v'.jobs = v.jobs
  frees : v'.frees = v.frees

theorem cellsMoved_of {pm' : ProcessManager} {name : String} {toBusy : Bool} {key : RequestGroupKey}
    (hlive : pm.view.liveNames.Nodup) (hpm : pm.changeProcessState found name toBusy key = some pm')
    :
    CellsMoved pm.view pm'.view := by
  obtain ⟨idle, busy, -, hv, -⟩ := ProcessManager.view_changeProcessState hpm
  exact ⟨cells_changeProcessState hlive hpm, by rw [hv]; rfl, by rw [hv]⟩

theorem CellsMoved.managed (h : CellsMoved v v') : v'.managed.Perm v.managed := by
  unfold ManagerView.managed
  rw [h.jobs]
  exact (h.cells.map _).append_right _

theorem CellsMoved.flow (h : CellsMoved v v') : Flow v v' [] :=
  ⟨[], h.frees.trans (List.append_nil _).symm, h.managed⟩

theorem CacheInv.changeProcessState {name : String} {toBusy : Bool} {key : RequestGroupKey}
    (h : e.CacheInv) (hpm : (e.mgr o).changeProcessState found name toBusy key = some pm) :
    (e.settle o pm).CacheInv := by
  have hm : CellsMoved (e.view o) pm.view := cellsMoved_of (h.live o) hpm
  refine h.turned (turned_settle e o pm) hm.flow ?_ fun hmem => ?_
  · have hnames : pm.view.liveNames.Perm (e.view o).liveNames := by
      unfold ManagerView.liveNames
      rw [hm.jobs]
      exact (hm.cells.map _).append_right _
    exact hnames.nodup_iff.2 (h.live o)
  · rw [hm.jobs] at hmem
    exact mem_cells.1 (hm.cells.mem_iff.2 (mem_cells.2 (h.signalled hmem)))

theorem CacheInv.procCall {a a' : Process.Action} (h : e.CacheInv)
    (hc : ProcCall e pid p a a' e₁) : e₁.CacheInv := by
  cases hc with
  | toIdle _ _ hpm => exact h.changeProcessState hpm
  | toBusy _ hpm => exact h.changeProcessState hpm
  | _ => exact h.congr rfl

/-- Every step keeps the caches, if no process is changed that is not cached. -/
theorem CacheInv.step (h : e.CacheInv) (hn : e.NameInv) (hok : ChangesCached e a)
    (hs : EngStep e a e' outs) : e'.CacheInv := by
  cases hs with
  | request => exact h.putEvents hn _
  | turn hc => exact h.turn hc
  | job ht hi hc hj => exact h.job hn ht hi hc hok hj
  | @proc pid p p' _ _ e₁ _ hp hc hs =>
    have hset : (e₁.setProc pid p').CacheInv := (h.procCall hc).congr rfl
    exact hset.putEvents (hn.procStep hp hc hs) _
  | connect _ | register _ _ _ _ | respond _ _ _ _ | exit _ => exact h.congr rfl

end Engine

end VmEngine
