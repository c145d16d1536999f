/-
  Process names identify processes.

  The names of one manager end in its counter, and those of the two managers differ in
  their second component, as the first, the chain ID, is free of `#`.  So no name is
  generated twice as long as the counters, which are `uint64`, do not wrap; and what the
  sandbox service finds under a name is the process that was launched or changed under it.

  The log keeps the names that `generateProcessName` returned in a run.
-/
import VmEngine.Core.ManagerKeys
import VmEngine.Core.ManagerRoom

namespace VmEngine

/-- The chain ID is free of the separator. -/
def RequestGroupKey.HashFree (key : RequestGroupKey) : Prop := '#' ∉ key.chainID.toList

instance (key : RequestGroupKey) : Decidable key.HashFree :=
  inferInstanceAs (Decidable (¬ _))

/-- Names of the two managers differ. -/
theorem constructProcessName_isOrig {k k' : RequestGroupKey} {l l' n n' : ℕ} {o o' : Bool}
    (hk : k.HashFree) (hk' : k'.HashFree)
    (h : constructProcessName k l n o = constructProcessName k' l' n' o') : o = o' := by
  have htype : ∀ b : Bool, '#' ∉ (if b then "o" else "c").toList := by decide
  obtain ⟨-, hrest⟩ := intercalate_cons_inj (List.cons_ne_nil _ _) (List.cons_ne_nil _ _) hk hk' h
  obtain ⟨heq, -⟩ := intercalate_cons_inj (List.cons_ne_nil _ _) (List.cons_ne_nil _ _) (htype o)
    (htype o') hrest
  revert heq
  cases o <;> cases o' <;> decide

/-! ## Names that a manager generates -/

namespace ProcessManager
variable {found : String → Bool} {pm pm' : ProcessManager} {key : RequestGroupKey} {t t' : Task}
  {j : Job} {e : JobEvent} {next : Option Job}

/-- The next name, with the counter as the source has it. -/
def nextName (pm : ProcessManager) (key : RequestGroupKey) : String :=
  let localIndex := ((pm.processGroups.get? key.groupKey).map LinkedMap.size).getD 0
  constructProcessName key localIndex (UInt64.ofNat pm.processCnt + 1).toNat pm.isOrigManager

theorem nextName_eq (h : pm.processCnt + 1 < 2 ^ 64) (key : RequestGroupKey) :
    pm.nextName key = (generateProcessName pm key).2 := by
  have hcnt : (UInt64.ofNat pm.processCnt + 1).toNat = pm.processCnt + 1 := by
    rw [UInt64.toNat_add, UInt64.toNat_ofNat', show (1 : UInt64).toNat = 1 from rfl]
    omega
  unfold nextName generateProcessName
  rw [hcnt]

/-- The name that a step of a job generates. -/
def generated (pm : ProcessManager) : Job → JobEvent → Option String
  | .create key, .nameNew => some (pm.nextName key)
  | .change _ key, .nameChange oldKey _ =>
    if SameContract key oldKey then none else some (pm.nextName key)
  | _, _ => none

/-- A response changes nothing that a name is made of. -/
theorem nameNew_pending (hf : ∀ s, found s = true) (pm : ProcessManager) (t : Task)
    (key : RequestGroupKey) :
    (nameNew found pm t key).2 = some (.named key (generateProcessName pm key).2) := by
  have hsend : ∀ r : ProcessManager × Bool, r = sendProcessReadyResp found pm 1 key →
      r.2 = true ∧ (generateProcessName r.1 key).2 = (generateProcessName pm key).2 := by
    rintro _ rfl
    unfold sendProcessReadyResp
    rw [if_pos (hf _)]
    exact ⟨rfl, rfl⟩
  obtain ⟨hok, hname⟩ := hsend _ rfl
  unfold nameNew
  cases t with
  | allocateNew =>
    dsimp only
    rw [if_pos hok, hname]
  | _ => rfl

/-- A step of a job generates one name, which the job holds then, or none. -/
theorem runJob_generated (hf : ∀ s, found s = true)
    (h : runJob found pm t j e = .ok (pm', t', next)) :
    (pm.generated j e = none ∧ pm'.processCnt = pm.processCnt ∧
      ∀ j' ∈ next, ∀ n ∈ j'.pending, j.pending = some n) ∨
    ∃ key, j.contract = some key ∧ pm.generated j e = some (pm.nextName key) ∧
      pm'.processCnt = pm.processCnt + 1 ∧
      ∀ j' ∈ next, j'.pending = some (generateProcessName pm key).2 := by
  have hcnt : ∀ {pm₁ : ProcessManager} {v : ManagerView}, pm₁.view = v →
      pm₁.processCnt = v.processCnt := fun h => congrArg ManagerView.processCnt h
  cases runJob_case h with
  | @nameNew key =>
    obtain ⟨l, hv, -⟩ := nameNew_eq hf pm t key
    refine Or.inr ⟨key, rfl, rfl, hcnt hv, ?_⟩
    rw [nameNew_pending hf]
    rintro _ ⟨⟩
    rfl
  | cacheNew => exact Or.inl ⟨rfl, hcnt (view_cacheNew ..), nofun⟩
  | meet hsame => exact Or.inl ⟨if_pos hsame, hcnt (view_meetIdle ..), nofun⟩
  | @rename pid key _ _ hsame =>
    exact Or.inr ⟨key, rfl, if_neg hsame, rfl, by rintro _ ⟨⟩; rfl⟩
  | recache => exact Or.inl ⟨rfl, hcnt (view_recache hf ..), nofun⟩
  | release hc =>
    obtain ⟨pid, -, hv⟩ := view_closeSandbox hc
    exact Or.inl ⟨rfl, hcnt hv, nofun⟩
  | createFail | changeFail | closeFail => exact Or.inl ⟨rfl, rfl, nofun⟩
  | createOk | changeKill | changeDone | closeKill | closeDone =>
    exact Or.inl ⟨rfl, rfl, by rintro _ ⟨⟩ _ ⟨⟩⟩

/-- A turn of the manager generates no name. -/
theorem TurnCase.pending {v v' : ManagerView} (hc : TurnCase v v') :
    v'.processCnt = v.processCnt ∧
      v'.jobs.filterMap Job.pending ⊆ v.jobs.filterMap Job.pending := by
  cases hc with
  | stay _ => exact ⟨rfl, List.Subset.refl _⟩
  | @start events t jobs hno _ hs =>
    refine ⟨rfl, ?_⟩
    have hnil : jobs.filterMap Job.pending = [] :=
      Engine.filterMap_startJobs hs (fun _ => rfl) (fun _ _ => rfl) fun _ => rfl
    show jobs.filterMap Job.pending ⊆ _
    rw [hnil]
    exact List.nil_subset _
  | finish _ => exact ⟨rfl, List.nil_subset _⟩
  | exit _ _ _ => exact ⟨rfl, List.Subset.refl _⟩

end ProcessManager

/-! ## Runs with their log -/

namespace Engine
variable {cfg : ProcessConfig} {e e' e₁ : Engine} {o o' ok : Bool} {j : Job} {i : ℕ}
  {ev : ProcessManager.JobEvent} {outs : List ProcessOut} {log : List (Bool × String)}

/-- The name that a step generates, with the manager that does. -/
def generated (e : Engine) : Action → Option (Bool × String)
  | .job o i ok =>
    (((e.mgr o).task.map Prod.snd).bind (·[i]?)).bind fun j =>
      (e.callJob o ok j).toOption.bind fun r => ((e.mgr o).generated j r.2).map (o, ·)
  | _ => none

/-- A step of the engine with the log of the names. -/
def logStep (cfg : ProcessConfig) : Engine × List (Bool × String) → Action →
    Option (Engine × List (Bool × String)) :=
  monitor (fun e a => (act cfg e a).toOption) fun log e a _ => log ++ (e.generated a).toList

/-- Contracts are requested with chain IDs free of `#`. -/
def HashFreeRequests (_ : Engine × List (Bool × String)) : Action → Prop
  | .request _ msg => msg.key.HashFree
  | _ => True

instance : DecidableRel HashFreeRequests
  | _, .request _ _ => inferInstanceAs (Decidable (RequestGroupKey.HashFree _))
  | _, .manager _ _ | _, .job _ _ _ | _, .proc _ _ | _, .connect _ | _, .register _
  | _, .respond _ _ | _, .exit _ => inferInstanceAs (Decidable True)

/-- The names that jobs hold for a process, or that processes were given. -/
def held (e : Engine) (o : Bool) : List String :=
  (e.view o).jobs.filterMap Job.pending ++ (e.names o).map Prod.fst

/-- The call of a job gives at most the name that the job holds. -/
theorem CallCase.names_pending (hc : CallCase e o ok j ev e₁) {n : String} {pid : ℕ}
    (h : (n, pid) ∈ e₁.names o') : (n, pid) ∈ e.names o' ∨ (o' = o ∧ j.pending = some n) := by
  have hlog : ∀ {e₀ : Engine} {name : String} {pid' : ℕ}, e₀.names = e.names →
      j.pending = some name → (n, pid) ∈ (e₀.logName o name pid').names o' →
      (n, pid) ∈ e.names o' ∨ (o' = o ∧ j.pending = some n) := by
    intro e₀ name pid' hnames hpend hmem
    rcases of_mem_names_logName hmem with hmem | ⟨ho, rfl, -⟩
    · exact Or.inl (hnames ▸ hmem)
    · exact Or.inr ⟨ho, hpend⟩
  cases hc with
  | create _ => exact hlog rfl rfl h
  | lost _ _ _ _ => exact hlog rfl rfl h
  | killed _ _ _ _ _ => exact hlog rfl rfl h
  | _ => exact Or.inl h

/-- A step that is not one of a job generates no name. -/
theorem EngStep.quiet {a : Action} (hs : EngStep e a e' outs) (ha : ∀ o i ok, a ≠ .job o i ok)
    (o : Bool) : (e'.view o).processCnt = (e.view o).processCnt ∧ e'.held o ⊆ e.held o := by
  have hsame : ∀ {e' : Engine}, (e'.view o).processCnt = (e.view o).processCnt →
      (e'.view o).jobs = (e.view o).jobs → e'.names = e.names →
      (e'.view o).processCnt = (e.view o).processCnt ∧ e'.held o ⊆ e.held o := by
    intro e' hcnt hjobs hnames
    refine ⟨hcnt, ?_⟩
    unfold held
    rw [hjobs, hnames]
    exact List.Subset.refl _
  cases hs with
  | @request o' msg =>
    rcases eq_or_ne o o' with rfl | ho
    · exact hsame (by rw [view_setMgr]; rfl) (by rw [view_setMgr]; rfl) rfl
    · exact hsame (by rw [view_setMgr_of_ne _ ho]) (by rw [view_setMgr_of_ne _ ho]) rfl
  | @turn o' a pm hc =>
    rcases eq_or_ne o o' with rfl | ho
    · obtain ⟨hcnt, hsub⟩ := hc.pending
      refine ⟨by rw [view_settle]; exact hcnt, ?_⟩
      intro n hn
      unfold held at hn ⊢
      rw [view_settle] at hn
      exact List.mem_append.2 ((List.mem_append.1 hn).imp (fun hn => hsub hn) id)
    · exact hsame (by rw [view_settle_of_ne _ ho]) (by rw [view_settle_of_ne _ ho]) rfl
  | job _ _ _ _ => exact absurd rfl (ha _ _ _)
  | @proc pid p p' a a' e₁ outs hp hc hst =>
    obtain ⟨-, hnames, -⟩ := hc.same
    have hcnt : (e₁.view o).processCnt = (e.view o).processCnt := by
      rcases hc.turned with ⟨hm, -⟩ | ⟨-, v', ht, hmoved, -⟩
      · exact congrArg (fun mgr => (mgr o).view.processCnt) hm
      · obtain ⟨idle, busy, rfl⟩ := hmoved.eq
        rcases eq_or_ne o p.isOrigProcess with rfl | ho
        · rw [ht.view]
        · rw [ht.other ho]
    have hview : (((e₁.setProc pid p').putExits p'.isOrigProcess outs).view o).processCnt =
          (e₁.view o).processCnt ∧
        (((e₁.setProc pid p').putExits p'.isOrigProcess outs).view o).jobs = (e₁.view o).jobs := by
      rcases eq_or_ne o p'.isOrigProcess with rfl | ho
      · rw [view_putExits]; exact ⟨rfl, rfl⟩
      · rw [view_putExits_of_ne _ ho]; exact ⟨rfl, rfl⟩
    exact hsame (hview.1.trans hcnt) (hview.2.trans (hc.jobs_eq o)) hnames
  | connect _ => exact hsame rfl rfl rfl
  | register _ _ _ _ => exact hsame rfl rfl rfl
  | respond _ _ _ _ => exact hsame rfl rfl rfl
  | exit _ => exact hsame rfl rfl rfl

/-! ## The contracts of the managers -/

/-- Every contract that the managers work for has a chain ID free of `#`. -/
def KeysHashFree (e : Engine) : Prop := ∀ o, (e.mgr o).KeysIn RequestGroupKey.HashFree

theorem KeysHashFree.setMgr (h : e.KeysHashFree) {pm : ProcessManager}
    (hpm : pm.KeysIn RequestGroupKey.HashFree) : (e.setMgr o pm).KeysHashFree := by
  intro o'
  by_cases ho : o' = o
  · rw [ho, show (e.setMgr o pm).mgr o = pm from Function.update_self ..]
    exact hpm
  · rw [show (e.setMgr o pm).mgr o' = e.mgr o' from Function.update_of_ne ho ..]
    exact h o'

theorem KeysHashFree.settle (h : e.KeysHashFree) {pm : ProcessManager}
    (hpm : pm.KeysIn RequestGroupKey.HashFree) : (e.settle o pm).KeysHashFree :=
  KeysHashFree.setMgr h ⟨hpm.requests, hpm.waiting, hpm.asks, hpm.jobs⟩

theorem KeysHashFree.step {a : Action} (h : e.KeysHashFree) {s : List (Bool × String)}
    (hok : HashFreeRequests (e, s) a) (hact : act cfg e a = .ok (e', outs)) : e'.KeysHashFree := by
  cases a with
  | request o msg =>
    cases hact
    have hput : (e.mgr o).act found (.putMsg (.getProcessReq msg)) = .ok _ := rfl
    refine h.setMgr ((h o).act (fun msg' hm => ?_) hput)
    cases hm
    exact hok
  | manager o a =>
    obtain ⟨pm, ha, hpm, rfl, -⟩ := act_manager hact
    refine h.settle ((h o).act (fun msg hm => ?_) hpm)
    rw [hm] at ha
    cases ha
  | job o i ok =>
    obtain ⟨t, jobs, j, ev, e₁, pm, -, -, hc, hpm, -, rfl, -⟩ := act_job hact
    have h₁ : e₁.KeysHashFree := by
      intro o'
      rw [(callJob_case hc).mgr]
      exact h o'
    exact h₁.settle ((h o).job hpm)
  | proc pid a =>
    cases act_step hact with
    | @proc _ p p' _ a' e₁ _ hp hc hst =>
      have h₁ : e₁.KeysHashFree := by
        have hmove : ∀ {toBusy : Bool} {pm : ProcessManager}, (e.mgr p.isOrigProcess).task = none →
            (e.mgr p.isOrigProcess).changeProcessState found p.processName toBusy p.key = some pm →
            (e.settle p.isOrigProcess pm).KeysHashFree := by
          intro toBusy pm ht hpm
          have hcall : (e.mgr p.isOrigProcess).act found
              (.changeProcessState p.processName toBusy p.key) = .ok pm := by
            simp only [ProcessManager.act, ht, hpm]
            rfl
          exact h.settle ((h p.isOrigProcess).act (fun _ hm => by cases hm) hcall)
        cases hc with
        | toIdle _ ht hpm => exact hmove ht hpm
        | toBusy ht hpm => exact hmove ht hpm
        | _ => exact h
      refine KeysHashFree.setMgr h₁ ?_
      have hmgr := h₁ p'.isOrigProcess
      refine ⟨fun msg hm => ?_, hmgr.waiting, hmgr.asks, hmgr.jobs⟩
      rcases List.mem_append.1 hm with hm | hm
      · exact hmgr.requests msg hm
      · obtain ⟨m, -, hm⟩ := List.mem_map.1 hm
        cases hm
  | connect _ => cases act_step hact with | connect _ => exact h
  | register _ => cases act_step hact with | register _ _ _ _ => exact h
  | respond _ _ => cases act_step hact with | respond _ _ _ _ => exact h
  | exit _ => cases act_step hact with | exit _ => exact h

/-! ## The log -/

/-- The log and the engine, while no counter has wrapped. -/
structure LogInv (e : Engine) (log : List (Bool × String)) : Prop where
  count : ∀ o, (e.view o).processCnt = log.countP (·.1 = o)
  form : ∀ {o n}, (o, n) ∈ log → ∃ key l k, key.HashFree ∧ k ≤ (e.view o).processCnt ∧
    n = constructProcessName key l k o
  nodup : (log.map Prod.snd).Nodup
  held : ∀ {o n}, n ∈ e.held o → (o, n) ∈ log

theorem logInv_new (maxProcessNum releaseNum : Bool → ℤ) (users : List ℕ) :
    LogInv (new maxProcessNum releaseNum users) [] where
  count _ := rfl
  form h := by cases h
  nodup := List.nodup_nil
  held h := by cases h

/-- A step without a name. -/
theorem LogInv.quiet (h : LogInv e log) (hcnt : ∀ o, (e'.view o).processCnt = (e.view o).processCnt)
    (hheld : ∀ o, e'.held o ⊆ e.held o) : LogInv e' log where
  count o := (hcnt o).trans (h.count o)
  form hn := by rw [hcnt]; exact h.form hn
  nodup := h.nodup
  held hn := h.held (hheld _ hn)

/-- A step with the next name of a manager. -/
theorem LogInv.name (h : LogInv e log) {key : RequestGroupKey} {l : ℕ} {name : String}
    (hkey : key.HashFree)
    (hname : name = constructProcessName key l ((e.view o).processCnt + 1) o)
    (hcnt : (e'.view o).processCnt = (e.view o).processCnt + 1)
    (hother : ∀ o', o' ≠ o → (e'.view o').processCnt = (e.view o').processCnt)
    (hheld : ∀ o', ∀ n ∈ e'.held o', n ∈ e.held o' ∨ (o' = o ∧ n = name)) :
    LogInv e' (log ++ [(o, name)]) where
  count o' := by
    rw [List.countP_append, List.countP_singleton, ← h.count]
    rcases eq_or_ne o' o with rfl | ho
    · simpa using hcnt
    · simpa [Ne.symm ho] using hother o' ho
  form {o' n} hn := by
    have hle : (e.view o').processCnt ≤ (e'.view o').processCnt := by
      rcases eq_or_ne o' o with rfl | ho
      · omega
      · rw [hother o' ho]
    rcases List.mem_append.1 hn with hn | hn
    · obtain ⟨key', l', k, hk, hle', hn⟩ := h.form hn
      exact ⟨key', l', k, hk, hle'.trans hle, hn⟩
    · obtain ⟨rfl, rfl⟩ := Prod.mk.inj (List.mem_singleton.1 hn)
      exact ⟨key, l, _, hkey, hcnt.ge, hname⟩
  nodup := by
    rw [List.map_append, List.map_singleton]
    refine List.nodup_append.2 ⟨h.nodup, List.nodup_singleton _, ?_⟩
    rintro n hn m hm rfl
    rw [List.mem_singleton.1 hm] at hn
    obtain ⟨⟨o', n'⟩, hmem, rfl⟩ := List.mem_map.1 hn
    obtain ⟨key', l', k, hk, hle, hn'⟩ := h.form hmem
    have hsame := hn'.symm.trans hname
    -- the same manager by the second component, and then a smaller counter
    obtain rfl := constructProcessName_isOrig hk hkey hsame
    have := constructProcessName_overallIndex hsame
    omega
  held {o' n} hn := by
    rcases hheld o' n hn with hn | ⟨rfl, rfl⟩
    · exact List.mem_append_left _ (h.held hn)
    · exact List.mem_append_right _ (List.mem_singleton.2 rfl)

/-- The names of a step of a job: its name may become that of a process, and a name that
    the step generates is held by the job. -/
theorem held_of_job {t t' : Task} {jobs : List Job} {pm pm₁ : ProcessManager} {next : Option Job}
    (ht : (e.mgr o).task = some (t, jobs)) (hi : jobs[i]? = some j)
    (hc : CallCase e o ok j ev e₁) (hpm : pm = { pm₁ with task := some (t', match next with
      | some j' => jobs.set i j'
      | none => jobs.eraseIdx i) }) {n : String} (hn : n ∈ (e₁.settle o pm).held o') :
    n ∈ e.held o' ∨ (o' = o ∧ ∃ j' ∈ next, j'.pending = some n) := by
  have hjobs : (e.view o).jobs = jobs := jobs_eq_of_task ht
  have hmem : j.pending = some n → n ∈ e.held o := fun hp => by
    refine List.mem_append_left _ (List.mem_filterMap.2 ⟨j, ?_, hp⟩)
    rw [hjobs]
    exact List.mem_of_getElem? hi
  rcases List.mem_append.1 hn with hn | hn
  · by_cases ho : o' = o
    · subst ho
      rw [view_settle] at hn
      obtain ⟨j', hj', hp⟩ := List.mem_filterMap.1 hn
      have hold : j' ∈ jobs → n ∈ e.held o' := fun hj => by
        refine List.mem_append_left _ (List.mem_filterMap.2 ⟨j', ?_, hp⟩)
        rwa [hjobs]
      subst hpm
      cases next with
      | none => exact Or.inl (hold (List.mem_of_mem_eraseIdx hj'))
      | some j₁ =>
        rcases List.mem_or_eq_of_mem_set hj' with hj' | rfl
        · exact Or.inl (hold hj')
        · exact Or.inr ⟨rfl, j', rfl, hp⟩
    · rw [view_settle_of_ne _ ho, show e₁.view o' = e.view o' from
        congrArg (fun mgr => (mgr o').view) hc.mgr] at hn
      exact Or.inl (List.mem_append_left _ hn)
  · obtain ⟨⟨n', pid⟩, hgiven, rfl⟩ := List.mem_map.1 hn
    rcases hc.names_pending hgiven with hgiven | ⟨rfl, hp⟩
    · exact Or.inl (List.mem_append_right _ (List.mem_map_of_mem hgiven))
    · exact Or.inl (hmem hp)

/-- A step of a job, with the name that it generates. -/
theorem LogInv.job (h : LogInv e log) (hkeys : e.KeysHashFree) (horig : (e.view o).isOrig = o)
    (hact : act cfg e (.job o i ok) = .ok (e', outs))
    (hlt : (log ++ (e.generated (.job o i ok)).toList).length < 2 ^ 64) :
    LogInv e' (log ++ (e.generated (.job o i ok)).toList) := by
  obtain ⟨t, jobs, j, ev, e₁, pm, ht, hi, hcall, hpm, -, rfl, -⟩ := act_job hact
  have hc := callJob_case hcall
  have hgen : e.generated (.job o i ok) = ((e.mgr o).generated j ev).map (o, ·) := by
    simp only [generated, ht, Option.map_some, Option.bind_some, hi, hcall]
    rfl
  have hother : ∀ o', o' ≠ o → ((e₁.settle o pm).view o').processCnt = (e.view o').processCnt := by
    intro o' ho
    rw [view_settle_of_ne _ ho]
    exact congrArg (fun mgr => (mgr o').view.processCnt) hc.mgr
  simp only [ProcessManager.stepJob, ht, hi] at hpm
  obtain ⟨⟨pm₁, t₁, next⟩, hrun, hpm⟩ := Go.bind_eq_ok.1 hpm
  have hpm := (Except.ok.inj hpm).symm
  have hcnt₁ : ((e₁.settle o pm).view o).processCnt = pm₁.processCnt := by
    rw [view_settle, hpm]
    rfl
  have hheld : ∀ {o' n}, n ∈ (e₁.settle o pm).held o' →
      n ∈ e.held o' ∨ (o' = o ∧ ∃ j' ∈ next, j'.pending = some n) :=
    fun hn => held_of_job ht hi hc hpm hn
  rcases ProcessManager.runJob_generated found_all hrun with ⟨hnone, hcnt, hpend⟩ |
    ⟨key, hkey, hsome, hcnt, hpend⟩
  · rw [hgen, hnone, Option.map_none, Option.toList_none, List.append_nil]
    refine h.quiet (fun o' => ?_) fun o' n hn => ?_
    · by_cases ho : o' = o
      · rw [ho, hcnt₁]
        exact hcnt
      · exact hother o' ho
    · rcases hheld hn with hn | ⟨rfl, j', hj', hp⟩
      · exact hn
      · refine List.mem_append_left _ (List.mem_filterMap.2 ⟨j, ?_, hpend j' hj' n hp⟩)
        rw [jobs_eq_of_task ht]
        exact List.mem_of_getElem? hi
  · rw [hgen, hsome] at hlt ⊢
    have hsmall : (e.mgr o).processCnt + 1 < 2 ^ 64 := by
      have hle : log.countP (·.1 = o) ≤ log.length := List.countP_le_length
      have := h.count o
      rw [List.length_append] at hlt
      have hone : (some (o, (e.mgr o).nextName key)).toList.length = 1 := rfl
      have hview : (e.view o).processCnt = (e.mgr o).processCnt := rfl
      simp only [Option.map_some] at hlt
      omega
    have hfree := (hkeys o).jobs ht j (List.mem_of_getElem? hi) key hkey
    have hname : (e.mgr o).nextName key = constructProcessName key
        (((e.mgr o).processGroups.get? key.groupKey).map LinkedMap.size |>.getD 0)
        ((e.view o).processCnt + 1) o := by
      rw [ProcessManager.nextName_eq hsmall]
      have horig' : (e.mgr o).isOrigManager = o := horig
      unfold ProcessManager.generateProcessName
      rw [horig']
      rfl
    refine h.name hfree hname (hcnt₁.trans hcnt) hother fun o' n hn => ?_
    · rcases hheld hn with hn | ⟨ho, j', hj', hp⟩
      · exact Or.inl hn
      · refine Or.inr ⟨ho, ?_⟩
        rw [ProcessManager.nextName_eq hsmall]
        exact Option.some.inj (hp.symm.trans (hpend j' hj'))

/-- What holds of every state of a run. -/
structure IdentityInv (s : Engine × List (Bool × String)) : Prop where
  names : s.1.NameInv
  keys : s.1.KeysHashFree
  log : s.2.length < 2 ^ 64 → LogInv s.1 s.2

theorem IdentityInv.step {s s' : Engine × List (Bool × String)} {a : Action} (h : IdentityInv s)
    (hok : HashFreeRequests s a) (hstep : logStep cfg s a = some s') : IdentityInv s' := by
  obtain ⟨outs, hact, hlog⟩ := monitor_eq_some hstep
  rw [Go.toOption_eq_some] at hact
  refine ⟨h.names.step (act_step hact), h.keys.step hok hact, fun hlt => ?_⟩
  have hold : LogInv s.1 s.2 := h.log (by
    rw [hlog, List.length_append] at hlt
    omega)
  cases a with
  | job o i ok =>
    rw [hlog] at hlt ⊢
    exact hold.job h.keys (h.names.isOrig o) hact hlt
  | request _ _ | manager _ _ | proc _ _ | connect _ | register _ | respond _ _ | exit _ =>
    have hquiet := (act_step hact).quiet nofun
    rw [hlog, show s.1.generated _ = none from rfl, Option.toList_none, List.append_nil]
    exact hold.quiet (fun o => (hquiet o).1) fun o => (hquiet o).2

theorem getProcessByName_cached {name : String} {pid : ℕ} (h : e.getProcessByName name = .ok pid) :
    ∃ o, (e.view o).Cached name pid := by
  have hcached : ∀ {o}, (e.mgr o).getProcessByName name = some pid → (e.view o).Cached name pid := by
    intro o hget
    unfold ProcessManager.getProcessByName at hget
    rcases Option.or_eq_some_iff.1 hget with hget | ⟨-, hget⟩
    · exact Or.inl hget
    · exact Or.inr hget
  unfold getProcessByName at h
  by_cases ht : (e.mgr true).task.isSome = true
  · rw [if_pos ht] at h; cases h
  rw [if_neg ht] at h
  split at h
  · rename_i pid' hpid
    cases h
    exact ⟨true, hcached hpid⟩
  · split_ifs at h
    split at h
    · rename_i pid' hpid
      cases h
      exact ⟨false, hcached hpid⟩
    · cases h

/-- **Process names identify processes.**  In every run with requests whose chain IDs are
    free of `#` and with fewer than `2 ^ 64` generated names, no name is generated twice,
    by one manager or by both; the names of processes are among them; and the lookup of the
    sandbox service returns the one process that was launched or changed under the name. -/
theorem names_identify_processes {maxProcessNum releaseNum : Bool → ℤ} {users : List ℕ}
    (h : Reach (logStep cfg) HashFreeRequests (new maxProcessNum releaseNum users, []) (e, log))
    (hlt : log.length < 2 ^ 64) :
    (log.map Prod.snd).Nodup ∧
      (∀ o name pid, (name, pid) ∈ e.names o → (o, name) ∈ log) ∧
      ∀ name pid, e.getProcessByName name = .ok pid → ∃ o, (name, pid) ∈ e.names o ∧
        ∀ o' pid', (name, pid') ∈ e.names o' → o' = o ∧ pid' = pid := by
  have hinv : IdentityInv (e, log) := by
    refine h.inv ⟨nameInv_new .., fun o => ProcessManager.keysIn_new _ _ _, fun _ => logInv_new ..⟩
      fun hinv hok hstep => hinv.step hok hstep
  have hlog : LogInv e log := hinv.log hlt
  have hgiven : ∀ o name pid, (name, pid) ∈ e.names o → (o, name) ∈ log := fun o name pid hn =>
    hlog.held (List.mem_append_right _ (List.mem_map_of_mem hn))
  refine ⟨hlog.nodup, hgiven, fun name pid hget => ?_⟩
  obtain ⟨o, hcd⟩ := getProcessByName_cached hget
  have hn : (name, pid) ∈ e.names o := hinv.names.cached hcd
  refine ⟨o, hn, fun o' pid' hn' => ?_⟩
  have hsame : (o', name) = (o, name) :=
    List.inj_on_of_nodup_map hlog.nodup (hgiven _ _ _ hn') (hgiven _ _ _ hn) rfl
  obtain rfl := congrArg Prod.fst hsame
  exact ⟨rfl, hinv.names.unique hn' hn⟩

/-- The manager launches one process for the contract. -/
def runLaunch (o : Bool) (key : RequestGroupKey) : List Action :=
  [.request o ⟨key, 1⟩, .manager o .recvEvent, .job o 0 true, .job o 0 true, .job o 0 true,
    .manager o .advance, .manager o .advance]

/-- A process of each manager, launched for the same contract. -/
theorem names_identify_two : ∃ e log,
    Reach (logStep .sample) HashFreeRequests (sample 1 [1, 2], []) (e, log) ∧
      log = [(true, "chain1#o#fact#v1#0#1"), (false, "chain1#c#fact#v1#0#1")] ∧
      e.getProcessByName "chain1#c#fact#v1#0#1" = .ok 1 ∧
      ∃ o, ("chain1#c#fact#v1#0#1", 1) ∈ e.names o ∧
        ∀ o' pid', ("chain1#c#fact#v1#0#1", pid') ∈ e.names o' → o' = o ∧ pid' = 1 := by
  obtain ⟨⟨e, log⟩, hreach, hs⟩ := exists_reach (logStep .sample) HashFreeRequests
    (sample 1 [1, 2], [])
    (fun s => s.2 = [(true, "chain1#o#fact#v1#0#1"), (false, "chain1#c#fact#v1#0#1")] ∧
      (s.1.getProcessByName "chain1#c#fact#v1#0#1").toOption = some 1)
    (runLaunch true .sample ++ runLaunch false .sample) (by decide)
  obtain ⟨hlog, hfound⟩ := of_decide_eq_true hs
  have hget : e.getProcessByName "chain1#c#fact#v1#0#1" = .ok 1 := Go.toOption_eq_some.1 hfound
  obtain rfl : log = _ := hlog
  exact ⟨e, _, hreach, rfl, hget, (names_identify_processes hreach (by decide)).2.2 _ _ hget⟩

end Engine

end VmEngine
