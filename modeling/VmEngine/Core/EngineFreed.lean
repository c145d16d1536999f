/-
  Exit messages and freed users.

  A process sends at most one exit message.  When the message is handled, or when the
  cleaner releases the process, its name is live no more; so the user of a process is
  freed at most once.
-/
import VmEngine.Core.EngineCarry

namespace VmEngine

namespace Engine
variable {cfg : ProcessConfig} {e e' e₁ : Engine} {o ok : Bool} {v v' : ManagerView} {t : Task}
  {jobs : List Job} {i pid : ℕ} {j : Job} {ev : ProcessManager.JobEvent} {outs : List ProcessOut}
  {p p' : Process}

/-! ## Exit messages -/

/-- A process that has sent an exit message has ended; there is one such message, and
    its name is the process's unless that one is not live. -/
structure ExitsInv (e : Engine) : Prop where
  ended : ∀ {o m pid p}, m ∈ (e.view o).exits → (m.processName, pid) ∈ e.names o →
    e.procs[pid]? = some p → p.launch = .none ∧ p.listen = none ∧
      (p.processName = m.processName ∨ ¬ (e.view o).Live p.processName)
  once : ∀ o, (e.view o).exits.Pairwise fun m m' =>
    ∀ pid, (m.processName, pid) ∈ e.names o → (m'.processName, pid) ∉ e.names o

/-- The exit messages before a step have the names that they have after it. -/
theorem Carry.of_names (hc : Carry e e') (h : e.NameInv) (h' : e'.NameInv) {m : SandboxExitMsg}
    (hm : m ∈ (e.view o).exits) (hn : (m.processName, pid) ∈ e'.names o) :
    (m.processName, pid) ∈ e.names o := by
  obtain ⟨pid', hpid'⟩ := h.exits hm
  rwa [h'.unique hn (hc.names o hpid')]

/-- The process that sent a message, before and after a step. -/
theorem ExitsInv.ended_carry (hx : e.ExitsInv) (hc : Carry e e') (h : e.NameInv) (h' : e'.NameInv)
    {m : SandboxExitMsg} (hm : m ∈ (e.view o).exits) (hn : (m.processName, pid) ∈ e'.names o)
    (hp' : e'.procs[pid]? = some p') : p'.launch = .none ∧ p'.listen = none ∧
      (p'.processName = m.processName ∨ ¬ (e'.view o).Live p'.processName) := by
  have hold := hc.of_names h h' hm hn
  obtain ⟨p, hp, ho, -⟩ := h.owner hold
  obtain ⟨q, hq, hk⟩ := hc.procs hp
  obtain rfl := Option.some.inj (hq.symm.trans hp')
  obtain ⟨hla, hli, hname⟩ := hx.ended hm hold hp
  obtain ⟨hla', hli'⟩ := hk.ended hla hli
  refine ⟨hla', hli', ?_⟩
  have hmem := h.procs hp
  rw [ho] at hmem
  have hkn := hk.name
  rw [ho] at hkn
  rcases hkn with hkn | hkn | ⟨hno, -⟩
  · rw [hkn]
    exact hname.imp id fun hl hl' => hl (hc.live hmem hl')
  · exact Or.inr hkn
  · exact absurd hla hno

theorem ExitsInv.once_carry (hx : e.ExitsInv) (hc : Carry e e') (h : e.NameInv) (h' : e'.NameInv)
    {exits : List SandboxExitMsg} (hsub : exits.Sublist (e.view o).exits) :
    exits.Pairwise fun m m' =>
      ∀ pid, (m.processName, pid) ∈ e'.names o → (m'.processName, pid) ∉ e'.names o := by
  refine ((hx.once o).sublist hsub).imp_of_mem fun {m m'} hm hm' hone pid hn hn' => ?_
  exact hone pid (hc.of_names h h' (hsub.subset hm) hn) (hc.of_names h h' (hsub.subset hm') hn')

/-- The exit messages after a step: a process has handled its exit, or none is new. -/
inductive ExitsCase (e : Engine) (a : Action) (o : Bool) (e' : Engine) : Prop
  | sub : (e'.view o).exits.Sublist (e.view o).exits → ExitsCase e a o e'
  | report {pid : ℕ} {p p' : Process} {next : Option DockerVMMessage} {cfv : ℤ} {err : ExitErr} :
      a = .proc pid (.exit next cfv) → e.procs[pid]? = some p → p.isOrigProcess = o →
      p.launch = .exited err → p.listen.isSome → (err.kind = .other → p.processState ≠ .closing) →
      e'.procs[pid]? = some p' → p'.launch = .none → p'.listen = none →
      p'.processName = p.processName →
      (e'.view o).exits = (e.view o).exits ++ [⟨p.key, p.processName⟩] → ExitsCase e a o e'

theorem ProcCall.eventCh {a a' : Process.Action} (hc : ProcCall e pid p a a' e₁) :
    (e₁.view o).eventCh = (e.view o).eventCh := by
  rcases hc.turned with ⟨hm, -⟩ | ⟨-, v', ht, hmoved, -⟩
  · exact congrArg (fun mgr => (mgr o).view.eventCh) hm
  · obtain ⟨idle, busy, rfl⟩ := hmoved.eq
    by_cases ho : o = p.isOrigProcess
    · rw [ho, ht.view]
    · rw [ht.other ho]

theorem exits_turn (hc : ProcessManager.TurnCase v v') : v'.exits.Sublist v.exits := by
  cases hc with
  | stay hx | start _ hx _ =>
    unfold ManagerView.exits at hx ⊢
    rw [hx]
  | finish _ => exact List.Sublist.refl _
  | exit _ hev _ =>
    unfold ManagerView.exits
    rw [hev]
    exact List.sublist_cons_self _ _

theorem exits_eq_of_eventCh (h : v'.eventCh = v.eventCh) : v'.exits = v.exits :=
  congrArg exitsOf h

theorem exits_proc {a a' : Process.Action} (hp : e.procs[pid]? = some p)
    (hc : ProcCall e pid p a a' e₁) (hs : Process.ProcStep p a' p' outs) :
    ExitsCase e (.proc pid a) o ((e₁.setProc pid p').putExits p'.isOrigProcess outs) := by
  obtain ⟨hprocs, -, ha⟩ := hc.same
  have hold : ((e₁.setProc pid p').view o).exits = (e.view o).exits := exits_eq_of_eventCh hc.eventCh
  by_cases ho : o = p'.isOrigProcess
  · subst ho
    have hx := exits_putExits (e₁.setProc pid p') p'.isOrigProcess outs
    rw [hold] at hx
    rcases hs.exitMsgs with h0 | ⟨h1, next, cfv, err, rfl, hla, hli, hli', hla', hk⟩
    · rw [h0, List.append_nil] at hx
      exact .sub (hx ▸ List.Sublist.refl _)
    · rw [h1] at hx
      obtain rfl : a = .exit next cfv := by cases hc; rfl
      refine .report rfl hp (hs.frame ha).isOrigProcess.symm hla hli hk ?_ hla' hli'
        (hs.frame ha).processName hx
      have hlt := (List.getElem?_eq_some_iff.1 hp).1
      exact List.getElem?_set_self (hprocs ▸ hlt)
  · refine .sub ?_
    rw [view_putExits_of_ne _ ho, hold]

theorem EngStep.exits {a : Action} (hs : EngStep e a e' outs) (h : e.NameInv) (o : Bool) :
    ExitsCase e a o e' := by
  have hturned : ∀ {o' v}, Turned e o' v e' → v.exits.Sublist (e.view o').exits →
      ExitsCase e a o e' := by
    intro o' v ht hsub
    by_cases ho : o = o'
    · subst ho
      refine .sub ?_
      rw [ht.view]
      exact hsub
    · refine .sub ?_
      rw [ht.other ho]
  cases hs with
  | request =>
    refine hturned (turned_putEvents (h.frees _) _) ?_
    unfold ManagerView.exits exitsOf
    rw [List.filterMap_append]
    exact (List.append_nil _).symm ▸ List.Sublist.refl _
  | turn hc => exact hturned (turned_settle _ _ _) (exits_turn hc)
  | @job o' _ _ _ _ _ _ e₁ pm ht hi hc hj =>
    refine .sub ?_
    by_cases ho : o = o'
    · subst ho
      rw [view_settle]
      have hev : pm.view.exits = (e.view o).exits := exits_eq_of_eventCh (eventCh_of_job hj)
      exact hev ▸ List.Sublist.refl _
    · rw [view_settle_of_ne _ ho]
      have hev : (e₁.view o).exits = (e.view o).exits :=
        congrArg (fun mgr => (mgr o).view.exits) hc.mgr
      exact hev ▸ List.Sublist.refl _
  | proc hp hc hs => exact exits_proc hp hc hs
  | connect _ | register _ _ _ _ | respond _ _ _ _ | exit _ => exact .sub (List.Sublist.refl _)

/-- Every step keeps the exit messages in order. -/
theorem ExitsInv.step {a : Action} (hx : e.ExitsInv) (hs : EngStep e a e' outs) (h : e.NameInv)
    (hsig : SignalsRunning e a) : e'.ExitsInv := by
  have hc := hs.carry h hsig
  have h' := h.step hs
  refine ⟨fun {o m pid p} hm hn hp => ?_, fun o => ?_⟩
  · cases hs.exits h o with
    | sub hsub => exact hx.ended_carry hc h h' (hsub.subset hm) hn hp
    | @report pid₀ q q' _ _ _ _ hq ho _ _ _ hq' hla hli hname hexits =>
      rw [hexits] at hm
      rcases List.mem_append.1 hm with hm | hm
      · exact hx.ended_carry hc h h' hm hn hp
      · rw [List.mem_singleton.1 hm] at hn ⊢
        have hmem := hc.names _ (h.procs hq)
        rw [ho] at hmem
        obtain rfl := h'.unique hn hmem
        obtain rfl := Option.some.inj (hq'.symm.trans hp)
        exact ⟨hla, hli, Or.inl hname⟩
  · cases hs.exits h o with
    | sub hsub => exact hx.once_carry hc h h' hsub
    | @report pid₀ q q' _ _ _ _ hq ho hla _ _ _ _ _ _ hexits =>
      rw [hexits]
      refine List.pairwise_append.2 ⟨hx.once_carry hc h h' (List.Sublist.refl _),
        List.pairwise_singleton .., fun m hm m' hm' pid hn hn' => ?_⟩
      -- an earlier message of the process would mean that it has ended
      rw [List.mem_singleton.1 hm'] at hn'
      have hmem := hc.names _ (h.procs hq)
      rw [ho] at hmem
      obtain rfl := h'.unique hn' hmem
      obtain ⟨hnone, -⟩ := hx.ended hm (hc.of_names h h' hm hn) hq
      rw [hla] at hnone; cases hnone

/-! ## Freed users -/

/-- A process whose user was freed: it is known by no live name, and it is not idle
    unless it has ended. -/
structure Done (e : Engine) (pid : ℕ) (p : Process) : Prop where
  name : ¬ (e.view p.isOrigProcess).Live p.processName
  idle : p.launch = .none ∨ p.processState ≠ .idle
  exits : ∀ {m}, m ∈ (e.view p.isOrigProcess).exits →
    (m.processName, pid) ∈ e.names p.isOrigProcess → ¬ (e.view p.isOrigProcess).Live m.processName

structure FreedInv (e : Engine) : Prop where
  done : ∀ {pid}, pid ∈ e.freed → ∃ p, e.procs[pid]? = some p ∧ Done e pid p
  nodup : e.freed.Nodup

/-- A freed process stays so. -/
theorem Done.step {a : Action} (hd : Done e pid p) (hp : e.procs[pid]? = some p)
    (hs : EngStep e a e' outs) (h : e.NameInv) (hsig : SignalsRunning e a) :
    ∃ p', e'.procs[pid]? = some p' ∧ Done e' pid p' := by
  have hc := hs.carry h hsig
  have h' := h.step hs
  obtain ⟨p', hp', hk⟩ := hc.procs hp
  have hname : ¬ (e'.view p.isOrigProcess).Live p'.processName := by
    rcases hk.name with hn | hn | ⟨hno, hi⟩
    · rw [hn]
      exact fun hl => hd.name (hc.live (h.procs hp) hl)
    · exact hn
    · rcases hd.idle with hx | hx
      · exact absurd hx hno
      · exact absurd hi hx
  refine ⟨p', hp', hk.isOrig ▸ hname, hk.idle hd.name hd.idle, ?_⟩
  rw [hk.isOrig]
  intro m hm hn
  have hold : m ∈ (e.view p.isOrigProcess).exits → ¬ (e'.view p.isOrigProcess).Live m.processName := by
    intro hm hl
    have hn' := hc.of_names h h' hm hn
    exact hd.exits hm hn' (hc.live hn' hl)
  cases hs.exits h p.isOrigProcess with
  | sub hsub => exact hold (hsub.subset hm)
  | @report pid₀ q q' _ _ _ _ hq ho _ _ _ hq' _ _ hqn hexits =>
    rw [hexits] at hm
    rcases List.mem_append.1 hm with hm | hm
    · exact hold hm
    · rw [List.mem_singleton.1 hm] at hn ⊢
      have hmem := hc.names _ (h.procs hq)
      rw [ho] at hmem
      obtain rfl := h'.unique hn hmem
      obtain rfl := Option.some.inj (hq'.symm.trans hp')
      rwa [hqn] at hname

theorem Turned.frees_none (ht : Turned e o v e') (hv : v.frees = []) :
    e'.freed = e.freed ∧ e'.users = e.users := by
  rw [ht.freed, ht.users, hv]
  exact ⟨List.append_nil _, List.append_nil _⟩

theorem Turned.frees_one (ht : Turned e o v e') (hv : v.frees = [pid]) (hp : e.procs[pid]? = some p) :
    e'.freed = e.freed ++ [pid] ∧ e'.users = e.users ++ [p.user] := by
  rw [ht.freed, ht.users, hv]
  refine ⟨rfl, ?_⟩
  rw [List.filterMap_cons, hp]
  rfl

/-- The exit of a process is handled: it has ended, under the name of the message. -/
theorem freed_exit {msg : SandboxExitMsg} {rest : List ManagerEvent} (h : e.NameInv)
    (hx : e.ExitsInv) (htask : (e.view o).task = none)
    (hev : (e.view o).eventCh = .sandboxExit msg :: rest)
    (hcd : (e.view o).Cached msg.processName pid)
    (ht : Turned e o { (e.view o).uncache msg.processName with
      eventCh := rest, frees := (e.view o).frees ++ [pid] } e') :
    ∃ p, e.procs[pid]? = some p ∧ e'.freed = e.freed ++ [pid] ∧ e'.users = e.users ++ [p.user] ∧
      Done e' pid p ∧ ¬ Done e pid p ∧ p.launch = .none ∧ p.listen = none := by
  have hmem := h.cached hcd
  obtain ⟨p, hp, ho, -⟩ := h.owner hmem
  have hexits : (e.view o).exits = msg :: exitsOf rest := by
    unfold ManagerView.exits
    rw [hev]; rfl
  have hm : msg ∈ (e.view o).exits := hexits ▸ List.mem_cons_self
  obtain ⟨hla, hli, hname⟩ := hx.ended hm hmem hp
  obtain ⟨hfreed, husers⟩ := ht.frees_one (by
    dsimp only
    rw [h.frees]; rfl) hp
  have hlive : ∀ {n}, (e'.view o).Live n → n ≠ msg.processName ∧ (e.view o).Live n := by
    intro n hl
    rw [ht.view] at hl
    rcases hl with ⟨pid', hl⟩ | hl
    · obtain ⟨hne, hl⟩ := ManagerView.cached_uncache.1 hl
      exact ⟨hne, Or.inl ⟨pid', hl⟩⟩
    · have hno : (e.view o).jobs = [] := jobs_of_no_task htask
      have hl : n ∈ (e.view o).jobs.filterMap Job.given := hl
      rw [hno] at hl; cases hl
  refine ⟨p, hp, hfreed, husers, ⟨?_, Or.inl hla, ?_⟩, fun hd => ?_, hla, hli⟩
  · rw [ho]
    intro hl
    obtain ⟨hne, hl⟩ := hlive hl
    exact hname.elim hne fun hno => hno hl
  · rw [ho, ht.names, ht.view]
    intro m hm' hn
    have honce := hx.once o
    rw [hexits] at honce
    exact absurd hn ((List.pairwise_cons.1 honce).1 m hm' pid hmem)
  · refine hd.exits (m := msg) ?_ ?_ ?_
    · rw [ho]; exact hm
    · rw [ho]; exact hmem
    · rw [ho]; exact Or.inl ⟨pid, hcd⟩

/-- The cleaner releases a process, under its own name. -/
theorem freed_release {pm : ProcessManager} {pid' : ℕ} (h : e.NameInv)
    (hx : e.ExitsInv) (ht : (e.view o).task = some (t, jobs)) (hi : jobs[i]? = some (.closed pid))
    (hp : e.procs[pid]? = some p) (hcd : (e.view o).Cached p.processName pid')
    (hj : pm.view = { (e.view o).uncache p.processName with
      frees := (e.view o).frees ++ [pid'], task := some (t.served, jobs.eraseIdx i) }) :
    (e.settle o pm).freed = e.freed ++ [pid] ∧ (e.settle o pm).users = e.users ++ [p.user] ∧
      Done (e.settle o pm) pid p ∧ ¬ Done e pid p := by
  have hjobs := h.jobs o
  rw [jobs_eq_of_task ht] at hjobs
  have hor : p.isOrigProcess = o ∧ p.processState ≠ .idle := by
    obtain ⟨q, hq, ho, hst⟩ := hjobs.ok _ (List.mem_of_getElem? hi)
    obtain rfl := Option.some.inj (hq.symm.trans hp)
    exact ⟨ho, hst⟩
  obtain ⟨ho, hst⟩ := hor
  have hmem := h.procs hp
  rw [ho] at hmem
  obtain rfl : pid' = pid := h.unique (h.cached hcd) hmem
  -- a task that closes processes gives no names
  have hgiven : jobs.filterMap Job.given = [] := by
    refine List.filterMap_eq_nil_iff.2 fun j' hj' => ?_
    have hk := h.kinds ht j' hj'
    rw [← h.kinds ht _ (List.mem_of_getElem? hi)] at hk
    cases j' with
    | made _ _ _ | killed _ | changed _ => cases hk
    | _ => rfl
  have hlive : ∀ {n}, ((e.settle o pm).view o).Live n → n ≠ p.processName ∧ (e.view o).Live n := by
    intro n hl
    rw [view_settle, hj] at hl
    rcases hl with ⟨k, hl⟩ | hl
    · obtain ⟨hne, hl⟩ := ManagerView.cached_uncache.1 hl
      exact ⟨hne, Or.inl ⟨k, hl⟩⟩
    · have hl : n ∈ (jobs.eraseIdx i).filterMap Job.given := hl
      have := ((List.eraseIdx_sublist jobs i).filterMap Job.given).subset hl
      rw [hgiven] at this; cases this
  obtain ⟨hfreed, husers⟩ := (turned_settle e o pm).frees_one (by rw [hj, h.frees]; rfl) hp
  refine ⟨hfreed, husers, ⟨?_, Or.inr hst, ?_⟩, fun hd => ?_⟩
  · rw [ho]
    exact fun hl => (hlive hl).1 rfl
  · rw [ho]
    intro m hm hn hl
    have hm' : m ∈ (e.view o).exits := by
      rw [view_settle, hj] at hm
      exact hm
    obtain ⟨-, -, hname⟩ := hx.ended hm' hn hp
    rcases hname with hname | hname
    · exact (hlive hl).1 hname.symm
    · exact hname (Or.inl ⟨_, hcd⟩)
  · refine hd.name ?_
    rw [ho]
    exact Or.inl ⟨_, hcd⟩

/-- What a step does to the users: a process is created with one, or one process is done
    and its user goes back to the queue. -/
inductive FreedCase (e : Engine) (a : Action) (e' : Engine) : Prop
  | same : e'.freed = e.freed → e'.users = e.users → e'.procs.length = e.procs.length →
      FreedCase e a e'
  | create {user : ℕ} {users : List ℕ} {key : RequestGroupKey} {name : String} {o : Bool} :
      e'.freed = e.freed → e.users = user :: users → e'.users = users →
      e'.procs = e.procs ++ [Process.new user key name o] → FreedCase e a e'
  | free {pid : ℕ} {p : Process} : e'.freed = e.freed ++ [pid] → e'.users = e.users ++ [p.user] →
      e'.procs = e.procs → e.procs[pid]? = some p → Done e' pid p → ¬ Done e pid p →
      ((p.launch = .none ∧ p.listen = none) ∨
        ∃ o i ok, a = .job o i ok ∧ e.jobAt o i = some (.closed pid)) → FreedCase e a e'

theorem frees_of_job (hj : ProcessManager.JobCase v t jobs i j ev v') :
    v'.frees = v.frees ∨ ∃ pid, j = .closed pid := by
  cases hj with
  | release _ => exact Or.inr ⟨_, rfl⟩
  | _ => exact Or.inl rfl

theorem release_of_job (hj : ProcessManager.JobCase v t jobs i (.closed pid) ev v') :
    ∃ key name pid', ev = .release key name ∧ v.Cached name pid' ∧
      v' = { v.uncache name with
        frees := v.frees ++ [pid'], task := some (t.served, jobs.eraseIdx i) } := by
  cases hj with
  | release hcd => exact ⟨_, _, _, rfl, hcd, rfl⟩

theorem CallCase.release_eq {key : RequestGroupKey} {name : String}
    (hc : CallCase e o ok (.closed pid) (.release key name) e₁) :
    e = e₁ ∧ ∃ p, e.procs[pid]? = some p ∧ name = p.processName := by
  cases hc with
  | release hp => exact ⟨rfl, _, hp, rfl⟩
  | plain hpl => cases hpl

theorem CallCase.freed (hc : CallCase e o ok j ev e₁) : e₁.freed = e.freed := by
  cases hc <;> rfl

theorem ProcCall.freed_eq {a a' : Process.Action} (hc : ProcCall e pid p a a' e₁) (h : e.NameInv) :
    e₁.freed = e.freed ∧ e₁.users = e.users := by
  rcases hc.turned with ⟨-, hf, hu, -⟩ | ⟨-, v', ht, hmoved, -⟩
  · exact ⟨hf, hu⟩
  · obtain ⟨idle, busy, rfl⟩ := hmoved.eq
    exact ht.frees_none (h.frees _)

/-- A job that releases no process. -/
theorem freed_call {pm : ProcessManager} {a : Action} (hc : CallCase e o ok j ev e₁)
    (hv : pm.view.frees = []) : FreedCase e a (e₁.settle o pm) := by
  have ht := (turned_settle e₁ o pm).frees_none hv
  cases hc with
  | create hu => exact .create ht.1 hu ht.2 rfl
  | plain _ | nameChange _ | refused _ _ | refusedClose _ _ | release _ =>
    exact .same ht.1 ht.2 rfl
  | lost _ _ _ _ | killed _ _ _ _ _ | leaveChange _ _ | closeLost _ _ _ _ | closeKilled _ _ _ _ _
  | leaveClose _ _ => exact .same ht.1 ht.2 List.length_set

theorem EngStep.freed {a : Action} (hs : EngStep e a e' outs) (h : e.NameInv) (hx : e.ExitsInv) :
    FreedCase e a e' := by
  have hturned : ∀ {o v}, Turned e o v e' → v.frees = (e.view o).frees → FreedCase e a e' := by
    intro o v ht hv
    obtain ⟨h1, h2⟩ := ht.frees_none (hv.trans (h.frees o))
    exact .same h1 h2 (by rw [ht.procs])
  cases hs with
  | request => exact .same rfl rfl rfl
  | @turn o _ pm hc =>
    have ht := turned_settle e o pm
    have hc : ProcessManager.TurnCase (e.view o) pm.view := hc
    generalize pm.view = v at hc ht
    cases hc with
    | stay _ => exact hturned ht rfl
    | start _ _ _ => exact hturned ht rfl
    | finish _ => exact hturned ht rfl
    | exit htask hev hcd =>
      obtain ⟨p, hp, hfreed, husers, hd, hnd, hend⟩ := freed_exit h hx htask hev hcd ht
      exact .free hfreed husers ht.procs hp hd hnd (Or.inl hend)
  | @job o ok i t jobs _ _ e₁ pm ht hi hc hj =>
    rcases frees_of_job hj with hv | ⟨pid, rfl⟩
    · exact freed_call hc (hv.trans (h.frees o))
    · obtain ⟨key, name, pid', rfl, hcd, hv⟩ := release_of_job hj
      obtain ⟨he, p, hp, hname⟩ := hc.release_eq
      subst hname he
      obtain ⟨hfreed, husers, hd, hnd⟩ := freed_release h hx ht hi hp hcd hv
      refine .free hfreed husers rfl hp hd hnd (Or.inr ⟨o, i, ok, rfl, ?_⟩)
      unfold jobAt
      rw [ht]
      exact hi
  | proc hp hc hs =>
    obtain ⟨h1, h2⟩ := hc.freed_eq h
    refine .same h1 h2 ?_
    have hlen := congrArg List.length hc.same.1
    exact List.length_set.trans hlen
  | connect _ | exit _ => exact .same rfl rfl rfl
  | register _ _ _ _ | respond _ _ _ _ => exact .same rfl rfl List.length_set

/-- **The user of a process is freed at most once.** -/
theorem FreedInv.step {a : Action} (hf : e.FreedInv) (hs : EngStep e a e' outs) (h : e.NameInv)
    (hx : e.ExitsInv) (hsig : SignalsRunning e a) : e'.FreedInv := by
  have hold : ∀ {pid}, pid ∈ e.freed → ∃ p, e'.procs[pid]? = some p ∧ Done e' pid p := by
    intro pid hpid
    obtain ⟨p, hp, hd⟩ := hf.done hpid
    exact hd.step hp hs h hsig
  cases hs.freed h hx with
  | same hfreed _ _ | create hfreed _ _ _ =>
    exact ⟨fun hpid => hold (hfreed ▸ hpid), hfreed ▸ hf.nodup⟩
  | @free pid p hfreed _ hprocs hp hd hnd _ =>
    refine ⟨fun {k} hk => ?_, ?_⟩
    · rw [hfreed] at hk
      rcases List.mem_append.1 hk with hk | hk
      · exact hold hk
      · rw [List.mem_singleton.1 hk]
        exact ⟨p, hprocs ▸ hp, hd⟩
    · rw [hfreed]
      refine List.nodup_append.2 ⟨hf.nodup, List.nodup_singleton _, fun k hk k' hk' => ?_⟩
      rintro rfl
      obtain rfl := List.mem_singleton.1 hk'
      obtain ⟨q, hq, hdq⟩ := hf.done hk
      obtain rfl := Option.some.inj (hp.symm.trans hq)
      exact hnd hdq

end Engine

end VmEngine
