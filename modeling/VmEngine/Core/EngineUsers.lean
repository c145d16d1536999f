/-
  Users of sandboxes.

  A user belongs to one process until it is freed, and then goes back to the queue.
  The cleaner frees it right after the signal, so another process may be launched under
  it while the sandbox is still alive (`shared_user`).  If the cleaner releases a process
  only after its sandbox has exited, and no control group fails, live sandboxes have
  different users (`users_isolated`).
-/
import VmEngine.Core.EngineFreed
import VmEngine.Core.EngineLaunch

namespace VmEngine

namespace Process
variable {p p' : Process} {a : Action} {outs : List ProcessOut}

/-- Writing the control group of the sandbox fails. -/
def Action.isCgroupError : Action → Bool
  | .cgroupError _ => true
  | _ => false

/-- The process launches no sandbox again. -/
def Settled (p : Process) : Prop :=
  p.launch ≠ .starting ∧ (p.listen = none ∨
    (p.processState ≠ .created ∧ p.processState ≠ .changing ∧ p.lockedBy ≠ some .changing))

/-- A settled process stays so, unless its manager changes it. -/
theorem Settled.step (h : Settled p) (hs : ProcStep p a p' outs)
    (hlock : p'.lockedBy = some .changing → p.lockedBy = some .changing) : Settled p' := by
  obtain ⟨hst, hq⟩ := h
  have hold : p'.launch = p.launch → p'.listen = p.listen →
      (p'.processState = p.processState ∨ (p'.processState ≠ .created ∧ p'.processState ≠ .changing)) →
      Settled p' := by
    intro h1 h2 h3
    refine ⟨h1 ▸ hst, hq.imp (fun h => h2.trans h) ?_⟩
    rintro ⟨h4, h5, h6⟩
    rcases h3 with h3 | ⟨h7, h8⟩
    · exact ⟨h3 ▸ h4, h3 ▸ h5, fun h => h6 (hlock h)⟩
    · exact ⟨h7, h8, fun h => h6 (hlock h)⟩
  have hhead : ∀ {sel}, p.listen = some sel → p'.launch = p.launch →
      (p'.processState = p.processState ∨ (p'.processState ≠ .created ∧ p'.processState ≠ .changing)) →
      Settled p' := by
    intro sel h0 h1 h3
    refine ⟨h1 ▸ hst, Or.inr ?_⟩
    rcases hq with hq | ⟨h4, h5, h6⟩
    · rw [h0] at hq; cases hq
    · rcases h3 with h3 | ⟨h7, h8⟩
      · exact ⟨h3 ▸ h4, h3 ▸ h5, fun h => h6 (hlock h)⟩
      · exact ⟨h7, h8, fun h => h6 (hlock h)⟩
  cases hs with
  | loopHead hl | wake hl | dropped hl _ | idleKept hl | strayTimeout hl _ _ _ =>
    exact hhead hl rfl (Or.inl rfl)
  | dispatched hl _ _ _ | idleTaken hl _ | answered hl _ _ _ _ | deployFailed hl _ _ _ _ _
  | busyTimeout hl _ _ _ _ | readyTimeout hl _ _ _ => exact hhead hl rfl (Or.inr ⟨nofun, nofun⟩)
  | exit hl hsel _ hc _ =>
    have hno : p.processState ≠ .created ∧ p.processState ≠ .changing := by
      rcases hq with hq | ⟨h4, h5, -⟩
      · rw [hsel] at hq; cases hq
      · exact ⟨h4, h5⟩
    cases hc with
    | ended _ _ _ | closed _ _ => exact ⟨nofun, Or.inl rfl⟩
    | restart _ hs _ => exact absurd hs hno.1
    | restartAll _ hs => exact absurd hs hno.2
  | setStream _ => exact hold rfl rfl (Or.inr ⟨nofun, nofun⟩)
  | @leaveWindow w _ _ _ hw =>
    cases w with
    | changing =>
      refine ⟨hst, Or.inl ?_⟩
      rcases hq with hq | ⟨-, -, h6⟩
      · exact hq
      · exact absurd hw h6
    | closing => exact hold rfl rfl (Or.inr ⟨nofun, nofun⟩)
  | launchProcess hl => exact absurd hl hst
  | sendReady _ _ | cgroupError _ | wait _ =>
    refine ⟨nofun, hq⟩
  | putMsg _ | expire | pop | refused _ | refusedClose _ | noGroup _ _ | changeSandbox _ _ _ _
  | closeSandbox _ _ _ _ => exact hold rfl rfl (Or.inl rfl)

/-- `CloseSandbox` has signalled the sandbox of an idle process. -/
theorem settled_closing (hst : p.processState = .idle) (hup : p.launch.isUp = true) :
    ({ p.killed with lockedBy := some .closing } : Process).Settled := by
  refine ⟨fun hl => ?_, Or.inr ⟨fun h => ?_, fun h => ?_, nofun⟩⟩
  · have hl : p.launch = .starting := hl
    rw [hl] at hup; cases hup
  · have h : p.processState = .created := h
    rw [hst] at h; cases h
  · have h : p.processState = .changing := h
    rw [hst] at h; cases h

end Process

namespace Engine
variable {cfg : ProcessConfig} {e e' e₁ : Engine} {o ok : Bool} {t : Task} {jobs : List Job}
  {i pid : ℕ} {j : Job} {ev : ProcessManager.JobEvent} {outs : List ProcessOut} {p p' : Process}

/-! ## Processes -/

/-- Only a change of the process locks it for a change. -/
theorem CallCase.lock (hc : CallCase e o ok j ev e₁) (hp : e.procs[pid]? = some p)
    (hp₁ : e₁.procs[pid]? = some p') (hl : p'.lockedBy = some .changing) :
    p.lockedBy = some .changing ∨ ((∃ c, j = .renamed c ∧ c.pid = pid) ∧ ok = true ∧
      p.processState = .idle ∧ p.lockedBy = none) := by
  have hset : ∀ {k : ℕ} {q q' : Process}, e.procs[k]? = some q →
      (e.procs.set k q')[pid]? = some p' → (q'.lockedBy = some .changing → k = pid → False) →
      p.lockedBy = some .changing := by
    intro k q q' hq hk hno
    rcases getElem?_set_some hk with ⟨rfl, rfl⟩ | ⟨-, hk⟩
    · exact (hno hl rfl).elim
    · rwa [Option.some.inj (hp.symm.trans hk)]
  cases hc with
  | plain _ | nameChange _ | refused _ _ | refusedClose _ _ | release _ =>
    exact Or.inl (by rwa [Option.some.inj (hp.symm.trans hp₁)])
  | create _ =>
    rcases getElem?_concat_some hp₁ with ⟨-, rfl⟩ | hp₁
    · cases hl
    · exact Or.inl (by rwa [Option.some.inj (hp.symm.trans hp₁)])
  | @killed c q hq hst hlock _ _ =>
    rcases getElem?_set_some hp₁ with ⟨rfl, rfl⟩ | ⟨-, hp₁⟩
    · obtain rfl := Option.some.inj (hp.symm.trans hq)
      exact Or.inr ⟨⟨c, rfl, rfl⟩, rfl, hst, hlock⟩
    · exact Or.inl (by rwa [Option.some.inj (hp.symm.trans hp₁)])
  | lost hq _ _ _ | leaveChange hq _ | closeLost hq _ _ _ | closeKilled hq _ _ _ _ | leaveClose hq _ =>
    exact Or.inl (hset hq hp₁ fun h _ => (by cases h))

variable {a : Action}

/-- A process takes at most one step, and is locked for a change only while it is idle
    and its sandbox runs. -/
theorem EngStep.proc_at (hs : EngStep e a e' outs) (hsig : SignalsRunning e a)
    (hp : e.procs[pid]? = some p) : ∃ p', e'.procs[pid]? = some p' ∧
      (p' = p ∨ ∃ b outs', Process.ProcStep p b p' outs' ∧ (p'.lockedBy = some .changing →
        p.lockedBy = some .changing ∨
          (p.processState = .idle ∧ p.lockedBy = none ∧ p.launch.isUp = true))) := by
  have hset : ∀ {k : ℕ} {q q' : Process} {b : Process.Action} {outs' : List ProcessOut},
      e.procs[k]? = some q → Process.ProcStep q b q' outs' → e'.procs = e.procs.set k q' →
      b.OfManager = false → ∃ p', e'.procs[pid]? = some p' ∧
        (p' = p ∨ ∃ b outs', Process.ProcStep p b p' outs' ∧ (p'.lockedBy = some .changing →
          p.lockedBy = some .changing ∨
            (p.processState = .idle ∧ p.lockedBy = none ∧ p.launch.isUp = true))) := by
    intro k q q' b outs' hq hs he hb
    rw [he]
    by_cases hk : k = pid
    · subst hk
      obtain rfl := Option.some.inj (hp.symm.trans hq)
      refine ⟨q', List.getElem?_set_self (List.getElem?_eq_some_iff.1 hp).1, Or.inr ⟨b, outs', hs, ?_⟩⟩
      rw [(hs.frame hb).lockedBy]
      exact Or.inl
    · exact ⟨p, (List.getElem?_set_ne hk).trans hp, Or.inl rfl⟩
  cases hs with
  | request | turn _ | connect _ | exit _ => exact ⟨p, hp, Or.inl rfl⟩
  | @job o ok i t jobs j ev e₁ pm ht hi hc hj =>
    have hlock : ∀ {p'}, e₁.procs[pid]? = some p' → p'.lockedBy = some .changing →
        p.lockedBy = some .changing ∨
          (p.processState = .idle ∧ p.lockedBy = none ∧ p.launch.isUp = true) := by
      intro p' hp' hl
      refine (hc.lock hp hp' hl).imp id ?_
      rintro ⟨⟨c, rfl, rfl⟩, rfl, hst, hno⟩
      exact ⟨hst, hno, hsig p ((target_eq ht hi rfl).trans hp) hst⟩
    rcases hc.procs with he | ⟨user, key, name, he⟩ | ⟨k, q, q', b, hq, he, -, hs⟩
    · exact ⟨p, he ▸ hp, Or.inl rfl⟩
    · refine ⟨p, ?_, Or.inl rfl⟩
      have : (e₁.settle o pm).procs = e.procs ++ [Process.new user key name o] := he
      rw [this, List.getElem?_append_left (List.getElem?_eq_some_iff.1 hp).1]
      exact hp
    · by_cases hk : k = pid
      · subst hk
        obtain rfl := Option.some.inj (hp.symm.trans hq)
        have hq' : e₁.procs[k]? = some q' := by
          rw [he]; exact List.getElem?_set_self (List.getElem?_eq_some_iff.1 hp).1
        exact ⟨q', hq', Or.inr ⟨b, [], hs, hlock hq'⟩⟩
      · refine ⟨p, ?_, Or.inl rfl⟩
        have : (e₁.settle o pm).procs = e.procs.set k q' := he
        rw [this]
        exact (List.getElem?_set_ne hk).trans hp
  | @proc k q q' _ _ e₁ _ hq hc hs =>
    obtain ⟨hprocs, -, ha⟩ := hc.same
    exact hset hq hs (congrArg (List.set · k q') hprocs) ha
  | register _ _ hq hs | respond _ _ hq hs => exact hset hq hs rfl rfl

/-! ## Processes that the cleaner has signalled -/

/-- Where the jobs of a manager come from: they were there, a handler starts, or a job
    goes on. -/
theorem EngStep.job_origin (hs : EngStep e a e' outs) (hj : j ∈ (e'.view o).jobs) :
    j ∈ (e.view o).jobs ∨ j.closingPid = none ∨ ∃ i ok j₀ ev e₁, a = .job o i ok ∧
      (e.mgr o).task.map Prod.snd = some (e.view o).jobs ∧ (e.view o).jobs[i]? = some j₀ ∧
      NextJob j₀ ev j ∧ CallCase e o ok j₀ ev e₁ ∧ e'.procs = e₁.procs := by
  cases hs with
  | @request o' msg =>
    by_cases ho : o = o'
    · subst ho
      rw [view_setMgr] at hj
      exact Or.inl hj
    · rw [view_setMgr_of_ne _ ho] at hj
      exact Or.inl hj
  | @turn o' _ pm hc =>
    by_cases ho : o = o'
    · subst ho
      rw [view_settle] at hj
      have hj : j ∈ pm.view.jobs := hj
      have hc : ProcessManager.TurnCase (e.view o) pm.view := hc
      generalize pm.view = v at hc hj
      cases hc with
      | stay _ => exact Or.inl hj
      | start _ _ hstart =>
        rcases hstart j hj with ⟨-, ⟨key, rfl⟩ | ⟨n, pid, key, rfl, -⟩⟩ | ⟨-, n, pid, rfl, -⟩
        all_goals exact Or.inr (Or.inl rfl)
      | finish _ => cases hj
      | exit _ _ _ => exact Or.inl hj
    · rw [view_settle_of_ne _ ho] at hj
      exact Or.inl hj
  | @job o' ok i t jobs j₀ ev e₁ pm ht hi hc hjc =>
    by_cases ho : o = o'
    · subst ho
      rw [view_settle] at hj
      have hj : j ∈ pm.view.jobs := hj
      obtain ⟨rest, hperm, hset, herase⟩ := exists_rest hi
      have hjobs : (e.view o).jobs = jobs := jobs_eq_of_task ht
      rw [hjobs]
      rcases next_of_job hjc hset herase hj with hj | hnext
      · exact Or.inl (hperm.mem_iff.2 (List.mem_cons_of_mem _ hj))
      · exact Or.inr (Or.inr ⟨i, ok, j₀, ev, e₁, rfl, by rw [ht]; rfl, hi, hnext, hc, rfl⟩)
    · rw [view_settle_of_ne _ ho] at hj
      have hv : e₁.view o = e.view o := congrArg (fun mgr => (mgr o).view) hc.mgr
      exact Or.inl (hv ▸ hj)
  | @proc pid p p' a a' e₁ outs hp hc _ =>
    refine Or.inl ?_
    rw [← hc.jobs_eq o]
    by_cases ho : o = p'.isOrigProcess
    · rw [ho, view_putExits] at hj
      rw [ho]
      exact hj
    · rw [view_putExits_of_ne _ ho] at hj
      exact hj
  | connect _ | register _ _ _ _ | respond _ _ _ _ | exit _ => exact Or.inl hj

/-- The sandboxes of the process have exited. -/
def AllExited (e : Engine) (pid : ℕ) : Prop := ∀ sb ∈ e.sandboxes, sb.pid = pid → sb.alive = false

instance : Decidable (AllExited e pid) := inferInstanceAs (Decidable (∀ sb ∈ e.sandboxes, _))

/-- The sandboxes after a step: a new one is launched by its process. -/
theorem EngStep.sandbox_origin (hs : EngStep e a e' outs) {sb' : Sandbox}
    (hsb' : sb' ∈ e'.sandboxes) :
    (∃ sb ∈ e.sandboxes, sb'.pid = sb.pid ∧ (sb'.alive = true → sb.alive = true)) ∨
      ∃ p, e.procs[sb'.pid]? = some p ∧ p.launch = .starting := by
  have hset : ∀ {sid : ℕ} {sb sb₁ : Sandbox}, e.sandboxes[sid]? = some sb →
      sb' ∈ e.sandboxes.set sid sb₁ → sb₁.pid = sb.pid → (sb₁.alive = true → sb.alive = true) →
      ∃ sb ∈ e.sandboxes, sb'.pid = sb.pid ∧ (sb'.alive = true → sb.alive = true) := by
    intro sid sb sb₁ hsb hmem h1 h2
    rcases List.mem_or_eq_of_mem_set hmem with hmem | rfl
    · exact ⟨sb', hmem, rfl, id⟩
    · exact ⟨sb, List.mem_of_getElem? hsb, h1, h2⟩
  have hsame : sb' ∈ e.sandboxes →
      ∃ sb ∈ e.sandboxes, sb'.pid = sb.pid ∧ (sb'.alive = true → sb.alive = true) :=
    fun h => ⟨sb', h, rfl, id⟩
  cases hs with
  | request | turn _ | register _ _ _ _ | respond _ _ _ _ => exact Or.inl (hsame hsb')
  | job _ _ hc _ => exact Or.inl (hsame (hc.sandboxes ▸ hsb'))
  | @proc pid p p' _ _ e₁ _ hp hc hs =>
    have hsb' : sb' ∈ e₁.sandboxes := hsb'
    cases hc with
    | alone _ | txReq _ _ _ | tick | idleTxReq | toIdle _ _ _ | toBusy _ _ => exact Or.inl (hsame hsb')
    | launch =>
      rcases List.mem_append.1 hsb' with hsb' | hsb'
      · exact Or.inl (hsame hsb')
      · rw [List.mem_singleton.1 hsb']
        exact Or.inr ⟨p, hp, hs.started.1⟩
    | wait _ hsb _ => exact Or.inl (hset hsb hsb' rfl id)
  | connect hsb => exact Or.inl (hset hsb hsb' rfl id)
  | exit hsb => exact Or.inl (hset hsb hsb' rfl nofun)

theorem AllExited.step (h : AllExited e pid) (hs : EngStep e a e' outs)
    (hp : e.procs[pid]? = some p) (hno : p.launch ≠ .starting) : AllExited e' pid := by
  intro sb' hsb' hpid
  rcases hs.sandbox_origin hsb' with ⟨sb, hsb, h1, h2⟩ | ⟨q, hq, hl⟩
  · have hdead := h sb hsb (h1.symm.trans hpid)
    cases hal : sb'.alive with
    | false => rfl
    | true => rw [h2 hal] at hdead; cases hdead
  · rw [hpid] at hq
    obtain rfl := Option.some.inj (hp.symm.trans hq)
    exact absurd hl hno

theorem LaunchInv.allExited (h : e.LaunchInv) (hp : e.procs[pid]? = some p)
    (hno : p.launch.sid = none) : AllExited e pid := by
  intro sb hsb hpid
  obtain ⟨sid, hsid⟩ := List.mem_iff_getElem?.1 hsb
  cases hal : sb.alive with
  | false => rfl
  | true =>
    obtain ⟨q, ⟨hq, hup⟩, -⟩ := h.alive hsid hal
    rw [hpid] at hq
    obtain rfl := Option.some.inj (hp.symm.trans hq)
    rw [hno] at hup; cases hup

/-! ## The condition -/

/-- The process that the job is about to release. -/
def releasing (e : Engine) (o : Bool) (i : ℕ) : Option ℕ :=
  (e.jobAt o i).bind fun
    | .closed pid => some pid
    | _ => none

/-- The cleaner releases a process only after its sandbox has exited, and writing the
    control group of a sandbox never fails. -/
def UserOk (e : Engine) : Action → Prop
  | .proc _ a => a.isCgroupError = false
  | .job o i _ => ∀ pid ∈ e.releasing o i, AllExited e pid
  | _ => True

instance : DecidableRel UserOk
  | _, .proc _ a => inferInstanceAs (Decidable (a.isCgroupError = false))
  | e, .job o i _ => inferInstanceAs (Decidable (∀ pid ∈ e.releasing o i, AllExited e pid))
  | _, .request _ _ | _, .manager _ _ | _, .connect _ | _, .register _ | _, .respond _ _
  | _, .exit _ => instDecidableTrue

theorem UserOk.cgroup (h : UserOk e a) (pid : ℕ) (err : String) :
    a ≠ .proc pid (.cgroupError err) := by
  rintro rfl
  cases h

/-! ## The invariant -/

/-- A process that the cleaner has signalled, or whose user was freed, launches no
    sandbox again; the sandboxes of a freed user have exited. -/
structure QuietInv (e : Engine) : Prop where
  closing : ∀ {o j pid}, j ∈ (e.view o).jobs → j.closingPid = some pid →
    ∃ p, e.procs[pid]? = some p ∧ p.Settled
  freed : ∀ {pid}, pid ∈ e.freed → (∃ p, e.procs[pid]? = some p ∧ p.Settled) ∧ AllExited e pid

/-- A process stays settled unless its manager may change it. -/
theorem EngStep.settled (hs : EngStep e a e' outs) (hsig : SignalsRunning e a)
    (hp : e.procs[pid]? = some p) (hset : p.Settled)
    (hno : p.processState = .idle → p.lockedBy = none → p.launch.isUp = true → False) :
    ∃ p', e'.procs[pid]? = some p' ∧ p'.Settled := by
  obtain ⟨p', hp', rfl | ⟨b, outs', hs, hlock⟩⟩ := hs.proc_at hsig hp
  · exact ⟨p', hp', hset⟩
  · refine ⟨p', hp', hset.step hs fun hl => ?_⟩
    rcases hlock hl with hl | ⟨h1, h2, h3⟩
    · exact hl
    · exact (hno h1 h2 h3).elim

/-- The process of a job of the cleaner stays settled. -/
theorem QuietInv.keep_closing (h : e.QuietInv) (hs : EngStep e a e' outs) (hn : e.NameInv)
    (hsig : SignalsRunning e a) (hj : j ∈ (e.view o).jobs) (hpid : j.closingPid = some pid) :
    ∃ p, e'.procs[pid]? = some p ∧ p.Settled := by
  obtain ⟨p, hp, hset⟩ := h.closing hj hpid
  refine hs.settled hsig hp hset fun hst hl _ => ?_
  have hjok := (hn.jobs o).ok j hj
  cases j with
  | closeKilled k =>
    cases hpid
    obtain ⟨q, hq, -, hw⟩ := hjok
    rw [← Option.some.inj (hp.symm.trans hq), hl] at hw; cases hw
  | closed k =>
    cases hpid
    obtain ⟨q, hq, -, hno⟩ := hjok
    exact hno (Option.some.inj (hp.symm.trans hq) ▸ hst)
  | _ => cases hpid

theorem QuietInv.step_closing (h : e.QuietInv) (hs : EngStep e a e' outs) (hn : e.NameInv)
    (hsig : SignalsRunning e a) (hj : j ∈ (e'.view o).jobs) (hpid : j.closingPid = some pid) :
    ∃ p, e'.procs[pid]? = some p ∧ p.Settled := by
  rcases hs.job_origin hj with hj | hno | ⟨i, ok, j₀, ev, e₁, rfl, ht, hi, hnext, hc, hprocs⟩
  · exact h.keep_closing hs hn hsig hj hpid
  · rw [hpid] at hno; cases hno
  · cases hnext with
    | named | made | renamed | killed | changed => cases hpid
    | closed => exact h.keep_closing hs hn hsig (List.mem_of_getElem? hi) hpid
    | closeKilled =>
      cases hpid
      cases hc with
      | plain hpl => cases hpl
      | @closeKilled _ p hp hst _ _ _ =>
        have htarget : e.target o i = e.procs[pid]? := by
          unfold target jobAt
          rw [ht]
          simp only [Option.bind_some, hi, Job.target]
        rw [hprocs]
        exact ⟨_, List.getElem?_set_self (List.getElem?_eq_some_iff.1 hp).1,
          Process.settled_closing hst (hsig p (htarget.trans hp) hst)⟩

theorem QuietInv.step (h : e.QuietInv) (hs : EngStep e a e' outs) (hn : e.NameInv) (hx : e.ExitsInv)
    (hf : e.FreedInv) (hl : e.LaunchInv) (hok : UserOk e a) : e'.QuietInv := by
  have hsig := hl.signalsRunning hs
  refine ⟨fun hj hpid => h.step_closing hs hn hsig hj hpid, fun {pid} hpid => ?_⟩
  have hold : pid ∈ e.freed → (∃ p, e'.procs[pid]? = some p ∧ p.Settled) ∧ AllExited e' pid := by
    intro hpid
    obtain ⟨⟨p, hp, hset⟩, hex⟩ := h.freed hpid
    refine ⟨hs.settled hsig hp hset fun hst _ hup => ?_, hex.step hs hp hset.1⟩
    obtain ⟨q, hq, hd⟩ := hf.done hpid
    obtain rfl := Option.some.inj (hp.symm.trans hq)
    rcases hd.idle with hla | hno
    · rw [hla] at hup; cases hup
    · exact hno hst
  cases hs.freed hn hx with
  | same hfreed _ _ | create hfreed _ _ _ => exact hold (hfreed ▸ hpid)
  | @free k p hfreed _ hprocs hp _ _ hwhy =>
    rw [hfreed] at hpid
    rcases List.mem_append.1 hpid with hpid | hpid
    · exact hold hpid
    rw [List.mem_singleton.1 hpid]
    rcases hwhy with ⟨hla, hli⟩ | ⟨o, i, ok, rfl, hj⟩
    · have hset : p.Settled := ⟨by rw [hla]; nofun, Or.inl hli⟩
      exact ⟨⟨p, hprocs ▸ hp, hset⟩, (hl.allExited hp (by rw [hla]; rfl)).step hs hp hset.1⟩
    · have hmem : Job.closed k ∈ (e.view o).jobs := by
        obtain ⟨jobs, hjobs, hi⟩ := Option.bind_eq_some_iff.1 hj
        have : (e.view o).jobs = jobs := congrArg (·.getD []) hjobs
        rw [this]
        exact List.mem_of_getElem? hi
      obtain ⟨q, hq, hset⟩ := h.closing hmem rfl
      have hex := hok k (Option.bind_eq_some_iff.2 ⟨_, hj, rfl⟩)
      exact ⟨⟨q, hprocs ▸ hq, hset⟩, hex.step hs hq hset.1⟩

/-- The users of the queue and of the processes that are not freed are different. -/
structure UsersInv (e : Engine) : Prop where
  nodup : e.users.Nodup
  unused : ∀ {pid : ℕ} {p}, e.procs[pid]? = some p → pid ∉ e.freed → p.user ∉ e.users
  distinct : ∀ {pid pid' : ℕ} {p p'}, e.procs[pid]? = some p → pid ∉ e.freed →
    e.procs[pid']? = some p' → pid' ∉ e.freed → p.user = p'.user → pid = pid'

theorem UsersInv.step (h : e.UsersInv) (hs : EngStep e a e' outs) (hn : e.NameInv) (hx : e.ExitsInv)
    (hf : e.FreedInv) (hsig : SignalsRunning e a) : e'.UsersInv := by
  have hback : ∀ {k : ℕ} {q'}, e'.procs[k]? = some q' → k < e.procs.length →
      ∃ q, e.procs[k]? = some q ∧ q'.user = q.user := by
    intro k q' hq' hk
    have hq := List.getElem?_eq_getElem hk
    refine ⟨_, hq, ?_⟩
    obtain ⟨q₁, hq₁, rfl | ⟨b, outs', hs, -⟩⟩ := hs.proc_at hsig hq
    · rw [Option.some.inj (hq'.symm.trans hq₁)]
    · rw [Option.some.inj (hq'.symm.trans hq₁)]
      exact hs.user
  cases hs.freed hn hx with
  | same hfreed husers hlen =>
    have hold : ∀ {k : ℕ} {q'}, e'.procs[k]? = some q' → ∃ q, e.procs[k]? = some q ∧ q'.user = q.user :=
      fun hq' => hback hq' (hlen ▸ (List.getElem?_eq_some_iff.1 hq').1)
    refine ⟨husers ▸ h.nodup, fun hp' hno => ?_, fun hp' hno hq' hno' heq => ?_⟩
    · obtain ⟨p, hp, hu⟩ := hold hp'
      rw [hu, husers]
      exact h.unused hp (hfreed ▸ hno)
    · obtain ⟨p, hp, hu⟩ := hold hp'
      obtain ⟨q, hq, hu'⟩ := hold hq'
      exact h.distinct hp (hfreed ▸ hno) hq (hfreed ▸ hno') (hu ▸ hu' ▸ heq)
  | @create user users key name o hfreed hold hnew hprocs =>
    have hnd := h.nodup
    have hno := fun {k : ℕ} {q} => @UsersInv.unused e h k q
    rw [hold] at hnd
    rw [hold] at hno
    obtain ⟨huser, hnd⟩ := List.nodup_cons.1 hnd
    refine ⟨hnew ▸ hnd, fun {k q} hq hk => ?_, fun {k k' q q'} hq hk hq' hk' heq => ?_⟩
    · rw [hnew]
      rw [hprocs] at hq
      rcases getElem?_concat_some hq with ⟨-, rfl⟩ | hq
      · exact huser
      · exact fun hmem => hno hq (hfreed ▸ hk) (List.mem_cons_of_mem _ hmem)
    · rw [hprocs] at hq hq'
      rcases getElem?_concat_some hq with ⟨rfl, rfl⟩ | hq
      · rcases getElem?_concat_some hq' with ⟨rfl, rfl⟩ | hq'
        · rfl
        · have heq : user = q'.user := heq
          exact absurd (heq ▸ List.mem_cons_self) (hno hq' (hfreed ▸ hk'))
      · rcases getElem?_concat_some hq' with ⟨rfl, rfl⟩ | hq'
        · have heq : q.user = user := heq
          exact absurd (heq ▸ List.mem_cons_self) (hno hq (hfreed ▸ hk))
        · exact h.distinct hq (hfreed ▸ hk) hq' (hfreed ▸ hk') heq
  | @free k p hfreed husers hprocs hp _ hnd _ =>
    have hk : k ∉ e.freed := by
      intro hk
      obtain ⟨q, hq, hd⟩ := hf.done hk
      obtain rfl := Option.some.inj (hp.symm.trans hq)
      exact hnd hd
    have hsub : ∀ {x}, x ∉ e'.freed → x ∉ e.freed ∧ x ≠ k := by
      intro x hx
      rw [hfreed, List.mem_append, List.mem_singleton] at hx
      exact ⟨fun h => hx (Or.inl h), fun h => hx (Or.inr h)⟩
    rw [← hprocs] at hp
    refine ⟨?_, fun {x q} hq hx => ?_, fun hq hx hq' hx' heq => ?_⟩
    · rw [husers]
      refine List.nodup_append.2 ⟨h.nodup, List.nodup_singleton _, fun u hu v hv => ?_⟩
      rintro rfl
      rw [List.mem_singleton.1 hv] at hu
      exact h.unused (hprocs ▸ hp) hk hu
    · obtain ⟨hx, hne⟩ := hsub hx
      rw [husers, List.mem_append, List.mem_singleton]
      rintro (hu | hu)
      · exact h.unused (hprocs ▸ hq) hx hu
      · exact hne (h.distinct (hprocs ▸ hq) hx (hprocs ▸ hp) hk hu)
    · exact h.distinct (hprocs ▸ hq) (hsub hx).1 (hprocs ▸ hq') (hsub hx').1 heq

/-! ## Runs -/

/-- What holds of every run under the condition. -/
structure UserInv (e : Engine) : Prop where
  names : e.NameInv
  ended : e.ExitsInv
  freed : e.FreedInv
  launch : e.LaunchInv
  quiet : e.QuietInv
  users : e.UsersInv

theorem userInv_reach {maxProcessNum releaseNum : Bool → ℤ} {users : List ℕ} (hu : users.Nodup)
    (h : Reach (step cfg) UserOk (new maxProcessNum releaseNum users) e) : e.UserInv := by
  refine h.inv ?_ fun {e a e'} hinv hok hstep => ?_
  · exact ⟨nameInv_new .., ⟨fun h => (by cases h), fun _ => List.Pairwise.nil⟩,
      ⟨fun h => (by cases h), List.nodup_nil⟩, launchInv_new ..,
      ⟨fun h => (by cases h), fun h => (by cases h)⟩,
      ⟨hu, fun h => (by cases h), fun h => (by cases h)⟩⟩
  · obtain ⟨outs, hact⟩ := step_eq_some hstep
    have hs := act_step hact
    obtain ⟨hn, hx, hf, hl, hq, hus⟩ := hinv
    have hsig := hl.signalsRunning hs
    exact ⟨hn.step hs, hx.step hs hn hsig, hf.step hs hn hx hsig, hl.step hs hok.cgroup,
      hq.step hs hn hx hf hl hok, hus.step hs hn hx hf hsig⟩

/-- The process of a live sandbox is not freed. -/
theorem QuietInv.not_freed (h : e.QuietInv) {sid : ℕ} {sb : Sandbox}
    (hsb : e.sandboxes[sid]? = some sb) (hal : sb.alive = true) : sb.pid ∉ e.freed := by
  intro hmem
  have hdead := (h.freed hmem).2 sb (List.mem_of_getElem? hsb) rfl
  rw [hal] at hdead; cases hdead

/-- **Sandboxes have their own users.**  In every run under `UserOk`, two live sandboxes
    have different users, a user of the queue has no live sandbox, and neither has the
    user of a process that is about to launch. -/
theorem users_isolated {maxProcessNum releaseNum : Bool → ℤ} {users : List ℕ} (hu : users.Nodup)
    (h : Reach (step cfg) UserOk (new maxProcessNum releaseNum users) e) {sid : ℕ} {sb : Sandbox}
    (hsb : e.sandboxes[sid]? = some sb) (hal : sb.alive = true) :
    (∀ (sid' : ℕ) (sb' : Sandbox), e.sandboxes[sid']? = some sb' → sb'.alive = true →
      sb'.user = sb.user → sid' = sid) ∧
    sb.user ∉ e.users ∧
    ∀ (pid : ℕ) (p : Process), e.procs[pid]? = some p → p.launch = .starting → p.user ≠ sb.user := by
  have hinv := userInv_reach hu h
  obtain ⟨p, ⟨hp, hps⟩, hpu⟩ := hinv.launch.alive hsb hal
  have hno := hinv.quiet.not_freed hsb hal
  refine ⟨fun sid' sb' hsb' hal' heq => ?_, ?_, fun pid q hq hl heq => ?_⟩
  · obtain ⟨p', ⟨hp', hps'⟩, hpu'⟩ := hinv.launch.alive hsb' hal'
    have hno' := hinv.quiet.not_freed hsb' hal'
    have hpid := hinv.users.distinct hp' hno' hp hno (hpu'.symm.trans (heq.trans hpu))
    rw [hpid] at hp'
    obtain rfl := Option.some.inj (hp.symm.trans hp')
    exact Option.some.inj (hps'.symm.trans hps)
  · rw [hpu]
    exact hinv.users.unused hp hno
  · have hnq : pid ∉ e.freed := by
      intro hmem
      obtain ⟨⟨r, hr, hset⟩, -⟩ := hinv.quiet.freed hmem
      obtain rfl := Option.some.inj (hq.symm.trans hr)
      exact hset.1 hl
    have hpid := hinv.users.distinct hq hnq hp hno (heq.trans hpu)
    rw [hpid] at hq
    obtain rfl := Option.some.inj (hp.symm.trans hq)
    rw [hl] at hps; cases hps

/-- A second process is created for another contract, and its sandbox is launched. -/
def launchSecond : List Action :=
  [.request true ⟨⟨"chain1", "asset", "v1"⟩, 1⟩, .manager true .recvEvent, .job true 0 true,
    .job true 0 true, .job true 0 true, .proc 1 (.launchProcess (.started 1))]

/-- The first two sandboxes are alive. -/
def TwoAlive (e : Engine) : Bool :=
  e.sandboxes[0]?.any (·.alive) && e.sandboxes[1]?.any (·.alive)

set_option maxRecDepth 20000 in
/-- Two sandboxes run, under different users. -/
theorem users_isolated_two : ∃ e sb sb', Reach (step .sample) UserOk (sample 2 [10000, 10001]) e ∧
    e.sandboxes[0]? = some sb ∧ sb.alive = true ∧ e.sandboxes[1]? = some sb' ∧ sb'.alive = true ∧
    sb'.user ≠ sb.user := by
  obtain ⟨e, h, hP⟩ := exists_reach (step .sample) UserOk (sample 2 [10000, 10001]) TwoAlive
    (runToIdle ++ launchSecond) (by decide)
  obtain ⟨h0, h1⟩ := Bool.and_eq_true_iff.1 hP
  obtain ⟨sb, hsb, hal⟩ := (Option.any_eq_true _ _).1 h0
  obtain ⟨sb', hsb', hal'⟩ := (Option.any_eq_true _ _).1 h1
  refine ⟨e, sb, sb', h, hsb, hal, hsb', hal', fun heq => ?_⟩
  have := (users_isolated (by decide) h hsb hal).1 1 sb' hsb' hal' heq
  cases this

/-- The first two sandboxes are alive and have the same user. -/
def Shared (e : Engine) : Bool := TwoAlive e && decide (e.sandboxes.map (·.user) = [10000, 10000])

set_option maxRecDepth 20000 in
/-- Two live sandboxes share a user: when the cleaner frees the user of an idle process
    right after the signal and the next process is launched under it, and when writing
    the control group fails and the process is restarted. -/
theorem shared_user :
    (∃ e, Reach (step .sample) Free (sample 2 [10000]) e ∧ Shared e = true) ∧
    ∃ e, Reach (step .sample) Free (sample 1 [10000]) e ∧ e.freed = [] ∧ Shared e = true := by
  constructor
  · exact exists_reach _ Free _ _ (runToIdle ++ [.manager true .expire, .manager true .recvClean,
      .job true 0 true, .job true 0 true, .job true 0 true, .manager true .advance] ++ launchSecond)
      (by decide)
  · obtain ⟨e, h, hP⟩ := exists_reach (step .sample) Free (sample 1 [10000])
      (fun e => e.freed.isEmpty && Shared e)
      [.request true ⟨.sample, 1⟩, .manager true .recvEvent, .job true 0 true, .job true 0 true,
        .job true 0 true, .proc 0 (.launchProcess (.started 0)), .proc 0 .loopHead,
        .proc 0 (.cgroupError "cgroup"), .proc 0 (.exit none 0),
        .proc 0 (.launchProcess (.started 1))] (by decide)
    obtain ⟨h1, h2⟩ := Bool.and_eq_true_iff.1 hP
    exact ⟨e, h, List.isEmpty_iff.1 h1, h2⟩

end Engine

end VmEngine
