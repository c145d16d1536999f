/-
  Exit messages and the names they carry.

  A manager that handles an exit message looks up the process by the name in it, and
  the cleaner looks up a process that it has closed.  `PresentInv` says that these names
  are live; `ExitOk` excludes the orders of steps in which they are not.  Here are the
  steps of the handlers and of the processes, the jobs are in `EngineExit`.
-/
import VmEngine.Core.EngineFreed
import VmEngine.Core.ProcessListen

namespace VmEngine

/-- The exit of the sandbox, if it comes, is that of a sandbox that was started. -/
def Launch.mayExit : Launch → Prop
  | .starting => False
  | .exited e => e.kind = .other
  | _ => True

theorem Launch.mayExit_of_isUp {l : Launch} (h : l.isUp = true) : l.mayExit := by
  cases l with
  | sending sid | running sid => trivial
  | _ => cases h

namespace Process
variable {p p' : Process} {a : Action} {outs : List ProcessOut}

/-- The listener handles the exit of the sandbox. -/
def Action.isExit : Action → Bool
  | .exit _ _ => true
  | _ => false

/-- A closing process stays so, unless it is registered or its manager takes it back. -/
theorem ProcStep.closing (h : ProcStep p a p' outs) (hl : ListenInv p) (ha : a.OfManager = false)
    (hset : ∀ sid, a ≠ .setStream sid) (hst : p.processState = .closing) :
    p'.processState = .closing ∨ ∃ tx, a = .idleTxReq tx true := by
  cases h with
  | dispatched hr _ _ _ =>
    have := (hl.ready hr).1
    rw [hst] at this; cases this
  | answered hb _ _ _ _ | deployFailed hb _ _ _ _ _ =>
    rcases hl.busy hb with this | this
    · rw [hst] at this; cases this
    · rw [hst] at this; cases this
  | busyTimeout _ _ _ this _ | readyTimeout _ _ _ this => rw [hst] at this; cases this
  | idleTaken _ _ => exact Or.inr ⟨_, rfl⟩
  | setStream _ => exact absurd rfl (hset _)
  | exit _ _ _ hc _ =>
    refine Or.inl ?_
    cases hc with
    | ended hs _ _ =>
      rcases hs with ⟨-, rfl⟩ | ⟨-, rfl, -⟩ | ⟨hs, -⟩
      · exact hst
      · exact hst
      · rw [hst] at hs; simp at hs
    | restart _ hs _ | restartAll _ hs => rw [hst] at hs; cases hs
    | closed _ _ => exact hst
  | launchProcess _ => exact Or.inl ((launchProcess_frame p _).2.1.trans hst)
  | refused _ | noGroup _ _ | changeSandbox _ _ _ _ | refusedClose _ | closeSandbox _ _ _ _
  | leaveWindow _ => cases ha
  | _ => exact Or.inl hst

/-- Only the manager makes a process closing. -/
theorem ProcStep.of_closing (h : ProcStep p a p' outs) (ha : a.OfManager = false)
    (hst : p'.processState = .closing) : p.processState = .closing := by
  cases h with
  | exit _ _ _ hc _ =>
    cases hc with
    | ended hs _ _ =>
      rcases hs with ⟨-, rfl⟩ | ⟨-, rfl, -⟩ | ⟨-, rfl, -⟩
      · exact hst
      · exact hst
      · cases hst
    | restart _ _ _ | closed _ _ => exact hst
    | restartAll _ _ => cases hst
  | dispatched _ _ _ _ | idleTaken _ _ | answered _ _ _ _ _ | deployFailed _ _ _ _ _ _
  | busyTimeout _ _ _ _ _ | readyTimeout _ _ _ _ | setStream _ => cases hst
  | launchProcess _ => exact (launchProcess_frame p _).2.1.symm.trans hst
  | refused _ | noGroup _ _ | changeSandbox _ _ _ _ | refusedClose _ | closeSandbox _ _ _ _
  | leaveWindow _ => cases ha
  | _ => exact hst

/-- The sandbox of a closing process exits like one that was started. -/
theorem ProcStep.mayExit (h : ProcStep p a p' outs) (hm : p.launch.mayExit)
    (hst : (∀ next cfv, a ≠ .exit next cfv) ∨ p.processState = .closing) : p'.launch.mayExit := by
  cases h with
  | exit hl _ _ hc _ =>
    rcases hst with hst | hst
    · exact absurd rfl (hst _ _)
    · cases hc with
      | ended _ _ _ | closed _ _ => trivial
      | restart _ hs _ | restartAll _ hs => rw [hst] at hs; cases hs
  | launchProcess hl => rw [hl] at hm; cases hm
  | sendReady _ _ => trivial
  | cgroupError _ => rfl
  | @wait err _ _ => cases err <;> rfl
  | _ => exact hm

end Process

namespace Engine
variable {cfg : ProcessConfig} {e e' e₁ : Engine} {o ok : Bool} {v v' : ManagerView} {t : Task}
  {jobs : List Job} {i pid : ℕ} {j : Job} {ev : ProcessManager.JobEvent} {outs : List ProcessOut}
  {p p' : Process}

/-! ## The condition -/

/-- The process that the job is about to rename. -/
def renameTarget (e : Engine) (o : Bool) (i : ℕ) : Option Process :=
  (e.jobAt o i).bind fun
    | .renamed c => e.procs[c.pid]?
    | _ => none

/-- The orders in which exit messages find their processes: `ChangeSandbox` and
    `CloseSandbox` signal a running sandbox, a signal of `ChangeSandbox` fails only if
    the listener had returned when `ChangeSandbox` was called, before its `resetContext`,
    no exit is handled between the signal of `CloseSandbox` and its update of the state,
    and no sandbox registers with a closing process. -/
def ExitOk (e : Engine) : Action → Prop
  | .job o i true => ∀ p ∈ e.target o i, p.processState = .idle → p.launch.isUp = true
  | .job o i false => ∀ p ∈ e.renameTarget o i, p.processState = .idle → p.listen = none
  | .proc pid a => a.isExit = true → ∀ p ∈ e.procs[pid]?, p.lockedBy ≠ some .closing
  | .register sid => ∀ p ∈ e.connected sid, p.processState ≠ .closing
  | _ => True

instance : DecidableRel ExitOk
  | e, .job o i true => inferInstanceAs
      (Decidable (∀ p ∈ e.target o i, p.processState = .idle → p.launch.isUp = true))
  | e, .job o i false => inferInstanceAs
      (Decidable (∀ p ∈ e.renameTarget o i, p.processState = .idle → p.listen = none))
  | e, .proc pid a => inferInstanceAs
      (Decidable (a.isExit = true → ∀ p ∈ e.procs[pid]?, p.lockedBy ≠ some .closing))
  | e, .register sid => inferInstanceAs
      (Decidable (∀ p ∈ e.connected sid, p.processState ≠ .closing))
  | _, .request _ _ | _, .manager _ _ | _, .connect _ | _, .respond _ _ | _, .exit _ =>
    instDecidableTrue

theorem ExitOk.signalsRunning {a : Action} (h : ExitOk e a) : SignalsRunning e a := by
  unfold SignalsRunning
  split
  · exact h
  · trivial

/-! ## The invariant -/

/-- A process that listens and is not being closed has a live name.  One that is being
    closed has sent no exit message, and it is released once. -/
structure ProcLive (e : Engine) (pid : ℕ) (p : Process) : Prop where
  live : p.listen ≠ none → p.lockedBy ≠ some .closing → p.processState ≠ .closing →
    (e.view p.isOrigProcess).Live p.processName
  closing : p.lockedBy = some .closing ∨ p.processState = .closing → p.launch.mayExit ∧
    (∀ {m}, m ∈ (e.view p.isOrigProcess).exits → (m.processName, pid) ∉ e.names p.isOrigProcess) ∧
    ((∃ j ∈ (e.view p.isOrigProcess).jobs, j.closingPid = some pid) ∨ pid ∈ e.freed)

/-- No exit message has a name that a job is about to drop, and a process that is being
    closed has a live name. -/
def JobLive (e : Engine) (o : Bool) : Job → Prop
  | .killed c | .changed c => ∀ m ∈ (e.view o).exits, m.processName ≠ c.oldName
  | .closeKilled pid => ∀ p, e.procs[pid]? = some p → (e.view o).Live p.processName
  | .closed pid => ∀ p, e.procs[pid]? = some p →
      p.processState = .closing ∧ (e.view o).Live p.processName
  | _ => True

structure PresentInv (e : Engine) : Prop where
  procs : ∀ {pid p}, e.procs[pid]? = some p → ProcLive e pid p
  exits : ∀ {o m}, m ∈ (e.view o).exits → (e.view o).Live m.processName
  jobs : ∀ {o j}, j ∈ (e.view o).jobs → JobLive e o j

theorem presentInv_new (maxProcessNum releaseNum : Bool → ℤ) (users : List ℕ) :
    (new maxProcessNum releaseNum users).PresentInv :=
  ⟨fun h => (by cases h), fun h => (by cases h), fun h => (by cases h)⟩

/-- What a process keeps if a step does not drop its name, adds no message of it and
    keeps the job that closes it. -/
theorem ProcLive.keep (h : ProcLive e pid p) (hor : p'.isOrigProcess = p.isOrigProcess)
    (hname : p'.processName = p.processName) (hlis : p'.listen ≠ none → p.listen ≠ none)
    (hopen : p'.lockedBy ≠ some .closing → p'.processState ≠ .closing →
      p.lockedBy ≠ some .closing ∧ p.processState ≠ .closing)
    (hclosing : p'.lockedBy = some .closing ∨ p'.processState = .closing →
      (p.lockedBy = some .closing ∨ p.processState = .closing) ∧
        (p.launch.mayExit → p'.launch.mayExit))
    (hlive : p.listen ≠ none → p.lockedBy ≠ some .closing → p.processState ≠ .closing →
      (e.view p.isOrigProcess).Live p.processName → (e'.view p.isOrigProcess).Live p.processName)
    (hexits : p.lockedBy = some .closing ∨ p.processState = .closing →
      ∀ {m}, m ∈ (e'.view p.isOrigProcess).exits → (m.processName, pid) ∈ e'.names p.isOrigProcess →
        m ∈ (e.view p.isOrigProcess).exits ∧ (m.processName, pid) ∈ e.names p.isOrigProcess)
    (hjob : (∃ j ∈ (e.view p.isOrigProcess).jobs, j.closingPid = some pid) ∨ pid ∈ e.freed →
      (∃ j ∈ (e'.view p.isOrigProcess).jobs, j.closingPid = some pid) ∨ pid ∈ e'.freed) :
    ProcLive e' pid p' := by
  refine ⟨fun h1 h2 h3 => ?_, fun hc => ?_⟩
  · rw [hor, hname]
    obtain ⟨h4, h5⟩ := hopen h2 h3
    exact hlive (hlis h1) h4 h5 (h.live (hlis h1) h4 h5)
  · rw [hor]
    obtain ⟨hc', hm⟩ := hclosing hc
    obtain ⟨h1, h2, h3⟩ := h.closing hc'
    refine ⟨hm h1, fun hmem hn => ?_, hjob h3⟩
    obtain ⟨h4, h5⟩ := hexits hc' hmem hn
    exact h2 h4 h5

theorem JobLive.keep (h : JobLive e o j)
    (hx : ∀ c, j = .killed c ∨ j = .changed c → ∀ m ∈ (e'.view o).exits,
      m ∈ (e.view o).exits ∨ m.processName ≠ c.oldName)
    (hp : ∀ {pid}, j.closingPid = some pid → ∀ p', e'.procs[pid]? = some p' →
      ∃ p, e.procs[pid]? = some p ∧ p'.processName = p.processName ∧
        (p.processState = .closing → p'.processState = .closing))
    (hc : ∀ {pid p}, j.closingPid = some pid → e.procs[pid]? = some p →
      (e.view o).Live p.processName → (e'.view o).Live p.processName) : JobLive e' o j := by
  cases j with
  | killed c => exact fun m hm => (hx c (Or.inl rfl) m hm).elim (h m) id
  | changed c => exact fun m hm => (hx c (Or.inr rfl) m hm).elim (h m) id
  | closeKilled pid =>
    intro p' hp'
    obtain ⟨p, hpp, hname, -⟩ := hp rfl p' hp'
    rw [hname]
    exact hc rfl hpp (h p hpp)
  | closed pid =>
    intro p' hp'
    obtain ⟨p, hpp, hname, hst⟩ := hp rfl p' hp'
    obtain ⟨hcl, hl⟩ := h p hpp
    rw [hname]
    exact ⟨hst hcl, hc rfl hpp hl⟩
  | _ => trivial

theorem JobLive.congr (h : JobLive e o j) (hx : (e'.view o).exits ⊆ (e.view o).exits)
    (hp : e'.procs = e.procs) (hc : ∀ {n}, (e.view o).Live n → (e'.view o).Live n) :
    JobLive e' o j :=
  h.keep (fun _ _ _ hm => Or.inl (hx hm))
    (fun _ _ hp' => ⟨_, hp ▸ hp', rfl, fun hst => hst⟩) fun _ _ hl => hc hl

/-! ## Steps of a manager -/

/-- A step that changes one view: it drops no name of a process that listens. -/
theorem PresentInv.turned (h : e.PresentInv) (ht : Turned e o v e')
    (hlive : ∀ {pid : ℕ} {p : Process}, e.procs[pid]? = some p → p.isOrigProcess = o →
      p.listen ≠ none → (e.view o).Live p.processName → v.Live p.processName)
    (hexits : ∀ {m}, m ∈ v.exits → m ∈ (e.view o).exits ∧ v.Live m.processName)
    (hjobs : ∀ {j}, j ∈ v.jobs → JobLive e' o j)
    (hclosing : ∀ {j}, j ∈ (e.view o).jobs → j.closingPid ≠ none → j ∈ v.jobs) : e'.PresentInv := by
  have hview : ∀ {n}, (e'.view o).Live n ↔ v.Live n := by
    intro n
    rw [ht.view]
    exact Iff.rfl
  have hex : ∀ {o' m}, m ∈ (e'.view o').exits → m ∈ (e.view o').exits := by
    intro o' m hm
    by_cases ho : o' = o
    · rw [ho, ht.view] at hm
      rw [ho]; exact (hexits hm).1
    · rwa [ht.other ho] at hm
  refine ⟨fun {pid p} hp => ?_, fun {o' m} hm => ?_, fun {o' j} hj => ?_⟩
  · have hp' : e.procs[pid]? = some p := ht.procs ▸ hp
    refine (h.procs hp').keep rfl rfl id (fun h1 h2 => ⟨h1, h2⟩) (fun h1 => ⟨h1, id⟩) ?_ ?_ ?_
    · intro hl _ _ hlv
      by_cases ho : p.isOrigProcess = o
      · rw [ho] at hlv ⊢
        exact hview.2 (hlive hp' ho hl hlv)
      · rwa [ht.other ho]
    · intro _ m hm hn
      exact ⟨hex hm, ht.names ▸ hn⟩
    · rintro (⟨j, hj, hjp⟩ | hf)
      · refine Or.inl ⟨j, ?_, hjp⟩
        by_cases ho : p.isOrigProcess = o
        · rw [ho] at hj ⊢
          rw [ht.view]
          exact hclosing hj (by rw [hjp]; nofun)
        · rwa [ht.other ho]
      · refine Or.inr ?_
        rw [ht.freed]
        exact List.mem_append_left _ hf
  · by_cases ho : o' = o
    · rw [ho] at hm ⊢
      rw [ht.view] at hm
      exact hview.2 (hexits hm).2
    · rw [ht.other ho] at hm ⊢
      exact h.exits hm
  · by_cases ho : o' = o
    · rw [ho] at hj ⊢
      rw [ht.view] at hj
      exact hjobs hj
    · rw [ht.other ho] at hj
      exact (h.jobs hj).congr (fun _ hm => hex hm) ht.procs fun hl => (ht.other ho).symm ▸ hl

theorem jobLive_start (hs : ProcessManager.StartJobs v t jobs) {j : Job} (hj : j ∈ jobs) :
    JobLive e o j := by
  rcases hs j hj with ⟨-, ⟨key, rfl⟩ | ⟨n, pid, key, rfl, -⟩⟩ | ⟨-, n, pid, rfl, -⟩ <;> trivial

/-- Handlers of a manager keep exit messages and processes together. -/
theorem PresentInv.turn (h : e.PresentInv) (hn : e.NameInv) (hx : e.ExitsInv) (ht : Turned e o v e')
    (hc : ProcessManager.TurnCase (e.view o) v) : e'.PresentInv := by
  cases hc with
  | stay hex =>
    have hexits : ∀ {m}, m ∈ exitsOf _ → m ∈ (e.view o).exits := fun hm => hex ▸ hm
    refine h.turned ht (fun _ _ _ hl => hl) (fun hm => ⟨hexits hm, h.exits (hexits hm)⟩) ?_
      fun hj _ => hj
    intro j hj
    refine (h.jobs (o := o) hj).congr (fun m hm => ?_) ht.procs fun hl => ?_
    · rw [ht.view] at hm; exact hexits hm
    · rw [ht.view]; exact hl
  | start hno hex hs =>
    have hexits : ∀ {m}, m ∈ exitsOf _ → m ∈ (e.view o).exits := fun hm => hex ▸ hm
    have hlive : ∀ {n}, (e.view o).Live n → ∃ pid, (e.view o).Cached n pid := by
      rintro n (hl | hl)
      · exact hl
      · rw [hno] at hl; cases hl
    refine h.turned ht (fun _ _ _ hl => Or.inl (hlive hl))
      (fun hm => ⟨hexits hm, Or.inl (hlive (h.exits (hexits hm)))⟩) (fun hj => jobLive_start hs hj)
      fun hj _ => ?_
    rw [hno] at hj; cases hj
  | finish hno =>
    have hlive : ∀ {n}, (e.view o).Live n → ∃ pid, (e.view o).Cached n pid := by
      rintro n (hl | hl)
      · exact hl
      · rw [hno] at hl; cases hl
    refine h.turned ht (fun _ _ _ hl => Or.inl (hlive hl))
      (fun hm => ⟨hm, Or.inl (hlive (h.exits hm))⟩) (fun hj => (by cases hj)) fun hj _ => ?_
    rw [hno] at hj; cases hj
  | @exit msg rest pid htask hev hcd =>
    have hno : (e.view o).jobs = [] := jobs_of_no_task htask
    have hexits : (e.view o).exits = msg :: exitsOf rest := by
      unfold ManagerView.exits
      rw [hev]; rfl
    have hmem := hn.cached hcd
    -- a live name stays live, unless it is that of the message
    have hlive : ∀ {n}, n ≠ msg.processName → (e.view o).Live n →
        ∃ k, ((e.view o).uncache msg.processName).Cached n k := by
      rintro n hne (⟨k, hl⟩ | hl)
      · exact ⟨k, ManagerView.cached_uncache.2 ⟨hne, hl⟩⟩
      · rw [hno] at hl; cases hl
    refine h.turned ht (fun {k p} hp ho hlis hl => Or.inl (hlive ?_ hl))
      (fun {m} hm => ?_) (fun hj => ?_) fun hj _ => ?_
    · intro heq
      have hp' := hn.procs hp
      rw [ho, heq] at hp'
      obtain rfl := hn.unique hp' hmem
      exact hlis (hx.ended (hexits ▸ List.mem_cons_self) hmem hp).2.1
    · have hm' : m ∈ (e.view o).exits := hexits ▸ List.mem_cons_of_mem _ hm
      refine ⟨hm', Or.inl (hlive ?_ (h.exits hm'))⟩
      intro heq
      have honce := hx.once o
      rw [hexits] at honce
      exact (List.pairwise_cons.1 honce).1 m hm pid hmem (heq ▸ hmem)
    · have hj : _ ∈ (e.view o).jobs := hj
      rw [hno] at hj; cases hj
    · rw [hno] at hj; cases hj

/-! ## Steps of a process -/

/-- A step of one process: the managers get at most its exit message, and may move it in
    their caches. -/
structure Local (e : Engine) (pid : ℕ) (p p' : Process) (e' : Engine) : Prop where
  procs : e'.procs = e.procs.set pid p'
  names : e'.names = e.names
  freed : e'.freed = e.freed
  jobs : ∀ o, (e'.view o).jobs = (e.view o).jobs
  live : ∀ {o n}, (e'.view o).Live n ↔ (e.view o).Live n
  exits : ∀ {o m}, m ∈ (e'.view o).exits → m ∈ (e.view o).exits ∨
    (o = p.isOrigProcess ∧ m.processName = p.processName ∧ p.listen ≠ none ∧
      p.lockedBy ≠ some .closing ∧ p.processState ≠ .closing)

/-- A process that keeps its name and its closing state keeps the invariant. -/
theorem PresentInv.local (h : e.PresentInv) (hn : e.NameInv) (hloc : Local e pid p p' e')
    (hp : e.procs[pid]? = some p) (hfr : Process.Frame p p')
    (hlis : p'.listen ≠ none → p.listen ≠ none)
    (hcl : p.processState = .closing → p'.processState = .closing)
    (hcl' : p'.processState = .closing → p.processState = .closing)
    (hmay : p.lockedBy = some .closing ∨ p.processState = .closing → p.launch.mayExit →
      p'.launch.mayExit) : e'.PresentInv := by
  have hmem := hn.procs hp
  have hlt := (List.getElem?_eq_some_iff.1 hp).1
  have hself : e'.procs[pid]? = some p' := by
    rw [hloc.procs]; exact List.getElem?_set_self hlt
  -- a new message belongs to the process itself
  have hown : ∀ {o m k}, m ∈ (e'.view o).exits → (m.processName, k) ∈ e.names o →
      m ∈ (e.view o).exits ∨ (k = pid ∧ p.lockedBy ≠ some .closing ∧ p.processState ≠ .closing) := by
    intro o m k hm hk
    rcases hloc.exits hm with hm | ⟨rfl, hname, -, h1, h2⟩
    · exact Or.inl hm
    · rw [hname] at hk
      exact Or.inr ⟨hn.unique hk hmem, h1, h2⟩
  have hjob : ∀ {o k}, (∃ j ∈ (e.view o).jobs, j.closingPid = some k) ∨ k ∈ e.freed →
      (∃ j ∈ (e'.view o).jobs, j.closingPid = some k) ∨ k ∈ e'.freed := by
    intro o k hk
    rwa [hloc.jobs, hloc.freed]
  refine ⟨fun {k q} hq => ?_, fun {o m} hm => ?_, fun {o j} hj => ?_⟩
  · rw [hloc.procs] at hq
    rcases getElem?_set_some hq with ⟨rfl, rfl⟩ | ⟨hne, hq⟩
    · refine (h.procs hp).keep hfr.isOrigProcess hfr.processName hlis ?_ ?_
        (fun _ _ _ hl => hloc.live.2 hl) ?_ hjob
      · rw [hfr.lockedBy]
        exact fun h1 h2 => ⟨h1, fun h3 => h2 (hcl h3)⟩
      · rw [hfr.lockedBy]
        intro hc
        have hc' := hc.imp id hcl'
        exact ⟨hc', hmay hc'⟩
      · intro hc m hm hk
        rw [hloc.names] at hk
        rcases hown hm hk with hm | ⟨-, h1, h2⟩
        · exact ⟨hm, hk⟩
        · exact (hc.elim h1 h2).elim
    · refine (h.procs hq).keep rfl rfl id (fun h1 h2 => ⟨h1, h2⟩) (fun hc => ⟨hc, id⟩)
        (fun _ _ _ hl => hloc.live.2 hl) ?_ hjob
      intro _ m hm hk
      rw [hloc.names] at hk
      rcases hown hm hk with hm | ⟨rfl, -⟩
      · exact ⟨hm, hk⟩
      · exact absurd rfl hne
  · refine hloc.live.2 ?_
    rcases hloc.exits hm with hm | ⟨rfl, hname, h1, h2, h3⟩
    · exact h.exits hm
    · rw [hname]
      exact (h.procs hp).live h1 h2 h3
  · rw [hloc.jobs] at hj
    have hok := (hn.jobs o).ok j hj
    refine (h.jobs hj).keep ?_ ?_ fun _ _ hl => hloc.live.2 hl
    · intro c hjc m hm
      rcases hloc.exits hm with hm | ⟨rfl, hname, -⟩
      · exact Or.inl hm
      · refine Or.inr fun heq => ?_
        -- the process of the job has its new name
        have hjok : (c.oldName, c.pid) ∈ e.names p.isOrigProcess ∧ c.oldName ≠ c.newName ∧
            HasProc e.procs p.isOrigProcess c.pid fun q => q.processName = c.newName := by
          rcases hjc with rfl | rfl
          · obtain ⟨h1, -, h2, q, hq, ho, hqn, -⟩ := hok
            exact ⟨h1, h2, q, hq, ho, hqn⟩
          · obtain ⟨h1, -, h2, q, hq, ho, hqn, -⟩ := hok
            exact ⟨h1, h2, q, hq, ho, hqn⟩
        obtain ⟨hold, hne, q, hq, -, hqn⟩ := hjok
        rw [← hname, heq] at hmem
        obtain rfl := hn.unique hold hmem
        obtain rfl := Option.some.inj (hp.symm.trans hq)
        exact hne (heq.symm.trans (hname.trans hqn))
    · intro k _ q' hq'
      rw [hloc.procs] at hq'
      rcases getElem?_set_some hq' with ⟨rfl, rfl⟩ | ⟨-, hq⟩
      · exact ⟨p, hp, hfr.processName, hcl⟩
      · exact ⟨q', hq, rfl, fun hst => hst⟩

/-- A step of a process keeps the invariant, under the condition on exits. -/
theorem PresentInv.proc {a a' : Process.Action} (h : e.PresentInv) (hn : e.NameInv)
    (hf : e.FreedInv) (hl : Process.ListenInv p) (hp : e.procs[pid]? = some p)
    (hc : ProcCall e pid p a a' e₁) (hs : Process.ProcStep p a' p' outs)
    (hok : ExitOk e (.proc pid a)) :
    ((e₁.setProc pid p').putExits p'.isOrigProcess outs).PresentInv := by
  obtain ⟨hprocs, hnames, ha⟩ := hc.same
  have hfr := hs.frame ha
  have hexit : ∀ next cfv, a' = .exit next cfv → p.lockedBy ≠ some .closing := by
    rintro next cfv rfl
    obtain rfl : a = .exit next cfv := by cases hc; rfl
    exact hok rfl p hp
  have hset : ∀ sid, a' ≠ .setStream sid := by
    rintro sid rfl
    cases hc with
    | alone ha => exact ha
  have hcl : p.processState = .closing → p'.processState = .closing := by
    intro hst
    rcases hs.closing hl ha hset hst with hst' | ⟨tx, rfl⟩
    · exact hst'
    · -- the manager has released the process, so it does not take it back
      exfalso
      have htx : (e.view p.isOrigProcess).task = none ∧
          ∃ k, (e.view p.isOrigProcess).Cached p.processName k := by
        rcases hc.turned with ⟨-, -, -, hno⟩ | ⟨htask, v', -, -, hcd⟩
        · cases hc with
          | alone ha => exact ha.elim
          | toBusy ht hpm =>
            obtain ⟨_, _, k, -, hget, -⟩ := ProcessManager.view_changeProcessState hpm
            exact ⟨ht, k, Or.inl hget⟩
        · exact ⟨htask, hcd⟩
      obtain ⟨htask, k, hk⟩ := htx
      rcases ((h.procs hp).closing (Or.inr hst)).2.2 with ⟨j, hj, -⟩ | hfreed
      · rw [jobs_of_no_task htask] at hj; cases hj
      · obtain ⟨q, hq, hd⟩ := hf.done hfreed
        obtain rfl := Option.some.inj (hp.symm.trans hq)
        exact hd.name (Or.inl ⟨k, hk⟩)
  have hloc : Local e pid p p' ((e₁.setProc pid p').putExits p'.isOrigProcess outs) := by
    refine ⟨congrArg (List.set · pid p') hprocs, hnames, (hc.freed_eq hn).1, fun o => ?_,
      live_putExits.trans hc.live, fun {o m} hm => ?_⟩
    · refine Eq.trans ?_ (hc.jobs_eq o)
      by_cases ho : o = p'.isOrigProcess
      · rw [ho, view_putExits]; rfl
      · rw [view_putExits_of_ne _ ho]; rfl
    · cases exits_proc (o := o) hp hc hs with
      | sub hsub => exact Or.inl (hsub.subset hm)
      | @report k q _ next cfv err hpa hq ho hla hli hkind _ _ _ _ hexits =>
        obtain ⟨rfl, rfl⟩ := Action.proc.inj hpa
        obtain rfl := Option.some.inj (hp.symm.trans hq)
        rw [hexits] at hm
        rcases List.mem_append.1 hm with hm | hm
        · exact Or.inl hm
        · rw [List.mem_singleton.1 hm]
          have hlock := hok rfl p hp
          refine Or.inr ⟨ho.symm, rfl, Option.isSome_iff_ne_none.1 hli, hlock, fun hst => ?_⟩
          have hmay := ((h.procs hp).closing (Or.inr hst)).1
          rw [hla] at hmay
          exact hkind hmay hst
  refine h.local hn hloc hp hfr (fun h1 h2 => h1 (hs.listen_none h2)) hcl (hs.of_closing ha) ?_
  rintro (hlock | hst) hmay
  · exact hs.mayExit hmay (Or.inl fun next cfv hx => hexit next cfv hx hlock)
  · exact hs.mayExit hmay (Or.inr hst)

/-- A message of a sandbox keeps the invariant. -/
theorem PresentInv.message {a : Process.Action} (h : e.PresentInv) (hn : e.NameInv)
    (hp : e.procs[pid]? = some p) (hs : Process.ProcStep p a p' []) (ha : a.OfManager = false)
    (hexit : ∀ next cfv, a ≠ .exit next cfv)
    (hcl : p.processState = .closing → p'.processState = .closing) :
    (e.setProc pid p').PresentInv := by
  have hloc : Local e pid p p' (e.setProc pid p') :=
    ⟨rfl, rfl, rfl, fun _ => rfl, Iff.rfl, fun hm => Or.inl hm⟩
  exact h.local hn hloc hp (hs.frame ha) (fun h1 h2 => h1 (hs.listen_none h2)) hcl
    (hs.of_closing ha) fun _ hmay => hs.mayExit hmay (Or.inl hexit)

end Engine

end VmEngine
