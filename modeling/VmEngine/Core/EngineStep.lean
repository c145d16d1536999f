/-
  What a step of the engine does.

  `CallCase` lists the calls that the jobs of a manager make, `ProcCall` those of a
  process, and `EngStep` puts them together with the steps of managers and processes;
  `act_step` shows that every step of the engine is one of these.
-/
import VmEngine.Lib.Indexed
import VmEngine.Core.Engine
import VmEngine.Core.ManagerView

namespace VmEngine

namespace Engine
variable {cfg : ProcessConfig} {e e' : Engine} {o : Bool} {outs : List ProcessOut}

variable {a : Action} {ev : ProcessManager.JobEvent} {j : Job} {ok sigOk : Bool} {p : Process}
  {pid : ℕ}

theorem setProc_self (h : e.procs[pid]? = some p) : e.setProc pid p = e := by
  obtain ⟨hpid, rfl⟩ := List.getElem?_eq_some_iff.1 h
  unfold setProc
  rw [List.set_getElem_self]

/-! ## Calls of a job -/

/-- A job that makes no call. -/
inductive Plain : Job → ProcessManager.JobEvent → Prop
  | create {key : RequestGroupKey} : Plain (.create key) .nameNew
  | createFail {key : RequestGroupKey} {name : String} : Plain (.named key name) .createFail
  | made {key : RequestGroupKey} {name : String} {pid : ℕ} : Plain (.made key name pid) .cacheNew
  | changed {c : Change} : Plain (.changed c) .recache

/-- The process of a change after `resetContext` and `killProcess`. -/
def renamed (p : Process) (c : Change) (w : Option Window) : Process :=
  { (p.resetContext c.key c.newName true).1.killed with lockedBy := w }

/-- The call of a job: what it finds, what it returns, and the engine after it. -/
inductive CallCase (e : Engine) (o : Bool) :
    Bool → Job → ProcessManager.JobEvent → Engine → Prop
  | plain {ok : Bool} {j : Job} {ev : ProcessManager.JobEvent} : Plain j ev → CallCase e o ok j ev e
  | create {key : RequestGroupKey} {name : String} {user : ℕ} {users : List ℕ} :
      e.users = user :: users →
      CallCase e o true (.named key name) (.createOk e.procs.length)
        ({ e with users := users, procs := e.procs ++ [Process.new user key name o] }.logName o name
          e.procs.length)
  | nameChange {ok : Bool} {pid : ℕ} {key : RequestGroupKey} {p : Process} : e.procs[pid]? = some p →
      CallCase e o ok (.change pid key) (.nameChange p.key p.processName) e
  | refused {ok : Bool} {c : Change} {p : Process} : e.procs[c.pid]? = some p → p.processState ≠ .idle →
      CallCase e o ok (.renamed c) .changeFail e
  /-- the signal fails after the context was reset -/
  | lost {c : Change} {p : Process} : e.procs[c.pid]? = some p → p.processState = .idle →
      p.lockedBy = none → p.cmdReadyCh = true →
      CallCase e o false (.renamed c) .changeFail
        ((e.setProc c.pid (renamed p c none)).logName o c.newName c.pid)
  | killed {c : Change} {p : Process} : e.procs[c.pid]? = some p → p.processState = .idle →
      p.lockedBy = none → p.cmdReadyCh = true → e.Signalable p = true →
      CallCase e o true (.renamed c) .changeKill
        ((e.setProc c.pid (renamed p c (some .changing))).logName o c.newName c.pid)
  | leaveChange {ok : Bool} {c : Change} {p : Process} {u b : Bool} {t : Timer} :
      e.procs[c.pid]? = some p → p.lockedBy = some .changing →
      CallCase e o ok (.killed c) .changeDone
        (e.setProc c.pid { p with
          processState := .changing, lockedBy := none, updateCh := u, timer := t, timerPopped := b })
  | refusedClose {ok : Bool} {pid : ℕ} {p : Process} : e.procs[pid]? = some p → p.processState ≠ .idle →
      CallCase e o ok (.close pid) .closeFail e
  | closeLost {pid : ℕ} {p : Process} : e.procs[pid]? = some p → p.processState = .idle →
      p.lockedBy = none → p.cmdReadyCh = true →
      CallCase e o false (.close pid) .closeFail (e.setProc pid { p.killed with lockedBy := none })
  | closeKilled {pid : ℕ} {p : Process} : e.procs[pid]? = some p → p.processState = .idle →
      p.lockedBy = none → p.cmdReadyCh = true → e.Signalable p = true →
      CallCase e o true (.close pid) .closeKill
        (e.setProc pid { p.killed with lockedBy := some .closing })
  | leaveClose {ok : Bool} {pid : ℕ} {p : Process} {u b : Bool} {t : Timer} : e.procs[pid]? = some p →
      p.lockedBy = some .closing →
      CallCase e o ok (.closeKilled pid) .closeDone
        (e.setProc pid { p with
          processState := .closing, lockedBy := none, updateCh := u, timer := t, timerPopped := b })
  | release {ok : Bool} {pid : ℕ} {p : Process} : e.procs[pid]? = some p →
      CallCase e o ok (.closed pid) (.release p.key p.processName) e

/-- A signal that may succeed does. -/
theorem sigOk_false (hsig : ¬ (sigOk && !e.Signalable p) = true)
    (hok : false = true ↔ sigOk = true ∧ ∃ c sid, p.cmd = some c ∧ c.sandbox = some sid) :
    sigOk = false := by
  cases sigOk with
  | false => rfl
  | true =>
    have hs : e.Signalable p = true := by simpa using hsig
    obtain ⟨sb, hsb, -⟩ := (Option.any_eq_true _ _).1 hs
    obtain ⟨sid, hsid, -⟩ := Option.bind_eq_some_iff.1 hsb
    obtain ⟨c, hc, hcs⟩ := Option.bind_eq_some_iff.1 hsid
    cases hok.2 ⟨rfl, c, sid, hc, hcs⟩

theorem changeSandbox_case {c : Change} (h : e.changeSandbox o c sigOk = .ok (e', ok)) :
    CallCase e o sigOk (.renamed c) (if ok then .changeKill else .changeFail) e' := by
  unfold changeSandbox at h
  split at h
  · cases h
  · rename_i p hp
    by_cases hsig : (sigOk && !e.Signalable p) = true
    · rw [if_pos hsig] at h; cases h
    rw [if_neg hsig] at h
    obtain ⟨⟨p', ok'⟩, h₁, h₂⟩ := Go.bind_eq_ok.1 h
    obtain ⟨he, rfl⟩ := Prod.mk.inj (Except.ok.inj h₂)
    rcases Process.changeSandbox_cases h₁ with ⟨hst, rfl, rfl⟩ | ⟨-, -, hf, -, -⟩ |
      ⟨hst, hlock, -, htok, hok, rfl⟩
    · rw [if_neg hst, setProc_self hp] at he
      exact he ▸ .refused hp hst
    · cases hf
    · rw [if_pos hst] at he
      cases ok' with
      | false =>
        obtain rfl := sigOk_false hsig hok
        exact he ▸ .lost hp hst hlock htok
      | true =>
        obtain ⟨rfl, -⟩ := hok.1 rfl
        exact he ▸ .killed hp hst hlock htok (by simpa using hsig)

theorem closeSandbox_case (h : e.closeSandbox pid sigOk = .ok (e', ok)) :
    CallCase e o sigOk (.close pid) (if ok then .closeKill else .closeFail) e' := by
  unfold closeSandbox at h
  split at h
  · cases h
  · rename_i p hp
    split_ifs at h with hsig
    obtain ⟨⟨p', ok'⟩, h₁, h₂⟩ := Go.bind_eq_ok.1 h
    obtain ⟨rfl, rfl⟩ := Prod.mk.inj (Except.ok.inj h₂)
    rcases Process.closeSandbox_cases h₁ with ⟨hst, rfl, rfl⟩ | ⟨hst, hlock, htok, hok, rfl⟩
    · rw [setProc_self hp]
      exact .refusedClose hp hst
    · cases ok' with
      | false =>
        obtain rfl := sigOk_false hsig hok
        exact .closeLost hp hst hlock htok
      | true =>
        obtain ⟨rfl, -⟩ := hok.1 rfl
        exact .closeKilled hp hst hlock htok (by simpa using hsig)

theorem leaveWindow_eq {w : Window} (h : e.leaveWindow pid w = .ok e') :
    ∃ p, e.procs[pid]? = some p ∧ p.lockedBy = some w ∧ ∃ u t b, e' = e.setProc pid
      { p with
        processState := (match w with | .changing => .changing | .closing => .closing),
        lockedBy := none, updateCh := u, timer := t, timerPopped := b } := by
  unfold leaveWindow at h
  split at h
  · cases h
  · rename_i p hp
    obtain ⟨p', h₁, h₂⟩ := Go.bind_eq_ok.1 h
    obtain ⟨hw, u, t, b, rfl⟩ := Process.leaveWindow_eq h₁
    exact ⟨p, hp, hw, u, t, b, (Except.ok.inj h₂).symm⟩

theorem callJob_case (h : e.callJob o ok j = .ok (e', ev)) : CallCase e o ok j ev e' := by
  cases j with
  | create key => cases h; exact .plain .create
  | named key name =>
    simp only [callJob] at h
    split_ifs at h with hok
    · subst hok
      obtain ⟨⟨e₁, pid⟩, h₁, h₂⟩ := Go.bind_eq_ok.1 h
      cases h₂
      unfold createNewProcess at h₁
      split at h₁
      · cases h₁
      · rename_i user users hu
        cases h₁
        exact .create hu
    · cases h; exact .plain .createFail
  | made key name pid => cases h; exact .plain .made
  | change pid key =>
    simp only [callJob] at h
    split at h
    · cases h
    · rename_i p hp
      cases h
      exact .nameChange hp
  | renamed c =>
    obtain ⟨⟨e₁, ok'⟩, h₁, h₂⟩ := Go.bind_eq_ok.1 h
    obtain ⟨rfl, rfl⟩ := Prod.mk.inj (Except.ok.inj h₂)
    exact changeSandbox_case h₁
  | killed c =>
    obtain ⟨e₁, h₁, h₂⟩ := Go.bind_eq_ok.1 h
    obtain ⟨p, hp, hw, u, t, b, rfl⟩ := leaveWindow_eq h₁
    cases h₂
    exact .leaveChange hp hw
  | changed c => cases h; exact .plain .changed
  | close pid =>
    obtain ⟨⟨e₁, ok'⟩, h₁, h₂⟩ := Go.bind_eq_ok.1 h
    obtain ⟨rfl, rfl⟩ := Prod.mk.inj (Except.ok.inj h₂)
    exact closeSandbox_case h₁
  | closeKilled pid =>
    obtain ⟨e₁, h₁, h₂⟩ := Go.bind_eq_ok.1 h
    obtain ⟨p, hp, hw, u, t, b, rfl⟩ := leaveWindow_eq h₁
    cases h₂
    exact .leaveClose hp hw
  | closed pid =>
    simp only [callJob] at h
    split at h
    · cases h
    · rename_i p hp
      cases h
      exact .release hp

/-! ## Calls of a process -/

/-- A step of a process that needs nothing from the others. -/
def Alone : Process.Action → Prop
  | .loopHead | .wake | .txResp _ | .exit _ _ | .launchProcess (.pipeError _)
  | .launchProcess (.startError _ _) | .sendReady | .cgroupError _ | .expire | .pop => True
  | _ => False

/-- What a process gets from the others for a step: the answer of the manager, the
    number of a new sandbox, the exit of the sandbox. -/
inductive ProcCall (e : Engine) (pid : ℕ) (p : Process) :
    Process.Action → Process.Action → Engine → Prop
  | alone {a : Process.Action} : Alone a → ProcCall e pid p a a e
  | txReq {tx : DockerVMMessage} {el : ℕ} {sendOk : Bool} {q : String} {r : TxRequest} :
      p.listen = some (.ready q) → tx.request = some r → r.key.groupKey = q →
      ProcCall e pid p (.txReq tx el sendOk) (.txReq tx el sendOk) e
  /-- a timeout that the manager does not hear of, or does not accept -/
  | tick {pmOk sigOk : Bool} : ProcCall e pid p (.tick pmOk sigOk) (.tick false sigOk) e
  | idleTxReq {tx : DockerVMMessage} {pmOk : Bool} :
      ProcCall e pid p (.idleTxReq tx pmOk) (.idleTxReq tx false) e
  /-- the manager moves the process between its idle and busy ones -/
  | toIdle {pmOk sigOk : Bool} {pm : ProcessManager} : p.processState = .ready →
      (e.mgr p.isOrigProcess).task = none →
      (e.mgr p.isOrigProcess).changeProcessState found p.processName false p.key = some pm →
      ProcCall e pid p (.tick pmOk sigOk) (.tick true sigOk) (e.settle p.isOrigProcess pm)
  | toBusy {tx : DockerVMMessage} {pmOk : Bool} {pm : ProcessManager} :
      (e.mgr p.isOrigProcess).task = none →
      (e.mgr p.isOrigProcess).changeProcessState found p.processName true p.key = some pm →
      ProcCall e pid p (.idleTxReq tx pmOk) (.idleTxReq tx true) (e.settle p.isOrigProcess pm)
  | launch {sid : ℕ} :
      ProcCall e pid p (.launchProcess (.started sid)) (.launchProcess (.started e.sandboxes.length))
        { e with sandboxes := e.sandboxes ++
          [⟨pid, p.processName, p.key, p.user, true, false, none⟩] }
  | wait {err : Option (String × Option ℤ)} {sid : ℕ} {sb : Sandbox} : p.launch = .running sid →
      e.sandboxes[sid]? = some sb → sb.alive = false →
      ProcCall e pid p (.wait err) (.wait err) (e.setSandbox sid { sb with waited := true })

theorem changeProcessState_case {toBusy : Bool} (h : e.changeProcessState p toBusy = .ok (e', ok)) :
    (ok = false ∧ e' = e) ∨ (ok = true ∧ (e.mgr p.isOrigProcess).task = none ∧ ∃ pm,
      (e.mgr p.isOrigProcess).changeProcessState found p.processName toBusy p.key = some pm ∧
        e' = e.settle p.isOrigProcess pm) := by
  unfold changeProcessState at h
  dsimp only at h
  split_ifs at h with ht
  rw [Option.not_isSome_iff_eq_none] at ht
  split at h
  · cases h; exact Or.inl ⟨rfl, rfl⟩
  · rename_i pm hpm
    cases h
    exact Or.inr ⟨rfl, ht, pm, hpm, rfl⟩

theorem callProc_case {a a' : Process.Action} (h : e.callProc pid p a = .ok (e', a')) :
    ProcCall e pid p a a' e' := by
  cases a with
  | loopHead | wake | txResp _ | exit _ _ | sendReady | cgroupError _ | expire | pop =>
    cases h; exact .alone trivial
  | putMsg _ | setStream _ | changeSandbox _ _ _ _ | closeSandbox _ | leaveWindow _ => cases h
  | txReq tx el sendOk =>
    simp only [callProc] at h
    split at h
    · rename_i q r hq hr
      split_ifs at h with hkey
      cases h
      exact .txReq hq hr hkey
    · cases h
  | idleTxReq tx pmOk =>
    obtain ⟨⟨e₁, ok⟩, h₁, h₂⟩ := Go.bind_eq_ok.1 h
    cases h₂
    rcases changeProcessState_case h₁ with ⟨rfl, rfl⟩ | ⟨rfl, ht, pm, hpm, rfl⟩
    · exact .idleTxReq
    · exact .toBusy ht hpm
  | tick pmOk sigOk =>
    simp only [callProc] at h
    split_ifs at h with hst
    · obtain ⟨⟨e₁, ok⟩, h₁, h₂⟩ := Go.bind_eq_ok.1 h
      cases h₂
      rcases changeProcessState_case h₁ with ⟨rfl, rfl⟩ | ⟨rfl, ht, pm, hpm, rfl⟩
      · exact .tick
      · exact .toIdle hst ht hpm
    · cases h; exact .tick
  | launchProcess out =>
    cases out with
    | pipeError err => cases h; exact .alone trivial
    | startError notExist cfv => cases h; exact .alone trivial
    | started sid => cases h; exact .launch
  | wait err =>
    simp only [callProc] at h
    split at h
    · rename_i sid hl
      split at h
      · cases h
      · rename_i sb hsb
        split_ifs at h with halive
        cases h
        exact .wait hl hsb (by simpa using halive)
    · cases h

/-! ## Steps -/

/-- The effects of the actions of the engine. -/
inductive EngStep (e : Engine) : Action → Engine → List ProcessOut → Prop
  | request {o : Bool} {msg : GetProcessReqMsg} : EngStep e (.request o msg)
      (e.setMgr o { e.mgr o with eventCh := (e.mgr o).eventCh ++ [.getProcessReq msg] }) []
  | turn {o : Bool} {a : ProcessManager.Action} {pm : ProcessManager} :
      ProcessManager.TurnCase (e.mgr o).view pm.view → EngStep e (.manager o a) (e.settle o pm) []
  | job {o ok : Bool} {i : ℕ} {t : Task} {jobs : List Job} {j : Job}
      {ev : ProcessManager.JobEvent} {e₁ : Engine} {pm : ProcessManager} :
      (e.mgr o).task = some (t, jobs) → jobs[i]? = some j → CallCase e o ok j ev e₁ →
      ProcessManager.JobCase (e.mgr o).view t jobs i j ev pm.view →
      EngStep e (.job o i ok) (e₁.settle o pm) []
  | proc {pid : ℕ} {p p' : Process} {a a' : Process.Action} {e₁ : Engine}
      {outs : List ProcessOut} : e.procs[pid]? = some p → ProcCall e pid p a a' e₁ →
      Process.ProcStep p a' p' outs →
      EngStep e (.proc pid a) ((e₁.setProc pid p').putExits p'.isOrigProcess outs) outs
  | connect {sid pid : ℕ} {sb : Sandbox} : e.sandboxes[sid]? = some sb →
      EngStep e (.connect sid) (e.setSandbox sid { sb with conn := some pid }) []
  | register {sid pid : ℕ} {sb : Sandbox} {p p' : Process} : e.sandboxes[sid]? = some sb →
      sb.conn = some pid → e.procs[pid]? = some p → Process.ProcStep p (.setStream sid) p' [] →
      EngStep e (.register sid) (e.setProc pid p') []
  | respond {sid pid : ℕ} {msg : DockerVMMessage} {sb : Sandbox} {p p' : Process} :
      e.sandboxes[sid]? = some sb → sb.conn = some pid → e.procs[pid]? = some p →
      Process.ProcStep p (.putMsg msg) p' [] → EngStep e (.respond sid msg) (e.setProc pid p') []
  | exit {sid : ℕ} {sb : Sandbox} : e.sandboxes[sid]? = some sb →
      EngStep e (.exit sid) (e.setSandbox sid { sb with alive := false }) []

/-- The calls of a job leave the managers alone. -/
theorem CallCase.mgr (h : CallCase e o ok j ev e') : e'.mgr = e.mgr := by
  cases h <;> rfl

theorem CallCase.sandboxes (h : CallCase e o ok j ev e') : e'.sandboxes = e.sandboxes := by
  cases h <;> rfl

theorem deliver_case {sid : ℕ} {f : Process → Go Process} (h : e.deliver sid f = .ok e') :
    ∃ sb pid p p', e.sandboxes[sid]? = some sb ∧ sb.conn = some pid ∧ e.procs[pid]? = some p ∧
      f p = .ok p' ∧ e' = e.setProc pid p' := by
  unfold deliver at h
  split at h
  · cases h
  · rename_i pid hconn
    obtain ⟨sb, hsb, hpid⟩ := Option.bind_eq_some_iff.1 hconn
    split at h
    · cases h
    · rename_i p hp
      obtain ⟨p', hf, h₁⟩ := Go.bind_eq_ok.1 h
      exact ⟨sb, pid, p, p', hsb, hpid, hp, hf, (Except.ok.inj h₁).symm⟩

theorem found_all (s : String) : found s = true := rfl

/-- A turn of a manager. -/
theorem act_manager {a : ProcessManager.Action} (h : act cfg e (.manager o a) = .ok (e', outs)) :
    ∃ pm, a.IsTurn = true ∧ (e.mgr o).act found a = .ok pm ∧ e' = e.settle o pm ∧ outs = [] := by
  simp only [act] at h
  split_ifs at h with ha
  obtain ⟨pm, h₁, h₂⟩ := Go.bind_eq_ok.1 h
  cases h₂
  exact ⟨pm, ha, h₁, rfl, rfl⟩

/-- A step of a job: the call that it makes, and the step of the manager. -/
theorem act_job {i : ℕ} (h : act cfg e (.job o i ok) = .ok (e', outs)) :
    ∃ t jobs j ev e₁ pm, (e.mgr o).task = some (t, jobs) ∧ jobs[i]? = some j ∧
      e.callJob o ok j = .ok (e₁, ev) ∧ (e.mgr o).stepJob found i ev = .ok pm ∧
      ProcessManager.JobCase (e.mgr o).view t jobs i j ev pm.view ∧ e' = e₁.settle o pm ∧
      outs = [] := by
  obtain ⟨e₂, h₁, h₂⟩ := Go.bind_eq_ok.1 h
  cases h₂
  unfold stepJob at h₁
  split at h₁
  · cases h₁
  · rename_i j hj
    obtain ⟨⟨e₁, ev⟩, hc, h₃⟩ := Go.bind_eq_ok.1 h₁
    obtain ⟨pm, hpm, h₄⟩ := Go.bind_eq_ok.1 h₃
    cases h₄
    rw [show e₁.mgr = e.mgr from (callJob_case hc).mgr] at hpm
    obtain ⟨t, jobs, j', ht, hj', hcase⟩ := ProcessManager.stepJob_case found_all hpm
    rw [ht] at hj
    obtain rfl : j' = j := Option.some.inj (hj'.symm.trans hj)
    exact ⟨t, jobs, j', ev, e₁, pm, ht, hj', hc, hpm, hcase, rfl, rfl⟩

/-- Every step of the engine is one of `EngStep`. -/
theorem act_step (h : act cfg e a = .ok (e', outs)) : EngStep e a e' outs := by
  cases a with
  | request o msg => cases h; exact .request
  | manager o a =>
    obtain ⟨pm, ha, hpm, rfl, rfl⟩ := act_manager h
    exact .turn (ProcessManager.turn_case ha hpm)
  | job o i ok =>
    obtain ⟨t, jobs, j, ev, e₁, pm, ht, hj, hc, -, hcase, rfl, rfl⟩ := act_job h
    exact .job ht hj (callJob_case hc) hcase
  | proc pid a =>
    simp only [act, stepProc] at h
    split at h
    · cases h
    · rename_i p hp
      obtain ⟨⟨e₁, a'⟩, hc, h₁⟩ := Go.bind_eq_ok.1 h
      obtain ⟨⟨p', outs'⟩, hact, h₂⟩ := Go.bind_eq_ok.1 h₁
      obtain ⟨rfl, rfl⟩ := Prod.mk.inj (Except.ok.inj h₂)
      exact .proc hp (callProc_case hc) (Process.act_step hact)
  | connect sid =>
    obtain ⟨e₁, h₁, h₂⟩ := Go.bind_eq_ok.1 h
    obtain ⟨rfl, rfl⟩ := Prod.mk.inj (Except.ok.inj h₂)
    unfold connect at h₁
    split at h₁
    · cases h₁
    · rename_i sb hsb
      split_ifs at h₁
      obtain ⟨pid, -, h₃⟩ := Go.bind_eq_ok.1 h₁
      obtain rfl := Except.ok.inj h₃
      exact .connect hsb
  | register sid =>
    obtain ⟨e₁, h₁, h₂⟩ := Go.bind_eq_ok.1 h
    obtain ⟨rfl, rfl⟩ := Prod.mk.inj (Except.ok.inj h₂)
    obtain ⟨sb, pid, p, p', hsb, hconn, hp, hf, rfl⟩ := deliver_case h₁
    obtain ⟨hlock, u, t, b, rfl⟩ := Process.setStream_eq hf
    exact .register hsb hconn hp (.setStream hlock)
  | respond sid msg =>
    obtain ⟨e₁, h₁, h₂⟩ := Go.bind_eq_ok.1 h
    obtain ⟨rfl, rfl⟩ := Prod.mk.inj (Except.ok.inj h₂)
    obtain ⟨sb, pid, p, p', hsb, hconn, hp, hf, rfl⟩ := deliver_case h₁
    unfold putMsg at hf
    split_ifs at hf with hresp
    cases hf
    exact .respond hsb hconn hp (.putMsg (Option.not_isSome_iff_eq_none.1 hresp))
  | exit sid =>
    simp only [act] at h
    split at h
    · cases h
    · rename_i sb hsb
      cases h
      exact .exit hsb

theorem step_eq_some (h : step cfg e a = some e') : ∃ outs, act cfg e a = .ok (e', outs) := by
  obtain ⟨⟨_, outs⟩, hact, rfl⟩ := Option.map_eq_some_iff.1 h
  exact ⟨outs, Go.toOption_eq_some.1 hact⟩

/-! ## Processes -/

/-- The process that the stream of the sandbox is connected to. -/
def connected (e : Engine) (sid : ℕ) : Option Process :=
  (e.sandboxes[sid]?.bind (·.conn)).bind (e.procs[·]?)

theorem connected_eq {sid : ℕ} {sb : Sandbox} (hsb : e.sandboxes[sid]? = some sb)
    (hconn : sb.conn = some pid) : e.connected sid = e.procs[pid]? := by
  unfold connected
  rw [hsb]
  simp only [Option.bind_some, hconn]

/-- The call of a job makes at most one process take a step. -/
theorem CallCase.procs (h : CallCase e o ok j ev e') :
    e'.procs = e.procs ∨ (∃ user key name, e'.procs = e.procs ++ [Process.new user key name o]) ∨
      ∃ (pid : ℕ) (p p' : Process) (a : Process.Action), e.procs[pid]? = some p ∧
        e'.procs = e.procs.set pid p' ∧ a.OfManager = true ∧ Process.ProcStep p a p' [] := by
  have hcmd : ∀ {p : Process}, e.Signalable p = true →
      ∃ c sid, p.cmd = some c ∧ c.sandbox = some sid := by
    intro p hs
    obtain ⟨sb, hsb, -⟩ := (Option.any_eq_true _ _).1 hs
    obtain ⟨sid, hsid, -⟩ := Option.bind_eq_some_iff.1 hsb
    obtain ⟨c, hc, hcs⟩ := Option.bind_eq_some_iff.1 hsid
    exact ⟨c, sid, hc, hcs⟩
  cases h with
  | plain _ | nameChange _ | refused _ _ | refusedClose _ _ | release _ => exact Or.inl rfl
  | create _ => exact Or.inr (Or.inl ⟨_, _, _, rfl⟩)
  | @lost c p hp hst hlock htok =>
    have hs : Process.ProcStep p (.changeSandbox c.key c.newName true false) (renamed p c none) [] :=
      @Process.ProcStep.changeSandbox p _ _ _ false hst hlock htok nofun
    exact Or.inr (Or.inr ⟨_, _, _, _, hp, rfl, rfl, hs⟩)
  | @killed c p hp hst hlock htok hsig =>
    have hs : Process.ProcStep p (.changeSandbox c.key c.newName true true)
        (renamed p c (some .changing)) [] :=
      @Process.ProcStep.changeSandbox p _ _ _ true hst hlock htok fun _ => ⟨rfl, hcmd hsig⟩
    exact Or.inr (Or.inr ⟨_, _, _, _, hp, rfl, rfl, hs⟩)
  | leaveChange hp hw => exact Or.inr (Or.inr ⟨_, _, _, _, hp, rfl, rfl, .leaveWindow hw⟩)
  | @closeLost pid p hp hst hlock htok =>
    have hs : Process.ProcStep p (.closeSandbox false) { p.killed with lockedBy := none } [] :=
      @Process.ProcStep.closeSandbox p _ false hst hlock htok nofun
    exact Or.inr (Or.inr ⟨_, _, _, _, hp, rfl, rfl, hs⟩)
  | @closeKilled pid p hp hst hlock htok hsig =>
    have hs : Process.ProcStep p (.closeSandbox true)
        { p.killed with lockedBy := some .closing } [] :=
      @Process.ProcStep.closeSandbox p _ true hst hlock htok fun _ => ⟨rfl, hcmd hsig⟩
    exact Or.inr (Or.inr ⟨_, _, _, _, hp, rfl, rfl, hs⟩)
  | leaveClose hp hw => exact Or.inr (Or.inr ⟨_, _, _, _, hp, rfl, rfl, .leaveWindow hw⟩)

/-- What every process keeps by its own steps, it keeps in the engine. -/
theorem EngStep.forall_procs {I : Process → Prop} (hs : EngStep e a e' outs)
    (hnew : ∀ user key name o, I (Process.new user key name o))
    (hstep : ∀ {p a p' outs}, I p → Process.ProcStep p a p' outs → I p')
    (h : ∀ {pid : ℕ} {p}, e.procs[pid]? = some p → I p) (hp : e'.procs[pid]? = some p) : I p := by
  have hset : ∀ {k : ℕ} {q q' a outs}, e.procs[k]? = some q → Process.ProcStep q a q' outs →
      e'.procs = e.procs.set k q' → I p := by
    intro k q q' a outs hq hs he
    rw [he] at hp
    rcases getElem?_set_some hp with ⟨-, rfl⟩ | ⟨-, hp⟩
    · exact hstep (h hq) hs
    · exact h hp
  cases hs with
  | request | turn _ | connect _ | exit _ => exact h hp
  | job _ _ hc _ =>
    rcases hc.procs with he | ⟨user, key, name, he⟩ | ⟨k, q, q', b, hq, he, -, hs⟩
    · exact h (he ▸ hp)
    · have hp : (e.procs ++ [_])[pid]? = some p := he ▸ hp
      rcases getElem?_concat_some hp with ⟨-, rfl⟩ | hp
      · exact hnew ..
      · exact h hp
    · exact hset hq hs he
  | @proc k q q' _ _ e₁ _ hq hc hs =>
    refine hset hq hs ?_
    have : e₁.procs = e.procs := by cases hc <;> rfl
    exact congrArg (List.set · k q') this
  | register _ _ hq hs | respond _ _ hq hs => exact hset hq hs rfl

end Engine

end VmEngine
