/-
  Streams of processes.

  `SetStream` takes any registration on a connected stream, so the sandbox of the old
  contract can register again after `ChangeSandbox` (`send_foreign_contract`).  If every
  sandbox that registers was launched for the contract that the process has then, and
  no two contracts share a joined key, transactions are sent to sandboxes of their own
  contract only (`send_own_contract`).
-/
import VmEngine.Core.EngineCarry
import VmEngine.Core.ProcessListen

namespace VmEngine

namespace Process
variable {p p' : Process} {a : Action} {outs : List ProcessOut} {sbs sbs' : List Sandbox}
  {live live' inIdle inIdle' : Prop}

/-- The request of the transaction that a step takes from the queue. -/
def Action.taken : Action → Option TxRequest
  | .txReq tx _ _ => tx.request
  | _ => none

/-- The sandbox of the stream was launched for the contract of the process. -/
def Matched (sbs : List Sandbox) (p : Process) : Prop :=
  ∃ sid sb, p.stream = some sid ∧ sbs[sid]? = some sb ∧ sb.key = p.key

/-- The states in which transactions may follow without a registration. -/
def Attached (p : Process) : Prop :=
  p.processState = .ready ∨ p.processState = .busy ∨ p.processState = .idle ∨
    p.processState = .closing

/-- The stream of a process that may take transactions is of its contract, unless it is
    being changed, or its manager knows it by another name. -/
structure StreamInv (sbs : List Sandbox) (live inIdle : Prop) (p : Process) : Prop where
  txCh : p.txCh = p.key.groupKey
  select : ∀ {q}, p.listen = some (.idle q) → p.processState = .idle ∨ p.processState = .ready ∨
    p.processState = .closing ∨ p.processState = .changing
  stream : p.Attached → Matched sbs p ∨ (p.processState = .idle ∧ p.lockedBy = some .changing) ∨
    ((p.processState = .idle ∨ p.processState = .closing) ∧ ¬ live)
  changing : p.processState = .changing ∨ p.lockedBy = some .changing → ¬ inIdle

theorem streamInv_new (user : ℕ) (key : RequestGroupKey) (name : String) (o : Bool) :
    StreamInv sbs live inIdle (new user key name o) := by
  refine ⟨rfl, nofun, fun h => ?_, fun h => ?_⟩
  · rcases h with h | h | h | h <;> cases h
  · rcases h with h | h <;> cases h

theorem Matched.keep (h : Matched sbs p) (hstream : p'.stream = p.stream) (hkey : p'.key = p.key) :
    Matched sbs p' := by
  obtain ⟨sid, sb, h1, h2, h3⟩ := h
  exact ⟨sid, sb, hstream.trans h1, h2, h3.trans hkey.symm⟩

/-- The streams of a process that is ready or busy, or that was not changed. -/
theorem StreamInv.matched (h : StreamInv sbs live inIdle p)
    (hst : p.processState = .ready ∨ p.processState = .busy) : Matched sbs p := by
  have hat : p.Attached := by
    rcases hst with hst | hst
    · exact Or.inl hst
    · exact Or.inr (Or.inl hst)
  rcases h.stream hat with hm | ⟨hi, -⟩ | ⟨hi, -⟩
  · exact hm
  · rcases hst with hst | hst <;> rw [hst] at hi <;> cases hi
  · rcases hst with hst | hst <;> rw [hst] at hi <;> rcases hi with hi | hi <;> cases hi

/-- Sandboxes keep their contracts, and no name becomes live or idle. -/
theorem StreamInv.mono (h : StreamInv sbs live inIdle p)
    (hsb : ∀ {sid : ℕ} {sb}, sbs[sid]? = some sb → ∃ sb', sbs'[sid]? = some sb' ∧ sb'.key = sb.key)
    (hlive : live' → live) (hidle : inIdle' → inIdle) : StreamInv sbs' live' inIdle' p := by
  refine ⟨h.txCh, h.select, fun hat => ?_, fun hc hi => h.changing hc (hidle hi)⟩
  rcases h.stream hat with ⟨sid, sb, h1, h2, h3⟩ | hw | ⟨hs, hno⟩
  · obtain ⟨sb', h4, h5⟩ := hsb h2
    exact Or.inl ⟨sid, sb', h1, h4, h5.trans h3⟩
  · exact Or.inr (Or.inl hw)
  · exact Or.inr (Or.inr ⟨hs, fun hl => hno (hlive hl)⟩)

/-- The stream, the contract and the lock stay, and the state does or becomes one
    without a stream. -/
theorem StreamInv.keep (h : StreamInv sbs live inIdle p) (hf : Frame p p')
    (hstream : p'.stream = p.stream)
    (hsel : p'.listen = p.listen ∨ p'.listen = some .head ∨ p'.listen = none)
    (hst : p'.processState = p.processState) : StreamInv sbs live inIdle p' := by
  refine ⟨by rw [hf.txCh, hf.key]; exact h.txCh, fun hq => ?_, fun hat => ?_, fun hc => ?_⟩
  · rw [hst]
    rcases hsel with hl | hl | hl
    · exact h.select (hl.symm.trans hq)
    · rw [hl] at hq; cases hq
    · rw [hl] at hq; cases hq
  · unfold Attached at hat
    rw [hst] at hat ⊢
    rw [hf.lockedBy]
    exact (h.stream hat).imp (fun hm => hm.keep hstream hf.key) id
  · rw [hst, hf.lockedBy] at hc
    exact h.changing hc

/-- The listener is back at the head of its loop, in a state with a stream of the
    contract or without one. -/
theorem StreamInv.head (h : StreamInv sbs live inIdle p) (hf : Frame p p')
    (hl : p'.listen = some .head ∨ p'.listen = none) (hlock : p.lockedBy = none)
    (hst : p'.processState ≠ .changing) (hm : p'.Attached → Matched sbs p') :
    StreamInv sbs live inIdle p' := by
  refine ⟨by rw [hf.txCh, hf.key]; exact h.txCh, fun hq => ?_, fun hat => Or.inl (hm hat), fun hc => ?_⟩
  · rcases hl with hl | hl <;> rw [hl] at hq <;> cases hq
  · rcases hc with hc | hc
    · exact absurd hc hst
    · rw [hf.lockedBy, hlock] at hc; cases hc

theorem StreamInv.exit {e : ExitErr} (h : StreamInv sbs live inIdle p) (hc : ExitCase p e p' outs) :
    StreamInv sbs live inIdle p' := by
  have hf := hc.frame
  have hcreated : p'.processState = .created → (p'.listen = some .head ∨ p'.listen = none) →
      StreamInv sbs live inIdle p' := by
    intro hst hl
    refine ⟨by rw [hf.txCh, hf.key]; exact h.txCh, fun hq => ?_, fun hat => ?_, fun hch => ?_⟩
    · rcases hl with hl | hl <;> rw [hl] at hq <;> cases hq
    · unfold Attached at hat
      rw [hst] at hat
      simp at hat
    · rw [hst] at hch
      rcases hch with hch | hch
      · cases hch
      · exact h.changing (Or.inr (hf.lockedBy ▸ hch))
  cases hc with
  | ended hs _ _ =>
    rcases hs with ⟨-, rfl⟩ | ⟨-, rfl, -⟩ | ⟨-, rfl, -⟩
    · exact h.keep hf rfl (Or.inr (Or.inr rfl)) rfl
    · exact h.keep hf rfl (Or.inr (Or.inr rfl)) rfl
    · exact hcreated rfl (Or.inr rfl)
  | restart _ hst hl => exact hcreated hst hl
  | restartAll _ _ => exact hcreated rfl (Or.inl rfl)
  | closed _ _ => exact h.keep hf rfl (Or.inr (Or.inr rfl)) rfl

/-- A process that its manager finds among the idle ones has the stream of its contract. -/
theorem StreamInv.taken {q : String} (h : StreamInv sbs live inIdle p)
    (hl : p.listen = some (.idle q)) (hlock : p.lockedBy = none) (hlive : live) (hidle : inIdle) :
    Matched sbs p := by
  have hof : p.Attached → Matched sbs p := by
    intro hat
    rcases h.stream hat with hm | ⟨-, hw⟩ | ⟨-, hno⟩
    · exact hm
    · rw [hlock] at hw; cases hw
    · exact absurd hlive hno
  rcases h.select hl with hst | hst | hst | hst
  · exact hof (Or.inr (Or.inr (Or.inl hst)))
  · exact hof (Or.inl hst)
  · exact hof (Or.inr (Or.inr (Or.inr hst)))
  · exact absurd hidle (h.changing (Or.inl hst))

/-- A step that the manager does not make: a sandbox that registers is of the contract,
    and a process becomes ready again if its manager finds it among the idle ones. -/
theorem StreamInv.step (h : StreamInv sbs live inIdle p) (hli : ListenInv p)
    (hs : ProcStep p a p' outs) (ha : a.OfManager = false)
    (hset : ∀ {sid}, a = .setStream sid → ∃ sb, sbs[sid]? = some sb ∧ sb.key = p.key)
    (htaken : ∀ {tx}, a = .idleTxReq tx true → live ∧ inIdle) : StreamInv sbs live inIdle p' := by
  have hf := hs.frame ha
  have hbusy : p.listen = some .busy → Matched sbs p := fun hl => h.matched (hli.busy hl).symm
  cases hs with
  | loopHead _ =>
    refine ⟨h.txCh, fun {q} hq => ?_, h.stream, h.changing⟩
    unfold selectFor at hq
    cases hst : p.processState <;> rw [hst] at hq <;> cases hq
    exact Or.inl rfl
  | wake _ | dropped _ _ | idleKept _ | strayTimeout _ _ _ _ =>
    exact h.keep hf rfl (Or.inr (Or.inl rfl)) rfl
  | dispatched hl hlock _ _ =>
    exact h.head hf (Or.inl rfl) hlock nofun fun _ => (h.matched (Or.inl (hli.ready hl).1)).keep rfl rfl
  | idleTaken hl hlock =>
    obtain ⟨h1, h2⟩ := htaken rfl
    exact h.head hf (Or.inl rfl) hlock nofun fun _ => (h.taken hl hlock h1 h2).keep rfl rfl
  | answered hl _ hlock _ _ | deployFailed hl _ hlock _ _ _ =>
    exact h.head hf (Or.inl rfl) hlock nofun fun _ => (hbusy hl).keep rfl rfl
  | busyTimeout _ _ hlock _ _ =>
    refine h.head hf (Or.inl rfl) hlock nofun fun hat => ?_
    rcases hat with hat | hat | hat | hat <;> cases hat
  | readyTimeout _ _ hlock hst =>
    exact h.head hf (Or.inl rfl) hlock nofun fun _ => (h.matched (Or.inl hst)).keep rfl rfl
  | exit _ _ _ hc _ => exact h.exit hc
  | setStream hlock =>
    obtain ⟨sb, h1, h2⟩ := hset rfl
    refine ⟨h.txCh, fun _ => Or.inr (Or.inl rfl), fun _ => Or.inl ⟨_, sb, rfl, h1, h2⟩, fun hc => ?_⟩
    rcases hc with hc | hc
    · cases hc
    · rw [hf.lockedBy, hlock] at hc; cases hc
  | launchProcess _ =>
    obtain ⟨-, hst, hl⟩ := launchProcess_frame p _
    refine h.keep hf ?_ (Or.inl hl) hst
    unfold Process.launchProcess
    split
    · rfl
    · rfl
    · split_ifs <;> rfl
  | putMsg _ | expire | pop | sendReady _ _ | cgroupError _ | wait _ =>
    exact h.keep hf rfl (Or.inl rfl) rfl
  | refused _ | noGroup _ _ | changeSandbox _ _ _ _ | refusedClose _ | closeSandbox _ _ _ _
  | leaveWindow _ => cases ha

/-- `ChangeSandbox` has reset the context: the process is locked, or its manager does not
    know its new name. -/
theorem StreamInv.renamed {key : RequestGroupKey} {name : String} {w : Option Window}
    (hst : p.processState = .idle) (hlive : w = some .changing ∨ ¬ live) (hidle : ¬ inIdle) :
    StreamInv sbs live inIdle { (p.resetContext key name true).1.killed with lockedBy := w } := by
  refine ⟨rfl, fun _ => Or.inl hst, fun _ => Or.inr ?_, fun _ => hidle⟩
  exact hlive.imp (fun hw => ⟨hst, hw⟩) fun hno => ⟨Or.inl hst, hno⟩

/-- `CloseSandbox` signals the sandbox, or not. -/
theorem StreamInv.closeSandbox {w : Option Window} (h : StreamInv sbs live inIdle p)
    (hlock : p.lockedBy = none) (hw : w ≠ some .changing) :
    StreamInv sbs live inIdle { p.killed with lockedBy := w } := by
  refine ⟨h.txCh, h.select, fun hat => ?_, fun hc => ?_⟩
  · rcases h.stream hat with hm | ⟨-, hl⟩ | hno
    · exact Or.inl (hm.keep rfl rfl)
    · rw [hlock] at hl; cases hl
    · exact Or.inr (Or.inr hno)
  · rcases hc with hc | hc
    · exact h.changing (Or.inl hc)
    · exact absurd hc hw

/-- The state is updated at the end of `ChangeSandbox` or `CloseSandbox`. -/
theorem StreamInv.leaveWindow {w : Window} {u b : Bool} {t : Timer} (h : StreamInv sbs live inIdle p)
    (hli : ListenInv p) (hw : p.lockedBy = some w) : StreamInv sbs live inIdle
      { p with
        processState := (match w with | .changing => .changing | .closing => .closing),
        lockedBy := none, updateCh := u, timer := t, timerPopped := b } := by
  have hst := hli.lock (by rw [hw]; nofun)
  cases w with
  | changing =>
    refine ⟨h.txCh, fun _ => Or.inr (Or.inr (Or.inr rfl)), fun hat => ?_, fun _ => ?_⟩
    · rcases hat with hat | hat | hat | hat <;> cases hat
    · exact h.changing (Or.inr hw)
  | closing =>
    refine ⟨h.txCh, fun _ => Or.inr (Or.inr (Or.inl rfl)), fun _ => ?_, fun hc => ?_⟩
    · rcases h.stream (Or.inr (Or.inr (Or.inl hst))) with hm | ⟨-, hl⟩ | ⟨-, hno⟩
      · exact Or.inl (hm.keep rfl rfl)
      · rw [hw] at hl; cases hl
      · exact Or.inr (Or.inr ⟨Or.inr rfl, hno⟩)
    · rcases hc with hc | hc <;> cases hc

/-- The manager has moved a ready process to the idle ones. -/
theorem StreamInv.toIdle {sigOk : Bool} (h : StreamInv sbs live inIdle p)
    (hs : ProcStep p (.tick true sigOk) p' outs) (hst : p.processState = .ready) :
    StreamInv sbs live' inIdle' p' := by
  have hm := h.matched (Or.inl hst)
  cases hs with
  | busyTimeout _ _ _ hb _ => rw [hst] at hb; cases hb
  | strayTimeout _ _ _ hno => cases hno hst
  | readyTimeout _ _ hlock _ =>
    refine ⟨h.txCh, nofun, fun _ => Or.inl (hm.keep rfl rfl), fun hc => ?_⟩
    rcases hc with hc | hc
    · cases hc
    · have hc : p.lockedBy = some .changing := hc
      rw [hlock] at hc; cases hc

end Process

/-- A process is cached among the idle ones under the name. -/
def ManagerView.InIdle (v : ManagerView) (n : String) : Prop := ∃ pid, v.idle.get? n = some pid

theorem ManagerView.InIdle.live {v : ManagerView} {n : String} (h : v.InIdle n) : v.Live n := by
  obtain ⟨pid, h⟩ := h
  exact Or.inl ⟨pid, Or.inl h⟩

namespace Engine
variable {cfg : ProcessConfig} {e e' e₁ : Engine} {o ok : Bool} {v v' : ManagerView} {t : Task}
  {jobs : List Job} {i pid : ℕ} {j : Job} {ev : ProcessManager.JobEvent} {outs : List ProcessOut}
  {n : String} {p p' : Process}

/-! ## What a step does to idle names and sandboxes -/

theorem inIdle_of_job (hj : ProcessManager.JobCase v t jobs i j ev v') (h : v'.InIdle n) :
    v.InIdle n := by
  obtain ⟨pid, h⟩ := h
  cases hj with
  | recache => exact ⟨pid, LinkedMap.get?_of_remove h⟩
  | release _ => exact ⟨pid, LinkedMap.get?_of_remove h⟩
  | _ => exact ⟨pid, h⟩

theorem inIdle_turn (hc : ProcessManager.TurnCase v v') (h : v'.InIdle n) : v.InIdle n := by
  obtain ⟨pid, h⟩ := h
  cases hc with
  | exit _ _ _ => exact ⟨pid, LinkedMap.get?_of_remove h⟩
  | stay _ | start _ _ _ | finish _ => exact ⟨pid, h⟩

theorem Turned.inIdle (ht : Turned e o v e') (hv : v.InIdle n → (e.view o).InIdle n) {o' : Bool}
    (h : (e'.view o').InIdle n) : (e.view o').InIdle n := by
  by_cases ho : o' = o
  · rw [ho, ht.view] at h
    rw [ho]; exact hv h
  · rwa [ht.other ho] at h

theorem inIdle_putExits {o' : Bool} :
    ((e.putExits o' outs).view o).InIdle n ↔ (e.view o).InIdle n := by
  by_cases ho : o = o'
  · rw [ho, view_putExits]
    exact Iff.rfl
  · rw [view_putExits_of_ne _ ho]

variable {a : Action} {a' : Process.Action} {k : ℕ} {q : Process}

/-- The call of a process adds at most its own name to the idle ones. -/
theorem ProcCall.inIdle {a : Process.Action} (hc : ProcCall e pid p a a' e₁)
    (h : (e₁.view o).InIdle n) : (e.view o).InIdle n ∨
      ((o = p.isOrigProcess ∧ n = p.processName) ∧ p.processState = .ready ∧
        ∃ sigOk, a' = .tick true sigOk) := by
  have hmove : ∀ {toBusy pm},
      (e.mgr p.isOrigProcess).changeProcessState found p.processName toBusy p.key = some pm →
      ((e.settle p.isOrigProcess pm).view o).InIdle n → (e.view o).InIdle n ∨
        (toBusy = false ∧ o = p.isOrigProcess ∧ n = p.processName) := by
    intro toBusy pm hpm h
    by_cases ho : o = p.isOrigProcess
    · subst ho
      obtain ⟨pid', -, hv⟩ := ProcessManager.view_changeProcessState_eq hpm
      rw [view_settle, hv] at h
      obtain ⟨k, h⟩ := h
      cases toBusy with
      | true => exact Or.inl ⟨k, LinkedMap.get?_of_remove h⟩
      | false =>
        rcases LinkedMap.get?_of_put h with ⟨hn, -⟩ | h
        · exact Or.inr ⟨rfl, rfl, hn⟩
        · exact Or.inl ⟨k, h⟩
    · rw [view_settle_of_ne _ ho] at h
      exact Or.inl h
  cases hc with
  | toIdle hst _ hpm =>
    rcases hmove hpm h with h | ⟨-, h⟩
    · exact Or.inl h
    · exact Or.inr ⟨h, hst, _, rfl⟩
  | toBusy _ hpm =>
    rcases hmove hpm h with h | ⟨h, -⟩
    · exact Or.inl h
    · cases h
  | alone _ | txReq _ _ _ | tick | idleTxReq | launch | wait _ _ _ => exact Or.inl h

/-- The manager accepts a process as busy if it finds it among the idle ones. -/
theorem ProcCall.taken {a : Process.Action} (hc : ProcCall e pid p a a' e₁) {tx : DockerVMMessage}
    (ha : a' = .idleTxReq tx true) : (e.view p.isOrigProcess).InIdle p.processName := by
  cases hc with
  | toBusy _ hpm =>
    obtain ⟨k, hk, -⟩ := ProcessManager.view_changeProcessState_eq hpm
    exact ⟨k, hk⟩
  | alone hal => subst ha; exact hal.elim
  | _ => cases ha

/-- Sandboxes keep the contract that they were launched for. -/
theorem EngStep.key_kept (hs : EngStep e a e' outs) {sid : ℕ} {sb : Sandbox}
    (hsb : e.sandboxes[sid]? = some sb) :
    ∃ sb', e'.sandboxes[sid]? = some sb' ∧ sb'.key = sb.key := by
  have hset : ∀ {k : ℕ} {x x' : Sandbox}, e.sandboxes[k]? = some x → x'.key = x.key →
      ∃ sb', (e.sandboxes.set k x')[sid]? = some sb' ∧ sb'.key = sb.key := by
    intro k x x' hx hkey
    by_cases hk : k = sid
    · subst hk
      obtain rfl := Option.some.inj (hsb.symm.trans hx)
      exact ⟨x', List.getElem?_set_self (List.getElem?_eq_some_iff.1 hsb).1, hkey⟩
    · exact ⟨sb, (List.getElem?_set_ne hk).trans hsb, rfl⟩
  cases hs with
  | request | turn _ | register _ _ _ _ | respond _ _ _ _ => exact ⟨sb, hsb, rfl⟩
  | @job o _ _ _ _ _ _ e₁ pm _ _ hc _ =>
    have he : (e₁.settle o pm).sandboxes = e.sandboxes := hc.sandboxes
    exact ⟨sb, he ▸ hsb, rfl⟩
  | proc _ hc _ =>
    cases hc with
    | alone _ | txReq _ _ _ | tick | idleTxReq | toIdle _ _ _ | toBusy _ _ => exact ⟨sb, hsb, rfl⟩
    | launch =>
      exact ⟨sb, (List.getElem?_append_left (List.getElem?_eq_some_iff.1 hsb).1).trans hsb, rfl⟩
    | wait _ hx _ => exact hset hx rfl
  | connect hx => exact hset hx rfl
  | exit hx => exact hset hx rfl

/-! ## The invariant -/

/-- The process and what its manager knows of its name. -/
def StreamAt (e : Engine) (p : Process) : Prop :=
  p.StreamInv e.sandboxes ((e.view p.isOrigProcess).Live p.processName)
    ((e.view p.isOrigProcess).InIdle p.processName)

/-- A sandbox registers only with a process that has the contract it was launched for,
    and no transaction of another contract has the joined key of the process. -/
def StreamOk (e : Engine) : Action → Prop
  | .register sid => ∀ sb ∈ e.sandboxes[sid]?, ∀ p ∈ e.connected sid, sb.key = p.key
  | .proc pid a => ∀ p ∈ e.procs[pid]?, ∀ r ∈ a.taken, r.key.groupKey = p.key.groupKey → r.key = p.key
  | _ => True

instance : DecidableRel StreamOk
  | e, .register sid => inferInstanceAs
      (Decidable (∀ sb ∈ e.sandboxes[sid]?, ∀ p ∈ e.connected sid, sb.key = p.key))
  | e, .proc pid a => inferInstanceAs (Decidable
      (∀ p ∈ e.procs[pid]?, ∀ r ∈ a.taken, r.key.groupKey = p.key.groupKey → r.key = p.key))
  | _, .request _ _ | _, .manager _ _ | _, .job _ _ _ | _, .connect _ | _, .respond _ _
  | _, .exit _ => instDecidableTrue

/-- What holds of every run under the condition. -/
structure StreamInv (e : Engine) : Prop where
  names : e.NameInv
  listen : ∀ {pid : ℕ} {p}, e.procs[pid]? = some p → p.ListenInv
  streams : ∀ {pid : ℕ} {p}, e.procs[pid]? = some p → StreamAt e p

/-- A process that keeps its name, in the engine after a step. -/
theorem StreamInv.keep (h : e.StreamInv) (hs : EngStep e a e' outs) (hp : e.procs[pid]? = some p)
    (hor : p'.isOrigProcess = p.isOrigProcess) (hname : p'.processName = p.processName)
    (hidle : (e'.view p.isOrigProcess).InIdle p.processName →
      (e.view p.isOrigProcess).InIdle p.processName)
    (hinv : p'.StreamInv e.sandboxes ((e.view p.isOrigProcess).Live p.processName)
      ((e.view p.isOrigProcess).InIdle p.processName)) : StreamAt e' p' := by
  unfold StreamAt
  rw [hor, hname]
  exact hinv.mono hs.key_kept (fun hl => hs.live h.names (h.names.procs hp) hl) hidle

/-- A step in which one process changes and keeps its name. -/
theorem StreamInv.setProc (h : e.StreamInv) (hs : EngStep e a e' outs)
    (hprocs : e'.procs = e.procs.set pid p')
    (hidle : ∀ {o n}, (e'.view o).InIdle n → (e.view o).InIdle n) (hinv : StreamAt e' p')
    (hq : e'.procs[k]? = some q) : StreamAt e' q := by
  rw [hprocs] at hq
  rcases getElem?_set_some hq with ⟨-, rfl⟩ | ⟨-, hq⟩
  · exact hinv
  · exact h.keep hs hq rfl rfl hidle (h.streams hq)

theorem StreamInv.job {pm : ProcessManager} (h : e.StreamInv) (ht : (e.mgr o).task = some (t, jobs))
    (hi : jobs[i]? = some j) (hc : CallCase e o ok j ev e₁)
    (hj : ProcessManager.JobCase (e.view o) t jobs i j ev pm.view)
    (hq : (e₁.settle o pm).procs[k]? = some q) : StreamAt (e₁.settle o pm) q := by
  have hs : EngStep e (.job o i ok) (e₁.settle o pm) [] := .job ht hi hc hj
  have hjob := (h.names.jobs o).ok j (by
    rw [jobs_eq_of_task ht]
    exact List.mem_of_getElem? hi)
  have hidle : ∀ {o' n}, ((e₁.settle o pm).view o').InIdle n → (e.view o').InIdle n := by
    intro o' n hn
    by_cases ho : o' = o
    · rw [ho, view_settle] at hn
      rw [ho]
      exact inIdle_of_job hj hn
    · rw [view_settle_of_ne _ ho] at hn
      have hv : e₁.view o' = e.view o' := congrArg (fun mgr => (mgr o').view) hc.mgr
      rwa [hv] at hn
  have hsame : e₁.procs = e.procs → StreamAt (e₁.settle o pm) q := fun hprocs => by
    have hq : e.procs[k]? = some q := hprocs ▸ hq
    exact h.keep hs hq rfl rfl hidle (h.streams hq)
  cases hc with
  | plain _ | nameChange _ | refused _ _ | refusedClose _ _ | release _ => exact hsame rfl
  | create _ =>
    rcases getElem?_concat_some hq with ⟨-, rfl⟩ | hq
    · exact Process.streamInv_new ..
    · exact h.keep hs hq rfl rfl hidle (h.streams hq)
  | @lost c p hp hst hlock htok =>
    refine h.setProc hs rfl hidle ?_ hq
    obtain ⟨p', hp', ho, -⟩ := hjob.2
    obtain rfl := Option.some.inj (hp.symm.trans hp')
    have hno := not_live_lost h.names ht hi (.lost hp hst hlock htok) hj
    have hor : (renamed p c none).isOrigProcess = o := ho
    unfold StreamAt
    rw [hor]
    exact .renamed hst (Or.inr hno) fun hin => hno hin.live
  | @killed c p hp hst hlock htok hsig =>
    refine h.setProc hs rfl hidle ?_ hq
    obtain ⟨p', hp', ho, -⟩ := hjob.2
    obtain rfl := Option.some.inj (hp.symm.trans hp')
    have hor : (renamed p c (some .changing)).isOrigProcess = o := ho
    unfold StreamAt
    rw [hor]
    exact .renamed hst (Or.inl rfl) fun hin => not_live_pending h.names ht hi rfl (hidle hin).live
  | leaveChange hp hw =>
    exact h.setProc hs rfl hidle
      (h.keep hs hp rfl rfl hidle ((h.streams hp).leaveWindow (h.listen hp) hw)) hq
  | leaveClose hp hw =>
    exact h.setProc hs rfl hidle
      (h.keep hs hp rfl rfl hidle ((h.streams hp).leaveWindow (h.listen hp) hw)) hq
  | closeLost hp _ hlock _ =>
    exact h.setProc hs rfl hidle
      (h.keep hs hp rfl rfl hidle ((h.streams hp).closeSandbox hlock nofun)) hq
  | closeKilled hp _ hlock _ _ =>
    exact h.setProc hs rfl hidle
      (h.keep hs hp rfl rfl hidle ((h.streams hp).closeSandbox hlock nofun)) hq

theorem StreamInv.proc {a : Process.Action} (h : e.StreamInv) (hp : e.procs[pid]? = some p)
    (hc : ProcCall e pid p a a' e₁) (hps : Process.ProcStep p a' p' outs)
    (hq : ((e₁.setProc pid p').putExits p'.isOrigProcess outs).procs[k]? = some q) :
    StreamAt ((e₁.setProc pid p').putExits p'.isOrigProcess outs) q := by
  have hs : EngStep e (.proc pid a) ((e₁.setProc pid p').putExits p'.isOrigProcess outs) outs :=
    .proc hp hc hps
  obtain ⟨hprocs, -, ha⟩ := hc.same
  have hf := hps.frame ha
  have hset : ∀ {sid}, a' = .setStream sid → ∃ sb, e.sandboxes[sid]? = some sb ∧ sb.key = p.key := by
    rintro sid rfl
    cases hc with
    | alone hal => exact hal.elim
  have hstep := (h.streams hp).step (h.listen hp) hps ha hset fun htx =>
    ⟨(hc.taken htx).live, hc.taken htx⟩
  have hq : (e₁.procs.set pid p')[k]? = some q := hq
  rw [hprocs] at hq
  rcases getElem?_set_some hq with ⟨rfl, rfl⟩ | ⟨hk, hq⟩
  · by_cases htick : p.processState = .ready ∧ ∃ sigOk, a' = .tick true sigOk
    · obtain ⟨hst, sigOk, rfl⟩ := htick
      exact ((h.streams hp).toIdle hps hst).mono hs.key_kept id id
    · refine h.keep hs hp hf.isOrigProcess hf.processName (fun hin => ?_) hstep
      rcases hc.inIdle (inIdle_putExits.1 hin) with hin | ⟨-, hno⟩
      · exact hin
      · exact absurd hno htick
  · refine h.keep hs hq rfl rfl (fun hin => ?_) (h.streams hq)
    rcases hc.inIdle (inIdle_putExits.1 hin) with hin | ⟨⟨ho, hn⟩, -⟩
    · exact hin
    · -- names belong to one process each
      have hmem := h.names.procs hq
      rw [ho, hn] at hmem
      exact absurd (h.names.unique hmem (h.names.procs hp)) hk

/-- Every step under the condition keeps streams and contracts together. -/
theorem StreamInv.step (h : e.StreamInv) (hs : EngStep e a e' outs) (hok : StreamOk e a) :
    e'.StreamInv := by
  refine ⟨h.names.step hs, hs.forall_procs Process.listenInv_new (fun hp hs => hp.step hs) h.listen,
    fun {k q} hq => ?_⟩
  have hsame : ∀ {o v}, Turned e o v e' → (∀ {n}, v.InIdle n → (e.view o).InIdle n) →
      StreamAt e' q := by
    intro o v ht hv
    rw [ht.procs] at hq
    exact h.keep hs hq rfl rfl (ht.inIdle hv) (h.streams hq)
  have hview : e'.procs = e.procs → (∀ o, e'.view o = e.view o) → StreamAt e' q := by
    intro hprocs hv
    have hq : e.procs[k]? = some q := hprocs ▸ hq
    exact h.keep hs hq rfl rfl (fun hin => hv _ ▸ hin) (h.streams hq)
  have hmsg : ∀ {pid p p' b}, e.procs[pid]? = some p → Process.ProcStep p b p' [] →
      b.OfManager = false → e'.procs = e.procs.set pid p' → (∀ o, e'.view o = e.view o) →
      (∀ {tx}, b ≠ .idleTxReq tx true) →
      (∀ {sid}, b = .setStream sid → ∃ sb, e.sandboxes[sid]? = some sb ∧ sb.key = p.key) →
      StreamAt e' q := by
    intro pid p p' b hp hps hb hprocs hv htx hset
    have hidle : ∀ {o n}, (e'.view o).InIdle n → (e.view o).InIdle n := fun hin => hv _ ▸ hin
    have hf := hps.frame hb
    refine h.setProc hs hprocs hidle ?_ hq
    refine h.keep hs hp hf.isOrigProcess hf.processName hidle ?_
    exact (h.streams hp).step (h.listen hp) hps hb hset fun hx => absurd hx htx
  cases hs with
  | request => exact hsame (turned_putEvents (h.names.frees _) _) fun hn => hn
  | turn hc => exact hsame (turned_settle _ _ _) (inIdle_turn hc)
  | job ht hi hc hj => exact h.job ht hi hc hj hq
  | proc hp hc hps => exact h.proc hp hc hps hq
  | connect _ | exit _ => exact hview rfl fun _ => rfl
  | register hsb hconn hp hps =>
    refine hmsg hp hps rfl rfl (fun _ => rfl) nofun fun hx => ?_
    cases hx
    exact ⟨_, hsb, hok _ hsb _ ((connected_eq hsb hconn).trans hp)⟩
  | respond _ _ hp hps => exact hmsg hp hps rfl rfl (fun _ => rfl) nofun nofun

theorem streamInv_reach {maxProcessNum releaseNum : Bool → ℤ} {users : List ℕ}
    (h : Reach (step cfg) StreamOk (new maxProcessNum releaseNum users) e) : e.StreamInv := by
  refine h.inv ⟨nameInv_new .., fun h => (by cases h), fun h => (by cases h)⟩ fun hinv hok hstep => ?_
  obtain ⟨outs, hact⟩ := step_eq_some hstep
  exact hinv.step (act_step hact) hok

/-! ## Sent transactions -/

/-- A step that sends takes a transaction from the queue of the process. -/
theorem EngStep.sends (hs : EngStep e a e' outs) {sid : ℕ} {msg : DockerVMMessage}
    (hsend : (sid, msg) ∈ Process.sends outs) :
    ∃ pid p tx el sendOk q r, a = .proc pid (.txReq tx el sendOk) ∧ e.procs[pid]? = some p ∧
      p.listen = some (.ready q) ∧ tx.request = some r ∧ r.key.groupKey = q ∧
      p.stream = some sid ∧ msg = p.sandboxMsg tx := by
  have hno : ∀ {outs : List ProcessOut}, Process.sends outs = [] → (sid, msg) ∉ Process.sends outs := by
    intro outs h hmem
    rw [h] at hmem; cases hmem
  cases hs with
  | request | turn _ | job _ _ _ _ | connect _ | register _ _ _ _ | respond _ _ _ _ | exit _ =>
    exact absurd hsend (hno rfl)
  | proc hp hc hps =>
    cases hps with
    | exit _ _ _ hx _ =>
      cases hx with
      | ended _ _ hsd => exact absurd hsend (hno hsd)
      | restart _ _ _ | restartAll _ _ | closed _ _ => exact absurd hsend (hno rfl)
    | dropped _ ho =>
      rcases ho with rfl | ⟨err, rfl⟩ <;> exact absurd hsend (hno rfl)
    | dispatched hl _ hstream ho =>
      rcases ho with rfl | ⟨err, rfl⟩
      · obtain ⟨rfl, rfl⟩ := Prod.mk.inj (List.mem_singleton.1 hsend)
        cases hc with
        | alone hal => exact hal.elim
        | txReq hl' hr hkey => exact ⟨_, _, _, _, _, _, _, rfl, hp, hl', hr, hkey, hstream, rfl⟩
      · exact absurd hsend (hno rfl)
    | _ => exact absurd hsend (hno rfl)

/-- **Contract isolation.**  In every run under `StreamOk`, a transaction is sent on a
    stream whose sandbox was launched for the transaction's contract. -/
theorem send_own_contract {maxProcessNum releaseNum : Bool → ℤ} {users : List ℕ}
    (h : Reach (step cfg) StreamOk (new maxProcessNum releaseNum users) e) {a : Action}
    (hok : StreamOk e a) (hact : act cfg e a = .ok (e', outs)) {sid : ℕ} {msg : DockerVMMessage}
    (hsend : (sid, msg) ∈ Process.sends outs) :
    ∃ sb r, e.sandboxes[sid]? = some sb ∧ msg.request = some r ∧ sb.key = r.key := by
  have hinv := streamInv_reach h
  obtain ⟨pid, p, tx, el, sendOk, q, r, rfl, hp, hl, hr, hkey, hstream, rfl⟩ :=
    (act_step hact).sends hsend
  obtain ⟨hst, hq⟩ := (hinv.listen hp).ready hl
  obtain ⟨sid', sb, hsid', hsb, hsbkey⟩ := (hinv.streams hp).matched (Or.inl hst)
  obtain rfl := Option.some.inj (hstream.symm.trans hsid')
  have hgroup : r.key.groupKey = p.key.groupKey := hkey.trans (hq.trans (hinv.streams hp).txCh)
  exact ⟨sb, r, hsb, hr, hsbkey.trans (hok p hp r hr hgroup).symm⟩

/-- Process 0 takes a transaction of the contract. -/
def takeTx (key : RequestGroupKey) : Action := .proc 0 (.txReq (sampleTx key "tx1" "save") 0 true)

set_option maxRecDepth 20000 in
/-- A transaction is sent to the sandbox of a ready process. -/
theorem send_own_contract_ready : ∃ e e' outs sid msg,
    Reach (step .sample) StreamOk (sample 1 [10000]) e ∧
    act .sample e (takeTx .sample) = .ok (e', outs) ∧ (sid, msg) ∈ Process.sends outs ∧
    ∃ sb r, e.sandboxes[sid]? = some sb ∧ msg.request = some r ∧ sb.key = r.key := by
  obtain ⟨e, h, hP⟩ := exists_reach (step .sample) StreamOk (sample 1 [10000])
    (fun e => decide (StreamOk e (takeTx .sample)) &&
      (act .sample e (takeTx .sample)).toOption.any fun x => (Process.sends x.2).any fun _ => true)
    (runToReady .sample) (by decide)
  obtain ⟨hok, hact⟩ := Bool.and_eq_true_iff.1 hP
  obtain ⟨⟨e', outs⟩, hact, hsends⟩ := (Option.any_eq_true _ _).1 hact
  obtain ⟨⟨sid, msg⟩, hsend, -⟩ := List.any_eq_true.1 hsends
  have hact := Go.toOption_eq_some.1 hact
  exact ⟨e, e', outs, sid, msg, h, hact, hsend, send_own_contract h (of_decide_eq_true hok) hact hsend⟩

/-- The contracts of the sandboxes that a step sends to, with those of the requests. -/
def sentTo (cfg : ProcessConfig) (e : Engine) (a : Action) :
    List (Option RequestGroupKey × Option RequestGroupKey) :=
  match act cfg e a with
  | .ok (_, outs) =>
    (Process.sends outs).map fun x => (e.sandboxes[x.1]?.map (·.key), x.2.request.map (·.key))
  | .error _ => []

/-- The idle process is changed to another contract, and its old sandbox registers again. -/
def runToForeign (key : RequestGroupKey) : List Action :=
  runToIdle ++ [.request true ⟨key, 1⟩, .manager true .recvEvent, .manager true .advance,
    .job true 0 true, .job true 0 true, .job true 0 true, .job true 0 true, .manager true .advance,
    .proc 0 .loopHead, .register 0, .proc 0 .wake, .proc 0 .loopHead]

/-- A transaction of `key` is sent to a sandbox of `key'`. -/
def SentTo (key key' : RequestGroupKey) (e : Engine) : Bool :=
  decide (sentTo .sample e (takeTx key) = [(some key', some key)])

set_option maxRecDepth 20000 in
/-- A transaction is sent to a sandbox of another contract: when the old sandbox of a
    changed process registers again, and when two contracts have the same joined key. -/
theorem send_foreign_contract :
    (∃ e, Reach (step .sample) Free (sample 1 [10000]) e ∧
      SentTo ⟨"chain1", "asset", "v1"⟩ ⟨"chain1", "fact", "v1"⟩ e = true) ∧
    ∃ e, Reach (step .sample) Free (sample 1 [10000]) e ∧
      SentTo ⟨"chain1", "fact", "a#v1"⟩ ⟨"chain1", "fact#a", "v1"⟩ e = true := by
  constructor
  · exact exists_reach _ Free _ _ (runToForeign ⟨"chain1", "asset", "v1"⟩) (by decide)
  · exact exists_reach _ Free _ _ (runToReady ⟨"chain1", "fact#a", "v1"⟩) (by decide)

end Engine

end VmEngine
