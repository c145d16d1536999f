/-
  What a step of a process does.

  `ProcStep` lists the effects of the actions, case by case, up to the timer and
  `updateCh` (`u`, `t` and `b` below); `act_step` shows that every step is one of
  them.  The invariants of processes are proved from it, never from the handlers.
-/
import VmEngine.Core.Process

namespace VmEngine

namespace Process
variable {cfg : ProcessConfig} {p p' : Process} {a : Action} {outs : List ProcessOut}

/-! ## Handlers -/

theorem popTimer_eq (h : popTimer p = .ok p') : ∃ t, p' = { p with timer := t } := by
  unfold popTimer at h
  split_ifs at h
  · split at h
    · cases h
    · cases h; exact ⟨_, rfl⟩
  · cases h; exact ⟨_, rfl⟩

theorem startTimer_eq (h : startTimer p = .ok p') :
    ∃ t b, p' = { p with timer := t, timerPopped := b } := by
  obtain ⟨p₁, h₁, h⟩ := Go.bind_eq_ok.1 h
  obtain ⟨t, rfl⟩ := popTimer_eq h₁
  cases h
  exact ⟨_, _, rfl⟩

theorem setState_eq {state : ProcessState} (h : setState p state = .ok p') :
    ∃ u, p' = { p with processState := state, updateCh := u } := by
  unfold setState at h
  split_ifs at h
  · cases h; exact ⟨_, rfl⟩
  · cases h; exact ⟨_, rfl⟩

theorem updateProcessState_eq {state : ProcessState} (h : updateProcessState p state = .ok p') :
    ∃ u t b, p' = { p with processState := state, updateCh := u, timer := t, timerPopped := b } := by
  obtain ⟨p₁, h₁, h₂⟩ := Go.bind_eq_ok.1 h
  obtain ⟨u, rfl⟩ := setState_eq h₁
  split_ifs at h₂
  · obtain ⟨t, b, rfl⟩ := startTimer_eq h₂
    exact ⟨u, t, b, rfl⟩
  · cases h₂; exact ⟨u, _, _, rfl⟩

/-- The process after `killProcess`. -/
def killed (p : Process) : Process :=
  { p with cmdReadyCh := false, cmd := p.cmd.map fun c => { c with signalled := true } }

variable {cfv : ℤ} {e : ExitErr} {f : ExitFlags} {next : Option DockerVMMessage}
  {ok pmOk sigOk : Bool} {tx : DockerVMMessage}

theorem killProcess_eq (h : killProcess p sigOk = .ok (p', ok)) :
    p.cmdReadyCh = true ∧ p' = p.killed ∧
      (ok = true ↔ sigOk = true ∧ ∃ c sid, p.cmd = some c ∧ c.sandbox = some sid) := by
  unfold killProcess at h
  split_ifs at h with htok
  refine ⟨htok, ?_⟩
  unfold killed
  split at h
  · rename_i hc
    cases h
    rw [hc]
    refine ⟨rfl, fun h => (by cases h), ?_⟩
    rintro ⟨-, c, sid, h, -⟩
    cases h
  · rename_i c hc
    split at h
    · cases h
    · rename_i sid hs
      cases h
      rw [hc]
      exact ⟨rfl, fun h => ⟨h, c, sid, rfl, hs⟩, And.left⟩

/-- The response that makes `handleTxResp` kill the process. -/
def DeployError (tx msg : DockerVMMessage) : Prop :=
  msg.type = .error ∧ tx.request.any isDeployMethod = true

instance (tx msg : DockerVMMessage) : Decidable (DeployError tx msg) :=
  inferInstanceAs (Decidable (_ ∧ _))

theorem handleTxResp_eq {msg : DockerVMMessage} (h : handleTxResp p msg sigOk = .ok p') :
    ∃ tx, p.tx = some tx ∧ ∃ u t b, let q : Process :=
        { p with processState := .ready, updateCh := u, timer := t, timerPopped := b }
      (¬ DeployError tx msg ∧ p' = q) ∨
        (DeployError tx msg ∧ p.cmdReadyCh = true ∧ p' = q.killed) := by
  unfold handleTxResp at h
  split at h
  · cases h
  · rename_i tx htx
    obtain ⟨p₁, h₁, h₂⟩ := Go.bind_eq_ok.1 h
    obtain ⟨u, t, b, rfl⟩ := updateProcessState_eq h₁
    refine ⟨tx, htx, u, t, b, ?_⟩
    split_ifs at h₂ with he
    · split at h₂
      · cases h₂
      · rename_i q hq
        split_ifs at h₂ with hd
        · obtain ⟨⟨p₂, ok⟩, h₃, h₄⟩ := Go.bind_eq_ok.1 h₂
          obtain ⟨htok, rfl, -⟩ := killProcess_eq h₃
          cases h₄
          exact Or.inr ⟨⟨he, by rw [hq]; exact hd⟩, htok, rfl⟩
        · cases h₂
          exact Or.inl ⟨fun h => hd (by have := h.2; rwa [hq] at this), rfl⟩
    · cases h₂
      exact Or.inl ⟨fun h => he h.1, rfl⟩

/-- What becomes of a transaction that a ready process takes from its queue. -/
inductive TxReqCase (cfg : ProcessConfig) (p : Process) (tx : DockerVMMessage) (el : ℕ)
    (sendOk : Bool) : Process → List ProcessOut → Prop
  | removed : removeTxTime < el → TxReqCase cfg p tx el sendOk { p with listen := some .head } []
  | expired (err : String) : ¬ removeTxTime < el → cfg.execTxTimeout < el →
      TxReqCase cfg p tx el sendOk { p with listen := some .head } [p.returnTxErrorResp tx.txId err]
  | dispatched {p₁ : Process} {sid : ℕ} {outs : List ProcessOut} : ¬ removeTxTime < el →
      ¬ cfg.execTxTimeout < el → updateProcessState { p with tx := some tx } .busy = .ok p₁ →
      p.stream = some sid →
      (sendOk = true ∧ outs = [.send sid (p.sandboxMsg tx)] ∨
        sendOk = false ∧ ∃ err, outs = [p.returnTxErrorResp tx.txId err]) →
      TxReqCase cfg p tx el sendOk { p₁ with listen := some .head } outs

theorem txReq_cases {el : ℕ} {sendOk : Bool}
    (h : act cfg p (.txReq tx el sendOk) = .ok (p', outs)) :
    (∃ q, p.listen = some (.ready q)) ∧ p.lockedBy = none ∧ TxReqCase cfg p tx el sendOk p' outs := by
  simp only [act] at h
  split at h
  · rename_i q hsel hlock
    refine ⟨⟨q, hsel⟩, hlock, ?_⟩
    obtain ⟨⟨p₁, outs₁, err⟩, h₁, h₂⟩ := Go.bind_eq_ok.1 h
    cases h₂
    unfold handleTxRequest at h₁
    by_cases h0 : removeTxTime < el
    · rw [if_pos h0] at h₁; cases h₁; exact .removed h0
    by_cases h1 : cfg.execTxTimeout < el
    · rw [if_neg h0, if_pos h1] at h₁; cases h₁; exact .expired _ h0 h1
    · rw [if_neg h0, if_neg h1] at h₁
      obtain ⟨p₂, hup, h₃⟩ := Go.bind_eq_ok.1 h₁
      obtain ⟨u, t, b, rfl⟩ := updateProcessState_eq hup
      split at h₃
      · cases h₃
      · rename_i sid hsid
        cases sendOk with
        | true => cases h₃; exact .dispatched h0 h1 hup hsid (Or.inl ⟨rfl, rfl⟩)
        | false => cases h₃; exact .dispatched h0 h1 hup hsid (Or.inr ⟨rfl, _, rfl⟩)
  · cases h

theorem changeSandbox_cases {key : RequestGroupKey} {name : String} {found : Bool}
    (h : changeSandbox p key name found sigOk = .ok (p', ok)) :
    (p.processState ≠ .idle ∧ p' = p ∧ ok = false) ∨
      (p.processState = .idle ∧ p.lockedBy = none ∧ found = false ∧
        p' = { p with requestGroup := none } ∧ ok = false) ∨
      (p.processState = .idle ∧ p.lockedBy = none ∧ found = true ∧ p.cmdReadyCh = true ∧
        (ok = true ↔ sigOk = true ∧ ∃ c sid, p.cmd = some c ∧ c.sandbox = some sid) ∧
        p' = { (resetContext p key name true).1.killed with
          lockedBy := if ok then some .changing else none }) := by
  unfold changeSandbox at h
  by_cases hst : p.processState = .idle
  · rw [if_neg (not_not.2 hst)] at h
    split_ifs at h with hlock
    rw [Option.not_isSome_iff_eq_none] at hlock
    cases found with
    | false => cases h; exact Or.inr (Or.inl ⟨hst, hlock, rfl, rfl, rfl⟩)
    | true =>
      obtain ⟨⟨p₁, killed⟩, h₁, h₂⟩ := Go.bind_eq_ok.1 h
      obtain ⟨htok, rfl, hok⟩ := killProcess_eq h₁
      refine Or.inr (Or.inr ⟨hst, hlock, rfl, htok, ?_⟩)
      cases killed with
      | true => cases h₂; exact ⟨hok, rfl⟩
      | false => cases h₂; exact ⟨hok, by rw [← hlock]; rfl⟩
  · rw [if_pos hst] at h
    cases h; exact Or.inl ⟨hst, rfl, rfl⟩

theorem closeSandbox_cases (h : closeSandbox p sigOk = .ok (p', ok)) :
    (p.processState ≠ .idle ∧ p' = p ∧ ok = false) ∨
      (p.processState = .idle ∧ p.lockedBy = none ∧ p.cmdReadyCh = true ∧
        (ok = true ↔ sigOk = true ∧ ∃ c sid, p.cmd = some c ∧ c.sandbox = some sid) ∧
        p' = { p.killed with lockedBy := if ok then some .closing else none }) := by
  unfold closeSandbox at h
  by_cases hst : p.processState = .idle
  · rw [if_neg (not_not.2 hst)] at h
    split_ifs at h with hlock
    rw [Option.not_isSome_iff_eq_none] at hlock
    obtain ⟨⟨p₁, killed⟩, h₁, h₂⟩ := Go.bind_eq_ok.1 h
    obtain ⟨htok, rfl, hok⟩ := killProcess_eq h₁
    refine Or.inr ⟨hst, hlock, htok, ?_⟩
    cases killed with
    | true => cases h₂; exact ⟨hok, rfl⟩
    | false => cases h₂; exact ⟨hok, by rw [← hlock]; rfl⟩
  · rw [if_pos hst] at h
    cases h; exact Or.inl ⟨hst, rfl, rfl⟩

theorem leaveWindow_eq {w : Window} (h : leaveWindow p w = .ok p') :
    p.lockedBy = some w ∧ ∃ u t b, p' =
      { p with
        processState := (match w with | .changing => .changing | .closing => .closing),
        lockedBy := none, updateCh := u, timer := t, timerPopped := b } := by
  unfold leaveWindow at h
  split_ifs at h with hw
  obtain ⟨p₁, h₁, h₂⟩ := Go.bind_eq_ok.1 h
  obtain ⟨u, t, b, rfl⟩ := updateProcessState_eq h₁
  cases h₂
  exact ⟨hw, u, t, b, rfl⟩

theorem setStream_eq {sid : ℕ} (h : setStream p sid = .ok p') :
    p.lockedBy = none ∧ ∃ u t b, p' =
      { p with
        processState := .ready, stream := some sid,
        updateCh := u, timer := t, timerPopped := b } := by
  unfold setStream at h
  split_ifs at h with hlock
  obtain ⟨p₁, h₁, h₂⟩ := Go.bind_eq_ok.1 h
  obtain ⟨u, t, b, rfl⟩ := updateProcessState_eq h₁
  cases h₂
  exact ⟨Option.not_isSome_iff_eq_none.1 hlock, u, t, b, rfl⟩

theorem handleIdleTxRequest_eq (h : handleIdleTxRequest p tx pmOk = .ok (p', outs)) :
    outs = [.returnTx tx] ∧
      ((pmOk = false ∧ p' = p) ∨ (pmOk = true ∧ ∃ u t b, p' =
        { p with processState := .ready, updateCh := u, timer := t, timerPopped := b })) := by
  unfold handleIdleTxRequest at h
  cases pmOk with
  | false => cases h; exact ⟨rfl, Or.inl ⟨rfl, rfl⟩⟩
  | true =>
    rw [if_pos rfl] at h
    obtain ⟨p₁, h₁, h₂⟩ := Go.bind_eq_ok.1 h
    obtain ⟨u, t, b, rfl⟩ := updateProcessState_eq h₁
    cases h₂
    exact ⟨rfl, Or.inr ⟨rfl, u, t, b, rfl⟩⟩

theorem handleTimeout_eq (h : handleTimeout p pmOk sigOk = .ok p') :
    (p.processState = .busy ∧ p.cmdReadyCh = true ∧ ∃ u t b, p' =
        { p.killed with processState := .timeout, updateCh := u, timer := t, timerPopped := b }) ∨
      (p.processState = .ready ∧ pmOk = true ∧ ∃ u t b, p' =
        { p with processState := .idle, updateCh := u, timer := t, timerPopped := b }) ∨
      ((p.processState = .ready → pmOk = false) ∧ p' = { p with timerPopped := true }) := by
  unfold handleTimeout at h
  dsimp only at h
  split at h
  · rename_i hst
    obtain ⟨p₁, h₁, h₂⟩ := Go.bind_eq_ok.1 h
    obtain ⟨u, t, b, rfl⟩ := updateProcessState_eq h₁
    obtain ⟨⟨p₂, ok⟩, h₃, h₄⟩ := Go.bind_eq_ok.1 h₂
    obtain ⟨htok, rfl, -⟩ := killProcess_eq h₃
    cases h₄
    exact Or.inl ⟨hst, htok, u, t, b, rfl⟩
  · rename_i hst
    split_ifs at h with hpm
    · obtain ⟨u, t, b, rfl⟩ := updateProcessState_eq h
      exact Or.inr (Or.inl ⟨hst, hpm, u, t, b, rfl⟩)
    · cases h
      exact Or.inr (Or.inr ⟨fun _ => by simpa using hpm, rfl⟩)
  · rename_i hb hr
    cases h
    exact Or.inr (Or.inr ⟨fun h => absurd h hr, rfl⟩)

/-- The exit messages among the outputs. -/
def exitMsgs (outs : List ProcessOut) : List SandboxExitMsg :=
  outs.filterMap fun
    | .sandboxExit msg => some msg
    | _ => none

/-- The transactions sent among the outputs, with their streams. -/
def sends (outs : List ProcessOut) : List (ℕ × DockerVMMessage) :=
  outs.filterMap fun
    | .send sid msg => some (sid, msg)
    | _ => none

/-- The transactions of the error responses among the outputs. -/
def errTxIds (outs : List ProcessOut) : List String :=
  outs.filterMap fun
    | .errResp msg => some msg.txId
    | _ => none

/-- The ways in which `handleProcessExit` ends. -/
inductive ExitCase (p : Process) (e : ExitErr) : Process → List ProcessOut → Prop
  /-- the listener returns and reports the exit; busy and timeout end in created -/
  | ended {s : ProcessState} {tx : Option DockerVMMessage} {n : ℕ} {u b : Bool} {t : Timer}
      {outs : List ProcessOut} :
      (e.kind ≠ .other ∧ s = p.processState ∨
        (p.processState = .ready ∨ p.processState = .idle) ∧ s = p.processState ∧ tx = p.tx ∨
        (p.processState = .busy ∨ p.processState = .timeout) ∧ s = .created ∧ tx = p.tx ∧
          p.tx.all (fun tx => tx.txId ∈ errTxIds outs)) →
      exitMsgs outs = [⟨p.key, p.processName⟩] → sends outs = [] →
      ExitCase p e
        { p with
          tx := tx, processState := s, launch := .none, launchPops := false, pops := n,
          listen := none, updateCh := u, timer := t, timerPopped := b } outs
  /-- the sandbox is launched again -/
  | restart {l : Option Select} {n : ℕ} {u b : Bool} {t : Timer} :
      e.kind = .other → p.processState = .created → (l = some .head ∨ l = none) →
      ExitCase p e
        { p with
          launch := .starting, launchPops := false, pops := n,
          listen := l, updateCh := u, timer := t, timerPopped := b } []
  /-- the process is started again, for another contract -/
  | restartAll {n : ℕ} : e.kind = .other → p.processState = .changing →
      ExitCase p e
        { p with
          processState := .created, launch := .starting, launchPops := true, pops := n,
          listen := some .head } []
  /-- the listener returns silently -/
  | closed {n : ℕ} {u b : Bool} {t : Timer} : e.kind = .other → p.processState = .closing →
      ExitCase p e
        { p with
          launch := .none, launchPops := false, pops := n,
          listen := none, updateCh := u, timer := t, timerPopped := b } []

theorem finishExit_eq (hf : f.restartAll = false) :
    ∃ n l t b, finishExit p f =
        { p with
          launch := if f.restartSandbox then .starting else .none, launchPops := false,
          pops := n, listen := l, timer := t, timerPopped := b } ∧
      (l = none ∨ l = some .head ∧ f.released = false) := by
  unfold finishExit
  simp only [hf, Bool.or_false, Bool.false_eq_true, if_false]
  split
  · rename_i q hq
    obtain ⟨t, rfl⟩ := popTimer_eq hq
    refine ⟨_, _, _, _, rfl, ?_⟩
    cases f.released
    · exact Or.inr ⟨rfl, rfl⟩
    · exact Or.inl rfl
  · exact ⟨_, _, _, _, rfl, Or.inl rfl⟩

theorem returnBadContractResp_eq {flag : Bool} (h : returnBadContractResp p flag cfv = .ok outs) :
    (flag = false ∧ outs = []) ∨ ∃ g msg, outs = [.badContract g msg] := by
  unfold returnBadContractResp at h
  cases flag with
  | false => cases h; exact Or.inl ⟨rfl, rfl⟩
  | true =>
    rw [if_pos rfl] at h
    split at h
    · cases h; exact Or.inr ⟨_, _, rfl⟩
    · cases h

theorem exitResponses_eq (h : exitResponses p e f cfv = .ok outs) :
    exitMsgs outs = (if f.exitSandbox then [⟨p.key, p.processName⟩] else []) ∧ sends outs = [] ∧
      (f.returnErrResp = true → ∀ tx ∈ p.tx, tx.txId ∈ errTxIds outs) ∧
      (f.exitSandbox = false → f.returnErrResp = false → f.returnBadContractResp = false →
        outs = []) := by
  obtain ⟨bad, hb, h⟩ := Go.bind_eq_ok.1 h
  have hbad : exitMsgs bad = [] ∧ sends bad = [] := by
    rcases returnBadContractResp_eq hb with ⟨-, rfl⟩ | ⟨g, msg, rfl⟩
    · exact ⟨rfl, rfl⟩
    · exact ⟨rfl, rfl⟩
  obtain ⟨h1, h2⟩ := hbad
  unfold exitMsgs at h1 ⊢
  unfold sends at h2 ⊢
  cases h
  refine ⟨?_, ?_, ?_, ?_⟩
  · rw [List.filterMap_append, List.filterMap_append, h1]
    cases f.returnErrResp <;> cases f.exitSandbox <;> rfl
  · rw [List.filterMap_append, List.filterMap_append, h2]
    cases f.returnErrResp <;> cases f.exitSandbox <;> rfl
  · intro hr tx htx
    rw [Option.mem_def] at htx
    simp [hr, htx, errTxIds, returnTxErrorResp, txErrorResp]
  · intro hx hr hbc
    rw [hbc] at hb
    cases hb
    rw [hx, hr]; rfl

/-- The goroutines when the listener returns for good. -/
theorem finishExit_released (hall : f.restartAll = false) (hone : f.restartSandbox = false)
    (hrel : f.released = true) :
    ∃ n t b, finishExit p f =
      { p with
        launch := .none, launchPops := false, pops := n, listen := none, timer := t,
        timerPopped := b } := by
  obtain ⟨n, l, t, b, h, hl⟩ := finishExit_eq (p := p) hall
  rw [hone] at h
  rcases hl with rfl | ⟨-, hl⟩
  · exact ⟨n, t, b, h⟩
  · rw [hrel] at hl; cases hl

/-- A transaction taken from the queue changes `p.tx` only. -/
theorem exitBody_launch {outs₁ : List ProcessOut} (hk : e.kind ≠ .other)
    (h : exitBody p e next = .ok (p', outs₁, f)) :
    (∃ tx, p' = { p with tx := tx }) ∧ exitMsgs outs₁ = [] ∧ sends outs₁ = [] ∧
      f.exitSandbox = true ∧ f.restartAll = false ∧ f.restartSandbox = false ∧
      f.released = true := by
  unfold exitBody at h
  split at h
  · cases h; exact ⟨⟨_, rfl⟩, rfl, rfl, rfl, rfl, rfl, rfl⟩
  · cases h; exact ⟨⟨_, rfl⟩, rfl, rfl, rfl, rfl, rfl, rfl⟩
  · cases h; exact ⟨⟨_, rfl⟩, rfl, rfl, rfl, rfl, rfl, rfl⟩
  · cases h; exact ⟨⟨_, rfl⟩, rfl, rfl, rfl, rfl, rfl, rfl⟩
  · rename_i hk'; exact absurd hk' hk

/-- In a state with a sandbox to report, the listener ends. -/
theorem exitBody_report {outs₁ : List ProcessOut} (hk : e.kind = .other)
    (hs : p.processState = .ready ∨ p.processState = .idle ∨ p.processState = .busy ∨
      p.processState = .timeout) (h : exitBody p e next = .ok (p', outs₁, f)) :
    outs₁ = [] ∧ f.exitSandbox = true ∧ f.restartAll = false ∧ f.restartSandbox = false ∧
      f.released = true ∧
      ((p.processState = .ready ∨ p.processState = .idle) ∧ p' = p ∨
        (p.processState = .busy ∨ p.processState = .timeout) ∧
          p' = { p with processState := .created } ∧ f.returnErrResp = true) := by
  simp only [exitBody, hk] at h
  rcases hs with hs | hs | hs | hs
  · rw [hs] at h
    dsimp only at h
    split at h <;> cases h <;> exact ⟨rfl, rfl, rfl, rfl, rfl, Or.inl ⟨Or.inl hs, rfl⟩⟩
  · rw [hs] at h
    cases h; exact ⟨rfl, rfl, rfl, rfl, rfl, Or.inl ⟨Or.inr hs, rfl⟩⟩
  · rw [hs] at h
    dsimp only at h
    split at h
    · cases h
    · cases h; exact ⟨rfl, rfl, rfl, rfl, rfl, Or.inr ⟨Or.inl hs, rfl, rfl⟩⟩
  · rw [hs] at h
    cases h; exact ⟨rfl, rfl, rfl, rfl, rfl, Or.inr ⟨Or.inr hs, rfl, rfl⟩⟩

theorem handleProcessExit_cases (h : handleProcessExit p e next cfv = .ok (p', outs)) :
    ExitCase p e p' outs := by
  obtain ⟨⟨p₁, outs₁, f⟩, hb, h⟩ := Go.bind_eq_ok.1 h
  obtain ⟨resps, hr, h⟩ := Go.bind_eq_ok.1 h
  cases h
  obtain ⟨hm, hsd, he, hn⟩ := exitResponses_eq hr
  have happ : exitMsgs (outs₁ ++ resps) = exitMsgs outs₁ ++ exitMsgs resps :=
    List.filterMap_append ..
  have happ' : sends (outs₁ ++ resps) = sends outs₁ ++ sends resps := List.filterMap_append ..
  by_cases hk : e.kind = .other
  · cases hst : p.processState with
    | created =>
      simp only [exitBody, hk, hst] at hb
      cases hb
      rw [hn rfl rfl rfl]
      obtain ⟨n, l, t, b, hf, hl⟩ := finishExit_eq (p := p)
        (f := { restartSandbox := true, errRet := e.err, released := false }) rfl
      rw [hf]
      refine .restart hk hst ?_
      rcases hl with rfl | ⟨rfl, -⟩
      · exact Or.inr rfl
      · exact Or.inl rfl
    | changing =>
      simp only [exitBody, hk, hst] at hb
      cases hb
      rw [hn rfl rfl rfl]
      exact .restartAll hk hst
    | closing =>
      simp only [exitBody, hk, hst] at hb
      cases hb
      rw [hn rfl rfl rfl]
      obtain ⟨n, t, b, hf⟩ := finishExit_released (p := p) (f := { errRet := e.err }) rfl rfl rfl
      rw [hf]
      exact .closed hk hst
    | ready | idle | busy | timeout =>
      obtain ⟨rfl, hx, hall, hone, hrel, hp⟩ := exitBody_report hk (by simp [hst]) hb
      obtain ⟨n, t, b, hf⟩ := finishExit_released (p := p₁) hall hone hrel
      rw [hf]
      rw [hx, if_pos rfl] at hm
      rcases hp with ⟨hs, rfl⟩ | ⟨hs, rfl, hret⟩
      · exact .ended (Or.inr (Or.inl ⟨hs, rfl, rfl⟩)) hm hsd
      · refine .ended (Or.inr (Or.inr ⟨hs, rfl, rfl, ?_⟩)) hm hsd
        cases htx : p.tx with
        | none => rfl
        | some tx => simpa using he hret tx htx
  · obtain ⟨⟨tx, rfl⟩, ho, ho', hx, hall, hone, hrel⟩ := exitBody_launch hk hb
    obtain ⟨n, t, b, hf⟩ := finishExit_released (p := { p with tx := tx }) hall hone hrel
    rw [hf]
    rw [hx, if_pos rfl] at hm
    refine .ended (Or.inl ⟨hk, rfl⟩) ?_ ?_
    · rw [happ, ho, hm]; rfl
    · rw [happ', ho', hsd]; rfl

/-! ## Steps -/

/-- The effects of the actions. -/
inductive ProcStep (p : Process) : Action → Process → List ProcessOut → Prop
  | loopHead : p.listen = some .head →
      ProcStep p .loopHead { p with listen := some p.selectFor } []
  | wake : p.listen = some .other →
      ProcStep p .wake { p with updateCh := false, listen := some .head } []
  /-- a transaction that is too old is dropped -/
  | dropped {tx : DockerVMMessage} {el : ℕ} {sendOk : Bool} {q : String} {outs : List ProcessOut} :
      p.listen = some (.ready q) →
      (outs = [] ∨ ∃ err, outs = [p.returnTxErrorResp tx.txId err]) →
      ProcStep p (.txReq tx el sendOk) { p with listen := some .head } outs
  | dispatched {tx : DockerVMMessage} {el : ℕ} {sendOk : Bool} {q : String} {sid : ℕ}
      {outs : List ProcessOut} {u b : Bool} {t : Timer} :
      p.listen = some (.ready q) → p.lockedBy = none → p.stream = some sid →
      (outs = [.send sid (p.sandboxMsg tx)] ∨ ∃ err, outs = [p.returnTxErrorResp tx.txId err]) →
      ProcStep p (.txReq tx el sendOk)
        { p with
          tx := some tx, processState := .busy, listen := some .head,
          updateCh := u, timer := t, timerPopped := b } outs
  | idleKept {tx : DockerVMMessage} {q : String} : p.listen = some (.idle q) →
      ProcStep p (.idleTxReq tx false) { p with listen := some .head } [.returnTx tx]
  | idleTaken {tx : DockerVMMessage} {q : String} {u b : Bool} {t : Timer} :
      p.listen = some (.idle q) → p.lockedBy = none →
      ProcStep p (.idleTxReq tx true)
        { p with
          processState := .ready, listen := some .head,
          updateCh := u, timer := t, timerPopped := b } [.returnTx tx]
  | answered {sigOk : Bool} {msg tx : DockerVMMessage} {u b : Bool} {t : Timer} :
      p.listen = some .busy → p.respCh = some msg → p.lockedBy = none → p.tx = some tx →
      ¬ DeployError tx msg →
      ProcStep p (.txResp sigOk)
        { p with
          respCh := none, processState := .ready, listen := some .head,
          updateCh := u, timer := t, timerPopped := b } []
  /-- the answer is an error of `init_contract` or `upgrade` -/
  | deployFailed {sigOk : Bool} {msg tx : DockerVMMessage} {u b : Bool} {t : Timer} :
      p.listen = some .busy → p.respCh = some msg → p.lockedBy = none → p.tx = some tx →
      DeployError tx msg → p.cmdReadyCh = true →
      ProcStep p (.txResp sigOk)
        { p.killed with
          respCh := none, processState := .ready, listen := some .head,
          updateCh := u, timer := t, timerPopped := b } []
  | busyTimeout {pmOk sigOk : Bool} {sel : Select} {u b : Bool} {t : Timer} :
      p.listen = some sel → (sel = .busy ∨ ∃ q, sel = .ready q) → p.lockedBy = none →
      p.processState = .busy → p.cmdReadyCh = true →
      ProcStep p (.tick pmOk sigOk)
        { p.killed with
          processState := .timeout, listen := some .head,
          updateCh := u, timer := t, timerPopped := b } []
  | readyTimeout {sigOk : Bool} {sel : Select} {u b : Bool} {t : Timer} :
      p.listen = some sel → (sel = .busy ∨ ∃ q, sel = .ready q) → p.lockedBy = none →
      p.processState = .ready →
      ProcStep p (.tick true sigOk)
        { p with
          processState := .idle, listen := some .head,
          updateCh := u, timer := t, timerPopped := b } []
  | strayTimeout {pmOk sigOk : Bool} {sel : Select} {b : Bool} {t : Timer} :
      p.listen = some sel → (sel = .busy ∨ ∃ q, sel = .ready q) → p.lockedBy = none →
      (p.processState = .ready → pmOk = false) →
      ProcStep p (.tick pmOk sigOk)
        { p with listen := some .head, timer := t, timerPopped := b } []
  | exit {next : Option DockerVMMessage} {cfv : ℤ} {e : ExitErr} {sel : Select} {p' : Process}
      {outs : List ProcessOut} :
      p.launch = .exited e → p.listen = some sel → sel ≠ .head → ExitCase p e p' outs →
      handleProcessExit p e next cfv = .ok (p', outs) → ProcStep p (.exit next cfv) p' outs
  | putMsg {msg : DockerVMMessage} : p.respCh = none →
      ProcStep p (.putMsg msg) { p with respCh := some msg } []
  | setStream {sid : ℕ} {u b : Bool} {t : Timer} : p.lockedBy = none →
      ProcStep p (.setStream sid)
        { p with
          processState := .ready, stream := some sid,
          updateCh := u, timer := t, timerPopped := b } []
  | refused {key : RequestGroupKey} {name : String} {found sigOk : Bool} :
      p.processState ≠ .idle → ProcStep p (.changeSandbox key name found sigOk) p []
  | noGroup {key : RequestGroupKey} {name : String} {sigOk : Bool} :
      p.processState = .idle → p.lockedBy = none →
      ProcStep p (.changeSandbox key name false sigOk) { p with requestGroup := none } []
  | changeSandbox {key : RequestGroupKey} {name : String} {sigOk ok : Bool} :
      p.processState = .idle → p.lockedBy = none → p.cmdReadyCh = true →
      (ok = true → sigOk = true ∧ ∃ c sid, p.cmd = some c ∧ c.sandbox = some sid) →
      ProcStep p (.changeSandbox key name true sigOk)
        { (resetContext p key name true).1.killed with
          lockedBy := if ok then some .changing else none } []
  | refusedClose {sigOk : Bool} : p.processState ≠ .idle → ProcStep p (.closeSandbox sigOk) p []
  | closeSandbox {sigOk ok : Bool} :
      p.processState = .idle → p.lockedBy = none → p.cmdReadyCh = true →
      (ok = true → sigOk = true ∧ ∃ c sid, p.cmd = some c ∧ c.sandbox = some sid) →
      ProcStep p (.closeSandbox sigOk)
        { p.killed with lockedBy := if ok then some .closing else none } []
  | leaveWindow {w : Window} {u b : Bool} {t : Timer} : p.lockedBy = some w →
      ProcStep p (.leaveWindow w)
        { p with
          processState := (match w with | .changing => .changing | .closing => .closing),
          lockedBy := none, updateCh := u, timer := t, timerPopped := b } []
  | launchProcess {o : LaunchOutcome} : p.launch = .starting →
      ProcStep p (.launchProcess o) (p.launchProcess o) []
  | sendReady {sid : ℕ} : p.launch = .sending sid → p.cmdReadyCh = false →
      ProcStep p .sendReady { p with cmdReadyCh := true, launch := .running sid } []
  | cgroupError {err : String} {sid : ℕ} : p.launch = .running sid →
      ProcStep p (.cgroupError err) { p with launch := .exited ⟨.other, err, none⟩ } []
  | wait {err : Option (String × Option ℤ)} {sid : ℕ} : p.launch = .running sid →
      ProcStep p (.wait err) { p with launch := .exited (waitErr err) } []
  | expire {t : Timer} : ProcStep p .expire { p with timer := t } []
  | pop {n : ℕ} {b : Bool} {t : Timer} :
      ProcStep p .pop { p with pops := n, timer := t, timerPopped := b } []

theorem txReq_step {el : ℕ} {sendOk : Bool} (h : act cfg p (.txReq tx el sendOk) = .ok (p', outs)) :
    ProcStep p (.txReq tx el sendOk) p' outs := by
  obtain ⟨⟨q, hsel⟩, hlock, hcase⟩ := txReq_cases h
  cases hcase with
  | removed _ => exact .dropped hsel (Or.inl rfl)
  | expired err _ _ => exact .dropped hsel (Or.inr ⟨err, rfl⟩)
  | dispatched _ _ hup hsid ho =>
    obtain ⟨u, t, b, rfl⟩ := updateProcessState_eq hup
    exact .dispatched hsel hlock hsid (ho.imp And.right And.right)

theorem tick_step (h : act cfg p (.tick pmOk sigOk) = .ok (p', outs)) :
    ProcStep p (.tick pmOk sigOk) p' outs := by
  have key : ∀ {sel : Select} {t : Timer}, p.listen = some sel → (sel = .busy ∨ ∃ q, sel = .ready q) →
      p.lockedBy = none →
      (do let p ← handleTimeout { p with timer := t } pmOk sigOk
          return ({ p with listen := some .head }, [])) = Except.ok (p', outs) →
      ProcStep p (.tick pmOk sigOk) p' outs := by
    intro sel t hsel hs hlock h
    obtain ⟨p₁, h₁, h₂⟩ := Go.bind_eq_ok.1 h
    cases h₂
    rcases handleTimeout_eq h₁ with ⟨hst, htok, u, t, b, rfl⟩ | ⟨hst, rfl, u, t, b, rfl⟩ | ⟨hst, rfl⟩
    · exact .busyTimeout hsel hs hlock hst htok
    · exact .readyTimeout hsel hs hlock hst
    · exact .strayTimeout hsel hs hlock hst
  simp only [act] at h
  split at h
  · rename_i q t hsel _ hlock
    exact key hsel (Or.inr ⟨q, rfl⟩) hlock h
  · rename_i t hsel _ hlock
    exact key hsel (Or.inl rfl) hlock h
  · cases h

theorem txResp_step (h : act cfg p (.txResp sigOk) = .ok (p', outs)) :
    ProcStep p (.txResp sigOk) p' outs := by
  simp only [act] at h
  split at h
  · rename_i msg hsel hresp hlock
    obtain ⟨p₁, h₁, h₂⟩ := Go.bind_eq_ok.1 h
    cases h₂
    obtain ⟨tx, htx, u, t, b, ⟨hd, rfl⟩ | ⟨hd, htok, rfl⟩⟩ := handleTxResp_eq h₁
    · exact .answered hsel hresp hlock htx hd
    · exact .deployFailed hsel hresp hlock htx hd htok
  · cases h

theorem exit_step (h : act cfg p (.exit next cfv) = .ok (p', outs)) :
    ProcStep p (.exit next cfv) p' outs := by
  simp only [act] at h
  split at h
  · rename_i e sel hl hsel
    split_ifs at h with hh
    exact .exit hl hsel hh (handleProcessExit_cases h) h
  · cases h

theorem call_step {key : RequestGroupKey} {name : String} {found : Bool}
    (h : act cfg p (.changeSandbox key name found sigOk) = .ok (p', outs)) :
    ProcStep p (.changeSandbox key name found sigOk) p' outs := by
  obtain ⟨⟨p₁, ok⟩, h₁, h₂⟩ := Go.bind_eq_ok.1 h
  cases h₂
  rcases changeSandbox_cases h₁ with ⟨hst, rfl, -⟩ | ⟨hst, hlock, rfl, rfl, -⟩ |
    ⟨hst, hlock, rfl, htok, hok, rfl⟩
  · exact .refused hst
  · exact .noGroup hst hlock
  · exact .changeSandbox hst hlock htok hok.1

/-- Every step is one of `ProcStep`. -/
theorem act_step (h : act cfg p a = .ok (p', outs)) : ProcStep p a p' outs := by
  cases a with
  | loopHead =>
    simp only [act] at h
    split_ifs at h with hl
    cases h; exact .loopHead hl
  | wake =>
    simp only [act] at h
    split_ifs at h with hl
    cases h; exact .wake hl.1
  | txReq tx el sendOk => exact txReq_step h
  | idleTxReq tx pmOk =>
    simp only [act] at h
    split at h
    · rename_i q hsel
      split_ifs at h with hlock
      obtain ⟨⟨p₁, outs₁⟩, h₁, h₂⟩ := Go.bind_eq_ok.1 h
      cases h₂
      obtain ⟨rfl, ⟨rfl, rfl⟩ | ⟨rfl, u, t, b, rfl⟩⟩ := handleIdleTxRequest_eq h₁
      · exact .idleKept hsel
      · exact .idleTaken hsel (by simpa using hlock)
    · cases h
  | txResp sigOk => exact txResp_step h
  | tick pmOk sigOk => exact tick_step h
  | exit next cfv => exact exit_step h
  | putMsg msg =>
    simp only [act] at h
    split_ifs at h with hr
    cases h; exact .putMsg (Option.not_isSome_iff_eq_none.1 hr)
  | setStream sid =>
    obtain ⟨p₁, h₁, h₂⟩ := Go.bind_eq_ok.1 h
    obtain ⟨hlock, u, t, b, rfl⟩ := setStream_eq h₁
    cases h₂; exact .setStream hlock
  | changeSandbox key name found sigOk => exact call_step h
  | closeSandbox sigOk =>
    obtain ⟨⟨p₁, ok⟩, h₁, h₂⟩ := Go.bind_eq_ok.1 h
    cases h₂
    rcases closeSandbox_cases h₁ with ⟨hst, rfl, -⟩ | ⟨hst, hlock, htok, hok, rfl⟩
    · exact .refusedClose hst
    · exact .closeSandbox hst hlock htok hok.1
  | leaveWindow w =>
    obtain ⟨p₁, h₁, h₂⟩ := Go.bind_eq_ok.1 h
    obtain ⟨hw, u, t, b, rfl⟩ := leaveWindow_eq h₁
    cases h₂; exact .leaveWindow hw
  | launchProcess o =>
    simp only [act] at h
    split_ifs at h with hl
    cases h; exact .launchProcess hl
  | sendReady =>
    simp only [act] at h
    split at h
    · rename_i sid hl
      split_ifs at h with htok
      cases h; exact .sendReady hl (by simpa using htok)
    · cases h
  | cgroupError err =>
    simp only [act] at h
    split at h
    · rename_i sid hl
      cases h; exact .cgroupError hl
    · cases h
  | wait err =>
    simp only [act] at h
    split at h
    · rename_i sid hl
      cases h; exact .wait hl
    · cases h
  | expire =>
    simp only [act] at h
    split at h
    · cases h
    · cases h; exact .expire
  | pop =>
    simp only [act] at h
    split_ifs at h
    obtain ⟨p₁, h₁, h₂⟩ := Go.bind_eq_ok.1 h
    obtain ⟨t, rfl⟩ := popTimer_eq h₁
    cases h₂; exact .pop

theorem step_eq_some (h : step cfg p a = some p') : ∃ outs, act cfg p a = .ok (p', outs) := by
  obtain ⟨⟨_, outs⟩, hact, rfl⟩ := Option.map_eq_some_iff.1 h
  exact ⟨outs, Go.toOption_eq_some.1 hact⟩

/-! ## What most steps leave alone -/

/-- The steps that a process manager makes. -/
def Action.OfManager : Action → Bool
  | .changeSandbox _ _ _ _ | .closeSandbox _ | .leaveWindow _ => true
  | _ => false

/-- The fields that only a manager changes. -/
structure Frame (p p' : Process) : Prop where
  processName : p'.processName = p.processName
  key : p'.key = p.key
  txCh : p'.txCh = p.txCh
  isOrigProcess : p'.isOrigProcess = p.isOrigProcess
  user : p'.user = p.user
  lockedBy : p'.lockedBy = p.lockedBy

theorem ExitCase.frame (h : ExitCase p e p' outs) : Frame p p' := by
  cases h <;> exact ⟨rfl, rfl, rfl, rfl, rfl, rfl⟩

theorem launchProcess_frame (p : Process) (out : LaunchOutcome) :
    Frame p (p.launchProcess out) ∧ (p.launchProcess out).processState = p.processState ∧
      (p.launchProcess out).listen = p.listen := by
  cases out with
  | pipeError err => exact ⟨⟨rfl, rfl, rfl, rfl, rfl, rfl⟩, rfl, rfl⟩
  | startError notExist cfv => exact ⟨⟨rfl, rfl, rfl, rfl, rfl, rfl⟩, rfl, rfl⟩
  | started sid =>
    unfold launchProcess
    dsimp only
    split_ifs <;> exact ⟨⟨rfl, rfl, rfl, rfl, rfl, rfl⟩, rfl, rfl⟩

theorem ProcStep.frame (h : ProcStep p a p' outs) (ha : a.OfManager = false) : Frame p p' := by
  cases h with
  | exit _ _ _ hc _ => exact hc.frame
  | launchProcess _ => exact (launchProcess_frame p _).1
  | refused _ | noGroup _ _ | changeSandbox _ _ _ _ | refusedClose _ | closeSandbox _ _ _ _
  | leaveWindow _ => cases ha
  | _ => exact ⟨rfl, rfl, rfl, rfl, rfl, rfl⟩

/-- A process becomes idle by a timeout that the manager accepts. -/
theorem ProcStep.idle (h : ProcStep p a p' outs) (ha : a.OfManager = false)
    (hi : p'.processState = .idle) : p.processState = .idle ∨ ∃ sigOk, a = .tick true sigOk := by
  cases h with
  | exit _ _ _ hc _ =>
    refine Or.inl ?_
    cases hc with
    | ended hs _ _ =>
      rcases hs with ⟨-, rfl⟩ | ⟨-, rfl, -⟩ | ⟨-, rfl, -⟩
      · exact hi
      · exact hi
      · cases hi
    | restart _ _ _ => exact hi
    | restartAll _ _ => cases hi
    | closed _ _ => exact hi
  | readyTimeout _ _ _ _ => exact Or.inr ⟨_, rfl⟩
  | launchProcess _ => exact Or.inl ((launchProcess_frame p _).2.1.symm.trans hi)
  | dispatched _ _ _ _ | idleTaken _ _ | answered _ _ _ _ _ | deployFailed _ _ _ _ _ _
  | busyTimeout _ _ _ _ _ | setStream _ => cases hi
  | refused _ | noGroup _ _ | changeSandbox _ _ _ _ | refusedClose _ | closeSandbox _ _ _ _
  | leaveWindow _ => cases ha
  | _ => exact Or.inl hi

/-- A process sends exit messages with its own name, and then returns. -/
theorem ProcStep.exitMsgs (h : ProcStep p a p' outs) :
    exitMsgs outs = [] ∨ (exitMsgs outs = [⟨p.key, p.processName⟩] ∧ ∃ next cfv e,
      a = .exit next cfv ∧ p.launch = .exited e ∧ p.listen.isSome ∧ p'.listen = none ∧
        p'.launch = .none ∧ (e.kind = .other → p.processState ≠ .closing)) := by
  cases h with
  | exit hl hsel _ hc _ =>
    cases hc with
    | ended hs hm _ =>
      refine Or.inr ⟨hm, _, _, _, rfl, hl, by rw [hsel]; rfl, rfl, rfl, fun hk hst => ?_⟩
      rcases hs with ⟨hk', -⟩ | ⟨hs, -⟩ | ⟨hs, -⟩
      · exact hk' hk
      · rw [hst] at hs; simp at hs
      · rw [hst] at hs; simp at hs
    | restart _ _ _ => exact Or.inl rfl
    | restartAll _ _ => exact Or.inl rfl
    | closed _ _ => exact Or.inl rfl
  | dropped _ ho =>
    rcases ho with rfl | ⟨err, rfl⟩ <;> exact Or.inl rfl
  | dispatched _ _ _ ho =>
    rcases ho with rfl | ⟨err, rfl⟩ <;> exact Or.inl rfl
  | _ => exact Or.inl rfl

/-- A process that was not launched again stays so. -/
theorem ProcStep.launch_none (h : ProcStep p a p' outs) (hl : p.launch = .none) :
    p'.launch = .none := by
  cases h with
  | exit hl' _ _ _ _ => rw [hl] at hl'; cases hl'
  | launchProcess hl' => rw [hl] at hl'; cases hl'
  | sendReady hl' _ | cgroupError hl' | wait hl' => rw [hl] at hl'; cases hl'
  | _ => exact hl

/-- A listener that has returned does not come back. -/
theorem ProcStep.listen_none (h : ProcStep p a p' outs) (hl : p.listen = none) :
    p'.listen = none := by
  cases h with
  | loopHead hl' | wake hl' | dropped hl' _ | dispatched hl' _ _ _ | idleKept hl' | idleTaken hl' _
  | answered hl' _ _ _ _ | deployFailed hl' _ _ _ _ _ | busyTimeout hl' _ _ _ _
  | readyTimeout hl' _ _ _ | strayTimeout hl' _ _ _ => rw [hl] at hl'; cases hl'
  | exit _ hl' _ _ _ => rw [hl] at hl'; cases hl'
  | launchProcess _ => exact (launchProcess_frame p _).2.2.trans hl
  | _ => exact hl

end Process

end VmEngine
