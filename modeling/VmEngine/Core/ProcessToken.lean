/-
  The token of `cmdReadyCh`.

  `launchProcess` puts a token when it has started a command and `killProcess`
  takes one before it signals the command, both with blocking channel operations,
  the second while `p.lock` is held.  The token belongs to the current command as
  long as three things do not happen (`TokenOk`): a command is killed twice, a
  sandbox exits between its start and its registration (the restart then starts a
  second command before the first token is taken), and a sandbox registers for a
  command that is not started.  Each of the first two blocks (`cmdReadyCh_blocks`).
-/
import VmEngine.Core.ProcessStep

namespace VmEngine

/-- The `select`s that receive from the timer. -/
def Select.timed : Select → Bool
  | .ready _ | .busy => true
  | _ => false

namespace Process
variable {cfg : ProcessConfig} {p p' : Process} {a : Action} {outs : List ProcessOut}

/-- The current command has been started. -/
def Started (p : Process) : Prop := p.cmd.any (·.sandbox.isSome) = true

/-- `killProcess` has signalled the current command. -/
def Signalled (p : Process) : Prop := p.cmd.any (·.signalled) = true

/-- The current command has been started and not been signalled. -/
def Unsignalled (p : Process) : Prop := p.cmd.any (fun c => c.sandbox.isSome && !c.signalled) = true

instance (p : Process) : Decidable p.Started := inferInstanceAs (Decidable (_ = _))
instance (p : Process) : Decidable p.Signalled := inferInstanceAs (Decidable (_ = _))
instance (p : Process) : Decidable p.Unsignalled := inferInstanceAs (Decidable (_ = _))

theorem unsignalled_of (h : p.Started) (h' : ¬ p.Signalled) : p.Unsignalled := by
  unfold Started at h
  unfold Signalled at h'
  unfold Unsignalled
  cases hc : p.cmd with
  | none => rw [hc] at h; cases h
  | some c => rw [hc] at h h'; simp_all

theorem started_killed : p.killed.Started ↔ p.Started := by
  unfold Started killed
  cases p.cmd <;> rfl

theorem not_unsignalled_killed : ¬ p.killed.Unsignalled := by
  unfold Unsignalled killed
  cases p.cmd <;> simp

/-- The step calls `killProcess`. -/
def CallsKill (p : Process) : Action → Prop
  | .changeSandbox _ _ found _ => found = true ∧ p.processState = .idle ∧ p.lockedBy = none
  | .closeSandbox _ => p.processState = .idle ∧ p.lockedBy = none
  | .txResp _ => p.listen = some .busy ∧ p.lockedBy = none ∧
      (p.respCh.any fun msg => p.tx.any fun tx => DeployError tx msg) = true
  | .tick _ _ => p.listen.any Select.timed = true ∧ p.lockedBy = none ∧ p.timer.tick = true ∧
      p.processState = .busy
  | _ => False

instance (p : Process) : DecidablePred p.CallsKill
  | .changeSandbox _ _ _ _ | .txResp _ | .tick _ _ | .closeSandbox _ =>
    inferInstanceAs (Decidable (_ ∧ _))
  | .loopHead | .wake | .txReq _ _ _ | .idleTxReq _ _ | .exit _ _ | .putMsg _ | .setStream _
  | .leaveWindow _ | .launchProcess _ | .sendReady | .cgroupError _ | .wait _ | .expire | .pop =>
    instDecidableFalse

/-- A sandbox registers for a started command, no started command exits before a
    sandbox has registered, and no command is signalled twice. -/
def TokenOk (p : Process) : Action → Prop
  | .setStream _ => p.Started ∧ p.launch ≠ .starting
  | .exit _ _ => p.processState = .created → ¬ p.Unsignalled
  | a => p.CallsKill a → ¬ p.Signalled

instance : DecidableRel TokenOk
  | p, .setStream _ => inferInstanceAs (Decidable (p.Started ∧ p.launch ≠ .starting))
  | p, .exit _ _ => inferInstanceAs (Decidable (p.processState = .created → ¬ p.Unsignalled))
  | p, .changeSandbox _ _ _ _ | p, .closeSandbox _ | p, .txResp _ | p, .tick _ _ | p, .loopHead
  | p, .wake | p, .txReq _ _ _ | p, .idleTxReq _ _ | p, .putMsg _ | p, .leaveWindow _
  | p, .launchProcess _ | p, .sendReady | p, .cgroupError _ | p, .wait _ | p, .expire | p, .pop =>
    inferInstanceAs (Decidable (p.CallsKill _ → ¬ p.Signalled))

/-! ## The invariant -/

structure TokenInv (p : Process) : Prop where
  token : p.cmdReadyCh = true ↔ p.Unsignalled
  started : p.processState ≠ .created → p.Started
  starting : p.launch = .starting → p.processState = .created ∧ ¬ p.Unsignalled
  sending : ∀ sid, p.launch ≠ .sending sid
  changing : p.processState = .changing → ¬ p.Unsignalled
  locked : p.lockedBy.isSome → p.processState = .idle ∧ ¬ p.Unsignalled
  select : ∀ sel, p.listen = some sel → sel ≠ .head → sel ≠ .other → p.processState ≠ .created

theorem tokenInv_new (user : ℕ) (key : RequestGroupKey) (name : String) (o : Bool) :
    TokenInv (new user key name o) where
  token := by constructor <;> intro h <;> cases h
  started h := absurd rfl h
  starting _ := ⟨rfl, fun h => by cases h⟩
  sending _ h := by cases h
  changing h := by cases h
  locked h := by cases h
  select sel h := by cases h; intro h; exact absurd rfl h

/-- In the timed `select`s the process is past its registration. -/
theorem TokenInv.started_of_listen (h : TokenInv p) {sel : Select} (hsel : p.listen = some sel)
    (h0 : sel ≠ .head) (h1 : sel ≠ .other) : p.Started :=
  h.started (h.select sel hsel h0 h1)

/-- A handler of the listener that leaves the command alone and enters the state `s`. -/
theorem TokenInv.serve (h : TokenInv p) {sel : Select} (hsel : p.listen = some sel)
    (h0 : sel ≠ .head) (h1 : sel ≠ .other) (hlock : p.lockedBy = none)
    {s : ProcessState} (hs : s ≠ .changing) {q : Process} (hcmd : q.cmd = p.cmd)
    (htok : q.cmdReadyCh = p.cmdReadyCh) (hl : q.launch = p.launch) (hk : q.lockedBy = p.lockedBy)
    (hst : q.processState = s) (hlisten : q.listen = some .head) : TokenInv q := by
  have hq : q.Started ↔ p.Started := by unfold Started; rw [hcmd]
  have hu : q.Unsignalled ↔ p.Unsignalled := by unfold Unsignalled; rw [hcmd]
  refine ⟨?_, fun _ => ?_, fun hst => ?_, fun sid => ?_, fun hc => ?_, fun hk' => ?_, ?_⟩
  · rw [htok, hu]; exact h.token
  · rw [hq]; exact h.started_of_listen hsel h0 h1
  · rw [hl] at hst
    exact absurd (h.starting hst).1 (h.select sel hsel h0 h1)
  · rw [hl]; exact h.sending sid
  · rw [hst] at hc; exact absurd hc hs
  · rw [hk, hlock] at hk'; cases hk'
  · intro sel' hsel' h0'
    rw [hlisten] at hsel'; cases hsel'; exact absurd rfl h0'

/-- A call of `killProcess` takes the token of the current command. -/
theorem TokenInv.kill (h : TokenInv p) (hst : p.processState ≠ .created) : TokenInv p.killed where
  token := ⟨fun ht => (by cases ht), fun hu => absurd hu not_unsignalled_killed⟩
  started _ := started_killed.2 (h.started hst)
  starting hl := absurd (h.starting hl).1 hst
  sending := h.sending
  changing _ := not_unsignalled_killed
  locked hk := ⟨(h.locked hk).1, not_unsignalled_killed⟩
  select := h.select

theorem TokenInv.exit {e : ExitErr} (h : TokenInv p) (hok : p.processState = .created → ¬ p.Unsignalled)
    (hs : ExitCase p e p' outs) : TokenInv p' := by
  cases hs with
  | ended hst _ _ =>
    refine ⟨h.token, fun hne => ?_, fun hl => (by cases hl), fun _ hl => (by cases hl), fun hc => ?_,
      fun hk => ?_, fun _ hl => (by cases hl)⟩
    · rcases hst with ⟨-, rfl⟩ | ⟨-, rfl, -⟩ | ⟨-, rfl, -⟩
      · exact h.started hne
      · exact h.started hne
      · exact absurd rfl hne
    · rcases hst with ⟨-, rfl⟩ | ⟨-, rfl, -⟩ | ⟨-, rfl, -⟩
      · exact h.changing hc
      · exact h.changing hc
      · cases hc
    · obtain ⟨hidle, hu⟩ := h.locked hk
      rcases hst with ⟨-, rfl⟩ | ⟨-, rfl, -⟩ | ⟨hb, -, -⟩
      · exact ⟨hidle, hu⟩
      · exact ⟨hidle, hu⟩
      · rw [hidle] at hb; simp at hb
  | restart _ hst hl =>
    refine ⟨h.token, h.started, fun _ => ⟨hst, hok hst⟩, fun _ hl => (by cases hl), h.changing,
      h.locked, fun sel hsel h0 => ?_⟩
    rcases hl with rfl | rfl
    · cases hsel; exact absurd rfl h0
    · cases hsel
  | restartAll _ hst =>
    refine ⟨h.token, fun hne => absurd rfl hne, fun _ => ⟨rfl, h.changing hst⟩,
      fun _ hl => (by cases hl), fun hc => (by cases hc), fun hk => ?_, fun sel hsel h0 => ?_⟩
    · have := (h.locked hk).1; rw [hst] at this; cases this
    · cases hsel; exact absurd rfl h0
  | closed _ hst =>
    exact ⟨h.token, h.started, fun hl => (by cases hl), fun _ hl => (by cases hl), h.changing,
      h.locked, fun _ hl => (by cases hl)⟩

theorem TokenInv.launched (h : TokenInv p) (hl : p.launch = .starting) (o : LaunchOutcome) :
    TokenInv (p.launchProcess o) := by
  obtain ⟨hst, hu⟩ := h.starting hl
  have htok : p.cmdReadyCh = false := by
    have := h.token.not.2 hu; simpa using this
  have hlock : p.lockedBy = none := by
    by_contra hk
    have := (h.locked (Option.ne_none_iff_isSome.1 hk)).1
    rw [hst] at this; cases this
  have hnc : ∀ {s : ProcessState}, s = .created → s ≠ .changing := by rintro _ rfl; decide
  cases o with
  | pipeError err =>
    exact ⟨h.token, h.started, fun hl => (by cases hl), fun _ hl => (by cases hl), h.changing,
      h.locked, h.select⟩
  | startError b cfv =>
    refine ⟨?_, fun hne => absurd hst hne, fun hl => (by cases hl), fun _ hl => (by cases hl),
      fun hc => absurd hc (hnc hst), fun hk => ?_, h.select⟩
    · constructor
      · intro ht; rw [show (p.launchProcess (.startError b cfv)).cmdReadyCh = false from htok] at ht
        cases ht
      · intro hu; cases hu
    · rw [show (p.launchProcess (.startError b cfv)).lockedBy = none from hlock] at hk; cases hk
  | started sid =>
    have heq : p.launchProcess (.started sid) =
        { p with cmd := some ⟨some sid, false⟩, cmdReadyCh := true, launch := .running sid } := by
      simp only [launchProcess, htok]; rfl
    rw [heq]
    refine ⟨⟨fun _ => rfl, fun _ => rfl⟩, fun _ => rfl, fun hl => (by cases hl),
      fun _ hl => (by cases hl), fun hc => absurd hc (hnc hst), fun hk => ?_, h.select⟩
    rw [show p.lockedBy = none from hlock] at hk; cases hk

/-- The steps that keep the command, the launch and the state. -/
theorem TokenInv.same (h : TokenInv p) {q : Process} (hcmd : q.cmd = p.cmd)
    (htok : q.cmdReadyCh = p.cmdReadyCh) (hl : q.launch = p.launch) (hk : q.lockedBy = p.lockedBy)
    (hst : q.processState = p.processState)
    (hsel : ∀ sel, q.listen = some sel → sel ≠ .head → sel ≠ .other → p.processState ≠ .created) :
    TokenInv q := by
  have hq : q.Started ↔ p.Started := by unfold Started; rw [hcmd]
  have hu : q.Unsignalled ↔ p.Unsignalled := by unfold Unsignalled; rw [hcmd]
  refine ⟨?_, fun hne => ?_, fun hl' => ?_, fun sid => ?_, fun hc => ?_, fun hk' => ?_, ?_⟩
  · rw [htok, hu]; exact h.token
  · rw [hq]; exact h.started (hst ▸ hne)
  · rw [hst, hu]; exact h.starting (hl ▸ hl')
  · rw [hl]; exact h.sending sid
  · rw [hu]; exact h.changing (hst ▸ hc)
  · rw [hst, hu]; exact h.locked (hk ▸ hk')
  · rw [hst]; exact hsel

theorem selectFor_created (h0 : p.selectFor ≠ .other) : p.processState ≠ .created := by
  intro hst
  simp [selectFor, hst] at h0

theorem TokenInv.step (h : TokenInv p) (hok : TokenOk p a) (hs : ProcStep p a p' outs) :
    TokenInv p' := by
  have head : ∀ sel, some Select.head = some sel → sel ≠ .head → sel ≠ .other →
      p.processState ≠ .created := by
    intro sel hsel h0; cases hsel; exact absurd rfl h0
  cases hs with
  | loopHead hl =>
    refine h.same rfl rfl rfl rfl rfl ?_
    rintro sel hsel - h1
    cases hsel; exact selectFor_created h1
  | wake hl => exact h.same rfl rfl rfl rfl rfl head
  | dropped hl _ => exact h.same rfl rfl rfl rfl rfl head
  | idleKept hl => exact h.same rfl rfl rfl rfl rfl head
  | strayTimeout hl _ _ _ => exact h.same rfl rfl rfl rfl rfl head
  | putMsg _ | expire | pop => exact h.same rfl rfl rfl rfl rfl h.select
  | dispatched hl hlock _ _ | idleTaken hl hlock | answered hl _ hlock _ _ =>
    exact h.serve hl (by simp) (by simp) hlock (by simp) rfl rfl rfl rfl rfl rfl
  | readyTimeout hl hsel hlock _ =>
    refine h.serve hl ?_ ?_ hlock (by simp) rfl rfl rfl rfl rfl rfl
    · rcases hsel with rfl | ⟨q, rfl⟩ <;> simp
    · rcases hsel with rfl | ⟨q, rfl⟩ <;> simp
  | deployFailed hl _ hlock _ _ _ =>
    have hk := h.kill (h.select _ hl (by simp) (by simp))
    exact hk.serve hl (by simp) (by simp) hlock (by simp) rfl rfl rfl rfl rfl rfl
  | busyTimeout hl hsel hlock hst _ =>
    have hk := h.kill (by rw [hst]; decide)
    refine hk.serve hl ?_ ?_ hlock (by simp) rfl rfl rfl rfl rfl rfl
    · rcases hsel with rfl | ⟨q, rfl⟩ <;> simp
    · rcases hsel with rfl | ⟨q, rfl⟩ <;> simp
  | exit _ _ _ hcase _ => exact h.exit hok hcase
  | setStream hlock =>
    obtain ⟨hstart, hne⟩ := hok
    refine ⟨h.token, fun _ => hstart, fun hl => absurd hl hne, h.sending, fun hc => (by cases hc),
      fun hk => ?_, fun _ _ _ _ => (by simp)⟩
    rw [show p.lockedBy = none from hlock] at hk; cases hk
  | refused _ | refusedClose _ => exact h
  | noGroup _ _ => exact h.same rfl rfl rfl rfl rfl h.select
  | changeSandbox hst hlock _ _ =>
    have hk := h.kill (by rw [hst]; decide)
    exact ⟨hk.token, hk.started, hk.starting, hk.sending, hk.changing,
      fun _ => ⟨hst, not_unsignalled_killed⟩, hk.select⟩
  | closeSandbox hst hlock _ _ =>
    have hk := h.kill (by rw [hst]; decide)
    exact ⟨hk.token, hk.started, hk.starting, hk.sending, hk.changing,
      fun _ => ⟨hst, not_unsignalled_killed⟩, hk.select⟩
  | @leaveWindow w _ _ _ hw =>
    -- the window was entered in idle, after the command was signalled
    obtain ⟨hst, hu⟩ := h.locked (by rw [hw]; rfl)
    have hne : p.processState ≠ .created := by rw [hst]; decide
    refine ⟨h.token, fun _ => h.started hne, fun hl => absurd (h.starting hl).1 hne, h.sending,
      fun _ => hu, fun hk => (by cases hk), fun _ _ _ _ => ?_⟩
    cases w <;> simp
  | launchProcess hl => exact h.launched hl _
  | sendReady hl _ => exact absurd hl (h.sending _)
  | cgroupError hl | wait hl =>
    exact ⟨h.token, h.started, fun hl => (by cases hl), fun _ hl => (by cases hl), h.changing,
      h.locked, h.select⟩

theorem tokenInv_reach {user : ℕ} {key : RequestGroupKey} {name : String} {o : Bool}
    (h : Reach (step cfg) TokenOk (new user key name o) p) : TokenInv p := by
  refine h.inv (tokenInv_new user key name o) ?_
  intro p a p' hI hok hstep
  obtain ⟨outs, hact⟩ := step_eq_some hstep
  exact hI.step hok (act_step hact)

/-- A process that is killed has registered. -/
theorem TokenInv.started_of_callsKill (h : TokenInv p) (hk : p.CallsKill a) : p.Started := by
  cases a with
  | changeSandbox _ _ _ _ => exact h.started (by rw [hk.2.1]; decide)
  | closeSandbox _ => exact h.started (by rw [hk.1]; decide)
  | txResp _ => exact h.started_of_listen hk.1 (by simp) (by simp)
  | tick _ _ => exact h.started (by rw [hk.2.2.2]; decide)
  | _ => exact hk.elim

theorem not_signalled_of_tokenOk (hok : TokenOk p a) (hk : p.CallsKill a) : ¬ p.Signalled := by
  cases a with
  | changeSandbox _ _ _ _ | closeSandbox _ | txResp _ | tick _ _ => exact hok hk
  | _ => exact hk.elim

/-- **One token per command.**  In a run whose steps all satisfy `TokenOk`,
    `cmdReadyCh` holds a token iff the current command is started and not yet
    signalled, `launchProcess` is never blocked on it, and `killProcess` finds a
    token whenever it is called. -/
theorem cmdReadyCh_iff_unsignalled {user : ℕ} {key : RequestGroupKey} {name : String} {o : Bool}
    (h : Reach (Process.step cfg) TokenOk (new user key name o) p) :
    (p.cmdReadyCh = true ↔ p.Unsignalled) ∧ (∀ sid, p.launch ≠ .sending sid) ∧
      ∀ a, TokenOk p a → p.CallsKill a → p.cmdReadyCh = true := by
  have hI := tokenInv_reach h
  refine ⟨hI.token, hI.sending, ?_⟩
  intro a hok hk
  exact hI.token.2 (unsignalled_of (hI.started_of_callsKill hk) (not_signalled_of_tokenOk hok hk))

/-- The process of the runs below. -/
def sampleProcess : Process := new 10000 .sample "chain1#o#fact#v1#0#1" true

/-- From the launch to the first idle period. -/
def runToIdle : List Action :=
  [.launchProcess (.started 0), .loopHead, .setStream 0, .wake, .loopHead, .expire, .tick true true,
    .loopHead]

/-- An idle process is closed. -/
theorem cmdReadyCh_iff_unsignalled_idle : ∃ p, Reach (step .sample) TokenOk sampleProcess p ∧
    p.CallsKill (.closeSandbox true) ∧ p.cmdReadyCh = true := by
  obtain ⟨p, hp, hP⟩ := exists_reach (step .sample) TokenOk sampleProcess
    (fun p => decide (p.CallsKill (.closeSandbox true) ∧ TokenOk p (.closeSandbox true)))
    runToIdle (by decide)
  obtain ⟨hk, hok⟩ := of_decide_eq_true hP
  exact ⟨p, hp, hk, (cmdReadyCh_iff_unsignalled hp).2.2 _ hok hk⟩

/-- The step calls `killProcess`, which blocks on `cmdReadyCh`. -/
def KillBlocks (p : Process) (a : Action) : Bool := decide (p.CallsKill a) && !p.cmdReadyCh

/-- Three runs that block.  The sandbox exits before it registers, and the restart
    blocks in `launchProcess` with a second sandbox started.  The sandbox exits while
    idle, so that the signal of a first `CloseSandbox` fails, and a second call blocks.
    An `init_contract` fails, the process takes another transaction before the
    signalled sandbox exits, and its timeout blocks. -/
theorem cmdReadyCh_blocks :
    (∃ p, Reach (step .sample) Free sampleProcess p ∧
      (decide (p.launch = .sending 1) && p.cmdReadyCh) = true) ∧
    (∃ p, Reach (step .sample) Free sampleProcess p ∧ KillBlocks p (.closeSandbox true)) ∧
    (∃ p, Reach (step .sample) Free sampleProcess p ∧ KillBlocks p (.tick true true)) := by
  refine ⟨?_, ?_, ?_⟩
  · exact exists_reach _ Free _ _
      [.launchProcess (.started 0), .loopHead, .wait (some ("exit status 1", none)), .exit none 0,
        .loopHead, .launchProcess (.started 1)] (by decide)
  · exact exists_reach _ Free _ _
      (runToIdle ++ [.wait (some ("exit status 1", none)), .closeSandbox false]) (by decide)
  · exact exists_reach _ Free _ _
      [.launchProcess (.started 0), .loopHead, .setStream 0, .wake, .loopHead,
        .txReq (sampleTx .sample "tx1" "init_contract") 0 true, .loopHead,
        .putMsg (txErrorResp "chain1" "tx1" "init failed"), .txResp true, .loopHead,
        .txReq (sampleTx .sample "tx2" "save") 0 true, .loopHead, .expire] (by decide)

end Process

end VmEngine
