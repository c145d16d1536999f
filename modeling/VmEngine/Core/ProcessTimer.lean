/-
  The timer of a process.

  A process that is ready or busy counts on its timer: it makes a ready process idle and
  kills the sandbox of a busy one.  Three steps leave it without.  A ready timeout consumes
  the tick, and when the process manager refuses the change to idle, the process stays
  ready and the timer is not started again.  The listener that handles the exit of a
  changed sandbox runs `p.Start` itself, so that its deferred `popTimer` comes after the
  next exit, when another listener may already serve the next sandbox; it stops the timer
  of that one.  And `updateProcessState` sets the state before it sends on `updateCh` and
  starts the timer: with an old token in the channel it waits in between, with `p.lock`
  held (`waits`).  Every other step keeps the timer (`ClockCase`).

  The flag `timerPopped` goes with the timer in all of this (`Clock`), and `popTimer` finds
  the tick that it waits for, in whatever order the handlers run (`popTimer_returns`).
-/
import VmEngine.Core.ProcessStep

namespace VmEngine

namespace Process
variable {cfg : ProcessConfig} {p p' : Process} {a : Action} {outs : List ProcessOut}

/-- A listener runs, and the process is ready or busy. -/
def Serving (p : Process) : Prop :=
  p.listen.isSome = true ∧ (p.processState = .ready ∨ p.processState = .busy)

instance (p : Process) : Decidable p.Serving := inferInstanceAs (Decidable (_ ∧ _))

/-- A serving process has its timeout pending. -/
def Timed (p : Process) : Prop := p.Serving → p.timer.Pending

instance (p : Process) : Decidable p.Timed := inferInstanceAs (Decidable (_ → _))

/-- The process manager lets a ready process become idle at its timeout, and no `popTimer`
    of a former listener runs while the process serves. -/
def TimerOk (p : Process) : Action → Prop
  | .tick pmOk _ => p.processState = .ready → pmOk = true
  | .pop => ¬ p.Serving
  | _ => True

instance : DecidableRel TimerOk
  | p, .tick pmOk _ => inferInstanceAs (Decidable (p.processState = .ready → pmOk = true))
  | p, .pop => inferInstanceAs (Decidable (¬ p.Serving))
  | _, .loopHead | _, .wake | _, .txReq _ _ _ | _, .idleTxReq _ _ | _, .txResp _ | _, .exit _ _
  | _, .putMsg _ | _, .setStream _ | _, .changeSandbox _ _ _ _ | _, .closeSandbox _
  | _, .leaveWindow _ | _, .launchProcess _ | _, .sendReady | _, .cgroupError _ | _, .wait _
  | _, .expire => instDecidableTrue

/-! ## The timer and its flag -/

/-- An active timer has no old tick, and `timerPopped` is set exactly when the timer is
    stopped and its channel empty. -/
structure Clock (t : Timer) (popped : Bool) : Prop where
  single : t.arm ≠ .stopped → t.tick = false
  popped_iff : popped = true ↔ t = ⟨.stopped, false⟩

namespace Clock

theorem running : Clock ⟨.running, false⟩ false := ⟨fun _ => rfl, by simp⟩

theorem spent : Clock ⟨.stopped, false⟩ true := ⟨fun _ => rfl, by simp⟩

variable {t : Timer} {popped : Bool}

/-- A tick that waits to be read is the only thing left of its timer. -/
theorem arm_of_tick (h : Clock t popped) (ht : t.tick = true) : t.arm = .stopped := by
  by_contra hne
  rw [h.single hne] at ht
  cases ht

theorem expire (h : Clock t popped) (ht : t.arm = .running) : Clock ⟨.stopped, true⟩ popped := by
  have hp : popped ≠ true := by
    rw [ne_eq, h.popped_iff]
    rintro rfl
    cases ht
  exact ⟨fun hne => absurd rfl hne, by simp [hp]⟩

end Clock

/-- `popTimer` does not block. -/
theorem popTimer_clock (h : Clock p.timer p.timerPopped) :
    popTimer p = .ok { p with timer := ⟨.stopped, false⟩ } := by
  obtain ⟨hsingle, hpopped⟩ := h
  unfold popTimer
  generalize p.timerPopped = b at hpopped
  generalize p.timer = t at hsingle hpopped
  obtain ⟨arm, tick⟩ := t
  cases b with
  | true =>
    rw [hpopped.1 rfl]
    rfl
  | false =>
    cases arm with
    | stopped =>
      cases tick with
      | true => rfl
      | false => simp at hpopped
    | never | running =>
      obtain rfl : tick = false := hsingle (by simp)
      rfl

variable {state : ProcessState}

/-- Ready and busy start the timer. -/
theorem updateProcessState_armed (hs : state = .ready ∨ state = .busy)
    (hup : updateProcessState p state = .ok p') (h : Clock p.timer p.timerPopped) :
    ∃ u, p' = { p with
      processState := state, updateCh := u, timer := ⟨.running, false⟩, timerPopped := false } := by
  obtain ⟨p₁, h₁, h₂⟩ := Go.bind_eq_ok.1 hup
  obtain ⟨u, rfl⟩ := setState_eq h₁
  rw [if_pos hs, startTimer, popTimer_clock] at h₂
  · cases h₂
    exact ⟨u, rfl⟩
  · exact h

/-- The other states leave it alone. -/
theorem updateProcessState_untimed (hs : ¬ (state = .ready ∨ state = .busy))
    (hup : updateProcessState p state = .ok p') :
    ∃ u, p' = { p with processState := state, updateCh := u } := by
  obtain ⟨p₁, h₁, h₂⟩ := Go.bind_eq_ok.1 hup
  obtain ⟨u, rfl⟩ := setState_eq h₁
  rw [if_neg hs] at h₂
  cases h₂
  exact ⟨u, rfl⟩

/-! ## What a step does to the timer -/

inductive ClockCase (p : Process) (a : Action) (p' : Process) : Prop
  | kept : p'.timer = p.timer → p'.timerPopped = p.timerPopped → TimerOk p a →
      (p'.Serving → p.Serving) → ClockCase p a p'
  | armed : p'.timer = ⟨.running, false⟩ → p'.timerPopped = false → TimerOk p a → ClockCase p a p'
  | fired : p.timer.arm = .running → p'.timer = ⟨.stopped, true⟩ →
      p'.timerPopped = p.timerPopped → TimerOk p a → ClockCase p a p'
  /-- the tick is read, or the timer is stopped for good -/
  | spent : p'.timer = ⟨.stopped, false⟩ → p'.timerPopped = true →
      (p'.Serving ↔ ¬ TimerOk p a) → ClockCase p a p'

theorem ClockCase.clock (h : ClockCase p a p') (hc : Clock p.timer p.timerPopped) :
    Clock p'.timer p'.timerPopped := by
  cases h with
  | kept ht hb _ _ =>
    rw [ht, hb]
    exact hc
  | armed ht hb _ =>
    rw [ht, hb]
    exact .running
  | fired hrun ht hb _ =>
    rw [ht, hb]
    exact hc.expire hrun
  | spent ht hb _ =>
    rw [ht, hb]
    exact .spent

/-- One step keeps the timeout pending exactly if it satisfies `TimerOk`. -/
theorem ClockCase.timed_iff (h : ClockCase p a p') (ht : Timed p) : Timed p' ↔ TimerOk p a := by
  cases h with
  | kept htimer _ hok hs =>
    refine iff_of_true (fun hs' => ?_) hok
    rw [htimer]
    exact ht (hs hs')
  | armed htimer _ hok =>
    refine iff_of_true (fun _ => ?_) hok
    rw [htimer]
    exact Or.inl rfl
  | fired _ htimer _ hok =>
    refine iff_of_true (fun _ => ?_) hok
    rw [htimer]
    exact Or.inr rfl
  | spent htimer _ hs =>
    have hnot : ¬ p'.timer.Pending := by
      rw [htimer]
      simp [Timer.Pending]
    rw [Timed, hs]
    constructor
    · intro h
      by_contra hok
      exact hnot (h hok)
    · exact fun hok h => absurd hok h

theorem txReq_clock {tx : DockerVMMessage} {el : ℕ} {sendOk : Bool} (hc : Clock p.timer p.timerPopped)
    (h : act cfg p (.txReq tx el sendOk) = .ok (p', outs)) :
    ClockCase p (.txReq tx el sendOk) p' := by
  obtain ⟨⟨q, hsel⟩, -, hcase⟩ := txReq_cases h
  cases hcase with
  | removed _ | expired _ _ _ =>
    exact .kept rfl rfl trivial fun hs => ⟨by rw [hsel]; rfl, hs.2⟩
  | dispatched _ _ hup _ _ =>
    obtain ⟨u, rfl⟩ := updateProcessState_armed (Or.inr rfl) hup hc
    exact .armed rfl rfl trivial

theorem txResp_clock {sigOk : Bool} (hc : Clock p.timer p.timerPopped)
    (h : act cfg p (.txResp sigOk) = .ok (p', outs)) : ClockCase p (.txResp sigOk) p' := by
  simp only [act] at h
  split at h
  · rename_i msg _ _ _
    obtain ⟨p₁, h₁, h₂⟩ := Go.bind_eq_ok.1 h
    cases h₂
    unfold handleTxResp at h₁
    split at h₁
    · cases h₁
    · obtain ⟨p₂, hup, h₃⟩ := Go.bind_eq_ok.1 h₁
      obtain ⟨u, rfl⟩ := updateProcessState_armed (Or.inl rfl) hup hc
      split_ifs at h₃
      · split at h₃
        · cases h₃
        · split_ifs at h₃
          · obtain ⟨⟨p₃, ok⟩, hkill, h₄⟩ := Go.bind_eq_ok.1 h₃
            obtain ⟨-, rfl, -⟩ := killProcess_eq hkill
            cases h₄
            exact .armed rfl rfl trivial
          · cases h₃
            exact .armed rfl rfl trivial
      · cases h₃
        exact .armed rfl rfl trivial
  · cases h

theorem tick_clock {pmOk sigOk : Bool} (hc : Clock p.timer p.timerPopped)
    (h : act cfg p (.tick pmOk sigOk) = .ok (p', outs)) : ClockCase p (.tick pmOk sigOk) p' := by
  have key : ∀ {t : Timer}, p.timer.recv = some t →
      (do let p ← handleTimeout { p with timer := t } pmOk sigOk
          return ({ p with listen := some .head }, [])) = Except.ok (p', outs) →
      ClockCase p (.tick pmOk sigOk) p' := by
    intro t hrecv h
    obtain ⟨htick, rfl⟩ := Timer.recv_eq_some.1 hrecv
    rw [hc.arm_of_tick htick] at h
    obtain ⟨p₁, h₁, h₂⟩ := Go.bind_eq_ok.1 h
    cases h₂
    simp only [handleTimeout] at h₁
    split at h₁
    · rename_i hst
      obtain ⟨p₂, hup, h₃⟩ := Go.bind_eq_ok.1 h₁
      obtain ⟨u, rfl⟩ := updateProcessState_untimed (by simp) hup
      obtain ⟨⟨p₃, ok⟩, hkill, h₄⟩ := Go.bind_eq_ok.1 h₃
      obtain ⟨-, rfl, -⟩ := killProcess_eq hkill
      cases h₄
      exact .spent rfl rfl (by simp [Serving, killed, TimerOk, hst])
    · rename_i hst
      cases pmOk with
      | true =>
        obtain ⟨u, rfl⟩ := updateProcessState_untimed (by simp) h₁
        exact .spent rfl rfl (by simp [Serving, TimerOk])
      | false =>
        cases h₁
        exact .spent rfl rfl (by simp [Serving, TimerOk, hst])
    · rename_i hbusy hready
      cases h₁
      exact .spent rfl rfl (by simp_all [Serving, TimerOk])
  simp only [act] at h
  split at h
  · exact key ‹_› h
  · exact key ‹_› h
  · cases h

/-- A listener that goes on after an exit does so in state created. -/
theorem exitBody_clock {e : ExitErr} {next : Option DockerVMMessage} {f : ExitFlags}
    (h : exitBody p e next = .ok (p', outs, f)) :
    p'.timer = p.timer ∧ p'.timerPopped = p.timerPopped ∧
      (f.restartAll = true ∨ f.released = false → p'.processState = .created) := by
  unfold exitBody at h
  split at h
  · cases h; simp
  · cases h; simp
  · cases h; simp
  · cases h; simp
  · split at h
    · rename_i hst; cases h; simp [hst]
    · split at h <;> cases h <;> simp
    · cases h; simp
    · split at h <;> cases h
      simp
    · cases h; simp
    · cases h; simp
    · cases h; simp

/-- A listener that is not replaced stops the timer. -/
theorem finishExit_clock {f : ExitFlags} (hc : Clock p.timer p.timerPopped)
    (hall : f.restartAll = false) :
    (finishExit p f).timer = ⟨.stopped, false⟩ ∧ (finishExit p f).timerPopped = true ∧
      (finishExit p f).processState = p.processState ∧
      (finishExit p f).listen = if f.released then none else some .head := by
  have hpop : ∀ l n b, popTimer { p with launch := l, pops := n, launchPops := b } =
      .ok { p with launch := l, pops := n, launchPops := b, timer := ⟨.stopped, false⟩ } := by
    intro l n b
    rw [popTimer_clock]
    exact hc
  simp [finishExit, hall, hpop]

theorem exit_clock {e : ExitErr} {next : Option DockerVMMessage} {cfv : ℤ}
    (hc : Clock p.timer p.timerPopped) (h : handleProcessExit p e next cfv = .ok (p', outs)) :
    ClockCase p (.exit next cfv) p' := by
  obtain ⟨⟨p₁, outs₁, f⟩, hbody, h⟩ := Go.bind_eq_ok.1 h
  obtain ⟨resps, -, h⟩ := Go.bind_eq_ok.1 h
  cases h
  obtain ⟨ht, hb, hcreated⟩ := exitBody_clock hbody
  cases hall : f.restartAll with
  | true =>
    have hst := hcreated (Or.inl hall)
    refine .kept ?_ ?_ trivial fun hs => ?_
    · simp [finishExit, hall, ht]
    · simp [finishExit, hall, hb]
    · simp [finishExit, hall, Serving, hst] at hs
  | false =>
    obtain ⟨ht', hb', hst, hl⟩ := finishExit_clock (p := p₁) (by rw [ht, hb]; exact hc) hall
    refine .spent ht' hb' (iff_of_false (fun hs => ?_) (not_not.2 trivial))
    cases hrel : f.released with
    | true => simp [Serving, hl, hrel] at hs
    | false => simp [Serving, hst, hcreated (Or.inr hrel)] at hs

theorem idleTxReq_clock {tx : DockerVMMessage} (hc : Clock p.timer p.timerPopped)
    (h : act cfg p (.idleTxReq tx true) = .ok (p', outs)) : ClockCase p (.idleTxReq tx true) p' := by
  simp only [act] at h
  split at h
  · split_ifs at h
    obtain ⟨⟨p₁, outs₁⟩, h₁, h₂⟩ := Go.bind_eq_ok.1 h
    cases h₂
    obtain ⟨p₂, hup, h₃⟩ := Go.bind_eq_ok.1 h₁
    obtain ⟨u, rfl⟩ := updateProcessState_armed (Or.inl rfl) hup hc
    cases h₃
    exact .armed rfl rfl trivial
  · cases h

theorem setStream_clock {sid : ℕ} (hc : Clock p.timer p.timerPopped)
    (h : act cfg p (.setStream sid) = .ok (p', outs)) : ClockCase p (.setStream sid) p' := by
  obtain ⟨p₁, h₁, h₂⟩ := Go.bind_eq_ok.1 h
  cases h₂
  simp only [setStream] at h₁
  split_ifs at h₁
  obtain ⟨p₂, hup, h₃⟩ := Go.bind_eq_ok.1 h₁
  obtain ⟨u, rfl⟩ := updateProcessState_armed (Or.inl rfl) hup hc
  cases h₃
  exact .armed rfl rfl trivial

/-- The state that a lock leaves behind is neither ready nor busy. -/
theorem leaveWindow_clock {w : Window} (h : act cfg p (.leaveWindow w) = .ok (p', outs)) :
    ClockCase p (.leaveWindow w) p' := by
  obtain ⟨p₁, h₁, h₂⟩ := Go.bind_eq_ok.1 h
  cases h₂
  simp only [leaveWindow] at h₁
  split_ifs at h₁
  obtain ⟨p₂, hup, h₃⟩ := Go.bind_eq_ok.1 h₁
  obtain ⟨u, rfl⟩ := updateProcessState_untimed (by cases w <;> simp) hup
  cases h₃
  exact .kept rfl rfl trivial fun hs => by cases w <;> simp [Serving] at hs

/-- What every step does to the timer. -/
theorem act_clock (hc : Clock p.timer p.timerPopped) (h : act cfg p a = .ok (p', outs)) :
    ClockCase p a p' := by
  cases act_step h with
  | dropped _ _ | dispatched _ _ _ _ => exact txReq_clock hc h
  | answered _ _ _ _ _ | deployFailed _ _ _ _ _ _ => exact txResp_clock hc h
  | busyTimeout _ _ _ _ _ | readyTimeout _ _ _ _ | strayTimeout _ _ _ _ => exact tick_clock hc h
  | exit _ _ _ _ hexit => exact exit_clock hc hexit
  | idleTaken _ _ => exact idleTxReq_clock hc h
  | setStream _ => exact setStream_clock hc h
  | leaveWindow _ => exact leaveWindow_clock h
  | expire =>
    simp only [act] at h
    split at h
    · cases h
    · rename_i t ht
      cases h
      obtain ⟨hrun, rfl⟩ := Timer.expire_eq_some.1 ht
      exact .fired hrun rfl rfl trivial
  | pop =>
    simp only [act] at h
    split_ifs at h
    rw [popTimer_clock (p := { p with pops := p.pops - 1 }) hc] at h
    cases h
    exact .spent rfl rfl not_not.symm
  | loopHead hsel | wake hsel | idleKept hsel =>
    exact .kept rfl rfl trivial fun hs => ⟨by simp [hsel], hs.2⟩
  | @launchProcess o _ =>
    cases o with
    | pipeError _ | startError _ _ => exact .kept rfl rfl trivial id
    | started sid =>
      simp only [Process.launchProcess]
      split_ifs <;> exact .kept rfl rfl trivial id
  | _ => exact .kept rfl rfl trivial id

/-! ## Calls that wait to wake the listener -/

/-- A call of `updateProcessState` that has set the state and waits for room in `updateCh`. -/
inductive Waiter where
  | setStream (sid : ℕ)
  /-- the listener, which alone receives from `updateCh`: it waits for ever -/
  | listener
deriving DecidableEq, Repr

/-- A process, and the call that holds `p.lock` while it waits. -/
structure WaitState where
  proc : Process
  waiter : Option Waiter
deriving DecidableEq, Repr

/-- The call of `updateProcessState` that an action comes to and that may have to wake the
    listener: the process before the call, the new state and the caller. -/
def update (cfg : ProcessConfig) (p : Process) : Action → Option (Process × ProcessState × Waiter)
  | .setStream sid => some (p, .ready, .setStream sid)
  | .txReq tx elapsedTime _ =>
    match p.listen with
    | some (.ready _) =>
      if removeTxTime < elapsedTime ∨ cfg.execTxTimeout < elapsedTime then none
      else some ({ p with tx := some tx }, .busy, .listener)
    | _ => none
  | .idleTxReq _ pmOk =>
    match p.listen with
    | some (.idle _) => if pmOk then some (p, .ready, .listener) else none
    | _ => none
  | .txResp _ =>
    match p.listen with
    | some .busy =>
      if p.respCh.isSome ∧ p.tx.isSome then some ({ p with respCh := none }, .ready, .listener)
      else none
    | _ => none
  | _ => none

/-- The process when the send on `updateCh` waits: the state is set, the timer not started. -/
def waits (cfg : ProcessConfig) (p : Process) (a : Action) : Option (Process × Waiter) :=
  if p.lockedBy = none ∧ p.processState.serving = false ∧ p.updateCh then
    (update cfg p a).map fun (q, state, w) => ({ q with processState := state }, w)
  else none

/-- The actions that need `p.lock`. -/
def locks (p : Process) : Action → Bool
  | .setStream _ | .txReq _ _ _ | .txResp _ => true
  | .idleTxReq _ pmOk => pmOk
  | .tick _ _ => p.processState = .ready ∨ p.processState = .busy
  | .changeSandbox _ _ _ _ | .closeSandbox _ => p.processState = .idle
  | _ => false

/-- The actions of the listener. -/
def Action.ofListener : Action → Bool
  | .loopHead | .wake | .txReq _ _ _ | .idleTxReq _ _ | .txResp _ | .tick _ _ | .exit _ _ => true
  | _ => false

inductive WaitAction where
  | act (a : Action)
  /-- a `SetStream` that waited sends, starts the timer and sets the stream -/
  | resume
deriving DecidableEq, Repr

/-- One step, in which a call of `updateProcessState` may come to wait or end its wait. -/
def WaitState.step (cfg : ProcessConfig) (s : WaitState) : WaitAction → Option WaitState
  | .act a =>
    match s.waiter with
    | none => (Process.step cfg s.proc a).map (⟨·, none⟩) <|>
        (s.proc.waits cfg a).map fun (p, w) => ⟨p, some w⟩
    | some w =>
      if s.proc.locks a ∨ w = .listener ∧ a.ofListener then none
      else (Process.step cfg s.proc a).map (⟨·, some w⟩)
  | .resume =>
    match s.waiter with
    | some (.setStream sid) =>
      if s.proc.updateCh then none
      else (startTimer { s.proc with updateCh := true }).toOption.map
        fun p => ⟨{ p with stream := some sid }, none⟩
    | _ => none

/-- `TimerOk`, and no call comes to wait while a listener runs and no timeout is pending. -/
def WaitState.TimerOk (cfg : ProcessConfig) (s : WaitState) : WaitAction → Prop
  | .act a => Process.TimerOk s.proc a ∧ (s.waiter = none → (s.proc.waits cfg a).isSome →
      s.proc.listen = none ∨ s.proc.timer.Pending)
  | .resume => True

instance : DecidableRel (WaitState.TimerOk cfg)
  | _, .act _ => inferInstanceAs (Decidable (_ ∧ (_ → _ → _ ∨ _)))
  | _, .resume => instDecidableTrue

theorem updateProcessState_blocks (hs : p.processState.serving = false) (hu : p.updateCh = true)
    (hstate : state = .ready ∨ state = .busy) : updateProcessState p state = .error .blocks := by
  have hserving : state.serving = true := by rcases hstate with rfl | rfl <;> rfl
  unfold updateProcessState setState
  rw [hs, hu, hserving]
  rfl

/-- The call leaves the timer and the listener alone, and the action ends there if it waits. -/
theorem update_spec {q : Process} {w : Waiter} (h : update cfg p a = some (q, state, w)) :
    (state = .ready ∨ state = .busy) ∧ TimerOk p a ∧ q.timer = p.timer ∧
      q.timerPopped = p.timerPopped ∧ q.listen = p.listen ∧
      (p.processState.serving = false → p.updateCh = true → step cfg p a = none) := by
  cases a with
  | setStream sid =>
    cases h
    refine ⟨.inl rfl, trivial, rfl, rfl, rfl, fun hs hu => ?_⟩
    simp only [step, act, setStream, updateProcessState_blocks hs hu (.inl rfl)]
    split_ifs <;> rfl
  | txReq tx el sendOk =>
    simp only [update] at h
    split at h
    · split_ifs at h with hel
      cases h
      refine ⟨.inr rfl, trivial, rfl, rfl, rfl, fun hs hu => ?_⟩
      rw [not_or] at hel
      have hup : handleTxRequest cfg p tx el sendOk = .error .blocks := by
        rw [handleTxRequest, if_neg hel.1, if_neg hel.2,
          updateProcessState_blocks (p := { p with tx := some tx }) hs hu (.inr rfl)]
        rfl
      simp only [step, act, hup]
      split <;> rfl
    · cases h
  | idleTxReq tx pmOk =>
    simp only [update] at h
    split at h
    · split_ifs at h with hpm
      cases h
      refine ⟨.inl rfl, trivial, rfl, rfl, rfl, fun hs hu => ?_⟩
      have hup : handleIdleTxRequest p tx pmOk = .error .blocks := by
        rw [handleIdleTxRequest, if_pos hpm, updateProcessState_blocks hs hu (.inl rfl)]
        rfl
      simp only [step, act, hup]
      repeat' split
      all_goals rfl
    · cases h
  | txResp sigOk =>
    simp only [update] at h
    split at h
    · split_ifs at h with hmsg
      cases h
      refine ⟨.inl rfl, trivial, rfl, rfl, rfl, fun hs hu => ?_⟩
      obtain ⟨tx, htx⟩ := Option.isSome_iff_exists.1 hmsg.2
      have hup : ∀ msg, handleTxResp { p with respCh := none } msg sigOk = .error .blocks := by
        intro msg
        simp only [handleTxResp, htx]
        rw [updateProcessState_blocks (p := { p with respCh := none, tx := some tx }) hs hu (.inl rfl)]
        rfl
      simp only [step, act, hup]
      split <;> rfl
    · cases h
  | _ => cases h

/-- A call that waits has made a ready or busy process, without starting the timer. -/
theorem waits_spec {w : Waiter} (h : waits cfg p a = some (p', w)) :
    (p'.processState = .ready ∨ p'.processState = .busy) ∧ TimerOk p a ∧ p'.timer = p.timer ∧
      p'.timerPopped = p.timerPopped ∧ p'.listen = p.listen ∧ step cfg p a = none := by
  unfold waits at h
  split_ifs at h with hw
  obtain ⟨⟨q, state, w⟩, hq, heq⟩ := Option.map_eq_some_iff.1 h
  cases heq
  obtain ⟨hstate, hok, ht, hb, hl, hnone⟩ := update_spec hq
  exact ⟨hstate, hok, ht, hb, hl, hnone hw.2.1 hw.2.2⟩

namespace WaitState
variable {s s' : WaitState} {x : WaitAction}

/-- What a step with a waiting call does: a step of the process, the start of a wait or its
    end, which starts the timer. -/
inductive Case (cfg : ProcessConfig) (s : WaitState) (x : WaitAction) (s' : WaitState) : Prop
  | step {a : Action} : x = .act a → Process.step cfg s.proc a = some s'.proc → Case cfg s x s'
  | wait {a : Action} {w : Waiter} : x = .act a → s.waiter = none →
      s.proc.waits cfg a = some (s'.proc, w) → Case cfg s x s'
  | resume {q : Process} {sid : ℕ} : x = .resume →
      startTimer { s.proc with updateCh := true } = .ok q →
      s'.proc = { q with stream := some sid } → Case cfg s x s'

theorem step_case (h : s.step cfg x = some s') : Case cfg s x s' := by
  unfold WaitState.step at h
  split at h
  · split at h
    · rename_i a _ hw
      rcases (Option.orElse_eq_some _ _ _).1 h with h | ⟨-, h⟩
      · obtain ⟨p, hp, rfl⟩ := Option.map_eq_some_iff.1 h
        exact .step rfl hp
      · obtain ⟨⟨p, w⟩, hp, rfl⟩ := Option.map_eq_some_iff.1 h
        exact .wait rfl hw hp
    · split_ifs at h
      obtain ⟨p, hp, rfl⟩ := Option.map_eq_some_iff.1 h
      exact .step rfl hp
  · split at h
    · split_ifs at h
      obtain ⟨q, hq, rfl⟩ := Option.map_eq_some_iff.1 h
      exact .resume rfl (Go.toOption_eq_some.1 hq) rfl
    · cases h

/-- One step keeps the timer and its flag in order, and the timeout of a serving process pending
    exactly if it satisfies `TimerOk`. -/
theorem step_timed (hc : Clock s.proc.timer s.proc.timerPopped) (ht : s.proc.Timed)
    (h : s.step cfg x = some s') :
    Clock s'.proc.timer s'.proc.timerPopped ∧ (s'.proc.Timed ↔ s.TimerOk cfg x) := by
  cases step_case h with
  | @step a hx hstep =>
    subst hx
    obtain ⟨outs, hact⟩ := step_eq_some hstep
    have hcase := act_clock hc hact
    refine ⟨hcase.clock hc, (hcase.timed_iff ht).trans ⟨fun hok => ⟨hok, fun _ hw => ?_⟩, And.left⟩⟩
    obtain ⟨⟨p, w⟩, hp⟩ := Option.isSome_iff_exists.1 hw
    rw [(waits_spec hp).2.2.2.2.2] at hstep
    cases hstep
  | @wait a w hx hnone hw =>
    subst hx
    obtain ⟨hstate, hok, htimer, hpopped, hlisten, -⟩ := waits_spec hw
    rw [htimer, hpopped]
    refine ⟨hc, ?_⟩
    rw [Process.Timed, Process.Serving, htimer, hlisten]
    constructor
    · intro h
      refine ⟨hok, fun _ _ => ?_⟩
      rcases hl : s.proc.listen with _ | sel
      · exact .inl rfl
      · exact .inr (h ⟨by rw [hl]; rfl, hstate⟩)
    · rintro ⟨-, h⟩ ⟨hl, -⟩
      refine (h hnone (by rw [hw]; rfl)).resolve_left fun hl' => ?_
      rw [hl'] at hl
      cases hl
  | @resume q sid hx hq hp =>
    subst hx
    rw [startTimer, popTimer_clock (p := { s.proc with updateCh := true }) hc] at hq
    cases hq
    rw [hp]
    exact ⟨.running, iff_of_true (fun _ => .inl rfl) trivial⟩

end WaitState

/-! ## Results -/

theorem clock_new (user : ℕ) (key : RequestGroupKey) (name : String) (b : Bool) :
    Clock (new user key name b).timer (new user key name b).timerPopped :=
  ⟨fun _ => rfl, by simp [new, Timer.forever]⟩

theorem timed_of_reach {user : ℕ} {key : RequestGroupKey} {name : String} {b : Bool} {s : WaitState}
    (h : Reach (WaitState.step cfg) (WaitState.TimerOk cfg) ⟨new user key name b, none⟩ s) :
    Clock s.proc.timer s.proc.timerPopped ∧ s.proc.Timed := by
  refine h.inv (I := fun s => Clock s.proc.timer s.proc.timerPopped ∧ s.proc.Timed)
    ⟨clock_new .., ?_⟩ ?_
  · rintro ⟨-, h | h⟩ <;> cases h
  · rintro s x s' ⟨hc, ht⟩ hok hstep
    obtain ⟨hc', hiff⟩ := WaitState.step_timed hc ht hstep
    exact ⟨hc', hiff.2 hok⟩

/-- The process of the runs below. -/
def timedSample : Process := new 10000 .sample "chain1#o#fact#v1#0#1" true

/-- From the launch of sandbox `sid` until the first transaction is at work. -/
def serveRun (sid : ℕ) : List Action :=
  [.launchProcess (.started sid), .loopHead, .setStream sid, .wake, .loopHead,
    .txReq (sampleTx .sample "tx1" "save") 0 true, .loopHead]

/-- The change of an idle process to another contract, until the new listener runs. -/
def changeRun : List Action :=
  [.changeSandbox .sample "chain1#o#fact#v1#0#2" true true, .leaveWindow .changing, .wait none,
    .exit none 0]

/-- A step of the process, or any change to the fields other than the timer and its flag:
    the listener, the lock, the launch or the number of former listeners may be as any
    handler needs them. -/
inductive AnyAction where
  | handler (a : Action)
  | other (q : Process)

def anyStep (cfg : ProcessConfig) (p : Process) : AnyAction → Option Process
  | .handler a => step cfg p a
  | .other q => if q.timer = p.timer ∧ q.timerPopped = p.timerPopped then some q else none

/-- **`popTimer` never blocks.**  Whatever order the handlers run in, a timer that is
    stopped with an empty channel has `timerPopped` set, so that `popTimer` returns. -/
theorem popTimer_returns {user : ℕ} {key : RequestGroupKey} {name : String} {b : Bool}
    (h : Reach (anyStep cfg) Free (new user key name b) p) :
    (p.timer.active = false → p.timer.tick = false → p.timerPopped = true) ∧
      ∃ p', popTimer p = .ok p' := by
  have hc : Clock p.timer p.timerPopped := by
    refine h.inv (I := fun p => Clock p.timer p.timerPopped) (clock_new ..) ?_
    intro p a p' hc _ hstep
    cases a with
    | handler a =>
      obtain ⟨outs, hact⟩ := step_eq_some hstep
      exact (act_clock hc hact).clock hc
    | other q =>
      simp only [anyStep] at hstep
      split_ifs at hstep with hq
      cases hstep
      rw [hq.1, hq.2]
      exact hc
  refine ⟨fun hact htick => ?_, _, popTimer_clock hc⟩
  rw [hc.popped_iff]
  generalize p.timer = t at hact htick
  obtain ⟨arm, tick⟩ := t
  simp_all [Timer.active]

/-- The timer of a busy process has expired, and a response comes in before the tick is
    read. -/
theorem popTimer_returns_expired : ∃ p, Reach (anyStep .sample) Free timedSample p ∧
    p.processState = .busy ∧ p.timer = ⟨.stopped, true⟩ ∧ p.timerPopped = false ∧
      ∃ p', popTimer p = .ok p' := by
  obtain ⟨p, hr, hP⟩ := exists_reach (anyStep .sample) Free timedSample
    (fun p => p.processState = .busy ∧ p.timer = ⟨.stopped, true⟩ ∧ p.timerPopped = false)
    ((serveRun 0 ++ [Action.expire]).map AnyAction.handler) (by decide)
  obtain ⟨hst, ht, hb⟩ := of_decide_eq_true hP
  exact ⟨p, hr, hst, ht, hb, (popTimer_returns hr).2⟩

end Process

end VmEngine
