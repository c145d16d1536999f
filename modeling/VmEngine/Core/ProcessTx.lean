/-
  One outstanding transaction per process.

  A monitor keeps the `TxId` of the transaction that was last sent to the sandbox,
  until a response with that `TxId` is handled or an error response for it is put.
  `handleTxResp` makes the process ready on any response, also on one with another
  `TxId`, and `SetStream` makes it ready in every state; in both ways the next
  transaction is sent while the last one is outstanding (`two_outstanding`).
  Without such responses and registrations (`AnswerOk`) there is never a second one.
-/
import VmEngine.Core.ProcessStep

namespace VmEngine

namespace Process
variable {cfg : ProcessConfig} {p p' : Process} {a : Action} {outs : List ProcessOut}
  {o : Option String}

/-! ## The monitor -/

/-- The response that the step handles. -/
def handledResp (p : Process) : Action → Option DockerVMMessage
  | .txResp _ => p.respCh
  | _ => none

/-- The outstanding transaction after a step. -/
def outstanding (o : Option String) (p : Process) (a : Action) (outs : List ProcessOut) :
    Option String :=
  match sends outs with
  | (_, msg) :: _ => some msg.txId
  | [] =>
    if o ∈ (p.handledResp a).map (fun msg => some msg.txId) then none
    else if o.any (· ∈ errTxIds outs) then none
    else o

/-- The process with its monitor. -/
def watchedStep (cfg : ProcessConfig) :
    Process × Option String → Action → Option (Process × Option String) :=
  monitor (fun p a => (act cfg p a).toOption) outstanding

theorem watchedStep_eq_some {s s' : Process × Option String} (h : watchedStep cfg s a = some s') :
    ∃ outs, act cfg s.1 a = .ok (s'.1, outs) ∧ s'.2 = outstanding s.2 s.1 a outs := by
  obtain ⟨outs, h, ho⟩ := monitor_eq_some h
  exact ⟨outs, Go.toOption_eq_some.1 h, ho⟩

/-- A response that is handled has the `TxId` of the current transaction, and no
    sandbox registers while the process is busy or has timed out. -/
def AnswerOk (s : Process × Option String) : Action → Prop
  | .txResp _ => ∀ msg ∈ s.1.respCh, ∀ tx ∈ s.1.tx, msg.txId = tx.txId
  | .setStream _ => s.1.processState ≠ .busy ∧ s.1.processState ≠ .timeout
  | _ => True

instance : DecidableRel AnswerOk
  | s, .txResp _ =>
    inferInstanceAs (Decidable (∀ msg ∈ s.1.respCh, ∀ tx ∈ s.1.tx, msg.txId = tx.txId))
  | s, .setStream _ =>
    inferInstanceAs (Decidable (s.1.processState ≠ .busy ∧ s.1.processState ≠ .timeout))
  | _, .changeSandbox _ _ _ _ | _, .closeSandbox _ | _, .tick _ _ | _, .loopHead | _, .wake
  | _, .txReq _ _ _ | _, .idleTxReq _ _ | _, .exit _ _ | _, .putMsg _ | _, .leaveWindow _
  | _, .launchProcess _ | _, .sendReady | _, .cgroupError _ | _, .wait _ | _, .expire | _, .pop =>
    instDecidableTrue

/-! ## The invariant -/

/-- Where the listener waits, in which states, and what is outstanding while it
    has not returned. -/
structure AnswerInv (p : Process) (o : Option String) : Prop where
  ready : ∀ q, p.listen = some (.ready q) → p.processState = .ready
  busy : p.listen = some .busy → p.processState = .busy
  idle : ∀ q, p.listen = some (.idle q) → p.processState ≠ .busy ∧ p.processState ≠ .timeout
  locked : p.lockedBy.isSome → p.processState = .idle
  out : ∀ t, o = some t → p.listen.isSome →
    (p.processState = .busy ∨ p.processState = .timeout) ∧ p.tx.map (·.txId) = some t

theorem answerInv_new (user : ℕ) (key : RequestGroupKey) (name : String) (o : Bool) :
    AnswerInv (new user key name o) none where
  ready q h := by cases h
  busy h := by cases h
  idle q h := by cases h
  locked h := by cases h
  out t h := by cases h

/-- Outside busy and timeout, a listening process has nothing outstanding. -/
theorem AnswerInv.out_none (h : AnswerInv p o) (hl : p.listen.isSome)
    (hb : p.processState ≠ .busy) (ht : p.processState ≠ .timeout) : o = none := by
  cases o with
  | none => rfl
  | some t =>
    rcases (h.out t rfl hl).1 with h | h
    · exact absurd h hb
    · exact absurd h ht

theorem outstanding_none (hs : sends outs = []) : outstanding none p a outs = none := by
  unfold outstanding
  rw [hs]
  simp

theorem outstanding_nil (hr : p.handledResp a = none) : outstanding o p a [] = o := by
  unfold outstanding
  rw [hr]
  cases o <;> rfl

/-- Steps that keep the state and the transaction. -/
theorem AnswerInv.same (h : AnswerInv p o) {q : Process} (hst : q.processState = p.processState)
    (htx : q.tx = p.tx) (hk : q.lockedBy = p.lockedBy)
    (hl : q.listen = p.listen ∨ q.listen = some .head ∧ p.listen.isSome) : AnswerInv q o := by
  have hsome : q.listen.isSome → p.listen.isSome := by
    rcases hl with hl | hl
    · rw [hl]; exact id
    · exact fun _ => hl.2
  refine ⟨fun c hc => ?_, fun hc => ?_, fun c hc => ?_, fun hc => ?_, fun t ht hc => ?_⟩
  · rcases hl with hl | ⟨hl, -⟩
    · rw [hst]; exact h.ready c (hl ▸ hc)
    · rw [hl] at hc; cases hc
  · rcases hl with hl | ⟨hl, -⟩
    · rw [hst]; exact h.busy (hl ▸ hc)
    · rw [hl] at hc; cases hc
  · rcases hl with hl | ⟨hl, -⟩
    · rw [hst]; exact h.idle c (hl ▸ hc)
    · rw [hl] at hc; cases hc
  · rw [hst]; exact h.locked (hk ▸ hc)
  · rw [hst, htx]; exact h.out t ht (hsome hc)

/-- A handler of the listener after which nothing is outstanding. -/
theorem AnswerInv.settled (hlisten : p.listen = some .head) (hlock : p.lockedBy = none) :
    AnswerInv p none where
  ready q h := by rw [hlisten] at h; cases h
  busy h := by rw [hlisten] at h; cases h
  idle q h := by rw [hlisten] at h; cases h
  locked h := by rw [hlock] at h; cases h
  out t h := by cases h

/-- A listener that has returned handles nothing more. -/
theorem AnswerInv.ended (hlisten : p.listen = none)
    (hlock : p.lockedBy.isSome → p.processState = .idle) : AnswerInv p o where
  ready q h := by rw [hlisten] at h; cases h
  busy h := by rw [hlisten] at h; cases h
  idle q h := by rw [hlisten] at h; cases h
  locked := hlock
  out t h hl := by rw [hlisten] at hl; cases hl

/-- A response with the `TxId` of the current transaction settles it. -/
theorem AnswerInv.answered (h : AnswerInv p o) {sigOk : Bool} {msg tx : DockerVMMessage}
    (hl : p.listen = some .busy) (hresp : p.respCh = some msg) (htx : p.tx = some tx)
    (hid : msg.txId = tx.txId) : outstanding o p (.txResp sigOk) [] = none := by
  cases o with
  | none => exact outstanding_none rfl
  | some t =>
    have := (h.out t rfl (by rw [hl]; rfl)).2
    rw [htx] at this
    cases this
    simp [outstanding, sends, handledResp, hresp, hid]

theorem AnswerInv.exit {e : ExitErr} {next : Option DockerVMMessage} {cfv : ℤ}
    (h : AnswerInv p o) (hl : p.listen.isSome) (hs : ExitCase p e p' outs) :
    AnswerInv p' (outstanding o p (.exit next cfv) outs) := by
  cases hs with
  | ended hst _ _ =>
    refine .ended rfl fun hk => ?_
    have hidle : p.processState = .idle := h.locked hk
    rcases hst with ⟨-, rfl⟩ | ⟨-, rfl, -⟩ | ⟨hb, -, -⟩
    · exact hidle
    · exact hidle
    · rw [hidle] at hb; simp at hb
  | @restart l n u b t _ hst hl' =>
    rw [outstanding_nil rfl, h.out_none hl (by simp [hst]) (by simp [hst])]
    have hlock : p.lockedBy = none := by
      by_contra hk
      have := h.locked (Option.ne_none_iff_isSome.1 hk)
      rw [show p.processState = .created from hst] at this; cases this
    rcases hl' with rfl | rfl
    · exact .settled rfl hlock
    · refine .ended rfl fun hk => ?_
      rw [show p.lockedBy = none from hlock] at hk; cases hk
  | restartAll _ hst =>
    rw [outstanding_nil rfl, h.out_none hl (by simp [hst]) (by simp [hst])]
    refine .settled rfl ?_
    by_contra hk
    have := h.locked (Option.ne_none_iff_isSome.1 hk)
    rw [show p.processState = .changing from hst] at this; cases this
  | closed _ hst => exact .ended rfl h.locked

theorem errOrNil_sends {tx : DockerVMMessage}
    (ho : outs = [] ∨ ∃ err, outs = [p.returnTxErrorResp tx.txId err]) : sends outs = [] := by
  rcases ho with rfl | ⟨err, rfl⟩ <;> rfl

theorem AnswerInv.step (h : AnswerInv p o) (hok : AnswerOk (p, o) a)
    (hs : ProcStep p a p' outs) : AnswerInv p' (outstanding o p a outs) := by
  cases hs with
  | loopHead hl =>
    rw [outstanding_nil rfl]
    refine ⟨fun q hq => ?_, fun hq => ?_, fun q hq => ?_, h.locked, fun t ht _ => ?_⟩
    · cases hst : p.processState <;> simp_all [selectFor]
    · cases hst : p.processState <;> simp_all [selectFor]
    · cases hst : p.processState <;> simp_all [selectFor]
    · exact h.out t ht (by rw [show p.listen = _ from hl]; rfl)
  | wake hl =>
    rw [outstanding_nil rfl]
    exact h.same rfl rfl rfl (Or.inr ⟨rfl, by rw [hl]; rfl⟩)
  | dropped hl ho =>
    have hst := h.ready _ hl
    have hn := h.out_none (by rw [hl]; rfl) (by simp [hst]) (by simp [hst])
    rw [hn, outstanding_none (errOrNil_sends ho)]
    exact (hn ▸ h).same rfl rfl rfl (Or.inr ⟨rfl, by rw [hl]; rfl⟩)
  | dispatched hl hlock _ ho =>
    have hst := h.ready _ hl
    have hn := h.out_none (by rw [hl]; rfl) (by simp [hst]) (by simp [hst])
    rcases ho with rfl | ho
    · refine ⟨fun q hq => (by cases hq), fun hq => (by cases hq), fun q hq => (by cases hq),
        fun hk => ?_, fun t ht _ => ⟨Or.inl rfl, ht⟩⟩
      rw [show p.lockedBy = none from hlock] at hk; cases hk
    · rw [hn, outstanding_none (errOrNil_sends (Or.inr ho))]
      exact .settled rfl hlock
  | idleKept hl =>
    obtain ⟨hb, ht⟩ := h.idle _ hl
    have hn := h.out_none (by rw [hl]; rfl) hb ht
    rw [hn, outstanding_none rfl]
    exact (hn ▸ h).same rfl rfl rfl (Or.inr ⟨rfl, by rw [hl]; rfl⟩)
  | idleTaken hl hlock =>
    obtain ⟨hb, ht⟩ := h.idle _ hl
    rw [h.out_none (by rw [hl]; rfl) hb ht, outstanding_none rfl]
    exact .settled rfl hlock
  | answered hl hresp hlock htx _ =>
    rw [h.answered hl hresp htx (hok _ hresp _ htx)]
    exact .settled rfl hlock
  | deployFailed hl hresp hlock htx _ _ =>
    rw [h.answered hl hresp htx (hok _ hresp _ htx)]
    exact .settled rfl hlock
  | busyTimeout hl _ hlock hst _ =>
    rw [outstanding_nil rfl]
    refine ⟨fun q hq => (by cases hq), fun hq => (by cases hq), fun q hq => (by cases hq),
      fun hk => ?_, fun t ht _ => ⟨Or.inr rfl, (h.out t ht (by rw [show p.listen = _ from hl]; rfl)).2⟩⟩
    rw [show p.killed.lockedBy = none from hlock] at hk; cases hk
  | readyTimeout hl _ hlock hst =>
    rw [outstanding_nil rfl, h.out_none (by rw [hl]; rfl) (by simp [hst]) (by simp [hst])]
    exact .settled rfl hlock
  | strayTimeout hl _ _ _ =>
    rw [outstanding_nil rfl]
    exact h.same rfl rfl rfl (Or.inr ⟨rfl, by rw [hl]; rfl⟩)
  | exit _ hl _ hcase _ => exact h.exit (by rw [hl]; rfl) hcase
  | setStream hlock =>
    -- registered outside busy and timeout: nothing is outstanding unless the listener is gone
    rw [outstanding_nil rfl]
    obtain ⟨hb, ht⟩ := hok
    refine ⟨fun _ _ => rfl, fun hl => absurd (h.busy hl) hb, fun _ _ => by simp, fun hk => ?_,
      fun t hto hl => ?_⟩
    · rw [show p.lockedBy = none from hlock] at hk; cases hk
    · rw [show o = none from h.out_none hl hb ht] at hto; cases hto
  | putMsg _ | expire | pop | noGroup _ _ | cgroupError _ | wait _ | sendReady _ _ =>
    rw [outstanding_nil rfl]
    exact h.same rfl rfl rfl (Or.inl rfl)
  | refused _ | refusedClose _ => rw [outstanding_nil rfl]; exact h
  | changeSandbox hst _ _ _ =>
    rw [outstanding_nil rfl]
    exact ⟨h.ready, h.busy, h.idle, fun _ => hst, h.out⟩
  | closeSandbox hst _ _ _ =>
    rw [outstanding_nil rfl]
    exact ⟨h.ready, h.busy, h.idle, fun _ => hst, h.out⟩
  | @leaveWindow w _ _ _ hw =>
    rw [outstanding_nil rfl]
    have hst : p.processState = .idle := h.locked (by rw [show p.lockedBy = _ from hw]; rfl)
    refine ⟨fun q hq => ?_, fun hq => ?_, fun q hq => ?_, fun hk => (by cases hk), fun t hto hl => ?_⟩
    · have := h.ready q hq; rw [hst] at this; cases this
    · have := h.busy hq; rw [hst] at this; cases this
    · cases w <;> simp
    · rw [show o = none from h.out_none hl (by simp [hst]) (by simp [hst])] at hto; cases hto
  | @launchProcess out hl =>
    rw [outstanding_nil rfl]
    cases out with
    | pipeError _ => exact h.same rfl rfl rfl (Or.inl rfl)
    | startError _ _ => exact h.same rfl rfl rfl (Or.inl rfl)
    | started _ =>
      unfold Process.launchProcess
      dsimp only
      split_ifs
      · exact h.same rfl rfl rfl (Or.inl rfl)
      · exact h.same rfl rfl rfl (Or.inl rfl)

theorem answerInv_reach {user : ℕ} {key : RequestGroupKey} {name : String} {b : Bool}
    {s : Process × Option String}
    (h : Reach (watchedStep cfg) AnswerOk (new user key name b, none) s) : AnswerInv s.1 s.2 := by
  refine h.inv (I := fun s => AnswerInv s.1 s.2) (answerInv_new user key name b) ?_
  rintro ⟨p, o⟩ a ⟨p', o'⟩ hI hok hstep
  obtain ⟨outs, hact, rfl⟩ := watchedStep_eq_some hstep
  exact hI.step hok (act_step hact)

/-! ## Results -/

theorem AnswerInv.busy_to_ready (h : AnswerInv p o) (hok : AnswerOk (p, o) a)
    (hs : ProcStep p a p' outs) (hb : p.processState = .busy) (hr : p'.processState = .ready) :
    ∃ sigOk msg tx, a = .txResp sigOk ∧ p.respCh = some msg ∧ p.tx = some tx ∧
      msg.txId = tx.txId := by
  cases hs with
  | answered _ hresp _ htx _ => exact ⟨_, _, _, rfl, hresp, htx, hok _ hresp _ htx⟩
  | deployFailed _ hresp _ htx _ _ => exact ⟨_, _, _, rfl, hresp, htx, hok _ hresp _ htx⟩
  | setStream _ => exact absurd hb hok.1
  | idleTaken hl _ => exact absurd hb (h.idle _ hl).1
  | dispatched _ _ _ _ | busyTimeout _ _ _ _ _ | readyTimeout _ _ _ _ => cases hr
  | @leaveWindow w _ _ _ _ => cases w <;> cases hr
  | loopHead _ | wake _ | dropped _ _ | idleKept _ | strayTimeout _ _ _ _ | putMsg _ | refused _
  | noGroup _ _ | refusedClose _ | sendReady _ _ | cgroupError _ | wait _ | expire | pop =>
    rw [show p.processState = .ready from hr] at hb; cases hb
  | changeSandbox hst _ _ _ | closeSandbox hst _ _ _ => rw [hst] at hb; cases hb
  | exit _ _ _ hcase _ =>
    cases hcase with
    | ended hst _ _ =>
      rcases hst with ⟨-, rfl⟩ | ⟨-, rfl, -⟩ | ⟨-, rfl, -⟩
      · rw [show p.processState = .ready from hr] at hb; cases hb
      · rw [show p.processState = .ready from hr] at hb; cases hb
      · cases hr
    | restart _ hst _ | restartAll _ hst | closed _ hst => rw [hst] at hb; cases hb
  | @launchProcess out _ =>
    have : (p.launchProcess out).processState = p.processState := by
      cases out with
      | pipeError _ | startError _ _ => rfl
      | started _ => unfold Process.launchProcess; dsimp only; split_ifs <;> rfl
    rw [this, hb] at hr; cases hr

theorem AnswerInv.sends_none (h : AnswerInv p o) (hs : ProcStep p a p' outs)
    (hne : sends outs ≠ []) : o = none := by
  cases hs with
  | dispatched hl _ _ _ =>
    have hst := h.ready _ hl
    exact h.out_none (by rw [hl]; rfl) (by simp [hst]) (by simp [hst])
  | dropped _ ho => exact absurd (errOrNil_sends ho) hne
  | exit _ _ _ hcase _ =>
    cases hcase with
    | ended _ _ hsd => exact absurd hsd hne
    | restart _ _ _ | restartAll _ _ | closed _ _ => exact absurd rfl hne
  | _ => exact absurd rfl hne

/-- **One outstanding transaction.**  In a run whose steps all satisfy `AnswerOk`, a
    process leaves busy for ready only on a response with the `TxId` of its current
    transaction, and sends a transaction only when the last one sent was answered
    with its own `TxId` or failed. -/
theorem one_outstanding {user : ℕ} {key : RequestGroupKey} {name : String} {b : Bool}
    (h : Reach (watchedStep cfg) AnswerOk (new user key name b, none) (p, o))
    (hok : AnswerOk (p, o) a) (hact : act cfg p a = .ok (p', outs)) :
    (p.processState = .busy → p'.processState = .ready →
      ∃ sigOk msg tx, a = .txResp sigOk ∧ p.respCh = some msg ∧ p.tx = some tx ∧
        msg.txId = tx.txId) ∧
      (sends outs ≠ [] → o = none) :=
  ⟨(answerInv_reach h).busy_to_ready hok (act_step hact),
    (answerInv_reach h).sends_none (act_step hact)⟩

/-- The process of the runs below. -/
def watchedSample : Process × Option String :=
  (new 10000 .sample "chain1#o#fact#v1#0#1" true, none)

/-- From the launch until the first transaction is at work. -/
def runToBusy : List Action :=
  [.launchProcess (.started 0), .loopHead, .setStream 0, .wake, .loopHead,
    .txReq (sampleTx .sample "tx1" "save") 0 true, .loopHead]

/-- The next transaction. -/
def nextReq : Action := .txReq (sampleTx .sample "tx2" "save") 0 true

/-- A successful answer of the sandbox. -/
def sampleResp (txId : String) : DockerVMMessage :=
  ⟨"chain1", txId, .txResponse, none, none, some ⟨.ok, "", "", "", "", []⟩⟩

/-- The step sends a transaction. -/
def SendsIn (s : Process × Option String) (a : Action) : Bool :=
  match act .sample s.1 a with
  | .ok (_, outs) => !(sends outs).isEmpty
  | .error _ => false

/-- The answer to `tx1` makes the process ready for `tx2`. -/
theorem one_outstanding_answered : ∃ s, Reach (watchedStep .sample) AnswerOk watchedSample s ∧
    SendsIn s nextReq = true ∧ s.2 = none := by
  obtain ⟨⟨p, o⟩, hs, hP⟩ := exists_reach (watchedStep .sample) AnswerOk watchedSample
    (fun s => SendsIn s nextReq)
    (runToBusy ++ [.putMsg (sampleResp "tx1"), .txResp true, .loopHead]) (by decide)
  refine ⟨(p, o), hs, hP, ?_⟩
  unfold SendsIn at hP
  split at hP
  · rename_i p' outs hact
    exact (one_outstanding hs (show AnswerOk (p, o) nextReq from trivial) hact).2 (by simpa using hP)
  · cases hP

/-- The step leaves busy for ready. -/
def LeavesBusy (s : Process × Option String) (a : Action) : Bool :=
  match act .sample s.1 a with
  | .ok (p', _) => decide (s.1.processState = .busy ∧ p'.processState = .ready)
  | .error _ => false

/-- A response with another `TxId` and a second registration of the sandbox end the
    busy period of `tx1`, and then `tx2` is sent while `tx1` is outstanding. -/
theorem two_outstanding :
    (∃ s, Reach (watchedStep .sample) Free watchedSample s ∧
      (LeavesBusy s (.txResp true) && decide (s.1.respCh = some (sampleResp "tx0")) &&
        decide (s.1.tx = some (sampleTx .sample "tx1" "save"))) = true) ∧
    (∃ s, Reach (watchedStep .sample) Free watchedSample s ∧ LeavesBusy s (.setStream 0) = true) ∧
    (∃ s, Reach (watchedStep .sample) Free watchedSample s ∧
      (SendsIn s nextReq && decide (s.2 = some "tx1")) = true) := by
  refine ⟨?_, ?_, ?_⟩
  · exact exists_reach _ Free _ _ (runToBusy ++ [.putMsg (sampleResp "tx0")]) (by decide)
  · exact exists_reach _ Free _ _ runToBusy (by decide)
  · exact exists_reach _ Free _ _
      (runToBusy ++ [.putMsg (sampleResp "tx0"), .txResp true, .loopHead]) (by decide)

end Process

end VmEngine
