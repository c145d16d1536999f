/-
  The turns of a request group, cut where they wait for a process manager.

  A handler of a group ends with its calls of `getProcesses`, which read the process
  numbers under the lock of a manager.  `beginTxCh` and `beginEventCh` are the handlers
  up to there, with the managers that are still to be called; `runCalls` makes the calls.
  Together they are the handlers (`handleTxCh_eq`, `handleEventCh_eq`).
-/
import VmEngine.Core.GroupRequests
import VmEngine.Core.GroupTurn

namespace VmEngine

namespace RequestGroup
variable {C : ChainConsts} {view : Bool → ProcessCounts} {r r' : RequestGroup}

/-- `getProcesses` comes to the locks of the manager. -/
def Asks (r : RequestGroup) (isOrig : Bool) : Prop :=
  (r.controller isOrig).processWaiting = false ∧ r.contractState = .ready

instance (r : RequestGroup) (isOrig : Bool) : Decidable (r.Asks isOrig) :=
  inferInstanceAs (Decidable (_ ∧ _))

/-- The calls of `getProcesses` at the end of a handler. -/
def runCalls (view : Bool → ProcessCounts) : RequestGroup → List Bool → RequestGroup × List GroupOut
  | r, [] => (r, [])
  | r, o :: os =>
    let (r, outs) := getProcesses view r o
    let (r, outs') := runCalls view r os
    (r, outs ++ outs')

/-- `handleTxReq` up to `getProcesses`. -/
def beginTxReq (C : ChainConsts) (r : RequestGroup) (req : DockerVMMessage) :
    Go (RequestGroup × List GroupOut × List Bool) :=
  match r.contractState with
  | .empty =>
    let (r, outs) := sendGetContractReq { r with bufCh := r.bufCh ++ [req] } req.txId
    .ok (r, outs, [])
  | .waiting => .ok ({ r with bufCh := r.bufCh ++ [req] }, [], [])
  | .ready => do
    let (r, outs, enqueued) ← putTxReqToCh C r req
    if enqueued then
      let o ← isOrig C req
      return (r, outs, [o])
    else return (r, outs, [])

/-- `handleContractReadyResp` up to `getProcesses`. -/
def beginContractReadyResp (C : ChainConsts) (now : ℤ) (r : RequestGroup) (code : DockerVMCode) :
    Go (RequestGroup × List GroupOut × List Bool) :=
  let r := { r with getBytecodeTimer := r.getBytecodeTimer.stopAndDrain }
  match code with
  | .fail => do
    let (r, outs) ← handleGetBytecodeFailed r
    return (r, outs, [])
  | .ok => do
    let r := { r with contractState := .ready, contractFileVersion := now }
    let r ← moveTxs C { r with bufCh := [] } r.bufCh
    return (r, [], [true, false])

/-- The handler of a message of `txCh` up to `getProcesses`. -/
def beginTxCh (C : ChainConsts) (now : ℤ) (r : RequestGroup) (msg : DockerVMMessage) :
    Go (RequestGroup × List GroupOut × List Bool) :=
  match msg.type with
  | .txRequest => beginTxReq C r msg
  | .getBytecodeResponse =>
    match msg.response with
    | none => .error .panics
    | some resp => beginContractReadyResp C now r resp.code
  | _ => .ok (r, [], [])

/-- The handler of a message of `eventCh` up to `getProcesses`. -/
def beginEventCh (r : RequestGroup) : GroupEvent → RequestGroup × List GroupOut × List Bool
  | .processResp msg => (r.updateControllerState msg.isOrig false, [], [msg.isOrig])
  | .badContract msg =>
    let (r, outs) := handleBadContractResp r msg
    (r, outs, [])

/-- The rest of a handler. -/
def finishTurn (view : Bool → ProcessCounts) (b : RequestGroup × List GroupOut × List Bool) :
    RequestGroup × List GroupOut :=
  let (r, outs') := runCalls view b.1 b.2.2
  (r, b.2.1 ++ outs')

/-! ## The two parts are the handler -/

theorem handleTxReq_eq (req : DockerVMMessage) :
    handleTxReq C view r req = (beginTxReq C r req).map (finishTurn view) := by
  unfold handleTxReq beginTxReq
  cases r.contractState with
  | empty => simp [Except.map, finishTurn, runCalls]
  | waiting => rfl
  | ready =>
    dsimp only
    cases putTxReqToCh C r req with
    | error e => rfl
    | ok b =>
      obtain ⟨r', outs, enqueued⟩ := b
      cases enqueued with
      | false => simp [Except.map, finishTurn, runCalls, bind, Except.bind, pure, Except.pure]
      | true =>
        cases isOrig C req with
        | error e => rfl
        | ok o => simp [Except.map, finishTurn, runCalls, bind, Except.bind, pure, Except.pure]

theorem handleContractReadyResp_eq (now : ℤ) (code : DockerVMCode) :
    handleContractReadyResp C view now r code =
      (beginContractReadyResp C now r code).map (finishTurn view) := by
  unfold handleContractReadyResp beginContractReadyResp
  cases code with
  | fail =>
    dsimp only
    generalize handleGetBytecodeFailed { r with
      getBytecodeTimer := r.getBytecodeTimer.stopAndDrain } = x
    cases x with
    | error e => rfl
    | ok b => simp [Except.map, finishTurn, runCalls, bind, Except.bind, pure, Except.pure]
  | ok =>
    dsimp only
    generalize moveTxs C _ r.bufCh = x
    cases x with
    | error e => rfl
    | ok b => simp [Except.map, finishTurn, runCalls, bind, Except.bind, pure, Except.pure]

/-- A turn that takes a message from `txCh`. -/
theorem handleTxCh_eq (now : ℤ) (msg : DockerVMMessage) :
    handleTxCh C view now r msg = (beginTxCh C now r msg).map (finishTurn view) := by
  unfold handleTxCh beginTxCh
  cases msg.type with
  | txRequest => exact handleTxReq_eq msg
  | getBytecodeResponse =>
    cases msg.response with
    | none => rfl
    | some resp => exact handleContractReadyResp_eq now resp.code
  | _ => rfl

/-- A turn that takes an event. -/
theorem handleEventCh_eq (e : GroupEvent) :
    handleEventCh view r e = finishTurn view (beginEventCh r e) := by
  cases e with
  | processResp msg => simp [handleEventCh, handleProcessReadyResp, beginEventCh, finishTurn, runCalls]
  | badContract msg => simp [handleEventCh, beginEventCh, finishTurn, runCalls]

/-! ## The events stay -/

theorem eventCh_runCalls (view : Bool → ProcessCounts) (r : RequestGroup) (calls : List Bool) :
    (runCalls view r calls).1.eventCh = r.eventCh := by
  induction calls generalizing r with
  | nil => rfl
  | cons o os ih => exact (ih _).trans (sameChans_getProcesses view r o).eventCh

variable {calls : List Bool} {now : ℤ} {o : Bool} {outs : List GroupOut}

/-- The whole turn keeps the events, and so do the calls. -/
theorem eventCh_beginTxCh {msg : DockerVMMessage}
    (h : beginTxCh C now r msg = .ok (r', outs, calls)) : r'.eventCh = r.eventCh := by
  have hturn : handleTxCh C (fun _ => ⟨0, 0⟩) now r msg =
      .ok (finishTurn (fun _ => ⟨0, 0⟩) (r', outs, calls)) := by
    rw [handleTxCh_eq, h]
    rfl
  rw [← eventCh_runCalls (fun _ => ⟨0, 0⟩) r' calls]
  exact (sameChans_handleTxCh hturn).eventCh

theorem eventCh_beginEventCh (r : RequestGroup) (e : GroupEvent) :
    (beginEventCh r e).1.eventCh = r.eventCh := by
  have hturn := sameChans_handleEventCh (fun _ => ⟨0, 0⟩) r e
  rw [handleEventCh_eq] at hturn
  rw [← eventCh_runCalls (fun _ => ⟨0, 0⟩) _ (beginEventCh r e).2.2]
  exact hturn.eventCh

/-! ## Which manager a turn comes to -/

/-- The handler of `msg` comes to the locks of the manager, in its first call. -/
def TxCalls (C : ChainConsts) (r : RequestGroup) (msg : DockerVMMessage) (isOrig : Bool) : Prop :=
  msg.type = .txRequest ∧ (VmEngine.isOrig C msg).toOption = some isOrig ∧ r.Asks isOrig ∧
      (putTxReqToCh C r msg).toOption.any (·.2.2) = true ∨
    msg.type = .getBytecodeResponse ∧ isOrig = true ∧
      (r.controller isOrig).processWaiting = false ∧ msg.response.any (·.code = .ok) = true

instance (C : ChainConsts) (r : RequestGroup) (msg : DockerVMMessage) (isOrig : Bool) :
    Decidable (r.TxCalls C msg isOrig) := inferInstanceAs (Decidable (_ ∨ _))

/-- The handler of the event comes to the locks of the manager. -/
def EventCalls (r : RequestGroup) (e : GroupEvent) (isOrig : Bool) : Prop :=
  match e with
  | .processResp msg => msg.isOrig = isOrig ∧ r.contractState = .ready
  | .badContract _ => False

instance (r : RequestGroup) (e : GroupEvent) (isOrig : Bool) : Decidable (r.EventCalls e isOrig) :=
  match e with
  | .processResp _ => inferInstanceAs (Decidable (_ ∧ _))
  | .badContract _ => instDecidableFalse

theorem SameFlags.asks {g g' : RequestGroup} (h : SameFlags g g')
    (hs : g'.contractState = g.contractState) (o : Bool) : g'.Asks o ↔ g.Asks o := by
  unfold Asks
  rw [h.flag, hs]

theorem beginTxReq_calls {req : DockerVMMessage} (h : beginTxReq C r req = .ok (r', outs, calls))
    (hc : calls.head? = some o) (ha : r'.Asks o) : (isOrig C req).toOption = some o ∧ r.Asks o ∧
      (putTxReqToCh C r req).toOption.any (·.2.2) = true := by
  unfold beginTxReq at h
  split at h
  · cases h; cases hc
  · cases h; cases hc
  · obtain ⟨⟨r₁, outs₁, enqueued⟩, hput, h⟩ := Go.bind_eq_ok.1 h
    dsimp only at h
    split_ifs at h with henq
    · obtain ⟨o', ho', h⟩ := Go.bind_eq_ok.1 h
      cases h
      cases hc
      rcases putTxReqToCh_cases hput with ⟨-, -, henqueue⟩ | ⟨hfalse, -⟩
      · refine ⟨by rw [ho']; rfl, ?_, by rw [hput]; exact henq⟩
        exact ((sameFlags_enqueueCh henqueue).asks (sameFetch_enqueueCh henqueue).contractState o).1 ha
      · rw [hfalse] at henq
        cases henq
    · cases h; cases hc

theorem beginContractReadyResp_calls {code : DockerVMCode}
    (h : beginContractReadyResp C now r code = .ok (r', outs, calls)) (hc : calls.head? = some o)
    (ha : r'.Asks o) : o = true ∧ (r.controller o).processWaiting = false ∧ code = .ok := by
  unfold beginContractReadyResp at h
  cases code with
  | fail =>
    obtain ⟨b, -, h⟩ := Go.bind_eq_ok.1 h
    cases h; cases hc
  | ok =>
    obtain ⟨r₁, hmove, h⟩ := Go.bind_eq_ok.1 h
    cases h
    cases hc
    exact ⟨rfl, ((sameFlags_moveTxs hmove).flag true).symm.trans ha.1, rfl⟩

theorem beginTxCh_calls {msg : DockerVMMessage} (h : beginTxCh C now r msg = .ok (r', outs, calls))
    (hc : calls.head? = some o) (ha : r'.Asks o) : r.TxCalls C msg o := by
  unfold beginTxCh at h
  cases htype : msg.type with
  | txRequest =>
    rw [htype] at h
    exact Or.inl ⟨htype, beginTxReq_calls h hc ha⟩
  | getBytecodeResponse =>
    rw [htype] at h
    cases hresp : msg.response with
    | none => rw [hresp] at h; cases h
    | some resp =>
      rw [hresp] at h
      obtain ⟨ho, hw, hcode⟩ := beginContractReadyResp_calls h hc ha
      exact Or.inr ⟨htype, ho, hw, by simpa [hresp] using hcode⟩
  | _ => rw [htype] at h; cases h; cases hc

theorem beginEventCh_calls {e : GroupEvent} (hc : (beginEventCh r e).2.2.head? = some o)
    (ha : (beginEventCh r e).1.Asks o) : r.EventCalls e o := by
  cases e with
  | processResp msg =>
    refine ⟨Option.some.inj hc, ?_⟩
    have hs := ha.2
    simpa [beginEventCh, updateControllerState] using hs
  | badContract msg => cases hc

/-- After a call no more locks are open than before. -/
theorem asks_of_getProcesses {o' : Bool} (ha : (getProcesses view r o).1.Asks o') : r.Asks o' := by
  rcases getProcesses_cases view r o with h | ⟨hw, hs, n, -, -, h⟩
  · rwa [h] at ha
  · rw [h] at ha
    rcases eq_or_ne o o' with rfl | hne
    · exact ⟨hw, hs⟩
    · simpa [Asks, updateControllerState, hne] using ha

end RequestGroup

end VmEngine
