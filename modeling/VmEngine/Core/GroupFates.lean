/-
  What becomes of a transaction once its contract is ready.

  A request reaches the queues of the processes on two ways: directly, through
  `putTxReqToCh`, when the contract is ready, or through `bufCh`, which
  `handleContractReadyResp` empties with `enqueueCh`.  `fate` says what should become of a
  transaction on either way.  The direct way follows it, except for a request that is too
  deep and carries no `Request`; the way through the buffer follows it only when every
  buffered transaction has a cross context within the depth, since `enqueueCh` tests
  neither.
-/
import VmEngine.Core.GroupQueues

namespace VmEngine

namespace RequestGroup
variable {C : ChainConsts} {r r' : RequestGroup} {tx : DockerVMMessage}

/-- What should become of a transaction whose contract is ready. -/
inductive Fate where
  /-- put into the queue of the original or of the cross processes -/
  | enqueued (isOrig : Bool)
  /-- answered with an error -/
  | answered
  | rejected
deriving DecidableEq, Repr

/-- The fate of a transaction depends on its cross context alone. -/
def fate (C : ChainConsts) (tx : DockerVMMessage) : Fate :=
  match tx.crossContext with
  | none => .rejected
  | some c =>
    if C.callContractDepth < c.currentDepth then .answered
    else .enqueued (c.currentDepth == 0 || !hasUsed C c.crossInfo)

/-- The cross context is present and its depth is at most `CallContractDepth`. -/
def WithinDepth (C : ChainConsts) (tx : DockerVMMessage) : Prop :=
  ∃ c, tx.crossContext = some c ∧ c.currentDepth ≤ C.callContractDepth

/-- The cross context is present and its depth exceeds `CallContractDepth`. -/
def TooDeep (C : ChainConsts) (tx : DockerVMMessage) : Prop :=
  ∃ c, tx.crossContext = some c ∧ C.callContractDepth < c.currentDepth

/-- The turn of a transaction request and, when the contract is not ready, the turn of the
    response that makes it ready. -/
def arrive (C : ChainConsts) (view view' : Bool → ProcessCounts) (now : ℤ) (r : RequestGroup)
    (tx : DockerVMMessage) : Go (RequestGroup × List GroupOut) := do
  let (r₁, outs) ← handleTxReq C view r tx
  if r.contractState = .ready then return (r₁, outs)
  else
    let (r₂, outs') ← handleContractReadyResp C view' now r₁ .ok
    return (r₂, outs ++ outs')

/-- The transactions whose fate is decided in `arrive`. -/
def pending (r : RequestGroup) (tx : DockerVMMessage) : List DockerVMMessage :=
  if r.contractState = .ready then [tx] else r.bufCh ++ [tx]

/-- The transactions `txs` have met their fate: the queues grew by those to enqueue, in
    order, and exactly those to answer were answered, with an error each. -/
structure Decided (C : ChainConsts) (r : RequestGroup) (txs : List DockerVMMessage)
    (r' : RequestGroup) (outs : List GroupOut) : Prop where
  queues : ∀ o, r'.queue o = r.queue o ++ txs.filter (fate C · = .enqueued o)
  answers : List.Forall₂ (fun tx resp => resp.txId = tx.txId ∧ resp.type = .error)
    (txs.filter (fate C · = .answered)) (answersOf outs)

/-! ## Fates -/

theorem fate_eq_enqueued {o : Bool} :
    fate C tx = .enqueued o ↔ WithinDepth C tx ∧ isOrig C tx = .ok o := by
  unfold fate WithinDepth isOrig
  cases tx.crossContext with
  | none => simp
  | some c =>
    by_cases hd : C.callContractDepth < c.currentDepth
    · simp [hd]
    · simp [hd, Nat.le_of_not_lt hd]

theorem fate_eq_answered : fate C tx = .answered ↔ TooDeep C tx := by
  unfold fate TooDeep
  cases tx.crossContext with
  | none => simp
  | some c => simp

theorem WithinDepth.not_tooDeep (h : WithinDepth C tx) : ¬ TooDeep C tx := by
  rintro ⟨c, hc, hd⟩
  obtain ⟨c', hc', hd'⟩ := h
  rw [hc] at hc'
  cases hc'
  omega

theorem WithinDepth.isOrig_ok (h : WithinDepth C tx) : ∃ o, isOrig C tx = .ok o := by
  obtain ⟨c, hc, -⟩ := h
  exact ⟨_, by unfold isOrig; rw [hc]⟩

variable {now : ℤ} {txs : List DockerVMMessage} {view : Bool → ProcessCounts}

theorem filter_enqueued (h : ∀ t ∈ txs, WithinDepth C t) (o : Bool) :
    txs.filter (fate C · = .enqueued o) = txs.filter (goesTo C o) := by
  refine List.filter_congr fun t ht => ?_
  rw [Bool.eq_iff_iff, decide_eq_true_iff, fate_eq_enqueued, goesTo_iff]
  exact ⟨And.right, And.intro (h t ht)⟩

theorem filter_answered (h : ∀ t ∈ txs, ¬ TooDeep C t) :
    txs.filter (fate C · = .answered) = [] := by
  refine List.filter_eq_nil_iff.2 fun t ht => ?_
  rw [decide_eq_true_iff, fate_eq_answered]
  exact h t ht

/-! ## The two ways -/

theorem enqueueCh_returns {o : Bool} (h : isOrig C tx = .ok o) (r : RequestGroup) :
    (enqueueCh C r tx).Returns := by
  unfold enqueueCh
  rw [h]
  exact ⟨_, rfl⟩

theorem moveTxs_returns (h : ∀ t ∈ txs, ∃ o, isOrig C t = .ok o) (r : RequestGroup) :
    (moveTxs C r txs).Returns := by
  induction txs generalizing r with
  | nil => exact Go.returns_ok r
  | cons t txs ih =>
    obtain ⟨o, ho⟩ := h t (by simp)
    obtain ⟨r₁, h₁⟩ := enqueueCh_returns ho r
    obtain ⟨r₂, h₂⟩ := ih (fun t' ht' => h t' (by simp [ht'])) r₁
    exact ⟨r₂, Go.bind_eq_ok.2 ⟨r₁, h₁, h₂⟩⟩

/-- The response that makes the contract ready returns when `moveTxs` does, and the queues
    are then those that `moveTxs` leaves. -/
theorem handleContractReadyResp_moves (view : Bool → ProcessCounts) (now : ℤ) (r : RequestGroup) :
    ∀ res, handleContractReadyResp C view now r .ok = .ok res ↔
      ∃ r₁, moveTxs C { r with getBytecodeTimer := r.getBytecodeTimer.stopAndDrain,
                               contractState := .ready, contractFileVersion := now, bufCh := [] }
          r.bufCh = .ok r₁ ∧
        ((getProcesses view (getProcesses view r₁ true).1 false).1,
          (getProcesses view r₁ true).2 ++
            (getProcesses view (getProcesses view r₁ true).1 false).2) = res := by
  intro res
  unfold handleContractReadyResp
  dsimp only
  rw [Go.bind_eq_ok]
  refine exists_congr fun r₁ => and_congr_right fun _ => ?_
  exact ⟨fun h => Except.ok.inj h, fun h => congrArg Except.ok h⟩

/-- What the queues and the answers are after the buffer was emptied. -/
theorem handleContractReadyResp_ok {outs : List GroupOut}
    (h : handleContractReadyResp C view now r .ok = .ok (r', outs)) :
    (∀ o, r'.queue o = r.queue o ++ r.bufCh.filter (goesTo C o)) ∧ answersOf outs = [] ∧
      ∀ t ∈ r.bufCh, ∃ o, isOrig C t = .ok o := by
  obtain ⟨r₁, hm, hr⟩ := (handleContractReadyResp_moves view now r _).1 h
  obtain ⟨rfl, rfl⟩ := Prod.mk.inj hr
  obtain ⟨hq, hall⟩ := queue_moveTxs hm
  obtain ⟨hs, hans⟩ := sameQueues_getProcesses view r₁ true
  obtain ⟨hs', hans'⟩ := sameQueues_getProcesses view (getProcesses view r₁ true).1 false
  refine ⟨fun o => ?_, ?_, hall⟩
  · rw [(hs.trans hs').queue, hq]
    rfl
  · rw [answersOf_append, hans, hans']
    rfl

/-- A contract that is not ready: the transaction joins the buffer, and nothing is answered. -/
theorem handleTxReq_buffers (C : ChainConsts) (view : Bool → ProcessCounts) (tx : DockerVMMessage)
    (hst : r.contractState ≠ .ready) :
    ∃ r₁ outs, handleTxReq C view r tx = .ok (r₁, outs) ∧ r₁.bufCh = r.bufCh ++ [tx] ∧
      (∀ o, r₁.queue o = r.queue o) ∧ answersOf outs = [] := by
  unfold handleTxReq
  cases hc : r.contractState with
  | empty => exact ⟨_, _, rfl, rfl, fun _ => rfl, rfl⟩
  | waiting => exact ⟨_, _, rfl, rfl, fun _ => rfl, rfl⟩
  | ready => exact absurd hc hst

/-- The direct way, by the fate of the transaction. -/
theorem handleTxReq_ready (view : Bool → ProcessCounts) (hst : r.contractState = .ready)
    (hreq : TooDeep C tx → tx.request.isSome) :
    ∃ r₁ outs, handleTxReq C view r tx = .ok (r₁, outs) ∧ Decided C r [tx] r₁ outs := by
  unfold handleTxReq
  rw [hst]
  cases hx : tx.crossContext with
  | none =>
    -- rejected before the cross context is read
    have hf : fate C tx = .rejected := by unfold fate; rw [hx]
    refine ⟨r, [], by simp only [putTxReqToCh, hx]; rfl, fun o => ?_, ?_⟩
    · simp [hf]
    · simp [hf, answersOf]
  | some c =>
    by_cases hd : C.callContractDepth < c.currentDepth
    · have hdeep : TooDeep C tx := ⟨c, hx, hd⟩
      obtain ⟨q, hq⟩ := Option.isSome_iff_exists.1 (hreq hdeep)
      have hf := fate_eq_answered.2 hdeep
      refine ⟨r, [.scheduler (depthErrorResp C r tx.txId q)], ?_, fun o => ?_, ?_⟩
      · simp only [putTxReqToCh, hx, if_pos hd, hq]
        rfl
      · simp [hf]
      · simp [hf, answersOf, depthErrorResp]
    · have hw : WithinDepth C tx := ⟨c, hx, Nat.le_of_not_lt hd⟩
      obtain ⟨o, ho⟩ := hw.isOrig_ok
      obtain ⟨r₁, he⟩ := enqueueCh_returns ho r
      obtain ⟨o', ho', -, hq⟩ := queue_enqueueCh he
      obtain rfl : o = o' := Except.ok.inj (ho.symm.trans ho')
      obtain ⟨hs, hans⟩ := sameQueues_getProcesses view r₁ o
      have hf : fate C tx = .enqueued o := fate_eq_enqueued.2 ⟨hw, ho⟩
      refine ⟨(getProcesses view r₁ o).1, (getProcesses view r₁ o).2, ?_, fun o₁ => ?_, ?_⟩
      · simp only [putTxReqToCh, hx, if_neg hd, he, ho]
        rfl
      · rw [hs.queue, hq]
        by_cases hoo : o = o₁
        · simp [hf, hoo]
        · simp [hf, hoo]
      · rw [hans]
        simp [hf]

/-! ## Both ways -/

theorem arrive_ready {view' : Bool → ProcessCounts} (hst : r.contractState = .ready) :
    arrive C view view' now r tx = handleTxReq C view r tx := by
  unfold arrive
  simp only [if_pos hst]
  exact bind_pure _

theorem arrive_buffered {view' : Bool → ProcessCounts} {outs : List GroupOut}
    (hst : r.contractState ≠ .ready) (h : arrive C view view' now r tx = .ok (r', outs)) :
    (∀ o, r'.queue o = r.queue o ++ (r.bufCh ++ [tx]).filter (goesTo C o)) ∧
      answersOf outs = [] ∧ ∀ t ∈ r.bufCh ++ [tx], ∃ o, isOrig C t = .ok o := by
  obtain ⟨r₁, outs₁, h₁, hb, hq, hans⟩ := handleTxReq_buffers C view tx hst
  unfold arrive at h
  obtain ⟨⟨r₁', outs₁'⟩, h₁', h⟩ := Go.bind_eq_ok.1 h
  obtain ⟨rfl, rfl⟩ := Prod.mk.inj (Except.ok.inj (h₁.symm.trans h₁'))
  simp only [if_neg hst] at h
  obtain ⟨⟨r₂, outs₂⟩, h₂, h⟩ := Go.bind_eq_ok.1 h
  obtain ⟨rfl, rfl⟩ := Prod.mk.inj (Except.ok.inj h)
  obtain ⟨hq', hans', hall⟩ := handleContractReadyResp_ok h₂
  rw [hb] at hq' hall
  refine ⟨fun o => (hq' o).trans (by rw [hq]), ?_, hall⟩
  rw [answersOf_append, hans, hans']
  rfl

theorem arrive_buffered_returns (view view' : Bool → ProcessCounts) (now : ℤ)
    (hst : r.contractState ≠ .ready) (h : ∀ t ∈ r.bufCh ++ [tx], ∃ o, isOrig C t = .ok o) :
    (arrive C view view' now r tx).Returns := by
  obtain ⟨r₁, outs₁, h₁, hb, -, -⟩ := handleTxReq_buffers C view tx hst
  obtain ⟨r₂, hm⟩ := moveTxs_returns (r := { r₁ with
    getBytecodeTimer := r₁.getBytecodeTimer.stopAndDrain, contractState := .ready,
    contractFileVersion := now, bufCh := [] }) (hb ▸ h)
  have h₂ := (handleContractReadyResp_moves (C := C) view' now r₁ _).2 ⟨r₂, hm, rfl⟩
  unfold arrive
  rw [Go.returns_bind]
  refine ⟨_, h₁, ?_⟩
  simp only [if_neg hst]
  exact Go.returns_bind.2 ⟨_, h₂, Go.returns_ok _⟩

/-- **When a transaction's fate does not depend on the arrival time.**  A request that finds
    the contract ready meets its fate, unless it is too deep and has no `Request` to build
    the answer from.  The requests that wait in the buffer meet theirs exactly when all of
    them have a cross context within the depth. -/
theorem arrive_decides_iff (C : ChainConsts) (view view' : Bool → ProcessCounts) (now : ℤ)
    (r : RequestGroup) (tx : DockerVMMessage) :
    (∃ r' outs, arrive C view view' now r tx = .ok (r', outs) ∧
        Decided C r (r.pending tx) r' outs) ↔
      (r.contractState = .ready ∧ (TooDeep C tx → tx.request.isSome)) ∨
        (r.contractState ≠ .ready ∧ ∀ t ∈ r.bufCh ++ [tx], WithinDepth C t) := by
  by_cases hst : r.contractState = .ready
  · rw [arrive_ready hst, pending, if_pos hst]
    simp only [hst, true_and, ne_eq, not_true, false_and, or_false]
    refine ⟨?_, handleTxReq_ready view hst⟩
    rintro ⟨r', outs, h, -⟩ ⟨c, hx, hd⟩
    rw [← Option.ne_none_iff_isSome]
    intro hnone
    -- the answer is built from the fields of `Request`
    simp only [handleTxReq, hst, putTxReqToCh, hx, if_pos hd, hnone] at h
    cases h
  · rw [pending, if_neg hst]
    simp only [hst, false_and, ne_eq, not_false_eq_true, true_and, false_or]
    constructor
    · rintro ⟨r', outs, h, hdec⟩ t ht
      obtain ⟨hq, -, hall⟩ := arrive_buffered hst h
      obtain ⟨o, ho⟩ := hall t ht
      have hsame := List.append_cancel_left ((hq o).symm.trans (hdec.queues o))
      have hmem : t ∈ (r.bufCh ++ [tx]).filter (goesTo C o) :=
        List.mem_filter.2 ⟨ht, goesTo_iff.2 ho⟩
      rw [hsame] at hmem
      exact (fate_eq_enqueued.1 (of_decide_eq_true (List.mem_filter.1 hmem).2)).1
    · intro hall
      obtain ⟨⟨r', outs⟩, h⟩ := arrive_buffered_returns view view' now hst
        fun t ht => (hall t ht).isOrig_ok
      obtain ⟨hq, hans, -⟩ := arrive_buffered hst h
      refine ⟨r', outs, h, fun o => ?_, ?_⟩
      · rw [hq, filter_enqueued hall]
      · rw [hans, filter_answered fun t ht => (hall t ht).not_tooDeep]
        exact .nil

/-- The first transaction of a contract, at a depth that exceeds `CallContractDepth`: it is
    put into a queue and not answered.  The same transaction is answered when the contract
    is ready.  One without a cross context stops the group's goroutine. -/
theorem arrive_too_deep_enqueued :
    let tx : DockerVMMessage :=
      { sampleTx .sample "tx1" "m" with crossContext := some ⟨6, "", 0⟩ }
    let counts : Bool → ProcessCounts := fun _ => ⟨0, 0⟩
    let cold := RequestGroup.new .sample
    let warm := { cold with contractState := ContractState.ready }
    fate .sample tx = .answered ∧
      ((arrive .sample counts counts 1 cold tx).toOption.map fun res =>
        (res.1.queue true, answersOf res.2)) = some ([tx], []) ∧
      ((arrive .sample counts counts 1 warm tx).toOption.map fun res =>
        (res.1.queue true, (answersOf res.2).map (·.type))) = some ([], [.error]) ∧
      arrive .sample counts counts 1 cold { tx with crossContext := none } = .error .panics ∧
      (arrive .sample counts counts 1 warm { tx with crossContext := none }).Returns := by
  refine ⟨by decide, by decide, by decide, rfl, _, rfl⟩

end RequestGroup

end VmEngine
