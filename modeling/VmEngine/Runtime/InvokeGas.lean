/-
  The gas used over a whole call of `Invoke`.

  `gas_monotone`: in a run whose messages are all `Affordable`, no turn of the loop lowers
  the gas used, and the result reports at least the gas charged before the loop.
-/
import VmEngine.Runtime.HandlerGas

namespace VmEngine.Runtime

variable {σ κ η : Type} (P : Protocol) (S : TxSimContext σ κ η)

/-- A message of the sandbox can be handled without resetting the gas used: its charges can be
    paid, a history request since version 2312 finds its iterator, and the read map of a
    successful response can be merged. -/
def MsgAffordable (call : Invocation) (ordRead ordWrite : MapOrder) (m : DockerVMMessage) (g : UInt64)
    (st : RuntimeState σ κ η) : Prop :=
  match m.type with
  | .getStateRequest => ∀ c, m.sysCallMessage = some c →
      Affords P g (getStateBill S c.payload st.sim.store)
  | .getBatchStateRequest => ∀ c, m.sysCallMessage = some c → version2310 ≤ S.blockVersion →
      Affords P g (getBatchStateBill P S c.payload st.sim.store)
  | .createKvIteratorRequest => ∀ c, m.sysCallMessage = some c →
      AffordsCreateKv P S ordWrite c.payload g call.contract.name st.sim.store
  | .consumeKvIteratorRequest => ∀ c, m.sysCallMessage = some c → KvCharged P c.payload st.sim →
      Affords P g (consumeBill S)
  | .createKeyHistoryIterRequest => ∀ c, m.sysCallMessage = some c →
      Affords P g (createHistoryBill P S ordWrite c.payload call.contract.name st.sim.store)
  | .consumeKeyHistoryIterRequest => Affords P g (consumeBill S) ∧
      ∀ c, m.sysCallMessage = some c → version2312 ≤ S.blockVersion →
        HistoryFound P c.payload st.sim
  | .getSenderAddressRequest => Affords P g [.ok 10]
  | .callContractRequest => ∀ c, m.sysCallMessage = some c →
      AffordsCall P S call.uniqueTxKey m c.payload g call.contract st
  | .txResponse => ∀ r, m.response = some r → r.code = .ok →
      AffordsResponse P S ordRead ordWrite r g call.contract.name st.sim.store
  | _ => True

/-- **The condition on a turn**: nothing was used yet, or the message can be afforded. -/
def Affordable (call : Invocation) : InvokeState σ κ η → Received → Prop
  | .running g _ st, .sandbox m ordRead ordWrite =>
    g = 0 ∨ MsgAffordable P S call ordRead ordWrite m g st
  | _, _ => True

variable {P S}

theorem handleSandboxMsg_gas {call : Invocation} {ordRead ordWrite : MapOrder} {m : DockerVMMessage}
    {g : UInt64} {ty : ExecOrderTxType} {st : RuntimeState σ κ η} (hcall : CallKeepsGas S)
    (h : MsgAffordable P S call ordRead ordWrite m g st) :
    (handleSandboxMsg P S call ordRead ordWrite m g ty st).Ensures fun t => g ≤ t.1.gasUsed := by
  unfold MsgAffordable at h
  unfold handleSandboxMsg
  cases htype : m.type with
  | getStateRequest =>
    rw [htype] at h
    exact Go.Ensures.map (handleGetStateRequest_gas h)
  | getBatchStateRequest =>
    rw [htype] at h
    dsimp only
    split_ifs with hv
    · exact Go.ensures_ok (UInt64.le_refl g)
    · exact Go.Ensures.map (handleGetBatchStateRequest_gas fun c hc => h c hc (UInt32.not_lt.1 hv))
  | txResponse =>
    rw [htype] at h
    exact Go.Ensures.map (handleTxResponse_gas h)
  | callContractRequest =>
    rw [htype] at h
    exact Go.Ensures.map (handlerCallContract_gas hcall h)
  | createKvIteratorRequest =>
    rw [htype] at h
    exact Go.Ensures.map (handleCreateKvIterator_gas h)
  | consumeKvIteratorRequest =>
    rw [htype] at h
    exact Go.Ensures.map (handleConsumeKvIterator_gas h)
  | createKeyHistoryIterRequest =>
    rw [htype] at h
    exact Go.Ensures.map (handleCreateKeyHistoryIterator_gas h)
  | consumeKeyHistoryIterRequest =>
    rw [htype] at h
    exact Go.Ensures.map (handleConsumeKeyHistoryIterator_gas h.1 h.2)
  | getSenderAddressRequest =>
    rw [htype] at h
    exact Go.Ensures.map (handleGetSenderAddress_gas h)
  | _ => exact Go.ensures_ok (UInt64.le_refl g)

theorem handleEngineMsg_gas {m : DockerVMMessage} {g : UInt64} {ty : ExecOrderTxType}
    {st : RuntimeState σ κ η} : (handleEngineMsg m g ty st).Ensures fun t => g ≤ t.1.gasUsed := by
  unfold handleEngineMsg
  repeat' split
  all_goals first
    | exact Go.ensures_error _
    | exact Go.ensures_ok (UInt64.le_refl g)

/-- One turn of the loop. -/
theorem step_gas {call : Invocation} {s s' : InvokeState σ κ η} {r : Received}
    (hcall : CallKeepsGas S) (hok : Affordable P S call s r)
    (hstep : s.step P S call r = some s') : s.gasUsed ≤ s'.gasUsed := by
  rcases s with ⟨g, ty, st⟩ | _
  · obtain ⟨t, ht, heq⟩ := Option.bind_eq_some_iff.1 hstep
    obtain ⟨⟨s'', sent⟩, hgo, rfl⟩ := Option.map_eq_some_iff.1 heq
    cases ht
    have hgo := Go.toOption_eq_some.1 hgo
    cases r with
    | sandbox m ordRead ordWrite =>
      rcases hok with rfl | hok
      · exact UInt64.zero_le
      · exact handleSandboxMsg_gas hcall hok _ hgo
    | engine m => exact handleEngineMsg_gas _ hgo
    | timeout =>
      cases hgo
      exact UInt64.le_refl g
  · cases hstep

/-- **Gas is monotone** in every run whose messages are affordable: no turn lowers the gas used,
    and what is used or reported in the end is at least what was charged before the loop. -/
theorem gas_monotone (P : Protocol) (S : TxSimContext σ κ η) (hcall : CallKeepsGas S)
    (call : Invocation) (connected : Bool) (gasUsed : UInt64) (st : RuntimeState σ κ η)
    {s : InvokeState σ κ η}
    (h : Reach (InvokeState.step P S call) (Affordable P S call)
      (beforeLoop P S call connected gasUsed st) s) :
    (beforeLoop P S call connected gasUsed st).gasUsed ≤ s.gasUsed ∧
      ∀ r s', Affordable P S call s r → s.step P S call r = some s' → s.gasUsed ≤ s'.gasUsed := by
  refine ⟨?_, fun r s' hok hstep => step_gas hcall hok hstep⟩
  exact h.inv (I := fun s => (beforeLoop P S call connected gasUsed st).gasUsed ≤ s.gasUsed)
    (UInt64.le_refl _) fun hle hok hstep => UInt64.le_trans hle (step_gas hcall hok hstep)

/-- A request for the sender's address, and a response, for concrete runs. -/
def askSender : Received := .sandbox (sampleSysCall .getSenderAddressRequest []) .listed .listed

def respond : Received :=
  .sandbox { sampleSysCall .txResponse [] with
    response := some ⟨.ok, [], [], .empty, .empty, []⟩ } .listed .listed

/-- A run that asks for the sender's address and ends. -/
theorem gas_monotone_sender :
    ∃ s, Reach (InvokeState.step .sample (.sample version2312) .sample)
        (Affordable .sample (.sample version2312) .sample)
        (beforeLoop .sample (.sample version2312) .sample true 7 .sample) s ∧
      s.gasUsed = 17 ∧ (7 : UInt64) ≤ s.gasUsed := by
  have hsender : Affordable .sample (.sample version2312) .sample
      (.running 7 .normal .sample) askSender := .inr ⟨by decide, trivial⟩
  have hrespond : Affordable .sample (.sample version2312) .sample
      (.running 17 .normal .sample) respond := by
    refine .inr ?_
    rintro r ⟨rfl⟩ -
    exact ⟨rfl, trivial, fun merged h _ => h ▸ trivial⟩
  have hfirst : InvokeState.step .sample (.sample version2312) .sample (.running 7 .normal .sample)
      askSender = some (.running 17 .normal .sample) := rfl
  have hlast : InvokeState.step .sample (.sample version2312) .sample (.running 17 .normal .sample)
      respond = some (.returned ⟨0, [], [], 17, []⟩ .normal .sample) := rfl
  have hrun : Reach (InvokeState.step .sample (.sample version2312) .sample)
      (Affordable .sample (.sample version2312) .sample)
      (beforeLoop .sample (.sample version2312) .sample true 7 .sample)
      (.returned ⟨0, [], [], 17, []⟩ .normal .sample) :=
    (Reach.start.next hsender hfirst).next hrespond hlast
  exact ⟨_, hrun, rfl, (gas_monotone .sample (.sample version2312) (fun _ _ _ => UInt64.le_refl _)
    .sample true 7 .sample hrun).1⟩

/-- Before version 2312, at 9999999995 of 10000000000, a request for the sender's address is
    refused and resets the gas used to 0.  Since version 2312 a history request without an index
    does so at any amount, and so does, in the result, a response with a malformed read map. -/
theorem gas_lowered :
    (∃ s, InvokeState.step .sample (.sample 0) .sample
        (beforeLoop .sample (.sample 0) .sample true 9999988745 .sample) askSender = some s ∧
      (beforeLoop .sample (.sample 0) .sample true 9999988745 .sample).gasUsed = 9999999995 ∧
      s.gasUsed = 0) ∧
    (∃ s, InvokeState.step .sample (.sample version2312) .sample (.running 7 .normal .sample)
        (.sandbox (sampleSysCall .consumeKeyHistoryIterRequest []) .listed .listed) = some s ∧
      s.gasUsed = 0) ∧
    (∃ s, InvokeState.step .sample (.sample version2312) .sample (.running 7 .normal .sample)
        (.sandbox { sampleSysCall .txResponse [] with
          response := some ⟨.ok, [], [], .empty, ⟨[(text "x", [])], by decide⟩, []⟩ }
          .listed .listed) = some s ∧
      s.gasUsed = 0) :=
  ⟨⟨_, rfl, rfl, rfl⟩, ⟨_, rfl, rfl⟩, ⟨_, rfl, rfl⟩⟩

end VmEngine.Runtime
