/-
  The channels of a request group and the bytecode requests it sends.

  A turn takes the head of one channel and leaves the others alone.  A bytecode request
  goes out for the first transaction that is buffered, again when a fetch has failed
  and other transactions are buffered, and for an accepted report while transactions
  wait in the controllers' queues.
-/
import VmEngine.Core.GroupQueues

namespace VmEngine

namespace RequestGroup
variable {C : ChainConsts} {r r' : RequestGroup} {a : Action} {outs : List GroupOut}

/-! ## Channels -/

structure SameChans (r r' : RequestGroup) : Prop where
  txCh : r'.txCh = r.txCh
  eventCh : r'.eventCh = r.eventCh

theorem SameChans.trans {r₁ r₂ r₃ : RequestGroup} (h : SameChans r₁ r₂) (h' : SameChans r₂ r₃) :
    SameChans r₁ r₃ := ⟨h'.txCh.trans h.txCh, h'.eventCh.trans h.eventCh⟩

theorem sameChans_setController (r : RequestGroup) (o : Bool) (c : TxController) :
    SameChans r (r.setController o c) := ⟨txCh_setController r o c, eventCh_setController r o c⟩

variable {now : ℤ} {req : DockerVMMessage} {txId : String} {view : Bool → ProcessCounts}

theorem sameChans_enqueueCh (h : enqueueCh C r req = .ok r') : SameChans r r' := by
  obtain ⟨o, -, rfl⟩ := enqueueCh_eq h
  exact sameChans_setController _ _ _

theorem sameChans_moveTxs {txs : List DockerVMMessage} (h : moveTxs C r txs = .ok r') :
    SameChans r r' := by
  induction txs generalizing r with
  | nil => cases h; exact ⟨rfl, rfl⟩
  | cons tx txs ih =>
    obtain ⟨r₁, he, h⟩ := Go.bind_eq_ok.1 h
    exact (sameChans_enqueueCh he).trans (ih h)

theorem sameChans_getProcesses (view : Bool → ProcessCounts) (r : RequestGroup) (o : Bool) :
    SameChans r (getProcesses view r o).1 := by
  rcases getProcesses_cases view r o with h | ⟨-, -, n, -, -, h⟩
  · rw [h]; exact ⟨rfl, rfl⟩
  · rw [h]; exact sameChans_setController _ _ _

theorem sameChans_handleGetBytecodeErr (h : handleGetBytecodeErr r = .ok (r', outs)) :
    SameChans r r' := by
  unfold handleGetBytecodeErr at h
  split at h
  · cases h
  · dsimp only at h
    split_ifs at h
    · cases h; exact ⟨rfl, rfl⟩
    · cases h; exact ⟨rfl, rfl⟩

theorem sameChans_handleTxReq (h : handleTxReq C view r req = .ok (r', outs)) : SameChans r r' := by
  unfold handleTxReq at h
  split at h
  · cases h; exact ⟨rfl, rfl⟩
  · cases h; exact ⟨rfl, rfl⟩
  · obtain ⟨⟨r₁, outs₁, b⟩, hp, h₁⟩ := Go.bind_eq_ok.1 h
    rcases putTxReqToCh_cases hp with ⟨rfl, -, he⟩ | ⟨rfl, rfl⟩
    · obtain ⟨o, -, h₂⟩ := Go.bind_eq_ok.1 h₁
      cases h₂
      exact (sameChans_enqueueCh he).trans (sameChans_getProcesses _ _ _)
    · cases h₁; exact ⟨rfl, rfl⟩

theorem sameChans_handleContractReadyResp {code : DockerVMCode}
    (h : handleContractReadyResp C view now r code = .ok (r', outs)) : SameChans r r' := by
  cases code with
  | fail =>
    have hs := sameChans_handleGetBytecodeErr h
    exact ⟨hs.txCh, hs.eventCh⟩
  | ok =>
    obtain ⟨r₁, hm, h⟩ := Go.bind_eq_ok.1 h
    have hs := (sameChans_moveTxs hm).trans
      ((sameChans_getProcesses view r₁ true).trans (sameChans_getProcesses view _ false))
    cases h
    exact ⟨hs.txCh, hs.eventCh⟩

theorem sameChans_handleTxCh {msg : DockerVMMessage}
    (h : handleTxCh C view now r msg = .ok (r', outs)) : SameChans r r' := by
  unfold handleTxCh at h
  split at h
  · exact sameChans_handleTxReq h
  · split at h
    · cases h
    · exact sameChans_handleContractReadyResp h
  · cases h; exact ⟨rfl, rfl⟩

theorem sameChans_handleEventCh (view : Bool → ProcessCounts) (r : RequestGroup) (e : GroupEvent) :
    SameChans r (handleEventCh view r e).1 := by
  cases e with
  | processResp msg => exact (sameChans_setController _ _ _).trans (sameChans_getProcesses _ _ _)
  | badContract msg =>
    unfold handleEventCh handleBadContractResp
    dsimp only
    split_ifs <;> exact ⟨rfl, rfl⟩

/-- The channels after a step. -/
def txChAfter (r : RequestGroup) : Action → List DockerVMMessage
  | .putTx msg => r.txCh ++ [msg]
  | .recvTx _ _ => r.txCh.tail
  | _ => r.txCh

def eventChAfter (r : RequestGroup) : Action → List GroupEvent
  | .putEvent e => r.eventCh ++ [e]
  | .recvEvent _ => r.eventCh.tail
  | _ => r.eventCh

theorem act_chans (h : act C r a = .ok (r', outs)) :
    r'.txCh = r.txChAfter a ∧ r'.eventCh = r.eventChAfter a := by
  -- taking an event changes nothing else
  have hevent : ∀ (view : Bool → ProcessCounts) {e rest}, r.eventCh = e :: rest →
      (handleEventCh view { r with eventCh := rest } e).1.txCh = r.txCh ∧
        (handleEventCh view { r with eventCh := rest } e).1.eventCh = r.eventCh.tail := by
    intro view e rest hr
    have hs := sameChans_handleEventCh view { r with eventCh := rest } e
    exact ⟨hs.txCh, by rw [hs.eventCh, hr]; rfl⟩
  cases act_case h with
  | putTx | putEvent => exact ⟨rfl, rfl⟩
  | recvTx hr h =>
    have hs := sameChans_handleTxCh h
    exact ⟨by rw [hs.txCh]; simp [txChAfter, hr], hs.eventCh⟩
  | @ready view _ _ hr => exact hevent view hr
  | @bad view _ _ hr => exact hevent view hr
  | timeout _ h =>
    have hs := sameChans_handleGetBytecodeErr h
    exact ⟨hs.txCh, hs.eventCh⟩
  | expire _ => exact ⟨rfl, rfl⟩
  | take _ => exact ⟨txCh_setController _ _ _, eventCh_setController _ _ _⟩

/-! ## Bytecode requests -/

/-- The transactions under which bytecode is requested. -/
def fetchesOf (outs : List GroupOut) : List String :=
  outs.filterMap fun
    | .getBytecodeReq txId _ => some txId
    | _ => none

/-- Why a step requests bytecode. -/
inductive FetchCause (r : RequestGroup) (a : Action) (outs : List GroupOut) (txId : String) : Prop
  | first (tx : DockerVMMessage) : r.handled a = some tx → answersOf outs = [] →
      txId = tx.txId → FetchCause r a outs txId
  | retry : RunsGetBytecodeErr r a → 1 < r.bufCh.length → FetchCause r a outs txId
  | report (view : Bool → ProcessCounts) (msg : BadContractResp) : a = .recvEvent view →
      r.eventCh.head? = some (.badContract msg) → r.Accepts msg →
      (r.queue true ≠ [] ∨ r.queue false ≠ []) → answersOf outs = [] → txId = msg.txId →
      FetchCause r a outs txId

theorem fetchesOf_append (outs outs' : List GroupOut) :
    fetchesOf (outs ++ outs') = fetchesOf outs ++ fetchesOf outs' := List.filterMap_append

theorem fetchesOf_getProcesses (view : Bool → ProcessCounts) (r : RequestGroup) (o : Bool) :
    fetchesOf (getProcesses view r o).2 = [] := by
  rcases getProcesses_cases view r o with h | ⟨-, -, n, -, -, h⟩
  · rw [h]; rfl
  · rw [h]; rfl

theorem fetchesOf_handleGetBytecodeErr (h : handleGetBytecodeErr r = .ok (r', outs))
    (hid : txId ∈ fetchesOf outs) : 1 < r.bufCh.length := by
  unfold handleGetBytecodeErr at h
  split at h
  · cases h
  · rename_i tx rest hb
    dsimp only at h
    split_ifs at h with hpos
    · rw [hb, List.length_cons]
      omega
    · cases h
      exact absurd hid List.not_mem_nil

theorem fetchesOf_handleTxReq (h : handleTxReq C view r req = .ok (r', outs))
    (hid : txId ∈ fetchesOf outs) : answersOf outs = [] ∧ txId = req.txId := by
  unfold handleTxReq at h
  split at h
  · cases h
    exact ⟨rfl, List.mem_singleton.1 hid⟩
  · cases h; exact absurd hid List.not_mem_nil
  · obtain ⟨⟨r₁, outs₁, b⟩, hp, h₁⟩ := Go.bind_eq_ok.1 h
    rcases putTxReqToCh_answers hp with ⟨rfl, rfl, -⟩ | ⟨rfl, rfl, hresp⟩
    · obtain ⟨o, -, h₂⟩ := Go.bind_eq_ok.1 h₁
      obtain ⟨-, rfl⟩ : (getProcesses view r₁ o).1 = r' ∧ (getProcesses view r₁ o).2 = outs :=
        Prod.mk.inj (Except.ok.inj h₂)
      rw [fetchesOf_getProcesses] at hid
      exact absurd hid List.not_mem_nil
    · cases h₁
      rcases hresp with ⟨-, rfl⟩ | ⟨resp, rfl, -⟩
      · exact absurd hid List.not_mem_nil
      · exact absurd hid List.not_mem_nil

theorem fetchesOf_handleContractReadyResp {code : DockerVMCode}
    (h : handleContractReadyResp C view now r code = .ok (r', outs)) (hid : txId ∈ fetchesOf outs) :
    code = .fail ∧ 1 < r.bufCh.length := by
  cases code with
  | fail =>
    have hlt := fetchesOf_handleGetBytecodeErr h hid
    exact ⟨rfl, hlt⟩
  | ok =>
    obtain ⟨r₁, -, h₁⟩ := Go.bind_eq_ok.1 h
    obtain ⟨-, rfl⟩ : (getProcesses view (getProcesses view r₁ true).1 false).1 = r' ∧
        (getProcesses view r₁ true).2 ++ (getProcesses view (getProcesses view r₁ true).1 false).2 =
          outs := Prod.mk.inj (Except.ok.inj h₁)
    rw [fetchesOf_append, fetchesOf_getProcesses, fetchesOf_getProcesses] at hid
    exact absurd hid List.not_mem_nil

/-- Every bytecode request has one of three causes. -/
theorem act_fetches (h : act C r a = .ok (r', outs)) (hid : txId ∈ fetchesOf outs) :
    FetchCause r a outs txId := by
  cases act_case h with
  | @recvTx view now msg rest _ _ hr h =>
    unfold handleTxCh at h
    split at h
    · rename_i ht
      obtain ⟨hans, rfl⟩ := fetchesOf_handleTxReq h hid
      exact .first msg (by simp [handled, hr, ht, Option.filter]) hans rfl
    · rename_i ht
      split at h
      · cases h
      · rename_i resp hresp
        obtain ⟨hcode, hlt⟩ := fetchesOf_handleContractReadyResp h hid
        exact .retry (by simp [RunsGetBytecodeErr, IsFail, hr, ht, hresp, hcode]) hlt
    · cases h; exact absurd hid List.not_mem_nil
  | ready _ =>
    rw [handleProcessReadyResp, fetchesOf_getProcesses] at hid
    exact absurd hid List.not_mem_nil
  | @bad view msg rest hr =>
    rcases handleBadContractResp_cases { r with eventCh := rest } msg with
      ⟨hacc, hq, heq⟩ | ⟨-, -, heq⟩ | ⟨-, heq⟩
    · rw [heq] at hid ⊢
      refine .report view msg rfl (by rw [hr]; rfl) hacc ?_ rfl (List.mem_singleton.1 hid)
      exact hq.imp List.ne_nil_of_length_pos List.ne_nil_of_length_pos
    · rw [heq] at hid
      exact absurd hid List.not_mem_nil
    · rw [heq] at hid
      exact absurd hid List.not_mem_nil
  | timeout ht h =>
    have hlt := fetchesOf_handleGetBytecodeErr h hid
    exact .retry (Timer.recv_eq_some.1 ht).1 hlt
  | putTx | putEvent | expire | take => exact absurd hid List.not_mem_nil

end RequestGroup

end VmEngine
