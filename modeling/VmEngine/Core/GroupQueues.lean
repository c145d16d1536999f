/-
  Transactions in the queues of a request group.

  `act_queues` says once where a step of the group moves transactions: into `bufCh`,
  from there into the queues of the two controllers, to a process, or out of the group
  with an error response.  The queues are filled in the order of arrival, since `bufCh`
  is empty whenever a transaction goes directly into the queue of its controller.
-/
import VmEngine.Core.GroupFetch
import VmEngine.Core.GroupTurn

namespace VmEngine

namespace RequestGroup
variable {C : ChainConsts} {r r' : RequestGroup} {a : Action} {outs : List GroupOut}

/-- The queue from which the processes of a manager receive. -/
def queue (r : RequestGroup) (o : Bool) : List DockerVMMessage := (r.controller o).txCh

/-- The error responses among the messages. -/
def answersOf (outs : List GroupOut) : List DockerVMMessage :=
  outs.filterMap fun
    | .scheduler msg => some msg
    | _ => none

/-- The transaction that `handleTxReq` handles in the step. -/
def handled (r : RequestGroup) : Action → Option DockerVMMessage
  | .recvTx _ _ => r.txCh.head?.filter (·.type = .txRequest)
  | _ => none

/-- The transaction that a process takes in the step. -/
def takes (r : RequestGroup) (o : Bool) : Action → Option DockerVMMessage
  | .take o' => if o' = o then (r.queue o).head? else none
  | _ => none

/-- The controller that `enqueueCh` chooses. -/
def goesTo (C : ChainConsts) (o : Bool) (tx : DockerVMMessage) : Bool :=
  match isOrig C tx with
  | .ok b => b == o
  | .error _ => false

variable {o : Bool} {req tx : DockerVMMessage}

theorem goesTo_iff : goesTo C o tx = true ↔ isOrig C tx = .ok o := by
  unfold goesTo
  split
  · rename_i b hb
    rw [hb, beq_iff_eq, Except.ok.injEq]
  · rename_i f hf
    rw [hf]
    simp

/-! ## One step -/

structure SameQueues (r r' : RequestGroup) : Prop where
  bufCh : r'.bufCh = r.bufCh
  queue : ∀ o, r'.queue o = r.queue o

/-- How a step moves transactions. -/
inductive QueueStep (C : ChainConsts) (r : RequestGroup) :
    Action → RequestGroup → List GroupOut → Prop
  | same {a : Action} {r' : RequestGroup} {outs : List GroupOut} : r.handled a = none →
      (∀ o, r.takes o a = none) → SameQueues r r' → answersOf outs = [] → QueueStep C r a r' outs
  | buffer {a : Action} {r' : RequestGroup} {outs : List GroupOut} (tx : DockerVMMessage) :
      r.handled a = some tx → r.contractState ≠ .ready → r'.bufCh = r.bufCh ++ [tx] →
      (∀ o, r'.queue o = r.queue o) → answersOf outs = [] → QueueStep C r a r' outs
  | enqueue {a : Action} {r' : RequestGroup} {outs : List GroupOut} (tx : DockerVMMessage) (o : Bool) :
      r.handled a = some tx → r.contractState = .ready → isOrig C tx = .ok o →
      r'.bufCh = r.bufCh → (∀ o', r'.queue o' = if o = o' then r.queue o' ++ [tx] else r.queue o') →
      answersOf outs = [] → QueueStep C r a r' outs
  /-- the call depth is too large -/
  | reject {a : Action} {r' : RequestGroup} {outs : List GroupOut} (tx resp : DockerVMMessage) :
      r.handled a = some tx → SameQueues r r' → answersOf outs = [resp] → resp.txId = tx.txId →
      resp.type = .error → QueueStep C r a r' outs
  /-- a request without a cross context is only logged -/
  | drop {a : Action} {r' : RequestGroup} {outs : List GroupOut} (tx : DockerVMMessage) :
      r.handled a = some tx → tx.crossContext = none → SameQueues r r' → answersOf outs = [] →
      QueueStep C r a r' outs
  | move {a : Action} {r' : RequestGroup} {outs : List GroupOut} : r.handled a = none →
      (∀ o, r.takes o a = none) → ¬ RunsGetBytecodeErr r a → r'.bufCh = [] →
      (∀ o, r'.queue o = r.queue o ++ r.bufCh.filter (goesTo C o)) →
      (∀ tx ∈ r.bufCh, ∃ o, isOrig C tx = .ok o) → answersOf outs = [] → QueueStep C r a r' outs
  | fail {a : Action} {r' : RequestGroup} {outs : List GroupOut} (tx resp : DockerVMMessage) :
      r.handled a = none → (∀ o, r.takes o a = none) → RunsGetBytecodeErr r a →
      r.bufCh = tx :: r'.bufCh → (∀ o, r'.queue o = r.queue o) → answersOf outs = [resp] →
      resp.txId = tx.txId → resp.type = .error → QueueStep C r a r' outs
  | take {r' : RequestGroup} {outs : List GroupOut} (o : Bool) (tx : DockerVMMessage) :
      r'.bufCh = r.bufCh → (∀ o', r.queue o' = if o = o' then tx :: r'.queue o' else r'.queue o') →
      answersOf outs = [] → QueueStep C r (.take o) r' outs

@[simp] theorem queue_setController (r : RequestGroup) (o o' : Bool) (c : TxController) :
    (r.setController o c).queue o' = if o = o' then c.txCh else r.queue o' := by
  unfold queue
  rw [controller_setController]
  split_ifs <;> rfl

theorem sameQueues_updateControllerState (r : RequestGroup) (o b : Bool) :
    SameQueues r (r.updateControllerState o b) := by
  refine ⟨bufCh_setController _ _ _, fun o' => ?_⟩
  unfold updateControllerState
  rw [queue_setController]
  split_ifs with ho
  · rw [← ho]; rfl
  · rfl

theorem sameQueues_getProcesses (view : Bool → ProcessCounts) (r : RequestGroup) (o : Bool) :
    SameQueues r (getProcesses view r o).1 ∧ answersOf (getProcesses view r o).2 = [] := by
  rcases getProcesses_cases view r o with h | ⟨-, -, n, -, -, h⟩
  · rw [h]; exact ⟨⟨rfl, fun _ => rfl⟩, rfl⟩
  · rw [h]; exact ⟨sameQueues_updateControllerState _ _ _, rfl⟩

theorem SameQueues.trans {r₁ r₂ r₃ : RequestGroup} (h : SameQueues r₁ r₂) (h' : SameQueues r₂ r₃) :
    SameQueues r₁ r₃ :=
  ⟨h'.bufCh.trans h.bufCh, fun o => (h'.queue o).trans (h.queue o)⟩

theorem answersOf_append (outs outs' : List GroupOut) :
    answersOf (outs ++ outs') = answersOf outs ++ answersOf outs' := List.filterMap_append

theorem queue_enqueueCh (h : enqueueCh C r req = .ok r') :
    ∃ o, isOrig C req = .ok o ∧ r'.bufCh = r.bufCh ∧
      ∀ o', r'.queue o' = if o = o' then r.queue o' ++ [req] else r.queue o' := by
  obtain ⟨o, ho, rfl⟩ := enqueueCh_eq h
  refine ⟨o, ho, bufCh_setController _ _ _, fun o' => ?_⟩
  rw [queue_setController]
  split_ifs with hoo
  · rw [hoo]; rfl
  · rfl

/-- `moveTxs` appends each transaction to the queue of its controller. -/
theorem queue_moveTxs {txs : List DockerVMMessage} (h : moveTxs C r txs = .ok r') :
    (∀ o, r'.queue o = r.queue o ++ txs.filter (goesTo C o)) ∧ ∀ tx ∈ txs, ∃ o, isOrig C tx = .ok o := by
  induction txs generalizing r with
  | nil => cases h; exact ⟨fun o => by simp, by simp⟩
  | cons tx txs ih =>
    obtain ⟨r₁, he, h⟩ := Go.bind_eq_ok.1 h
    obtain ⟨o, ho, -, hq⟩ := queue_enqueueCh he
    obtain ⟨hq', hall⟩ := ih h
    refine ⟨fun o' => ?_, List.forall_mem_cons.2 ⟨⟨o, ho⟩, hall⟩⟩
    rw [hq', hq]
    by_cases hoo : o = o'
    · subst hoo
      rw [if_pos rfl, List.filter_cons_of_pos (goesTo_iff.2 ho), List.append_assoc]
      rfl
    · have hno : ¬ goesTo C o' tx = true := by
        rw [goesTo_iff, ho]
        exact fun h => hoo (Except.ok.inj h)
      rw [if_neg hoo, List.filter_cons_of_neg hno]

theorem queue_handleGetBytecodeErr (h : handleGetBytecodeErr r = .ok (r', outs)) :
    ∃ tx resp, r.bufCh = tx :: r'.bufCh ∧ (∀ o, r'.queue o = r.queue o) ∧
      answersOf outs = [resp] ∧ resp.txId = tx.txId ∧ resp.type = .error := by
  unfold handleGetBytecodeErr at h
  split at h
  · cases h
  · rename_i tx rest hb
    dsimp only at h
    split_ifs at h
    · cases h
      exact ⟨tx, _, hb, fun _ => rfl, rfl, rfl, rfl⟩
    · cases h
      exact ⟨tx, _, hb, fun _ => rfl, rfl, rfl, rfl⟩

theorem putTxReqToCh_answers {b : Bool} (h : putTxReqToCh C r req = .ok (r', outs, b)) :
    (b = true ∧ outs = [] ∧ enqueueCh C r req = .ok r') ∨
      (b = false ∧ r' = r ∧ (req.crossContext = none ∧ outs = [] ∨
        ∃ resp, outs = [.scheduler resp] ∧ resp.txId = req.txId ∧ resp.type = .error)) := by
  unfold putTxReqToCh at h
  split at h
  · rename_i hc
    cases h
    exact Or.inr ⟨rfl, rfl, Or.inl ⟨hc, rfl⟩⟩
  · split_ifs at h
    · split at h
      · cases h
      · cases h
        exact Or.inr ⟨rfl, rfl, Or.inr ⟨_, rfl, rfl, rfl⟩⟩
    · obtain ⟨r₁, he, h⟩ := Go.bind_eq_ok.1 h
      cases h
      exact Or.inl ⟨rfl, rfl, he⟩

theorem handleTxReq_queues {view : Bool → ProcessCounts} {r₀ : RequestGroup}
    (hreq : r₀.handled a = some req) (hst : r.contractState = r₀.contractState)
    (hsame : SameQueues r₀ r) (h : handleTxReq C view r req = .ok (r', outs)) :
    QueueStep C r₀ a r' outs := by
  unfold handleTxReq at h
  split at h
  · rename_i hc
    cases h
    refine .buffer req hreq (by rw [← hst, hc]; decide) ?_ (fun o => hsame.queue o) rfl
    rw [← hsame.bufCh]
  · rename_i hc
    cases h
    refine .buffer req hreq (by rw [← hst, hc]; decide) ?_ (fun o => hsame.queue o) rfl
    rw [← hsame.bufCh]
  · rename_i hc
    obtain ⟨⟨r₁, outs₁, b⟩, hp, h₁⟩ := Go.bind_eq_ok.1 h
    rcases putTxReqToCh_answers hp with ⟨rfl, rfl, he⟩ | ⟨rfl, rfl, hresp⟩
    · obtain ⟨o', -, h₂⟩ := Go.bind_eq_ok.1 h₁
      obtain ⟨rfl, rfl⟩ : (getProcesses view r₁ o').1 = r' ∧ (getProcesses view r₁ o').2 = outs :=
        Prod.mk.inj (Except.ok.inj h₂)
      obtain ⟨o, ho, hb, hq⟩ := queue_enqueueCh he
      obtain ⟨hs, hans⟩ := sameQueues_getProcesses view r₁ o'
      refine .enqueue req o hreq (hst ▸ hc) ho ?_ (fun o₁ => ?_) hans
      · rw [hs.bufCh, hb, hsame.bufCh]
      · rw [hs.queue, hq, hsame.queue]
    · cases h₁
      rcases hresp with ⟨hn, rfl⟩ | ⟨resp, rfl, hid, hty⟩
      · exact .drop req hreq hn hsame rfl
      · exact .reject req resp hreq hsame rfl hid hty

theorem handleContractReadyResp_queues {view : Bool → ProcessCounts} {now : ℤ} {code : DockerVMCode}
    {r₀ : RequestGroup} (hreq : r₀.handled a = none) (htk : ∀ o, r₀.takes o a = none)
    (hrun : RunsGetBytecodeErr r₀ a ↔ code = .fail)
    (hsame : SameQueues r₀ r) (h : handleContractReadyResp C view now r code = .ok (r', outs)) :
    QueueStep C r₀ a r' outs := by
  cases code with
  | fail =>
    obtain ⟨tx, resp, hb, hq, hans, hid, hty⟩ := queue_handleGetBytecodeErr h
    refine .fail tx resp hreq htk (hrun.2 rfl) ?_ (fun o => (hq o).trans (hsame.queue o)) hans hid hty
    rw [← hsame.bufCh]
    exact hb
  | ok =>
    obtain ⟨r₁, hm, h₁⟩ := Go.bind_eq_ok.1 h
    obtain ⟨hq, hall⟩ := queue_moveTxs hm
    obtain ⟨hs, hans⟩ := sameQueues_getProcesses view r₁ true
    obtain ⟨hs', hans'⟩ := sameQueues_getProcesses view (getProcesses view r₁ true).1 false
    obtain ⟨rfl, rfl⟩ : (getProcesses view (getProcesses view r₁ true).1 false).1 = r' ∧
        (getProcesses view r₁ true).2 ++ (getProcesses view (getProcesses view r₁ true).1 false).2 =
          outs := Prod.mk.inj (Except.ok.inj h₁)
    have hs₂ := hs.trans hs'
    refine .move hreq htk (fun hr => nomatch hrun.1 hr)
      (hs₂.bufCh.trans (sameFetch_moveTxs hm).bufCh) (fun o => ?_) ?_ ?_
    · rw [hs₂.queue, hq, ← hsame.queue, ← hsame.bufCh]
      rfl
    · rw [← hsame.bufCh]
      exact hall
    · rw [answersOf_append, hans, hans']
      rfl

/-- Where a step moves transactions. -/
theorem act_queues (h : act C r a = .ok (r', outs)) : QueueStep C r a r' outs := by
  cases act_case h with
  | putTx | putEvent => exact .same rfl (fun _ => rfl) ⟨rfl, fun _ => rfl⟩ rfl
  | @recvTx view now msg rest _ _ hr h =>
    have hsame : SameQueues r { r with txCh := rest } := ⟨rfl, fun _ => rfl⟩
    have hhandled : ∀ b, decide (msg.type = .txRequest) = b →
        r.handled (.recvTx view now) = if b then some msg else none := by
      intro b hb
      simp only [handled, hr, List.head?_cons, Option.filter, hb]
    unfold handleTxCh at h
    split at h
    · rename_i ht
      exact handleTxReq_queues (r := { r with txCh := rest }) (hhandled true (by simp [ht])) rfl hsame h
    · rename_i ht
      split at h
      · cases h
      · rename_i resp hresp
        refine handleContractReadyResp_queues (hhandled false (by simp [ht])) (fun _ => rfl)
          ?_ hsame h
        simp [RunsGetBytecodeErr, IsFail, hr, ht, hresp]
    · rename_i ht _
      cases h
      exact .same (hhandled false (by simpa using ht)) (fun _ => rfl) hsame rfl
  | @ready view msg rest _ =>
    obtain ⟨hs, hans⟩ := sameQueues_getProcesses view
      (updateControllerState { r with eventCh := rest } msg.isOrig false) msg.isOrig
    have hs' := (sameQueues_updateControllerState { r with eventCh := rest } msg.isOrig false).trans hs
    exact .same rfl (fun _ => rfl) ⟨hs'.bufCh, hs'.queue⟩ hans
  | @bad view msg rest _ =>
    rcases handleBadContractResp_cases { r with eventCh := rest } msg with
      ⟨-, -, heq⟩ | ⟨-, -, heq⟩ | ⟨-, heq⟩ <;> rw [heq] <;>
      exact .same rfl (fun _ => rfl) ⟨rfl, fun _ => rfl⟩ rfl
  | timeout ht h =>
    obtain ⟨tx, resp, hb, hq, hans, hid, hty⟩ := queue_handleGetBytecodeErr h
    exact .fail tx resp rfl (fun _ => rfl) (Timer.recv_eq_some.1 ht).1 hb hq hans hid hty
  | expire _ => exact .same rfl (fun _ => rfl) ⟨rfl, fun _ => rfl⟩ rfl
  | @take o tx rest hq =>
    refine .take o tx (bufCh_setController _ _ _) (fun o' => ?_) rfl
    rw [queue_setController]
    split_ifs with ho
    · subst ho; exact hq
    · rfl

/-! ## Runs -/

/-- What has happened to transactions: those that `handleTxReq` has handled, those that
    processes have taken, and the error responses. -/
structure TxLog where
  arrived : List DockerVMMessage
  taken : Bool → List DockerVMMessage
  answered : List DockerVMMessage

def TxLog.record (l : TxLog) (r : RequestGroup) (a : Action) (outs : List GroupOut) : TxLog where
  arrived := l.arrived ++ (r.handled a).toList
  taken o := l.taken o ++ (r.takes o a).toList
  answered := l.answered ++ answersOf outs

/-- The group together with the log of its transactions. -/
def logged (C : ChainConsts) : RequestGroup × TxLog → Action → Option (RequestGroup × TxLog) :=
  monitor (fun r a => (act C r a).toOption) TxLog.record

def startLogged (key : RequestGroupKey) : RequestGroup × TxLog := (new key, ⟨[], fun _ => [], []⟩)

/-- Transactions have a cross context. -/
def HasContext (s : RequestGroup × TxLog) (a : Action) : Prop :=
  ∀ tx ∈ s.1.handled a, tx.crossContext ≠ none

instance : DecidableRel HasContext :=
  fun s a => inferInstanceAs (Decidable (∀ tx ∈ s.1.handled a, tx.crossContext ≠ none))

/-- The transactions that were put into the queue of a controller so far. -/
def TxLog.put (l : TxLog) (r : RequestGroup) (o : Bool) : List DockerVMMessage :=
  l.taken o ++ r.queue o

/-- Every transaction is in one place, and the queues are in the order of arrival. -/
structure TxInv (C : ChainConsts) (r : RequestGroup) (l : TxLog) : Prop where
  conserved : ∃ failed, l.arrived.Perm (r.bufCh ++ (l.put r true ++ l.put r false) ++ failed) ∧
    l.answered.map (·.txId) = failed.map (·.txId)
  errors : ∀ resp ∈ l.answered, resp.type = .error
  order : ∀ o, (l.put r o ++ r.bufCh).Sublist l.arrived
  kind : ∀ o, ∀ tx ∈ l.put r o, isOrig C tx = .ok o
  ready : r.contractState = .ready → r.bufCh = []

theorem txInv_new (key : RequestGroupKey) : TxInv C (startLogged key).1 (startLogged key).2 where
  conserved := ⟨[], .refl _, rfl⟩
  errors := by simp [startLogged]
  order o := by cases o <;> simp [TxLog.put, startLogged, new, queue, controller]
  kind o := by cases o <;> simp [TxLog.put, startLogged, new, queue, controller]
  ready h := by cases h

variable {l : TxLog}

theorem takes_of_handled (h : r.handled a = some tx) (o : Bool) : r.takes o a = none := by
  cases a with
  | recvTx _ _ => rfl
  | _ => cases h

theorem put_record (h : ∀ o, r.takes o a = none) (o : Bool) :
    (l.record r a outs).put r' o = l.taken o ++ r'.queue o := by
  simp [TxLog.put, TxLog.record, h o]

/-- A transaction that is taken stays among those put into the queue. -/
theorem put_take (h : ∀ o', r.queue o' = if o = o' then tx :: r'.queue o' else r'.queue o')
    (o' : Bool) : (l.record r (.take o) outs).put r' o' = l.put r o' := by
  have ho' := h o'
  simp only [TxLog.put, TxLog.record, takes]
  split_ifs at ho' ⊢
  · rw [ho']; simp
  · rw [ho']; simp

/-- While the contract is ready nothing is buffered. -/
theorem bufCh_of_ready (h : r.contractState = .ready → r.bufCh = []) (hs : FetchStep r a r')
    (hr : r'.contractState = .ready) : r'.bufCh = [] := by
  have hne : ∀ {c : ContractState}, r'.contractState = c → c ≠ .ready → r'.bufCh = [] :=
    fun hc hn => absurd (hc.symm.trans hr) hn
  cases hs with
  | same hs _ => rw [hs.bufCh]; exact h (hs.contractState ▸ hr)
  | first _ _ hc | buffer _ _ hc => exact hne hc (by decide)
  | loaded _ hb => exact hb
  | failed _ _ _ _ hc | timedOut _ _ _ hc =>
    rcases hc with ⟨hb, -⟩ | ⟨-, hc, -⟩
    · exact hb
    · exact hne hc (by decide)
  | bad _ _ _ _ hc =>
    rcases hc with ⟨-, -, hc, -⟩ | ⟨-, hc, -⟩
    · exact hne hc (by decide)
    · exact hne hc (by decide)
  | fired _ _ hc hb => rw [hb]; exact h (hc ▸ hr)

theorem arrived_record_none (h : r.handled a = none) : (l.record r a outs).arrived = l.arrived := by
  simp [TxLog.record, h]

theorem arrived_record_some (h : r.handled a = some tx) :
    (l.record r a outs).arrived = l.arrived ++ [tx] := by
  simp [TxLog.record, h]

/-- A step that answers nobody and puts the same transactions into the same places. -/
theorem TxInv.keep (h : TxInv C r l) (harr : (l.record r a outs).arrived = l.arrived)
    (hb : r'.bufCh = r.bufCh) (hp : ∀ o, (l.record r a outs).put r' o = l.put r o)
    (hans : answersOf outs = []) (hready : r'.contractState = .ready → r'.bufCh = []) :
    TxInv C r' (l.record r a outs) where
  conserved := by
    rw [harr, hb, hp, hp]
    simpa [TxLog.record, hans] using h.conserved
  errors := by simpa [TxLog.record, hans] using h.errors
  order o := by rw [harr, hb, hp]; exact h.order o
  kind o := by rw [hp]; exact h.kind o
  ready := hready

/-- A step that fails a transaction: it was handled or buffered before. -/
theorem TxInv.fail {resp : DockerVMMessage} {arrived bufCh : List DockerVMMessage} (h : TxInv C r l)
    (harr : (l.record r a outs).arrived = arrived) (hb : r'.bufCh = bufCh)
    (hp : ∀ o, (l.record r a outs).put r' o = l.put r o) (hans : answersOf outs = [resp])
    (hid : resp.txId = tx.txId) (hty : resp.type = .error)
    (hperm : ∀ rest, l.arrived.Perm (r.bufCh ++ rest) → arrived.Perm (bufCh ++ (tx :: rest)))
    (hsub : ∀ pre, (pre ++ r.bufCh).Sublist l.arrived → (pre ++ bufCh).Sublist arrived)
    (hready : r'.contractState = .ready → r'.bufCh = []) : TxInv C r' (l.record r a outs) where
  conserved := by
    obtain ⟨failed, hc, hf⟩ := h.conserved
    refine ⟨failed ++ [tx], ?_, ?_⟩
    · rw [List.append_assoc] at hc
      rw [harr, hb, hp, hp, List.append_assoc, ← List.append_assoc _ failed]
      exact (hperm _ hc).trans (List.Perm.append_left _ (List.perm_append_singleton _ _).symm)
    · simp [TxLog.record, hans, hf, hid]
  errors m hm := by
    rw [TxLog.record, hans, List.mem_append, List.mem_singleton] at hm
    rcases hm with hm | rfl
    · exact h.errors m hm
    · exact hty
  order o := by rw [harr, hb, hp]; exact hsub _ (h.order o)
  kind o := by rw [hp]; exact h.kind o
  ready := hready

theorem TxInv.buffer (h : TxInv C r l) (htx : r.handled a = some tx)
    (hb : r'.bufCh = r.bufCh ++ [tx]) (hq : ∀ o, r'.queue o = r.queue o)
    (hans : answersOf outs = []) (hready : r'.contractState = .ready → r'.bufCh = []) :
    TxInv C r' (l.record r a outs) := by
  have hp : ∀ o, (l.record r a outs).put r' o = l.put r o := fun o => by
    rw [put_record (takes_of_handled htx), hq]; rfl
  have harr : (l.record r a outs).arrived = l.arrived ++ [tx] := arrived_record_some htx
  refine ⟨?_, ?_, fun o => ?_, fun o => ?_, hready⟩
  · obtain ⟨failed, hc, hf⟩ := h.conserved
    refine ⟨failed, ?_, by simpa [TxLog.record, hans] using hf⟩
    rw [harr, hb, hp, hp]
    rw [List.append_assoc] at hc ⊢
    rw [List.append_assoc]
    refine (hc.append_right [tx]).trans ?_
    rw [List.append_assoc]
    exact List.Perm.append_left _ List.perm_append_comm
  · simpa [TxLog.record, hans] using h.errors
  · rw [harr, hb, hp, ← List.append_assoc]
    exact (h.order o).append (List.Sublist.refl _)
  · rw [hp]; exact h.kind o

/-- A transaction goes directly into a queue: nothing is buffered then. -/
theorem TxInv.enqueue (h : TxInv C r l) (htx : r.handled a = some tx)
    (hc : r.contractState = .ready) (ho : isOrig C tx = .ok o) (hb : r'.bufCh = r.bufCh)
    (hq : ∀ o', r'.queue o' = if o = o' then r.queue o' ++ [tx] else r.queue o')
    (hans : answersOf outs = []) : TxInv C r' (l.record r a outs) := by
  have hbuf : r.bufCh = [] := h.ready hc
  have harr : (l.record r a outs).arrived = l.arrived ++ [tx] := arrived_record_some htx
  have hp : ∀ o', (l.record r a outs).put r' o' =
      if o = o' then l.put r o' ++ [tx] else l.put r o' := by
    intro o'
    rw [put_record (takes_of_handled htx), hq]
    split_ifs
    · rw [← List.append_assoc]; rfl
    · rfl
  have horder := fun o' => h.order o'
  simp only [hbuf, List.append_nil] at horder
  refine ⟨?_, ?_, fun o' => ?_, fun o' t ht => ?_, fun _ => hb.trans hbuf⟩
  · obtain ⟨failed, hperm, hf⟩ := h.conserved
    refine ⟨failed, ?_, by simpa [TxLog.record, hans] using hf⟩
    rw [hbuf, List.nil_append] at hperm
    rw [harr, hb, hbuf, hp, hp, List.nil_append]
    refine (hperm.append_right [tx]).trans ?_
    cases o
    · rw [if_neg Bool.false_ne_true, if_pos rfl, ← List.append_assoc, List.append_assoc _ failed,
        List.append_assoc _ [tx]]
      exact List.Perm.append_left _ List.perm_append_comm
    · rw [if_pos rfl, if_neg Bool.false_ne_true.symm, List.append_assoc, List.append_assoc,
        List.append_assoc, List.append_assoc]
      refine List.Perm.append_left _ ?_
      rw [← List.append_assoc]
      exact List.perm_append_comm
  · simpa [TxLog.record, hans] using h.errors
  · rw [harr, hb, hbuf, List.append_nil, hp]
    split_ifs
    · exact (horder o').append (List.Sublist.refl _)
    · exact (horder o').trans (List.sublist_append_left _ _)
  · rw [hp] at ht
    split_ifs at ht with hoo
    · rcases List.mem_append.1 ht with ht | ht
      · exact h.kind o' t ht
      · rw [List.mem_singleton.1 ht, ← hoo]; exact ho
    · exact h.kind o' t ht

/-- The two controllers share the buffered transactions. -/
theorem perm_filter_goesTo {txs : List DockerVMMessage} (h : ∀ tx ∈ txs, ∃ o, isOrig C tx = .ok o) :
    txs.Perm (txs.filter (goesTo C true) ++ txs.filter (goesTo C false)) := by
  have hneg : txs.filter (goesTo C false) = txs.filter fun tx => !goesTo C true tx := by
    refine List.filter_congr fun tx htx => ?_
    obtain ⟨o, ho⟩ := h tx htx
    unfold goesTo
    rw [ho]
    cases o <;> rfl
  rw [hneg]
  exact (List.filter_append_perm _ _).symm

theorem TxInv.move (h : TxInv C r l) (htx : r.handled a = none) (htk : ∀ o, r.takes o a = none)
    (hb : r'.bufCh = []) (hq : ∀ o, r'.queue o = r.queue o ++ r.bufCh.filter (goesTo C o))
    (hall : ∀ tx ∈ r.bufCh, ∃ o, isOrig C tx = .ok o) (hans : answersOf outs = []) :
    TxInv C r' (l.record r a outs) := by
  have harr : (l.record r a outs).arrived = l.arrived := arrived_record_none htx
  have hp : ∀ o, (l.record r a outs).put r' o = l.put r o ++ r.bufCh.filter (goesTo C o) := fun o => by
    rw [put_record htk, hq, ← List.append_assoc]; rfl
  refine ⟨?_, ?_, fun o => ?_, fun o tx ht => ?_, fun _ => hb⟩
  · obtain ⟨failed, hperm, hf⟩ := h.conserved
    refine ⟨failed, ?_, by simpa [TxLog.record, hans] using hf⟩
    rw [harr, hb, hp, hp, List.nil_append]
    refine hperm.trans (List.Perm.append_right _ ?_)
    -- the buffer splits into the parts of the two controllers
    refine ((perm_filter_goesTo hall).append_right _).trans ?_
    generalize l.put r true = p, l.put r false = q, r.bufCh.filter (goesTo C true) = b,
      r.bufCh.filter (goesTo C false) = c
    calc (b ++ c ++ (p ++ q)).Perm (p ++ q ++ (b ++ c)) := List.perm_append_comm
      _ = p ++ ((q ++ b) ++ c) := by simp
      List.Perm _ (p ++ ((b ++ q) ++ c)) :=
        List.Perm.append_left _ (List.Perm.append_right _ List.perm_append_comm)
      _ = p ++ b ++ (q ++ c) := by simp
  · simpa [TxLog.record, hans] using h.errors
  · rw [harr, hb, hp, List.append_nil]
    exact (List.Sublist.append (List.Sublist.refl _) List.filter_sublist).trans (h.order o)
  · rw [hp, List.mem_append] at ht
    rcases ht with ht | ht
    · exact h.kind o tx ht
    · exact goesTo_iff.1 (List.mem_filter.1 ht).2

theorem TxInv.step (h : TxInv C r l) (hctx : ∀ tx ∈ r.handled a, tx.crossContext ≠ none)
    (hf : FetchStep r a r') (hs : QueueStep C r a r' outs) : TxInv C r' (l.record r a outs) := by
  have hready := bufCh_of_ready h.ready hf
  cases hs with
  | same hn ht hs hans =>
    refine h.keep (arrived_record_none hn) hs.bufCh (fun o => ?_) hans hready
    rw [put_record ht, hs.queue]; rfl
  | buffer tx htx _ hb hq hans => exact h.buffer htx hb hq hans hready
  | enqueue tx o htx hc ho hb hq hans => exact h.enqueue htx hc ho hb hq hans
  | reject tx resp htx hs hans hid hty =>
    refine h.fail (arrived_record_some htx) hs.bufCh (fun o => ?_) hans hid hty (fun rest hr => ?_)
      (fun pre hpre => hpre.trans (List.sublist_append_left _ _)) hready
    · rw [put_record (takes_of_handled htx), hs.queue]; rfl
    · refine (hr.append_right [tx]).trans ?_
      rw [List.append_assoc]
      exact List.Perm.append_left _ (List.perm_append_singleton _ _)
  | drop tx htx hn _ _ => exact absurd hn (hctx tx htx)
  | move hn ht _ hb hq hall hans => exact h.move hn ht hb hq hall hans
  | fail tx resp hn ht _ hb hq hans hid hty =>
    refine h.fail (arrived_record_none hn) rfl (fun o => ?_) hans hid hty (fun rest hr => ?_)
      (fun pre hpre => ?_) hready
    · rw [put_record ht, hq]; rfl
    · rw [hb] at hr
      exact hr.trans List.perm_middle.symm
    · rw [hb] at hpre
      exact ((List.sublist_cons_self _ _).append_left pre).trans hpre
  | take o tx hb hq hans =>
    exact h.keep (arrived_record_none rfl) hb (fun o' => put_take hq o') hans hready

/-- **No transaction is lost, doubled or overtaken.**  The transactions that were
    handled are those in `bufCh`, those put into the two queues (and there or taken by a
    process), and those answered by one error response each; each queue got its
    transactions in the order of their arrival. -/
theorem transactions_conserved {key : RequestGroupKey} {s : RequestGroup × TxLog}
    (h : Reach (logged C) HasContext (startLogged key) s) :
    (∃ failed, s.2.arrived.Perm (s.1.bufCh ++ (s.2.put s.1 true ++ s.2.put s.1 false) ++ failed) ∧
      s.2.answered.map (·.txId) = failed.map (·.txId) ∧ ∀ resp ∈ s.2.answered, resp.type = .error) ∧
    ∀ o, (s.2.put s.1 o).Sublist s.2.arrived ∧ ∀ tx ∈ s.2.put s.1 o, isOrig C tx = .ok o := by
  have hI : TxInv C s.1 s.2 := by
    refine h.inv (I := fun s => TxInv C s.1 s.2) (txInv_new key) fun hinv hok hstep => ?_
    obtain ⟨outs, hact, hlog⟩ := monitor_eq_some hstep
    have hact := Go.toOption_eq_some.1 hact
    rw [hlog]
    exact hinv.step hok (act_fetch hact) (act_queues hact)
  obtain ⟨failed, hperm, hans⟩ := hI.conserved
  refine ⟨⟨failed, hperm, hans, hI.errors⟩, fun o => ⟨?_, hI.kind o⟩⟩
  exact (List.sublist_append_left _ _).trans (hI.order o)

/-- One transaction is buffered and fails, the next goes through the buffer to a
    process, and a third directly into the queue. -/
def runQueues : List Action :=
  [.putTx (sampleTx .sample "tx1" "save"), .recvTx noProcesses 0, .putTx (sampleTx .sample "tx2" "save"),
    .recvTx noProcesses 0, .expire, .recvTimer, .putTx (bytecodeResp "tx2" .ok), .recvTx noProcesses 7,
    .take true, .putTx (sampleTx .sample "tx3" "save"), .recvTx noProcesses 0]

def QueuesUsed (s : RequestGroup × TxLog) : Bool :=
  s.2.arrived.map (·.txId) = ["tx1", "tx2", "tx3"] && s.2.answered.map (·.txId) = ["tx1"] &&
    (s.2.taken true).map (·.txId) = ["tx2"] && (s.1.queue true).map (·.txId) = ["tx3"]

theorem transactions_conserved_three : ∃ s, Reach (logged .sample) HasContext (startLogged .sample) s ∧
    QueuesUsed s ∧ (s.2.put s.1 true).Sublist s.2.arrived := by
  obtain ⟨s, hs, hP⟩ :=
    exists_reach (logged .sample) HasContext (startLogged .sample) QueuesUsed runQueues
    (by decide)
  exact ⟨s, hs, hP, ((transactions_conserved hs).2 true).1⟩

end RequestGroup

end VmEngine
