/-
  Fetching the contract of a request group.

  A group fetches its contract for the first transaction it buffers, and again
  when a process reports the binary as bad.  `handleGetBytecodeErr`, run when the
  fetch fails or times out, takes a transaction from `bufCh` and blocks when there
  is none.  This happens in two ways (`group_parks`): a
  failure arrives when no fetch is open, or a fetch was started for transactions
  that wait in a controller's queue.

  `act_fetch` says once what a step does to the contract state, the buffer and the
  timer; `FetchInv` is derived from it, and `bufCh_ne_nil` is the result on runs
  without these two kinds of steps.
-/
import VmEngine.Core.RequestGroup

namespace VmEngine

namespace RequestGroup
variable {C : ChainConsts} {r r' : RequestGroup} {a : Action} {outs : List GroupOut}

/-- A bytecode response with the code `FAIL`. -/
def IsFail (msg : DockerVMMessage) : Prop :=
  msg.type = .getBytecodeResponse ∧ msg.response.map TxResponse.code = some .fail

instance (msg : DockerVMMessage) : Decidable (IsFail msg) := inferInstanceAs (Decidable (_ ∧ _))

/-- The step runs `handleGetBytecodeErr`, from `handleGetBytecodeTimeout` or from
    `handleGetBytecodeFailed`. -/
def RunsGetBytecodeErr (r : RequestGroup) : Action → Prop
  | .recvTimer => r.getBytecodeTimer.tick = true
  | .recvTx _ _ => ∃ msg ∈ r.txCh.head?, IsFail msg
  | _ => False

/-! ## One step -/

/-- How a step changes what concerns fetching. -/
inductive FetchStep (r : RequestGroup) : Action → RequestGroup → Prop
  | same {a : Action} {r' : RequestGroup} : SameFetch r r' → ¬ RunsGetBytecodeErr r a → FetchStep r a r'
  | first {view : Bool → ProcessCounts} {now : ℤ} {r' : RequestGroup} (msg : DockerVMMessage) :
      r.contractState = .empty →
      r'.contractState = .waiting → r'.bufCh = r.bufCh ++ [msg] →
      r'.getBytecodeTimer = r.getBytecodeTimer.reset → FetchStep r (.recvTx view now) r'
  | buffer {view : Bool → ProcessCounts} {now : ℤ} {r' : RequestGroup} (msg : DockerVMMessage) :
      r.contractState = .waiting →
      r'.contractState = .waiting → r'.bufCh = r.bufCh ++ [msg] →
      r'.getBytecodeTimer = r.getBytecodeTimer → FetchStep r (.recvTx view now) r'
  | loaded {view : Bool → ProcessCounts} {now : ℤ} {r' : RequestGroup} :
      r'.contractState = .ready → r'.bufCh = [] →
      r'.getBytecodeTimer = r.getBytecodeTimer.stopAndDrain → FetchStep r (.recvTx view now) r'
  | failed {view : Bool → ProcessCounts} {now : ℤ} {r' : RequestGroup} (t : Timer) :
      (∃ msg ∈ r.txCh.head?, IsFail msg) →
      t = r.getBytecodeTimer.stopAndDrain → r'.bufCh = r.bufCh.tail →
      (r'.bufCh = [] ∧ r'.contractState = .empty ∧ r'.getBytecodeTimer = t ∨
        r'.bufCh ≠ [] ∧ r'.contractState = .waiting ∧ r'.getBytecodeTimer = t.reset) →
      FetchStep r (.recvTx view now) r'
  | timedOut {r' : RequestGroup} (t : Timer) : r.getBytecodeTimer.recv = some t →
      r'.bufCh = r.bufCh.tail →
      (r'.bufCh = [] ∧ r'.contractState = .empty ∧ r'.getBytecodeTimer = t ∨
        r'.bufCh ≠ [] ∧ r'.contractState = .waiting ∧ r'.getBytecodeTimer = t.reset) →
      FetchStep r .recvTimer r'
  | bad {view : Bool → ProcessCounts} {r' : RequestGroup} (msg : BadContractResp) :
      r.eventCh.head? = some (.badContract msg) →
      r.Accepts msg → r'.bufCh = r.bufCh →
      (r.origTxController.txCh = [] ∧ r.crossTxController.txCh = [] ∧
          r'.contractState = .empty ∧ r'.getBytecodeTimer = r.getBytecodeTimer ∨
        (r.origTxController.txCh ≠ [] ∨ r.crossTxController.txCh ≠ []) ∧
          r'.contractState = .waiting ∧ r'.getBytecodeTimer = r.getBytecodeTimer.reset) →
      FetchStep r (.recvEvent view) r'
  | fired {r' : RequestGroup} (t : Timer) : r.getBytecodeTimer.expire = some t →
      r'.contractState = r.contractState → r'.bufCh = r.bufCh → r'.getBytecodeTimer = t →
      FetchStep r .expire r'

theorem handleGetBytecodeErr_cases (h : handleGetBytecodeErr r = .ok (r', outs)) :
    r'.bufCh = r.bufCh.tail ∧
      (r'.bufCh = [] ∧ r'.contractState = .empty ∧ r'.getBytecodeTimer = r.getBytecodeTimer ∨
        r'.bufCh ≠ [] ∧ r'.contractState = .waiting ∧
          r'.getBytecodeTimer = r.getBytecodeTimer.reset) := by
  unfold handleGetBytecodeErr at h
  split at h
  · cases h
  · rename_i tx rest hb
    rw [hb, List.tail_cons]
    dsimp only at h
    split_ifs at h with hr
    · cases h
      exact ⟨rfl, Or.inr ⟨List.ne_nil_of_length_pos hr, rfl, rfl⟩⟩
    · cases h
      exact ⟨rfl, Or.inl ⟨List.eq_nil_of_length_eq_zero (Nat.eq_zero_of_not_pos hr), rfl, rfl⟩⟩

theorem handleGetBytecodeErr_returns (hb : r.bufCh ≠ []) :
    ∃ r' outs, handleGetBytecodeErr r = .ok (r', outs) := by
  obtain ⟨tx, rest, hb⟩ := List.exists_cons_of_ne_nil hb
  unfold handleGetBytecodeErr
  rw [hb]
  dsimp only
  split_ifs
  · exact ⟨_, _, rfl⟩
  · exact ⟨_, _, rfl⟩

theorem handleTxReq_fetch {view : Bool → ProcessCounts} {req : DockerVMMessage}
    (h : handleTxReq C view r req = .ok (r', outs)) :
    (r.contractState = .empty ∧ r'.contractState = .waiting ∧ r'.bufCh = r.bufCh ++ [req] ∧
        r'.getBytecodeTimer = r.getBytecodeTimer.reset) ∨
      (r.contractState = .waiting ∧ r'.contractState = .waiting ∧ r'.bufCh = r.bufCh ++ [req] ∧
        r'.getBytecodeTimer = r.getBytecodeTimer) ∨
      (r.contractState = .ready ∧ SameFetch r r') := by
  unfold handleTxReq at h
  split at h
  · rename_i hc; cases h; exact Or.inl ⟨hc, rfl, rfl, rfl⟩
  · rename_i hc; cases h; exact Or.inr (Or.inl ⟨hc, hc, rfl, rfl⟩)
  · rename_i hc
    refine Or.inr (Or.inr ⟨hc, ?_⟩)
    obtain ⟨⟨r₁, outs₁, b⟩, hp, h₁⟩ := Go.bind_eq_ok.1 h
    rcases putTxReqToCh_cases hp with ⟨rfl, -, he⟩ | ⟨rfl, rfl⟩
    · -- enqueued: ask for processes of the transaction's own controller
      obtain ⟨o, -, h₂⟩ := Go.bind_eq_ok.1 h₁
      cases h₂
      exact (sameFetch_enqueueCh he).trans (sameFetch_getProcesses _ _ _)
    · cases h₁; exact .refl _

theorem handleContractReadyResp_fetch {view : Bool → ProcessCounts} {now : ℤ}
    (h : handleContractReadyResp C view now r .ok = .ok (r', outs)) :
    r'.contractState = .ready ∧ r'.bufCh = [] ∧
      r'.getBytecodeTimer = r.getBytecodeTimer.stopAndDrain := by
  obtain ⟨r₁, hm, h⟩ := Go.bind_eq_ok.1 h
  have hs := (sameFetch_moveTxs hm).trans
    ((sameFetch_getProcesses view r₁ true).trans (sameFetch_getProcesses view _ false))
  cases h
  exact ⟨hs.contractState, hs.bufCh, hs.timer⟩

theorem handleTxCh_fetch {view : Bool → ProcessCounts} {now : ℤ} {msg : DockerVMMessage}
    {rest : List DockerVMMessage} (hr : r.txCh = msg :: rest)
    (h : handleTxCh C view now { r with txCh := rest } msg = .ok (r', outs)) :
    FetchStep r (.recvTx view now) r' := by
  have hhead : ∀ m ∈ r.txCh.head?, m = msg := by rw [hr]; simp
  unfold handleTxCh at h
  split at h
  · rename_i ht
    have hne : ¬ RunsGetBytecodeErr r (.recvTx view now) := by
      rintro ⟨m, hm, hf, -⟩
      rw [hhead m hm, ht] at hf; cases hf
    rcases handleTxReq_fetch h with ⟨h1, h2, h3, h4⟩ | ⟨h1, h2, h3, h4⟩ | ⟨-, hs⟩
    · exact .first msg h1 h2 h3 h4
    · exact .buffer msg h1 h2 h3 h4
    · exact .same ⟨hs.1, hs.2, hs.3⟩ hne
  · rename_i ht
    split at h
    · cases h
    · rename_i resp hresp
      cases hc : resp.code with
      | ok =>
        rw [hc] at h
        obtain ⟨h1, h2, h3⟩ := handleContractReadyResp_fetch h
        exact .loaded h1 h2 h3
      | fail =>
        rw [hc] at h
        obtain ⟨h1, h2⟩ := handleGetBytecodeErr_cases h
        exact .failed _ ⟨msg, by rw [hr]; rfl, ht, by rw [hresp]; simp [hc]⟩ rfl h1 h2
  · rename_i h1 h2
    cases h
    refine .same ⟨rfl, rfl, rfl⟩ ?_
    rintro ⟨m, hm, hf, -⟩
    rw [hhead m hm] at hf; exact h2 hf

/-- What a step does to the contract state, the buffer and the timer. -/
theorem act_fetch (h : act C r a = .ok (r', outs)) : FetchStep r a r' := by
  cases act_case h with
  | putTx | putEvent => exact .same ⟨rfl, rfl, rfl⟩ (fun h => h)
  | recvTx hr h => exact handleTxCh_fetch hr h
  | @ready view msg rest _ =>
    have hs := sameFetch_handleProcessReadyResp view { r with eventCh := rest } msg
    exact .same ⟨hs.1, hs.2, hs.3⟩ (fun h => h)
  | @bad view msg rest hr =>
    have hhead : r.eventCh.head? = some (.badContract msg) := by rw [hr]; rfl
    rcases handleBadContractResp_cases { r with eventCh := rest } msg with
      ⟨hacc, hq, heq⟩ | ⟨hacc, hq, heq⟩ | ⟨-, heq⟩
    · rw [heq]
      refine .bad msg hhead hacc rfl (Or.inr ⟨?_, rfl, rfl⟩)
      simpa [List.length_pos_iff] using hq
    · rw [heq]
      refine .bad msg hhead hacc rfl (Or.inl ⟨?_, ?_, rfl, rfl⟩)
      · exact List.eq_nil_of_length_eq_zero (by simp at hq; simp [hq.1])
      · exact List.eq_nil_of_length_eq_zero (by simp at hq; simp [hq.2])
    · rw [heq]
      exact .same ⟨rfl, rfl, rfl⟩ (fun h => h)
  | @timeout t _ _ ht h =>
    obtain ⟨h1, h2⟩ := handleGetBytecodeErr_cases h
    exact .timedOut t ht h1 h2
  | @expire t ht => exact .fired t ht rfl rfl rfl
  | take _ => exact .same (sameFetch_setController _ _ _) (fun h => h)

/-! ## Runs -/

/-- If the event is a report that `handleBadContractResp` accepts, no transaction
    waits in the controllers' queues. -/
def NoRefetch (r : RequestGroup) : GroupEvent → Prop
  | .badContract msg =>
    r.Accepts msg → r.origTxController.txCh = [] ∧ r.crossTxController.txCh = []
  | .processResp _ => True

instance (r : RequestGroup) : DecidablePred r.NoRefetch
  | .badContract _ => inferInstanceAs (Decidable (_ → _))
  | .processResp _ => instDecidableTrue

/-- A failed response is handled only while a fetch is open, and no fetch is
    started for transactions in the controllers' queues. -/
def FetchOk (r : RequestGroup) : Action → Prop
  | .recvTx _ _ => ∀ msg ∈ r.txCh.head?, IsFail msg → r.contractState = .waiting
  | .recvEvent _ => ∀ e ∈ r.eventCh.head?, r.NoRefetch e
  | _ => True

instance : DecidableRel FetchOk
  | r, .recvTx _ _ =>
    inferInstanceAs (Decidable (∀ msg ∈ r.txCh.head?, IsFail msg → r.contractState = .waiting))
  | r, .recvEvent _ => inferInstanceAs (Decidable (∀ e ∈ r.eventCh.head?, r.NoRefetch e))
  | _, .putTx _ | _, .putEvent _ | _, .recvTimer | _, .expire | _, .take _ => instDecidableTrue

/-- While a fetch is open there is a transaction to fail; the timer is pending
    only while a fetch is open, and an active timer has no stale tick. -/
structure FetchInv (r : RequestGroup) : Prop where
  buffered : r.contractState = .waiting → r.bufCh ≠ []
  timer : r.getBytecodeTimer.Pending → r.contractState = .waiting
  fresh : r.getBytecodeTimer.arm ≠ .stopped → r.getBytecodeTimer.tick = false

theorem fetchInv_new (key : RequestGroupKey) : FetchInv (new key) where
  buffered h := by cases h
  timer h := absurd h Timer.not_pending_forever
  fresh _ := rfl

/-- Outside a fetch the timer has no tick. -/
theorem FetchInv.tick_false (h : FetchInv r) (hc : r.contractState ≠ .waiting) :
    r.getBytecodeTimer.tick = false := by
  by_contra ht
  exact hc (h.timer (Or.inr (by simpa using ht)))

theorem FetchInv.not_pending_stopAndDrain (h : FetchInv r) :
    ¬ r.getBytecodeTimer.stopAndDrain.Pending :=
  Timer.not_pending_stopAndDrain (fun ha => h.fresh (by rw [ha]; decide))
    (fun ha => h.fresh (by rw [ha]; decide))

/-- A failed fetch ends with an idle timer, or is followed by a new one. -/
theorem fetchInv_of_failed {t : Timer} (ht : ¬ t.Pending)
    (h : r'.bufCh = [] ∧ r'.contractState = .empty ∧ r'.getBytecodeTimer = t ∨
      r'.bufCh ≠ [] ∧ r'.contractState = .waiting ∧ r'.getBytecodeTimer = t.reset) :
    FetchInv r' := by
  have htick : t.tick = false := by
    by_contra h; exact ht (Or.inr (by simpa using h))
  rcases h with ⟨-, hc, hT⟩ | ⟨hb, hc, hT⟩
  · refine ⟨fun h => ?_, fun h => ?_, fun _ => ?_⟩
    · rw [hc] at h; cases h
    · rw [hT] at h; exact absurd h ht
    · rw [hT, htick]
  · refine ⟨fun _ => hb, fun _ => hc, fun _ => ?_⟩
    rw [hT]; exact htick

theorem FetchInv.step (h : FetchInv r) (hok : FetchOk r a) (hs : FetchStep r a r') :
    FetchInv r' := by
  cases hs with
  | same hs _ =>
    refine ⟨fun hc => ?_, fun ht => ?_, fun ht => ?_⟩
    · rw [hs.bufCh]; exact h.buffered (hs.contractState ▸ hc)
    · rw [hs.contractState]; exact h.timer (hs.timer ▸ ht)
    · rw [hs.timer] at ht ⊢; exact h.fresh ht
  | first msg he hc hb hT =>
    refine ⟨fun _ => by rw [hb]; simp, fun _ => hc, fun _ => ?_⟩
    rw [hT]; exact h.tick_false (by rw [he]; decide)
  | buffer msg _ hc hb hT =>
    refine ⟨fun _ => by rw [hb]; simp, fun _ => hc, fun ht => ?_⟩
    rw [hT] at ht ⊢; exact h.fresh ht
  | loaded hc _ hT =>
    have hp := h.not_pending_stopAndDrain
    rw [← hT] at hp
    refine ⟨fun h => ?_, fun ht => absurd ht hp, fun _ => ?_⟩
    · rw [hc] at h; cases h
    · by_contra ht; exact hp (Or.inr (by simpa using ht))
  | failed t _ ht _ hr => exact fetchInv_of_failed (ht ▸ h.not_pending_stopAndDrain) hr
  | timedOut t ht _ hr =>
    -- the tick was read from a stopped timer: an active one has none
    obtain ⟨htick, rfl⟩ := Timer.recv_eq_some.1 ht
    refine fetchInv_of_failed ?_ hr
    rintro (harm | h')
    · have := h.fresh (by rw [show r.getBytecodeTimer.arm = .running from harm]; decide)
      rw [htick] at this; cases this
    · cases h'
  | bad msg hhead hacc hb hr =>
    have hready : r.contractState ≠ .waiting := by rw [hacc.1]; decide
    rcases hr with ⟨-, -, hc, hT⟩ | ⟨hq, -, -⟩
    · refine ⟨fun h => ?_, fun ht => ?_, fun ht => ?_⟩
      · rw [hc] at h; cases h
      · rw [hT] at ht; exact absurd (h.timer ht) hready
      · rw [hT] at ht ⊢; exact h.fresh ht
    · obtain ⟨h1, h2⟩ := hok _ hhead hacc
      rcases hq with hq | hq
      · exact absurd h1 hq
      · exact absurd h2 hq
  | fired t ht hc hb hT =>
    obtain ⟨harm, rfl⟩ := Timer.expire_eq_some.1 ht
    have hw := h.timer (Or.inl harm)
    refine ⟨fun _ => ?_, fun _ => hc.trans hw, fun ht => ?_⟩
    · rw [hb]; exact h.buffered hw
    · rw [hT] at ht; exact absurd rfl ht

theorem step_eq_some (h : step C r a = some r') : ∃ outs, act C r a = .ok (r', outs) := by
  obtain ⟨⟨_, outs⟩, hact, rfl⟩ := Option.map_eq_some_iff.1 h
  exact ⟨outs, Go.toOption_eq_some.1 hact⟩

theorem fetchInv_reach {key : RequestGroupKey} (h : Reach (step C) FetchOk (new key) r) :
    FetchInv r := by
  refine h.inv (fetchInv_new key) ?_
  intro r a r' hI hok hstep
  obtain ⟨outs, hact⟩ := step_eq_some hstep
  exact hI.step hok (act_fetch hact)

/-- **A transaction to fail.**  In a run whose steps all satisfy `FetchOk`, when
    `handleGetBytecodeErr` runs, `bufCh` is not empty and the handler returns. -/
theorem bufCh_ne_nil {key : RequestGroupKey} (h : Reach (step C) FetchOk (new key) r)
    (hok : FetchOk r a) (hrun : RunsGetBytecodeErr r a) :
    r.bufCh ≠ [] ∧ ∃ r' outs, act C r a = .ok (r', outs) := by
  have hI := fetchInv_reach h
  cases a with
  | recvTimer =>
    have htick : r.getBytecodeTimer.tick = true := hrun
    have hb := hI.buffered (hI.timer (Or.inr htick))
    refine ⟨hb, ?_⟩
    simp only [act, Timer.recv_eq_some.2 ⟨htick, rfl⟩]
    exact handleGetBytecodeErr_returns hb
  | recvTx view now =>
    obtain ⟨msg, hmem, hfail⟩ := hrun
    have hb := hI.buffered (hok msg hmem hfail)
    refine ⟨hb, ?_⟩
    obtain ⟨ht, hcode⟩ := hfail
    obtain ⟨resp, hresp, hc⟩ := Option.map_eq_some_iff.1 hcode
    obtain ⟨rest, hr⟩ := List.head?_eq_some_iff.1 hmem
    simp only [act, hr, handleTxCh, ht, hresp, hc]
    exact handleGetBytecodeErr_returns hb
  | putTx _ | putEvent _ | recvEvent _ | expire | take _ => exact hrun.elim

/-! ## The blocking runs -/

instance (r : RequestGroup) : DecidablePred r.RunsGetBytecodeErr
  | .recvTimer => inferInstanceAs (Decidable (_ = _))
  | .recvTx _ _ => inferInstanceAs (Decidable (∃ msg ∈ r.txCh.head?, IsFail msg))
  | .putTx _ | .putEvent _ | .recvEvent _ | .expire | .take _ => instDecidableFalse

/-- A bytecode response of the chain. -/
def bytecodeResp (txId : String) (code : DockerVMCode) : DockerVMMessage :=
  ⟨"chain1", txId, .getBytecodeResponse, none, none, some ⟨code, "", "", "", "", []⟩⟩

def noProcesses (_ : Bool) : ProcessCounts := ⟨0, 0⟩

/-- The fetch for the first transaction is answered by `FAIL`. -/
theorem bufCh_ne_nil_fail : ∃ r, Reach (step .sample) FetchOk (new .sample) r ∧
    RunsGetBytecodeErr r (.recvTx noProcesses 0) ∧ r.bufCh ≠ [] := by
  obtain ⟨r, hr, hP⟩ := exists_reach (step .sample) FetchOk (new .sample)
    (fun r => decide (RunsGetBytecodeErr r (.recvTx noProcesses 0) ∧
      FetchOk r (.recvTx noProcesses 0)))
    [.putTx (sampleTx .sample "tx1" "save"), .recvTx noProcesses 0, .putTx (bytecodeResp "tx1" .fail)]
    (by decide)
  obtain ⟨hrun, hok⟩ := of_decide_eq_true hP
  exact ⟨r, hr, hrun, (bufCh_ne_nil hr hok hrun).1⟩

/-- The action runs `handleGetBytecodeErr`, which blocks on `bufCh`. -/
def Parks (C : ChainConsts) (r : RequestGroup) (a : Action) : Bool :=
  decide (RunsGetBytecodeErr r a) && r.bufCh.isEmpty &&
    match act C r a with
    | .error .blocks => true
    | _ => false

/-- Two runs that park the group: the answer `FAIL` comes after the timeout that
    already consumed the transaction; and a process that took `tx1` reports a bad
    contract while `tx2` is queued, and the fetch started for it times out. -/
theorem group_parks :
    (∃ r, Reach (step .sample) Free (new .sample) r ∧
      Parks .sample r (.recvTx noProcesses 0)) ∧
    (∃ r, Reach (step .sample) Free (new .sample) r ∧ Parks .sample r .recvTimer) := by
  constructor
  · exact exists_reach _ Free _ _
      [.putTx (sampleTx .sample "tx1" "save"), .recvTx noProcesses 0, .expire, .recvTimer,
        .putTx (bytecodeResp "tx1" .fail)] (by decide)
  · exact exists_reach _ Free _ _
      [.putTx (sampleTx .sample "tx1" "save"), .recvTx noProcesses 0,
        .putTx (sampleTx .sample "tx2" "save"), .recvTx noProcesses 0,
        .putTx (bytecodeResp "tx1" .ok), .recvTx noProcesses 7, .take true,
        .putEvent (.badContract ⟨"tx1", .sample, true, 7⟩), .recvEvent noProcesses,
        .expire] (by decide)

end RequestGroup

end VmEngine
