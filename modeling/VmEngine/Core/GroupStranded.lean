/-
  Transactions that wait for the contract.

  A group in the state `empty` fetches its contract only for the next transaction that
  arrives, so no transaction should wait in it then.  `handleGetBytecodeErr` looks at
  `bufCh` alone when it decides whether to fetch again: if the last buffered transaction
  fails while others wait in the queues of the controllers, they are stranded
  (`tx_stranded`).  `LastFailOk` excludes exactly these steps (`no_tx_stranded`).
-/
import VmEngine.Core.GroupQueues

namespace VmEngine

namespace RequestGroup
variable {C : ChainConsts} {r r' : RequestGroup} {a : Action} {outs : List GroupOut}

/-- No transaction waits in an empty group, and a group that waits has a timer. -/
structure NotStranded (r : RequestGroup) : Prop where
  empty : r.contractState = .empty → r.bufCh = [] ∧ ∀ o, r.queue o = []
  waiting : r.contractState = .waiting → r.getBytecodeTimer.Pending

/-- The last buffered transaction fails only when the queues are empty. -/
def LastFailOk (r : RequestGroup) (a : Action) : Prop :=
  RunsGetBytecodeErr r a → r.bufCh.length ≤ 1 → ∀ o, r.queue o = []

instance : DecidableRel LastFailOk := fun r a =>
  inferInstanceAs (Decidable (RunsGetBytecodeErr r a → r.bufCh.length ≤ 1 → ∀ o, r.queue o = []))

theorem notStranded_new (key : RequestGroupKey) : NotStranded (new key) where
  empty _ := ⟨rfl, fun o => by cases o <;> rfl⟩
  waiting h := by cases h

/-- Queues are filled from `bufCh`, or directly while the contract is ready. -/
theorem queue_stays_empty (hs : QueueStep C r a r' outs)
    (hc : r.contractState ≠ .ready ∨ r.handled a = none) (hb : r.bufCh = [])
    (h : ∀ o, r.queue o = []) (o : Bool) : r'.queue o = [] := by
  cases hs with
  | same _ _ hs _ | reject _ _ _ hs _ _ _ | drop _ _ _ hs _ => rw [hs.queue, h]
  | buffer _ _ _ _ hq _ => rw [hq, h]
  | enqueue _ _ htx hready _ _ _ _ =>
    rcases hc with hc | hc
    · exact absurd hready hc
    · rw [htx] at hc; cases hc
  | move _ _ _ _ hq _ _ => rw [hq, h, hb]; rfl
  | fail _ _ _ _ _ _ hq _ _ _ => rw [hq, h]
  | take o' tx _ hq _ =>
    have hcons := hq o
    rw [h] at hcons
    split_ifs at hcons
    exact hcons.symm

/-- A step that runs `handleGetBytecodeErr` does so with the queues it found. -/
theorem act_of_runs (h : act C r a = .ok (r', outs)) (hrun : RunsGetBytecodeErr r a) :
    ∃ r₁, SameQueues r r₁ ∧ handleGetBytecodeErr r₁ = .ok (r', outs) := by
  cases a with
  | recvTx view now =>
    obtain ⟨msg, hmem, ht, hcode⟩ := hrun
    obtain ⟨rest, hr⟩ := List.head?_eq_some_iff.1 hmem
    obtain ⟨resp, hresp, hc⟩ := Option.map_eq_some_iff.1 hcode
    simp only [act, hr, handleTxCh, ht, hresp, hc] at h
    refine ⟨_, ?_, h⟩
    exact ⟨rfl, fun _ => rfl⟩
  | recvTimer =>
    have htick : r.getBytecodeTimer.tick = true := hrun
    simp only [act, Timer.recv_eq_some.2 ⟨htick, rfl⟩] at h
    refine ⟨_, ?_, h⟩
    exact ⟨rfl, fun _ => rfl⟩
  | putTx _ | putEvent _ | recvEvent _ | expire | take _ => exact hrun.elim

/-- After a step that runs `handleGetBytecodeErr`. -/
theorem notStranded_of_runs (h : act C r a = .ok (r', outs)) (hrun : RunsGetBytecodeErr r a) :
    NotStranded r' ↔ LastFailOk r a := by
  obtain ⟨r₁, hs, herr⟩ := act_of_runs h hrun
  obtain ⟨htail, hc⟩ := handleGetBytecodeErr_cases herr
  obtain ⟨-, -, -, hq, -⟩ := queue_handleGetBytecodeErr herr
  have hlen : r'.bufCh = [] ↔ r.bufCh.length ≤ 1 := by
    rw [htail, hs.bufCh, ← List.length_eq_zero_iff, List.length_tail]
    omega
  have hqueue : ∀ o, r'.queue o = r.queue o := fun o => (hq o).trans (hs.queue o)
  rcases hc with ⟨hnil, hst, -⟩ | ⟨hne, hst, hT⟩
  · constructor
    · intro hI _ _ o
      rw [← hqueue]
      exact (hI.empty hst).2 o
    · intro hok
      refine ⟨fun _ => ⟨hnil, fun o => ?_⟩, fun hw => absurd (hst.symm.trans hw) (by decide)⟩
      rw [hqueue]
      exact hok hrun (hlen.1 hnil) o
  · refine iff_of_true ⟨fun he => absurd (hst.symm.trans he) (by decide), fun _ => ?_⟩ fun _ hle => ?_
    · rw [hT]; exact Timer.pending_reset _
    · exact absurd (hlen.2 hle) hne

/-- A step from a state without stranded transactions leads to such a state exactly if
    `LastFailOk` allows it. -/
theorem NotStranded.step (h : NotStranded r) (hready : r.contractState = .ready → r.bufCh = [])
    (hact : act C r a = .ok (r', outs)) : NotStranded r' ↔ LastFailOk r a := by
  by_cases hrun : RunsGetBytecodeErr r a
  · exact notStranded_of_runs hact hrun
  have hs := act_queues hact
  refine iff_of_true ?_ fun hr => absurd hr hrun
  have hwait : ∀ {t : Timer}, r'.contractState = .waiting → r'.getBytecodeTimer = t → t.Pending →
      NotStranded r' := fun hc hT ht =>
    ⟨fun he => absurd (hc.symm.trans he) (by decide), fun _ => hT ▸ ht⟩
  cases act_fetch hact with
  | same hsf _ =>
    refine ⟨fun he => ?_, fun hw => ?_⟩
    · rw [hsf.contractState] at he
      obtain ⟨hb, hq⟩ := h.empty he
      exact ⟨hsf.bufCh.trans hb, queue_stays_empty hs (Or.inl (by rw [he]; decide)) hb hq⟩
    · rw [hsf.contractState] at hw
      rw [hsf.timer]
      exact h.waiting hw
  | first _ _ hc _ hT => exact hwait hc hT (Timer.pending_reset _)
  | buffer _ hw hc _ hT => exact hwait hc hT (h.waiting hw)
  | loaded hc =>
    exact ⟨fun he => absurd (hc.symm.trans he) (by decide),
      fun hw => absurd (hc.symm.trans hw) (by decide)⟩
  | failed _ hmsg => exact absurd hmsg hrun
  | timedOut _ ht => exact absurd (Timer.recv_eq_some.1 ht).1 hrun
  | bad _ _ hacc hb hc =>
    rcases hc with ⟨ho, hcr, hst, -⟩ | ⟨-, hst, hT⟩
    · have hbuf := hready hacc.1
      refine ⟨fun _ => ⟨hb.trans hbuf, queue_stays_empty hs (Or.inr rfl) hbuf fun o => ?_⟩,
        fun hw => absurd (hst.symm.trans hw) (by decide)⟩
      cases o
      · exact hcr
      · exact ho
    · exact hwait hst hT (Timer.pending_reset _)
  | fired t ht hc hb hT =>
    have htick : t.Pending := by
      obtain ⟨-, rfl⟩ := Timer.expire_eq_some.1 ht
      exact Or.inr rfl
    refine ⟨fun he => ?_, fun _ => hT ▸ htick⟩
    rw [hc] at he
    obtain ⟨hbuf, hq⟩ := h.empty he
    exact ⟨hb.trans hbuf, queue_stays_empty hs (Or.inr rfl) hbuf hq⟩

theorem notStranded_reach {key : RequestGroupKey} (h : Reach (step C) LastFailOk (new key) r) :
    NotStranded r ∧ (r.contractState = .ready → r.bufCh = []) := by
  refine h.inv (I := fun r => NotStranded r ∧ (r.contractState = .ready → r.bufCh = []))
    ⟨notStranded_new key, nofun⟩ fun hinv hok hstep => ?_
  obtain ⟨outs, hact⟩ := step_eq_some hstep
  exact ⟨(hinv.1.step hinv.2 hact).2 hok, bufCh_of_ready hinv.2 (act_fetch hact)⟩

/-- **No stranded transaction.**  In a run whose steps all satisfy `LastFailOk`, no
    transaction waits in an empty group, a waiting group has a timer, and so a queued
    transaction waits for processes or for a fetch with a timeout.  A step that does not
    satisfy `LastFailOk` strands a transaction. -/
theorem no_tx_stranded {key : RequestGroupKey} (h : Reach (step C) LastFailOk (new key) r) :
    NotStranded r ∧
    ((r.bufCh ≠ [] ∨ ∃ o, r.queue o ≠ []) → r.contractState = .ready ∨
      (r.contractState = .waiting ∧ r.getBytecodeTimer.Pending)) ∧
    ∀ a r', step C r a = some r' → (NotStranded r' ↔ LastFailOk r a) := by
  obtain ⟨hI, hready⟩ := notStranded_reach h
  refine ⟨hI, fun hq => ?_, fun a r' hstep => ?_⟩
  · cases hc : r.contractState with
    | empty =>
      obtain ⟨hb, hq'⟩ := hI.empty hc
      rcases hq with hq | ⟨o, hq⟩
      · exact absurd hb hq
      · exact absurd (hq' o) hq
    | waiting => exact Or.inr ⟨rfl, hI.waiting hc⟩
    | ready => exact Or.inl rfl
  · obtain ⟨outs, hact⟩ := step_eq_some hstep
    exact hI.step hready hact

/-- `tx2` waits in the queue of the original transactions. -/
def runToQueued : List Action :=
  [.putTx (sampleTx .sample "tx1" "save"), .recvTx noProcesses 0, .putTx (sampleTx .sample "tx2" "save"),
    .recvTx noProcesses 0, .putTx (bytecodeResp "tx1" .ok), .recvTx noProcesses 7, .take true]

/-- `tx2` waits for a process, and the contract is ready. -/
theorem no_tx_stranded_queued : ∃ r, Reach (step .sample) LastFailOk (new .sample) r ∧
    r.queue true ≠ [] ∧ NotStranded r := by
  obtain ⟨r, hr, hP⟩ := exists_reach (step .sample) LastFailOk (new .sample)
    (fun r => decide (r.queue true ≠ [])) runToQueued (by decide)
  exact ⟨r, hr, of_decide_eq_true hP, (no_tx_stranded hr).1⟩

/-- An empty group in which a transaction waits, without a timer. -/
def Stranded (r : RequestGroup) : Bool :=
  r.contractState = .empty && !(r.queue true).isEmpty && !decide r.getBytecodeTimer.Pending

/-- A process that took `tx1` reports a bad contract while `tx2` is queued; the fetch
    that is started for `tx2` fails after `tx3` was buffered. -/
theorem tx_stranded : ∃ r, Reach (step .sample) Free (new .sample) r ∧ Stranded r := by
  refine exists_reach _ Free _ _ (runToQueued ++
    [.putEvent (.badContract ⟨"tx1", .sample, true, 7⟩), .recvEvent noProcesses,
      .putTx (sampleTx .sample "tx3" "save"), .recvTx noProcesses 0,
      .putTx (bytecodeResp "tx1" .fail), .recvTx noProcesses 0]) ?_
  decide

end RequestGroup

end VmEngine
