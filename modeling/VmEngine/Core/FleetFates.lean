/-
  What becomes of a transaction in the engine.

  A transaction that the chain requested waits, or has been sent to a sandbox or
  answered.  Three steps drop one without an answer (`Loses`); a run without them loses
  none (`tx_accounted`).
-/
import VmEngine.Core.FleetOnce

namespace VmEngine

/-! ## Processes -/

namespace Process
variable {cfg : ProcessConfig} {p p' : Process} {a : Action} {outs : List ProcessOut}

/-- `handleTxRequest` finds that the transaction has waited too long for an answer. -/
def expired : Action → Bool
  | .txReq _ elapsedTime _ => removeTxTime < elapsedTime
  | _ => false

theorem act_expired (h : act cfg p a = .ok (p', outs)) (he : expired a = true) : outs = [] := by
  cases a with
  | txReq tx el ok =>
    have hlt : removeTxTime < el := of_decide_eq_true he
    obtain ⟨-, -, hcase⟩ := txReq_cases h
    cases hcase with
    | removed _ => rfl
    | expired _ h0 _ | dispatched h0 _ _ _ _ => exact absurd hlt h0
  | _ => cases he

variable {tx : DockerVMMessage}

/-- The transaction found after a failed start is answered or given back. -/
theorem exit_received {e : ExitErr} {cfv : ℤ} (hk : e.kind ≠ .other)
    (h : handleProcessExit p e (some tx) cfv = .ok (p', outs)) :
    Fleet.returned outs = [tx] ∨ tx.txId ∈ errTxIds outs := by
  obtain ⟨⟨p₁, outs₁, f⟩, hb, h⟩ := Go.bind_eq_ok.1 h
  obtain ⟨resps, hr, h⟩ := Go.bind_eq_ok.1 h
  cases h
  obtain ⟨hret, -, herr⟩ := exitResponses_flow hr
  cases hkind : e.kind with
  | contractExecError =>
    simp only [exitBody, hkind] at hb
    cases hb
    exact Or.inr (by rw [List.nil_append, herr, if_pos rfl]; exact List.mem_singleton_self _)
  | contractNotExistError =>
    simp only [exitBody, hkind] at hb
    cases hb
    exact Or.inl (by rw [returned_append, hret]; rfl)
  | other => exact absurd hkind hk

/-- A transaction that a step receives is sent, given back or answered, if it has not
    waited too long. -/
theorem act_received {q : String} (h : act cfg p a = .ok (p', outs))
    (hr : Fleet.receives p a = some (q, tx)) (hlive : expired a = false)
    (hexit : ∀ next cfv e, a = .exit next cfv → p.launch = .exited e → e.kind ≠ .other) :
    tx.txId ∈ (sends outs).map (·.2.txId) ∨ Fleet.returned outs = [tx] ∨ tx.txId ∈ errTxIds outs := by
  cases a with
  | txReq tx' el ok =>
    have hlt : ¬ removeTxTime < el := of_decide_eq_false hlive
    obtain ⟨⟨q', hl⟩, -, hcase⟩ := txReq_cases h
    obtain rfl : tx' = tx := by
      rw [Fleet.receives, hl] at hr
      exact (Prod.mk.inj (Option.some.inj hr)).2
    cases hcase with
    | removed h0 => exact absurd h0 hlt
    | expired err _ _ => exact Or.inr (Or.inr (List.mem_singleton_self _))
    | dispatched _ _ _ _ ho =>
      rcases ho with ⟨-, rfl⟩ | ⟨-, err, rfl⟩
      · exact Or.inl (List.mem_singleton_self _)
      · exact Or.inr (Or.inr (List.mem_singleton_self _))
  | idleTxReq tx' pmOk =>
    cases act_step h with
    | idleKept hl | idleTaken hl _ =>
      rw [Fleet.receives, hl] at hr
      cases hr
      exact Or.inr (Or.inl rfl)
  | exit next cfv =>
    cases next with
    | none => cases hr
    | some tx' =>
      cases hr
      cases act_step h with
      | exit hlaunch _ _ _ h => exact Or.inr (exit_received (hexit _ _ _ rfl hlaunch) h)
  | _ => cases hr

end Process

/-! ## Groups -/

namespace RequestGroup
variable {C : ChainConsts} {r r' : RequestGroup} {a : Action} {outs : List GroupOut}
  {tx : DockerVMMessage}

/-- The step in which `handleTxReq` handles a transaction. -/
theorem act_handled (h : act C r a = .ok (r', outs)) (ht : r.handled a = some tx) :
    ∃ view rest, r.txCh = tx :: rest ∧
      handleTxReq C view { r with txCh := rest } tx = .ok (r', outs) := by
  cases a with
  | recvTx view now =>
    simp only [act] at h
    split at h
    · cases h
    · rename_i msg rest hch
      simp only [handled, hch, List.head?_cons, Option.filter] at ht
      split_ifs at ht with htype
      cases ht
      refine ⟨view, rest, hch, ?_⟩
      rw [handleTxCh, of_decide_eq_true htype] at h
      exact h
  | _ => cases ht

/-- A group loses a transaction without a cross context, when the contract is ready. -/
def Loses (r : RequestGroup) (a : Action) : Prop :=
  r.contractState = .ready ∧ ∃ tx ∈ r.handled a, tx.crossContext = none

instance (r : RequestGroup) (a : Action) : Decidable (r.Loses a) :=
  inferInstanceAs (Decidable (_ ∧ ∃ tx ∈ r.handled a, tx.crossContext = none))

theorem act_loses (h : act C r a = .ok (r', outs)) (ht : r.handled a = some tx)
    (hst : r.contractState = .ready) (hc : tx.crossContext = none) :
    SameQueues r r' ∧ answersOf outs = [] := by
  obtain ⟨view, rest, -, hact⟩ := act_handled h ht
  rw [handleTxReq] at hact
  dsimp only at hact
  rw [hst] at hact
  obtain ⟨⟨r₁, outs₁, b⟩, h₁, h₂⟩ := Go.bind_eq_ok.1 hact
  rw [putTxReqToCh, hc] at h₁
  cases h₁
  cases h₂
  exact ⟨⟨rfl, fun _ => rfl⟩, rfl⟩

theorem bufCh_of_not_ready (h : act C r a = .ok (r', outs)) (ht : r.handled a = some tx)
    (hst : r.contractState ≠ .ready) : r'.bufCh = r.bufCh ++ [tx] := by
  obtain ⟨view, rest, -, hact⟩ := act_handled h ht
  rw [handleTxReq] at hact
  dsimp only at hact
  split at hact
  · cases hact; rfl
  · cases hact; rfl
  · exact absurd ‹_› hst

theorem mem_waiting : tx ∈ r.waiting ↔ tx ∈ r.txCh.filter (·.type = .txRequest) ∨ tx ∈ r.bufCh ∨
    tx ∈ r.queue true ∨ tx ∈ r.queue false := by
  unfold waiting
  simp only [List.mem_append, or_assoc]

/-- The transaction that a group handles goes on waiting, or is answered or lost. -/
theorem handled_fate (ha : Fleet.OfGroup a) (h : act C r a = .ok (r', outs))
    (ht : r.handled a = some tx) :
    tx ∈ r'.waiting ∨ tx.txId ∈ (answersOf outs).map (·.txId) ∨ r.Loses a := by
  rw [mem_waiting]
  cases act_queues h with
  | same htx _ _ _ => rw [htx] at ht; cases ht
  | buffer tx' htx _ hb _ _ =>
    cases htx.symm.trans ht
    exact Or.inl (by rw [hb]; simp)
  | enqueue tx' o htx _ _ _ hq _ =>
    cases htx.symm.trans ht
    left
    cases o
    · exact Or.inr (Or.inr (Or.inr (by rw [hq]; simp)))
    · exact Or.inr (Or.inr (Or.inl (by rw [hq]; simp)))
  | reject tx' resp htx _ hans hid _ =>
    cases htx.symm.trans ht
    exact Or.inr (Or.inl (by rw [hans, ← hid]; exact List.mem_singleton_self _))
  | drop tx' htx hc hs _ =>
    cases htx.symm.trans ht
    refine Or.inr (Or.inr ⟨?_, tx, ht, hc⟩)
    by_contra hst
    have hb := bufCh_of_not_ready h ht hst
    rw [hs.bufCh] at hb
    simp at hb
  | move htx _ _ _ _ _ _ | fail _ _ htx _ _ _ _ _ _ _ => rw [htx] at ht; cases ht
  | take _ _ _ _ _ => exact absurd ha not_false

/-- A transaction in the buffer or a queue of a group stays there, or is answered. -/
theorem queued_fate (ha : Fleet.OfGroup a) (h : act C r a = .ok (r', outs))
    (hold : tx ∈ r.bufCh ∨ tx ∈ r.queue true ∨ tx ∈ r.queue false) :
    (tx ∈ r'.bufCh ∨ tx ∈ r'.queue true ∨ tx ∈ r'.queue false) ∨
      tx.txId ∈ (answersOf outs).map (·.txId) := by
  cases act_queues h with
  | same _ _ hs _ | reject _ _ _ hs _ _ _ | drop _ _ _ hs _ =>
    exact Or.inl (by rw [hs.bufCh, hs.queue, hs.queue]; exact hold)
  | buffer tx' _ _ hb hq _ =>
    left
    rw [hb, hq, hq]
    exact hold.imp_left (List.mem_append_left _)
  | enqueue tx' o _ _ _ hb hq _ =>
    have hgrow : ∀ b, tx ∈ r.queue b → tx ∈ r'.queue b := by
      intro b hin
      rw [hq]
      split_ifs
      · exact List.mem_append_left _ hin
      · exact hin
    left
    rw [hb]
    exact hold.imp_right (Or.imp (hgrow true) (hgrow false))
  | move _ _ _ _ hq hall _ =>
    refine Or.inl (Or.inr ?_)
    rw [hq, hq]
    rcases hold with hin | hin | hin
    · obtain ⟨o, ho⟩ := hall tx hin
      have hgo : tx ∈ r.bufCh.filter (goesTo C o) := List.mem_filter.2 ⟨hin, goesTo_iff.2 ho⟩
      cases o
      · exact Or.inr (List.mem_append_right _ hgo)
      · exact Or.inl (List.mem_append_right _ hgo)
    · exact Or.inl (List.mem_append_left _ hin)
    · exact Or.inr (List.mem_append_left _ hin)
  | fail tx' resp _ _ _ hb hq hans hid _ =>
    rw [hb] at hold
    rcases hold with hin | hin
    · rcases List.mem_cons.1 hin with rfl | hin
      · exact Or.inr (by rw [hans, ← hid]; exact List.mem_singleton_self _)
      · exact Or.inl (Or.inl hin)
    · exact Or.inl (Or.inr (by rw [hq, hq]; exact hin))
  | take _ _ _ _ _ => exact absurd ha not_false

/-- A transaction that waits in a group goes on waiting there, or is answered or lost. -/
theorem waiting_fate (ha : Fleet.OfGroup a) (h : act C r a = .ok (r', outs)) (hw : tx ∈ r.waiting) :
    tx ∈ r'.waiting ∨ tx.txId ∈ (answersOf outs).map (·.txId) ∨ r.Loses a := by
  rw [mem_waiting, filter_txCh ha h, List.mem_append, or_assoc] at hw
  rcases hw with hhead | htail | hold
  · exact handled_fate ha h (Option.mem_toList.1 hhead)
  · exact Or.inl (mem_waiting.2 (Or.inl htail))
  · rcases queued_fate ha h hold with hin | hans
    · exact Or.inl (mem_waiting.2 (Or.inr hin))
    · exact Or.inr (Or.inl hans)

end RequestGroup

/-! ## Where transactions wait -/

namespace Fleet
variable {C : ChainConsts} {cfg : ProcessConfig} {f f' : Fleet} {a : Action} {outs : List FleetOut}
  {i : Option String} {tx b : DockerVMMessage}

theorem waiting_handleTxReq (hb : b ∈ f.waiting i) : b ∈ (handleTxReq f tx).waiting i := by
  unfold handleTxReq
  split
  · exact hb
  · rename_i q hq
    dsimp only
    rw [waiting_setGroup]
    refine mem_update_of_subset (fun t ht => ?_) hb
    refine (waiting_concat _ tx).symm.subset (List.mem_append_right _ ?_)
    unfold waiting at ht
    dsimp only at ht
    cases hg : f.requestGroups q.key.groupKey with
    | none => rw [hg] at ht; exact absurd ht List.not_mem_nil
    | some r => rw [hg] at ht; exact ht

/-- A transaction with a request reaches its group. -/
theorem handleTxReq_waiting (ht : tx.type = .txRequest) (hreq : tx.request ≠ none) :
    ∃ i, tx ∈ (handleTxReq f tx).waiting i := by
  obtain ⟨q, hq⟩ := Option.ne_none_iff_exists'.1 hreq
  refine ⟨some q.key.groupKey, ?_⟩
  unfold handleTxReq
  rw [hq]
  dsimp only
  rw [waiting_setGroup, Function.update_self]
  refine (waiting_concat _ tx).symm.subset (List.mem_append_left _ ?_)
  simp [ht]

/-- What waits is a transaction request. -/
def Typed (f : Fleet) : Prop := ∀ i, ∀ tx ∈ f.waiting i, tx.type = .txRequest

theorem Typed.step (hI : FleetInv f) (ht : Typed f) (h : FleetStep C f a f' outs) : Typed f' := by
  intro i tx htx
  rcases hI.mem_waiting h htx with ⟨j, hj⟩ | rfl
  · exact ht j tx hj
  · cases h with
    | request htype _ => exact htype

theorem typed_reach {ok : Fleet → Action → Prop} (h : Reach (step C cfg) ok init f) : Typed f := by
  refine h.inv_of (I := Typed) fleetInv_reach ?_ fun hI ht _ hstep => ?_
  · intro i tx htx
    cases i <;> exact absurd htx List.not_mem_nil
  · obtain ⟨outs, hact⟩ := step_eq_some hstep
    exact ht.step hI (act_step hact)

/-! ## Accounted for -/

/-- Every requested transaction waits, or has been sent to a sandbox or answered. -/
def Accounted (f : Fleet) : Prop :=
  ∀ txId ∈ f.seen, f.Waits txId ∨ txId ∈ f.sent ∨ txId ∈ f.answered

/-- **The steps that drop a transaction without an answer**: the scheduler handles a message
    without a request, a group with a ready contract one without a cross context, and a
    process one that has waited for more than `removeTxTime`. -/
def Loses (f : Fleet) : Action → Prop
  | .schedule => ∃ tx ∈ f.txCh.head?, tx.request = none
  | .group k a => ∃ r ∈ f.requestGroups k, r.Loses a
  | .proc _ a => Process.expired a = true
  | _ => False

instance (f : Fleet) : DecidablePred f.Loses
  | .schedule => inferInstanceAs (Decidable (∃ tx ∈ f.txCh.head?, tx.request = none))
  | .group k a => inferInstanceAs (Decidable (∃ r ∈ f.requestGroups k, r.Loses a))
  | .proc _ a => inferInstanceAs (Decidable (Process.expired a = true))
  | .request _ | .create _ _ _ _ | .answer _ => instDecidableFalse

def KeepsTx (f : Fleet) (a : Action) : Prop := ¬ f.Loses a

instance : DecidableRel KeepsTx := fun f a => inferInstanceAs (Decidable (¬ f.Loses a))

variable {p : Process} {pa : Process.Action}

/-- After a failed start only, a process looks for a transaction. -/
theorem Offers.exit_kind {k : String} (h : f.Offers p pa) (hr : receives p pa = some (k, tx))
    (next : Option DockerVMMessage) (cfv : ℤ) (e : ExitErr) (ha : pa = .exit next cfv)
    (he : p.launch = .exited e) : e.kind ≠ .other := by
  subst ha
  cases next with
  | none => cases hr
  | some tx' =>
    have hexit := h.1
    rw [exitTx, he] at hexit
    dsimp only at hexit
    split_ifs at hexit with hk
    exact hk

/-- A waiting transaction that a process does not take goes on waiting. -/
theorem waiting_of_taken (hoff : f.Offers p pa) (hb : b ∈ f.waiting i) :
    b ∈ (f.taken p pa).waiting i ∨ (receives p pa).map (·.2) = some b := by
  rcases taken_cases hoff with ⟨-, heq⟩ | ⟨k, tx, l, hr, hperm, heq⟩
  · rw [heq]
    exact Or.inl hb
  · rw [heq, hr]
    by_cases hi : i = some k
    · subst hi
      rw [Function.update_self]
      rcases List.mem_append.1 (hperm.subset hb) with hb | hb
      · exact Or.inl hb
      · exact Or.inr (congrArg some (List.mem_singleton.1 hb).symm)
    · rw [Function.update_of_ne hi]
      exact Or.inl hb

/-- What becomes of a waiting transaction in a step of a process. -/
theorem fate_proc {pid : ℕ} (hlive : Process.expired pa = false)
    (h : act C cfg f (.proc pid pa) = some (f', outs)) (hb : b ∈ f.waiting i) :
    f'.Waits b.txId ∨ b.txId ∈ f'.sent ∨ b.txId ∈ f'.answered := by
  obtain ⟨p, p', pouts, hp, hoff, hact, rfl⟩ := act_proc h
  rcases waiting_of_taken hoff hb with hb | hrec
  · refine Or.inl ⟨i, b, ?_, rfl⟩
    rw [waiting_putOuts]
    exact mem_update_of_subset (List.subset_append_left _ _) hb
  · obtain ⟨⟨k, tx⟩, hr, rfl⟩ := Option.map_eq_some_iff.1 hrec
    rcases Process.act_received hact hr hlive (hoff.exit_kind hr) with hs | hret | he
    · exact Or.inr (Or.inl (List.mem_append_right _ hs))
    · refine Or.inl ⟨none, tx, ?_, rfl⟩
      rw [waiting_putOuts, Function.update_self, hret]
      exact List.mem_append_right _ (List.mem_singleton_self _)
    · exact Or.inr (Or.inr (List.mem_append_right _ he))

/-- What becomes of a waiting transaction in a step that loses none. -/
theorem fate (ht : Typed f) (hok : KeepsTx f a) (h : act C cfg f a = some (f', outs))
    (hb : b ∈ f.waiting i) : f'.Waits b.txId ∨ b.txId ∈ f'.sent ∨ b.txId ∈ f'.answered := by
  cases act_step h with
  | @request tx _ _ =>
    refine Or.inl ⟨i, b, ?_, rfl⟩
    rw [waiting_txCh]
    exact mem_update_of_subset (List.subset_append_left _ _) hb
  | @schedule tx rest hch =>
    have hw := waiting_txCh f rest f.seen
    have hrest : b ∈ ({ f with txCh := rest } : Fleet).waiting i ∨ i = none ∧ b = tx := by
      rw [hw]
      by_cases hi : i = none
      · subst hi
        rw [Function.update_self]
        have hin : b ∈ f.txCh := hb
        rw [hch] at hin
        exact (List.mem_cons.1 hin).symm.imp_right fun h => ⟨rfl, h⟩
      · rw [Function.update_of_ne hi]
        exact Or.inl hb
    rcases hrest with hrest | ⟨rfl, rfl⟩
    · exact Or.inl ⟨i, b, waiting_handleTxReq hrest, rfl⟩
    · have hreq : b.request ≠ none := fun hn => hok ⟨b, by rw [hch]; rfl, hn⟩
      obtain ⟨j, hj⟩ := handleTxReq_waiting (f := { f with txCh := rest }) (ht none b hb) hreq
      exact Or.inl ⟨j, b, hj, rfl⟩
  | @group k ga r r' gouts hr ha hact =>
    by_cases hi : i = some k
    · subst hi
      have hin : b ∈ r.waiting := by simpa only [waiting, hr] using hb
      rcases RequestGroup.waiting_fate ha hact hin with hin | hans | hlost
      · refine Or.inl ⟨some k, b, ?_, rfl⟩
        rw [waiting_group, Function.update_self]
        exact hin
      · exact Or.inr (Or.inr (List.mem_append_right _ hans))
      · exact absurd ⟨r, hr, hlost⟩ hok
    · refine Or.inl ⟨i, b, ?_, rfl⟩
      rw [waiting_group, Function.update_of_ne hi]
      exact hb
  | create => exact Or.inl ⟨i, b, by cases i <;> exact hb, rfl⟩
  | proc _ _ _ => exact fate_proc (Bool.eq_false_iff.2 hok) h hb
  | answer _ => exact Or.inl ⟨i, b, by cases i <;> exact hb, rfl⟩

theorem Accounted.step (ht : Typed f) (hacc : Accounted f) (hok : KeepsTx f a)
    (h : act C cfg f a = some (f', outs)) : Accounted f' := by
  intro txId hid
  have hrec := (act_step h).records
  rcases hrec.seen hid with hid | ⟨tx, rfl, rfl⟩
  · rcases hacc txId hid with ⟨i, tx, htx, rfl⟩ | hs | ha
    · exact fate ht hok h htx
    · exact Or.inr (Or.inl (hrec.sent hs))
    · exact Or.inr (Or.inr (hrec.answered ha))
  · left
    cases act_step h with
    | request _ _ =>
      refine ⟨none, tx, ?_, rfl⟩
      rw [waiting_txCh, Function.update_self]
      exact List.mem_append_right _ (List.mem_singleton_self tx)

/-- A transaction that leaves its place for none is accounted for no more. -/
theorem FleetInv.not_accounted (hI : FleetInv f) (hd : Fewer f.waiting f'.waiting)
    (hrec : Records f f' a) (hsent : f'.sent = f.sent) (hans : f'.answered = f.answered)
    {gone : List DockerVMMessage} (hi : (f.waiting i).Perm (f'.waiting i ++ gone)) (htx : tx ∈ gone) :
    ¬ Accounted f' := by
  intro hacc
  have hin : tx ∈ f.waiting i := hi.symm.subset (List.mem_append_right _ htx)
  obtain ⟨hseen, hns, hna⟩ := hI.pending hin
  rcases hacc tx.txId (hrec.kept hseen) with ⟨j, b, hb, heq⟩ | hs | ha
  · exact hI.once.gone hd hi htx hb heq
  · exact hns (hsent ▸ hs)
  · exact hna (hans ▸ ha)

/-- The scheduler drops a message without a request. -/
theorem FleetInv.loses_schedule (hI : FleetInv f) {rest : List DockerVMMessage}
    (hch : f.txCh = tx :: rest) (hreq : tx.request = none)
    (hrec : Records f (handleTxReq { f with txCh := rest } tx) a) :
    ¬ Accounted (handleTxReq { f with txCh := rest } tx) := by
  have heq : handleTxReq { f with txCh := rest } tx = { f with txCh := rest } := by
    unfold handleTxReq
    rw [hreq]
  have hperm : (f.waiting none).Perm (rest ++ [tx]) := by
    show f.txCh.Perm _
    rw [hch]
    exact (List.perm_append_singleton _ _).symm
  have hw := waiting_txCh f rest f.seen
  rw [heq] at hrec ⊢
  refine hI.not_accounted (i := none) ?_ hrec rfl rfl ?_ (List.mem_singleton_self tx)
  · rw [hw]
    exact .update [tx] hperm
  · rw [hw, Function.update_self]
    exact hperm

/-- A group with a ready contract drops a message without a cross context. -/
theorem FleetInv.loses_group (hI : FleetInv f) {k : String} {ga : RequestGroup.Action}
    {r r' : RequestGroup} {gouts : List GroupOut} (hr : f.requestGroups k = some r)
    (ha : OfGroup ga) (hact : RequestGroup.act C r ga = .ok (r', gouts)) (hl : r.Loses ga)
    (hf : f' = { f.setGroup k r' with
      answered := f.answered ++ (RequestGroup.answersOf gouts).map (·.txId) })
    (hrec : Records f f' a) : ¬ Accounted f' := by
  obtain ⟨hst, tx, htx, hc⟩ := hl
  obtain ⟨hs, hans⟩ := RequestGroup.act_loses hact htx hst hc
  have hperm : (f.waiting (some k)).Perm (r'.waiting ++ [tx]) := by
    simp only [waiting, hr]
    unfold RequestGroup.waiting
    rw [RequestGroup.filter_txCh ha hact, hs.bufCh, hs.queue, hs.queue,
      show r.handled ga = some tx from htx]
    refine List.perm_iff_count.2 fun x => ?_
    simp only [Option.toList_some, List.count_append]
    omega
  have hw : f'.waiting = Function.update f.waiting (some k) r'.waiting := by
    rw [hf]
    exact waiting_group
  refine hI.not_accounted (i := some k) ?_ hrec ?_ ?_ ?_ (List.mem_singleton_self tx)
  · rw [hw]
    exact .update [tx] hperm
  · rw [hf]
    rfl
  · rw [hf]
    show f.answered ++ _ = f.answered
    rw [hans, List.map_nil, List.append_nil]
  · rw [hw, Function.update_self]
    exact hperm

/-- A process drops a message that has waited too long. -/
theorem FleetInv.loses_proc (hI : FleetInv f) {pid : ℕ} {p' : Process} {pouts : List ProcessOut}
    (hoff : f.Offers p pa) (hact : Process.act cfg p pa = .ok (p', pouts))
    (hl : Process.expired pa = true)
    (hrec : Records f (((f.taken p pa).setProc pid p').putOuts pouts) a) :
    ¬ Accounted (((f.taken p pa).setProc pid p').putOuts pouts) := by
  have hout : pouts = [] := Process.act_expired hact hl
  subst hout
  obtain ⟨-, -, hsent, hans, -⟩ := taken_eq f p pa
  obtain ⟨hd, hgot⟩ := waiting_taken hoff
  have hw : (((f.taken p pa).setProc pid p').putOuts []).waiting = (f.taken p pa).waiting := by
    rw [waiting_putOuts]
    show Function.update _ none ((f.taken p pa).txCh ++ []) = _
    rw [List.append_nil]
    exact Function.update_eq_self none _
  -- an expired transaction is one that the process received
  obtain ⟨tx, hrec'⟩ : ∃ tx, (receives p pa).map (·.2) = some tx := by
    cases pa with
    | txReq tx el ok =>
      simp only [Process.act] at hact
      split at hact
      · rename_i q hl' _
        exact ⟨tx, by simp [receives, hl']⟩
      · cases hact
    | _ => cases hl
  obtain ⟨k, hk⟩ := hgot tx hrec'
  refine hI.not_accounted (i := some k) (hw ▸ hd) hrec ?_ ?_ (hw ▸ hk)
    (List.mem_singleton_self tx)
  · show (f.taken p pa).sent ++ [] = f.sent
    rw [hsent, List.append_nil]
  · show (f.taken p pa).answered ++ [] = f.answered
    rw [hans, List.append_nil]

/-- A step that loses a transaction leaves it unaccounted for. -/
theorem FleetInv.loses (hI : FleetInv f) (hl : f.Loses a) (h : act C cfg f a = some (f', outs)) :
    ¬ Accounted f' := by
  have hrec := (act_step h).records
  cases a with
  | schedule =>
    obtain ⟨tx, hhead, hreq⟩ := hl
    cases act_step h with
    | @schedule tx' rest hch =>
      obtain rfl : tx' = tx := by rw [hch] at hhead; exact Option.some.inj hhead
      exact hI.loses_schedule hch hreq hrec
  | group k ga =>
    obtain ⟨r, hr, hl⟩ := hl
    cases act_step h with
    | @group _ _ r₁ r' gouts hr₁ ha hact =>
      cases hr₁.symm.trans hr
      exact hI.loses_group hr₁ ha hact hl rfl hrec
  | proc pid pa =>
    obtain ⟨p, p', pouts, -, hoff, hact, rfl⟩ := act_proc h
    exact hI.loses_proc hoff hact hl hrec
  | _ => exact absurd hl not_false

/-- **No transaction is lost** in a run without the steps of `Loses`: every transaction
    that the chain requested waits, or has been sent to a sandbox or answered.  Those
    steps are the only ones to lose a transaction, and each of them does. -/
theorem tx_accounted (h : Reach (step C cfg) KeepsTx init f) :
    Accounted f ∧ ∀ a f' outs, act C cfg f a = some (f', outs) → (Accounted f' ↔ KeepsTx f a) := by
  have hacc : Accounted f := by
    refine h.inv_of (I := Accounted) typed_reach (fun _ h => by cases h) fun ht hacc hok hstep => ?_
    obtain ⟨outs, hact⟩ := step_eq_some hstep
    exact hacc.step ht hok hact
  refine ⟨hacc, fun a f' outs hact => ⟨fun hacc' hl => ?_, fun hok => ?_⟩⟩
  · exact (fleetInv_reach h).loses hl hact hacc'
  · exact hacc.step (typed_reach h) hok hact

/-- One transaction has been sent and the other one waits.  If the process takes it after
    more than `removeTxTime`, it is lost. -/
theorem tx_accounted_served : ∃ f f' outs, Reach (step .sample .sample) KeepsTx init f ∧
    Accounted f ∧
    act .sample .sample f (.proc 0 (.txReq (sampleTx .sample "tx2" "save") 9001 true)) =
      some (f', outs) ∧ ¬ Accounted f' := by
  obtain ⟨f, hf, hP⟩ := exists_reach (step .sample .sample) KeepsTx init
    (fun f => (act .sample .sample f
      (.proc 0 (.txReq (sampleTx .sample "tx2" "save") 9001 true))).isSome) runServed (by decide)
  obtain ⟨⟨f', outs⟩, hact⟩ := Option.isSome_iff_exists.1 hP
  obtain ⟨hacc, hiff⟩ := tx_accounted hf
  have hlost : ¬ KeepsTx f (.proc 0 (.txReq (sampleTx .sample "tx2" "save") 9001 true)) :=
    fun h => h rfl
  exact ⟨f, f', outs, hf, hacc, hact, fun h => hlost ((hiff _ f' outs hact).1 h)⟩

end Fleet

end VmEngine
