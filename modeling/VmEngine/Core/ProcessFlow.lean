/-
  What a process does with the transactions it receives.

  A transaction that a step receives is sent to the sandbox, given back to the scheduler,
  answered with an error or dropped.  Other than that, only the transaction at work is
  answered, when the sandbox exits.
-/
import VmEngine.Core.Fleet

namespace VmEngine

namespace Process
variable {p p' : Process} {a : Action} {outs : List ProcessOut} {e : ExitErr}
  {next got : Option DockerVMMessage} {cfv : ℤ}

/-- A busy process has a transaction, and so has one that timed out. -/
def BusyTx (p : Process) : Prop :=
  p.processState = .busy ∨ p.processState = .timeout → p.tx.isSome = true

/-- What a step does with the transaction it received, and which others it answers. -/
structure TxFlow (p : Process) (got : Option DockerVMMessage) (p' : Process)
    (outs : List ProcessOut) : Prop where
  /-- what is given back is neither sent nor answered -/
  returned : Fleet.returned outs = [] ∨
    ∃ tx, got = some tx ∧ Fleet.returned outs = [tx] ∧ sends outs = [] ∧ errTxIds outs = []
  sent : ∀ m ∈ sends outs, ∃ tx, got = some tx ∧ m.2.txId = tx.txId
  errs : ∀ txId ∈ errTxIds outs,
    (∃ tx, got = some tx ∧ tx.txId = txId) ∨
      p.listen.isSome = true ∧ ∃ tx, p.tx = some tx ∧ tx.txId = txId
  tx : p'.listen.isSome = true → ∀ tx, p'.tx = some tx → p.listen.isSome = true ∧ p.tx = some tx ∨
    tx.txId ∈ (sends outs).map (·.2.txId) ∨ tx.txId ∈ errTxIds outs
  busy : BusyTx p'

/-- A step without messages. -/
theorem TxFlow.silent (htx : p'.tx = p.tx) (hl : p'.listen.isSome = true → p.listen.isSome = true)
    (hb : BusyTx p') : TxFlow p got p' [] :=
  ⟨Or.inl rfl, List.forall_mem_nil _, List.forall_mem_nil _, fun hs _ h => Or.inl ⟨hl hs, htx ▸ h⟩, hb⟩

/-- The body of `handleProcessExit`: the current transaction may be answered, or another
    one is received, which is answered or given back. -/
theorem exitBody_flow {f : ExitFlags} (h : exitBody p e next = .ok (p', outs, f)) :
    (((e.kind = .other ∨ next = none) ∧ outs = [] ∧ p'.tx = p.tx ∧
        (f.returnErrResp = true → p.processState = .busy ∨ p.processState = .timeout)) ∨
      e.kind ≠ .other ∧ ∃ tx, next = some tx ∧ p'.tx = some tx ∧ f.released = true ∧
        f.restartAll = false ∧ (outs = [] ∧ f.returnErrResp = true ∨
          outs = [.returnTx tx] ∧ f.returnErrResp = false)) ∧
      (p'.processState = p.processState ∨ p'.processState = .created) ∧
      p'.key = p.key ∧ p'.requestGroup = p.requestGroup := by
  unfold exitBody at h
  split at h
  · rename_i hk; cases h; simp [hk]
  · cases h; simp
  · rename_i hk; cases h; simp [hk]
  · cases h; simp
  · rename_i hk
    split at h
    · cases h; simp [hk]
    · split at h <;> cases h <;> simp [hk]
    · cases h; simp [hk]
    · rename_i hs
      split at h
      · cases h
      · cases h; simp [hk, hs]
    · cases h; simp [hk]
    · cases h; simp [hk]
    · rename_i hs; cases h; simp [hk, hs]

theorem exitResponses_flow {f : ExitFlags} (h : exitResponses p e f cfv = .ok outs) :
    Fleet.returned outs = [] ∧ sends outs = [] ∧
      errTxIds outs = if f.returnErrResp then [(p.tx.map (·.txId)).getD ""] else [] := by
  obtain ⟨bad, hb, h⟩ := Go.bind_eq_ok.1 h
  cases h
  rcases returnBadContractResp_eq hb with ⟨-, rfl⟩ | ⟨g, msg, rfl⟩
  · cases f.returnErrResp <;> cases f.exitSandbox <;> exact ⟨rfl, rfl, rfl⟩
  · cases f.returnErrResp <;> cases f.exitSandbox <;> exact ⟨rfl, rfl, rfl⟩

theorem finishExit_flow (p : Process) (f : ExitFlags) : (finishExit p f).tx = p.tx ∧
    (finishExit p f).processState = p.processState ∧
    (f.released = true → f.restartAll = false → (finishExit p f).listen = none) := by
  cases hf : f.restartAll with
  | true =>
    have heq : finishExit p f = { p with
        launch := .starting, pops := if p.launchPops then p.pops + 1 else p.pops,
        launchPops := true, listen := some .head } := by simp [finishExit, hf]
    rw [heq]
    exact ⟨rfl, rfl, nofun⟩
  | false =>
    obtain ⟨n, l, t, b, heq, hl⟩ := finishExit_eq (p := p) hf
    rw [heq]
    refine ⟨rfl, rfl, fun hrel _ => ?_⟩
    rcases hl with rfl | ⟨-, hrel'⟩
    · rfl
    · rw [hrel] at hrel'; cases hrel'

theorem returned_append (outs outs' : List ProcessOut) :
    Fleet.returned (outs ++ outs') = Fleet.returned outs ++ Fleet.returned outs' :=
  List.filterMap_append

theorem exit_flow (hl : p.listen.isSome = true) (hbusy : BusyTx p)
    (h : handleProcessExit p e next cfv = .ok (p', outs)) : TxFlow p next p' outs := by
  obtain ⟨⟨p₁, outs₁, f⟩, hb, h⟩ := Go.bind_eq_ok.1 h
  obtain ⟨resps, hr, h⟩ := Go.bind_eq_ok.1 h
  cases h
  obtain ⟨hcase, hstate, -, -⟩ := exitBody_flow hb
  obtain ⟨hret, hsend, herr⟩ := exitResponses_flow hr
  obtain ⟨htx, hst, hend⟩ := finishExit_flow p₁ f
  have hs : sends (outs₁ ++ resps) = sends outs₁ := by
    unfold sends at hsend ⊢
    rw [List.filterMap_append, hsend, List.append_nil]
  have hr' : Fleet.returned (outs₁ ++ resps) = Fleet.returned outs₁ := by
    rw [returned_append, hret, List.append_nil]
  rcases hcase with ⟨-, rfl, hsame, hwhen⟩ | ⟨-, tx, rfl, htx₁, hrel, hall, hout⟩
  · have hbusy' : BusyTx (finishExit p₁ f) := by
      intro hb'
      rw [htx, hsame]
      rw [hst] at hb'
      rcases hstate with hstate | hstate
      · exact hbusy (hstate ▸ hb')
      · rw [hstate] at hb'; simp at hb'
    refine ⟨Or.inl hr', by rw [hs]; exact List.forall_mem_nil _, fun txId hid => ?_,
      fun _ tx h => ?_, hbusy'⟩
    · rw [List.nil_append, herr] at hid
      split_ifs at hid with hresp
      · obtain ⟨tx, heq⟩ := Option.isSome_iff_exists.1 (hbusy (hwhen hresp))
        rw [hsame, heq] at hid
        exact Or.inr ⟨hl, tx, heq, (List.mem_singleton.1 hid).symm⟩
      · exact absurd hid List.not_mem_nil
    · rw [htx, hsame] at h
      exact Or.inl ⟨hl, h⟩
  · have hbusy' : BusyTx (finishExit p₁ f) := fun _ => by rw [htx, htx₁]; rfl
    have hnone := hend hrel hall
    have hlist : (finishExit p₁ f).listen.isSome = true → False := by
      rw [hnone]
      exact Bool.false_ne_true
    rcases hout with ⟨rfl, hf⟩ | ⟨rfl, hf⟩
    · refine ⟨Or.inl hr', by rw [hs]; exact List.forall_mem_nil _, fun txId hid => ?_,
        fun h => (hlist h).elim, hbusy'⟩
      rw [List.nil_append, herr, hf, htx₁] at hid
      exact Or.inl ⟨tx, rfl, (List.mem_singleton.1 hid).symm⟩
    · have herrs : errTxIds ([.returnTx tx] ++ resps) = [] := by
        show errTxIds resps = []
        rw [herr, hf]
        rfl
      refine ⟨Or.inr ⟨tx, rfl, hr', hs, herrs⟩, by rw [hs]; exact List.forall_mem_nil _, ?_,
        fun h => (hlist h).elim, hbusy'⟩
      rw [herrs]
      exact List.forall_mem_nil _

/-- What a step does with transactions. -/
theorem ProcStep.flow (h : ProcStep p a p' outs) (hbusy : BusyTx p) :
    TxFlow p ((Fleet.receives p a).map (·.2)) p' outs := by
  cases h with
  | @dropped tx el sendOk q outs hl ho =>
    have hgot : Fleet.receives p (.txReq tx el sendOk) = some (q, tx) := by simp [Fleet.receives, hl]
    rw [hgot]
    have htx : ∀ tx, p.tx = some tx → p.listen.isSome = true ∧ p.tx = some tx :=
      fun tx h => ⟨by rw [hl]; rfl, h⟩
    rcases ho with rfl | ⟨err, rfl⟩
    · exact ⟨Or.inl rfl, List.forall_mem_nil _, List.forall_mem_nil _,
        fun _ tx h => Or.inl (htx tx h), hbusy⟩
    · refine ⟨Or.inl rfl, List.forall_mem_nil _, fun txId hid => ?_,
        fun _ tx h => Or.inl (htx tx h), hbusy⟩
      exact Or.inl ⟨tx, rfl, (List.mem_singleton.1 hid).symm⟩
  | @dispatched tx el sendOk q sid outs u b t hl _ _ ho =>
    have hgot : Fleet.receives p (.txReq tx el sendOk) = some (q, tx) := by simp [Fleet.receives, hl]
    rw [hgot]
    rcases ho with rfl | ⟨err, rfl⟩
    · refine ⟨Or.inl rfl, fun m hm => ?_, List.forall_mem_nil _, fun _ tx' h => ?_, fun _ => rfl⟩
      · rw [List.mem_singleton.1 hm]
        exact ⟨tx, rfl, rfl⟩
      · cases h
        exact Or.inr (Or.inl (List.mem_singleton_self _))
    · refine ⟨Or.inl rfl, List.forall_mem_nil _, fun txId hid => ?_, fun _ tx' h => ?_, fun _ => rfl⟩
      · exact Or.inl ⟨tx, rfl, (List.mem_singleton.1 hid).symm⟩
      · cases h
        exact Or.inr (Or.inr (List.mem_singleton_self _))
  | @idleKept tx q hl =>
    have hgot : Fleet.receives p (.idleTxReq tx false) = some (q, tx) := by simp [Fleet.receives, hl]
    rw [hgot]
    exact ⟨Or.inr ⟨tx, rfl, rfl, rfl, rfl⟩, List.forall_mem_nil _, List.forall_mem_nil _,
      fun _ tx h => Or.inl ⟨by rw [hl]; rfl, h⟩, hbusy⟩
  | @idleTaken tx q u b t hl _ =>
    have hgot : Fleet.receives p (.idleTxReq tx true) = some (q, tx) := by simp [Fleet.receives, hl]
    rw [hgot]
    refine ⟨Or.inr ⟨tx, rfl, rfl, rfl, rfl⟩, List.forall_mem_nil _, List.forall_mem_nil _,
      fun _ tx h => Or.inl ⟨by rw [hl]; rfl, h⟩, ?_⟩
    rintro (h | h) <;> cases h
  | @exit next cfv e sel p' outs _ hl _ _ hexit =>
    have hgot : (Fleet.receives p (.exit next cfv)).map (·.2) = next := by cases next <;> rfl
    rw [hgot]
    exact exit_flow (by rw [hl]; rfl) hbusy hexit
  | loopHead hl => exact .silent rfl (fun _ => by rw [hl]; rfl) hbusy
  | wake hl => exact .silent rfl (fun _ => by rw [hl]; rfl) hbusy
  | answered hl _ _ htx _ => exact .silent rfl (fun _ => by rw [hl]; rfl) fun _ => by simp [htx]
  | deployFailed hl _ _ _ _ _ =>
    refine .silent rfl (fun _ => by rw [hl]; rfl) ?_
    rintro (h | h) <;> cases h
  | busyTimeout hl _ _ hst _ =>
    exact .silent rfl (fun _ => by rw [hl]; rfl) fun _ => hbusy (Or.inl hst)
  | readyTimeout hl _ _ _ =>
    refine .silent rfl (fun _ => by rw [hl]; rfl) ?_
    rintro (h | h) <;> cases h
  | strayTimeout hl _ _ _ => exact .silent rfl (fun _ => by rw [hl]; rfl) hbusy
  | setStream _ =>
    refine .silent rfl id ?_
    rintro (h | h) <;> cases h
  | @changeSandbox key name sigOk ok _ _ _ _ => exact .silent rfl id hbusy
  | closeSandbox _ _ _ _ => exact .silent rfl id hbusy
  | @leaveWindow w u b t _ =>
    refine .silent rfl id ?_
    cases w <;> rintro (h | h) <;> cases h
  | @launchProcess o _ =>
    have hsame : (p.launchProcess o).tx = p.tx ∧ (p.launchProcess o).listen = p.listen ∧
        (p.launchProcess o).processState = p.processState := by
      cases o with
      | started sid => unfold Process.launchProcess; dsimp only; split_ifs <;> exact ⟨rfl, rfl, rfl⟩
      | _ => exact ⟨rfl, rfl, rfl⟩
    refine .silent hsame.1 (fun h => hsame.2.1 ▸ h) fun h => ?_
    rw [hsame.1]
    exact hbusy (hsame.2.2 ▸ h)
  | _ => exact .silent rfl id hbusy

end Process

end VmEngine
