/-
  What one turn of a request group does to its requests for processes.

  A group that asked a manager for processes sets `processWaiting` and asks no more
  until a `GetProcessRespMsg` resets the flag; a group that does not wait relies on
  the processes that its contract has.  `Turn` says this once for every step.
-/
import VmEngine.Core.RequestGroup

namespace VmEngine

namespace RequestGroup
variable {C : ChainConsts} {view : Bool → ProcessCounts} {g g' : RequestGroup} {o : Bool}
  {outs outs' : List GroupOut}

/-- A response for the controller `o` is in the group's `eventCh`. -/
def HasResp (g : RequestGroup) (o : Bool) : Prop := ∃ n, .processResp ⟨o, n⟩ ∈ g.eventCh

/-- The contract is ready and transactions wait for `o`, with no request open. -/
def Relies (g : RequestGroup) (o : Bool) : Prop :=
  g.contractState = .ready ∧ (g.controller o).txCh ≠ [] ∧ (g.controller o).processWaiting = false

/-- What a turn of the group does for the controller `o`: it waits after the turn
    only if it did before or has asked, and relies on processes only if it saw some
    or did before; a response is not taken unless the flag is settled again. -/
structure Turn (view : Bool → ProcessCounts) (g g' : RequestGroup) (outs : List GroupOut)
    (o : Bool) : Prop where
  key : g'.key = g.key
  waits : (g'.controller o).processWaiting = true →
    ((g.controller o).processWaiting = true ∧ (g.HasResp o → g'.HasResp o)) ∨
      ∃ n, .getProcessReq o ⟨g.key, n⟩ ∈ outs
  relies : g'.Relies o → 0 < (view o).processNum ∨ (g.Relies o ∧ (g.HasResp o → g'.HasResp o))

/-- A turn that leaves the controller alone. -/
theorem Turn.of_same (hk : g'.key = g.key) (hc : g'.controller o = g.controller o)
    (hs : g'.contractState = .ready → g.contractState = .ready)
    (hr : g.HasResp o → g'.HasResp o) : Turn view g g' outs o where
  key := hk
  waits h := Or.inl ⟨hc ▸ h, hr⟩
  relies h := Or.inr ⟨⟨hs h.1, hc ▸ h.2.1, hc ▸ h.2.2⟩, hr⟩

/-- A turn that leaves the contract not ready, and the flag as it was. -/
theorem Turn.of_notReady (hk : g'.key = g.key)
    (hc : (g'.controller o).processWaiting = (g.controller o).processWaiting)
    (hs : g'.contractState ≠ .ready) (hr : g.HasResp o → g'.HasResp o) : Turn view g g' outs o where
  key := hk
  waits h := Or.inl ⟨hc ▸ h, hr⟩
  relies h := absurd h.1 hs

/-- The counts that `getProcesses` reads are consistent. -/
def Counts (view : Bool → ProcessCounts) : Prop :=
  ∀ o, (view o).readyOrBusyProcessNum ≤ (view o).processNum

@[simp] theorem controller_updateControllerState (g : RequestGroup) (o o' b : Bool) :
    (g.updateControllerState o b).controller o' =
      if o = o' then { g.controller o with processWaiting := b } else g.controller o' := by
  unfold updateControllerState
  rw [controller_setController]

theorem eventCh_getProcesses (view : Bool → ProcessCounts) (g : RequestGroup) (o : Bool) :
    (getProcesses view g o).1.eventCh = g.eventCh := by
  rcases getProcesses_cases view g o with h | ⟨-, -, n, -, -, h⟩
  · rw [h]
  · rw [h]; exact eventCh_setController _ _ _

theorem key_getProcesses (view : Bool → ProcessCounts) (g : RequestGroup) (o : Bool) :
    (getProcesses view g o).1.key = g.key := by
  rcases getProcesses_cases view g o with h | ⟨-, -, n, -, -, h⟩
  · rw [h]
  · rw [h]; exact key_setController _ _ _

theorem controller_getProcesses_of_ne (view : Bool → ProcessCounts) (g : RequestGroup)
    {o o' : Bool} (h : o ≠ o') : (getProcesses view g o).1.controller o' = g.controller o' := by
  rcases getProcesses_cases view g o with h' | ⟨-, -, n, -, -, h'⟩
  · rw [h']
  · rw [h', controller_updateControllerState, if_neg h]

/-- `getProcesses` asks, or the group already waits, or it sees a process, or it
    needs none. -/
theorem getProcesses_asks (hv : Counts view) (g : RequestGroup) (o : Bool) :
    (∃ n, .getProcessReq o ⟨g.key, n⟩ ∈ (getProcesses view g o).2 ∧
        ((getProcesses view g o).1.controller o).processWaiting = true) ∨
      ((getProcesses view g o).1 = g ∧ (g.Relies o → 0 < (view o).processNum)) := by
  unfold getProcesses
  by_cases h : (g.controller o).processWaiting = true ∨ g.contractState ≠ .ready
  · rw [if_pos h]
    refine Or.inr ⟨rfl, fun hr => ?_⟩
    rcases h with h | h
    · rw [hr.2.2] at h; cases h
    · exact absurd hr.1 h
  · rw [if_neg h]
    dsimp only
    split_ifs with hn
    · refine Or.inl ⟨_, List.mem_singleton.2 rfl, ?_⟩
      rw [controller_updateControllerState, if_pos rfl]
    · refine Or.inr ⟨rfl, fun hr => ?_⟩
      have hlen : 0 < (g.controller o).txCh.length := List.length_pos_of_ne_nil hr.2.1
      have := hv o
      omega

/-- A turn ends with `getProcesses` for the controller `o`. -/
theorem Turn.getProcesses {g₁ : RequestGroup} (hv : Counts view) (hk : g₁.key = g.key)
    (hw : (g₁.controller o).processWaiting = true →
      (g.controller o).processWaiting = true ∧ (g.HasResp o → g₁.HasResp o)) :
    Turn view g (RequestGroup.getProcesses view g₁ o).1 (RequestGroup.getProcesses view g₁ o).2 o := by
  have hkey := (key_getProcesses view g₁ o).trans hk
  rcases getProcesses_asks hv g₁ o with ⟨n, hn, hset⟩ | ⟨heq, hr⟩
  · refine ⟨hkey, fun _ => Or.inr ⟨n, hk ▸ hn⟩, fun h => ?_⟩
    rw [h.2.2] at hset; cases hset
  · rw [heq]
    exact ⟨hk, fun h => Or.inl (hw h), fun h => Or.inl (hr h)⟩

/-- More outputs do not matter, nor a `getProcesses` for the other controller. -/
theorem Turn.mono (h : Turn view g g' outs o) {g'' : RequestGroup} (hk : g''.key = g'.key)
    (hc : g''.controller o = g'.controller o) (hs : g''.contractState = g'.contractState)
    (he : g''.eventCh = g'.eventCh) (ho : outs ⊆ outs') : Turn view g g'' outs' o := by
  have hr : g''.HasResp o ↔ g'.HasResp o := by unfold HasResp; rw [he]
  refine ⟨hk.trans h.key, ?_, ?_⟩
  · intro hw
    rw [hc] at hw
    rcases h.waits hw with h | ⟨n, h⟩
    · exact Or.inl ⟨h.1, fun h' => hr.2 (h.2 h')⟩
    · exact Or.inr ⟨n, ho h⟩
  · intro hrel
    rcases h.relies ⟨hs ▸ hrel.1, hc ▸ hrel.2.1, hc ▸ hrel.2.2⟩ with h | h
    · exact Or.inl h
    · exact Or.inr ⟨h.1, fun h' => hr.2 (h.2 h')⟩

/-- Two groups that agree on the flags, the key and the events. -/
structure SameFlags (g g' : RequestGroup) : Prop where
  key : g'.key = g.key
  eventCh : g'.eventCh = g.eventCh
  flag : ∀ o, (g'.controller o).processWaiting = (g.controller o).processWaiting

theorem SameFlags.hasResp (h : SameFlags g g') (hr : g.HasResp o) : g'.HasResp o := by
  unfold HasResp
  rw [h.eventCh]
  exact hr

theorem sameFlags_enqueueCh {req : DockerVMMessage} (h : enqueueCh C g req = .ok g') :
    SameFlags g g' := by
  obtain ⟨o, -, rfl⟩ := enqueueCh_eq h
  refine ⟨key_setController _ _ _, eventCh_setController _ _ _, fun o' => ?_⟩
  rw [controller_setController]
  split_ifs with ho
  · rw [← ho]
  · rfl

theorem sameFlags_moveTxs {txs : List DockerVMMessage} (h : moveTxs C g txs = .ok g') :
    SameFlags g g' := by
  induction txs generalizing g with
  | nil => cases h; exact ⟨rfl, rfl, fun _ => rfl⟩
  | cons tx txs ih =>
    obtain ⟨g₁, he, h⟩ := Go.bind_eq_ok.1 h
    have h₁ := sameFlags_enqueueCh he
    have h₂ := ih h
    exact ⟨h₂.key.trans h₁.key, h₂.eventCh.trans h₁.eventCh, fun o => (h₂.flag o).trans (h₁.flag o)⟩

theorem handleGetBytecodeErr_turn (h : handleGetBytecodeErr g = .ok (g', outs)) :
    g'.key = g.key ∧ g'.contractState ≠ .ready ∧ g'.eventCh = g.eventCh ∧
      ∀ o, g'.controller o = g.controller o := by
  unfold handleGetBytecodeErr at h
  split at h
  · cases h
  · dsimp only at h
    split_ifs at h
    · cases h; exact ⟨rfl, by simp [sendGetContractReq], rfl, fun _ => rfl⟩
    · cases h; exact ⟨rfl, by simp, rfl, fun _ => rfl⟩

theorem handleTxReq_turn (hv : Counts view) {req : DockerVMMessage}
    (h : handleTxReq C view g req = .ok (g', outs)) (o : Bool) : Turn view g g' outs o := by
  unfold handleTxReq at h
  split at h
  · cases h; exact .of_notReady rfl rfl (by simp) id
  · rename_i hw; cases h; exact .of_notReady rfl rfl (by simp [hw]) id
  · obtain ⟨⟨g₁, outs₁, b⟩, hp, h₁⟩ := Go.bind_eq_ok.1 h
    rcases putTxReqToCh_cases hp with ⟨rfl, rfl, he⟩ | ⟨rfl, rfl⟩
    · obtain ⟨o', ho', h₂⟩ := Go.bind_eq_ok.1 h₁
      obtain ⟨rfl, rfl⟩ : (RequestGroup.getProcesses view g₁ o').1 = g' ∧
          (RequestGroup.getProcesses view g₁ o').2 = outs := Prod.mk.inj (Except.ok.inj h₂)
      have hf := sameFlags_enqueueCh he
      by_cases hoo : o' = o
      · subst hoo
        exact .getProcesses hv hf.key fun hw => ⟨by rw [← hf.flag]; exact hw, hf.hasResp⟩
      · obtain ⟨o'', ho'', rfl⟩ := enqueueCh_eq he
        rw [ho'] at ho''
        cases ho''
        refine .of_same ((key_getProcesses _ _ _).trans hf.key) ?_ (fun hs => ?_) fun hr => ?_
        · rw [controller_getProcesses_of_ne _ _ hoo, controller_setController, if_neg hoo]
        · rw [(sameFetch_getProcesses _ _ _).contractState] at hs
          simpa using hs
        · unfold HasResp
          rw [eventCh_getProcesses]
          exact hf.hasResp hr
    · cases h₁; exact .of_same rfl rfl id id

theorem handleContractReadyResp_turn (hv : Counts view) {now : ℤ} {code : DockerVMCode}
    (h : handleContractReadyResp C view now g code = .ok (g', outs)) (o : Bool) :
    Turn view g g' outs o := by
  cases code with
  | fail =>
    obtain ⟨hk, hs, he, hc⟩ := handleGetBytecodeErr_turn h
    refine .of_notReady hk (by rw [hc]; rfl) hs fun hr => ?_
    unfold HasResp; rw [he]; exact hr
  | ok =>
    obtain ⟨g₁, hm, h₁⟩ := Go.bind_eq_ok.1 h
    generalize ht : RequestGroup.getProcesses view g₁ true = t at h₁
    obtain ⟨rfl, rfl⟩ : (RequestGroup.getProcesses view t.1 false).1 = g' ∧
        t.2 ++ (RequestGroup.getProcesses view t.1 false).2 = outs :=
      Prod.mk.inj (Except.ok.inj h₁)
    subst ht
    have hf := sameFlags_moveTxs hm
    have hkey : g₁.key = g.key := hf.key
    have hw : ∀ o, (g₁.controller o).processWaiting = true →
        (g.controller o).processWaiting = true ∧ (g.HasResp o → g₁.HasResp o) :=
      fun o h => ⟨by rw [hf.flag] at h; exact h, fun hr => hf.hasResp hr⟩
    cases o with
    | true =>
      exact (Turn.getProcesses hv hkey (hw true)).mono (key_getProcesses view _ _)
        (controller_getProcesses_of_ne view _ Bool.false_ne_true)
        (sameFetch_getProcesses view _ _).contractState
        (eventCh_getProcesses view _ _) (List.subset_append_left _ _)
    | false =>
      have hk : (RequestGroup.getProcesses view g₁ true).1.key = g.key :=
        (key_getProcesses view g₁ true).trans hkey
      refine (Turn.getProcesses hv hk ?_).mono rfl rfl rfl rfl (List.subset_append_right _ _)
      rw [controller_getProcesses_of_ne _ _ Bool.false_ne_true.symm]
      intro h
      refine ⟨(hw false h).1, fun hr => ?_⟩
      unfold HasResp
      rw [eventCh_getProcesses]
      exact (hw false h).2 hr

/-- The process numbers that the action reads. -/
def viewOf : Action → Bool → ProcessCounts
  | .recvTx view _ => view
  | .recvEvent view => view
  | _ => fun _ => ⟨0, 0⟩

theorem handleTxCh_turn (hv : Counts view) {now : ℤ} {msg : DockerVMMessage}
    (h : handleTxCh C view now g msg = .ok (g', outs)) (o : Bool) : Turn view g g' outs o := by
  unfold handleTxCh at h
  split at h
  · exact handleTxReq_turn hv h o
  · split at h
    · cases h
    · exact handleContractReadyResp_turn hv h o
  · cases h; exact .of_same rfl rfl id id

theorem handleEventCh_turn (hv : Counts view) {e : GroupEvent} {rest : List GroupEvent}
    (hg : g.eventCh = e :: rest) (o : Bool) :
    Turn view g (handleEventCh view { g with eventCh := rest } e).1
      (handleEventCh view { g with eventCh := rest } e).2 o := by
  cases e with
  | processResp msg =>
    have hrest : msg.isOrig ≠ o → g.HasResp o → ∃ n, .processResp ⟨o, n⟩ ∈ rest := by
      rintro hne ⟨n, hn⟩
      rw [hg, List.mem_cons] at hn
      rcases hn with hn | hn
      · cases hn; exact absurd rfl hne
      · exact ⟨n, hn⟩
    by_cases hoo : msg.isOrig = o
    · subst hoo
      refine .getProcesses hv (key_setController _ _ _) fun hw => ?_
      rw [controller_updateControllerState, if_pos rfl] at hw
      cases hw
    · refine .of_same ?_ ?_ (fun hs => ?_) fun hr => ?_
      · exact (key_getProcesses _ _ _).trans (key_setController _ _ _)
      · exact (controller_getProcesses_of_ne _ _ hoo).trans
          (by rw [controller_updateControllerState, if_neg hoo]; rfl)
      · have := (sameFetch_handleProcessReadyResp view { g with eventCh := rest } msg).contractState
        exact this ▸ hs
      · obtain ⟨n, hn⟩ := hrest hoo hr
        refine ⟨n, ?_⟩
        have : (handleEventCh view { g with eventCh := rest } (.processResp msg)).1.eventCh = rest :=
          (eventCh_getProcesses _ _ _).trans (eventCh_setController _ _ _)
        rw [this]; exact hn
  | badContract msg =>
    have hrest : g.HasResp o → ∃ n, .processResp ⟨o, n⟩ ∈ rest := by
      rintro ⟨n, hn⟩
      rw [hg, List.mem_cons] at hn
      rcases hn with hn | hn
      · cases hn
      · exact ⟨n, hn⟩
    simp only [handleEventCh, handleBadContractResp]
    split_ifs
    · exact .of_notReady rfl rfl (by simp [sendGetContractReq]) hrest
    · exact .of_notReady rfl rfl (by simp) hrest
    · exact .of_same rfl rfl id hrest

/-- Every step of a group is a turn, for each controller. -/
theorem act_turn {a : Action} (hv : Counts (viewOf a)) (h : act C g a = .ok (g', outs)) (o : Bool) :
    Turn (viewOf a) g g' outs o := by
  cases act_case h with
  | putTx => exact .of_same rfl rfl id id
  | putEvent => exact .of_same rfl rfl id fun ⟨n, hn⟩ => ⟨n, List.mem_append_left _ hn⟩
  | recvTx _ h =>
    have ht := handleTxCh_turn hv h o
    exact ⟨ht.key, ht.waits, ht.relies⟩
  | @ready view _ _ hg => exact handleEventCh_turn (show Counts view from hv) hg o
  | @bad view _ _ hg => exact handleEventCh_turn (show Counts view from hv) hg o
  | timeout _ h =>
    obtain ⟨hk, hs, he, hc⟩ := handleGetBytecodeErr_turn h
    refine .of_notReady hk (by rw [hc]; rfl) hs fun hr => ?_
    unfold HasResp; rw [he]; exact hr
  | expire _ => exact .of_same rfl rfl id id
  | @take o' tx rest htx =>
    have hr : g.HasResp o → (g.setController o' { g.controller o' with txCh := rest }).HasResp o := by
      unfold HasResp; rw [eventCh_setController]; exact id
    by_cases hoo : o' = o
    · subst hoo
      refine ⟨key_setController _ _ _, fun hw => Or.inl ⟨?_, hr⟩,
        fun hrel => Or.inr ⟨⟨?_, ?_, ?_⟩, hr⟩⟩
      · rw [controller_setController, if_pos rfl] at hw; exact hw
      · have := hrel.1; rwa [contractState_setController] at this
      · rw [htx]; exact List.cons_ne_nil _ _
      · have := hrel.2.2; rw [controller_setController, if_pos rfl] at this; exact this
    · refine .of_same (key_setController _ _ _) ?_ (fun hs => ?_) hr
      · rw [controller_setController, if_neg hoo]
      · rwa [contractState_setController] at hs

end RequestGroup

end VmEngine
