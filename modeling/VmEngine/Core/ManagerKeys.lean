/-
  The contracts that a process manager works for.

  A contract comes to a manager with a request of its group, and stays in the channel, in
  the task and the jobs of a handler, or among the waiting groups.  So what holds of every
  contract that was requested (`P`) holds of every contract that the manager works for.
-/
import VmEngine.Core.ManagerAnswers

namespace VmEngine

/-- The contract that a job works for. -/
def Job.contract : Job → Option RequestGroupKey
  | .create key | .named key _ | .made key _ _ | .change _ key => some key
  | .renamed c | .killed c | .changed c => some c.key
  | .close _ | .closeKilled _ | .closed _ => none

namespace ProcessManager
variable {found : String → Bool} {pm pm' : ProcessManager} {key : RequestGroupKey} {t t' : Task}
  {j : Job} {jobs : List Job} {next : Option Job} {P : RequestGroupKey → Prop}

/-- Every contract that the manager works for satisfies `P`. -/
structure KeysIn (P : RequestGroupKey → Prop) (pm : ProcessManager) : Prop where
  requests : ∀ msg, .getProcessReq msg ∈ pm.eventCh → P msg.key
  waiting : ∀ key ∈ pm.waitingRequestGroups, P key
  asks : ∀ {t jobs}, pm.task = some (t, jobs) → ∀ key ∈ t.asks, P key
  jobs : ∀ {t jobs}, pm.task = some (t, jobs) → ∀ j ∈ jobs, ∀ key ∈ j.contract, P key

theorem keysIn_new (maxProcessNum releaseNum : ℤ) (o : Bool) :
    (new maxProcessNum releaseNum o).KeysIn P where
  requests _ h := by cases h
  waiting _ h := by cases h
  asks h := by cases h
  jobs h := by cases h

/-! ## Waiting groups -/

theorem waiting_sendProcessReadyResp (pm : ProcessManager) (n : ℤ) (key : RequestGroupKey) :
    (sendProcessReadyResp found pm n key).1.waitingRequestGroups = pm.waitingRequestGroups := by
  unfold sendProcessReadyResp
  split_ifs <;> rfl

theorem waiting_removeFromWaitingGroup (pm : ProcessManager) (key : RequestGroupKey) :
    (removeFromWaitingGroup found pm key).waitingRequestGroups ⊆ pm.waitingRequestGroups := by
  unfold removeFromWaitingGroup
  rw [waiting_sendProcessReadyResp]
  exact List.filter_subset_self _

theorem waiting_removeProcessFromCache (pm : ProcessManager) (key : RequestGroupKey) (name : String) :
    (removeProcessFromCache found pm key name).waitingRequestGroups ⊆ pm.waitingRequestGroups := by
  unfold removeProcessFromCache removeFromProcessGroup
  split
  · exact List.Subset.refl _
  · dsimp only
    split_ifs
    · exact waiting_removeFromWaitingGroup _ _
    · exact List.Subset.refl _

theorem waiting_closeSandbox {name : String} (h : closeSandbox found pm key name = .ok pm') :
    pm'.waitingRequestGroups ⊆ pm.waitingRequestGroups := by
  unfold closeSandbox at h
  split at h
  · cases h
  · obtain rfl := Except.ok.inj h
    exact waiting_removeProcessFromCache _ _ _

theorem waiting_changeProcessState {name : String} {toBusy : Bool}
    (h : changeProcessState found pm name toBusy key = some pm') :
    pm'.waitingRequestGroups ⊆ pm.waitingRequestGroups := by
  unfold changeProcessState at h
  split_ifs at h
  · obtain ⟨pid, -, rfl⟩ := Option.map_eq_some_iff.1 h
    exact List.Subset.refl _
  · obtain ⟨pid, -, rfl⟩ := Option.map_eq_some_iff.1 h
    unfold addProcessToIdle
    dsimp only
    split_ifs
    · exact waiting_removeFromWaitingGroup _ _
    · exact waiting_removeFromWaitingGroup _ _
    · exact List.Subset.refl _
    · exact List.Subset.refl _

/-- A step of a job: no group is put to wait, and the job goes on for the same contract. -/
theorem runJob_contract {e : JobEvent} (h : runJob found pm t j e = .ok (pm', t', next)) :
    pm'.waitingRequestGroups ⊆ pm.waitingRequestGroups ∧ ∀ j' ∈ next, j'.contract = j.contract := by
  have hremove : ∀ key, (removeFromWaitingGroup found pm key).waitingRequestGroups ⊆
      pm.waitingRequestGroups := waiting_removeFromWaitingGroup pm
  have hsend : ∀ n key, (sendProcessReadyResp found pm n key).1.waitingRequestGroups ⊆
      pm.waitingRequestGroups := fun n key => by
    rw [waiting_sendProcessReadyResp]
    exact List.Subset.refl _
  have hnone : ∀ j' ∈ (none : Option Job), j'.contract = j.contract := fun _ h => by cases h
  cases runJob_case h with
  | @nameNew key =>
    unfold nameNew
    dsimp only
    split_ifs
    · refine ⟨?_, by rintro _ ⟨⟩; rfl⟩
      cases t with
      | allocateNew => exact hsend 1 key
      | _ => exact List.Subset.refl _
    · refine ⟨?_, hnone⟩
      cases t with
      | allocateNew => exact hsend 1 key
      | _ => exact List.Subset.refl _
  | cacheNew =>
    refine ⟨?_, hnone⟩
    unfold cacheNew
    split
    · exact List.Subset.refl _
    · exact hremove _
  | meet _ =>
    refine ⟨?_, hnone⟩
    unfold meetIdle
    split
    · exact List.Subset.refl _
    · rw [waiting_sendProcessReadyResp]
      exact hremove _
  | @recache c =>
    refine ⟨?_, hnone⟩
    unfold recache
    split
    · exact waiting_removeProcessFromCache _ _ _
    · dsimp only
      split_ifs
      · refine List.Subset.trans (waiting_removeProcessFromCache _ _ _) ?_
        refine List.Subset.trans (waiting_removeFromWaitingGroup _ _) ?_
        exact hsend 1 c.key
      · exact hsend 1 c.key
  | release hc => exact ⟨waiting_closeSandbox hc, hnone⟩
  | createFail | changeFail | closeFail => exact ⟨List.Subset.refl _, hnone⟩
  | createOk | rename | changeKill | changeDone | closeKill | closeDone =>
    exact ⟨List.Subset.refl _, by rintro _ ⟨⟩; rfl⟩

/-! ## Steps -/

/-- A step that takes no request and starts no job. -/
theorem KeysIn.fewer (h : pm.KeysIn P) (hev : ∀ msg, .getProcessReq msg ∈ pm'.eventCh →
      .getProcessReq msg ∈ pm.eventCh)
    (hwait : pm'.waitingRequestGroups ⊆ pm.waitingRequestGroups)
    (htask : pm'.task = pm.task ∨ pm'.task = none) : pm'.KeysIn P where
  requests msg hm := h.requests msg (hev msg hm)
  waiting key hk := h.waiting key (hwait hk)
  asks ht := by
    rcases htask with heq | heq
    · exact h.asks (heq ▸ ht)
    · rw [heq] at ht; cases ht
  jobs ht := by
    rcases htask with heq | heq
    · exact h.jobs (heq ▸ ht)
    · rw [heq] at ht; cases ht

/-- A handler starts. -/
theorem KeysIn.start (h : pm.KeysIn P) (hev : ∀ msg, .getProcessReq msg ∈ pm'.eventCh →
      .getProcessReq msg ∈ pm.eventCh)
    (hwait : pm'.waitingRequestGroups ⊆ pm.waitingRequestGroups) (htask : pm'.task = some (t, jobs))
    (hasks : ∀ key ∈ t.asks, P key) (hjobs : ∀ j ∈ jobs, ∀ key ∈ j.contract, P key) :
    pm'.KeysIn P where
  requests msg hm := h.requests msg (hev msg hm)
  waiting key hk := h.waiting key (hwait hk)
  asks ht := by
    obtain ⟨rfl, -⟩ := Prod.mk.inj (Option.some.inj (htask.symm.trans ht))
    exact hasks
  jobs ht := by
    obtain ⟨-, rfl⟩ := Prod.mk.inj (Option.some.inj (htask.symm.trans ht))
    exact hjobs

theorem KeysIn.job {i : ℕ} {e : JobEvent} (h : pm.KeysIn P) (hs : stepJob found pm i e = .ok pm') :
    pm'.KeysIn P := by
  obtain ⟨t, jobs, j, pm₁, t₁, next, ht, hj, hr, rfl⟩ := stepJob_run hs
  obtain ⟨hwait, hnext⟩ := runJob_contract hr
  obtain ⟨hkeep, hasks⟩ := runJob_keeps hr
  have hev : pm₁.eventCh = pm.eventCh := hkeep.eventCh
  refine h.start (fun msg hm => hev ▸ hm) hwait rfl (fun key hk => h.asks ht key (hasks ▸ hk)) ?_
  intro j' hj' key hk
  cases next with
  | none => exact h.jobs ht j' (List.mem_of_mem_eraseIdx hj') key hk
  | some j₁ =>
    rcases List.mem_or_eq_of_mem_set hj' with hmem | rfl
    · exact h.jobs ht j' hmem key hk
    · rw [hnext j' rfl] at hk
      exact h.jobs ht j (List.mem_of_getElem? hj) key hk

theorem KeysIn.getProcessReq {msg : GetProcessReqMsg} (h : pm.KeysIn P) (hmsg : P msg.key)
    (hs : handleGetProcessReq found pm msg = .ok pm') : pm'.KeysIn P := by
  have hasks : ∀ need idleAsked, ∀ key ∈ (Task.getProcess msg need idleAsked).asks, P key := by
    rintro need idleAsked key ⟨⟩
    exact hmsg
  unfold handleGetProcessReq at hs
  split_ifs at hs
  · obtain rfl := Except.ok.inj hs
    have hkeep : Keeps found pm _ := removeFromWaitingGroup_keeps pm msg.key
    exact h.fewer (fun _ hm => hkeep.eventCh ▸ hm) (waiting_removeFromWaitingGroup _ _)
      (Or.inl hkeep.task)
  · dsimp only at hs
    split_ifs at hs
    · obtain rfl := Except.ok.inj hs
      refine h.start (fun _ hm => hm) (List.Subset.refl _) rfl (hasks _ _) fun j hj key hk => ?_
      rw [List.eq_of_mem_replicate hj] at hk
      cases hk
      exact hmsg
    · obtain rfl := Except.ok.inj hs
      exact h.start (fun _ hm => hm) (List.Subset.refl _) rfl (hasks _ _) nofun

/-- The end of a handler, or its next part. -/
theorem KeysIn.finish (h : pm.KeysIn P) (ht : pm.task = some (t, jobs)) :
    (finishTask found pm t).KeysIn P := by
  cases t with
  | getProcess msg need idleAsked =>
    have hmsg : P msg.key := h.asks ht msg.key rfl
    cases idleAsked with
    | false =>
      refine h.start (fun _ hm => hm) (List.Subset.refl _) rfl (by rintro key ⟨⟩; exact hmsg) ?_
      intro j hj key hk
      split_ifs at hj
      · obtain ⟨pid, -, rfl⟩ := List.mem_map.1 hj
        cases hk
        exact hmsg
      · cases hj
    | true =>
      unfold finishTask finishGetProcessReq
      dsimp only
      split_ifs
      · exact h.fewer (fun _ hm => hm) (List.Subset.refl _) (Or.inr rfl)
      · refine ⟨h.requests, fun key hk => ?_, nofun, nofun⟩
        rcases List.mem_append.1 hk with hk | hk
        · exact h.waiting key hk
        · rw [List.mem_singleton.1 hk]
          exact hmsg
      · have hkeep : Keeps found { pm with task := none } _ :=
          sendProcessReadyResp_keeps { pm with task := none } (msg.processNum - need) msg.key
        refine h.fewer (fun _ hm => hkeep.eventCh ▸ hm) ?_ (Or.inr hkeep.task)
        rw [waiting_sendProcessReadyResp]
        exact List.Subset.refl _
  | allocateIdle => exact h.fewer (fun _ hm => hm) (List.Subset.refl _) (Or.inr rfl)
  | allocateNew => exact h.fewer (fun _ hm => hm) (List.Subset.refl _) (Or.inr rfl)
  | clean n => exact h.fewer (fun _ hm => hm) (List.Subset.refl _) (Or.inr rfl)

/-- A manager works for contracts that were requested. -/
theorem KeysIn.act {a : Action} (h : pm.KeysIn P)
    (hreq : ∀ msg, a = .putMsg (.getProcessReq msg) → P msg.key)
    (hs : ProcessManager.act found pm a = .ok pm') : pm'.KeysIn P := by
  have hno : ∀ key, key ∈ (none : Option RequestGroupKey) → P key := nofun
  have hrest : ∀ {e : ManagerEvent} {rest : List ManagerEvent}, pm.eventCh = e :: rest →
      { pm with eventCh := rest }.KeysIn P := by
    intro e rest hev
    refine h.fewer (fun msg hm => ?_) (List.Subset.refl _) (Or.inl rfl)
    rw [hev]
    exact List.mem_cons_of_mem _ hm
  cases act_case hs with
  | putMsg e =>
    refine ⟨fun msg hm => ?_, h.waiting, h.asks, h.jobs⟩
    rcases List.mem_append.1 hm with hm | hm
    · exact h.requests msg hm
    · exact hreq msg (by rw [List.mem_singleton.1 hm])
  | quiet => exact h.fewer (fun _ hm => hm) (List.Subset.refl _) (Or.inl rfl)
  | @request msg rest _ _ hev hs =>
    exact (hrest hev).getProcessReq (h.requests msg (hev ▸ List.mem_cons_self)) hs
  | @exit msg rest pm₁ _ hev hc =>
    have hkeep := closeSandbox_keeps hc
    have hev₁ : pm₁.eventCh = rest := hkeep.eventCh
    have hwait := waiting_closeSandbox hc
    exact (hrest hev).fewer (fun _ hm => hev₁ ▸ hm) hwait (Or.inl hkeep.task)
  | clean =>
    refine h.start (fun _ hm => hm) (List.Subset.refl _) rfl hno fun j hj key hk => ?_
    obtain ⟨pid, -, rfl⟩ := List.mem_map.1 hj
    cases hk
  | allocateIdle =>
    refine h.start (fun _ hm => hm) (List.Subset.refl _) rfl hno fun j hj key hk => ?_
    rw [← List.map_uncurry_zip_eq_zipWith] at hj
    obtain ⟨⟨pid, key'⟩, hpid, rfl⟩ := List.mem_map.1 hj
    cases hk
    exact h.waiting _ (List.mem_of_mem_take (List.of_mem_zip hpid).2)
  | allocateNew =>
    refine h.start (fun _ hm => hm) (List.Subset.refl _) rfl hno fun j hj key hk => ?_
    obtain ⟨key', hkey', rfl⟩ := List.mem_map.1 hj
    cases hk
    exact h.waiting _ (List.mem_of_mem_take hkey')
  | job hs => exact h.job hs
  | advance ht => exact h.finish ht
  | unchanged _ => exact h
  | changed _ hc =>
    have hkeep := changeProcessState_keeps hc
    exact h.fewer (fun _ hm => hkeep.eventCh ▸ hm) (waiting_changeProcessState hc)
      (Or.inl hkeep.task)

end ProcessManager

end VmEngine
