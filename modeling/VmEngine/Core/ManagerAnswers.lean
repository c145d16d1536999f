/-
  A process manager answers every group that it stops serving.

  A group waits at a manager from its `GetProcessReqMsg` on: in the `eventCh`, in
  the running handler, or in `waitingRequestGroups`.  Wherever the manager drops a
  group from there, or the last process of a contract from `processGroups`, it puts
  a `GetProcessRespMsg` to the group.  Every helper function does so (`Keeps`), and
  hence every step (`act_answers`).
-/
import VmEngine.Core.ManagerStep

namespace VmEngine

/-- The group for which the task asks. -/
def Task.asks : Task → Option RequestGroupKey
  | .getProcess msg _ _ => some msg.key
  | _ => none

theorem Task.asks_served (t : Task) : t.served.asks = t.asks := by cases t <;> rfl

namespace ProcessManager
variable {found : String → Bool} {pm pm' pm'' : ProcessManager} {key : RequestGroupKey} {s : String}

/-- A response to the group with the joined key `s` is put out. -/
def RespIn (pm : ProcessManager) (s : String) : Prop :=
  ∃ key n, .resp key ⟨pm.isOrigManager, n⟩ ∈ pm.outbox ∧ key.groupKey = s

/-- The contract with the joined key `s` has a process. -/
def HasEntry (pm : ProcessManager) (s : String) : Prop :=
  ∃ group, pm.processGroups.get? s = some group ∧ group.size ≠ 0

/-- The group `key` waits at the manager. -/
def Waits (pm : ProcessManager) (key : RequestGroupKey) : Prop :=
  (∃ n, .getProcessReq ⟨key, n⟩ ∈ pm.eventCh) ∨ key ∈ pm.waitingRequestGroups ∨
    ∃ t jobs, pm.task = some (t, jobs) ∧ t.asks = some key

/-- What a helper function of a handler keeps: nobody leaves the waiting groups, and
    no contract loses its last process, without a response. -/
structure Keeps (found : String → Bool) (pm pm' : ProcessManager) : Prop where
  isOrig : pm'.isOrigManager = pm.isOrigManager
  outbox : pm.outbox ⊆ pm'.outbox
  eventCh : pm'.eventCh = pm.eventCh
  task : pm'.task = pm.task
  entry : ∀ s, found s = true → pm.HasEntry s → pm'.HasEntry s ∨ pm'.RespIn s
  waiting : ∀ key ∈ pm.waitingRequestGroups, found key.groupKey = true →
    key ∈ pm'.waitingRequestGroups ∨ pm'.RespIn key.groupKey

theorem RespIn.mono (hr : pm.RespIn s) (hi : pm'.isOrigManager = pm.isOrigManager)
    (ho : pm.outbox ⊆ pm'.outbox) : pm'.RespIn s := by
  obtain ⟨key, n, hm, hs⟩ := hr
  refine ⟨key, n, ?_, hs⟩
  rw [hi]
  exact ho hm

theorem Keeps.trans (h : Keeps found pm pm') (h' : Keeps found pm' pm'') :
    Keeps found pm pm'' where
  isOrig := h'.isOrig.trans h.isOrig
  outbox := fun _ hx => h'.outbox (h.outbox hx)
  eventCh := h'.eventCh.trans h.eventCh
  task := h'.task.trans h.task
  entry s hf he := by
    rcases h.entry s hf he with he | hr
    · exact h'.entry s hf he
    · exact Or.inr (hr.mono h'.isOrig h'.outbox)
  waiting key hk hf := by
    rcases h.waiting key hk hf with hk | hr
    · exact h'.waiting key hk hf
    · exact Or.inr (hr.mono h'.isOrig h'.outbox)

/-- The parts of a manager that `Keeps` reads. -/
structure SameGroups (pm pm' : ProcessManager) : Prop where
  isOrig : pm'.isOrigManager = pm.isOrigManager
  outbox : pm.outbox ⊆ pm'.outbox
  eventCh : pm'.eventCh = pm.eventCh
  task : pm'.task = pm.task
  processGroups : pm'.processGroups = pm.processGroups
  waiting : pm'.waitingRequestGroups = pm.waitingRequestGroups

/-- Changes of the idle and busy processes, the counters and the timer do not matter. -/
theorem Keeps.of_same (h : SameGroups pm pm') : Keeps found pm pm' where
  isOrig := h.isOrig
  outbox := h.outbox
  eventCh := h.eventCh
  task := h.task
  entry s _ he := by
    refine Or.inl ?_
    unfold HasEntry
    rw [h.processGroups]
    exact he
  waiting key hk _ := Or.inl (h.waiting ▸ hk)

theorem Keeps.after (h : Keeps found pm' pm'') (hs : SameGroups pm pm') : Keeps found pm pm'' :=
  (Keeps.of_same hs).trans h

theorem Keeps.refl (pm : ProcessManager) : Keeps found pm pm :=
  .of_same ⟨rfl, fun _ h => h, rfl, rfl, rfl, rfl⟩

/-! ## Helper functions -/

/-- `sendProcessReadyResp` puts a response out, if the scheduler has the group. -/
theorem respIn_sendProcessReadyResp (pm : ProcessManager) (n : ℤ)
    (hf : found key.groupKey = true) : (sendProcessReadyResp found pm n key).1.RespIn key.groupKey := by
  unfold sendProcessReadyResp
  rw [if_pos hf]
  exact ⟨key, n, List.mem_append_right _ (List.mem_singleton.2 rfl), rfl⟩

theorem sendProcessReadyResp_keeps (pm : ProcessManager) (n : ℤ) (key : RequestGroupKey) :
    Keeps found pm (sendProcessReadyResp found pm n key).1 := by
  unfold sendProcessReadyResp
  split_ifs
  · exact .of_same ⟨rfl, List.subset_append_left _ _, rfl, rfl, rfl, rfl⟩
  · exact .refl pm

theorem respIn_removeFromWaitingGroup (pm : ProcessManager) (hf : found key.groupKey = true) :
    (removeFromWaitingGroup found pm key).RespIn key.groupKey :=
  respIn_sendProcessReadyResp _ _ hf

/-- The removed group gets a response, and so does every other group with its joined key. -/
theorem removeFromWaitingGroup_keeps (pm : ProcessManager) (key : RequestGroupKey) :
    Keeps found pm (removeFromWaitingGroup found pm key) := by
  set pm₁ := { pm with waitingRequestGroups := pm.waitingRequestGroups.filter (· ≠ key) } with hpm₁
  have hsend : Keeps found pm₁ (removeFromWaitingGroup found pm key) :=
    sendProcessReadyResp_keeps pm₁ 0 key
  refine ⟨hsend.isOrig, hsend.outbox, hsend.eventCh, hsend.task, hsend.entry, fun k hk hf => ?_⟩
  by_cases hkey : k = key
  · rw [hkey] at hf ⊢
    exact Or.inr (respIn_removeFromWaitingGroup pm hf)
  · exact hsend.waiting k (List.mem_filter.2 ⟨hk, by simpa using hkey⟩) hf

theorem addToProcessGroup_keeps (pm : ProcessManager) (pid : ℕ) (key : RequestGroupKey)
    (name : String) : Keeps found pm (addToProcessGroup pm pid key name) := by
  refine ⟨rfl, fun _ h => h, rfl, rfl, fun s _ he => Or.inl ?_, fun k hk _ => Or.inl hk⟩
  obtain ⟨group, hg, hn⟩ := he
  unfold HasEntry addToProcessGroup
  dsimp only
  rw [LinkedMap.get?_put]
  split_ifs with h
  · exact ⟨_, rfl, LinkedMap.size_put_ne_zero _ _ _⟩
  · exact ⟨group, hg, hn⟩

/-- The last process of a contract goes only with a response to the group. -/
theorem removeFromProcessGroup_keeps (pm : ProcessManager) (key : RequestGroupKey)
    (name : String) : Keeps found pm (removeFromProcessGroup found pm key name) := by
  unfold removeFromProcessGroup
  split
  · exact .refl pm
  · rename_i group hg
    dsimp only
    split_ifs with hsize
    · have hrem : Keeps found _ _ := removeFromWaitingGroup_keeps
        { pm with processGroups := pm.processGroups.remove key.groupKey } key
      refine ⟨hrem.isOrig, hrem.outbox, hrem.eventCh, hrem.task, fun s hf he => ?_, hrem.waiting⟩
      by_cases hs : s = key.groupKey
      · rw [hs] at hf ⊢
        exact Or.inr (respIn_removeFromWaitingGroup _ hf)
      · refine hrem.entry s hf ?_
        obtain ⟨group', hg', hn⟩ := he
        exact ⟨group', by rw [← hg']; exact LinkedMap.get?_remove_of_ne _ hs, hn⟩
    · refine ⟨rfl, fun _ h => h, rfl, rfl, fun s _ he => Or.inl ?_, fun k hk _ => Or.inl hk⟩
      obtain ⟨group', hg', hn⟩ := he
      unfold HasEntry
      rw [LinkedMap.get?_put]
      split_ifs
      · exact ⟨_, rfl, hsize⟩
      · exact ⟨group', hg', hn⟩

theorem addProcessToIdle_keeps (pm : ProcessManager) (name : String) (pid : ℕ)
    (key : RequestGroupKey) : Keeps found pm (addProcessToIdle found pm name pid key) := by
  set pm₁ := { pm with idleProcesses := pm.idleProcesses.put name pid } with hpm₁
  have h₁ : Keeps found pm pm₁ := .of_same ⟨rfl, fun _ h => h, rfl, rfl, rfl, rfl⟩
  have h₂ : Keeps found pm₁
      (if key ∈ pm₁.waitingRequestGroups then removeFromWaitingGroup found pm₁ key else pm₁) := by
    split_ifs
    · exact removeFromWaitingGroup_keeps pm₁ key
    · exact .refl pm₁
  refine (h₁.trans h₂).trans ?_
  unfold addProcessToIdle
  dsimp only
  split_ifs
  all_goals exact .of_same ⟨rfl, fun _ h => h, rfl, rfl, rfl, rfl⟩

theorem addProcessToCache_keeps (pm : ProcessManager) (key : RequestGroupKey) (name : String)
    (pid : ℕ) : Keeps found pm (addProcessToCache pm key name pid) :=
  (addToProcessGroup_keeps { pm with busyProcesses := pm.busyProcesses.put name pid } pid key
    name).after ⟨rfl, fun _ h => h, rfl, rfl, rfl, rfl⟩

theorem removeProcessFromCache_keeps (pm : ProcessManager) (key : RequestGroupKey)
    (name : String) : Keeps found pm (removeProcessFromCache found pm key name) :=
  (removeFromProcessGroup_keeps
    { pm with
      busyProcesses := pm.busyProcesses.remove name
      idleProcesses := pm.idleProcesses.remove name } key name).after
    ⟨rfl, fun _ h => h, rfl, rfl, rfl, rfl⟩

theorem closeSandbox_keeps {name : String} (h : closeSandbox found pm key name = .ok pm') :
    Keeps found pm pm' := by
  unfold closeSandbox at h
  split at h
  · cases h
  · rename_i pid _
    obtain rfl := Except.ok.inj h
    exact (removeProcessFromCache_keeps { pm with outbox := pm.outbox ++ [.freeUser pid] } key
      name).after ⟨rfl, List.subset_append_left _ _, rfl, rfl, rfl, rfl⟩

theorem changeProcessState_keeps {name : String} {toBusy : Bool}
    (h : changeProcessState found pm name toBusy key = some pm') : Keeps found pm pm' := by
  unfold changeProcessState at h
  split_ifs at h
  · obtain ⟨pid, -, rfl⟩ := Option.map_eq_some_iff.1 h
    exact .of_same ⟨rfl, fun _ h => h, rfl, rfl, rfl, rfl⟩
  · obtain ⟨pid, -, rfl⟩ := Option.map_eq_some_iff.1 h
    exact (addProcessToIdle_keeps pm name pid key).trans
      (.of_same ⟨rfl, fun _ h => h, rfl, rfl, rfl, rfl⟩)

/-! ## Jobs -/

theorem generateProcessName_keeps (pm : ProcessManager) (key : RequestGroupKey) :
    Keeps found pm (generateProcessName pm key).1 :=
  .of_same ⟨rfl, fun _ h => h, rfl, rfl, rfl, rfl⟩

theorem nameNew_keeps (pm : ProcessManager) (t : Task) (key : RequestGroupKey) :
    Keeps found pm (nameNew found pm t key).1 := by
  unfold nameNew
  dsimp only
  split
  · split_ifs
    · exact (sendProcessReadyResp_keeps pm 1 key).trans (generateProcessName_keeps _ key)
    · exact sendProcessReadyResp_keeps pm 1 key
  · exact generateProcessName_keeps pm key

theorem cacheNew_keeps (pm : ProcessManager) (t : Task) (key : RequestGroupKey) (name : String)
    (pid : ℕ) : Keeps found pm (cacheNew found pm t key name pid) := by
  unfold cacheNew
  split
  · exact addProcessToCache_keeps pm key name pid
  · exact (removeFromWaitingGroup_keeps pm key).trans (addProcessToCache_keeps _ key name pid)

theorem meetIdle_keeps (pm : ProcessManager) (t : Task) (key : RequestGroupKey) :
    Keeps found pm (meetIdle found pm t key) := by
  unfold meetIdle
  split
  · exact .refl pm
  · exact (removeFromWaitingGroup_keeps pm key).trans (sendProcessReadyResp_keeps _ 0 key)

theorem moveInCache_keeps (pm : ProcessManager) (c : Change) :
    Keeps found pm (moveInCache found pm c) :=
  (removeProcessFromCache_keeps pm c.oldKey c.oldName).trans
    (addProcessToCache_keeps _ c.key c.newName c.pid)

theorem recache_keeps (pm : ProcessManager) (t : Task) (c : Change) :
    Keeps found pm (recache found pm t c) := by
  unfold recache
  split
  · exact moveInCache_keeps pm c
  · have h : Keeps found pm _ := sendProcessReadyResp_keeps pm 1 c.key
    dsimp only
    split_ifs
    · exact (h.trans (removeFromWaitingGroup_keeps _ c.key)).trans (moveInCache_keeps _ c)
    · exact h

/-- A step of a job keeps this, and the task goes on for the same group. -/
theorem runJob_keeps {t t' : Task} {j : Job} {e : JobEvent} {next : Option Job}
    (h : runJob found pm t j e = .ok (pm', t', next)) :
    Keeps found pm pm' ∧ t'.asks = t.asks := by
  cases runJob_case h with
  | nameNew => exact ⟨nameNew_keeps pm t _, rfl⟩
  | cacheNew => exact ⟨cacheNew_keeps pm t _ _ _, t.asks_served⟩
  | meet _ => exact ⟨meetIdle_keeps pm t _, t.asks_served⟩
  | rename _ => exact ⟨generateProcessName_keeps pm _, rfl⟩
  | recache => exact ⟨recache_keeps pm t _, t.asks_served⟩
  | release hc => exact ⟨closeSandbox_keeps hc, t.asks_served⟩
  | _ => exact ⟨.refl pm, rfl⟩

/-! ## Handlers and steps -/

/-- From `pm` to `pm'` no group is dropped without a response. -/
structure Answers (found : String → Bool) (pm pm' : ProcessManager) : Prop where
  isOrig : pm'.isOrigManager = pm.isOrigManager
  outbox : pm.outbox ⊆ pm'.outbox
  entry : ∀ s, found s = true → pm.HasEntry s → pm'.HasEntry s ∨ pm'.RespIn s
  waits : ∀ key, found key.groupKey = true → pm.Waits key →
    pm'.Waits key ∨ pm'.RespIn key.groupKey

theorem Answers.trans (h : Answers found pm pm') (h' : Answers found pm' pm'') :
    Answers found pm pm'' where
  isOrig := h'.isOrig.trans h.isOrig
  outbox := fun _ hx => h'.outbox (h.outbox hx)
  entry s hf he := by
    rcases h.entry s hf he with he | hr
    · exact h'.entry s hf he
    · exact Or.inr (hr.mono h'.isOrig h'.outbox)
  waits key hf hw := by
    rcases h.waits key hf hw with hw | hr
    · exact h'.waits key hf hw
    · exact Or.inr (hr.mono h'.isOrig h'.outbox)

theorem Keeps.answers (h : Keeps found pm pm') : Answers found pm pm' where
  isOrig := h.isOrig
  outbox := h.outbox
  entry := h.entry
  waits key hf hwait := by
    rcases hwait with ⟨n, hn⟩ | hm | ⟨t, jobs, ht, hk⟩
    · exact Or.inl (Or.inl ⟨n, h.eventCh ▸ hn⟩)
    · exact (h.waiting key hm hf).imp (fun hm => Or.inr (Or.inl hm)) id
    · exact Or.inl (Or.inr (Or.inr ⟨t, jobs, h.task ▸ ht, hk⟩))

theorem Answers.of_same (h : SameGroups pm pm') : Answers found pm pm' := (Keeps.of_same h).answers

/-- What changes the task only.  The task that ends asks for nobody, or for a group
    that the new task asks for. -/
theorem Answers.of_task {task : Option (Task × List Job)}
    (h : ∀ t jobs key, pm.task = some (t, jobs) → t.asks = some key →
      ∃ t' jobs', task = some (t', jobs') ∧ t'.asks = some key) :
    Answers found pm { pm with task := task } where
  isOrig := rfl
  outbox := fun _ h => h
  entry _ _ he := Or.inl he
  waits key _ hw := by
    rcases hw with hw | hw | ⟨t, jobs, ht, hk⟩
    · exact Or.inl (Or.inl hw)
    · exact Or.inl (Or.inr (Or.inl hw))
    · exact Or.inl (Or.inr (Or.inr (h t jobs key ht hk)))

/-- A handler that starts: the task is new, and what the handler takes from a channel
    or a timer does not matter. -/
theorem Answers.of_no_task (h : pm.task = none) (hs : SameGroups { pm with task := pm'.task } pm') :
    Answers found pm pm' := by
  refine (Answers.of_task fun t jobs key ht _ => ?_).trans (.of_same hs)
  rw [h] at ht
  cases ht

/-- A request that leaves the `eventCh` is answered, or becomes the task. -/
theorem handleGetProcessReq_answers {msg : GetProcessReqMsg} {rest : List ManagerEvent}
    (hev : pm.eventCh = .getProcessReq msg :: rest) (ht : pm.task = none)
    (h : handleGetProcessReq found { pm with eventCh := rest } msg = .ok pm') :
    Answers found pm pm' := by
  -- the other groups wait as before; `hq` is left to show for the group of the request
  have others : ∀ {pm' : ProcessManager}, Answers found { pm with eventCh := rest } pm' →
      (found msg.key.groupKey = true → pm'.Waits msg.key ∨ pm'.RespIn msg.key.groupKey) →
      Answers found pm pm' := by
    intro pm' ha hq
    refine ⟨ha.isOrig, ha.outbox, ha.entry, fun key hf hw => ?_⟩
    by_cases hk : key = msg.key
    · exact hk ▸ hq (hk ▸ hf)
    · refine ha.waits key hf ?_
      rcases hw with ⟨n, hn⟩ | hw | hw
      · rw [hev, List.mem_cons] at hn
        rcases hn with hn | hn
        · cases hn; exact absurd rfl hk
        · exact Or.inl ⟨n, hn⟩
      · exact Or.inr (Or.inl hw)
      · exact Or.inr (Or.inr hw)
  unfold handleGetProcessReq at h
  split_ifs at h with h0
  · obtain rfl := Except.ok.inj h
    exact others (removeFromWaitingGroup_keeps _ _).answers fun hf =>
      Or.inr (respIn_removeFromWaitingGroup _ hf)
  · dsimp only at h
    split_ifs at h
    · obtain rfl := Except.ok.inj h
      refine others ?_ fun _ => Or.inl (Or.inr (Or.inr ⟨_, _, rfl, rfl⟩))
      exact .of_no_task ht ⟨rfl, fun _ h => h, rfl, rfl, rfl, rfl⟩
    · obtain rfl := Except.ok.inj h
      refine others ?_ fun _ => Or.inl (Or.inr (Or.inr ⟨_, _, rfl, rfl⟩))
      exact .of_no_task ht ⟨rfl, fun _ h => h, rfl, rfl, rfl, rfl⟩

/-- The exit of a sandbox concerns no request. -/
theorem exit_answers {msg : SandboxExitMsg} {rest : List ManagerEvent} {pm₁ : ProcessManager}
    (hev : pm.eventCh = .sandboxExit msg :: rest)
    (hc : closeSandbox found { pm with eventCh := rest } msg.key msg.processName = .ok pm₁) :
    Answers found pm { pm₁ with allocateNewCh := pm₁.allocateNewCh + 1 } := by
  have hset : Answers found pm₁ { pm₁ with allocateNewCh := pm₁.allocateNewCh + 1 } :=
    .of_same ⟨rfl, fun _ h => h, rfl, rfl, rfl, rfl⟩
  have ha := (closeSandbox_keeps hc).answers.trans hset
  refine ⟨ha.isOrig, ha.outbox, ha.entry, fun key hf hw => ha.waits key hf ?_⟩
  rcases hw with ⟨n, hn⟩ | hw | hw
  · rw [hev, List.mem_cons] at hn
    rcases hn with hn | hn
    · cases hn
    · exact Or.inl ⟨n, hn⟩
  · exact Or.inr (Or.inl hw)
  · exact Or.inr (Or.inr hw)

/-- A group whose request ends without a process is put to the waiting groups. -/
theorem finishGetProcessReq_answers {msg : GetProcessReqMsg} {need : ℤ} {jobs : List Job}
    (ht : pm.task = some (.getProcess msg need true, jobs)) :
    Answers found pm (finishGetProcessReq found pm msg need) := by
  have others : ∀ {pm' : ProcessManager},
      (∀ key, key ≠ msg.key → { pm with task := none }.Waits key → found key.groupKey = true →
        pm'.Waits key ∨ pm'.RespIn key.groupKey) →
      (found msg.key.groupKey = true → pm'.Waits msg.key ∨ pm'.RespIn msg.key.groupKey) →
      ∀ key, found key.groupKey = true → pm.Waits key → pm'.Waits key ∨ pm'.RespIn key.groupKey := by
    intro pm' ho hq key hf hw
    by_cases hk : key = msg.key
    · exact hk ▸ hq (hk ▸ hf)
    · refine ho key hk ?_ hf
      rcases hw with hw | hw | ⟨t, jobs', ht', hkey⟩
      · exact Or.inl hw
      · exact Or.inr (Or.inl hw)
      · rw [ht] at ht'
        cases ht'
        exact absurd (Option.some.inj hkey).symm hk
  unfold finishGetProcessReq
  dsimp only
  split_ifs with hn hm
  · exact ⟨rfl, fun _ h => h, fun _ _ h => Or.inl h,
      others (fun _ _ h _ => Or.inl h) fun _ => Or.inl (Or.inr (Or.inl hm))⟩
  · refine ⟨rfl, fun _ h => h, fun _ _ h => Or.inl h, others (fun _ _ h _ => Or.inl ?_) fun _ =>
      Or.inl (Or.inr (Or.inl (List.mem_append_right _ (List.mem_singleton.2 rfl))))⟩
    exact h.imp id (Or.imp (fun h => List.mem_append_left _ h) id)
  · have ha : Answers found { pm with task := none } _ :=
      (sendProcessReadyResp_keeps _ (msg.processNum - need) msg.key).answers
    exact ⟨ha.isOrig, ha.outbox, ha.entry, others (fun key _ h hf => ha.waits key hf h) fun hf =>
      Or.inr (respIn_sendProcessReadyResp _ _ hf)⟩

theorem finishTask_answers {t : Task} {jobs : List Job} (ht : pm.task = some (t, jobs)) :
    Answers found pm (finishTask found pm t) := by
  -- a task that asks for nobody may end
  have ends : t.asks = none → Answers found pm { pm with task := none } := fun hn =>
    .of_task fun t' jobs' key ht' hk => by
      rw [ht] at ht'
      cases ht'
      rw [hn] at hk
      cases hk
  cases t with
  | getProcess msg need idleAsked =>
    cases idleAsked with
    | false =>
      exact .of_task fun t' jobs' key ht' hk => ⟨_, _, rfl, by rw [ht] at ht'; cases ht'; exact hk⟩
    | true => exact finishGetProcessReq_answers ht
  | allocateIdle => exact ends rfl
  | allocateNew => exact ends rfl
  | clean n => exact (ends rfl).trans (.of_same ⟨rfl, fun _ h => h, rfl, rfl, rfl, rfl⟩)

theorem stepJob_answers {i : ℕ} {e : JobEvent} (h : stepJob found pm i e = .ok pm') :
    Answers found pm pm' := by
  obtain ⟨t, jobs, j, pm₁, t₁, next, ht, -, hr, rfl⟩ := stepJob_run h
  obtain ⟨ha, hk⟩ := runJob_keeps hr
  refine ha.answers.trans (.of_task fun t' jobs' key ht' hkey => ⟨t₁, _, rfl, ?_⟩)
  rw [ha.task, ht] at ht'
  cases ht'
  rw [hk]
  exact hkey

/-- **Every step of a manager answers the groups that it drops.** -/
theorem act_answers {a : Action} (h : act found pm a = .ok pm') : Answers found pm pm' := by
  cases act_case h with
  | putMsg e =>
    refine ⟨rfl, fun _ h => h, fun _ _ h => Or.inl h, fun key _ hw => Or.inl ?_⟩
    exact hw.imp (fun ⟨n, hn⟩ => ⟨n, List.mem_append_left _ hn⟩) id
  | quiet => exact .of_same ⟨rfl, fun _ h => h, rfl, rfl, rfl, rfl⟩
  | request ht hev h => exact handleGetProcessReq_answers hev ht h
  | exit _ hev hc => exact exit_answers hev hc
  | clean _ _ ht => exact .of_no_task ht ⟨rfl, fun _ h => h, rfl, rfl, rfl, rfl⟩
  | allocateIdle _ _ ht => exact .of_no_task ht ⟨rfl, fun _ h => h, rfl, rfl, rfl, rfl⟩
  | allocateNew _ _ ht _ => exact .of_no_task ht ⟨rfl, fun _ h => h, rfl, rfl, rfl, rfl⟩
  | job h => exact stepJob_answers h
  | advance ht => exact finishTask_answers ht
  | unchanged _ => exact (Keeps.refl pm).answers
  | changed _ hc => exact (changeProcessState_keeps hc).answers

end ProcessManager

end VmEngine
