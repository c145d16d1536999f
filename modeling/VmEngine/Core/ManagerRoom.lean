/-
  The room of a process manager.

  A manager holds one process for each entry of its cache and for each process that a
  job has made and not cached yet.  A job of a manager adds at most one process, as
  many as it was counted for when its handler started, and every process that goes has
  its user freed (`Flow`).  For this no name may be live twice, and a process that was
  changed must be cached under the name that it had before.
-/
import VmEngine.Core.EngineCarry

namespace VmEngine

namespace Job

/-- The process that a job has made. -/
def madePid : Job → Option ℕ
  | .made _ _ pid => some pid
  | _ => none

/-- The job is about to create a process. -/
def creates : Job → Bool
  | .create _ | .named _ _ => true
  | _ => false

/-- The change of a process that a job has signalled. -/
def signalled : Job → Option Change
  | .killed c | .changed c => some c
  | _ => none

end Job

namespace ManagerView

/-- The entries of the cache. -/
def cells (v : ManagerView) : List (String × ℕ) := v.idle.entries ++ v.busy.entries

/-- The names under which processes are cached, or about to be. -/
def liveNames (v : ManagerView) : List String := v.cells.map Prod.fst ++ v.jobs.filterMap Job.given

/-- The processes that the manager holds, once for each entry. -/
def managed (v : ManagerView) : List ℕ := v.cells.map Prod.snd ++ v.jobs.filterMap Job.madePid

/-- How many processes are about to be created. -/
def creating (v : ManagerView) : ℕ := v.jobs.countP Job.creates

variable {v v' : ManagerView} {n : String} {pid : ℕ} {j : Job} {rest : List Job} {added : List ℕ}

theorem mem_cells : (n, pid) ∈ v.cells ↔ v.Cached n pid := by
  unfold cells Cached
  rw [List.mem_append, LinkedMap.get?_eq_some, LinkedMap.get?_eq_some]

theorem length_cells (v : ManagerView) : v.cells.length = v.idle.size + v.busy.size :=
  List.length_append

theorem cells_uncache (v : ManagerView) (n : String) :
    (v.uncache n).cells = v.cells.filter (·.1 ≠ n) :=
  (List.filter_append ..).symm

theorem cells_cache (h : n ∉ v.cells.map Prod.fst) (pid : ℕ) :
    (v.cache n pid).cells = v.cells ++ [(n, pid)] := by
  have hk : n ∉ v.busy.keys := fun hn => h (by
    unfold cells
    rw [List.map_append]
    exact List.mem_append_right _ hn)
  unfold cells cache
  rw [LinkedMap.entries_put_of_not_mem pid hk, List.append_assoc]

/-- A process that is uncached, and the others. -/
theorem cells_perm_uncache (hnd : v.liveNames.Nodup) (h : v.Cached n pid) :
    v.cells.Perm ((n, pid) :: (v.uncache n).cells) := by
  rw [cells_uncache]
  exact LinkedMap.perm_cons_filter (List.nodup_append.1 hnd).1 (mem_cells.2 h)

theorem map_fst_uncache (v : ManagerView) (n : String) :
    ((v.uncache n).cells.map Prod.fst).Sublist (v.cells.map Prod.fst) := by
  rw [cells_uncache]
  exact List.Sublist.map _ List.filter_sublist

/-- What a step does to the processes that the manager holds: some are added, and the
    users of those that go are freed. -/
def Flow (v v' : ManagerView) (added : List ℕ) : Prop :=
  ∃ freed, v'.frees = v.frees ++ freed ∧ (freed ++ v'.managed).Perm (added ++ v.managed)

theorem Flow.length_le (h : Flow v v' added) :
    v'.managed.length ≤ added.length + v.managed.length := by
  obtain ⟨freed, -, hperm⟩ := h
  have := hperm.length_eq
  rw [List.length_append, List.length_append] at this
  omega

theorem Flow.nodup (h : Flow v v' added) (hnd : (added ++ v.managed).Nodup) : v'.managed.Nodup := by
  obtain ⟨freed, -, hperm⟩ := h
  exact (List.nodup_append.1 (hperm.nodup_iff.2 hnd)).2.1

theorem Flow.refl (hcells : v'.cells = v.cells) (hjobs : v'.jobs = v.jobs)
    (hfrees : v'.frees = v.frees) : Flow v v' [] := by
  refine ⟨[], hfrees.trans (List.append_nil _).symm, ?_⟩
  unfold managed
  rw [hcells, hjobs]

theorem filterMap_cons_toList {α β : Type} (f : α → Option β) (a : α) (l : List α) :
    (a :: l).filterMap f = (f a).toList ++ l.filterMap f := by
  cases hf : f a with
  | none => rw [List.filterMap_cons_none hf]; rfl
  | some b => rw [List.filterMap_cons_some hf]; rfl

/-- A job goes on, and what it holds moves to the cache or out of it. -/
theorem flow_of_jobs (next : List Job) (freed : List ℕ) (hj : v.jobs.Perm (j :: rest))
    (hj' : v'.jobs.Perm (next ++ rest)) (hfrees : v'.frees = v.frees ++ freed)
    (hcells : (freed ++ (v'.cells.map Prod.snd ++ next.filterMap Job.madePid)).Perm
      (added ++ (v.cells.map Prod.snd ++ j.madePid.toList))) : Flow v v' added := by
  have hm := hj.filterMap Job.madePid
  have hm' := hj'.filterMap Job.madePid
  rw [filterMap_cons_toList] at hm
  rw [List.filterMap_append] at hm'
  refine ⟨freed, hfrees, ?_⟩
  unfold managed
  rw [List.perm_iff_count] at hm hm' hcells ⊢
  intro pid
  have h1 := hm pid
  have h2 := hm' pid
  have h3 := hcells pid
  simp only [List.count_append] at h1 h2 h3 ⊢
  omega

theorem nodup_of_jobs (fresh : List String) (next : List Job) (hnd : (fresh ++ v.liveNames).Nodup)
    (hj : v.jobs.Perm (j :: rest)) (hj' : v'.jobs.Perm (next ++ rest))
    (h : (v'.cells.map Prod.fst ++ next.filterMap Job.given).Subperm
      (fresh ++ (v.cells.map Prod.fst ++ j.given.toList))) : v'.liveNames.Nodup := by
  have hm := hj.filterMap Job.given
  have hm' := hj'.filterMap Job.given
  rw [filterMap_cons_toList] at hm
  rw [List.filterMap_append] at hm'
  refine List.nodup_iff_count_le_one.2 fun n => ?_
  have h0 := List.nodup_iff_count_le_one.1 hnd n
  have h1 := hm.count_eq n
  have h2 := hm'.count_eq n
  have h3 := List.subperm_iff_count.1 h n
  unfold liveNames at h0 ⊢
  simp only [List.count_append] at h0 h1 h2 h3 ⊢
  omega

end ManagerView

/-! ## Jobs -/

/-- The process that a step of a job adds. -/
def ProcessManager.JobEvent.added : ProcessManager.JobEvent → List ℕ
  | .createOk pid => [pid]
  | _ => []

namespace Engine
variable {v v' : ManagerView} {t : Task} {jobs : List Job} {i : ℕ} {j : Job}
  {ev : ProcessManager.JobEvent}

open ManagerView

/-- A name that a job is about to cache is not cached. -/
theorem not_mem_cells_of_given (hnd : v.liveNames.Nodup) (hj : j ∈ v.jobs) {n : String}
    (hn : j.given = some n) : n ∉ v.cells.map Prod.fst := fun hmem =>
  (List.nodup_append.1 hnd).2.2 n hmem n (List.mem_filterMap.2 ⟨j, hj, hn⟩) rfl

/-- The cache after a process was changed. -/
theorem cells_recache {c : Change} (hnd : v.liveNames.Nodup) (hj : .changed c ∈ v.jobs) :
    ((v.uncache c.oldName).cache c.newName c.pid).cells =
      (v.uncache c.oldName).cells ++ [(c.newName, c.pid)] :=
  cells_cache (fun hn => not_mem_cells_of_given hnd hj rfl ((map_fst_uncache v _).subset hn)) _

/-- A step of a job adds the process that it creates, and frees the one that it
    releases. -/
theorem flow_of_job (ht : v.task = some (t, jobs)) (hi : jobs[i]? = some j)
    (hj : ProcessManager.JobCase v t jobs i j ev v') (hnd : v.liveNames.Nodup)
    (hrec : ∀ c, j = .changed c → v.Cached c.oldName c.pid) : Flow v v' ev.added := by
  obtain ⟨rest, hperm, hset, herase⟩ := exists_rest hi
  have hmem : j ∈ v.jobs := jobs_eq_of_task ht ▸ List.mem_of_getElem? hi
  rw [← jobs_eq_of_task ht] at hperm
  have hnil : ∀ {w : ManagerView}, w.frees = v.frees → w.frees = v.frees ++ [] :=
    fun h => h.trans (List.append_nil _).symm
  cases hj with
  | name | rename | changeKill | changeDone | closeKill | closeDone =>
    exact flow_of_jobs [_] [] hperm (hset _) (hnil rfl) (List.Perm.refl _)
  | createOk =>
    refine flow_of_jobs [_] [] hperm (hset _) (hnil rfl) ?_
    show (v.cells.map Prod.snd ++ [_]).Perm (_ :: (v.cells.map Prod.snd ++ []))
    rw [List.append_nil]
    exact List.perm_append_singleton _ _
  | createFail | meet | changeFail | closeFail =>
    exact flow_of_jobs [] [] hperm herase (hnil rfl) (List.Perm.refl _)
  | @cache key name pid =>
    refine flow_of_jobs [] [] hperm herase (hnil rfl) ?_
    have hcells := cells_cache (not_mem_cells_of_given hnd hmem rfl) pid
    show ((v.cache name pid).cells.map Prod.snd ++ []).Perm (v.cells.map Prod.snd ++ [pid])
    rw [hcells, List.map_append, List.append_nil]
    rfl
  | @recache c =>
    refine flow_of_jobs [] [] hperm herase (hnil rfl) ?_
    show (((v.uncache c.oldName).cache c.newName c.pid).cells.map Prod.snd ++ []).Perm
      (v.cells.map Prod.snd ++ [])
    rw [cells_recache hnd hmem, List.map_append, List.append_nil, List.append_nil]
    have hold := (cells_perm_uncache hnd (hrec c rfl)).map Prod.snd
    exact (List.perm_append_singleton _ _).trans hold.symm
  | @release pid pid' key name hcd =>
    refine flow_of_jobs [] [pid'] hperm herase rfl ?_
    show ([pid'] ++ ((v.uncache name).cells.map Prod.snd ++ [])).Perm (v.cells.map Prod.snd ++ [])
    rw [List.append_nil, List.append_nil]
    exact ((cells_perm_uncache hnd hcd).map Prod.snd).symm

theorem creating_of_job (ht : v.task = some (t, jobs)) (hi : jobs[i]? = some j)
    (hj : ProcessManager.JobCase v t jobs i j ev v') :
    v'.creating + ev.added.length ≤ v.creating := by
  obtain ⟨rest, hperm, hset, herase⟩ := exists_rest hi
  rw [← jobs_eq_of_task ht] at hperm
  have hcons : ∀ y, (y :: rest).countP Job.creates =
      [y].countP Job.creates + rest.countP Job.creates := by
    intro y
    rw [← List.singleton_append, List.countP_append]
  have hcount : v.creating = _ := (hperm.countP_eq _).trans (hcons j)
  have hnext : ∀ y, (jobs.set i y).countP Job.creates = _ :=
    fun y => ((hset y).countP_eq _).trans (hcons y)
  have hgone : (jobs.eraseIdx i).countP Job.creates = rest.countP Job.creates := herase.countP_eq _
  rw [hcount]
  cases hj with
  | name | rename | changeKill | changeDone | closeKill | closeDone =>
    exact (hnext _).le
  | createOk =>
    refine (Nat.add_le_add_right (hnext _).le 1).trans ?_
    simp [Job.creates, Nat.add_comm]
  | createFail | meet | changeFail | closeFail | cache | recache | release _ =>
    exact hgone.le.trans (Nat.le_add_left _ _)

/-- No name becomes live twice. -/
theorem nodup_of_job (ht : v.task = some (t, jobs)) (hi : jobs[i]? = some j)
    (hj : ProcessManager.JobCase v t jobs i j ev v') (hnd : v.liveNames.Nodup)
    (hnew : ∀ n, j.added ev = some n → n ∉ v.liveNames) : v'.liveNames.Nodup := by
  obtain ⟨rest, hperm, hset, herase⟩ := exists_rest hi
  have hmem : j ∈ v.jobs := jobs_eq_of_task ht ▸ List.mem_of_getElem? hi
  rw [← jobs_eq_of_task ht] at hperm
  cases hj with
  | name | rename | changeDone | closeKill | closeDone =>
    exact nodup_of_jobs [] [_] hnd hperm (hset _) (List.Subperm.refl _)
  | createOk | changeKill =>
    refine nodup_of_jobs [_] [_] (List.nodup_cons.2 ⟨hnew _ rfl, hnd⟩) hperm
      (hset _) (List.Perm.subperm ?_)
    show (v.cells.map Prod.fst ++ [_]).Perm (_ :: (v.cells.map Prod.fst ++ []))
    rw [List.append_nil]
    exact List.perm_append_singleton _ _
  | createFail | meet | changeFail | closeFail =>
    exact nodup_of_jobs [] [] hnd hperm herase (List.Subperm.refl _)
  | @cache key name pid =>
    refine nodup_of_jobs [] [] hnd hperm herase ?_
    have hcells := cells_cache (not_mem_cells_of_given hnd hmem rfl) pid
    show ((v.cache name pid).cells.map Prod.fst ++ []).Subperm (v.cells.map Prod.fst ++ [name])
    rw [hcells, List.map_append, List.append_nil]
    exact List.Subperm.refl _
  | @recache c =>
    refine nodup_of_jobs [] [] hnd hperm herase ?_
    show (((v.uncache c.oldName).cache c.newName c.pid).cells.map Prod.fst ++ []).Subperm
      (v.cells.map Prod.fst ++ [c.newName])
    rw [cells_recache hnd hmem, List.map_append, List.append_nil]
    exact ((map_fst_uncache v _).append_right _).subperm
  | @release pid pid' key name hcd =>
    refine nodup_of_jobs [] [] hnd hperm herase ?_
    exact ((map_fst_uncache v name).append_right _).subperm

/-! ## Other steps -/

/-- The jobs of a handler that starts have made nothing and given no name. -/
theorem filterMap_startJobs {β : Type} {f : Job → Option β} (hs : ProcessManager.StartJobs v t jobs)
    (hcreate : ∀ key, f (.create key) = none) (hchange : ∀ pid key, f (.change pid key) = none)
    (hclose : ∀ pid, f (.close pid) = none) : jobs.filterMap f = [] := by
  refine List.filterMap_eq_nil_iff.2 fun j hj => ?_
  rcases hs j hj with ⟨-, ⟨key, rfl⟩ | ⟨n, pid, key, rfl, -⟩⟩ | ⟨-, n, pid, rfl, -⟩
  · exact hcreate key
  · exact hchange pid key
  · exact hclose pid

/-- A turn adds no process; the one that has exited is freed. -/
theorem flow_of_turn (hc : ProcessManager.TurnCase v v') (hnd : v.liveNames.Nodup) :
    Flow v v' [] := by
  cases hc with
  | stay _ => exact Flow.refl rfl rfl rfl
  | @start events t jobs hno _ hs =>
    refine ⟨[], (List.append_nil _).symm, ?_⟩
    unfold managed
    have hmade : jobs.filterMap Job.madePid = [] :=
      filterMap_startJobs hs (fun _ => rfl) (fun _ _ => rfl) fun _ => rfl
    rw [hno]
    show (v.cells.map Prod.snd ++ jobs.filterMap Job.madePid).Perm _
    rw [hmade]
    exact List.Perm.refl _
  | finish hno =>
    refine ⟨[], (List.append_nil _).symm, ?_⟩
    unfold managed
    rw [hno]
    exact List.Perm.refl _
  | @exit msg rest pid htask hev hcd =>
    refine ⟨[pid], rfl, ?_⟩
    have hperm := (cells_perm_uncache hnd hcd).map Prod.snd
    exact (hperm.append_right _).symm

theorem nodup_of_turn (hc : ProcessManager.TurnCase v v') (hnd : v.liveNames.Nodup) :
    v'.liveNames.Nodup := by
  cases hc with
  | stay _ => exact hnd
  | @start events t jobs hno _ hs =>
    have hgiven : jobs.filterMap Job.given = [] :=
      filterMap_startJobs hs (fun _ => rfl) (fun _ _ => rfl) fun _ => rfl
    refine hnd.sublist ?_
    show (v.cells.map Prod.fst ++ jobs.filterMap Job.given).Sublist _
    rw [hgiven]
    exact (List.nil_sublist _).append_left _
  | finish hno => exact hnd.sublist ((List.nil_sublist _).append_left _)
  | @exit msg rest pid htask hev hcd =>
    exact hnd.sublist ((map_fst_uncache v msg.processName).append_right _)

/-- A process that moves between idle and busy is cached under the same name. -/
theorem cells_changeProcessState {pm pm' : ProcessManager} {name : String} {toBusy : Bool}
    {key : RequestGroupKey} (hnd : pm.view.liveNames.Nodup)
    (h : pm.changeProcessState found name toBusy key = some pm') :
    pm'.view.cells.Perm pm.view.cells := by
  obtain ⟨pid, hpid, hv⟩ := ProcessManager.view_changeProcessState_eq h
  have hcells := (List.nodup_append.1 hnd).1
  unfold cells at hcells ⊢
  rw [List.map_append] at hcells
  have hdisj := (List.nodup_append.1 hcells).2.2
  cases toBusy with
  | true =>
    have hpid : pm.view.idle.get? name = some pid := hpid
    rw [if_pos rfl] at hv
    have hk : name ∉ pm.view.busy.keys := fun hn =>
      hdisj name (LinkedMap.mem_keys_iff.2 ⟨pid, hpid⟩) name hn rfl
    have hmove := LinkedMap.perm_cons_filter pm.view.idle.nodup (LinkedMap.get?_eq_some.1 hpid)
    rw [hv]
    dsimp only
    rw [LinkedMap.entries_put_of_not_mem pid hk, ← List.append_assoc]
    refine (List.perm_append_singleton _ _).trans ?_
    exact (hmove.append_right pm.view.busy.entries).symm
  | false =>
    have hpid : pm.view.busy.get? name = some pid := hpid
    rw [if_neg Bool.false_ne_true] at hv
    have hk : name ∉ pm.view.idle.keys := fun hn =>
      hdisj name hn name (LinkedMap.mem_keys_iff.2 ⟨pid, hpid⟩) rfl
    have hmove := LinkedMap.perm_cons_filter pm.view.busy.nodup (LinkedMap.get?_eq_some.1 hpid)
    rw [hv]
    dsimp only
    rw [LinkedMap.entries_put_of_not_mem pid hk, List.append_assoc]
    exact (hmove.append_left pm.view.idle.entries).symm

end Engine

/-! ## The limit -/

namespace ProcessManager
variable {found : String → Bool} {pm pm' : ProcessManager} {key : RequestGroupKey} {t : Task}

/-- What a turn means for the limit: it stays, and a handler that starts creates no
    more processes than there is room for. -/
structure Limited (pm pm' : ProcessManager) : Prop where
  limit : pm'.maxProcessNum = pm.maxProcessNum
  room : pm'.view.creating ≤ pm.view.creating ∨ (pm.view.jobs = [] ∧
    ((pm.view.cells.length + pm'.view.creating : ℕ) : ℤ) ≤ pm.maxProcessNum)

/-- A handler that starts and creates nothing. -/
theorem limited_of_none (hlim : pm'.maxProcessNum = pm.maxProcessNum)
    (h : ∀ j ∈ pm'.view.jobs, j.creates = false) : Limited pm pm' := by
  have hzero : pm'.view.creating = 0 :=
    List.countP_eq_zero.2 fun j hj hc => by rw [h j hj] at hc; cases hc
  exact ⟨hlim, Or.inl (hzero ▸ Nat.zero_le _)⟩

theorem handleGetProcessReq_limited {msg : GetProcessReqMsg} {rest : List ManagerEvent}
    (ht : pm.task = none) (h : handleGetProcessReq found { pm with eventCh := rest } msg = .ok pm') :
    Limited pm pm' := by
  unfold handleGetProcessReq at h
  split_ifs at h
  · obtain rfl := Except.ok.inj h
    refine ⟨maxProcessNum_of_settings (settings_removeFromWaitingGroup _ _), Or.inl ?_⟩
    rw [view_removeFromWaitingGroup]
    exact le_rfl
  · dsimp only at h
    split_ifs at h with hav hneg
    · obtain rfl := Except.ok.inj h
      refine ⟨rfl, Or.inr ⟨jobs_view_of_no_task ht, ?_⟩⟩
      have hcount : ∀ (n : ℕ) (key : RequestGroupKey),
          (List.replicate n (Job.create key)).countP Job.creates = n := by
        intro n key
        rw [List.countP_replicate]
        rfl
      unfold getAvailableProcessNum at hav hneg ⊢
      rw [ManagerView.length_cells, ManagerView.creating]
      dsimp only [view, ManagerView.jobs, Option.map_some, Option.getD_some] at hav hneg ⊢
      rw [hcount]
      omega
    · obtain rfl := Except.ok.inj h
      exact ⟨rfl, Or.inl (Nat.zero_le _)⟩

/-- Every turn keeps to the limit. -/
theorem turn_limited {a : Action} (ha : a.IsTurn = true) (h : act found pm a = .ok pm') :
    Limited pm pm' := by
  cases act_case h with
  | putMsg | job | unchanged | changed => cases ha
  | quiet => exact ⟨rfl, Or.inl le_rfl⟩
  | request ht _ h => exact handleGetProcessReq_limited ht h
  | @exit _ _ pm₁ _ _ hc =>
    obtain ⟨pid, -, hv⟩ := view_closeSandbox hc
    have hlim := maxProcessNum_of_settings (settings_closeSandbox hc)
    refine ⟨hlim, Or.inl ?_⟩
    show pm₁.view.creating ≤ _
    rw [hv]
    exact le_rfl
  | clean =>
    refine limited_of_none rfl fun j hj => ?_
    obtain ⟨pid, -, rfl⟩ := List.mem_map.1 hj
    rfl
  | allocateIdle =>
    refine limited_of_none rfl fun j hj => ?_
    have hj : j ∈ List.zipWith Job.change _ _ := hj
    rw [← List.map_uncurry_zip_eq_zipWith] at hj
    obtain ⟨⟨pid, key⟩, -, rfl⟩ := List.mem_map.1 hj
    rfl
  | allocateNew _ n ht hn =>
    refine ⟨rfl, Or.inr ⟨jobs_view_of_no_task ht, ?_⟩⟩
    have hcount : ((pm.waitingRequestGroups.take n).map Job.create).countP Job.creates ≤ n := by
      refine List.countP_le_length.trans ?_
      rw [List.length_map]
      exact List.length_take_le _ _
    unfold getAvailableProcessNum at hn
    rw [ManagerView.length_cells, ManagerView.creating]
    dsimp only [view, ManagerView.jobs, Option.map_some, Option.getD_some]
    omega
  | @advance t ht =>
    cases t with
    | getProcess msg need idleAsked =>
      cases idleAsked with
      | false =>
        refine limited_of_none rfl fun j hj => ?_
        have hj : j ∈ (if 0 < need ∧ 0 < pm.idleProcesses.size then
            (pm.idleProcesses.peek (min need pm.idleProcesses.size).toNat).map (Job.change · msg.key)
          else []) := hj
        split_ifs at hj
        · obtain ⟨pid, -, rfl⟩ := List.mem_map.1 hj
          rfl
        · cases hj
      | true =>
        unfold finishTask finishGetProcessReq
        dsimp only
        split_ifs
        · exact ⟨rfl, Or.inl (Nat.zero_le _)⟩
        · exact ⟨rfl, Or.inl (Nat.zero_le _)⟩
        · have hmax : (sendProcessReadyResp found { pm with task := none } (msg.processNum - need)
              msg.key).1.maxProcessNum = ({ pm with task := none } : ProcessManager).maxProcessNum :=
            maxProcessNum_of_settings (settings_sendProcessReadyResp _ _ _)
          refine ⟨hmax, Or.inl ?_⟩
          rw [view_sendProcessReadyResp]
          exact Nat.zero_le _
    | allocateIdle => exact ⟨rfl, Or.inl (Nat.zero_le _)⟩
    | allocateNew => exact ⟨rfl, Or.inl (Nat.zero_le _)⟩
    | clean n => exact ⟨rfl, Or.inl (Nat.zero_le _)⟩

end ProcessManager

end VmEngine
