/-
  The maps of a process manager.

  A manager keeps every process in `idleProcesses` or `busyProcesses`, under its name,
  and again in the inner map of `processGroups` for its contract.  Processes are removed
  under the name and contract that they have at that time, and `ChangeSandbox` may have
  given them others since, also when it failed.  The maps agree all the same: a name is
  generated once, together with its contract, and whoever removes a name removes it with
  the contract it was generated for.

  The manager runs with processes of which only the contract and the name are known;
  what becomes of creations, changes and closings is free.
-/
import VmEngine.Core.ManagerView
import VmEngine.Lib.NestedMap
import VmEngine.Lib.Indexed

namespace VmEngine

/-! ## The maps -/

/-- `idleProcesses`, `busyProcesses` and `processGroups`. -/
structure ProcessMaps where
  idle : LinkedMap String ℕ
  busy : LinkedMap String ℕ
  groups : LinkedMap String (LinkedMap String ℕ)

namespace ProcessMaps
variable {m : ProcessMaps} {n name g : String} {pid : ℕ}

/-- The process is managed under the name. -/
def Cached (m : ProcessMaps) (name : String) (pid : ℕ) : Prop :=
  m.idle.get? name = some pid ∨ m.busy.get? name = some pid

/-- `addProcessToCache`. -/
def add (m : ProcessMaps) (g name : String) (pid : ℕ) : ProcessMaps :=
  ⟨m.idle, m.busy.put name pid, m.groups.putIn g name pid⟩

/-- `removeProcessFromCache`. -/
def remove (m : ProcessMaps) (g name : String) : ProcessMaps :=
  ⟨m.idle.remove name, m.busy.remove name, m.groups.removeIn g name⟩

/-- The two directions of `ChangeProcessState`. -/
def setBusy (m : ProcessMaps) (name : String) (pid : ℕ) : ProcessMaps :=
  { m with idle := m.idle.remove name, busy := m.busy.put name pid }

def setIdle (m : ProcessMaps) (name : String) (pid : ℕ) : ProcessMaps :=
  { m with idle := m.idle.put name pid, busy := m.busy.remove name }

/-- **The maps represent one set of named processes**: a name is idle or busy and not
    both, it is in exactly one inner map, with the same process, and no inner map is
    empty. -/
structure Rep (m : ProcessMaps) : Prop where
  apart : ∀ n, m.idle.get? n = none ∨ m.busy.get? n = none
  grouped : ∀ n pid, m.Cached n pid →
    ∃ g, m.groups.at? g n = some pid ∧ ∀ g' pid', m.groups.at? g' n = some pid' → g' = g
  managed : ∀ g n pid, m.groups.at? g n = some pid → m.Cached n pid
  nonempty : m.groups.NoEmpty

/-- The representation, with `K` the group of each name, and all names generated. -/
structure Inv (K : String → String) (cnt : ℕ) (m : ProcessMaps) : Prop where
  apart : ∀ n, m.idle.get? n = none ∨ m.busy.get? n = none
  grouped : ∀ {n pid}, m.Cached n pid → m.groups.at? (K n) n = some pid
  managed : ∀ {g n pid}, m.groups.at? g n = some pid → g = K n ∧ m.Cached n pid
  below : ∀ {n pid}, m.Cached n pid → NameBelow cnt n
  nonempty : m.groups.NoEmpty

variable {K K' : String → String} {cnt cnt' : ℕ}

theorem Inv.rep (h : m.Inv K cnt) : m.Rep where
  apart := h.apart
  grouped n _ hc := ⟨K n, h.grouped hc, fun _ _ hg => (h.managed hg).1⟩
  managed _ _ _ hg := (h.managed hg).2
  nonempty := h.nonempty

theorem inv_empty (K : String → String) (cnt : ℕ) : Inv K cnt ⟨.empty, .empty, .empty⟩ where
  apart _ := Or.inl rfl
  grouped h := by rcases h with h | h <;> cases h
  managed h := by cases h
  below h := by rcases h with h | h <;> cases h
  nonempty := LinkedMap.noEmpty_empty

theorem cached_remove : (m.remove g name).Cached n pid ↔ n ≠ name ∧ m.Cached n pid := by
  unfold Cached remove
  rw [LinkedMap.get?_remove, LinkedMap.get?_remove]
  by_cases h : n = name
  · simp [h]
  · simp [h]

theorem Inv.remove (h : m.Inv K cnt) (hg : K name = g) : (m.remove g name).Inv K cnt where
  apart n := by
    simp only [ProcessMaps.remove, LinkedMap.get?_remove]
    split_ifs
    · exact Or.inl rfl
    · exact h.apart n
  grouped {n pid} hc := by
    obtain ⟨hne, hc⟩ := cached_remove.1 hc
    have hnot : ¬ (K n = g ∧ n = name) := fun h => hne h.2
    rw [ProcessMaps.remove, LinkedMap.at?_removeIn, if_neg hnot]
    exact h.grouped hc
  managed {g' n pid} hat := by
    rw [ProcessMaps.remove, LinkedMap.at?_removeIn] at hat
    split_ifs at hat with hne
    obtain ⟨rfl, hc⟩ := h.managed hat
    refine ⟨rfl, cached_remove.2 ⟨?_, hc⟩⟩
    rintro rfl
    exact hne ⟨hg, rfl⟩
  below hc := h.below (cached_remove.1 hc).2
  nonempty := h.nonempty.removeIn g name

/-- A name that is not cached is in none of the maps. -/
theorem get?_of_not_cached (h : ∀ pid, ¬ m.Cached name pid) :
    m.idle.get? name = none ∧ m.busy.get? name = none := by
  constructor
  · exact Option.eq_none_iff_forall_ne_some.2 fun pid hp => h pid (Or.inl hp)
  · exact Option.eq_none_iff_forall_ne_some.2 fun pid hp => h pid (Or.inr hp)

theorem cached_add (h : ∀ pid, ¬ m.Cached name pid) {pid' : ℕ} :
    (m.add g name pid).Cached n pid' ↔ (n = name ∧ pid' = pid) ∨ m.Cached n pid' := by
  unfold Cached add
  rw [LinkedMap.get?_put]
  split_ifs with hn
  · subst hn
    obtain ⟨hi, hb⟩ := get?_of_not_cached h
    simp [hi, hb, eq_comm]
  · simp [hn]

theorem Inv.add (h : m.Inv K cnt) (hg : K name = g) (hnew : ∀ pid, ¬ m.Cached name pid)
    (hb : NameBelow cnt name) (pid : ℕ) : (m.add g name pid).Inv K cnt where
  apart n := by
    simp only [ProcessMaps.add, LinkedMap.get?_put]
    split_ifs with hn
    · rw [hn]
      exact Or.inl (get?_of_not_cached hnew).1
    · exact h.apart n
  grouped {n pid'} hc := by
    rw [ProcessMaps.add, LinkedMap.at?_putIn]
    rcases (cached_add hnew).1 hc with ⟨rfl, rfl⟩ | hc
    · rw [if_pos ⟨hg, rfl⟩]
    · have hne : ¬ (K n = g ∧ n = name) := fun h => hnew pid' (h.2 ▸ hc)
      rw [if_neg hne]
      exact h.grouped hc
  managed {g' n pid'} hat := by
    rw [ProcessMaps.add, LinkedMap.at?_putIn] at hat
    split_ifs at hat with heq
    · obtain ⟨rfl, rfl⟩ := heq
      cases hat
      exact ⟨hg.symm, (cached_add hnew).2 (Or.inl ⟨rfl, rfl⟩)⟩
    · obtain ⟨hK, hc⟩ := h.managed hat
      exact ⟨hK, (cached_add hnew).2 (Or.inr hc)⟩
  below {n pid'} hc := by
    rcases (cached_add hnew).1 hc with ⟨rfl, -⟩ | hc
    · exact hb
    · exact h.below hc
  nonempty := h.nonempty.putIn g name pid

/-- Moving a name between the idle and the busy ones keeps what is cached. -/
theorem Inv.moved {m' : ProcessMaps} (h : m.Inv K cnt) (hgroups : m'.groups = m.groups)
    (hapart : ∀ n, m'.idle.get? n = none ∨ m'.busy.get? n = none)
    (hc : ∀ n pid, m'.Cached n pid ↔ m.Cached n pid) : m'.Inv K cnt where
  apart := hapart
  grouped hn := by rw [hgroups]; exact h.grouped ((hc _ _).1 hn)
  managed hat := by
    rw [hgroups] at hat
    obtain ⟨hK, hn⟩ := h.managed hat
    exact ⟨hK, (hc _ _).2 hn⟩
  below hn := h.below ((hc _ _).1 hn)
  nonempty := hgroups ▸ h.nonempty

theorem cached_setBusy (hp : m.idle.get? name = some pid) (hb : m.busy.get? name = none) (n : String)
    (pid' : ℕ) : (m.setBusy name pid).Cached n pid' ↔ m.Cached n pid' := by
  unfold Cached setBusy
  rw [LinkedMap.get?_remove, LinkedMap.get?_put]
  split_ifs with hn
  · subst hn
    simp [hp, hb]
  · rfl

theorem cached_setIdle (hp : m.busy.get? name = some pid) (hi : m.idle.get? name = none) (n : String)
    (pid' : ℕ) : (m.setIdle name pid).Cached n pid' ↔ m.Cached n pid' := by
  unfold Cached setIdle
  rw [LinkedMap.get?_remove, LinkedMap.get?_put]
  split_ifs with hn
  · subst hn
    simp [hp, hi]
  · rfl

theorem Inv.busy_none (h : m.Inv K cnt) (hp : m.idle.get? name = some pid) :
    m.busy.get? name = none := by
  rcases h.apart name with hi | hb
  · rw [hp] at hi; cases hi
  · exact hb

theorem Inv.idle_none (h : m.Inv K cnt) (hp : m.busy.get? name = some pid) :
    m.idle.get? name = none := by
  rcases h.apart name with hi | hb
  · exact hi
  · rw [hp] at hb; cases hb

theorem Inv.setBusy (h : m.Inv K cnt) (hp : m.idle.get? name = some pid) :
    (m.setBusy name pid).Inv K cnt := by
  refine h.moved rfl (fun n => ?_) (cached_setBusy hp (h.busy_none hp))
  simp only [ProcessMaps.setBusy, LinkedMap.get?_remove, LinkedMap.get?_put]
  split_ifs
  · exact Or.inl rfl
  · exact h.apart n

theorem Inv.setIdle (h : m.Inv K cnt) (hp : m.busy.get? name = some pid) :
    (m.setIdle name pid).Inv K cnt := by
  refine h.moved rfl (fun n => ?_) (cached_setIdle hp (h.idle_none hp))
  simp only [ProcessMaps.setIdle, LinkedMap.get?_remove, LinkedMap.get?_put]
  split_ifs
  · exact Or.inr rfl
  · exact h.apart n

end ProcessMaps

/-! ## Names and their groups -/

/-- The name was generated for the contract, and `K` knows it. -/
def Named (K : String → String) (cnt : ℕ) (x : RequestGroupKey × String) : Prop :=
  K x.2 = x.1.groupKey ∧ NameBelow cnt x.2

section
variable {K : String → String} {cnt l : ℕ} {key : RequestGroupKey} {o : Bool}

/-- `K` after the next name is generated. -/
def learn (K : String → String) (cnt l : ℕ) (key : RequestGroupKey) (o : Bool) : String → String :=
  Function.update K (constructProcessName key l (cnt + 1) o) key.groupKey

theorem learn_of_below {n : String} (h : NameBelow cnt n) : learn K cnt l key o n = K n := by
  refine Function.update_of_ne ?_ _ _
  rintro rfl
  exact not_nameBelow h

theorem Named.learn {x : RequestGroupKey × String} (h : Named K cnt x) :
    Named (learn K cnt l key o) (cnt + 1) x :=
  ⟨(learn_of_below h.2).trans h.1, h.2.mono (Nat.le_succ cnt)⟩

theorem named_learn : Named (learn K cnt l key o) (cnt + 1)
    (key, constructProcessName key l (cnt + 1) o) :=
  ⟨Function.update_self _ _ _, nameBelow_next⟩

theorem ProcessMaps.Inv.learn {m : ProcessMaps} (h : m.Inv K cnt) :
    m.Inv (learn K cnt l key o) (cnt + 1) where
  apart := h.apart
  grouped hc := by rw [learn_of_below (h.below hc)]; exact h.grouped hc
  managed hat := by
    obtain ⟨hK, hc⟩ := h.managed hat
    exact ⟨hK.trans (learn_of_below (h.below hc)).symm, hc⟩
  below hc := (h.below hc).mono (Nat.le_succ cnt)
  nonempty := h.nonempty

end

/-! ## Jobs -/

namespace Job

/-- The contract and name under which the job will cache a process. -/
def newName : Job → Option (RequestGroupKey × String)
  | .named key name | .made key name _ => some (key, name)
  | .renamed c | .killed c | .changed c => some (c.key, c.newName)
  | _ => none

/-- The contract and name that the process had when the job read them. -/
def oldName : Job → Option (RequestGroupKey × String)
  | .renamed c | .killed c | .changed c => some (c.oldKey, c.oldName)
  | _ => none

end Job

/-- The jobs have different names that are not cached yet. -/
structure JobsNamed (K : String → String) (cnt : ℕ) (m : ProcessMaps) (jobs : List Job) : Prop where
  fresh : ∀ j ∈ jobs, ∀ x ∈ j.newName, Named K cnt x ∧ ∀ pid, ¬ m.Cached x.2 pid
  nodup : (jobs.filterMap fun j => j.newName.map Prod.snd).Nodup
  old : ∀ j ∈ jobs, ∀ x ∈ j.oldName, Named K cnt x

namespace JobsNamed
variable {K : String → String} {cnt l : ℕ} {m m' : ProcessMaps} {j j' : Job} {jobs jobs' rest : List Job}
  {key : RequestGroupKey} {o : Bool}

theorem perm (h : JobsNamed K cnt m jobs) (hp : jobs.Perm jobs') : JobsNamed K cnt m jobs' where
  fresh j hj := h.fresh j (hp.mem_iff.2 hj)
  nodup := (hp.filterMap _).nodup_iff.1 h.nodup
  old j hj := h.old j (hp.mem_iff.2 hj)

/-- Jobs that have not read or generated a name. -/
theorem of_starting (h : ∀ j ∈ jobs, j.newName = none ∧ j.oldName = none) : JobsNamed K cnt m jobs where
  fresh j hj x hx := by rw [(h j hj).1] at hx; cases hx
  nodup := by
    have hnil : jobs.filterMap (fun j => j.newName.map Prod.snd) = [] :=
      List.filterMap_eq_nil_iff.2 fun j hj => by rw [(h j hj).1]; rfl
    rw [hnil]
    exact List.nodup_nil
  old j hj x hx := by rw [(h j hj).2] at hx; cases hx

theorem erase (h : JobsNamed K cnt m (j :: rest)) : JobsNamed K cnt m rest where
  fresh i hi := h.fresh i (List.mem_cons_of_mem _ hi)
  nodup := h.nodup.sublist ((List.sublist_cons_self j rest).filterMap _)
  old i hi := h.old i (List.mem_cons_of_mem _ hi)

/-- A job goes on under its names. -/
theorem next (h : JobsNamed K cnt m (j :: rest)) (hn : j'.newName = j.newName)
    (ho : j'.oldName = j.oldName) : JobsNamed K cnt m (j' :: rest) where
  fresh := by
    have hfresh := h.fresh
    rw [List.forall_mem_cons] at hfresh ⊢
    exact ⟨hn ▸ hfresh.1, hfresh.2⟩
  nodup := by
    have hnodup := h.nodup
    rw [List.filterMap_cons] at hnodup ⊢
    rwa [hn]
  old := by
    have hold := h.old
    rw [List.forall_mem_cons] at hold ⊢
    exact ⟨ho ▸ hold.1, hold.2⟩

/-- A job gets the next name. -/
theorem name (h : JobsNamed K cnt m (j :: rest)) (hm : m.Inv K cnt)
    (hn : j'.newName = some (key, constructProcessName key l (cnt + 1) o))
    (ho : ∀ x ∈ j'.oldName, Named K cnt x) :
    JobsNamed (learn K cnt l key o) (cnt + 1) m (j' :: rest) where
  fresh := by
    refine List.forall_mem_cons.2 ⟨fun x hx => ?_, fun i hi x hx => ?_⟩
    · rw [hn] at hx
      cases hx
      exact ⟨named_learn, fun pid hc => not_nameBelow (hm.below hc)⟩
    · exact ⟨(h.erase.fresh i hi x hx).1.learn, (h.erase.fresh i hi x hx).2⟩
  nodup := by
    rw [List.filterMap_cons, hn]
    refine List.nodup_cons.2 ⟨fun hmem => ?_, h.erase.nodup⟩
    obtain ⟨i, hi, heq⟩ := List.mem_filterMap.1 hmem
    obtain ⟨x, hx, hname⟩ := Option.map_eq_some_iff.1 heq
    have hbelow := (h.erase.fresh i hi x hx).1.2
    rw [hname] at hbelow
    exact not_nameBelow hbelow
  old := by
    refine List.forall_mem_cons.2 ⟨fun x hx => (ho x hx).learn, fun i hi x hx => ?_⟩
    exact (h.erase.old i hi x hx).learn

/-- The jobs when the cache changes: only the name of a job that ends is new there. -/
theorem done (h : JobsNamed K cnt m (j :: rest))
    (hc : ∀ n pid, m'.Cached n pid → m.Cached n pid ∨ ∃ x ∈ j.newName, n = x.2) :
    JobsNamed K cnt m' rest where
  fresh i hi x hx := by
    obtain ⟨hnamed, hnot⟩ := h.erase.fresh i hi x hx
    refine ⟨hnamed, fun pid hcached => ?_⟩
    rcases hc _ pid hcached with hcached | ⟨y, hy, heq⟩
    · exact hnot pid hcached
    · have hnodup := h.nodup
      rw [List.filterMap_cons, Option.mem_def.1 hy] at hnodup
      refine (List.nodup_cons.1 hnodup).1 (List.mem_filterMap.2 ⟨i, hi, ?_⟩)
      rw [Option.mem_def.1 hx, Option.map_some, heq]
  nodup := h.erase.nodup
  old := h.erase.old

end JobsNamed

/-! ## A manager with its processes -/

/-- A manager, and the contract and name of each process. -/
structure Managed where
  pm : ProcessManager
  fields : List (RequestGroupKey × String)

namespace Managed

def new (maxProcessNum releaseNum : ℤ) (isOrigManager : Bool) : Managed :=
  ⟨.new maxProcessNum releaseNum isOrigManager, []⟩

def jobs (pm : ProcessManager) : List Job := (pm.task.map Prod.snd).getD []

/-- What a job does next; `ok` is the result of `createNewProcess`, `ChangeSandbox` or
    `CloseSandbox`. -/
def jobEvent (fields : List (RequestGroupKey × String)) (ok : Bool) :
    Job → Option ProcessManager.JobEvent
  | .create _ => some .nameNew
  | .named _ _ => some (if ok then .createOk fields.length else .createFail)
  | .made _ _ _ => some .cacheNew
  | .change pid _ => fields[pid]?.map fun x => .nameChange x.1 x.2
  | .renamed _ => some (if ok then .changeKill else .changeFail)
  | .killed _ => some .changeDone
  | .changed _ => some .recache
  | .close _ => some (if ok then .closeKill else .closeFail)
  | .closeKilled _ => some .closeDone
  | .closed pid => fields[pid]?.map fun x => .release x.1 x.2

/-- A new process has the contract and name of its job.  A changed one too, and one
    whose change failed may have them. -/
def fieldsAfter (fields : List (RequestGroupKey × String)) (ok renamed : Bool) :
    Job → List (RequestGroupKey × String)
  | .named key name => if ok then fields ++ [(key, name)] else fields
  | .renamed c => if ok || renamed then fields.set c.pid (c.key, c.newName) else fields
  | _ => fields

inductive Action where
  /-- a step of the manager's own goroutine; `found` tells for which keys the scheduler
      has a request group -/
  | turn (a : ProcessManager.Action) (found : String → Bool)
  | getProcessReq (msg : GetProcessReqMsg)
  /-- a process reports its exit -/
  | sandboxExit (pid : ℕ)
  /-- a step of the job at position `i` -/
  | job (i : ℕ) (ok renamed : Bool) (found : String → Bool)
  | changeProcessState (name : String) (toBusy : Bool) (key : RequestGroupKey) (found : String → Bool)

def putMsg (s : Managed) (e : ManagerEvent) : Managed :=
  { s with pm := { s.pm with eventCh := s.pm.eventCh ++ [e] } }

def act (s : Managed) : Action → Go Managed
  | .turn a found =>
    if a.IsTurn then do
      let pm ← s.pm.act found a
      return { s with pm := pm }
    else .error .blocks
  | .getProcessReq msg => .ok (s.putMsg (.getProcessReq msg))
  | .sandboxExit pid =>
    match s.fields[pid]? with
    | none => .error .blocks
    | some x => .ok (s.putMsg (.sandboxExit ⟨x.1, x.2⟩))
  | .job i ok renamed found =>
    match (jobs s.pm)[i]? with
    | none => .error .blocks
    | some j =>
      match jobEvent s.fields ok j with
      | none => .error .blocks
      | some e => do
        let pm ← ProcessManager.stepJob found s.pm i e
        return ⟨pm, fieldsAfter s.fields ok renamed j⟩
  | .changeProcessState name toBusy key found => do
    let pm ← s.pm.act found (.changeProcessState name toBusy key)
    return { s with pm := pm }

def step (s : Managed) (a : Action) : Option Managed := (act s a).toOption

end Managed

/-! ## What the steps do to the maps -/

/-- The maps with the counter of the names, the messages and the running task. -/
structure MapsView where
  maps : ProcessMaps
  processCnt : ℕ
  eventCh : List ManagerEvent
  task : Option (Task × List Job)

def MapsView.jobs (v : MapsView) : List Job := (v.task.map Prod.snd).getD []

namespace ProcessManager
variable {found : String → Bool} {pm pm' : ProcessManager} {key : RequestGroupKey} {name : String}
  {pid : ℕ}

def mapsView (pm : ProcessManager) : MapsView :=
  ⟨⟨pm.idleProcesses, pm.busyProcesses, pm.processGroups⟩, pm.processCnt, pm.eventCh, pm.task⟩

theorem mapsView_sendProcessReadyResp (pm : ProcessManager) (n : ℤ) (key : RequestGroupKey) :
    (sendProcessReadyResp found pm n key).1.mapsView = pm.mapsView := by
  unfold sendProcessReadyResp
  split_ifs <;> rfl

theorem mapsView_removeFromWaitingGroup (pm : ProcessManager) (key : RequestGroupKey) :
    (removeFromWaitingGroup found pm key).mapsView = pm.mapsView := mapsView_sendProcessReadyResp _ _ _

theorem mapsView_addProcessToCache (pm : ProcessManager) (key : RequestGroupKey) (name : String)
    (pid : ℕ) : (addProcessToCache pm key name pid).mapsView =
      { pm.mapsView with maps := pm.mapsView.maps.add key.groupKey name pid } := rfl

theorem mapsView_removeProcessFromCache (pm : ProcessManager) (key : RequestGroupKey) (name : String) :
    (removeProcessFromCache found pm key name).mapsView =
      { pm.mapsView with maps := pm.mapsView.maps.remove key.groupKey name } := by
  unfold removeProcessFromCache removeFromProcessGroup
  dsimp only
  split
  · rename_i hg
    simp only [mapsView, ProcessMaps.remove, LinkedMap.removeIn, hg]
  · rename_i inner hg
    split_ifs with hsize
    · rw [mapsView_removeFromWaitingGroup]
      simp only [mapsView, ProcessMaps.remove, LinkedMap.removeIn, hg, hsize, if_true]
    · simp only [mapsView, ProcessMaps.remove, LinkedMap.removeIn, hg, hsize, if_false]

theorem mapsView_closeSandbox (h : closeSandbox found pm key name = .ok pm') :
    pm'.mapsView = { pm.mapsView with maps := pm.mapsView.maps.remove key.groupKey name } := by
  unfold closeSandbox at h
  split at h
  · cases h
  · obtain rfl := Except.ok.inj h
    rw [mapsView_removeProcessFromCache]
    rfl

theorem mapsView_addProcessToIdle (pm : ProcessManager) (name : String) (pid : ℕ)
    (key : RequestGroupKey) : (addProcessToIdle found pm name pid key).mapsView =
      { pm.mapsView with maps := { pm.mapsView.maps with
        idle := pm.mapsView.maps.idle.put name pid } } := by
  unfold addProcessToIdle
  dsimp only
  split_ifs
  · exact mapsView_removeFromWaitingGroup _ _
  · exact mapsView_removeFromWaitingGroup _ _
  · rfl
  · rfl

theorem mapsView_changeProcessState {toBusy : Bool}
    (h : changeProcessState found pm name toBusy key = some pm') :
    (∃ pid, pm.mapsView.maps.idle.get? name = some pid ∧
      pm'.mapsView = { pm.mapsView with maps := pm.mapsView.maps.setBusy name pid }) ∨
    ∃ pid, pm.mapsView.maps.busy.get? name = some pid ∧
      pm'.mapsView = { pm.mapsView with maps := pm.mapsView.maps.setIdle name pid } := by
  unfold changeProcessState at h
  split_ifs at h
  · obtain ⟨pid, hpid, rfl⟩ := Option.map_eq_some_iff.1 h
    exact Or.inl ⟨pid, hpid, rfl⟩
  · obtain ⟨pid, hpid, rfl⟩ := Option.map_eq_some_iff.1 h
    refine Or.inr ⟨pid, hpid, ?_⟩
    generalize hpm₁ : addProcessToIdle found pm name pid key = pm₁
    have hidle := @mapsView_addProcessToIdle found pm name pid key
    rw [hpm₁] at hidle
    have hbusy : pm₁.busyProcesses = pm.busyProcesses := congrArg (·.maps.busy) hidle
    calc _ = { pm₁.mapsView with maps :=
            { pm₁.mapsView.maps with busy := pm₁.busyProcesses.remove name } } := rfl
      _ = _ := by rw [hidle, hbusy]; rfl

/-- What a step of a job does. -/
inductive JobEffect (v : MapsView) (o : Bool) (j : Job) (e : JobEvent) :
    ProcessMaps → ℕ → Option Job → Prop
  /-- the job ends or goes on under its names -/
  | same {next : Option Job} : (∀ j' ∈ next, j'.newName = j.newName ∧ j'.oldName = j.oldName) →
      JobEffect v o j e v.maps v.processCnt next
  | name {j' : Job} (key : RequestGroupKey) (l : ℕ) : j.newName = none →
      j'.newName = some (key, constructProcessName key l (v.processCnt + 1) o) →
      (∀ x ∈ j'.oldName, e = .nameChange x.1 x.2) →
      JobEffect v o j e v.maps (v.processCnt + 1) (some j')
  | add (x : RequestGroupKey × String) (pid : ℕ) : j.newName = some x →
      JobEffect v o j e (v.maps.add x.1.groupKey x.2 pid) v.processCnt none
  | move (x y : RequestGroupKey × String) (pid : ℕ) : j.newName = some x → j.oldName = some y →
      JobEffect v o j e ((v.maps.remove y.1.groupKey y.2).add x.1.groupKey x.2 pid) v.processCnt none
  | remove (x : RequestGroupKey × String) : e = .release x.1 x.2 →
      JobEffect v o j e (v.maps.remove x.1.groupKey x.2) v.processCnt none

theorem mapsView_moveInCache (pm : ProcessManager) (c : Change) :
    (moveInCache found pm c).mapsView = { pm.mapsView with
      maps := (pm.mapsView.maps.remove c.oldKey.groupKey c.oldName).add c.key.groupKey c.newName
        c.pid } := by
  unfold moveInCache
  rw [mapsView_addProcessToCache, mapsView_removeProcessFromCache]

theorem mapsView_recache (pm : ProcessManager) (t : Task) (c : Change) :
    (recache found pm t c).mapsView = pm.mapsView ∨
      (recache found pm t c).mapsView = { pm.mapsView with
        maps := (pm.mapsView.maps.remove c.oldKey.groupKey c.oldName).add c.key.groupKey c.newName
          c.pid } := by
  unfold recache
  split
  · exact Or.inr (mapsView_moveInCache _ _)
  · dsimp only
    split_ifs
    · right
      rw [mapsView_moveInCache, mapsView_removeFromWaitingGroup, mapsView_sendProcessReadyResp]
    · exact Or.inl (mapsView_sendProcessReadyResp _ _ _)

theorem mapsView_cacheNew (pm : ProcessManager) (t : Task) (key : RequestGroupKey) (name : String)
    (pid : ℕ) : (cacheNew found pm t key name pid).mapsView =
      { pm.mapsView with maps := pm.mapsView.maps.add key.groupKey name pid } := by
  unfold cacheNew
  split
  · exact mapsView_addProcessToCache _ _ _ _
  · rw [mapsView_addProcessToCache, mapsView_removeFromWaitingGroup]

theorem mapsView_meetIdle (pm : ProcessManager) (t : Task) (key : RequestGroupKey) :
    (meetIdle found pm t key).mapsView = pm.mapsView := by
  unfold meetIdle
  split
  · rfl
  · rw [mapsView_sendProcessReadyResp, mapsView_removeFromWaitingGroup]

/-- `nameNew` gives a name, unless the group is gone. -/
theorem mapsView_nameNew (pm : ProcessManager) (t : Task) (key : RequestGroupKey) :
    ((nameNew found pm t key).1.mapsView = pm.mapsView ∧ (nameNew found pm t key).2 = none) ∨
      ∃ l, (nameNew found pm t key).1.mapsView =
          { pm.mapsView with processCnt := pm.processCnt + 1 } ∧
        (nameNew found pm t key).2 =
          some (.named key (constructProcessName key l (pm.processCnt + 1) pm.isOrigManager)) := by
  have hgen : ∀ pm₁ : ProcessManager, pm₁.mapsView = pm.mapsView →
      pm₁.isOrigManager = pm.isOrigManager →
      ∃ l, (generateProcessName pm₁ key).1.mapsView =
          { pm.mapsView with processCnt := pm.processCnt + 1 } ∧
        (generateProcessName pm₁ key).2 =
          constructProcessName key l (pm.processCnt + 1) pm.isOrigManager := by
    intro pm₁ hview ho
    have hcnt : pm₁.processCnt = pm.processCnt := congrArg (·.processCnt) hview
    rw [← hview, ← ho, ← hcnt]
    exact ⟨_, rfl, rfl⟩
  unfold nameNew
  split
  · dsimp only
    split_ifs
    · have ho : (sendProcessReadyResp found pm 1 key).1.isOrigManager = pm.isOrigManager := by
        unfold sendProcessReadyResp
        split_ifs <;> rfl
      obtain ⟨l, hv, hn⟩ := hgen _ (mapsView_sendProcessReadyResp pm 1 key) ho
      exact Or.inr ⟨l, hv, by rw [hn]⟩
    · exact Or.inl ⟨mapsView_sendProcessReadyResp pm 1 key, rfl⟩
  · obtain ⟨l, hv, hn⟩ := hgen pm rfl rfl
    exact Or.inr ⟨l, hv, by rw [← hn]; rfl⟩

theorem runJob_effect {t t' : Task} {j : Job} {e : JobEvent} {next : Option Job}
    (h : runJob found pm t j e = .ok (pm', t', next)) :
    ∃ m cnt, JobEffect pm.mapsView pm.isOrigManager j e m cnt next ∧
      pm'.mapsView = { pm.mapsView with maps := m, processCnt := cnt } := by
  have hstay : ∀ next : Option Job, (∀ j' ∈ next, j'.newName = j.newName ∧ j'.oldName = j.oldName) →
      ∃ m cnt, JobEffect pm.mapsView pm.isOrigManager j e m cnt next ∧
        pm.mapsView = { pm.mapsView with maps := m, processCnt := cnt } :=
    fun _ h => ⟨_, _, .same h, rfl⟩
  have hend := hstay none fun _ h => by cases h
  cases runJob_case h with
  | @nameNew key =>
    rcases @mapsView_nameNew found pm t key with ⟨hv, hn⟩ | ⟨l, hv, hn⟩
    · rw [hn, hv]
      exact hend
    · rw [hn]
      refine ⟨_, _, .name key l rfl rfl fun x hx => ?_, hv⟩
      cases hx
  | @cacheNew key name pid => exact ⟨_, _, .add (key, name) pid rfl, mapsView_cacheNew _ _ _ _ _⟩
  | meet _ =>
    rw [mapsView_meetIdle]
    exact hend
  | @rename pid key _ _ _ =>
    refine ⟨_, _, .name key _ rfl rfl ?_, rfl⟩
    rintro _ ⟨⟩
    rfl
  | @recache c =>
    rcases @mapsView_recache found pm t c with hv | hv
    · rw [hv]
      exact hend
    · exact ⟨_, _, .move (c.key, c.newName) (c.oldKey, c.oldName) c.pid rfl rfl, hv⟩
  | @release pid key name _ hc => exact ⟨_, _, .remove (key, name) rfl, mapsView_closeSandbox hc⟩
  | createFail | changeFail | closeFail => exact hend
  | createOk | changeKill | changeDone | closeKill | closeDone =>
    exact hstay _ (by rintro _ ⟨⟩; exact ⟨rfl, rfl⟩)

/-- A step of the job at position `i`. -/
theorem stepJob_effect {i : ℕ} {e : JobEvent} (h : stepJob found pm i e = .ok pm') :
    ∃ j m cnt next t, pm.mapsView.jobs[i]? = some j ∧
      JobEffect pm.mapsView pm.isOrigManager j e m cnt next ∧
      pm'.mapsView = { pm.mapsView with
        maps := m, processCnt := cnt
        task := some (t, jobsAfter pm.mapsView.jobs i next) } := by
  obtain ⟨t, jobs, j, pm₁, t₁, next, ht, hj, hr, rfl⟩ := stepJob_run h
  obtain ⟨m, cnt, heff, hv⟩ := runJob_effect hr
  have hjobs : pm.mapsView.jobs = jobs := by
    unfold MapsView.jobs mapsView
    rw [ht]
    rfl
  refine ⟨j, m, cnt, next, t₁, by rw [hjobs]; exact hj, heff, ?_⟩
  rw [hjobs]
  have hset : ∀ task, ({ pm₁ with task := task } : ProcessManager).mapsView =
      { pm₁.mapsView with task := task } := fun _ => rfl
  rw [hset, hv]

/-- What a turn of the manager does: nothing to the maps, or it handles an exit. -/
inductive TurnEffect (v : MapsView) : MapsView → Prop
  | start {events : List ManagerEvent} {task : Option (Task × List Job)} :
      (∀ msg ∈ exitsOf events, msg ∈ exitsOf v.eventCh) →
      (task = v.task ∨ ∀ j ∈ (task.map Prod.snd).getD [], j.newName = none ∧ j.oldName = none) →
      TurnEffect v { v with eventCh := events, task := task }
  | exit {msg : SandboxExitMsg} {rest : List ManagerEvent} : v.eventCh = .sandboxExit msg :: rest →
      TurnEffect v { v with maps := v.maps.remove msg.key.groupKey msg.processName, eventCh := rest }

/-- The end of a task keeps the maps. -/
theorem maps_finishTask (pm : ProcessManager) (t : Task) :
    (finishTask found pm t).mapsView.maps = pm.mapsView.maps := by
  cases t with
  | getProcess msg need idleAsked =>
    cases idleAsked with
    | false => rfl
    | true =>
      unfold finishTask finishGetProcessReq
      dsimp only
      split_ifs
      · rfl
      · rfl
      · rw [mapsView_sendProcessReadyResp]
        rfl
  | allocateIdle | allocateNew | clean n => rfl

theorem maps_handleGetProcessReq {msg : GetProcessReqMsg}
    (h : handleGetProcessReq found pm msg = .ok pm') : pm'.mapsView.maps = pm.mapsView.maps := by
  unfold handleGetProcessReq at h
  split_ifs at h
  · obtain rfl := Except.ok.inj h
    rw [mapsView_removeFromWaitingGroup]
  · dsimp only at h
    split_ifs at h <;> cases h <;> rfl

/-- Every turn of a manager: one that keeps the maps is a turn of the view. -/
theorem turn_effect {a : Action} (ha : a.IsTurn = true) (h : act found pm a = .ok pm') :
    TurnEffect pm.mapsView pm'.mapsView := by
  have hkeep : pm'.mapsView.maps = pm.mapsView.maps ∨ TurnEffect pm.mapsView pm'.mapsView := by
    cases act_case h with
    | putMsg | job | unchanged | changed => cases ha
    | quiet | clean | allocateIdle | allocateNew => exact Or.inl rfl
    | request _ _ h =>
      have hmaps := maps_handleGetProcessReq h
      exact Or.inl hmaps
    | advance _ => exact Or.inl (maps_finishTask pm _)
    | @exit _ _ pm₁ _ hev hc =>
      have hset : ({ pm₁ with allocateNewCh := pm₁.allocateNewCh + 1 } : ProcessManager).mapsView =
          pm₁.mapsView := rfl
      rw [hset, mapsView_closeSandbox hc]
      exact Or.inr (.exit hev)
  rcases hkeep with hmaps | heff
  · have hview : pm'.mapsView =
        ⟨pm.mapsView.maps, pm'.view.processCnt, pm'.view.eventCh, pm'.view.task⟩ := by
      rw [← hmaps]
      rfl
    have hcase := turn_case ha h
    rw [hview]
    generalize pm'.view = v' at hcase
    cases hcase with
    | stay he => exact .start (fun m hm => (he ▸ hm : m ∈ pm.view.exits)) (Or.inl rfl)
    | start _ he hs =>
      refine .start (fun m hm => (he ▸ hm : m ∈ pm.view.exits)) (Or.inr fun j hj => ?_)
      rcases hs j hj with ⟨-, ⟨_, rfl⟩ | ⟨_, _, _, rfl, -⟩⟩ | ⟨-, _, _, rfl, -⟩ <;> exact ⟨rfl, rfl⟩
    | finish _ => exact .start (fun _ hm => hm) (Or.inr fun j hj => absurd hj List.not_mem_nil)
    | @exit msg rest _ _ hev _ =>
      refine .start (fun m hm => ?_) (Or.inl rfl)
      have hev : pm.mapsView.eventCh = .sandboxExit msg :: rest := hev
      rw [hev]
      exact List.mem_cons_of_mem msg hm
  · exact heff

end ProcessManager

/-! ## The invariant -/

namespace Managed
variable {K : String → String} {s s' : Managed} {a : Action}

/-- Everything that mentions a name mentions it with its contract. -/
structure NamesInv (K : String → String) (v : MapsView) (fields : List (RequestGroupKey × String)) :
    Prop where
  maps : v.maps.Inv K v.processCnt
  jobs : JobsNamed K v.processCnt v.maps v.jobs
  fields : ∀ x ∈ fields, Named K v.processCnt x
  exits : ∀ msg ∈ exitsOf v.eventCh, Named K v.processCnt (msg.key, msg.processName)

variable {v v' : MapsView} {fields fields' : List (RequestGroupKey × String)}

theorem NamesInv.turn (h : NamesInv K v fields) (ht : ProcessManager.TurnEffect v v') :
    NamesInv K v' fields := by
  cases ht with
  | @start events task hev htask =>
    refine ⟨h.maps, ?_, h.fields, fun msg hm => h.exits msg (hev msg hm)⟩
    rcases htask with rfl | htask
    · exact h.jobs
    · exact .of_starting htask
  | @exit msg rest hev =>
    have hnamed := h.exits msg (by rw [hev]; exact List.mem_cons_self)
    refine ⟨h.maps.remove hnamed.1, ?_, h.fields, fun m hm => h.exits m ?_⟩
    · refine ⟨fun j hj x hx => ?_, h.jobs.nodup, h.jobs.old⟩
      obtain ⟨hn, hnot⟩ := h.jobs.fresh j hj x hx
      exact ⟨hn, fun pid hc => hnot pid (ProcessMaps.cached_remove.1 hc).2⟩
    · rw [hev]
      exact List.mem_cons_of_mem _ hm

variable {j : Job} {ok renamed : Bool}

/-- The contract and name that a job leads to are given to its process. -/
theorem named_fieldsAfter (h : ∀ x ∈ fields, Named K v.processCnt x)
    (hj : ∀ x ∈ j.newName, Named K v.processCnt x) :
    ∀ x ∈ fieldsAfter fields ok renamed j, Named K v.processCnt x := by
  intro x hx
  cases j with
  | named key name =>
    simp only [fieldsAfter] at hx
    split_ifs at hx
    · rcases List.mem_append.1 hx with hx | hx
      · exact h x hx
      · rw [List.mem_singleton.1 hx]
        exact hj _ rfl
    · exact h x hx
  | renamed c =>
    simp only [fieldsAfter] at hx
    split_ifs at hx
    · rcases List.mem_or_eq_of_mem_set hx with hx | rfl
      · exact h x hx
      · exact hj _ rfl
    · exact h x hx
  | _ => exact h x hx

/-- A job that has no name yet changes no process. -/
theorem fieldsAfter_of_newName_none (hj : j.newName = none) :
    fieldsAfter fields ok renamed j = fields := by
  cases j with
  | named _ _ => cases hj
  | renamed _ => cases hj
  | _ => rfl

/-- What a job is told of its process is what the process has. -/
theorem of_jobEvent {e : ProcessManager.JobEvent} (h : jobEvent fields ok j = some e)
    {x : RequestGroupKey × String} (he : e = .nameChange x.1 x.2 ∨ e = .release x.1 x.2) :
    j.newName = none ∧ x ∈ fields := by
  have hget : ∀ {pid : ℕ} {f : RequestGroupKey × String → ProcessManager.JobEvent},
      fields[pid]?.map f = some e → (∀ y, f y = e → y = x) → x ∈ fields := by
    intro pid f hm hf
    obtain ⟨y, hy, hfy⟩ := Option.map_eq_some_iff.1 hm
    rw [← hf y hfy]
    exact List.mem_of_getElem? hy
  cases j with
  | change pid key =>
    refine ⟨rfl, hget h fun y hy => ?_⟩
    rcases he with rfl | rfl
    · injection hy with h1 h2
      exact Prod.ext h1 h2
    · cases hy
  | closed pid =>
    refine ⟨rfl, hget h fun y hy => ?_⟩
    rcases he with rfl | rfl
    · cases hy
    · injection hy with h1 h2
      exact Prod.ext h1 h2
  | named _ _ => cases ok <;> cases h <;> rcases he with he | he <;> cases he
  | renamed _ => cases ok <;> cases h <;> rcases he with he | he <;> cases he
  | close _ => cases ok <;> cases h <;> rcases he with he | he <;> cases he
  | _ => cases h; rcases he with he | he <;> cases he

/-- A step of a job. -/
theorem NamesInv.job (h : NamesInv K v fields) {o : Bool} {i cnt : ℕ} {e : ProcessManager.JobEvent}
    {m : ProcessMaps} {next : Option Job} {t : Task} (hj : v.jobs[i]? = some j)
    (he : jobEvent fields ok j = some e) (heff : ProcessManager.JobEffect v o j e m cnt next) :
    ∃ K', NamesInv K'
      { v with maps := m, processCnt := cnt, task := some (t, ProcessManager.jobsAfter v.jobs i next) }
      (fieldsAfter fields ok renamed j) := by
  obtain ⟨rest, hperm, hset, herase⟩ := exists_rest hj
  have hjobs := h.jobs.perm hperm
  have hnew : ∀ x ∈ j.newName, Named K v.processCnt x ∧ ∀ pid, ¬ v.maps.Cached x.2 pid :=
    hjobs.fresh j List.mem_cons_self
  have hfields : ∀ x ∈ fieldsAfter fields ok renamed j, Named K v.processCnt x :=
    named_fieldsAfter h.fields fun x hx => (hnew x hx).1
  cases heff with
  | same hsame =>
    refine ⟨K, h.maps, ?_, hfields, h.exits⟩
    cases next with
    | none => exact hjobs.erase.perm herase.symm
    | some j' => exact (hjobs.next (hsame j' rfl).1 (hsame j' rfl).2).perm (hset j').symm
  | @name j' key l hnone hn ho =>
    have hold : ∀ x ∈ j'.oldName, Named K v.processCnt x :=
      fun x hx => h.fields x (of_jobEvent he (Or.inl (ho x hx))).2
    rw [fieldsAfter_of_newName_none hnone]
    refine ⟨learn K v.processCnt l key o, h.maps.learn, ?_, fun x hx => (h.fields x hx).learn,
      fun msg hm => (h.exits msg hm).learn⟩
    exact (hjobs.name h.maps hn hold).perm (hset j').symm
  | add x pid hx =>
    obtain ⟨hnamed, hnot⟩ := hnew x hx
    refine ⟨K, h.maps.add hnamed.1 hnot hnamed.2 pid, ?_, hfields, h.exits⟩
    refine (hjobs.done fun n pid' hc => ?_).perm herase.symm
    rcases (ProcessMaps.cached_add hnot).1 hc with ⟨rfl, -⟩ | hc
    · exact Or.inr ⟨x, hx, rfl⟩
    · exact Or.inl hc
  | move x y pid hx hy =>
    obtain ⟨hnamed, hnot⟩ := hnew x hx
    have hold : Named K v.processCnt y := hjobs.old j List.mem_cons_self y hy
    have hnot' : ∀ pid, ¬ (v.maps.remove y.1.groupKey y.2).Cached x.2 pid :=
      fun pid hc => hnot pid (ProcessMaps.cached_remove.1 hc).2
    refine ⟨K, (h.maps.remove hold.1).add hnamed.1 hnot' hnamed.2 pid, ?_, hfields, h.exits⟩
    refine (hjobs.done fun n pid' hc => ?_).perm herase.symm
    rcases (ProcessMaps.cached_add hnot').1 hc with ⟨rfl, -⟩ | hc
    · exact Or.inr ⟨x, hx, rfl⟩
    · exact Or.inl (ProcessMaps.cached_remove.1 hc).2
  | remove x hx =>
    obtain ⟨-, hmem⟩ := of_jobEvent he (Or.inr hx)
    refine ⟨K, h.maps.remove (h.fields x hmem).1, ?_, hfields, h.exits⟩
    exact (hjobs.done fun n pid hc => Or.inl (ProcessMaps.cached_remove.1 hc).2).perm herase.symm

theorem NamesInv.changeProcessState (h : NamesInv K v fields) {m : ProcessMaps}
    (hm : m.Inv K v.processCnt)
    (hc : ∀ n pid, m.Cached n pid ↔ v.maps.Cached n pid) : NamesInv K { v with maps := m } fields := by
  refine ⟨hm, ⟨fun j hj x hx => ?_, h.jobs.nodup, h.jobs.old⟩, h.fields, h.exits⟩
  obtain ⟨hnamed, hnot⟩ := h.jobs.fresh j hj x hx
  exact ⟨hnamed, fun pid hp => hnot pid ((hc _ _).1 hp)⟩

/-- A message that a process or a group puts. -/
theorem NamesInv.putMsg (h : NamesInv K s.pm.mapsView s.fields) {e : ManagerEvent}
    (he : ∀ msg, e = .sandboxExit msg → (msg.key, msg.processName) ∈ s.fields) :
    NamesInv K (s.putMsg e).pm.mapsView s.fields := by
  refine ⟨h.maps, h.jobs, h.fields, fun msg hm => ?_⟩
  have hsplit : msg ∈ exitsOf s.pm.eventCh ∨ msg ∈ exitsOf [e] := by
    have : exitsOf (s.pm.eventCh ++ [e]) = exitsOf s.pm.eventCh ++ exitsOf [e] := List.filterMap_append
    exact List.mem_append.1 (this ▸ hm)
  rcases hsplit with hm | hm
  · exact h.exits msg hm
  · cases e with
    | getProcessReq _ => exact absurd hm List.not_mem_nil
    | sandboxExit msg' =>
      obtain rfl := List.mem_singleton.1 hm
      exact h.fields _ (he _ rfl)

/-- The invariant, for some assignment of groups to names, is kept by every step. -/
theorem NamesInv.step (h : NamesInv K s.pm.mapsView s.fields) (hstep : step s a = some s') :
    ∃ K', NamesInv K' s'.pm.mapsView s'.fields := by
  have hact := Go.toOption_eq_some.1 hstep
  cases a with
  | turn a found =>
    simp only [act] at hact
    split_ifs at hact with ha
    obtain ⟨pm, hpm, heq⟩ := Go.bind_eq_ok.1 hact
    cases heq
    exact ⟨K, h.turn (ProcessManager.turn_effect ha hpm)⟩
  | getProcessReq msg =>
    cases hact
    exact ⟨K, h.putMsg fun msg he => by cases he⟩
  | sandboxExit pid =>
    simp only [act] at hact
    split at hact
    · cases hact
    · rename_i x hx
      cases hact
      refine ⟨K, h.putMsg fun msg he => ?_⟩
      cases he
      exact List.mem_of_getElem? hx
  | job i ok renamed found =>
    simp only [act] at hact
    split at hact
    · cases hact
    · rename_i j hj
      split at hact
      · cases hact
      · rename_i e he
        obtain ⟨pm, hpm, heq⟩ := Go.bind_eq_ok.1 hact
        cases heq
        obtain ⟨j', m, cnt, next, t, hj', heff, hv⟩ := ProcessManager.stepJob_effect hpm
        obtain rfl : j = j' := Option.some.inj (hj.symm.trans hj')
        rw [hv]
        exact h.job hj' he heff
  | changeProcessState name toBusy key found =>
    obtain ⟨pm, hpm, heq⟩ := Go.bind_eq_ok.1 hact
    cases heq
    cases ProcessManager.act_case hpm with
    | quiet _ _ _ ha _ => cases ha
    | unchanged _ => exact ⟨K, h⟩
    | changed _ hc =>
      show ∃ K', NamesInv K' pm.mapsView s.fields
      rcases ProcessManager.mapsView_changeProcessState hc with ⟨pid, hp, hv⟩ | ⟨pid, hp, hv⟩
      · rw [hv]
        exact ⟨K, h.changeProcessState (h.maps.setBusy hp)
          (ProcessMaps.cached_setBusy hp (h.maps.busy_none hp))⟩
      · rw [hv]
        exact ⟨K, h.changeProcessState (h.maps.setIdle hp)
          (ProcessMaps.cached_setIdle hp (h.maps.idle_none hp))⟩

theorem namesInv_new (maxProcessNum releaseNum : ℤ) (o : Bool) (K : String → String) :
    NamesInv K (new maxProcessNum releaseNum o).pm.mapsView (new maxProcessNum releaseNum o).fields where
  maps := ProcessMaps.inv_empty K 0
  jobs := .of_starting fun _ hj => absurd hj List.not_mem_nil
  fields _ hx := absurd hx List.not_mem_nil
  exits _ hm := absurd hm List.not_mem_nil

/-- **The maps of a manager agree** in every state that it reaches, also in the middle of
    a handler, whatever becomes of the creations, changes and closings. -/
theorem maps_agree {maxProcessNum releaseNum : ℤ} {o : Bool}
    (h : Reach step Free (new maxProcessNum releaseNum o) s) :
    ProcessMaps.Rep ⟨s.pm.idleProcesses, s.pm.busyProcesses, s.pm.processGroups⟩ := by
  have hinv : ∃ K, NamesInv K s.pm.mapsView s.fields :=
    h.inv (I := fun s => ∃ K, NamesInv K s.pm.mapsView s.fields)
      ⟨fun _ => "", namesInv_new _ _ _ _⟩ fun ⟨_, hK⟩ _ hstep => hK.step hstep
  obtain ⟨K, hK⟩ := hinv
  exact hK.maps.rep

/-- The manager asks its idle process to change to the contract. -/
def runAsk (key : RequestGroupKey) (ok renamed : Bool) : List Action :=
  [.getProcessReq ⟨key, 1⟩, .turn .recvEvent fun _ => true, .turn .advance fun _ => true,
    .job 0 true true fun _ => true, .job 0 ok renamed fun _ => true]

/-- The only process is created and becomes idle. -/
def runIdle : List Action :=
  [.getProcessReq ⟨.sample, 1⟩, .turn .recvEvent fun _ => true, .job 0 true true fun _ => true,
    .job 0 true true fun _ => true, .job 0 true true fun _ => true, .turn .advance fun _ => true,
    .turn .advance fun _ => true,
    .changeProcessState (constructProcessName .sample 0 1 true) false .sample fun _ => true]

/-- The only process is created and becomes idle.  A first change fails after the process
    was renamed, so that a second one does not find the name under which the process is
    cached: it is then cached twice, and the maps agree on both names. -/
theorem maps_agree_renamed : ∃ s, Reach step Free (new 1 0 true) s ∧
    s.pm.idleProcesses.size = 1 ∧ s.pm.busyProcesses.size = 1 ∧
    ProcessMaps.Rep ⟨s.pm.idleProcesses, s.pm.busyProcesses, s.pm.processGroups⟩ := by
  obtain ⟨s, hs, hP⟩ := exists_reach step Free (new 1 0 true)
    (fun s => s.pm.idleProcesses.size = 1 ∧ s.pm.busyProcesses.size = 1)
    (runIdle ++ runAsk ⟨"chain1", "b", "v1"⟩ false true ++ [.turn .advance fun _ => true] ++
      runAsk ⟨"chain1", "c", "v1"⟩ true true ++
      [.job 0 true true fun _ => true, .job 0 true true fun _ => true])
    (by decide)
  obtain ⟨hi, hb⟩ := of_decide_eq_true hP
  exact ⟨s, hs, hi, hb, maps_agree hs⟩

end Managed

end VmEngine
