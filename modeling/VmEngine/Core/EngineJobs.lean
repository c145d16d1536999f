/-
  The names that a manager gives, and its jobs.

  Every name that a manager generates ends in a counter, so it is new.  Each job of a
  manager knows something of its process: a process in a window is locked, and a
  process whose window is over is not idle, since it becomes idle only with the
  manager's lock.
-/
import VmEngine.Core.EngineStep

namespace VmEngine

/-! ## Jobs -/

namespace Job

/-- A name that no process has yet. -/
def pending : Job → Option String
  | .named _ name => some name
  | .renamed c => some c.newName
  | _ => none

/-- A name that a process has and under which it is not cached yet. -/
def given : Job → Option String
  | .made _ name _ => some name
  | .killed c | .changed c => some c.newName
  | _ => none

/-- The process that a job of the cleaner has signalled. -/
def closingPid : Job → Option ℕ
  | .closeKilled pid | .closed pid => some pid
  | _ => none

/-- A job of the cleaner. -/
def ofClean : Job → Bool
  | .close _ | .closeKilled _ | .closed _ => true
  | _ => false

end Job

/-- The process exists and belongs to the manager, and satisfies `P`. -/
def HasProc (procs : List Process) (o : Bool) (pid : ℕ) (P : Process → Prop) : Prop :=
  ∃ p, procs[pid]? = some p ∧ p.isOrigProcess = o ∧ P p

/-- The names given to the processes of a manager. -/
abbrev Names := List (String × ℕ)

section
variable {procs procs' : List Process} {names names' : Names} {o : Bool} {pid pid₀ cnt : ℕ}
  {P : Process → Prop} {p p' : Process} {j j' : Job} {rest : List Job}

/-- What a job knows of its process. -/
def JobOk (procs : List Process) (names : Names) (o : Bool) : Job → Prop
  | .create _ | .named _ _ => True
  | .made _ name pid => (name, pid) ∈ names ∧
      HasProc procs o pid fun p => p.processName = name ∧ p.processState ≠ .idle
  | .change pid _ | .close pid => HasProc procs o pid fun _ => True
  | .renamed c => (c.oldName, c.pid) ∈ names ∧ HasProc procs o c.pid fun _ => True
  | .killed c => (c.oldName, c.pid) ∈ names ∧ (c.newName, c.pid) ∈ names ∧ c.oldName ≠ c.newName ∧
      HasProc procs o c.pid fun p => p.processName = c.newName ∧ p.lockedBy = some .changing
  | .changed c => (c.oldName, c.pid) ∈ names ∧ (c.newName, c.pid) ∈ names ∧ c.oldName ≠ c.newName ∧
      HasProc procs o c.pid fun p => p.processName = c.newName ∧ p.processState ≠ .idle
  | .closeKilled pid => HasProc procs o pid fun p => p.lockedBy = some .closing
  | .closed pid => HasProc procs o pid fun p => p.processState ≠ .idle

/-- What the jobs need of a change of a process that is not theirs to make. -/
structure Keep (p p' : Process) : Prop where
  isOrig : p'.isOrigProcess = p.isOrigProcess
  name : p'.processName = p.processName
  lock : p'.lockedBy = p.lockedBy
  idle : p'.processState = .idle → p.processState = .idle

theorem Keep.refl (p : Process) : Keep p p := ⟨rfl, rfl, rfl, id⟩

theorem HasProc.imp {Q : Process → Prop} (h : HasProc procs o pid P)
    (hk : ∀ p, procs[pid]? = some p → p.isOrigProcess = o → P p →
      ∃ p', procs'[pid]? = some p' ∧ p'.isOrigProcess = o ∧ Q p') : HasProc procs' o pid Q := by
  obtain ⟨p, hp, ho, hP⟩ := h
  exact hk p hp ho hP

theorem JobOk.keep (h : JobOk procs names o j)
    (hk : ∀ (pid : ℕ) p, procs[pid]? = some p → p.isOrigProcess = o →
      ∃ p', procs'[pid]? = some p' ∧ Keep p p') (hn : names ⊆ names') :
    JobOk procs' names' o j := by
  have himp : ∀ {pid P Q}, HasProc procs o pid P → (∀ p p', Keep p p' → P p → Q p') →
      HasProc procs' o pid Q := by
    intro pid P Q h hPQ
    refine h.imp fun p hp ho hP => ?_
    obtain ⟨p', hp', hkeep⟩ := hk pid p hp ho
    exact ⟨p', hp', hkeep.isOrig.trans ho, hPQ p p' hkeep hP⟩
  cases j with
  | create _ | named _ _ => trivial
  | change _ _ | close _ => exact himp h fun _ _ _ _ => trivial
  | made _ _ _ =>
    exact ⟨hn h.1, himp h.2 fun _ _ k hP => ⟨k.name.trans hP.1, fun hi => hP.2 (k.idle hi)⟩⟩
  | renamed _ => exact ⟨hn h.1, himp h.2 fun _ _ _ _ => trivial⟩
  | killed _ =>
    obtain ⟨h1, h2, h3, h4⟩ := h
    exact ⟨hn h1, hn h2, h3, himp h4 fun _ _ k hP => ⟨k.name.trans hP.1, k.lock.trans hP.2⟩⟩
  | changed _ =>
    obtain ⟨h1, h2, h3, h4⟩ := h
    exact ⟨hn h1, hn h2, h3, himp h4 fun _ _ k hP => ⟨k.name.trans hP.1, fun hi => hP.2 (k.idle hi)⟩⟩
  | closeKilled _ => exact himp h fun _ _ k hP => k.lock.trans hP
  | closed _ => exact himp h fun _ _ k hP hi => hP (k.idle hi)

theorem JobOk.append (h : JobOk procs names o j) (q : Process) (hn : names ⊆ names') :
    JobOk (procs ++ [q]) names' o j := by
  refine h.keep (fun pid p hp _ => ⟨p, ?_, Keep.refl p⟩) hn
  rw [List.getElem?_append_left (List.getElem?_eq_some_iff.1 hp).1]
  exact hp

theorem HasProc.set (h : HasProc procs o pid P) (hp : procs[pid₀]? = some p)
    (ho : p'.isOrigProcess = p.isOrigProcess) (hP : pid = pid₀ → P p → P p') :
    HasProc (procs.set pid₀ p') o pid P := by
  refine h.imp fun q hq hqo hPq => ?_
  by_cases hpid : pid = pid₀
  · subst hpid
    obtain rfl : q = p := Option.some.inj (hq.symm.trans hp)
    have hlt := (List.getElem?_eq_some_iff.1 hp).1
    exact ⟨p', List.getElem?_set_self hlt, ho.trans hqo, hP rfl hPq⟩
  · exact ⟨q, (List.getElem?_set_ne (Ne.symm hpid)).trans hq, hqo, hPq⟩

/-- The other jobs when a call changes a process: it was idle and not locked, or the
    call ends the only window on it. -/
theorem JobOk.set (h : JobOk procs names o j) (hp : procs[pid₀]? = some p)
    (ho : p'.isOrigProcess = p.isOrigProcess)
    (hc : (p.processState = .idle ∧ p.lockedBy = none) ∨
      (p'.processName = p.processName ∧ p'.processState ≠ .idle ∧
        (∀ c, j = .killed c → c.pid = pid₀ → p.lockedBy = some .changing → False) ∧
        (j = .closeKilled pid₀ → p.lockedBy = some .closing → False)))
    (hn : names ⊆ names') : JobOk (procs.set pid₀ p') names' o j := by
  cases j with
  | create _ | named _ _ => trivial
  | change _ _ | close _ => exact h.set hp ho fun _ _ => trivial
  | renamed _ => exact ⟨hn h.1, h.2.set hp ho fun _ _ => trivial⟩
  | made _ _ _ =>
    refine ⟨hn h.1, h.2.set hp ho fun _ hP => ?_⟩
    rcases hc with ⟨hi, -⟩ | ⟨hname, hst, -⟩
    · exact absurd hi hP.2
    · exact ⟨hname.trans hP.1, hst⟩
  | killed c =>
    obtain ⟨h1, h2, h3, h4⟩ := h
    refine ⟨hn h1, hn h2, h3, h4.set hp ho fun hpid hP => ?_⟩
    rcases hc with ⟨-, hl⟩ | ⟨-, -, hex, -⟩
    · rw [hl] at hP; cases hP.2
    · exact (hex c rfl hpid hP.2).elim
  | changed c =>
    obtain ⟨h1, h2, h3, h4⟩ := h
    refine ⟨hn h1, hn h2, h3, h4.set hp ho fun _ hP => ?_⟩
    rcases hc with ⟨hi, -⟩ | ⟨hname, hst, -⟩
    · exact absurd hi hP.2
    · exact ⟨hname.trans hP.1, hst⟩
  | closeKilled pid =>
    refine HasProc.set h hp ho fun hpid hP => ?_
    rcases hc with ⟨-, hl⟩ | ⟨-, -, -, hex⟩
    · rw [hl] at hP; cases hP
    · exact (hex (by rw [hpid]) hP).elim
  | closed _ =>
    refine HasProc.set h hp ho fun _ hP => ?_
    rcases hc with ⟨hi, -⟩ | ⟨-, hst, -⟩
    · exact absurd hi hP
    · exact hst

/-- The jobs of a manager: what each knows, and that they are about different names
    and processes. -/
structure JobsInv (procs : List Process) (names : Names) (cnt : ℕ) (o : Bool) (jobs : List Job) :
    Prop where
  ok : ∀ j ∈ jobs, JobOk procs names o j
  fresh : (jobs.filterMap Job.pending ++ names.map Prod.fst).Nodup
  below : ∀ n ∈ jobs.filterMap Job.pending ++ names.map Prod.fst, NameBelow cnt n
  given : (jobs.filterMap Job.given).Nodup
  closing : (jobs.filterMap Job.closingPid).Nodup

namespace JobsInv

theorem perm {jobs jobs' : List Job} (h : JobsInv procs names cnt o jobs) (hp : jobs.Perm jobs') :
    JobsInv procs names cnt o jobs' where
  ok j hj := h.ok j (hp.mem_iff.2 hj)
  fresh := ((hp.filterMap _).append_right _).nodup_iff.1 h.fresh
  below n hn := h.below n (((hp.filterMap _).append_right _).mem_iff.2 hn)
  given := (hp.filterMap _).nodup_iff.1 h.given
  closing := (hp.filterMap _).nodup_iff.1 h.closing

theorem head (h : JobsInv procs names cnt o (j :: rest)) : JobOk procs names o j :=
  h.ok j List.mem_cons_self

theorem tail (h : JobsInv procs names cnt o (j :: rest)) : ∀ j ∈ rest, JobOk procs names o j :=
  fun j hj => h.ok j (List.mem_cons_of_mem _ hj)

/-- A job ends. -/
theorem erase (h : JobsInv procs names cnt o (j :: rest))
    (hok : ∀ j ∈ rest, JobOk procs' names o j) : JobsInv procs' names cnt o rest where
  ok := hok
  fresh := h.fresh.sublist (((List.sublist_cons_self j rest).filterMap _).append_right _)
  below n hn := h.below n ((((List.sublist_cons_self j rest).filterMap _).append_right _).subset hn)
  given := h.given.sublist ((List.sublist_cons_self j rest).filterMap _)
  closing := h.closing.sublist ((List.sublist_cons_self j rest).filterMap _)

/-- A job goes on under the same names. -/
theorem next (h : JobsInv procs names cnt o (j :: rest)) (hok : JobOk procs' names o j')
    (hrest : ∀ j ∈ rest, JobOk procs' names o j) (hpend : j'.pending = j.pending)
    (hgiv : j'.given = j.given) (hcl : (rest.filterMap Job.closingPid).Nodup →
      ((j' :: rest).filterMap Job.closingPid).Nodup) : JobsInv procs' names cnt o (j' :: rest) where
  ok := List.forall_mem_cons.2 ⟨hok, hrest⟩
  fresh := by
    have := h.fresh
    rw [List.filterMap_cons] at this ⊢
    rwa [hpend]
  below := by
    have := h.below
    rw [List.filterMap_cons] at this ⊢
    rwa [hpend]
  given := by
    have := h.given
    rw [List.filterMap_cons] at this ⊢
    rwa [hgiv]
  closing := hcl (h.erase h.tail).closing

/-- A job gets the next name. -/
theorem name {name : String} (h : JobsInv procs names cnt o (j :: rest))
    (hok : JobOk procs names o j') (hpend : j'.pending = some name) (hgiv : j'.given = none)
    (hcl : j'.closingPid = none) (hold : ¬ NameBelow cnt name) (hnew : NameBelow (cnt + 1) name) :
    JobsInv procs names (cnt + 1) o (j' :: rest) := by
  have hr := h.erase h.tail
  refine ⟨List.forall_mem_cons.2 ⟨hok, h.tail⟩, ?_, ?_, ?_, ?_⟩
  · rw [List.filterMap_cons_some hpend, List.cons_append]
    exact List.nodup_cons.2 ⟨fun hn => hold (hr.below _ hn), hr.fresh⟩
  · rw [List.filterMap_cons_some hpend, List.cons_append]
    exact List.forall_mem_cons.2 ⟨hnew, fun n hn => (hr.below n hn).mono (Nat.le_succ _)⟩
  · rw [List.filterMap_cons_none hgiv]
    exact hr.given
  · rw [List.filterMap_cons_none hcl]
    exact hr.closing

/-- A process gets the name of a job. -/
theorem give {name : String} (h : JobsInv procs names cnt o (j :: rest))
    (hpend : j.pending = some name) (pid : ℕ)
    (hrest : ∀ j ∈ rest, JobOk procs' (names ++ [(name, pid)]) o j) :
    JobsInv procs' (names ++ [(name, pid)]) cnt o rest := by
  have hr := h.erase h.tail
  have hperm : (rest.filterMap Job.pending ++ (names ++ [(name, pid)]).map Prod.fst).Perm
      ((j :: rest).filterMap Job.pending ++ names.map Prod.fst) := by
    rw [List.filterMap_cons_some hpend, List.map_append, ← List.append_assoc]
    exact List.perm_append_singleton _ _
  exact ⟨hrest, hperm.nodup_iff.2 h.fresh, fun n hn => h.below n (hperm.mem_iff.1 hn), hr.given,
    hr.closing⟩

/-- A new job for a name that was given. -/
theorem cons {name : String} (h : JobsInv procs names cnt o rest) (hok : JobOk procs names o j)
    (hpend : j.pending = none) (hgiv : j.given = some name) (hcl : j.closingPid = none)
    (hn : name ∉ rest.filterMap Job.given) : JobsInv procs names cnt o (j :: rest) := by
  refine ⟨List.forall_mem_cons.2 ⟨hok, h.ok⟩, ?_, ?_, ?_, ?_⟩
  · rw [List.filterMap_cons_none hpend]
    exact h.fresh
  · rw [List.filterMap_cons_none hpend]
    exact h.below
  · rw [List.filterMap_cons_some hgiv]
    exact List.nodup_cons.2 ⟨hn, h.given⟩
  · rw [List.filterMap_cons_none hcl]
    exact h.closing

/-- A name that is given has its process. -/
theorem of_given {name : String} {jobs : List Job} (h : ∀ j ∈ jobs, JobOk procs names o j)
    (hn : name ∈ jobs.filterMap Job.given) : ∃ pid, (name, pid) ∈ names := by
  obtain ⟨j, hj, hname⟩ := List.mem_filterMap.1 hn
  have hok := h j hj
  cases j with
  | made _ n pid => cases hname; exact ⟨pid, hok.1⟩
  | killed c => cases hname; exact ⟨c.pid, hok.2.1⟩
  | changed c => cases hname; exact ⟨c.pid, hok.2.1⟩
  | _ => cases hname

/-- A pending name is new. -/
theorem pending_new {name : String} (h : JobsInv procs names cnt o (j :: rest))
    (hpend : j.pending = some name) (pid : ℕ) : (name, pid) ∉ names := by
  have hf := h.fresh
  rw [List.filterMap_cons_some hpend, List.cons_append] at hf
  intro hmem
  exact (List.nodup_cons.1 hf).1 (List.mem_append_right _ (List.mem_map_of_mem hmem))

theorem unique {jobs : List Job} (h : JobsInv procs names cnt o jobs) {name : String}
    {pid pid' : ℕ} (h₁ : (name, pid) ∈ names) (h₂ : (name, pid') ∈ names) : pid = pid' := by
  have hnd := (List.nodup_append.1 h.fresh).2.1
  exact congrArg Prod.snd (List.inj_on_of_nodup_map hnd h₁ h₂ rfl)

end JobsInv

end

/-! ## A step of a job -/

namespace Engine
variable {e e' e₁ : Engine} {o ok : Bool} {v v' : ManagerView} {t : Task} {jobs rest : List Job}
  {i : ℕ} {j : Job} {ev : ProcessManager.JobEvent}

theorem names_logName (e : Engine) (o : Bool) (name : String) (pid : ℕ) :
    (e.logName o name pid).names o = e.names o ++ [(name, pid)] := Function.update_self ..

theorem names_logName_of_ne (e : Engine) {o o' : Bool} (h : o' ≠ o) (name : String) (pid : ℕ) :
    (e.logName o name pid).names o' = e.names o' := Function.update_of_ne h ..

theorem isOrigProcess_renamed (p : Process) (c : Change) (w : Option Window) :
    (renamed p c w).isOrigProcess = p.isOrigProcess := rfl

/-- How a job goes on. -/
inductive NextJob : Job → ProcessManager.JobEvent → Job → Prop
  | named {key : RequestGroupKey} {name : String} : NextJob (.create key) .nameNew (.named key name)
  | made {key : RequestGroupKey} {name : String} {pid : ℕ} :
      NextJob (.named key name) (.createOk pid) (.made key name pid)
  | renamed {pid : ℕ} {key oldKey : RequestGroupKey} {oldName : String} {c : Change} :
      NextJob (.change pid key) (.nameChange oldKey oldName) (.renamed c)
  | killed {c : Change} : NextJob (.renamed c) .changeKill (.killed c)
  | changed {c : Change} : NextJob (.killed c) .changeDone (.changed c)
  | closeKilled {pid : ℕ} : NextJob (.close pid) .closeKill (.closeKilled pid)
  | closed {pid : ℕ} : NextJob (.closeKilled pid) .closeDone (.closed pid)

theorem next_of_job {rest : List Job} (hj : ProcessManager.JobCase v t jobs i j ev v')
    (hset : ∀ y, (jobs.set i y).Perm (y :: rest)) (herase : (jobs.eraseIdx i).Perm rest) {j' : Job}
    (hmem : j' ∈ v'.jobs) : j' ∈ rest ∨ NextJob j ev j' := by
  have hs : ∀ {y}, j' ∈ jobs.set i y → NextJob j ev y → j' ∈ rest ∨ NextJob j ev j' := by
    intro y hy hnext
    rcases List.mem_cons.1 ((hset y).mem_iff.1 hy) with rfl | hy
    · exact Or.inr hnext
    · exact Or.inl hy
  cases hj with
  | name => exact hs hmem .named
  | createOk => exact hs hmem .made
  | rename => exact hs hmem .renamed
  | changeKill => exact hs hmem .killed
  | changeDone => exact hs hmem .changed
  | closeKill => exact hs hmem .closeKilled
  | closeDone => exact hs hmem .closed
  | createFail | cache | meet | changeFail | recache | closeFail | release _ =>
    exact Or.inl (herase.mem_iff.1 hmem)

section
variable {procs : List Process} {names : Names} {cnt : ℕ} {c : Change} {p : Process}

/-- `createNewProcess`. -/
theorem jobsInv_made {key : RequestGroupKey} {name : String} (user : ℕ)
    (hinv : JobsInv procs names cnt o (.named key name :: rest)) :
    JobsInv (procs ++ [Process.new user key name o]) (names ++ [(name, procs.length)]) cnt o
      (.made key name procs.length :: rest) := by
  have hg := hinv.give rfl procs.length fun j hj =>
    (hinv.tail j hj).append (Process.new user key name o) (List.subset_append_left _ _)
  refine hg.cons ⟨List.mem_append_right _ (List.mem_singleton_self _), _,
    List.getElem?_concat_length, rfl, rfl, nofun⟩ rfl rfl rfl fun hn => ?_
  obtain ⟨pid, hpid⟩ := JobsInv.of_given hinv.tail hn
  exact hinv.pending_new rfl pid hpid

/-- `ChangeSandbox` up to the update of the state. -/
theorem jobsInv_killed (hinv : JobsInv procs names cnt o (.renamed c :: rest))
    (hp : procs[c.pid]? = some p) (hst : p.processState = .idle) (hlock : p.lockedBy = none) :
    JobsInv (procs.set c.pid (renamed p c (some .changing))) (names ++ [(c.newName, c.pid)]) cnt o
      (.killed c :: rest) := by
  obtain ⟨hold, p', hp', ho, -⟩ := hinv.head
  obtain rfl := Option.some.inj (hp.symm.trans hp')
  have hg := hinv.give rfl c.pid fun j hj =>
    (hinv.tail j hj).set hp (isOrigProcess_renamed _ c (some .changing)) (Or.inl ⟨hst, hlock⟩)
      (List.subset_append_left _ _)
  have hne : c.oldName ≠ c.newName := fun h => hinv.pending_new rfl c.pid (h ▸ hold)
  refine hg.cons ⟨List.mem_append_left _ hold, List.mem_append_right _ (List.mem_singleton_self _),
    hne, _, List.getElem?_set_self (List.getElem?_eq_some_iff.1 hp).1, ho, rfl, rfl⟩ rfl rfl rfl
    fun hn => ?_
  obtain ⟨pid, hpid⟩ := JobsInv.of_given hinv.tail hn
  exact hinv.pending_new rfl pid hpid

/-- The rest of `ChangeSandbox`: no other job has a window on the process. -/
theorem jobsInv_changed {u b : Bool} {timer : Timer}
    (hinv : JobsInv procs names cnt o (.killed c :: rest)) (hp : procs[c.pid]? = some p)
    (hw : p.lockedBy = some .changing) :
    JobsInv (procs.set c.pid { p with
        processState := .changing, lockedBy := none, updateCh := u, timer := timer, timerPopped := b })
      names cnt o (.changed c :: rest) := by
  obtain ⟨hold, hnew, hne, p', hp', ho, hname, -⟩ := hinv.head
  obtain rfl := Option.some.inj (hp.symm.trans hp')
  refine hinv.next ⟨hold, hnew, hne, _, List.getElem?_set_self (List.getElem?_eq_some_iff.1 hp).1,
    ho, hname, nofun⟩ (fun j hj => (hinv.tail j hj).set hp rfl
      (Or.inr ⟨rfl, nofun, ?_, ?_⟩) (List.Subset.refl _)) rfl rfl fun h => h
  · rintro c' rfl hpid -
    obtain ⟨-, -, -, q, hq, -, hqname, -⟩ := hinv.tail _ hj
    rw [hpid] at hq
    obtain rfl := Option.some.inj (hp.symm.trans hq)
    refine (List.nodup_cons.1 (hinv.given : (c.newName :: _).Nodup)).1 ?_
    exact List.mem_filterMap.2 ⟨_, hj, congrArg some (hqname.symm.trans hname)⟩
  · rintro rfl hl
    rw [hw] at hl; cases hl

/-- `CloseSandbox` up to the update of the state. -/
theorem jobsInv_closeKilled {pid : ℕ} (hinv : JobsInv procs names cnt o (.close pid :: rest))
    (hp : procs[pid]? = some p) (hst : p.processState = .idle) (hlock : p.lockedBy = none) :
    JobsInv (procs.set pid { p.killed with lockedBy := some .closing }) names cnt o
      (.closeKilled pid :: rest) := by
  obtain ⟨p', hp', ho, -⟩ := hinv.head
  obtain rfl := Option.some.inj (hp.symm.trans hp')
  refine hinv.next ⟨_, List.getElem?_set_self (List.getElem?_eq_some_iff.1 hp).1, ho, rfl⟩
    (fun j hj => (hinv.tail j hj).set hp rfl (Or.inl ⟨hst, hlock⟩) (List.Subset.refl _))
    rfl rfl fun hnd => List.nodup_cons.2 ⟨fun hmem => ?_, hnd⟩
  obtain ⟨j, hj, hpid⟩ := List.mem_filterMap.1 hmem
  have hok := hinv.tail j hj
  cases j with
  | closeKilled q =>
    cases hpid
    obtain ⟨q, hq, -, hl⟩ := hok
    obtain rfl := Option.some.inj (hp.symm.trans hq)
    rw [hlock] at hl; cases hl
  | closed q =>
    cases hpid
    obtain ⟨q, hq, -, hs⟩ := hok
    obtain rfl := Option.some.inj (hp.symm.trans hq)
    exact hs hst
  | _ => cases hpid

/-- The rest of `CloseSandbox`. -/
theorem jobsInv_closed {pid : ℕ} {u b : Bool} {timer : Timer}
    (hinv : JobsInv procs names cnt o (.closeKilled pid :: rest)) (hp : procs[pid]? = some p)
    (hw : p.lockedBy = some .closing) :
    JobsInv (procs.set pid { p with
        processState := .closing, lockedBy := none, updateCh := u, timer := timer, timerPopped := b })
      names cnt o (.closed pid :: rest) := by
  obtain ⟨p', hp', ho, -⟩ := hinv.head
  obtain rfl := Option.some.inj (hp.symm.trans hp')
  have hnd := List.nodup_cons.1 (hinv.closing : (pid :: _).Nodup)
  refine hinv.next ⟨_, List.getElem?_set_self (List.getElem?_eq_some_iff.1 hp).1, ho, nofun⟩
    (fun j hj => (hinv.tail j hj).set hp rfl (Or.inr ⟨rfl, nofun, ?_, ?_⟩) (List.Subset.refl _))
    rfl rfl fun _ => List.nodup_cons.2 hnd
  · rintro c - - hl
    rw [hw] at hl; cases hl
  · rintro rfl -
    exact hnd.1 (List.mem_filterMap.2 ⟨_, hj, rfl⟩)

end

/-- The jobs of a manager after a step of one of them. -/
theorem jobsInv_call (hinv : JobsInv e.procs (e.names o) v.processCnt o (j :: rest))
    (hprocs : ∀ {pid p}, e.procs[pid]? = some p → (p.processName, pid) ∈ e.names p.isOrigProcess)
    (hv : v.isOrig = o) (hc : CallCase e o ok j ev e₁)
    (hj : ProcessManager.JobCase v t jobs i j ev v')
    (hset : ∀ y, (jobs.set i y).Perm (y :: rest)) (herase : (jobs.eraseIdx i).Perm rest) :
    JobsInv e₁.procs (e₁.names o) v'.processCnt o v'.jobs := by
  have hdone : JobsInv e.procs (e.names o) v.processCnt o (jobs.eraseIdx i) :=
    (hinv.erase hinv.tail).perm herase.symm
  cases hc with
  | plain hp =>
    cases hp with
    | create =>
      cases hj
      subst hv
      refine JobsInv.perm ?_ (hset _).symm
      exact hinv.name trivial rfl rfl rfl not_nameBelow nameBelow_next
    | createFail => cases hj; exact hdone
    | made => cases hj; exact hdone
    | changed => cases hj; exact hdone
  | create hu =>
    cases hj
    rw [names_logName]
    exact (jobsInv_made _ hinv).perm (hset _).symm
  | nameChange hp =>
    cases hj with
    | meet => exact hdone
    | rename =>
      obtain ⟨p', hp', ho, -⟩ := hinv.head
      obtain rfl := Option.some.inj (hp.symm.trans hp')
      subst hv
      have hmem := hprocs hp
      rw [ho] at hmem
      refine JobsInv.perm ?_ (hset _).symm
      exact hinv.name ⟨hmem, _, hp, ho, trivial⟩ rfl rfl rfl not_nameBelow nameBelow_next
  | refused hp hst => cases hj; exact hdone
  | lost hp hst hlock htok =>
    cases hj
    rw [names_logName]
    refine JobsInv.perm ?_ herase.symm
    exact hinv.give rfl _ fun j hj => (hinv.tail j hj).set hp (isOrigProcess_renamed _ _ _)
      (Or.inl ⟨hst, hlock⟩) (List.subset_append_left _ _)
  | killed hp hst hlock htok hsig =>
    cases hj
    rw [names_logName]
    exact (jobsInv_killed hinv hp hst hlock).perm (hset _).symm
  | leaveChange hp hw => cases hj; exact (jobsInv_changed hinv hp hw).perm (hset _).symm
  | refusedClose hp hst => cases hj; exact hdone
  | closeLost hp hst hlock htok =>
    cases hj
    refine JobsInv.perm ?_ herase.symm
    exact hinv.erase fun j hj =>
      (hinv.tail j hj).set hp rfl (Or.inl ⟨hst, hlock⟩) (List.Subset.refl _)
  | closeKilled hp hst hlock htok hsig =>
    cases hj
    exact (jobsInv_closeKilled hinv hp hst hlock).perm (hset _).symm
  | leaveClose hp hw => cases hj; exact (jobsInv_closed hinv hp hw).perm (hset _).symm
  | release hp => cases hj; exact hdone

end Engine

end VmEngine
