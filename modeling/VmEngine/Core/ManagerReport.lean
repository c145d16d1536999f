/-
  What `handleGetProcessReq` reports to the request group.

  The handler counts down `needProcessNum` from its jobs: a process was created, an idle
  process was changed, or an idle process already belongs to the contract.  A `Tally` keeps
  what the jobs really did: under which contracts processes were added to `busyProcesses`,
  and to which contracts the peeked idle processes belonged.  The countdown agrees with the
  tally up to one thing: the handler compares the name and the version of an idle process
  with the request, and not its chain.
-/
import VmEngine.Core.ManagerKeys
import VmEngine.Core.ManagerMaps

namespace VmEngine

namespace ProcessManager

/-- What the jobs of a handler did, in the order of their steps. -/
structure Tally where
  /-- the contracts under which processes were added to `busyProcesses` -/
  added : List RequestGroupKey
  /-- the contracts to which the peeked idle processes belonged -/
  peeked : List RequestGroupKey
deriving DecidableEq, Repr

namespace Tally

def empty : Tally := ⟨[], []⟩

/-- The step of a job. -/
def record (t : Tally) : Job → JobEvent → Tally
  | .made key _ _, .cacheNew => { t with added := t.added ++ [key] }
  | .changed c, .recache => { t with added := t.added ++ [c.key] }
  | .change _ _, .nameChange oldKey _ => { t with peeked := t.peeked ++ [oldKey] }
  | _, _ => t

/-- The step of a manager. -/
def observe (t : Tally) (pm : ProcessManager) : Action → Tally
  | .job i e =>
    match (Managed.jobs pm)[i]? with
    | some j => t.record j e
    | none => t
  | _ => t

/-- The processes that a request of the contract has got. -/
def number (t : Tally) (key : RequestGroupKey) : ℕ := t.added.count key + t.peeked.count key

end Tally

/-- A step of the manager with its tally; which groups the scheduler has may change from
    step to step. -/
def tallyStep (s : ProcessManager × Tally) (a : (String → Bool) × Action) :
    Option (ProcessManager × Tally) :=
  monitor (fun pm (a : (String → Bool) × Action) => (act a.1 pm a.2).toOption.map (·, ()))
    (fun t pm a _ => t.observe pm a.2) s a

/-- The handler still holds the lock. -/
def Holding (s : ProcessManager × Tally) (_ : (String → Bool) × Action) : Prop :=
  s.1.task.isSome = true

instance : DecidableRel Holding := fun _ _ => inferInstanceAs (Decidable (_ = _))

/-- The end of the handler, from `s` to `s'`, reports what the tally says: at most what
    the group asked for; a group that got nothing is put into `waitingRequestGroups`, any
    other is not, and is told the number. -/
structure ExactReport (found : String → Bool) (msg : GetProcessReqMsg) (t : Tally)
    (s s' : ProcessManager) : Prop where
  atMost : (t.number msg.key : ℤ) ≤ msg.processNum
  waits : t.number msg.key = 0 → s'.outbox = s.outbox ∧
    s'.waitingRequestGroups = if msg.key ∈ s.waitingRequestGroups then s.waitingRequestGroups
      else s.waitingRequestGroups ++ [msg.key]
  told : t.number msg.key ≠ 0 → s'.waitingRequestGroups = s.waitingRequestGroups ∧
    s'.outbox = s.outbox ++ if found msg.key.groupKey then
      [.resp msg.key ⟨s.isOrigManager, t.number msg.key⟩] else []

/-! ## The countdown -/

/-- The countdown and the tally, while the handler runs. -/
structure Countdown (msg : GetProcessReqMsg) (need : ℤ) (jobs : List Job) (t : Tally) : Prop where
  contract : ∀ j ∈ jobs, j.contract = some msg.key
  added : ∀ k ∈ t.added, k = msg.key
  room : (jobs.length : ℤ) ≤ need
  count : need + t.added.length + t.peeked.countP (SameContract msg.key ·) = msg.processNum

variable {found : String → Bool} {pm pm' s s' : ProcessManager} {msg : GetProcessReqMsg} {need : ℤ}
  {jobs : List Job} {t : Tally} {j : Job} {e : JobEvent} {i : ℕ} {idleAsked : Bool}

/-- A job goes on: nothing is counted. -/
theorem Countdown.goOn (h : Countdown msg need jobs t) (hj : jobs[i]? = some j) {j' : Job}
    (hc : j'.contract = j.contract) : Countdown msg need (jobs.set i j') t where
  contract j₁ hj₁ := by
    rcases List.mem_or_eq_of_mem_set hj₁ with hmem | rfl
    · exact h.contract j₁ hmem
    · rw [hc]
      exact h.contract j (List.mem_of_getElem? hj)
  added := h.added
  room := by rw [List.length_set]; exact h.room
  count := h.count

/-- A job ends without a process. -/
theorem Countdown.fail (h : Countdown msg need jobs t) :
    Countdown msg need (jobs.eraseIdx i) t where
  contract j' hj' := h.contract j' (List.mem_of_mem_eraseIdx hj')
  added := h.added
  room := by
    have := List.length_eraseIdx_le jobs i
    have := h.room
    omega
  count := h.count

/-- A job ends with a process that the handler counts. -/
theorem Countdown.serve (h : Countdown msg need jobs t) (hj : jobs[i]? = some j) {t' : Tally}
    (hadded : ∀ k ∈ t'.added, k = msg.key)
    (hcount : t'.added.length + t'.peeked.countP (SameContract msg.key ·) =
      t.added.length + t.peeked.countP (SameContract msg.key ·) + 1) :
    Countdown msg (need - 1) (jobs.eraseIdx i) t' where
  contract j' hj' := h.contract j' (List.mem_of_mem_eraseIdx hj')
  added := hadded
  room := by
    have hlt := (List.getElem?_eq_some_iff.1 hj).1
    have hlen := List.length_eraseIdx_of_lt hlt
    have := h.room
    omega
  count := by
    have := h.count
    omega

theorem Countdown.add (h : Countdown msg need jobs t) (hj : jobs[i]? = some j) {key : RequestGroupKey}
    (hc : j.contract = some key) :
    Countdown msg (need - 1) (jobs.eraseIdx i) { t with added := t.added ++ [key] } := by
  have hkey : key = msg.key :=
    Option.some.inj (hc.symm.trans (h.contract j (List.mem_of_getElem? hj)))
  refine h.serve hj (fun k hk => ?_) ?_
  · rcases List.mem_append.1 hk with hk | hk
    · exact h.added k hk
    · rw [List.mem_singleton.1 hk, hkey]
  · simp only [List.length_append, List.length_singleton]
    omega

/-- An idle process of another contract is counted in no way. -/
theorem Countdown.peekOther (h : Countdown msg need jobs t) {oldKey : RequestGroupKey}
    (hne : ¬ SameContract msg.key oldKey) :
    Countdown msg need jobs { t with peeked := t.peeked ++ [oldKey] } where
  contract := h.contract
  added := h.added
  room := h.room
  count := by
    have := h.count
    simp only [List.countP_append, List.countP_singleton, hne, decide_false]
    simpa using this

/-- A step of a job of the handler. -/
theorem Countdown.job {t' : Task} {next : Option Job} (h : Countdown msg need jobs t)
    (hj : jobs[i]? = some j)
    (hrun : runJob found pm (.getProcess msg need idleAsked) j e = .ok (pm', t', next)) :
    ∃ need', t' = .getProcess msg need' idleAsked ∧
      Countdown msg need' (jobsAfter jobs i next) (t.record j e) := by
  have hcj := h.contract j (List.mem_of_getElem? hj)
  cases runJob_case hrun with
  | nameNew | createOk | changeKill | changeDone => exact ⟨need, rfl, h.goOn hj rfl⟩
  | createFail | changeFail => exact ⟨need, rfl, h.fail⟩
  | cacheNew | recache => exact ⟨need - 1, rfl, h.add hj rfl⟩
  | @meet pid key oldKey oldName hsame =>
    obtain rfl : key = msg.key := Option.some.inj hcj
    refine ⟨need - 1, rfl, h.serve hj h.added ?_⟩
    simp only [Tally.record, List.countP_append, List.countP_singleton, hsame, decide_true, if_true]
    omega
  | @rename pid key oldKey oldName hsame =>
    obtain rfl : key = msg.key := Option.some.inj hcj
    exact ⟨need, rfl, (h.peekOther hsame).goOn hj rfl⟩
  -- a request closes no process
  | closeFail | closeKill | closeDone | release => cases hcj

/-- The handler starts. -/
theorem handleGetProcessReq_countdown (hpos : 0 < msg.processNum)
    (h : handleGetProcessReq found pm msg = .ok pm') :
    ∃ jobs, pm'.task = some (.getProcess msg msg.processNum false, jobs) ∧
      Countdown msg msg.processNum jobs .empty := by
  have hstart : ∀ jobs : List Job, (∀ j ∈ jobs, j.contract = some msg.key) →
      (jobs.length : ℤ) ≤ msg.processNum → Countdown msg msg.processNum jobs .empty :=
    fun jobs hc hl => ⟨hc, by simp [Tally.empty], hl, by simp [Tally.empty]⟩
  unfold handleGetProcessReq at h
  rw [if_neg (by omega)] at h
  dsimp only at h
  split_ifs at h with hav hneg
  · cases h
    refine ⟨_, rfl, hstart _ (fun j hj => ?_) ?_⟩
    · rw [List.eq_of_mem_replicate hj]
      rfl
    · rw [List.length_replicate]
      omega
  · cases h
    exact ⟨_, rfl, hstart _ (by simp) (by simpa using hpos.le)⟩

/-- The handler turns to the idle processes. -/
theorem Countdown.ask (h : Countdown msg need [] t) (pm : ProcessManager) :
    ∃ jobs, (askIdleProcesses pm msg need).task = some (.getProcess msg need true, jobs) ∧
      Countdown msg need jobs t := by
  refine ⟨_, rfl, fun j hj => ?_, h.added, ?_, h.count⟩
  · split_ifs at hj
    · obtain ⟨pid, -, rfl⟩ := List.mem_map.1 hj
      rfl
    · cases hj
  · have hroom := h.room
    rw [List.length_nil] at hroom
    split_ifs
    · have hlen : (pm.idleProcesses.peek (min need pm.idleProcesses.size).toNat).length ≤
          (min need pm.idleProcesses.size).toNat := by
        unfold LinkedMap.peek
        rw [List.length_map]
        exact List.length_take_le _ _
      rw [List.length_map]
      omega
    · simpa using hroom

/-! ## The whole handler -/

/-- The handler runs with its countdown, or has ended. -/
def Counting (msg : GetProcessReqMsg) (s : ProcessManager × Tally) : Prop :=
  ∀ task jobs, s.1.task = some (task, jobs) →
    ∃ need idleAsked, task = .getProcess msg need idleAsked ∧ Countdown msg need jobs s.2

theorem Counting.of_task {s s' : ProcessManager × Tally} (h : Counting msg s)
    (htask : s'.1.task = s.1.task) (htally : s'.2 = s.2) : Counting msg s' := by
  intro task jobs hs
  rw [htally]
  exact h task jobs (htask ▸ hs)

theorem Counting.step {s s' : ProcessManager × Tally} {a : (String → Bool) × Action}
    (h : Counting msg s) (hok : Holding s a) (hstep : tallyStep s a = some s') :
    Counting msg s' := by
  obtain ⟨⟨⟩, hact, htally⟩ := monitor_eq_some hstep
  obtain ⟨pm', hpm, hpair⟩ := Option.map_eq_some_iff.1 hact
  obtain rfl : pm' = s'.1 := congrArg Prod.fst hpair
  rw [Go.toOption_eq_some] at hpm
  obtain ⟨⟨task, jobs⟩, htask⟩ := Option.isSome_iff_exists.1 hok
  obtain ⟨found, a⟩ := a
  obtain ⟨pm', tally⟩ := s'
  cases act_case hpm with
  | putMsg ev => exact h.of_task rfl htally
  | quiet _ _ _ ha _ =>
    refine h.of_task rfl (htally.trans ?_)
    cases a with
    | job i ev => cases ha
    | _ => rfl
  -- the other handlers need the lock
  | request hnone | exit hnone | clean _ _ hnone | allocateIdle _ _ hnone
  | allocateNew _ _ hnone | unchanged hnone | changed hnone =>
    rw [htask] at hnone
    cases hnone
  | @job i ev _ hjob =>
    obtain ⟨t, jobs, j, pm₁, t₁, next, ht, hj, hrun, rfl⟩ := stepJob_run hjob
    obtain ⟨need, idleAsked, rfl, hcd⟩ := h t jobs ht
    obtain ⟨need', rfl, hcd'⟩ := hcd.job hj hrun
    have hobs : tally = s.2.record j ev := by
      refine htally.trans ?_
      simp only [Tally.observe, Managed.jobs, ht, Option.map_some, Option.getD_some, hj]
    intro task' jobs' hs
    obtain ⟨rfl, rfl⟩ := Prod.mk.inj (Option.some.inj hs)
    refine ⟨need', idleAsked, rfl, ?_⟩
    rw [hobs]
    exact hcd'
  | @advance t ht =>
    obtain ⟨need, idleAsked, rfl, hcd⟩ := h t [] ht
    intro task' jobs' hnew
    cases idleAsked with
    | false =>
      obtain ⟨jobs, hjobs, hcd'⟩ := hcd.ask s.1
      obtain ⟨rfl, rfl⟩ := Prod.mk.inj (Option.some.inj (hjobs.symm.trans hnew))
      refine ⟨need, true, rfl, ?_⟩
      rw [htally]
      exact hcd'
    | true =>
      -- the handler has ended
      simp only [finishGetProcessReq, sendProcessReadyResp] at hnew
      split_ifs at hnew

theorem counting_of_reach {found : String → Bool} (hpos : 0 < msg.processNum)
    (h₀ : handleGetProcessReq found pm msg = .ok pm') {s : ProcessManager × Tally}
    (h : Reach tallyStep Holding (pm', .empty) s) : Counting msg s := by
  refine h.inv ?_ fun hinv hok hstep => hinv.step hok hstep
  intro task jobs htask
  obtain ⟨jobs', htask', hcd⟩ := handleGetProcessReq_countdown hpos h₀
  obtain ⟨rfl, rfl⟩ := Prod.mk.inj (Option.some.inj (htask'.symm.trans htask))
  exact ⟨_, _, rfl, hcd⟩

/-! ## The report -/

/-- The end of the handler, by the number that is left of the countdown. -/
theorem finishGetProcessReq_outcome (found : String → Bool) (s : ProcessManager)
    (msg : GetProcessReqMsg) (need : ℤ) :
    (msg.processNum - need = 0 → (finishGetProcessReq found s msg need).outbox = s.outbox ∧
      (finishGetProcessReq found s msg need).waitingRequestGroups =
        if msg.key ∈ s.waitingRequestGroups then s.waitingRequestGroups
        else s.waitingRequestGroups ++ [msg.key]) ∧
    (msg.processNum - need ≠ 0 →
      (finishGetProcessReq found s msg need).waitingRequestGroups = s.waitingRequestGroups ∧
      (finishGetProcessReq found s msg need).outbox = s.outbox ++ if found msg.key.groupKey then
        [.resp msg.key ⟨s.isOrigManager, msg.processNum - need⟩] else []) := by
  unfold finishGetProcessReq sendProcessReadyResp
  refine ⟨fun h => ?_, fun h => ?_⟩
  · rw [if_pos (by omega)]
    by_cases hw : msg.key ∈ s.waitingRequestGroups
    · rw [if_pos hw, if_pos hw]
      exact ⟨rfl, rfl⟩
    · rw [if_neg hw, if_neg hw]
      exact ⟨rfl, rfl⟩
  · rw [if_neg (by omega)]
    by_cases hf : found msg.key.groupKey = true
    · rw [if_pos hf, if_pos hf]
      exact ⟨rfl, rfl⟩
    · rw [if_neg hf, if_neg hf]
      exact ⟨rfl, (List.append_nil _).symm⟩

theorem Countdown.number_le (h : Countdown msg need jobs t) :
    (t.number msg.key : ℤ) ≤ msg.processNum - need := by
  have hadd := List.count_le_length (a := msg.key) (l := t.added)
  have hpk : t.peeked.count msg.key ≤ t.peeked.countP (SameContract msg.key ·) := by
    refine List.countP_mono_left fun k _ hk => ?_
    rw [beq_iff_eq.1 hk]
    exact decide_eq_true ⟨rfl, rfl⟩
  have := h.count
  unfold Tally.number
  omega

/-- The countdown is the tally unless an idle process differs from the request in its chain
    alone. -/
theorem Countdown.number_eq_iff (h : Countdown msg need jobs t) :
    msg.processNum - need = t.number msg.key ↔
      ∀ k ∈ t.peeked, SameContract msg.key k → k = msg.key := by
  have hadd : t.added.count msg.key = t.added.length :=
    List.count_eq_length.2 fun k hk => (h.added k hk).symm
  have hcount := h.count
  have hsplit : t.peeked.countP (SameContract msg.key ·) = t.peeked.count msg.key +
      t.peeked.countP (fun k => SameContract msg.key k ∧ k ≠ msg.key) := by
    rw [List.countP_eq_countP_filter_add _ _ (· == msg.key), List.count, List.countP_filter,
      List.countP_filter]
    congr 1
    · refine List.countP_congr fun k _ => ?_
      simp only [Bool.and_eq_true, decide_eq_true_eq, beq_iff_eq]
      exact ⟨And.right, fun hk => ⟨hk ▸ ⟨rfl, rfl⟩, hk⟩⟩
    · refine List.countP_congr fun k _ => ?_
      simp
  unfold Tally.number
  constructor
  · intro hn k hk hsame
    have hzero : t.peeked.countP (fun k => SameContract msg.key k ∧ k ≠ msg.key) = 0 := by omega
    have := List.countP_eq_zero.1 hzero k hk
    simpa [hsame] using this
  · intro hall
    have hzero : t.peeked.countP (fun k => SameContract msg.key k ∧ k ≠ msg.key) = 0 := by
      refine List.countP_eq_zero.2 fun k hk => ?_
      simpa using hall k hk
    omega

/-- **When the report is exact.**  For any state of the manager, any request for processes
    and any outcome of the creations and changes, the end of `handleGetProcessReq` reports
    what the group really got exactly when no peeked idle process has the name and the
    version of the requested contract on another chain. -/
theorem report_exact_iff {found₀ : String → Bool} (hpos : 0 < msg.processNum)
    (h₀ : handleGetProcessReq found₀ pm msg = .ok pm')
    (h : Reach tallyStep Holding (pm', .empty) (s, t))
    (hend : s.task = some (.getProcess msg need true, [])) :
    (∀ found s', act found s .advance = .ok s' → ExactReport found msg t s s') ↔
      ∀ k ∈ t.peeked, SameContract msg.key k → k = msg.key := by
  obtain ⟨need', idleAsked, htask, hcd⟩ := counting_of_reach hpos h₀ h _ _ hend
  obtain ⟨-, rfl, -⟩ := Task.getProcess.inj htask
  have hcd : Countdown msg need [] t := hcd
  have hadvance : ∀ found, act found s .advance = .ok (finishGetProcessReq found s msg need) := by
    intro found
    simp only [act, hend]
    rfl
  rw [← hcd.number_eq_iff]
  constructor
  · intro hall
    obtain ⟨-, hwaits, htold⟩ := hall (fun _ => true) _ (hadvance _)
    obtain ⟨hzero, hpositive⟩ := finishGetProcessReq_outcome (fun _ => true) s msg need
    by_contra hne
    have hle := hcd.number_le
    obtain ⟨-, hout⟩ := hpositive (by omega)
    by_cases hn : t.number msg.key = 0
    · -- nothing was got, yet the group is told a number
      rw [hout, if_pos rfl] at hwaits
      exact absurd (hwaits hn).1 (by simp)
    · have hboth := (htold hn).2
      rw [hout, if_pos rfl, if_pos rfl] at hboth
      have hmsg := List.append_cancel_left hboth
      simp only [List.cons.injEq, ManagerOut.resp.injEq, GetProcessRespMsg.mk.injEq, true_and,
        and_true] at hmsg
      exact hne hmsg
  · intro hnum found s' hs'
    obtain rfl := Except.ok.inj ((hadvance found).symm.trans hs')
    obtain ⟨hzero, hpositive⟩ := finishGetProcessReq_outcome found s msg need
    refine ⟨?_, fun hn => hzero (by omega), fun hn => ?_⟩
    · have hroom := hcd.room
      rw [List.length_nil] at hroom
      omega
    · obtain ⟨hw, hout⟩ := hpositive (by omega)
      rw [hnum] at hout
      exact ⟨hw, hout⟩

/-- A request for one process, which is created and reported. -/
theorem report_exact_created :
    ∃ pm' s t, handleGetProcessReq (fun _ => true) (new 1 0 true) ⟨.sample, 1⟩ = .ok pm' ∧
      Reach tallyStep Holding (pm', .empty) (s, t) ∧ t = ⟨[.sample], []⟩ ∧
      ∀ found s', act found s .advance = .ok s' → ExactReport found ⟨.sample, 1⟩ t s s' := by
  let pm' : ProcessManager := { new 1 0 true with
    task := some (.getProcess ⟨.sample, 1⟩ 1 false, [.create .sample]) }
  have h₀ : handleGetProcessReq (fun _ => true) (new 1 0 true) ⟨.sample, 1⟩ = .ok pm' := rfl
  obtain ⟨⟨s, t⟩, hreach, hs⟩ := exists_reach tallyStep Holding (pm', .empty)
    (fun s => s.1.task = some (.getProcess ⟨.sample, 1⟩ 0 true, []) ∧ s.2 = ⟨[.sample], []⟩)
    ([.job 0 .nameNew, .job 0 (.createOk 0), .job 0 .cacheNew, .advance].map (fun _ => true, ·))
    (by decide)
  obtain ⟨htask, ht⟩ := of_decide_eq_true hs
  refine ⟨pm', s, t, h₀, hreach, ht, (report_exact_iff (by decide) h₀ hreach htask).2 ?_⟩
  obtain rfl : t = ⟨[.sample], []⟩ := ht
  simp

/-- A manager with room for one process, which is idle and belongs to another chain. -/
def otherChain : ProcessManager :=
  { new 1 0 true with
    idleProcesses := LinkedMap.empty.put "chain2#o#fact#v1#0#1" 0
    processCnt := 1 }

/-- The idle process of `chain2` is not changed and no process is added, yet the group of
    `chain1` is told that it got one, and does not wait for it. -/
theorem report_counts_other_chain :
    ∃ pm' s t, handleGetProcessReq (fun _ => true) otherChain ⟨.sample, 1⟩ = .ok pm' ∧
      Reach tallyStep Holding (pm', .empty) (s, t) ∧
      t = ⟨[], [⟨"chain2", "fact", "v1"⟩]⟩ ∧ t.number .sample = 0 ∧
      ∃ s', act (fun _ => true) s .advance = .ok s' ∧ s'.waitingRequestGroups = [] ∧
        s'.outbox = [.resp .sample ⟨true, 1⟩] := by
  let pm' := { otherChain with task := some (.getProcess ⟨.sample, 1⟩ 1 false, []) }
  have h₀ : handleGetProcessReq (fun _ => true) otherChain ⟨.sample, 1⟩ = .ok pm' := rfl
  obtain ⟨⟨s, t⟩, hreach, hs⟩ := exists_reach tallyStep Holding (pm', .empty)
    (fun s => s.2 = ⟨[], [⟨"chain2", "fact", "v1"⟩]⟩ ∧
      (act (fun _ => true) s.1 .advance).toOption.any fun s' =>
        s'.waitingRequestGroups = [] ∧ s'.outbox = [.resp .sample ⟨true, 1⟩])
    ([.advance, .job 0 (.nameChange ⟨"chain2", "fact", "v1"⟩ "chain2#o#fact#v1#0#1")].map
      (fun _ => true, ·)) (by decide)
  obtain ⟨ht, hs'⟩ := of_decide_eq_true hs
  obtain ⟨s', hs', hend⟩ := (Option.any_eq_true _ _).1 hs'
  obtain ⟨hw, hout⟩ := of_decide_eq_true hend
  obtain rfl : t = ⟨[], [⟨"chain2", "fact", "v1"⟩]⟩ := ht
  exact ⟨pm', s, _, h₀, hreach, rfl, by decide, s', Go.toOption_eq_some.1 hs', hw, hout⟩

end ProcessManager

end VmEngine
