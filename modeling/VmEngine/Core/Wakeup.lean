/-
  No lost wakeup between request groups and process managers.

  All request groups and both managers run together.  The processes are the
  environment: they take transactions, report bad contracts, send exit messages and
  change their state at any time, and every outcome of a creation, a change or a
  closing is possible.  A group may read the process numbers also while a handler of
  a manager runs, which is more than the lock of the manager allows.
-/
import VmEngine.Core.GroupTurn
import VmEngine.Core.ManagerAnswers
import VmEngine.Lib.Indexed

namespace VmEngine

/-- The request groups of the scheduler, by their joined key, and the two managers. -/
structure WakeSys where
  groups : String → Option RequestGroup
  mgr : Bool → ProcessManager

namespace WakeSys

/-- Both managers as `NewProcessManager` makes them, and no groups. -/
def new (maxProcessNum releaseNum : Bool → ℤ) : WakeSys where
  groups _ := none
  mgr o := .new (maxProcessNum o) (releaseNum o) o

/-- `GetRequestGroup` finds a group. -/
def found (sys : WakeSys) (s : String) : Bool := (sys.groups s).isSome

/-- The response in a message of a manager, if it is for the group `s`. -/
def respFor (s : String) : ManagerOut → Option GroupEvent
  | .resp key msg => if key.groupKey = s then some (.processResp msg) else none
  | .freeUser _ => none

/-- The groups after the messages of a manager were put. -/
def deliver (groups : String → Option RequestGroup) (outs : List ManagerOut) (s : String) :
    Option RequestGroup :=
  (groups s).map fun g => { g with eventCh := g.eventCh ++ outs.filterMap (respFor s) }

/-- The request in a message of a group, if it is for the manager `o`. -/
def reqFor (o : Bool) : GroupOut → Option ManagerEvent
  | .getProcessReq o' msg => if o' = o then some (.getProcessReq msg) else none
  | _ => none

inductive Action where
  /-- the scheduler creates the group of a contract -/
  | newGroup (key : RequestGroupKey)
  /-- a step of the group with the joined key -/
  | group (s : String) (a : RequestGroup.Action)
  /-- a step of a manager -/
  | manager (isOrig : Bool) (a : ProcessManager.Action)

/-- The processes of the contract, as `GetProcessNumByContractKey` counts them. -/
def processNum (sys : WakeSys) (o : Bool) (s : String) : ℕ :=
  (((sys.mgr o).processGroups.get? s).map LinkedMap.size).getD 0

/-- The numbers that the group `s` reads: the first as the manager has it, the second
    counts some of the same processes. -/
def Sees (sys : WakeSys) (s : String) (view : Bool → ProcessCounts) : Prop :=
  ∀ o, (view o).processNum = sys.processNum o s ∧
    (view o).readyOrBusyProcessNum ≤ (view o).processNum

instance (sys : WakeSys) (s : String) (view : Bool → ProcessCounts) : Decidable (sys.Sees s view) :=
  inferInstanceAs (Decidable (∀ _, _))

/-- What the environment may do to a group; responses come from the managers. -/
def GroupOk (sys : WakeSys) (s : String) : RequestGroup.Action → Prop
  | .putEvent (.processResp _) => False
  | .recvTx view _ | .recvEvent view => sys.Sees s view
  | _ => True

instance (sys : WakeSys) (s : String) : DecidablePred (sys.GroupOk s)
  | .putEvent (.processResp _) => instDecidableFalse
  | .putEvent (.badContract _) => instDecidableTrue
  | .recvTx view _ => inferInstanceAs (Decidable (sys.Sees s view))
  | .recvEvent view => inferInstanceAs (Decidable (sys.Sees s view))
  | .putTx _ | .recvTimer | .expire | .take _ => instDecidableTrue

/-- What the environment may do to a manager; requests come from the groups. -/
def ManagerOk : ProcessManager.Action → Bool
  | .putMsg (.getProcessReq _) => false
  | _ => true

/-- One step of the system.  A call that panics ends the run. -/
def step (C : ChainConsts) (sys : WakeSys) : Action → Option WakeSys
  | .newGroup key =>
    if sys.found key.groupKey then none
    else some { sys with groups := Function.update sys.groups key.groupKey (some (.new key)) }
  | .group s a =>
    match sys.groups s with
    | none => none
    | some g =>
      if sys.GroupOk s a then
        (g.act C a).toOption.map fun r =>
          { groups := Function.update sys.groups s (some r.1)
            mgr := fun o =>
              { sys.mgr o with eventCh := (sys.mgr o).eventCh ++ r.2.filterMap (reqFor o) } }
      else none
  | .manager o a =>
    if ManagerOk a then
      ((sys.mgr o).act sys.found a).toOption.map fun pm =>
        { groups := deliver sys.groups pm.outbox
          mgr := Function.update sys.mgr o { pm with outbox := [] } }
    else none

/-! ## The invariant -/

structure Inv (sys : WakeSys) : Prop where
  key : ∀ {s g}, sys.groups s = some g → g.key.groupKey = s
  isOrig : ∀ o, (sys.mgr o).isOrigManager = o
  outbox : ∀ o, (sys.mgr o).outbox = []
  /-- a group that waits is known to the manager, or has its response -/
  waits : ∀ {s g} o, sys.groups s = some g → (g.controller o).processWaiting = true →
    (sys.mgr o).Waits g.key ∨ g.HasResp o
  /-- a group that relies on processes has some, or has a response -/
  relies : ∀ {s g} o, sys.groups s = some g → g.Relies o → (sys.mgr o).HasEntry s ∨ g.HasResp o

variable {C : ChainConsts} {sys sys' : WakeSys}

theorem inv_new (maxProcessNum releaseNum : Bool → ℤ) : (new maxProcessNum releaseNum).Inv where
  key h := by cases h
  isOrig _ := rfl
  outbox _ := rfl
  waits _ h := by cases h
  relies _ h := by cases h

variable {a : RequestGroup.Action} {g : RequestGroup} {key : RequestGroupKey} {o : Bool}
  {pm : ProcessManager} {s : String}

theorem inv_newGroup (hi : sys.Inv) :
    Inv { sys with groups := Function.update sys.groups key.groupKey (some (.new key)) } := by
  refine ⟨fun h => ?_, hi.isOrig, hi.outbox, fun o h hw => ?_, fun o h hr => ?_⟩
  · rcases update_some h with ⟨rfl, rfl⟩ | h
    · rfl
    · exact hi.key h
  · rcases update_some h with ⟨rfl, rfl⟩ | h
    · cases o <;> cases hw
    · exact hi.waits o h hw
  · rcases update_some h with ⟨rfl, rfl⟩ | h
    · cases hr.1
    · exact hi.relies o h hr

/-! ## Steps of groups -/

theorem GroupOk.counts (h : sys.GroupOk s a) : RequestGroup.Counts (RequestGroup.viewOf a) := by
  intro o
  cases a with
  | recvTx view now => exact (h o).2
  | recvEvent view => exact (h o).2
  | putTx _ | putEvent _ | recvTimer | expire | take _ => exact Nat.le_refl 0

/-- A group that sees a process sees it in the manager. -/
theorem GroupOk.hasEntry (h : sys.GroupOk s a) (hpos : 0 < (RequestGroup.viewOf a o).processNum) :
    (sys.mgr o).HasEntry s := by
  have hsees : ∀ {view : Bool → ProcessCounts}, sys.Sees s view → 0 < (view o).processNum →
      (sys.mgr o).HasEntry s := by
    intro view hv hpos
    rw [(hv o).1, processNum] at hpos
    cases hg : (sys.mgr o).processGroups.get? s with
    | none => rw [hg] at hpos; exact absurd hpos (Nat.lt_irrefl 0)
    | some group => rw [hg] at hpos; exact ⟨group, hg, hpos.ne'⟩
  cases a with
  | recvTx view now => exact hsees h hpos
  | recvEvent view => exact hsees h hpos
  | putTx _ | putEvent _ | recvTimer | expire | take _ => exact absurd hpos (Nat.lt_irrefl 0)

theorem waits_append (h : pm.Waits key) (evs : List ManagerEvent) :
    { pm with eventCh := pm.eventCh ++ evs }.Waits key :=
  h.imp (fun ⟨n, hn⟩ => ⟨n, List.mem_append_left _ hn⟩) id

theorem waits_of_req {n : ℤ} {outs : List GroupOut} (h : .getProcessReq o ⟨key, n⟩ ∈ outs) :
    { pm with eventCh := pm.eventCh ++ outs.filterMap (reqFor o) }.Waits key := by
  refine Or.inl ⟨n, List.mem_append_right _ (List.mem_filterMap.2 ⟨_, h, ?_⟩)⟩
  simp [reqFor]

theorem inv_group (hi : sys.Inv) {g' : RequestGroup} {outs : List GroupOut}
    (hg : sys.groups s = some g) (hok : sys.GroupOk s a) (hact : g.act C a = .ok (g', outs)) :
    Inv { groups := Function.update sys.groups s (some g')
          mgr := fun o =>
            { sys.mgr o with eventCh := (sys.mgr o).eventCh ++ outs.filterMap (reqFor o) } } := by
  have turn := RequestGroup.act_turn hok.counts hact
  refine ⟨fun h => ?_, hi.isOrig, hi.outbox, fun o h hw => ?_, fun o h hr => ?_⟩
  · rcases update_some h with ⟨rfl, rfl⟩ | h
    · rw [(turn true).key]; exact hi.key hg
    · exact hi.key h
  · rcases update_some h with ⟨rfl, rfl⟩ | h
    · rw [(turn o).key]
      rcases (turn o).waits hw with ⟨hw, hresp⟩ | ⟨n, hn⟩
      · exact (hi.waits o hg hw).imp (waits_append · _) hresp
      · exact Or.inl (waits_of_req hn)
    · exact (hi.waits o h hw).imp_left (waits_append · _)
  · rcases update_some h with ⟨rfl, rfl⟩ | h
    · rcases (turn o).relies hr with hpos | ⟨hr, hresp⟩
      · exact Or.inl (hok.hasEntry hpos)
      · exact (hi.relies o hg hr).imp id hresp
    · exact hi.relies o h hr

/-! ## Steps of managers -/

/-- The response in the outbox of a manager reaches the group. -/
theorem hasResp_deliver (h : pm.RespIn s) :
    { g with eventCh := g.eventCh ++ pm.outbox.filterMap (respFor s) }.HasResp pm.isOrigManager := by
  obtain ⟨key, n, hm, hs⟩ := h
  refine ⟨n, List.mem_append_right _ (List.mem_filterMap.2 ⟨_, hm, ?_⟩)⟩
  rw [respFor, if_pos hs]

/-- What a manager had for a group, it has after the step, or the group has a response. -/
theorem keeps_or_hasResp {o' : Bool} {Q : ProcessManager → Prop} (horig : pm.isOrigManager = o)
    (hans : Q (sys.mgr o) → Q { pm with outbox := [] } ∨ pm.RespIn s)
    (hold : Q (sys.mgr o') ∨ g.HasResp o') :
    Q (Function.update sys.mgr o { pm with outbox := [] } o') ∨
      { g with eventCh := g.eventCh ++ pm.outbox.filterMap (respFor s) }.HasResp o' := by
  rcases hold with hQ | ⟨n, hn⟩
  · by_cases ho : o' = o
    · rw [ho] at hQ ⊢
      rw [Function.update_self]
      rcases hans hQ with hQ | hr
      · exact Or.inl hQ
      · exact Or.inr (horig ▸ hasResp_deliver hr)
    · rw [Function.update_of_ne ho]
      exact Or.inl hQ
  · exact Or.inr ⟨n, List.mem_append_left _ hn⟩

theorem inv_manager (hi : sys.Inv) {a : ProcessManager.Action}
    (hact : (sys.mgr o).act sys.found a = .ok pm) :
    Inv { groups := deliver sys.groups pm.outbox
          mgr := Function.update sys.mgr o { pm with outbox := [] } } := by
  have ans := ProcessManager.act_answers hact
  have horig : pm.isOrigManager = o := ans.isOrig.trans (hi.isOrig o)
  have hfound : ∀ {s g}, sys.groups s = some g → sys.found s = true := by
    intro s g hg
    rw [found, hg]
    rfl
  refine ⟨fun h => ?_, fun o' => ?_, fun o' => ?_, fun {s} g' o' h hw => ?_, fun {s} g' o' h hr => ?_⟩
  · obtain ⟨g, hg, rfl⟩ := Option.map_eq_some_iff.1 h
    exact hi.key (g := g) hg
  · by_cases ho : o' = o
    · rw [ho]; simpa using horig
    · simpa [ho] using hi.isOrig o'
  · by_cases ho : o' = o
    · rw [ho]; simp
    · simpa [ho] using hi.outbox o'
  · obtain ⟨g, hg, rfl⟩ := Option.map_eq_some_iff.1 h
    have hkey := hi.key hg
    refine keeps_or_hasResp (Q := fun pm => pm.Waits g.key) horig (fun hQ => ?_) (hi.waits o' hg hw)
    have := ans.waits g.key (by rw [hkey]; exact hfound hg) hQ
    rwa [hkey] at this
  · obtain ⟨g, hg, rfl⟩ := Option.map_eq_some_iff.1 h
    exact keeps_or_hasResp (Q := fun pm => pm.HasEntry s) horig (ans.entry s (hfound hg))
      (hi.relies (g := g) o' hg hr)

theorem inv_step (hi : sys.Inv) {a : Action} (h : step C sys a = some sys') : sys'.Inv := by
  cases a with
  | newGroup key =>
    simp only [step] at h
    split_ifs at h
    cases h
    exact inv_newGroup hi
  | group s a =>
    simp only [step] at h
    split at h
    · cases h
    · rename_i g hg
      split_ifs at h with hok
      obtain ⟨⟨g', outs⟩, hact, rfl⟩ := Option.map_eq_some_iff.1 h
      exact inv_group hi hg hok (Go.toOption_eq_some.1 hact)
  | manager o a =>
    simp only [step] at h
    split_ifs at h
    obtain ⟨pm, hact, rfl⟩ := Option.map_eq_some_iff.1 h
    exact inv_manager hi (Go.toOption_eq_some.1 hact)

/-- **No lost wakeup.**  Between two handlers of the manager `o`, a group that waits
    for processes of `o` has its request in the `eventCh`, is one of the waiting groups
    or has a response; and a group with transactions that does not wait has processes
    or a response. -/
theorem no_lost_wakeup {maxProcessNum releaseNum : Bool → ℤ}
    (h : Reach (step C) Free (new maxProcessNum releaseNum) sys) {s : String} {g : RequestGroup}
    (hg : sys.groups s = some g) {o : Bool} (htask : (sys.mgr o).task = none) :
    ((g.controller o).processWaiting = true →
      (∃ n, .getProcessReq ⟨g.key, n⟩ ∈ (sys.mgr o).eventCh) ∨
        g.key ∈ (sys.mgr o).waitingRequestGroups ∨ ∃ n, .processResp ⟨o, n⟩ ∈ g.eventCh) ∧
    (g.contractState = .ready → (g.controller o).txCh ≠ [] →
      (g.controller o).processWaiting = false →
      (∃ group, (sys.mgr o).processGroups.get? g.key.groupKey = some group ∧ group.size ≠ 0) ∨
        ∃ n, .processResp ⟨o, n⟩ ∈ g.eventCh) := by
  have hi : sys.Inv := h.inv (inv_new _ _) fun hI _ hstep => inv_step hI hstep
  constructor
  · intro hw
    rcases hi.waits o hg hw with (hreq | hwait | ⟨t, jobs, ht, -⟩) | hresp
    · exact Or.inl hreq
    · exact Or.inr (Or.inl hwait)
    · rw [htask] at ht; cases ht
    · exact Or.inr (Or.inr hresp)
  · intro hready htx hw
    rw [hi.key hg]
    exact hi.relies o hg ⟨hready, htx, hw⟩

/-- A group that asks a manager without room for processes ends up waiting there. -/
def sampleWait : List Action :=
  let key := RequestGroupKey.sample
  let s := key.groupKey
  let view : Bool → ProcessCounts := fun _ => ⟨0, 0⟩
  [.newGroup key, .group s (.putTx (sampleTx key "tx1" "invoke")), .group s (.recvTx view 0),
    .group s (.putTx ⟨"", "tx1", .getBytecodeResponse, none, none, some ⟨.ok, "", "", "", "", []⟩⟩),
    .group s (.recvTx view 7), .manager true .recvEvent, .manager true .advance,
    .manager true .advance]

theorem no_lost_wakeup_waiting : ∃ sys g,
    Reach (step .sample) Free (new (fun _ => 0) (fun _ => 0)) sys ∧
      sys.groups RequestGroupKey.sample.groupKey = some g ∧ (sys.mgr true).task = none ∧
      (g.controller true).processWaiting = true ∧ g.key ∈ (sys.mgr true).waitingRequestGroups ∧
      ((∃ n, .getProcessReq ⟨g.key, n⟩ ∈ (sys.mgr true).eventCh) ∨
        g.key ∈ (sys.mgr true).waitingRequestGroups ∨ ∃ n, .processResp ⟨true, n⟩ ∈ g.eventCh) := by
  obtain ⟨sys, hr, hP⟩ := exists_reach (step .sample) Free (new (fun _ => 0) (fun _ => 0))
    (fun sys => (sys.groups RequestGroupKey.sample.groupKey).any fun g =>
      (sys.mgr true).task.isNone && (g.controller true).processWaiting &&
        decide (g.key ∈ (sys.mgr true).waitingRequestGroups)) sampleWait (by decide)
  obtain ⟨g, hg, hP⟩ := (Option.any_eq_true _ _).1 hP
  simp only [Bool.and_eq_true, Option.isNone_iff_eq_none, decide_eq_true_eq] at hP
  exact ⟨sys, g, hr, hg, hP.1.1, hP.1.2, hP.2, (no_lost_wakeup hr hg hP.1.1).1 hP.1.2⟩

end WakeSys

end VmEngine
