/-
  Recycling the records of system calls.

  `StartSysCall` takes a record from `sysCallPool` and appends it to the `SysCallList` of its
  node.  `FinishTxDuration`, which runs for every node of a tree, puts the records of the
  root back.  When a cross call finishes, the root is still at work: its records, if it has
  any, are then in the pool and in its list, and they are put a second time when the next
  node of the tree finishes.

  As long as no cross call finishes under a root with records (`RootSilent`), a record is at
  one place at most: in the pool, or in the list of one unfinished node (`Once`).
-/
import VmEngine.Utils.DurationTree
import VmEngine.Lib.Places

namespace VmEngine.Utils

open BlockTxsDurationMgr

/-- The `SysCallList` of a node. -/
def records (nodes : List TxDuration) (e : ℕ) : List ℕ := nodes[e]?.elim [] (·.sysCallList)

/-- The pool has no record of an unfinished node, and none twice. -/
structure Recycled (r : BlockTxsDurationMgr) : Prop where
  dead : ∀ e, unsealed r.nodes e = true → ∀ i ∈ records r.nodes e, i ∉ r.sysCallPool
  once : r.sysCallPool.Nodup

namespace Invocations

/-- A cross call finishes only under a root without records. -/
def RootSilent (s : Invocations) : Action → Prop
  | .finishTx id t _ => ∀ node ∈ s.mgr.nodes[t]?, ∀ root ∈ s.mgr.root? id node.originalTxId,
      root ≠ t → records s.mgr.nodes root = []
  | _ => True

instance : DecidableRel RootSilent
  | s, .finishTx _ t _ => inferInstanceAs (Decidable (∀ node ∈ s.mgr.nodes[t]?, _))
  | _, .addBlock _ | _, .addTx _ _ _ _ | _, .startSysCall _ _ _ _ | _, .addStorage _ _
  | _, .endSysCall _ _ => instDecidableTrue

/-! ## Places of records -/

/-- The records of a node, unless it is sealed. -/
def held (node : TxDuration) : List ℕ := if node.sealed then [] else node.sysCallList

/-- Where records can be: in the pool, or at an unfinished node. -/
def places (r : BlockTxsDurationMgr) : Option ℕ → List ℕ
  | none => r.sysCallPool
  | some e => (r.nodes[e]?.map held).getD []

/-- Every record is at one place at most, and known. -/
structure Placed (r : BlockTxsDurationMgr) : Prop where
  once : Once id (places r)
  lt : ∀ {p i}, i ∈ places r p → i < r.sysCalls.length

variable {e t : ℕ} {id : String} {node : TxDuration} {r r' : BlockTxsDurationMgr} {s s' : Invocations}

theorem places_of_unsealed (h : unsealed r.nodes e = true) :
    places r (some e) = records r.nodes e := by
  obtain ⟨node, hnode, hsealed⟩ := exists_of_unsealed h
  simp [places, records, held, hnode, hsealed]

theorem Placed.recycled (h : Placed r) : Recycled r where
  dead e he i hi hpool := by
    rw [← places_of_unsealed he] at hi
    exact h.once.apart (i := some e) (j := none) nofun hi hpool rfl
  once := by
    have hnd := h.once.nodup none
    rw [List.map_id] at hnd
    exact hnd

theorem placed_new : Placed .new where
  once := by
    have hnil : places .new = fun _ => [] := by
      funext p
      cases p <;> rfl
    rw [hnil]
    exact once_nil
  lt {p i} hi := by cases p <;> cases hi

/-- What changes neither lists, seals nor the pool. -/
theorem Placed.congr (h : Placed r) (hpool : r'.sysCallPool = r.sysCallPool)
    (hlen : r'.sysCalls.length = r.sysCalls.length)
    (hheld : ∀ e : ℕ, (r'.nodes[e]?.map held).getD [] = (r.nodes[e]?.map held).getD []) :
    Placed r' := by
  have hplaces : places r' = places r := by
    funext p
    cases p with
    | none => exact hpool
    | some e => exact hheld e
  constructor
  · rw [hplaces]
    exact h.once
  · intro p i hi
    rw [hplaces] at hi
    rw [hlen]
    exact h.lt hi

/-! ## The operations -/

theorem addTx_sysCalls (h : r.addTx id t = .ok r') :
    r'.sysCallPool = r.sysCallPool ∧ r'.sysCalls = r.sysCalls := by
  unfold addTx at h
  split at h
  · split at h
    · cases h
      exact ⟨rfl, rfl⟩
    · obtain ⟨c, -, hc⟩ := Go.bind_eq_ok.1 h
      cases hc
      exact ⟨rfl, rfl⟩
  · cases h
    exact ⟨rfl, rfl⟩

/-- A new node has no records, and the caller keeps its own. -/
theorem Added.held_eq {k : String × String} (h : Added s s' k node) (hnode : node.sysCallList = [])
    (e : ℕ) : (s'.mgr.nodes[e]?.map held).getD [] = (s.mgr.nodes[e]?.map held).getD [] := by
  rw [h.nodes e]
  by_cases he : e = s.mgr.nodes.length
  · subst he
    rw [if_pos rfl, List.getElem?_eq_none (le_refl _)]
    simp [held, hnode]
  · rw [if_neg he]
    cases s.mgr.nodes[e]? with
    | none => rfl
    | some c =>
      dsimp only [Option.map_some, Option.getD_some]
      split_ifs <;> rfl

theorem Placed.addTx (h : Placed s.mgr) (hn : Nested s) {o txId : String} {startTime : Int64}
    (hok : WellNested s (.addTx id o txId startTime))
    (hstep : s.step (.addTx id o txId startTime) = some s') : Placed s'.mgr := by
  have hheld := (added_of_step hn hok hstep).held_eq rfl
  obtain ⟨mgr, hmgr, rfl⟩ := Option.map_eq_some_iff.1 hstep
  obtain ⟨hpool, hcalls⟩ := addTx_sysCalls (Go.toOption_eq_some.1 hmgr)
  exact h.congr hpool (congrArg List.length hcalls) hheld

/-- Every node that finishes puts the records of the root. -/
theorem endInvoke_sysCalls {root : ℕ} (total : Int64) (ht : r.nodes[t]? = some node)
    (hroot : r.root? id node.originalTxId = some root) (hlt : root < r.nodes.length) :
    (r.endInvoke id t total).sysCallPool = r.sysCallPool ++ records r.nodes root ∧
      (r.endInvoke id t total).sysCalls = r.sysCalls := by
  rw [endInvoke_eq total ht hroot]
  unfold finishTxDuration
  dsimp only
  rw [getElem?_sealedNodes, getElem?_sealedNodes, List.getElem?_eq_getElem hlt, ht]
  refine ⟨?_, rfl⟩
  rw [records, List.getElem?_eq_getElem hlt]
  dsimp only [Option.map_some, Option.elim_some]
  split_ifs <;> rfl

theorem Finished.held_eq {k : String × String} {root : ℕ} (h : Finished s s' k t root node)
    (e : ℕ) : (s'.mgr.nodes[e]?.map held).getD [] =
      if e = t then [] else (s.mgr.nodes[e]?.map held).getD [] := by
  obtain ⟨total, hnodes⟩ := h.nodes
  rw [hnodes e]
  by_cases he : e = t
  · cases s.mgr.nodes[e]? <;> simp [held, afterFinish, he]
  · cases s.mgr.nodes[e]? <;> simp [held, afterFinish, he]

section
variable {root : ℕ} {total : Int64} {o : String}
  {node : TxDuration}

theorem Finished.sysCalls (hn : Nested s) (hf : Finished s s' (id, o) t root node)
    (hstep : s.step (.finishTx id t total) = some s') :
    s'.mgr.sysCallPool = s.mgr.sysCallPool ++ records s.mgr.nodes root ∧
      s'.mgr.sysCalls = s.mgr.sysCalls := by
  have hadded := ((hn.mem (id, o) t).1 (List.mem_of_getLast? hf.last)).1
  have horig := hn.orig t node (id, o) hf.node_eq hadded
  have hroot := hf.root_eq
  rw [← horig] at hroot
  obtain ⟨c, -, rfl⟩ := Option.map_eq_some_iff.1 hstep
  exact endInvoke_sysCalls total hf.node_eq hroot (AddedFor.lt hn (hn.rootAdded _ root hf.root_eq))

theorem Finished.rootSilent_iff (hn : Nested s) (hf : Finished s s' (id, o) t root node) :
    RootSilent s (.finishTx id t total) ↔ (root ≠ t → records s.mgr.nodes root = []) := by
  have hadded := ((hn.mem (id, o) t).1 (List.mem_of_getLast? hf.last)).1
  have horig := hn.orig t node (id, o) hf.node_eq hadded
  have hroot : s.mgr.root? id node.originalTxId = some root := by
    rw [horig]
    exact hf.root_eq
  constructor
  · intro h
    exact h node hf.node_eq root hroot
  · intro h node' hnode' root' hroot'
    cases hf.node_eq.symm.trans hnode'
    cases hroot.symm.trans hroot'
    exact h

/-- The root puts its own records, and a cross call none. -/
theorem Placed.finishTx (h : Placed s.mgr) (hn : Nested s) (hf : Finished s s' (id, o) t root node)
    (hstep : s.step (.finishTx id t total) = some s')
    (hsilent : root ≠ t → records s.mgr.nodes root = []) : Placed s'.mgr := by
  obtain ⟨hpool, hcalls⟩ := hf.sysCalls hn hstep
  have hopen := ((hn.mem (id, o) t).1 (List.mem_of_getLast? hf.last)).2
  have hplaces := hf.held_eq
  by_cases hroot : root = t
  · subst hroot
    rw [← places_of_unsealed hopen] at hpool
    constructor
    · refine h.once.merge (i := some root) (j := none) nofun hpool ?_ fun p hp hp' => ?_
      · exact (hplaces root).trans (if_pos rfl)
      · cases p with
        | none => exact absurd rfl hp'
        | some e => exact (hplaces e).trans (if_neg fun heq => hp (congrArg some heq))
    · intro p i hi
      rw [hcalls]
      cases p with
      | none =>
        have hi : i ∈ s'.mgr.sysCallPool := hi
        rw [hpool] at hi
        rcases List.mem_append.1 hi with hi | hi
        · exact h.lt (p := none) hi
        · exact h.lt hi
      | some e =>
        rw [places, hplaces e] at hi
        split_ifs at hi
        · cases hi
        · exact h.lt (p := some e) hi
  · rw [hsilent hroot, List.append_nil] at hpool
    have hfewer : Fewer (places s.mgr) (places s'.mgr) := by
      intro p
      cases p with
      | none => exact ⟨[], by rw [places, places, hpool, List.append_nil]⟩
      | some e =>
        rw [places, places, hplaces e]
        split_ifs
        · exact ⟨_, .refl _⟩
        · exact ⟨[], by rw [List.append_nil]⟩
    constructor
    · exact h.once.drop hfewer
    · intro p i hi
      rw [hcalls]
      exact h.lt (hfewer.mem hi)

/-- A cross call under a root with records puts them while the root is unfinished. -/
theorem Finished.not_recycled (hn : Nested s) (hf : Finished s s' (id, o) t root node)
    (hstep : s.step (.finishTx id t total) = some s') (hroot : root ≠ t)
    (hrecords : records s.mgr.nodes root ≠ []) : ¬ Recycled s'.mgr := by
  intro hrec
  obtain ⟨i, l, hil⟩ := List.exists_cons_of_ne_nil hrecords
  have hi : i ∈ records s.mgr.nodes root := by
    rw [hil]
    exact List.mem_cons_self
  -- the root comes first among the calls of its transaction
  obtain ⟨e, l', hl'⟩ := List.exists_cons_of_ne_nil fun hnil : s.calls (id, o) = [] => by
    have hlast := hf.last
    rw [hnil] at hlast
    cases hlast
  have hre : root = e := Option.some.inj (hf.root_eq.symm.trans (hn.root (id, o) e l' hl'))
  have hopen : BlockTxsDurationMgr.unsealed s.mgr.nodes root = true := by
    refine ((hn.mem (id, o) root).1 ?_).2
    rw [hl', hre]
    exact List.mem_cons_self
  have hopen' : BlockTxsDurationMgr.unsealed s'.mgr.nodes root = true := by
    rw [hf.unsealed, if_neg hroot]
    exact hopen
  have hkeep : records s'.mgr.nodes root = records s.mgr.nodes root := by
    rw [← places_of_unsealed hopen', ← places_of_unsealed hopen]
    exact (hf.held_eq root).trans (if_neg hroot)
  refine hrec.dead root hopen' i ?_ ?_
  · rw [hkeep]
    exact hi
  · rw [(hf.sysCalls hn hstep).1]
    exact List.mem_append_right _ hi

end

theorem held_modify {nodes : List TxDuration} (he : unsealed nodes e = true) (i n : ℕ) :
    ((nodes.modify e fun node =>
      { node with sysCallList := node.sysCallList ++ [i] })[n]?.map held).getD [] =
      (nodes[n]?.map held).getD [] ++ if n = e then [i] else [] := by
  obtain ⟨node, hnode, hsealed⟩ := exists_of_unsealed he
  rw [List.getElem?_modify]
  by_cases hn : n = e
  · subst hn
    simp [hnode, held, hsealed]
  · have hn' : ¬ e = n := fun heq => hn heq.symm
    cases nodes[n]? <;> simp [hn, hn']

/-- A new record goes to the list of the node. -/
theorem Placed.startSysCall_new (h : Placed r) (he : unsealed r.nodes e = true)
    {msgType : Runtime.DockerVMType} {now : Int64}
    (hstart : r.startSysCall e msgType now none = some r') : Placed r' := by
  cases hstart
  have hheld := held_modify he
  have hnew : ∀ {p x}, x ∈ places r p → id x ≠ id r.sysCalls.length := fun hx => (h.lt hx).ne
  constructor
  · refine h.once.add (i := some e) hnew ?_ fun p hp => ?_
    · rw [places, hheld, if_pos rfl]
      exact List.perm_append_singleton _ _
    · cases p with
      | none => rfl
      | some n =>
        rw [places, hheld, if_neg fun heq => hp (congrArg some heq), List.append_nil]
        rfl
  · intro p x hx
    dsimp only
    rw [List.length_append, List.length_singleton]
    cases p with
    | none => exact Nat.lt_succ_of_lt (h.lt (p := none) hx)
    | some n =>
      rw [places, hheld] at hx
      rcases List.mem_append.1 hx with hx | hx
      · exact Nat.lt_succ_of_lt (h.lt (p := some n) hx)
      · split_ifs at hx
        · rw [List.mem_singleton.1 hx]
          exact Nat.lt_succ_self _
        · cases hx

/-- A record of the pool moves to the list of the node. -/
theorem Placed.startSysCall_pooled (h : Placed r) {i : ℕ} (he : unsealed r.nodes e = true)
    {msgType : Runtime.DockerVMType} {now : Int64}
    (hstart : r.startSysCall e msgType now (some i) = some r') : Placed r' := by
  obtain ⟨⟨r₁, j⟩, h₁, rfl⟩ := Option.map_eq_some_iff.1 hstart
  have h₁ : (if i ∈ r.sysCallPool then _ else none) = some (r₁, j) := h₁
  split_ifs at h₁ with hi
  cases h₁
  have hheld := held_modify he
  have htaken : (places r none).Perm (r.sysCallPool.erase i ++ [i]) :=
    (List.perm_cons_erase hi).trans (List.perm_append_singleton _ _).symm
  have hfewer := Fewer.update [i] htaken
  suffices hmove : Once id (places _) ∧ ∀ p x, x ∈ places _ p → ∃ m, x ∈ places r m by
    refine ⟨hmove.1, fun {p x} hx => ?_⟩
    obtain ⟨m, hm⟩ := hmove.2 p x hx
    dsimp only
    rw [List.length_set]
    exact h.lt hm
  refine h.once.move _ hfewer (i := none) (j := some e) (a := i) ?_ ?_ fun p hp => ?_
  · rw [Function.update_self]
    exact htaken
  · rw [places, hheld, if_pos rfl, Function.update_of_ne (Option.some_ne_none _)]
    exact List.perm_append_singleton _ _
  · cases p with
    | none =>
      rw [Function.update_self]
      rfl
    | some n =>
      rw [places, hheld, if_neg fun heq => hp (congrArg some heq), List.append_nil,
        Function.update_of_ne (Option.some_ne_none _)]
      rfl

theorem held_addSysCallDuration (node : TxDuration) (call : SysCallDuration) :
    held (node.addSysCallDuration call) = held node := by
  unfold TxDuration.addSysCallDuration
  split <;> rfl

theorem Placed.endSysCall (h : Placed r) (e : ℕ) (now : Int64) : Placed (r.endSysCall e now) := by
  unfold BlockTxsDurationMgr.endSysCall
  split
  · exact h
  · refine h.congr rfl (List.length_set ..) fun n => ?_
    dsimp only
    rw [List.getElem?_modify]
    cases r.nodes[n]? with
    | none => rfl
    | some node => by_cases hn : e = n <;> simp [hn, held_addSysCallDuration]

theorem Placed.addStorage (h : Placed r) (e : ℕ) (duration : Int64) :
    Placed (r.addLatestStorageDuration e duration) := by
  unfold addLatestStorageDuration
  split
  · exact h
  · exact h.congr rfl (List.length_modify ..) fun n => rfl

/-! ## Every step -/

theorem Nested.unsealed_of_unfinished (hn : Nested s) (h : s.Unfinished e) :
    unsealed s.mgr.nodes e = true := by
  obtain ⟨x, -, hx⟩ := h
  exact ((hn.mem x.1 e).1 hx).2

theorem Placed.step {a : Action} (h : Placed s.mgr) (hn : Nested s) (hok : WellNested s a)
    (hsilent : RootSilent s a) (hstep : s.step a = some s') : Placed s'.mgr := by
  cases a with
  | addBlock id =>
    cases hstep
    dsimp only
    unfold addBlockTxsDuration
    split
    · exact h
    · exact h.congr rfl rfl fun n => rfl
  | addTx id o txId startTime => exact h.addTx hn hok hstep
  | finishTx id t total =>
    obtain ⟨o, root, node, hf⟩ := finished_of_step hn hok hstep
    exact h.finishTx hn hf hstep ((hf.rootSilent_iff hn).1 hsilent)
  | startSysCall e msgType now got =>
    obtain ⟨r', hr', rfl⟩ := Option.map_eq_some_iff.1 hstep
    have hopen := hn.unsealed_of_unfinished hok
    cases got with
    | none => exact h.startSysCall_new hopen hr'
    | some i => exact h.startSysCall_pooled hopen hr'
  | addStorage e duration =>
    cases hstep
    exact h.addStorage e duration
  | endSysCall e now =>
    cases hstep
    exact h.endSysCall e now

/-- Cross calls finish only under roots without records. -/
def Silent (s : Invocations) (a : Action) : Prop := WellNested s a ∧ RootSilent s a

instance : DecidableRel Silent := fun _ _ => inferInstanceAs (Decidable (_ ∧ _))

theorem placed_of_reach (h : Reach step Silent init s) : Nested s ∧ Placed s.mgr :=
  h.inv (I := fun s => Nested s ∧ Placed s.mgr) ⟨nested_init, placed_new⟩ fun hinv hok hstep =>
    ⟨step_nested hinv.1 hok.1 hstep, hinv.2.step hinv.1 hok.1 hok.2 hstep⟩

/-- **Records are recycled when dead.**  As long as cross calls finish only under roots without
    records, the pool has no record of an unfinished node and none twice.  The first well-nested
    step that is not so breaks it. -/
theorem records_recycled {s : Invocations} (h : Reach step Silent init s) :
    Recycled s.mgr ∧ ∀ a s', WellNested s a → s.step a = some s' →
      (Recycled s'.mgr ↔ RootSilent s a) := by
  obtain ⟨hn, hp⟩ := placed_of_reach h
  refine ⟨hp.recycled, fun a s' hok hstep => ⟨fun hrec => ?_, fun hsilent => ?_⟩⟩
  · cases a with
    | finishTx id t total =>
      obtain ⟨o, root, node, hf⟩ := finished_of_step hn hok hstep
      refine (hf.rootSilent_iff hn).2 fun hroot => ?_
      by_contra hrecords
      exact hf.not_recycled hn hstep hroot hrecords hrec
    | _ => trivial
  · exact (hp.step hn hok hsilent hstep).recycled

/-- A root without records has a cross call, which makes and finishes a system call. -/
def silentRun : List Action :=
  [.addBlock "block", .addTx "block" "tx" "tx1" 0, .addTx "block" "tx" "tx2" 1,
    .startSysCall 1 .getStateRequest 2 none, .endSysCall 1 3, .finishTx "block" 1 2,
    .startSysCall 0 .getStateRequest 4 none, .endSysCall 0 5, .finishTx "block" 0 5]

theorem records_recycled_silent :
    ∃ s, Reach step Silent init s ∧ s.mgr.sysCallPool = [1] ∧ Recycled s.mgr := by
  obtain ⟨s, hs, hpool⟩ := exists_reach step Silent init (fun s => s.mgr.sysCallPool == [1])
    silentRun (by decide)
  exact ⟨s, hs, beq_iff_eq.1 hpool, (records_recycled hs).1⟩

/-- A root with the record of a cross call, which finishes. -/
def crossRun : List Action :=
  [.addBlock "block", .addTx "block" "tx" "tx1" 0, .startSysCall 0 .callContractRequest 1 none,
    .addTx "block" "tx" "tx2" 2, .finishTx "block" 1 1]

/-- The record of the unfinished root is in the pool, and when the root finishes it is there
    twice. -/
theorem records_recycled_alive :
    (∃ s, Reach step WellNested init s ∧ s.Unfinished 0 ∧ records s.mgr.nodes 0 = [0] ∧
      s.mgr.sysCallPool = [0]) ∧
    ∃ s, Reach step WellNested init s ∧ s.mgr.sysCallPool = [0, 0] := by
  constructor
  · obtain ⟨s, hs, hP⟩ := exists_reach step WellNested init (fun s => decide (s.Unfinished 0 ∧
      records s.mgr.nodes 0 = [0] ∧ s.mgr.sysCallPool = [0])) crossRun (by decide)
    exact ⟨s, hs, of_decide_eq_true hP⟩
  · obtain ⟨s, hs, hP⟩ := exists_reach step WellNested init
      (fun s => s.mgr.sysCallPool == [0, 0]) (crossRun ++ [.finishTx "block" 0 4]) (by decide)
    exact ⟨s, hs, beq_iff_eq.1 hP⟩

end Invocations

end VmEngine.Utils
