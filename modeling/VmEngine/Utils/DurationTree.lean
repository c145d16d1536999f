/-
  The tree of durations mirrors the tree of calls.

  `Invocations` runs the statistics next to the calls themselves: `calls` has the
  unfinished invocations of each original transaction, the latest last, and `log` for
  each node the transaction it was added for and what was recorded in it.  Calls are
  well nested (`WellNested`): only the first node of a transaction has no caller, the
  caller of the others is the latest unfinished one, and the latest finishes first.

  The code does not know the caller.  `getCallerNode` searches it from the root, through
  the first unsealed child of each node.  `Nested` is why it finds it: the unsealed nodes
  of a tree are one path from its root.
-/
import VmEngine.Utils.Durations
import VmEngine.Lib.System
import VmEngine.Lib.Indexed

namespace VmEngine.Utils

open BlockTxsDurationMgr

structure Invocations where
  mgr : BlockTxsDurationMgr
  calls : String × String → List ℕ
  log : List ((String × String) × Counters)

namespace Invocations

def init : Invocations := ⟨.new, fun _ => [], []⟩

inductive Action where
  | addBlock (id : String)
  /-- `Invoke` makes a node and adds it -/
  | addTx (id originalTxId txId : String) (startTime : Int64)
  /-- `Invoke` returns -/
  | finishTx (id : String) (t : ℕ) (totalDuration : Int64)
  | startSysCall (e : ℕ) (msgType : Runtime.DockerVMType) (now : Int64) (got : Option ℕ)
  | addStorage (e : ℕ) (duration : Int64)
  | endSysCall (e : ℕ) (now : Int64)

/-- What the end of a system call records. -/
def ended (s : Invocations) (e : ℕ) (now : Int64) : Counters :=
  ((s.mgr.endedSysCall e now).map fun c => TxDuration.recordOf c.2).getD 0

def step (s : Invocations) : Action → Option Invocations
  | .addBlock id => some { s with mgr := s.mgr.addBlockTxsDuration id }
  | .addTx id originalTxId txId startTime =>
    let t := s.mgr.nodes.length
    let mgr := { s.mgr with nodes := s.mgr.nodes ++ [TxDuration.new originalTxId txId startTime] }
    (mgr.addTx id t).toOption.map fun mgr =>
      { mgr := mgr
        calls := Function.update s.calls (id, originalTxId) (s.calls (id, originalTxId) ++ [t])
        log := s.log ++ [((id, originalTxId), 0)] }
  | .finishTx id t totalDuration =>
    s.mgr.nodes[t]?.map fun node =>
      { s with
        mgr := s.mgr.endInvoke id t totalDuration
        calls := Function.update s.calls (id, node.originalTxId)
          (s.calls (id, node.originalTxId)).dropLast }
  | .startSysCall e msgType now got =>
    (s.mgr.startSysCall e msgType now got).map fun mgr => { s with mgr := mgr }
  | .addStorage e duration => some { s with mgr := s.mgr.addLatestStorageDuration e duration }
  | .endSysCall e now =>
    some { s with
      mgr := s.mgr.endSysCall e now
      log := s.log.modify e fun h => (h.1, h.2 + s.ended e now) }

/-- The node belongs to an invocation that has not returned. -/
def Unfinished (s : Invocations) (e : ℕ) : Prop := ∃ h ∈ s.log[e]?, e ∈ s.calls h.1

instance (s : Invocations) (e : ℕ) : Decidable (s.Unfinished e) :=
  inferInstanceAs (Decidable (∃ h ∈ s.log[e]?, _))

/-- Calls are well nested, and system calls are made by unfinished invocations. -/
def WellNested (s : Invocations) : Action → Prop
  | .addBlock _ => True
  | .addTx id originalTxId _ _ =>
    (s.mgr.blockDurations.get? id).isSome = true ∧
      (s.mgr.root? id originalTxId = none ∨ s.calls (id, originalTxId) ≠ [])
  | .finishTx id t _ =>
    ∃ node ∈ s.mgr.nodes[t]?, (s.calls (id, node.originalTxId)).getLast? = some t
  | .startSysCall e _ _ _ | .addStorage e _ | .endSysCall e _ => s.Unfinished e

instance : DecidableRel WellNested
  | _, .addBlock _ => instDecidableTrue
  | _, .addTx _ _ _ _ => inferInstanceAs (Decidable (_ ∧ _))
  | s, .finishTx _ t _ => inferInstanceAs (Decidable (∃ node ∈ s.mgr.nodes[t]?, _))
  | s, .startSysCall e _ _ _ => inferInstanceAs (Decidable (s.Unfinished e))
  | s, .addStorage e _ => inferInstanceAs (Decidable (s.Unfinished e))
  | s, .endSysCall e _ => inferInstanceAs (Decidable (s.Unfinished e))

end Invocations

/-! ## Open paths -/

/-- The children of a node. -/
def kids (nodes : List TxDuration) (n : ℕ) : List ℕ := nodes[n]?.elim [] (·.crossCallList)

/-- A path of unsealed nodes: each is the last child of the one before it, and the other
    children of nodes on the path are sealed. -/
def OpenPath (nodes : List TxDuration) : List ℕ → Prop
  | [] => True
  | [e] => unsealed nodes e = true ∧ ∀ x ∈ kids nodes e, unsealed nodes x = false
  | e :: c :: l => unsealed nodes e = true ∧
      (∃ xs, kids nodes e = xs ++ [c] ∧ ∀ x ∈ xs, unsealed nodes x = false) ∧ OpenPath nodes (c :: l)

variable {nodes nodes' : List TxDuration}

/-- What the shape of the trees depends on. -/
def shape (node : TxDuration) : List ℕ × Bool × String :=
  (node.crossCallList, node.sealed, node.originalTxId)

theorem kids_congr (h : nodes'.map shape = nodes.map shape) (n : ℕ) : kids nodes' n = kids nodes n := by
  have hn : nodes'[n]?.map shape = nodes[n]?.map shape := by
    rw [← List.getElem?_map, h, List.getElem?_map]
  unfold kids
  cases h' : nodes'[n]? <;> cases hs : nodes[n]? <;> rw [h', hs] at hn <;> simp_all [shape]

theorem unsealed_congr (h : nodes'.map shape = nodes.map shape) (n : ℕ) :
    unsealed nodes' n = unsealed nodes n := by
  have hn : nodes'[n]?.map shape = nodes[n]?.map shape := by
    rw [← List.getElem?_map, h, List.getElem?_map]
  unfold unsealed
  cases h' : nodes'[n]? <;> cases hs : nodes[n]? <;> rw [h', hs] at hn <;> simp_all [shape]

/-- An update that keeps the shape of a node. -/
theorem map_shape_modify {f : TxDuration → TxDuration} (hf : ∀ n, shape (f n) = shape n)
    (nodes : List TxDuration) (e : ℕ) : (nodes.modify e f).map shape = nodes.map shape := by
  apply List.ext_getElem?
  intro n
  rw [List.getElem?_map, List.getElem?_map, List.getElem?_modify]
  cases nodes[n]? with
  | none => rfl
  | some node => by_cases h : e = n <;> simp [h, hf]

variable {e : ℕ} {l : List ℕ}

theorem exists_of_unsealed (h : unsealed nodes e = true) :
    ∃ node, nodes[e]? = some node ∧ node.sealed = false := by
  obtain ⟨node, hnode, hs⟩ := (Option.any_eq_true _ _).1 h
  exact ⟨node, hnode, by simpa using hs⟩

theorem OpenPath.head (h : OpenPath nodes (e :: l)) : unsealed nodes e = true := by
  cases l with
  | nil => exact h.1
  | cons c l => exact h.1

/-- The search ends at the last node of an open path. -/
theorem getCallerNode_eq (h : OpenPath nodes (e :: l)) {depth : ℕ} (hd : l.length < depth) :
    getCallerNode nodes depth e = .ok ((e :: l).getLast (List.cons_ne_nil e l)) := by
  induction l generalizing e depth with
  | nil =>
    obtain ⟨depth, rfl⟩ : ∃ d, depth = d + 1 := ⟨depth - 1, by omega⟩
    obtain ⟨node, hnode, -⟩ := exists_of_unsealed h.1
    have hnone : node.crossCallList.find? (unsealed nodes) = none := by
      rw [List.find?_eq_none]
      intro x hx
      simpa using h.2 x (by rwa [kids, hnode])
    simp only [getCallerNode, hnode, hnone, List.getLast_singleton]
  | cons c l ih =>
    obtain ⟨depth, rfl⟩ : ∃ d, depth = d + 1 := ⟨depth - 1, by omega⟩
    obtain ⟨node, hnode, -⟩ := exists_of_unsealed h.1
    obtain ⟨xs, hkids, hxs⟩ := h.2.1
    have hfind : node.crossCallList.find? (unsealed nodes) = some c := by
      rw [kids, hnode] at hkids
      rw [show node.crossCallList = xs ++ [c] from hkids, List.find?_append,
        List.find?_eq_none.2 fun x hx => by simpa using hxs x hx]
      simp [h.2.2.head]
    have hlen : l.length < depth := by
      simp only [List.length_cons] at hd
      omega
    simp only [getCallerNode, hnode, hfind, ih h.2.2 hlen, List.getLast_cons_cons]

/-- Nodes outside the path, and what is not seal or children, do not matter. -/
theorem OpenPath.congr (h : OpenPath nodes l) (hkids : ∀ n ∈ l, kids nodes' n = kids nodes n)
    (hopen : ∀ n ∈ l, unsealed nodes n = true → unsealed nodes' n = true)
    (hsealed : ∀ n ∈ l, ∀ x ∈ kids nodes n, unsealed nodes x = false → unsealed nodes' x = false) :
    OpenPath nodes' l := by
  induction l with
  | nil => trivial
  | cons e l ih =>
    have hk := hkids e List.mem_cons_self
    have ho := hopen e List.mem_cons_self
    have hs := hsealed e List.mem_cons_self
    cases l with
    | nil => exact ⟨ho h.1, fun x hx => hs x (hk ▸ hx) (h.2 x (hk ▸ hx))⟩
    | cons c l =>
      obtain ⟨xs, hxs, hall⟩ := h.2.1
      refine ⟨ho h.1, ⟨xs, hk.trans hxs, fun x hx => hs x ?_ (hall x hx)⟩, ih h.2.2 ?_ ?_ ?_⟩
      · rw [hxs]
        exact List.mem_append_left _ hx
      · exact fun n hn => hkids n (List.mem_cons_of_mem e hn)
      · exact fun n hn => hopen n (List.mem_cons_of_mem e hn)
      · exact fun n hn => hsealed n (List.mem_cons_of_mem e hn)

/-- A new node under the last one of the path. -/
theorem OpenPath.push {c t : ℕ} (h : OpenPath nodes l) (hnd : l.Nodup) (hlast : l.getLast? = some c)
    (hkc : kids nodes' c = kids nodes c ++ [t])
    (hkids : ∀ n ∈ l, n ≠ c → kids nodes' n = kids nodes n)
    (hopen : ∀ n, unsealed nodes n = true → unsealed nodes' n = true)
    (hsealed : ∀ n ∈ l, ∀ x ∈ kids nodes n, unsealed nodes x = false → unsealed nodes' x = false)
    (ht : unsealed nodes' t = true) (hkt : kids nodes' t = []) : OpenPath nodes' (l ++ [t]) := by
  induction l with
  | nil => cases hlast
  | cons e l ih =>
    have hs := hsealed e List.mem_cons_self
    have hopent : OpenPath nodes' [t] := ⟨ht, fun x hx => by rw [hkt] at hx; cases hx⟩
    cases l with
    | nil =>
      cases hlast
      exact ⟨hopen e h.1, ⟨kids nodes e, hkc, fun x hx => hs x hx (h.2 x hx)⟩, hopent⟩
    | cons c' l =>
      rw [List.getLast?_cons_cons] at hlast
      obtain ⟨hne, hnd⟩ := List.nodup_cons.1 hnd
      have hec : e ≠ c := fun heq => hne (heq ▸ List.mem_of_getLast? hlast)
      obtain ⟨xs, hxs, hall⟩ := h.2.1
      refine ⟨hopen e h.1, ⟨xs, (hkids e List.mem_cons_self hec).trans hxs, fun x hx => ?_⟩,
        ih h.2.2 hnd hlast ?_ ?_⟩
      · exact hs x (by rw [hxs]; exact List.mem_append_left _ hx) (hall x hx)
      · exact fun n hn => hkids n (List.mem_cons_of_mem e hn)
      · exact fun n hn => hsealed n (List.mem_cons_of_mem e hn)

/-- The last node of the path is sealed. -/
theorem OpenPath.pop {t : ℕ} (h : OpenPath nodes l) (hnd : l.Nodup) (hlast : l.getLast? = some t)
    (hkids : ∀ n, kids nodes' n = kids nodes n) (ht : unsealed nodes' t = false)
    (hother : ∀ n, n ≠ t → unsealed nodes' n = unsealed nodes n) : OpenPath nodes' l.dropLast := by
  have hsealed : ∀ n, unsealed nodes n = false → unsealed nodes' n = false := by
    intro n hn
    by_cases hnt : n = t
    · rw [hnt, ht]
    · rw [hother n hnt, hn]
  induction l with
  | nil => trivial
  | cons e l ih =>
    cases l with
    | nil => trivial
    | cons c l =>
      rw [List.getLast?_cons_cons] at hlast
      obtain ⟨hne, hnd⟩ := List.nodup_cons.1 hnd
      have het : e ≠ t := fun heq => hne (heq ▸ List.mem_of_getLast? hlast)
      have hopen : unsealed nodes' e = true := (hother e het).trans h.1
      obtain ⟨xs, hxs, hall⟩ := h.2.1
      have hrest := ih h.2.2 hnd hlast
      cases l with
      | nil =>
        cases hlast
        refine ⟨hopen, fun x hx => ?_⟩
        rw [hkids, hxs] at hx
        rcases List.mem_append.1 hx with hx | hx
        · exact hsealed x (hall x hx)
        · rw [List.mem_singleton.1 hx]
          exact ht
      | cons d l =>
        exact ⟨hopen, ⟨xs, (hkids e).trans hxs, fun x hx => hsealed x (hall x hx)⟩, hrest⟩

/-! ## The shape of the trees -/

namespace Invocations

/-- The node was added for the transaction. -/
def AddedFor (s : Invocations) (k : String × String) (n : ℕ) : Prop := s.log[n]?.map Prod.fst = some k

/-- The unfinished invocations of each transaction are the unsealed nodes of its tree, and they
    form an open path from the root. -/
structure Nested (s : Invocations) : Prop where
  length : s.log.length = s.mgr.nodes.length
  orig : ∀ n node k, s.mgr.nodes[n]? = some node → s.AddedFor k n → node.originalTxId = k.2
  mem : ∀ k n, n ∈ s.calls k ↔ s.AddedFor k n ∧ unsealed s.mgr.nodes n = true
  nodup : ∀ k, (s.calls k).Nodup
  path : ∀ k, OpenPath s.mgr.nodes (s.calls k)
  root : ∀ k e l, s.calls k = e :: l → s.mgr.root? k.1 k.2 = some e
  rootAdded : ∀ k r, s.mgr.root? k.1 k.2 = some r → s.AddedFor k r
  kidsAdded : ∀ k n c, s.AddedFor k n → c ∈ kids s.mgr.nodes n → s.AddedFor k c

theorem nested_init : Nested init where
  length := rfl
  orig n node k h := by cases h
  mem k n := by simp [init, AddedFor]
  nodup k := List.nodup_nil
  path k := trivial
  root k e l h := by cases h
  rootAdded k r h := by cases h
  kidsAdded k n c h := by simp [init, AddedFor] at h

variable {e n root t : ℕ} {id o : String} {k : String × String} {node : TxDuration}
  {r r' : BlockTxsDurationMgr} {s s' : Invocations}

/-- Steps that touch neither seals, children nor roots. -/
theorem Nested.frame (h : Nested s) (hcalls : s'.calls = s.calls)
    (hlog : s'.log.map Prod.fst = s.log.map Prod.fst)
    (hroot : ∀ id o, s'.mgr.root? id o = s.mgr.root? id o)
    (hnodes : s'.mgr.nodes.map shape = s.mgr.nodes.map shape) : Nested s' := by
  have hadded : ∀ k n, s'.AddedFor k n ↔ s.AddedFor k n := by
    intro k n
    unfold AddedFor
    rw [← List.getElem?_map, hlog, List.getElem?_map]
  have hopen := unsealed_congr hnodes
  have hkids := kids_congr hnodes
  refine ⟨?_, fun n node k hn hk => ?_, fun k n => ?_, fun k => ?_, fun k => ?_, fun k e l hl => ?_,
    fun k r hr => ?_, fun k n c hk hc => ?_⟩
  · have hl := congrArg List.length hlog
    have hn := congrArg List.length hnodes
    rw [List.length_map, List.length_map] at hl hn
    rw [hl, hn, h.length]
  · have hmap : (s.mgr.nodes[n]?).map shape = some (shape node) := by
      rw [← List.getElem?_map, ← hnodes, List.getElem?_map, hn]
      rfl
    obtain ⟨node', hn', hshape⟩ := Option.map_eq_some_iff.1 hmap
    rw [← h.orig n node' k hn' ((hadded k n).1 hk)]
    exact (congrArg (·.2.2) hshape).symm
  · rw [hcalls, h.mem k n, hadded, hopen]
  · rw [hcalls]
    exact h.nodup k
  · rw [hcalls]
    exact (h.path k).congr (fun n _ => hkids n) (fun n _ hn => (hopen n).trans hn)
      fun n _ x _ hx => (hopen x).trans hx
  · rw [hcalls] at hl
    rw [hroot]
    exact h.root k e l hl
  · rw [hroot] at hr
    exact (hadded k r).2 (h.rootAdded k r hr)
  · rw [hkids] at hc
    exact (hadded k c).2 (h.kidsAdded k n c ((hadded k n).1 hk) hc)

theorem AddedFor.lt (h : Nested s) (hn : s.AddedFor k n) : n < s.mgr.nodes.length := by
  obtain ⟨x, hx, -⟩ := Option.map_eq_some_iff.1 hn
  rw [← h.length]
  exact (List.getElem?_eq_some_iff.1 hx).1

theorem AddedFor.unique {k' : String × String} (h : s.AddedFor k n) (h' : s.AddedFor k' n) :
    k = k' := Option.some.inj (h.symm.trans h')

/-! ## A node is added -/

/-- What `AddTx` of the next node does: it becomes the root, or the last child of the latest
    unfinished node. -/
structure Added (s s' : Invocations) (k : String × String) (node : TxDuration) : Prop where
  log : s'.log = s.log ++ [(k, 0)]
  calls : s'.calls = Function.update s.calls k (s.calls k ++ [s.mgr.nodes.length])
  length : s'.mgr.nodes.length = s.mgr.nodes.length + 1
  nodes : ∀ n, s'.mgr.nodes[n]? = if n = s.mgr.nodes.length then some node else
    s.mgr.nodes[n]?.map fun c => if (s.calls k).getLast? = some n then
      { c with crossCallList := c.crossCallList ++ [s.mgr.nodes.length] } else c
  root : ∀ k', s'.mgr.root? k'.1 k'.2 =
    if k' = k then (s.calls k ++ [s.mgr.nodes.length]).head? else s.mgr.root? k'.1 k'.2
  blocks : ∀ id, (s'.mgr.blockDurations.get? id).isSome = (s.mgr.blockDurations.get? id).isSome

theorem root?_put {txs : LinkedMap String ℕ} (h : r.blockDurations.get? id = some txs)
    (h' : r'.blockDurations = r.blockDurations.put id (txs.put o t)) (id' o' : String) :
    r'.root? id' o' = if id' = id ∧ o' = o then some t else r.root? id' o' := by
  unfold root?
  rw [h', LinkedMap.get?_put]
  by_cases hid : id' = id
  · subst hid
    rw [if_pos rfl, Option.bind_some, LinkedMap.get?_put, h]
    simp
  · simp [hid]

theorem Nested.calls_lt (h : Nested s) (hn : n ∈ s.calls k) :
    n < s.mgr.nodes.length := AddedFor.lt h ((h.mem k n).1 hn).1

/-- The path in the nodes with a new one at the end. -/
theorem Nested.path_concat (h : Nested s) (k : String × String) (x : TxDuration) :
    OpenPath (s.mgr.nodes ++ [x]) (s.calls k) := by
  have hkeep : ∀ n, n < s.mgr.nodes.length → (s.mgr.nodes ++ [x])[n]? = s.mgr.nodes[n]? :=
    fun n hn => List.getElem?_append_left hn
  refine (h.path k).congr (fun n hn => ?_) (fun n _ hn => ?_) (fun n hn y hy hsealed => ?_)
  · unfold kids
    rw [hkeep n (h.calls_lt hn)]
  · obtain ⟨node, hnode, -⟩ := exists_of_unsealed hn
    unfold unsealed
    rw [hkeep n (List.getElem?_eq_some_iff.1 hnode).1]
    exact hn
  · unfold unsealed
    rw [hkeep y (AddedFor.lt h (h.kidsAdded k n y ((h.mem k n).1 hn).1 hy))]
    exact hsealed

/-- The caller that the code finds is the latest unfinished node. -/
theorem Nested.getCallerNode (h : Nested s) {c : ℕ} (hlast : (s.calls k).getLast? = some c)
    (hroot : s.mgr.root? k.1 k.2 = some e) {nodes : List TxDuration}
    (hpath : OpenPath nodes (s.calls k)) {depth : ℕ} (hd : s.mgr.nodes.length ≤ depth) :
    BlockTxsDurationMgr.getCallerNode nodes depth e = .ok c := by
  rcases hl : s.calls k with _ | ⟨e', l⟩
  · rw [hl] at hlast
    cases hlast
  · have hnd := h.nodup k
    rw [h.root k e' l hl] at hroot
    cases hroot
    rw [hl] at hlast hpath hnd
    have hlen : (e :: l).length ≤ s.mgr.nodes.length := by
      refine le_trans ?_ (List.length_range (n := s.mgr.nodes.length)).le
      refine (hnd.subperm fun n hn => ?_).length_le
      rw [List.mem_range]
      exact h.calls_lt (hl ▸ hn)
    rw [getCallerNode_eq hpath (by simp only [List.length_cons] at hlen; omega)]
    rw [List.getLast?_eq_some_getLast (List.cons_ne_nil e l)] at hlast
    rw [Option.some.inj hlast]

theorem added_of_step (h : Nested s) {txId : String} {startTime : Int64}
    (hok : WellNested s (.addTx id o txId startTime))
    (hstep : s.step (.addTx id o txId startTime) = some s') :
    Added s s' (id, o) (.new o txId startTime) := by
  obtain ⟨hblock, hroot⟩ := hok
  obtain ⟨txs, htxs⟩ := Option.isSome_iff_exists.1 hblock
  have hroot? : s.mgr.root? id o = txs.get? o := by simp [root?, htxs]
  have horig : (TxDuration.new o txId startTime).originalTxId = o := rfl
  obtain ⟨mgr, hmgr, rfl⟩ := Option.map_eq_some_iff.1 hstep
  have hmgr := Go.toOption_eq_some.1 hmgr
  generalize TxDuration.new o txId startTime = node at *
  simp only [BlockTxsDurationMgr.addTx, htxs, List.getElem?_concat_length, horig] at hmgr
  rcases hr : txs.get? o with _ | root
  · -- the first node of the transaction
    have hcalls : s.calls (id, o) = [] := by
      rcases hl : s.calls (id, o) with _ | ⟨e, l⟩
      · rfl
      · rw [← hroot?, h.root (id, o) e l hl] at hr
        cases hr
    simp only [hr] at hmgr
    cases hmgr
    refine ⟨rfl, rfl, List.length_append, fun n => ?_, fun k' => ?_, fun id' => ?_⟩
    · rw [getElem?_concat]
      simp only [hcalls, List.getLast?_nil, reduceCtorEq, if_false, Option.map_id']
    · rw [root?_put htxs rfl]
      simp only [hcalls, List.nil_append, List.head?_cons, Prod.ext_iff]
    · dsimp only
      rw [LinkedMap.get?_put]
      split_ifs with hid
      · rw [hid, htxs]
        rfl
      · rfl
  · -- a later one
    have hne : s.calls (id, o) ≠ [] := by
      rcases hroot with hnone | hne
      · rw [hroot?, hr] at hnone
        cases hnone
      · exact hne
    have hlast := List.getLast?_eq_some_getLast hne
    generalize (s.calls (id, o)).getLast hne = c at hlast
    have hcaller : BlockTxsDurationMgr.getCallerNode (s.mgr.nodes ++ [node])
        (s.mgr.nodes ++ [node]).length root = .ok c :=
      h.getCallerNode hlast (hroot?.trans hr) (h.path_concat (id, o) node)
        (by rw [List.length_append]; omega)
    simp only [hr, hcaller] at hmgr
    cases hmgr
    refine ⟨rfl, rfl, ?_, fun n => ?_, fun k' => ?_, fun id' => rfl⟩
    · rw [List.length_modify, List.length_append]
      rfl
    · dsimp only
      rw [List.getElem?_modify, getElem?_concat]
      have hlt := h.calls_lt (List.mem_of_getLast? hlast)
      by_cases hn : n = s.mgr.nodes.length
      · have hcn : ¬ c = n := by omega
        rw [if_pos hn, if_pos hn]
        simp [hcn]
      · rw [if_neg hn, if_neg hn]
        cases s.mgr.nodes[n]? <;> simp [hlast]
    · split_ifs with hk
      · subst hk
        rcases hl : s.calls (id, o) with _ | ⟨e, l⟩
        · exact absurd hl hne
        · exact h.root (id, o) e l hl
      · rfl

theorem Added.unsealed (h : Added s s' k node) (hnode : node.sealed = false) (n : ℕ) :
    BlockTxsDurationMgr.unsealed s'.mgr.nodes n =
      if n = s.mgr.nodes.length then true else BlockTxsDurationMgr.unsealed s.mgr.nodes n := by
  unfold BlockTxsDurationMgr.unsealed
  rw [h.nodes n]
  by_cases hn : n = s.mgr.nodes.length
  · simp [hn, hnode]
  · rw [if_neg hn, if_neg hn]
    by_cases hl : (s.calls k).getLast? = some n <;> cases s.mgr.nodes[n]? <;> simp [hl]

theorem Added.kids (hs : Nested s) (h : Added s s' k node) (hnode : node.crossCallList = []) (n : ℕ)
    :
    Utils.kids s'.mgr.nodes n =
      if n = s.mgr.nodes.length then []
      else if (s.calls k).getLast? = some n then Utils.kids s.mgr.nodes n ++ [s.mgr.nodes.length]
      else Utils.kids s.mgr.nodes n := by
  unfold Utils.kids
  rw [h.nodes n]
  by_cases hn : n = s.mgr.nodes.length
  · simp [hn, hnode]
  · rw [if_neg hn, if_neg hn]
    by_cases hl : (s.calls k).getLast? = some n
    · have hlt := hs.calls_lt (List.mem_of_getLast? hl)
      simp [hl, List.getElem?_eq_getElem hlt]
    · simp [hl]

theorem Added.addedFor (hs : Nested s) (h : Added s s' k node) (k' : String × String) (n : ℕ) :
    s'.AddedFor k' n ↔ (n = s.mgr.nodes.length ∧ k' = k) ∨ s.AddedFor k' n := by
  constructor
  · intro hn
    unfold AddedFor at hn
    rw [h.log, getElem?_concat, hs.length] at hn
    split_ifs at hn with heq
    · exact .inl ⟨heq, (Option.some.inj hn).symm⟩
    · exact .inr hn
  · intro hn
    unfold AddedFor
    rw [h.log, getElem?_concat, hs.length]
    rcases hn with ⟨hn, rfl⟩ | hn
    · rw [if_pos hn]
      rfl
    · rw [if_neg (AddedFor.lt hs hn).ne]
      exact hn

/-- The new call is the latest of its transaction. -/
theorem Added.mem_calls (h : Nested s) (ha : Added s s' k node) (hsealed : node.sealed = false)
    (k' : String × String) (n : ℕ) :
    n ∈ s'.calls k' ↔ s'.AddedFor k' n ∧ BlockTxsDurationMgr.unsealed s'.mgr.nodes n = true := by
  rw [ha.calls, ha.addedFor h, ha.unsealed hsealed]
  by_cases hkk : k' = k
  · subst hkk
    rw [Function.update_self, List.mem_append, List.mem_singleton, h.mem]
    by_cases hn : n = s.mgr.nodes.length
    · simp [hn]
    · simp [hn]
  · rw [Function.update_of_ne hkk, h.mem]
    by_cases hn : n = s.mgr.nodes.length
    · have hnot : ¬ s.AddedFor k' n := fun hold => (AddedFor.lt h hold).ne hn
      simp [hkk, hnot]
    · simp [hn]

theorem Added.nodup_calls (h : Nested s) (ha : Added s s' k node) (k' : String × String) :
    (s'.calls k').Nodup := by
  rw [ha.calls]
  by_cases hkk : k' = k
  · subst hkk
    rw [Function.update_self, List.nodup_append]
    refine ⟨h.nodup k', List.nodup_singleton _, fun x hx y hy => ?_⟩
    rw [List.mem_singleton.1 hy]
    exact (h.calls_lt hx).ne
  · rw [Function.update_of_ne hkk]
    exact h.nodup k'

/-- The new node hangs below the latest call of its transaction. -/
theorem Added.path (h : Nested s) (ha : Added s s' k node) (hsealed : node.sealed = false)
    (hkids : node.crossCallList = []) (k' : String × String) :
    OpenPath s'.mgr.nodes (s'.calls k') := by
  have hopen := ha.unsealed hsealed
  have hk := ha.kids h hkids
  have hcallne : ∀ {k' n}, n ∈ s.calls k' → n ≠ s.mgr.nodes.length := fun hn => (h.calls_lt hn).ne
  have hmono : ∀ n, BlockTxsDurationMgr.unsealed s.mgr.nodes n = true →
      BlockTxsDurationMgr.unsealed s'.mgr.nodes n = true := by
    intro n hn
    rw [hopen n]
    split_ifs
    · rfl
    · exact hn
  have hstay : ∀ n ∈ s.calls k', ∀ x ∈ Utils.kids s.mgr.nodes n,
      BlockTxsDurationMgr.unsealed s.mgr.nodes x = false →
      BlockTxsDurationMgr.unsealed s'.mgr.nodes x = false := by
    intro n hn x hx hxs
    have hold := h.kidsAdded k' n x ((h.mem k' n).1 hn).1 hx
    rw [hopen x, if_neg (AddedFor.lt h hold).ne, hxs]
  rw [ha.calls]
  by_cases hkk : k' = k
  · subst hkk
    rw [Function.update_self]
    rcases hl : (s.calls k').getLast? with _ | c
    · rw [List.getLast?_eq_none_iff.1 hl]
      refine ⟨by rw [hopen, if_pos rfl], fun x hx => ?_⟩
      rw [hk, if_pos rfl] at hx
      cases hx
    · have hc := List.mem_of_getLast? hl
      refine (h.path k').push (h.nodup k') hl ?_ (fun n hn hnc => ?_) hmono hstay ?_ ?_
      · rw [hk, if_neg (hcallne hc), if_pos hl]
      · have hnl : ¬ (s.calls k').getLast? = some n := by
          rw [hl]
          exact fun heq => hnc (Option.some.inj heq).symm
        rw [hk, if_neg (hcallne hn), if_neg hnl]
      · rw [hopen, if_pos rfl]
      · rw [hk, if_pos rfl]
  · rw [Function.update_of_ne hkk]
    refine (h.path k').congr (fun n hn => ?_) (fun n _ => hmono n) hstay
    have hnl : ¬ (s.calls k).getLast? = some n := fun hl =>
      hkk (((h.mem k' n).1 hn).1.unique ((h.mem k n).1 (List.mem_of_getLast? hl)).1)
    rw [hk, if_neg (hcallne hn), if_neg hnl]

theorem Added.rootAdded (h : Nested s) (ha : Added s s' k node) {k' : String × String} {r : ℕ}
    (hr : s'.mgr.root? k'.1 k'.2 = some r) : s'.AddedFor k' r := by
  rw [ha.root] at hr
  rw [ha.addedFor h]
  split_ifs at hr with hkk
  · subst hkk
    rcases hl : s.calls k' with _ | ⟨e, l⟩
    · rw [hl] at hr
      exact .inl ⟨(Option.some.inj hr).symm, rfl⟩
    · rw [hl] at hr
      cases hr
      exact .inr (h.rootAdded k' r (h.root k' r l hl))
  · exact .inr (h.rootAdded k' r hr)

theorem Added.kidsAdded (h : Nested s) (ha : Added s s' k node) (hkids : node.crossCallList = [])
    {k' : String × String} {n c : ℕ} (hk' : s'.AddedFor k' n)
    (hc : c ∈ Utils.kids s'.mgr.nodes n) : s'.AddedFor k' c := by
  rw [ha.kids h hkids] at hc
  rw [ha.addedFor h] at hk' ⊢
  split_ifs at hc with hn hl
  · cases hc
  · have hold := hk'.resolve_left fun hnew => hn hnew.1
    rcases List.mem_append.1 hc with hc | hc
    · exact .inr (h.kidsAdded k' n c hold hc)
    · refine .inl ⟨List.mem_singleton.1 hc, ?_⟩
      exact hold.unique ((h.mem k n).1 (List.mem_of_getLast? hl)).1
  · have hold := hk'.resolve_left fun hnew => hn hnew.1
    exact .inr (h.kidsAdded k' n c hold hc)

theorem Added.nested (h : Nested s) (ha : Added s s' k node) (horig : node.originalTxId = k.2)
    (hsealed : node.sealed = false) (hkids : node.crossCallList = []) : Nested s' := by
  refine ⟨?_, fun n c k' hn hk' => ?_, ha.mem_calls h hsealed, ha.nodup_calls h,
    ha.path h hsealed hkids, fun k' e l hl => ?_, fun k' r hr => ha.rootAdded h hr,
    fun k' n c hk' hc => ha.kidsAdded h hkids hk' hc⟩
  · rw [ha.log, ha.length, List.length_append, h.length]
    rfl
  · rw [ha.nodes] at hn
    rw [ha.addedFor h] at hk'
    by_cases heq : n = s.mgr.nodes.length
    · rw [if_pos heq] at hn
      cases hn
      rcases hk' with ⟨-, rfl⟩ | hold
      · exact horig
      · exact absurd heq (AddedFor.lt h hold).ne
    · rw [if_neg heq] at hn
      obtain ⟨c₀, hc₀, rfl⟩ := Option.map_eq_some_iff.1 hn
      have hold : s.AddedFor k' n := hk'.resolve_left fun hnew => heq hnew.1
      rw [← h.orig n c₀ k' hc₀ hold]
      split_ifs <;> rfl
  · rw [ha.calls] at hl
    rw [ha.root]
    split_ifs with hkk
    · subst hkk
      rw [Function.update_self] at hl
      rw [hl]
      rfl
    · rw [Function.update_of_ne hkk] at hl
      exact h.root k' e l hl

/-! ## A node is finished -/

/-- The node at position `n` after `FinishTx` of the node `t`: the latter is sealed, and its
    counters are added to those of the root. -/
def afterFinish (t root : ℕ) (totalDuration : Int64) (added : Counters) (n : ℕ) (c : TxDuration) :
    TxDuration :=
  { c with
    toCounters := if n = root then c.toCounters + added else c.toCounters
    totalDuration := if n = t then totalDuration else c.totalDuration
    sealed := if n = t then true else c.sealed }

/-- The nodes when the node `t` has been sealed. -/
def sealedNodes (nodes : List TxDuration) (t : ℕ) (totalDuration : Int64) : List TxDuration :=
  (nodes.modify t fun node => { node with totalDuration := totalDuration }).modify t fun node =>
    { node with sealed := true }

theorem length_sealedNodes (nodes : List TxDuration) (t : ℕ) (totalDuration : Int64) :
    (sealedNodes nodes t totalDuration).length = nodes.length := by
  rw [sealedNodes, List.length_modify, List.length_modify]

theorem getElem?_sealedNodes (nodes : List TxDuration) (t : ℕ) (totalDuration : Int64) (n : ℕ) :
    (sealedNodes nodes t totalDuration)[n]? = nodes[n]?.map fun c =>
      if n = t then { c with totalDuration := totalDuration, sealed := true } else c := by
  rw [sealedNodes, List.getElem?_modify, List.getElem?_modify]
  by_cases hn : n = t
  · cases nodes[n]? <;> simp [hn]
  · have hn' : ¬ t = n := fun h => hn h.symm
    cases nodes[n]? <;> simp [hn, hn']

theorem endInvoke_eq (totalDuration : Int64) (ht : r.nodes[t]? = some node)
    (hroot : r.root? id node.originalTxId = some root) :
    r.endInvoke id t totalDuration =
      finishTxDuration { r with nodes := sealedNodes r.nodes t totalDuration } root t := by
  have htget : (sealedNodes r.nodes t totalDuration)[t]? =
      some { node with totalDuration := totalDuration, sealed := true } := by
    rw [getElem?_sealedNodes, ht]
    simp
  have hnodes : (r.nodes.modify t fun node =>
      { node with totalDuration := totalDuration }).modify t (fun node =>
      { node with sealed := true }) = sealedNodes r.nodes t totalDuration := rfl
  unfold endInvoke finishTx
  dsimp only
  rw [hnodes, htget, Option.bind_some]
  rw [show root? { r with nodes := sealedNodes r.nodes t totalDuration } id node.originalTxId =
    some root from hroot]

theorem endInvoke_nodes (totalDuration : Int64) (ht : r.nodes[t]? = some node)
    (hroot : r.root? id node.originalTxId = some root) (hlt : root < r.nodes.length) (n : ℕ) :
    (r.endInvoke id t totalDuration).nodes[n]? =
      r.nodes[n]?.map (afterFinish t root totalDuration node.toCounters n) := by
  rw [endInvoke_eq totalDuration ht hroot]
  unfold finishTxDuration
  dsimp only
  rw [getElem?_sealedNodes, getElem?_sealedNodes, List.getElem?_eq_getElem hlt, ht]
  dsimp only [Option.map_some]
  rw [List.getElem?_set, length_sealedNodes, getElem?_sealedNodes]
  rcases eq_or_ne n root with rfl | hn
  · rcases eq_or_ne n t with rfl | hnt
    · simp [afterFinish, hlt]
    · simp [afterFinish, hlt, hnt]
  · rcases eq_or_ne n t with rfl | hnt
    · cases r.nodes[n]? <;> simp [afterFinish, hn, hn.symm]
    · cases r.nodes[n]? <;> simp [afterFinish, hn, hn.symm, hnt]

theorem endInvoke_blockDurations (r : BlockTxsDurationMgr) (id : String) (t : ℕ) (total : Int64) :
    (r.endInvoke id t total).blockDurations = r.blockDurations := by
  unfold endInvoke finishTx finishTxDuration
  dsimp only
  split
  · split <;> rfl
  · rfl

theorem endInvoke_length (r : BlockTxsDurationMgr) (id : String) (t : ℕ) (total : Int64) :
    (r.endInvoke id t total).nodes.length = r.nodes.length := by
  unfold endInvoke finishTx finishTxDuration
  dsimp only
  split
  · split <;> simp
  · simp

/-- What `FinishTx` of the latest unfinished node does. -/
structure Finished (s s' : Invocations) (k : String × String) (t root : ℕ) (node : TxDuration) :
    Prop where
  node_eq : s.mgr.nodes[t]? = some node
  last : (s.calls k).getLast? = some t
  root_eq : s.mgr.root? k.1 k.2 = some root
  log : s'.log = s.log
  calls : s'.calls = Function.update s.calls k (s.calls k).dropLast
  blocks : s'.mgr.blockDurations = s.mgr.blockDurations
  length : s'.mgr.nodes.length = s.mgr.nodes.length
  nodes : ∃ totalDuration, ∀ n, s'.mgr.nodes[n]? =
    s.mgr.nodes[n]?.map (afterFinish t root totalDuration node.toCounters n)

theorem finished_of_step (h : Nested s) {total : Int64} (hok : WellNested s (.finishTx id t total))
    (hstep : s.step (.finishTx id t total) = some s') :
    ∃ o root node, Finished s s' (id, o) t root node := by
  obtain ⟨node, hnode, hlast⟩ := hok
  obtain ⟨node', hnode', rfl⟩ := Option.map_eq_some_iff.1 hstep
  cases hnode'.symm.trans hnode
  obtain ⟨root, l, hl⟩ : ∃ root l, s.calls (id, node.originalTxId) = root :: l :=
    List.exists_cons_of_ne_nil fun hnil => by rw [hnil] at hlast; cases hlast
  have hroot := h.root (id, node.originalTxId) root l hl
  exact ⟨node.originalTxId, root, node, hnode, hlast, hroot, rfl, rfl,
    endInvoke_blockDurations .., endInvoke_length .., total,
    endInvoke_nodes total hnode hroot (AddedFor.lt h (h.rootAdded _ root hroot))⟩

theorem Finished.kids (h : Finished s s' k t root node) (n : ℕ) :
    Utils.kids s'.mgr.nodes n = Utils.kids s.mgr.nodes n := by
  obtain ⟨total, hnodes⟩ := h.nodes
  unfold Utils.kids
  rw [hnodes n]
  cases s.mgr.nodes[n]? <;> rfl

theorem Finished.unsealed (h : Finished s s' k t root node) (n : ℕ) :
    BlockTxsDurationMgr.unsealed s'.mgr.nodes n =
      if n = t then false else BlockTxsDurationMgr.unsealed s.mgr.nodes n := by
  obtain ⟨total, hnodes⟩ := h.nodes
  unfold BlockTxsDurationMgr.unsealed
  rw [hnodes n]
  by_cases ht : n = t <;> cases s.mgr.nodes[n]? <;> simp [afterFinish, ht]

theorem Finished.addedFor_iff (hf : Finished s s' k t root node) (k' : String × String) (n : ℕ) :
    s'.AddedFor k' n ↔ s.AddedFor k' n := by
  unfold AddedFor
  rw [hf.log]

theorem Finished.calls_eq (hf : Finished s s' k t root node) :
    s.calls k = (s.calls k).dropLast ++ [t] := by
  conv_lhs => rw [← List.dropLast_append_getLast? t hf.last]

/-- The finished node is sealed and no longer among the open calls of its transaction. -/
theorem Finished.mem_calls (h : Nested s) (hf : Finished s s' k t root node) (k' : String × String)
    (n : ℕ) :
    n ∈ s'.calls k' ↔ s'.AddedFor k' n ∧ BlockTxsDurationMgr.unsealed s'.mgr.nodes n = true := by
  rw [hf.calls, hf.addedFor_iff, hf.unsealed]
  by_cases hkk : k' = k
  · subst hkk
    rw [Function.update_self]
    have hnd := h.nodup k'
    rw [hf.calls_eq, List.nodup_append] at hnd
    have hmem := h.mem k' n
    rw [hf.calls_eq, List.mem_append, List.mem_singleton] at hmem
    by_cases hn : n = t
    · rw [if_pos hn]
      simp only [reduceCtorEq, and_false, iff_false]
      exact fun hmem => hnd.2.2 n hmem t (List.mem_singleton_self t) hn
    · rw [if_neg hn, ← hmem]
      simp [hn]
  · rw [Function.update_of_ne hkk, h.mem]
    by_cases hn : n = t
    · have ht := (h.mem k t).1 (List.mem_of_getLast? hf.last)
      have hnot : ¬ s.AddedFor k' n := fun ha => hkk ((hn ▸ ha).unique ht.1)
      simp [hnot]
    · rw [if_neg hn]

theorem Finished.nested (h : Nested s) (hf : Finished s s' k t root node) : Nested s' := by
  have hopen := hf.unsealed
  have hkids := hf.kids
  have hadded := hf.addedFor_iff
  have hroot : ∀ id o, s'.mgr.root? id o = s.mgr.root? id o := fun id o => by
    unfold root?
    rw [hf.blocks]
  have ht := (h.mem k t).1 (List.mem_of_getLast? hf.last)
  refine ⟨?_, fun n c k' hn hk' => ?_, hf.mem_calls h, fun k' => ?_, fun k' => ?_,
    fun k' e l hl => ?_, fun k' r hr => ?_, fun k' n c hk' hc => ?_⟩
  · rw [hf.log, hf.length, h.length]
  · obtain ⟨total, hnodes⟩ := hf.nodes
    rw [hnodes] at hn
    obtain ⟨c₀, hc₀, rfl⟩ := Option.map_eq_some_iff.1 hn
    rw [← h.orig n c₀ k' hc₀ ((hadded k' n).1 hk')]
    rfl
  · rw [hf.calls]
    by_cases hkk : k' = k
    · subst hkk
      rw [Function.update_self]
      exact (h.nodup k').sublist (List.dropLast_sublist _)
    · rw [Function.update_of_ne hkk]
      exact h.nodup k'
  · rw [hf.calls]
    by_cases hkk : k' = k
    · subst hkk
      rw [Function.update_self]
      refine (h.path k').pop (h.nodup k') hf.last hkids ?_ fun n hn => ?_
      · rw [hopen, if_pos rfl]
      · rw [hopen, if_neg hn]
    · rw [Function.update_of_ne hkk]
      refine (h.path k').congr (fun n _ => hkids n) (fun n hn hno => ?_) fun n _ x _ hx => ?_
      · rw [hopen, if_neg, hno]
        exact fun heq => hkk (((h.mem k' n).1 hn).1.unique (heq ▸ ht.1))
      · rw [hopen, hx, ite_self]
  · rw [hroot]
    rw [hf.calls] at hl
    by_cases hkk : k' = k
    · subst hkk
      rw [Function.update_self] at hl
      refine h.root k' e (l ++ [t]) ?_
      rw [hf.calls_eq, hl]
      rfl
    · rw [Function.update_of_ne hkk] at hl
      exact h.root k' e l hl
  · rw [hroot] at hr
    exact (hadded k' r).2 (h.rootAdded k' r hr)
  · rw [hkids] at hc
    exact (hadded k' c).2 (h.kidsAdded k' n c ((hadded k' n).1 hk') hc)

/-! ## Every step -/

theorem root?_addBlockTxsDuration (r : BlockTxsDurationMgr) (id id' o : String) :
    (r.addBlockTxsDuration id).root? id' o = r.root? id' o := by
  unfold addBlockTxsDuration
  split
  · rfl
  · rename_i hnone
    unfold root?
    dsimp only
    rw [LinkedMap.get?_put]
    split_ifs with hid
    · rw [hid, hnone]
      rfl
    · rfl

theorem nodes_addBlockTxsDuration (r : BlockTxsDurationMgr) (id : String) :
    (r.addBlockTxsDuration id).nodes = r.nodes := by
  unfold addBlockTxsDuration
  split <;> rfl

theorem startSysCall_frame {msgType : Runtime.DockerVMType} {now : Int64} {got : Option ℕ}
    (h : r.startSysCall e msgType now got = some r') :
    r'.blockDurations = r.blockDurations ∧ ∃ i, r'.nodes = r.nodes.modify e fun node =>
      { node with sysCallList := node.sysCallList ++ [i] } := by
  obtain ⟨⟨r₁, i⟩, h₁, rfl⟩ := Option.map_eq_some_iff.1 h
  unfold getSysCall at h₁
  split at h₁
  · cases h₁
    exact ⟨rfl, _, rfl⟩
  · split_ifs at h₁
    cases h₁
    exact ⟨rfl, _, rfl⟩

theorem addLatestStorageDuration_frame (r : BlockTxsDurationMgr) (e : ℕ) (duration : Int64) :
    (r.addLatestStorageDuration e duration).blockDurations = r.blockDurations ∧
      (r.addLatestStorageDuration e duration).nodes = r.nodes := by
  unfold addLatestStorageDuration
  split <;> exact ⟨rfl, rfl⟩

theorem endSysCall_frame (r : BlockTxsDurationMgr) (e : ℕ) (now : Int64) :
    (r.endSysCall e now).blockDurations = r.blockDurations ∧
      (r.endSysCall e now).nodes.map shape = r.nodes.map shape := by
  unfold endSysCall
  split
  · exact ⟨rfl, rfl⟩
  · refine ⟨rfl, map_shape_modify (fun node => ?_) _ _⟩
    obtain ⟨h₁, h₂, h₃⟩ := node.addSysCallDuration_frame ‹_›
    exact Prod.ext h₁ (Prod.ext h₂ h₃)

theorem root?_congr (h : r'.blockDurations = r.blockDurations) (id o : String) :
    r'.root? id o = r.root? id o := by
  unfold root?
  rw [h]

theorem map_fst_modify (log : List ((String × String) × Counters)) (e : ℕ) (d : Counters) :
    (log.modify e fun h => (h.1, h.2 + d)).map Prod.fst = log.map Prod.fst := by
  apply List.ext_getElem?
  intro n
  rw [List.getElem?_map, List.getElem?_map, List.getElem?_modify]
  cases log[n]? with
  | none => rfl
  | some x => by_cases hn : e = n <;> simp [hn]

theorem step_nested {a : Action} (h : Nested s) (hok : WellNested s a)
    (hstep : s.step a = some s') : Nested s' := by
  cases a with
  | addBlock id =>
    cases hstep
    exact h.frame rfl rfl (root?_addBlockTxsDuration _ id)
      (by rw [nodes_addBlockTxsDuration])
  | addTx id o txId startTime =>
    exact (added_of_step h hok hstep).nested h rfl rfl rfl
  | finishTx id t total =>
    obtain ⟨o, root, node, hf⟩ := finished_of_step h hok hstep
    exact hf.nested h
  | startSysCall e msgType now got =>
    obtain ⟨r', hr', rfl⟩ := Option.map_eq_some_iff.1 hstep
    obtain ⟨hblocks, i, hnodes⟩ := startSysCall_frame hr'
    refine h.frame rfl rfl (root?_congr hblocks) ?_
    dsimp only
    rw [hnodes]
    exact map_shape_modify (fun _ => by rfl) _ _
  | addStorage e duration =>
    cases hstep
    obtain ⟨hblocks, hnodes⟩ := addLatestStorageDuration_frame s.mgr e duration
    refine h.frame rfl rfl (root?_congr hblocks) ?_
    dsimp only
    rw [hnodes]
  | endSysCall e now =>
    cases hstep
    obtain ⟨hblocks, hnodes⟩ := endSysCall_frame s.mgr e now
    exact h.frame rfl (map_fst_modify _ e _) (root?_congr hblocks) hnodes

theorem nested_of_reach (h : Reach step WellNested init s) : Nested s :=
  h.inv nested_init fun hinv hok hstep => step_nested hinv hok hstep

/-! ## The tree of a transaction -/

/-- The nodes of the tree under a node. -/
inductive InTree (nodes : List TxDuration) (root : ℕ) : ℕ → Prop
  | root : InTree nodes root root
  | child {n c : ℕ} : InTree nodes root n → c ∈ kids nodes n → InTree nodes root c

theorem Nested.addedFor_of_inTree (h : Nested s) (hroot : s.mgr.root? k.1 k.2 = some root)
    (hn : InTree s.mgr.nodes root n) : s.AddedFor k n := by
  induction hn with
  | root => exact h.rootAdded k root hroot
  | child _ hc ih => exact h.kidsAdded k _ _ ih hc

/-- A path down a tree: each node is the last child of the one before it. -/
def LastChildren (nodes : List TxDuration) : List ℕ → Prop :=
  List.IsChain fun n c => (kids nodes n).getLast? = some c

theorem OpenPath.lastChildren {nodes : List TxDuration} {l : List ℕ} (h : OpenPath nodes l) :
    LastChildren nodes l := by
  induction l with
  | nil => exact .nil
  | cons e l ih =>
    cases l with
    | nil => exact .singleton e
    | cons c l =>
      obtain ⟨xs, hxs, -⟩ := h.2.1
      exact .cons_cons (by rw [hxs, List.getLast?_concat]) (ih h.2.2)

theorem OpenPath.inTree {nodes : List TxDuration} {l : List ℕ} (h : OpenPath nodes (e :: l))
    (he : InTree nodes root e) (hn : n ∈ e :: l) : InTree nodes root n := by
  induction l generalizing e with
  | nil => rwa [List.mem_singleton.1 hn]
  | cons c l ih =>
    rcases List.mem_cons.1 hn with rfl | hn
    · exact he
    · obtain ⟨xs, hxs, -⟩ := h.2.1
      refine ih h.2.2 (he.child ?_) hn
      rw [hxs]
      exact List.mem_append_right xs (List.mem_singleton_self c)

/-- A cross call is added under the latest unfinished node, and under no other. -/
theorem Nested.step_addTx (h : Nested s) {c : ℕ} (hlast : (s.calls (id, o)).getLast? = some c)
    (txId : String) (startTime : Int64) :
    ∃ s', s.step (.addTx id o txId startTime) = some s' ∧
      kids s'.mgr.nodes c = kids s.mgr.nodes c ++ [s.mgr.nodes.length] ∧
      ∀ n, n ≠ c → s.mgr.nodes.length ∉ kids s'.mgr.nodes n := by
  have hne : s.calls (id, o) ≠ [] := fun hnil => by
    rw [hnil] at hlast
    cases hlast
  obtain ⟨root, l, hl⟩ := List.exists_cons_of_ne_nil hne
  have hroot := h.root (id, o) root l hl
  obtain ⟨txs, htxs, hr⟩ := Option.bind_eq_some_iff.1 hroot
  have hok : WellNested s (.addTx id o txId startTime) := ⟨by rw [htxs]; rfl, .inr hne⟩
  have hcaller : BlockTxsDurationMgr.getCallerNode (s.mgr.nodes ++ [.new o txId startTime])
      (s.mgr.nodes ++ [TxDuration.new o txId startTime]).length root = .ok c :=
    h.getCallerNode hlast hroot (h.path_concat (id, o) _) (by rw [List.length_append]; omega)
  have hstep : (s.step (.addTx id o txId startTime)).isSome = true := by
    simp only [step, BlockTxsDurationMgr.addTx, htxs, List.getElem?_concat_length,
      show (TxDuration.new o txId startTime).originalTxId = o from rfl, hr, hcaller]
    rfl
  obtain ⟨s', hs'⟩ := Option.isSome_iff_exists.1 hstep
  have hk := (added_of_step h hok hs').kids h rfl
  refine ⟨s', hs', ?_, fun n hn hmem => ?_⟩
  · rw [hk, if_neg (h.calls_lt (List.mem_of_getLast? hlast)).ne, if_pos hlast]
  · rw [hk] at hmem
    split_ifs at hmem with hnt hl
    · cases hmem
    · exact hn (Option.some.inj (hl.symm.trans hlast))
    · obtain ⟨node, hnode, hin⟩ : ∃ node, s.mgr.nodes[n]? = some node ∧
          s.mgr.nodes.length ∈ node.crossCallList := by
        unfold Utils.kids at hmem
        cases hnode : s.mgr.nodes[n]? with
        | none => rw [hnode] at hmem; cases hmem
        | some node => rw [hnode] at hmem; exact ⟨node, rfl, hmem⟩
      have hlt := (List.getElem?_eq_some_iff.1 hnode).1
      obtain ⟨x, hx⟩ : ∃ x, s.log[n]? = some x :=
        ⟨_, List.getElem?_eq_getElem (by rw [h.length]; exact hlt)⟩
      have hadded : s.AddedFor x.1 n := by
        unfold AddedFor
        rw [hx]
        rfl
      exact absurd (AddedFor.lt h (h.kidsAdded _ n _ hadded hmem)) (lt_irrefl _)

/-- **The tree mirrors the calls.**  In every well-nested run the unsealed nodes of a
    transaction's tree are its unfinished invocations; they form a path of last children from
    the root, the search from the root ends at the last of them, and the next cross call becomes
    the last child of that node and of no other. -/
theorem duration_tree_mirrors_calls {s : Invocations} (h : Reach step WellNested init s)
    {id o : String} {root : ℕ} (hroot : s.mgr.root? id o = some root) :
    (∀ n, (InTree s.mgr.nodes root n ∧ unsealed s.mgr.nodes n = true) ↔ n ∈ s.calls (id, o)) ∧
    (∀ n ∈ (s.calls (id, o)).head?, n = root) ∧ LastChildren s.mgr.nodes (s.calls (id, o)) ∧
    ∀ c ∈ (s.calls (id, o)).getLast?,
      BlockTxsDurationMgr.getCallerNode s.mgr.nodes s.mgr.nodes.length root = .ok c ∧
      ∀ txId startTime, ∃ s', s.step (.addTx id o txId startTime) = some s' ∧
        kids s'.mgr.nodes c = kids s.mgr.nodes c ++ [s.mgr.nodes.length] ∧
        ∀ n, n ≠ c → s.mgr.nodes.length ∉ kids s'.mgr.nodes n := by
  have hn := nested_of_reach h
  have hhead : ∀ e l, s.calls (id, o) = e :: l → e = root := fun e l hl =>
    Option.some.inj ((hn.root (id, o) e l hl).symm.trans hroot)
  refine ⟨fun n => ⟨fun hin => ?_, fun hin => ⟨?_, ?_⟩⟩, fun n hmem => ?_,
    OpenPath.lastChildren (hn.path (id, o)), fun c hc => ⟨?_, fun txId startTime => ?_⟩⟩
  · exact (hn.mem (id, o) n).2 ⟨hn.addedFor_of_inTree (k := (id, o)) hroot hin.1, hin.2⟩
  · rcases hl : s.calls (id, o) with _ | ⟨e, l⟩
    · rw [hl] at hin
      cases hin
    · have hpath := hn.path (id, o)
      rw [hl] at hin hpath
      exact OpenPath.inTree hpath (hhead e l hl ▸ .root) hin
  · exact ((hn.mem (id, o) n).1 hin).2
  · rcases hl : s.calls (id, o) with _ | ⟨e, l⟩
    · rw [hl] at hmem
      cases hmem
    · rw [hl] at hmem
      cases hmem
      exact hhead n l hl
  · exact hn.getCallerNode (k := (id, o)) hc hroot (hn.path (id, o)) (le_refl _)
  · exact hn.step_addTx hc txId startTime

/-- A root with a finished and an unfinished cross call, which has a cross call of its own. -/
theorem duration_tree_two_calls :
    ∃ s, Reach step WellNested init s ∧ s.calls ("block", "tx") = [0, 2, 3] ∧
      BlockTxsDurationMgr.getCallerNode s.mgr.nodes s.mgr.nodes.length 0 = .ok 3 := by
  obtain ⟨s, hs, hP⟩ := exists_reach step WellNested init
    (fun s => s.calls ("block", "tx") == [0, 2, 3] && s.mgr.root? "block" "tx" == some 0)
    [.addBlock "block", .addTx "block" "tx" "tx1" 0, .addTx "block" "tx" "tx2" 1,
      .finishTx "block" 1 1, .addTx "block" "tx" "tx3" 2, .addTx "block" "tx" "tx4" 3] (by decide)
  rw [Bool.and_eq_true, beq_iff_eq, beq_iff_eq] at hP
  exact ⟨s, hs, hP.1, ((duration_tree_mirrors_calls hs hP.2).2.2.2 3 (by rw [hP.1]; rfl)).1⟩

end Invocations

end VmEngine.Utils
