/-
  What the root of a tree counts.

  While a transaction runs, the counters of its unfinished nodes sum up to what was
  recorded in all of its nodes (`Counted`): a cross call that finishes hands its counters
  to the root.  The root goes through the same `FinishTx` and then hands its counters to
  itself, so in the end it counts everything twice.
-/
import VmEngine.Utils.DurationTree

namespace VmEngine.Utils

open BlockTxsDurationMgr

/-! ## Sums -/

section
variable {α M : Type} [AddCommMonoid M] {l : List α} {f g : α → M} {e : α}

theorem sum_map_eq_of_not_mem (he : e ∉ l)
    (hfg : ∀ n, n ≠ e → g n = f n) : (l.map g).sum = (l.map f).sum := by
  refine congrArg List.sum (List.map_congr_left fun n hn => hfg n ?_)
  rintro rfl
  exact he hn

/-- One term of a sum grows. -/
theorem sum_map_add_of_mem {d : M} (hnd : l.Nodup) (he : e ∈ l)
    (hfg : ∀ n, n ≠ e → g n = f n) (hge : g e = f e + d) :
    (l.map g).sum = (l.map f).sum + d := by
  induction l with
  | nil => cases he
  | cons n l ih =>
    obtain ⟨hn, hnd⟩ := List.nodup_cons.1 hnd
    simp only [List.map_cons, List.sum_cons]
    rcases List.mem_cons.1 he with rfl | he
    · rw [hge, sum_map_eq_of_not_mem hn hfg]
      exact add_right_comm _ _ _
    · rw [hfg n (fun h => hn (h ▸ he)), ih hnd he, add_assoc]

end

namespace Invocations

/-- What was recorded in the nodes of a transaction. -/
def total (log : List ((String × String) × Counters)) (k : String × String) : Counters :=
  ((log.filter (·.1 = k)).map Prod.snd).sum

/-- What was recorded in the nodes of a block. -/
def blockRecorded (log : List ((String × String) × Counters)) (id : String) : Counters :=
  ((log.filter (·.1.1 = id)).map Prod.snd).sum

def countersOf (nodes : List TxDuration) (n : ℕ) : Counters := nodes[n]?.elim 0 (·.toCounters)

theorem total_cons (h : (String × String) × Counters) (log : List ((String × String) × Counters))
    (k : String × String) : total (h :: log) k = (if h.1 = k then h.2 else 0) + total log k := by
  unfold total
  by_cases hk : h.1 = k
  · simp [hk]
  · simp [hk]

theorem total_concat (log : List ((String × String) × Counters)) (k k' : String × String) :
    total (log ++ [(k', 0)]) k = total log k := by
  unfold total
  by_cases hk : k' = k
  · simp [hk]
  · simp [hk]

variable {e root : ℕ} {k : String × String} {node : TxDuration} {s s' : Invocations}

theorem total_modify {log : List ((String × String) × Counters)} {x : (String × String) × Counters}
    (hx : log[e]? = some x) (d : Counters) (k : String × String) :
    total (log.modify e fun h => (h.1, h.2 + d)) k =
      total log k + if x.1 = k then d else 0 := by
  induction log generalizing e with
  | nil => cases hx
  | cons h log ih =>
    cases e with
    | zero =>
      cases hx
      rw [List.modify_zero_cons, total_cons, total_cons]
      split_ifs
      · exact add_right_comm _ _ _
      · rw [add_zero]
    | succ e =>
      rw [List.modify_succ_cons, total_cons, total_cons, ih hx, add_assoc]

/-! ## The counters of unfinished nodes -/

/-- Unfinished nodes have counted what was recorded; a finished root has counted it twice. -/
structure Counted (s : Invocations) : Prop where
  rooted : ∀ k ∈ s.log.map Prod.fst, s.mgr.root? k.1 k.2 ≠ none
  running : ∀ k, s.calls k ≠ [] → ((s.calls k).map (countersOf s.mgr.nodes)).sum = total s.log k
  finished : ∀ k root, s.mgr.root? k.1 k.2 = some root → s.calls k = [] →
    countersOf s.mgr.nodes root = total s.log k + total s.log k

theorem Counted.absent (h : Counted s) (hk : s.mgr.root? k.1 k.2 = none) : total s.log k = 0 := by
  have hnil : s.log.filter (·.1 = k) = [] := by
    rw [List.filter_eq_nil_iff]
    intro x hx heq
    rw [← of_decide_eq_true heq] at hk
    exact h.rooted x.1 (List.mem_map_of_mem hx) hk
  unfold total
  rw [hnil]
  rfl

theorem counted_init : Counted init where
  rooted k h := by cases h
  running k h := absurd rfl h
  finished k root h := by cases h

theorem Counted.frame (h : Counted s) (hcalls : s'.calls = s.calls) (hlog : s'.log = s.log)
    (hroot : ∀ id o, s'.mgr.root? id o = s.mgr.root? id o)
    (hnodes : ∀ n, countersOf s'.mgr.nodes n = countersOf s.mgr.nodes n) : Counted s' := by
  refine ⟨fun k hk => ?_, fun k hk => ?_, fun k root hk hnil => ?_⟩
  · rw [hroot]
    exact h.rooted k (hlog ▸ hk)
  · rw [hcalls] at hk ⊢
    rw [hlog, ← h.running k hk]
    exact congrArg List.sum (List.map_congr_left fun n _ => hnodes n)
  · rw [hcalls] at hnil
    rw [hlog, hnodes]
    exact h.finished k root (by rwa [hroot] at hk) hnil

theorem Added.countersOf (h : Added s s' k node) (hnode : node.toCounters = 0) (n : ℕ) :
    Invocations.countersOf s'.mgr.nodes n =
      if n = s.mgr.nodes.length then 0 else Invocations.countersOf s.mgr.nodes n := by
  unfold Invocations.countersOf
  rw [h.nodes n]
  by_cases hn : n = s.mgr.nodes.length
  · simp [hn, hnode]
  · rw [if_neg hn, if_neg hn]
    by_cases hl : (s.calls k).getLast? = some n <;> cases s.mgr.nodes[n]? <;> simp [hl]

theorem Added.counted (hs : Nested s) (hc : Counted s) (h : Added s s' k node)
    (hnode : node.toCounters = 0) (hok : s.mgr.root? k.1 k.2 = none ∨ s.calls k ≠ []) :
    Counted s' := by
  have hcnt := h.countersOf hnode
  have hold : ∀ k', ((s.calls k').map (Invocations.countersOf s'.mgr.nodes)).sum =
      ((s.calls k').map (Invocations.countersOf s.mgr.nodes)).sum := by
    intro k'
    refine congrArg List.sum (List.map_congr_left fun n hn => ?_)
    rw [hcnt, if_neg (hs.calls_lt hn).ne]
  refine ⟨fun k' hk' => ?_, fun k' hk' => ?_, fun k' root hk' hnil => ?_⟩
  · rw [h.log, List.map_append, List.mem_append] at hk'
    rw [h.root]
    split_ifs with hkk
    · cases s.calls k <;> exact Option.some_ne_none _
    · exact hc.rooted k' (hk'.resolve_right fun hnew => hkk (List.mem_singleton.1 hnew))
  · rw [h.calls] at hk' ⊢
    rw [h.log, total_concat]
    by_cases hkk : k' = k
    · subst hkk
      rw [Function.update_self, List.map_append, List.sum_append, hold k', List.map_singleton,
        List.sum_singleton, hcnt, if_pos rfl, add_zero]
      rcases hok with hnone | hne
      · have hnil : s.calls k' = [] := by
          rcases hl : s.calls k' with _ | ⟨e, l⟩
          · rfl
          · rw [hs.root k' e l hl] at hnone
            cases hnone
        rw [hnil, hc.absent hnone]
        rfl
      · exact hc.running k' hne
    · rw [Function.update_of_ne hkk] at hk' ⊢
      rw [hold k']
      exact hc.running k' hk'
  · rw [h.calls] at hnil
    rw [h.root] at hk'
    have hkk : k' ≠ k := by
      rintro rfl
      rw [Function.update_self] at hnil
      exact absurd (List.append_eq_nil_iff.1 hnil).2 (List.cons_ne_nil _ _)
    rw [Function.update_of_ne hkk] at hnil
    rw [if_neg hkk] at hk'
    rw [h.log, total_concat, hcnt, if_neg (AddedFor.lt hs (hs.rootAdded k' root hk')).ne]
    exact hc.finished k' root hk' hnil

theorem Finished.countersOf {t : ℕ} (hs : Nested s) (h : Finished s s' k t root node) :
    Invocations.countersOf s'.mgr.nodes root =
        Invocations.countersOf s.mgr.nodes root + Invocations.countersOf s.mgr.nodes t ∧
      ∀ n, n ≠ root →
        Invocations.countersOf s'.mgr.nodes n = Invocations.countersOf s.mgr.nodes n := by
  obtain ⟨total, hnodes⟩ := h.nodes
  have hlt := AddedFor.lt hs (hs.rootAdded k root h.root_eq)
  unfold Invocations.countersOf
  refine ⟨?_, fun n hn => ?_⟩
  · rw [hnodes root, h.node_eq, List.getElem?_eq_getElem hlt]
    simp [afterFinish]
  · rw [hnodes n]
    cases s.mgr.nodes[n]? <;> simp [afterFinish, hn]

theorem Finished.counted {t : ℕ} (hs : Nested s) (hc : Counted s)
    (h : Finished s s' k t root node) : Counted s' := by
  obtain ⟨hroot, hother⟩ := h.countersOf hs
  have hroot? : ∀ id o, s'.mgr.root? id o = s.mgr.root? id o := root?_congr h.blocks
  have hrootk := hs.rootAdded k root h.root_eq
  -- the root is not among the nodes of another transaction
  have hsame : ∀ k', k' ≠ k → ∀ n, s.AddedFor k' n →
      Invocations.countersOf s'.mgr.nodes n = Invocations.countersOf s.mgr.nodes n := by
    intro k' hkk n hn
    refine hother n ?_
    rintro rfl
    exact hkk (hn.unique hrootk)
  have hsplit : (s.calls k).dropLast ++ [t] = s.calls k := List.dropLast_append_getLast? t h.last
  have hne : s.calls k ≠ [] := fun hnil => by
    have hlast := h.last
    rw [hnil] at hlast
    cases hlast
  have hrun := hc.running k hne
  rw [← hsplit, List.map_append, List.sum_append, List.map_singleton, List.sum_singleton] at hrun
  obtain ⟨e, l, hl⟩ := List.exists_cons_of_ne_nil hne
  cases (hs.root k e l hl).symm.trans h.root_eq
  refine ⟨fun k' hk' => ?_, fun k' hk' => ?_, fun k' r hk' hnil => ?_⟩
  · rw [hroot?]
    exact hc.rooted k' (h.log ▸ hk')
  · rw [h.calls] at hk' ⊢
    rw [h.log]
    by_cases hkk : k' = k
    · subst hkk
      rw [Function.update_self] at hk' ⊢
      -- the root stays, and gets the counters of the node that leaves
      have hmem : root ∈ (s.calls k').dropLast := by
        rw [hl] at hk' ⊢
        cases l with
        | nil => exact absurd rfl hk'
        | cons c l => exact List.mem_cons_self
      rw [← hrun]
      exact sum_map_add_of_mem ((hs.nodup k').sublist (List.dropLast_sublist _)) hmem hother hroot
    · rw [Function.update_of_ne hkk] at hk' ⊢
      rw [← hc.running k' hk']
      refine congrArg List.sum (List.map_congr_left fun n hn => ?_)
      exact hsame k' hkk n ((hs.mem k' n).1 hn).1
  · rw [h.calls] at hnil
    rw [hroot?] at hk'
    rw [h.log]
    by_cases hkk : k' = k
    · subst hkk
      cases hk'.symm.trans h.root_eq
      rw [Function.update_self] at hnil
      -- the root was the only unfinished node
      have ht : t = root := by
        rw [hnil, hl] at hsplit
        cases hsplit
        rfl
      rw [hnil, ht, List.map_nil, List.sum_nil, zero_add] at hrun
      rw [hroot, ht, hrun]
    · rw [Function.update_of_ne hkk] at hnil
      rw [hsame k' hkk r (hs.rootAdded k' r hk')]
      exact hc.finished k' r hk' hnil

/-- The end of a system call adds to the counters of the node what is recorded. -/
theorem countersOf_endSysCall (s : Invocations) (now : Int64) (he : e < s.mgr.nodes.length) :
    countersOf (s.mgr.endSysCall e now).nodes e = countersOf s.mgr.nodes e + s.ended e now ∧
      ∀ n, n ≠ e → countersOf (s.mgr.endSysCall e now).nodes n = countersOf s.mgr.nodes n := by
  unfold endSysCall ended
  rcases s.mgr.endedSysCall e now with _ | ⟨i, call⟩
  · exact ⟨(add_zero _).symm, fun n hn => rfl⟩
  · dsimp only [Option.map_some, Option.getD_some]
    unfold countersOf
    refine ⟨?_, fun n hn => ?_⟩
    · rw [List.getElem?_modify, List.getElem?_eq_getElem he]
      simp [TxDuration.addSysCallDuration_counters]
    · rw [List.getElem?_modify]
      cases s.mgr.nodes[n]? <;> simp [hn.symm]

theorem counted_endSysCall (hs : Nested s) (hc : Counted s) (now : Int64) (hok : s.Unfinished e) :
    Counted { s with
      mgr := s.mgr.endSysCall e now, log := s.log.modify e fun h => (h.1, h.2 + s.ended e now) } := by
  obtain ⟨x, hx, hmem⟩ := hok
  have hadded : s.AddedFor x.1 e := ((hs.mem x.1 e).1 hmem).1
  obtain ⟨hself, hother⟩ := countersOf_endSysCall s now (hs.calls_lt hmem)
  have hroot? := root?_congr (endSysCall_frame s.mgr e now).1
  have htotal := total_modify hx (s.ended e now)
  have hnot : ∀ {k n}, k ≠ x.1 → s.AddedFor k n → n ≠ e := by
    rintro k n hk hn rfl
    exact hk (hn.unique hadded)
  refine ⟨fun k hk => ?_, fun k hk => ?_, fun k root hk hnil => ?_⟩
  · rw [map_fst_modify] at hk
    rw [hroot?]
    exact hc.rooted k hk
  · dsimp only at hk ⊢
    rw [htotal, ← hc.running k hk]
    by_cases hkx : x.1 = k
    · subst hkx
      rw [if_pos rfl]
      exact sum_map_add_of_mem (hs.nodup _) hmem hother hself
    · rw [if_neg hkx, add_zero]
      refine sum_map_eq_of_not_mem (fun he => ?_) hother
      exact hnot (Ne.symm hkx) ((hs.mem k e).1 he).1 rfl
  · dsimp only at hk hnil ⊢
    rw [hroot?] at hk
    have hkx : ¬ x.1 = k := by
      rintro rfl
      exact List.ne_nil_of_mem hmem hnil
    rw [htotal, if_neg hkx, add_zero, hother root (hnot (Ne.symm hkx) (hs.rootAdded k root hk))]
    exact hc.finished k root hk hnil

theorem step_counted {a : Action} (hs : Nested s) (hc : Counted s) (hok : WellNested s a)
    (hstep : s.step a = some s') : Counted s' := by
  cases a with
  | addBlock id =>
    cases hstep
    exact hc.frame rfl rfl (root?_addBlockTxsDuration _ id)
      fun n => by rw [nodes_addBlockTxsDuration]
  | addTx id o txId startTime =>
    exact (added_of_step hs hok hstep).counted hs hc rfl hok.2
  | finishTx id t total =>
    obtain ⟨o, root, node, hf⟩ := finished_of_step hs hok hstep
    exact hf.counted hs hc
  | startSysCall e msgType now got =>
    obtain ⟨r', hr', rfl⟩ := Option.map_eq_some_iff.1 hstep
    obtain ⟨hblocks, i, hnodes⟩ := startSysCall_frame hr'
    refine hc.frame rfl rfl (root?_congr hblocks) fun n => ?_
    unfold countersOf
    dsimp only
    rw [hnodes, List.getElem?_modify]
    cases s.mgr.nodes[n]? with
    | none => rfl
    | some c => by_cases hn : e = n <;> simp [hn]
  | addStorage e duration =>
    cases hstep
    obtain ⟨hblocks, hnodes⟩ := addLatestStorageDuration_frame s.mgr e duration
    exact hc.frame rfl rfl (root?_congr hblocks) fun n => by rw [hnodes]
  | endSysCall e now =>
    cases hstep
    exact counted_endSysCall hs hc now hok

theorem counted_of_reach (h : Reach step WellNested init s) : Counted s :=
  h.inv_of nested_of_reach counted_init fun hs hc hok hstep => step_counted hs hc hok hstep

/-! ## Blocks -/

/-- A finished root has no unfinished invocation. -/
theorem Nested.calls_eq_nil (h : Nested s) (hroot : s.mgr.root? k.1 k.2 = some root)
    (hfin : unsealed s.mgr.nodes root = false) : s.calls k = [] := by
  rcases hl : s.calls k with _ | ⟨e, l⟩
  · rfl
  · cases (h.root k e l hl).symm.trans hroot
    have hopen := ((h.mem k root).1 (by rw [hl]; exact List.mem_cons_self)).2
    rw [hfin] at hopen
    cases hopen

theorem blockTotal_counters (r : BlockTxsDurationMgr) (id : String) :
    (r.blockTotal id).toCounters =
      ((((r.blockDurations.get? id).getD .empty).entries.map fun e => countersOf r.nodes e.2)).sum := by
  have hfold : ∀ (l : List (String × ℕ)) (t : TxDuration),
      (l.foldl (fun total e => (r.nodes[e.2]?).elim total total.add) t).toCounters =
        t.toCounters + (l.map fun e => countersOf r.nodes e.2).sum := by
    intro l
    induction l with
    | nil => exact fun t => (add_zero _).symm
    | cons e l ih =>
      intro t
      rw [List.foldl_cons, ih, List.map_cons, List.sum_cons, ← add_assoc]
      congr 1
      unfold countersOf
      cases r.nodes[e.2]? with
      | none => exact (add_zero _).symm
      | some c => rfl
  unfold blockTotal
  rw [hfold]
  exact zero_add _

/-- What was recorded in a block, transaction by transaction. -/
theorem sum_total {log : List ((String × String) × Counters)} {id : String} {l : List String}
    (hnd : l.Nodup) (hall : ∀ x ∈ log, x.1.1 = id → x.1.2 ∈ l) :
    (l.map fun o => total log (id, o)).sum = blockRecorded log id := by
  induction log with
  | nil =>
    refine List.sum_eq_zero fun y hy => ?_
    obtain ⟨o, -, rfl⟩ := List.mem_map.1 hy
    rfl
  | cons x log ih =>
    have hrest := ih fun y hy => hall y (List.mem_cons_of_mem x hy)
    by_cases hid : x.1.1 = id
    · rw [show blockRecorded (x :: log) id = blockRecorded log id + x.2 by
        simp [blockRecorded, hid, add_comm], ← hrest]
      refine sum_map_add_of_mem hnd (hall x List.mem_cons_self hid) (fun o ho => ?_) ?_
      · rw [total_cons, if_neg, zero_add]
        exact fun heq => ho (congrArg Prod.snd heq).symm
      · have hx : x.1 = (id, x.1.2) := Prod.ext hid rfl
        rw [total_cons, if_pos hx, add_comm]
    · rw [show blockRecorded (x :: log) id = blockRecorded log id by simp [blockRecorded, hid],
        ← hrest]
      refine congrArg List.sum (List.map_congr_left fun o _ => ?_)
      rw [total_cons, if_neg, zero_add]
      exact fun heq => hid (congrArg Prod.fst heq)

/-- **Everything is counted twice.**  When the root of a transaction is finished, its counters
    equal what was recorded in the nodes of the tree exactly if that is 0 in each counter; and so
    does the total of a block whose transactions are all finished. -/
theorem totals_counted_once_iff {s : Invocations} (h : Reach step WellNested init s) :
    (∀ id o root, s.mgr.root? id o = some root → unsealed s.mgr.nodes root = false →
      (countersOf s.mgr.nodes root = total s.log (id, o) ↔ total s.log (id, o) = 0)) ∧
    ∀ id, (∀ o root, s.mgr.root? id o = some root → unsealed s.mgr.nodes root = false) →
      ((s.mgr.blockTotal id).toCounters = blockRecorded s.log id ↔ blockRecorded s.log id = 0) := by
  have hs := nested_of_reach h
  have hc := counted_of_reach h
  have hdouble : ∀ id o root, s.mgr.root? id o = some root → unsealed s.mgr.nodes root = false →
      countersOf s.mgr.nodes root = total s.log (id, o) + total s.log (id, o) :=
    fun id o root hroot hfin => hc.finished (id, o) root hroot (hs.calls_eq_nil hroot hfin)
  refine ⟨fun id o root hroot hfin => ?_, fun id hfin => ?_⟩
  · rw [hdouble id o root hroot hfin]
    exact Counters.add_self_eq _
  · have hblock : (s.mgr.blockTotal id).toCounters =
        blockRecorded s.log id + blockRecorded s.log id := by
      rw [blockTotal_counters]
      generalize htxs : (s.mgr.blockDurations.get? id).getD .empty = txs
      have hget : ∀ o, s.mgr.root? id o = txs.get? o := by
        intro o
        unfold root?
        rw [← htxs]
        cases s.mgr.blockDurations.get? id <;> rfl
      rw [← sum_total txs.nodup fun x hx hid => ?_, ← List.sum_map_add, List.map_map]
      · refine congrArg List.sum (List.map_congr_left fun e he => ?_)
        have hroot : s.mgr.root? id e.1 = some e.2 := by
          rw [hget]
          exact LinkedMap.get?_eq_some.2 he
        exact hdouble id e.1 e.2 hroot (hfin e.1 e.2 hroot)
      · obtain ⟨r, hr⟩ := Option.ne_none_iff_exists'.1 (hc.rooted x.1 (List.mem_map_of_mem hx))
        rw [hid, hget] at hr
        exact LinkedMap.mem_keys_iff.2 ⟨r, hr⟩
    rw [hblock]
    exact Counters.add_self_eq _

/-- A root that is added and finished without a system call. -/
theorem totals_counted_once_none :
    ∃ s, Reach step WellNested init s ∧ countersOf s.mgr.nodes 0 = total s.log ("block", "tx") ∧
      total s.log ("block", "tx") = 0 := by
  obtain ⟨s, hs, hP⟩ := exists_reach step WellNested init
    (fun s => s.mgr.root? "block" "tx" == some 0 && !unsealed s.mgr.nodes 0 &&
      decide (total s.log ("block", "tx") = 0))
    [.addBlock "block", .addTx "block" "tx" "tx1" 0, .finishTx "block" 0 1] (by decide)
  simp only [Bool.and_eq_true, beq_iff_eq, Bool.not_eq_true', decide_eq_true_eq] at hP
  exact ⟨s, hs, ((totals_counted_once_iff hs).1 _ _ _ hP.1.1 hP.1.2).2 hP.2, hP.2⟩

/-- A transaction with one read of the state that takes 5, and a cross call with another that
    takes 7: the root counts four calls and 24. -/
theorem totals_counted_twice :
    ∃ s, Reach step WellNested init s ∧ s.mgr.root? "block" "tx" = some 0 ∧
      unsealed s.mgr.nodes 0 = false ∧ total s.log ("block", "tx") = ⟨2, 12, 0, 0, 0, 0⟩ ∧
      countersOf s.mgr.nodes 0 = ⟨4, 24, 0, 0, 0, 0⟩ := by
  obtain ⟨s, hs, hP⟩ := exists_reach step WellNested init
    (fun s => s.mgr.root? "block" "tx" == some 0 && !unsealed s.mgr.nodes 0 &&
      decide (total s.log ("block", "tx") = ⟨2, 12, 0, 0, 0, 0⟩) &&
      decide (countersOf s.mgr.nodes 0 = ⟨4, 24, 0, 0, 0, 0⟩))
    [.addBlock "block", .addTx "block" "tx" "tx1" 0, .startSysCall 0 .getStateRequest 10 none,
      .endSysCall 0 15, .addTx "block" "tx" "tx2" 20, .startSysCall 1 .getStateRequest 30 none,
      .endSysCall 1 37, .finishTx "block" 1 20, .finishTx "block" 0 50] (by decide)
  simp only [Bool.and_eq_true, beq_iff_eq, Bool.not_eq_true', decide_eq_true_eq] at hP
  exact ⟨s, hs, hP.1.1.1, hP.1.1.2, hP.1.2, hP.2⟩

end Invocations

end VmEngine.Utils
