/-
  The transactions under which bytecode is requested.

  The chain serves a bytecode request only while it waits for the answer to the
  transaction that the request names.  A group names the transaction it has just
  buffered, or, after a failed fetch, the one it has just answered, or the one in the
  report of a process, which may have been answered meanwhile.

  A transaction waits at one place: with the scheduler or in a group.  There it has
  neither been sent to a sandbox nor answered.
-/
import VmEngine.Core.ProcessFlow
import VmEngine.Core.GroupRequests
import VmEngine.Lib.Places

namespace VmEngine

/-! ## Groups -/

namespace RequestGroup
variable {C : ChainConsts} {r r' : RequestGroup} {a : Action} {outs : List GroupOut}

/-- The transactions that wait in a group. -/
def waiting (r : RequestGroup) : List DockerVMMessage :=
  r.txCh.filter (·.type = .txRequest) ++ r.bufCh ++ (r.queue true ++ r.queue false)

/-- The transactions that enter or leave the channel of requests. -/
theorem filter_txCh (ha : Fleet.OfGroup a) (h : act C r a = .ok (r', outs)) :
    r.txCh.filter (·.type = .txRequest) =
      (r.handled a).toList ++ r'.txCh.filter (·.type = .txRequest) := by
  rw [(act_chans h).1]
  cases a with
  | putTx msg =>
    have hne : msg.type ≠ .txRequest := ha
    simp [handled, txChAfter, List.filter_append, hne]
  | recvTx view now =>
    cases hch : r.txCh with
    | nil => simp only [act, hch] at h; cases h
    | cons msg rest =>
      simp only [handled, txChAfter, hch, List.head?_cons, List.tail_cons, Option.filter]
      by_cases ht : msg.type = .txRequest
      · simp [ht]
      · simp [ht]
  | _ => rfl

/-- Transactions move inside a group or leave it, and those answered leave it. -/
theorem waiting_act (ha : Fleet.OfGroup a) (h : act C r a = .ok (r', outs)) :
    ∃ gone, r.waiting.Perm (r'.waiting ++ gone) ∧
      ∀ resp ∈ answersOf outs, ∃ tx ∈ gone, resp.txId = tx.txId := by
  have hch := filter_txCh ha h
  unfold waiting
  rw [hch]
  generalize r'.txCh.filter (·.type = .txRequest) = A
  cases act_queues h with
  | same htx _ hs hans =>
    refine ⟨[], ?_, by rw [hans]; exact List.forall_mem_nil _⟩
    rw [htx, hs.bufCh, hs.queue, hs.queue, List.append_nil]
    exact List.Perm.refl _
  | buffer tx htx _ hb hq hans =>
    refine ⟨[], List.perm_iff_count.2 fun x => ?_, by rw [hans]; exact List.forall_mem_nil _⟩
    rw [htx, hb, hq, hq]
    simp only [Option.toList_some, List.count_append, List.count_nil]
    omega
  | enqueue tx o htx _ _ hb hq hans =>
    refine ⟨[], List.perm_iff_count.2 fun x => ?_, by rw [hans]; exact List.forall_mem_nil _⟩
    rw [htx, hb, hq, hq]
    cases o <;> simp only [Option.toList_some, List.count_append, List.count_nil, if_true,
      Bool.false_eq_true, Bool.true_eq_false, if_false] <;> omega
  | reject tx resp htx hs hans hid _ =>
    refine ⟨[tx], List.perm_iff_count.2 fun x => ?_, ?_⟩
    · rw [htx, hs.bufCh, hs.queue, hs.queue]
      simp only [Option.toList_some, List.count_append]
      omega
    · rw [hans, List.forall_mem_singleton]
      exact ⟨tx, List.mem_singleton_self _, hid⟩
  | drop tx htx _ hs hans =>
    refine ⟨[tx], List.perm_iff_count.2 fun x => ?_, by rw [hans]; exact List.forall_mem_nil _⟩
    rw [htx, hs.bufCh, hs.queue, hs.queue]
    simp only [Option.toList_some, List.count_append]
    omega
  | move htx _ _ hb hq hall hans =>
    refine ⟨[], List.perm_iff_count.2 fun x => ?_, by rw [hans]; exact List.forall_mem_nil _⟩
    have hsplit := (perm_filter_goesTo hall).count_eq x
    rw [List.count_append] at hsplit
    rw [htx, hb, hq, hq]
    simp only [Option.toList_none, List.count_append, List.count_nil]
    omega
  | fail tx resp htx _ _ hb hq hans hid _ =>
    refine ⟨[tx], List.perm_iff_count.2 fun x => ?_, ?_⟩
    · rw [htx, hb, hq, hq, ← List.singleton_append]
      simp only [Option.toList_none, List.count_append, List.count_nil]
      omega
    · rw [hans, List.forall_mem_singleton]
      exact ⟨tx, List.mem_singleton_self _, hid⟩
  | take o _ _ _ _ => exact absurd ha not_false

end RequestGroup

/-! ## The fleet -/

namespace Fleet
variable {C : ChainConsts} {cfg : ProcessConfig} {f f' : Fleet} {a : Action} {outs : List FleetOut}

/-- The transactions that wait with the scheduler (`none`) and in the groups. -/
def waiting (f : Fleet) : Option String → List DockerVMMessage
  | none => f.txCh
  | some k => match f.requestGroups k with
    | none => []
    | some r => r.waiting

/-- Every transaction waits at one place at most, and while it waits it is neither sent
    nor answered; the transaction of a listening process is. -/
structure FleetInv (f : Fleet) : Prop where
  once : Once (fun tx : DockerVMMessage => tx.txId) f.waiting
  pending : ∀ {i : Option String} {tx : DockerVMMessage}, tx ∈ f.waiting i →
    tx.txId ∈ f.seen ∧ tx.txId ∉ f.sent ∧ tx.txId ∉ f.answered
  sent : ∀ {txId : String}, txId ∈ f.sent → txId ∈ f.seen
  answered : ∀ {txId : String}, txId ∈ f.answered → txId ∈ f.seen
  busy : ∀ {pid : ℕ} {p : Process}, f.procs[pid]? = some p → p.BusyTx
  tx : ∀ {pid : ℕ} {p : Process} {tx : DockerVMMessage}, f.procs[pid]? = some p →
    p.listen.isSome = true → p.tx = some tx → tx.txId ∈ f.sent ∨ tx.txId ∈ f.answered

theorem fleetInv_init : FleetInv init where
  once := by
    have hnil : init.waiting = fun _ => [] := by
      funext i
      cases i <;> rfl
    rw [hnil]
    exact once_nil
  pending {i tx} h := by cases i <;> exact absurd h List.not_mem_nil
  sent := nofun
  answered := nofun
  busy := nofun
  tx := nofun

/-- A transaction that has left the places where it could wait. -/
def Left (f f' : Fleet) (txId : String) : Prop :=
  txId ∈ f.seen ∧ ∀ i tx, tx ∈ f'.waiting i → tx.txId ≠ txId

/-- A step in which no transaction arrives, and only transactions that do not wait any
    more are sent or answered. -/
theorem FleetInv.next (hI : FleetInv f) (honce : Once (fun tx : DockerVMMessage => tx.txId) f'.waiting)
    (hmem : ∀ i tx, tx ∈ f'.waiting i → ∃ j, tx ∈ f.waiting j) (hseen : f'.seen = f.seen)
    (hsent : ∀ txId ∈ f'.sent, txId ∈ f.sent ∨ Left f f' txId)
    (hans : ∀ txId ∈ f'.answered, txId ∈ f.answered ∨ Left f f' txId)
    (hsub : f.sent ⊆ f'.sent ∧ f.answered ⊆ f'.answered)
    (hprocs : ∀ (pid : ℕ) (p : Process), f'.procs[pid]? = some p → f.procs[pid]? = some p ∨ p.BusyTx ∧
      ∀ tx, p.listen.isSome = true → p.tx = some tx → tx.txId ∈ f'.sent ∨ tx.txId ∈ f'.answered) :
    FleetInv f' where
  once := honce
  pending {i tx} htx := by
    obtain ⟨j, hj⟩ := hmem i tx htx
    obtain ⟨hs, hns, hna⟩ := hI.pending hj
    refine ⟨hseen ▸ hs, fun h => ?_, fun h => ?_⟩
    · rcases hsent _ h with h | h
      · exact hns h
      · exact h.2 i tx htx rfl
    · rcases hans _ h with h | h
      · exact hna h
      · exact h.2 i tx htx rfl
  sent {txId} h := by
    rw [hseen]
    rcases hsent _ h with h | h
    · exact hI.sent h
    · exact h.1
  answered {txId} h := by
    rw [hseen]
    rcases hans _ h with h | h
    · exact hI.answered h
    · exact h.1
  busy {pid p} h := by
    rcases hprocs pid p h with h | h
    · exact hI.busy h
    · exact h.1
  tx {pid p tx} h hl htx := by
    rcases hprocs pid p h with h | h
    · exact (hI.tx h hl htx).imp (fun h => hsub.1 h) (fun h => hsub.2 h)
    · exact h.2 tx hl htx

variable {p : Process} {pa : Process.Action} {tx : DockerVMMessage}

/-- A transaction that left its place waits nowhere. -/
theorem FleetInv.left (hI : FleetInv f) (hd : Fewer f.waiting f'.waiting) {i : Option String}
    {gone : List DockerVMMessage} (hi : (f.waiting i).Perm (f'.waiting i ++ gone))
    (htx : tx ∈ gone) : Left f f' tx.txId :=
  ⟨(hI.pending (hi.symm.subset (List.mem_append_right _ htx))).1,
    fun _ _ hb => hI.once.gone hd hi htx hb⟩

/-! ### Steps of the scheduler, the chain and the groups -/

theorem waiting_setGroup (f : Fleet) (k : String) (r : RequestGroup) :
    (f.setGroup k r).waiting = Function.update f.waiting (some k) r.waiting := by
  funext i
  cases i with
  | none => rfl
  | some k' =>
    by_cases hk : k' = k
    · subst hk
      rw [Function.update_self]
      simp only [waiting, setGroup, Function.update_self]
    · have hne : some k' ≠ some k := fun h => hk (Option.some.inj h)
      rw [Function.update_of_ne hne]
      simp only [waiting, setGroup, Function.update_of_ne hk]

theorem waiting_txCh (f : Fleet) (txs : List DockerVMMessage) (seen : List String) :
    { f with txCh := txs, seen := seen }.waiting = Function.update f.waiting none txs := by
  funext i
  cases i <;> rfl

theorem FleetInv.request (hI : FleetInv f) (hnew : tx.txId ∉ f.seen) :
    FleetInv { f with txCh := f.txCh ++ [tx], seen := tx.txId :: f.seen } := by
  have hw := waiting_txCh f (f.txCh ++ [tx]) (tx.txId :: f.seen)
  have hne : ∀ {i b}, b ∈ f.waiting i → b.txId ≠ tx.txId :=
    fun hb heq => hnew (heq ▸ (hI.pending hb).1)
  refine ⟨?_, fun {i b} hb => ?_, fun h => List.mem_cons_of_mem _ (hI.sent h),
    fun h => List.mem_cons_of_mem _ (hI.answered h), hI.busy, hI.tx⟩
  · rw [hw]
    refine hI.once.add hne (i := none) ?_ fun j hj => Function.update_of_ne hj _ _
    rw [Function.update_self]
    exact List.perm_append_singleton _ _
  · have hold : b ∈ f.waiting i ∨ b = tx := by
      rw [hw] at hb
      cases i with
      | none => exact (List.mem_append.1 hb).imp_right List.mem_singleton.1
      | some k => exact Or.inl hb
    rcases hold with hb | rfl
    · exact ⟨List.mem_cons_of_mem _ (hI.pending hb).1, (hI.pending hb).2⟩
    · exact ⟨List.mem_cons_self, fun h => hnew (hI.sent h), fun h => hnew (hI.answered h)⟩

/-- A transaction that reaches its group waits there. -/
theorem waiting_concat (r : RequestGroup) (tx : DockerVMMessage) :
    ({ r with txCh := r.txCh ++ [tx] } : RequestGroup).waiting.Perm
      ([tx].filter (·.type = .txRequest) ++ r.waiting) := by
  refine List.perm_iff_count.2 fun x => ?_
  show (List.filter _ (r.txCh ++ [tx]) ++ r.bufCh ++ (r.queue true ++ r.queue false)).count x = _
  simp only [RequestGroup.waiting, List.filter_append, List.count_append]
  omega

theorem FleetInv.schedule (hI : FleetInv f) {rest : List DockerVMMessage}
    (hch : f.txCh = tx :: rest) : FleetInv (handleTxReq { f with txCh := rest } tx) := by
  have hw := waiting_txCh f rest f.seen
  have hperm : (f.waiting none).Perm (Function.update f.waiting none rest none ++ [tx]) := by
    rw [Function.update_self]
    show f.txCh.Perm _
    rw [hch]
    exact (List.perm_append_singleton _ _).symm
  have hd : Fewer f.waiting (Function.update f.waiting none rest) := by
    refine .update [tx] ?_
    rwa [Function.update_self] at hperm
  unfold handleTxReq
  split
  · refine hI.next ?_ ?_ rfl (fun _ => Or.inl) (fun _ => Or.inl) ⟨List.Subset.refl _, List.Subset.refl _⟩
      fun _ _ => Or.inl
    · rw [hw]; exact hI.once.drop hd
    · rw [hw]; exact fun i b hb => ⟨i, hd.mem hb⟩
  · rename_i q hq
    generalize hr : (f.requestGroups q.key.groupKey).getD (.new q.key) = r
    have hold : r.waiting = Function.update f.waiting none rest (some q.key.groupKey) := by
      rw [Function.update_of_ne (Option.some_ne_none _), ← hr]
      unfold waiting
      dsimp only
      cases f.requestGroups q.key.groupKey <;> rfl
    have hw' := waiting_setGroup { f with txCh := rest } q.key.groupKey { r with txCh := r.txCh ++ [tx] }
    rw [hw] at hw'
    generalize hL : Function.update (Function.update f.waiting none rest) (some q.key.groupKey)
      ({ r with txCh := r.txCh ++ [tx] } : RequestGroup).waiting = L at hw'
    have hmove : Once (fun tx : DockerVMMessage => tx.txId) L ∧
        ∀ i b, b ∈ L i → ∃ j, b ∈ f.waiting j := by
      subst hL
      by_cases ht : tx.type = .txRequest
      · refine hI.once.move _ hd hperm (j := some q.key.groupKey) ?_
          fun k hk => Function.update_of_ne hk _ _
        rw [Function.update_self, ← hold]
        simpa [ht] using waiting_concat r tx
      · -- a message of another type does not count as waiting
        have hd' : Fewer f.waiting (Function.update (Function.update f.waiting none rest)
            (some q.key.groupKey) ({ r with txCh := r.txCh ++ [tx] } : RequestGroup).waiting) := by
          intro i
          by_cases hi : i = some q.key.groupKey
          · subst hi
            obtain ⟨gone, hg⟩ := hd (some q.key.groupKey)
            rw [← hold] at hg
            rw [Function.update_self]
            refine ⟨gone, hg.trans (List.Perm.append_right _ ?_)⟩
            simpa [ht] using (waiting_concat r tx).symm
          · rw [Function.update_of_ne hi]
            exact hd i
        exact ⟨hI.once.drop hd', fun i b hb => ⟨i, hd'.mem hb⟩⟩
    exact hI.next (hw' ▸ hmove.1) (hw' ▸ hmove.2) rfl (fun _ => Or.inl) (fun _ => Or.inl)
      ⟨List.Subset.refl _, List.Subset.refl _⟩ fun _ _ => Or.inl

theorem FleetInv.group (hI : FleetInv f) {k : String} {ga : RequestGroup.Action} {r r' : RequestGroup}
    {gouts : List GroupOut} (hr : f.requestGroups k = some r) (ha : OfGroup ga)
    (h : RequestGroup.act C r ga = .ok (r', gouts)) :
    FleetInv { f.setGroup k r' with
      answered := f.answered ++ (RequestGroup.answersOf gouts).map (·.txId) } := by
  obtain ⟨gone, hperm, hans⟩ := RequestGroup.waiting_act ha h
  have hi : (f.waiting (some k)).Perm ((f.setGroup k r').waiting (some k) ++ gone) := by
    rw [waiting_setGroup, Function.update_self]
    simpa only [waiting, hr] using hperm
  have hd : Fewer f.waiting (f.setGroup k r').waiting := by
    rw [waiting_setGroup]
    refine .update gone ?_
    simpa only [waiting, hr] using hperm
  refine hI.next (hI.once.drop hd) (fun i b hb => ⟨i, hd.mem hb⟩) rfl (fun _ => Or.inl)
    (fun txId hid => ?_) ⟨List.Subset.refl _, List.subset_append_left _ _⟩ fun _ _ => Or.inl
  rcases List.mem_append.1 hid with hid | hid
  · exact Or.inl hid
  · obtain ⟨resp, hresp, rfl⟩ := List.mem_map.1 hid
    obtain ⟨tx, htx, heq⟩ := hans resp hresp
    rw [heq]
    exact Or.inr (hI.left hd hi htx)

/-! ### Steps of the processes -/

theorem Offers.head {k : String} (h : f.Offers p pa) (hr : receives p pa = some (k, tx)) :
    f.queueHead k p.isOrigProcess = some tx := by
  cases pa with
  | exit next cfv =>
    cases next with
    | none => cases hr
    | some tx' =>
      cases hr
      have hexit := h.1
      unfold exitTx at hexit
      split at hexit
      · split_ifs at hexit
        exact hexit.symm
      · cases hexit
  | txReq _ _ _ | idleTxReq _ _ => exact h _ hr
  | _ => cases hr

/-- A process takes nothing, or a transaction from one queue. -/
theorem taken_cases (h : f.Offers p pa) :
    receives p pa = none ∧ (f.taken p pa).waiting = f.waiting ∨
      ∃ k tx l, receives p pa = some (k, tx) ∧ (f.waiting (some k)).Perm (l ++ [tx]) ∧
        (f.taken p pa).waiting = Function.update f.waiting (some k) l := by
  cases hr : receives p pa with
  | none =>
    have heq : f.taken p pa = f := by unfold taken; rw [hr]
    exact Or.inl ⟨rfl, by rw [heq]⟩
  | some t =>
    obtain ⟨k, tx⟩ := t
    obtain ⟨r, hrk, hhead⟩ := Option.bind_eq_some_iff.1 (h.head hr)
    have heq : f.taken p pa = f.setGroup k (dropHead r p.isOrigProcess) := by
      unfold taken
      rw [hr]
      dsimp only
      rw [hrk]
    refine Or.inr ⟨k, tx, _, rfl, ?_, by rw [heq, waiting_setGroup]⟩
    obtain ⟨rest, hq⟩ := List.head?_eq_some_iff.1 hhead
    refine List.perm_iff_count.2 fun x => ?_
    have hcount : (r.queue p.isOrigProcess).count x = [tx].count x + rest.count x := by
      rw [hq, ← List.singleton_append, List.count_append]
    simp only [waiting, hrk, RequestGroup.waiting, dropHead, RequestGroup.queue_setController,
      RequestGroup.txCh_setController, RequestGroup.bufCh_setController, List.count_append, hq,
      List.tail_cons]
    cases ho : p.isOrigProcess <;> rw [ho] at hcount <;> simp only [if_true, Bool.false_eq_true,
      Bool.true_eq_false, if_false] <;> omega

/-- What a process received has left its queue. -/
theorem waiting_taken (h : f.Offers p pa) :
    Fewer f.waiting (f.taken p pa).waiting ∧
      ∀ tx, (receives p pa).map (·.2) = some tx →
        ∃ k, (f.waiting (some k)).Perm ((f.taken p pa).waiting (some k) ++ [tx]) := by
  rcases taken_cases h with ⟨hr, heq⟩ | ⟨k, tx, l, hr, hperm, heq⟩
  · rw [heq, hr]
    refine ⟨.refl _, fun tx htx => ?_⟩
    cases htx
  · rw [heq, hr]
    refine ⟨.update [tx] hperm, ?_⟩
    rintro tx' ⟨⟩
    exact ⟨k, by rwa [Function.update_self]⟩

theorem waiting_putOuts (f : Fleet) (pid : ℕ) (p : Process) (pouts : List ProcessOut) :
    ((f.setProc pid p).putOuts pouts).waiting =
      Function.update f.waiting none (f.txCh ++ returned pouts) := by
  funext i
  cases i with
  | none => rfl
  | some k =>
    rw [Function.update_of_ne (Option.some_ne_none k)]
    simp only [waiting, putOuts, setProc]
    cases f.requestGroups k <;> rfl

theorem taken_eq (f : Fleet) (p : Process) (pa : Process.Action) : (f.taken p pa).txCh = f.txCh ∧
    (f.taken p pa).seen = f.seen ∧ (f.taken p pa).sent = f.sent ∧
    (f.taken p pa).answered = f.answered ∧ (f.taken p pa).procs = f.procs := by
  unfold taken
  split
  · exact ⟨rfl, rfl, rfl, rfl, rfl⟩
  · split <;> exact ⟨rfl, rfl, rfl, rfl, rfl⟩

theorem FleetInv.proc (hI : FleetInv f) {pid : ℕ} {p' : Process} {pouts : List ProcessOut}
    (hp : f.procs[pid]? = some p) (hoff : f.Offers p pa) (h : Process.ProcStep p pa p' pouts) :
    FleetInv (((f.taken p pa).setProc pid p').putOuts pouts) := by
  have hflow := h.flow (hI.busy hp)
  obtain ⟨hd, hgot⟩ := waiting_taken hoff
  obtain ⟨htxCh, hseen, hsent, hans, hprocs⟩ := taken_eq f p pa
  have hw := waiting_putOuts (f.taken p pa) pid p' pouts
  rw [htxCh] at hw
  generalize hf' : ((f.taken p pa).setProc pid p').putOuts pouts = f' at hw ⊢
  have hsent' : f'.sent = f.sent ++ (Process.sends pouts).map (·.2.txId) := by rw [← hf', ← hsent]; rfl
  have hans' : f'.answered = f.answered ++ Process.errTxIds pouts := by rw [← hf', ← hans]; rfl
  have hseen' : f'.seen = f.seen := by rw [← hf', ← hseen]; rfl
  have hprocs' : f'.procs = f.procs.set pid p' := by rw [← hf', ← hprocs]; rfl
  have hsub : f.sent ⊆ f'.sent ∧ f.answered ⊆ f'.answered := by
    rw [hsent', hans']
    exact ⟨List.subset_append_left _ _, List.subset_append_left _ _⟩
  have hstep : ∀ (k : ℕ) (q : Process), f'.procs[k]? = some q → f.procs[k]? = some q ∨ q.BusyTx ∧
      ∀ tx, q.listen.isSome = true → q.tx = some tx → tx.txId ∈ f'.sent ∨ tx.txId ∈ f'.answered := by
    intro k q hq
    rw [hprocs'] at hq
    rcases getElem?_set_some hq with ⟨rfl, rfl⟩ | ⟨-, hq⟩
    · refine Or.inr ⟨hflow.busy, fun tx hl htx => ?_⟩
      rw [hsent', hans']
      rcases hflow.tx hl tx htx with ⟨hl, htx⟩ | hid | hid
      · exact (hI.tx hp hl htx).imp (List.mem_append_left _) (List.mem_append_left _)
      · exact Or.inl (List.mem_append_right _ hid)
      · exact Or.inr (List.mem_append_right _ hid)
    · exact Or.inl hq
  rcases hflow.returned with hnone | ⟨tx, hrec, hone, hs, he⟩
  · -- what was received does not wait any more
    have hsame : f'.waiting = (f.taken p pa).waiting := by
      rw [hw, hnone, List.append_nil, ← htxCh]
      exact Function.update_eq_self none _
    rw [← hsame] at hd hgot
    have hleft : ∀ tx, (receives p pa).map (·.2) = some tx → Left f f' tx.txId := by
      intro tx htx
      obtain ⟨k, hk⟩ := hgot tx htx
      exact hI.left hd hk (List.mem_singleton_self tx)
    refine hI.next (hI.once.drop hd) (fun i b hb => ⟨i, hd.mem hb⟩) hseen' (fun txId hid => ?_)
      (fun txId hid => ?_) hsub hstep
    · rw [hsent'] at hid
      rcases List.mem_append.1 hid with hid | hid
      · exact Or.inl hid
      · obtain ⟨m, hm, rfl⟩ := List.mem_map.1 hid
        obtain ⟨tx, hrec, heq⟩ := hflow.sent m hm
        exact Or.inr (heq ▸ hleft tx hrec)
    · rw [hans'] at hid
      rcases List.mem_append.1 hid with hid | hid
      · exact Or.inl hid
      · rcases hflow.errs txId hid with ⟨tx, hrec, rfl⟩ | ⟨hl, tx, htx, rfl⟩
        · exact Or.inr (hleft tx hrec)
        · -- the current transaction was sent or answered before
          have hold := hI.tx hp hl htx
          refine Or.inr ⟨hold.elim hI.sent hI.answered, fun i b hb heq => ?_⟩
          obtain ⟨-, hns, hna⟩ := hI.pending (hd.mem hb)
          rw [heq] at hns hna
          exact hold.elim hns hna
  · obtain ⟨k, hk⟩ := hgot tx hrec
    rw [hone] at hw
    have hmove := hI.once.move f'.waiting hd hk (j := none)
      (by rw [hw, Function.update_self, ← htxCh]; exact List.perm_append_singleton _ _)
      (fun i hi => by rw [hw, Function.update_of_ne hi])
    rw [hs, List.map_nil, List.append_nil] at hsent'
    rw [he, List.append_nil] at hans'
    exact hI.next hmove.1 hmove.2 hseen' (fun _ h => Or.inl (hsent' ▸ h)) (fun _ h => Or.inl (hans' ▸ h))
      hsub hstep

theorem FleetInv.create (hI : FleetInv f) (user : ℕ) (key : RequestGroupKey) (name : String)
    (isOrig : Bool) : FleetInv { f with procs := f.procs ++ [Process.new user key name isOrig] } where
  once := hI.once
  pending := hI.pending
  sent := hI.sent
  answered := hI.answered
  busy {pid p} hp := by
    rcases getElem?_concat_some hp with ⟨-, rfl⟩ | hp
    · rintro (h | h) <;> cases h
    · exact hI.busy hp
  tx {pid p tx} hp hl htx := by
    rcases getElem?_concat_some hp with ⟨-, rfl⟩ | hp
    · cases htx
    · exact hI.tx hp hl htx

theorem FleetInv.answer (hI : FleetInv f) {txId : String} (hs : txId ∈ f.sent) :
    FleetInv { f with answered := f.answered ++ [txId] } := by
  refine hI.next hI.once (fun i b hb => ⟨i, hb⟩) rfl
    (fun _ => Or.inl) (fun id hid => ?_) ⟨List.Subset.refl _, List.subset_append_left _ _⟩
    fun _ _ => Or.inl
  rcases List.mem_append.1 hid with hid | hid
  · exact Or.inl hid
  · rw [List.mem_singleton.1 hid]
    exact Or.inr ⟨hI.sent hs, fun i b hb heq => (hI.pending hb).2.1 (heq ▸ hs)⟩

/-- The invariant is kept by every step. -/
theorem FleetInv.step (hI : FleetInv f) (h : FleetStep C f a f' outs) : FleetInv f' := by
  cases h with
  | request _ hnew => exact hI.request hnew
  | schedule hch => exact hI.schedule hch
  | group hr ha hact => exact hI.group hr ha hact
  | create => exact hI.create _ _ _ _
  | proc hp hoff hstep => exact hI.proc hp hoff hstep
  | answer hs => exact hI.answer hs

/-! ## Bytecode requests -/

/-- The report that a group handles in a step. -/
def handledReport (r : RequestGroup) : RequestGroup.Action → Option BadContractResp
  | .recvEvent _ => match r.eventCh.head? with
    | some (.badContract msg) => some msg
    | _ => none
  | _ => none

/-- **When a group may request bytecode again.**  After a failed fetch no other
    transaction is in the buffer; and while the controllers' queues hold transactions,
    the one of an accepted report waits with the scheduler or in the group. -/
def PendingOk (f : Fleet) : Action → Prop
  | .group k ga => ∀ r ∈ f.requestGroups k,
    (RequestGroup.RunsGetBytecodeErr r ga → r.bufCh.length ≤ 1) ∧
    ∀ msg ∈ handledReport r ga, r.Accepts msg → r.queue true ++ r.queue false ≠ [] →
      ∃ tx ∈ f.waiting none ++ f.waiting (some k), tx.txId = msg.txId
  | _ => True

instance : DecidableRel PendingOk := fun f a =>
  match a with
  | .group k ga => inferInstanceAs (Decidable (∀ r ∈ f.requestGroups k,
      (RequestGroup.RunsGetBytecodeErr r ga → r.bufCh.length ≤ 1) ∧
      ∀ msg ∈ handledReport r ga, r.Accepts msg → r.queue true ++ r.queue false ≠ [] →
        ∃ tx ∈ f.waiting none ++ f.waiting (some k), tx.txId = msg.txId))
  | .request _ | .schedule | .create _ _ _ _ | .proc _ _ | .answer _ => instDecidableTrue

/-- The bytecode requests among the messages. -/
def fetches (outs : List FleetOut) : List String :=
  outs.filterMap fun
    | .group _ (.getBytecodeReq txId _) => some txId
    | _ => none

theorem fetches_group (k : String) (gouts : List GroupOut) :
    fetches (gouts.map (.group k)) = RequestGroup.fetchesOf gouts := by
  unfold fetches RequestGroup.fetchesOf
  rw [List.filterMap_map]
  refine List.filterMap_congr fun o _ => ?_
  cases o <;> rfl

theorem fetches_proc (pid : ℕ) (pouts : List ProcessOut) : fetches (pouts.map (.proc pid)) = [] := by
  unfold fetches
  rw [List.filterMap_map]
  exact List.filterMap_eq_nil_iff.2 fun _ _ => rfl

theorem fleetInv_reach {ok : Fleet → Action → Prop} (h : Reach (step C cfg) ok init f) : FleetInv f :=
  h.inv (I := FleetInv) fleetInv_init fun hI _ hstep => by
    obtain ⟨outs, hact⟩ := step_eq_some hstep
    exact hI.step (act_step hact)

/-- The transaction under which a step requests bytecode is pending. -/
theorem FleetInv.fetches (hI : FleetInv f) (hok : PendingOk f a) (h : FleetStep C f a f' outs)
    {txId : String} (hid : txId ∈ fetches outs) : txId ∈ f'.seen ∧ txId ∉ f'.answered := by
  cases h with
  | request _ _ | schedule _ | create | answer _ => exact absurd hid List.not_mem_nil
  | proc _ _ _ => rw [fetches_proc] at hid; exact absurd hid List.not_mem_nil
  | @group k ga r r' gouts hr ha hact =>
    rw [fetches_group] at hid
    obtain ⟨hretry, hreport⟩ := hok r hr
    have hwait : ∀ {i : Option String} {tx : DockerVMMessage}, RequestGroup.answersOf gouts = [] →
        tx ∈ f.waiting i → tx.txId ∈ f.seen ∧
          tx.txId ∉ f.answered ++ (RequestGroup.answersOf gouts).map (·.txId) := by
      intro i tx hans htx
      rw [hans, List.map_nil, List.append_nil]
      exact ⟨(hI.pending htx).1, (hI.pending htx).2.2⟩
    cases RequestGroup.act_fetches hact hid with
    | first tx htx hans heq =>
      subst heq
      refine hwait (i := some k) hans ?_
      have hmem : tx ∈ r.waiting := by
        unfold RequestGroup.waiting
        rw [RequestGroup.filter_txCh ha hact, htx]
        simp
      simpa only [waiting, hr] using hmem
    | retry hrun hlt =>
      have hle := hretry hrun
      omega
    | report view msg heq hhead hacc hq hans hid' =>
      subst heq hid'
      have hhandled : msg ∈ handledReport r (.recvEvent view) := by simp [handledReport, hhead]
      have hne : r.queue true ++ r.queue false ≠ [] := by
        rw [Ne, List.append_eq_nil_iff, not_and_or]
        exact hq
      obtain ⟨tx, htx, heq⟩ := hreport msg hhandled hacc hne
      rw [← heq]
      rcases List.mem_append.1 htx with htx | htx
      · exact hwait hans htx
      · exact hwait hans htx

/-- **Bytecode is requested under pending transactions**, in every run whose steps meet
    the condition: the transaction that the request names was requested by the chain and
    has not been answered, by an error or by its sandbox. -/
theorem fetch_pending (h : Reach (step C cfg) PendingOk init f) (hok : PendingOk f a)
    (hact : act C cfg f a = some (f', outs)) (txId : String) (hid : txId ∈ fetches outs) :
    txId ∈ f'.seen ∧ txId ∉ f'.answered :=
  (fleetInv_reach h).fetches hok (act_step hact) hid

/-! ## Runs -/

/-- The group has two transactions in a queue, and a process that fails to start its
    sandbox has taken the first one. -/
def runStartError (notExist : Bool) : List Action :=
  runFetched "tx1" "save" 7 ++
  [.request (sampleTx .sample "tx2" "save"), .schedule,
    .group sampleGroup (.recvTx RequestGroup.noProcesses 0), .create 10000 .sample "p0" true,
    .proc 0 (.launchProcess (.startError notExist 7)), .proc 0 .loopHead,
    .proc 0 (.exit (some (sampleTx .sample "tx1" "save")) 7)]

/-- The contract file was missing: the transaction went back to the scheduler, and the
    bytecode is requested for it. -/
theorem fetch_pending_report : ∃ f f' outs, Reach (step .sample .sample) PendingOk init f ∧
    act .sample .sample f (.group sampleGroup (.recvEvent RequestGroup.noProcesses)) = some (f', outs) ∧
    "tx1" ∈ fetches outs ∧ "tx1" ∈ f'.seen ∧ "tx1" ∉ f'.answered := by
  obtain ⟨f, hf, hP⟩ := exists_reach (step .sample .sample) PendingOk init
    (fun f => decide (PendingOk f (.group sampleGroup (.recvEvent RequestGroup.noProcesses))) &&
      (act .sample .sample f (.group sampleGroup (.recvEvent RequestGroup.noProcesses))).any
        fun s => decide ("tx1" ∈ fetches s.2))
    (runStartError true) (by decide)
  obtain ⟨hok, hany⟩ := (Bool.and_eq_true _ _).mp hP
  obtain ⟨⟨f', outs⟩, hact, hid⟩ := (Option.any_eq_true _ _).1 hany
  exact ⟨f, f', outs, hf, hact, of_decide_eq_true hid,
    fetch_pending hf (of_decide_eq_true hok) hact "tx1" (of_decide_eq_true hid)⟩

/-- The step requests bytecode under an answered transaction. -/
def FetchesAnswered (a : Action) (f : Fleet) : Bool :=
  (act .sample .sample f a).any fun s => decide (∃ txId ∈ fetches s.2, txId ∈ s.1.answered)

/-- The timer of the fetch expires: the first buffered transaction is answered with an
    error, and the bytecode is requested again under it.  The contract file is not
    executable: the process answers the transaction it took, and the group requests the
    bytecode under it for the other one. -/
theorem fetch_answered :
    (∃ f, Reach (step .sample .sample) Free init f ∧ FetchesAnswered (.group sampleGroup .recvTimer) f) ∧
    ∃ f, Reach (step .sample .sample) Free init f ∧
      FetchesAnswered (.group sampleGroup (.recvEvent RequestGroup.noProcesses)) f := by
  refine ⟨exists_reach _ Free _ _
    [.request (sampleTx .sample "tx1" "save"), .schedule,
      .group sampleGroup (.recvTx RequestGroup.noProcesses 0),
      .request (sampleTx .sample "tx2" "save"), .schedule,
      .group sampleGroup (.recvTx RequestGroup.noProcesses 0), .group sampleGroup .expire] ?_,
    exists_reach _ Free _ _ (runStartError false) ?_⟩
  · decide
  · decide

end Fleet

end VmEngine
