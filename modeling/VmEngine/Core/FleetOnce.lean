/-
  A transaction is executed once.

  A transaction is sent to a sandbox once at most, and not any more when it has been
  answered with an error (`sent_once`).  The message of the last transaction, which a
  process returns to the pool when it takes the next one, is held by nobody from then on
  (`recycled_gone`).
-/
import VmEngine.Core.FleetFetch

namespace VmEngine

/-! ## Processes -/

namespace Process
variable {cfg : ProcessConfig} {p p' : Process} {a : Action} {outs : List ProcessOut}

theorem sends_txErrorResp (p : Process) (txId err : String) :
    sends [p.returnTxErrorResp txId err] = [] := rfl

/-- A step sends one message at most. -/
theorem ProcStep.sends_le (h : ProcStep p a p' outs) : (sends outs).length ≤ 1 := by
  cases h with
  | dropped _ ho =>
    rcases ho with rfl | ⟨err, rfl⟩
    · exact Nat.zero_le 1
    · rw [sends_txErrorResp]; exact Nat.zero_le 1
  | dispatched _ _ _ ho =>
    rcases ho with rfl | ⟨err, rfl⟩
    · exact Nat.le_refl 1
    · rw [sends_txErrorResp]; exact Nat.zero_le 1
  | exit _ _ _ hcase _ =>
    cases hcase with
    | ended _ _ hs => rw [hs]; exact Nat.zero_le 1
    | _ => exact Nat.zero_le 1
  | _ => exact Nat.zero_le 1

/-- A transaction that has not expired becomes the current one. -/
theorem act_dispatch {tx : DockerVMMessage} {el : ℕ} {sendOk : Bool}
    (hlive : ¬ (removeTxTime < el ∨ cfg.execTxTimeout < el))
    (h : act cfg p (.txReq tx el sendOk) = .ok (p', outs)) :
    p'.tx = some tx ∧ ∃ q, p.listen = some (.ready q) := by
  obtain ⟨hready, -, hcase⟩ := txReq_cases h
  refine ⟨?_, hready⟩
  cases hcase with
  | removed h0 => exact absurd (Or.inl h0) hlive
  | expired _ _ h1 => exact absurd (Or.inr h1) hlive
  | dispatched _ _ hup _ _ =>
    obtain ⟨u, t, b, rfl⟩ := updateProcessState_eq hup
    rfl

end Process

/-! ## Where transactions wait -/

namespace Fleet
variable {C : ChainConsts} {cfg : ProcessConfig} {f f' : Fleet} {a : Action} {outs : List FleetOut}
  {i : Option String} {tx b : DockerVMMessage}

/-- A transaction waits with the scheduler or in a group. -/
def Waits (f : Fleet) (txId : String) : Prop := ∃ i, ∃ tx ∈ f.waiting i, tx.txId = txId

/-- The scheduler changes its groups only. -/
theorem handleTxReq_frame (f : Fleet) (tx : DockerVMMessage) :
    (handleTxReq f tx).seen = f.seen ∧ (handleTxReq f tx).sent = f.sent ∧
      (handleTxReq f tx).answered = f.answered ∧ (handleTxReq f tx).procs = f.procs := by
  unfold handleTxReq
  split <;> exact ⟨rfl, rfl, rfl, rfl⟩

/-- The scheduler puts a transaction into the group of its contract. -/
theorem mem_waiting_handleTxReq : b ∈ (handleTxReq f tx).waiting i → b ∈ f.waiting i ∨
    b = tx ∧ ∃ q, tx.request = some q ∧ i = some q.key.groupKey := by
  unfold handleTxReq
  split
  · exact Or.inl
  · rename_i q hq
    dsimp only
    rw [waiting_setGroup]
    intro hb
    rcases mem_update.1 hb with ⟨rfl, hin⟩ | ⟨-, hb⟩
    · rcases List.mem_append.1 ((waiting_concat _ tx).subset hin) with hb | hb
      · exact Or.inr ⟨List.mem_singleton.1 (List.mem_filter.1 hb).1, q, hq, rfl⟩
      · left
        cases hg : f.requestGroups q.key.groupKey with
        | none => rw [hg] at hb; exact absurd hb List.not_mem_nil
        | some r => rw [hg] at hb; simp only [waiting, hg]; exact hb
    · exact Or.inl hb

theorem waiting_group {k : String} {r' : RequestGroup} {ans : List String} :
    ({ f.setGroup k r' with answered := ans }).waiting =
      Function.update f.waiting (some k) r'.waiting :=
  waiting_setGroup f k r'

/-- Only the requested transactions come to wait. -/
theorem FleetInv.mem_waiting (hI : FleetInv f) (h : FleetStep C f a f' outs)
    (hb : b ∈ f'.waiting i) : (∃ j, b ∈ f.waiting j) ∨ a = .request b := by
  cases h with
  | @request tx _ _ =>
    rw [waiting_txCh] at hb
    rcases mem_update.1 hb with ⟨rfl, hin⟩ | ⟨-, hb⟩
    · rcases List.mem_append.1 hin with hb | hb
      · exact Or.inl ⟨none, hb⟩
      · exact Or.inr (by rw [List.mem_singleton.1 hb])
    · exact Or.inl ⟨i, hb⟩
  | @schedule tx rest hch =>
    left
    rcases mem_waiting_handleTxReq hb with hb | ⟨rfl, -⟩
    · have hw := waiting_txCh f rest f.seen
      rw [hw] at hb
      rcases mem_update.1 hb with ⟨rfl, hin⟩ | ⟨-, hb⟩
      · exact ⟨none, by show b ∈ f.txCh; rw [hch]; exact List.mem_cons_of_mem _ hin⟩
      · exact ⟨i, hb⟩
    · exact ⟨none, by show b ∈ f.txCh; rw [hch]; exact List.mem_cons_self⟩
  | @group k ga r r' gouts hr ha hact =>
    left
    rw [waiting_group] at hb
    rcases mem_update.1 hb with ⟨rfl, hin⟩ | ⟨-, hb⟩
    · obtain ⟨gone, hperm, -⟩ := RequestGroup.waiting_act ha hact
      refine ⟨some k, ?_⟩
      show b ∈ f.waiting (some k)
      simp only [waiting, hr]
      exact hperm.symm.subset (List.mem_append_left _ hin)
    · exact ⟨i, hb⟩
  | create => exact Or.inl ⟨i, by cases i <;> exact hb⟩
  | @proc pid pa p p' pouts hp hoff hstep =>
    left
    obtain ⟨hd, hgot⟩ := waiting_taken hoff
    rw [waiting_putOuts, (taken_eq f p pa).1] at hb
    rcases mem_update.1 hb with ⟨rfl, hin⟩ | ⟨-, hb⟩
    · rcases List.mem_append.1 hin with hb | hb
      · exact ⟨none, hb⟩
      · rcases (hstep.flow (hI.busy hp)).returned with hnil | ⟨tx, hrec, hone, -, -⟩
        · rw [hnil] at hb; exact absurd hb List.not_mem_nil
        · rw [hone, List.mem_singleton] at hb
          subst hb
          obtain ⟨k, hk⟩ := hgot b hrec
          exact ⟨some k, hk.symm.subset (List.mem_append_right _ (List.mem_singleton_self b))⟩
    · exact ⟨i, hd.mem hb⟩
  | answer _ => exact Or.inl ⟨i, by cases i <;> exact hb⟩

/-- What a step records. -/
structure Records (f f' : Fleet) (a : Action) : Prop where
  seen : ∀ {txId}, txId ∈ f'.seen → txId ∈ f.seen ∨ ∃ tx, a = .request tx ∧ tx.txId = txId
  kept : f.seen ⊆ f'.seen
  sent : f.sent ⊆ f'.sent
  answered : f.answered ⊆ f'.answered

theorem FleetStep.records (h : FleetStep C f a f' outs) : Records f f' a := by
  cases h with
  | @request tx _ _ =>
    refine ⟨fun hid => ?_, List.subset_cons_self _ _, List.Subset.refl _, List.Subset.refl _⟩
    rcases List.mem_cons.1 hid with rfl | hid
    · exact Or.inr ⟨tx, rfl, rfl⟩
    · exact Or.inl hid
  | @schedule tx rest _ =>
    obtain ⟨h1, h2, h3, -⟩ := handleTxReq_frame { f with txCh := rest } tx
    exact ⟨fun hid => Or.inl (h1 ▸ hid), h1.symm ▸ List.Subset.refl _, h2.symm ▸ List.Subset.refl _,
      h3.symm ▸ List.Subset.refl _⟩
  | group _ _ _ =>
    exact ⟨Or.inl, List.Subset.refl _, List.Subset.refl _, List.subset_append_left _ _⟩
  | create => exact ⟨Or.inl, List.Subset.refl _, List.Subset.refl _, List.Subset.refl _⟩
  | @proc pid pa p p' pouts _ _ _ =>
    obtain ⟨-, hseen, hsent, hans, -⟩ := taken_eq f p pa
    refine ⟨fun hid => Or.inl (hseen ▸ hid), ?_, ?_, ?_⟩
    · rw [← hseen]; exact List.Subset.refl _
    · rw [← hsent]; exact List.subset_append_left _ _
    · rw [← hans]; exact List.subset_append_left _ _
  | answer _ => exact ⟨Or.inl, List.Subset.refl _, List.Subset.refl _, List.subset_append_left _ _⟩

/-- A process has executed the first of two transactions and waits for the next one. -/
def runServed : List Action :=
  runFetched "tx1" "save" 7 ++
  [.request (sampleTx .sample "tx2" "save"), .schedule,
    .group sampleGroup (.recvTx RequestGroup.noProcesses 0), .create 10000 .sample "p0" true,
    .proc 0 (.launchProcess (.started 0)), .proc 0 .loopHead, .proc 0 (.setStream 0), .proc 0 .wake,
    .proc 0 .loopHead, .proc 0 (.txReq (sampleTx .sample "tx1" "save") 0 true), .proc 0 .loopHead,
    .answer "tx1", .proc 0 (.putMsg (txErrorResp "chain1" "tx1" "")), .proc 0 (.txResp true),
    .proc 0 .loopHead]

/-! ## Sent once -/

/-- The transactions sent to sandboxes in a step. -/
def sentBy (outs : List FleetOut) : List String :=
  outs.filterMap fun
    | .proc _ (.send _ msg) => some msg.txId
    | _ => none

theorem sentBy_proc (pid : ℕ) (pouts : List ProcessOut) :
    sentBy (pouts.map (.proc pid)) = (Process.sends pouts).map (·.2.txId) := by
  unfold sentBy Process.sends
  rw [List.filterMap_map, List.map_filterMap]
  refine List.filterMap_congr fun o _ => ?_
  cases o <;> rfl

theorem sentBy_group (k : String) (gouts : List GroupOut) : sentBy (gouts.map (.group k)) = [] := by
  unfold sentBy
  rw [List.filterMap_map]
  exact List.filterMap_eq_nil_iff.2 fun _ _ => rfl

/-- A step sends one transaction at most, and that one waited before. -/
theorem FleetInv.sentBy (hI : FleetInv f) (h : FleetStep C f a f' outs) :
    f'.sent = f.sent ++ sentBy outs ∧ (sentBy outs).length ≤ 1 ∧
      ∀ txId ∈ sentBy outs, txId ∉ f.sent ∧ txId ∉ f.answered := by
  cases h with
  | request _ _ | create | answer _ =>
    exact ⟨(List.append_nil _).symm, Nat.zero_le 1, List.forall_mem_nil _⟩
  | @schedule tx rest _ =>
    refine ⟨?_, Nat.zero_le 1, List.forall_mem_nil _⟩
    rw [(handleTxReq_frame { f with txCh := rest } tx).2.1]
    exact (List.append_nil _).symm
  | @group k ga r r' gouts _ _ _ =>
    rw [sentBy_group]
    exact ⟨(List.append_nil _).symm, Nat.zero_le 1, List.forall_mem_nil _⟩
  | @proc pid pa p p' pouts hp hoff hstep =>
    rw [sentBy_proc]
    refine ⟨?_, ?_, fun txId hid => ?_⟩
    · show (f.taken p pa).sent ++ _ = _
      rw [(taken_eq f p pa).2.2.1]
    · rw [List.length_map]
      exact hstep.sends_le
    · obtain ⟨m, hm, rfl⟩ := List.mem_map.1 hid
      obtain ⟨tx, hrec, heq⟩ := (hstep.flow (hI.busy hp)).sent m hm
      obtain ⟨k, hk⟩ := (waiting_taken hoff).2 tx hrec
      have hpend := hI.pending (hk.symm.subset (List.mem_append_right _ (List.mem_singleton_self tx)))
      rw [heq]
      exact hpend.2

theorem nodup_sent_step (hI : FleetInv f) (hnd : f.sent.Nodup) (h : FleetStep C f a f' outs) :
    f'.sent.Nodup := by
  obtain ⟨heq, hone, hnew⟩ := hI.sentBy h
  rw [heq, List.nodup_append]
  refine ⟨hnd, ?_, fun x hx y hy => ?_⟩
  · rcases hs : Fleet.sentBy outs with _ | ⟨x, _ | ⟨y, l⟩⟩
    · exact List.nodup_nil
    · exact List.nodup_singleton x
    · rw [hs] at hone
      simp at hone
  · rintro rfl
    exact (hnew x hy).1 hx

/-- **A transaction is sent to a sandbox once at most**, in every run of the scheduler, the
    groups and their processes: what has been sent does not wait any more, and no step
    sends a transaction that has been sent or answered before. -/
theorem sent_once {ok : Fleet → Action → Prop} (h : Reach (step C cfg) ok init f) :
    f.sent.Nodup ∧ (∀ txId ∈ f.sent, txId ∈ f.seen ∧ ¬ f.Waits txId) ∧
      ∀ a f' outs, act C cfg f a = some (f', outs) →
        ∀ txId ∈ sentBy outs, txId ∉ f.sent ∧ txId ∉ f.answered := by
  have hI := fleetInv_reach h
  refine ⟨?_, fun txId hid => ⟨hI.sent hid, ?_⟩, fun a f' outs hact => (hI.sentBy (act_step hact)).2.2⟩
  · refine h.inv_of (I := fun f => f.sent.Nodup) fleetInv_reach List.nodup_nil ?_
    intro f a f' hI hnd _ hstep
    obtain ⟨outs, hact⟩ := step_eq_some hstep
    exact nodup_sent_step hI hnd (act_step hact)
  · rintro ⟨i, tx, htx, rfl⟩
    exact (hI.pending htx).2.1 hid

/-- In the run above one transaction has been sent, and the other one waits. -/
theorem sent_once_served : ∃ f, Reach (step .sample .sample) Free init f ∧ "tx1" ∈ f.sent ∧
    f.sent.Nodup ∧ ¬ f.Waits "tx1" := by
  obtain ⟨f, hf, hP⟩ := exists_reach (step .sample .sample) Free init
    (fun f => decide ("tx1" ∈ f.sent)) runServed (by decide)
  have hsent := of_decide_eq_true hP
  have honce := sent_once hf
  exact ⟨f, hf, hsent, honce.1, (honce.2.1 _ hsent).2⟩

/-! ## Recycled messages -/

/-- The message that a step returns to the pool: the last transaction of a process, when
    `handleTxRequest` takes the next one. -/
def recycled (cfg : ProcessConfig) (f : Fleet) : Action → Option DockerVMMessage
  | .proc pid (.txReq _ elapsedTime _) =>
    if removeTxTime < elapsedTime ∨ cfg.execTxTimeout < elapsedTime then none
    else f.procs[pid]?.bind (·.tx)
  | _ => none

/-- A transaction waits, or a process that listens has it. -/
def Held (f : Fleet) (txId : String) : Prop :=
  f.Waits txId ∨ ∃ (pid : ℕ) (p : Process), f.procs[pid]? = some p ∧ p.listen.isSome = true ∧
    ∃ tx, p.tx = some tx ∧ tx.txId = txId

/-- Two processes that listen have different transactions. -/
def Apart (f : Fleet) : Prop :=
  ∀ {k l : ℕ} {p q : Process} {tx tx' : DockerVMMessage}, k ≠ l → f.procs[k]? = some p →
    f.procs[l]? = some q → p.listen.isSome = true → q.listen.isSome = true → p.tx = some tx →
    q.tx = some tx' → tx.txId ≠ tx'.txId

/-- The transaction of a process that listens, after a step: it is the one from before,
    one that waited, or belongs to a new process. -/
theorem FleetInv.tx_step (hI : FleetInv f) (h : FleetStep C f a f' outs) {k : ℕ} {p' : Process}
    (hp' : f'.procs[k]? = some p') (hl : p'.listen.isSome = true) (htx : p'.tx = some tx) :
    (∃ p, f.procs[k]? = some p ∧ p.listen.isSome = true ∧ p.tx = some tx) ∨
      (∃ pa, a = .proc k pa) ∧ (f.Waits tx.txId ∨
        ∃ p tx', f.procs[k]? = some p ∧ p.listen.isSome = true ∧ p.tx = some tx' ∧
          tx'.txId = tx.txId) := by
  cases h with
  | request _ _ | group _ _ _ | answer _ => exact Or.inl ⟨p', hp', hl, htx⟩
  | @schedule t rest _ =>
    rw [(handleTxReq_frame { f with txCh := rest } t).2.2.2] at hp'
    exact Or.inl ⟨p', hp', hl, htx⟩
  | create =>
    rcases getElem?_concat_some hp' with ⟨-, rfl⟩ | hp'
    · cases htx
    · exact Or.inl ⟨p', hp', hl, htx⟩
  | @proc pid pa p q pouts hp hoff hstep =>
    have hprocs : ((f.taken p pa).setProc pid q).procs = f.procs.set pid q := by
      rw [← (taken_eq f p pa).2.2.2.2]
      rfl
    rw [show (((f.taken p pa).setProc pid q).putOuts pouts).procs = f.procs.set pid q from hprocs] at hp'
    rcases getElem?_set_some hp' with ⟨rfl, rfl⟩ | ⟨-, hp'⟩
    · have hflow := hstep.flow (hI.busy hp)
      have hwaited : ∀ t, (receives p pa).map (·.2) = some t → f.Waits t.txId := by
        intro t hrec
        obtain ⟨j, hj⟩ := (waiting_taken hoff).2 t hrec
        exact ⟨some j, t, hj.symm.subset (List.mem_append_right _ (List.mem_singleton_self t)), rfl⟩
      rcases hflow.tx hl tx htx with ⟨hl, htx⟩ | hid | hid
      · exact Or.inl ⟨p, hp, hl, htx⟩
      · obtain ⟨m, hm, hid⟩ := List.mem_map.1 hid
        obtain ⟨t, hrec, heq⟩ := hflow.sent m hm
        refine Or.inr ⟨⟨pa, rfl⟩, Or.inl ?_⟩
        rw [← hid, heq]
        exact hwaited t hrec
      · rcases hflow.errs _ hid with ⟨t, hrec, heq⟩ | ⟨hl, t, ht, heq⟩
        · exact Or.inr ⟨⟨pa, rfl⟩, Or.inl (heq ▸ hwaited t hrec)⟩
        · exact Or.inr ⟨⟨pa, rfl⟩, Or.inr ⟨p, t, hp, hl, ht, heq⟩⟩
    · exact Or.inl ⟨p', hp', hl, htx⟩

/-- The transaction of a process that listens does not wait. -/
theorem FleetInv.not_waits (hI : FleetInv f) {k : ℕ} {p : Process} (hp : f.procs[k]? = some p)
    (hl : p.listen.isSome = true) (htx : p.tx = some tx) : ¬ f.Waits tx.txId := by
  rintro ⟨i, b, hb, heq⟩
  obtain ⟨-, hns, hna⟩ := hI.pending hb
  rw [heq] at hns hna
  exact (hI.tx hp hl htx).elim hns hna

theorem Apart.step (hI : FleetInv f) (hA : Apart f) (h : FleetStep C f a f' outs) : Apart f' := by
  intro k l p q tx tx' hkl hp hq hpl hql htx htx'
  -- only one of the two processes makes the step
  rcases hI.tx_step h hp hpl htx with ⟨p₀, hp₀, hl₀, ht₀⟩ | ⟨⟨pa, rfl⟩, hcase⟩
  · rcases hI.tx_step h hq hql htx' with ⟨q₀, hq₀, hm₀, hu₀⟩ | ⟨-, hw | ⟨q₀, t, hq₀, hm₀, hu₀, heq⟩⟩
    · exact hA hkl hp₀ hq₀ hl₀ hm₀ ht₀ hu₀
    · intro heq
      exact hI.not_waits hp₀ hl₀ ht₀ (heq ▸ hw)
    · rw [← heq]
      exact hA hkl hp₀ hq₀ hl₀ hm₀ ht₀ hu₀
  · rcases hI.tx_step h hq hql htx' with ⟨q₀, hq₀, hm₀, hu₀⟩ | ⟨⟨pa', heq⟩, -⟩
    · rcases hcase with hw | ⟨p₀, t, hp₀, hl₀, ht₀, heq⟩
      · intro heq
        exact hI.not_waits hq₀ hm₀ hu₀ (heq ▸ hw)
      · rw [← heq]
        exact hA hkl hp₀ hq₀ hl₀ hm₀ ht₀ hu₀
    · cases heq
      exact absurd rfl hkl

theorem apart_reach {ok : Fleet → Action → Prop} (h : Reach (step C cfg) ok init f) : Apart f := by
  refine h.inv_of (I := fun f => Apart f) fleetInv_reach ?_ fun hI hA _ hstep => ?_
  · intro k l p q tx tx' _ hp
    cases hp
  · obtain ⟨outs, hact⟩ := step_eq_some hstep
    exact hA.step hI (act_step hact)

/-- A transaction that nobody holds comes back no more. -/
theorem FleetInv.gone_step (hI : FleetInv f) {txId : String} (hs : txId ∈ f.seen)
    (hg : ¬ f.Held txId) (h : FleetStep C f a f' outs) : txId ∈ f'.seen ∧ ¬ f'.Held txId := by
  refine ⟨h.records.kept hs, ?_⟩
  rintro (⟨i, b, hb, rfl⟩ | ⟨k, p, hp, hl, tx, htx, rfl⟩)
  · rcases hI.mem_waiting h hb with ⟨j, hj⟩ | rfl
    · exact hg (Or.inl ⟨j, b, hj, rfl⟩)
    · cases h with
      | request _ hnew => exact hnew hs
  · rcases hI.tx_step h hp hl htx with ⟨p₀, hp₀, hl₀, ht₀⟩ | ⟨-, hw | ⟨p₀, t, hp₀, hl₀, ht₀, heq⟩⟩
    · exact hg (Or.inr ⟨k, p₀, hp₀, hl₀, tx, ht₀, rfl⟩)
    · exact hg (Or.inl hw)
    · exact hg (Or.inr ⟨k, p₀, hp₀, hl₀, t, ht₀, heq⟩)

theorem act_proc {pid : ℕ} {pa : Process.Action} (h : act C cfg f (.proc pid pa) = some (f', outs)) :
    ∃ p p' pouts, f.procs[pid]? = some p ∧ f.Offers p pa ∧ Process.act cfg p pa = .ok (p', pouts) ∧
      f' = ((f.taken p pa).setProc pid p').putOuts pouts := by
  simp only [act] at h
  split at h
  · cases h
  · rename_i p hp
    split_ifs at h with hoff
    obtain ⟨⟨p', pouts⟩, hact, heq⟩ := Option.map_eq_some_iff.1 h
    cases heq
    exact ⟨p, p', pouts, hp, hoff, Go.toOption_eq_some.1 hact, rfl⟩

/-- After the step that recycles a message nobody holds it. -/
theorem recycled_not_held (hI : FleetInv f) (hA : Apart f) {old : DockerVMMessage}
    (hact : act C cfg f a = some (f', outs)) (hold : recycled cfg f a = some old) :
    old.txId ∈ f'.seen ∧ ¬ f'.Held old.txId := by
  unfold recycled at hold
  split at hold
  · rename_i pid tx el sendOk
    split_ifs at hold with hlive
    obtain ⟨p, p', pouts, hp, hoff, hpact, heq⟩ := act_proc hact
    rw [hp] at hold
    have hold : p.tx = some old := hold
    obtain ⟨htx', q, hlisten⟩ := Process.act_dispatch hlive hpact
    have hl : p.listen.isSome = true := by rw [hlisten]; rfl
    have hstep := act_step hact
    have hknown := hI.tx hp hl hold
    refine ⟨hstep.records.kept (hknown.elim hI.sent hI.answered), ?_⟩
    -- the new transaction of the process has waited until now
    have hnew : f.Waits tx.txId := by
      obtain ⟨j, hj⟩ := (waiting_taken hoff).2 tx (by simp [receives, hlisten])
      exact ⟨some j, tx, hj.symm.subset (List.mem_append_right _ (List.mem_singleton_self tx)), rfl⟩
    have hnw := hI.not_waits hp hl hold
    rintro (⟨i, b, hb, hid⟩ | ⟨k, r, hr, hrl, t, ht, hid⟩)
    · rcases hI.mem_waiting hstep hb with ⟨j, hj⟩ | h
      · exact hnw ⟨j, b, hj, hid⟩
      · cases h
    · have hprocs : f'.procs = f.procs.set pid p' := by
        rw [heq, ← (taken_eq f p _).2.2.2.2]
        rfl
      rw [hprocs] at hr
      rcases getElem?_set_some hr with ⟨-, rfl⟩ | ⟨hk, hr⟩
      · cases htx'.symm.trans ht
        exact hnw (hid ▸ hnew)
      · exact hA hk hr hp hrl hl ht hold hid
  · cases hold

/-- **A message that a process returns to the pool is held by nobody from then on**: it
    waits neither with the scheduler nor in a group, and is not the transaction of a
    process that listens. -/
theorem recycled_gone {ok : Fleet → Action → Prop} {f'' : Fleet} {old : DockerVMMessage}
    (h : Reach (step C cfg) ok init f) (hact : act C cfg f a = some (f', outs))
    (hold : recycled cfg f a = some old) (hlater : Reach (step C cfg) ok f' f'') :
    ¬ f''.Held old.txId := by
  have hI := fleetInv_reach h
  have hinv : FleetInv f'' ∧ old.txId ∈ f''.seen ∧ ¬ f''.Held old.txId := by
    refine hlater.inv (I := fun g => FleetInv g ∧ old.txId ∈ g.seen ∧ ¬ g.Held old.txId)
      ⟨hI.step (act_step hact), recycled_not_held hI (apart_reach h) hact hold⟩ ?_
    rintro g b g' ⟨hg, hs, hh⟩ - hstep
    obtain ⟨outs', hact'⟩ := step_eq_some hstep
    exact ⟨hg.step (act_step hact'), hg.gone_step hs hh (act_step hact')⟩
  exact hinv.2.2

/-- The second transaction is taken, and the message of the first one is recycled. -/
theorem recycled_gone_served : ∃ f f' outs, Reach (step .sample .sample) Free init f ∧
    act .sample .sample f (.proc 0 (.txReq (sampleTx .sample "tx2" "save") 0 true)) = some (f', outs) ∧
    recycled .sample f (.proc 0 (.txReq (sampleTx .sample "tx2" "save") 0 true)) =
      some (sampleTx .sample "tx1" "save") ∧ ¬ f'.Held "tx1" := by
  obtain ⟨f, hf, hP⟩ := exists_reach (step .sample .sample) Free init
    (fun f => decide (recycled .sample f (.proc 0 (.txReq (sampleTx .sample "tx2" "save") 0 true)) =
      some (sampleTx .sample "tx1" "save")) &&
      (act .sample .sample f (.proc 0 (.txReq (sampleTx .sample "tx2" "save") 0 true))).isSome)
    runServed (by decide)
  obtain ⟨hold, hsome⟩ := (Bool.and_eq_true _ _).mp hP
  obtain ⟨⟨f', outs⟩, hact⟩ := Option.isSome_iff_exists.1 hsome
  have hold := of_decide_eq_true hold
  exact ⟨f, f', outs, hf, hact, hold, recycled_gone hf hact hold .start⟩

end Fleet

end VmEngine
