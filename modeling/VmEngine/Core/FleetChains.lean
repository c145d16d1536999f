/-
  The chains that the engine's messages name.

  The chain finds the call that waits for a message by the `ChainId` and `TxId` in it
  (`ConstructNotifyMapKey`).  The engine does not keep the `ChainId` of a transaction: its
  groups and processes write the chain of their own contract into errors, bytecode
  requests and the messages for sandboxes.  As long as chain IDs are free of the separator
  of group keys, this is the chain of the transaction (`messages_name_chain`).  There is one
  exception, a process that was changed to another contract and whose new sandbox exits
  before its first transaction: it may report the last transaction of the old one.
-/
import VmEngine.Core.FleetOnce
import VmEngine.Core.FleetVersion
import VmEngine.Core.ProcessListen
import VmEngine.Lib.Joined

namespace VmEngine

/-- Group keys that are equal begin with the same chain. -/
theorem RequestGroupKey.chainID_eq {k k' : RequestGroupKey} (h : '#' ∉ k.chainID.toList)
    (h' : '#' ∉ k'.chainID.toList) (heq : k.groupKey = k'.groupKey) : k.chainID = k'.chainID :=
  (intercalate_cons_inj (List.cons_ne_nil _ _) (List.cons_ne_nil _ _) h h' heq).1

/-! ## Groups -/

/-- The `ChainId` and `TxId` of a message for the chain. -/
def GroupOut.addressed : GroupOut → Option (String × String)
  | .scheduler msg => some (msg.chainId, msg.txId)
  | .getBytecodeReq txId key => some (key.chainID, txId)
  | _ => none

namespace RequestGroup
variable {C : ChainConsts} {view : Bool → ProcessCounts} {r r' : RequestGroup} {a : Action}
  {outs : List GroupOut} {P : String → Prop}

/-- A step keeps the key, and its messages name the chain of the group and a transaction
    with `P`. -/
structure Names (r r' : RequestGroup) (outs : List GroupOut) (P : String → Prop) : Prop where
  key : r'.key = r.key
  msgs : ∀ o ∈ outs, ∀ m ∈ o.addressed, m.1 = r.key.chainID ∧ P m.2

theorem Names.silent (h : r'.key = r.key) : Names r r' [] P := ⟨h, List.forall_mem_nil _⟩

theorem Names.mono {Q : String → Prop} (h : Names r r' outs P) (hPQ : ∀ txId, P txId → Q txId) :
    Names r r' outs Q :=
  ⟨h.key, fun o ho m hm => ⟨(h.msgs o ho m hm).1, hPQ _ (h.msgs o ho m hm).2⟩⟩

theorem Names.trans {r₁ : RequestGroup} {outs' : List GroupOut} (h : Names r r₁ outs P)
    (h' : Names r₁ r' outs' P) : Names r r' (outs ++ outs') P := by
  refine ⟨h'.key.trans h.key, fun o ho m hm => ?_⟩
  rcases List.mem_append.1 ho with ho | ho
  · exact h.msgs o ho m hm
  · rw [← h.key]
    exact h'.msgs o ho m hm

theorem names_getProcesses (view : Bool → ProcessCounts) (r : RequestGroup) (o : Bool) :
    Names r (getProcesses view r o).1 (getProcesses view r o).2 P := by
  rcases getProcesses_cases view r o with h | ⟨-, -, n, -, -, h⟩
  · rw [h]
    exact .silent rfl
  · rw [h]
    refine ⟨key_setController _ _ _, fun out ho m hm => ?_⟩
    rw [List.mem_singleton.1 ho] at hm
    cases hm

theorem key_enqueueCh {req : DockerVMMessage} (h : enqueueCh C r req = .ok r') : r'.key = r.key := by
  obtain ⟨o, -, rfl⟩ := enqueueCh_eq h
  exact key_setController _ _ _

theorem key_moveTxs {txs : List DockerVMMessage} (h : moveTxs C r txs = .ok r') : r'.key = r.key := by
  induction txs generalizing r with
  | nil => cases h; rfl
  | cons tx txs ih =>
    obtain ⟨r₁, he, h⟩ := Go.bind_eq_ok.1 h
    exact (ih h).trans (key_enqueueCh he)

theorem names_handleGetBytecodeErr (h : handleGetBytecodeErr r = .ok (r', outs)) :
    Names r r' outs fun txId => ∃ tx ∈ r.bufCh, tx.txId = txId := by
  unfold handleGetBytecodeErr at h
  split at h
  · cases h
  · rename_i tx rest hb
    have htx : ∃ tx' ∈ r.bufCh, tx'.txId = tx.txId := ⟨tx, by rw [hb]; exact List.mem_cons_self, rfl⟩
    dsimp only at h
    split_ifs at h
    · cases h
      refine ⟨rfl, fun o ho m hm => ?_⟩
      rcases List.mem_cons.1 ho with rfl | ho
      · cases hm; exact ⟨rfl, htx⟩
      · rw [List.mem_singleton.1 ho] at hm
        cases hm; exact ⟨rfl, htx⟩
    · cases h
      refine ⟨rfl, fun o ho m hm => ?_⟩
      rw [List.mem_singleton.1 ho] at hm
      cases hm; exact ⟨rfl, htx⟩

theorem names_handleTxReq {req : DockerVMMessage} (h : handleTxReq C view r req = .ok (r', outs)) :
    Names r r' outs fun txId => req.txId = txId := by
  unfold handleTxReq at h
  split at h
  · cases h
    refine ⟨rfl, fun o ho m hm => ?_⟩
    rw [List.mem_singleton.1 ho] at hm
    cases hm; exact ⟨rfl, rfl⟩
  · cases h
    exact .silent rfl
  · obtain ⟨⟨r₁, outs₁, b⟩, hp, h₁⟩ := Go.bind_eq_ok.1 h
    have hput : Names r r₁ outs₁ fun txId => req.txId = txId := by
      unfold putTxReqToCh at hp
      split at hp
      · cases hp
        exact .silent rfl
      · split_ifs at hp
        · split at hp
          · cases hp
          · cases hp
            refine ⟨rfl, fun o ho m hm => ?_⟩
            rw [List.mem_singleton.1 ho] at hm
            cases hm; exact ⟨rfl, rfl⟩
        · obtain ⟨r₂, he, hp⟩ := Go.bind_eq_ok.1 hp
          cases hp
          exact .silent (key_enqueueCh he)
    cases b with
    | true =>
      obtain ⟨o, -, h₂⟩ := Go.bind_eq_ok.1 h₁
      cases h₂
      exact hput.trans (names_getProcesses view r₁ o)
    | false =>
      cases h₁
      exact hput

theorem names_handleContractReadyResp {now : ℤ} {code : DockerVMCode}
    (h : handleContractReadyResp C view now r code = .ok (r', outs)) :
    Names r r' outs fun txId => ∃ tx ∈ r.bufCh, tx.txId = txId := by
  cases code with
  | fail =>
    have hn := names_handleGetBytecodeErr h
    exact ⟨hn.key, hn.msgs⟩
  | ok =>
    obtain ⟨r₁, hm, h₁⟩ := Go.bind_eq_ok.1 h
    have hn : Names r₁ (getProcesses view (getProcesses view r₁ true).1 false).1
        ((getProcesses view r₁ true).2 ++ (getProcesses view (getProcesses view r₁ true).1 false).2)
        fun txId => ∃ tx ∈ r.bufCh, tx.txId = txId :=
      (names_getProcesses view r₁ true).trans (names_getProcesses view _ false)
    cases h₁
    have hmove := key_moveTxs hm
    have hkey : r₁.key = r.key := hmove
    exact ⟨hn.key.trans hkey, fun o ho m hmem => hkey ▸ hn.msgs o ho m hmem⟩

theorem names_handleBadContractResp (r : RequestGroup) (msg : BadContractResp) :
    Names r (handleBadContractResp r msg).1 (handleBadContractResp r msg).2
      fun txId => msg.txId = txId := by
  unfold handleBadContractResp
  dsimp only
  split_ifs
  · refine ⟨rfl, fun o ho m hm => ?_⟩
    rcases List.mem_cons.1 ho with rfl | ho
    · cases hm
    · rw [List.mem_singleton.1 ho] at hm
      cases hm; exact ⟨rfl, rfl⟩
  · refine ⟨rfl, fun o ho m hm => ?_⟩
    rw [List.mem_singleton.1 ho] at hm
    cases hm
  · exact .silent rfl

/-- A group names transactions that wait in it, and those of the reports it gets. -/
def Knows (r : RequestGroup) (txId : String) : Prop :=
  (∃ tx ∈ r.waiting, tx.txId = txId) ∨ ∃ msg, GroupEvent.badContract msg ∈ r.eventCh ∧ msg.txId = txId

theorem knows_bufCh {txId : String} (h : ∃ tx ∈ r.bufCh, tx.txId = txId) : r.Knows txId := by
  obtain ⟨tx, htx, hid⟩ := h
  refine Or.inl ⟨tx, ?_, hid⟩
  unfold waiting
  simp [htx]

theorem act_names (h : act C r a = .ok (r', outs)) : Names r r' outs r.Knows := by
  cases act_case h with
  | putTx | putEvent | expire => exact .silent rfl
  | @recvTx view now msg rest _ _ hr h =>
    unfold handleTxCh at h
    split at h
    · rename_i ht
      have hn := names_handleTxReq h
      refine Names.mono ⟨hn.key, hn.msgs⟩ fun txId hid => Or.inl ⟨msg, ?_, hid⟩
      unfold waiting
      simp [hr, ht]
    · split at h
      · cases h
      · have hn := names_handleContractReadyResp h
        exact Names.mono ⟨hn.key, hn.msgs⟩ fun _ => knows_bufCh
    · cases h
      exact .silent rfl
  | @ready view msg rest _ =>
    have hn := names_getProcesses (P := r.Knows) view
      (updateControllerState { r with eventCh := rest } msg.isOrig false) msg.isOrig
    have hkey : (updateControllerState { r with eventCh := rest } msg.isOrig false).key = r.key :=
      key_setController _ _ _
    exact ⟨hn.key.trans hkey, fun o ho m hm => hkey ▸ hn.msgs o ho m hm⟩
  | @bad view msg rest hr =>
    have hn := names_handleBadContractResp { r with eventCh := rest } msg
    exact Names.mono ⟨hn.key, hn.msgs⟩ fun txId hid =>
      Or.inr ⟨msg, by rw [hr]; exact List.mem_cons_self, hid⟩
  | timeout _ h =>
    have hn := names_handleGetBytecodeErr h
    exact Names.mono ⟨hn.key, hn.msgs⟩ fun _ => knows_bufCh
  | take _ => exact .silent (key_setController _ _ _)

end RequestGroup

/-! ## Processes -/

/-- The chain and the transaction that a message of a process names. -/
def ProcessOut.addressed : ProcessOut → Option (String × String)
  | .errResp msg | .send _ msg => some (msg.chainId, msg.txId)
  | .badContract _ msg => some (msg.key.chainID, msg.txId)
  | _ => none

namespace Process
variable {chainOf : String → String} {p p' : Process} {a : Action} {outs : List ProcessOut}
  {e : ExitErr} {next : Option DockerVMMessage} {cfv : ℤ}

/-- The transactions that a process may name: the one it receives, and the current one
    when its sandbox exits. -/
def Knows (p : Process) (a : Action) (txId : String) : Prop :=
  (∃ tx, (Fleet.receives p a).map (·.2) = some tx ∧ tx.txId = txId) ∨
    (∃ next cfv, a = .exit next cfv) ∧
      (p.processState = .busy ∨ p.processState = .timeout ∨ p.SandboxReports) ∧
      ∃ tx, p.tx = some tx ∧ tx.txId = txId

theorem exitBody_names {f : ExitFlags} (cfv : ℤ) (hbusy : BusyTx p)
    (h : exitBody p e next = .ok (p', outs, f)) :
    p'.key = p.key ∧ p'.requestGroup = p.requestGroup ∧ (∀ o ∈ outs, o.addressed = none) ∧
      (f.returnErrResp = true ∨ f.returnBadContractResp = true →
        ∃ tx, p'.tx = some tx ∧ p.Knows (.exit next cfv) tx.txId) := by
  obtain ⟨hcase, -, hkey, hgroup⟩ := exitBody_flow h
  refine ⟨hkey, hgroup, ?_⟩
  rcases hcase with ⟨hnext, rfl, htx, hwhen⟩ | ⟨-, tx, rfl, htx, -, -, hout⟩
  · refine ⟨List.forall_mem_nil _, fun hflag => ?_⟩
    have hwork : p.processState = .busy ∨ p.processState = .timeout ∨ p.SandboxReports := by
      rcases hflag with herr | hbad
      · exact (hwhen herr).imp_right Or.inl
      · rcases (exitBody_reports h).1.1 hbad with ⟨-, hs⟩ | ⟨hk, hsome⟩
        · exact Or.inr (Or.inr hs)
        · rcases hnext with hk' | rfl
          · exact absurd hk' hk
          · cases hsome
    obtain ⟨tx, heq⟩ : ∃ tx, p.tx = some tx := by
      rcases hwork with hst | hst | ⟨-, hs⟩
      · exact Option.isSome_iff_exists.1 (hbusy (Or.inl hst))
      · exact Option.isSome_iff_exists.1 (hbusy (Or.inr hst))
      · obtain ⟨q, hq, -⟩ := (Option.any_eq_true _ _).1 hs
        exact (Option.bind_eq_some_iff.1 hq).imp fun _ => And.left
    exact ⟨tx, htx.trans heq, Or.inr ⟨⟨_, _, rfl⟩, hwork, tx, heq, rfl⟩⟩
  · refine ⟨fun o ho => ?_, fun _ => ⟨tx, htx, Or.inl ⟨tx, rfl, rfl⟩⟩⟩
    rcases hout with ⟨rfl, -⟩ | ⟨rfl, -⟩
    · cases ho
    · rw [List.mem_singleton.1 ho]
      rfl

/-- Where a message goes: reports to the group of the process. -/
def Sends (p : Process) (P : String → Prop) (o : ProcessOut) : Prop :=
  (∀ m ∈ o.addressed, m.1 = p.key.chainID ∧ P m.2) ∧
    ∀ g msg, o = .badContract g msg → g ∈ p.requestGroup

variable {P : String → Prop}

theorem Sends.silent {o : ProcessOut} (h : o.addressed = none) : p.Sends P o := by
  refine ⟨fun m hm => ?_, fun g msg heq => ?_⟩
  · rw [h] at hm; cases hm
  · rw [heq] at h; cases h

/-- A message for the chain or the sandbox. -/
theorem Sends.named {o : ProcessOut} {txId : String} (h : o.addressed = some (p.key.chainID, txId))
    (hP : P txId) (ho : ∀ g msg, o ≠ .badContract g msg) : p.Sends P o := by
  refine ⟨fun m hm => ?_, fun g msg heq => absurd heq (ho g msg)⟩
  rw [h] at hm
  cases hm
  exact ⟨rfl, hP⟩

theorem exitResponses_names {f : ExitFlags} (h : exitResponses p e f cfv = .ok outs)
    (hP : f.returnErrResp = true ∨ f.returnBadContractResp = true → ∃ tx, p.tx = some tx ∧ P tx.txId)
    :
    ∀ o ∈ outs, p.Sends P o := by
  obtain ⟨bad, hb, h⟩ := Go.bind_eq_ok.1 h
  cases h
  intro o ho
  rcases List.mem_append.1 ho with ho | ho
  · rcases List.mem_append.1 ho with ho | ho
    · split_ifs at ho with hflag
      · rw [List.mem_singleton.1 ho]
        obtain ⟨tx, htx, hid⟩ := hP (Or.inl hflag)
        refine .named (by rw [htx]; rfl) hid ?_
        rintro g msg ⟨⟩
      · exact absurd ho List.not_mem_nil
    · split_ifs at ho
      · rw [List.mem_singleton.1 ho]
        exact .silent rfl
      · exact absurd ho List.not_mem_nil
  · unfold returnBadContractResp at hb
    split_ifs at hb with hflag
    · split at hb
      · rename_i tx g htx hg
        cases hb
        rw [List.mem_singleton.1 ho]
        obtain ⟨tx', htx', hid⟩ := hP (Or.inr hflag)
        cases htx.symm.trans htx'
        refine ⟨fun m hm => ?_, fun g' msg heq => ?_⟩
        · cases hm
          exact ⟨rfl, hid⟩
        · cases heq
          exact hg
      · cases hb
    · cases hb
      exact absurd ho List.not_mem_nil

/-- The messages of a step name the chain of the process, and go to its group. -/
theorem ProcStep.names (h : ProcStep p a p' outs) (hbusy : BusyTx p) :
    ∀ o ∈ outs, p.Sends (p.Knows a) o := by
  cases h with
  | @dropped tx el sendOk q outs hl ho =>
    have hgot : (Fleet.receives p (.txReq tx el sendOk)).map (·.2) = some tx := by
      simp [Fleet.receives, hl]
    rcases ho with rfl | ⟨err, rfl⟩
    · exact List.forall_mem_nil _
    · intro o ho
      rw [List.mem_singleton.1 ho]
      refine .named rfl (Or.inl ⟨tx, hgot, rfl⟩) ?_
      rintro g msg ⟨⟩
  | @dispatched tx el sendOk q sid outs u b t hl _ _ ho =>
    have hgot : (Fleet.receives p (.txReq tx el sendOk)).map (·.2) = some tx := by
      simp [Fleet.receives, hl]
    intro o hmem
    have ho : o = .send sid (p.sandboxMsg tx) ∨ ∃ err, o = p.returnTxErrorResp tx.txId err := by
      rcases ho with rfl | ⟨err, rfl⟩
      · exact Or.inl (List.mem_singleton.1 hmem)
      · exact Or.inr ⟨err, List.mem_singleton.1 hmem⟩
    rcases ho with rfl | ⟨err, rfl⟩
    · refine .named rfl (Or.inl ⟨tx, hgot, rfl⟩) ?_
      rintro g msg ⟨⟩
    · refine .named rfl (Or.inl ⟨tx, hgot, rfl⟩) ?_
      rintro g msg ⟨⟩
  | idleKept _ | idleTaken _ _ =>
    intro o ho
    rw [List.mem_singleton.1 ho]
    exact .silent rfl
  | @exit next cfv e sel p' outs _ _ _ _ hexit =>
    obtain ⟨⟨p₁, outs₁, f⟩, hb, h⟩ := Go.bind_eq_ok.1 hexit
    obtain ⟨resps, hr, h⟩ := Go.bind_eq_ok.1 h
    cases h
    obtain ⟨hkey, hgroup, hnone, htx⟩ := exitBody_names cfv hbusy hb
    intro o ho
    rcases List.mem_append.1 ho with ho | ho
    · exact .silent (hnone o ho)
    · have hs := exitResponses_names hr htx o ho
      unfold Sends at hs ⊢
      rwa [hkey, hgroup] at hs
  | _ => exact List.forall_mem_nil _

/-- A process serves the queue of its own contract, and what it executes belongs to its
    chain. -/
structure ChainInv (chainOf : String → String) (p : Process) : Prop where
  listen : ListenInv p
  txCh : p.txCh = p.key.groupKey
  group : ∀ g ∈ p.requestGroup, g = p.key.groupKey
  free : '#' ∉ p.key.chainID.toList
  busy : p.processState = .busy ∨ p.processState = .timeout →
    ∀ tx ∈ p.tx, chainOf tx.txId = p.key.chainID

theorem chainInv_new {user : ℕ} {key : RequestGroupKey} {name : String} {o : Bool}
    (h : '#' ∉ key.chainID.toList) : ChainInv chainOf (new user key name o) where
  listen := listenInv_new user key name o
  txCh := rfl
  group g hg := (Option.some.inj hg).symm
  free := h
  busy hst := by rcases hst with hst | hst <;> cases hst

/-- The keys to which a process is changed have chain IDs free of the separator. -/
def FreeKey : Action → Prop
  | .changeSandbox key _ _ _ => '#' ∉ key.chainID.toList
  | _ => True

/-- A step that keeps the contract; the new transaction, if there is one, is of its
    chain. -/
theorem ChainInv.same (hI : ChainInv chainOf p) (hl : ListenInv p') (hkey : p'.key = p.key)
    (hch : p'.txCh = p.txCh) (hgroup : p'.requestGroup = p.requestGroup ∨ p'.requestGroup = none)
    (hbusy : p'.processState = .busy ∨ p'.processState = .timeout →
      ∀ tx ∈ p'.tx, chainOf tx.txId = p.key.chainID) : ChainInv chainOf p' where
  listen := hl
  txCh := by rw [hch, hkey, hI.txCh]
  group g hg := by
    rw [hkey]
    rcases hgroup with hgr | hgr
    · exact hI.group g (hgr ▸ hg)
    · rw [hgr] at hg; cases hg
  free := hkey ▸ hI.free
  busy hst tx htx := by rw [hkey]; exact hbusy hst tx htx

theorem ExitCase.requestGroup (h : ExitCase p e p' outs) : p'.requestGroup = p.requestGroup := by
  cases h <;> rfl

theorem ChainInv.step (hI : ChainInv chainOf p) (h : ProcStep p a p' outs) (hfree : FreeKey a)
    (hgot : ∀ q tx, Fleet.receives p a = some (q, tx) → q = p.txCh → chainOf tx.txId = p.key.chainID) :
    ChainInv chainOf p' := by
  have hl := hI.listen.step h
  cases h with
  | @dispatched tx el sendOk q sid outs u b t hsel _ _ _ =>
    refine hI.same hl rfl rfl (Or.inl rfl) fun _ tx' htx' => ?_
    cases htx'
    exact hgot q tx (by simp [Fleet.receives, hsel]) (hI.listen.ready hsel).2
  | busyTimeout _ _ _ hst _ => exact hI.same hl rfl rfl (Or.inl rfl) fun _ => hI.busy (Or.inl hst)
  | @exit next cfv e sel p' outs _ hsel _ hcase hexit =>
    have hfr := hcase.frame
    obtain ⟨⟨p₁, outs₁, f⟩, hb, h⟩ := Go.bind_eq_ok.1 hexit
    obtain ⟨resps, -, h⟩ := Go.bind_eq_ok.1 h
    cases h
    obtain ⟨htx, hst, -⟩ := finishExit_flow p₁ f
    obtain ⟨hbody, hstate, -, -⟩ := exitBody_flow hb
    refine hI.same hl hfr.key hfr.txCh (Or.inl hcase.requestGroup) fun hbusy tx' htx' => ?_
    rw [htx] at htx'
    rw [hst] at hbusy
    rcases hbody with ⟨-, -, hsame, -⟩ | ⟨-, tx, rfl, htx₁, -⟩
    · rw [hsame] at htx'
      rcases hstate with hstate | hstate
      · exact hI.busy (hstate ▸ hbusy) tx' htx'
      · rw [hstate] at hbusy; simp at hbusy
    · rw [htx₁] at htx'
      cases htx'
      exact hgot p.txCh tx' rfl rfl
  | noGroup hst _ => exact hI.same hl rfl rfl (Or.inr rfl) hI.busy
  | @changeSandbox key name sigOk ok hst _ _ _ =>
    refine ⟨hl, rfl, fun g hg => (Option.some.inj hg).symm, hfree, fun hbusy => ?_⟩
    have hidle : p.processState = .busy ∨ p.processState = .timeout := hbusy
    rw [hst] at hidle
    simp at hidle
  | @launchProcess o _ =>
    obtain ⟨hfr, hst, -⟩ := launchProcess_frame p o
    have hsame : (p.launchProcess o).tx = p.tx ∧ (p.launchProcess o).requestGroup = p.requestGroup := by
      cases o with
      | started sid => unfold Process.launchProcess; dsimp only; split_ifs <;> exact ⟨rfl, rfl⟩
      | _ => exact ⟨rfl, rfl⟩
    refine hI.same hl hfr.key hfr.txCh (Or.inl hsame.2) fun hbusy => ?_
    rw [hsame.1]
    exact hI.busy (hst ▸ hbusy)
  | @leaveWindow w u b t _ =>
    refine hI.same hl rfl rfl (Or.inl rfl) fun hbusy => ?_
    cases w <;> rcases hbusy with hbusy | hbusy <;> cases hbusy
  | idleTaken _ _ | answered _ _ _ _ _ | deployFailed _ _ _ _ _ _ | readyTimeout _ _ _ _
  | setStream _ =>
    refine hI.same hl rfl rfl (Or.inl rfl) fun hbusy => ?_
    rcases hbusy with hbusy | hbusy <;> cases hbusy
  | _ => exact hI.same hl rfl rfl (Or.inl rfl) hI.busy

end Process

/-! ## The fleet -/

namespace Fleet
variable {C : ChainConsts} {cfg : ProcessConfig} {chainOf : String → String} {f f' : Fleet} {a : Action}
  {outs : List FleetOut} {k : String} {r : RequestGroup} {b tx : DockerVMMessage}

/-- A request names the chain of its transaction, which is free of the separator. -/
def NamesChain (chainOf : String → String) (tx : DockerVMMessage) : Prop :=
  ∀ q ∈ tx.request, q.chainId = chainOf tx.txId ∧ '#' ∉ q.chainId.toList

instance (chainOf : String → String) (tx : DockerVMMessage) : Decidable (NamesChain chainOf tx) :=
  inferInstanceAs (Decidable (∀ q ∈ tx.request, _ ∧ _))

/-- The last transaction of a process whose sandbox exits in state ready belongs to its
    chain, if the exit is reported. -/
def ReportsOwn (chainOf : String → String) (p : Process) : Prop :=
  p.SandboxReports → p.processState = .ready → ∀ tx ∈ p.tx, chainOf tx.txId = p.key.chainID

instance (chainOf : String → String) (p : Process) : Decidable (ReportsOwn chainOf p) :=
  inferInstanceAs (Decidable (_ → _ → ∀ tx ∈ p.tx, _))

/-- **When messages name the right chain.**  `chainOf` is the chain of each transaction.
    Chain IDs are free of `#`, and the exit of a sandbox is not reported under a
    transaction that its process executed for another chain. -/
def RoutesOk (chainOf : String → String) (f : Fleet) : Action → Prop
  | .request tx => NamesChain chainOf tx
  | .create _ key _ _ => '#' ∉ key.chainID.toList
  | .proc _ (.changeSandbox key _ _ _) => '#' ∉ key.chainID.toList
  | .proc pid (.exit _ _) => ∀ p ∈ f.procs[pid]?, ReportsOwn chainOf p
  | _ => True

instance (chainOf : String → String) : DecidableRel (RoutesOk chainOf) := fun f a =>
  match a with
  | .request tx => inferInstanceAs (Decidable (NamesChain chainOf tx))
  | .create _ _ _ _ | .proc _ (.changeSandbox _ _ _ _) => inferInstanceAs (Decidable (¬ _))
  | .proc pid (.exit _ _) => inferInstanceAs (Decidable (∀ p ∈ f.procs[pid]?, ReportsOwn chainOf p))
  | .proc _ .loopHead | .proc _ .wake | .proc _ (.txReq _ _ _) | .proc _ (.idleTxReq _ _)
  | .proc _ (.txResp _) | .proc _ (.tick _ _) | .proc _ (.putMsg _) | .proc _ (.setStream _)
  | .proc _ (.closeSandbox _) | .proc _ (.leaveWindow _) | .proc _ (.launchProcess _)
  | .proc _ .sendReady | .proc _ (.cgroupError _) | .proc _ (.wait _) | .proc _ .expire
  | .proc _ .pop | .schedule | .group _ _ | .answer _ => instDecidableTrue

/-- Transactions wait in the group of their contract, and everything in a group or a
    process belongs to its chain. -/
structure ChainInv (chainOf : String → String) (f : Fleet) : Prop where
  group : ∀ {k r}, f.requestGroups k = some r → r.key.groupKey = k ∧ '#' ∉ r.key.chainID.toList
  waits : ∀ {i tx}, tx ∈ f.waiting i → NamesChain chainOf tx
  home : ∀ {k tx}, tx ∈ f.waiting (some k) → ∃ q, tx.request = some q ∧ q.key.groupKey = k
  proc : ∀ {pid : ℕ} {p : Process}, f.procs[pid]? = some p → Process.ChainInv chainOf p
  report : ∀ {k r msg}, f.requestGroups k = some r → GroupEvent.badContract msg ∈ r.eventCh →
    chainOf msg.txId = r.key.chainID

theorem chainInv_init : ChainInv chainOf init where
  group h := by cases h
  waits {i tx} h := by cases i <;> exact absurd h List.not_mem_nil
  home h := absurd h List.not_mem_nil
  proc h := by cases h
  report h := by cases h

/-- A transaction that waits under a key belongs to the chain of the key. -/
theorem ChainInv.own (hI : ChainInv chainOf f) {key : RequestGroupKey}
    (hfree : '#' ∉ key.chainID.toList) (htx : tx ∈ f.waiting (some key.groupKey)) :
    chainOf tx.txId = key.chainID := by
  obtain ⟨q, hq, hkey⟩ := hI.home htx
  obtain ⟨hchain, hq'⟩ := hI.waits htx q hq
  rw [← hchain]
  exact RequestGroupKey.chainID_eq (k := q.key) hq' hfree hkey

theorem ChainInv.own_group (hI : ChainInv chainOf f) (hr : f.requestGroups k = some r)
    (htx : tx ∈ r.waiting) : chainOf tx.txId = r.key.chainID := by
  obtain ⟨rfl, hfree⟩ := hI.group hr
  exact hI.own hfree (by simpa only [waiting, hr] using htx)

variable {p : Process} {pa : Process.Action} {pid : ℕ} {r' : RequestGroup}

/-- What a process receives from its own queue belongs to its chain. -/
theorem ChainInv.received (hI : ChainInv chainOf f) (hp : f.procs[pid]? = some p)
    (hoff : f.Offers p pa) {q : String} (hr : receives p pa = some (q, tx)) (hq : q = p.txCh) :
    chainOf tx.txId = p.key.chainID := by
  have hPI := hI.proc hp
  obtain ⟨r, hrk, hhead⟩ := Option.bind_eq_some_iff.1 (hoff.head hr)
  rw [hq, hPI.txCh] at hrk
  refine hI.own hPI.free ?_
  simp only [waiting, hrk, RequestGroup.waiting, List.mem_append]
  have hmem : tx ∈ r.queue p.isOrigProcess := List.mem_of_mem_head? hhead
  cases ho : p.isOrigProcess with
  | false => rw [ho] at hmem; exact Or.inr (Or.inr hmem)
  | true => rw [ho] at hmem; exact Or.inr (Or.inl hmem)

theorem Offers.receives_queue {q : String} (hl : Process.ListenInv p)
    (hr : receives p pa = some (q, tx)) : q = p.txCh ∨ ∃ tx pmOk, pa = .idleTxReq tx pmOk := by
  cases pa with
  | txReq tx' el ok =>
    simp only [receives] at hr
    split at hr
    · rename_i q' hsel
      cases hr
      exact Or.inl (hl.ready hsel).2
    · cases hr
  | idleTxReq tx' pmOk => exact Or.inr ⟨tx', pmOk, rfl⟩
  | exit next cfv =>
    cases next with
    | none => cases hr
    | some tx' => cases hr; exact Or.inl rfl
  | _ => cases hr

/-! ### Messages -/

/-- The `ChainId` and `TxId` of a message for the chain or for a sandbox. -/
def FleetOut.addressed : FleetOut → Option (String × String)
  | .group _ out => out.addressed
  | .proc _ out => out.addressed

/-- The messages of a process, when it steps. -/
theorem ChainInv.proc_names (hI : ChainInv chainOf f) (hF : FleetInv f) {p' : Process}
    {pouts : List ProcessOut} (hok : RoutesOk chainOf f (.proc pid pa))
    (hp : f.procs[pid]? = some p) (hoff : f.Offers p pa) (h : Process.ProcStep p pa p' pouts) :
    ∀ o ∈ pouts, p.Sends (fun txId => chainOf txId = p.key.chainID) o := by
  intro o ho
  obtain ⟨hmsg, hgroup⟩ := h.names (hF.busy hp) o ho
  refine ⟨fun m hm => ⟨(hmsg m hm).1, ?_⟩, hgroup⟩
  rcases (hmsg m hm).2 with ⟨tx, hrec, hid⟩ | ⟨⟨next, cfv, rfl⟩, hst, tx, htx, hid⟩
  · obtain ⟨⟨q, tx'⟩, hr, rfl⟩ := Option.map_eq_some_iff.1 hrec
    rw [← hid]
    rcases Offers.receives_queue (hI.proc hp).listen hr with hq | ⟨t, pmOk, rfl⟩
    · exact hI.received hp hoff hr hq
    · -- what an idle process receives is only given back
      cases h with
      | idleKept _ | idleTaken _ _ =>
        rw [List.mem_singleton.1 ho] at hm
        cases hm
  · rw [← hid]
    rcases hst with hst | hst | hrep
    · exact (hI.proc hp).busy (Or.inl hst) tx htx
    · exact (hI.proc hp).busy (Or.inr hst) tx htx
    · rcases hrep.1 with hready | hbusy
      · exact hok p hp hrep hready tx htx
      · exact (hI.proc hp).busy (Or.inl hbusy) tx htx

/-- The messages of a step name the chain of their transaction. -/
theorem ChainInv.names (hI : ChainInv chainOf f) (hF : FleetInv f) (hok : RoutesOk chainOf f a)
    (h : FleetStep C f a f' outs) : ∀ o ∈ outs, ∀ m ∈ FleetOut.addressed o, m.1 = chainOf m.2 := by
  cases h with
  | request _ _ | schedule _ | create | answer _ => exact List.forall_mem_nil _
  | @group k ga r r' gouts hr ha hact =>
    intro o ho m hm
    obtain ⟨go, hgo, rfl⟩ := List.mem_map.1 ho
    obtain ⟨hchain, hknow⟩ := (RequestGroup.act_names hact).msgs go hgo m hm
    rw [hchain]
    rcases hknow with ⟨tx, htx, hid⟩ | ⟨msg, hmsg, hid⟩
    · rw [← hid]; exact (hI.own_group hr htx).symm
    · rw [← hid]; exact (hI.report hr hmsg).symm
  | @proc pid pa p p' pouts hp hoff hstep =>
    intro o ho m hm
    obtain ⟨po, hpo, rfl⟩ := List.mem_map.1 ho
    obtain ⟨hchain, hown⟩ := (hI.proc_names hF hok hp hoff hstep po hpo).1 m hm
    rw [hchain, hown]

/-! ### Steps -/

/-- Transactions come into a group by the scheduler only. -/
theorem FleetStep.home (h : FleetStep C f a f' outs) (hb : b ∈ f'.waiting (some k)) :
    b ∈ f.waiting (some k) ∨ ∃ q, b.request = some q ∧ q.key.groupKey = k := by
  cases h with
  | request _ _ | create | answer _ => exact Or.inl hb
  | @schedule tx rest _ =>
    rcases mem_waiting_handleTxReq hb with hb | ⟨rfl, q, hq, hk⟩
    · exact Or.inl hb
    · exact Or.inr ⟨q, hq, (Option.some.inj hk).symm⟩
  | @group k' ga r r' gouts hr ha hact =>
    left
    rw [waiting_group] at hb
    rcases mem_update.1 hb with ⟨hk, hin⟩ | ⟨-, hb⟩
    · cases hk
      obtain ⟨gone, hperm, -⟩ := RequestGroup.waiting_act ha hact
      simp only [waiting, hr]
      exact hperm.symm.subset (List.mem_append_left _ hin)
    · exact hb
  | @proc pid pa p p' pouts hp hoff hstep =>
    left
    rw [waiting_putOuts, Function.update_of_ne (Option.some_ne_none k)] at hb
    exact (waiting_taken hoff).1.mem hb

/-- A step of a group puts no report of a bad contract into its channel. -/
theorem badContract_of_act {ga : RequestGroup.Action} {r : RequestGroup} {gouts : List GroupOut}
    (ha : OfGroup ga) (hact : RequestGroup.act C r ga = .ok (r', gouts)) {msg : BadContractResp}
    (hmsg : GroupEvent.badContract msg ∈ r'.eventCh) : GroupEvent.badContract msg ∈ r.eventCh := by
  rw [(RequestGroup.act_chans hact).2] at hmsg
  cases ga with
  | putEvent e =>
    rcases List.mem_append.1 hmsg with hmsg | hmsg
    · exact hmsg
    · rw [List.mem_singleton] at hmsg
      rw [← hmsg] at ha
      exact absurd ha not_false
  | recvEvent view => exact List.mem_of_mem_tail hmsg
  | _ => exact hmsg

/-- What a process takes from a group leaves its key and its events. -/
theorem taken_key_events (hr' : (f.taken p pa).requestGroups k = some r') :
    ∃ r, f.requestGroups k = some r ∧ r'.key = r.key ∧ r'.eventCh = r.eventCh := by
  unfold taken at hr'
  split at hr'
  · exact ⟨r', hr', rfl, rfl⟩
  · rename_i k' t _
    split at hr'
    · exact ⟨r', hr', rfl, rfl⟩
    · rename_i r hr
      rcases update_some hr' with ⟨rfl, rfl⟩ | hr'
      · exact ⟨r, hr, RequestGroup.key_setController _ _ _, RequestGroup.eventCh_setController _ _ _⟩
      · exact ⟨r', hr', rfl, rfl⟩

theorem badContract_of_bads {pouts : List ProcessOut} {msg : BadContractResp}
    (h : (k, msg) ∈ Process.bads pouts) : ProcessOut.badContract k msg ∈ pouts := by
  obtain ⟨o, ho, heq⟩ := List.mem_filterMap.1 h
  cases o with
  | badContract g msg' => cases heq; exact ho
  | _ => cases heq

/-- A group after a step: its key and its events. -/
theorem FleetStep.groups (h : FleetStep C f a f' outs) (hr' : f'.requestGroups k = some r') :
    (∃ r, f.requestGroups k = some r ∧ r'.key = r.key ∧
      ∀ msg, GroupEvent.badContract msg ∈ r'.eventCh → GroupEvent.badContract msg ∈ r.eventCh ∨
        ∃ pid, FleetOut.proc pid (.badContract k msg) ∈ outs) ∨
    ∃ q, (∃ tx ∈ f.txCh, tx.request = some q) ∧ r'.key = q.key ∧ q.key.groupKey = k ∧
      r'.eventCh = [] := by
  have hsame : f.requestGroups k = some r' → (∃ r, f.requestGroups k = some r ∧ r'.key = r.key ∧
      ∀ msg, GroupEvent.badContract msg ∈ r'.eventCh → GroupEvent.badContract msg ∈ r.eventCh ∨
        ∃ pid, FleetOut.proc pid (.badContract k msg) ∈ outs) :=
    fun h => ⟨r', h, rfl, fun _ => Or.inl⟩
  cases h with
  | request _ _ | create | answer _ => exact Or.inl (hsame hr')
  | @schedule tx rest hch =>
    unfold handleTxReq at hr'
    split at hr'
    · exact Or.inl (hsame hr')
    · rename_i q hq
      rcases update_some hr' with ⟨rfl, rfl⟩ | hr'
      · cases hg : f.requestGroups q.key.groupKey with
        | none => exact Or.inr ⟨q, ⟨tx, by rw [hch]; exact List.mem_cons_self, hq⟩, rfl, rfl, rfl⟩
        | some r => exact Or.inl ⟨r, rfl, rfl, fun _ => Or.inl⟩
      · exact Or.inl (hsame hr')
  | @group k' ga r r₁ gouts hr ha hact =>
    left
    rcases update_some hr' with ⟨rfl, rfl⟩ | hr'
    · exact ⟨r, hr, (RequestGroup.act_names hact).key, fun msg hmsg =>
        Or.inl (badContract_of_act ha hact hmsg)⟩
    · exact hsame hr'
  | @proc pid pa p p' pouts hp hoff hstep =>
    left
    obtain ⟨r₁, hr₁, heq⟩ := Option.map_eq_some_iff.1 hr'
    obtain ⟨r, hr, hkey, hev⟩ := taken_key_events hr₁
    subst heq
    refine ⟨r, hr, hkey, fun msg hmsg => ?_⟩
    rcases List.mem_append.1 hmsg with hmsg | hmsg
    · exact Or.inl (hev ▸ hmsg)
    · exact Or.inr ⟨pid, List.mem_map.2 ⟨_, badContract_of_bads (mem_reportsTo hmsg), rfl⟩⟩

theorem ChainInv.proc_step (hI : ChainInv chainOf f) (hok : RoutesOk chainOf f a)
    (h : FleetStep C f a f' outs) (hp : f'.procs[pid]? = some p) : Process.ChainInv chainOf p := by
  cases h with
  | request _ _ | group _ _ _ | answer _ => exact hI.proc hp
  | @schedule tx rest _ =>
    rw [(handleTxReq_frame { f with txCh := rest } tx).2.2.2] at hp
    exact hI.proc hp
  | create =>
    rcases getElem?_concat_some hp with ⟨-, rfl⟩ | hp
    · exact Process.chainInv_new hok
    · exact hI.proc hp
  | @proc pid' pa p₀ q pouts hp₀ hoff hstep =>
    have hprocs : (((f.taken p₀ pa).setProc pid' q).putOuts pouts).procs = f.procs.set pid' q := by
      rw [← (taken_eq f p₀ pa).2.2.2.2]
      rfl
    rw [hprocs] at hp
    rcases getElem?_set_some hp with ⟨rfl, rfl⟩ | ⟨-, hp⟩
    · refine (hI.proc hp₀).step hstep ?_ fun q tx hr hq => hI.received hp₀ hoff hr hq
      cases pa with
      | changeSandbox key _ _ _ => exact hok
      | _ => trivial
    · exact hI.proc hp

theorem ChainInv.step (hI : ChainInv chainOf f) (hF : FleetInv f) (hok : RoutesOk chainOf f a)
    (h : FleetStep C f a f' outs) : ChainInv chainOf f' where
  group {k r'} hr' := by
    rcases h.groups hr' with ⟨r, hr, hkey, -⟩ | ⟨q, ⟨tx, htx, hq⟩, hkey, rfl, -⟩
    · rw [hkey]
      exact hI.group hr
    · rw [hkey]
      exact ⟨rfl, (hI.waits (i := none) htx q hq).2⟩
  waits {i tx} htx := by
    rcases hF.mem_waiting h htx with ⟨j, hj⟩ | rfl
    · exact hI.waits hj
    · exact hok
  home {k tx} htx := by
    rcases h.home htx with htx | hq
    · exact hI.home htx
    · exact hq
  proc hp := hI.proc_step hok h hp
  report {k r' msg} hr' hmsg := by
    rcases h.groups hr' with ⟨r, hr, hkey, hev⟩ | ⟨q, -, -, -, hev⟩
    · rw [hkey]
      rcases hev msg hmsg with hmsg | ⟨pid, hout⟩
      · exact hI.report hr hmsg
      · -- a new report comes from a process of the group
        cases h with
        | request _ _ | schedule _ | create | answer _ => exact absurd hout List.not_mem_nil
        | group _ _ _ =>
          obtain ⟨o, -, heq⟩ := List.mem_map.1 hout
          cases heq
        | @proc pid' pa p p' pouts hp hoff hstep =>
          obtain ⟨o, ho, heq⟩ := List.mem_map.1 hout
          cases heq
          obtain ⟨hchain, hgroup⟩ := hI.proc_names hF hok hp hoff hstep _ ho
          have hPI := hI.proc hp
          have hk := hPI.group k (hgroup k msg rfl)
          obtain ⟨hrk, hfree⟩ := hI.group hr
          rw [(hchain _ rfl).2]
          exact RequestGroupKey.chainID_eq hPI.free hfree (hk.symm.trans hrk.symm)
    · rw [hev] at hmsg
      exact absurd hmsg List.not_mem_nil

theorem chainInv_reach (h : Reach (step C cfg) (RoutesOk chainOf) init f) : ChainInv chainOf f := by
  refine h.inv_of (I := ChainInv chainOf) fleetInv_reach chainInv_init fun hF hI hok hstep => ?_
  obtain ⟨outs, hact⟩ := step_eq_some hstep
  exact hI.step hF hok (act_step hact)

/-- **The engine's messages name the chain of their transaction**, in every run whose steps
    meet the condition: every error and every bytecode request for the chain, every
    report to a group and every message for a sandbox. -/
theorem messages_name_chain (h : Reach (step C cfg) (RoutesOk chainOf) init f)
    (hok : RoutesOk chainOf f a) (hact : act C cfg f a = some (f', outs)) :
    ∀ o ∈ outs, ∀ m ∈ FleetOut.addressed o, m.1 = chainOf m.2 :=
  (chainInv_reach h).names (fleetInv_reach h) hok (act_step hact)

/-- A process sends its second transaction to the sandbox. -/
theorem messages_name_chain_served : ∃ f f' outs,
    Reach (step .sample .sample) (RoutesOk fun _ => "chain1") init f ∧
    act .sample .sample f (.proc 0 (.txReq (sampleTx .sample "tx2" "save") 0 true)) = some (f', outs) ∧
    outs ≠ [] ∧ ∀ o ∈ outs, ∀ m ∈ FleetOut.addressed o, m.1 = "chain1" := by
  obtain ⟨f, hf, hP⟩ := exists_reach (step .sample .sample) (RoutesOk fun _ => "chain1") init
    (fun f => (act .sample .sample f (.proc 0 (.txReq (sampleTx .sample "tx2" "save") 0 true))).any
      fun s : Fleet × List FleetOut => decide (s.2 ≠ [])) runServed (by decide)
  obtain ⟨⟨f', outs⟩, hact, hne⟩ := (Option.any_eq_true _ _).1 hP
  have hok : RoutesOk (fun _ => "chain1") f
      (.proc 0 (.txReq (sampleTx .sample "tx2" "save") 0 true)) := trivial
  exact ⟨f, f', outs, hf, hact, of_decide_eq_true hne, messages_name_chain hf hok hact⟩

end Fleet

end VmEngine
