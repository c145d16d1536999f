/-
  The error responses of a process.

  Every transaction that a process takes from its queue gets a receipt, which counts the
  error responses put for it and notes whether it was given back to the scheduler.

  When the send to the sandbox fails, `handleTxRequest` has already stored the transaction
  and made the process busy; the listener answers with an error, and the process stays
  busy.  If the sandbox then exits, or is killed by the timeout, `handleProcessExit` answers
  the same transaction again.  There is no other way to a second error response.
-/
import VmEngine.Core.ProcessFlow
import VmEngine.Core.ProcessListen

namespace VmEngine

namespace Process
variable {cfg : ProcessConfig} {p p' : Process} {a : Action} {outs : List ProcessOut}
  {e : ExitErr} {next : Option DockerVMMessage} {cfv : ℤ}

/-! ## Receipts -/

/-- A transaction that was taken from the queue. -/
structure Receipt where
  txId : String
  errs : ℕ
  returned : Bool
deriving DecidableEq, Repr

namespace Receipt
variable {txId : String} {f : Receipt → Receipt} {r x : Receipt} {rs : List Receipt}

/-- At most one error response, and none if the transaction was given back. -/
def Fair (r : Receipt) : Prop := r.errs ≤ 1 ∧ (r.returned = true → r.errs = 0)

instance (r : Receipt) : Decidable r.Fair := inferInstanceAs (Decidable (_ ∧ _))

/-- An error response is put. -/
def answer (r : Receipt) : Receipt := { r with errs := r.errs + 1 }

/-- The transaction is given back. -/
def giveBack (r : Receipt) : Receipt := { r with returned := true }

/-- A response belongs to the newest receipt with its `TxId`. -/
def amend (txId : String) (f : Receipt → Receipt) : List Receipt → List Receipt
  | [] => []
  | r :: rs => if r.txId = txId then f r :: rs else r :: amend txId f rs

theorem amend_eq (h : rs.find? (·.txId = txId) = some r) :
    ∃ as bs, rs = as ++ r :: bs ∧ amend txId f rs = as ++ f r :: bs := by
  induction rs with
  | nil => cases h
  | cons y rs ih =>
    by_cases hy : y.txId = txId
    · rw [List.find?_cons_of_pos (by simpa using hy)] at h
      cases h
      exact ⟨[], rs, rfl, if_pos hy⟩
    · rw [List.find?_cons_of_neg (by simpa using hy)] at h
      obtain ⟨as, bs, rfl, heq⟩ := ih h
      exact ⟨y :: as, bs, rfl, by rw [amend, if_neg hy, heq]; rfl⟩

theorem mem_amend (h : rs.find? (·.txId = txId) = some r) (hx : x ∈ amend txId f rs) :
    x = f r ∨ x ∈ rs := by
  obtain ⟨as, bs, rfl, heq⟩ := amend_eq (f := f) h
  rw [heq] at hx
  simp only [List.mem_append, List.mem_cons] at hx ⊢
  tauto

theorem amended_mem (h : rs.find? (·.txId = txId) = some r) : f r ∈ amend txId f rs := by
  obtain ⟨as, bs, -, heq⟩ := amend_eq (f := f) h
  rw [heq]
  simp

/-- The receipts after a step that took `got` from the queue and put the responses. -/
def record (rs : List Receipt) (got : Option DockerVMMessage) (errs : List String)
    (back : List DockerVMMessage) : List Receipt :=
  let rs := match got with
    | some tx => ⟨tx.txId, 0, false⟩ :: rs
    | none => rs
  let rs := errs.foldl (fun rs txId => amend txId answer rs) rs
  back.foldl (fun rs tx => amend tx.txId giveBack rs) rs

end Receipt

/-! ## The ledger of a process -/

/-- What a run has done with transactions. -/
structure Ledger where
  /-- newest first -/
  receipts : List Receipt
  /-- the send of the last transaction at work failed -/
  unsent : Bool
  /-- the sandbox has exited while such a transaction was at work -/
  unsentExit : Bool
deriving DecidableEq, Repr

def Ledger.empty : Ledger := ⟨[], false, false⟩

/-- The process works on a transaction, or was too slow with it. -/
def AtWork (p : Process) : Prop := p.processState = .busy ∨ p.processState = .timeout

instance (p : Process) : Decidable p.AtWork := inferInstanceAs (Decidable (_ ∨ _))

/-- The transaction that a step takes from the queue; `handleProcessExit` takes one after
    a failed start. -/
def received (p : Process) : Action → Option DockerVMMessage
  | .txReq tx _ _ | .idleTxReq tx _ => some tx
  | .exit next _ =>
    match p.launch with
    | .exited e => if e.kind = .other then none else next
    | _ => none
  | _ => none

/-- Whether the last transaction that `handleTxRequest` did not find too old was sent. -/
def failedSend (cfg : ProcessConfig) (unsent : Bool) : Action → Bool
  | .txReq _ elapsedTime sendOk =>
    if removeTxTime < elapsedTime ∨ cfg.execTxTimeout < elapsedTime then unsent else !sendOk
  | _ => unsent

/-- The listener handles the exit of a sandbox that was started, while a transaction is at
    work. -/
def exitsAtWork (p : Process) : Action → Bool
  | .exit _ _ =>
    match p.launch with
    | .exited e => decide (e.kind = .other ∧ p.AtWork)
    | _ => false
  | _ => false

/-- The ledger after a step. -/
def note (cfg : ProcessConfig) (l : Ledger) (p : Process) (a : Action) (outs : List ProcessOut) :
    Ledger where
  receipts := Receipt.record l.receipts (received p a) (errTxIds outs) (Fleet.returned outs)
  unsent := failedSend cfg l.unsent a
  unsentExit := l.unsentExit || (l.unsent && exitsAtWork p a)

/-- The process with its ledger. -/
def ledgerStep (cfg : ProcessConfig) : Process × Ledger → Action → Option (Process × Ledger) :=
  monitor (fun p a => (act cfg p a).toOption) (note cfg)

/-! ## What a step does with transactions -/

/-- Where the listener waits for a transaction of an idle process, none is at work. -/
def IdleRest (p : Process) : Prop := ∀ q, p.listen = some (.idle q) → ¬ p.AtWork

/-- The four ways in which a step deals with transactions. -/
inductive TxCase (cfg : ProcessConfig) (p : Process) (a : Action) (p' : Process)
    (outs : List ProcessOut) : Prop
  | silent : received p a = none → errTxIds outs = [] → Fleet.returned outs = [] →
      (∀ b, failedSend cfg b a = b) → exitsAtWork p a = false →
      (p'.listen.isSome = true → p'.AtWork → p.listen.isSome = true ∧ p.AtWork ∧ p'.tx = p.tx) →
      TxCase cfg p a p' outs
  /-- a transaction is too old, given back, or answered after a failed start -/
  | settled (tx : DockerVMMessage) : p.listen.isSome = true → received p a = some tx →
      (errTxIds outs = [] ∧ Fleet.returned outs = [] ∨
        errTxIds outs = [tx.txId] ∧ Fleet.returned outs = [] ∨
        errTxIds outs = [] ∧ Fleet.returned outs = [tx]) →
      (∀ b, failedSend cfg b a = b) → exitsAtWork p a = false →
      (p'.listen.isSome = true → ¬ p'.AtWork) → TxCase cfg p a p' outs
  | dispatched (tx : DockerVMMessage) (sendOk : Bool) : p.listen.isSome = true →
      received p a = some tx → errTxIds outs = (if sendOk then [] else [tx.txId]) →
      Fleet.returned outs = [] → (∀ b, failedSend cfg b a = !sendOk) → exitsAtWork p a = false →
      p'.tx = some tx → TxCase cfg p a p' outs
  /-- the sandbox exits and its transaction is answered -/
  | exited (tx : DockerVMMessage) : p.listen.isSome = true → received p a = none → p.AtWork →
      p.tx = some tx → errTxIds outs = [tx.txId] → Fleet.returned outs = [] →
      (∀ b, failedSend cfg b a = b) → exitsAtWork p a = true → p'.listen = none →
      TxCase cfg p a p' outs

theorem txReq_case {tx : DockerVMMessage} {el : ℕ} {sendOk : Bool} (hl : ListenInv p)
    (h : act cfg p (.txReq tx el sendOk) = .ok (p', outs)) :
    TxCase cfg p (.txReq tx el sendOk) p' outs := by
  obtain ⟨⟨q, hsel⟩, -, hcase⟩ := txReq_cases h
  have hsome : p.listen.isSome = true := by rw [hsel]; rfl
  have hready : ¬ p.AtWork := by simp [AtWork, (hl.ready hsel).1]
  cases hcase with
  | removed h0 =>
    exact .settled tx hsome rfl (Or.inl ⟨rfl, rfl⟩) (fun b => if_pos (Or.inl h0)) rfl fun _ => hready
  | expired err _ h1 =>
    exact .settled tx hsome rfl (Or.inr (Or.inl ⟨rfl, rfl⟩)) (fun b => if_pos (Or.inr h1)) rfl
      fun _ => hready
  | dispatched h0 h1 hup _ ho =>
    obtain ⟨u, t, b, rfl⟩ := updateProcessState_eq hup
    have hsent : ∀ b, failedSend cfg b (.txReq tx el sendOk) = !sendOk :=
      fun b => if_neg (not_or.2 ⟨h0, h1⟩)
    rcases ho with ⟨rfl, rfl⟩ | ⟨rfl, err, rfl⟩
    · exact .dispatched tx true hsome rfl rfl rfl hsent rfl rfl
    · exact .dispatched tx false hsome rfl rfl rfl hsent rfl rfl

/-- After a failed start the transaction at the head of the queue is answered or given
    back. -/
theorem exitBody_next {f : ExitFlags} (hk : e.kind ≠ .other)
    (h : exitBody p e next = .ok (p', outs, f)) :
    (next = none ∧ outs = [] ∧ f.returnErrResp = false) ∨
      ∃ tx, next = some tx ∧ p'.tx = some tx ∧
        (outs = [] ∧ f.returnErrResp = true ∨ outs = [.returnTx tx] ∧ f.returnErrResp = false) := by
  cases hkind : e.kind with
  | other => exact absurd hkind hk
  | contractExecError => cases next <;> simp only [exitBody, hkind] at h <;> cases h <;> simp
  | contractNotExistError => cases next <;> simp only [exitBody, hkind] at h <;> cases h <;> simp

theorem exit_case (hb : BusyTx p) (hla : p.launch = .exited e) (hsome : p.listen.isSome = true)
    (h : handleProcessExit p e next cfv = .ok (p', outs)) :
    TxCase cfg p (.exit next cfv) p' outs := by
  obtain ⟨⟨p₁, outs₁, f⟩, hbody, h⟩ := Go.bind_eq_ok.1 h
  obtain ⟨resps, hr, h⟩ := Go.bind_eq_ok.1 h
  cases h
  obtain ⟨hret, -, herr⟩ := exitResponses_flow hr
  obtain ⟨htx, hst, hend⟩ := finishExit_flow p₁ f
  have herrs : ∀ o, errTxIds (o ++ resps) = errTxIds o ++ errTxIds resps :=
    fun o => List.filterMap_append ..
  have hrets : ∀ o, Fleet.returned (o ++ resps) = Fleet.returned o := by
    intro o
    rw [returned_append, hret, List.append_nil]
  by_cases hk : e.kind = .other
  · have hrec : received p (.exit next cfv) = none := by simp [received, hla, hk]
    by_cases hw : p.AtWork
    · -- the transaction at work is answered
      obtain ⟨rfl, -, hall, -, hrel, hcase⟩ := exitBody_report hk (by
        rcases hw with hw | hw <;> simp [hw]) hbody
      obtain ⟨tx, heq⟩ := Option.isSome_iff_exists.1 (hb hw)
      rcases hcase with ⟨hs, -⟩ | ⟨-, rfl, hresp⟩
      · rcases hw with hw | hw <;> rw [hw] at hs <;> simp at hs
      · refine .exited tx hsome hrec hw heq ?_ (hrets _) (fun _ => rfl) ?_ (hend hrel hall)
        · rw [List.nil_append, herr, hresp]
          simp [heq]
        · simp [exitsAtWork, hla, hk, hw]
    · obtain ⟨hcase, hstate, -, -⟩ := exitBody_flow hbody
      rcases hcase with ⟨-, rfl, hsame, hwhen⟩ | ⟨hk', -⟩
      · have hresp : f.returnErrResp = false := by
          cases hf : f.returnErrResp with
          | true => exact absurd (hwhen hf) hw
          | false => rfl
        refine .silent hrec ?_ (hrets _) (fun _ => rfl) ?_ fun _ hw' => absurd hw' ?_
        · rw [List.nil_append, herr, hresp]
          rfl
        · simp [exitsAtWork, hla, hw]
        · rcases hstate with hstate | hstate
          · simpa [AtWork, hst, hstate] using hw
          · simp [AtWork, hst, hstate]
      · exact absurd hk hk'
  · have hrec : received p (.exit next cfv) = next := by simp [received, hla, hk]
    have hno : exitsAtWork p (.exit next cfv) = false := by simp [exitsAtWork, hla, hk]
    obtain ⟨-, -, -, -, hall, -, hrel⟩ := exitBody_launch hk hbody
    have hnone := hend hrel hall
    rcases exitBody_next hk hbody with ⟨rfl, rfl, hresp⟩ | ⟨tx, rfl, htx₁, hout⟩
    · refine .silent hrec ?_ (hrets _) (fun _ => rfl) hno fun hs => ?_
      · rw [List.nil_append, herr, hresp]
        rfl
      · rw [hnone] at hs
        cases hs
    · refine .settled tx hsome hrec ?_ (fun _ => rfl) hno fun hs => ?_
      · rcases hout with ⟨rfl, hresp⟩ | ⟨rfl, hresp⟩
        · refine Or.inr (Or.inl ⟨?_, hrets _⟩)
          rw [List.nil_append, herr, hresp, htx₁]
          rfl
        · refine Or.inr (Or.inr ⟨?_, hrets _⟩)
          rw [herrs, herr, hresp]
          rfl
      · rw [hnone] at hs
        cases hs

/-- Every step deals with transactions in one of the four ways. -/
theorem act_case (hl : ListenInv p) (hi : IdleRest p) (hb : BusyTx p)
    (h : act cfg p a = .ok (p', outs)) : TxCase cfg p a p' outs := by
  cases act_step h with
  | dropped _ _ | dispatched _ _ _ _ => exact txReq_case hl h
  | exit hla hsel _ _ hexit => exact exit_case hb hla (by rw [hsel]; rfl) hexit
  | @idleKept tx q hsel =>
    exact .settled tx (by rw [hsel]; rfl) rfl (Or.inr (Or.inr ⟨rfl, rfl⟩)) (fun _ => rfl) rfl
      fun _ => hi q hsel
  | @idleTaken tx q _ _ _ hsel _ =>
    exact .settled tx (by rw [hsel]; rfl) rfl (Or.inr (Or.inr ⟨rfl, rfl⟩)) (fun _ => rfl) rfl
      fun _ => by simp [AtWork]
  | loopHead hsel =>
    exact .silent rfl rfl rfl (fun _ => rfl) rfl fun _ hw => ⟨by rw [hsel]; rfl, hw, rfl⟩
  | wake hsel =>
    exact .silent rfl rfl rfl (fun _ => rfl) rfl fun _ hw => ⟨by rw [hsel]; rfl, hw, rfl⟩
  | strayTimeout hsel _ _ _ =>
    exact .silent rfl rfl rfl (fun _ => rfl) rfl fun _ hw => ⟨by rw [hsel]; rfl, hw, rfl⟩
  | busyTimeout hsel _ _ hst _ =>
    exact .silent rfl rfl rfl (fun _ => rfl) rfl fun _ _ => ⟨by rw [hsel]; rfl, Or.inl hst, rfl⟩
  | answered _ _ _ _ _ | deployFailed _ _ _ _ _ _ | readyTimeout _ _ _ _ | setStream _ =>
    exact .silent rfl rfl rfl (fun _ => rfl) rfl fun _ hw => by simp [AtWork] at hw
  | @leaveWindow w _ _ _ _ =>
    exact .silent rfl rfl rfl (fun _ => rfl) rfl fun _ hw => by cases w <;> simp [AtWork] at hw
  | @launchProcess o _ =>
    obtain ⟨-, hst, hli⟩ := launchProcess_frame p o
    refine .silent rfl rfl rfl (fun _ => rfl) rfl fun hs hw => ⟨hli ▸ hs, ?_, ?_⟩
    · simpa [AtWork, hst] using hw
    · cases o with
      | started sid => simp only [Process.launchProcess]; split_ifs <;> rfl
      | _ => rfl
  | _ => exact .silent rfl rfl rfl (fun _ => rfl) rfl fun hs hw => ⟨hs, hw, rfl⟩

theorem IdleRest.step (h : IdleRest p) (hs : ProcStep p a p' outs) : IdleRest p' := by
  intro q hq
  cases hs with
  | loopHead _ =>
    cases hst : p.processState <;> simp_all [selectFor, AtWork]
  | wake _ | dropped _ _ | dispatched _ _ _ _ | idleKept _ | idleTaken _ _ | answered _ _ _ _ _
  | deployFailed _ _ _ _ _ _ | busyTimeout _ _ _ _ _ | readyTimeout _ _ _ _
  | strayTimeout _ _ _ _ => cases hq
  | exit _ _ _ hc _ =>
    cases hc with
    | ended _ _ _ | restartAll _ _ | closed _ _ => cases hq
    | restart _ _ hl => rcases hl with rfl | rfl <;> cases hq
  | setStream _ => simp [AtWork]
  | @leaveWindow w _ _ _ _ => cases w <;> simp [AtWork]
  | @launchProcess o _ =>
    obtain ⟨-, hst, hli⟩ := launchProcess_frame p o
    have := h q (hli ▸ hq)
    simpa [AtWork, hst] using this
  | _ => exact h q hq

/-! ## The invariant -/

/-- What the ledger says about the process. -/
structure Accounts (p : Process) (l : Ledger) : Prop where
  fair : l.unsentExit = false → ∀ r ∈ l.receipts, r.Fair
  /-- the receipt of the transaction at work -/
  current : l.unsentExit = false → p.listen.isSome = true → p.AtWork →
    ∃ tx r, p.tx = some tx ∧ l.receipts.find? (·.txId = tx.txId) = some r ∧
      r.returned = false ∧ r.errs = if l.unsent then 1 else 0
  unfair : l.unsentExit = true → p.listen = none ∧ ∃ r ∈ l.receipts, ¬ r.Fair

namespace Accounts
variable {l : Ledger}

/-- Until the listener returns, every receipt is fair. -/
theorem listening (h : Accounts p l) (hl : p.listen.isSome = true) : l.unsentExit = false := by
  cases hu : l.unsentExit with
  | false => rfl
  | true =>
    rw [(h.unfair hu).1] at hl
    cases hl

/-- A new receipt on top. -/
theorem fair_cons (h : Accounts p l) (hl : p.listen.isSome = true) {r : Receipt} (hr : r.Fair) :
    ∀ x ∈ r :: l.receipts, x.Fair := by
  intro x hx
  rcases List.mem_cons.1 hx with rfl | hx
  · exact hr
  · exact h.fair (h.listening hl) x hx

theorem step (h : Accounts p l) (hc : TxCase cfg p a p' outs)
    (hend : p.listen = none → p'.listen = none) : Accounts p' (note cfg l p a outs) := by
  cases hc with
  | silent hgot herr hret hsend hexit hcur =>
    have hnote : note cfg l p a outs = l := by
      simp [note, hgot, herr, hret, hsend, hexit, Receipt.record]
    rw [hnote]
    refine ⟨h.fair, fun hu hl hw => ?_, fun hu => ?_⟩
    · obtain ⟨hl₀, hw₀, htx⟩ := hcur hl hw
      rw [htx]
      exact h.current hu hl₀ hw₀
    · obtain ⟨hl, hr⟩ := h.unfair hu
      exact ⟨hend hl, hr⟩
  | settled tx hl hgot hout hsend hexit hrest =>
    have hu := h.listening hl
    obtain ⟨r, hr, hnote⟩ : ∃ r : Receipt, r.Fair ∧
        note cfg l p a outs = ⟨r :: l.receipts, l.unsent, false⟩ := by
      rcases hout with ⟨herr, hret⟩ | ⟨herr, hret⟩ | ⟨herr, hret⟩
      · refine ⟨⟨tx.txId, 0, false⟩, by simp [Receipt.Fair], ?_⟩
        simp [note, hgot, herr, hret, hsend, hexit, hu, Receipt.record]
      · refine ⟨⟨tx.txId, 1, false⟩, by simp [Receipt.Fair], ?_⟩
        simp [note, hgot, herr, hret, hsend, hexit, hu, Receipt.record, Receipt.amend,
          Receipt.answer]
      · refine ⟨⟨tx.txId, 0, true⟩, by simp [Receipt.Fair], ?_⟩
        simp [note, hgot, herr, hret, hsend, hexit, hu, Receipt.record, Receipt.amend,
          Receipt.giveBack]
    rw [hnote]
    exact ⟨fun _ => h.fair_cons hl hr, fun _ hl' hw => absurd hw (hrest hl'), fun hu' => by cases hu'⟩
  | dispatched tx sendOk hl hgot herr hret hsend hexit htx =>
    have hu := h.listening hl
    have hnote : note cfg l p a outs =
        ⟨⟨tx.txId, if sendOk then 0 else 1, false⟩ :: l.receipts, !sendOk, false⟩ := by
      cases sendOk <;>
        simp [note, hgot, herr, hret, hsend, hexit, hu, Receipt.record, Receipt.amend,
          Receipt.answer]
    rw [hnote]
    refine ⟨fun _ => h.fair_cons hl ?_, fun _ _ _ => ?_, fun hu' => by cases hu'⟩
    · cases sendOk <;> simp [Receipt.Fair]
    · refine ⟨tx, _, htx, List.find?_cons_of_pos (by simp), rfl, ?_⟩
      cases sendOk <;> rfl
  | exited tx hl hgot hw htx herr hret hsend hexit hnone =>
    have hu := h.listening hl
    obtain ⟨tx', r, htx', hfind, hback, herrs⟩ := h.current hu hl hw
    obtain rfl : tx' = tx := Option.some.inj (htx'.symm.trans htx)
    have hnote : note cfg l p a outs =
        ⟨Receipt.amend tx'.txId Receipt.answer l.receipts, l.unsent, l.unsent⟩ := by
      simp [note, hgot, herr, hret, hsend, hexit, hu, Receipt.record]
    rw [hnote]
    -- the second answer, if the first one followed the failed send
    have hfair : r.answer.Fair ↔ l.unsent = false := by
      simp only [Receipt.Fair, Receipt.answer, herrs, hback]
      cases l.unsent <;> simp
    refine ⟨fun hs x hx => ?_, fun _ hl' => ?_, fun hs => ⟨hnone, _, Receipt.amended_mem hfind, ?_⟩⟩
    · rcases Receipt.mem_amend hfind hx with rfl | hx
      · exact hfair.2 hs
      · exact h.fair hu x hx
    · rw [hnone] at hl'
      cases hl'
    · have hs' : l.unsent = true := hs
      rw [hfair, hs']
      simp

end Accounts

structure LedgerInv (s : Process × Ledger) : Prop where
  listen : ListenInv s.1
  idle : IdleRest s.1
  busy : BusyTx s.1
  accounts : Accounts s.1 s.2

theorem ledgerInv_new (user : ℕ) (key : RequestGroupKey) (name : String) (o : Bool) :
    LedgerInv (new user key name o, .empty) where
  listen := listenInv_new user key name o
  idle q h := by cases h
  busy h := by rcases h with h | h <;> cases h
  accounts := by
    refine ⟨fun _ r hr => ?_, fun _ _ hw => ?_, fun h => ?_⟩
    · cases hr
    · rcases hw with hw | hw <;> cases hw
    · cases h

theorem LedgerInv.step {l : Ledger} (h : LedgerInv (p, l)) (hact : act cfg p a = .ok (p', outs)) :
    LedgerInv (p', note cfg l p a outs) := by
  have hstep := act_step hact
  exact ⟨h.listen.step hstep, h.idle.step hstep, (hstep.flow h.busy).busy,
    h.accounts.step (act_case h.listen h.idle h.busy hact) hstep.listen_none⟩

theorem ledgerInv_of_reach {user : ℕ} {key : RequestGroupKey} {name : String} {b : Bool}
    {s : Process × Ledger} (h : Reach (ledgerStep cfg) Free (new user key name b, .empty) s) :
    LedgerInv s := by
  refine h.inv (ledgerInv_new user key name b) ?_
  rintro ⟨p, l⟩ a ⟨p', l'⟩ hinv - hstep
  obtain ⟨outs, hact, rfl⟩ := monitor_eq_some hstep
  exact hinv.step (Go.toOption_eq_some.1 hact)

/-! ## Results -/

/-- **One error response for each transaction.**  In every state of every run of a process,
    each transaction that it took from its queue has had at most one error response, and
    none if it was given back, if and only if the sandbox has not exited while a transaction
    was at work whose send had failed. -/
theorem error_responses_fair_iff {user : ℕ} {key : RequestGroupKey} {name : String} {b : Bool}
    {l : Ledger} (h : Reach (ledgerStep cfg) Free (new user key name b, .empty) (p, l)) :
    (∀ r ∈ l.receipts, r.Fair) ↔ l.unsentExit = false := by
  have hinv := ledgerInv_of_reach h
  refine ⟨fun hfair => ?_, hinv.accounts.fair⟩
  cases hu : l.unsentExit with
  | false => rfl
  | true =>
    obtain ⟨-, r, hr, hnot⟩ := hinv.accounts.unfair hu
    exact absurd (hfair r hr) hnot

/-- The process of the runs below. -/
def ledgerSample : Process × Ledger := (new 10000 .sample "chain1#o#fact#v1#0#1" true, .empty)

/-- A transaction is taken from the queue, and then the sandbox exits. -/
def exitRun (sendOk : Bool) : List Action :=
  [.launchProcess (.started 0), .loopHead, .setStream 0, .wake, .loopHead,
    .txReq (sampleTx .sample "tx1" "save") 0 sendOk, .loopHead, .wait none, .exit none 0]

/-- A transaction that was sent is answered once when the sandbox exits. -/
theorem error_responses_fair_sent : ∃ p l, Reach (ledgerStep .sample) Free ledgerSample (p, l) ∧
    l.receipts = [⟨"tx1", 1, false⟩] ∧ ∀ r ∈ l.receipts, r.Fair := by
  obtain ⟨⟨p, l⟩, hr, hP⟩ := exists_reach (ledgerStep .sample) Free ledgerSample
    (fun s => s.2.receipts = [⟨"tx1", 1, false⟩] ∧ s.2.unsentExit = false) (exitRun true)
    (by decide)
  obtain ⟨hrec, hu⟩ := of_decide_eq_true hP
  exact ⟨p, l, hr, hrec, (error_responses_fair_iff hr).2 hu⟩

/-- A transaction whose send failed is answered twice. -/
theorem error_responses_twice : ∃ p l, Reach (ledgerStep .sample) Free ledgerSample (p, l) ∧
    l.receipts = [⟨"tx1", 2, false⟩] := by
  obtain ⟨⟨p, l⟩, hr, hP⟩ := exists_reach (ledgerStep .sample) Free ledgerSample
    (fun s => s.2.receipts = [⟨"tx1", 2, false⟩]) (exitRun false) (by decide)
  exact ⟨p, l, hr, of_decide_eq_true hP⟩

end Process

end VmEngine
