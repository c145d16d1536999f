/-
  Where the writes of a transaction come from.

  A sandbox keeps what its contract wrote in a map of its own.  It sends the map with
  the response of the transaction, and with every request for a new iterator, so that
  the iterator sees the writes made so far.  Each time the map is merged under the name
  of the contract whose call of `Invoke` is running.

  `writes_owned` is about a whole transaction with any nesting of calls: what is found
  under the name of a contract was there before, or was sent by a sandbox under the key
  of that contract while a call of it was running.  `iterators_transparent` is about one
  call: the maps that went with requests for iterators leave no trace once the response
  covers their keys.
-/
import VmEngine.Runtime.CallStack
import VmEngine.Runtime.MergeOrder

namespace VmEngine.Runtime

variable {σ κ η : Type} {P : Protocol} {S : TxSimContext σ κ η}

/-- The write set of a context that nothing but `Put` changes. -/
structure WriteFrame (S : TxSimContext σ κ η) extends WriteSet S where
  of_reads : ∀ {s s'}, Reads S s s' → of s' = of s

/-- The sample context is one. -/
def WriteFrame.sample (blockVersion : UInt32) : WriteFrame (TxSimContext.sample blockVersion) where
  toWriteSet := .sample blockVersion
  of_reads h := by
    induction h with
    | trans _ _ h h' => exact h'.trans h
    | get h | getKeys h | getHistoryIterForKey h | kvValue h | historyValue h | getContractByName h
    | getSenderAddress h =>
      cases h
      rfl
    | _ => rfl

/-! ## Merges -/

section
variable (W : WriteFrame S)

/-- The entries of a list were put under the name of a contract, one after another. -/
def Puts (P : Protocol) (name : Bytes) (l : List Entry) (s s' : σ) : Prop :=
  ∀ c k, W.of s' c k =
    if c = name then (lastWrite (Entry.storedKey P name) Prod.snd k l).or (W.of s c k)
    else W.of s c k

/-- Some of the entries that were sent were put under the name of a contract. -/
def Wrote (P : Protocol) (name : Bytes) (sent : List Entry) (s s' : σ) : Prop :=
  ∃ l, (∀ e ∈ l, e ∈ sent ∧ Entry.Accepted W.toWriteSet P name e) ∧ Puts W P name l s s'

variable {W} {name : Bytes}

variable {s s' : σ}

theorem Puts.between {l : List Entry} {s₁ s₂ : σ} (hread : Reads S s s₁) (h : Puts W P name l s₁ s₂)
    (hread' : Reads S s₂ s') : Puts W P name l s s' := by
  intro c k
  rw [W.of_reads hread', ← W.of_reads hread]
  exact h c k

theorem Wrote.of_reads {sent : List Entry} (h : Reads S s s') : Wrote W P name sent s s' := by
  refine ⟨[], List.forall_mem_nil _, fun c k => ?_⟩
  rw [W.of_reads h]
  split_ifs <;> rfl

/-- A merge puts the entries that it goes past. -/
theorem mergeSimContextWriteMap_wrote (W : WriteFrame S) (P : Protocol) (name : Bytes)
    (ord : MapOrder) (writeMap : GoMap) (g : UInt64) (s : σ) :
    Wrote W P name writeMap.entries s
      (mergeSimContextWriteMap P S ord writeMap g name s).store := by
  refine ⟨(mergeLoop W.toWriteSet P name).done (ord.enum writeMap) g, fun e he => ?_, fun c k =>
    mergeWriteEntries_of W.toWriteSet _ g s c k⟩
  obtain ⟨hmem, g₁, g₂, hnext⟩ := WriteLoop.mem_of_mem_done he
  exact ⟨(ord.perm writeMap).mem_iff.1 hmem, ((next_ok_iff W.toWriteSet).1 hnext).1⟩

/-- A merge without an error puts all entries. -/
theorem mergeSimContextWriteMap_puts {ord : MapOrder} {writeMap : GoMap} {g : UInt64}
    (h : (mergeSimContextWriteMap P S ord writeMap g name s).err = none) :
    Puts W P name (ord.enum writeMap) s
      (mergeSimContextWriteMap P S ord writeMap g name s).store := by
  intro c k
  have hrun : (mergeLoop W.toWriteSet P name).run (ord.enum writeMap) g = _ :=
    mergeWriteEntries_run W.toWriteSet (ord.enum writeMap) g s
  unfold mergeSimContextWriteMap at h ⊢
  rw [h] at hrun
  have hdone := WriteLoop.done_of_run_ok (hrun.trans (if_neg (by simp)))
  have hof : W.of (mergeWriteEntries P S name (ord.enum writeMap) g s).store c k = _ :=
    mergeWriteEntries_of W.toWriteSet (ord.enum writeMap) g s c k
  rw [hdone] at hof
  exact hof

/-- A message puts some of the entries it carries. -/
theorem Merges.wrote {ord : MapOrder} {m : DockerVMMessage} (h : Merges P S name ord m s s') :
    Wrote W P name (sentEntries P m) s s' := by
  cases h with
  | reads h => exact .of_reads h
  | merged hsent hread h =>
    obtain ⟨l, hl, hputs⟩ := mergeSimContextWriteMap_wrote W P name ord _ _ _
    exact ⟨l, hsent ▸ hl, hputs.between hread h⟩

end

/-! ## Steps of a transaction -/

/-- The entries that a step brings to the running contract. -/
def CallAction.sent (P : Protocol) : CallAction → List Entry
  | .received (.sandbox m _ _) => sentEntries P m
  | _ => []

namespace CallStack

/-- The state of the shared context. -/
def store (s : CallStack σ κ η) : σ := s.loop.state.sim.store

/-- The contract whose call of `Invoke` is running. -/
def runs (s : CallStack σ κ η) : Bytes := s.invocation.contract.name

end CallStack

section
variable {W : WriteFrame S}

variable {st : RuntimeState σ κ η} {ty : ExecOrderTxType}

/-- A response puts some of its entries, and all of them if it ends the call with a success. -/
theorem Responded.wrote {txId name : Bytes} {ord : MapOrder} {m : DockerVMMessage}
    {r : (ContractResult × ExecOrderTxType) × RuntimeState σ κ η} (htype : m.type = .txResponse)
    (h : Responded P S txId name ord m ty st r) :
    Wrote W P name (sentEntries P m) st.sim.store r.2.sim.store ∧
      (r.1.1.code = 0 → ∃ resp, m.response = some resp ∧
        Puts W P name (ord.enum resp.writeMap) st.sim.store r.2.sim.store) := by
  cases h with
  | fails hcode _ hm => exact ⟨hm.wrote, fun h => absurd h hcode⟩
  | @succeeds _ _ resp g s _ _ hresp hread herr hstore =>
    have hsent : sentEntries P m = resp.writeMap.entries := by
      simp only [sentEntries, htype, hresp, Option.elim_some]
    rw [hstore]
    exact ⟨(Merges.merged hsent hread (.refl _)).wrote, fun _ =>
      ⟨resp, hresp, (mergeSimContextWriteMap_puts herr).between hread (.refl _)⟩⟩

theorem LoopTurn.wrote {name : Bytes} {r : Received}
    {t : InvokeState σ κ η × Option DockerVMMessage} (h : LoopTurn P S name ty st r t) :
    Wrote W P name ((CallAction.received r).sent P) st.sim.store t.1.state.sim.store := by
  cases h with
  | answers _ h => exact h.store.wrote
  | responds htype h => exact (h.wrote htype).1
  | stays | fails => exact .of_reads (.refl _)

/-- **What one step writes**: entries that it brought, under the name of the running contract. -/
theorem act_wrote {s s' : CallStack σ κ η} {a : CallAction} {sent : Option DockerVMMessage}
    (h : s.act P S a = some (s', sent)) : Wrote W P s.runs (a.sent P) s.store s'.store := by
  unfold CallStack.store
  cases act_step h with
  | turn hloop hturn =>
    rw [hloop]
    exact hturn.wrote
  | call st hloop hread =>
    rw [hloop, beforeLoop_state]
    exact .of_reads hread
  | ret hloop _ _ hfin =>
    rw [hloop]
    exact .of_reads (hfin.sim ▸ .refl _)

/-- A step that ends a call of `Invoke` with a success put all entries of the response. -/
theorem act_success {s s' : CallStack σ κ η} {m : DockerVMMessage} {ordRead ordWrite : MapOrder}
    {sent : Option DockerVMMessage} {result : ContractResult}
    (h : s.act P S (.received (.sandbox m ordRead ordWrite)) = some (s', sent))
    (hret : s'.loop = .returned result ty st) (hcode : result.code = 0) :
    ∃ resp, m.response = some resp ∧
      Puts W P s.runs (ordWrite.enum resp.writeMap) s.store s'.store := by
  unfold CallStack.store
  cases act_step h with
  | turn hloop hturn =>
    rw [hloop]
    cases hturn with
    | answers | stays => cases hret
    | responds htype hresp =>
      cases hret
      exact (hresp.wrote htype).2 hcode
    | fails =>
      cases hret
      cases hcode

end

/-! ## Whole transactions -/

/-- The entries brought so far, each with the contract that was running. -/
abbrev WriteLog := List (Bytes × Entry)

def WriteLog.add (P : Protocol) (log : WriteLog) (s : CallStack σ κ η) (a : CallAction)
    (_ : Option DockerVMMessage) : WriteLog :=
  log ++ (a.sent P).map fun e => (s.runs, e)

/-- A transaction together with the entries brought so far. -/
def loggedStep (P : Protocol) (S : TxSimContext σ κ η) :
    CallStack σ κ η × WriteLog → CallAction → Option (CallStack σ κ η × WriteLog) :=
  monitor (CallStack.act P S) (WriteLog.add P)

/-- What a transaction finds under a key was there at its start, or was brought for this key
    while the contract was running, and taken by `Put`. -/
def Originates (W : WriteFrame S) (P : Protocol) (s₀ : σ) (t : CallStack σ κ η × WriteLog) : Prop :=
  ∀ c k, W.of t.1.store c k = W.of s₀ c k ∨
    ∃ e, (c, e) ∈ t.2 ∧ Entry.Accepted W.toWriteSet P c e ∧ Entry.storedKey P c e = k ∧
      W.of t.1.store c k = some e.2

theorem originates_start (W : WriteFrame S) (call : Invocation) (connected : Bool)
    (gasUsed : UInt64) (chainId : Bytes) (s₀ : σ) :
    Originates W P s₀ ((Transaction.start P S call connected gasUsed chainId s₀).stack, []) := by
  intro c k
  left
  simp only [Transaction.start, CallStack.store, beforeLoop_state]

theorem Originates.step {W : WriteFrame S} {s₀ : σ} {t t' : CallStack σ κ η × WriteLog}
    {a : CallAction} (h : Originates W P s₀ t) (hstep : loggedStep P S t a = some t') :
    Originates W P s₀ t' := by
  obtain ⟨o, hact, hlog⟩ := monitor_eq_some hstep
  obtain ⟨l, hl, hputs⟩ := act_wrote (W := W) hact
  have hkept : ∀ c k, W.of t'.1.store c k = W.of t.1.store c k →
      W.of t'.1.store c k = W.of s₀ c k ∨
        ∃ e, (c, e) ∈ t'.2 ∧ Entry.Accepted W.toWriteSet P c e ∧ Entry.storedKey P c e = k ∧
          W.of t'.1.store c k = some e.2 := by
    intro c k heq
    rw [heq, hlog]
    rcases h c k with h | ⟨e, he, hacc⟩
    · exact .inl h
    · exact .inr ⟨e, List.mem_append_left _ he, hacc⟩
  intro c k
  have hof := hputs c k
  split_ifs at hof with hc
  · rcases hlast : lastWrite (Entry.storedKey P t.1.runs) Prod.snd k l with _ | v
    · rw [hlast, Option.none_or] at hof
      exact hkept c k hof
    · rw [hlast, Option.some_or] at hof
      obtain ⟨e, he, hkey, hv⟩ := lastWrite_eq_some hlast
      obtain ⟨hsent, hacc⟩ := hl e he
      rw [hc] at hof ⊢
      refine .inr ⟨e, ?_, hacc, hkey, by rw [hof, hv]⟩
      rw [hlog]
      exact List.mem_append_right _ (List.mem_map_of_mem hsent)
  · exact hkept c k hof

/-- **The writes of a contract are its own**: over every run of a transaction, with any nesting of
    contract calls, what the write set holds under the name of a contract was there at the start,
    or is an entry of a write map that a sandbox sent while a call of this contract was running,
    under a key that names the contract. -/
theorem writes_owned (P : Protocol) (S : TxSimContext σ κ η) (W : WriteFrame S) (call : Invocation)
    (connected : Bool) (gasUsed : UInt64) (chainId : Bytes) (s₀ : σ)
    {t : CallStack σ κ η × WriteLog}
    (h : Reach (loggedStep P S) Free
      ((Transaction.start P S call connected gasUsed chainId s₀).stack, []) t) :
    Originates W P s₀ t := by
  exact h.inv (I := Originates W P s₀) (originates_start W call connected gasUsed chainId s₀)
    fun hI _ hstep => hI.step hstep

/-- Responses with one write, and a call of another contract that makes one of its own. -/
def respondWith (key value : Bytes) : CallAction :=
  .received (.sandbox { sampleSysCall .txResponse [] with
    response := some ⟨.ok, [], [], ⟨[(key, value)], List.nodup_singleton _⟩, .empty, []⟩ }
    .listed .listed)

def runNested : List CallAction :=
  [callOther, respondWith (text "other#k") (text "v"), .ret ⟨⟨0, [], [], 0, []⟩, .normal, .success⟩,
    respondWith (text "fact#k") (text "w")]

/-- A call of another contract: each contract wrote under its own name. -/
theorem writes_owned_nested :
    ∃ t, Reach (loggedStep .sample (.sample version2312)) Free (sampleTransaction.stack, []) t ∧
      (WriteFrame.sample version2312).of t.1.store (text "other") (text "k") = some (text "v") ∧
      (WriteFrame.sample version2312).of t.1.store (text "fact") (text "k") = some (text "w") ∧
      Originates (.sample version2312) .sample .empty t := by
  obtain ⟨t, ht, hp⟩ := exists_reach (loggedStep .sample (.sample version2312)) Free
    (sampleTransaction.stack, [])
    (fun t => decide ((WriteFrame.sample version2312).of t.1.store (text "other") (text "k") =
        some (text "v") ∧
      (WriteFrame.sample version2312).of t.1.store (text "fact") (text "k") = some (text "w")))
    runNested (by decide)
  obtain ⟨hother, hfact⟩ := of_decide_eq_true hp
  exact ⟨t, ht, hother, hfact, writes_owned _ _ (.sample version2312) _ _ _ _ _ ht⟩

/-- **Iterators leave no trace in the write set**: if a call of a contract ends with a success and
    the write map of its response covers the keys that were brought for this contract before, then
    the write set holds, under the name of the contract, what this map says and otherwise what was
    there at the start of the transaction. -/
theorem iterators_transparent (P : Protocol) (S : TxSimContext σ κ η) (W : WriteFrame S)
    (call : Invocation) (connected : Bool) (gasUsed : UInt64) (chainId : Bytes) (s₀ : σ)
    {t : CallStack σ κ η × WriteLog}
    (h : Reach (loggedStep P S) Free
      ((Transaction.start P S call connected gasUsed chainId s₀).stack, []) t)
    {m : DockerVMMessage} {resp : TxResponse} (hresp : m.response = some resp)
    (hcover : ∀ e, (t.1.runs, e) ∈ t.2 → Entry.Accepted W.toWriteSet P t.1.runs e →
      ∃ e' ∈ resp.writeMap.entries, Entry.storedKey P t.1.runs e' = Entry.storedKey P t.1.runs e)
    {ordRead ordWrite : MapOrder} {s' : CallStack σ κ η} {sent : Option DockerVMMessage}
    (hact : t.1.act P S (.received (.sandbox m ordRead ordWrite)) = some (s', sent))
    {result : ContractResult} {ty : ExecOrderTxType} {st : RuntimeState σ κ η}
    (hret : s'.loop = .returned result ty st) (hok : result.code = 0) (k : Bytes) :
    W.of s'.store t.1.runs k =
      (lastWrite (Entry.storedKey P t.1.runs) Prod.snd k (ordWrite.enum resp.writeMap)).or
        (W.of s₀ t.1.runs k) := by
  have horigin : Originates W P s₀ t :=
    h.inv (I := Originates W P s₀) (originates_start W call connected gasUsed chainId s₀)
      fun hI _ hstep => hI.step hstep
  obtain ⟨resp', hresp', hputs⟩ := act_success (W := W) hact hret hok
  cases hresp.symm.trans hresp'
  rw [hputs, if_pos rfl]
  rcases hlast : lastWrite (Entry.storedKey P t.1.runs) Prod.snd k (ordWrite.enum resp.writeMap)
    with _ | v
  · rcases horigin t.1.runs k with heq | ⟨e, he, hacc, hkey, -⟩
    · rw [heq]
    · -- the key was brought before, so the response has it
      obtain ⟨e', he', hkey'⟩ := hcover e he hacc
      have hsome := WriteLoop.last_isSome (L := mergeLoop W.toWriteSet P t.1.runs)
        ((ordWrite.perm resp.writeMap).mem_iff.2 he')
      have hk : (mergeLoop W.toWriteSet P t.1.runs).key e' = k := hkey'.trans hkey
      have hnone : (mergeLoop W.toWriteSet P t.1.runs).last k (ordWrite.enum resp.writeMap) = none :=
        hlast
      rw [hk, hnone] at hsome
      cases hsome
  · rfl

/-- The write map of a request for an iterator has one entry, for concrete runs. -/
def Protocol.oneWrite : Protocol :=
  { Protocol.sample with
    unmarshalWriteMap := fun b => (none, ⟨[(text "fact#k", b)], List.nodup_singleton _⟩) }

/-- The value sent with the request for an iterator is replaced by that of the response. -/
theorem iterators_transparent_one :
    ∃ t s', Reach (loggedStep .oneWrite (.sample version2312)) Free (sampleTransaction.stack, []) t ∧
      (WriteFrame.sample version2312).of t.1.store (text "fact") (text "k") = some (text "x") ∧
      (∃ sent, t.1.act .oneWrite (.sample version2312) (respondWith (text "fact#k") (text "w")) =
        some (s', sent)) ∧
      ∀ k, (WriteFrame.sample version2312).of s'.store (text "fact") k =
        if text "k" = k then some (text "w") else none := by
  obtain ⟨t, ht, hp⟩ := exists_reach (loggedStep .oneWrite (.sample version2312)) Free
    (sampleTransaction.stack, [])
    (fun t => decide (t.1.runs = text "fact" ∧ t.2 = [(text "fact", (text "fact#k", text "x"))] ∧
      (WriteFrame.sample version2312).of t.1.store (text "fact") (text "k") = some (text "x")) &&
      (t.1.act .oneWrite (.sample version2312) (respondWith (text "fact#k") (text "w"))).any fun r =>
        match r.1.loop with
        | .returned result _ _ => decide (result.code = 0)
        | .running .. => false)
    [createIter] (by decide)
  obtain ⟨hstate, hact⟩ := Bool.and_eq_true_iff.1 hp
  obtain ⟨hruns, hlog, hbefore⟩ := of_decide_eq_true hstate
  obtain ⟨⟨s', sent⟩, hact, hreturned⟩ := (Option.any_eq_true _ _).1 hact
  refine ⟨t, s', ht, hbefore, ⟨sent, hact⟩, fun k => ?_⟩
  rcases hloop : s'.loop with _ | ⟨result, ty, st⟩
  · simp [hloop] at hreturned
  · have hcode : result.code = 0 := by simpa [hloop] using hreturned
    have hof := iterators_transparent .oneWrite (.sample version2312) (.sample version2312) .sample
      true 0 (text "chain1") .empty ht rfl (fun e he _ => ?_) hact hloop hcode k
    · rw [hruns] at hof
      exact hof.trans Option.or_none
    · rw [hlog, hruns, List.mem_singleton] at he
      cases he
      exact ⟨_, List.mem_cons_self, rfl⟩

end VmEngine.Runtime
