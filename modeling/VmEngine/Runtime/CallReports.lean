/-
  The type and the events of a transaction are those of its history.

  `type_of_transaction`: an iterator was used by the contract, or below it through calls
  that all succeeded.  `events_of_transaction`: the events sent by the contract and by
  those below it through calls that all succeeded, in the order in which they were sent.
  The second rests on an order between instances: while a callee is on the stack, what
  counts for its callers was emitted before what counts for it (`Later`).
-/
import VmEngine.Runtime.CallTree
import VmEngine.Lib.Edges
import VmEngine.Lib.Indexed

namespace VmEngine.Runtime

open Relation

variable {σ κ η : Type} {P : Protocol} {S : TxSimContext σ κ η}

/-! ## What a history gives to an instance -/

namespace History
variable {h : History} {x p q : ℕ}

/-- The instance did not return to a caller with a success. -/
def Open (h : History) (x : ℕ) : Prop := ∀ p, (p, x) ∉ h.served

/-- An instance that did not return counts for itself only. -/
theorem Open.counts_iff (hx : h.Open x) : h.Counts p x ↔ p = x := by
  constructor
  · exact eq_of_reaches hx
  · rintro rfl
    exact .refl

theorem counts_serve :
    (h.serve p q).Counts = ReflTransGen (AddEdge (fun a b => (a, b) ∈ h.served) p q) := by
  have hedge : (fun a b => (a, b) ∈ h.served ++ [(p, q)]) =
      AddEdge (fun a b => (a, b) ∈ h.served) p q := by
    funext a b
    simp [AddEdge]
  show ReflTransGen (fun a b => (a, b) ∈ h.served ++ [(p, q)]) = _
  rw [hedge]

theorem counts_serve_of_ne (hp : h.Open p) (hx : x ≠ p) (y : ℕ) :
    (h.serve p q).Counts x y ↔ h.Counts x y := by
  rw [counts_serve]
  exact reaches_addEdge_of_ne hp hx

theorem counts_serve_self (y : ℕ) : (h.serve p q).Counts p y ↔ h.Counts p y ∨ h.Counts q y := by
  rw [counts_serve]
  exact reaches_addEdge_self

/-! ### Types -/

theorem kind_cases (h : History) (x : ℕ) : h.kind x = .normal ∨ h.kind x = .iterator := by
  unfold kind
  split_ifs
  · exact .inr rfl
  · exact .inl rfl

theorem kind_eq_iterator : h.kind x = .iterator ↔ ∃ q ∈ h.iterated, h.Counts x q := by
  unfold kind
  split_ifs with hx <;> simp [hx]

theorem kind_congr {h' : History} {x y : ℕ}
    (hiff : (∃ q ∈ h'.iterated, h'.Counts y q) ↔ ∃ q ∈ h.iterated, h.Counts x q) :
    h'.kind y = h.kind x := by
  unfold kind
  by_cases hx : ∃ q ∈ h.iterated, h.Counts x q
  · rw [if_pos (hiff.2 hx), if_pos hx]
  · rw [if_neg (mt hiff.1 hx), if_neg hx]

theorem kind_iterate_self (h : History) (x : ℕ) : (h.iterate x).kind x = .iterator :=
  kind_eq_iterator.2 ⟨x, List.mem_append_right _ List.mem_cons_self, .refl⟩

theorem kind_iterate_of_ne (hx : h.Open x) (hp : p ≠ x) : (h.iterate x).kind p = h.kind p := by
  refine kind_congr ⟨?_, ?_⟩
  · rintro ⟨q, hq, hcount⟩
    rcases List.mem_append.1 hq with hq | hq
    · exact ⟨q, hq, hcount⟩
    · rw [List.mem_singleton.1 hq] at hcount
      exact absurd (hx.counts_iff.1 hcount) hp
  · rintro ⟨q, hq, hcount⟩
    exact ⟨q, List.mem_append_left _ hq, hcount⟩

theorem kind_serve_of_ne (hp : h.Open p) (hx : x ≠ p) : (h.serve p q).kind x = h.kind x := by
  refine kind_congr ?_
  simp only [counts_serve_of_ne hp hx]
  rfl

/-- A caller takes over a special type of its callee. -/
theorem kind_serve_self :
    (h.serve p q).kind p = if h.kind q ≠ .normal then h.kind q else h.kind p := by
  rcases h.kind_cases q with hq | hq
  · rw [hq, if_neg (by decide)]
    have hnone : ¬ ∃ y ∈ h.iterated, h.Counts q y := by
      rw [← kind_eq_iterator, hq]
      decide
    refine kind_congr ?_
    simp only [counts_serve_self, and_or_left, exists_or]
    exact or_iff_left hnone
  · rw [hq, if_pos (by decide)]
    obtain ⟨y, hy, hcount⟩ := kind_eq_iterator.1 hq
    exact kind_eq_iterator.2 ⟨y, hy, (counts_serve_self y).2 (.inr hcount)⟩

/-! ### Events -/

theorem within_iff {e : ℕ × ContractEvent} : h.within x e = true ↔ h.Counts x e.1 := by
  simp [within]

theorem within_eq_false {e : ℕ × ContractEvent} : h.within x e = false ↔ ¬ h.Counts x e.1 :=
  Bool.eq_false_iff.trans (not_congr within_iff)

theorem events_emit (h : History) (x : ℕ) (es : List ContractEvent) (p : ℕ) :
    (h.emit x es).events p =
      h.events p ++ ((es.map fun e => (x, e)).filter (h.within p)).map Prod.snd := by
  show ((h.emitted ++ es.map fun e => (x, e)).filter (h.within p)).map Prod.snd = _
  rw [List.filter_append, List.map_append]
  rfl

theorem events_emit_self (h : History) (x : ℕ) (es : List ContractEvent) :
    (h.emit x es).events x = h.events x ++ es := by
  rw [events_emit, List.filter_eq_self.2, List.map_map]
  · exact congrArg _ (List.map_id es)
  · intro e he
    obtain ⟨e', -, rfl⟩ := List.mem_map.1 he
    exact within_iff.2 .refl

theorem events_emit_of_ne (hx : h.Open x) (hp : p ≠ x) (es : List ContractEvent) :
    (h.emit x es).events p = h.events p := by
  rw [events_emit, List.filter_eq_nil_iff.2, List.map_nil, List.append_nil]
  intro e he hwithin
  obtain ⟨e', -, rfl⟩ := List.mem_map.1 he
  exact hp (hx.counts_iff.1 (within_iff.1 hwithin))

theorem events_serve_of_ne (hp : h.Open p) (hx : x ≠ p) : (h.serve p q).events x = h.events x := by
  have hwithin : (h.serve p q).within x = h.within x := by
    funext e
    rw [Bool.eq_iff_iff, within_iff, within_iff, counts_serve_of_ne hp hx]
  unfold events
  rw [hwithin]
  rfl

/-- All events of the first instance were emitted after all events of the second. -/
def Later (h : History) (q p : ℕ) : Prop :=
  ∃ n ≤ h.emitted.length,
    (∀ e ∈ h.emitted.take n, ¬ h.Counts q e.1) ∧ ∀ e ∈ h.emitted.drop n, ¬ h.Counts p e.1

/-- A caller takes over the events of its callee. -/
theorem events_serve_self (hlater : h.Later q p) :
    (h.serve p q).events p = h.events p ++ h.events q := by
  obtain ⟨n, -, hq, hp⟩ := hlater
  have hwithin : (h.serve p q).within p = fun e => h.within p e || h.within q e := by
    funext e
    rw [Bool.eq_iff_iff, Bool.or_eq_true, within_iff, within_iff, within_iff, counts_serve_self]
  unfold events
  rw [hwithin, ← List.map_append]
  exact congrArg _ (filter_or_of_cut (fun e he => within_eq_false.2 (hq e he))
    fun e he => within_eq_false.2 (hp e he))

theorem Later.emit (hlater : h.Later q p) (hx : h.Open x) (hp : p ≠ x) (es : List ContractEvent) :
    (h.emit x es).Later q p := by
  obtain ⟨n, hle, hn, hn'⟩ := hlater
  refine ⟨n, hle.trans (List.length_append ▸ Nat.le_add_right _ _), fun e he => ?_, fun e he => ?_⟩
  · have htake : (h.emit x es).emitted.take n = h.emitted.take n :=
      List.take_append_of_le_length hle
    rw [htake] at he
    exact hn e he
  · have hdrop : (h.emit x es).emitted.drop n = h.emitted.drop n ++ es.map fun e => (x, e) :=
      List.drop_append_of_le_length hle
    rw [hdrop] at he
    rcases List.mem_append.1 he with he | he
    · exact hn' e he
    · obtain ⟨e', -, rfl⟩ := List.mem_map.1 he
      exact fun hcount => hp (hx.counts_iff.1 hcount)

/-- The caller takes the place of the callee. -/
theorem Later.serve {r : ℕ} (hp : h.Open p) (hr : r ≠ p) (hlater : h.Later p r) (hlater' : h.Later q r) :
    (h.serve p q).Later p r := by
  obtain ⟨n, hle, hn, hn'⟩ := hlater
  obtain ⟨m, -, hm, hm'⟩ := hlater'
  refine ⟨min n m, (Nat.min_le_left n m).trans hle, fun e he => ?_, fun e he => ?_⟩
  · rw [counts_serve_self]
    rintro (hcount | hcount)
    · exact hn e (List.take_subset_take_left _ (Nat.min_le_left n m) he) hcount
    · exact hm e (List.take_subset_take_left _ (Nat.min_le_right n m) he) hcount
  · rw [counts_serve_of_ne hp hr]
    rcases Nat.le_total n m with hle | hle
    · rw [Nat.min_eq_left hle] at he
      exact hn' e he
    · rw [Nat.min_eq_right hle] at he
      exact hm' e he

theorem Later.serve_of_ne {a b : ℕ} (hp : h.Open p) (ha : a ≠ p) (hb : b ≠ p) (hlater : h.Later a b) :
    (h.serve p q).Later a b := by
  obtain ⟨n, hle, hn, hn'⟩ := hlater
  refine ⟨n, hle, fun e he => ?_, fun e he => ?_⟩
  · rw [counts_serve_of_ne hp ha]
    exact hn e he
  · rw [counts_serve_of_ne hp hb]
    exact hn' e he

/-! ### New instances -/

/-- An instance that served nobody counts nobody else. -/
theorem eq_of_counts (hx : ∀ q, (x, q) ∉ h.served) (hcount : h.Counts x q) : q = x := by
  rcases ReflTransGen.cases_head hcount with heq | ⟨z, hz, -⟩
  · exact heq.symm
  · exact absurd hz (hx z)

theorem kind_of_new (hx : ∀ q, (x, q) ∉ h.served) (hiter : x ∉ h.iterated) : h.kind x = .normal := by
  rcases h.kind_cases x with hk | hk
  · exact hk
  · obtain ⟨q, hq, hcount⟩ := kind_eq_iterator.1 hk
    exact absurd (eq_of_counts hx hcount ▸ hq) hiter

theorem not_counts_of_new (hx : ∀ q, (x, q) ∉ h.served) (hemit : ∀ e ∈ h.emitted, e.1 ≠ x) :
    ∀ e ∈ h.emitted, ¬ h.Counts x e.1 :=
  fun e he hcount => hemit e he (eq_of_counts hx hcount)

end History

/-! ## Instances on the stack -/

/-- The instances on the stack, the running one first. -/
def CallStack.ids (s : CallStack σ κ η) : List ℕ := s.id :: s.callers.map Caller.id

/-- Instances are new when they are pushed, and come back to the stack never after they
    returned. -/
structure TreeInv (t : CallStack σ κ η × History) : Prop where
  nodup : t.1.ids.Nodup
  ids : ∀ x ∈ t.1.ids, x < t.1.fresh
  callers : ∀ p q, (p, q) ∈ t.2.served → p < t.1.fresh
  callees : ∀ p q, (p, q) ∈ t.2.served → q < t.1.fresh ∧ q ∉ t.1.ids
  iterated : ∀ x ∈ t.2.iterated, x < t.1.fresh
  emitted : ∀ e ∈ t.2.emitted, e.1 < t.1.fresh

theorem recordedStep_eq_some {t t' : CallStack σ κ η × History} {a : CallAction}
    (h : recordedStep P S t a = some t') :
    ∃ sent, ActStep P S t.1 a t'.1 sent ∧ t'.2 = t.2.add S.txId t.1 a t'.1 := by
  obtain ⟨⟨s', sent⟩, hact, rfl⟩ := Option.map_eq_some_iff.1 h
  exact ⟨sent, act_step hact, rfl⟩

namespace TreeInv
variable {t t' : CallStack σ κ η × History}

theorem isOpen (h : TreeInv t) {x : ℕ} (hx : x ∈ t.1.ids) : t.2.Open x :=
  fun p hp => (h.callees p x hp).2 hx

variable {c : Caller}

theorem ne_id (h : TreeInv t) (hc : c ∈ t.1.callers) : c.id ≠ t.1.id := by
  intro heq
  exact (List.nodup_cons.1 h.nodup).1 (heq ▸ List.mem_map_of_mem hc)

theorem isOpen_caller (h : TreeInv t) (hc : c ∈ t.1.callers) : t.2.Open c.id :=
  h.isOpen (List.mem_cons_of_mem _ (List.mem_map_of_mem hc))

theorem caller_ne (h : TreeInv t) {c' : Caller} {cs : List Caller}
    (hcallers : t.1.callers = c :: cs) (hc' : c' ∈ cs) : c'.id ≠ c.id := by
  have hnodup := (List.nodup_cons.1 h.nodup).2
  rw [hcallers, List.map_cons] at hnodup
  intro heq
  exact (List.nodup_cons.1 hnodup).1 (heq ▸ List.mem_map_of_mem hc')

theorem new_callers (h : TreeInv t) (q : ℕ) : (t.1.fresh, q) ∉ t.2.served :=
  fun hmem => Nat.lt_irrefl _ (h.callers _ q hmem)

theorem new_iterated (h : TreeInv t) : t.1.fresh ∉ t.2.iterated :=
  fun hmem => Nat.lt_irrefl _ (h.iterated _ hmem)

theorem new_emitted (h : TreeInv t) : ∀ e ∈ t.2.emitted, e.1 ≠ t.1.fresh :=
  fun e he heq => Nat.lt_irrefl _ (heq ▸ h.emitted e he)

theorem id_lt (h : TreeInv t) : t.1.id < t.1.fresh := h.ids _ List.mem_cons_self

/-- A turn changes no instance. -/
theorem turn (h : TreeInv t) {r : Received} {loop : InvokeState σ κ η} (txId : Bytes) :
    TreeInv ({ t.1 with loop := loop },
      if r.iterates then t.2.iterate t.1.id
      else if loop.succeeded then t.2.emit t.1.id (r.events txId) else t.2) := by
  split_ifs
  · refine { h with iterated := fun x hx => ?_ }
    rcases List.mem_append.1 hx with hx | hx
    · exact h.iterated x hx
    · rw [List.mem_singleton.1 hx]
      exact h.id_lt
  · refine { h with emitted := fun e he => ?_ }
    rcases List.mem_append.1 he with he | he
    · exact h.emitted e he
    · obtain ⟨e', -, rfl⟩ := List.mem_map.1 he
      exact h.id_lt
  · exact { h with }

/-- A callee leaves the stack. -/
theorem ret (h : TreeInv t) {cs : List Caller} (hcallers : t.1.callers = c :: cs)
    {loop : InvokeState σ κ η} :
    TreeInv (⟨c.id, c.invocation, loop, cs, t.1.fresh⟩,
      if t.1.loop.succeeded then t.2.serve c.id t.1.id else t.2) := by
  have hids : t.1.ids = t.1.id :: (c.id :: cs.map Caller.id) := by
    rw [CallStack.ids, hcallers, List.map_cons]
  have hnodup := h.nodup
  have hlt := h.ids
  have hcallees := h.callees
  rw [hids] at hnodup hlt hcallees
  obtain ⟨hid, htail⟩ := List.nodup_cons.1 hnodup
  have hold : TreeInv ((⟨c.id, c.invocation, loop, cs, t.1.fresh⟩ : CallStack σ κ η), t.2) := by
    refine ⟨htail, fun x hx => hlt x (List.mem_cons_of_mem _ hx), h.callers, fun p q hpq => ?_,
      h.iterated, h.emitted⟩
    exact ⟨(hcallees p q hpq).1, fun hmem => (hcallees p q hpq).2 (List.mem_cons_of_mem _ hmem)⟩
  split_ifs
  · refine { hold with callers := fun p q hpq => ?_, callees := fun p q hpq => ?_ }
    · rcases List.mem_append.1 hpq with hpq | hpq
      · exact h.callers p q hpq
      · cases List.mem_singleton.1 hpq
        exact hold.id_lt
    · rcases List.mem_append.1 hpq with hpq | hpq
      · exact hold.callees p q hpq
      · cases List.mem_singleton.1 hpq
        exact ⟨h.id_lt, hid⟩
  · exact hold

theorem step {a : CallAction} (h : TreeInv t) (hstep : recordedStep P S t a = some t') :
    TreeInv t' := by
  obtain ⟨sent, hact, hadd⟩ := recordedStep_eq_some hstep
  obtain ⟨s', h'⟩ := t'
  dsimp only at hact hadd
  subst hadd
  cases hact with
  | turn hloop hturn => exact h.turn S.txId
  | call st hloop hread =>
    refine ⟨?_, ?_, ?_, ?_, ?_, ?_⟩
    · refine List.nodup_cons.2 ⟨fun hmem => ?_, h.nodup⟩
      exact Nat.lt_irrefl _ (h.ids _ hmem)
    · intro x hx
      rcases List.mem_cons.1 hx with rfl | hx
      · exact Nat.lt_succ_self _
      · exact Nat.lt_succ_of_lt (h.ids x hx)
    · exact fun p q hpq => Nat.lt_succ_of_lt (h.callers p q hpq)
    · intro p q hpq
      obtain ⟨hlt, hnot⟩ := h.callees p q hpq
      refine ⟨Nat.lt_succ_of_lt hlt, fun hmem => ?_⟩
      rcases List.mem_cons.1 hmem with rfl | hmem
      · exact Nat.lt_irrefl _ hlt
      · exact hnot hmem
    · exact fun x hx => Nat.lt_succ_of_lt (h.iterated x hx)
    · exact fun e he => Nat.lt_succ_of_lt (h.emitted e he)
  | @ret out result ty st c cs reply ty' hloop hcallers htype hfinished =>
    rw [History.add_ret hcallers]
    exact h.ret hcallers

end TreeInv

/-! ## Types -/

/-- The type that a call of `Invoke` has, or reports if it succeeds. -/
def InvokeState.HasType (k : ExecOrderTxType) : InvokeState σ κ η → Prop
  | .running _ ty _ => ty = k
  | .returned result ty _ => ty = if result.code = 0 then k else .normal

/-- The types on the stack are those that the history gives. -/
structure TypeInv (t : CallStack σ κ η × History) : Prop where
  loop : t.1.loop.HasType (t.2.kind t.1.id)
  callers : ∀ c ∈ t.1.callers, c.specialTxType = t.2.kind c.id

theorem Begun.hasType {loop : InvokeState σ κ η} (h : Begun loop) : loop.HasType .normal := by
  cases h with
  | runs hevent => rfl
  | failed hcode => exact (if_neg hcode).symm

theorem passes_returned {out : CallOutcome} {result : ContractResult} {ty : ExecOrderTxType}
    {st : RuntimeState σ κ η} :
    (InvokeState.returned result ty st).passes out = true ↔
      out.result = result ∧ out.txType = ty ∧ (out.code = .success ↔ result.code = 0) := by
  simp [InvokeState.passes]

theorem succeeded_returned {result : ContractResult} {ty : ExecOrderTxType}
    {st : RuntimeState σ κ η} :
    (InvokeState.returned result ty st).succeeded = true ↔ result.code = 0 := by
  simp [InvokeState.succeeded]

variable {a : CallAction} {t t' : CallStack σ κ η × History}

theorem TypeInv.step (hJ : TreeInv t) (h : TypeInv t) (hok : PassesOn t a)
    (hstep : recordedStep P S t a = some t') : TypeInv t' := by
  obtain ⟨sent, hact, hadd⟩ := recordedStep_eq_some hstep
  obtain ⟨s', h'⟩ := t'
  dsimp only at hact hadd
  subst hadd
  have hloop' := h.loop
  have hopen := hJ.isOpen (x := t.1.id) List.mem_cons_self
  cases hact with
  | @turn r g ty st u hloop hturn =>
    have hturned := hturn.turned
    obtain ⟨loop, answer⟩ := u
    rw [hloop] at hloop'
    show TypeInv (_, if r.iterates then t.2.iterate t.1.id
      else if loop.succeeded then t.2.emit t.1.id (r.events S.txId) else t.2)
    cases hturned with
    | goesOn hr hevent =>
      rw [hr]
      exact ⟨hloop', h.callers⟩
    | iterates hr hevent =>
      rw [hr]
      refine ⟨(History.kind_iterate_self ..).symm, fun c hc => ?_⟩
      exact (h.callers c hc).trans (History.kind_iterate_of_ne hopen (hJ.ne_id hc)).symm
    | fails hr hcode =>
      rw [hr, if_neg (by decide), if_neg (mt succeeded_returned.1 hcode)]
      exact ⟨(if_neg hcode).symm, h.callers⟩
    | succeeds hr hcode hevent =>
      rw [hr, if_neg (by decide), if_pos (succeeded_returned.2 hcode)]
      exact ⟨Eq.trans hloop' (if_pos hcode).symm, h.callers⟩
  | call st hloop hread =>
    rw [hloop] at hloop'
    have hnew := History.kind_of_new hJ.new_callers hJ.new_iterated
    refine ⟨?_, fun c hc => ?_⟩
    · show InvokeState.HasType (t.2.kind t.1.fresh) _
      rw [hnew]
      exact (beforeLoop_begun _ _ _ rfl).hasType
    · rcases List.mem_cons.1 hc with rfl | hc
      · exact hloop'
      · exact h.callers c hc
  | @ret out result ty st c cs reply ty' hloop hcallers htype hfinished =>
    rw [hloop] at hloop'
    have hpass : t.1.loop.passes out = true := hok
    rw [hloop] at hpass
    obtain ⟨-, hty, -⟩ := passes_returned.1 hpass
    have hc : c ∈ t.1.callers := hcallers ▸ List.mem_cons_self
    rw [hty, h.callers c hc] at htype
    rw [History.add_ret hcallers, hloop]
    by_cases hcode : result.code = 0
    · rw [if_pos (succeeded_returned.2 hcode)]
      have hkind : ty = t.2.kind t.1.id := Eq.trans hloop' (if_pos hcode)
      rw [hkind] at htype
      refine ⟨htype.trans History.kind_serve_self.symm, fun c' hc' => ?_⟩
      have hmem : c' ∈ t.1.callers := hcallers ▸ List.mem_cons_of_mem c hc'
      exact (h.callers c' hmem).trans
        (History.kind_serve_of_ne (hJ.isOpen_caller hc) (hJ.caller_ne hcallers hc')).symm
    · rw [if_neg (mt succeeded_returned.1 hcode)]
      have hkind : ty = .normal := Eq.trans hloop' (if_neg hcode)
      rw [hkind, if_neg (by decide)] at htype
      exact ⟨htype, fun c' hc' => h.callers c' (hcallers ▸ List.mem_cons_of_mem c hc')⟩

theorem treeInv_start (call : Invocation) (connected : Bool) (gasUsed : UInt64) (chainId : Bytes)
    (s₀ : σ) :
    TreeInv ((Transaction.start P S call connected gasUsed chainId s₀).stack, .empty) := by
  refine ⟨List.nodup_singleton _, ?_, ?_, ?_, ?_, ?_⟩
  · intro x hx
    rw [List.mem_singleton.1 hx]
    exact Nat.one_pos
  all_goals
    intros
    rename_i hmem
    cases hmem

theorem treeInv_of_reach {call : Invocation} {connected : Bool} {gasUsed : UInt64} {chainId : Bytes}
    {s₀ : σ} (h : Reach (recordedStep P S) PassesOn
      ((Transaction.start P S call connected gasUsed chainId s₀).stack, .empty) t) : TreeInv t :=
  h.inv (I := TreeInv) (treeInv_start call connected gasUsed chainId s₀) fun hI _ hstep =>
    hI.step hstep

/-- **The type of a transaction**: whenever a call of `Invoke` has returned, the first one of a
    transaction or one for a contract that another one called, it reports the iterator type exactly
    if it succeeded and its contract, or one below it through calls that all succeeded, used an
    iterator; otherwise it reports the normal type. -/
theorem type_of_transaction (P : Protocol) (S : TxSimContext σ κ η) (call : Invocation)
    (connected : Bool) (gasUsed : UInt64) (chainId : Bytes) (s₀ : σ)
    {t : CallStack σ κ η × History}
    (h : Reach (recordedStep P S) PassesOn
      ((Transaction.start P S call connected gasUsed chainId s₀).stack, .empty) t)
    {result : ContractResult} {ty : ExecOrderTxType} {st : RuntimeState σ κ η}
    (hret : t.1.loop = .returned result ty st) :
    (ty = .iterator ↔ result.code = 0 ∧ ∃ q ∈ t.2.iterated, t.2.Counts t.1.id q) ∧
      (ty = .normal ∨ ty = .iterator) := by
  have hstart : TypeInv ((Transaction.start P S call connected gasUsed chainId s₀).stack,
      History.empty) := by
    refine ⟨?_, List.forall_mem_nil _⟩
    rw [History.kind_of_new (fun q => List.not_mem_nil) List.not_mem_nil]
    exact (beforeLoop_begun _ _ _ rfl).hasType
  have hinv : TypeInv t := h.inv_of (I := TypeInv) (J := TreeInv) treeInv_of_reach hstart
    fun hJ hI hok hstep => hI.step hJ hok hstep
  have hty := hinv.loop
  rw [hret] at hty
  by_cases hcode : result.code = 0
  · rw [Eq.trans hty (if_pos hcode)]
    refine ⟨?_, History.kind_cases ..⟩
    rw [History.kind_eq_iterator]
    exact (and_iff_right hcode).symm
  · rw [Eq.trans hty (if_neg hcode)]
    exact ⟨⟨fun h => (by cases h), fun h => absurd h.1 hcode⟩, .inl rfl⟩

/-- A response with one event, for concrete runs. -/
def respondEvent (topic contractName : Bytes) : CallAction :=
  .received (.sandbox { sampleSysCall .txResponse [] with
    response := some ⟨.ok, [], [], .empty, .empty, [⟨topic, contractName, []⟩]⟩ } .listed .listed)

/-- The contract that is called uses an iterator and emits an event, then its caller emits one. -/
def runTree : List CallAction :=
  [callOther, createIter, respondEvent (text "a") (text "other"),
    .ret ⟨⟨0, [], [], 2, [⟨text "a", text "tx1", text "other", []⟩]⟩, .iterator, .success⟩,
    respondEvent (text "b") (text "fact")]

/-- The type of the callee is reported by the caller. -/
theorem type_of_transaction_nested :
    ∃ t, Reach (recordedStep .sample (.sample version2312)) PassesOn
        (sampleTransaction.stack, .empty) t ∧ t.1.id = 0 ∧ t.2.iterated = [1] ∧
      ∃ result st, t.1.loop = .returned result .iterator st ∧ t.2.Counts 0 1 := by
  obtain ⟨t, ht, hp⟩ := exists_reach (recordedStep .sample (.sample version2312)) PassesOn
    (sampleTransaction.stack, .empty)
    (fun t => decide (t.1.id = 0 ∧ t.2.iterated = [1]) &&
      match t.1.loop with
      | .returned _ ty _ => decide (ty = .iterator)
      | .running .. => false) runTree (by decide)
  obtain ⟨hstate, hret⟩ := Bool.and_eq_true_iff.1 hp
  obtain ⟨hid, hiter⟩ := of_decide_eq_true hstate
  rcases hloop : t.1.loop with _ | ⟨result, ty, st⟩
  · simp [hloop] at hret
  · have hty : ty = .iterator := by simpa [hloop] using hret
    obtain ⟨-, q, hq, hcount⟩ := (type_of_transaction .sample (.sample version2312) .sample true 0
      (text "chain1") .empty ht hloop).1.1 hty
    rw [hiter, List.mem_singleton] at hq
    rw [hid, hq] at hcount
    exact ⟨t, ht, hid, hiter, result, st, hty ▸ hloop, hcount⟩

/-! ## Events -/

/-- The events that a call of `Invoke` has collected, or reports if it succeeds. -/
def InvokeState.HasEvents (es : List ContractEvent) : InvokeState σ κ η → Prop
  | .running _ _ st => st.inst.event = es
  | .returned result _ _ => result.code = 0 → result.contractEvent = es

/-- The events on the stack are those that the history gives, and those of a callee are later
    than those of its callers. -/
structure EventInv (t : CallStack σ κ η × History) : Prop where
  loop : t.1.loop.HasEvents (t.2.events t.1.id)
  callers : ∀ c ∈ t.1.callers, c.inst.event = t.2.events c.id
  order : t.1.ids.Pairwise t.2.Later

theorem Begun.hasEvents {loop : InvokeState σ κ η} (h : Begun loop) : loop.HasEvents [] := by
  cases h with
  | runs hevent => exact hevent
  | failed hcode => exact fun h => absurd h hcode

theorem History.events_of_new {h : History} {x : ℕ} (hx : ∀ e ∈ h.emitted, ¬ h.Counts x e.1) :
    h.events x = [] := by
  unfold History.events
  rw [List.filter_eq_nil_iff.2, List.map_nil]
  exact fun e he hwithin => hx e he (History.within_iff.1 hwithin)

theorem History.later_of_new {h : History} {x : ℕ} (hx : ∀ e ∈ h.emitted, ¬ h.Counts x e.1) (p : ℕ) :
    h.Later x p := by
  refine ⟨h.emitted.length, Nat.le_refl _, fun e he => hx e (List.mem_of_mem_take he), ?_⟩
  rw [List.drop_length]
  exact List.forall_mem_nil _

theorem EventInv.emit (hJ : TreeInv t) (h : EventInv t) (es : List ContractEvent) :
    t.1.ids.Pairwise (t.2.emit t.1.id es).Later := by
  have hopen := hJ.isOpen (x := t.1.id) List.mem_cons_self
  have hid := (List.nodup_cons.1 hJ.nodup).1
  obtain ⟨hhead, htail⟩ := List.pairwise_cons.1 h.order
  refine List.pairwise_cons.2 ⟨fun p hp => ?_, htail.imp_of_mem fun _ hp hlater => ?_⟩
  · exact (hhead p hp).emit hopen (fun heq => hid (heq ▸ hp)) es
  · exact hlater.emit hopen (fun heq => hid (heq ▸ hp)) es

theorem EventInv.serve (hJ : TreeInv t) (h : EventInv t) {c : Caller} {cs : List Caller}
    (hcallers : t.1.callers = c :: cs) :
    (c.id :: cs.map Caller.id).Pairwise (t.2.serve c.id t.1.id).Later := by
  have hopen : t.2.Open c.id := hJ.isOpen_caller (hcallers ▸ List.mem_cons_self)
  have hne : ∀ x ∈ cs.map Caller.id, x ≠ c.id := by
    intro x hx
    obtain ⟨c', hc', rfl⟩ := List.mem_map.1 hx
    exact hJ.caller_ne hcallers hc'
  have horder := h.order
  rw [CallStack.ids, hcallers, List.map_cons] at horder
  obtain ⟨htop, hrest⟩ := List.pairwise_cons.1 horder
  obtain ⟨hhead, htail⟩ := List.pairwise_cons.1 hrest
  refine List.pairwise_cons.2 ⟨fun p hp => ?_, htail.imp_of_mem fun ha hb hlater => ?_⟩
  · exact (hhead p hp).serve hopen (hne p hp) (htop p (List.mem_cons_of_mem _ hp))
  · exact hlater.serve_of_ne hopen (hne _ ha) (hne _ hb)

theorem EventInv.step (hv : version2312 ≤ S.blockVersion) (hJ : TreeInv t) (h : EventInv t)
    (hok : PassesOn t a) (hstep : recordedStep P S t a = some t') : EventInv t' := by
  obtain ⟨sent, hact, hadd⟩ := recordedStep_eq_some hstep
  obtain ⟨s', h'⟩ := t'
  dsimp only at hact hadd
  subst hadd
  have hloop' := h.loop
  have hopen := hJ.isOpen (x := t.1.id) List.mem_cons_self
  cases hact with
  | @turn r g ty st u hloop hturn =>
    have hturned := hturn.turned
    obtain ⟨loop, answer⟩ := u
    rw [hloop] at hloop'
    show EventInv (_, if r.iterates then t.2.iterate t.1.id
      else if loop.succeeded then t.2.emit t.1.id (r.events S.txId) else t.2)
    cases hturned with
    | goesOn hr hevent =>
      rw [hr]
      exact ⟨hevent.trans hloop', h.callers, h.order⟩
    | iterates hr hevent =>
      rw [hr]
      exact ⟨hevent.trans hloop', h.callers, h.order⟩
    | fails hr hcode =>
      rw [hr, if_neg (by decide), if_neg (mt succeeded_returned.1 hcode)]
      exact ⟨fun hzero => absurd hzero hcode, h.callers, h.order⟩
    | succeeds hr hcode hevent =>
      rw [hr, if_neg (by decide), if_pos (succeeded_returned.2 hcode)]
      refine ⟨fun _ => ?_, fun c hc => ?_, h.emit hJ _⟩
      · rw [hevent, History.events_emit_self]
        exact congrArg (· ++ _) hloop'
      · exact (h.callers c hc).trans (History.events_emit_of_ne hopen (hJ.ne_id hc) _).symm
  | call st hloop hread =>
    rw [hloop] at hloop'
    have hnew := History.not_counts_of_new hJ.new_callers hJ.new_emitted
    refine ⟨?_, fun c hc => ?_, ?_⟩
    · show InvokeState.HasEvents (t.2.events t.1.fresh) _
      rw [History.events_of_new hnew]
      exact (beforeLoop_begun _ _ _ rfl).hasEvents
    · rcases List.mem_cons.1 hc with rfl | hc
      · exact hloop'
      · exact h.callers c hc
    · exact List.pairwise_cons.2 ⟨fun p _ => History.later_of_new hnew p, h.order⟩
  | @ret out result ty st c cs reply ty' hloop hcallers htype hfinished =>
    rw [hloop] at hloop'
    have hpass : t.1.loop.passes out = true := hok
    rw [hloop] at hpass
    obtain ⟨hresult, -, hsuccess⟩ := passes_returned.1 hpass
    have hc : c ∈ t.1.callers := hcallers ▸ List.mem_cons_self
    have hmem : ∀ c' ∈ cs, c' ∈ t.1.callers := fun c' hc' => hcallers ▸ List.mem_cons_of_mem c hc'
    have horder := h.order
    rw [CallStack.ids, hcallers, List.map_cons] at horder
    rw [History.add_ret hcallers, hloop]
    by_cases hcode : result.code = 0
    · rw [if_pos (succeeded_returned.2 hcode)]
      refine ⟨?_, fun c' hc' => ?_, h.serve hJ hcallers⟩
      · have hlater := (List.pairwise_cons.1 horder).1 c.id List.mem_cons_self
        refine (hfinished.served hv (hsuccess.2 hcode)).trans ?_
        rw [hresult, hloop' hcode, h.callers c hc]
        exact (History.events_serve_self hlater).symm
      · exact (h.callers c' (hmem c' hc')).trans
          (History.events_serve_of_ne (hJ.isOpen_caller hc) (hJ.caller_ne hcallers hc')).symm
    · rw [if_neg (mt succeeded_returned.1 hcode)]
      refine ⟨?_, fun c' hc' => h.callers c' (hmem c' hc'), (List.pairwise_cons.1 horder).2⟩
      exact (hfinished.failed (mt hsuccess.1 hcode)).trans (h.callers c hc)

/-- **The events of a transaction**: since version 2312, a call of `Invoke` that succeeded reports
    exactly the events that its contract, and the contracts below it through calls that all
    succeeded, sent with their responses, each once and in the order of these responses. -/
theorem events_of_transaction (P : Protocol) (S : TxSimContext σ κ η)
    (hv : version2312 ≤ S.blockVersion) (call : Invocation) (connected : Bool) (gasUsed : UInt64)
    (chainId : Bytes) (s₀ : σ) {t : CallStack σ κ η × History}
    (h : Reach (recordedStep P S) PassesOn
      ((Transaction.start P S call connected gasUsed chainId s₀).stack, .empty) t)
    {result : ContractResult} {ty : ExecOrderTxType} {st : RuntimeState σ κ η}
    (hret : t.1.loop = .returned result ty st) (hcode : result.code = 0) :
    result.contractEvent = t.2.events t.1.id := by
  have hstart : EventInv ((Transaction.start P S call connected gasUsed chainId s₀).stack,
      History.empty) := by
    refine ⟨?_, List.forall_mem_nil _, List.pairwise_singleton _ _⟩
    rw [History.events_of_new (List.forall_mem_nil _)]
    exact (beforeLoop_begun _ _ _ rfl).hasEvents
  have hinv : EventInv t := h.inv_of (I := EventInv) (J := TreeInv) treeInv_of_reach hstart
    fun hJ hI hok hstep => hI.step hv hJ hok hstep
  have hevents := hinv.loop
  rw [hret] at hevents
  exact hevents hcode

/-- The event of the callee comes first. -/
theorem events_of_transaction_nested :
    ∃ t, Reach (recordedStep .sample (.sample version2312)) PassesOn
        (sampleTransaction.stack, .empty) t ∧ t.1.id = 0 ∧
      t.2.events 0 =
        [⟨text "a", text "tx1", text "other", []⟩, ⟨text "b", text "tx1", text "fact", []⟩] := by
  obtain ⟨t, ht, hp⟩ := exists_reach (recordedStep .sample (.sample version2312)) PassesOn
    (sampleTransaction.stack, .empty)
    (fun t => decide (t.1.id = 0) &&
      match t.1.loop with
      | .returned result _ _ => decide (result.code = 0 ∧ result.contractEvent =
          [⟨text "a", text "tx1", text "other", []⟩, ⟨text "b", text "tx1", text "fact", []⟩])
      | .running .. => false) runTree (by decide)
  obtain ⟨hstate, hret⟩ := Bool.and_eq_true_iff.1 hp
  have hid := of_decide_eq_true hstate
  rcases hloop : t.1.loop with _ | ⟨result, ty, st⟩
  · simp [hloop] at hret
  · rw [hloop] at hret
    obtain ⟨hcode, hevents⟩ := of_decide_eq_true hret
    have hof := events_of_transaction .sample (.sample version2312) (by decide) .sample true 0
      (text "chain1") .empty ht hloop hcode
    rw [hid, hevents] at hof
    exact ⟨t, ht, hid, hof.symm⟩

end VmEngine.Runtime
