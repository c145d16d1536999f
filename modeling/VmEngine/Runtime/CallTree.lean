/-
  What a transaction reports about its calls: its type and its events.

  A call of `Invoke` reports a special type if its contract used iterators, and the
  events of its contract.  A caller takes both over from a callee that succeeded; a
  callee that failed reports the normal type and no events.

  The history of a transaction records who used iterators, which events were emitted
  and which calls succeeded; `kind` and `events` say what an instance should report in
  these terms.  `Turned` and `Begun` are what a turn and a call do to the type and the
  events; that these are those of the history is the subject of `CallReports`.
-/
import VmEngine.Runtime.CallStack
import Mathlib.Logic.Relation

namespace VmEngine.Runtime

open Relation

variable {σ κ η : Type} {P : Protocol} {S : TxSimContext σ κ η}

/-! ## History -/

structure History where
  /-- The instances whose contract asked for an iterator or a step of one. -/
  iterated : List ℕ
  /-- The events of the responses that were accepted, each with the instance. -/
  emitted : List (ℕ × ContractEvent)
  /-- The calls that succeeded: the instance of the caller and that of the callee. -/
  served : List (ℕ × ℕ)

namespace History

def empty : History := ⟨[], [], []⟩

def iterate (h : History) (x : ℕ) : History := { h with iterated := h.iterated ++ [x] }

def emit (h : History) (x : ℕ) (es : List ContractEvent) : History :=
  { h with emitted := h.emitted ++ es.map fun e => (x, e) }

def serve (h : History) (p q : ℕ) : History := { h with served := h.served ++ [(p, q)] }

/-- The second instance is the first one, or below it through calls that all succeeded. -/
def Counts (h : History) : ℕ → ℕ → Prop := ReflTransGen fun p q => (p, q) ∈ h.served

open Classical in
/-- The type that the history gives to an instance. -/
noncomputable def kind (h : History) (x : ℕ) : ExecOrderTxType :=
  if ∃ q ∈ h.iterated, h.Counts x q then .iterator else .normal

open Classical in
/-- The event counts for the instance. -/
noncomputable def within (h : History) (x : ℕ) (e : ℕ × ContractEvent) : Bool := h.Counts x e.1

/-- The events that the history gives to an instance, in the order of their emission. -/
noncomputable def events (h : History) (x : ℕ) : List ContractEvent :=
  (h.emitted.filter (h.within x)).map Prod.snd

end History

/-- The events of a response. -/
def Received.events (txId : Bytes) : Received → List ContractEvent
  | .sandbox m _ _ => m.response.elim [] fun r => r.events.map (·.toEvent txId)
  | _ => []

/-- The call of `Invoke` returned a success. -/
def InvokeState.succeeded : InvokeState σ κ η → Bool
  | .returned result _ _ => result.code = 0
  | .running .. => false

/-- The record of a step from `s` to `s'`. -/
def History.add (txId : Bytes) (h : History) (s : CallStack σ κ η) (a : CallAction)
    (s' : CallStack σ κ η) : History :=
  match a, s.callers with
  | .received r, _ =>
    if r.iterates then h.iterate s.id
    else if s'.loop.succeeded then h.emit s.id (r.events txId)
    else h
  | .ret _, c :: _ => if s.loop.succeeded then h.serve c.id s.id else h
  | _, _ => h

theorem History.add_ret {txId : Bytes} {h : History} {s s' : CallStack σ κ η} {out : CallOutcome}
    {c : Caller} {cs : List Caller} (hcallers : s.callers = c :: cs) :
    h.add txId s (.ret out) s' = if s.loop.succeeded then h.serve c.id s.id else h := by
  unfold History.add
  rw [hcallers]

/-- A transaction with its history. -/
def recordedStep (P : Protocol) (S : TxSimContext σ κ η) (t : CallStack σ κ η × History)
    (a : CallAction) : Option (CallStack σ κ η × History) :=
  (t.1.act P S a).map fun r => (r.1, t.2.add S.txId t.1 a r.1)

/-- The outcome is what the call of `Invoke` returned. -/
def InvokeState.passes (out : CallOutcome) : InvokeState σ κ η → Bool
  | .returned result ty _ =>
    out.result = result ∧ out.txType = ty ∧ (out.code = .success ↔ result.code = 0)
  | .running .. => true

/-- `CallContract` passes on what the callee returned. -/
def PassesOn (t : CallStack σ κ η × History) : CallAction → Prop
  | .ret out => t.1.loop.passes out = true
  | _ => True

instance : DecidableRel (PassesOn : CallStack σ κ η × History → CallAction → Prop)
  | _, .ret _ => inferInstanceAs (Decidable (_ = true))
  | _, .received _ => .isTrue trivial
  | _, .call .. => .isTrue trivial

/-! ## What a step does to types and events -/

/-- The state of a loop after a turn that found the type `ty` and the events of `st`. -/
inductive Turned (txId : Bytes) (ty : ExecOrderTxType) (st : RuntimeState σ κ η) (r : Received) :
    InvokeState σ κ η → Prop
  | goesOn {g st'} (hr : r.iterates = false) (hevent : st'.inst.event = st.inst.event) :
      Turned txId ty st r (.running g ty st')
  | iterates {g st'} (hr : r.iterates = true) (hevent : st'.inst.event = st.inst.event) :
      Turned txId ty st r (.running g .iterator st')
  | fails {result st'} (hr : r.iterates = false) (hcode : result.code ≠ 0) :
      Turned txId ty st r (.returned result .normal st')
  | succeeds {result st'} (hr : r.iterates = false) (hcode : result.code = 0)
      (hevent : result.contractEvent = st.inst.event ++ r.events txId) :
      Turned txId ty st r (.returned result ty st')

theorem LoopTurn.turned {name : Bytes} {ty : ExecOrderTxType} {st : RuntimeState σ κ η}
    {r : Received} {t : InvokeState σ κ η × Option DockerVMMessage}
    (h : LoopTurn P S name ty st r t) : Turned S.txId ty st r t.1 := by
  cases h with
  | @answers m _ _ _ _ hty h =>
    subst hty
    cases hr : m.type.aboutIterators
    · exact .goesOn hr h.event
    · exact .iterates hr h.event
  | @responds m ordRead ordWrite _ htype h =>
    have hr : (Received.sandbox m ordRead ordWrite).iterates = false := by
      rw [Received.iterates, htype]
      rfl
    cases h with
    | fails hcode => exact .fails hr hcode
    | succeeds hcode _ hresp _ _ _ hevent =>
      refine .succeeds hr hcode ?_
      rw [Received.events, hresp]
      exact hevent
  | stays hr => exact .goesOn hr rfl
  | fails hr => exact .fails hr code_one_ne_zero

/-- The loop of a new instance. -/
inductive Begun : InvokeState σ κ η → Prop
  | runs {g st} (hevent : st.inst.event = []) : Begun (.running g .normal st)
  | failed {result st} (hcode : result.code ≠ 0) : Begun (.returned result .normal st)

theorem beforeLoop_begun (call : Invocation) (connected : Bool) (g : UInt64)
    {st : RuntimeState σ κ η} (h : st.inst.event = []) :
    Begun (beforeLoop P S call connected g st) := by
  unfold beforeLoop
  repeat' split
  all_goals first
    | exact .runs h
    | exact .failed code_one_ne_zero

end VmEngine.Runtime
