/-
  Labelled transition systems given by a partial step function.

  A step `step s a = some s'` takes the action `a`; `none` means that `a` cannot
  be taken in `s` (the code blocks there, or the environment does not offer it).
  Runs are restricted by a condition `ok` on the state before a step and the
  action taken; `Reach step Free s₀` is the set of all reachable states.
-/
import Mathlib.Tactic.Common
import Mathlib.Data.Option.Basic

namespace VmEngine

variable {σ α : Type}

/-- The condition that allows every step. -/
def Free (_ : σ) (_ : α) : Prop := True

instance : DecidableRel (Free : σ → α → Prop) := fun _ _ => instDecidableTrue

/-- The states reached from `s₀` by steps that all satisfy `ok`. -/
inductive Reach (step : σ → α → Option σ) (ok : σ → α → Prop) (s₀ : σ) : σ → Prop
  | start : Reach step ok s₀ s₀
  | next {s s' : σ} {a : α} : Reach step ok s₀ s → ok s a → step s a = some s' →
      Reach step ok s₀ s'

section
variable {step : σ → α → Option σ} {ok : σ → α → Prop} {s₀ : σ}

/-- **Invariant rule.**  What holds at the start and is kept by every allowed
    step holds in every reached state. -/
theorem Reach.inv {I : σ → Prop} (h₀ : I s₀)
    (hs : ∀ {s a s'}, I s → ok s a → step s a = some s' → I s') {s : σ}
    (h : Reach step ok s₀ s) : I s := by
  induction h with
  | start => exact h₀
  | next _ ha hstep ih => exact hs ih ha hstep

/-- The invariant rule relative to a property already known of reached states. -/
theorem Reach.inv_of {I J : σ → Prop} (hJ : ∀ {s}, Reach step ok s₀ s → J s) (h₀ : I s₀)
    (hs : ∀ {s a s'}, J s → I s → ok s a → step s a = some s' → I s') {s : σ}
    (h : Reach step ok s₀ s) : I s := by
  induction h with
  | start => exact h₀
  | next hr ha hstep ih => exact hs (hJ hr) ih ha hstep

/-- Fewer restrictions reach more states. -/
theorem Reach.mono {ok' : σ → α → Prop} (hok : ∀ s a, ok s a → ok' s a) {s : σ}
    (h : Reach step ok s₀ s) : Reach step ok' s₀ s := by
  induction h with
  | start => exact .start
  | next _ ha hstep ih => exact .next ih (hok _ _ ha) hstep

theorem Reach.trans {s s' : σ} (h : Reach step ok s₀ s) (h' : Reach step ok s s') :
    Reach step ok s₀ s' := by
  induction h' with
  | start => exact h
  | next _ ha hstep ih => exact ih.next ha hstep

theorem Reach.free {s : σ} (h : Reach step ok s₀ s) : Reach step Free s₀ s :=
  h.mono fun _ _ _ => trivial

end

/-! ## What states lead to -/

section
variable {step : σ → α → Option σ} {P Q R : σ → Prop}

/-- From every state with `P` some run reaches a state with `Q`. -/
def Leads (step : σ → α → Option σ) (P Q : σ → Prop) : Prop :=
  ∀ s, P s → ∃ s', Reach step Free s s' ∧ Q s'

/-- One step. -/
theorem Leads.of_step (a : α) (h : ∀ s, P s → ∃ s', step s a = some s' ∧ Q s') : Leads step P Q := by
  intro s hP
  obtain ⟨s', hs, hQ⟩ := h s hP
  exact ⟨s', .next .start trivial hs, hQ⟩

theorem Leads.trans (h : Leads step P Q) (h' : Leads step Q R) : Leads step P R := by
  intro s hP
  obtain ⟨s₁, hr, hQ⟩ := h s hP
  obtain ⟨s₂, hr', hR⟩ := h' s₁ hQ
  exact ⟨s₂, hr.trans hr', hR⟩

end

/-! ## Executing a list of actions -/

/-- Take the actions in order, as long as each is allowed and possible. -/
def execIf (step : σ → α → Option σ) (ok : σ → α → Prop) [DecidableRel ok] :
    σ → List α → Option σ
  | s, [] => some s
  | s, a :: as => if ok s a then (step s a).bind fun s' => execIf step ok s' as else none

variable {step : σ → α → Option σ} {ok : σ → α → Prop} [DecidableRel ok]

theorem Reach.execIf {s₀ s s' : σ} {as : List α} (h : Reach step ok s₀ s)
    (he : execIf step ok s as = some s') : Reach step ok s₀ s' := by
  induction as generalizing s with
  | nil => cases he; exact h
  | cons a as ih =>
    simp only [VmEngine.execIf] at he
    split_ifs at he with ha
    obtain ⟨t, ht, he⟩ := Option.bind_eq_some_iff.1 he
    exact ih (h.next ha ht) he

/-- A run of the step function reaches a state with the property it was tested for. -/
theorem exists_reach (step : σ → α → Option σ) (ok : σ → α → Prop) [DecidableRel ok] (s₀ : σ)
    (P : σ → Bool) (as : List α) (h : (execIf step ok s₀ as).any P = true) :
    ∃ s, Reach step ok s₀ s ∧ P s = true := by
  obtain ⟨s, hs, hP⟩ := (Option.any_eq_true _ _).1 h
  exact ⟨s, Reach.start.execIf hs, hP⟩

/-! ## Monitors -/

section
variable {ω γ : Type}

/-- A step function with outputs, run together with a monitor: a state of its own
    that reads every step and its outputs but does not influence them. -/
def monitor (act : σ → α → Option (σ × ω)) (upd : γ → σ → α → ω → γ) (s : σ × γ) (a : α) :
    Option (σ × γ) :=
  (act s.1 a).map fun r => (r.1, upd s.2 s.1 a r.2)

theorem monitor_eq_some {act : σ → α → Option (σ × ω)} {upd : γ → σ → α → ω → γ} {s s' : σ × γ}
    {a : α} (h : monitor act upd s a = some s') :
    ∃ o, act s.1 a = some (s'.1, o) ∧ s'.2 = upd s.2 s.1 a o := by
  obtain ⟨⟨t, o⟩, ht, rfl⟩ := Option.map_eq_some_iff.1 h
  exact ⟨o, ht, rfl⟩

end

end VmEngine
