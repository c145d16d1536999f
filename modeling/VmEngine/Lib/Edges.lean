/-
  What is reached when one edge is added.

  The edge starts at a node without predecessors: nothing that could be reached before
  goes through it, except from that node itself.
-/
import Mathlib.Logic.Relation

namespace VmEngine

open Relation

variable {α : Type} {r : α → α → Prop} {p q x y : α}

/-- A relation with one more edge. -/
def AddEdge (r : α → α → Prop) (p q x y : α) : Prop := r x y ∨ x = p ∧ y = q

theorem AddEdge.mono (h : ReflTransGen r x y) : ReflTransGen (AddEdge r p q) x y :=
  ReflTransGen.mono (fun _ _ => Or.inl) _ _ h

/-- A node without predecessors is reached from itself only. -/
theorem eq_of_reaches (hp : ∀ x, ¬ r x p) (h : ReflTransGen r x p) : x = p := by
  rcases ReflTransGen.cases_tail h with h | ⟨z, -, hz⟩
  · exact h.symm
  · exact absurd hz (hp z)

theorem reaches_addEdge_of_ne (hp : ∀ x, ¬ r x p) (hx : x ≠ p) :
    ReflTransGen (AddEdge r p q) x y ↔ ReflTransGen r x y := by
  constructor
  · intro h
    induction h with
    | refl => exact .refl
    | tail _ hedge ih =>
      rcases hedge with hr | ⟨rfl, -⟩
      · exact ih.tail hr
      · exact absurd (eq_of_reaches hp ih) hx
  · exact AddEdge.mono

theorem reaches_addEdge_self :
    ReflTransGen (AddEdge r p q) p y ↔ ReflTransGen r p y ∨ ReflTransGen r q y := by
  constructor
  · intro h
    induction h with
    | refl => exact .inl .refl
    | tail _ hedge ih =>
      rcases hedge with hr | ⟨rfl, rfl⟩
      · exact ih.imp (·.tail hr) (·.tail hr)
      · exact .inr .refl
  · rintro (h | h)
    · exact AddEdge.mono h
    · exact .head (.inr ⟨rfl, rfl⟩) (AddEdge.mono h)

end VmEngine
