/-
  Ranges of lists in lexicographic order.

  Comparing lists with a common beginning is comparing what follows it, and a list between
  two lists with a common beginning begins in the same way (`between_append`).  If nothing
  is between `x` and `y`, the lists between `p ++ [x]` and `p ++ [y]` are those that begin
  with `p ++ [x]` (`prefix_range`).
-/
import Mathlib.Data.List.Basic

namespace VmEngine

variable {α : Type} [LT α] [Std.Asymm (α := α) (· < ·)]

theorem not_lt_self (x : α) : ¬ x < x := fun h => Std.Asymm.asymm (r := (· < ·)) x x h h

theorem append_lt_append_iff (p : List α) {a b : List α} : p ++ a < p ++ b ↔ a < b := by
  induction p with
  | nil => rfl
  | cons x p ih =>
    rw [List.cons_append, List.cons_append, List.cons_lt_cons_iff, ih]
    simp [not_lt_self x]

theorem append_le_append_iff (p : List α) {a b : List α} : p ++ a ≤ p ++ b ↔ a ≤ b :=
  not_congr (append_lt_append_iff p)

variable [Std.Trichotomous (α := α) (· < ·)]

theorem between_append (p : List α) {a b c : List α} (hle : p ++ a ≤ b) (hlt : b < p ++ c) :
    ∃ t, b = p ++ t ∧ a ≤ t ∧ t < c := by
  induction p generalizing b with
  | nil => exact ⟨b, rfl, hle, hlt⟩
  | cons q p ih =>
    cases b with
    | nil => exact absurd (List.nil_lt_cons q (p ++ a)) hle
    | cons z t =>
      rw [List.cons_append, List.cons_le_cons_iff] at hle
      rw [List.cons_append, List.cons_lt_cons_iff] at hlt
      -- the first elements are the same
      rcases hle with hqz | ⟨rfl, hle⟩
      · rcases hlt with hzq | ⟨rfl, -⟩
        · exact absurd hqz (Std.Asymm.asymm (r := (· < ·)) z q hzq)
        · exact absurd hqz (not_lt_self z)
      · obtain ⟨s, rfl, hs⟩ := ih hle (hlt.resolve_left (not_lt_self q) |>.2)
        exact ⟨s, rfl, hs⟩

/-- `y` comes next after `x`. -/
def Next (x y : α) : Prop := x < y ∧ ∀ z, x < z → ¬ z < y

/-- The lists from `p ++ [x]` up to `p ++ [y]`. -/
theorem prefix_range {x y : α} (h : Next x y) (p b : List α) :
    (p ++ [x] ≤ b ∧ b < p ++ [y]) ↔ p ++ [x] <+: b := by
  constructor
  · rintro ⟨hle, hlt⟩
    obtain ⟨t, rfl, hle, hlt⟩ := between_append p hle hlt
    rw [List.prefix_append_right_inj]
    cases t with
    | nil => exact absurd (List.nil_lt_cons x []) hle
    | cons z t =>
      rcases List.cons_lt_cons_iff.1 hlt with hzy | ⟨-, ht⟩
      · rcases List.cons_le_cons_iff.1 hle with hxz | ⟨rfl, -⟩
        · exact absurd hzy (h.2 z hxz)
        · exact ⟨t, rfl⟩
      · exact absurd ht (List.not_lt_nil t)
  · rintro ⟨t, rfl⟩
    rw [List.append_assoc, append_le_append_iff, append_lt_append_iff, List.singleton_append,
      List.cons_le_cons_iff, List.cons_lt_cons_iff]
    exact ⟨Or.inr ⟨rfl, List.not_lt_nil t⟩, Or.inl h.1⟩

end VmEngine
