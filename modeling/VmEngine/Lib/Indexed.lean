/-
  Lists whose members are known by their position.

  Members are updated in place and added at the end, so a position names the same
  member for ever.
-/
import Mathlib.Tactic
import Mathlib.Data.List.Perm.Basic

namespace VmEngine

variable {α β : Type} {l : List α} {i k : ℕ} {x y : α}

/-- A member of the list after an update. -/
theorem getElem?_set_some (h : (l.set i x)[k]? = some y) :
    (k = i ∧ y = x) ∨ (k ≠ i ∧ l[k]? = some y) := by
  by_cases hk : k = i
  · subst hk
    have hlt := (List.getElem?_eq_some_iff.1 h).1
    rw [List.length_set] at hlt
    rw [List.getElem?_set_self hlt] at h
    exact Or.inl ⟨rfl, (Option.some.inj h).symm⟩
  · rw [List.getElem?_set_ne (Ne.symm hk)] at h
    exact Or.inr ⟨hk, h⟩

/-- The same of a table. -/
theorem update_some {ι : Type} [DecidableEq ι] {f : ι → Option α} {i k : ι}
    (h : Function.update f i (some x) k = some y) : (k = i ∧ y = x) ∨ f k = some y := by
  by_cases hk : k = i
  · rw [hk, Function.update_self] at h
    exact Or.inl ⟨hk, (Option.some.inj h).symm⟩
  · rw [Function.update_of_ne hk] at h
    exact Or.inr h

theorem getElem?_concat_some (h : (l ++ [x])[k]? = some y) :
    (k = l.length ∧ y = x) ∨ l[k]? = some y := by
  rcases Nat.lt_trichotomy k l.length with hk | rfl | hk
  · rw [List.getElem?_append_left hk] at h
    exact Or.inr h
  · rw [List.getElem?_concat_length] at h
    exact Or.inl ⟨rfl, (Option.some.inj h).symm⟩
  · have hlt := (List.getElem?_eq_some_iff.1 h).1
    rw [List.length_append, List.length_singleton] at hlt
    omega

theorem getElem?_concat (l : List α) (x : α) (k : ℕ) :
    (l ++ [x])[k]? = if k = l.length then some x else l[k]? := by
  split_ifs with hk
  · rw [hk, List.getElem?_concat_length]
  · rcases Nat.lt_or_gt_of_ne hk with hlt | hgt
    · rw [List.getElem?_append_left hlt]
    · rw [List.getElem?_eq_none, List.getElem?_eq_none]
      · omega
      · rw [List.length_append, List.length_singleton]
        omega

theorem getElem?_set_self_of_some (h : l[i]? = some x) (y : α) : (l.set i y)[i]? = some y :=
  List.getElem?_set_self (List.getElem?_eq_some_iff.1 h).1

/-- A member that differs from the old one at the position stays. -/
theorem getElem?_set_of_ne_old (h : l[i]? = some x) (hk : l[k]? = some y) (hne : y ≠ x) (z : α) :
    (l.set i z)[k]? = some y := by
  rw [List.getElem?_set_ne, hk]
  rintro rfl
  exact hne (Option.some.inj (hk.symm.trans h))

theorem getElem?_concat_of_some (h : l[k]? = some y) (x : α) : (l ++ [x])[k]? = some y := by
  rw [List.getElem?_append_left (List.getElem?_eq_some_iff.1 h).1]
  exact h

/-- What an update of one member does to the values that the members contribute. -/
theorem filterMap_set_perm (f : α → Option β) (h : l[i]? = some x) (y : α) :
    ∃ rest, (l.filterMap f).Perm ((f x).toList ++ rest) ∧
      ((l.set i y).filterMap f).Perm ((f y).toList ++ rest) := by
  obtain ⟨hlt, rfl⟩ := List.getElem?_eq_some_iff.1 h
  have hcons : ∀ (z : α) (m : List α), (z :: m).filterMap f = (f z).toList ++ m.filterMap f := by
    intro z m
    cases hz : f z with
    | none => rw [List.filterMap_cons_none hz]; rfl
    | some b => rw [List.filterMap_cons_some hz]; rfl
  refine ⟨(l.eraseIdx i).filterMap f, ?_, ?_⟩
  · rw [← hcons]
    exact ((List.getElem_cons_eraseIdx_perm hlt).filterMap f).symm
  · rw [← hcons]
    exact (List.set_perm_cons_eraseIdx hlt y).filterMap f

/-- A member that contributed nothing is replaced by one that may. -/
theorem filterMap_set_of_none (f : α → Option β) (h : l[i]? = some x) (hx : f x = none) (y : α) :
    ((l.set i y).filterMap f).Perm ((f y).toList ++ l.filterMap f) := by
  obtain ⟨rest, hold, hnew⟩ := filterMap_set_perm f h y
  rw [hx] at hold
  exact hnew.trans (hold.symm.append_left _)

/-- The entries around the position `i`, up to their order. -/
theorem exists_rest {α : Type} {l : List α} {i : ℕ} {x : α} (h : l[i]? = some x) :
    ∃ rest, l.Perm (x :: rest) ∧ (∀ y, (l.set i y).Perm (y :: rest)) ∧ (l.eraseIdx i).Perm rest := by
  obtain ⟨hi, rfl⟩ := List.getElem?_eq_some_iff.1 h
  refine ⟨l.eraseIdx i, ?_, fun y => ?_, List.Perm.refl _⟩
  · exact (List.getElem_cons_eraseIdx_perm hi).symm
  · have hset : i < (l.set i y).length := by rw [List.length_set]; exact hi
    have := (List.getElem_cons_eraseIdx_perm hset).symm
    rwa [List.getElem_set_self, List.eraseIdx_set_eq] at this

/-- A list is cut where the members of one kind end and those of another begin. -/
theorem filter_or_of_cut {p q : α → Bool} {n : ℕ} (hq : ∀ x ∈ l.take n, q x = false)
    (hp : ∀ x ∈ l.drop n, p x = false) :
    l.filter (fun x => p x || q x) = l.filter p ++ l.filter q := by
  have hfirst : (l.take n).filter (fun x => p x || q x) = (l.take n).filter p :=
    List.filter_congr fun x hx => by rw [hq x hx, Bool.or_false]
  have hsecond : (l.drop n).filter (fun x => p x || q x) = (l.drop n).filter q :=
    List.filter_congr fun x hx => by rw [hp x hx, Bool.false_or]
  have hnop : (l.drop n).filter p = [] :=
    List.filter_eq_nil_iff.2 fun x hx => by simp [hp x hx]
  have hnoq : (l.take n).filter q = [] :=
    List.filter_eq_nil_iff.2 fun x hx => by simp [hq x hx]
  conv_lhs => rw [← List.take_append_drop n l, List.filter_append, hfirst, hsecond]
  conv_rhs => rw [← List.take_append_drop n l, List.filter_append, List.filter_append, hnop, hnoq]
  rw [List.append_nil, List.nil_append]

/-! ## What the members hold -/

/-- What an update of one member does to a value's number of occurrences. -/
theorem count_flatMap_set [DecidableEq β] (f : α → List β) (h : l[i]? = some x) (y : α) (b : β) :
    ((l.set i y).flatMap f).count b + (f x).count b = (l.flatMap f).count b + (f y).count b := by
  obtain ⟨rest, hold, hnew, -⟩ := exists_rest h
  rw [(hold.flatMap_right f).count_eq, ((hnew y).flatMap_right f).count_eq, List.flatMap_cons,
    List.flatMap_cons, List.count_append, List.count_append]
  omega

section
variable {R : β → β → Prop} (hsymm : ∀ {b b' : β}, R b b' → R b' b)
include hsymm

theorem pairwise_of_subperm {m m' : List β} (h : m'.Subperm m) (hm : m.Pairwise R) : m'.Pairwise R := by
  obtain ⟨m₁, hperm, hsub⟩ := h
  exact (hperm.pairwise_iff hsymm).1 (hm.sublist hsub)

/-- Values of two members, if all values are pairwise related. -/
theorem pairwise_flatMap_apart {f : α → List β} (h : (l.flatMap f).Pairwise R) (hi : l[i]? = some x)
    (hk : l[k]? = some y) (hne : i ≠ k) {b b' : β} (hb : b ∈ f x) (hb' : b' ∈ f y) : R b b' := by
  have hmem := (List.pairwise_flatMap.1 h).2
  obtain ⟨hil, rfl⟩ := List.getElem?_eq_some_iff.1 hi
  obtain ⟨hkl, rfl⟩ := List.getElem?_eq_some_iff.1 hk
  rcases Nat.lt_or_gt_of_ne hne with hlt | hlt
  · exact List.pairwise_iff_getElem.1 hmem i k hil hkl hlt b hb b' hb'
  · exact hsymm (List.pairwise_iff_getElem.1 hmem k i hkl hil hlt b' hb' b hb)

end

end VmEngine
