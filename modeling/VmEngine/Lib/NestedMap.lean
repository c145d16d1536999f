/-
  Maps of maps, in which no inner map is empty.

  `putIn` makes the inner map that it needs, and `removeIn` drops an inner map with its
  last entry.  `at?` looks up both levels at once.
-/
import VmEngine.Lib.LinkedMap

namespace VmEngine

namespace LinkedMap
variable {γ κ ν : Type} [DecidableEq γ] [DecidableEq κ]

def at? (m : LinkedMap γ (LinkedMap κ ν)) (g : γ) (k : κ) : Option ν := (m.get? g).bind (·.get? k)

def putIn (m : LinkedMap γ (LinkedMap κ ν)) (g : γ) (k : κ) (v : ν) : LinkedMap γ (LinkedMap κ ν) :=
  m.put g (((m.get? g).getD .empty).put k v)

def removeIn (m : LinkedMap γ (LinkedMap κ ν)) (g : γ) (k : κ) : LinkedMap γ (LinkedMap κ ν) :=
  match m.get? g with
  | none => m
  | some inner => if (inner.remove k).size = 0 then m.remove g else m.put g (inner.remove k)

def NoEmpty (m : LinkedMap γ (LinkedMap κ ν)) : Prop := ∀ g inner, m.get? g = some inner → inner.size ≠ 0

theorem get?_of_size_zero {m : LinkedMap κ ν} (h : m.size = 0) (k : κ) : m.get? k = none := by
  unfold get?
  rw [List.length_eq_zero_iff.1 h]
  rfl

theorem at?_putIn (m : LinkedMap γ (LinkedMap κ ν)) (g g' : γ) (k k' : κ) (v : ν) :
    (m.putIn g k v).at? g' k' = if g' = g ∧ k' = k then some v else m.at? g' k' := by
  unfold at? putIn
  rw [get?_put]
  by_cases hg : g' = g
  · subst hg
    rw [if_pos rfl, Option.bind_some, get?_put]
    simp only [true_and]
    split_ifs
    · rfl
    · cases m.get? g' <;> rfl
  · rw [if_neg hg, if_neg fun h => hg h.1]

theorem at?_removeIn (m : LinkedMap γ (LinkedMap κ ν)) (g g' : γ) (k k' : κ) :
    (m.removeIn g k).at? g' k' = if g' = g ∧ k' = k then none else m.at? g' k' := by
  unfold removeIn
  cases hm : m.get? g with
  | none =>
    dsimp only
    split_ifs with h
    · rw [h.1, at?, hm]; rfl
    · rfl
  | some inner =>
    dsimp only
    have hinner : (m.at? g k') = inner.get? k' := by rw [at?, hm]; rfl
    by_cases hg : g' = g
    · subst hg
      -- the inner map loses the key, whether it stays or not
      have hlookup : (if (inner.remove k).size = 0 then m.remove g'
          else m.put g' (inner.remove k)).at? g' k' = (inner.remove k).get? k' := by
        split_ifs with hsize
        · rw [get?_of_size_zero hsize, at?, get?_remove_self]; rfl
        · rw [at?, get?_put_self]; rfl
      rw [hlookup, get?_remove, hinner]
      simp only [true_and]
    · have hne : ¬ (g' = g ∧ k' = k) := fun h => hg h.1
      rw [if_neg hne]
      unfold at?
      split_ifs
      · rw [get?_remove_of_ne m hg]
      · rw [get?_put_of_ne m hg]

omit [DecidableEq κ] in
theorem noEmpty_empty : (empty : LinkedMap γ (LinkedMap κ ν)).NoEmpty := nofun

theorem NoEmpty.putIn {m : LinkedMap γ (LinkedMap κ ν)} (h : m.NoEmpty) (g : γ) (k : κ) (v : ν) :
    (m.putIn g k v).NoEmpty := by
  intro g' inner hg
  rcases get?_of_put hg with ⟨-, rfl⟩ | hg
  · exact size_put_ne_zero _ _ _
  · exact h g' inner hg

theorem NoEmpty.removeIn {m : LinkedMap γ (LinkedMap κ ν)} (h : m.NoEmpty) (g : γ) (k : κ) :
    (m.removeIn g k).NoEmpty := by
  intro g' inner hg
  unfold LinkedMap.removeIn at hg
  split at hg
  · exact h g' inner hg
  · split_ifs at hg with hsize
    · exact h g' inner (get?_of_remove hg)
    · rcases get?_of_put hg with ⟨-, rfl⟩ | hg
      · exact hsize
      · exact h g' inner hg

end LinkedMap

end VmEngine
