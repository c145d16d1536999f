/-
  Maps that remember the order of insertion.

  `put` keeps the position of a key that is present and appends a new one, as a
  linked hash map does.  The same type serves for plain maps, whose order nothing
  reads.
-/
import Mathlib.Tactic
import Mathlib.Data.List.Nodup

namespace VmEngine

/-- A finite map with an order on its entries; every key occurs once. -/
structure LinkedMap (κ ν : Type) where
  entries : List (κ × ν)
  nodup : (entries.map Prod.fst).Nodup

namespace LinkedMap
variable {κ ν : Type}

def empty : LinkedMap κ ν := ⟨[], List.nodup_nil⟩

variable {k k' : κ} {m : LinkedMap κ ν} {v : ν}

@[ext] theorem ext {m' : LinkedMap κ ν} (h : m.entries = m'.entries) : m = m' := by
  cases m
  cases m'
  cases h
  rfl

def keys (m : LinkedMap κ ν) : List κ := m.entries.map Prod.fst

def size (m : LinkedMap κ ν) : ℕ := m.entries.length

variable [DecidableEq κ]

def get? (m : LinkedMap κ ν) (k : κ) : Option ν := (m.entries.find? (·.1 = k)).map Prod.snd

/-- The entry of `k` with the new value, the others as they are. -/
def setEntry (k : κ) (v : ν) (e : κ × ν) : κ × ν := if e.1 = k then (k, v) else e

theorem fst_setEntry (k : κ) (v : ν) (e : κ × ν) : (setEntry k v e).1 = e.1 := by
  unfold setEntry
  split_ifs with h
  · exact h.symm
  · rfl

theorem map_fst_setEntry (k : κ) (v : ν) (l : List (κ × ν)) :
    (l.map (setEntry k v)).map Prod.fst = l.map Prod.fst := by
  rw [List.map_map]
  exact List.map_congr_left fun e _ => fst_setEntry k v e

def put (m : LinkedMap κ ν) (k : κ) (v : ν) : LinkedMap κ ν :=
  if h : k ∈ m.keys then ⟨m.entries.map (setEntry k v), by rw [map_fst_setEntry]; exact m.nodup⟩
  else ⟨m.entries ++ [(k, v)], by
    rw [List.map_append, List.nodup_append]
    refine ⟨m.nodup, by simp, ?_⟩
    rintro a ha b hb rfl
    rw [List.map_cons, List.map_nil, List.mem_singleton] at hb
    rw [hb] at ha
    exact h ha⟩

def remove (m : LinkedMap κ ν) (k : κ) : LinkedMap κ ν :=
  ⟨m.entries.filter (·.1 ≠ k), m.nodup.sublist (List.Sublist.map _ List.filter_sublist)⟩

theorem entries_put_of_not_mem (v : ν) (h : k ∉ m.keys) :
    (m.put k v).entries = m.entries ++ [(k, v)] := by
  unfold put
  rw [dif_neg h]

/-- One entry and the others, in a list where its key occurs once. -/
theorem perm_cons_filter {l : List (κ × ν)} (hnd : (l.map Prod.fst).Nodup) (h : (k, v) ∈ l) :
    l.Perm ((k, v) :: l.filter (·.1 ≠ k)) := by
  induction l with
  | nil => cases h
  | cons e l ih =>
    obtain ⟨he, hnd⟩ := List.nodup_cons.1 hnd
    rcases List.mem_cons.1 h with rfl | h
    · have hself : l.filter (fun e => e.1 ≠ k) = l := by
        refine List.filter_eq_self.2 fun x hx => ?_
        have hne : x.1 ≠ k := fun hk => he (List.mem_map.2 ⟨x, hx, hk⟩)
        simpa using hne
      rw [List.filter_cons_of_neg (by simp), hself]
    · have hne : e.1 ≠ k := fun hk => he (List.mem_map.2 ⟨_, h, hk.symm⟩)
      rw [List.filter_cons_of_pos (by simpa using hne)]
      exact ((ih hnd h).cons e).trans (List.Perm.swap ..)

/-! ## Lookup -/

@[simp] theorem get?_empty (k : κ) : (empty : LinkedMap κ ν).get? k = none := rfl

theorem get?_eq_none : m.get? k = none ↔ k ∉ m.keys := by
  unfold get? keys
  rw [Option.map_eq_none_iff, List.find?_eq_none]
  constructor
  · intro h hk
    obtain ⟨e, he, rfl⟩ := List.mem_map.1 hk
    exact h e he (by simp)
  · intro h e he hk
    exact h (List.mem_map.2 ⟨e, he, by simpa using hk⟩)

theorem mem_keys_iff : k ∈ m.keys ↔ ∃ v, m.get? k = some v := by
  rw [← Option.ne_none_iff_exists', ne_eq, get?_eq_none, not_not]

/-- The entries are the pairs that lookup returns. -/
theorem get?_eq_some : m.get? k = some v ↔ (k, v) ∈ m.entries := by
  unfold get?
  constructor
  · intro h
    obtain ⟨⟨k', v'⟩, he, rfl⟩ := Option.map_eq_some_iff.1 h
    have hk := List.find?_some he
    have hm := List.mem_of_find?_eq_some he
    simp only [decide_eq_true_eq] at hk
    exact hk ▸ hm
  · intro h
    cases hf : m.entries.find? (·.1 = k) with
    | none => exact absurd (List.find?_eq_none.1 hf _ h) (by simp)
    | some e =>
      have hk := List.find?_some hf
      simp only [decide_eq_true_eq] at hk
      have := List.inj_on_of_nodup_map m.nodup (List.mem_of_find?_eq_some hf) h hk
      rw [this]; rfl

@[simp] theorem get?_remove_self (m : LinkedMap κ ν) (k : κ) : (m.remove k).get? k = none := by
  rw [get?_eq_none]
  simp [keys, remove]

theorem get?_remove_of_ne (m : LinkedMap κ ν) (h : k' ≠ k) : (m.remove k).get? k' = m.get? k' := by
  unfold get? remove
  rw [List.find?_filter]
  congr 2
  funext e
  by_cases he : e.1 = k'
  · simp [he, h]
  · simp [he]

theorem get?_remove (m : LinkedMap κ ν) (k k' : κ) :
    (m.remove k).get? k' = if k' = k then none else m.get? k' := by
  split_ifs with h
  · rw [h, get?_remove_self]
  · exact get?_remove_of_ne m h

theorem get?_put (m : LinkedMap κ ν) (k k' : κ) (v : ν) :
    (m.put k v).get? k' = if k' = k then some v else m.get? k' := by
  by_cases hk : k ∈ m.keys
  · have hput : (m.put k v).entries = m.entries.map (setEntry k v) := by simp [put, hk]
    split_ifs with h
    · subst h
      rw [get?_eq_some, hput]
      obtain ⟨e, he, rfl⟩ := List.mem_map.1 hk
      exact List.mem_map.2 ⟨e, he, by simp [setEntry]⟩
    · ext w
      rw [get?_eq_some, get?_eq_some, hput, List.mem_map]
      constructor
      · rintro ⟨e, he, heq⟩
        have hfst : e.1 = k' := by rw [← fst_setEntry k v e, heq]
        rw [setEntry, if_neg (by rw [hfst]; exact h)] at heq
        exact heq ▸ he
      · intro he
        exact ⟨_, he, by simp [setEntry, h]⟩
  · ext w
    rw [get?_eq_some, entries_put_of_not_mem v hk, List.mem_append, List.mem_singleton, Prod.mk.injEq]
    split_ifs with h
    · subst h
      have : ∀ w, (k', w) ∉ m.entries := fun w hw => hk (List.mem_map.2 ⟨_, hw, rfl⟩)
      simp [this, eq_comm]
    · rw [get?_eq_some]; simp [h]

@[simp] theorem get?_put_self (m : LinkedMap κ ν) (k : κ) (v : ν) : (m.put k v).get? k = some v := by
  rw [get?_put, if_pos rfl]

theorem get?_put_of_ne (m : LinkedMap κ ν) (h : k' ≠ k) : (m.put k v).get? k' = m.get? k' := by
  rw [get?_put, if_neg h]

/-- What an updated map returns is the new entry or an old one. -/
theorem get?_of_put {w : ν} (h : (m.put k v).get? k' = some w) :
    (k' = k ∧ w = v) ∨ m.get? k' = some w := by
  rw [get?_put] at h
  split_ifs at h with hk
  · exact Or.inl ⟨hk, (Option.some.inj h).symm⟩
  · exact Or.inr h

/-- A key that is present and one that is absent. -/
theorem ne_of_get? (h : m.get? k = some v) (h' : m.get? k' = none) : k ≠ k' := by
  rintro rfl
  rw [h] at h'
  cases h'

theorem get?_of_remove {w : ν} (h : (m.remove k).get? k' = some w) : m.get? k' = some w := by
  rw [get?_remove] at h
  split_ifs at h
  exact h

theorem size_put_ne_zero (m : LinkedMap κ ν) (k : κ) (v : ν) : (m.put k v).size ≠ 0 := by
  intro h
  have hk := get?_eq_some.1 (get?_put_self m k v)
  rw [List.length_eq_zero_iff.1 h] at hk
  exact List.not_mem_nil hk

theorem remove_put_empty (k : κ) (v : ν) : ((empty : LinkedMap κ ν).put k v).remove k = empty := by
  ext1
  have hput : ((empty : LinkedMap κ ν).put k v).entries = [(k, v)] :=
    entries_put_of_not_mem v List.not_mem_nil
  simp only [remove, hput]
  simp [empty]

/-- The first `n` values. -/
def peek (m : LinkedMap κ ν) (n : ℕ) : List ν := (m.entries.take n).map Prod.snd

theorem mem_peek {n : ℕ} (h : v ∈ m.peek n) : ∃ k, m.get? k = some v := by
  obtain ⟨⟨k, v'⟩, he, rfl⟩ := List.mem_map.1 h
  exact ⟨k, get?_eq_some.2 (List.mem_of_mem_take he)⟩

end LinkedMap

end VmEngine
