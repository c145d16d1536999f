/-
  Things that are kept in places.

  `L i` lists the things at the place `i`, and each thing has a key.  `Once` says that no
  key occurs twice, at one place or at two.  Taking things away keeps this, and what was
  taken away is nowhere else; a thing with a new key may be put anywhere.
-/
import Mathlib.Data.List.Perm.Basic
import Mathlib.Data.List.Nodup
import Mathlib.Logic.Function.Basic

namespace VmEngine

variable {ι α β : Type} {key : α → β} {L L' : ι → List α}

variable {a : α} {i j : ι} {l : List α}

theorem mem_update [DecidableEq ι] :
    a ∈ Function.update L i l j ↔ (j = i ∧ a ∈ l) ∨ (j ≠ i ∧ a ∈ L j) := by
  by_cases hj : j = i
  · subst hj
    simp
  · simp [hj]

/-- What was anywhere is still there, when the place that changes only gets more. -/
theorem mem_update_of_subset [DecidableEq ι] (h : L i ⊆ l) (ha : a ∈ L j) :
    a ∈ Function.update L i l j := by
  by_cases hj : j = i
  · exact mem_update.2 (Or.inl ⟨hj, h (hj ▸ ha)⟩)
  · exact mem_update.2 (Or.inr ⟨hj, ha⟩)

structure Once (key : α → β) (L : ι → List α) : Prop where
  nodup : ∀ i, ((L i).map key).Nodup
  apart : ∀ {i j}, i ≠ j → ∀ {a b}, a ∈ L i → b ∈ L j → key a ≠ key b

/-- `L'` is `L` with some things taken away. -/
def Fewer (L L' : ι → List α) : Prop := ∀ i, ∃ gone, (L i).Perm (L' i ++ gone)

theorem Fewer.refl (L : ι → List α) : Fewer L L := fun i => ⟨[], by rw [List.append_nil]⟩

theorem Fewer.mem (h : Fewer L L') (ha : a ∈ L' i) : a ∈ L i := by
  obtain ⟨gone, hperm⟩ := h i
  exact hperm.symm.subset (List.mem_append_left _ ha)

theorem Fewer.update [DecidableEq ι] (gone : List α) (h : (L i).Perm (l ++ gone)) :
    Fewer L (Function.update L i l) := by
  intro j
  by_cases hj : j = i
  · subst hj
    rw [Function.update_self]
    exact ⟨gone, h⟩
  · rw [Function.update_of_ne hj]
    exact Fewer.refl L j

theorem once_nil : Once key (fun _ : ι => ([] : List α)) := ⟨fun _ => List.nodup_nil, nofun⟩

theorem Once.drop (h : Once key L) (hd : Fewer L L') : Once key L' where
  nodup i := by
    obtain ⟨gone, hperm⟩ := hd i
    have hnd := (hperm.map key).nodup_iff.1 (h.nodup i)
    rw [List.map_append] at hnd
    exact (List.nodup_append.1 hnd).1
  apart hij _ _ ha hb := h.apart hij (hd.mem ha) (hd.mem hb)

/-- What was taken away is at no place. -/
theorem Once.gone (h : Once key L) (hd : Fewer L L') {gone : List α}
    (hi : (L i).Perm (L' i ++ gone)) (ha : a ∈ gone) {b : α} (hb : b ∈ L' j) : key b ≠ key a := by
  have hai : a ∈ L i := hi.symm.subset (List.mem_append_right _ ha)
  by_cases hij : j = i
  · subst hij
    have hnd := (hi.map key).nodup_iff.1 (h.nodup j)
    rw [List.map_append] at hnd
    exact (List.nodup_append.1 hnd).2.2 _ (List.mem_map_of_mem hb) _ (List.mem_map_of_mem ha)
  · exact h.apart hij (hd.mem hb) hai

theorem Once.add (h : Once key L) (hnew : ∀ {j b}, b ∈ L j → key b ≠ key a)
    (hi : (L' i).Perm (a :: L i)) (hj : ∀ j, j ≠ i → L' j = L j) : Once key L' where
  nodup j := by
    by_cases hij : j = i
    · subst hij
      refine (hi.map key).nodup_iff.2 (List.nodup_cons.2 ⟨fun hmem => ?_, h.nodup j⟩)
      obtain ⟨b, hb, hkey⟩ := List.mem_map.1 hmem
      exact hnew hb hkey
    · rw [hj j hij]
      exact h.nodup j
  apart {j k} hjk b c hb hc := by
    -- the new thing is at one of the two places at most
    by_cases hji : j = i
    · subst hji
      rw [hj k (Ne.symm hjk)] at hc
      rcases List.mem_cons.1 (hi.subset hb) with rfl | hb
      · exact Ne.symm (hnew hc)
      · exact h.apart hjk hb hc
    · rw [hj j hji] at hb
      by_cases hki : k = i
      · subst hki
        rcases List.mem_cons.1 (hi.subset hc) with rfl | hc
        · exact hnew hb
        · exact h.apart hjk hb hc
      · rw [hj k hki] at hc
        exact h.apart hjk hb hc

/-- A thing that is taken away may be put at another place. -/
theorem Once.move (L'' : ι → List α) (h : Once key L) (hd : Fewer L L')
    (hi : (L i).Perm (L' i ++ [a])) (hj : (L'' j).Perm (a :: L' j)) (hk : ∀ k, k ≠ j → L'' k = L' k)
    :
    Once key L'' ∧ ∀ k b, b ∈ L'' k → ∃ m, b ∈ L m := by
  refine ⟨(h.drop hd).add (fun hb => h.gone hd hi (List.mem_singleton_self a) hb) hj hk, ?_⟩
  intro k b hb
  by_cases hkj : k = j
  · subst hkj
    rcases List.mem_cons.1 (hj.subset hb) with rfl | hb
    · exact ⟨i, hi.symm.subset (List.mem_append_right _ (List.mem_singleton_self _))⟩
    · exact ⟨k, hd.mem hb⟩
  · rw [hk k hkj] at hb
    exact ⟨k, hd.mem hb⟩

/-- All things of one place may be put at another. -/
theorem Once.merge (h : Once key L) (hij : i ≠ j) (hj : L' j = L j ++ L i) (hi : L' i = [])
    (hk : ∀ k, k ≠ i → k ≠ j → L' k = L k) : Once key L' := by
  -- where a thing was before
  have hfrom : ∀ {k a}, a ∈ L' k → k ≠ i ∧ ∃ m, a ∈ L m ∧ (m = k ∨ m = i ∧ k = j) := by
    intro k a ha
    have hki : k ≠ i := by
      rintro rfl
      rw [hi] at ha
      cases ha
    refine ⟨hki, ?_⟩
    by_cases hkj : k = j
    · subst hkj
      rw [hj] at ha
      rcases List.mem_append.1 ha with ha | ha
      · exact ⟨k, ha, Or.inl rfl⟩
      · exact ⟨i, ha, Or.inr ⟨rfl, rfl⟩⟩
    · rw [hk k hki hkj] at ha
      exact ⟨k, ha, Or.inl rfl⟩
  constructor
  · intro k
    by_cases hki : k = i
    · rw [hki, hi]
      exact List.nodup_nil
    by_cases hkj : k = j
    · subst hkj
      rw [hj, List.map_append, List.nodup_append]
      refine ⟨h.nodup k, h.nodup i, fun x hx y hy => ?_⟩
      obtain ⟨a, ha, rfl⟩ := List.mem_map.1 hx
      obtain ⟨b, hb, rfl⟩ := List.mem_map.1 hy
      exact h.apart hki ha hb
    · rw [hk k hki hkj]
      exact h.nodup k
  · intro k l hkl a b ha hb
    obtain ⟨hki, m, ham, hm⟩ := hfrom ha
    obtain ⟨hli, n, hbn, hn⟩ := hfrom hb
    refine h.apart ?_ ham hbn
    rcases hm with rfl | ⟨rfl, rfl⟩
    · rcases hn with rfl | ⟨rfl, -⟩
      · exact hkl
      · exact hki
    · rcases hn with rfl | ⟨-, rfl⟩
      · exact Ne.symm hli
      · exact absurd rfl hkl

end VmEngine
