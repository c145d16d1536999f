/-
  Strings joined by a separator.

  The first and the last component of a joined string are determined by the string, if
  they are free of the separator; the decimal digits of a number are.  Splitting a list at
  a separator cuts it at the first one and goes on with the rest.
-/
import Mathlib.Tactic

namespace VmEngine

/-- What follows the last separator is the same in both lists. -/
theorem eq_of_append_sep {α : Type} [DecidableEq α] {x : α} {xs ys ds es : List α}
    (h : xs ++ x :: ds = ys ++ x :: es) (hd : x ∉ ds) (he : x ∉ es) : ds = es := by
  have last : ∀ {zs fs : List α}, x ∉ fs →
      ((zs ++ x :: fs).reverse.takeWhile (· ≠ x)).reverse = fs := by
    intro zs fs hf
    have hall : ∀ a ∈ fs.reverse, decide (a ≠ x) = true := by
      intro a ha
      rw [List.mem_reverse] at ha
      rw [decide_eq_true_eq]
      rintro rfl
      exact hf ha
    rw [List.reverse_append, List.reverse_cons, List.append_assoc, List.takeWhile_append_of_pos hall]
    simp
  rw [← last hd, ← last he, h]

/-- What precedes the first separator is the same in both lists, and so is the rest. -/
theorem eq_of_sep_append {α : Type} [DecidableEq α] {x : α} {xs ys ds es : List α}
    (h : xs ++ x :: ds = ys ++ x :: es) (hx : x ∉ xs) (hy : x ∉ ys) : xs = ys ∧ ds = es := by
  have hrev := congrArg List.reverse h
  simp only [List.reverse_append, List.reverse_cons, List.append_assoc, List.singleton_append] at hrev
  have heq := eq_of_append_sep hrev (by rwa [List.mem_reverse]) (by rwa [List.mem_reverse])
  obtain rfl := List.reverse_injective heq
  exact ⟨rfl, (List.cons.inj (List.append_cancel_left h)).2⟩

theorem splitOn_cases {α : Type} [DecidableEq α] (x : α) (l : List α) :
    (x ∉ l ∧ l.splitOn x = [l]) ∨
      ∃ xs ds, x ∉ xs ∧ l = xs ++ x :: ds ∧ l.splitOn x = xs :: ds.splitOn x := by
  by_cases hx : x ∈ l
  · obtain ⟨xs, ds, rfl, hxs⟩ := List.eq_append_cons_of_mem hx
    exact Or.inr ⟨xs, ds, hxs, rfl, List.splitOn_append_cons_self_of_not_mem hxs ds⟩
  · exact Or.inl ⟨hx, List.splitOn_eq_singleton hx⟩

theorem hash_not_mem_toString (n : ℕ) : '#' ∉ (toString n).toList := by
  rw [Nat.toString_eq_ofList_toDigits, String.toList_ofList]
  intro h
  have hdigit := Nat.isDigit_of_mem_toDigits (by omega) (by omega) h
  revert hdigit
  decide

/-- A joined string, cut before its last component. -/
theorem toList_intercalate_concat {l : List String} (h : l ≠ []) (s : String) :
    ∃ xs, (String.intercalate "#" (l ++ [s])).toList = xs ++ '#' :: s.toList := by
  have hcut := String.intercalate_append_of_ne_nil (s := "#") h (List.cons_ne_nil s [])
  rw [String.intercalate_singleton] at hcut
  have hlist := congrArg String.toList hcut
  rw [String.toList_append, String.toList_append, List.append_assoc] at hlist
  exact ⟨_, hlist⟩

/-- A joined string, cut after its first component. -/
theorem toList_intercalate_cons (s : String) {l : List String} (h : l ≠ []) :
    (String.intercalate "#" (s :: l)).toList = s.toList ++ '#' :: (String.intercalate "#" l).toList := by
  have hcut := String.intercalate_append_of_ne_nil (s := "#") (List.cons_ne_nil s []) h
  rw [String.intercalate_singleton] at hcut
  have hlist := congrArg String.toList hcut
  rw [String.toList_append, String.toList_append, List.append_assoc] at hlist
  exact hlist

/-- Joined strings that are equal start with the same component, if it is free of the
    separator, and go on in the same way. -/
theorem intercalate_cons_inj {s t : String} {l l' : List String} (hl : l ≠ []) (hl' : l' ≠ [])
    (hs : '#' ∉ s.toList) (ht : '#' ∉ t.toList)
    (h : String.intercalate "#" (s :: l) = String.intercalate "#" (t :: l')) :
    s = t ∧ String.intercalate "#" l = String.intercalate "#" l' := by
  have hlist := congrArg String.toList h
  rw [toList_intercalate_cons s hl, toList_intercalate_cons t hl'] at hlist
  obtain ⟨hst, hrest⟩ := eq_of_sep_append hlist hs ht
  exact ⟨String.toList_injective hst, String.toList_injective hrest⟩

/-- Joined strings that are equal end in the same number. -/
theorem eq_of_intercalate_eq {l l' : List String} {n n' : ℕ} (hl : l ≠ []) (hl' : l' ≠ [])
    (h : String.intercalate "#" (l ++ [toString n]) = String.intercalate "#" (l' ++ [toString n'])) :
    n = n' := by
  obtain ⟨xs, hx⟩ := toList_intercalate_concat hl (toString n)
  obtain ⟨ys, hy⟩ := toList_intercalate_concat hl' (toString n')
  have hd := eq_of_append_sep (hx.symm.trans ((congrArg String.toList h).trans hy))
    (hash_not_mem_toString n) (hash_not_mem_toString n')
  rw [Nat.toString_eq_ofList_toDigits, Nat.toString_eq_ofList_toDigits, String.toList_ofList,
    String.toList_ofList] at hd
  have hnum := congrArg (Nat.ofDigitChars 10 · 0) hd
  simpa only [Nat.ofDigitChars_ten_toDigits] using hnum

end VmEngine
