/-
  Loops that go over a collection in any order, stop early and write as they go.

  `next g a` is what the element `a` makes of the accumulator `g`: the loop goes on with
  a new one, or ends with the one it returns.  An element that the loop goes past is
  written under its key.  `orderFree_iff` says when no two orders of the elements can be
  told apart by the final accumulator, the early end or what is left written, and
  `orderFree_iff_of_thins` says it without orders.
-/
import Mathlib.Data.List.Perm.Subperm

namespace VmEngine

/-- The value that a list of writes leaves under a key. -/
def lastWrite {α κ ν : Type} [DecidableEq κ] (key : α → κ) (value : α → ν) (k : κ) :
    List α → Option ν
  | [] => none
  | a :: l => (lastWrite key value k l).or (if key a = k then some (value a) else none)

theorem lastWrite_eq_some {α κ ν : Type} [DecidableEq κ] {key : α → κ} {value : α → ν} {k : κ}
    {l : List α} {v : ν} (h : lastWrite key value k l = some v) :
    ∃ a ∈ l, key a = k ∧ value a = v := by
  induction l with
  | nil => cases h
  | cons a l ih =>
    rcases Option.or_eq_some_iff.1 h with h | ⟨-, h⟩
    · obtain ⟨b, hb, hkv⟩ := ih h
      exact ⟨b, List.mem_cons_of_mem a hb, hkv⟩
    · split_ifs at h with hk
      exact ⟨a, List.mem_cons_self, hk, Option.some.inj h⟩

structure WriteLoop (G α κ ν : Type) where
  next : G → α → Except G G
  key : α → κ
  value : α → ν

namespace WriteLoop
variable {G α κ ν : Type} (L : WriteLoop G α κ ν)

/-- How the loop ends: early (`error`) or after all elements (`ok`). -/
def run : List α → G → Except G G
  | [], g => .ok g
  | a :: l, g =>
    match L.next g a with
    | .error g' => .error g'
    | .ok g' => run l g'

/-- The elements that the loop goes past. -/
def done : List α → G → List α
  | [], _ => []
  | a :: l, g =>
    match L.next g a with
    | .error _ => []
    | .ok g' => a :: done l g'

/-- The value that the elements of a list leave under a key. -/
def last [DecidableEq κ] (k : κ) (l : List α) : Option ν := lastWrite L.key L.value k l

/-- Elements with the same key have the same value. -/
def Agree (l : List α) : Prop := ∀ a ∈ l, ∀ b ∈ l, L.key a = L.key b → L.value a = L.value b

/-- Any two orders of the elements give the same end and leave the same values. -/
def OrderFree [DecidableEq κ] (l : List α) (g : G) : Prop :=
  ∀ l₁ l₂ : List α, l₁.Perm l → l₂.Perm l →
    L.run l₁ g = L.run l₂ g ∧ ∀ k, L.last k (L.done l₁ g) = L.last k (L.done l₂ g)

/-- The loop goes through the whole list. -/
def Runs (g : G) (l : List α) : Prop := ∃ g', L.run l g = .ok g'

variable {L} {a : α} {g g' : G} {l : List α}

theorem run_cons_ok (h : L.next g a = .ok g') : L.run (a :: l) g = L.run l g' := by
  simp only [run, h]

theorem run_cons_error (h : L.next g a = .error g') : L.run (a :: l) g = .error g' := by
  simp only [run, h]

theorem done_cons_ok (h : L.next g a = .ok g') : L.done (a :: l) g = a :: L.done l g' := by
  simp only [done, h]

theorem done_cons_error (h : L.next g a = .error g') : L.done (a :: l) g = [] := by
  simp only [done, h]

theorem runs_cons : L.Runs g (a :: l) ↔ ∃ g', L.next g a = .ok g' ∧ L.Runs g' l := by
  unfold Runs
  rcases ha : L.next g a with g₁ | g₁
  · rw [run_cons_error ha]
    simp
  · rw [run_cons_ok ha]
    simp

/-- A loop that goes through all elements writes them all. -/
theorem done_of_run_ok (h : L.run l g = .ok g') : L.done l g = l := by
  induction l generalizing g with
  | nil => rfl
  | cons a l ih =>
    rcases ha : L.next g a with g₁ | g₁
    · rw [run_cons_error ha] at h
      cases h
    · rw [run_cons_ok ha] at h
      rw [done_cons_ok ha, ih h]

/-- What the loop goes past are elements of the list that it could go past. -/
theorem mem_of_mem_done (h : a ∈ L.done l g) : a ∈ l ∧ ∃ g g', L.next g a = .ok g' := by
  induction l generalizing g with
  | nil => cases h
  | cons b l ih =>
    rcases hb : L.next g b with g₁ | g₁
    · rw [done_cons_error hb] at h
      cases h
    · rw [done_cons_ok hb] at h
      rcases List.mem_cons.1 h with rfl | h
      · exact ⟨List.mem_cons_self, g, g₁, hb⟩
      · exact ⟨List.mem_cons_of_mem b (ih h).1, (ih h).2⟩

/-- The loop goes past the longest part at the head of the list that it can go through. -/
theorem done_spec (l : List α) (g : G) : ∃ r, l = L.done l g ++ r ∧ L.Runs g (L.done l g) ∧
    ∀ x ∈ r.head?, ¬ L.Runs g (L.done l g ++ [x]) := by
  induction l generalizing g with
  | nil => exact ⟨[], rfl, ⟨g, rfl⟩, fun x hx => by cases hx⟩
  | cons a l ih =>
    rcases ha : L.next g a with g₁ | g₁
    · rw [done_cons_error ha]
      refine ⟨a :: l, rfl, ⟨g, rfl⟩, fun x hx => ?_⟩
      cases hx
      simp [runs_cons, ha]
    · obtain ⟨r, hl, hruns, hmax⟩ := ih g₁
      rw [done_cons_ok ha]
      refine ⟨r, by rw [List.cons_append, ← hl], runs_cons.2 ⟨g₁, ha, hruns⟩, fun x hx h => ?_⟩
      obtain ⟨_, h₁, h⟩ := runs_cons.1 h
      cases ha.symm.trans h₁
      exact hmax x hx h

theorem done_append {p r : List α} (hp : L.Runs g p) (hmax : ∀ x ∈ r.head?, ¬ L.Runs g (p ++ [x])) :
    L.done (p ++ r) g = p := by
  induction p generalizing g with
  | nil =>
    rcases r with _ | ⟨x, r⟩
    · rfl
    · rcases hx : L.next g x with g₁ | g₁
      · exact done_cons_error hx
      · exact absurd ⟨g₁, run_cons_ok hx⟩ (hmax x rfl)
  | cons a p ih =>
    obtain ⟨g₁, ha, hp⟩ := runs_cons.1 hp
    rw [List.cons_append, done_cons_ok ha, ih hp fun x hx h => hmax x hx (runs_cons.2 ⟨g₁, ha, h⟩)]

theorem mem_done_append {p r : List α} (h : L.Runs g (p ++ [a])) : a ∈ L.done (p ++ a :: r) g := by
  induction p generalizing g with
  | nil =>
    obtain ⟨g₁, ha, -⟩ := runs_cons.1 h
    rw [List.nil_append, done_cons_ok ha]
    exact List.mem_cons_self
  | cons b p ih =>
    obtain ⟨g₁, hb, h⟩ := runs_cons.1 h
    rw [List.cons_append, done_cons_ok hb]
    exact List.mem_cons_of_mem b (ih h)

theorem mem_of_mem_done_append {b : α} {p r : List α} (h : ¬ L.Runs g (p ++ [a]))
    (hb : b ∈ L.done (p ++ a :: r) g) : b ∈ p := by
  induction p generalizing g with
  | nil =>
    rcases ha : L.next g a with g₁ | g₁
    · rw [List.nil_append, done_cons_error ha] at hb
      exact hb
    · exact absurd ⟨g₁, run_cons_ok ha⟩ h
  | cons c p ih =>
    rcases hc : L.next g c with g₁ | g₁
    · rw [List.cons_append, done_cons_error hc] at hb
      cases hb
    · rw [List.cons_append, done_cons_ok hc] at hb
      rcases List.mem_cons.1 hb with rfl | hb
      · exact List.mem_cons_self
      · exact List.mem_cons_of_mem c (ih (fun h' => h (runs_cons.2 ⟨g₁, hc, h'⟩)) hb)

/-! ## What is left written -/

theorem Agree.mono {l₁ l₂ : List α} (h : L.Agree l₂) (hsub : l₁ ⊆ l₂) : L.Agree l₁ :=
  fun a ha b hb => h a (hsub ha) b (hsub hb)

section
variable [DecidableEq κ]

theorem last_cons (k : κ) (a : α) (l : List α) :
    L.last k (a :: l) = (L.last k l).or (if L.key a = k then some (L.value a) else none) := rfl

variable {l : List α}

theorem last_eq_none {k : κ} (h : ∀ a ∈ l, L.key a ≠ k) : L.last k l = none := by
  induction l with
  | nil => rfl
  | cons a l ih =>
    rw [last_cons, ih fun b hb => h b (List.mem_cons_of_mem a hb), if_neg (h a List.mem_cons_self)]
    rfl

theorem last_isSome {a : α} (h : a ∈ l) : (L.last (L.key a) l).isSome := by
  induction l with
  | nil => cases h
  | cons b l ih =>
    rw [last_cons]
    rcases List.mem_cons.1 h with rfl | h
    · cases L.last (L.key a) l <;> simp
    · simp [ih h]

theorem last_concat (l : List α) (a : α) : L.last (L.key a) (l ++ [a]) = some (L.value a) := by
  induction l with
  | nil => simp [last, lastWrite]
  | cons b l ih =>
    rw [List.cons_append, last_cons, ih]
    rfl

/-- Where elements of one key agree, each of them gives the value left under it. -/
theorem Agree.last_eq (h : L.Agree l) {a : α} (ha : a ∈ l) :
    L.last (L.key a) l = some (L.value a) := by
  induction l generalizing a with
  | nil => cases ha
  | cons b l ih =>
    have hl : L.Agree l := fun x hx y hy =>
      h x (List.mem_cons_of_mem b hx) y (List.mem_cons_of_mem b hy)
    rw [last_cons]
    by_cases hmem : ∃ c ∈ l, L.key c = L.key a
    · obtain ⟨c, hc, hkey⟩ := hmem
      rw [← hkey, ih hl hc, h c (List.mem_cons_of_mem b hc) a ha hkey]
      rfl
    · rw [last_eq_none fun c hc hkey => hmem ⟨c, hc, hkey⟩]
      rcases List.mem_cons.1 ha with rfl | ha
      · simp
      · exact absurd ⟨a, ha, rfl⟩ hmem

/-- Elements that have all keys leave what all elements leave. -/
theorem Agree.last_subset {l₁ l₂ : List α} (h : L.Agree l₂) (hsub : l₁ ⊆ l₂)
    (hkeys : ∀ a ∈ l₂, ∃ b ∈ l₁, L.key b = L.key a) (k : κ) : L.last k l₁ = L.last k l₂ := by
  by_cases hmem : ∃ a ∈ l₂, L.key a = k
  · obtain ⟨a, ha, rfl⟩ := hmem
    obtain ⟨b, hb, hkey⟩ := hkeys a ha
    rw [h.last_eq ha, ← hkey, (h.mono hsub).last_eq hb, h b (hsub hb) a ha hkey]
  · have hnone : ∀ a ∈ l₂, L.key a ≠ k := fun a ha hk => hmem ⟨a, ha, hk⟩
    rw [last_eq_none hnone, last_eq_none fun a ha => hnone a (hsub ha)]

end

/-! ## Orders -/

theorem exists_perm_cons (h : a ∈ l) : ∃ l', (a :: l').Perm l := by
  obtain ⟨s, t, rfl⟩ := List.append_of_mem h
  exact ⟨s ++ t, List.perm_middle.symm⟩

theorem exists_perm_concat (h : a ∈ l) : ∃ l', (l' ++ [a]).Perm l := by
  obtain ⟨l', hp⟩ := exists_perm_cons h
  exact ⟨l', (List.perm_append_singleton a l').trans hp⟩

/-- Elements whose effects on the accumulator commute give the same end in every order, if no
    order ends early. -/
theorem run_perm (hcomm : ∀ {g a b ga gab gb gba}, L.next g a = .ok ga → L.next ga b = .ok gab →
      L.next g b = .ok gb → L.next gb a = .ok gba → gab = gba) {l₁ l₂ : List α} (hp : l₁.Perm l₂)
    (hall : ∀ l, l.Perm l₁ → L.Runs g l) : L.run l₁ g = L.run l₂ g := by
  induction hp generalizing g with
  | nil => rfl
  | @cons a l₁ l₂ _ ih =>
    obtain ⟨ga, ha, -⟩ := runs_cons.1 (hall _ (.refl _))
    rw [run_cons_ok ha, run_cons_ok ha]
    refine ih fun l hl => ?_
    unfold Runs
    rw [← run_cons_ok ha]
    exact hall _ (hl.cons a)
  | swap a b l =>
    obtain ⟨gb, hb, hba⟩ := runs_cons.1 (hall _ (.refl _))
    obtain ⟨ga, ha, hab⟩ := runs_cons.1 (hall _ (List.Perm.swap b a l))
    obtain ⟨gba, hba, -⟩ := runs_cons.1 hba
    obtain ⟨gab, hab, -⟩ := runs_cons.1 hab
    rw [run_cons_ok hb, run_cons_ok ha, run_cons_ok hba, run_cons_ok hab, hcomm hb hba ha hab]
  | trans h₁ _ ih₁ ih₂ =>
    rw [ih₁ hall, ih₂ fun l hl => hall l (hl.trans h₁.symm)]

variable [DecidableEq κ]

/-- If some element can be passed first, all can: an order that ends at once writes nothing. -/
theorem OrderFree.next_ok (h : L.OrderFree l g) {b : α} (ha : a ∈ l) (hb : b ∈ l) {ga : G}
    (hok : L.next g a = .ok ga) : ∃ gb, L.next g b = .ok gb := by
  rcases hnb : L.next g b with gb | gb
  · obtain ⟨la, hla⟩ := exists_perm_cons ha
    obtain ⟨lb, hlb⟩ := exists_perm_cons hb
    have hsame := (h _ _ hla hlb).2 (L.key a)
    rw [done_cons_ok hok, done_cons_error hnb] at hsame
    have hsome := last_isSome (L := L) (List.mem_cons_self (a := a) (l := L.done la ga))
    rw [hsame] at hsome
    cases hsome
  · exact ⟨gb, rfl⟩

theorem OrderFree.agree (h : L.OrderFree l g) (hall : ∀ l', l'.Perm l → L.Runs g l') :
    L.Agree l := by
  intro a ha b hb hkey
  obtain ⟨la, hla⟩ := exists_perm_concat ha
  obtain ⟨lb, hlb⟩ := exists_perm_concat hb
  obtain ⟨ga, hga⟩ := hall _ hla
  obtain ⟨gb, hgb⟩ := hall _ hlb
  have hsame := (h _ _ hla hlb).2 (L.key a)
  rw [done_of_run_ok hga, done_of_run_ok hgb, last_concat, hkey, last_concat] at hsame
  exact Option.some.inj hsame

/-- **When the order does not matter**: every element ends the loop at once and alike; or no
    order ends early and elements of one key agree; or every order ends early and alike, after
    writes that leave the same values. -/
theorem orderFree_iff
    (hcomm : ∀ {g a b ga gab gb gba}, L.next g a = .ok ga → L.next ga b = .ok gab →
      L.next g b = .ok gb → L.next gb a = .ok gba → gab = gba) (l : List α) (g : G) :
    L.OrderFree l g ↔
      (∃ g', ∀ a ∈ l, L.next g a = .error g') ∨
      (L.Agree l ∧ ∀ l', l'.Perm l → L.Runs g l') ∨
      ((∀ a ∈ l, ∃ g', L.next g a = .ok g') ∧ (∃ g', ∀ l', l'.Perm l → L.run l' g = .error g') ∧
        ∀ l₁ l₂ k, l₁.Perm l → l₂.Perm l → L.last k (L.done l₁ g) = L.last k (L.done l₂ g)) := by
  constructor
  · intro h
    by_cases hok : ∃ a ∈ l, ∃ ga, L.next g a = .ok ga
    · obtain ⟨a, ha, ga, hga⟩ := hok
      rcases hrun : L.run l g with g' | g'
      · refine .inr (.inr ⟨fun b hb => h.next_ok ha hb hga, ⟨g', fun l' hl' => ?_⟩, ?_⟩)
        · rw [(h l' l hl' (.refl l)).1, hrun]
        · exact fun l₁ l₂ k h₁ h₂ => (h l₁ l₂ h₁ h₂).2 k
      · have hall : ∀ l', l'.Perm l → L.Runs g l' := fun l' hl' =>
          ⟨g', by rw [(h l' l hl' (.refl l)).1, hrun]⟩
        exact .inr (.inl ⟨h.agree hall, hall⟩)
    · have herr : ∀ a ∈ l, ∃ g', L.next g a = .error g' := by
        intro a ha
        rcases hna : L.next g a with g' | g'
        · exact ⟨g', rfl⟩
        · exact absurd ⟨a, ha, g', hna⟩ hok
      rcases l with _ | ⟨a, l⟩
      · exact .inl ⟨g, fun a ha => by cases ha⟩
      · obtain ⟨g', ha⟩ := herr a List.mem_cons_self
        refine .inl ⟨g', fun b hb => ?_⟩
        obtain ⟨gb, hgb⟩ := herr b hb
        obtain ⟨lb, hlb⟩ := exists_perm_cons hb
        have hsame := (h _ _ hlb (.refl _)).1
        rw [run_cons_error hgb, run_cons_error ha] at hsame
        rw [hgb, hsame]
  · rintro (⟨g', hstop⟩ | ⟨hagree, hall⟩ | ⟨-, ⟨g', herr⟩, hlast⟩) l₁ l₂ h₁ h₂
    · have hend : ∀ l', l'.Perm l → l ≠ [] → L.run l' g = .error g' ∧ L.done l' g = [] := by
        rintro (_ | ⟨a, l'⟩) hp hne
        · exact absurd hp.nil_eq.symm hne
        · have ha := hstop a (hp.mem_iff.1 List.mem_cons_self)
          exact ⟨run_cons_error ha, done_cons_error ha⟩
      by_cases hl : l = []
      · rw [hl] at h₁ h₂
        rw [h₁.eq_nil, h₂.eq_nil]
        exact ⟨rfl, fun _ => rfl⟩
      · rw [(hend l₁ h₁ hl).1, (hend l₁ h₁ hl).2, (hend l₂ h₂ hl).1, (hend l₂ h₂ hl).2]
        exact ⟨rfl, fun _ => rfl⟩
    · obtain ⟨g₁, hg₁⟩ := hall l₁ h₁
      obtain ⟨g₂, hg₂⟩ := hall l₂ h₂
      have h₁₂ : l₁.Perm l₂ := h₁.trans h₂.symm
      refine ⟨run_perm hcomm h₁₂ fun l' hl' => hall l' (hl'.trans h₁), fun k => ?_⟩
      rw [done_of_run_ok hg₁, done_of_run_ok hg₂]
      exact (hagree.mono h₂.subset).last_subset h₁₂.subset
        (fun a ha => ⟨a, h₁₂.symm.subset ha, rfl⟩) k
    · exact ⟨by rw [herr l₁ h₁, herr l₂ h₂], fun k => hlast l₁ l₂ k h₁ h₂⟩

/-! ## Loops that can do without elements -/

/-- What the loop goes through, it goes through in any order and with fewer elements. -/
def Thins (L : WriteLoop G α κ ν) (g : G) (l : List α) : Prop :=
  ∀ {p p' : List α}, p.Subperm l → p'.Subperm p → L.Runs g p → L.Runs g p'

/-- The elements with other keys, and then the element. -/
def others (L : WriteLoop G α κ ν) (l : List α) (a : α) : List α :=
  l.filter (fun b => L.key b ≠ L.key a) ++ [a]

theorem exists_perm_others (ha : a ∈ l) : ∃ r, (L.others l a ++ r).Perm l := by
  have hsame : a ∈ l.filter fun b => ! decide (L.key b ≠ L.key a) := by simp [ha]
  obtain ⟨r, hr⟩ := exists_perm_cons hsame
  refine ⟨r, ?_⟩
  rw [others, List.append_assoc]
  exact (hr.append_left _).trans (List.filter_append_perm _ l)

theorem others_subperm (ha : a ∈ l) : (L.others l a).Subperm l := by
  obtain ⟨r, hr⟩ := exists_perm_others (L := L) ha
  exact (List.sublist_append_left _ r).subperm.trans hr.subperm

/-- Every element is the last one to be passed in some order. -/
theorem exists_last_done (hthin : L.Thins g l) (ha : a ∈ l) (hok : L.next g a = .ok g') :
    ∃ o, o.Perm l ∧ L.last (L.key a) (L.done o g) = some (L.value a) := by
  obtain ⟨l', hl'⟩ := exists_perm_cons ha
  obtain ⟨r, hsplit, hruns, hmax⟩ := done_spec (L := L) (a :: l') g
  rw [done_cons_ok hok] at hsplit hruns hmax
  generalize L.done l' g' = d at hsplit hruns hmax
  rw [hsplit] at hl'
  have hswap : (d ++ [a]).Perm (a :: d) := List.perm_append_singleton a d
  refine ⟨d ++ [a] ++ r, (hswap.append_right r).trans hl', ?_⟩
  have hd : (a :: d).Subperm l := (List.sublist_append_left _ r).subperm.trans hl'.subperm
  rw [done_append (hthin hd hswap.subperm hruns) fun x hx hrun => hmax x hx ?_, last_concat]
  refine hthin ?_ (hswap.symm.append_right [x]).subperm hrun
  rw [List.eq_cons_of_mem_head? hx] at hl'
  refine (hswap.append_right [x]).subperm.trans (List.Subperm.trans ?_ hl'.subperm)
  exact (List.Sublist.append_left (by simp) (a :: d)).subperm

/-- The key of an element is written also if all elements with other keys come first. -/
theorem OrderFree.runs_others (h : L.OrderFree l g) (ha : a ∈ l) (hok : L.next g a = .ok g') :
    L.Runs g (L.others l a) := by
  by_contra hnot
  obtain ⟨r, hr⟩ := exists_perm_others (L := L) ha
  obtain ⟨l', hl'⟩ := exists_perm_cons ha
  have hsame := (h _ _ hr hl').2 (L.key a)
  rw [others, List.append_assoc, List.singleton_append, last_eq_none, done_cons_ok hok] at hsame
  · have hsome := last_isSome (L := L) (List.mem_cons_self (a := a) (l := L.done l' g'))
    rw [← hsame] at hsome
    cases hsome
  · intro b hb
    simpa using (List.mem_filter.1 (mem_of_mem_done_append hnot hb)).2

/-- Where elements of one key agree and each is passed after those of other keys, every order
    leaves the same values. -/
theorem Agree.last_done (hagree : L.Agree l) (hthin : L.Thins g l)
    (hothers : ∀ a ∈ l, L.Runs g (L.others l a)) {o : List α} (ho : o.Perm l) (k : κ) :
    L.last k (L.done o g) = L.last k l := by
  refine hagree.last_subset (fun a ha => ho.subset (mem_of_mem_done ha).1) (fun a ha => ?_) k
  -- the first element of the key is passed
  obtain ⟨b, hfind⟩ : ∃ b, o.find? (fun b => L.key b = L.key a) = some b :=
    Option.isSome_iff_exists.1 (List.find?_isSome.2 ⟨a, ho.mem_iff.2 ha, by simp⟩)
  obtain ⟨hb, p, q, rfl, hp⟩ := List.find?_eq_some_iff_append.1 hfind
  have hkey : L.key b = L.key a := of_decide_eq_true hb
  have hbl : b ∈ l := ho.mem_iff.1 (by simp)
  have hfilter : p.filter (fun c => L.key c ≠ L.key b) = p :=
    List.filter_eq_self.2 fun c hc => by simpa [hkey] using hp c hc
  have hsub : (p ++ [b]).Subperm (L.others l b) := by
    refine (List.subperm_append_right [b]).2 ?_
    rw [← hfilter]
    exact ((List.sublist_append_left p _).filter _).subperm.trans (ho.filter _).subperm
  exact ⟨b, mem_done_append (hthin (others_subperm hbl) hsub (hothers b hbl)), hkey⟩

/-- **When the order of a loop that thins does not matter**, without a word on orders: every
    element ends the loop at once and alike; or elements of one key agree, and each can be passed
    after all elements with other keys. -/
theorem orderFree_iff_of_thins (hthin : L.Thins g l)
    (hcomm : ∀ {g a b ga gab gb gba}, L.next g a = .ok ga → L.next ga b = .ok gab →
      L.next g b = .ok gb → L.next gb a = .ok gba → gab = gba)
    (hstop : (∀ a ∈ l, L.Runs g [a]) → ∀ l', l'.Perm l → ¬ L.Runs g l' → L.run l' g = .error g') :
    L.OrderFree l g ↔ (∃ g', ∀ a ∈ l, L.next g a = .error g') ∨
      L.Agree l ∧ ∀ a ∈ l, L.Runs g (L.others l a) := by
  constructor
  · intro h
    have hok : (∃ g', ∀ a ∈ l, L.next g a = .error g') ∨ ∀ a ∈ l, ∃ ga, L.next g a = .ok ga := by
      rcases (orderFree_iff hcomm l g).1 h with hstop | ⟨-, hall⟩ | ⟨hok, -⟩
      · exact .inl hstop
      · refine .inr fun a ha => ?_
        obtain ⟨l', hl'⟩ := exists_perm_cons ha
        obtain ⟨ga, hga, -⟩ := runs_cons.1 (hall _ hl')
        exact ⟨ga, hga⟩
      · exact .inr hok
    refine hok.imp_right fun hok => ⟨fun a ha b hb hkey => ?_, fun a ha => ?_⟩
    · obtain ⟨ga, hga⟩ := hok a ha
      obtain ⟨gb, hgb⟩ := hok b hb
      obtain ⟨o₁, h₁, hlast₁⟩ := exists_last_done hthin ha hga
      obtain ⟨o₂, h₂, hlast₂⟩ := exists_last_done hthin hb hgb
      rw [(h o₁ o₂ h₁ h₂).2, hkey, hlast₂] at hlast₁
      exact (Option.some.inj hlast₁).symm
    · obtain ⟨ga, hga⟩ := hok a ha
      exact h.runs_others ha hga
  · rintro (hstop | ⟨hagree, hothers⟩)
    · exact (orderFree_iff hcomm l g).2 (.inl hstop)
    · have hall : ∀ {l₁ l₂ : List α}, l₁.Perm l → l₂.Perm l → L.Runs g l₁ → L.Runs g l₂ :=
        fun h₁ h₂ => hthin h₁.subperm (h₂.trans h₁.symm).subperm
      have hone : ∀ a ∈ l, L.Runs g [a] := fun a ha =>
        hthin (others_subperm ha) (List.sublist_append_right _ _).subperm (hothers a ha)
      intro l₁ l₂ h₁ h₂
      refine ⟨?_, fun k => by rw [hagree.last_done hthin hothers h₁, hagree.last_done hthin hothers h₂]⟩
      by_cases hruns : L.Runs g l₁
      · exact run_perm hcomm (h₁.trans h₂.symm) fun l' hl' => hall h₁ (hl'.trans h₁) hruns
      · rw [hstop hone l₁ h₁ hruns, hstop hone l₂ h₂ fun h => hruns (hall h₂ h₁ h)]

end WriteLoop

end VmEngine
