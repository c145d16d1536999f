/-
  The LRU cache of the engine (`vm_mgr/utils/lru.go`) as it is built: a list of elements,
  the most recent one first, and a map from keys to elements.

  Elements are pointers, known by their position in `elems`; an element that leaves the
  list keeps its entry there.  `ll` and `cache` are nil after `Clear`, and an operation
  that reads a nil list panics, which is `none` here.  `OnEvicted` is set nowhere and left
  out, and so are negative bounds.

  `answers_eq` says that the cache never panics and answers every sequence of operations
  as `Lru` does, where the entries are one list in the order of their last use.  It is the
  cache that the contract manager is modelled with.
-/
import VmEngine.Lib.Lru
import VmEngine.Lib.Indexed

namespace VmEngine

/-- `utils.Cache`.  `elems` are the elements that were ever made, with their entries. -/
structure Cache (κ ν : Type) where
  maxEntries : ℕ
  elems : List (κ × ν)
  ll : Option (List ℕ)
  cache : Option (LinkedMap κ ℕ)

/-- `list.MoveToFront`, which ignores an element of another list. -/
def moveToFront (l : List ℕ) (e : ℕ) : List ℕ := if e ∈ l then e :: l.erase e else l

namespace Cache
variable {κ ν : Type}

def newCache (maxEntries : ℕ) : Cache κ ν := ⟨maxEntries, [], some [], some .empty⟩

/-- A cache that was cleared gets a new list and a new map. -/
def ensure (c : Cache κ ν) : Cache κ ν :=
  if c.cache.isNone then { c with ll := some [], cache := some .empty } else c

def getOldest (c : Cache κ ν) : Option (Option ν) :=
  match c.cache with
  | none => some none
  | some _ =>
    match c.ll with
    | none => none
    | some l =>
      match l.getLast? with
      | none => some none
      | some e => c.elems[e]?.map fun kv => some kv.2

def len (c : Cache κ ν) : Option ℕ :=
  match c.cache with
  | none => some 0
  | some _ => c.ll.map List.length

def clear (c : Cache κ ν) : Cache κ ν := { c with ll := none, cache := none }

variable [DecidableEq κ]

def removeElement (c : Cache κ ν) (e : ℕ) : Option (Cache κ ν) :=
  match c.ll, c.cache, c.elems[e]? with
  | some l, some m, some kv => some { c with ll := some (l.erase e), cache := some (m.remove kv.1) }
  | _, _, _ => none

def removeOldest (c : Cache κ ν) : Option (Cache κ ν) :=
  match c.cache with
  | none => some c
  | some _ =>
    match c.ll with
    | none => none
    | some l =>
      match l.getLast? with
      | none => some c
      | some e => c.removeElement e

def add (c : Cache κ ν) (k : κ) (v : ν) : Option (Cache κ ν) :=
  match c.ensure.cache, c.ensure.ll with
  | some m, some l =>
    match m.get? k with
    | some e =>
      c.elems[e]?.map fun kv =>
        { c.ensure with ll := some (moveToFront l e), elems := c.elems.set e (kv.1, v) }
    | none =>
      let ele := c.elems.length
      let c' : Cache κ ν :=
        { c with elems := c.elems ++ [(k, v)], ll := some (ele :: l), cache := some (m.put k ele) }
      if c.maxEntries ≠ 0 ∧ c.maxEntries < l.length + 1 then c'.removeOldest else some c'
  | _, _ => none

def get (c : Cache κ ν) (k : κ) : Option (Option ν × Cache κ ν) :=
  match c.cache with
  | none => some (none, c)
  | some m =>
    match m.get? k with
    | none => some (none, c)
    | some e =>
      match c.ll, c.elems[e]? with
      | some l, some kv => some (some kv.2, { c with ll := some (moveToFront l e) })
      | _, _ => none

def remove (c : Cache κ ν) (k : κ) : Option (Cache κ ν) :=
  match c.cache with
  | none => some c
  | some m =>
    match m.get? k with
    | none => some c
    | some e => c.removeElement e

end Cache

/-! ## Sequences of operations -/

inductive CacheOp (κ ν : Type) where
  | add (k : κ) (v : ν)
  | get (k : κ)
  | remove (k : κ)
  | removeOldest
  | getOldest
  | len
  | clear

/-- What the caller sees. -/
inductive CacheAnswer (ν : Type) where
  | done
  | value (v : Option ν)
  | size (n : ℕ)
deriving DecidableEq, Repr

section
variable {κ ν : Type} [DecidableEq κ]

def Cache.exec (c : Cache κ ν) : CacheOp κ ν → Option (CacheAnswer ν × Cache κ ν)
  | .add k v => (c.add k v).map (.done, ·)
  | .get k => (c.get k).map fun r => (.value r.1, r.2)
  | .remove k => (c.remove k).map (.done, ·)
  | .removeOldest => c.removeOldest.map (.done, ·)
  | .getOldest => c.getOldest.map (.value ·, c)
  | .len => c.len.map (.size ·, c)
  | .clear => some (.done, c.clear)

/-- The answers to a sequence of operations. -/
def Cache.answers (c : Cache κ ν) : List (CacheOp κ ν) → Option (List (CacheAnswer ν))
  | [] => some []
  | op :: ops => (c.exec op).bind fun r => (r.2.answers ops).map (r.1 :: ·)

def Lru.exec (a : Lru κ ν) : CacheOp κ ν → CacheAnswer ν × Lru κ ν
  | .add k v => (.done, a.add k v)
  | .get k => (.value (a.get k).1, (a.get k).2)
  | .remove k => (.done, a.remove k)
  | .removeOldest => (.done, a.removeOldest)
  | .getOldest => (.value a.getOldest, a)
  | .len => (.size a.len, a)
  | .clear => (.done, .new a.maxEntries)

def Lru.answers (a : Lru κ ν) : List (CacheOp κ ν) → List (CacheAnswer ν)
  | [] => []
  | op :: ops => (a.exec op).1 :: (a.exec op).2.answers ops

end

/-! ## The entries in the list -/

namespace Cache
variable {κ ν : Type} {elems : List (κ × ν)} {l : List ℕ} {m : LinkedMap κ ℕ} {e : ℕ} {k : κ} {v : ν}

/-- The entries of some elements. -/
def pairs (elems : List (κ × ν)) (l : List ℕ) : List (κ × ν) := l.filterMap (elems[·]?)

variable [DecidableEq κ]

/-- The elements of the list are those of the map, each under the key of its entry. -/
structure Rep (elems : List (κ × ν)) (l : List ℕ) (m : LinkedMap κ ℕ) : Prop where
  nodup : l.Nodup
  live : ∀ {e : ℕ}, e ∈ l → ∃ kv, elems[e]? = some kv ∧ m.get? kv.1 = some e
  found : ∀ {k : κ} {e : ℕ}, m.get? k = some e → e ∈ l ∧ ∃ v, elems[e]? = some (k, v)

theorem mem_pairs (hR : Rep elems l m) :
    (k, v) ∈ pairs elems l ↔ ∃ e, m.get? k = some e ∧ elems[e]? = some (k, v) := by
  unfold pairs
  rw [List.mem_filterMap]
  constructor
  · rintro ⟨e, he, hkv⟩
    obtain ⟨kv, hkv', hm⟩ := hR.live he
    cases hkv.symm.trans hkv'
    exact ⟨e, hm, hkv⟩
  · rintro ⟨e, hm, hkv⟩
    exact ⟨e, (hR.found hm).1, hkv⟩

theorem length_pairs (hR : Rep elems l m) : (pairs elems l).length = l.length := by
  have hlive : ∀ {l' : List ℕ}, (∀ e ∈ l', e ∈ l) → (pairs elems l').length = l'.length := by
    intro l' hl'
    induction l' with
    | nil => rfl
    | cons e l' ih =>
      obtain ⟨kv, hkv, -⟩ := hR.live (hl' e (List.mem_cons_self ..))
      have hcons : pairs elems (e :: l') = kv :: pairs elems l' := List.filterMap_cons_some hkv
      rw [hcons, List.length_cons, List.length_cons, ih fun x hx => hl' x (List.mem_cons_of_mem _ hx)]
  exact hlive fun _ he => he

/-- An element that leaves the list takes its key along. -/
theorem pairs_erase (hR : Rep elems l m) (he : e ∈ l) (hkv : elems[e]? = some (k, v)) :
    pairs elems (l.erase e) = (pairs elems l).filter (·.1 ≠ k) := by
  unfold pairs
  rw [hR.nodup.erase_eq_filter, List.filterMap_filter, List.filter_filterMap]
  refine List.filterMap_congr fun x hx => ?_
  obtain ⟨kv, hx', hm⟩ := hR.live hx
  obtain ⟨kv', he', hm'⟩ := hR.live he
  cases hkv.symm.trans he'
  rw [hx']
  by_cases hxe : x = e
  · subst hxe
    cases hkv.symm.trans hx'
    simp [Option.filter]
  · have hne : kv.1 ≠ k := by
      intro hk
      rw [hk, hm'] at hm
      exact hxe (Option.some.inj hm).symm
    simp [Option.filter, hxe, hne]

theorem pairs_set_erase (hR : Rep elems l m) (x : κ × ν) :
    pairs (elems.set e x) (l.erase e) = pairs elems (l.erase e) := by
  refine List.filterMap_congr fun y hy => ?_
  rw [List.getElem?_set_ne]
  rintro rfl
  exact hR.nodup.not_mem_erase hy

theorem pairs_concat (hR : Rep elems l m) (x : κ × ν) : pairs (elems ++ [x]) l = pairs elems l := by
  refine List.filterMap_congr fun y hy => ?_
  obtain ⟨kv, hkv, -⟩ := hR.live hy
  rw [getElem?_concat_of_some hkv, hkv]

/-! ## What the operations keep -/

theorem rep_new : Rep ([] : List (κ × ν)) [] .empty where
  nodup := List.nodup_nil
  live h := by cases h
  found h := by cases h

/-- The element of `k` comes to the front, with another value. -/
theorem Rep.front (hR : Rep elems l m) (hm : m.get? k = some e) (v : ν) :
    Rep (elems.set e (k, v)) (e :: l.erase e) m where
  nodup := by
    rw [List.nodup_cons]
    exact ⟨hR.nodup.not_mem_erase, hR.nodup.erase e⟩
  live {x} hx := by
    obtain ⟨he, w, hw⟩ := hR.found hm
    by_cases hxe : x = e
    · subst hxe
      exact ⟨(k, v), getElem?_set_self_of_some hw _, hm⟩
    · have hxl : x ∈ l := by
        rcases List.mem_cons.1 hx with h | h
        · exact absurd h hxe
        · exact List.mem_of_mem_erase h
      obtain ⟨kv, hkv, hm'⟩ := hR.live hxl
      exact ⟨kv, by rw [List.getElem?_set_ne (Ne.symm hxe), hkv], hm'⟩
  found {k' x} hk' := by
    obtain ⟨he, w, hw⟩ := hR.found hm
    by_cases hxe : x = e
    · subst hxe
      obtain ⟨-, w', hw'⟩ := hR.found hk'
      cases hw.symm.trans hw'
      exact ⟨List.mem_cons_self .., v, getElem?_set_self_of_some hw _⟩
    · obtain ⟨hx, w', hw'⟩ := hR.found hk'
      refine ⟨List.mem_cons_of_mem _ ((List.mem_erase_of_ne hxe).2 hx), w', ?_⟩
      rw [List.getElem?_set_ne (Ne.symm hxe), hw']

/-- A new element for a new key. -/
theorem Rep.push (hR : Rep elems l m) (hm : m.get? k = none) (v : ν) :
    Rep (elems ++ [(k, v)]) (elems.length :: l) (m.put k elems.length) where
  nodup := by
    refine List.nodup_cons.2 ⟨fun h => ?_, hR.nodup⟩
    obtain ⟨kv, hkv, -⟩ := hR.live h
    exact absurd (List.getElem?_eq_some_iff.1 hkv).1 (Nat.lt_irrefl _)
  live {x} hx := by
    rcases List.mem_cons.1 hx with rfl | hx
    · exact ⟨(k, v), List.getElem?_concat_length .., LinkedMap.get?_put_self ..⟩
    · obtain ⟨kv, hkv, hm'⟩ := hR.live hx
      refine ⟨kv, getElem?_concat_of_some hkv _, ?_⟩
      rw [LinkedMap.get?_put_of_ne m (LinkedMap.ne_of_get? hm' hm), hm']
  found {k' x} hk' := by
    rcases LinkedMap.get?_of_put hk' with ⟨rfl, rfl⟩ | hold
    · exact ⟨List.mem_cons_self .., v, List.getElem?_concat_length ..⟩
    · obtain ⟨hx, w, hw⟩ := hR.found hold
      exact ⟨List.mem_cons_of_mem _ hx, w, getElem?_concat_of_some hw _⟩

theorem Rep.erase (hR : Rep elems l m) (he : e ∈ l) (hkv : elems[e]? = some (k, v)) :
    Rep elems (l.erase e) (m.remove k) where
  nodup := hR.nodup.erase e
  live {x} hx := by
    obtain ⟨kv, hkv', hm⟩ := hR.live (List.mem_of_mem_erase hx)
    obtain ⟨kv', he', hm'⟩ := hR.live he
    cases hkv.symm.trans he'
    refine ⟨kv, hkv', ?_⟩
    rw [LinkedMap.get?_remove_of_ne m, hm]
    intro hk
    rw [hk, hm'] at hm
    cases hm
    exact hR.nodup.not_mem_erase hx
  found {k' x} hk' := by
    obtain ⟨hx, w, hw⟩ := hR.found (LinkedMap.get?_of_remove hk')
    refine ⟨(List.mem_erase_of_ne ?_).2 hx, w, hw⟩
    rintro rfl
    cases hkv.symm.trans hw
    rw [LinkedMap.get?_remove_self] at hk'
    cases hk'

/-! ## Two caches in step -/

variable {c : Cache κ ν} {a : Lru κ ν}

/-- `a` lists the entries of a list and a map, the oldest first. -/
structure Lists (a : Lru κ ν) (elems : List (κ × ν)) (l : List ℕ) (m : LinkedMap κ ℕ) : Prop where
  rep : Rep elems l m
  entries : a.ll.entries = (pairs elems l).reverse

/-- The cache and its abstraction: both cleared, or with the same entries. -/
def Sim (c : Cache κ ν) (a : Lru κ ν) : Prop :=
  a.maxEntries = c.maxEntries ∧
    (c.ll = none ∧ c.cache = none ∧ a.ll.entries = [] ∨
      ∃ l m, c.ll = some l ∧ c.cache = some m ∧ Lists a c.elems l m)

theorem Lists.find? (h : Lists a elems l m) :
    a.find? k = some v ↔ ∃ e, m.get? k = some e ∧ elems[e]? = some (k, v) := by
  rw [Lru.find?_eq_some, h.entries, List.mem_reverse, mem_pairs h.rep]

theorem Lists.find?_none (h : Lists a elems l m) : a.find? k = none ↔ m.get? k = none := by
  constructor
  · intro hn
    cases hm : m.get? k with
    | none => rfl
    | some e =>
      obtain ⟨-, v, hv⟩ := h.rep.found hm
      rw [h.find?.2 ⟨e, hm, hv⟩] at hn
      cases hn
  · intro hm
    cases hf : a.find? k with
    | none => rfl
    | some v =>
      obtain ⟨e, he, -⟩ := h.find?.1 hf
      cases hm.symm.trans he

theorem Lists.len (h : Lists a elems l m) : a.len = l.length := by
  rw [Lru.len, LinkedMap.size, h.entries, List.length_reverse, length_pairs h.rep]

/-- The entries without a key. -/
theorem Lists.remove (h : Lists a elems l m) (he : e ∈ l) (hkv : elems[e]? = some (k, v)) :
    Lists (a.remove k) elems (l.erase e) (m.remove k) where
  rep := h.rep.erase he hkv
  entries := by
    show a.ll.entries.filter _ = _
    rw [h.entries, List.filter_reverse, pairs_erase h.rep he hkv]

/-- The entry of a key, moved to the end with another value. -/
theorem Lists.moveToEnd (h : Lists a elems l m) (hm : m.get? k = some e) (v : ν) :
    Lists { a with ll := a.ll.moveToEnd k v } (elems.set e (k, v)) (e :: l.erase e) m where
  rep := h.rep.front hm v
  entries := by
    obtain ⟨he, w, hw⟩ := h.rep.found hm
    have hnot : k ∉ (a.ll.remove k).keys := by
      rw [← LinkedMap.get?_eq_none, LinkedMap.get?_remove_self]
    have hcons : pairs (elems.set e (k, v)) (e :: l.erase e) =
        (k, v) :: pairs (elems.set e (k, v)) (l.erase e) :=
      List.filterMap_cons_some (getElem?_set_self_of_some hw _)
    show (a.ll.moveToEnd k v).entries = _
    rw [LinkedMap.moveToEnd, LinkedMap.entries_put_of_not_mem v hnot, hcons, pairs_set_erase h.rep,
      List.reverse_cons]
    exact congrArg (· ++ [(k, v)]) (h.remove he hw).entries

theorem Lists.put (h : Lists a elems l m) (hm : m.get? k = none) (v : ν) :
    Lists { a with ll := a.ll.put k v } (elems ++ [(k, v)]) (elems.length :: l)
      (m.put k elems.length) where
  rep := h.rep.push hm v
  entries := by
    have hnot : k ∉ a.ll.keys := LinkedMap.get?_eq_none.1 (h.find?_none.2 hm)
    have hcons : pairs (elems ++ [(k, v)]) (elems.length :: l) =
        (k, v) :: pairs (elems ++ [(k, v)]) l :=
      List.filterMap_cons_some (List.getElem?_concat_length ..)
    show (a.ll.put k v).entries = _
    rw [LinkedMap.entries_put_of_not_mem v hnot, hcons, pairs_concat h.rep, List.reverse_cons, h.entries]

/-- The element at the back has the oldest entry. -/
theorem Lists.oldest (h : Lists a elems l m) :
    l.getLast? = none ∧ a.oldest? = none ∨
      ∃ e k v, l.getLast? = some e ∧ e ∈ l ∧ elems[e]? = some (k, v) ∧ a.oldest? = some (k, v) := by
  rcases List.eq_nil_or_concat l with rfl | ⟨l', e, rfl⟩
  · refine Or.inl ⟨rfl, ?_⟩
    rw [Lru.oldest?, h.entries]
    rfl
  · rw [List.concat_eq_append] at h ⊢
    have he : e ∈ l' ++ [e] := by simp
    obtain ⟨⟨k, v⟩, hkv, -⟩ := h.rep.live he
    refine Or.inr ⟨e, k, v, by simp, he, hkv, ?_⟩
    have hcat : pairs elems (l' ++ [e]) = pairs elems l' ++ [(k, v)] := by
      simp [pairs, hkv]
    rw [Lru.oldest?, h.entries, hcat, List.reverse_append]
    rfl

theorem Lists.sim (h : Lists a elems l m) (hmax : a.maxEntries = c.maxEntries) (he : c.elems = elems)
    (hl : c.ll = some l) (hm : c.cache = some m) : Sim c a :=
  ⟨hmax, Or.inr ⟨l, m, hl, hm, he ▸ h⟩⟩

theorem Sim.removeOldest (h : Sim c a) : ∃ c', c.removeOldest = some c' ∧ Sim c' a.removeOldest := by
  obtain ⟨hmax, ⟨hl, hm, hnil⟩ | ⟨l, m, hl, hm, hR⟩⟩ := h
  · have hold : a.oldest? = none := by rw [Lru.oldest?, hnil]; rfl
    refine ⟨c, by simp [Cache.removeOldest, hm], ?_⟩
    rw [Lru.removeOldest, hold]
    exact ⟨hmax, Or.inl ⟨hl, hm, hnil⟩⟩
  · rcases hR.oldest with ⟨hlast, hold⟩ | ⟨e, k, v, hlast, he, hkv, hold⟩
    · refine ⟨c, by simp [Cache.removeOldest, hm, hl, hlast], ?_⟩
      rw [Lru.removeOldest, hold]
      exact hR.sim hmax rfl hl hm
    · refine ⟨{ c with ll := some (l.erase e), cache := some (m.remove k) }, ?_, ?_⟩
      · simp [Cache.removeOldest, removeElement, hm, hl, hlast, hkv]
      · rw [Lru.removeOldest, hold]
        exact (hR.remove he hkv).sim hmax rfl rfl rfl

theorem Sim.remove (h : Sim c a) (k : κ) : ∃ c', c.remove k = some c' ∧ Sim c' (a.remove k) := by
  have hsame : a.find? k = none → a.ll.entries = (a.remove k).ll.entries := by
    intro hn
    refine (List.filter_eq_self.2 fun kv hkv => ?_).symm
    have hne : kv.1 ≠ k := fun hk => LinkedMap.get?_eq_none.1 hn (List.mem_map.2 ⟨kv, hkv, hk⟩)
    simpa using hne
  obtain ⟨hmax, ⟨hl, hm, hnil⟩ | ⟨l, m, hl, hm, hR⟩⟩ := h
  · refine ⟨c, by simp [Cache.remove, hm], hmax, Or.inl ⟨hl, hm, ?_⟩⟩
    show a.ll.entries.filter _ = []
    rw [hnil]
    rfl
  · cases hk : m.get? k with
    | none =>
      refine ⟨c, by simp [Cache.remove, hm, hk], hmax, Or.inr ⟨l, m, hl, hm, hR.rep, ?_⟩⟩
      rw [← hsame (hR.find?_none.2 hk), hR.entries]
    | some e =>
      obtain ⟨he, v, hkv⟩ := hR.rep.found hk
      refine ⟨{ c with ll := some (l.erase e), cache := some (m.remove k) }, ?_, ?_⟩
      · simp [Cache.remove, removeElement, hm, hl, hk, hkv]
      · exact (hR.remove he hkv).sim hmax rfl rfl rfl

theorem Sim.get (h : Sim c a) (k : κ) :
    ∃ c', c.get k = some ((a.get k).1, c') ∧ Sim c' (a.get k).2 := by
  obtain ⟨hmax, ⟨hl, hm, hnil⟩ | ⟨l, m, hl, hm, hR⟩⟩ := h
  · have hf : a.find? k = none := by
      rw [Lru.find?, LinkedMap.get?, hnil]
      rfl
    refine ⟨c, ?_, ?_⟩
    · rw [Lru.fst_get, hf]
      simp [Cache.get, hm]
    · rw [Lru.get, hf]
      exact ⟨hmax, Or.inl ⟨hl, hm, hnil⟩⟩
  · cases hk : m.get? k with
    | none =>
      have hf := hR.find?_none.2 hk
      refine ⟨c, ?_, ?_⟩
      · rw [Lru.fst_get, hf]
        simp [Cache.get, hm, hk]
      · rw [Lru.get, hf]
        exact hR.sim hmax rfl hl hm
    | some e =>
      obtain ⟨he, v, hkv⟩ := hR.rep.found hk
      have hf := hR.find?.2 ⟨e, hk, hkv⟩
      refine ⟨{ c with ll := some (moveToFront l e) }, ?_, ?_⟩
      · rw [Lru.fst_get, hf]
        simp [Cache.get, hm, hl, hk, hkv]
      · rw [Lru.get, hf]
        have hset : c.elems.set e (k, v) = c.elems := by
          obtain ⟨hlt, heq⟩ := List.getElem?_eq_some_iff.1 hkv
          rw [← heq, List.set_getElem_self]
        have hmove := hR.moveToEnd hk v
        rw [hset] at hmove
        refine hmove.sim hmax rfl ?_ hm
        rw [moveToFront, if_pos he]

theorem Sim.ensure (h : Sim c a) :
    ∃ l m, c.ensure.ll = some l ∧ c.ensure.cache = some m ∧ Lists a c.elems l m := by
  obtain ⟨-, ⟨-, hm, hnil⟩ | ⟨l, m, hl, hm, hR⟩⟩ := h
  · refine ⟨[], .empty, by simp [Cache.ensure, hm], by simp [Cache.ensure, hm], ?_, hnil⟩
    exact ⟨List.nodup_nil, (fun h => by cases h), fun h => by cases h⟩
  · exact ⟨l, m, by simp [Cache.ensure, hm, hl], by simp [Cache.ensure, hm], hR⟩

omit [DecidableEq κ] in
theorem ensure_elems (c : Cache κ ν) :
    c.ensure.elems = c.elems ∧ c.ensure.maxEntries = c.maxEntries := by
  unfold Cache.ensure
  split_ifs <;> exact ⟨rfl, rfl⟩

theorem Sim.add (h : Sim c a) (k : κ) (v : ν) : ∃ c', c.add k v = some c' ∧ Sim c' (a.add k v) := by
  have hmax := h.1
  obtain ⟨l, m, hl, hm, hR⟩ := h.ensure
  cases hk : m.get? k with
  | some e =>
    obtain ⟨he, w, hkv⟩ := hR.rep.found hk
    have hmem : k ∈ a.ll.keys := LinkedMap.mem_keys_iff.2 ⟨w, hR.find?.2 ⟨e, hk, hkv⟩⟩
    refine ⟨{ c.ensure with ll := some (moveToFront l e), elems := c.elems.set e (k, v) }, ?_, ?_⟩
    · simp [Cache.add, hm, hl, hk, hkv]
    · rw [Lru.add, if_pos hmem]
      refine (hR.moveToEnd hk v).sim ?_ rfl ?_ hm
      · rw [(ensure_elems c).2]
        exact hmax
      · rw [moveToFront, if_pos he]
  | none =>
    have hmem : k ∉ a.ll.keys := LinkedMap.get?_eq_none.1 (hR.find?_none.2 hk)
    have hput := hR.put hk v
    have hlen : (a.ll.put k v).size = l.length + 1 := hput.len
    have hsim : Sim
        { c with
          elems := c.elems ++ [(k, v)]
          ll := some (c.elems.length :: l)
          cache := some (m.put k c.elems.length) }
        { a with ll := a.ll.put k v } := hput.sim hmax rfl rfl rfl
    obtain ⟨c', hc', hsim'⟩ := hsim.removeOldest
    by_cases hfull : c.maxEntries ≠ 0 ∧ c.maxEntries < l.length + 1
    · refine ⟨c', by simp [Cache.add, hm, hl, hk, hfull, hc'], ?_⟩
      have hfull' : a.maxEntries ≠ 0 ∧ a.maxEntries < (a.ll.put k v).size := by
        rw [hmax, hlen]
        exact hfull
      rw [Lru.add, if_neg hmem]
      exact (if_pos hfull').symm ▸ hsim'
    · refine ⟨_, by simp only [Cache.add, hm, hl, hk, if_neg hfull]; rfl, ?_⟩
      have hfull' : ¬ (a.maxEntries ≠ 0 ∧ a.maxEntries < (a.ll.put k v).size) := by
        rw [hmax, hlen]
        exact hfull
      rw [Lru.add, if_neg hmem]
      exact (if_neg hfull').symm ▸ hsim

theorem Sim.getOldest (h : Sim c a) : c.getOldest = some a.getOldest := by
  obtain ⟨-, ⟨-, hm, hnil⟩ | ⟨l, m, hl, hm, hR⟩⟩ := h
  · rw [Lru.getOldest, Lru.oldest?, hnil]
    simp [Cache.getOldest, hm]
  · rcases hR.oldest with ⟨hlast, hold⟩ | ⟨e, k, v, hlast, -, hkv, hold⟩
    · simp [Cache.getOldest, Lru.getOldest, hm, hl, hlast, hold]
    · simp [Cache.getOldest, Lru.getOldest, hm, hl, hlast, hkv, hold]

theorem Sim.len (h : Sim c a) : c.len = some a.len := by
  obtain ⟨-, ⟨-, hm, hnil⟩ | ⟨l, m, hl, hm, hR⟩⟩ := h
  · simp [Cache.len, Lru.len, LinkedMap.size, hm, hnil]
  · simp [Cache.len, hm, hl, hR.len]

/-- One operation: the cache does not panic, answers as the abstract one does, and stays in
    step with it. -/
theorem Sim.exec (h : Sim c a) (op : CacheOp κ ν) :
    ∃ c', c.exec op = some ((a.exec op).1, c') ∧ Sim c' (a.exec op).2 := by
  cases op with
  | add k v =>
    obtain ⟨c', hc', hsim⟩ := h.add k v
    exact ⟨c', by simp [Cache.exec, Lru.exec, hc'], hsim⟩
  | get k =>
    obtain ⟨c', hc', hsim⟩ := h.get k
    exact ⟨c', by simp [Cache.exec, Lru.exec, hc'], hsim⟩
  | remove k =>
    obtain ⟨c', hc', hsim⟩ := h.remove k
    exact ⟨c', by simp [Cache.exec, Lru.exec, hc'], hsim⟩
  | removeOldest =>
    obtain ⟨c', hc', hsim⟩ := h.removeOldest
    exact ⟨c', by simp [Cache.exec, Lru.exec, hc'], hsim⟩
  | getOldest => exact ⟨c, by simp [Cache.exec, Lru.exec, h.getOldest], h⟩
  | len => exact ⟨c, by simp [Cache.exec, Lru.exec, h.len], h⟩
  | clear => exact ⟨c.clear, rfl, h.1, Or.inl ⟨rfl, rfl, rfl⟩⟩

theorem Sim.answers (h : Sim c a) (ops : List (CacheOp κ ν)) : c.answers ops = some (a.answers ops) := by
  induction ops generalizing c a with
  | nil => rfl
  | cons op ops ih =>
    obtain ⟨c', hc', hsim⟩ := h.exec op
    simp only [Cache.answers, Lru.answers, hc', Option.bind_some, ih hsim, Option.map_some]

/-- **The cache is an LRU cache.**  No sequence of operations makes it panic, and the answers
    are those of the abstract cache. -/
theorem answers_eq (maxEntries : ℕ) (ops : List (CacheOp κ ν)) :
    (newCache maxEntries : Cache κ ν).answers ops = some ((Lru.new maxEntries).answers ops) := by
  have hsim : Sim (newCache maxEntries : Cache κ ν) (Lru.new maxEntries) :=
    ⟨rfl, Or.inr ⟨[], .empty, rfl, rfl, rep_new, rfl⟩⟩
  exact hsim.answers ops

end Cache

end VmEngine
