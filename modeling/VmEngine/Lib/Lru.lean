/-
  Caches that evict the entry used least recently.

  The entries are kept in the order of their last use, the oldest first.  `add` and
  `get` make an entry the youngest one; `add` drops the oldest entry when a new key
  exceeds the bound.  A bound of zero means that there is none.
-/
import VmEngine.Lib.LinkedMap

namespace VmEngine

namespace LinkedMap
variable {κ ν : Type} [DecidableEq κ]

theorem keys_remove (m : LinkedMap κ ν) (k : κ) : (m.remove k).keys = m.keys.erase k := by
  unfold keys remove
  rw [List.Nodup.erase_eq_filter m.nodup, List.filter_map]
  congr 1
  refine List.filter_congr fun e _ => ?_
  by_cases h : e.1 = k <;> simp [h]

omit [DecidableEq κ] in
theorem size_eq_keys (m : LinkedMap κ ν) : m.size = m.keys.length := (List.length_map _).symm

variable {k : κ} {m : LinkedMap κ ν}

theorem size_remove (h : k ∈ m.keys) : (m.remove k).size + 1 = m.size := by
  rw [size_eq_keys, size_eq_keys, keys_remove, List.length_erase_add_one h]

theorem size_put_of_not_mem (v : ν) (h : k ∉ m.keys) : (m.put k v).size = m.size + 1 := by
  unfold size
  rw [entries_put_of_not_mem v h]
  exact List.length_append

/-- The entry of `k` becomes the last one. -/
def moveToEnd (m : LinkedMap κ ν) (k : κ) (v : ν) : LinkedMap κ ν := (m.remove k).put k v

theorem get?_moveToEnd (m : LinkedMap κ ν) (k k' : κ) (v : ν) :
    (m.moveToEnd k v).get? k' = if k' = k then some v else m.get? k' := by
  unfold moveToEnd
  rw [get?_put, get?_remove]
  split_ifs <;> rfl

theorem size_moveToEnd (v : ν) (h : k ∈ m.keys) : (m.moveToEnd k v).size = m.size := by
  have hk : k ∉ (m.remove k).keys := by
    rw [← get?_eq_none, get?_remove_self]
  unfold moveToEnd
  rw [size_put_of_not_mem v hk, size_remove h]

end LinkedMap

structure Lru (κ ν : Type) where
  maxEntries : ℕ
  ll : LinkedMap κ ν

namespace Lru
variable {κ ν : Type}

def new (maxEntries : ℕ) : Lru κ ν := ⟨maxEntries, .empty⟩

def len (c : Lru κ ν) : ℕ := c.ll.size

/-- The entry used least recently. -/
def oldest? (c : Lru κ ν) : Option (κ × ν) := c.ll.entries.head?

def getOldest (c : Lru κ ν) : Option ν := c.oldest?.map Prod.snd

variable [DecidableEq κ]

def find? (c : Lru κ ν) (k : κ) : Option ν := c.ll.get? k

def remove (c : Lru κ ν) (k : κ) : Lru κ ν := { c with ll := c.ll.remove k }

def removeOldest (c : Lru κ ν) : Lru κ ν :=
  match c.oldest? with
  | none => c
  | some e => c.remove e.1

def add (c : Lru κ ν) (k : κ) (v : ν) : Lru κ ν :=
  if k ∈ c.ll.keys then { c with ll := c.ll.moveToEnd k v }
  else
    let c' := { c with ll := c.ll.put k v }
    if c.maxEntries ≠ 0 ∧ c.maxEntries < c'.len then c'.removeOldest else c'

def get (c : Lru κ ν) (k : κ) : Option ν × Lru κ ν :=
  match c.find? k with
  | none => (none, c)
  | some v => (some v, { c with ll := c.ll.moveToEnd k v })

variable {c : Lru κ ν} {k k' : κ} {v : ν}

theorem find?_eq_some : c.find? k = some v ↔ (k, v) ∈ c.ll.entries := LinkedMap.get?_eq_some

variable {e : κ × ν}

theorem oldest?_find? (h : c.oldest? = some e) : c.find? e.1 = some e.2 :=
  find?_eq_some.2 (List.mem_of_mem_head? h)

/-! ## Lookup after an operation -/

theorem fst_get (c : Lru κ ν) (k : κ) : (c.get k).1 = c.find? k := by
  unfold get
  split <;> simp only [*]

/-- Looking a key up changes the order only. -/
theorem find?_get (c : Lru κ ν) (k k' : κ) : (c.get k).2.find? k' = c.find? k' := by
  unfold get
  split
  · rfl
  · rename_i v hv
    show (c.ll.moveToEnd k v).get? k' = _
    rw [LinkedMap.get?_moveToEnd]
    split_ifs with h
    · rw [h, hv]
    · rfl

theorem find?_remove (c : Lru κ ν) (k k' : κ) :
    (c.remove k).find? k' = if k' = k then none else c.find? k' :=
  LinkedMap.get?_remove c.ll k k'

theorem find?_removeOldest (h : c.oldest? = some e) (k' : κ) :
    c.removeOldest.find? k' = if k' = e.1 then none else c.find? k' := by
  unfold removeOldest
  rw [h]
  exact find?_remove c e.1 k'

/-- A cache with room for one more entry drops none. -/
theorem add_eq (h : c.len < c.maxEntries) (k : κ) (v : ν) :
    c.add k v = { c with ll := if k ∈ c.ll.keys then c.ll.moveToEnd k v else c.ll.put k v } := by
  unfold add
  by_cases hk : k ∈ c.ll.keys
  · rw [if_pos hk, if_pos hk]
  · have hlen : (c.ll.put k v).size = c.ll.size + 1 := LinkedMap.size_put_of_not_mem v hk
    rw [if_neg hk, if_neg hk]
    refine if_neg fun hfull => ?_
    have hgt : c.maxEntries < (c.ll.put k v).size := hfull.2
    have hlt : c.ll.size < c.maxEntries := h
    omega

theorem find?_add (h : c.len < c.maxEntries) (k k' : κ) (v : ν) :
    (c.add k v).find? k' = if k' = k then some v else c.find? k' := by
  rw [add_eq h]
  unfold find?
  by_cases hk : k ∈ c.ll.keys
  · rw [if_pos hk, LinkedMap.get?_moveToEnd]
  · rw [if_neg hk, LinkedMap.get?_put]

/-! ## The number of entries -/

theorem len_get (c : Lru κ ν) (k : κ) : (c.get k).2.len = c.len := by
  unfold get
  split
  · rfl
  · rename_i v hv
    exact LinkedMap.size_moveToEnd v (LinkedMap.mem_keys_iff.2 ⟨v, hv⟩)

theorem len_remove_le (c : Lru κ ν) (k : κ) : (c.remove k).len ≤ c.len :=
  List.length_filter_le _ _

theorem len_removeOldest (h : c.oldest? = some e) : c.removeOldest.len + 1 = c.len := by
  unfold removeOldest
  rw [h]
  exact LinkedMap.size_remove (LinkedMap.mem_keys_iff.2 ⟨e.2, oldest?_find? h⟩)

theorem len_add_le (h : c.len < c.maxEntries) (k : κ) (v : ν) : (c.add k v).len ≤ c.len + 1 := by
  rw [add_eq h]
  unfold len
  by_cases hk : k ∈ c.ll.keys
  · rw [if_pos hk, LinkedMap.size_moveToEnd v hk]
    omega
  · rw [if_neg hk, LinkedMap.size_put_of_not_mem v hk]

@[simp] theorem maxEntries_get (c : Lru κ ν) (k : κ) : (c.get k).2.maxEntries = c.maxEntries := by
  unfold get
  split <;> rfl

@[simp] theorem maxEntries_removeOldest (c : Lru κ ν) : c.removeOldest.maxEntries = c.maxEntries := by
  unfold removeOldest
  split <;> rfl

@[simp] theorem maxEntries_add (c : Lru κ ν) (k : κ) (v : ν) :
    (c.add k v).maxEntries = c.maxEntries := by
  unfold add
  by_cases hk : k ∈ c.ll.keys
  · rw [if_pos hk]
  · rw [if_neg hk]
    dsimp only
    split_ifs
    · exact maxEntries_removeOldest _
    · rfl

end Lru

end VmEngine
