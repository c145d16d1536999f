/-
  Keys of the state: in the write map, in the simulation context and at an iterator.

  A key of the write map is `contract#key` or `contract#key#field`.  The merge stores its
  entry under `GetKeyStr(key, field)`, and `kvIteratorNext` splits the stored key again.
  The merge takes a key with more separators for one without a field, and does not tell an
  empty field from none, so that different map keys are stored under one key.

  `KeyForm` lists the keys that the merge accepts.
-/
import VmEngine.Runtime.MergeOrder
import VmEngine.Runtime.HandlerReturns
import VmEngine.Lib.Joined

namespace VmEngine.Runtime

variable {σ κ η : Type} {P : Protocol} {S : TxSimContext σ κ η} {c w k f : Bytes}

/-- `protocol.GetKeyStr`, as assumed. -/
def JoinsKeys (P : Protocol) : Prop :=
  ∀ key field, P.getKeyStr key field = if field = [] then key else key ++ 35 :: field

/-- The key and the field that `kvIteratorNext` returns for a row. -/
def userKey (rowKey : Bytes) : Bytes × Bytes :=
  ((split rowKey).headD [], (split rowKey).tail.headD [])

theorem kvIteratorNext_row {iter : κ} {gasUsed g : UInt64} {s s' : σ} {row : KV}
    (hrow : S.kvValue s iter = (.ok (some row), s'))
    (hcharge : chargeLt2312 S (consumeKvIteratorGasUsedLt2312 P) gasUsed = (g, none)) :
    kvIteratorNext P S (some iter) gasUsed s = .ok ⟨⟨.ok, [], [(.userKey, (userKey row.key).1),
      (.userField, (userKey row.key).2), (.stateValue, row.value)]⟩, g, s'⟩ := by
  have hkey : index (split row.key) 0 = .ok (userKey row.key).1 ∧
      secondIf (1 < (split row.key).length) (split row.key) = .ok (userKey row.key).2 := by
    obtain ⟨key, rest, hsplit⟩ := List.exists_cons_of_ne_nil (List.splitOn_ne_nil 35 row.key)
    have hsplit : split row.key = key :: rest := hsplit
    unfold userKey
    rw [hsplit]
    cases rest with
    | nil => exact ⟨rfl, rfl⟩
    | cons field rest => exact ⟨rfl, by simp [secondIf, index]⟩
  unfold kvIteratorNext
  simp only [hcharge, hrow, hkey.1, hkey.2, consumeKvIteratorNextGasUsed2312]
  split_ifs <;> rfl

/-! ## Accepted keys -/

/-- The keys that the merge accepts for a contract, with the key and the field it reads. -/
inductive KeyForm (c : Bytes) : Bytes → Bytes → Bytes → Prop
  | key {k : Bytes} (hk : 35 ∉ k) : KeyForm c (c ++ 35 :: k) k []
  | field {k f : Bytes} (hk : 35 ∉ k) (hf : 35 ∉ f) : KeyForm c (c ++ 35 :: (k ++ 35 :: f)) k f
  /-- more separators: what follows the key is ignored -/
  | more {k x rest : Bytes} (hk : 35 ∉ k) (hx : 35 ∉ x) :
      KeyForm c (c ++ 35 :: (k ++ 35 :: (x ++ 35 :: rest))) k []

theorem keyForm_of_writeKeyParts (h : writeKeyParts c w = .ok (k, f)) :
    35 ∉ c ∧ KeyForm c w k f := by
  unfold writeKeyParts keyParts at h
  rcases splitOn_cases 35 w with ⟨-, hsplit⟩ | ⟨c₁, w₁, hc, rfl, hsplit⟩
  · rw [show split w = [w] from hsplit] at h
    cases h
  rw [show split (c₁ ++ 35 :: w₁) = c₁ :: split w₁ from hsplit] at h
  rcases splitOn_cases 35 w₁ with ⟨hk, hsplit₁⟩ | ⟨k₁, w₂, hk, rfl, hsplit₁⟩
  · rw [show split w₁ = [w₁] from hsplit₁] at h
    dsimp only at h
    split_ifs at h with hname
    cases h
    exact ⟨hname ▸ hc, hname ▸ .key hk⟩
  rw [show split (k₁ ++ 35 :: w₂) = k₁ :: split w₂ from hsplit₁] at h
  rcases splitOn_cases 35 w₂ with ⟨hf, hsplit₂⟩ | ⟨x, w₃, hx, rfl, hsplit₂⟩
  · rw [show split w₂ = [w₂] from hsplit₂] at h
    dsimp only at h
    split_ifs at h with hname
    cases h
    exact ⟨hname ▸ hc, hname ▸ .field hk hf⟩
  · obtain ⟨y, ys, hys⟩ := List.exists_cons_of_ne_nil (List.splitOn_ne_nil 35 w₃)
    rw [show split (x ++ 35 :: w₃) = x :: y :: ys from hsplit₂.trans (by rw [hys])] at h
    dsimp only at h
    split_ifs at h with hname
    cases h
    exact ⟨hname ▸ hc, hname ▸ .more hk hx⟩

theorem split_sep {x rest : Bytes} (hx : 35 ∉ x) : split (x ++ 35 :: rest) = x :: split rest :=
  List.splitOn_append_cons_self_of_not_mem hx rest

theorem split_free {x : Bytes} (hx : 35 ∉ x) : split x = [x] := List.splitOn_eq_singleton hx

theorem writeKeyParts_key (hc : 35 ∉ c) (hk : 35 ∉ k) :
    writeKeyParts c (c ++ 35 :: k) = .ok (k, []) := by
  unfold writeKeyParts keyParts
  rw [split_sep hc, split_free hk]
  exact if_pos rfl

theorem KeyForm.free (h : KeyForm c w k f) : 35 ∉ k ∧ 35 ∉ f := by
  cases h with
  | key hk => exact ⟨hk, List.not_mem_nil⟩
  | field hk hf => exact ⟨hk, hf⟩
  | more hk _ => exact ⟨hk, List.not_mem_nil⟩

/-- The stored key gives back key and field. -/
theorem userKey_getKeyStr (hP : JoinsKeys P) (hk : 35 ∉ k) (hf : 35 ∉ f) :
    userKey (P.getKeyStr k f) = (k, f) := by
  rw [hP]
  unfold userKey
  split_ifs with hnil
  · rw [split_free hk, hnil]
    rfl
  · rw [split_sep hk, split_free hf]
    rfl

/-! ## The round trip -/

/-- The map key is accepted. -/
def KeyAccepted (c w : Bytes) : Prop := ¬ Entry.Malformed c (w, [])

/-- Where the entry of a map key is stored. -/
def storedKey (P : Protocol) (c w : Bytes) : Bytes := Entry.storedKey P c (w, [])

/-- An iterator returns the map key, without the contract. -/
def ReadsBack (P : Protocol) (c w : Bytes) : Prop :=
  (w = c ++ 35 :: (userKey (storedKey P c w)).1 ∧ (userKey (storedKey P c w)).2 = []) ∨
    w = c ++ 35 :: ((userKey (storedKey P c w)).1 ++ 35 :: (userKey (storedKey P c w)).2)

/-- A key without a field, or with one that is not empty. -/
def PlainKey (w : Bytes) : Prop :=
  match split w with
  | [_, _] => True
  | [_, _, field] => field ≠ []
  | _ => False

theorem KeyAccepted.parts (h : KeyAccepted c w) : ∃ k f, writeKeyParts c w = .ok (k, f) := by
  rcases hw : writeKeyParts c w with err | ⟨k, f⟩
  · exact absurd ⟨err, hw⟩ h
  · exact ⟨k, f, rfl⟩

theorem storedKey_eq (h : writeKeyParts c w = .ok (k, f)) : storedKey P c w = P.getKeyStr k f := by
  simp only [storedKey, Entry.storedKey, h]

/-- A merge that goes on after an entry has accepted its key, and has put its value. -/
theorem mergeWriteEntries_cons {v : Bytes} {rest : List (Bytes × Bytes)} {g : UInt64} {s : σ}
    (h : (mergeWriteEntries P S c ((w, v) :: rest) g s).err = none) :
    KeyAccepted c w ∧ ∃ g', mergeWriteEntries P S c ((w, v) :: rest) g s =
      mergeWriteEntries P S c rest g' (S.put s c (storedKey P c w) v).2 := by
  rw [mergeWriteEntries] at h ⊢
  rcases hw : writeKeyParts c w with err | ⟨k, f⟩
  · rw [hw] at h
    cases h
  have hacc : KeyAccepted c w := by
    rintro ⟨err, herr⟩
    cases hw.symm.trans herr
  refine ⟨hacc, ?_⟩
  rw [storedKey_eq hw]
  simp only [hw] at h ⊢
  rcases hgas : putStateGasUsed P S.blockVersion (S.gasConfig P) g c k f v with ⟨g', _ | err⟩
  · simp only [hgas] at h ⊢
    rcases hput : S.put s c (P.getKeyStr k f) v with ⟨_ | err, s'⟩
    · exact ⟨g', rfl⟩
    · rw [hput] at h
      cases h
  · rw [hgas] at h
    cases h

theorem KeyForm.readsBack_iff (hP : JoinsKeys P) (hw : writeKeyParts c w = .ok (k, f))
    (hc : 35 ∉ c) (h : KeyForm c w k f) : ReadsBack P c w ↔ (split w).length ≤ 3 := by
  obtain ⟨hk, hf⟩ := h.free
  unfold ReadsBack
  rw [storedKey_eq hw, userKey_getKeyStr hP hk hf]
  cases h with
  | key hk =>
    rw [split_sep hc, split_free hk]
    simp
  | field hk hf =>
    rw [split_sep hc, split_sep hk, split_free hf]
    simp
  | @more _ x rest hk hx =>
    have hpos := split_length_pos rest
    rw [split_sep hc, split_sep hk, split_sep hx]
    refine iff_of_false ?_ (by simp only [List.length_cons]; omega)
    -- the key and an empty field are too short
    rintro (⟨h, -⟩ | h)
    · have hlen := congrArg List.length h
      simp only [List.length_append, List.length_cons] at hlen
      omega
    · have hlen := congrArg List.length h
      simp only [List.length_append, List.length_cons, List.length_nil] at hlen
      omega

theorem KeyForm.eq_of_plain {w₁ w₂ : Bytes} (hc : 35 ∉ c) (h₁ : KeyForm c w₁ k f)
    (h₂ : KeyForm c w₂ k f) (hw₁ : PlainKey w₁) (hw₂ : PlainKey w₂) : w₁ = w₂ := by
  -- a plain key is the one form that its field allows
  have hform : ∀ {w}, KeyForm c w k f → PlainKey w →
      w = if f = [] then c ++ 35 :: k else c ++ 35 :: (k ++ 35 :: f) := by
    intro w h hw
    cases h with
    | key _ => rw [if_pos rfl]
    | field hk hf =>
      rw [PlainKey, split_sep hc, split_sep hk, split_free hf] at hw
      rw [if_neg hw]
    | @more _ x rest hk hx =>
      obtain ⟨y, ys, hys⟩ := List.exists_cons_of_ne_nil (List.splitOn_ne_nil 35 rest)
      rw [PlainKey, split_sep hc, split_sep hk, split_sep hx,
        show split rest = y :: ys from hys] at hw
      exact hw.elim
  rw [hform h₁ hw₁, hform h₂ hw₂]

theorem KeyForm.collides (hc : 35 ∉ c) (hw : writeKeyParts c w = .ok (k, f))
    (h : KeyForm c w k f) (hplain : ¬ PlainKey w) :
    ∃ w', KeyAccepted c w' ∧ w' ≠ w ∧ storedKey P c w' = storedKey P c w := by
  have hkey := writeKeyParts_key hc h.free.1
  refine ⟨c ++ 35 :: k, ?_, ?_, ?_⟩
  · rintro ⟨err, herr⟩
    rw [hkey] at herr
    cases herr
  · intro heq
    have hsplit : split (c ++ 35 :: k) = [c, k] := by rw [split_sep hc, split_free h.free.1]
    rw [heq] at hsplit
    exact hplain (by rw [PlainKey, hsplit]; trivial)
  · rw [storedKey_eq hkey, storedKey_eq hw]
    cases h with
    | key _ => rfl
    | field hk hf =>
      rw [PlainKey, split_sep hc, split_sep hk, split_free hf] at hplain
      rw [not_not.1 hplain]
    | more _ _ => rfl

/-- **State keys.**  A merge puts an entry under its `storedKey`, and `kvIteratorNext` returns
    for a row the key and the field that `userKey` reads.  An accepted map key is read back
    exactly if it has at most three parts; plain keys are stored apart from each other, and every
    other accepted key shares its place with one that is different. -/
theorem state_key_round_trip (hP : JoinsKeys P) (S : TxSimContext σ κ η) (c : Bytes) :
    (∀ w v rest g s, (mergeWriteEntries P S c ((w, v) :: rest) g s).err = none →
      KeyAccepted c w ∧ ∃ g', mergeWriteEntries P S c ((w, v) :: rest) g s =
        mergeWriteEntries P S c rest g' (S.put s c (storedKey P c w) v).2) ∧
    (∀ iter gasUsed g s s' row, S.kvValue s iter = (.ok (some row), s') →
      chargeLt2312 S (consumeKvIteratorGasUsedLt2312 P) gasUsed = (g, none) →
      kvIteratorNext P S (some iter) gasUsed s = .ok ⟨⟨.ok, [], [(.userKey, (userKey row.key).1),
        (.userField, (userKey row.key).2), (.stateValue, row.value)]⟩, g, s'⟩) ∧
    (∀ w, KeyAccepted c w → (ReadsBack P c w ↔ (split w).length ≤ 3)) ∧
    (∀ w₁ w₂, KeyAccepted c w₁ → KeyAccepted c w₂ → PlainKey w₁ → PlainKey w₂ →
      storedKey P c w₁ = storedKey P c w₂ → w₁ = w₂) ∧
    ∀ w, KeyAccepted c w → ¬ PlainKey w →
      ∃ w', KeyAccepted c w' ∧ w' ≠ w ∧ storedKey P c w' = storedKey P c w := by
  refine ⟨fun w v rest g s h => mergeWriteEntries_cons h,
    fun iter gasUsed g s s' row hrow hcharge => kvIteratorNext_row hrow hcharge, fun w hw => ?_,
    fun w₁ w₂ hw₁ hw₂ hp₁ hp₂ heq => ?_, fun w hw hplain => ?_⟩
  · obtain ⟨k, f, hparts⟩ := hw.parts
    obtain ⟨hc, hform⟩ := keyForm_of_writeKeyParts hparts
    exact hform.readsBack_iff hP hparts hc
  · obtain ⟨k₁, f₁, hparts₁⟩ := hw₁.parts
    obtain ⟨k₂, f₂, hparts₂⟩ := hw₂.parts
    obtain ⟨hc, hform₁⟩ := keyForm_of_writeKeyParts hparts₁
    obtain ⟨-, hform₂⟩ := keyForm_of_writeKeyParts hparts₂
    rw [storedKey_eq hparts₁, storedKey_eq hparts₂] at heq
    have hpair := congrArg userKey heq
    rw [userKey_getKeyStr hP hform₁.free.1 hform₁.free.2,
      userKey_getKeyStr hP hform₂.free.1 hform₂.free.2] at hpair
    cases hpair
    exact hform₁.eq_of_plain hc hform₂ hp₁ hp₂
  · obtain ⟨k, f, hparts⟩ := hw.parts
    obtain ⟨hc, hform⟩ := keyForm_of_writeKeyParts hparts
    exact hform.collides hc hparts hplain

theorem joinsKeys_sample : JoinsKeys .sample := fun _ _ => rfl

/-- A key with a field. -/
theorem state_key_round_trip_field :
    KeyAccepted (text "fact") (text "fact#k#f") ∧ ReadsBack .sample (text "fact") (text "fact#k#f") := by
  have hacc : KeyAccepted (text "fact") (text "fact#k#f") := by
    rintro ⟨err, herr⟩
    cases herr
  exact ⟨hacc, ((state_key_round_trip joinsKeys_sample (.sample 2030100) (text "fact")).2.2.1 _
    hacc).2 (by decide)⟩

/-- A key with three separators is read back without its end, and a key with an empty field is
    stored under that without one. -/
theorem state_key_lost :
    (writeKeyParts (text "c") (text "c#k#a#b") = .ok (text "k", []) ∧
      ¬ ReadsBack .sample (text "c") (text "c#k#a#b")) ∧
    writeKeyParts (text "c") (text "c#k") = .ok (text "k", []) ∧
    writeKeyParts (text "c") (text "c#k#") = .ok (text "k", []) ∧
    storedKey .sample (text "c") (text "c#k") = storedKey .sample (text "c") (text "c#k#") := by
  refine ⟨⟨rfl, ?_⟩, rfl, rfl, rfl⟩
  unfold ReadsBack
  decide

end VmEngine.Runtime
