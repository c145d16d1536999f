/-
  The range of a prefix iterator (`handleCreateKvIterator`, branch `createKvPreIterator`).

  The iterator is to run over the keys that begin with the start key.  Its limit is the
  start key with the last byte incremented: as a byte, so that 255 becomes 0, and then
  converted as a code point, so that from 128 on it becomes two bytes.  The range is the
  prefix exactly for a last byte below 127 (`prefix_iterator_exact`).
-/
import VmEngine.Lib.PrefixRange
import VmEngine.Runtime.HandlerReturns

namespace VmEngine.Runtime

variable {σ κ η : Type} {P : Protocol} {S : TxSimContext σ κ η}

/-- The keys from `key` up to `limit` are those that begin with `key`. -/
def CoversPrefix (key limit : Bytes) : Prop := ∀ b : Bytes, (key ≤ b ∧ b < limit) ↔ key <+: b

/-- The bytes of `string(limitLast)`. -/
def limitBytes (last : UInt8) : Bytes := String.utf8EncodeChar (Char.ofNat (last + 1).toNat)

theorem prefixLimit_concat (p : Bytes) (last : UInt8) :
    prefixLimit (p ++ [last]) = .ok (p ++ limitBytes last) := by
  have hlast : index (p ++ [last]) ((p ++ [last]).length - 1) = .ok last := by simp [index]
  have htake : (p ++ [last]).take ((p ++ [last]).length - 1) = p := by simp
  unfold prefixLimit
  rw [hlast, htake]
  rfl

theorem toNat_charOfNat {n : ℕ} (h : n < 256) : (Char.ofNat n).val.toNat = n := by
  have hvalid : n.isValidChar := Or.inl (by omega)
  rw [Char.ofNat, dif_pos hvalid]
  rfl

/-- The last byte after the increment. -/
theorem toNat_succ (last : UInt8) : (last + 1).toNat = (last.toNat + 1) % 256 := UInt8.toNat_add last 1

theorem limitBytes_short {last : UInt8} (h : last.toNat < 127 ∨ last.toNat = 255) :
    limitBytes last = [last + 1] := by
  have hn := toNat_succ last
  unfold limitBytes String.utf8EncodeChar
  rw [toNat_charOfNat (last + 1).toNat_lt]
  dsimp only
  rw [if_pos (by omega), UInt8.ofNat_toNat]

theorem limitBytes_long {last : UInt8} (h : 127 ≤ last.toNat) (h' : last.toNat ≠ 255) :
    limitBytes last =
      [UInt8.ofNat ((last.toNat + 1) / 64 + 192), UInt8.ofNat ((last.toNat + 1) % 64 + 128)] := by
  have hlt := last.toNat_lt
  have hn : (last + 1).toNat = last.toNat + 1 := by
    rw [toNat_succ]
    omega
  unfold limitBytes String.utf8EncodeChar
  rw [hn, toNat_charOfNat (by omega)]
  dsimp only
  rw [if_neg (by omega), if_pos (by omega), Nat.mod_eq_of_lt (a := (last.toNat + 1) / 64) (by omega)]

/-! ## Last bytes below 127 -/

theorem next_succ {last : UInt8} (h : last.toNat < 127) : Next last (last + 1) := by
  have hn := toNat_succ last
  constructor
  · rw [UInt8.lt_iff_toNat_lt]
    omega
  · intro z hz hz'
    rw [UInt8.lt_iff_toNat_lt] at hz hz'
    omega

/-! ## Last bytes from 127 on -/

/-- The successor of the last byte is within the range. -/
theorem succ_lt_limitBytes {last : UInt8} (h : 127 ≤ last.toNat) (h' : last.toNat < 195) :
    [last + 1] < limitBytes last := by
  have hn := toNat_succ last
  rw [limitBytes_long h (by omega), List.cons_lt_cons_iff]
  have hhead : (UInt8.ofNat ((last.toNat + 1) / 64 + 192)).toNat = (last.toNat + 1) / 64 + 192 :=
    UInt8.toNat_ofNat_of_lt' (by unfold UInt8.size; omega)
  by_cases heq : last.toNat = 194
  · refine Or.inr ⟨UInt8.toNat_inj.1 ?_, List.nil_lt_cons _ _⟩
    omega
  · refine Or.inl ?_
    rw [UInt8.lt_iff_toNat_lt]
    omega

/-- The largest byte after the key is outside the range. -/
theorem not_lt_limitBytes {last : UInt8} (h : 195 ≤ last.toNat) :
    ¬ [last, 255] < limitBytes last := by
  have hn := toNat_succ last
  have hlt := last.toNat_lt
  have hmax : (255 : UInt8).toNat = 255 := rfl
  by_cases hlast : last.toNat = 255
  · rw [limitBytes_short (Or.inr hlast), List.cons_lt_cons_iff, UInt8.lt_iff_toNat_lt]
    rintro (hlt' | ⟨-, hnil⟩)
    · omega
    · exact List.not_lt_nil _ hnil
  · rw [limitBytes_long (by omega) hlast, List.cons_lt_cons_iff, List.cons_lt_cons_iff]
    have hhead : (UInt8.ofNat ((last.toNat + 1) / 64 + 192)).toNat = (last.toNat + 1) / 64 + 192 :=
      UInt8.toNat_ofNat_of_lt' (by unfold UInt8.size; omega)
    have hsnd := (UInt8.ofNat ((last.toNat + 1) % 64 + 128)).toNat_lt
    simp only [UInt8.lt_iff_toNat_lt]
    rintro (hlt' | ⟨-, hlt' | ⟨-, hnil⟩⟩)
    · omega
    · omega
    · exact List.not_lt_nil _ hnil

theorem coversPrefix_iff (p : Bytes) (last : UInt8) :
    CoversPrefix (p ++ [last]) (p ++ limitBytes last) ↔ last.toNat < 127 := by
  constructor
  · intro h
    by_contra hge
    have hn := toNat_succ last
    by_cases hlt : last.toNat < 195
    · -- a longer last byte is covered
      have hle : p ++ [last] ≤ p ++ [last + 1] := by
        rw [append_le_append_iff, List.cons_le_cons_iff, UInt8.lt_iff_toNat_lt]
        exact Or.inl (by omega)
      have hlimit : p ++ [last + 1] < p ++ limitBytes last :=
        (append_lt_append_iff p).2 (succ_lt_limitBytes (by omega) hlt)
      obtain ⟨t, ht⟩ := (h (p ++ [last + 1])).1 ⟨hle, hlimit⟩
      rw [List.append_assoc, List.append_cancel_left_eq] at ht
      have heq := congrArg UInt8.toNat (List.cons.inj ht).1
      omega
    · -- a key with the prefix is not
      have hb := (h (p ++ [last, 255])).2 ⟨[255], by simp⟩
      rw [append_lt_append_iff] at hb
      exact not_lt_limitBytes (by omega) hb.2
  · intro h b
    rw [limitBytes_short (Or.inl h)]
    exact prefix_range (next_succ h) p b

/-- **Prefix iterators.**  For every start key that is not empty a limit is computed, and once the
    creation is paid for `Select` is called with key and limit.  The range is the prefix exactly
    if the last byte of the key is below 127. -/
theorem prefix_iterator_exact {key : Bytes} (hkey : key ≠ []) :
    ∃ limit, prefixLimit key = .ok limit ∧
      (∀ (P : Protocol) (S : TxSimContext σ κ η) name params gasUsed g s,
        P.getKeyStr (params.get .iterStartKey) (params.get .iterStartField) = key →
        createKvIteratorGasUsed P S.blockVersion (S.gasConfig P) params gasUsed = (g, none) →
        kvPreIteratorCreate P S name params gasUsed s =
          .ok ((S.select s name key limit).1, g, (S.select s name key limit).2)) ∧
      (CoversPrefix key limit ↔ (key.getLast hkey).toNat < 127) := by
  obtain ⟨p, last, rfl⟩ : ∃ p last, key = p ++ [last] :=
    ⟨key.dropLast, key.getLast hkey, (List.dropLast_append_getLast hkey).symm⟩
  refine ⟨p ++ limitBytes last, prefixLimit_concat p last, ?_, ?_⟩
  · intro P S name params gasUsed g s hstr hcharge
    unfold kvPreIteratorCreate
    rw [hcharge]
    dsimp only
    rw [hstr, prefixLimit_concat]
    rfl
  · rw [List.getLast_append_singleton]
    exact coversPrefix_iff p last

/-- A key of letters. -/
theorem prefix_iterator_letters :
    ∃ limit, prefixLimit (text "key") = .ok limit ∧ CoversPrefix (text "key") limit := by
  obtain ⟨limit, hlimit, -, hcovers⟩ :=
    prefix_iterator_exact (σ := ℕ) (κ := ℕ) (η := ℕ) (show text "key" ≠ [] by decide)
  exact ⟨limit, hlimit, hcovers.2 (by decide)⟩

/-- The key that ends in 127 covers one that ends in 128, and the range of the key that ends in
    255 is empty. -/
theorem prefix_iterator_wrong :
    (prefixLimit [107, 127] = .ok [107, 194, 128] ∧ ([107, 127] : Bytes) ≤ [107, 128] ∧
      ([107, 128] : Bytes) < [107, 194, 128] ∧ ¬ ([107, 127] : Bytes) <+: [107, 128]) ∧
    prefixLimit [107, 255] = .ok [107, 0] ∧ ¬ ([107, 255] : Bytes) < [107, 0] := by
  decide

end VmEngine.Runtime
