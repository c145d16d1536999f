/-
  Merging a write map in any order (`runtime_handler.go`, `mergeSimContextWriteMap`).

  The loop runs over a Go map, so two nodes may meet its entries in different orders.
  It stops at the first entry whose key is malformed, whose charge exceeds the limit or
  whose `Put` fails, and keeps what was charged and written before.  `merge_order_free`
  says for which maps the order cannot be seen in the gas used, in the outcome and in
  the write set, and `orderInvisible_iff` says it by prices and stored keys alone.

  `WriteSet` is what is assumed of `Put`, which is outside the repository.
-/
import VmEngine.Lib.WriteLoop
import VmEngine.Runtime.Charges
import Mathlib.Algebra.Ring.Nat

namespace VmEngine.Runtime

variable {σ κ η : Type}

/-- The write set of a simulation context: a `Put` fails or succeeds by its arguments alone,
    replaces the value of its key if it succeeds and changes nothing if it fails; the context
    of a new transaction has written nothing. -/
structure WriteSet (S : TxSimContext σ κ η) where
  of : σ → Bytes → Bytes → Option Bytes
  refusal : Bytes → Bytes → Bytes → Option Bytes
  put_err : ∀ s c k v, (S.put s c k v).1 = refusal c k v
  put_accepted : ∀ s c k v, refusal c k v = none → ∀ c' k',
    of (S.put s c k v).2 c' k' = if c' = c ∧ k' = k then some v else of s c' k'
  put_refused : ∀ s c k v, refusal c k v ≠ none → of (S.put s c k v).2 = of s
  initial : σ
  initial_empty : ∀ c k, of initial c k = none

/-- The write set of the sample context. -/
def WriteSet.sample (blockVersion : UInt32) : WriteSet (TxSimContext.sample blockVersion) where
  of s c k := s.writes.lookup (c, k)
  refusal _ _ _ := none
  put_err _ _ _ _ := rfl
  put_accepted s c k v _ c' k' := by
    by_cases h : c' = c ∧ k' = k
    · simp [TxSimContext.sample, h]
    · have hne : ((c', k') == (c, k)) = false := by
        rw [beq_eq_false_iff_ne]
        exact fun heq => h (Prod.mk.inj heq)
      rw [if_neg h]
      simp only [TxSimContext.sample, List.lookup_cons, hne]
  put_refused _ _ _ _ h := absurd rfl h
  initial := .empty
  initial_empty _ _ := rfl

/-! ## Entries -/

/-- An entry of a write map: its map key and its value. -/
abbrev Entry := Bytes × Bytes

variable (P : Protocol) (S : TxSimContext σ κ η) (txContractName : Bytes)

def Entry.Malformed (e : Entry) : Prop := ∃ err, writeKeyParts txContractName e.1 = .error err

/-- The key under which an entry is stored. -/
def Entry.storedKey (e : Entry) : Bytes :=
  match writeKeyParts txContractName e.1 with
  | .error _ => []
  | .ok (contractKey, contractField) => P.getKeyStr contractKey contractField

/-- What an entry costs: nothing since version 2312. -/
def Entry.price (e : Entry) : UInt64 :=
  match writeKeyParts txContractName e.1 with
  | .error _ => 0
  | .ok (contractKey, contractField) =>
    if S.blockVersion < version2312 then putStatePrice txContractName contractKey contractField e.2
    else 0

/-- The entry can be paid for: its charge, added in `uint64` arithmetic, is within the limit. -/
def Entry.Fits (g : UInt64) (e : Entry) : Prop :=
  S.blockVersion < version2312 → g + Entry.price S txContractName e ≤ P.gasLimit

instance (g : UInt64) (e : Entry) : Decidable (Entry.Fits P S txContractName g e) :=
  inferInstanceAs (Decidable (_ → _))

/-- The entries of a list can be paid for one after another. -/
def Payable : UInt64 → List Entry → Prop
  | _, [] => True
  | g, e :: l => Entry.Fits P S txContractName g e ∧ Payable (g + Entry.price S txContractName e) l

/-- The entries of a list up to the first that cannot be paid for. -/
def affordable : UInt64 → List Entry → List Entry
  | _, [] => []
  | g, e :: l =>
    if Entry.Fits P S txContractName g e then
      e :: affordable (g + Entry.price S txContractName e) l
    else []

variable {P S txContractName} (W : WriteSet S)

/-- `Put` takes the entry. -/
def Entry.Accepted (P : Protocol) (txContractName : Bytes) (e : Entry) : Prop :=
  ¬ Entry.Malformed txContractName e ∧
    W.refusal txContractName (Entry.storedKey P txContractName e) e.2 = none

/-- An entry that ends the merge if it is met first, and the gas used then: nothing is added for
    a malformed key, the amount is reset if the limit is exceeded, and the charge stays if
    `Put` fails. -/
def Entry.StopsWith (P : Protocol) (txContractName : Bytes) (g : UInt64) (e : Entry)
    (g' : UInt64) : Prop :=
  Entry.Malformed txContractName e ∧ g' = g ∨
  ¬ Entry.Malformed txContractName e ∧ ¬ Entry.Fits P S txContractName g e ∧ g' = 0 ∨
  ¬ Entry.Malformed txContractName e ∧ Entry.Fits P S txContractName g e ∧
    ¬ Entry.Accepted W P txContractName e ∧ g' = g + Entry.price S txContractName e

/-- The order in which a write map is met cannot be seen: every entry ends the merge at once
    with the same amount; or every entry is accepted, entries with the same stored key have the
    same value and every order can be paid for; or every entry is accepted, no order can be paid
    for, and what the orders can pay for leaves the same values under the stored keys.  Amounts
    may wrap around here; `orderInvisible_iff` is about maps where they do not. -/
def OrderInvisible (P : Protocol) (txContractName : Bytes) (writeMap : GoMap) (g : UInt64) : Prop :=
  (∃ g', ∀ e ∈ writeMap.entries, Entry.StopsWith W P txContractName g e g') ∨
  (∀ e ∈ writeMap.entries, Entry.Accepted W P txContractName e) ∧
    (∀ e₁ ∈ writeMap.entries, ∀ e₂ ∈ writeMap.entries,
      Entry.storedKey P txContractName e₁ = Entry.storedKey P txContractName e₂ → e₁.2 = e₂.2) ∧
    (∀ l, l.Perm writeMap.entries → Payable P S txContractName g l) ∨
  (∀ e ∈ writeMap.entries, Entry.Accepted W P txContractName e) ∧
    (∀ l, l.Perm writeMap.entries → ¬ Payable P S txContractName g l) ∧
    ∀ l₁ l₂ k, l₁.Perm writeMap.entries → l₂.Perm writeMap.entries →
      lastWrite (Entry.storedKey P txContractName) Prod.snd k (affordable P S txContractName g l₁) =
        lastWrite (Entry.storedKey P txContractName) Prod.snd k (affordable P S txContractName g l₂)

/-! ## The merge as a loop -/

/-- The merge as a loop over its entries, with the gas used as accumulator. -/
def mergeLoop (P : Protocol) (txContractName : Bytes) : WriteLoop UInt64 Entry Bytes Bytes where
  next g e :=
    match writeKeyParts txContractName e.1 with
    | .error _ => .error g
    | .ok _ =>
      if Entry.Fits P S txContractName g e then
        if W.refusal txContractName (Entry.storedKey P txContractName e) e.2 = none then
          .ok (g + Entry.price S txContractName e)
        else .error (g + Entry.price S txContractName e)
      else .error 0
  key := Entry.storedKey P txContractName
  value := Prod.snd

variable {e : Entry} {g g' : UInt64} {l : List Entry}

theorem next_ok_iff :
    (mergeLoop W P txContractName).next g e = .ok g' ↔
      Entry.Accepted W P txContractName e ∧ Entry.Fits P S txContractName g e ∧
        g' = g + Entry.price S txContractName e := by
  unfold mergeLoop Entry.Accepted Entry.Malformed
  dsimp only
  rcases hkey : writeKeyParts txContractName e.1 with err | ⟨contractKey, contractField⟩
  · simp
  · dsimp only
    split_ifs with hfits hput
    · simp [hfits, hput, eq_comm]
    · simp [hput]
    · simp [hfits]

theorem next_error_iff :
    (mergeLoop W P txContractName).next g e = .error g' ↔
      Entry.StopsWith W P txContractName g e g' := by
  unfold mergeLoop Entry.StopsWith Entry.Accepted Entry.Malformed
  dsimp only
  rcases hkey : writeKeyParts txContractName e.1 with err | ⟨contractKey, contractField⟩
  · simp [eq_comm]
  · dsimp only
    split_ifs with hfits hput
    · simp [hfits, hput]
    · simp [hfits, hput, eq_comm]
    · simp [hfits, eq_comm]

/-- The charges of two entries commute. -/
theorem next_comm {ga gab gb gba : UInt64} {a b : Entry}
    (ha : (mergeLoop W P txContractName).next g a = .ok ga)
    (hab : (mergeLoop W P txContractName).next ga b = .ok gab)
    (hb : (mergeLoop W P txContractName).next g b = .ok gb)
    (hba : (mergeLoop W P txContractName).next gb a = .ok gba) : gab = gba := by
  obtain ⟨-, -, rfl⟩ := (next_ok_iff W).1 ha
  obtain ⟨-, -, rfl⟩ := (next_ok_iff W).1 hab
  obtain ⟨-, -, rfl⟩ := (next_ok_iff W).1 hb
  obtain ⟨-, -, rfl⟩ := (next_ok_iff W).1 hba
  rw [UInt64.add_assoc, UInt64.add_assoc, UInt64.add_comm (Entry.price S txContractName a)]

theorem runs_iff :
    (mergeLoop W P txContractName).Runs g l ↔
      (∀ e ∈ l, Entry.Accepted W P txContractName e) ∧ Payable P S txContractName g l := by
  induction l generalizing g with
  | nil => exact ⟨fun _ => ⟨List.forall_mem_nil _, trivial⟩, fun _ => ⟨g, rfl⟩⟩
  | cons e l ih =>
    simp only [WriteLoop.runs_cons, next_ok_iff, ih, List.forall_mem_cons, Payable]
    constructor
    · rintro ⟨_, ⟨hacc, hfits, rfl⟩, hl, hpay⟩
      exact ⟨⟨hacc, hl⟩, hfits, hpay⟩
    · rintro ⟨⟨hacc, hl⟩, hfits, hpay⟩
      exact ⟨_, ⟨hacc, hfits, rfl⟩, hl, hpay⟩

/-- Accepted entries that cannot all be paid for reset the gas used. -/
theorem run_of_not_payable (hacc : ∀ e ∈ l, Entry.Accepted W P txContractName e)
    (hpay : ¬ Payable P S txContractName g l) :
    (mergeLoop W P txContractName).run l g = .error 0 := by
  induction l generalizing g with
  | nil => exact absurd trivial hpay
  | cons e l ih =>
    obtain ⟨he, hl⟩ := List.forall_mem_cons.1 hacc
    by_cases hfits : Entry.Fits P S txContractName g e
    · rw [WriteLoop.run_cons_ok ((next_ok_iff W).2 ⟨he, hfits, rfl⟩)]
      exact ih hl fun h => hpay ⟨hfits, h⟩
    · exact WriteLoop.run_cons_error ((next_error_iff W).2 (.inr (.inl ⟨he.1, hfits, rfl⟩)))

theorem done_of_accepted (hacc : ∀ e ∈ l, Entry.Accepted W P txContractName e) :
    (mergeLoop W P txContractName).done l g = affordable P S txContractName g l := by
  induction l generalizing g with
  | nil => rfl
  | cons e l ih =>
    obtain ⟨he, hl⟩ := List.forall_mem_cons.1 hacc
    rw [affordable]
    split_ifs with hfits
    · rw [WriteLoop.done_cons_ok ((next_ok_iff W).2 ⟨he, hfits, rfl⟩), ih hl]
    · exact WriteLoop.done_cons_error ((next_error_iff W).2 (.inr (.inl ⟨he.1, hfits, rfl⟩)))

theorem orderFree_mergeLoop_iff {writeMap : GoMap} :
    (mergeLoop W P txContractName).OrderFree writeMap.entries g ↔
      OrderInvisible W P txContractName writeMap g := by
  constructor
  · intro h
    rcases (WriteLoop.orderFree_iff (next_comm W) _ g).1 h with
      ⟨g', hstop⟩ | ⟨hagree, hall⟩ | ⟨hfirst, ⟨g', herr⟩, hlast⟩
    · exact .inl ⟨g', fun e he => (next_error_iff W).1 (hstop e he)⟩
    · refine .inr (.inl ⟨((runs_iff W).1 (hall _ (.refl _))).1, hagree, fun l hl => ?_⟩)
      exact ((runs_iff W).1 (hall l hl)).2
    · have hacc : ∀ e ∈ writeMap.entries, Entry.Accepted W P txContractName e := by
        intro e he
        obtain ⟨_, h⟩ := hfirst e he
        exact ((next_ok_iff W).1 h).1
      refine .inr (.inr ⟨hacc, fun l hl hpay => ?_, fun l₁ l₂ k h₁ h₂ => ?_⟩)
      · obtain ⟨_, hok⟩ := (runs_iff W).2 ⟨fun e he => hacc e (hl.mem_iff.1 he), hpay⟩
        rw [herr l hl] at hok
        cases hok
      · have hsame := hlast l₁ l₂ k h₁ h₂
        rw [done_of_accepted W fun e he => hacc e (h₁.mem_iff.1 he),
          done_of_accepted W fun e he => hacc e (h₂.mem_iff.1 he)] at hsame
        exact hsame
  · rintro (⟨g', hstop⟩ | ⟨hacc, hagree, hpay⟩ | ⟨hacc, hpay, hlast⟩)
    · refine (WriteLoop.orderFree_iff (next_comm W) _ g).2 (.inl ⟨g', fun e he => ?_⟩)
      exact (next_error_iff W).2 (hstop e he)
    · refine (WriteLoop.orderFree_iff (next_comm W) _ g).2 (.inr (.inl ⟨hagree, fun l hl => ?_⟩))
      exact (runs_iff W).2 ⟨fun e he => hacc e (hl.mem_iff.1 he), hpay l hl⟩
    · intro l₁ l₂ h₁ h₂
      have hacc₁ : ∀ e ∈ l₁, Entry.Accepted W P txContractName e := fun e he =>
        hacc e (h₁.mem_iff.1 he)
      have hacc₂ : ∀ e ∈ l₂, Entry.Accepted W P txContractName e := fun e he =>
        hacc e (h₂.mem_iff.1 he)
      rw [run_of_not_payable W hacc₁ (hpay l₁ h₁), run_of_not_payable W hacc₂ (hpay l₂ h₂),
        done_of_accepted W hacc₁, done_of_accepted W hacc₂]
      exact ⟨rfl, fun k => hlast l₁ l₂ k h₁ h₂⟩

/-! ## Prices -/

/-- What entries cost together. -/
def cost (S : TxSimContext σ κ η) (txContractName : Bytes) (l : List Entry) : ℕ :=
  (l.map fun e => (Entry.price S txContractName e).toNat).sum

theorem cost_le_of_subperm (txContractName : Bytes) {l' : List Entry} (h : l'.Subperm l) :
    cost S txContractName l' ≤ cost S txContractName l := by
  obtain ⟨r, hperm, hsub⟩ := h
  obtain ⟨t, ht⟩ := hsub.exists_perm_append
  unfold cost
  rw [← (hperm.map _).sum_nat, (ht.map _).sum_nat, List.map_append, List.sum_append_nat]
  exact Nat.le_add_right ..

/-- Where the amounts do not wrap around, it is the sum that has to be within the limit. -/
theorem payable_iff (h : g.toNat + cost S txContractName l < 2 ^ 64) :
    Payable P S txContractName g l ↔ l = [] ∨
      (S.blockVersion < version2312 → g.toNat + cost S txContractName l ≤ P.gasLimit.toNat) := by
  induction l generalizing g with
  | nil => simp [Payable]
  | cons e l ih =>
    have hcost : cost S txContractName (e :: l) =
        (Entry.price S txContractName e).toNat + cost S txContractName l := by
      simp [cost]
    rw [hcost, ← Nat.add_assoc] at h ⊢
    have hadd : (g + Entry.price S txContractName e).toNat =
        g.toNat + (Entry.price S txContractName e).toNat := by
      rw [UInt64.toNat_add]
      exact Nat.mod_eq_of_lt (by omega)
    rw [Payable, ih (by rwa [hadd]), Entry.Fits, UInt64.le_iff_toNat_le, hadd]
    rcases l with _ | ⟨e', l⟩
    · simp [cost]
    · simp only [reduceCtorEq, false_or, and_iff_right_iff_imp]
      exact fun hle hv => Nat.le_of_add_right_le (hle hv)

theorem thins_mergeLoop (h : g.toNat + cost S txContractName l < 2 ^ 64) :
    (mergeLoop W P txContractName).Thins g l := by
  intro p p' hp hp' hruns
  obtain ⟨hacc, hpay⟩ := (runs_iff W).1 hruns
  have hle := cost_le_of_subperm (S := S) txContractName hp
  have hle' := cost_le_of_subperm (S := S) txContractName hp'
  refine (runs_iff W).2 ⟨fun e he => hacc e (hp'.subset he), (payable_iff (by omega)).2 ?_⟩
  rcases (payable_iff (by omega)).1 hpay with rfl | hsum
  · exact .inl (List.subperm_nil.1 hp')
  · exact .inr fun hv => by have := hsum hv; omega

/-- **By prices and stored keys**, where the amounts do not wrap around: every entry ends the
    merge at once with the same amount; or every entry is accepted, entries with the same stored
    key have the same value, and each can be paid for together with all entries that have other
    stored keys. -/
theorem orderInvisible_iff {writeMap : GoMap}
    (h : g.toNat + cost S txContractName writeMap.entries < 2 ^ 64) :
    OrderInvisible W P txContractName writeMap g ↔
      (∃ g', ∀ e ∈ writeMap.entries, Entry.StopsWith W P txContractName g e g') ∨
      (∀ e₁ ∈ writeMap.entries, ∀ e₂ ∈ writeMap.entries,
        Entry.storedKey P txContractName e₁ = Entry.storedKey P txContractName e₂ → e₁.2 = e₂.2) ∧
      ∀ e ∈ writeMap.entries, Entry.Accepted W P txContractName e ∧
        (S.blockVersion < version2312 →
          g.toNat + cost S txContractName (writeMap.entries.filter (fun e' =>
            Entry.storedKey P txContractName e' ≠ Entry.storedKey P txContractName e) ++ [e]) ≤
          P.gasLimit.toNat) := by
  have hstop : (∀ e ∈ writeMap.entries, (mergeLoop W P txContractName).Runs g [e]) →
      ∀ l, l.Perm writeMap.entries → ¬ (mergeLoop W P txContractName).Runs g l →
        (mergeLoop W P txContractName).run l g = .error 0 := by
    intro hone l hl hnot
    have hacc : ∀ e ∈ l, Entry.Accepted W P txContractName e := fun e he =>
      ((runs_iff W).1 (hone e (hl.mem_iff.1 he))).1 e List.mem_cons_self
    exact run_of_not_payable W hacc fun hpay => hnot ((runs_iff W).2 ⟨hacc, hpay⟩)
  rw [← orderFree_mergeLoop_iff,
    WriteLoop.orderFree_iff_of_thins (thins_mergeLoop W h) (next_comm W) hstop]
  refine or_congr (exists_congr fun g' => forall₂_congr fun e _ => next_error_iff W)
    (and_congr_right fun _ => ?_)
  have hpay : ∀ e ∈ writeMap.entries, _ := fun e he =>
    payable_iff (P := P) (Nat.lt_of_le_of_lt (Nat.add_le_add_left (cost_le_of_subperm
      txContractName (WriteLoop.others_subperm (L := mergeLoop W P txContractName) he)) _) h)
  constructor
  · intro hruns e he
    obtain ⟨hacc, hpaid⟩ := (runs_iff W).1 (hruns e he)
    refine ⟨hacc e (by simp [WriteLoop.others]), ?_⟩
    exact ((hpay e he).1 hpaid).resolve_left (by simp [WriteLoop.others])
  · intro hall e he
    refine (runs_iff W).2 ⟨fun x hx => ?_, (hpay e he).2 (.inr (hall e he).2)⟩
    exact (hall x ((WriteLoop.others_subperm he).subset hx)).1

/-! ## The merge -/

theorem putStateGasUsed_eq {contractKey contractField : Bytes} (g : UInt64)
    (h : writeKeyParts txContractName e.1 = .ok (contractKey, contractField)) :
    putStateGasUsed P S.blockVersion (S.gasConfig P) g txContractName contractKey contractField e.2 =
      if Entry.Fits P S txContractName g e then (g + Entry.price S txContractName e, none)
      else (0, some overGasLimitedBlank) := by
  have hprice : Entry.price S txContractName e =
      if S.blockVersion < version2312 then putStatePrice txContractName contractKey contractField e.2
      else 0 := by
    unfold Entry.price
    rw [h]
  unfold putStateGasUsed
  by_cases hv : S.blockVersion < version2312
  · rw [if_pos hv] at hprice ⊢
    unfold putStateGasUsedLt2312 charge checkGasLimit
    rw [← hprice]
    dsimp only
    by_cases hfits : Entry.Fits P S txContractName g e
    · rw [if_pos hfits, if_neg]
      simpa using hfits hv
    · rw [if_neg hfits, if_pos]
      have hover : ¬ g + Entry.price S txContractName e ≤ P.gasLimit := fun hle => hfits fun _ => hle
      simpa using hover
  · rw [if_neg hv] at hprice ⊢
    have hfits : Entry.Fits P S txContractName g e := fun h => absurd h hv
    rw [if_pos hfits, hprice, UInt64.add_zero]
    rfl

/-- An entry that the loop goes past is put, and the merge goes on. -/
theorem mergeWriteEntries_of_ok (h : (mergeLoop W P txContractName).next g e = .ok g')
    (l : List Entry) (s : σ) :
    mergeWriteEntries P S txContractName (e :: l) g s =
      mergeWriteEntries P S txContractName l g'
        (S.put s txContractName (Entry.storedKey P txContractName e) e.2).2 := by
  obtain ⟨⟨hwf, hput⟩, hfits, rfl⟩ := (next_ok_iff W).1 h
  rcases hkey : writeKeyParts txContractName e.1 with err | ⟨contractKey, contractField⟩
  · exact absurd ⟨err, hkey⟩ hwf
  · have hstored : Entry.storedKey P txContractName e = P.getKeyStr contractKey contractField := by
      unfold Entry.storedKey
      rw [hkey]
    rw [← W.put_err s, hstored] at hput
    rw [mergeWriteEntries, hkey]
    dsimp only
    rw [putStateGasUsed_eq g hkey, if_pos hfits, hstored]
    dsimp only
    generalize S.put s txContractName (P.getKeyStr contractKey contractField) e.2 = r at hput ⊢
    obtain ⟨_ | err, s'⟩ := r
    · rfl
    · cases hput

/-- An entry that ends the loop ends the merge with an error, and is not written. -/
theorem mergeWriteEntries_of_error (h : (mergeLoop W P txContractName).next g e = .error g')
    (l : List Entry) (s : σ) :
    (mergeWriteEntries P S txContractName (e :: l) g s).gasUsed = g' ∧
      (mergeWriteEntries P S txContractName (e :: l) g s).err.isSome = true ∧
      W.of (mergeWriteEntries P S txContractName (e :: l) g s).store = W.of s := by
  rw [mergeWriteEntries]
  rcases hkey : writeKeyParts txContractName e.1 with err | ⟨contractKey, contractField⟩
  · simp only [mergeLoop, hkey, Except.error.injEq] at h
    exact ⟨h, rfl, rfl⟩
  · have hstored : Entry.storedKey P txContractName e = P.getKeyStr contractKey contractField := by
      unfold Entry.storedKey
      rw [hkey]
    simp only [mergeLoop, hkey, hstored] at h
    dsimp only
    rw [putStateGasUsed_eq g hkey]
    split_ifs at h ⊢ with hfits hput
    · have herr := W.put_err s txContractName (P.getKeyStr contractKey contractField) e.2
      have hsame := W.put_refused s txContractName (P.getKeyStr contractKey contractField) e.2 hput
      rw [← herr] at hput
      cases h
      dsimp only
      generalize S.put s txContractName (P.getKeyStr contractKey contractField) e.2 = r at hput hsame ⊢
      obtain ⟨_ | err, s'⟩ := r
      · exact absurd rfl hput
      · exact ⟨rfl, rfl, hsame⟩
    · cases h
      exact ⟨rfl, rfl, rfl⟩

/-- A merge ends as its loop does. -/
theorem mergeWriteEntries_run (l : List Entry) (g : UInt64) (s : σ) :
    (mergeLoop W P txContractName).run l g =
      if (mergeWriteEntries P S txContractName l g s).err.isSome then
        .error (mergeWriteEntries P S txContractName l g s).gasUsed
      else .ok (mergeWriteEntries P S txContractName l g s).gasUsed := by
  induction l generalizing g s with
  | nil => rfl
  | cons e l ih =>
    rcases hnext : (mergeLoop W P txContractName).next g e with g' | g'
    · obtain ⟨hgas, herr, -⟩ := mergeWriteEntries_of_error W hnext l s
      rw [WriteLoop.run_cons_error hnext, hgas, if_pos herr]
    · rw [WriteLoop.run_cons_ok hnext, mergeWriteEntries_of_ok W hnext, ← ih]

/-- What a merge leaves in the write set. -/
theorem mergeWriteEntries_of (l : List Entry) (g : UInt64) (s : σ) (c k : Bytes) :
    W.of (mergeWriteEntries P S txContractName l g s).store c k =
      if c = txContractName then
        ((mergeLoop W P txContractName).last k ((mergeLoop W P txContractName).done l g)).or
          (W.of s c k)
      else W.of s c k := by
  induction l generalizing g s with
  | nil => simp [mergeWriteEntries, WriteLoop.done, WriteLoop.last, lastWrite]
  | cons e l ih =>
    rcases hnext : (mergeLoop W P txContractName).next g e with g' | g'
    · obtain ⟨-, -, hof⟩ := mergeWriteEntries_of_error W hnext l s
      rw [hof, WriteLoop.done_cons_error hnext]
      simp [WriteLoop.last, lastWrite]
    · obtain ⟨⟨-, hput⟩, -, -⟩ := (next_ok_iff W).1 hnext
      rw [mergeWriteEntries_of_ok W hnext, ih, WriteLoop.done_cons_ok hnext, WriteLoop.last_cons,
        W.put_accepted s _ _ _ hput]
      by_cases hc : c = txContractName
      · by_cases hk : k = Entry.storedKey P txContractName e
        · subst hk
          simp [hc, mergeLoop]
        · have hk' : ¬ Entry.storedKey P txContractName e = k := fun h => hk h.symm
          simp [hc, hk, hk', mergeLoop]
      · simp [hc]

/-- Two merges that cannot be told apart: the gas used, whether they failed, the write set. -/
def Merged.Same (a b : Merged σ) : Prop :=
  a.gasUsed = b.gasUsed ∧ a.err.isSome = b.err.isSome ∧ W.of a.store = W.of b.store

/-- An order that meets the entries of one map as they stand in a list. -/
def MapOrder.through (m : GoMap) (l : List Entry) (h : l.Perm m.entries) : MapOrder where
  enum m' := if m'.entries = m.entries then l else m'.entries
  perm m' := by
    split_ifs with heq
    · rw [heq]
      exact h
    · exact .refl _

theorem MapOrder.enum_through {m : GoMap} (h : l.Perm m.entries) :
    (MapOrder.through m l h).enum m = l := if_pos rfl

theorem same_iff_run {l₁ l₂ : List Entry} :
    (∀ s, Merged.Same W (mergeWriteEntries P S txContractName l₁ g s)
        (mergeWriteEntries P S txContractName l₂ g s)) ↔
      (mergeLoop W P txContractName).run l₁ g = (mergeLoop W P txContractName).run l₂ g ∧
        ∀ k, (mergeLoop W P txContractName).last k ((mergeLoop W P txContractName).done l₁ g) =
          (mergeLoop W P txContractName).last k ((mergeLoop W P txContractName).done l₂ g) := by
  constructor
  · intro h
    obtain ⟨hgas, herr, hof⟩ := h W.initial
    refine ⟨?_, fun k => ?_⟩
    · rw [mergeWriteEntries_run W l₁ g W.initial, mergeWriteEntries_run W l₂ g W.initial, hgas, herr]
    · have hk := congrFun (congrFun hof txContractName) k
      rw [mergeWriteEntries_of, mergeWriteEntries_of, if_pos rfl, if_pos rfl, W.initial_empty] at hk
      simpa using hk
  · rintro ⟨hrun, hlast⟩ s
    rw [mergeWriteEntries_run W l₁ g s, mergeWriteEntries_run W l₂ g s] at hrun
    have hend : (mergeWriteEntries P S txContractName l₁ g s).gasUsed =
          (mergeWriteEntries P S txContractName l₂ g s).gasUsed ∧
        (mergeWriteEntries P S txContractName l₁ g s).err.isSome =
          (mergeWriteEntries P S txContractName l₂ g s).err.isSome := by
      split_ifs at hrun with h₁ h₂ h₂
      · exact ⟨Except.error.inj hrun, by rw [h₁, h₂]⟩
      · exact ⟨Except.ok.inj hrun, by rw [Bool.eq_false_iff.2 h₁, Bool.eq_false_iff.2 h₂]⟩
    refine ⟨hend.1, hend.2, funext fun c => funext fun k => ?_⟩
    rw [mergeWriteEntries_of, mergeWriteEntries_of, hlast k]

/-- **A merge does not depend on the order** of the write map exactly if the order is invisible:
    in the gas used, in the outcome and in the write set, from every state. -/
theorem merge_order_free (P : Protocol) (S : TxSimContext σ κ η) (W : WriteSet S)
    (writeMap : GoMap) (gasUsed : UInt64) (txContractName : Bytes) :
    (∀ (s : σ) (o₁ o₂ : MapOrder), Merged.Same W
        (mergeSimContextWriteMap P S o₁ writeMap gasUsed txContractName s)
        (mergeSimContextWriteMap P S o₂ writeMap gasUsed txContractName s)) ↔
      OrderInvisible W P txContractName writeMap gasUsed := by
  rw [← orderFree_mergeLoop_iff]
  constructor
  · intro h l₁ l₂ h₁ h₂
    rw [← same_iff_run W]
    intro s
    have hsame := h s (.through writeMap l₁ h₁) (.through writeMap l₂ h₂)
    unfold mergeSimContextWriteMap at hsame
    rwa [MapOrder.enum_through, MapOrder.enum_through] at hsame
  · intro h s o₁ o₂
    exact (same_iff_run W).2 (h _ _ (o₁.perm writeMap) (o₂.perm writeMap)) s

/-- A map with a good and a malformed key, before version 2312: in one order 100 is charged and
    the value stored before the malformed key is met, in the other nothing is.  Since then the
    gas is the same, but of two map keys that are stored under one key the later one wins. -/
theorem merge_order_seen :
    (let m : GoMap := ⟨[(text "fact#key", text "val"), (text "x", [])], by decide⟩
    let a := mergeSimContextWriteMap .sample (.sample 0) .listed m 7 (text "fact") .empty
    let b := mergeSimContextWriteMap .sample (.sample 0) .reversed m 7 (text "fact") .empty
    a.gasUsed = 107 ∧ b.gasUsed = 7 ∧
      a.store.writes = [((text "fact", text "key"), text "val")] ∧ b.store.writes = []) ∧
    (let m : GoMap := ⟨[(text "fact#k", text "old"), (text "fact#k#", text "new")], by decide⟩
    let S := TxSimContext.sample version2312
    let a := mergeSimContextWriteMap .sample S .listed m 7 (text "fact") .empty
    let b := mergeSimContextWriteMap .sample S .reversed m 7 (text "fact") .empty
    a.err = none ∧ b.err = none ∧
      (WriteSet.sample version2312).of a.store (text "fact") (text "k") = some (text "new") ∧
      (WriteSet.sample version2312).of b.store (text "fact") (text "k") = some (text "old")) := by
  decide

end VmEngine.Runtime
