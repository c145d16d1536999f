/-
  When charges succeed.

  A charge adds its price in `uint64` arithmetic; it succeeds if the sum, which may have
  wrapped, does not exceed the limit (`charge_ok`).  A `Bill` is what a request is charged,
  price by price.  `Affords` says that it can be paid without an error and without wrapping,
  and then the gas used does not go down (`Affords.le_paid`).
-/
import VmEngine.Runtime.Merge

namespace VmEngine.Runtime

variable {σ κ η : Type} {P : Protocol} {S : TxSimContext σ κ η}

/-! ## Single prices -/

/-- The price of the creation of a key-value iterator. -/
def createKvPrice (P : Protocol) (S : TxSimContext σ κ η) (params : Payload) : Except Bytes UInt64 :=
  if S.blockVersion < version2312 then .ok (10 * kvIteratorCreateGasPrice)
  else dataPrice P (S.gasConfig P)
    ((params.get .iterStartKey).length + (params.get .iterStartField).length +
      (params.get .iterLimitKey).length + (params.get .iterLimitField).length)

/-- A price can be paid a number of times, starting from an amount of gas: what is used then. -/
def pays (P : Protocol) (price : Except Bytes UInt64) : ℕ → UInt64 → Option UInt64
  | 0, gasUsed => some gasUsed
  | n + 1, gasUsed =>
    match price with
    | .error _ => none
    | .ok c => if gasUsed + c ≤ P.gasLimit then pays P price n (gasUsed + c) else none

theorem pays_add (price : Except Bytes UInt64) (m n : ℕ) (g : UInt64) :
    pays P price (m + n) g = (pays P price m g).bind (pays P price n) := by
  induction m generalizing g with
  | zero => simp only [Nat.zero_add, pays, Option.bind_some]
  | succ m ih =>
    rw [Nat.add_right_comm]
    rcases price with err | c
    · rfl
    · simp only [pays]
      split_ifs
      · exact ih _
      · rfl

variable {g : UInt64} {price : Except Bytes UInt64}

/-- A charge succeeds exactly if its price can be paid. -/
theorem charge_ok {limitErr : Bytes} {g' : UInt64} :
    charge P limitErr g price = (g', none) ↔ pays P price 1 g = some g' := by
  rcases price with err | c
  · simp [charge, pays]
  · simp only [charge, checkGasLimit, pays, decide_eq_true_eq]
    by_cases h : g + c ≤ P.gasLimit
    · rw [if_neg (UInt64.not_lt.2 h), if_pos h]
      simp
    · rw [if_pos (UInt64.not_le.1 h), if_neg h]
      simp

theorem charge_error {limitErr : Bytes} {g' : UInt64} {err : Bytes}
    (h : charge P limitErr g price = (g', some err)) : pays P price 1 g = none := by
  rcases hp : pays P price 1 g with _ | g''
  · rfl
  · rw [charge_ok.2 hp] at h
    cases h

theorem createKvIteratorGasUsed_eq (params : Payload) (g : UInt64) :
    createKvIteratorGasUsed P S.blockVersion (S.gasConfig P) params g =
      charge P overGasLimited g (createKvPrice P S params) := by
  unfold createKvIteratorGasUsed createKvPrice
  split_ifs <;> rfl

/-! ## Bills -/

/-- Prices that are charged one after another. -/
abbrev Bill := List (Except Bytes UInt64)

/-- The gas used after a bill was paid. -/
def paid (g : UInt64) : Bill → UInt64
  | [] => g
  | .error _ :: bill => paid g bill
  | .ok c :: bill => paid (g + c) bill

/-- Every price of the bill is known, and paying them in turn stays within the limit. -/
def Affords (P : Protocol) (g : UInt64) : Bill → Prop
  | [] => True
  | .error _ :: _ => False
  | .ok c :: bill => g.toNat + c.toNat ≤ P.gasLimit.toNat ∧ Affords P (g + c) bill

theorem paid_append (g : UInt64) (a b : Bill) : paid g (a ++ b) = paid (paid g a) b := by
  induction a generalizing g with
  | nil => rfl
  | cons p a ih =>
    rcases p with err | c
    · exact ih g
    · exact ih (g + c)

theorem affords_append {a b : Bill} :
    Affords P g (a ++ b) ↔ Affords P g a ∧ Affords P (paid g a) b := by
  induction a generalizing g with
  | nil => simp only [List.nil_append, Affords, paid, true_and]
  | cons p a ih =>
    rcases p with err | c
    · simp only [List.cons_append, Affords, false_and]
    · simp only [List.cons_append, Affords, paid, ih, and_assoc]

theorem toNat_add_of_le {c : UInt64} (h : g.toNat + c.toNat ≤ P.gasLimit.toNat) :
    (g + c).toNat = g.toNat + c.toNat := by
  have := P.gasLimit.toNat_lt
  rw [UInt64.toNat_add]
  omega

theorem Affords.le_paid {bill : Bill} (h : Affords P g bill) : g ≤ paid g bill := by
  induction bill generalizing g with
  | nil => exact UInt64.le_refl g
  | cons p bill ih =>
    rcases p with err | c
    · exact h.elim
    · have hle : g ≤ g + c := by
        rw [UInt64.le_iff_toNat_le, toNat_add_of_le h.1]
        omega
      exact UInt64.le_trans hle (ih h.2)

/-- A charge that can be afforded succeeds. -/
theorem Affords.charge (limitErr : Bytes) (h : Affords P g [price]) :
    charge P limitErr g price = (paid g [price], none) := by
  rcases price with err | c
  · exact h.elim
  · rw [charge_ok]
    simp only [pays, paid]
    rw [if_pos]
    rw [UInt64.le_iff_toNat_le, toNat_add_of_le h.1]
    exact h.1

/-- What is charged only before version 2312. -/
def TxSimContext.old (S : TxSimContext σ κ η) (bill : Bill) : Bill :=
  if S.blockVersion < version2312 then bill else []

theorem Affords.chargeOld (limitErr : Bytes) (h : Affords P g (S.old [price])) :
    (if S.blockVersion < version2312 then VmEngine.Runtime.charge P limitErr g price else (g, none)) =
      (paid g (S.old [price]), none) := by
  unfold TxSimContext.old at h ⊢
  split_ifs with hv
  · rw [if_pos hv] at h
    exact h.charge _
  · rfl

end VmEngine.Runtime
