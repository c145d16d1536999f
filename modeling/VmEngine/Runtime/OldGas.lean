/-
  The gas counter before version 2312 (`gas/gas_old.go`).

  `Invoke` charges `InitFuncGasUsedLt2312` and `ContractGasUsed`, and then one charge for
  every operation of the contract.  Each function adds in `uint64` arithmetic and compares
  the sum with the limit.  Started within the limit, all but the first are exact (`Adds`):
  limit and prices are far below `2^64`.  The first adds the gas passed to `Invoke`, the
  configured default gas and a constant, and this sum may wrap (`Wraps`).
-/
import VmEngine.Runtime.Invoke
import VmEngine.Runtime.Charges
import Mathlib.Data.List.Forall2
import Mathlib.Algebra.Ring.Nat

namespace VmEngine.Runtime

variable {σ κ η : Type}

/-! ## The charges of an invocation -/

/-- A charge that an operation of the contract makes. -/
inductive OldCharge where
  | getState (value : Bytes)
  | getBatchState (payload : Bytes)
  | putState (contractName key field value : Bytes)
  | emitEvent (contractEvent : ContractEvent)
  | createKvIterator
  | consumeKvIterator
  | createKeyHistoryIter
  | consumeKeyHistoryIter
  | getSenderAddress

namespace OldCharge
variable (P : Protocol)

/-- The charge function. -/
def gasUsed (gasUsed : UInt64) : OldCharge → UInt64 × Option Bytes
  | getState value => getStateGasUsedLt2312 P gasUsed value
  | getBatchState payload => getBatchStateGasUsedLt2312 P gasUsed payload
  | putState contractName key field value =>
    putStateGasUsedLt2312 P gasUsed contractName key field value
  | emitEvent contractEvent => emitEventGasUsedLt2312 P gasUsed contractEvent
  | createKvIterator => createKvIteratorGasUsedLt2312 P gasUsed
  | consumeKvIterator => consumeKvIteratorGasUsedLt2312 P gasUsed
  | createKeyHistoryIter => createKeyHistoryIterGasUsedLt2312 P gasUsed
  | consumeKeyHistoryIter => consumeKeyHistoryIterGasUsedLt2312 P gasUsed
  | getSenderAddress => getSenderAddressGasUsed P gasUsed

/-- What the charge costs.  An event that cannot be marshalled has no cost. -/
def cost : OldCharge → ℕ
  | getState value => value.length
  | getBatchState payload => payload.length
  | putState contractName key field value =>
    (value.length + (contractName.length + key.length + field.length)) * 10
  | emitEvent contractEvent =>
    match P.marshalContractEvent contractEvent with
    | .ok b => b.length * 5
    | .error _ => 0
  | createKvIterator | consumeKvIterator | createKeyHistoryIter | consumeKeyHistoryIter
  | getSenderAddress => 10

/-- The texts whose lengths are charged. -/
def measured : OldCharge → List Bytes
  | getState value => [value]
  | getBatchState payload => [payload]
  | putState contractName key field value => [contractName, key, field, value]
  | emitEvent contractEvent => (P.marshalContractEvent contractEvent).toOption.toList
  | createKvIterator | consumeKvIterator | createKeyHistoryIter | consumeKeyHistoryIter
  | getSenderAddress => []

end OldCharge

/-- Lengths below `2^50`. -/
def Short (texts : List Bytes) : Prop := ∀ b ∈ texts, b.length < 2 ^ 50

/-- Charge functions one after another, until the first error. -/
def spend : UInt64 → List (UInt64 → UInt64 × Option Bytes) → UInt64 × Option Bytes
  | gasUsed, [] => (gasUsed, none)
  | gasUsed, f :: fs =>
    match f gasUsed with
    | (gasUsed, none) => spend gasUsed fs
    | (gasUsed, some err) => (gasUsed, some err)

section
variable (P : Protocol) (S : TxSimContext σ κ η) (call : Invocation)

/-- The default gas of the chain's configuration, or that of the code. -/
def baseGas : ℕ :=
  match S.accountConfig with
  | some c => if c.defaultGas = 0 then 10000 else c.defaultGas.toNat
  | none => 10000

/-- What `ContractGasUsed` costs. -/
def contractCost : ℕ :=
  if call.method = initContract then
    (call.contract.name.length + P.prefixContractByteCode.length + call.byteCode.length) * 10
  else if call.method = upgradeContract then call.byteCode.length * 10
  else 0

/-- The charge functions of an invocation, in order. -/
def oldCharges (charges : List OldCharge) : List (UInt64 → UInt64 × Option Bytes) :=
  (initFuncGasUsedLt2312 P · (getChainConfigDefaultGas S)) ::
    (contractGasUsed P · call.method call.contract.name call.byteCode) ::
    charges.map fun c g => c.gasUsed P g

/-- Their costs. -/
def oldCosts (charges : List OldCharge) : List ℕ :=
  (baseGas S + 1250) :: contractCost P call :: charges.map (OldCharge.cost P)

/-- After each of the charges: the counter returned without an error is the sum of all costs and
    within the limit, and a sum over the limit is an error. -/
def ExactGas (gasUsed : UInt64) (charges : List OldCharge) : Prop :=
  ∀ n, 0 < n →
    (∀ g, spend gasUsed ((oldCharges P S call charges).take n) = (g, none) →
      g.toNat = gasUsed.toNat + ((oldCosts P S call charges).take n).sum ∧
      g.toNat ≤ P.gasLimit.toNat) ∧
    (P.gasLimit.toNat < gasUsed.toNat + ((oldCosts P S call charges).take n).sum →
      ∃ err, (spend gasUsed ((oldCharges P S call charges).take n)).2 = some err)

/-- The sum of the first charge wraps to an amount within the limit. -/
def Wraps (gasUsed : UInt64) : Prop :=
  2 ^ 64 ≤ gasUsed.toNat + (baseGas S + 1250) ∧
    (gasUsed.toNat + (baseGas S + 1250)) % 2 ^ 64 ≤ P.gasLimit.toNat

end

/-! ## Exact functions -/

variable {P : Protocol} {S : TxSimContext σ κ η} {call : Invocation}

/-- Started within the limit, the function adds its cost or returns an error. -/
def Adds (P : Protocol) (f : UInt64 → UInt64 × Option Bytes) (cost : ℕ) : Prop :=
  ∀ g g', g.toNat ≤ P.gasLimit.toNat → f g = (g', none) →
    g'.toNat = g.toNat + cost ∧ g'.toNat ≤ P.gasLimit.toNat

theorem toNat_goLen {b : Bytes} (h : b.length < 2 ^ 50) : (goLen b).toNat = b.length := by
  rw [goLen, UInt64.toNat_ofNat']
  exact Nat.mod_eq_of_lt (by omega)

theorem adds_of_charge (limitErr : Bytes) (price : Except Bytes UInt64)
    {f : UInt64 → UInt64 × Option Bytes} {cost : ℕ} (hf : ∀ g, f g = charge P limitErr g price)
    (hlimit : P.gasLimit.toNat < 2 ^ 40)
    (hprice : ∀ c, price = .ok c → c.toNat = cost ∧ cost < 2 ^ 60) : Adds P f cost := by
  intro g g' hg h
  rw [hf, charge_ok] at h
  rcases price with err | c
  · cases h
  · obtain ⟨hc, hlt⟩ := hprice c rfl
    simp only [pays] at h
    split_ifs at h with hle
    cases h
    have hsum : (g + c).toNat = g.toNat + cost := by
      rw [UInt64.toNat_add, hc]
      exact Nat.mod_eq_of_lt (by omega)
    exact ⟨hsum, UInt64.le_iff_toNat_le.1 hle⟩

/-- A price for some bytes. -/
theorem toNat_mul_price {n p : UInt64} {len price : ℕ} (hn : n.toNat = len) (hp : p.toNat = price)
    (h : len * price < 2 ^ 60) : (n * p).toNat = len * price ∧ len * price < 2 ^ 60 := by
  rw [UInt64.toNat_mul, hn, hp]
  exact ⟨Nat.mod_eq_of_lt (by omega), h⟩

theorem toNat_add_goLen {a b : Bytes} (ha : a.length < 2 ^ 52) (hb : b.length < 2 ^ 50) :
    (goLen a + goLen b).toNat = a.length + b.length := by
  rw [UInt64.toNat_add, toNat_goLen hb, goLen, UInt64.toNat_ofNat']
  omega

theorem OldCharge.adds (hlimit : P.gasLimit.toNat < 2 ^ 40) (c : OldCharge)
    (hshort : Short (c.measured P)) : Adds P (fun g => c.gasUsed P g) (c.cost P) := by
  have hten : ∀ c : UInt64, (.ok (10 * 1) : Except Bytes UInt64) = .ok c →
      c.toNat = 10 ∧ 10 < 2 ^ 60 := by
    rintro c ⟨⟩
    exact ⟨rfl, by omega⟩
  cases c with
  | getState value | getBatchState value =>
    refine adds_of_charge overGasLimitedBlank (.ok (goLen value * 1)) (fun g => rfl) hlimit
      fun c hc => ?_
    cases hc
    have hv := hshort value (List.mem_singleton_self _)
    rw [UInt64.mul_one, toNat_goLen hv]
    exact ⟨rfl, Nat.lt_trans hv (by decide)⟩
  | putState contractName key field value =>
    refine adds_of_charge overGasLimitedBlank (.ok (putStatePrice contractName key field value))
      (fun g => rfl) hlimit fun c hc => ?_
    cases hc
    have hn := hshort contractName (by simp [measured])
    have hk := hshort key (by simp [measured])
    have hf := hshort field (by simp [measured])
    have hv := hshort value (by simp [measured])
    have hlen : (contractName ++ key ++ field).length =
        contractName.length + key.length + field.length := by
      rw [List.length_append, List.length_append]
    refine toNat_mul_price ?_ rfl (by omega)
    rw [UInt64.add_comm, toNat_add_goLen (by omega) hv, hlen, Nat.add_comm]
  | emitEvent contractEvent =>
    refine adds_of_charge overGasLimitedBlank (emitEventPrice P contractEvent) (fun g => rfl) hlimit
      fun c hc => ?_
    obtain ⟨b, hb, rfl⟩ : ∃ b, P.marshalContractEvent contractEvent = .ok b ∧
        goLen b * emitEventGasPrice = c := by
      unfold emitEventPrice at hc
      rcases hm : P.marshalContractEvent contractEvent with err | b
      · rw [hm] at hc
        cases hc
      · rw [hm] at hc
        cases hc
        exact ⟨b, rfl, rfl⟩
    have hlen := hshort b (by rw [measured, hb]; exact List.mem_singleton_self b)
    have hcost : cost P (.emitEvent contractEvent) = b.length * 5 := by rw [cost, hb]
    rw [hcost]
    exact toNat_mul_price (toNat_goLen hlen) rfl (by omega)
  | createKvIterator | consumeKvIterator | createKeyHistoryIter | consumeKeyHistoryIter
  | getSenderAddress => exact adds_of_charge overGasLimited _ (fun g => rfl) hlimit hten

/-- The price that `ContractGasUsed` adds. -/
def contractPrice (P : Protocol) (call : Invocation) : UInt64 :=
  if call.method = initContract then
    (goLen (call.contract.name ++ P.prefixContractByteCode) + goLen call.byteCode) * putStateGasPrice
  else if call.method = upgradeContract then goLen call.byteCode * putStateGasPrice
  else 0

theorem contractGasUsed_eq (g : UInt64) :
    contractGasUsed P g call.method call.contract.name call.byteCode =
      charge P overGasLimitedBlank g (.ok (contractPrice P call)) := by
  have hne : initContract ≠ upgradeContract := by decide
  unfold contractGasUsed contractPrice
  by_cases hinit : call.method = initContract
  · have hup : call.method ≠ upgradeContract := hinit ▸ hne
    simp only [if_pos hinit, if_neg hup, charge, UInt64.add_zero]
  · simp only [if_neg hinit]
    split_ifs <;> simp only [charge, UInt64.add_zero]

theorem toNat_contractPrice
    (hshort : Short [call.contract.name, P.prefixContractByteCode, call.byteCode]) :
    (contractPrice P call).toNat = contractCost P call ∧ contractCost P call < 2 ^ 60 := by
  have hn := hshort call.contract.name (by simp)
  have hp := hshort P.prefixContractByteCode (by simp)
  have hb := hshort call.byteCode (by simp)
  have hlen : (call.contract.name ++ P.prefixContractByteCode).length =
    call.contract.name.length + P.prefixContractByteCode.length := List.length_append
  unfold contractPrice contractCost
  split_ifs
  · refine toNat_mul_price ?_ rfl (by omega)
    rw [toNat_add_goLen (by omega) hb, hlen]
  · exact toNat_mul_price (toNat_goLen hb) rfl (by omega)
  · exact ⟨rfl, by omega⟩

theorem contractGasUsed_adds (hlimit : P.gasLimit.toNat < 2 ^ 40)
    (hshort : Short [call.contract.name, P.prefixContractByteCode, call.byteCode]) :
    Adds P (contractGasUsed P · call.method call.contract.name call.byteCode)
      (contractCost P call) := by
  refine adds_of_charge _ _ contractGasUsed_eq hlimit fun c hc => ?_
  cases hc
  exact toNat_contractPrice hshort

/-! ## The first charge -/

theorem toNat_getInitFuncGasUsed (g : UInt64) :
    (getInitFuncGasUsed g (getChainConfigDefaultGas S)).toNat =
      (g.toNat + (baseGas S + 1250)) % 2 ^ 64 := by
  have hsum : ∀ d : UInt64, (g + d + initFuncGas).toNat = (g.toNat + (d.toNat + 1250)) % 2 ^ 64 := by
    intro d
    have hinit : initFuncGas.toNat = 1250 := rfl
    rw [UInt64.toNat_add, UInt64.toNat_add, hinit]
    omega
  unfold getInitFuncGasUsed getChainConfigDefaultGas baseGas
  rcases S.accountConfig with _ | c
  · exact hsum defaultInvokeBaseGas
  · by_cases hzero : c.defaultGas = 0
    · simp only [hzero, if_pos, ite_self]
      exact hsum defaultInvokeBaseGas
    · have hpos : c.defaultGas > 0 := UInt64.pos_iff_ne_zero.2 hzero
      simp only [if_pos hpos, if_neg hzero]
      exact hsum c.defaultGas

/-- The first charge compares the wrapped sum with the limit. -/
theorem initFuncGasUsed_ok {g g' : UInt64} :
    initFuncGasUsedLt2312 P g (getChainConfigDefaultGas S) = (g', none) ↔
      g'.toNat = (g.toNat + (baseGas S + 1250)) % 2 ^ 64 ∧ g'.toNat ≤ P.gasLimit.toNat := by
  rw [← toNat_getInitFuncGasUsed, initFuncGasUsedLt2312, charge_ok]
  simp only [pays, UInt64.add_zero, UInt64.le_iff_toNat_le, UInt64.toNat_inj]
  constructor
  · intro h
    split_ifs at h with hle
    cases h
    exact ⟨rfl, hle⟩
  · rintro ⟨rfl, hle⟩
    rw [if_pos hle]

/-! ## All charges -/

theorem spend_cons {f : UInt64 → UInt64 × Option Bytes} {fs : List (UInt64 → UInt64 × Option Bytes)}
    {g g' : UInt64} :
    spend g (f :: fs) = (g', none) ↔ ∃ g₁, f g = (g₁, none) ∧ spend g₁ fs = (g', none) := by
  rcases h : f g with ⟨g₁, _ | err⟩ <;> simp [spend, h]

/-- Exact functions one after another, started within the limit. -/
theorem spend_adds {fs : List (UInt64 → UInt64 × Option Bytes)} {costs : List ℕ}
    (hfs : List.Forall₂ (Adds P) fs costs) {g g' : UInt64} (hg : g.toNat ≤ P.gasLimit.toNat)
    (h : spend g fs = (g', none)) :
    g'.toNat = g.toNat + costs.sum ∧ g'.toNat ≤ P.gasLimit.toNat := by
  induction hfs generalizing g with
  | nil =>
    cases h
    exact ⟨rfl, hg⟩
  | cons hf _ ih =>
    obtain ⟨g₁, h₁, h⟩ := spend_cons.1 h
    obtain ⟨hsum, hle⟩ := hf g g₁ hg h₁
    obtain ⟨hsum', hle'⟩ := ih hle h
    rw [List.sum_cons]
    exact ⟨by omega, hle'⟩

/-- **Gas before version 2312.**  With a limit below `2^40` and lengths below `2^50`, the counter
    is exact after every charge unless the sum of the first one wraps to an amount within the
    limit. -/
theorem old_gas_exact (hlimit : P.gasLimit.toNat < 2 ^ 40) (gasUsed : UInt64)
    (hcall : Short [call.contract.name, P.prefixContractByteCode, call.byteCode])
    {charges : List OldCharge} (hcharges : ∀ c ∈ charges, Short (c.measured P)) :
    ExactGas P S call gasUsed charges ↔ ¬ Wraps P S gasUsed := by
  constructor
  · rintro hexact ⟨hwrap, hle⟩
    -- the first charge alone
    have hfirst : spend gasUsed ((oldCharges P S call charges).take 1) =
        (getInitFuncGasUsed gasUsed (getChainConfigDefaultGas S), none) := by
      rw [oldCharges, List.take_succ_cons, List.take_zero, spend_cons]
      refine ⟨_, initFuncGasUsed_ok.2 ⟨toNat_getInitFuncGasUsed gasUsed, ?_⟩, rfl⟩
      rw [toNat_getInitFuncGasUsed]
      exact hle
    obtain ⟨hsum, -⟩ := (hexact 1 Nat.one_pos).1 _ hfirst
    rw [toNat_getInitFuncGasUsed, oldCosts, List.take_succ_cons, List.take_zero,
      List.sum_singleton] at hsum
    omega
  · intro hwraps n hn
    obtain ⟨n, rfl⟩ : ∃ m, n = m + 1 := ⟨n - 1, by omega⟩
    have hok : ∀ g, spend gasUsed ((oldCharges P S call charges).take (n + 1)) = (g, none) →
        g.toNat = gasUsed.toNat + ((oldCosts P S call charges).take (n + 1)).sum ∧
        g.toNat ≤ P.gasLimit.toNat := by
      intro g h
      rw [oldCharges, List.take_succ_cons] at h
      obtain ⟨g₁, h₁, h⟩ := spend_cons.1 h
      obtain ⟨hsum, hle⟩ := initFuncGasUsed_ok.1 h₁
      have hfirst : g₁.toNat = gasUsed.toNat + (baseGas S + 1250) := by
        rw [hsum] at hle ⊢
        exact Nat.mod_eq_of_lt (by_contra fun hge => hwraps ⟨by omega, hle⟩)
      have hrest : List.Forall₂ (Adds P)
          ((contractGasUsed P · call.method call.contract.name call.byteCode) ::
            charges.map fun c g => c.gasUsed P g)
          (contractCost P call :: charges.map (OldCharge.cost P)) := by
        refine .cons (contractGasUsed_adds hlimit hcall) ?_
        rw [List.forall₂_map_left_iff, List.forall₂_map_right_iff, List.forall₂_same]
        exact fun c hc => c.adds hlimit (hcharges c hc)
      obtain ⟨hsum', hle'⟩ := spend_adds (List.forall₂_take n hrest) hle h
      rw [oldCosts, List.take_succ_cons, List.sum_cons]
      exact ⟨by omega, hle'⟩
    refine ⟨hok, fun hover => ?_⟩
    rcases h : spend gasUsed ((oldCharges P S call charges).take (n + 1)) with ⟨g, _ | err⟩
    · obtain ⟨hsum, hle⟩ := hok g h
      omega
    · exact ⟨err, rfl⟩

/-- A call that installs a contract. -/
def Invocation.install : Invocation := ⟨⟨text "fact", text "v1"⟩, initContract, text "7z", text "tx1#1"⟩

/-- The contract reads, writes and emits an event. -/
def someCharges : List OldCharge :=
  [.getState (text "value"), .putState (text "fact") (text "k") [] (text "v"), .getSenderAddress,
    .emitEvent ⟨text "topic", text "tx1", text "fact", []⟩]

theorem old_gas_exact_install :
    spend 100 (oldCharges .sample (TxSimContext.sample 2030100) .install someCharges) =
      (11680, none) ∧
    ExactGas .sample (TxSimContext.sample 2030100) .install 100 someCharges :=
  ⟨by decide, (old_gas_exact (by decide) 100 (by unfold Short; decide)
    (by unfold Short; decide)).2 (by unfold Wraps; decide)⟩

/-- A chain whose default gas is just below `2^64`. -/
def TxSimContext.dear : TxSimContext SampleStore ℕ ℕ :=
  { TxSimContext.sample 2030100 with accountConfig := some ⟨18446744073709550366, 0⟩ }

/-- The first charge wraps to 0, and no error is returned. -/
theorem old_gas_wrapped :
    spend 0 ((oldCharges .sample TxSimContext.dear .install []).take 1) = (0, none) ∧
      ((oldCosts .sample TxSimContext.dear .install []).take 1).sum = 2 ^ 64 ∧
      ¬ ExactGas .sample TxSimContext.dear .install 0 [] := by
  have hspend : spend 0 ((oldCharges .sample TxSimContext.dear .install []).take 1) = (0, none) := by
    decide
  have hsum : ((oldCosts .sample TxSimContext.dear .install []).take 1).sum = 2 ^ 64 := by decide
  refine ⟨hspend, hsum, fun hexact => ?_⟩
  have hzero := ((hexact 1 Nat.one_pos).1 0 hspend).1
  rw [hsum] at hzero
  exact absurd hzero (by decide)

end VmEngine.Runtime
