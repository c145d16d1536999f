/-
  Which call a message reaches.

  Unique keys are unique as long as `count` does not wrap around, so the maps of notifiers
  hold the calls that are registered, and what is delivered to a call, waits in its
  channels or is answered by it names that call and no other.
-/
import VmEngine.Rpc.ChainNode

namespace VmEngine

/-! ## Keys -/

theorem constructNotifyMapKey_eq (chainId txId : String) (n : ℕ) :
    constructNotifyMapKey chainId (String.intercalate "#" [txId, toString n]) =
      String.intercalate "#" ([chainId, txId] ++ [toString n]) := by
  apply String.toList_injective
  rw [constructNotifyMapKey, toList_intercalate_cons _ (by simp), String.intercalate_singleton]
  exact (toList_intercalate_cons chainId (by simp)).symm

namespace ChainNode

variable {f f' : ChainNode} {a : Action} {i j s : ℕ} {c c' : Call} {d : Delivery} {side : Side}

/-! ## Messages on their way -/

/-- What waits in a channel of a call, and what the call answers. -/
def Call.holds (side : Side) (c : Call) : List Delivery :=
  (c.msgCh side).toList ++ if side = .sandbox then c.phase.answer.toList else []

def Sender.holds (side : Side) (q : Sender) : List Delivery :=
  if side = .sandbox then q.sendResponseCh.toList else []

/-- The messages of a side that have not been dealt with: those that are delivered or wait,
    and the requests whose answer is not yet sent. -/
def pending (f : ChainNode) (side : Side) : List Delivery :=
  (f.receivers side).flatMap Receiver.holds ++ f.calls.flatMap (Call.holds side) ++
    f.senders.flatMap (Sender.holds side)

/-- The message that a step brings in. -/
def arrival (f : ChainNode) (side : Side) : Action → List Delivery
  | .recvMsg side' s msg => if side' = side then ((f.lookup side msg).map (⟨·, s, msg⟩)).toList else []
  | _ => []

theorem count_setCall (hc : f.calls[i]? = some c) (c' : Call) (side : Side) (d : Delivery) :
    ((f.setCall i c').pending side).count d + (c.holds side).count d =
      (f.pending side).count d + (c'.holds side).count d := by
  have hcount := count_flatMap_set (Call.holds side) hc c' d
  simp only [pending, setCall, List.count_append]
  omega

theorem count_setReceiver {r : Receiver} (hr : (f.receivers side)[s]? = some r) (r' : Receiver)
    (d : Delivery) :
    ((f.setReceiver side s r').pending side).count d + r.holds.count d =
      (f.pending side).count d + r'.holds.count d := by
  have hcount := count_flatMap_set Receiver.holds hr r' d
  simp only [pending, setReceiver, Function.update_self, List.count_append]
  omega

variable {p p' phase : Phase} {side' : Side}

theorem pending_setReceiver_of_ne (hne : side ≠ side') (s : ℕ) (r : Receiver) :
    (f.setReceiver side' s r).pending side = f.pending side := by
  simp only [pending, setReceiver, Function.update_of_ne hne]

theorem count_setSender {q : Sender} (hs : f.senders[s]? = some q) (q' : Sender) (side : Side)
    (d : Delivery) :
    ((f.setSender s q').pending side).count d + (q.holds side).count d =
      (f.pending side).count d + (q'.holds side).count d := by
  have hcount := count_flatMap_set (Sender.holds side) hs q' d
  simp only [pending, setSender, List.count_append]
  omega

/-! ### What the parties hold -/

theorem holds_deliver (side : Side) (d : Delivery) : (deliver side d).holds = [d] := by
  cases side <;> rfl

theorem Call.holds_phase (hold : c.phase.answer = none) (hnew : phase.answer = none) (side : Side) :
    Call.holds side { c with phase := phase } = c.holds side := by
  simp only [Call.holds, hold, hnew]

theorem Phase.answer_registerNotify (h : p.registerNotify side = some p') :
    p.answer = none ∧ p'.answer = none := by
  cases side <;> cases p <;> cases h <;> exact ⟨rfl, rfl⟩

theorem Phase.answer_deleteNotify (h : p.deleteNotify side = some p') :
    p.answer = none ∧ p'.answer = none := by
  cases side <;> cases p <;> cases h <;> exact ⟨rfl, rfl⟩

/-- What a call holds after a message was put into a channel or taken out of it. -/
theorem Call.holds_update (side : Side) (o : Option Delivery) :
    Call.holds side { c with msgCh := Function.update c.msgCh side o } =
      o.toList ++ if side = .sandbox then c.phase.answer.toList else [] := by
  simp only [Call.holds, Function.update_self]

theorem Call.holds_update_of_ne (hne : side ≠ side') (o : Option Delivery) :
    Call.holds side { c with msgCh := Function.update c.msgCh side' o } = c.holds side := by
  simp only [Call.holds, Function.update_of_ne hne]

/-- A call that takes a message holds no more than before. -/
theorem Call.count_holds_take (hloop : c.phase = .looping) (hch : c.msgCh side' = some d)
    (hphase : phase = .looping ∨ phase = .returned ∨
      phase = .byteCode ∨ (phase = .answering d ∧ side' = .sandbox ∧ d.isRequest = true))
    (side : Side) (b : Delivery) :
    (Call.holds side { c with msgCh := Function.update c.msgCh side' none, phase := phase }).count b ≤
      (c.holds side).count b := by
  by_cases hs : side = side'
  · subst hs
    rcases hphase with rfl | rfl | rfl | ⟨rfl, rfl, -⟩ <;>
      simp [Call.holds, Phase.answer, hloop, hch]
  · rcases hphase with rfl | rfl | rfl | ⟨rfl, rfl, -⟩
    · simp [Call.holds, Phase.answer, hloop, Function.update_of_ne hs]
    · simp [Call.holds, Phase.answer, hloop, Function.update_of_ne hs]
    · simp [Call.holds, Phase.answer, hloop, Function.update_of_ne hs]
    · simp [Call.holds, hs]

/-- The messages on their way become no more when a party holds no more. -/
theorem count_setCall_le (hc : f.calls[i]? = some c) (hle : (c'.holds side).count d ≤
    (c.holds side).count d) : ((f.setCall i c').pending side).count d ≤ (f.pending side).count d := by
  have hcount := count_setCall hc c' side d
  omega

/-- A move that neither begins nor ends an answer. -/
theorem count_phase_le (hc : f.calls[i]? = some c) (hold : c.phase.answer = none)
    (hnew : phase.answer = none) :
    ((f.setCall i { c with phase := phase }).pending side).count d ≤ (f.pending side).count d := by
  refine count_setCall_le hc ?_
  rw [Call.holds_phase hold hnew]

theorem count_setReceiver_le {r r' : Receiver} (hr : (f.receivers side')[s]? = some r)
    (hle : r'.holds.count d ≤ r.holds.count d) :
    ((f.setReceiver side' s r').pending side).count d ≤ (f.pending side).count d := by
  by_cases hs : side = side'
  · subst hs
    have hcount := count_setReceiver hr r' d
    omega
  · rw [pending_setReceiver_of_ne hs]

theorem count_setSender_le {q q' : Sender} (hs : f.senders[s]? = some q)
    (hle : (q'.holds side).count d ≤ (q.holds side).count d) :
    ((f.setSender s q').pending side).count d ≤ (f.pending side).count d := by
  have hcount := count_setSender hs q' side d
  omega

theorem pending_connect (f : ChainNode) (side side' : Side) :
    pending { f with
      receivers := Function.update f.receivers side' (f.receivers side' ++ [.receiving])
      senders := if side' = .sandbox then f.senders ++ [⟨true, none⟩] else f.senders
      clients := if side' = .engine then f.clients ++ [true] else f.clients } side =
      f.pending side := by
  have hr : (Function.update f.receivers side' (f.receivers side' ++ [.receiving]) side).flatMap
      Receiver.holds = (f.receivers side).flatMap Receiver.holds := by
    by_cases hs : side = side'
    · subst hs
      simp [Receiver.holds]
    · rw [Function.update_of_ne hs]
  have hresp : (if side' = .sandbox then f.senders ++ [⟨true, none⟩] else f.senders).flatMap
      (Sender.holds side) = f.senders.flatMap (Sender.holds side) := by
    split_ifs
    · simp [Sender.holds]
    · rfl
  simp only [pending, hr, hresp]

/-- The answered request moves from the call to the stream. -/
theorem count_putResp {d' : Delivery} {running : Bool} (hc : f.calls[i]? = some c)
    (hresp : c.phase = .responding d' s) (hs : f.senders[s]? = some ⟨running, none⟩) :
    (((f.setCall i { c with phase := .looping }).setSender s ⟨running, some d'⟩).pending side).count d =
      (f.pending side).count d := by
  have hcount := count_setCall hc { c with phase := .looping } side d
  have hput := count_setSender (f := f.setCall i { c with phase := .looping }) hs
    ⟨running, some d'⟩ side d
  have hold : (c.holds side).count d = (Call.holds side { c with phase := .looping }).count d +
      (Sender.holds side ⟨running, some d'⟩).count d := by
    cases side <;> simp [Call.holds, Sender.holds, Phase.answer, hresp]
  have hnone : (Sender.holds side ⟨running, none⟩).count d = 0 := by cases side <;> rfl
  omega

/-- The delivered message moves from the receive routine to the channel of the call. -/
theorem count_put {d' : Delivery} (hr : (f.receivers side')[s]? = some (.putting d'))
    (hc : f.calls[i]? = some c) (hch : c.msgCh side' = none) :
    (((f.setCall i { c with msgCh := Function.update c.msgCh side' (some d') }).setReceiver
      side' s .receiving).pending side).count d = (f.pending side).count d := by
  have hcount := count_setCall hc { c with msgCh := Function.update c.msgCh side' (some d') } side d
  by_cases hs : side = side'
  · subst hs
    have hrecv := count_setReceiver
      (f := f.setCall i { c with msgCh := Function.update c.msgCh side (some d') }) hr .receiving d
    have hold : (Call.holds side { c with msgCh := Function.update c.msgCh side (some d') }).count d =
        (c.holds side).count d + [d'].count d := by
      rw [Call.holds_update, Call.holds, hch, List.count_append, List.count_append]
      simp only [Option.toList_none, Option.toList_some, List.count_nil]
      omega
    simp only [Receiver.holds, List.count_nil] at hrecv
    omega
  · rw [Call.holds_update_of_ne hs] at hcount
    rw [pending_setReceiver_of_ne hs]
    omega

/-- **What a step does to the messages on their way**: it brings in its arrival, moves the
    others on, or is done with them. -/
theorem NodeStep.flow (h : NodeStep f a f') (side : Side) (d : Delivery) :
    (f'.pending side).count d ≤ (f.arrival side a).count d + (f.pending side).count d := by
  cases h with
  | invoke =>
    refine Nat.le_add_left_of_le (Nat.le_of_eq ?_)
    simp [pending, Call.holds, Phase.answer]
  | quiet hc hphase _ _ => exact Nat.le_add_left_of_le (count_phase_le hc hphase.before hphase.after)
  | register hc hphase =>
    obtain ⟨hold, hnew⟩ := Phase.answer_registerNotify hphase
    exact Nat.le_add_left_of_le (count_phase_le hc hold hnew)
  | delete hc hphase =>
    obtain ⟨hold, hnew⟩ := Phase.answer_deleteNotify hphase
    exact Nat.le_add_left_of_le (count_phase_le hc hold hnew)
  | take hc hloop hch hphase =>
    exact Nat.le_add_left_of_le (count_setCall_le hc (Call.count_holds_take hloop hch hphase side d))
  | sendSys hc hans _ =>
    refine Nat.le_add_left_of_le (count_setCall_le hc (Nat.le_of_eq ?_))
    simp [Call.holds, Phase.answer, hans]
  | putResp hc hresp hs => exact Nat.le_add_left_of_le (count_putResp hc hresp hs).le
  | connect =>
    rw [pending_connect]
    exact Nat.le_add_left _ _
  | disconnect hr => exact Nat.le_add_left_of_le (count_setReceiver_le hr (Nat.le_refl _))
  | dropped hl => exact Nat.le_add_left _ _
  | @recvMsg side' s i msg hr hl =>
    by_cases hs : side = side'
    · subst hs
      have hcount := count_setReceiver hr (deliver side ⟨i, s, msg⟩) d
      have harr : f.arrival side (.recvMsg side s msg) = [⟨i, s, msg⟩] := by simp [arrival, hl]
      rw [holds_deliver, Receiver.holds, List.count_nil] at hcount
      rw [harr]
      omega
    · rw [pending_setReceiver_of_ne hs]
      exact Nat.le_add_left _ _
  | @setSendF s c d' hr hc =>
    have hcall : ((f.setCall d'.call { c with sendSysResponse := some s }).pending side).count d ≤
        (f.pending side).count d := count_setCall_le hc (Nat.le_refl _)
    refine Nat.le_add_left_of_le (Nat.le_trans (count_setReceiver_le hr ?_) hcall)
    exact Nat.le_refl _
  | put hr hc hch => exact Nat.le_add_left_of_le (count_put hr hc hch).le
  | sendResp hs =>
    refine Nat.le_add_left_of_le (count_setSender_le hs ?_)
    cases side <;> exact Nat.zero_le _
  | endSend hs => exact Nat.le_add_left_of_le (count_setSender_le hs (Nat.le_refl _))
  | client => exact Nat.le_add_left _ _

/-! ## Registered calls -/

def Registered (f : ChainNode) (side : Side) (key : String) (i : ℕ) : Prop :=
  ∃ c, f.calls[i]? = some c ∧ c.key = key ∧ c.phase.isRegistered side = true

/-- The maps hold the calls that are registered, and unique keys end in the number of their
    call. -/
structure KeyInv (f : ChainNode) : Prop where
  count : f.count.toNat = f.calls.length
  keyed : ∀ {i : ℕ} {c : Call}, f.calls[i]? = some c →
    ∃ txId, c.uniqueTxKey = String.intercalate "#" [txId, toString (i + 1)]
  notify : ∀ {side : Side} {key : String} {i : ℕ},
    f.notify side key = some i ↔ f.Registered side key i

/-- `count` does not wrap around. -/
def FewCalls (f : ChainNode) (_ : Action) : Prop := f.calls.length + 1 < 2 ^ 64

instance : DecidableRel FewCalls := fun f _ => inferInstanceAs (Decidable (f.calls.length + 1 < 2 ^ 64))

theorem keyInv_init : KeyInv init where
  count := rfl
  keyed h := by cases h
  notify := by
    intro side key i
    constructor
    · intro h
      cases h
    · rintro ⟨c, hc, -⟩
      cases hc

/-- Calls with one key are one call. -/
theorem KeyInv.inj (hI : KeyInv f) (hi : f.calls[i]? = some c) (hj : f.calls[j]? = some c')
    (hkey : c.key = c'.key) : i = j := by
  obtain ⟨txId, hc⟩ := hI.keyed hi
  obtain ⟨txId', hc'⟩ := hI.keyed hj
  rw [Call.key, Call.key, hc, hc', constructNotifyMapKey_eq, constructNotifyMapKey_eq] at hkey
  have := eq_of_intercalate_eq (by simp) (by simp) hkey
  omega

theorem Phase.isRegistered_registerNotify (h : p.registerNotify side = some p') (side' : Side) :
    p'.isRegistered side' = if side' = side then true else p.isRegistered side' := by
  cases side <;> cases p <;> cases h <;> cases side' <;> rfl

theorem Phase.isRegistered_deleteNotify (h : p.deleteNotify side = some p') (side' : Side) :
    p'.isRegistered side' = if side' = side then false else p.isRegistered side' := by
  cases side <;> cases p <;> cases h <;> cases side' <;> rfl

theorem calls_setCall_self (hc : f.calls[i]? = some c) (c' : Call) :
    (f.setCall i c').calls[i]? = some c' := getElem?_set_self_of_some hc c'

theorem calls_setCall_of_ne (hne : j ≠ i) (c' : Call) :
    (f.setCall i c').calls[j]? = f.calls[j]? := List.getElem?_set_ne (Ne.symm hne)

theorem registered_setCall (hc : f.calls[i]? = some c) (c' : Call) (hkey : c'.key = c.key)
    {key : String} :
    (f.setCall i c').Registered side key j ↔
      if j = i then c.key = key ∧ c'.phase.isRegistered side = true else f.Registered side key j := by
  unfold Registered
  by_cases hj : j = i
  · subst hj
    rw [calls_setCall_self hc, if_pos rfl]
    constructor
    · rintro ⟨b, hb, hbk, hreg⟩
      cases hb
      exact ⟨hkey ▸ hbk, hreg⟩
    · rintro ⟨hck, hreg⟩
      exact ⟨c', rfl, hkey.trans hck, hreg⟩
  · rw [calls_setCall_of_ne hj, if_neg hj]

theorem registered_iff (hc : f.calls[i]? = some c) (side : Side) (key : String) :
    f.Registered side key i ↔ c.key = key ∧ c.phase.isRegistered side = true := by
  unfold Registered
  rw [hc]
  simp

/-- A call changes, and its key and what is registered for it do not. -/
theorem KeyInv.setCall (hI : KeyInv f) (hc : f.calls[i]? = some c) (c' : Call)
    (hchain : c'.chainId = c.chainId) (hkey : c'.uniqueTxKey = c.uniqueTxKey)
    (hreg : ∀ side, c'.phase.isRegistered side = c.phase.isRegistered side) :
    KeyInv (f.setCall i c') where
  count := by
    rw [ChainNode.setCall, List.length_set]
    exact hI.count
  keyed := by
    intro k b hb
    rcases getElem?_set_some hb with ⟨rfl, rfl⟩ | ⟨-, hold⟩
    · rw [hkey]
      exact hI.keyed hc
    · exact hI.keyed hold
  notify := by
    intro side key k
    have hkeys : c'.key = c.key := by rw [Call.key, Call.key, hchain, hkey]
    rw [registered_setCall hc c' hkeys]
    refine hI.notify.trans ?_
    split_ifs with hk
    · subst hk
      rw [registered_iff hc, hreg]
    · exact Iff.rfl

theorem KeyInv.eq_of_registered (hI : KeyInv f) (hc : f.calls[i]? = some c)
    (h : f.Registered side c.key j) : j = i := by
  obtain ⟨b, hb, hkey, -⟩ := h
  exact hI.inj hb hc hkey

/-- A call registers one side, or deletes its notifier there. -/
theorem KeyInv.setNotify (hI : KeyInv f) (hc : f.calls[i]? = some c) {on : Bool}
    (hreg : ∀ side', phase.isRegistered side' = if side' = side then on else c.phase.isRegistered side')
    {v : Option ℕ} (hv : v = if on then some i else none) :
    KeyInv ((f.setCall i { c with phase := phase }).setNotify side c.key v) where
  count := by
    show _ = (f.calls.set i _).length
    rw [List.length_set]
    exact hI.count
  keyed := by
    intro k b hb
    rcases getElem?_set_some hb with ⟨rfl, rfl⟩ | ⟨-, hold⟩
    · exact hI.keyed (c := c) hc
    · exact hI.keyed hold
  notify := by
    intro side' key k
    show Function.update f.notify side (Function.update (f.notify side) c.key v) side' key = some k ↔
      (f.setCall i { c with phase := phase }).Registered side' key k
    rw [registered_setCall hc { c with phase := phase } rfl, hreg]
    have hself := registered_iff hc side' key
    by_cases hs : side' = side
    · subst hs
      rw [Function.update_self]
      by_cases hk : key = c.key
      · -- no other call is registered under this key
        subst hk
        rw [Function.update_self, hv]
        by_cases hki : k = i
        · subst hki
          cases on <;> simp
        · have hnot : ¬ f.Registered side' c.key k := fun h => hki (hI.eq_of_registered hc h)
          have hne : i ≠ k := Ne.symm hki
          cases on <;> simp [hki, hnot, hne]
      · rw [Function.update_of_ne hk]
        refine hI.notify.trans ?_
        by_cases hki : k = i
        · subst hki
          rw [hself]
          simp [Ne.symm hk]
        · rw [if_neg hki]
    · rw [Function.update_of_ne hs]
      refine hI.notify.trans ?_
      by_cases hki : k = i
      · subst hki
        rw [hself]
        simp [hs]
      · rw [if_neg hki]

theorem KeyInv.step (hI : KeyInv f) (hok : FewCalls f a) (h : NodeStep f a f') : KeyInv f' := by
  cases h with
  | @invoke chainId originalTxId hasBatchState =>
    have hcount : (f.count + 1).toNat = f.calls.length + 1 := by
      rw [UInt64.toNat_add, hI.count]
      exact Nat.mod_eq_of_lt hok
    refine ⟨?_, ?_, ?_⟩
    · rw [List.length_append, hcount]
      rfl
    · intro k b hb
      rcases getElem?_concat_some hb with ⟨rfl, rfl⟩ | hold
      · refine ⟨originalTxId, ?_⟩
        rw [constructUniqueTxKey, hcount]
      · exact hI.keyed hold
    · intro side key k
      refine hI.notify.trans ⟨?_, ?_⟩
      · rintro ⟨b, hb, hbk, hreg⟩
        exact ⟨b, getElem?_concat_of_some hb _, hbk, hreg⟩
      · rintro ⟨b, hb, hbk, hreg⟩
        rcases getElem?_concat_some hb with ⟨rfl, rfl⟩ | hold
        · cases side <;> cases hreg
        · exact ⟨b, hold, hbk, hreg⟩
  | @quiet _ _ c phase _ hc hphase _ _ =>
    have hI' := hI.setCall hc { c with phase := phase } rfl rfl hphase.registered
    exact ⟨hI'.count, hI'.keyed, hI'.notify⟩
  | register hc hphase => exact hI.setNotify hc (Phase.isRegistered_registerNotify hphase) rfl
  | delete hc hphase => exact hI.setNotify hc (Phase.isRegistered_deleteNotify hphase) rfl
  | take hc hloop _ hphase =>
    refine hI.setCall hc _ rfl rfl fun side => ?_
    rw [hloop]
    rcases hphase with rfl | rfl | rfl | ⟨rfl, -⟩ <;> cases side <;> rfl
  | sendSys hc hans _ =>
    refine hI.setCall hc _ rfl rfl fun side => ?_
    rw [hans]
    cases side <;> rfl
  | @putResp _ _ c _ _ hc hresp _ =>
    have hI' := hI.setCall hc { c with phase := .looping } rfl rfl fun side => by
      rw [hresp]
      cases side <;> rfl
    exact ⟨hI'.count, hI'.keyed, hI'.notify⟩
  | @setSendF s c _ _ hc =>
    have hI' := hI.setCall hc { c with sendSysResponse := some s } rfl rfl fun _ => rfl
    exact ⟨hI'.count, hI'.keyed, hI'.notify⟩
  | @put side _ c d _ hc _ =>
    have hI' := hI.setCall hc { c with msgCh := Function.update c.msgCh side (some d) } rfl rfl
      fun _ => rfl
    exact ⟨hI'.count, hI'.keyed, hI'.notify⟩
  | connect | disconnect | dropped | recvMsg | sendResp | endSend | client =>
    exact ⟨hI.count, hI.keyed, hI.notify⟩

theorem keyInv_reach {ok : ChainNode → Action → Prop} (hok : ∀ f a, ok f a → FewCalls f a)
    (h : Reach step ok init f) : KeyInv f :=
  h.inv keyInv_init fun hI ha hs => hI.step (hok _ _ ha) (step_cases hs)

/-! ## Messages name their call -/

/-- Every message on its way names the call that it is meant for, which has registered. -/
def Named (f : ChainNode) : Prop :=
  ∀ side, ∀ d ∈ f.pending side, ∃ c, f.calls[d.call]? = some c ∧ c.key = d.msg.key ∧
    c.phase ≠ .started

theorem CallMove.ne_started (hm : CallMove f i c a c') (h : c.phase ≠ .started) :
    c'.phase ≠ .started := by
  cases hm with
  | same | setSendF | put => exact h
  | quiet hphase _ => exact hphase.begun
  | @register side phase hphase | @delete side phase hphase =>
    rintro rfl
    cases side <;> cases hph : c.phase <;> rw [hph] at hphase <;> cases hphase
  | take _ _ hphase =>
    rcases hphase with rfl | rfl | rfl | ⟨rfl, -⟩ <;> simp
  | sendSys | putResp => simp

theorem ne_started_of_registered (h : c.phase.isRegistered side = true) : c.phase ≠ .started := by
  intro heq
  rw [heq] at h
  cases side <;> cases h

theorem mem_arrival (h : d ∈ f.arrival side a) : f.notify side d.msg.key = some d.call := by
  cases a with
  | recvMsg side' s msg =>
    simp only [arrival] at h
    split_ifs at h with hs
    · obtain ⟨i, hl, rfl⟩ := Option.map_eq_some_iff.1 (Option.mem_toList.1 h)
      unfold lookup at hl
      split_ifs at hl
      exact hl
    · cases h
  | _ => cases h

/-- A message on its way has arrived just now, or was on its way before. -/
theorem NodeStep.mem_pending (h : NodeStep f a f') (hd : d ∈ f'.pending side) :
    d ∈ f.arrival side a ∨ d ∈ f.pending side := by
  have hflow := h.flow side d
  have hpos := List.count_pos_iff.2 hd
  rcases Nat.eq_zero_or_pos ((f.arrival side a).count d) with h0 | h0
  · exact Or.inr (List.count_pos_iff.1 (by omega))
  · exact Or.inl (List.count_pos_iff.1 h0)

theorem Named.step (hN : Named f) (hI : KeyInv f) (h : NodeStep f a f') : Named f' := by
  intro side d hd
  have hold : ∃ c, f.calls[d.call]? = some c ∧ c.key = d.msg.key ∧ c.phase ≠ .started := by
    rcases h.mem_pending hd with harr | hold
    · obtain ⟨c, hc, hkey, hreg⟩ := hI.notify.1 (mem_arrival harr)
      exact ⟨c, hc, hkey, ne_started_of_registered hreg⟩
    · exact hN side d hold
  obtain ⟨c, hc, hkey, hne⟩ := hold
  obtain ⟨c', hc', hmove⟩ := h.move hc
  exact ⟨c', hc', hmove.key.trans hkey, hmove.ne_started hne⟩

theorem named_reach {ok : ChainNode → Action → Prop} (hok : ∀ f a, ok f a → FewCalls f a)
    (h : Reach step ok init f) : Named f := by
  refine h.inv_of (I := Named) (J := KeyInv) (keyInv_reach hok) ?_ ?_
  · intro side d hd
    cases side <;> cases hd
  · intro f a f' hI hN ha hs
    exact hN.step hI (step_cases hs)

/-- A message for the first call, for concrete runs. -/
def sampleMsg (type : Runtime.DockerVMType) : Msg := ⟨"chain1", constructUniqueTxKey "tx1" 1, type⟩

/-- It comes from the first stream. -/
def sampleDelivery (type : Runtime.DockerVMType) : Delivery := ⟨0, 0, sampleMsg type⟩

/-- The first call waits in its loop. -/
def runLooping : List Action :=
  [.connect .sandbox, .connect .engine, .invoke "chain1" "tx1" true, .register .sandbox 0,
   .register .engine 0, .enqueue .tx 0]

/-- It has taken a request of the first sandbox. -/
def runAsked : List Action :=
  runLooping ++ [.recvMsg .sandbox 0 (sampleMsg .getStateRequest), .setSendF 0, .put .sandbox 0,
    .take .sandbox 0]

end ChainNode

end VmEngine
