/-
  Where messages are, and sandboxes that wait for their answers.

  A message that a call has was delivered to this call (`Placed`), so it names it.
  `Polite` is what a sandbox does: it sends nothing for a transaction while a message for
  it is on its way, and no request while one of its own requests is unanswered.  Then no
  receive routine waits for room in the channel of a call, no call waits for room in the
  channel of a stream, and every answer goes to the stream that asked.  A second stream
  that speaks for the same transaction takes over the answers of the first.
-/
import VmEngine.Rpc.ChainNodeRoutes

namespace VmEngine.ChainNode

variable {f f' : ChainNode} {a : Action} {i j s : ℕ} {c c' : Call} {d d' : Delivery} {side : Side}

/-! ## The parties, one at a time -/

/-- What a step makes of a receive routine. -/
inductive ReceiverStep (f f' : ChainNode) (a : Action) (side : Side) (s : ℕ) : Receiver → Prop
  | same {r : Receiver} (hr : (f.receivers side)[s]? = some r) : ReceiverStep f f' a side s r
  | free {r : Receiver} (hr : r.holds = []) : ReceiverStep f f' a side s r
  | arrived {d : Delivery} (hd : d ∈ f.arrival side a) (hs : d.stream = s) :
      ReceiverStep f f' a side s (deliver side d)
  | aimed {d : Delivery} {c : Call} (hside : side = .sandbox)
      (hr : (f.receivers .sandbox)[s]? = some (.notifying d)) (hc : f.calls[d.call]? = some c)
      (hc' : f'.calls[d.call]? = some { c with sendSysResponse := some s }) :
      ReceiverStep f f' a side s (.putting d)

theorem receivers_setReceiver {r' : Receiver} {side' : Side} {k : ℕ} {r : Receiver}
    (h : ((f.setReceiver side' k r').receivers side)[s]? = some r) :
    (side = side' ∧ s = k ∧ r = r') ∨ (f.receivers side)[s]? = some r := by
  by_cases hs : side = side'
  · subst hs
    rw [receivers_self] at h
    rcases getElem?_set_some h with ⟨rfl, rfl⟩ | ⟨-, hold⟩
    · exact Or.inl ⟨rfl, rfl, rfl⟩
    · exact Or.inr hold
  · rw [receivers_other f hs] at h
    exact Or.inr h

theorem NodeStep.receiver (h : NodeStep f a f') {r : Receiver}
    (hr : (f'.receivers side)[s]? = some r) : ReceiverStep f f' a side s r := by
  cases h with
  | @connect side' =>
    by_cases hs : side = side'
    · subst hs
      have heq : Function.update f.receivers side (f.receivers side ++ [.receiving]) side =
          f.receivers side ++ [.receiving] := Function.update_self ..
      simp only [heq] at hr
      rcases getElem?_concat_some hr with ⟨-, rfl⟩ | hold
      · exact .free rfl
      · exact .same hold
    · simp only [Function.update_of_ne hs] at hr
      exact .same hr
  | disconnect _ | put _ _ _ =>
    rcases receivers_setReceiver hr with ⟨rfl, rfl, rfl⟩ | hold
    · exact .free rfl
    · exact .same hold
  | recvMsg _ hl =>
    rcases receivers_setReceiver hr with ⟨rfl, rfl, rfl⟩ | hold
    · exact .arrived (by simp [arrival, hl]) rfl
    · exact .same hold
  | setSendF hn hc =>
    rcases receivers_setReceiver hr with ⟨rfl, rfl, rfl⟩ | hold
    · exact .aimed rfl hn hc (calls_setCall_self hc _)
    · exact .same hold
  | invoke | quiet | register | delete | take | sendSys | putResp | dropped | sendResp | endSend
  | client => exact .same hr

/-- What a step makes of the messages that a call has. -/
inductive CallStep (f : ChainNode) (i : ℕ) : Call → Prop
  | fresh {c' : Call} (hi : i = f.calls.length) (hh : ∀ side, c'.holds side = [])
      (hp : c'.phase = .started) (hs : c'.sendSysResponse = none) : CallStep f i c'
  | kept {c c' : Call} (hc : f.calls[i]? = some c) (hh : ∀ side, ∀ d ∈ c'.holds side, d ∈ c.holds side)
      (hs : c'.sendSysResponse = c.sendSysResponse)
      (hp : ∀ d, c'.phase.answer = some d → c.phase.answer = some d ∨ d.isRequest = true)
      (hr : ∀ d s, c'.phase = .responding d s → c.phase = .responding d s ∨
        c.phase = .answering d ∧ c.sendSysResponse = some s) : CallStep f i c'
  | aimed {c : Call} {s : ℕ} {d : Delivery} (hc : f.calls[i]? = some c)
      (hr : (f.receivers .sandbox)[s]? = some (.notifying d)) (hd : d.call = i) :
      CallStep f i { c with sendSysResponse := some s }
  | put {c : Call} {side : Side} {s : ℕ} {d : Delivery} (hc : f.calls[i]? = some c)
      (hr : (f.receivers side)[s]? = some (.putting d)) (hd : d.call = i) (hch : c.msgCh side = none) :
      CallStep f i { c with msgCh := Function.update c.msgCh side (some d) }

theorem CallStep.same (hc : f.calls[i]? = some c) : CallStep f i c :=
  .kept hc (fun _ _ hd => hd) rfl (fun _ hp => Or.inl hp) fun _ _ hr => Or.inl hr

theorem CallStep.moved (hc : f.calls[i]? = some c) {phase : Phase} (hold : c.phase.answer = none)
    (hnew : phase.answer = none) : CallStep f i { c with phase := phase } := by
  refine .kept hc (fun side d hd => ?_) rfl (fun d hp => ?_) fun d s hr => ?_
  · rwa [Call.holds_phase hold hnew] at hd
  · cases hnew.symm.trans hp
  · dsimp only at hr
    rw [hr] at hnew
    cases hnew

theorem NodeStep.callStep (h : NodeStep f a f') (hc' : f'.calls[i]? = some c') : CallStep f i c' := by
  rcases h.call hc' with ⟨hi, hp, hch, hs⟩ | ⟨c, hc, hmove⟩
  · refine .fresh hi (fun side => ?_) hp hs
    simp [Call.holds, hch, hp, Phase.answer]
  cases hmove with
  | same => exact .same hc
  | quiet hphase _ => exact .moved hc hphase.before hphase.after
  | register hphase =>
    exact .moved hc (Phase.answer_registerNotify hphase).1 (Phase.answer_registerNotify hphase).2
  | delete hphase =>
    exact .moved hc (Phase.answer_deleteNotify hphase).1 (Phase.answer_deleteNotify hphase).2
  | take hloop hch hphase =>
    refine .kept hc (fun side d hd => ?_) rfl (fun d hp => ?_) fun d s hr => ?_
    · have hle := Call.count_holds_take hloop hch hphase side d
      exact List.count_pos_iff.1 (Nat.lt_of_lt_of_le (List.count_pos_iff.2 hd) hle)
    · rcases hphase with rfl | rfl | rfl | ⟨rfl, -, hreq⟩
      · cases hp
      · cases hp
      · cases hp
      · cases hp
        exact Or.inr hreq
    · rcases hphase with rfl | rfl | rfl | ⟨rfl, -⟩ <;> cases hr
  | sendSys hans hto =>
    refine .kept hc (fun side d hd => ?_) rfl (fun d hp => ?_) fun d s hr => ?_
    · rcases List.mem_append.1 hd with hch | hresp
      · exact List.mem_append_left _ hch
      · refine List.mem_append_right _ ?_
        rw [hans]
        exact hresp
    · rw [hans]
      exact Or.inl hp
    · cases hr
      exact Or.inr ⟨hans, hto⟩
  | putResp _ _ =>
    refine .kept hc (fun side d hd => ?_) rfl (fun d hp => by cases hp) fun d s hr => by cases hr
    rcases List.mem_append.1 hd with hch | hnone
    · exact List.mem_append_left _ hch
    · cases side <;> cases hnone
  | setSendF hr hd => exact .aimed hc hr hd
  | put hr hd hch => exact .put hc hr hd hch

/-- What a step makes of the channel of a stream. -/
inductive SenderStep (f : ChainNode) (s : ℕ) (d : Delivery) : Prop
  | same {q : Sender} (hs : f.senders[s]? = some q) (hq : q.sendResponseCh = some d)
  | answered {i : ℕ} {c : Call} (hc : f.calls[i]? = some c) (hresp : c.phase = .responding d s)

theorem NodeStep.sender (h : NodeStep f a f') {q : Sender} (hs : f'.senders[s]? = some q)
    (hq : q.sendResponseCh = some d) : SenderStep f s d := by
  cases h with
  | putResp hc hresp hold =>
    rcases getElem?_set_some hs with ⟨rfl, rfl⟩ | ⟨-, hs⟩
    · cases hq
      exact .answered hc hresp
    · exact .same hs hq
  | connect =>
    dsimp only at hs
    split_ifs at hs
    · rcases getElem?_concat_some hs with ⟨-, rfl⟩ | hs
      · cases hq
      · exact .same hs hq
    · exact .same hs hq
  | sendResp _ =>
    rcases getElem?_set_some hs with ⟨-, rfl⟩ | ⟨-, hs⟩
    · cases hq
    · exact .same hs hq
  | endSend hold =>
    rcases getElem?_set_some hs with ⟨rfl, rfl⟩ | ⟨-, hs⟩
    · exact .same hold hq
    · exact .same hs hq
  | invoke | quiet | register | delete | take | sendSys | disconnect | dropped | recvMsg | setSendF
  | put | client => exact .same hs hq

/-! ## Where messages are -/

/-- Messages know the stream and the call that have them, the requests that are answered are
    requests, `sendSysResponse` is set before a message waits, and the channels of the client
    manager hold no more than they can. -/
structure Placed (f : ChainNode) : Prop where
  room : ∀ ch, f.sendLen ch ≤ ch.cap
  streams : f.senders.length = (f.receivers .sandbox).length
  receiver : ∀ {side : Side} {s : ℕ} {r : Receiver} {d : Delivery}, (f.receivers side)[s]? = some r →
    d ∈ r.holds → d.stream = s
  call : ∀ {side : Side} {i : ℕ} {c : Call} {d : Delivery}, f.calls[i]? = some c →
    d ∈ c.holds side → d.call = i
  answer : ∀ {i : ℕ} {c : Call} {d : Delivery}, f.calls[i]? = some c → c.phase.answer = some d →
    d.isRequest = true
  responding : ∀ {i s : ℕ} {c : Call} {d : Delivery}, f.calls[i]? = some c →
    c.phase = .responding d s → s < f.senders.length
  response : ∀ {s : ℕ} {q : Sender} {d : Delivery}, f.senders[s]? = some q →
    q.sendResponseCh = some d → d.isRequest = true
  sendF : ∀ {i s : ℕ} {c : Call}, f.calls[i]? = some c → c.sendSysResponse = some s →
    s < f.senders.length
  aimed : ∀ {i s : ℕ} {c : Call} {d : Delivery}, f.calls[i]? = some c →
    d ∈ c.holds .sandbox ∨ (f.receivers .sandbox)[s]? = some (.putting d) ∧ d.call = i →
    c.sendSysResponse ≠ none

theorem placed_init : Placed init where
  room _ := Nat.zero_le _
  streams := rfl
  receiver {side _ _ _} h := by cases side <;> cases h
  call h := by cases h
  answer h := by cases h
  responding h := by cases h
  response h := by cases h
  sendF h := by cases h
  aimed h := by cases h

theorem length_setReceiver (f : ChainNode) (side side' : Side) (s : ℕ) (r : Receiver) :
    ((f.setReceiver side' s r).receivers side).length = (f.receivers side).length := by
  by_cases hs : side = side'
  · subst hs
    rw [receivers_self, List.length_set]
  · rw [receivers_other f hs]

theorem NodeStep.streams (h : NodeStep f a f') (hI : f.senders.length = (f.receivers .sandbox).length) :
    f'.senders.length = (f'.receivers .sandbox).length ∧ f.senders.length ≤ f'.senders.length := by
  cases h with
  | @connect side =>
    cases side
    · exact ⟨hI, Nat.le_refl _⟩
    · simp [hI]
  | disconnect | recvMsg | setSendF | put =>
    rw [length_setReceiver]
    exact ⟨hI, Nat.le_refl _⟩
  | putResp | sendResp | endSend =>
    simp only [setSender, List.length_set]
    exact ⟨hI, Nat.le_refl _⟩
  | invoke | quiet | register | delete | take | sendSys | dropped | client =>
    exact ⟨hI, Nat.le_refl _⟩

theorem mem_pending_receiver {r : Receiver} (hr : (f.receivers side)[s]? = some r) (hd : d ∈ r.holds) :
    d ∈ f.pending side :=
  List.mem_append_left _ (List.mem_append_left _
    (List.mem_flatMap.2 ⟨r, List.mem_of_getElem? hr, hd⟩))

/-- A routine that puts a message of a sandbox did so before, or has just set
    `sendSysResponse`. -/
theorem NodeStep.putting (h : NodeStep f a f')
    (hr : (f'.receivers .sandbox)[s]? = some (.putting d)) :
    (f.receivers .sandbox)[s]? = some (.putting d) ∨
      (f.receivers .sandbox)[s]? = some (.notifying d) ∧
        ∃ c, f'.calls[d.call]? = some c ∧ c.sendSysResponse = some s := by
  generalize hput : Receiver.putting d = r at hr
  cases h.receiver hr with
  | same hold => exact Or.inl (hput ▸ hold)
  | free hfree => subst hput; cases hfree
  | arrived _ _ => cases hput
  | aimed _ hn _ hc' =>
    cases hput
    exact Or.inr ⟨hn, _, hc', rfl⟩

theorem Named.call_lt (hN : Named f) (hd : d ∈ f.pending side) : d.call < f.calls.length := by
  obtain ⟨c, hc, -⟩ := hN side d hd
  exact (List.getElem?_eq_some_iff.1 hc).1

/-- `sendSysResponse` is set before a message waits for a call. -/
theorem Placed.aimed_step (hP : Placed f) (hN : Named f) (h : NodeStep f a f')
    (hc : f'.calls[i]? = some c) (hd : d ∈ c.holds .sandbox ∨
      (f'.receivers .sandbox)[s]? = some (.putting d) ∧ d.call = i) : c.sendSysResponse ≠ none := by
  have hput : ∀ {s : ℕ} {d : Delivery}, (f'.receivers .sandbox)[s]? = some (.putting d) → d.call = i →
      (f.receivers .sandbox)[s]? = some (.putting d) ∨ c.sendSysResponse ≠ none := by
    intro s d hr hcall
    rcases h.putting hr with hold | ⟨-, b, hb, hset⟩
    · exact Or.inl hold
    · rw [hcall] at hb
      cases hc.symm.trans hb
      rw [hset]
      exact Or.inr (Option.some_ne_none s)
  cases h.callStep hc with
  | fresh hi hh _ _ =>
    rcases hd with hheld | ⟨hr, hcall⟩
    · rw [hh] at hheld
      cases hheld
    · rcases hput hr hcall with hold | hne
      · have hlt := hN.call_lt (mem_pending_receiver hold (List.mem_singleton_self d))
        omega
      · exact hne
  | kept hold hh hsame _ _ =>
    rcases hd with hheld | ⟨hr, hcall⟩
    · rw [hsame]
      exact hP.aimed (s := s) hold (Or.inl (hh _ _ hheld))
    · rcases hput hr hcall with hr | hne
      · rw [hsame]
        exact hP.aimed hold (Or.inr ⟨hr, hcall⟩)
      · exact hne
  | @aimed _ s' => exact Option.some_ne_none s'
  | @put b side' s' d' hold hr' hcall' _ =>
    show b.sendSysResponse ≠ none
    cases side' with
    | sandbox => exact hP.aimed hold (Or.inr ⟨hr', hcall'⟩)
    | engine =>
      rcases hd with hheld | ⟨hr, hcall⟩
      · rw [Call.holds_update_of_ne (by decide)] at hheld
        exact hP.aimed (s := s) hold (Or.inl hheld)
      · rcases hput hr hcall with hr | hne
        · exact hP.aimed hold (Or.inr ⟨hr, hcall⟩)
        · exact hne

theorem NodeStep.room (h : NodeStep f a f') (hI : ∀ ch, f.sendLen ch ≤ ch.cap) (ch : SendCh) :
    f'.sendLen ch ≤ ch.cap := by
  cases h with
  | quiet _ _ _ hlen =>
    rcases hlen ch with heq | ⟨hlt, heq⟩
    · exact heq.trans_le (hI ch)
    · exact heq.trans_le hlt
  | client _ hlen => exact Nat.le_trans (hlen ch) (hI ch)
  | _ => exact hI ch

theorem Placed.step (hP : Placed f) (hN : Named f) (h : NodeStep f a f') : Placed f' where
  room := h.room hP.room
  streams := (h.streams hP.streams).1
  receiver {side s r d} hr hd := by
    cases h.receiver hr with
    | same hold => exact hP.receiver hold hd
    | free hfree => rw [hfree] at hd; cases hd
    | arrived _ hs =>
      rw [holds_deliver, List.mem_singleton] at hd
      exact hd ▸ hs
    | aimed _ hn _ _ => exact hP.receiver hn hd
  call {side i c d} hc hd := by
    cases h.callStep hc with
    | fresh _ hh _ _ => rw [hh] at hd; cases hd
    | kept hold hh _ _ _ => exact hP.call hold (hh side d hd)
    | aimed hold _ _ => exact hP.call hold hd
    | @put c side' s d' hold hr hcall hch =>
      by_cases hs : side = side'
      · subst hs
        rw [Call.holds_update] at hd
        rcases List.mem_append.1 hd with hnew | hans
        · cases Option.mem_toList.1 hnew
          exact hcall
        · exact hP.call hold (List.mem_append_right _ hans)
      · rw [Call.holds_update_of_ne hs] at hd
        exact hP.call hold hd
  answer {i c d} hc hans := by
    cases h.callStep hc with
    | fresh _ _ hp _ => rw [hp] at hans; cases hans
    | kept hold _ _ hp _ =>
      rcases hp d hans with hbefore | hreq
      · exact hP.answer hold hbefore
      · exact hreq
    | aimed hold _ _ | put hold _ _ _ => exact hP.answer hold hans
  responding {i s c d} hc hresp := by
    refine Nat.lt_of_lt_of_le ?_ (h.streams hP.streams).2
    cases h.callStep hc with
    | fresh _ _ hp _ => rw [hp] at hresp; cases hresp
    | kept hold _ _ _ hr =>
      rcases hr d s hresp with hbefore | ⟨-, hto⟩
      · exact hP.responding hold hbefore
      · exact hP.sendF hold hto
    | aimed hold _ _ | put hold _ _ _ => exact hP.responding hold hresp
  response {s q d} hs hq := by
    cases h.sender hs hq with
    | same hold hq => exact hP.response hold hq
    | answered hc hresp => exact hP.answer hc (by rw [hresp]; rfl)
  sendF {i s c} hc hs := by
    have hle := (h.streams hP.streams).2
    cases h.callStep hc with
    | fresh _ _ _ hnone => rw [hnone] at hs; cases hs
    | kept hold _ hsame _ _ => exact Nat.lt_of_lt_of_le (hP.sendF hold (hsame ▸ hs)) hle
    | aimed hold hr _ =>
      cases hs
      refine Nat.lt_of_lt_of_le ?_ hle
      rw [hP.streams]
      exact (List.getElem?_eq_some_iff.1 hr).1
    | put hold _ _ _ => exact Nat.lt_of_lt_of_le (hP.sendF hold hs) hle
  aimed hc hd := hP.aimed_step hN h hc hd

theorem placed_reach {ok : ChainNode → Action → Prop} (hok : ∀ f a, ok f a → FewCalls f a)
    (h : Reach step ok init f) : Placed f :=
  h.inv_of (I := Placed) (named_reach hok) placed_init fun hN hP _ hs => hP.step hN (step_cases hs)

/-- **Messages reach the call they name.**  The maps of notifiers hold the calls between
    their registration and their end, and nothing else; every message that is delivered to
    a call, waits in its channels or is answered by it names this call, and no other call
    of the run. -/
theorem messages_reach_call (h : Reach step FewCalls init f) :
    (∀ side key i, f.notify side key = some i ↔ f.Registered side key i) ∧
      (∀ side, ∀ d ∈ f.pending side, ∃ c, f.calls[d.call]? = some c ∧ c.key = d.msg.key ∧
        ∀ j c', f.calls[j]? = some c' → c'.key = d.msg.key → j = d.call) ∧
      ∀ (side : Side) (i : ℕ) (c : Call), f.calls[i]? = some c → ∀ d ∈ c.holds side, d.call = i := by
  have hI := keyInv_reach (fun _ _ hok => hok) h
  have hP := placed_reach (fun _ _ hok => hok) h
  refine ⟨fun _ _ _ => hI.notify, fun side d hd => ?_, fun _ _ _ hc _ hd => hP.call hc hd⟩
  obtain ⟨c, hc, hkey, -⟩ := named_reach (fun _ _ hok => hok) h side d hd
  exact ⟨c, hc, hkey, fun j c' hj hkey' => hI.inj hj hc (hkey'.trans hkey.symm)⟩

/-- A request is answered. -/
theorem messages_reach_call_asked : ∃ f, Reach step FewCalls init f ∧
    sampleDelivery .getStateRequest ∈ f.pending .sandbox ∧
    (∀ side key i, f.notify side key = some i ↔ f.Registered side key i) ∧
    (∀ side, ∀ d ∈ f.pending side, ∃ c, f.calls[d.call]? = some c ∧ c.key = d.msg.key ∧
      ∀ j c', f.calls[j]? = some c' → c'.key = d.msg.key → j = d.call) ∧
    ∀ (side : Side) (i : ℕ) (c : Call), f.calls[i]? = some c → ∀ d ∈ c.holds side, d.call = i := by
  obtain ⟨f, hreach, hmem⟩ := exists_reach step FewCalls init
    (fun f : ChainNode => decide (sampleDelivery .getStateRequest ∈ f.pending .sandbox)) runAsked
    (by decide)
  exact ⟨f, hreach, of_decide_eq_true hmem, messages_reach_call hreach⟩

/-! ## Polite sandboxes -/

/-- Two messages that do not get in each other's way. -/
def Delivery.Apart (d d' : Delivery) : Prop :=
  d.call ≠ d'.call ∧ (d.isRequest = true → d'.isRequest = true → d.stream ≠ d'.stream)

instance (d d' : Delivery) : Decidable (d.Apart d') := inferInstanceAs (Decidable (_ ∧ (_ → _ → _)))

theorem Delivery.Apart.symm (h : d.Apart d') : d'.Apart d :=
  ⟨h.1.symm, fun hr hr' => (h.2 hr' hr).symm⟩

/-- **A polite sandbox** sends nothing for a transaction while a message for it is on its
    way, and no request before its last one is answered. -/
def Polite (f : ChainNode) (a : Action) : Prop :=
  FewCalls f a ∧ ∀ d ∈ f.arrival .sandbox a, ∀ d' ∈ f.pending .sandbox, d.Apart d'

instance : DecidableRel Polite := fun f a =>
  inferInstanceAs (Decidable (_ ∧ ∀ d ∈ f.arrival .sandbox a, ∀ d' ∈ f.pending .sandbox, d.Apart d'))

/-- The messages on their way, two by two. -/
def AllApart (f : ChainNode) : Prop := (f.pending .sandbox).Pairwise Delivery.Apart

theorem AllApart.step (hA : AllApart f) (hok : Polite f a) (h : NodeStep f a f') : AllApart f' := by
  have hsub : (f'.pending .sandbox).Subperm (f.arrival .sandbox a ++ f.pending .sandbox) := by
    refine List.subperm_ext_iff.2 fun d _ => ?_
    rw [List.count_append]
    exact h.flow .sandbox d
  refine pairwise_of_subperm Delivery.Apart.symm hsub (List.pairwise_append.2 ⟨?_, hA, hok.2⟩)
  cases a with
  | recvMsg side' s msg =>
    simp only [arrival]
    split_ifs
    · cases f.lookup .sandbox msg <;> simp
    · exact List.Pairwise.nil
  | _ => exact List.Pairwise.nil

theorem AllApart.receivers (hA : AllApart f) {r r' : Receiver} (hr : (f.receivers .sandbox)[s]? = some r)
    (hr' : (f.receivers .sandbox)[j]? = some r') (hne : s ≠ j) (hd : d ∈ r.holds) (hd' : d' ∈ r'.holds) :
    d.Apart d' :=
  pairwise_flatMap_apart Delivery.Apart.symm (List.pairwise_append.1 (List.pairwise_append.1 hA).1).1
    hr hr' hne hd hd'

theorem AllApart.receiver_call (hA : AllApart f) {r : Receiver}
    (hr : (f.receivers .sandbox)[s]? = some r) (hc : f.calls[i]? = some c) (hd : d ∈ r.holds)
    (hd' : d' ∈ c.holds .sandbox) : d.Apart d' :=
  (List.pairwise_append.1 (List.pairwise_append.1 hA).1).2.2 d
    (List.mem_flatMap.2 ⟨r, List.mem_of_getElem? hr, hd⟩) d'
    (List.mem_flatMap.2 ⟨c, List.mem_of_getElem? hc, hd'⟩)

theorem AllApart.call_sender (hA : AllApart f) {q : Sender} (hc : f.calls[i]? = some c)
    (hs : f.senders[s]? = some q) (hd : d ∈ c.holds .sandbox) (hq : q.sendResponseCh = some d') :
    d.Apart d' := by
  refine (List.pairwise_append.1 hA).2.2 d (List.mem_append_right _
    (List.mem_flatMap.2 ⟨c, List.mem_of_getElem? hc, hd⟩)) d'
    (List.mem_flatMap.2 ⟨q, List.mem_of_getElem? hs, ?_⟩)
  simp [Sender.holds, hq]

/-- The answers of a call go where its message came from. -/
structure Aimed (f : ChainNode) : Prop where
  putting : ∀ {s : ℕ} {c : Call} {d : Delivery}, (f.receivers .sandbox)[s]? = some (.putting d) →
    f.calls[d.call]? = some c → c.sendSysResponse = some s
  held : ∀ {i : ℕ} {c : Call} {d : Delivery}, f.calls[i]? = some c → d ∈ c.holds .sandbox →
    c.sendSysResponse = some d.stream
  responding : ∀ {i s : ℕ} {c : Call} {d : Delivery}, f.calls[i]? = some c →
    c.phase = .responding d s → d.stream = s
  response : ∀ {s : ℕ} {q : Sender} {d : Delivery}, f.senders[s]? = some q →
    q.sendResponseCh = some d → d.stream = s

theorem aimed_init : Aimed init where
  putting h := by cases h
  held h := by cases h
  responding h := by cases h
  response h := by cases h

theorem mem_holds_of_answer (hans : c.phase.answer = some d) : d ∈ c.holds .sandbox := by
  simp [Call.holds, hans]

theorem Aimed.step (hI : Aimed f) (hN : Named f) (hP : Placed f) (hA : AllApart f)
    (h : NodeStep f a f') : Aimed f' where
  putting {s c d} hr hc := by
    rcases h.putting hr with hold | ⟨-, b, hb, hset⟩
    · have hlt := hN.call_lt (mem_pending_receiver hold (List.mem_singleton_self d))
      cases h.callStep hc with
      | fresh hi _ _ _ => omega
      | kept hb _ hsame _ _ =>
        rw [hsame]
        exact hI.putting hold hb
      | @aimed b s' d' hb hn hcall =>
        -- another routine that notifies the same call
        have hne : s ≠ s' := by
          rintro rfl
          cases hold.symm.trans hn
        exact absurd hcall.symm
          (hA.receivers hold hn hne (List.mem_singleton_self d) (List.mem_singleton_self d')).1
      | @put b _ _ _ hb _ _ _ =>
        show b.sendSysResponse = some s
        exact hI.putting hold hb
    · cases hc.symm.trans hb
      exact hset
  held {i c d} hc hd := by
    cases h.callStep hc with
    | fresh _ hh _ _ => rw [hh] at hd; cases hd
    | kept hb hh hsame _ _ =>
      rw [hsame]
      exact hI.held hb (hh _ _ hd)
    | @aimed b s' d' hb hn hcall =>
      have hcall' : d.call = i := hP.call hb hd
      exact absurd (hcall.trans hcall'.symm) (hA.receiver_call hn hb (List.mem_singleton_self d') hd).1
    | @put b side s' d' hb hr hcall _ =>
      show b.sendSysResponse = some d.stream
      cases side with
      | engine =>
        rw [Call.holds_update_of_ne (by decide)] at hd
        exact hI.held hb hd
      | sandbox =>
        rw [Call.holds_update] at hd
        rcases List.mem_append.1 hd with hnew | hans
        · cases Option.mem_toList.1 hnew
          rw [hP.receiver hr (List.mem_singleton_self d)]
          exact hI.putting hr (hcall ▸ hb)
        · exact hI.held hb (List.mem_append_right _ hans)
  responding {i s c d} hc hresp := by
    cases h.callStep hc with
    | fresh _ _ hp _ => rw [hp] at hresp; cases hresp
    | kept hold _ _ _ hr =>
      rcases hr d s hresp with hbefore | ⟨hans, hto⟩
      · exact hI.responding hold hbefore
      · have haim := hI.held hold (mem_holds_of_answer (by rw [hans]; rfl))
        exact Option.some.inj (haim.symm.trans hto)
    | aimed hold _ _ | put hold _ _ _ => exact hI.responding hold hresp
  response {s q d} hs hq := by
    cases h.sender hs hq with
    | same hold hq => exact hI.response hold hq
    | answered hc hresp => exact hI.responding hc hresp

theorem polite_reach (h : Reach step Polite init f) : AllApart f ∧ Aimed f := by
  have hfew : ∀ f a, Polite f a → FewCalls f a := fun _ _ hok => hok.1
  refine h.inv_of (I := fun f => AllApart f ∧ Aimed f) (J := fun f => Named f ∧ Placed f)
    (fun hr => ⟨named_reach hfew hr, placed_reach hfew hr⟩) ⟨List.Pairwise.nil, aimed_init⟩ ?_
  rintro f a f' ⟨hN, hP⟩ ⟨hA, hI⟩ hok hs
  exact ⟨hA.step hok (step_cases hs), hI.step hN hP hA (step_cases hs)⟩

/-- **Polite sandboxes are served without waiting**, and at the right place.  A receive
    routine that delivers a message can take its next step at once; a call that has an
    answer sends it to the stream that asked, and can do so at once; every answer that
    waits to be sent waits there. -/
theorem polite_served (h : Reach step Polite init f) :
    (∀ (s : ℕ) (r : Receiver) (d : Delivery), (f.receivers .sandbox)[s]? = some r → d ∈ r.holds →
      ∃ a ∈ [Action.setSendF s, .put .sandbox s], (f.step a).isSome = true) ∧
    (∀ (i : ℕ) (c : Call) (d : Delivery), f.calls[i]? = some c → c.phase.answer = some d →
      c.sendSysResponse = some d.stream ∧
        ∃ a ∈ [Action.sendSys i, .putResp i], (f.step a).isSome = true) ∧
    ∀ (s : ℕ) (q : Sender) (d : Delivery), f.senders[s]? = some q → q.sendResponseCh = some d →
      d.stream = s := by
  have hfew : ∀ f a, Polite f a → FewCalls f a := fun _ _ hok => hok.1
  have hN := named_reach hfew h
  have hP := placed_reach hfew h
  obtain ⟨hA, hI⟩ := polite_reach h
  refine ⟨fun s r d hr hd => ?_, fun i c d hc hans => ?_, fun _ _ _ => hI.response⟩
  · obtain ⟨c, hc, -⟩ := hN .sandbox d (mem_pending_receiver hr hd)
    cases r with
    | receiving | stopped => cases hd
    | notifying b =>
      cases List.mem_singleton.1 hd
      refine ⟨.setSendF s, by simp, ?_⟩
      simp [step, hr, hc]
    | putting b =>
      cases List.mem_singleton.1 hd
      refine ⟨.put .sandbox s, by simp, ?_⟩
      -- a message in the channel would be for the same call
      cases hch : c.msgCh .sandbox with
      | none => simp [step, hr, hc, hch]
      | some d' =>
        have hd' : d' ∈ c.holds .sandbox := by simp [Call.holds, hch]
        have hcall := hP.call hc hd'
        exact absurd hcall.symm (hA.receiver_call hr hc (List.mem_singleton_self d) hd').1
  · have hheld := mem_holds_of_answer hans
    have haim := hI.held hc hheld
    refine ⟨haim, ?_⟩
    cases hph : c.phase with
    | answering b => exact ⟨.sendSys i, by simp, by simp [step, hc, hph, haim]⟩
    | responding b s =>
      refine ⟨.putResp i, by simp, ?_⟩
      rw [hph] at hans
      cases hans
      obtain ⟨⟨running, resp⟩, hq⟩ : ∃ q, f.senders[s]? = some q :=
        ⟨_, List.getElem?_eq_getElem (hP.responding hc hph)⟩
      cases resp with
      | none => simp [step, hc, hph, hq]
      | some d' =>
        have hstream : d.stream = d'.stream := (hI.responding hc hph).trans (hI.response hq rfl).symm
        have hreq := hP.answer hc (by rw [hph]; rfl)
        exact absurd hstream ((hA.call_sender hc hq hheld rfl).2 hreq (hP.response hq rfl))
    | started | sandboxRegistered | registered | looping | byteCode | returned | sandboxDeleted
    | ended =>
      rw [hph] at hans
      cases hans

/-- The answer to a request is about to be sent. -/
theorem polite_served_asked : ∃ f c, Reach step Polite init f ∧ f.calls[0]? = some c ∧
    c.phase.answer = some (sampleDelivery .getStateRequest) ∧ c.sendSysResponse = some 0 ∧
    ∃ a ∈ [Action.sendSys 0, .putResp 0], (f.step a).isSome = true := by
  obtain ⟨f, hreach, htest⟩ := exists_reach step Polite init
    (fun f : ChainNode => decide (f.calls[0]?.map (fun c : Call => c.phase.answer) =
      some (some (sampleDelivery .getStateRequest)))) runAsked (by decide)
  obtain ⟨c, hc, hans⟩ := Option.map_eq_some_iff.1 (of_decide_eq_true htest)
  obtain ⟨haim, hsend⟩ := (polite_served hreach).2.1 0 c _ hc hans
  exact ⟨f, c, hreach, hc, hans, haim, hsend⟩

/-- Without this, answers go astray: a second stream sends a message for the transaction
    while a request of the first one is handled, and gets the answer to that request. -/
theorem answer_astray : ∃ f : ChainNode, Reach step FewCalls init f ∧
    f.senders[1]? = some ⟨true, some (sampleDelivery .getStateRequest)⟩ := by
  obtain ⟨f, hreach, htest⟩ := exists_reach step FewCalls init
    (fun f : ChainNode =>
      decide (f.senders[1]? = some (Sender.mk true (some (sampleDelivery .getStateRequest)))))
    (runAsked ++ [.connect .sandbox, .recvMsg .sandbox 1 (sampleMsg .txResponse), .setSendF 1,
      .sendSys 0, .putResp 0]) (by decide)
  exact ⟨f, hreach, of_decide_eq_true htest⟩

end VmEngine.ChainNode
