/-
  What can keep a call of `Invoke`, or a receive routine, waiting for ever.

  A call waits for room in the channel of the stream it answers and in the channels of the
  client manager, without a timeout; a receive routine waits for room in the channel of a
  call.  The first wait is endless when the channel is full and the send routine of the
  stream has ended, the second lasts until a client connects when the channel is full and no
  client sends, the third is endless when the channel is full and the call has left its
  loop, or waits itself.  In all other states the call, left alone, returns, and the routine
  goes back to receiving.

  A connection whose receive routine waits for ever is not noticed: it has not ended, so
  the client manager counts it among the active ones.
-/
import VmEngine.Rpc.ChainNodePolite

namespace VmEngine.ChainNode

variable {f f' : ChainNode} {a : Action} {i s : ℕ} {c c' : Call} {d : Delivery} {side : Side}

/-! ## Streams nobody sends from -/

/-- An answer waits in the channel of a stream whose send routine has ended. -/
def Clogged (f : ChainNode) (s : ℕ) : Prop := ∃ d, f.senders[s]? = some ⟨false, some d⟩

theorem Clogged.step (hs : f.Clogged s) (h : NodeStep f a f') : f'.Clogged s := by
  obtain ⟨d, hs⟩ := hs
  have hset : ∀ {k : ℕ} {q q' : Sender}, f.senders[k]? = some q → q ≠ ⟨false, some d⟩ →
      (f.senders.set k q')[s]? = some ⟨false, some d⟩ := by
    intro k q q' hk hne
    exact getElem?_set_of_ne_old hk hs hne.symm q'
  cases h with
  | putResp _ _ hk => exact ⟨d, hset hk (by simp)⟩
  | sendResp hk => exact ⟨d, hset hk (by simp)⟩
  | endSend hk => exact ⟨d, hset hk (by simp)⟩
  | connect =>
    refine ⟨d, ?_⟩
    dsimp only
    split_ifs
    · exact getElem?_concat_of_some hs _
    · exact hs
  | invoke | quiet | register | delete | take | sendSys | disconnect | dropped | recvMsg | setSendF
  | put | client => exact ⟨d, hs⟩

/-- The answer of a call is for such a stream. -/
def Unsent (f : ChainNode) (c : Call) : Prop :=
  ∃ d s, f.Clogged s ∧
    (c.phase = .responding d s ∨ c.phase = .answering d ∧ c.sendSysResponse = some s)

theorem Unsent.answer (h : f.Unsent c) : ∃ d, c.phase.answer = some d := by
  obtain ⟨d, s, -, hresp | ⟨hans, -⟩⟩ := h
  · exact ⟨d, by rw [hresp]; rfl⟩
  · exact ⟨d, by rw [hans]; rfl⟩

/-- It stays so, if no sandbox speaks to the call. -/
theorem Unsent.move (hb : f.Unsent c) (h : NodeStep f a f') (hm : CallMove f i c a c')
    (ha : ∀ s, a ≠ .setSendF s) : f'.Unsent c' := by
  obtain ⟨b, hans⟩ := hb.answer
  obtain ⟨d, s, hs, hphase⟩ := hb
  have hs' := hs.step h
  cases hm with
  | same => exact ⟨d, s, hs', hphase⟩
  | quiet hq _ => cases hq.before.symm.trans hans
  | register hq => cases (Phase.answer_registerNotify hq).1.symm.trans hans
  | delete hq => cases (Phase.answer_deleteNotify hq).1.symm.trans hans
  | take hloop _ _ => rw [hloop] at hans; cases hans
  | sendSys hans' hto =>
    refine ⟨d, s, hs', Or.inl ?_⟩
    rcases hphase with hresp | ⟨hans'', hto'⟩
    · cases hresp.symm.trans hans'
    · cases hans''.symm.trans hans'
      cases hto'.symm.trans hto
      rfl
  | putResp hresp hk =>
    rcases hphase with hresp' | ⟨hans', -⟩
    · cases hresp.symm.trans hresp'
      obtain ⟨e, hs⟩ := hs
      cases hk.symm.trans hs
    · cases hresp.symm.trans hans'
  | setSendF _ _ => exact absurd rfl (ha _)
  | put _ _ _ => exact ⟨d, s, hs', hphase⟩

/-- No send routine of a client runs. -/
def NoSender (f : ChainNode) : Prop := ∀ s : ℕ, f.clients[s]? ≠ some true

/-- The channel of the client manager that a call puts into next is full, and no client sends. -/
def Starved (f : ChainNode) (c : Call) : Prop :=
  f.NoSender ∧ ∃ ch, c.phase.sendCh = some ch ∧ ch.cap ≤ f.sendLen ch

/-- Until a client connects, nobody takes from a full channel. -/
theorem NodeStep.starved (h : NodeStep f a f') (hidle : f.NoSender) (ha : a ≠ .connect .engine) :
    f'.NoSender ∧ ∀ ch : SendCh, ch.cap ≤ f.sendLen ch → ch.cap ≤ f'.sendLen ch := by
  cases h with
  | quiet _ _ _ hlen =>
    refine ⟨hidle, fun ch hfull => ?_⟩
    rcases hlen ch with heq | ⟨hlt, -⟩
    · exact hfull.trans_eq heq.symm
    · exact absurd hlt (Nat.not_lt.2 hfull)
  | @connect side =>
    cases side with
    | engine => exact absurd rfl ha
    | sandbox => exact ⟨hidle, fun _ hfull => hfull⟩
  | client hs _ => exact absurd hs (hidle _)
  | _ => exact ⟨hidle, fun _ hfull => hfull⟩

theorem Starved.move (hb : f.Starved c) (h : NodeStep f a f') (hm : CallMove f i c a c')
    (ha : a ≠ .connect .engine) : f'.Starved c' := by
  obtain ⟨hidle, ch, hch, hfull⟩ := hb
  obtain ⟨hidle', hfull'⟩ := h.starved hidle ha
  refine ⟨hidle', ch, ?_, hfull' ch hfull⟩
  cases hm with
  | same | setSendF | put => exact hch
  | quiet _ hroom => exact absurd (hroom ch hch) (Nat.not_lt.2 hfull)
  | @register side phase hq | @delete side phase hq =>
    cases hph : c.phase <;> rw [hph] at hq hch <;> cases hch <;> cases side <;> cases hq <;> rfl
  | take hloop _ _ => rw [hloop] at hch; cases hch
  | sendSys hans _ => rw [hans] at hch; cases hch
  | putResp hresp _ => rw [hresp] at hch; cases hch

/-- A call that cannot go on by itself. -/
def Blocked (f : ChainNode) (c : Call) : Prop := f.Unsent c ∨ f.Starved c

/-- The steps of a call, and the sending of what waits for the send routines. -/
def Alone (i : ℕ) (_ : ChainNode) : Action → Prop
  | .refuse k | .register _ k | .enqueue _ k | .timeout k | .delete _ k | .take _ k | .sendSys k
  | .putResp k => k = i
  | .sendResp _ res | .sendMsg _ _ res => res = .sent
  | _ => False

/-- A blocked call stays blocked, if no sandbox speaks to it and no client connects. -/
theorem Blocked.move (hb : f.Blocked c) (h : NodeStep f a f') (hm : CallMove f i c a c')
    (ha : (∀ s, a ≠ .setSendF s) ∧ a ≠ .connect .engine) : f'.Blocked c' :=
  hb.imp (·.move h hm ha.1) (·.move h hm ha.2)

theorem Alone.calm (ha : Alone i f a) : (∀ s, a ≠ .setSendF s) ∧ a ≠ .connect .engine := by
  refine ⟨?_, ?_⟩
  · rintro s rfl
    exact ha
  · rintro rfl
    exact ha

/-- A call that waits for room there does nothing else. -/
theorem CallMove.responding (hm : CallMove f i c a c') (hresp : c.phase = .responding d s)
    (hs : f.Clogged s) : c'.phase = .responding d s := by
  have hans : c.phase.answer = some d := by rw [hresp]; rfl
  cases hm with
  | same | setSendF | put => exact hresp
  | quiet hq _ => cases hq.before.symm.trans hans
  | register hq => cases (Phase.answer_registerNotify hq).1.symm.trans hans
  | delete hq => cases (Phase.answer_deleteNotify hq).1.symm.trans hans
  | take hloop _ _ => cases hresp.symm.trans hloop
  | sendSys hans' _ => cases hresp.symm.trans hans'
  | putResp hresp' hk =>
    cases hresp.symm.trans hresp'
    obtain ⟨e, hs⟩ := hs
    cases hk.symm.trans hs

/-! ## Calls that return -/

/-- A call, left alone, can get to a state with `P`. -/
def Can (i : ℕ) (P : ChainNode → Prop) (f : ChainNode) : Prop :=
  ∃ f', Reach step (Alone i) f f' ∧ P f'

section
variable {P : ChainNode → Prop}

theorem Can.here (h : P f) : Can i P f := ⟨f, .start, h⟩

theorem Can.step (a : Action) {g : ChainNode} (ha : Alone i f a) (hs : f.step a = some g)
    (h : Can i P g) : Can i P f := by
  obtain ⟨f', hr, hf'⟩ := h
  exact ⟨f', (Reach.start.next ha hs).trans hr, hf'⟩

end

theorem goto_of (hc : f.calls[i]? = some c) (move : Phase → Option Phase) {phase : Phase}
    (hp : move c.phase = some phase) :
    f.goto i move = some (c, f.setCall i { c with phase := phase }) := by
  simp [goto, hc, hp]

/-- The call is in its loop; its channels and the receive routines are `m` and `r`. -/
def InLoop (i : ℕ) (m : Side → Option Delivery) (r : Side → List Receiver) (f : ChainNode) : Prop :=
  ∃ c, f.calls[i]? = some c ∧ c.phase = .looping ∧ c.msgCh = m ∧ f.receivers = r

section
variable {m : Side → Option Delivery} {r : Side → List Receiver}

theorem can_loop_responding (hc : f.calls[i]? = some c) (hresp : c.phase = .responding d s)
    (hlt : s < f.senders.length) (hs : ¬ f.Clogged s) (hm : c.msgCh = m) (hr : f.receivers = r) :
    Can i (InLoop i m r) f := by
  have hput : ∀ {g : ChainNode} {running : Bool}, g.calls[i]? = some c → g.receivers = r →
      g.senders[s]? = some ⟨running, none⟩ → Can i (InLoop i m r) g := by
    intro g running hgc hgr hgs
    refine Can.step (.putResp i) rfl (g := (g.setCall i { c with phase := .looping }).setSender s
      ⟨running, some d⟩) (by simp [step, hgc, hresp, hgs]) (.here ?_)
    exact ⟨_, calls_setCall_self hgc _, rfl, hm, hgr⟩
  obtain ⟨⟨running, resp⟩, hq⟩ : ∃ q, f.senders[s]? = some q := ⟨_, List.getElem?_eq_getElem hlt⟩
  cases resp with
  | none => exact hput hc hr hq
  | some b =>
    cases running with
    | false => exact absurd ⟨b, hq⟩ hs
    | true =>
      refine Can.step (.sendResp s .sent) rfl (g := f.setSender s ⟨true, none⟩)
        (by simp [step, hq]) ?_
      exact hput hc hr (getElem?_set_self_of_some hq _)

/-- A channel of the client manager has room, or some client makes room in it. -/
theorem can_loop_enqueue (ch : SendCh) (hc : f.calls[i]? = some c)
    (hph : c.phase.enqueue ch = some .looping) (hle : f.sendLen ch ≤ ch.cap)
    (hroom : ¬ (f.NoSender ∧ ch.cap ≤ f.sendLen ch))
    (hm : c.msgCh = m) (hr : f.receivers = r) : Can i (InLoop i m r) f := by
  have hput : ∀ {g : ChainNode}, g.calls[i]? = some c → g.receivers = r → g.sendLen ch < ch.cap →
      Can i (InLoop i m r) g := by
    intro g hgc hgr hlt
    have hgo := goto_of hgc (Phase.enqueue ch) hph
    refine Can.step (.enqueue ch i) rfl (by simp [step, hlt, hgo]; rfl) (.here ?_)
    exact ⟨_, calls_setCall_self hgc _, rfl, hm, hgr⟩
  by_cases hlt : f.sendLen ch < ch.cap
  · exact hput hc hr hlt
  · have hpos : 0 < f.sendLen ch := Nat.lt_of_lt_of_le (by cases ch <;> decide) (Nat.not_lt.1 hlt)
    obtain ⟨s, hs⟩ : ∃ s, f.clients[s]? = some true := by
      by_contra hnone
      exact hroom ⟨fun s hs => hnone ⟨s, hs⟩, Nat.not_lt.1 hlt⟩
    have hsend : f.step (.sendMsg ch s .sent) = some { f with
        clients := f.clients.set s true
        sendLen := Function.update f.sendLen ch (f.sendLen ch - 1) } := by
      simp [step, hs, hpos]
    refine Can.step (.sendMsg ch s .sent) rfl hsend (hput hc hr ?_)
    simp only [Function.update_self]
    omega

theorem can_loop_sandboxRegistered (hc : f.calls[i]? = some c) (hph : c.phase = .sandboxRegistered)
    (hle : f.sendLen .tx ≤ SendCh.cap .tx)
    (hroom : ¬ (f.NoSender ∧ SendCh.cap .tx ≤ f.sendLen .tx))
    (hm : c.msgCh = m) (hr : f.receivers = r) : Can i (InLoop i m r) f := by
  have hgo := goto_of hc (Phase.registerNotify .engine) (congrArg _ hph)
  refine Can.step (.register .engine i) rfl (by simp [step, hgo]; rfl) ?_
  exact can_loop_enqueue .tx (calls_setCall_self hc _) rfl hle hroom hm hr

end

/-- A call that has registered, has not left its loop and is not blocked can get to the head of
    its loop. -/
theorem can_loop (hP : Placed f) (hc : f.calls[i]? = some c) (hbegun : c.phase ≠ .started)
    (hleft : c.phase.hasLeft = false) (hb : ¬ f.Blocked c) :
    Can i (InLoop i c.msgCh f.receivers) f := by
  obtain ⟨hsent, hfed⟩ := not_or.1 hb
  have hroom : ∀ {ch : SendCh}, c.phase.sendCh = some ch →
      ¬ (f.NoSender ∧ ch.cap ≤ f.sendLen ch) :=
    fun hch hfull => hfed ⟨hfull.1, _, hch, hfull.2⟩
  cases hph : c.phase with
  | started => exact absurd hph hbegun
  | sandboxRegistered =>
    exact can_loop_sandboxRegistered hc hph (hP.room _) (hroom (by rw [hph]; rfl)) rfl rfl
  | registered =>
    exact can_loop_enqueue .tx hc (by rw [hph]; rfl) (hP.room _) (hroom (by rw [hph]; rfl)) rfl rfl
  | byteCode =>
    exact can_loop_enqueue .byteCodeResp hc (by rw [hph]; rfl) (hP.room _)
      (hroom (by rw [hph]; rfl)) rfl rfl
  | looping => exact .here ⟨c, hc, hph, rfl, rfl⟩
  | answering b =>
    have hheld := mem_holds_of_answer (c := c) (d := b) (by rw [hph]; rfl)
    obtain ⟨s, hto⟩ := Option.ne_none_iff_exists'.1 (hP.aimed (s := 0) hc (Or.inl hheld))
    have hstep : f.step (.sendSys i) = some (f.setCall i { c with phase := .responding b s }) := by
      simp [step, hc, hph, hto]
    refine Can.step (.sendSys i) rfl hstep ?_
    exact can_loop_responding (calls_setCall_self hc _) rfl (hP.sendF hc hto)
      (fun hs => hsent ⟨b, s, hs, Or.inr ⟨hph, hto⟩⟩) rfl rfl
  | responding b s =>
    exact can_loop_responding hc hph (hP.responding hc hph)
      (fun hs => hsent ⟨b, s, hs, Or.inl hph⟩) rfl rfl
  | returned | sandboxDeleted | ended => rw [hph] at hleft; cases hleft

def Ended (i : ℕ) (f : ChainNode) : Prop := ∃ c, f.calls[i]? = some c ∧ c.phase = .ended

theorem can_end_sandboxDeleted (hc : f.calls[i]? = some c) (hph : c.phase = .sandboxDeleted) :
    Can i (Ended i) f := by
  have hgo := goto_of hc (Phase.deleteNotify .engine) (congrArg _ hph)
  refine Can.step (.delete .engine i) rfl (by simp [step, hgo]; rfl) (.here ?_)
  exact ⟨_, calls_setCall_self hc _, rfl⟩

theorem can_end_returned (hc : f.calls[i]? = some c) (hph : c.phase = .returned) :
    Can i (Ended i) f := by
  have hgo := goto_of hc (Phase.deleteNotify .sandbox) (congrArg _ hph)
  refine Can.step (.delete .sandbox i) rfl (by simp [step, hgo]; rfl) ?_
  exact can_end_sandboxDeleted (calls_setCall_self hc _) rfl

theorem can_end (hP : Placed f) (hc : f.calls[i]? = some c) (hb : ¬ f.Blocked c) :
    Can i (Ended i) f := by
  cases hleft : c.phase.hasLeft with
  | true =>
    cases hph : c.phase with
    | returned => exact can_end_returned hc hph
    | sandboxDeleted => exact can_end_sandboxDeleted hc hph
    | ended => exact .here ⟨c, hc, hph⟩
    | started | sandboxRegistered | registered | looping | byteCode | answering | responding =>
      rw [hph] at hleft
      cases hleft
  | false =>
    by_cases hph : c.phase = .started
    · have hgo := goto_of hc Phase.refuse (congrArg Phase.refuse hph)
      refine Can.step (.refuse i) rfl (by simp [step, hgo]; rfl) (.here ?_)
      exact ⟨_, calls_setCall_self hc _, rfl⟩
    obtain ⟨g, hr, b, hgb, hloop, -⟩ := can_loop hP hc hph hleft hb
    have hgo := goto_of hgb Phase.timeout (congrArg Phase.timeout hloop)
    have hend : Can i (Ended i) g :=
      Can.step (.timeout i) rfl (by simp [step, hgo]; rfl)
        (can_end_returned (calls_setCall_self hgb _) rfl)
    obtain ⟨g', hr', hg'⟩ := hend
    exact ⟨g', hr.trans hr', hg'⟩

/-- A call that neither answers nor puts is not blocked. -/
theorem Blocked.phase_ne {p : Phase} (h : f.Blocked c) (hans : p.answer = none)
    (hput : p.sendCh = none) : c.phase ≠ p := by
  rintro rfl
  rcases h with hsent | ⟨-, ch, hch, -⟩
  · obtain ⟨d, hd⟩ := hsent.answer
    rw [hans] at hd
    cases hd
  · rw [hput] at hch
    cases hch

/-- What a step keeps about a call, a run keeps. -/
theorem kept_run {ok : ChainNode → Action → Prop} {K : ChainNode → Call → Prop}
    (hK : ∀ {g g' : ChainNode} {b b' : Call} {a : Action}, K g b → ok g a → NodeStep g a g' →
      CallMove g i b a b' → K g' b')
    (hc : f.calls[i]? = some c) (h : K f c) (hr : Reach step ok f f') :
    ∃ c', f'.calls[i]? = some c' ∧ K f' c' := by
  refine hr.inv (I := fun g => ∃ b, g.calls[i]? = some b ∧ K g b) ⟨c, hc, h⟩ ?_
  rintro g a g' ⟨b, hb, hkept⟩ ha hstep
  obtain ⟨b', hb', hmove⟩ := (step_cases hstep).move hb
  exact ⟨b', hb', hK hkept ha (step_cases hstep) hmove⟩

/-- **When a call of `Invoke` returns.**  Left alone with the send routines, a call returns
    unless its answer is for a stream whose channel is full and whose send routine has ended,
    or the channel of the client manager that it puts into next is full and no client sends.
    Once it waits for the stream, it waits for ever, whatever the others do; for the client
    manager it waits until a client connects. -/
theorem invoke_returns_iff (h : Reach step FewCalls init f) (hc : f.calls[i]? = some c) :
    (Can i (Ended i) f ↔ ¬ f.Blocked c) ∧
      (∀ d s, c.phase = .responding d s → f.Clogged s → ∀ f', Reach step Free f f' →
        ∃ c', f'.calls[i]? = some c' ∧ c'.phase = .responding d s) ∧
      (f.Starved c → ∀ f', Reach step (fun _ a => a ≠ .connect .engine) f f' →
        ∃ c', f'.calls[i]? = some c' ∧ f'.Starved c') := by
  have hP := placed_reach (fun _ _ hok => hok) h
  refine ⟨⟨?_, can_end hP hc⟩, fun d s hresp hs f' hr => ?_, fun hs f' hr => ?_⟩
  · rintro ⟨f', hr, b, hb, hend⟩ hblocked
    obtain ⟨b', hb', hblocked'⟩ :=
      kept_run (K := Blocked) (fun hK ha hs hm => hK.move hs hm ha.calm) hc hblocked hr
    cases hb.symm.trans hb'
    exact hblocked'.phase_ne rfl rfl hend
  · obtain ⟨c', hc', -, hresp'⟩ := kept_run
      (K := fun g b => g.Clogged s ∧ b.phase = .responding d s)
      (fun hK _ hs hm => ⟨hK.1.step hs, hm.responding hK.2 hK.1⟩) hc ⟨hs, hresp⟩ hr
    exact ⟨c', hc', hresp'⟩
  · exact kept_run (K := Starved) (fun hK ha hs hm => hK.move hs hm ha) hc hs hr

/-- A sandbox sends two requests and goes away: the first answer fills the channel of its
    stream, and the call waits with the second. -/
def runBlocked : List Action :=
  runAsked ++ [.recvMsg .sandbox 0 (sampleMsg .getStateRequest), .setSendF 0, .put .sandbox 0,
    .sendSys 0, .putResp 0, .disconnect .sandbox 0, .endSend 0, .take .sandbox 0, .sendSys 0]

/-- Such a call hangs. -/
theorem invoke_returns_iff_blocked : ∃ f c, Reach step FewCalls init f ∧ f.calls[0]? = some c ∧
    ¬ Can 0 (Ended 0) f ∧ ∀ f', Reach step Free f f' →
      ∃ c', f'.calls[0]? = some c' ∧
        c'.phase = .responding (sampleDelivery .getStateRequest) 0 := by
  obtain ⟨f, hreach, htest⟩ := exists_reach step FewCalls init
    (fun f : ChainNode => decide (f.calls[0]?.map (fun c : Call => c.phase) =
        some (.responding (sampleDelivery .getStateRequest) 0) ∧
      f.senders[0]? = some (Sender.mk false (some (sampleDelivery .getStateRequest)))))
    runBlocked (by decide)
  obtain ⟨hphase, hs⟩ := of_decide_eq_true htest
  obtain ⟨c, hc, hresp⟩ := Option.map_eq_some_iff.1 hphase
  obtain ⟨hiff, hever, -⟩ := invoke_returns_iff hreach hc
  have hclogged : f.Clogged 0 := ⟨_, hs⟩
  refine ⟨f, c, hreach, hc, fun hcan => hiff.1 hcan ?_, hever _ _ hresp hclogged⟩
  exact Or.inl ⟨_, 0, hclogged, Or.inl hresp⟩

/-! ## Routines that come back -/

theorem receivers_setReceiver_of_ne {side' : Side} {k : ℕ} {r r₀ : Receiver} (r' : Receiver)
    (hr : (f.receivers side)[s]? = some r) (hk : (f.receivers side')[k]? = some r₀)
    (hne : side = side' → s = k → r₀ ≠ r) :
    ((f.setReceiver side' k r').receivers side)[s]? = some r := by
  by_cases hs : side = side'
  · subst hs
    rw [receivers_self, List.getElem?_set_ne, hr]
    rintro rfl
    exact hne rfl rfl (Option.some.inj (hk.symm.trans hr))
  · rw [receivers_other f hs, hr]

/-- A routine that finds the channel full goes on waiting, if the call is not at the head
    of its loop. -/
theorem NodeStep.putting_full (h : NodeStep f a f') (hr : (f.receivers side)[s]? = some (.putting d))
    (hc : f.calls[d.call]? = some c) (hfull : c.msgCh side ≠ none) :
    (f'.receivers side)[s]? = some (.putting d) := by
  cases h with
  | @connect side' =>
    by_cases hs : side = side'
    · subst hs
      have heq : Function.update f.receivers side (f.receivers side ++ [.receiving]) side =
          f.receivers side ++ [.receiving] := Function.update_self ..
      simp only [heq]
      exact getElem?_concat_of_some hr _
    · simp only [Function.update_of_ne hs]
      exact hr
  | disconnect hk => exact receivers_setReceiver_of_ne _ hr hk fun _ _ => by simp
  | recvMsg hk _ => exact receivers_setReceiver_of_ne _ hr hk fun _ _ => by simp
  | setSendF hk _ => exact receivers_setReceiver_of_ne _ hr hk fun _ _ => by simp
  | put hk hb hch =>
    refine receivers_setReceiver_of_ne _ hr hk ?_
    rintro rfl rfl heq
    cases heq
    cases hc.symm.trans hb
    exact hfull hch
  | invoke | quiet | register | delete | take | sendSys | putResp | dropped | sendResp | endSend
  | client => exact hr

theorem CallMove.full (hm : CallMove f i c a c') (hfull : c.msgCh side ≠ none)
    (hloop : c.phase ≠ .looping) : c'.msgCh side ≠ none := by
  cases hm with
  | same | quiet | register | delete | sendSys | putResp | setSendF => exact hfull
  | take h _ _ => exact absurd h hloop
  | @put side' s d _ _ hch =>
    by_cases hs : side = side'
    · subst hs
      exact absurd hch hfull
    · simpa only [Function.update_of_ne hs] using hfull

theorem CallMove.left (hm : CallMove f i c a c') (hleft : c.phase.hasLeft = true) :
    c'.phase.hasLeft = true := by
  cases hm with
  | same | setSendF | put => exact hleft
  | quiet hq _ => exact hq.left hleft
  | @register side _ hq =>
    cases hph : c.phase <;> rw [hph] at hq hleft <;> cases hleft <;> cases side <;> cases hq
  | @delete side _ hq =>
    cases hph : c.phase <;> rw [hph] at hq hleft <;> cases hleft <;> cases side <;> cases hq <;> rfl
  | take hloop _ _ => rw [hloop] at hleft; cases hleft
  | sendSys hans _ => rw [hans] at hleft; cases hleft
  | putResp hresp _ => rw [hresp] at hleft; cases hleft

theorem ne_looping_of_left (h : c.phase.hasLeft = true) : c.phase ≠ .looping := by
  intro hloop
  rw [hloop] at h
  cases h

/-- The steps of a call, and the next one of a routine that delivers to it. -/
def AloneWith (i : ℕ) (side : Side) (s : ℕ) (f : ChainNode) (a : Action) : Prop :=
  Alone i f a ∨ a = .put side s

theorem Blocked.alone (hb : f.Blocked c) (ha : AloneWith i side s f a) (h : NodeStep f a f')
    (hm : CallMove f i c a c') : f'.Blocked c' := by
  refine hb.move h hm ?_
  rcases ha with ha | rfl
  · exact ha.calm
  · exact ⟨fun _ => by simp, by simp⟩

theorem step_put (hr : (f.receivers side)[s]? = some (.putting d)) (hc : f.calls[d.call]? = some c)
    (hch : c.msgCh side = none) :
    ∃ g, f.step (.put side s) = some g ∧ (g.receivers side)[s]? = some .receiving := by
  refine ⟨(f.setCall d.call { c with msgCh := Function.update c.msgCh side (some d) }).setReceiver
    side s .receiving, by simp [step, hr, hc, hch], ?_⟩
  rw [receivers_self]
  exact getElem?_set_self_of_some hr _

/-- The call takes the message out of its channel. -/
theorem step_take {b : Delivery} (hc : f.calls[i]? = some c) (hloop : c.phase = .looping)
    (hch : c.msgCh side = some b) :
    ∃ g c', f.step (.take side i) = some g ∧ g.receivers = f.receivers ∧ g.calls[i]? = some c' ∧
      c'.msgCh side = none := by
  simp only [step, hc, hloop, hch]
  exact ⟨_, _, rfl, rfl, calls_setCall_self hc _, Function.update_self ..⟩

/-- A routine that puts a message into a full channel stays there as long as something
    keeps the call from its loop. -/
theorem putting_kept {ok : ChainNode → Action → Prop} {K : ChainNode → Call → Prop}
    (hloop : ∀ {g b}, K g b → b.phase ≠ .looping)
    (hkeep : ∀ {g a g' b b'}, K g b → ok g a → NodeStep g a g' → CallMove g d.call b a b' → K g' b')
    (hr : (f.receivers side)[s]? = some (.putting d)) (hc : f.calls[d.call]? = some c)
    (hfull : c.msgCh side ≠ none) (hK : K f c) (hreach : Reach step ok f f') :
    (f'.receivers side)[s]? = some (.putting d) := by
  have hI : (f'.receivers side)[s]? = some (.putting d) ∧ ∃ b, f'.calls[d.call]? = some b ∧
      b.msgCh side ≠ none ∧ K f' b := by
    refine hreach.inv (I := fun g => (g.receivers side)[s]? = some (.putting d) ∧
      ∃ b, g.calls[d.call]? = some b ∧ b.msgCh side ≠ none ∧ K g b) ⟨hr, c, hc, hfull, hK⟩ ?_
    rintro g a g' ⟨hr, b, hb, hfull, hK⟩ ha hstep
    have hs := step_cases hstep
    obtain ⟨b', hb', hmove⟩ := hs.move hb
    exact ⟨hs.putting_full hr hb hfull, b', hb', hmove.full hfull (hloop hK), hkeep hK ha hs hmove⟩
  exact hI.1

/-- With room in the channel, or a call that can come to its loop, the message is put. -/
theorem can_deliver (hP : Placed f) (hr : (f.receivers side)[s]? = some (.putting d))
    (hc : f.calls[d.call]? = some c) (hbegun : c.phase ≠ .started)
    (hfree : c.msgCh side = none ∨ c.phase.hasLeft = false ∧ ¬ f.Blocked c) :
    ∃ f', Reach step (AloneWith d.call side s) f f' ∧ (f'.receivers side)[s]? = some .receiving := by
  cases hch : c.msgCh side with
  | none =>
    obtain ⟨g, hput, hg⟩ := step_put hr hc hch
    exact ⟨g, .next .start (Or.inr rfl) hput, hg⟩
  | some b =>
    -- the call comes to the head of its loop and takes the message that is in the way
    rw [hch] at hfree
    obtain ⟨hleft, hb⟩ := hfree.resolve_left (by simp)
    obtain ⟨g, hreach, e, hge, hloop, hm, hrecv⟩ := can_loop hP hc hbegun hleft hb
    rw [← hrecv] at hr
    rw [← hm] at hch
    obtain ⟨g₁, e₁, htake, hrecv₁, hge₁, hch₁⟩ := step_take hge hloop hch
    rw [← hrecv₁] at hr
    obtain ⟨g₂, hput, hg₂⟩ := step_put hr hge₁ hch₁
    have hreach' : Reach step (AloneWith d.call side s) f g := hreach.mono fun _ _ ha => Or.inl ha
    have hown : AloneWith d.call side s g (.take side d.call) := Or.inl rfl
    exact ⟨g₂, (hreach'.next hown htake).next (Or.inr rfl) hput, hg₂⟩

/-- **When a receive routine gets rid of a message.**  Left alone with the call that the
    message is for, it comes back to receiving if the channel of the call has room, or if
    the call has not left its loop and is not blocked, and in no other case.  If the channel
    is full and the call has left its loop, the routine waits for ever. -/
theorem delivery_ends_iff (h : Reach step FewCalls init f)
    (hr : (f.receivers side)[s]? = some (.putting d)) (hc : f.calls[d.call]? = some c) :
    ((∃ f', Reach step (AloneWith d.call side s) f f' ∧ (f'.receivers side)[s]? = some .receiving) ↔
      c.msgCh side = none ∨ c.phase.hasLeft = false ∧ ¬ f.Blocked c) ∧
    (c.msgCh side ≠ none → c.phase.hasLeft = true → ∀ f', Reach step Free f f' →
      (f'.receivers side)[s]? = some (.putting d)) := by
  have hP := placed_reach (fun _ _ hok => hok) h
  obtain ⟨e, he, -, hbegun⟩ := named_reach (fun _ _ hok => hok) h side d
    (mem_pending_receiver hr (List.mem_singleton_self d))
  cases hc.symm.trans he
  refine ⟨⟨?_, can_deliver hP hr hc hbegun⟩, fun hfull hleft f' hreach => ?_⟩
  · rintro ⟨f', hreach, hrecv⟩
    by_contra hnot
    push Not at hnot
    have hstuck : c.phase.hasLeft = true ∨ f.Blocked c := by
      by_cases hleft : c.phase.hasLeft = true
      · exact Or.inl hleft
      · exact Or.inr (hnot.2 (Bool.not_eq_true _ ▸ hleft))
    have hput := putting_kept (K := fun g b => b.phase.hasLeft = true ∨ g.Blocked b)
      (fun hK => hK.elim ne_looping_of_left fun hb => hb.phase_ne rfl rfl)
      (fun hK ha hs hmove => hK.imp hmove.left (·.alone ha hs hmove)) hr hc hnot.1 hstuck hreach
    cases hrecv.symm.trans hput
  · exact putting_kept (K := fun _ b => b.phase.hasLeft = true) ne_looping_of_left
      (fun hK _ _ hmove => hmove.left hK) hr hc hfull hleft hreach

/-- The engine sends a second message for a call, and the call returns with a timeout before
    it takes the first: the client does not receive any more. -/
theorem delivery_ends_iff_stuck : ∃ f : ChainNode, Reach step FewCalls init f ∧
    (f.receivers .engine)[0]? = some (.putting (sampleDelivery .error)) ∧
    ∀ f', Reach step Free f f' →
      (f'.receivers .engine)[0]? = some (.putting (sampleDelivery .error)) := by
  obtain ⟨f, hreach, htest⟩ := exists_reach step FewCalls init
    (fun f : ChainNode => decide
      ((f.receivers .engine)[0]? = some (Receiver.putting (sampleDelivery .error)) ∧
      f.calls[0]?.map (fun c : Call => (c.phase, c.msgCh .engine)) =
        some (.returned, some (sampleDelivery .getBytecodeRequest))))
    (runLooping ++ [.recvMsg .engine 0 (sampleMsg .getBytecodeRequest), .put .engine 0,
      .recvMsg .engine 0 (sampleMsg .error), .timeout 0]) (by decide)
  obtain ⟨hr, hcall⟩ := of_decide_eq_true htest
  obtain ⟨c, hc, hpair⟩ := Option.map_eq_some_iff.1 hcall
  obtain ⟨hphase, hch⟩ := Prod.mk.inj hpair
  refine ⟨f, hreach, hr, (delivery_ends_iff hreach hr hc).2 ?_ ?_⟩
  · rw [hch]
    exact Option.some_ne_none _
  · rw [hphase]
    rfl

end VmEngine.ChainNode
