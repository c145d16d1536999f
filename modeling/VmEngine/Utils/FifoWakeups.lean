/-
  Wakeups of the queue of users.

  A dequeuer that found the queue empty may register after an element was put, and an
  enqueuer that found no listener may put after a dequeuer registered: the dequeuer then
  waits beside an element.  And a dequeuer whose context expires leaves its channel behind:
  the next `Enqueue` takes it and sends to nobody.  `Careful` rules out these steps.

  A channel is at one place at most, in `waitForNextElementChan` or with one enqueuer
  (`Listeners`).  So in careful runs, where every channel at a place has a dequeuer that
  waits on it, an enqueuer that has a channel can send.
-/
import VmEngine.Utils.FixedFifo
import VmEngine.Lib.Places

namespace VmEngine

namespace FixedFIFO

variable {α : Type} {s s' : FixedFIFO α} {a : Action α} {i : ℕ}

/-! ## Listeners -/

/-- The call that this one sends to. -/
def Call.listener : Call α → Option ℕ
  | .send _ listener => some listener
  | _ => none

/-- Where the channel of a dequeuer can be: registered, or with an enqueuer. -/
def places (s : FixedFIFO α) : Option ℕ → List ℕ
  | none => s.waitForNextElementChan
  | some i => (s.calls[i]?.bind Call.listener).toList

/-- The call has registered a channel, or never will. -/
def Call.Registered : Call α → Prop
  | .wait | .dequeued _ => True
  | _ => False

/-- Every channel is at one place at most, that of a waiting dequeuer at one. -/
structure Listeners (s : FixedFIFO α) : Prop where
  once : Once id s.places
  registered : ∀ {p l}, l ∈ s.places p → ∃ c, s.calls[l]? = some c ∧ c.Registered
  placed : ∀ {l}, s.calls[l]? = some .wait → ∃ p, l ∈ s.places p

variable {c c' : Call α} {calls : List (Call α)} {k l : ℕ} {value : α}

theorem mem_places_some : l ∈ s.places (some k) ↔ ∃ value, s.calls[k]? = some (.send value l) := by
  simp only [places, Option.mem_toList, Option.bind_eq_some_iff]
  constructor
  · rintro ⟨c, hc, hl⟩
    cases c <;> cases hl
    exact ⟨_, hc⟩
  · rintro ⟨value, hc⟩
    exact ⟨_, hc, rfl⟩

theorem listeners_new (capacity : ℕ) : Listeners (new capacity : FixedFIFO α) := by
  have hnil : (new capacity : FixedFIFO α).places = fun _ => [] := by
    funext p
    cases p <;> rfl
  refine ⟨hnil ▸ once_nil, fun {p l} hl => ?_, nofun⟩
  rw [hnil] at hl
  cases hl

/-- Nobody has the channel of a call that has not registered. -/
theorem Listeners.not_mem (h : Listeners s) (hi : s.calls[i]? = some c) (hc : ¬ c.Registered)
    (p : Option ℕ) : i ∉ s.places p := by
  intro hmem
  obtain ⟨c', hc', hreg⟩ := h.registered hmem
  rw [hi] at hc'
  cases hc'
  exact hc hreg

theorem places_goto (hi : s.calls[i]? = some c) :
    (s.goto i c').places = Function.update s.places (some i) c'.listener.toList := by
  funext p
  by_cases hp : p = some i
  · subst hp
    simp only [Function.update_self, places, goto, getElem?_set_self_of_some hi, Option.bind_some]
  · rw [Function.update_of_ne hp]
    cases p with
    | none => rfl
    | some k =>
      have hk : i ≠ k := fun hk => hp (congrArg some hk.symm)
      simp only [places, goto, List.getElem?_set_ne hk]

theorem places_some (hi : s.calls[i]? = some c) : s.places (some i) = c.listener.toList := by
  simp only [places, hi, Option.bind_some]

theorem places_goto_of_none (hi : s.calls[i]? = some c) (hc : c.listener = none)
    (hc' : c'.listener = none) : (s.goto i c').places = s.places := by
  rw [places_goto hi, hc', ← hc, ← places_some hi, Function.update_eq_self]

theorem places_waiters (waiters : List ℕ) :
    { s with waitForNextElementChan := waiters }.places = Function.update s.places none waiters := by
  funext p
  cases p with
  | none => rw [Function.update_self]; rfl
  | some k => rw [Function.update_of_ne (Option.some_ne_none k)]; rfl

theorem registered_set (hi : calls[i]? = some c) (hc : c.Registered → c'.Registered)
    (h : ∃ d, calls[l]? = some d ∧ d.Registered) :
    ∃ d, (calls.set i c')[l]? = some d ∧ d.Registered := by
  obtain ⟨d, hd, hreg⟩ := h
  by_cases hl : i = l
  · subst hl
    rw [hi] at hd
    cases hd
    exact ⟨c', getElem?_set_self_of_some hi c', hc hreg⟩
  · exact ⟨d, by rw [List.getElem?_set_ne hl, hd], hreg⟩

theorem wait_of_set (hc : c ≠ .wait) (h : (calls.set i c)[l]? = some .wait) :
    l ≠ i ∧ calls[l]? = some .wait := by
  rcases getElem?_set_some h with ⟨-, heq⟩ | hold
  · exact absurd heq.symm hc
  · exact hold

theorem Listeners.call (h : Listeners s) (hc : c.listener = none) (hwait : c ≠ .wait) :
    Listeners { s with calls := s.calls ++ [c] } := by
  have hplaces : { s with calls := s.calls ++ [c] }.places = s.places := by
    funext p
    cases p with
    | none => rfl
    | some k =>
      simp only [places, getElem?_concat]
      split_ifs with hk
      · rw [hk, List.getElem?_eq_none (le_refl _), Option.bind_some, hc, Option.bind_none]
      · rfl
  refine ⟨hplaces ▸ h.once, ?_, ?_⟩
  · intro p l hl
    rw [hplaces] at hl
    obtain ⟨d, hd, hreg⟩ := h.registered hl
    exact ⟨d, getElem?_concat_of_some hd c, hreg⟩
  · intro l hl
    rw [hplaces]
    rcases getElem?_concat_some hl with ⟨-, heq⟩ | hl
    · exact absurd heq.symm hwait
    · exact h.placed hl

/-- A call goes on without the channel of another. -/
theorem Listeners.goto (h : Listeners s) (hi : s.calls[i]? = some c) (hc : c.listener = none)
    (hc' : c'.listener = none) (hreg : c.Registered → c'.Registered) (hwait : c' ≠ .wait) :
    Listeners (s.goto i c') := by
  have hplaces := places_goto_of_none hi hc hc'
  refine ⟨hplaces ▸ h.once, ?_, ?_⟩
  · intro p l hl
    rw [hplaces] at hl
    exact registered_set hi hreg (h.registered hl)
  · intro l hl
    rw [hplaces]
    exact h.placed (wait_of_set hwait hl).2

theorem Listeners.setQueue (h : Listeners s) (queue : List α) : Listeners { s with queue := queue } :=
  ⟨h.once, h.registered, h.placed⟩

/-- The first channel goes to an enqueuer. -/
theorem Listeners.listener {listener : ℕ} {rest : List ℕ} (h : Listeners s)
    (hi : s.calls[i]? = some (.enqueue value)) (hw : s.waitForNextElementChan = listener :: rest) :
    Listeners ({ s with waitForNextElementChan := rest }.goto i (.send value listener)) := by
  have hplaces : ({ s with waitForNextElementChan := rest }.goto i (.send value listener)).places =
      Function.update (Function.update s.places none rest) (some i) [listener] := by
    rw [← places_waiters]
    exact places_goto hi
  have hfirst : (s.places none).Perm (rest ++ [listener]) := by
    rw [places, hw]
    exact (List.perm_append_singleton listener rest).symm
  have hempty : s.places (some i) = [] := places_some hi
  have hmove := h.once.move (i := none) (j := some i)
    (Function.update (Function.update s.places none rest) (some i) [listener])
    (Fewer.update [listener] hfirst) (by rw [Function.update_self]; exact hfirst)
    (by rw [Function.update_self, Function.update_of_ne (Option.some_ne_none i), hempty])
    (fun k hk => Function.update_of_ne hk _ _)
  refine ⟨hplaces ▸ hmove.1, ?_, ?_⟩
  · intro p l hl
    rw [hplaces] at hl
    obtain ⟨q, hq⟩ := hmove.2 p l hl
    exact registered_set hi False.elim (h.registered hq)
  · intro l hl
    rw [hplaces]
    obtain ⟨p, hp⟩ := h.placed (wait_of_set (c := .send value listener) nofun hl).2
    by_cases hl' : l = listener
    · exact ⟨some i, by rw [Function.update_self, hl']; exact List.mem_singleton_self _⟩
    · refine ⟨p, ?_⟩
      have hpi : p ≠ some i := by
        rintro rfl
        rw [hempty] at hp
        cases hp
      rw [Function.update_of_ne hpi]
      cases p with
      | none =>
        rw [places, hw] at hp
        rw [Function.update_self]
        exact (List.mem_cons.1 hp).resolve_left hl'
      | some k =>
        rw [Function.update_of_ne (Option.some_ne_none k)]
        exact hp

/-- The channel is used once, and then by nobody. -/
theorem Listeners.send {listener : ℕ} (h : Listeners s)
    (hi : s.calls[i]? = some (.send value listener)) (hl : s.calls[listener]? = some .wait) :
    Listeners ((s.goto i (.enqueued value none)).goto listener (.dequeued (.ok value))) := by
  have hl' := getElem?_set_of_ne_old hi hl nofun (.enqueued value none)
  have hplaces : ((s.goto i (.enqueued value none)).goto listener (.dequeued (.ok value))).places =
      Function.update s.places (some i) [] := by
    rw [places_goto_of_none (c := .wait) hl' rfl rfl, places_goto hi]
    rfl
  have hfewer : Fewer s.places (Function.update s.places (some i) []) := by
    refine Fewer.update [listener] ?_
    rw [places_some hi]
    exact List.Perm.refl _
  refine ⟨hplaces ▸ h.once.drop hfewer, ?_, ?_⟩
  · intro p l hmem
    rw [hplaces] at hmem
    refine registered_set hl' (fun _ => trivial) ?_
    exact registered_set hi False.elim (h.registered (hfewer.mem hmem))
  · intro l hwait
    rw [hplaces]
    obtain ⟨hne, hwait⟩ := wait_of_set (c := .dequeued (.ok value)) nofun hwait
    obtain ⟨p, hp⟩ := h.placed (wait_of_set (c := .enqueued value none) nofun hwait).2
    refine ⟨p, ?_⟩
    have hpi : p ≠ some i := by
      rintro rfl
      rw [places_some hi] at hp
      exact hne (List.mem_singleton.1 hp)
    rw [Function.update_of_ne hpi]
    exact hp

/-- A new channel is registered. -/
theorem Listeners.register (h : Listeners s) (hi : s.calls[i]? = some .register) :
    Listeners ({ s with waitForNextElementChan := s.waitForNextElementChan ++ [i] }.goto i .wait) := by
  have hplaces : ({ s with waitForNextElementChan :=
      s.waitForNextElementChan ++ [i] }.goto i .wait).places =
      Function.update s.places none (s.waitForNextElementChan ++ [i]) := by
    rw [← places_waiters]
    exact places_goto_of_none hi rfl rfl
  have honce : Once id (Function.update s.places none (s.waitForNextElementChan ++ [i])) := by
    refine h.once.add (i := none) (a := i) ?_ ?_ fun p hp => Function.update_of_ne hp _ _
    · rintro p l hl rfl
      exact h.not_mem hi id p hl
    · rw [Function.update_self]
      exact List.perm_append_singleton i _
  have hset := getElem?_set_self_of_some hi .wait
  refine ⟨hplaces ▸ honce, ?_, ?_⟩
  · intro p l hl
    by_cases hli : l = i
    · exact ⟨.wait, hli ▸ hset, trivial⟩
    · refine registered_set hi False.elim (h.registered (p := p) ?_)
      rw [hplaces] at hl
      by_cases hp : p = none
      · subst hp
        rw [Function.update_self] at hl
        exact (List.mem_append.1 hl).resolve_right fun hl => hli (List.mem_singleton.1 hl)
      · rwa [Function.update_of_ne hp] at hl
  · intro l hl
    rw [hplaces]
    rcases getElem?_set_some hl with ⟨rfl, -⟩ | ⟨-, hl⟩
    · refine ⟨none, ?_⟩
      rw [Function.update_self]
      exact List.mem_append_right _ (List.mem_singleton_self l)
    · obtain ⟨p, hp⟩ := h.placed hl
      refine ⟨p, ?_⟩
      by_cases hpn : p = none
      · subst hpn
        rw [Function.update_self]
        exact List.mem_append_left _ hp
      · rwa [Function.update_of_ne hpn]

theorem Step.listeners (hstep : Step s a s') (h : Listeners s) : Listeners s' := by
  cases hstep with
  | callEnqueue => exact h.call rfl nofun
  | callDequeue => exact h.call rfl nofun
  | expire => exact ⟨h.once, h.registered, h.placed⟩
  | listener hi hw => exact h.listener hi hw
  | noListener hi hw => exact h.goto hi rfl rfl False.elim nofun
  | put hi hroom => exact (h.setQueue _).goto hi rfl rfl False.elim nofun
  | full hi hroom => exact h.goto hi rfl rfl False.elim nofun
  | send hi hl => exact h.send hi hl
  | take hi hq => exact (h.setQueue _).goto hi rfl rfl False.elim nofun
  | empty hi hq => exact h.goto hi rfl rfl False.elim nofun
  | register hi hroom => exact h.register hi
  | crowded hi hroom => exact h.goto hi rfl rfl False.elim nofun
  | ctxDone hi =>
    rcases hi with hi | hi
    · exact h.goto hi rfl rfl False.elim nofun
    · exact h.goto hi rfl rfl (fun _ => trivial) nofun

theorem listeners_of_reach {ok : FixedFIFO α → Action α → Prop} {capacity : ℕ}
    (h : Reach step ok (new capacity) s) : Listeners s :=
  h.inv (I := Listeners) (listeners_new capacity) fun hl _ hstep => (step_cases hstep).listeners hl

/-! ## Careful steps -/

/-- The operations of a call that keep the two channels in agreement: an enqueuer takes the
    channel of a dequeuer that waits, and puts only when no registered dequeuer waits; a
    dequeuer registers only while the queue is empty. -/
def CarefulCall (s : FixedFIFO α) : Call α → Prop
  | .enqueue _ => ∀ listener ∈ s.waitForNextElementChan.head?, s.calls[listener]? = some .wait
  | .put _ => s.queue.length < s.capacity →
    ∀ listener ∈ s.waitForNextElementChan, s.calls[listener]? ≠ some .wait
  | .register => s.waitForNextElementChan.length < waitForNextElementChanCapacity → s.queue = []
  | _ => True

/-- And a dequeuer gives up only when nobody sends to it. -/
def Careful (s : FixedFIFO α) : Action α → Prop
  | .run i => ∀ c ∈ s.calls[i]?, s.CarefulCall c
  | .ctxDone i => ∀ c ∈ s.calls, c.listener ≠ some i
  | _ => True

instance [DecidableEq α] (s : FixedFIFO α) : DecidablePred s.CarefulCall
  | .enqueue _ => inferInstanceAs (Decidable (∀ _ ∈ s.waitForNextElementChan.head?, _))
  | .put _ => inferInstanceAs (Decidable (_ → ∀ _ ∈ s.waitForNextElementChan, _))
  | .register => inferInstanceAs (Decidable (_ → s.queue = []))
  | .send _ _ | .enqueued _ _ | .dequeue | .wait | .dequeued _ => instDecidableTrue

instance [DecidableEq α] : DecidableRel (Careful : FixedFIFO α → Action α → Prop)
  | s, .run i => inferInstanceAs (Decidable (∀ c ∈ s.calls[i]?, s.CarefulCall c))
  | s, .ctxDone i => inferInstanceAs (Decidable (∀ c ∈ s.calls, c.listener ≠ some i))
  | _, .callEnqueue _ | _, .callDequeue | _, .expire _ _ => instDecidableTrue

/-- No dequeuer that is registered waits beside an element. -/
def Awake (s : FixedFIFO α) : Prop :=
  ∀ l ∈ s.waitForNextElementChan, s.calls[l]? = some .wait → s.queue = []

/-- An enqueuer sends to nobody else that somebody else sends to. -/
theorem Listeners.sender_unique {j : ℕ} {v w : α} (h : Listeners s)
    (hi : s.calls[i]? = some (.send v l)) (hj : s.calls[j]? = some (.send w l)) : i = j := by
  by_contra hne
  have hne : some i ≠ some j := fun heq => hne (Option.some.inj heq)
  exact h.once.apart hne (mem_places_some.2 ⟨v, hi⟩) (mem_places_some.2 ⟨w, hj⟩) rfl

theorem send_of_set (hc : c.listener = none) (h : (calls.set i c)[k]? = some (.send value l)) :
    k ≠ i ∧ calls[k]? = some (.send value l) := by
  rcases getElem?_set_some h with ⟨-, heq⟩ | hold
  · rw [← heq] at hc
    cases hc
  · exact hold

theorem Awake.call (h : Awake s) (hc : c ≠ .wait) : Awake { s with calls := s.calls ++ [c] } := by
  intro l hl hwait
  rcases getElem?_concat_some hwait with ⟨-, heq⟩ | hwait
  · exact absurd heq.symm hc
  · exact h l hl hwait

theorem NeverBlocks.call (h : NeverBlocks s) (hc : c.listener = none) :
    NeverBlocks { s with calls := s.calls ++ [c] } := by
  intro k l value hk
  rcases getElem?_concat_some hk with ⟨-, heq⟩ | hk
  · rw [← heq] at hc
    cases hc
  · exact getElem?_concat_of_some (h hk) c

theorem Awake.goto {queue : List α} (h : Awake s) (hc : c ≠ .wait)
    (hq : s.queue = [] → queue = []) : Awake ({ s with queue := queue }.goto i c) :=
  fun l hl hwait => hq (h l hl (wait_of_set hc hwait).2)

/-- A call other than a waiting one goes on. -/
theorem NeverBlocks.goto {queue : List α} {waiters : List ℕ} (h : NeverBlocks s)
    (hi : s.calls[i]? = some c) (hc : c ≠ .wait) (hc' : c'.listener = none) :
    NeverBlocks ({ s with queue := queue, waitForNextElementChan := waiters }.goto i c') := by
  intro k l value hk
  exact getElem?_set_of_ne_old hi (h (send_of_set hc' hk).2) hc.symm c'

theorem careful_run (hi : s.calls[i]? = some c) : Careful s (.run i) ↔ s.CarefulCall c := by
  simp only [Careful, hi, Option.mem_some, forall_eq']

theorem careful_ctxDone :
    Careful s (.ctxDone i) ↔ ∀ (k : ℕ) (value : α), s.calls[k]? ≠ some (.send value i) := by
  constructor
  · intro h k value hk
    exact h _ (List.mem_of_getElem? hk) rfl
  · intro h c hc hl
    obtain ⟨k, hk⟩ := List.mem_iff_getElem?.1 hc
    cases c <;> cases hl
    exact h k _ hk

theorem careful_listener_iff {listener : ℕ} {rest : List ℕ} (ha : Awake s) (hn : NeverBlocks s)
    (hi : s.calls[i]? = some (.enqueue value)) (hw : s.waitForNextElementChan = listener :: rest) :
    let s' := { s with waitForNextElementChan := rest }.goto i (.send value listener)
    Careful s (.run i) ↔ Awake s' ∧ NeverBlocks s' := by
  simp only [careful_run hi, CarefulCall, hw, List.head?_cons, Option.mem_some, forall_eq']
  constructor
  · intro hwait
    constructor
    · intro l hl hl'
      refine ha l ?_ (wait_of_set (c := .send value listener) nofun hl').2
      rw [hw]
      exact List.mem_cons_of_mem _ hl
    · intro k l v hk
      rcases getElem?_set_some hk with ⟨-, heq⟩ | ⟨-, hk⟩
      · cases heq
        exact getElem?_set_of_ne_old hi hwait nofun _
      · exact getElem?_set_of_ne_old hi (hn hk) nofun _
  · rintro ⟨-, hn'⟩
    exact (wait_of_set (c := .send value listener) nofun
      (hn' (getElem?_set_self_of_some hi _))).2

theorem careful_put_iff (hn : NeverBlocks s) (hi : s.calls[i]? = some (.put value))
    (hroom : s.queue.length < s.capacity) :
    let s' := { s with queue := s.queue ++ [value] }.goto i (.enqueued value none)
    Careful s (.run i) ↔ Awake s' ∧ NeverBlocks s' := by
  simp only [careful_run hi, CarefulCall, hroom, forall_const]
  constructor
  · intro hnone
    refine ⟨fun l hl hwait => ?_, hn.goto hi nofun rfl⟩
    exact absurd (wait_of_set (c := .enqueued value none) nofun hwait).2 (hnone l hl)
  · rintro ⟨ha', -⟩ l hl hwait
    have hempty := ha' l hl (getElem?_set_of_ne_old hi hwait nofun _)
    exact List.append_ne_nil_of_right_ne_nil s.queue (List.cons_ne_nil value []) hempty

theorem careful_register_iff (hn : NeverBlocks s) (hi : s.calls[i]? = some .register)
    (hroom : s.waitForNextElementChan.length < waitForNextElementChanCapacity) :
    let s' := { s with waitForNextElementChan := s.waitForNextElementChan ++ [i] }.goto i .wait
    Careful s (.run i) ↔ Awake s' ∧ NeverBlocks s' := by
  simp only [careful_run hi, CarefulCall, hroom, forall_const]
  constructor
  · intro hempty
    exact ⟨fun l hl hwait => hempty, hn.goto hi nofun rfl⟩
  · rintro ⟨ha', -⟩
    exact ha' i (List.mem_append_right _ (List.mem_singleton_self i))
      (getElem?_set_self_of_some hi .wait)

theorem careful_ctxDone_iff {err : String} (ha : Awake s) (hn : NeverBlocks s)
    (hi : s.calls[i]? = some .wait) :
    let s' := s.goto i (.dequeued (.error err))
    Careful s (.ctxDone i) ↔ Awake s' ∧ NeverBlocks s' := by
  rw [careful_ctxDone]
  constructor
  · intro hnone
    refine ⟨ha.goto nofun id, fun {k l value} hk => ?_⟩
    obtain ⟨-, hold⟩ := send_of_set (c := .dequeued (.error err)) rfl hk
    have hl : l ≠ i := by
      rintro rfl
      exact hnone k value hold
    show (s.calls.set i _)[l]? = some .wait
    rw [List.getElem?_set_ne hl.symm]
    exact hn hold
  · rintro ⟨-, hn'⟩ k value hk
    have hwait := hn' (getElem?_set_of_ne_old hi hk nofun _)
    exact (wait_of_set (c := .dequeued (.error err)) nofun hwait).1 rfl

/-- Nobody else sends to the listener. -/
theorem NeverBlocks.send {listener : ℕ} (h : NeverBlocks s) (hl : Listeners s)
    (hi : s.calls[i]? = some (.send value listener)) (hwait : s.calls[listener]? = some .wait) :
    NeverBlocks ((s.goto i (.enqueued value none)).goto listener (.dequeued (.ok value))) := by
  intro k l v hk
  obtain ⟨-, hmid⟩ := send_of_set (c := .dequeued (.ok value)) rfl hk
  obtain ⟨hki, hold⟩ := send_of_set (c := .enqueued value none) rfl hmid
  have hne : l ≠ listener := by
    rintro rfl
    exact hki (hl.sender_unique hold hi)
  show ((s.calls.set i _).set listener _)[l]? = some .wait
  rw [List.getElem?_set_ne hne.symm]
  exact getElem?_set_of_ne_old hi (h hold) nofun _

theorem Awake.send {listener : ℕ} (h : Awake s) :
    Awake ((s.goto i (.enqueued value none)).goto listener (.dequeued (.ok value))) := by
  have hsent : Awake (s.goto i (.enqueued value none)) := h.goto nofun id
  exact hsent.goto nofun id

/-- The careful steps are those that keep registered dequeuers awake and senders served. -/
theorem Step.careful_iff (hstep : Step s a s') (hl : Listeners s) (ha : Awake s)
    (hn : NeverBlocks s) : Careful s a ↔ Awake s' ∧ NeverBlocks s' := by
  cases hstep with
  | callEnqueue => exact iff_of_true trivial ⟨ha.call nofun, hn.call rfl⟩
  | callDequeue => exact iff_of_true trivial ⟨ha.call nofun, hn.call rfl⟩
  | expire => exact iff_of_true trivial ⟨ha, hn⟩
  | listener hi hw => exact careful_listener_iff ha hn hi hw
  | noListener hi hw =>
    refine iff_of_true ((careful_run hi).2 ?_) ⟨ha.goto nofun id, hn.goto hi nofun rfl⟩
    intro l hmem
    rw [hw] at hmem
    cases hmem
  | put hi hroom => exact careful_put_iff hn hi hroom
  | full hi hroom =>
    refine iff_of_true ((careful_run hi).2 ?_) ⟨ha.goto nofun id, hn.goto hi nofun rfl⟩
    exact fun hlt => absurd hlt hroom
  | send hi hwait =>
    exact iff_of_true ((careful_run hi).2 trivial) ⟨ha.send, hn.send hl hi hwait⟩
  | take hi hq =>
    refine iff_of_true ((careful_run hi).2 trivial) ⟨ha.goto nofun ?_, hn.goto hi nofun rfl⟩
    intro hempty
    rw [hq] at hempty
    cases hempty
  | empty hi hq =>
    exact iff_of_true ((careful_run hi).2 trivial) ⟨ha.goto nofun id, hn.goto hi nofun rfl⟩
  | register hi hroom => exact careful_register_iff hn hi hroom
  | crowded hi hroom =>
    refine iff_of_true ((careful_run hi).2 ?_) ⟨ha.goto nofun id, hn.goto hi nofun rfl⟩
    exact fun hlt => absurd hlt hroom
  | ctxDone hi =>
    rcases hi with hi | hi
    · refine iff_of_true (careful_ctxDone.2 fun k value hk => ?_)
        ⟨ha.goto nofun id, hn.goto hi nofun rfl⟩
      exact hl.not_mem hi id (some k) (mem_places_some.2 ⟨value, hk⟩)
    · exact careful_ctxDone_iff ha hn hi

/-! ## Careful runs -/

theorem careful_of_reach {capacity : ℕ} (h : Reach step Careful (new capacity) s) :
    Awake s ∧ NeverBlocks s := by
  refine h.inv_of (I := fun s => Awake s ∧ NeverBlocks s) listeners_of_reach ⟨nofun, nofun⟩ ?_
  intro s a s' hl hgood hok hstep
  exact ((step_cases hstep).careful_iff hl hgood.1 hgood.2).1 hok

/-- A waiting dequeuer is registered, or somebody sends to it and can go on. -/
theorem allWoken_of_awake (hl : Listeners s) (ha : Awake s) : AllWoken s := by
  intro hparked hmem
  obtain ⟨l, hwait⟩ := List.mem_iff_getElem?.1 hmem
  obtain ⟨p, hp⟩ := hl.placed hwait
  cases p with
  | none => exact ha l hp hwait
  | some k =>
    obtain ⟨value, hk⟩ := mem_places_some.1 hp
    have hrun := (hparked k (List.getElem?_eq_some_iff.1 hk).1).1
    simp only [run, hk, runSend, hwait] at hrun
    cases hrun

/-- No element is ever lost.  In careful runs no dequeuer sleeps beside an element and no
    enqueuer blocks, and a step is careful exactly if it keeps registered dequeuers awake
    and senders served. -/
theorem fifo_keeps_and_wakes {capacity : ℕ} (h : Reach step Free (new capacity) s) :
    Kept s ∧ (Reach step Careful (new capacity) s → AllWoken s ∧ NeverBlocks s ∧
      ∀ a s', s.step a = some s' → (Careful s a ↔ Awake s' ∧ NeverBlocks s')) := by
  refine ⟨kept_of_reach h, fun hcareful => ?_⟩
  have hl := listeners_of_reach hcareful
  obtain ⟨ha, hn⟩ := careful_of_reach hcareful
  exact ⟨allWoken_of_awake hl ha, hn, fun a s' hstep => (step_cases hstep).careful_iff hl ha hn⟩

/-- A dequeuer registers and is served; a second element is put and taken. -/
theorem fifo_keeps_and_wakes_served :
    ∃ s : FixedFIFO ℕ, s.calls = [.dequeued (.ok 7), .enqueued 7 none, .enqueued 8 none,
        .dequeued (.ok 8)] ∧
      Reach step Careful (new 1) s ∧ Kept s ∧ AllWoken s ∧ NeverBlocks s := by
  obtain ⟨s, hs, hcalls⟩ := exists_reach step Careful (new 1)
    (fun s : FixedFIFO ℕ => s.calls = [.dequeued (.ok 7), .enqueued 7 none, .enqueued 8 none,
      .dequeued (.ok 8)])
    [.callDequeue, .run 0, .run 0, .callEnqueue 7, .run 1, .run 1, .callEnqueue 8, .run 2, .run 2,
      .callDequeue, .run 3] (by decide)
  obtain ⟨hkept, hcareful⟩ := fifo_keeps_and_wakes hs.free
  exact ⟨s, of_decide_eq_true hcalls, hs, hkept, (hcareful hs).1, (hcareful hs).2.1⟩

/-! ## Senders without a listener -/

/-- The call `k` sends to a dequeuer that has returned. -/
def Abandoned (calls : List (Call α)) (k : ℕ) : Prop :=
  ∃ value l result, calls[k]? = some (.send value l) ∧ calls[l]? = some (.dequeued result)

theorem Abandoned.set (h : Abandoned calls k) (hi : calls[i]? = some c)
    (hsend : ∀ {value l}, c = .send value l → calls[l]? = some .wait)
    (hreturned : ∀ result, c ≠ .dequeued result) (c' : Call α) : Abandoned (calls.set i c') k := by
  obtain ⟨value, l, result, hk, hl⟩ := h
  refine ⟨value, l, result, getElem?_set_of_ne_old hi hk ?_ c',
    getElem?_set_of_ne_old hi hl (hreturned result).symm c'⟩
  rintro rfl
  rw [hsend rfl] at hl
  cases hl

theorem Abandoned.call (h : Abandoned calls k) (c : Call α) : Abandoned (calls ++ [c]) k := by
  obtain ⟨value, l, result, hk, hl⟩ := h
  exact ⟨value, l, result, getElem?_concat_of_some hk c, getElem?_concat_of_some hl c⟩

theorem Step.abandoned (hstep : Step s a s') (h : Abandoned s.calls k) : Abandoned s'.calls k := by
  cases hstep with
  | callEnqueue => exact h.call _
  | callDequeue => exact h.call _
  | expire => exact h
  | listener hi hw => exact h.set hi nofun nofun _
  | noListener hi hw => exact h.set hi nofun nofun _
  | put hi hroom => exact h.set hi nofun nofun _
  | full hi hroom => exact h.set hi nofun nofun _
  | @send i listener value hi hl =>
    have hsent : Abandoned (s.calls.set i (.enqueued value none)) k := by
      refine h.set hi ?_ nofun _
      rintro v l ⟨⟩
      exact hl
    exact hsent.set (getElem?_set_of_ne_old hi hl nofun _) nofun nofun _
  | take hi hq => exact h.set hi nofun nofun _
  | empty hi hq => exact h.set hi nofun nofun _
  | register hi hroom => exact h.set hi nofun nofun _
  | crowded hi hroom => exact h.set hi nofun nofun _
  | ctxDone hi =>
    rcases hi with hi | hi
    · exact h.set hi nofun nofun _
    · exact h.set hi nofun nofun _

/-- A sender whose listener has returned never goes on. -/
theorem abandoned_forever (h : Abandoned s.calls k) (hr : Reach step Free s s') :
    Abandoned s'.calls k :=
  hr.inv (I := fun s => Abandoned s.calls k) h fun hk _ hstep => (step_cases hstep).abandoned hk

theorem Abandoned.run_eq_none (h : Abandoned s.calls k) : s.run k = none := by
  obtain ⟨value, l, result, hk, hl⟩ := h
  simp only [run, hk, runSend, hl]

/-- A dequeuer finds the queue empty, an enqueuer finds no listener, and both go on: the
    dequeuer sleeps beside the element.  And an enqueuer takes the channel of a dequeuer
    whose context has expired: it never returns. -/
theorem fifo_sleeps_or_blocks :
    (∃ s : FixedFIFO ℕ, Reach step Free (new 1) s ∧ s.done = [] ∧ ¬ AllWoken s) ∧
      ∃ s : FixedFIFO ℕ, Reach step Free (new 1) s ∧
        ∀ s', Reach step Free s s' → Abandoned s'.calls 1 ∧ s'.run 1 = none := by
  constructor
  · obtain ⟨s, hs, hP⟩ := exists_reach step Free (new 1)
      (fun s : FixedFIFO ℕ => s.done = [] ∧ s.Parked ∧ Call.wait ∈ s.calls ∧ s.queue ≠ [])
      [.callDequeue, .callEnqueue 7, .run 0, .run 1, .run 0, .run 1] (by decide)
    obtain ⟨hdone, hparked, hwait, hqueue⟩ := of_decide_eq_true hP
    exact ⟨s, hs, hdone, fun hwoken => hqueue (hwoken hparked hwait)⟩
  · obtain ⟨s, hs, hP⟩ := exists_reach step Free (new 1)
      (fun s : FixedFIFO ℕ =>
        s.calls = [.dequeued (.error "context deadline exceeded"), .send 7 0])
      [.callDequeue, .run 0, .run 0, .expire 0 "context deadline exceeded", .ctxDone 0,
        .callEnqueue 7, .run 1] (by decide)
    have hcalls := of_decide_eq_true hP
    have habandoned : Abandoned s.calls 1 := by
      rw [hcalls]
      exact ⟨7, 0, _, rfl, rfl⟩
    refine ⟨s, hs, fun s' hs' => ?_⟩
    have hlater := abandoned_forever habandoned hs'
    exact ⟨hlater, hlater.run_eq_none⟩

end FixedFIFO

end VmEngine
