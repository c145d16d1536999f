/-
  The queue of users, `FixedFIFO`, under concurrent calls.

  The queue is two channels: `queue` holds the elements, `waitForNextElementChan` the
  channels of dequeuers that found no element.  `Enqueue` asks the second channel for a
  listener before it uses the first, `DequeueOrWaitForNextElementContext` asks the first
  before it registers with the second, and no lock covers the two questions.  A step is one
  channel operation of one call.

  No element is lost or duplicated, whatever the interleaving (`kept_of_reach`).
-/
import VmEngine.Lib.System
import VmEngine.Lib.Indexed

namespace VmEngine

/-- The calls of the queue, each at its next channel operation or returned. -/
inductive FixedFIFO.Call (α : Type) where
  /-- `Enqueue`, at the outer `select` -/
  | enqueue (value : α)
  /-- `Enqueue` without a listener, at the inner `select` -/
  | put (value : α)
  /-- `Enqueue` with the channel of the call `listener`, at `listener <- value` -/
  | send (value : α) (listener : ℕ)
  | enqueued (value : α) (err : Option String)
  /-- `DequeueOrWaitForNextElementContext`, at the outer `select` -/
  | dequeue
  /-- with a `waitChan`, which it is about to register -/
  | register
  /-- registered, at the innermost `select` -/
  | wait
  | dequeued (result : Except String α)
  deriving DecidableEq

/-- The queue and the calls on it.  A dequeuer's `waitChan` is known by the number of its
    call, and `done` has the error of every context that has expired. -/
structure FixedFIFO (α : Type) where
  capacity : ℕ
  queue : List α
  waitForNextElementChan : List ℕ
  calls : List (FixedFIFO.Call α)
  done : List (ℕ × String)
  deriving DecidableEq

namespace FixedFIFO

variable {α : Type}

def waitForNextElementChanCapacity : ℕ := 4000

/-- `NewFixedFIFO`, before any call. -/
def new (capacity : ℕ) : FixedFIFO α :=
  { capacity, queue := [], waitForNextElementChan := [], calls := [], done := [] }

inductive Action (α : Type) where
  | callEnqueue (value : α)
  | callDequeue
  /-- the context of a call expires -/
  | expire (i : ℕ) (err : String)
  /-- the next operation of the call, on a channel of the queue or of a listener -/
  | run (i : ℕ)
  /-- the call's `select` takes `<-ctx.Done()` -/
  | ctxDone (i : ℕ)

/-- The call `i` goes on as `c`. -/
def goto (s : FixedFIFO α) (i : ℕ) (c : Call α) : FixedFIFO α :=
  { s with calls := s.calls.set i c }

def runEnqueue (s : FixedFIFO α) (i : ℕ) (value : α) : FixedFIFO α :=
  match s.waitForNextElementChan with
  | listener :: rest => { s with waitForNextElementChan := rest }.goto i (.send value listener)
  | [] => s.goto i (.put value)

def runPut (s : FixedFIFO α) (i : ℕ) (value : α) : FixedFIFO α :=
  if s.queue.length < s.capacity then
    { s with queue := s.queue ++ [value] }.goto i (.enqueued value none)
  else s.goto i (.enqueued value (some "FixedFIFO queue is at full capacity"))

/-- The `waitChan` is not buffered, so the sender and its listener go on together. -/
def runSend (s : FixedFIFO α) (i : ℕ) (value : α) (listener : ℕ) : Option (FixedFIFO α) :=
  match s.calls[listener]? with
  | some .wait => some ((s.goto i (.enqueued value none)).goto listener (.dequeued (.ok value)))
  | _ => none

/-- The `default` case is for an empty queue and a context that has not expired.  The
    channel `queue` is never closed. -/
def runDequeue (s : FixedFIFO α) (i : ℕ) : Option (FixedFIFO α) :=
  match s.queue with
  | value :: rest => some ({ s with queue := rest }.goto i (.dequeued (.ok value)))
  | [] => if s.done.lookup i = none then some (s.goto i .register) else none

def runRegister (s : FixedFIFO α) (i : ℕ) : FixedFIFO α :=
  if s.waitForNextElementChan.length < waitForNextElementChanCapacity then
    { s with waitForNextElementChan := s.waitForNextElementChan ++ [i] }.goto i .wait
  else s.goto i (.dequeued (.error "empty queue and can't wait for next element"))

/-- The next operation of the call `i`; `none` if it has returned or blocks. -/
def run (s : FixedFIFO α) (i : ℕ) : Option (FixedFIFO α) :=
  match s.calls[i]? with
  | some (.enqueue value) => some (s.runEnqueue i value)
  | some (.put value) => some (s.runPut i value)
  | some (.send value listener) => s.runSend i value listener
  | some .dequeue => s.runDequeue i
  | some .register => some (s.runRegister i)
  | _ => none

/-- Both blocking `select`s of a dequeuer have the case `<-ctx.Done()`. -/
def ctxDone (s : FixedFIFO α) (i : ℕ) : Option (FixedFIFO α) :=
  match s.calls[i]? with
  | some .dequeue | some .wait => (s.done.lookup i).map fun err => s.goto i (.dequeued (.error err))
  | _ => none

def step (s : FixedFIFO α) : Action α → Option (FixedFIFO α)
  | .callEnqueue value => some { s with calls := s.calls ++ [.enqueue value] }
  | .callDequeue => some { s with calls := s.calls ++ [.dequeue] }
  | .expire i err => some { s with done := s.done ++ [(i, err)] }
  | .run i => s.run i
  | .ctxDone i => s.ctxDone i

/-! ## What the queue is for -/

/-- The value of an `Enqueue` that returned `nil`. -/
def Call.accepted : Call α → Option α
  | .enqueued value none => some value
  | _ => none

/-- The value that a dequeuer returned. -/
def Call.returned : Call α → Option α
  | .dequeued (.ok value) => some value
  | _ => none

/-- Each accepted value is in the queue or was returned by one dequeuer. -/
def Kept (s : FixedFIFO α) : Prop :=
  (s.calls.filterMap Call.accepted).Perm (s.queue ++ s.calls.filterMap Call.returned)

/-- No call can go on. -/
def Parked (s : FixedFIFO α) : Prop :=
  ∀ i < s.calls.length, s.run i = none ∧ s.ctxDone i = none

instance (s : FixedFIFO α) : Decidable s.Parked :=
  inferInstanceAs (Decidable (∀ i < s.calls.length, s.run i = none ∧ s.ctxDone i = none))

/-- No dequeuer sleeps beside an element. -/
def AllWoken (s : FixedFIFO α) : Prop := s.Parked → Call.wait ∈ s.calls → s.queue = []

/-- Whoever sends has a listener that receives. -/
def NeverBlocks (s : FixedFIFO α) : Prop :=
  ∀ {i listener : ℕ} {value : α}, s.calls[i]? = some (.send value listener) →
    s.calls[listener]? = some .wait

/-! ## What a step does -/

/-- The steps, with what they find. -/
inductive Step (s : FixedFIFO α) : Action α → FixedFIFO α → Prop
  | callEnqueue {value : α} :
      Step s (.callEnqueue value) { s with calls := s.calls ++ [.enqueue value] }
  | callDequeue : Step s .callDequeue { s with calls := s.calls ++ [.dequeue] }
  | expire {i : ℕ} {err : String} : Step s (.expire i err) { s with done := s.done ++ [(i, err)] }
  | listener {i listener : ℕ} {value : α} {rest : List ℕ} (hi : s.calls[i]? = some (.enqueue value))
      (hw : s.waitForNextElementChan = listener :: rest) :
      Step s (.run i) ({ s with waitForNextElementChan := rest }.goto i (.send value listener))
  | noListener {i : ℕ} {value : α} (hi : s.calls[i]? = some (.enqueue value))
      (hw : s.waitForNextElementChan = []) : Step s (.run i) (s.goto i (.put value))
  | put {i : ℕ} {value : α} (hi : s.calls[i]? = some (.put value))
      (hroom : s.queue.length < s.capacity) :
      Step s (.run i) ({ s with queue := s.queue ++ [value] }.goto i (.enqueued value none))
  | full {i : ℕ} {value : α} {err : String} (hi : s.calls[i]? = some (.put value))
      (hroom : ¬ s.queue.length < s.capacity) :
      Step s (.run i) (s.goto i (.enqueued value (some err)))
  | send {i listener : ℕ} {value : α} (hi : s.calls[i]? = some (.send value listener))
      (hl : s.calls[listener]? = some .wait) :
      Step s (.run i) ((s.goto i (.enqueued value none)).goto listener (.dequeued (.ok value)))
  | take {i : ℕ} {value : α} {rest : List α} (hi : s.calls[i]? = some .dequeue)
      (hq : s.queue = value :: rest) :
      Step s (.run i) ({ s with queue := rest }.goto i (.dequeued (.ok value)))
  | empty {i : ℕ} (hi : s.calls[i]? = some .dequeue) (hq : s.queue = []) :
      Step s (.run i) (s.goto i .register)
  | register {i : ℕ} (hi : s.calls[i]? = some .register)
      (hroom : s.waitForNextElementChan.length < waitForNextElementChanCapacity) :
      Step s (.run i)
        ({ s with waitForNextElementChan := s.waitForNextElementChan ++ [i] }.goto i .wait)
  | crowded {i : ℕ} {err : String} (hi : s.calls[i]? = some .register)
      (hroom : ¬ s.waitForNextElementChan.length < waitForNextElementChanCapacity) :
      Step s (.run i) (s.goto i (.dequeued (.error err)))
  | ctxDone {i : ℕ} {err : String} (hi : s.calls[i]? = some .dequeue ∨ s.calls[i]? = some .wait) :
      Step s (.ctxDone i) (s.goto i (.dequeued (.error err)))

variable {s s' : FixedFIFO α} {a : Action α} {i : ℕ}

theorem step_of_run (h : s.run i = some s') : Step s (.run i) s' := by
  unfold run at h
  split at h
  case h_1 value hi =>
    cases h
    unfold runEnqueue
    split
    case h_1 hw => exact .listener hi hw
    case h_2 hw => exact .noListener hi hw
  case h_2 value hi =>
    cases h
    unfold runPut
    split_ifs with hroom
    · exact .put hi hroom
    · exact .full hi hroom
  case h_3 value listener hi =>
    unfold runSend at h
    split at h
    · cases h
      exact .send hi ‹_›
    · cases h
  case h_4 hi =>
    unfold runDequeue at h
    split at h
    · cases h
      exact .take hi ‹_›
    · split_ifs at h
      cases h
      exact .empty hi ‹_›
  case h_5 hi =>
    cases h
    unfold runRegister
    split_ifs with hroom
    · exact .register hi hroom
    · exact .crowded hi hroom
  case h_6 => cases h

theorem step_of_ctxDone (h : s.ctxDone i = some s') : Step s (.ctxDone i) s' := by
  unfold ctxDone at h
  split at h
  · obtain ⟨err, -, rfl⟩ := Option.map_eq_some_iff.1 h
    exact .ctxDone (Or.inl ‹_›)
  · obtain ⟨err, -, rfl⟩ := Option.map_eq_some_iff.1 h
    exact .ctxDone (Or.inr ‹_›)
  · cases h

theorem step_cases (h : s.step a = some s') : Step s a s' := by
  cases a with
  | callEnqueue value =>
    cases h
    exact .callEnqueue
  | callDequeue =>
    cases h
    exact .callDequeue
  | expire i err =>
    cases h
    exact .expire
  | run i => exact step_of_run h
  | ctxDone i => exact step_of_ctxDone h

/-! ## Elements -/

theorem Kept.call {c : Call α} (h : Kept s) (ha : c.accepted = none) (hr : c.returned = none) :
    Kept { s with calls := s.calls ++ [c] } := by
  unfold Kept
  rw [List.filterMap_append, List.filterMap_append, List.filterMap_cons_none ha,
    List.filterMap_cons_none hr, List.filterMap_nil, List.append_nil, List.filterMap_nil,
    List.append_nil]
  exact h

/-- A call that goes on as `c` settles its own element and no other. -/
theorem Kept.goto {c c' : Call α} {queue : List α} {waiters : List ℕ} (h : Kept s)
    (hi : s.calls[i]? = some c) (ha : c.accepted = none) (hr : c.returned = none)
    (hmoved : (c'.accepted.toList ++ s.queue).Perm (queue ++ c'.returned.toList)) :
    Kept ({ s with queue := queue, waitForNextElementChan := waiters }.goto i c') := by
  have haccepted := filterMap_set_of_none Call.accepted hi ha c'
  have hreturned := filterMap_set_of_none Call.returned hi hr c'
  calc (s.calls.set i c').filterMap Call.accepted
      _ |>.Perm (c'.accepted.toList ++ s.calls.filterMap Call.accepted) := haccepted
      _ |>.Perm (c'.accepted.toList ++ (s.queue ++ s.calls.filterMap Call.returned)) :=
        List.Perm.append_left _ h
      _ |>.Perm (queue ++ (c'.returned.toList ++ s.calls.filterMap Call.returned)) := by
        rw [← List.append_assoc, ← List.append_assoc]
        exact hmoved.append_right _
      _ |>.Perm (queue ++ (s.calls.set i c').filterMap Call.returned) :=
        List.Perm.append_left _ hreturned.symm

theorem Kept.settles_none {c c' : Call α} {waiters : List ℕ} (h : Kept s)
    (hi : s.calls[i]? = some c) (ha : c.accepted = none) (hr : c.returned = none)
    (ha' : c'.accepted = none) (hr' : c'.returned = none) :
    Kept ({ s with waitForNextElementChan := waiters }.goto i c') := by
  refine h.goto hi ha hr ?_
  rw [ha', hr', Option.toList_none, List.append_nil, List.nil_append]

/-- The element goes from the enqueuer to the dequeuer. -/
theorem Kept.send {value : α} {listener : ℕ} (h : Kept s)
    (hi : s.calls[i]? = some (.send value listener)) (hl : s.calls[listener]? = some .wait) :
    Kept ((s.goto i (.enqueued value none)).goto listener (.dequeued (.ok value))) := by
  have hl' := getElem?_set_of_ne_old hi hl nofun (.enqueued value none)
  have haccepted : ((s.calls.set i (.enqueued value none)).set listener
      (.dequeued (.ok value))).filterMap Call.accepted |>.Perm
      (value :: s.calls.filterMap Call.accepted) :=
    (filterMap_set_of_none Call.accepted hl' rfl _).trans
      (filterMap_set_of_none Call.accepted hi rfl _)
  have hreturned : ((s.calls.set i (.enqueued value none)).set listener
      (.dequeued (.ok value))).filterMap Call.returned |>.Perm
      (value :: s.calls.filterMap Call.returned) :=
    (filterMap_set_of_none Call.returned hl' rfl _).trans
      ((filterMap_set_of_none Call.returned hi rfl _).cons value)
  exact haccepted.trans ((h.cons value).trans
    (List.perm_middle.symm.trans (hreturned.symm.append_left s.queue)))

theorem Step.kept (hstep : Step s a s') (h : Kept s) : Kept s' := by
  cases hstep with
  | callEnqueue => exact h.call rfl rfl
  | callDequeue => exact h.call rfl rfl
  | expire => exact h
  | listener hi hw => exact h.settles_none hi rfl rfl rfl rfl
  | noListener hi hw => exact h.settles_none hi rfl rfl rfl rfl
  | put hi hroom =>
    refine h.goto hi rfl rfl ?_
    show (_ :: s.queue).Perm (s.queue ++ [_] ++ [])
    rw [List.append_nil]
    exact (List.perm_append_singleton _ s.queue).symm
  | full hi hroom => exact h.settles_none hi rfl rfl rfl rfl
  | send hi hl => exact h.send hi hl
  | take hi hq =>
    refine h.goto hi rfl rfl ?_
    rw [hq]
    exact (List.perm_append_singleton _ _).symm
  | empty hi hq => exact h.settles_none hi rfl rfl rfl rfl
  | register hi hroom => exact h.settles_none hi rfl rfl rfl rfl
  | crowded hi hroom => exact h.settles_none hi rfl rfl rfl rfl
  | ctxDone hi =>
    rcases hi with hi | hi
    · exact h.settles_none hi rfl rfl rfl rfl
    · exact h.settles_none hi rfl rfl rfl rfl

theorem kept_of_reach {capacity : ℕ} (h : Reach step Free (new capacity) s) : Kept s := by
  refine h.inv (I := Kept) ?_ fun hk _ hstep => (step_cases hstep).kept hk
  exact List.Perm.nil

end FixedFIFO

end VmEngine
