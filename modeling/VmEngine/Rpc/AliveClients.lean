/-
  Which clients are in `aliveClientMap`.

  A client whose receive routine runs is in the map, or its goroutine still has to put it
  there.  A client whose routine has stopped leaves the map when its event is handled.  The
  one exception: the event is handled while the goroutine of the client stands between
  `Start` and the insertion.  Then nothing is dropped, and the dead client is inserted
  afterwards and stays.  This happens to clients of `reconnect` only, since `listen` starts
  after all clients of `establishConnections` are in the map.
-/
import VmEngine.Rpc.ClientManager

namespace VmEngine.Rpc

/-- The client for which the goroutine calls `Start`, or which it has to insert. -/
def Connector.holds (c : Connector) : Option ℕ :=
  match c.phase with
  | .starting id | .inserting id => some id
  | _ => none

namespace ContractEngineClientManager
variable {cm cm' : ContractEngineClientManager} {a : Action} {early : List ℕ} {id g : ℕ}

/-- The clients whose events were handled before they were inserted. -/
def noteEarly (early : List ℕ) (cm : ContractEngineClientManager) : Action → List ℕ
  | .dropConnection =>
    match cm.listener with
    | .handling id => if cm.Inserting id then early ++ [id] else early
    | _ => early
  | _ => early

/-- A step with the list of the clients that were dropped too early. -/
def earlyStep : ContractEngineClientManager × List ℕ → Action →
    Option (ContractEngineClientManager × List ℕ) :=
  monitor (fun cm a => (step cm a).map (·, ())) fun early cm a _ => noteEarly early cm a

/-- All events were handled, and no client is between `Start` and its insertion. -/
structure Settled (cm : ContractEngineClientManager) : Prop where
  events : cm.events = []
  inserted : ∀ id, ¬ cm.Inserting id

/-- The map holds exactly the clients that receive. -/
structure Exact (cm : ContractEngineClientManager) : Prop where
  alive : ∀ id, id ∈ cm.aliveClientMap ↔ cm.Receiving id
  active : cm.hasActiveConnections = true → ∃ id, cm.Receiving id

theorem exact_iff : cm.Exact ↔ ∀ id, id ∈ cm.aliveClientMap ↔ cm.Receiving id := by
  refine ⟨Exact.alive, fun h => ⟨h, fun hact => ?_⟩⟩
  obtain ⟨id, hid⟩ := Finset.card_pos.1 (of_decide_eq_true hact)
  exact ⟨id, (h id).1 hid⟩

end ContractEngineClientManager

/-! ## Goroutines -/

section
variable {cs rest : List Connector} {c c' : Connector} {phase : Phase} {id g : ℕ}

/-- A goroutine stands at the phase. -/
def Stands (cs : List Connector) (phase : Phase) : Prop := ∃ c ∈ cs, c.phase = phase

/-- One goroutine goes on: the phases that belong to a client. -/
theorem stands_set (hg : cs[g]? = some c) (hnd : (cs.filterMap Connector.holds).Nodup)
    (hphase : phase = .starting id ∨ phase = .inserting id) :
    Stands (cs.set g c') phase ↔ c'.phase = phase ∨ (Stands cs phase ∧ c.phase ≠ phase) := by
  obtain ⟨rest, hperm, hset, -⟩ := exists_rest hg
  have hholds : ∀ x : Connector, x.phase = phase → x.holds = some id := by
    intro x hx
    rcases hphase with rfl | rfl <;> simp [Connector.holds, hx]
  have hrest : c.phase = phase → ∀ x ∈ rest, x.phase ≠ phase := by
    intro hc x hx hxp
    have hnd' := (hperm.filterMap Connector.holds).nodup_iff.1 hnd
    rw [List.filterMap_cons_some (hholds c hc), List.nodup_cons] at hnd'
    exact hnd'.1 (List.mem_filterMap.2 ⟨x, hx, hholds x hxp⟩)
  simp only [Stands, (hset c').mem_iff, hperm.mem_iff, List.mem_cons, exists_eq_or_imp]
  constructor
  · rintro (hc' | ⟨x, hx, hxp⟩)
    · exact Or.inl hc'
    · exact Or.inr ⟨Or.inr ⟨x, hx, hxp⟩, fun hc => hrest hc x hx hxp⟩
  · rintro (hc' | ⟨hc | hx, hne⟩)
    · exact Or.inl hc'
    · exact absurd hc hne
    · exact Or.inr hx

/-- It holds the same client, none, or a new one. -/
theorem holds_set (hg : cs[g]? = some c) (hnd : (cs.filterMap Connector.holds).Nodup)
    (hc' : ∀ id, c'.holds = some id → c.holds = some id ∨ id ∉ cs.filterMap Connector.holds) :
    ((cs.set g c').filterMap Connector.holds).Nodup := by
  obtain ⟨rest, hperm, hset, -⟩ := exists_rest hg
  have hnd' := (hperm.filterMap Connector.holds).nodup_iff.1 hnd
  refine ((hset c').filterMap Connector.holds).nodup_iff.2 ?_
  have hrest : (rest.filterMap Connector.holds).Nodup :=
    hnd'.sublist ((List.sublist_cons_self c rest).filterMap _)
  cases hh : c'.holds with
  | none => rwa [List.filterMap_cons_none hh]
  | some id =>
    rw [List.filterMap_cons_some hh, List.nodup_cons]
    refine ⟨fun hid => ?_, hrest⟩
    rcases hc' id hh with hc | hnew
    · rw [List.filterMap_cons_some hc, List.nodup_cons] at hnd'
      exact hnd'.1 hid
    · refine hnew ((hperm.filterMap Connector.holds).mem_iff.2 ?_)
      exact ((List.sublist_cons_self c rest).filterMap Connector.holds).subset hid

end

/-! ## The books -/

/-- The receive routine has not returned. -/
def Receives (clients : List Routine) (id : ℕ) : Prop :=
  clients[id]? = some .running ∨ clients[id]? = some .stopping

/-- What the map, the goroutines and the events say about the clients. -/
structure Books (clients : List Routine) (cs : List Connector) (alive : Finset ℕ)
    (events early : List ℕ) : Prop where
  present : ∀ id, (id ∈ alive ∨ Stands cs (.inserting id)) ↔
    (Receives clients id ∨ id ∈ events ∨ id ∈ early)
  once : ∀ id ∈ alive, ¬ Stands cs (.inserting id)
  nodup : events.Nodup
  stopped : ∀ id ∈ events, clients[id]? = some .stopped ∧ id ∉ early
  dead : ∀ id ∈ early, clients[id]? = some .stopped
  holds : (cs.filterMap Connector.holds).Nodup
  starting : ∀ id, Stands cs (.starting id) → clients[id]? = some .created

namespace Books
variable {clients : List Routine} {cs : List Connector} {alive : Finset ℕ} {events early : List ℕ}
  {id g : ℕ} {b : Bool}

theorem start (n : ℕ) : Books [] (List.replicate n ⟨true, .indexing⟩) ∅ [] [] where
  present id := by simp [Stands, Receives]
  once id h := by simp at h
  nodup := List.nodup_nil
  stopped id h := by simp at h
  dead id h := by simp at h
  holds := by
    have hnil : (List.replicate n (⟨true, .indexing⟩ : Connector)).filterMap Connector.holds = [] := by
      simp [List.filterMap_eq_nil_iff, Connector.holds]
    rw [hnil]
    exact List.nodup_nil
  starting id h := by simp [Stands] at h

/-- A client that was not started is present in no way. -/
theorem not_present (h : Books clients cs alive events early)
    (hid : clients[id]? = none ∨ clients[id]? = some .created) :
    id ∉ alive ∧ ¬ Stands cs (.inserting id) := by
  have hno : ¬ (Receives clients id ∨ id ∈ events ∨ id ∈ early) := by
    rintro (hr | hev | he)
    · rcases hid with hid | hid <;> simp [Receives, hid] at hr
    · have := (h.stopped id hev).1
      rcases hid with hid | hid <;> simp [hid] at this
    · have := h.dead id he
      rcases hid with hid | hid <;> simp [hid] at this
  rwa [← h.present, not_or] at hno

theorem holds_lt (h : Books clients cs alive events early)
    (hid : id ∈ cs.filterMap Connector.holds) : id < clients.length := by
  obtain ⟨c, hc, hh⟩ := List.mem_filterMap.1 hid
  by_contra hge
  have hnone : clients[id]? = none := List.getElem?_eq_none (by omega)
  cases hp : c.phase with
  | starting id' =>
    simp only [Connector.holds, hp, Option.some.injEq] at hh
    have := h.starting id' ⟨c, hc, hp⟩
    rw [hh, hnone] at this
    cases this
  | inserting id' =>
    simp only [Connector.holds, hp, Option.some.injEq] at hh
    exact (h.not_present (Or.inl hnone)).2 ⟨c, hc, hh ▸ hp⟩
  | _ => simp [Connector.holds, hp] at hh

/-! ## Steps -/

/-- A goroutine takes the next index. -/
theorem getNextIndex (h : Books clients cs alive events early) (hg : cs[g]? = some ⟨b, .indexing⟩) :
    Books (clients ++ [.created]) (cs.set g ⟨b, .starting clients.length⟩) alive events early := by
  have hins : ∀ id, Stands (cs.set g ⟨b, .starting clients.length⟩) (.inserting id) ↔
      Stands cs (.inserting id) := by
    intro id
    rw [stands_set hg h.holds (Or.inr rfl)]
    simp
  have hrec : ∀ id, Receives (clients ++ [.created]) id ↔ Receives clients id := by
    intro id
    simp only [Receives, getElem?_concat]
    split_ifs with hid
    · simp [hid]
    · rfl
  refine ⟨fun id => ?_, fun id hid => ?_, h.nodup, fun id hid => ?_, fun id hid => ?_, ?_, ?_⟩
  · rw [hins, hrec]
    exact h.present id
  · rw [hins]
    exact h.once id hid
  · exact ⟨getElem?_concat_of_some (h.stopped id hid).1 _, (h.stopped id hid).2⟩
  · exact getElem?_concat_of_some (h.dead id hid) _
  · refine holds_set hg h.holds fun id hid => Or.inr fun hold => ?_
    have hlt := h.holds_lt hold
    simp only [Connector.holds, Option.some.injEq] at hid
    omega
  · intro id hid
    rw [stands_set hg h.holds (Or.inl rfl)] at hid
    rcases hid with hid | ⟨hid, -⟩
    · cases hid
      exact List.getElem?_concat_length
    · exact getElem?_concat_of_some (h.starting id hid) _

/-- `Start` succeeds. -/
theorem started (h : Books clients cs alive events early) (hg : cs[g]? = some ⟨b, .starting id⟩) :
    Books (clients.set id .running) (cs.set g ⟨b, .inserting id⟩) alive events early := by
  have hid := h.starting id ⟨_, List.mem_of_getElem? hg, rfl⟩
  obtain ⟨hnot, hnoti⟩ := h.not_present (Or.inr hid)
  have hins : ∀ id', Stands (cs.set g ⟨b, .inserting id⟩) (.inserting id') ↔
      id' = id ∨ Stands cs (.inserting id') := by
    intro id'
    rw [stands_set hg h.holds (Or.inr rfl)]
    simp [eq_comm]
  refine ⟨fun id' => ?_, fun id' hal => ?_, h.nodup, fun id' hev => ?_, fun id' he => ?_, ?_, ?_⟩
  · rcases eq_or_ne id' id with rfl | hne
    · simp [hins, Receives, getElem?_set_self_of_some hid]
    · have := h.present id'
      simp only [Receives] at this
      simpa [hins, hne, Receives, List.getElem?_set_ne hne.symm] using this
  · have hne : id' ≠ id := by
      rintro rfl
      exact hnot hal
    simp [hins, hne, h.once id' hal]
  · obtain ⟨hs, hne⟩ := h.stopped id' hev
    exact ⟨getElem?_set_of_ne_old hid hs (by decide) _, hne⟩
  · exact getElem?_set_of_ne_old hid (h.dead id' he) (by decide) _
  · exact holds_set hg h.holds fun id' hid' => Or.inl hid'
  · intro id' hst
    rw [stands_set hg h.holds (Or.inl rfl)] at hst
    rcases hst with hst | ⟨hst, hne⟩
    · cases hst
    · rw [List.getElem?_set_ne]
      · exact h.starting id' hst
      · rintro rfl
        exact hne rfl

/-- The manager was stopped. -/
theorem giveUp (h : Books clients cs alive events early) (hg : cs[g]? = some ⟨b, .starting id⟩) :
    Books clients (cs.set g ⟨b, .gaveUp⟩) alive events early := by
  have hins : ∀ id', Stands (cs.set g ⟨b, .gaveUp⟩) (.inserting id') ↔ Stands cs (.inserting id') := by
    intro id'
    rw [stands_set hg h.holds (Or.inr rfl)]
    simp
  refine ⟨fun id' => ?_, fun id' hal => ?_, h.nodup, h.stopped, h.dead, ?_, fun id' hst => ?_⟩
  · rw [hins]
    exact h.present id'
  · rw [hins]
    exact h.once id' hal
  · exact holds_set hg h.holds fun id' hid' => by simp [Connector.holds] at hid'
  · rw [stands_set hg h.holds (Or.inl rfl)] at hst
    rcases hst with hst | ⟨hst, -⟩
    · cases hst
    · exact h.starting id' hst

/-- The client comes into the map. -/
theorem insert (h : Books clients cs alive events early) (hg : cs[g]? = some ⟨b, .inserting id⟩) :
    Books clients (cs.set g ⟨b, .inserted id⟩) (Insert.insert id alive) events early := by
  have hins : ∀ id', Stands (cs.set g ⟨b, .inserted id⟩) (.inserting id') ↔
      Stands cs (.inserting id') ∧ id ≠ id' := by
    intro id'
    rw [stands_set hg h.holds (Or.inr rfl)]
    simp
  have hself : Stands cs (.inserting id) := ⟨_, List.mem_of_getElem? hg, rfl⟩
  refine ⟨fun id' => ?_, fun id' hal => ?_, h.nodup, h.stopped, h.dead, ?_, fun id' hst => ?_⟩
  · rw [← h.present, hins, Finset.mem_insert]
    rcases eq_or_ne id' id with rfl | hne
    · simp [hself]
    · simp [hne, hne.symm]
  · rw [hins]
    rintro ⟨hst, hne⟩
    rcases Finset.mem_insert.1 hal with rfl | hal
    · exact hne rfl
    · exact h.once id' hal hst
  · exact holds_set hg h.holds fun id' hid' => by simp [Connector.holds] at hid'
  · rw [stands_set hg h.holds (Or.inl rfl)] at hst
    rcases hst with hst | ⟨hst, -⟩
    · cases hst
    · exact h.starting id' hst

/-- The loop of a receive routine ends. -/
theorem receiveEnd (h : Books clients cs alive events early) (hid : clients[id]? = some .running) :
    Books (clients.set id .stopping) cs alive events early := by
  have hrec : ∀ id', Receives (clients.set id .stopping) id' ↔ Receives clients id' := by
    intro id'
    rcases eq_or_ne id' id with rfl | hne
    · simp [Receives, getElem?_set_self_of_some hid, hid]
    · simp [Receives, List.getElem?_set_ne hne.symm]
  refine ⟨fun id' => ?_, h.once, h.nodup, fun id' hev => ?_, fun id' he => ?_, h.holds, ?_⟩
  · rw [hrec]
    exact h.present id'
  · obtain ⟨hs, hne⟩ := h.stopped id' hev
    exact ⟨getElem?_set_of_ne_old hid hs (by decide) _, hne⟩
  · exact getElem?_set_of_ne_old hid (h.dead id' he) (by decide) _
  · intro id' hst
    exact getElem?_set_of_ne_old hid (h.starting id' hst) (by decide) _

/-- The event of the routine. -/
theorem putEvent (h : Books clients cs alive events early) (hid : clients[id]? = some .stopping) :
    Books (clients.set id .stopped) cs alive (events ++ [id]) early := by
  have hself : (clients.set id .stopped)[id]? = some .stopped := getElem?_set_self_of_some hid _
  have hev : id ∉ events := by
    intro hev
    have := (h.stopped id hev).1
    rw [hid] at this
    cases this
  have he : id ∉ early := by
    intro he
    have := h.dead id he
    rw [hid] at this
    cases this
  refine ⟨fun id' => ?_, h.once, ?_, fun id' hev' => ?_, fun id' he' => ?_, h.holds, ?_⟩
  · rw [h.present]
    rcases eq_or_ne id' id with rfl | hne
    · simp [Receives, hself, hid]
    · simp [Receives, List.getElem?_set_ne hne.symm, hne]
  · exact (List.nodup_append.2 ⟨h.nodup, List.nodup_singleton _, by
      rintro x hx y hy rfl
      exact hev (List.mem_singleton.1 hy ▸ hx)⟩)
  · rcases List.mem_append.1 hev' with hev' | hev'
    · obtain ⟨hs, hne⟩ := h.stopped id' hev'
      exact ⟨getElem?_set_of_ne_old hid hs (by decide) _, hne⟩
    · rw [List.mem_singleton.1 hev']
      exact ⟨hself, he⟩
  · exact getElem?_set_of_ne_old hid (h.dead id' he') (by decide) _
  · intro id' hst
    exact getElem?_set_of_ne_old hid (h.starting id' hst) (by decide) _

/-- The event is handled: the client leaves the map, unless it is still to be inserted. -/
theorem drop (h : Books clients cs alive (id :: events) early)
    (_ : Decidable (Stands cs (.inserting id))) :
    Books clients (cs ++ [⟨false, .indexing⟩]) (alive.erase id) events
      (if Stands cs (.inserting id) then early ++ [id] else early) := by
  have hstands : ∀ phase, phase ≠ .indexing →
      (Stands (cs ++ [⟨false, .indexing⟩]) phase ↔ Stands cs phase) := by
    intro phase hne
    simp [Stands, or_and_right, exists_or, hne.symm]
  obtain ⟨hid, hnd⟩ := List.nodup_cons.1 h.nodup
  obtain ⟨hstop, hearly⟩ := h.stopped id List.mem_cons_self
  have hrec : ¬ Receives clients id := by simp [Receives, hstop]
  have hmem : ∀ id', id' ∈ (if Stands cs (.inserting id) then early ++ [id] else early) ↔
      id' ∈ early ∨ (id' = id ∧ Stands cs (.inserting id)) := by
    intro id'
    split_ifs with hs <;> simp [hs]
  refine ⟨fun id' => ?_, fun id' hal => ?_, hnd, fun id' hev => ?_, fun id' he => ?_, ?_, ?_⟩
  · have := h.present id'
    rw [hstands _ (by simp), hmem, Finset.mem_erase]
    rcases eq_or_ne id' id with rfl | hne
    · simp [hrec, hid, hearly]
    · simpa [hne] using this
  · rw [hstands _ (by simp)]
    exact h.once id' (Finset.mem_of_mem_erase hal)
  · obtain ⟨hs, hne⟩ := h.stopped id' (List.mem_cons_of_mem _ hev)
    refine ⟨hs, fun he => ?_⟩
    rcases (hmem id').1 he with he | ⟨rfl, -⟩
    · exact hne he
    · exact hid hev
  · rcases (hmem id').1 he with he | ⟨rfl, -⟩
    · exact h.dead id' he
    · exact hstop
  · rw [List.filterMap_append, List.filterMap_cons_none (by simp [Connector.holds])]
    simpa using h.holds
  · intro id' hst
    rw [hstands _ (by simp)] at hst
    exact h.starting id' hst

end Books

/-! ## Runs -/

namespace ContractEngineClientManager
variable {cm cm' : ContractEngineClientManager} {a : Action} {early : List ℕ} {id : ℕ}

/-- What holds of every state of a run. -/
structure Inv (s : ContractEngineClientManager × List ℕ) : Prop where
  books : Books s.1.clients s.1.connectors s.1.aliveClientMap s.1.events s.2
  established : s.1.listener ≠ .notStarted → s.1.Established

theorem inv_start (n : ℕ) : Inv (start n, []) :=
  ⟨Books.start n, fun h => absurd rfl h⟩

/-- The goroutines of `establishConnections` are done once `listen` runs, so it is one of
    `reconnect` that goes on. -/
theorem Established.set {g : ℕ} {c : Connector} {phase : Phase} (h : cm.Established)
    (hg : cm.connectors[g]? = some c) (hc : c.phase.isInserted = false) :
    ∀ x ∈ cm.connectors.set g ⟨c.initial, phase⟩, x.initial = true → x.phase.isInserted = true := by
  intro x hx hi
  rcases List.mem_or_eq_of_mem_set hx with hx | rfl
  · exact h x hx hi
  · have := h c (List.mem_of_getElem? hg) hi
    rw [hc] at this
    cases this

theorem Inv.effect (h : Inv (cm, early)) (he : Effect cm a cm') :
    Inv (cm', noteEarly early cm a) := by
  have hb : Books cm.clients cm.connectors cm.aliveClientMap cm.events early := h.books
  have hest : cm.listener ≠ .notStarted → cm.Established := h.established
  cases he with
  | getNextIndex hg => exact ⟨hb.getNextIndex hg, fun hl => (hest hl).set hg rfl⟩
  | started hg => exact ⟨hb.started hg, fun hl => (hest hl).set hg rfl⟩
  | retry => exact h
  | giveUp hg => exact ⟨hb.giveUp hg, fun hl => (hest hl).set hg rfl⟩
  | insert hg => exact ⟨hb.insert hg, fun hl => (hest hl).set hg rfl⟩
  | receiveEnd hid => exact ⟨hb.receiveEnd hid, hest⟩
  | @putEvent id hid =>
    refine ⟨?_, hest⟩
    have hev : { cm with
        clients := cm.clients.set id .stopped, eventCh := cm.eventCh ++ [id] }.events =
          cm.events ++ [id] := by
      simp only [events]
      split <;> simp
    rw [hev]
    exact hb.putEvent hid
  | listen hl he =>
    refine ⟨?_, fun _ => he⟩
    have hev : cm.events = cm.eventCh := by simp only [events, hl]
    rw [hev] at hb
    exact hb
  | recvEvent hl hev =>
    refine ⟨?_, fun _ => hest (by rw [hl]; simp)⟩
    have hev' : cm.events = cm.eventCh := by simp only [events, hl]
    rw [hev', hev] at hb
    exact hb
  | @dropConnection id hl =>
    have hev : cm.events = id :: cm.eventCh := by simp only [events, hl]
    rw [hev] at hb
    have hnote : noteEarly early cm .dropConnection =
        if cm.Inserting id then early ++ [id] else early := by simp only [noteEarly, hl]
    refine ⟨?_, fun _ c hc hi => ?_⟩
    · rw [hnote]
      exact hb.drop (inferInstanceAs (Decidable (cm.Inserting id)))
    · rcases List.mem_append.1 hc with hc | hc
      · exact hest (by rw [hl]; simp) c hc hi
      · rw [List.mem_singleton.1 hc] at hi
        cases hi
  | stop => exact ⟨hb, hest⟩

theorem Inv.step {s s' : ContractEngineClientManager × List ℕ} (h : Inv s)
    (hs : earlyStep s a = some s') : Inv s' := by
  obtain ⟨⟨⟩, hmap, hearly⟩ := monitor_eq_some hs
  obtain ⟨cm', hcm, hpair⟩ := Option.map_eq_some_iff.1 hmap
  obtain rfl : cm' = s'.1 := congrArg Prod.fst hpair
  have hinv := Inv.effect h (step_effect hcm)
  rw [← hearly] at hinv
  exact hinv

theorem inv_of_reach {n : ℕ} {s : ContractEngineClientManager × List ℕ}
    (h : Reach earlyStep Free (start n, []) s) : Inv s :=
  h.inv (inv_start n) fun hinv _ hs => hinv.step hs

/-- **Connection bookkeeping.**  In every state of every run in which all events were handled
    and no client is between `Start` and its insertion, `aliveClientMap` holds exactly the
    clients that receive if and only if no event was handled before its client was inserted. -/
theorem alive_exact_iff {n : ℕ} (h : Reach earlyStep Free (start n, []) (cm, early))
    (hs : cm.Settled) : cm.Exact ↔ early = [] := by
  obtain ⟨hb, -⟩ := inv_of_reach h
  have halive : ∀ id, id ∈ cm.aliveClientMap ↔ cm.Receiving id ∨ id ∈ early := by
    intro id
    have hp := hb.present id
    have hev : (cm, early).1.events = [] := hs.events
    have hins : ¬ Stands (cm, early).1.connectors (.inserting id) := hs.inserted id
    rw [hev] at hp
    simp only [hins, or_false, List.not_mem_nil, false_or] at hp
    exact hp
  rw [exact_iff]
  constructor
  · intro hex
    rw [List.eq_nil_iff_forall_not_mem]
    intro id hid
    have hrec : cm.Receiving id := (hex id).1 ((halive id).2 (Or.inr hid))
    have hdead : cm.clients[id]? = some .stopped := hb.dead id hid
    simp [Receiving, hdead] at hrec
  · rintro rfl id
    simpa using halive id

/-- Only clients of `reconnect` can be dropped too early. -/
theorem early_of_reconnect {n : ℕ} (h : Reach earlyStep Free (start n, []) (cm, early))
    (hl : cm.listener = .handling id) {c : Connector} (hc : c ∈ cm.connectors)
    (hid : c.phase = .inserting id) : c.initial = false := by
  by_contra hi
  have hins := (inv_of_reach h).established (by rw [hl]; simp) c hc (by simpa using hi)
  rw [hid] at hins
  cases hins

/-- The only client is connected and inserted. -/
theorem alive_exact_connected : ∃ cm early, Reach earlyStep Free (start 1, []) (cm, early) ∧
    cm.aliveClientMap = {0} ∧ cm.Settled ∧ cm.Exact := by
  obtain ⟨⟨cm, early⟩, hr, hP⟩ := exists_reach earlyStep Free (start 1, [])
    (fun s => s.2 = [] ∧ s.1.aliveClientMap = {0} ∧ s.1.events = [] ∧
      s.1.connectors = [⟨true, .inserted 0⟩])
    [.getNextIndex 0, .startClient 0 true, .insert 0] (by decide)
  obtain ⟨he, hal, hev, hcs⟩ := of_decide_eq_true hP
  have hs : cm.Settled := ⟨hev, by
    rintro id ⟨c, hc, hid⟩
    rw [show cm.connectors = _ from hcs, List.mem_singleton] at hc
    rw [hc] at hid
    cases hid⟩
  exact ⟨cm, early, hr, hal, hs, (alive_exact_iff hr hs).2 he⟩

/-- The connection is lost, the new client stops before it is inserted, and its event is
    handled first: the map holds a client although no client receives. -/
theorem alive_dead_client : ∃ cm early, Reach earlyStep Free (start 1, []) (cm, early) ∧
    cm.Settled ∧ cm.clients = [.stopped, .stopped] ∧ cm.aliveClientMap = {1} ∧
    cm.hasActiveConnections = true := by
  obtain ⟨⟨cm, early⟩, hr, hP⟩ := exists_reach earlyStep Free (start 1, [])
    (fun s => s.1.events = [] ∧ s.1.clients = [.stopped, .stopped] ∧ s.1.aliveClientMap = {1} ∧
      s.1.hasActiveConnections = true ∧
      s.1.connectors = [⟨true, .inserted 0⟩, ⟨false, .inserted 1⟩, ⟨false, .indexing⟩])
    [.getNextIndex 0, .startClient 0 true, .insert 0, .listen, .receiveEnd 0, .putEvent 0,
      .recvEvent, .dropConnection, .getNextIndex 1, .startClient 1 true, .receiveEnd 1,
      .putEvent 1, .recvEvent, .dropConnection, .insert 1] (by decide)
  obtain ⟨hev, hcl, hal, hact, hcs⟩ := of_decide_eq_true hP
  refine ⟨cm, early, hr, ⟨hev, ?_⟩, hcl, hal, hact⟩
  rintro id ⟨c, hc, hid⟩
  rw [show cm.connectors = _ from hcs] at hc
  simp only [List.mem_cons, List.not_mem_nil, or_false] at hc
  rcases hc with rfl | rfl | rfl <;> cases hid

end ContractEngineClientManager

end VmEngine.Rpc
