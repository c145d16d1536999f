/-
  The listener of a process and the state it has read.

  While the listener waits in the `select` for ready or busy, no other goroutine takes
  the process to another state than ready; a process is locked only while it is idle;
  and a listener returns only when the process has ended or is not idle.
-/
import VmEngine.Core.ProcessStep

namespace VmEngine

namespace Process
variable {p p' : Process} {a : Action} {outs : List ProcessOut}

structure ListenInv (p : Process) : Prop where
  ready : ∀ {q}, p.listen = some (.ready q) → p.processState = .ready ∧ q = p.txCh
  busy : p.listen = some .busy → p.processState = .busy ∨ p.processState = .ready
  lock : p.lockedBy ≠ none → p.processState = .idle
  ended : p.listen = none → p.launch = .none ∨ p.processState ≠ .idle

theorem listenInv_new (user : ℕ) (key : RequestGroupKey) (name : String) (o : Bool) :
    ListenInv (new user key name o) := ⟨nofun, nofun, fun h => absurd rfl h, nofun⟩

/-- The listener goes to the head of its loop; a locked process keeps its state. -/
theorem listenInv_head (hl : p'.listen = some .head)
    (hlock : p'.lockedBy ≠ none → p'.processState = .idle) : ListenInv p' :=
  ⟨fun h => (by rw [hl] at h; cases h), fun h => (by rw [hl] at h; cases h), hlock,
    fun h => (by rw [hl] at h; cases h)⟩

/-- The listener does not move, and the state only becomes ready. -/
theorem ListenInv.keep (h : ListenInv p) (hl : p'.listen = p.listen) (hla : p'.launch = p.launch)
    (ht : p'.txCh = p.txCh) (hlock : p'.lockedBy ≠ none → p'.processState = .idle)
    (hst : p'.processState = p.processState ∨ p'.processState = .ready) : ListenInv p' := by
  refine ⟨fun {q} hq => ?_, fun hq => ?_, hlock, fun hq => ?_⟩
  · obtain ⟨h1, h2⟩ := h.ready (hl.symm.trans hq)
    exact ⟨hst.elim (fun h => h.trans h1) id, h2.trans ht.symm⟩
  · rcases hst with hst | hst
    · rw [hst]; exact h.busy (hl.symm.trans hq)
    · exact Or.inr hst
  · rcases hst with hst | hst
    · rw [hst, hla]; exact h.ended (hl.symm.trans hq)
    · exact Or.inr (by rw [hst]; nofun)

/-- A call of the manager finds the listener outside of the `select`s for ready and
    busy. -/
theorem ListenInv.call (h : ListenInv p) (hi : p.processState = .idle) (hl : p'.listen = p.listen)
    (hla : p'.launch = p.launch) (hlock : p'.lockedBy ≠ none → p'.processState = .idle) :
    ListenInv p' := by
  refine ⟨fun {q} hq => ?_, fun hq => ?_, hlock, fun hq => ?_⟩
  · obtain ⟨h1, -⟩ := h.ready (hl.symm.trans hq)
    rw [hi] at h1; cases h1
  · rcases h.busy (hl.symm.trans hq) with h1 | h1
    · rw [hi] at h1; cases h1
    · rw [hi] at h1; cases h1
  · rcases h.ended (hl.symm.trans hq) with h1 | h1
    · exact Or.inl (hla.trans h1)
    · exact absurd hi h1

theorem ListenInv.exit {e : ExitErr} (h : ListenInv p) (hc : ExitCase p e p' outs) :
    ListenInv p' := by
  cases hc with
  | ended hs _ _ =>
    refine ⟨nofun, nofun, fun hlock => ?_, fun _ => Or.inl rfl⟩
    have hi := h.lock hlock
    rcases hs with ⟨-, rfl⟩ | ⟨-, rfl, -⟩ | ⟨hst, -⟩
    · exact hi
    · exact hi
    · rw [hi] at hst; simp at hst
  | restart _ hst hl =>
    have hno : p.processState ≠ .idle := by rw [hst]; nofun
    refine ⟨fun hq => ?_, fun hq => ?_, h.lock, fun _ => Or.inr hno⟩
    · rcases hl with rfl | rfl <;> cases hq
    · rcases hl with rfl | rfl <;> cases hq
  | restartAll _ hst =>
    refine listenInv_head rfl fun hlock => ?_
    have := h.lock hlock
    rw [hst] at this; cases this
  | closed _ _ => exact ⟨nofun, nofun, h.lock, fun _ => Or.inl rfl⟩

/-- Every step keeps the listener in line with the state. -/
theorem ListenInv.step (h : ListenInv p) (hs : ProcStep p a p' outs) : ListenInv p' := by
  cases hs with
  | loopHead hl =>
    refine ⟨fun {q} hq => ?_, fun hq => ?_, h.lock, nofun⟩
    · unfold selectFor at hq
      cases hst : p.processState <;> rw [hst] at hq <;> cases hq
      exact ⟨rfl, rfl⟩
    · unfold selectFor at hq
      cases hst : p.processState <;> rw [hst] at hq <;> cases hq
      exact Or.inl rfl
  | wake _ | dropped _ _ | idleKept _ | strayTimeout _ _ _ _ => exact listenInv_head rfl h.lock
  | dispatched _ hlock _ _ | idleTaken _ hlock | answered _ _ hlock _ _
  | deployFailed _ _ hlock _ _ _ | busyTimeout _ _ hlock _ _ | readyTimeout _ _ hlock _ =>
    exact listenInv_head rfl fun hl => absurd hlock hl
  | exit _ _ _ hc _ => exact h.exit hc
  | putMsg _ | expire | pop => exact h.keep rfl rfl rfl h.lock (Or.inl rfl)
  | setStream hlock => exact h.keep rfl rfl rfl (fun hl => absurd hlock hl) (Or.inr rfl)
  | refused _ | refusedClose _ => exact h
  | noGroup _ _ => exact h.keep rfl rfl rfl h.lock (Or.inl rfl)
  | changeSandbox hi _ _ _ => exact h.call hi rfl rfl fun _ => hi
  | closeSandbox hi _ _ _ => exact h.call hi rfl rfl fun _ => hi
  | leaveWindow hw =>
    have hi := h.lock (by rw [hw]; nofun)
    exact h.call hi rfl rfl fun hl => absurd rfl hl
  | @launchProcess out hla =>
    obtain ⟨hf, hst, hli⟩ := launchProcess_frame p out
    refine ⟨fun hq => ?_, fun hq => ?_, fun hq => ?_, fun hq => ?_⟩
    · rw [hst, hf.txCh]; exact h.ready (hli.symm.trans hq)
    · rw [hst]; exact h.busy (hli.symm.trans hq)
    · rw [hst]; exact h.lock (hf.lockedBy ▸ hq)
    · refine Or.inr ?_
      rw [hst]
      rcases h.ended (hli.symm.trans hq) with hn | hn
      · rw [hla] at hn; cases hn
      · exact hn
  | sendReady hla _ | cgroupError hla | wait hla =>
    refine ⟨h.ready, h.busy, h.lock, fun hq => Or.inr ?_⟩
    rcases h.ended hq with hn | hn
    · rw [hla] at hn; cases hn
    · exact hn

end Process

end VmEngine
