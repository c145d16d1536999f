/-
  The versions that bad-contract reports name.

  A report asks the request group to drop its binary, and the group does so only if the
  version in the report is the one it uses.  A process whose sandbox fails to start
  reports the version it read at the launch.  After the exit of a running sandbox it
  reports the number that the sandbox wrote to its standard error, if there is one, and
  otherwise the version that the group has at that time; in between the group may have
  fetched the contract again.

  The fleet runs with a record of the version at each launch and of all reports.
-/
import VmEngine.Core.Fleet
import VmEngine.Core.GroupRequests

namespace VmEngine

namespace Process
variable {p p' : Process} {a : Action} {outs : List ProcessOut} {e : ExitErr}
  {next : Option DockerVMMessage} {cfv : ℤ}

/-- The reports among the messages. -/
def bads (outs : List ProcessOut) : List (String × BadContractResp) :=
  outs.filterMap fun
    | .badContract g msg => some (g, msg)
    | _ => none

/-- The exit of a running sandbox is reported: its transaction is or was an
    `init_contract` or `upgrade`. -/
def SandboxReports (p : Process) : Prop :=
  (p.processState = .ready ∨ p.processState = .busy) ∧ (p.tx.bind (·.request)).any isDeployMethod = true

instance (p : Process) : Decidable (SandboxReports p) := inferInstanceAs (Decidable (_ ∧ _))

/-- An exit is reported; after a failed start, if a transaction waits. -/
def Reports (p : Process) (e : ExitErr) (next : Option DockerVMMessage) : Prop :=
  (e.kind = .other ∧ SandboxReports p) ∨ (e.kind ≠ .other ∧ next.isSome = true)

theorem bads_append (outs outs' : List ProcessOut) : bads (outs ++ outs') = bads outs ++ bads outs' :=
  List.filterMap_append

/-- The flag that `handleProcessExit` sets for the report. -/
theorem exitBody_reports {f : ExitFlags} (h : exitBody p e next = .ok (p', outs, f)) :
    (f.returnBadContractResp = true ↔ Reports p e next) ∧ bads outs = [] ∧
      p'.requestGroup = p.requestGroup := by
  unfold exitBody at h
  unfold Reports SandboxReports
  split at h
  · rename_i hk; cases h; simp [hk, bads]
  · rename_i hk; cases h; simp [hk, bads]
  · rename_i hk; cases h; simp [hk, bads]
  · rename_i hk; cases h; simp [hk, bads]
  · rename_i hk
    split at h
    · rename_i hs; cases h; simp [hk, hs, bads]
    · rename_i hs
      split at h
      · rename_i ht; cases h; simp [hk, hs, ht, bads]
      · rename_i q ht; cases h; simp [hk, hs, ht, bads]
    · rename_i hs; cases h; simp [hk, hs, bads]
    · rename_i hs
      split at h
      · cases h
      · rename_i q ht; cases h; simp [hk, hs, ht, bads]
    · rename_i hs; cases h; simp [hk, hs, bads]
    · rename_i hs; cases h; simp [hk, hs, bads]
    · rename_i hs; cases h; simp [hk, hs, bads]

theorem exitResponses_reports {f : ExitFlags} (h : exitResponses p e f cfv = .ok outs) :
    (f.returnBadContractResp = false ∧ bads outs = []) ∨
      (f.returnBadContractResp = true ∧ ∃ g msg, p.requestGroup = some g ∧ bads outs = [(g, msg)] ∧
        msg.contractFileVersion = e.desc.getD cfv) := by
  obtain ⟨bad, hb, h⟩ := Go.bind_eq_ok.1 h
  have houts : bads outs = bads bad := by
    cases h
    rw [bads_append, bads_append]
    cases f.returnErrResp <;> cases f.exitSandbox <;> rfl
  rw [houts]
  unfold returnBadContractResp at hb
  cases hf : f.returnBadContractResp with
  | false =>
    rw [hf] at hb
    cases hb
    exact Or.inl ⟨rfl, rfl⟩
  | true =>
    rw [hf, if_pos rfl] at hb
    split at hb
    · rename_i tx g _ hg
      cases hb
      exact Or.inr ⟨rfl, g, _, hg, rfl, rfl⟩
    · cases hb

/-- What an exit reports. -/
theorem exit_bads (h : handleProcessExit p e next cfv = .ok (p', outs)) :
    (¬ Reports p e next ∧ bads outs = []) ∨
      (Reports p e next ∧ ∃ g msg, p.requestGroup = some g ∧ bads outs = [(g, msg)] ∧
        msg.contractFileVersion = e.desc.getD cfv) := by
  obtain ⟨⟨p₁, outs₁, f⟩, hb, h⟩ := Go.bind_eq_ok.1 h
  obtain ⟨resps, hr, h⟩ := Go.bind_eq_ok.1 h
  cases h
  obtain ⟨hflag, hnone, hgroup⟩ := exitBody_reports hb
  rw [bads_append, hnone, List.nil_append, ← hgroup, ← hflag]
  rcases exitResponses_reports hr with ⟨hf, hbads⟩ | ⟨hf, hbads⟩
  · exact Or.inl ⟨by rw [hf]; decide, hbads⟩
  · exact Or.inr ⟨hf, hbads⟩

/-- Only exits are reported. -/
theorem ProcStep.bads (h : ProcStep p a p' outs) (ha : ∀ next cfv, a ≠ .exit next cfv) :
    bads outs = [] := by
  cases h with
  | exit _ _ _ _ _ => exact absurd rfl (ha _ _)
  | dropped _ ho => rcases ho with rfl | ⟨err, rfl⟩ <;> rfl
  | dispatched _ _ _ ho => rcases ho with rfl | ⟨err, rfl⟩ <;> rfl
  | _ => rfl

/-- The exit of a sandbox that failed to start names the version read at the launch. -/
theorem ProcStep.start_desc (h : ProcStep p a p' outs) (he : p'.launch = .exited e)
    (hk : e.kind ≠ .other) :
    p.launch = .exited e ∨ ∃ notExist cfv, a = .launchProcess (.startError notExist cfv) ∧
      e.desc = some cfv := by
  cases h with
  | exit _ _ _ hc _ => cases hc <;> exact nomatch he
  | @launchProcess out _ =>
    cases out with
    | pipeError err => cases he; exact absurd rfl hk
    | startError notExist cfv =>
      refine Or.inr ⟨notExist, cfv, rfl, ?_⟩
      cases notExist with
      | false => cases he; rfl
      | true => cases he; rfl
    | started sid =>
      unfold Process.launchProcess at he
      dsimp only at he
      split_ifs at he
  | sendReady _ _ => cases he
  | cgroupError _ => cases he; exact absurd rfl hk
  | @wait err _ _ =>
    cases he
    cases err <;> exact absurd rfl hk
  | _ => exact Or.inl he

end Process

namespace Fleet

/-! ## The record -/

/-- A report, with its group and the version which that group had when the sandbox was
    launched. -/
structure Report where
  group : String
  msg : BadContractResp
  launched : Option ℤ
deriving DecidableEq, Repr

/-- The version at the last launch of each process, and all reports. -/
structure Track where
  launched : List (Option ℤ)
  reports : List Report
deriving DecidableEq, Repr

def Track.version (t : Track) (pid : ℕ) : Option ℤ := (t.launched[pid]?).join

/-- The version of a process's group. -/
def groupVersion (f : Fleet) (p : Process) : Option ℤ := p.requestGroup.bind f.contractFileVersion

def Track.record (t : Track) (f : Fleet) (a : Action) (outs : List FleetOut) : Track where
  launched := match a with
    | .create _ _ _ _ => t.launched ++ [none]
    | .proc pid (.launchProcess _) => t.launched.set pid (f.procs[pid]?.bind f.groupVersion)
    | _ => t.launched
  reports := t.reports ++ outs.filterMap fun
    | .proc pid (.badContract g msg) => some ⟨g, msg, t.version pid⟩
    | _ => none

def tracked (C : ChainConsts) (cfg : ProcessConfig) : Fleet × Track → Action → Option (Fleet × Track) :=
  monitor (act C cfg) Track.record

def startTracked : Fleet × Track := (init, ⟨[], []⟩)

/-- The report names the version at the launch. -/
def Report.Right (rep : Report) : Prop := rep.launched = some rep.msg.contractFileVersion

/-- **When a running sandbox may exit.**  If its exit is reported, then the group has not
    fetched the contract since the launch, and what the sandbox wrote to its standard
    error is not the number of another version. -/
def SandboxExitOk (f : Fleet) (t : Track) (pid : ℕ) (p : Process) : Prop :=
  match p.launch with
  | .exited e => e.kind = .other → p.SandboxReports →
    match e.desc with
    | none => f.groupVersion p = t.version pid
    | some v => t.version pid = some v
  | _ => True

def VersionOk (s : Fleet × Track) : Action → Prop
  | .proc pid (.exit _ _) => ∀ p ∈ s.1.procs[pid]?, SandboxExitOk s.1 s.2 pid p
  | _ => True

instance (f : Fleet) (t : Track) (pid : ℕ) (p : Process) : Decidable (SandboxExitOk f t pid p) :=
  match h : p.launch with
  | .exited e => match hd : e.desc with
    | none => decidable_of_iff (e.kind = .other → p.SandboxReports → f.groupVersion p = t.version pid)
        (by unfold SandboxExitOk; rw [h]; dsimp only; rw [hd])
    | some v => decidable_of_iff (e.kind = .other → p.SandboxReports → t.version pid = some v)
        (by unfold SandboxExitOk; rw [h]; dsimp only; rw [hd])
  | .starting | .sending _ | .running _ | .none =>
    isTrue (by unfold SandboxExitOk; rw [h]; trivial)

instance : DecidableRel VersionOk := fun s a =>
  match a with
  | .proc pid (.exit _ _) =>
    inferInstanceAs (Decidable (∀ p ∈ s.1.procs[pid]?, SandboxExitOk s.1 s.2 pid p))
  | .request _ | .schedule | .group _ _ | .create _ _ _ _ | .answer _ => instDecidableTrue
  | .proc _ .loopHead | .proc _ .wake | .proc _ (.txReq _ _ _) | .proc _ (.idleTxReq _ _)
  | .proc _ (.txResp _) | .proc _ (.tick _ _) | .proc _ (.putMsg _) | .proc _ (.setStream _)
  | .proc _ (.changeSandbox _ _ _ _) | .proc _ (.closeSandbox _) | .proc _ (.leaveWindow _)
  | .proc _ (.launchProcess _) | .proc _ .sendReady | .proc _ (.cgroupError _) | .proc _ (.wait _)
  | .proc _ .expire | .proc _ .pop => instDecidableTrue

/-! ## Steps -/

variable {C : ChainConsts} {cfg : ProcessConfig} {f f' : Fleet} {t : Track} {a : Action}
  {outs : List FleetOut}

/-- The record knows every process, the version that a failed start will report, and
    every report on its way. -/
structure TrackInv (f : Fleet) (t : Track) : Prop where
  length : t.launched.length = f.procs.length
  start : ∀ {pid : ℕ} {p : Process} {e : ExitErr}, f.procs[pid]? = some p → p.launch = .exited e →
    e.kind ≠ .other → ∃ v, e.desc = some v ∧ t.version pid = some v
  sent : ∀ {k : String} {r : RequestGroup} {msg : BadContractResp}, f.requestGroups k = some r →
    .badContract msg ∈ r.eventCh → ∃ v, ⟨k, msg, v⟩ ∈ t.reports

theorem trackInv_init : TrackInv init ⟨[], []⟩ := ⟨rfl, nofun, nofun⟩

theorem reports_group (k : String) (gouts : List GroupOut) :
    (t.record f a (gouts.map (.group k))).reports = t.reports := by
  unfold Track.record
  rw [List.filterMap_map]
  have hnone : ∀ o ∈ gouts, (Function.comp (fun
      | FleetOut.proc pid (.badContract g msg) => some (Report.mk g msg (t.version pid))
      | _ => none) (FleetOut.group k)) o = none := fun _ _ => rfl
  rw [List.filterMap_eq_nil_iff.2 hnone, List.append_nil]

theorem reports_proc (pid : ℕ) (pouts : List ProcessOut) :
    (t.record f a (pouts.map (.proc pid))).reports =
      t.reports ++ (Process.bads pouts).map fun b => ⟨b.1, b.2, t.version pid⟩ := by
  unfold Track.record Process.bads
  rw [List.filterMap_map, List.map_filterMap]
  refine congrArg (t.reports ++ ·) (List.filterMap_congr fun o _ => ?_)
  cases o <;> rfl

variable {k : String} {msg : BadContractResp} {p : Process} {pa : Process.Action} {pid : ℕ}
  {pouts : List ProcessOut} {r : RequestGroup}

/-- Receiving a transaction leaves the events of the groups alone. -/
theorem taken_group (h : (f.taken p pa).requestGroups k = some r) :
    ∃ r₀, f.requestGroups k = some r₀ ∧ r.eventCh = r₀.eventCh := by
  unfold taken at h
  split at h
  · exact ⟨r, h, rfl⟩
  · rename_i q tx _
    split at h
    · exact ⟨r, h, rfl⟩
    · rename_i r₁ hr₁
      rcases update_some h with ⟨rfl, rfl⟩ | h
      · exact ⟨r₁, hr₁, RequestGroup.eventCh_setController _ _ _⟩
      · exact ⟨r, h, rfl⟩

theorem procs_taken (f : Fleet) (p : Process) (pa : Process.Action) :
    (f.taken p pa).procs = f.procs := by
  unfold taken
  split
  · rfl
  · split <;> rfl

theorem mem_reportsTo (h : .badContract msg ∈ reportsTo k pouts) :
    (k, msg) ∈ Process.bads pouts := by
  unfold reportsTo at h
  obtain ⟨o, ho, heq⟩ := List.mem_filterMap.1 h
  refine List.mem_filterMap.2 ⟨o, ho, ?_⟩
  cases o with
  | badContract g m =>
    dsimp only at heq ⊢
    split_ifs at heq with hg
    cases heq
    rw [hg]
  | _ => cases heq

theorem mem_eventCh_of_group {ga : RequestGroup.Action} {r' : RequestGroup} {gouts : List GroupOut}
    (ha : OfGroup ga) (h : RequestGroup.act C r ga = .ok (r', gouts))
    (hm : .badContract msg ∈ r'.eventCh) : .badContract msg ∈ r.eventCh := by
  rw [(RequestGroup.act_chans h).2] at hm
  cases ga with
  | putEvent e =>
    cases e with
    | badContract _ => exact absurd ha not_false
    | processResp _ =>
      rcases List.mem_append.1 hm with hm | hm
      · exact hm
      · cases List.mem_singleton.1 hm
  | recvEvent view => exact List.mem_of_mem_tail hm
  | _ => exact hm

/-- The record forgets no report. -/
theorem TrackInv.sent_record (hI : TrackInv f t) (hr : f.requestGroups k = some r)
    (hm : .badContract msg ∈ r.eventCh) : ∃ v, ⟨k, msg, v⟩ ∈ (t.record f a outs).reports :=
  (hI.sent hr hm).imp fun _ hv => List.mem_append_left _ hv

/-- A step of another process leaves the version recorded for a process alone. -/
theorem version_record_of_ne {k : ℕ} (hk : k ≠ pid) :
    (t.record f (.proc pid pa) outs).version k = t.version k := by
  unfold Track.version Track.record
  dsimp only
  split
  · rename_i h; cases h
  · rename_i h; cases h; rw [List.getElem?_set_ne (Ne.symm hk)]
  · rfl

theorem length_launched_proc :
    (t.record f (.proc pid pa) outs).launched.length = t.launched.length := by
  unfold Track.record
  dsimp only
  split
  · rename_i h; cases h
  · rw [List.length_set]
  · rfl

/-- A failed start reports the version that the record has for the process. -/
theorem TrackInv.start_proc {p' : Process} {e : ExitErr} (hI : TrackInv f t)
    (hp : f.procs[pid]? = some p) (hoff : f.Offers p pa) (hstep : Process.ProcStep p pa p' pouts)
    (he : p'.launch = .exited e) (hke : e.kind ≠ .other) :
    ∃ v, e.desc = some v ∧ (t.record f (.proc pid pa) outs).version pid = some v := by
  rcases hstep.start_desc he hke with hl | ⟨notExist, v, rfl, hv⟩
  · -- the launch failed earlier: this step is no launch
    obtain ⟨v, hv, hver⟩ := hI.start hp hl hke
    refine ⟨v, hv, ?_⟩
    have hsame : (t.record f (.proc pid pa) outs).launched = t.launched := by
      cases hstep with
      | launchProcess hl' => rw [hl] at hl'; cases hl'
      | _ => rfl
    unfold Track.version
    rw [hsame]
    exact hver
  · have hlt : pid < t.launched.length := by
      rw [hI.length]
      exact (List.getElem?_eq_some_iff.1 hp).1
    refine ⟨v, hv, ?_⟩
    show ((t.launched.set pid (f.procs[pid]?.bind f.groupVersion))[pid]?).join = _
    rw [List.getElem?_set_self hlt, hp]
    exact hoff

/-- The record is kept by every step. -/
theorem TrackInv.step (hI : TrackInv f t) (h : FleetStep C f a f' outs) :
    TrackInv f' (t.record f a outs) := by
  cases h with
  | request _ _ => exact ⟨hI.length, hI.start, hI.sent_record⟩
  | answer _ => exact ⟨hI.length, hI.start, hI.sent_record⟩
  | @schedule tx rest hch =>
    unfold handleTxReq
    cases tx.request with
    | none => exact ⟨hI.length, hI.start, hI.sent_record⟩
    | some q =>
      refine ⟨hI.length, hI.start, fun {k r msg} hr hm => ?_⟩
      rcases update_some hr with ⟨rfl, rfl⟩ | hr
      · cases hg : f.requestGroups q.key.groupKey with
        | none => rw [hg] at hm; exact absurd hm List.not_mem_nil
        | some r₀ =>
          rw [hg] at hm
          exact hI.sent_record hg hm
      · exact hI.sent_record hr hm
  | @group k ga r r' gouts hr ha hact =>
    refine ⟨hI.length, hI.start, fun {k' r₁ msg} hr₁ hm => ?_⟩
    rw [reports_group]
    rcases update_some hr₁ with ⟨rfl, rfl⟩ | hr₁
    · exact hI.sent hr (mem_eventCh_of_group ha hact hm)
    · exact hI.sent hr₁ hm
  | @create user key name isOrig =>
    refine ⟨?_, fun {pid p e} hp he hk => ?_, hI.sent_record⟩
    · show (t.launched ++ [none]).length = (f.procs ++ [_]).length
      rw [List.length_append, List.length_append, hI.length]
      rfl
    · rcases getElem?_concat_some hp with ⟨-, rfl⟩ | hp
      · cases he
      · obtain ⟨v, hv, hver⟩ := hI.start hp he hk
        refine ⟨v, hv, ?_⟩
        have hlt : pid < t.launched.length := by
          rw [hI.length]
          exact (List.getElem?_eq_some_iff.1 hp).1
        show ((t.launched ++ [none])[pid]?).join = _
        rw [List.getElem?_append_left hlt]
        exact hver
  | @proc pid pa p p' pouts hp hoff hstep =>
    have hprocs : (((f.taken p pa).setProc pid p').putOuts pouts).procs = f.procs.set pid p' := by
      show (f.taken p pa).procs.set pid p' = _
      rw [procs_taken]
    refine ⟨?_, fun {k q e} hq he hke => ?_, fun {k r msg} hr hm => ?_⟩
    · rw [hprocs, List.length_set, ← hI.length, length_launched_proc]
    · rw [hprocs] at hq
      rcases getElem?_set_some hq with ⟨rfl, rfl⟩ | ⟨hk, hq⟩
      · exact hI.start_proc hp hoff hstep he hke
      · rw [version_record_of_ne hk]
        exact hI.start hq he hke
    · rw [reports_proc]
      obtain ⟨r₁, hr₁, rfl⟩ := Option.map_eq_some_iff.1 hr
      rcases List.mem_append.1 hm with hm | hm
      · obtain ⟨r₀, hr₀, hev⟩ := taken_group hr₁
        rw [hev] at hm
        exact (hI.sent hr₀ hm).imp fun v hv => List.mem_append_left _ hv
      · exact ⟨_, List.mem_append_right _ (List.mem_map.2 ⟨_, mem_reportsTo hm, rfl⟩)⟩

/-- An exit is reported with the right version exactly under the condition. -/
theorem exit_right {p' : Process} {e : ExitErr} {next : Option DockerVMMessage} {cfv : ℤ}
    (hI : TrackInv f t) (hp : f.procs[pid]? = some p) (he : p.launch = .exited e)
    (hver : ∀ g ∈ p.requestGroup, f.contractFileVersion g = some cfv)
    (h : Process.handleProcessExit p e next cfv = .ok (p', pouts)) :
    (∀ b ∈ Process.bads pouts, t.version pid = some b.2.contractFileVersion) ↔
      SandboxExitOk f t pid p := by
  unfold SandboxExitOk
  rw [he]
  dsimp only
  rcases Process.exit_bads h with ⟨hno, hbads⟩ | ⟨hyes, g, msg, hg, hbads, hmsg⟩
  · rw [hbads]
    exact ⟨fun _ hk hr => absurd (Or.inl ⟨hk, hr⟩) hno, fun _ _ => nofun⟩
  · have hone : (∀ b ∈ Process.bads pouts, t.version pid = some b.2.contractFileVersion) ↔
        t.version pid = some (e.desc.getD cfv) := by
      rw [hbads, List.forall_mem_singleton, hmsg]
    have hcur : f.groupVersion p = some cfv := by
      unfold groupVersion
      rw [hg]
      exact hver g hg
    rw [hone, hcur]
    rcases hyes with ⟨hk, hr⟩ | ⟨hk, -⟩
    · cases e.desc with
      | none => exact ⟨fun h _ _ => h.symm, fun h => (h hk hr).symm⟩
      | some v => exact ⟨fun h _ _ => h, fun h => h hk hr⟩
    · obtain ⟨v, hv, hlaunch⟩ := hI.start hp he hk
      rw [hv]
      exact ⟨fun _ hk' => absurd hk' hk, fun _ => hlaunch⟩

theorem step_right (hI : TrackInv f t) (hR : ∀ rep ∈ t.reports, rep.Right)
    (h : FleetStep C f a f' outs) :
    (∀ rep ∈ (t.record f a outs).reports, rep.Right) ↔ VersionOk (f, t) a := by
  have hnone : outs = [] → ∀ rep ∈ (t.record f a outs).reports, rep.Right := by
    rintro rfl rep hrep
    rcases List.mem_append.1 hrep with hrep | hrep
    · exact hR rep hrep
    · exact absurd hrep List.not_mem_nil
  cases h with
  | request _ _ | schedule _ | create | answer _ => exact ⟨fun _ => trivial, fun _ => hnone rfl⟩
  | group _ _ _ => rw [reports_group]; exact ⟨fun _ => trivial, fun _ => hR⟩
  | @proc pid pa p p' pouts hp hoff hstep =>
    rw [reports_proc]
    have hsplit : (∀ rep ∈ t.reports ++
        (Process.bads pouts).map fun b => Report.mk b.1 b.2 (t.version pid), rep.Right) ↔
        ∀ b ∈ Process.bads pouts, t.version pid = some b.2.contractFileVersion := by
      rw [List.forall_mem_append, List.forall_mem_map]
      exact ⟨And.right, fun h => ⟨hR, h⟩⟩
    rw [hsplit]
    by_cases hexit : ∃ next cfv, pa = .exit next cfv
    · obtain ⟨next, cfv, rfl⟩ := hexit
      cases hstep with
      | exit he _ _ _ hexit =>
        rw [exit_right hI hp he hoff.2 hexit]
        simp [VersionOk, hp]
    · have hok : VersionOk (f, t) (.proc pid pa) := by
        cases pa with
        | exit next cfv => exact absurd ⟨next, cfv, rfl⟩ hexit
        | _ => trivial
      rw [hstep.bads fun next cfv h => hexit ⟨next, cfv, h⟩]
      exact ⟨fun _ => hok, fun _ => nofun⟩

theorem tracked_inv {s : Fleet × Track} (h : Reach (tracked C cfg) VersionOk startTracked s) :
    TrackInv s.1 s.2 ∧ ∀ rep ∈ s.2.reports, rep.Right := by
  refine h.inv (I := fun s => TrackInv s.1 s.2 ∧ ∀ rep ∈ s.2.reports, rep.Right)
    ⟨trackInv_init, fun _ h => by cases h⟩ fun ⟨hI, hR⟩ hok hstep => ?_
  obtain ⟨outs, hact, ht⟩ := monitor_eq_some hstep
  rw [ht]
  exact ⟨hI.step (act_step hact), (step_right hI hR (act_step hact)).2 hok⟩

/-- **Reports name the binary that the sandbox was launched with**, as long as running
    sandboxes exit under the condition.  Every report that a group handles comes from a
    process, and one of a sandbox launched under an older version is ignored: the binary
    is not removed.  A step adds right reports only exactly if it meets the condition. -/
theorem report_launch_version {s : Fleet × Track}
    (h : Reach (tracked C cfg) VersionOk startTracked s) :
    (∀ rep ∈ s.2.reports, rep.launched = some rep.msg.contractFileVersion) ∧
    (∀ k r msg, s.1.requestGroups k = some r → .badContract msg ∈ r.eventCh →
      ∃ v, ⟨k, msg, some v⟩ ∈ s.2.reports ∧
        (v < r.contractFileVersion → r.handleBadContractResp msg = (r, []))) ∧
    ∀ a s', tracked C cfg s a = some s' →
      ((∀ rep ∈ s'.2.reports, rep.launched = some rep.msg.contractFileVersion) ↔ VersionOk s a) := by
  obtain ⟨hI, hR⟩ := tracked_inv h
  refine ⟨hR, fun k r msg hr hm => ?_, fun a s' hstep => ?_⟩
  · obtain ⟨v, hv⟩ := hI.sent hr hm
    have hright : v = some msg.contractFileVersion := hR _ hv
    subst hright
    refine ⟨_, hv, fun hlt => ?_⟩
    unfold RequestGroup.handleBadContractResp
    rw [if_neg]
    rintro ⟨-, heq⟩
    omega
  · obtain ⟨outs, hact, ht⟩ := monitor_eq_some hstep
    rw [ht]
    exact step_right hI hR (act_step hact)

/-! ## Runs -/

/-- A process launches its sandbox and runs `init_contract` of the contract fetched at 7. -/
def runBusy : List Action :=
  runFetched "tx1" initContract 7 ++
  [.create 10000 .sample "p0" true, .proc 0 (.launchProcess (.started 0)), .proc 0 .loopHead,
    .proc 0 (.setStream 0), .proc 0 .wake, .proc 0 .loopHead,
    .proc 0 (.txReq (sampleTx .sample "tx1" initContract) 0 true), .proc 0 .loopHead]

/-- The process has reported the exit of its sandbox, and the group will accept the
    report. -/
def Reported (cfv launched : ℤ) (s : Fleet × Track) : Bool :=
  let msg : BadContractResp := ⟨"tx1", .sample, true, cfv⟩
  match s.1.requestGroups sampleGroup with
  | none => false
  | some r => decide (r.eventCh = [.badContract msg] ∧ r.Accepts msg ∧
      ⟨sampleGroup, msg, some launched⟩ ∈ s.2.reports)

/-- The sandbox exits while the group still uses the binary it was launched with. -/
theorem report_launch_version_exit : ∃ s, Reach (tracked .sample .sample) VersionOk startTracked s ∧
    Reported 7 7 s ∧ ∀ rep ∈ s.2.reports, rep.launched = some rep.msg.contractFileVersion := by
  obtain ⟨s, hs, hP⟩ := exists_reach (tracked .sample .sample) VersionOk startTracked (Reported 7 7)
    (runBusy ++ [.proc 0 (.wait none), .proc 0 (.exit none 7)]) (by decide)
  exact ⟨s, hs, hP, (report_launch_version hs).1⟩

/-- Another process fails to start a sandbox and reports the binary. -/
def runStartFails : List Action :=
  [.create 10001 .sample "p1" true, .proc 1 (.launchProcess (.startError false 7)), .proc 1 .loopHead,
    .request (sampleTx .sample "tx2" "save"), .schedule,
    .group sampleGroup (.recvTx RequestGroup.noProcesses 0),
    .proc 1 (.exit (some (sampleTx .sample "tx2" "save")) 7),
    .group sampleGroup (.recvEvent RequestGroup.noProcesses)]

/-- While the sandbox runs, another process fails to start one and reports the binary,
    and the group fetches it again, at 9.  Then the first sandbox, launched with the
    binary of time 7, exits, and the binary of time 9 is reported. -/
theorem report_later_version : ∃ s, Reach (tracked .sample .sample) Free startTracked s ∧
    Reported 9 7 s := by
  refine exists_reach (tracked .sample .sample) Free startTracked (Reported 9 7) (runBusy ++
    runStartFails ++ runFetched "tx3" "save" 9 ++ [.proc 0 (.wait none), .proc 0 (.exit none 9)]) ?_
  decide

end Fleet

end VmEngine
