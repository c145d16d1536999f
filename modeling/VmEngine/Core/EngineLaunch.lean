/-
  Processes and their sandboxes.

  A live sandbox is the one that `launchProcess` of its process is waiting for, unless
  writing the control group has failed.  So a signal, which succeeds only for a sandbox
  that was not waited for, finds `launchProcess` running.
-/
import VmEngine.Core.EngineCarry

namespace VmEngine

/-- The sandbox that `launchProcess` has started, until it returns. -/
def Launch.sid : Launch → Option ℕ
  | .sending sid | .running sid => some sid
  | _ => .none

theorem Launch.isUp_of_sid {l : Launch} {sid : ℕ} (h : l.sid = some sid) : l.isUp = true := by
  cases l with
  | sending _ | running _ => rfl
  | _ => cases h

namespace Process
variable {p p' : Process} {a : Action} {outs : List ProcessOut}

/-- The sandbox of the current command. -/
def sandbox (p : Process) : Option ℕ := p.cmd.bind (·.sandbox)

theorem sandbox_killed (p : Process) : p.killed.sandbox = p.sandbox := by
  unfold sandbox killed
  cases p.cmd <;> rfl

/-- What a step does to the sandbox of a process. -/
inductive LaunchCase (p : Process) (a : Action) (p' : Process) : Prop
  | quiet : p'.launch.sid = p.launch.sid → p'.sandbox = p.sandbox → LaunchCase p a p'
  | started {sid : ℕ} : a = .launchProcess (.started sid) → p.launch = .starting →
      p'.launch.sid = some sid → p'.sandbox = some sid → LaunchCase p a p'
  | failed : p.launch = .starting → p'.launch.sid = none → p'.sandbox = none → LaunchCase p a p'
  | stopped {sid : ℕ} : ((∃ err, a = .wait err) ∨ ∃ err, a = .cgroupError err) →
      p.launch = .running sid → p'.launch.sid = none → p'.sandbox = p.sandbox → LaunchCase p a p'

theorem ProcStep.launch_case (h : ProcStep p a p' outs) : LaunchCase p a p' := by
  cases h with
  | exit hl _ _ hc _ =>
    refine .quiet ?_ (by cases hc <;> rfl)
    rw [hl]
    cases hc <;> rfl
  | deployFailed _ _ _ _ _ _ | busyTimeout _ _ _ _ _ | changeSandbox _ _ _ _ | closeSandbox _ _ _ _ =>
    exact .quiet rfl (sandbox_killed p)
  | @launchProcess out hl =>
    cases out with
    | pipeError err => exact .quiet (by rw [hl]; rfl) rfl
    | startError notExist cfv => exact .failed hl rfl rfl
    | started sid =>
      unfold Process.launchProcess
      dsimp only
      split_ifs
      · exact .started rfl hl rfl rfl
      · exact .started rfl hl rfl rfl
  | sendReady hl _ => exact .quiet (by rw [hl]; rfl) rfl
  | cgroupError hl => exact .stopped (Or.inr ⟨_, rfl⟩) hl rfl rfl
  | wait hl => exact .stopped (Or.inl ⟨_, rfl⟩) hl rfl rfl
  | _ => exact .quiet rfl rfl

theorem ProcStep.started {sid : ℕ} (h : ProcStep p (.launchProcess (.started sid)) p' outs) :
    p.launch = .starting ∧ p'.launch.sid = some sid ∧ p'.sandbox = some sid := by
  cases h with
  | launchProcess hl =>
    refine ⟨hl, ?_⟩
    unfold Process.launchProcess
    dsimp only
    split_ifs <;> exact ⟨rfl, rfl⟩

theorem ProcStep.user (h : ProcStep p a p' outs) : p'.user = p.user := by
  cases h with
  | exit _ _ _ hc _ => exact hc.frame.user
  | launchProcess _ => exact (launchProcess_frame p _).1.user
  | _ => rfl

end Process

namespace Engine
variable {cfg : ProcessConfig} {e e' e₁ : Engine} {o ok : Bool} {i pid sid : ℕ} {p p' : Process}
  {sb : Sandbox} {outs : List ProcessOut}

/-- The process waits for the sandbox. -/
def Waits (e : Engine) (pid sid : ℕ) (p : Process) : Prop :=
  e.procs[pid]? = some p ∧ p.launch.sid = some sid

structure LaunchInv (e : Engine) : Prop where
  up : ∀ {pid sid p}, Waits e pid sid p → p.sandbox = some sid ∧
    ∃ sb, e.sandboxes[sid]? = some sb ∧ sb.pid = pid ∧ sb.waited = false
  waited : ∀ {pid sid : ℕ} {p : Process}, e.procs[pid]? = some p → p.sandbox = some sid →
    p.launch.sid = some sid ∨ ∃ sb, e.sandboxes[sid]? = some sb ∧ sb.waited = true
  alive : ∀ {sid : ℕ} {sb : Sandbox}, e.sandboxes[sid]? = some sb → sb.alive = true →
    ∃ p, Waits e sb.pid sid p ∧ sb.user = p.user

theorem launchInv_new (maxProcessNum releaseNum : Bool → ℤ) (users : List ℕ) :
    (new maxProcessNum releaseNum users).LaunchInv :=
  ⟨fun h => (by cases h.1), fun h => (by cases h), fun h => (by cases h)⟩

/-- The sandboxes stay, apart from their connections and exits. -/
def SandboxesKept (e e' : Engine) : Prop :=
  ∀ sid : ℕ, (e'.sandboxes[sid]? = e.sandboxes[sid]?) ∨ ∃ sb sb', e.sandboxes[sid]? = some sb ∧
    e'.sandboxes[sid]? = some sb' ∧ sb'.pid = sb.pid ∧ sb'.user = sb.user ∧
    sb'.waited = sb.waited ∧ (sb'.alive = true → sb.alive = true)

theorem SandboxesKept.refl (h : e'.sandboxes = e.sandboxes) : SandboxesKept e e' :=
  fun _ => Or.inl (by rw [h])

theorem sandboxesKept_set {sb' : Sandbox} (hsb : e.sandboxes[sid]? = some sb)
    (h1 : sb'.pid = sb.pid) (h2 : sb'.user = sb.user) (h3 : sb'.waited = sb.waited)
    (h4 : sb'.alive = true → sb.alive = true) : SandboxesKept e (e.setSandbox sid sb') := by
  intro k
  by_cases hk : k = sid
  · subst hk
    refine Or.inr ⟨sb, sb', hsb, ?_, h1, h2, h3, h4⟩
    exact List.getElem?_set_self (List.getElem?_eq_some_iff.1 hsb).1
  · exact Or.inl (List.getElem?_set_ne (Ne.symm hk))

/-- A step in which no sandbox is started or waited for. -/
theorem LaunchInv.keep (h : e.LaunchInv) (hsb : SandboxesKept e e')
    (hback : ∀ {pid : ℕ} {p'}, e'.procs[pid]? = some p' →
      (∃ p, e.procs[pid]? = some p ∧ p'.launch.sid = p.launch.sid ∧ p'.sandbox = p.sandbox) ∨
        (p'.launch.sid = none ∧ p'.sandbox = none))
    (hforth : ∀ {pid sid p}, Waits e pid sid p → ∃ p', Waits e' pid sid p' ∧ p'.user = p.user) :
    e'.LaunchInv := by
  refine ⟨fun {pid sid p'} hw => ?_, fun {pid sid p'} hp' hs => ?_, fun {sid sb'} hsb' hal => ?_⟩
  · rcases hback hw.1 with ⟨p, hp, hsid, hbox⟩ | ⟨hno, -⟩
    · obtain ⟨hs, sb, hget, hpid, hwt⟩ := h.up ⟨hp, hsid.symm.trans hw.2⟩
      refine ⟨hbox.trans hs, ?_⟩
      rcases hsb sid with he | ⟨sb₁, sb₂, h1, h2, h3, -, h4, -⟩
      · exact ⟨sb, he.trans hget, hpid, hwt⟩
      · obtain rfl := Option.some.inj (h1.symm.trans hget)
        exact ⟨sb₂, h2, h3.trans hpid, h4.trans hwt⟩
    · rw [hw.2] at hno; cases hno
  · rcases hback hp' with ⟨p, hp, hsid, hbox⟩ | ⟨-, hno⟩
    · rcases h.waited hp (hbox.symm.trans hs) with hw | ⟨sb, hget, hwt⟩
      · exact Or.inl (hsid.trans hw)
      · rcases hsb sid with he | ⟨sb₁, sb₂, h1, h2, -, -, h4, -⟩
        · exact Or.inr ⟨sb, he.trans hget, hwt⟩
        · obtain rfl := Option.some.inj (h1.symm.trans hget)
          exact Or.inr ⟨sb₂, h2, h4.trans hwt⟩
    · rw [hs] at hno; cases hno
  · have hold : ∃ sb, e.sandboxes[sid]? = some sb ∧ sb'.pid = sb.pid ∧ sb'.user = sb.user ∧
        sb.alive = true := by
      rcases hsb sid with he | ⟨sb₁, sb₂, h1, h2, h3, h4, -, h5⟩
      · exact ⟨sb', he.symm.trans hsb', rfl, rfl, hal⟩
      · obtain rfl := Option.some.inj (h2.symm.trans hsb')
        exact ⟨sb₁, h1, h3, h4, h5 hal⟩
    obtain ⟨sb, hget, hpid, huser, hal'⟩ := hold
    obtain ⟨p, hw, hu⟩ := h.alive hget hal'
    obtain ⟨p', hw', hu'⟩ := hforth hw
    exact ⟨p', hpid ▸ hw', huser.trans (hu.trans hu'.symm)⟩

/-- One process takes a step in which no sandbox is started or waited for. -/
theorem LaunchInv.setProc (h : e.LaunchInv) (hp : e.procs[pid]? = some p)
    (hprocs : e'.procs = e.procs.set pid p') (hsb : e'.sandboxes = e.sandboxes)
    (huser : p'.user = p.user)
    (hc : (p'.launch.sid = p.launch.sid ∧ p'.sandbox = p.sandbox) ∨
      (p.launch.sid = none ∧ p'.launch.sid = none ∧ p'.sandbox = none)) : e'.LaunchInv := by
  refine h.keep (.refl hsb) (fun {k q'} hq' => ?_) fun {k sid q} hw => ?_
  · rw [hprocs] at hq'
    rcases getElem?_set_some hq' with ⟨rfl, rfl⟩ | ⟨-, hq⟩
    · exact hc.imp (fun hc => ⟨p, hp, hc⟩) fun hc => hc.2
    · exact Or.inl ⟨q', hq, rfl, rfl⟩
  · unfold Waits
    rw [hprocs]
    by_cases hk : k = pid
    · subst hk
      obtain rfl := Option.some.inj (hp.symm.trans hw.1)
      rcases hc with ⟨hsid, -⟩ | ⟨hno, -⟩
      · exact ⟨p', ⟨List.getElem?_set_self (List.getElem?_eq_some_iff.1 hp).1, hsid.trans hw.2⟩, huser⟩
      · rw [hw.2] at hno; cases hno
    · exact ⟨q, ⟨(List.getElem?_set_ne (Ne.symm hk)).trans hw.1, hw.2⟩, rfl⟩

/-- A sandbox is started. -/
theorem LaunchInv.started (h : e.LaunchInv) (hp : e.procs[pid]? = some p)
    (hprocs : e'.procs = e.procs.set pid p')
    (hsb : e'.sandboxes = e.sandboxes ++ [sb]) (hpid : sb.pid = pid) (hsuser : sb.user = p.user)
    (hwt : sb.waited = false) (huser : p'.user = p.user) (hno : p.launch.sid = none)
    (hsid : p'.launch.sid = some e.sandboxes.length) (hbox : p'.sandbox = some e.sandboxes.length) :
    e'.LaunchInv := by
  have hlt := (List.getElem?_eq_some_iff.1 hp).1
  have hold : ∀ {k : ℕ} {x : Sandbox}, e.sandboxes[k]? = some x → e'.sandboxes[k]? = some x := by
    intro k x hx
    rw [hsb, List.getElem?_append_left (List.getElem?_eq_some_iff.1 hx).1]
    exact hx
  have hnew : e'.sandboxes[e.sandboxes.length]? = some sb := by
    rw [hsb]; exact List.getElem?_concat_length
  have hself : e'.procs[pid]? = some p' := by
    rw [hprocs]; exact List.getElem?_set_self hlt
  refine ⟨fun {k s q'} hw => ?_, fun {k s q'} hq' hs => ?_, fun {s sb'} hs' hal => ?_⟩
  · obtain ⟨hq', hs⟩ := hw
    rw [hprocs] at hq'
    rcases getElem?_set_some hq' with ⟨rfl, rfl⟩ | ⟨-, hq⟩
    · obtain rfl := Option.some.inj (hsid.symm.trans hs)
      exact ⟨hbox, sb, hnew, hpid, hwt⟩
    · obtain ⟨h1, x, hx, h2, h3⟩ := h.up ⟨hq, hs⟩
      exact ⟨h1, x, hold hx, h2, h3⟩
  · rw [hprocs] at hq'
    rcases getElem?_set_some hq' with ⟨rfl, rfl⟩ | ⟨-, hq⟩
    · obtain rfl := Option.some.inj (hbox.symm.trans hs)
      exact Or.inl hsid
    · refine (h.waited hq hs).imp id ?_
      rintro ⟨x, hx, h1⟩
      exact ⟨x, hold hx, h1⟩
  · rw [hsb] at hs'
    rcases getElem?_concat_some hs' with ⟨rfl, rfl⟩ | hs'
    · rw [hpid]
      exact ⟨p', ⟨hself, hsid⟩, hsuser.trans huser.symm⟩
    · obtain ⟨q, ⟨hq, hqs⟩, hu⟩ := h.alive hs' hal
      refine ⟨q, ⟨?_, hqs⟩, hu⟩
      rw [hprocs]
      have hne : sb'.pid ≠ pid := by
        rintro hk
        rw [hk] at hq
        obtain rfl := Option.some.inj (hp.symm.trans hq)
        rw [hno] at hqs; cases hqs
      exact (List.getElem?_set_ne (Ne.symm hne)).trans hq

/-- `cmd.Wait` returns for a sandbox that has exited. -/
theorem LaunchInv.wait (h : e.LaunchInv) (hw : Waits e pid sid p)
    (hsb : e.sandboxes[sid]? = some sb) (hdead : sb.alive = false)
    (hprocs : e'.procs = e.procs.set pid p')
    (hsbs : e'.sandboxes = e.sandboxes.set sid { sb with waited := true })
    (hsid : p'.launch.sid = none) (hbox : p'.sandbox = p.sandbox) : e'.LaunchInv := by
  obtain ⟨hp, hps⟩ := hw
  have hslt := (List.getElem?_eq_some_iff.1 hsb).1
  have hwaited : e'.sandboxes[sid]? = some { sb with waited := true } := by
    rw [hsbs]; exact List.getElem?_set_self hslt
  have hother : ∀ {s : ℕ}, s ≠ sid → e'.sandboxes[s]? = e.sandboxes[s]? := by
    intro s hs
    rw [hsbs]; exact List.getElem?_set_ne (Ne.symm hs)
  have howner : sb.pid = pid := by
    obtain ⟨-, x, hx, hpid, -⟩ := h.up ⟨hp, hps⟩
    rwa [← Option.some.inj (hsb.symm.trans hx)] at hpid
  refine ⟨fun {k s q'} hw => ?_, fun {k s q'} hq' hs => ?_, fun {s sb'} hs' hal => ?_⟩
  · obtain ⟨hq', hqs⟩ := hw
    rw [hprocs] at hq'
    rcases getElem?_set_some hq' with ⟨rfl, rfl⟩ | ⟨hk, hq⟩
    · rw [hsid] at hqs; cases hqs
    · obtain ⟨h1, x, hx, h2, h3⟩ := h.up ⟨hq, hqs⟩
      refine ⟨h1, x, (hother ?_).trans hx, h2, h3⟩
      rintro rfl
      obtain rfl := Option.some.inj (hsb.symm.trans hx)
      exact hk (h2.symm.trans howner)
  · by_cases hss : s = sid
    · rw [hss]; exact Or.inr ⟨_, hwaited, rfl⟩
    · rw [hother hss]
      rw [hprocs] at hq'
      rcases getElem?_set_some hq' with ⟨rfl, rfl⟩ | ⟨-, hq⟩
      · rcases h.waited hp (hbox.symm.trans hs) with h1 | h1
        · exact absurd (Option.some.inj (h1.symm.trans hps)) hss
        · exact Or.inr h1
      · exact h.waited hq hs
  · have hss : s ≠ sid := by
      rintro rfl
      obtain rfl := Option.some.inj (hwaited.symm.trans hs')
      have hal : sb.alive = true := hal
      rw [hdead] at hal; cases hal
    rw [hother hss] at hs'
    obtain ⟨q, ⟨hq, hqs⟩, hu⟩ := h.alive hs' hal
    refine ⟨q, ⟨?_, hqs⟩, hu⟩
    rw [hprocs]
    have hne : sb'.pid ≠ pid := by
      intro hk
      rw [hk] at hq
      obtain rfl := Option.some.inj (hp.symm.trans hq)
      exact hss (Option.some.inj (hqs.symm.trans hps))
    exact (List.getElem?_set_ne (Ne.symm hne)).trans hq

/-- A step of a process that starts and waits for no sandbox. -/
theorem LaunchInv.quiet {a : Process.Action} (h : e.LaunchInv) (hp : e.procs[pid]? = some p)
    (hs : Process.ProcStep p a p' outs) (hprocs : e'.procs = e.procs.set pid p')
    (hsb : e'.sandboxes = e.sandboxes) (hstart : ∀ sid, a ≠ .launchProcess (.started sid))
    (hwait : ∀ err, a ≠ .wait err) (hcgroup : ∀ err, a ≠ .cgroupError err) : e'.LaunchInv := by
  refine h.setProc hp hprocs hsb hs.user ?_
  cases hs.launch_case with
  | quiet h1 h2 => exact Or.inl ⟨h1, h2⟩
  | started ha _ _ _ => exact absurd ha (hstart _)
  | failed h1 h2 h3 => exact Or.inr ⟨by rw [h1]; rfl, h2, h3⟩
  | stopped ha _ _ _ =>
    rcases ha with ⟨err, ha⟩ | ⟨err, ha⟩
    · exact absurd ha (hwait err)
    · exact absurd ha (hcgroup err)

theorem LaunchInv.proc {a a' : Process.Action} (h : e.LaunchInv) (hp : e.procs[pid]? = some p)
    (hc : ProcCall e pid p a a' e₁) (hs : Process.ProcStep p a' p' outs)
    (hcgroup : ∀ err, a ≠ .cgroupError err) :
    ((e₁.setProc pid p').putExits p'.isOrigProcess outs).LaunchInv := by
  cases hc with
  | alone ha =>
    refine h.quiet hp hs rfl rfl (fun _ hx => ?_) (fun _ hx => ?_) hcgroup
    · subst hx; exact ha
    · subst hx; exact ha
  | txReq _ _ _ | tick | idleTxReq | toIdle _ _ _ | toBusy _ _ =>
    exact h.quiet hp hs rfl rfl nofun nofun nofun
  | launch =>
    obtain ⟨h1, h2, h3⟩ := hs.started
    exact h.started hp rfl rfl rfl rfl rfl hs.user (by rw [h1]; rfl) h2 h3
  | wait hl hsb hdead =>
    refine h.wait ⟨hp, by rw [hl]; rfl⟩ hsb hdead rfl rfl ?_ ?_
    · cases hs; rfl
    · cases hs; rfl

/-- Every step keeps processes and sandboxes together, unless writing a control group
    fails. -/
theorem LaunchInv.step {a : Action} (h : e.LaunchInv) (hs : EngStep e a e' outs)
    (hok : ∀ pid err, a ≠ .proc pid (.cgroupError err)) : e'.LaunchInv := by
  have hsame : ∀ {e' : Engine}, e'.procs = e.procs → SandboxesKept e e' → e'.LaunchInv := by
    intro e' hprocs hsb
    refine h.keep hsb (fun hp => Or.inl ⟨_, hprocs ▸ hp, rfl, rfl⟩) fun {pid sid p} hw => ?_
    exact ⟨p, ⟨hprocs ▸ hw.1, hw.2⟩, rfl⟩
  cases hs with
  | request | turn _ => exact hsame rfl (.refl rfl)
  | @job o _ _ _ _ _ _ e₁ pm ht hi hc hj =>
    have hsb : (e₁.settle o pm).sandboxes = e.sandboxes := hc.sandboxes
    rcases hc.procs with he | ⟨user, key, name, he⟩ | ⟨k, q, q', b, hq, he, hb, hs⟩
    · exact hsame he (.refl hsb)
    · have he : (e₁.settle o pm).procs = e.procs ++ [Process.new user key name o] := he
      refine h.keep (.refl hsb) (fun hp => ?_) fun {pid sid p} hw => ?_
      · rw [he] at hp
        rcases getElem?_concat_some hp with ⟨-, rfl⟩ | hp
        · exact Or.inr ⟨rfl, rfl⟩
        · exact Or.inl ⟨_, hp, rfl, rfl⟩
      · refine ⟨p, ⟨?_, hw.2⟩, rfl⟩
        rw [he, List.getElem?_append_left (List.getElem?_eq_some_iff.1 hw.1).1]
        exact hw.1
    · refine h.quiet hq hs he hsb ?_ ?_ ?_ <;>
      · rintro _ rfl
        cases hb
  | proc hp hc hs =>
    refine h.proc hp hc hs ?_
    rintro err rfl
    exact hok _ err rfl
  | connect hsb => exact hsame rfl (sandboxesKept_set hsb rfl rfl rfl fun h => h)
  | register _ _ hp hs | respond _ _ hp hs => exact h.quiet hp hs rfl rfl nofun nofun nofun
  | exit hsb => exact hsame rfl (sandboxesKept_set hsb rfl rfl rfl nofun)

/-- A signal that succeeds finds `launchProcess` running. -/
theorem LaunchInv.signalable (h : e.LaunchInv) (hp : e.procs[pid]? = some p)
    (hs : e.Signalable p = true) : p.launch.isUp = true := by
  obtain ⟨sb, hsb, hw⟩ := (Option.any_eq_true _ _).1 hs
  obtain ⟨sid, hsid, hget⟩ := Option.bind_eq_some_iff.1 hsb
  rcases h.waited hp hsid with hup | ⟨sb', hget', hw'⟩
  · exact Launch.isUp_of_sid hup
  · obtain rfl := Option.some.inj (hget.symm.trans hget')
    rw [hw'] at hw; cases hw

theorem LaunchInv.signalsRunning {a : Action} (h : e.LaunchInv) (hs : EngStep e a e' outs) :
    SignalsRunning e a := by
  cases hs with
  | @job o ok i t jobs j ev e₁ pm ht hi hc hj =>
    cases ok with
    | false => trivial
    | true =>
      intro p hp hst
      have hjob : e.jobAt o i = some j := by
        unfold jobAt
        rw [ht]
        exact hi
      unfold target at hp
      rw [hjob] at hp
      obtain ⟨pid, hpid, hp⟩ := Option.bind_eq_some_iff.1 hp
      cases hc with
      | killed hq _ _ _ hsig | closeKilled hq _ _ _ hsig =>
        cases hpid
        obtain rfl := Option.some.inj (hq.symm.trans hp)
        exact h.signalable hp hsig
      | refused hq hno | refusedClose hq hno =>
        cases hpid
        obtain rfl := Option.some.inj (hq.symm.trans hp)
        exact absurd hst hno
      | plain hpl => cases hpl <;> cases hpid
      | create _ | nameChange _ | leaveChange _ _ | leaveClose _ _ | release _ => cases hpid
  | _ => trivial

end Engine

end VmEngine
