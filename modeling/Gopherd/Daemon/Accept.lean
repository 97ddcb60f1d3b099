import Gopherd.Daemon.Applied
import Gopherd.Daemon.Progress
import Gopherd.Daemon.Single

/-!
What a fresh start asks of its configuration, and what a reload asks. Both load
it, count the users of the entrypoint arguments, order the processes and build
the services.
-/

namespace Gopherd.Daemon

open Go

inductive StartupError where
  | load (error : LoadError)
  | entrypointArgs
  | dependencies (error : Order.OrderError)
  | config (error : NewError)
  | oneshot (name text : String) (error : DurationError)
  | gate (error : GateError)
  deriving DecidableEq

def oneshotCheck (files : String → FileStat) (svc : Service) : Except StartupError Unit :=
  if svc.enabled && svc.oneshot && (svc.unmetCondition files).isNone then
    match startupWait svc.proc with
    | .error error => .error (.oneshot svc.name svc.proc.startupTimeout error)
    | .ok _ => .ok ()
  else .ok ()

def gateCheck (cfg : Config) (svc : Service) : Except StartupError Unit :=
  if svc.enabled && !svc.oneshot && !svc.scheduled then
    match readyGate cfg.checks svc.proc with
    | .error error => .error (.gate error)
    | .ok _ => .ok ()
  else .ok ()

namespace Core

def checkNamed (c : Core) (check : Service → Except StartupError Unit) (name : String) :
    Except StartupError Unit :=
  match c.services.lookup name with
  | none => .ok ()
  | some i => check (c.heap i)

def layerCheck (c : Core) (cfg : Config) (files : String → FileStat) (layer : List String) :
    Except StartupError Unit := do
  layer.forM (c.checkNamed (oneshotCheck files))
  layer.forM (c.checkNamed (gateCheck cfg))

end Core

/-- How far `run` comes when nothing but its configuration can stop it: forks
succeed, oneshots exit with success and probes pass. -/
def startup (input : BootInput) : Except StartupError Unit := do
  let cfg ← input.parsed.load.mapError .load
  if !cfg.entrypointUnique then .error .entrypointArgs
  let _ ← (Order.topoSort cfg.orderNodes).mapError .dependencies
  let layers ← (Order.topoLayers cfg.orderNodes).mapError .dependencies
  match Core.empty.buildServices cfg input.entrypointArgs input.controlSocket with
  | (_, some error) => .error (.config error)
  | (core, none) => layers.forM (core.layerCheck cfg input.files)

def bootable (cfg : Config) (files : String → FileStat) : Bool :=
  cfg.processes.all fun p =>
    (!longRunning p || (readyGate cfg.checks p).isOk) &&
      (p.startup ≠ .oneshot || (p.fileConditions.unmet files).isSome || (startupWait p).isOk)

def Action.isTouch : Action → Bool
  | .touch _ _ => true
  | _ => false

def State.configFault (s : State) : Prop :=
  (∃ i, .gate i .boot ∈ s.tasks ∧ (readyGate s.cfg.checks (s.core.heap i).proc).isOk = false) ∨
    ∃ waiting arrived fatal pos, s.main = .results waiting arrived fatal pos ∧
      ∃ proc ∈ waiting, (startupWait (s.core.heap proc.1).proc).isOk = false

variable {cfg : Config} {svc : Service} {files : String → FileStat} {s : State}

theorem gateCheck_eq_ok :
    gateCheck cfg svc = .ok () ↔ ((svc.enabled && !svc.oneshot && !svc.scheduled) = true →
      (readyGate cfg.checks svc.proc).isOk = true) := by
  unfold gateCheck
  split_ifs with hsvc
  · cases readyGate cfg.checks svc.proc <;> simp [hsvc, Except.isOk, Except.toBool]
  · simp [hsvc]

theorem oneshotCheck_eq_ok :
    oneshotCheck files svc = .ok () ↔ ((svc.enabled && svc.oneshot) = true →
      svc.unmetCondition files = none → (startupWait svc.proc).isOk = true) := by
  unfold oneshotCheck
  split_ifs with hsvc
  · rw [Bool.and_eq_true, Option.isNone_iff_eq_none] at hsvc
    cases startupWait svc.proc <;> simp [hsvc.1, hsvc.2, Except.isOk, Except.toBool]
  · rw [Bool.and_eq_true, Option.isNone_iff_eq_none] at hsvc
    simp only [true_iff]
    exact fun honeshot hmet => absurd ⟨honeshot, hmet⟩ hsvc

def Passes (cfg : Config) (files : String → FileStat) (svc : Service) : Prop :=
  oneshotCheck files svc = .ok () ∧ gateCheck cfg svc = .ok ()

/-- What the checks read does not change while the daemon runs. -/
theorem Passes.enduring (cfg : Config) (files : String → FileStat) :
    Enduring fun _ svc => Passes cfg files svc := by
  refine ⟨?_, id, id⟩
  intro _ svc h
  unfold Service.stop
  split_ifs
  · exact h
  · exact h

theorem layerCheck_eq_ok {c : Core} : c.layerCheck cfg files layer = .ok () ↔
      ∀ name ∈ layer, ∀ i, c.services.lookup name = some i → Passes cfg files (c.heap i) := by
  have hnamed : ∀ check name, c.checkNamed check name = .ok () ↔
      ∀ i, c.services.lookup name = some i → check (c.heap i) = .ok () := by
    intro check name
    unfold Core.checkNamed
    cases c.services.lookup name <;> simp
  unfold Core.layerCheck
  rw [Except.bind_eq_ok]
  constructor
  · rintro ⟨⟨⟩, honeshots, hgates⟩ name hname i hi
    exact ⟨(hnamed _ _).mp (Except.forM_eq_ok.mp honeshots name hname) i hi,
      (hnamed _ _).mp (Except.forM_eq_ok.mp hgates name hname) i hi⟩
  · intro hall
    exact ⟨(), Except.forM_eq_ok.mpr fun name hname =>
        (hnamed _ _).mpr fun i hi => (hall name hname i hi).1,
      Except.forM_eq_ok.mpr fun name hname =>
        (hnamed _ _).mpr fun i hi => (hall name hname i hi).2⟩

/-- The object built for a process passes if its gate and its wait can be set
up. -/
theorem built_passes (hnew : Service.new (resolveProcess cfg entrypointArgs p) = .ok new)
    (hsvc : svc = { new with controlSocket }) :
    Passes cfg files svc ↔ ((!longRunning p || (readyGate cfg.checks p).isOk) &&
      (p.startup ≠ .oneshot || (p.fileConditions.unmet files).isSome ||
        (startupWait p).isOk)) = true := by
  obtain ⟨hlong, hunmet⟩ := built_startable hnew hsvc
  have hbuilt := Service.builtFrom_of_new hnew
  have honeshot : (svc.enabled && svc.oneshot) = decide (p.startup = .oneshot) := by
    have henabled : new.enabled = decide (p.startup ≠ .disabled) := hbuilt.enabled
    have honeshot : new.oneshot = decide (p.startup = .oneshot) := hbuilt.oneshot
    rw [hsvc]
    cases hstartup : p.startup <;> simp [henabled, honeshot, hstartup]
  have hgate : readyGate cfg.checks svc.proc = readyGate cfg.checks p := by
    rw [hsvc, show ({ new with controlSocket } : Service).proc = new.proc from rfl, hbuilt.proc]
    rfl
  have hwait : startupWait svc.proc = startupWait p := by
    rw [hsvc, show ({ new with controlSocket } : Service).proc = new.proc from rfl, hbuilt.proc]
    rfl
  rw [Passes, oneshotCheck_eq_ok, gateCheck_eq_ok, hlong, hunmet, honeshot, hgate, hwait]
  cases longRunning p <;> cases p.fileConditions.unmet files <;>
    simp [and_comm, or_iff_not_imp_left]

section accepted

variable {parsed : Parsed} {cfg : Config} {startOrder : List String}
  (hload : State.loadConfig parsed = some (cfg, startOrder)) (entrypointArgs : List String)
  (controlSocket : String)

include hload

/-- The layers and the services of an accepted configuration. -/
theorem loadConfig_builds : ∃ layers core,
    Order.topoLayers cfg.orderNodes = .ok layers ∧
      layers.flatten.Perm (cfg.processes.map Process.procName) ∧
      Core.empty.buildServices cfg entrypointArgs controlSocket = (core, none) ∧
      Built (cfg.processes.map (resolveProcess cfg entrypointArgs)) controlSocket
        Core.empty core := by
  obtain ⟨-, -, hsort, hnew⟩ := loadConfig_passed hload
  obtain ⟨layers, hlayers, hof⟩ := Order.topoLayers_of_topoSort hsort
  have hnone : (Core.empty.buildServices cfg entrypointArgs controlSocket).2 = none := by
    apply buildLoop_ok
    intro r hr
    obtain ⟨p, hp, rfl⟩ := List.mem_map.mp hr
    exact new_resolveProcess_ok (hnew p hp)
  have hbuild : Core.empty.buildServices cfg entrypointArgs controlSocket =
      ((Core.empty.buildServices cfg entrypointArgs controlSocket).1, none) := by
    rw [← hnone]
  exact ⟨layers, _, hlayers, orderNodes_names cfg ▸ hof.perm, hbuild, buildLoop_built hbuild⟩

/-- The object built for a process. -/
theorem built_process
    (hbuilt : Built (cfg.processes.map (resolveProcess cfg entrypointArgs)) controlSocket
      Core.empty core) (hp : p ∈ cfg.processes) :
    ∃ i new, core.services.lookup p.procName = some i ∧
      Service.new (resolveProcess cfg entrypointArgs p) = .ok new ∧
      core.heap i = { new with controlSocket } := by
  have hsome : (core.services.lookup p.procName).isSome := by
    rw [hbuilt.covered]
    refine .inr (List.mem_map.mpr ⟨_, List.mem_map.mpr ⟨p, hp, rfl⟩, rfl⟩)
  obtain ⟨i, hlookup⟩ := Option.isSome_iff_exists.mp hsome
  obtain ⟨-, q, hq, hname, new, hnew, heq⟩ := built_named rfl hbuilt hlookup
  obtain rfl : q = p :=
    List.inj_on_of_nodup_map (distinct_of_sorted (loadConfig_sorted hload)) hq hp hname
  exact ⟨i, new, hlookup, hnew, heq⟩

/-- The services of an accepted configuration pass if the configuration is
bootable. -/
theorem services_pass_iff {files : String → FileStat}
    (hbuilt : Built (cfg.processes.map (resolveProcess cfg entrypointArgs)) controlSocket
      Core.empty core) :
    (∀ name ∈ cfg.processes.map Process.procName, ∀ i, core.services.lookup name = some i →
      Passes cfg files (core.heap i)) ↔ bootable cfg files = true := by
  rw [bootable, List.all_eq_true]
  constructor
  · intro hall p hp
    obtain ⟨i, new, hlookup, hnew, heq⟩ :=
      built_process hload entrypointArgs controlSocket hbuilt hp
    exact (built_passes hnew heq).mp (hall _ (List.mem_map_of_mem hp) i hlookup)
  · intro hall name _ i hlookup
    obtain ⟨-, p, hp, -, new, hnew, heq⟩ := built_named rfl hbuilt hlookup
    exact (built_passes hnew heq).mpr (hall p hp)

theorem startup_eq_ok (files : String → FileStat) :
    startup ⟨parsed, entrypointArgs, controlSocket, files⟩ = .ok () ↔
      bootable cfg files = true := by
  obtain ⟨hparsed, hunique, hsort, -⟩ := loadConfig_passed hload
  obtain ⟨layers, core, hlayers, hperm, hbuild, hbuilt⟩ :=
    loadConfig_builds hload entrypointArgs controlSocket
  have hstartup : startup ⟨parsed, entrypointArgs, controlSocket, files⟩ =
      layers.forM (core.layerCheck cfg files) := by
    simp [startup, hparsed, hunique, hsort, hlayers, hbuild, Except.mapError, bind, Except.bind]
  rw [hstartup, Except.forM_eq_ok, ← services_pass_iff hload _ _ hbuilt]
  simp only [layerCheck_eq_ok, ← hperm.mem_iff, List.mem_flatten]
  constructor
  · rintro hall name ⟨layer, hlayer, hname⟩
    exact hall layer hlayer name hname
  · intro hall layer hlayer name hname
    exact hall name ⟨layer, hlayer, hname⟩

end accepted

/-- The oneshots of the layer in progress that are still to be waited for. -/
def MainPc.toAwait : MainPc → List InstId
  | .oneshots _ procs _ => procs.map Prod.fst
  | .oneshotStart i _ procs _ => i :: procs.map Prod.fst
  | .results waiting _ _ _ => waiting.map Prod.fst
  | _ => []

theorem MainMove.toAwait (hmove : MainMove s before after) :
    after.toAwait ⊆ before.toAwait ∨ ∃ i, ((s.core.heap i).enabled && (s.core.heap i).oneshot) =
      true ∧ (s.core.heap i).unmetCondition s.files = none ∧
      after.toAwait = i :: before.toAwait := by
  cases hmove with
  | oneshot _ hsvc hmet => exact .inr ⟨_, hsvc, hmet, rfl⟩
  | expired => exact .inl (List.map_subset _ List.erase_subset)
  | _ => left; simp [MainPc.toAwait]

theorem MainEvent.toAwait (hevent : MainEvent s choice s') : s'.main.toAwait ⊆ s.main.toAwait := by
  cases hevent with
  | oneshotStarted hmain => simp [MainPc.toAwait, hmain, List.subset_def, or_comm]
  | oneshotCollected hmain =>
    rw [hmain]
    exact List.map_subset _ List.erase_subset
  | oneshotTimedOut hmain => simp [MainPc.toAwait, hmain]
  | oneshotExited hmain => simp [MainPc.toAwait, hmain]
  | reaped => simp [MainPc.toAwait]
  | @exited pid status times =>
    have hreap := stepReaped_afterReap s pid status times
    generalize (s.stepReaped pid status times).main = main at hreap
    cases main <;> simp_all [MainPc.afterReap, MainPc.toAwait]

structure Faultless (cfg : Config) (files : String → FileStat) (s : State) : Prop where
  installed : s.started = false → s.cfg = cfg
  untouched : s.files = files
  objects : s.started = false → ∀ i, Passes cfg files (s.core.heap i)
  gates : ∀ i, .gate i .boot ∈ s.tasks →
    s.started = false ∧ (readyGate cfg.checks (s.core.heap i).proc).isOk = true
  awaited : s.started = false → ∀ i ∈ s.main.toAwait,
    (startupWait (s.core.heap i).proc).isOk = true

theorem StartNext.ne_gate_boot (h : StartNext i caller result t) : t ≠ .gate j .boot := by
  rintro rfl
  cases h with
  | gate h => cases h.isBoot

/-- Only the boot itself opens a gate of the boot. -/
theorem NewTask.gate_boot (h : NewTask s action (.gate i .boot)) :
    (∃ todo pos, s.main = .spawn todo pos) ∧ ((s.core.heap i).enabled &&
      !(s.core.heap i).oneshot && !(s.core.heap i).scheduled) = true := by
  generalize ht : Task.gate i .boot = t at h
  cases h with
  | follows hmem h =>
    cases h with
    | gateFailed h => subst ht; cases h.isBoot
    | startSkipped h | startFailed h | startLate _ h | startReplaced _ h | startRunning _ h =>
      exact absurd ht.symm h.ne_gate_boot
    | notify h => subst ht; cases h.isBoot
    | notifyFailed h => subst ht; cases h.isBoot
    | shutdown h => subst ht; cases h.isBoot
    | _ => cases ht
  | @unobserved t _ hmem h =>
    cases t with
    | gate j caller => cases caller <;> cases ht; cases h
    | start i pc caller => cases caller <;> cases ht
    | shutdown code caller => cases caller <;> cases ht
    | _ => cases ht
  | forked _ h => exact absurd ht.symm h.ne_gate_boot
  | forkFailed _ h => exact absurd ht.symm h.ne_gate_boot
  | stopped _ _ h => subst ht; cases h.isBoot
  | main h =>
    subst ht
    cases h with
    | gate hmain _ hsvc =>
      rw [Bool.and_eq_true] at hsvc
      exact ⟨⟨_, _, hmain⟩, hsvc.1⟩
  | arrives h =>
    subst ht
    generalize ht : Task.gate i .boot = t at h
    cases h with
    | @request request => cases request <;> cases ht
    | _ => cases ht
  | _ => cases ht

namespace Faultless

variable {cfg : Config} {files : String → FileStat} {s s' : State}

theorem step (h : Faultless cfg files s) (hbooting : Booting s) (hprogress : Progress s)
    (hstep : s.step action = some s') (htouch : ∀ path stat, action ≠ .touch path stat) :
    Faultless cfg files s' := by
  have hbefore : s'.started = false → s.started = false := by
    intro hstarted
    rcases (step_frame hstep).started with hsame | ⟨hbegin, -⟩
    · exact hsame ▸ hstarted
    · exact hbooting.started (by rw [hbegin]; rfl)
  have hother : s.started = false → ∀ origin cfg startOrder,
      s.reload = .locking origin cfg startOrder → s' ≠ s.reloadSection origin cfg startOrder := by
    intro hstarted origin cfg startOrder hlocking
    rw [hbooting.reload hstarted] at hlocking
    cases hlocking
  have hproc : s.started = false → ∀ i, (s'.core.heap i).proc = (s.core.heap i).proc :=
    fun hstarted i => (Applied.step_settings hstep (hother hstarted) i).1
  refine ⟨?_, ?_, ?_, ?_, ?_⟩
  · intro hstarted
    rcases step_installed hstep with hsame | ⟨_, origin, cfg', startOrder, -, hlocking, -, -, heq⟩
    · have hcfg : s'.cfg = s.cfg := congrArg Installed.cfg hsame
      rw [hcfg, h.installed (hbefore hstarted)]
    · exact absurd heq (hother (hbefore hstarted) origin cfg' startOrder hlocking)
  · rcases (step_frame hstep).files with hsame | ⟨path, stat, rfl⟩
    · exact hsame.trans h.untouched
    · exact absurd rfl (htouch path stat)
  · intro hstarted
    refine (Passes.enduring cfg files).step hstep (h.objects (hbefore hstarted)) ?_ ?_
    · exact fun i _ _ _ => h.objects (hbefore hstarted) i
    · exact fun origin cfg startOrder hlocking heq =>
        absurd heq (hother (hbefore hstarted) origin cfg startOrder hlocking)
  · intro i hmem
    rcases step_tasks hstep hmem with hold | hnew
    · obtain ⟨hstarted, hgate⟩ := h.gates i hold
      refine ⟨?_, by rw [hproc hstarted]; exact hgate⟩
      -- the boot is over only once its gates are gone
      rcases (step_frame hstep).started with hsame | ⟨hbegin, -⟩
      · rw [hsame]
        exact hstarted
      · have hdone := hprogress.launched (by rw [hbegin]; rfl) (step_cases hstep).1
        cases (s.bootDone_iff.mp hdone).1 _ hold
    · obtain ⟨⟨todo, pos, hmain⟩, hsvc⟩ := hnew.gate_boot
      have hstarted := hbooting.started (by rw [hmain]; rfl)
      refine ⟨?_, ?_⟩
      · rcases (step_frame hstep).started with hsame | ⟨hbegin, -⟩
        · exact hsame.trans hstarted
        · rw [hmain] at hbegin
          cases hbegin
      · rw [hproc hstarted]
        exact gateCheck_eq_ok.mp (h.objects hstarted i).2 hsvc
  · intro hstarted i hi
    rw [hproc (hbefore hstarted)]
    have hold : ∀ {i}, i ∈ s.main.toAwait → (startupWait (s.core.heap i).proc).isOk = true :=
      fun hi => h.awaited (hbefore hstarted) _ hi
    cases step_main hstep with
    | same hsame => exact hold (hsame ▸ hi)
    | aborted haborted => rw [haborted] at hi; cases hi
    | panicked hpanicked => rw [hpanicked] at hi; cases hi
    | moved hframe =>
      rcases hframe.move.toAwait with hsub | ⟨j, hsvc, hmet, heq⟩
      · exact hold (hsub hi)
      · rw [heq] at hi
        rcases List.mem_cons.mp hi with rfl | hi
        · have hpass := (h.objects (hbefore hstarted) i).1
          exact oneshotCheck_eq_ok.mp hpass hsvc (h.untouched ▸ hmet)
        · exact hold hi
    | event hevent => exact hold (hevent.toAwait hi)

theorem not_configFault (h : Faultless cfg files s) (hbooting : Booting s) : ¬ s.configFault := by
  rintro (⟨i, hmem, hfault⟩ | ⟨waiting, arrived, fatal, pos, hmain, proc, hproc, hfault⟩)
  · obtain ⟨hstarted, hgate⟩ := h.gates i hmem
    rw [h.installed hstarted, hgate] at hfault
    cases hfault
  · have hstarted := hbooting.started (by rw [hmain]; rfl)
    have hdue : proc.1 ∈ s.main.toAwait := by
      rw [hmain]
      exact List.mem_map_of_mem hproc
    rw [h.awaited hstarted _ hdue] at hfault
    cases hfault

/-- The start of an accepted configuration that is bootable. -/
theorem of_boot (hload : State.loadConfig parsed = some (cfg, startOrder))
    (hbootable : bootable cfg files = true) :
    ∃ start, boot ⟨parsed, entrypointArgs, controlSocket, files⟩ = some start ∧
      Faultless cfg files start := by
  obtain ⟨hparsed, hunique, hsort, -⟩ := loadConfig_passed hload
  obtain ⟨layers, core, hlayers, -, hbuild, hbuilt⟩ :=
    loadConfig_builds hload entrypointArgs controlSocket
  have hobjects : ∀ i, Passes cfg files (core.heap i) := by
    intro i
    rcases hbuilt.new i (Nat.zero_le i) with hdefault | ⟨r, hr, new, hnew, heq⟩
    · rw [hdefault]
      exact ⟨oneshotCheck_eq_ok.mpr (by rintro ⟨⟩), gateCheck_eq_ok.mpr (by rintro ⟨⟩)⟩
    · obtain ⟨p, hp, rfl⟩ := List.mem_map.mp hr
      exact (built_passes hnew heq).mpr (List.all_eq_true.mp hbootable p hp)
  unfold boot
  simp only [hparsed, hunique, hsort, hlayers, hbuild]
  refine ⟨_, rfl, ?_⟩
  exact ⟨fun _ => rfl, rfl, fun _ => hobjects, by simp, by simp [MainPc.toAwait]⟩

theorem of_runs (hboots : Boots start) (h : Faultless cfg files start)
    (hrun : Transition.Runs State.step (fun _ action => action.isTouch = false) start s) :
    Faultless cfg files s ∧ Booting s ∧ Progress s := by
  induction hrun with
  | refl => exact ⟨h, .of_fresh hboots.fresh, .of_fresh hboots.fresh⟩
  | tail action _ huntouched hstep ih =>
    obtain ⟨h, hbooting, hprogress⟩ := ih
    refine ⟨h.step hbooting hprogress hstep ?_, hbooting.step hstep, hprogress.step hstep⟩
    rintro path stat rfl
    cases huntouched

end Faultless

/-- An accepted configuration whose gates and waits can be set up is not
refused by a start, and no other one is let through. -/
theorem accepted_config_starts_iff {parsed : Parsed} {cfg : Config} {startOrder : List String}
    (entrypointArgs : List String) (controlSocket : String) (files : String → FileStat)
    (hload : State.loadConfig parsed = some (cfg, startOrder)) :
    (startup ⟨parsed, entrypointArgs, controlSocket, files⟩ = .ok () ↔
      bootable cfg files = true) ∧
    (bootable cfg files = true → ∃ start,
      boot ⟨parsed, entrypointArgs, controlSocket, files⟩ = some start ∧
      ∀ s, Transition.Runs State.step (fun _ action => action.isTouch = false) start s →
        ¬ s.configFault) := by
  refine ⟨startup_eq_ok hload _ _ files, ?_⟩
  intro hbootable
  obtain ⟨start, hboot, hfaultless⟩ := Faultless.of_boot hload hbootable
  refine ⟨start, hboot, ?_⟩
  intro s hrun
  obtain ⟨h, hbooting, -⟩ := hfaultless.of_runs ⟨_, hboot⟩ hrun
  exact h.not_configFault hbooting

def gatedWeb : Process :=
  { webProcess with readyCheck := "db" }

def hastyOneshot : Process :=
  { Process.empty with
    name := "init", command := "/bin/init", startup := .oneshot, startupTimeout := "soon" }

def dbChecks : GoMap String CheckConfig :=
  (∅ : GoMap String CheckConfig).insert "db" (execCheck "/bin/db")

/-- With the check in place the configuration starts. -/
theorem checked_web_starts :
    let input := { plainInput [gatedWeb] with
      parsed := { plainConfig [gatedWeb] with checks := dbChecks } }
    startup input = .ok () ∧ ∃ start, boot input = some start ∧
      ∀ s, Transition.Runs State.step (fun _ action => action.isTouch = false) start s →
        ¬ s.configFault := by
  have hload : State.loadConfig { plainConfig [gatedWeb] with checks := dbChecks } =
      some ({ loadedConfig [gatedWeb] with checks := dbChecks }, ["web"]) := by
    decide +kernel
  have hbootable : bootable { loadedConfig [gatedWeb] with checks := dbChecks }
      (fun _ => .missing) = true := by
    decide +kernel
  obtain ⟨hstartup, hruns⟩ :=
    accepted_config_starts_iff [] "/run/gopherd.sock" (fun _ => .missing) hload
  exact ⟨hstartup.mpr hbootable, hruns hbootable⟩

/-- A running daemon installs both configurations, and a start with either of
them gives up. -/
theorem reload_installs_what_startup_refuses :
    ((run (fun _ _ => true) (plainInput [webProcess])
        (bootActions 100 ++ reloadActions [gatedWeb])).map
      fun s => decide (s.cfg.processes = [gatedWeb])) = some true ∧
    startup (plainInput [gatedWeb]) = .error (.gate (.checkMissing "web" "db")) ∧
    ((run (fun _ _ => true) (plainInput [gatedWeb])
        (List.replicate 6 (.main .go) ++ [.run (.gate 0 .boot) .go])).map
      fun s => decide (s.main = .aborted)) = some true ∧
    ((run (fun _ _ => true) (plainInput [webProcess])
        (bootActions 100 ++ reloadActions [hastyOneshot])).map
      fun s => decide (s.cfg.processes = [hastyOneshot])) = some true ∧
    startup (plainInput [hastyOneshot]) =
      .error (.oneshot "init" "soon" (.invalid "soon")) := by
  decide +kernel

end Gopherd.Daemon
