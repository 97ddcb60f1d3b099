import Gopherd.Daemon.Objects

/-!
A call of `reload` as a whole, with the error of each check and with the log
targets, which nothing but `reload` changes after the boot.
-/

namespace Gopherd.Daemon

open Go

structure LogTarget where
  name : String
  services : List String
  deriving DecidableEq

/-- `AppliesTo`: without a list the target is for all services. -/
def LogTarget.appliesTo (target : LogTarget) (service : String) : Bool :=
  target.services = [] || service ∈ target.services

inductive ReloadError where
  | starting
  | unreadable
  | unmarshal (message : String)
  | config (error : LoadError)
  | entrypointArgs
  | dependencies (error : Order.OrderError)
  | process (error : NewError)
  | shuttingDown
  | build (error : NewError)
  deriving DecidableEq

def dryRun (cfg : Config) : Except NewError Unit :=
  cfg.processes.forM fun p => (Service.new p).map fun _ => ()

def validate (parsed : Parsed) : Except ReloadError (Config × List String) :=
  match parsed.load with
  | .error error => .error (.config error)
  | .ok cfg =>
    if !cfg.entrypointUnique then .error .entrypointArgs
    else
      match Order.topoSort cfg.orderNodes with
      | .error error => .error (.dependencies error)
      | .ok startOrder =>
        match dryRun cfg with
        | .error error => .error (.process error)
        | .ok _ => .ok (cfg, startOrder)

theorem dryRun_ok_iff (cfg : Config) :
    dryRun cfg = .ok () ↔ cfg.processes.all (fun p => (Service.new p).isOk) = true := by
  unfold dryRun
  rw [Except.forM_eq_ok, List.all_eq_true]
  constructor <;> intro h p hp <;> have hnew := h p hp <;> revert hnew <;>
    cases Service.new p <;> simp [Except.isOk, Except.toBool, Except.map]

/-- The steps of the daemon make the same checks. -/
theorem validate_toOption (parsed : Parsed) :
    (validate parsed).toOption = State.loadConfig parsed := by
  unfold validate State.loadConfig
  cases parsed.load with
  | error => rfl
  | ok cfg =>
    cases hunique : cfg.entrypointUnique with
    | false => simp [hunique, Except.toOption]
    | true =>
      cases hsort : Order.topoSort cfg.orderNodes with
      | error => simp [hsort, hunique, Except.toOption]
      | ok startOrder =>
        have hdry := dryRun_ok_iff cfg
        cases hrun : dryRun cfg with
        | error error =>
          rw [hrun] at hdry
          have hfails : ¬ cfg.processes.all (fun p => (Service.new p).isOk) = true := by
            intro h
            cases hdry.mpr h
          simp only [hunique, hsort, Bool.not_true, Bool.false_eq_true, if_false, hfails,
            hrun]
          rfl
        | ok =>
          simp only [hunique, hsort, Bool.not_true, Bool.false_eq_true, if_false,
            hdry.mp hrun, if_true, hrun]
          rfl

theorem validate_not_build (hinvalid : validate parsed = .error error) (cause : NewError) :
    error ≠ .build cause := by
  rintro rfl
  unfold validate at hinvalid
  split at hinvalid
  · cases hinvalid
  · split at hinvalid
    · cases hinvalid
    · split at hinvalid
      · cases hinvalid
      · split at hinvalid <;> cases hinvalid

structure Logged where
  state : State
  targets : List LogTarget
  writers : InstId → List LogTarget

namespace Logged

/-- The writers after the section: those of the old services are disconnected,
those of the services in the new map are connected to the new targets. -/
def rewire (d : Logged) (core : Core) (targets : List LogTarget) (i : InstId) :
    List LogTarget :=
  if core.isCurrent i then targets.filter (fun target => target.appliesTo (core.name i))
  else if d.state.core.isCurrent i then []
  else d.writers i

/-- The locked section of `reload`; targets that cannot be opened are left out. -/
def reloadSection (d : Logged) (opens : LogTarget → Bool) (cfg : Config)
    (startOrder : List String) (targets : List LogTarget) : Logged × Except ReloadError Unit :=
  let state := d.state.reloadSection .control cfg startOrder
  let opened := targets.filter opens
  let after : Logged := ⟨state, opened, d.rewire state.core opened⟩
  match (d.state.core.reload cfg d.state.entrypointArgs d.state.controlSocket).2 with
  | .error error => (after, .error (.build error))
  | .ok _ => (after, .ok ())

/-- `reload` up to the end of its locked section, after which it returns no
error. The file has the given text, or cannot be read, and `unmarshal` is the
first part of `yml.Unmarshal`. -/
def reload (unmarshal : String → Except String (Parsed × List LogTarget))
    (opens : LogTarget → Bool) (d : Logged) (text : Option String) :
    Logged × Except ReloadError Unit :=
  if !d.state.started then (d, .error .starting)
  else
    match text with
    | none => (d, .error .unreadable)
    | some text =>
      match unmarshal text with
      | .error message => (d, .error (.unmarshal message))
      | .ok (parsed, targets) =>
        match validate parsed with
        | .error error => (d, .error error)
        | .ok (cfg, startOrder) =>
          if d.state.shuttingDown then (d, .error .shuttingDown)
          else d.reloadSection opens cfg startOrder targets

/-- A configuration that passed the checks gets through the locked section. -/
theorem reloadSection_ok (hvalid : validate parsed = .ok (cfg, startOrder)) (d : Logged)
    (opens : LogTarget → Bool) (targets : List LogTarget) :
    (d.reloadSection opens cfg startOrder targets).2 = .ok () := by
  have hload : State.loadConfig parsed = some (cfg, startOrder) := by
    rw [← validate_toOption, hvalid]
    rfl
  obtain ⟨core, dones, hreload⟩ := reload_ok (loadConfig_new hload) d.state.core
    d.state.entrypointArgs d.state.controlSocket
  simp only [reloadSection, hreload]

end Logged

/-- A reload that returns an error has changed nothing, and its error is never
one of rebuilding the services. -/
theorem reload_all_or_nothing (unmarshal : String → Except String (Parsed × List LogTarget))
    (opens : LogTarget → Bool) (d : Logged) (text : Option String) {d' : Logged}
    {error : ReloadError} (hfailed : d.reload unmarshal opens text = (d', .error error)) :
    d' = d ∧ ∀ cause, error ≠ .build cause := by
  unfold Logged.reload at hfailed
  split at hfailed
  · cases hfailed
    exact ⟨rfl, nofun⟩
  · split at hfailed
    · cases hfailed
      exact ⟨rfl, nofun⟩
    · split at hfailed
      · cases hfailed
        exact ⟨rfl, nofun⟩
      · next parsed targets _ =>
          split at hfailed
          · next hinvalid =>
              cases hfailed
              exact ⟨rfl, validate_not_build hinvalid⟩
          · next cfg startOrder hvalid =>
              split at hfailed
              · cases hfailed
                exact ⟨rfl, nofun⟩
              · have hok := Logged.reloadSection_ok hvalid d opens targets
                rw [hfailed] at hok
                cases hok

/-- A text that names a service twice leaves a daemon that runs `web` as it is. -/
theorem duplicate_service_refused : ∃ s d, run (fun _ _ => true) (plainInput [webProcess])
      (bootActions 100) = some s ∧ d = Logged.mk s [⟨"all", []⟩] (fun _ => []) ∧
    ∃ error, d.reload (fun _ => .ok (plainConfig [webProcess, webProcess], [])) (fun _ => true)
        (some "processes: [web, web]") = (d, .error error) ∧ ∀ cause, error ≠ .build cause := by
  have hrun : (run (fun _ _ => true) (plainInput [webProcess]) (bootActions 100)).map
      (fun s => s.started) = some true := by
    decide +kernel
  obtain ⟨s, hs, hstarted⟩ := Option.map_eq_some_iff.mp hrun
  have hinvalid : validate (plainConfig [webProcess, webProcess]) =
      .error (.dependencies (.duplicateName "web")) := by
    decide +kernel
  have hfailed : (Logged.mk s [⟨"all", []⟩] (fun _ => [])).reload
      (fun _ => .ok (plainConfig [webProcess, webProcess], [])) (fun _ => true)
      (some "processes: [web, web]") =
      (Logged.mk s [⟨"all", []⟩] (fun _ => []), .error (.dependencies (.duplicateName "web"))) := by
    simp only [Logged.reload, hstarted, hinvalid]
    rfl
  exact ⟨s, _, hs, rfl, _, hfailed, (reload_all_or_nothing _ _ _ _ hfailed).2⟩

end Gopherd.Daemon
