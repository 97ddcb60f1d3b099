import Gopherd.Cron.Schedule
import Gopherd.Go.Duration
import Gopherd.Lib.Except
import Gopherd.Service.Process

/-!
A service object: the settings that `service.New` reads out of a process, and
the state of its current run. One run is known by its done channel, which is
created by `finishStart` and closed by `markExited`.
-/

namespace Gopherd

open Go

abbrev Pid := Nat
abbrev Chan := Nat

structure Backoff where
  delay : Duration
  factor : Float64
  limit : Duration
  attempt : Nat
  deriving DecidableEq, Inhabited

/-- `backoff.New`: settings that are not positive and finite are replaced. -/
def Backoff.new (delay : Duration) (factor : Float64) (limit : Duration) : Backoff where
  delay := if delay ≤ 0 then 500 * millisecond else delay
  factor :=
    match factor with
    | .finite value => if value ≤ 0 then .finite 2 else factor
    | _ => .finite 2
  limit := if limit ≤ 0 then 30 * secondDuration else limit
  attempt := 0

/-- `Reset` after a long enough run, and the attempt counted by `Next`. -/
def Backoff.afterRun (b : Backoff) (ran : Duration) : Backoff :=
  { b with attempt := (if ran ≥ b.limit then 0 else b.attempt) + 1 }

structure Service where
  proc : Process
  name : String
  enabled : Bool
  oneshot : Bool
  scheduled : Bool
  schedule : Option Cron.Schedule
  stopSignal : Signal
  killDelay : Duration
  onSuccess : ExitAction
  onFailure : ExitAction
  backoff : Backoff
  requires : List String
  onCheckFailure : GoMap String ExitAction
  controlSocket : String
  conds : Option FileConditions
  running : Bool
  stopped : Bool
  pid : Pid
  done : Option Chan
  deriving DecidableEq, Inhabited

inductive NewError where
  | schedule (name : String) (error : Cron.ParseError)
  | stopSignal (name text : String)
  | killDelay (name text : String) (error : DurationError)
  | negativeKillDelay (name text : String)
  | backoffDelay (name text : String) (error : DurationError)
  | backoffLimit (name text : String) (error : DurationError)
  | onCheckFailure (name check text : String)
  | onSuccess (name text : String)
  | onFailure (name text : String)
  deriving DecidableEq

def defaultKillDelay : Duration := 10 * secondDuration

/-- The error of a parse step, tagged with the setting it was made for. -/
def tagged {α ε : Type} (tag : ε → NewError) : Except ε α → Except NewError α
  | .ok value => .ok value
  | .error error => .error (tag error)

/-- An optional duration setting; the empty text gives the default. -/
def durationOr (defaultValue : Duration) (tag : DurationError → NewError) (text : String) :
    Except NewError Duration :=
  if text = "" then .ok defaultValue else tagged tag (parseDuration text)

def actionOr (defaultAction : ExitAction) (error : NewError) (text : String) :
    Except NewError ExitAction :=
  match parseExitAction text defaultAction with
  | some action => .ok action
  | none => .error error

def newSchedule (p : Process) : Except NewError (Option Cron.Schedule) :=
  if p.startup = .scheduled then
    (tagged (.schedule p.procName) (Cron.parse p.schedule)).map some
  else .ok none

def newStopSignal (name text : String) : Except NewError Signal :=
  match parseSignal text with
  | some signal => .ok signal
  | none => .error (.stopSignal name text)

def newKillDelay (p : Process) : Except NewError Duration := do
  let delay ← durationOr defaultKillDelay (.killDelay p.procName p.killDelay) p.killDelay
  if delay < 0 then .error (.negativeKillDelay p.procName p.killDelay) else pure delay

def newBackoff (p : Process) : Except NewError Backoff := do
  let delay ← durationOr 0 (.backoffDelay p.procName p.backoffDelay) p.backoffDelay
  let limit ← durationOr 0 (.backoffLimit p.procName p.backoffLimit) p.backoffLimit
  pure (Backoff.new delay p.backoffFactor limit)

/-- The check-failure actions; an empty action text means a restart. -/
def newOnCheckFailure (p : Process) : Except NewError (GoMap String ExitAction) :=
  match p.onCheckFailure.entries.find?
      (fun entry => (parseExitAction entry.2 .restart).isNone) with
  | some entry => .error (.onCheckFailure p.procName entry.1 entry.2)
  | none => .ok (p.onCheckFailure.mapValues
      (fun text => (parseExitAction text .restart).getD .restart))

/-- `service.New`. The exit actions left out of the process default to a
shutdown of the daemon. -/
def Service.new (p : Process) : Except NewError Service := do
  let schedule ← newSchedule p
  let stopSignal ← newStopSignal p.procName p.stopSignal
  let killDelay ← newKillDelay p
  let backoff ← newBackoff p
  let onCheckFailure ← newOnCheckFailure p
  let onSuccess ← actionOr .shutdown (.onSuccess p.procName p.onSuccess) p.onSuccess
  let onFailure ← actionOr .shutdown (.onFailure p.procName p.onFailure) p.onFailure
  pure {
    proc := p
    name := p.procName
    enabled := p.startup ≠ .disabled
    oneshot := p.startup = .oneshot
    scheduled := p.startup = .scheduled
    schedule, stopSignal, killDelay, onSuccess, onFailure, backoff, onCheckFailure
    requires := p.requires
    controlSocket := ""
    conds := none
    running := false
    stopped := false
    pid := 0
    done := none }

structure Service.BuiltFrom (p : Process) (svc : Service) : Prop where
  proc : svc.proc = p
  name : svc.name = p.procName
  enabled : svc.enabled = decide (p.startup ≠ .disabled)
  oneshot : svc.oneshot = decide (p.startup = .oneshot)
  scheduled : svc.scheduled = decide (p.startup = .scheduled)
  schedule : newSchedule p = .ok svc.schedule
  stopSignal : newStopSignal p.procName p.stopSignal = .ok svc.stopSignal
  killDelay : newKillDelay p = .ok svc.killDelay
  backoff : newBackoff p = .ok svc.backoff
  onCheckFailure : newOnCheckFailure p = .ok svc.onCheckFailure
  onSuccess : parseExitAction p.onSuccess .shutdown = some svc.onSuccess
  onFailure : parseExitAction p.onFailure .shutdown = some svc.onFailure
  requires : svc.requires = p.requires
  conds : svc.conds = none
  running : svc.running = false
  stopped : svc.stopped = false
  done : svc.done = none

theorem actionOr_eq_ok :
    actionOr defaultAction error text = .ok action ↔
      parseExitAction text defaultAction = some action := by
  unfold actionOr
  cases parseExitAction text defaultAction <;> simp

theorem Service.builtFrom_of_new (hnew : Service.new p = .ok svc) : svc.BuiltFrom p := by
  unfold Service.new at hnew
  obtain ⟨schedule, hschedule, hnew⟩ := Except.bind_eq_ok.mp hnew
  obtain ⟨stopSignal, hstopSignal, hnew⟩ := Except.bind_eq_ok.mp hnew
  obtain ⟨killDelay, hkillDelay, hnew⟩ := Except.bind_eq_ok.mp hnew
  obtain ⟨backoff, hbackoff, hnew⟩ := Except.bind_eq_ok.mp hnew
  obtain ⟨onCheckFailure, honCheckFailure, hnew⟩ := Except.bind_eq_ok.mp hnew
  obtain ⟨onSuccess, honSuccess, hnew⟩ := Except.bind_eq_ok.mp hnew
  obtain ⟨onFailure, honFailure, hnew⟩ := Except.bind_eq_ok.mp hnew
  obtain rfl := Except.pure_eq_ok.mp hnew
  exact {
    proc := rfl
    name := rfl
    enabled := rfl
    oneshot := rfl
    scheduled := rfl
    schedule := hschedule
    stopSignal := hstopSignal
    killDelay := hkillDelay
    backoff := hbackoff
    onCheckFailure := honCheckFailure
    onSuccess := actionOr_eq_ok.mp honSuccess
    onFailure := actionOr_eq_ok.mp honFailure
    requires := rfl
    conds := rfl
    running := rfl
    stopped := rfl
    done := rfl }

/-- `service.New` fails in one of its parts or not at all. -/
theorem Service.new_ok_iff (p : Process) :
    (∃ svc, Service.new p = .ok svc) ↔
      (∃ value, newSchedule p = .ok value) ∧
      (∃ value, newStopSignal p.procName p.stopSignal = .ok value) ∧
        (∃ value, newKillDelay p = .ok value) ∧ (∃ value, newBackoff p = .ok value) ∧
        (∃ value, newOnCheckFailure p = .ok value) ∧
        (∃ action, parseExitAction p.onSuccess .shutdown = some action) ∧
        (∃ action, parseExitAction p.onFailure .shutdown = some action) := by
  constructor
  · rintro ⟨svc, hnew⟩
    have h := Service.builtFrom_of_new hnew
    exact ⟨⟨_, h.schedule⟩, ⟨_, h.stopSignal⟩, ⟨_, h.killDelay⟩, ⟨_, h.backoff⟩,
      ⟨_, h.onCheckFailure⟩, ⟨_, h.onSuccess⟩, ⟨_, h.onFailure⟩⟩
  · rintro ⟨⟨schedule, hschedule⟩, ⟨stopSignal, hstopSignal⟩, ⟨killDelay, hkillDelay⟩,
      ⟨backoff, hbackoff⟩, ⟨onCheckFailure, honCheckFailure⟩, ⟨onSuccess, honSuccess⟩,
      ⟨onFailure, honFailure⟩⟩
    unfold Service.new
    rw [hschedule, hstopSignal, hkillDelay, hbackoff, honCheckFailure,
      actionOr_eq_ok.mpr honSuccess, actionOr_eq_ok.mpr honFailure]
    exact ⟨_, rfl⟩

/-- The live conditions: those of the last reload, or else the process's own. -/
def Service.unmetCondition (svc : Service) (files : String → FileStat) : Option SkipReason :=
  (svc.conds.getD svc.proc.fileConditions).unmet files

/-- `Stop`: a running service is marked as stopped on purpose and its process
group is signalled. -/
def Service.stop (svc : Service) : Service :=
  if svc.running then { svc with stopped := true } else svc

/-- `FinishStart` after the fork of `pid`, with `done` as the new channel. -/
def Service.finishStart (svc : Service) (pid : Pid) (done : Chan) : Service :=
  { svc with pid, done := some done, running := true, stopped := false }

/-- `MarkExited`; the caller closes the done channel. -/
def Service.markExited (svc : Service) : Service :=
  { svc with running := false, pid := 0, done := none }

def Service.remapExitCode (svc : Service) (code : Int) : Int :=
  (svc.proc.exitCodeMap.lookup code).getD code

end Gopherd
