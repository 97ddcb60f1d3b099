import Gopherd.Config.Load
import Gopherd.Daemon.Core

/-!
The reconciliation of the services with a new configuration: the section of
`reload` that runs under `d.mu`.
-/

namespace Gopherd.Daemon

open Go

/-- `processConfigChanged`: whether a setting that the running process depends
on differs. -/
def processConfigChanged (oldp newp : Process) : Bool :=
  oldp.prefixText ≠ newp.prefixText ||
  oldp.startup ≠ newp.startup ||
  oldp.command ≠ newp.command ||
  oldp.args ≠ newp.args ||
  oldp.user ≠ newp.user || oldp.group ≠ newp.group ||
  oldp.userID ≠ newp.userID || oldp.groupID ≠ newp.groupID ||
  oldp.umask ≠ newp.umask ||
  oldp.strictGroups ≠ newp.strictGroups ||
  oldp.workingDir ≠ newp.workingDir ||
  oldp.stopSignal ≠ newp.stopSignal ||
  oldp.passEnv ≠ newp.passEnv ||
  oldp.logCapture ≠ newp.logCapture ||
  oldp.exportSocket ≠ newp.exportSocket ||
  !oldp.environment.equal newp.environment ||
  oldp.removeEnv ≠ newp.removeEnv ||
  oldp.dotEnv ≠ newp.dotEnv ||
  oldp.dotEnvFollow ≠ newp.dotEnvFollow ||
  oldp.readyCheck ≠ newp.readyCheck ||
  oldp.readyTimeout ≠ newp.readyTimeout ||
  oldp.killDelay ≠ newp.killDelay ||
  oldp.sdNotify ≠ newp.sdNotify ||
  oldp.sdNotifyTimeout ≠ newp.sdNotifyTimeout ||
  oldp.parentDeathSignal ≠ newp.parentDeathSignal

/-- An object that loses its place: its exit is ignored and it is stopped. -/
def retire (svc : Service) : Service :=
  { svc with onSuccess := .ignore, onFailure := .ignore }.stop

/-- The settings a running object takes over from the new one. -/
def keepRunning (oldSvc newSvc : Service) : Service :=
  { oldSvc with
    onSuccess := newSvc.onSuccess
    onFailure := newSvc.onFailure
    onCheckFailure := newSvc.onCheckFailure
    requires := newSvc.requires
    proc := { oldSvc.proc with
      exitCodeMap := newSvc.proc.exitCodeMap
      signalRewrite := newSvc.proc.signalRewrite
      restartWithDependents := newSvc.proc.restartWithDependents }
    conds := some newSvc.proc.fileConditions }

/-- What `buildServices` passes to `service.New` for a process: the entrypoint
arguments are appended and the global prefix is filled in. -/
def resolveProcess (cfg : Config) (entrypointArgs : List String) (p : Process) : Process :=
  { p with
    args := if p.useEntrypointArgs then p.args ++ entrypointArgs else p.args
    prefixText := if p.prefixText = "" then cfg.globalPrefix else p.prefixText }

namespace Core

def addService (c : Core) (svc : Service) : Core :=
  { c with
    services := c.services.insert svc.name c.nextInst
    heap := Function.update c.heap c.nextInst svc
    nextInst := c.nextInst + 1
    metrics := c.metrics.register svc.name svc.enabled }

/-- The loop of `buildServices`; an error leaves what was built so far. -/
def buildLoop (controlSocket : String) : List Process → Core → Core × Option NewError
  | [], c => (c, none)
  | p :: rest, c =>
    match Service.new p with
    | .error error => (c, some error)
    | .ok svc => buildLoop controlSocket rest (c.addService { svc with controlSocket })

def buildServices (cfg : Config) (entrypointArgs : List String) (controlSocket : String)
    (c : Core) : Core × Option NewError :=
  buildLoop controlSocket (cfg.processes.map (resolveProcess cfg entrypointArgs))
    { c with services := ∅ }

def removeServices (newNames : List String) (c : Core) : Core :=
  c.services.entries.foldl
    (fun c entry => if entry.1 ∈ newNames then c else c.modify entry.2 retire) c

def dropMetrics (old : GoMap String InstId) (c : Core) : Core :=
  { c with
    metrics := old.keys.foldl
      (fun m name => if (c.services.lookup name).isSome then m else m.unregister name)
      c.metrics }

/-- The old object `i` takes the place of the new one `j` again. -/
def keepCurrent (c : Core) (name : String) (i j : InstId) : Core :=
  { c.modify i (fun svc => keepRunning svc (c.heap j)) with
    services := c.services.insert name i }

/-- One service of the old configuration: kept, retired with its exit to be
waited for, or left alone because it is gone or not running. -/
def reconcileOne (acc : Core × List (Option Chan)) (name : String) (i : InstId) :
    Core × List (Option Chan) :=
  match acc.1.services.lookup name with
  | none => acc
  | some j =>
    if !acc.1.isRunning i then acc
    else if processConfigChanged (acc.1.heap i).proc (acc.1.heap j).proc then
      (acc.1.modify i retire, acc.2 ++ [acc.1.done i])
    else (acc.1.keepCurrent name i j, acc.2)

def reconcile (old : List (String × InstId)) (acc : Core × List (Option Chan)) :
    Core × List (Option Chan) :=
  old.foldl (fun acc entry => reconcileOne acc entry.1 entry.2) acc

def toStart (c : Core) (startOrder : List String) : List InstId :=
  (startOrder.filterMap c.services.lookup).filter fun i =>
    (c.heap i).enabled && !(c.heap i).oneshot && !(c.heap i).scheduled && !c.isRunning i

def scheduledInstances (c : Core) : List InstId :=
  (c.services.entries.map (fun entry => entry.2)).filter (fun i => (c.heap i).scheduled)

/-- The services after the locked section of `reload`, with the channels it
waits on. -/
def reload (c : Core) (cfg : Config) (entrypointArgs : List String) (controlSocket : String) :
    Core × Except NewError (List (Option Chan)) :=
  let old := c.services
  let removed := c.removeServices (cfg.processes.map Process.procName)
  match removed.buildServices cfg entrypointArgs controlSocket with
  | (built, some error) => (built, .error error)
  | (built, none) =>
    let reconciled := reconcile old.entries (built.dropMetrics old, [])
    (reconciled.1, .ok reconciled.2)

end Core

end Gopherd.Daemon
