import Gopherd.Daemon.Metrics

/-!
The shared data of the daemon: the service objects and the books kept about
their processes. The functions are the bodies of the sections that run under
`d.mu`, and the small operations on one service object that run without it.
-/

namespace Gopherd.Daemon

open Go

/-- The identity of a service object; a reload creates new ones. -/
abbrev InstId := Nat

inductive WaitStatus where
  | exited (status : Nat)
  | signaled (signal : Signal)
  | other
  deriving DecidableEq

def waitStatusCode : WaitStatus → Int
  | .exited status => status
  | .signaled signal => 128 + signal
  | .other => 1

structure Child where
  owner : Option InstId
  status : Option WaitStatus
  deriving DecidableEq

structure Core where
  services : GoMap String InstId
  heap : InstId → Service
  nextInst : InstId
  pidMap : GoMap Pid InstId
  children : GoMap Pid Child
  restartPending : Finset String
  metrics : Metrics
  closed : Finset Chan
  nextChan : Chan

structure RestartReq where
  svc : InstId
  -- none for a channel that was closed already
  done : Option Chan
  delay : Duration
  deriving DecidableEq

namespace Core

def modify (c : Core) (i : InstId) (change : Service → Service) : Core :=
  { c with heap := Function.update c.heap i (change (c.heap i)) }

def name (c : Core) (i : InstId) : String :=
  (c.heap i).name

def isRunning (c : Core) (i : InstId) : Bool :=
  (c.heap i).running

def done (c : Core) (i : InstId) : Option Chan :=
  (c.heap i).done

def isClosed (c : Core) : Option Chan → Bool
  | some channel => channel ∈ c.closed
  | none => true

def isCurrent (c : Core) (i : InstId) : Bool :=
  c.services.lookup (c.name i) = some i

def stop (c : Core) (i : InstId) : Core :=
  c.modify i Service.stop

def pidFree (c : Core) (pid : Pid) : Bool :=
  0 < pid && (c.children.lookup pid).isNone

def finishStart (c : Core) (i : InstId) (pid : Pid) : Core :=
  { c.modify i (fun svc => svc.finishStart pid c.nextChan) with
    nextChan := c.nextChan + 1
    children := c.children.insert pid ⟨some i, none⟩ }

def markExited (c : Core) (i : InstId) : Core :=
  { c.modify i Service.markExited with
    closed :=
      match c.done i with
      | some channel => insert channel c.closed
      | none => c.closed }

def serviceStarted (c : Core) (i : InstId) (pid : Pid) : Core :=
  { c with metrics := c.metrics.serviceStarted (c.name i) pid }

def serviceSkipped (c : Core) (i : InstId) (reason : SkipReason) : Core :=
  { c with metrics := c.metrics.serviceSkipped (c.name i) reason }

def serviceExited (c : Core) (i : InstId) (code : Int) : Core :=
  { c with metrics := c.metrics.serviceExited (c.name i) code }

def serviceRestarted (c : Core) (i : InstId) : Core :=
  { c with metrics := c.metrics.serviceRestarted (c.name i) }

def startManaged (c : Core) (i : InstId) (pid : Pid) : Core :=
  let c := c.finishStart i pid
  { c with pidMap := c.pidMap.insert pid i }.serviceStarted i pid

/-- A oneshot of a boot layer is started without an entry in `pidMap`. -/
def startOneshot (c : Core) (i : InstId) (pid : Pid) : Core :=
  (c.finishStart i pid).serviceStarted i pid

/-- The stop that `stopForRestart`, `RestartFn` and `handleCheckFailure` book
as one half of a restart. -/
def stopForRestart (c : Core) (i : InstId) : Core :=
  let c :=
    if c.isRunning i then
      { c.stop i with restartPending := insert (c.name i) c.restartPending }
    else c
  c.serviceRestarted i

/-- The `requires` cascade: the services that require `failed` are stopped. -/
def cascade (c : Core) (failed : String) : Core :=
  c.services.entries.foldl
    (fun c entry => if failed ∈ (c.heap entry.2).requires then c.stop entry.2 else c) c

end Core

/-- The code an exit counts with: an intentional stop is a success unless the
exit-code-map says otherwise. -/
def effectiveCode (svc : Service) (status : WaitStatus) : Int :=
  let code := svc.remapExitCode (waitStatusCode status)
  if svc.stopped && code > 128 then 0 else code

def exitAction (svc : Service) (code : Int) : ExitAction :=
  if svc.stopped then .ignore
  else if svc.scheduled then .ignore
  else if svc.oneshot then
    if code = 0 then .ignore
    else (parseExitAction svc.proc.onFailure .ignore).getD .ignore
  else if code = 0 then svc.onSuccess
  else svc.onFailure

/-- The exits that stop the dependents: failures of long-running services. -/
def exitCascades (svc : Service) (code : Int) : Bool :=
  !svc.stopped && !svc.scheduled && !svc.oneshot && code ≠ 0

inductive AfterExit where
  | wait
  | leave
  | restart (req : RestartReq)
  | shutdown (code : Int)
  | successShutdown
  deriving DecidableEq

structure RunTimes where
  ran : Duration
  delay : Duration
  deriving DecidableEq

namespace Core

/-- The exit of the process of `i` up to the choice of the action: the pid is
forgotten, the object marked as exited and a pending restart consumed. -/
def recordExit (c : Core) (i : InstId) (pid : Pid) : Core :=
  let c := { c with pidMap := c.pidMap.erase pid }.markExited i
  { c with restartPending := c.restartPending.erase (c.name i) }

def countExit (c : Core) (i : InstId) (code : Int) (suppressed : Bool) : Core :=
  if suppressed then c else c.serviceExited i code

def stopDependents (c : Core) (svc : Service) (code : Int) : Core :=
  if exitCascades svc code then c.cascade svc.name else c

def takeAction (c : Core) (i : InstId) (code : Int) (times : RunTimes) :
    ExitAction → Core × AfterExit
  | .restart =>
    let c := c.modify i (fun svc => { svc with backoff := svc.backoff.afterRun times.ran })
    (c.serviceRestarted i, .restart ⟨i, c.done i, times.delay⟩)
  | .shutdown | .failureShutdown => (c, .shutdown code)
  | .successShutdown => (c, .successShutdown)
  | .ignore => (c, .wait)

/-- The section of the reap loop for the exit of the process `pid` of `i`. -/
def handleExit (c : Core) (shuttingDown : Bool) (i : InstId) (pid : Pid)
    (status : WaitStatus) (times : RunTimes) : Core × AfterExit :=
  let consumed := decide (c.name i ∈ c.restartPending)
  let c := c.recordExit i pid
  let svc := c.heap i
  let code := effectiveCode svc status
  if shuttingDown then
    (c.countExit i code consumed, if c.pidMap.isEmpty then .leave else .wait)
  else
    let action := exitAction svc code
    ((c.stopDependents svc code).countExit i code (consumed || action = .restart)).takeAction
      i code times action

def closureScan (services : List Service) (root cur : String)
    (closure frontier : List String) : List String × List String :=
  services.foldl
    (fun found other =>
      if cur ∈ other.requires && other.name ∉ found.1 && other.name ≠ root then
        (found.1 ++ [other.name], found.2 ++ [other.name])
      else found) (closure, frontier)

/-- The loop of `dependentClosure`; every service enters the frontier at most
once, so one more than their number is enough fuel. -/
def closureLoop (services : List Service) (root : String) :
    Nat → List String → List String → List String
  | 0, _, closure => closure
  | _, [], closure => closure
  | fuel + 1, cur :: frontier, closure =>
    let found := closureScan services root cur closure frontier
    closureLoop services root fuel found.2 found.1

def dependentClosure (services : List Service) (root : String) : List String :=
  closureLoop services root (services.length + 1) [root] []

/-- `runningDependentsLocked`. -/
def runningDependents (c : Core) (startOrder : List String) (root : String) : List InstId :=
  let closure := dependentClosure (c.services.entries.map (fun entry => c.heap entry.2)) root
  (startOrder.filter (· ∈ closure)).filterMap fun name =>
    (c.services.lookup name).filter c.isRunning

end Core

end Gopherd.Daemon
