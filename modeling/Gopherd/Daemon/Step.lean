import Gopherd.Daemon.State
import Gopherd.Lib.Transition

/-!
The steps of the daemon. `Choice` is what a step takes from outside: the pid
of a fork, the outcome of work that can fail, an order in which a map is
iterated, the text of the configuration file. Processes exit, files change and
clients, signals, checks and cron ticks arrive at any time.
-/

namespace Gopherd.Daemon

open Go

inductive Choice where
  | go
  | fail
  | child (pid : Pid)
  | expire (pid : Pid)
  | order (names : List String)
  | config (parsed : Parsed)
  | times (times : RunTimes)
  deriving DecidableEq

inductive Request where
  | start (name : String) (wait : Bool)
  | stop (name : String) (wait : Bool)
  | restart (name : String) (wait : Bool)
  | reload
  deriving DecidableEq

inductive Action where
  | run (t : Task) (choice : Choice)
  | giveUp (t : Task) (choice : Choice)
  | fork (choice : Choice)
  | reload (choice : Choice)
  | stopAll (choice : Choice)
  | main (choice : Choice)
  | dispatch
  | request (request : Request)
  | hangup
  | terminate
  | forward
  | checkFails (check : String)
  | tick (i : InstId)
  | childExit (pid : Pid) (status : WaitStatus)
  | adopt (pid : Pid) (wakes : Bool)
  | collect (pid : Pid)
  | touch (path : String) (stat : FileStat)
  deriving DecidableEq

def toInt32 (code : Int) : Int :=
  code.bmod (2 ^ 32)

def restartChCapacity : Nat := 64

inductive GateError where
  | checkMissing (name check : String)
  | checkInvalid (name : String) (error : CheckError)
  | readyTimeout (name text : String) (error : DurationError)
  deriving DecidableEq

def newChecker (checks : GoMap String CheckConfig) (p : Process) : Except GateError Checker :=
  match checks.lookup p.readyCheck with
  | none => .error (.checkMissing p.procName p.readyCheck)
  | some check =>
    match Checker.new p.readyCheck check with
    | .error error => .error (.checkInvalid p.procName error)
    | .ok checker => .ok checker

def newReadyTimeout (p : Process) : Except GateError Duration :=
  if p.readyTimeout = "" then .ok (60 * secondDuration)
  else
    match parseDuration p.readyTimeout with
    | .error error => .error (.readyTimeout p.procName p.readyTimeout error)
    | .ok timeout => .ok timeout

/-- What `startGated` takes from the configuration before it probes: the check
to wait for, and for how long. -/
def readyGate (checks : GoMap String CheckConfig) (p : Process) :
    Except GateError (Option (Checker × Duration)) :=
  if p.readyCheck = "" then .ok none
  else do
    let checker ← newChecker checks p
    let timeout ← newReadyTimeout p
    pure (some (checker, timeout))

/-- How long `waitOneshot` waits; without a timeout it waits for the exit. -/
def startupWait (p : Process) : Except DurationError (Option Duration) :=
  if p.startupTimeout = "" then .ok none else (parseDuration p.startupTimeout).map some

namespace State

def names (s : State) (ids : List InstId) : List String :=
  ids.map s.core.name

def startReply (s : State) (i : InstId) : StartResult → Reply
  | .started pid => .started (s.core.name i) pid
  | .alreadyRunning pid => .alreadyRunning (s.core.name i) pid
  | .conditionUnmet =>
    .skipped (s.core.name i) ((s.core.heap i).unmetCondition s.files)
  | result => .startFailed (s.core.name i) result

/-- The next dependent of a restart, or its return after the last one. -/
def startDeps (s : State) (r : Restart) : List InstId → State
  | [] => s.spawn (.restartReturn r .restarted)
  | dep :: rest => s.spawn (.gate dep (.restartDep r rest))

/-- The return of `startGated` to its caller; for a restart the cases of
`startForRestart`. -/
def gateDone (s : State) (i : InstId) (caller : GateCaller) (result : StartResult) : State :=
  match caller with
  | .boot =>
    match result with
    | .started _ | .alreadyRunning _ | .conditionUnmet => s
    | .shuttingDown | .replaced | .failed => { s with main := .aborted }
  | .control observed _ => if observed then s.answer (s.startReply i result) else s
  | .restartRoot r =>
    match result with
    | .started _ | .alreadyRunning _ | .replaced => s.startDeps r r.deps
    | .conditionUnmet => s.spawn (.restartReturn r .skipped)
    | .shuttingDown => s.spawn (.restartReturn r .shuttingDown)
    | .failed => s.spawn (.shutdown 1 (.restart r))
  | .restartDep r rest =>
    match result with
    | .started _ | .alreadyRunning _ | .replaced => s.startDeps r rest
    | .conditionUnmet => s.startDeps { r with skipped := i :: r.skipped } rest
    | .shuttingDown => s.spawn (.restartReturn r .shuttingDown)
    | .failed => s.spawn (.shutdown 1 (.restart r))

/-- The stop that `startScheduledRun` arms when the run has a timeout. -/
def armTimeout (s : State) (i : InstId) (pid : Pid) : State :=
  match parseDuration (s.core.heap i).proc.startupTimeout with
  | .ok timeout => if timeout > 0 then s.spawn (.timer i pid) else s
  | .error _ => s

/-- The return of `startService` to its caller. -/
def startDone (s : State) (i : InstId) (caller : StartCaller) (result : StartResult) : State :=
  match caller with
  | .control => s.answer (s.startReply i result)
  | .gate caller =>
    match result with
    | .started _ | .alreadyRunning _ =>
      if (s.core.heap i).proc.sdNotify then s.spawn (.notify i caller result)
      else s.gateDone i caller result
    | .conditionUnmet | .shuttingDown | .replaced | .failed => s.gateDone i caller result
  | .request =>
    match result with
    | .failed => s.spawn (.shutdown 1 .request)
    | .started _ | .alreadyRunning _ | .conditionUnmet | .shuttingDown | .replaced =>
      s.spawn .handlerEnd
  | .reload =>
    match s.reload with
    | .startWait origin rest => { s with reload := .starting origin rest }
    | _ => s
  | .tick =>
    match result with
    | .started pid => s.armTimeout i pid
    | .alreadyRunning _ | .conditionUnmet | .shuttingDown | .replaced | .failed => s

/-- `startService` up to the point where it holds the lock and goes to fork. -/
def stepStart (s : State) (i : InstId) (caller : StartCaller) (choice : Choice) :
    StartPc → Option State
  | .condition =>
    match (s.core.heap i).unmetCondition s.files with
    | some reason =>
      some ((s.setCore (s.core.serviceSkipped i reason)).startDone i caller .conditionUnmet)
    | none => some (s.spawn (.start i .prepare caller))
  | .prepare =>
    match choice with
    | .go => some (s.spawn (.start i .lock caller))
    | .fail => some (s.startDone i caller .failed)
    | _ => none
  | .lock =>
    if !s.unlocked then none
    else if s.shuttingDown then some (s.startDone i caller .shuttingDown)
    else if !s.core.isCurrent i then some (s.startDone i caller .replaced)
    else if s.core.isRunning i then
      some (s.startDone i caller (.alreadyRunning (s.core.heap i).pid))
    else some { s with forking := some (i, caller) }

/-- The rest of `startService`, which releases the lock and wakes the reap
loop. -/
def stepFork (s : State) (choice : Choice) : Option State :=
  match s.forking with
  | none => none
  | some (i, caller) =>
    let s := { s with forking := none }
    match choice with
    | .child pid =>
      if s.core.pidFree pid then
        some ({ s with core := s.core.startManaged i pid, childStarted := true }.startDone
          i caller (.started pid))
      else none
    | .fail => some (s.startDone i caller .failed)
    | _ => none

/-- A tracked send of a restart request, counted as pending. -/
def enqueueRestart (s : State) (req : RestartReq) : State :=
  { s with pendingRestarts := s.pendingRestarts + 1 }.spawn (.sender req)

def restartOrdered (s : State) (i : InstId) (deps : List InstId) (wait : Bool) : State :=
  let s := s.spawn (.restartRun i deps wait)
  if wait then s else s.answer (.restartScheduled (s.core.name i) (s.names deps))

/-- The dependents that a restart of `i` bounces too. -/
def restartDeps (s : State) (i : InstId) (name : String) : List InstId :=
  if (s.core.heap i).proc.restartWithDependents then
    s.core.runningDependents s.shutdownSeq name
  else []

def restartFn (s : State) (name : String) (wait : Bool) : State :=
  match s.core.services.lookup name with
  | none => s.answer (.unknownService name)
  | some i =>
    if s.shuttingDown then s.answer .shuttingDown
    else if wait || s.restartDeps i name ≠ [] then
      s.restartOrdered i (s.restartDeps i name) wait
    else
      ((s.setCore (s.core.stopForRestart i)).enqueueRestart ⟨i, s.core.done i, 0⟩).answer
        (.restartScheduled name [])

/-- The loop of `handleCheckFailure` over the services in the order `names`. -/
def checkLoop (check : String) : List String → State → State
  | [], s => s
  | name :: rest, s =>
    match s.core.services.lookup name with
    | none => checkLoop check rest s
    | some i =>
      match (s.core.heap i).onCheckFailure.lookup check with
      | some .restart =>
        checkLoop check rest
          ((s.setCore (s.core.stopForRestart i)).enqueueRestart ⟨i, s.core.done i, 0⟩)
      | some .shutdown | some .failureShutdown => s.spawn (.shutdown 1 .check)
      | some .successShutdown => s.spawn (.shutdown 0 .check)
      | some .ignore | none => checkLoop check rest s

/-- The caller of `initiateShutdown` goes on. -/
def shutdownDone (s : State) : ShutdownCaller → State
  | .request => s.spawn .handlerEnd
  | .restart r => s.spawn (.restartReturn r .failed)
  | .signal | .exit | .check => s

def restartReply (s : State) (r : Restart) : RestartResult → Reply
  | .restarted => .restarted (s.core.name r.svc) (s.core.heap r.svc).pid (s.names r.deps)
  | result => .restartFailed (s.core.name r.svc) result

/-- The checks that a call of `startGated` looks its own one up in. -/
def gateChecks (s : State) : GateCaller → GoMap String CheckConfig
  | .boot => s.cfg.checks
  | .control _ checks => checks
  | .restartRoot r | .restartDep r _ => r.checks

/-- One step of the goroutine `t`, which the state no longer lists. -/
def stepTask (s : State) (t : Task) (choice : Choice) : Option State :=
  match t with
  | .startFn name wait =>
    if !s.unlocked then none
    else
      match s.core.services.lookup name with
      | none => some (s.answer (.unknownService name))
      | some i => some (s.spawn (.startFnFound i wait s.cfg.checks))
  | .startFnFound i wait checks =>
    if s.core.isRunning i then
      some (s.answer (.alreadyRunning (s.core.name i) (s.core.heap i).pid))
    else if wait then some (s.spawn (.gate i (.control true checks)))
    else some (s.spawn (.start i .condition .control))
  | .stopFn name wait =>
    if !s.unlocked then none
    else
      match s.core.services.lookup name with
      | none => some (s.answer (.unknownService name))
      | some i => some (s.spawn (.stopFnFound i wait))
  | .stopFnFound i wait =>
    if s.core.isRunning i then some (s.spawn (.stopFnRunning i wait))
    else some (s.answer (.alreadyStopped (s.core.name i)))
  | .stopFnRunning i wait => some (s.spawn (.stopFnSignal i (s.core.done i) wait))
  | .stopFnSignal i done wait =>
    let s := s.setCore (s.core.stop i)
    if wait then some (s.spawn (.stopFnWait i done))
    else some (s.answer (.stopSignalSent (s.core.name i)))
  | .stopFnWait i done =>
    match choice with
    | .go =>
      if s.core.isClosed done then some (s.answer (.stopped (s.core.name i))) else none
    | .fail =>
      some (s.answer
        (if s.shutdownClosed then .shuttingDown else .stillRunning (s.core.name i)))
    | _ => none
  | .restartFn name wait => if s.unlocked then some (s.restartFn name wait) else none
  | .reloadFn origin =>
    if s.started then some (s.spawn (.reloadQueued origin))
    else some (if origin = .control then s.answer .reloadFailed else s)
  | .reloadQueued origin =>
    if s.reload = .idle then some { s with reload := .loading origin } else none
  | .gate i caller =>
    match readyGate (s.gateChecks caller) (s.core.heap i).proc with
    | .error _ => some (s.gateDone i caller .failed)
    | .ok none => some (s.spawn (.start i .condition (.gate caller)))
    | .ok (some _) =>
      match choice with
      | .go => some (s.spawn (.start i .condition (.gate caller)))
      | .fail => some (s.gateDone i caller .failed)
      | _ => none
  | .start i pc caller => s.stepStart i caller choice pc
  | .notify i caller result =>
    match choice with
    | .go => some (s.gateDone i caller result)
    | .fail => some (s.gateDone i caller .failed)
    | _ => none
  | .restartRun svc deps observed =>
    -- the stops begin with the last dependent and end with the service itself
    let legs := deps.reverse ++ [svc]
    if !s.unlocked then none
    else
      some (s.spawn (.restartStop ⟨svc, deps, 0, [], observed, s.cfg.checks⟩
        (legs.headD svc) legs.tail))
  | .restartStop r leg rest =>
    if !s.unlocked then none
    else if s.shuttingDown then some (s.spawn (.restartReturn r .shuttingDown))
    else
      let done := s.core.done leg
      let s := s.setCore (s.core.stopForRestart leg)
      some ({ s with pendingRestarts := s.pendingRestarts + 1 }.spawn
        (.restartWait { r with stopped := r.stopped + 1 } rest done))
  | .restartWait r rest done =>
    match choice with
    | .go =>
      if s.core.isClosed done then
        match rest with
        | leg :: rest => some (s.spawn (.restartStop r leg rest))
        | [] => some (s.spawn (.gate r.svc (.restartRoot r)))
      else none
    | .fail =>
      if s.shutdownClosed then some (s.spawn (.restartReturn r .shuttingDown)) else none
    | _ => none
  | .restartReturn r result =>
    let s := { s with pendingRestarts := s.pendingRestarts - r.stopped }
    some (if r.observed then s.answer (s.restartReply r result) else s)
  | .sender req =>
    if s.restartClosed then some { s with main := .panicked }
    else if s.restartCh.length < restartChCapacity then
      some { s with restartCh := s.restartCh ++ [req] }
    else none
  | .handler req =>
    if !s.core.isClosed req.done then none
    else if s.core.isRunning req.svc then some (s.spawn .handlerEnd)
    else if req.delay > 0 then some (s.spawn (.handlerSleep req))
    else some (s.spawn (.start req.svc .condition .request))
  | .handlerSleep req => some (s.spawn (.start req.svc .condition .request))
  | .handlerEnd => some { s with pendingRestarts := s.pendingRestarts - 1 }
  | .checkFailure check =>
    match choice with
    | .order names =>
      if !s.unlocked then none
      else if s.shuttingDown then some s
      else if names.isPerm s.core.services.keys then some (checkLoop check names s)
      else none
    | _ => none
  | .shutdown code caller =>
    if s.shuttingDown then some (s.shutdownDone caller)
    else
      some { s with
        shuttingDown := true, stopAll := .closing code, stopCaller := some caller }
  | .tick i =>
    if s.core.isRunning i then some s else some (s.spawn (.start i .condition .tick))
  | .timer i pid =>
    if s.core.isRunning i && (s.core.heap i).pid = pid then some (s.spawn (.timerStop i))
    else some s
  | .timerStop i => some (s.setCore (s.core.stop i))

end State

/-- The work of a task whose client stops waiting for the result. -/
def GateCaller.unobserved : GateCaller → GateCaller
  | .control _ checks => .control false checks
  | .restartRoot r => .restartRoot { r with observed := false }
  | .restartDep r rest => .restartDep { r with observed := false } rest
  | .boot => .boot

def Task.unobserved : Task → Task
  | .gate i caller => .gate i caller.unobserved
  | .start i pc (.gate caller) => .start i pc (.gate caller.unobserved)
  | .notify i caller result => .notify i caller.unobserved result
  | .restartRun svc deps _ => .restartRun svc deps false
  | .restartStop r leg rest => .restartStop { r with observed := false } leg rest
  | .restartWait r rest done => .restartWait { r with observed := false } rest done
  | .shutdown code (.restart r) => .shutdown code (.restart { r with observed := false })
  | t => t

def Task.isObserved : Task → Bool
  | .gate _ caller | .notify _ caller _ | .start _ _ (.gate caller) => caller.isHandler
  | .restartRun _ _ observed => observed
  | .restartStop r _ _ | .restartWait r _ _ => r.observed
  | .shutdown _ (.restart r) => r.observed
  | _ => false

namespace State

/-- `observe` answers without the result when the wait times out or a
shutdown begins; the work goes on. -/
def stepGiveUp (s : State) (t : Task) (choice : Choice) : Option State :=
  if !t.isObserved then none
  else
    match choice with
    | .fail => some ((s.spawn t.unobserved).answer .inProgress)
    | .go =>
      if s.shutdownClosed then some ((s.spawn t.unobserved).answer .shuttingDown) else none
    | _ => none

def reloadReply (s : State) (origin : ReloadOrigin) (reply : Reply) : State :=
  match origin with
  | .control => s.answer reply
  | .signal => s

/-- The checks of `reload` before it takes `d.mu`. -/
def loadConfig (parsed : Parsed) : Option (Config × List String) :=
  match parsed.load with
  | .error _ => none
  | .ok cfg =>
    if !cfg.entrypointUnique then none
    else
      match Order.topoSort cfg.orderNodes with
      | .error _ => none
      | .ok startOrder =>
        if cfg.processes.all (fun p => (Service.new p).isOk) then some (cfg, startOrder)
        else none

/-- The locked section of `reload`. -/
def reloadSection (s : State) (origin : ReloadOrigin) (cfg : Config)
    (startOrder : List String) : State :=
  match s.core.reload cfg s.entrypointArgs s.controlSocket with
  | (core, .error _) =>
    { s with core, cfg, checkers := [], schedulers := [], reload := .idle }.reloadReply
      origin .reloadFailed
  | (core, .ok dones) =>
    { s with
      core
      cfg
      checkers := []
      schedulers := []
      shutdownSeq := startOrder
      shutdownMode := cfg.shutdownOrder
      reload := .waiting origin dones (core.toStart startOrder) }

/-- One step of the reload that holds `reloadMu`. -/
def stepReload (s : State) (choice : Choice) : Option State :=
  match s.reload with
  | .idle | .startWait _ _ => none
  | .loading origin =>
    match choice with
    | .config parsed =>
      match loadConfig parsed with
      | some (cfg, startOrder) => some { s with reload := .locking origin cfg startOrder }
      | none => some ({ s with reload := .idle }.reloadReply origin .reloadFailed)
    | .fail => some ({ s with reload := .idle }.reloadReply origin .reloadFailed)
    | _ => none
  | .locking origin cfg startOrder =>
    if !s.unlocked then none
    else if s.shuttingDown then
      some ({ s with reload := .idle }.reloadReply origin .reloadFailed)
    else some (s.reloadSection origin cfg startOrder)
  | .waiting origin dones toStart =>
    if dones.all s.core.isClosed then some { s with reload := .starting origin toStart }
    else none
  | .starting origin toStart =>
    match toStart with
    | [] => some { s with reload := .finishing origin }
    | i :: rest =>
      some ({ s with reload := .startWait origin rest }.spawn
        (.start i .condition .reload))
  | .finishing origin =>
    if !s.unlocked then none
    else
      some ({ s with
        checkers := s.cfg.checkers
        schedulers := s.core.scheduledInstances
        reload := .idle }.reloadReply origin .reloaded)

def nextRunning (c : Core) : List String → Option (String × InstId × List String)
  | [] => none
  | name :: rest =>
    match c.services.lookup name with
    | some i => if c.isRunning i then some (name, i, rest) else nextRunning c rest
    | none => nextRunning c rest

/-- The second loop of `stopSequential`, over the map in the order `names`. -/
def stopOthers (s : State) (names stopped : List String) : State :=
  match nextRunning s.core (names.filter (· ∉ stopped)) with
  | some (_, i, rest) =>
    { s with
      core := s.core.stop i
      stopAll := .othersWait rest stopped (s.core.done i) }
  | none => { s with stopAll := .finishing }

def stopOrdered (s : State) (seq stopped names : List String) : State :=
  match nextRunning s.core seq with
  | some (name, i, rest) =>
    { s with
      core := s.core.stop i
      stopAll := .orderedWait rest (name :: stopped) (s.core.done i) }
  | none => s.stopOthers names stopped

def stopSimultaneous (s : State) : State :=
  let running := (s.core.services.entries.map (fun entry => entry.2)).filter s.core.isRunning
  { s with
    core := running.foldl Core.stop s.core
    stopAll := if running = [] then .finishing else .allWait (running.map s.core.done) }

/-- `stopAll`. -/
def stopServices (s : State) (names : List String) : State :=
  match s.shutdownMode with
  | .unset | .reverseDep => s.stopOrdered s.shutdownSeq.reverse [] names
  | .dep => s.stopOrdered s.shutdownSeq [] names
  | .simultaneous => s.stopSimultaneous

/-- One step of the `initiateShutdown` that has set the flag. -/
def stepStopAll (s : State) (choice : Choice) : Option State :=
  match s.stopAll with
  | .idle | .finished => none
  | .closing code => some { s with shutdownClosed := true, stopAll := .storing code }
  | .storing code => some { s with exitCode := toInt32 code, stopAll := .locking }
  | .locking =>
    match choice with
    | .order names =>
      if s.unlocked && names.isPerm s.core.services.keys then some (s.stopServices names)
      else none
    | _ => none
  | .orderedWait rest stopped done =>
    match choice with
    | .order names =>
      if s.core.isClosed done && s.unlocked && names.isPerm s.core.services.keys then
        some (s.stopOrdered rest stopped names)
      else none
    | _ => none
  | .othersWait rest stopped done =>
    if s.core.isClosed done && s.unlocked then some (s.stopOthers rest stopped) else none
  | .allWait dones =>
    if dones.all s.core.isClosed && s.unlocked then some { s with stopAll := .finishing }
    else none
  | .finishing =>
    let s := { s with stopAllDone := true, stopAll := .finished }
    match s.stopCaller with
    | some caller => some (s.shutdownDone caller)
    | none => some s

/-- The boot layers: oneshots are started and waited for, then the other
services of the layer are started side by side. -/
def stepBoot (s : State) (choice : Choice) : Option State :=
  match s.main with
  | .nextLayer [] => some { s with main := .startChecks }
  | .nextLayer (layer :: rest) => some { s with main := .oneshots layer [] ⟨layer, rest⟩ }
  | .oneshots [] procs pos => some { s with main := .results procs [] none pos }
  | .oneshots (name :: todo) procs pos =>
    let skip := { s with main := .oneshots todo procs pos }
    match s.core.services.lookup name with
    | none => some skip
    | some i =>
      let svc := s.core.heap i
      if !svc.enabled || !svc.oneshot then some skip
      else
        match svc.unmetCondition s.files with
        | some reason => some (skip.setCore (s.core.serviceSkipped i reason))
        | none => some { s with main := .oneshotStart i todo procs pos }
  | .oneshotStart i todo procs pos =>
    match choice with
    | .child pid =>
      if s.core.pidFree pid then
        some { s with
          core := s.core.startOneshot i pid
          main := .oneshots todo (procs ++ [(i, pid)]) pos }
      else none
    | .fail => some { s with main := .aborted }
    | _ => none
  | .results waiting arrived fatal pos =>
    match choice with
    | .child pid =>
      -- a `waitOneshot` goroutine collects its own process
      match waiting.find? (fun proc => proc.2 = pid), s.core.children.lookup pid with
      | some proc, some ⟨_, some status⟩ =>
        if (startupWait (s.core.heap proc.1).proc).isOk then
          some { s with
            core := { s.core with children := s.core.children.erase pid }
            main := .results (waiting.erase proc) (arrived ++ [(proc.1, some status)])
              fatal pos }
        else none
      | _, _ => none
    | .expire pid =>
      match waiting.find? (fun proc => proc.2 = pid) with
      | some proc =>
        if (s.core.heap proc.1).proc.startupTimeout ≠ "" then
          some { s with
            main := .results (waiting.erase proc) (arrived ++ [(proc.1, none)]) fatal pos }
        else none
      | none => none
    | .go =>
      match waiting, arrived with
      | _, (i, none) :: arrived =>
        some { s with
          core := s.core.serviceExited i 1
          main := .results waiting arrived (fatal.or (some (i, none))) pos }
      | _, (i, some status) :: arrived =>
        let code := (s.core.heap i).remapExitCode (waitStatusCode status)
        let failed := code ≠ 0 && (s.core.heap i).onFailure ≠ .ignore
        some { s with
          core := (s.core.markExited i).serviceExited i code
          main := .results waiting arrived
            (if failed then fatal.or (some (i, some code)) else fatal) pos }
      | [], [] =>
        match fatal with
        | some _ => some { s with main := .aborted }
        | none => some { s with main := .spawn pos.layer pos }
      | _ :: _, [] => none
    | _ => none
  | .spawn [] pos => some { s with main := .join pos }
  | .spawn (name :: todo) pos =>
    let s := { s with main := .spawn todo pos }
    match s.core.services.lookup name with
    | none => some s
    | some i =>
      let svc := s.core.heap i
      if svc.enabled && !svc.oneshot && !svc.scheduled && !svc.running then
        some (s.spawn (.gate i .boot))
      else some s
  | .join pos => if s.bootDone then some { s with main := .nextLayer pos.rest } else none
  | .startChecks => some { s with checkers := s.cfg.checkers, main := .startSchedulers }
  | .startSchedulers =>
    some { s with schedulers := s.core.scheduledInstances, main := .begin }
  | .begin => some { s with started := true, main := .wait4 }
  | _ => none

end State

/-- Where the reap loop goes on after it has released the lock. -/
def AfterExit.next : AfterExit → MainPc
  | .wait => .wait4
  | .leave => .loopEnd
  | .restart req => .enqueue req
  | .shutdown code => .prestore code
  | .successShutdown => .spawnShutdown 0

namespace State

def stepReaped (s : State) (pid : Pid) (status : WaitStatus) (times : RunTimes) : State :=
  match s.core.pidMap.lookup pid with
  | none => { s with main := .unmanaged }
  | some i =>
    let handled := s.core.handleExit s.shuttingDown i pid status times
    { s with core := handled.1, main := handled.2.next }

def stepLoop (s : State) (choice : Choice) : Option State :=
  match s.main with
  | .wait4 =>
    match choice with
    | .child pid =>
      match s.core.children.lookup pid with
      | some ⟨_, some status⟩ =>
        some { s with
          core := { s.core with children := s.core.children.erase pid }
          main := .reaped pid status }
      | _ => none
    | .fail => if s.core.children.isEmpty then some { s with main := .echild } else none
    | _ => none
  | .echild => some { s with main := if s.shuttingDown then .loopEnd else .echildPending }
  | .echildPending =>
    some { s with main := if s.pendingRestarts > 0 then .pause else .idle }
  | .pause =>
    match choice with
    | .go =>
      if s.childStarted then some { s with childStarted := false, main := .wait4 }
      else none
    | .fail => some { s with main := .wait4 }
    | _ => none
  | .idle =>
    match choice with
    | .go =>
      if s.childStarted then some { s with childStarted := false, main := .wait4 }
      else none
    | .fail =>
      if s.shutdownClosed || s.subreaper then some { s with main := .wait4 } else none
    | _ => none
  | .reaped pid status =>
    match choice with
    | .times times => if s.unlocked then some (s.stepReaped pid status times) else none
    | _ => none
  | .enqueue req => some { s.enqueueRestart req with main := .wait4 }
  | .prestore code =>
    some { s with
      exitCode := if s.exitCode = 0 then toInt32 code else s.exitCode
      main := .spawnShutdown code }
  | .spawnShutdown code => some ({ s with main := .wait4 }.spawn (.shutdown code .exit))
  | .unmanaged => some { s with main := if s.shuttingDown then .unmanagedLock else .wait4 }
  | .unmanagedLock =>
    if s.unlocked then
      some { s with main := if s.core.pidMap.isEmpty then .loopEnd else .wait4 }
    else none
  | _ => none

/-- The end of `run` after the reap loop. -/
def stepTeardown (s : State) : Option State :=
  match s.main with
  | .loopEnd =>
    if s.shuttingDown && !s.stopAllDone then none else some { s with main := .joinControl }
  | .joinControl =>
    if s.handlersDone then
      some { s with checkers := [], schedulers := [], main := .joinSenders }
    else none
  | .joinSenders =>
    if s.tasks.any Task.isSender then none
    else some { s with restartClosed := true, main := .closeTargets }
  | .closeTargets => some { s with main := .returned s.exitCode }
  | _ => none

def stepMain (s : State) (choice : Choice) : Option State :=
  match s.main with
  | .nextLayer _ | .oneshots .. | .oneshotStart .. | .results .. | .spawn .. | .join _
  | .startChecks | .startSchedulers | .begin => s.stepBoot choice
  | .loopEnd | .joinControl | .joinSenders | .closeTargets => s.stepTeardown
  | _ => s.stepLoop choice

end State

def Request.task : Request → Task
  | .start name wait => .startFn name wait
  | .stop name wait => .stopFn name wait
  | .restart name wait => .restartFn name wait
  | .reload => .reloadFn .control

namespace State

def setChildren (s : State) (children : GoMap Pid Child) : State :=
  { s with core := { s.core with children } }

def step (s : State) (action : Action) : Option State :=
  if s.main.ended then none
  else
    match action with
    | .run t choice =>
      if t ∈ s.tasks then { s with tasks := s.tasks.erase t }.stepTask t choice else none
    | .giveUp t choice =>
      if t ∈ s.tasks then { s with tasks := s.tasks.erase t }.stepGiveUp t choice else none
    | .fork choice => s.stepFork choice
    | .reload choice => s.stepReload choice
    | .stopAll choice => s.stepStopAll choice
    | .main choice => s.stepMain choice
    | .dispatch =>
      match s.restartCh with
      | req :: rest =>
        if s.started then some ({ s with restartCh := rest }.spawn (.handler req)) else none
      | [] => none
    | .request request =>
      if s.main.controlOpen then some (s.spawn request.task) else none
    | .hangup =>
      if s.started && s.main.signalsOpen && s.signalIdle then
        some (s.spawn (.reloadFn .signal))
      else none
    | .terminate =>
      if s.started && s.main.signalsOpen && s.signalIdle then
        some (s.spawn (.shutdown 0 .signal))
      else none
    -- A signal that is only handed on; what it does is outside of the state.
    | .forward =>
      if s.started && s.main.signalsOpen && s.signalIdle && s.unlocked then some s else none
    | .checkFails check =>
      if check ∈ s.checkers then some (s.spawn (.checkFailure check)) else none
    | .tick i => if i ∈ s.schedulers then some (s.spawn (.tick i)) else none
    | .childExit pid status =>
      match s.core.children.lookup pid with
      | some ⟨owner, none⟩ =>
        some (s.setChildren (s.core.children.insert pid ⟨owner, some status⟩))
      | _ => none
    | .adopt pid wakes =>
      if s.core.pidFree pid then
        some { s.setChildren (s.core.children.insert pid ⟨none, none⟩) with
          childStarted := s.childStarted || wakes }
      else none
    | .collect pid =>
      match s.core.children.lookup pid with
      | some ⟨none, some _⟩ => some (s.setChildren (s.core.children.erase pid))
      | _ => none
    | .touch path stat => some { s with files := Function.update s.files path stat }

end State

def Core.empty : Core where
  services := ∅
  heap := default
  nextInst := 0
  pidMap := ∅
  children := ∅
  restartPending := ∅
  metrics := ∅
  closed := ∅
  nextChan := 0

structure BootInput where
  parsed : Parsed
  entrypointArgs : List String
  controlSocket : String
  files : String → FileStat

/-- The state of `run` once the control socket is open and the layers are to
be brought up; none if the configuration is refused. -/
def boot (input : BootInput) : Option State :=
  match input.parsed.load with
  | .error _ => none
  | .ok cfg =>
    if !cfg.entrypointUnique then none
    else
      match Order.topoSort cfg.orderNodes, Order.topoLayers cfg.orderNodes,
          Core.empty.buildServices cfg input.entrypointArgs input.controlSocket with
      | .ok startOrder, .ok layers, (core, none) =>
        some {
          core
          cfg
          entrypointArgs := input.entrypointArgs
          controlSocket := input.controlSocket
          shutdownSeq := startOrder
          shutdownMode := cfg.shutdownOrder
          checkers := []
          schedulers := []
          forking := none
          reload := .idle
          stopAll := .idle
          stopCaller := none
          tasks := []
          restartCh := []
          restartClosed := false
          pendingRestarts := 0
          exitCode := 0
          shuttingDown := false
          shutdownClosed := false
          stopAllDone := false
          childStarted := false
          started := false
          main := .nextLayer layers
          subreaper := cfg.subreaper
          files := input.files
          replies := [] }
      | _, _, _ => none

def Boots (s : State) : Prop :=
  ∃ input, boot input = some s

/-- The states of a daemon whose steps all meet the condition `ok`. -/
abbrev Reached (ok : State → Action → Prop) : State → Prop :=
  Transition.Reached Boots State.step ok

/-- The daemon started with `input` after the given actions, if `ok` allows
all of them. -/
def run (ok : State → Action → Bool) (input : BootInput) (actions : List Action) :
    Option State :=
  (boot input).bind (fun s => Transition.exec State.step ok s actions)

theorem reached_of_run {ok : State → Action → Bool} (hrun : run ok input actions = some s) :
    Reached (fun s action => ok s action = true) s := by
  obtain ⟨start, hboot, hexec⟩ := Option.bind_eq_some_iff.mp hrun
  exact ⟨start, ⟨input, hboot⟩, .of_exec hexec⟩

def plainConfig (processes : List Process) : Parsed :=
  ⟨processes, [], ∅, .unset, [], "", false⟩

def plainInput (processes : List Process) : BootInput :=
  ⟨plainConfig processes, [], "/run/gopherd.sock", fun _ => .missing⟩

def namedProcess (name : String) : Process :=
  { Process.empty with name, command := "/bin/" ++ name }

def webProcess : Process :=
  { Process.empty with name := "web", command := "/bin/web" }

def execCheck (command : String) : CheckConfig :=
  ⟨none, none, some ⟨command, []⟩, "", "", "", 0⟩

def restartingWeb : Process :=
  { webProcess with onFailure := "restart" }

def checkedInput : BootInput :=
  let web : Process :=
    { webProcess with onCheckFailure := (∅ : GoMap String String).insert "alive" "" }
  { plainInput [web] with
    parsed := { plainConfig [web] with
      checks := (∅ : GoMap String CheckConfig).insert "alive" (execCheck "/bin/alive") } }

def startActions (i : InstId) (caller : StartCaller) (pid : Pid) : List Action :=
  [.run (.start i .condition caller) .go, .run (.start i .prepare caller) .go,
    .run (.start i .lock caller) .go, .fork (.child pid)]

def idleBootActions : List Action :=
  List.replicate 11 (.main .go)

def bootActions (pid : Pid) : List Action :=
  List.replicate 6 (.main .go) ++ [.run (.gate 0 .boot) .go] ++
    startActions 0 (.gate .boot) pid ++ List.replicate 5 (.main .go)

def bootLayerActions (i : InstId) (pid : Pid) : List Action :=
  List.replicate 6 (.main .go) ++ [.run (.gate i .boot) .go] ++
    startActions i (.gate .boot) pid ++ [.main .go]

def bootPairActions : List Action :=
  bootLayerActions 0 100 ++ bootLayerActions 1 101 ++ List.replicate 4 (.main .go)

def exitActions (pid : Pid) : List Action :=
  [.childExit pid (.exited 0), .main (.child pid), .main (.times ⟨0, 0⟩)]

def controlStartActions (name : String) (i : InstId) (pid : Pid) : List Action :=
  [.request (.start name false), .run (.startFn name false) .go,
    .run (.startFnFound i false ∅) .go] ++ startActions i .control pid

def stopRequestActions (name : String) (i : InstId) : List Action :=
  [.request (.stop name false), .run (.stopFn name false) .go, .run (.stopFnFound i false) .go,
    .run (.stopFnRunning i false) .go]

def reloadActions (processes : List Process) : List Action :=
  [.request .reload, .run (.reloadFn .control) .go, .run (.reloadQueued .control) .go,
    .reload (.config (plainConfig processes)), .reload .go]

end Gopherd.Daemon
