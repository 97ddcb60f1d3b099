import Gopherd.Daemon.Reload

/-!
The state of a running daemon. `Task` lists the goroutines that come and go,
each with the point it has reached. Four of them are unique and have a field
of their own: the main goroutine, the reload that holds `reloadMu`, the winner
of the race in `initiateShutdown`, and the `startService` call that holds
`d.mu` between its checks and the fork. Every other section under `d.mu` is
one step, which is possible only while no such call holds the lock.
-/

namespace Gopherd.Daemon

open Go

inductive StartResult where
  | started (pid : Pid)
  | alreadyRunning (pid : Pid)
  | conditionUnmet
  | shuttingDown
  | replaced
  | failed
  deriving DecidableEq

structure Restart where
  svc : InstId
  deps : List InstId
  stopped : Nat
  -- dependents that their own condition kept down, which the source only logs
  skipped : List InstId
  -- whether a client still waits for the result
  observed : Bool
  -- those of the configuration that was in force when the call began
  checks : GoMap String CheckConfig
  deriving DecidableEq

inductive RestartResult where
  | restarted
  | skipped
  | shuttingDown
  | failed
  deriving DecidableEq

inductive GateCaller where
  | boot
  | control (observed : Bool) (checks : GoMap String CheckConfig)
  | restartRoot (r : Restart)
  | restartDep (r : Restart) (rest : List InstId)
  deriving DecidableEq

inductive StartCaller where
  | control
  | gate (caller : GateCaller)
  | request
  | reload
  | tick
  deriving DecidableEq

inductive StartPc where
  | condition
  | prepare
  | lock
  deriving DecidableEq

inductive ShutdownCaller where
  | signal
  | exit
  | check
  | request
  | restart (r : Restart)
  deriving DecidableEq

inductive ReloadOrigin where
  | control
  | signal
  deriving DecidableEq

inductive Task where
  | startFn (name : String) (wait : Bool)
  | startFnFound (i : InstId) (wait : Bool) (checks : GoMap String CheckConfig)
  | stopFn (name : String) (wait : Bool)
  | stopFnFound (i : InstId) (wait : Bool)
  | stopFnRunning (i : InstId) (wait : Bool)
  | stopFnSignal (i : InstId) (done : Option Chan) (wait : Bool)
  | stopFnWait (i : InstId) (done : Option Chan)
  | restartFn (name : String) (wait : Bool)
  | reloadFn (origin : ReloadOrigin)
  | reloadQueued (origin : ReloadOrigin)
  | gate (i : InstId) (caller : GateCaller)
  | start (i : InstId) (pc : StartPc) (caller : StartCaller)
  | notify (i : InstId) (caller : GateCaller) (result : StartResult)
  | restartRun (svc : InstId) (deps : List InstId) (observed : Bool)
  | restartStop (r : Restart) (leg : InstId) (rest : List InstId)
  | restartWait (r : Restart) (rest : List InstId) (done : Option Chan)
  | restartReturn (r : Restart) (result : RestartResult)
  | sender (req : RestartReq)
  | handler (req : RestartReq)
  | handlerSleep (req : RestartReq)
  | handlerEnd
  | checkFailure (check : String)
  | shutdown (code : Int) (caller : ShutdownCaller)
  | tick (i : InstId)
  | timer (i : InstId) (pid : Pid)
  | timerStop (i : InstId)
  deriving DecidableEq

inductive ReloadPc where
  | idle
  | loading (origin : ReloadOrigin)
  | locking (origin : ReloadOrigin) (cfg : Config) (startOrder : List String)
  | waiting (origin : ReloadOrigin) (dones : List (Option Chan)) (toStart : List InstId)
  | starting (origin : ReloadOrigin) (toStart : List InstId)
  | startWait (origin : ReloadOrigin) (toStart : List InstId)
  | finishing (origin : ReloadOrigin)
  deriving DecidableEq

inductive StopPc where
  | idle
  | closing (code : Int)
  | storing (code : Int)
  | locking
  | orderedWait (rest stopped : List String) (done : Option Chan)
  | othersWait (rest stopped : List String) (done : Option Chan)
  | allWait (dones : List (Option Chan))
  | finishing
  | finished
  deriving DecidableEq

structure BootPos where
  layer : List String
  rest : List (List String)
  deriving DecidableEq

inductive MainPc where
  | nextLayer (rest : List (List String))
  | oneshots (todo : List String) (procs : List (InstId × Pid)) (pos : BootPos)
  | oneshotStart (i : InstId) (todo : List String) (procs : List (InstId × Pid))
      (pos : BootPos)
  | results (waiting : List (InstId × Pid)) (arrived : List (InstId × Option WaitStatus))
      (fatal : Option (InstId × Option Int)) (pos : BootPos)
  | spawn (todo : List String) (pos : BootPos)
  | join (pos : BootPos)
  | startChecks
  | startSchedulers
  | begin
  | wait4
  | echild
  | echildPending
  | pause
  | idle
  | reaped (pid : Pid) (status : WaitStatus)
  | enqueue (req : RestartReq)
  | prestore (code : Int)
  | spawnShutdown (code : Int)
  | unmanaged
  | unmanagedLock
  | loopEnd
  | joinControl
  | joinSenders
  | closeTargets
  | returned (code : Int)
  | aborted
  | panicked
  deriving DecidableEq

def MainPc.ended : MainPc → Bool
  | .returned _ | .aborted | .panicked => true
  | _ => false

/-- The control socket is served until the teardown stops the server. -/
def MainPc.controlOpen : MainPc → Bool
  | .joinControl | .joinSenders | .closeTargets | .returned _ | .aborted | .panicked => false
  | _ => true

/-- Signals are received until the teardown closes their channel. -/
def MainPc.signalsOpen : MainPc → Bool
  | .joinSenders | .closeTargets | .returned _ | .aborted | .panicked => false
  | _ => true

inductive Reply where
  | unknownService (name : String)
  | alreadyRunning (name : String) (pid : Pid)
  | started (name : String) (pid : Pid)
  | skipped (name : String) (reason : Option SkipReason)
  | startFailed (name : String) (result : StartResult)
  | alreadyStopped (name : String)
  | stopSignalSent (name : String)
  | stopped (name : String)
  | stillRunning (name : String)
  | inProgress
  | shuttingDown
  | restartScheduled (name : String) (deps : List String)
  | restarted (name : String) (pid : Pid) (deps : List String)
  | restartFailed (name : String) (result : RestartResult)
  | reloaded
  | reloadFailed
  deriving DecidableEq

structure State where
  core : Core
  cfg : Config
  entrypointArgs : List String
  controlSocket : String
  shutdownSeq : List String
  shutdownMode : ShutdownMode
  checkers : List String
  schedulers : List InstId
  forking : Option (InstId × StartCaller)
  reload : ReloadPc
  stopAll : StopPc
  stopCaller : Option ShutdownCaller
  tasks : List Task
  restartCh : List RestartReq
  restartClosed : Bool
  pendingRestarts : Int
  exitCode : Int
  shuttingDown : Bool
  shutdownClosed : Bool
  stopAllDone : Bool
  childStarted : Bool
  started : Bool
  main : MainPc
  subreaper : Bool
  files : String → FileStat
  replies : List Reply

structure Installed where
  cfg : Config
  entrypointArgs : List String
  controlSocket : String
  shutdownSeq : List String
  shutdownMode : ShutdownMode

namespace State

def installed (s : State) : Installed :=
  ⟨s.cfg, s.entrypointArgs, s.controlSocket, s.shutdownSeq, s.shutdownMode⟩

/-- `d.mu` is not held across a step. -/
def unlocked (s : State) : Bool :=
  s.forking.isNone

def spawn (s : State) (t : Task) : State :=
  { s with tasks := t :: s.tasks }

def answer (s : State) (reply : Reply) : State :=
  { s with replies := reply :: s.replies }

def setCore (s : State) (core : Core) : State :=
  { s with core }

end State

/-- A goroutine that `ctrlServer.Stop` joins: the handler of a request, or
work that a handler still observes. -/
def GateCaller.isHandler : GateCaller → Bool
  | .control observed _ => observed
  | .restartRoot r | .restartDep r _ => r.observed
  | .boot => false

def StartCaller.isHandler : StartCaller → Bool
  | .control => true
  | .gate caller => caller.isHandler
  | .request | .reload | .tick => false

def Task.isHandler : Task → Bool
  | .startFn .. | .startFnFound .. | .stopFn .. | .stopFnFound .. | .stopFnRunning ..
  | .stopFnSignal .. | .stopFnWait .. | .restartFn .. => true
  | .reloadFn origin | .reloadQueued origin => origin = .control
  | .gate _ caller | .notify _ caller _ => caller.isHandler
  | .start _ _ caller => caller.isHandler
  | .restartRun _ _ observed => observed
  | .restartStop r _ _ | .restartWait r _ _ | .restartReturn r _ => r.observed
  | .shutdown _ (.restart r) => r.observed
  | _ => false

def Task.isSender : Task → Bool
  | .sender _ => true
  | _ => false

def StartCaller.isReload : StartCaller → Bool
  | .reload => true
  | .control | .gate _ | .request | .tick => false

def Task.isReloadStart : Task → Bool
  | .start _ _ caller => caller.isReload
  | _ => false

def GateCaller.isBoot : GateCaller → Bool
  | .boot => true
  | .control _ _ | .restartRoot _ | .restartDep _ _ => false

def StartCaller.isBoot : StartCaller → Bool
  | .gate caller => caller.isBoot
  | .control | .request | .reload | .tick => false

def Task.isBoot : Task → Bool
  | .gate _ caller | .notify _ caller _ => caller.isBoot
  | .start _ _ caller => caller.isBoot
  | _ => false

def ReloadPc.origin : ReloadPc → Option ReloadOrigin
  | .idle => none
  | .loading origin | .locking origin _ _ | .waiting origin _ _ | .starting origin _
  | .startWait origin _ | .finishing origin => some origin

/-- Work of the goroutine that serves the signals one after the other. -/
def Task.isSignal : Task → Bool
  | .reloadFn origin | .reloadQueued origin => origin = .signal
  | .shutdown _ caller => caller = .signal
  | _ => false

namespace State

def signalIdle (s : State) : Bool :=
  !s.tasks.any Task.isSignal && s.reload.origin ≠ some .signal &&
    (s.stopCaller ≠ some .signal || s.stopAll = .finished)

def handlersDone (s : State) : Bool :=
  !s.tasks.any Task.isHandler && s.reload.origin ≠ some .control &&
    s.forking.all (fun fork => !fork.2.isHandler)

def bootDone (s : State) : Bool :=
  !s.tasks.any Task.isBoot && s.forking.all (fun fork => !fork.2.isBoot)

end State

end Gopherd.Daemon
