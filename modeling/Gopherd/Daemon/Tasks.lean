import Gopherd.Daemon.Step

namespace Gopherd.Daemon

open Go

def StartResult.isUp : StartResult → Bool
  | .started _ | .alreadyRunning _ | .replaced => true
  | .conditionUnmet | .shuttingDown | .failed => false

/-- The rest of a restart once some of the dependents are started. -/
def depsNext (r : Restart) : List InstId → Task
  | [] => .restartReturn r .restarted
  | dep :: rest => .gate dep (.restartDep r rest)

inductive GateNext (i : InstId) : GateCaller → StartResult → Task → Prop
  | root {r result} (h : result.isUp = true) :
      GateNext i (.restartRoot r) result (depsNext r r.deps)
  | rootSkipped {r} :
      GateNext i (.restartRoot r) .conditionUnmet (.restartReturn r .skipped)
  | rootLate {r} :
      GateNext i (.restartRoot r) .shuttingDown (.restartReturn r .shuttingDown)
  | rootFailed {r} : GateNext i (.restartRoot r) .failed (.shutdown 1 (.restart r))
  | dep {r rest result} (h : result.isUp = true) :
      GateNext i (.restartDep r rest) result (depsNext r rest)
  | depSkipped {r rest} :
      GateNext i (.restartDep r rest) .conditionUnmet
        (depsNext { r with skipped := i :: r.skipped } rest)
  | depLate {r rest} :
      GateNext i (.restartDep r rest) .shuttingDown (.restartReturn r .shuttingDown)
  | depFailed {r rest} : GateNext i (.restartDep r rest) .failed (.shutdown 1 (.restart r))

inductive StartNext (i : InstId) : StartCaller → StartResult → Task → Prop
  | notify {caller result} (h : result.isUp = true) :
      StartNext i (.gate caller) result (.notify i caller result)
  | gate {caller result t} (h : GateNext i caller result t) :
      StartNext i (.gate caller) result t
  | requestFailed : StartNext i .request .failed (.shutdown 1 .request)
  | request {result} : StartNext i .request result .handlerEnd
  | armed {pid} : StartNext i .tick (.started pid) (.timer i pid)

inductive ShutdownNext : ShutdownCaller → Task → Prop
  | request : ShutdownNext .request .handlerEnd
  | restart {r} : ShutdownNext (.restart r) (.restartReturn r .failed)

/-- The goroutines that go on after a start or a shutdown. -/
def Task.isContinuation : Task → Bool
  | .gate .. | .notify .. | .restartReturn .. | .shutdown .. | .handlerEnd | .timer .. => true
  | _ => false

theorem depsNext_isContinuation (r : Restart) (deps : List InstId) :
    (depsNext r deps).isContinuation = true := by
  cases deps <;> rfl

theorem GateNext.isContinuation (h : GateNext i caller result t) : t.isContinuation = true := by
  cases h <;> first | rfl | exact depsNext_isContinuation _ _

theorem StartNext.isContinuation (h : StartNext i caller result t) : t.isContinuation = true := by
  cases h with
  | gate h => exact h.isContinuation
  | _ => rfl

theorem ShutdownNext.isContinuation (h : ShutdownNext caller t) : t.isContinuation = true := by
  cases h <;> rfl

inductive Follows (s : State) : Task → Task → Prop
  | startFn {name wait i} (h : s.core.services.lookup name = some i) :
      Follows s (.startFn name wait) (.startFnFound i wait s.cfg.checks)
  | startGated {i checks} : Follows s (.startFnFound i true checks) (.gate i (.control true checks))
  | startPlain {i checks} :
      Follows s (.startFnFound i false checks) (.start i .condition .control)
  | stopFn {name wait i} (h : s.core.services.lookup name = some i) :
      Follows s (.stopFn name wait) (.stopFnFound i wait)
  | stopFnFound {i wait} (h : s.core.isRunning i = true) :
      Follows s (.stopFnFound i wait) (.stopFnRunning i wait)
  | stopFnRunning {i wait} :
      Follows s (.stopFnRunning i wait) (.stopFnSignal i (s.core.done i) wait)
  | stopFnSignal {i done} : Follows s (.stopFnSignal i done true) (.stopFnWait i done)
  | restartOrdered {name wait i} (h : s.core.services.lookup name = some i)
      (hshut : s.shuttingDown = false) :
      Follows s (.restartFn name wait) (.restartRun i (s.restartDeps i name) wait)
  | restartPlain {name wait i} (h : s.core.services.lookup name = some i)
      (hshut : s.shuttingDown = false) :
      Follows s (.restartFn name wait) (.sender ⟨i, s.core.done i, 0⟩)
  | reloadFn {origin} (h : s.started = true) :
      Follows s (.reloadFn origin) (.reloadQueued origin)
  | gate {i caller} : Follows s (.gate i caller) (.start i .condition (.gate caller))
  | gateFailed {i caller t} (h : GateNext i caller .failed t) : Follows s (.gate i caller) t
  | startCondition {i caller} (h : (s.core.heap i).unmetCondition s.files = none) :
      Follows s (.start i .condition caller) (.start i .prepare caller)
  | startSkipped {i caller t} (h : StartNext i caller .conditionUnmet t)
      (hunmet : (s.core.heap i).unmetCondition s.files ≠ none) :
      Follows s (.start i .condition caller) t
  | startPrepare {i caller} : Follows s (.start i .prepare caller) (.start i .lock caller)
  | startFailed {i caller t} (h : StartNext i caller .failed t) :
      Follows s (.start i .prepare caller) t
  | startLate {i caller t} (hshut : s.shuttingDown = true)
      (h : StartNext i caller .shuttingDown t) : Follows s (.start i .lock caller) t
  | startReplaced {i caller t} (hcurrent : s.core.isCurrent i = false)
      (h : StartNext i caller .replaced t) : Follows s (.start i .lock caller) t
  | startRunning {i caller t} (hrunning : s.core.isRunning i = true)
      (h : StartNext i caller (.alreadyRunning (s.core.heap i).pid) t) :
      Follows s (.start i .lock caller) t
  | notify {i caller result t} (h : GateNext i caller result t) :
      Follows s (.notify i caller result) t
  | notifyFailed {i caller result t} (h : GateNext i caller .failed t) :
      Follows s (.notify i caller result) t
  | restartRun {i deps observed leg rest} (hlegs : leg :: rest = deps.reverse ++ [i]) :
      Follows s (.restartRun i deps observed)
        (.restartStop ⟨i, deps, 0, [], observed, s.cfg.checks⟩ leg rest)
  | restartLate {r leg rest} (hshut : s.shuttingDown = true) :
      Follows s (.restartStop r leg rest) (.restartReturn r .shuttingDown)
  | restartStop {r leg rest} (hshut : s.shuttingDown = false) :
      Follows s (.restartStop r leg rest)
        (.restartWait { r with stopped := r.stopped + 1 } rest (s.core.done leg))
  | restartNext {r leg rest done} (hclosed : s.core.isClosed done = true) :
      Follows s (.restartWait r (leg :: rest) done) (.restartStop r leg rest)
  | restartRoot {r done} (hclosed : s.core.isClosed done = true) :
      Follows s (.restartWait r [] done) (.gate r.svc (.restartRoot r))
  | restartGone {r rest done} (h : s.shutdownClosed = true) :
      Follows s (.restartWait r rest done) (.restartReturn r .shuttingDown)
  | handlerUp {req} : Follows s (.handler req) .handlerEnd
  | handlerDelay {req} : Follows s (.handler req) (.handlerSleep req)
  | handlerStart {req} : Follows s (.handler req) (.start req.svc .condition .request)
  | handlerSleep {req} : Follows s (.handlerSleep req) (.start req.svc .condition .request)
  | checkRestart {check name i} (hshut : s.shuttingDown = false)
      (h : s.core.services.lookup name = some i)
      (haction : (s.core.heap i).onCheckFailure.lookup check = some .restart) :
      Follows s (.checkFailure check) (.sender ⟨i, s.core.done i, 0⟩)
  | checkShutdown {check code} (hshut : s.shuttingDown = false) :
      Follows s (.checkFailure check) (.shutdown code .check)
  | shutdown {code caller t} (h : ShutdownNext caller t) (hshut : s.shuttingDown = true) :
      Follows s (.shutdown code caller) t
  | tick {i} : Follows s (.tick i) (.start i .condition .tick)
  | timer {i pid} : Follows s (.timer i pid) (.timerStop i)

/-- The other goroutines do not matter to what follows. -/
theorem Follows.of_setTasks (h : Follows { s with tasks := tasks } t t') : Follows s t t' := by
  cases h <;> first
    | exact .startReplaced ‹_› ‹_›
    | exact .startRunning ‹_› ‹_›
    | exact .notifyFailed ‹_›
    | (constructor <;> assumption)

inductive MainNext (s : State) : Task → Prop
  | gate {name todo pos i} (hmain : s.main = .spawn (name :: todo) pos)
      (h : s.core.services.lookup name = some i)
      (hsvc : ((s.core.heap i).enabled && !(s.core.heap i).oneshot &&
        !(s.core.heap i).scheduled && !(s.core.heap i).running) = true) :
      MainNext s (.gate i .boot)
  | sender {req} (hmain : s.main = .enqueue req) : MainNext s (.sender req)
  | shutdown {code} (hmain : s.main = .spawnShutdown code) : MainNext s (.shutdown code .exit)

inductive Arrives (s : State) : Action → Task → Prop
  | request {request} (h : s.main.controlOpen = true) :
      Arrives s (.request request) request.task
  | hangup : Arrives s .hangup (.reloadFn .signal)
  | terminate : Arrives s .terminate (.shutdown 0 .signal)
  | checkFails {check} (h : check ∈ s.checkers) :
      Arrives s (.checkFails check) (.checkFailure check)
  | tick {i} (h : i ∈ s.schedulers) : Arrives s (.tick i) (.tick i)

inductive NewTask (s : State) : Action → Task → Prop
  | follows {t choice t'} (hmem : t ∈ s.tasks) (h : Follows s t t') :
      NewTask s (.run t choice) t'
  | unobserved {t choice} (hmem : t ∈ s.tasks) (h : t.isObserved = true) :
      NewTask s (.giveUp t choice) t.unobserved
  | forked {i caller pid t} (hforking : s.forking = some (i, caller))
      (h : StartNext i caller (.started pid) t) : NewTask s (.fork (.child pid)) t
  | forkFailed {i caller t} (hforking : s.forking = some (i, caller))
      (h : StartNext i caller .failed t) : NewTask s (.fork .fail) t
  | reload {choice origin i rest} (h : s.reload = .starting origin (i :: rest)) :
      NewTask s (.reload choice) (.start i .condition .reload)
  | stopped {choice caller t} (hpc : s.stopAll = .finishing) (hcaller : s.stopCaller = some caller)
      (h : ShutdownNext caller t) : NewTask s (.stopAll choice) t
  | main {choice t} (h : MainNext s t) : NewTask s (.main choice) t
  | dispatch {req rest} (h : s.restartCh = req :: rest) : NewTask s .dispatch (.handler req)
  | arrives {action t} (h : Arrives s action t) : NewTask s action t

/-- `Adds s s' next`: at most one goroutine was created, one that meets `next`. -/
def Adds (s s' : State) (next : Task → Prop) : Prop :=
  s'.tasks = s.tasks ∨ ∃ t, s'.tasks = t :: s.tasks ∧ next t

namespace Adds

variable {s s' : State} {next next' : Task → Prop}

theorem spawn (h : next t) : Adds s (s.spawn t) next :=
  .inr ⟨t, rfl, h⟩

theorem none (h : s'.tasks = s.tasks) : Adds s s' next :=
  .inl h

theorem imp (h : Adds s s' next) (himp : ∀ t, next t → next' t) : Adds s s' next' := by
  rcases h with hsame | ⟨t, hnew, hnext⟩
  · exact .inl hsame
  · exact .inr ⟨t, hnew, himp t hnext⟩

end Adds

theorem startDeps_eq (s : State) (r : Restart) (deps : List InstId) :
    s.startDeps r deps = s.spawn (depsNext r deps) := by
  cases deps <;> rfl

end Gopherd.Daemon
