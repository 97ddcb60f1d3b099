import Gopherd.Daemon.Effects

/-!
The restart requests in flight. `pendingRestarts` is raised before a request is
sent and lowered when its handler is through.
-/

namespace Gopherd.Daemon

open Go

/-- An ordered restart handles one request for each stop it has booked. -/
def GateCaller.requests : GateCaller → Nat
  | .boot | .control _ _ => 0
  | .restartRoot r | .restartDep r _ => r.stopped

def StartCaller.requests : StartCaller → Nat
  | .request => 1
  | .gate caller => caller.requests
  | .control | .reload | .tick => 0

def ShutdownCaller.requests : ShutdownCaller → Nat
  | .request => 1
  | .restart r => r.stopped
  | .signal | .exit | .check => 0

def Task.requests : Task → Nat
  | .sender _ | .handler _ | .handlerSleep _ | .handlerEnd => 1
  | .gate _ caller | .notify _ caller _ => caller.requests
  | .start _ _ caller => caller.requests
  | .restartStop r _ _ | .restartWait r _ _ | .restartReturn r _ => r.stopped
  | .shutdown _ caller => caller.requests
  | .startFn .. | .startFnFound .. | .stopFn .. | .stopFnFound .. | .stopFnRunning ..
  | .stopFnSignal .. | .stopFnWait .. | .restartFn .. | .restartRun .. | .reloadFn _
  | .reloadQueued _ | .checkFailure _ | .tick _ | .timer .. | .timerStop _ => 0

def StopPc.isBusy : StopPc → Bool
  | .idle | .finished => false
  | .closing _ | .storing _ | .locking | .orderedWait .. | .othersWait .. | .allWait _
  | .finishing => true

/-- The requests of the caller that the shutdown will return to. -/
def StopPc.requests (pc : StopPc) (caller : Option ShutdownCaller) : Nat :=
  if pc.isBusy then caller.elim 0 ShutdownCaller.requests else 0

namespace State

def requests (s : State) : Nat :=
  (s.tasks.map Task.requests).sum + s.restartCh.length +
    s.forking.elim 0 (fun fork => fork.2.requests) + s.stopAll.requests s.stopCaller

def surplus (s : State) : Int :=
  s.pendingRestarts - s.requests

variable (s : State)

@[simp]
theorem surplus_spawn (t : Task) : (s.spawn t).surplus = s.surplus - t.requests := by
  have hmore : (s.spawn t).requests = t.requests + s.requests := by
    simp only [requests, spawn, List.map_cons, List.sum_cons]
    omega
  have hsame : (s.spawn t).pendingRestarts = s.pendingRestarts := rfl
  simp only [surplus, hmore, hsame]
  omega

@[simp]
theorem surplus_answer (reply : Reply) : (s.answer reply).surplus = s.surplus := rfl

@[simp]
theorem surplus_setCore (core : Core) : (s.setCore core).surplus = s.surplus := rfl

theorem surplus_erase (hmem : t ∈ s.tasks) :
    { s with tasks := s.tasks.erase t }.surplus = s.surplus + t.requests := by
  have hsum := ((List.perm_cons_erase hmem).map Task.requests).sum_eq
  simp only [List.map_cons, List.sum_cons] at hsum
  simp only [surplus, requests]
  omega

@[simp]
theorem surplus_startDeps (r : Restart) (deps : List InstId) :
    (s.startDeps r deps).surplus = s.surplus - r.stopped := by
  cases deps <;> simp [startDeps, Task.requests, GateCaller.requests]

theorem surplus_gateDone (i : InstId) (caller : GateCaller) (result : StartResult) :
    (s.gateDone i caller result).surplus = s.surplus - caller.requests := by
  cases caller with
  | boot => cases result <;> simp [gateDone, GateCaller.requests] <;> rfl
  | control observed checks => cases observed <;> simp [gateDone, GateCaller.requests]
  | restartRoot r =>
    cases result <;>
      simp [gateDone, GateCaller.requests, Task.requests, ShutdownCaller.requests]
  | restartDep r rest =>
    cases result <;>
      simp [gateDone, GateCaller.requests, Task.requests, ShutdownCaller.requests]

theorem surplus_armTimeout (i : InstId) (pid : Pid) :
    (s.armTimeout i pid).surplus = s.surplus := by
  unfold armTimeout
  split
  · split <;> simp [Task.requests]
  · rfl

/-- The return of `startService` leaves the caller's requests to what follows. -/
theorem surplus_startDone (i : InstId) (caller : StartCaller) (result : StartResult) :
    (s.startDone i caller result).surplus = s.surplus - caller.requests := by
  cases caller with
  | control => simp [startDone, StartCaller.requests]
  | gate caller =>
    simp only [startDone]
    split <;> (try split) <;> simp [surplus_gateDone, Task.requests, StartCaller.requests]
  | request =>
    cases result <;>
      simp [startDone, StartCaller.requests, Task.requests, ShutdownCaller.requests]
  | reload =>
    simp only [startDone]
    split
    · simp only [StartCaller.requests, Nat.cast_zero, sub_zero]
      rfl
    · simp [StartCaller.requests]
  | tick =>
    cases result <;> simp [startDone, StartCaller.requests, surplus_armTimeout]

@[simp]
theorem surplus_enqueueRestart (req : RestartReq) :
    (s.enqueueRestart req).surplus = s.surplus := by
  unfold enqueueRestart
  rw [surplus_spawn]
  simp only [surplus, requests, Task.requests]
  ring

theorem surplus_restartOrdered (i : InstId) (deps : List InstId) (wait : Bool) :
    (s.restartOrdered i deps wait).surplus = s.surplus := by
  unfold restartOrdered
  cases wait <;> simp [Task.requests]

theorem surplus_restartFn (name : String) (wait : Bool) :
    (s.restartFn name wait).surplus = s.surplus := by
  unfold restartFn
  split
  · simp
  · split
    · simp
    · split <;> simp [surplus_restartOrdered]

theorem surplus_checkLoop (check : String) (names : List String) :
    (checkLoop check names s).surplus = s.surplus := by
  induction names generalizing s with
  | nil => rfl
  | cons name rest ih =>
    unfold checkLoop
    split
    · exact ih s
    · split <;> simp [ih, Task.requests, ShutdownCaller.requests]

theorem surplus_shutdownDone (caller : ShutdownCaller) :
    (s.shutdownDone caller).surplus = s.surplus - caller.requests := by
  cases caller <;> simp [shutdownDone, ShutdownCaller.requests, Task.requests]

end State

section Steps

variable {s s' : State} {choice : Choice}

theorem stepStart_surplus (hstep : s.stepStart i caller choice pc = some s') :
    s'.surplus = s.surplus - caller.requests := by
  rcases stepStart_cases hstep with ⟨core, result, -, rfl⟩ | ⟨next, rfl⟩ | ⟨hfree, rfl⟩
  · rw [State.surplus_startDone, State.surplus_setCore]
  · rw [State.surplus_spawn, Task.requests]
  · -- the call keeps its requests while it holds the lock
    simp only [State.surplus, State.requests, hfree, Option.elim]
    omega

theorem shutdown_surplus (hidle : s.shuttingDown = false → s.stopAll = .idle)
    (hstep : s.stepTask (.shutdown code caller) choice = some s') :
    s'.surplus = s.surplus - caller.requests := by
  simp only [State.stepTask] at hstep
  split at hstep
  · cases hstep
    exact s.surplus_shutdownDone caller
  · next hflag =>
      cases hstep
      have hstop := hidle (by simpa using hflag)
      simp only [State.surplus, State.requests, StopPc.requests, hstop, StopPc.isBusy,
        Option.elim, if_true, Bool.false_eq_true, if_false]
      omega

/-- A goroutine leaves its requests to the one that follows, or has settled them. -/
theorem stepTask_surplus (hidle : s.shuttingDown = false → s.stopAll = .idle)
    (hopen : t.isSender = true → s.restartClosed = false) (hstep : s.stepTask t choice = some s') :
    s'.surplus = s.surplus - t.requests := by
  cases t with
  | start i pc caller => exact stepStart_surplus hstep
  | shutdown code caller => exact shutdown_surplus hidle hstep
  | restartFn name wait =>
    simp only [State.stepTask] at hstep
    split_ifs at hstep
    cases hstep
    simp [State.surplus_restartFn, Task.requests]
  | checkFailure check =>
    simp only [State.stepTask] at hstep
    split at hstep
    · split_ifs at hstep <;> cases hstep <;> simp [State.surplus_checkLoop, Task.requests]
    · cases hstep
  | gate i caller =>
    rcases stepGate_cases hstep with ⟨rfl, -⟩ | rfl
    · simp [Task.requests, StartCaller.requests]
    · simp [State.surplus_gateDone, Task.requests]
  | notify i caller result =>
    simp only [State.stepTask] at hstep
    split at hstep <;> cases hstep <;> simp [State.surplus_gateDone, Task.requests]
  | restartStop r leg rest =>
    simp only [State.stepTask] at hstep
    split_ifs at hstep <;> cases hstep
    · simp [Task.requests]
    · rw [State.surplus_spawn]
      simp only [Task.requests, State.surplus, State.requests, State.setCore]
      omega
  | restartReturn r result =>
    simp only [State.stepTask] at hstep
    have hsettled : { s with pendingRestarts := s.pendingRestarts - r.stopped }.surplus =
        s.surplus - r.stopped := by
      simp only [State.surplus, State.requests]
      omega
    cases hstep
    split
    · rw [State.surplus_answer]
      exact hsettled
    · exact hsettled
  | sender req =>
    simp only [State.stepTask, hopen rfl, Bool.false_eq_true, if_false] at hstep
    split_ifs at hstep
    cases hstep
    simp only [State.surplus, State.requests, Task.requests, List.length_append,
      List.length_singleton]
    omega
  | handlerEnd =>
    cases hstep
    simp only [State.surplus, State.requests, Task.requests]
    omega
  | reloadQueued origin =>
    simp only [State.stepTask] at hstep
    split_ifs at hstep
    cases hstep
    simp only [Task.requests, Nat.cast_zero, sub_zero]
    rfl
  | restartWait r rest done =>
    simp only [State.stepTask] at hstep
    split at hstep
    · split_ifs at hstep
      split at hstep <;> cases hstep <;> simp [Task.requests, GateCaller.requests]
    · split_ifs at hstep
      cases hstep
      simp [Task.requests]
    · cases hstep
  | _ =>
    simp only [State.stepTask] at hstep
    (repeat' split at hstep) <;> cases hstep <;>
      simp [Task.requests, StartCaller.requests, GateCaller.requests]

theorem stepFork_surplus (hstep : s.stepFork choice = some s') : s'.surplus = s.surplus := by
  cases hforking : s.forking with
  | none => simp [State.stepFork, hforking] at hstep
  | some fork =>
    obtain ⟨i, caller⟩ := fork
    have hreleased : { s with forking := none }.surplus = s.surplus + caller.requests := by
      simp only [State.surplus, State.requests, hforking, Option.elim]
      omega
    simp only [State.stepFork, hforking] at hstep
    split at hstep
    · split_ifs at hstep
      cases hstep
      rw [State.surplus_startDone]
      change { s with forking := none }.surplus - _ = _
      omega
    · cases hstep
      rw [State.surplus_startDone, hreleased]
      omega
    · cases hstep

theorem stepReload_surplus (hstep : s.stepReload choice = some s') : s'.surplus = s.surplus := by
  rcases stepReload_cases hstep with hframe | ⟨origin, cfg, startOrder, -, -, -, rfl⟩
  · have htasks : (s'.tasks.map Task.requests).sum = (s.tasks.map Task.requests).sum := by
      rcases hframe.tasks with hsame | ⟨t, hnew, _, _, _, -, rfl⟩
      · rw [hsame]
      · simp [hnew, Task.requests, StartCaller.requests]
    obtain ⟨_, _, _, _, _, rfl⟩ := hframe.eq
    simp only [State.surplus, State.requests, htasks]
  · obtain ⟨_, _, _, _, _, heq⟩ := reloadSection_eq s origin cfg startOrder
    rw [heq]
    rfl

/-- What follows the shutdown takes over the requests of its caller. -/
theorem stopDone_surplus (hfinishing : s.stopAll = .finishing)
    (hstep : s.stepStopAll choice = some s') : s'.surplus = s.surplus := by
  simp only [State.stepStopAll, hfinishing] at hstep
  split at hstep
  · next caller hcaller =>
      obtain rfl := Option.some.inj hstep
      rw [State.surplus_shutdownDone]
      simp only [State.surplus, State.requests, StopPc.requests, StopPc.isBusy, hcaller,
        hfinishing, Option.elim, if_true, Bool.false_eq_true, if_false]
      omega
  · next hcaller =>
      obtain rfl := Option.some.inj hstep
      simp [State.surplus, State.requests, StopPc.requests, hcaller]

theorem stepStopAll_surplus (hstep : s.stepStopAll choice = some s') :
    s'.surplus = s.surplus := by
  by_cases hfinishing : s.stopAll = .finishing
  · exact stopDone_surplus hfinishing hstep
  · cases stepStopAll_cases hstep with
    | close h | store h => simp [State.surplus, State.requests, StopPc.requests, StopPc.isBusy, h]
    | @stop core stopAll hbefore hcore hafter =>
      have hbusy : s.stopAll.isBusy = true := by
        rcases hbefore with h | h
        · rw [h]
          rfl
        · generalize s.stopAll = before at h
          cases before <;> first | rfl | cases h
      have hbusy' : stopAll.isBusy = true := by
        rcases hafter with rfl | ⟨h, -⟩
        · rfl
        · cases stopAll <;> first | rfl | cases h
      simp [State.surplus, State.requests, StopPc.requests, hbusy, hbusy']
    | finish h => exact absurd h hfinishing

theorem stepLoop_surplus (hstep : s.stepLoop choice = some s') : s'.surplus = s.surplus := by
  unfold State.stepLoop at hstep
  cases hmain : s.main with
  | enqueue req =>
    simp only [hmain] at hstep
    cases hstep
    exact s.surplus_enqueueRestart req
  | spawnShutdown code =>
    simp only [hmain] at hstep
    cases hstep
    rw [State.surplus_spawn]
    change s.surplus - _ = _
    simp [Task.requests, ShutdownCaller.requests]
  | reaped pid status =>
    simp only [hmain] at hstep
    split at hstep
    · split_ifs at hstep
      cases hstep
      obtain ⟨_, _, heq⟩ := stepReaped_eq s pid status _
      rw [heq]
      rfl
    · cases hstep
  | _ =>
    simp only [hmain] at hstep
    (repeat' split at hstep) <;> cases hstep <;> rfl

theorem stepTeardown_surplus (hstep : s.stepTeardown = some s') : s'.surplus = s.surplus := by
  unfold State.stepTeardown at hstep
  (repeat' split at hstep) <;> cases hstep <;> rfl

/-- After the startup main only enqueues requests and counts them. -/
theorem stepMain_surplus (hbooted : s.main.booting = false)
    (hstep : s.stepMain choice = some s') : s'.surplus = s.surplus := by
  unfold State.stepMain at hstep
  split at hstep
  all_goals first
    | exact stepTeardown_surplus hstep
    | exact stepLoop_surplus hstep
    | next h => rw [h] at hbooted; cases hbooted

end Steps

theorem Task.unobserved_requests (t : Task) : t.unobserved.requests = t.requests := by
  cases t with
  | gate i caller => cases caller <;> rfl
  | start i pc caller =>
    cases caller with
    | gate caller => cases caller <;> rfl
    | _ => rfl
  | notify i caller result => cases caller <;> rfl
  | shutdown code caller => cases caller <;> rfl
  | _ => rfl

theorem Arrives.requests (h : Arrives s action t) : t.requests = 0 := by
  cases h with
  | @request request => cases request <;> rfl
  | _ => rfl

/-- No step after the startup changes the surplus. -/
theorem step_surplus {s s' : State} (hbooted : s.main.booting = false)
    (hidle : s.shuttingDown = false → s.stopAll = .idle)
    (hopen : ∀ t ∈ s.tasks, t.isSender = true → s.restartClosed = false)
    (hstep : s.step action = some s') : s'.surplus = s.surplus := by
  obtain ⟨-, hstepped⟩ := step_cases hstep
  cases hstepped with
  | @run t _ _ hmem htask =>
    rw [stepTask_surplus (s := { s with tasks := s.tasks.erase t }) hidle (hopen t hmem) htask,
      State.surplus_erase s hmem]
    omega
  | @giveUp t _ reply hmem =>
    change ({ s with tasks := s.tasks.erase t }.spawn t.unobserved).surplus = _
    rw [State.surplus_spawn, State.surplus_erase s hmem, t.unobserved_requests]
    omega
  | fork hfork => exact stepFork_surplus hfork
  | reload hreload => exact stepReload_surplus hreload
  | stopAll hstop => exact stepStopAll_surplus hstop
  | main hmain => exact stepMain_surplus hbooted hmain
  | dispatch hqueue =>
    simp only [State.surplus, State.requests, hqueue, List.map_cons, List.sum_cons,
      List.length_cons, Task.requests]
    omega
  | @arrives _ t harrives =>
    change (s.spawn t).surplus = _
    rw [State.surplus_spawn, harrives.requests]
    simp
  | child => rfl
  | forward | touch => rfl

end Gopherd.Daemon
