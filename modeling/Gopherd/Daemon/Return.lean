import Gopherd.Daemon.Senders

/-!
After the reap loop. With every process reaped and the flag set, each goroutine
can only finish: it forks nothing, waits for nothing that is still open and
leaves less to be done.
-/

namespace Gopherd.Daemon

open Go

/-- The starts that a restart has still to make after this one. -/
def GateCaller.remaining : GateCaller → Nat
  | .boot | .control _ _ => 0
  | .restartRoot r => r.deps.length
  | .restartDep _ rest => rest.length

def StartCaller.remaining : StartCaller → Nat
  | .gate caller => caller.remaining
  | .control | .request | .reload | .tick => 0

def StartPc.weight : StartPc → Nat
  | .condition => 7
  | .prepare => 6
  | .lock => 5

/-- A bound on the steps that a goroutine and those it leaves behind can take
once the flag is set. -/
def Task.weight : Task → Nat
  | .restartReturn .. | .handlerEnd | .timerStop _ | .restartFn .. | .checkFailure _
  | .stopFnWait .. => 1
  | .shutdown .. | .timer .. | .restartStop .. | .stopFnSignal .. => 2
  | .reloadQueued _ | .stopFnRunning .. | .restartRun .. => 3
  | .reloadFn _ | .stopFnFound .. => 4
  | .stopFn .. => 5
  | .notify _ caller _ => 4 + 10 * caller.remaining
  | .start _ pc caller => pc.weight + 10 * caller.remaining
  | .gate _ caller => 8 + 10 * caller.remaining
  | .tick _ | .handlerSleep _ => 8
  | .handler _ | .startFnFound .. => 9
  | .startFn .. => 10
  | .sender _ => 11
  | .restartWait r _ _ => 9 + 10 * r.deps.length

/-- A client may also stop waiting for the result, once. -/
def Task.cost (t : Task) : Nat :=
  2 * t.weight + t.isObserved.toNat

def ReloadPc.cost : ReloadPc → Nat
  | .idle => 0
  | .finishing _ | .locking .. => 2
  | .loading _ => 4
  | .starting _ toStart | .startWait _ toStart => 4 + 20 * toStart.length
  | .waiting _ _ toStart => 6 + 20 * toStart.length

def StopPc.cost : StopPc → Nat
  | .idle | .finished => 0
  | .finishing => 4
  | .locking | .orderedWait .. | .othersWait .. | .allWait _ => 5
  | .storing _ => 6
  | .closing _ => 7

def MainPc.cost : MainPc → Nat
  | .loopEnd => 4
  | .joinControl => 3
  | .joinSenders => 2
  | .closeTargets => 1
  | _ => 0

def State.work (s : State) : Nat :=
  (s.tasks.map Task.cost).sum + 20 * s.restartCh.length + s.reload.cost + s.stopAll.cost +
    s.main.cost

theorem depsNext_weight (r : Restart) (deps : List InstId) :
    (depsNext r deps).weight ≤ 1 + 10 * deps.length := by
  cases deps <;> simp [depsNext, Task.weight, GateCaller.remaining]; omega

variable {t : Task} {s s' : State}

theorem GateNext.weight (h : GateNext i caller result t) :
    t.weight ≤ 2 + 10 * caller.remaining := by
  cases h with
  | @root r =>
    have := depsNext_weight r r.deps
    simp only [GateCaller.remaining]
    omega
  | @dep r rest =>
    have := depsNext_weight r rest
    simp only [GateCaller.remaining]
    omega
  | @depSkipped r rest =>
    have := depsNext_weight { r with skipped := i :: r.skipped } rest
    simp only [GateCaller.remaining]
    omega
  | _ => simp only [Task.weight]; omega

theorem StartNext.weight (h : StartNext i caller result t) :
    t.weight ≤ 4 + 10 * caller.remaining := by
  cases h with
  | gate h =>
    have := h.weight
    simp only [StartCaller.remaining]
    omega
  | _ => simp [Task.weight, StartCaller.remaining]

theorem ShutdownNext.weight (h : ShutdownNext caller t) : t.weight = 1 := by
  cases h <;> rfl

/-- Once the flag is set, every step of a goroutine leaves less to be done. -/
theorem Follows.weight_lt (h : Follows s t t') (hflag : s.shuttingDown = true) :
    t'.weight < t.weight := by
  cases h with
  | gateFailed h => exact h.weight.trans_lt (by simp only [Task.weight]; omega)
  | startSkipped h | startFailed h | startLate _ h | startReplaced _ h | startRunning _ h =>
    exact h.weight.trans_lt (by simp only [Task.weight, StartPc.weight]; omega)
  | notify h | notifyFailed h | shutdown h =>
    exact h.weight.trans_lt (by simp only [Task.weight]; omega)
  | restartOrdered _ hshut | restartPlain _ hshut | restartStop hshut | checkRestart hshut
  | checkShutdown hshut => rw [hflag] at hshut; cases hshut
  | _ => simp [Task.weight, StartPc.weight, StartCaller.remaining, GateCaller.remaining] <;> omega

theorem Follows.cost_lt (h : Follows s t t') (hflag : s.shuttingDown = true) :
    t'.cost < t.cost := by
  have hweight := h.weight_lt hflag
  have hbit := Bool.toNat_le t'.isObserved
  unfold Task.cost
  omega

theorem Task.cost_pos (t : Task) : 0 < t.cost := by
  cases t with
  | start i pc caller => cases pc <;> simp [Task.cost, Task.weight, StartPc.weight]
  | _ => simp [Task.cost, Task.weight]

theorem Task.unobserved_cost (h : t.isObserved = true) :
    t.unobserved.cost < t.cost := by
  have hgate : ∀ caller : GateCaller, caller.unobserved.remaining = caller.remaining ∧
      caller.unobserved.isHandler = false := by
    intro caller
    cases caller <;> exact ⟨rfl, rfl⟩
  cases t with
  | gate i caller | notify i caller result =>
    simp_all [Task.cost, Task.unobserved, Task.weight, Task.isObserved]
  | start i pc caller =>
    cases caller with
    | gate caller =>
      simp_all [Task.cost, Task.unobserved, Task.weight, Task.isObserved,
        StartCaller.remaining]
    | _ => cases h
  | shutdown code caller =>
    cases caller with
    | restart r => simp_all [Task.cost, Task.unobserved, Task.weight, Task.isObserved]
    | _ => cases h
  | restartRun svc deps observed =>
    simp_all [Task.cost, Task.unobserved, Task.weight, Task.isObserved]
  | restartStop r leg rest =>
    simp_all [Task.cost, Task.unobserved, Task.weight, Task.isObserved]
  | restartWait r rest done =>
    simp_all [Task.cost, Task.unobserved, Task.weight, Task.isObserved]
  | _ => cases h

theorem cost_erase {tasks : List Task} (h : t ∈ tasks) :
    t.cost + ((tasks.erase t).map Task.cost).sum = (tasks.map Task.cost).sum :=
  List.sum_map_erase Task.cost h

theorem Adds.cost_le {next : Task → Prop} (h : Adds s s' next) (hbound : ∀ t, next t → t.cost ≤ n) :
    (s'.tasks.map Task.cost).sum ≤ n + (s.tasks.map Task.cost).sum := by
  rcases h with hsame | ⟨t, hnew, hnext⟩
  · rw [hsame]
    omega
  · have := hbound t hnext
    rw [hnew, List.map_cons, List.sum_cons]
    omega

structure Ending (s : State) : Prop where
  books : Books s
  shutdown : Shutdown s
  progress : Progress s

namespace Ending

variable {s s' : State} {action : Action}

theorem of_fresh (hfresh : Fresh s) : Ending s :=
  ⟨.of_fresh hfresh, .of_fresh hfresh, .of_fresh hfresh⟩

theorem step (h : Ending s) (hclean : s.cleanEnd action = true)
    (hstep : s.step action = some s') : Ending s' := by
  have hstart : s.cleanStart action = true := by
    simp only [State.cleanEnd, Bool.and_eq_true] at hclean
    exact hclean.1
  exact ⟨h.books.step hstart hstep, h.shutdown.step h.books hclean hstep,
    h.progress.step hstep⟩

theorem of_reached (hreached : Reached (fun s action => s.cleanEnd action = true) s) :
    Ending s :=
  hreached.invariant (fun _ hboots => of_fresh hboots.fresh) fun _ _ _ h => h.step

end Ending

structure LoopOver (s : State) : Prop extends Ending s where
  main : s.main.loopOver = true

namespace LoopOver

variable {s : State} (hover : LoopOver s)

include hover

theorem flag : s.shuttingDown = true :=
  hover.shutdown.left hover.main

theorem forking : s.forking = none :=
  (hover.shutdown.ended hover.main).1

theorem unlocked : s.unlocked = true := by
  simp [State.unlocked, hover.forking]

theorem idle : ∀ i, s.core.isRunning i = false :=
  (hover.shutdown.ended hover.main).2

theorem not_booting : s.main.booting = false := by
  have hmain := hover.main
  cases h : s.main <;> rw [h] at hmain <;> first | rfl | cases hmain

theorem launched : s.main.launching = false := by
  have hmain := hover.main
  cases h : s.main <;> rw [h] at hmain <;> first | rfl | cases hmain

theorem no_fork : s.step (.fork choice) ≠ some s' := by
  intro hstep
  obtain ⟨i, caller, h, -⟩ := stepFork_cases (step_fork hstep)
  rw [hover.forking] at h
  cases h

end LoopOver

theorem TaskFrame.work (hframe : TaskFrame s t s') (hflag : s.shuttingDown = true)
    (hmain : s'.main = s.main) :
    s'.work < t.cost + s.work := by
  have hstop : s'.stopAll = s.stopAll := by
    rcases hframe.shutdown with ⟨-, hsame, -⟩ | ⟨hclear, -⟩
    · exact hsame
    · rw [hflag] at hclear
      cases hclear
  have htasks : Adds s s' (Follows s t) := by
    rcases hframe.tasks with hadds | ⟨hclear, -⟩
    · exact hadds
    · rw [hflag] at hclear
      cases hclear
  -- a sender hands its request over, a queued reload takes its turn: nothing else follows
  have hless : (s'.tasks.map Task.cost).sum + 20 * s'.restartCh.length + s'.reload.cost <
      t.cost + (s.tasks.map Task.cost).sum + 20 * s.restartCh.length + s.reload.cost := by
    have hreload : s'.reload.cost = s.reload.cost ∨
        ∃ origin, s.reload = .idle ∧ s'.reload = .loading origin ∧ t = .reloadQueued origin := by
      rcases hframe.reload with hsame | ⟨-, origin, rest, hbefore, hafter⟩ | ⟨hidle, origin, h⟩
      · exact .inl (by rw [hsame])
      · exact .inl (by rw [hbefore, hafter]; rfl)
      · exact .inr ⟨origin, hidle, h⟩
    rcases hreload with hreload | ⟨origin, hidle, hloading, rfl⟩
    · rcases hframe.restartCh with hsame | ⟨req, rfl, hqueued⟩
      · have hcost := htasks.cost_le fun t' h => Nat.le_sub_one_of_lt (h.cost_lt hflag)
        have hpos := t.cost_pos
        rw [hsame]
        omega
      · have hcost := htasks.cost_le (n := 0) (fun t' h => by cases h)
        have hsender : (Task.sender req).cost = 22 := rfl
        rw [hqueued, List.length_append, List.length_singleton]
        omega
    · have hcost := htasks.cost_le (n := 0) (fun t' h => by cases h)
      have hqueue : s'.restartCh = s.restartCh := by
        rcases hframe.restartCh with hsame | ⟨req, h, -⟩
        · exact hsame
        · cases h
      have hqueued : (Task.reloadQueued origin).cost = 6 := rfl
      rw [hqueue, hidle, hloading]
      simp only [ReloadPc.cost]
      omega
  unfold State.work
  rw [hstop, hmain]
  omega

section Work

variable {s s' : State} {choice : Choice}

theorem run_work {t : Task} (hover : LoopOver s) (hstep : s.step (.run t choice) = some s') :
    s'.work < s.work := by
  have hended := (step_cases hstep).1
  obtain ⟨hmem, htask⟩ := step_run hstep
  have hframe := stepTask_frame htask
  have hmain : s'.main = s.main := by
    rcases hframe.main with hsame | ⟨hboot, -⟩ | ⟨-, -, hpanicked⟩
    · exact hsame
    · exact absurd (.inl ⟨t, hmem, hboot⟩) (hover.progress.not_aborting hover.launched hended)
    · exact absurd hpanicked (hover.progress.step_notPanicked hstep)
  have hwork := hframe.work hover.flag hmain
  have hsum := cost_erase hmem
  unfold State.work at hwork ⊢
  dsimp only at hwork
  omega

theorem giveUp_work {t : Task} (hstep : s.step (.giveUp t choice) = some s') :
    s'.work < s.work := by
  obtain ⟨-, hstepped⟩ := step_cases hstep
  cases hstepped with
  | giveUp hmem hobserved =>
    have hless := Task.unobserved_cost hobserved
    have hsum := cost_erase hmem
    simp only [State.work, List.map_cons, List.sum_cons]
    omega
  | arrives h => cases h
  | child h => cases h

theorem reload_work (hover : LoopOver s) (hstep : s.step (.reload choice) = some s') :
    s'.work < s.work := by
  rcases stepReload_cases (step_reloading hstep) with hframe | ⟨_, _, _, -, -, hclear, -⟩
  · have hmove := hframe.move
    have hcost := hframe.tasks.cost_le (n := s.reload.cost - s'.reload.cost - 1) (by
      rintro t ⟨origin, i, rest, hstarting, rfl⟩
      rw [hstarting] at hmove ⊢
      generalize s'.reload = after at hmove
      cases hmove
      simp only [ReloadPc.cost, List.length_cons]
      have : (Task.start i .condition .reload).cost = 14 := rfl
      omega)
    have hless : s'.reload.cost < s.reload.cost := by
      generalize s.reload = before, s'.reload = after at hmove
      cases hmove <;> simp [ReloadPc.cost]
    obtain ⟨_, _, _, _, _, rfl⟩ := hframe.eq
    unfold State.work
    dsimp only at hcost hless ⊢
    omega
  · rw [hover.flag] at hclear
    cases hclear

theorem stopAll_work (hover : LoopOver s)
    (hstep : s.step (.stopAll choice) = some s') : s'.work < s.work := by
  cases stepStopAll_cases (step_stopping hstep) with
  | close h => simp only [State.work, h, StopPc.cost]; omega
  | store h => simp only [State.work, h, StopPc.cost]; omega
  | @stop core stopAll hbefore hcore hafter hwaits =>
    -- nothing runs, so there is nothing to wait for
    have hfinishing : stopAll = .finishing := by
      rcases hafter with h | ⟨-, hsome⟩
      · exact h
      · obtain ⟨done, hdone⟩ := List.exists_mem_of_ne_nil _ hsome
        obtain ⟨i, hrunning, -⟩ := hwaits done hdone
        rw [hover.idle] at hrunning
        cases hrunning
    have hcost : s.stopAll.cost = 5 := by
      rcases hbefore with h | h
      · rw [h]
        rfl
      · generalize s.stopAll = before at h
        cases before <;> first | rfl | cases h
    have hafter : StopPc.finishing.cost = 4 := rfl
    simp only [State.work, hfinishing, hcost, hafter]
    omega
  | @finish tasks h htasks =>
    have hcost := htasks.cost_le (n := 3) (by
      rintro t ⟨caller, -, hnext⟩
      have hbit := Bool.toNat_le t.isObserved
      unfold Task.cost
      rw [hnext.weight]
      omega)
    simp only [State.work, h, StopPc.cost] at hcost ⊢
    omega

theorem main_work (hover : LoopOver s) (hstep : s.step (.main choice) = some s') :
    s'.work < s.work := by
  have hmain := hover.main
  rcases stepMain_cases (step_mainLoop hstep) with hframe | hevent
  · have hless : s'.main.cost < s.main.cost := by
      have hmove := hframe.move
      generalize s.main = before, s'.main = after at hmove hmain
      cases hmove <;> simp_all [MainPc.cost, MainPc.loopOver]
    have htasks := hframe.tasks.cost_le (n := 0) (by
      intro t hnext
      cases hnext with
      | gate h => rw [h] at hmain; cases hmain
      | sender h => rw [h] at hmain; cases hmain
      | shutdown h => rw [h] at hmain; cases hmain)
    obtain ⟨_, _, _, _, _, _, _, _, _, _, rfl⟩ := hframe.eq
    unfold State.work
    dsimp only at htasks hless ⊢
    omega
  · cases hevent <;> simp_all [MainPc.loopOver]

theorem dispatch_work (hstep : s.step .dispatch = some s') : s'.work < s.work := by
  obtain ⟨-, hstepped⟩ := step_cases hstep
  cases hstepped with
  | @dispatch req rest hqueue =>
    have hcost : (Task.handler req).cost = 18 := rfl
    simp only [State.work, hqueue, List.map_cons, List.sum_cons, List.length_cons]
    omega
  | arrives h => cases h
  | child h => cases h

end Work

def Action.own : Action → Bool
  | .run .. | .giveUp .. | .fork _ | .reload _ | .stopAll _ | .main _ | .dispatch => true
  | .request _ | .hangup | .terminate | .forward | .checkFails _ | .tick _ | .childExit ..
  | .adopt .. | .collect _ | .touch .. => false

theorem Action.own_of_transfers (action : Action) (h : action.transfers = true) :
    action.own = true := by
  cases action <;> first | rfl | cases h

theorem own_work (hover : LoopOver s) (hown : action.own = true) (hstep : s.step action = some s') :
    s'.work < s.work := by
  cases action with
  | run t choice => exact run_work hover hstep
  | giveUp t choice => exact giveUp_work hstep
  | fork choice => exact absurd hstep hover.no_fork
  | reload choice => exact reload_work hover hstep
  | stopAll choice => exact stopAll_work hover hstep
  | main choice => exact main_work hover hstep
  | dispatch => exact dispatch_work hstep
  | _ => cases hown

def State.canMove (s : State) : Prop :=
  ∃ action s', action.own = true ∧ s.step action = some s'

section Enabled

variable {s s' : State}

theorem canMove_run (choice : Choice) (hended : s.main.ended = false) (hmem : t ∈ s.tasks)
    (hstep : { s with tasks := s.tasks.erase t }.stepTask t choice = some s') : s.canMove :=
  ⟨.run t choice, s', rfl, by simp [State.step, hended, hmem, hstep]⟩

theorem canMove_main (choice : Choice) (hended : s.main.ended = false)
    (hstep : s.stepMain choice = some s') : s.canMove :=
  ⟨.main choice, s', rfl, by simp [State.step, hended, hstep]⟩

theorem canMove_stopAll (choice : Choice) (hended : s.main.ended = false)
    (hstep : s.stepStopAll choice = some s') : s.canMove :=
  ⟨.stopAll choice, s', rfl, by simp [State.step, hended, hstep]⟩

theorem canMove_reload (choice : Choice) (hended : s.main.ended = false)
    (hstep : s.stepReload choice = some s') : s.canMove :=
  ⟨.reload choice, s', rfl, by simp [State.step, hended, hstep]⟩

/-- A start goes on as long as nobody else holds the lock. -/
theorem start_enabled (s : State) (i : InstId) (pc : StartPc) (caller : StartCaller)
    (hforking : s.forking = none) : ∃ choice s', s.stepStart i caller choice pc = some s' := by
  have hunlocked : s.unlocked = true := by simp [State.unlocked, hforking]
  cases pc with
  | condition =>
    simp only [State.stepStart]
    split <;> exact ⟨.go, _, rfl⟩
  | prepare => exact ⟨.go, _, rfl⟩
  | lock =>
    simp only [State.stepStart, hunlocked, Bool.not_true, Bool.false_eq_true, if_false]
    split_ifs <;> exact ⟨.go, _, rfl⟩

/-- With the lock free, the reload idle and the shutdown announced, no handler
of a request has to wait. -/
theorem handler_enabled (s : State) (t : Task) (hhandler : t.isHandler = true)
    (hforking : s.forking = none) (hreload : s.reload = .idle) (hclosed : s.shutdownClosed = true) :
    ∃ choice s', s.stepTask t choice = some s' := by
  have hunlocked : s.unlocked = true := by simp [State.unlocked, hforking]
  cases t with simp only [State.stepTask, hunlocked, Bool.not_true, Bool.false_eq_true, if_false]
  | startFn name wait => split <;> exact ⟨.go, _, rfl⟩
  | startFnFound i wait => split_ifs <;> exact ⟨.go, _, rfl⟩
  | stopFn name wait => split <;> exact ⟨.go, _, rfl⟩
  | stopFnFound i wait => split_ifs <;> exact ⟨.go, _, rfl⟩
  | stopFnRunning i wait => exact ⟨.go, _, rfl⟩
  | stopFnSignal i done wait => split_ifs <;> exact ⟨.go, _, rfl⟩
  | stopFnWait i done => exact ⟨.fail, _, rfl⟩
  | restartFn name wait => exact ⟨.go, _, rfl⟩
  | restartRun svc deps observed => exact ⟨.go, _, rfl⟩
  | reloadFn origin => split_ifs <;> exact ⟨.go, _, rfl⟩
  | reloadQueued origin => exact ⟨.go, _, by simp [hreload]; rfl⟩
  | gate i caller => split <;> exact ⟨.go, _, rfl⟩
  | start i pc caller => exact start_enabled s i pc caller hforking
  | notify i caller result => exact ⟨.go, _, rfl⟩
  | restartStop r leg rest => split_ifs <;> exact ⟨.go, _, rfl⟩
  | restartWait r rest done => exact ⟨.fail, _, by simp [hclosed]; rfl⟩
  | restartReturn r result => exact ⟨.go, _, rfl⟩
  | shutdown code caller => split_ifs <;> exact ⟨.go, _, rfl⟩
  | _ => cases hhandler

end Enabled

namespace LoopOver

variable {s s' : State}

variable {done : Option Chan} {action : Action}

/-- With nothing running, every channel handed out so far is closed. -/
theorem isClosed (hover : LoopOver s)
    (hdone : ∀ channel, done = some channel → channel < s.core.nextChan) :
    s.core.isClosed done = true := by
  cases done with
  | none => rfl
  | some channel =>
    rcases hover.books.core.opened channel (hdone channel rfl) with hclosed | ⟨i, hrunning, -⟩
    · simpa [Core.isClosed] using hclosed
    · rw [hover.idle] at hrunning
      cases hrunning

theorem stopWaits_closed (hover : LoopOver s) (hdone : done ∈ s.stopAll.waits) :
    s.core.isClosed done = true :=
  hover.isClosed fun channel heq => hover.shutdown.stopWaits channel (heq ▸ hdone)

theorem reloadWaits_closed (hover : LoopOver s) (hdone : done ∈ s.reload.waits) :
    s.core.isClosed done = true :=
  hover.isClosed fun channel heq => hover.shutdown.reloadWaits channel (heq ▸ hdone)

theorem stopAll_enabled (hover : LoopOver s)
    (hended : s.main.ended = false) (hidle : s.stopAll ≠ .idle)
    (hfinished : s.stopAll ≠ .finished) :
    s.canMove := by
  have hunlocked := hover.unlocked
  have hwaits : ∀ done ∈ s.stopAll.waits, s.core.isClosed done = true :=
    fun _ => hover.stopWaits_closed
  have hperm : s.core.services.keys.isPerm s.core.services.keys = true :=
    List.isPerm_iff.mpr (.refl _)
  cases hstop : s.stopAll with
  | idle => exact absurd hstop hidle
  | finished => exact absurd hstop hfinished
  | closing code =>
    exact canMove_stopAll .go hended (by simp only [State.stepStopAll, hstop]; rfl)
  | storing code =>
    exact canMove_stopAll .go hended (by simp only [State.stepStopAll, hstop]; rfl)
  | locking =>
    exact canMove_stopAll (.order s.core.services.keys) hended
      (by simp only [State.stepStopAll, hstop, hunlocked, hperm, Bool.and_self, if_true]; rfl)
  | orderedWait rest stopped done =>
    have hclosed := hwaits done (by rw [hstop]; simp [StopPc.waits])
    exact canMove_stopAll (.order s.core.services.keys) hended
      (by simp only [State.stepStopAll, hstop, hclosed, hunlocked, hperm, Bool.and_self,
        if_true]; rfl)
  | othersWait rest stopped done =>
    have hclosed := hwaits done (by rw [hstop]; simp [StopPc.waits])
    exact canMove_stopAll .go hended
      (by simp only [State.stepStopAll, hstop, hclosed, hunlocked, Bool.and_self, if_true]; rfl)
  | allWait dones =>
    have hclosed : dones.all s.core.isClosed = true :=
      List.all_eq_true.mpr fun done hdone => hwaits done (by rw [hstop]; exact hdone)
    exact canMove_stopAll .go hended
      (by simp only [State.stepStopAll, hstop, hclosed, hunlocked, Bool.and_self, if_true]; rfl)
  | finishing =>
    cases hcaller : s.stopCaller with
    | none =>
      exact canMove_stopAll .go hended
        (by simp only [State.stepStopAll, hstop, hcaller]; rfl)
    | some caller =>
      exact canMove_stopAll .go hended
        (by simp only [State.stepStopAll, hstop, hcaller]; rfl)

theorem reload_enabled (hover : LoopOver s)
    (hended : s.main.ended = false) (hidle : s.reload ≠ .idle) : s.canMove := by
  have hflag := hover.flag
  have hforking := hover.forking
  have hunlocked := hover.unlocked
  cases hreload : s.reload with
  | idle => exact absurd hreload hidle
  | loading origin =>
    exact canMove_reload .fail hended (by simp only [State.stepReload, hreload]; rfl)
  | locking origin cfg startOrder =>
    exact canMove_reload .go hended (by
      simp only [State.stepReload, hreload, hunlocked, hflag, Bool.not_true,
        Bool.false_eq_true, if_false, if_true]; rfl)
  | waiting origin dones toStart =>
    have hclosed : dones.all s.core.isClosed = true :=
      List.all_eq_true.mpr fun done hdone =>
        hover.reloadWaits_closed (by rw [hreload]; exact hdone)
    exact canMove_reload .go hended
      (by simp only [State.stepReload, hreload, hclosed, if_true]; rfl)
  | starting origin toStart =>
    cases toStart <;> exact canMove_reload .go hended
      (by simp only [State.stepReload, hreload]; rfl)
  | startWait origin rest =>
    rcases hover.progress.reloadStarting origin rest hreload with ⟨i, pc, hmem⟩ | ⟨i, hfork⟩
    · obtain ⟨choice, s', hstep⟩ :=
        start_enabled { s with tasks := s.tasks.erase (.start i pc .reload) } i pc .reload hforking
      exact canMove_run choice hended hmem hstep
    · rw [hforking] at hfork
      cases hfork
  | finishing origin =>
    exact canMove_reload .go hended (by
      simp only [State.stepReload, hreload, hunlocked, Bool.not_true, Bool.false_eq_true,
        if_false]; rfl)

/-- A stopped control server waits only for handlers that can go on. -/
theorem handlers_enabled (hover : LoopOver s)
    (hended : s.main.ended = false) (hhandlers : s.handlersDone = false) : s.canMove := by
  have hforking := hover.forking
  by_cases hreload : s.reload = .idle
  · rcases hover.shutdown.closed hover.flag with ⟨code, hclosing⟩ | hclosed
    · exact hover.stopAll_enabled hended (by simp [hclosing]) (by simp [hclosing])
    · have hany : s.tasks.any Task.isHandler = true := by
        simpa [State.handlersDone, hreload, hforking, ReloadPc.origin] using hhandlers
      obtain ⟨t, hmem, hhandler⟩ := List.any_eq_true.mp hany
      obtain ⟨choice, s', hstep⟩ :=
        handler_enabled { s with tasks := s.tasks.erase t } t hhandler hforking hreload hclosed
      exact canMove_run choice hended hmem hstep
  · exact hover.reload_enabled hended hreload

theorem senders_enabled (hover : LoopOver s)
    (hended : s.main.ended = false) (hsenders : s.tasks.any Task.isSender = true) :
    s.canMove := by
  have hstarted := hover.progress.started hover.not_booting hended
  obtain ⟨action, s', htransfers, hstep⟩ :=
    Transferring.enabled ⟨hover.progress, hstarted, hended⟩ (by simp [hsenders])
  exact ⟨action, s', action.own_of_transfers htransfers, hstep⟩

theorem enabled (hover : LoopOver s)
    (hreturned : ¬ ∃ code, s.main = .returned code) : s.canMove := by
  cases hmain : s.main with
  | loopEnd =>
    have hended : s.main.ended = false := by rw [hmain]; rfl
    by_cases hdone : s.stopAllDone = true
    · exact canMove_main .go hended
        (by simp only [State.stepMain, State.stepTeardown, hmain, hdone, Bool.not_true,
          Bool.and_false, Bool.false_eq_true, if_false]; rfl)
    · refine hover.stopAll_enabled hended ?_ ?_
      · exact hover.shutdown.flag.mp hover.flag
      · exact fun hfinished => hdone (hover.shutdown.finished.mpr hfinished)
  | joinControl =>
    have hended : s.main.ended = false := by rw [hmain]; rfl
    by_cases hhandlers : s.handlersDone = true
    · exact canMove_main .go hended
        (by simp only [State.stepMain, State.stepTeardown, hmain, hhandlers, if_true]; rfl)
    · exact hover.handlers_enabled hended (by simpa using hhandlers)
  | joinSenders =>
    have hended : s.main.ended = false := by rw [hmain]; rfl
    by_cases hsenders : s.tasks.any Task.isSender = true
    · exact hover.senders_enabled hended hsenders
    · exact canMove_main .go hended
        (by simp only [State.stepMain, State.stepTeardown, hmain, hsenders, Bool.false_eq_true,
          if_false]; rfl)
  | closeTargets =>
    exact canMove_main .go (by rw [hmain]; rfl)
      (by simp only [State.stepMain, State.stepTeardown, hmain]; rfl)
  | returned code => exact absurd ⟨code, hmain⟩ hreturned
  | _ =>
    have hloop := hover.main
    rw [hmain] at hloop
    cases hloop

/-- After the end of the loop nothing can go wrong any more. -/
theorem clean (hover : LoopOver s) (hstep : s.step action = some s') :
    s.cleanEnd action = true := by
  have hmain := hover.main
  have hstart : s.cleanStart action = true := by
    unfold State.cleanStart
    split
    · exact absurd hstep hover.no_fork
    · split
      · next h => rw [h] at hmain; cases hmain
      · rfl
    · rfl
  unfold State.cleanEnd
  rw [hstart, Bool.true_and]
  split
  · next h => rw [h] at hmain; cases hmain
  · rfl

theorem step_over (hover : LoopOver s) (hstep : s.step action = some s') :
    s'.main.loopOver = true := by
  have hended := (step_cases hstep).1
  have hmain := hover.main
  cases step_main hstep with
  | same h => exact h ▸ hmain
  | aborted _ hboot => exact absurd hboot (hover.progress.not_aborting hover.launched hended)
  | panicked h => exact absurd h (hover.progress.step_notPanicked hstep)
  | moved h =>
    have hmove := h.move
    generalize s.main = before, s'.main = after at hmove hmain
    cases hmove <;> simp_all [MainPc.loopOver]
  | event h => cases h <;> simp_all [MainPc.loopOver]

theorem step (hover : LoopOver s) (hstep : s.step action = some s') :
    LoopOver s' :=
  ⟨hover.toEnding.step (hover.clean hstep) hstep, hover.step_over hstep⟩

theorem of_runs {t : State} (hover : LoopOver s)
    (hrun : Transition.Runs State.step Transition.anyStep s t) : LoopOver t :=
  hrun.invariant hover fun _ _ _ hover _ => hover.step

theorem returns (hover : LoopOver s) :
    Transition.Inevitable State.step (fun action => action.own = true)
      (fun t => ∃ code, t.main = .returned code) s :=
  Transition.Inevitable.of_measure State.work (fun _ hover => hover.enabled)
    (fun _ _ _ hover _ hown hstep => ⟨hover.step hstep, own_work hover hown hstep⟩) hover

end LoopOver

/-- In a run in which no start slips in before the loop leaves for want of
children, the end of the loop leaves no process behind, none follows, and
whatever is waited for has been closed; so `run` returns. -/
theorem loop_end_leaves_no_process {s : State}
    (hreached : Reached (fun s action => s.cleanEnd action = true) s)
    (hmain : s.main.loopOver = true) :
    (∀ t, Transition.Runs State.step Transition.anyStep s t →
      (∀ i, NoLeader t.core i) ∧ (∀ choice, t.step (.fork choice) = none) ∧
        ∀ done ∈ t.stopAll.waits, t.core.isClosed done = true) ∧
    Transition.Inevitable State.step (fun action => action.own = true)
      (fun t => ∃ code, t.main = .returned code) s := by
  have hover : LoopOver s := ⟨.of_reached hreached, hmain⟩
  refine ⟨?_, hover.returns⟩
  intro t hrun
  have hover := hover.of_runs hrun
  refine ⟨?_, ?_, fun _ => hover.stopWaits_closed⟩
  · intro i pid status hchild
    obtain ⟨hrunning, -⟩ := hover.books.core.leader pid i status hchild
    rw [hover.idle] at hrunning
    cases hrunning
  · intro choice
    exact Option.eq_none_iff_forall_ne_some.mpr fun _ => hover.no_fork

/-- The signals and exits of an orderly shutdown of `web`, up to the end of the
reap loop. -/
def shutdownActions (pid : Pid) : List Action :=
  [.terminate, .run (.shutdown 0 .signal) .go, .stopAll .go, .stopAll .go,
    .stopAll (.order ["web"]), .childExit pid (.signaled 15), .main (.child pid),
    .main (.times ⟨0, 0⟩)]

/-- The shutdown of a booted `web` is clean and cannot but return. -/
theorem web_shutdown_returns : ∃ s,
    run State.cleanEnd (plainInput [webProcess]) (bootActions 100 ++ shutdownActions 100) =
      some s ∧ s.main = .loopEnd ∧ (∀ i, NoLeader s.core i) ∧
    Transition.Inevitable State.step (fun action => action.own = true)
      (fun t => ∃ code, t.main = .returned code) s := by
  have hrun : (run State.cleanEnd (plainInput [webProcess])
      (bootActions 100 ++ shutdownActions 100)).map (fun s => s.main) = some .loopEnd := by
    decide +kernel
  obtain ⟨s, hs, hmain⟩ := Option.map_eq_some_iff.mp hrun
  have hends := loop_end_leaves_no_process (reached_of_run hs) (by rw [hmain]; rfl)
  exact ⟨s, hs, hmain, (hends.1 s .refl).1, hends.2⟩

structure Stuck (channel : Chan) (s : State) : Prop where
  progress : Progress s
  main : s.main = .loopEnd
  flag : s.shuttingDown = true
  unfinished : s.stopAllDone = false
  waits : some channel ∈ s.stopAll.waits
  isOpen : channel ∉ s.core.closed

theorem stepStopAll_closed (hstep : s.stepStopAll choice = some s') :
    ∀ done ∈ s.stopAll.waits, s.core.isClosed done = true := by
  intro done hdone
  cases hstop : s.stopAll with
  | orderedWait rest stopped awaited =>
    simp only [State.stepStopAll, hstop] at hstep
    split at hstep
    · split_ifs at hstep with hready
      simp only [Bool.and_eq_true] at hready
      obtain rfl : done = awaited := by simpa [hstop, StopPc.waits] using hdone
      exact hready.1.1
    · cases hstep
  | othersWait rest stopped awaited =>
    simp only [State.stepStopAll, hstop] at hstep
    split_ifs at hstep with hready
    simp only [Bool.and_eq_true] at hready
    obtain rfl : done = awaited := by simpa [hstop, StopPc.waits] using hdone
    exact hready.1
  | allWait dones =>
    simp only [State.stepStopAll, hstop] at hstep
    split_ifs at hstep with hready
    simp only [Bool.and_eq_true] at hready
    exact List.all_eq_true.mp hready.1 done (by simpa [hstop, StopPc.waits] using hdone)
  | _ => simp [hstop, StopPc.waits] at hdone

namespace Stuck

variable {s s' : State} {channel : Chan} {action : Action}

theorem step_main (hstuck : Stuck channel s) (hstep : s.step action = some s') :
    s'.main = .loopEnd := by
  have hended := (step_cases hstep).1
  have hmain := hstuck.main
  cases Gopherd.Daemon.step_main hstep with
  | same h => exact h.trans hmain
  | aborted _ hboot =>
    exact absurd hboot (hstuck.progress.not_aborting (by rw [hmain]; rfl) hended)
  | panicked h => exact absurd h (hstuck.progress.step_notPanicked hstep)
  | moved h =>
    have hmove := h.move
    rw [hmain] at hmove
    generalize s'.main = after at hmove
    cases hmove with
    | loopLeft hdone =>
      have := hdone hstuck.flag
      rw [hstuck.unfinished] at this
      cases this
  | event h => cases h <;> simp_all

theorem step_closed (hstuck : Stuck channel s) (hstep : s.step action = some s') :
    s'.core.closed = s.core.closed := by
  have hmain := hstuck.main
  cases step_core hstep with
  | quiet h => exact h.closed
  | forked _ _ hcore => rw [hcore]; rfl
  | children _ hcore => rw [hcore]
  | reloaded _ _ hclear => rw [hstuck.flag] at hclear; cases hclear
  | oneshotStarted h | oneshotTimedOut h | oneshotExited h | exited h => rw [hmain] at h; cases h

theorem step (hstuck : Stuck channel s) (hstep : s.step action = some s') : Stuck channel s' := by
  have hclosed := hstuck.step_closed hstep
  have hstop : s'.shuttingDown = s.shuttingDown ∧ s'.stopAll = s.stopAll ∧
      s'.stopAllDone = s.stopAllDone := by
    cases step_stop hstep with
    | same hflag hpc _ _ hdone => exact ⟨hflag, hpc, hdone⟩
    | begun _ hclear => rw [hstuck.flag] at hclear; cases hclear
    | event _ =>
      have := stepStopAll_closed (step_stopping hstep) _ hstuck.waits
      exact absurd (by simpa [Core.isClosed] using this) hstuck.isOpen
  obtain ⟨hflag, hpc, hdone⟩ := hstop
  exact ⟨hstuck.progress.step hstep, hstuck.step_main hstep, hflag.trans hstuck.flag,
    hdone.trans hstuck.unfinished, hpc ▸ hstuck.waits, hclosed ▸ hstuck.isOpen⟩

/-- Whatever happens, `run` does not return. -/
theorem forever {t : State} (hstuck : Stuck channel s)
    (hrun : Transition.Runs State.step Transition.anyStep s t) : t.main = .loopEnd :=
  (hrun.invariant hstuck fun _ _ _ hstuck _ => hstuck.step).main

end Stuck

/-- `Wait4` reports that there are no children, a control start forks one, a
signal sets the flag, and the loop leaves without reaping it. -/
def lateStartActions : List Action :=
  List.replicate 11 (.main .go) ++ [.main .fail] ++ controlStartActions "web" 0 101 ++
    [.terminate, .run (.shutdown 0 .signal) .go, .main .go, .stopAll .go, .stopAll .go,
      .stopAll (.order ["web"]), .childExit 101 (.signaled 15)]

/-- The daemon then waits for ever for a process that has exited. -/
theorem late_start_hangs_shutdown : ∃ s, Reached Transition.anyStep s ∧
    s.core.children.lookup 101 = some ⟨some 0, some (.signaled 15)⟩ ∧
    ∀ t, Transition.Runs State.step Transition.anyStep s t → t.main = .loopEnd := by
  have hrun : (run (fun _ _ => true)
      (plainInput [{ webProcess with startup := .disabled }]) lateStartActions).map
      (fun s => decide (s.core.children.lookup 101 = some ⟨some 0, some (.signaled 15)⟩ ∧
        s.main = .loopEnd ∧ s.shuttingDown = true ∧ s.stopAllDone = false ∧
        some 0 ∈ s.stopAll.waits ∧ 0 ∉ s.core.closed)) = some true := by
    decide +kernel
  obtain ⟨s, hs, hchild, hmain, hflag, hdone, hwaits, hopen⟩ := exists_of_decide hrun
  have hstuck : Stuck 0 s :=
    ⟨.of_reached (reached_of_run hs), hmain, hflag, hdone, hwaits, hopen⟩
  exact ⟨s, (reached_of_run hs).weaken fun _ _ _ => trivial, hchild, fun t => hstuck.forever⟩

end Gopherd.Daemon
