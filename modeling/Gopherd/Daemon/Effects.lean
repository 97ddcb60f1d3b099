import Gopherd.Daemon.MainLoop

/-!
What a step can do to the parts of the state: to the goroutines, to the shared
data, to the reload in progress and to the flags.
-/

namespace Gopherd.Daemon

open Go

theorem stepReaped_eq (s : State) (pid : Pid) (status : WaitStatus) (times : RunTimes) :
    ∃ core main, s.stepReaped pid status times = { s with core := core, main := main } := by
  unfold State.stepReaped
  split <;> exact ⟨_, _, rfl⟩

/-- The steps of main that touch a process change nothing else. -/
theorem MainEvent.eq (hevent : MainEvent s choice s') :
    ∃ core main, s' = { s with core := core, main := main } := by
  cases hevent with
  | exited => exact stepReaped_eq s _ _ _
  | _ => exact ⟨_, _, rfl⟩

/-- Where the goroutines of a state come from. -/
theorem step_tasks (hstep : s.step action = some s') (ht : t ∈ s'.tasks) :
    t ∈ s.tasks ∨ NewTask s action t := by
  have hadds : ∀ {s₁ : State} {next : Task → Prop}, Adds s₁ s' next → s₁.tasks ⊆ s.tasks →
      (∀ t, next t → NewTask s action t) → t ∈ s.tasks ∨ NewTask s action t := by
    rintro s₁ next (hsame | ⟨new, hnew, hnext⟩) hsub himp
    · exact .inl (hsub (hsame ▸ ht))
    · rcases List.mem_cons.mp (hnew ▸ ht) with rfl | hold
      · exact .inr (himp _ hnext)
      · exact .inl (hsub hold)
  obtain ⟨-, hstepped⟩ := step_cases hstep
  cases hstepped with
  | @run running _ _ hmem htask =>
    rcases (stepTask_frame htask).tasks with h | ⟨-, new, hnew, hnext⟩
    · exact hadds h List.erase_subset fun t' h => .follows hmem h.of_setTasks
    · rcases List.mem_append.mp (hnew ▸ ht) with hin | hold
      · exact .inr (.follows hmem (hnext t hin).of_setTasks)
      · exact .inl (List.erase_subset hold)
  | giveUp hmem hobserved =>
    rcases List.mem_cons.mp ht with rfl | hold
    · exact .inr (.unobserved hmem hobserved)
    · exact .inl (List.erase_subset hold)
  | fork hfork =>
    obtain ⟨i, caller, hforking, ⟨pid, rfl, -, h⟩ | ⟨rfl, h⟩⟩ := stepFork_cases hfork
    · exact hadds h.tasks (List.Subset.refl _) fun t h => .forked hforking h
    · exact hadds h.tasks (List.Subset.refl _) fun t h => .forkFailed hforking h
  | reload hreload =>
    rcases stepReload_cases hreload with hframe | ⟨origin, cfg, startOrder, -, -, -, rfl⟩
    · refine hadds hframe.tasks (List.Subset.refl _) ?_
      rintro t ⟨origin, i, rest, hstarting, rfl⟩
      exact .reload hstarting
    · obtain ⟨_, _, _, _, _, heq⟩ := reloadSection_eq s origin cfg startOrder
      rw [heq] at ht
      exact .inl ht
  | stopAll hstop =>
    refine hadds (stepStopAll_frame hstop).tasks (List.Subset.refl _) ?_
    rintro t ⟨hpc, caller, hcaller, h⟩
    exact .stopped hpc hcaller h
  | main hmain =>
    rcases stepMain_cases hmain with hframe | hevent
    · exact hadds hframe.tasks (List.Subset.refl _) fun t h => .main h
    · obtain ⟨_, _, rfl⟩ := hevent.eq
      exact .inl ht
  | dispatch hqueue hstarted =>
    rcases List.mem_cons.mp ht with rfl | hold
    · exact .inr (.dispatch hqueue)
    · exact .inl hold
  | arrives harrives =>
    rcases List.mem_cons.mp ht with rfl | hold
    · exact .inr (.arrives harrives)
    · exact .inl hold
  | child hevent => exact .inl ht
  | forward | touch => exact .inl ht

inductive CoreStep (s : State) : Action → State → Prop
  | quiet {action s'} (h : Quiet s.core s'.core) : CoreStep s action s'
  | forked {i caller pid s'} (hforking : s.forking = some (i, caller))
      (hfree : s.core.pidFree pid = true) (hcore : s'.core = s.core.startManaged i pid) :
      CoreStep s (.fork (.child pid)) s'
  | oneshotStarted {i todo procs pos pid s'} (hmain : s.main = .oneshotStart i todo procs pos)
      (hfree : s.core.pidFree pid = true) (hcore : s'.core = s.core.startOneshot i pid) :
      CoreStep s (.main (.child pid)) s'
  | oneshotTimedOut {waiting i arrived fatal pos s'}
      (hmain : s.main = .results waiting ((i, none) :: arrived) fatal pos)
      (hcore : s'.core = s.core.serviceExited i 1) : CoreStep s (.main .go) s'
  | oneshotExited {waiting i status arrived fatal code pos s'}
      (hmain : s.main = .results waiting ((i, some status) :: arrived) fatal pos)
      (hcore : s'.core = (s.core.markExited i).serviceExited i code) :
      CoreStep s (.main .go) s'
  | exited {pid status times i s'} (hmain : s.main = .reaped pid status)
      (hunlocked : s.unlocked = true) (hmap : s.core.pidMap.lookup pid = some i)
      (hcore : s'.core = (s.core.handleExit s.shuttingDown i pid status times).1) :
      CoreStep s (.main (.times times)) s'
  | reloaded {choice origin cfg startOrder} (hlocking : s.reload = .locking origin cfg startOrder)
      (hunlocked : s.unlocked = true) (hshut : s.shuttingDown = false) :
      CoreStep s (.reload choice) (s.reloadSection origin cfg startOrder)
  | children {action children s'}
      (hleaders : ∀ pid i status, children.lookup pid = some ⟨some i, status⟩ →
        ∃ status', s.core.children.lookup pid = some ⟨some i, status'⟩)
      (hcore : s'.core = { s.core with children := children }) : CoreStep s action s'

theorem erase_leaders {children : GoMap Pid Child}
    (hchild : (children.erase erased).lookup pid = some ⟨some i, status⟩) :
    pid ≠ erased ∧ children.lookup pid = some ⟨some i, status⟩ := by
  rw [GoMap.lookup_erase] at hchild
  split_ifs at hchild with hne
  exact ⟨hne, hchild⟩

theorem MainEvent.core {s s' : State} (hevent : MainEvent s choice s') :
    CoreStep s (.main choice) s' := by
  cases hevent with
  | oneshotStarted hmain hfree => exact .oneshotStarted hmain hfree rfl
  | oneshotCollected hmain hproc hchild =>
    exact .children (fun _ _ status h => ⟨status, (erase_leaders h).2⟩) rfl
  | oneshotTimedOut hmain => exact .oneshotTimedOut hmain rfl
  | oneshotExited hmain hfatal => exact .oneshotExited hmain rfl
  | reaped hmain hchild =>
    exact .children (fun _ _ status h => ⟨status, (erase_leaders h).2⟩) rfl
  | @exited pid status times hmain hunlocked =>
    cases hmap : s.core.pidMap.lookup pid with
    | none =>
      refine .quiet ?_
      simp only [State.stepReaped, hmap]
      exact .refl _
    | some i =>
      refine .exited hmain hunlocked hmap ?_
      simp only [State.stepReaped, hmap]

theorem step_core (hstep : s.step action = some s') : CoreStep s action s' := by
  obtain ⟨-, hstepped⟩ := step_cases hstep
  cases hstepped with
  | run hmem htask => exact .quiet (stepTask_frame htask).core
  | giveUp => exact .quiet (.refl _)
  | fork hfork =>
    obtain ⟨i, caller, hforking, ⟨pid, rfl, hfree, h⟩ | ⟨rfl, h⟩⟩ := stepFork_cases hfork
    · obtain ⟨_, _, _, _, rfl⟩ := h.eq
      exact .forked hforking hfree rfl
    · obtain ⟨_, _, _, _, rfl⟩ := h.eq
      exact .quiet (.refl _)
  | reload hreload =>
    rcases stepReload_cases hreload with
      ⟨⟨_, _, _, _, _, rfl⟩, -, -⟩ | ⟨origin, cfg, startOrder, hlocking, hunlocked, hshut, rfl⟩
    · exact .quiet (.refl _)
    · exact .reloaded hlocking hunlocked hshut
  | stopAll hstop => exact .quiet (stepStopAll_frame hstop).core
  | main hmain =>
    rcases stepMain_cases hmain with hframe | hevent
    · exact .quiet hframe.core
    · exact hevent.core
  | dispatch => exact .quiet (.refl _)
  | arrives => exact .quiet (.refl _)
  | child hevent => exact .children hevent.leaders rfl
  | forward | touch => exact .quiet (.refl _)

inductive ReloadStep (s : State) : Action → State → Prop
  | same {action s'} (h : s'.reload = s.reload) : ReloadStep s action s'
  | started {action origin rest s'} (hbefore : s.reload = .startWait origin rest)
      (hafter : s'.reload = .starting origin rest)
      (hreturn : (∃ t choice, action = .run t choice ∧ t.isReloadStart = true) ∨
        ∃ i caller choice, action = .fork choice ∧ s.forking = some (i, caller) ∧
          caller.isReload = true) : ReloadStep s action s'
  | begun {choice origin s'} (hidle : s.reload = .idle) (hqueued : .reloadQueued origin ∈ s.tasks)
      (hafter : s'.reload = .loading origin) : ReloadStep s (.run (.reloadQueued origin) choice) s'
  | moved {choice s'} (h : ReloadFrame s s') : ReloadStep s (.reload choice) s'
  | reloaded {choice origin cfg startOrder} (hlocking : s.reload = .locking origin cfg startOrder)
      (hunlocked : s.unlocked = true) (hshut : s.shuttingDown = false) :
      ReloadStep s (.reload choice) (s.reloadSection origin cfg startOrder)

inductive MainStep (s : State) : Action → State → Prop
  | same {action s'} (h : s'.main = s.main) : MainStep s action s'
  | aborted {action s'} (h : s'.main = .aborted)
      (hboot : (∃ t ∈ s.tasks, t.isBoot = true) ∨
        ∃ i caller, s.forking = some (i, caller) ∧ caller.isBoot = true) :
      MainStep s action s'
  | panicked {action s'} (h : s'.main = .panicked) (hclosed : s.restartClosed = true)
      (hsender : ∃ t ∈ s.tasks, t.isSender = true) :
      MainStep s action s'
  | moved {choice s'} (h : MainFrame s s') : MainStep s (.main choice) s'
  | event {choice s'} (h : MainEvent s choice s') : MainStep s (.main choice) s'

inductive StopStep (s : State) : Action → State → Prop
  | same {action s'} (hflag : s'.shuttingDown = s.shuttingDown) (hpc : s'.stopAll = s.stopAll)
      (hcaller : s'.stopCaller = s.stopCaller) (hclosed : s'.shutdownClosed = s.shutdownClosed)
      (hdone : s'.stopAllDone = s.stopAllDone) : StopStep s action s'
  | begun {code caller choice s'} (hmem : .shutdown code caller ∈ s.tasks)
      (hflag : s.shuttingDown = false) (hflag' : s'.shuttingDown = true)
      (hpc : s'.stopAll = .closing code) (hcaller : s'.stopCaller = some caller)
      (hclosed : s'.shutdownClosed = s.shutdownClosed)
      (hdone : s'.stopAllDone = s.stopAllDone) :
      StopStep s (.run (.shutdown code caller) choice) s'
  | event {choice s'} (h : StopEvent s s') : StopStep s (.stopAll choice) s'

inductive CodeStep (s : State) : Action → State → Prop
  | same {action s'} (h : s'.exitCode = s.exitCode) : CodeStep s action s'
  | prestored {choice code s'} (hmain : s.main = .prestore code)
      (h : s'.exitCode = if s.exitCode = 0 then toInt32 code else s.exitCode) :
      CodeStep s (.main choice) s'
  | stored {choice code s'} (hpc : s.stopAll = .storing code)
      (h : s'.exitCode = toInt32 code) : CodeStep s (.stopAll choice) s'

inductive ForkStep (s : State) : Action → State → Prop
  | same {action s'} (h : s'.forking = s.forking) : ForkStep s action s'
  | locked {i caller choice s'} (hmem : .start i .lock caller ∈ s.tasks) (hfree : s.forking = none)
      (hflag : s.shuttingDown = false) (hcurrent : s.core.isCurrent i = true)
      (hidle : s.core.isRunning i = false) (h : s'.forking = some (i, caller)) :
      ForkStep s (.run (.start i .lock caller) choice) s'
  | released {choice s'} (h : s'.forking = none) : ForkStep s (.fork choice) s'

structure StepFrame (s : State) (action : Action) (s' : State) : Prop where
  reload : ReloadStep s action s'
  main : MainStep s action s'
  stop : StopStep s action s'
  exitCode : CodeStep s action s'
  forking : ForkStep s action s'
  started : s'.started = s.started ∨ (s.main = .begin ∧ s'.main = .wait4 ∧ s'.started = true)
  restartClosed : s'.restartClosed = s.restartClosed ∨ s'.main = .closeTargets
  restartCh : s'.restartCh = s.restartCh ∨
    (∃ req, .sender req ∈ s.tasks ∧ s'.restartCh = s.restartCh ++ [req]) ∨
    ∃ req, s.restartCh = req :: s'.restartCh
  schedulers : s'.schedulers = s.schedulers ∨ s'.schedulers ⊆ s.core.scheduledInstances
  installed : s'.installed = s.installed ∨ ∃ choice origin cfg startOrder,
    action = .reload choice ∧ s.reload = .locking origin cfg startOrder ∧ s.unlocked = true ∧
      s.shuttingDown = false ∧ s' = s.reloadSection origin cfg startOrder
  files : s'.files = s.files ∨ ∃ path stat, action = .touch path stat

theorem TaskFrame.stepFrame (hmem : t ∈ s.tasks)
    (hframe : TaskFrame { s with tasks := s.tasks.erase t } t s') :
    StepFrame s (.run t choice) s' where
  reload := by
    rcases hframe.reload with
      hsame | ⟨hreload, origin, rest, hwait, hstart⟩ | ⟨hidle, origin, hloading, rfl⟩
    · exact .same hsame
    · exact .started hwait hstart (.inl ⟨t, choice, rfl, hreload⟩)
    · exact .begun hidle hmem hloading
  main := by
    rcases hframe.main with hsame | ⟨hboot, habort⟩ | ⟨hclosed, hsender, hpanic⟩
    · exact .same hsame
    · exact .aborted habort (.inl ⟨_, hmem, hboot⟩)
    · exact .panicked hpanic hclosed ⟨_, hmem, hsender⟩
  stop := by
    rcases hframe.shutdown with ⟨hflag, hpc, hcaller⟩ |
      ⟨hflag, hflag', code, caller, hpc, hcaller, rfl⟩
    · exact .same hflag hpc hcaller hframe.shutdownClosed hframe.stopAllDone
    · exact .begun hmem hflag hflag' hpc hcaller hframe.shutdownClosed hframe.stopAllDone
  exitCode := .same hframe.exitCode
  forking := by
    rcases hframe.forking with hsame | ⟨i, caller, hfree, hnew, hflag, hcurrent, hidle, rfl⟩
    · exact .same hsame
    · exact .locked hmem hfree hflag hcurrent hidle hnew
  started := .inl hframe.started
  restartClosed := .inl hframe.restartClosed
  restartCh := by
    rcases hframe.restartCh with hsame | ⟨req, rfl, hsent⟩
    · exact .inl hsame
    · exact .inr (.inl ⟨req, hmem, hsent⟩)
  schedulers := .inl hframe.schedulers
  installed := .inl hframe.installed
  files := .inl hframe.files

/-- A call of `startService` that has released the lock returns. -/
theorem Resumes.stepFrame {next : Task → Prop} (hforking : s.forking = some (i, caller))
    (h : Resumes caller.isBoot caller.isReload next s₁ s')
    (heq : ∃ core childStarted, s₁ = { s with forking := none, core := core, childStarted :=
      childStarted }) : StepFrame s (.fork choice) s' := by
  obtain ⟨core, childStarted, rfl⟩ := heq
  obtain ⟨⟨_, _, _, _, rfl⟩, -, hmain, hreload⟩ := h
  refine ⟨?_, ?_, .same rfl rfl rfl rfl rfl, .same rfl, .released rfl, .inl rfl, .inl rfl,
    .inl rfl, .inl rfl, .inl rfl, .inl rfl⟩
  · rcases hreload with hsame | ⟨hreload, origin, rest, hwait, hstart⟩
    · exact .same hsame
    · exact .started hwait hstart (.inr ⟨i, caller, choice, rfl, hforking, hreload⟩)
  · rcases hmain with hsame | ⟨hboot, habort⟩
    · exact .same hsame
    · exact .aborted habort (.inr ⟨i, caller, hforking, hboot⟩)

theorem stepReload_stepFrame (hstep : s.stepReload choice = some s') :
    StepFrame s (.reload choice) s' := by
  rcases stepReload_cases hstep with
    hframe | ⟨origin, cfg, startOrder, hlocking, hunlocked, hshut, rfl⟩
  · have hschedulers := hframe.schedulers
    have hreload : ReloadStep s (.reload choice) s' := .moved hframe
    obtain ⟨_, _, _, _, _, rfl⟩ := hframe.eq
    refine ⟨hreload, .same rfl, .same rfl rfl rfl rfl rfl, .same rfl, .same rfl, .inl rfl,
      .inl rfl, .inl rfl, ?_, .inl rfl, .inl rfl⟩
    rcases hschedulers with hsame | hnew
    · exact .inl hsame
    · exact .inr (by rw [hnew]; exact List.Subset.refl _)
  · have hreload : ReloadStep s (.reload choice) (s.reloadSection origin cfg startOrder) :=
      .reloaded hlocking hunlocked hshut
    have hinstalled : ∃ choice' origin' cfg' startOrder', Action.reload choice = .reload choice' ∧
        s.reload = .locking origin' cfg' startOrder' ∧ s.unlocked = true ∧
        s.shuttingDown = false ∧
        s.reloadSection origin cfg startOrder = s.reloadSection origin' cfg' startOrder' :=
      ⟨choice, origin, cfg, startOrder, rfl, hlocking, hunlocked, hshut, rfl⟩
    obtain ⟨_, _, _, _, _, heq⟩ := reloadSection_eq s origin cfg startOrder
    rw [heq] at hreload hinstalled ⊢
    exact ⟨hreload, .same rfl, .same rfl rfl rfl rfl rfl, .same rfl, .same rfl, .inl rfl,
      .inl rfl, .inl rfl, .inr (List.nil_subset _), .inr hinstalled, .inl rfl⟩

theorem StopEvent.stepFrame (h : StopEvent s s') : StepFrame s (.stopAll choice) s' := by
  have hframe := h.frame
  refine ⟨.same hframe.reload, .same hframe.main, .event h, ?_, .same hframe.forking,
    .inl hframe.started, .inl hframe.restartClosed, .inl hframe.restartCh,
    .inl hframe.schedulers, .inl hframe.installed, .inl hframe.files⟩
  cases h with
  | store hpc => exact .stored hpc rfl
  | _ => exact .same rfl

theorem stepMain_stepFrame (hstep : s.stepMain choice = some s') :
    StepFrame s (.main choice) s' := by
  rcases stepMain_cases hstep with hframe | hevent
  · have hcode : CodeStep s (.main choice) s' := by
      rcases hframe.exitCode with hsame | ⟨code, hprestore, hcode⟩
      · exact .same hsame
      · exact .prestored hprestore hcode
    have hmain : MainStep s (.main choice) s' := .moved hframe
    obtain ⟨-, -, ⟨_, _, _, _, _, _, _, _, _, _, rfl⟩, -, -, hstarted, -, hclosed, hschedulers⟩ :=
      hframe
    exact ⟨.same rfl, hmain, .same rfl rfl rfl rfl rfl, hcode, .same rfl, hstarted, hclosed,
      .inl rfl, hschedulers, .inl rfl, .inl rfl⟩
  · have hmain : MainStep s (.main choice) s' := .event hevent
    obtain ⟨_, _, rfl⟩ := hevent.eq
    exact ⟨.same rfl, hmain, .same rfl rfl rfl rfl rfl, .same rfl, .same rfl, .inl rfl, .inl rfl,
      .inl rfl, .inl rfl, .inl rfl, .inl rfl⟩

theorem step_frame (hstep : s.step action = some s') : StepFrame s action s' := by
  obtain ⟨-, hstepped⟩ := step_cases hstep
  cases hstepped with
  | run hmem htask => exact (stepTask_frame htask).stepFrame hmem
  | fork hfork =>
    obtain ⟨i, caller, hforking, ⟨pid, rfl, -, h⟩ | ⟨rfl, h⟩⟩ := stepFork_cases hfork
    · exact h.stepFrame hforking ⟨_, _, rfl⟩
    · exact h.stepFrame hforking ⟨_, _, rfl⟩
  | reload hreload => exact stepReload_stepFrame hreload
  | stopAll hstop => exact (stepStopAll_cases hstop).stepFrame
  | main hmain => exact stepMain_stepFrame hmain
  | dispatch hqueue =>
    exact ⟨.same rfl, .same rfl, .same rfl rfl rfl rfl rfl, .same rfl, .same rfl, .inl rfl,
      .inl rfl, .inr (.inr ⟨_, hqueue⟩), .inl rfl, .inl rfl, .inl rfl⟩
  | @touch path stat =>
    exact ⟨.same rfl, .same rfl, .same rfl rfl rfl rfl rfl, .same rfl, .same rfl, .inl rfl,
      .inl rfl, .inl rfl, .inl rfl, .inl rfl, .inr ⟨path, stat, rfl⟩⟩
  | _ =>
    exact ⟨.same rfl, .same rfl, .same rfl rfl rfl rfl rfl, .same rfl, .same rfl, .inl rfl,
      .inl rfl, .inl rfl, .inl rfl, .inl rfl, .inl rfl⟩

section

variable {s s' : State} {action : Action} (hstep : s.step action = some s')

include hstep

theorem step_reload : ReloadStep s action s' :=
  (step_frame hstep).reload

theorem step_main : MainStep s action s' :=
  (step_frame hstep).main

theorem step_stop : StopStep s action s' :=
  (step_frame hstep).stop

theorem step_exitCode : CodeStep s action s' :=
  (step_frame hstep).exitCode

theorem step_forking : ForkStep s action s' :=
  (step_frame hstep).forking

/-- Only a reload replaces the configuration. -/
theorem step_installed : s'.installed = s.installed ∨ ∃ choice origin cfg startOrder,
    action = .reload choice ∧ s.reload = .locking origin cfg startOrder ∧ s.unlocked = true ∧
      s.shuttingDown = false ∧ s' = s.reloadSection origin cfg startOrder :=
  (step_frame hstep).installed

end

/-- The reap loop handles the exit of a child it has waited for. -/
theorem step_reaped {s s' : State} (hmain : s.main = .reaped pid status)
    (hstep : s.step (.main choice) = some s') :
    ∃ times, choice = .times times ∧ s.unlocked = true ∧ s' = s.stepReaped pid status times := by
  rcases stepMain_cases (step_mainLoop hstep) with hframe | hevent
  · have hmove := hframe.move
    rw [hmain] at hmove
    generalize s'.main = after at hmove
    cases hmove
  · cases hevent with
    | exited hreaped hunlocked =>
      cases hmain.symm.trans hreaped
      exact ⟨_, rfl, hunlocked, rfl⟩
    | oneshotStarted h | oneshotCollected h | oneshotTimedOut h | oneshotExited h | reaped h =>
      cases hmain.symm.trans h

end Gopherd.Daemon
