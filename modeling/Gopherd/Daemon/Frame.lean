import Gopherd.Daemon.Quiet
import Gopherd.Daemon.Tasks

/-!
What the steps of the goroutines leave alone.
-/

namespace Gopherd.Daemon

open Go

structure Resumes (boot reloads : Bool) (next : Task → Prop) (s s' : State) : Prop where
  eq : ∃ tasks replies main reload,
    s' = { s with tasks := tasks, replies := replies, main := main, reload := reload }
  tasks : Adds s s' next
  main : s'.main = s.main ∨ (boot = true ∧ s'.main = .aborted)
  reload : s'.reload = s.reload ∨ (reloads = true ∧
    ∃ origin rest, s.reload = .startWait origin rest ∧ s'.reload = .starting origin rest)

namespace Resumes

variable {s s' : State} {boot reloads : Bool} {next next' : Task → Prop}

theorem refl (s : State) : Resumes boot reloads next s s :=
  ⟨⟨s.tasks, s.replies, s.main, s.reload, rfl⟩, .none rfl, .inl rfl, .inl rfl⟩

theorem spawn (hnext : next t) : Resumes boot reloads next s (s.spawn t) :=
  ⟨⟨_, _, _, _, rfl⟩, .spawn hnext, .inl rfl, .inl rfl⟩

theorem answer (s : State) (reply : Reply) : Resumes boot reloads next s (s.answer reply) :=
  ⟨⟨_, _, _, _, rfl⟩, .none rfl, .inl rfl, .inl rfl⟩

theorem abort (s : State) : Resumes true reloads next s { s with main := .aborted } :=
  ⟨⟨_, _, _, _, rfl⟩, .none rfl, .inr ⟨rfl, rfl⟩, .inl rfl⟩

theorem imp (h : Resumes boot reloads next s s') (himp : ∀ t, next t → next' t) :
    Resumes boot reloads next' s s' :=
  ⟨h.eq, h.tasks.imp himp, h.main, h.reload⟩

theorem gateDone (s : State) (i : InstId) (caller : GateCaller) (result : StartResult) :
    Resumes caller.isBoot reloads (GateNext i caller result) s (s.gateDone i caller result) := by
  cases caller with
  | boot => cases result <;> first | exact refl s | exact abort s
  | control observed => cases observed <;> first | exact refl s | exact answer s _
  | restartRoot r =>
    cases result <;> simp only [State.gateDone, startDeps_eq]
    · exact spawn (.root rfl)
    · exact spawn (.root rfl)
    · exact spawn .rootSkipped
    · exact spawn .rootLate
    · exact spawn (.root rfl)
    · exact spawn .rootFailed
  | restartDep r rest =>
    cases result <;> simp only [State.gateDone, startDeps_eq]
    · exact spawn (.dep rfl)
    · exact spawn (.dep rfl)
    · exact spawn .depSkipped
    · exact spawn .depLate
    · exact spawn (.dep rfl)
    · exact spawn .depFailed

theorem startDone (s : State) (i : InstId) (caller : StartCaller) (result : StartResult) :
    Resumes caller.isBoot caller.isReload (StartNext i caller result) s
      (s.startDone i caller result) := by
  cases caller with
  | control => exact answer s _
  | gate caller =>
    have hgate : Resumes (StartCaller.gate caller).isBoot (StartCaller.gate caller).isReload
        (StartNext i (.gate caller) result) s
        (s.gateDone i caller result) := (gateDone s i caller result).imp fun _ h => .gate h
    unfold State.startDone
    cases result <;> simp only <;> first
      | exact hgate
      | (split
         · exact spawn (.notify rfl)
         · exact hgate)
  | request => cases result <;> first | exact spawn .request | exact spawn .requestFailed
  | reload =>
    cases hreload : s.reload with
    | startWait origin rest =>
      simp only [State.startDone, hreload]
      exact ⟨⟨s.tasks, s.replies, s.main, .starting origin rest, rfl⟩, .none rfl, .inl rfl,
        .inr ⟨rfl, origin, rest, hreload, rfl⟩⟩
    | _ =>
      simp only [State.startDone, hreload]
      exact refl s
  | tick =>
    cases result with
    | started pid =>
      simp only [State.startDone, State.armTimeout]
      split
      · split
        · exact spawn .armed
        · exact refl s
      · exact refl s
    | _ => exact refl s

theorem shutdownDone (boot reloads : Bool) (s : State) (caller : ShutdownCaller) :
    Resumes boot reloads (ShutdownNext caller) s (s.shutdownDone caller) := by
  cases caller with
  | request => exact spawn .request
  | restart r => exact spawn .restart
  | _ => exact refl s

end Resumes

structure TaskFrame (s : State) (t : Task) (s' : State) : Prop where
  core : Quiet s.core s'.core
  forking : s'.forking = s.forking ∨
    ∃ i caller, s.forking = none ∧ s'.forking = some (i, caller) ∧
      s.shuttingDown = false ∧ s.core.isCurrent i = true ∧ s.core.isRunning i = false ∧
      t = .start i .lock caller
  reload : s'.reload = s.reload ∨
    (t.isReloadStart = true ∧ ∃ origin rest, s.reload = .startWait origin rest ∧
      s'.reload = .starting origin rest) ∨
    (s.reload = .idle ∧ ∃ origin, s'.reload = .loading origin ∧ t = .reloadQueued origin)
  main : s'.main = s.main ∨ (t.isBoot = true ∧ s'.main = .aborted) ∨
    (s.restartClosed = true ∧ t.isSender = true ∧ s'.main = .panicked)
  shutdown : (s'.shuttingDown = s.shuttingDown ∧ s'.stopAll = s.stopAll ∧
      s'.stopCaller = s.stopCaller) ∨
    (s.shuttingDown = false ∧ s'.shuttingDown = true ∧
      ∃ code caller, s'.stopAll = .closing code ∧ s'.stopCaller = some caller ∧
        t = .shutdown code caller)
  started : s'.started = s.started
  shutdownClosed : s'.shutdownClosed = s.shutdownClosed
  stopAllDone : s'.stopAllDone = s.stopAllDone
  exitCode : s'.exitCode = s.exitCode
  restartClosed : s'.restartClosed = s.restartClosed
  schedulers : s'.schedulers = s.schedulers
  installed : s'.installed = s.installed
  files : s'.files = s.files
  restartCh : s'.restartCh = s.restartCh ∨ ∃ req, t = .sender req ∧
    s'.restartCh = s.restartCh ++ [req]
  tasks : Adds s s' (Follows s t) ∨
    (s.shuttingDown = false ∧ ∃ new, s'.tasks = new ++ s.tasks ∧ ∀ t' ∈ new, Follows s t t')

namespace TaskFrame

variable {s s' : State} {t : Task}

theorem of_quiet {core : Core} (hcore : Quiet s.core core)
    (hresumes : Resumes t.isBoot t.isReloadStart (Follows s t) (s.setCore core) s') :
    TaskFrame s t s' := by
  obtain ⟨⟨tasks, replies, main, reload, rfl⟩, htasks, hmain, hreload⟩ := hresumes
  refine ⟨hcore, .inl rfl, ?_, ?_, .inl ⟨rfl, rfl, rfl⟩, rfl, rfl, rfl, rfl, rfl, rfl, rfl, rfl,
    .inl rfl, .inl htasks⟩
  · rcases hreload with hsame | hstart
    · exact .inl hsame
    · exact .inr (.inl hstart)
  · rcases hmain with hsame | habort
    · exact .inl hsame
    · exact .inr (.inl habort)

theorem of_resumes (hresumes : Resumes t.isBoot t.isReloadStart (Follows s t) s s') :
    TaskFrame s t s' :=
  of_quiet (Quiet.refl s.core) hresumes

theorem spawn (hfollows : Follows s t t') : TaskFrame s t (s.spawn t') :=
  of_resumes (.spawn hfollows)

theorem answer (s : State) (t : Task) (reply : Reply) : TaskFrame s t (s.answer reply) :=
  of_resumes (.answer s reply)

/-- A step that also counts the pending restarts. -/
theorem of_core_eq {core : Core} {tasks : List Task} (hcore : Quiet s.core core)
    (htasks : Adds s { s with tasks := tasks } (Follows s t)) :
    TaskFrame s t { s with core, tasks, replies, pendingRestarts } :=
  ⟨hcore, .inl rfl, .inl rfl, .inl rfl, .inl ⟨rfl, rfl, rfl⟩, rfl, rfl, rfl, rfl, rfl, rfl, rfl,
    rfl, .inl rfl, .inl htasks⟩

end TaskFrame

theorem stepStart_frame {s s' : State} (hstep : s.stepStart i caller choice pc = some s') :
    TaskFrame s (.start i pc caller) s' := by
  cases pc with
  | condition =>
    simp only [State.stepStart] at hstep
    split at hstep <;> cases hstep
    · next hunmet =>
        exact .of_quiet (.serviceSkipped s.core i _)
          ((Resumes.startDone _ i caller _).imp fun _ h => .startSkipped h (by simp [hunmet]))
    · next hmet => exact .spawn (.startCondition hmet)
  | prepare =>
    simp only [State.stepStart] at hstep
    split at hstep <;> cases hstep
    · exact .spawn .startPrepare
    · exact .of_resumes ((Resumes.startDone s i caller _).imp fun _ h => .startFailed h)
  | lock =>
    simp only [State.stepStart] at hstep
    split_ifs at hstep with hunlocked hshut hcurrent hrunning <;> cases hstep
    · exact .of_resumes ((Resumes.startDone s i caller _).imp fun _ h => .startLate hshut h)
    · exact .of_resumes ((Resumes.startDone s i caller _).imp fun _ h =>
        .startReplaced (by simpa using hcurrent) h)
    · exact .of_resumes ((Resumes.startDone s i caller _).imp fun _ h =>
        .startRunning hrunning h)
    · refine ⟨Quiet.refl _, .inr ⟨i, caller, ?_, rfl, ?_, ?_, ?_, rfl⟩, .inl rfl, .inl rfl,
        .inl ⟨rfl, rfl, rfl⟩, rfl, rfl, rfl, rfl, rfl, rfl, rfl, rfl, .inl rfl, .inl (.none rfl)⟩
      · simpa [State.unlocked] using hunlocked
      · simpa using hshut
      · simpa using hcurrent
      · simpa using hrunning

/-- A call of `startService` returns, goes on, or takes the lock. -/
theorem stepStart_cases {s s' : State} (hstep : s.stepStart i caller choice pc = some s') :
    (∃ core result, core.restartPending = s.core.restartPending ∧
      s' = (s.setCore core).startDone i caller result) ∨
    (∃ next, s' = s.spawn (.start i next caller)) ∨
    s.forking = none ∧ s' = { s with forking := some (i, caller) } := by
  cases pc with
  | condition =>
    simp only [State.stepStart] at hstep
    split at hstep <;> cases hstep
    · exact .inl ⟨s.core.serviceSkipped i _, _, rfl, rfl⟩
    · exact .inr (.inl ⟨_, rfl⟩)
  | prepare =>
    simp only [State.stepStart] at hstep
    split at hstep <;> cases hstep
    · exact .inr (.inl ⟨_, rfl⟩)
    · exact .inl ⟨s.core, _, rfl, rfl⟩
  | lock =>
    simp only [State.stepStart] at hstep
    split_ifs at hstep with hunlocked <;> cases hstep
    · exact .inl ⟨s.core, _, rfl, rfl⟩
    · exact .inl ⟨s.core, _, rfl, rfl⟩
    · exact .inl ⟨s.core, _, rfl, rfl⟩
    · exact .inr (.inr ⟨by simpa [State.unlocked] using hunlocked, rfl⟩)

/-- A failing check only stops services and creates goroutines: a sender for
each service it restarts, and perhaps a shutdown. -/
theorem checkLoop_eq (check : String) (names : List String) (hshut : s₀.shuttingDown = false)
    (hquiet : Quiet s₀.core s.core) :
    ∃ core new pendingRestarts,
      State.checkLoop check names s =
        { s with core, tasks := new ++ s.tasks, pendingRestarts } ∧
      Quiet s₀.core core ∧ ∀ t ∈ new, Follows s₀ (.checkFailure check) t := by
  induction names generalizing s with
  | nil => exact ⟨s.core, [], s.pendingRestarts, rfl, hquiet, by simp⟩
  | cons name rest ih =>
    unfold State.checkLoop
    split
    · exact ih hquiet
    · next i hlookup =>
        rw [hquiet.services] at hlookup
        rw [hquiet.onCheckFailure, hquiet.done]
        split
        · next haction =>
            obtain ⟨core, new, pendingRestarts, heq, hcore, hnew⟩ := ih
              (s := (s.setCore (s.core.stopForRestart i)).enqueueRestart
                ⟨i, s₀.core.done i, 0⟩) (hquiet.trans (.stopForRestart s.core i))
            refine ⟨core, new ++ [.sender ⟨i, s₀.core.done i, 0⟩], pendingRestarts, ?_, hcore,
              ?_⟩
            · rw [heq, List.append_assoc]
              rfl
            · intro t ht
              rcases List.mem_append.mp ht with ht | ht
              · exact hnew t ht
              · rw [List.mem_singleton.mp ht]
                exact .checkRestart hshut hlookup haction
        · exact ⟨s.core, [.shutdown 1 .check], s.pendingRestarts, rfl, hquiet,
            by simpa using .checkShutdown hshut⟩
        · exact ⟨s.core, [.shutdown 1 .check], s.pendingRestarts, rfl, hquiet,
            by simpa using .checkShutdown hshut⟩
        · exact ⟨s.core, [.shutdown 0 .check], s.pendingRestarts, rfl, hquiet,
            by simpa using .checkShutdown hshut⟩
        · exact ih hquiet
        · exact ih hquiet

theorem restartFn_frame (s : State) (name : String) (wait : Bool) :
    TaskFrame s (.restartFn name wait) (s.restartFn name wait) := by
  unfold State.restartFn
  split
  · exact .answer s _ _
  · next i hlookup =>
      split_ifs with hshut hordered
      · exact .answer s _ _
      · have hnext : Adds s (s.restartOrdered i (s.restartDeps i name) wait)
            (Follows s (.restartFn name wait)) := by
          have hshut : s.shuttingDown = false := by simpa using hshut
          cases wait <;> exact .inr ⟨_, rfl, .restartOrdered hlookup hshut⟩
        cases wait <;> exact .of_resumes ⟨⟨_, _, _, _, rfl⟩, hnext, .inl rfl, .inl rfl⟩
      · exact .of_core_eq (.stopForRestart s.core i)
          (.inr ⟨_, rfl, .restartPlain hlookup (by simpa using hshut)⟩)

theorem readyGate_eq_none (h : readyGate checks p = .ok none) : p.readyCheck = "" := by
  unfold readyGate at h
  split_ifs at h with hnone
  · exact hnone
  · obtain ⟨_, -, h⟩ := Except.bind_eq_ok.mp h
    obtain ⟨_, -, h⟩ := Except.bind_eq_ok.mp h
    cases h

/-- A gate is passed, because there is no check or because it passes, or the
start has failed. -/
theorem stepGate_cases {s s' : State} (hstep : s.stepTask (.gate i caller) choice = some s') :
    (s' = s.spawn (.start i .condition (.gate caller)) ∧
      ((s.core.heap i).proc.readyCheck = "" ∨ choice = .go)) ∨
    s' = s.gateDone i caller .failed := by
  simp only [State.stepTask] at hstep
  split at hstep
  · exact .inr (Option.some.inj hstep).symm
  · next hnone => exact .inl ⟨(Option.some.inj hstep).symm, .inl (readyGate_eq_none hnone)⟩
  · split at hstep <;> cases hstep
    · exact .inl ⟨rfl, .inr rfl⟩
    · exact .inr rfl

theorem stepTask_frame {s s' : State} (hstep : s.stepTask t choice = some s') :
    TaskFrame s t s' := by
  cases t with
  | startFn name wait =>
    simp only [State.stepTask] at hstep
    split_ifs at hstep
    split at hstep <;> cases hstep
    · exact .answer s _ _
    · next hlookup => exact .spawn (.startFn hlookup)
  | startFnFound i wait checks =>
    simp only [State.stepTask] at hstep
    split_ifs at hstep with hrunning hwait <;> cases hstep
    · exact .answer s _ _
    · rw [hwait]
      exact .spawn .startGated
    · rw [Bool.eq_false_iff.mpr hwait]
      exact .spawn .startPlain
  | stopFn name wait =>
    simp only [State.stepTask] at hstep
    split_ifs at hstep
    split at hstep <;> cases hstep
    · exact .answer s _ _
    · next hlookup => exact .spawn (.stopFn hlookup)
  | stopFnFound i wait =>
    simp only [State.stepTask] at hstep
    split_ifs at hstep with hrunning <;> cases hstep
    · exact .spawn (.stopFnFound hrunning)
    · exact .answer s _ _
  | stopFnRunning i wait =>
    cases hstep
    exact .spawn .stopFnRunning
  | stopFnSignal i done wait =>
    simp only [State.stepTask] at hstep
    cases wait <;> cases hstep
    · exact .of_core_eq (.stop s.core i) (.none rfl)
    · exact .of_core_eq (.stop s.core i) (.inr ⟨_, rfl, .stopFnSignal⟩)
  | stopFnWait i done =>
    simp only [State.stepTask] at hstep
    split at hstep
    · split_ifs at hstep
      cases hstep
      exact .answer s _ _
    · cases hstep
      exact .answer s _ _
    · cases hstep
  | restartFn name wait =>
    simp only [State.stepTask] at hstep
    split_ifs at hstep
    cases hstep
    exact restartFn_frame s name wait
  | reloadFn origin =>
    simp only [State.stepTask] at hstep
    split_ifs at hstep with hstarted <;> cases hstep
    · exact .spawn (.reloadFn hstarted)
    · exact .answer s _ _
    · exact .of_resumes (.refl s)
  | reloadQueued origin =>
    simp only [State.stepTask] at hstep
    split_ifs at hstep with hidle
    cases hstep
    exact ⟨Quiet.refl _, .inl rfl, .inr (.inr ⟨hidle, origin, rfl, rfl⟩), .inl rfl,
      .inl ⟨rfl, rfl, rfl⟩, rfl, rfl, rfl, rfl, rfl, rfl, rfl, rfl, .inl rfl, .inl (.none rfl)⟩
  | gate i caller =>
    rcases stepGate_cases hstep with ⟨rfl, -⟩ | rfl
    · exact .spawn .gate
    · exact .of_resumes ((Resumes.gateDone s i caller _).imp fun _ h => .gateFailed h)
  | start i pc caller => exact stepStart_frame hstep
  | notify i caller result =>
    simp only [State.stepTask] at hstep
    split at hstep <;> cases hstep
    · exact .of_resumes ((Resumes.gateDone s i caller _).imp fun _ h => .notify h)
    · exact .of_resumes ((Resumes.gateDone s i caller _).imp fun _ h => .notifyFailed h)
  | restartRun svc deps observed =>
    simp only [State.stepTask] at hstep
    split_ifs at hstep
    cases hstep
    refine .spawn (.restartRun ?_)
    cases deps.reverse <;> rfl
  | restartStop r leg rest =>
    simp only [State.stepTask] at hstep
    split_ifs at hstep with hunlocked hshut <;> cases hstep
    · exact .spawn (.restartLate hshut)
    · exact .of_core_eq (.stopForRestart s.core leg)
        (.inr ⟨_, rfl, .restartStop (by simpa using hshut)⟩)
  | restartWait r rest done =>
    simp only [State.stepTask] at hstep
    split at hstep
    · split_ifs at hstep with hclosed
      split at hstep <;> cases hstep
      · exact .spawn (.restartNext hclosed)
      · exact .spawn (.restartRoot hclosed)
    · split_ifs at hstep with hgone
      cases hstep
      exact .spawn (.restartGone hgone)
    · cases hstep
  | restartReturn r result =>
    simp only [State.stepTask] at hstep
    cases hstep
    split_ifs
    · exact .of_core_eq (Quiet.refl _) (.none rfl)
    · exact .of_core_eq (Quiet.refl _) (.none rfl)
  | sender req =>
    simp only [State.stepTask] at hstep
    split_ifs at hstep <;> cases hstep
    · next hclosed =>
        exact ⟨Quiet.refl _, .inl rfl, .inl rfl, .inr (.inr ⟨hclosed, rfl, rfl⟩),
          .inl ⟨rfl, rfl, rfl⟩, rfl, rfl, rfl, rfl, rfl, rfl, rfl, rfl, .inl rfl, .inl (.none rfl)⟩
    · exact ⟨Quiet.refl _, .inl rfl, .inl rfl, .inl rfl, .inl ⟨rfl, rfl, rfl⟩, rfl, rfl, rfl,
        rfl, rfl, rfl, rfl, rfl, .inr ⟨req, rfl, rfl⟩, .inl (.none rfl)⟩
  | handler req =>
    simp only [State.stepTask] at hstep
    split_ifs at hstep <;> cases hstep
    · exact .spawn .handlerUp
    · exact .spawn .handlerDelay
    · exact .spawn .handlerStart
  | handlerSleep req =>
    cases hstep
    exact .spawn .handlerSleep
  | handlerEnd =>
    cases hstep
    exact .of_core_eq (Quiet.refl _) (.none rfl)
  | checkFailure check =>
    simp only [State.stepTask] at hstep
    split at hstep
    · split_ifs at hstep with hunlocked hshut hperm <;> cases hstep
      · exact .of_resumes (.refl s)
      · next names =>
          have hshut : s.shuttingDown = false := by simpa using hshut
          obtain ⟨core, new, pendingRestarts, heq, hquiet, hnew⟩ :=
            checkLoop_eq check names hshut (.refl s.core)
          rw [heq]
          exact ⟨hquiet, .inl rfl, .inl rfl, .inl rfl, .inl ⟨rfl, rfl, rfl⟩, rfl, rfl, rfl, rfl,
            rfl, rfl, rfl, rfl, .inl rfl, .inr ⟨hshut, new, rfl, hnew⟩⟩
    · cases hstep
  | shutdown code caller =>
    simp only [State.stepTask] at hstep
    split_ifs at hstep with hshut <;> cases hstep
    · exact .of_resumes ((Resumes.shutdownDone _ _ s caller).imp fun _ h => .shutdown h hshut)
    · exact ⟨Quiet.refl _, .inl rfl, .inl rfl, .inl rfl,
        .inr ⟨by simpa using hshut, rfl, code, caller, rfl, rfl, rfl⟩, rfl, rfl, rfl, rfl,
        rfl, rfl, rfl, rfl, .inl rfl, .inl (.none rfl)⟩
  | tick i =>
    simp only [State.stepTask] at hstep
    split_ifs at hstep <;> cases hstep
    · exact .of_resumes (.refl s)
    · exact .spawn .tick
  | timer i pid =>
    simp only [State.stepTask] at hstep
    split_ifs at hstep <;> cases hstep
    · exact .spawn .timer
    · exact .of_resumes (.refl s)
  | timerStop i =>
    cases hstep
    exact .of_core_eq (.stop s.core i) (.none rfl)

/-- What a call of `startService` that holds the lock does next. -/
theorem stepFork_cases {s s' : State} (hstep : s.stepFork choice = some s') :
    ∃ i caller, s.forking = some (i, caller) ∧
      ((∃ pid, choice = .child pid ∧ s.core.pidFree pid = true ∧
          Resumes caller.isBoot caller.isReload (StartNext i caller (.started pid))
            { s with
              forking := none, core := s.core.startManaged i pid, childStarted := true } s') ∨
        (choice = .fail ∧ Resumes caller.isBoot caller.isReload (StartNext i caller .failed)
          { s with forking := none } s')) := by
  unfold State.stepFork at hstep
  split at hstep
  · cases hstep
  · next i caller hforking =>
      refine ⟨i, caller, hforking, ?_⟩
      simp only at hstep
      split at hstep
      · next pid =>
          split_ifs at hstep with hfree
          cases hstep
          exact .inl ⟨pid, rfl, hfree, .startDone _ i caller _⟩
      · cases hstep
        exact .inr ⟨rfl, .startDone _ i caller _⟩
      · cases hstep

def StopPc.waits : StopPc → List (Option Chan)
  | .orderedWait _ _ done | .othersWait _ _ done => [done]
  | .allWait dones => dones
  | _ => []

def StopPc.isWaiting : StopPc → Bool
  | .orderedWait .. | .othersWait .. | .allWait _ => true
  | _ => false

inductive StopEvent (s : State) : State → Prop
  | close {code} (h : s.stopAll = .closing code) :
      StopEvent s { s with shutdownClosed := true, stopAll := .storing code }
  | store {code} (h : s.stopAll = .storing code) :
      StopEvent s { s with exitCode := toInt32 code, stopAll := .locking }
  | stop {core stopAll} (hbefore : s.stopAll = .locking ∨ s.stopAll.isWaiting = true)
      (hcore : Quiet s.core core)
      (hafter : stopAll = .finishing ∨ (stopAll.isWaiting = true ∧ stopAll.waits ≠ []))
      (hwaits : ∀ done ∈ stopAll.waits, ∃ i, s.core.isRunning i = true ∧ s.core.done i = done)
      (hpending : core.restartPending = s.core.restartPending) :
      StopEvent s { s with core := core, stopAll := stopAll }
  | finish {tasks} (h : s.stopAll = .finishing)
      (htasks : Adds s { s with tasks := tasks } fun t =>
        ∃ caller, s.stopCaller = some caller ∧ ShutdownNext caller t) :
      StopEvent s { s with stopAllDone := true, stopAll := .finished, tasks := tasks }

theorem nextRunning_running (h : State.nextRunning c names = some (name, i, rest)) :
    c.isRunning i = true := by
  induction names with
  | nil => cases h
  | cons head tail ih =>
    unfold State.nextRunning at h
    split at h
    · split_ifs at h with hrunning
      · cases h
        exact hrunning
      · exact ih h
    · exact ih h

namespace StopEvent

variable {s : State} (hbefore : s.stopAll = .locking ∨ s.stopAll.isWaiting = true)

include hbefore

theorem stopOthers (names stopped : List String) :
    StopEvent s (s.stopOthers names stopped) := by
  unfold State.stopOthers
  split
  · next i _ hnext =>
      exact .stop hbefore (.stop s.core _) (.inr ⟨rfl, by simp [StopPc.waits]⟩) (fun done hdone =>
        ⟨i, nextRunning_running hnext, (List.mem_singleton.mp hdone).symm⟩) rfl
  · exact .stop hbefore (.refl _) (.inl rfl) (by simp [StopPc.waits]) rfl

theorem stopOrdered (seq stopped names : List String) :
    StopEvent s (s.stopOrdered seq stopped names) := by
  unfold State.stopOrdered
  split
  · next i _ hnext =>
      exact .stop hbefore (.stop s.core _) (.inr ⟨rfl, by simp [StopPc.waits]⟩) (fun done hdone =>
        ⟨i, nextRunning_running hnext, (List.mem_singleton.mp hdone).symm⟩) rfl
  · exact stopOthers hbefore names stopped

theorem stopServices (names : List String) : StopEvent s (s.stopServices names) := by
  unfold State.stopServices
  split
  · exact stopOrdered hbefore _ _ names
  · exact stopOrdered hbefore _ _ names
  · exact stopOrdered hbefore _ _ names
  · refine .stop hbefore (.foldl Core.stop .stop _ s.core) ?_ ?_
      (Core.foldl_keeps Core.restartPending
        (fun c i => (rfl : (c.stop i).restartPending = _)) _ s.core)
    · split
      · exact .inl rfl
      · next hsome => exact .inr ⟨rfl, by simpa [StopPc.waits] using hsome⟩
    · intro done hdone
      split at hdone
      · cases hdone
      · obtain ⟨i, hi, rfl⟩ := List.mem_map.mp hdone
        exact ⟨i, (List.mem_filter.mp hi).2, rfl⟩

end StopEvent

theorem stepStopAll_cases (hstep : s.stepStopAll choice = some s') : StopEvent s s' := by
  unfold State.stepStopAll at hstep
  split at hstep
  · cases hstep
  · cases hstep
  · next h =>
      cases hstep
      exact .close h
  · next h =>
      cases hstep
      exact .store h
  · next h =>
      split at hstep
      · split_ifs at hstep
        cases hstep
        exact .stopServices (.inl h) _
      · cases hstep
  · next h =>
      split at hstep
      · split_ifs at hstep
        cases hstep
        exact .stopOrdered (.inr (by rw [h]; rfl)) _ _ _
      · cases hstep
  · next h =>
      split_ifs at hstep
      cases hstep
      exact .stopOthers (.inr (by rw [h]; rfl)) _ _
  · next h =>
      split_ifs at hstep
      cases hstep
      exact .stop (.inr (by rw [h]; rfl)) (.refl _) (.inl rfl) (by simp [StopPc.waits]) rfl
  · next h =>
      simp only at hstep
      split at hstep <;> cases hstep
      · next caller hcaller =>
          have htasks : Adds s (s.shutdownDone caller) fun t =>
              ∃ caller, s.stopCaller = some caller ∧ ShutdownNext caller t :=
            (Resumes.shutdownDone false false s caller).tasks.imp
              fun t hnext => ⟨caller, hcaller, hnext⟩
          cases caller <;> exact .finish h htasks
      · exact .finish h (.none rfl)

structure StopFrame (s s' : State) : Prop where
  core : Quiet s.core s'.core
  pending : s'.core.restartPending = s.core.restartPending
  forking : s'.forking = s.forking
  reload : s'.reload = s.reload
  main : s'.main = s.main
  shuttingDown : s'.shuttingDown = s.shuttingDown
  started : s'.started = s.started
  restartCh : s'.restartCh = s.restartCh
  restartClosed : s'.restartClosed = s.restartClosed
  schedulers : s'.schedulers = s.schedulers
  installed : s'.installed = s.installed
  files : s'.files = s.files
  tasks : Adds s s' fun t =>
    s.stopAll = .finishing ∧ ∃ caller, s.stopCaller = some caller ∧ ShutdownNext caller t

theorem StopEvent.frame (h : StopEvent s s') : StopFrame s s' := by
  cases h with
  | close h | store h =>
    exact ⟨.refl _, rfl, rfl, rfl, rfl, rfl, rfl, rfl, rfl, rfl, rfl, rfl, .none rfl⟩
  | stop _ hcore _ _ hpending =>
    exact ⟨hcore, hpending, rfl, rfl, rfl, rfl, rfl, rfl, rfl, rfl, rfl, rfl, .none rfl⟩
  | finish h htasks =>
    exact ⟨.refl _, rfl, rfl, rfl, rfl, rfl, rfl, rfl, rfl, rfl, rfl, rfl,
      Adds.imp htasks fun _ hnext => ⟨h, hnext⟩⟩

theorem stepStopAll_frame (hstep : s.stepStopAll choice = some s') : StopFrame s s' :=
  (stepStopAll_cases hstep).frame

inductive ReloadMove (c : Core) : ReloadPc → ReloadPc → Prop
  | load {origin cfg startOrder parsed} (h : State.loadConfig parsed = some (cfg, startOrder)) :
      ReloadMove c (.loading origin) (.locking origin cfg startOrder)
  | refuse {origin} : ReloadMove c (.loading origin) .idle
  | late {origin cfg startOrder} : ReloadMove c (.locking origin cfg startOrder) .idle
  | awaited {origin dones toStart} (h : dones.all c.isClosed = true) :
      ReloadMove c (.waiting origin dones toStart) (.starting origin toStart)
  | start {origin i rest} : ReloadMove c (.starting origin (i :: rest)) (.startWait origin rest)
  | started {origin} : ReloadMove c (.starting origin []) (.finishing origin)
  | finish {origin} : ReloadMove c (.finishing origin) .idle

structure ReloadFrame (s s' : State) : Prop where
  eq : ∃ reload tasks replies checkers schedulers,
    s' = { s with
      reload := reload, tasks := tasks, replies := replies, checkers := checkers
      schedulers := schedulers }
  move : ReloadMove s.core s.reload s'.reload
  schedulers : s'.schedulers = s.schedulers ∨ s'.schedulers = s.core.scheduledInstances
  tasks : Adds s s' fun t => ∃ origin i rest,
    s.reload = .starting origin (i :: rest) ∧ t = .start i .condition .reload

theorem reloadReply_eq (s : State) (origin : ReloadOrigin) (reply : Reply) :
    ∃ replies, s.reloadReply origin reply = { s with replies := replies } := by
  cases origin <;> exact ⟨_, rfl⟩

theorem stepReload_cases (hstep : s.stepReload choice = some s') :
    ReloadFrame s s' ∨
      ∃ origin cfg startOrder, s.reload = .locking origin cfg startOrder ∧
        s.unlocked = true ∧ s.shuttingDown = false ∧
        s' = s.reloadSection origin cfg startOrder := by
  have hidle : ∀ origin reply, ReloadMove s.core s.reload .idle →
      ReloadFrame s ({ s with reload := .idle }.reloadReply origin reply) := by
    intro origin reply hmove
    obtain ⟨replies, heq⟩ := reloadReply_eq { s with reload := .idle } origin reply
    rw [heq]
    exact ⟨⟨_, _, _, _, _, rfl⟩, hmove, .inl rfl, .none rfl⟩
  cases hreload : s.reload with
  | idle => simp [State.stepReload, hreload] at hstep
  | startWait origin rest => simp [State.stepReload, hreload] at hstep
  | loading origin =>
    simp only [State.stepReload, hreload] at hstep
    left
    split at hstep
    · next parsed =>
        split at hstep <;> cases hstep
        · next cfg startOrder hload =>
            exact ⟨⟨_, _, _, _, _, rfl⟩, hreload ▸ .load hload, .inl rfl, .none rfl⟩
        · exact hidle _ _ (hreload ▸ .refuse)
    · cases hstep
      exact hidle _ _ (hreload ▸ .refuse)
    · cases hstep
  | locking origin cfg startOrder =>
    simp only [State.stepReload, hreload] at hstep
    split_ifs at hstep with hunlocked hshut
    · cases hstep
      exact .inl (hidle _ _ (hreload ▸ .late))
    · cases hstep
      exact .inr ⟨origin, cfg, startOrder, rfl, by simpa using hunlocked,
        by simpa using hshut, rfl⟩
  | waiting origin dones toStart =>
    simp only [State.stepReload, hreload] at hstep
    split_ifs at hstep with hclosed
    cases hstep
    exact .inl ⟨⟨_, _, _, _, _, rfl⟩, hreload ▸ .awaited hclosed, .inl rfl, .none rfl⟩
  | starting origin toStart =>
    simp only [State.stepReload, hreload] at hstep
    left
    split at hstep <;> cases hstep
    · exact ⟨⟨_, _, _, _, _, rfl⟩, hreload ▸ .started, .inl rfl, .none rfl⟩
    · exact ⟨⟨_, _, _, _, _, rfl⟩, hreload ▸ .start, .inl rfl,
        .inr ⟨_, rfl, _, _, _, hreload, rfl⟩⟩
  | finishing origin =>
    simp only [State.stepReload, hreload] at hstep
    split_ifs at hstep with hunlocked
    cases hstep
    obtain ⟨replies, heq⟩ := reloadReply_eq
      { s with
        checkers := s.cfg.checkers, schedulers := s.core.scheduledInstances, reload := .idle }
      origin .reloaded
    rw [heq]
    exact .inl ⟨⟨_, _, _, _, _, rfl⟩, hreload ▸ .finish, .inr rfl, .none rfl⟩

theorem reloadSection_eq (s : State) (origin : ReloadOrigin) (cfg : Config)
    (startOrder : List String) :
    ∃ core shutdownSeq shutdownMode reload replies,
      s.reloadSection origin cfg startOrder = { s with
        core := core, cfg := cfg, checkers := [], schedulers := []
        shutdownSeq := shutdownSeq, shutdownMode := shutdownMode, reload := reload
        replies := replies } := by
  unfold State.reloadSection
  split
  · cases origin <;> exact ⟨_, _, _, _, _, rfl⟩
  · exact ⟨_, _, _, _, _, rfl⟩

/-- A configuration that `reload` goes on with has passed each of its checks. -/
theorem loadConfig_passed (hload : State.loadConfig parsed = some (cfg, startOrder)) :
    parsed.load = .ok cfg ∧ cfg.entrypointUnique = true ∧
      Order.topoSort cfg.orderNodes = .ok startOrder ∧
      ∀ p ∈ cfg.processes, ∃ svc, Service.new p = .ok svc := by
  unfold State.loadConfig at hload
  cases hparsed : parsed.load with
  | error error => simp [hparsed] at hload
  | ok loaded =>
    cases hsort : Order.topoSort loaded.orderNodes with
    | error error => simp [hparsed, hsort] at hload
    | ok sorted =>
      simp only [hparsed, hsort] at hload
      split_ifs at hload with hunique hnew
      cases hload
      refine ⟨rfl, by simpa using hunique, hsort, ?_⟩
      intro p hp
      have hok := List.all_eq_true.mp hnew p hp
      cases hp : Service.new p with
      | error e => simp [hp, Except.isOk, Except.toBool] at hok
      | ok svc => exact ⟨svc, rfl⟩

theorem loadConfig_new (hload : State.loadConfig parsed = some (cfg, startOrder)) :
    ∀ p ∈ cfg.processes, ∃ svc, Service.new p = .ok svc :=
  (loadConfig_passed hload).2.2.2

inductive ChildEvent (s : State) : Action → GoMap Pid Child → Bool → Prop
  | exit {pid status owner} (h : s.core.children.lookup pid = some ⟨owner, none⟩) :
      ChildEvent s (.childExit pid status)
        (s.core.children.insert pid ⟨owner, some status⟩) s.childStarted
  | adopt {pid wakes} (h : s.core.pidFree pid = true) :
      ChildEvent s (.adopt pid wakes) (s.core.children.insert pid ⟨none, none⟩)
        (s.childStarted || wakes)
  | collect {pid status} (h : s.core.children.lookup pid = some ⟨none, some status⟩) :
      ChildEvent s (.collect pid) (s.core.children.erase pid) s.childStarted

inductive Stepped (s : State) : Action → State → Prop
  | run {t choice s'} (hmem : t ∈ s.tasks)
      (hstep : { s with tasks := s.tasks.erase t }.stepTask t choice = some s') :
      Stepped s (.run t choice) s'
  | giveUp {t choice reply} (hmem : t ∈ s.tasks) (hobserved : t.isObserved = true) :
      Stepped s (.giveUp t choice)
        { s with tasks := t.unobserved :: s.tasks.erase t, replies := reply :: s.replies }
  | fork {choice s'} (hstep : s.stepFork choice = some s') : Stepped s (.fork choice) s'
  | reload {choice s'} (hstep : s.stepReload choice = some s') : Stepped s (.reload choice) s'
  | stopAll {choice s'} (hstep : s.stepStopAll choice = some s') :
      Stepped s (.stopAll choice) s'
  | main {choice s'} (hstep : s.stepMain choice = some s') : Stepped s (.main choice) s'
  | dispatch {req rest} (hqueue : s.restartCh = req :: rest) (hstarted : s.started = true) :
      Stepped s .dispatch { s with restartCh := rest, tasks := .handler req :: s.tasks }
  | arrives {action t} (harrives : Arrives s action t) :
      Stepped s action { s with tasks := t :: s.tasks }
  | child {action children childStarted} (hevent : ChildEvent s action children childStarted) :
      Stepped s action { s.setChildren children with childStarted := childStarted }
  | forward : Stepped s .forward s
  | touch {path stat} :
      Stepped s (.touch path stat) { s with files := Function.update s.files path stat }

theorem stepGiveUp_cases {s s' : State} (hstep : s.stepGiveUp t choice = some s') :
    t.isObserved = true ∧ ∃ reply, s' = (s.spawn t.unobserved).answer reply := by
  unfold State.stepGiveUp at hstep
  cases hobserved : t.isObserved with
  | false => simp [hobserved] at hstep
  | true =>
    simp only [hobserved, Bool.not_true, Bool.false_eq_true, if_false] at hstep
    refine ⟨rfl, ?_⟩
    split at hstep
    · cases hstep
      exact ⟨_, rfl⟩
    · split at hstep <;> cases hstep
      exact ⟨_, rfl⟩
    · cases hstep

theorem step_cases {s s' : State} (hstep : s.step action = some s') :
    s.main.ended = false ∧ Stepped s action s' := by
  cases hended : s.main.ended with
  | true => simp [State.step, hended] at hstep
  | false =>
    refine ⟨rfl, ?_⟩
    cases action with simp only [State.step, hended, Bool.false_eq_true, if_false] at hstep
    | run t choice =>
      split_ifs at hstep with hmem
      exact .run hmem hstep
    | giveUp t choice =>
      split_ifs at hstep with hmem
      obtain ⟨hobserved, reply, rfl⟩ := stepGiveUp_cases hstep
      exact .giveUp hmem hobserved
    | fork choice => exact .fork hstep
    | reload choice => exact .reload hstep
    | stopAll choice => exact .stopAll hstep
    | main choice => exact .main hstep
    | dispatch =>
      split at hstep
      · next hqueue =>
          split_ifs at hstep with hstarted
          cases hstep
          exact .dispatch hqueue hstarted
      · cases hstep
    | request request =>
      split_ifs at hstep with hopen
      cases hstep
      exact .arrives (.request hopen)
    | hangup =>
      split_ifs at hstep
      cases hstep
      exact .arrives .hangup
    | terminate =>
      split_ifs at hstep
      cases hstep
      exact .arrives .terminate
    | forward =>
      split_ifs at hstep
      cases hstep
      exact .forward
    | checkFails check =>
      split_ifs at hstep with hmem
      cases hstep
      exact .arrives (.checkFails hmem)
    | tick i =>
      split_ifs at hstep with hmem
      cases hstep
      exact .arrives (.tick hmem)
    | childExit pid status =>
      split at hstep
      · next hchild =>
          cases hstep
          exact .child (.exit hchild)
      · cases hstep
    | adopt pid wakes =>
      split_ifs at hstep with hfree
      cases hstep
      exact .child (.adopt hfree)
    | collect pid =>
      split at hstep
      · next hchild =>
          cases hstep
          exact .child (.collect hchild)
      · cases hstep
    | touch path stat =>
      cases hstep
      exact .touch

section Turns

variable {s s' : State} {t : Task} {choice : Choice}

theorem step_run (hstep : s.step (.run t choice) = some s') :
    t ∈ s.tasks ∧ { s with tasks := s.tasks.erase t }.stepTask t choice = some s' := by
  simp only [State.step] at hstep
  split_ifs at hstep with _ hmem
  exact ⟨hmem, hstep⟩

theorem step_fork (hstep : s.step (.fork choice) = some s') : s.stepFork choice = some s' := by
  simp only [State.step] at hstep
  split_ifs at hstep
  exact hstep

theorem step_reloading (hstep : s.step (.reload choice) = some s') :
    s.stepReload choice = some s' := by
  simp only [State.step] at hstep
  split_ifs at hstep
  exact hstep

theorem step_stopping (hstep : s.step (.stopAll choice) = some s') :
    s.stepStopAll choice = some s' := by
  simp only [State.step] at hstep
  split_ifs at hstep
  exact hstep

theorem step_mainLoop (hstep : s.step (.main choice) = some s') :
    s.stepMain choice = some s' := by
  simp only [State.step] at hstep
  split_ifs at hstep
  exact hstep

end Turns

/-- None of these makes a leader appear. -/
theorem ChildEvent.leaders (hevent : ChildEvent s action children childStarted) :
    ∀ pid i status, children.lookup pid = some ⟨some i, status⟩ →
      ∃ status', s.core.children.lookup pid = some ⟨some i, status'⟩ := by
  intro pid i status hchild
  cases hevent with
  | exit hbefore =>
    rw [GoMap.lookup_insert] at hchild
    split_ifs at hchild with hpid
    · cases hchild
      exact ⟨none, hpid ▸ hbefore⟩
    · exact ⟨status, hchild⟩
  | adopt hfree =>
    rw [GoMap.lookup_insert] at hchild
    split_ifs at hchild with hpid
    · cases hchild
    · exact ⟨status, hchild⟩
  | collect hbefore =>
    rw [GoMap.lookup_erase] at hchild
    split_ifs at hchild
    exact ⟨status, hchild⟩

end Gopherd.Daemon
