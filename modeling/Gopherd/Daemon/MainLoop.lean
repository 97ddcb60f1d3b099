import Gopherd.Daemon.Frame

/-!
What the steps of the main goroutine do. Most of them touch no process and
only move on in the program. The others fork a oneshot of a boot layer,
collect an exited child, or record an exit.
-/

namespace Gopherd.Daemon

open Go

inductive MainMove (s : State) : MainPc → MainPc → Prop
  | lastLayer : MainMove s (.nextLayer []) .startChecks
  | layer {layer rest} : MainMove s (.nextLayer (layer :: rest)) (.oneshots layer [] ⟨layer, rest⟩)
  | allStarted {procs pos} : MainMove s (.oneshots [] procs pos) (.results procs [] none pos)
  | skip {name todo procs pos} :
      MainMove s (.oneshots (name :: todo) procs pos) (.oneshots todo procs pos)
  | oneshot {name i todo procs pos} (h : s.core.services.lookup name = some i)
      (hsvc : ((s.core.heap i).enabled && (s.core.heap i).oneshot) = true)
      (hmet : (s.core.heap i).unmetCondition s.files = none) :
      MainMove s (.oneshots (name :: todo) procs pos) (.oneshotStart i todo procs pos)
  | startFailed {i todo procs pos} : MainMove s (.oneshotStart i todo procs pos) .aborted
  | expired {waiting arrived fatal pos proc} (h : proc ∈ waiting) :
      MainMove s (.results waiting arrived fatal pos)
        (.results (waiting.erase proc) (arrived ++ [(proc.1, none)]) fatal pos)
  | failed {fatal pos} : MainMove s (.results [] [] (some fatal) pos) .aborted
  | settled {pos} : MainMove s (.results [] [] none pos) (.spawn pos.layer pos)
  | spawn {name todo pos} : MainMove s (.spawn (name :: todo) pos) (.spawn todo pos)
  | spawned {pos} : MainMove s (.spawn [] pos) (.join pos)
  | joined {pos} (h : s.bootDone = true) : MainMove s (.join pos) (.nextLayer pos.rest)
  | checks : MainMove s .startChecks .startSchedulers
  | schedulers : MainMove s .startSchedulers .begin
  | begin : MainMove s .begin .wait4
  | childless (h : s.core.children.isEmpty = true) : MainMove s .wait4 .echild
  | leaveChildless (h : s.shuttingDown = true) : MainMove s .echild .loopEnd
  | stayChildless (h : s.shuttingDown = false) : MainMove s .echild .echildPending
  | pending : MainMove s .echildPending .pause
  | noPending : MainMove s .echildPending .idle
  | pauseEnd : MainMove s .pause .wait4
  | idleEnd : MainMove s .idle .wait4
  | enqueue {req} : MainMove s (.enqueue req) .wait4
  | prestore {code} : MainMove s (.prestore code) (.spawnShutdown code)
  | spawnShutdown {code} : MainMove s (.spawnShutdown code) .wait4
  | unmanaged (h : s.shuttingDown = false) : MainMove s .unmanaged .wait4
  | unmanagedLate (h : s.shuttingDown = true) : MainMove s .unmanaged .unmanagedLock
  | leaveUnmanaged (hempty : s.core.pidMap.isEmpty = true) (hunlocked : s.unlocked = true) :
      MainMove s .unmanagedLock .loopEnd
  | stayUnmanaged (h : s.core.pidMap.isEmpty = false) : MainMove s .unmanagedLock .wait4
  | loopLeft (h : s.shuttingDown = true → s.stopAllDone = true) :
      MainMove s .loopEnd .joinControl
  | controlJoined (h : s.handlersDone = true) : MainMove s .joinControl .joinSenders
  | sendersJoined (h : s.tasks.any Task.isSender = false) : MainMove s .joinSenders .closeTargets
  | targetsClosed : MainMove s .closeTargets (.returned s.exitCode)

structure MainFrame (s s' : State) : Prop where
  core : Quiet s.core s'.core
  pending : s'.core.restartPending = s.core.restartPending
  eq : ∃ core checkers schedulers tasks restartClosed pendingRestarts exitCode childStarted
      started main,
    s' = { s with
      core := core, checkers := checkers, schedulers := schedulers, tasks := tasks
      restartClosed := restartClosed, pendingRestarts := pendingRestarts
      exitCode := exitCode, childStarted := childStarted, started := started, main := main }
  move : MainMove s s.main s'.main
  tasks : Adds s s' (MainNext s)
  started : s'.started = s.started ∨ (s.main = .begin ∧ s'.main = .wait4 ∧ s'.started = true)
  exitCode : s'.exitCode = s.exitCode ∨ ∃ code, s.main = .prestore code ∧
    s'.exitCode = if s.exitCode = 0 then toInt32 code else s.exitCode
  restartClosed : s'.restartClosed = s.restartClosed ∨ s'.main = .closeTargets
  schedulers : s'.schedulers = s.schedulers ∨ s'.schedulers ⊆ s.core.scheduledInstances

variable {s s' : State} {choice : Choice}

theorem MainFrame.of_move (hmove : MainMove s s.main main) :
    MainFrame s { s with checkers, pendingRestarts, childStarted, main } :=
  ⟨.refl _, rfl, ⟨_, _, _, _, _, _, _, _, _, _, rfl⟩, hmove, .none rfl, .inl rfl, .inl rfl,
    .inl rfl,
    .inl rfl⟩

/-- A move that starts or stops the runners of the cron schedules. -/
theorem MainFrame.of_schedulers {schedulers : List InstId} (hmove : MainMove s s.main main)
    (hschedulers : schedulers ⊆ s.core.scheduledInstances) :
    MainFrame s { s with checkers, schedulers, main } :=
  ⟨.refl _, rfl, ⟨_, _, _, _, _, _, _, _, _, _, rfl⟩, hmove, .none rfl, .inl rfl, .inl rfl,
    .inl rfl,
    .inr hschedulers⟩

def MainPc.afterReap : MainPc → Bool
  | .unmanaged | .wait4 | .loopEnd | .enqueue _ | .prestore _ | .spawnShutdown _ => true
  | _ => false

theorem stepReaped_afterReap (s : State) (pid : Pid) (status : WaitStatus) (times : RunTimes) :
    (s.stepReaped pid status times).main.afterReap = true := by
  unfold State.stepReaped
  split
  · rfl
  · dsimp only
    cases (s.core.handleExit s.shuttingDown _ pid status times).2 <;> rfl

inductive MainEvent (s : State) : Choice → State → Prop
  | oneshotStarted {i todo procs pos pid} (hmain : s.main = .oneshotStart i todo procs pos)
      (hfree : s.core.pidFree pid = true) :
      MainEvent s (.child pid)
        { s with
          core := s.core.startOneshot i pid, main := .oneshots todo (procs ++ [(i, pid)]) pos }
  | oneshotCollected {waiting arrived fatal pos proc owner status}
      (hmain : s.main = .results waiting arrived fatal pos) (hproc : proc ∈ waiting)
      (hchild : s.core.children.lookup proc.2 = some ⟨owner, some status⟩) :
      MainEvent s (.child proc.2)
        { s with
          core := { s.core with children := s.core.children.erase proc.2 }
          main := .results (waiting.erase proc) (arrived ++ [(proc.1, some status)]) fatal pos }
  | oneshotTimedOut {waiting i arrived fatal pos}
      (hmain : s.main = .results waiting ((i, none) :: arrived) fatal pos) :
      MainEvent s .go
        { s with
          core := s.core.serviceExited i 1
          main := .results waiting arrived (fatal.or (some (i, none))) pos }
  | oneshotExited {waiting i status arrived fatal fatal' code pos}
      (hmain : s.main = .results waiting ((i, some status) :: arrived) fatal pos)
      (hfatal : fatal.isSome = true → fatal'.isSome = true) :
      MainEvent s .go
        { s with
          core := (s.core.markExited i).serviceExited i code
          main := .results waiting arrived fatal' pos }
  | reaped {pid owner status} (hmain : s.main = .wait4)
      (hchild : s.core.children.lookup pid = some ⟨owner, some status⟩) :
      MainEvent s (.child pid)
        { s with
          core := { s.core with children := s.core.children.erase pid }
          main := .reaped pid status }
  | exited {pid status times} (hmain : s.main = .reaped pid status)
      (hunlocked : s.unlocked = true) :
      MainEvent s (.times times) (s.stepReaped pid status times)

/-- Where the main goroutine is after an event. -/
def MainPc.afterEvent : MainPc → Bool
  | .oneshots .. | .results .. | .reaped .. => true
  | main => main.afterReap

theorem MainEvent.lands (hevent : MainEvent s choice s') : s'.main.afterEvent = true := by
  cases hevent with
  | @exited pid status times =>
    have hreap := stepReaped_afterReap s pid status times
    generalize (s.stepReaped pid status times).main = main at hreap
    cases main <;> first | rfl | cases hreap
  | _ => rfl

def MainPc.booting : MainPc → Bool
  | .nextLayer _ | .oneshots .. | .oneshotStart .. | .results .. | .spawn .. | .join _
  | .startChecks | .startSchedulers | .begin => true
  | _ => false

theorem MainMove.booting (hmove : MainMove s before after) (hafter : after.booting = true) :
    before.booting = true := by
  cases hmove <;> simp_all [MainPc.booting]

theorem MainEvent.booting (hevent : MainEvent s choice s') (hafter : s'.main.booting = true) :
    s.main.booting = true := by
  cases hevent with
  | oneshotStarted hmain => rw [hmain]; rfl
  | oneshotCollected hmain => rw [hmain]; rfl
  | oneshotTimedOut hmain => rw [hmain]; rfl
  | oneshotExited hmain => rw [hmain]; rfl
  | reaped => cases hafter
  | @exited pid status times =>
    have hreap := stepReaped_afterReap s pid status times
    generalize (s.stepReaped pid status times).main = main at hreap hafter
    cases main <;> simp_all [MainPc.afterReap, MainPc.booting]

theorem stepBoot_cases (hstep : s.stepBoot choice = some s') :
    MainFrame s s' ∨ MainEvent s choice s' := by
  cases hmain : s.main with
  | nextLayer rest =>
    left
    cases rest <;> simp only [State.stepBoot, hmain] at hstep <;> cases hstep
    · exact .of_move (hmain ▸ .lastLayer)
    · exact .of_move (hmain ▸ .layer)
  | oneshots todo procs pos =>
    left
    cases todo with
    | nil =>
      simp only [State.stepBoot, hmain] at hstep
      cases hstep
      exact .of_move (hmain ▸ .allStarted)
    | cons name todo =>
      simp only [State.stepBoot, hmain] at hstep
      split at hstep
      · cases hstep
        exact .of_move (hmain ▸ .skip)
      · next i hlookup =>
          split_ifs at hstep with hskip
          · cases hstep
            exact .of_move (hmain ▸ .skip)
          · split at hstep <;> cases hstep
            · exact ⟨.serviceSkipped s.core i _, rfl, ⟨_, _, _, _, _, _, _, _, _, _, rfl⟩,
                hmain ▸ .skip, .none rfl, .inl rfl, .inl rfl, .inl rfl, .inl rfl⟩
            · next hmet =>
                exact .of_move (hmain ▸ .oneshot hlookup (by simpa using hskip) hmet)
  | oneshotStart i todo procs pos =>
    simp only [State.stepBoot, hmain] at hstep
    split at hstep
    · split_ifs at hstep with hfree
      cases hstep
      exact .inr (.oneshotStarted hmain hfree)
    · cases hstep
      exact .inl (.of_move (hmain ▸ .startFailed))
    · cases hstep
  | results waiting arrived fatal pos =>
    simp only [State.stepBoot, hmain] at hstep
    split at hstep
    · split at hstep
      · next pid _ _ proc owner status hfind hchild =>
          split_ifs at hstep
          cases hstep
          have hpid : proc.2 = pid := by simpa using List.find?_some hfind
          subst hpid
          exact .inr (.oneshotCollected hmain (List.mem_of_find?_eq_some hfind) hchild)
      · cases hstep
    · split at hstep
      · next proc hfind =>
          split_ifs at hstep
          cases hstep
          exact .inl (.of_move (hmain ▸ .expired (List.mem_of_find?_eq_some hfind)))
      · cases hstep
    · split at hstep
      · cases hstep
        exact .inr (.oneshotTimedOut hmain)
      · cases hstep
        refine .inr (.oneshotExited hmain ?_)
        intro hfatal
        split
        · cases fatal <;> simp_all
        · exact hfatal
      · split at hstep <;> cases hstep
        · exact .inl (.of_move (hmain ▸ .failed))
        · exact .inl (.of_move (hmain ▸ .settled))
      · cases hstep
    · cases hstep
  | spawn todo pos =>
    left
    cases todo with
    | nil =>
      simp only [State.stepBoot, hmain] at hstep
      cases hstep
      exact .of_move (hmain ▸ .spawned)
    | cons name todo =>
      simp only [State.stepBoot, hmain] at hstep
      split at hstep
      · cases hstep
        exact .of_move (hmain ▸ .spawn)
      · next hlookup =>
          split_ifs at hstep with hsvc <;> cases hstep
          · exact ⟨.refl _, rfl, ⟨_, _, _, _, _, _, _, _, _, _, rfl⟩, hmain ▸ .spawn,
              .inr ⟨_, rfl, .gate hmain hlookup hsvc⟩, .inl rfl, .inl rfl, .inl rfl, .inl rfl⟩
          · exact .of_move (hmain ▸ .spawn)
  | join pos =>
    simp only [State.stepBoot, hmain] at hstep
    split_ifs at hstep with hdone
    cases hstep
    exact .inl (.of_move (hmain ▸ .joined hdone))
  | startChecks =>
    simp only [State.stepBoot, hmain] at hstep
    cases hstep
    exact .inl (.of_move (hmain ▸ .checks))
  | startSchedulers =>
    simp only [State.stepBoot, hmain] at hstep
    cases hstep
    exact .inl (.of_schedulers (hmain ▸ .schedulers) (List.Subset.refl _))
  | begin =>
    simp only [State.stepBoot, hmain] at hstep
    cases hstep
    exact .inl ⟨.refl _, rfl, ⟨_, _, _, _, _, _, _, _, _, _, rfl⟩, hmain ▸ .begin, .none rfl,
      .inr ⟨hmain, rfl, rfl⟩, .inl rfl, .inl rfl, .inl rfl⟩
  | _ => simp [State.stepBoot, hmain] at hstep

theorem stepLoop_cases (hstep : s.stepLoop choice = some s') :
    MainFrame s s' ∨ MainEvent s choice s' := by
  unfold State.stepLoop at hstep
  cases hmain : s.main with
  | wait4 =>
    simp only [hmain] at hstep
    split at hstep
    · split at hstep
      · next hchild =>
          cases hstep
          exact .inr (.reaped hmain hchild)
      · cases hstep
    · split_ifs at hstep with hempty
      cases hstep
      exact .inl (.of_move (hmain ▸ .childless hempty))
    · cases hstep
  | echild =>
    simp only [hmain] at hstep
    cases hstep
    refine .inl (.of_move ?_)
    rw [hmain]
    cases hshut : s.shuttingDown
    · exact .stayChildless hshut
    · exact .leaveChildless hshut
  | echildPending =>
    simp only [hmain] at hstep
    cases hstep
    refine .inl (.of_move ?_)
    rw [hmain]
    split
    · exact .pending
    · exact .noPending
  | pause =>
    simp only [hmain] at hstep
    split at hstep
    · split_ifs at hstep
      cases hstep
      exact .inl (.of_move (hmain ▸ .pauseEnd))
    · cases hstep
      exact .inl (.of_move (hmain ▸ .pauseEnd))
    · cases hstep
  | idle =>
    simp only [hmain] at hstep
    split at hstep
    · split_ifs at hstep
      cases hstep
      exact .inl (.of_move (hmain ▸ .idleEnd))
    · split_ifs at hstep
      cases hstep
      exact .inl (.of_move (hmain ▸ .idleEnd))
    · cases hstep
  | reaped pid status =>
    simp only [hmain] at hstep
    split at hstep
    · split_ifs at hstep with hunlocked
      cases hstep
      exact .inr (.exited hmain hunlocked)
    · cases hstep
  | enqueue req =>
    simp only [hmain] at hstep
    cases hstep
    exact .inl ⟨.refl _, rfl, ⟨_, _, _, _, _, _, _, _, _, _, rfl⟩, hmain ▸ .enqueue,
      .inr ⟨_, rfl, .sender hmain⟩, .inl rfl, .inl rfl, .inl rfl, .inl rfl⟩
  | prestore code =>
    simp only [hmain] at hstep
    cases hstep
    exact .inl ⟨.refl _, rfl, ⟨_, _, _, _, _, _, _, _, _, _, rfl⟩, hmain ▸ .prestore, .none rfl,
      .inl rfl, .inr ⟨code, hmain, rfl⟩, .inl rfl, .inl rfl⟩
  | spawnShutdown code =>
    simp only [hmain] at hstep
    cases hstep
    exact .inl ⟨.refl _, rfl, ⟨_, _, _, _, _, _, _, _, _, _, rfl⟩, hmain ▸ .spawnShutdown,
      .inr ⟨_, rfl, .shutdown hmain⟩, .inl rfl, .inl rfl, .inl rfl, .inl rfl⟩
  | unmanaged =>
    simp only [hmain] at hstep
    cases hstep
    refine .inl (.of_move ?_)
    rw [hmain]
    cases hshut : s.shuttingDown
    · exact .unmanaged hshut
    · exact .unmanagedLate hshut
  | unmanagedLock =>
    simp only [hmain] at hstep
    split_ifs at hstep with hunlocked hempty <;> cases hstep
    · exact .inl (.of_move (hmain ▸ .leaveUnmanaged hempty hunlocked))
    · exact .inl (.of_move (hmain ▸ .stayUnmanaged (by simpa using hempty)))
  | _ => simp [hmain] at hstep

theorem stepTeardown_cases (hstep : s.stepTeardown = some s') :
    MainFrame s s' := by
  cases hmain : s.main with
  | loopEnd =>
    simp only [State.stepTeardown, hmain] at hstep
    split_ifs at hstep with hwaits
    cases hstep
    refine .of_move (hmain ▸ .loopLeft ?_)
    intro hshut
    simpa [hshut] using hwaits
  | joinControl =>
    simp only [State.stepTeardown, hmain] at hstep
    split_ifs at hstep with hdone
    cases hstep
    exact .of_schedulers (hmain ▸ .controlJoined hdone) (List.nil_subset _)
  | joinSenders =>
    simp only [State.stepTeardown, hmain] at hstep
    split_ifs at hstep with hsenders
    cases hstep
    exact ⟨.refl _, rfl, ⟨_, _, _, _, _, _, _, _, _, _, rfl⟩,
      hmain ▸ .sendersJoined (by simpa using hsenders), .none rfl, .inl rfl, .inl rfl, .inr rfl,
      .inl rfl⟩
  | closeTargets =>
    simp only [State.stepTeardown, hmain] at hstep
    cases hstep
    exact .of_move (hmain ▸ .targetsClosed)
  | _ => simp [State.stepTeardown, hmain] at hstep

theorem stepMain_cases (hstep : s.stepMain choice = some s') :
    MainFrame s s' ∨ MainEvent s choice s' := by
  unfold State.stepMain at hstep
  split at hstep
  all_goals first
    | exact stepBoot_cases hstep
    | exact .inl (stepTeardown_cases hstep)
    | exact stepLoop_cases hstep

end Gopherd.Daemon
