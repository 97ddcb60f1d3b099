import Gopherd.Daemon.Objects

/-!
The exits of services with a schedule. The loader refuses exit actions for
them, so `service.New` fills in a shutdown; the reap loop leaves these aside
for `startup: scheduled`.
-/

namespace Gopherd.Daemon

open Go

def MainPc.reacts : MainPc → Bool
  | .enqueue _ | .prestore _ | .spawnShutdown _ => true
  | _ => false

/-- With the flag set every exit is only counted. -/
theorem handleExit_late (c : Core) (i : InstId) (pid : Pid) (status : WaitStatus)
    (times : RunTimes) : (c.handleExit true i pid status times).2.next.reacts = false := by
  simp only [Core.handleExit, if_true]
  split <;> rfl

/-- The reap loop reacts to the exits whose action is not to ignore them. -/
theorem handleExit_reacts (c : Core) (i : InstId) (pid : Pid) (status : WaitStatus)
    (times : RunTimes) :
    (c.handleExit false i pid status times).2.next.reacts = true ↔
      exitAction (c.heap i) (effectiveCode (c.heap i) status) ≠ .ignore := by
  obtain ⟨done, hafter⟩ := c.handleExit_after i pid status times
  rw [hafter]
  generalize exitAction _ _ = action
  cases action <;> simp [exitFollowUp, AfterExit.next, MainPc.reacts]

structure IsRunOf (svc x : Service) : Prop where
  proc : x.proc = svc.proc
  oneshot : x.oneshot = svc.oneshot
  scheduled : x.scheduled = svc.scheduled
  onSuccess : x.onSuccess = svc.onSuccess
  onFailure : x.onFailure = svc.onFailure

/-- An exit of a service that carries a schedule is ignored if it was stopped
on purpose or the schedule is armed, and shuts the daemon down otherwise. -/
theorem exitAction_of_schedule {parsed : Parsed} (hload : parsed.load = .ok cfg)
    (hp : p ∈ cfg.processes) (hschedule : p.schedule ≠ "")
    (hnew : Service.new (resolveProcess cfg entrypointArgs p) = .ok svc) (hrun : IsRunOf svc x)
    (code : Int) :
    exitAction x code =
      if x.stopped = true ∨ p.startup = .scheduled then .ignore else .shutdown := by
  obtain ⟨hstartup, hsuccess, hfailure⟩ := load_schedule hload hp hschedule
  have hbuilt := Service.builtFrom_of_new hnew
  have hscheduled : x.scheduled = decide (p.startup = .scheduled) :=
    hrun.scheduled.trans hbuilt.scheduled
  have honeshot : x.oneshot = false := by
    rw [hrun.oneshot, hbuilt.oneshot]
    change decide (p.startup = .oneshot) = false
    rcases hstartup with h | h <;> simp [h]
  have honSuccess : x.onSuccess = .shutdown := by
    have h := hbuilt.onSuccess
    change parseExitAction p.onSuccess .shutdown = _ at h
    rw [hsuccess] at h
    rw [hrun.onSuccess]
    exact (Option.some.inj h).symm
  have honFailure : x.onFailure = .shutdown := by
    have h := hbuilt.onFailure
    change parseExitAction p.onFailure .shutdown = _ at h
    rw [hfailure] at h
    rw [hrun.onFailure]
    exact (Option.some.inj h).symm
  unfold exitAction
  rw [hscheduled, honeshot, honSuccess, honFailure]
  cases x.stopped with
  | true => simp
  | false => rcases hstartup with h | h <;> simp [h]

/-- The reap loop leaves the exit of a service with a schedule without an
action exactly when its startup is `scheduled`, or it was stopped on purpose,
or the daemon shuts down already. -/
theorem scheduled_exit_harmless_iff {parsed : Parsed} {cfg : Config}
    {entrypointArgs : List String} {p : Process} {svc : Service}
    (hload : parsed.load = .ok cfg) (hp : p ∈ cfg.processes) (hschedule : p.schedule ≠ "")
    (hnew : Service.new (resolveProcess cfg entrypointArgs p) = .ok svc) {s s' : State}
    {pid : Pid} {status : WaitStatus} {times : RunTimes} {i : InstId}
    (hmain : s.main = .reaped pid status) (hmap : s.core.pidMap.lookup pid = some i)
    (hrun : IsRunOf svc (s.core.heap i)) (hstep : s.step (.main (.times times)) = some s') :
    s'.main.reacts = false ↔
      p.startup = .scheduled ∨ (s.core.heap i).stopped = true ∨ s.shuttingDown = true := by
  obtain ⟨times, -, -, rfl⟩ := step_reaped hmain hstep
  simp only [State.stepReaped, hmap]
  cases hflag : s.shuttingDown with
  | true => simp [handleExit_late]
  | false =>
    rw [Bool.eq_false_iff, ne_eq, handleExit_reacts,
      exitAction_of_schedule hload hp hschedule hnew hrun]
    split_ifs with h
    · simp [h.symm]
    · simpa [or_comm] using h

def backupProcess (startup : Startup) : Process :=
  { Process.empty with
    name := "backup", command := "/bin/backup", startup, schedule := "0 3 * * *" }

def tickRunActions : List Action :=
  [.tick 0, .run (.tick 0) .go] ++ startActions 0 .tick 101 ++
    [.childExit 101 (.exited 1), .main (.child 101)]

/-- The failure of a scheduled run of `backup` has no consequences. -/
theorem backup_tick_run_ignored : ∃ s s',
    run (fun _ _ => true) (plainInput [backupProcess .scheduled])
      (idleBootActions ++ tickRunActions) = some s ∧
    s.step (.main (.times ⟨0, 0⟩)) = some s' ∧ s'.main.reacts = false := by
  have hrun : (run (fun _ _ => true) (plainInput [backupProcess .scheduled])
      (idleBootActions ++ tickRunActions)).map (fun s =>
        match Service.new (backupProcess .scheduled) with
        | .ok svc => decide (s.main = .reaped 101 (.exited 1) ∧
            s.core.pidMap.lookup 101 = some 0 ∧ (s.core.heap 0).proc = svc.proc ∧
            (s.core.heap 0).oneshot = svc.oneshot ∧ (s.core.heap 0).scheduled = svc.scheduled ∧
            (s.core.heap 0).onSuccess = svc.onSuccess ∧
            (s.core.heap 0).onFailure = svc.onFailure ∧
            (s.step (.main (.times ⟨0, 0⟩))).isSome = true)
        | .error _ => false) = some true := by
    decide +kernel
  have hload : (plainConfig [backupProcess .scheduled]).load =
      .ok ⟨[backupProcess .scheduled], ∅, .unset, [], "", false⟩ := by
    decide +kernel
  obtain ⟨s, hs, hfacts⟩ := Option.map_eq_some_iff.mp hrun
  cases hnew : Service.new (backupProcess .scheduled) with
  | error error => simp [hnew] at hfacts
  | ok svc =>
    simp only [hnew] at hfacts
    obtain ⟨hmain, hmap, hproc, honeshot, hscheduled, hsuccess, hfailure, hstep⟩ :=
      of_decide_eq_true hfacts
    obtain ⟨s', hs'⟩ := Option.isSome_iff_exists.mp hstep
    have hresolved : Service.new (resolveProcess
        ⟨[backupProcess .scheduled], ∅, .unset, [], "", false⟩ [] (backupProcess .scheduled)) =
        .ok svc := hnew
    exact ⟨s, s', hs, hs', (scheduled_exit_harmless_iff hload (List.mem_singleton_self _)
      (by decide) hresolved hmain hmap ⟨hproc, honeshot, hscheduled, hsuccess, hfailure⟩
      hs').mpr (.inl rfl)⟩

def manualRunActions : List Action :=
  controlStartActions "backup" 0 101 ++
    [.childExit 101 (.exited 0), .main (.child 101), .main (.times ⟨0, 0⟩), .main .go, .main .go,
      .run (.shutdown 0 .exit) .go]

/-- The clean exit of a job that was started by hand shuts the daemon down. -/
theorem manual_run_shuts_daemon_down : ∃ s, Reached Transition.anyStep s ∧
    (s.core.heap 0).proc = backupProcess .disabled ∧ s.shuttingDown = true ∧
    s.stopCaller = some .exit := by
  have hrun : (run (fun _ _ => true) (plainInput [backupProcess .disabled])
      (idleBootActions ++ manualRunActions)).map (fun s =>
        decide ((s.core.heap 0).proc = backupProcess .disabled ∧ s.shuttingDown = true ∧
          s.stopCaller = some .exit)) = some true := by
    decide +kernel
  obtain ⟨s, hs, hfacts⟩ := Option.map_eq_some_iff.mp hrun
  exact ⟨s, (reached_of_run hs).weaken fun _ _ _ => trivial, of_decide_eq_true hfacts⟩

end Gopherd.Daemon
