import Gopherd.Daemon.Sticky

/-!
The `requires` cascade. A failure of a service stops the running services that
require it, and the exits that follow are those of stopped services, which
cascade no further.
-/

namespace Gopherd.Daemon

open Go

structure Fails (s : State) (j : InstId) : Prop where
  reaped : ∃ pid status, s.main = .reaped pid status ∧ s.core.pidMap.lookup pid = some j ∧
    exitCascades (s.core.heap j) (effectiveCode (s.core.heap j) status) = true
  up : s.shuttingDown = false

def State.cascadeStops (s : State) (failed : String) (k : InstId) : Bool :=
  s.core.isCurrent k && failed ∈ (s.core.heap k).requires && s.core.isRunning k

inductive RequiresThrough (s : State) (failed : String) : InstId → Prop
  | direct {i} (hcurrent : s.core.isCurrent i = true)
      (hrequires : failed ∈ (s.core.heap i).requires) : RequiresThrough s failed i
  | through {i k} (hcurrent : s.core.isCurrent i = true)
      (hrequires : s.core.name k ∈ (s.core.heap i).requires)
      (hstops : s.cascadeStops failed k = true) (hnext : RequiresThrough s failed k) :
      RequiresThrough s failed i

/-- A running service that requires one of the services that the cascade stops
requires the failed one itself. -/
def State.cascadeComplete (s : State) (failed : String) : Bool :=
  s.core.services.entries.all fun stopped => s.core.services.entries.all fun other =>
    !s.cascadeStops failed stopped.2 || !s.core.isRunning other.2 ||
      s.core.name stopped.2 ∉ (s.core.heap other.2).requires ||
      failed ∈ (s.core.heap other.2).requires

variable {s : State} {failed : String} {i : InstId}

theorem State.cascadeStops_entry (h : s.cascadeStops failed k = true) :
    (s.core.name k, k) ∈ s.core.services.entries := by
  simp only [State.cascadeStops, Bool.and_eq_true] at h
  exact GoMap.mem_entries.mpr (Core.isCurrent_iff.mp h.1.1)

theorem RequiresThrough.current (h : RequiresThrough s failed i) : s.core.isCurrent i = true := by
  cases h with
  | direct hcurrent => exact hcurrent
  | through hcurrent => exact hcurrent

/-- A running service is stopped whatever the chain. -/
theorem RequiresThrough.stops (h : RequiresThrough s failed i)
    (hcomplete : s.cascadeComplete failed = true) (hrunning : s.core.isRunning i = true) :
    s.cascadeStops failed i = true := by
  cases h with
  | direct hcurrent hrequires => simp [State.cascadeStops, hcurrent, hrequires, hrunning]
  | @through _ k hcurrent hrequires hstops hnext =>
    have hentry := GoMap.mem_entries.mpr (Core.isCurrent_iff.mp hcurrent)
    simp only [State.cascadeComplete, List.all_eq_true] at hcomplete
    have hdirect := hcomplete _ (State.cascadeStops_entry hstops) _ hentry
    simp only [hstops, hrunning, hrequires, Bool.not_true, Bool.false_or, not_true,
      decide_false, decide_eq_true_eq] at hdirect
    simp [State.cascadeStops, hcurrent, hdirect, hrunning]

/-- An object without a process has none until its service is started. -/
theorem kept_idle (i : InstId) : Kept fun j svc => j = i → svc.running = false where
  stop h heq := by
    unfold Service.stop
    split <;> exact h heq
  markExited _ _ := rfl
  backoff h := h
  retire h heq := by
    unfold retire Service.stop
    split <;> exact h heq
  keepRunning h _ _ := h

theorem StartsFor.forks (h : StartsFor s i pid action) : s.forks (s.core.name i) action = true := by
  cases h with
  | fork hforking => simp [State.forks, hforking]
  | oneshot hstarting => simp [State.forks, hstarting]

/-- What holds of an object stays so until its service gets a new process. -/
theorem Kept.until_fork {good : Service → Prop} (hgood : Kept fun j svc => j = i → good svc)
    (hknown : Known s) (hi : i < s.core.nextInst) (hname : s.core.name i = name)
    (hs : good (s.core.heap i))
    (hrun : Transition.Runs State.step (fun s action => s.forks name action = false) s t) :
    good (t.core.heap i) := by
  suffices h : Known t ∧ i < t.core.nextInst ∧ t.core.name i = name ∧ good (t.core.heap i) from
    h.2.2.2
  induction hrun with
  | refl => exact ⟨hknown, hi, hname, hs⟩
  | @tail u v action _ hno hstep ih =>
    obtain ⟨hknown, hi, hname, hu⟩ := ih
    refine ⟨hknown.step hstep, hi.trans_le (hknown.nextInst_le hstep),
      (hknown.step_name hstep hi).trans hname, ?_⟩
    refine hgood.step hstep (fun j hj => hj ▸ hu) ?_ ?_ i rfl
    · rintro j _ _ hstarts rfl
      rw [← hname, hstarts.forks] at hno
      cases hno
    · rintro j p svc hle - rfl
      exact absurd hi (Nat.not_lt.mpr hle)

theorem stepReaped_running (status : WaitStatus) (times : RunTimes)
    (hmap : s.core.pidMap.lookup pid = some j) (i : InstId) :
    (s.stepReaped pid status times).core.isRunning i =
      if i = j then false else s.core.isRunning i := by
  have hsame := handleExit_sameRuns s.core s.shuttingDown j pid status times
  have hrecorded : (s.core.recordExit j pid).isRunning i =
      if i = j then false else s.core.isRunning i := CoreBooks.recordExit_running i
  rw [← hrecorded, ← hsame.running]
  simp only [State.stepReaped, hmap]

/-- The cascade stops every service that requires the failed one through
services that it stops, if they all require the failed one themselves: once the
stopped ones have exited, none of them is running unless it was started again. -/
theorem requires_cascade_complete {s s₁ t : State} {choice : Choice} {i j : InstId}
    (hreached : Reached Transition.anyStep s) (hfails : Fails s j)
    (hcomplete : s.cascadeComplete (s.core.name j) = true)
    (hstep : s.step (.main choice) = some s₁)
    (hthrough : RequiresThrough s (s.core.name j) i)
    (hrun : Transition.Runs State.step
      (fun u action => u.forks (s.core.name i) action = false) s₁ t)
    (hhandled : ∀ k, s.cascadeStops (s.core.name j) k = true → t.core.isRunning k = true →
      (t.core.heap k).stopped = false) : t.core.isRunning i = false := by
  have hknown := Known.of_reached hreached
  have hcurrent := Core.isCurrent_iff.mp hthrough.current
  have hi := hknown.current_lt hcurrent
  have hknown₁ := hknown.step hstep
  have hi₁ := hi.trans_le (hknown.nextInst_le hstep)
  have hname₁ := hknown.step_name hstep hi
  obtain ⟨pid, status, hmain, hmap, hcascades⟩ := hfails.reaped
  obtain ⟨times, -, -, rfl⟩ := step_reaped hmain hstep
  have hafter := stepReaped_running status times hmap i
  by_cases hrunning : i ≠ j ∧ s.core.isRunning i = true
  · have hstops := hthrough.stops hcomplete hrunning.2
    have hrequires : s.core.name j ∈ (s.core.heap i).requires := by
      simp only [State.cascadeStops, Bool.and_eq_true, decide_eq_true_eq] at hstops
      exact hstops.1.2
    have hmarked : ((s.stepReaped pid status times).core.heap i).stopped = true := by
      simp only [State.stepReaped, hmap, hfails.up]
      exact handleExit_marks hrunning.1 hcascades hcurrent hrequires hrunning.2
    have hkept := (kept_stopped i).until_fork hknown₁ hi₁ hname₁ hmarked hrun
    by_contra hstill
    rw [hhandled i hstops (by simpa using hstill)] at hkept
    cases hkept
  · have hidle : (s.stepReaped pid status times).core.isRunning i = false := by
      rw [hafter]
      split_ifs with heq
      · rfl
      · by_contra hstill
        exact hrunning ⟨heq, by simpa using hstill⟩
    exact (kept_idle i).until_fork hknown₁ hi₁ hname₁ hidle hrun

def chainInput (appRequires : List String) : BootInput :=
  plainInput [
    { namedProcess "db" with onFailure := "ignore" },
    { namedProcess "web" with requires := ["db"] },
    { namedProcess "app" with requires := appRequires }]

def dbFailsActions : List Action :=
  bootLayerActions 0 100 ++ bootLayerActions 1 101 ++ bootLayerActions 2 102 ++
    List.replicate 4 (.main .go) ++ [.childExit 100 (.exited 1), .main (.child 100)]

def stopHandledActions (pid : Pid) : List Action :=
  [.childExit pid (.signaled 15), .main (.child pid), .main (.times ⟨0, 0⟩)]

def State.dbFails (s : State) : Bool :=
  s.main = .reaped 100 (.exited 1) && s.core.pidMap.lookup 100 = some 0 && s.core.name 0 = "db" &&
    exitCascades (s.core.heap 0) (effectiveCode (s.core.heap 0) (.exited 1)) && !s.shuttingDown

/-- The services that the cascade has stopped do not run under that stop any more. -/
def State.cascadeHandled (s t : State) (failed : String) : Bool :=
  s.core.services.entries.all fun entry =>
    !s.cascadeStops failed entry.2 || !t.core.isRunning entry.2 || !(t.core.heap entry.2).stopped

theorem fails_of_dbFails (h : s.dbFails = true) :
    Fails s 0 ∧ s.core.name 0 = "db" := by
  simp only [State.dbFails, Bool.and_eq_true, decide_eq_true_eq, Bool.not_eq_true'] at h
  obtain ⟨⟨⟨⟨hmain, hmap⟩, hname⟩, hcascades⟩, hup⟩ := h
  exact ⟨⟨⟨100, .exited 1, hmain, hmap, hcascades⟩, hup⟩, hname⟩

theorem stopped_of_cascadeHandled (h : s.cascadeHandled t failed = true)
    (hstops : s.cascadeStops failed k = true) (hrunning : t.core.isRunning k = true) :
    (t.core.heap k).stopped = false := by
  simp only [State.cascadeHandled, List.all_eq_true] at h
  simpa [hstops, hrunning] using h _ (State.cascadeStops_entry hstops)

/-- With `app` requiring `db` as well, the failure of `db` stops both. -/
theorem requires_cascade_complete_chain : ∃ s s₁ t,
    run (fun _ _ => true) (chainInput ["web", "db"]) dbFailsActions = some s ∧
    s.step (.main (.times ⟨0, 0⟩)) = some s₁ ∧
    Transition.exec State.step (fun u action => !u.forks "app" action) s₁
      (stopHandledActions 101 ++ stopHandledActions 102) = some t ∧
    s.core.isRunning 2 = true ∧ t.core.isRunning 2 = false := by
  have hrun : (run (fun _ _ => true) (chainInput ["web", "db"]) dbFailsActions).bind (fun s =>
      (s.step (.main (.times ⟨0, 0⟩))).bind fun s₁ =>
        (Transition.exec State.step (fun u action => !u.forks "app" action) s₁
          (stopHandledActions 101 ++ stopHandledActions 102)).map fun t => decide
            ((s.dbFails = true ∧ s.cascadeComplete "db" = true ∧ s.cascadeHandled t "db" = true) ∧
              s.core.isCurrent 2 = true ∧ "db" ∈ (s.core.heap 2).requires ∧
              s.core.name 2 = "app" ∧ s.core.isRunning 2 = true)) = some true := by
    decide +kernel
  obtain ⟨s, hs, hrest⟩ := Option.bind_eq_some_iff.mp hrun
  obtain ⟨s₁, hs₁, hrest⟩ := Option.bind_eq_some_iff.mp hrest
  obtain ⟨t, ht, hfacts⟩ := Option.map_eq_some_iff.mp hrest
  obtain ⟨⟨hdb, hcomplete, hhandled⟩, hcurrent, hrequires, hname, hrunning⟩ :=
    of_decide_eq_true hfacts
  obtain ⟨hfails, hdbName⟩ := fails_of_dbFails hdb
  refine ⟨s, s₁, t, hs, hs₁, ht, hrunning, ?_⟩
  refine requires_cascade_complete ((reached_of_run hs).weaken fun _ _ _ => trivial) hfails
    (by rw [hdbName]; exact hcomplete) hs₁ (.direct hcurrent (by rw [hdbName]; exact hrequires))
    ?_ (by rw [hdbName]; exact fun k => stopped_of_cascadeHandled hhandled)
  rw [hname]
  exact (Transition.Runs.of_exec ht).weaken fun _ _ hno => by simpa using hno

/-- `db` fails and `web`, which requires it, is stopped; `app`, which requires
`web`, is still running when that stop has been handled. -/
theorem cascade_stops_short : ∃ s s₁ t,
    Reached Transition.anyStep s ∧ Fails s 0 ∧ s.step (.main (.times ⟨0, 0⟩)) = some s₁ ∧
    RequiresThrough s (s.core.name 0) 2 ∧
    Transition.Runs State.step
      (fun u action => u.forks (s.core.name 2) action = false) s₁ t ∧
    (∀ k, s.cascadeStops (s.core.name 0) k = true → t.core.isRunning k = false) ∧
    t.core.isRunning 2 = true := by
  have hrun : (run (fun _ _ => true) (chainInput ["web"]) dbFailsActions).bind (fun s =>
      (s.step (.main (.times ⟨0, 0⟩))).bind fun s₁ =>
        (Transition.exec State.step (fun u action => !u.forks "app" action) s₁
          (stopHandledActions 101)).map fun t => decide
            ((s.dbFails = true ∧ s.core.services.entries.all (fun entry =>
                !s.cascadeStops "db" entry.2 || !t.core.isRunning entry.2) = true) ∧
              (s.core.isCurrent 1 = true ∧ "db" ∈ (s.core.heap 1).requires ∧
                s.cascadeStops "db" 1 = true) ∧
              (s.core.isCurrent 2 = true ∧ s.core.name 1 ∈ (s.core.heap 2).requires ∧
                s.core.name 2 = "app" ∧ t.core.isRunning 2 = true))) = some true := by
    decide +kernel
  obtain ⟨s, hs, hrest⟩ := Option.bind_eq_some_iff.mp hrun
  obtain ⟨s₁, hs₁, hrest⟩ := Option.bind_eq_some_iff.mp hrest
  obtain ⟨t, ht, hfacts⟩ := Option.map_eq_some_iff.mp hrest
  obtain ⟨⟨hdb, hstopped⟩, ⟨hweb, hwebDb, hstops⟩, happ, happWeb, hname, hrunning⟩ :=
    of_decide_eq_true hfacts
  obtain ⟨hfails, hdbName⟩ := fails_of_dbFails hdb
  refine ⟨s, s₁, t, (reached_of_run hs).weaken fun _ _ _ => trivial, hfails, hs₁, ?_, ?_, ?_,
    hrunning⟩
  · rw [hdbName]
    exact .through happ happWeb hstops (.direct hweb hwebDb)
  · rw [hname]
    exact (Transition.Runs.of_exec ht).weaken fun _ _ hno => by simpa using hno
  · rw [hdbName]
    intro k hk
    simpa [hk] using List.all_eq_true.mp hstopped _ (State.cascadeStops_entry hk)

end Gopherd.Daemon
