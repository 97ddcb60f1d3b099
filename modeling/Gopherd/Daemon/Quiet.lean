import Gopherd.Daemon.Core

namespace Gopherd

namespace Service

@[simp]
theorem stop_running (svc : Service) : svc.stop.running = svc.running := by
  unfold Service.stop; split <;> rfl

@[simp]
theorem stop_pid (svc : Service) : svc.stop.pid = svc.pid := by
  unfold Service.stop; split <;> rfl

@[simp]
theorem stop_done (svc : Service) : svc.stop.done = svc.done := by
  unfold Service.stop; split <;> rfl

@[simp]
theorem stop_name (svc : Service) : svc.stop.name = svc.name := by
  unfold Service.stop; split <;> rfl

@[simp]
theorem stop_onCheckFailure (svc : Service) : svc.stop.onCheckFailure = svc.onCheckFailure := by
  unfold Service.stop; split <;> rfl

theorem stop_stopped (svc : Service) : svc.stop.stopped = (svc.running || svc.stopped) := by
  cases hrunning : svc.running <;> simp [Service.stop, hrunning]

@[simp]
theorem stop_stop (svc : Service) : svc.stop.stop = svc.stop := by
  cases hrunning : svc.running <;> simp [Service.stop, hrunning]

end Service

namespace Daemon

open Go

theorem Core.isCurrent_iff {c : Core} :
    c.isCurrent i = true ↔ c.services.lookup (c.name i) = some i :=
  decide_eq_true_iff

/-- What both status views need of the statistics of a service. -/
def Stats.shown (stats : Stats) : Bool × Pid :=
  (stats.up, stats.pid)

structure Quiet (c c' : Core) : Prop where
  services : c'.services = c.services
  nextInst : c'.nextInst = c.nextInst
  pidMap : c'.pidMap = c.pidMap
  children : c'.children = c.children
  closed : c'.closed = c.closed
  nextChan : c'.nextChan = c.nextChan
  heap : ∀ i, c'.heap i = c.heap i ∨ c'.heap i = (c.heap i).stop
  pending : ∀ name ∈ c'.restartPending, name ∈ c.restartPending ∨
    ∃ i, c.isRunning i = true ∧ c.name i = name ∧ (c'.heap i).stopped = true
  shown : ∀ name,
    (c'.metrics.lookup name).map Stats.shown = (c.metrics.lookup name).map Stats.shown

namespace Quiet

variable {c c' c'' : Core}

theorem refl (c : Core) : Quiet c c :=
  ⟨rfl, rfl, rfl, rfl, rfl, rfl, fun _ => .inl rfl, fun _ h => .inl h, fun _ => rfl⟩

theorem running (h : Quiet c c') (i : InstId) : c'.isRunning i = c.isRunning i := by
  unfold Core.isRunning
  rcases h.heap i with hi | hi <;> simp [hi]

theorem done (h : Quiet c c') (i : InstId) : c'.done i = c.done i := by
  unfold Core.done
  rcases h.heap i with hi | hi <;> simp [hi]

theorem name (h : Quiet c c') (i : InstId) : c'.name i = c.name i := by
  unfold Core.name
  rcases h.heap i with hi | hi <;> simp [hi]

theorem pid (h : Quiet c c') (i : InstId) : (c'.heap i).pid = (c.heap i).pid := by
  rcases h.heap i with hi | hi <;> simp [hi]

theorem stopped (h : Quiet c c') (i : InstId) (hstopped : (c.heap i).stopped = true) :
    (c'.heap i).stopped = true := by
  rcases h.heap i with hi | hi <;> simp [hi, hstopped, Service.stop_stopped]

theorem trans (hfirst : Quiet c c') (hsecond : Quiet c' c'') : Quiet c c'' := by
  refine ⟨hsecond.services.trans hfirst.services, hsecond.nextInst.trans hfirst.nextInst,
    hsecond.pidMap.trans hfirst.pidMap, hsecond.children.trans hfirst.children,
    hsecond.closed.trans hfirst.closed, hsecond.nextChan.trans hfirst.nextChan, ?_, ?_,
    fun name => (hsecond.shown name).trans (hfirst.shown name)⟩
  · intro i
    rcases hfirst.heap i with h1 | h1 <;> rcases hsecond.heap i with h2 | h2 <;>
      simp [h1, h2]
  · intro name hname
    rcases hsecond.pending name hname with hbefore | ⟨i, hrunning, hi, hstopped⟩
    · rcases hfirst.pending name hbefore with hstart | ⟨i, hrunning, hi, hstopped⟩
      · exact .inl hstart
      · exact .inr ⟨i, hrunning, hi, hsecond.stopped i hstopped⟩
    · exact .inr ⟨i, hfirst.running i ▸ hrunning, hfirst.name i ▸ hi, hstopped⟩

theorem onCheckFailure (h : Quiet c c') (i : InstId) :
    (c'.heap i).onCheckFailure = (c.heap i).onCheckFailure := by
  rcases h.heap i with hi | hi <;> simp [hi]

theorem isCurrent (h : Quiet c c') (i : InstId) : c'.isCurrent i = c.isCurrent i := by
  simp [Core.isCurrent, h.services, h.name]

theorem stop (c : Core) (i : InstId) : Quiet c (c.stop i) := by
  refine ⟨rfl, rfl, rfl, rfl, rfl, rfl, ?_, fun _ h => .inl h, fun _ => rfl⟩
  intro j
  by_cases hji : j = i
  · subst hji
    right
    simp [Core.stop, Core.modify]
  · left
    simp [Core.stop, Core.modify, hji]

/-- Events that leave the shown part of the statistics alone. -/
theorem event (c : Core) (name : String) (event : Stats → Stats)
    (hevent : ∀ stats, (event stats).shown = stats.shown) :
    Quiet c { c with metrics := c.metrics.update name event } := by
  refine ⟨rfl, rfl, rfl, rfl, rfl, rfl, fun _ => .inl rfl, fun _ h => .inl h, ?_⟩
  intro other
  rw [Metrics.lookup_update]
  by_cases heq : other = name
  · subst heq
    cases c.metrics.lookup other <;> simp [hevent]
  · simp [heq]

theorem serviceSkipped (c : Core) (i : InstId) (reason : SkipReason) :
    Quiet c (c.serviceSkipped i reason) :=
  event c _ _ fun _ => rfl

theorem serviceRestarted (c : Core) (i : InstId) : Quiet c (c.serviceRestarted i) :=
  event c _ _ fun _ => rfl

theorem stopForRestart (c : Core) (i : InstId) : Quiet c (c.stopForRestart i) := by
  unfold Core.stopForRestart
  split
  · next hrunning =>
      have hstop := stop c i
      have hstopped : ((c.stop i).heap i).stopped = true := by
        have hsvc : (c.heap i).running = true := hrunning
        simp [Core.stop, Core.modify, Service.stop_stopped, hsvc]
      have hmarked : Quiet c
          { c.stop i with restartPending := insert (c.name i) c.restartPending } := by
        refine ⟨hstop.services, hstop.nextInst, hstop.pidMap, hstop.children, hstop.closed,
          hstop.nextChan, hstop.heap, ?_, hstop.shown⟩
        intro name hname
        rcases Finset.mem_insert.mp hname with rfl | hbefore
        · exact .inr ⟨i, hrunning, rfl, hstopped⟩
        · exact .inl hbefore
      exact hmarked.trans (serviceRestarted _ i)
  · exact serviceRestarted c i

/-- A loop whose body is quiet is quiet. -/
theorem foldl {α : Type} (body : Core → α → Core) (hbody : ∀ c a, Quiet c (body c a))
    (items : List α) (c : Core) : Quiet c (items.foldl body c) := by
  induction items generalizing c with
  | nil => exact refl c
  | cons item rest ih => exact (hbody c item).trans (ih (body c item))

theorem cascade (c : Core) (failed : String) : Quiet c (c.cascade failed) := by
  apply foldl
  intro c entry
  split
  · exact stop c _
  · exact refl c

end Quiet

structure SameObjects (c c' : Core) : Prop where
  nextInst : c'.nextInst = c.nextInst
  pidMap : c'.pidMap = c.pidMap
  children : c'.children = c.children
  closed : c'.closed = c.closed
  nextChan : c'.nextChan = c.nextChan
  name : ∀ i, c'.name i = c.name i
  running : ∀ i, c'.isRunning i = c.isRunning i
  pid : ∀ i, (c'.heap i).pid = (c.heap i).pid
  done : ∀ i, c'.done i = c.done i
  stopped : ∀ i, (c.heap i).stopped = true → (c'.heap i).stopped = true

namespace SameObjects

variable {c c' c'' : Core}

theorem refl (c : Core) : SameObjects c c :=
  ⟨rfl, rfl, rfl, rfl, rfl, fun _ => rfl, fun _ => rfl, fun _ => rfl, fun _ => rfl,
    fun _ h => h⟩

theorem trans (hfirst : SameObjects c c') (hsecond : SameObjects c' c'') :
    SameObjects c c'' where
  nextInst := hsecond.nextInst.trans hfirst.nextInst
  pidMap := hsecond.pidMap.trans hfirst.pidMap
  children := hsecond.children.trans hfirst.children
  closed := hsecond.closed.trans hfirst.closed
  nextChan := hsecond.nextChan.trans hfirst.nextChan
  name i := (hsecond.name i).trans (hfirst.name i)
  running i := (hsecond.running i).trans (hfirst.running i)
  pid i := (hsecond.pid i).trans (hfirst.pid i)
  done i := (hsecond.done i).trans (hfirst.done i)
  stopped i h := hsecond.stopped i (hfirst.stopped i h)

/-- A change of settings of one object. -/
theorem modify (c : Core) (i : InstId) (change : Service → Service)
    (hname : ∀ svc, (change svc).name = svc.name)
    (hrunning : ∀ svc, (change svc).running = svc.running)
    (hpid : ∀ svc, (change svc).pid = svc.pid)
    (hdone : ∀ svc, (change svc).done = svc.done)
    (hstopped : ∀ svc, svc.stopped = true → (change svc).stopped = true) :
    SameObjects c (c.modify i change) := by
  refine ⟨rfl, rfl, rfl, rfl, rfl, ?_, ?_, ?_, ?_, ?_⟩ <;> intro j <;>
    by_cases hji : j = i <;>
    simp [Core.modify, Core.name, Core.isRunning, Core.done, Function.update, hji, hname,
      hrunning, hpid, hdone]
  exact hstopped _

end SameObjects

structure SameRuns (c c' : Core) : Prop extends SameObjects c c' where
  services : c'.services = c.services

namespace SameRuns

variable {c c' c'' : Core}

theorem refl (c : Core) : SameRuns c c :=
  ⟨.refl c, rfl⟩

theorem trans (hfirst : SameRuns c c') (hsecond : SameRuns c' c'') : SameRuns c c'' :=
  ⟨hfirst.toSameObjects.trans hsecond.toSameObjects, hsecond.services.trans hfirst.services⟩

theorem of_quiet (h : Quiet c c') : SameRuns c c' :=
  ⟨⟨h.nextInst, h.pidMap, h.children, h.closed, h.nextChan, h.name, h.running, h.pid, h.done,
    h.stopped⟩, h.services⟩

theorem isCurrent (h : SameRuns c c') (i : InstId) : c'.isCurrent i = c.isCurrent i := by
  simp [Core.isCurrent, h.services, h.name]

theorem setMetrics (c : Core) (metrics : Metrics) : SameRuns c { c with metrics } :=
  ⟨⟨rfl, rfl, rfl, rfl, rfl, fun _ => rfl, fun _ => rfl, fun _ => rfl, fun _ => rfl,
    fun _ h => h⟩, rfl⟩

theorem countExit (c : Core) (i : InstId) (code : Int) (suppressed : Bool) :
    SameRuns c (c.countExit i code suppressed) := by
  cases suppressed <;> first | exact refl c | exact setMetrics c _

end SameRuns

theorem Quiet.stopDependents (c : Core) (svc : Service) (code : Int) :
    Quiet c (c.stopDependents svc code) := by
  unfold Core.stopDependents
  split
  · exact .cascade c _
  · exact .refl c

theorem SameRuns.takeAction (c : Core) (i : InstId) (code : Int) (times : RunTimes)
    (action : ExitAction) : SameRuns c (c.takeAction i code times action).1 := by
  cases action with
  | restart =>
    have hbackoff := SameObjects.modify c i
      (fun svc => { svc with backoff := svc.backoff.afterRun times.ran })
      (fun _ => rfl) (fun _ => rfl) (fun _ => rfl) (fun _ => rfl) (fun _ h => h)
    exact SameRuns.trans ⟨hbackoff, rfl⟩ (.setMetrics _ _)
  | _ => exact .refl c

/-- What the reap loop goes on with after an exit whose action is taken. -/
def exitFollowUp (req : RestartReq) (code : Int) : ExitAction → AfterExit
  | .restart => .restart req
  | .shutdown | .failureShutdown => .shutdown code
  | .successShutdown => .successShutdown
  | .ignore => .wait

theorem Core.recordExit_heap (c : Core) (i : InstId) (pid : Pid) :
    (c.recordExit i pid).heap i = (c.heap i).markExited := by
  simp [Core.recordExit, Core.markExited, Core.modify]

/-- The action of an exit depends on the object as it was before it. -/
theorem Core.handleExit_after (c : Core) (i : InstId) (pid : Pid) (status : WaitStatus)
    (times : RunTimes) :
    ∃ done, (c.handleExit false i pid status times).2 =
      exitFollowUp ⟨i, done, times.delay⟩ (effectiveCode (c.heap i) status)
        (exitAction (c.heap i) (effectiveCode (c.heap i) status)) := by
  simp only [Core.handleExit, Bool.false_eq_true, if_false, c.recordExit_heap]
  change ∃ done, _ = exitFollowUp ⟨i, done, times.delay⟩
    (effectiveCode (c.heap i).markExited status)
    (exitAction (c.heap i).markExited (effectiveCode (c.heap i).markExited status))
  generalize exitAction _ _ = action
  cases action with
  | restart => exact ⟨_, rfl⟩
  | _ => exact ⟨none, rfl⟩

/-- Whatever the reap loop does with an exit, the processes are those left by
its first part. -/
theorem handleExit_sameRuns (c : Core) (shuttingDown : Bool) (i : InstId) (pid : Pid)
    (status : WaitStatus) (times : RunTimes) :
    SameRuns (c.recordExit i pid) (c.handleExit shuttingDown i pid status times).1 := by
  cases shuttingDown with
  | true => exact .countExit _ _ _ _
  | false =>
    have hstopped := SameRuns.of_quiet (.stopDependents (c.recordExit i pid)
      ((c.recordExit i pid).heap i) (effectiveCode ((c.recordExit i pid).heap i) status))
    exact (hstopped.trans (.countExit _ _ _ _)).trans (.takeAction _ _ _ _ _)

/-- A loop keeps what each of its passes keeps. -/
theorem Core.foldl_keeps {α β : Type} {body : Core → α → Core} (part : Core → β)
    (hbody : ∀ c a, part (body c a) = part c) (items : List α) (c : Core) :
    part (items.foldl body c) = part c := by
  induction items generalizing c with
  | nil => rfl
  | cons item rest ih => exact (ih (body c item)).trans (hbody c item)

theorem Core.cascade_restartPending (c : Core) (failed : String) :
    (c.cascade failed).restartPending = c.restartPending := by
  refine Core.foldl_keeps Core.restartPending (fun c entry => ?_) _ c
  split <;> rfl

/-- Only the first part of an exit consumes a pending restart. -/
theorem Core.handleExit_restartPending (c : Core) (shuttingDown : Bool) (i : InstId) (pid : Pid)
    (status : WaitStatus) (times : RunTimes) :
    (c.handleExit shuttingDown i pid status times).1.restartPending =
      (c.recordExit i pid).restartPending := by
  have hcount : ∀ (c : Core) code suppressed,
      (c.countExit i code suppressed).restartPending = c.restartPending := by
    intro c code suppressed
    cases suppressed <;> rfl
  have hstop : ∀ (c : Core) svc code, (c.stopDependents svc code).restartPending =
      c.restartPending := by
    intro c svc code
    unfold Core.stopDependents
    split
    · exact c.cascade_restartPending _
    · rfl
  have haction : ∀ (c : Core) code action,
      (c.takeAction i code times action).1.restartPending = c.restartPending := by
    intro c code action
    cases action <;> rfl
  cases shuttingDown with
  | true => exact hcount _ _ _
  | false =>
    simp only [Core.handleExit, Bool.false_eq_true, if_false]
    rw [haction, hcount, hstop]

end Daemon

end Gopherd
