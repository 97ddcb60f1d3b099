import Gopherd.Daemon.Objects
import Gopherd.Daemon.Progress
import Gopherd.Daemon.Single

/-!
The two status views. The JSON view is drawn from the statistics, which are
kept by name and which leave out the exits that are one half of a restart; the
text view asks the current object.
-/

namespace Gopherd.Daemon

open Go

inductive StatusText where
  | running (pid : Pid)
  -- the time of the next run is left out
  | scheduled
  | disabled
  | skipped (reason : SkipReason)
  | pending
  | stopped
  deriving DecidableEq

namespace State

def statusJSONFn (s : State) (name : String) : Option ServiceSnapshot :=
  s.core.metrics.serviceSnapshot name

def statusFn (s : State) (name : String) : Option StatusText :=
  (s.core.services.lookup name).map fun i =>
    let svc := s.core.heap i
    if svc.running then .running svc.pid
    else if svc.scheduled then .scheduled
    else if !svc.enabled then .disabled
    else
      match svc.unmetCondition s.files with
      | some reason => .skipped reason
      | none =>
        if ((s.core.metrics.lookup name).map Stats.pending).getD false then .pending
        else .stopped

def jsonUp (s : State) (name : String) (pid : Pid) : Prop :=
  ∃ snapshot, s.statusJSONFn name = some snapshot ∧ snapshot.state = .up ∧ snapshot.pid = pid

/-- The exit that the reap loop is about to handle. -/
def reapedExit (s : State) : Option (InstId × WaitStatus) :=
  match s.main with
  | .reaped pid status => (s.core.pidMap.lookup pid).map fun i => (i, status)
  | _ => none

/-- Exits that are one half of a restart are left out of the statistics. -/
def halfRestart (s : State) (exit : InstId × WaitStatus) : Bool :=
  s.core.name exit.1 ∈ s.core.restartPending || (!s.shuttingDown &&
    exitAction (s.core.heap exit.1) (effectiveCode (s.core.heap exit.1) exit.2) = .restart)

/-- Starts are orderly, no exit of the service is one half of a restart, and no
reload replaces the object that it runs with. -/
def steadyStatus (name : String) (s : State) (action : Action) : Bool :=
  s.orderlyStart action &&
    match action with
    | .main _ => s.reapedExit.all fun exit => s.core.name exit.1 ≠ name || !s.halfRestart exit
    | .reload _ =>
      match s.reload with
      | .locking _ cfg _ =>
        match (s.core.reload cfg s.entrypointArgs s.controlSocket).2 with
        | .ok dones =>
          (s.core.services.lookup name).all fun i =>
            !s.core.isRunning i || !dones.contains (s.core.done i)
        | .error _ => true
      | _ => true
    | _ => true

/-- The step forks for the service, or handles an exit of it that is not one
half of a restart. -/
def setsStatus (name : String) (s : State) (action : Action) : Bool :=
  match action with
  | .fork (.child _) => s.forking.any fun fork => s.core.name fork.1 = name
  | .main _ => s.reapedExit.any fun exit => s.core.name exit.1 = name && !s.halfRestart exit
  | _ => false

/-- A daemon that boots, or one that after whatever orderly run has just set
the status of the service. -/
def Synced (name : String) (s : State) : Prop :=
  Boots s ∨ ∃ before action,
    Reached (fun s action => s.orderlyStart action = true) before ∧
      before.orderlyStart action = true ∧ before.setsStatus name action = true ∧
      before.step action = some s

end State

def MainPc.failing : MainPc → Bool
  | .results _ _ (some _) _ | .aborted => true
  | _ => false

def Service.shown (svc : Service) : Bool × Pid :=
  if svc.running then (true, svc.pid) else (false, 0)

/-- What the current object of the name has to show. -/
def Core.shown (c : Core) (name : String) : Bool × Pid :=
  (c.services.lookup name).elim (false, 0) fun i => Service.shown (c.heap i)

def Core.Agrees (c : Core) (name : String) : Prop :=
  c.metrics.shown name = c.shown name

variable {m : Metrics} {name : String}

/-- What the statistics show of a service, if it is registered. -/
def Metrics.view (m : Metrics) (name : String) : Option (Bool × Pid) :=
  (m.lookup name).map Stats.shown

theorem Metrics.shown_eq {m' : Metrics} (h : m'.view name = m.view name) :
    m'.shown name = m.shown name :=
  congrArg (Option.getD · (false, 0)) h

theorem Metrics.view_update (m : Metrics) (name other : String) (event : Stats → Stats) :
    (m.update name event).view other =
      if other = name then (m.lookup other).map fun stats => (event stats).shown
      else m.view other := by
  rw [view, lookup_update]
  split_ifs with heq
  · rw [heq, Option.map_map]
    rfl
  · rfl

theorem Metrics.isSome_update {event : Stats → Stats} :
    ((m.update name event).lookup other).isSome ↔ (m.lookup other).isSome := by
  rw [Metrics.lookup_update]
  by_cases heq : other = name <;> simp [heq]

theorem Metrics.shown_serviceStarted (hregistered : (m.lookup name).isSome) (other : String)
    (pid : Pid) :
    (m.serviceStarted name pid).shown other =
      if other = name then (true, pid) else m.shown other := by
  obtain ⟨stats, hstats⟩ := Option.isSome_iff_exists.mp hregistered
  change ((m.serviceStarted name pid).view other).getD (false, 0) = _
  rw [Metrics.serviceStarted, Metrics.view_update]
  split_ifs with heq
  · rw [heq, hstats]
    rfl
  · rfl

theorem Quiet.registered (hquiet : Quiet c c') (name : String) :
    (c'.metrics.lookup name).isSome ↔ (c.metrics.lookup name).isSome := by
  have hshown := congrArg Option.isSome (hquiet.shown name)
  simpa using Bool.eq_iff_iff.mp hshown

theorem Quiet.object (hquiet : Quiet c c') (i : InstId) :
    Service.shown (c'.heap i) = Service.shown (c.heap i) := by
  rcases hquiet.heap i with hsame | hstopped
  · rw [hsame]
  · simp [Service.shown, hstopped]

theorem Core.view_countExit (c : Core) (i : InstId) (code : Int) (suppressed : Bool)
    (name : String) :
    (c.countExit i code suppressed).metrics.view name =
      if name = c.name i ∧ suppressed = false then (c.metrics.view name).map fun _ => (false, 0)
      else c.metrics.view name := by
  cases suppressed with
  | true => simp [Core.countExit]
  | false =>
    simp only [and_true, Metrics.view, Option.map_map]
    exact Metrics.view_update _ _ _ _

/-- An exit shows in the statistics of its own service, unless it is one half
of a restart. -/
theorem State.view_handleExit (s : State) (i : InstId) (pid : Pid) (status : WaitStatus)
    (times : RunTimes) (name : String) :
    (s.core.handleExit s.shuttingDown i pid status times).1.metrics.view name =
      if name = s.core.name i ∧ s.halfRestart (i, status) = false then
        (s.core.metrics.view name).map fun _ => (false, 0)
      else s.core.metrics.view name := by
  have htake (c : Core) (code : Int) (action : ExitAction) :
      (c.takeAction i code times action).1.metrics.view name = c.metrics.view name := by
    cases action with
    | restart => exact (Metrics.view_update _ _ _ _).trans (ite_self _)
    | _ => rfl
  have hname : (s.core.recordExit i pid).name i = s.core.name i := CoreBooks.recordExit_name i
  unfold State.halfRestart
  cases s.shuttingDown with
  | true =>
    refine (Core.view_countExit _ _ _ _ _).trans ?_
    simp only [hname, Bool.not_true, Bool.false_and, Bool.or_false]
    rfl
  | false =>
    have hquiet := Quiet.stopDependents (s.core.recordExit i pid) (s.core.heap i).markExited
      (effectiveCode (s.core.heap i).markExited status)
    have hview : Metrics.view (Core.metrics _) name = _ := hquiet.shown name
    simp only [Core.handleExit, Bool.false_eq_true, if_false, s.core.recordExit_heap, htake,
      Core.view_countExit, hview, hquiet.name, hname, Bool.not_false, Bool.true_and]
    rfl

section Shown

variable {c c' : Core}

theorem Core.shown_same (hagree : c.Agrees name)
    (hservices : c'.services = c.services)
    (hmetrics : c'.metrics.shown name = c.metrics.shown name)
    (hobject : ∀ i, Service.shown (c'.heap i) = Service.shown (c.heap i)) :
    c'.Agrees name := by
  rw [Core.Agrees, hmetrics, hagree, Core.shown, Core.shown, hservices]
  simp only [hobject]

/-- One object starts or ends a process, and the statistics of its name
follow. -/
theorem Core.shown_changed (i : InstId) (value : Bool × Pid)
    (hagree : c.name i ≠ name → c.Agrees name)
    (hnamed : ∀ name j, c.services.lookup name = some j → c.name j = name)
    (hservices : c'.services = c.services)
    (hmetrics : c'.metrics.shown name = if name = c.name i then value else c.metrics.shown name)
    (hobject : c.name i = name → c'.shown name = value)
    (hothers : ∀ j, j ≠ i → Service.shown (c'.heap j) = Service.shown (c.heap j)) :
    c'.Agrees name := by
  unfold Core.Agrees at hagree ⊢
  by_cases hname : c.name i = name
  · rw [hmetrics, if_pos hname.symm, hobject hname]
  · rw [hmetrics, if_neg (Ne.symm hname), hagree hname, Core.shown, Core.shown, hservices]
    cases hlookup : c.services.lookup name with
    | none => rfl
    | some j =>
      have hji : j ≠ i := by
        rintro rfl
        exact hname (hnamed name j hlookup)
      exact (hothers j hji).symm

/-- A reload that does not replace the running object. -/
theorem Core.shown_reloaded {cfg : Config} {dones : List (Option Chan)}
    (hagree : c.Agrees name) (hreload : Reloaded cfg c c' dones)
    (hlt : ∀ name i, c.services.lookup name = some i → i < c.nextInst)
    (hkept : ∀ i, c.services.lookup name = some i → c.isRunning i = true → c.done i ∉ dones) :
    c'.Agrees name := by
  unfold Core.Agrees Core.shown at hagree ⊢
  cases hlookup : c'.services.lookup name with
  | none =>
    cases hbefore : c.services.lookup name with
    | none =>
      rw [hreload.shown name (.inr hbefore), hagree, hbefore]
      rfl
    | some j => exact hreload.dropped name (by simp [hbefore]) hlookup
  | some i =>
    rw [hreload.shown name (.inl (by simp [hlookup])), hagree]
    rcases hreload.current name i hlookup with ⟨hnew, -, -, hidle⟩ | ⟨hold, hrunning⟩
    · -- the service did not run before: otherwise it would have been kept
      have hidle : (c'.heap i).running = false := hidle
      rw [Option.elim_some, Service.shown, if_neg (by simp [hidle])]
      cases hbefore : c.services.lookup name with
      | none => rfl
      | some j =>
        have hj : (c.heap j).running = false := by
          by_contra hj
          have hj : c.isRunning j = true := by simpa [Core.isRunning] using hj
          rcases hreload.replaced name j hbefore hj (by simp [hlookup]) with hplace | hwaits
          · cases hplace.symm.trans hlookup
            exact absurd (hlt name i hbefore) (Nat.not_lt.mpr hnew)
          · exact hkept j hbefore hj hwaits
        simp [Service.shown, hj]
    · have hi := hlt name i hold
      have hsame : (c'.heap i).running = (c.heap i).running := hreload.running i hi
      rw [hold, Option.elim_some, Option.elim_some, Service.shown, Service.shown, hsame,
        hreload.pid i hi]

end Shown

structure Viewed (s : State) : Prop where
  orderly : Orderly s
  configured : Configured s
  progress : Progress s
  aborted : s.main = .aborted → s.started = false
  registered : ∀ name, (s.core.services.lookup name).isSome → (s.core.metrics.lookup name).isSome

namespace Viewed

variable {s s' : State} {action : Action}

theorem of_fresh (hfresh : Fresh s) : Viewed s := by
  obtain ⟨layers, hmain⟩ := hfresh.main
  obtain ⟨processes, controlSocket, hbuilt⟩ := hfresh.built
  refine ⟨.of_fresh hfresh, .of_fresh hfresh, .of_fresh hfresh, by simp [hmain], ?_⟩
  intro name hsome
  refine (hbuilt.registered name).mpr (.inr ?_)
  rcases (hbuilt.covered name).mp hsome with hempty | hmem
  · simp [Core.empty] at hempty
  · exact hmem

theorem named (h : Viewed s) (name : String) (i : InstId)
    (hlookup : s.core.services.lookup name = some i) : s.core.name i = name :=
  (h.configured.named name i hlookup).1

/-- A process is started for a current object, and both sides show it. -/
theorem started (h : Viewed s) (pid : Pid) (hcurrent : s.core.isCurrent i = true)
    (hagree : s.core.name i ≠ name → s.core.Agrees name) :
    (s.core.startOneshot i pid).Agrees name := by
  have hlookup := Core.isCurrent_iff.mp hcurrent
  have hname : (s.core.finishStart i pid).name i = s.core.name i := CoreBooks.finishStart_name i
  refine Core.shown_changed i (true, pid) hagree h.named rfl ?_ ?_ ?_
  · simp only [Core.startOneshot, Core.serviceStarted, hname]
    exact Metrics.shown_serviceStarted (h.registered _ (by simp [hlookup])) name pid
  · rintro rfl
    simp [Core.shown, Core.startOneshot, Core.serviceStarted, Core.finishStart, Core.modify,
      hlookup, Service.shown, Service.finishStart]
  · intro j hji
    simp [Core.startOneshot, Core.serviceStarted, Core.finishStart, Core.modify, hji]

/-- The only process of a service ends, and both sides show it. -/
theorem exited (h : Viewed s) {i : InstId} {c marked : Core}
    (hrunning : s.core.isRunning i = true) (hsame : SameRuns marked c)
    (hservices : marked.services = s.core.services)
    (hheap : marked.heap = Function.update s.core.heap i (s.core.heap i).markExited)
    (hagree : s.core.name i ≠ name → s.core.Agrees name)
    (hview : c.metrics.view name = if name = s.core.name i then
      (s.core.metrics.view name).map fun _ => (false, 0) else s.core.metrics.view name) :
    c.Agrees name := by
  have hobject (j : InstId) : Service.shown (c.heap j) = Service.shown (marked.heap j) := by
    have hrunning : (c.heap j).running = (marked.heap j).running := hsame.running j
    rw [Service.shown, Service.shown, hrunning, hsame.pid j]
  refine Core.shown_changed i (false, 0) hagree h.named (hsame.services.trans hservices) ?_ ?_ ?_
  · change (c.metrics.view name).getD (false, 0) = _
    rw [hview]
    split_ifs
    · cases s.core.metrics.view name <;> rfl
    · rfl
  · rintro rfl
    rw [Core.shown, hsame.services, hservices]
    cases hlookup : s.core.services.lookup (s.core.name i) with
    | none => rfl
    | some j =>
      rw [Option.elim_some, hobject, hheap, Service.shown]
      by_cases hji : j = i
      · simp [hji, Service.markExited]
      · have hdown : s.core.isRunning j = false := by
          by_contra hj
          exact hji (h.orderly.single.unique j i (by simpa using hj) hrunning (h.named _ j hlookup))
        rw [Function.update_of_ne hji, if_neg (by simpa [Core.isRunning] using hdown)]
  · intro j hji
    rw [hobject, hheap, Function.update_of_ne hji]

theorem handled (h : Viewed s) (hmap : s.core.pidMap.lookup pid = some i)
    (hagree : s.core.name i ≠ name → s.core.Agrees name)
    (hcounted : s.core.name i = name → s.halfRestart (i, status) = false) (times : RunTimes) :
    (s.core.handleExit s.shuttingDown i pid status times).1.Agrees name := by
  refine h.exited (h.orderly.books.core.mapped pid i hmap).1
    (handleExit_sameRuns s.core s.shuttingDown i pid status times) rfl rfl hagree ?_
  have hshown := and_iff_left_of_imp fun hname : name = s.core.name i => hcounted hname.symm
  simpa only [hshown] using s.view_handleExit i pid status times name

theorem step_aborted (h : Viewed s) (hstep : s.step action = some s')
    (haborted : s'.main = .aborted) : s'.started = false := by
  have hbooting : s.main.booting = true := by
    cases step_main hstep with
    | same hsame =>
      have hended := (step_cases hstep).1
      rw [← hsame, haborted] at hended
      cases hended
    | aborted _ hboot =>
      by_contra hbooted
      have hlaunched : s.main.launching = false := by
        cases hmain : s.main <;> simp_all [MainPc.booting, MainPc.launching]
      have hdone := h.progress.launched hlaunched (step_cases hstep).1
      obtain ⟨htasks, hforking⟩ := s.bootDone_iff.mp hdone
      rcases hboot with ⟨t, ht, hisBoot⟩ | ⟨i, caller, hfork, hisBoot⟩
      · rw [htasks t ht] at hisBoot
        cases hisBoot
      · rw [hforking i caller hfork] at hisBoot
        cases hisBoot
    | panicked hpanicked => rw [haborted] at hpanicked; cases hpanicked
    | moved hframe =>
      have hmove := hframe.move
      rw [haborted] at hmove
      generalize s.main = before at hmove
      cases hmove <;> rfl
    | event hevent =>
      have hlands := hevent.lands
      rw [haborted] at hlands
      cases hlands
  rcases (step_frame hstep).started with hsame | ⟨-, hwait, -⟩
  · rw [hsame]
    exact h.orderly.booting.started hbooting
  · rw [haborted] at hwait
    cases hwait

/-- Once the boot has a reason to give up it does. -/
theorem step_failing (h : Viewed s) (hstep : s.step action = some s')
    (hfailing : s.main.failing = true) : s'.main.failing = true := by
  have hended := (step_cases hstep).1
  obtain ⟨waiting, arrived, fatal, pos, hmain⟩ :
      ∃ waiting arrived fatal pos, s.main = .results waiting arrived (some fatal) pos := by
    cases hmain : s.main with
    | results waiting arrived fatal pos =>
      rw [hmain] at hfailing
      cases fatal with
      | none => cases hfailing
      | some fatal => exact ⟨_, _, _, _, rfl⟩
    | aborted => rw [hmain] at hended; cases hended
    | _ => rw [hmain] at hfailing; cases hfailing
  cases step_main hstep with
  | same hsame => rw [hsame, hfailing]
  | aborted haborted => rw [haborted]; rfl
  | panicked hpanicked => exact absurd hpanicked (h.progress.step_notPanicked hstep)
  | moved hframe =>
    have hmove := hframe.move
    rw [hmain] at hmove
    generalize s'.main = after at hmove
    cases hmove <;> rfl
  | event hevent =>
    cases hevent with
    | oneshotCollected hresults => cases hmain.symm.trans hresults; rfl
    | oneshotTimedOut hresults => cases hmain.symm.trans hresults; rfl
    | @oneshotExited _ _ _ _ _ fatal' _ _ hresults hfatal =>
      cases hmain.symm.trans hresults
      cases fatal' with
      | none => cases hfatal rfl
      | some _ => rfl
    | oneshotStarted hother | reaped hother | exited hother => cases hmain.symm.trans hother

theorem step_registered (h : Viewed s) (hstep : s.step action = some s') (name : String)
    (hsome : (s'.core.services.lookup name).isSome) : (s'.core.metrics.lookup name).isSome := by
  have hbefore := h.registered name
  have hupdated {c : Core} {changed : String} {event : Stats → Stats} (hcore : s'.core = c)
      (hservices : c.services = s.core.services)
      (hmetrics : c.metrics = s.core.metrics.update changed event) :
      (s'.core.metrics.lookup name).isSome := by
    rw [hcore, hservices] at hsome
    rw [hcore, hmetrics]
    exact Metrics.isSome_update.mpr (hbefore hsome)
  cases step_core hstep with
  | quiet hquiet => exact (hquiet.registered name).mpr (hbefore (hquiet.services ▸ hsome))
  | forked _ _ hcore | oneshotStarted _ _ hcore | oneshotTimedOut _ hcore
  | oneshotExited _ hcore => exact hupdated hcore rfl rfl
  | @exited pid status times i _ _ _ _ hcore =>
    have hservices := (handleExit_sameRuns s.core s.shuttingDown i pid status times).services
    rw [hcore, hservices] at hsome
    rw [hcore]
    have hview := congrArg Option.isSome (s.view_handleExit i pid status times name)
    split_ifs at hview <;> simpa [Metrics.view, hbefore hsome] using hview
  | reloaded hlocking =>
    obtain ⟨dones, hreloaded⟩ := h.configured.reloaded hlocking
    exact hreloaded.registered name hsome
  | children _ hcore =>
    rw [hcore] at hsome ⊢
    exact hbefore hsome

theorem step (h : Viewed s) (horderly : s.orderlyStart action = true)
    (hstep : s.step action = some s') : Viewed s' :=
  ⟨h.orderly.step horderly hstep, h.configured.step hstep, h.progress.step hstep,
    h.step_aborted hstep, h.step_registered hstep⟩

theorem of_reached (hreached : Reached (fun s action => s.orderlyStart action = true) s) :
    Viewed s :=
  hreached.invariant (fun _ hboots => of_fresh hboots.fresh) fun _ _ _ h => h.step

end Viewed

structure Steady (name : String) (s : State) : Prop extends Viewed s where
  agree : s.main.failing = false → s.core.Agrees name

namespace Steady

variable {s s' : State} {action : Action}

theorem of_fresh (hfresh : Fresh s) : Steady name s := by
  have hidle (i : InstId) : (s.core.heap i).running = false := (hfresh.idle i).1
  obtain ⟨processes, controlSocket, hbuilt⟩ := hfresh.built
  refine ⟨.of_fresh hfresh, fun _ => ?_⟩
  rw [Core.Agrees, hbuilt.shown, Core.shown]
  cases s.core.services.lookup name <;> simp [Service.shown, hidle, Core.empty, Metrics.shown]

/-- A start or a counted exit of the service puts both views right. -/
theorem of_setsStatus (h : Viewed s) (horderly : s.orderlyStart action = true)
    (hsets : s.setsStatus name action = true) (hstep : s.step action = some s') :
    Steady name s' := by
  refine ⟨h.step horderly hstep, fun _ => ?_⟩
  unfold State.setsStatus at hsets
  split at hsets
  · obtain ⟨i, caller, hforking, ⟨_, ⟨⟩, -, hresumes⟩ | ⟨hfail, -⟩⟩ :=
      stepFork_cases (step_fork hstep)
    · obtain ⟨_, _, _, _, rfl⟩ := hresumes.eq
      refine h.started _ (h.orderly.books.forking i caller hforking).1 fun hne => absurd ?_ hne
      simpa [hforking] using hsets
    · cases hfail
  · unfold State.reapedExit at hsets
    split at hsets
    · next pid status hmain =>
        cases hmap : s.core.pidMap.lookup pid with
        | none => simp [hmap] at hsets
        | some i =>
          simp only [hmap, Option.map_some, Option.any_some, Bool.and_eq_true, Bool.not_eq_true',
            decide_eq_true_eq] at hsets
          obtain ⟨times, -, -, rfl⟩ := step_reaped hmain hstep
          rw [State.stepReaped, hmap]
          exact h.handled hmap (fun hne => absurd hsets.1 hne) (fun _ => hsets.2) times
    · cases hsets
  · cases hsets

theorem step_agree (h : Steady name s) (hsteady : s.steadyStatus name action = true)
    (hstep : s.step action = some s') (hgoing : s'.main.failing = false) :
    s'.core.Agrees name := by
  have hagree : s.core.Agrees name := by
    apply h.agree
    by_contra hfailing
    rw [h.step_failing hstep (by simpa using hfailing)] at hgoing
    cases hgoing
  have hbooks := h.orderly.books
  have hstarted (i : InstId) (pid : Pid) (hcurrent : s.core.isCurrent i = true) :=
    h.started pid hcurrent fun _ => hagree
  cases step_core hstep with
  | quiet hquiet =>
    exact Core.shown_same hagree hquiet.services (Metrics.shown_eq (hquiet.shown name))
      hquiet.object
  | @forked i caller pid _ hforking _ hcore =>
    rw [hcore]
    exact hstarted i pid (hbooks.forking i caller hforking).1
  | oneshotStarted hmain _ hcore =>
    rw [hcore]
    exact hstarted _ _ (h.orderly.single.starting _ (by rw [hmain]; rfl))
  | oneshotTimedOut hmain _ =>
    -- the exit is counted although the process runs on, and the boot fails
    have hresults := step_mainLoop hstep
    simp only [State.stepMain, State.stepBoot, hmain] at hresults
    cases hresults
    rename_i fatal _ _
    cases fatal <;> cases hgoing
  | @oneshotExited _ i _ _ _ code _ _ hmain hcore =>
    have hrunning := (hbooks.oneshots i (by simp [hmain, MainPc.layerOneshots])).1
    have hview := (s.core.markExited i).view_countExit i code false name
    simp only [and_true, CoreBooks.markExited_name] at hview
    rw [hcore]
    exact h.exited hrunning (.setMetrics (s.core.markExited i) _) rfl rfl (fun _ => hagree) hview
  | @exited pid status times i _ hmain _ hmap hcore =>
    simp only [State.steadyStatus, State.reapedExit, hmain, hmap, Bool.and_eq_true,
      Option.map_some, Option.all_some, Bool.or_eq_true, decide_eq_true_eq] at hsteady
    rw [hcore]
    refine h.handled hmap (fun _ => hagree) (fun hname => ?_) times
    simpa using hsteady.2.resolve_left (not_not.mpr hname)
  | @reloaded _ origin cfg startOrder hlocking =>
    obtain ⟨dones, hreload, hreloaded, -⟩ := h.configured.reload_ok hlocking
    simp only [State.steadyStatus, hlocking, hreload, Bool.and_eq_true] at hsteady
    refine Core.shown_reloaded hagree hreloaded
      (fun name i hlookup => (h.configured.named name i hlookup).2) ?_
    intro i hlookup hrunning
    simpa [hlookup, hrunning] using hsteady.2
  | children _ hcore =>
    rw [hcore]
    exact Core.shown_same hagree rfl rfl fun _ => rfl

theorem step (h : Steady name s) (hsteady : s.steadyStatus name action = true)
    (hstep : s.step action = some s') : Steady name s' := by
  have horderly : s.orderlyStart action = true := by
    simp only [State.steadyStatus, Bool.and_eq_true] at hsteady
    exact hsteady.1
  exact ⟨h.toViewed.step horderly hstep, h.step_agree hsteady hstep⟩

theorem of_reached (hreached : Transition.Reached (State.Synced name) State.step
      (fun s action => s.steadyStatus name action = true) s) : Steady name s := by
  refine hreached.invariant ?_ fun _ _ _ h => h.step
  rintro s (hboots | ⟨before, action, hbefore, horderly, hsets, hstep⟩)
  · exact .of_fresh hboots.fresh
  · exact .of_setsStatus (.of_reached hbefore) horderly hsets hstep

end Steady

/-- What the statistics show is what the JSON view reports. -/
theorem State.jsonUp_iff (s : State) (name : String) (pid : Pid) :
    s.jsonUp name pid ↔ s.core.metrics.shown name = (true, pid) := by
  unfold State.jsonUp State.statusJSONFn Metrics.serviceSnapshot Metrics.shown
  cases s.core.metrics.lookup name with
  | none => simp
  | some stats =>
    cases hup : stats.up with
    | true => simp [Stats.state, Stats.shown, hup]
    | false =>
      have hdown : stats.state ≠ .up := by
        simp only [Stats.state, hup]
        cases stats.enabled <;> cases stats.skipped <;> cases stats.pending <;> simp
      simp [Stats.shown, hup, hdown]

theorem State.statusFn_running_iff {s : State} (hlookup : s.core.services.lookup name = some i)
    (pid : Pid) :
    s.statusFn name = some (.running pid) ↔ Service.shown (s.core.heap i) = (true, pid) := by
  unfold State.statusFn
  rw [hlookup]
  cases hrunning : (s.core.heap i).running with
  | true => simp [Service.shown, hrunning]
  | false =>
    simp only [Option.map_some, hrunning, Service.shown, Option.some.injEq]
    split_ifs <;> (try split) <;> simp_all

/-- From the boot on, and again from every step on that sets the status of a
service, both views agree on whether it is up and on its pid, in every run that
keeps its status steady. -/
theorem status_views_agree {name : String} {s : State}
    (hreached : Transition.Reached (State.Synced name) State.step
      (fun s action => s.steadyStatus name action = true) s)
    (hstarted : s.started = true) (hknown : (s.core.services.lookup name).isSome) (pid : Pid) :
    s.jsonUp name pid ↔ s.statusFn name = some (.running pid) := by
  have hsteady := Steady.of_reached hreached
  have hgoing : s.main.failing = false := by
    cases hmain : s.main with
    | results _ _ fatal _ =>
      have hbooting := hsteady.orderly.booting.started (by rw [hmain]; rfl)
      rw [hstarted] at hbooting
      cases hbooting
    | aborted =>
      have haborted := hsteady.aborted hmain
      rw [hstarted] at haborted
      cases haborted
    | _ => rfl
  obtain ⟨i, hlookup⟩ := Option.isSome_iff_exists.mp hknown
  rw [s.jsonUp_iff, State.statusFn_running_iff hlookup, hsteady.agree hgoing, Core.shown, hlookup,
    Option.elim_some]

/-- After the boot of `web` both views show its process. -/
theorem web_shown_after_boot : ∃ s,
    run (State.steadyStatus "web") (plainInput [webProcess]) (bootActions 100) = some s ∧
      s.started = true ∧ s.statusFn "web" = some (.running 100) ∧ s.jsonUp "web" 100 := by
  have hrun : (run (State.steadyStatus "web") (plainInput [webProcess]) (bootActions 100)).map
      (fun s => decide (s.started = true ∧ (s.core.services.lookup "web").isSome = true ∧
        s.statusFn "web" = some (.running 100))) = some true := by
    decide +kernel
  obtain ⟨s, hs, hstarted, hknown, htext⟩ := exists_of_decide hrun
  obtain ⟨start, hboots, hruns⟩ := reached_of_run hs
  exact ⟨s, hs, hstarted, htext,
    (status_views_agree ⟨start, .inl hboots, hruns⟩ hstarted hknown 100).mpr htext⟩

/-- While a failed `web` waits for its restart, the JSON view still reports it
as up with the pid of the process that is gone. -/
theorem failed_service_still_up_in_json : ∃ s, Reached Transition.anyStep s ∧
    s.started = true ∧ s.unlocked = true ∧ s.core.services.lookup "web" = some 0 ∧
    s.core.children.lookup 100 = none ∧ s.jsonUp "web" 100 ∧ s.statusFn "web" = some .stopped := by
  have hrun : (run (fun _ _ => true) (plainInput [restartingWeb])
      (bootActions 100 ++ [.childExit 100 (.exited 1), .main (.child 100),
        .main (.times ⟨0, 5⟩)])).map
      (fun s => decide ((s.started = true ∧ s.unlocked = true ∧
        s.core.services.lookup "web" = some 0 ∧ s.core.children.lookup 100 = none) ∧
        s.core.metrics.shown "web" = (true, 100) ∧ s.statusFn "web" = some .stopped)) =
      some true := by
    decide +kernel
  obtain ⟨s, hs, ⟨hstarted, hunlocked, hlookup, hgone⟩, hshown, htext⟩ := exists_of_decide hrun
  exact ⟨s, (reached_of_run hs).weaken fun _ _ _ => trivial, hstarted, hunlocked, hlookup, hgone,
    (s.jsonUp_iff "web" 100).mpr hshown, htext⟩

end Gopherd.Daemon
