import Gopherd.Daemon.Due

/-!
What a stop is worth.
-/

namespace Gopherd.Daemon

open Go

structure AtRest (name : String) (s : State) : Prop where
  due : ∀ i ∈ s.due, s.core.name i ≠ name
  layers : name ∉ s.main.layersDue
  told : ∀ pid i, s.core.pidMap.lookup pid = some i → s.core.name i = name →
    (s.core.heap i).stopped = true

/-- The step is a control start or restart, a reload or a tick that asks for
the service. -/
def State.asks (s : State) (name : String) : Action → Bool
  | .run (.startFn asked _) _ => asked = name
  | .run (.restartFn root _) _ =>
    match s.core.services.lookup root with
    | some i => (i :: s.restartDeps i root).any (fun j => s.core.name j = name)
    | none => false
  | .reload _ =>
    match s.reload with
    | .locking origin cfg startOrder =>
      let after := s.reloadSection origin cfg startOrder
      after.reload.due.any (fun i => after.core.name i = name)
    | _ => false
  | .tick i => s.core.name i = name
  | _ => false

def State.checkRestarts (s : State) (name : String) : Action → Bool
  | .run (.checkFailure check) _ =>
    match s.core.services.lookup name with
    | some i => (s.core.heap i).onCheckFailure.lookup check = some .restart
    | none => false
  | _ => false

def State.leavesDown (s : State) (name : String) (action : Action) : Bool :=
  !s.asks name action && !s.checkRestarts name action

def State.forks (s : State) (name : String) : Action → Bool
  | .fork (.child _) => s.forking.any (fun fork => s.core.name fork.1 = name)
  | .main (.child _) => s.main.starting.any (fun i => s.core.name i = name)
  | _ => false

/-- The mark that a stop leaves on an object stays until its next process. -/
theorem kept_stopped (i : InstId) : Kept fun j svc => j = i → svc.stopped = true where
  stop h heq := by
    unfold Service.stop
    split
    · rfl
    · exact h heq
  markExited h := h
  backoff h := h
  retire h heq := by
    unfold retire Service.stop
    split
    · rfl
    · exact h heq
  keepRunning h _ _ := h

namespace AtRest

variable {name : String} {s s' : State} {action : Action}

theorem starting_due (hstarting : s.main.starting = some i) : i ∈ s.due := by
  refine State.due_of_main ?_
  cases hmain : s.main <;> rw [hmain] at hstarting <;> cases hstarting
  exact List.mem_singleton_self i

theorem no_fork (h : AtRest name s) (action : Action) : s.forks name action = false := by
  unfold State.forks
  split
  · cases hforking : s.forking with
    | none => rfl
    | some fork => simpa using h.due fork.1 (State.due_of_forking hforking List.mem_cons_self)
  · cases hstarting : s.main.starting with
    | none => rfl
    | some i => simpa using h.due i (starting_due hstarting)
  · rfl

/-- What enters while the service is left down belongs to other services. -/
theorem enters_other (hknown : Known s) (hlayers : name ∉ s.main.layersDue)
    (hexit : ∀ times pid status i, action = .main (.times times) → s.main = .reaped pid status →
      s.core.pidMap.lookup pid = some i → s.core.name i = name → (s.core.heap i).stopped = true)
    (hleft : s.leavesDown name action = true) (hstep : s.step action = some s')
    (henters : Enters s action s' i) : s'.core.name i ≠ name := by
  simp only [State.leavesDown, Bool.and_eq_true, Bool.not_eq_true'] at hleft
  obtain ⟨hasks, hchecks⟩ := hleft
  cases henters with
  | startFn hlookup =>
    obtain ⟨hname, hlt⟩ := hknown.named _ i hlookup
    rw [hknown.step_name hstep hlt, hname]
    simpa [State.asks] using hasks
  | restartFn hlookup hi =>
    have hlt : i < s.core.nextInst := by
      rcases List.mem_cons.mp hi with rfl | hdep
      · exact hknown.current_lt hlookup
      · exact hknown.restartDeps_lt hdep
    rw [hknown.step_name hstep hlt]
    simp only [State.asks, hlookup, List.any_eq_false, decide_eq_true_eq] at hasks
    exact hasks i hi
  | @check check choice asked _ _ hlookup haction =>
    obtain ⟨hname, hlt⟩ := hknown.named _ i hlookup
    rw [hknown.step_name hstep hlt, hname]
    rintro rfl
    simp [State.checkRestarts, hlookup, haction] at hchecks
  | tick hscheduled =>
    rw [hknown.step_name hstep (hknown.schedulers i hscheduled)]
    simpa [State.asks] using hasks
  | reload hlocking hi =>
    simp only [State.asks, hlocking, List.any_eq_false, decide_eq_true_eq] at hasks
    exact hasks i hi
  | layer hname hlookup =>
    obtain ⟨hown, hlt⟩ := hknown.named _ i hlookup
    rw [hknown.step_name hstep hlt, hown]
    rintro rfl
    exact hlayers hname
  | exit hmain hmap haction =>
    rw [hknown.step_name hstep (hknown.mapped _ i hmap)]
    intro hname
    have hstopped := hexit _ _ _ i rfl hmain hmap hname
    simp [exitAction, hstopped] at haction

section

variable (hknown : Known s) (hdue : ∀ i ∈ s.due, s.core.name i ≠ name)
  (hstep : s.step action = some s') {i : InstId}

include hknown hdue hstep

theorem mapped_before (hmap : s'.core.pidMap.lookup pid = some i) (hname : s'.core.name i = name) :
    s.core.pidMap.lookup pid = some i ∧ s.core.name i = name := by
  rcases hknown.step_pidMap hstep hmap with hold | ⟨caller, hforking⟩
  · exact ⟨hold, (hknown.step_name hstep (hknown.mapped pid i hold)).symm.trans hname⟩
  · have hforked := State.due_of_forking hforking List.mem_cons_self
    rw [hknown.step_name hstep (hknown.due i hforked)] at hname
    exact absurd hname (hdue i hforked)

omit hknown in
theorem stopped_kept (hlt : i < s.core.nextInst) (hname : s.core.name i = name)
    (hstopped : (s.core.heap i).stopped = true) : (s'.core.heap i).stopped = true := by
  refine (kept_stopped i).step hstep (fun j hj => hj ▸ hstopped) ?_ ?_ i rfl
  · rintro j _ _ hstarts rfl
    cases hstarts with
    | fork hforking =>
      exact absurd hname (hdue j (State.due_of_forking hforking List.mem_cons_self))
    | oneshot hstarting => exact absurd hname (hdue j (starting_due hstarting))
  · rintro j p svc hle - rfl
    exact absurd hlt (Nat.not_lt.mpr hle)

end

theorem step (h : AtRest name s) (hknown : Known s) (hleft : s.leavesDown name action = true)
    (hstep : s.step action = some s') : AtRest name s' := by
  refine ⟨?_, fun hname => h.layers (step_layersDue hstep hname), ?_⟩
  · intro i hi
    rcases step_due hstep hi with hold | hnew
    · rw [hknown.step_name hstep (hknown.due i hold)]
      exact h.due i hold
    · exact enters_other hknown h.layers (fun _ pid _ i _ _ => h.told pid i) hleft hstep hnew
  · intro pid i hmap hname
    obtain ⟨hold, hname⟩ := mapped_before hknown h.due hstep hmap hname
    exact stopped_kept h.due hstep (hknown.mapped pid i hold) hname (h.told pid i hold hname)

theorem of_runs (h : AtRest name s) (hknown : Known s)
    (hrun : Transition.Runs State.step (fun s action => s.leavesDown name action = true) s t) :
    Known t ∧ AtRest name t := by
  induction hrun with
  | refl => exact ⟨hknown, h⟩
  | tail action _ hleft hstep ih => exact ⟨ih.1.step hstep, ih.2.step ih.1 hleft hstep⟩

end AtRest

inductive Stops (s : State) (name : String) (i : InstId) : Action → Prop
  | already {wait choice} (hidle : s.core.isRunning i = false) :
      Stops s name i (.run (.stopFnFound i wait) choice)
  | sent {done choice} : Stops s name i (.run (.stopFnSignal i done false) choice)
  | waited {done} (hidle : s.core.isRunning i = false) :
      Stops s name i (.run (.stopFnWait i done) .go)
  | cascaded {pid status times j} (hmain : s.main = .reaped pid status)
      (hmap : s.core.pidMap.lookup pid = some j) (hflag : s.shuttingDown = false)
      (hfails : exitCascades (s.core.heap j) (effectiveCode (s.core.heap j) status) = true)
      (hcurrent : s.core.services.lookup name = some i)
      (hrequires : s.core.name j ∈ (s.core.heap i).requires) (hother : s.core.name j ≠ name) :
      Stops s name i (.main (.times times))

/-- No start of the service is under way, and each of its processes has been
told to stop, or is that of the object `i` that is being told. -/
def State.settled (s : State) (name : String) (i : InstId) : Bool :=
  s.due.all (fun j => s.core.name j ≠ name) && name ∉ s.main.layersDue &&
    s.core.pidMap.entries.all fun entry =>
      s.core.name entry.2 ≠ name || (s.core.heap entry.2).stopped ||
        (entry.2 = i && s.core.isRunning i)

theorem Service.stop_requires (svc : Service) : svc.stop.requires = svc.requires := by
  unfold Service.stop
  split <;> rfl

theorem Quiet.cascadeOne (failed : String) (c : Core) (entry : String × InstId) :
    Quiet c (if failed ∈ (c.heap entry.2).requires then c.stop entry.2 else c) := by
  split
  · exact .stop c _
  · exact .refl c

/-- The cascade marks every running service that requires the failed one. -/
theorem Core.cascade_marks {c : Core} {failed name : String}
    (hcurrent : c.services.lookup name = some i) (hrequires : failed ∈ (c.heap i).requires)
    (hrunning : c.isRunning i = true) : ((c.cascade failed).heap i).stopped = true := by
  have hentry := GoMap.mem_entries.mpr hcurrent
  unfold Core.cascade
  generalize c.services.entries = entries at hentry
  clear hcurrent
  induction entries generalizing c with
  | nil => cases hentry
  | cons entry rest ih =>
    rw [List.foldl_cons]
    rcases List.mem_cons.mp hentry with rfl | hrest
    · -- the object is told to stop here, and nothing takes the mark back
      have hmarked : ((c.stop i).heap i).stopped = true := by
        have hrunning : (c.heap i).running = true := hrunning
        simp [Core.stop, Core.modify, Service.stop, hrunning]
      rw [if_pos hrequires]
      exact (kept_stopped i).of_quiet (.foldl _ (.cascadeOne failed) rest _)
        (fun j hj => hj ▸ hmarked) i rfl
    · have hquiet := Quiet.cascadeOne failed c entry
      refine ih ?_ ((hquiet.running i).trans hrunning) hrest
      rcases hquiet.heap i with hsame | hstopped
      · rw [hsame]
        exact hrequires
      · rw [hstopped, Service.stop_requires]
        exact hrequires

theorem countExit_heap (c : Core) (i : InstId) (code : Int) (suppressed : Bool) :
    (c.countExit i code suppressed).heap = c.heap := by
  cases suppressed <;> rfl

theorem takeAction_heap (hij : i ≠ j) (c : Core) (code : Int) (times : RunTimes)
    (action : ExitAction) : (c.takeAction j code times action).1.heap i = c.heap i := by
  cases action with
  | restart => simp [Core.takeAction, Core.serviceRestarted, Core.modify, hij]
  | _ => rfl

theorem handleExit_marks {c : Core} (hij : i ≠ j)
    (hfails : exitCascades (c.heap j) (effectiveCode (c.heap j) status) = true)
    (hcurrent : c.services.lookup name = some i) (hrequires : c.name j ∈ (c.heap i).requires)
    (hrunning : c.isRunning i = true) :
    ((c.handleExit false j pid status times).1.heap i).stopped = true := by
  have hsame : (c.recordExit j pid).heap i = c.heap i := by
    simp [Core.recordExit, Core.markExited, Core.modify, hij]
  have hfails' : exitCascades (c.heap j).markExited
      (effectiveCode (c.heap j).markExited status) = true := hfails
  have hmarked : (((c.recordExit j pid).cascade (c.name j)).heap i).stopped = true := by
    have hrunning : (c.recordExit j pid).isRunning i = true := by
      unfold Core.isRunning
      rw [hsame]
      exact hrunning
    exact Core.cascade_marks hcurrent (hsame ▸ hrequires) hrunning
  unfold Core.handleExit
  dsimp only
  rw [if_neg Bool.false_ne_true, c.recordExit_heap]
  unfold Core.stopDependents
  rw [if_pos hfails', takeAction_heap hij, countExit_heap]
  exact hmarked

namespace Stops

variable {s s' : State} {name : String} {i : InstId} {action : Action}

theorem leavesDown (hstops : Stops s name i action) : s.leavesDown name action = true := by
  cases hstops <;> rfl

/-- A process of the object `i` that runs when the stop is answered has been
told to stop. -/
theorem marks (hstops : Stops s name i action) (hknown : Known s)
    (hstep : s.step action = some s') (hrunning : s.core.isRunning i = true) :
    (s'.core.heap i).stopped = true := by
  cases hstops with
  | already hidle => rw [hidle] at hrunning; cases hrunning
  | waited hidle => rw [hidle] at hrunning; cases hrunning
  | sent =>
    obtain ⟨-, htask⟩ := step_run hstep
    cases htask
    have hrunning : (s.core.heap i).running = true := hrunning
    simp [State.answer, State.setCore, Core.stop, Core.modify, Service.stop, hrunning]
  | @cascaded pid status times j hmain hmap hflag hfails hcurrent hrequires hother =>
    obtain ⟨times', htimes, -, rfl⟩ := step_reaped hmain hstep
    have hij : i ≠ j := by
      rintro rfl
      exact hother (hknown.named name i hcurrent).1
    simp only [State.stepReaped, hmap, hflag]
    exact handleExit_marks hij hfails hcurrent hrequires hrunning

theorem atRest (hstops : Stops s name i action) (hknown : Known s)
    (hsettled : s.settled name i = true) (hstep : s.step action = some s') : AtRest name s' := by
  simp only [State.settled, Bool.and_eq_true, List.all_eq_true, decide_eq_true_eq] at hsettled
  obtain ⟨⟨hdue, hlayers⟩, htold⟩ := hsettled
  have htold : ∀ pid k, s.core.pidMap.lookup pid = some k → s.core.name k = name →
      (s.core.heap k).stopped = true ∨ (k = i ∧ s.core.isRunning i = true) := by
    intro pid k hmap hname
    simpa [hname] using htold (pid, k) (GoMap.mem_entries.mpr hmap)
  refine ⟨?_, fun hname => hlayers (step_layersDue hstep hname), ?_⟩
  · intro j hj
    rcases step_due hstep hj with hold | hnew
    · rw [hknown.step_name hstep (hknown.due j hold)]
      exact hdue j hold
    · refine AtRest.enters_other hknown hlayers ?_ hstops.leavesDown hstep hnew
      rintro times pid status k rfl hmain hmap hname
      -- the exit that is handled is that of the failed service
      cases hstops with
      | cascaded hreaped hfailed _ _ _ _ hother =>
        cases hmain.symm.trans hreaped
        cases hmap.symm.trans hfailed
        exact absurd hname hother
  · intro pid k hmap hname
    obtain ⟨hold, hname⟩ := AtRest.mapped_before hknown hdue hstep hmap hname
    rcases htold pid k hold hname with hstopped | ⟨rfl, hrunning⟩
    · exact AtRest.stopped_kept hdue hstep (hknown.mapped pid k hold) hname hstopped
    · exact hstops.marks hknown hstep hrunning

end Stops

/-- A service that has been stopped while no start of it was under way, by a
control stop that was answered without error or by the failure of a service it
requires, gets no new process in any run in which nobody asks for it and no
failing check restarts it. -/
theorem stopped_service_stays_down {s s₁ t : State} {name : String} {i : InstId}
    {action : Action} (hreached : Reached Transition.anyStep s)
    (hstops : Stops s name i action) (hsettled : s.settled name i = true)
    (hstep : s.step action = some s₁)
    (hrun : Transition.Runs State.step (fun s action => s.leavesDown name action = true) s₁ t)
    (next : Action) : t.forks name next = false := by
  have hknown := Known.of_reached hreached
  have hrest := hstops.atRest hknown hsettled hstep
  exact (hrest.of_runs (hknown.step hstep) hrun).2.no_fork next

/-- Nothing is under way for a booted `web`, so a stop keeps it down. -/
theorem web_stop_lasts : ∃ s s₁,
    run (fun _ _ => true) (plainInput [webProcess])
      (bootActions 100 ++ stopRequestActions "web" 0) = some s ∧
    s.step (.run (.stopFnSignal 0 (some 0) false) .go) = some s₁ ∧
    ∀ t, Transition.Runs State.step (fun s action => s.leavesDown "web" action = true) s₁ t →
      ∀ next, t.forks "web" next = false := by
  have hrun : (run (fun _ _ => true) (plainInput [webProcess])
      (bootActions 100 ++ stopRequestActions "web" 0)).map (fun s =>
        decide (s.settled "web" 0 = true ∧
          (s.step (.run (.stopFnSignal 0 (some 0) false) .go)).isSome = true)) = some true := by
    decide +kernel
  obtain ⟨s, hs, hsettled, hsome⟩ := exists_of_decide hrun
  obtain ⟨s₁, hstep⟩ := Option.isSome_iff_exists.mp hsome
  refine ⟨s, s₁, hs, hstep, fun t hleft => ?_⟩
  exact stopped_service_stays_down ((reached_of_run hs).weaken fun _ _ _ => trivial) .sent
    hsettled hstep hleft

def stopInBackoffActions : List Action :=
  bootActions 100 ++
    [.childExit 100 (.exited 1), .main (.child 100), .main (.times ⟨0, 5⟩), .main .go,
      .run (.sender ⟨0, none, 5⟩) .go, .dispatch, .run (.handler ⟨0, none, 5⟩) .go,
      .request (.stop "web" false), .run (.stopFn "web" false) .go,
      .run (.stopFnFound 0 false) .go]

def checkAfterStopActions : List Action :=
  [.childExit 100 (.exited 0), .main (.child 100), .main (.times ⟨0, 0⟩), .checkFails "alive",
    .run (.checkFailure "alive") (.order ["web"]), .run (.sender ⟨0, none, 0⟩) .go, .dispatch,
    .run (.handler ⟨0, none, 0⟩) .go]

/-- Without anybody asking for it, a stopped `web` gets a new process both
from a restart that was waiting out its backoff and from a failing check. -/
theorem stopped_service_comes_back :
    (∃ s t, run (fun _ _ => true) (plainInput [restartingWeb]) stopInBackoffActions = some s ∧
      s.replies.head? = some (.alreadyStopped "web") ∧
      Transition.exec State.step (fun s action => !s.asks "web" action) s
        ([.run (.handlerSleep ⟨0, none, 5⟩) .go] ++ startActions 0 .request 101) = some t ∧
      t.core.children.lookup 101 = some ⟨some 0, none⟩ ∧ t.core.name 0 = "web") ∧
    (∃ s t, run (fun _ _ => true) checkedInput (bootActions 100 ++ stopRequestActions "web" 0 ++
        [.run (.stopFnSignal 0 (some 0) false) .go]) = some s ∧
      s.replies.head? = some (.stopSignalSent "web") ∧
      Transition.exec State.step (fun s action => !s.asks "web" action) s
        (checkAfterStopActions ++ startActions 0 .request 101) = some t ∧
      t.core.children.lookup 101 = some ⟨some 0, none⟩ ∧ t.core.name 0 = "web") := by
  have hbackoff : (run (fun _ _ => true) (plainInput [restartingWeb]) stopInBackoffActions).bind
      (fun s => (Transition.exec State.step (fun s action => !s.asks "web" action) s
        ([.run (.handlerSleep ⟨0, none, 5⟩) .go] ++ startActions 0 .request 101)).map fun t =>
          decide (s.replies.head? = some (.alreadyStopped "web") ∧
            t.core.children.lookup 101 = some ⟨some 0, none⟩ ∧ t.core.name 0 = "web")) =
      some true := by
    decide +kernel
  have hcheck : (run (fun _ _ => true) checkedInput (bootActions 100 ++
        stopRequestActions "web" 0 ++ [.run (.stopFnSignal 0 (some 0) false) .go])).bind
      (fun s => (Transition.exec State.step (fun s action => !s.asks "web" action) s
        (checkAfterStopActions ++ startActions 0 .request 101)).map fun t =>
          decide (s.replies.head? = some (.stopSignalSent "web") ∧
            t.core.children.lookup 101 = some ⟨some 0, none⟩ ∧ t.core.name 0 = "web")) =
      some true := by
    decide +kernel
  constructor
  · obtain ⟨s, hs, hrest⟩ := Option.bind_eq_some_iff.mp hbackoff
    obtain ⟨t, ht, hreply, hchild, hname⟩ := exists_of_decide hrest
    exact ⟨s, t, hs, hreply, ht, hchild, hname⟩
  · obtain ⟨s, hs, hrest⟩ := Option.bind_eq_some_iff.mp hcheck
    obtain ⟨t, ht, hreply, hchild, hname⟩ := exists_of_decide hrest
    exact ⟨s, t, hs, hreply, ht, hchild, hname⟩

end Gopherd.Daemon
