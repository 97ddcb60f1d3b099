import Gopherd.Daemon.Objects

/-!
The starts under way: the objects that the goroutines, the restart channel, a
reload and the boot go on to start by themselves.
-/

namespace Gopherd.Daemon

open Go

/-- What the caller of a start goes on to start after it. -/
def GateCaller.later : GateCaller → List InstId
  | .restartRoot r => r.deps
  | .restartDep _ rest => rest
  | .boot | .control _ _ => []

def StartCaller.later : StartCaller → List InstId
  | .gate caller => caller.later
  | .control | .request | .reload | .tick => []

def Task.due : Task → List InstId
  | .startFnFound i _ _ | .tick i => [i]
  | .gate i caller => i :: caller.later
  | .start i _ caller => i :: caller.later
  | .notify _ caller _ => caller.later
  | .restartRun svc deps _ => svc :: deps
  | .restartStop r _ _ | .restartWait r _ _ => r.svc :: r.deps
  | .sender req | .handler req | .handlerSleep req => [req.svc]
  | _ => []

def ReloadPc.due : ReloadPc → List InstId
  | .waiting _ _ toStart | .starting _ toStart | .startWait _ toStart => toStart
  | .idle | .loading _ | .locking .. | .finishing _ => []

def MainPc.due : MainPc → List InstId
  | .oneshotStart i _ _ _ => [i]
  | .enqueue req => [req.svc]
  | _ => []

def MainPc.layersDue : MainPc → List String
  | .nextLayer rest => rest.flatten
  | .oneshots todo _ pos | .oneshotStart _ todo _ pos => todo ++ (pos.layer ++ pos.rest.flatten)
  | .results _ _ _ pos => pos.layer ++ pos.rest.flatten
  | .spawn todo pos => todo ++ pos.rest.flatten
  | .join pos => pos.rest.flatten
  | _ => []

def State.due (s : State) : List InstId :=
  s.tasks.flatMap Task.due ++ (s.restartCh.map RestartReq.svc ++
    (s.forking.toList.flatMap (fun fork => fork.1 :: fork.2.later) ++ (s.reload.due ++ s.main.due)))

namespace State

variable {s : State} {i : InstId}

theorem mem_due :
    i ∈ s.due ↔ (∃ t ∈ s.tasks, i ∈ t.due) ∨ (∃ req ∈ s.restartCh, req.svc = i) ∨
      (∃ j caller, s.forking = some (j, caller) ∧ i ∈ j :: caller.later) ∨
      i ∈ s.reload.due ∨ i ∈ s.main.due := by
  simp [State.due]

theorem due_of_task (hmem : t ∈ s.tasks) (hi : i ∈ t.due) : i ∈ s.due :=
  mem_due.mpr (.inl ⟨t, hmem, hi⟩)

theorem due_of_request (hmem : req ∈ s.restartCh) : req.svc ∈ s.due :=
  mem_due.mpr (.inr (.inl ⟨req, hmem, rfl⟩))

theorem due_of_forking (hforking : s.forking = some (j, caller)) (hi : i ∈ j :: caller.later) :
    i ∈ s.due :=
  mem_due.mpr (.inr (.inr (.inl ⟨j, caller, hforking, hi⟩)))

theorem due_of_reload (hi : i ∈ s.reload.due) : i ∈ s.due :=
  mem_due.mpr (.inr (.inr (.inr (.inl hi))))

theorem due_of_main (hi : i ∈ s.main.due) : i ∈ s.due :=
  mem_due.mpr (.inr (.inr (.inr (.inr hi))))

end State

inductive Enters (s : State) : Action → State → InstId → Prop
  | startFn {name wait choice s' i} (h : s.core.services.lookup name = some i) :
      Enters s (.run (.startFn name wait) choice) s' i
  | restartFn {name wait choice root s' i} (h : s.core.services.lookup name = some root)
      (hi : i ∈ root :: s.restartDeps root name) :
      Enters s (.run (.restartFn name wait) choice) s' i
  | check {check choice name s' i} (h : s.core.services.lookup name = some i)
      (haction : (s.core.heap i).onCheckFailure.lookup check = some .restart) :
      Enters s (.run (.checkFailure check) choice) s' i
  | tick {s' i} (h : i ∈ s.schedulers) : Enters s (.tick i) s' i
  | reload {choice origin cfg startOrder i} (hlocking : s.reload = .locking origin cfg startOrder)
      (hi : i ∈ (s.reloadSection origin cfg startOrder).reload.due) :
      Enters s (.reload choice) (s.reloadSection origin cfg startOrder) i
  | layer {choice name s' i} (hname : name ∈ s.main.layersDue)
      (h : s.core.services.lookup name = some i) : Enters s (.main choice) s' i
  | exit {times pid status s' i} (hmain : s.main = .reaped pid status)
      (hmap : s.core.pidMap.lookup pid = some i)
      (haction : exitAction (s.core.heap i) (effectiveCode (s.core.heap i) status) = .restart) :
      Enters s (.main (.times times)) s' i

theorem depsNext_due (r : Restart) (deps : List InstId) : (depsNext r deps).due = deps := by
  cases deps <;> rfl

theorem GateNext.due (h : GateNext i caller result t) (hj : j ∈ t.due) : j ∈ caller.later := by
  cases h <;> first | (rw [depsNext_due] at hj; exact hj) | cases hj

theorem StartNext.due (h : StartNext i caller result t) (hj : j ∈ t.due) : j ∈ caller.later := by
  cases h with
  | notify => exact hj
  | gate h => exact h.due hj
  | _ => cases hj

theorem ShutdownNext.due (h : ShutdownNext caller t) : i ∉ t.due := by
  cases h <;> exact List.not_mem_nil

/-- A goroutine hands on the starts it has to make, apart from those that
enter with its step. -/
theorem Follows.due (h : Follows s t t') (hi : i ∈ t'.due) :
    i ∈ t.due ∨ Enters s (.run t choice) s' i := by
  cases h with
  | startFn hlookup =>
    obtain rfl := List.mem_singleton.mp hi
    exact .inr (.startFn hlookup)
  | restartOrdered hlookup => exact .inr (.restartFn hlookup hi)
  | restartPlain hlookup =>
    obtain rfl := List.mem_singleton.mp hi
    exact .inr (.restartFn hlookup List.mem_cons_self)
  | checkRestart _ hlookup haction =>
    obtain rfl := List.mem_singleton.mp hi
    exact .inr (.check hlookup haction)
  | gateFailed h | startSkipped h | startFailed h | startLate _ h | startReplaced _ h
  | startRunning _ h => exact .inl (List.mem_cons_of_mem _ (h.due hi))
  | notify h => exact .inl (h.due hi)
  | notifyFailed h => exact .inl (h.due hi)
  | shutdown h => exact absurd hi h.due
  | _ => first | exact .inl hi | cases hi

theorem Task.unobserved_due (t : Task) : t.unobserved.due = t.due := by
  have hgate : ∀ caller : GateCaller, caller.unobserved.later = caller.later := by
    intro caller
    cases caller <;> rfl
  cases t with
  | gate i caller => simp [Task.unobserved, Task.due, hgate]
  | notify i caller result => simp [Task.unobserved, Task.due, hgate]
  | start i pc caller => cases caller <;> simp [Task.unobserved, Task.due, StartCaller.later, hgate]
  | shutdown code caller => cases caller <;> rfl
  | _ => rfl

section

variable {s s' : State} {action : Action} {i : InstId}

theorem NewTask.due (h : NewTask s action t) (hi : i ∈ t.due) :
    i ∈ s.due ∨ Enters s action s' i := by
  cases h with
  | follows hmem h =>
    rcases h.due hi with hold | hnew
    · exact .inl (State.due_of_task hmem hold)
    · exact .inr hnew
  | unobserved hmem => exact .inl (State.due_of_task hmem (Task.unobserved_due _ ▸ hi))
  | forked hforking h =>
    exact .inl (State.due_of_forking hforking (List.mem_cons_of_mem _ (h.due hi)))
  | forkFailed hforking h =>
    exact .inl (State.due_of_forking hforking (List.mem_cons_of_mem _ (h.due hi)))
  | reload hstarting =>
    obtain rfl := List.mem_singleton.mp hi
    exact .inl (State.due_of_reload (by rw [hstarting]; exact List.mem_cons_self))
  | stopped _ _ h => exact absurd hi h.due
  | main h =>
    cases h with
    | gate hmain hlookup =>
      obtain rfl := List.mem_singleton.mp hi
      refine .inr (.layer ?_ hlookup)
      rw [hmain]
      exact List.mem_cons_self
    | sender hmain =>
      exact .inl (State.due_of_main (by rw [hmain]; exact hi))
    | shutdown => cases hi
  | dispatch hqueue =>
    obtain rfl := List.mem_singleton.mp hi
    exact .inl (State.due_of_request (by rw [hqueue]; exact List.mem_cons_self))
  | arrives h =>
    cases h with
    | @request request => cases request <;> cases hi
    | tick hscheduled =>
      obtain rfl := List.mem_singleton.mp hi
      exact .inr (.tick hscheduled)
    | _ => cases hi

theorem ReloadStep.due (h : ReloadStep s action s') (hi : i ∈ s'.reload.due) :
    i ∈ s.due ∨ Enters s action s' i := by
  cases h with
  | same hsame => exact .inl (State.due_of_reload (hsame ▸ hi))
  | started hbefore hafter =>
    rw [hafter] at hi
    exact .inl (State.due_of_reload (by rw [hbefore]; exact hi))
  | begun _ _ hafter => rw [hafter] at hi; cases hi
  | moved hframe =>
    have hmove := hframe.move
    refine .inl (State.due_of_reload ?_)
    generalize s.reload = before, s'.reload = after at hmove hi
    cases hmove with
    | awaited => exact hi
    | start => exact List.mem_cons_of_mem _ hi
    | _ => cases hi
  | reloaded hlocking => exact .inr (.reload hlocking hi)

/-- An exit that is followed by a restart request. -/
theorem handleExit_restart {c : Core}
    (hnext : (c.handleExit shuttingDown i pid status times).2 = .restart req) :
    req.svc = i ∧ exitAction (c.heap i) (effectiveCode (c.heap i) status) = .restart := by
  cases shuttingDown with
  | true =>
    simp only [Core.handleExit, if_true] at hnext
    split at hnext <;> cases hnext
  | false =>
    obtain ⟨done, hafter⟩ := c.handleExit_after i pid status times
    rw [hafter] at hnext
    generalize exitAction _ _ = taken at hnext ⊢
    cases taken with
    | restart =>
      cases hnext
      exact ⟨rfl, rfl⟩
    | _ => cases hnext

theorem MainStep.due (h : MainStep s action s') (hi : i ∈ s'.main.due) :
    i ∈ s.due ∨ Enters s action s' i := by
  cases h with
  | same hsame => exact .inl (State.due_of_main (hsame ▸ hi))
  | aborted hafter => rw [hafter] at hi; cases hi
  | panicked hafter => rw [hafter] at hi; cases hi
  | moved hframe =>
    have hmove := hframe.move
    generalize hbefore : s.main = before at hmove
    generalize s'.main = after at hmove hi
    cases hmove with
    | oneshot hlookup =>
      obtain rfl := List.mem_singleton.mp hi
      refine .inr (.layer ?_ hlookup)
      rw [hbefore]
      exact List.mem_cons_self
    | _ => cases hi
  | event hevent =>
    cases hevent with
    | exited hmain =>
      unfold State.stepReaped at hi
      split at hi
      · cases hi
      · next j hmap =>
          change i ∈ (s.core.handleExit s.shuttingDown j _ _ _).2.next.due at hi
          generalize hnext : (s.core.handleExit s.shuttingDown j _ _ _).2 = after at hi
          cases after with
          | restart req =>
            obtain ⟨hsvc, haction⟩ := handleExit_restart hnext
            obtain rfl := (List.mem_singleton.mp hi).trans hsvc
            exact .inr (.exit hmain hmap haction)
          | _ => cases hi
    | _ => cases hi

/-- The starts under way are old ones or enter with the step. -/
theorem step_due (hstep : s.step action = some s') (hi : i ∈ s'.due) :
    i ∈ s.due ∨ Enters s action s' i := by
  have hframe := step_frame hstep
  rcases State.mem_due.mp hi with ⟨t, ht, hi⟩ | ⟨req, hreq, rfl⟩ | ⟨j, caller, hforking, hi⟩ |
    hi | hi
  · rcases step_tasks hstep ht with hold | hnew
    · exact .inl (State.due_of_task hold hi)
    · exact hnew.due hi
  · left
    rcases hframe.restartCh with hsame | ⟨sent, hsender, hsent⟩ | ⟨first, hqueue⟩
    · exact State.due_of_request (hsame ▸ hreq)
    · rw [hsent] at hreq
      rcases List.mem_append.mp hreq with hold | hnew
      · exact State.due_of_request hold
      · obtain rfl := List.mem_singleton.mp hnew
        exact State.due_of_task hsender List.mem_cons_self
    · exact State.due_of_request (by rw [hqueue]; exact List.mem_cons_of_mem _ hreq)
  · left
    cases hframe.forking with
    | same hsame => exact State.due_of_forking (hsame ▸ hforking) hi
    | locked hmem _ _ _ _ hnew =>
      cases hnew.symm.trans hforking
      exact State.due_of_task hmem hi
    | released hnone => cases hnone.symm.trans hforking
  · exact hframe.reload.due hi
  · exact hframe.main.due hi

/-- The boot comes to no service twice. -/
theorem step_layersDue (hstep : s.step action = some s') (hname : name ∈ s'.main.layersDue) :
    name ∈ s.main.layersDue := by
  cases step_main hstep with
  | same hsame => exact hsame ▸ hname
  | aborted hafter => rw [hafter] at hname; cases hname
  | panicked hafter => rw [hafter] at hname; cases hname
  | moved hframe =>
    have hmove := hframe.move
    generalize s.main = before, s'.main = after at hmove hname
    cases hmove with
    | layer => simpa [MainPc.layersDue] using hname
    | skip | oneshot | spawn => exact List.mem_cons_of_mem _ hname
    | _ => first | exact hname | cases hname
  | event hevent =>
    cases hevent with
    | oneshotStarted hmain | oneshotCollected hmain | oneshotTimedOut hmain
    | oneshotExited hmain => rw [hmain]; exact hname
    | reaped => cases hname
    | @exited pid status times =>
      have hreap := stepReaped_afterReap s pid status times
      generalize (s.stepReaped pid status times).main = after at hreap hname
      cases after <;> first | cases hname | cases hreap

end

namespace Configured

variable {s s' : State} {action : Action}

theorem nextInst_le (h : Configured s) (hstep : s.step action = some s') :
    s.core.nextInst ≤ s'.core.nextInst := by
  cases step_names hstep with
  | same _ hnext => exact hnext.ge
  | reloaded hlocking =>
    obtain ⟨dones, hreloaded⟩ := h.reloaded hlocking
    exact hreloaded.nextInst

theorem step_name (h : Configured s) (hstep : s.step action = some s') (hi : i < s.core.nextInst) :
    s'.core.name i = s.core.name i := by
  cases step_names hstep with
  | same _ _ hname => exact hname i
  | reloaded hlocking =>
    obtain ⟨dones, hreloaded⟩ := h.reloaded hlocking
    exact hreloaded.name i hi

/-- Only `startService` adds to `pidMap`. -/
theorem step_pidMap (h : Configured s) (hstep : s.step action = some s')
    (hmap : s'.core.pidMap.lookup pid = some i) :
    s.core.pidMap.lookup pid = some i ∨ ∃ caller, s.forking = some (i, caller) := by
  cases step_core hstep with
  | quiet hquiet => exact .inl (hquiet.pidMap ▸ hmap)
  | @forked j caller forked _ hforking _ hcore =>
    rw [hcore] at hmap
    change (s.core.pidMap.insert forked j).lookup pid = some i at hmap
    rw [GoMap.lookup_insert] at hmap
    split_ifs at hmap
    · cases hmap
      exact .inr ⟨caller, hforking⟩
    · exact .inl hmap
  | oneshotStarted _ _ hcore | oneshotTimedOut _ hcore | oneshotExited _ hcore =>
    exact .inl (by rw [hcore] at hmap; exact hmap)
  | @exited reaped status times j _ _ _ _ hcore =>
    have hsame := handleExit_sameRuns s.core s.shuttingDown j reaped status times
    rw [← hcore] at hsame
    rw [hsame.pidMap] at hmap
    change (s.core.pidMap.erase reaped).lookup pid = some i at hmap
    rw [GoMap.lookup_erase] at hmap
    split_ifs at hmap
    exact .inl hmap
  | reloaded hlocking =>
    obtain ⟨dones, hreloaded⟩ := h.reloaded hlocking
    exact .inl (hreloaded.pidMap ▸ hmap)
  | children _ hcore => exact .inl (by rw [hcore] at hmap; exact hmap)

end Configured

structure Known (s : State) : Prop extends Configured s where
  due : ∀ i ∈ s.due, i < s.core.nextInst
  mapped : ∀ pid i, s.core.pidMap.lookup pid = some i → i < s.core.nextInst
  schedulers : ∀ i ∈ s.schedulers, i < s.core.nextInst

namespace Known

variable {s s' : State} {action : Action} {i : InstId}

theorem of_fresh (hfresh : Fresh s) : Known s := by
  obtain ⟨layers, hmain⟩ := hfresh.main
  obtain ⟨processes, controlSocket, hbuilt⟩ := hfresh.built
  refine ⟨.of_fresh hfresh, ?_, ?_, ?_⟩
  · simp [State.due, hfresh.tasks, hfresh.restartCh, hfresh.forking, hfresh.reload, hmain,
      ReloadPc.due, MainPc.due]
  · simp [hbuilt.pidMap, Core.empty]
  · simp [hfresh.schedulers]

theorem current_lt (h : Known s) (hlookup : s.core.services.lookup name = some i) :
    i < s.core.nextInst :=
  (h.named name i hlookup).2

theorem restartDeps_lt (h : Known s) (hi : i ∈ s.restartDeps root name) : i < s.core.nextInst := by
  unfold State.restartDeps at hi
  split at hi
  · obtain ⟨dep, -, hdep⟩ := List.mem_filterMap.mp hi
    exact h.current_lt (Option.filter_eq_some_iff.mp hdep).1
  · cases hi

theorem scheduledInstances_lt (h : Known s) (hi : i ∈ s.core.scheduledInstances) :
    i < s.core.nextInst := by
  obtain ⟨entry, hentry, rfl⟩ := List.mem_map.mp (List.mem_filter.mp hi).1
  exact h.current_lt (GoMap.mem_entries.mp hentry)

theorem enters_lt (h : Known s) (hstep : s.step action = some s') (henters : Enters s action s' i) :
    i < s'.core.nextInst := by
  have hle := h.nextInst_le hstep
  cases henters with
  | startFn hlookup => exact (h.current_lt hlookup).trans_le hle
  | restartFn hlookup hi =>
    rcases List.mem_cons.mp hi with rfl | hdep
    · exact (h.current_lt hlookup).trans_le hle
    · exact (h.restartDeps_lt hdep).trans_le hle
  | check hlookup => exact (h.current_lt hlookup).trans_le hle
  | tick hscheduled => exact (h.schedulers i hscheduled).trans_le hle
  | layer _ hlookup => exact (h.current_lt hlookup).trans_le hle
  | exit _ hmap => exact (h.mapped _ i hmap).trans_le hle
  | reload hlocking hi =>
    obtain ⟨dones, -, -, hwaiting⟩ := h.reload_ok hlocking
    rw [hwaiting] at hi
    obtain ⟨name, -, hlookup⟩ := List.mem_filterMap.mp (List.mem_filter.mp hi).1
    exact (h.step_named hstep name i hlookup).2

theorem step (h : Known s) (hstep : s.step action = some s') : Known s' := by
  have hle := h.nextInst_le hstep
  refine ⟨h.toConfigured.step hstep, ?_, ?_, ?_⟩
  · intro i hi
    rcases step_due hstep hi with hold | hnew
    · exact (h.due i hold).trans_le hle
    · exact h.enters_lt hstep hnew
  · intro pid i hmap
    rcases h.step_pidMap hstep hmap with hold | ⟨caller, hforking⟩
    · exact (h.mapped pid i hold).trans_le hle
    · exact (h.due i (State.due_of_forking hforking List.mem_cons_self)).trans_le hle
  · intro i hi
    rcases (step_frame hstep).schedulers with hsame | hnew
    · exact (h.schedulers i (hsame ▸ hi)).trans_le hle
    · exact (h.scheduledInstances_lt (hnew hi)).trans_le hle

theorem of_reached {ok : State → Action → Prop} (hreached : Reached ok s) : Known s :=
  hreached.invariant (fun _ hboots => of_fresh hboots.fresh) fun _ _ _ h _ => h.step

end Known

end Gopherd.Daemon
