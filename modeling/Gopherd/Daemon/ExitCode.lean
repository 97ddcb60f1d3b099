import Gopherd.Daemon.Return

/-!
The code that `run` returns. Whichever goroutine wins the race in
`initiateShutdown` stores the code of its own exit. Which exit was the first is
history, which the daemon does not keep; here it is recorded beside the state.
-/

namespace Gopherd.Daemon

open Go

/-- The code that an exit takes the daemon down with, if its action is one of
the shutdown actions. -/
def shutdownCode (svc : Service) (status : WaitStatus) : Option Int :=
  match exitAction svc (effectiveCode svc status) with
  | .shutdown | .failureShutdown => some (effectiveCode svc status)
  | .successShutdown => some 0
  | .restart | .ignore => none

/-- The code that main is about to store or to hand to a shutdown. -/
def MainPc.carried : MainPc → Option Int
  | .prestore code | .spawnShutdown code => some code
  | _ => none

def StopPc.hasStored : StopPc → Bool
  | .idle | .closing _ | .storing _ => false
  | _ => true

theorem handleExit_carried {c : Core}
    (hcarried : (c.handleExit shuttingDown i pid status times).2.next.carried = some code) :
    shuttingDown = false ∧ shutdownCode (c.heap i) status = some code := by
  cases shuttingDown with
  | true =>
    simp only [Core.handleExit, if_true] at hcarried
    split at hcarried <;> cases hcarried
  | false =>
    refine ⟨rfl, ?_⟩
    obtain ⟨done, hafter⟩ := c.handleExit_after i pid status times
    rw [hafter] at hcarried
    unfold shutdownCode
    generalize effectiveCode _ status = effective at hcarried ⊢
    generalize exitAction _ effective = action at hcarried ⊢
    cases action <;> exact hcarried

/-- The shutdown is begun for an exit that carries `code`. A code stored as
zero looks like none, so next to it no exit may bring another one. -/
def State.exitDecides (code : Int) (s : State) : Action → Bool
  | .run (.shutdown own caller) _ => s.shuttingDown || (caller = .exit && own = code)
  | .main _ =>
    match s.main with
    | .reaped pid status =>
      match s.core.pidMap.lookup pid with
      | some i =>
        s.shuttingDown || toInt32 code ≠ 0 ||
          (shutdownCode (s.core.heap i) status).all (fun k => toInt32 k = 0)
      | none => true
    | _ => true
  | _ => true

structure Decided (code : Int) (s : State) : Prop where
  main : toInt32 code = 0 → ∀ k, s.main.carried = some k → toInt32 k = 0
  pending : ∀ k, s.stopAll = .closing k ∨ s.stopAll = .storing k → k = code
  stored : s.stopAll.hasStored = true → s.exitCode = toInt32 code
  returned : ∀ k, s.main = .returned k → k = toInt32 code

namespace Decided

variable {code : Int} {s s' : State} {action : Action}

theorem of_fresh (hfresh : Fresh s) : Decided code s := by
  obtain ⟨layers, hmain⟩ := hfresh.main
  constructor <;> simp [hmain, hfresh.stopAll, MainPc.carried, StopPc.hasStored]

theorem step_carried (h : Decided code s) (hdecides : s.exitDecides code action = true)
    (hstep : s.step action = some s') (hcode : toInt32 code = 0) {k : Int}
    (hk : s'.main.carried = some k) : toInt32 k = 0 := by
  cases step_main hstep with
  | same hsame => exact h.main hcode k (hsame ▸ hk)
  | aborted hafter => rw [hafter] at hk; cases hk
  | panicked hafter => rw [hafter] at hk; cases hk
  | moved hframe =>
    have hmove := hframe.move
    have hmain := h.main hcode k
    generalize s.main = before, s'.main = after at hmove hk hmain
    cases hmove with
    | prestore => exact hmain hk
    | _ => cases hk
  | event hevent =>
    cases hevent with
    | exited hmain =>
      unfold State.stepReaped at hk
      split at hk
      · cases hk
      · next i hmap =>
          obtain ⟨hflag, hcarried⟩ := handleExit_carried hk
          simpa [State.exitDecides, hmain, hmap, hflag, hcarried, hcode] using hdecides
    | _ => cases hk

theorem step_pending (h : Decided code s) (hdecides : s.exitDecides code action = true)
    (hstep : s.step action = some s') (hk : s'.stopAll = .closing k ∨ s'.stopAll = .storing k) :
    k = code := by
  cases step_stop hstep with
  | same _ hpc => exact h.pending k (hpc ▸ hk)
  | begun _ hflag _ hpc =>
    simp only [State.exitDecides, hflag, Bool.false_or, Bool.and_eq_true,
      decide_eq_true_eq] at hdecides
    rw [hpc] at hk
    rcases hk with hk | hk <;> cases hk
    exact hdecides.2
  | event hevent =>
    cases hevent with
    | close hpc =>
      rcases hk with hk | hk <;> cases hk
      exact h.pending k (.inl hpc)
    | @stop _ stopAll _ _ hafter _ =>
      have hk : stopAll = .closing k ∨ stopAll = .storing k := hk
      rcases hk with rfl | rfl <;> simp [StopPc.isWaiting] at hafter
    | _ => rcases hk with hk | hk <;> cases hk

/-- A late store of a code changes nothing. -/
theorem prestored (h : Decided code s) (hmain : s.main = .prestore k)
    (hstored : s.exitCode = toInt32 code) :
    (if s.exitCode = 0 then toInt32 k else s.exitCode) = toInt32 code := by
  split
  · next hzero =>
      have hcode : toInt32 code = 0 := hstored.symm.trans hzero
      rw [h.main hcode k (by rw [hmain]; rfl), hcode]
  · exact hstored

theorem step_stored (h : Decided code s) (hstep : s.step action = some s')
    (hpc : s'.stopAll.hasStored = true) : s'.exitCode = toInt32 code := by
  cases step_stop hstep with
  | same _ hsame =>
    have hbefore := h.stored (hsame ▸ hpc)
    cases step_exitCode hstep with
    | same hcode => exact hcode.trans hbefore
    | prestored hmain hcode => exact hcode.trans (h.prestored hmain hbefore)
    | stored hstoring => rw [hsame, hstoring] at hpc; cases hpc
  | begun _ _ _ hclosing => rw [hclosing] at hpc; cases hpc
  | event hevent =>
    cases hevent with
    | close => cases hpc
    | store hstoring =>
      change toInt32 _ = toInt32 code
      rw [h.pending _ (.inr hstoring)]
    | stop hbefore =>
      refine h.stored ?_
      rcases hbefore with hlocking | hwaiting
      · rw [hlocking]
        rfl
      · generalize s.stopAll = before at hwaiting
        cases before <;> first | rfl | cases hwaiting
    | finish hfinishing => exact h.stored (by rw [hfinishing]; rfl)

theorem step_returned (h : Decided code s) (hteardown : Teardown s)
    (hstep : s.step action = some s') (hk : s'.main = .returned k) : k = toInt32 code := by
  cases step_main hstep with
  | same hsame => exact h.returned k (hsame ▸ hk)
  | aborted hafter => rw [hk] at hafter; cases hafter
  | panicked hafter => rw [hk] at hafter; cases hafter
  | moved hframe =>
    have hmove := hframe.move
    rw [hk] at hmove
    generalize hmain : s.main = before at hmove
    cases hmove with
    | targetsClosed =>
      have hdone := hteardown.joined (by rw [hmain]; rfl) (by simp [hmain])
      exact h.stored (by rw [hteardown.finished.mp hdone]; rfl)
  | event hevent =>
    have hlands := hevent.lands
    rw [hk] at hlands
    cases hlands

theorem step (h : Decided code s) (hteardown : Teardown s)
    (hdecides : s.exitDecides code action = true) (hstep : s.step action = some s') :
    Decided code s' :=
  ⟨fun hcode _ => h.step_carried hdecides hstep hcode, fun _ => h.step_pending hdecides hstep,
    h.step_stored hstep, fun _ => h.step_returned hteardown hstep⟩

/-- What `run` returns does not depend on how the loop comes to its end. -/
theorem of_reached (hreached : Reached (fun s action => s.exitDecides code action = true) s) :
    Decided code s := by
  have hboth : Teardown s ∧ Decided code s := by
    apply @Transition.Reached.invariant _ _ _ _ _ _ (fun s => Teardown s ∧ Decided code s) hreached
    · intro s hboots
      exact ⟨.of_fresh hboots.fresh, .of_fresh hboots.fresh⟩
    · rintro s action s' ⟨hteardown, hdecided⟩ hdecides hstep
      exact ⟨hteardown.step hstep, hdecided.step hteardown hdecides hstep⟩
  exact hboth.2

end Decided

structure DecidedEnding (code : Int) (s : State) : Prop extends Ending s where
  decided : Decided code s

namespace DecidedEnding

variable {code : Int} {s s' : State} {action : Action}

theorem step (h : DecidedEnding code s)
    (hok : (s.exitDecides code action && s.cleanEnd action) = true)
    (hstep : s.step action = some s') : DecidedEnding code s' := by
  rw [Bool.and_eq_true] at hok
  exact ⟨h.toEnding.step hok.2 hstep, h.decided.step h.shutdown.toTeardown hok.1 hstep⟩

theorem of_reached
    (hreached : Reached (fun s action => (s.exitDecides code action && s.cleanEnd action) = true)
      s) : DecidedEnding code s :=
  hreached.invariant (fun _ hboots => ⟨.of_fresh hboots.fresh, .of_fresh hboots.fresh⟩)
    fun _ _ _ h => h.step

/-- After the end of the loop no exit is handled and no shutdown is begun. -/
theorem step_over (h : DecidedEnding code s) (hmain : s.main.loopOver = true)
    (hstep : s.step action = some s') : DecidedEnding code s' := by
  have hover : LoopOver s := ⟨h.toEnding, hmain⟩
  have hdecides : s.exitDecides code action = true := by
    unfold State.exitDecides
    split
    · simp [hover.flag]
    · split
      · next h => rw [h] at hmain; cases hmain
      · rfl
    · rfl
  exact h.step (by rw [hdecides, hover.clean hstep]; rfl) hstep

theorem returns (h : DecidedEnding code s) (hmain : s.main.loopOver = true) :
    Transition.Inevitable State.step (fun action => action.own = true)
      (fun t => t.main = .returned (toInt32 code)) s := by
  have hinevitable := (LoopOver.mk h.toEnding hmain).returns
  induction hinevitable with
  | now hgoal =>
    obtain ⟨k, hreturned⟩ := hgoal
    exact .now (h.decided.returned k hreturned ▸ hreturned)
  | later henabled _ ih =>
    refine .later henabled fun action s' hown hstep => ?_
    have hover := (LoopOver.mk h.toEnding hmain).step hstep
    exact ih action s' hown hstep (h.step_over hmain hstep) hover.main

end DecidedEnding

/-- A service exits with `code` and the reap loop leaves the shutdown to a
goroutine. -/
def shutdownExitActions (pid : Pid) (code : Nat) : List Action :=
  [.childExit pid (.exited code), .main (.child pid), .main (.times ⟨0, 0⟩), .main .go, .main .go]

/-- The shutdown for an exit with `code` while nothing runs, up to the end of
the reap loop. -/
def idleShutdownActions (code : Int) : List Action :=
  [.run (.shutdown code .exit) .go, .stopAll .go, .stopAll .go, .stopAll (.order ["web"]),
    .main .fail, .main .go]

/-- The code of the exit that the step handles, if its action is a shutdown action. Once
the shutdown has begun no exit has an action. -/
def State.shutdownExit (s : State) : Action → Option Int
  | .main _ =>
      match s.main with
      | .reaped pid status =>
          if s.shuttingDown then none
          else (s.core.pidMap.lookup pid).bind fun i => shutdownCode (s.core.heap i) status
      | _ => none
  | _ => none

structure Recorded where
  state : State
  first : Option Int

namespace Recorded

def Begins (x : Recorded) : Prop :=
  Boots x.state ∧ x.first = none

def step (x : Recorded) (action : Action) : Option Recorded :=
  (x.state.step action).map fun s => ⟨s, x.first.or (x.state.shutdownExit action)⟩

/-- The shutdown is begun by the goroutine of an exit that carries the code of the first
one. That code has 32 bits, and if it is zero, which is also what stands for no code, no
exit that is handled in the meantime brings another one. -/
def firstDecides (x : Recorded) : Action → Bool
  | .run (.shutdown own caller) _ =>
      x.state.shuttingDown || (caller = .exit && x.first = some own)
  | action =>
      (x.state.shutdownExit action).all fun code =>
        match x.first with
        | none => toInt32 code = code
        | some first => first ≠ 0 || toInt32 code = 0

variable {x x' : Recorded} {action : Action} {code : Int}

theorem exitDecides_of_handled (s : State) (choice : Choice)
    (hzero : toInt32 code = 0 → ∀ k, s.shutdownExit (.main choice) = some k → toInt32 k = 0) :
    s.exitDecides code (.main choice) = true := by
  simp only [State.exitDecides]
  simp only [State.shutdownExit] at hzero
  split
  · next pid status hmain =>
      rw [hmain] at hzero
      split
      · next i hmap =>
          simp only [hmap, Option.bind_some] at hzero
          cases hflag : s.shuttingDown with
          | true => rfl
          | false =>
              simp only [hflag, Bool.false_eq_true, if_false] at hzero
              by_cases hcode : toInt32 code = 0
              · simpa [hcode, Option.all_eq_true] using hzero hcode
              · simp [hcode]
      · rfl
  · rfl

/-- Before the first exit is recorded, any code may still be the one. -/
theorem exitDecides_of_none (hok : x.firstDecides action = true) (hfirst : x.first = none)
    (hnone : x.state.shutdownExit action = none) : x.state.exitDecides code action = true := by
  cases action with
  | run t choice =>
      cases t with
      | shutdown own caller =>
          have hflag : x.state.shuttingDown = true := by simpa [firstDecides, hfirst] using hok
          simp [State.exitDecides, hflag]
      | _ => rfl
  | main choice => exact exitDecides_of_handled _ _ fun _ k hk => by rw [hnone] at hk; cases hk
  | _ => rfl

/-- The step that handles the first exit, and those that follow. -/
theorem exitDecides_of_first (hok : x.firstDecides action = true)
    (hfirst : x.first.or (x.state.shutdownExit action) = some code)
    (hfits : x.first = some code → toInt32 code = code) :
    x.state.exitDecides code action = true := by
  cases action with
  | run t choice =>
      cases t with
      | shutdown own caller =>
          cases hbefore : x.first with
          | none => simp [hbefore, State.shutdownExit] at hfirst
          | some first =>
              obtain rfl : first = code := by simpa [hbefore] using hfirst
              have hbegins : x.state.shuttingDown = true ∨ caller = .exit ∧ first = own := by
                simpa [firstDecides, hbefore] using hok
              rcases hbegins with hflag | ⟨rfl, rfl⟩
              · simp [State.exitDecides, hflag]
              · simp [State.exitDecides]
      | _ => rfl
  | main choice =>
      refine exitDecides_of_handled _ _ fun hzero k hk => ?_
      cases hbefore : x.first with
      | none =>
          obtain rfl : k = code := by simpa [hbefore, hk] using hfirst
          exact hzero
      | some first =>
          obtain rfl : first = code := by simpa [hbefore] using hfirst
          obtain rfl : first = 0 := (hfits hbefore).symm.trans hzero
          simpa [firstDecides, hk, hbefore] using hok
  | _ => rfl

structure Tracked (x : Recorded) : Prop extends Ending x.state where
  unset : x.first = none → ∀ code, Decided code x.state
  decided : ∀ code, x.first = some code → Decided code x.state ∧ toInt32 code = code

theorem Tracked.step (h : Tracked x)
    (hok : (x.firstDecides action && x.state.cleanEnd action) = true)
    (hstep : x.step action = some x') : Tracked x' := by
  rw [Bool.and_eq_true] at hok
  obtain ⟨s, hs, rfl⟩ := Option.map_eq_some_iff.mp hstep
  have hteardown := h.shutdown.toTeardown
  refine ⟨h.toEnding.step hok.2 hs, ?_, ?_⟩
  · intro hfirst code
    obtain ⟨hbefore, hnone⟩ := Option.or_eq_none_iff.mp hfirst
    exact (h.unset hbefore code).step hteardown (exitDecides_of_none hok.1 hbefore hnone) hs
  · intro code hfirst
    have hdecides := exitDecides_of_first hok.1 hfirst fun hbefore => (h.decided _ hbefore).2
    cases hbefore : x.first with
    | none =>
        have hcode : x.state.shutdownExit action = some code := by simpa [hbefore] using hfirst
        refine ⟨(h.unset hbefore code).step hteardown hdecides hs, ?_⟩
        cases action with
        | main choice => simpa [firstDecides, hcode, hbefore] using hok.1
        | _ => cases hcode
    | some first =>
        obtain rfl : first = code := by simpa [hbefore] using hfirst
        obtain ⟨hdecided, hfits⟩ := h.decided first hbefore
        exact ⟨hdecided.step hteardown hdecides hs, hfits⟩

/-- In a run that ends cleanly and whose shutdown is begun for an exit with the code of
the first one, `run` returns the code of the first exit whose action was a shutdown
action: it returns nothing else, and it does return once the reap loop has ended. -/
theorem exit_code_decided_by_first {x : Recorded} {code : Int}
    (hreached : Transition.Reached Begins step
      (fun x action => (x.firstDecides action && x.state.cleanEnd action) = true) x)
    (hfirst : x.first = some code) :
    (∀ result, x.state.main = .returned result → result = code) ∧
      (x.state.main.loopOver = true →
        Transition.Inevitable State.step (fun action => action.own = true)
          (fun t => t.main = .returned code) x.state) := by
  have htracked : Tracked x := by
    refine hreached.invariant ?_ fun _ _ _ h hok hstep => h.step hok hstep
    rintro x ⟨hboots, hnone⟩
    refine ⟨.of_fresh hboots.fresh, fun _ _ => .of_fresh hboots.fresh, fun code hsome => ?_⟩
    rw [hnone] at hsome
    cases hsome
  obtain ⟨hdecided, hfits⟩ := htracked.decided code hfirst
  have hending : DecidedEnding code x.state := ⟨htracked.toEnding, hdecided⟩
  have hreturned := hdecided.returned
  have hreturns := hending.returns
  rw [hfits] at hreturned hreturns
  exact ⟨hreturned, hreturns⟩

def run (ok : Recorded → Action → Bool) (input : BootInput) (actions : List Action) :
    Option Recorded :=
  (boot input).bind fun s => Transition.exec step ok ⟨s, none⟩ actions

theorem reached_of_run {ok : Recorded → Action → Bool} {input : BootInput}
    {actions : List Action} (hrun : run ok input actions = some x) :
    Transition.Reached Begins step (fun x action => ok x action = true) x := by
  obtain ⟨s, hboot, hexec⟩ := Option.bind_eq_some_iff.mp hrun
  exact ⟨⟨s, none⟩, ⟨⟨input, hboot⟩, rfl⟩, .of_exec hexec⟩

/-- The daemon is shut down for the failure of `web` and returns its code. -/
theorem web_failure_returned : ∃ x,
    run (fun x action => x.firstDecides action && x.state.cleanEnd action)
      (plainInput [webProcess])
      (bootActions 100 ++ shutdownExitActions 100 3 ++ idleShutdownActions 3) = some x ∧
    x.first = some 3 ∧ x.state.main = .loopEnd ∧
    Transition.Inevitable State.step (fun action => action.own = true)
      (fun t => t.main = .returned 3) x.state := by
  have hrun : (run (fun x action => x.firstDecides action && x.state.cleanEnd action)
      (plainInput [webProcess]) (bootActions 100 ++ shutdownExitActions 100 3 ++
        idleShutdownActions 3)).map
          (fun x => decide (x.first = some 3 ∧ x.state.main = .loopEnd)) = some true := by
    decide +kernel
  obtain ⟨x, hx, hfirst, hmain⟩ := exists_of_decide hrun
  have hdecided := exit_code_decided_by_first (reached_of_run hx) hfirst
  exact ⟨x, hx, hfirst, hmain, hdecided.2 (by rw [hmain]; rfl)⟩

/-- The goroutine for the exit with 3 is left to wait while `web` is started
again on request and fails with 4; the goroutine for that exit shuts down. -/
def laterExitActions : List Action :=
  controlStartActions "web" 0 101 ++ shutdownExitActions 101 4 ++
    idleShutdownActions 4 ++ [.stopAll .go] ++ List.replicate 4 (.main .go)

/-- The first exit that shuts the daemon down carries 3 and only exits shut it
down, yet `run` returns the 4 of a later one. -/
theorem later_exit_code_returned : ∃ x,
    run (fun _ _ => true) (plainInput [webProcess])
      (bootActions 100 ++ shutdownExitActions 100 3 ++ laterExitActions) = some x ∧
    x.first = some 3 ∧ x.state.main = .returned 4 ∧ x.state.stopCaller = some .exit := by
  have hrun : (run (fun _ _ => true) (plainInput [webProcess])
      (bootActions 100 ++ shutdownExitActions 100 3 ++ laterExitActions)).map
        (fun x => decide (x.first = some 3 ∧ x.state.main = .returned 4 ∧
          x.state.stopCaller = some .exit)) = some true := by
    decide +kernel
  exact exists_of_decide hrun

end Recorded

end Gopherd.Daemon
