import Gopherd.Daemon.Due
import Gopherd.Daemon.Shutdown

/-!
What becomes of the dependents of a restart. They are stopped first and brought
back one after the other once the service itself is up.
-/

namespace Gopherd.Daemon

open Go

/-- The dependents that a restart has brought back when it has yet to come to
`rest`. -/
def Restart.back (r : Restart) (rest : List InstId) : List InstId :=
  r.deps.filter fun dep => dep ∉ rest && dep ∉ r.skipped

/-- The dependents that are up once `startGated` returns with success. -/
def GateCaller.back : GateCaller → List InstId
  | .restartDep r rest => r.back rest
  | .boot | .control _ _ | .restartRoot _ => []

/-- Those among them that are up before the start of `i`. -/
def StartCaller.back (i : InstId) : StartCaller → List InstId
  | .gate caller => caller.back.filter (· ≠ i)
  | .control | .request | .reload | .tick => []

def Task.back : Task → List InstId
  | .gate i caller => StartCaller.back i (.gate caller)
  | .start i _ caller => caller.back i
  | .notify _ caller _ => caller.back
  | .restartReturn r .restarted => r.back []
  | _ => []

namespace State

/-- The dependents that the restarts in progress have brought back. -/
def back (s : State) : List InstId :=
  s.tasks.flatMap Task.back ++ s.forking.toList.flatMap (fun fork => fork.2.back fork.1)

def exiting (s : State) : Action → Option InstId
  | .main (.times _) =>
    match s.main with
    | .reaped pid _ => s.core.pidMap.lookup pid
    | _ => none
  | .main .go =>
    match s.main with
    | .results _ ((i, some _) :: _) _ _ => some i
    | _ => none
  | _ => none

/-- The condition of a service that is restarted still holds, and no dependent
exits between its own start and the return of the restart. -/
def undisturbed (s : State) (action : Action) : Bool :=
  (s.exiting action).all (· ∉ s.back) &&
    match action with
    | .run (.start i .condition (.gate (.restartRoot _))) _ =>
      ((s.core.heap i).unmetCondition s.files).isNone
    | _ => true

theorem mem_back {s : State} :
    dep ∈ s.back ↔ (∃ t ∈ s.tasks, dep ∈ t.back) ∨
      ∃ i caller, s.forking = some (i, caller) ∧ dep ∈ caller.back i := by
  simp [State.back]

end State

section

variable {i dep : InstId}

theorem Restart.back_deps (r : Restart) : r.back r.deps = [] := by
  simp +contextual [Restart.back]

theorem Restart.back_cons (r : Restart) (rest : List InstId) :
    r.back (i :: rest) = (r.back rest).filter (· ≠ i) := by
  simp only [Restart.back, List.filter_filter]
  congr 1
  funext dep
  by_cases heq : dep = i <;> simp [heq]

theorem depsNext_back (r : Restart) (rest : List InstId) :
    (depsNext r rest).back = r.back rest := by
  cases rest with
  | nil => rfl
  | cons next rest => exact (r.back_cons rest).symm

/-- A start that does not succeed brings nobody back. -/
theorem GateNext.back (h : GateNext i caller result t) (hdep : dep ∈ t.back) :
    dep ∈ caller.back ∧ (dep = i → result.isUp = true) := by
  cases h with
  | root =>
    rw [depsNext_back, Restart.back_deps] at hdep
    cases hdep
  | dep hup =>
    rw [depsNext_back] at hdep
    exact ⟨hdep, fun _ => hup⟩
  | depSkipped =>
    rw [depsNext_back] at hdep
    obtain ⟨hmem, hkept⟩ := List.mem_filter.mp hdep
    simp only [List.mem_cons, not_or, Bool.and_eq_true, decide_eq_true_eq] at hkept
    refine ⟨List.mem_filter.mpr ⟨hmem, ?_⟩, fun heq => absurd heq hkept.2.1⟩
    simp [hkept.1, hkept.2.2]
  | _ => cases hdep

theorem StartNext.back (h : StartNext i caller result t) (hdep : dep ∈ t.back) :
    dep ∈ caller.back i ∨ (dep = i ∧ result.isUp = true) := by
  have hgate : ∀ gate : GateCaller, dep ∈ gate.back → (dep = i → result.isUp = true) →
      dep ∈ StartCaller.back i (.gate gate) ∨ (dep = i ∧ result.isUp = true) := by
    intro gate hmem hup
    by_cases heq : dep = i
    · exact .inr ⟨heq, hup heq⟩
    · exact .inl (List.mem_filter.mpr ⟨hmem, by simpa using heq⟩)
  cases h with
  | notify hup => exact hgate _ hdep fun _ => hup
  | gate h => exact hgate _ (h.back hdep).1 (h.back hdep).2
  | _ => cases hdep

theorem ShutdownNext.back (h : ShutdownNext caller t) : dep ∉ t.back := by
  cases h <;> exact List.not_mem_nil

end

/-- The object is up, or no longer the one of its service. -/
def Core.restored (c : Core) (i : InstId) : Prop :=
  c.isRunning i = true ∨ c.isCurrent i = false

theorem Follows.back (h : Follows s t t') (hdep : dep ∈ t'.back) :
    dep ∈ t.back ∨ (dep ∈ t.due ∧ s.core.restored dep) := by
  cases h with
  | startGated => cases hdep
  | startPlain => cases hdep
  | gate => exact .inl hdep
  | gateFailed h =>
    rcases (StartNext.gate h).back hdep with hold | ⟨-, hup⟩
    · exact .inl hold
    · cases hup
  | startCondition => exact .inl hdep
  | startPrepare => exact .inl hdep
  | startSkipped h =>
    rcases h.back hdep with hold | ⟨-, hup⟩
    · exact .inl hold
    · cases hup
  | startFailed h =>
    rcases h.back hdep with hold | ⟨-, hup⟩
    · exact .inl hold
    · cases hup
  | startLate _ h =>
    rcases h.back hdep with hold | ⟨-, hup⟩
    · exact .inl hold
    · cases hup
  | startReplaced hcurrent h =>
    rcases h.back hdep with hold | ⟨rfl, -⟩
    · exact .inl hold
    · exact .inr ⟨List.mem_cons_self, .inr hcurrent⟩
  | startRunning hrunning h =>
    rcases h.back hdep with hold | ⟨rfl, -⟩
    · exact .inl hold
    · exact .inr ⟨List.mem_cons_self, .inl hrunning⟩
  | notify h => exact .inl (h.back hdep).1
  | notifyFailed h => exact .inl (h.back hdep).1
  | shutdown h => exact absurd hdep h.back
  | _ => cases hdep

theorem Task.unobserved_back (t : Task) : t.unobserved.back = t.back := by
  have hgate : ∀ caller : GateCaller, caller.unobserved.back = caller.back := by
    intro caller
    cases caller <;> rfl
  cases t with
  | gate i caller => simp [Task.unobserved, Task.back, StartCaller.back, hgate]
  | notify i caller result => simp [Task.unobserved, Task.back, hgate]
  | start i pc caller =>
    cases caller <;> simp [Task.unobserved, Task.back, StartCaller.back, hgate]
  | shutdown code caller => cases caller <;> rfl
  | _ => rfl

namespace Core

variable {c c' : Core} {i : InstId}

theorem restored.of_same (h : c.restored i) (hservices : c'.services = c.services)
    (hname : c'.name i = c.name i) (hrunning : c.isRunning i = true → c'.isRunning i = true) :
    c'.restored i := by
  rcases h with hup | hreplaced
  · exact .inl (hrunning hup)
  · exact .inr (by simpa [Core.isCurrent, hservices, hname] using hreplaced)

theorem restored.finishStart (h : c.restored i) (j : InstId) (pid : Pid) :
    (c.finishStart j pid).restored i := by
  refine h.of_same rfl (CoreBooks.finishStart_name i) ?_
  intro hup
  rw [CoreBooks.finishStart_running]
  split_ifs
  · rfl
  · exact hup

theorem restored.markExited (h : c.restored i) (hne : i ≠ j) : (c.markExited j).restored i := by
  refine h.of_same rfl (CoreBooks.markExited_name i) ?_
  intro hup
  rw [CoreBooks.markExited_running, if_neg hne]
  exact hup

theorem restored.recordExit (h : c.restored i) (pid : Pid) (hne : i ≠ j) :
    (c.recordExit j pid).restored i := by
  refine h.of_same rfl (CoreBooks.recordExit_name i) ?_
  intro hup
  rw [CoreBooks.recordExit_running, if_neg hne]
  exact hup

/-- A reload does not put an old object back in its place. -/
theorem restored.reloaded (h : c.restored i) {cfg : Config} {dones : List (Option Chan)}
    (hreload : Reloaded cfg c c' dones) (hlt : i < c.nextInst) : c'.restored i := by
  rcases h with hup | hreplaced
  · exact .inl (by rw [hreload.running i hlt]; exact hup)
  · right
    by_contra hcurrent
    simp only [Core.isCurrent, hreload.name i hlt, Bool.not_eq_false, decide_eq_true_eq] at hcurrent
    rcases hreload.current _ i hcurrent with ⟨hnew, -⟩ | ⟨hold, -⟩
    · exact absurd hlt (Nat.not_lt.mpr hnew)
    · simp [Core.isCurrent, hold] at hreplaced

end Core

section

variable {s s' : State} {action : Action} {dep : InstId}

/-- An object that is up, or was replaced, stays so until it exits. -/
theorem step_restored (hknown : Known s) (hstep : s.step action = some s')
    (hlt : dep < s.core.nextInst) (hexit : s.exiting action ≠ some dep)
    (h : s.core.restored dep) : s'.core.restored dep := by
  cases step_core hstep with
  | quiet hquiet =>
    exact h.of_same hquiet.services (hquiet.name dep) fun hup => (hquiet.running dep).trans hup
  | @forked i _ pid _ _ _ hcore =>
    rw [hcore]
    exact (h.finishStart i pid).of_same rfl rfl id
  | @oneshotStarted i _ _ _ pid _ _ _ hcore =>
    rw [hcore]
    exact (h.finishStart i pid).of_same rfl rfl id
  | oneshotTimedOut _ hcore =>
    rw [hcore]
    exact h.of_same rfl rfl id
  | @oneshotExited _ i _ _ _ _ _ _ hmain hcore =>
    have hne : dep ≠ i := by
      rintro rfl
      exact hexit (by simp only [State.exiting, hmain])
    rw [hcore]
    exact (h.markExited hne).of_same rfl rfl id
  | @exited pid status times i _ hmain _ hmap hcore =>
    have hne : dep ≠ i := by
      rintro rfl
      exact hexit (by simp only [State.exiting, hmain, hmap])
    have hsame := handleExit_sameRuns s.core s.shuttingDown i pid status times
    rw [← hcore] at hsame
    exact (h.recordExit pid hne).of_same hsame.services (hsame.name dep)
      fun hup => (hsame.running dep).trans hup
  | reloaded hlocking =>
    obtain ⟨dones, hreload⟩ := hknown.reloaded hlocking
    exact h.reloaded hreload hlt
  | children _ hcore =>
    rw [hcore]
    exact h.of_same rfl rfl id

theorem step_fork_running (hforking : s.forking = some (i, caller))
    (hstep : s.step (.fork (.child pid)) = some s') : s'.core.isRunning i = true := by
  obtain ⟨j, caller', hforking', ⟨pid', hchoice, -, h⟩ | ⟨hchoice, -⟩⟩ :=
    stepFork_cases (step_fork hstep)
  · cases hforking.symm.trans hforking'
    obtain ⟨_, _, _, _, rfl⟩ := h.eq
    change (s.core.finishStart i pid').isRunning i = true
    rw [CoreBooks.finishStart_running, if_pos rfl]
  · cases hchoice

/-- The dependents that are back were so before, or this step brings them
back. -/
theorem step_back (hknown : Known s) (hstep : s.step action = some s') (hdep : dep ∈ s'.back) :
    dep ∈ s.back ∨ (dep ∈ s.due ∧ s'.core.restored dep) := by
  rcases State.mem_back.mp hdep with ⟨t, ht, hdep⟩ | ⟨i, caller, hforking, hdep⟩
  · rcases step_tasks hstep ht with hold | hnew
    · exact .inl (State.mem_back.mpr (.inl ⟨t, hold, hdep⟩))
    · cases hnew with
      | follows hmem h =>
        rcases h.back hdep with hold | ⟨hdue, hrestored⟩
        · exact .inl (State.mem_back.mpr (.inl ⟨_, hmem, hold⟩))
        · have hdue := State.due_of_task hmem hdue
          refine .inr ⟨hdue, step_restored hknown hstep (hknown.due dep hdue) ?_ hrestored⟩
          simp [State.exiting]
      | unobserved hmem =>
        exact .inl (State.mem_back.mpr (.inl ⟨_, hmem, Task.unobserved_back _ ▸ hdep⟩))
      | @forked i caller pid _ hforking h =>
        rcases h.back hdep with hold | ⟨rfl, -⟩
        · exact .inl (State.mem_back.mpr (.inr ⟨i, caller, hforking, hold⟩))
        · refine .inr ⟨State.due_of_forking hforking List.mem_cons_self, .inl ?_⟩
          exact step_fork_running hforking hstep
      | @forkFailed i caller _ hforking h =>
        rcases h.back hdep with hold | ⟨-, hup⟩
        · exact .inl (State.mem_back.mpr (.inr ⟨i, caller, hforking, hold⟩))
        · cases hup
      | reload => cases hdep
      | stopped _ _ h => exact absurd hdep h.back
      | main h => cases h <;> cases hdep
      | dispatch => cases hdep
      | arrives h =>
        cases h with
        | @request request => cases request <;> cases hdep
        | _ => cases hdep
  · left
    cases step_forking hstep with
    | same hsame => exact State.mem_back.mpr (.inr ⟨i, caller, hsame ▸ hforking, hdep⟩)
    | locked hmem _ _ _ _ hnew =>
      cases hnew.symm.trans hforking
      exact State.mem_back.mpr (.inl ⟨_, hmem, hdep⟩)
    | released hnone => cases hnone.symm.trans hforking

end

/-- A restart returns early only for a shutdown, and `startGated` waits for
`READY=1` only of a service that is up. -/
def Task.fits (shuttingDown : Bool) : Task → Prop
  | .notify _ _ result => result.isUp = true
  | .restartReturn _ result => result = .restarted ∨ shuttingDown = true
  | _ => True

section

variable {i : InstId} {flag : Bool}

theorem GateNext.fits (h : GateNext i caller result t)
    (hmet : result = .conditionUnmet → ∀ r, caller ≠ .restartRoot r)
    (hlate : result = .shuttingDown → flag = true) : t.fits flag := by
  have hdeps : ∀ r deps, (depsNext r deps).fits flag := by
    intro r deps
    cases deps with
    | nil => exact .inl rfl
    | cons => trivial
  cases h with
  | root => exact hdeps _ _
  | rootSkipped => exact absurd rfl (hmet rfl _)
  | rootLate => exact .inr (hlate rfl)
  | rootFailed => trivial
  | dep => exact hdeps _ _
  | depSkipped => exact hdeps _ _
  | depLate => exact .inr (hlate rfl)
  | depFailed => trivial

theorem StartNext.fits (h : StartNext i caller result t)
    (hmet : result = .conditionUnmet → ∀ r, caller ≠ .gate (.restartRoot r))
    (hlate : result = .shuttingDown → flag = true) : t.fits flag := by
  cases h with
  | notify hup => exact hup
  | gate h => exact h.fits (fun hunmet r heq => hmet hunmet r (by rw [heq])) hlate
  | _ => trivial

theorem ShutdownNext.fits (h : ShutdownNext caller t) (hflag : flag = true) : t.fits flag := by
  cases h with
  | request => trivial
  | restart => exact .inr hflag

end

theorem Follows.fits (h : Follows s t t') (hteardown : Teardown s)
    (hok : s.undisturbed (.run t choice) = true) (ht : t.fits s.shuttingDown) :
    t'.fits s.shuttingDown := by
  cases h with
  | gateFailed h => exact h.fits (by simp) (by simp)
  | @startSkipped i caller _ h hunmet =>
    refine h.fits ?_ (by simp)
    rintro - r rfl
    simp only [State.undisturbed, Bool.and_eq_true, Option.isNone_iff_eq_none] at hok
    exact hunmet hok.2
  | startFailed h => exact h.fits (by simp) (by simp)
  | startLate hshut h => exact h.fits (by simp) fun _ => hshut
  | startReplaced _ h => exact h.fits (by simp) (by simp)
  | startRunning _ h => exact h.fits (by simp) (by simp)
  | notify h =>
    refine h.fits ?_ ?_ <;> rintro rfl <;> cases ht
  | notifyFailed h => exact h.fits (by simp) (by simp)
  | restartLate hshut => exact .inr hshut
  | restartGone hclosed => exact .inr (hteardown.announced hclosed)
  | shutdown h hshut => exact h.fits hshut
  | _ => trivial

theorem Task.fits_unobserved {t : Task} (ht : t.fits flag) : t.unobserved.fits flag := by
  cases t with
  | notify i caller result => exact ht
  | restartReturn r result => exact ht
  | start i pc caller => cases caller <;> trivial
  | shutdown code caller => cases caller <;> trivial
  | _ => trivial

structure Undisturbed (s : State) : Prop where
  known : Known s
  teardown : Teardown s
  back : ∀ dep ∈ s.back, dep < s.core.nextInst ∧ s.core.restored dep
  fits : ∀ t ∈ s.tasks, t.fits s.shuttingDown

namespace Undisturbed

variable {s s' : State} {action : Action}

theorem of_fresh (hfresh : Fresh s) : Undisturbed s := by
  refine ⟨.of_fresh hfresh, .of_fresh hfresh, ?_, ?_⟩
  · simp [State.back, hfresh.tasks, hfresh.forking]
  · simp [hfresh.tasks]

theorem step_back (h : Undisturbed s) (hok : s.undisturbed action = true)
    (hstep : s.step action = some s') {dep : InstId} (hdep : dep ∈ s'.back) :
    dep < s'.core.nextInst ∧ s'.core.restored dep := by
  have hle := h.known.nextInst_le hstep
  rcases Daemon.step_back h.known hstep hdep with hold | ⟨hdue, hrestored⟩
  · obtain ⟨hlt, hrestored⟩ := h.back dep hold
    refine ⟨hlt.trans_le hle, step_restored h.known hstep hlt ?_ hrestored⟩
    intro hexit
    simp [State.undisturbed, hexit, hold] at hok
  · exact ⟨(h.known.due dep hdue).trans_le hle, hrestored⟩

theorem newTask_fits (h : Undisturbed s) (hok : s.undisturbed action = true)
    (hnew : NewTask s action t) : t.fits s.shuttingDown := by
  cases hnew with
  | follows hmem hfollows => exact hfollows.fits h.teardown hok (h.fits _ hmem)
  | unobserved hmem => exact Task.fits_unobserved (h.fits _ hmem)
  | forked _ hnext => exact hnext.fits (by simp) (by simp)
  | forkFailed _ hnext => exact hnext.fits (by simp) (by simp)
  | stopped hpc _ hnext => exact hnext.fits (h.teardown.flag.mpr (by simp [hpc]))
  | main hnext => cases hnext <;> trivial
  | arrives harrives =>
    cases harrives with
    | @request request => cases request <;> trivial
    | _ => trivial
  | _ => trivial

theorem step_fits (h : Undisturbed s) (hok : s.undisturbed action = true)
    (hstep : s.step action = some s') (ht : t ∈ s'.tasks) : t.fits s'.shuttingDown := by
  have hbefore : t.fits s.shuttingDown := by
    rcases step_tasks hstep ht with hold | hnew
    · exact h.fits t hold
    · exact h.newTask_fits hok hnew
  cases t with
  | restartReturn r result => exact hbefore.imp_right (Teardown.keeps_flag hstep)
  | notify => exact hbefore
  | _ => trivial

theorem step (h : Undisturbed s) (hok : s.undisturbed action = true)
    (hstep : s.step action = some s') : Undisturbed s' :=
  ⟨h.known.step hstep, h.teardown.step hstep, fun _ => h.step_back hok hstep,
    fun _ => h.step_fits hok hstep⟩

theorem of_reached (hreached : Reached (fun s action => s.undisturbed action = true) s) :
    Undisturbed s :=
  hreached.invariant (fun _ hboots => of_fresh hboots.fresh) fun _ _ _ h => h.step

end Undisturbed

/-- When a restart returns and no shutdown has begun, each of its dependents is
up, or has been replaced or removed, or was kept down by its own condition. -/
theorem restart_strands_no_dependent {s : State}
    (hreached : Reached (fun s action => s.undisturbed action = true) s) {r : Restart}
    {result : RestartResult} (hreturns : .restartReturn r result ∈ s.tasks)
    (hflag : s.shuttingDown = false) {dep : InstId} (hdep : dep ∈ r.deps) :
    s.core.isRunning dep = true ∨ s.core.isCurrent dep = false ∨ dep ∈ r.skipped := by
  have h := Undisturbed.of_reached hreached
  by_cases hskipped : dep ∈ r.skipped
  · exact .inr (.inr hskipped)
  rcases h.fits _ hreturns with rfl | hshut
  · have hback : dep ∈ s.back :=
      State.mem_back.mpr (.inl ⟨_, hreturns, List.mem_filter.mpr ⟨hdep, by simp [hskipped]⟩⟩)
    rcases (h.back dep hback).2 with hup | hreplaced
    · exact .inl hup
    · exact .inr (.inl hreplaced)
  · rw [hflag] at hshut
    cases hshut

def dbProcess : Process :=
  { Process.empty with
    name := "db", command := "/bin/db", restartWithDependents := true
    conditionFileMissing := "/run/maintenance" }

def dependentWeb : Process :=
  { webProcess with requires := ["db"] }

def restartDbActions (r : Restart) : List Action :=
  [.request (.restart "db" false), .run (.restartFn "db" false) .go,
    .run (.restartRun 0 [1] false) .go,
    .run (.restartStop { r with stopped := 0 } 1 [0]) .go] ++ exitActions 101 ++
  [.run (.restartWait { r with stopped := 1 } [0] (some 1)) .go,
    .run (.restartStop { r with stopped := 1 } 0 []) .go] ++ exitActions 100 ++
  [.run (.restartWait r [] (some 0)) .go, .run (.gate 0 (.restartRoot r)) .go]

def dbRestart : Restart :=
  ⟨0, [1], 2, [], false, ∅⟩

/-- A restart of `db` brings `web` back. -/
theorem web_back_after_restart : ∃ s,
    run State.undisturbed (plainInput [dbProcess, dependentWeb])
      (bootPairActions ++ restartDbActions dbRestart ++
        startActions 0 (.gate (.restartRoot dbRestart)) 102 ++
        [.run (.gate 1 (.restartDep dbRestart [])) .go] ++
        startActions 1 (.gate (.restartDep dbRestart [])) 103) = some s ∧
    .restartReturn dbRestart .restarted ∈ s.tasks ∧ s.shuttingDown = false ∧
    (s.core.isRunning 1 = true ∨ s.core.isCurrent 1 = false ∨ 1 ∈ dbRestart.skipped) := by
  have hrun : (run State.undisturbed (plainInput [dbProcess, dependentWeb])
      (bootPairActions ++ restartDbActions dbRestart ++
        startActions 0 (.gate (.restartRoot dbRestart)) 102 ++
        [.run (.gate 1 (.restartDep dbRestart [])) .go] ++
        startActions 1 (.gate (.restartDep dbRestart [])) 103)).map
      (fun s => decide (.restartReturn dbRestart .restarted ∈ s.tasks ∧
        s.shuttingDown = false)) = some true := by
    decide +kernel
  obtain ⟨s, hs, hreturns, hflag⟩ := exists_of_decide hrun
  exact ⟨s, hs, hreturns, hflag,
    restart_strands_no_dependent (reached_of_run hs) hreturns hflag List.mem_cons_self⟩

/-- When maintenance is announced while `db` is down, the restart is skipped
and `web`, which has no condition of its own, stays down. -/
theorem skipped_restart_strands_web : ∃ s, Reached Transition.anyStep s ∧
    .restartReturn dbRestart .skipped ∈ s.tasks ∧ s.shuttingDown = false ∧
    dbRestart.deps = [1] ∧ s.core.services.lookup "web" = some 1 ∧
    s.core.isRunning 1 = false ∧ s.core.isCurrent 1 = true ∧
    (s.core.heap 1).unmetCondition s.files = none := by
  have hrun : (run (fun _ _ => true) (plainInput [dbProcess, dependentWeb])
      (bootPairActions ++ restartDbActions dbRestart ++
        [.touch "/run/maintenance" .present,
          .run (.start 0 .condition (.gate (.restartRoot dbRestart))) .go])).map
      (fun s => decide ((.restartReturn dbRestart .skipped ∈ s.tasks ∧ s.shuttingDown = false) ∧
        s.core.services.lookup "web" = some 1 ∧ s.core.isRunning 1 = false ∧
        s.core.isCurrent 1 = true ∧ (s.core.heap 1).unmetCondition s.files = none)) =
      some true := by
    decide +kernel
  obtain ⟨s, hs, ⟨hreturns, hflag⟩, hstranded⟩ := exists_of_decide hrun
  exact ⟨s, (reached_of_run hs).weaken fun _ _ _ => trivial, hreturns, hflag, rfl, hstranded⟩

end Gopherd.Daemon
