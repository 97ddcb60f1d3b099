import Gopherd.Daemon.CheckFailure
import Gopherd.Daemon.Objects
import Gopherd.Daemon.Single

/-!
The exits that the reap loop does not count.
-/

namespace Gopherd.Daemon

open Go

def Task.marks : Task → Bool
  | .restartFn .. | .restartStop .. | .checkFailure _ => true
  | _ => false

def State.restartTargets (s : State) : Action → List InstId
  | .run (.restartFn name wait) _ =>
    match s.core.services.lookup name with
    | some i => if s.shuttingDown || wait || s.restartDeps i name ≠ [] then [] else [i]
    | none => []
  | .run (.restartStop _ leg _) _ => if s.shuttingDown then [] else [leg]
  | .run (.checkFailure check) (.order names) =>
    if s.shuttingDown then [] else (s.checkPlan check names).1
  | _ => []

def State.marked (s : State) (action : Action) : List InstId :=
  (s.restartTargets action).filter s.core.isRunning

section

variable {s s' : State} {t : Task} {choice : Choice}

theorem Resumes.core {boot reloads : Bool} {next : Task → Prop}
    (h : Resumes boot reloads next s s') : s'.core = s.core := by
  obtain ⟨⟨_, _, _, _, rfl⟩, -⟩ := h
  rfl

variable {i : InstId} {action : Action} {name : String}

theorem stepStart_flags {pc : StartPc} (hstep : s.stepStart i caller choice pc = some s') :
    s'.core.restartPending = s.core.restartPending := by
  rcases stepStart_cases hstep with ⟨core, result, hflags, rfl⟩ | ⟨next, rfl⟩ | ⟨-, rfl⟩
  · rw [(Resumes.startDone (s.setCore core) i caller result).core]
    exact hflags
  · rfl
  · rfl

theorem stepTask_flags (hstep : s.stepTask t choice = some s') (hmarks : t.marks = false) :
    s'.core.restartPending = s.core.restartPending := by
  have hgate : ∀ (i : InstId) (caller : GateCaller) (result : StartResult),
      (s.gateDone i caller result).core = s.core := by
    intro i caller result
    have hresumes : Resumes caller.isBoot false (GateNext i caller result) s
        (s.gateDone i caller result) := .gateDone s i caller result
    exact hresumes.core
  cases t with
  | restartFn => cases hmarks
  | restartStop => cases hmarks
  | checkFailure => cases hmarks
  | start i pc caller => exact stepStart_flags hstep
  | gate i caller =>
    rcases stepGate_cases hstep with ⟨rfl, -⟩ | rfl
    · rfl
    · rw [hgate]
  | notify i caller result =>
    simp only [State.stepTask] at hstep
    split at hstep <;> cases hstep <;> rw [hgate]
  | shutdown code caller =>
    simp only [State.stepTask] at hstep
    split_ifs at hstep <;> cases hstep
    · rw [(Resumes.shutdownDone false false s caller).core]
    · rfl
  | _ =>
    -- the other goroutines leave the flags where they are in each of their branches
    simp only [State.stepTask] at hstep
    repeat' split at hstep
    all_goals
      cases hstep
      try rfl

theorem MainEvent.flags (h : MainEvent s choice s') :
    s'.core.restartPending ⊆ s.core.restartPending := by
  cases h with
  | @exited pid status times =>
    unfold State.stepReaped
    split
    · exact Finset.Subset.refl _
    · rw [Core.handleExit_restartPending]
      exact Finset.erase_subset _ _
  | _ => exact Finset.Subset.refl _

/-- Only three kinds of goroutines set flags. -/
theorem step_flags (hconfigured : Configured s) (hstep : s.step action = some s')
    (hmarks : ∀ t choice, action = .run t choice → t.marks = false) :
    s'.core.restartPending ⊆ s.core.restartPending := by
  cases (step_cases hstep).2 with
  | run hmem htask => exact (stepTask_flags htask (hmarks _ _ rfl)).subset
  | fork hfork =>
    obtain ⟨i, caller, -, ⟨pid, -, -, h⟩ | ⟨-, h⟩⟩ := stepFork_cases hfork
    · rw [h.core]
      exact Finset.Subset.refl _
    · rw [h.core]
  | reload hreload =>
    rcases stepReload_cases hreload with hframe | ⟨origin, cfg, startOrder, hlocking, -, -, rfl⟩
    · obtain ⟨_, _, _, _, _, rfl⟩ := hframe.eq
      exact Finset.Subset.refl _
    · obtain ⟨dones, hreloaded⟩ := hconfigured.reloaded hlocking
      exact hreloaded.restartPending.subset
  | stopAll hstop => exact (stepStopAll_frame hstop).pending.subset
  | main hmain =>
    rcases stepMain_cases hmain with hframe | hevent
    · exact hframe.pending.subset
    · exact hevent.flags
  | _ => exact Finset.Subset.refl _

theorem mem_stopForRestart {c : Core} (h : name ∈ (c.stopForRestart i).restartPending) :
    name ∈ c.restartPending ∨ c.isRunning i = true ∧ c.name i = name := by
  unfold Core.stopForRestart at h
  dsimp only [Core.serviceRestarted] at h
  split at h
  · next hrunning =>
      rcases Finset.mem_insert.mp h with rfl | hbefore
      · exact .inr ⟨hrunning, rfl⟩
      · exact .inl hbefore
  · exact .inl h

theorem mem_checkLoop {check : String} {s₀ : State} (hquiet : Quiet s₀.core s.core)
    (h : name ∈ (State.checkLoop check names s).core.restartPending) :
    name ∈ s.core.restartPending ∨
      ∃ i ∈ (s₀.checkPlan check names).1, s₀.core.isRunning i = true ∧ s₀.core.name i = name := by
  induction names generalizing s with
  | nil => exact .inl h
  | cons head names ih =>
    rcases checkLoop_cases names hquiet with
      ⟨code, -, heq⟩ | ⟨i, hreaction, heq⟩ | ⟨⟨hasked, hrestart⟩, heq⟩ <;> rw [heq] at h
    · exact .inl h
    · rw [checkPlan_of_restart hreaction]
      rcases ih (hquiet.trans (.stopForRestart s.core i)) h with hbefore | ⟨j, hj, hnamed⟩
      · rcases mem_stopForRestart hbefore with hbefore | ⟨hrunning, hname⟩
        · exact .inl hbefore
        · rw [hquiet.running] at hrunning
          rw [hquiet.name] at hname
          exact .inr ⟨i, List.mem_cons_self, hrunning, hname⟩
      · exact .inr ⟨j, List.mem_cons_of_mem _ hj, hnamed⟩
    · rw [checkPlan_of_none hasked hrestart]
      exact ih hquiet h

theorem mem_restartFn (turn : Choice) {service : String}
    (h : name ∈ (s.restartFn service wait).core.restartPending) :
    name ∈ s.core.restartPending ∨ ∃ i ∈ s.restartTargets (.run (.restartFn service wait) turn),
      s.core.isRunning i = true ∧ s.core.name i = name := by
  unfold State.restartFn at h
  split at h
  · exact .inl h
  · next i hlookup =>
      split_ifs at h with hshut hordered
      · exact .inl h
      · cases wait <;> exact .inl h
      · rcases mem_stopForRestart h with hbefore | ⟨hrunning, hname⟩
        · exact .inl hbefore
        · refine .inr ⟨i, ?_, hrunning, hname⟩
          simp only [Bool.or_eq_true, decide_eq_true_eq, not_or] at hordered
          simp [State.restartTargets, hlookup, hshut, hordered.1, not_not.mp hordered.2]

theorem mem_marked :
    i ∈ s.marked action ↔ i ∈ s.restartTargets action ∧ s.core.isRunning i = true :=
  List.mem_filter

/-- A flag was set before, or it is set for one of the marked services. -/
theorem step_marked (hconfigured : Configured s) (hstep : s.step action = some s')
    (hname : name ∈ s'.core.restartPending) :
    name ∈ s.core.restartPending ∨ ∃ i ∈ s.marked action, s.core.name i = name := by
  by_cases hmarks : ∃ t choice, action = .run t choice ∧ t.marks = true
  · obtain ⟨t, choice, rfl, hmarks⟩ := hmarks
    obtain ⟨-, htask⟩ := step_run hstep
    cases t with
    | restartFn service wait =>
      simp only [State.stepTask] at htask
      split_ifs at htask
      cases htask
      rcases mem_restartFn choice hname with hbefore | ⟨i, hi, hrunning, hnamed⟩
      · exact .inl hbefore
      · exact .inr ⟨i, mem_marked.mpr ⟨hi, hrunning⟩, hnamed⟩
    | restartStop r leg rest =>
      simp only [State.stepTask] at htask
      split_ifs at htask with _ hshut <;> cases htask
      · exact .inl hname
      · rcases mem_stopForRestart hname with hbefore | ⟨hrunning, hnamed⟩
        · exact .inl hbefore
        · refine .inr ⟨leg, mem_marked.mpr ⟨?_, hrunning⟩, hnamed⟩
          simpa [State.restartTargets] using hshut
    | checkFailure check =>
      simp only [State.stepTask] at htask
      split at htask
      · split_ifs at htask with _ hshut <;> cases htask
        · exact .inl hname
        · next names =>
            have hquiet : Quiet s.core (s.called check).core := .refl s.core
            rcases mem_checkLoop hquiet hname with hbefore | ⟨i, hi, hrunning, hnamed⟩
            · exact .inl hbefore
            · refine .inr ⟨i, mem_marked.mpr ⟨?_, hrunning⟩, hnamed⟩
              simpa [State.restartTargets, hshut] using hi
      · cases htask
    | _ => cases hmarks
  · refine .inl (step_flags hconfigured hstep ?_ hname)
    intro t choice haction
    exact Bool.eq_false_iff.mpr fun h => hmarks ⟨t, choice, haction, h⟩

/-- The exit of a process takes the flag of its name. -/
theorem exit_takes_flag (hmain : s.main = .reaped pid status)
    (hmap : s.core.pidMap.lookup pid = some i) (hstep : s.step (.main choice) = some s') :
    s.core.name i ∉ s'.core.restartPending := by
  obtain ⟨times, -, -, rfl⟩ := step_reaped hmain hstep
  simp only [State.stepReaped, hmap, Core.handleExit_restartPending]
  change _ ∉ s.core.restartPending.erase (({ s.core with
    pidMap := s.core.pidMap.erase pid }.markExited i).name i)
  rw [CoreBooks.markExited_name]
  exact Finset.notMem_erase _ _

end

/-- The process `pid` of an object stays in `pidMap` until the reap loop records
its exit, with the same done channel and under the same name. -/
theorem Books.step_mapped (hbooks : Books s) (hclean : s.cleanStart action = true)
    (hstep : s.step action = some s') (hmap : s.core.pidMap.lookup pid = some i)
    (hexit : ∀ status times, s.main = .reaped pid status → action ≠ .main (.times times)) :
    s'.core.pidMap.lookup pid = some i ∧ s'.core.done i = s.core.done i ∧
      s'.core.name i = s.core.name i := by
  have hrunning := (hbooks.core.mapped pid i hmap).1
  cases step_core hstep with
  | quiet hquiet => exact ⟨by rw [hquiet.pidMap, hmap], hquiet.done i, hquiet.name i⟩
  | @forked j caller new _ hforking hfree hcore =>
    have hji : i ≠ j := by
      rintro rfl
      rw [(hbooks.forking i caller hforking).2] at hrunning
      cases hrunning
    have hne : pid ≠ new := by
      rintro rfl
      simp only [State.cleanStart, State.bookedPids, decide_eq_true_eq, List.mem_append,
        not_or] at hclean
      exact hclean.1.1 (GoMap.mem_keys.mpr (by rw [hmap]; rfl))
    rw [hcore]
    refine ⟨?_, ?_, CoreBooks.finishStart_name i⟩
    · change (s.core.pidMap.insert new j).lookup pid = some i
      rw [GoMap.lookup_insert, if_neg hne, hmap]
    · change (s.core.finishStart j new).done i = s.core.done i
      rw [CoreBooks.finishStart_done, if_neg hji]
  | @oneshotStarted j todo procs pos new _ hmain hfree hcore =>
    have hji : i ≠ j := by
      rintro rfl
      simp [State.cleanStart, hmain, hrunning] at hclean
    rw [hcore]
    refine ⟨hmap, ?_, CoreBooks.finishStart_name i⟩
    change (s.core.finishStart j new).done i = s.core.done i
    rw [CoreBooks.finishStart_done, if_neg hji]
  | oneshotTimedOut _ hcore =>
    rw [hcore]
    exact ⟨hmap, rfl, rfl⟩
  | @oneshotExited waiting j status arrived fatal code pos _ hmain hcore =>
    have hji : i ≠ j := by
      rintro rfl
      refine (hbooks.oneshots i ?_).2 pid hmap
      simp [hmain, MainPc.layerOneshots]
    rw [hcore]
    refine ⟨hmap, ?_, CoreBooks.markExited_name i⟩
    change (s.core.markExited j).done i = s.core.done i
    rw [CoreBooks.markExited_done, if_neg hji]
  | @exited reaped status times j _ hmain _ hother hcore =>
    have hne : pid ≠ reaped := by
      rintro rfl
      exact hexit status times hmain rfl
    have hji : i ≠ j := by
      rintro rfl
      exact hne ((hbooks.core.mapped pid i hmap).2.symm.trans
        (hbooks.core.mapped reaped i hother).2)
    have hsame := handleExit_sameRuns s.core s.shuttingDown j reaped status times
    rw [hcore, hsame.pidMap, hsame.done, hsame.name]
    refine ⟨?_, ?_, CoreBooks.recordExit_name i⟩
    · change (s.core.pidMap.erase reaped).lookup pid = some i
      rw [GoMap.lookup_erase, if_neg hne, hmap]
    · rw [CoreBooks.recordExit_done, if_neg hji]
  | reloaded hlocking =>
    obtain ⟨dones, hreloaded, -⟩ := reloadSection_reloaded hbooks.core.toAllocated
      (hbooks.loaded _ _ _ hlocking) _ _
    have hi := hbooks.core.lt_of_running hrunning
    exact ⟨by rw [hreloaded.pidMap, hmap], hreloaded.done i hi, hreloaded.name i hi⟩
  | children _ hcore =>
    rw [hcore]
    exact ⟨hmap, rfl, rfl⟩

structure Marked where
  state : State
  stopped : String → Option (InstId × Option Chan)

namespace Marked

def Begins (x : Marked) : Prop :=
  Boots x.state

def next (x : Marked) (action : Action) (name : String) : Option (InstId × Option Chan) :=
  match (x.state.marked action).find? (fun i => x.state.core.name i = name) with
  | some i => some (i, x.state.core.done i)
  | none => x.stopped name

def step (x : Marked) (action : Action) : Option Marked :=
  (x.state.step action).map fun s' => ⟨s', x.next action⟩

/-- The object whose exit the reap loop handles in the step without counting it,
because the flag of its name is set. -/
def suppressed (x : Marked) : Action → Option InstId
  | .main (.times _) =>
    match x.state.main with
    | .reaped pid _ =>
      (x.state.core.pidMap.lookup pid).filter fun i =>
        x.state.core.name i ∈ x.state.core.restartPending
    | _ => none
  | _ => none

/-- Starts are orderly, and what is stopped for a restart is a process that the
reap loop knows. -/
def careful (x : Marked) (action : Action) : Bool :=
  x.state.orderlyStart action &&
    (x.state.marked action).all fun i =>
      x.state.core.pidMap.lookup (x.state.core.heap i).pid = some i

structure Sound (x : Marked) : Prop where
  orderly : Orderly x.state
  configured : Configured x.state
  flagged : ∀ name ∈ x.state.core.restartPending, ∃ i pid,
    x.stopped name = some (i, x.state.core.done i) ∧ x.state.core.name i = name ∧
      x.state.core.pidMap.lookup pid = some i

section

variable {x x' : Marked} {action : Action}

theorem next_of_marked (hi : i ∈ x.state.marked action) :
    ∃ j ∈ x.state.marked action, x.state.core.name j = x.state.core.name i ∧
      x.next action (x.state.core.name i) = some (j, x.state.core.done j) := by
  unfold next
  cases hfind : (x.state.marked action).find?
      (fun j => x.state.core.name j = x.state.core.name i) with
  | none => simpa using List.find?_eq_none.mp hfind i hi
  | some j =>
    have hname := List.find?_some hfind
    exact ⟨j, List.mem_of_find?_eq_some hfind, of_decide_eq_true hname, rfl⟩

/-- Before the step the process that the flag will stand for is in `pidMap`. -/
theorem Sound.marked_before (h : x.Sound) (hcareful : x.careful action = true)
    (hstep : x.state.step action = some s') (hname : name ∈ s'.core.restartPending) : ∃ i pid,
      x.next action name = some (i, x.state.core.done i) ∧ x.state.core.name i = name ∧
        x.state.core.pidMap.lookup pid = some i := by
  simp only [careful, Bool.and_eq_true, List.all_eq_true, decide_eq_true_eq] at hcareful
  have hmarked : (∃ i ∈ x.state.marked action, x.state.core.name i = name) → ∃ i pid,
      x.next action name = some (i, x.state.core.done i) ∧ x.state.core.name i = name ∧
        x.state.core.pidMap.lookup pid = some i := by
    rintro ⟨i, hi, rfl⟩
    obtain ⟨j, hj, hsame, hnext⟩ := next_of_marked hi
    exact ⟨j, _, hnext, hsame, hcareful.2 j hj⟩
  rcases step_marked h.configured hstep hname with hbefore | hnew
  · by_cases hagain : ∃ i ∈ x.state.marked action, x.state.core.name i = name
    · exact hmarked hagain
    · obtain ⟨i, pid, hstopped, hnamed, hmap⟩ := h.flagged name hbefore
      refine ⟨i, pid, ?_, hnamed, hmap⟩
      have hfind : (x.state.marked action).find? (fun i => x.state.core.name i = name) = none := by
        rw [List.find?_eq_none]
        intro j hj hsame
        exact hagain ⟨j, hj, of_decide_eq_true hsame⟩
      rw [next, hfind, hstopped]
  · exact hmarked hnew

theorem Sound.step (h : x.Sound) (hcareful : x.careful action = true)
    (hstep : x.step action = some x') : x'.Sound := by
  obtain ⟨s', hs', rfl⟩ := Option.map_eq_some_iff.mp hstep
  have horderly : x.state.orderlyStart action = true := (Bool.and_eq_true_iff.mp hcareful).1
  have hclean : x.state.cleanStart action = true := (Bool.and_eq_true_iff.mp horderly).1
  refine ⟨h.orderly.step horderly hs', h.configured.step hs', fun name hname => ?_⟩
  obtain ⟨i, pid, hnext, hnamed, hmap⟩ := h.marked_before hcareful hs' hname
  have hexit : ∀ status times, x.state.main = .reaped pid status →
      action ≠ .main (.times times) := by
    rintro status times hmain rfl
    exact exit_takes_flag hmain hmap hs' (hnamed ▸ hname)
  obtain ⟨hmap', hdone, hname'⟩ := h.orderly.books.step_mapped hclean hs' hmap hexit
  exact ⟨i, pid, by rw [hdone]; exact hnext, hname'.trans hnamed, hmap'⟩

theorem sound_of_reached
    (hreached : Transition.Reached Begins step (fun x action => x.careful action = true) x) :
    x.Sound := by
  apply hreached.invariant
  · intro x hboots
    refine ⟨.of_fresh hboots.fresh, .of_fresh hboots.fresh, fun name hname => ?_⟩
    obtain ⟨processes, controlSocket, hbuilt⟩ := hboots.fresh.built
    rw [hbuilt.restartPending] at hname
    exact absurd hname (Finset.notMem_empty name)
  · intro x action x' h hcareful hstep
    exact h.step hcareful hstep

theorem suppressed_eq (h : x.suppressed action = some i) :
    ∃ pid, x.state.core.pidMap.lookup pid = some i ∧
      x.state.core.name i ∈ x.state.core.restartPending := by
  unfold suppressed at h
  split at h
  · split at h
    · next pid _ _ =>
        obtain ⟨hmap, hflag⟩ := Option.filter_eq_some_iff.mp h
        exact ⟨pid, hmap, of_decide_eq_true hflag⟩
    · cases h
  · cases h

/-- In every run of orderly starts in which only processes that the reap loop
knows are stopped for a restart, a flag does not outlive the process it was set
for, and an exit that is not counted is that of this very process. -/
theorem suppressed_exit_is_restarted
    (hreached : Transition.Reached Begins step (fun x action => x.careful action = true) x) :
    (∀ name ∈ x.state.core.restartPending, ∃ i,
      x.stopped name = some (i, x.state.core.done i) ∧ x.state.core.name i = name ∧
        x.state.core.isRunning i = true) ∧
      ∀ action i, x.suppressed action = some i →
        x.stopped (x.state.core.name i) = some (i, x.state.core.done i) := by
  have h := sound_of_reached hreached
  have hmapped := h.orderly.books.core.mapped
  constructor
  · intro name hname
    obtain ⟨i, pid, hstopped, hnamed, hmap⟩ := h.flagged name hname
    exact ⟨i, hstopped, hnamed, (hmapped pid i hmap).1⟩
  · intro action i hsuppressed
    obtain ⟨pid, hmap, hflag⟩ := suppressed_eq hsuppressed
    obtain ⟨j, pid', hstopped, hnamed, hmap'⟩ := h.flagged _ hflag
    obtain rfl := h.orderly.single.unique j i (hmapped pid' j hmap').1 (hmapped pid i hmap).1 hnamed
    exact hstopped

end

def run (ok : Marked → Action → Bool) (input : BootInput) (actions : List Action) :
    Option Marked :=
  (boot input).bind fun s => Transition.exec step ok ⟨s, fun _ => none⟩ actions

theorem reached_of_run {ok : Marked → Action → Bool} (hrun : run ok input actions = some x) :
    Transition.Reached Begins step (fun x action => ok x action = true) x := by
  obtain ⟨s, hboot, hexec⟩ := Option.bind_eq_some_iff.mp hrun
  exact ⟨⟨s, fun _ => none⟩, ⟨input, hboot⟩, .of_exec hexec⟩

def restartRequestActions (name : String) : List Action :=
  [.request (.restart name false), .run (.restartFn name false) .go]

def restartInBootActions : List Action :=
  [.main .go, .main .go, .main (.child 100), .main .go] ++ restartRequestActions "migrate" ++
    [.childExit 100 (.exited 0), .main (.child 100)] ++ List.replicate 9 (.main .go)

def restartedFailsActions : List Action :=
  [.run (.sender ⟨0, some 0, 0⟩) .go, .dispatch, .run (.handler ⟨0, some 0, 0⟩) .go] ++
    startActions 0 .request 101 ++ [.childExit 101 (.exited 1), .main (.child 101)]

def migrateProcess : Process :=
  { namedProcess "migrate" with startup := .oneshot }

/-- The flag set for the process that boot has waited for makes the failure of
the next process go uncounted. -/
theorem boot_flag_hides_failure : ∃ x,
    run (fun _ _ => true) (plainInput [migrateProcess])
      (restartInBootActions ++ restartedFailsActions) = some x ∧
    x.state.main = .reaped 101 (.exited 1) ∧ x.suppressed (.main (.times ⟨0, 0⟩)) = some 0 ∧
    x.state.core.name 0 = "migrate" ∧ x.stopped "migrate" = some (0, some 0) ∧
    x.state.core.done 0 = some 1 := by
  have hrun : (run (fun _ _ => true) (plainInput [migrateProcess])
      (restartInBootActions ++ restartedFailsActions)).map (fun x =>
        decide (x.state.main = .reaped 101 (.exited 1) ∧
          x.suppressed (.main (.times ⟨0, 0⟩)) = some 0 ∧ x.state.core.name 0 = "migrate" ∧
          x.stopped "migrate" = some (0, some 0) ∧ x.state.core.done 0 = some 1)) = some true := by
    decide +kernel
  obtain ⟨x, hx, hfacts⟩ := Option.map_eq_some_iff.mp hrun
  exact ⟨x, hx, of_decide_eq_true hfacts⟩

/-- The exit that a restart of a booted `web` hides is that of the process that
was stopped for it. -/
theorem web_restart_hides_own_exit : ∃ x,
    run careful (plainInput [webProcess]) (bootActions 100 ++ restartRequestActions "web" ++
      [.childExit 100 (.signaled 15), .main (.child 100)]) = some x ∧
    x.suppressed (.main (.times ⟨0, 0⟩)) = some 0 ∧
    x.stopped (x.state.core.name 0) = some (0, x.state.core.done 0) := by
  have hrun : (run careful (plainInput [webProcess]) (bootActions 100 ++
      restartRequestActions "web" ++ [.childExit 100 (.signaled 15), .main (.child 100)])).map
        (fun x => decide (x.suppressed (.main (.times ⟨0, 0⟩)) = some 0)) = some true := by
    decide +kernel
  obtain ⟨x, hx, hsuppressed⟩ := exists_of_decide hrun
  exact ⟨x, hx, hsuppressed, (suppressed_exit_is_restarted (reached_of_run hx)).2 _ 0 hsuppressed⟩

end Marked

end Gopherd.Daemon
