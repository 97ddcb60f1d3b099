import Gopherd.Daemon.Shutdown

namespace Gopherd.Daemon

open Go

def MainPc.launching : MainPc → Bool
  | .spawn .. | .join _ => true
  | _ => false

theorem depsNext_isBoot (r : Restart) (deps : List InstId) : (depsNext r deps).isBoot = false := by
  cases deps <;> rfl

variable {t : Task} {s : State}

theorem GateNext.isBoot (h : GateNext i caller result t) : t.isBoot = false := by
  cases h <;> first | rfl | exact depsNext_isBoot _ _

theorem StartNext.isBoot (h : StartNext i caller result t) (ht : t.isBoot = true) :
    caller.isBoot = true := by
  cases h with
  | notify => exact ht
  | gate h => rw [h.isBoot] at ht; cases ht
  | _ => cases ht

theorem ShutdownNext.isBoot (h : ShutdownNext caller t) : t.isBoot = false := by
  cases h <;> rfl

theorem Follows.isBoot (h : Follows s t t') (ht : t'.isBoot = true) : t.isBoot = true := by
  cases h with
  | gate => exact ht
  | gateFailed h => rw [h.isBoot] at ht; cases ht
  | startCondition => exact ht
  | startPrepare => exact ht
  | startSkipped h | startFailed h | startLate _ h | startReplaced _ h | startRunning _ h =>
    exact h.isBoot ht
  | notify h | notifyFailed h | shutdown h => rw [h.isBoot] at ht; cases ht
  | _ => cases ht

theorem Task.unobserved_isBoot (t : Task) : t.unobserved.isBoot = t.isBoot := by
  cases t with
  | gate i caller => cases caller <;> rfl
  | notify i caller result => cases caller <;> rfl
  | start i pc caller =>
    cases caller with
    | gate caller => cases caller <;> rfl
    | _ => rfl
  | shutdown code caller => cases caller <;> rfl
  | _ => rfl

/-- A goroutine of the boot layer comes from another one or from main. -/
theorem NewTask.isBoot (h : NewTask s action t) (ht : t.isBoot = true) :
    s.bootDone = false ∨ ∃ choice name todo pos, action = .main choice ∧
      s.main = .spawn (name :: todo) pos := by
  have htask : ∀ t₀ ∈ s.tasks, t₀.isBoot = true → s.bootDone = false := by
    intro t₀ hmem hboot
    have : s.tasks.any Task.isBoot = true := List.any_eq_true.mpr ⟨t₀, hmem, hboot⟩
    simp [State.bootDone, this]
  have hfork : ∀ i caller, s.forking = some (i, caller) → caller.isBoot = true →
      s.bootDone = false := by
    intro i caller hforking hboot
    simp [State.bootDone, hforking, hboot]
  cases h with
  | follows hmem h => exact .inl (htask _ hmem (h.isBoot ht))
  | unobserved hmem h =>
    rw [Task.unobserved_isBoot] at ht
    exact .inl (htask _ hmem ht)
  | forked hforking h => exact .inl (hfork _ _ hforking (h.isBoot ht))
  | forkFailed hforking h => exact .inl (hfork _ _ hforking (h.isBoot ht))
  | stopped _ _ h => rw [h.isBoot] at ht; cases ht
  | main h =>
    cases h with
    | gate hmain => exact .inr ⟨_, _, _, _, rfl, hmain⟩
    | _ => cases ht
  | arrives h =>
    cases h with
    | @request request => cases request <;> cases ht
    | _ => cases ht
  | _ => cases ht

theorem State.bootDone_iff (s : State) :
    s.bootDone = true ↔ (∀ t ∈ s.tasks, t.isBoot = false) ∧
      ∀ i caller, s.forking = some (i, caller) → caller.isBoot = false := by
  unfold State.bootDone
  rcases hforking : s.forking with _ | ⟨i, caller⟩ <;> simp

/-- A goroutine stays until it is its turn. -/
theorem step_keeps (hstep : s.step action = some s') (ht : t ∈ s.tasks) :
    t ∈ s'.tasks ∨ (∃ choice, action = .run t choice) ∨
      (t.isObserved = true ∧ ∃ choice, action = .giveUp t choice) := by
  have hadds : ∀ {s₁ : State} {next : Task → Prop}, Adds s₁ s' next → t ∈ s₁.tasks →
      t ∈ s'.tasks := by
    rintro s₁ next (hsame | ⟨new, hnew, -⟩) hmem
    · exact hsame ▸ hmem
    · exact hnew ▸ List.mem_cons_of_mem _ hmem
  obtain ⟨-, hstepped⟩ := step_cases hstep
  cases hstepped with
  | @run running choice _ hmem htask =>
    by_cases heq : t = running
    · exact .inr (.inl ⟨choice, by rw [heq]⟩)
    · have hrest : t ∈ s.tasks.erase running := (List.mem_erase_of_ne heq).mpr ht
      rcases (stepTask_frame htask).tasks with h | ⟨-, new, hnew, -⟩
      · exact .inl (hadds h hrest)
      · exact .inl (hnew ▸ List.mem_append_right new hrest)
  | @giveUp given choice _ hmem hobserved =>
    by_cases heq : t = given
    · exact .inr (.inr ⟨heq ▸ hobserved, choice, by rw [heq]⟩)
    · exact .inl (List.mem_cons_of_mem _ ((List.mem_erase_of_ne heq).mpr ht))
  | fork hfork =>
    obtain ⟨i, caller, -, ⟨pid, -, -, h⟩ | ⟨-, h⟩⟩ := stepFork_cases hfork
    all_goals exact .inl (hadds h.tasks ht)
  | reload hreload =>
    rcases stepReload_cases hreload with hframe | ⟨origin, cfg, startOrder, -, -, -, rfl⟩
    · exact .inl (hadds hframe.tasks ht)
    · obtain ⟨_, _, _, _, _, heq⟩ := reloadSection_eq s origin cfg startOrder
      rw [heq]
      exact .inl ht
  | stopAll hstop => exact .inl (hadds (stepStopAll_frame hstop).tasks ht)
  | main hmain =>
    rcases stepMain_cases hmain with hframe | hevent
    · exact .inl (hadds hframe.tasks ht)
    · obtain ⟨_, _, rfl⟩ := hevent.eq
      exact .inl ht
  | dispatch => exact .inl (List.mem_cons_of_mem _ ht)
  | arrives => exact .inl (List.mem_cons_of_mem _ ht)
  | child => exact .inl ht
  | forward | touch => exact .inl ht

def State.reloadStarting (s : State) : Prop :=
  (∃ i pc, .start i pc .reload ∈ s.tasks) ∨ ∃ i, s.forking = some (i, .reload)

structure Progress (s : State) : Prop extends Teardown s where
  started : s.main.booting = false → s.main.ended = false → s.started = true
  launched : s.main.launching = false → s.main.ended = false → s.bootDone = true
  reloadStarting : ∀ origin rest, s.reload = .startWait origin rest → s.reloadStarting
  restartClosed : s.restartClosed = true → s.main.sealed = true
  notPanicked : s.main ≠ .panicked

namespace Progress

variable {s s' : State} {action : Action}

theorem of_fresh (hfresh : Fresh s) : Progress s := by
  obtain ⟨layers, hmain⟩ := hfresh.main
  refine ⟨.of_fresh hfresh, ?_, ?_, ?_, ?_, ?_⟩
  · simp [hmain, MainPc.booting]
  · simp [State.bootDone, hfresh.tasks, hfresh.forking]
  · simp [hfresh.reload]
  · simp [hfresh.restartClosed]
  · simp [hmain]

theorem step_started_of_begun (hprogress : Progress s) (hstep : s.step action = some s')
    (hbooted : s'.main.booting = false) (hended : s'.main.ended = false) : s'.started = true := by
  have hkept : s.main.booting = false → s'.started = true := by
    intro hbefore
    rcases (step_frame hstep).started with hsame | ⟨-, -, h⟩
    · rw [hsame]
      exact hprogress.started hbefore (step_cases hstep).1
    · exact h
  cases step_main hstep with
  | same h => exact hkept (h ▸ hbooted)
  | aborted h => rw [h] at hended; cases hended
  | panicked h => rw [h] at hended; cases hended
  | event h =>
    cases h with
    | reaped hmain => exact hkept (by rw [hmain]; rfl)
    | exited hmain => exact hkept (by rw [hmain]; rfl)
    | _ => cases hbooted
  | @moved choice _ h =>
    by_cases hbefore : s.main.booting = true
    · have hbegin : s.main = .begin := by
        have hmove := h.move
        generalize s.main = before, s'.main = after at hmove hbooted hended hbefore
        cases hmove <;> simp_all [MainPc.booting, MainPc.ended]
      have hmain := step_mainLoop hstep
      simp only [State.stepMain, State.stepBoot, hbegin, Option.some.injEq] at hmain
      rw [← hmain]
    · exact hkept (by simpa using hbefore)

theorem step_launched (hprogress : Progress s) (hstep : s.step action = some s')
    (hlaunched : s'.main.launching = false) (hended : s'.main.ended = false) :
    s'.bootDone = true := by
  -- main leaves a layer only once its goroutines are done
  have hbefore : s.bootDone = true := by
    by_cases h : s.main.launching = true
    · cases step_main hstep with
      | same hsame => rw [hsame, h] at hlaunched; cases hlaunched
      | aborted h => rw [h] at hended; cases hended
      | panicked h => rw [h] at hended; cases hended
      | moved hframe =>
        have hmove := hframe.move
        generalize s.main = before, s'.main = after at hmove h hlaunched
        cases hmove <;> simp_all [MainPc.launching]
      | event hevent => cases hevent <;> simp_all [MainPc.launching]
    · exact hprogress.launched (by simpa using h) (step_cases hstep).1
  obtain ⟨htasks, hforking⟩ := s.bootDone_iff.mp hbefore
  refine s'.bootDone_iff.mpr ⟨?_, ?_⟩
  · intro t ht
    rcases step_tasks hstep ht with hold | hnew
    · exact htasks t hold
    · by_contra hboot
      rcases hnew.isBoot (by simpa using hboot) with hbusy | ⟨choice, name, todo, pos, rfl, hmain⟩
      · rw [hbefore] at hbusy
        cases hbusy
      · have hspawn := step_mainLoop hstep
        simp only [State.stepMain, State.stepBoot, hmain] at hspawn
        split at hspawn <;> (try split at hspawn) <;> cases hspawn <;> cases hlaunched
  · intro i caller hfork
    cases step_forking hstep with
    | same h => exact hforking i caller (h ▸ hfork)
    | locked hmem _ _ _ _ h =>
      rw [h] at hfork
      cases hfork
      exact htasks _ hmem
    | released h => rw [h] at hfork; cases hfork

variable {origin : ReloadOrigin} {rest : List InstId}

/-- A start made for the reload goes on until it returns to it. -/
theorem start_reloadStarting (hstep : s.stepStart i .reload choice pc = some s')
    (hbefore : s.reload = .startWait origin rest) (hwait : s'.reload = s.reload) :
    s'.reloadStarting := by
  rcases stepStart_cases hstep with ⟨core, result, -, rfl⟩ | ⟨next, rfl⟩ | ⟨-, rfl⟩
  · simp [State.startDone, State.setCore, hbefore] at hwait
  · exact .inl ⟨i, next, List.mem_cons_self⟩
  · exact .inr ⟨i, rfl⟩

theorem fork_reload (hforking : s.forking = some (i, .reload))
    (hstep : s.stepFork choice = some s') (hwait : s.reload = .startWait origin rest) :
    s'.reload = .starting origin rest := by
  simp only [State.stepFork, hforking] at hstep
  split at hstep
  · split_ifs at hstep
    cases hstep
    simp [State.startDone, hwait]
  · cases hstep
    simp [State.startDone, hwait]
  · cases hstep

theorem reloadSection_not_startWait (s : State) (origin : ReloadOrigin) (cfg : Config)
    (startOrder : List String) :
    (s.reloadSection origin cfg startOrder).reload ≠ .startWait origin' rest := by
  unfold State.reloadSection
  split
  · cases origin <;> simp [State.reloadReply, State.answer]
  · simp

theorem step_reloadStarting (hprogress : Progress s) (hstep : s.step action = some s')
    (hwait : s'.reload = .startWait origin rest) :
    s'.reloadStarting := by
  have hkept : s'.reload = s.reload → s'.reloadStarting := by
    intro hsame
    have hbefore : s.reload = .startWait origin rest := hsame ▸ hwait
    rcases hprogress.reloadStarting origin rest hbefore with ⟨i, pc, hmem⟩ | ⟨i, hforking⟩
    · rcases step_keeps hstep hmem with hstays | ⟨choice, rfl⟩ | ⟨hobserved, -⟩
      · exact .inl ⟨i, pc, hstays⟩
      · exact start_reloadStarting (step_run hstep).2 hbefore hsame
      · cases hobserved
    · cases step_forking hstep with
      | same h => exact .inr ⟨i, h ▸ hforking⟩
      | locked _ hfree => rw [hforking] at hfree; cases hfree
      | released _ =>
        have hreturned := fork_reload hforking (step_fork hstep) hbefore
        rw [hwait] at hreturned
        cases hreturned
  cases step_reload hstep with
  | same h => exact hkept h
  | started _ h => rw [hwait] at h; cases h
  | begun _ _ h => rw [hwait] at h; cases h
  | moved h =>
    have hmove := h.move
    rw [hwait] at hmove
    generalize hreload : s.reload = before at hmove
    cases hmove with
    | @start _ i _ =>
      have hspawn := step_reloading hstep
      simp only [State.stepReload, hreload, Option.some.injEq] at hspawn
      exact .inl ⟨i, .condition, hspawn ▸ List.mem_cons_self⟩
  | reloaded h => exact absurd hwait (reloadSection_not_startWait s _ _ _)

/-- After the boot nobody is left to abort it. -/
theorem not_aborting (hprogress : Progress s) (hlaunched : s.main.launching = false)
    (hended : s.main.ended = false) :
    ¬ ((∃ t ∈ s.tasks, t.isBoot = true) ∨
      ∃ i caller, s.forking = some (i, caller) ∧ caller.isBoot = true) := by
  obtain ⟨htasks, hforking⟩ := s.bootDone_iff.mp (hprogress.launched hlaunched hended)
  rintro (⟨t, hmem, hboot⟩ | ⟨i, caller, hfork, hboot⟩)
  · rw [htasks t hmem] at hboot
    cases hboot
  · rw [hforking i caller hfork] at hboot
    cases hboot

/-- No sender is left that could send on the closed channel. -/
theorem open_of_sender (hprogress : Progress s) (hmem : t ∈ s.tasks) (hsender : t.isSender = true) :
    s.restartClosed = false := by
  by_contra hclosed
  have hdone := hprogress.sendersDone (hprogress.restartClosed (by simpa using hclosed)) t hmem
  rw [hsender] at hdone
  cases hdone

theorem step_notPanicked (hprogress : Progress s) (hstep : s.step action = some s') :
    s'.main ≠ .panicked := by
  intro hpanicked
  cases step_main hstep with
  | same hsame => exact hprogress.notPanicked (hsame ▸ hpanicked)
  | aborted hafter => rw [hafter] at hpanicked; cases hpanicked
  | panicked _ hclosed hsender =>
    obtain ⟨t, hmem, ht⟩ := hsender
    rw [hprogress.open_of_sender hmem ht] at hclosed
    cases hclosed
  | moved hframe =>
    have hmove := hframe.move
    rw [hpanicked] at hmove
    generalize s.main = before at hmove
    cases hmove
  | event hevent =>
    have hlands := hevent.lands
    rw [hpanicked] at hlands
    cases hlands

theorem step_restartClosed (hprogress : Progress s) (hstep : s.step action = some s')
    (hclosed : s'.restartClosed = true) : s'.main.sealed = true := by
  rcases (step_frame hstep).restartClosed with hsame | hmain
  · have hended := (step_cases hstep).1
    have hmain : s.main = .closeTargets := by
      have hsealed := hprogress.restartClosed (hsame ▸ hclosed)
      generalize s.main = before at hsealed hended
      cases before <;> simp_all [MainPc.sealed, MainPc.ended]
    cases step_main hstep with
    | same hsame => rw [hsame, hmain]; rfl
    | aborted _ hboot => exact absurd hboot (hprogress.not_aborting (by rw [hmain]; rfl) hended)
    | panicked hafter => exact absurd hafter (hprogress.step_notPanicked hstep)
    | moved hframe =>
      have hmove := hframe.move
      rw [hmain] at hmove
      generalize s'.main = after at hmove
      cases hmove
      rfl
    | event hevent => cases hevent <;> simp_all
  · rw [hmain]
    rfl

theorem step (hprogress : Progress s) (hstep : s.step action = some s') : Progress s' :=
  ⟨hprogress.toTeardown.step hstep, hprogress.step_started_of_begun hstep,
    hprogress.step_launched hstep, fun _ _ => hprogress.step_reloadStarting hstep,
    hprogress.step_restartClosed hstep, hprogress.step_notPanicked hstep⟩

theorem of_reached {ok : State → Action → Prop} (hreached : Reached ok s) : Progress s :=
  hreached.invariant (fun _ hboots => of_fresh hboots.fresh) fun _ _ _ h _ => h.step

end Progress

end Gopherd.Daemon
