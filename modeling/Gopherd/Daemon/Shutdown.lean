import Gopherd.Daemon.BooksRun

/-!
The end of the reap loop. The loop may leave when it holds the lock and knows
no process any more.
-/

namespace Gopherd.Daemon

open Go

def MainPc.loopOver : MainPc → Bool
  | .loopEnd | .joinControl | .joinSenders | .closeTargets | .returned _ => true
  | _ => false

def MainPc.sealed : MainPc → Bool
  | .closeTargets | .returned _ => true
  | _ => false

theorem MainPc.loopOver_of_sealed {pc : MainPc} (h : pc.sealed = true) : pc.loopOver = true := by
  cases pc <;> first | rfl | cases h

def ReloadPc.waits : ReloadPc → List (Option Chan)
  | .waiting _ dones _ => dones
  | _ => []

/-- Starts are clean, and when the loop leaves because there were no children,
none has been forked since and no start is about to fork one. -/
def State.cleanEnd (s : State) (action : Action) : Bool :=
  s.cleanStart action &&
    match action, s.main with
    | .main _, .echild => !s.shuttingDown || (s.core.pidMap.isEmpty && s.unlocked)
    | _, _ => true

variable {s s' : State} {action : Action}

/-- Without a fork in progress no step makes an object run. -/
theorem CoreStep.running (h : CoreStep s action s') (hbooks : Books s)
    (hforking : s.forking = none) (hstarting : s.main.starting = none)
    (hj : s'.core.isRunning j = true) : s.core.isRunning j = true := by
  cases h with
  | quiet h => exact h.running j ▸ hj
  | forked h => rw [hforking] at h; cases h
  | oneshotStarted hmain => rw [hmain] at hstarting; cases hstarting
  | oneshotTimedOut _ hcore => rw [hcore] at hj; exact hj
  | oneshotExited _ hcore =>
    rw [hcore] at hj
    change (s.core.markExited _).isRunning j = true at hj
    rw [CoreBooks.markExited_running] at hj
    split_ifs at hj
    exact hj
  | @exited pid status times i _ _ _ _ hcore =>
    rw [hcore, (handleExit_sameRuns s.core s.shuttingDown i pid status times).running,
      CoreBooks.recordExit_running] at hj
    split_ifs at hj
    exact hj
  | @reloaded _ origin cfg startOrder hlocking =>
    obtain ⟨dones, hreloaded, -⟩ := hbooks.reloadSection hlocking
    by_cases hlt : j < s.core.nextInst
    · exact hreloaded.running j hlt ▸ hj
    · rcases hreloaded.fresh j (Nat.not_lt.mp hlt) with hsame | hnew
      · exact hsame.1 ▸ hj
      · rw [hnew.1] at hj
        cases hj
  | children _ hcore => rw [hcore] at hj; exact hj

theorem CoreStep.nextChan (h : CoreStep s action s') (hbooks : Books s) :
    s.core.nextChan ≤ s'.core.nextChan := by
  cases h with
  | quiet h => exact h.nextChan.ge
  | forked _ _ hcore => rw [hcore]; exact Nat.le_succ _
  | oneshotStarted _ _ hcore => rw [hcore]; exact Nat.le_succ _
  | oneshotTimedOut _ hcore => rw [hcore]; exact Nat.le_refl _
  | oneshotExited _ hcore => rw [hcore]; exact Nat.le_refl _
  | @exited pid status times i _ _ _ _ hcore =>
    rw [hcore, (handleExit_sameRuns s.core s.shuttingDown i pid status times).nextChan]
    exact Nat.le_refl _
  | @reloaded _ origin cfg startOrder hlocking =>
    obtain ⟨dones, hreloaded, -⟩ := hbooks.reloadSection hlocking
    exact hreloaded.nextChan.ge
  | children _ hcore => rw [hcore]

structure Teardown (s : State) : Prop where
  flag : s.shuttingDown = true ↔ s.stopAll ≠ .idle
  finished : s.stopAllDone = true ↔ s.stopAll = .finished
  closed : s.shuttingDown = true →
    (∃ code, s.stopAll = .closing code) ∨ s.shutdownClosed = true
  announced : s.shutdownClosed = true → s.shuttingDown = true
  late : s.main = .unmanagedLock → s.shuttingDown = true
  left : s.main.loopOver = true → s.shuttingDown = true
  joined : s.main.loopOver = true → s.main ≠ .loopEnd → s.stopAllDone = true
  sendersDone : s.main.sealed = true → ∀ t ∈ s.tasks, t.isSender = false

structure Shutdown (s : State) : Prop extends Teardown s where
  stopWaits : ∀ channel, some channel ∈ s.stopAll.waits → channel < s.core.nextChan
  reloadWaits : ∀ channel, some channel ∈ s.reload.waits → channel < s.core.nextChan
  ended : s.main.loopOver = true → s.forking = none ∧ ∀ i, s.core.isRunning i = false

/-- With no process on the books and no boot layer in progress nothing runs. -/
theorem Books.idle_of_empty (hbooks : Books s) (hempty : s.core.pidMap.isEmpty = true)
    (hlayer : s.main.layerOneshots = []) (hdoomed : s.main.doomed = false) (i : InstId) :
    s.core.isRunning i = false := by
  by_contra hrunning
  rcases hbooks.tracked i (by simpa using hrunning) with hmap | honeshot | hgone
  · rw [(GoMap.isEmpty_iff _).mp hempty] at hmap
    cases hmap
  · rw [hlayer] at honeshot
    cases honeshot
  · rw [hdoomed] at hgone
    cases hgone

/-- The reap loop leaves after an exit only with the flag set and an empty map. -/
theorem handleExit_leave {c : Core}
    (hleave : (c.handleExit shuttingDown i pid status times).2 = .leave) :
    shuttingDown = true ∧
      (c.handleExit shuttingDown i pid status times).1.pidMap.isEmpty = true := by
  cases shuttingDown with
  | false =>
    simp only [Core.handleExit, Bool.false_eq_true, if_false] at hleave
    generalize exitAction _ _ = action at hleave
    cases action <;> cases hleave
  | true =>
    simp only [Core.handleExit, if_true] at hleave ⊢
    split at hleave
    · next hempty =>
        refine ⟨trivial, ?_⟩
        rw [(SameRuns.countExit _ _ _ _).pidMap]
        exact hempty
    · cases hleave

theorem stepReaped_loopOver {pid : Pid}
    (hover : (s.stepReaped pid status times).main.loopOver = true) :
    s.shuttingDown = true ∧ (s.stepReaped pid status times).core.pidMap.isEmpty = true ∧
      (s.stepReaped pid status times).main = .loopEnd := by
  unfold State.stepReaped at hover ⊢
  cases hmap : s.core.pidMap.lookup pid with
  | none => simp [hmap, MainPc.loopOver] at hover
  | some i =>
    simp only [hmap] at hover ⊢
    have hleave : (s.core.handleExit s.shuttingDown i pid status times).2 = .leave := by
      generalize (s.core.handleExit s.shuttingDown i pid status times).2 = after at hover
      cases after <;> first | rfl | cases hover
    obtain ⟨hflag, hempty⟩ := handleExit_leave hleave
    exact ⟨hflag, hempty, by rw [hleave]; rfl⟩

/-- How the reap loop ends. -/
theorem MainMove.loopOver (hmove : MainMove s before after) (hafter : after.loopOver = true) :
    before.loopOver = true ∨ (before = .echild ∧ s.shuttingDown = true) ∨
      (before = .unmanagedLock ∧ s.core.pidMap.isEmpty = true ∧ s.unlocked = true) := by
  cases hmove with
  | leaveChildless h => exact .inr (.inl ⟨rfl, h⟩)
  | leaveUnmanaged hempty hunlocked => exact .inr (.inr ⟨rfl, hempty, hunlocked⟩)
  | loopLeft => exact .inl rfl
  | controlJoined => exact .inl rfl
  | sendersJoined => exact .inl rfl
  | targetsClosed => exact .inl rfl
  | _ => cases hafter

/-- The restart channel is closed only when no sender is left. -/
theorem MainMove.sealed (hmove : MainMove s before after) (hafter : after.sealed = true) :
    before.sealed = true ∨ before = .joinSenders ∧ s.tasks.any Task.isSender = false := by
  cases hmove with
  | sendersJoined h => exact .inr ⟨rfl, h⟩
  | targetsClosed => exact .inl rfl
  | _ => cases hafter

/-- With the shutdown flag set only the exit of a service makes a sender. -/
theorem NewTask.not_sender (h : NewTask s action t) (hflag : s.shuttingDown = true)
    (hmain : ∀ req, s.main ≠ .enqueue req) : t.isSender = false := by
  have hcontinues : ∀ {t : Task}, t.isContinuation = true → t.isSender = false := by
    intro t ht
    cases t <;> first | rfl | cases ht
  cases h with
  | follows _ h =>
    cases h with
    | restartPlain _ hshut => rw [hflag] at hshut; cases hshut
    | checkRestart hshut => rw [hflag] at hshut; cases hshut
    | gateFailed h | startSkipped h | startFailed h | startLate _ h | startReplaced _ h
    | startRunning _ h | notify h | notifyFailed h | shutdown h => exact hcontinues h.isContinuation
    | _ => rfl
  | @unobserved t _ _ h =>
    cases t with
    | start _ _ caller => cases caller <;> rfl
    | shutdown _ caller => cases caller <;> rfl
    | sender => cases h
    | _ => rfl
  | forked _ h => exact hcontinues h.isContinuation
  | forkFailed _ h => exact hcontinues h.isContinuation
  | reload => rfl
  | stopped _ _ h => exact hcontinues h.isContinuation
  | main h =>
    cases h with
    | sender h => exact absurd h (hmain _)
    | _ => rfl
  | dispatch => rfl
  | arrives h =>
    cases h with
    | @request request => cases request <;> rfl
    | _ => rfl

/-- Only the shutdown that has set the flag takes steps of its own. -/
theorem StopEvent.busy (hevent : StopEvent s s') : s.stopAll ≠ .idle := by
  cases hevent with
  | stop hbefore =>
    intro hidle
    simp [hidle, StopPc.isWaiting] at hbefore
  | close hbefore => simp [hbefore]
  | store hbefore => simp [hbefore]
  | finish hbefore => simp [hbefore]

namespace Teardown

variable {s s' : State} {action : Action}

theorem keeps_flag (hstep : s.step action = some s') (hflag : s.shuttingDown = true) :
    s'.shuttingDown = true := by
  cases step_stop hstep with
  | same h => exact h.trans hflag
  | begun _ _ h => exact h
  | event h => exact h.frame.shuttingDown.trans hflag

theorem step_flag (hset : s.shuttingDown = true ↔ s.stopAll ≠ .idle)
    (hstep : s.step action = some s') : s'.shuttingDown = true ↔ s'.stopAll ≠ .idle := by
  cases step_stop hstep with
  | same hflag hpc => rw [hflag, hpc]; exact hset
  | begun _ _ hflag hpc => simp [hflag, hpc]
  | event hevent =>
    have hpc' : s'.stopAll ≠ .idle := by
      cases hevent with
      | stop _ _ hafter =>
        rintro rfl
        simp [StopPc.isWaiting] at hafter
      | _ => simp
    rw [hevent.frame.shuttingDown]
    exact iff_of_true (hset.mpr hevent.busy) hpc'

theorem step_finished (h : Teardown s) (hstep : s.step action = some s') :
    s'.stopAllDone = true ↔ s'.stopAll = .finished := by
  cases step_stop hstep with
  | same _ hpc _ _ hdone => rw [hdone, hpc]; exact h.finished
  | begun _ hflag _ hpc _ _ hdone =>
    have hidle : s.stopAll = .idle := by
      by_contra hbusy
      rw [h.flag.mpr hbusy] at hflag
      cases hflag
    rw [hdone, hpc, h.finished, hidle]
    simp
  | event hevent =>
    cases hevent with
    | close hbefore => rw [h.finished, hbefore]; simp
    | store hbefore => rw [h.finished, hbefore]; simp
    | stop hbefore _ hafter =>
      rw [h.finished]
      constructor
      · intro hfinished
        simp [hfinished, StopPc.isWaiting] at hbefore
      · rintro rfl
        simp [StopPc.isWaiting] at hafter
    | finish => simp

theorem step_closed (h : Teardown s) (hstep : s.step action = some s')
    (hflag : s'.shuttingDown = true) :
    (∃ code, s'.stopAll = .closing code) ∨ s'.shutdownClosed = true := by
  cases step_stop hstep with
  | same hsame hpc _ hclosed => rw [hpc, hclosed]; exact h.closed (hsame ▸ hflag)
  | begun _ _ _ hpc => exact .inl ⟨_, hpc⟩
  | event hevent =>
    right
    have hbefore := hevent.frame.shuttingDown ▸ hflag
    cases hevent with
    | close => rfl
    | store hpc => simpa [hpc] using h.closed hbefore
    | stop hpc =>
      rcases h.closed hbefore with ⟨code, hclosing⟩ | hclosed
      · simp [hclosing, StopPc.isWaiting] at hpc
      · exact hclosed
    | finish hpc => simpa [hpc] using h.closed hbefore

theorem step_announced (h : Teardown s) (hstep : s.step action = some s')
    (hclosed : s'.shutdownClosed = true) : s'.shuttingDown = true := by
  cases step_stop hstep with
  | same hflag _ _ hsame => rw [hflag]; exact h.announced (hsame ▸ hclosed)
  | begun _ _ hflag => exact hflag
  | event hevent =>
    rw [hevent.frame.shuttingDown]
    exact h.flag.mpr hevent.busy

theorem step_late (h : Teardown s) (hstep : s.step action = some s')
    (hlock : s'.main = .unmanagedLock) : s'.shuttingDown = true := by
  apply keeps_flag hstep
  cases step_main hstep with
  | same hsame => exact h.late (hsame ▸ hlock)
  | aborted hafter => rw [hafter] at hlock; cases hlock
  | panicked hafter => rw [hafter] at hlock; cases hlock
  | moved hframe =>
    have hmove := hframe.move
    rw [hlock] at hmove
    generalize s.main = before at hmove
    cases hmove with
    | unmanagedLate hflag => exact hflag
  | event hevent =>
    have hlands := hevent.lands
    rw [hlock] at hlands
    cases hlands

theorem step_left (h : Teardown s) (hstep : s.step action = some s')
    (hover : s'.main.loopOver = true) : s'.shuttingDown = true := by
  apply keeps_flag hstep
  cases step_main hstep with
  | same hsame => exact h.left (hsame ▸ hover)
  | aborted hafter => rw [hafter] at hover; cases hover
  | panicked hafter => rw [hafter] at hover; cases hover
  | moved hframe =>
    rcases hframe.move.loopOver hover with hbefore | ⟨-, hflag⟩ | ⟨hlock, -⟩
    · exact h.left hbefore
    · exact hflag
    · exact h.late hlock
  | event hevent =>
    cases hevent with
    | exited => exact (stepReaped_loopOver hover).1
    | _ => cases hover

theorem keeps_stopAllDone (hstep : s.step action = some s') (hdone : s.stopAllDone = true) :
    s'.stopAllDone = true := by
  cases step_stop hstep with
  | same _ _ _ _ h => exact h.trans hdone
  | begun _ _ _ _ _ _ h => exact h.trans hdone
  | event h =>
    cases h with
    | finish => rfl
    | _ => exact hdone

theorem step_joined (h : Teardown s) (hstep : s.step action = some s')
    (hover : s'.main.loopOver = true) (hend : s'.main ≠ .loopEnd) : s'.stopAllDone = true := by
  apply keeps_stopAllDone hstep
  cases step_main hstep with
  | same hsame => exact h.joined (hsame ▸ hover) (hsame ▸ hend)
  | aborted hafter => rw [hafter] at hover; cases hover
  | panicked hafter => rw [hafter] at hover; cases hover
  | moved hframe =>
    have hmove := hframe.move
    have hleft := h.left
    have hjoined := h.joined
    generalize s.main = before, s'.main = after at hmove hover hend hleft hjoined
    cases hmove with
    | loopLeft hdone => exact hdone (hleft rfl)
    | controlJoined | sendersJoined | targetsClosed => exact hjoined rfl (by simp)
    | leaveChildless => exact absurd rfl hend
    | leaveUnmanaged => exact absurd rfl hend
    | _ => cases hover
  | event hevent =>
    cases hevent with
    | exited => exact absurd (stepReaped_loopOver hover).2.2 hend
    | _ => cases hover

theorem step_sendersDone (h : Teardown s) (hstep : s.step action = some s')
    (hsealed : s'.main.sealed = true) (ht : t ∈ s'.tasks) : t.isSender = false := by
  -- main is past the loop already, and whoever is left is no sender
  have hbefore : s.main.loopOver = true ∧ ∀ t ∈ s.tasks, t.isSender = false := by
    have hkept : s.main.sealed = true →
        s.main.loopOver = true ∧ ∀ t ∈ s.tasks, t.isSender = false :=
      fun hsame => ⟨MainPc.loopOver_of_sealed hsame, h.sendersDone hsame⟩
    cases step_main hstep with
    | same hsame => exact hkept (hsame ▸ hsealed)
    | aborted hafter => rw [hafter] at hsealed; cases hsealed
    | panicked hafter => rw [hafter] at hsealed; cases hsealed
    | moved hframe =>
      rcases hframe.move.sealed hsealed with hmain | ⟨hmain, hdone⟩
      · exact hkept hmain
      · exact ⟨by rw [hmain]; rfl, by simpa using hdone⟩
    | event hevent =>
      cases hevent with
      | exited =>
        rw [(stepReaped_loopOver (MainPc.loopOver_of_sealed hsealed)).2.2] at hsealed
        cases hsealed
      | _ => cases hsealed
  obtain ⟨hover, hdone⟩ := hbefore
  rcases step_tasks hstep ht with hold | hnew
  · exact hdone t hold
  · refine hnew.not_sender (h.left hover) ?_
    intro req hmain
    rw [hmain] at hover
    cases hover

theorem step (h : Teardown s) (hstep : s.step action = some s') : Teardown s' :=
  ⟨step_flag h.flag hstep, h.step_finished hstep, h.step_closed hstep, h.step_announced hstep,
    h.step_late hstep, h.step_left hstep, h.step_joined hstep,
    fun hsealed _ => h.step_sendersDone hstep hsealed⟩

theorem of_fresh (hfresh : Fresh s) : Teardown s := by
  obtain ⟨layers, hmain⟩ := hfresh.main
  constructor <;>
    simp [hmain, hfresh.stopAll, hfresh.shuttingDown, hfresh.shutdownClosed, hfresh.stopAllDone,
      MainPc.loopOver, MainPc.sealed]

end Teardown

namespace Shutdown

variable {s s' : State} {action : Action}

theorem step_stopWaits (hshutdown : Shutdown s) (hbooks : Books s)
    (hstep : s.step action = some s') (hwait : some channel ∈ s'.stopAll.waits) :
    channel < s'.core.nextChan := by
  refine Nat.lt_of_lt_of_le ?_ ((step_core hstep).nextChan hbooks)
  cases step_stop hstep with
  | same _ hpc => exact hshutdown.stopWaits channel (hpc ▸ hwait)
  | begun _ _ _ hpc => rw [hpc] at hwait; cases hwait
  | event h =>
    cases h with
    | stop _ hcore _ hwaits =>
      obtain ⟨i, -, hdone⟩ := hwaits _ hwait
      exact hbooks.core.doneBound i channel hdone
    | _ => cases hwait

theorem step_reloadWaits (hshutdown : Shutdown s) (hbooks : Books s)
    (hstep : s.step action = some s') (hwait : some channel ∈ s'.reload.waits) :
    channel < s'.core.nextChan := by
  refine Nat.lt_of_lt_of_le ?_ ((step_core hstep).nextChan hbooks)
  cases step_reload hstep with
  | same h => exact hshutdown.reloadWaits channel (h ▸ hwait)
  | started _ h => rw [h] at hwait; cases hwait
  | begun _ _ h => rw [h] at hwait; cases hwait
  | moved h =>
    have hmove := h.move
    generalize s.reload = before, s'.reload = after at hmove hwait
    cases hmove <;> cases hwait
  | reloaded hlocking =>
    obtain ⟨dones, hreloaded, hpc⟩ := hbooks.reloadSection hlocking
    rw [hpc] at hwait
    obtain ⟨name, i, -, -, hdone⟩ := hreloaded.waits _ hwait
    exact hbooks.core.doneBound i channel hdone

/-- Once the flag is set, the lock free and nothing runs, it stays so. -/
theorem step_idle (hbooks : Books s) (hstep : s.step action = some s')
    (hflag : s.shuttingDown = true) (hforking : s.forking = none)
    (hidle : ∀ i, s.core.isRunning i = false) (hstarting : s.main.starting = none) :
    s'.forking = none ∧ ∀ i, s'.core.isRunning i = false := by
  refine ⟨?_, ?_⟩
  · cases step_forking hstep with
    | same h => exact h.trans hforking
    | locked _ _ h => rw [hflag] at h; cases h
    | released h => exact h
  · intro i
    by_contra hrunning
    have hbefore := (step_core hstep).running hbooks hforking hstarting (by simpa using hrunning)
    rw [hidle] at hbefore
    cases hbefore

/-- When the loop ends, or has ended, the lock is free and nothing runs. -/
theorem step_ended (hshutdown : Shutdown s) (hbooks : Books s) (hbooks' : Books s')
    (hclean : s.cleanEnd action = true) (hstep : s.step action = some s')
    (hover : s'.main.loopOver = true) :
    s'.forking = none ∧ ∀ i, s'.core.isRunning i = false := by
  have hstays : s.main.loopOver = true →
      s'.forking = none ∧ ∀ i, s'.core.isRunning i = false := by
    intro hbefore
    obtain ⟨hforking, hidle⟩ := hshutdown.ended hbefore
    refine step_idle hbooks hstep (hshutdown.left hbefore) hforking hidle ?_
    cases hmain : s.main <;> rw [hmain] at hbefore <;> first | rfl | cases hbefore
  have hleaves : s.shuttingDown = true → s.core.pidMap.isEmpty = true → s.unlocked = true →
      s.main.layerOneshots = [] → s.main.doomed = false → s.main.starting = none →
      s'.forking = none ∧ ∀ i, s'.core.isRunning i = false := by
    intro hflag hempty hunlocked hlayer hdoomed hstarting
    exact step_idle hbooks hstep hflag (by simpa [State.unlocked] using hunlocked)
      (hbooks.idle_of_empty hempty hlayer hdoomed) hstarting
  cases step_main hstep with
  | same h => exact hstays (h ▸ hover)
  | aborted h => rw [h] at hover; cases hover
  | panicked h => rw [h] at hover; cases hover
  | moved h =>
    rcases h.move.loopOver hover with hbefore | ⟨hechild, hflag⟩ | ⟨hlock, hempty, hunlocked⟩
    · exact hstays hbefore
    · simp only [State.cleanEnd, hechild, hflag, Bool.not_true, Bool.false_or,
        Bool.and_eq_true] at hclean
      exact hleaves hflag hclean.2.1 hclean.2.2 (by rw [hechild]; rfl) (by rw [hechild]; rfl)
        (by rw [hechild]; rfl)
    · exact hleaves (hshutdown.late hlock) hempty hunlocked (by rw [hlock]; rfl)
        (by rw [hlock]; rfl) (by rw [hlock]; rfl)
  | event h =>
    cases h with
    | exited hmain hunlocked =>
      obtain ⟨-, hempty, hend⟩ := stepReaped_loopOver hover
      refine ⟨?_, hbooks'.idle_of_empty hempty (by rw [hend]; rfl) (by rw [hend]; rfl)⟩
      obtain ⟨core, main, heq⟩ := stepReaped_eq s _ _ _
      rw [heq]
      simpa [State.unlocked] using hunlocked
    | _ => cases hover

theorem step (hshutdown : Shutdown s) (hbooks : Books s)
    (hclean : s.cleanEnd action = true) (hstep : s.step action = some s') : Shutdown s' := by
  have hbooks' : Books s' := by
    simp only [State.cleanEnd, Bool.and_eq_true] at hclean
    exact hbooks.step hclean.1 hstep
  exact ⟨hshutdown.toTeardown.step hstep, fun _ => hshutdown.step_stopWaits hbooks hstep,
    fun _ => hshutdown.step_reloadWaits hbooks hstep,
    hshutdown.step_ended hbooks hbooks' hclean hstep⟩

theorem of_fresh (hfresh : Fresh s) : Shutdown s := by
  obtain ⟨layers, hmain⟩ := hfresh.main
  refine ⟨.of_fresh hfresh, ?_, ?_, ?_⟩ <;>
    simp [hmain, hfresh.stopAll, hfresh.reload, StopPc.waits, ReloadPc.waits, MainPc.loopOver]

end Shutdown

end Gopherd.Daemon
