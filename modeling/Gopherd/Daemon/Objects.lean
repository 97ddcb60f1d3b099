import Gopherd.Daemon.BooksRun

namespace Gopherd.Daemon

open Go

inductive NameStep (s : State) : Action → State → Prop
  | same {action s'} (hservices : s'.core.services = s.core.services)
      (hnext : s'.core.nextInst = s.core.nextInst)
      (hname : ∀ i, s'.core.name i = s.core.name i) : NameStep s action s'
  | reloaded {choice origin cfg startOrder} (hlocking : s.reload = .locking origin cfg startOrder)
      (hunlocked : s.unlocked = true) (hshut : s.shuttingDown = false) :
      NameStep s (.reload choice) (s.reloadSection origin cfg startOrder)

theorem step_names (hstep : s.step action = some s') : NameStep s action s' := by
  cases step_core hstep with
  | quiet hquiet => exact .same hquiet.services hquiet.nextInst hquiet.name
  | forked _ _ hcore =>
    exact .same (by rw [hcore]; rfl) (by rw [hcore]; rfl)
      (by rw [hcore]; exact CoreBooks.finishStart_name)
  | oneshotStarted _ _ hcore =>
    exact .same (by rw [hcore]; rfl) (by rw [hcore]; rfl)
      (by rw [hcore]; exact CoreBooks.finishStart_name)
  | oneshotTimedOut _ hcore =>
    exact .same (by rw [hcore]; rfl) (by rw [hcore]; rfl) (by rw [hcore]; exact fun _ => rfl)
  | oneshotExited _ hcore =>
    exact .same (by rw [hcore]; rfl) (by rw [hcore]; rfl)
      (by rw [hcore]; exact CoreBooks.markExited_name)
  | @exited pid status times i _ _ _ _ hcore =>
    have hsame := handleExit_sameRuns s.core s.shuttingDown i pid status times
    rw [← hcore] at hsame
    exact .same hsame.services hsame.nextInst fun j =>
      (hsame.name j).trans (CoreBooks.recordExit_name j)
  | reloaded hlocking hunlocked hshut => exact .reloaded hlocking hunlocked hshut
  | children _ hcore =>
    exact .same (by rw [hcore]) (by rw [hcore]) (by rw [hcore]; exact fun _ => rfl)

structure Configured (s : State) : Prop where
  named : ∀ name i, s.core.services.lookup name = some i →
    s.core.name i = name ∧ i < s.core.nextInst
  loaded : ∀ origin cfg startOrder, s.reload = .locking origin cfg startOrder →
    ∃ parsed, State.loadConfig parsed = some (cfg, startOrder)

namespace Configured

variable {s s' : State}

/-- The locked section of a reload gets through. -/
theorem reload_ok (h : Configured s) (hlocking : s.reload = .locking origin cfg startOrder) :
    ∃ dones, s.core.reload cfg s.entrypointArgs s.controlSocket =
        ((s.reloadSection origin cfg startOrder).core, .ok dones) ∧
      Reloaded cfg s.core (s.reloadSection origin cfg startOrder).core dones ∧
      (s.reloadSection origin cfg startOrder).reload =
        .waiting origin dones
          ((s.reloadSection origin cfg startOrder).core.toStart startOrder) := by
  obtain ⟨parsed, hload⟩ := h.loaded origin cfg startOrder hlocking
  obtain ⟨core, dones, hreload⟩ := Daemon.reload_ok (loadConfig_new hload) s.core
    s.entrypointArgs s.controlSocket
  have hreloaded := reload_reloaded (fun name i hi => (h.named name i hi).2) hreload
  simp only [State.reloadSection, hreload]
  exact ⟨dones, rfl, hreloaded, rfl⟩

theorem reloaded (h : Configured s) {origin : ReloadOrigin} {cfg : Config}
    {startOrder : List String} (hlocking : s.reload = .locking origin cfg startOrder) :
    ∃ dones, Reloaded cfg s.core (s.reloadSection origin cfg startOrder).core dones := by
  obtain ⟨dones, -, hreloaded, -⟩ := h.reload_ok hlocking
  exact ⟨dones, hreloaded⟩

theorem of_fresh (hfresh : Fresh s) : Configured s :=
  ⟨(Books.of_fresh hfresh).core.named, by simp [hfresh.reload]⟩

theorem step_named (h : Configured s) (hstep : s.step action = some s') (name : String)
    (i : InstId) (hlookup : s'.core.services.lookup name = some i) :
    s'.core.name i = name ∧ i < s'.core.nextInst := by
  cases step_names hstep with
  | same hservices hnext hname =>
    rw [hservices] at hlookup
    rw [hname, hnext]
    exact h.named name i hlookup
  | reloaded hlocking =>
    obtain ⟨dones, hreloaded⟩ := h.reloaded hlocking
    rcases hreloaded.current name i hlookup with ⟨-, hlt, hname, -⟩ | ⟨hold, -⟩
    · exact ⟨hname, hlt⟩
    · obtain ⟨hname, hlt⟩ := h.named name i hold
      exact ⟨(hreloaded.name i hlt).trans hname, hlt.trans_le hreloaded.nextInst⟩

theorem step_loaded (h : Configured s) (hstep : s.step action = some s') (origin : ReloadOrigin)
    (cfg : Config) (startOrder : List String)
    (hlocking : s'.reload = .locking origin cfg startOrder) :
    ∃ parsed, State.loadConfig parsed = some (cfg, startOrder) := by
  cases step_reload hstep with
  | same hsame => exact h.loaded origin cfg startOrder (hsame ▸ hlocking)
  | started _ hafter => rw [hlocking] at hafter; cases hafter
  | begun _ _ hafter => rw [hlocking] at hafter; cases hafter
  | moved hframe =>
    have hmove := hframe.move
    rw [hlocking] at hmove
    generalize s.reload = before at hmove
    cases hmove with
    | load hload => exact ⟨_, hload⟩
  | reloaded hbefore =>
    obtain ⟨dones, -, -, hwaiting⟩ := h.reload_ok hbefore
    rw [hwaiting] at hlocking
    cases hlocking

theorem step (h : Configured s) (hstep : s.step action = some s') : Configured s' :=
  ⟨h.step_named hstep, h.step_loaded hstep⟩

theorem of_reached {ok : State → Action → Prop} (hreached : Reached ok s) : Configured s :=
  hreached.invariant (fun _ hboots => of_fresh hboots.fresh) fun _ _ _ h _ => h.step

end Configured

structure Enduring (good : InstId → Service → Prop) : Prop where
  stop : ∀ {i svc}, good i svc → good i svc.stop
  markExited : ∀ {i svc}, good i svc → good i svc.markExited
  backoff : ∀ {i svc backoff}, good i svc → good i { svc with backoff }

structure Kept (good : InstId → Service → Prop) : Prop extends Enduring good where
  retire : ∀ {i svc}, good i svc → good i (retire svc)
  keepRunning : ∀ {i j svc newSvc}, good i svc → good j newSvc →
    processConfigChanged svc.proc newSvc.proc = false → good i (keepRunning svc newSvc)

inductive StartsFor (s : State) (i : InstId) (pid : Pid) : Action → Prop
  | fork {caller} (hforking : s.forking = some (i, caller)) (hfree : s.core.pidFree pid = true) :
      StartsFor s i pid (.fork (.child pid))
  | oneshot (hstarting : s.main.starting = some i) (hfree : s.core.pidFree pid = true) :
      StartsFor s i pid (.main (.child pid))

namespace Enduring

variable {good : InstId → Service → Prop} {c c' : Core}

theorem modify (hc : ∀ i, good i (c.heap i)) (i : InstId) (change : Service → Service)
    (hchange : good i (c.heap i) → good i (change (c.heap i))) (j : InstId) :
    good j ((c.modify i change).heap j) := by
  by_cases hji : j = i
  · subst hji
    simpa [Core.modify] using hchange (hc j)
  · simpa [Core.modify, hji] using hc j

variable (hgood : Enduring good)

include hgood

theorem of_quiet (hquiet : Quiet c c') (hc : ∀ i, good i (c.heap i)) (i : InstId) :
    good i (c'.heap i) := by
  rcases hquiet.heap i with h | h <;> rw [h]
  · exact hc i
  · exact hgood.stop (hc i)

theorem handleExit (hc : ∀ i, good i (c.heap i)) (shuttingDown : Bool) (i : InstId) (pid : Pid)
    (status : WaitStatus) (times : RunTimes) (j : InstId) :
    good j ((c.handleExit shuttingDown i pid status times).1.heap j) := by
  have hrecorded : ∀ k, good k ((c.recordExit i pid).heap k) :=
    modify hc i Service.markExited hgood.markExited
  have hcounted : ∀ (core : Core) (code : Int) (suppressed : Bool),
      (∀ k, good k (core.heap k)) → ∀ k, good k ((core.countExit i code suppressed).heap k) := by
    intro core code suppressed hcore k
    unfold Core.countExit
    split <;> exact hcore k
  unfold Core.handleExit
  dsimp only
  split
  · exact hcounted _ _ _ hrecorded j
  · have hstopped := hgood.of_quiet (.stopDependents _ ((c.recordExit i pid).heap i)
      (effectiveCode ((c.recordExit i pid).heap i) status)) hrecorded
    generalize exitAction _ _ = action
    cases action with
    | restart =>
      exact modify (hcounted _ _ _ hstopped) i
        (fun svc => { svc with backoff := svc.backoff.afterRun times.ran }) hgood.backoff j
    | _ => exact hcounted _ _ _ hstopped j

/-- A step that starts no process for an object with the property keeps it,
unless it is the locked section of a reload. -/
theorem step (hstep : s.step action = some s') (hs : ∀ i, good i (s.core.heap i))
    (hstart : ∀ i pid done, StartsFor s i pid action → good i ((s.core.heap i).finishStart pid
      done))
    (hreload : ∀ origin cfg startOrder, s.reload = .locking origin cfg startOrder → s' =
      s.reloadSection origin cfg startOrder → ∀ i, good i (s'.core.heap i)) (j : InstId) :
    good j (s'.core.heap j) := by
  cases step_core hstep with
  | quiet hquiet => exact hgood.of_quiet hquiet hs j
  | @forked i caller pid _ hforking hfree hcore =>
    rw [hcore]
    exact modify hs i (fun svc => svc.finishStart pid s.core.nextChan)
      (fun _ => hstart i _ _ (.fork hforking hfree)) j
  | @oneshotStarted i _ _ _ pid _ hmain hfree hcore =>
    rw [hcore]
    exact modify hs i (fun svc => svc.finishStart pid s.core.nextChan)
      (fun _ => hstart i _ _ (.oneshot (by rw [hmain]; rfl) hfree)) j
  | oneshotTimedOut _ hcore => rw [hcore]; exact hs j
  | oneshotExited _ hcore => rw [hcore]; exact modify hs _ Service.markExited hgood.markExited j
  | exited _ _ _ hcore => rw [hcore]; exact hgood.handleExit hs _ _ _ _ _ j
  | reloaded hlocking => exact hreload _ _ _ hlocking rfl j
  | children _ hcore => rw [hcore]; exact hs j

end Enduring

namespace Kept

variable {good : InstId → Service → Prop} {c c' : Core} (hgood : Kept good)

include hgood

theorem removeServices (hc : ∀ i, good i (c.heap i)) (newNames : List String) (j : InstId) :
    good j ((c.removeServices newNames).heap j) := by
  unfold Core.removeServices
  generalize c.services.entries = entries
  induction entries generalizing c with
  | nil => exact hc j
  | cons entry rest ih =>
    rw [List.foldl_cons]
    refine ih fun i => ?_
    split
    · exact hc i
    · exact Enduring.modify hc entry.2 Daemon.retire hgood.retire i

omit hgood in
theorem buildLoop (hc : ∀ i, good i (c.heap i)) (controlSocket : String)
    (hbuilt : ∀ {i p svc}, c.nextInst ≤ i → Service.new p = .ok svc →
      good i { svc with controlSocket }) (processes : List Process) (j : InstId) :
    good j ((Core.buildLoop controlSocket processes c).1.heap j) := by
  induction processes generalizing c with
  | nil => exact hc j
  | cons p rest ih =>
    unfold Core.buildLoop
    split
    · exact hc j
    · next svc hnew =>
        refine ih (fun i => ?_) fun hle => hbuilt (Nat.le_of_succ_le hle)
        by_cases hi : i = c.nextInst
        · subst hi
          simpa [Core.addService] using hbuilt (Nat.le_refl _) hnew
        · simpa [Core.addService, hi] using hc i

theorem reconcile (hc : ∀ i, good i (c.heap i)) (old : List (String × InstId))
    (dones : List (Option Chan)) (j : InstId) :
    good j ((Core.reconcile old (c, dones)).1.heap j) := by
  induction old generalizing c dones with
  | nil => exact hc j
  | cons entry rest ih =>
    have hhead : ∀ i, good i ((Core.reconcileOne (c, dones) entry.1 entry.2).1.heap i) := by
      intro i
      rcases reconcileOne_cases c dones entry.1 entry.2 with
        ⟨heq, -⟩ | ⟨k, -, -, ⟨-, heq⟩ | ⟨hsame, heq⟩⟩ <;> rw [heq]
      · exact hc i
      · exact Enduring.modify hc entry.2 Daemon.retire hgood.retire i
      · exact Enduring.modify hc entry.2 (fun svc => Daemon.keepRunning svc (c.heap k))
          (fun h => hgood.keepRunning h (hc k) hsame) i
    exact ih hhead _

theorem reload (hc : ∀ i, good i (c.heap i)) (cfg : Config) (entrypointArgs : List String)
    (controlSocket : String) (hbuilt : ∀ {i p svc}, c.nextInst ≤ i → Service.new p = .ok svc →
      good i { svc with controlSocket }) (j : InstId) :
    good j ((c.reload cfg entrypointArgs controlSocket).1.heap j) := by
  have hnext : (c.removeServices (cfg.processes.map Process.procName)).nextInst = c.nextInst :=
    (removeServices_sameRuns _ c).nextInst
  have hloop := buildLoop (c := { c.removeServices (cfg.processes.map Process.procName)
    with services := ∅ }) (hgood.removeServices hc _) controlSocket
    (fun hle => hbuilt (hnext ▸ hle)) (cfg.processes.map (resolveProcess cfg entrypointArgs))
  unfold Core.reload Core.buildServices
  dsimp only
  split
  · next heq => rw [heq] at hloop; exact hloop j
  · next heq =>
      rw [heq] at hloop
      exact hgood.reconcile (c := Core.dropMetrics _ _) hloop _ _ j

theorem reloadSection {s : State} (hs : ∀ i, good i (s.core.heap i)) (origin : ReloadOrigin)
    (cfg : Config) (startOrder : List String)
    (hbuilt : ∀ {i p svc}, s.core.nextInst ≤ i → Service.new p = .ok svc →
      good i { svc with controlSocket := s.controlSocket }) (j : InstId) :
    good j ((s.reloadSection origin cfg startOrder).core.heap j) := by
  have hreload := hgood.reload hs cfg s.entrypointArgs s.controlSocket hbuilt
  unfold State.reloadSection
  split
  · next heq =>
      rw [heq] at hreload
      cases origin <;> exact hreload j
  · next heq =>
      rw [heq] at hreload
      exact hreload j

/-- A step that starts no process for an object with the property keeps it. -/
theorem step (hstep : s.step action = some s') (hs : ∀ i, good i (s.core.heap i))
    (hstart : ∀ i pid done, StartsFor s i pid action → good i ((s.core.heap i).finishStart pid
      done))
    (hbuilt : ∀ {i p svc}, s.core.nextInst ≤ i → Service.new p = .ok svc → good i { svc with
      controlSocket := s.controlSocket }) (j : InstId) : good j (s'.core.heap j) :=
  hgood.toEnduring.step hstep hs hstart
    (fun origin cfg startOrder _ heq =>
      heq ▸ hgood.reloadSection hs origin cfg startOrder hbuilt) j

end Kept

end Gopherd.Daemon
