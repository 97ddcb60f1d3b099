import Gopherd.Daemon.InFlight
import Gopherd.Daemon.Progress

/-!
The books of the daemon as an inductive property.
-/

namespace Gopherd.Daemon

open Go

structure ConsistentCore (c : Core) : Prop where
  running : ∀ i, c.isRunning i = true ↔ ∃! pid, c.pidMap.lookup pid = some i
  mapped : ∀ pid i, c.pidMap.lookup pid = some i →
    (c.heap i).pid = pid ∧ ∃ channel, c.done i = some channel ∧ channel ∉ c.closed
  pending : ∀ name ∈ c.restartPending, ∃ pid i, c.pidMap.lookup pid = some i ∧
    c.name i = name ∧ (c.heap i).stopped = true

structure Consistent (s : State) : Prop extends ConsistentCore s.core where
  counted : s.pendingRestarts = s.requests

namespace ConsistentCore

variable {c c' : Core} {i : InstId} {pid : Pid}

/-- With the second field the first one says that some pid maps to `i`. -/
theorem running_iff (h : ConsistentCore c) :
    c.isRunning i = true ↔ ∃ pid, c.pidMap.lookup pid = some i := by
  rw [h.running]
  constructor
  · exact fun hone => hone.exists
  · rintro ⟨pid, hmap⟩
    exact ⟨pid, hmap, fun other hother =>
      (h.mapped other i hother).1.symm.trans (h.mapped pid i hmap).1⟩

theorem of_running_iff
    (hrunning : ∀ i, c.isRunning i = true ↔ ∃ pid, c.pidMap.lookup pid = some i)
    (hmapped : ∀ pid i, c.pidMap.lookup pid = some i →
      (c.heap i).pid = pid ∧ ∃ channel, c.done i = some channel ∧ channel ∉ c.closed)
    (hpending : ∀ name ∈ c.restartPending, ∃ pid i, c.pidMap.lookup pid = some i ∧
      c.name i = name ∧ (c.heap i).stopped = true) : ConsistentCore c := by
  refine ⟨fun i => ?_, hmapped, hpending⟩
  rw [hrunning]
  constructor
  · rintro ⟨pid, hmap⟩
    exact ⟨pid, hmap, fun other hother =>
      (hmapped other i hother).1.symm.trans (hmapped pid i hmap).1⟩
  · exact fun hone => hone.exists

/-- The pending names aside, only the processes matter. -/
theorem of_sameObjects (h : ConsistentCore c) (hsame : SameObjects c c')
    (hpending : ∀ name ∈ c'.restartPending, ∃ pid i, c.pidMap.lookup pid = some i ∧
      c.name i = name ∧ (c'.heap i).stopped = true) : ConsistentCore c' := by
  refine of_running_iff ?_ ?_ ?_
  · intro i
    rw [hsame.running, hsame.pidMap]
    exact h.running_iff
  · intro pid i
    rw [hsame.pidMap, hsame.pid, hsame.done, hsame.closed]
    exact h.mapped pid i
  · intro name hname
    obtain ⟨pid, i, hmap, hi, hstopped⟩ := hpending name hname
    exact ⟨pid, i, by rw [hsame.pidMap]; exact hmap, (hsame.name i).trans hi, hstopped⟩

theorem of_quiet (h : ConsistentCore c) (hquiet : Quiet c c') : ConsistentCore c' := by
  refine h.of_sameObjects (SameRuns.of_quiet hquiet).toSameObjects ?_
  intro name hname
  rcases hquiet.pending name hname with hbefore | ⟨i, hrunning, hi, hstopped⟩
  · obtain ⟨pid, i, hmap, hi, hstopped⟩ := h.pending name hbefore
    exact ⟨pid, i, hmap, hi, hquiet.stopped i hstopped⟩
  · obtain ⟨pid, hmap⟩ := h.running_iff.mp hrunning
    exact ⟨pid, i, hmap, hi, hstopped⟩

/-- The fork of `pid` for an object that is not running. -/
theorem startManaged (h : ConsistentCore c) (hallocated : Allocated c)
    (hidle : c.isRunning i = false) (hfree : c.pidMap.lookup pid = none) :
    ConsistentCore (c.startManaged i pid) := by
  have hlookup : ∀ other j, (c.startManaged i pid).pidMap.lookup other = some j ↔
      (other = pid ∧ j = i) ∨ c.pidMap.lookup other = some j := by
    intro other j
    change (c.pidMap.insert pid i).lookup other = some j ↔ _
    rw [GoMap.lookup_insert]
    by_cases heq : other = pid
    · simp [heq, hfree, eq_comm]
    · simp [heq]
  have hother : ∀ other j, c.pidMap.lookup other = some j → j ≠ i := by
    rintro other j hmap rfl
    rw [h.running_iff.mpr ⟨other, hmap⟩] at hidle
    cases hidle
  refine of_running_iff ?_ ?_ ?_
  · intro j
    change (c.finishStart i pid).isRunning j = true ↔ _
    simp only [CoreBooks.finishStart_running, hlookup]
    by_cases hji : j = i
    · simp [hji]
    · simp [hji, h.running_iff]
  · intro other j hmap
    change ((c.finishStart i pid).heap j).pid = other ∧
      ∃ channel, (c.finishStart i pid).done j = some channel ∧ channel ∉ c.closed
    rw [CoreBooks.finishStart_pid, CoreBooks.finishStart_done]
    rcases (hlookup other j).mp hmap with ⟨rfl, rfl⟩ | hbefore
    · rw [if_pos rfl, if_pos rfl]
      exact ⟨rfl, c.nextChan, rfl, fun hmem => Nat.lt_irrefl _ (hallocated.closedBound _ hmem)⟩
    · rw [if_neg (hother other j hbefore), if_neg (hother other j hbefore)]
      exact h.mapped other j hbefore
  · intro name hname
    obtain ⟨other, j, hmap, hj, hstopped⟩ := h.pending name hname
    refine ⟨other, j, (hlookup other j).mpr (.inr hmap), ?_, ?_⟩
    · exact (CoreBooks.finishStart_name j).trans hj
    · change ((c.finishStart i pid).heap j).stopped = true
      simpa [Core.finishStart, Core.modify, Function.update, hother other j hmap] using hstopped

/-- The exit of the process `pid` of `i`. -/
theorem recordExit (h : ConsistentCore c) (hallocated : Allocated c)
    (hmap : c.pidMap.lookup pid = some i) : ConsistentCore (c.recordExit i pid) := by
  have hlookup : ∀ other j, (c.recordExit i pid).pidMap.lookup other = some j ↔
      j ≠ i ∧ c.pidMap.lookup other = some j := by
    intro other j
    change (c.pidMap.erase pid).lookup other = some j ↔ _
    rw [GoMap.lookup_erase]
    constructor
    · intro hother
      split_ifs at hother with hne
      refine ⟨?_, hother⟩
      rintro rfl
      exact hne ((h.mapped other j hother).1.symm.trans (h.mapped pid j hmap).1)
    · rintro ⟨hji, hother⟩
      have hne : other ≠ pid := by
        rintro rfl
        rw [hmap] at hother
        exact hji (Option.some.inj hother).symm
      rwa [if_neg hne]
  have hheap : ∀ j, j ≠ i → (c.recordExit i pid).heap j = c.heap j := by
    intro j hji
    simp [Core.recordExit, Core.markExited, Core.modify, Function.update, hji]
  refine of_running_iff ?_ ?_ ?_
  · intro j
    simp only [CoreBooks.recordExit_running, hlookup]
    by_cases hji : j = i
    · simp [hji]
    · simp [hji, h.running_iff]
  · intro other j hother
    obtain ⟨hji, hbefore⟩ := (hlookup other j).mp hother
    obtain ⟨hpid, channel, hdone, hopen⟩ := h.mapped other j hbefore
    refine ⟨by rw [hheap j hji]; exact hpid, channel, ?_, ?_⟩
    · rw [CoreBooks.recordExit_done, if_neg hji]
      exact hdone
    · change channel ∉ ({ c with pidMap := c.pidMap.erase pid }.markExited i).closed
      rw [CoreBooks.mem_markExited_closed, not_or]
      exact ⟨hopen, fun hown => hji (hallocated.doneInj j i channel hdone hown)⟩
  · intro name hname
    change name ∈ c.restartPending.erase _ at hname
    rw [Finset.mem_erase, CoreBooks.markExited_name] at hname
    obtain ⟨other, j, hother, hj, hstopped⟩ := h.pending name hname.2
    have hji : j ≠ i := by
      rintro rfl
      exact hname.1 hj.symm
    refine ⟨other, j, (hlookup other j).mpr ⟨hji, hother⟩, ?_, ?_⟩
    · exact (CoreBooks.recordExit_name j).trans hj
    · rw [hheap j hji]
      exact hstopped

theorem handleExit (h : ConsistentCore c) (hallocated : Allocated c)
    (hmap : c.pidMap.lookup pid = some i) (shuttingDown : Bool) (status : WaitStatus)
    (times : RunTimes) :
    ConsistentCore (c.handleExit shuttingDown i pid status times).1 := by
  have hrecorded := h.recordExit hallocated hmap
  have hsame := handleExit_sameRuns c shuttingDown i pid status times
  refine hrecorded.of_sameObjects hsame.toSameObjects ?_
  intro name hname
  rw [Core.handleExit_restartPending] at hname
  obtain ⟨other, j, hother, hj, hstopped⟩ := hrecorded.pending name hname
  exact ⟨other, j, hother, hj, hsame.stopped j hstopped⟩

theorem reloaded (h : ConsistentCore c) (hallocated : Allocated c) {cfg : Config}
    {dones : List (Option Chan)} (hreload : Reloaded cfg c c' dones) : ConsistentCore c' := by
  have hbound : ∀ pid i, c.pidMap.lookup pid = some i → i < c.nextInst :=
    fun pid i hmap => hallocated.lt_of_running (h.running_iff.mpr ⟨pid, hmap⟩)
  refine of_running_iff ?_ ?_ ?_
  · intro i
    rw [hallocated.reloaded_running hreload, hreload.pidMap]
    exact h.running_iff
  · intro pid i
    rw [hreload.pidMap, hreload.closed]
    intro hmap
    have hi := hbound pid i hmap
    rw [hreload.pid i hi, hreload.done i hi]
    exact h.mapped pid i hmap
  · intro name
    rw [hreload.restartPending, hreload.pidMap]
    intro hname
    obtain ⟨pid, i, hmap, hi, hstopped⟩ := h.pending name hname
    have hlt := hbound pid i hmap
    exact ⟨pid, i, hmap, (hreload.name i hlt).trans hi, hreload.stopped i hlt hstopped⟩

end ConsistentCore

structure WellFormed (s : State) : Prop where
  allocated : Allocated s.core
  progress : Progress s
  forking : ∀ i caller, s.forking = some (i, caller) →
    s.core.isCurrent i = true ∧ s.core.isRunning i = false
  loaded : ∀ origin cfg startOrder, s.reload = .locking origin cfg startOrder →
    ∀ p ∈ cfg.processes, ∃ svc, Service.new p = .ok svc

/-- A fork gets a pid that the reap loop does not know any more. -/
def State.freshPid (s : State) : Action → Bool
  | .fork (.child pid) => (s.core.pidMap.lookup pid).isNone
  | _ => true

theorem step_booted {s s' : State} (hstep : s.step action = some s')
    (hbooted : s.main.booting = false) : s'.main.booting = false := by
  cases step_main hstep with
  | same h => rw [h]; exact hbooted
  | aborted h => rw [h]; rfl
  | panicked h => rw [h]; rfl
  | moved h =>
    by_contra hboot
    rw [h.move.booting (by simpa using hboot)] at hbooted
    cases hbooted
  | event h =>
    by_contra hboot
    rw [h.booting (by simpa using hboot)] at hbooted
    cases hbooted

/-- `startService` has released the lock when it has forked. -/
theorem step_unlocks {s s' : State} (hstep : s.step (.fork choice) = some s') :
    s'.forking = none := by
  obtain ⟨i, caller, -, ⟨pid, rfl, -, h⟩ | ⟨rfl, h⟩⟩ := stepFork_cases (step_fork hstep) <;>
  · obtain ⟨⟨_, _, _, _, rfl⟩, -⟩ := h
    rfl

namespace WellFormed

variable {s s' : State} {action : Action}

theorem of_books (hbooks : Books s) (hprogress : Progress s) : WellFormed s :=
  ⟨hbooks.core.toAllocated, hprogress, hbooks.forking, hbooks.loaded⟩

theorem lt_of_forking (h : WellFormed s) (hforking : s.forking = some (i, caller)) :
    i < s.core.nextInst :=
  (h.allocated.named _ i (Core.isCurrent_iff.mp (h.forking i caller hforking).1)).2

theorem reloadSection (h : WellFormed s) (hlocking : s.reload = .locking origin cfg startOrder) :
    ∃ dones, Reloaded cfg s.core (s.reloadSection origin cfg startOrder).core dones :=
  let ⟨dones, hreloaded, _⟩ := reloadSection_reloaded h.allocated
    (h.loaded origin cfg startOrder hlocking) origin startOrder
  ⟨dones, hreloaded⟩

theorem step_allocated (h : WellFormed s) (hbooted : s.main.booting = false)
    (hstep : s.step action = some s') : Allocated s'.core := by
  cases step_core hstep with
  | quiet hquiet => exact h.allocated.of_sameRuns (.of_quiet hquiet)
  | forked hforking _ hcore =>
    rw [hcore]
    exact h.allocated.startManaged (h.lt_of_forking hforking)
  | oneshotStarted hmain | oneshotTimedOut hmain | oneshotExited hmain =>
    rw [hmain] at hbooted; cases hbooted
  | @exited pid status times i _ _ _ _ hcore =>
    rw [hcore]
    exact h.allocated.recordExit.of_sameRuns (handleExit_sameRuns _ _ i pid status times)
  | reloaded hlocking =>
    obtain ⟨dones, hreloaded⟩ := h.reloadSection hlocking
    exact h.allocated.reloaded hreloaded
  | children _ hcore =>
    rw [hcore]
    exact ⟨h.allocated.doneBound, h.allocated.closedBound, h.allocated.doneInj,
      h.allocated.named, h.allocated.fresh⟩

/-- While a call of `startService` holds the lock, its service stays as it has
found it. -/
theorem step_forking (h : WellFormed s) (hbooted : s.main.booting = false)
    (hstep : s.step action = some s') {i : InstId} (hforking : s'.forking = some (i, caller)) :
    s'.core.isCurrent i = true ∧ s'.core.isRunning i = false := by
  have hlocked : s.forking = some (i, caller) ∨ s.unlocked = true ∧
      s.core.isCurrent i = true ∧ s.core.isRunning i = false ∧
      ∃ choice, action = .run (.start i .lock caller) choice := by
    cases Gopherd.Daemon.step_forking hstep with
    | same hsame => exact .inl (hsame ▸ hforking)
    | @locked j caller' choice _ _ hfree _ hcurrent hidle hnew =>
      rw [hnew] at hforking
      cases hforking
      exact .inr ⟨by simp [State.unlocked, hfree], hcurrent, hidle, choice, rfl⟩
    | released hnone => rw [hnone] at hforking; cases hforking
  have hfound : s.core.isCurrent i = true ∧ s.core.isRunning i = false := by
    rcases hlocked with hsame | ⟨-, hcurrent, hidle, -⟩
    · exact h.forking i caller hsame
    · exact ⟨hcurrent, hidle⟩
  -- nobody else takes the lock, and no process starts or exits meanwhile
  have hbusy : s.unlocked = true → ∃ choice, action = .run (.start i .lock caller) choice := by
    intro hunlocked
    rcases hlocked with hsame | ⟨-, -, -, hrun⟩
    · simp [State.unlocked, hsame] at hunlocked
    · exact hrun
  cases step_core hstep with
  | quiet hquiet =>
    rw [hquiet.isCurrent, hquiet.running]
    exact hfound
  | children _ hcore =>
    rw [hcore]
    exact hfound
  | forked =>
    rw [step_unlocks hstep] at hforking
    cases hforking
  | exited _ hunlocked =>
    obtain ⟨choice, hrun⟩ := hbusy hunlocked
    cases hrun
  | reloaded _ hunlocked =>
    obtain ⟨choice, hrun⟩ := hbusy hunlocked
    cases hrun
  | oneshotStarted hmain | oneshotTimedOut hmain | oneshotExited hmain =>
    rw [hmain] at hbooted; cases hbooted

theorem step_loaded (h : WellFormed s) (hstep : s.step action = some s')
    (hlocking : s'.reload = .locking origin cfg startOrder) :
    ∀ p ∈ cfg.processes, ∃ svc, Service.new p = .ok svc := by
  cases step_reload hstep with
  | same hsame => exact h.loaded origin cfg startOrder (hsame ▸ hlocking)
  | started _ hafter => rw [hafter] at hlocking; cases hlocking
  | begun _ _ hafter => rw [hafter] at hlocking; cases hlocking
  | moved hframe =>
    have hmove := hframe.move
    rw [hlocking] at hmove
    generalize s.reload = before at hmove
    cases hmove with
    | load hload => exact loadConfig_new hload
  | @reloaded _ origin' cfg' startOrder' hbefore =>
    obtain ⟨dones, -, hwaiting⟩ := reloadSection_reloaded h.allocated
      (h.loaded origin' cfg' startOrder' hbefore) origin' startOrder'
    rw [hwaiting] at hlocking
    cases hlocking

theorem step (h : WellFormed s) (hbooted : s.main.booting = false)
    (hstep : s.step action = some s') : WellFormed s' :=
  ⟨h.step_allocated hbooted hstep, h.progress.step hstep,
    fun _ _ => h.step_forking hbooted hstep, fun _ _ _ => h.step_loaded hstep⟩

end WellFormed

namespace Consistent

variable {s s' : State} {action : Action}

/-- The books of a clean run, with no restart pending. -/
theorem of_books (hbooks : Books s) (hlayer : s.main.layerOneshots = [])
    (hdoomed : s.main.doomed = false) (hpending : s.core.restartPending = ∅)
    (hcounted : s.pendingRestarts = s.requests) : Consistent s := by
  refine ⟨.of_running_iff ?_ ?_ (by simp [hpending]), hcounted⟩
  · intro i
    constructor
    · intro hrunning
      rcases hbooks.tracked i hrunning with hmap | honeshot | hgone
      · exact ⟨_, hmap⟩
      · rw [hlayer] at honeshot
        cases honeshot
      · rw [hdoomed] at hgone
        cases hgone
    · rintro ⟨pid, hmap⟩
      exact (hbooks.core.mapped pid i hmap).1
  · intro pid i hmap
    obtain ⟨hrunning, hpid⟩ := hbooks.core.mapped pid i hmap
    exact ⟨hpid, hbooks.core.openDone i hrunning⟩

theorem step_counted (h : Consistent s) (hvalid : WellFormed s)
    (hbooted : s.main.booting = false) (hstep : s.step action = some s') :
    s'.pendingRestarts = s'.requests := by
  have hsame := step_surplus hbooted
    (fun hflag => by
      by_contra hbusy
      rw [hvalid.progress.flag.mpr hbusy] at hflag
      cases hflag)
    (fun t hmem hsender => hvalid.progress.open_of_sender hmem hsender) hstep
  have hcounted := h.counted
  simp only [State.surplus] at hsame
  omega

theorem step_consistentCore (h : Consistent s) (hvalid : WellFormed s)
    (hbooted : s.main.booting = false) (hfresh : s.freshPid action = true)
    (hstep : s.step action = some s') : ConsistentCore s'.core := by
  cases step_core hstep with
  | quiet hquiet => exact h.of_quiet hquiet
  | forked hforking _ hcore =>
    rw [hcore]
    exact h.startManaged hvalid.allocated (hvalid.forking _ _ hforking).2
      (by simpa [State.freshPid] using hfresh)
  | oneshotStarted hmain | oneshotTimedOut hmain | oneshotExited hmain =>
    rw [hmain] at hbooted; cases hbooted
  | exited _ _ hmap hcore =>
    rw [hcore]
    exact h.handleExit hvalid.allocated hmap _ _ _
  | reloaded hlocking =>
    obtain ⟨dones, hreloaded⟩ := hvalid.reloadSection hlocking
    exact h.toConsistentCore.reloaded hvalid.allocated hreloaded
  | children _ hcore =>
    rw [hcore]
    exact ⟨h.running, h.mapped, h.pending⟩

end Consistent

/-- Every step after the startup leads from a consistent state to a consistent
one. -/
theorem bookkeeping_inductive {s s' : State} {action : Action} (hvalid : WellFormed s)
    (hbooted : s.main.booting = false) (hfresh : s.freshPid action = true)
    (hconsistent : Consistent s) (hstep : s.step action = some s') :
    Consistent s' ∧ WellFormed s' ∧ s'.main.booting = false :=
  ⟨⟨hconsistent.step_consistentCore hvalid hbooted hfresh hstep,
    hconsistent.step_counted hvalid hbooted hstep⟩,
    hvalid.step hbooted hstep, step_booted hstep hbooted⟩

/-- A control restart of `web` leaves the books of a booted daemon consistent. -/
theorem restart_of_web_consistent : ∃ s s',
    run State.cleanStart (plainInput [webProcess])
      (bootActions 100 ++ [.request (.restart "web" false)]) = some s ∧
    Consistent s ∧ s.step (.run (.restartFn "web" false) .go) = some s' ∧
    s'.core.restartPending = {"web"} ∧ s'.requests = 1 ∧ Consistent s' := by
  have hrun : ((run State.cleanStart (plainInput [webProcess])
      (bootActions 100 ++ [.request (.restart "web" false)])).bind fun s =>
        (s.step (.run (.restartFn "web" false) .go)).map fun s' => decide
          ((s.main = .wait4 ∧ s.core.restartPending = ∅ ∧ s.pendingRestarts = s.requests) ∧
            s'.core.restartPending = {"web"} ∧ s'.requests = 1)) = some true := by
    decide +kernel
  obtain ⟨s, hs, hnext⟩ := Option.bind_eq_some_iff.mp hrun
  obtain ⟨s', hs', hfacts⟩ := Option.map_eq_some_iff.mp hnext
  obtain ⟨⟨hmain, hpending, hcounted⟩, hmarked, hone⟩ := of_decide_eq_true hfacts
  have hbooks := Books.of_reached (fun _ _ h => h) (reached_of_run hs)
  have hconsistent : Consistent s :=
    .of_books hbooks (by rw [hmain]; rfl) (by rw [hmain]; rfl) hpending hcounted
  have hresult := bookkeeping_inductive (.of_books hbooks (.of_reached (reached_of_run hs)))
    (by rw [hmain]; rfl) rfl hconsistent hs'
  exact ⟨s, s', hs, hconsistent, hs', hmarked, hone, hresult.1⟩

end Gopherd.Daemon
