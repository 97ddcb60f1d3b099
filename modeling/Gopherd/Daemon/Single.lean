import Gopherd.Daemon.BooksRun

/-!
At most one process for a service name. The books allow two objects of one name
to run at the same time only while a reload waits for the older one, or after a
reload has removed it.
-/

namespace Gopherd.Daemon

open Go

theorem MainEvent.not_starting (hevent : MainEvent s choice s') (i : InstId) :
    s'.main.starting ≠ some i := by
  have hlands := hevent.lands
  generalize s'.main = main at hlands ⊢
  cases main <;> simp_all [MainPc.afterEvent, MainPc.afterReap, MainPc.starting]

structure Booting (s : State) : Prop where
  started : s.main.booting = true → s.started = false
  reload : s.started = false → s.reload = .idle
  queued : s.started = false → ∀ origin, .reloadQueued origin ∉ s.tasks

/-- A reload is let in only once the boot is over. -/
theorem NewTask.started_of_reloadQueued (h : NewTask s action (.reloadQueued origin)) :
    s.started = true := by
  generalize ht : Task.reloadQueued origin = t at h
  cases h with
  | follows hmem h =>
    subst ht
    cases h with
    | reloadFn hstarted => exact hstarted
    | gateFailed h | startSkipped h | startFailed h | startLate _ h | startReplaced _ h
    | startRunning _ h | notify h | notifyFailed h | shutdown h => cases h.isContinuation
  | @unobserved t _ hmem h =>
    cases t with
    | start i pc caller => cases caller <;> cases ht
    | shutdown code caller => cases caller <;> cases ht
    | reloadQueued => cases h
    | _ => cases ht
  | forked _ h | forkFailed _ h | stopped _ _ h => subst ht; cases h.isContinuation
  | main h => subst ht; cases h
  | arrives h =>
    subst ht
    generalize ht : Task.reloadQueued origin = t at h
    cases h with
    | @request request => cases request <;> cases ht
    | _ => cases ht
  | _ => cases ht

namespace Booting

variable {s s' : State}

theorem of_fresh (hfresh : Fresh s) : Booting s :=
  ⟨fun _ => hfresh.started, fun _ => hfresh.reload, fun _ _ => by simp [hfresh.tasks]⟩

theorem step (hbooting : Booting s) (hstep : s.step action = some s') : Booting s' := by
  have hbefore : s'.started = false → s.started = false := by
    intro hstarted
    rcases (step_frame hstep).started with hsame | ⟨hbegin, -⟩
    · exact hsame ▸ hstarted
    · exact hbooting.started (by rw [hbegin]; rfl)
  refine ⟨?_, ?_, ?_⟩
  · intro hmain
    have hearlier : s.main.booting = true := by
      cases step_main hstep with
      | same h => exact h ▸ hmain
      | aborted h => rw [h] at hmain; cases hmain
      | panicked h => rw [h] at hmain; cases hmain
      | moved h => exact h.move.booting hmain
      | event h => exact h.booting hmain
    rcases (step_frame hstep).started with hsame | ⟨-, hwait, -⟩
    · rw [hsame]
      exact hbooting.started hearlier
    · rw [hwait] at hmain
      cases hmain
  · intro hstarted
    have hidle := hbooting.reload (hbefore hstarted)
    cases step_reload hstep with
    | same h => exact h.trans hidle
    | started h => rw [hidle] at h; cases h
    | begun _ hqueued => exact absurd hqueued (hbooting.queued (hbefore hstarted) _)
    | moved h =>
      have hmove := h.move
      rw [hidle] at hmove
      cases hmove
    | reloaded h => rw [hidle] at h; cases h
  · intro hstarted origin hmem
    rcases step_tasks hstep hmem with hold | hnew
    · exact hbooting.queued (hbefore hstarted) origin hold
    · have := hnew.started_of_reloadQueued
      rw [hbefore hstarted] at this
      cases this

end Booting

structure Single (s : State) : Prop where
  unique : ∀ i j, s.core.isRunning i = true → s.core.isRunning j = true →
    s.core.name i = s.core.name j → i = j
  waited : ∀ j, s.core.isRunning j = true → s.core.isCurrent j = false →
    (s.core.services.lookup (s.core.name j)).isSome →
    ∃ origin dones toStart, s.reload = .waiting origin dones toStart ∧ s.core.done j ∈ dones
  starting : ∀ i, s.main.starting = some i → s.core.isCurrent i = true

/-- A reload still waits for a process of this name. -/
def State.replacing (s : State) (name : String) : Bool :=
  match s.reload with
  | .waiting _ dones _ =>
    (List.range s.core.nextInst).any fun j =>
      s.core.isRunning j && s.core.name j = name && s.core.done j ∈ dones
  | _ => false

/-- The configuration brings back a service whose old process, removed by an
earlier reload, is still there. -/
def State.readds (s : State) (cfg : Config) : Bool :=
  (List.range s.core.nextInst).any fun j =>
    s.core.isRunning j && !s.core.isCurrent j && s.core.name j ∈ cfg.processes.map Process.procName

/-- Starts are clean, no process is forked for a name that a reload still
waits for, and no reload brings back a name whose old process is still there. -/
def State.orderlyStart (s : State) (action : Action) : Bool :=
  s.cleanStart action &&
    match action with
    | .fork (.child _) => s.forking.all (fun fork => !s.replacing (s.core.name fork.1))
    | .reload _ =>
      match s.reload with
      | .locking _ cfg _ => !s.readds cfg
      | _ => true
    | _ => true

/-- A reload goes on waiting until the processes it waits for are gone. -/
def State.KeepsWaiting (s s' : State) : Prop :=
  ∀ origin dones toStart, s.reload = .waiting origin dones toStart →
    s'.reload = s.reload ∨ dones.all s.core.isClosed = true

/-- A channel that is waited for stays open while its process runs. -/
theorem CoreBooks.not_all_closed (hbooks : CoreBooks c) {dones : List (Option Chan)}
    (hrunning : c.isRunning j = true) (hmem : c.done j ∈ dones) : dones.all c.isClosed ≠ true := by
  intro hclosed
  obtain ⟨channel, hchannel, hopen⟩ := hbooks.openDone j hrunning
  have hisClosed := List.all_eq_true.mp hclosed _ hmem
  rw [hchannel] at hisClosed
  exact hopen (by simpa [Core.isClosed] using hisClosed)

namespace Single

variable {s s' : State}

section Kept

variable (hsingle : Single s) (hbooks : Books s) (hname : ∀ j, s'.core.name j = s.core.name j)
  (hservices : s'.core.services = s.core.services) (hreload : s.KeepsWaiting s')
  (hstarting : ∀ i, s'.main.starting = some i → s.core.isCurrent i = true)

include hsingle hbooks hname hservices hreload hstarting

theorem of_unique
    (hunique : ∀ i j, s'.core.isRunning i = true → s'.core.isRunning j = true →
      s.core.name i = s.core.name j → i = j)
    (hrunning : ∀ j, s'.core.isRunning j = true → s.core.isCurrent j = false →
      s.core.isRunning j = true ∧ s'.core.done j = s.core.done j) : Single s' := by
  have hcurrent : ∀ j, s'.core.isCurrent j = s.core.isCurrent j := by
    intro j
    simp [Core.isCurrent, hservices, hname]
  refine ⟨?_, ?_, ?_⟩
  · intro i j hi hj hnames
    rw [hname, hname] at hnames
    exact hunique i j hi hj hnames
  · intro j hj hold hlookup
    rw [hcurrent] at hold
    rw [hservices, hname] at hlookup
    obtain ⟨hbefore, hdone⟩ := hrunning j hj hold
    obtain ⟨origin, dones, toStart, hwaiting, hmem⟩ := hsingle.waited j hbefore hold hlookup
    rcases hreload origin dones toStart hwaiting with hsame | hclosed
    · exact ⟨origin, dones, toStart, hsame.trans hwaiting, hdone ▸ hmem⟩
    · exact absurd hclosed (hbooks.core.not_all_closed hbefore hmem)
  · intro i hi
    rw [hcurrent]
    exact hstarting i hi

/-- Steps after which fewer objects run, and no others are current. -/
theorem shrink
    (hrunning : ∀ j, s'.core.isRunning j = true →
      s.core.isRunning j = true ∧ s'.core.done j = s.core.done j) : Single s' :=
  hsingle.of_unique hbooks hname hservices hreload hstarting
    (fun i j hi hj => hsingle.unique i j (hrunning i hi).1 (hrunning j hj).1)
    fun j hj _ => hrunning j hj

/-- A process is forked for a current object while no other of its name runs. -/
theorem started (i : InstId) (pid : Pid) (hcurrent : s.core.isCurrent i = true)
    (halone : ∀ j, s.core.isRunning j = true → s.core.name j ≠ s.core.name i)
    (hrunning : ∀ j, s'.core.isRunning j = (s.core.finishStart i pid).isRunning j)
    (hdone : ∀ j, s'.core.done j = (s.core.finishStart i pid).done j) : Single s' := by
  have hcases : ∀ j, s'.core.isRunning j = true → j = i ∨ (j ≠ i ∧ s.core.isRunning j = true) := by
    intro j hj
    rw [hrunning, CoreBooks.finishStart_running] at hj
    by_cases hji : j = i
    · exact .inl hji
    · exact .inr ⟨hji, by simpa [hji] using hj⟩
  refine hsingle.of_unique hbooks hname hservices hreload hstarting ?_ ?_
  · intro j k hj hk hnames
    rcases hcases j hj with rfl | ⟨hji, hj⟩ <;> rcases hcases k hk with rfl | ⟨hki, hk⟩
    · rfl
    · exact absurd hnames.symm (halone k hk)
    · exact absurd hnames (halone j hj)
    · exact hsingle.unique j k hj hk hnames
  · intro j hj hold
    rcases hcases j hj with rfl | ⟨hji, hj⟩
    · rw [hcurrent] at hold
      cases hold
    · rw [hdone, CoreBooks.finishStart_done, if_neg hji]
      exact ⟨hj, rfl⟩

end Kept

theorem of_sameRuns (hsingle : Single s) (hbooks : Books s) (hcore : SameRuns s.core s'.core)
    (hreload : s.KeepsWaiting s')
    (hstarting : ∀ i, s'.main.starting = some i → s.core.isCurrent i = true) : Single s' :=
  hsingle.shrink hbooks hcore.name hcore.services hreload hstarting
    fun j hj => ⟨hcore.running j ▸ hj, hcore.done j⟩

/-- A running object with the name of another, current one has lost its place. -/
theorem waited_of_current (hsingle : Single s) (hcurrent : s.core.isCurrent i = true)
    (hidle : s.core.isRunning i = false) (hrunning : s.core.isRunning j = true)
    (hname : s.core.name j = s.core.name i) :
    ∃ origin dones toStart, s.reload = .waiting origin dones toStart ∧ s.core.done j ∈ dones := by
  have hlookup := Core.isCurrent_iff.mp hcurrent
  have hji := Books.ne_of_idle hidle hrunning
  refine hsingle.waited j hrunning ?_ (by simp [hname, hlookup])
  simp [Core.isCurrent, hname, hlookup, hji.symm]

/-- The locked section of a reload. -/
theorem reloaded (hsingle : Single s) (hbooks : Books s) {cfg : Config}
    {dones : List (Option Chan)} (hreload : Reloaded cfg s.core s'.core dones)
    (hreadds : s.readds cfg = false)
    (hwaiting : ∃ origin toStart, s'.reload = .waiting origin dones toStart)
    (hstarting : ∀ i, s'.main.starting ≠ some i) : Single s' := by
  have hold : ∀ j, s'.core.isRunning j = true →
      j < s.core.nextInst ∧ s.core.isRunning j = true := by
    intro j hj
    have hbefore : s.core.isRunning j = true := by
      by_cases hlt : j < s.core.nextInst
      · exact hreload.running j hlt ▸ hj
      · rcases hreload.fresh j (Nat.not_lt.mp hlt) with hsame | hnew
        · exact hsame.1 ▸ hj
        · rw [hnew.1] at hj
          cases hj
    exact ⟨hbooks.core.lt_of_running hbefore, hbefore⟩
  refine ⟨?_, ?_, fun i hi => absurd hi (hstarting i)⟩
  · intro i j hi hj hnames
    obtain ⟨hilt, hi⟩ := hold i hi
    obtain ⟨hjlt, hj⟩ := hold j hj
    rw [hreload.name i hilt, hreload.name j hjlt] at hnames
    exact hsingle.unique i j hi hj hnames
  · intro j hj hlost hlookup
    obtain ⟨hlt, hj⟩ := hold j hj
    rw [Core.isCurrent, hreload.name j hlt] at hlost
    rw [hreload.name j hlt] at hlookup
    have hconfigured := (hreload.covered _).mp hlookup
    have hcurrent : s.core.services.lookup (s.core.name j) = some j := by
      by_contra hnot
      have hin : s.readds cfg = true := by
        refine List.any_eq_true.mpr ⟨j, List.mem_range.mpr hlt, ?_⟩
        simpa [hj, Core.isCurrent, hnot] using hconfigured
      rw [hreadds] at hin
      cases hin
    rcases hreload.replaced _ j hcurrent hj hlookup with hkept | hmem
    · simp [hkept] at hlost
    · obtain ⟨origin, toStart, hwaiting⟩ := hwaiting
      exact ⟨origin, dones, toStart, hwaiting, hreload.done j hlt ▸ hmem⟩

theorem step (hsingle : Single s) (hbooks : Books s) (hbooting : Booting s)
    (horderly : s.orderlyStart action = true) (hstep : s.step action = some s') : Single s' := by
  simp only [State.orderlyStart, Bool.and_eq_true] at horderly
  obtain ⟨hclean, horderly⟩ := horderly
  have hreload : s.KeepsWaiting s' := by
    intro origin dones toStart hwaiting
    cases step_reload hstep with
    | same h => exact .inl h
    | started h => rw [hwaiting] at h; cases h
    | begun hidle => rw [hwaiting] at hidle; cases hidle
    | moved h =>
      have hmove := h.move
      rw [hwaiting] at hmove
      generalize s'.reload = after at hmove
      cases hmove with
      | awaited hclosed => exact .inr hclosed
    | reloaded h => rw [hwaiting] at h; cases h
  have hstarting : ∀ i, s'.main.starting = some i → s.core.isCurrent i = true := by
    intro i hi
    cases step_main hstep with
    | same h => exact hsingle.starting i (h ▸ hi)
    | aborted h => rw [h] at hi; cases hi
    | panicked h => rw [h] at hi; cases hi
    | moved h =>
      obtain ⟨name, hlookup⟩ := h.move.starting hi
      simp [Core.isCurrent, (hbooks.core.named name i hlookup).1, hlookup]
    | event h => exact absurd hi (h.not_starting i)
  cases step_core hstep with
  | quiet h => exact hsingle.of_sameRuns hbooks (.of_quiet h) hreload hstarting
  | @forked i caller pid _ hforking hfree hcore =>
    obtain ⟨hcurrent, hidle⟩ := hbooks.forking i caller hforking
    refine hsingle.started hbooks (by rw [hcore]; exact CoreBooks.finishStart_name)
      (by rw [hcore]; rfl) hreload hstarting i pid hcurrent ?_ (by rw [hcore]; exact fun _ => rfl)
      (by rw [hcore]; exact fun _ => rfl)
    intro j hj hname
    obtain ⟨origin, dones, toStart, hwaiting, hmem⟩ :=
      hsingle.waited_of_current hcurrent hidle hj hname
    have hreplacing : s.replacing (s.core.name i) = true := by
      simp only [State.replacing, hwaiting]
      refine List.any_eq_true.mpr ⟨j, List.mem_range.mpr (hbooks.core.lt_of_running hj), ?_⟩
      simp [hj, hname, hmem]
    simp [hforking, hreplacing] at horderly
  | @oneshotStarted i _ _ _ pid _ hmain hfree hcore =>
    have hcurrent := hsingle.starting i (by rw [hmain]; rfl)
    simp only [State.cleanStart, hmain, Bool.and_eq_true, Bool.not_eq_true',
      decide_eq_true_eq] at hclean
    refine hsingle.started hbooks (by rw [hcore]; exact CoreBooks.finishStart_name)
      (by rw [hcore]; rfl) hreload hstarting i pid hcurrent ?_ (by rw [hcore]; exact fun _ => rfl)
      (by rw [hcore]; exact fun _ => rfl)
    intro j hj hname
    obtain ⟨origin, dones, toStart, hwaiting, -⟩ :=
      hsingle.waited_of_current hcurrent hclean.1.1 hj hname
    have hidle := hbooting.reload (hbooting.started (by rw [hmain]; rfl))
    rw [hwaiting] at hidle
    cases hidle
  | oneshotTimedOut hmain hcore =>
    exact hsingle.of_sameRuns hbooks (hcore ▸ .setMetrics _ _) hreload hstarting
  | @oneshotExited _ i _ _ _ _ _ _ hmain hcore =>
    refine hsingle.shrink hbooks ?_ ?_ hreload hstarting ?_ <;> rw [hcore]
    · exact CoreBooks.markExited_name
    · rfl
    · intro j
      change (s.core.markExited i).isRunning j = true →
        s.core.isRunning j = true ∧ (s.core.markExited i).done j = s.core.done j
      rw [CoreBooks.markExited_running, CoreBooks.markExited_done]
      split_ifs <;> simp
  | @exited pid status times i _ hmain hunlocked hmap hcore =>
    have hsame := handleExit_sameRuns s.core s.shuttingDown i pid status times
    rw [← hcore] at hsame
    refine hsingle.shrink hbooks ?_ hsame.services hreload hstarting ?_ <;> intro j
    · rw [hsame.name]
      exact CoreBooks.recordExit_name j
    · rw [hsame.running, hsame.done, CoreBooks.recordExit_running, CoreBooks.recordExit_done]
      split_ifs <;> simp
  | @reloaded _ origin cfg startOrder hlocking hunlocked hshut =>
    obtain ⟨dones, hreloaded, hwaiting⟩ := hbooks.reloadSection hlocking
    have hnot : ∀ i, (s.reloadSection origin cfg startOrder).main.starting ≠ some i := by
      intro i hi
      obtain ⟨_, _, _, _, _, hsection⟩ := reloadSection_eq s origin cfg startOrder
      rw [hsection] at hi
      have hbooted : s.main.booting = true := by
        change s.main.starting = some i at hi
        cases hmain : s.main <;> rw [hmain] at hi <;> first | rfl | cases hi
      have hidle := hbooting.reload (hbooting.started hbooted)
      rw [hlocking] at hidle
      cases hidle
    refine hsingle.reloaded hbooks hreloaded ?_ ⟨_, _, hwaiting⟩ hnot
    simpa [hlocking] using horderly
  | children hleaders hcore =>
    refine hsingle.shrink hbooks ?_ ?_ hreload hstarting ?_ <;> rw [hcore]
    · exact fun _ => rfl
    · exact fun j hj => ⟨hj, rfl⟩

theorem of_fresh (hfresh : Fresh s) : Single s := by
  obtain ⟨layers, hmain⟩ := hfresh.main
  have hidle := hfresh.idle
  refine ⟨?_, ?_, ?_⟩
  · simp [(hidle _).1]
  · simp [(hidle _).1]
  · simp [hmain, MainPc.starting]

end Single

structure Orderly (s : State) : Prop where
  books : Books s
  booting : Booting s
  single : Single s

namespace Orderly

variable {s s' : State}

theorem of_fresh (hfresh : Fresh s) : Orderly s :=
  ⟨.of_fresh hfresh, .of_fresh hfresh, .of_fresh hfresh⟩

theorem step (h : Orderly s) (horderly : s.orderlyStart action = true)
    (hstep : s.step action = some s') : Orderly s' := by
  have hclean : s.cleanStart action = true := by
    simp only [State.orderlyStart, Bool.and_eq_true] at horderly
    exact horderly.1
  exact ⟨h.books.step hclean hstep, h.booting.step hstep,
    h.single.step h.books h.booting horderly hstep⟩

theorem of_reached (hreached : Reached (fun s action => s.orderlyStart action = true) s) :
    Orderly s :=
  hreached.invariant (fun _ hboots => of_fresh hboots.fresh) fun _ _ _ h => h.step

end Orderly

/-- In a run of orderly starts the processes of a name follow one another. -/
theorem one_live_process_per_name {s : State}
    (hreached : Reached (fun s action => s.orderlyStart action = true) s) {pid pid' : Pid}
    {i i' : InstId} {status status' : Option WaitStatus}
    (hchild : s.core.children.lookup pid = some ⟨some i, status⟩)
    (hchild' : s.core.children.lookup pid' = some ⟨some i', status'⟩)
    (hname : s.core.name i = s.core.name i') : pid = pid' := by
  obtain ⟨hbooks, -, hsingle⟩ := Orderly.of_reached hreached
  obtain ⟨hrunning, hpid⟩ := hbooks.core.leader pid i status hchild
  obtain ⟨hrunning', hpid'⟩ := hbooks.core.leader pid' i' status' hchild'
  rw [← hpid, ← hpid', hsingle.unique i i' hrunning hrunning' hname]

/-- The boot of `web` is orderly and leaves its process alone. -/
theorem web_alone_after_boot : ∃ s,
    run State.orderlyStart (plainInput [webProcess]) (bootActions 100) = some s ∧
      s.core.children.lookup 100 = some ⟨some 0, none⟩ ∧
      ∀ pid i status, s.core.children.lookup pid = some ⟨some i, status⟩ →
        s.core.name i = s.core.name 0 → pid = 100 := by
  have hrun : (run State.orderlyStart (plainInput [webProcess]) (bootActions 100)).map
      (fun s => s.core.children.lookup 100) = some (some ⟨some 0, none⟩) := by
    decide +kernel
  obtain ⟨s, hs, hchild⟩ := Option.map_eq_some_iff.mp hrun
  exact ⟨s, hs, hchild, fun pid i status hother hname =>
    one_live_process_per_name (reached_of_run hs) hother hchild hname⟩

/-- A control start between the locked section of a reload and the exit of the
old process forks for the new object at once. -/
theorem reload_lets_second_process_start : ∃ s, Reached Transition.anyStep s ∧
    s.core.children.lookup 100 = some ⟨some 0, none⟩ ∧
    s.core.children.lookup 101 = some ⟨some 1, none⟩ ∧
    s.core.name 0 = "web" ∧ s.core.name 1 = "web" := by
  have hrun : (run (fun _ _ => true) (plainInput [webProcess])
      (bootActions 100 ++ reloadActions [{ webProcess with args := ["-v"] }] ++
        controlStartActions "web" 1 101)).map
      (fun s => (s.core.children.lookup 100, s.core.children.lookup 101, s.core.name 0,
        s.core.name 1)) =
      some (some ⟨some 0, none⟩, some ⟨some 1, none⟩, "web", "web") := by
    decide +kernel
  obtain ⟨s, hs, hfacts⟩ := Option.map_eq_some_iff.mp hrun
  simp only [Prod.mk.injEq] at hfacts
  exact ⟨s, (reached_of_run hs).weaken fun _ _ _ => trivial, hfacts⟩

end Gopherd.Daemon
