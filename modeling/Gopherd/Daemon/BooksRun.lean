import Gopherd.Daemon.Books

namespace Gopherd.Daemon

open Go

structure Fresh (s : State) : Prop where
  built : ∃ processes controlSocket, Built processes controlSocket Core.empty s.core
  forking : s.forking = none
  reload : s.reload = .idle
  stopAll : s.stopAll = .idle
  tasks : s.tasks = []
  restartCh : s.restartCh = []
  restartClosed : s.restartClosed = false
  exitCode : s.exitCode = 0
  shuttingDown : s.shuttingDown = false
  shutdownClosed : s.shutdownClosed = false
  stopAllDone : s.stopAllDone = false
  started : s.started = false
  schedulers : s.schedulers = []
  main : ∃ layers, s.main = .nextLayer layers

variable {s : State}

theorem Boots.fresh (hboots : Boots s) : Fresh s := by
  obtain ⟨input, hboot⟩ := hboots
  unfold boot at hboot
  split at hboot
  · cases hboot
  · split_ifs at hboot
    split at hboot
    · next hbuild =>
        cases hboot
        exact ⟨⟨_, _, buildLoop_built hbuild⟩, rfl, rfl, rfl, rfl, rfl, rfl, rfl, rfl, rfl, rfl,
          rfl, rfl, ⟨_, rfl⟩⟩
    · cases hboot

/-- Nothing runs yet. -/
theorem Fresh.idle (hfresh : Fresh s) (i : InstId) :
    s.core.isRunning i = false ∧ s.core.done i = none := by
  obtain ⟨processes, controlSocket, hbuilt⟩ := hfresh.built
  rcases hbuilt.new i (Nat.zero_le i) with hsame | ⟨p, -, svc, hnew, heq⟩
  · exact ⟨congrArg Service.running hsame, congrArg Service.done hsame⟩
  · have hsvc := Service.builtFrom_of_new hnew
    unfold Core.isRunning Core.done
    rw [heq]
    exact ⟨hsvc.running, hsvc.done⟩

theorem MainPc.awaited_mem {main : MainPc} (hproc : proc ∈ main.awaited) :
    proc.1 ∈ main.layerOneshots := by
  cases main <;> simp only [MainPc.awaited, MainPc.layerOneshots, List.not_mem_nil] at hproc ⊢
  · exact List.mem_map_of_mem hproc
  · exact List.mem_map_of_mem hproc
  · exact List.mem_append_left _ (List.mem_map_of_mem hproc)

theorem MainPc.collected_mem {main : MainPc} (hi : i ∈ main.collected) :
    i ∈ main.layerOneshots := by
  cases main <;> simp only [MainPc.collected, MainPc.layerOneshots, List.not_mem_nil] at hi ⊢
  obtain ⟨result, hresult, rfl⟩ := List.mem_map.mp hi
  exact List.mem_append_right _ (List.mem_map_of_mem (List.mem_of_mem_filter hresult))

/-- A oneshot that is no longer waited for is among those that arrived. -/
theorem MainPc.layerOneshots_perm (hproc : proc ∈ waiting)
    (arrived : List (InstId × Option WaitStatus)) (fatal : Option (InstId × Option Int))
    (pos : BootPos) (status : Option WaitStatus) :
    (MainPc.results (waiting.erase proc) (arrived ++ [(proc.1, status)]) fatal
      pos).layerOneshots.Perm (MainPc.results waiting arrived fatal pos).layerOneshots := by
  have hperm := (List.perm_cons_erase hproc).map Prod.fst
  simp only [MainPc.layerOneshots, List.map_append, List.map_cons, List.map_nil]
  rw [← List.append_assoc]
  exact (List.perm_append_singleton _ _).trans (hperm.append_right _).symm

theorem MainMove.bootFrame (hmove : MainMove s before after) : BootFrame before after := by
  cases hmove with
  | layer => exact .plain rfl rfl rfl rfl rfl rfl
  | allStarted =>
    constructor <;> simp [MainPc.layerOneshots, MainPc.awaited, MainPc.collected,
      MainPc.reapedPid, MainPc.doomed, MainPc.ended]
  | skip => exact ⟨List.Subset.refl _, fun h => h, List.Subset.refl _, List.Subset.refl _,
      fun _ h => h, fun _ h => .inl h, fun h => h⟩
  | oneshot hlookup => exact ⟨List.Subset.refl _, fun h => h, List.Subset.refl _,
      List.Subset.refl _, fun _ h => h, fun _ h => .inl h, fun h => h⟩
  | startFailed => exact .gone rfl rfl
  | @expired _ arrived fatal pos _ hproc =>
    have hperm := MainPc.layerOneshots_perm hproc arrived fatal pos none
    exact ⟨hperm.subset, hperm.nodup_iff.mpr, List.erase_subset, by simp [MainPc.collected],
      fun _ h => h, fun i hi => .inl (hperm.mem_iff.mpr hi), by cases fatal <;> exact id⟩
  | failed => exact .gone rfl rfl
  | settled => exact .plain rfl rfl rfl rfl rfl rfl
  | _ => exact .plain rfl rfl rfl rfl rfl rfl

/-- Boot takes the oneshot it starts from the map of services. -/
theorem MainMove.starting (hmove : MainMove s before after) (hi : after.starting = some i) :
    ∃ name, s.core.services.lookup name = some i := by
  cases hmove with
  | oneshot hlookup =>
    cases hi
    exact ⟨_, hlookup⟩
  | _ => cases hi

/-- The locked section of a reload whose processes passed `service.New`. -/
theorem reloadSection_reloaded (hallocated : Allocated s.core)
    (hloaded : ∀ p ∈ cfg.processes, ∃ svc, Service.new p = .ok svc) (origin : ReloadOrigin)
    (startOrder : List String) :
    ∃ dones, Reloaded cfg s.core (s.reloadSection origin cfg startOrder).core dones ∧
      (s.reloadSection origin cfg startOrder).reload = .waiting origin dones
        ((s.reloadSection origin cfg startOrder).core.toStart startOrder) := by
  obtain ⟨core, dones, heq⟩ := reload_ok hloaded s.core s.entrypointArgs s.controlSocket
  have hreloaded := reload_reloaded (fun name i h => (hallocated.named name i h).2) heq
  refine ⟨dones, ?_, ?_⟩
  · simpa [State.reloadSection, heq] using hreloaded
  · simp [State.reloadSection, heq]

namespace Books

variable {s s' : State}

theorem of_resumes (hbooks : Books s) {boot reloads : Bool} {next : Task → Prop}
    (hresumes : Resumes boot reloads next s s') : Books s' := by
  obtain ⟨⟨_, _, _, _, rfl⟩, -, hmain, hreload⟩ := hresumes
  refine hbooks.of_other (.refl _) hbooks.forking ?_ ?_
  · intro origin cfg startOrder hlocking
    rcases hreload with hsame | ⟨-, _, _, -, hstarting⟩
    · exact hbooks.loaded origin cfg startOrder (hsame ▸ hlocking)
    · rw [hstarting] at hlocking
      cases hlocking
  · rcases hmain with hsame | ⟨-, habort⟩
    · exact .inl hsame
    · exact .inr (.inl habort)

/-- Other tasks and replies do not matter to the books. -/
theorem setTasks (hbooks : Books s) (tasks : List Task) (replies : List Reply) :
    Books { s with tasks := tasks, replies := replies } :=
  hbooks.of_other (.refl _) hbooks.forking hbooks.loaded (.inl rfl)

variable {i : InstId} {pid : Pid} {choice : Choice} {status : WaitStatus}

theorem current_lt (hbooks : Books s) (hcurrent : s.core.isCurrent i = true) :
    i < s.core.nextInst :=
  (hbooks.core.named _ i (Core.isCurrent_iff.mp hcurrent)).2

/-- An object that is not running has no place among the booked ones. -/
theorem ne_of_idle {c : Core} (hidle : c.isRunning i = false) (hj : c.isRunning j = true) :
    j ≠ i := by
  rintro rfl
  rw [hidle] at hj
  cases hj

/-- A new leader is none of the processes that boot or the reap loop is about
to record. -/
theorem forked_leaders (hbooks : Books s) (hidle : s.core.isRunning i = false)
    (hclean : pid ∉ s.bookedPids) :
    (∀ j ∈ s.main.collected, ∀ other status,
        (s.core.children.insert pid ⟨some i, none⟩).lookup other ≠ some ⟨some j, status⟩) ∧
      ∀ other, s.main.reapedPid = some other → ∀ j status,
        (s.core.children.insert pid ⟨some i, none⟩).lookup other ≠ some ⟨some j, status⟩ := by
  simp only [State.bookedPids, List.mem_append, not_or] at hclean
  constructor
  · intro j hj other status
    rw [GoMap.lookup_insert]
    split_ifs
    · intro hchild
      cases hchild
      exact ne_of_idle hidle (hbooks.oneshots _ (MainPc.collected_mem hj)).1 rfl
    · exact hbooks.collected j hj other status
  · intro other hreaped j status
    rw [GoMap.lookup_insert]
    split_ifs with hpid
    · subst hpid
      exact absurd (Option.mem_toList.mpr hreaped) hclean.1.2
    · exact hbooks.reaped other hreaped j status

theorem forked (hbooks : Books s) {i : InstId} {caller : StartCaller} {pid : Pid}
    (hforking : s.forking = some (i, caller)) (hclean : pid ∉ s.bookedPids) :
    Books { s with
      forking := none, core := s.core.startManaged i pid, childStarted := true } := by
  obtain ⟨hcurrent, hidle⟩ := hbooks.forking i caller hforking
  obtain ⟨hcollected, hreaped⟩ := hbooks.forked_leaders hidle hclean
  have hkeys : pid ∉ s.core.pidMap.keys := by
    simp only [State.bookedPids, List.mem_append, not_or] at hclean
    exact hclean.1.1
  refine {
    core := hbooks.core.startManaged hidle (hbooks.current_lt hcurrent)
    tracked := ?_, forking := ?_, oneshots := ?_, oneshotsNodup := hbooks.oneshotsNodup
    awaited := ?_, collected := hcollected, reaped := hreaped, starting := hbooks.starting
    loaded := hbooks.loaded }
  · intro j
    change (s.core.finishStart i pid).isRunning j = true →
      (s.core.pidMap.insert pid i).lookup ((s.core.finishStart i pid).heap j).pid = some j ∨ _
    rw [CoreBooks.finishStart_running, CoreBooks.finishStart_pid, GoMap.lookup_insert]
    by_cases hji : j = i
    · simp [hji]
    · simp only [if_neg hji]
      intro hrunning
      rcases hbooks.tracked j hrunning with hmap | hrest
      · left
        have hne : (s.core.heap j).pid ≠ pid := by
          rintro rfl
          exact hkeys (GoMap.mem_keys.mpr (by simp [hmap]))
        rw [if_neg hne]
        exact hmap
      · exact .inr hrest
  · intro j other hfork
    cases hfork
  · intro j hj
    obtain ⟨hrunning, hunmapped⟩ := hbooks.oneshots j hj
    have hji := ne_of_idle hidle hrunning
    change (s.core.finishStart i pid).isRunning j = true ∧
      ∀ other, (s.core.pidMap.insert pid i).lookup other ≠ some j
    rw [CoreBooks.finishStart_running, if_neg hji]
    refine ⟨hrunning, fun other => ?_⟩
    rw [GoMap.lookup_insert]
    split_ifs
    · intro heq
      cases heq
      exact hji rfl
    · exact hunmapped other
  · intro proc hproc
    have hji := ne_of_idle hidle (hbooks.oneshots _ (MainPc.awaited_mem hproc)).1
    change ((s.core.finishStart i pid).heap proc.1).pid = proc.2
    rw [CoreBooks.finishStart_pid, if_neg hji]
    exact hbooks.awaited proc hproc

theorem stepFork (hbooks : Books s) (hclean : s.cleanStart (.fork choice) = true)
    (hstep : s.stepFork choice = some s') : Books s' := by
  obtain ⟨i, caller, hforking, ⟨pid, rfl, -, hresumes⟩ | ⟨-, hresumes⟩⟩ := stepFork_cases hstep
  · have hpid : pid ∉ s.bookedPids := by simpa [State.cleanStart] using hclean
    exact (hbooks.forked hforking hpid).of_resumes hresumes
  · have hfailed : Books { s with forking := none } :=
      hbooks.of_other (.refl _) (fun _ _ h => by cases h) hbooks.loaded (.inl rfl)
    exact hfailed.of_resumes hresumes

/-- The locked section of a reload. -/
theorem reloaded (hbooks : Books s) {cfg : Config} {core : Core} {dones : List (Option Chan)}
    (hunlocked : s.unlocked = true) (hreload : Reloaded cfg s.core core dones)
    (hcore : s'.core = core) (hforking : s'.forking = s.forking) (hmain : s'.main = s.main)
    (hpc : ∀ origin cfg startOrder, s'.reload ≠ .locking origin cfg startOrder) : Books s' := by
  subst hcore
  have hlt : ∀ i, s.core.isRunning i = true → i < s.core.nextInst := by
    intro i hrunning
    by_contra hi
    rw [hbooks.core.fresh i (Nat.not_lt.mp hi)] at hrunning
    cases hrunning
  refine {
    core := hbooks.core.reloaded hreload
    tracked := ?_, forking := ?_, oneshots := ?_, oneshotsNodup := ?_, awaited := ?_
    collected := ?_, reaped := ?_, starting := ?_, loaded := ?_ }
  · intro i hrunning
    have hi : i < s.core.nextInst ∧ s.core.isRunning i = true := by
      by_cases hi : i < s.core.nextInst
      · exact ⟨hi, (hreload.running i hi) ▸ hrunning⟩
      · have hidle := hbooks.core.fresh i (Nat.not_lt.mp hi)
        rcases hreload.fresh i (Nat.not_lt.mp hi) with hsame | hnew
        · rw [hsame.1, hidle] at hrunning
          cases hrunning
        · rw [hnew.1] at hrunning
          cases hrunning
    rw [hreload.pidMap, hreload.pid i hi.1, hmain]
    exact hbooks.tracked i hi.2
  · intro i caller hfork
    rw [hforking] at hfork
    simp [State.unlocked, hfork] at hunlocked
  · intro i hi
    rw [hmain] at hi
    obtain ⟨hrunning, hunmapped⟩ := hbooks.oneshots i hi
    rw [hreload.running i (hlt i hrunning), hreload.pidMap]
    exact ⟨hrunning, hunmapped⟩
  · rw [hmain]
    exact hbooks.oneshotsNodup
  · intro proc hproc
    rw [hmain] at hproc
    have hrunning := (hbooks.oneshots _ (MainPc.awaited_mem hproc)).1
    rw [hreload.pid _ (hlt _ hrunning)]
    exact hbooks.awaited proc hproc
  · intro i hi
    rw [hmain] at hi
    unfold NoLeader
    rw [hreload.children]
    exact hbooks.collected i hi
  · intro pid hpid
    rw [hmain] at hpid
    rw [hreload.children]
    exact hbooks.reaped pid hpid
  · intro i hi
    rw [hmain] at hi
    exact Nat.lt_of_lt_of_le (hbooks.starting i hi) hreload.nextInst
  · intro origin cfg startOrder hlocking
    exact absurd hlocking (hpc origin cfg startOrder)

/-- A reload that has come this far gets through its locked section. -/
theorem reloadSection (hbooks : Books s) (hlocking : s.reload = .locking origin cfg startOrder) :
    ∃ dones, Reloaded cfg s.core (s.reloadSection origin cfg startOrder).core dones ∧
      (s.reloadSection origin cfg startOrder).reload = .waiting origin dones
        ((s.reloadSection origin cfg startOrder).core.toStart startOrder) :=
  reloadSection_reloaded hbooks.core.toAllocated (hbooks.loaded origin cfg startOrder hlocking)
    origin startOrder

theorem stepReload (hbooks : Books s) (hstep : s.stepReload choice = some s') : Books s' := by
  rcases stepReload_cases hstep with ⟨⟨reload, _, _, _, _, rfl⟩, hmove, -⟩ |
    ⟨origin, cfg, startOrder, hlocking, hunlocked, -, rfl⟩
  · refine hbooks.of_other (.refl _) hbooks.forking ?_ (.inl rfl)
    intro origin cfg startOrder hlocking
    have hreload : reload = .locking origin cfg startOrder := hlocking
    simp only [hreload] at hmove
    generalize s.reload = before at hmove
    cases hmove with
    | load hload => exact loadConfig_new hload
  · obtain ⟨dones, hreloaded, hwaiting⟩ := hbooks.reloadSection hlocking
    obtain ⟨_, _, _, _, _, heq⟩ := reloadSection_eq s origin cfg startOrder
    refine hbooks.reloaded hunlocked hreloaded rfl ?_ ?_ ?_
    · rw [heq]
    · rw [heq]
    · rw [hwaiting]
      simp

/-- A oneshot that boot starts while nobody else does. -/
theorem oneshotStarted (hbooks : Books s) {i : InstId} {pid : Pid} {todo : List String}
    {procs : List (InstId × Pid)} {pos : BootPos}
    (hmain : s.main = .oneshotStart i todo procs pos)
    (hidle : s.core.isRunning i = false) (hforking : s.forking.map Prod.fst ≠ some i)
    (hclean : pid ∉ s.bookedPids) :
    Books { s with
      core := s.core.startOneshot i pid, main := .oneshots todo (procs ++ [(i, pid)]) pos } := by
  obtain ⟨-, hreaped⟩ := hbooks.forked_leaders hidle hclean
  have honeshots := hbooks.oneshots
  have hnodup := hbooks.oneshotsNodup
  have hawaited := hbooks.awaited
  have hi := hbooks.starting i (by rw [hmain]; rfl)
  simp only [hmain, MainPc.layerOneshots, MainPc.awaited] at honeshots hnodup hawaited
  have hlists : (procs ++ [(i, pid)]).map Prod.fst = procs.map Prod.fst ++ [i] := by simp
  refine {
    core := hbooks.core.startOneshot hidle hi
    tracked := ?_, forking := ?_, oneshots := ?_, oneshotsNodup := ?_, awaited := ?_
    collected := ?_, reaped := ?_, starting := ?_, loaded := hbooks.loaded }
  · intro j
    change (s.core.finishStart i pid).isRunning j = true →
      s.core.pidMap.lookup ((s.core.finishStart i pid).heap j).pid = some j ∨
        j ∈ (procs ++ [(i, pid)]).map Prod.fst ∨ _
    rw [CoreBooks.finishStart_running, CoreBooks.finishStart_pid, hlists]
    by_cases hji : j = i
    · simp [hji]
    · simp only [if_neg hji]
      intro hrunning
      rcases hbooks.tracked j hrunning with hmap | honeshot | hdoomed
      · exact .inl hmap
      · rw [hmain] at honeshot
        exact .inr (.inl (List.mem_append_left _ honeshot))
      · simp [hmain, MainPc.doomed, MainPc.ended] at hdoomed
  · intro j caller hfork
    obtain ⟨hcurrent, hjidle⟩ := hbooks.forking j caller hfork
    have hji : j ≠ i := by
      rintro rfl
      exact hforking (by simp [show s.forking = some (j, caller) from hfork])
    refine ⟨?_, ?_⟩
    · change decide (s.core.services.lookup ((s.core.finishStart i pid).name j) = some j) = true
      rw [CoreBooks.finishStart_name]
      exact hcurrent
    · change (s.core.finishStart i pid).isRunning j = false
      rw [CoreBooks.finishStart_running, if_neg hji]
      exact hjidle
  · intro j hj
    change (s.core.finishStart i pid).isRunning j = true ∧ _
    rw [CoreBooks.finishStart_running]
    change j ∈ (procs ++ [(i, pid)]).map Prod.fst at hj
    rw [hlists] at hj
    rcases List.mem_append.mp hj with hold | hnew
    · obtain ⟨hrunning, hunmapped⟩ := honeshots j hold
      rw [if_neg (ne_of_idle hidle hrunning)]
      exact ⟨hrunning, hunmapped⟩
    · have hji := List.mem_singleton.mp hnew
      subst hji
      refine ⟨if_pos rfl, fun other hother => ?_⟩
      have hrunning := (hbooks.core.mapped other j hother).1
      rw [hidle] at hrunning
      cases hrunning
  · change ((procs ++ [(i, pid)]).map Prod.fst).Nodup
    rw [hlists, List.nodup_append]
    refine ⟨hnodup, List.nodup_singleton i, ?_⟩
    intro j hj k hk
    rw [List.mem_singleton.mp hk]
    exact ne_of_idle hidle (honeshots j hj).1
  · intro proc hproc
    change ((s.core.finishStart i pid).heap proc.1).pid = proc.2
    rw [CoreBooks.finishStart_pid]
    rcases List.mem_append.mp hproc with hold | hnew
    · rw [if_neg (ne_of_idle hidle (honeshots _ (List.mem_map_of_mem hold)).1)]
      exact hawaited proc hold
    · rw [List.mem_singleton.mp hnew, if_pos rfl]
  · intro j hj
    cases hj
  · intro other hother
    cases hother
  · intro j hj
    cases hj

/-- The moves of main that touch no process only rearrange the lists of boot,
or end the daemon. -/
theorem of_mainFrame (hbooks : Books s) (hframe : MainFrame s s') : Books s' := by
  obtain ⟨hcore, -, ⟨core, _, _, _, _, _, _, _, _, main, rfl⟩, hmove, -⟩ := hframe
  change MainMove s s.main main at hmove
  refine hbooks.of_sameRuns (.of_quiet hcore) hbooks.forking hbooks.loaded hmove.bootFrame ?_
  intro i hi
  obtain ⟨name, hlookup⟩ := hmove.starting hi
  exact (hbooks.core.named name i hlookup).2

/-- A child that is collected leaves the books of the objects as they are. -/
theorem childErased (hbooks : Books s) (pid : Pid) :
    Books { s with core := { s.core with children := s.core.children.erase pid } } := by
  have hleaders : ∀ other i status,
      (s.core.children.erase pid).lookup other = some ⟨some i, status⟩ →
        ∃ status', s.core.children.lookup other = some ⟨some i, status'⟩ :=
    fun _ _ status hchild => ⟨status, (erase_leaders hchild).2⟩
  exact @setChildren s hbooks _ s.childStarted hleaders

theorem oneshotCollected (hbooks : Books s) (hmain : s.main = .results waiting arrived fatal pos)
    (hproc : proc ∈ waiting) :
    Books { s with
      core := { s.core with children := s.core.children.erase proc.2 }
      main := .results (waiting.erase proc) (arrived ++ [(proc.1, some status)]) fatal pos } := by
  have herased := hbooks.childErased proc.2
  have hperm := MainPc.layerOneshots_perm hproc arrived fatal pos (some status)
  have hpid : (s.core.heap proc.1).pid = proc.2 := hbooks.awaited proc (by rw [hmain]; exact hproc)
  refine {
    core := herased.core
    tracked := ?_, forking := herased.forking, oneshots := ?_, oneshotsNodup := ?_
    awaited := ?_, collected := ?_, reaped := ?_, starting := ?_, loaded := herased.loaded }
  · intro i hrunning
    rcases hbooks.tracked i hrunning with hmap | honeshot | hdoomed
    · exact .inl hmap
    · rw [hmain] at honeshot
      exact .inr (.inl (hperm.mem_iff.mpr honeshot))
    · rw [hmain] at hdoomed
      exact .inr (.inr (by cases fatal <;> exact hdoomed))
  · intro i hi
    exact hbooks.oneshots i (by rw [hmain]; exact hperm.mem_iff.mp hi)
  · have hnodup := hbooks.oneshotsNodup
    rw [hmain] at hnodup
    exact hperm.nodup_iff.mpr hnodup
  · intro other hother
    exact hbooks.awaited other (by rw [hmain]; exact List.erase_subset hother)
  · intro i hi pid status' hchild
    obtain ⟨hne, hbefore⟩ := erase_leaders hchild
    have hi : i ∈ (MainPc.results waiting arrived fatal pos).collected ∨ i = proc.1 := by
      simpa [MainPc.collected] using hi
    rcases hi with hi | rfl
    · exact hbooks.collected i (by rw [hmain]; exact hi) pid status' hbefore
    · exact hne ((hbooks.core.leader pid _ status' hbefore).2.symm.trans hpid)
  · intro pid hreaped
    cases hreaped
  · intro i hi
    cases hi

/-- The result of a oneshot that timed out dooms the daemon. -/
theorem oneshotTimedOut (hbooks : Books s)
    (hmain : s.main = .results waiting ((i, none) :: arrived) fatal pos) :
    Books { s with
      core := s.core.serviceExited i 1
      main := .results waiting arrived (fatal.or (some (i, none))) pos } := by
  have hdoomed :
      (MainPc.results waiting arrived (fatal.or (some (i, none))) pos).doomed = true := by
    cases fatal <;> rfl
  refine hbooks.of_sameRuns (.setMetrics _ _) hbooks.forking hbooks.loaded ?_
    (by simp [MainPc.starting])
  rw [hmain]
  refine ⟨?_, ?_, List.Subset.refl _, ?_, fun _ h => h, fun _ _ => .inr hdoomed, fun _ => hdoomed⟩
  · intro j hj
    simp only [MainPc.layerOneshots, List.map_cons, List.mem_append, List.mem_cons] at hj ⊢
    tauto
  · intro hnodup
    simp only [MainPc.layerOneshots, List.map_cons] at hnodup ⊢
    exact (List.perm_middle.nodup_iff.mp hnodup).of_cons
  · simp [MainPc.collected]

theorem oneshotExited (hbooks : Books s) {waiting : List (InstId × Pid)} {i : InstId}
    {status : WaitStatus} {arrived : List (InstId × Option WaitStatus)}
    {fatal fatal' : Option (InstId × Option Int)} {code : Int} {pos : BootPos}
    (hmain : s.main = .results waiting ((i, some status) :: arrived) fatal pos)
    (hfatal : fatal.isSome = true → fatal'.isSome = true) :
    Books { s with
      core := (s.core.markExited i).serviceExited i code
      main := .results waiting arrived fatal' pos } := by
  have hlayer : (MainPc.results waiting ((i, some status) :: arrived) fatal pos).layerOneshots.Perm
      (i :: (MainPc.results waiting arrived fatal' pos).layerOneshots) := by
    simp only [MainPc.layerOneshots, List.map_cons]
    exact List.perm_middle
  have hmem : i ∈ s.main.layerOneshots := by
    rw [hmain]
    exact hlayer.mem_iff.mpr List.mem_cons_self
  have hleader : NoLeader s.core i := hbooks.collected i (by rw [hmain]; simp [MainPc.collected])
  obtain ⟨-, hunmapped⟩ := hbooks.oneshots i hmem
  have hnodup := hbooks.oneshotsNodup
  rw [hmain, hlayer.nodup_iff, List.nodup_cons] at hnodup
  have hold : ∀ j ∈ (MainPc.results waiting arrived fatal' pos).layerOneshots,
      j ≠ i ∧ j ∈ s.main.layerOneshots := by
    intro j hj
    refine ⟨fun hji => hnodup.1 (hji ▸ hj), ?_⟩
    rw [hmain]
    exact hlayer.mem_iff.mpr (List.mem_cons_of_mem i hj)
  refine {
    core := (hbooks.core.markExited hleader hunmapped).of_sameRuns (.setMetrics _ _)
    tracked := ?_, forking := ?_, oneshots := ?_, oneshotsNodup := hnodup.2
    awaited := ?_, collected := ?_, reaped := ?_, starting := ?_, loaded := hbooks.loaded }
  · intro j
    change (s.core.markExited i).isRunning j = true →
      s.core.pidMap.lookup ((s.core.markExited i).heap j).pid = some j ∨ _
    rw [CoreBooks.markExited_running]
    split_ifs with hji
    · intro hfalse
      cases hfalse
    · intro hrunning
      rw [CoreBooks.markExited_pid hji]
      rcases hbooks.tracked j hrunning with hmap | honeshot | hdoomed
      · exact .inl hmap
      · rw [hmain, hlayer.mem_iff, List.mem_cons] at honeshot
        exact .inr (.inl (honeshot.resolve_left hji))
      · right; right
        rw [hmain] at hdoomed
        cases fatal with
        | none => cases hdoomed
        | some _ =>
          obtain ⟨_, rfl⟩ := Option.isSome_iff_exists.mp (hfatal rfl)
          rfl
  · intro j caller hfork
    obtain ⟨hcurrent, hidle⟩ := hbooks.forking j caller hfork
    refine ⟨?_, ?_⟩
    · change decide (s.core.services.lookup ((s.core.markExited i).name j) = some j) = true
      rw [CoreBooks.markExited_name]
      exact hcurrent
    · change (s.core.markExited i).isRunning j = false
      rw [CoreBooks.markExited_running]
      split_ifs
      · rfl
      · exact hidle
  · intro j hj
    obtain ⟨hji, hj⟩ := hold j hj
    change (s.core.markExited i).isRunning j = true ∧ _
    rw [CoreBooks.markExited_running, if_neg hji]
    exact hbooks.oneshots j hj
  · intro proc hproc
    have hji := (hold proc.1 (MainPc.awaited_mem hproc)).1
    change ((s.core.markExited i).heap proc.1).pid = proc.2
    rw [CoreBooks.markExited_pid hji]
    exact hbooks.awaited proc (by rw [hmain]; exact hproc)
  · intro j hj
    refine hbooks.collected j ?_
    rw [hmain]
    simp only [MainPc.collected, List.filter_cons, Option.isSome_some, if_true, List.map_cons]
    exact List.mem_cons_of_mem i hj
  · intro pid hpid
    cases hpid
  · intro j hj
    cases hj

/-- The reap loop collects a child. -/
theorem reapedChild (hbooks : Books s) (hmain : s.main = .wait4) :
    Books { s with
      core := { s.core with children := s.core.children.erase pid }
      main := .reaped pid status } := by
  have herased := hbooks.childErased pid
  refine {
    core := herased.core
    tracked := ?_, forking := herased.forking, oneshots := ?_, oneshotsNodup := List.nodup_nil
    awaited := ?_, collected := ?_, reaped := ?_, starting := ?_, loaded := herased.loaded }
  · intro i hrunning
    have htracked := hbooks.tracked i hrunning
    rw [hmain] at htracked
    exact htracked
  · intro i hi
    cases hi
  · intro proc hproc
    cases hproc
  · intro i hi
    cases hi
  · intro other hother i status' hchild
    cases hother
    exact (erase_leaders hchild).1 rfl
  · intro i hi
    cases hi

/-- The reap loop records an exit. -/
theorem exitRecorded (hbooks : Books s) (hmain : s.main = .reaped pid status)
    (hunlocked : s.unlocked = true) (hmap : s.core.pidMap.lookup pid = some i) :
    Books { s with core := s.core.recordExit i pid, main := .wait4 } := by
  have hpid := (hbooks.core.mapped pid i hmap).2
  have hleader : NoLeader s.core i := by
    intro other status' hchild
    have hother := (hbooks.core.leader other i status' hchild).2
    rw [hpid] at hother
    subst hother
    exact hbooks.reaped pid (by rw [hmain]; rfl) i status' hchild
  refine {
    core := hbooks.core.recordExit hleader hmap
    tracked := ?_, forking := ?_, oneshots := ?_, oneshotsNodup := List.nodup_nil
    awaited := ?_, collected := ?_, reaped := ?_, starting := ?_, loaded := hbooks.loaded }
  · intro j
    change ({ s.core with pidMap := s.core.pidMap.erase pid }.markExited i).isRunning j = true →
      (s.core.pidMap.erase pid).lookup
        (({ s.core with pidMap := s.core.pidMap.erase pid }.markExited i).heap j).pid = some j ∨ _
    rw [CoreBooks.markExited_running]
    split_ifs with hji
    · intro hfalse
      cases hfalse
    · intro hrunning
      rw [CoreBooks.markExited_pid hji]
      rcases hbooks.tracked j hrunning with hother | honeshot | hdoomed
      · left
        have hne : (s.core.heap j).pid ≠ pid := by
          intro hsame
          rw [hsame, hmap] at hother
          exact hji (Option.some.inj hother).symm
        rw [GoMap.lookup_erase]
        exact (if_neg hne).trans hother
      · rw [hmain] at honeshot
        cases honeshot
      · rw [hmain] at hdoomed
        cases hdoomed
  · intro j caller hfork
    rw [State.unlocked, show s.forking = some (j, caller) from hfork] at hunlocked
    cases hunlocked
  · intro j hj
    cases hj
  · intro proc hproc
    cases hproc
  · intro j hj
    cases hj
  · intro other hother
    cases hother
  · intro j hj
    cases hj

theorem stepReaped (hbooks : Books s) (hmain : s.main = .reaped pid status)
    (hunlocked : s.unlocked = true) : Books (s.stepReaped pid status times) := by
  unfold State.stepReaped
  cases hmap : s.core.pidMap.lookup pid with
  | none =>
    refine hbooks.of_sameRuns (.refl _) hbooks.forking hbooks.loaded ?_ (fun _ h => by cases h)
    rw [hmain]
    exact .plain rfl rfl rfl rfl rfl rfl
  | some i =>
    have hrecorded := hbooks.exitRecorded hmain hunlocked hmap
    have hsame := handleExit_sameRuns s.core s.shuttingDown i pid status times
    dsimp only
    cases (s.core.handleExit s.shuttingDown i pid status times).2
    all_goals
      exact hrecorded.of_sameRuns hsame hrecorded.forking hrecorded.loaded
        (.plain rfl rfl rfl rfl rfl rfl) (fun _ h => by cases h)

theorem stepMain (hbooks : Books s) (hclean : s.cleanStart (.main choice) = true)
    (hstep : s.stepMain choice = some s') :
    Books s' := by
  rcases stepMain_cases hstep with hframe | hevent
  · exact hbooks.of_mainFrame hframe
  · cases hevent with
    | oneshotStarted hmain hfree =>
      simp only [State.cleanStart, hmain, Bool.and_eq_true, Bool.not_eq_true',
        decide_eq_true_eq] at hclean
      exact hbooks.oneshotStarted hmain hclean.1.1 hclean.1.2 hclean.2
    | oneshotCollected hmain hproc hchild => exact hbooks.oneshotCollected hmain hproc
    | oneshotTimedOut hmain => exact hbooks.oneshotTimedOut hmain
    | oneshotExited hmain hfatal => exact hbooks.oneshotExited hmain hfatal
    | reaped hmain hchild => exact hbooks.reapedChild hmain
    | exited hmain hunlocked => exact hbooks.stepReaped hmain hunlocked

theorem step (hbooks : Books s) (hclean : s.cleanStart action = true)
    (hstep : s.step action = some s') : Books s' := by
  obtain ⟨-, hstepped⟩ := step_cases hstep
  cases hstepped with
  | run hmem htask => exact (hbooks.setTasks _ _).of_taskFrame (stepTask_frame htask)
  | giveUp hmem hobserved => exact hbooks.setTasks _ _
  | fork hfork => exact hbooks.stepFork hclean hfork
  | reload hreload => exact hbooks.stepReload hreload
  | stopAll hstop => exact hbooks.of_stopFrame (stepStopAll_frame hstop)
  | main hmain => exact hbooks.stepMain hclean hmain
  | dispatch hqueue hstarted =>
    exact hbooks.of_other (.refl _) hbooks.forking hbooks.loaded (.inl rfl)
  | arrives harrives => exact hbooks.setTasks _ _
  | child hevent => exact hbooks.setChildren hevent.leaders
  | forward | touch => exact hbooks.of_other (.refl _) hbooks.forking hbooks.loaded (.inl rfl)

theorem of_fresh (hfresh : Fresh s) : Books s := by
  obtain ⟨processes, controlSocket, hbuilt⟩ := hfresh.built
  obtain ⟨layers, hmain⟩ := hfresh.main
  have hidle := hfresh.idle
  refine {
    core := ?_, tracked := ?_, forking := ?_, oneshots := ?_, oneshotsNodup := ?_, awaited := ?_
    collected := ?_, reaped := ?_, starting := ?_, loaded := ?_ }
  · refine ⟨⟨?_, ?_, ?_, ?_, fun i _ => (hidle i).1⟩, ?_, ?_, ?_, fun i _ => (hidle i).2, ?_⟩
    · simp [(hidle _).2]
    · simp [hbuilt.closed, Core.empty]
    · simp [(hidle _).2]
    · intro name i hlookup
      rcases hbuilt.services name i hlookup with hempty | ⟨-, hlt, -, hname⟩
      · simp [Core.empty] at hempty
      · exact ⟨hname, hlt⟩
    · simp [hbuilt.children, Core.empty]
    · simp [hbuilt.pidMap, Core.empty]
    · simp [(hidle _).1]
    · simp [hbuilt.nextChan, Core.empty]
  · simp [(hidle _).1]
  · simp [hfresh.forking]
  all_goals simp [hmain, hfresh.reload, MainPc.layerOneshots, MainPc.awaited, MainPc.collected,
    MainPc.reapedPid, MainPc.starting]

/-- In a run whose starts are all clean the books are right at all times. -/
theorem of_reached {ok : State → Action → Prop}
    (hok : ∀ s action, ok s action → s.cleanStart action = true) (hreached : Reached ok s) :
    Books s :=
  hreached.invariant (fun _ hboots => of_fresh hboots.fresh) fun _ _ _ hbooks hallowed hstep =>
    hbooks.step (hok _ _ hallowed) hstep

end Books

end Gopherd.Daemon
