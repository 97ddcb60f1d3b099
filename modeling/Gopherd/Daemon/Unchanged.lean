import Gopherd.Daemon.Applied
import Gopherd.Daemon.Progress

/-!
The reload of a configuration that is already in force.
-/

namespace Gopherd.Daemon

open Go

/-- The call of `startService` that holds the lock, if it is one for the reload. -/
def reloadForks : Option (InstId × StartCaller) → Nat
  | some (_, caller) => if caller.isReload then 1 else 0
  | none => 0

def State.reloadStarts (s : State) : Nat :=
  s.tasks.countP Task.isReloadStart + reloadForks s.forking

def ReloadPc.starts : ReloadPc → Nat
  | .startWait _ _ => 1
  | _ => 0

theorem ReloadPc.startWait_of_starts {pc : ReloadPc} (h : 0 < pc.starts) :
    ∃ origin rest, pc = .startWait origin rest := by
  cases pc with
  | startWait origin rest => exact ⟨origin, rest, rfl⟩
  | _ => cases h

variable {t : Task} {s s' : State} {action : Action} {i : InstId} {choice : Choice}

theorem Task.not_reloadStart_of_continuation (h : t.isContinuation = true) :
    t.isReloadStart = false := by
  cases t <;> first | rfl | cases h

/-- A start for the reload is only continued by itself. -/
theorem Follows.reloadStart (h : Follows s t t') (ht' : t'.isReloadStart = true) :
    t.isReloadStart = true := by
  have hnext : ∀ {t'' : Task}, t''.isContinuation = true → t''.isReloadStart = true → False :=
    fun hcontinues hstart => by
      rw [Task.not_reloadStart_of_continuation hcontinues] at hstart
      cases hstart
  cases h with
  | startCondition | startPrepare => exact ht'
  | gateFailed h | notify h | notifyFailed h => exact (hnext h.isContinuation ht').elim
  | startSkipped h | startFailed h => exact (hnext h.isContinuation ht').elim
  | startLate _ h | startReplaced _ h | startRunning _ h =>
    exact (hnext h.isContinuation ht').elim
  | shutdown h => exact (hnext h.isContinuation ht').elim
  | _ => cases ht'

theorem MainNext.not_reloadStart (h : MainNext s t) :
    t.isReloadStart = false := by
  cases h <;> rfl

theorem Arrives.not_reloadStart (h : Arrives s action t) :
    t.isReloadStart = false := by
  cases h with
  | @request request => cases request <;> rfl
  | _ => rfl

theorem Task.unobserved_isReloadStart (t : Task) :
    t.unobserved.isReloadStart = t.isReloadStart := by
  cases t with
  | start i pc caller => cases caller <;> rfl
  | shutdown code caller => cases caller <;> rfl
  | _ => rfl

/-- Where the starts for the reload come from. -/
theorem NewTask.reloadStart (h : NewTask s action (.start i pc .reload)) :
    (pc = .prepare ∧ .start i .condition .reload ∈ s.tasks ∧
      (s.core.heap i).unmetCondition s.files = none) ∨
    (pc = .lock ∧ .start i .prepare .reload ∈ s.tasks) ∨
    (pc = .condition ∧ ∃ origin rest, s.reload = .starting origin (i :: rest)) := by
  have hcontinues : Task.isContinuation (.start i pc .reload) = false := rfl
  generalize htask : Task.start i pc .reload = t at h
  cases h with
  | follows hmem hfollows =>
    subst htask
    generalize htask : Task.start i pc .reload = t at hfollows
    cases hfollows with
    | startCondition hmet =>
      cases htask
      exact .inl ⟨rfl, hmem, hmet⟩
    | startPrepare =>
      cases htask
      exact .inr (.inl ⟨rfl, hmem⟩)
    | gateFailed hnext | notify hnext | notifyFailed hnext =>
      rw [htask, hnext.isContinuation] at hcontinues
      cases hcontinues
    | startSkipped hnext | startFailed hnext =>
      rw [htask, hnext.isContinuation] at hcontinues
      cases hcontinues
    | startLate _ hnext | startReplaced _ hnext | startRunning _ hnext =>
      rw [htask, hnext.isContinuation] at hcontinues
      cases hcontinues
    | shutdown hnext =>
      rw [htask, hnext.isContinuation] at hcontinues
      cases hcontinues
    | _ => cases htask
  | @unobserved t choice hmem hobserved =>
    have hstart := Task.unobserved_isReloadStart t
    rw [← htask] at hstart
    cases t with
    | start j pc' caller =>
      cases caller with
      | reload => cases hobserved
      | _ => cases hstart
    | _ => cases hstart
  | forked _ hnext | forkFailed _ hnext =>
    rw [htask, hnext.isContinuation] at hcontinues
    cases hcontinues
  | reload hstarting =>
    cases htask
    exact .inr (.inr ⟨rfl, _, _, hstarting⟩)
  | stopped _ _ hnext =>
    rw [htask, hnext.isContinuation] at hcontinues
    cases hcontinues
  | main hmain => cases hmain <;> cases htask
  | dispatch => cases htask
  | arrives harrives =>
    have hno := harrives.not_reloadStart
    rw [← htask] at hno
    cases hno

/-- A goroutine that is no start for the reload does not add one. -/
theorem Adds.countP_le {next : Task → Prop} (h : Adds s s' next)
    (hnext : ∀ t, next t → t.isReloadStart = false) :
    s'.tasks.countP Task.isReloadStart = s.tasks.countP Task.isReloadStart := by
  rcases h with hsame | ⟨t, hnew, ht⟩
  · rw [hsame]
  · rw [hnew, List.countP_cons_of_neg (by simp [hnext t ht])]

theorem countP_reloadStart_erase {tasks : List Task} (ht : t ∈ tasks) :
    tasks.countP Task.isReloadStart = (tasks.erase t).countP Task.isReloadStart +
      if t.isReloadStart then 1 else 0 := by
  rw [(List.perm_cons_erase ht).countP_eq, List.countP_cons]

/-- A start for the reload goes on or returns to it. -/
theorem stepStart_reloadStarts {pc : StartPc} (hstep : s.stepStart i .reload choice pc = some s')
    (hnone : s.reloadStarts = 0) (hwait : s.reload.starts = 1) :
    s'.reloadStarts ≤ s'.reload.starts := by
  obtain ⟨origin, rest, hreload⟩ := ReloadPc.startWait_of_starts (by omega : 0 < s.reload.starts)
  rcases stepStart_cases hstep with ⟨core, result, -, rfl⟩ | ⟨next, rfl⟩ | ⟨-, rfl⟩
  · simp only [State.startDone, State.setCore, hreload]
    exact Nat.le_of_eq hnone
  · have hone : (s.spawn (.start i next .reload)).reloadStarts = s.reloadStarts + 1 := by
      simp only [State.reloadStarts, State.spawn]
      rw [List.countP_cons_of_pos rfl]
      omega
    rw [hone, hnone]
    exact Nat.le_of_eq hwait.symm
  · have hcount : s.tasks.countP Task.isReloadStart = 0 := by
      unfold State.reloadStarts at hnone
      omega
    change s.tasks.countP Task.isReloadStart + 1 ≤ s.reload.starts
    omega

theorem stepFork_reloadStarts (hstep : s.stepFork choice = some s')
    (h : s.reloadStarts ≤ s.reload.starts) :
    s'.reloadStarts ≤ s'.reload.starts := by
  obtain ⟨i, caller, hforking, hcase⟩ := stepFork_cases hstep
  have hresumes : ∀ {core childStarted result}, Resumes caller.isBoot caller.isReload
      (StartNext i caller result)
      { s with forking := none, core := core, childStarted := childStarted } s' →
      s'.reloadStarts ≤ s'.reload.starts := by
    intro core childStarted result hresumes
    have htasks := hresumes.tasks.countP_le fun t ht =>
      Task.not_reloadStart_of_continuation ht.isContinuation
    obtain ⟨⟨_, _, _, _, rfl⟩, -, -, hreload⟩ := hresumes
    simp only [State.reloadStarts, hforking, reloadForks] at h ⊢
    simp only at htasks hreload
    rw [htasks]
    rcases hreload with hsame | ⟨hcaller, origin, rest, hbefore, hafter⟩
    · rw [hsame]
      omega
    · rw [hcaller, if_pos rfl, hbefore] at h
      rw [hafter]
      exact Nat.le_of_succ_le_succ h
  rcases hcase with ⟨pid, -, -, hresumed⟩ | ⟨-, hresumed⟩
  · exact hresumes hresumed
  · exact hresumes hresumed

theorem stepReload_reloadStarts (hstep : s.stepReload choice = some s')
    (h : s.reloadStarts ≤ s.reload.starts) :
    s'.reloadStarts ≤ s'.reload.starts := by
  rcases stepReload_cases hstep with hframe | ⟨origin, cfg, startOrder, hlocking, -, -, rfl⟩
  · have hmove := hframe.move
    have htasks := hframe.tasks
    obtain ⟨reload, tasks, _, _, _, rfl⟩ := hframe.eq
    simp only [State.reloadStarts] at h hmove htasks ⊢
    have hkept : (∀ origin i rest, s.reload ≠ .starting origin (i :: rest)) →
        s.reload.starts ≤ reload.starts →
        tasks.countP Task.isReloadStart + reloadForks s.forking ≤ reload.starts := by
      intro hnone hle
      have hcount := htasks.countP_le fun t ⟨origin, i, rest, hstarting, _⟩ =>
        absurd hstarting (hnone origin i rest)
      simp only at hcount
      omega
    generalize hpc : s.reload = before at hmove h hkept
    cases hmove with
    | start =>
      rcases htasks with hsame | ⟨t, hnew, -⟩
      · simp only at hsame
        rw [hsame]
        simp only [ReloadPc.starts] at h ⊢
        omega
      · simp only at hnew
        rw [hnew, List.countP_cons]
        simp only [ReloadPc.starts] at h ⊢
        split_ifs <;> omega
    | _ => exact hkept (by simp) (Nat.le_refl _)
  · obtain ⟨_, _, _, _, _, heq⟩ := reloadSection_eq s origin cfg startOrder
    rw [hlocking] at h
    have hnone : s.reloadStarts = 0 := Nat.le_zero.mp h
    rw [heq]
    exact Nat.le_trans (Nat.le_of_eq hnone) (Nat.zero_le _)

/-- The reload makes one start at a time and waits for it. -/
theorem step_reloadStarts (hstep : s.step action = some s') (h : s.reloadStarts ≤ s.reload.starts) :
    s'.reloadStarts ≤ s'.reload.starts := by
  have hsame : ∀ {s'' : State}, s''.tasks.countP Task.isReloadStart =
      s.tasks.countP Task.isReloadStart → s''.forking = s.forking → s''.reload = s.reload →
      s''.reloadStarts ≤ s''.reload.starts := by
    intro s'' htasks hforking hreload
    rw [hreload, State.reloadStarts, htasks, hforking]
    exact h
  obtain ⟨-, hstepped⟩ := step_cases hstep
  cases hstepped with
  | @run t choice _ hmem htask =>
    have hcount := countP_reloadStart_erase hmem
    cases hstart : t.isReloadStart with
    | true =>
      rw [hstart, if_pos rfl] at hcount
      have hwait : s.reload.starts = 1 ∧
          { s with tasks := s.tasks.erase t }.reloadStarts = 0 := by
        simp only [State.reloadStarts] at h ⊢
        have hle : s.reload.starts ≤ 1 := by cases s.reload <;> simp [ReloadPc.starts]
        omega
      cases t with
      | start i pc caller =>
        cases caller with
        | reload => exact stepStart_reloadStarts htask hwait.2 hwait.1
        | _ => cases hstart
      | _ => cases hstart
    | false =>
      have hframe := stepTask_frame htask
      have htasks : s'.tasks.countP Task.isReloadStart =
          (s.tasks.erase t).countP Task.isReloadStart := by
        have hfollows : ∀ t', Follows { s with tasks := s.tasks.erase t } t t' →
            t'.isReloadStart = false := by
          intro t' hfollows
          by_contra hstart'
          rw [hfollows.reloadStart (by simpa using hstart')] at hstart
          cases hstart
        rcases hframe.tasks with hadds | ⟨-, new, hnew, hfollow⟩
        · exact hadds.countP_le hfollows
        · rw [hnew, List.countP_append, List.countP_eq_zero.mpr, Nat.zero_add]
          intro t' ht'
          simp [hfollows t' (hfollow t' ht')]
      simp only [State.reloadStarts] at h ⊢
      have hforking : reloadForks s'.forking = reloadForks s.forking := by
        rcases hframe.forking with hsame | ⟨i, caller, hfree, hnew, -, -, -, rfl⟩
        · rw [hsame]
        · have hcaller : caller.isReload = false := hstart
          simp only at hfree
          simp [reloadForks, hfree, hnew, hcaller]
      have hreload : s.reload.starts ≤ s'.reload.starts := by
        rcases hframe.reload with hsame | ⟨hreload, -⟩ | ⟨hidle, origin, hloading, -⟩
        · rw [hsame]
        · rw [hreload] at hstart
          cases hstart
        · simp only at hidle
          rw [hidle]
          exact Nat.zero_le _
      rw [hstart] at hcount
      simp only [Bool.false_eq_true, if_false] at hcount
      omega
  | giveUp hmem =>
    refine hsame ?_ rfl rfl
    rw [List.countP_cons, Task.unobserved_isReloadStart]
    exact (countP_reloadStart_erase hmem).symm
  | fork hfork => exact stepFork_reloadStarts hfork h
  | reload hreload => exact stepReload_reloadStarts hreload h
  | stopAll hstop =>
    have hframe := stepStopAll_frame hstop
    refine hsame (hframe.tasks.countP_le ?_) hframe.forking hframe.reload
    rintro t ⟨-, caller, -, hnext⟩
    exact Task.not_reloadStart_of_continuation hnext.isContinuation
  | main hmain =>
    rcases stepMain_cases hmain with hframe | hevent
    · have htasks := hframe.tasks.countP_le fun t ht => ht.not_reloadStart
      obtain ⟨_, _, _, _, _, _, _, _, _, _, rfl⟩ := hframe.eq
      exact hsame htasks rfl rfl
    · obtain ⟨_, _, rfl⟩ := hevent.eq
      exact hsame rfl rfl rfl
  | dispatch => exact hsame (List.countP_cons_of_neg (by simp [Task.isReloadStart])) rfl rfl
  | arrives harrives =>
    exact hsame (List.countP_cons_of_neg (by simp [harrives.not_reloadStart])) rfl rfl
  | child => exact hsame rfl rfl rfl
  | forward | touch => exact hsame rfl rfl rfl

theorem reloadStarts_of_reached {ok : State → Action → Prop} (hreached : Reached ok s) :
    s.reloadStarts ≤ s.reload.starts := by
  refine hreached.invariant ?_ fun _ _ _ h _ hstep => step_reloadStarts hstep h
  intro s hboots
  have hfresh := hboots.fresh
  simp [State.reloadStarts, reloadForks, hfresh.tasks, hfresh.forking]

/-- If no running service has changed, the loop over the old services stops
nothing. -/
theorem reconcile_unchanged (hnames : (old.map Prod.fst).Nodup) (hids : (old.map Prod.snd).Nodup)
    (c : Core) (dones : List (Option Chan))
    (hsame : ∀ name i, (name, i) ∈ old → c.isRunning i = true → ∀ j, c.services.lookup name = some
      j → j ∉ old.map Prod.snd ∧ processConfigChanged (c.heap i).proc (c.heap j).proc = false) :
    (Core.reconcile old (c, dones)).2 = dones ∧
      ∀ k, ((Core.reconcile old (c, dones)).1.heap k).stopped = (c.heap k).stopped := by
  induction old generalizing c with
  | nil => exact ⟨rfl, fun _ => rfl⟩
  | cons entry rest ih =>
    obtain ⟨name, i⟩ := entry
    obtain ⟨hname, hnames⟩ := List.nodup_cons.mp hnames
    obtain ⟨hid, hids⟩ := List.nodup_cons.mp hids
    have hrest : ∀ name' i', (name', i') ∈ rest → name' ≠ name ∧ i' ≠ i := by
      refine fun name' i' hmem => ⟨?_, ?_⟩ <;> rintro rfl
      · exact hname (List.mem_map.mpr ⟨_, hmem, rfl⟩)
      · exact hid (List.mem_map.mpr ⟨_, hmem, rfl⟩)
    have hstep : Core.reconcile ((name, i) :: rest) (c, dones) =
        Core.reconcile rest (Core.reconcileOne (c, dones) name i) := rfl
    rw [hstep]
    rcases reconcileOne_cases c dones name i with
      ⟨heq, -⟩ | ⟨j, hj, hrunning, ⟨hchanged, -⟩ | ⟨-, heq⟩⟩
    · rw [heq]
      refine ih hnames hids c fun name' i' hmem hrunning j hj => ?_
      obtain ⟨hout, hproc⟩ := hsame name' i' (List.mem_cons_of_mem _ hmem) hrunning j hj
      exact ⟨fun h => hout (List.mem_cons_of_mem _ h), hproc⟩
    · rw [(hsame name i List.mem_cons_self hrunning j hj).2] at hchanged
      cases hchanged
    · rw [heq]
      have hheap : ∀ k, k ≠ i → (c.keepCurrent name i j).heap k = c.heap k := by
        intro k hk
        simp [Core.keepCurrent, Core.modify, hk]
      obtain ⟨hdones, hstopped⟩ := ih hnames hids (c.keepCurrent name i j) (by
        intro name' i' hmem hrunning' j' hj'
        obtain ⟨hne, hni⟩ := hrest name' i' hmem
        have hlookup : c.services.lookup name' = some j' := by
          simpa [Core.keepCurrent, GoMap.lookup_insert, hne] using hj'
        rw [Core.isRunning, hheap i' hni] at hrunning'
        obtain ⟨hout, hproc⟩ := hsame name' i' (List.mem_cons_of_mem _ hmem) hrunning' j' hlookup
        have hji : j' ≠ i := fun h => hout (h ▸ List.mem_cons_self)
        rw [hheap i' hni, hheap j' hji]
        exact ⟨fun h => hout (List.mem_cons_of_mem _ h), hproc⟩)
      refine ⟨hdones, fun k => (hstopped k).trans ?_⟩
      by_cases hk : k = i
      · subst hk
        simp [Core.keepCurrent, Core.modify, keepRunning]
      · rw [hheap k hk]

/-- What the locked section does to the configuration that is in force. -/
theorem reload_unchanged {c c' : Core}
    (hnamed : ∀ name i, c.services.lookup name = some i → c.name i = name ∧ i < c.nextInst)
    (hcovered : ∀ name, (c.services.lookup name).isSome ↔ name ∈ cfg.processes.map
      Process.procName)
    (hunchanged : ∀ p ∈ cfg.processes, ∀ i, c.services.lookup p.procName = some i →
      processConfigChanged (c.heap i).proc (resolveProcess cfg entrypointArgs p) = false)
    (hreload : c.reload cfg entrypointArgs controlSocket = (c', .ok dones)) :
    dones = [] ∧ ∀ i, i < c.nextInst → (c'.heap i).stopped = (c.heap i).stopped := by
  obtain ⟨built, hbuilt, hloop⟩ := reload_eq_ok hreload
  have hremoved := removeServices_sameRuns (cfg.processes.map Process.procName) c
  have hold : ∀ i, i < c.nextInst → built.heap i = c.heap i := by
    intro i hi
    rw [hbuilt.old i (hremoved.nextInst ▸ hi)]
    exact removeServices_heap fun name hname => (hcovered name).mp (by simp [hname])
  have hresult := reconcile_unchanged (GoMap.keys_eq_map_entries c.services ▸ GoMap.keys_nodup _)
    (entries_snd_nodup hnamed) (built.dropMetrics c.services) [] (by
      intro name i hmem hrunning j hj
      have hlookup := GoMap.mem_entries.mp hmem
      obtain ⟨hlater, p, hp, rfl, svc, hsvc, heq⟩ := built_lookup hbuilt hj
      refine ⟨not_mem_entries_of_le hnamed hlater, ?_⟩
      change processConfigChanged (built.heap i).proc (built.heap j).proc = false
      rw [hold i (hnamed _ i hlookup).2, heq]
      change processConfigChanged _ svc.proc = false
      rw [(Service.builtFrom_of_new hsvc).proc]
      exact hunchanged p hp i hlookup)
  rw [hloop] at hresult
  refine ⟨hresult.1, fun i hi => (hresult.2 i).trans ?_⟩
  exact congrArg Service.stopped (hold i hi)

/-- The process is to run all the time, does not run and may be started. -/
def State.startable (s : State) (p : Process) : Bool :=
  longRunning p && !(s.core.services.lookup p.procName).any s.core.isRunning &&
    (p.fileConditions.unmet s.files).isNone

/-- The steps while a reload is under way and the files are left alone. -/
def duringReload (s : State) : Action → Bool
  | .touch _ _ => false
  | _ => s.reload ≠ .idle

theorem duringReload_iff :
    duringReload s action = true ↔
      s.reload ≠ .idle ∧ ∀ path stat, action ≠ .touch path stat := by
  cases action <;> simp [duringReload]

abbrev ReloadRuns (t u : State) : Prop :=
  Transition.Runs State.step (fun s action => duringReload s action = true) t u

structure StopsNothing (s t : State) : Prop where
  stopped : ∀ i, i < s.core.nextInst → (t.core.heap i).stopped = (s.core.heap i).stopped
  kept : ∀ name i, s.core.services.lookup name = some i → s.core.isRunning i = true →
    t.core.services.lookup name = some i ∧ t.core.isRunning i = true ∧
      (t.core.heap i).pid = (s.core.heap i).pid
  quiet : ∀ u choice u', ReloadRuns t u →
    u.step (.reload choice) = some u' → u'.core = u.core

/-- The object `i` gets a process in the rest of the reload. -/
def Starts (t : State) (i : InstId) : Prop :=
  ∃ u pid u', ReloadRuns t u ∧ u.step (.fork (.child pid)) = some u' ∧
    u.forking = some (i, .reload)

/-- The services that a reload in its last part is still to start. -/
def ReloadPc.pending : ReloadPc → Option (List InstId)
  | .waiting _ _ toStart => some toStart
  | .starting _ toStart | .startWait _ toStart => some toStart
  | .finishing _ | .idle => some []
  | .loading _ | .locking _ _ _ => none

theorem step_pending {u u' : State} (hstep : u.step action = some u') (hactive : u.reload ≠ .idle)
    (hids : u.reload.pending = some ids) : ∃ ids', u'.reload.pending = some ids' ∧ ids' ⊆ ids := by
  cases step_reload hstep with
  | same hsame => exact ⟨ids, hsame ▸ hids, List.Subset.refl _⟩
  | started hbefore hafter =>
    rw [hbefore] at hids
    exact ⟨ids, hafter ▸ hids, List.Subset.refl _⟩
  | begun hidle => exact absurd hidle hactive
  | moved hframe =>
    have hmove := hframe.move
    generalize u.reload = before, u'.reload = after at hids hmove
    cases hmove with
    | load | refuse | late => cases hids
    | awaited => exact ⟨ids, hids, List.Subset.refl _⟩
    | start =>
      cases hids
      exact ⟨_, rfl, List.subset_cons_self _ _⟩
    | started | finish => exact ⟨[], rfl, List.nil_subset _⟩
  | reloaded hlocking =>
    rw [hlocking] at hids
    cases hids

structure LastPart (files : String → FileStat) (unmet : InstId → Option SkipReason)
    (toStart : List InstId) (u : State) : Prop where
  sameFiles : u.files = files
  pending : ∃ ids, u.reload.pending = some ids ∧ ids ⊆ toStart
  conditions : ∀ i, (u.core.heap i).unmetCondition files = unmet i
  tasks : ∀ i pc, .start i pc .reload ∈ u.tasks → i ∈ toStart ∧ (pc = .condition ∨ unmet i = none)
  forking : ∀ i, u.forking = some (i, .reload) → i ∈ toStart ∧ unmet i = none

namespace LastPart

variable {files : String → FileStat} {unmet : InstId → Option SkipReason} {toStart : List InstId}
  {u u' : State} {action : Action}

theorem not_locking (h : LastPart files unmet toStart u) (origin : ReloadOrigin) (cfg : Config)
    (startOrder : List String) : u.reload ≠ .locking origin cfg startOrder := by
  obtain ⟨ids, hids, -⟩ := h.pending
  intro hlocking
  rw [hlocking] at hids
  cases hids

theorem step_tasks (h : LastPart files unmet toStart u) (hstep : u.step action = some u')
    (ht : .start i pc .reload ∈ u'.tasks) : i ∈ toStart ∧ (pc = .condition ∨ unmet i = none) := by
  rcases Daemon.step_tasks hstep ht with hold | hnew
  · exact h.tasks i pc hold
  · rcases hnew.reloadStart with ⟨rfl, hmem, hmet⟩ | ⟨rfl, hmem⟩ | ⟨rfl, origin, rest, hstarting⟩
    · rw [h.sameFiles, h.conditions] at hmet
      exact ⟨(h.tasks i .condition hmem).1, .inr hmet⟩
    · obtain ⟨hi, hpc | hmet⟩ := h.tasks i .prepare hmem
      · cases hpc
      · exact ⟨hi, .inr hmet⟩
    · obtain ⟨ids, hids, hsub⟩ := h.pending
      rw [hstarting] at hids
      cases hids
      exact ⟨hsub List.mem_cons_self, .inl rfl⟩

theorem step (h : LastPart files unmet toStart u) (hduring : duringReload u action = true)
    (hstep : u.step action = some u') : LastPart files unmet toStart u' := by
  obtain ⟨hactive, hsame⟩ := duringReload_iff.mp hduring
  refine ⟨?_, ?_, ?_, fun i pc => h.step_tasks hstep, ?_⟩
  · rcases (step_frame hstep).files with hfiles | ⟨path, stat, rfl⟩
    · exact hfiles.trans h.sameFiles
    · exact absurd rfl (hsame path stat)
  · obtain ⟨ids, hids, hsub⟩ := h.pending
    obtain ⟨ids', hids', hsub'⟩ := step_pending hstep hactive hids
    exact ⟨ids', hids', List.Subset.trans hsub' hsub⟩
  · intro i
    obtain ⟨hproc, hconds, -⟩ := Applied.step_settings hstep
      (fun origin cfg startOrder hlocking => absurd hlocking (h.not_locking _ _ _)) i
    rw [Service.unmetCondition, hproc, hconds]
    exact h.conditions i
  · intro i hforking
    cases step_forking hstep with
    | same hsame => exact h.forking i (hsame ▸ hforking)
    | locked hmem _ _ _ _ hlocked =>
      rw [hforking] at hlocked
      cases hlocked
      obtain ⟨hi, hpc | hmet⟩ := h.tasks i .lock hmem
      · cases hpc
      · exact ⟨hi, hmet⟩
    | released hfree =>
      rw [hforking] at hfree
      cases hfree

/-- The last part begins with no start under way. -/
theorem of_reloadStarts (hstarts : u.reloadStarts = 0) (hpending : u.reload.pending = some ids) :
    LastPart u.files (fun i => (u.core.heap i).unmetCondition u.files) ids u := by
  have hboth : u.tasks.countP Task.isReloadStart = 0 ∧ reloadForks u.forking = 0 := by
    unfold State.reloadStarts at hstarts
    omega
  refine ⟨rfl, ⟨ids, hpending, List.Subset.refl _⟩, fun _ => rfl, ?_, ?_⟩
  · intro i pc hmem
    exact absurd rfl (List.countP_eq_zero.mp hboth.1 _ hmem)
  · intro i hforking
    rw [hforking] at hboth
    cases hboth.2

theorem of_runs (h : LastPart files unmet toStart u) (hruns : ReloadRuns u u') :
    LastPart files unmet toStart u' :=
  hruns.invariant h fun _ _ _ h hduring hstep => h.step hduring hstep

/-- The rest of the reload leaves the services to the starts. -/
theorem quiet (h : LastPart files unmet toStart u) (hstep : u.step (.reload choice) = some u') :
    u'.core = u.core := by
  rcases stepReload_cases (step_reloading hstep) with hframe | ⟨_, _, _, hlocked, -⟩
  · obtain ⟨_, _, _, _, _, rfl⟩ := hframe.eq
    rfl
  · exact absurd hlocked (h.not_locking _ _ _)

end LastPart

theorem exists_pidFree (c : Core) : ∃ pid, c.pidFree pid = true := by
  obtain ⟨pid, hpid⟩ := Infinite.exists_notMem_finset (insert 0 c.children.keys.toFinset)
  simp only [Finset.mem_insert, List.mem_toFinset, GoMap.mem_keys, not_or] at hpid
  refine ⟨pid, ?_⟩
  simp only [Core.pidFree, Bool.and_eq_true, decide_eq_true_eq]
  exact ⟨Nat.pos_of_ne_zero hpid.1, by simpa using hpid.2⟩

theorem step_run_spawned (hended : s.main.ended = false) (t : Task) (choice : Choice) :
    (s.spawn t).step (.run t choice) = s.stepTask t choice := by
  simp [State.step, State.spawn, hended]

section Starting

variable {u : State} {origin : ReloadOrigin} {i : InstId} {rest : List InstId}
  (hended : u.main.ended = false)

include hended

/-- The reload calls `startService` for the next service. -/
theorem runs_call (hreload : u.reload = .starting origin (i :: rest)) :
    ReloadRuns u
      ({ u with reload := .startWait origin rest }.spawn (.start i .condition .reload)) := by
  refine .tail (.reload .go) .refl (by simp [duringReload, hreload]) ?_
  simp [State.step, State.stepReload, hended, hreload]

/-- The call may fail or be skipped; then the next service is up. -/
theorem runs_pass (hreload : u.reload = .starting origin (i :: rest)) :
    ∃ core, core.heap = u.core.heap ∧ core.services = u.core.services ∧
      ReloadRuns u
        { u with core := core, reload := .starting origin rest } := by
  have hcall := runs_call hended hreload
  generalize hv : { u with reload := .startWait origin rest } = v at hcall
  have hvended : v.main.ended = false := by rw [← hv]; exact hended
  have hvreload : v.reload = .startWait origin rest := by rw [← hv]
  have hduring : ∀ t choice, duringReload (v.spawn t) (.run t choice) = true := fun t choice => by
    simp [duringReload, State.spawn, hvreload]
  have hstep : (v.spawn (.start i .condition .reload)).step
        (.run (.start i .condition .reload) .go) =
      v.stepStart i .reload .go .condition := step_run_spawned hvended _ _
  simp only [State.stepStart] at hstep
  split at hstep
  · next reason hunmet =>
      refine ⟨v.core.serviceSkipped i reason, by rw [← hv]; rfl, by rw [← hv]; rfl, ?_⟩
      refine .tail _ hcall (hduring _ _) (hstep.trans ?_)
      simp only [State.startDone, State.setCore, ← hv]
  · refine ⟨u.core, rfl, rfl, ?_⟩
    have hprepare := Transition.Runs.tail _ hcall (hduring _ _) hstep
    refine .tail (.run (.start i .prepare .reload) .fail) hprepare (hduring _ _) ?_
    rw [step_run_spawned hvended]
    simp only [State.stepTask, State.stepStart, State.startDone, ← hv]

theorem runs_passAll (hreload : u.reload = .starting origin (before ++ rest)) :
    ∃ core, core.heap = u.core.heap ∧ core.services = u.core.services ∧
      ReloadRuns u
        { u with core := core, reload := .starting origin rest } := by
  induction before generalizing u with
  | nil =>
    rw [List.nil_append] at hreload
    exact ⟨u.core, rfl, rfl, by rw [← hreload]; exact .refl⟩
  | cons i before ih =>
    obtain ⟨core, hheap, hservices, hruns⟩ := runs_pass hended hreload
    obtain ⟨core', hheap', hservices', hruns'⟩ := ih (u := { u with
      core := core, reload := .starting origin (before ++ rest) }) hended rfl
    exact ⟨core', hheap'.trans hheap, hservices'.trans hservices, hruns.trans hruns'⟩

/-- A service that is current, down and allowed to start gets its process. -/
theorem starts_next (hreload : u.reload = .starting origin (i :: rest))
    (hunlocked : u.unlocked = true) (hshut : u.shuttingDown = false)
    (hcurrent : u.core.isCurrent i = true) (hdown : u.core.isRunning i = false)
    (hmet : (u.core.heap i).unmetCondition u.files = none) : Starts u i := by
  have hcall := runs_call hended hreload
  generalize hv : { u with reload := .startWait origin rest } = v at hcall
  have hvended : v.main.ended = false := by rw [← hv]; exact hended
  have hduring : ∀ t choice, duringReload (v.spawn t) (.run t choice) = true := fun t choice => by
    simp [duringReload, State.spawn, ← hv]
  have hcondition : (v.spawn (.start i .condition .reload)).step
      (.run (.start i .condition .reload) .go) = some (v.spawn (.start i .prepare .reload)) := by
    rw [step_run_spawned hvended]
    simp [State.stepTask, State.stepStart, ← hv, hmet]
  have hprepare : (v.spawn (.start i .prepare .reload)).step
      (.run (.start i .prepare .reload) .go) = some (v.spawn (.start i .lock .reload)) :=
    step_run_spawned hvended _ _
  have hlock : (v.spawn (.start i .lock .reload)).step (.run (.start i .lock .reload) .go) =
      some { v with forking := some (i, .reload) } := by
    rw [step_run_spawned hvended]
    simp only [State.unlocked] at hunlocked
    simp [State.stepTask, State.stepStart, State.unlocked, ← hv, hunlocked, hshut, hcurrent, hdown]
  obtain ⟨pid, hpid⟩ := exists_pidFree v.core
  obtain ⟨w', hfork⟩ : ∃ w', { v with forking := some (i, .reload) }.step (.fork (.child pid)) =
      some w' := by
    simp [State.step, hvended, State.stepFork, hpid]
  have hruns := ((hcall.tail _ (hduring _ _) hcondition).tail _ (hduring _ _) hprepare).tail _
    (hduring _ _) hlock
  exact ⟨_, pid, w', hruns, hfork, rfl⟩

/-- A reload that has nothing to wait for gets to every service that can be
started. -/
theorem starts_of_mem (hreload : u.reload = .waiting origin [] toStart) (hi : i ∈ toStart)
    (hunlocked : u.unlocked = true) (hshut : u.shuttingDown = false)
    (hcurrent : u.core.isCurrent i = true) (hdown : u.core.isRunning i = false)
    (hmet : (u.core.heap i).unmetCondition u.files = none) : Starts u i := by
  obtain ⟨before, after, rfl⟩ := List.append_of_mem hi
  have hfirst : ReloadRuns u
      { u with reload := .starting origin (before ++ i :: after) } := by
    refine .tail (.reload .go) .refl (by simp [duringReload, hreload]) ?_
    simp [State.step, State.stepReload, hended, hreload]
  obtain ⟨core, hheap, hservices, hruns⟩ := runs_passAll
    (u := { u with reload := .starting origin (before ++ i :: after) }) hended rfl
  simp only at hheap hservices
  obtain ⟨w, pid, w', hlast, hfork⟩ := starts_next
    (u := { u with core := core, reload := .starting origin (i :: after) }) hended rfl hunlocked
    hshut (by simp only [Core.isCurrent, Core.name, hheap, hservices] at hcurrent ⊢; exact hcurrent)
    (by simpa [Core.isRunning, hheap] using hdown) (by simpa [hheap] using hmet)
  exact ⟨w, pid, w', (hfirst.trans hruns).trans hlast, hfork⟩

end Starting

theorem mem_toStart {c : Core} :
    i ∈ c.toStart startOrder ↔ (∃ name ∈ startOrder, c.services.lookup name = some i) ∧
      (c.heap i).enabled = true ∧ (c.heap i).oneshot = false ∧ (c.heap i).scheduled = false ∧
      c.isRunning i = false := by
  simp [Core.toStart, and_assoc]

/-- What the section leaves alone. -/
theorem section_frame (s : State) (origin : ReloadOrigin) (cfg : Config)
    (startOrder : List String) :
    (s.reloadSection origin cfg startOrder).files = s.files ∧
      (s.reloadSection origin cfg startOrder).reloadStarts = s.reloadStarts ∧
      (s.reloadSection origin cfg startOrder).unlocked = s.unlocked ∧
      (s.reloadSection origin cfg startOrder).shuttingDown = s.shuttingDown ∧
      (s.reloadSection origin cfg startOrder).main = s.main := by
  obtain ⟨_, _, _, _, _, heq⟩ := reloadSection_eq s origin cfg startOrder
  rw [heq]
  exact ⟨rfl, rfl, rfl, rfl, rfl⟩

section Section

variable {s : State} {origin : ReloadOrigin} {startOrder : List String}
  (hconfigured : Configured s) (happlied : Applied s)
  (hlocking : s.reload = .locking origin s.cfg startOrder)

include hconfigured happlied hlocking

/-- The section waits for nothing, stops nothing, and the running services keep
their place. -/
theorem section_unchanged :
    (s.reloadSection origin s.cfg startOrder).reload = .waiting origin []
        ((s.reloadSection origin s.cfg startOrder).core.toStart startOrder) ∧
      (∀ i, i < s.core.nextInst → ((s.reloadSection origin s.cfg startOrder).core.heap i).stopped =
        (s.core.heap i).stopped) ∧
      ∀ name i, s.core.services.lookup name = some i → s.core.isRunning i = true →
        (s.reloadSection origin s.cfg startOrder).core.services.lookup name = some i ∧
          (s.reloadSection origin s.cfg startOrder).core.isRunning i = true ∧
          ((s.reloadSection origin s.cfg startOrder).core.heap i).pid = (s.core.heap i).pid := by
  obtain ⟨dones, hreload, hreloaded, hwaiting⟩ := hconfigured.reload_ok hlocking
  obtain ⟨rfl, hstopped⟩ := reload_unchanged hconfigured.named happlied.covered
    happlied.unchanged hreload
  refine ⟨hwaiting, hstopped, ?_⟩
  intro name i hlookup hrunning
  have hlt := (hconfigured.named name i hlookup).2
  have hsome := (hreloaded.covered name).mpr ((happlied.covered name).mp (by simp [hlookup]))
  refine ⟨?_, (hreloaded.running i hlt).trans hrunning, hreloaded.pid i hlt⟩
  rcases hreloaded.replaced name i hlookup hrunning hsome with hkept | hwaits
  · exact hkept
  · cases hwaits

/-- The object of a name that does not run afterwards is a new one. -/
theorem section_down
    (hlookup : (s.reloadSection origin s.cfg startOrder).core.services.lookup name = some i)
    (hdown : (s.reloadSection origin s.cfg startOrder).core.isRunning i = false) :
    ∃ p ∈ s.cfg.processes, p.procName = name ∧
      (s.core.services.lookup name).any s.core.isRunning = false ∧ ∃ new controlSocket,
        Service.new (resolveProcess s.cfg s.entrypointArgs p) = .ok new ∧
          (s.reloadSection origin s.cfg startOrder).core.heap i = { new with controlSocket } := by
  obtain ⟨-, -, hkept⟩ := section_unchanged hconfigured happlied hlocking
  obtain ⟨dones, hreload, hreloaded, -⟩ := hconfigured.reload_ok hlocking
  rcases hreloaded.current name i hlookup with ⟨hlater, -⟩ | ⟨hold, hrunning⟩
  · obtain ⟨p, hp, hname, new, hnew, heq⟩ := reload_new hconfigured.named hreload hlookup hlater
    refine ⟨p, hp, hname, ?_, new, _, hnew, heq⟩
    -- had the old object been running, it would have kept its place
    cases hold : s.core.services.lookup name with
    | none => rfl
    | some k =>
      rw [Option.any_some]
      by_contra hrunning
      obtain ⟨hplace, hup, -⟩ := hkept name k hold (by simpa using hrunning)
      obtain rfl : k = i := Option.some.inj (hplace.symm.trans hlookup)
      rw [hup] at hdown
      cases hdown
  · rw [(hkept name i hold hrunning).2.1] at hdown
    cases hdown

/-- The services to be started whose condition is met are those of the
processes that were startable before. -/
theorem section_startable {i : InstId} :
    (i ∈ (s.reloadSection origin s.cfg startOrder).core.toStart startOrder ∧
      ((s.reloadSection origin s.cfg startOrder).core.heap i).unmetCondition s.files = none) ↔
      ∃ p ∈ s.cfg.processes, s.startable p = true ∧
        (s.reloadSection origin s.cfg startOrder).core.services.lookup p.procName = some i := by
  obtain ⟨parsed, hload⟩ := hconfigured.loaded origin s.cfg startOrder hlocking
  obtain ⟨dones, hreload, hreloaded, -⟩ := hconfigured.reload_ok hlocking
  constructor
  · rintro ⟨hi, hmet⟩
    obtain ⟨⟨name, -, hlookup⟩, henabled, honeshot, hscheduled, hdown⟩ := mem_toStart.mp hi
    obtain ⟨p, hp, rfl, hold, new, controlSocket, hnew, heq⟩ :=
      section_down hconfigured happlied hlocking hlookup hdown
    obtain ⟨hstart, hcondition⟩ := built_startable hnew heq
    rw [henabled, honeshot, hscheduled] at hstart
    rw [hcondition] at hmet
    exact ⟨p, hp, by simp [State.startable, ← hstart, hold, hmet], hlookup⟩
  · rintro ⟨p, hp, hstartable, hlookup⟩
    simp only [State.startable, Bool.and_eq_true, Bool.not_eq_true', Option.isNone_iff_eq_none]
      at hstartable
    obtain ⟨⟨hlong, hold⟩, hmet⟩ := hstartable
    have hname : p.procName ∈ startOrder := by
      have hperm := (Order.topoSort_sortOf (loadConfig_sorted hload)).perm
      rw [hperm.mem_iff, orderNodes_names]
      exact List.mem_map_of_mem hp
    have hdown : (s.reloadSection origin s.cfg startOrder).core.isRunning i = false := by
      rcases hreloaded.current _ i hlookup with ⟨-, -, -, hidle⟩ | ⟨hbefore, hrunning⟩
      · exact hidle
      · rw [hbefore, Option.any_some, hrunning] at hold
        cases hold
    obtain ⟨q, hq, hqname, -, new, controlSocket, hnew, heq⟩ :=
      section_down hconfigured happlied hlocking hlookup hdown
    obtain rfl : q = p := List.inj_on_of_nodup_map happlied.distinct hq hp hqname
    obtain ⟨hstart, hcondition⟩ := built_startable hnew heq
    rw [hlong] at hstart
    simp only [Bool.and_eq_true, Bool.not_eq_true'] at hstart
    exact ⟨mem_toStart.mpr ⟨⟨_, hname, hlookup⟩, hstart.1.1, hstart.1.2, hstart.2, hdown⟩,
      (hcondition _).trans hmet⟩

end Section

/-- A reload of the configuration in force stops nothing, and it starts exactly
the services that are to run all the time, do not run and have their file
condition met, unless a shutdown has begun. -/
theorem unchanged_reload_only_starts {s t : State} {choice : Choice} {origin : ReloadOrigin}
    {startOrder : List String} (hreached : Reached Transition.anyStep s)
    (hlocking : s.reload = .locking origin s.cfg startOrder)
    (hstep : s.step (.reload choice) = some t) :
    StopsNothing s t ∧ ∀ i, Starts t i ↔ s.shuttingDown = false ∧
      ∃ p ∈ s.cfg.processes, s.startable p = true ∧
        t.core.services.lookup p.procName = some i := by
  have hconfigured := Configured.of_reached hreached
  have happlied := Applied.of_reached hreached
  have hstarts : s.reloadStarts = 0 := by
    have hle := reloadStarts_of_reached hreached
    rw [hlocking] at hle
    exact Nat.le_zero.mp hle
  have hended := (step_cases hstep).1
  have hsection := step_reloading hstep
  simp only [State.stepReload, hlocking] at hsection
  split_ifs at hsection with hfree hshut
  · -- refused: nothing happened
    obtain ⟨replies, heq⟩ := reloadReply_eq { s with reload := .idle } origin .reloadFailed
    obtain rfl := Option.some.inj (hsection.symm.trans (congrArg some heq))
    have hnone : { s with reload := .idle, replies := replies }.reloadStarts = 0 := hstarts
    have hlast := LastPart.of_reloadStarts hnone rfl
    refine ⟨⟨fun _ _ => rfl, fun _ _ hlookup hrunning => ⟨hlookup, hrunning, rfl⟩,
      fun u choice u' hruns => (hlast.of_runs hruns).quiet⟩, fun i => ?_⟩
    refine iff_of_false ?_ (by simp [hshut])
    rintro ⟨u, pid, u', hruns, -, hforking⟩
    cases ((hlast.of_runs hruns).forking i hforking).1
  · have hshut : s.shuttingDown = false := by simpa using hshut
    obtain rfl := Option.some.inj hsection
    obtain ⟨hwaiting, hstopped, hkept⟩ := section_unchanged hconfigured happlied hlocking
    obtain ⟨hfiles, hsame, hunlocked, hflag, hmain⟩ := section_frame s origin s.cfg startOrder
    have hlast := LastPart.of_reloadStarts (hsame.trans hstarts) (by rw [hwaiting]; rfl)
    refine ⟨⟨hstopped, hkept, fun u choice u' hruns => (hlast.of_runs hruns).quiet⟩, fun i => ?_⟩
    rw [and_iff_right hshut, ← section_startable hconfigured happlied hlocking, ← hfiles]
    constructor
    · rintro ⟨u, pid, u', hruns, -, hforking⟩
      exact (hlast.of_runs hruns).forking i hforking
    · rintro ⟨hi, hmet⟩
      obtain ⟨⟨name, -, hlookup⟩, -, -, -, hdown⟩ := mem_toStart.mp hi
      have hcurrent : (s.reloadSection origin s.cfg startOrder).core.isCurrent i = true := by
        rw [Core.isCurrent, ((hconfigured.step hstep).named name i hlookup).1, hlookup]
        simp
      exact starts_of_mem (hmain ▸ hended) hwaiting hi (hunlocked.trans (by simpa using hfree))
        (hflag.trans hshut) hcurrent hdown hmet

/-- The boot of `web`, then the given actions and a reload of the same
configuration up to the lock. -/
def runToSameReload (actions : List Action) : Option State :=
  run (fun _ _ => true) (plainInput [webProcess])
    (bootActions 100 ++ actions ++ (reloadActions [webProcess]).dropLast)

/-- A booted `web` is left alone. -/
theorem same_reload_leaves_web : ∃ s t, runToSameReload [] = some s ∧
    s.step (.reload .go) = some t ∧ s.core.isRunning 0 = true ∧ StopsNothing s t ∧
    ∀ i, ¬ Starts t i := by
  have hrun : (runToSameReload []).map (fun s =>
      decide (s.reload = .locking .control s.cfg ["web"] ∧ (s.step (.reload .go)).isSome = true ∧
        s.core.isRunning 0 = true ∧ ∀ p ∈ s.cfg.processes, s.startable p = false)) =
      some true := by
    decide +kernel
  obtain ⟨s, hs, hlocking, hstep, hrunning, hnothing⟩ := exists_of_decide hrun
  obtain ⟨t, ht⟩ := Option.isSome_iff_exists.mp hstep
  have hreached := (reached_of_run hs).weaken fun _ _ _ => trivial
  obtain ⟨hstops, hstarts⟩ := unchanged_reload_only_starts hreached hlocking ht
  refine ⟨s, t, hs, ht, hrunning, hstops, fun i hi => ?_⟩
  obtain ⟨-, p, hp, hstartable, -⟩ := (hstarts i).mp hi
  rw [hnothing p hp] at hstartable
  cases hstartable

def stopWebActions : List Action :=
  stopRequestActions "web" 0 ++ [.run (.stopFnSignal 0 (some 0) false) .go,
    .childExit 100 (.signaled 15), .main (.child 100), .main (.times ⟨0, 0⟩)]

/-- The reload of an unchanged configuration starts a service again that was
stopped on request. -/
theorem same_reload_starts_stopped_web : ∃ s t, Reached Transition.anyStep s ∧
    s.reload = .locking .control s.cfg ["web"] ∧ (s.core.heap 0).stopped = true ∧
    s.core.isRunning 0 = false ∧ s.step (.reload .go) = some t ∧
    t.core.services.lookup "web" = some 1 ∧ Starts t 1 := by
  have hrun : (runToSameReload stopWebActions).bind (fun s =>
      if s.reload = .locking .control s.cfg ["web"] ∧ (s.core.heap 0).stopped = true ∧
          s.core.isRunning 0 = false then
        (s.step (.reload .go)).bind fun t =>
          if t.core.services.lookup "web" = some 1 then
            (Transition.exec State.step duringReload t
              ([.reload .go, .reload .go] ++ (startActions 1 .reload 101).dropLast)).map fun u =>
                decide (u.forking = some (1, .reload) ∧
                  (u.step (.fork (.child 101))).isSome = true)
          else none
      else none) = some true := by
    decide +kernel
  obtain ⟨s, hs, hfacts⟩ := Option.bind_eq_some_iff.mp hrun
  split_ifs at hfacts with hbefore
  obtain ⟨hlocking, hstopped, hdown⟩ := hbefore
  obtain ⟨t, ht, hfacts⟩ := Option.bind_eq_some_iff.mp hfacts
  split_ifs at hfacts with hcurrent
  obtain ⟨u, hu, hforking, hfork⟩ := exists_of_decide hfacts
  obtain ⟨u', hu'⟩ := Option.isSome_iff_exists.mp hfork
  exact ⟨s, t, (reached_of_run hs).weaken fun _ _ _ => trivial, hlocking, hstopped, hdown, ht,
    hcurrent, u, 101, u', .of_exec hu, hu', hforking⟩

end Gopherd.Daemon
