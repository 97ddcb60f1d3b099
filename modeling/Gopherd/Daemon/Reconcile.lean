import Gopherd.Daemon.Quiet
import Gopherd.Daemon.Reload

/-!
What a reload does to the services. Every process keeps running for the object
it was forked for.
-/

namespace Gopherd.Daemon

open Go

@[simp]
theorem retire_name (svc : Service) : (retire svc).name = svc.name := by simp [retire]

@[simp]
theorem retire_running (svc : Service) : (retire svc).running = svc.running := by simp [retire]

@[simp]
theorem retire_pid (svc : Service) : (retire svc).pid = svc.pid := by simp [retire]

@[simp]
theorem retire_done (svc : Service) : (retire svc).done = svc.done := by simp [retire]

theorem retire_stopped (svc : Service) (hstopped : svc.stopped = true) :
    (retire svc).stopped = true := by
  simp [retire, Service.stop_stopped, hstopped]

theorem SameObjects.retire (c : Core) (i : InstId) :
    SameObjects c (c.modify i Daemon.retire) :=
  .modify c i _ retire_name retire_running retire_pid retire_done retire_stopped

theorem SameObjects.keepRunning (c : Core) (i : InstId) (newSvc : Service) :
    SameObjects c (c.modify i (fun svc => Daemon.keepRunning svc newSvc)) :=
  .modify c i _ (fun _ => rfl) (fun _ => rfl) (fun _ => rfl) (fun _ => rfl) (fun _ h => h)

/-- The part of the statistics that the status shows; nothing is shown of a
name that is not registered. -/
def Metrics.shown (m : Metrics) (name : String) : Bool × Pid :=
  ((m.lookup name).map Stats.shown).getD (false, 0)

theorem Metrics.shown_register (m : Metrics) (name other : String) (enabled : Bool) :
    (m.register name enabled).shown other = m.shown other := by
  unfold Metrics.shown Metrics.register
  rw [GoMap.lookup_insert]
  by_cases heq : other = name
  · subst heq
    cases m.lookup other <;> simp [Stats.shown, Stats.fresh]
  · simp [heq]

theorem Metrics.isSome_register (m : Metrics) (name other : String) (enabled : Bool) :
    ((m.register name enabled).lookup other).isSome ↔
      other = name ∨ (m.lookup other).isSome := by
  unfold Metrics.register
  rw [GoMap.lookup_insert]
  by_cases heq : other = name <;> simp [heq]

/-- An object as `buildServices` creates it for one of `processes`. -/
def BuiltOne (processes : List Process) (controlSocket : String) (svc : Service) : Prop :=
  ∃ p ∈ processes, ∃ built, Service.new p = .ok built ∧ svc = { built with controlSocket }

theorem BuiltOne.cons {processes : List Process} {controlSocket : String} {svc : Service}
    (p : Process) (h : BuiltOne processes controlSocket svc) :
    BuiltOne (p :: processes) controlSocket svc := by
  obtain ⟨q, hq, built, hnew, heq⟩ := h
  exact ⟨q, List.mem_cons_of_mem p hq, built, hnew, heq⟩

structure Built (processes : List Process) (controlSocket : String) (c c' : Core) : Prop where
  pidMap : c'.pidMap = c.pidMap
  children : c'.children = c.children
  closed : c'.closed = c.closed
  nextChan : c'.nextChan = c.nextChan
  restartPending : c'.restartPending = c.restartPending
  nextInst : c.nextInst ≤ c'.nextInst
  old : ∀ i, i < c.nextInst → c'.heap i = c.heap i
  new : ∀ i, c.nextInst ≤ i → c'.heap i = c.heap i ∨ BuiltOne processes controlSocket (c'.heap i)
  services : ∀ name i, c'.services.lookup name = some i →
    c.services.lookup name = some i ∨
      (c.nextInst ≤ i ∧ i < c'.nextInst ∧ BuiltOne processes controlSocket (c'.heap i) ∧
        c'.name i = name)
  covered : ∀ name, (c'.services.lookup name).isSome ↔
    (c.services.lookup name).isSome ∨ name ∈ processes.map Process.procName
  registered : ∀ name, (c'.metrics.lookup name).isSome ↔
    (c.metrics.lookup name).isSome ∨ name ∈ processes.map Process.procName
  shown : ∀ name, c'.metrics.shown name = c.metrics.shown name

namespace Built

variable {controlSocket : String} {c c' : Core}

theorem refl (c : Core) : Built [] controlSocket c c where
  pidMap := rfl
  children := rfl
  closed := rfl
  nextChan := rfl
  restartPending := rfl
  nextInst := Nat.le_refl _
  old _ _ := rfl
  new _ _ := .inl rfl
  services _ _ h := .inl h
  covered _ := by simp
  registered _ := by simp
  shown _ := rfl

/-- The new object is the only one that `addService` touches. -/
theorem addService (hnew : Service.new p = .ok svc)
    (hrest : Built rest controlSocket (c.addService { svc with controlSocket }) c') :
    Built (p :: rest) controlSocket c c' := by
  have hbuilt := Service.builtFrom_of_new hnew
  have hfirst : c'.heap c.nextInst = { svc with controlSocket } := by
    have hheap := hrest.old c.nextInst (Nat.lt_succ_self _)
    simpa [Core.addService] using hheap
  have hone : BuiltOne (p :: rest) controlSocket (c'.heap c.nextInst) :=
    ⟨p, List.mem_cons_self, svc, hnew, hfirst⟩
  refine {
    pidMap := hrest.pidMap
    children := hrest.children
    closed := hrest.closed
    nextChan := hrest.nextChan
    restartPending := hrest.restartPending
    nextInst := Nat.le_of_succ_le hrest.nextInst
    old := ?_, new := ?_, services := ?_, covered := ?_, registered := ?_, shown := ?_ }
  · intro i hi
    have hheap := hrest.old i (Nat.lt_succ_of_lt hi)
    simpa [Core.addService, Function.update, Nat.ne_of_lt hi] using hheap
  · intro i hi
    by_cases hfresh : i = c.nextInst
    · subst hfresh
      exact .inr hone
    · have hlater : c.nextInst + 1 ≤ i := Nat.lt_of_le_of_ne hi (Ne.symm hfresh)
      rcases hrest.new i hlater with hsame | hbuiltOne
      · left
        simpa [Core.addService, Function.update, hfresh] using hsame
      · exact .inr (hbuiltOne.cons p)
  · intro name i hlookup
    rcases hrest.services name i hlookup with hbefore | ⟨hlow, hhigh, hbuiltOne, hname⟩
    · simp only [Core.addService, GoMap.lookup_insert] at hbefore
      split_ifs at hbefore with heq
      · cases hbefore
        refine .inr ⟨Nat.le_refl _, hrest.nextInst, hone, ?_⟩
        simp [Core.name, hfirst, heq]
      · exact .inl hbefore
    · exact .inr ⟨Nat.le_of_succ_le hlow, hhigh, hbuiltOne.cons p, hname⟩
  · intro name
    rw [hrest.covered name]
    simp only [Core.addService, GoMap.lookup_insert, hbuilt.name]
    split_ifs with heq <;> simp [heq]
  · intro name
    rw [hrest.registered name]
    simp only [Core.addService, Metrics.isSome_register, hbuilt.name, List.map_cons,
      List.mem_cons]
    tauto
  · intro name
    rw [hrest.shown name]
    exact Metrics.shown_register _ _ _ _

end Built

variable {controlSocket : String} {c c' : Core} {cfg : Config} {entrypointArgs : List String}
  {dones : List (Option Chan)}

theorem buildLoop_built (hbuild : Core.buildLoop controlSocket processes c = (c', none)) :
    Built processes controlSocket c c' := by
  induction processes generalizing c with
  | nil =>
    cases hbuild
    exact .refl _
  | cons p rest ih =>
    unfold Core.buildLoop at hbuild
    split at hbuild
    · cases hbuild
    · next svc hnew => exact .addService hnew (ih hbuild)

/-- What `buildServices` fills in does not matter to `service.New`. -/
theorem new_resolveProcess_ok (hnew : ∃ svc, Service.new p = .ok svc) :
    ∃ svc, Service.new (resolveProcess cfg entrypointArgs p) = .ok svc :=
  (Service.new_ok_iff _).mpr ((Service.new_ok_iff p).mp hnew)

theorem buildLoop_ok (hnew : ∀ p ∈ processes, ∃ svc, Service.new p = .ok svc) (c : Core) :
    (Core.buildLoop controlSocket processes c).2 = none := by
  induction processes generalizing c with
  | nil => rfl
  | cons p rest ih =>
    obtain ⟨svc, hsvc⟩ := hnew p List.mem_cons_self
    simp only [Core.buildLoop, hsvc]
    exact ih (fun q hq => hnew q (List.mem_cons_of_mem p hq)) _

structure Reconciled (old : List (String × InstId)) (c : Core) (dones : List (Option Chan))
    (c' : Core) (dones' : List (Option Chan)) : Prop extends SameObjects c c' where
  metrics : c'.metrics = c.metrics
  restartPending : c'.restartPending = c.restartPending
  untouched : ∀ name, name ∉ old.map Prod.fst →
    c'.services.lookup name = c.services.lookup name
  services : ∀ name i, c'.services.lookup name = some i →
    c.services.lookup name = some i ∨ ((name, i) ∈ old ∧ c.isRunning i = true)
  covered : ∀ name, (c'.services.lookup name).isSome = (c.services.lookup name).isSome
  waits : ∀ done ∈ dones', done ∈ dones ∨
    ∃ name i, (name, i) ∈ old ∧ c.isRunning i = true ∧ c.done i = done
  kept : dones ⊆ dones'

/-- The three things that can happen to an old service. -/
theorem reconcileOne_cases (c : Core) (dones : List (Option Chan)) (name : String)
    (i : InstId) :
    (Core.reconcileOne (c, dones) name i = (c, dones) ∧
        (c.isRunning i = false ∨ c.services.lookup name = none)) ∨
      ∃ j, c.services.lookup name = some j ∧ c.isRunning i = true ∧
        ((processConfigChanged (c.heap i).proc (c.heap j).proc = true ∧
            Core.reconcileOne (c, dones) name i = (c.modify i retire, dones ++ [c.done i])) ∨
          (processConfigChanged (c.heap i).proc (c.heap j).proc = false ∧
            Core.reconcileOne (c, dones) name i = (c.keepCurrent name i j, dones))) := by
  unfold Core.reconcileOne
  cases hlookup : c.services.lookup name with
  | none => simp
  | some j =>
    cases c.isRunning i with
    | false => simp
    | true =>
      cases hchanged : processConfigChanged (c.heap i).proc (c.heap j).proc <;>
        simp [hchanged]

theorem reconcileOne_reconciled (c : Core) (dones : List (Option Chan)) (name : String)
    (i : InstId) :
    Reconciled [(name, i)] c dones (Core.reconcileOne (c, dones) name i).1
      (Core.reconcileOne (c, dones) name i).2 := by
  rcases reconcileOne_cases c dones name i with
    ⟨heq, -⟩ | ⟨j, hlookup, hrunning, ⟨-, heq⟩ | ⟨-, heq⟩⟩ <;> rw [heq]
  · exact ⟨.refl c, rfl, rfl, fun _ _ => rfl, fun _ _ h => .inl h, fun _ => rfl,
      fun _ h => .inl h, List.Subset.refl _⟩
  · refine ⟨.retire c i, rfl, rfl, fun _ _ => rfl, fun _ _ h => .inl h, fun _ => rfl, ?_,
      List.subset_append_left _ _⟩
    intro done hdone
    rcases List.mem_append.mp hdone with hbefore | hnew
    · exact .inl hbefore
    · exact .inr ⟨name, i, List.mem_singleton_self _, hrunning,
        (List.mem_singleton.mp hnew).symm⟩
  · have hkeep := SameObjects.keepRunning c i (c.heap j)
    refine ⟨⟨hkeep.nextInst, hkeep.pidMap, hkeep.children, hkeep.closed, hkeep.nextChan,
      hkeep.name, hkeep.running, hkeep.pid, hkeep.done, hkeep.stopped⟩, rfl, rfl, ?_, ?_, ?_,
      fun _ h => .inl h, List.Subset.refl _⟩
    · intro other hother
      have hne : other ≠ name := by simpa using hother
      simp [Core.keepCurrent, GoMap.lookup_insert, hne]
    · intro other k hk
      simp only [Core.keepCurrent, GoMap.lookup_insert] at hk
      split_ifs at hk with heq
      · cases hk
        subst heq
        exact .inr ⟨List.mem_singleton_self _, hrunning⟩
      · exact .inl hk
    · intro other
      simp only [Core.keepCurrent, GoMap.lookup_insert]
      split_ifs with heq
      · simp [heq, hlookup]
      · rfl

theorem Reconciled.append (hfirst : Reconciled first c dones c' dones')
    (hsecond : Reconciled second c' dones' c'' dones'') :
    Reconciled (first ++ second) c dones c'' dones'' := by
  refine ⟨hfirst.toSameObjects.trans hsecond.toSameObjects,
    hsecond.metrics.trans hfirst.metrics, hsecond.restartPending.trans hfirst.restartPending,
    ?_, ?_, fun name => (hsecond.covered name).trans (hfirst.covered name), ?_,
    List.Subset.trans hfirst.kept hsecond.kept⟩
  · intro name hname
    rw [List.map_append, List.mem_append, not_or] at hname
    exact (hsecond.untouched name hname.2).trans (hfirst.untouched name hname.1)
  · intro name i hlookup
    rcases hsecond.services name i hlookup with hbefore | ⟨hmem, hrunning⟩
    · rcases hfirst.services name i hbefore with hstart | ⟨hmem, hrunning⟩
      · exact .inl hstart
      · exact .inr ⟨List.mem_append_left _ hmem, hrunning⟩
    · exact .inr ⟨List.mem_append_right _ hmem, (hfirst.running i) ▸ hrunning⟩
  · intro done hdone
    rcases hsecond.waits done hdone with hbefore | ⟨name, i, hmem, hrunning, heq⟩
    · rcases hfirst.waits done hbefore with hstart | ⟨name, i, hmem, hrunning, heq⟩
      · exact .inl hstart
      · exact .inr ⟨name, i, List.mem_append_left _ hmem, hrunning, heq⟩
    · refine .inr ⟨name, i, List.mem_append_right _ hmem, (hfirst.running i) ▸ hrunning, ?_⟩
      rw [← hfirst.done i]
      exact heq

theorem reconcile_reconciled (old : List (String × InstId)) (c : Core)
    (dones : List (Option Chan)) :
    Reconciled old c dones (Core.reconcile old (c, dones)).1 (Core.reconcile old (c, dones)).2 := by
  induction old generalizing c dones with
  | nil =>
    exact ⟨.refl c, rfl, rfl, fun _ _ => rfl, fun _ _ h => .inl h, fun _ => rfl,
      fun _ h => .inl h, List.Subset.refl _⟩
  | cons entry rest ih =>
    have hhead := reconcileOne_reconciled c dones entry.1 entry.2
    exact hhead.append (ih _ _)

/-- A running old service that is still configured keeps its place, or the
reload waits for its exit. -/
theorem reconcile_running (hnodup : (old.map Prod.fst).Nodup) (c : Core)
    (dones : List (Option Chan)) (hmem : (name, i) ∈ old) (hrunning : c.isRunning i = true)
    (hlookup : (c.services.lookup name).isSome) :
    (Core.reconcile old (c, dones)).1.services.lookup name = some i ∨
      c.done i ∈ (Core.reconcile old (c, dones)).2 := by
  induction old generalizing c dones with
  | nil => cases hmem
  | cons entry rest ih =>
    obtain ⟨hentry, hrest⟩ := List.nodup_cons.mp hnodup
    have hhead := reconcileOne_reconciled c dones entry.1 entry.2
    have htail := reconcile_reconciled rest
      (Core.reconcileOne (c, dones) entry.1 entry.2).1
      (Core.reconcileOne (c, dones) entry.1 entry.2).2
    change (Core.reconcile rest (Core.reconcileOne (c, dones) entry.1 entry.2)).1.services.lookup
      name = some i ∨
        c.done i ∈ (Core.reconcile rest (Core.reconcileOne (c, dones) entry.1 entry.2)).2
    rcases List.mem_cons.mp hmem with rfl | hmem
    · rcases reconcileOne_cases c dones name i with
        ⟨-, hstopped | hgone⟩ | ⟨j, -, -, ⟨-, heq⟩ | ⟨-, heq⟩⟩
      · rw [hrunning] at hstopped
        cases hstopped
      · rw [hgone] at hlookup
        cases hlookup
      · right
        apply htail.kept
        simp [heq]
      · left
        rw [htail.untouched name hentry, heq]
        simp [Core.keepCurrent, GoMap.lookup_insert]
    · have hstep := ih hrest (Core.reconcileOne (c, dones) entry.1 entry.2).1
        (Core.reconcileOne (c, dones) entry.1 entry.2).2 hmem
        ((hhead.running i).trans hrunning) ((hhead.covered name).trans hlookup)
      rwa [hhead.done i] at hstep

theorem SameRuns.foldl {α : Type} (body : Core → α → Core)
    (hbody : ∀ c a, SameRuns c (body c a)) (items : List α) (c : Core) :
    SameRuns c (items.foldl body c) := by
  induction items generalizing c with
  | nil => exact refl c
  | cons item rest ih => exact (hbody c item).trans (ih (body c item))

theorem removeServices_sameRuns (newNames : List String) (c : Core) :
    SameRuns c (c.removeServices newNames) := by
  apply SameRuns.foldl
  intro c entry
  split
  · exact .refl c
  · exact ⟨.retire c entry.2, rfl⟩

theorem removeServices_metrics (newNames : List String) (c : Core) :
    (c.removeServices newNames).metrics = c.metrics := by
  refine Core.foldl_keeps Core.metrics (fun c entry => ?_) _ c
  split <;> rfl

theorem removeServices_restartPending (newNames : List String) (c : Core) :
    (c.removeServices newNames).restartPending = c.restartPending := by
  refine Core.foldl_keeps Core.restartPending (fun c entry => ?_) _ c
  split <;> rfl

theorem unregister_foldl_lookup (services : GoMap String InstId) (names : List String)
    (m : Metrics) (name : String) :
    (names.foldl (fun m name =>
      if (services.lookup name).isSome then m else m.unregister name) m).lookup name =
      if name ∈ names ∧ services.lookup name = none then none else m.lookup name := by
  induction names generalizing m with
  | nil => simp
  | cons head rest ih =>
    rw [List.foldl_cons, ih]
    cases hhead : services.lookup head with
    | some i =>
      by_cases heq : name = head
      · subst heq
        simp [hhead]
      · simp [heq]
    | none =>
      by_cases heq : name = head
      · subst heq
        simp [hhead, Metrics.unregister, GoMap.lookup_erase]
      · simp [heq, Metrics.unregister, GoMap.lookup_erase]

structure Reloaded (cfg : Config) (c c' : Core) (dones : List (Option Chan)) : Prop where
  pidMap : c'.pidMap = c.pidMap
  children : c'.children = c.children
  closed : c'.closed = c.closed
  nextChan : c'.nextChan = c.nextChan
  nextInst : c.nextInst ≤ c'.nextInst
  name : ∀ i, i < c.nextInst → c'.name i = c.name i
  running : ∀ i, i < c.nextInst → c'.isRunning i = c.isRunning i
  pid : ∀ i, i < c.nextInst → (c'.heap i).pid = (c.heap i).pid
  done : ∀ i, i < c.nextInst → c'.done i = c.done i
  stopped : ∀ i, i < c.nextInst → (c.heap i).stopped = true → (c'.heap i).stopped = true
  restartPending : c'.restartPending = c.restartPending
  fresh : ∀ i, c.nextInst ≤ i → (c'.isRunning i = c.isRunning i ∧ c'.done i = c.done i) ∨
    (c'.isRunning i = false ∧ c'.done i = none)
  covered : ∀ name, (c'.services.lookup name).isSome ↔
    name ∈ cfg.processes.map Process.procName
  current : ∀ name i, c'.services.lookup name = some i →
    (c.nextInst ≤ i ∧ i < c'.nextInst ∧ c'.name i = name ∧ c'.isRunning i = false) ∨
      (c.services.lookup name = some i ∧ c.isRunning i = true)
  replaced : ∀ name i, c.services.lookup name = some i → c.isRunning i = true →
    (c'.services.lookup name).isSome →
    c'.services.lookup name = some i ∨ c.done i ∈ dones
  waits : ∀ done ∈ dones, ∃ name i, c.services.lookup name = some i ∧
    c.isRunning i = true ∧ c.done i = done
  registered : ∀ name, (c'.services.lookup name).isSome → (c'.metrics.lookup name).isSome
  shown : ∀ name, (c'.services.lookup name).isSome ∨ (c.services.lookup name) = none →
    c'.metrics.shown name = c.metrics.shown name
  dropped : ∀ name, (c.services.lookup name).isSome → c'.services.lookup name = none →
    c'.metrics.shown name = (false, 0)

/-- The objects after the retirement, the construction and the reconciliation
of a reload that gets through. -/
theorem reload_eq_ok (hreload : c.reload cfg entrypointArgs controlSocket = (c', .ok dones)) :
    ∃ built, Built (cfg.processes.map (resolveProcess cfg entrypointArgs)) controlSocket
        { c.removeServices (cfg.processes.map Process.procName) with services := ∅ } built ∧
      Core.reconcile c.services.entries (built.dropMetrics c.services, []) = (c', dones) := by
  simp only [Core.reload] at hreload
  cases hbuild : (c.removeServices (cfg.processes.map Process.procName)).buildServices cfg
      entrypointArgs controlSocket with
  | mk built error =>
    cases error with
    | some error => simp [hbuild] at hreload
    | none =>
      refine ⟨built, buildLoop_built hbuild, ?_⟩
      simpa [hbuild, Prod.ext_iff] using hreload

/-- A reload whose processes passed `service.New` gets through. -/
theorem reload_ok (hnew : ∀ p ∈ cfg.processes, ∃ svc, Service.new p = .ok svc) (c : Core)
    (entrypointArgs : List String) (controlSocket : String) :
    ∃ c' dones, c.reload cfg entrypointArgs controlSocket = (c', .ok dones) := by
  have hbuild : ((c.removeServices (cfg.processes.map Process.procName)).buildServices cfg
      entrypointArgs controlSocket).2 = none := by
    apply buildLoop_ok
    intro p hp
    obtain ⟨q, hq, rfl⟩ := List.mem_map.mp hp
    exact new_resolveProcess_ok (hnew q hq)
  simp only [Core.reload]
  cases hpair : (c.removeServices (cfg.processes.map Process.procName)).buildServices cfg
      entrypointArgs controlSocket with
  | mk built error =>
    rw [hpair] at hbuild
    cases hbuild
    exact ⟨_, _, rfl⟩

theorem reload_reloaded (hnamed : ∀ name i, c.services.lookup name = some i → i < c.nextInst)
    (hreload : c.reload cfg entrypointArgs controlSocket = (c', .ok dones)) :
    Reloaded cfg c c' dones := by
  obtain ⟨built, hbuilt, hloop⟩ := reload_eq_ok hreload
  have hremoved := removeServices_sameRuns (cfg.processes.map Process.procName) c
  have hrec := reconcile_reconciled c.services.entries (built.dropMetrics c.services) []
  rw [hloop] at hrec
  have hnames : ∀ name, name ∈ (cfg.processes.map (resolveProcess cfg entrypointArgs)).map
      Process.procName ↔ name ∈ cfg.processes.map Process.procName := by
    intro name
    rw [List.map_map]
    exact Iff.rfl
  have hcovered : ∀ name, (c'.services.lookup name).isSome ↔
      name ∈ cfg.processes.map Process.procName := by
    intro name
    rw [hrec.covered name]
    change (built.services.lookup name).isSome ↔ _
    rw [hbuilt.covered name, hnames name]
    simp
  have hold : ∀ i, i < c.nextInst →
      built.heap i = (c.removeServices (cfg.processes.map Process.procName)).heap i := by
    intro i hi
    exact hbuilt.old i (by rw [← hremoved.nextInst] at hi; exact hi)
  have hshown : ∀ name, built.metrics.shown name = c.metrics.shown name := by
    intro name
    rw [hbuilt.shown name]
    change (c.removeServices _).metrics.shown name = _
    rw [removeServices_metrics]
  have hmetrics : ∀ name, c'.metrics.lookup name =
      if name ∈ c.services.keys ∧ c'.services.lookup name = none then none
      else built.metrics.lookup name := by
    intro name
    have hgone : c'.services.lookup name = none ↔ built.services.lookup name = none := by
      rw [← Option.isNone_iff_eq_none, ← Option.isNone_iff_eq_none, ← Option.not_isSome,
        hrec.covered name, Option.not_isSome]
      rfl
    simp only [hgone]
    rw [hrec.metrics]
    exact unregister_foldl_lookup built.services c.services.keys built.metrics name
  refine {
    pidMap := hrec.pidMap.trans (hbuilt.pidMap.trans hremoved.pidMap)
    children := hrec.children.trans (hbuilt.children.trans hremoved.children)
    closed := hrec.closed.trans (hbuilt.closed.trans hremoved.closed)
    nextChan := hrec.nextChan.trans (hbuilt.nextChan.trans hremoved.nextChan)
    restartPending := hrec.restartPending.trans
      (hbuilt.restartPending.trans (removeServices_restartPending _ c))
    nextInst := ?_, name := ?_, running := ?_, pid := ?_, done := ?_, stopped := ?_, fresh := ?_
    covered := hcovered, current := ?_, replaced := ?_, waits := ?_, registered := ?_
    shown := ?_, dropped := ?_ }
  · rw [hrec.nextInst, ← hremoved.nextInst]
    exact hbuilt.nextInst
  · intro i hi
    rw [hrec.name i, ← hremoved.name i]
    exact congrArg Service.name (hold i hi)
  · intro i hi
    rw [hrec.running i, ← hremoved.running i]
    exact congrArg Service.running (hold i hi)
  · intro i hi
    rw [hrec.pid i, ← hremoved.pid i]
    exact congrArg Service.pid (hold i hi)
  · intro i hi
    rw [hrec.done i, ← hremoved.done i]
    exact congrArg Service.done (hold i hi)
  · intro i hi hstopped
    refine hrec.stopped i ?_
    change (built.heap i).stopped = true
    rw [hold i hi]
    exact hremoved.stopped i hstopped
  · intro i hi
    rw [hrec.running i, hrec.done i, ← hremoved.running i, ← hremoved.done i]
    rcases hbuilt.new i (by rw [← hremoved.nextInst] at hi; exact hi) with
      hsame | ⟨p, -, svc, hnew, heq⟩
    · exact .inl ⟨congrArg Service.running hsame, congrArg Service.done hsame⟩
    · have hsvc := Service.builtFrom_of_new hnew
      right
      change (built.heap i).running = false ∧ (built.heap i).done = none
      rw [heq]
      exact ⟨hsvc.running, hsvc.done⟩
  · intro name i hlookup
    rcases hrec.services name i hlookup with hnew | ⟨hmem, hrunning⟩
    · rcases hbuilt.services name i hnew with hempty | ⟨hlow, hhigh, ⟨p, -, svc, hsvc, heq⟩, hname⟩
      · simp at hempty
      · left
        refine ⟨hremoved.nextInst ▸ hlow, hrec.nextInst ▸ hhigh, (hrec.name i).trans hname, ?_⟩
        rw [hrec.running i]
        change (built.heap i).running = false
        rw [heq]
        exact (Service.builtFrom_of_new hsvc).running
    · right
      have hcurrent := GoMap.mem_entries.mp hmem
      refine ⟨hcurrent, ?_⟩
      rw [← hremoved.running i]
      exact (congrArg Service.running (hold i (hnamed name i hcurrent))).symm.trans hrunning
  · intro name i hlookup hrunning hsome
    have hbuiltRunning : (built.dropMetrics c.services).isRunning i = true := by
      change (built.heap i).running = true
      rw [hold i (hnamed name i hlookup)]
      exact (hremoved.running i).trans hrunning
    have hbuiltDone : (built.dropMetrics c.services).done i = c.done i := by
      change (built.heap i).done = c.done i
      rw [hold i (hnamed name i hlookup)]
      exact hremoved.done i
    have hresult := reconcile_running
      (GoMap.keys_eq_map_entries c.services ▸ GoMap.keys_nodup c.services)
      (built.dropMetrics c.services) [] (GoMap.mem_entries.mpr hlookup) hbuiltRunning
      ((hrec.covered name).symm.trans hsome)
    rwa [hloop, hbuiltDone] at hresult
  · intro done hdone
    rcases hrec.waits done hdone with hnil | ⟨name, i, hmem, hrunning, heq⟩
    · cases hnil
    · have hcurrent := GoMap.mem_entries.mp hmem
      have hheap := hold i (hnamed name i hcurrent)
      refine ⟨name, i, hcurrent, ?_, ?_⟩
      · rw [← hremoved.running i]
        exact (congrArg Service.running hheap).symm.trans hrunning
      · rw [← hremoved.done i]
        exact (congrArg Service.done hheap).symm.trans heq
  · intro name hsome
    rw [hmetrics, if_neg (fun h => Option.isSome_iff_ne_none.mp hsome h.2),
      hbuilt.registered name, hnames name]
    exact .inr ((hcovered name).mp hsome)
  · intro name hcase
    have hkept : ¬ (name ∈ c.services.keys ∧ c'.services.lookup name = none) := by
      rintro ⟨hkey, hgone⟩
      rcases hcase with hsome | hnone
      · exact Option.isSome_iff_ne_none.mp hsome hgone
      · rw [GoMap.mem_keys, hnone] at hkey
        cases hkey
    rw [Metrics.shown, hmetrics, if_neg hkept]
    exact hshown name
  · intro name hsome hgone
    rw [Metrics.shown, hmetrics, if_pos ⟨GoMap.mem_keys.mpr hsome, hgone⟩]
    rfl

end Gopherd.Daemon
