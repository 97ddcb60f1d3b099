import Gopherd.Daemon.Objects

/-!
What a service that keeps its process takes over from a new configuration. The
reload copies some settings into the running object and compares others before
it decides to keep it.
-/

namespace Gopherd.Daemon

open Go

variable {cfg : Config} {i j : InstId} {name controlSocket : String} {c : Core}
  {entrypointArgs : List String}

/-- The start order of a configuration that passed is the sorted one. -/
theorem loadConfig_sorted (hload : State.loadConfig parsed = some (cfg, startOrder)) :
    Order.topoSort cfg.orderNodes = .ok startOrder :=
  (loadConfig_passed hload).2.2.1

theorem orderNodes_names (cfg : Config) :
    cfg.orderNodes.map Order.Node.name = cfg.processes.map Process.procName := by
  simp [Config.orderNodes, Function.comp_def]

/-- The processes of a configuration that can be sorted have distinct names. -/
theorem distinct_of_sorted (hsort : Order.topoSort cfg.orderNodes = .ok startOrder) :
    (cfg.processes.map Process.procName).Nodup :=
  orderNodes_names cfg ▸ Order.topoSort_nodup hsort

theorem reconcileOne_heap (c : Core) (dones : List (Option Chan)) (name : String) (hk : k ≠ i) :
    (Core.reconcileOne (c, dones) name i).1.heap k = c.heap k := by
  rcases reconcileOne_cases c dones name i with
    ⟨heq, -⟩ | ⟨j, -, -, ⟨-, heq⟩ | ⟨-, heq⟩⟩ <;> rw [heq]
  · simp [Core.modify, hk]
  · simp [Core.keepCurrent, Core.modify, hk]

/-- The loop leaves the objects alone that it does not visit. -/
theorem reconcile_heap (hk : k ∉ old.map Prod.snd) (c : Core) (dones : List (Option Chan)) :
    (Core.reconcile old (c, dones)).1.heap k = c.heap k := by
  induction old generalizing c dones with
  | nil => rfl
  | cons entry rest ih =>
    rw [List.map_cons, List.mem_cons, not_or] at hk
    exact (ih hk.2 _ _).trans (reconcileOne_heap c dones entry.1 hk.1)

/-- A running object that is current again afterwards has taken over the
settings that `reload` copies from the object built for its name. -/
theorem reconcile_kept (hnames : (old.map Prod.fst).Nodup) (hids : (old.map Prod.snd).Nodup)
    (c : Core) (dones : List (Option Chan)) (hmem : (name, i) ∈ old) (hj : j ∉ old.map Prod.snd)
    (hlookup : c.services.lookup name = some j) (hrunning : c.isRunning i = true)
    (hkept : (Core.reconcile old (c, dones)).1.services.lookup name = some i) :
    processConfigChanged (c.heap i).proc (c.heap j).proc = false ∧
      (Core.reconcile old (c, dones)).1.heap i = keepRunning (c.heap i) (c.heap j) := by
  induction old generalizing c dones with
  | nil => cases hmem
  | cons entry rest ih =>
    obtain ⟨hname, hnames⟩ := List.nodup_cons.mp hnames
    obtain ⟨hid, hids⟩ := List.nodup_cons.mp hids
    have hstep : Core.reconcile (entry :: rest) (c, dones) =
        Core.reconcile rest (Core.reconcileOne (c, dones) entry.1 entry.2) := rfl
    rw [hstep] at hkept ⊢
    have htail := reconcile_reconciled rest (Core.reconcileOne (c, dones) entry.1 entry.2).1
      (Core.reconcileOne (c, dones) entry.1 entry.2).2
    rcases List.mem_cons.mp hmem with rfl | hmem
    · have hheap := reconcile_heap hid (Core.reconcileOne (c, dones) name i).1
        (Core.reconcileOne (c, dones) name i).2
      rcases reconcileOne_cases c dones name i with
        ⟨-, hstopped | hgone⟩ | ⟨k, hk, -, ⟨-, heq⟩ | ⟨hsame, heq⟩⟩
      · rw [hrunning] at hstopped
        cases hstopped
      · rw [hlookup] at hgone
        cases hgone
      · -- retired: the new object stays in its place
        rw [htail.untouched name hname, heq] at hkept
        have hij : j = i := Option.some.inj (hlookup.symm.trans hkept)
        exact absurd (by simp [hij]) hj
      · obtain rfl : k = j := Option.some.inj (hk.symm.trans hlookup)
        rw [hheap, heq]
        exact ⟨hsame, by simp [Core.keepCurrent, Core.modify]⟩
    · rw [List.map_cons, List.mem_cons, not_or] at hj
      have hi : i ≠ entry.2 := by
        rintro rfl
        exact hid (List.mem_map.mpr ⟨_, hmem, rfl⟩)
      have hother : name ∉ [(entry.1, entry.2)].map Prod.fst := by
        simp only [List.map_cons, List.map_nil, List.mem_singleton]
        rintro rfl
        exact hname (List.mem_map.mpr ⟨_, hmem, rfl⟩)
      have hhead := reconcileOne_reconciled c dones entry.1 entry.2
      have hrest := ih hnames hids (Core.reconcileOne (c, dones) entry.1 entry.2).1
        (Core.reconcileOne (c, dones) entry.1 entry.2).2 hmem hj.2
        ((hhead.untouched name hother).trans hlookup) ((hhead.running i).trans hrunning) hkept
      rwa [reconcileOne_heap c dones entry.1 hi, reconcileOne_heap c dones entry.1 hj.1]
        at hrest

theorem removeServices_heap (hkept : ∀ name, c.services.lookup name = some i → name ∈ newNames) :
    (c.removeServices newNames).heap i = c.heap i := by
  have hentries : ∀ entry ∈ c.services.entries, entry.1 ∉ newNames → entry.2 ≠ i := by
    rintro ⟨name, j⟩ hmem hname rfl
    exact hname (hkept name (GoMap.mem_entries.mp hmem))
  unfold Core.removeServices
  generalize c.services.entries = entries at hentries
  clear hkept
  induction entries generalizing c with
  | nil => rfl
  | cons entry rest ih =>
    rw [List.foldl_cons, ih fun e he => hentries e (List.mem_cons_of_mem _ he)]
    split
    · rfl
    · next hname =>
        have hne := hentries entry List.mem_cons_self hname
        simp [Core.modify, Ne.symm hne]

/-- Two names do not share an object. -/
theorem entries_snd_nodup
    (hnamed : ∀ name i, c.services.lookup name = some i → c.name i = name ∧ i < c.nextInst) :
    (c.services.entries.map Prod.snd).Nodup := by
  have hkeys := GoMap.keys_nodup c.services
  rw [GoMap.keys_eq_map_entries] at hkeys
  refine List.Nodup.map_on ?_ (List.Nodup.of_map _ hkeys)
  rintro ⟨name, i⟩ hmem ⟨name', i'⟩ hmem' heq
  obtain rfl : i = i' := heq
  rw [← (hnamed name i (GoMap.mem_entries.mp hmem)).1,
    ← (hnamed name' i (GoMap.mem_entries.mp hmem')).1]

/-- An object of a later number is not among the current ones. -/
theorem not_mem_entries_of_le
    (hnamed : ∀ name i, c.services.lookup name = some i → c.name i = name ∧ i < c.nextInst)
    (hlater : c.nextInst ≤ j) : j ∉ c.services.entries.map Prod.snd := by
  intro hmem
  obtain ⟨⟨name, i⟩, hentry, rfl⟩ := List.mem_map.mp hmem
  exact absurd (hnamed name i (GoMap.mem_entries.mp hentry)).2 (Nat.not_lt.mpr hlater)

/-- When the names are built anew, the object of a name is made for a process
of that name. -/
theorem built_named (hstart : start.services = ∅)
    (hbuilt : Built (cfg.processes.map (resolveProcess cfg entrypointArgs)) controlSocket start
      built) (hlookup : built.services.lookup name = some j) :
    start.nextInst ≤ j ∧ ∃ p ∈ cfg.processes, p.procName = name ∧ ∃ new,
      Service.new (resolveProcess cfg entrypointArgs p) = .ok new ∧
        built.heap j = { new with controlSocket } := by
  rcases hbuilt.services name j hlookup with hempty | ⟨hlow, -, ⟨q, hq, new, hnew, heq⟩, hname⟩
  · simp [hstart] at hempty
  · obtain ⟨p, hp, rfl⟩ := List.mem_map.mp hq
    refine ⟨hlow, p, hp, ?_, new, hnew, heq⟩
    rw [← hname, Core.name, heq]
    exact (Service.builtFrom_of_new hnew).name.symm

/-- In a reload the objects built for the names are new ones. -/
theorem built_lookup
    (hbuilt : Built (cfg.processes.map (resolveProcess cfg entrypointArgs)) controlSocket {
      c.removeServices newNames with services := ∅ } built)
    (hlookup : built.services.lookup name = some j) :
    c.nextInst ≤ j ∧ ∃ p ∈ cfg.processes, p.procName = name ∧ ∃ new,
      Service.new (resolveProcess cfg entrypointArgs p) = .ok new ∧
        built.heap j = { new with controlSocket } := by
  obtain ⟨hlow, hprocess⟩ := built_named rfl hbuilt hlookup
  have hnext := (removeServices_sameRuns newNames c).nextInst
  exact ⟨hnext ▸ hlow, hprocess⟩

/-- What becomes of the object of a service that keeps its process. -/
theorem reload_kept
    (hnamed : ∀ name i, c.services.lookup name = some i → c.name i = name ∧ i < c.nextInst)
    (hdistinct : (cfg.processes.map Process.procName).Nodup)
    (hreload : c.reload cfg entrypointArgs controlSocket = (c', .ok dones))
    (hold : c.services.lookup name = some i) (hrunning : c.isRunning i = true)
    (hkept : c'.services.lookup name = some i) (hp : p ∈ cfg.processes)
    (hname : p.procName = name)
    (hnew : Service.new (resolveProcess cfg entrypointArgs p) = .ok new) :
    processConfigChanged (c.heap i).proc (resolveProcess cfg entrypointArgs p) = false ∧
      c'.heap i = keepRunning (c.heap i) { new with controlSocket } := by
  obtain ⟨built, hbuilt, hloop⟩ := reload_eq_ok hreload
  have hremoved := removeServices_sameRuns (cfg.processes.map Process.procName) c
  have hlt := (hnamed name i hold).2
  have hheap : built.heap i = c.heap i := by
    rw [hbuilt.old i (hremoved.nextInst ▸ hlt)]
    refine removeServices_heap fun other hother => ?_
    rw [← (hnamed other i hother).1, (hnamed name i hold).1, ← hname]
    exact List.mem_map_of_mem hp
  -- the object built for the name is the one made from `p`
  have hcovered : (built.services.lookup name).isSome := by
    rw [hbuilt.covered]
    refine .inr ?_
    rw [List.map_map, ← hname]
    exact List.mem_map.mpr ⟨p, hp, rfl⟩
  obtain ⟨j, hj⟩ := Option.isSome_iff_exists.mp hcovered
  obtain ⟨hlater, p', hp', hname', svc, hsvc, hbuiltj⟩ := built_lookup hbuilt hj
  obtain rfl : p' = p := List.inj_on_of_nodup_map hdistinct hp' hp (hname'.trans hname.symm)
  obtain rfl : svc = new := Except.ok.inj (hsvc.symm.trans hnew)
  have hresult := reconcile_kept (GoMap.keys_eq_map_entries c.services ▸ GoMap.keys_nodup _)
    (entries_snd_nodup hnamed) (built.dropMetrics c.services) [] (GoMap.mem_entries.mpr hold)
    (not_mem_entries_of_le hnamed hlater) hj
    (by rw [← hrunning]; exact congrArg Service.running hheap) (by rw [hloop]; exact hkept)
  rw [hloop] at hresult
  change processConfigChanged (built.heap i).proc (built.heap j).proc = false ∧
    c'.heap i = keepRunning (built.heap i) (built.heap j) at hresult
  rw [hheap, hbuiltj] at hresult
  refine ⟨?_, hresult.2⟩
  rw [← (Service.builtFrom_of_new hnew).proc]
  exact hresult.1

structure Policy where
  onSuccess : ExitAction
  onFailure : ExitAction
  oneshotFailure : Option ExitAction
  onCheckFailure : GoMap String ExitAction
  requires : List String
  exitCodeMap : GoMap Int Int
  signalRewrite : GoMap String String
  restartWithDependents : Bool
  conditions : FileConditions
  backoffDelay : Duration
  backoffFactor : Float64
  backoffLimit : Duration
  schedule : Option Cron.Schedule
  startupTimeout : String
  deriving DecidableEq

def oneshotFailure (svc : Service) : Option ExitAction :=
  if svc.oneshot then some ((parseExitAction svc.proc.onFailure .ignore).getD .ignore) else none

def policy (svc : Service) : Policy where
  onSuccess := svc.onSuccess
  onFailure := svc.onFailure
  oneshotFailure := oneshotFailure svc
  onCheckFailure := svc.onCheckFailure
  requires := svc.requires
  exitCodeMap := svc.proc.exitCodeMap
  signalRewrite := svc.proc.signalRewrite
  restartWithDependents := svc.proc.restartWithDependents
  conditions := svc.conds.getD svc.proc.fileConditions
  backoffDelay := svc.backoff.delay
  backoffFactor := svc.backoff.factor
  backoffLimit := svc.backoff.limit
  schedule := svc.schedule
  startupTimeout := svc.proc.startupTimeout

/-- The old object and the new one agree on what `reload` neither compares nor
copies. -/
def SameUnreconciled (oldSvc newSvc : Service) : Prop :=
  oldSvc.backoff.delay = newSvc.backoff.delay ∧ oldSvc.backoff.factor = newSvc.backoff.factor ∧
    oldSvc.backoff.limit = newSvc.backoff.limit ∧ oldSvc.schedule = newSvc.schedule ∧
    oldSvc.proc.startupTimeout = newSvc.proc.startupTimeout ∧
    oneshotFailure oldSvc = oneshotFailure newSvc

instance (oldSvc newSvc : Service) : Decidable (SameUnreconciled oldSvc newSvc) :=
  inferInstanceAs (Decidable (_ ∧ _ ∧ _ ∧ _ ∧ _ ∧ _))

theorem policy_keepRunning (oldSvc : Service) (hconds : newSvc.conds = none) :
    policy (keepRunning oldSvc newSvc) = policy newSvc ↔ SameUnreconciled oldSvc newSvc := by
  simp only [policy, keepRunning, Policy.mk.injEq, hconds, Option.getD_some, Option.getD_none,
    true_and, SameUnreconciled]
  constructor
  · rintro ⟨honeshot, hdelay, hfactor, hlimit, hschedule, htimeout⟩
    exact ⟨hdelay, hfactor, hlimit, hschedule, htimeout, honeshot⟩
  · rintro ⟨hdelay, hfactor, hlimit, hschedule, htimeout, honeshot⟩
    exact ⟨honeshot, hdelay, hfactor, hlimit, hschedule, htimeout⟩

/-- A service that keeps its process over a reload follows the new
configuration in everything exactly when the backoff, the schedule, the
startup timeout and the action for a oneshot are those it had before. -/
theorem kept_service_follows_config_iff {s : State} (hreached : Reached Transition.anyStep s)
    {origin : ReloadOrigin} {cfg : Config} {startOrder : List String}
    (hlocking : s.reload = .locking origin cfg startOrder) {name : String} {i : InstId}
    (hold : s.core.services.lookup name = some i) (hrunning : s.core.isRunning i = true)
    (hkept : (s.reloadSection origin cfg startOrder).core.services.lookup name = some i)
    {p : Process} (hp : p ∈ cfg.processes) (hname : p.procName = name) {new : Service}
    (hnew : Service.new (resolveProcess cfg s.entrypointArgs p) = .ok new) :
    policy ((s.reloadSection origin cfg startOrder).core.heap i) = policy new ↔
      SameUnreconciled (s.core.heap i) new := by
  have hconfigured := Configured.of_reached hreached
  obtain ⟨parsed, hload⟩ := hconfigured.loaded origin cfg startOrder hlocking
  obtain ⟨dones, hreload, -⟩ := hconfigured.reload_ok hlocking
  rw [(reload_kept hconfigured.named (distinct_of_sorted (loadConfig_sorted hload)) hreload hold
    hrunning hkept hp hname hnew).2]
  exact policy_keepRunning _ (Service.builtFrom_of_new hnew).conds

def loadedConfig (processes : List Process) : Config :=
  ⟨processes, ∅, .unset, [], "", false⟩

def runToReload (before after : Process) : Option State :=
  run (fun _ _ => true) (plainInput [before])
    (bootActions 100 ++ (reloadActions [after]).dropLast)

abbrev State.reloadWeb (s : State) (p : Process) : Core :=
  (s.reloadSection .control (loadedConfig [p]) ["web"]).core

def restartedWeb : Process :=
  { webProcess with onFailure := "restart" }

/-- A reload that only changes the failure action of `web` is followed. -/
theorem web_follows_new_action : ∃ s new,
    runToReload webProcess restartedWeb = some s ∧ Service.new restartedWeb = .ok new ∧
      new.onFailure = .restart ∧ policy ((s.reloadWeb restartedWeb).heap 0) = policy new := by
  have hrun : (runToReload webProcess restartedWeb).map (fun s =>
      match Service.new restartedWeb with
      | .ok new => decide (s.reload = .locking .control (loadedConfig [restartedWeb]) ["web"] ∧
          s.entrypointArgs = [] ∧ s.core.services.lookup "web" = some 0 ∧
          s.core.isRunning 0 = true ∧
          (s.reloadWeb restartedWeb).services.lookup "web" = some 0 ∧
          SameUnreconciled (s.core.heap 0) new ∧ new.onFailure = .restart)
      | .error _ => false) = some true := by
    decide +kernel
  obtain ⟨s, hs, hfacts⟩ := Option.map_eq_some_iff.mp hrun
  cases hnew : Service.new restartedWeb with
  | error error => simp [hnew] at hfacts
  | ok new =>
    simp only [hnew] at hfacts
    obtain ⟨hlocking, hargs, hold, hrunning, hkept, hsame, haction⟩ :=
      of_decide_eq_true hfacts
    refine ⟨s, new, hs, rfl, haction, ?_⟩
    have hreached := (reached_of_run hs).weaken fun _ _ _ => trivial
    have hresolved : Service.new (resolveProcess (loadedConfig [restartedWeb]) s.entrypointArgs
        restartedWeb) = .ok new := by
      rw [hargs]
      exact hnew
    unfold State.reloadWeb at hkept ⊢
    exact (kept_service_follows_config_iff hreached hlocking hold hrunning hkept
      (List.mem_singleton_self _) rfl hresolved).mpr hsame

def delayedWeb (delay : String) : Process :=
  { webProcess with backoffDelay := delay }

/-- A new backoff delay is lost: `web` keeps its process and the old delay. -/
theorem reload_keeps_old_backoff : ∃ s new, Reached Transition.anyStep s ∧
    s.reload = .locking .control (loadedConfig [delayedWeb "2s"]) ["web"] ∧
    s.core.isRunning 0 = true ∧
    (s.reloadWeb (delayedWeb "2s")).services.lookup "web" = some 0 ∧
    Service.new (delayedWeb "2s") = .ok new ∧
    (policy ((s.reloadWeb (delayedWeb "2s")).heap 0)).backoffDelay = 1 * secondDuration ∧
    (policy new).backoffDelay = 2 * secondDuration := by
  have hrun : (runToReload (delayedWeb "1s") (delayedWeb "2s")).map (fun s =>
      match Service.new (delayedWeb "2s") with
      | .ok new => decide (s.reload = .locking .control (loadedConfig [delayedWeb "2s"]) ["web"] ∧
          s.core.isRunning 0 = true ∧
          (s.reloadWeb (delayedWeb "2s")).services.lookup "web" = some 0 ∧
          (policy ((s.reloadWeb (delayedWeb "2s")).heap 0)).backoffDelay = 1 * secondDuration ∧
          (policy new).backoffDelay = 2 * secondDuration)
      | .error _ => false) = some true := by
    decide +kernel
  obtain ⟨s, hs, hfacts⟩ := Option.map_eq_some_iff.mp hrun
  cases hnew : Service.new (delayedWeb "2s") with
  | error error => simp [hnew] at hfacts
  | ok new =>
    simp only [hnew] at hfacts
    obtain ⟨hlocking, hrunning, hkept, hdelay, hnewDelay⟩ := of_decide_eq_true hfacts
    exact ⟨s, new, (reached_of_run hs).weaken fun _ _ _ => trivial, hlocking, hrunning, hkept,
      rfl, hdelay, hnewDelay⟩

end Gopherd.Daemon
