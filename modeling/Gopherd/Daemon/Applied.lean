import Gopherd.Daemon.Policy
import Gopherd.Order.Sorted

/-!
The configuration in force.
-/

namespace Gopherd.Daemon

open Go

theorem equal_self {K V : Type} [DecidableEq K] [DecidableEq V] (m : GoMap K V) :
    m.equal m = true := by
  simp only [GoMap.equal, true_and, decide_eq_true_eq]
  exact fun entry hentry => GoMap.mem_entries.mp hentry

theorem processConfigChanged_self (p : Process) : processConfigChanged p p = false := by
  simp [processConfigChanged, equal_self]

/-- What a kept object takes over is not compared. -/
theorem processConfigChanged_keepRunning (oldSvc newSvc : Service) (p : Process) :
    processConfigChanged (keepRunning oldSvc newSvc).proc p =
      processConfigChanged oldSvc.proc p := rfl

/-- An object that a reload has built for a name. -/
theorem reload_new {c c' : Core}
    (hnamed : ∀ name i, c.services.lookup name = some i → c.name i = name ∧ i < c.nextInst)
    (hreload : c.reload cfg entrypointArgs controlSocket = (c', .ok dones))
    (hlookup : c'.services.lookup name = some i) (hlater : c.nextInst ≤ i) :
    ∃ p ∈ cfg.processes, p.procName = name ∧ ∃ new,
      Service.new (resolveProcess cfg entrypointArgs p) = .ok new ∧
        c'.heap i = { new with controlSocket } := by
  obtain ⟨built, hbuilt, hloop⟩ := reload_eq_ok hreload
  have hrec := reconcile_reconciled c.services.entries (built.dropMetrics c.services) []
  rw [hloop] at hrec
  have hout := not_mem_entries_of_le hnamed hlater
  have hheap : c'.heap i = built.heap i := by
    have hsame := reconcile_heap hout (built.dropMetrics c.services) []
    rw [hloop] at hsame
    exact hsame
  rcases hrec.services name i hlookup with hnew | ⟨hmem, -⟩
  · obtain ⟨-, p, hp, hname, svc, hsvc, heq⟩ := built_lookup hbuilt hnew
    exact ⟨p, hp, hname, svc, hsvc, hheap.trans heq⟩
  · exact absurd (List.mem_map.mpr ⟨_, hmem, rfl⟩) hout

def longRunning (p : Process) : Bool :=
  p.startup ≠ .disabled && p.startup ≠ .oneshot && p.startup ≠ .scheduled

/-- What a newly built object takes from its process. -/
theorem built_startable (hnew : Service.new (resolveProcess cfg entrypointArgs p) = .ok new)
    (hsvc : svc = { new with controlSocket }) :
    (svc.enabled && !svc.oneshot && !svc.scheduled) = longRunning p ∧
      ∀ files, svc.unmetCondition files = p.fileConditions.unmet files := by
  have hbuilt := Service.builtFrom_of_new hnew
  subst hsvc
  refine ⟨?_, fun files => ?_⟩
  · have henabled : new.enabled = decide (p.startup ≠ .disabled) := hbuilt.enabled
    have honeshot : new.oneshot = decide (p.startup = .oneshot) := hbuilt.oneshot
    have hscheduled : new.scheduled = decide (p.startup = .scheduled) := hbuilt.scheduled
    simp [henabled, honeshot, hscheduled, longRunning]
  · simp only [Service.unmetCondition, hbuilt.conds, hbuilt.proc, Option.getD_none]
    rfl

structure Applied (s : State) : Prop where
  sorted : Order.topoSort s.cfg.orderNodes = .ok s.shutdownSeq
  mode : s.shutdownMode = s.cfg.shutdownOrder
  covered : ∀ name, (s.core.services.lookup name).isSome ↔
    name ∈ s.cfg.processes.map Process.procName
  unchanged : ∀ p ∈ s.cfg.processes, ∀ i, s.core.services.lookup p.procName = some i →
    processConfigChanged (s.core.heap i).proc (resolveProcess s.cfg s.entrypointArgs p) = false

namespace Applied

variable {s s' : State}

theorem distinct (h : Applied s) : (s.cfg.processes.map Process.procName).Nodup :=
  distinct_of_sorted h.sorted

/-- An object built for the name of a process does not differ from it. -/
theorem unchanged_of_built (hdistinct : (cfg.processes.map Process.procName).Nodup)
    (hp : p ∈ cfg.processes) (hq : q ∈ cfg.processes) (hname : q.procName = p.procName)
    (hnew : Service.new (resolveProcess cfg entrypointArgs q) = .ok new)
    (hsvc : svc = { new with controlSocket }) :
    processConfigChanged svc.proc (resolveProcess cfg entrypointArgs p) = false := by
  obtain rfl : q = p := List.inj_on_of_nodup_map hdistinct hq hp hname
  rw [hsvc]
  change processConfigChanged new.proc _ = false
  rw [(Service.builtFrom_of_new hnew).proc]
  exact processConfigChanged_self _

theorem of_boots (hboots : Boots s) : Applied s := by
  obtain ⟨input, hboot⟩ := hboots
  unfold boot at hboot
  split at hboot
  · cases hboot
  · next cfg hload =>
      split_ifs at hboot
      split at hboot
      · next startOrder layers core hsort hlayers hbuild =>
          cases hboot
          have hbuilt := buildLoop_built hbuild
          refine ⟨hsort, rfl, ?_, ?_⟩
          · intro name
            rw [hbuilt.covered name, List.map_map]
            simp only [GoMap.lookup_empty, Option.isSome_none, Bool.false_eq_true, false_or]
            rfl
          · intro p hp i hlookup
            obtain ⟨-, q, hq, hname, new, hnew, heq⟩ := built_named rfl hbuilt hlookup
            exact unchanged_of_built (distinct_of_sorted hsort) hp hq hname hnew heq
      · cases hboot

theorem reloadSection (hconfigured : Configured s)
    (hlocking : s.reload = .locking origin cfg startOrder) :
    Applied (s.reloadSection origin cfg startOrder) := by
  obtain ⟨parsed, hload⟩ := hconfigured.loaded origin cfg startOrder hlocking
  obtain ⟨dones, hreload, hreloaded, hwaiting⟩ := hconfigured.reload_ok hlocking
  have hsort := loadConfig_sorted hload
  have hinstalled : (s.reloadSection origin cfg startOrder).installed =
      ⟨cfg, s.entrypointArgs, s.controlSocket, startOrder, cfg.shutdownOrder⟩ := by
    unfold State.reloadSection
    rw [hreload]
    rfl
  simp only [State.installed, Installed.mk.injEq] at hinstalled
  obtain ⟨hcfg, hargs, -, hseq, hmode⟩ := hinstalled
  refine ⟨?_, ?_, ?_, ?_⟩
  · rw [hcfg, hseq]
    exact hsort
  · rw [hmode, hcfg]
  · rw [hcfg]
    exact hreloaded.covered
  · intro p hp i hlookup
    rw [hcfg] at hp
    rw [hcfg, hargs]
    rcases hreloaded.current _ i hlookup with ⟨hlater, -⟩ | ⟨hold, hrunning⟩
    · obtain ⟨q, hq, hname, new, hnew, heq⟩ :=
        reload_new hconfigured.named hreload hlookup hlater
      exact unchanged_of_built (distinct_of_sorted hsort) hp hq hname hnew heq
    · have hbuilds : ∃ new, Service.new (resolveProcess cfg s.entrypointArgs p) = .ok new :=
        new_resolveProcess_ok (loadConfig_new hload p hp)
      obtain ⟨new, hnew⟩ := hbuilds
      obtain ⟨hsame, heq⟩ := reload_kept hconfigured.named (distinct_of_sorted hsort) hreload
        hold hrunning hlookup hp rfl hnew
      rw [heq, processConfigChanged_keepRunning]
      exact hsame

/-- The settings of an object only change in the locked section of a reload. -/
theorem step_settings (hstep : s.step action = some s')
    (hother : ∀ origin cfg startOrder, s.reload = .locking origin cfg startOrder → s' ≠
      s.reloadSection origin cfg startOrder) (i : InstId) :
    (s'.core.heap i).proc = (s.core.heap i).proc ∧
      (s'.core.heap i).conds = (s.core.heap i).conds ∧
      (s'.core.heap i).onCheckFailure = (s.core.heap i).onCheckFailure := by
  have hkept : Enduring fun i svc => svc.proc = (s.core.heap i).proc ∧
      svc.conds = (s.core.heap i).conds ∧
      svc.onCheckFailure = (s.core.heap i).onCheckFailure := by
    refine ⟨?_, id, id⟩
    intro i svc h
    unfold Service.stop
    split <;> exact h
  exact hkept.step hstep (fun _ => ⟨rfl, rfl, rfl⟩) (fun _ _ _ _ => ⟨rfl, rfl, rfl⟩)
    (fun origin cfg startOrder hlocking heq => absurd heq (hother origin cfg startOrder hlocking)) i

theorem step (h : Applied s) (hconfigured : Configured s) (hstep : s.step action = some s') :
    Applied s' := by
  by_cases hsection : ∃ origin cfg startOrder, s.reload = .locking origin cfg startOrder ∧
      s' = s.reloadSection origin cfg startOrder
  · obtain ⟨origin, cfg, startOrder, hlocking, rfl⟩ := hsection
    exact reloadSection hconfigured hlocking
  · have hother : ∀ origin cfg startOrder, s.reload = .locking origin cfg startOrder →
        s' ≠ s.reloadSection origin cfg startOrder :=
      fun origin cfg startOrder hlocking heq => hsection ⟨origin, cfg, startOrder, hlocking, heq⟩
    rcases step_installed hstep with hsame | ⟨_, origin, cfg, startOrder, -, hlocking, -, -, heq⟩
    · simp only [State.installed, Installed.mk.injEq] at hsame
      obtain ⟨hcfg, hargs, -, hseq, hmode⟩ := hsame
      have hservices : s'.core.services = s.core.services := by
        cases step_names hstep with
        | same hservices => exact hservices
        | reloaded hlocking => exact absurd rfl (hother _ _ _ hlocking)
      refine ⟨?_, ?_, ?_, ?_⟩
      · rw [hcfg, hseq]
        exact h.sorted
      · rw [hmode, hcfg]
        exact h.mode
      · rw [hservices, hcfg]
        exact h.covered
      · rw [hservices, hcfg, hargs]
        intro p hp i hlookup
        rw [(step_settings hstep hother i).1]
        exact h.unchanged p hp i hlookup
    · exact absurd heq (hother origin cfg startOrder hlocking)

theorem of_reached {ok : State → Action → Prop} (hreached : Reached ok s) : Applied s :=
  hreached.induction (fun _ => of_boots) fun _ _ _ hbefore h _ =>
    h.step (.of_reached hbefore)

end Applied

end Gopherd.Daemon
