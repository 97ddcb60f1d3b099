import Gopherd.Config.Load
import Gopherd.Order.Agree

namespace Gopherd

open Go

open Gopherd.Order

section Order

variable {cfg : Config} {excluded : List String}

def Config.without (cfg : Config) (excluded : List String) : Config :=
  { cfg with processes := excludeProcesses excluded cfg.processes }

theorem mem_orderNodes :
    node ∈ cfg.orderNodes ↔
      ∃ p ∈ cfg.processes, node = ⟨p.procName, p.after, p.before, p.requires⟩ := by
  simp [Config.orderNodes, eq_comm]

theorem mem_without_orderNodes :
    node ∈ (cfg.without excluded).orderNodes ↔
      ∃ old ∈ cfg.orderNodes, old.name ∉ excluded ∧
        node = { old with
          after := old.after.filter (· ∉ excluded)
          before := old.before.filter (· ∉ excluded)
          requires := old.requires.filter (· ∉ excluded) } := by
  rw [mem_orderNodes]
  simp only [Config.without, excludeProcesses, List.mem_map, List.mem_filter, decide_eq_true_eq]
  constructor
  · rintro ⟨_, ⟨p, ⟨hp, hkept⟩, rfl⟩, rfl⟩
    exact ⟨_, mem_orderNodes.mpr ⟨p, hp, rfl⟩, hkept, rfl⟩
  · rintro ⟨old, hold, hkept, rfl⟩
    obtain ⟨p, hp, rfl⟩ := mem_orderNodes.mp hold
    exact ⟨_, ⟨p, ⟨hp, hkept⟩, rfl⟩, rfl⟩

theorem without_orderNodes_names :
    (cfg.without excluded).orderNodes.map Node.name =
      (cfg.orderNodes.map Node.name).filter (· ∉ excluded) := by
  simp only [Config.without, excludeProcesses, Config.orderNodes, List.map_map]
  rw [List.filter_map]
  rfl

/-- The edges that are left are those between kept processes. -/
theorem precedes_without (ha : a ∉ excluded) (hb : b ∉ excluded) :
    Precedes (cfg.without excluded).orderNodes a b ↔ Precedes cfg.orderNodes a b := by
  constructor
  · rintro ⟨node, hnode, hedge⟩
    obtain ⟨old, hold, -, rfl⟩ := mem_without_orderNodes.mp hnode
    refine ⟨old, hold, ?_⟩
    simp only [List.mem_filter] at hedge
    tauto
  · rintro ⟨old, hold, hedge⟩
    refine ⟨_, mem_without_orderNodes.mpr ⟨old, hold, ?_, rfl⟩, ?_⟩
    · rcases hedge with ⟨rfl, -⟩ | ⟨rfl, -⟩
      · exact hb
      · exact ha
    · simpa [List.mem_filter, ha, hb] using hedge

theorem precedes_of_without (h : Precedes (cfg.without excluded).orderNodes a b) :
    Precedes cfg.orderNodes a b := by
  have hkept : a ∉ excluded ∧ b ∉ excluded := by
    obtain ⟨node, hnode, hedge⟩ := h
    obtain ⟨old, -, hname, rfl⟩ := mem_without_orderNodes.mp hnode
    simp only [List.mem_filter, decide_eq_true_eq] at hedge
    rcases hedge with ⟨rfl, ⟨-, ha⟩ | ⟨-, ha⟩⟩ | ⟨rfl, -, hb⟩
    · exact ⟨ha, hname⟩
    · exact ⟨ha, hname⟩
    · exact ⟨hname, hb⟩
  exact (precedes_without hkept.1 hkept.2).mp h

theorem not_unknownReference_without (h : ¬ UnknownReference cfg.orderNodes) :
    ¬ UnknownReference (cfg.without excluded).orderNodes := by
  rintro ⟨node, hnode, dep, hdep, hmissing⟩
  obtain ⟨old, hold, -, rfl⟩ := mem_without_orderNodes.mp hnode
  have hfilter : dep ∈ old.after ++ old.before ++ old.requires ∧ dep ∉ excluded := by
    simp only [List.mem_append, List.mem_filter, decide_eq_true_eq] at hdep ⊢
    tauto
  refine h ⟨old, hold, dep, hfilter.1, fun hname => hmissing ?_⟩
  rw [without_orderNodes_names]
  exact List.mem_filter.mpr ⟨hname, by simpa using hfilter.2⟩

/-- What is left of processes that can be sorted can be sorted: every reference
is to a process that is there, the order has exactly the kept processes, each once,
and the edges between them still hold. -/
theorem exclusion_keeps_order {sorted : List String} (hsort : topoSort cfg.orderNodes = .ok sorted)
    (excluded : List String) :
    ∃ sorted', topoSort (cfg.without excluded).orderNodes = .ok sorted' ∧
      ¬ UnknownReference (cfg.without excluded).orderNodes ∧
      sorted'.Nodup ∧ (∀ name, name ∈ sorted' ↔ name ∈ sorted ∧ name ∉ excluded) ∧
      ∀ a b, a ∉ excluded → b ∉ excluded → Precedes cfg.orderNodes a b →
        ∀ before after, sorted' = before ++ b :: after → a ∈ before := by
  obtain ⟨⟨hnodup, hknown⟩, hacyclic⟩ := topoSort_isOk.mp ⟨sorted, hsort⟩
  have hknown' : ¬ UnknownReference (cfg.without excluded).orderNodes :=
    not_unknownReference_without hknown
  have hacyclic' : ¬ Cyclic (cfg.without excluded).orderNodes := by
    rintro ⟨name, hcycle⟩
    exact hacyclic ⟨name, Relation.TransGen.mono (fun _ _ h => precedes_of_without h) _ _ hcycle⟩
  have hnodup' : ((cfg.without excluded).orderNodes.map Node.name).Nodup := by
    rw [without_orderNodes_names]
    exact hnodup.filter _
  obtain ⟨sorted', hsort'⟩ := topoSort_isOk.mpr ⟨⟨hnodup', hknown'⟩, hacyclic'⟩
  have hkept := topoSort_sortOf hsort'
  refine ⟨sorted', hsort', hknown', hkept.nodup, ?_, ?_⟩
  · intro name
    rw [hkept.perm.mem_iff, without_orderNodes_names, List.mem_filter,
      (topoSort_sortOf hsort).perm.mem_iff, decide_eq_true_eq]
  · intro a b ha hb hedge before after heq
    exact hkept.ordered before b after heq a (.single ((precedes_without ha hb).mpr hedge))

end Order

def cachedConfig : Config where
  processes := [
    { Process.empty with name := "db", command := "/bin/db" },
    { Process.empty with name := "cache", command := "/bin/cache", after := ["db"] },
    { Process.empty with
      name := "web", command := "/bin/web", after := ["cache"], requires := ["db"] }]
  checks := ∅
  shutdownOrder := .unset
  initStopSignal := []
  globalPrefix := ""
  subreaper := false

/-- Without the cache, `web` still comes after `db`. -/
theorem web_after_db_without_cache :
    topoSort cachedConfig.orderNodes = .ok ["db", "cache", "web"] ∧
    ∃ sorted, topoSort (cachedConfig.without ["cache"]).orderNodes = .ok sorted ∧
      ¬ UnknownReference (cachedConfig.without ["cache"]).orderNodes ∧
      sorted.Nodup ∧
      (∀ name, name ∈ sorted ↔ name ∈ ["db", "cache", "web"] ∧ name ∉ ["cache"]) ∧
      ∀ a b, a ∉ ["cache"] → b ∉ ["cache"] → Precedes cachedConfig.orderNodes a b →
        ∀ before after, sorted = before ++ b :: after → a ∈ before := by
  have hsort : topoSort cachedConfig.orderNodes = .ok ["db", "cache", "web"] := by
    decide +kernel
  exact ⟨hsort, exclusion_keeps_order hsort ["cache"]⟩

end Gopherd
