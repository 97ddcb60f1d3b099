import Gopherd.Daemon.Core
import Gopherd.Lib.Worklist

/-!
The services that a restart takes along: whatever requires the restarted one,
directly or through others.
-/

namespace Gopherd.Daemon

def Requires (services : List Service) (a b : String) : Prop :=
  ∃ svc ∈ services, svc.name = b ∧ a ∈ svc.requires

theorem closureScan_expands (services : List Service) (root cur : String)
    (closure frontier : List String) :
    ∃ new, Worklist.New (Requires services) root cur closure new ∧
      Core.closureScan services root cur closure frontier = (closure ++ new, frontier ++ new) := by
  unfold Core.closureScan
  induction services generalizing closure frontier with
  | nil => exact ⟨[], ⟨.nil, by simp [Requires]⟩, by simp⟩
  | cons svc rest ih =>
      rw [List.foldl_cons]
      by_cases hadd : cur ∈ svc.requires ∧ svc.name ∉ closure ∧ svc.name ≠ root
      · obtain ⟨new, ⟨hnodup, hmem⟩, hscan⟩ := ih (closure ++ [svc.name]) (frontier ++ [svc.name])
        refine ⟨svc.name :: new, ⟨List.nodup_cons.mpr ⟨?_, hnodup⟩, fun a => ?_⟩, ?_⟩
        · intro hname
          exact ((hmem _).mp hname).2.1 (by simp)
        · rw [List.mem_cons, hmem]
          grind [Requires]
        · simpa [hadd] using hscan
      · obtain ⟨new, ⟨hnodup, hmem⟩, hscan⟩ := ih closure frontier
        refine ⟨new, ⟨hnodup, fun a => ?_⟩, ?_⟩
        · rw [hmem]
          grind [Requires]
        · rw [if_neg (by simpa [and_assoc] using hadd)]
          exact hscan

def closureOver (orders : Nat → List Service) (root : String) (fuel : Nat) :
    Option (List String) :=
  Worklist.search (fun scan => Core.closureScan (orders scan) root) fuel 0 [root] []

theorem closureOver_ends {services : List Service} {orders : Nat → List Service}
    (horders : ∀ scan, (orders scan).Perm services) (root : String) :
    ∃ closure, closureOver orders root (services.length + 1) = some closure ∧
      ∀ name, name ∈ closure ↔ name ≠ root ∧ Relation.TransGen (Requires services) root name := by
  have hsame : ∀ scan, Requires (orders scan) = Requires services := by
    intro scan
    funext a b
    simp only [Requires, (horders scan).mem_iff]
  have hall : ∀ a b, Requires services a b → b ∈ services.map Service.name := by
    rintro a b ⟨svc, hsvc, rfl, -⟩
    exact List.mem_map_of_mem hsvc
  refine Worklist.search_exact (fun scan cur closure frontier => ?_) hall (.start _ root) (by simp)
  rw [← hsame scan]
  exact closureScan_expands _ root cur closure frontier

/-- The loop with one order, as far as it ends. -/
theorem closureLoop_of_search {services : List Service} {root : String} {fuel scan : Nat}
    {frontier closure found : List String}
    (h : Worklist.search (fun _ => Core.closureScan services root) fuel scan frontier closure =
      some found) : Core.closureLoop services root fuel frontier closure = found := by
  induction fuel generalizing scan frontier closure with
  | zero =>
      cases frontier with
      | nil => exact Option.some.inj h
      | cons => cases h
  | succ fuel ih =>
      cases frontier with
      | nil => exact Option.some.inj h
      | cons cur frontier => exact ih h

/-- However the requirements are tangled, cycles included, and in whatever order the
map is ranged over, the loop ends with the services other than the root that require
it, directly or through others; a restart takes along those of them that run. -/
theorem dependents_exact (c : Core) (startOrder : List String) (root : String) :
    let services := c.services.entries.map fun entry => c.heap entry.2
    (∀ orders : Nat → { order : List Service // order.Perm services },
      ∃ closure, closureOver (fun scan => (orders scan).1) root (services.length + 1) =
          some closure ∧
        ∀ name, name ∈ closure ↔
          name ≠ root ∧ Relation.TransGen (Requires services) root name) ∧
    ∀ i, i ∈ c.runningDependents startOrder root ↔
      ∃ name ∈ startOrder, name ≠ root ∧ Relation.TransGen (Requires services) root name ∧
        c.services.lookup name = some i ∧ c.isRunning i := by
  intro services
  refine ⟨fun orders => closureOver_ends (fun scan => (orders scan).2) root, fun i => ?_⟩
  obtain ⟨closure, hends, hmem⟩ := closureOver_ends (fun _ => List.Perm.refl services) root
  have hclosure : Core.dependentClosure services root = closure := closureLoop_of_search hends
  simp only [Core.runningDependents, services, ← hclosure] at hmem ⊢
  simp [hmem, Option.filter_eq_some_iff, and_assoc]

end Gopherd.Daemon
