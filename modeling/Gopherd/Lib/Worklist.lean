import Mathlib.Tactic

/-!
The search for everything that can be reached from a root, with a list of what
was found and a list of what is left to expand. How an element is expanded may
differ from scan to scan, in the order in which its successors are added.
-/

namespace Gopherd.Worklist

variable {α : Type} {R : α → α → Prop} {root : α} {frontier closure : List α}

/-- The search, as far as the fuel lasts; `scan` counts the expansions. -/
def search (expand : Nat → α → List α → List α → List α × List α) :
    Nat → Nat → List α → List α → Option (List α)
  | _, _, [], closure => some closure
  | 0, _, _ :: _, _ => none
  | fuel + 1, scan, cur :: frontier, closure =>
      let found := expand scan cur closure frontier
      search expand fuel (scan + 1) found.2 found.1

structure New (R : α → α → Prop) (root cur : α) (closure new : List α) : Prop where
  nodup : new.Nodup
  mem : ∀ a, a ∈ new ↔ R cur a ∧ a ∉ closure ∧ a ≠ root

structure Searching (R : α → α → Prop) (root : α) (frontier closure : List α) : Prop where
  nodup : closure.Nodup
  reached : ∀ a ∈ closure, a ≠ root ∧ Relation.TransGen R root a
  waiting : ∀ a ∈ frontier, a = root ∨ a ∈ closure
  expanded : ∀ a, a = root ∨ a ∈ closure → a ∉ frontier → ∀ b, R a b → b = root ∨ b ∈ closure

namespace Searching

theorem start (R : α → α → Prop) (root : α) : Searching R root [root] [] := by
  constructor <;> simp

theorem expand {cur : α} (h : Searching R root (cur :: frontier) closure) {new : List α}
    (hnew : New R root cur closure new) :
    Searching R root (frontier ++ new) (closure ++ new) where
  nodup := h.nodup.append hnew.nodup fun a hold ha => ((hnew.mem a).mp ha).2.1 hold
  reached a ha := by
    rcases List.mem_append.mp ha with hold | ha
    · exact h.reached a hold
    · obtain ⟨hstep, -, hroot⟩ := (hnew.mem a).mp ha
      rcases h.waiting cur List.mem_cons_self with rfl | hcur
      · exact ⟨hroot, .single hstep⟩
      · exact ⟨hroot, (h.reached cur hcur).2.tail hstep⟩
  waiting a ha := by
    have hwaiting := h.waiting a
    grind
  expanded a ha hleft b hstep := by
    have hmem := hnew.mem b
    have hexpanded := h.expanded a
    grind

/-- When nothing is left to expand, everything reachable has been found. -/
theorem mem_iff (h : Searching R root [] closure) (b : α) :
    b ∈ closure ↔ b ≠ root ∧ Relation.TransGen R root b := by
  refine ⟨h.reached b, ?_⟩
  rintro ⟨hroot, hpath⟩
  have hall : b = root ∨ b ∈ closure := by
    induction hpath with
    | single hstep => exact h.expanded root (.inl rfl) List.not_mem_nil _ hstep
    | @tail mid _ hpath hstep ih =>
        by_cases hmid : mid = root
        · exact h.expanded mid (.inl hmid) List.not_mem_nil _ hstep
        · exact h.expanded mid (ih hmid) List.not_mem_nil _ hstep
  exact hall.resolve_left hroot

/-- Everything that was found is a successor, so there is a bound on it. -/
theorem length_le (h : Searching R root frontier closure) {all : List α}
    (hall : ∀ a b, R a b → b ∈ all) : closure.length ≤ all.length := by
  refine (h.nodup.subperm fun a ha => ?_).length_le
  obtain ⟨b, -, hstep⟩ := Relation.TransGen.tail'_iff.mp (h.reached a ha).2
  exact hall b a hstep

end Searching

/-- No element is expanded twice, so with fuel for every successor the search ends;
it finds what can be reached. -/
theorem search_exact {expand : Nat → α → List α → List α → List α × List α} {all : List α}
    (hexpand : ∀ scan cur closure frontier, ∃ new, New R root cur closure new ∧
      expand scan cur closure frontier = (closure ++ new, frontier ++ new))
    (hall : ∀ a b, R a b → b ∈ all) {fuel scan : Nat}
    (h : Searching R root frontier closure)
    (hfuel : all.length + frontier.length ≤ fuel + closure.length) :
    ∃ found, search expand fuel scan frontier closure = some found ∧
      ∀ b, b ∈ found ↔ b ≠ root ∧ Relation.TransGen R root b := by
  induction fuel generalizing scan frontier closure with
  | zero =>
      have hlength := h.length_le hall
      obtain rfl : frontier = [] := List.length_eq_zero_iff.mp (by omega)
      exact ⟨closure, by rw [search], h.mem_iff⟩
  | succ fuel ih =>
      cases frontier with
      | nil => exact ⟨closure, by rw [search], h.mem_iff⟩
      | cons cur frontier =>
          obtain ⟨new, hnew, hscan⟩ := hexpand scan cur closure frontier
          rw [search, hscan]
          refine ih (h.expand hnew) ?_
          simp only [List.length_cons, List.length_append] at hfuel ⊢
          omega

end Gopherd.Worklist
