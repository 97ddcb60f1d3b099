import Mathlib.Tactic

/-!
Orders of the vertices of a finite graph in which every vertex comes after its
predecessors. The graph is a list of edges. Where the algorithms that build
such an order get stuck, a cycle is in the way.
-/

namespace Gopherd.Topological

variable {α : Type}

/-- The number of edges into `b` from outside of `done`. -/
def openDegree [DecidableEq α] (edges : List (α × α)) (done : List α) (b : α) : Nat :=
  edges.countP fun edge => edge.2 = b && edge.1 ∉ done

/-- Every element of the list comes after its predecessors. -/
def Ordered (edges : List (α × α)) (order : List α) : Prop :=
  ∀ before b after, order = before ++ b :: after → ∀ a, (a, b) ∈ edges → a ∈ before

inductive PathTo (r : α → α → Prop) : Nat → α → Prop
  | start {b} : PathTo r 0 b
  | step {n a b} (hpath : PathTo r n a) (hedge : r a b) : PathTo r (n + 1) b

/-- The vertex can be reached from one that lies on a cycle. -/
def FromCycle (r : α → α → Prop) (b : α) : Prop :=
  ∃ a, Relation.TransGen r a a ∧ Relation.ReflTransGen r a b

variable {edges : List (α × α)} {done order : List α} {b : α}

theorem openDegree_eq_zero [DecidableEq α] :
    openDegree edges done b = 0 ↔ ∀ a, (a, b) ∈ edges → a ∈ done := by
  rw [openDegree, List.countP_eq_zero]
  constructor
  · intro h a ha
    by_contra hopen
    exact h (a, b) ha (by simp [hopen])
  · rintro h ⟨a, b'⟩ ha hopen
    simp only [Bool.and_eq_true, decide_eq_true_eq] at hopen
    obtain ⟨rfl, hopen⟩ := hopen
    exact hopen (h a ha)

theorem exists_open [DecidableEq α] (h : openDegree edges done b ≠ 0) :
    ∃ a, (a, b) ∈ edges ∧ a ∉ done := by
  by_contra hall
  push Not at hall
  exact h (openDegree_eq_zero.mpr hall)

/-- With one more vertex done, the edges from it are no longer open. -/
theorem openDegree_append_singleton [DecidableEq α] (hnodup : edges.Nodup) (ha : a ∉ done) (b : α) :
    openDegree edges done b =
      openDegree edges (done ++ [a]) b + if (a, b) ∈ edges then 1 else 0 := by
  have hsplit : openDegree edges done b =
      openDegree edges (done ++ [a]) b + edges.count (a, b) := by
    clear hnodup
    induction edges with
    | nil => rfl
    | cons edge rest ih =>
      obtain ⟨x, y⟩ := edge
      simp only [openDegree, List.countP_cons, List.count_cons] at ih ⊢
      rw [ih]
      by_cases hy : y = b
      · by_cases hx : x = a
        · subst hx hy
          simp [ha]
          omega
        · by_cases hdone : x ∈ done
          · simp [hx, hy, hdone]
          · simp [hx, hy, hdone]
            omega
      · simp [hy]
  rw [hsplit, hnodup.count]

theorem Ordered.nil (edges : List (α × α)) : Ordered edges [] := by
  intro before b after h
  simp at h

theorem Ordered.append_singleton (horder : Ordered edges order)
    (hb : ∀ a, (a, b) ∈ edges → a ∈ order) :
    Ordered edges (order ++ [b]) := by
  intro before c after heq a ha
  rcases List.append_eq_append_iff.mp heq with ⟨mid, rfl, hmid⟩ | ⟨mid, rfl, hmid⟩
  · cases mid with
    | nil =>
      obtain ⟨rfl, -⟩ := List.cons.inj hmid
      simpa using hb a ha
    | cons x rest => simp at hmid
  · cases mid with
    | nil =>
      obtain ⟨rfl, -⟩ := List.cons.inj hmid
      simpa using hb a ha
    | cons x rest =>
      obtain ⟨rfl, -⟩ := List.cons.inj hmid
      exact horder before c rest rfl a ha

/-- Elements that only have predecessors in the order can be added in any
order. -/
theorem Ordered.append (horder : Ordered edges order)
    (hlayer : ∀ b ∈ layer, ∀ a, (a, b) ∈ edges → a ∈ order) : Ordered edges (order ++ layer) := by
  induction layer generalizing order with
  | nil => simpa using horder
  | cons b rest ih =>
    rw [List.append_cons]
    refine ih (horder.append_singleton (hlayer b List.mem_cons_self)) ?_
    intro c hc a ha
    exact List.mem_append_left _ (hlayer c (List.mem_cons_of_mem _ hc) a ha)

/-- A vertex from which another one can be reached comes before it. -/
theorem Ordered.mem_before (horder : Ordered edges order)
    (hpath : Relation.TransGen (fun x y => (x, y) ∈ edges) a b)
    (heq : order = before ++ b :: after) : a ∈ before := by
  induction hpath generalizing before after with
  | single hedge => exact horder before _ after heq a hedge
  | tail _ hedge ih =>
    have hmem := horder before _ after heq _ hedge
    obtain ⟨first, second, rfl⟩ := List.append_of_mem hmem
    rw [List.append_assoc, List.cons_append] at heq
    exact List.mem_append_left _ (ih heq)

theorem Ordered.not_fromCycle (horder : Ordered edges order) (hnodup : order.Nodup)
    (hb : b ∈ order) :
    ¬ FromCycle (fun x y => (x, y) ∈ edges) b := by
  rintro ⟨a, hcycle, hpath⟩
  obtain ⟨before, after, heq⟩ := List.append_of_mem hb
  have hloop : Relation.TransGen (fun x y => (x, y) ∈ edges) a b := hcycle.trans_left hpath
  obtain ⟨first, rest, hfirst⟩ := List.append_of_mem (horder.mem_before hloop heq)
  rw [hfirst, List.append_assoc, List.cons_append] at heq
  have hagain := horder.mem_before hcycle heq
  rw [heq, List.nodup_append] at hnodup
  exact hnodup.2.2 a hagain a List.mem_cons_self rfl

/-- When nothing is ready, what is left is what can be reached from a cycle. -/
theorem Ordered.left_iff [DecidableEq α] {vertices : List α} (horder : Ordered edges done)
    (hnodup : done.Nodup) (hknown : ∀ a b, (a, b) ∈ edges → a ∈ vertices)
    (hstuck : ∀ b ∈ vertices, b ∉ done → openDegree edges done b ≠ 0) (hb : b ∈ vertices) :
    b ∉ done ↔ FromCycle (fun x y => (x, y) ∈ edges) b := by
  constructor
  · intro hleft
    by_contra hfree
    -- the vertices left that lead to `b`; reachability among them has no cycle
    let Left := { x // x ∈ vertices ∧ x ∉ done ∧
      Relation.ReflTransGen (fun x y => (x, y) ∈ edges) x b }
    let below : Left → Left → Prop := fun x y =>
      Relation.TransGen (fun x y => (x, y) ∈ edges) x.1 y.1
    have hfinite : Finite Left :=
      ((List.finite_toSet vertices).subset fun x hx => hx.1).to_subtype
    have htrans : IsTrans Left below := ⟨fun _ _ _ => Relation.TransGen.trans⟩
    have hirrefl : Std.Irrefl below := ⟨fun x hloop => hfree ⟨x.1, hloop, x.2.2.2⟩⟩
    obtain ⟨first, -, hmin⟩ := (Finite.wellFounded_of_trans_of_irrefl below).has_min Set.univ
      ⟨⟨b, hb, hleft, .refl⟩, trivial⟩
    obtain ⟨a, hedge, hopen⟩ := exists_open (hstuck first.1 first.2.1 first.2.2.1)
    exact hmin ⟨a, hknown a _ hedge, hopen, .head hedge first.2.2.2⟩ trivial (.single hedge)
  · intro hcycle hdone
    exact horder.not_fromCycle hnodup hdone hcycle

section Layers

variable {r : α → α → Prop} {layers : List (List α)}

/-- When edges only lead to later layers, a path is no longer than the layers
that it can have come through. -/
theorem PathTo.le_index
    (hearlier : ∀ (k : Nat) layer, layers[k]? = some layer → ∀ b ∈ layer, ∀ a, r a b → ∃ j < k, ∃
      earlier, layers[j]? = some earlier ∧ a ∈ earlier) (hpath : PathTo r n b)
    (hlayer : layers[k]? = some layer) (hb : b ∈ layer) : n ≤ k := by
  induction hpath generalizing k layer with
  | start => exact Nat.zero_le k
  | step _ hedge ih =>
    obtain ⟨j, hj, earlier, hearlier, ha⟩ := hearlier k layer hlayer _ hb _ hedge
    have hle := ih hearlier ha
    omega

/-- When each member of a layer has a predecessor in the layer before it, paths
lead through all the layers. -/
theorem PathTo.of_index
    (hlinked : ∀ (k : Nat) layer, layers[k + 1]? = some layer → ∀ b ∈ layer, ∃ earlier, layers[k]?
      = some earlier ∧ ∃ a ∈ earlier, r a b) (hlayer : layers[k]? = some layer) (hb : b ∈ layer) :
    PathTo r k b := by
  induction k generalizing layer b with
  | zero => exact .start
  | succ k ih =>
    obtain ⟨earlier, hearlier, a, ha, hedge⟩ := hlinked k layer hlayer b hb
    exact .step (ih hearlier ha) hedge

end Layers

end Gopherd.Topological
