import Mathlib.Data.List.Perm.Basic

namespace Gopherd.Perm

variable {α β : Type}

theorem exists_cons (h : a ∈ l) : ∃ rest, (a :: rest).Perm l := by
  obtain ⟨before, after, rfl⟩ := List.append_of_mem h
  exact ⟨before ++ after, List.perm_middle.symm⟩

theorem exists_concat (h : a ∈ l) : ∃ rest, (rest ++ [a]).Perm l := by
  obtain ⟨rest, hperm⟩ := exists_cons h
  exact ⟨rest, (List.perm_append_singleton a rest).trans hperm⟩

/-- The image of the first element, when all elements have one image. -/
theorem head?_map {l l' : List α} {f : α → β} (hperm : l'.Perm l)
    (hagree : ∀ a ∈ l, ∀ b ∈ l, f a = f b) : l'.head?.map f = l.head?.map f := by
  cases l with
  | nil => rw [hperm.eq_nil]
  | cons a rest =>
    obtain ⟨b, rest', rfl⟩ : ∃ b rest', l' = b :: rest' := by
      cases l' with
      | nil => exact absurd hperm.symm.eq_nil (List.cons_ne_nil a rest)
      | cons b rest' => exact ⟨b, rest', rfl⟩
    have hb : b ∈ a :: rest := hperm.subset List.mem_cons_self
    exact congrArg some (hagree b hb a List.mem_cons_self)

theorem getLast?_map {l l' : List α} {f : α → β} (hperm : l'.Perm l)
    (hagree : ∀ a ∈ l, ∀ b ∈ l, f a = f b) : l'.getLast?.map f = l.getLast?.map f := by
  have hreverse : l'.reverse.Perm l.reverse :=
    (List.reverse_perm l').trans (hperm.trans (List.reverse_perm l).symm)
  rw [List.getLast?_eq_head?_reverse, List.getLast?_eq_head?_reverse]
  apply head?_map hreverse
  simpa using hagree

theorem getLast?_filter_cons (p : α → Bool) (a : α) (l : List α) :
    ((a :: l).filter p).getLast? =
      (l.filter p).getLast?.or (if p a then some a else none) := by
  by_cases h : p a
  · rw [List.filter_cons_of_pos h, List.getLast?_cons, if_pos h]
    cases (l.filter p).getLast? <;> rfl
  · rw [List.filter_cons_of_neg h, if_neg h, Option.or_none]

theorem head?_filter_cons (p : α → Bool) (a : α) (l : List α) :
    ((a :: l).filter p).head? = (if p a then some a else none).or (l.filter p).head? := by
  by_cases h : p a
  · rw [List.filter_cons_of_pos h, if_pos h]
    rfl
  · rw [List.filter_cons_of_neg h, if_neg h, Option.none_or]

end Gopherd.Perm
