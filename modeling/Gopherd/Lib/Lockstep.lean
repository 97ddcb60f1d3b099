import Gopherd.Lib.Except
import Mathlib.Data.List.Forall2

namespace Gopherd.Lockstep

variable {α β γ ε : Type} {R : α → β → Prop}

variable {l items : List α} {l' : List β} {f : α → Except ε β}

theorem exists_left (h : List.Forall₂ R l l') (hb : b ∈ l') : ∃ a ∈ l, R a b := by
  induction h with
  | nil => cases hb
  | cons hab _ ih =>
    rcases List.mem_cons.mp hb with rfl | hb
    · exact ⟨_, List.mem_cons_self, hab⟩
    · obtain ⟨a, ha, hR⟩ := ih hb
      exact ⟨a, List.mem_cons_of_mem _ ha, hR⟩

theorem exists_right (h : List.Forall₂ R l l') (ha : a ∈ l) : ∃ b ∈ l', R a b :=
  exists_left h.flip ha

theorem concat_left (h : List.Forall₂ R (l ++ [a]) l') :
    ∃ front b, List.Forall₂ R l front ∧ R a b ∧ l' = front ++ [b] := by
  have hreverse : List.Forall₂ R (a :: l.reverse) l'.reverse := by
    rw [← List.reverse_concat', List.forall₂_reverse_iff]
    exact h
  obtain ⟨b, rest, hab, hrest, heq⟩ := List.forall₂_cons_left_iff.mp hreverse
  refine ⟨rest.reverse, b, ?_, hab, ?_⟩
  · rw [← List.forall₂_reverse_iff, List.reverse_reverse]
    exact hrest
  · rw [← List.reverse_reverse l', heq, List.reverse_cons]

/-- Filters that keep the same positions. -/
theorem filter_iff {p : α → Bool} {q : β → Bool} (h : List.Forall₂ (fun a b => p a = q b) l l') :
    List.Forall₂ R (l.filter p) (l'.filter q) ↔
      List.Forall₂ (fun a b => p a = true → R a b) l l' := by
  induction h with
  | nil => simp
  | @cons a b l l' hab _ ih =>
    rw [List.forall₂_cons, ← ih, List.filter_cons, List.filter_cons, ← hab]
    cases hp : p a with
    | false => simp
    | true => simp

/-- What two passes over one list make of each element. -/
theorem mapM_iff {g : α → Except ε γ} {T : β → γ → Prop} {l : List β} {l' : List γ}
    (hf : items.mapM f = .ok l) (hg : items.mapM g = .ok l') :
    List.Forall₂ T l l' ↔ ∀ a ∈ items, ∀ b c, f a = .ok b → g a = .ok c → T b c := by
  rw [Except.mapM_eq_ok] at hf hg
  induction hf generalizing l' with
  | nil =>
    cases hg
    simp
  | @cons a b items l hb _ ih =>
    cases hg with
    | @cons _ c _ l' hc hrest =>
      rw [List.forall₂_cons, ih hrest, List.forall_mem_cons]
      refine and_congr_left fun _ => ?_
      constructor
      · intro hT b' c' hb' hc'
        cases hb.symm.trans hb'
        cases hc.symm.trans hc'
        exact hT
      · intro hT
        exact hT b c hb hc

/-- A pass succeeds when another one does that succeeds on the same elements. -/
theorem mapM_ok {g : α → Except ε γ} {l : List β} (hf : items.mapM f = .ok l)
    (hstep : ∀ a ∈ items, ∀ b, f a = .ok b → ∃ c, g a = .ok c) :
    ∃ l', items.mapM g = .ok l' := by
  simp only [Except.mapM_eq_ok] at hf ⊢
  induction hf with
  | nil => exact ⟨[], .nil⟩
  | @cons a b items l hb _ ih =>
    obtain ⟨c, hc⟩ := hstep a List.mem_cons_self b hb
    obtain ⟨l', hrest⟩ := ih fun other hother => hstep other (List.mem_cons_of_mem _ hother)
    exact ⟨c :: l', .cons hc hrest⟩

/-- A pass over one list, and another one over a list that is related to it. -/
theorem mapM_related {δ : Type} {g : γ → Except ε δ} {S : α → γ → Prop} {T : β → δ → Prop}
    {l : List β} (hitems : List.Forall₂ S items items') (hf : items.mapM f = .ok l)
    (hstep : ∀ a c b, S a c → f a = .ok b → ∃ d, g c = .ok d ∧ T b d) :
    ∃ l', items'.mapM g = .ok l' ∧ List.Forall₂ T l l' := by
  simp only [Except.mapM_eq_ok] at hf ⊢
  induction hitems generalizing l with
  | nil =>
    cases hf
    exact ⟨[], .nil, .nil⟩
  | @cons a c items items' hac _ ih =>
    cases hf with
    | @cons _ b _ l hb hrest =>
      obtain ⟨d, hd, hT⟩ := hstep a c b hac hb
      obtain ⟨l', hrest', hTs⟩ := ih hrest
      exact ⟨d :: l', .cons hd hrest', .cons hT hTs⟩

theorem zipIdx (h : List.Forall₂ R l l') (start : Nat) :
    List.Forall₂ (fun a b => R a.1 b.1 ∧ a.2 = b.2) (l.zipIdx start) (l'.zipIdx start) := by
  induction h generalizing start with
  | nil => exact .nil
  | cons hab _ ih => exact .cons ⟨hab, rfl⟩ (ih (start + 1))

/-- The first elements that satisfy a test, and the others. -/
theorem span {p : α → Bool} {q : β → Bool} (hsame : ∀ a b, R a b → p a = q b)
    (h : List.Forall₂ R l l') :
    List.Forall₂ R (l.takeWhile p) (l'.takeWhile q) ∧
      List.Forall₂ R (l.dropWhile p) (l'.dropWhile q) := by
  induction h with
  | nil => exact ⟨.nil, .nil⟩
  | @cons a b l l' hab hrest ih =>
    cases hp : p a with
    | true =>
      have hq : q b = true := (hsame a b hab).symm.trans hp
      simp only [List.takeWhile_cons, List.dropWhile_cons, hp, hq, if_true]
      exact ⟨.cons hab ih.1, ih.2⟩
    | false =>
      have hq : q b = false := (hsame a b hab).symm.trans hp
      simp only [List.takeWhile_cons, List.dropWhile_cons, hp, hq, Bool.false_eq_true, if_false]
      exact ⟨.nil, .cons hab hrest⟩

/-- A property of the elements of a pass, read off the list it went over. -/
theorem map_mapM {u : β → γ} {v : α → γ} {l : List β} (hf : items.mapM f = .ok l)
    (hstep : ∀ a b, f a = .ok b → u b = v a) :
    l.map u = items.map v := by
  rw [Except.mapM_eq_ok] at hf
  induction hf with
  | nil => rfl
  | @cons a b items l hb _ ih => rw [List.map_cons, List.map_cons, hstep a b hb, ih]

end Gopherd.Lockstep
