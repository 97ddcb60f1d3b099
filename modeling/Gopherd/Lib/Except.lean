import Mathlib.Tactic

namespace Gopherd.Except

variable {ε α β : Type}

variable {x : Except ε α} {f : α → Except ε β} {a : α}

theorem bind_eq_ok : (x >>= f) = .ok b ↔ ∃ a, x = .ok a ∧ f a = .ok b := by
  cases x with
  | error e => simp [bind, Except.bind]
  | ok a => simp [bind, Except.bind]

theorem pure_eq_ok : (pure a : Except ε α) = .ok b ↔ a = b := by
  simp [pure, Except.pure]

theorem toOption_eq_some : x.toOption = some a ↔ x = .ok a := by
  cases x <;> simp [Except.toOption]

theorem mapError_eq_ok {ε' : Type} {f : ε → ε'} :
    x.mapError f = .ok a ↔ x = .ok a := by
  cases x <;> simp [Except.mapError]

theorem forM_eq_ok {f : α → Except ε Unit} {items : List α} :
    items.forM f = .ok () ↔ ∀ item ∈ items, f item = .ok () := by
  induction items with
  | nil => simp [pure, Except.pure]
  | cons item rest ih =>
    rw [List.forM_eq_forM, List.forM_cons, bind_eq_ok]
    rw [List.forM_eq_forM] at ih
    constructor
    · rintro ⟨⟨⟩, hitem, hrest⟩ other hother
      rcases List.mem_cons.mp hother with rfl | hother
      · exact hitem
      · exact ih.mp hrest other hother
    · intro hall
      exact ⟨⟨⟩, hall item List.mem_cons_self,
        ih.mpr (fun other hother => hall other (List.mem_cons_of_mem _ hother))⟩

theorem mapM_eq_ok :
    list.mapM f = .ok results ↔ List.Forall₂ (fun a b => f a = .ok b) list results := by
  induction list generalizing results with
  | nil => rw [List.mapM_nil, pure_eq_ok, List.forall₂_nil_left_iff, eq_comm]
  | cons a rest ih =>
    rw [List.mapM_cons, bind_eq_ok]
    constructor
    · rintro ⟨b, hfirst, htail⟩
      obtain ⟨bs, hrest, hpure⟩ := bind_eq_ok.mp htail
      obtain rfl := pure_eq_ok.mp hpure
      exact .cons hfirst (ih.mp hrest)
    · intro h
      cases h with
      | cons hfirst hrest =>
        exact ⟨_, hfirst, bind_eq_ok.mpr ⟨_, ih.mpr hrest, rfl⟩⟩

theorem bind_eq_error :
    x >>= f = .error error ↔
      x = .error error ∨ ∃ value, x = .ok value ∧ f value = .error error := by
  cases x <;> simp [bind, Except.bind]

/-- What holds of the errors of one pass holds of those of the loop. -/
theorem foldlM_error {f : β → α → Except ε β} (holds : ε → Prop)
    (hstep : ∀ state a error, f state a = .error error → holds error) {list : List α}
    (h : list.foldlM f state = .error error) : holds error := by
  induction list generalizing state with
  | nil => cases h
  | cons a rest ih =>
    rw [List.foldlM_cons] at h
    rcases bind_eq_error.mp h with hfirst | ⟨next, -, hrest⟩
    · exact hstep state a error hfirst
    · exact ih hrest

end Gopherd.Except
