import Gopherd.Go.Strings

namespace Gopherd.Go

structure Token (s : String) : Prop where
  ne : s ≠ ""
  noSpace : ∀ c ∈ s.toList, isSpace c = false

/-- Whether a text is free of white space can be evaluated. -/
theorem noSpace_of_any {s : List Char} (h : s.any isSpace = false) :
    ∀ c ∈ s, isSpace c = false := by
  intro c hc
  exact Bool.eq_false_of_not_eq_true (List.any_eq_false.mp h c hc)

def fieldsOf (s : List Char) : List (List Char) :=
  (splitAtChar isSpace s).filter (· ≠ [])

theorem splitAtChar_ne_nil (sep : Char → Bool) (s : List Char) : splitAtChar sep s ≠ [] := by
  cases s with
  | nil => simp [splitAtChar]
  | cons c s =>
    rw [splitAtChar]
    split
    · simp
    · split <;> simp

/-- The pieces up to and after a separator. -/
theorem splitAtChar_append {sep : Char → Bool} {c : Char} (hc : sep c = true)
    (s t : List Char) :
    splitAtChar sep (s ++ c :: t) = splitAtChar sep s ++ splitAtChar sep t := by
  induction s with
  | nil => simp [splitAtChar, hc]
  | cons d s ih =>
    rw [List.cons_append, splitAtChar, splitAtChar, ih]
    split
    · rfl
    · obtain ⟨piece, pieces, hpieces⟩ := List.exists_cons_of_ne_nil (splitAtChar_ne_nil sep s)
      rw [hpieces]
      rfl

theorem splitAtChar_word {sep : Char → Bool} (hword : ∀ c ∈ word, sep c = false) :
    splitAtChar sep word = [word] := by
  induction word with
  | nil => rfl
  | cons d word ih =>
    rw [List.forall_mem_cons] at hword
    rw [splitAtChar, hword.1, ih hword.2]
    rfl

/-- Pieces without the separator, joined with it, come apart again. -/
theorem splitAtChar_intercalate {sep : Char → Bool} {c : Char} (hc : sep c = true)
    {pieces : List (List Char)} (hne : pieces ≠ [])
    (hpieces : ∀ piece ∈ pieces, ∀ d ∈ piece, sep d = false) :
    splitAtChar sep ([c].intercalate pieces) = pieces := by
  induction pieces with
  | nil => exact absurd rfl hne
  | cons piece rest ih =>
    rw [List.forall_mem_cons] at hpieces
    cases rest with
    | nil =>
      rw [List.intercalate_singleton]
      exact splitAtChar_word hpieces.1
    | cons next rest =>
      rw [List.intercalate_cons_cons, List.append_assoc, List.singleton_append,
        splitAtChar_append hc, splitAtChar_word hpieces.1, ih (by simp) hpieces.2]
      rfl

theorem fieldsOf_append (hc : isSpace c = true) (s t : List Char) :
    fieldsOf (s ++ c :: t) = fieldsOf s ++ fieldsOf t := by
  rw [fieldsOf, splitAtChar_append hc, List.filter_append]
  rfl

theorem fieldsOf_space (hc : isSpace c = true) (s : List Char) : fieldsOf (c :: s) = fieldsOf s :=
  fieldsOf_append hc [] s

theorem fieldsOf_concat (hc : isSpace c = true) (s : List Char) :
    fieldsOf (s ++ [c]) = fieldsOf s := by
  rw [fieldsOf_append hc]
  exact List.append_nil _

theorem fieldsOf_word (hne : word ≠ []) (hword : ∀ c ∈ word, isSpace c = false) :
    fieldsOf word = [word] := by
  simp [fieldsOf, splitAtChar_word hword, hne]

theorem fieldsOf_dropWhile (s : List Char) : fieldsOf (s.dropWhile isSpace) = fieldsOf s := by
  induction s with
  | nil => rfl
  | cons c s ih =>
    rw [List.dropWhile_cons]
    split
    · rename_i hc
      rw [ih, fieldsOf_space hc]
    · rfl

theorem fieldsOf_reverse_dropWhile (s : List Char) :
    fieldsOf (s.dropWhile isSpace).reverse = fieldsOf s.reverse := by
  induction s with
  | nil => rfl
  | cons c s ih =>
    rw [List.dropWhile_cons]
    split
    · rename_i hc
      rw [ih, List.reverse_cons, fieldsOf_concat hc]
    · rfl

theorem fields_eq (s : String) : fields s = (fieldsOf s.toList).map String.ofList := rfl

/-- White space at the ends does not matter. -/
theorem fields_trimSpace (s : String) : fields (trimSpace s) = fields s := by
  rw [fields_eq, fields_eq, trimSpace, String.toList_ofList, fieldsOf_reverse_dropWhile,
    List.reverse_reverse, fieldsOf_dropWhile]

theorem Token.toList_ne (h : Token s) : s.toList ≠ [] := by
  intro hnil
  exact h.ne (String.toList_inj.mp hnil)

theorem Token.fields (h : Token s) : fields s = [s] := by
  rw [fields_eq, fieldsOf_word h.toList_ne h.noSpace]
  simp

/-- Two texts joined with a space. -/
theorem fields_append (s t : String) : fields (s ++ " " ++ t) = fields s ++ fields t := by
  have hspace : isSpace ' ' = true := by decide
  rw [fields_eq, fields_eq, fields_eq, String.toList_append, String.toList_append,
    List.append_assoc, show " ".toList ++ t.toList = ' ' :: t.toList from rfl,
    fieldsOf_append hspace, List.map_append]

theorem splitAtChar_noSep {sep : Char → Bool} (s : List Char) :
    ∀ piece ∈ splitAtChar sep s, ∀ c ∈ piece, sep c = false := by
  induction s with
  | nil => simp [splitAtChar]
  | cons d s ih =>
    rw [splitAtChar]
    split
    · simpa using ih
    · rename_i hd
      obtain ⟨piece, pieces, hpieces⟩ :=
        List.exists_cons_of_ne_nil (splitAtChar_ne_nil sep s)
      rw [hpieces, List.forall_mem_cons] at ih
      rw [hpieces]
      simp only [List.forall_mem_cons]
      exact ⟨⟨by simpa using hd, ih.1⟩, ih.2⟩

/-- Every field is a token. -/
theorem token_of_mem_fields (h : field ∈ fields s) : Token field := by
  rw [fields_eq] at h
  obtain ⟨piece, hpiece, rfl⟩ := List.mem_map.mp h
  obtain ⟨hsplit, hne⟩ := List.mem_filter.mp hpiece
  constructor
  · intro hempty
    have hnil := congrArg String.toList hempty
    rw [String.toList_ofList] at hnil
    exact absurd hnil (by simpa using hne)
  · rw [String.toList_ofList]
    exact splitAtChar_noSep _ piece hsplit

/-- Only white space has no fields. -/
theorem trimSpace_ne_empty (h : fields s ≠ []) : trimSpace s ≠ "" := by
  intro hempty
  rw [← fields_trimSpace, hempty] at h
  exact h rfl

section

variable {s a b : String} {sep : Char}

theorem ne_sep_of_notMem {text : List Char} (h : sep ∉ text) :
    ∀ c ∈ text, decide (c ≠ sep) = true := by
  intro c hc
  simp only [decide_eq_true_eq]
  rintro rfl
  exact h hc

theorem cut_eq_found_iff :
    cut s sep = (a, b, true) ↔ s.toList = a.toList ++ sep :: b.toList ∧ sep ∉ a.toList := by
  unfold cut
  constructor
  · intro h
    have hsplit := List.takeWhile_append_dropWhile (p := fun c => decide (c ≠ sep)) (l := s.toList)
    have hbefore := List.all_eq_true.mp
      (List.all_takeWhile (p := fun c => decide (c ≠ sep)) (l := s.toList))
    split at h
    · cases h
    · next c after hdrop =>
        cases h
        have hc : c = sep := by
          have hhead := List.head?_dropWhile_not (fun c => decide (c ≠ sep)) s.toList
          rw [hdrop] at hhead
          simpa using hhead
        rw [hdrop, hc] at hsplit
        refine ⟨by simpa using hsplit.symm, fun hmem => ?_⟩
        have hne := hbefore sep (by simpa using hmem)
        simp at hne
  · rintro ⟨hs, hsep⟩
    rw [hs, List.dropWhile_append_of_pos (ne_sep_of_notMem hsep),
      List.takeWhile_append_of_pos (ne_sep_of_notMem hsep)]
    simp

theorem exists_cut_of_mem (h : sep ∈ s.toList) : ∃ a b, cut s sep = (a, b, true) := by
  obtain ⟨before, after, hsplit, hbefore⟩ := List.eq_append_cons_of_mem h
  exact ⟨String.ofList before, String.ofList after,
    cut_eq_found_iff.mpr ⟨by simpa using hsplit, by simpa using hbefore⟩⟩

theorem cut_of_notMem (h : sep ∉ s.toList) : cut s sep = (s, "", false) := by
  have hdrop : s.toList.dropWhile (fun c => decide (c ≠ sep)) = [] := by
    rw [← List.append_nil s.toList, List.dropWhile_append_of_pos (ne_sep_of_notMem h)]
    rfl
  simp only [cut, hdrop]

end

end Gopherd.Go
