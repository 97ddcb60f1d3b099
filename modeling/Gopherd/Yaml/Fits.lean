import Gopherd.Yaml.Accepted

namespace Gopherd.Yaml

open Go

inductive Fits : Nat → Node Bytes → Prop
  | scalar {left : Nat} {text : Bytes} : Fits left (.scalar text)
  | texts {left : Nat} {texts : List Bytes} : Fits left (.sequence (texts.map .scalar))
  | empty {left : Nat} : Fits left (.mapping [])
  | mapping {left : Nat} {entries : List (Bytes × Node Bytes)}
      (hkeys : (entries.map Prod.fst).Nodup) (hvals : ∀ entry ∈ entries, Fits left entry.2) :
      Fits (left + 1) (.mapping entries)
  | sequence {left : Nat} {items : List (Node Bytes)} (hitems : ∀ item ∈ items, Fits left item) :
      Fits (left + 1) (.sequence items)

theorem parseInlineEntries_spec {value : Bytes → Except ScalarError (Node Bytes)}
    (holds : Node Bytes → Prop) (hvalue : ∀ text val, value text = .ok val → holds val)
    (h : parseInlineEntries value seen parts = .ok entries) :
    (entries.map Prod.fst).Nodup ∧ (∀ entry ∈ entries, entry.1 ∉ seen) ∧
      ∀ entry ∈ entries, holds entry.2 := by
  induction parts generalizing seen entries with
  | nil =>
    cases h
    simp
  | cons part parts ih =>
    rw [parseInlineEntries] at h
    simp only at h
    split_ifs at h with hempty
    · exact ih h
    · split at h
      · cases h
      · rename_i i hcolon
        split_ifs at h with hseen
        obtain ⟨val, hval, h⟩ := Except.bind_eq_ok.mp h
        obtain ⟨rest, hrest, h⟩ := Except.bind_eq_ok.mp h
        cases h
        obtain ⟨hnodup, hfresh, hholds⟩ := ih hrest
        refine ⟨?_, ?_, ?_⟩
        · rw [List.map_cons, List.nodup_cons]
          refine ⟨?_, hnodup⟩
          intro hmem
          obtain ⟨entry, hentry, heq⟩ := List.mem_map.mp hmem
          exact hfresh entry hentry (by simp [heq])
        · rw [List.forall_mem_cons]
          exact ⟨hseen, fun entry hentry hmem => hfresh entry hentry (by simp [hmem])⟩
        · rw [List.forall_mem_cons]
          exact ⟨hvalue _ _ hval, hholds⟩

theorem parseScalar_fits (h : parseScalar (left + 1) text = .ok node) : Fits left node := by
  induction left generalizing text node with
  | zero =>
    rw [parseScalar] at h
    split_ifs at h with hlist hmap
    · cases h
      rw [← Function.comp_def, ← List.map_map]
      exact .texts
    · obtain ⟨entries, hentries, h⟩ := Except.bind_eq_ok.mp h
      cases h
      -- No level is left for a value, so the map has none.
      obtain ⟨-, -, hvals⟩ := parseInlineEntries_spec (fun _ => False)
        (fun text val hval => by cases hval) hentries
      obtain rfl := List.eq_nil_iff_forall_not_mem.mpr hvals
      exact .empty
    · cases h
      exact .scalar
  | succ left ih =>
    rw [parseScalar] at h
    split_ifs at h with hlist hmap
    · cases h
      rw [← Function.comp_def, ← List.map_map]
      exact .texts
    · obtain ⟨entries, hentries, h⟩ := Except.bind_eq_ok.mp h
      cases h
      obtain ⟨hkeys, -, hvals⟩ := parseInlineEntries_spec (Fits left)
        (fun text val hval => ih hval) hentries
      exact .mapping hkeys hvals
    · cases h
      exact .scalar

section Block

variable {block : BlockParser} {left : Nat}

theorem ValueRead.fits
    (hblock : ∀ {lines minIndent node rest}, block lines minIndent = .ok (node, rest) → Fits left
      node) (h : ValueRead block (left + 1) line value rest val lines) : Fits left val := by
  cases h with
  | literal => exact .scalar
  | inline _ _ hval => exact parseScalar_fits hval
  | absent => exact .scalar
  | child _ _ _ _ hval => exact hblock hval

theorem EntriesRead.fits
    (hblock : ∀ {lines minIndent node rest}, block lines minIndent = .ok (node, rest) → Fits left
      node) (h : EntriesRead block (left + 1) base minIndent seen lines entries rest) :
    (entries.map Prod.fst).Nodup ∧ (∀ entry ∈ entries, seen.lookup entry.1 = none) ∧
      ∀ entry ∈ entries, Fits left entry.2 := by
  induction h with
  | stop => simp
  | @entry base minIndent seen line more lines tail i val entries _ _ hseen hvalue _ ih =>
    obtain ⟨hnodup, hfresh, hvals⟩ := ih
    have hlater : ∀ entry ∈ entries,
        entry.1 ≠ trimSpaces (line.text.take i) ∧ seen.lookup entry.1 = none := by
      intro entry hentry
      have hlookup := hfresh entry hentry
      rw [List.lookup_cons] at hlookup
      split at hlookup
      · cases hlookup
      · rename_i hne
        exact ⟨by simpa using hne, hlookup⟩
    refine ⟨?_, ?_, ?_⟩
    · rw [List.map_cons, List.nodup_cons]
      refine ⟨?_, hnodup⟩
      intro hmem
      obtain ⟨entry, hentry, heq⟩ := List.mem_map.mp hmem
      exact (hlater entry hentry).1 heq
    · rw [List.forall_mem_cons]
      exact ⟨hseen, fun entry hentry => (hlater entry hentry).2⟩
    · rw [List.forall_mem_cons]
      exact ⟨hvalue.fits hblock, hvals⟩

theorem ItemsRead.fits
    (hblock : ∀ {lines minIndent node rest}, block lines minIndent = .ok (node, rest) → Fits left
      node) (h : ItemsRead block (left + 1) seqIndent lines items rest) :
    ∀ item ∈ items, Fits left item := by
  induction h with
  | stop => simp
  | literal _ _ _ _ ih =>
    rw [List.forall_mem_cons]
    exact ⟨.scalar, ih⟩
  | item _ _ hitem _ ih =>
    rw [List.forall_mem_cons]
    refine ⟨?_, ih⟩
    cases hitem with
    | inline _ _ hitem => exact parseScalar_fits hitem
    | block _ hitem => exact hblock hitem

end Block

theorem parseBlock_fits (h : parseBlock left lines minIndent = .ok (node, rest)) :
    Fits left node := by
  induction left generalizing lines rest minIndent node with
  | zero => cases h
  | succ left ih =>
    cases parseBlock_read h with
    | empty => exact .scalar
    | sequence _ hitems => exact .sequence (hitems.fits ih)
    | mapping _ hentries =>
      obtain ⟨hkeys, -, hvals⟩ := hentries.fits ih
      exact .mapping hkeys hvals

end Gopherd.Yaml
