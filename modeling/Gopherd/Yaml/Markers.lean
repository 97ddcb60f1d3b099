import Gopherd.Yaml.Outline
import Gopherd.Yaml.Rows

/-!
Item markers in keys.
-/

namespace Gopherd.Yaml

open Go

def Tree.Everywhere (P : Keyed Tree → Prop) (tree : Tree) : Prop :=
  ∀ entries, (Tree.mapping entries).Within tree → ∀ entry ∈ entries, P entry

section Everywhere

variable {P Q : Keyed Tree → Prop}

theorem Tree.everywhere_scalar (text : Bytes) : (Tree.scalar text).Everywhere P := by
  intro entries hwithin
  cases hwithin

theorem Tree.everywhere_inline (node : Node Bytes) : (Tree.inline node).Everywhere P := by
  intro entries hwithin
  cases hwithin

theorem Tree.everywhere_mapping :
    (Tree.mapping entries).Everywhere P ↔
      ∀ entry ∈ entries, P entry ∧ entry.val.Everywhere P := by
  constructor
  · intro h entry hentry
    refine ⟨h entries .refl entry hentry, ?_⟩
    intro others hwithin
    exact h others (.entry hentry hwithin)
  · intro h others hwithin
    cases hwithin with
    | refl => exact fun entry hentry => (h entry hentry).1
    | entry hentry hpart => exact (h _ hentry).2 others hpart

theorem Tree.everywhere_sequence :
    (Tree.sequence items).Everywhere P ↔ ∀ item ∈ items, item.val.Everywhere P := by
  constructor
  · intro h item hitem entries hwithin
    exact h entries (.item hitem hwithin)
  · intro h entries hwithin
    cases hwithin with
    | item hitem hpart => exact h _ hitem entries hpart

theorem Tree.Everywhere.imp {tree : Tree} (h : tree.Everywhere P)
    (hpq : ∀ entry, P entry → Q entry) : tree.Everywhere Q :=
  fun entries hwithin entry hentry => hpq entry (h entries hwithin entry hentry)

theorem Tree.everywhere_and {tree : Tree} :
    tree.Everywhere (fun entry => P entry ∧ Q entry) ↔ tree.Everywhere P ∧ tree.Everywhere Q := by
  constructor
  · intro h
    exact ⟨h.imp fun _ => And.left, h.imp fun _ => And.right⟩
  · rintro ⟨hp, hq⟩ entries hwithin entry hentry
    exact ⟨hp entries hwithin entry hentry, hq entries hwithin entry hentry⟩

end Everywhere

theorem LeastFirst.rows (h : LeastFirst lines) :
    ∀ first ∈ (rowsOf lines).head?, ∀ row ∈ rowsOf lines, first.indent ≤ row.indent := by
  cases lines with
  | nil => simp [rowsOf]
  | cons line lines =>
    obtain ⟨rest, hrows⟩ := rowsOf_head line lines
    have hdeep := rowsOf_deep (h line rfl)
    rw [hrows] at hdeep ⊢
    rintro _ ⟨⟩
    exact hdeep

theorem head_rowsOf (h : ∀ first ∈ lines.head?, first.indent = indent) :
    ∀ first ∈ (rowsOf lines).head?, first.indent = indent := by
  cases lines with
  | nil => simp [rowsOf]
  | cons line lines =>
    obtain ⟨rest, hrows⟩ := rowsOf_head line lines
    rw [hrows]
    rintro _ ⟨⟩
    exact h line rfl

/-- The rows of a key or an item, of what belongs to it and of what follows. -/
theorem aligned_lines (hbelow : ∀ other ∈ below, row.indent < other.indent)
    (hleast : LeastFirst below) (hfirst : ∀ first ∈ rest.head?, first.indent = row.indent)
    (hrest : LeastFirst rest) :
    aligned [row] (row :: (rowsOf below ++ rowsOf rest)) =
      (aligned [] (rowsOf below) && aligned [row] (rowsOf rest)) := by
  have hdeep := rowsOf_deep (hrest.deep hfirst)
  have hbelowRows : ∀ other ∈ rowsOf below, row.indent < other.indent := rowsOf_deep hbelow
  rw [aligned_again, aligned_block hbelowRows hleast.rows (head_rowsOf hfirst) hdeep]
  intro other hother
  rcases List.mem_append.mp hother with hother | hother
  · exact (hbelowRows other hother).le
  · exact hdeep other hother

/-- The rows of an item. -/
theorem rowsOf_item (hdash : startsWith dash line.text = true) (below rest : List Line) :
    rowsOf (line :: (below ++ rest)) = ⟨line.indent, true⟩ ::
      (rowsOf (line.afterDash line.indent :: below) ++ rowsOf rest) := by
  simp only [rowsOf_cons, rowsOf_append, Line.rows, rowsFrom_dash hdash, List.cons_append,
    List.append_assoc]

/-- The first line of a block looks as if another of its kind stood above it. -/
theorem LeastFirst.aligned (h : LeastFirst (first :: lines)) :
    aligned [⟨first.indent, startsWith dash first.text⟩] (rowsOf (first :: lines)) =
      Yaml.aligned [] (rowsOf (first :: lines)) := by
  have hdeep := rowsOf_deep (h first rfl)
  obtain ⟨rest, hrows⟩ := rowsOf_head first lines
  rw [hrows] at hdeep ⊢
  rw [aligned_again (List.forall_mem_cons.mp hdeep).2, aligned_nil_cons]

/-- No key of the tree was read from a line that begins with a marker. -/
def Tree.Dashless (tree : Tree) : Prop :=
  tree.Everywhere fun entry => startsWith dash entry.line.text = false

section Aligned

variable {block : TreeReader}

/-- The trees of blocks are dashless exactly when the blocks are aligned. -/
def Judged (block : TreeReader) : Prop :=
  ∀ {lines tree}, block lines tree →
    LeastFirst lines ∧ (tree.Dashless ↔ aligned [] (rowsOf lines) = true)

theorem ValueTree.dashless (hblock : Judged block) (h : ValueTree block line value below val) :
    LeastFirst below ∧ (val.Dashless ↔ aligned [] (rowsOf below) = true) := by
  cases h with
  | literal => simp [LeastFirst, Tree.Dashless, Tree.everywhere_scalar, rowsOf, aligned]
  | inline => simp [LeastFirst, Tree.Dashless, Tree.everywhere_inline, rowsOf, aligned]
  | absent => simp [LeastFirst, Tree.Dashless, Tree.everywhere_scalar, rowsOf, aligned]
  | child _ _ _ hval => exact hblock hval

theorem EntriesTree.dashless (hblock : Judged block) (h : EntriesTree block indent lines entries) :
    (Tree.mapping entries).Dashless ↔ aligned [⟨indent, false⟩] (rowsOf lines) = true := by
  induction h with
  | nil => simp [Tree.Dashless, Tree.everywhere_mapping, rowsOf, aligned]
  | @cons i line below rest val entries hindent _ hbelow hvalue hrest ih =>
    obtain ⟨hleast, hval⟩ := hvalue.dashless hblock
    subst hindent
    rw [Tree.Dashless, Tree.everywhere_mapping, List.forall_mem_cons, ← Tree.everywhere_mapping,
      ← Tree.Dashless, ← Tree.Dashless, rowsOf_cons, rowsOf_append, Line.rows]
    cases hdash : startsWith dash line.text with
    | true =>
      -- The marker stands in the column of a key and is read as part of one.
      rw [rowsFrom_dash hdash]
      simp [aligned, stray]
    | false =>
      rw [rowsFrom_not_dash hdash, List.singleton_append,
        aligned_lines hbelow hleast hrest.head hrest.leastFirst, Bool.and_eq_true, ← hval,
        ← ih]
      simp

theorem ItemTree.dashless (hblock : Judged block) (h : ItemTree block line below item) :
    LeastFirst (line :: below) ∧ (item.Dashless ↔ aligned [] (rowsOf (line :: below)) = true) := by
  cases h with
  | literal _ hdash _ =>
    simp [LeastFirst, Tree.Dashless, Tree.everywhere_scalar, rowsOf, Line.rows,
      rowsFrom_not_dash hdash, aligned, stray]
  | inline _ hinline _ =>
    simp [LeastFirst, Tree.Dashless, Tree.everywhere_inline, rowsOf, Line.rows,
      rowsFrom_not_dash (not_dash_of_isInlineSeqItem hinline), aligned, stray]
  | block _ _ hitem => exact hblock hitem

theorem ItemsTree.dashless (hblock : Judged block) (h : ItemsTree block indent lines items) :
    (Tree.sequence items).Dashless ↔ aligned [⟨indent, true⟩] (rowsOf lines) = true := by
  induction h with
  | nil => simp [Tree.Dashless, Tree.everywhere_sequence, rowsOf, aligned]
  | @cons line below rest item items hindent hdash hbelow hitem hrest ih =>
    obtain ⟨hleast, hval⟩ := hitem.dashless hblock
    subst hindent
    have hdeep : ∀ other ∈ line.afterDash line.indent :: below, line.indent < other.indent := by
      rw [List.forall_mem_cons]
      exact ⟨by simp, hbelow⟩
    rw [Tree.Dashless, Tree.everywhere_sequence, List.forall_mem_cons, ← Tree.everywhere_sequence,
      ← Tree.Dashless, ← Tree.Dashless, rowsOf_item hdash,
      aligned_lines hdeep hleast hrest.head hrest.leastFirst, Bool.and_eq_true, ← hval, ← ih]

end Aligned

/-- An outline is dashless exactly when its lines are aligned. -/
theorem Outline.judged (depth : Nat) : Judged (Outline depth) := by
  induction depth with
  | zero =>
    intro lines tree h
    cases h
  | succ depth ih =>
    intro lines tree h
    refine ⟨h.leastFirst, ?_⟩
    cases h with
    | empty => simp [Tree.Dashless, Tree.everywhere_scalar, rowsOf, aligned]
    | mapping hdash hentries =>
      rw [hentries.dashless ih, ← hentries.leastFirst.aligned, hdash]
    | sequence hdash hitems =>
      rw [hitems.dashless ih, ← hitems.leastFirst.aligned, hdash]

/-- The text would be a key that begins with a marker. -/
def markerKey (text : Bytes) : Bool :=
  match findColon text with
  | some i => startsWith dash (trimSpaces (text.take i))
  | none => false

theorem not_markerKey_of_head (hc : solid c = true) (hne : c ≠ hyphen) :
    markerKey (c :: s) = false := by
  unfold markerKey
  cases findColon (c :: s) with
  | none => rfl
  | some i =>
    have hfree : SpaceFree spaceRunes ((c :: s).take i) := by
      cases i with
      | zero =>
        intro rune hrune hfront
        obtain rfl := List.prefix_nil.mp hfront
        exact absurd hrune (by decide)
      | succ i => exact spaceFree_cons spaceRunes_not_solid hc
    by_contra hmarker
    rw [Bool.not_eq_false] at hmarker
    have hstart := ((List.isPrefixOf_iff_prefix.mp hmarker).trans hfree.trimSpaces_isPrefix).trans
      (List.take_prefix i (c :: s))
    exact hne (List.cons_prefix_cons.mp hstart).1.symm

theorem not_markerKey_of_inline (h : isInlineSeqItem text = true) : markerKey text = false := by
  unfold isInlineSeqItem at h
  split_ifs at h with hdash hbrace hnone
  · simp only [bracketed, Bool.and_eq_true] at hbrace
    obtain ⟨rest, rfl⟩ := List.isPrefixOf_iff_prefix.mp hbrace.1
    exact not_markerKey_of_head (by decide) (by decide)
  · unfold markerKey
    rw [Option.isNone_iff_eq_none.mp hnone]
  · simp only [Bool.and_eq_true, Bool.or_eq_true, decide_eq_true_eq] at h
    rcases h with ⟨⟨-, hhead | hhead⟩, -⟩
    · obtain ⟨rest, rfl⟩ := List.head?_eq_some_iff.mp hhead
      exact not_markerKey_of_head (by decide) (by decide)
    · obtain ⟨rest, rfl⟩ := List.head?_eq_some_iff.mp hhead
      exact not_markerKey_of_head (by decide) (by decide)

/-- What stands behind the markers of the line is no key that begins with one. -/
def Line.Clear (line : Line) : Prop :=
  markerKey (stripDashes line.text) = false

theorem Line.clear_afterDash {line : Line} (hdash : startsWith dash line.text = true)
    (indent : Nat) : (line.afterDash indent).Clear ↔ line.Clear := by
  rw [Line.Clear, Line.Clear, stripDashes_drop hdash]

section Clear

variable {block : TreeReader}

/-- The keys of blocks are clear exactly when the lines are. -/
def ClearBy (block : TreeReader) : Prop :=
  ∀ {lines tree}, block lines tree →
    (tree.Everywhere (fun entry => entry.line.Clear) ↔ ∀ line ∈ lines, line.Clear)

theorem ValueTree.clear (hblock : ClearBy block) (h : ValueTree block line value below val) :
    val.Everywhere (fun entry => entry.line.Clear) ↔ ∀ line ∈ below, line.Clear := by
  cases h with
  | literal => exact iff_of_true (Tree.everywhere_scalar _) (by simp)
  | inline => exact iff_of_true (Tree.everywhere_inline _) (by simp)
  | absent => exact iff_of_true (Tree.everywhere_scalar _) (by simp)
  | child _ _ _ hval => exact hblock hval

theorem EntriesTree.clear (hblock : ClearBy block) (h : EntriesTree block indent lines entries) :
    (Tree.mapping entries).Everywhere (fun entry => entry.line.Clear) ↔
      ∀ line ∈ lines, line.Clear := by
  induction h with
  | nil => simp [Tree.everywhere_mapping]
  | cons _ _ _ hvalue _ ih =>
    rw [Tree.everywhere_mapping, List.forall_mem_cons, ← Tree.everywhere_mapping, ih,
      hvalue.clear hblock, List.forall_mem_cons, List.forall_mem_append, and_assoc]

theorem ItemTree.clear (hblock : ClearBy block) (h : ItemTree block line below item) :
    item.Everywhere (fun entry => entry.line.Clear) ↔ ∀ other ∈ line :: below, other.Clear := by
  cases h with
  | literal _ hdash hcolon =>
    refine iff_of_true (Tree.everywhere_scalar _) ?_
    simp [Line.Clear, stripDashes_eq hdash, markerKey, hcolon]
  | inline _ hinline _ =>
    refine iff_of_true (Tree.everywhere_inline _) ?_
    simpa [Line.Clear, stripDashes_eq (not_dash_of_isInlineSeqItem hinline)] using
      not_markerKey_of_inline hinline
  | block _ _ hitem => exact hblock hitem

theorem ItemsTree.clear (hblock : ClearBy block) (h : ItemsTree block indent lines items) :
    (Tree.sequence items).Everywhere (fun entry => entry.line.Clear) ↔
      ∀ line ∈ lines, line.Clear := by
  induction h with
  | nil => simp [Tree.everywhere_sequence]
  | cons _ hdash _ hitem _ ih =>
    rw [Tree.everywhere_sequence, List.forall_mem_cons, ← Tree.everywhere_sequence, ih,
      hitem.clear hblock, List.forall_mem_cons, List.forall_mem_cons, List.forall_mem_append,
      Line.clear_afterDash hdash, and_assoc]

end Clear

theorem Outline.clear (depth : Nat) : ClearBy (Outline depth) := by
  induction depth with
  | zero =>
    intro lines tree h
    cases h
  | succ depth ih =>
    intro lines tree h
    cases h with
    | empty => exact iff_of_true (Tree.everywhere_scalar _) (by simp)
    | mapping _ hentries => exact hentries.clear ih
    | sequence _ hitems => exact hitems.clear ih

/-- A key is what stands before the colon of its line. -/
def Keyed.Spelled (entry : Keyed Tree) : Prop :=
  ∃ i, findColon entry.line.text = some i ∧ entry.key = trimSpaces (entry.line.text.take i)

section Spelled

variable {block : TreeReader} {indent : Nat} {lines : List Line}

theorem EntriesTree.spelled
    (hblock : ∀ {lines tree}, block lines tree → tree.Everywhere Keyed.Spelled)
    (h : EntriesTree block indent lines entries) :
    (Tree.mapping entries).Everywhere Keyed.Spelled := by
  induction h with
  | nil => simp [Tree.everywhere_mapping]
  | cons _ hcolon _ hvalue _ ih =>
    rw [Tree.everywhere_mapping, List.forall_mem_cons, ← Tree.everywhere_mapping]
    refine ⟨⟨⟨_, hcolon, rfl⟩, ?_⟩, ih⟩
    cases hvalue with
    | literal => exact Tree.everywhere_scalar _
    | inline => exact Tree.everywhere_inline _
    | absent => exact Tree.everywhere_scalar _
    | child _ _ _ hval => exact hblock hval

theorem ItemsTree.spelled
    (hblock : ∀ {lines tree}, block lines tree → tree.Everywhere Keyed.Spelled)
    (h : ItemsTree block indent lines items) : (Tree.sequence items).Everywhere Keyed.Spelled := by
  induction h with
  | nil => simp [Tree.everywhere_sequence]
  | cons _ _ _ hitem _ ih =>
    rw [Tree.everywhere_sequence, List.forall_mem_cons, ← Tree.everywhere_sequence]
    refine ⟨?_, ih⟩
    cases hitem with
    | literal => exact Tree.everywhere_scalar _
    | inline => exact Tree.everywhere_inline _
    | block _ _ hitem => exact hblock hitem

end Spelled

theorem Outline.spelled (h : Outline depth lines tree) : tree.Everywhere Keyed.Spelled := by
  induction depth generalizing lines tree with
  | zero => cases h
  | succ depth ih =>
    cases h with
    | empty => exact Tree.everywhere_scalar _
    | mapping _ hentries => exact hentries.spelled ih
    | sequence _ hitems => exact hitems.spelled ih

/-- No key of a block mapping begins with an item marker and no line that does is a key,
exactly when no marker stands in the column of a key and none is hidden from the one
before it by further white space. -/
theorem markers_not_in_keys_iff {data : Bytes} {node : Node Bytes}
    (hparse : parse data = .ok node) :
    ∃ lines tree, contentLines data = .ok lines ∧ Outline (maxParseDepth + 1) lines tree ∧
      tree.node = node ∧
      (tree.Everywhere (fun entry => startsWith dash entry.key = false ∧
          startsWith dash entry.line.text = false) ↔
        aligned [] (rowsOf lines) = true ∧
          ∀ line ∈ lines, markerKey (stripDashes line.text) = false) := by
  obtain ⟨lines, tree, hlines, htree, hnode⟩ := parse_outline hparse
  refine ⟨lines, tree, hlines, htree, hnode, ?_⟩
  rw [← (Outline.judged _ htree).2]
  refine Iff.trans ?_ (and_congr_right fun _ => Outline.clear _ htree)
  rw [Tree.Dashless, ← Tree.everywhere_and]
  refine forall₄_congr fun entries hwithin entry hentry => ?_
  obtain ⟨i, hcolon, hkey⟩ := htree.spelled entries hwithin entry hentry
  refine Iff.trans And.comm (and_congr_right fun hdash => ?_)
  simp [Line.Clear, stripDashes_eq hdash, markerKey, hcolon, hkey]

/-- A marker in the column of a key, and one behind white space. -/
theorem markers_in_keys :
    parse (ascii "a: 1\n- b: 2\n") =
        .ok (.mapping [(ascii "a", .scalar (ascii "1")), (ascii "- b", .scalar (ascii "2"))]) ∧
      parse (ascii "-   - b: 2\n") =
        .ok (.sequence [.mapping [(ascii "- b", .scalar (ascii "2"))]]) := by
  decide +kernel

/-- A list of mappings below its key. -/
theorem markers_not_in_keys_list :
    ∃ node lines tree, parse (ascii "a:\n  - b: 2\n    c:\n      - d\n") = .ok node ∧
      contentLines (ascii "a:\n  - b: 2\n    c:\n      - d\n") = .ok lines ∧
      Outline (maxParseDepth + 1) lines tree ∧ tree.node = node ∧
      tree.Everywhere (fun entry => startsWith dash entry.key = false ∧
        startsWith dash entry.line.text = false) := by
  have htest : ((parse (ascii "a:\n  - b: 2\n    c:\n      - d\n")).toOption.bind fun _ =>
      (contentLines (ascii "a:\n  - b: 2\n    c:\n      - d\n")).toOption.map fun lines =>
        aligned [] (rowsOf lines) && lines.all fun line => !markerKey (stripDashes line.text)) =
      some true := by
    decide +kernel
  obtain ⟨node, hparse, htest⟩ := Option.bind_eq_some_iff.mp htest
  obtain ⟨lines', hlines', htest⟩ := Option.map_eq_some_iff.mp htest
  rw [Bool.and_eq_true, List.all_eq_true] at htest
  obtain ⟨lines, tree, hlines, htree, hnode, hiff⟩ :=
    markers_not_in_keys_iff (Except.toOption_eq_some.mp hparse)
  obtain rfl := Except.ok.inj (hlines.symm.trans (Except.toOption_eq_some.mp hlines'))
  refine ⟨node, lines, tree, Except.toOption_eq_some.mp hparse, hlines, htree, hnode, ?_⟩
  exact hiff.mpr ⟨htest.1, fun line hline => by simpa using htest.2 line hline⟩

end Gopherd.Yaml
