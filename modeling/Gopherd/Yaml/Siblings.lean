import Gopherd.Yaml.Markers
import Gopherd.Yaml.Split

/-!
The line behind an empty literal block. The body of a block is cut out while
the lines are split, by the indentation of the line that opens it and not by
the column of its key.
-/

namespace Gopherd.Yaml

open Go

structure Shifted (line part : Line) : Prop where
  num : part.num = line.num
  literal : part.literal = line.literal
  indent : part = line ∨ line.indent < part.indent

theorem Shifted.refl (line : Line) : Shifted line line :=
  ⟨rfl, rfl, .inl rfl⟩

theorem Shifted.afterDash (h : Shifted (line.afterDash line.indent) part) : Shifted line part := by
  refine ⟨h.num, h.literal, .inr ?_⟩
  rcases h.indent with rfl | hlt
  · simp
  · simp only at hlt
    omega

def Tree.On (lines : List Line) (tree : Tree) : Prop :=
  tree.Everywhere fun entry => ∃ line ∈ lines, Shifted line entry.line

variable {lines : List Line} {tree : Tree}

theorem Tree.On.mono (h : tree.On lines)
    (hsub : ∀ line ∈ lines, ∃ line' ∈ lines', ∀ part, Shifted line part → Shifted line' part) :
    tree.On lines' := by
  refine h.imp ?_
  rintro entry ⟨line, hline, hshifted⟩
  obtain ⟨line', hline', hshift⟩ := hsub line hline
  exact ⟨line', hline', hshift _ hshifted⟩

theorem Tree.On.subset (h : tree.On lines) (hsub : lines ⊆ lines') : tree.On lines' :=
  h.mono fun line hline => ⟨line, hsub hline, fun _ => id⟩

section On

variable {block : TreeReader} {indent : Nat} {lines : List Line}

theorem ValueTree.on (hblock : ∀ {lines tree}, block lines tree → tree.On lines)
    (h : ValueTree block line value below val) : val.On below := by
  cases h with
  | literal => exact Tree.everywhere_scalar _
  | inline => exact Tree.everywhere_inline _
  | absent => exact Tree.everywhere_scalar _
  | child _ _ _ hval => exact hblock hval

theorem EntriesTree.on (hblock : ∀ {lines tree}, block lines tree → tree.On lines)
    (h : EntriesTree block indent lines entries) : (Tree.mapping entries).On lines := by
  induction h with
  | nil => simp [Tree.On, Tree.everywhere_mapping]
  | @cons i line below rest val entries _ _ _ hvalue _ ih =>
    unfold Tree.On
    rw [Tree.everywhere_mapping, List.forall_mem_cons, ← Tree.everywhere_mapping]
    refine ⟨⟨⟨line, List.mem_cons_self, .refl line⟩, ?_⟩, ?_⟩
    · exact (hvalue.on hblock).subset (by simp)
    · exact ih.subset (by simp)

theorem ItemTree.on (hblock : ∀ {lines tree}, block lines tree → tree.On lines)
    (h : ItemTree block line below item) : item.On (line :: below) := by
  cases h with
  | literal => exact Tree.everywhere_scalar _
  | inline => exact Tree.everywhere_inline _
  | block _ _ hitem => exact hblock hitem

/-- The lines of an item are those of the list, behind its marker. -/
theorem Tree.On.item {line : Line} {below rest : List Line} {item : Tree}
    (h : item.On (line.afterDash line.indent :: below)) : item.On (line :: (below ++ rest)) := by
  refine h.mono ?_
  rw [List.forall_mem_cons]
  refine ⟨⟨line, List.mem_cons_self, fun _ => Shifted.afterDash⟩, ?_⟩
  intro other hother
  exact ⟨other, by simp [hother], fun _ => id⟩

theorem ItemsTree.on (hblock : ∀ {lines tree}, block lines tree → tree.On lines)
    (h : ItemsTree block indent lines items) : (Tree.sequence items).On lines := by
  induction h with
  | nil => simp [Tree.On, Tree.everywhere_sequence]
  | @cons line below rest item items hindent _ _ hitem _ ih =>
    subst hindent
    unfold Tree.On
    rw [Tree.everywhere_sequence, List.forall_mem_cons, ← Tree.everywhere_sequence]
    exact ⟨(hitem.on hblock).item, ih.subset (by simp)⟩

end On

theorem Outline.on (h : Outline depth lines tree) : tree.On lines := by
  induction depth generalizing lines tree with
  | zero => cases h
  | succ depth ih =>
    cases h with
    | empty => exact Tree.everywhere_scalar _
    | mapping _ hentries => exact hentries.on ih
    | sequence _ hitems => exact hitems.on ih

def lineBehind (num : Nat) (lines : List Line) : Option Line :=
  lines.find? (num < ·.num)

/-- Behind a key with a literal block, the next line in the column of the key is the next
key of the mapping. -/
def Tree.Followed (lines : List Line) (tree : Tree) : Prop :=
  ∀ entries, (Tree.mapping entries).Within tree →
    ∀ before entry tail, entries = before ++ entry :: tail → entry.line.literal ≠ none →
      ∀ next, lineBehind entry.line.num lines = some next → next.indent = entry.line.indent →
        ∃ follower more, tail = follower :: more ∧ follower.line = next

theorem lineBehind_append (h : ∀ line ∈ first, line.num ≤ num) :
    lineBehind num (first ++ second) = lineBehind num second := by
  have hnone : first.find? (fun line => decide (num < line.num)) = none := by
    rw [List.find?_eq_none]
    intro line hline
    simpa using h line hline
  rw [lineBehind, List.find?_append, hnone, Option.none_or, lineBehind]

/-- Lines before those of a tree do not matter. -/
theorem Tree.Followed.append (h : tree.Followed second) (hon : tree.On lines)
    (hbefore : ∀ line ∈ first, ∀ other ∈ lines, line.num ≤ other.num) :
    tree.Followed (first ++ second) := by
  intro entries hwithin before entry tail hentries hliteral next hnext hindent
  obtain ⟨line, hline, hshifted⟩ := hon entries hwithin entry (by simp [hentries])
  rw [lineBehind_append fun other hother => hshifted.num ▸ hbefore other hother line hline] at hnext
  exact h entries hwithin before entry tail hentries hliteral next hnext hindent

theorem Tree.followed_scalar (text : Bytes) :
    (Tree.scalar text).Followed lines := by
  intro entries hwithin
  cases hwithin

theorem Tree.followed_inline (node : Node Bytes) :
    (Tree.inline node).Followed lines := by
  intro entries hwithin
  cases hwithin

theorem Tree.Followed.sequence {lines : List Line} {items : List (Listed Tree)}
    (h : ∀ item ∈ items, item.val.Followed lines) : (Tree.sequence items).Followed lines := by
  intro entries hwithin
  cases hwithin with
  | item hitem hpart => exact h _ hitem entries hpart

def Sorted (lines : List Line) : Prop :=
  lines.Pairwise fun a b => a.num < b.num

theorem Sorted.lineBehind_head (h : Sorted (line :: rest)) :
    lineBehind line.num (line :: rest) = rest.head? := by
  cases rest with
  | nil => simp [lineBehind]
  | cons next rest =>
    have hlt := List.rel_of_pairwise_cons h (List.mem_cons_self (a := next) (l := rest))
    simp [lineBehind, hlt]

section Followed

variable {block : TreeReader} {indent : Nat} {lines after : List Line}

/-- The blocks of a reader are followed by what stands behind them, when that is indented
less than all of their lines. -/
def FollowedBy (block : TreeReader) : Prop :=
  ∀ {lines tree after}, block lines tree →
    (∀ next ∈ after.head?, ∀ line ∈ lines, next.indent < line.indent) → Sorted (lines ++ after) →
    tree.Followed (lines ++ after)

theorem ValueTree.followed (hblock : FollowedBy block) (h : ValueTree block line value below val)
    (hafter : ∀ next ∈ after.head?, ∀ other ∈ below, next.indent < other.indent)
    (hsorted : Sorted (below ++ after)) : val.Followed (below ++ after) := by
  cases h with
  | literal => exact Tree.followed_scalar _
  | inline => exact Tree.followed_inline _
  | absent => exact Tree.followed_scalar _
  | child _ _ _ hval => exact hblock hval hafter hsorted

/-- The next key of a mapping, or the line behind the mapping. -/
theorem EntriesTree.head_append (h : EntriesTree block indent lines entries)
    (hnext : (lines ++ after).head? = some next)
    (hafter : ∀ other ∈ after.head?, other.indent < indent) (hindent : next.indent = indent) :
    ∃ follower more, entries = follower :: more ∧ follower.line = next := by
  cases h with
  | nil =>
    have hlt := hafter next hnext
    omega
  | cons =>
    cases hnext
    exact ⟨_, _, rfl, rfl⟩

/-- What follows one line of a block is indented less than the lines below it. -/
theorem head_append_lt {below rest : List Line} (hbelow : ∀ other ∈ below, indent < other.indent)
    (hrest : ∀ first ∈ rest.head?, first.indent = indent)
    (hafter : ∀ next ∈ after.head?, next.indent < indent) :
    ∀ next ∈ (rest ++ after).head?, ∀ other ∈ below, next.indent < other.indent := by
  intro next hnext other hother
  have hdeep := hbelow other hother
  cases rest with
  | nil =>
    have hlt := hafter next hnext
    omega
  | cons first rest =>
    have heq := hrest first rfl
    cases hnext
    omega

theorem EntriesTree.followed (hon : ∀ {lines tree}, block lines tree → tree.On lines)
    (hblock : FollowedBy block) {entries : List (Keyed Tree)}
    (h : EntriesTree block indent lines entries)
    (hafter : ∀ next ∈ after.head?, next.indent < indent) (hsorted : Sorted (lines ++ after)) :
    (Tree.mapping entries).Followed (lines ++ after) := by
  induction h with
  | nil =>
    intro entries hwithin before entry tail hentries
    cases hwithin with
    | refl => simp at hentries
    | entry hentry => simp at hentry
  | @cons i line below rest val entries hindent hcolon hbelow hvalue hrest ih =>
    have hall : line :: (below ++ rest) ++ after = line :: below ++ (rest ++ after) := by simp
    rw [hall] at hsorted ⊢
    obtain ⟨-, hsortedRest, hbefore⟩ := List.pairwise_append.mp hsorted
    have hsortedBelow : Sorted (below ++ (rest ++ after)) := (List.pairwise_cons.mp hsorted).2
    have hfirst := (List.pairwise_cons.mp hsorted).1
    -- The later keys and the value see the same lines behind their numbers.
    have hlater : (Tree.mapping entries).Followed (line :: below ++ (rest ++ after)) :=
      (ih hsortedRest).append (hrest.on hon) fun other hother later hlater =>
        (hbefore other hother later (List.mem_append_left _ hlater)).le
    have hval : val.Followed ([line] ++ (below ++ (rest ++ after))) := by
      refine (hvalue.followed hblock (head_append_lt hbelow hrest.head hafter)
        hsortedBelow).append (hvalue.on hon) ?_
      intro other hother later hmem
      obtain rfl := List.mem_singleton.mp hother
      exact (hfirst later (List.mem_append_left _ hmem)).le
    intro entries' hwithin before entry tail hentries hliteral next hnext hcolumn
    cases hwithin with
    | refl =>
      cases before with
      | nil =>
        obtain ⟨rfl, rfl⟩ := List.cons.inj hentries
        cases hvalue with
        | inline hnone | absent hnone | child hnone => exact absurd hnone hliteral
        | literal =>
          have hbehind : lineBehind line.num (line :: (rest ++ after)) =
              (rest ++ after).head? := Sorted.lineBehind_head hsorted
          exact hrest.head_append (hbehind.symm.trans hnext) hafter
            (hcolumn.trans hindent)
      | cons first before =>
        obtain ⟨rfl, hrestEntries⟩ := List.cons.inj hentries
        exact hlater entries .refl before entry tail hrestEntries hliteral next hnext hcolumn
    | entry hentry hpart =>
      rcases List.mem_cons.mp hentry with rfl | hentry
      · exact hval entries' hpart before entry tail hentries hliteral next hnext hcolumn
      · exact hlater entries' (.entry hentry hpart) before entry tail hentries hliteral next
          hnext hcolumn

theorem ItemsTree.followed (hon : ∀ {lines tree}, block lines tree → tree.On lines)
    (hblock : FollowedBy block) {items : List (Listed Tree)}
    (h : ItemsTree block indent lines items)
    (hafter : ∀ next ∈ after.head?, next.indent < indent) (hsorted : Sorted (lines ++ after)) :
    (Tree.sequence items).Followed (lines ++ after) := by
  induction h with
  | nil => exact .sequence (by simp)
  | @cons line below rest item items hindent hdash hbelow hitem hrest ih =>
    have hall : line :: (below ++ rest) ++ after = line :: below ++ (rest ++ after) := by simp
    rw [hall] at hsorted ⊢
    obtain ⟨-, hsortedRest, hbefore⟩ := List.pairwise_append.mp hsorted
    have hlater : (Tree.sequence items).Followed (line :: below ++ (rest ++ after)) :=
      (ih hsortedRest).append (hrest.on hon) fun other hother later hlater =>
        (hbefore other hother later (List.mem_append_left _ hlater)).le
    have hdeep : ∀ other ∈ line.afterDash indent :: below, indent < other.indent := by
      rw [List.forall_mem_cons]
      exact ⟨by simp, hbelow⟩
    -- Behind the marker the line has the same number.
    have hshift : Sorted (line.afterDash indent :: below ++ (rest ++ after)) :=
      List.pairwise_cons.mpr (List.pairwise_cons.mp hsorted)
    have hfirst : item.Followed (line.afterDash indent :: below ++ (rest ++ after)) := by
      cases hitem with
      | literal => exact Tree.followed_scalar _
      | inline => exact Tree.followed_inline _
      | block _ _ hitem =>
        exact hblock hitem (head_append_lt hdeep hrest.head hafter) hshift
    refine .sequence (List.forall_mem_cons.mpr ⟨?_, ?_⟩)
    · intro entries hwithin before entry tail hentries hliteral next hnext hcolumn
      refine hfirst entries hwithin before entry tail hentries hliteral next ?_ hcolumn
      obtain ⟨other, hother, hshifted⟩ := hitem.on hon entries hwithin entry (by simp [hentries])
      have hle : line.num ≤ entry.line.num := by
        rw [hshifted.num]
        rcases List.mem_cons.mp hother with rfl | hother
        · exact Nat.le_refl _
        · exact ((List.pairwise_cons.mp hsorted).1 other (List.mem_append_left _ hother)).le
      rw [← hnext]
      simp [lineBehind, Nat.not_lt.mpr hle]
    · intro other hother entries hwithin
      exact hlater entries (.item hother hwithin)

end Followed

theorem Outline.followed (depth : Nat) : FollowedBy (Outline depth) := by
  induction depth with
  | zero =>
    intro lines tree after h
    cases h
  | succ depth ih =>
    intro lines tree after h hafter hsorted
    cases h with
    | empty => exact Tree.followed_scalar _
    | @mapping line more _ _ hentries =>
      exact hentries.followed Outline.on ih
        (fun next hnext => hafter next hnext line List.mem_cons_self) hsorted
    | @sequence line more _ _ hitems =>
      exact hitems.followed Outline.on ih
        (fun next hnext => hafter next hnext line List.mem_cons_self) hsorted

structure EmptyLiteral (raws : List Bytes) (entry : Keyed Tree) (gap : List Bytes)
    (next : Bytes) : Prop where
  literal : entry.line.literal ≠ none
  behind : ∃ more, raws.drop entry.line.num = gap ++ next :: more
  blank : ∀ raw ∈ gap, isBlank raw = true
  visible : isBlank next = false
  noComment : isComment next = false
  column : leadingSpaces next = entry.line.indent

/-- The body that a line cuts out in front of such a line. -/
theorem literalBody_behind {indent : Nat} {gap more : List Bytes} {next : Bytes}
    (hblank : ∀ raw ∈ gap, isBlank raw = true) (hvisible : isBlank next = false) :
    (leadingSpaces next ≤ indent →
        (literalBody indent none (gap ++ next :: more)).length = gap.length) ∧
      (indent < leadingSpaces next →
        gap.length < (literalBody indent none (gap ++ next :: more)).length) := by
  rw [literalBody_gap hblank, literalBody_first hvisible]
  constructor
  · intro hle
    simp [hle]
  · intro hlt
    rw [if_neg (Nat.not_le.mpr hlt)]
    simp

/-- The line behind an empty literal block is the next key of the mapping exactly when the
line that opens the block begins with its key. -/
theorem empty_literal_next_key_iff {data : Bytes} {node : Node Bytes}
    (hparse : parse data = .ok node) :
    ∃ lines tree, contentLines data = .ok lines ∧ Outline (maxParseDepth + 1) lines tree ∧
      tree.node = node ∧
      ∀ entries, (Tree.mapping entries).Within tree →
        ∀ before entry tail, entries = before ++ entry :: tail →
          ∀ gap next, EmptyLiteral (documentLines data) entry gap next →
            ((∃ follower more, tail = follower :: more ∧
                follower.line.num = entry.line.num + gap.length + 1) ↔
              ∃ raw, (documentLines data)[entry.line.num - 1]? = some raw ∧
                leadingSpaces raw = entry.line.indent) := by
  obtain ⟨lines, tree, hlines, htree, hnode⟩ := parse_outline hparse
  refine ⟨lines, tree, hlines, htree, hnode, ?_⟩
  intro entries hwithin before entry tail hentries gap next hempty
  have hread := contentLines_iff.mp hlines
  obtain ⟨line, hline, hshifted⟩ := htree.on entries hwithin entry (by simp [hentries])
  obtain ⟨pre, raw, rest, above, below, hraws, hnum, rfl, hcut, -⟩ := hread.cut hline
  obtain ⟨hcontent, indicator, -, -, hlineEq, hbelow⟩ :=
    hcut.literal_head (hshifted.literal ▸ hempty.literal)
  have hcontentIndent : (contentLine line.num raw).indent = line.indent := by
    rw [hlineEq]
    rfl
  have hindent : line.indent = leadingSpaces raw :=
    hcontentIndent.symm.trans (contentLine_indent hcontent.visible)
  rw [hcontentIndent] at hbelow
  have hraw : (documentLines data)[entry.line.num - 1]? = some raw := by
    rw [hshifted.num, hnum, hraws]
    simp
  obtain ⟨more, hmore⟩ := hempty.behind
  obtain rfl : rest = gap ++ next :: more := by
    rw [← hmore, hshifted.num, hnum, hraws, Nat.add_comm, ← List.drop_drop]
    simp
  obtain ⟨hshort, hlong⟩ := @literalBody_behind line.indent gap more next hempty.blank
    hempty.visible
  rw [hempty.column] at hshort hlong
  constructor
  · rintro ⟨follower, others, rfl, hfollower⟩
    refine ⟨raw, hraw, ?_⟩
    rcases hshifted.indent with hsame | hdeeper
    · rw [hsame, hindent]
    · -- The number belongs to a line of the body, so no content line has it.
      exfalso
      obtain ⟨other, hother, hpart⟩ := htree.on entries hwithin follower (by simp [hentries])
      have htarget : other.num = line.num + gap.length + 1 := by
        rw [← hpart.num, hfollower, hshifted.num]
      have hlength := hlong hdeeper
      rcases List.mem_append.mp hother with hother | hother
      · have hlt := (List.pairwise_append.mp hread.sorted).2.2 other hother line
          List.mem_cons_self
        omega
      · rcases List.mem_cons.mp hother with rfl | hother
        · omega
        · have hle := hbelow.le_num other hother
          omega
  · rintro ⟨raw', hraw', hspaces⟩
    obtain rfl : raw = raw' := Option.some.inj (hraw.symm.trans hraw')
    have hsame : entry.line = line := by
      rcases hshifted.indent with hsame | hdeeper
      · exact hsame
      · omega
    rw [hshort (by rw [hsame]), List.drop_left] at hbelow
    obtain ⟨nextLine, others, rfl, hnextNum, hnextIndent⟩ :=
      hbelow.content_head hempty.visible hempty.noComment
    have hsorted : Sorted (above ++ line :: nextLine :: others ++ []) := by
      rw [List.append_nil]
      exact hread.sorted
    have hfollowed := Outline.followed _ htree (by simp) hsorted
    have hnext : lineBehind entry.line.num (above ++ line :: nextLine :: others ++ []) =
        some nextLine := by
      obtain ⟨-, hrest, habove⟩ := List.pairwise_append.mp hread.sorted
      rw [List.append_nil, hsame, lineBehind_append fun other hother =>
        (habove other hother line List.mem_cons_self).le, Sorted.lineBehind_head hrest]
      rfl
    obtain ⟨follower, others', htail, hfollower⟩ := hfollowed entries hwithin before entry tail
      hentries hempty.literal nextLine hnext (hnextIndent.trans hempty.column)
    refine ⟨follower, others', htail, ?_⟩
    rw [hfollower, hnextNum, hsame]
    omega

/-- The second key of a list item is the body of the first. -/
theorem second_key_swallowed :
    parse (ascii "- a: |\n  b: 1\n") =
        .ok (.sequence [.mapping [(ascii "a", .scalar (ascii "b: 1\n"))]]) ∧
      parse (ascii "- a:\n  b: 1\n") =
        .ok (.sequence [.mapping [(ascii "a", .scalar []), (ascii "b", .scalar (ascii "1"))]]) := by
  decide +kernel

theorem EntriesTree.first {block : TreeReader} {indent : Nat} {lines more : List Line}
    {line : Line} {entries : List (Keyed Tree)} (h : EntriesTree block indent lines entries)
    (hlines : lines = line :: more) :
    ∃ entry tail, entries = entry :: tail ∧ entry.line = line := by
  cases h with
  | nil => cases hlines
  | cons =>
      obtain ⟨rfl, -⟩ := List.cons.inj hlines
      exact ⟨_, _, rfl, rfl⟩

def emptyLiteralDocument : Bytes :=
  ascii "b: |\n\nc: 2\n"

theorem emptyLiteralDocument_next_key :
    parse emptyLiteralDocument =
        .ok (.mapping [(ascii "b", .scalar []), (ascii "c", .scalar (ascii "2"))]) ∧
      ∃ lines tree, contentLines emptyLiteralDocument = .ok lines ∧
        Outline (maxParseDepth + 1) lines tree ∧
        ∃ entry tail, (Tree.mapping (entry :: tail)).Within tree ∧
          EmptyLiteral (documentLines emptyLiteralDocument) entry [[]] (ascii "c: 2") ∧
          ∃ follower more, tail = follower :: more ∧ follower.line.num = 3 := by
  have hparse : parse emptyLiteralDocument =
      .ok (.mapping [(ascii "b", .scalar []), (ascii "c", .scalar (ascii "2"))]) := by
    decide +kernel
  have hlines : contentLines emptyLiteralDocument =
      .ok [⟨some [], ascii "b: |", 0, 1⟩, ⟨none, ascii "c: 2", 0, 3⟩] := by decide +kernel
  have hheader : (documentLines emptyLiteralDocument)[0]? = some (ascii "b: |") := by
    decide +kernel
  obtain ⟨lines, tree, hread, htree, -, hnext⟩ := empty_literal_next_key_iff hparse
  obtain rfl := Except.ok.inj (hread.symm.trans hlines)
  refine ⟨hparse, _, tree, hlines, htree, ?_⟩
  cases htree with
  | sequence hdash => exact absurd hdash (by decide +kernel)
  | mapping _ hentries =>
      obtain ⟨entry, tail, rfl, hline⟩ := hentries.first rfl
      have hempty : EmptyLiteral (documentLines emptyLiteralDocument) entry [[]] (ascii "c: 2") := {
        literal := by
          rw [hline]
          exact Option.some_ne_none _
        behind := by
          rw [hline]
          exact ⟨[], by decide +kernel⟩
        blank := by decide +kernel
        visible := by decide +kernel
        noComment := by decide +kernel
        column := by
          rw [hline]
          decide +kernel }
      refine ⟨entry, tail, .refl, hempty, ?_⟩
      have hiff := hnext _ .refl [] entry tail rfl _ _ hempty
      rw [hline] at hiff
      exact hiff.mpr ⟨_, hheader, by decide +kernel⟩

end Gopherd.Yaml
