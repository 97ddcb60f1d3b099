import Gopherd.Yaml.Encode

/-!
The outline of an accepted document: its tree, with the line that each key and
each item stands on.
-/

namespace Gopherd.Yaml

open Go

structure Keyed (τ : Type) where
  line : Line
  key : Bytes
  val : τ

structure Listed (τ : Type) where
  line : Line
  val : τ

inductive Tree where
  | scalar (text : Bytes)
  | inline (node : Node Bytes)
  | mapping (entries : List (Keyed Tree))
  | sequence (items : List (Listed Tree))

mutual

def Tree.node : Tree → Node Bytes
  | .scalar text => .scalar text
  | .inline node => node
  | .mapping entries => .mapping (entryNodes entries)
  | .sequence items => .sequence (itemNodes items)

def entryNodes : List (Keyed Tree) → List (Bytes × Node Bytes)
  | [] => []
  | ⟨_, key, val⟩ :: rest => (key, val.node) :: entryNodes rest

def itemNodes : List (Listed Tree) → List (Node Bytes)
  | [] => []
  | ⟨_, val⟩ :: rest => val.node :: itemNodes rest

end

inductive Tree.Within (part : Tree) : Tree → Prop
  | refl : Within part part
  | entry {entries : List (Keyed Tree)} {entry : Keyed Tree} (hentry : entry ∈ entries)
      (hpart : Within part entry.val) : Within part (.mapping entries)
  | item {items : List (Listed Tree)} {item : Listed Tree} (hitem : item ∈ items)
      (hpart : Within part item.val) : Within part (.sequence items)

/-- The line behind the marker of an item whose dash has this indentation. -/
abbrev Line.afterDash (line : Line) (indent : Nat) : Line :=
  { line with text := line.text.drop 2, indent := indent + 2 }

/-- The trees of some lines. -/
abbrev TreeReader := List Line → Tree → Prop

inductive ValueTree (block : TreeReader) (line : Line) (value : Bytes) : List Line → Tree → Prop
  | literal {text : Bytes} (hliteral : line.literal = some text) :
      ValueTree block line value [] (.scalar text)
  | inline {left : Nat} {val : Node Bytes} (hliteral : line.literal = none) (hvalue : value ≠ [])
      (hval : parseScalar left value = .ok val) : ValueTree block line value [] (.inline val)
  | absent (hliteral : line.literal = none) (hvalue : value = []) :
      ValueTree block line value [] (.scalar [])
  | child {below : List Line} {val : Tree} (hliteral : line.literal = none) (hvalue : value = [])
      (hne : below ≠ []) (hblock : block below val) : ValueTree block line value below val

inductive EntriesTree (block : TreeReader) (indent : Nat) :
    List Line → List (Keyed Tree) → Prop
  | nil : EntriesTree block indent [] []
  | cons {i : Nat} {line : Line} {below rest : List Line} {val : Tree}
      {entries : List (Keyed Tree)} (hindent : line.indent = indent)
      (hcolon : findColon line.text = some i) (hbelow : ∀ other ∈ below, indent < other.indent)
      (hvalue : ValueTree block line (trimSpaces (line.text.drop (i + 1))) below val)
      (hrest : EntriesTree block indent rest entries) :
      EntriesTree block indent (line :: (below ++ rest))
        (⟨line, trimSpaces (line.text.take i), val⟩ :: entries)

inductive ItemTree (block : TreeReader) (line : Line) : List Line → Tree → Prop
  | literal {text : Bytes} (hliteral : line.literal = some text)
      (hdash : startsWith dash line.text = false) (hcolon : findColon line.text = none) :
      ItemTree block line [] (.scalar text)
  | inline {left : Nat} {item : Node Bytes} (hliteral : line.literal = none)
      (hinline : isInlineSeqItem line.text = true)
      (hitem : parseScalar left line.text = .ok item) : ItemTree block line [] (.inline item)
  | block {below : List Line} {item : Tree}
      (hnot : ¬ (below = [] ∧ isInlineSeqItem line.text = true))
      (hliteral : ¬ (line.literal ≠ none ∧ startsWith dash line.text = false ∧
        findColon line.text = none)) (hblock : block (line :: below) item) :
      ItemTree block line below item

inductive ItemsTree (block : TreeReader) (indent : Nat) :
    List Line → List (Listed Tree) → Prop
  | nil : ItemsTree block indent [] []
  | cons {line : Line} {below rest : List Line} {item : Tree} {items : List (Listed Tree)}
      (hindent : line.indent = indent) (hdash : startsWith dash line.text = true)
      (hbelow : ∀ other ∈ below, indent < other.indent)
      (hitem : ItemTree block (line.afterDash indent) below item)
      (hrest : ItemsTree block indent rest items) :
      ItemsTree block indent (line :: (below ++ rest)) (⟨line.afterDash indent, item⟩ :: items)

inductive BlockTree (block : TreeReader) : List Line → Tree → Prop
  | empty : BlockTree block [] (.scalar [])
  | mapping {line : Line} {more : List Line} {entries : List (Keyed Tree)}
      (hdash : startsWith dash line.text = false)
      (hentries : EntriesTree block line.indent (line :: more) entries) :
      BlockTree block (line :: more) (.mapping entries)
  | sequence {line : Line} {more : List Line} {items : List (Listed Tree)}
      (hdash : startsWith dash line.text = true)
      (hitems : ItemsTree block line.indent (line :: more) items) :
      BlockTree block (line :: more) (.sequence items)

/-- The outline of some lines, of a bounded depth. -/
def Outline : Nat → TreeReader
  | 0 => fun _ _ => False
  | depth + 1 => BlockTree (Outline depth)

/-- The first line of a block is indented the least. -/
def LeastFirst (lines : List Line) : Prop :=
  ∀ first ∈ lines.head?, ∀ line ∈ lines, first.indent ≤ line.indent

theorem LeastFirst.cons {line : Line} {below rest : List Line}
    (hbelow : ∀ other ∈ below, line.indent < other.indent)
    (hfirst : ∀ first ∈ rest.head?, first.indent = line.indent) (hrest : LeastFirst rest) :
    LeastFirst (line :: (below ++ rest)) := by
  rintro _ ⟨⟩
  rw [List.forall_mem_cons]
  refine ⟨Nat.le_refl _, ?_⟩
  intro other hother
  rcases List.mem_append.mp hother with hother | hother
  · exact (hbelow other hother).le
  · cases rest with
    | nil => simp at hother
    | cons first rest =>
      rw [← hfirst first rfl]
      exact hrest first rfl other hother

theorem LeastFirst.deep (h : LeastFirst lines)
    (hfirst : ∀ first ∈ lines.head?, first.indent = indent) :
    ∀ line ∈ lines, indent ≤ line.indent := by
  cases lines with
  | nil => simp
  | cons first lines =>
    rw [← hfirst first rfl]
    exact h first rfl

section Lines

variable {block : TreeReader} {indent : Nat} {lines : List Line}

theorem EntriesTree.head (h : EntriesTree block indent lines entries) :
    ∀ line ∈ lines.head?, line.indent = indent := by
  cases h with
  | nil => simp
  | cons hindent =>
    rintro _ ⟨⟩
    exact hindent

theorem EntriesTree.leastFirst (h : EntriesTree block indent lines entries) : LeastFirst lines := by
  induction h with
  | nil => simp [LeastFirst]
  | @cons i line below rest val entries hindent _ hbelow _ hrest ih =>
    subst hindent
    exact .cons hbelow hrest.head ih

theorem ItemsTree.head (h : ItemsTree block indent lines items) :
    ∀ line ∈ lines.head?, line.indent = indent := by
  cases h with
  | nil => simp
  | cons hindent =>
    rintro _ ⟨⟩
    exact hindent

theorem ItemsTree.leastFirst (h : ItemsTree block indent lines items) : LeastFirst lines := by
  induction h with
  | nil => simp [LeastFirst]
  | @cons line below rest item items hindent _ hbelow _ hrest ih =>
    subst hindent
    exact .cons hbelow hrest.head ih

theorem BlockTree.leastFirst (h : BlockTree block lines tree) : LeastFirst lines := by
  cases h with
  | empty => simp [LeastFirst]
  | mapping _ hentries => exact hentries.leastFirst
  | sequence _ hitems => exact hitems.leastFirst

theorem Outline.leastFirst (h : Outline depth lines tree) : LeastFirst lines := by
  cases depth with
  | zero => cases h
  | succ depth => exact BlockTree.leastFirst h

end Lines

/-- A line that opens a literal block is not an inline value with a colon in it. -/
def Opens (line : Line) : Prop :=
  line.literal ≠ none → isInlineSeqItem (stripDashes line.text) = true →
    findColon (stripDashes line.text) = none

theorem stripDashes_drop (h : startsWith dash text = true) :
    stripDashes text = stripDashes (text.drop 2) := by
  obtain ⟨rest, rfl⟩ := List.isPrefixOf_iff_prefix.mp h
  rfl

theorem stripDashes_eq (h : startsWith dash text = false) : stripDashes text = text := by
  unfold stripDashes
  split
  · simp [startsWith, dash, List.isPrefixOf] at h
  · rfl

theorem not_dash_of_isInlineSeqItem (h : isInlineSeqItem text = true) :
    startsWith dash text = false := by
  unfold isInlineSeqItem at h
  split_ifs at h with hdash <;> simpa using hdash

theorem Opens.afterDash (h : Opens line) (hdash : startsWith dash line.text = true) (indent : Nat) :
    Opens (line.afterDash indent) := by
  unfold Opens at h
  rw [stripDashes_drop hdash] at h
  exact h

/-- An inline value with a colon in it ends with a brace or a quote. -/
theorem isInlineSeqItem_last (h : isInlineSeqItem s = true) (hcolon : findColon s = some i) :
    ∃ init b, s = init ++ [b] ∧ b ∈ [closeBrace, singleQuote, doubleQuote] := by
  unfold isInlineSeqItem at h
  split_ifs at h with hdash hbrace hnone
  · simp only [bracketed, Bool.and_eq_true, endsWith, List.isSuffixOf_iff_suffix] at hbrace
    obtain ⟨init, hinit⟩ := hbrace.2
    exact ⟨init, closeBrace, hinit.symm, by simp⟩
  · simp [hcolon] at hnone
  · simp only [Bool.and_eq_true, Bool.or_eq_true, decide_eq_true_eq] at h
    rcases h with ⟨⟨-, hhead | hhead⟩, hlast⟩
    · rw [hhead] at hlast
      obtain ⟨init, hinit⟩ := List.getLast?_eq_some_iff.mp hlast
      exact ⟨init, singleQuote, hinit, by simp⟩
    · rw [hhead] at hlast
      obtain ⟨init, hinit⟩ := List.getLast?_eq_some_iff.mp hlast
      exact ⟨init, doubleQuote, hinit, by simp⟩

theorem OpensLiteral.opens (h : OpensLiteral line) : Opens line := by
  intro hsome hinline
  obtain ⟨indicator, hindicator, hsupported⟩ := h hsome
  cases hcolon : findColon (stripDashes line.text) with
  | none => rfl
  | some i =>
    exfalso
    -- An inline value ends with a brace or a quote, and so would the indicator.
    obtain ⟨init, b, hlast, hb⟩ := isInlineSeqItem_last hinline hcolon
    have hbytes : ∀ b ∈ [closeBrace, singleQuote, doubleQuote],
        solid b = true ∧ b ≠ colon ∧ b ∉ [bar, hyphen, 43] := by decide +kernel
    obtain ⟨hsolid, hne, hnot⟩ := hbytes b hb
    obtain ⟨init', hinit'⟩ := trimSpaces_drop_findColon hcolon hlast hsolid hne
    have hposition : valuePosition line.text = init' ++ [b] := by
      rw [← hinit']
      simp only [valuePosition, hcolon]
    rw [blockIndicator_eq, hposition] at hindicator
    split_ifs at hindicator
    obtain rfl := Option.some.inj hindicator
    have hends : ∀ other ∈ [[bar], [bar, hyphen], [bar, 43]],
        ∃ c ∈ [bar, hyphen, 43], other.getLast? = some c := by decide
    obtain ⟨c, hc, hget⟩ := hends _ (not_not.mp hsupported)
    rw [List.getLast?_concat] at hget
    exact hnot (by rwa [Option.some.inj hget])

/-- What a parser of blocks takes has an outline, and returns its tree. -/
def Outlines (block : BlockParser) (reader : TreeReader) : Prop :=
  ∀ {lines minIndent node rest}, (∀ line ∈ lines, Opens line) →
    (∀ first ∈ lines.head?, minIndent < first.indent) →
    block lines minIndent = .ok (node, rest) →
    ∃ used tree, lines = used ++ rest ∧ (lines ≠ [] → used ≠ []) ∧ LeastFirst used ∧
      reader used tree ∧ tree.node = node

section Reading

variable {block : BlockParser} {reader : TreeReader} {left : Nat}

theorem ValueRead.outline (hblock : Outlines block reader) (hopens : ∀ other ∈ rest, Opens other)
    (h : ValueRead block left line value rest val lines) :
    ∃ used tree, rest = used ++ lines ∧ (∀ other ∈ used, line.indent < other.indent) ∧
      ValueTree reader line value used tree ∧ tree.node = val := by
  cases h with
  | literal hliteral => exact ⟨[], _, rfl, by simp, .literal hliteral, rfl⟩
  | inline hliteral hvalue hval =>
    exact ⟨[], _, rfl, by simp, .inline hliteral hvalue hval, rfl⟩
  | absent hliteral hvalue _ => exact ⟨[], _, rfl, by simp, .absent hliteral hvalue, rfl⟩
  | @child next more _ _ hliteral hvalue hrest hnext hval =>
    subst hrest
    obtain ⟨used, tree, hused, hne, hleast, htree, hnode⟩ := hblock hopens
      (by rintro _ ⟨⟩; exact_mod_cast hnext) hval
    have hne' := hne (by simp)
    refine ⟨used, tree, hused, ?_, .child hliteral hvalue hne' htree, hnode⟩
    obtain ⟨first, used', rfl⟩ := List.exists_cons_of_ne_nil hne'
    obtain rfl : next = first := (List.cons.inj hused).1
    intro other hother
    exact Nat.lt_of_lt_of_le hnext (hleast next rfl other hother)

theorem EntriesRead.outline (hblock : Outlines block reader) (hopens : ∀ line ∈ lines, Opens line)
    (h : EntriesRead block left base minIndent seen lines entries rest) :
    ∃ used trees, lines = used ++ rest ∧ (entries ≠ [] → used ≠ []) ∧ entryNodes trees = entries ∧
      (∀ first ∈ used.head?, base = none ∨ base = some first.indent) ∧
      ∀ indent, (∀ first ∈ used.head?, first.indent = indent) →
        EntriesTree reader indent used trees := by
  induction h with
  | stop => exact ⟨[], [], rfl, by simp, rfl, by simp, fun _ _ => .nil⟩
  | @entry base minIndent seen line more lines tail i val entries hinside hcolon _ hvalue _ ih =>
    rw [List.forall_mem_cons] at hopens
    obtain ⟨below, tree, rfl, hbelow, hval, rfl⟩ := hvalue.outline hblock hopens.2
    obtain ⟨after, trees, rfl, -, rfl, hbase, hentries⟩ :=
      ih (fun other hother => hopens.2 other (by simp [hother]))
    have hfirst : ∀ first ∈ after.head?, first.indent = line.indent := by
      intro first hmem
      simpa [eq_comm] using hbase first hmem
    refine ⟨line :: (below ++ after), ⟨line, _, tree⟩ :: trees, by simp, by simp, rfl, ?_, ?_⟩
    · rintro _ ⟨⟩
      exact hinside.2
    · intro indent hindent
      obtain rfl : line.indent = indent := hindent line rfl
      exact .cons rfl hcolon hbelow hval (hentries line.indent hfirst)

theorem ItemRead.outline (hblock : Outlines block reader) (hopens : Opens line)
    (hmore : ∀ other ∈ more, Opens other) (hdash : startsWith dash line.text = true)
    (hliteral : ¬ LiteralItem line)
    (h : ItemRead block left indent line (line.text.drop 2) more item) :
    ∃ tree, ItemTree reader (line.afterDash indent) more tree ∧ tree.node = item := by
  have hinner := hopens.afterDash hdash indent
  cases h with
  | inline hempty hinline hitem =>
    subst hempty
    have hnot := not_dash_of_isInlineSeqItem hinline
    have hnone : line.literal = none := by
      by_contra hsome
      have hcolon := hinner hsome
      rw [stripDashes_eq hnot] at hcolon
      exact hliteral ⟨hsome, hnot, hcolon hinline⟩
    exact ⟨.inline item, .inline hnone hinline hitem, rfl⟩
  | block hnot hitem =>
    obtain ⟨used, tree, hused, -, -, htree, hnode⟩ :=
      hblock (List.forall_mem_cons.mpr ⟨hinner, hmore⟩) (by rintro _ ⟨⟩; push_cast; omega) hitem
    rw [List.append_nil] at hused
    subst hused
    exact ⟨tree, .block hnot hliteral htree, hnode⟩

theorem ItemsRead.outline (hblock : Outlines block reader) (hopens : ∀ line ∈ lines, Opens line)
    (h : ItemsRead block left seqIndent lines items rest) :
    ∃ used trees, lines = used ++ rest ∧ (items ≠ [] → used ≠ []) ∧ itemNodes trees = items ∧
      ItemsTree reader seqIndent used trees := by
  induction h with
  | stop => exact ⟨[], [], rfl, by simp, rfl, .nil⟩
  | @literal line rest tail text items hline hliteral htext _ ih =>
    rw [List.forall_mem_cons] at hopens
    obtain ⟨after, trees, rfl, -, rfl, htrees⟩ := ih hopens.2
    obtain ⟨hindent, hdash⟩ := hline
    have hitem : ItemTree reader (line.afterDash seqIndent) [] (.scalar text) :=
      .literal htext hliteral.2.1 hliteral.2.2
    exact ⟨line :: ([] ++ after), _, by simp, by simp, rfl,
      .cons hindent hdash (by simp) hitem htrees⟩
  | @item line rest tail item items hline hliteral hitem _ ih =>
    rw [List.forall_mem_cons] at hopens
    obtain ⟨hindent, hdash⟩ := hline
    have hmem : ∀ other ∈ rest.dropWhile (seqIndent < ·.indent), Opens other :=
      fun other hother => hopens.2 other ((List.dropWhile_suffix _).subset hother)
    obtain ⟨after, trees, hafter, -, rfl, htrees⟩ := ih hmem
    have hrest : rest = rest.takeWhile (seqIndent < ·.indent) ++ (after ++ tail) := by
      rw [← hafter]
      exact (List.takeWhile_append_dropWhile).symm
    have hdeep : ∀ other ∈ rest.takeWhile (seqIndent < ·.indent),
        seqIndent < other.indent := by
      intro other hother
      simpa using List.mem_takeWhile_imp hother
    have hmore : ∀ other ∈ rest.takeWhile (seqIndent < ·.indent), Opens other :=
      fun other hother => hopens.2 other ((List.takeWhile_sublist _).subset hother)
    generalize rest.takeWhile (seqIndent < ·.indent) = more at hitem hrest hdeep hmore
    subst hrest
    obtain ⟨tree, htree, rfl⟩ := hitem.outline hblock hopens.1 hmore hdash hliteral
    exact ⟨line :: (more ++ after), _, by simp, by simp, rfl,
      .cons hindent hdash hdeep htree htrees⟩

theorem parseBlock_outline (left : Nat) : Outlines (parseBlock left) (Outline left) := by
  induction left with
  | zero =>
    intro lines minIndent node rest _ _ h
    cases h
  | succ left ih =>
    intro lines minIndent node rest hopens hmin h
    cases parseBlock_read h with
    | empty => exact ⟨[], _, rfl, by simp, by simp [LeastFirst], .empty, rfl⟩
    | @sequence line more _ items hdash hitems =>
      have hne : items ≠ [] := by
        rintro rfl
        cases hitems with
        | stop hstop => exact hstop line rfl ⟨rfl, hdash⟩
      obtain ⟨used, trees, hused, hnonempty, rfl, htrees⟩ := hitems.outline ih hopens
      have hused' := hnonempty hne
      refine ⟨used, .sequence trees, hused, fun _ => hused', htrees.leastFirst, ?_, rfl⟩
      obtain ⟨first, used', rfl⟩ := List.exists_cons_of_ne_nil hused'
      obtain rfl : line = first := (List.cons.inj hused).1
      exact .sequence hdash htrees
    | @mapping line more _ entries hdash hentries =>
      have hne : entries ≠ [] := by
        rintro rfl
        cases hentries with
        | stop hstop => exact hstop line rfl ⟨hmin line rfl, Or.inl rfl⟩
      obtain ⟨used, trees, hused, hnonempty, rfl, -, htrees⟩ := hentries.outline ih hopens
      have hused' := hnonempty hne
      obtain ⟨first, used', rfl⟩ := List.exists_cons_of_ne_nil hused'
      obtain rfl : line = first := (List.cons.inj hused).1
      have htree := htrees line.indent (by rintro _ ⟨⟩; rfl)
      exact ⟨line :: used', .mapping trees, hused, fun _ => hused', htree.leastFirst,
        .mapping hdash htree, rfl⟩

end Reading

/-- Every accepted document has an outline, and what is returned is its tree. -/
theorem parse_outline (h : parse data = .ok node) :
    ∃ lines tree, contentLines data = .ok lines ∧ Outline (maxParseDepth + 1) lines tree ∧
      tree.node = node := by
  obtain ⟨lines, hlines, hblock⟩ := parse_read h
  have hopens : ∀ line ∈ lines, Opens line := by
    intro line hline
    obtain ⟨raw, -, -, hopens⟩ := splitLines_textOf hlines hline
    exact hopens.opens
  obtain ⟨used, tree, hused, -, -, htree, hnode⟩ := parseBlock_outline _ hopens
    (fun first _ => by omega) hblock
  rw [List.append_nil] at hused
  subst hused
  exact ⟨lines, tree, hlines, htree, hnode⟩

end Gopherd.Yaml
