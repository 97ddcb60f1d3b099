import Gopherd.Yaml.Markers
import Gopherd.Yaml.Split

/-!
Where the content lines of an accepted document are in its tree. A block is a
mapping or a list.
-/

namespace Gopherd.Yaml

open Go

mutual

inductive Placed : List Line → Node Bytes → Prop
  | empty : Placed [] (.scalar [])
  | mapping {indent : Nat} {lines : List Line} {entries : List (Bytes × Node Bytes)}
      (hne : lines ≠ []) (hentries : PlacedEntries indent lines entries) :
      Placed lines (.mapping entries)
  | sequence {indent : Nat} {lines : List Line} {items : List (Node Bytes)} (hne : lines ≠ [])
      (hitems : PlacedItems indent lines items) : Placed lines (.sequence items)

inductive PlacedEntries : Nat → List Line → List (Bytes × Node Bytes) → Prop
  | nil {indent : Nat} : PlacedEntries indent [] []
  | cons {indent i : Nat} {line : Line} {below rest : List Line} {val : Node Bytes}
      {entries : List (Bytes × Node Bytes)} (hindent : line.indent = indent)
      (hdash : startsWith dash line.text = false) (hcolon : findColon line.text = some i)
      (hbelow : ∀ other ∈ below, indent < other.indent)
      (hvalue : PlacedValue line (trimSpaces (line.text.drop (i + 1))) below val)
      (hrest : PlacedEntries indent rest entries) :
      PlacedEntries indent (line :: (below ++ rest))
        ((trimSpaces (line.text.take i), val) :: entries)

inductive PlacedValue : Line → Bytes → List Line → Node Bytes → Prop
  | literal {line : Line} {value text : Bytes} (hliteral : line.literal = some text) :
      PlacedValue line value [] (.scalar text)
  | inline {left : Nat} {line : Line} {value : Bytes} {val : Node Bytes}
      (hliteral : line.literal = none) (hvalue : value ≠ [])
      (hval : parseScalar left value = .ok val) : PlacedValue line value [] val
  | absent {line : Line} (hliteral : line.literal = none) : PlacedValue line [] [] (.scalar [])
  | child {line : Line} {below : List Line} {val : Node Bytes} (hliteral : line.literal = none)
      (hne : below ≠ []) (hblock : Placed below val) : PlacedValue line [] below val

inductive PlacedItems : Nat → List Line → List (Node Bytes) → Prop
  | nil {indent : Nat} : PlacedItems indent [] []
  | cons {indent : Nat} {line : Line} {below rest : List Line} {item : Node Bytes}
      {items : List (Node Bytes)} (hindent : line.indent = indent)
      (hdash : startsWith dash line.text = true) (hbelow : ∀ other ∈ below, indent < other.indent)
      (hitem : PlacedItem (line.afterDash indent) below item)
      (hrest : PlacedItems indent rest items) :
      PlacedItems indent (line :: (below ++ rest)) (item :: items)

inductive PlacedItem : Line → List Line → Node Bytes → Prop
  | literal {line : Line} {text : Bytes} (hliteral : line.literal = some text)
      (hdash : startsWith dash line.text = false) (hcolon : findColon line.text = none) :
      PlacedItem line [] (.scalar text)
  | inline {left : Nat} {line : Line} {item : Node Bytes} (hliteral : line.literal = none)
      (hinline : isInlineSeqItem line.text = true) (hitem : parseScalar left line.text = .ok item) :
      PlacedItem line [] item
  | block {line : Line} {below : List Line} {item : Node Bytes}
      (hblock : Placed (line :: below) item) : PlacedItem line below item

end

/-- Two ways to cut the lines below a key or an item are the same. -/
theorem span_unique {first rest first' rest' : List Line} (h : first ++ rest = first' ++ rest')
    (hfirst : ∀ line ∈ first, indent < line.indent)
    (hfirst' : ∀ line ∈ first', indent < line.indent)
    (hrest : ∀ line ∈ rest.head?, line.indent = indent)
    (hrest' : ∀ line ∈ rest'.head?, line.indent = indent) : first = first' ∧ rest = rest' := by
  have htake : ∀ {first rest : List Line}, (∀ line ∈ first, indent < line.indent) →
      (∀ line ∈ rest.head?, line.indent = indent) →
      (first ++ rest).takeWhile (fun line => decide (indent < line.indent)) = first := by
    intro first rest hfirst hrest
    rw [List.takeWhile_append_of_pos (by simpa using hfirst)]
    cases rest with
    | nil => simp
    | cons line rest =>
      have hline : line.indent = indent := hrest line rfl
      simp [hline]
  have heq : first = first' := by
    rw [← htake hfirst hrest, h, htake hfirst' hrest']
  subst heq
  exact ⟨rfl, List.append_cancel_left h⟩

theorem PlacedEntries.head (h : PlacedEntries indent lines entries) :
    ∀ line ∈ lines.head?, line.indent = indent := by
  cases h with
  | nil => simp
  | cons hindent =>
    rintro _ ⟨⟩
    exact hindent

theorem PlacedEntries.not_dash (h : PlacedEntries indent lines entries) :
    ∀ line ∈ lines.head?, startsWith dash line.text = false := by
  cases h with
  | nil => simp
  | cons _ hdash =>
    rintro _ ⟨⟩
    exact hdash

theorem PlacedItems.head (h : PlacedItems indent lines items) :
    ∀ line ∈ lines.head?, line.indent = indent := by
  cases h with
  | nil => simp
  | cons hindent =>
    rintro _ ⟨⟩
    exact hindent

theorem placedEntries_cons_iff {line : Line} (hindent : line.indent = indent)
    (hdash : startsWith dash line.text = false) (hcolon : findColon line.text = some i)
    (hbelow : ∀ other ∈ below, indent < other.indent)
    (hrest : ∀ first ∈ rest.head?, first.indent = indent) :
    PlacedEntries indent (line :: (below ++ rest))
        ((trimSpaces (line.text.take i), val) :: entries) ↔
      PlacedValue line (trimSpaces (line.text.drop (i + 1))) below val ∧
        PlacedEntries indent rest entries := by
  constructor
  · intro h
    generalize hlines : line :: (below ++ rest) = lines at h
    generalize hall : (trimSpaces (line.text.take i), val) :: entries = all at h
    cases h with
    | nil => cases hlines
    | cons _ _ hcolon' hbelow' hvalue hentries =>
      obtain ⟨rfl, hsplit⟩ := List.cons.inj hlines
      obtain ⟨hpair, rfl⟩ := List.cons.inj hall
      obtain ⟨rfl, rfl⟩ := span_unique hsplit hbelow hbelow' hrest hentries.head
      obtain rfl : i = _ := Option.some.inj (hcolon.symm.trans hcolon')
      obtain rfl := (Prod.mk.inj hpair).2
      exact ⟨hvalue, hentries⟩
  · rintro ⟨hvalue, hentries⟩
    exact .cons hindent hdash hcolon hbelow hvalue hentries

theorem placedItems_cons_iff {line : Line} (hindent : line.indent = indent)
    (hdash : startsWith dash line.text = true) (hbelow : ∀ other ∈ below, indent < other.indent)
    (hrest : ∀ first ∈ rest.head?, first.indent = indent) :
    PlacedItems indent (line :: (below ++ rest)) (item :: items) ↔
      PlacedItem (line.afterDash indent) below item ∧ PlacedItems indent rest items := by
  constructor
  · intro h
    generalize hlines : line :: (below ++ rest) = lines at h
    generalize hall : item :: items = all at h
    cases h with
    | nil => cases hlines
    | cons _ _ hbelow' hitem hitems =>
      obtain ⟨rfl, hsplit⟩ := List.cons.inj hlines
      obtain ⟨rfl, rfl⟩ := List.cons.inj hall
      obtain ⟨rfl, rfl⟩ := span_unique hsplit hbelow hbelow' hrest hitems.head
      exact ⟨hitem, hitems⟩
  · rintro ⟨hitem, hitems⟩
    exact .cons hindent hdash hbelow hitem hitems

theorem placed_sequence_iff :
    Placed (first :: lines) (.sequence items) ↔
      PlacedItems first.indent (first :: lines) items := by
  constructor
  · intro h
    cases h with
    | sequence _ hitems =>
      obtain rfl := hitems.head first rfl
      exact hitems
  · exact .sequence (by simp)

theorem placed_mapping_iff :
    Placed (first :: lines) (.mapping entries) ↔
      PlacedEntries first.indent (first :: lines) entries := by
  constructor
  · intro h
    cases h with
    | mapping _ hentries =>
      obtain rfl := hentries.head first rfl
      exact hentries
  · exact .mapping (by simp)

section Outline

variable {block : TreeReader}

/-- The blocks are placed exactly when their trees are dashless. -/
def PlacedBy (block : TreeReader) : Prop :=
  ∀ {lines tree}, block lines tree → (Placed lines tree.node ↔ tree.Dashless)

theorem ValueTree.placed (hblock : PlacedBy block) (h : ValueTree block line value below val) :
    PlacedValue line value below val.node ↔ val.Dashless := by
  cases h with
  | literal hliteral => exact iff_of_true (.literal hliteral) (Tree.everywhere_scalar _)
  | inline hliteral hvalue hval =>
    exact iff_of_true (.inline hliteral hvalue hval) (Tree.everywhere_inline _)
  | absent hliteral hvalue =>
    subst hvalue
    exact iff_of_true (.absent hliteral) (Tree.everywhere_scalar _)
  | child hliteral hvalue hne hval =>
    subst hvalue
    rw [← hblock hval]
    generalize val.node = node
    constructor
    · intro hplaced
      cases hplaced with
      | literal hsome => simp [hliteral] at hsome
      | inline _ hvalue _ => exact absurd rfl hvalue
      | absent => exact absurd rfl hne
      | child _ _ hplaced => exact hplaced
    · exact .child hliteral hne

theorem EntriesTree.placed (hblock : PlacedBy block) (h : EntriesTree block indent lines entries) :
    PlacedEntries indent lines (entryNodes entries) ↔ (Tree.mapping entries).Dashless := by
  induction h with
  | nil => exact iff_of_true .nil (by simp [Tree.Dashless, Tree.everywhere_mapping])
  | @cons i line below rest val entries hindent hcolon hbelow hvalue hrest ih =>
    rw [Tree.Dashless, Tree.everywhere_mapping, List.forall_mem_cons, ← Tree.everywhere_mapping,
      ← Tree.Dashless, ← Tree.Dashless]
    cases hdash : startsWith dash line.text with
    | true =>
      -- The marker is part of a key, and no placed key has one.
      constructor
      · intro hplaced
        simp [hplaced.not_dash line rfl] at hdash
      · simp
    | false =>
      rw [entryNodes, placedEntries_cons_iff hindent hdash hcolon hbelow hrest.head,
        hvalue.placed hblock, ih]
      simp

theorem ItemTree.placed (hblock : PlacedBy block) (h : ItemTree block line below item) :
    PlacedItem line below item.node ↔ item.Dashless := by
  cases h with
  | literal hliteral hdash hcolon =>
    exact iff_of_true (.literal hliteral hdash hcolon) (Tree.everywhere_scalar _)
  | inline hliteral hinline hitem =>
    exact iff_of_true (.inline hliteral hinline hitem) (Tree.everywhere_inline _)
  | block hnot hliteral hitem =>
    rw [← hblock hitem]
    generalize item.node = node
    constructor
    · intro hplaced
      cases hplaced with
      | literal hsome hdash hcolon =>
        exact absurd ⟨by simp [hsome], hdash, hcolon⟩ hliteral
      | inline _ hinline _ => exact absurd ⟨rfl, hinline⟩ hnot
      | block hplaced => exact hplaced
    · exact .block

theorem ItemsTree.placed (hblock : PlacedBy block) (h : ItemsTree block indent lines items) :
    PlacedItems indent lines (itemNodes items) ↔ (Tree.sequence items).Dashless := by
  induction h with
  | nil => exact iff_of_true .nil (by simp [Tree.Dashless, Tree.everywhere_sequence])
  | @cons line below rest item items hindent hdash hbelow hitem hrest ih =>
    rw [Tree.Dashless, Tree.everywhere_sequence, List.forall_mem_cons,
      ← Tree.everywhere_sequence, ← Tree.Dashless, ← Tree.Dashless, itemNodes,
      placedItems_cons_iff hindent hdash hbelow hrest.head, hitem.placed hblock, ih]

theorem Outline.placed (depth : Nat) : PlacedBy (Outline depth) := by
  induction depth with
  | zero =>
    intro lines tree h
    cases h
  | succ depth ih =>
    intro lines tree h
    cases h with
    | empty => exact iff_of_true .empty (Tree.everywhere_scalar _)
    | mapping hdash hentries =>
      rw [Tree.node, placed_mapping_iff]
      exact hentries.placed ih
    | sequence hdash hitems =>
      rw [Tree.node, placed_sequence_iff]
      exact hitems.placed ih

end Outline

end Gopherd.Yaml
