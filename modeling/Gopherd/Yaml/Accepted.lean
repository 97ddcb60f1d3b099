import Gopherd.Yaml.Parser

/-!
What the parser did when it accepted.
-/

namespace Gopherd.Yaml

open Go

inductive ValueRead (block : BlockParser) (left : Nat) (line : Line) (value : Bytes)
    (rest : List Line) : Node Bytes → List Line → Prop
  | literal {text : Bytes} (hliteral : line.literal = some text) :
      ValueRead block left line value rest (.scalar text) rest
  | inline {val : Node Bytes} (hliteral : line.literal = none) (hvalue : value ≠ [])
      (hval : parseScalar left value = .ok val) : ValueRead block left line value rest val rest
  | absent (hliteral : line.literal = none) (hvalue : value = [])
      (hnext : ∀ next ∈ rest.head?, next.indent ≤ line.indent) :
      ValueRead block left line value rest (.scalar []) rest
  | child {next : Line} {more : List Line} {val : Node Bytes} {lines : List Line}
      (hliteral : line.literal = none) (hvalue : value = []) (hrest : rest = next :: more)
      (hnext : line.indent < next.indent) (hblock : block rest line.indent = .ok (val, lines)) :
      ValueRead block left line value rest val lines

variable {block : BlockParser} {left seqIndent : Nat} {line : Line} {rest lines : List Line}
  {base : Option Nat} {minIndent : Int} {node : Node Bytes}

theorem parseValue_read (h : parseValue block left line value rest = .ok (val, lines)) :
    ValueRead block left line value rest val lines := by
  unfold parseValue at h
  split at h
  · rename_i literal hliteral
    cases h
    exact .literal hliteral
  · rename_i hliteral
    split_ifs at h with hvalue
    · split at h
      · rename_i val' hval
        cases h
        exact .inline hliteral hvalue hval
      · cases h
    · have hempty : value = [] := by simpa using hvalue
      cases rest with
      | nil =>
        cases h
        exact .absent hliteral hempty (by simp)
      | cons next more =>
        unfold parseChild at h
        simp only at h
        split_ifs at h with hnext
        · cases h
          exact .absent hliteral hempty (by simpa using hnext)
        · exact .child hliteral hempty rfl (Nat.lt_of_not_le hnext) h

/-- The line belongs to the mapping whose first key has the indentation `base`. -/
def Inside (base : Option Nat) (minIndent : Int) (line : Line) : Prop :=
  minIndent < line.indent ∧ (base = none ∨ base = some line.indent)

inductive EntriesRead (block : BlockParser) (left : Nat) :
    Option Nat → Int → List (Bytes × Nat) → List Line → List (Bytes × Node Bytes) →
      List Line → Prop
  | stop {base : Option Nat} {minIndent : Int} {seen : List (Bytes × Nat)} {lines : List Line}
      (hstop : ∀ line ∈ lines.head?, ¬ Inside base minIndent line) :
      EntriesRead block left base minIndent seen lines [] lines
  | entry {base : Option Nat} {minIndent : Int} {seen : List (Bytes × Nat)} {line : Line}
      {rest lines tail : List Line} {i : Nat} {val : Node Bytes}
      {entries : List (Bytes × Node Bytes)} (hinside : Inside base minIndent line)
      (hcolon : findColon line.text = some i)
      (hseen : seen.lookup (trimSpaces (line.text.take i)) = none)
      (hvalue : ValueRead block left line (trimSpaces (line.text.drop (i + 1))) rest val lines)
      (hentries : EntriesRead block left (some line.indent) (line.indent - 1)
        ((trimSpaces (line.text.take i), line.num) :: seen) lines entries tail) :
      EntriesRead block left base minIndent seen (line :: rest)
        ((trimSpaces (line.text.take i), val) :: entries) tail

def Shrinks (block : BlockParser) : Prop :=
  ∀ {lines minIndent node rest}, block lines minIndent = .ok (node, rest) →
    rest.length ≤ lines.length

theorem ValueRead.length_le (hblock : Shrinks block)
    (h : ValueRead block left line value rest val lines) : lines.length ≤ rest.length := by
  cases h with
  | literal => exact Nat.le_refl _
  | inline => exact Nat.le_refl _
  | absent => exact Nat.le_refl _
  | child _ _ _ _ hval => exact hblock hval

theorem inside_iff :
    Inside base minIndent line ↔ ¬ (0 ≤ minIndent ∧ (line.indent : Int) ≤ minIndent) ∧
      ¬ (base.isSome ∧ base ≠ some line.indent) := by
  unfold Inside
  constructor
  · rintro ⟨hindent, hbase⟩
    refine ⟨by omega, ?_⟩
    rcases hbase with rfl | rfl
    · simp
    · simp
  · rintro ⟨hindent, hbase⟩
    refine ⟨by omega, ?_⟩
    cases base with
    | none => exact Or.inl rfl
    | some n => exact Or.inr (by simpa using hbase)

theorem parseEntries_read (hblock : Shrinks block) (hfuel : lines.length ≤ fuel)
    (h : parseEntries block left fuel base minIndent seen lines = .ok (entries, rest)) :
    EntriesRead block left base minIndent seen lines entries rest := by
  induction fuel generalizing base minIndent seen lines entries with
  | zero =>
    obtain rfl : lines = [] := List.eq_nil_of_length_eq_zero (Nat.le_zero.mp hfuel)
    cases h
    exact .stop (by simp)
  | succ fuel ih =>
    cases lines with
    | nil =>
      cases h
      exact .stop (by simp)
    | cons line more =>
      by_cases hinside : Inside base minIndent line
      · obtain ⟨hindent, hbase⟩ := inside_iff.mp hinside
        rw [parseEntries, if_neg hindent, if_neg hbase] at h
        split at h
        · cases h
        · rename_i i hcolon
          simp only at h
          split at h
          · cases h
          · rename_i hseen
            obtain ⟨⟨val, after⟩, hvalue, h⟩ := Except.bind_eq_ok.mp h
            obtain ⟨⟨entries', tail⟩, hentries, h⟩ := Except.bind_eq_ok.mp h
            cases h
            have hread := parseValue_read hvalue
            have hlength := hread.length_le hblock
            rw [List.length_cons] at hfuel
            exact .entry hinside hcolon hseen hread
              (ih (by omega) hentries)
      · have hstop : parseEntries block left (fuel + 1) base minIndent seen (line :: more) =
            .ok ([], line :: more) := by
          rw [inside_iff, not_and_or, not_not, not_not] at hinside
          rw [parseEntries]
          split_ifs with h1 h2
          · rfl
          · rfl
          · exact absurd hinside (by simp [h1, h2])
        rw [hstop] at h
        cases h
        exact .stop (by simpa using hinside)

inductive ItemRead (block : BlockParser) (left seqIndent : Nat) (line : Line) (itemText : Bytes)
    (more : List Line) : Node Bytes → Prop
  | inline {item : Node Bytes} (hmore : more = []) (hinline : isInlineSeqItem itemText = true)
      (hitem : parseScalar left itemText = .ok item) :
      ItemRead block left seqIndent line itemText more item
  | block {item : Node Bytes} (hnot : ¬ (more = [] ∧ isInlineSeqItem itemText = true))
      (hitem : block ({ line with text := itemText, indent := seqIndent + 2 } :: more)
        (seqIndent + 2 - 1) = .ok (item, [])) :
      ItemRead block left seqIndent line itemText more item

theorem parseItem_read (h : parseItem block left seqIndent line itemText more = .ok item) :
    ItemRead block left seqIndent line itemText more item := by
  unfold parseItem at h
  split_ifs at h with hinline
  · split at h
    · rename_i item' hitem
      cases h
      exact .inline hinline.1 hinline.2 hitem
    · cases h
  · obtain ⟨⟨item', unused⟩, hitem, h⟩ := Except.bind_eq_ok.mp h
    cases unused with
    | nil =>
      cases h
      exact .block hinline hitem
    | cons bad unused => cases h

/-- The line is an item of the list whose dashes have the indentation
`seqIndent`. -/
def IsItem (seqIndent : Nat) (line : Line) : Prop :=
  line.indent = seqIndent ∧ startsWith dash line.text = true

/-- The item is the literal block that its line opens. -/
def LiteralItem (line : Line) : Prop :=
  line.literal ≠ none ∧ startsWith dash (line.text.drop 2) = false ∧
    findColon (line.text.drop 2) = none

inductive ItemsRead (block : BlockParser) (left seqIndent : Nat) :
    List Line → List (Node Bytes) → List Line → Prop
  | stop {lines : List Line} (hstop : ∀ line ∈ lines.head?, ¬ IsItem seqIndent line) :
      ItemsRead block left seqIndent lines [] lines
  | literal {line : Line} {rest tail : List Line} {text : Bytes} {items : List (Node Bytes)}
      (hline : IsItem seqIndent line) (hliteral : LiteralItem line)
      (htext : line.literal = some text) (hitems : ItemsRead block left seqIndent rest items tail) :
      ItemsRead block left seqIndent (line :: rest) (.scalar text :: items) tail
  | item {line : Line} {rest tail : List Line} {item : Node Bytes} {items : List (Node Bytes)}
      (hline : IsItem seqIndent line) (hliteral : ¬ LiteralItem line)
      (hitem : ItemRead block left seqIndent line (line.text.drop 2)
        (rest.takeWhile (seqIndent < ·.indent)) item)
      (hitems : ItemsRead block left seqIndent (rest.dropWhile (seqIndent < ·.indent)) items tail) :
      ItemsRead block left seqIndent (line :: rest) (item :: items) tail

theorem parseItems_read (hfuel : lines.length ≤ fuel)
    (h : parseItems block left seqIndent fuel lines = .ok (items, rest)) :
    ItemsRead block left seqIndent lines items rest := by
  induction fuel generalizing lines items with
  | zero =>
    obtain rfl : lines = [] := List.eq_nil_of_length_eq_zero (Nat.le_zero.mp hfuel)
    cases h
    exact .stop (by simp)
  | succ fuel ih =>
    cases lines with
    | nil =>
      cases h
      exact .stop (by simp)
    | cons line more =>
      have hdrop := (List.dropWhile_suffix (fun l : Line => decide (seqIndent < l.indent))
        (l := more)).length_le
      rw [List.length_cons] at hfuel
      rw [parseItems] at h
      split_ifs at h with hstop
      · cases h
        refine .stop ?_
        rintro _ ⟨⟩ ⟨hindent, hdash⟩
        simp [hindent, hdash] at hstop
      · have hline : IsItem seqIndent line := by
          rw [not_or] at hstop
          exact ⟨by simpa using hstop.1, by simpa using hstop.2⟩
        simp only at h
        split at h
        · rename_i literal hliteral
          split_ifs at h with hplain
          · obtain ⟨⟨items', tail⟩, hitems, h⟩ := Except.bind_eq_ok.mp h
            cases h
            exact .literal hline ⟨by simp [hliteral], by simpa using hplain.1, hplain.2⟩
              hliteral (ih (by omega) hitems)
          · obtain ⟨item, hitem, h⟩ := Except.bind_eq_ok.mp h
            obtain ⟨⟨items', tail⟩, hitems, h⟩ := Except.bind_eq_ok.mp h
            cases h
            refine .item hline ?_ (parseItem_read hitem) (ih (by omega) hitems)
            rintro ⟨-, hdash, hcolon⟩
            exact hplain ⟨by simpa using hdash, hcolon⟩
        · rename_i hliteral
          obtain ⟨item, hitem, h⟩ := Except.bind_eq_ok.mp h
          obtain ⟨⟨items', tail⟩, hitems, h⟩ := Except.bind_eq_ok.mp h
          cases h
          refine .item hline ?_ (parseItem_read hitem) (ih (by omega) hitems)
          rintro ⟨hsome, -⟩
          exact hsome hliteral

theorem EntriesRead.length_le (hblock : Shrinks block)
    (h : EntriesRead block left base minIndent seen lines entries rest) :
    rest.length ≤ lines.length := by
  induction h with
  | stop => exact Nat.le_refl _
  | entry _ _ _ hvalue _ ih =>
    have hlength := hvalue.length_le hblock
    rw [List.length_cons]
    omega

theorem ItemsRead.length_le (h : ItemsRead block left seqIndent lines items rest) :
    rest.length ≤ lines.length := by
  induction h with
  | stop => exact Nat.le_refl _
  | literal _ _ _ _ ih =>
    rw [List.length_cons]
    omega
  | @item line more tail item items _ _ _ _ ih =>
    have hdrop := (List.dropWhile_suffix (fun l : Line => decide (seqIndent < l.indent))
      (l := more)).length_le
    rw [List.length_cons]
    omega

inductive BlockRead (left : Nat) (minIndent : Int) : List Line → Node Bytes → List Line → Prop
  | empty : BlockRead left minIndent [] (.scalar []) []
  | sequence {line : Line} {more rest : List Line} {items : List (Node Bytes)}
      (hdash : startsWith dash line.text = true)
      (hitems : ItemsRead (parseBlock left) (left + 1) line.indent (line :: more) items rest) :
      BlockRead left minIndent (line :: more) (.sequence items) rest
  | mapping {line : Line} {more rest : List Line} {entries : List (Bytes × Node Bytes)}
      (hdash : startsWith dash line.text = false)
      (hentries : EntriesRead (parseBlock left) (left + 1) none minIndent [] (line :: more)
        entries rest) :
      BlockRead left minIndent (line :: more) (.mapping entries) rest

theorem parseBlock_cases (hshrinks : Shrinks (parseBlock left))
    (h : parseBlock (left + 1) lines minIndent = .ok (node, rest)) :
    BlockRead left minIndent lines node rest := by
  cases lines with
  | nil =>
    cases h
    exact .empty
  | cons line more =>
    rw [parseBlock] at h
    split_ifs at h with hdash
    · obtain ⟨⟨items, tail⟩, hitems, h⟩ := Except.bind_eq_ok.mp h
      cases h
      exact .sequence hdash (parseItems_read (Nat.le_refl _) hitems)
    · obtain ⟨⟨entries, tail⟩, hentries, h⟩ := Except.bind_eq_ok.mp h
      cases h
      exact .mapping (by simpa using hdash)
        (parseEntries_read hshrinks (Nat.le_refl _) hentries)

theorem parseBlock_shrinks (left : Nat) : Shrinks (parseBlock left) := by
  induction left with
  | zero =>
    intro lines minIndent node rest h
    cases h
  | succ left ih =>
    intro lines minIndent node rest h
    cases parseBlock_cases ih h with
    | empty => exact Nat.le_refl _
    | sequence _ hitems => exact hitems.length_le
    | mapping _ hentries => exact hentries.length_le ih

theorem parseBlock_read (h : parseBlock (left + 1) lines minIndent = .ok (node, rest)) :
    BlockRead left minIndent lines node rest :=
  parseBlock_cases (parseBlock_shrinks left) h

/-- An accepted document is one block. -/
theorem parse_read (h : parse data = .ok node) :
    ∃ lines, contentLines data = .ok lines ∧
      parseBlock (maxParseDepth + 1) lines (-1) = .ok (node, []) := by
  obtain ⟨lines, hlines, h⟩ := Except.bind_eq_ok.mp h
  obtain ⟨⟨node', unused⟩, hblock, h⟩ := Except.bind_eq_ok.mp h
  cases unused with
  | cons bad unused => cases h
  | nil =>
    cases h
    exact ⟨lines, hlines, hblock⟩

end Gopherd.Yaml
