import Gopherd.Yaml.Fits
import Mathlib.Logic.Relation

/-!
How deep the parsers call each other and how deep the trees are that they return. The
source counts the depth up to `maxParseDepth`, the model the levels that are left.
-/

namespace Gopherd.Yaml

open Go

def levelsLeft (depth : Nat) : Nat :=
  maxParseDepth + 1 - depth

theorem levelsLeft_of_le (h : depth ≤ maxParseDepth) :
    levelsLeft depth = levelsLeft (depth + 1) + 1 := by
  unfold levelsLeft
  omega

/-- `parseBlock` with the depth as the source passes it. -/
theorem parseBlock_depth (depth : Nat) (line : Line) (more : List Line) (minIndent : Int) :
    parseBlock (levelsLeft depth) (line :: more) minIndent =
      if maxParseDepth < depth then .error (.tooDeep line.num)
      else if startsWith dash line.text then
        parseSequence (parseBlock (levelsLeft (depth + 1))) (levelsLeft depth) (line :: more)
          line.indent
      else
        parseMapping (parseBlock (levelsLeft (depth + 1))) (levelsLeft depth) (line :: more)
          minIndent := by
  split_ifs with hdepth hdash
  · rw [levelsLeft, Nat.sub_eq_zero_of_le hdepth, parseBlock]
    rfl
  all_goals
    rw [levelsLeft_of_le (Nat.not_lt.mp hdepth), parseBlock]
    simp [hdash]

/-- `parseScalar` with the depth as the source passes it. -/
theorem parseScalar_depth (depth : Nat) (s : Bytes) :
    parseScalar (levelsLeft depth) s =
      if maxParseDepth < depth then .error .tooDeep
      else if bracketed openBracket closeBracket s then
        .ok (.sequence ((splitCSV (inner s)).map fun item => .scalar (unquote (trimSpaces item))))
      else if bracketed openBrace closeBrace s then do
        let entries ←
          parseInlineEntries (parseScalar (levelsLeft (depth + 1))) [] (splitCSV (inner s))
        pure (.mapping entries)
      else .ok (.scalar (unquote (trimSpaces s))) := by
  split_ifs with hdepth hlist hmap
  · rw [levelsLeft, Nat.sub_eq_zero_of_le hdepth, parseScalar]
  all_goals
    rw [levelsLeft_of_le (Nat.not_lt.mp hdepth), parseScalar]
    simp [*]

inductive Frame where
  | block (lines : List Line) (minIndent : Int) (depth : Nat)
  | mapping (base : Option Nat) (minIndent : Int) (seen : List (Bytes × Nat)) (lines : List Line)
      (depth : Nat)
  | sequence (seqIndent : Nat) (lines : List Line) (depth : Nat)
  | scalar (s : Bytes) (depth : Nat)
  | inlineMap (seen entries : List Bytes) (depth : Nat)

def Frame.depth : Frame → Nat
  | .block _ _ depth => depth
  | .mapping _ _ _ _ depth => depth
  | .sequence _ _ depth => depth
  | .scalar _ depth => depth
  | .inlineMap _ _ depth => depth

def IsKey (base : Option Nat) (minIndent : Int) (seen : List (Bytes × Nat)) (line : Line)
    (i : Nat) : Prop :=
  Inside base minIndent line ∧ findColon line.text = some i ∧
    seen.lookup (trimSpaces (line.text.take i)) = none

def IsInlineKey (seen : List Bytes) (entry : Bytes) (i : Nat) : Prop :=
  trimSpaces entry ≠ [] ∧ findColon (trimSpaces entry) = some i ∧
    unquote (trimSpaces ((trimSpaces entry).take i)) ∉ seen

inductive Calls : Frame → Frame → Prop
  | parseSequence {line : Line} {more : List Line} {minIndent : Int} {depth : Nat}
      (hdepth : ¬ maxParseDepth < depth) (hdash : startsWith dash line.text = true) :
      Calls (.block (line :: more) minIndent depth) (.sequence line.indent (line :: more) depth)
  | parseMapping {line : Line} {more : List Line} {minIndent : Int} {depth : Nat}
      (hdepth : ¬ maxParseDepth < depth) (hdash : startsWith dash line.text = false) :
      Calls (.block (line :: more) minIndent depth)
        (.mapping none minIndent [] (line :: more) depth)
  | value {base : Option Nat} {minIndent : Int} {seen : List (Bytes × Nat)} {line : Line}
      {rest : List Line} {depth i : Nat} (hkey : IsKey base minIndent seen line i)
      (hliteral : line.literal = none) (hvalue : trimSpaces (line.text.drop (i + 1)) ≠ []) :
      Calls (.mapping base minIndent seen (line :: rest) depth)
        (.scalar (trimSpaces (line.text.drop (i + 1))) depth)
  | child {base : Option Nat} {minIndent : Int} {seen : List (Bytes × Nat)} {line next : Line}
      {rest : List Line} {depth i : Nat} (hkey : IsKey base minIndent seen line i)
      (hliteral : line.literal = none) (hvalue : trimSpaces (line.text.drop (i + 1)) = [])
      (hnext : line.indent < next.indent) :
      Calls (.mapping base minIndent seen (line :: next :: rest) depth)
        (.block (next :: rest) line.indent (depth + 1))
  | nextKey {base : Option Nat} {minIndent : Int} {seen : List (Bytes × Nat)} {line : Line}
      {rest lines : List Line} {depth i : Nat} {val : Node Bytes}
      (hkey : IsKey base minIndent seen line i)
      (hvalue : parseValue (parseBlock (levelsLeft (depth + 1))) (levelsLeft depth) line
        (trimSpaces (line.text.drop (i + 1))) rest = .ok (val, lines)) :
      Calls (.mapping base minIndent seen (line :: rest) depth)
        (.mapping (some line.indent) (line.indent - 1)
          ((trimSpaces (line.text.take i), line.num) :: seen) lines depth)
  | item {seqIndent : Nat} {line : Line} {rest : List Line} {depth : Nat}
      (hline : IsItem seqIndent line) (hliteral : ¬ LiteralItem line)
      (halone : rest.takeWhile (seqIndent < ·.indent) = [])
      (hinline : isInlineSeqItem (line.text.drop 2) = true) :
      Calls (.sequence seqIndent (line :: rest) depth) (.scalar (line.text.drop 2) depth)
  | itemBlock {seqIndent : Nat} {line : Line} {rest : List Line} {depth : Nat}
      (hline : IsItem seqIndent line) (hliteral : ¬ LiteralItem line)
      (hblock : ¬ (rest.takeWhile (seqIndent < ·.indent) = [] ∧
        isInlineSeqItem (line.text.drop 2) = true)) :
      Calls (.sequence seqIndent (line :: rest) depth)
        (.block ({ line with text := line.text.drop 2, indent := seqIndent + 2 } ::
          rest.takeWhile (seqIndent < ·.indent)) (seqIndent + 2 - 1) (depth + 1))
  | nextLiteral {seqIndent : Nat} {line : Line} {rest : List Line} {depth : Nat}
      (hline : IsItem seqIndent line) (hliteral : LiteralItem line) :
      Calls (.sequence seqIndent (line :: rest) depth) (.sequence seqIndent rest depth)
  | nextItem {seqIndent : Nat} {line : Line} {rest : List Line} {depth : Nat} {item : Node Bytes}
      (hline : IsItem seqIndent line) (hliteral : ¬ LiteralItem line)
      (hitem : parseItem (parseBlock (levelsLeft (depth + 1))) (levelsLeft depth) seqIndent line
        (line.text.drop 2) (rest.takeWhile (seqIndent < ·.indent)) = .ok item) :
      Calls (.sequence seqIndent (line :: rest) depth)
        (.sequence seqIndent (rest.dropWhile (seqIndent < ·.indent)) depth)
  | parseInlineMap {s : Bytes} {depth : Nat} (hdepth : ¬ maxParseDepth < depth)
      (hlist : bracketed openBracket closeBracket s = false)
      (hmap : bracketed openBrace closeBrace s = true) :
      Calls (.scalar s depth) (.inlineMap [] (splitCSV (inner s)) depth)
  | inlineValue {seen rest : List Bytes} {entry : Bytes} {depth i : Nat}
      (hkey : IsInlineKey seen entry i) :
      Calls (.inlineMap seen (entry :: rest) depth)
        (.scalar (trimSpaces ((trimSpaces entry).drop (i + 1))) (depth + 1))
  | nextBlank {seen rest : List Bytes} {entry : Bytes} {depth : Nat}
      (hblank : trimSpaces entry = []) :
      Calls (.inlineMap seen (entry :: rest) depth) (.inlineMap seen rest depth)
  | nextInline {seen rest : List Bytes} {entry : Bytes} {depth i : Nat} {val : Node Bytes}
      (hkey : IsInlineKey seen entry i)
      (hval : parseScalar (levelsLeft (depth + 1))
        (trimSpaces ((trimSpaces entry).drop (i + 1))) = .ok val) :
      Calls (.inlineMap seen (entry :: rest) depth)
        (.inlineMap (unquote (trimSpaces ((trimSpaces entry).take i)) :: seen) rest depth)

def AtWork (lines : List Line) : Frame → Prop :=
  Relation.ReflTransGen Calls (.block lines (-1) 0)

/-- The depth a parser may have been called with. The loops run behind the check. -/
def Frame.Bounded : Frame → Prop
  | .block _ _ depth => depth ≤ maxParseDepth + 1
  | .mapping _ _ _ _ depth => depth ≤ maxParseDepth
  | .sequence _ _ depth => depth ≤ maxParseDepth
  | .scalar _ depth => depth ≤ maxParseDepth + 1
  | .inlineMap _ _ depth => depth ≤ maxParseDepth

theorem Frame.Bounded.depth_le {frame : Frame} (h : frame.Bounded) :
    frame.depth ≤ maxParseDepth + 1 := by
  cases frame with
  | block => exact h
  | mapping => exact Nat.le_succ_of_le h
  | sequence => exact Nat.le_succ_of_le h
  | scalar => exact h
  | inlineMap => exact Nat.le_succ_of_le h

/-- A call adds at most one to the depth, and the check stops it one level too deep. -/
theorem Calls.bounded (h : Calls caller callee) (hcaller : caller.Bounded) : callee.Bounded := by
  cases h with
  | parseSequence hdepth => exact Nat.not_lt.mp hdepth
  | parseMapping hdepth => exact Nat.not_lt.mp hdepth
  | value => exact Nat.le_succ_of_le hcaller
  | child => exact Nat.succ_le_succ hcaller
  | nextKey => exact hcaller
  | item => exact Nat.le_succ_of_le hcaller
  | itemBlock => exact Nat.succ_le_succ hcaller
  | nextLiteral => exact hcaller
  | nextItem => exact hcaller
  | parseInlineMap hdepth => exact Nat.not_lt.mp hdepth
  | inlineValue => exact Nat.succ_le_succ hcaller
  | nextBlank => exact hcaller
  | nextInline => exact hcaller

theorem AtWork.bounded (h : AtWork lines frame) : frame.Bounded := by
  induction h with
  | refl => exact Nat.zero_le _
  | tail _ hcall ih => exact hcall.bounded ih

/-- The parser returns a result. A loop has fuel for all of its lines. -/
def Frame.Returns : Frame → Prop
  | .block lines minIndent depth =>
      ∃ result, parseBlock (levelsLeft depth) lines minIndent = .ok result
  | .mapping base minIndent seen lines depth => ∃ fuel result, lines.length ≤ fuel ∧
      parseEntries (parseBlock (levelsLeft (depth + 1))) (levelsLeft depth) fuel base minIndent
        seen lines = .ok result
  | .sequence seqIndent lines depth => ∃ fuel result, lines.length ≤ fuel ∧
      parseItems (parseBlock (levelsLeft (depth + 1))) (levelsLeft depth) seqIndent fuel
        lines = .ok result
  | .scalar s depth => ∃ result, parseScalar (levelsLeft depth) s = .ok result
  | .inlineMap seen entries depth => ∃ result,
      parseInlineEntries (parseScalar (levelsLeft (depth + 1))) seen entries = .ok result

section Returns

variable {block : BlockParser} {left fuel seqIndent i : Nat} {line : Line} {rest : List Line}
  {base : Option Nat} {minIndent : Int} {seen : List (Bytes × Nat)}

/-- A mapping that returns has read the value of its first key and the keys behind it. -/
theorem parseEntries_key {result : List (Bytes × Node Bytes) × List Line}
    (hkey : IsKey base minIndent seen line i) (hfuel : (line :: rest).length ≤ fuel)
    (h : parseEntries block left fuel base minIndent seen (line :: rest) = .ok result) :
    ∃ more val lines tail, fuel = more + 1 ∧
      parseValue block left line (trimSpaces (line.text.drop (i + 1))) rest = .ok (val, lines) ∧
      parseEntries block left more (some line.indent) (line.indent - 1)
        ((trimSpaces (line.text.take i), line.num) :: seen) lines = .ok tail := by
  obtain ⟨hinside, hcolon, hseen⟩ := hkey
  obtain ⟨hindent, hbase⟩ := inside_iff.mp hinside
  obtain ⟨more, rfl⟩ : ∃ more, fuel = more + 1 := ⟨fuel - 1, by simp at hfuel; omega⟩
  rw [parseEntries, if_neg hindent, if_neg hbase] at h
  simp only [hcolon, hseen] at h
  obtain ⟨⟨val, lines⟩, hvalue, h⟩ := Except.bind_eq_ok.mp h
  obtain ⟨tail, htail, -⟩ := Except.bind_eq_ok.mp h
  exact ⟨more, val, lines, tail, rfl, hvalue, htail⟩

theorem parseItems_first {result : List (Node Bytes) × List Line} (hline : IsItem seqIndent line)
    (hfuel : (line :: rest).length ≤ fuel)
    (h : parseItems block left seqIndent fuel (line :: rest) = .ok result) :
    ∃ more tail, fuel = more + 1 ∧
      (LiteralItem line → parseItems block left seqIndent more rest = .ok tail) ∧
      (¬LiteralItem line → ∃ item,
        parseItem block left seqIndent line (line.text.drop 2)
          (rest.takeWhile (seqIndent < ·.indent)) = .ok item ∧
        parseItems block left seqIndent more (rest.dropWhile (seqIndent < ·.indent)) =
          .ok tail) := by
  obtain ⟨more, rfl⟩ : ∃ more, fuel = more + 1 := ⟨fuel - 1, by simp at hfuel; omega⟩
  rw [parseItems, if_neg (by simp [hline.1, hline.2])] at h
  simp only at h
  split at h
  · next literal hliteral =>
      split_ifs at h with hplain
      · obtain ⟨tail, htail, -⟩ := Except.bind_eq_ok.mp h
        refine ⟨more, tail, rfl, fun _ => htail, fun hnot => (hnot ⟨by simp [hliteral], ?_⟩).elim⟩
        exact ⟨by simpa using hplain.1, hplain.2⟩
      · obtain ⟨item, hitem, h⟩ := Except.bind_eq_ok.mp h
        obtain ⟨tail, htail, -⟩ := Except.bind_eq_ok.mp h
        refine ⟨more, tail, rfl, fun hitem => (hplain ?_).elim, fun _ => ⟨item, hitem, htail⟩⟩
        exact ⟨by simpa using hitem.2.1, hitem.2.2⟩
  · next hliteral =>
      obtain ⟨item, hitem, h⟩ := Except.bind_eq_ok.mp h
      obtain ⟨tail, htail, -⟩ := Except.bind_eq_ok.mp h
      exact ⟨more, tail, rfl, fun hitem => (hitem.1 hliteral).elim, fun _ => ⟨item, hitem, htail⟩⟩

theorem parseInlineEntries_key {value : Bytes → Except ScalarError (Node Bytes)}
    {seen rest : List Bytes} {entry : Bytes} {result : List (Bytes × Node Bytes)}
    (hkey : IsInlineKey seen entry i)
    (h : parseInlineEntries value seen (entry :: rest) = .ok result) :
    (∃ val, value (trimSpaces ((trimSpaces entry).drop (i + 1))) = .ok val) ∧
      ∃ tail, parseInlineEntries value
        (unquote (trimSpaces ((trimSpaces entry).take i)) :: seen) rest = .ok tail := by
  obtain ⟨hne, hcolon, hseen⟩ := hkey
  rw [parseInlineEntries] at h
  simp only [hne, if_false, hcolon, hseen] at h
  obtain ⟨val, hval, h⟩ := Except.bind_eq_ok.mp h
  obtain ⟨tail, htail, -⟩ := Except.bind_eq_ok.mp h
  exact ⟨⟨val, hval⟩, tail, htail⟩

end Returns

/-- A parser that returns has returned from every call it made: an error is handed on, so
that the check at the top of `parseBlock` and `parseScalar` refuses the document. -/
theorem Calls.returns {caller callee : Frame} (h : Calls caller callee)
    (hcaller : caller.Returns) : callee.Returns := by
  cases h with
  | parseSequence hdepth hdash =>
      obtain ⟨result, hresult⟩ := hcaller
      rw [parseBlock_depth, if_neg hdepth, if_pos hdash] at hresult
      obtain ⟨items, hitems, -⟩ := Except.bind_eq_ok.mp hresult
      exact ⟨_, items, Nat.le_refl _, hitems⟩
  | parseMapping hdepth hdash =>
      obtain ⟨result, hresult⟩ := hcaller
      rw [parseBlock_depth, if_neg hdepth, if_neg (by simp [hdash])] at hresult
      obtain ⟨entries, hentries, -⟩ := Except.bind_eq_ok.mp hresult
      exact ⟨_, entries, Nat.le_refl _, hentries⟩
  | value hkey hliteral hvalue =>
      obtain ⟨fuel, result, hfuel, hresult⟩ := hcaller
      obtain ⟨-, val, lines, -, -, hval, -⟩ := parseEntries_key hkey hfuel hresult
      cases parseValue_read hval with
      | literal hsome => exact absurd (hliteral.symm.trans hsome) (by simp)
      | inline _ _ hscalar => exact ⟨_, hscalar⟩
      | absent _ hempty => exact absurd hempty hvalue
      | child _ hempty => exact absurd hempty hvalue
  | child hkey hliteral hvalue hnext =>
      obtain ⟨fuel, result, hfuel, hresult⟩ := hcaller
      obtain ⟨-, val, lines, -, -, hval, -⟩ := parseEntries_key hkey hfuel hresult
      cases parseValue_read hval with
      | literal hsome => exact absurd (hliteral.symm.trans hsome) (by simp)
      | inline _ hne => exact absurd hvalue hne
      | absent _ _ hend => exact absurd (hend _ rfl) (Nat.not_le.mpr hnext)
      | child _ _ _ _ hblock => exact ⟨_, hblock⟩
  | nextKey hkey hvalue =>
      obtain ⟨fuel, result, hfuel, hresult⟩ := hcaller
      obtain ⟨more, val, lines, tail, rfl, hval, htail⟩ := parseEntries_key hkey hfuel hresult
      obtain ⟨rfl, rfl⟩ := Prod.mk.inj (Except.ok.inj (hvalue.symm.trans hval))
      have hlength := (parseValue_read hval).length_le (parseBlock_shrinks _)
      rw [List.length_cons] at hfuel
      exact ⟨more, tail, by omega, htail⟩
  | item hline hliteral halone hinline =>
      obtain ⟨fuel, result, hfuel, hresult⟩ := hcaller
      obtain ⟨_, _, _, _, hitem⟩ := parseItems_first hline hfuel hresult
      obtain ⟨item, hitem, -⟩ := hitem hliteral
      cases parseItem_read hitem with
      | inline _ _ hscalar => exact ⟨_, hscalar⟩
      | block hnot => exact absurd ⟨halone, hinline⟩ hnot
  | itemBlock hline hliteral hblock =>
      obtain ⟨fuel, result, hfuel, hresult⟩ := hcaller
      obtain ⟨_, _, _, _, hitem⟩ := parseItems_first hline hfuel hresult
      obtain ⟨item, hitem, -⟩ := hitem hliteral
      cases parseItem_read hitem with
      | inline hmore hinline => exact absurd ⟨hmore, hinline⟩ hblock
      | block _ hresult => exact ⟨_, hresult⟩
  | nextLiteral hline hliteral =>
      obtain ⟨fuel, result, hfuel, hresult⟩ := hcaller
      obtain ⟨more, tail, rfl, htail, -⟩ := parseItems_first hline hfuel hresult
      exact ⟨more, tail, Nat.le_of_succ_le_succ hfuel, htail hliteral⟩
  | @nextItem seqIndent line rest depth item hline hliteral hitem =>
      obtain ⟨fuel, result, hfuel, hresult⟩ := hcaller
      obtain ⟨more, tail, rfl, -, htail⟩ := parseItems_first hline hfuel hresult
      obtain ⟨-, -, htail⟩ := htail hliteral
      have hdrop := (List.dropWhile_suffix (fun other : Line => decide (seqIndent < other.indent))
        (l := rest)).length_le
      rw [List.length_cons] at hfuel
      exact ⟨more, tail, by omega, htail⟩
  | parseInlineMap hdepth hlist hmap =>
      obtain ⟨result, hresult⟩ := hcaller
      rw [parseScalar_depth, if_neg hdepth, if_neg (by simp [hlist]), if_pos hmap] at hresult
      obtain ⟨entries, hentries, -⟩ := Except.bind_eq_ok.mp hresult
      exact ⟨entries, hentries⟩
  | inlineValue hkey =>
      obtain ⟨result, hresult⟩ := hcaller
      exact (parseInlineEntries_key hkey hresult).1
  | nextBlank hblank =>
      obtain ⟨result, hresult⟩ := hcaller
      rw [parseInlineEntries] at hresult
      simp only [hblank, if_true] at hresult
      exact ⟨result, hresult⟩
  | nextInline hkey =>
      obtain ⟨result, hresult⟩ := hcaller
      exact (parseInlineEntries_key hkey hresult).2

/-- No parser that returns was called too deep. -/
theorem Frame.Returns.depth_le {frame : Frame} (hreturns : frame.Returns)
    (hbounded : frame.Bounded) : frame.depth ≤ maxParseDepth := by
  have hnone : ∀ depth, ¬depth ≤ maxParseDepth → levelsLeft depth = 0 := by
    intro depth hdeep
    exact Nat.sub_eq_zero_of_le (Nat.not_le.mp hdeep)
  cases frame with
  | mapping => exact hbounded
  | sequence => exact hbounded
  | inlineMap => exact hbounded
  | scalar s depth =>
      obtain ⟨result, hresult⟩ := hreturns
      by_contra hdeep
      rw [hnone depth hdeep] at hresult
      cases hresult
  | block lines minIndent depth =>
      obtain ⟨result, hresult⟩ := hreturns
      by_contra hdeep
      rw [hnone depth hdeep] at hresult
      cases hresult

theorem AtWork.returns {lines : List Line} {frame : Frame} (h : AtWork lines frame)
    (hstart : (Frame.block lines (-1) 0).Returns) : frame.Returns := by
  induction h with
  | refl => exact hstart
  | tail _ hcall ih => exact hcall.returns ih

def Node.children {τ : Type} : Node τ → List (Node τ)
  | .scalar _ => []
  | .mapping entries => entries.map Prod.snd
  | .sequence items => items

inductive Node.Path {τ : Type} : Node τ → List (Node τ) → Prop
  | leaf {node : Node τ} (hleaf : node.children = []) : Path node [node]
  | child {node child : Node τ} {path : List (Node τ)} (hchild : child ∈ node.children)
      (hpath : Path child path) : Path node (node :: path)

theorem Node.Path.length_le_succ {τ : Type} {node : Node τ} {path : List (Node τ)}
    (h : node.Path path)
    (hchildren : ∀ child ∈ node.children, ∀ path, child.Path path → path.length ≤ n) :
    path.length ≤ n + 1 := by
  cases h with
  | leaf => exact Nat.succ_le_succ (Nat.zero_le n)
  | child hchild hpath => exact Nat.succ_le_succ (hchildren _ hchild _ hpath)

theorem Node.Path.scalar_length {τ : Type} {text : τ} {path : List (Node τ)}
    (h : (Node.scalar text).Path path) : path.length ≤ 1 :=
  h.length_le_succ fun _ hchild => absurd hchild List.not_mem_nil

/-- A scalar or a list of scalars stands on the line of its key and needs no level. -/
theorem Fits.path_length {left : Nat} {node : Node Bytes} (h : Fits left node)
    (hpath : node.Path path) : path.length ≤ left + 2 := by
  induction h generalizing path with
  | scalar => exact hpath.scalar_length.trans (by omega)
  | texts =>
    refine (hpath.length_le_succ (n := 1) fun child hchild path hpath => ?_).trans (by omega)
    obtain ⟨text, -, rfl⟩ := List.mem_map.mp hchild
    exact hpath.scalar_length
  | empty =>
    refine (hpath.length_le_succ (n := 0) fun child hchild => ?_).trans (by omega)
    exact absurd hchild List.not_mem_nil
  | mapping _ _ ih =>
    refine hpath.length_le_succ fun child hchild path hpath => ?_
    obtain ⟨entry, hentry, rfl⟩ := List.mem_map.mp hchild
    exact ih entry hentry hpath
  | sequence _ ih =>
    exact hpath.length_le_succ fun child hchild path hpath => ih child hchild hpath

/-- The depth arguments of the parsers and the paths of the trees they return are
bounded for every document. In one that is accepted every call has returned, and none was
stopped by the check of its depth. -/
theorem parse_nesting_bounded (data : Bytes) :
    (∀ lines frame, contentLines data = .ok lines → AtWork lines frame →
      frame.depth ≤ maxParseDepth + 1) ∧
    (∀ node path, parse data = .ok node → node.Path path → path.length ≤ maxParseDepth + 3) ∧
    ∀ node lines frame, parse data = .ok node → contentLines data = .ok lines →
      AtWork lines frame → frame.Returns ∧ frame.depth ≤ maxParseDepth := by
  refine ⟨fun lines frame _ hwork => hwork.bounded.depth_le, ?_, ?_⟩
  · intro node path hparse hpath
    obtain ⟨lines, -, hblock⟩ := parse_read hparse
    exact (parseBlock_fits hblock).path_length hpath
  · intro node lines frame hparse hlines hwork
    obtain ⟨lines', hlines', hblock⟩ := parse_read hparse
    obtain rfl : lines = lines' := Except.ok.inj (hlines.symm.trans hlines')
    have hreturns := hwork.returns ⟨_, hblock⟩
    exact ⟨hreturns, hreturns.depth_le hwork.bounded⟩

end Gopherd.Yaml
