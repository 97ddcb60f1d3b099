import Gopherd.Yaml.Written

namespace Gopherd.Yaml

open Go

structure Key (key : Bytes) : Prop where
  noNewline : newline ∉ key
  noCarriageReturn : carriageReturn ∉ key
  front : SpaceFree spaceRunes key
  trimmed : trimSpaces key = key
  passes : ∀ {rest}, (∀ previous, commentStart false false false previous rest = none) →
    ∀ previous, commentStart false false false previous (key ++ rest) = none
  atColon : findColon (key ++ [colon]) = some key.length
  noDash : ¬ dash <+: key
  noBom : ¬ [0xEF, 0xBB, 0xBF] <+: key

structure Unquoted (key : Bytes) : Prop where
  noDoubleQuote : doubleQuote ∉ key
  noSingleQuote : singleQuote ∉ key

structure Value (value : Bytes) : Prop where
  first : ∃ b rest, value = b :: rest ∧ solid b = true ∧ b ≠ bar ∧ b ≠ greater
  last : ∃ init b, value = init ++ [b] ∧ solid b = true
  noNewline : newline ∉ value
  noCarriageReturn : carriageReturn ∉ value
  noComment : ∀ previous, commentStart false false false previous value = none

theorem Value.tight (h : Value value) : Tight value := by
  obtain ⟨b, rest, hfirst, hb, -⟩ := h.first
  obtain ⟨init, c, hlast, hc⟩ := h.last
  constructor
  · rw [hfirst]
    exact spaceFree_cons spaceRunes_not_solid hb
  · rw [hlast]
    exact back_of_solid hc

theorem Value.ne (h : Value value) : value ≠ [] := by
  obtain ⟨b, rest, rfl, -⟩ := h.first
  simp

theorem value_quoteScalar (s : Bytes) : Value (quoteScalar s) where
  first := ⟨_, _, rfl, by decide, by decide, by decide⟩
  last := ⟨doubleQuote :: s.flatMap escapeByte, _, rfl, by decide⟩
  noNewline := by simpa +decide [quoteScalar] using newline_not_mem_escape s
  noCarriageReturn := by simpa +decide [quoteScalar] using carriageReturn_not_mem_escape s
  noComment := by
    intro previous
    rw [← List.append_nil (quoteScalar s)]
    exact commentStart_quoteScalar rfl s previous

theorem not_mem_joinComma (h : ∀ part ∈ parts, c ∉ part) (hcomma : c ≠ comma) (hspace : c ≠ space) :
    c ∉ joinComma parts := by
  induction parts with
  | nil => simp [joinComma]
  | cons part parts ih =>
    rw [List.forall_mem_cons] at h
    cases parts with
    | nil => simpa [joinComma] using h.1
    | cons next parts =>
      have hrest : c ∉ joinComma (next :: parts) := ih h.2
      rw [joinComma, List.intercalate_cons_cons, ← joinComma]
      simp [h.1, hcomma, hspace, hrest]

variable {rest s : Bytes} {i : Nat}

/-- The comment scanner passes over the parts when it passes over each. -/
theorem commentStart_joinComma
    (hparts : ∀ part ∈ parts, ∀ rest, (∀ previous, commentStart false false false previous rest =
      none) → ∀ previous, commentStart false false false previous (part ++ rest) = none)
    (hrest : ∀ previous, commentStart false false false previous rest = none)
    (previous : Option UInt8) :
    commentStart false false false previous (joinComma parts ++ rest) = none := by
  induction parts generalizing previous with
  | nil => simpa [joinComma] using hrest previous
  | cons part parts ih =>
    rw [List.forall_mem_cons] at hparts
    cases parts with
    | nil => simpa [joinComma] using hparts.1 rest hrest previous
    | cons next parts =>
      rw [joinComma, List.intercalate_cons_cons, ← joinComma, List.append_assoc,
        List.append_assoc]
      apply hparts.1
      intro previous
      refine commentStart_cons (by decide) (by decide) (by decide) ?_ previous
      refine commentStart_cons (by decide) (by decide) (by decide) ?_ _
      exact ih hparts.2 _

theorem value_encodeInlineSeq (items : List Bytes) : Value (encodeInlineSeq items) where
  first := ⟨_, _, rfl, by decide, by decide, by decide⟩
  last := ⟨openBracket :: joinComma (items.map quoteScalar), _, rfl, by decide⟩
  noNewline := by
    have hparts : ∀ part ∈ items.map quoteScalar, newline ∉ part := by
      intro part hpart
      obtain ⟨item, -, rfl⟩ := List.mem_map.mp hpart
      exact (value_quoteScalar item).noNewline
    simpa +decide [encodeInlineSeq] using not_mem_joinComma hparts (by decide) (by decide)
  noCarriageReturn := by
    have hparts : ∀ part ∈ items.map quoteScalar, carriageReturn ∉ part := by
      intro part hpart
      obtain ⟨item, -, rfl⟩ := List.mem_map.mp hpart
      exact (value_quoteScalar item).noCarriageReturn
    simpa +decide [encodeInlineSeq] using not_mem_joinComma hparts (by decide) (by decide)
  noComment := by
    intro previous
    refine commentStart_cons (by decide) (by decide) (by decide) ?_ previous
    apply commentStart_joinComma
    · intro part hpart rest hrest previous
      obtain ⟨item, -, rfl⟩ := List.mem_map.mp hpart
      exact commentStart_quoteScalar (hrest _) item previous
    · intro previous
      exact commentStart_cons (by decide) (by decide) (by decide) rfl previous

/-- The line of a key, with the value behind it if there is one. -/
def header (key value : Bytes) : Bytes :=
  key ++ colon :: (if value = [] then [] else space :: value)

/-- The comment scanner passes over a text without quotes and comments. -/
theorem commentStart_append (hquotes : Unquoted text)
    (hrest : ∀ previous, commentStart false false false previous rest = none)
    (previous : Option UInt8) (h : commentStart false false false previous text = none) :
    commentStart false false false previous (text ++ rest) = none := by
  induction text generalizing previous with
  | nil => exact hrest previous
  | cons c text ih =>
    have hc : c ≠ doubleQuote ∧ c ≠ singleQuote := by
      constructor
      · rintro rfl
        exact hquotes.noDoubleQuote (by simp)
      · rintro rfl
        exact hquotes.noSingleQuote (by simp)
    have htail := ih ⟨fun hmem => hquotes.noDoubleQuote (by simp [hmem]),
      fun hmem => hquotes.noSingleQuote (by simp [hmem])⟩
    simp only [commentStart, hc.1, hc.2, if_false, Bool.false_eq_true] at h
    simp only [List.cons_append, commentStart, hc.1, hc.2, if_false, Bool.false_eq_true]
    split_ifs at h ⊢
    · rw [Option.map_eq_none_iff] at h ⊢
      exact htail _ h
    · rw [Option.map_eq_none_iff] at h ⊢
      exact htail _ h

/-- The colon that is found does not depend on what follows it. -/
theorem findColon_append (key : Bytes) (hrest : rest = [] ∨ rest.head? = some space) :
    findColon (key ++ colon :: rest) = findColon (key ++ [colon]) := by
  induction key with
  | nil =>
    rcases hrest with rfl | hrest
    · rfl
    · simp [findColon, hrest]
  | cons c key ih =>
    have hhead : (key ++ colon :: rest).head? = (key ++ [colon]).head? := by
      cases key with
      | nil => rfl
      | cons b key => rfl
    have hnil : (key ++ colon :: rest = []) ↔ (key ++ [colon] = []) := by simp
    simp only [List.cons_append, findColon, hhead, hnil, ih]

theorem findColon_lt (h : findColon s = some i) : i < s.length := by
  induction s generalizing i with
  | nil => cases h
  | cons c s ih =>
    rw [findColon] at h
    split_ifs at h with hc
    · cases h
      simp
    · obtain ⟨j, hj, rfl⟩ := Option.map_eq_some_iff.mp h
      have hlt := ih hj
      rw [List.length_cons]
      omega

theorem getElem_findColon (h : findColon s = some i) : s[i]? = some colon := by
  induction s generalizing i with
  | nil => cases h
  | cons c s ih =>
    rw [findColon] at h
    split_ifs at h with hc
    · cases h
      simp [hc.1]
    · obtain ⟨j, hj, rfl⟩ := Option.map_eq_some_iff.mp h
      simpa using ih hj

/-- The value behind the first colon ends as the text does. -/
theorem trimSpaces_drop_findColon (hcolon : findColon s = some i) (hlast : s = init ++ [b])
    (hsolid : solid b = true) (hne : b ≠ colon) :
    ∃ init', trimSpaces (s.drop (i + 1)) = init' ++ [b] := by
  have hget := getElem_findColon hcolon
  have hlt := findColon_lt hcolon
  rw [hlast] at hget hlt ⊢
  have hi : i ≠ init.length := by
    rintro rfl
    rw [List.getElem?_append_right (Nat.le_refl _), Nat.sub_self] at hget
    exact hne (by simpa using hget)
  rw [List.length_append, List.length_singleton] at hlt
  rw [List.drop_append_of_le_length (by omega)]
  obtain ⟨init', -, htrim⟩ := trimSpaces_append_cons hsolid hsolid (List.nil_append _).symm
    (init.drop (i + 1))
  exact ⟨init', htrim⟩

def valuePosition (content : Bytes) : Bytes :=
  match findColon (stripDashes content) with
  | some i => trimSpaces ((stripDashes content).drop (i + 1))
  | none => stripDashes content

theorem blockIndicator_eq (content : Bytes) :
    blockIndicator content =
      if (valuePosition content).head? ∈ [some bar, some greater] then some (valuePosition content)
      else none := by
  unfold blockIndicator
  dsimp only
  split
  · rename_i rest hposition
    change valuePosition content = bar :: rest at hposition
    change some (valuePosition content) = _
    simp [hposition]
  · rename_i rest hposition
    change valuePosition content = greater :: rest at hposition
    change some (valuePosition content) = _
    simp [hposition]
  · rename_i hbar hgreater
    cases hposition : valuePosition content with
    | nil => simp
    | cons b rest =>
      have hb : b ≠ bar := by
        rintro rfl
        exact hbar rest hposition
      have hb' : b ≠ greater := by
        rintro rfl
        exact hgreater rest hposition
      simp [hb, hb']

namespace Key

variable {key value : Bytes}

theorem content (h : Key key) (hvalue : value = [] ∨ Value value) : Content (header key value) where
  front := h.front.append_cons (by decide)
  last := by
    rcases hvalue with rfl | hvalue
    · exact ⟨key, _, rfl, by decide⟩
    · obtain ⟨init, b, hlast, hb⟩ := hvalue.last
      refine ⟨key ++ colon :: space :: init, b, ?_, hb⟩
      rw [header, if_neg hvalue.ne, hlast]
      simp
  noNewline := by
    unfold header
    rcases hvalue with rfl | hvalue
    · simpa +decide using h.noNewline
    · simpa +decide [hvalue.ne, h.noNewline] using hvalue.noNewline
  noCarriageReturn := by
    unfold header
    rcases hvalue with rfl | hvalue
    · simpa +decide using h.noCarriageReturn
    · simpa +decide [hvalue.ne, h.noCarriageReturn] using hvalue.noCarriageReturn
  noComment := by
    intro previous
    refine h.passes ?_ previous
    intro previous
    refine commentStart_cons (by decide) (by decide) (by decide) ?_ previous
    rcases hvalue with rfl | hvalue
    · rfl
    · rw [if_neg hvalue.ne]
      exact commentStart_cons (by decide) (by decide) (by decide) (hvalue.noComment _) _
  noBom := fun hfront => h.noBom (prefix_of_prefix_append_cons (by decide) hfront)

theorem findColon_header (h : Key key) (value : Bytes) :
    findColon (header key value) = some key.length := by
  rw [header, findColon_append key (by split_ifs <;> simp), h.atColon]

theorem take_header (h : Key key) (value : Bytes) :
    trimSpaces ((header key value).take key.length) = key := by
  rw [header, List.take_left', h.trimmed]
  rfl

theorem drop_header (hvalue : value = [] ∨ Value value) :
    trimSpaces ((header key value).drop (key.length + 1)) = value := by
  have hdrop : (header key value).drop (key.length + 1) =
      if value = [] then [] else space :: value := by
    rw [header, ← List.drop_drop, List.drop_left', List.drop_one, List.tail_cons]
    rfl
  rw [hdrop]
  rcases hvalue with rfl | hvalue
  · rfl
  · rw [if_neg hvalue.ne]
    exact hvalue.tight.trimSpaces_indented 1

theorem header_not_dash (h : Key key) (value : Bytes) :
    startsWith dash (header key value) = false := by
  rw [startsWith, ← Bool.not_eq_true, List.isPrefixOf_iff_prefix]
  intro hfront
  exact h.noDash (prefix_of_prefix_append_cons (by decide) hfront)

theorem stripDashes_header (h : Key key) (value : Bytes) :
    stripDashes (header key value) = header key value := by
  have hnot := h.header_not_dash value
  unfold stripDashes
  split
  · rename_i heq
    rw [heq] at hnot
    simp [startsWith, dash, List.isPrefixOf] at hnot
  · rfl

theorem blockIndicator_header (h : Key key) (hvalue : value = [] ∨ Value value) :
    blockIndicator (header key value) = none := by
  simp only [blockIndicator, h.stripDashes_header, h.findColon_header, drop_header hvalue]
  rcases hvalue with rfl | hvalue
  · rfl
  · obtain ⟨b, rest, rfl, -, hbar, hgreater⟩ := hvalue.first
    split
    · rename_i heq
      exact absurd (List.cons.inj heq).1 hbar
    · rename_i heq
      exact absurd (List.cons.inj heq).1 hgreater
    · rfl

theorem header_head_ne (hc : c ∉ key) (hcolon : c ≠ colon) (value : Bytes) :
    (header key value).head? ≠ some c := by
  cases key with
  | nil => simpa [header] using hcolon.symm
  | cons b key =>
    rintro hhead
    obtain rfl : b = c := by simpa [header] using hhead
    simp at hc

/-- The header of an item is not taken for a scalar. -/
theorem not_isInlineSeqItem (h : Key key) (hquotes : Unquoted key) (value : Bytes)
    (hlast : endsWith [closeBrace] (header key value) = false) :
    isInlineSeqItem (header key value) = false := by
  have hsingle := header_head_ne hquotes.noSingleQuote (by decide) value
  have hdouble := header_head_ne hquotes.noDoubleQuote (by decide) value
  simp [isInlineSeqItem, h.header_not_dash, bracketed, hlast, h.findColon_header, hsingle, hdouble]

theorem not_inline_empty (h : Key key) (hquotes : Unquoted key) :
    isInlineSeqItem (header key []) = false :=
  h.not_isInlineSeqItem hquotes [] (endsWith_concat (by decide))

theorem not_inline_value (h : Key key) (hquotes : Unquoted key) (hlast : value = init ++ [b])
    (hb : closeBrace ≠ b) : isInlineSeqItem (header key value) = false := by
  refine h.not_isInlineSeqItem hquotes value ?_
  have hheader : header key value = (key ++ colon :: space :: init) ++ [b] := by
    simp [header, hlast]
  rw [hheader]
  exact endsWith_concat hb

end Key

section Entries

variable {block : BlockParser} {left fuel indent num : Nat} {base : Option Nat} {minIndent : Int}
  {seen : List (Bytes × Nat)} {key value : Bytes} {rest : List Line}

theorem parseEntries_header (hkey : Key key) (hvalue : value = [] ∨ Value value)
    (hmin : minIndent < indent) (hbase : base = none ∨ base = some indent)
    (hseen : seen.lookup key = none) :
    parseEntries block left (fuel + 1) base minIndent seen
        (Written.at ⟨indent, header key value⟩ num :: rest) = (do
      let (val, lines) ←
        parseValue block left (Written.at ⟨indent, header key value⟩ num) value rest
      let (entries, lines) ← parseEntries block left fuel (some indent) (indent - 1)
        ((key, num) :: seen) lines
      pure ((key, val) :: entries, lines)) := by
  have hinside : ¬ (0 ≤ minIndent ∧ (indent : Int) ≤ minIndent) := by omega
  have hsame : ¬ (base.isSome ∧ base ≠ some indent) := by
    rcases hbase with rfl | rfl
    · simp
    · simp
  simp only [parseEntries, Written.at, if_neg hinside, if_neg hsame, hkey.findColon_header,
    hkey.take_header, Key.drop_header hvalue, hseen]

theorem parseValue_value (hvalue : Value value) (hval : parseScalar left value = .ok val) :
    parseValue block left (Written.at ⟨indent, header key value⟩ num) value rest =
      .ok (val, rest) := by
  simp only [parseValue, Written.at, ne_eq, hvalue.ne, not_false_eq_true, if_true, hval]

/-- Where a mapping ends: before a line that is not indented deeper than
`minIndent`. -/
def Ends (minIndent : Int) (tail : List Line) : Prop :=
  ∀ line ∈ tail.head?, (line.indent : Int) ≤ minIndent

theorem ends_nil (minIndent : Int) : Ends minIndent [] := by
  intro line hline
  cases hline

theorem parseEntries_ends (h : Ends minIndent tail) :
    parseEntries block left fuel base minIndent seen tail = .ok ([], tail) := by
  cases fuel with
  | zero => rfl
  | succ fuel =>
    cases tail with
    | nil => rfl
    | cons line tail =>
      have hline : (line.indent : Int) ≤ minIndent := h line rfl
      have hmin : 0 ≤ minIndent := by omega
      simp only [parseEntries, hmin, hline, and_self, if_true]

end Entries

end Gopherd.Yaml
