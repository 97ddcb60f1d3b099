import Gopherd.Yaml.Blocks
import Gopherd.Yaml.Encode
import Gopherd.Yaml.Fits

/-!
What the encoder writes is read back.
-/

namespace Gopherd.Yaml

open Go

theorem allScalar_eq_some (h : allScalar items = some texts) : items = texts.map .scalar := by
  induction items generalizing texts with
  | nil =>
    cases h
    rfl
  | cons item items ih =>
    cases item with
    | scalar text =>
      obtain ⟨rest, hrest, rfl⟩ := Option.map_eq_some_iff.mp h
      rw [ih hrest]
      rfl
    | mapping entries => cases h
    | sequence items => cases h

theorem allScalar_texts (texts : List Bytes) :
    allScalar (texts.map .scalar) = some texts := by
  induction texts with
  | nil => rfl
  | cons text texts ih => simp [allScalar, ih]

/-- Every mapping that fits is written so that it is read back. -/
def MappingsRead (left : Nat) : Prop :=
  ∀ {indent entries text}, entries ≠ [] → Fits left (.mapping entries) →
    encodeEntries indent entries = some text →
    ∃ key value below, text = render (⟨indent, header key value⟩ :: below) ∧
      MappingText left indent entries (⟨indent, header key value⟩ :: below) ∧
      HeaderLine key value ∧ isInlineSeqItem (header key value) = false

/-- Every list that fits and stands as a block is written so that it is read back. -/
def SequencesRead (left : Nat) : Prop :=
  ∀ {dashIndent items text}, allScalar items = none → Fits left (.sequence items) →
    encodeItems dashIndent items = some text →
    ∃ written, text = render written ∧ SequenceText left dashIndent items written

variable {left : Nat} {text : Bytes} {lines : List Written}

theorem encodeValue_text (hmappings : MappingsRead left) (hsequences : SequencesRead left)
    (hkey : Key key) (hquotes : Unquoted key) (hfits : Fits left val)
    (h : encodeValue indent val = some text) :
    ∃ value below, ValueText left indent key val value below ∧
      isInlineSeqItem (header key value) = false ∧
      pad indent ++ key ++ text = render (⟨indent, header key value⟩ :: below) := by
  have hinline : ∀ value, Value value →
      pad indent ++ key ++ colon :: space :: (value ++ [newline]) =
        render [⟨indent, header key value⟩] := by
    intro value hvalue
    simp [render, Written.raw, header, hvalue.ne, pad]
  have hchild : ∀ below, pad indent ++ key ++ colon :: newline :: render below =
      render (⟨indent, header key []⟩ :: below) := by
    intro below
    simp [render, Written.raw, header, pad]
  cases val with
  | scalar t =>
    cases h
    have hvalue := value_quoteScalar t
    exact ⟨quoteScalar t, [], valueText_inline hkey hvalue (parseScalar_quoteScalar left t),
      hkey.not_inline_value hquotes (quoteScalar_concat t) (by decide), hinline _ hvalue⟩
  | sequence items =>
    rw [encodeValue] at h
    split at h
    · rename_i texts htexts
      cases h
      obtain rfl := allScalar_eq_some htexts
      have hvalue := value_encodeInlineSeq texts
      exact ⟨encodeInlineSeq texts, [],
        valueText_inline hkey hvalue (parseScalar_encodeInlineSeq left texts),
        hkey.not_inline_value hquotes (encodeInlineSeq_concat texts) (by decide),
        hinline _ hvalue⟩
    · rename_i hnone
      obtain ⟨block, hblock, h⟩ := Option.bind_eq_some_iff.mp h
      cases h
      obtain ⟨written, rfl, hwritten⟩ := hsequences hnone hfits hblock
      exact ⟨[], written, hwritten.valueText hkey (by omega), hkey.not_inline_empty hquotes,
        hchild _⟩
  | mapping entries =>
    rw [encodeValue] at h
    split_ifs at h with hempty
    obtain ⟨block, hblock, h⟩ := Option.bind_eq_some_iff.mp h
    cases h
    obtain ⟨key', value', below, rfl, hwritten, -⟩ := hmappings hempty hfits hblock
    exact ⟨[], _, hwritten.valueText hkey (by omega), hkey.not_inline_empty hquotes, hchild _⟩

theorem encodeEntries_text (hmappings : MappingsRead left) (hsequences : SequencesRead left)
    (hkeys : (entries.map Prod.fst).Nodup) (hvals : ∀ entry ∈ entries, Fits left entry.2)
    (h : encodeEntries indent entries = some text) :
    ∃ written, text = render written ∧ EntriesText left indent entries written ∧
      (entries ≠ [] → ∃ key value below, written = ⟨indent, header key value⟩ :: below ∧
        HeaderLine key value ∧ isInlineSeqItem (header key value) = false) := by
  induction entries generalizing text with
  | nil =>
    cases h
    exact ⟨[], rfl, .nil _ _, by simp⟩
  | cons entry entries ih =>
    obtain ⟨key, val⟩ := entry
    rw [List.map_cons, List.nodup_cons] at hkeys
    rw [List.forall_mem_cons] at hvals
    rw [encodeEntries] at h
    split_ifs at h with hsafe
    obtain ⟨valText, hval, h⟩ := Option.bind_eq_some_iff.mp h
    obtain ⟨restText, hrest, h⟩ := Option.bind_eq_some_iff.mp h
    cases h
    obtain ⟨value, below, hvalue, hitem, hrender⟩ := encodeValue_text hmappings hsequences
      (safeKey_key hsafe) (safeKey_unquoted hsafe) hvals.1 hval
    obtain ⟨written, rfl, hwritten, -⟩ := ih hkeys.2 hvals.2 hrest
    refine ⟨⟨indent, header key value⟩ :: (below ++ written), ?_, .cons hvalue hwritten hkeys.1,
      fun _ => ⟨key, value, _, rfl, hvalue.isHeader, hitem⟩⟩
    rw [← List.cons_append, render_append, ← hrender]

theorem mappingsRead_succ (hmappings : MappingsRead left) (hsequences : SequencesRead left) :
    MappingsRead (left + 1) := by
  intro indent entries text hne hfits h
  cases hfits with
  | empty => exact absurd rfl hne
  | mapping hkeys hvals =>
    obtain ⟨written, rfl, hwritten, hfirst⟩ :=
      encodeEntries_text hmappings hsequences hkeys hvals h
    obtain ⟨key, value, below, rfl, hheader, hitem⟩ := hfirst hne
    exact ⟨key, value, below, rfl, hwritten.mappingText hne, hheader, hitem⟩

/-- A document ends with the last line break, and that one only. -/
theorem render_eq_concat (hcontent : ∀ written ∈ line :: lines, Content written.text) :
    ∃ init b, [newline].intercalate ((line :: lines).map Written.raw) = init ++ [b] ∧
      solid b = true ∧ render (line :: lines) = init ++ [b] ++ [newline] := by
  induction lines generalizing line with
  | nil =>
    obtain ⟨init, b, hlast, hb⟩ := (hcontent line (by simp)).last
    refine ⟨List.replicate line.indent space ++ init, b, ?_, hb, ?_⟩
    · simp [Written.raw, hlast]
    · simp [render, Written.raw, hlast]
  | cons next lines ih =>
    obtain ⟨init, b, hlast, hb, hrender⟩ := ih (List.forall_mem_cons.mp hcontent).2
    rw [List.map_cons] at hlast
    refine ⟨line.raw ++ newline :: init, b, ?_, hb, ?_⟩
    · rw [List.map_cons, List.map_cons, List.intercalate_cons_cons, hlast]
      simp
    · rw [render_cons, hrender]
      simp

theorem trimRight_render (hcontent : ∀ written ∈ line :: lines, Content written.text) :
    trimRight [newline] (render (line :: lines)) =
      [newline].intercalate ((line :: lines).map Written.raw) := by
  obtain ⟨init, b, hlast, hb, hrender⟩ := render_eq_concat hcontent
  have hne : b ∉ [newline] := by
    rintro hmem
    rw [List.mem_singleton.mp hmem] at hb
    exact absurd hb (by decide)
  rw [hrender, hlast, trimRight, List.rdropWhile_concat, if_pos (by decide)]
  exact trimRight_concat _ _ hne

theorem splice_render
    (hcontent : ∀ written ∈ ⟨dashIndent + 2, text⟩ :: lines, Content written.text) :
    splice dashIndent (render (⟨dashIndent + 2, text⟩ :: lines)) =
      render (⟨dashIndent, dash ++ text⟩ :: lines) := by
  have hnewline : ∀ raw ∈ (⟨dashIndent + 2, text⟩ :: lines).map Written.raw, newline ∉ raw := by
    intro raw hraw
    obtain ⟨line, hline, rfl⟩ := List.mem_map.mp hraw
    have htext := (hcontent line hline).noNewline
    simp +decide [Written.raw, htext]
  rw [splice, trimRight_render hcontent, List.splitOn_intercalate newline hnewline (by simp)]
  have hdrop : (Written.raw ⟨dashIndent + 2, text⟩).drop (dashIndent + 2) = text :=
    List.drop_left' (by simp)
  simp only [List.map_cons, hdrop, List.flatMap_map]
  simp [render, Written.raw, pad]

theorem encodeItems_text (hmappings : MappingsRead left) (hitems : ∀ item ∈ items, Fits left item)
    (h : encodeItems dashIndent items = some text) :
    ∃ written, text = render written ∧ ItemsText left dashIndent items written := by
  induction items generalizing text with
  | nil =>
    cases h
    exact ⟨[], rfl, .nil _ _⟩
  | cons item items ih =>
    rw [List.forall_mem_cons] at hitems
    cases item with
    | scalar text => cases h
    | sequence items => cases h
    | mapping entries =>
      rw [encodeItems] at h
      split_ifs at h with hempty
      obtain ⟨itemText, hitem, h⟩ := Option.bind_eq_some_iff.mp h
      obtain ⟨restText, hrest, h⟩ := Option.bind_eq_some_iff.mp h
      cases h
      obtain ⟨key, value, below, rfl, hfirst, hheader, hinline⟩ :=
        hmappings hempty hitems.1 hitem
      obtain ⟨written, rfl, hwritten⟩ := ih hitems.2 hrest
      refine ⟨_, ?_, .cons_mapping hfirst hheader (fun _ => hinline) hwritten⟩
      rw [splice_render hfirst.block.content, ← render_append, List.cons_append]

theorem sequencesRead_succ (hmappings : MappingsRead left) :
    SequencesRead (left + 1) := by
  intro dashIndent items text hnone hfits h
  cases hfits with
  | texts => simp [allScalar_texts] at hnone
  | sequence hitems =>
    obtain ⟨written, rfl, hwritten⟩ := encodeItems_text hmappings hitems h
    have hne : items ≠ [] := by
      rintro rfl
      simp [allScalar] at hnone
    exact ⟨written, rfl, hwritten.sequenceText hne⟩

theorem mappingsRead_and_sequencesRead (left : Nat) : MappingsRead left ∧ SequencesRead left := by
  induction left with
  | zero =>
    constructor
    · intro indent entries text hne hfits
      cases hfits
      exact absurd rfl hne
    · intro dashIndent items text hnone hfits
      cases hfits
      simp [allScalar_texts] at hnone
  | succ left ih => exact ⟨mappingsRead_succ ih.1 ih.2, sequencesRead_succ ih.1⟩

/-- The YAML round trip: the text that the encoder writes for the tree of an
accepted document parses to that tree. -/
theorem parse_encodeTree {data text : Bytes} {tree : Node Bytes} (hparse : parse data = .ok tree)
    (hencode : encodeTree tree = some text) : parse text = .ok tree := by
  obtain ⟨lines, -, hblock⟩ := parse_read hparse
  have hfits := parseBlock_fits hblock
  obtain ⟨hmappings, hsequences⟩ := mappingsRead_and_sequencesRead (maxParseDepth + 1)
  cases tree with
  | scalar value =>
    rw [encodeTree] at hencode
    split_ifs at hencode with hempty
    cases hencode
    rw [hempty]
    rfl
  | mapping entries =>
    rw [encodeTree] at hencode
    split_ifs at hencode with hempty
    obtain ⟨key, value, below, rfl, hwritten, -⟩ := hmappings hempty hfits hencode
    exact hwritten.parse
  | sequence items =>
    rw [encodeTree] at hencode
    split at hencode
    · cases hencode
    · rename_i hnone
      obtain ⟨written, rfl, hwritten⟩ := hsequences hnone hfits hencode
      exact hwritten.parse

def nestedDocument : Bytes :=
  joinLines [ascii "env: [x, 'y # z']  # inline", ascii "checks:",
    ascii "    - \x7bname: db, args: [\"a, b\"]\x7d", ascii "    - name: web",
    ascii "      opts:", ascii "         port: 80"]

def nestedTree : Node Bytes :=
  .mapping [
    (ascii "env", .sequence [.scalar (ascii "x"), .scalar (ascii "y # z")]),
    (ascii "checks", .sequence [
      .mapping [(ascii "name", .scalar (ascii "db")),
        (ascii "args", .sequence [.scalar (ascii "a, b")])],
      .mapping [(ascii "name", .scalar (ascii "web")),
        (ascii "opts", .mapping [(ascii "port", .scalar (ascii "80"))])]])]

def nestedText : Bytes :=
  joinLines [ascii "env: [\"x\", \"y # z\"]", ascii "checks:", ascii "  - name: \"db\"",
    ascii "    args: [\"a, b\"]", ascii "  - name: \"web\"", ascii "    opts:",
    ascii "      port: \"80\"", []]

theorem nestedText_read_back :
    parse nestedDocument = .ok nestedTree ∧ encodeTree nestedTree = some nestedText ∧
      parse nestedText = .ok nestedTree := by
  have hparse : parse nestedDocument = .ok nestedTree := by decide +kernel
  have hencode : encodeTree nestedTree = some nestedText := by decide +kernel
  exact ⟨hparse, hencode, parse_encodeTree hparse hencode⟩

end Gopherd.Yaml
