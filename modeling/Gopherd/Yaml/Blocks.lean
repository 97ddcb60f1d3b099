import Gopherd.Yaml.Header

namespace Gopherd.Yaml

open Go

theorem render_cons (line : Written) (lines : List Written) :
    render (line :: lines) = line.raw ++ newline :: render lines := by
  simp [render]

theorem render_append (first second : List Written) :
    render (first ++ second) = render first ++ render second :=
  List.flatMap_append

structure Block (indent : Nat) (lines : List Written) : Prop where
  content : ∀ line ∈ lines, Content line.text
  plain : ∀ line ∈ lines, blockIndicator line.text = none
  deep : ∀ line ∈ lines, indent ≤ line.indent

theorem Block.nil (indent : Nat) : Block indent [] :=
  ⟨by simp, by simp, by simp⟩

variable {indent dashIndent : Nat} {written : List Written} {lines : List Line}

theorem Block.append (hfirst : Block indent first) (hsecond : Block indent second) :
    Block indent (first ++ second) := by
  refine ⟨?_, ?_, ?_⟩
  · simpa [or_imp, forall_and] using ⟨hfirst.content, hsecond.content⟩
  · simpa [or_imp, forall_and] using ⟨hfirst.plain, hsecond.plain⟩
  · simpa [or_imp, forall_and] using ⟨hfirst.deep, hsecond.deep⟩

theorem Block.mono {lines : List Written} (h : Block indent lines) (hle : indent' ≤ indent) :
    Block indent' lines :=
  ⟨h.content, h.plain, fun line hline => hle.trans (h.deep line hline)⟩

theorem Block.cons {indent : Nat} {line : Written} {lines : List Written}
    (hcontent : Content line.text) (hplain : blockIndicator line.text = none)
    (hdeep : indent ≤ line.indent) (h : Block indent lines) : Block indent (line :: lines) := by
  refine ⟨?_, ?_, ?_⟩
  · exact List.forall_mem_cons.mpr ⟨hcontent, h.content⟩
  · exact List.forall_mem_cons.mpr ⟨hplain, h.plain⟩
  · exact List.forall_mem_cons.mpr ⟨hdeep, h.deep⟩

theorem Block.laid_deep (h : Block indent written) (hlaid : Laid written lines) :
    ∀ line ∈ lines, indent ≤ line.indent := by
  induction written generalizing lines with
  | nil =>
    rw [show lines = [] from hlaid]
    simp
  | cons first written ih =>
    obtain ⟨num, rest, rfl, hrest⟩ := hlaid
    have htail : Block indent written :=
      ⟨(List.forall_mem_cons.mp h.content).2, (List.forall_mem_cons.mp h.plain).2,
        (List.forall_mem_cons.mp h.deep).2⟩
    rw [List.forall_mem_cons]
    exact ⟨(List.forall_mem_cons.mp h.deep).1, ih htail hrest⟩

/-- A document of such lines. -/
theorem parse_render (h : Block indent written)
    (hreads : ∀ {lines}, Laid written lines → parseBlock (maxParseDepth + 1) lines (-1) = .ok
      (node, [])) : parse (render written) = .ok node := by
  rw [parse, contentLines_render h.content, splitLines_raws h.content h.plain]
  change parseLines (numbered 1 written) = .ok node
  rw [parseLines, hreads (laid_numbered 1 written)]
  rfl

structure HeaderLine (key value : Bytes) : Prop where
  isKey : Key key
  isValue : value = [] ∨ Value value

theorem HeaderLine.block (h : HeaderLine key value) {lines : List Written}
    (hlines : Block indent lines) : Block indent (⟨indent, header key value⟩ :: lines) :=
  .cons (h.isKey.content h.isValue) (h.isKey.blockIndicator_header h.isValue) (Nat.le_refl _) hlines

structure ValueText (left indent : Nat) (key : Bytes) (val : Node Bytes) (value : Bytes)
    (below : List Written) : Prop where
  isHeader : HeaderLine key value
  isBlock : Block (indent + 1) below
  reads : ∀ {lines}, Laid below lines → ∀ {num tail}, Ends indent tail →
    parseValue (parseBlock left) (left + 1) (Written.at ⟨indent, header key value⟩ num) value
      (lines ++ tail) = .ok (val, tail)

structure EntriesText (left indent : Nat) (entries : List (Bytes × Node Bytes))
    (written : List Written) : Prop where
  block : Block indent written
  first : (entries = [] ∧ written = []) ∨
    ∃ key value rest, written = ⟨indent, header key value⟩ :: rest ∧ HeaderLine key value
  length : entries.length ≤ written.length
  reads : ∀ {lines}, Laid written lines → ∀ tail fuel base (minIndent : Int) seen,
    minIndent < indent → (base = none ∨ base = some indent) → entries.length ≤ fuel →
    (∀ entry ∈ entries, seen.lookup entry.1 = none) → Ends minIndent tail →
    parseEntries (parseBlock left) (left + 1) fuel base minIndent seen (lines ++ tail) =
      .ok (entries, tail)

structure MappingText (left indent : Nat) (entries : List (Bytes × Node Bytes))
    (written : List Written) : Prop where
  block : Block indent written
  first : ∃ key value rest, written = ⟨indent, header key value⟩ :: rest ∧ HeaderLine key value
  reads : ∀ {lines}, Laid written lines → ∀ {tail} {minIndent : Int}, minIndent < indent →
    Ends minIndent tail → parseBlock left (lines ++ tail) minIndent = .ok (.mapping entries, tail)

section Mapping

variable {left indent : Nat}

variable {key : Bytes}

theorem valueText_inline (hkey : Key key) (hvalue : Value value)
    (hval : parseScalar (left + 1) value = .ok val) :
    ValueText left indent key val value [] where
  isHeader := ⟨hkey, Or.inr hvalue⟩
  isBlock := .nil _
  reads := by
    rintro lines rfl num tail -
    exact parseValue_value hvalue hval

/-- A block below its key. -/
theorem valueText_child (hkey : Key key) (hbelow : Block (indent + 1) (first :: below))
    (hreads : ∀ {lines}, Laid (first :: below) lines → ∀ {tail}, Ends indent tail → parseBlock
      left (lines ++ tail) indent = .ok (val, tail)) :
    ValueText left indent key val [] (first :: below) where
  isHeader := ⟨hkey, Or.inl rfl⟩
  isBlock := hbelow
  reads := by
    intro lines hlaid num tail hends
    have hblock := hreads hlaid hends
    obtain ⟨num', rest, rfl, hrest⟩ := hlaid
    have hdeep : ¬ first.indent ≤ indent := by
      have hle := hbelow.deep first List.mem_cons_self
      omega
    simpa [parseValue, parseChild, Written.at, hdeep] using hblock

theorem EntriesText.nil (left indent : Nat) : EntriesText left indent [] [] := by
  refine ⟨.nil _, Or.inl ⟨rfl, rfl⟩, Nat.le_refl _, ?_⟩
  rintro lines rfl tail fuel base minIndent seen - - - - hends
  exact parseEntries_ends hends

variable {entries : List (Bytes × Node Bytes)} {written : List Written}

/-- The lines of the entries end a value above them. -/
theorem EntriesText.ends (h : EntriesText left indent entries written) {lines tail : List Line}
    (hlaid : Laid written lines) {minIndent : Int} (hmin : minIndent < indent)
    (htail : Ends minIndent tail) : Ends indent (lines ++ tail) := by
  rcases h.first with ⟨-, rfl⟩ | ⟨key, value, rest, rfl, -⟩
  · rw [show lines = [] from hlaid]
    intro line hline
    have hle := htail line hline
    omega
  · obtain ⟨num, rest', rfl, -⟩ := hlaid
    rintro line ⟨⟩
    exact Int.le_refl _

/-- One more entry in front. -/
theorem EntriesText.cons {key value : Bytes} {val : Node Bytes} {below : List Written}
    (hvalue : ValueText left indent key val value below)
    (h : EntriesText left indent entries written) (hkey : key ∉ entries.map Prod.fst) :
    EntriesText left indent ((key, val) :: entries)
      (⟨indent, header key value⟩ :: (below ++ written)) := by
  refine ⟨?_, ?_, ?_, ?_⟩
  · exact hvalue.isHeader.block ((hvalue.isBlock.mono (by omega)).append h.block)
  · exact Or.inr ⟨key, value, _, rfl, hvalue.isHeader⟩
  · have hlength := h.length
    simp only [List.length_cons, List.length_append]
    omega
  · rintro _ ⟨num, rest, rfl, hlaid⟩ tail fuel base minIndent seen hmin hbase hfuel hseen hends
    obtain ⟨lines, more, rfl, hlines, hmore⟩ := laid_append.mp hlaid
    rw [List.forall_mem_cons] at hseen
    cases fuel with
    | zero => simp at hfuel
    | succ fuel =>
      rw [List.length_cons] at hfuel
      -- The later keys differ from this one, so none of them is seen twice.
      have hfresh : ∀ entry ∈ entries, ((key, num) :: seen).lookup entry.1 = none := by
        intro entry hentry
        have hne : entry.1 ≠ key :=
          fun heq => hkey (List.mem_map.mpr ⟨entry, hentry, heq⟩)
        rw [List.lookup_cons, show (entry.1 == key) = false by simpa using hne]
        exact hseen.2 entry hentry
      have hnext := h.reads hmore tail fuel (some indent) (indent - 1) ((key, num) :: seen)
        (by omega) (Or.inr rfl) (by omega) hfresh
        (fun line hline => by have hle := hends line hline; omega)
      rw [List.cons_append, List.append_assoc, parseEntries_header hvalue.isHeader.isKey
        hvalue.isHeader.isValue hmin hbase hseen.1,
        hvalue.reads hlines (h.ends hmore hmin hends)]
      simp only [bind, Except.bind, hnext]
      rfl

theorem EntriesText.mappingText (h : EntriesText left indent entries written)
    (hne : entries ≠ []) : MappingText (left + 1) indent entries written := by
  have hfirst := h.first.resolve_left (fun hempty => hne hempty.1)
  refine ⟨h.block, hfirst, ?_⟩
  intro lines hlaid tail minIndent hmin hends
  have hlength := hlaid.length_eq
  have hentries := h.reads hlaid tail (lines ++ tail).length none minIndent [] hmin (Or.inl rfl)
    (by have hle := h.length; rw [List.length_append]; omega) (by simp) hends
  obtain ⟨key, value, rest, rfl, hheader⟩ := hfirst
  obtain ⟨num, rest', rfl, -⟩ := hlaid
  rw [List.cons_append] at hentries ⊢
  simp only [parseBlock, Written.at, hheader.isKey.header_not_dash, parseMapping] at hentries ⊢
  simp only [hentries, bind, Except.bind]
  rfl

/-- A mapping below its key. -/
theorem MappingText.valueText (hkey : Key key) (h : MappingText left indent' entries written)
    (hindent : indent < indent') : ValueText left indent key (.mapping entries) [] written := by
  obtain ⟨key', value', rest, rfl, -⟩ := h.first
  refine valueText_child hkey (h.block.mono hindent) ?_
  intro lines hlaid tail hends
  exact h.reads hlaid (by omega) hends

end Mapping

structure ItemsText (left dashIndent : Nat) (items : List (Node Bytes))
    (written : List Written) : Prop where
  block : Block dashIndent written
  first : (items = [] ∧ written = []) ∨
    ∃ text rest, written = ⟨dashIndent, dash ++ text⟩ :: rest
  length : items.length ≤ written.length
  reads : ∀ {lines}, Laid written lines → ∀ tail fuel, items.length ≤ fuel →
    Ends (dashIndent - 1) tail →
    parseItems (parseBlock left) (left + 1) dashIndent fuel (lines ++ tail) = .ok (items, tail)

structure SequenceText (left dashIndent : Nat) (items : List (Node Bytes))
    (written : List Written) : Prop where
  block : Block dashIndent written
  first : ∃ text rest, written = ⟨dashIndent, dash ++ text⟩ :: rest
  reads : ∀ {lines}, Laid written lines → ∀ {tail} {minIndent : Int}, Ends (dashIndent - 1) tail →
    parseBlock left (lines ++ tail) minIndent = .ok (.sequence items, tail)

/-- The lines of an item are those that are indented deeper than its dash. -/
theorem takeWhile_item (hlines : ∀ line ∈ lines, dashIndent + 2 ≤ line.indent)
    (hrest : ∀ line ∈ rest.head?, line.indent ≤ dashIndent) :
    (lines ++ rest).takeWhile (fun line => decide (dashIndent < line.indent)) = lines ∧
      (lines ++ rest).dropWhile (fun line => decide (dashIndent < line.indent)) = rest := by
  have hall : ∀ line ∈ lines, decide (dashIndent < line.indent) = true := by
    intro line hline
    have hle := hlines line hline
    exact decide_eq_true (by omega)
  rw [List.takeWhile_append_of_pos hall, List.dropWhile_append_of_pos hall]
  cases rest with
  | nil => simp
  | cons line rest =>
    have hle : line.indent ≤ dashIndent := hrest line rfl
    simp [Nat.not_lt.mpr hle]

theorem parseItems_ends (h : Ends (dashIndent - 1) tail) :
    parseItems block left dashIndent fuel tail = .ok ([], tail) := by
  cases fuel with
  | zero => rfl
  | succ fuel =>
    cases tail with
    | nil => rfl
    | cons line tail =>
      have hline : (line.indent : Int) ≤ dashIndent - 1 := h line rfl
      have hne : line.indent ≠ dashIndent := by omega
      simp only [parseItems, ne_eq, hne, not_false_eq_true, true_or, if_true]

theorem startsWith_dash (text : Bytes) : startsWith dash (dash ++ text) = true :=
  List.isPrefixOf_iff_prefix.mpr ⟨_, rfl⟩

/-- One item of several lines or of one that is no scalar. -/
theorem parseItems_item (hlines : ∀ line ∈ lines, dashIndent + 2 ≤ line.indent)
    (hrest : ∀ line ∈ rest.head?, line.indent ≤ dashIndent)
    (hitem : parseItem block left dashIndent (Written.at ⟨dashIndent, dash ++ text⟩ num) text
      lines = .ok item) :
    parseItems block left dashIndent (fuel + 1)
        (Written.at ⟨dashIndent, dash ++ text⟩ num :: (lines ++ rest)) = (do
      let (items, lines) ← parseItems block left dashIndent fuel rest
      pure (item :: items, lines)) := by
  obtain ⟨htake, hdrop⟩ := takeWhile_item hlines hrest
  have htext : (dash ++ text).drop 2 = text := rfl
  simp only [parseItems, Written.at, startsWith_dash, htext, htake, hdrop, ne_eq,
    not_true_eq_false, Bool.not_true, Bool.false_eq_true, or_self, if_false] at hitem ⊢
  simp only [hitem]
  rfl

section Sequence

variable {left dashIndent : Nat}

theorem ItemsText.nil (left dashIndent : Nat) : ItemsText left dashIndent [] [] := by
  refine ⟨.nil _, Or.inl ⟨rfl, rfl⟩, Nat.le_refl _, ?_⟩
  rintro lines rfl tail fuel - hends
  exact parseItems_ends hends

variable {items : List (Node Bytes)} {written : List Written}

theorem ItemsText.ends (h : ItemsText left dashIndent items written) {lines tail : List Line}
    (hlaid : Laid written lines) (htail : Ends (dashIndent - 1) tail) :
    ∀ line ∈ (lines ++ tail).head?, line.indent ≤ dashIndent := by
  rcases h.first with ⟨-, rfl⟩ | ⟨text, rest, rfl⟩
  · rw [show lines = [] from hlaid]
    intro line hline
    have hle := htail line hline
    omega
  · obtain ⟨num, rest', rfl, -⟩ := hlaid
    rintro line ⟨⟩
    exact Nat.le_refl _

/-- One more item in front. -/
theorem ItemsText.cons {text : Bytes} {below : List Written} {item : Node Bytes}
    (hcontent : Content text) (hplain : blockIndicator text = none)
    (hbelow : Block (dashIndent + 2) below)
    (hitem : ∀ {lines}, Laid below lines → ∀ num, parseItem (parseBlock left) (left + 1) dashIndent
      (Written.at ⟨dashIndent, dash ++ text⟩ num) text lines = .ok item)
    (h : ItemsText left dashIndent items written) :
    ItemsText left dashIndent (item :: items)
      (⟨dashIndent, dash ++ text⟩ :: (below ++ written)) := by
  refine ⟨?_, Or.inr ⟨_, _, rfl⟩, ?_, ?_⟩
  · exact .cons hcontent.dash hplain (Nat.le_refl _) ((hbelow.mono (by omega)).append h.block)
  · have hlength := h.length
    simp only [List.length_cons, List.length_append]
    omega
  · rintro _ ⟨num, rest, rfl, hlaid⟩ tail fuel hfuel hends
    obtain ⟨lines, more, rfl, hlines, hmore⟩ := laid_append.mp hlaid
    cases fuel with
    | zero => simp at hfuel
    | succ fuel =>
      rw [List.length_cons] at hfuel
      rw [List.cons_append, List.append_assoc, parseItems_item (hbelow.laid_deep hlines)
        (h.ends hmore hends) (hitem hlines num), h.reads hmore tail fuel (by omega) hends]
      rfl

/-- An item on one line that is no block. -/
theorem ItemsText.cons_inline (hcontent : Content text) (hplain : blockIndicator text = none)
    (hinline : isInlineSeqItem text = true) (hitem : parseScalar (left + 1) text = .ok item)
    (h : ItemsText left dashIndent items written) :
    ItemsText left dashIndent (item :: items) (⟨dashIndent, dash ++ text⟩ :: written) := by
  refine ItemsText.cons hcontent hplain (.nil _) ?_ h
  rintro lines rfl num
  simp only [parseItem, hinline, and_self, if_true, hitem]

/-- An item that is a mapping. -/
theorem ItemsText.cons_mapping
    (hmapping : MappingText left (dashIndent + 2) entries (⟨dashIndent + 2, header key value⟩ ::
      below)) (hheader : HeaderLine key value)
    (hinline : below = [] → isInlineSeqItem (header key value) = false)
    (h : ItemsText left dashIndent items written) :
    ItemsText left dashIndent (.mapping entries :: items)
      (⟨dashIndent, dash ++ header key value⟩ :: (below ++ written)) := by
  have hbelow : Block (dashIndent + 2) below :=
    ⟨(List.forall_mem_cons.mp hmapping.block.content).2,
      (List.forall_mem_cons.mp hmapping.block.plain).2,
      (List.forall_mem_cons.mp hmapping.block.deep).2⟩
  refine ItemsText.cons (hheader.isKey.content hheader.isValue)
    (hheader.isKey.blockIndicator_header hheader.isValue) hbelow ?_ h
  intro lines hlaid num
  have hreads := hmapping.reads ⟨num, lines, rfl, hlaid⟩
    (show (dashIndent + 2 - 1 : Int) < (dashIndent + 2 : Nat) by omega) (ends_nil _)
  rw [List.append_nil] at hreads
  have hnot : ¬ (lines = [] ∧ isInlineSeqItem (header key value) = true) := by
    rintro ⟨rfl, htrue⟩
    have hempty : below = [] := List.eq_nil_of_length_eq_zero hlaid.length_eq.symm
    simp [hinline hempty] at htrue
  rw [parseItem, if_neg hnot]
  simp only [Written.at] at hreads ⊢
  rw [hreads]
  rfl

theorem ItemsText.sequenceText (h : ItemsText left dashIndent items written) (hne : items ≠ []) :
    SequenceText (left + 1) dashIndent items written := by
  have hfirst := h.first.resolve_left (fun hempty => hne hempty.1)
  refine ⟨h.block, hfirst, ?_⟩
  intro lines hlaid tail minIndent hends
  have hlength := hlaid.length_eq
  have hitems := h.reads hlaid tail (lines ++ tail).length
    (by have hle := h.length; rw [List.length_append]; omega) hends
  obtain ⟨text, rest, rfl⟩ := hfirst
  obtain ⟨num, rest', rfl, -⟩ := hlaid
  rw [List.cons_append] at hitems ⊢
  simp only [parseBlock, Written.at, startsWith_dash, if_true, parseSequence] at hitems ⊢
  simp only [hitems, bind, Except.bind]
  rfl

/-- A list below its key. -/
theorem SequenceText.valueText (hkey : Key key) (h : SequenceText left dashIndent items written)
    (hindent : indent < dashIndent) : ValueText left indent key (.sequence items) [] written := by
  obtain ⟨text, rest, rfl⟩ := h.first
  refine valueText_child hkey (h.block.mono hindent) ?_
  intro lines hlaid tail hends
  exact h.reads hlaid (fun line hline => by have hle := hends line hline; omega)

end Sequence

theorem MappingText.parse (h : MappingText (maxParseDepth + 1) 0 entries written) :
    parse (render written) = .ok (.mapping entries) := by
  refine parse_render h.block ?_
  intro lines hlaid
  have hreads := h.reads hlaid (show (-1 : Int) < (0 : Nat) by omega) (ends_nil (-1))
  rwa [List.append_nil] at hreads

theorem SequenceText.parse (h : SequenceText (maxParseDepth + 1) 0 items written) :
    parse (render written) = .ok (.sequence items) := by
  refine parse_render h.block ?_
  intro lines hlaid
  have hreads : parseBlock _ (lines ++ []) (-1) = _ := h.reads hlaid (ends_nil _)
  rwa [List.append_nil] at hreads

/-- A document of one key. -/
theorem ValueText.parse (h : ValueText maxParseDepth 0 key val value below) :
    parse (render (⟨0, header key value⟩ :: below)) = .ok (.mapping [(key, val)]) := by
  have hentries := EntriesText.cons h (.nil _ _) (by simp)
  rw [List.append_nil] at hentries
  exact (hentries.mappingText (by simp)).parse

end Gopherd.Yaml
