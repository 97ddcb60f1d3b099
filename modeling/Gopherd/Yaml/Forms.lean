import Gopherd.Yaml.Blocks
import Gopherd.Yaml.Encode

/-!
The block form and the inline form of a list of strings and of a mapping to
strings, with every string double-quoted. The inline parsers know about quotes.
-/

namespace Gopherd.Yaml

open Go

theorem Value.content (h : Value value) : Content value where
  front := h.tight.front
  last := h.last
  noNewline := h.noNewline
  noCarriageReturn := h.noCarriageReturn
  noComment := h.noComment
  noBom := by
    obtain ⟨b, rest, rfl, hb, -⟩ := h.first
    intro hfront
    rw [← (List.cons_prefix_cons.mp hfront).1] at hb
    exact absurd hb (by decide)

def inlineListDocument (key : Bytes) (items : List Bytes) : Bytes :=
  key ++ colon :: space :: (encodeInlineSeq items ++ [newline])

def blockListDocument (key : Bytes) (dashIndent : Nat) (items : List Bytes) : Bytes :=
  key ++ colon :: newline :: items.flatMap fun item =>
    pad dashIndent ++ dash ++ quoteScalar item ++ [newline]

def listTree (key : Bytes) (items : List Bytes) : Node Bytes :=
  .mapping [(key, .sequence (items.map .scalar))]

/-- The quoted item looks like a key with a block scalar: behind its first colon
with a space stands, after white space, `|` or `>`. -/
def OpensBlock (item : Bytes) : Prop :=
  ∃ i, findColon (quoteScalar item) = some i ∧
    (trimSpaces ((quoteScalar item).drop (i + 1))).head? ∈ [some bar, some greater]

theorem valuePosition_quoteScalar (item : Bytes) :
    (valuePosition (quoteScalar item)).head? ∈ [some bar, some greater] ↔ OpensBlock item := by
  have hstrip : stripDashes (quoteScalar item) = quoteScalar item := rfl
  simp only [valuePosition, hstrip, OpensBlock]
  cases hcolon : findColon (quoteScalar item) with
  | none => simp +decide [quoteScalar]
  | some i => simp

theorem blockIndicator_quoteScalar (item : Bytes) :
    blockIndicator (quoteScalar item) = none ↔ ¬ OpensBlock item := by
  rw [blockIndicator_eq, ← valuePosition_quoteScalar]
  split_ifs with h
  · simp [h]
  · simp [h]

/-- The indicator is the rest of the quoted text, so it ends with the quote. -/
theorem unsupported_of_quoteScalar (h : blockIndicator (quoteScalar item) = some indicator) :
    Unsupported indicator := by
  rw [blockIndicator_eq] at h
  split_ifs at h with hopens
  obtain ⟨i, hcolon, -⟩ := (valuePosition_quoteScalar item).mp hopens
  have hposition : valuePosition (quoteScalar item) =
      trimSpaces ((quoteScalar item).drop (i + 1)) := by
    have hstrip : stripDashes (quoteScalar item) = quoteScalar item := rfl
    simp only [valuePosition, hstrip, hcolon]
  obtain ⟨init, hinit⟩ :=
    trimSpaces_drop_findColon hcolon (quoteScalar_concat item) (by decide) (by decide)
  obtain rfl : init ++ [doubleQuote] = indicator := by
    rw [← hinit, ← hposition]
    exact Option.some.inj h
  have hlast : ∀ other : Bytes,
      other.getLast? ≠ some doubleQuote → init ++ [doubleQuote] ≠ other := by
    rintro _ hother rfl
    simp at hother
  simp only [Unsupported, List.mem_cons, List.not_mem_nil, or_false, not_or]
  exact ⟨hlast _ (by decide), hlast _ (by decide), hlast _ (by decide)⟩

theorem isInlineSeqItem_quoteScalar (item : Bytes) : isInlineSeqItem (quoteScalar item) = true := by
  have hdash : startsWith dash (quoteScalar item) = false := rfl
  have hlast : (quoteScalar item).getLast? = some doubleQuote := by
    rw [quoteScalar, ← List.cons_append, List.getLast?_append]
    rfl
  simp +decide [isInlineSeqItem, hdash, bracketed_quoteScalar, hlast]
  simp [quoteScalar]

theorem quotedItems_text (left dashIndent : Nat) {items : List Bytes}
    (h : ∀ item ∈ items, ¬ OpensBlock item) :
    ItemsText left dashIndent (items.map .scalar)
      (items.map fun item => ⟨dashIndent, dash ++ quoteScalar item⟩) := by
  induction items with
  | nil => exact .nil _ _
  | cons item items ih =>
    rw [List.forall_mem_cons] at h
    exact .cons_inline (value_quoteScalar item).content ((blockIndicator_quoteScalar item).mpr h.1)
      (isInlineSeqItem_quoteScalar item) (parseScalar_quoteScalar left item) (ih h.2)

theorem inlineListDocument_eq (key : Bytes) (items : List Bytes) :
    inlineListDocument key items = render [⟨0, header key (encodeInlineSeq items)⟩] := by
  simp [inlineListDocument, render, Written.raw, header, (value_encodeInlineSeq items).ne]

theorem blockListDocument_eq (key : Bytes) (dashIndent : Nat) (items : List Bytes) :
    blockListDocument key dashIndent items =
      render (⟨0, header key []⟩ ::
        items.map fun item => ⟨dashIndent, dash ++ quoteScalar item⟩) := by
  simp [blockListDocument, render, Written.raw, header, pad, List.flatMap_map]

/-- An item that looks like a key with a block scalar makes the document fail. -/
theorem parse_blockListDocument_error (hkey : Key key) (dashIndent : Nat)
    (h : ∃ item ∈ items, OpensBlock item) :
    ∃ error, parse (blockListDocument key dashIndent items) = .error error := by
  have hcontent : ∀ line ∈ (⟨0, header key []⟩ :: items.map fun item =>
      ⟨dashIndent, dash ++ quoteScalar item⟩ : List Written), Content line.text := by
    rw [List.forall_mem_cons]
    refine ⟨hkey.content (Or.inl rfl), ?_⟩
    intro line hline
    obtain ⟨item, -, rfl⟩ := List.mem_map.mp hline
    exact (value_quoteScalar item).content.dash
  obtain ⟨error, herror⟩ := splitLines_unsupported hcontent (by
      rw [List.forall_mem_cons]
      refine ⟨?_, ?_⟩
      · intro indicator hindicator
        rw [hkey.blockIndicator_header (Or.inl rfl)] at hindicator
        cases hindicator
      · intro line hline indicator hindicator
        obtain ⟨item, -, rfl⟩ := List.mem_map.mp hline
        exact unsupported_of_quoteScalar hindicator) (by
      obtain ⟨item, hitem, hopens⟩ := h
      refine ⟨⟨dashIndent, dash ++ quoteScalar item⟩,
        List.mem_cons_of_mem _ (List.mem_map.mpr ⟨item, hitem, rfl⟩), ?_⟩
      rw [ne_eq, blockIndicator_dash, blockIndicator_quoteScalar, not_not]
      exact hopens) 1
  refine ⟨error, ?_⟩
  rw [blockListDocument_eq, parse, contentLines_render hcontent, herror]
  rfl

/-- The inline list and the block list below a key both give the items, unless an
item looks like a key with a block scalar. -/
theorem list_forms_agree_iff {key : Bytes} (hkey : safeKey key = true) {items : List Bytes}
    (hne : items ≠ []) {dashIndent : Nat} (hindent : 0 < dashIndent) :
    (parse (inlineListDocument key items) = .ok (listTree key items) ∧
      parse (blockListDocument key dashIndent items) = .ok (listTree key items)) ↔
      ∀ item ∈ items, ¬ OpensBlock item := by
  constructor
  · rintro ⟨-, hblock⟩ item hitem hopens
    obtain ⟨error, herror⟩ :=
      parse_blockListDocument_error (safeKey_key hkey) dashIndent ⟨item, hitem, hopens⟩
    rw [herror] at hblock
    cases hblock
  · intro hplain
    have hinline : ValueText maxParseDepth 0 key (.sequence (items.map .scalar))
        (encodeInlineSeq items) [] :=
      valueText_inline (safeKey_key hkey) (value_encodeInlineSeq items)
        (parseScalar_encodeInlineSeq maxParseDepth items)
    have hblock : SequenceText maxParseDepth dashIndent (items.map .scalar)
        (items.map fun item => ⟨dashIndent, dash ++ quoteScalar item⟩) :=
      (quotedItems_text _ dashIndent hplain).sequenceText (by simpa using hne)
    constructor
    · rw [inlineListDocument_eq]
      exact hinline.parse
    · rw [blockListDocument_eq]
      exact (hblock.valueText (safeKey_key hkey) hindent).parse

/-- `k: ["a: |b"]` and the same item as a block. -/
theorem list_forms_disagree :
    ∃ key items dashIndent, safeKey key = true ∧ items ≠ [] ∧ 0 < dashIndent ∧
      ¬ (parse (inlineListDocument key items) = .ok (listTree key items) ∧
        parse (blockListDocument key dashIndent items) = .ok (listTree key items)) := by
  refine ⟨ascii "k", [ascii "a: |b"], 2, by decide +kernel, by decide, by decide, ?_⟩
  decide +kernel

/-- Items with commas, brackets, comments and line breaks. -/
theorem list_forms_agree_quoted :
    parse (inlineListDocument (ascii "k") [ascii "a, \"b\" # c", ascii "x: \ty"]) =
        .ok (listTree (ascii "k") [ascii "a, \"b\" # c", ascii "x: \ty"]) ∧
      parse (blockListDocument (ascii "k") 2 [ascii "a, \"b\" # c", ascii "x: \ty"]) =
        .ok (listTree (ascii "k") [ascii "a, \"b\" # c", ascii "x: \ty"]) := by
  refine (list_forms_agree_iff (by decide +kernel) (by decide) (by decide)).mpr ?_
  intro item hitem
  rw [← blockIndicator_quoteScalar]
  revert item hitem
  decide +kernel

def keyByte (b : UInt8) : Bool :=
  (48 ≤ b && b ≤ 57) || (65 ≤ b && b ≤ 90) || (97 ≤ b && b ≤ 122) || b == 95 || b == hyphen

structure PlainKey (key : Bytes) : Prop where
  ne : key ≠ []
  bytes : ∀ b ∈ key, keyByte b = true

inductive Form where
  | bareBlock
  | quotedBlock
  | inline
  deriving DecidableEq

inductive Place where
  | below (key : Bytes) (indent : Nat)
  | item

def inlinePair (pair : Bytes × Bytes) : Bytes :=
  header (quoteScalar pair.1) (quoteScalar pair.2)

def inlineMap (pairs : List (Bytes × Bytes)) : Bytes :=
  openBrace :: (joinComma (pairs.map inlinePair) ++ [closeBrace])

def blockLines (writeKey : Bytes → Bytes) (indent : Nat) (pairs : List (Bytes × Bytes)) :
    List Written :=
  pairs.map fun pair => ⟨indent, header (writeKey pair.1) (quoteScalar pair.2)⟩

/-- The lines of a mapping of which the first one carries the item marker. -/
def asItem : List Written → List Written
  | [] => []
  | first :: rest => ⟨0, dash ++ first.text⟩ :: rest

def Place.blockDocument (place : Place) (writeKey : Bytes → Bytes)
    (pairs : List (Bytes × Bytes)) : List Written :=
  match place with
  | .below key indent => ⟨0, header key []⟩ :: blockLines writeKey indent pairs
  | .item => asItem (blockLines writeKey 2 pairs)

def Place.inlineDocument (place : Place) (pairs : List (Bytes × Bytes)) : List Written :=
  match place with
  | .below key _ => [⟨0, header key (inlineMap pairs)⟩]
  | .item => [⟨0, dash ++ inlineMap pairs⟩]

/-- The document with the mapping written in this form. -/
def Form.document (form : Form) (place : Place) (pairs : List (Bytes × Bytes)) : Bytes :=
  match form with
  | .bareBlock => render (place.blockDocument id pairs)
  | .quotedBlock => render (place.blockDocument quoteScalar pairs)
  | .inline => render (place.inlineDocument pairs)

/-- The mapping of the keys, as `writeKey` has them, to the values. -/
def entriesOf (writeKey : Bytes → Bytes) (pairs : List (Bytes × Bytes)) :
    List (Bytes × Node Bytes) :=
  pairs.map fun pair => (writeKey pair.1, .scalar pair.2)

def Place.tree (place : Place) (entries : List (Bytes × Node Bytes)) : Node Bytes :=
  match place with
  | .below key _ => .mapping [(key, .mapping entries)]
  | .item => .sequence [.mapping entries]

def Place.Valid : Place → Prop
  | .below key indent => safeKey key = true ∧ 0 < indent
  | .item => True

section Keys

variable {key : Bytes}

theorem PlainKey.not_mem (h : PlainKey key) (hb : keyByte b = false) : b ∉ key := by
  intro hmem
  rw [h.bytes b hmem] at hb
  cases hb

theorem PlainKey.unquoted (h : PlainKey key) : Unquoted key :=
  ⟨h.not_mem (by decide), h.not_mem (by decide)⟩

theorem solid_of_keyByte (h : keyByte b = true) : solid b = true := by
  simp only [keyByte, solid, Bool.or_eq_true, Bool.and_eq_true, decide_eq_true_eq, beq_iff_eq,
    UInt8.le_iff_toNat_le, UInt8.lt_iff_toNat_lt, ← UInt8.toNat_inj] at h ⊢
  have hhyphen : hyphen.toNat = 45 := rfl
  simp [hhyphen] at h ⊢
  omega

theorem PlainKey.tight (h : PlainKey key) : Tight key := by
  obtain ⟨first, rest, hfirst⟩ := List.exists_cons_of_ne_nil h.ne
  obtain ⟨init, last, hlast⟩ := List.eq_nil_or_concat key |>.resolve_left h.ne
  rw [List.concat_eq_append] at hlast
  constructor
  · have hsolid := solid_of_keyByte (h.bytes first (by simp [hfirst]))
    rw [hfirst]
    exact spaceFree_cons spaceRunes_not_solid hsolid
  · have hsolid := solid_of_keyByte (h.bytes last (by simp [hlast]))
    rw [hlast]
    exact back_of_solid hsolid

/-- Without a colon in the key the one behind it is found. -/
theorem findColon_of_not_mem (h : colon ∉ key) : findColon (key ++ [colon]) = some key.length := by
  induction key with
  | nil => rfl
  | cons c key ih =>
    rw [List.mem_cons, not_or] at h
    rw [List.cons_append, findColon, if_neg (fun hc => h.1 hc.1.symm), ih h.2]
    rfl

theorem commentStart_of_not_mem (hquotes : Unquoted key) (hhash : hash ∉ key)
    (previous : Option UInt8) : commentStart false false false previous key = none := by
  induction key generalizing previous with
  | nil => rfl
  | cons c key ih =>
    have hmem : ∀ b, b ∉ c :: key → c ≠ b := by
      rintro b hb rfl
      simp at hb
    exact commentStart_cons (hmem _ hquotes.noSingleQuote) (hmem _ hquotes.noDoubleQuote)
      (hmem _ hhash) (ih ⟨fun h => hquotes.noDoubleQuote (by simp [h]),
        fun h => hquotes.noSingleQuote (by simp [h])⟩ (fun h => hhash (by simp [h])) _) previous

theorem PlainKey.isKey (h : PlainKey key) : Key key where
  noNewline := h.not_mem (by decide)
  noCarriageReturn := h.not_mem (by decide)
  front := h.tight.front
  trimmed := h.tight.trimSpaces
  passes := fun hrest previous => commentStart_append h.unquoted hrest previous
    (commentStart_of_not_mem h.unquoted (h.not_mem (by decide)) previous)
  atColon := findColon_of_not_mem (h.not_mem (by decide))
  noDash := fun hfront =>
    h.not_mem (show keyByte space = false by decide) (hfront.subset (by decide))
  noBom := fun hfront => h.not_mem (show keyByte 0xEF = false by decide) (hfront.subset (by decide))

theorem PlainKey.escape (h : PlainKey key) : key.flatMap escapeByte = key := by
  have hbyte : ∀ b ∈ key, escapeByte b = [b] := by
    intro b hb
    have hne : ∀ c, keyByte c = false → b ≠ c := by
      rintro c hc rfl
      exact h.not_mem hc hb
    simp only [escapeByte, hne _ (show keyByte backslash = false by decide),
      hne _ (show keyByte doubleQuote = false by decide),
      hne _ (show keyByte newline = false by decide), hne _ (show keyByte tab = false by decide),
      hne _ (show keyByte carriageReturn = false by decide), if_false]
  rw [List.flatMap_congr hbyte, List.flatMap_singleton']

/-- A quoted key is read with its quotes. -/
theorem PlainKey.isKey_quoted (h : PlainKey key) : Key (quoteScalar key) where
  noNewline := (value_quoteScalar key).noNewline
  noCarriageReturn := (value_quoteScalar key).noCarriageReturn
  front := (quoteScalar_tight key).front
  trimmed := (quoteScalar_tight key).trimSpaces
  passes := fun hrest previous => commentStart_quoteScalar (hrest _) key previous
  atColon := findColon_of_not_mem (by
    rw [quoteScalar, h.escape]
    simpa +decide using h.not_mem (show keyByte colon = false by decide))
  noDash := by simp +decide [quoteScalar, dash]
  noBom := by simp +decide [quoteScalar]

end Keys

section Inline

variable {pairs : List (Bytes × Bytes)}

theorem inlinePair_eq (pair : Bytes × Bytes) :
    inlinePair pair = quoteScalar pair.1 ++ ([colon, space] ++ quoteScalar pair.2) := by
  simp [inlinePair, header, quoteScalar]

theorem closed_inlinePair (pair : Bytes × Bytes) : Closed (inlinePair pair) := by
  have hmiddle : Closed [colon, space] := by
    intro current rest
    simp +decide [splitCSVFrom]
  rw [inlinePair_eq]
  exact (closed_quoteScalar _).append (hmiddle.append (closed_quoteScalar _))

theorem value_inlineMap (hkeys : ∀ pair ∈ pairs, PlainKey pair.1) : Value (inlineMap pairs) where
  first := ⟨_, _, rfl, by decide, by decide, by decide⟩
  last := ⟨openBrace :: joinComma (pairs.map inlinePair), _, rfl, by decide⟩
  noNewline := by
    have hparts : ∀ part ∈ pairs.map inlinePair, newline ∉ part := by
      intro part hpart
      obtain ⟨pair, hpair, rfl⟩ := List.mem_map.mp hpart
      exact ((hkeys pair hpair).isKey_quoted.content (Or.inr (value_quoteScalar _))).noNewline
    simpa +decide [inlineMap] using not_mem_joinComma hparts (by decide) (by decide)
  noCarriageReturn := by
    have hparts : ∀ part ∈ pairs.map inlinePair, carriageReturn ∉ part := by
      intro part hpart
      obtain ⟨pair, hpair, rfl⟩ := List.mem_map.mp hpart
      exact ((hkeys pair hpair).isKey_quoted.content
        (Or.inr (value_quoteScalar _))).noCarriageReturn
    simpa +decide [inlineMap] using not_mem_joinComma hparts (by decide) (by decide)
  noComment := by
    intro previous
    refine commentStart_cons (by decide) (by decide) (by decide) ?_ previous
    apply commentStart_joinComma
    · intro part hpart rest hrest previous
      obtain ⟨pair, -, rfl⟩ := List.mem_map.mp hpart
      rw [inlinePair_eq, List.append_assoc, List.append_assoc]
      refine commentStart_quoteScalar ?_ pair.1 previous
      refine commentStart_cons (by decide) (by decide) (by decide) ?_ _
      refine commentStart_cons (by decide) (by decide) (by decide) ?_ _
      exact commentStart_quoteScalar (hrest _) pair.2 _
    · intro previous
      exact commentStart_cons (by decide) (by decide) (by decide) rfl previous

/-- The entries of the inline map, each with white space around it. -/
theorem parseInlineEntries_pairs (left : Nat)
    (hparts : parts.map trimSpaces = pairs.map inlinePair)
    (hkeys : ∀ pair ∈ pairs, PlainKey pair.1) (hnodup : (pairs.map Prod.fst).Nodup)
    (hseen : ∀ pair ∈ pairs, pair.1 ∉ seen) :
    parseInlineEntries (parseScalar (left + 1)) seen parts = .ok (entriesOf id pairs) := by
  induction pairs generalizing parts seen with
  | nil =>
    obtain rfl : parts = [] := List.map_eq_nil_iff.mp hparts
    rfl
  | cons pair pairs ih =>
    obtain ⟨part, parts', rfl, hpart, hrest⟩ := List.map_eq_cons_iff.mp hparts
    rw [List.forall_mem_cons] at hkeys hseen
    rw [List.map_cons, List.nodup_cons] at hnodup
    have hkey := hkeys.1.isKey_quoted
    have hvalue := value_quoteScalar pair.2
    have hcolon := hkey.findColon_header (quoteScalar pair.2)
    have htake := hkey.take_header (quoteScalar pair.2)
    have hdrop : trimSpaces ((header (quoteScalar pair.1) (quoteScalar pair.2)).drop
        ((quoteScalar pair.1).length + 1)) = quoteScalar pair.2 :=
      Key.drop_header (Or.inr hvalue)
    have hfresh : ∀ other ∈ pairs, other.1 ∉ pair.1 :: seen := by
      intro other hother
      rw [List.mem_cons, not_or]
      exact ⟨fun heq => hnodup.1 (List.mem_map.mpr ⟨other, hother, heq⟩), hseen.2 other hother⟩
    have hlater := ih hrest hkeys.2 hnodup.2 hfresh
    rw [parseInlineEntries]
    simp only [hpart, if_false, inlinePair, hcolon, htake, hdrop, unquote_quoteScalar,
      hseen.1, parseScalar_quoteScalar, bind, Except.bind] at hlater ⊢
    rw [hlater]
    rfl

theorem parseScalar_inlineMap (left : Nat) (hkeys : ∀ pair ∈ pairs, PlainKey pair.1)
    (hnodup : (pairs.map Prod.fst).Nodup) :
    parseScalar (left + 2) (inlineMap pairs) = .ok (.mapping (entriesOf id pairs)) := by
  have hparts : (splitCSV (joinComma (pairs.map inlinePair))).map trimSpaces =
      pairs.map inlinePair := by
    apply splitCSV_joinComma
    · intro part hpart
      obtain ⟨pair, -, rfl⟩ := List.mem_map.mp hpart
      exact closed_inlinePair pair
    · intro part hpart
      obtain ⟨pair, hpair, rfl⟩ := List.mem_map.mp hpart
      have hcontent := (hkeys pair hpair).isKey_quoted.content (Or.inr (value_quoteScalar pair.2))
      exact ⟨hcontent.tight, hcontent.ne⟩
  have hlist : bracketed openBracket closeBracket (inlineMap pairs) = false := by
    simp +decide [bracketed, startsWith, inlineMap, List.isPrefixOf]
  have hmap : bracketed openBrace closeBrace (inlineMap pairs) = true := bracketed_bracket _ _ _
  have hinner : inner (inlineMap pairs) = joinComma (pairs.map inlinePair) := inner_bracket _ _ _
  rw [parseScalar, hlist, hmap, hinner,
    parseInlineEntries_pairs left hparts hkeys hnodup (by simp)]
  rfl

end Inline

section Block

variable {pairs : List (Bytes × Bytes)} {writeKey : Bytes → Bytes}

/-- The lines are read with the keys as they were written. -/
theorem blockLines_text (left indent : Nat) (hkeys : ∀ pair ∈ pairs, Key (writeKey pair.1))
    (hnodup : (pairs.map fun pair => writeKey pair.1).Nodup) :
    EntriesText left indent (entriesOf writeKey pairs) (blockLines writeKey indent pairs) := by
  induction pairs with
  | nil => exact .nil _ _
  | cons pair pairs ih =>
    rw [List.forall_mem_cons] at hkeys
    rw [List.map_cons, List.nodup_cons] at hnodup
    have hvalue :
        ValueText left indent (writeKey pair.1) (.scalar pair.2) (quoteScalar pair.2) [] :=
      valueText_inline hkeys.1 (value_quoteScalar pair.2) (parseScalar_quoteScalar left pair.2)
    refine EntriesText.cons hvalue (ih hkeys.2 hnodup.2) ?_
    rw [List.map_map]
    exact hnodup.1

/-- As an item the lines are a mapping, unless a single one is taken for a scalar. -/
theorem parse_blockDocument {place : Place} (hplace : place.Valid)
    (hkeys : ∀ pair ∈ pairs, Key (writeKey pair.1))
    (hnodup : (pairs.map fun pair => writeKey pair.1).Nodup) (hne : pairs ≠ [])
    (hitem : place = .item → ∀ pair, pairs = [pair] →
      isInlineSeqItem (header (writeKey pair.1) (quoteScalar pair.2)) = false) :
    parse (render (place.blockDocument writeKey pairs)) =
      .ok (place.tree (entriesOf writeKey pairs)) := by
  have hentries : entriesOf writeKey pairs ≠ [] := by simpa [entriesOf] using hne
  cases place with
  | below key indent =>
    have hmapping : MappingText maxParseDepth indent _ _ :=
      (blockLines_text _ indent hkeys hnodup).mappingText hentries
    exact (hmapping.valueText (safeKey_key hplace.1) hplace.2).parse
  | item =>
    have hmapping : MappingText maxParseDepth 2 _ _ :=
      (blockLines_text _ 2 hkeys hnodup).mappingText hentries
    obtain ⟨pair, rest, rfl⟩ := List.exists_cons_of_ne_nil hne
    have hheader : HeaderLine (writeKey pair.1) (quoteScalar pair.2) :=
      ⟨hkeys pair (by simp), Or.inr (value_quoteScalar _)⟩
    have hitems : ItemsText maxParseDepth 0 [.mapping (entriesOf writeKey (pair :: rest))]
        (⟨0, dash ++ header (writeKey pair.1) (quoteScalar pair.2)⟩ ::
          (blockLines writeKey 2 rest ++ [])) := by
      refine ItemsText.cons_mapping hmapping hheader ?_ (.nil _ _)
      intro hempty
      exact hitem rfl pair (by simpa [blockLines] using hempty)
    rw [List.append_nil] at hitems
    exact (hitems.sequenceText (by simp)).parse

end Block

section Forms

variable {pairs : List (Bytes × Bytes)} {place : Place}

/-- The first colon of the map stands behind the first key. -/
theorem blockIndicator_inlineMap (hkeys : ∀ pair ∈ pairs, PlainKey pair.1) (hne : pairs ≠ []) :
    blockIndicator (inlineMap pairs) = none := by
  obtain ⟨pair, pairs, rfl⟩ := List.exists_cons_of_ne_nil hne
  obtain ⟨rest, hrest⟩ : ∃ rest, joinComma ((pair :: pairs).map inlinePair) =
      inlinePair pair ++ rest := by
    cases pairs with
    | nil => exact ⟨[], by simp [joinComma]⟩
    | cons next pairs =>
      refine ⟨[comma, space] ++ joinComma ((next :: pairs).map inlinePair), ?_⟩
      simp only [List.map_cons, joinComma, List.intercalate_cons_cons, List.append_assoc]
  have hmap : inlineMap (pair :: pairs) = (openBrace :: quoteScalar pair.1) ++
      colon :: space :: (quoteScalar pair.2 ++ rest ++ [closeBrace]) := by
    rw [inlineMap, hrest, inlinePair_eq]
    simp
  have hcolon : findColon (inlineMap (pair :: pairs)) =
      some (openBrace :: quoteScalar pair.1).length := by
    have hnot : colon ∉ openBrace :: quoteScalar pair.1 := by
      rw [quoteScalar, (hkeys pair (by simp)).escape]
      simpa +decide using (hkeys pair (by simp)).not_mem (show keyByte colon = false by decide)
    rw [hmap, findColon_append _ (Or.inr rfl), findColon_of_not_mem hnot]
  have hposition : valuePosition (inlineMap (pair :: pairs)) =
      quoteScalar pair.2 ++ rest ++ [closeBrace] := by
    have hstrip : stripDashes (inlineMap (pair :: pairs)) = inlineMap (pair :: pairs) := rfl
    have htight : Tight (quoteScalar pair.2 ++ rest ++ [closeBrace]) :=
      Tight.of_solid (by decide) (by decide)
    simp only [valuePosition, hstrip, hcolon]
    rw [hmap, ← List.drop_drop, List.drop_left' rfl]
    exact htight.trimSpaces_indented 1
  rw [blockIndicator_eq, hposition, if_neg (by simp +decide [quoteScalar])]

theorem isInlineSeqItem_inlineMap (pairs : List (Bytes × Bytes)) :
    isInlineSeqItem (inlineMap pairs) = true := by
  have hdash : startsWith dash (inlineMap pairs) = false := rfl
  have hmap : bracketed openBrace closeBrace (inlineMap pairs) = true := bracketed_bracket _ _ _
  simp [isInlineSeqItem, hdash, hmap]

theorem parse_inlineDocument (hplace : place.Valid) (hkeys : ∀ pair ∈ pairs, PlainKey pair.1)
    (hnodup : (pairs.map Prod.fst).Nodup) (hne : pairs ≠ []) :
    parse (render (place.inlineDocument pairs)) = .ok (place.tree (entriesOf id pairs)) := by
  have hvalue := value_inlineMap hkeys
  cases place with
  | below key indent =>
    have htext : ValueText maxParseDepth 0 key (.mapping (entriesOf id pairs))
        (inlineMap pairs) [] :=
      valueText_inline (safeKey_key hplace.1) hvalue (parseScalar_inlineMap _ hkeys hnodup)
    exact htext.parse
  | item =>
    have hitems : ItemsText maxParseDepth 0 [.mapping (entriesOf id pairs)]
        [⟨0, dash ++ inlineMap pairs⟩] :=
      .cons_inline hvalue.content (blockIndicator_inlineMap hkeys hne)
        (isInlineSeqItem_inlineMap pairs) (parseScalar_inlineMap _ hkeys hnodup) (.nil _ _)
    exact (hitems.sequenceText (by simp)).parse

theorem tree_injective (h : place.tree first = place.tree second) : first = second := by
  cases place with
  | below key indent => simpa [Place.tree] using h
  | item => simpa [Place.tree] using h

/-- A single quoted pair is taken for a scalar when it is an item. -/
theorem parse_quotedItem (hkey : PlainKey pair.1) :
    ∃ text, parse (Form.document .quotedBlock .item [pair]) = .ok (.sequence [.scalar text]) := by
  have hheader : HeaderLine (quoteScalar pair.1) (quoteScalar pair.2) :=
    ⟨hkey.isKey_quoted, Or.inr (value_quoteScalar _)⟩
  have hfirst : (inlinePair pair).head? = some doubleQuote := rfl
  have hlast : (inlinePair pair).getLast? = some doubleQuote := by
    rw [inlinePair_eq, quoteScalar_concat pair.2, ← List.append_assoc, ← List.append_assoc,
      List.getLast?_concat]
  have hdash : startsWith dash (inlinePair pair) = false := rfl
  have hbracket : ∀ first last, first ≠ doubleQuote →
      bracketed first last (inlinePair pair) = false := by
    intro first last hne
    simp [bracketed, startsWith, inlinePair, header, quoteScalar, List.isPrefixOf, hne]
  have hinline : isInlineSeqItem (inlinePair pair) = true := by
    have hlength : 2 ≤ (inlinePair pair).length := by
      simp [inlinePair_eq, quoteScalar]
      omega
    simp +decide [isInlineSeqItem, hdash, hbracket, hfirst, hlast, hlength]
  have hscalar : parseScalar (maxParseDepth + 1) (inlinePair pair) =
      .ok (.scalar (unquote (trimSpaces (inlinePair pair)))) := by
    rw [parseScalar, hbracket _ _ (by decide), hbracket _ _ (by decide)]
    rfl
  have hitems := ItemsText.cons_inline (hheader.isKey.content hheader.isValue)
    (hheader.isKey.blockIndicator_header hheader.isValue) hinline hscalar (.nil _ 0)
  exact ⟨_, (hitems.sequenceText (by simp)).parse⟩

/-- The forms of a mapping to strings give the same tree, below a key and as an
item, except for the block with double-quoted keys. -/
theorem mapping_forms_agree_iff (hplace : place.Valid) (hkeys : ∀ pair ∈ pairs, PlainKey pair.1)
    (hnodup : (pairs.map Prod.fst).Nodup) (hne : pairs ≠ []) (form : Form) :
    parse (form.document place pairs) = .ok (place.tree (entriesOf id pairs)) ↔
      form ≠ .quotedBlock := by
  cases form with
  | inline =>
    simp only [ne_eq, reduceCtorEq, not_false_eq_true, iff_true]
    exact parse_inlineDocument hplace hkeys hnodup hne
  | bareBlock =>
    simp only [ne_eq, reduceCtorEq, not_false_eq_true, iff_true]
    refine parse_blockDocument hplace (fun pair hpair => (hkeys pair hpair).isKey) hnodup hne ?_
    rintro - pair rfl
    have hkey := hkeys pair (by simp)
    exact hkey.isKey.not_inline_value hkey.unquoted (quoteScalar_concat _) (by decide)
  | quotedBlock =>
    simp only [ne_eq, not_true_eq_false, iff_false]
    intro hparse
    by_cases hitem : place = .item ∧ ∃ pair, pairs = [pair]
    · obtain ⟨rfl, pair, rfl⟩ := hitem
      obtain ⟨text, htext⟩ := parse_quotedItem (hkeys pair (by simp))
      rw [htext] at hparse
      simp [Place.tree] at hparse
    · have hinjective : Function.Injective quoteScalar :=
        Function.LeftInverse.injective unquote_quoteScalar
      have hquoted : (pairs.map fun pair => quoteScalar pair.1).Nodup := by
        have hmap := hnodup.map hinjective
        rwa [List.map_map] at hmap
      rw [Form.document, parse_blockDocument hplace
        (fun pair hpair => (hkeys pair hpair).isKey_quoted) hquoted hne
        (fun hplace pair hpair => absurd ⟨hplace, pair, hpair⟩ hitem)] at hparse
      have hentries := tree_injective (Except.ok.inj hparse)
      obtain ⟨pair, rest, rfl⟩ := List.exists_cons_of_ne_nil hne
      have hkey : quoteScalar pair.1 = pair.1 := by
        simpa [entriesOf] using (List.cons.inj hentries).1
      have hquote := (hkeys pair (by simp)).unquoted.noDoubleQuote
      rw [← hkey] at hquote
      simp [quoteScalar] at hquote

/-- `k:` over `"a": "1"`, and `k: {"a": "1"}`. -/
theorem mapping_forms_disagree :
    parse (Form.document .quotedBlock (.below (ascii "k") 2) [(ascii "a", ascii "1")]) ≠
      parse (Form.document .inline (.below (ascii "k") 2) [(ascii "a", ascii "1")]) := by
  decide +kernel

/-- Two pairs below a key, as a block with bare keys. -/
theorem mapping_forms_agree_pairs :
    parse (Form.document .bareBlock (.below (ascii "k") 2)
        [(ascii "a", ascii "x # y"), (ascii "b-2", ascii "1: 2")]) =
      .ok (Place.tree (.below (ascii "k") 2)
        (entriesOf id [(ascii "a", ascii "x # y"), (ascii "b-2", ascii "1: 2")])) := by
  have hplace : Place.Valid (.below (ascii "k") 2) := ⟨by decide +kernel, by decide⟩
  refine (mapping_forms_agree_iff hplace ?_ (by decide) (by decide) _).mpr (by decide)
  intro pair hpair
  have hall : ∀ pair ∈ [(ascii "a", ascii "x # y"), (ascii "b-2", ascii "1: 2")],
      pair.1 ≠ [] ∧ ∀ b ∈ pair.1, keyByte b = true := by decide +kernel
  exact ⟨(hall pair hpair).1, (hall pair hpair).2⟩

end Forms

end Gopherd.Yaml
