import Gopherd.Yaml.Accepted
import Gopherd.Yaml.Header

/-!
The encoder of the parser's own round-trip test. Scalars are double-quoted,
lists of scalars stand inline and everything else is a block, indented by two.
-/

namespace Gopherd.Yaml

open Go

def sentinel : Bytes := ascii "s3nt1nel"

def sentinelProbe : Bytes := colon :: space :: quoteScalar sentinel

def safeKey (key : Bytes) : Bool :=
  if doubleQuote ∈ key ∨ singleQuote ∈ key then false
  else parse (key ++ sentinelProbe) = .ok (.mapping [(key, .scalar sentinel)])

/-- The texts of the items, when all of them are scalars: `allScalar`. -/
def allScalar : List (Node Bytes) → Option (List Bytes)
  | [] => some []
  | .scalar text :: rest => (allScalar rest).map (text :: ·)
  | _ :: _ => none

def pad (indent : Nat) : Bytes :=
  List.replicate indent space

/-- Puts the item marker in place of the indentation of the first line. -/
def splice (dashIndent : Nat) (item : Bytes) : Bytes :=
  match (trimRight [newline] item).splitOn newline with
  | [] => []
  | first :: rest =>
    pad dashIndent ++ dash ++ first.drop (dashIndent + 2) ++ [newline] ++
      rest.flatMap (· ++ [newline])

mutual

def encodeEntries (indent : Nat) : List (Bytes × Node Bytes) → Option Bytes
  | [] => some []
  | (key, val) :: rest =>
    if safeKey key then do
      let value ← encodeValue indent val
      let entries ← encodeEntries indent rest
      pure (pad indent ++ key ++ value ++ entries)
    else none

def encodeValue (indent : Nat) : Node Bytes → Option Bytes
  | .scalar text => some (colon :: space :: (quoteScalar text ++ [newline]))
  | .sequence items =>
    match allScalar items with
    | some texts => some (colon :: space :: (encodeInlineSeq texts ++ [newline]))
    | none => do
        let block ← encodeItems (indent + 2) items
        pure (colon :: newline :: block)
  | .mapping entries =>
    if entries = [] then none
    else do
      let block ← encodeEntries (indent + 2) entries
      pure (colon :: newline :: block)

def encodeItems (dashIndent : Nat) : List (Node Bytes) → Option Bytes
  | [] => some []
  | .mapping entries :: rest =>
    if entries = [] then none
    else do
      let item ← encodeEntries (dashIndent + 2) entries
      let items ← encodeItems dashIndent rest
      pure (splice dashIndent item ++ items)
  | .scalar _ :: _ | .sequence _ :: _ => none

end

/-- `encodeTree`: the text of a tree, when the encoder accepts it. An empty list
counts as one of scalars, so the list of a block has an item. -/
def encodeTree : Node Bytes → Option Bytes
  | .scalar text => if text = [] then some [] else none
  | .mapping entries => if entries = [] then none else encodeEntries 0 entries
  | .sequence items =>
    match allScalar items with
    | some _ => none
    | none => encodeItems 0 items

structure TextOf (raw text : Bytes) : Prop where
  text : text = stripInlineComment (trimSpaces (trimRight [space, tab, carriageReturn] raw))
  noHash : startsWith [hash] (trimSpaces (trimRight [space, tab, carriageReturn] raw)) = false

/-- A line with a literal body ends with the indicator of one. -/
def OpensLiteral (line : Line) : Prop :=
  line.literal ≠ none →
    ∃ indicator, blockIndicator line.text = some indicator ∧ ¬ Unsupported indicator

theorem collectLiteralBlock_eq_ok
    (h : collectLiteralBlock num rest headerIndent indicator = .ok result) :
    ¬ Unsupported indicator := by
  intro hunsupported
  rw [collectLiteralBlock, if_neg hunsupported] at h
  split_ifs at h

theorem splitLines_textOf (h : splitLines skip num raws = .ok lines) (hline : line ∈ lines) :
    ∃ raw ∈ raws, TextOf raw line.text ∧ OpensLiteral line := by
  induction raws generalizing skip num lines with
  | nil =>
    cases h
    simp at hline
  | cons raw rest ih =>
    have hlater : ∀ {skip lines}, splitLines skip (num + 1) rest = .ok lines → line ∈ lines →
        ∃ raw' ∈ raw :: rest, TextOf raw' line.text ∧ OpensLiteral line := by
      intro skip lines hrest hmem
      obtain ⟨raw', hraw', htext⟩ := ih hrest hmem
      exact ⟨raw', List.mem_cons_of_mem _ hraw', htext⟩
    cases skip with
    | succ skip => exact hlater h hline
    | zero =>
      rw [splitLines] at h
      simp only at h
      split_ifs at h with hblank htab hhash
      · exact hlater h hline
      · exact hlater h hline
      · split at h
        · obtain ⟨lines', hrest, heq⟩ := Except.bind_eq_ok.mp h
          cases heq
          rcases List.mem_cons.mp hline with rfl | hmem
          · exact ⟨raw, List.mem_cons_self, ⟨rfl, by simpa using hhash⟩, by simp [OpensLiteral]⟩
          · exact hlater hrest hmem
        · rename_i indicator hindicator
          obtain ⟨⟨literal, taken⟩, hcollect, h⟩ := Except.bind_eq_ok.mp h
          obtain ⟨lines', hrest, heq⟩ := Except.bind_eq_ok.mp h
          cases heq
          rcases List.mem_cons.mp hline with rfl | hmem
          · exact ⟨raw, List.mem_cons_self, ⟨rfl, by simpa using hhash⟩,
              fun _ => ⟨indicator, hindicator, collectLiteralBlock_eq_ok hcollect⟩⟩
          · exact hlater hrest hmem

theorem stripInlineComment_isPrefix (s : Bytes) : stripInlineComment s <+: s := by
  unfold stripInlineComment
  split
  · exact (trimRight_isPrefix _ _).trans <| List.take_prefix _ _
  · exact List.prefix_refl s

theorem TextOf.isInfix {raw text : Bytes} (h : TextOf raw text) : text <:+: raw := by
  rw [h.text]
  exact (stripInlineComment_isPrefix _).isInfix.trans
    ((trimSpaces_isInfix _).trans (trimRight_isPrefix _ _).isInfix)

theorem carriageReturn_not_mem_normalizeNewlines (data : Bytes) :
    carriageReturn ∉ normalizeNewlines data := by
  fun_induction normalizeNewlines data with
  | case1 => simp
  | case2 => simp +decide
  | case3 c hc => simpa using Ne.symm hc
  | case4 rest ih => simpa +decide using ih
  | case5 d rest hd ih => simpa +decide using ih
  | case6 c d rest hc ih => simpa [Ne.symm hc] using ih

theorem mem_rawLines (h : raw ∈ rawLines data) : raw ∈ data.splitOn newline := by
  unfold rawLines at h
  simp only at h
  split_ifs at h
  · exact List.mem_of_mem_dropLast h
  · exact h

/-- The first key of a document stands on its first content line. -/
theorem parse_first_key (h : parse data = .ok (.mapping ((key, val) :: entries))) :
    ∃ lines, contentLines data = .ok lines ∧ ∃ line ∈ lines, ∃ i,
      findColon line.text = some i ∧ trimSpaces (line.text.take i) = key ∧
      startsWith dash line.text = false := by
  obtain ⟨lines, hlines, hblock⟩ := parse_read h
  refine ⟨lines, hlines, ?_⟩
  cases parseBlock_read hblock with
  | mapping hdash hentries =>
    cases hentries with
    | entry _ hcolon _ _ _ => exact ⟨_, List.mem_cons_self, _, hcolon, rfl, hdash⟩

/-- In a text that goes on with a colon and a space none is found behind it. -/
theorem findColon_le (htext : text <+: key ++ colon :: space :: rest)
    (h : findColon text = some i) : i ≤ key.length := by
  induction key generalizing text i with
  | nil =>
    cases text with
    | nil => cases h
    | cons c text =>
      obtain ⟨rfl, htail⟩ := List.cons_prefix_cons.mp htext
      have hspace : text = [] ∨ text.head? = some space := by
        cases text with
        | nil => exact Or.inl rfl
        | cons d text => exact Or.inr (by simp [(List.cons_prefix_cons.mp htail).1])
      rw [findColon, if_pos ⟨rfl, hspace⟩] at h
      cases h
      simp
  | cons b key ih =>
    cases text with
    | nil => cases h
    | cons c text =>
      obtain ⟨rfl, htail⟩ := List.cons_prefix_cons.mp htext
      rw [findColon] at h
      split_ifs at h with hc
      · cases h
        simp
      · obtain ⟨j, hj, rfl⟩ := Option.map_eq_some_iff.mp h
        have hle := ih htail hj
        rw [List.length_cons]
        omega

/-- A comment that begins in the front part is found whatever follows. -/
theorem commentStart_append_some
    (h : commentStart inSingle inDouble escaped previous text = some i) (rest : Bytes) :
    commentStart inSingle inDouble escaped previous (text ++ rest) = some i ∧ i < text.length := by
  induction text generalizing inSingle inDouble escaped previous i with
  | nil => cases h
  | cons c text ih =>
    have hnext : ∀ {inSingle inDouble escaped},
        (commentStart inSingle inDouble escaped (some c) text).map (· + 1) = some i →
        (commentStart inSingle inDouble escaped (some c) (text ++ rest)).map (· + 1) = some i ∧
          i < (c :: text).length := by
      intro inSingle inDouble escaped hmap
      obtain ⟨j, hj, rfl⟩ := Option.map_eq_some_iff.mp hmap
      obtain ⟨hrest, hlt⟩ := ih hj
      rw [hrest, List.length_cons]
      exact ⟨rfl, by omega⟩
    simp only [commentStart] at h
    simp only [List.cons_append, commentStart]
    split_ifs at h ⊢
    · exact hnext h
    · exact hnext h
    · exact hnext h
    · exact hnext h
    · exact hnext h
    · exact hnext h
    · exact ⟨h, by cases h; simp⟩
    · exact hnext h

/-- Only a `#` in front depends on the byte before the text. -/
theorem commentStart_previous (h : text.head? ≠ some hash) (previous previous' : Option UInt8) :
    commentStart false false false previous text =
      commentStart false false false previous' text := by
  cases text with
  | nil => rfl
  | cons c text =>
    have hc : c ≠ hash := by simpa using h
    simp [commentStart, hc]

theorem stripBOM_append_cons {c : UInt8} (hc : c ∉ [0xEF, 0xBB, 0xBF]) (key rest : Bytes) :
    ∃ key', key' <:+ key ∧ stripBOM (key ++ c :: rest) = key' ++ c :: rest ∧
      (key' = key ↔ ¬ [0xEF, 0xBB, 0xBF] <+: key) := by
  by_cases hbom : [0xEF, 0xBB, 0xBF] <+: key
  · have hlength := hbom.length_le
    have hstarts : startsWith [0xEF, 0xBB, 0xBF] (key ++ c :: rest) = true :=
      List.isPrefixOf_iff_prefix.mpr (hbom.trans ⟨_, rfl⟩)
    refine ⟨key.drop 3, List.drop_suffix _ _, ?_, ?_⟩
    · rw [stripBOM, hstarts, if_pos rfl]
      exact List.drop_append_of_le_length hlength
    · refine iff_of_false ?_ (not_not_intro hbom)
      intro heq
      have hdrop := congrArg List.length heq
      rw [List.length_drop] at hdrop
      simp only [List.length_cons, List.length_nil] at hlength
      omega
  · have hstarts : startsWith [0xEF, 0xBB, 0xBF] (key ++ c :: rest) = false := by
      rw [startsWith, ← Bool.not_eq_true, List.isPrefixOf_iff_prefix]
      exact fun hfront => hbom (prefix_of_prefix_append_cons hc hfront)
    refine ⟨key, List.suffix_refl key, ?_, iff_of_true rfl hbom⟩
    rw [stripBOM, hstarts]
    rfl

theorem rawLines_single (hne : s ≠ []) (hnewline : newline ∉ s) (hreturn : carriageReturn ∉ s) :
    rawLines (normalizeNewlines s) = [s] := by
  rw [normalizeNewlines_eq hreturn, rawLines, List.splitOn_eq_singleton hnewline]
  simp [hne]

/-- The raw lines of a key in front of the sentinel. -/
theorem rawLines_probe (hnewline : newline ∉ key) (hreturn : carriageReturn ∉ key) :
    rawLines (normalizeNewlines (key ++ sentinelProbe)) = [key ++ sentinelProbe] := by
  have hprobe : newline ∉ sentinelProbe ∧ carriageReturn ∉ sentinelProbe := by decide
  exact rawLines_single (by simp [sentinelProbe]) (by simp [hnewline, hprobe.1])
    (by simp [hreturn, hprobe.2])

/-- The text of that line, up to white space in front and a comment. -/
theorem TextOf.probe {key text : Bytes} (h : TextOf (key ++ sentinelProbe) text) :
    ∃ key', key' <:+ key ∧ text = stripInlineComment (key' ++ sentinelProbe) ∧
      startsWith [hash] (key' ++ sentinelProbe) = false := by
  have hsplit : sentinelProbe = (colon :: space :: doubleQuote :: sentinel) ++ [doubleQuote] := by
    decide
  have hright : trimRight [space, tab, carriageReturn] (key ++ sentinelProbe) =
      key ++ sentinelProbe := by
    rw [hsplit, ← List.append_assoc]
    exact trimRight_concat _ _ (by decide)
  obtain ⟨key', hsuffix, htrim⟩ : ∃ key', key' <:+ key ∧
      trimSpaces (key ++ sentinelProbe) = key' ++ sentinelProbe :=
    trimSpaces_append_cons (by decide) (by decide) hsplit key
  have htext := h.text
  have hhash := h.noHash
  rw [hright, htrim] at htext hhash
  exact ⟨key', hsuffix, htext, hhash⟩

/-- A comment would have begun in the key, where its colon was not found yet. -/
theorem safeKey_noComment (htext : text = stripInlineComment (key ++ sentinelProbe))
    (hhash : startsWith [hash] (key ++ sentinelProbe) = false)
    (hlength : key.length < text.length) (previous : Option UInt8) :
    commentStart false false false previous key = none := by
  have hhead : key.head? ≠ some hash := by
    intro hhead
    obtain ⟨rest, rfl⟩ := List.head?_eq_some_iff.mp hhead
    simp [startsWith, List.isPrefixOf] at hhash
  rw [commentStart_previous hhead previous none]
  cases hcomment : commentStart false false false none key with
  | none => rfl
  | some j =>
    obtain ⟨hsome, hlt⟩ := commentStart_append_some hcomment sentinelProbe
    have hle : text.length ≤ j := by
      rw [htext, stripInlineComment, hsome]
      exact (trimRight_isPrefix _ _).length_le.trans (by simp)
    omega

/-- What stands behind the key in a text that reaches its colon. -/
theorem probe_tail (hfront : text <+: key ++ sentinelProbe) (htail : key ++ tail = text)
    (hlength : key.length < text.length) :
    ∃ rest, tail = colon :: rest ∧ (rest = [] ∨ rest.head? = some space) := by
  rw [← htail, List.prefix_append_right_inj] at hfront
  cases tail with
  | nil => simp [← htail] at hlength
  | cons c rest =>
    obtain ⟨rfl, hrest⟩ := List.cons_prefix_cons.mp hfront
    refine ⟨rest, rfl, ?_⟩
    cases rest with
    | nil => exact Or.inl rfl
    | cons d rest => exact Or.inr (by simp [(List.cons_prefix_cons.mp hrest).1])

theorem safeKey_unquoted (h : safeKey key = true) : Unquoted key := by
  unfold safeKey at h
  split_ifs at h with hquotes
  rw [not_or] at hquotes
  exact ⟨hquotes.1, hquotes.2⟩

/-- Every key that passes the encoder's test is read back in front of any value. -/
theorem safeKey_key (h : safeKey key = true) : Key key := by
  have hprobe : parse (key ++ sentinelProbe) = .ok (.mapping [(key, .scalar sentinel)]) := by
    unfold safeKey at h
    split_ifs at h
    exact of_decide_eq_true h
  obtain ⟨lines, hlines, line, hline, i, hcolon, hkey, hdash⟩ := parse_first_key hprobe
  obtain ⟨raw, hraw, horigin, -⟩ := splitLines_textOf hlines hline
  -- The key stands on one raw line, so it holds no line break.
  have hinside : key <:+: raw := by
    rw [← hkey]
    have hfront := List.take_prefix i line.text
    exact (trimSpaces_isInfix _).trans (hfront.isInfix.trans horigin.isInfix)
  have hbytes : ∀ c ∈ key, c ∈ normalizeNewlines (stripBOM (key ++ sentinelProbe)) ∧ c ≠ newline :=
    fun c hc => mem_of_mem_splitOn (mem_rawLines hraw) (hinside.subset hc)
  have hnewline : newline ∉ key := fun hmem => (hbytes _ hmem).2 rfl
  have hreturn : carriageReturn ∉ key :=
    fun hmem => carriageReturn_not_mem_normalizeNewlines _ (hbytes _ hmem).1
  obtain ⟨marked, hmarked, hstrip, hbom⟩ : ∃ key', key' <:+ key ∧
      stripBOM (key ++ sentinelProbe) = key' ++ sentinelProbe ∧
      (key' = key ↔ ¬ [0xEF, 0xBB, 0xBF] <+: key) :=
    stripBOM_append_cons (by decide) key _
  rw [hstrip, rawLines_probe (fun hmem => hnewline (hmarked.subset hmem))
    (fun hmem => hreturn (hmarked.subset hmem)), List.mem_singleton] at hraw
  subst hraw
  obtain ⟨front, hfront, htext, hhash⟩ := horigin.probe
  -- The colon that was found stands at most behind what is left of the key, so
  -- nothing was taken from it.
  have htextFront : line.text <+: front ++ sentinelProbe := by
    rw [htext]
    exact stripInlineComment_isPrefix _
  have hfound : i ≤ front.length := findColon_le htextFront hcolon
  have hlength : key.length ≤ i := by
    rw [← hkey]
    exact (length_trimSpaces_le _).trans (by simp)
  have hmarkedLength := hmarked.length_le
  have hfrontLength := hfront.length_le
  obtain rfl : marked = key := hmarked.eq_of_length (by omega)
  obtain rfl : front = marked := hfront.eq_of_length (by omega)
  obtain rfl : i = front.length := by omega
  obtain ⟨tail, htail⟩ : front <+: line.text :=
    List.prefix_of_prefix_length_le ⟨_, rfl⟩ htextFront (findColon_lt hcolon).le
  rw [← htail, List.take_left' rfl] at hkey
  exact {
    noNewline := hnewline
    noCarriageReturn := hreturn
    front := spaceFree_of_trimSpaces hkey
    trimmed := hkey
    passes := fun hrest previous => commentStart_append (safeKey_unquoted h) hrest previous
      (safeKey_noComment htext hhash (findColon_lt hcolon) previous)
    atColon := by
      obtain ⟨rest, rfl, hrest⟩ := probe_tail htextFront htail (findColon_lt hcolon)
      rw [← htail, findColon_append front hrest] at hcolon
      exact hcolon
    noDash := by
      intro hstarts
      rw [← htail, startsWith,
        List.isPrefixOf_iff_prefix.mpr (hstarts.trans <| List.prefix_append _ _)]
        at hdash
      exact absurd hdash (by decide)
    noBom := hbom.mp rfl }

end Gopherd.Yaml
