import Gopherd.Yaml.Outline
import Gopherd.Yaml.Split

/-!
Comments behind a value.
-/

namespace Gopherd.Yaml

open Go

structure Quotes where
  inSingle : Bool
  inDouble : Bool
  escaped : Bool
deriving DecidableEq

namespace Quotes

def outside : Quotes :=
  ⟨false, false, false⟩

def next (q : Quotes) (c : UInt8) : Quotes :=
  if q.escaped then ⟨q.inSingle, q.inDouble, false⟩
  else if c = backslash then ⟨q.inSingle, q.inDouble, q.inDouble⟩
  else if c = singleQuote then
    ⟨if q.inDouble then q.inSingle else !q.inSingle, q.inDouble, false⟩
  else if c = doubleQuote then
    ⟨q.inSingle, if q.inSingle then q.inDouble else !q.inDouble, false⟩
  else ⟨q.inSingle, q.inDouble, false⟩

def after (q : Quotes) (text : Bytes) : Quotes :=
  text.foldl next q

def closed (q : Quotes) : Bool :=
  !q.inSingle && !q.inDouble

/-- Where a comment begins, scanning from the state on. -/
def comment (q : Quotes) (previous : Option UInt8) (text : Bytes) : Option Nat :=
  commentStart q.inSingle q.inDouble q.escaped previous text

def begins (q : Quotes) (previous : Option UInt8) (c : UInt8) : Bool :=
  !q.escaped && (c == hash) && q.closed && (previous == some space)

theorem comment_cons (q : Quotes) (previous : Option UInt8) (c : UInt8) (text : Bytes) :
    q.comment previous (c :: text) =
      if q.begins previous c then some 0 else ((q.next c).comment (some c) text).map (· + 1) := by
  obtain ⟨inSingle, inDouble, escaped⟩ := q
  simp only [comment, commentStart, next, begins, closed]
  by_cases hescaped : escaped = true
  · simp [hescaped]
  by_cases hbackslash : c = backslash
  · simp +decide [hescaped, hbackslash]
  by_cases hsingle : c = singleQuote
  · simp +decide [hescaped, hsingle]
  by_cases hdouble : c = doubleQuote
  · simp +decide [hescaped, hdouble]
  · simp only [hescaped, hbackslash, hsingle, hdouble, if_false, Bool.false_eq_true]
    congr 1
    simp [and_assoc]

variable {q : Quotes} {previous : Option UInt8} {text : Bytes}

/-- Behind a text without a comment the scanner goes on from the state it has reached. -/
theorem comment_append (h : q.comment previous text = none) (rest : Bytes) :
    q.comment previous (text ++ rest) =
      ((q.after text).comment (text.getLast?.or previous) rest).map (· + text.length) := by
  induction text generalizing q previous with
  | nil => simp [after]
  | cons c text ih =>
    rw [comment_cons] at h
    split_ifs at h with hbegins
    rw [Option.map_eq_none_iff] at h
    have hlast : (c :: text).getLast?.or previous = text.getLast?.or (some c) := by
      rw [List.getLast?_cons]
      cases text.getLast? <;> rfl
    rw [List.cons_append, comment_cons, if_neg hbegins, ih h, hlast, Option.map_map]
    rfl

@[simp]
theorem after_append (q : Quotes) (text rest : Bytes) :
    q.after (text ++ rest) = (q.after text).after rest :=
  List.foldl_append

/-- A space leaves the quotes as they are. -/
theorem closed_after_space (q : Quotes) : (q.after [space]).closed = q.closed := by
  have hspace : space ≠ backslash ∧ space ≠ singleQuote ∧ space ≠ doubleQuote := by decide
  simp only [after, List.foldl_cons, List.foldl_nil, next, hspace, if_false, closed]
  split_ifs <;> rfl

theorem escaped_after_space (q : Quotes) : (q.after [space]).escaped = false := by
  have hspace : space ≠ backslash ∧ space ≠ singleQuote ∧ space ≠ doubleQuote := by decide
  simp only [after, List.foldl_cons, List.foldl_nil, next, hspace, if_false]
  split_ifs <;> rfl

theorem comment_space (q : Quotes) (previous : Option UInt8) :
    q.comment previous [space] = none := by
  have hbegins : q.begins previous space = false := by
    have hhash : (space == hash) = false := by decide
    simp [begins, hhash]
  rw [comment_cons, hbegins]
  rfl

/-- A space behind a text without a comment begins none. -/
theorem comment_concat_space (h : q.comment previous text = none) :
    q.comment previous (text ++ [space]) = none := by
  rw [comment_append h, comment_space]
  rfl

/-- A `#` behind a space begins a comment unless a quote is open. -/
theorem comment_hash (h : q.comment previous (text ++ [space]) = none) (rest : Bytes) :
    q.comment previous (text ++ [space] ++ hash :: rest) =
      if (q.after text).closed then some (text.length + 1)
      else ((((q.after (text ++ [space])).next hash).comment (some hash) rest).map (· + 1)).map
        (· + (text.length + 1)) := by
  have hbegins : (q.after (text ++ [space])).begins ((text ++ [space]).getLast?.or previous) hash =
      (q.after text).closed := by
    rw [after_append, List.getLast?_concat, begins, escaped_after_space, closed_after_space]
    simp
  rw [comment_append h, comment_cons, hbegins, List.length_append, List.length_singleton]
  split_ifs <;> simp

end Quotes

/-- The quotes on the line are closed as the comment scanner counts them. -/
def closedQuotes (text : Bytes) : Bool :=
  (Quotes.outside.after text).closed

theorem length_unescapeDouble_le (s : Bytes) : (unescapeDouble s).length ≤ s.length := by
  have hbyte : ∀ d, (unescapeByte d).length ≤ 2 := by
    intro d
    unfold unescapeByte
    split_ifs <;> simp
  induction s using List.twoStepInduction with
  | nil => simp [unescapeDouble]
  | singleton c => simp [unescapeDouble]
  | cons_cons c d rest ih ih' =>
    rw [unescapeDouble]
    have hd := hbyte d
    split_ifs
    · simp only [List.length_append, List.length_cons]
      omega
    · simp only [List.length_cons] at ih' ⊢
      exact Nat.succ_le_succ (ih' d)

theorem length_inner (s : Bytes) : (inner s).length = s.length - 2 := by
  simp [inner, Nat.sub_sub]

variable {s v raw key value : Bytes}

/-- A value that loses nothing was not quoted. -/
theorem unquote_eq_of_length (h : s.length ≤ (unquote s).length) : unquote s = s := by
  unfold unquote at h ⊢
  split_ifs at h ⊢ with hshort hsingle hdouble
  · rfl
  · rw [length_inner] at h
    omega
  · have hle := length_unescapeDouble_le (inner s)
    rw [length_inner] at hle
    omega
  · rfl

theorem length_unquote_le (s : Bytes) : (unquote s).length ≤ s.length := by
  by_contra hlt
  have heq := unquote_eq_of_length (Nat.le_of_lt (Nat.lt_of_not_le hlt))
  rw [heq] at hlt
  omega

theorem count_unescapeDouble (s : Bytes) : (unescapeDouble s).count hash = s.count hash := by
  have hbyte : ∀ d, (unescapeByte d).count hash = [d].count hash := by
    intro d
    unfold unescapeByte
    split_ifs with hn ht hr hb hd hs
    · subst hn; rfl
    · subst ht; rfl
    · subst hr; rfl
    · subst hb; rfl
    · subst hd; rfl
    · subst hs; rfl
    · rw [List.count_cons_of_ne (by decide)]
  induction s using List.twoStepInduction with
  | nil => rfl
  | singleton c => rfl
  | cons_cons c d rest ih ih' =>
    rw [unescapeDouble]
    split_ifs with hc
    · subst hc
      rw [List.count_append, hbyte, ih, ← List.count_append, List.singleton_append]
      exact (List.count_cons_of_ne (by decide)).symm
    · rw [List.count_cons, List.count_cons, ih']

theorem count_inner (hq : q ≠ hash) (hlength : ¬ s.length < 2) (hfirst : s.head? = some q)
    (hlast : s.getLast? = some q) : (inner s).count hash = s.count hash := by
  obtain ⟨rest, rfl⟩ := List.head?_eq_some_iff.mp hfirst
  rcases List.eq_nil_or_concat' rest with rfl | ⟨init, last, rfl⟩
  · simp at hlength
  · rw [← List.cons_append, List.getLast?_concat] at hlast
    cases hlast
    simp [inner, List.count_append, List.count_cons_of_ne hq]

/-- The quotes that are taken off hold no `#`. -/
theorem count_unquote (s : Bytes) : (unquote s).count hash = s.count hash := by
  unfold unquote
  split_ifs with hshort hsingle hdouble
  · rfl
  · exact count_inner (by decide) hshort hsingle.1 hsingle.2
  · rw [count_unescapeDouble, count_inner (by decide) hshort hdouble.1 hdouble.2]
  · rfl

theorem parseScalar_scalar (h : parseScalar left s = .ok (.scalar v)) :
    v = unquote (trimSpaces s) := by
  cases left with
  | zero => cases h
  | succ left =>
    rw [parseScalar] at h
    split_ifs at h
    · cases h
    · obtain ⟨entries, -, hnode⟩ := Except.bind_eq_ok.mp h
      cases hnode
    · cases h
      rfl

structure LineRead (raw key value : Bytes) (i : Nat) : Prop where
  content : IsContent raw
  noDash : startsWith dash (contentLine 1 raw).text = false
  colonAt : findColon (contentLine 1 raw).text = some i
  key : trimSpaces ((contentLine 1 raw).text.take i) = key
  value : value = [] ∧ blockIndicator (contentLine 1 raw).text ≠ none ∨
    value = unquote (trimSpaces (trimSpaces ((contentLine 1 raw).text.drop (i + 1))))

/-- The colon stands between the key and what is left of it in front of a colon. -/
theorem LineRead.colon_between (h : LineRead raw key value i)
    (htext : (contentLine 1 raw).text <+: front ++ colon :: space :: rest) :
    key.length ≤ i ∧ i ≤ front.length := by
  refine ⟨?_, findColon_le htext h.colonAt⟩
  rw [← h.key]
  exact (length_trimSpaces_le _).trans (by simp)

/-- The text of the line reaches behind its colon. -/
theorem LineRead.text_split (h : LineRead raw key value front.length)
    (hvisible : visibleText raw = front ++ colon :: tail) :
    ∃ shown, shown <+: tail ∧ (contentLine 1 raw).text = front ++ colon :: shown := by
  have htext : (contentLine 1 raw).text <+: front ++ colon :: tail := by
    rw [← hvisible]
    exact stripInlineComment_isPrefix _
  have hsplit : front ++ colon :: tail = front ++ [colon] ++ tail := by simp
  have hlength := findColon_lt h.colonAt
  rw [hsplit] at htext
  obtain ⟨shown, hshown⟩ : front ++ [colon] <+: (contentLine 1 raw).text :=
    List.prefix_of_prefix_length_le ⟨_, rfl⟩ htext (by simpa using hlength)
  rw [← hshown, List.prefix_append_right_inj] at htext
  exact ⟨shown, htext, by simp [← hshown]⟩

theorem ValueRead.last (h : ValueRead block left line value [] (.scalar v) lines) :
    line.literal = some v ∨ v = unquote (trimSpaces value) := by
  generalize hnode : Node.scalar v = node at h
  cases h with
  | literal hliteral =>
    cases hnode
    exact Or.inl hliteral
  | inline _ _ hval =>
    subst hnode
    exact Or.inr (parseScalar_scalar hval)
  | absent _ hvalue _ =>
    cases hnode
    subst hvalue
    exact Or.inr rfl
  | child _ _ hrest _ _ => cases hrest

theorem chomp_nil (indicator : Bytes) : chomp indicator [] = [] := by
  simp [chomp, joinLines, trimRight]

/-- The only entry of a document of one line. -/
theorem parse_line (hraw : documentLines data = [raw])
    (h : parse data = .ok (.mapping [(key, .scalar v)])) : ∃ i, LineRead raw key v i := by
  obtain ⟨lines, hlines, hblock⟩ := parse_read h
  rw [contentLines_iff, hraw] at hlines
  cases parseBlock_read hblock with
  | mapping hdash hentries =>
    generalize hentry : [(key, Node.scalar v)] = entries at hentries
    cases hentries with
    | entry hinside hcolon hseen hvalue hmore =>
      cases hentry
      cases hlines with
      | skip hskip hrest => cases hrest
      | plain hcontent hplain hrest =>
        cases hrest
        refine ⟨_, hcontent, hdash, hcolon, rfl, Or.inr ?_⟩
        exact hvalue.last.resolve_left (by simp [contentLine])
      | literal hcontent hindicator hsupported hbody hrest =>
        rw [literalBody] at hbody
        subst hbody
        cases hrest
        refine ⟨_, hcontent, hdash, hcolon, rfl, ?_⟩
        rcases hvalue.last with hliteral | hscalar
        · refine Or.inl ⟨?_, by simp [hindicator]⟩
          rw [← Option.some_inj.mp hliteral]
          exact chomp_nil _
        · exact Or.inr hscalar

/-- A document without line breaks is one line, up to a byte order mark. -/
theorem documentLines_line (hnewline : newline ∉ key ++ colon :: rest)
    (hreturn : carriageReturn ∉ key ++ colon :: rest) :
    ∃ key', key' <:+ key ∧ documentLines (key ++ colon :: rest) = [key' ++ colon :: rest] ∧
      (key' = key ↔ ¬ [0xEF, 0xBB, 0xBF] <+: key) := by
  obtain ⟨key', hsuffix, hstrip, hbom⟩ := @stripBOM_append_cons colon (by decide) key rest
  refine ⟨key', hsuffix, ?_, hbom⟩
  have hsub : key' ++ colon :: rest ⊆ key ++ colon :: rest := by
    intro b hb
    rw [List.mem_append] at hb ⊢
    exact hb.imp_left fun hmem => hsuffix.subset hmem
  rw [documentLines, hstrip]
  exact rawLines_single (by simp) (fun hmem => hnewline (hsub hmem))
    (fun hmem => hreturn (hsub hmem))

theorem visibleText_around {c : UInt8} (hc : solid c = true)
    (hcut : c ∉ [space, tab, carriageReturn]) (s rest : Bytes) :
    ∃ s' rest', s' <:+ s ∧ rest' <+: rest ∧ visibleText (s ++ c :: rest) = s' ++ c :: rest' := by
  obtain ⟨middle, hmiddle, hright⟩ := trimRight_around hcut s rest
  obtain ⟨s', rest', hs', hrest', htrim⟩ := trimSpaces_around hc s middle
  refine ⟨s', rest', hs', hrest'.trans hmiddle, ?_⟩
  rw [visibleText, hright, htrim]

theorem comment_eq_none_of_length (h : s.length ≤ (stripInlineComment s).length) :
    Quotes.outside.comment none s = none := by
  cases hcomment : commentStart false false false none s with
  | none => exact hcomment
  | some j =>
    have hlt := (commentStart_append_some hcomment []).2
    have hle : (stripInlineComment s).length ≤ j := by
      rw [stripInlineComment, hcomment]
      exact (trimRight_isPrefix _ _).length_le.trans (by simp)
    omega

/-- A value that is read as it stands is all there is behind the colon. -/
theorem unquote_shown (hshown : shown <+: space :: v) (hne : v ≠ [])
    (h : v = unquote (trimSpaces (trimSpaces shown))) : shown = space :: v ∧ trimSpaces v = v := by
  cases shown with
  | nil => exact absurd h hne
  | cons b shown =>
    obtain ⟨rfl, hfront⟩ := List.cons_prefix_cons.mp hshown
    rw [trimSpaces_space_cons] at h
    have hlength : v.length ≤ (trimSpaces shown).length := by
      conv_lhs => rw [h]
      exact (length_unquote_le _).trans (length_trimSpaces_le _)
    have hle := length_trimSpaces_le shown
    have hle' := hfront.length_le
    obtain rfl : shown = v := hfront.eq_of_length (by omega)
    exact ⟨rfl, (trimSpaces_isInfix shown).eq_of_length (by omega)⟩

def plainLine (key v : Bytes) : Bytes :=
  key ++ colon :: space :: v

structure PlainRead (key v : Bytes) : Prop where
  trimmed : trimSpaces key = key
  noBom : ¬ [0xEF, 0xBB, 0xBF] <+: key
  content : IsContent (plainLine key v)
  value : trimSpaces v = v
  visible : visibleText (plainLine key v) = header key v
  noComment : Quotes.outside.comment none (header key v) = none

theorem visibleText_empty (h : trimSpaces key = key) :
    visibleText (plainLine key []) = header key [] := by
  have hright : trimRight [space, tab, carriageReturn] (plainLine key []) = key ++ [colon] := by
    have hsplit : plainLine key [] = (key ++ [colon]) ++ [space] := by simp [plainLine]
    rw [hsplit, trimRight, List.rdropWhile_concat_pos _ _ _ (by decide)]
    exact trimRight_concat _ _ (by decide)
  have hfree : SpaceFree spaceRunes (key ++ [colon]) :=
    (spaceFree_of_trimSpaces h).append_cons (by decide)
  obtain ⟨rest, hrest, htrim⟩ := hfree.trimSpaces_around (by decide)
  rw [List.prefix_nil] at hrest
  subst hrest
  rw [visibleText, hright, htrim]
  rfl

theorem PlainRead.of_parse (hnewline : newline ∉ plainLine key v)
    (hreturn : carriageReturn ∉ plainLine key v)
    (hread : parse (plainLine key v) = .ok (.mapping [(key, .scalar v)])) : PlainRead key v := by
  obtain ⟨marked, hmarked, hlines, hbom⟩ := documentLines_line hnewline hreturn
  obtain ⟨i, hline⟩ := parse_line hlines hread
  obtain ⟨front, tail, hfront, htail, hvisible⟩ :=
    @visibleText_around colon (by decide) (by decide) marked (space :: v)
  have hshown : visibleText (marked ++ colon :: space :: v) <+: front ++ colon :: space :: v := by
    rw [hvisible, List.prefix_append_right_inj, List.cons_prefix_cons]
    exact ⟨rfl, htail⟩
  -- The colon that was found stands at most behind what is left of the key, so nothing
  -- was taken from it.
  obtain ⟨hlength, hfound⟩ := hline.colon_between ((stripInlineComment_isPrefix _).trans hshown)
  have hmarkedLength := hmarked.length_le
  have hfrontLength := hfront.length_le
  obtain rfl : marked = key := hmarked.eq_of_length (by omega)
  obtain rfl : front = marked := hfront.eq_of_length (by omega)
  obtain rfl : i = front.length := by omega
  obtain ⟨shown, hshort, htext⟩ := hline.text_split hvisible
  have hkey := hline.key
  have hvalue := hline.value
  rw [htext, List.take_left' rfl] at hkey
  rw [htext, ← List.drop_drop, List.drop_left' rfl, List.drop_one, List.tail_cons] at hvalue
  have hvalue' : trimSpaces v = v ∧ visibleText (plainLine front v) = header front v ∧
      (header front v).length ≤ (front ++ colon :: shown).length := by
    rcases eq_or_ne v [] with rfl | hne
    · exact ⟨rfl, visibleText_empty hkey, by simp [header]⟩
    · obtain ⟨rfl, htrim⟩ := unquote_shown (hshort.trans htail) hne
        (hvalue.resolve_left fun h => hne h.1)
      obtain rfl : tail = space :: v := htail.eq_of_length_le hshort.length_le
      refine ⟨htrim, ?_, by simp [header, hne]⟩
      rw [plainLine, hvisible, header, if_neg hne]
  obtain ⟨htrim, hheader, hle⟩ := hvalue'
  refine ⟨hkey, hbom.mp rfl, hline.content, htrim, hheader, comment_eq_none_of_length ?_⟩
  rw [← htext] at hle
  rwa [← hheader] at hle ⊢

def commentedLine (key v comment : Bytes) : Bytes :=
  plainLine key v ++ space :: hash :: space :: comment

theorem commentedLine_eq (key v comment : Bytes) : commentedLine key v comment =
    key ++ colon :: (space :: v ++ space :: hash :: space :: comment) := by
  simp [commentedLine, plainLine]

theorem startsWith_hash (s : Bytes) : startsWith [hash] s = (s.head? == some hash) := by
  cases s with
  | nil => rfl
  | cons b rest => simp [startsWith, List.isPrefixOf, eq_comm]

namespace PlainRead

variable {key v : Bytes}

theorem spaceFree (h : PlainRead key v) (rest : Bytes) :
    SpaceFree spaceRunes (key ++ colon :: rest) :=
  (spaceFree_of_trimSpaces h.trimmed).append_cons (by decide)

theorem noComment_plainLine (h : PlainRead key v) :
    Quotes.outside.comment none (plainLine key v) = none := by
  rcases eq_or_ne v [] with rfl | hne
  · have hsplit : plainLine key [] = header key [] ++ [space] := by simp [plainLine, header]
    rw [hsplit]
    exact Quotes.comment_concat_space h.noComment
  · have hsplit : plainLine key v = header key v := by simp [plainLine, header, hne]
    rw [hsplit]
    exact h.noComment

/-- Without the blanks at its end the line is its header. -/
theorem trimRight_plainLine (h : PlainRead key v) :
    trimRight [space] (plainLine key v ++ [space]) = header key v := by
  rw [trimRight, List.rdropWhile_concat_pos _ _ _ (by decide), ← trimRight]
  rcases eq_or_ne v [] with rfl | hne
  · have hsplit : plainLine key [] = (key ++ [colon]) ++ [space] := by simp [plainLine]
    rw [hsplit, trimRight, List.rdropWhile_concat_pos _ _ _ (by decide)]
    exact trimRight_concat _ _ (by decide)
  · have hsplit : plainLine key v = header key v := by simp [plainLine, header, hne]
    have hvisible := h.visible
    rw [hsplit] at hvisible ⊢
    rcases List.eq_nil_or_concat' (header key v) with hnil | ⟨init, b, hlast⟩
    · rw [hnil]
      rfl
    · rw [hlast] at hvisible ⊢
      refine trimRight_concat _ _ ?_
      -- A line that ends with a blank is seen without it.
      intro hb
      obtain rfl : b = space := by simpa using hb
      have hlength := congrArg List.length hvisible
      rw [visibleText, trimRight, List.rdropWhile_concat_pos _ _ _ (by decide),
        List.length_append, List.length_singleton] at hlength
      have hle := (length_trimSpaces_le (trimRight [space, tab, carriageReturn] init)).trans
        (trimRight_isPrefix _ _).length_le
      rw [trimRight] at hle
      omega

/-- What the parser sees of the line with a comment, before the comment is cut off. -/
theorem visibleText_commentedLine (h : PlainRead key v) (comment : Bytes) :
    ∃ rest, visibleText (commentedLine key v comment) =
      plainLine key v ++ [space] ++ hash :: rest := by
  have hsplit : commentedLine key v comment =
      (plainLine key v ++ [space]) ++ hash :: space :: comment := by simp [commentedLine]
  obtain ⟨middle, -, hright⟩ := @trimRight_around [space, tab, carriageReturn] hash (by decide)
    (plainLine key v ++ [space]) (space :: comment)
  have hfree : SpaceFree spaceRunes (plainLine key v ++ [space] ++ hash :: middle) := by
    have hsplit : plainLine key v ++ [space] ++ hash :: middle =
        key ++ colon :: (space :: v ++ [space] ++ hash :: middle) := by simp [plainLine]
    rw [hsplit]
    exact h.spaceFree _
  obtain ⟨rest, -, htrim⟩ := hfree.trimSpaces_around (by decide)
  exact ⟨rest, by rw [hsplit, visibleText, hright, htrim]⟩

theorem content_commentedLine (h : PlainRead key v) (comment : Bytes) :
    IsContent (commentedLine key v comment) := by
  obtain ⟨rest, hvisible⟩ := h.visibleText_commentedLine comment
  have hhead : ∀ tail tail' : Bytes,
      (key ++ colon :: tail).head? = (key ++ colon :: tail').head? := by
    intro tail tail'
    cases key <;> rfl
  refine ⟨?_, ?_, ?_⟩
  · have hne : visibleText (commentedLine key v comment) ≠ [] := by simp [hvisible]
    simpa [isBlank] using mt trimSpaces_trimRight_eq_nil.mpr hne
  · have htab := h.content.noTab
    rw [plainLine, hhead (space :: v) (space :: v ++ space :: hash :: space :: comment)] at htab
    simpa [commentedLine, plainLine] using htab
  · have hcomment := h.content.noComment
    rw [isComment, h.visible, startsWith_hash, header,
      hhead _ (space :: v ++ [space] ++ hash :: rest)] at hcomment
    rw [isComment, hvisible, startsWith_hash]
    simpa [plainLine] using hcomment

theorem documentLines_eq (h : PlainRead key v) (hnewline : newline ∉ key ++ colon :: rest)
    (hreturn : carriageReturn ∉ key ++ colon :: rest) :
    documentLines (key ++ colon :: rest) = [key ++ colon :: rest] := by
  obtain ⟨key', -, hlines, hbom⟩ := documentLines_line hnewline hreturn
  rw [hlines, hbom.mpr h.noBom]

/-- Where the quotes are closed, the comment is cut off. -/
theorem text_of_closed (h : PlainRead key v) (hclosed : closedQuotes (plainLine key v) = true)
    (comment : Bytes) :
    stripInlineComment (visibleText (commentedLine key v comment)) = header key v := by
  obtain ⟨rest, hvisible⟩ := h.visibleText_commentedLine comment
  have hcomment := Quotes.comment_hash (Quotes.comment_concat_space h.noComment_plainLine) rest
  rw [closedQuotes] at hclosed
  rw [if_pos hclosed] at hcomment
  change commentStart false false false none _ = _ at hcomment
  rw [hvisible, stripInlineComment, hcomment]
  simp only
  rw [List.take_left' (by simp)]
  exact h.trimRight_plainLine

/-- Where a quote is open, the line keeps the `#`. -/
theorem text_of_open (h : PlainRead key v) (hopen : closedQuotes (plainLine key v) = false)
    (comment : Bytes) :
    ∃ rest, stripInlineComment (visibleText (commentedLine key v comment)) =
      plainLine key v ++ [space] ++ hash :: rest := by
  obtain ⟨rest, hvisible⟩ := h.visibleText_commentedLine comment
  have hcomment := Quotes.comment_hash (Quotes.comment_concat_space h.noComment_plainLine) rest
  rw [if_neg (by simpa [closedQuotes] using hopen)] at hcomment
  change commentStart false false false none _ = _ at hcomment
  rw [hvisible, stripInlineComment, hcomment]
  generalize ((Quotes.outside.after (plainLine key v ++ [space])).next hash).comment (some hash)
    rest = found
  cases found with
  | none => exact ⟨rest, rfl⟩
  | some j =>
    have htake : (plainLine key v ++ [space] ++ hash :: rest).take
        (j + 1 + ((plainLine key v).length + 1)) =
        plainLine key v ++ [space] ++ hash :: rest.take j := by
      have hlength : (plainLine key v ++ [space]).length = (plainLine key v).length + 1 := by simp
      rw [← hlength, Nat.add_comm, List.take_length_add_append, List.take_succ_cons]
    obtain ⟨rest', -, hright⟩ := @trimRight_around [space] hash (by decide)
      (plainLine key v ++ [space]) (rest.take j)
    refine ⟨rest', ?_⟩
    simp only [Option.map_some]
    rw [htake, hright]

/-- Where a quote is open, the comment becomes part of the value. -/
theorem not_lineRead_of_open (h : PlainRead key v)
    (hopen : closedQuotes (plainLine key v) = false) (comment : Bytes) :
    ¬ LineRead (commentedLine key v comment) key v i := by
  intro hline
  obtain ⟨rest, htext⟩ := h.text_of_open hopen comment
  change (contentLine 1 (commentedLine key v comment)).text = _ at htext
  have hsplit : plainLine key v ++ [space] ++ hash :: rest =
      key ++ colon :: space :: (v ++ space :: hash :: rest) := by simp [plainLine]
  rw [hsplit] at htext
  have hfront : (contentLine 1 (commentedLine key v comment)).text <+:
      key ++ colon :: space :: (v ++ space :: hash :: rest) := by
    rw [htext]
  obtain ⟨hle, hle'⟩ := hline.colon_between hfront
  obtain rfl : i = key.length := by omega
  have hdrop : (contentLine 1 (commentedLine key v comment)).text.drop (key.length + 1) =
      space :: (v ++ space :: hash :: rest) := by
    rw [htext, ← List.drop_drop, List.drop_left' rfl]
    rfl
  rcases hline.value with ⟨rfl, hindicator⟩ | hvalue
  · apply hindicator
    have hposition : valuePosition (contentLine 1 (commentedLine key [] comment)).text =
        trimSpaces (hash :: rest) := by
      rw [valuePosition, stripDashes_eq hline.noDash, hline.colonAt]
      simp only
      rw [hdrop, trimSpaces_space_cons, List.nil_append, trimSpaces_space_cons]
    have hfree : SpaceFree spaceRunes ([] ++ hash :: rest) :=
      spaceFree_cons spaceRunes_not_solid (by decide)
    obtain ⟨rest', -, htrim⟩ := hfree.trimSpaces_around (by decide)
    rw [blockIndicator_eq, hposition]
    rw [List.nil_append] at htrim
    rw [htrim]
    rfl
  · have hcount := congrArg (List.count hash) hvalue
    rw [hdrop, count_unquote, count_trimSpaces (by decide), count_trimSpaces (by decide),
      List.count_cons_of_ne (by decide), List.count_append, List.count_cons_of_ne (by decide),
      List.count_cons_self] at hcount
    omega

/-- Where the quotes are closed, the two lines have the same content. -/
theorem contentLine_commentedLine (h : PlainRead key v)
    (hclosed : closedQuotes (plainLine key v) = true) (comment : Bytes) :
    contentLine 1 (commentedLine key v comment) = contentLine 1 (plainLine key v) := by
  have hindent : ∀ rest, IsContent (key ++ colon :: rest) →
      leadingSpaces (trimRight [space, tab, carriageReturn] (key ++ colon :: rest)) = 0 := by
    intro rest hcontent
    rw [leadingSpaces_trimRight (by simpa [isBlank] using hcontent.visible)]
    exact (h.spaceFree rest).leadingSpaces
  have hplain : stripInlineComment (header key v) = header key v := by
    have hnone : commentStart false false false none (header key v) = none := h.noComment
    rw [stripInlineComment, hnone]
  have hcommented := hindent _ (commentedLine_eq key v comment ▸ h.content_commentedLine comment)
  rw [← commentedLine_eq] at hcommented
  rw [contentLine, contentLine, h.text_of_closed hclosed, hcommented, h.visible, hplain,
    plainLine, hindent _ h.content]

end PlainRead

/-- A comment behind a value that is read as it stands changes nothing exactly where
the quotes on the line are closed in front of it. -/
theorem comment_keeps_value_iff {key v comment : Bytes}
    (hnewline : newline ∉ commentedLine key v comment)
    (hreturn : carriageReturn ∉ commentedLine key v comment)
    (hread : parse (plainLine key v) = .ok (.mapping [(key, .scalar v)])) :
    parse (commentedLine key v comment) = parse (plainLine key v) ↔
      closedQuotes (plainLine key v) = true := by
  have hsub : plainLine key v ⊆ commentedLine key v comment := List.subset_append_left _ _
  have hplain : PlainRead key v := .of_parse (fun hmem => hnewline (hsub hmem))
    (fun hmem => hreturn (hsub hmem)) hread
  have hlines : documentLines (commentedLine key v comment) = [commentedLine key v comment] := by
    rw [commentedLine_eq] at hnewline hreturn ⊢
    exact hplain.documentLines_eq hnewline hreturn
  have hlines' : documentLines (plainLine key v) = [plainLine key v] :=
    hplain.documentLines_eq (fun hmem => hnewline (hsub hmem)) (fun hmem => hreturn (hsub hmem))
  constructor
  · intro hsame
    rw [← Bool.not_eq_false]
    intro hopen
    obtain ⟨i, hline⟩ := parse_line hlines (hsame.trans hread)
    exact hplain.not_lineRead_of_open hopen comment hline
  · intro hclosed
    have hsame : contentLines (commentedLine key v comment) = contentLines (plainLine key v) := by
      change splitLines 0 1 (documentLines _) = splitLines 0 1 (documentLines _)
      rw [hlines, hlines', splitLines_content (hplain.content_commentedLine comment),
        splitLines_content hplain.content, splitContent, splitContent,
        hplain.contentLine_commentedLine hclosed]
    rw [parse, parse, hsame]

/-- The comment behind a name is cut off. -/
theorem comment_keeps_name :
    parse (ascii "name: app # it's the app") = parse (ascii "name: app") :=
  (@comment_keeps_value_iff (ascii "name") (ascii "app") (ascii "it's the app") (by decide)
    (by decide) (by decide +kernel)).mpr (by decide +kernel)

/-- An apostrophe in a plain value makes the comment behind it part of the value. -/
theorem comment_read_as_value :
    parse (ascii "banner: don't panic") =
        .ok (.mapping [(ascii "banner", .scalar (ascii "don't panic"))]) ∧
      parse (ascii "banner: don't panic # greeting") =
        .ok (.mapping [(ascii "banner", .scalar (ascii "don't panic # greeting"))]) := by
  decide +kernel

end Gopherd.Yaml
