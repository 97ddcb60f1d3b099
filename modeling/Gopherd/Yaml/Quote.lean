import Gopherd.Yaml.Parser

namespace Gopherd.Yaml

open Go

def escapeByte (b : UInt8) : Bytes :=
  if b = backslash then [backslash, backslash]
  else if b = doubleQuote then [backslash, doubleQuote]
  else if b = newline then [backslash, 110]
  else if b = tab then [backslash, 116]
  else if b = carriageReturn then [backslash, 114]
  else [b]

/-- The text with its escapes, between double quotes. -/
def quoteScalar (s : Bytes) : Bytes :=
  doubleQuote :: (s.flatMap escapeByte ++ [doubleQuote])

def joinComma (parts : List Bytes) : Bytes :=
  [comma, space].intercalate parts

def encodeInlineSeq (items : List Bytes) : Bytes :=
  openBracket :: (joinComma (items.map quoteScalar) ++ [closeBracket])

theorem quoteScalar_concat (s : Bytes) :
    quoteScalar s = (doubleQuote :: s.flatMap escapeByte) ++ [doubleQuote] :=
  rfl

theorem encodeInlineSeq_concat (items : List Bytes) :
    encodeInlineSeq items = (openBracket :: joinComma (items.map quoteScalar)) ++ [closeBracket] :=
  rfl

structure Plain (b : UInt8) : Prop where
  backslash : b ≠ backslash
  doubleQuote : b ≠ doubleQuote
  newline : b ≠ newline
  carriageReturn : b ≠ carriageReturn

/-- A byte is written as itself or as an escape that stands for it. -/
theorem escapeByte_cases (b : UInt8) :
    (escapeByte b = [b] ∧ Plain b) ∨
      ∃ c, escapeByte b = [backslash, c] ∧ unescapeByte c = [b] ∧ c ≠ newline ∧
        c ≠ carriageReturn := by
  unfold escapeByte
  split_ifs with h1 h2 h3 h4 h5
  · exact Or.inr ⟨_, rfl, by rw [h1]; decide, by decide, by decide⟩
  · exact Or.inr ⟨_, rfl, by rw [h2]; decide, by decide, by decide⟩
  · exact Or.inr ⟨_, rfl, by rw [h3]; decide, by decide, by decide⟩
  · exact Or.inr ⟨_, rfl, by rw [h4]; decide, by decide, by decide⟩
  · exact Or.inr ⟨_, rfl, by rw [h5]; decide, by decide, by decide⟩
  · exact Or.inl ⟨rfl, h1, h2, h3, h5⟩

theorem newline_not_mem_escape (s : Bytes) : newline ∉ s.flatMap escapeByte := by
  intro h
  obtain ⟨b, -, hb⟩ := List.mem_flatMap.mp h
  rcases escapeByte_cases b with ⟨heq, hplain⟩ | ⟨c, heq, -, hc, -⟩
  · rw [heq, List.mem_singleton] at hb
    exact hplain.newline hb.symm
  · rw [heq] at hb
    simp +decide [Ne.symm hc] at hb

theorem carriageReturn_not_mem_escape (s : Bytes) : carriageReturn ∉ s.flatMap escapeByte := by
  intro h
  obtain ⟨b, -, hb⟩ := List.mem_flatMap.mp h
  rcases escapeByte_cases b with ⟨heq, hplain⟩ | ⟨c, heq, -, -, hc⟩
  · rw [heq, List.mem_singleton] at hb
    exact hplain.carriageReturn hb.symm
  · rw [heq] at hb
    simp +decide [Ne.symm hc] at hb

theorem unescapeDouble_cons (hb : b ≠ backslash) (rest : Bytes) :
    unescapeDouble (b :: rest) = b :: unescapeDouble rest := by
  cases rest with
  | nil => rfl
  | cons c rest => rw [unescapeDouble, if_neg hb]

theorem unescapeDouble_escape (s : Bytes) : unescapeDouble (s.flatMap escapeByte) = s := by
  induction s with
  | nil => rfl
  | cons b s ih =>
    rw [List.flatMap_cons]
    rcases escapeByte_cases b with ⟨heq, hplain⟩ | ⟨c, heq, hc, -⟩
    · rw [heq, List.singleton_append, unescapeDouble_cons hplain.backslash, ih]
    · rw [heq, List.cons_append, List.singleton_append, unescapeDouble, if_pos rfl, hc, ih,
        List.singleton_append]

theorem unquote_quoteScalar (s : Bytes) : unquote (quoteScalar s) = s := by
  have hlast : (quoteScalar s).getLast? = some doubleQuote := by
    rw [quoteScalar, ← List.cons_append, List.getLast?_append]
    rfl
  have hinner : inner (quoteScalar s) = s.flatMap escapeByte := by
    simp [inner, quoteScalar]
  have hlength : ¬ (quoteScalar s).length < 2 := by
    simp [quoteScalar]
  have hhead : (quoteScalar s).head? = some doubleQuote := rfl
  rw [unquote, if_neg hlength, if_neg (by simp +decide [hhead]), if_pos ⟨hhead, hlast⟩, hinner,
    unescapeDouble_escape]

theorem quoteScalar_tight (s : Bytes) : Tight (quoteScalar s) :=
  Tight.of_solid (by decide) (by decide)

/-- Between double quotes no comment begins. -/
theorem commentStart_escape
    (hrest : ∀ previous, commentStart false true false previous rest = none) (s : Bytes)
    (previous : Option UInt8) :
    commentStart false true false previous (s.flatMap escapeByte ++ rest) = none := by
  induction s generalizing previous with
  | nil => exact hrest previous
  | cons b s ih =>
    rw [List.flatMap_cons, List.append_assoc]
    rcases escapeByte_cases b with ⟨heq, hplain⟩ | ⟨c, heq, -⟩
    · rw [heq, List.singleton_append]
      simp [commentStart, hplain.backslash, hplain.doubleQuote, ih]
    · rw [heq, List.cons_append, List.singleton_append]
      simp [commentStart, ih]

theorem commentStart_quoteScalar
    (hrest : commentStart false false false (some doubleQuote) rest = none) (s : Bytes)
    (previous : Option UInt8) :
    commentStart false false false previous (quoteScalar s ++ rest) = none := by
  have hclose : ∀ previous,
      commentStart false true false previous ([doubleQuote] ++ rest) = none := by
    intro previous
    simp +decide [commentStart, hrest]
  have hbody := commentStart_escape hclose s (some doubleQuote)
  rw [quoteScalar, List.cons_append, List.append_assoc]
  simp +decide only [commentStart, hbody, if_false, if_true, Bool.not_false, Option.map_none]

/-- A byte that is neither a quote nor the start of a comment. -/
theorem commentStart_cons (hsingle : c ≠ singleQuote) (hdouble : c ≠ doubleQuote)
    (hhash : c ≠ hash) (hrest : commentStart false false false (some c) rest = none)
    (previous : Option UInt8) : commentStart false false false previous (c :: rest) = none := by
  simp [commentStart, hsingle, hdouble, hhash, hrest]

/-- A text that leaves `splitCSV` in the state it found it in. -/
def Closed (part : Bytes) : Prop :=
  ∀ current rest, splitCSVFrom none false 0 current (part ++ rest) =
    splitCSVFrom none false 0 (current ++ part) rest

theorem splitCSVFrom_escape (s current rest : Bytes) :
    splitCSVFrom (some doubleQuote) false 0 current (s.flatMap escapeByte ++ rest) =
      splitCSVFrom (some doubleQuote) false 0 (current ++ s.flatMap escapeByte) rest := by
  induction s generalizing current with
  | nil => simp
  | cons b s ih =>
    rw [List.flatMap_cons, List.append_assoc, ← List.append_assoc current]
    rcases escapeByte_cases b with ⟨heq, hplain⟩ | ⟨c, heq, -⟩
    · rw [heq, List.singleton_append]
      simp [splitCSVFrom, hplain.backslash, hplain.doubleQuote, ih]
    · rw [heq, List.cons_append, List.singleton_append]
      simp [splitCSVFrom, ih]

theorem closed_quoteScalar (s : Bytes) : Closed (quoteScalar s) := by
  intro current rest
  rw [quoteScalar, List.cons_append, List.append_assoc]
  simp +decide [splitCSVFrom, splitCSVFrom_escape]

theorem Closed.append (hfirst : Closed first) (hsecond : Closed second) :
    Closed (first ++ second) := by
  intro current rest
  rw [List.append_assoc, hfirst, hsecond, List.append_assoc]

/-- The parts come back, each but the first with the space in front of it. -/
theorem splitCSVFrom_joinComma (hclosed : ∀ part ∈ parts, Closed part) (hfirst : Closed first)
    (hne : lead ++ first ≠ []) :
    splitCSVFrom none false 0 lead (joinComma (first :: parts)) =
      (lead ++ first) :: parts.map (space :: ·) := by
  induction parts generalizing first lead with
  | nil =>
    have hjoin : joinComma [first] = first ++ [] := by simp [joinComma]
    rw [hjoin, hfirst]
    simp only [splitCSVFrom, hne, if_false, List.map_nil]
  | cons second parts ih =>
    have hjoin : joinComma (first :: second :: parts) =
        first ++ comma :: space :: joinComma (second :: parts) := by
      simp [joinComma, List.intercalate]
    have hsecond : splitCSVFrom none false 0 [space] (joinComma (second :: parts)) =
        ([space] ++ second) :: parts.map (space :: ·) :=
      ih (fun part hpart => hclosed part (by simp [hpart])) (hclosed second (by simp))
        (by simp)
    rw [hjoin, hfirst]
    simp +decide [splitCSVFrom, hsecond]

/-- What `splitCSV` gives of the parts is trimmed by its callers. -/
theorem splitCSV_joinComma (hclosed : ∀ part ∈ parts, Closed part)
    (htight : ∀ part ∈ parts, Tight part ∧ part ≠ []) :
    (splitCSV (joinComma parts)).map trimSpaces = parts := by
  cases parts with
  | nil => rfl
  | cons first parts =>
    have hfirst := htight first (by simp)
    have hrest : (parts.map (space :: ·)).map trimSpaces = parts := by
      rw [List.map_map]
      refine (List.map_congr_left ?_).trans (List.map_id parts)
      intro part hpart
      exact (htight part (by simp [hpart])).1.trimSpaces_indented 1
    rw [splitCSV, splitCSVFrom_joinComma (fun part hpart => hclosed part (by simp [hpart]))
      (hclosed first (by simp)) (by simpa using hfirst.2), List.nil_append, List.map_cons,
      hfirst.1.trimSpaces, hrest]

theorem bracketed_quoteScalar (first last : UInt8) (h : first ≠ doubleQuote) (s : Bytes) :
    bracketed first last (quoteScalar s) = false := by
  simp [bracketed, startsWith, quoteScalar, List.isPrefixOf, h]

theorem parseScalar_quoteScalar (left : Nat) (s : Bytes) :
    parseScalar (left + 1) (quoteScalar s) = .ok (.scalar s) := by
  rw [parseScalar, bracketed_quoteScalar _ _ (by decide), bracketed_quoteScalar _ _ (by decide),
    (quoteScalar_tight s).trimSpaces, unquote_quoteScalar]
  rfl

theorem inner_bracket (first last : UInt8) (s : Bytes) : inner (first :: (s ++ [last])) = s := by
  simp [inner]

theorem bracketed_bracket (first last : UInt8) (s : Bytes) :
    bracketed first last (first :: (s ++ [last])) = true := by
  have hlast : [last] <:+ first :: (s ++ [last]) := ⟨first :: s, rfl⟩
  simp [bracketed, startsWith, endsWith, List.isPrefixOf, hlast]

theorem splitCSV_encodeInlineSeq (items : List Bytes) :
    ((splitCSV (inner (encodeInlineSeq items))).map fun item => unquote (trimSpaces item)) =
      items := by
  have hparts : (splitCSV (joinComma (items.map quoteScalar))).map trimSpaces =
      items.map quoteScalar := by
    apply splitCSV_joinComma
    · intro part hpart
      obtain ⟨item, -, rfl⟩ := List.mem_map.mp hpart
      exact closed_quoteScalar item
    · intro part hpart
      obtain ⟨item, -, rfl⟩ := List.mem_map.mp hpart
      exact ⟨quoteScalar_tight item, by simp [quoteScalar]⟩
  have hunquote : (items.map quoteScalar).map unquote = items := by
    rw [List.map_map]
    exact (List.map_congr_left fun item _ => unquote_quoteScalar item).trans (List.map_id items)
  rw [← hparts, List.map_map] at hunquote
  rw [encodeInlineSeq, inner_bracket]
  exact hunquote

theorem parseScalar_encodeInlineSeq (left : Nat) (items : List Bytes) :
    parseScalar (left + 1) (encodeInlineSeq items) = .ok (.sequence (items.map .scalar)) := by
  have hitems :=
    congrArg (List.map (Node.scalar : Bytes → Node Bytes)) (splitCSV_encodeInlineSeq items)
  rw [List.map_map] at hitems
  rw [parseScalar, encodeInlineSeq, bracketed_bracket, if_pos rfl]
  exact congrArg (fun items => Except.ok (Node.sequence items)) hitems

end Gopherd.Yaml
