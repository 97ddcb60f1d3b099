import Gopherd.Go.Bytes
import Gopherd.Lib.Except

/-!
The YAML parser. `splitLines` turns a document into its content lines, with the
body of a literal block scalar at the line that opens it. `parseBlock` reads
the lines of one indentation and returns those it has not taken. Depth is
counted down here: `left` is how many levels `maxParseDepth` still allows.
-/

namespace Gopherd.Yaml

open Go

inductive Node (τ : Type) where
  | scalar (text : τ)
  | mapping (entries : List (τ × Node τ))
  | sequence (items : List (Node τ))

section DecidableEq

variable {τ : Type} [DecidableEq τ]

mutual

def Node.decEq : (left right : Node τ) → Decidable (left = right)
  | .scalar a, .scalar b => decidable_of_iff (a = b) (by simp)
  | .mapping a, .mapping b =>
    match decEqEntries a b with
    | isTrue h => isTrue (by rw [h])
    | isFalse h => isFalse (by simpa using h)
  | .sequence a, .sequence b =>
    match decEqItems a b with
    | isTrue h => isTrue (by rw [h])
    | isFalse h => isFalse (by simpa using h)
  | .scalar _, .mapping _ | .scalar _, .sequence _ | .mapping _, .scalar _
  | .mapping _, .sequence _ | .sequence _, .scalar _ | .sequence _, .mapping _ =>
    isFalse (by simp)

def decEqEntries : (left right : List (τ × Node τ)) → Decidable (left = right)
  | [], [] => isTrue rfl
  | [], _ :: _ | _ :: _, [] => isFalse (by simp)
  | (key, val) :: rest, (key', val') :: rest' =>
    match decEq key key', val.decEq val', decEqEntries rest rest' with
    | isTrue hkey, isTrue hval, isTrue hrest => isTrue (by rw [hkey, hval, hrest])
    | isFalse hkey, _, _ => isFalse (by simp [hkey])
    | _, isFalse hval, _ => isFalse (by simp [hval])
    | _, _, isFalse hrest => isFalse (by simp [hrest])

def decEqItems : (left right : List (Node τ)) → Decidable (left = right)
  | [], [] => isTrue rfl
  | [], _ :: _ | _ :: _, [] => isFalse (by simp)
  | item :: rest, item' :: rest' =>
    match item.decEq item', decEqItems rest rest' with
    | isTrue hitem, isTrue hrest => isTrue (by rw [hitem, hrest])
    | isFalse hitem, _ => isFalse (by simp [hitem])
    | _, isFalse hrest => isFalse (by simp [hrest])

end

instance : DecidableEq (Node τ) := Node.decEq

end DecidableEq

def maxParseDepth : Nat := 64

structure Line where
  literal : Option Bytes
  text : Bytes
  indent : Nat
  num : Nat
  deriving DecidableEq

inductive ScalarError where
  | tooDeep
  | expectedEntry (entry : Bytes)
  | duplicateKey (key : Bytes)
  deriving DecidableEq

inductive ParseError where
  | tabIndent (num : Nat)
  | folded (num : Nat) (indicator : Bytes)
  | unsupportedIndicator (num : Nat) (indicator : Bytes)
  | tooDeep (num : Nat)
  | expectedKey (num : Nat) (text : Bytes)
  | duplicateKey (num : Nat) (key : Bytes) (previous : Nat)
  | scalar (num : Nat) (error : ScalarError)
  | unplaced (num : Nat) (text : Bytes)
  | unplacedInItem (num : Nat) (text : Bytes) (item : Nat)
  deriving DecidableEq

/-- The index of the first `:` followed by a space or the end. Quotes do not
matter. -/
def findColon : Bytes → Option Nat
  | [] => none
  | c :: rest =>
    if c = colon ∧ (rest = [] ∨ rest.head? = some space) then some 0
    else (findColon rest).map (· + 1)

def dash : Bytes := [hyphen, space]

def stripDashes : Bytes → Bytes
  | hyphen :: space :: rest => stripDashes rest
  | s => s

/-- The value position of a line, when it begins a block scalar. -/
def blockIndicator (content : Bytes) : Option Bytes :=
  let s := stripDashes content
  let s := match findColon s with
    | some i => trimSpaces (s.drop (i + 1))
    | none => s
  match s with
  | bar :: _ | greater :: _ => some s
  | _ => none

/-- The index of the `#` of a comment: outside of quotes and after a space. -/
def commentStart (inSingle inDouble escaped : Bool) (previous : Option UInt8) :
    Bytes → Option Nat
  | [] => none
  | c :: rest =>
    let next := fun inSingle inDouble escaped =>
      (commentStart inSingle inDouble escaped (some c) rest).map (· + 1)
    if escaped then next inSingle inDouble false
    else if c = backslash then next inSingle inDouble inDouble
    else if c = singleQuote then next (if inDouble then inSingle else !inSingle) inDouble false
    else if c = doubleQuote then next inSingle (if inSingle then inDouble else !inDouble) false
    else if c = hash ∧ !inSingle ∧ !inDouble ∧ previous = some space then some 0
    else next inSingle inDouble false

def stripInlineComment (s : Bytes) : Bytes :=
  match commentStart false false false none s with
  | some i => trimRight [space] (s.take i)
  | none => s

/-- The lines of a literal block after its header, without their indentation.
The first content line fixes it. -/
def literalBody (headerIndent : Nat) : Option Nat → List Bytes → List Bytes
  | _, [] => []
  | blockIndent, line :: rest =>
    if trimSpaces line = [] then [] :: literalBody headerIndent blockIndent rest
    else
      match blockIndent with
      | none =>
        if leadingSpaces line ≤ headerIndent then []
        else
          line.drop (leadingSpaces line) ::
            literalBody headerIndent (some (leadingSpaces line)) rest
      | some indent =>
        if leadingSpaces line < indent then []
        else line.drop indent :: literalBody headerIndent (some indent) rest

/-- The trailing line breaks of the body, by the indicator. -/
def chomp (indicator : Bytes) (body : List Bytes) : Bytes :=
  let text := joinLines body
  if indicator = [bar, hyphen] then trimRight [newline] text
  else if indicator = [bar, 43] then
    if body = [] then text else text ++ [newline]
  else
    let text := trimRight [newline] text
    if text = [] then text else text ++ [newline]

/-- `collectLiteralBlock`: the value and the number of lines it takes. -/
def collectLiteralBlock (num : Nat) (rest : List Bytes) (headerIndent : Nat)
    (indicator : Bytes) : Except ParseError (Bytes × Nat) :=
  if indicator ∈ [[bar], [bar, hyphen], [bar, 43]] then
    let body := literalBody headerIndent none rest
    .ok (chomp indicator body, body.length)
  else if indicator ∈ [[greater], [greater, hyphen], [greater, 43]] then
    .error (.folded num indicator)
  else .error (.unsupportedIndicator num indicator)

/-- `splitLines`. The first `skip` lines belong to a literal block; `num` is the
number of the next line. -/
def splitLines : Nat → Nat → List Bytes → Except ParseError (List Line)
  | _, _, [] => .ok []
  | skip + 1, num, _ :: rest => splitLines skip (num + 1) rest
  | 0, num, raw :: rest =>
    let trimmed := trimRight [space, tab, carriageReturn] raw
    if trimmed = [] ∨ trimSpaces trimmed = [] then splitLines 0 (num + 1) rest
    else if raw.head? = some tab then .error (.tabIndent num)
    else if startsWith [hash] (trimSpaces trimmed) then splitLines 0 (num + 1) rest
    else
      let content := stripInlineComment (trimSpaces trimmed)
      let line : Line := ⟨none, content, leadingSpaces trimmed, num⟩
      match blockIndicator content with
      | none => do
          let lines ← splitLines 0 (num + 1) rest
          pure (line :: lines)
      | some indicator => do
          let (literal, taken) ← collectLiteralBlock num rest line.indent indicator
          let lines ← splitLines taken (num + 1) rest
          pure ({ line with literal := some literal } :: lines)

/-- The parts between commas that stand outside of quotes and brackets. -/
def splitCSVFrom (quote : Option UInt8) (escaped : Bool) (depth : Int) (current : Bytes) :
    Bytes → List Bytes
  | [] => if current = [] then [] else [current]
  | c :: rest =>
    if escaped then splitCSVFrom quote false depth (current ++ [c]) rest
    else
      match quote with
      | some quoteChar =>
        if c = backslash ∧ quoteChar = doubleQuote then
          splitCSVFrom quote true depth (current ++ [c]) rest
        else
          splitCSVFrom (if c = quoteChar then none else quote) false depth
            (current ++ [c]) rest
      | none =>
        if c = doubleQuote ∨ c = singleQuote then
          splitCSVFrom (some c) false depth (current ++ [c]) rest
        else
          let depth :=
            if c = openBracket ∨ c = openBrace then depth + 1
            else if c = closeBracket ∨ c = closeBrace then depth - 1
            else depth
          if c = comma ∧ depth = 0 then current :: splitCSVFrom none false depth [] rest
          else splitCSVFrom none false depth (current ++ [c]) rest

def splitCSV (s : Bytes) : List Bytes :=
  splitCSVFrom none false 0 [] s

def unescapeByte (c : UInt8) : Bytes :=
  if c = 110 then [newline]
  else if c = 116 then [tab]
  else if c = 114 then [carriageReturn]
  else if c = backslash then [backslash]
  else if c = doubleQuote then [doubleQuote]
  else if c = singleQuote then [singleQuote]
  else [backslash, c]

def unescapeDouble : Bytes → Bytes
  | [] => []
  | [c] => [c]
  | c :: d :: rest =>
    if c = backslash then unescapeByte d ++ unescapeDouble rest
    else c :: unescapeDouble (d :: rest)

def inner (s : Bytes) : Bytes :=
  s.tail.dropLast

def unquote (s : Bytes) : Bytes :=
  if s.length < 2 then s
  else if s.head? = some singleQuote ∧ s.getLast? = some singleQuote then inner s
  else if s.head? = some doubleQuote ∧ s.getLast? = some doubleQuote then
    unescapeDouble (inner s)
  else s

/-- The entries of an inline map, with the parser of their values. -/
def parseInlineEntries (value : Bytes → Except ScalarError (Node Bytes)) :
    List Bytes → List Bytes → Except ScalarError (List (Bytes × Node Bytes))
  | _, [] => .ok []
  | seen, entry :: rest =>
    let entry := trimSpaces entry
    if entry = [] then parseInlineEntries value seen rest
    else
      match findColon entry with
      | none => .error (.expectedEntry entry)
      | some i =>
        let key := unquote (trimSpaces (entry.take i))
        if key ∈ seen then .error (.duplicateKey key)
        else do
          let val ← value (trimSpaces (entry.drop (i + 1)))
          let entries ← parseInlineEntries value (key :: seen) rest
          pure ((key, val) :: entries)

def bracketed (first last : UInt8) (s : Bytes) : Bool :=
  startsWith [first] s && endsWith [last] s

/-- An inline list, an inline map or a plain scalar. -/
def parseScalar : Nat → Bytes → Except ScalarError (Node Bytes)
  | 0, _ => .error .tooDeep
  | left + 1, s =>
    if bracketed openBracket closeBracket s then
      .ok (.sequence ((splitCSV (inner s)).map fun item =>
        .scalar (unquote (trimSpaces item))))
    else if bracketed openBrace closeBrace s then do
      let entries ← parseInlineEntries (parseScalar left) [] (splitCSV (inner s))
      pure (.mapping entries)
    else .ok (.scalar (unquote (trimSpaces s)))

/-- A single line of a list item that `parseScalar` takes. -/
def isInlineSeqItem (s : Bytes) : Bool :=
  if startsWith dash s then false
  else if bracketed openBrace closeBrace s then true
  else if (findColon s).isNone then true
  else
    2 ≤ s.length && (s.head? = some singleQuote || s.head? = some doubleQuote) &&
      s.getLast? = s.head?

/-- The parser of a block: the lines and the indentation they must exceed. -/
abbrev BlockParser := List Line → Int → Except ParseError (Node Bytes × List Line)

/-- The value of a key without one on its own line: the block below it. -/
def parseChild (block : BlockParser) (line : Line) (rest : List Line) :
    Except ParseError (Node Bytes × List Line) :=
  match rest with
  | [] => .ok (.scalar [], [])
  | next :: _ =>
      if next.indent ≤ line.indent then .ok (.scalar [], rest) else block rest line.indent

def parseValue (block : BlockParser) (left : Nat) (line : Line) (value : Bytes)
    (rest : List Line) : Except ParseError (Node Bytes × List Line) :=
  match line.literal with
  | some literal => .ok (.scalar literal, rest)
  | none =>
    if value ≠ [] then
      match parseScalar left value with
      | .ok val => .ok (val, rest)
      | .error error => .error (.scalar line.num error)
    else parseChild block line rest

/-- The loop of `parseMapping`. `base` is the indentation of the first key. A key
takes its line, so the number of lines is enough fuel. -/
def parseEntries (block : BlockParser) (left : Nat) :
    Nat → Option Nat → Int → List (Bytes × Nat) → List Line →
      Except ParseError (List (Bytes × Node Bytes) × List Line)
  | 0, _, _, _, lines => .ok ([], lines)
  | _ + 1, _, _, _, [] => .ok ([], [])
  | fuel + 1, base, minIndent, seen, line :: rest =>
    if 0 ≤ minIndent ∧ (line.indent : Int) ≤ minIndent then .ok ([], line :: rest)
    else if base.isSome ∧ base ≠ some line.indent then .ok ([], line :: rest)
    else
      match findColon line.text with
      | none => .error (.expectedKey line.num line.text)
      | some i =>
        let key := trimSpaces (line.text.take i)
        match seen.lookup key with
        | some previous => .error (.duplicateKey line.num key previous)
        | none => do
            let (val, lines) ←
              parseValue block left line (trimSpaces (line.text.drop (i + 1))) rest
            let (entries, lines) ← parseEntries block left fuel (some line.indent)
              (line.indent - 1) ((key, line.num) :: seen) lines
            pure ((key, val) :: entries, lines)

def parseMapping (block : BlockParser) (left : Nat) (lines : List Line) (minIndent : Int) :
    Except ParseError (Node Bytes × List Line) := do
  let (entries, lines) ← parseEntries block left lines.length none minIndent [] lines
  pure (.mapping entries, lines)

/-- A list item that is not a literal block: the lines below its own one that
are indented more than its dash belong to it. -/
def parseItem (block : BlockParser) (left seqIndent : Nat) (line : Line) (itemText : Bytes)
    (more : List Line) : Except ParseError (Node Bytes) :=
  if more = [] ∧ isInlineSeqItem itemText then
    match parseScalar left itemText with
    | .ok item => .ok item
    | .error error => .error (.scalar line.num error)
  else do
    let (item, unused) ← block ({ line with text := itemText, indent := seqIndent + 2 } :: more)
      (seqIndent + 2 - 1)
    match unused with
    | [] => pure item
    | bad :: _ => .error (.unplacedInItem bad.num bad.text line.num)

/-- The loop of `parseSequence`. An item takes its line, so the number of lines
is enough fuel. -/
def parseItems (block : BlockParser) (left seqIndent : Nat) :
    Nat → List Line → Except ParseError (List (Node Bytes) × List Line)
  | 0, lines => .ok ([], lines)
  | _ + 1, [] => .ok ([], [])
  | fuel + 1, line :: rest =>
    if line.indent ≠ seqIndent ∨ !startsWith dash line.text then .ok ([], line :: rest)
    else
      let itemText := line.text.drop 2
      match line.literal with
      | some literal =>
        if !startsWith dash itemText ∧ findColon itemText = none then do
          let (items, lines) ← parseItems block left seqIndent fuel rest
          pure (.scalar literal :: items, lines)
        else do
          let more := rest.takeWhile (seqIndent < ·.indent)
          let item ← parseItem block left seqIndent line itemText more
          let (items, lines) ← parseItems block left seqIndent fuel
            (rest.dropWhile (seqIndent < ·.indent))
          pure (item :: items, lines)
      | none => do
          let more := rest.takeWhile (seqIndent < ·.indent)
          let item ← parseItem block left seqIndent line itemText more
          let (items, lines) ← parseItems block left seqIndent fuel
            (rest.dropWhile (seqIndent < ·.indent))
          pure (item :: items, lines)

def parseSequence (block : BlockParser) (left : Nat) (lines : List Line) (seqIndent : Nat) :
    Except ParseError (Node Bytes × List Line) := do
  let (items, lines) ← parseItems block left seqIndent lines.length lines
  pure (.sequence items, lines)

def parseBlock : Nat → BlockParser
  | 0, lines, _ => .error (.tooDeep (lines.head?.elim 0 Line.num))
  | left + 1, lines, minIndent =>
    match lines with
    | [] => .ok (.scalar [], [])
    | line :: _ =>
      if startsWith dash line.text then
        parseSequence (parseBlock left) (left + 1) lines line.indent
      else parseMapping (parseBlock left) (left + 1) lines minIndent

def normalizeNewlines : Bytes → Bytes
  | [] => []
  | [c] => if c = carriageReturn then [newline] else [c]
  | c :: d :: rest =>
    if c = carriageReturn then
      if d = newline then newline :: normalizeNewlines rest
      else newline :: normalizeNewlines (d :: rest)
    else c :: normalizeNewlines (d :: rest)

def stripBOM (data : Bytes) : Bytes :=
  if startsWith [0xEF, 0xBB, 0xBF] data then data.drop 3 else data

/-- The lines of the text; a line break at its end does not begin another one. -/
def rawLines (data : Bytes) : List Bytes :=
  let raw := data.splitOn newline
  if raw.getLast? = some [] then raw.dropLast else raw

/-- The content lines of a document. -/
def contentLines (data : Bytes) : Except ParseError (List Line) :=
  splitLines 0 1 (rawLines (normalizeNewlines (stripBOM data)))

def parseLines (lines : List Line) : Except ParseError (Node Bytes) := do
  let (node, unused) ← parseBlock (maxParseDepth + 1) lines (-1)
  match unused with
  | [] => pure node
  | line :: _ => .error (.unplaced line.num line.text)

def parse (data : Bytes) : Except ParseError (Node Bytes) := do
  let lines ← contentLines data
  parseLines lines

end Gopherd.Yaml
