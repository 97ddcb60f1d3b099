import Mathlib.Data.List.Basic

/-!
Regular expressions with groups, matched as a backtracking matcher does: the
ways to match are listed in the order in which they are preferred, and the first
one counts. Positions are offsets in the text; a group is the pair of the
offsets around what it matched last.
-/

namespace Gopherd

inductive Regex where
  | empty
  | char (accepts : Char → Bool)
  | seq (first second : Regex)
  | alt (first second : Regex)
  | star (greedy : Bool) (body : Regex)
  | group (index : Nat) (body : Regex)
  | start
  | stop

namespace Regex

structure Cursor where
  pos : Nat
  rest : List Char
  groups : List (Nat × Nat × Nat) := []
  deriving DecidableEq

structure Match where
  start : Nat
  stop : Nat
  groups : List (Nat × Nat × Nat) := []
  deriving DecidableEq

/-- The bounds of a group, if it took part in the match. -/
def Match.group (m : Match) (index : Nat) : Option (Nat × Nat) :=
  m.groups.lookup index

/-- Repeats a step that consumes something; a greedy repetition prefers to go on. -/
def iterate (greedy : Bool) (step : Cursor → List Cursor) : Nat → Cursor → List Cursor
  | 0, cursor => [cursor]
  | fuel + 1, cursor =>
    let more := ((step cursor).filter (cursor.pos < ·.pos)).flatMap (iterate greedy step fuel)
    if greedy then more ++ [cursor] else cursor :: more

/-- The ways to match at a cursor, the preferred one first. -/
def runs : Regex → Cursor → List Cursor
  | empty, cursor => [cursor]
  | char accepts, cursor =>
    match cursor.rest with
    | [] => []
    | c :: rest => if accepts c then [{ cursor with pos := cursor.pos + 1, rest }] else []
  | seq first second, cursor => (runs first cursor).flatMap (runs second)
  | alt first second, cursor => runs first cursor ++ runs second cursor
  | star greedy body, cursor => iterate greedy (runs body) cursor.rest.length cursor
  | group index body, cursor =>
    (runs body cursor).map fun after =>
      { after with groups := (index, cursor.pos, after.pos) :: after.groups }
  | start, cursor => if cursor.pos = 0 then [cursor] else []
  | stop, cursor => if cursor.rest = [] then [cursor] else []

def matchAt (regex : Regex) (pos : Nat) (s : List Char) : Option Match :=
  (regex.runs ⟨pos, s, []⟩).head?.map fun cursor => ⟨pos, cursor.pos, cursor.groups⟩

/-- The leftmost match in a text that starts at the given position. -/
def find (regex : Regex) (pos : Nat) : List Char → Option Match
  | [] => regex.matchAt pos []
  | c :: rest =>
    match regex.matchAt pos (c :: rest) with
    | some m => some m
    | none => find regex (pos + 1) rest

/-- The matches from left to right, for an expression that does not match the
empty text; each one consumes something, so the length is enough fuel. -/
def findAllFrom (regex : Regex) : Nat → Nat → List Char → List Match
  | 0, _, _ => []
  | fuel + 1, pos, s =>
    match regex.find pos s with
    | none => []
    | some m => m :: findAllFrom regex fuel m.stop (s.drop (m.stop - pos))

def findAll (regex : Regex) (s : List Char) : List Match :=
  regex.findAllFrom s.length 0 s

def opt (body : Regex) : Regex := alt body empty

def many (body : Regex) : Regex := star true body

def plus (body : Regex) : Regex := seq body (many body)

def lazyPlus (body : Regex) : Regex := seq body (star false body)

def literal (s : List Char) : Regex :=
  s.foldr (fun c rest => seq (char (· = c)) rest) empty

def all (parts : List Regex) : Regex :=
  parts.foldr seq empty

def digit : Regex := char Char.isDigit

def blank : Regex := char (· ∈ ['\t', '\n', '\x0c', '\r', ' '])

def wordChar : Regex := char fun c => c.isAlphanum || c = '_'

def anyButNewline : Regex := char (· ≠ '\n')

end Regex

end Gopherd
