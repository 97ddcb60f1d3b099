import Mathlib.Tactic

/-!
The functions of Go's `strings`, `strconv` and `unicode` packages that the
daemon calls. Texts are split and compared as lists of code points.
-/

namespace Gopherd.Go

/-- `unicode.IsSpace`: the Latin-1 spaces and the code points with the
White_Space property. -/
def isSpace (c : Char) : Bool :=
  c ∈ ['\t', '\n', '\x0b', '\x0c', '\r', ' ', '\u0085', '\u00a0', '\u1680',
    '\u2028', '\u2029', '\u202f', '\u205f', '\u3000'] ||
    ('\u2000' ≤ c && c ≤ '\u200a')

/-- Split at every code point that satisfies `sep`, keeping empty pieces. -/
def splitAtChar (sep : Char → Bool) : List Char → List (List Char)
  | [] => [[]]
  | c :: rest =>
    if sep c then [] :: splitAtChar sep rest
    else
      match splitAtChar sep rest with
      | [] => [[c]]
      | piece :: pieces => (c :: piece) :: pieces

/-- `strings.Fields`. -/
def fields (s : String) : List String :=
  ((splitAtChar isSpace s.toList).filter (· ≠ [])).map String.ofList

/-- `strings.Split` at a single code point. -/
def split (s : String) (sep : Char) : List String :=
  (splitAtChar (· == sep) s.toList).map String.ofList

/-- `strings.Cut` at a single code point: the parts around its first
occurrence, and whether there was one. -/
def cut (s : String) (sep : Char) : String × String × Bool :=
  let before := s.toList.takeWhile (· ≠ sep)
  match s.toList.dropWhile (· ≠ sep) with
  | [] => (s, "", false)
  | _ :: after => (String.ofList before, String.ofList after, true)

/-- `strings.TrimSpace`. -/
def trimSpace (s : String) : String :=
  String.ofList ((s.toList.dropWhile isSpace).reverse.dropWhile isSpace).reverse

/-- `strings.Contains`. -/
def contains (s sub : List Char) : Bool :=
  s.tails.any sub.isPrefixOf

/-- `strings.TrimRight`. -/
def trimRightChars (s : List Char) (cutset : List Char) : List Char :=
  (s.reverse.dropWhile (· ∈ cutset)).reverse

/-- `unicode.ToLower` as far as the daemon's ASCII tables can tell: besides
the ASCII capitals only the dotted capital I and the Kelvin sign have a lower
case in ASCII. -/
def toLowerChar (c : Char) : Char :=
  if c = '\u0130' then 'i'
  else if c = '\u212a' then 'k'
  else c.toLower

/-- `strings.ToLower`, with the restriction of `toLowerChar`. -/
def toLower (s : String) : String :=
  String.ofList (s.toList.map toLowerChar)

/-- `unicode.ToUpper` for the ASCII tables: besides the ASCII small letters
only the dotless i and the long s have an upper case in ASCII. -/
def toUpperChar (c : Char) : Char :=
  if c = '\u0131' then 'I'
  else if c = '\u017f' then 'S'
  else c.toUpper

/-- `strings.ToUpper`, with the restriction of `toUpperChar`. -/
def toUpper (s : String) : String :=
  String.ofList (s.toList.map toUpperChar)

def digitsValue (digits : List Char) : Nat :=
  digits.foldl (fun value c => 10 * value + (c.toNat - '0'.toNat)) 0

/-- `strconv.ParseUint` for a base up to ten: digits without a sign, within the
given number of bits. -/
def parseUint (base bits : Nat) (s : String) : Option Nat :=
  let value := s.toList.foldl (fun value c => base * value + (c.toNat - '0'.toNat)) 0
  if s ≠ "" ∧ s.toList.all (fun c => c.isDigit && c.toNat - '0'.toNat < base) ∧
      value < 2 ^ bits then some value
  else none

def minInt : Int := -9223372036854775808
def maxInt : Int := 9223372036854775807

/-- `strconv.Atoi`: an optional sign and decimal digits, within 64 bits. -/
def atoi (s : String) : Option Int :=
  let unsigned := fun (digits : List Char) (sign : Int) =>
    if digits ≠ [] ∧ digits.all Char.isDigit then
      let value := sign * digitsValue digits
      if minInt ≤ value ∧ value ≤ maxInt then some value else none
    else none
  match s.toList with
  | '-' :: digits => unsigned digits (-1)
  | '+' :: digits => unsigned digits 1
  | digits => unsigned digits 1

theorem atoi_le (h : atoi s = some v) : v ≤ maxInt := by
  unfold atoi at h
  dsimp only at h
  split at h
  all_goals
    split_ifs at h with hdigits hrange
    cases h
    exact hrange.2

/-- Addition of 64-bit integers wraps around. -/
def addInt (a b : Int) : Int :=
  Int.bmod (a + b) (2 ^ 64)

end Gopherd.Go
