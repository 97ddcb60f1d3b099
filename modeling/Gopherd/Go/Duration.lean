import Gopherd.Go.Fields
import Mathlib.Data.List.DropRight

/-!
`time.ParseDuration` and `Duration.String`. Durations are nanoseconds. The
fraction of a number is rounded down exactly, where Go goes through a 64-bit
float.
-/

namespace Gopherd.Go

abbrev Duration := Int

def millisecond : Duration := 1000000
def secondDuration : Duration := 1000000000

inductive DurationError where
  | invalid (text : String)
  | missingUnit (text : String)
  | unknownUnit (unit text : String)
  deriving DecidableEq

/-- `unitMap`: both micro signs are accepted. -/
def unitOf (unit : String) : Option Nat :=
  [("ns", 1), ("us", 1000), ("\u00b5s", 1000), ("\u03bcs", 1000), ("ms", 1000000),
    ("s", 1000000000), ("m", 60000000000), ("h", 3600000000000)].lookup unit

def isNumberChar (c : Char) : Bool := c = '.' || c.isDigit

/-- One pass of the loop: a number with an optional fraction, and its unit.
Returns the nanoseconds it stands for and the rest of the text. -/
def parseTerm (text : String) (s : List Char) : Except DurationError (Nat × List Char) :=
  let whole := s.takeWhile Char.isDigit
  let afterWhole := s.dropWhile Char.isDigit
  let fraction := match afterWhole with
    | '.' :: rest => rest.takeWhile Char.isDigit
    | _ => []
  let afterNumber := match afterWhole with
    | '.' :: rest => rest.dropWhile Char.isDigit
    | _ => afterWhole
  let unit := afterNumber.takeWhile (fun c => !isNumberChar c)
  if 2 ^ 63 < digitsValue whole ∨ (whole = [] ∧ fraction = []) then .error (.invalid text)
  else if unit = [] then .error (.missingUnit text)
  else
    match unitOf (String.ofList unit) with
    | none => .error (.unknownUnit (String.ofList unit) text)
    | some scale =>
      let value := digitsValue whole * scale +
        digitsValue fraction * scale / 10 ^ fraction.length
      if 2 ^ 63 < value then .error (.invalid text)
      else .ok (value, afterNumber.dropWhile (fun c => !isNumberChar c))

/-- The loop over the terms; every pass consumes at least its unit, so the
length of the text is enough fuel. -/
def parseTerms (text : String) : Nat → Nat → List Char → Except DurationError Nat
  | 0, _, _ => .error (.invalid text)
  | _ + 1, total, [] => .ok total
  | fuel + 1, total, s => do
      let (value, rest) ← parseTerm text s
      if 2 ^ 63 < total + value then .error (.invalid text)
      else parseTerms text fuel (total + value) rest

def parseUnsigned (text : String) (s : List Char) : Except DurationError Nat :=
  if s = ['0'] then .ok 0
  else if s = [] then .error (.invalid text)
  else parseTerms text (s.length + 1) 0 s

def parseDuration (text : String) : Except DurationError Duration :=
  match text.toList with
  | '-' :: s => do
      let value ← parseUnsigned text s
      pure (-(value : Int))
  | '+' :: s => finish (parseUnsigned text s)
  | s => finish (parseUnsigned text s)
where
  finish (result : Except DurationError Nat) : Except DurationError Duration := do
    let value ← result
    if 2 ^ 63 ≤ value then .error (.invalid text) else pure (value : Int)

/-- `fmtFrac`: the digits of `value / 10 ^ prec` behind the point, without
trailing zeros; nothing if there are none. -/
def fmtFrac (value prec : Nat) : List Char :=
  let digits := ((Nat.toDigits 10 (value % 10 ^ prec)).leftpad prec '0').rdropWhile (· = '0')
  if digits = [] then [] else '.' :: digits

def fmtInt (value : Nat) : List Char :=
  Nat.toDigits 10 value

/-- Less than a second is written in a smaller unit. -/
def subsecondChars (nanoseconds : Nat) : List Char :=
  let (unit, prec) :=
    if nanoseconds < 1000 then (['n'], 0)
    else if nanoseconds < 1000000 then (['\u00b5'], 3)
    else (['m'], 6)
  fmtInt (nanoseconds / 10 ^ prec) ++ fmtFrac nanoseconds prec ++ unit ++ ['s']

/-- Hours and minutes are left out as long as they are zero. -/
def secondsChars (nanoseconds : Nat) : List Char :=
  let seconds := nanoseconds / 10 ^ 9
  let minutes := seconds / 60
  let hours := minutes / 60
  (if 0 < hours then fmtInt hours ++ ['h'] else []) ++
    (if 0 < minutes then fmtInt (minutes % 60) ++ ['m'] else []) ++
    fmtInt (seconds % 60) ++ fmtFrac nanoseconds 9 ++ ['s']

/-- `Duration.String`. -/
def durationString (d : Duration) : String :=
  if d = 0 then "0s"
  else String.ofList ((if d < 0 then ['-'] else []) ++
    if d.natAbs < 10 ^ 9 then subsecondChars d.natAbs else secondsChars d.natAbs)

theorem isSpace_digit (h : c.isDigit = true) : isSpace c = false := by
  simp only [Char.isDigit, isSpace] at *
  simp [Char.le_def, Char.ext_iff, UInt32.le_iff_toNat_le, UInt32.ext_iff] at *
  omega

theorem fmtInt_noSpace (value : Nat) : ∀ c ∈ fmtInt value, isSpace c = false := by
  intro c hc
  exact isSpace_digit (Nat.isDigit_of_mem_toDigits (by omega) (by omega) hc)

theorem fmtFrac_noSpace (value prec : Nat) : ∀ c ∈ fmtFrac value prec, isSpace c = false := by
  have hpadded : ∀ c ∈ (Nat.toDigits 10 (value % 10 ^ prec)).leftpad prec '0',
      isSpace c = false := by
    intro c hc
    rw [List.leftpad, List.mem_append] at hc
    rcases hc with hzero | hdigit
    · rw [List.eq_of_mem_replicate hzero]
      decide
    · exact fmtInt_noSpace _ c hdigit
  intro c hc
  rw [fmtFrac] at hc
  split at hc
  · cases hc
  · rcases List.mem_cons.mp hc with rfl | hmem
    · decide
    · have htrimmed := List.rdropWhile_prefix (· = '0') _ |>.subset hmem
      exact hpadded c htrimmed

theorem subsecondChars_noSpace (nanoseconds : Nat) :
    ∀ c ∈ subsecondChars nanoseconds, isSpace c = false := by
  have hunit : ∀ letter ∈ ['n', '\u00b5', 'm', 's'], isSpace letter = false :=
    noSpace_of_any (by decide)
  rw [subsecondChars]
  split
  rename_i unit prec hchoice
  have hletter : ∀ c ∈ unit, isSpace c = false := by
    intro c hc
    apply hunit
    split at hchoice
    · cases hchoice; simp at hc; simp [hc]
    · split at hchoice <;> cases hchoice <;> simp at hc <;> simp [hc]
  intro c hc
  simp only [List.mem_append, List.mem_singleton] at hc
  rcases hc with ((hint | hfrac) | hc) | rfl
  · exact fmtInt_noSpace _ c hint
  · exact fmtFrac_noSpace _ _ c hfrac
  · exact hletter c hc
  · exact hunit _ (by simp)

theorem secondsChars_noSpace (nanoseconds : Nat) :
    ∀ c ∈ secondsChars nanoseconds, isSpace c = false := by
  have hunit : ∀ letter ∈ ['h', 'm', 's'], isSpace letter = false :=
    noSpace_of_any (by decide)
  have hpart : ∀ (present : Prop) [Decidable present] (value : Nat) (letter : Char),
      letter ∈ ['h', 'm', 's'] →
      ∀ c ∈ if present then fmtInt value ++ [letter] else [], isSpace c = false := by
    intro present _ value letter hletter c hc
    split at hc
    · rcases List.mem_append.mp hc with hint | hlast
      · exact fmtInt_noSpace _ c hint
      · rw [List.mem_singleton.mp hlast]
        exact hunit letter hletter
    · cases hc
  intro c hc
  simp only [secondsChars, List.mem_append] at hc
  rcases hc with (((hhours | hminutes) | hseconds) | hfrac) | hlast
  · exact hpart _ _ 'h' (by simp) c hhours
  · exact hpart _ _ 'm' (by simp) c hminutes
  · exact fmtInt_noSpace _ c hseconds
  · exact fmtFrac_noSpace _ _ c hfrac
  · rw [List.mem_singleton.mp hlast]
    exact hunit 's' (by simp)

theorem durationString_token (d : Duration) : Token (durationString d) := by
  by_cases hzero : d = 0
  · rw [durationString, if_pos hzero]
    exact ⟨by decide, noSpace_of_any (by decide)⟩
  rw [durationString, if_neg hzero]
  have hchars : ∀ c ∈ if d.natAbs < 10 ^ 9 then subsecondChars d.natAbs else
      secondsChars d.natAbs, isSpace c = false := by
    split
    · exact subsecondChars_noSpace _
    · exact secondsChars_noSpace _
  have hlast : ∃ front, (if d.natAbs < 10 ^ 9 then subsecondChars d.natAbs else
      secondsChars d.natAbs) = front ++ ['s'] := by
    split <;> exact ⟨_, rfl⟩
  obtain ⟨front, hfront⟩ := hlast
  constructor
  · intro hempty
    have hlist := congrArg String.toList hempty
    rw [String.toList_ofList, hfront] at hlist
    simp at hlist
  · rw [String.toList_ofList]
    intro c hc
    rcases List.mem_append.mp hc with hsign | hmem
    · split at hsign
      · rw [List.mem_singleton.mp hsign]
        decide
      · cases hsign
    · exact hchars c hmem

end Gopherd.Go
