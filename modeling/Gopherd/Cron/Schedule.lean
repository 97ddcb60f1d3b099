import Gopherd.Go.Strings

/-!
Cron expressions as `internal/cron` parses them: five fields, each a bitmask of
the values that match.
-/

namespace Gopherd.Cron

open Go

structure FieldDef where
  name : String
  min : Int
  max : Int
  names : List (String × Int) := []

def minuteDef : FieldDef := ⟨"minute", 0, 59, []⟩

def hourDef : FieldDef := ⟨"hour", 0, 23, []⟩

def domDef : FieldDef := ⟨"day of month", 1, 31, []⟩

def monthDef : FieldDef := ⟨"month", 1, 12,
  [("jan", 1), ("feb", 2), ("mar", 3), ("apr", 4), ("may", 5), ("jun", 6),
    ("jul", 7), ("aug", 8), ("sep", 9), ("oct", 10), ("nov", 11), ("dec", 12)]⟩

def dowDef : FieldDef := ⟨"day of week", 0, 7,
  [("sun", 0), ("mon", 1), ("tue", 2), ("wed", 3), ("thu", 4), ("fri", 5), ("sat", 6)]⟩

inductive ParseError where
  | fieldCount (expr : String) (got : Nat)
  | emptyListItem (name field : String)
  | invalidStep (name step : String)
  | stepNotPositive (name : String) (step : Int)
  | reversedRange (name range : String)
  | invalidValue (name value : String)
  | outOfRange (name : String) (value min max : Int)
  deriving DecidableEq

structure Schedule where
  minute : BitVec 64
  hour : BitVec 64
  dom : BitVec 64
  month : BitVec 64
  dow : BitVec 64
  domStar : Bool
  dowStar : Bool
  deriving DecidableEq

/-- `1 << uint(v)`: negative values convert to shifts of 64 and more. -/
def bit (v : Int) : BitVec 64 :=
  if 0 ≤ v ∧ v < 64 then 1#64 <<< v.toNat else 0#64

def hasBit (mask : BitVec 64) (v : Int) : Bool :=
  mask &&& bit v ≠ 0#64

def parseValue (field : FieldDef) (s : String) : Except ParseError Int :=
  match field.names.lookup (toLower s) with
  | some v => .ok v
  | none =>
    match atoi s with
    | none => .error (.invalidValue field.name s)
    | some v =>
      if v < field.min ∨ field.max < v then
        .error (.outOfRange field.name v field.min field.max)
      else .ok v

/-- The counting loop of `parseField`. Its counter wraps around after a step
past the largest integer; a field has fewer than 64 values. -/
def setBits : Nat → Int → Int → Int → BitVec 64 → BitVec 64
  | 0, _, _, _, mask => mask
  | fuel + 1, v, hi, step, mask =>
    if v ≤ hi then setBits fuel (addInt v step) hi step (mask ||| bit v)
    else mask

def parseStep (field : FieldDef) (stepPart : String) : Except ParseError Int :=
  match atoi stepPart with
  | none => .error (.invalidStep field.name stepPart)
  | some n => if n < 1 then .error (.stepNotPositive field.name n) else .ok n

/-- The bounds of one list item before its step is applied. -/
def parseRange (field : FieldDef) (rangePart : String) (hasStep : Bool) :
    Except ParseError (Int × Int) :=
  if rangePart = "*" then .ok (field.min, field.max)
  else if '-' ∈ rangePart.toList then do
    let (loStr, hiStr, _) := cut rangePart '-'
    let lo ← parseValue field loStr
    let hi ← parseValue field hiStr
    if hi < lo then .error (.reversedRange field.name rangePart) else pure (lo, hi)
  else do
    let v ← parseValue field rangePart
    pure (v, if hasStep then field.max else v)

def parsePart (field : FieldDef) (text part : String) (mask : BitVec 64) :
    Except ParseError (BitVec 64) :=
  if part = "" then .error (.emptyListItem field.name text)
  else do
    let (rangePart, stepPart, hasStep) := cut part '/'
    let step ← if hasStep then parseStep field stepPart else pure 1
    let (lo, hi) ← parseRange field rangePart hasStep
    pure (setBits 64 lo hi step mask)

def parseField (field : FieldDef) (text : String) :
    Except ParseError (BitVec 64 × Bool) := do
  let mask ← (split text ',').foldlM (fun mask part => parsePart field text part mask) 0#64
  pure (mask, text == "*")

def foldSunday (dow : BitVec 64) : BitVec 64 :=
  if hasBit dow 7 then (dow ||| bit 0) &&& ~~~ bit 7 else dow

def parse (expr : String) : Except ParseError Schedule :=
  match fields expr with
  | [minute, hour, dom, month, dow] => do
      let (minuteMask, _) ← parseField minuteDef minute
      let (hourMask, _) ← parseField hourDef hour
      let (domMask, domStar) ← parseField domDef dom
      let (monthMask, _) ← parseField monthDef month
      let (dowMask, dowStar) ← parseField dowDef dow
      pure ⟨minuteMask, hourMask, domMask, monthMask, foldSunday dowMask, domStar, dowStar⟩
  | other => .error (.fieldCount expr other.length)

end Gopherd.Cron
