import Gopherd.Go.Map
import Gopherd.Go.Strings
import Gopherd.Yaml.Parser

/-!
The accessors of a parsed document. A key that is not there, or a value of
another kind, reads as empty. Texts leave the document as code points, and a
byte that belongs to none as U+FFFD: Go keeps such a byte where it compares
strings or uses them as keys, so here texts that are not UTF-8 are told apart
only as far as that.
-/

namespace Gopherd.Yaml

open Go

def continuation (b : Option UInt8) : Option Nat :=
  match b with
  | some b => if 0x80 ≤ b ∧ b < 0xC0 then some (b.toNat - 0x80) else none
  | none => none

/-- The first code point of a text, and how many bytes it has. -/
def decodeRune (first : UInt8) (rest : Bytes) : Char × Nat :=
  let invalid := ('�', 1)
  let lead := first.toNat
  if lead < 0x80 then (Char.ofNat lead, 1)
  else if 0xC2 ≤ lead ∧ lead < 0xE0 then
    match continuation rest[0]? with
    | some a => (Char.ofNat ((lead - 0xC0) * 64 + a), 2)
    | none => invalid
  else if 0xE0 ≤ lead ∧ lead < 0xF0 then
    match continuation rest[0]?, continuation rest[1]? with
    | some a, some b =>
      let code := ((lead - 0xE0) * 64 + a) * 64 + b
      if 0x800 ≤ code ∧ ¬(0xD800 ≤ code ∧ code < 0xE000) then (Char.ofNat code, 3) else invalid
    | _, _ => invalid
  else if 0xF0 ≤ lead ∧ lead < 0xF5 then
    match continuation rest[0]?, continuation rest[1]?, continuation rest[2]? with
    | some a, some b, some c =>
      let code := (((lead - 0xF0) * 64 + a) * 64 + b) * 64 + c
      if 0x10000 ≤ code ∧ code < 0x110000 then (Char.ofNat code, 4) else invalid
    | _, _, _ => invalid
  else invalid

/-- Every code point has a byte, so the length of the text is enough fuel. -/
def decodeFrom : Nat → Bytes → List Char
  | 0, _ => []
  | _ + 1, [] => []
  | fuel + 1, first :: rest =>
    let (c, size) := decodeRune first rest
    c :: decodeFrom fuel (rest.drop (size - 1))

def decodeText (s : Bytes) : String :=
  String.ofList (decodeFrom s.length s)

def Node.get (n : Node Bytes) (key : String) : Option (Node Bytes) :=
  match n with
  | .mapping entries => (entries.find? fun entry => entry.1 = ascii key).map Prod.snd
  | _ => none

/-- `String`. -/
def nodeText : Option (Node Bytes) → String
  | some (.scalar s) => decodeText s
  | _ => ""

def Node.textAt (n : Node Bytes) (key : String) : String :=
  nodeText (n.get key)

def truthy (text : String) : Bool :=
  toLower text = "true" || toLower text = "yes"

/-- `Bool`. -/
def Node.flagAt (n : Node Bytes) (key : String) : Bool :=
  truthy (n.textAt key)

/-- `BoolPtr`. -/
def Node.optionalFlagAt (n : Node Bytes) (key : String) : Option Bool :=
  if n.textAt key = "" then none else some (truthy (n.textAt key))

/-- `IntPtr`. -/
def Node.intAt (n : Node Bytes) (key : String) : Option Int :=
  atoi (n.textAt key)

/-- `Strings`: items that are not scalars are left out. -/
def Node.textsAt (n : Node Bytes) (key : String) : List String :=
  match n.get key with
  | some (.sequence items) => items.filterMap fun item =>
    match item with
    | .scalar s => some (decodeText s)
    | _ => none
  | _ => []

/-- `StringMap`: values that are not scalars are left out. -/
def Node.textMapAt (n : Node Bytes) (key : String) : GoMap String String :=
  match n.get key with
  | some (.mapping entries) => GoMap.ofList (entries.filterMap fun entry =>
    match entry.2 with
    | .scalar s => some (decodeText entry.1, decodeText s)
    | _ => none)
  | _ => ∅

def Node.entriesAt (n : Node Bytes) (key : String) : List (String × Node Bytes) :=
  match n.get key with
  | some (.mapping entries) => entries.map fun entry => (decodeText entry.1, entry.2)
  | _ => []

def Node.itemsAt (n : Node Bytes) (key : String) : List (Node Bytes) :=
  match n.get key with
  | some (.sequence items) => items
  | _ => []

end Gopherd.Yaml
