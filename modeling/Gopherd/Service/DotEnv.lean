import Gopherd.Go.Map
import Gopherd.Go.Strings

/-!
`parseDotEnv`: the assignments of a dotenv file. How the file can be read is
data; the checks on it are made in the order of the source.
-/

namespace Gopherd

open Go

def isValidEnvKey (key : String) : Bool :=
  match key.toList with
  | [] => false
  | first :: rest =>
    (first = '_' || first.isAlpha) && rest.all fun c => c = '_' || c.isAlphanum

/-- `stripDotEnvComment`, behind the characters `before` (the last one first). -/
def stripComment (inSingle inDouble : Bool) (before : List Char) : List Char → List Char
  | [] => before.reverse
  | c :: rest =>
    if c = '\\' && inDouble then
      match rest with
      | [] => (c :: before).reverse
      | escaped :: rest => stripComment inSingle inDouble (escaped :: c :: before) rest
    else if c = '\'' && !inDouble then
      stripComment (!inSingle) inDouble (c :: before) rest
    else if c = '"' && !inSingle then
      stripComment inSingle (!inDouble) (c :: before) rest
    else if c = '#' && !inSingle && !inDouble && before.head? = some ' ' then
      trimRightChars before.reverse [' ']
    else stripComment inSingle inDouble (c :: before) rest

def stripDotEnvComment (v : List Char) : List Char :=
  stripComment false false [] v

def dotenvEscape : Char → List Char
  | 'n' => ['\n']
  | 't' => ['\t']
  | 'r' => ['\r']
  | '\\' => ['\\']
  | '"' => ['"']
  | c => ['\\', c]

def dotenvUnescapeDouble : List Char → List Char
  | [] => []
  | [c] => [c]
  | c :: next :: rest =>
    if c = '\\' then dotenvEscape next ++ dotenvUnescapeDouble rest
    else c :: dotenvUnescapeDouble (next :: rest)

def unquoted (quote : Char) (v : List Char) : Option (List Char) :=
  if 2 ≤ v.length && v.head? = some quote && v.getLast? = some quote then some v.tail.dropLast
  else none

def dotenvValue (text : String) : String :=
  let v := stripDotEnvComment (trimSpace text).toList
  match unquoted '"' v with
  | some inner => String.ofList (dotenvUnescapeDouble inner)
  | none =>
    match unquoted '\'' v with
    | some inner => String.ofList inner
    | none => String.ofList v

inductive DotEnvError where
  | unreadable
  | irregular
  | worldWritable
  | foreignOwner
  | tooLarge
  | invalidKey (key : String)
  deriving DecidableEq

inductive DotEnvRead where
  | failed
  | irregular
  | worldWritable
  | foreignOwner
  | content (data : String)
  deriving DecidableEq

def maxDotEnvSize : Nat := 1048576

/-- One line: an assignment is put into the map, anything else is passed over. -/
def dotenvLine (env : GoMap String String) (line : String) :
    Except DotEnvError (GoMap String String) :=
  let line := trimSpace line
  if line = "" || line.toList.head? = some '#' then .ok env
  else
    match cut line '=' with
    | (_, _, false) => .ok env
    | (key, value, true) =>
      let key := trimSpace key
      if key = "" then .ok env
      else if isValidEnvKey key then .ok (env.insert key (dotenvValue value))
      else .error (.invalidKey key)

def trimMark (s : List Char) : List Char :=
  match s with
  | '\ufeff' :: rest => rest
  | _ => s

def parseDotEnv (file : DotEnvRead) : Except DotEnvError (GoMap String String) :=
  match file with
  | .failed => .error .unreadable
  | .irregular => .error .irregular
  | .worldWritable => .error .worldWritable
  | .foreignOwner => .error .foreignOwner
  | .content data =>
    if maxDotEnvSize < data.utf8ByteSize then .error .tooLarge
    else (split (String.ofList (trimMark data.toList)) '\n').foldlM dotenvLine ∅

end Gopherd
