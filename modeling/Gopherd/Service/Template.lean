import Gopherd.Go.Map
import Gopherd.Sys.Expr
import Mathlib.Data.List.Sort

/-!
The placeholders in settings: variables, files, memory and processors. Memory
and processors are replaced first; files and variables are then located in one
pass over the text that is left, so that what is put in is not read again.

Warnings about variables that are not set are left out.
-/

namespace Gopherd

open Go Regex

def openBraces : List Char := "\x7b\x7b".toList
def closeBraces : List Char := "\x7d\x7d".toList

def placeholder (inside : List Regex) : Regex :=
  all ([literal openBraces, many blank] ++ inside ++ [many blank, literal closeBraces])

/-- The part `:-default`; the default ends at the first brace. -/
def defaultPart (index : Nat) : Regex :=
  opt (.seq (literal ":-".toList) (.group index (many (.char (· ≠ '\x7d')))))

/-- `templateRe`: the name of a variable, and the default. -/
def templateRe : Regex :=
  placeholder [literal ['.'], .group 1 (plus wordChar), many blank, defaultPart 2]

/-- `fileRe`: the path, the modifiers and the default. -/
def fileRe : Regex :=
  placeholder [literal "file".toList, plus blank, literal ['"'],
    .group 1 (plus (.char (· ≠ '"'))), literal ['"'],
    .group 2 (many (.seq (plus blank)
      (.alt (literal "trim".toList) (literal "follow".toList)))),
    defaultPart 3]

def memRe : Regex :=
  placeholder [literal "mem".toList, plus blank, .group 1 (lazyPlus anyButNewline)]

def cpuRe : Regex :=
  placeholder [literal "cpu".toList, opt (.seq (plus blank) (.group 1 (lazyPlus anyButNewline)))]

inductive FileRead where
  | missing
  | failed
  | irregular
  | content (data : String)
  deriving DecidableEq

/-- The files as they can be read, by path and whether links are followed. -/
abbrev Files := String → Bool → FileRead

inductive TemplateError where
  | memory (error : Sys.ExprError)
  | cpu (error : Sys.ExprError)
  | notAbsolute (path : String)
  | unreadable (path : String)
  | irregular (path : String)
  | tooLarge (path : String)
  | containsNul (path : String)
  deriving DecidableEq

def maxFileSize : Nat := 1048576

def isAbs (path : String) : Bool :=
  path.toList.head? = some '/'

/-- `readFileTemplate`: only a file that is missing falls back to the default. -/
def readFileTemplate (files : Files) (path : String) (doTrim follow : Bool)
    (default : Option (List Char)) : Except TemplateError (List Char) :=
  if !isAbs path then .error (.notAbsolute path)
  else
    match files path follow with
    | .missing =>
      match default with
      | some text => .ok text
      | none => .error (.unreadable path)
    | .failed => .error (.unreadable path)
    | .irregular => .error (.irregular path)
    | .content data =>
      if maxFileSize < data.utf8ByteSize then .error (.tooLarge path)
      else if '\x00' ∈ data.toList then .error (.containsNul path)
      else .ok (if doTrim then trimRightChars data.toList [' ', '\t', '\r', '\n'] else data.toList)

/-- The text of a group that took part in the match. -/
def submatch (s : List Char) (m : Match) (index : Nat) : Option (List Char) :=
  (m.group index).map fun bounds => (s.take bounds.2).drop bounds.1

def fileRefValue (files : Files) (s : List Char) (m : Match) :
    Except TemplateError (List Char) :=
  let path := (submatch s m 1).getD []
  let mods := (submatch s m 2).getD []
  readFileTemplate files (String.ofList path) (contains mods "trim".toList)
    (contains mods "follow".toList) (submatch s m 3)

/-- The value of a variable; the default stands in for one that is unset or
empty. -/
def envRefValue (env : GoMap String String) (s : List Char) (m : Match) : List Char :=
  let value := ((env.lookup (String.ofList ((submatch s m 1).getD []))).getD "").toList
  if value = [] then (submatch s m 2).getD [] else value

/-- Replaces matches by their texts; one that overlaps the match before it is
passed over. -/
def substitute {ε : Type} (s : List Char) :
    Nat → List (Match × Except ε (List Char)) → Except ε (List Char)
  | prev, [] => .ok (s.drop prev)
  | prev, (m, value) :: rest =>
    if m.start < prev then substitute s prev rest
    else do
      let text ← value
      let tail ← substitute s m.stop rest
      pure ((s.take m.start).drop prev ++ text ++ tail)

def expandRefs (files : Files) (env : GoMap String String) (s : List Char) :
    Except TemplateError (List Char) :=
  if !contains s openBraces then .ok s
  else
    let fileRefs := (fileRe.findAll s).map fun m => (m, fileRefValue files s m)
    let envRefs := (templateRe.findAll s).map fun m => (m, .ok (envRefValue env s m))
    substitute s 0 ((fileRefs ++ envRefs).mergeSort fun a b => a.1.start ≤ b.1.start)

structure Machine where
  totalMiB : Int
  totalCPUs : Int
  deriving DecidableEq

def memValue (machine : Machine) (s : List Char) (m : Match) :
    Except TemplateError (List Char) :=
  match Sys.evalMemory (String.ofList ((submatch s m 1).getD [])) machine.totalMiB with
  | .ok mib => .ok (toString mib).toList
  | .error error => .error (.memory error)

def cpuValue (machine : Machine) (s : List Char) (m : Match) :
    Except TemplateError (List Char) :=
  match Sys.evalCpu (String.ofList ((submatch s m 1).getD [])) machine.totalCPUs with
  | .ok cpus => .ok (toString cpus).toList
  | .error error => .error (.cpu error)

def expandTemplate (machine : Machine) (files : Files) (env : GoMap String String)
    (value : String) : Except TemplateError String := do
  let s := value.toList
  if !contains s openBraces then pure value
  else
    let s ← substitute s 0 ((memRe.findAll s).map fun m => (m, memValue machine s m))
    let s ← substitute s 0 ((cpuRe.findAll s).map fun m => (m, cpuValue machine s m))
    let s ← expandRefs files env s
    pure (String.ofList s)

def expandTemplates (machine : Machine) (files : Files) (env : GoMap String String)
    (values : List String) : Except TemplateError (List String) :=
  values.mapM (expandTemplate machine files env)

end Gopherd
