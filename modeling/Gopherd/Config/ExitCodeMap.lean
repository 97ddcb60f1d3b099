import Gopherd.Lib.Except
import Gopherd.Service.Process

/-!
The `exit-code-map` of a process as `parseProcess` reads it: keys and values
are decimal numbers of any size that fits 64 bits, or names of signals.
-/

namespace Gopherd

open Go

inductive ExitCodeError where
  | empty
  | unknown (text : String)
  deriving DecidableEq

/-- `parseExitCode`: a signal counts with the code the shell gives it. -/
def parseExitCode (text : String) : Except ExitCodeError Int :=
  let text := trimSpace text
  if text = "" then .error .empty
  else
    match atoi text with
    | some value => .ok value
    | none =>
      match parseSignal text with
      | some signal => .ok (128 + signal)
      | none => .error (.unknown text)

inductive ExitCodeMapError where
  | key (text : String) (error : ExitCodeError)
  | value (key text : String) (error : ExitCodeError)
  deriving DecidableEq

def parseExitCodeEntry (m : GoMap Int Int) (entry : String × String) :
    Except ExitCodeMapError (GoMap Int Int) :=
  match parseExitCode entry.1 with
  | .error error => .error (.key entry.1 error)
  | .ok key =>
    match parseExitCode entry.2 with
    | .error error => .error (.value entry.1 entry.2 error)
    | .ok value => .ok (m.insert key value)

/-- The loop of `parseProcess` over the entries, in the order in which the map
of the text is iterated. -/
def parseExitCodeMap (raw : List (String × String)) :
    Except ExitCodeMapError (GoMap Int Int) :=
  raw.foldlM parseExitCodeEntry ∅

end Gopherd
