import Gopherd.Go.Float
import Gopherd.Go.Map
import Gopherd.Go.Strings

/-!
The configuration of one process, as the loader hands it to
`service.New`. Texts that the loader has not interpreted yet (durations,
signals, exit actions, the cron expression) are kept as texts.
-/

namespace Gopherd

open Go

inductive Startup where
  | unset
  | enabled
  | disabled
  | oneshot
  | scheduled
  deriving DecidableEq, Inhabited

inductive ExitAction where
  | restart
  | shutdown
  | successShutdown
  | failureShutdown
  | ignore
  deriving DecidableEq, Inhabited

structure FileConditions where
  mustExist : String
  mustMiss : String
  deriving DecidableEq, Inhabited

structure Process where
  userID : Option Int
  groupID : Option Int
  environment : GoMap String String
  onCheckFailure : GoMap String String
  passEnv : Option Bool
  logCapture : Option Bool
  exportSocket : Option Bool
  name : String
  command : String
  workingDir : String
  user : String
  group : String
  startup : Startup
  stopSignal : String
  killDelay : String
  onSuccess : String
  onFailure : String
  backoffDelay : String
  backoffLimit : String
  readyCheck : String
  readyTimeout : String
  startupTimeout : String
  schedule : String
  conditionFileExists : String
  conditionFileMissing : String
  umask : String
  dotEnv : String
  prefixText : String
  sdNotifyTimeout : String
  parentDeathSignal : String
  exitCodeMap : GoMap Int Int
  signalRewrite : GoMap String String
  args : List String
  after : List String
  before : List String
  requires : List String
  removeEnv : List String
  backoffFactor : Float64
  useEntrypointArgs : Bool
  sdNotify : Bool
  strictGroups : Bool
  dotEnvFollow : Bool
  restartWithDependents : Bool
  deriving DecidableEq

def Process.empty : Process where
  userID := none
  groupID := none
  environment := ∅
  onCheckFailure := ∅
  passEnv := none
  logCapture := none
  exportSocket := none
  name := ""
  command := ""
  workingDir := ""
  user := ""
  group := ""
  startup := .unset
  stopSignal := ""
  killDelay := ""
  onSuccess := ""
  onFailure := ""
  backoffDelay := ""
  backoffLimit := ""
  readyCheck := ""
  readyTimeout := ""
  startupTimeout := ""
  schedule := ""
  conditionFileExists := ""
  conditionFileMissing := ""
  umask := ""
  dotEnv := ""
  prefixText := ""
  sdNotifyTimeout := ""
  parentDeathSignal := ""
  exitCodeMap := ∅
  signalRewrite := ∅
  args := []
  after := []
  before := []
  requires := []
  removeEnv := []
  backoffFactor := .finite 0
  useEntrypointArgs := false
  sdNotify := false
  strictGroups := false
  dotEnvFollow := false
  restartWithDependents := false

instance : Inhabited Process := ⟨.empty⟩

/-- The name a process goes by: its own, or else its command. -/
def Process.procName (p : Process) : String :=
  if p.name ≠ "" then p.name else p.command

def Process.fileConditions (p : Process) : FileConditions :=
  ⟨p.conditionFileExists, p.conditionFileMissing⟩

inductive FileStat where
  | present
  | missing
  | failed
  deriving DecidableEq, Inhabited

inductive SkipReason where
  | existsFailed (path : String)
  | existsMissing (path : String)
  | missingFailed (path : String)
  | missingPresent (path : String)
  deriving DecidableEq

/-- The first condition that does not hold in the given file system. -/
def FileConditions.unmet (c : FileConditions) (files : String → FileStat) :
    Option SkipReason :=
  let existsUnmet :=
    if c.mustExist = "" then none
    else
      match files c.mustExist with
      | .present => none
      | .missing => some (.existsMissing c.mustExist)
      | .failed => some (.existsFailed c.mustExist)
  match existsUnmet with
  | some reason => some reason
  | none =>
    if c.mustMiss = "" then none
    else
      match files c.mustMiss with
      | .present => some (.missingPresent c.mustMiss)
      | .missing => none
      | .failed => some (.missingFailed c.mustMiss)

/-- `ParseExitAction`: the empty text stands for the default, and an unknown
one is an error that the caller recovers from with the default. -/
def parseExitAction (s : String) (defaultAction : ExitAction) : Option ExitAction :=
  if s = "restart" then some .restart
  else if s = "shutdown" then some .shutdown
  else if s = "success-shutdown" then some .successShutdown
  else if s = "failure-shutdown" then some .failureShutdown
  else if s = "ignore" then some .ignore
  else if s = "" then some defaultAction
  else none

/-- `ValidateExitAction`. -/
def validExitAction (s : String) : Bool :=
  s ∈ ["restart", "shutdown", "success-shutdown", "failure-shutdown", "ignore", ""]

abbrev Signal := Nat

def signalMap : List (String × Signal) :=
  [("SIGABRT", 6), ("SIGALRM", 14), ("SIGBUS", 7), ("SIGCHLD", 17), ("SIGCONT", 18),
    ("SIGFPE", 8), ("SIGHUP", 1), ("SIGILL", 4), ("SIGINT", 2), ("SIGIO", 29),
    ("SIGKILL", 9), ("SIGPIPE", 13), ("SIGPROF", 27), ("SIGQUIT", 3), ("SIGSEGV", 11),
    ("SIGSTOP", 19), ("SIGSYS", 31), ("SIGTERM", 15), ("SIGTRAP", 5), ("SIGTSTP", 20),
    ("SIGTTIN", 21), ("SIGTTOU", 22), ("SIGURG", 23), ("SIGUSR1", 10), ("SIGUSR2", 12),
    ("SIGVTALRM", 26), ("SIGWINCH", 28), ("SIGXCPU", 24), ("SIGXFSZ", 25)]

/-- `ParseSignal`: names with or without the `SIG`; the empty one is SIGTERM. -/
def parseSignal (name : String) : Option Signal :=
  let upper := trimSpace (toUpper name)
  if upper = "" then some 15
  else
    signalMap.lookup
      (if "SIG".toList.isPrefixOf upper.toList then upper else "SIG" ++ upper)

/-- `SignalName`: the canonical name, or the number of an unknown signal. -/
def signalName (signal : Signal) : String :=
  match signalMap.find? (fun entry => entry.2 = signal) with
  | some entry => entry.1
  | none => toString signal

end Gopherd
