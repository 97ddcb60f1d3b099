import Gopherd.Config.ExitCodeMap
import Gopherd.Config.Load
import Gopherd.Service.DotEnv
import Gopherd.Service.Template
import Gopherd.Yaml.Access

/-!
`yml.Unmarshal`: from the text of a configuration to the settings. What else a
load depends on is in `LoadContext`: the environment of gopherd, the files that a
`startup` template may name, and the order in which Go iterates the maps of the
text. `strconv.ParseFloat` and the verdict of `net/http` on a URL are functions
there. The socket of the control server and the log targets are checked but not
kept.
-/

namespace Gopherd

open Go Yaml

inductive MapLoop where
  | conditionFiles
  | conditionEnv
  | exitCodeMap
  | signalRewrite
  deriving DecidableEq

structure MapOrder where
  order : Nat → MapLoop → List (String × String) → List (String × String)
  perm : ∀ process loop entries, (order process loop entries).Perm entries

structure LoadContext where
  env : GoMap String String
  files : Files
  parseFloat : String → Option Float64
  requestable : String → Bool

inductive ProcessFault where
  | startupTemplate (error : TemplateError)
  | startupExpanded (raw : String)
  | startup (text : String)
  | relativePath (key path : String)
  | sameCondition (path : String)
  | notMapping (key : String) (got : Option String)
  | conditionKey (key : String)
  | exitCodeMap (error : ExitCodeMapError)
  | signalSource (text : String)
  | signalTarget (text : String)
  | umask (text : String)
  | parentDeathSignal (text : String)
  | sdNotifyTimeout (text : String) (error : DurationError)
  | backoffFactor (text : String)
  deriving DecidableEq

structure ProcessError where
  name : String
  fault : ProcessFault
  deriving DecidableEq

def nodeLabel (n : Node Bytes) : String :=
  if n.textAt "name" ≠ "" then n.textAt "name"
  else if n.textAt "command" ≠ "" then n.textAt "command"
  else "(unnamed)"

def startupOf (text : String) : Option Startup :=
  [("", .unset), ("enabled", .enabled), ("disabled", .disabled), ("oneshot", .oneshot),
    ("scheduled", .scheduled)].lookup text

/-- A template that comes out empty disables the process. A value that came out
of a template is not part of the error. -/
def parseStartup (ctx : LoadContext) (n : Node Bytes) : Except ProcessError Startup :=
  let raw := n.textAt "startup"
  match expandRefs ctx.files ctx.env raw.toList with
  | .error error => .error ⟨nodeLabel n, .startupTemplate error⟩
  | .ok expanded =>
    let trimmed := trimSpace (String.ofList expanded)
    let startup :=
      if trimmed = "" ∧ contains raw.toList openBraces then "disabled" else trimmed
    match startupOf startup with
    | some startup => .ok startup
    | none =>
      if raw ≠ startup then .error ⟨nodeLabel n, .startupExpanded raw⟩
      else .error ⟨nodeLabel n, .startup startup⟩

def readProcess (n : Node Bytes) (startup : Startup) : Process where
  userID := n.intAt "user-id"
  groupID := n.intAt "group-id"
  environment := n.textMapAt "environment"
  onCheckFailure := n.textMapAt "on-check-failure"
  passEnv := n.optionalFlagAt "pass-env"
  logCapture := n.optionalFlagAt "log-capture"
  exportSocket := n.optionalFlagAt "export-socket"
  name := n.textAt "name"
  command := n.textAt "command"
  workingDir := n.textAt "working-dir"
  user := n.textAt "user"
  group := n.textAt "group"
  startup
  stopSignal := n.textAt "stop-signal"
  killDelay := n.textAt "kill-delay"
  onSuccess := n.textAt "on-success"
  onFailure := n.textAt "on-failure"
  backoffDelay := n.textAt "backoff-delay"
  backoffLimit := n.textAt "backoff-limit"
  readyCheck := n.textAt "ready-check"
  readyTimeout := n.textAt "ready-timeout"
  startupTimeout := n.textAt "startup-timeout"
  schedule := n.textAt "schedule"
  conditionFileExists := n.textAt "condition-file-exists"
  conditionFileMissing := n.textAt "condition-file-missing"
  umask := n.textAt "umask"
  dotEnv := n.textAt "dotenv"
  prefixText := n.textAt "prefix"
  sdNotifyTimeout := n.textAt "sd-notify-timeout"
  parentDeathSignal := n.textAt "parent-death-signal"
  exitCodeMap := ∅
  signalRewrite := ∅
  args := n.textsAt "args"
  after := n.textsAt "after"
  before := n.textsAt "before"
  requires := n.textsAt "requires"
  removeEnv := n.textsAt "remove-env"
  backoffFactor := .finite 0
  useEntrypointArgs := n.flagAt "use-entrypoint-args"
  sdNotify := n.flagAt "sd-notify"
  strictGroups := n.flagAt "strict-groups"
  dotEnvFollow := n.flagAt "dotenv-follow"
  restartWithDependents := n.flagAt "restart-with-dependents"

def demand (condition : Bool) (fault : ProcessFault) : Except ProcessFault Unit :=
  if condition then .ok () else .error fault

/-- The file conditions are absolute paths, and not the same one twice. -/
def checkConditionFiles (order : List (String × String) → List (String × String))
    (p : Process) : Except ProcessFault Unit := do
  (order [("condition-file-exists", p.conditionFileExists),
      ("condition-file-missing", p.conditionFileMissing)]).forM fun entry =>
    demand (entry.2 = "" || isAbs entry.2) (.relativePath entry.1 entry.2)
  demand (p.conditionFileExists = "" || p.conditionFileExists ≠ p.conditionFileMissing)
    (.sameCondition p.conditionFileExists)

/-- `requireMapping`; a list is reported without its text. -/
def requireMapping (n : Node Bytes) (key : String) : Except ProcessFault Unit :=
  match n.get key with
  | none | some (.mapping _) => .ok ()
  | some (.scalar s) => .error (.notMapping key (some (decodeText s)))
  | some (.sequence _) => .error (.notMapping key none)

def conditionEnv (n : Node Bytes) : GoMap String String :=
  n.textMapAt "condition-env-equals"

def checkConditionEnv (order : List (String × String) → List (String × String))
    (n : Node Bytes) : Except ProcessFault Unit := do
  requireMapping n "condition-env-equals"
  (order (conditionEnv n).entries).forM fun entry =>
    demand (isValidEnvKey entry.1) (.conditionKey entry.1)

def readExitCodeMap (order : List (String × String) → List (String × String))
    (n : Node Bytes) : Except ProcessFault (GoMap Int Int) := do
  requireMapping n "exit-code-map"
  match parseExitCodeMap (order (n.textMapAt "exit-code-map").entries) with
  | .ok m => pure m
  | .error error => .error (.exitCodeMap error)

def canonicalEntry (m : GoMap String String) (entry : String × String) :
    Except ProcessFault (GoMap String String) :=
  match parseSignal entry.1 with
  | none => .error (.signalSource entry.1)
  | some source =>
    match parseSignal entry.2 with
    | none => .error (.signalTarget entry.2)
    | some target => .ok (m.insert (signalName source) (signalName target))

def readSignalRewrite (order : List (String × String) → List (String × String))
    (n : Node Bytes) : Except ProcessFault (GoMap String String) :=
  (order (n.textMapAt "signal-rewrite").entries).foldlM canonicalEntry ∅

/-- `ParseUmask`. -/
def validUmask (text : String) : Bool :=
  match parseUint 8 32 text with
  | some mask => mask ≤ 511
  | none => false

def checkSettings (p : Process) : Except ProcessFault Unit := do
  demand (p.umask = "" || validUmask p.umask) (.umask p.umask)
  demand (p.parentDeathSignal = "" || (parseSignal p.parentDeathSignal).isSome)
    (.parentDeathSignal p.parentDeathSignal)
  match parseDuration p.sdNotifyTimeout with
  | .ok _ => pure ()
  | .error error =>
    demand (p.sdNotifyTimeout = "") (.sdNotifyTimeout p.sdNotifyTimeout error)

def readBackoffFactor (ctx : LoadContext) (n : Node Bytes) : Except ProcessFault Float64 :=
  let raw := n.textAt "backoff-factor"
  if raw = "" then .ok (.finite 0)
  else
    match ctx.parseFloat raw with
    | some (.finite value) => if 0 < value then .ok (.finite value) else .error (.backoffFactor raw)
    | _ => .error (.backoffFactor raw)

/-- The part of `parseProcess` behind the start mode, whose errors carry the name
of the process. -/
def readSettings (ctx : LoadContext) (order : MapLoop → List (String × String) →
    List (String × String)) (n : Node Bytes) (p : Process) : Except ProcessFault Process := do
  checkConditionFiles (order .conditionFiles) p
  checkConditionEnv (order .conditionEnv) n
  let exitCodeMap ← readExitCodeMap (order .exitCodeMap) n
  let signalRewrite ← readSignalRewrite (order .signalRewrite) n
  checkSettings p
  let backoffFactor ← readBackoffFactor ctx n
  pure { p with exitCodeMap, signalRewrite, backoffFactor }

def parseProcess (ctx : LoadContext) (order : MapLoop → List (String × String) →
    List (String × String)) (n : Node Bytes) : Except ProcessError Process := do
  let startup ← parseStartup ctx n
  let p := readProcess n startup
  match readSettings ctx order n p with
  | .ok p => pure p
  | .error fault => .error ⟨p.procName, fault⟩

/-- Whether the process exists in this load: no key of its condition has another
value in the environment, where an unset variable is empty. The order only
matters for the reason that is logged. -/
def conditionEnvMet (ctx : LoadContext) (n : Node Bytes) : Bool :=
  (conditionEnv n).entries.all fun entry => (ctx.env.lookup entry.1).getD "" = entry.2

inductive CheckParseError where
  | threshold (text : String)
  | tcpPort (text : String)
  deriving DecidableEq

def parseNumber (error : String → CheckParseError) (text : String) :
    Except CheckParseError Int :=
  if text = "" then .ok 0
  else
    match atoi text with
    | some value => .ok value
    | none => .error (error text)

def parseCheck (ctx : LoadContext) (n : Node Bytes) : Except CheckParseError CheckConfig := do
  let threshold ← parseNumber .threshold (n.textAt "threshold")
  let tcp ←
    match n.get "tcp" with
    | none => pure none
    | some tcp => do
        let port ← parseNumber .tcpPort (tcp.textAt "port")
        pure (some (⟨tcp.textAt "host", port⟩ : TcpCheck))
  pure {
    http := (n.get "http").map fun http =>
      ⟨http.textAt "url", http.textAt "socket", ctx.requestable (http.textAt "url")⟩
    tcp
    exec := (n.get "exec").map fun exec => ⟨exec.textAt "command", exec.textsAt "args"⟩
    period := n.textAt "period"
    timeout := n.textAt "timeout"
    initialDelay := n.textAt "initial-delay"
    threshold }

inductive UnmarshalError where
  | yaml (error : ParseError)
  | initStopSignal (text : String)
  | uncatchable (text : String)
  | shutdownOrder (text : String)
  | socketMode (text : String)
  | process (error : ProcessError)
  | check (name : String) (error : CheckParseError)
  | load (error : LoadError)
  deriving DecidableEq

def checkStopSignal (text : String) : Except UnmarshalError Unit :=
  match parseSignal text with
  | none => .error (.initStopSignal text)
  | some signal => if signal = 9 ∨ signal = 19 then .error (.uncatchable text) else .ok ()

def parseShutdownOrder (text : String) : Except UnmarshalError ShutdownMode :=
  match [("", .unset), ("reverse-dep", .reverseDep), ("dep", .dep),
      ("simultaneous", .simultaneous)].lookup text with
  | some mode => .ok mode
  | none => .error (.shutdownOrder text)

def checkSocketMode (root : Node Bytes) : Except UnmarshalError Unit :=
  match root.get "control" with
  | none => .ok ()
  | some control =>
    let mode := control.textAt "socket-mode"
    if mode = "" ∨ (parseUint 8 32 mode).isSome then .ok () else .error (.socketMode mode)

/-- What a process leaves open is taken from the top of the document. -/
def inheritDefaults (root : Node Bytes) (p : Process) : Process :=
  { p with
    passEnv := p.passEnv.or (root.optionalFlagAt "pass-env")
    logCapture := p.logCapture.or (root.optionalFlagAt "log-capture")
    exportSocket := p.exportSocket.or (root.optionalFlagAt "export-socket") }

structure Entry where
  process : Process
  met : Bool
  deriving DecidableEq

def readEntry (ctx : LoadContext) (order : MapOrder) (root : Node Bytes)
    (item : Node Bytes × Nat) : Except ProcessError Entry := do
  let p ← parseProcess ctx (order.order item.2) item.1
  pure ⟨inheritDefaults root p, conditionEnvMet ctx item.1⟩

def readEntries (ctx : LoadContext) (order : MapOrder) (root : Node Bytes) :
    Except ProcessError (List Entry) :=
  (root.itemsAt "processes").zipIdx.mapM (readEntry ctx order root)

def parseChecks (ctx : LoadContext) (root : Node Bytes) :
    Except UnmarshalError (GoMap String CheckConfig) :=
  (root.entriesAt "checks").foldlM (fun checks entry =>
    match parseCheck ctx entry.2 with
    | .ok check => .ok (checks.insert entry.1 check)
    | .error error => .error (.check entry.1 error)) ∅

def excludedNames (entries : List Entry) : List String :=
  (entries.filter fun entry => !entry.met).map fun entry => entry.process.procName

def parseSettings (ctx : LoadContext) (order : MapOrder) (root : Node Bytes) :
    Except UnmarshalError Parsed := do
  let initStopSignal := root.textsAt "init-stop-signal"
  initStopSignal.forM checkStopSignal
  let shutdownOrder ← parseShutdownOrder (root.textAt "shutdown-order")
  checkSocketMode root
  let entries ← (readEntries ctx order root).mapError .process
  let checks ← parseChecks ctx root
  pure {
    processes := entries.map Entry.process
    excluded := excludedNames entries
    checks
    shutdownOrder
    initStopSignal
    globalPrefix := root.textAt "prefix"
    subreaper := root.flagAt "subreaper" }

def unmarshal (ctx : LoadContext) (order : MapOrder) (data : Bytes) :
    Except UnmarshalError Config := do
  let root ← (parse data).mapError .yaml
  let parsed ← parseSettings ctx order root
  parsed.load.mapError .load

end Gopherd
