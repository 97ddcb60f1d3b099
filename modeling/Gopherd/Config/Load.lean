import Gopherd.Cron.Schedule
import Gopherd.Order.Topo
import Gopherd.Service.Check
import Gopherd.Service.Process

/-!
The checks that `yml.Unmarshal` makes on the parsed processes, and the removal
of the processes that their own condition excludes.
-/

namespace Gopherd

open Go

inductive LoadError where
  | noProcesses
  | commandRequired (name : String)
  | whitespaceName (name : String)
  | onSuccess (name text : String)
  | onFailure (name text : String)
  | stopSignal (name text : String)
  | onCheckFailure (name check text : String)
  | reservedSignal (name key : String)
  | scheduleRequired (name : String)
  | schedule (name : String) (error : Cron.ParseError)
  | scheduledOnSuccess (name : String)
  | scheduledOnFailure (name : String)
  | scheduledBackoff (name : String)
  | scheduledOrder (name : String)
  | startupTimeout (name text : String)
  | straySchedule (name : String)
  | orderAgainstScheduled (name dep : String)
  deriving DecidableEq

def require (condition : Bool) (error : LoadError) : Except LoadError Unit :=
  if condition then .ok () else .error error

/-- A process under the scheduled contract: `startup: scheduled`, or disabled
with a schedule that a gate may switch on later. -/
def Process.carriesSchedule (p : Process) : Bool :=
  p.startup = .scheduled || (p.startup = .disabled && p.schedule ≠ "")

def scheduledSet (processes : List Process) : List String :=
  (processes.filter Process.carriesSchedule).map Process.procName

def validateSchedule (p : Process) : Except LoadError Unit := do
  require (p.schedule ≠ "") (.scheduleRequired p.procName)
  match Cron.parse p.schedule with
  | .error error => .error (.schedule p.procName error)
  | .ok _ => pure ()
  require (p.onSuccess = "") (.scheduledOnSuccess p.procName)
  require (p.onFailure = "") (.scheduledOnFailure p.procName)
  require (p.backoffDelay = "" && p.backoffLimit = "") (.scheduledBackoff p.procName)
  require (p.after = [] && p.before = [] && p.requires = []) (.scheduledOrder p.procName)
  require (p.startupTimeout = "" || (parseDuration p.startupTimeout).isOk)
    (.startupTimeout p.procName p.startupTimeout)

def validateScheduled (p : Process) (scheduled : List String) : Except LoadError Unit := do
  if p.carriesSchedule then validateSchedule p
  else require (p.schedule = "") (.straySchedule p.procName)
  match (p.after ++ p.before ++ p.requires).find? (· ∈ scheduled) with
  | some dep => .error (.orderAgainstScheduled p.procName dep)
  | none => pure ()

theorem require_eq_ok : require condition error = .ok () ↔ condition = true := by
  cases condition <;> simp [require]

/-- An accepted process with a schedule is scheduled or disabled and leaves
its exit actions out. -/
theorem validateScheduled_ok (hok : validateScheduled p scheduled = .ok ())
    (hschedule : p.schedule ≠ "") :
    (p.startup = .scheduled ∨ p.startup = .disabled) ∧ p.onSuccess = "" ∧ p.onFailure = "" := by
  unfold validateScheduled at hok
  split_ifs at hok with hcarries
  · obtain ⟨_, hcontract, -⟩ := Except.bind_eq_ok.mp hok
    unfold validateSchedule at hcontract
    obtain ⟨_, -, hcontract⟩ := Except.bind_eq_ok.mp hcontract
    split at hcontract
    · cases hcontract
    · obtain ⟨_, hsuccess, hcontract⟩ := Except.bind_eq_ok.mp hcontract
      obtain ⟨_, hfailure, -⟩ := Except.bind_eq_ok.mp hcontract
      refine ⟨?_, by simpa using require_eq_ok.mp hsuccess,
        by simpa using require_eq_ok.mp hfailure⟩
      simp only [Process.carriesSchedule, Bool.or_eq_true, Bool.and_eq_true,
        decide_eq_true_eq] at hcarries
      exact hcarries.imp_right And.left
  · obtain ⟨_, hnone, -⟩ := Except.bind_eq_ok.mp hok
    exact absurd (by simpa using require_eq_ok.mp hnone) hschedule

/-- A rewritten signal must not be one that gopherd reacts to itself. -/
def validateSignalRewrite (p : Process) (shutdownSignals : List Signal) :
    Except LoadError Unit :=
  match p.signalRewrite.keys.find?
      (fun key => key = "SIGHUP" || key ∈ shutdownSignals.map signalName) with
  | some key => .error (.reservedSignal p.procName key)
  | none => .ok ()

def hasWhitespace (name : String) : Bool :=
  name.toList.any (· ∈ [' ', '\t', '\r', '\n', '\x0b', '\x0c'])

def validateProcess (shutdownSignals : List Signal) (scheduled : List String)
    (p : Process) : Except LoadError Unit := do
  require (p.command ≠ "")
    (.commandRequired (if p.procName = "" then "(unnamed)" else p.procName))
  require (!hasWhitespace p.procName) (.whitespaceName p.procName)
  require (validExitAction p.onSuccess) (.onSuccess p.procName p.onSuccess)
  require (validExitAction p.onFailure) (.onFailure p.procName p.onFailure)
  require (p.stopSignal = "" || (parseSignal p.stopSignal).isSome)
    (.stopSignal p.procName p.stopSignal)
  match p.onCheckFailure.entries.find? (fun entry => !validExitAction entry.2) with
  | some entry => .error (.onCheckFailure p.procName entry.1 entry.2)
  | none => pure ()
  validateSignalRewrite p shutdownSignals
  validateScheduled p scheduled

/-- `excludeProcesses`: drops the named processes and every edge to them. -/
def excludeProcesses (excluded : List String) (processes : List Process) : List Process :=
  let strip := fun (deps : List String) => deps.filter (· ∉ excluded)
  (processes.filter (fun p => p.procName ∉ excluded)).map fun p =>
    { p with after := strip p.after, before := strip p.before, requires := strip p.requires }

inductive ShutdownMode where
  | unset
  | reverseDep
  | dep
  | simultaneous
  deriving DecidableEq

structure Parsed where
  processes : List Process
  excluded : List String
  checks : GoMap String CheckConfig
  shutdownOrder : ShutdownMode
  initStopSignal : List String
  globalPrefix : String
  subreaper : Bool
  deriving DecidableEq

structure Config where
  processes : List Process
  checks : GoMap String CheckConfig
  shutdownOrder : ShutdownMode
  initStopSignal : List String
  globalPrefix : String
  subreaper : Bool
  deriving DecidableEq

/-- `ShutdownSignals`: SIGTERM and SIGINT unless `init-stop-signal` is set. -/
def shutdownSignals (initStopSignal : List String) : List Signal :=
  if initStopSignal = [] then [15, 2] else initStopSignal.filterMap parseSignal

def checkUsers (processes : List Process) (check : String) : List String :=
  (processes.filter (fun p => check ∈ p.onCheckFailure.keys ||
    (p.readyCheck ≠ "" && p.readyCheck = check))).map Process.procName

/-- `excludeOrphanedChecks`: drops the checks that only excluded processes
refer to. -/
def excludeOrphanedChecks (excluded : List String) (processes : List Process)
    (checks : GoMap String CheckConfig) : GoMap String CheckConfig :=
  (checks.keys.filter fun check =>
    checkUsers processes check ≠ [] && (checkUsers processes check).all (· ∈ excluded)).foldl
      (fun checks check => checks.erase check) checks

/-- The rest of `Unmarshal` once the settings are parsed: every process is
validated, also those about to be excluded. -/
def Parsed.load (parsed : Parsed) : Except LoadError Config := do
  require (parsed.processes ≠ []) .noProcesses
  parsed.processes.forM (validateProcess (shutdownSignals parsed.initStopSignal)
    (scheduledSet parsed.processes))
  pure {
    processes := excludeProcesses parsed.excluded parsed.processes
    checks := excludeOrphanedChecks parsed.excluded parsed.processes parsed.checks
    shutdownOrder := parsed.shutdownOrder
    initStopSignal := parsed.initStopSignal
    globalPrefix := parsed.globalPrefix
    subreaper := parsed.subreaper }

theorem exists_load {parsed : Parsed} (hsome : parsed.processes ≠ [])
    (hvalid : ∀ p ∈ parsed.processes, validateProcess (shutdownSignals parsed.initStopSignal)
      (scheduledSet parsed.processes) p = .ok ()) : ∃ cfg, parsed.load = .ok cfg := by
  have hrequire : require (parsed.processes ≠ []) .noProcesses = .ok () :=
    require_eq_ok.mpr (by simpa using hsome)
  unfold Parsed.load
  rw [hrequire, Except.forM_eq_ok.mpr hvalid]
  exact ⟨_, rfl⟩

/-- Every process of a loaded configuration was validated, before the edges to
excluded processes were dropped. -/
theorem load_validated {parsed : Parsed} (hload : parsed.load = .ok cfg) (hp : p ∈ cfg.processes) :
    ∃ q, validateProcess (shutdownSignals parsed.initStopSignal)
        (scheduledSet parsed.processes) q = .ok () ∧
      p = { q with after := p.after, before := p.before, requires := p.requires } := by
  obtain ⟨_, -, hload⟩ := Except.bind_eq_ok.mp hload
  obtain ⟨_, hvalid, hload⟩ := Except.bind_eq_ok.mp hload
  obtain rfl := Except.pure_eq_ok.mp hload
  obtain ⟨q, hq, rfl⟩ := List.mem_map.mp hp
  exact ⟨q, Except.forM_eq_ok.mp hvalid q (List.mem_filter.mp hq).1, rfl⟩

theorem validateProcess_scheduled (hok : validateProcess signals scheduled p = .ok ()) :
    validateScheduled p scheduled = .ok () := by
  unfold validateProcess at hok
  obtain ⟨_, -, hok⟩ := Except.bind_eq_ok.mp hok
  obtain ⟨_, -, hok⟩ := Except.bind_eq_ok.mp hok
  obtain ⟨_, -, hok⟩ := Except.bind_eq_ok.mp hok
  obtain ⟨_, -, hok⟩ := Except.bind_eq_ok.mp hok
  obtain ⟨_, -, hok⟩ := Except.bind_eq_ok.mp hok
  split at hok
  · cases hok
  · obtain ⟨_, -, hok⟩ := Except.bind_eq_ok.mp hok
    exact hok

theorem load_schedule {parsed : Parsed} (hload : parsed.load = .ok cfg) (hp : p ∈ cfg.processes)
    (hschedule : p.schedule ≠ "") :
    (p.startup = .scheduled ∨ p.startup = .disabled) ∧ p.onSuccess = "" ∧ p.onFailure = "" := by
  obtain ⟨q, hvalid, heq⟩ := load_validated hload hp
  have hq : q.schedule ≠ "" := by
    rw [heq] at hschedule
    exact hschedule
  have hcontract := validateScheduled_ok (validateProcess_scheduled hvalid) hq
  rw [heq]
  exact hcontract

/-- `buildOrderServices`. -/
def Config.orderNodes (cfg : Config) : List Order.Node :=
  cfg.processes.map fun p => ⟨p.procName, p.after, p.before, p.requires⟩

/-- The checks of `startChecks`; one that `check.New` refuses is left out. -/
def Config.checkers (cfg : Config) : List String :=
  (cfg.checks.entries.filter fun entry => (Checker.new entry.1 entry.2).isOk).map Prod.fst

/-- At most one process may take the entrypoint arguments. -/
def Config.entrypointUnique (cfg : Config) : Bool :=
  (cfg.processes.filter Process.useEntrypointArgs).length ≤ 1

end Gopherd
