import Gopherd.Service.Service

/-!
The statistics of the services, kept by name. Only `register` creates an
entry: an event for a name that is not registered changes nothing.
-/

namespace Gopherd.Daemon

open Go

structure Stats where
  skipped : Option SkipReason
  pid : Pid
  restarts : Nat
  exits : Nat
  failures : Nat
  successes : Nat
  up : Bool
  enabled : Bool
  pending : Bool
  everStarted : Bool
  deriving DecidableEq

abbrev Metrics := GoMap String Stats

def Stats.fresh : Stats where
  skipped := none
  pid := 0
  restarts := 0
  exits := 0
  failures := 0
  successes := 0
  up := false
  enabled := true
  pending := false
  everStarted := false

namespace Metrics

/-- An event for `name`, dropped when the name is not registered. -/
def update (m : Metrics) (name : String) (event : Stats → Stats) : Metrics :=
  match m.lookup name with
  | some stats => m.insert name (event stats)
  | none => m

theorem lookup_update (m : Metrics) (name other : String) (event : Stats → Stats) :
    (m.update name event).lookup other =
      if other = name then (m.lookup name).map event else m.lookup other := by
  unfold update
  cases hname : m.lookup name with
  | none =>
    by_cases heq : other = name
    · subst heq
      simp [hname]
    · simp [heq]
  | some stats =>
    rw [GoMap.lookup_insert]
    rfl

/-- `RegisterService`: an entry that exists keeps its counters. -/
def register (m : Metrics) (name : String) (enabled : Bool) : Metrics :=
  let stats := (m.lookup name).getD Stats.fresh
  m.insert name { stats with
    enabled
    pending := stats.pending || (enabled && !stats.everStarted && stats.exits = 0) }

def unregister (m : Metrics) (name : String) : Metrics :=
  m.erase name

def serviceStarted (m : Metrics) (name : String) (pid : Pid) : Metrics :=
  m.update name fun stats =>
    { stats with up := true, pid, pending := false, skipped := none, everStarted := true }

def serviceSkipped (m : Metrics) (name : String) (reason : SkipReason) : Metrics :=
  m.update name fun stats => { stats with skipped := some reason }

def serviceExited (m : Metrics) (name : String) (exitCode : Int) : Metrics :=
  m.update name fun stats => { stats with
    up := false
    pid := 0
    pending := false
    exits := stats.exits + 1
    successes := if exitCode = 0 then stats.successes + 1 else stats.successes
    failures := if exitCode = 0 then stats.failures else stats.failures + 1 }

def serviceRestarted (m : Metrics) (name : String) : Metrics :=
  m.update name fun stats => { stats with restarts := stats.restarts + 1 }

end Metrics

inductive SnapshotState where
  | up
  | disabled
  | skipped (reason : SkipReason)
  | pending
  | stopped
  deriving DecidableEq

structure ServiceSnapshot where
  name : String
  state : SnapshotState
  pid : Pid
  enabled : Bool
  exits : Nat
  restarts : Nat
  successes : Nat
  failures : Nat
  deriving DecidableEq

def Stats.state (stats : Stats) : SnapshotState :=
  if stats.up then .up
  else if !stats.enabled then .disabled
  else
    match stats.skipped with
    | some reason => .skipped reason
    | none => if stats.pending then .pending else .stopped

def Metrics.serviceSnapshot (m : Metrics) (name : String) : Option ServiceSnapshot :=
  (m.lookup name).map fun stats => {
    name
    state := stats.state
    pid := if stats.up then stats.pid else 0
    enabled := stats.enabled
    exits := stats.exits
    restarts := stats.restarts
    successes := stats.successes
    failures := stats.failures }

end Gopherd.Daemon
