import Gopherd.Config.Spellings
import Gopherd.Daemon.Objects

/-!
Signals sent to gopherd. One goroutine runs the loop over the signals that
`run` subscribes to and makes its calls itself, so that a signal waits while
the shutdown or the reload of an earlier one goes on.
-/

namespace Gopherd

open Go Yaml

theorem IsTable.lookup {K : Type} [DecidableEq K] {read : String → Option K} {m : GoMap K K}
    (h : IsTable read raw m) {key value : K} (hentry : m.lookup key = some value) :
    ∃ entry ∈ raw, read entry.1 = some key ∧ read entry.2 = some value := by
  obtain ⟨pairs, hpairs, rfl⟩ := h
  rw [GoMap.lookup_ofList] at hentry
  obtain ⟨pair, hlast, rfl⟩ := Option.map_eq_some_iff.mp hentry
  obtain ⟨hmem, hkey⟩ := List.mem_filter.mp (List.mem_of_getLast? hlast)
  obtain ⟨entry, hraw, hmeans⟩ := Lockstep.exists_left hpairs hmem
  obtain rfl : pair.1 = key := by simpa using hkey
  exact ⟨entry, hraw, hmeans.1, hmeans.2⟩

namespace Service

/-- `Signal`: the process group that is signalled, if there is one. -/
def signal (svc : Service) (signal : Signal) : Option (Pid × Signal) :=
  if svc.running && 0 < svc.pid then some (svc.pid, signal) else none

end Service

namespace Daemon

def subscribed (shutdownSet : List Signal) : List Signal :=
  shutdownSet ++ [1, 10, 12]

inductive SignalEffect where
  | undelivered
  | pending
  | shutdown
  | reload
  | forwarded (kills : List (Pid × Signal))
  deriving DecidableEq

/-- The process groups that are signalled, each with its signal. -/
def SignalEffect.kills : SignalEffect → List (Pid × Signal)
  | .forwarded kills => kills
  | _ => []

end Daemon

end Gopherd
