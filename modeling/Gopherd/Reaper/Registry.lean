import Gopherd.Service.Observe
import Gopherd.Service.Service

/-!
The registry that routes the exit statuses of exec probes, and the system
around it: any number of calls of `checkExecReaped`, the reap loop, and a
kernel that may hand out a pid again as soon as its process has been reaped.
-/

namespace Gopherd.Reaper

open Go

/-- A call of `checkExecReaped`; it also names the channel `Start` makes for it. -/
abbrev CallId := Nat

inductive Owner where
  | probe (call : CallId)
  | service
  | orphan
  deriving DecidableEq

structure Child where
  owner : Owner
  exit : Option Int
  deriving DecidableEq

structure Status where
  code : Int
  owner : Owner
  deriving DecidableEq

structure Registry where
  waiters : GoMap Pid CallId
  buffer : CallId → Option Status

namespace Registry

/-- What `Start` does once the fork has given it a pid. -/
def start (r : Registry) (pid : Pid) (k : CallId) : Registry :=
  { r with waiters := r.waiters.insert pid k }

def deliver (r : Registry) (pid : Pid) (status : Status) : Registry × Bool :=
  match r.waiters.lookup pid with
  | some k =>
    (⟨r.waiters.erase pid, Function.update r.buffer k (some status)⟩, true)
  | none => (r, false)

def forget (r : Registry) (pid : Pid) : Registry :=
  { r with waiters := r.waiters.erase pid }

def receive (r : Registry) (k : CallId) : Registry :=
  { r with buffer := Function.update r.buffer k none }

variable (r : Registry) (pid p : Pid) (k j : CallId) (status : Status)

@[grind =] theorem start_waiters :
    (r.start pid k).waiters.lookup p = if p = pid then some k else r.waiters.lookup p :=
  GoMap.lookup_insert ..

@[grind =] theorem start_buffer : (r.start pid k).buffer = r.buffer := rfl

@[grind =] theorem forget_buffer : (r.forget pid).buffer = r.buffer := rfl

@[grind =] theorem receive_waiters : (r.receive k).waiters = r.waiters := rfl

@[grind =] theorem forget_waiters :
    (r.forget pid).waiters.lookup p = if p = pid then none else r.waiters.lookup p :=
  GoMap.lookup_erase ..

@[grind =] theorem receive_buffer :
    (r.receive k).buffer j = if j = k then none else r.buffer j :=
  Function.update_apply ..

@[grind =] theorem deliver_waiters : (r.deliver pid status).1.waiters.lookup p =
    if p = pid then none else r.waiters.lookup p := by
  unfold deliver
  split
  · exact GoMap.lookup_erase ..
  · next hnone =>
      split_ifs with hp
      · exact hp ▸ hnone
      · rfl

@[grind =] theorem deliver_buffer : (r.deliver pid status).1.buffer j =
    if r.waiters.lookup pid = some j then some status else r.buffer j := by
  unfold deliver
  split
  · next k hk => simp [hk, Function.update_apply, eq_comm]
  · next hnone => simp [hnone]

end Registry

inductive Outcome where
  | notStarted
  | status (status : Status) (killed : Bool)
  | lost
  deriving DecidableEq

/-- What `observe` makes of the error that `checkExecReaped` returns. After the
kill only a clean exit counts as a success. -/
def Outcome.result : Outcome → ProbeResult
  | .notStarted => .failure
  | .status ⟨code, _⟩ _ => if code = 0 then .success else .failure
  | .lost => .inconclusive

inductive CallPc where
  | idle
  | registered (pid : Pid)
  | waiting (pid : Pid) (killed : Bool)
  | returned (pid : Pid) (outcome : Outcome)
  | done (outcome : Outcome)
  deriving DecidableEq

@[grind] def CallPc.outcome : CallPc → Option Outcome
  | .returned _ outcome | .done outcome => some outcome
  | _ => none

/-- The pid of the process whose status the call waits for. -/
@[grind] def CallPc.awaited : CallPc → Option Pid
  | .registered pid | .waiting pid _ => some pid
  | _ => none

@[grind] def CallPc.owned : CallPc → Option Pid
  | .registered pid | .waiting pid _ | .returned pid _ => some pid
  | _ => none

inductive LoopPc where
  | wait4
  | asleep
  | reaped (pid : Pid) (status : Status)
  | unmanaged (pid : Pid) (status : Status)
  deriving DecidableEq

@[grind] def LoopPc.held : LoopPc → Option Pid
  | .reaped pid _ | .unmanaged pid _ => some pid
  | .wait4 | .asleep => none

@[grind] def LoopPc.owner : LoopPc → Option Owner
  | .reaped _ status | .unmanaged _ status => some status.owner
  | .wait4 | .asleep => none

@[grind] def LoopPc.lookedUp : LoopPc → Option Pid
  | .reaped pid _ => some pid
  | _ => none

structure State where
  registry : Registry
  starting : Option (CallId × Pid)
  calls : CallId → CallPc
  children : GoMap Pid Child
  pidMap : Finset Pid
  loop : LoopPc
  childStarted : Bool
  waking : List Pid

inductive Action where
  | fork (k : CallId) (pid : Pid)
  | forkFails (k : CallId)
  | register
  | wake (k : CallId)
  | receive (k : CallId)
  | deadline (k : CallId)
  | giveUp (k : CallId)
  | forget (k : CallId)
  | exit (pid : Pid) (code : Int)
  | startService (pid : Pid)
  | wakeService (pid : Pid)
  | adopt (pid : Pid)
  | wait4 (pid : Pid)
  | echild
  | woken
  | poll
  | lookup
  | deliver
  deriving DecidableEq

namespace State

inductive Step (x : State) : Action → State → Prop
  | fork {k pid} (hlock : x.starting = none) (hidle : x.calls k = .idle)
      (hfree : x.children.lookup pid = none) :
      Step x (.fork k pid) { x with
        starting := some (k, pid), children := x.children.insert pid ⟨.probe k, none⟩ }
  | forkFails {k} (hlock : x.starting = none) (hidle : x.calls k = .idle) :
      Step x (.forkFails k) { x with calls := Function.update x.calls k (.done .notStarted) }
  | register {k pid} (hstart : x.starting = some (k, pid)) :
      Step x .register { x with
        starting := none
        registry := x.registry.start pid k
        calls := Function.update x.calls k (.registered pid) }
  | wake {k pid} (hcall : x.calls k = .registered pid) :
      Step x (.wake k) { x with
        childStarted := true, calls := Function.update x.calls k (.waiting pid false) }
  | receive {k pid killed status} (hcall : x.calls k = .waiting pid killed)
      (hfull : x.registry.buffer k = some status) :
      Step x (.receive k) { x with
        registry := x.registry.receive k
        calls := Function.update x.calls k (.returned pid (.status status killed)) }
  | deadline {k pid} (hcall : x.calls k = .waiting pid false) :
      Step x (.deadline k) { x with calls := Function.update x.calls k (.waiting pid true) }
  | giveUp {k pid} (hcall : x.calls k = .waiting pid true) :
      Step x (.giveUp k) { x with calls := Function.update x.calls k (.returned pid .lost) }
  | forget {k pid outcome} (hlock : x.starting = none)
      (hcall : x.calls k = .returned pid outcome) :
      Step x (.forget k) { x with
        registry := x.registry.forget pid, calls := Function.update x.calls k (.done outcome) }
  | exit {pid code owner} (hchild : x.children.lookup pid = some ⟨owner, none⟩) :
      Step x (.exit pid code) { x with children := x.children.insert pid ⟨owner, some code⟩ }
  | startService {pid} (hfree : x.children.lookup pid = none) :
      Step x (.startService pid) { x with
        children := x.children.insert pid ⟨.service, none⟩
        pidMap := insert pid x.pidMap
        waking := pid :: x.waking }
  | wakeService {pid} (hwaking : pid ∈ x.waking) :
      Step x (.wakeService pid) { x with waking := x.waking.erase pid, childStarted := true }
  | adopt {pid} (hfree : x.children.lookup pid = none) :
      Step x (.adopt pid) { x with children := x.children.insert pid ⟨.orphan, none⟩ }
  | wait4 {pid owner code} (hloop : x.loop = .wait4)
      (hchild : x.children.lookup pid = some ⟨owner, some code⟩) :
      Step x (.wait4 pid)
        { x with children := x.children.erase pid, loop := .reaped pid ⟨code, owner⟩ }
  | echild (hloop : x.loop = .wait4) (hempty : x.children.isEmpty = true) :
      Step x .echild { x with loop := .asleep }
  | woken (hloop : x.loop = .asleep) (hsignal : x.childStarted = true) :
      Step x .woken { x with childStarted := false, loop := .wait4 }
  | poll (hloop : x.loop = .asleep) : Step x .poll { x with loop := .wait4 }
  | managed {pid status} (hloop : x.loop = .reaped pid status) (hmem : pid ∈ x.pidMap) :
      Step x .lookup { x with pidMap := x.pidMap.erase pid, loop := .wait4 }
  | unmanaged {pid status} (hloop : x.loop = .reaped pid status) (hmem : pid ∉ x.pidMap) :
      Step x .lookup { x with loop := .unmanaged pid status }
  | deliver {pid status} (hlock : x.starting = none) (hloop : x.loop = .unmanaged pid status) :
      Step x .deliver { x with registry := (x.registry.deliver pid status).1, loop := .wait4 }

structure Begins (x : State) : Prop where
  waiters : ∀ pid, x.registry.waiters.lookup pid = none
  buffer : ∀ k, x.registry.buffer k = none
  starting : x.starting = none
  calls : ∀ k, x.calls k = .idle
  pidMap : ∀ pid ∈ x.pidMap, ∃ exit, x.children.lookup pid = some ⟨.service, exit⟩
  loop : x.loop = .wait4

def Reached (ok : State → Action → Prop) (x : State) : Prop :=
  ∃ start : State, start.Begins ∧
    Relation.ReflTransGen (fun x y => ∃ action, ok x action ∧ Step x action y) start x

theorem Reached.invariant {holds : State → Prop} (hreached : Reached ok x)
    (hinit : ∀ x : State, x.Begins → holds x)
    (hstep : ∀ x action y, holds x → ok x action → Step x action y → holds y) : holds x := by
  obtain ⟨start, hstart, hrun⟩ := hreached
  induction hrun with
  | refl => exact hinit start hstart
  | tail _ hnext ih =>
    obtain ⟨action, hok, hstep'⟩ := hnext
    exact hstep _ action _ ih hok hstep'

theorem Begins.reached (h : Begins x) : Reached ok x := ⟨x, h, .refl⟩

theorem Reached.next (h : Reached ok x) (hstep : Step x action y) (hok : ok x action) :
    Reached ok y := by
  obtain ⟨start, hstart, hrun⟩ := h
  exact ⟨start, hstart, hrun.tail ⟨action, hok, hstep⟩⟩

variable {x y : State}

/-- The goroutine that forked the process has yet to send its signal: the probe is
about to register the pid or to wake the loop, or `startService` is about to. -/
@[grind] def Unsent (x : State) (pid : Pid) : Owner → Prop
  | .probe k => x.starting = some (k, pid) ∨ x.calls k = .registered pid
  | .service => pid ∈ x.waking
  | .orphan => False

structure Awake (x : State) : Prop where
  idle : ∀ k pid, x.starting = some (k, pid) → x.calls k = .idle
  noticed : x.loop = .asleep → ∀ pid child, x.children.lookup pid = some child →
    child.owner ≠ .orphan → x.childStarted = true ∨ x.Unsent pid child.owner

theorem Awake.idle_step (h : Awake x) (hstep : Step x action y) :
    ∀ k pid, y.starting = some (k, pid) → y.calls k = .idle := by
  have hidle := h.idle
  cases hstep <;> grind [Function.update_apply]

theorem Awake.noticed_step (h : Awake x) (hstep : Step x action y) (hloop : y.loop = .asleep)
    {pid : Pid} {child : Child} (hchild : y.children.lookup pid = some child)
    (howner : child.owner ≠ .orphan) : y.childStarted = true ∨ y.Unsent pid child.owner := by
  have hidle := h.idle
  -- A step that neither forks nor wakes the loop finds the process as it was.
  have hbefore : x.loop = .asleep → x.children.lookup pid = some child →
      x.childStarted = true ∨ x.Unsent pid child.owner :=
    fun hloop hchild => h.noticed hloop pid child hchild howner
  cases child with
  | mk owner exit =>
      cases hstep with
      | wake => exact .inl rfl
      | wakeService => exact .inl rfl
      | exit hold =>
          have hnoticed := h.noticed hloop
          cases owner <;> grind [GoMap.lookup_insert]
      | echild _ hempty => grind [GoMap.isEmpty_iff]
      | wait4 | woken | poll | managed | unmanaged | deliver => cases hloop
      | _ => cases owner <;> grind [GoMap.lookup_insert, Function.update_apply]

/-- No wake-up is lost: in every run, when the reap loop sleeps although a process
that a probe or a service has forked is there, a signal waits in the channel or
the goroutine that forked this very process has yet to send one. -/
theorem sleep_never_misses_child {pid : Pid} {child : Child}
    (hreached : Reached (fun _ _ => True) x) (hloop : x.loop = .asleep)
    (hchild : x.children.lookup pid = some child) (howner : child.owner ≠ .orphan) :
    x.childStarted = true ∨ x.Unsent pid child.owner := by
  have hawake : Awake x := by
    refine hreached.invariant (fun start hstart => ⟨?_, ?_⟩) fun _ _ _ h _ hstep =>
      ⟨h.idle_step hstep, fun hloop _ _ => h.noticed_step hstep hloop⟩
    · intro k pid hstarting
      rw [hstart.starting] at hstarting
      cases hstarting
    · intro hasleep
      rw [hstart.loop] at hasleep
      cases hasleep
  exact hawake.noticed hloop pid child hchild howner

def blank : State where
  registry := ⟨∅, fun _ => none⟩
  starting := none
  calls := fun _ => .idle
  children := ∅
  pidMap := ∅
  loop := .wait4
  childStarted := false
  waking := []

theorem begins_blank : blank.Begins where
  waiters _ := GoMap.lookup_empty _
  buffer _ := rfl
  starting := rfl
  calls _ := rfl
  pidMap _ h := absurd h (Finset.notMem_empty _)
  loop := rfl

/-- A service and then a probe are forked while the loop sleeps, and neither has sent its
signal yet. -/
theorem sleeping_loop_is_signalled : ∃ x : State, x.loop = .asleep ∧ x.childStarted = false ∧
    x.children.lookup 5 = some ⟨.service, none⟩ ∧ x.children.lookup 6 = some ⟨.probe 0, none⟩ ∧
    (x.childStarted = true ∨ x.Unsent 5 .service) ∧
    (x.childStarted = true ∨ x.Unsent 6 (.probe 0)) := by
  have hreached : Reached (fun _ _ => True) _ := begins_blank.reached
    |>.next (.echild rfl rfl) trivial
    |>.next (@Step.startService _ 5 rfl) trivial
    |>.next (@Step.fork _ 0 6 rfl rfl rfl) trivial
  exact ⟨_, rfl, rfl, rfl, rfl,
    @sleep_never_misses_child _ 5 ⟨.service, none⟩ hreached rfl rfl (by decide),
    @sleep_never_misses_child _ 6 ⟨.probe 0, none⟩ hreached rfl rfl (by decide)⟩

end State

end Gopherd.Reaper
