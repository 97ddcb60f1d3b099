import Gopherd.Reaper.Registry

/-!
Where the statuses of the probes go. A channel is sent to once, whatever pids
the kernel hands out.
-/

namespace Gopherd.Reaper.State

open Go

variable {x y : State}

structure Single (x : State) : Prop where
  starting : ∀ k pid, x.starting = some (k, pid) → x.calls k = .idle
  idle : ∀ k, x.calls k = .idle → x.registry.buffer k = none ∧
    ∀ pid, x.registry.waiters.lookup pid ≠ some k
  waiters : ∀ pid k, x.registry.waiters.lookup pid = some k → x.registry.buffer k = none ∧
    ∀ status killed, (x.calls k).outcome ≠ some (.status status killed)
  injective : ∀ p q k, x.registry.waiters.lookup p = some k →
    x.registry.waiters.lookup q = some k → p = q

theorem Single.step (h : Single x) (hstep : Step x action y) : Single y := by
  obtain ⟨hstarting, hidle, hwaiters, hinjective⟩ := h
  cases hstep with
  | exit | startService | wakeService | adopt | wait4 | echild | woken | poll | managed
  | unmanaged => exact ⟨hstarting, hidle, hwaiters, hinjective⟩
  | _ => constructor <;> grind [Function.update_apply]

/-- In every run a waiter that `Deliver` finds has an empty channel to which nothing
was sent before, so the send under the lock of the registry never blocks. -/
theorem deliver_never_blocks {pid : Pid} {k : CallId} (hreached : Reached (fun _ _ => True) x)
    (hwaiter : x.registry.waiters.lookup pid = some k) : x.registry.buffer k = none ∧
      ∀ status killed, (x.calls k).outcome ≠ some (.status status killed) := by
  have hsingle : Single x := by
    refine hreached.invariant ?_ fun _ _ _ h _ hstep => h.step hstep
    intro start hstart
    constructor <;> grind [Begins]
  exact hsingle.waiters pid k hwaiter

/-- A probe has just been registered. -/
theorem registered_channel_is_empty : ∃ x : State, x.registry.waiters.lookup 7 = some 0 ∧
    x.registry.buffer 0 = none := by
  have hreached : Reached (fun _ _ => True) _ := begins_blank.reached
    |>.next (@Step.fork _ 0 7 rfl rfl rfl) trivial
    |>.next (.register rfl) trivial
  exact ⟨_, rfl, (@deliver_never_blocks _ 7 0 hreached rfl).1⟩

theorem owned_of_awaited {pc : CallPc} (h : pc.awaited = some pid) : pc.owned = some pid := by
  cases pc <;> simp_all [CallPc.awaited, CallPc.owned]

/-- The process of call `k` runs as `pid`, or the reap loop has its status. -/
def Due (x : State) (pid : Pid) (k : CallId) : Prop :=
  (∃ child, x.children.lookup pid = some child ∧ child.owner = .probe k ∧
      x.loop.held ≠ some pid) ∨
    x.loop.held = some pid ∧ x.loop.owner = some (.probe k) ∧ pid ∉ x.pidMap

/-- No fork gets a pid whose status the reap loop is still routing, and no probe gets
one that a call has yet to forget. -/
def Careful (x : State) : Action → Prop
  | .fork _ pid => x.loop.held ≠ some pid ∧ ∀ k, (x.calls k).owned ≠ some pid
  | .startService pid => x.loop.held ≠ some pid
  | _ => True

structure Routed (x : State) : Prop where
  pidMap : ∀ pid ∈ x.pidMap, (∃ child, x.children.lookup pid = some child ∧
    child.owner = .service) ∨ x.loop.lookedUp = some pid
  starting : ∀ k pid, x.starting = some (k, pid) → x.Due pid k ∧
    ∀ j, (x.calls j).owned ≠ some pid
  waiters : ∀ pid k, x.registry.waiters.lookup pid = some k → x.Due pid k
  buffer : ∀ k status, x.registry.buffer k = some status → status.owner = .probe k
  outcome : ∀ k status killed, (x.calls k).outcome = some (.status status killed) →
    status.owner = .probe k
  awaited : ∀ k pid, (x.calls k).awaited = some pid →
    x.registry.waiters.lookup pid = some k ∨ x.registry.buffer k ≠ none
  distinct : ∀ j k pid, (x.calls j).owned = some pid → (x.calls k).owned = some pid → j = k

section Kept

variable (h : Routed x)

include h

theorem Routed.pidMap_step (hstep : Step x action y) :
    ∀ pid ∈ y.pidMap, (∃ child, y.children.lookup pid = some child ∧ child.owner = .service) ∨
      y.loop.lookedUp = some pid := by
  have hbefore := h.pidMap
  clear h
  cases hstep with
  | @startService pid hfree =>
    intro p hp
    by_cases hpid : p = pid
    · exact .inl ⟨_, by rw [GoMap.lookup_insert, if_pos hpid], rfl⟩
    · grind [GoMap.lookup_insert]
  | _ => grind [GoMap.lookup_insert, GoMap.lookup_erase]

/-- A status stays on its way until it is delivered. -/
theorem Due.step (hdue : x.Due pid k) (hcareful : x.Careful action) (hstep : Step x action y)
    (hkept : action = .deliver → x.loop.held ≠ some pid) : y.Due pid k := by
  have hmanaged := h.pidMap
  clear h
  cases hstep <;> grind [Due, Careful, GoMap.lookup_insert, GoMap.lookup_erase]

theorem Routed.starting_step (hcareful : x.Careful action) (hstep : Step x action y) :
    ∀ k pid, y.starting = some (k, pid) → y.Due pid k ∧ ∀ j, (y.calls j).owned ≠ some pid := by
  intro k pid hstart
  have hdue := fun hbefore => (h.starting k pid hbefore).1.step h hcareful hstep
  have hapart := fun hbefore => (h.starting k pid hbefore).2
  clear h
  cases hstep with
  | fork =>
    cases hstart
    refine ⟨.inl ⟨_, by rw [GoMap.lookup_insert, if_pos rfl], rfl, hcareful.1⟩, hcareful.2⟩
  | _ => grind [Function.update_apply]

theorem Routed.waiters_step (hcareful : x.Careful action) (hstep : Step x action y) :
    ∀ pid k, y.registry.waiters.lookup pid = some k → y.Due pid k := by
  intro pid k hwaiter
  have hdue := fun hbefore => (h.waiters pid k hbefore).step h hcareful hstep
  have hstarting := fun hbefore => (h.starting k pid hbefore).1.step h hcareful hstep
  clear h
  cases hstep <;> grind

theorem Routed.buffer_step (hstep : Step x action y) :
    ∀ k status, y.registry.buffer k = some status → status.owner = .probe k := by
  have hwaiters := h.waiters
  have hbuffer := h.buffer
  clear h
  cases hstep <;> grind [Due]

theorem Routed.outcome_step (hstep : Step x action y) :
    ∀ k status killed, (y.calls k).outcome = some (.status status killed) →
      status.owner = .probe k := by
  have hbuffer := h.buffer
  have houtcome := h.outcome
  clear h
  cases hstep <;> grind [Function.update_apply]

theorem Routed.awaited_step (hstep : Step x action y) :
    ∀ k pid, (y.calls k).awaited = some pid →
      y.registry.waiters.lookup pid = some k ∨ y.registry.buffer k ≠ none := by
  have hawaited := h.awaited
  have hstarting := fun k pid hstart => (h.starting k pid hstart).2
  have hdistinct := h.distinct
  clear h
  cases hstep <;> grind [Function.update_apply, owned_of_awaited]

theorem Routed.distinct_step (hstep : Step x action y) :
    ∀ j k pid, (y.calls j).owned = some pid → (y.calls k).owned = some pid → j = k := by
  have hstarting := fun k pid hstart => (h.starting k pid hstart).2
  have hdistinct := h.distinct
  clear h
  cases hstep <;> grind [Function.update_apply]

end Kept

theorem Routed.step (h : Routed x) (hcareful : x.Careful action) (hstep : Step x action y) :
    Routed y where
  pidMap := h.pidMap_step hstep
  starting := h.starting_step hcareful hstep
  waiters := h.waiters_step hcareful hstep
  buffer := h.buffer_step hstep
  outcome := h.outcome_step hstep
  awaited := h.awaited_step hstep
  distinct := h.distinct_step hstep

/-- As long as pids are not handed out again too early, in every run the status a
probe receives is the one of its own process, it succeeds only when that exited with
0, and what it waits for is not lost: the status is in the channel, or the channel is
registered and the process is not reaped yet or the reap loop routes its status. -/
theorem statuses_routed (hreached : Reached Careful x) :
    (∀ k status killed, (x.calls k).outcome = some (.status status killed) →
      status.owner = .probe k) ∧
    (∀ k outcome, (x.calls k).outcome = some outcome → outcome.result = .success →
      ∃ killed, outcome = .status ⟨0, .probe k⟩ killed) ∧
    ∀ k pid, (x.calls k).awaited = some pid →
      (x.registry.waiters.lookup pid = some k ∧ x.Due pid k) ∨
        ∃ status, x.registry.buffer k = some status ∧ status.owner = .probe k := by
  have hrouted : Routed x := by
    refine hreached.invariant ?_ fun _ _ _ h hcareful hstep => h.step hcareful hstep
    intro start hstart
    constructor <;> grind [Begins]
  refine ⟨hrouted.outcome, fun k outcome hcall hsuccess => ?_, fun k pid hcall => ?_⟩
  · have howner := hrouted.outcome k
    obtain _ | ⟨⟨code, owner⟩, killed⟩ | _ := outcome <;> grind [Outcome.result]
  · rcases hrouted.awaited k pid hcall with hwaiter | hfull
    · exact .inl ⟨hwaiter, hrouted.waiters pid k hwaiter⟩
    · obtain ⟨status, hstatus⟩ := Option.ne_none_iff_exists'.mp hfull
      exact .inr ⟨status, hstatus, hrouted.buffer k status hstatus⟩

/-- A probe exits before the call has reached its select. -/
theorem early_exit_is_delivered : ∃ x : State, (x.calls 0).awaited = some 7 ∧
    x.registry.waiters.lookup 7 = none ∧
    ∃ status, x.registry.buffer 0 = some status ∧ status.owner = .probe 0 := by
  have hreached : Reached Careful _ := begins_blank.reached
    |>.next (@Step.fork _ 0 7 rfl rfl rfl) ⟨by decide, by simp [blank, CallPc.owned]⟩
    |>.next (.register rfl) trivial
    |>.next (@Step.exit _ 7 0 (.probe 0) rfl) trivial
    |>.next (@Step.wait4 _ 7 (.probe 0) 0 rfl rfl) trivial
    |>.next (.unmanaged rfl (by decide)) trivial
    |>.next (.deliver rfl rfl) trivial
  have hrouted := (statuses_routed hreached).2.2 0 7 rfl
  refine ⟨_, ?_, ?_, hrouted.resolve_left fun h => absurd h.1 (by decide)⟩
  · rfl
  · rfl

end Gopherd.Reaper.State
