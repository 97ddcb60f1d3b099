import Gopherd.Lib.Transition
import Gopherd.Service.Service

/-!
The escalation of a stop. `Stop` signals the process group of the service and
arms one timer, whose callback sends SIGKILL to the group if any of it is left.
Time is counted in ticks. A timer that is due expires and its callback takes
the lock before time goes on.
-/

namespace Gopherd.KillTimer

structure Sent where
  group : Pid
  signal : Signal
  time : Nat
  deriving DecidableEq

structure State where
  now : Nat
  running : Bool
  stopped : Bool
  pid : Pid
  killTimer : Option (Pid × Nat)
  callbacks : List Pid
  alive : Pid → Bool
  sent : List Sent
  stoppedAt : Pid → Option Nat

inductive Event where
  | finishStart (pid : Pid)
  | stop
  | markExited
  | groupDies (group : Pid)
  | expire
  | callback (group : Pid)
  | tick
  deriving DecidableEq

def init : State where
  now := 0
  running := false
  stopped := false
  pid := 0
  killTimer := none
  callbacks := []
  alive := fun _ => false
  sent := []
  stoppedAt := fun _ => none

section

variable (stopSignal : Signal) (killDelay : Nat)

namespace State

/-- `FinishStart`. The kernel gives the leader a pid that no group has. -/
def finishStart (s : State) (pid : Pid) : State :=
  { s with
    running := true
    stopped := false
    pid
    alive := Function.update s.alive pid true
    stoppedAt := Function.update s.stoppedAt pid none }

def signals (s : State) : Bool :=
  s.running && 0 < s.pid

def stop (s : State) : State :=
  if !s.running then s
  else if s.pid = 0 then { s with stopped := true }
  else
    { s with
      stopped := true
      sent := ⟨s.pid, stopSignal, s.now⟩ :: s.sent
      stoppedAt := Function.update s.stoppedAt s.pid (some s.now)
      killTimer := if 0 < killDelay then some (s.pid, s.now + killDelay) else s.killTimer }

/-- The callback of the timer of a group, once it has the lock. -/
def callback (s : State) (group : Pid) : State :=
  { s with
    callbacks := s.callbacks.erase group
    sent := if s.alive group then ⟨group, 9, s.now⟩ :: s.sent else s.sent }

def quiet (s : State) : Bool :=
  s.callbacks = [] && s.killTimer.all (fun timer => s.now < timer.2)

def step (s : State) : Event → Option State
  | .finishStart pid => if 0 < pid && !s.alive pid then some (s.finishStart pid) else none
  | .stop => some (s.stop stopSignal killDelay)
  | .markExited => some { s with running := false, pid := 0 }
  | .groupDies group => some { s with alive := Function.update s.alive group false }
  | .expire =>
    match s.killTimer with
    | some (group, deadline) =>
      if deadline ≤ s.now then
        some { s with killTimer := none, callbacks := s.callbacks ++ [group] }
      else none
    | none => none
  | .callback group => if group ∈ s.callbacks then some (s.callback group) else none
  | .tick => if s.quiet then some { s with now := s.now + 1 } else none

/-- A group that was stopped and has a living member once its kill-delay is over
was sent SIGKILL at that time. -/
def Escalated (s : State) : Prop :=
  ∀ group time, s.stoppedAt group = some time → time + killDelay < s.now →
    s.alive group = true → ⟨group, 9, time + killDelay⟩ ∈ s.sent

/-- A `Stop` that signals a group finds no timer of another group that still has
a living member. -/
def ownTimer (s : State) : Event → Bool
  | .stop => !s.signals || s.killTimer.all (fun timer => timer.1 = s.pid || !s.alive timer.1)
  | _ => true

inductive Pending (s : State) (group : Pid) (deadline : Nat) : Prop
  | armed (htimer : s.killTimer = some (group, deadline)) (hnow : s.now ≤ deadline)
  | expired (hcallback : group ∈ s.callbacks) (hnow : s.now = deadline)
  | sent (hsent : ⟨group, 9, deadline⟩ ∈ s.sent)

/-- The stopped groups that still have a living member are taken care of. -/
def Inv (s : State) : Prop :=
  ∀ group time, s.stoppedAt group = some time → s.alive group = true →
    s.Pending group (time + killDelay)

variable {stopSignal killDelay} {s s' : State}

/-- Events that touch no timer and stop no group. -/
theorem Inv.frame (h : s.Inv killDelay) (htimer : s'.killTimer = s.killTimer)
    (hcallbacks : s'.callbacks = s.callbacks) (hsent : s'.sent = s.sent) (hnow : s'.now = s.now)
    (hgroups : ∀ group time, s'.stoppedAt group = some time → s'.alive group = true →
      s.stoppedAt group = some time ∧ s.alive group = true) : s'.Inv killDelay := by
  intro group time hstopped halive
  obtain ⟨hstopped, halive⟩ := hgroups group time hstopped halive
  cases h group time hstopped halive with
  | armed harmed hbefore => exact .armed (htimer.trans harmed) (hnow ▸ hbefore)
  | expired hcallback hdue => exact .expired (hcallbacks ▸ hcallback) (hnow.trans hdue)
  | sent hkill => exact .sent (hsent ▸ hkill)

theorem Inv.finishStart (h : s.Inv killDelay) (pid : Pid) :
    (s.finishStart pid).Inv killDelay := by
  refine h.frame rfl rfl rfl rfl ?_
  intro group time hstopped halive
  have hne : group ≠ pid := by
    rintro rfl
    simp [State.finishStart] at hstopped
  simp only [State.finishStart, Function.update_of_ne hne] at hstopped halive
  exact ⟨hstopped, halive⟩

theorem Inv.groupDies (h : s.Inv killDelay) (dead : Pid) :
    State.Inv killDelay { s with alive := Function.update s.alive dead false } := by
  refine h.frame rfl rfl rfl rfl ?_
  intro group time hstopped halive
  have hne : group ≠ dead := by
    rintro rfl
    simp at halive
  exact ⟨hstopped, by simpa [Function.update_of_ne hne] using halive⟩

theorem Inv.stop (h : s.Inv killDelay) (hdelay : 0 < killDelay)
    (hown : s.ownTimer .stop = true) : (s.stop stopSignal killDelay).Inv killDelay := by
  unfold State.stop
  split_ifs with hrunning hpid
  · exact h
  · exact h.frame rfl rfl rfl rfl fun _ _ hstopped halive => ⟨hstopped, halive⟩
  · intro group time hstopped halive
    by_cases hgroup : group = s.pid
    · subst hgroup
      obtain rfl : s.now = time := by simpa using hstopped
      exact .armed rfl (Nat.le_add_right _ _)
    · have hbefore : s.stoppedAt group = some time := by
        simpa [Function.update_of_ne hgroup] using hstopped
      cases h group time hbefore halive with
      | armed htimer hnow =>
        -- the timer that would be lost belongs to a group without a living member
        have hsignals : s.signals = true := by
          simp only [Bool.not_eq_true', Bool.not_eq_false] at hrunning
          simp [State.signals, hrunning, Nat.pos_of_ne_zero hpid]
        have halive : s.alive group = true := halive
        simp [ownTimer, hsignals, htimer, hgroup, halive] at hown
      | expired hcallback hnow => exact .expired hcallback hnow
      | sent hsent => exact .sent (List.mem_cons_of_mem _ hsent)

theorem Inv.expire (h : s.Inv killDelay) (htimer : s.killTimer = some (group, deadline))
    (hdue : deadline ≤ s.now) :
    State.Inv killDelay { s with killTimer := none, callbacks := s.callbacks ++ [group] } := by
  intro other time hstopped halive
  cases h other time hstopped halive with
  | armed hother hnow =>
    rw [htimer] at hother
    cases hother
    exact .expired (List.mem_append_right _ (List.mem_singleton_self _))
      (le_antisymm hnow hdue)
  | expired hcallback hnow => exact .expired (List.mem_append_left _ hcallback) hnow
  | sent hsent => exact .sent hsent

theorem Inv.callback (h : s.Inv killDelay) (group : Pid) :
    (s.callback group).Inv killDelay := by
  intro other time hstopped halive
  have hkept : ∀ {deadline}, ⟨other, 9, deadline⟩ ∈ s.sent →
      ⟨other, 9, deadline⟩ ∈ (s.callback group).sent := by
    intro deadline hsent
    unfold State.callback
    dsimp only
    split_ifs
    · exact List.mem_cons_of_mem _ hsent
    · exact hsent
  cases h other time hstopped halive with
  | armed htimer hnow => exact .armed htimer hnow
  | expired hcallback hnow =>
    by_cases heq : other = group
    · subst heq
      have halive : s.alive other = true := halive
      refine .sent ?_
      rw [← hnow]
      simp [State.callback, halive]
    · exact .expired ((List.mem_erase_of_ne heq).mpr hcallback) hnow
  | sent hsent => exact .sent (hkept hsent)

theorem Inv.tick (h : s.Inv killDelay) (hquiet : s.quiet = true) :
    State.Inv killDelay { s with now := s.now + 1 } := by
  simp only [quiet, Bool.and_eq_true, decide_eq_true_eq] at hquiet
  obtain ⟨hnone, hlater⟩ := hquiet
  intro group time hstopped halive
  cases h group time hstopped halive with
  | armed htimer hnow =>
    rw [htimer] at hlater
    exact .armed htimer (by simpa using hlater)
  | expired hcallback hnow =>
    rw [hnone] at hcallback
    cases hcallback
  | sent hsent => exact .sent hsent

theorem Inv.step (h : s.Inv killDelay) (hdelay : 0 < killDelay) (hown : s.ownTimer event = true)
    (hstep : s.step stopSignal killDelay event = some s') : s'.Inv killDelay := by
  cases event with
  | finishStart pid =>
    simp only [State.step] at hstep
    split_ifs at hstep
    cases hstep
    exact h.finishStart pid
  | stop =>
    cases hstep
    exact h.stop hdelay hown
  | markExited =>
    cases hstep
    exact h.frame rfl rfl rfl rfl fun _ _ hstopped halive => ⟨hstopped, halive⟩
  | groupDies dead =>
    cases hstep
    exact h.groupDies dead
  | expire =>
    simp only [State.step] at hstep
    split at hstep
    · next group deadline htimer =>
        split_ifs at hstep with hdue
        cases hstep
        exact h.expire htimer hdue
    · cases hstep
  | callback group =>
    simp only [State.step] at hstep
    split_ifs at hstep
    cases hstep
    exact h.callback group
  | tick =>
    simp only [State.step] at hstep
    split_ifs at hstep with hquiet
    cases hstep
    exact h.tick hquiet

theorem Inv.escalated (h : s.Inv killDelay) : s.Escalated killDelay := by
  intro group time hstopped hover halive
  cases h group time hstopped halive with
  | armed _ hnow => omega
  | expired _ hnow => omega
  | sent hsent => exact hsent

end State

/-- Every stopped group gets its SIGKILL, whatever becomes of its leader and of
later instances, as long as no `Stop` finds the timer of another living group. -/
theorem escalation_arrives (hdelay : 0 < killDelay) {s : State}
    (hreached : Transition.Reached (· = init) (State.step stopSignal killDelay)
      (fun s event => s.ownTimer event = true) s) : s.Escalated killDelay := by
  have hinv : s.Inv killDelay := by
    refine hreached.invariant ?_ fun _ _ _ h hown hstep => h.step hdelay hown hstep
    rintro s rfl group time hstopped
    cases hstopped
  exact hinv.escalated

end

def leaderExitEvents : List Event :=
  [.finishStart 100, .stop, .markExited]

/-- With a kill-delay of two ticks the group is killed, while the next instance
is running. -/
theorem escalation_arrives_late : ∃ s,
    Transition.exec (State.step 15 2) (fun s event => s.ownTimer event) init
      (leaderExitEvents ++ [.finishStart 101, .tick, .tick, .expire, .callback 100, .tick]) =
        some s ∧
      s.alive 100 = true ∧ ⟨100, 9, 2⟩ ∈ s.sent := by
  have hrun : (Transition.exec (State.step 15 2) (fun s event => s.ownTimer event) init
      (leaderExitEvents ++ [.finishStart 101, .tick, .tick, .expire, .callback 100, .tick])).map
        (fun s => decide (s.stoppedAt 100 = some 0 ∧ s.alive 100 = true ∧ s.now = 3)) =
      some true := by
    decide
  obtain ⟨s, hs, hstopped, halive, hnow⟩ := exists_of_decide hrun
  refine ⟨s, hs, halive, ?_⟩
  exact escalation_arrives 15 2 (by decide) ⟨init, rfl, .of_exec hs⟩ 100 0 hstopped (by omega)
    halive

/-- A stop of the next instance within the kill-delay replaces the timer: the
rest of the first group is never killed. -/
theorem later_stop_cancels : ∃ s,
    Transition.Reached (· = init) (State.step 15 2) Transition.anyStep s ∧
      s.stoppedAt 100 = some 0 ∧ s.now = 4 ∧ s.alive 100 = true ∧ ⟨100, 9, 2⟩ ∉ s.sent ∧
      ¬ s.Escalated 2 := by
  have hrun : (Transition.exec (State.step 15 2) (fun _ _ => true) init
      (leaderExitEvents ++ [.finishStart 101, .tick, .stop, .tick, .tick, .expire,
        .callback 101, .tick])).map
        (fun s => decide (s.stoppedAt 100 = some 0 ∧ s.now = 4 ∧ s.alive 100 = true ∧
          ⟨100, 9, 2⟩ ∉ s.sent)) = some true := by
    decide
  obtain ⟨s, hs, hstopped, hnow, halive, hsent⟩ := exists_of_decide hrun
  refine ⟨s, ⟨init, rfl, (Transition.Runs.of_exec hs).weaken fun _ _ _ => trivial⟩, hstopped,
    hnow, halive, hsent, ?_⟩
  intro hescalated
  exact hsent (hescalated 100 0 hstopped (by omega) halive)

end Gopherd.KillTimer
