import Gopherd.Daemon.Objects

/-!
The startup timeout of a scheduled run.
-/

namespace Gopherd.Daemon

open Go

def Core.stopTarget (c : Core) (i : InstId) : Option Pid :=
  if (c.heap i).running && decide (0 < (c.heap i).pid) then some (c.heap i).pid else none

/-- The process that a step adds and the object it is forked for; an orphan
belongs to none. -/
def State.newProcess (s : State) : Action → Option (Option InstId × Pid)
  | .fork (.child pid) => s.forking.map fun start => (some start.1, pid)
  | .main (.child pid) => s.main.starting.map fun i => (some i, pid)
  | .adopt pid _ => some (none, pid)
  | _ => none

def State.timesOut (s : State) (i : InstId) : Bool :=
  match parseDuration (s.core.heap i).proc.startupTimeout with
  | .ok timeout => decide (timeout > 0)
  | .error _ => false

structure ServiceRun where
  svc : InstId
  count : Nat
  deriving DecidableEq

inductive TimeoutPhase where
  | armed
  | passed
  | killing
  deriving DecidableEq

structure Timeout where
  run : ServiceRun
  pid : Pid
  phase : TimeoutPhase
  deriving DecidableEq

structure Timed where
  state : State
  count : InstId → Nat
  leader : Pid → Option ServiceRun
  timeout : Option Timeout

inductive TimedAction where
  | daemon (action : Action) (own : Bool)
  | kill
  | cancel

namespace Timed

def Begins (x : Timed) : Prop :=
  Boots x.state ∧ x.timeout = none

def nextCount (x : Timed) (action : Action) : InstId → Nat :=
  match x.state.newProcess action with
  | some (some i, _) => Function.update x.count i (x.count i + 1)
  | _ => x.count

def nextLeader (x : Timed) (action : Action) : Pid → Option ServiceRun :=
  match x.state.newProcess action with
  | some (owner, pid) =>
    Function.update x.leader pid (owner.map fun i => ⟨i, x.count i + 1⟩)
  | none => x.leader

def compare (x : Timed) (t : Timeout) : Option Timeout :=
  if x.state.core.isRunning t.run.svc && (x.state.core.heap t.run.svc).pid = t.pid then
    some { t with phase := .passed }
  else none

def stop (x : Timed) (t : Timeout) : Option Timeout :=
  if (x.state.core.heap t.run.svc).killDelay > 0 then
    (x.state.core.stopTarget t.run.svc).map fun pid => { t with pid, phase := .killing }
  else none

/-- What the followed timeout does in its own steps. -/
def ownTimeout (x : Timed) (action : Action) : Option Timeout :=
  match x.timeout, action with
  | none, .fork (.child pid) =>
    match x.state.forking with
    | some (i, .tick) =>
      if x.state.timesOut i then some ⟨⟨i, x.count i + 1⟩, pid, .armed⟩ else none
    | _ => none
  | some t, .run (.timer i pid) _ =>
    if t.phase = .armed ∧ t.run.svc = i ∧ t.pid = pid then x.compare t else some t
  | some t, .run (.timerStop i) _ =>
    if t.phase = .passed ∧ t.run.svc = i then x.stop t else some t
  | timeout, _ => timeout

def step (x : Timed) : TimedAction → Option Timed
  | .daemon action own =>
    (x.state.step action).map fun s' =>
      { state := s'
        count := x.nextCount action
        leader := x.nextLeader action
        timeout := if own then x.ownTimeout action else x.timeout }
  | .kill | .cancel =>
    if x.timeout.any (fun t => t.phase = .killing) then some { x with timeout := none }
    else none

/-- The process group that the followed timeout signals in a step. -/
def signals (x : Timed) (t : Timeout) : TimedAction → Option Pid
  | .daemon (.run (.timerStop i) _) own =>
    if own ∧ t.phase = .passed ∧ t.run.svc = i then x.state.core.stopTarget i else none
  | .kill => if t.phase = .killing then some t.pid else none
  | _ => none

/-- While the timeout is pending, no process gets the pid of its run, and
between the comparison and the stop its service gets no process at all. -/
def careful (x : Timed) : TimedAction → Bool
  | .daemon action _ =>
    match x.timeout, x.state.newProcess action with
    | some t, some (owner, pid) =>
      decide (pid ≠ t.pid ∧ (t.phase = .passed → owner ≠ some t.run.svc))
    | _, _ => true
  | .kill | .cancel => true

structure Sound (x : Timed) (t : Timeout) : Prop where
  leader : x.leader t.pid = some t.run
  passed : t.phase = .passed → (x.state.core.heap t.run.svc).running = true →
    (x.state.core.heap t.run.svc).pid = t.pid

section

variable {x x' : Timed} {t : Timeout} {action : Action} {own : Bool}

variable {i : InstId} {pid : Pid} {t' : Timeout}

theorem newProcess_of_startsFor (h : StartsFor s i pid action) :
    s.newProcess action = some (some i, pid) := by
  cases h with
  | fork hforking => simp [State.newProcess, hforking]
  | oneshot hstarting => simp [State.newProcess, hstarting]

theorem kept_run (i : InstId) (pid : Pid) :
    Kept fun j svc => j = i → svc.running = true → svc.pid = pid where
  stop h := by
    unfold Service.stop
    split <;> exact h
  markExited _ _ hrunning := by cases hrunning
  backoff h := h
  retire h := by
    unfold retire Service.stop
    split <;> exact h
  keepRunning h _ _ := h

/-- The pid of a run names its group until it is given to another process. -/
theorem nextLeader_of_careful (ht : x.timeout = some t)
    (hcareful : x.careful (.daemon action own) = true) :
    x.nextLeader action t.pid = x.leader t.pid := by
  unfold nextLeader
  cases hnew : x.state.newProcess action with
  | none => rfl
  | some new =>
    simp only [careful, ht, hnew, decide_eq_true_eq] at hcareful
    exact Function.update_of_ne (Ne.symm hcareful.1) _ _

/-- A step that forks no process for the object leaves it with the one it has,
if any. -/
theorem step_pid (hstep : s.step action = some s') (hno : ∀ new, ¬ StartsFor s i new action)
    (h : (s.core.heap i).running = true → (s.core.heap i).pid = pid)
    (hrunning : (s'.core.heap i).running = true) : (s'.core.heap i).pid = pid := by
  refine (kept_run i pid).step hstep ?_ ?_ ?_ i rfl hrunning
  · rintro j rfl
    exact h
  · rintro j new done hstarts rfl
    exact absurd hstarts (hno new)
  · intro j p svc _ hnew _ hrunning
    rw [(Service.builtFrom_of_new hnew).running] at hrunning
    cases hrunning

/-- A step that leaves the timeout as it is. -/
theorem Sound.keep (hsound : x.Sound t) (ht : x.timeout = some t)
    (hcareful : x.careful (.daemon action own) = true)
    (hstep : x.state.step action = some x'.state) (hleader : x'.leader = x.nextLeader action) :
    x'.Sound t where
  leader := by
    rw [hleader, nextLeader_of_careful ht hcareful]
    exact hsound.leader
  passed hphase := by
    refine step_pid hstep (fun new hstarts => ?_) (hsound.passed hphase)
    simp only [careful, ht, newProcess_of_startsFor hstarts, decide_eq_true_eq] at hcareful
    exact hcareful.2 hphase rfl

/-- The run whose timeout is to be followed is forked. -/
theorem Sound.arm (hforking : x.state.forking = some (i, caller))
    (hleader : x'.leader = x.nextLeader (.fork (.child pid))) :
    x'.Sound ⟨⟨i, x.count i + 1⟩, pid, .armed⟩ where
  leader := by simp [hleader, nextLeader, State.newProcess, hforking]
  passed hphase := by cases hphase

theorem Sound.compare (hsound : x.Sound t) (hown : x.compare t = some t')
    (hstep : x.state.step (.run (.timer i pid) choice) = some x'.state)
    (hleader : x'.leader = x.leader) : x'.Sound t' := by
  unfold Timed.compare at hown
  split at hown
  · next hsame =>
      simp only [Bool.and_eq_true, decide_eq_true_eq] at hsame
      cases hown
      refine ⟨by rw [hleader]; exact hsound.leader, fun _ => ?_⟩
      exact step_pid hstep (fun new hstarts => by cases hstarts) fun _ => hsame.2
  · cases hown

theorem stopTarget_eq {c : Core} (h : c.stopTarget i = some pid) :
    (c.heap i).running = true ∧ (c.heap i).pid = pid := by
  unfold Core.stopTarget at h
  split at h
  · next hrunning =>
      simp only [Bool.and_eq_true] at hrunning
      exact ⟨hrunning.1, Option.some.inj h⟩
  · cases h

/-- After the comparison only the group of the run is signalled. -/
theorem Sound.target (hsound : x.Sound t) (hphase : t.phase = .passed)
    (htarget : x.state.core.stopTarget t.run.svc = some pid) : pid = t.pid := by
  obtain ⟨hrunning, hpid⟩ := stopTarget_eq htarget
  rw [← hpid]
  exact hsound.passed hphase hrunning

theorem Sound.stop {t' : Timeout} (hsound : x.Sound t) (hphase : t.phase = .passed)
    (hown : x.stop t = some t') (hleader : x'.leader = x.leader) : x'.Sound t' := by
  unfold Timed.stop at hown
  split at hown
  · obtain ⟨pid, htarget, rfl⟩ := Option.map_eq_some_iff.mp hown
    obtain rfl := hsound.target hphase htarget
    exact ⟨by rw [hleader]; exact hsound.leader, by intro h; cases h⟩
  · cases hown

theorem Sound.of_own (hsound : ∀ t, x.timeout = some t → x.Sound t)
    (hcareful : x.careful (.daemon action own) = true) (hstep : x.state.step action = some x'.state)
    (hleader : x'.leader = x.nextLeader action) (hown : x.ownTimeout action = some t') :
    x'.Sound t' := by
  unfold ownTimeout at hown
  split at hown
  · split at hown
    · next hforking =>
        split at hown
        · cases hown
          exact .arm hforking hleader
        · cases hown
    · cases hown
  · next t i pid choice ht =>
      split at hown
      · exact (hsound t ht).compare hown hstep hleader
      · cases hown
        exact (hsound _ ht).keep ht hcareful hstep hleader
  · next t i choice ht =>
      split at hown
      · next hpassed => exact (hsound t ht).stop hpassed.1 hown hleader
      · cases hown
        exact (hsound _ ht).keep ht hcareful hstep hleader
  · exact (hsound t' hown).keep hown hcareful hstep hleader

theorem step_sound (hsound : ∀ t, x.timeout = some t → x.Sound t) (hcareful : x.careful a = true)
    (hstep : x.step a = some x') (ht' : x'.timeout = some t') : x'.Sound t' := by
  cases a with
  | daemon action own =>
    obtain ⟨s', hs', rfl⟩ := Option.map_eq_some_iff.mp hstep
    cases own with
    | true => exact .of_own hsound hcareful hs' rfl ht'
    | false => exact (hsound t' ht').keep ht' hcareful hs' rfl
  | kill =>
    obtain ⟨-, hover⟩ := Option.ite_none_right_eq_some.mp hstep
    cases hover
    cases ht'
  | cancel =>
    obtain ⟨-, hover⟩ := Option.ite_none_right_eq_some.mp hstep
    cases hover
    cases ht'

theorem sound_of_reached
    (hreached : Transition.Reached Begins step (fun x a => x.careful a = true) x) :
    ∀ t, x.timeout = some t → x.Sound t := by
  apply hreached.invariant
  · intro x hbegins t ht
    rw [hbegins.2] at ht
    cases ht
  · intro x a x' hsound hcareful hstep t' ht'
    exact step_sound hsound hcareful hstep ht'

/-- In every run in which no process gets the pid of the run while its timeout
is pending, and its service gets no process between the comparison and the
stop, what the timeout signals is the group of that run. -/
theorem timeout_signals_own_run
    (hreached : Transition.Reached Begins step (fun x a => x.careful a = true) x)
    (ht : x.timeout = some t) {a : TimedAction} {pid : Pid} (hsignals : x.signals t a = some pid) :
    x.leader pid = some t.run := by
  have hsound := sound_of_reached hreached t ht
  unfold signals at hsignals
  split at hsignals
  · split at hsignals
    · next hpassed =>
        obtain ⟨-, hphase, rfl⟩ := hpassed
        rw [hsound.target hphase hsignals]
        exact hsound.leader
    · cases hsignals
  · split at hsignals
    · cases hsignals
      exact hsound.leader
    · cases hsignals
  · cases hsignals

end

def start (s : State) : Timed :=
  ⟨s, fun _ => 0, fun _ => none, none⟩

def run (ok : Timed → TimedAction → Bool) (input : BootInput) (actions : List TimedAction) :
    Option Timed :=
  (boot input).bind fun s => Transition.exec step ok (start s) actions

theorem reached_of_run {ok : Timed → TimedAction → Bool} (hrun : run ok input actions = some x) :
    Transition.Reached Begins step (fun x a => ok x a = true) x := by
  obtain ⟨s, hboot, hexec⟩ := Option.bind_eq_some_iff.mp hrun
  exact ⟨start s, ⟨⟨input, hboot⟩, rfl⟩, .of_exec hexec⟩

def hastyProcess : Process :=
  { Process.empty with
    name := "backup", command := "/bin/backup", startup := .scheduled, schedule := "0 3 * * *"
    startupTimeout := "1s" }

def tickedActions : List Action :=
  idleBootActions ++ [.tick 0, .run (.tick 0) .go] ++ (startActions 0 .tick 100).dropLast

def comparedActions : List TimedAction :=
  tickedActions.map (.daemon · false) ++
    [.daemon (.fork (.child 100)) true, .daemon (.run (.timer 0 100) .go) true]

/-- The first run ends by itself, and a control start forks the second one as
101 before the callback calls `Stop`: it is the second run that is signalled. -/
theorem timeout_hits_later_run : ∃ x t,
    run (fun _ _ => true) (plainInput [hastyProcess]) (comparedActions ++
      (exitActions 100 ++ controlStartActions "backup" 0 101).map (.daemon · false)) = some x ∧
    x.timeout = some t ∧ t.run = ⟨0, 1⟩ ∧
    (x.step (.daemon (.run (.timerStop 0) .go) true)).isSome = true ∧
    x.signals t (.daemon (.run (.timerStop 0) .go) true) = some 101 ∧
    x.leader 101 = some ⟨0, 2⟩ := by
  have hrun : (run (fun _ _ => true) (plainInput [hastyProcess]) (comparedActions ++
      (exitActions 100 ++ controlStartActions "backup" 0 101).map (.daemon · false))).bind
        (fun x => x.timeout.map fun t => decide (t.run = ⟨0, 1⟩ ∧
          (x.step (.daemon (.run (.timerStop 0) .go) true)).isSome = true ∧
          x.signals t (.daemon (.run (.timerStop 0) .go) true) = some 101 ∧
          x.leader 101 = some ⟨0, 2⟩)) = some true := by
    decide +kernel
  obtain ⟨x, hx, hrest⟩ := Option.bind_eq_some_iff.mp hrun
  obtain ⟨t, ht, hfacts⟩ := Option.map_eq_some_iff.mp hrest
  exact ⟨x, t, hx, ht, of_decide_eq_true hfacts⟩

/-- A run that overstays its timeout is the one that is signalled. -/
theorem timeout_hits_hasty_run : ∃ x t,
    run careful (plainInput [hastyProcess]) comparedActions = some x ∧ x.timeout = some t ∧
    x.signals t (.daemon (.run (.timerStop 0) .go) true) = some 100 ∧
    x.leader 100 = some t.run := by
  have hrun : (run careful (plainInput [hastyProcess]) comparedActions).bind
      (fun x => x.timeout.map fun t => decide
        (x.signals t (.daemon (.run (.timerStop 0) .go) true) = some 100)) = some true := by
    decide +kernel
  obtain ⟨x, hx, hrest⟩ := Option.bind_eq_some_iff.mp hrun
  obtain ⟨t, ht, hsignals⟩ := exists_of_decide hrest
  exact ⟨x, t, hx, ht, hsignals, timeout_signals_own_run (reached_of_run hx) ht hsignals⟩

end Timed

end Gopherd.Daemon
