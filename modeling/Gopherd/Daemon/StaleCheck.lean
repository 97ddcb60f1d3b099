import Gopherd.Daemon.Applied
import Gopherd.Daemon.CheckFailure

/-!
The callback of a stopped checker.
-/

namespace Gopherd.Daemon

open Go

/-- The process asks for a restart or a shutdown when the check fails. -/
def reactsTo (p : Process) (check : String) : Bool :=
  match p.onCheckFailure.lookup check with
  | some text => text ≠ "ignore"
  | none => false

def State.Indifferent (s : State) (check : String) : Prop :=
  ∀ name i, s.core.services.lookup name = some i →
    (s.core.heap i).onCheckFailure.lookup check = none ∨
      (s.core.heap i).onCheckFailure.lookup check = some .ignore

theorem newOnCheckFailure_lookup (hnew : newOnCheckFailure p = .ok actions)
    (h : reactsTo p check = false) :
    actions.lookup check = none ∨ actions.lookup check = some .ignore := by
  unfold newOnCheckFailure at hnew
  split at hnew
  · cases hnew
  · cases hnew
    rw [GoMap.lookup_mapValues]
    unfold reactsTo at h
    cases htext : p.onCheckFailure.lookup check with
    | none => exact .inl rfl
    | some text =>
      rw [htext, decide_eq_false_iff_not, not_not] at h
      rw [h]
      exact .inr rfl

/-- A reload installs the check-failure actions of its configuration. -/
theorem reload_onCheckFailure (hconfigured : Configured s)
    (hlocking : s.reload = .locking origin cfg startOrder)
    (hlookup : (s.reloadSection origin cfg startOrder).core.services.lookup name = some i) :
    ∃ p ∈ cfg.processes, newOnCheckFailure p =
      .ok ((s.reloadSection origin cfg startOrder).core.heap i).onCheckFailure := by
  obtain ⟨parsed, hload⟩ := hconfigured.loaded origin cfg startOrder hlocking
  obtain ⟨dones, hreload, hreloaded, -⟩ := hconfigured.reload_ok hlocking
  have hbuilt : ∀ {p new}, Service.new (resolveProcess cfg s.entrypointArgs p) = .ok new →
      newOnCheckFailure p = .ok new.onCheckFailure :=
    fun hnew => (Service.builtFrom_of_new hnew).onCheckFailure
  rcases hreloaded.current name i hlookup with ⟨hlater, -⟩ | ⟨hold, hrunning⟩
  · obtain ⟨p, hp, -, new, hnew, heq⟩ := reload_new hconfigured.named hreload hlookup hlater
    rw [heq]
    exact ⟨p, hp, (hbuilt hnew :)⟩
  · have hcovered := (hreloaded.covered name).mp (by rw [hlookup]; rfl)
    obtain ⟨p, hp, hname⟩ := List.mem_map.mp hcovered
    obtain ⟨new, hnew⟩ := new_resolveProcess_ok (loadConfig_new hload p hp)
    rw [(reload_kept hconfigured.named (distinct_of_sorted (loadConfig_sorted hload)) hreload hold
      hrunning hlookup hp hname hnew).2]
    exact ⟨p, hp, (hbuilt hnew :)⟩

section

variable {s s' : State} {check : String}

theorem checkLoop_indifferent (h : s.Indifferent check) (names : List String) :
    State.checkLoop check names s = s := by
  induction names with
  | nil => rfl
  | cons name names ih =>
    unfold State.checkLoop
    cases hlookup : s.core.services.lookup name with
    | none => exact ih
    | some i =>
      rcases h name i hlookup with hnone | hignore
      · simp only [hnone]
        exact ih
      · simp only [hignore]
        exact ih

theorem checkPlan_indifferent (h : s.Indifferent check) (names : List String) :
    (s.checkPlan check names).2 = none := by
  rw [checkPlan_code, List.findSome?_eq_none_iff]
  intro name _
  unfold State.shutdownAsked State.reaction
  cases hlookup : s.core.services.lookup name with
  | none => rfl
  | some i => rcases h name i hlookup with hnone | hignore <;> simp [*, ExitAction.shutdownCode]

/-- A callback that no service reacts to only ends. -/
theorem State.Indifferent.call (h : s.Indifferent check)
    (hstep : s.step (.run (.checkFailure check) choice) = some s') : s' = s.called check := by
  obtain ⟨-, hstep⟩ := step_run hstep
  simp only [State.stepTask] at hstep
  cases choice with
  | order names =>
    have hloop : State.checkLoop check names (s.called check) = s.called check :=
      checkLoop_indifferent (s := s.called check) h names
    dsimp only at hstep
    split_ifs at hstep
    · exact (Option.some.inj hstep).symm
    · exact (Option.some.inj hstep).symm.trans hloop
  | _ => cases hstep

theorem State.Indifferent.of_reload (hconfigured : Configured s) {cfg : Config}
    (hlocking : s.reload = .locking origin cfg startOrder)
    (hcfg : ∀ p ∈ cfg.processes, reactsTo p check = false) :
    (s.reloadSection origin cfg startOrder).Indifferent check := by
  intro name i hlookup
  obtain ⟨p, hp, hnew⟩ := reload_onCheckFailure hconfigured hlocking hlookup
  exact newOnCheckFailure_lookup hnew (hcfg p hp)

theorem State.Indifferent.keep (h : s.Indifferent check) (hstep : s.step action = some s')
    (hother : ∀ origin cfg startOrder, s.reload = .locking origin cfg startOrder → s' ≠
      s.reloadSection origin cfg startOrder) : s'.Indifferent check := by
  intro name i hlookup
  rw [(Applied.step_settings hstep hother i).2.2]
  cases step_names hstep with
  | same hservices =>
    rw [hservices] at hlookup
    exact h name i hlookup
  | reloaded hlocking => exact absurd rfl (hother _ _ _ hlocking)

end

inductive CallPhase where
  | calling
  | shutting (code : Int)
  deriving DecidableEq

structure Callback where
  check : String
  phase : CallPhase
  stopped : Bool
  deriving DecidableEq

def Callback.task (callback : Callback) : Task :=
  match callback.phase with
  | .calling => .checkFailure callback.check
  | .shutting code => .shutdown code .check

structure Probed where
  state : State
  callback : Option Callback

namespace Probed

def Begins (x : Probed) : Prop :=
  Boots x.state ∧ x.callback = none

/-- The configuration that the step installs after it has stopped the checkers. -/
def installs (x : Probed) : Action → Option Config
  | .reload _ =>
    match x.state.reload with
    | .locking _ cfg _ => if x.state.shuttingDown then none else some cfg
    | _ => none
  | _ => none

/-- What is left of the callback after its own step: a call goes on if it finds
a service that asks for a shutdown. -/
def after (x : Probed) (callback : Callback) (choice : Choice) : Option Callback :=
  match callback.phase, choice with
  | .calling, .order names =>
    if x.state.shuttingDown then none
    else
      (x.state.checkPlan callback.check names).2.map fun code =>
        { callback with phase := .shutting code }
  | _, _ => none

/-- A step that is one of the followed callback if `own` is set: the failing
probe that leads to it, the call, and the call of `initiateShutdown`. -/
def next (x : Probed) (action : Action) (own : Bool) : Option Callback :=
  match x.callback, action with
  | none, .checkFails check => if own then some ⟨check, .calling, false⟩ else none
  | some callback, .run t choice =>
    if own ∧ t = callback.task then x.after callback choice else some callback
  | some callback, action =>
    some { callback with stopped := callback.stopped || (x.installs action).isSome }
  | none, _ => none

def step (x : Probed) (a : Action × Bool) : Option Probed :=
  (x.state.step a.1).map fun s' => ⟨s', x.next a.1 a.2⟩

/-- While the callback waits for the lock, no configuration is installed in
which a service reacts to its check, and none at all once it has decided on a
shutdown. -/
def careful (x : Probed) (a : Action × Bool) : Bool :=
  match x.callback, x.installs a.1 with
  | some callback, some cfg =>
    decide (callback.phase = .calling) &&
      cfg.processes.all fun p => !reactsTo p callback.check
  | _, _ => true

structure Sound (x : Probed) : Prop where
  configured : Configured x.state
  stopped : ∀ callback, x.callback = some callback → callback.stopped = true →
    callback.phase = .calling ∧ x.state.Indifferent callback.check

section

variable {x x' : Probed} {a : Action × Bool}

variable {action : Action} {callback : Callback}

/-- The steps that install a configuration are the locked sections. -/
theorem installs_of_section (hconfigured : Configured x.state)
    (hstep : x.state.step action = some s')
    (hlocking : x.state.reload = .locking origin cfg startOrder)
    (heq : s' = x.state.reloadSection origin cfg startOrder) : x.installs action = some cfg := by
  obtain ⟨dones, -, -, hwaiting⟩ := hconfigured.reload_ok hlocking
  rw [← heq] at hwaiting
  cases step_reload hstep with
  | same h =>
    rw [h, hlocking] at hwaiting
    cases hwaiting
  | started hbefore => cases hlocking.symm.trans hbefore
  | begun hidle => cases hlocking.symm.trans hidle
  | moved hframe =>
    have hmove := hframe.move
    rw [hlocking, hwaiting] at hmove
    cases hmove
  | reloaded hlocking' _ hshut => simp [installs, hlocking, hshut]

/-- A stopped callback ends with its call. -/
theorem after_of_indifferent (h : x.state.Indifferent callback.check) (choice : Choice) :
    x.after callback choice = none := by
  unfold after
  split
  · next names _ =>
      rw [checkPlan_indifferent h]
      split <;> rfl
  · rfl

theorem after_stopped (h : x.after callback choice = some callback') :
    callback'.stopped = callback.stopped := by
  unfold after at h
  split at h
  · split at h
    · cases h
    · obtain ⟨code, -, rfl⟩ := Option.map_eq_some_iff.mp h
      rfl
  · cases h

/-- What the state of the callback says of the one before. -/
theorem Sound.next_stopped (h : x.Sound) (hnext : x.next action own = some callback)
    (hstopped : callback.stopped = true) :
    ∃ before, x.callback = some before ∧ before.check = callback.check ∧
      before.phase = callback.phase ∧
      (before.stopped = true ∨ (x.installs action).isSome = true) := by
  unfold next at hnext
  split at hnext
  · split at hnext
    · cases hnext
      cases hstopped
    · cases hnext
  · next before t choice hbefore =>
      split at hnext
      · rw [after_stopped hnext] at hstopped
        rw [after_of_indifferent (h.stopped before hbefore hstopped).2] at hnext
        cases hnext
      · cases hnext
        exact ⟨_, hbefore, rfl, rfl, .inl hstopped⟩
  · next before hbefore _ =>
      cases hnext
      exact ⟨before, hbefore, rfl, rfl, by simpa using hstopped⟩
  · cases hnext

theorem section_of_installs (hstep : x.state.step action = some s')
    (hinstalls : x.installs action = some cfg) : ∃ origin startOrder,
      x.state.reload = .locking origin cfg startOrder ∧
        s' = x.state.reloadSection origin cfg startOrder := by
  unfold installs at hinstalls
  split at hinstalls
  · split at hinstalls
    · next origin cfg' startOrder hlocking =>
        obtain ⟨hrun, hcfg⟩ := Option.ite_none_left_eq_some.mp hinstalls
        cases hcfg
        have hsection := step_reloading hstep
        simp only [State.stepReload, hlocking, hrun] at hsection
        split at hsection
        · cases hsection
        · exact ⟨origin, startOrder, hlocking, (Option.some.inj hsection).symm⟩
    · cases hinstalls
  · cases hinstalls

theorem Sound.step (h : x.Sound) (hcareful : x.careful a = true) (hstep : x.step a = some x') :
    x'.Sound := by
  obtain ⟨s', hs', rfl⟩ := Option.map_eq_some_iff.mp hstep
  refine ⟨h.configured.step hs', fun callback hnext hstopped => ?_⟩
  obtain ⟨before, hbefore, hcheck, hphase, hcause⟩ := h.next_stopped hnext hstopped
  rw [← hcheck, ← hphase]
  by_cases hsection : ∃ origin cfg startOrder, x.state.reload = .locking origin cfg startOrder ∧
      s' = x.state.reloadSection origin cfg startOrder
  · obtain ⟨origin, cfg, startOrder, hlocking, heq⟩ := hsection
    have hinstalls := installs_of_section h.configured hs' hlocking heq
    simp only [careful, hbefore, hinstalls, Bool.and_eq_true, decide_eq_true_eq,
      List.all_eq_true, Bool.not_eq_true'] at hcareful
    rw [heq]
    exact ⟨hcareful.1, .of_reload h.configured hlocking hcareful.2⟩
  · have hother : ∀ origin cfg startOrder, x.state.reload = .locking origin cfg startOrder →
        s' ≠ x.state.reloadSection origin cfg startOrder :=
      fun origin cfg startOrder hlocking heq => hsection ⟨origin, cfg, startOrder, hlocking, heq⟩
    rcases hcause with hcause | hcause
    · obtain ⟨hcalling, hindifferent⟩ := h.stopped before hbefore hcause
      exact ⟨hcalling, hindifferent.keep hs' hother⟩
    · obtain ⟨cfg, hinstalls⟩ := Option.isSome_iff_exists.mp hcause
      obtain ⟨origin, startOrder, hlocking, heq⟩ := section_of_installs hs' hinstalls
      exact absurd heq (hother origin cfg startOrder hlocking)

theorem sound_of_reached
    (hreached : Transition.Reached Begins step (fun x a => x.careful a = true) x) : x.Sound := by
  apply hreached.invariant
  · rintro x ⟨hboots, hnone⟩
    refine ⟨.of_fresh hboots.fresh, fun callback hcallback => ?_⟩
    rw [hnone] at hcallback
    cases hcallback
  · intro x a x' h hcareful hstep
    exact h.step hcareful hstep

/-- In every run in which no reload installs a service that reacts to the check
of a callback on its way, or comes between its decision for a shutdown and that
shutdown, the steps of a callback whose checker has been stopped change nothing:
they restart no service and begin no shutdown. -/
theorem stale_callback_harmless
    (hreached : Transition.Reached Begins step (fun x a => x.careful a = true) x)
    {callback : Callback} (hcallback : x.callback = some callback)
    (hstopped : callback.stopped = true) {choice : Choice} {s' : State}
    (hstep : x.state.step (.run callback.task choice) = some s') :
    s' = { x.state with tasks := x.state.tasks.erase callback.task } := by
  obtain ⟨hcalling, hindifferent⟩ := (sound_of_reached hreached).stopped callback hcallback hstopped
  have htask : callback.task = .checkFailure callback.check := by
    rw [Callback.task, hcalling]
  rw [htask] at hstep ⊢
  exact hindifferent.call hstep

end

def run (ok : Probed → Action × Bool → Bool) (input : BootInput) (actions : List (Action × Bool)) :
    Option Probed :=
  (boot input).bind fun s => Transition.exec step ok ⟨s, none⟩ actions

theorem reached_of_run {ok : Probed → Action × Bool → Bool} (hrun : run ok input actions = some x) :
    Transition.Reached Begins step (fun x a => ok x a = true) x := by
  obtain ⟨s, hboot, hexec⟩ := Option.bind_eq_some_iff.mp hrun
  exact ⟨⟨s, none⟩, ⟨⟨input, hboot⟩, rfl⟩, .of_exec hexec⟩

/-- The boot of `web`, a failing probe of `alive`, and a reload up to the end of
its locked section, before the callback gets the lock. -/
def overtakenActions (parsed : Parsed) : List (Action × Bool) :=
  (bootActions 100).map (·, false) ++ [(.checkFails "alive", true)] ++
    [(.request .reload, false), (.run (.reloadFn .control) .go, false),
      (.run (.reloadQueued .control) .go, false), (.reload (.config parsed), false),
      (.reload .go, false)]

/-- The reload leaves `web` and its check as they are. The failure that the
stopped checker has seen still restarts `web`. -/
theorem stopped_checker_restarts : ∃ x s',
    run (fun _ _ => true) checkedInput (overtakenActions checkedInput.parsed) = some x ∧
    x.callback = some ⟨"alive", .calling, true⟩ ∧ x.state.core.restartPending = ∅ ∧
    x.state.step (.run (.checkFailure "alive") (.order ["web"])) = some s' ∧
    s'.core.restartPending = {"web"} ∧ .sender ⟨0, some 0, 0⟩ ∈ s'.tasks := by
  have hrun : (run (fun _ _ => true) checkedInput (overtakenActions checkedInput.parsed)).bind
      (fun x => (x.state.step (.run (.checkFailure "alive") (.order ["web"]))).map fun s' =>
        decide ((x.callback = some ⟨"alive", .calling, true⟩ ∧ x.state.core.restartPending = ∅) ∧
          s'.core.restartPending = {"web"} ∧ .sender ⟨0, some 0, 0⟩ ∈ s'.tasks)) = some true := by
    decide +kernel
  obtain ⟨x, hx, hrest⟩ := Option.bind_eq_some_iff.mp hrun
  obtain ⟨s', hs', hfacts⟩ := Option.map_eq_some_iff.mp hrest
  obtain ⟨⟨hcallback, hpending⟩, hmarked, hsender⟩ := of_decide_eq_true hfacts
  exact ⟨x, s', hx, hcallback, hpending, hs', hmarked, hsender⟩

/-- A reload that takes the reaction of `web` away disarms the callback. -/
theorem disarmed_callback : ∃ x s',
    run careful checkedInput (overtakenActions (plainConfig [webProcess])) = some x ∧
    x.callback = some ⟨"alive", .calling, true⟩ ∧
    x.state.step (.run (.checkFailure "alive") (.order ["web"])) = some s' ∧
    s' = { x.state with tasks := x.state.tasks.erase (.checkFailure "alive") } := by
  have hrun : (run careful checkedInput (overtakenActions (plainConfig [webProcess]))).bind
      (fun x => (x.state.step (.run (.checkFailure "alive") (.order ["web"]))).map fun _ =>
        decide (x.callback = some ⟨"alive", .calling, true⟩)) = some true := by
    decide +kernel
  obtain ⟨x, hx, hrest⟩ := Option.bind_eq_some_iff.mp hrun
  obtain ⟨s', hs', hfacts⟩ := Option.map_eq_some_iff.mp hrest
  have hcallback := of_decide_eq_true hfacts
  exact ⟨x, s', hx, hcallback, hs',
    stale_callback_harmless (reached_of_run hx) hcallback rfl hs'⟩

end Probed

end Gopherd.Daemon
