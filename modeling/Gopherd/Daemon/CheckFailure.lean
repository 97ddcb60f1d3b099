import Gopherd.Daemon.Frame

/-!
How `handleCheckFailure` ends. It visits the services in the order in which Go
iterates the map and returns at the first one that asks for a shutdown.
-/

namespace Gopherd.Daemon

open Go

def ExitAction.shutdownCode : ExitAction → Option Int
  | .shutdown | .failureShutdown => some 1
  | .successShutdown => some 0
  | .restart | .ignore => none

def State.reaction (s : State) (check name : String) : Option (InstId × ExitAction) :=
  (s.core.services.lookup name).bind fun i =>
    ((s.core.heap i).onCheckFailure.lookup check).map (i, ·)

def State.shutdownAsked (s : State) (check name : String) : Option Int :=
  (s.reaction check name).bind fun reaction => ExitAction.shutdownCode reaction.2

/-- The services that are restarted in the order `names`, and the code of the
shutdown that ends the loop. -/
def State.checkPlan (s : State) (check : String) : List String → List InstId × Option Int
  | [] => ([], none)
  | name :: rest =>
    match s.reaction check name with
    | some (i, .restart) => ((s.checkPlan check rest).1.cons i, (s.checkPlan check rest).2)
    | some (_, .shutdown) | some (_, .failureShutdown) => ([], some 1)
    | some (_, .successShutdown) => ([], some 0)
    | some (_, .ignore) | none => s.checkPlan check rest

section

variable {s : State} {check name : String} {names : List String}

theorem checkPlan_of_shutdown (h : s.shutdownAsked check name = some code) :
    s.checkPlan check (name :: names) = ([], some code) := by
  obtain ⟨⟨i, action⟩, hreaction, hcode⟩ := Option.bind_eq_some_iff.mp h
  cases action <;> cases hcode <;> simp [State.checkPlan, hreaction]

theorem checkPlan_of_restart (h : s.reaction check name = some (i, .restart)) :
    s.checkPlan check (name :: names) =
      (i :: (s.checkPlan check names).1, (s.checkPlan check names).2) := by
  simp [State.checkPlan, h]

theorem checkPlan_of_none (h : s.shutdownAsked check name = none)
    (hrestart : ∀ i, s.reaction check name ≠ some (i, .restart)) :
    s.checkPlan check (name :: names) = s.checkPlan check names := by
  rw [State.checkPlan]
  cases hreaction : s.reaction check name with
  | none => rfl
  | some reaction =>
    obtain ⟨i, action⟩ := reaction
    rw [State.shutdownAsked, hreaction] at h
    cases action with
    | restart => exact absurd hreaction (hrestart i)
    | ignore => rfl
    | _ => cases h

/-- The first service that asks for a shutdown decides. -/
theorem checkPlan_code :
    (s.checkPlan check names).2 = names.findSome? (s.shutdownAsked check) := by
  induction names with
  | nil => rfl
  | cons name names ih =>
    rw [List.findSome?_cons]
    cases hcode : s.shutdownAsked check name with
    | some code => rw [checkPlan_of_shutdown hcode]
    | none =>
      by_cases hrestart : ∃ i, s.reaction check name = some (i, .restart)
      · obtain ⟨i, hreaction⟩ := hrestart
        rw [checkPlan_of_restart hreaction, ih]
      · rw [checkPlan_of_none hcode (not_exists.mp hrestart), ih]

/-- Without a shutdown every service is visited. -/
theorem mem_checkPlan (hnone : (s.checkPlan check names).2 = none) (i : InstId) :
    i ∈ (s.checkPlan check names).1 ↔
      ∃ name ∈ names, s.reaction check name = some (i, .restart) := by
  induction names with
  | nil => simp [State.checkPlan]
  | cons name names ih =>
    have hcode : s.shutdownAsked check name = none := by
      rw [checkPlan_code] at hnone
      exact List.findSome?_eq_none_iff.mp hnone name List.mem_cons_self
    by_cases hrestart : ∃ j, s.reaction check name = some (j, .restart)
    · obtain ⟨j, hreaction⟩ := hrestart
      rw [checkPlan_of_restart hreaction] at hnone ⊢
      rw [List.mem_cons, ih hnone, List.exists_mem_cons_iff, hreaction]
      simp [eq_comm]
    · rw [checkPlan_of_none hcode (not_exists.mp hrestart)] at hnone ⊢
      rw [ih hnone, List.exists_mem_cons_iff]
      simp [not_exists.mp hrestart i]

/-- What the loop does for its next service: it ends with a shutdown, restarts
the service, or passes over it. -/
theorem checkLoop_cases (names : List String) {s₀ : State} (hquiet : Quiet s₀.core s.core) :
    (∃ code, s₀.shutdownAsked check name = some code ∧
      State.checkLoop check (name :: names) s = s.spawn (.shutdown code .check)) ∨
    (∃ i, s₀.reaction check name = some (i, .restart) ∧
      State.checkLoop check (name :: names) s = State.checkLoop check names
        ((s.setCore (s.core.stopForRestart i)).enqueueRestart ⟨i, s.core.done i, 0⟩)) ∨
    ((s₀.shutdownAsked check name = none ∧
        ∀ i, s₀.reaction check name ≠ some (i, .restart)) ∧
      State.checkLoop check (name :: names) s = State.checkLoop check names s) := by
  rw [State.checkLoop]
  cases hlookup : s.core.services.lookup name with
  | none =>
    have hreaction : s₀.reaction check name = none := by
      rw [State.reaction, ← hquiet.services, hlookup]
      rfl
    exact .inr (.inr ⟨⟨by simp [State.shutdownAsked, hreaction], by simp [hreaction]⟩, rfl⟩)
  | some i =>
    have hreaction : s₀.reaction check name =
        ((s.core.heap i).onCheckFailure.lookup check).map (i, ·) := by
      rw [State.reaction, ← hquiet.services, hlookup, hquiet.onCheckFailure]
      rfl
    dsimp only
    cases haction : (s.core.heap i).onCheckFailure.lookup check with
    | none =>
      rw [haction] at hreaction
      exact .inr (.inr ⟨⟨by simp [State.shutdownAsked, hreaction], by simp [hreaction]⟩, rfl⟩)
    | some action =>
      rw [haction] at hreaction
      have hasked : s₀.shutdownAsked check name = ExitAction.shutdownCode action := by
        rw [State.shutdownAsked, hreaction]
        rfl
      cases action with
      | restart => exact .inr (.inl ⟨i, hreaction, rfl⟩)
      | shutdown => exact .inl ⟨1, hasked, rfl⟩
      | successShutdown => exact .inl ⟨0, hasked, rfl⟩
      | failureShutdown => exact .inl ⟨1, hasked, rfl⟩
      | ignore => exact .inr (.inr ⟨⟨hasked, by simp [hreaction]⟩, rfl⟩)

/-- The goroutines that the loop creates. -/
theorem checkLoop_tasks {s₀ : State} (hquiet : Quiet s₀.core s.core) :
    ∃ reqs : List RestartReq, reqs.map RestartReq.svc = (s₀.checkPlan check names).1.reverse ∧
      (State.checkLoop check names s).tasks =
        (s₀.checkPlan check names).2.toList.map (.shutdown · .check) ++
          (reqs.map .sender ++ s.tasks) := by
  induction names generalizing s with
  | nil => exact ⟨[], rfl, rfl⟩
  | cons name names ih =>
    rcases checkLoop_cases names hquiet with
      ⟨code, hasked, heq⟩ | ⟨i, hreaction, heq⟩ | ⟨⟨hasked, hrestart⟩, heq⟩ <;> rw [heq]
    · rw [checkPlan_of_shutdown hasked]
      exact ⟨[], rfl, rfl⟩
    · let stopped := s.setCore (s.core.stopForRestart i)
      obtain ⟨reqs, hreqs, htasks⟩ := ih (hquiet.trans (.stopForRestart s.core i))
        (s := stopped.enqueueRestart ⟨i, s.core.done i, 0⟩)
      rw [checkPlan_of_restart hreaction]
      refine ⟨reqs ++ [⟨i, s.core.done i, 0⟩], by simp [hreqs], ?_⟩
      rw [htasks]
      simp [stopped, State.enqueueRestart, State.spawn, State.setCore]
    · rw [checkPlan_of_none hasked hrestart]
      exact ih hquiet

end

/-- The goroutines that are in `s'` and were not in `s`, newest first. -/
def State.created (s s' : State) : List Task :=
  s'.tasks.take (s'.tasks.length - s.tasks.length)

/-- The call of `handleCheckFailure` that leads from `s` to `s'` has begun a
shutdown with the code. -/
def State.begins (s s' : State) (code : Int) : Prop :=
  .shutdown code .check ∈ s.created s'

instance (s s' : State) (code : Int) : Decidable (s.begins s' code) :=
  inferInstanceAs (Decidable (_ ∈ _))

def State.restarts (s s' : State) (i : InstId) : Prop :=
  ∃ req : RestartReq, req.svc = i ∧ .sender req ∈ s.created s'

structure State.SameEnd (s s₁ s₂ : State) : Prop where
  shutdown : ∀ code, s.begins s₁ code ↔ s.begins s₂ code
  restarts : (∀ code, ¬ s.begins s₁ code) → ∀ i, s.restarts s₁ i ↔ s.restarts s₂ i

section

variable {s : State} {check : String} {names : List String}

theorem checkLoop_created (check : String) (names : List String) :
    (∀ code, s.begins (State.checkLoop check names s) code ↔
      (s.checkPlan check names).2 = some code) ∧
    ∀ i, s.restarts (State.checkLoop check names s) i ↔ i ∈ (s.checkPlan check names).1 := by
  obtain ⟨reqs, hreqs, htasks⟩ : ∃ reqs : List RestartReq, _ ∧ _ :=
    checkLoop_tasks (Quiet.refl s.core)
  have hcreated : s.created (State.checkLoop check names s) =
      (s.checkPlan check names).2.toList.map (.shutdown · .check) ++ reqs.map .sender := by
    rw [State.created, htasks, ← List.append_assoc, List.length_append, Nat.add_sub_cancel,
      List.take_left]
  constructor
  · intro code
    rw [State.begins, hcreated]
    cases (s.checkPlan check names).2 <;> simp [eq_comm]
  · intro i
    have hmem : i ∈ (s.checkPlan check names).1 ↔ i ∈ reqs.map RestartReq.svc := by
      rw [hreqs, List.mem_reverse]
    rw [State.restarts, hcreated, hmem, List.mem_map]
    cases (s.checkPlan check names).2 <;> simp [and_comm]

def State.OneCode (s : State) (check : String) : Prop :=
  ∀ name name' code code', s.shutdownAsked check name = some code →
    s.shutdownAsked check name' = some code' → code = code'

/-- A service that asks for a shutdown is in the map. -/
theorem mem_keys_of_shutdownAsked (h : s.shutdownAsked check name = some code) :
    name ∈ s.core.services.keys := by
  obtain ⟨reaction, hreaction, -⟩ := Option.bind_eq_some_iff.mp h
  obtain ⟨i, hlookup, -⟩ := Option.bind_eq_some_iff.mp hreaction
  rw [GoMap.mem_keys, hlookup]
  rfl

theorem sameEnd_of_oneCode (hcode : s.OneCode check) (hperm : names.Perm names') :
    s.SameEnd (State.checkLoop check names s) (State.checkLoop check names' s) := by
  have hsame : (s.checkPlan check names).2 = (s.checkPlan check names').2 := by
    rw [checkPlan_code, checkPlan_code]
    cases hfound : names.findSome? (s.shutdownAsked check) with
    | none =>
      rw [List.findSome?_eq_none_iff] at hfound
      exact (List.findSome?_eq_none_iff.mpr fun name hname =>
        hfound name (hperm.mem_iff.mpr hname)).symm
    | some code =>
      obtain ⟨name, hname, hasked⟩ := List.exists_of_findSome?_eq_some hfound
      cases hfound' : names'.findSome? (s.shutdownAsked check) with
      | none =>
        have hnone := List.findSome?_eq_none_iff.mp hfound' name (hperm.mem_iff.mp hname)
        rw [hnone] at hasked
        cases hasked
      | some code' =>
        obtain ⟨name', -, hasked'⟩ := List.exists_of_findSome?_eq_some hfound'
        rw [hcode name name' code code' hasked hasked']
  constructor
  · intro code
    rw [(checkLoop_created check names).1, (checkLoop_created check names').1, hsame]
  · intro hquiet i
    have hnone : (s.checkPlan check names).2 = none := by
      cases hplan : (s.checkPlan check names).2 with
      | none => rfl
      | some code => exact absurd (((checkLoop_created check names).1 code).mpr hplan) (hquiet code)
    rw [(checkLoop_created check names).2, (checkLoop_created check names').2,
      mem_checkPlan hnone, mem_checkPlan (hsame ▸ hnone)]
    simp only [hperm.mem_iff]

/-- The order that visits one of the names first. -/
theorem checkLoop_first (h : s.shutdownAsked check name = some code) :
    ∃ names, names.Perm s.core.services.keys ∧
      ∀ code', s.begins (State.checkLoop check names s) code' ↔ code' = code := by
  refine ⟨name :: s.core.services.keys.erase name,
    (List.perm_cons_erase (mem_keys_of_shutdownAsked h)).symm, fun code' => ?_⟩
  rw [(checkLoop_created _ _).1, checkPlan_of_shutdown h]
  simp [eq_comm]

def State.called (s : State) (check : String) : State :=
  { s with tasks := s.tasks.erase (.checkFailure check) }

theorem step_checkFailure (names : List String) (hlive : s.main.ended = false)
    (hfree : s.unlocked = true) (hmem : .checkFailure check ∈ s.tasks)
    (hperm : names.Perm s.core.services.keys) :
    s.step (.run (.checkFailure check) (.order names)) =
      some (if s.shuttingDown then s.called check
        else State.checkLoop check names (s.called check)) := by
  have hfree' : State.unlocked { s with tasks := s.tasks.erase (.checkFailure check) } = true :=
    hfree
  have hperm' : names.isPerm s.core.services.keys = true := List.isPerm_iff.mpr hperm
  simp only [State.step, hlive, hmem, if_true, Bool.false_eq_true, if_false, State.stepTask, hfree',
    Bool.not_true, hperm']
  split_ifs <;> rfl

/-- A call of `handleCheckFailure` returns in every order of the services. It
ends the same way in all of them if and only if no two services ask for
shutdowns with different exit codes, or a shutdown is already under way. -/
theorem check_failure_end_iff (hlive : s.main.ended = false) (hfree : s.unlocked = true)
    (hmem : .checkFailure check ∈ s.tasks) :
    (∀ names names', names.Perm s.core.services.keys → names'.Perm s.core.services.keys →
      ∃ s₁ s₂, s.step (.run (.checkFailure check) (.order names)) = some s₁ ∧
        s.step (.run (.checkFailure check) (.order names')) = some s₂ ∧
        (s.called check).SameEnd s₁ s₂) ↔
      (s.shuttingDown = false → s.OneCode check) := by
  have hstep := fun names => step_checkFailure names hlive hfree hmem
  have hloop : s.shuttingDown = false → ∀ names, names.Perm s.core.services.keys →
      s.step (.run (.checkFailure check) (.order names)) =
        some (State.checkLoop check names (s.called check)) := fun hrun names hperm =>
    (hstep names hperm).trans (congrArg some (if_neg (ne_true_of_eq_false hrun)))
  constructor
  · intro hsame hrun name name' code code' hasked hasked'
    obtain ⟨_, hfirst, hbegins⟩ := checkLoop_first (s := s.called check) hasked
    obtain ⟨_, hfirst', hbegins'⟩ := checkLoop_first (s := s.called check) hasked'
    obtain ⟨s₁, s₂, hs₁, hs₂, hend⟩ := hsame _ _ hfirst hfirst'
    rw [hloop hrun _ hfirst] at hs₁
    rw [hloop hrun _ hfirst'] at hs₂
    cases hs₁
    cases hs₂
    exact (hbegins' code).mp ((hend.shutdown code).mp ((hbegins code).mpr rfl))
  · intro hcode names names' hperm hperm'
    cases hrun : s.shuttingDown with
    | true =>
      have hidle : ∀ names, names.Perm s.core.services.keys →
          s.step (.run (.checkFailure check) (.order names)) = some (s.called check) :=
        fun names hperm => (hstep names hperm).trans (congrArg some (if_pos hrun))
      exact ⟨_, _, hidle names hperm, hidle names' hperm', fun _ => .rfl, fun _ _ => .rfl⟩
    | false =>
      exact ⟨_, _, hloop hrun names hperm, hloop hrun names' hperm',
        sameEnd_of_oneCode (s := s.called check) (hcode hrun) (hperm.trans hperm'.symm)⟩

end

def reactingInput (app web : String) : BootInput :=
  let reacting (name action : String) : Process :=
    { namedProcess name with
      startup := .disabled, onCheckFailure := (∅ : GoMap String String).insert "alive" action }
  let processes := [reacting "app" app, reacting "web" web]
  { plainInput processes with
    parsed := { plainConfig processes with
      checks := (∅ : GoMap String CheckConfig).insert "alive" (execCheck "/bin/alive") } }

def failingActions : List Action :=
  idleBootActions ++ [.checkFails "alive"]

/-- `app` asks for a success and `web` for a failure when `alive` fails: which
of them decides on the exit code depends on the order of the map. -/
theorem order_decides_on_code : ∃ s s₁ s₂,
    run (fun _ _ => true) (reactingInput "success-shutdown" "failure-shutdown") failingActions =
      some s ∧
    s.step (.run (.checkFailure "alive") (.order ["app", "web"])) = some s₁ ∧
    s.step (.run (.checkFailure "alive") (.order ["web", "app"])) = some s₂ ∧
    ((s.called "alive").begins s₁ 0 ∧ ¬ (s.called "alive").begins s₁ 1) ∧
    (s.called "alive").begins s₂ 1 ∧ ¬ (s.called "alive").begins s₂ 0 := by
  have hrun : (run (fun _ _ => true) (reactingInput "success-shutdown" "failure-shutdown")
      failingActions).bind (fun s =>
        (s.step (.run (.checkFailure "alive") (.order ["app", "web"]))).bind fun s₁ =>
          (s.step (.run (.checkFailure "alive") (.order ["web", "app"]))).map fun s₂ =>
            decide (((s.called "alive").begins s₁ 0 ∧ ¬ (s.called "alive").begins s₁ 1) ∧
              (s.called "alive").begins s₂ 1 ∧ ¬ (s.called "alive").begins s₂ 0)) =
      some true := by
    decide +kernel
  obtain ⟨s, hs, hfirst⟩ := Option.bind_eq_some_iff.mp hrun
  obtain ⟨s₁, hs₁, hsecond⟩ := Option.bind_eq_some_iff.mp hfirst
  obtain ⟨s₂, hs₂, hfacts⟩ := Option.map_eq_some_iff.mp hsecond
  exact ⟨s, s₁, s₂, hs, hs₁, hs₂, of_decide_eq_true hfacts⟩

/-- With a restart and a shutdown the daemon shuts down in either order. -/
theorem restart_and_shutdown_end : ∃ s,
    run (fun _ _ => true) (reactingInput "restart" "failure-shutdown") failingActions = some s ∧
    ∃ s₁ s₂, s.step (.run (.checkFailure "alive") (.order ["app", "web"])) = some s₁ ∧
      s.step (.run (.checkFailure "alive") (.order ["web", "app"])) = some s₂ ∧
      (s.called "alive").SameEnd s₁ s₂ := by
  have hrun : (run (fun _ _ => true) (reactingInput "restart" "failure-shutdown")
      failingActions).map (fun s => decide (s.main.ended = false ∧ s.unlocked = true ∧
        .checkFailure "alive" ∈ s.tasks ∧ s.core.services.keys = ["web", "app"] ∧
        s.shutdownAsked "alive" "app" = none ∧ s.shutdownAsked "alive" "web" = some 1)) =
      some true := by
    decide +kernel
  obtain ⟨s, hs, hlive, hfree, hmem, hkeys, happ, hweb⟩ := exists_of_decide hrun
  have honly : ∀ name code, s.shutdownAsked "alive" name = some code → code = 1 := by
    intro name code hasked
    have hname := mem_keys_of_shutdownAsked hasked
    rw [hkeys] at hname
    rcases List.mem_pair.mp hname with rfl | rfl
    · exact Option.some.inj (hasked.symm.trans hweb)
    · rw [happ] at hasked
      cases hasked
  refine ⟨s, hs, (check_failure_end_iff hlive hfree hmem).mpr ?_ _ _ ?_ ?_⟩
  · intro _ name name' code code' hasked hasked'
    rw [honly name code hasked, honly name' code' hasked']
  · rw [hkeys]
    exact .swap "web" "app" []
  · rw [hkeys]

end Gopherd.Daemon
