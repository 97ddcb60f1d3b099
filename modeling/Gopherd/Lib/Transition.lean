import Mathlib.Tactic

/-!
Systems given by a partial step function: runs in which every step meets a
condition, the rule of invariants for them, and goals that no schedule of a
set of actions can miss.
-/

namespace Gopherd.Transition

variable {σ α : Type}

inductive Runs (step : σ → α → Option σ) (ok : σ → α → Prop) (s : σ) : σ → Prop
  | refl : Runs step ok s s
  | tail {t u : σ} (action : α) (run : Runs step ok s t) (allowed : ok t action)
      (taken : step t action = some u) : Runs step ok s u

/-- The states that allowed steps reach from an initial one. -/
def Reached (init : σ → Prop) (step : σ → α → Option σ) (ok : σ → α → Prop) (s : σ) : Prop :=
  ∃ start, init start ∧ Runs step ok start s

def anyStep (_ : σ) (_ : α) : Prop := True

variable {init : σ → Prop} {step : σ → α → Option σ} {ok : σ → α → Prop}

variable {s t : σ}

theorem Runs.invariant {holds : σ → Prop} (hrun : Runs step ok s t) (hs : holds s)
    (hstep : ∀ s action s', holds s → ok s action → step s action = some s' → holds s') :
    holds t := by
  induction hrun with
  | refl => exact hs
  | tail action _ hallowed htaken ih => exact hstep _ action _ ih hallowed htaken

theorem Reached.invariant {holds : σ → Prop} (hreached : Reached init step ok s)
    (hinit : ∀ s, init s → holds s)
    (hstep : ∀ s action s', holds s → ok s action → step s action = some s' → holds s') :
    holds s := by
  obtain ⟨start, hstart, hrun⟩ := hreached
  exact hrun.invariant (hinit start hstart) hstep

/-- An invariant may rest on what is known of the states reached so far. -/
theorem Reached.induction {holds : σ → Prop} (hreached : Reached init step ok s)
    (hinit : ∀ s, init s → holds s)
    (hstep : ∀ s action s', Reached init step ok s → holds s → ok s action →
      step s action = some s' → holds s') :
    holds s := by
  obtain ⟨start, hstart, hrun⟩ := hreached
  induction hrun with
  | refl => exact hinit start hstart
  | tail action hrun hallowed htaken ih =>
    exact hstep _ action _ ⟨start, hstart, hrun⟩ ih hallowed htaken

theorem Runs.weaken {ok' : σ → α → Prop} (hrun : Runs step ok s t)
    (hok : ∀ s action, ok s action → ok' s action) : Runs step ok' s t := by
  induction hrun with
  | refl => exact .refl
  | tail action _ hallowed htaken ih => exact .tail action ih (hok _ _ hallowed) htaken

theorem Runs.trans (hfirst : Runs step ok s t) (hsecond : Runs step ok t u) : Runs step ok s u := by
  induction hsecond with
  | refl => exact hfirst
  | tail action _ hallowed htaken ih => exact .tail action ih hallowed htaken

theorem Reached.weaken {ok' : σ → α → Prop} (hreached : Reached init step ok s)
    (hok : ∀ s action, ok s action → ok' s action) : Reached init step ok' s := by
  obtain ⟨start, hstart, hrun⟩ := hreached
  exact ⟨start, hstart, hrun.weaken hok⟩

/-- Takes the actions one after the other, as long as `ok` allows them. -/
def exec (step : σ → α → Option σ) (ok : σ → α → Bool) (s : σ) : List α → Option σ
  | [] => some s
  | action :: rest =>
    if ok s action then (step s action).bind (fun s' => exec step ok s' rest) else none

theorem Runs.of_exec {ok : σ → α → Bool} (hexec : exec step ok s actions = some t) :
    Runs step (fun s action => ok s action = true) s t := by
  induction actions generalizing s with
  | nil =>
    obtain rfl : s = t := by simpa [exec] using hexec
    exact .refl
  | cons action rest ih =>
    simp only [exec] at hexec
    split_ifs at hexec with hallowed
    obtain ⟨next, hnext, hrest⟩ := Option.bind_eq_some_iff.mp hexec
    exact (Runs.tail action .refl hallowed hnext).trans (ih hrest)

inductive Inevitable (step : σ → α → Option σ) (own : α → Prop) (goal : σ → Prop) : σ → Prop
  | now {s : σ} (reached : goal s) : Inevitable step own goal s
  | later {s : σ} (enabled : ∃ action s', own action ∧ step s action = some s')
      (next : ∀ action s', own action → step s action = some s' →
        Inevitable step own goal s') : Inevitable step own goal s

theorem Inevitable.mono {own : α → Prop} {goal goal' : σ → Prop} (h : Inevitable step own goal s)
    (himp : ∀ t, goal t → goal' t) : Inevitable step own goal' s := by
  induction h with
  | now hgoal => exact .now (himp _ hgoal)
  | later henabled _ ih => exact .later henabled ih

/-- A goal is inevitable when the actions stay enabled and use up a measure. -/
theorem Inevitable.of_measure {own : α → Prop} {goal holds : σ → Prop} (measure : σ → Nat)
    (henabled : ∀ s, holds s → ¬ goal s → ∃ action s', own action ∧ step s action = some s')
    (hstep : ∀ s action s', holds s → ¬ goal s → own action → step s action = some s' →
      holds s' ∧ measure s' < measure s) (hs : holds s) : Inevitable step own goal s := by
  induction hsize : measure s using Nat.strong_induction_on generalizing s with
  | _ size ih =>
    by_cases hgoal : goal s
    · exact .now hgoal
    · refine .later (henabled s hs hgoal) ?_
      intro action s' hown htaken
      obtain ⟨hs', hless⟩ := hstep s action s' hs hgoal hown htaken
      exact ih (measure s') (hsize ▸ hless) hs' rfl

end Gopherd.Transition

/-- A run that was computed, with what was decided about its end. -/
theorem Gopherd.exists_of_decide {σ : Type} {run : Option σ} {holds : σ → Prop}
    [DecidablePred holds] (h : run.map (fun s => decide (holds s)) = some true) :
    ∃ s, run = some s ∧ holds s := by
  obtain ⟨s, hs, hholds⟩ := Option.map_eq_some_iff.mp h
  exact ⟨s, hs, of_decide_eq_true hholds⟩
