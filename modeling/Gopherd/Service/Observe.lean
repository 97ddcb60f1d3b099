import Gopherd.Service.Check

/-!
The health of a check.
-/

namespace Gopherd

open Go

inductive ProbeResult where
  | success
  | failure
  | inconclusive
  deriving DecidableEq

structure Health where
  failures : Int
  healthy : Bool
  deriving DecidableEq

def Health.start : Health := ⟨0, true⟩

structure Observed where
  health : Health
  metric : Option (String × Bool)
  callFailure : Bool
  deriving DecidableEq

namespace Checker

def observe (c : Checker) (health : Health) : ProbeResult → Observed
  | .inconclusive => ⟨health, none, false⟩
  | .failure =>
    let failures := addInt health.failures 1
    if c.threshold ≤ failures && health.healthy then
      ⟨⟨failures, false⟩, some (c.name, false), true⟩
    else ⟨⟨failures, health.healthy⟩, some (c.name, false), false⟩
  | .success => ⟨⟨0, true⟩, some (c.name, true), false⟩

def reports (c : Checker) : Health → List ProbeResult → List Bool
  | _, [] => []
  | health, result :: results =>
    (c.observe health result).callFailure :: c.reports (c.observe health result).health results

end Checker

def failureRun (history : List ProbeResult) : Nat :=
  (history.reverse.takeWhile (· ≠ .success)).count .failure

@[simp] theorem failureRun_nil : failureRun [] = 0 := rfl

@[simp] theorem failureRun_success (history : List ProbeResult) :
    failureRun (history ++ [.success]) = 0 := by
  simp [failureRun]

@[simp] theorem failureRun_failure (history : List ProbeResult) :
    failureRun (history ++ [.failure]) = failureRun history + 1 := by
  simp [failureRun]

@[simp] theorem failureRun_inconclusive (history : List ProbeResult) :
    failureRun (history ++ [.inconclusive]) = failureRun history := by
  simp [failureRun]

structure Checker.Tracks (c : Checker) (health : Health) (history : List ProbeResult) : Prop where
  counting : health.healthy = true →
    health.failures = failureRun history ∧ failureRun history < c.threshold
  reported : health.healthy = false → c.threshold ≤ failureRun history

namespace Checker.Tracks

variable {c : Checker} {health : Health} {history : List ProbeResult}

theorem start (hthreshold : 1 ≤ c.threshold) : c.Tracks .start [] := by
  refine ⟨fun _ => ⟨rfl, ?_⟩, fun hset => ?_⟩
  · simp only [failureRun_nil, Nat.cast_zero]
    omega
  · cases hset

/-- A healthy check counts the failure exactly: the count is at most the
threshold, so it does not wrap around. -/
theorem counted (h : c.Tracks health history) (hhealthy : health.healthy = true)
    (hint : c.threshold ≤ maxInt) :
    addInt health.failures 1 = (failureRun (history ++ [.failure]) : Nat) := by
  obtain ⟨hfailures, hlt⟩ := h.counting hhealthy
  rw [hfailures, failureRun_failure, addInt, Nat.cast_add, Nat.cast_one]
  unfold maxInt at hint
  apply Int.bmod_eq_of_le <;> omega

/-- One probe: the failure is reported when it is the one that makes the run as
long as the threshold. -/
theorem observe (h : c.Tracks health history) (hthreshold : 1 ≤ c.threshold)
    (hint : c.threshold ≤ maxInt) (result : ProbeResult) :
    c.Tracks (c.observe health result).health (history ++ [result]) ∧
      ((c.observe health result).callFailure = true ↔
        result = .failure ∧ (failureRun (history ++ [result]) : Int) = c.threshold) := by
  cases result with
  | inconclusive =>
    refine ⟨⟨?_, ?_⟩, by simp [Checker.observe]⟩
    · rw [failureRun_inconclusive]
      exact h.counting
    · rw [failureRun_inconclusive]
      exact h.reported
  | success =>
    refine ⟨⟨fun _ => ⟨by simp [Checker.observe], ?_⟩, fun hset => ?_⟩,
      by simp [Checker.observe]⟩
    · simp only [failureRun_success, Nat.cast_zero]
      omega
    · cases hset
  | failure =>
    have hrun : (failureRun (history ++ [.failure]) : Int) = failureRun history + 1 := by simp
    cases hhealthy : health.healthy with
    | true =>
      have hcounted := h.counted hhealthy hint
      have hbefore := (h.counting hhealthy).2
      by_cases hreached : c.threshold ≤ addInt health.failures 1
      · simp only [Checker.observe, hhealthy, hreached, decide_true, Bool.and_self, if_true,
          true_and]
        refine ⟨⟨fun hset => ?_, fun _ => hcounted ▸ hreached⟩, ?_⟩
        · cases hset
        · exact iff_of_true trivial (by omega)
      · simp only [Checker.observe, hhealthy, hreached, decide_false, Bool.false_and,
          Bool.false_eq_true, if_false, false_iff, true_and]
        refine ⟨⟨fun _ => ⟨hcounted, by omega⟩, fun hset => ?_⟩, by omega⟩
        cases hset
    | false =>
      have hlong := h.reported hhealthy
      simp only [Checker.observe, hhealthy, Bool.and_false, Bool.false_eq_true, if_false,
        false_iff, true_and]
      refine ⟨⟨fun hset => ?_, fun _ => by omega⟩, by omega⟩
      cases hset

/-- The probes after `history`. -/
theorem reports (h : c.Tracks health history) (hthreshold : 1 ≤ c.threshold)
    (hint : c.threshold ≤ maxInt) (results : List ProbeResult) (k : Nat) :
    (c.reports health results)[k]? = some true ↔
      results[k]? = some .failure ∧
        (failureRun (history ++ results.take (k + 1)) : Int) = c.threshold := by
  induction results generalizing health history k with
  | nil => simp [Checker.reports]
  | cons result results ih =>
    obtain ⟨hnext, hreport⟩ := h.observe hthreshold hint result
    cases k with
    | zero => simpa [Checker.reports] using hreport
    | succ k =>
      have hlater := ih hnext k
      rw [List.append_assoc, List.singleton_append] at hlater
      simpa [Checker.reports] using hlater

end Checker.Tracks

/-- Failures are edge-triggered: a probe is reported exactly when it is the
failure that makes the run of failures since the last success as long as the
threshold. The threshold is a 64-bit integer. -/
theorem reports_iff_threshold_reached (c : Checker) (hthreshold : 1 ≤ c.threshold)
    (hint : c.threshold ≤ maxInt) (results : List ProbeResult) (k : Nat) :
    (c.reports .start results)[k]? = some true ↔
      results[k]? = some .failure ∧ (failureRun (results.take (k + 1)) : Int) = c.threshold :=
  (Checker.Tracks.start hthreshold).reports hthreshold hint results k

def pairCheck : Checker :=
  ⟨"web", ⟨none, some ⟨"", 80⟩, none, "1s", "1s", "", 2⟩, secondDuration, secondDuration,
    secondDuration, 2, "localhost:80"⟩

/-- The lost result does not break the run, and the third failure in a row is
not reported again. -/
theorem pairCheck_reports :
    1 ≤ pairCheck.threshold ∧ pairCheck.threshold ≤ maxInt ∧
      ∀ k, (pairCheck.reports .start
        [.failure, .inconclusive, .failure, .failure, .success, .failure])[k]? = some true ↔
        k = 2 := by
  refine ⟨by decide, by decide, fun k => ?_⟩
  rw [reports_iff_threshold_reached pairCheck (by decide) (by decide)]
  constructor
  · rintro ⟨hresult, hrun⟩
    obtain ⟨hlt, -⟩ := List.getElem?_eq_some_iff.mp hresult
    have hall : ∀ j : Fin 6, (failureRun ([.failure, .inconclusive, .failure, .failure, .success,
        .failure].take (j.val + 1)) : Int) = pairCheck.threshold →
        [ProbeResult.failure, .inconclusive, .failure, .failure, .success,
          .failure][j.val]? = some .failure → j.val = 2 := by
      decide
    exact hall ⟨k, hlt⟩ hrun hresult
  · rintro rfl
    decide

end Gopherd
