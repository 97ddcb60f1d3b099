import Gopherd.Config.ExitCodeMap
import Gopherd.Daemon.ExitCode

/-!
What the parent of gopherd sees of a failure. The code of an exit passes
through the `exit-code-map`, an `int32` and the eight bits of an exit status.
-/

namespace Gopherd.Daemon

open Go

/-- The wait statuses the kernel can report: eight bits for a code, seven for
a signal. -/
def WaitStatus.isKernel : WaitStatus → Bool
  | .exited status => status < 256
  | .signaled signal => 0 < signal && signal < 128
  | .other => true

/-- The status that the parent of a process gets for `os.Exit(code)`. -/
def parentStatus (code : Int) : Int :=
  code % 256

theorem waitStatusCode_bounds (hkernel : status.isKernel = true) :
    0 ≤ waitStatusCode status ∧ waitStatusCode status < 256 := by
  cases status with
  | exited status =>
    simp only [WaitStatus.isKernel, decide_eq_true_eq] at hkernel
    simp only [waitStatusCode]
    omega
  | signaled signal =>
    simp only [WaitStatus.isKernel, Bool.and_eq_true, decide_eq_true_eq] at hkernel
    have hlow : (signal : Int) < 128 := by exact_mod_cast hkernel.2
    simp only [waitStatusCode]
    omega
  | other => exact ⟨by decide, by decide⟩

/-- The 32-bit store keeps the last eight bits. -/
theorem parentStatus_toInt32 (code : Int) : parentStatus (toInt32 code) = parentStatus code := by
  unfold parentStatus toInt32
  rw [Int.bmod_def]
  split <;> omega

/-- A code that is not zero is seen as zero only if the map has turned it into
a multiple of 256. -/
theorem parentStatus_effectiveCode_ne_zero_iff (hkernel : status.isKernel = true)
    (hcode : effectiveCode svc status ≠ 0) :
    parentStatus (effectiveCode svc status) ≠ 0 ↔
      ∀ value, svc.proc.exitCodeMap.lookup (waitStatusCode status) = some value →
        value % 256 ≠ 0 := by
  have hcode' : effectiveCode svc status = svc.remapExitCode (waitStatusCode status) := by
    unfold effectiveCode at hcode ⊢
    dsimp only at hcode ⊢
    split_ifs at hcode ⊢ with hstopped
    · exact absurd rfl hcode
    · rfl
  rw [hcode'] at hcode ⊢
  unfold Service.remapExitCode at hcode ⊢
  cases hmap : svc.proc.exitCodeMap.lookup (waitStatusCode status) with
  | none =>
    obtain ⟨hlow, hhigh⟩ := waitStatusCode_bounds hkernel
    rw [hmap] at hcode
    simp only [Option.getD_none, parentStatus] at hcode ⊢
    constructor
    · intro _ value hvalue
      cases hvalue
    · intro _
      omega
  | some value => simp [parentStatus]

theorem effectiveCode_of_shutdownCode (hshutdown : shutdownCode svc status = some code)
    (hcode : code ≠ 0) : effectiveCode svc status = code := by
  unfold shutdownCode at hshutdown
  split at hshutdown
  · exact Option.some.inj hshutdown
  · exact Option.some.inj hshutdown
  · exact absurd (Option.some.inj hshutdown).symm hcode
  · cases hshutdown
  · cases hshutdown

/-- The parent of a daemon that is shut down for an exit with a code other than zero sees
every status it returns as a failure exactly when the `exit-code-map` does not turn the
exit into a multiple of 256. If the loop ends cleanly, the daemon does return one. -/
theorem failure_seen_by_parent_iff {svc : Service} {status : WaitStatus}
    (hkernel : status.isKernel = true) {code : Int}
    (hshutdown : shutdownCode svc status = some code) (hcode : code ≠ 0) {s : State}
    (hreached : Reached (fun s action => s.exitDecides code action = true) s) :
    (∀ result, s.main = .returned result →
      (parentStatus result ≠ 0 ↔
        ∀ value, svc.proc.exitCodeMap.lookup (waitStatusCode status) = some value →
          value % 256 ≠ 0)) ∧
    (Reached (fun s action => (s.exitDecides code action && s.cleanEnd action) = true) s →
      s.main.loopOver = true → Transition.Inevitable State.step (fun action => action.own = true)
        (fun t => ∃ result, t.main = .returned result ∧
          (parentStatus result ≠ 0 ↔
            ∀ value, svc.proc.exitCodeMap.lookup (waitStatusCode status) = some value →
              value % 256 ≠ 0)) s) := by
  have heffective := effectiveCode_of_shutdownCode hshutdown hcode
  have hseen := parentStatus_effectiveCode_ne_zero_iff hkernel (by rw [heffective]; exact hcode)
  rw [heffective, ← parentStatus_toInt32] at hseen
  constructor
  · intro result hresult
    rw [(Decided.of_reached hreached).returned result hresult]
    exact hseen
  · intro hclean hover
    exact ((DecidedEnding.of_reached hclean).returns hover).mono fun t ht => ⟨_, ht, hseen⟩

def mappedWeb (value : String) : Process :=
  { webProcess with
    exitCodeMap := (parseExitCodeMap [("1", value)]).toOption.getD ∅ }

def mappedExitActions (code : Int) : List Action :=
  bootActions 100 ++ shutdownExitActions 100 1 ++ idleShutdownActions code

/-- A failure that is mapped to 3 is seen as one. -/
theorem mapped_failure_seen : ∃ s svc,
    run (fun s action => s.exitDecides 3 action && s.cleanEnd action)
      (plainInput [mappedWeb "3"]) (mappedExitActions 3) = some s ∧
    shutdownCode svc (.exited 1) = some 3 ∧ s.main = .loopEnd ∧
    Transition.Inevitable State.step (fun action => action.own = true)
      (fun t => ∃ result, t.main = .returned result ∧ parentStatus result ≠ 0) s := by
  have hrun : (run (fun s action => s.exitDecides 3 action && s.cleanEnd action)
      (plainInput [mappedWeb "3"]) (mappedExitActions 3)).map (fun s =>
        decide (shutdownCode (s.core.heap 0) (.exited 1) = some 3 ∧ s.main = .loopEnd ∧
          (s.core.heap 0).proc.exitCodeMap.lookup 1 = some 3)) = some true := by
    decide +kernel
  obtain ⟨s, hs, hshutdown, hmain, hmap⟩ := exists_of_decide hrun
  have hclean := reached_of_run hs
  have hseen := failure_seen_by_parent_iff rfl hshutdown (by decide)
    (hclean.weaken fun _ _ hok => (Bool.and_eq_true_iff.mp hok).1)
  refine ⟨s, s.core.heap 0, hs, hshutdown, hmain, (hseen.2 hclean (by rw [hmain]; rfl)).mono ?_⟩
  rintro t ⟨result, hresult, hiff⟩
  refine ⟨result, hresult, hiff.mpr ?_⟩
  intro value hvalue
  cases hmap.symm.trans hvalue
  decide

/-- The loader takes a map of 1 to 256. The exit with 1 then has the code 256,
which takes the daemon down, and the parent sees success. -/
theorem mapped_failure_seen_as_success :
    (∃ m, parseExitCodeMap [("1", "256")] = .ok m ∧ m.lookup 1 = some 256) ∧
    ∃ s t, run (fun s action => s.exitDecides 256 action && s.cleanEnd action)
        (plainInput [mappedWeb "256"]) (bootActions 100) = some s ∧
      shutdownCode (s.core.heap 0) (.exited 1) = some 256 ∧
      Transition.exec State.step (fun s action => s.exitDecides 256 action && s.cleanEnd action) s
        (shutdownExitActions 100 1 ++ idleShutdownActions 256 ++
          [.stopAll .go] ++ List.replicate 4 (.main .go)) = some t ∧
      t.main = .returned 256 ∧ parentStatus 256 = 0 := by
  have hrun : (run (fun s action => s.exitDecides 256 action && s.cleanEnd action)
      (plainInput [mappedWeb "256"]) (bootActions 100)).bind (fun s =>
        (Transition.exec State.step (fun s action => s.exitDecides 256 action && s.cleanEnd action)
          s (shutdownExitActions 100 1 ++ idleShutdownActions 256 ++
            [.stopAll .go] ++ List.replicate 4 (.main .go))).map (fun t =>
          decide (shutdownCode (s.core.heap 0) (.exited 1) = some 256 ∧
            t.main = .returned 256))) = some true := by
    decide +kernel
  obtain ⟨s, hs, hrest⟩ := Option.bind_eq_some_iff.mp hrun
  obtain ⟨t, ht, hshutdown, hreturned⟩ := exists_of_decide hrest
  exact ⟨⟨_, rfl, by decide +kernel⟩, s, t, hs, hshutdown, ht, hreturned, rfl⟩

end Gopherd.Daemon
