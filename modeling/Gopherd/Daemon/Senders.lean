import Gopherd.Daemon.Progress

/-!
The goroutines that send on the restart channel. The teardown closes the
channel once the shutdown has returned and every sender is done.
-/

namespace Gopherd.Daemon

open Go

def Action.transfers : Action → Bool
  | .run t _ => t.isSender
  | .dispatch => true
  | _ => false

/-- Each sender still has to send, and what it sends has to be received. -/
def State.untransferred (s : State) : Nat :=
  2 * s.tasks.countP Task.isSender + s.restartCh.length

structure Transferring (s : State) : Prop where
  progress : Progress s
  started : s.started = true
  running : s.main.ended = false

/-- A sender that takes its step has sent its request. -/
theorem step_sends (hprogress : Progress s) (hstep : s.step (.run (.sender req) choice) = some s') :
    s' = { s with tasks := s.tasks.erase (.sender req), restartCh := s.restartCh ++ [req] } := by
  obtain ⟨hmem, hsent⟩ := step_run hstep
  have hopen := hprogress.open_of_sender hmem rfl
  simp only [State.stepTask] at hsent
  split_ifs at hsent with hclosed
  · rw [hopen] at hclosed
    cases hclosed
  · cases hsent
    rfl

theorem step_receives {s s' : State} (hstep : s.step .dispatch = some s') :
    ∃ req rest, s.restartCh = req :: rest ∧
      s' = { s with restartCh := rest, tasks := .handler req :: s.tasks } := by
  obtain ⟨-, hstepped⟩ := step_cases hstep
  cases hstepped with
  | @dispatch req rest hqueue => exact ⟨req, rest, hqueue, rfl⟩
  | arrives h => cases h
  | child h => cases h

namespace Transferring

variable {s s' : State} {action : Action}

theorem step (h : Transferring s) (htransfers : action.transfers = true)
    (hstep : s.step action = some s') :
    Transferring s' ∧ s'.untransferred < s.untransferred := by
  have hprogress := h.progress.step hstep
  cases action with
  | run t choice =>
    cases t with
    | sender req =>
      have hmem := (step_run hstep).1
      obtain rfl := step_sends h.progress hstep
      refine ⟨⟨hprogress, h.started, h.running⟩, ?_⟩
      have hcount := (List.perm_cons_erase hmem).countP_eq Task.isSender
      rw [List.countP_cons_of_pos (by rfl)] at hcount
      simp only [State.untransferred, List.length_append, List.length_singleton]
      omega
    | _ => cases htransfers
  | dispatch =>
    obtain ⟨req, rest, hqueue, rfl⟩ := step_receives hstep
    refine ⟨⟨hprogress, h.started, h.running⟩, ?_⟩
    simp only [State.untransferred, hqueue, List.length_cons]
    rw [List.countP_cons_of_neg (by simp [Task.isSender])]
    omega
  | _ => cases htransfers

/-- There is room for a sender's request, or the receiver makes some. -/
theorem enabled (h : Transferring s) (hsenders : s.tasks.any Task.isSender ≠ false) :
    ∃ action s', action.transfers = true ∧ s.step action = some s' := by
  obtain ⟨t, hmem, hsender⟩ := List.any_eq_true.mp (by simpa using hsenders)
  have hopen := h.progress.open_of_sender hmem hsender
  cases t with
  | sender req =>
    by_cases hroom : s.restartCh.length < restartChCapacity
    · exact ⟨.run (.sender req) .go, _, rfl, by
        simp only [State.step, h.running, hmem, State.stepTask, hopen, hroom,
          Bool.false_eq_true, if_false, if_true]; rfl⟩
    · cases hqueue : s.restartCh with
      | nil => simp [hqueue, restartChCapacity] at hroom
      | cons first rest =>
        exact ⟨.dispatch, _, rfl, by
          simp only [State.step, h.running, hqueue, h.started, Bool.false_eq_true, if_false,
            if_true]; rfl⟩
  | _ => cases hsender

/-- Whatever the order in which they take their turns, every sender gets rid of
its request. -/
theorem completes (h : Transferring s) :
    Transition.Inevitable State.step (fun action => action.transfers = true)
      (fun t => t.tasks.any Task.isSender = false) s :=
  .of_measure State.untransferred (fun _ h => h.enabled) (fun _ _ _ h _ => h.step) h

end Transferring

/-- Nothing is sent on the closed restart channel, in any run: that would end
the daemon with a panic. When the channel is closed every sender is gone, a
sender goes away only by sending its request, and after the startup it always
gets to do so. -/
theorem no_restart_sent_on_closed_channel {s : State} (hreached : Reached Transition.anyStep s) :
    s.main ≠ .panicked ∧
    (s.restartClosed = true → s.tasks.any Task.isSender = false) ∧
    (∀ req action s', .sender req ∈ s.tasks → s.step action = some s' →
      .sender req ∈ s'.tasks ∨
        s.restartClosed = false ∧ s'.restartCh = s.restartCh ++ [req]) ∧
    (s.started = true → s.main.ended = false →
      Transition.Inevitable State.step (fun action => action.transfers = true)
        (fun t => t.tasks.any Task.isSender = false) s) := by
  have hprogress := Progress.of_reached hreached
  refine ⟨hprogress.notPanicked, ?_, ?_, fun hstarted hrunning =>
    Transferring.completes ⟨hprogress, hstarted, hrunning⟩⟩
  · intro hclosed
    simpa using hprogress.sendersDone (hprogress.restartClosed hclosed)
  · intro req action s' hmem hstep
    rcases step_keeps hstep hmem with hstays | ⟨choice, rfl⟩ | ⟨hobserved, -⟩
    · exact .inl hstays
    · refine .inr ⟨hprogress.open_of_sender hmem rfl, ?_⟩
      rw [step_sends hprogress hstep]
    · cases hobserved

/-- The sender that restarts `web` completes although the shutdown has begun. -/
theorem restart_of_web_sent_in_shutdown : ∃ s,
    run (fun _ _ => true) (plainInput [restartingWeb]) (bootActions 100 ++
      [.childExit 100 (.exited 1), .main (.child 100), .main (.times ⟨0, 0⟩), .main .go,
        .terminate, .run (.shutdown 0 .signal) .go]) = some s ∧
    s.shuttingDown = true ∧ s.tasks.any Task.isSender = true ∧
    Transition.Inevitable State.step (fun action => action.transfers = true)
      (fun t => t.tasks.any Task.isSender = false) s := by
  have hrun : (run (fun _ _ => true) (plainInput [restartingWeb]) (bootActions 100 ++
      [.childExit 100 (.exited 1), .main (.child 100), .main (.times ⟨0, 0⟩), .main .go,
        .terminate, .run (.shutdown 0 .signal) .go])).map (fun s => decide
      (s.shuttingDown = true ∧ s.tasks.any Task.isSender = true ∧ s.started = true ∧
        s.main.ended = false)) = some true := by
    decide +kernel
  obtain ⟨s, hs, hflag, hsender, hstarted, hrunning⟩ := exists_of_decide hrun
  have hsent := no_restart_sent_on_closed_channel
    ((reached_of_run hs).weaken fun _ _ _ => trivial)
  exact ⟨s, hs, hflag, hsender, hsent.2.2.2 hstarted hrunning⟩

end Gopherd.Daemon
