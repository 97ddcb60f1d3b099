import Gopherd.Logger.Rotate

/-!
Rotations that fail. When the live file cannot be moved or created again, the
writer is left without a file although the rotated ones have already been
shifted.
-/

namespace Gopherd.Logger

open Go

structure Call where
  text : Bytes
  faults : Faults

def Log.run (codec : Codec) (log : Log) (calls : List Call) : Log :=
  calls.foldl (fun log call => (log.write codec call.faults call.text).2) log

/-- In a run each call meets the log as the calls before it have left it. -/
def Log.Along (codec : Codec) (log : Log) (calls : List Call) (holds : Log → Call → Prop) :
    Prop :=
  ∀ front call, front ++ [call] <+: calls → holds (log.run codec front) call

def Faults.works (faults : Faults) : Bool :=
  !faults.ancestors && !faults.close && faults.movable

structure LosesNothing (codec : Codec) (log : Log) (call : Call) : Prop where
  written : call.faults.works = true ∨
      (log.beforeWrite codec call.faults call.text).writer.isOpen = true →
    (log.write codec call.faults call.text).1 = none ∧
      ∃ before, (log.write codec call.faults call.text).2.dir.lookup .live =
          some (before ++ sanitize call.text) ∧
        (log.dir.lookup .live = some before ∨
          before = [] ∧ log.needsRotation (sanitize call.text) = true ∧
            (log.rotate codec call.faults).1 = none)
  kept : log.needsRotation (sanitize call.text) = true →
    (log.rotate codec call.faults).1 ≠ none →
    ∀ form number, (log.rotate codec call.faults).2.dir.lookup (.slot form number) =
      log.dir.lookup (.slot form number)

/-- If the call rotates, the live file can be moved and created again. -/
def Movable (log : Log) (call : Call) : Prop :=
  log.needsRotation (sanitize call.text) = true → call.faults.movable = true

theorem along_cons {codec : Codec} {log : Log} {call : Call} {calls : List Call}
    {holds : Log → Call → Prop} :
    log.Along codec (call :: calls) holds ↔
      holds log call ∧
        (log.write codec call.faults call.text).2.Along codec calls holds := by
  constructor
  · intro h
    refine ⟨h [] call ⟨calls, rfl⟩, fun front other hfront => ?_⟩
    exact h (call :: front) other (List.cons_prefix_cons.mpr ⟨rfl, hfront⟩)
  · rintro ⟨hfirst, hrest⟩ front other hfront
    cases front with
    | nil =>
        obtain ⟨rfl, -⟩ := List.cons_prefix_cons.mp hfront
        exact hfirst
    | cons first front =>
        obtain ⟨rfl, htail⟩ := List.cons_prefix_cons.mp hfront
        exact hrest front other htail

theorem along_nil {codec : Codec} {log : Log} {holds : Log → Call → Prop} :
    log.Along codec [] holds := by
  intro front call hfront
  exact absurd (List.prefix_nil.mp hfront) (by simp)

structure Attached (log : Log) : Prop where
  isOpen : log.writer.isOpen = true
  live : ∃ data, log.dir.lookup .live = some data

theorem attached_openFile (settings : Settings) (dir : Directory) :
    Attached (.openFile settings dir) :=
  ⟨rfl, _, by rw [Log.openFile, GoMap.lookup_insert, if_pos rfl]⟩

theorem append_live {log : Log} {data : Bytes} (hlive : log.dir.lookup .live = some data)
    (clean : Bytes) : (log.append clean).dir.lookup .live = some (data ++ clean) := by
  rw [Log.append, hlive]
  exact (GoMap.lookup_insert _ _ _ _).trans (if_pos rfl)

theorem needsRotation_maxFiles {log : Log} {clean : Bytes}
    (h : log.needsRotation clean = true) : 0 < log.writer.settings.maxFiles := by
  simp only [Log.needsRotation, Bool.and_eq_true, decide_eq_true_eq] at h
  exact log.writer.settings.keeps h.1.1

section Movable

variable (codec : Codec) {log : Log} {call : Call}

/-- A rotation that may move the live file fails before it touches anything. -/
theorem Attached.rotate_failed (h : Attached log) (hmovable : call.faults.movable = true)
    (hpos : 0 < log.writer.settings.maxFiles)
    (hfailed : (log.rotate codec call.faults).1 ≠ none) :
    (log.rotate codec call.faults).2 = log := by
  have hancestors : call.faults.ancestors = true := by
    by_contra hnot
    exact hfailed ((rotate_ok_iff hpos).mpr ⟨by simpa using hnot, hmovable, h.live⟩)
  rw [Log.rotate, if_pos hancestors]

/-- In front of the write itself the live file is as it was, or that of a rotation. -/
theorem Attached.beforeWrite (h : Attached log) (hmovable : Movable log call) :
    (log.beforeWrite codec call.faults call.text).writer.isOpen = true ∧
      ∃ before, (log.beforeWrite codec call.faults call.text).dir.lookup .live = some before ∧
        (log.dir.lookup .live = some before ∨
          before = [] ∧ log.needsRotation (sanitize call.text) = true ∧
            (log.rotate codec call.faults).1 = none) := by
  obtain ⟨data, hlive⟩ := h.live
  unfold Log.beforeWrite
  split_ifs with hneeds
  · have hpos := needsRotation_maxFiles hneeds
    by_cases hok : (log.rotate codec call.faults).1 = none
    · obtain ⟨-, -, hwriter, hempty, -⟩ := rotate_lookup hpos hok
      exact ⟨by rw [hwriter], [], hempty, .inr ⟨rfl, hneeds, hok⟩⟩
    · rw [h.rotate_failed codec (hmovable hneeds) hpos hok]
      exact ⟨h.isOpen, data, hlive, .inl hlive⟩
  · exact ⟨h.isOpen, data, hlive, .inl hlive⟩

theorem Attached.write (h : Attached log) (hmovable : Movable log call) :
    Attached (log.write codec call.faults call.text).2 := by
  obtain ⟨hopen, before, hbefore, -⟩ := h.beforeWrite codec hmovable
  rw [Log.write]
  rw [if_pos hopen]
  exact ⟨hopen, _, append_live hbefore _⟩

theorem Attached.losesNothing (h : Attached log) (hmovable : Movable log call) :
    LosesNothing codec log call := by
  obtain ⟨hopen, before, hbefore, horigin⟩ := h.beforeWrite codec hmovable
  refine ⟨?_, ?_⟩
  · intro _
    rw [Log.write]
    rw [if_pos hopen]
    exact ⟨rfl, before, append_live hbefore _, horigin⟩
  · intro hneeds hfailed form number
    rw [h.rotate_failed codec (hmovable hneeds) (needsRotation_maxFiles hneeds) hfailed]

theorem Attached.along {calls : List Call} (h : Attached log)
    (hmovable : log.Along codec calls Movable) :
    log.Along codec calls (LosesNothing codec) := by
  induction calls generalizing log with
  | nil => exact along_nil
  | cons call calls ih =>
      obtain ⟨hfirst, hrest⟩ := along_cons.mp hmovable
      exact along_cons.mpr ⟨h.losesNothing codec hfirst, ih (h.write codec hfirst) hrest⟩

end Movable

/-- In a run in which every rotation can move the live file and create it again, no call
loses anything. -/
theorem run_losesNothing (codec : Codec) (settings : Settings) (dir : Directory)
    (calls : List Call) (hmovable : (Log.openFile settings dir).Along codec calls Movable) :
    (Log.openFile settings dir).Along codec calls (LosesNothing codec) :=
  (attached_openFile settings dir).along codec hmovable

def nearlyFull : Log :=
  .openFile ⟨3, 1, false, by decide⟩
    (GoMap.ofList [(.live, ascii "ab"), (.slot .plain 1, ascii "old")])

/-- The live file cannot be moved once. The kept file is gone, and the next line,
for which every call works, is not written. -/
theorem rename_failure_loses :
    (nearlyFull.rotate stored { noFaults with rename := true }).1 = some .rename ∧
      nearlyFull.dir.lookup (.slot .plain 1) = some (ascii "old") ∧
      (nearlyFull.run stored [⟨ascii "cd", { noFaults with rename := true }⟩]).dir.lookup
        (.slot .plain 1) = none ∧
      ((nearlyFull.run stored [⟨ascii "cd", { noFaults with rename := true }⟩]).write stored
        noFaults (ascii "e")).1 = some .notOpen := by
  decide +kernel

/-- The first line does not rotate, so that its faults do not matter; the second one
triggers a rotation in which only `Close` fails. -/
theorem run_losesNothing_close :
    nearlyFull.Along stored
      [⟨ascii "c", { noFaults with rename := true }⟩, ⟨ascii "d", { noFaults with close := true }⟩]
      (LosesNothing stored) := by
  refine run_losesNothing stored _ _ _ (along_cons.mpr ⟨?_, along_cons.mpr ⟨?_, along_nil⟩⟩)
  · intro hneeds
    exact absurd hneeds (by decide +kernel)
  · intro _
    rfl

structure Recovers (log : Log) (call : Call) : Prop where
  rotates : log.needsRotation (sanitize call.text) = true
  ancestors : call.faults.ancestors = false
  movable : call.faults.movable = true
  live : ∃ data, log.dir.lookup .live = some data

section Closed

variable (codec : Codec) {log : Log} {call : Call}

theorem rotate_isOpen (hclosed : log.writer.isOpen = false)
    (hpos : 0 < log.writer.settings.maxFiles)
    (hfailed : (log.rotate codec call.faults).1 ≠ none) :
    (log.rotate codec call.faults).2.writer.isOpen = false := by
  cases hancestors : call.faults.ancestors with
  | true => simpa [Log.rotate, hancestors] using hclosed
  | false =>
      cases hrename : call.faults.rename with
      | true => simp [Log.rotate, hancestors, hrename]
      | false =>
          cases hlive : log.dir.lookup .live with
          | none => simp [Log.rotate, hancestors, hrename, renameFile, makeRoom_lookup_live, hlive]
          | some data =>
              rw [rotate_eq hpos hancestors hrename hlive] at hfailed ⊢
              split_ifs at hfailed ⊢
              · rfl
              · exact absurd rfl hfailed

theorem closed_beforeWrite (hclosed : log.writer.isOpen = false) :
    (log.beforeWrite codec call.faults call.text).writer.isOpen = true ↔ Recovers log call := by
  unfold Log.beforeWrite
  split_ifs with hneeds
  · have hpos := needsRotation_maxFiles hneeds
    by_cases hok : (log.rotate codec call.faults).1 = none
    · obtain ⟨hancestors, hmovable, hlive⟩ := (rotate_ok_iff hpos).mp hok
      obtain ⟨-, -, hwriter, -⟩ := rotate_lookup hpos hok
      exact iff_of_true (by rw [hwriter]) ⟨hneeds, hancestors, hmovable, hlive⟩
    · rw [rotate_isOpen codec hclosed hpos hok]
      refine iff_of_false Bool.false_ne_true ?_
      intro h
      exact hok ((rotate_ok_iff hpos).mpr ⟨h.ancestors, h.movable, h.live⟩)
  · exact iff_of_false (by rw [hclosed]; exact Bool.false_ne_true) fun h => hneeds h.rotates

theorem closed_write (hclosed : log.writer.isOpen = false) :
    (log.write codec call.faults call.text).1 = some .notOpen ↔ ¬Recovers log call := by
  rw [← closed_beforeWrite codec hclosed, Log.write]
  split_ifs with hopen
  · exact iff_of_false (by simp) (not_not_intro hopen)
  · exact iff_of_true rfl hopen

theorem closed_stays (hclosed : log.writer.isOpen = false) (hlost : ¬Recovers log call) :
    (log.write codec call.faults call.text).2.writer.isOpen = false := by
  rw [← closed_beforeWrite codec hclosed] at hlost
  rw [Log.write, if_neg hlost]
  simpa using hlost

end Closed

/-- A writer that has lost its file drops every line of a run exactly when no call of the
run recovers: until a rotation finds a file under the name of the log and can create it
again, nothing is written, whatever else works. -/
theorem lines_lost_iff (codec : Codec) {log : Log} (hclosed : log.writer.isOpen = false)
    (calls : List Call) :
    log.Along codec calls
        (fun log call => (log.write codec call.faults call.text).1 = some .notOpen) ↔
      log.Along codec calls (fun log call => ¬Recovers log call) := by
  induction calls generalizing log with
  | nil => exact iff_of_true along_nil along_nil
  | cons call calls ih =>
      rw [along_cons, along_cons, closed_write codec hclosed]
      exact and_congr_right fun hlost => ih (closed_stays codec hclosed hlost)

/-- The live file cannot be created again once. Two lines are lost, although every call
works again: no file is left that a rotation could move. -/
theorem reopen_failure_loses :
    (nearlyFull.run stored [⟨ascii "cd", { noFaults with reopen := true }⟩]).Along stored
      [⟨ascii "e", noFaults⟩, ⟨ascii "fg", noFaults⟩]
      (fun log call => (log.write stored call.faults call.text).1 = some .notOpen) := by
  refine (lines_lost_iff stored (by decide +kernel) _).mpr
    (along_cons.mpr ⟨?_, along_cons.mpr ⟨?_, along_nil⟩⟩)
  · intro h
    exact absurd h.rotates (by decide +kernel)
  · intro h
    obtain ⟨data, hlive⟩ := h.live
    have hgone : (((nearlyFull.run stored [⟨ascii "cd", { noFaults with reopen := true }⟩]).write
        stored noFaults (ascii "e")).2.dir.lookup .live) = none := by decide +kernel
    rw [hgone] at hlive
    cases hlive

end Gopherd.Logger
