import Gopherd.Config.Load
import Gopherd.Control.Wire

/-!
Whether a service can be addressed over the control socket. The server splits a
line at every Unicode white space, takes `-o` for a flag of the status and
reads no line of 64 KiB; the loader looks for none of these.
-/

namespace Gopherd.Control

open Go

/-- The plain lines of a name reach their handlers with that name. -/
def Addressable (name : String) : Prop :=
  (∀ verb : Verb, handleConn (verb.word ++ " " ++ name) = some (.ok (.action verb name {}))) ∧
    handleConn ("status" ++ " " ++ name) = some (.ok (.status name false))

theorem handleAction_name (h : handleAction verb args = .ok (.action verb name opts)) :
    name ∈ args := by
  cases args with
  | nil => cases h
  | cons first args =>
    rw [handleAction] at h
    split at h <;> cases h
    exact List.mem_cons_self

theorem handleConn_action (action : Action) {name : String}
    (hfits : (action.word ++ " " ++ name).utf8ByteSize < maxScanTokenSize) :
    handleConn (action.word ++ " " ++ name) =
      some (handleCommand (action.word :: fields name)) := by
  have hfields : fields (action.word ++ " " ++ name) = action.word :: fields name := by
    rw [fields_append, action.word_token.fields]
    rfl
  exact handleConn_eq hfits hfields action.word_ne_logs

theorem handleConn_verb {verb : Verb} {name : String}
    (hfits : (verb.word ++ " " ++ name).utf8ByteSize < maxScanTokenSize) :
    handleConn (verb.word ++ " " ++ name) = some (handleAction verb (fields name)) := by
  rw [← handleCommand_verb]
  exact handleConn_action (.run verb) hfits

/-- Of the four lines that of a restart is the longest. -/
theorem action_line_fits {name : String}
    (hfits : ("restart " ++ name).utf8ByteSize < maxScanTokenSize) (action : Action) :
    (action.word ++ " " ++ name).utf8ByteSize < maxScanTokenSize := by
  have hword : (action.word ++ " ").utf8ByteSize ≤ "restart ".utf8ByteSize := by
    cases action with
    | status => decide
    | run verb => cases verb <;> decide
  rw [String.utf8ByteSize_append] at hfits ⊢
  omega

theorem Addressable.fits {name : String} (h : Addressable name) :
    ("restart " ++ name).utf8ByteSize < maxScanTokenSize :=
  handleConn_fits (h.1 .restart)

/-- A name that is reached is a field of the line. -/
theorem Addressable.token {name : String} (h : Addressable name) : Token name := by
  have hstart := h.1 .start
  rw [handleConn_verb (handleConn_fits hstart)] at hstart
  exact token_of_mem_fields (handleAction_name (Option.some.inj hstart))

theorem Addressable.ne_output {name : String} (h : Addressable name) : name ≠ "-o" := by
  rintro rfl
  have hstatus := (handleConn_action .status (handleConn_fits h.2)).symm.trans h.2
  have houtput : Token "-o" := ⟨by decide, noSpace_of_any (by decide)⟩
  rw [houtput.fields] at hstatus
  exact absurd hstatus (by decide)

theorem addressable_of_token {name : String} (h : Token name) (houtput : name ≠ "-o")
    (hfits : ("restart " ++ name).utf8ByteSize < maxScanTokenSize) : Addressable name := by
  constructor
  · intro verb
    rw [handleConn_verb (action_line_fits hfits (.run verb)), h.fields]
    rfl
  · have hplain : Options.plain.Valid .status := trivial
    rw [show "status" = Action.status.word from rfl,
      handleConn_action .status (action_line_fits hfits .status), h.fields]
    exact congrArg some (handleCommand_status h houtput hplain)

end Gopherd.Control

namespace Gopherd

theorem validateProcess_command (hok : validateProcess signals scheduled p = .ok ()) :
    p.command ≠ "" := by
  unfold validateProcess at hok
  obtain ⟨_, hcommand, -⟩ := Except.bind_eq_ok.mp hok
  simpa using require_eq_ok.mp hcommand

/-- The name of a loaded process, or else its command, is not empty. -/
theorem load_procName_ne {parsed : Parsed} (hload : parsed.load = .ok cfg)
    (hp : p ∈ cfg.processes) : p.procName ≠ "" := by
  obtain ⟨q, hvalid, heq⟩ := load_validated hload hp
  have hq := validateProcess_command hvalid
  have hcommand : p.command = q.command := by
    rw [heq]
  unfold Process.procName
  split
  · assumption
  · rw [hcommand]
    exact hq

open Go Control in
/-- A service is addressable exactly when its name has no white space beyond what
the loader refuses, is not the output flag, and leaves room for the word `restart` in
the longest line that the server reads. -/
theorem load_addressable_iff {parsed : Parsed} {cfg : Config} (hload : parsed.load = .ok cfg)
    {p : Process} (hp : p ∈ cfg.processes) :
    Addressable p.procName ↔
      (∀ c ∈ p.procName.toList, isSpace c = false) ∧ p.procName ≠ "-o" ∧
        ("restart " ++ p.procName).utf8ByteSize < maxScanTokenSize := by
  constructor
  · intro h
    exact ⟨h.token.noSpace, h.ne_output, h.fits⟩
  · rintro ⟨hspace, houtput, hfits⟩
    exact addressable_of_token ⟨load_procName_ne hload hp, hspace⟩ houtput hfits

def singleName (name : String) : Parsed :=
  ⟨[{ Process.empty with name, command := "/bin/a" }], [], ∅, .unset, [], "", false⟩

/-- A no-break space passes the loader's check and splits the line. -/
theorem spacedName_not_addressable : ∃ cfg, (singleName "a\u00a0b").load = .ok cfg ∧
    ∃ p ∈ cfg.processes, ¬Control.Addressable p.procName := by
  refine ⟨_, rfl, _, List.mem_cons_self, ?_⟩
  intro h
  exact absurd (h.token.noSpace '\u00a0' (by decide)) (by decide)

/-- An ordinary name is addressable. -/
theorem load_addressable_web : ∃ cfg, (singleName "web").load = .ok cfg ∧
    ∃ p ∈ cfg.processes, Control.Addressable p.procName := by
  have hload : (singleName "web").load = .ok ⟨(singleName "web").processes, ∅, .unset, [], "",
      false⟩ := by decide +kernel
  refine ⟨_, hload, _, List.mem_cons_self, ?_⟩
  exact (load_addressable_iff hload List.mem_cons_self).mpr
    ⟨Go.noSpace_of_any (by decide), by decide, by decide⟩

end Gopherd
