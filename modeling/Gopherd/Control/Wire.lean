import Gopherd.Go.Duration
import Gopherd.Lib.Except

/-!
The control protocol. The client turns its arguments into a line of words; the
server splits the line at white space and calls a handler. Both strip the flags
on their own: the client before it looks at the order of action and name, the
server behind the name. The daemon sets every handler.
-/

namespace Gopherd.Control

open Go

def clientCommands : List String :=
  ["start", "stop", "restart", "status", "signal", "logs", "reload"]

def serviceActions : List String :=
  ["start", "stop", "restart", "status"]

def maxWaitTimeout : Duration := 300 * secondDuration

structure ActionOptions where
  timeout : Duration := 0
  wait : Bool := false
  deriving DecidableEq

inductive FlagError where
  | timeoutRequired
  | invalidTimeout (text : String) (error : DurationError)
  | timeoutNotPositive (text : String)
  | timeoutTooLong (text : String)
  | timeoutWithoutWait
  deriving DecidableEq

def ActionOptions.wire (opts : ActionOptions) : String :=
  if !opts.wait then ""
  else if 0 < opts.timeout then "--wait --timeout " ++ durationString opts.timeout
  else "--wait"

def extractWaitFlagsFrom (positional : List String) (opts : ActionOptions) :
    List String → Except FlagError (List String × ActionOptions)
  | [] =>
    if 0 < opts.timeout ∧ opts.wait = false then .error .timeoutWithoutWait
    else .ok (positional, opts)
  | arg :: rest =>
    if arg = "--wait" then extractWaitFlagsFrom positional { opts with wait := true } rest
    else if arg = "--timeout" then
      match rest with
      | [] => .error .timeoutRequired
      | text :: rest =>
        match parseDuration text with
        | .error error => .error (.invalidTimeout text error)
        | .ok d =>
          if d ≤ 0 then .error (.timeoutNotPositive text)
          else if maxWaitTimeout < d then .error (.timeoutTooLong text)
          else extractWaitFlagsFrom positional { opts with timeout := d } rest
    else extractWaitFlagsFrom (positional ++ [arg]) opts rest

def extractWaitFlags (args : List String) : Except FlagError (List String × ActionOptions) :=
  extractWaitFlagsFrom [] {} args

inductive ClientError where
  | outputFormat (format : String)
  | flags (error : FlagError)
  | waitNotValid
  | unknownAction (action : String)
  | usage
  deriving DecidableEq

/-- `extractOutputFlag`: takes the first `-o` and its format out. -/
def extractOutputFlag : List String → Except ClientError (List String × String)
  | [] => .ok ([], "")
  | [arg] => .ok ([arg], "")
  | arg :: next :: rest =>
    if arg = "-o" then
      if next ≠ "json" then .error (.outputFormat next) else .ok (rest, "-o " ++ next)
    else do
      let (positional, flag) ← extractOutputFlag (next :: rest)
      pure (arg :: positional, flag)

def buildPositionalCommand (args : List String) : Except ClientError String :=
  match args with
  | [command] => if command = "status" ∨ command = "reload" then .ok command else .error .usage
  | [first, second] =>
    if first = "logs" then .ok (first ++ " " ++ second)
    else if first ∈ serviceActions then .ok (first ++ " " ++ second)
    else if second ∈ serviceActions then .ok (second ++ " " ++ first)
    else .error (.unknownAction second)
  | first :: second :: third :: rest =>
    if first = "signal" ∧ rest = [] then .ok ("signal " ++ second ++ " " ++ third)
    else if first = "logs" then .ok (" ".intercalate args)
    else .error .usage
  | [] => .error .usage

def waitableCommand (command : String) : Bool :=
  (cut command ' ').1 ∈ ["start", "stop", "restart"]

def buildClientCommand (args : List String) : Except ClientError String := do
  let (positional, flag) ← extractOutputFlag args
  match extractWaitFlags positional with
  | .error error => .error (.flags error)
  | .ok (positional, opts) => do
      let command ← buildPositionalCommand positional
      if opts.wait then
        if !waitableCommand command then .error .waitNotValid
        else finish (command ++ " " ++ opts.wire) flag
      else finish command flag
where
  finish (command flag : String) : Except ClientError String :=
    if flag ≠ "" then .ok (command ++ " " ++ flag) else .ok command

inductive Verb where
  | start
  | stop
  | restart
  deriving DecidableEq

def Verb.word : Verb → String
  | .start => "start"
  | .stop => "stop"
  | .restart => "restart"

inductive Call where
  | stats (json : Bool)
  | status (name : String) (json : Bool)
  | action (verb : Verb) (name : String) (opts : ActionOptions)
  | signal (name signal : String)
  | reload
  | logs (name : String) (follow : Bool)
  deriving DecidableEq

inductive CommandError where
  | emptyCommand
  | outputRequired
  | outputFormat (format : String)
  | extraName (arg : String)
  | nameRequired (command : String)
  | flags (error : FlagError)
  | unexpectedArgument (command arg : String)
  | signalRequired
  | logsName
  | unknownCommand (command : String)
  deriving DecidableEq

def parseStatusArgs (name : String) (json : Bool) :
    List String → Except CommandError (String × Bool)
  | [] => .ok (name, json)
  | arg :: rest =>
    if arg = "-o" then
      match rest with
      | [] => .error .outputRequired
      | format :: rest =>
        if format ≠ "json" then .error (.outputFormat format)
        else parseStatusArgs name true rest
    else if name ≠ "" then .error (.extraName arg)
    else parseStatusArgs arg json rest

def handleAction (verb : Verb) : List String → Except CommandError Call
  | [] => .error (.nameRequired verb.word)
  | name :: args =>
    match extractWaitFlags args with
    | .error error => .error (.flags error)
    | .ok (arg :: _, _) => .error (.unexpectedArgument verb.word arg)
    | .ok ([], opts) => .ok (.action verb name opts)

def handleCommand : List String → Except CommandError Call
  | [] => .error .emptyCommand
  | command :: args =>
    if command = "status" then do
      let (name, json) ← parseStatusArgs "" false args
      pure (if name = "" then .stats json else .status name json)
    else if command = "start" then handleAction .start args
    else if command = "stop" then handleAction .stop args
    else if command = "restart" then handleAction .restart args
    else if command = "signal" then
      match args with
      | name :: signal :: _ => .ok (.signal name signal)
      | _ => .error .signalRequired
    else if command = "reload" then .ok .reload
    else .error (.unknownCommand command)

def handleLogs : List String → Except CommandError Call
  | [] => .error .logsName
  | name :: args => .ok (.logs name (args.head? = some "-f"))

/-- `bufio.MaxScanTokenSize`, which the server's scanner keeps as its limit. -/
def maxScanTokenSize : Nat := 64 * 1024

/-- `handleConn` for one line, given without its newline. The scanner reports no line
that does not fit into its buffer together with the newline, and the connection is then
closed without an answer; a blank line is ignored. -/
def handleConn (line : String) : Option (Except CommandError Call) :=
  if maxScanTokenSize ≤ line.utf8ByteSize then none
  else if trimSpace line = "" then none
  else
    match fields (trimSpace line) with
    | "logs" :: args => some (handleLogs args)
    | parts => some (handleCommand parts)

inductive Action where
  | run (verb : Verb)
  | status
  deriving DecidableEq

def Action.word : Action → String
  | .run verb => verb.word
  | .status => "status"

inductive Options where
  | plain
  | wait
  | waitFor (text : String) (timeout : Duration)
  | json
  deriving DecidableEq

/-- Waiting belongs to the actions that change something, JSON to the status. -/
def Options.Valid : Options → Action → Prop
  | .plain, _ => True
  | .wait, .run _ => True
  | .waitFor text timeout, .run _ =>
    parseDuration text = .ok timeout ∧ 0 < timeout ∧ timeout ≤ maxWaitTimeout
  | .json, .status => True
  | _, _ => False

def Options.actionOptions : Options → ActionOptions
  | .wait => { wait := true }
  | .waitFor _ timeout => { timeout, wait := true }
  | _ => {}

def Action.call : Action → Options → String → Call
  | .run verb, options, name => .action verb name options.actionOptions
  | .status, options, name => .status name (options = .json)

inductive Word where
  | plain (arg : String)
  | wait
  | timeout (text : String) (value : Duration)
  | json
  deriving DecidableEq

def Word.args : Word → List String
  | .plain arg => [arg]
  | .wait => ["--wait"]
  | .timeout text _ => ["--timeout", text]
  | .json => ["-o", "json"]

def Word.positional : Word → Option String
  | .plain arg => some arg
  | _ => none

def Word.isFlag (word : Word) : Bool :=
  word.positional = none

def Options.flags : Options → List Word
  | .plain => []
  | .wait => [.wait]
  | .waitFor text timeout => [.wait, .timeout text timeout]
  | .json => [.json]

/-- The arguments of a request: action and name in either order, with the flags
of the options anywhere. -/
def Orders (action : Action) (name : String) (options : Options) (args : List String) : Prop :=
  ∃ words : List Word, args = words.flatMap Word.args ∧
    (words.filter Word.isFlag).Perm options.flags ∧
    (words.filterMap Word.positional = [action.word, name] ∨
      (name ∉ clientCommands ∧ words.filterMap Word.positional = [name, action.word]))

structure Positional (arg : String) : Prop where
  notOutput : arg ≠ "-o"
  notWait : arg ≠ "--wait"
  notTimeout : arg ≠ "--timeout"

def Word.Valid : Word → Prop
  | .plain arg => Positional arg
  | .timeout text value =>
    parseDuration text = .ok value ∧ 0 < value ∧ value ≤ maxWaitTimeout
  | _ => True

theorem extractOutputFlag_cons (h : arg ≠ "-o") (rest : List String) :
    extractOutputFlag (arg :: rest) = (do
      let (positional, flag) ← extractOutputFlag rest
      pure (arg :: positional, flag)) := by
  cases rest with
  | nil => rfl
  | cons next rest => rw [extractOutputFlag, if_neg h]

theorem Word.Valid.text_ne_output (h : (Word.timeout text value).Valid) : text ≠ "-o" := by
  rintro rfl
  have hfails : parseDuration "-o" = .error (.invalid "-o") := by decide
  exact absurd (hfails.symm.trans h.1) (by simp)

/-- A word that is not the output flag is passed over. -/
theorem extractOutputFlag_word {word : Word} (hvalid : word.Valid) (hword : word ≠ .json)
    (hrest : extractOutputFlag rest = .ok (positional, flag)) :
    extractOutputFlag (word.args ++ rest) = .ok (word.args ++ positional, flag) := by
  cases word with
  | plain arg =>
    rw [Word.args, List.singleton_append, extractOutputFlag_cons hvalid.notOutput, hrest]
    rfl
  | wait =>
    rw [Word.args, List.singleton_append, extractOutputFlag_cons (by decide), hrest]
    rfl
  | timeout text value =>
    rw [Word.args, List.cons_append, List.singleton_append, extractOutputFlag_cons (by decide),
      extractOutputFlag_cons hvalid.text_ne_output, hrest]
    rfl
  | json => exact (hword rfl).elim

variable {words : List Word} {action : Action} {name : String} {options : Options}

theorem extractOutputFlag_words (hvalid : ∀ word ∈ words, word.Valid)
    (honce : words.count .json ≤ 1) :
    extractOutputFlag (words.flatMap Word.args) =
      .ok ((words.filter (· ≠ .json)).flatMap Word.args,
        if .json ∈ words then "-o json" else "") := by
  induction words with
  | nil => rfl
  | cons word words ih =>
    rw [List.forall_mem_cons] at hvalid
    by_cases hword : word = .json
    · subst hword
      have hgone : Word.json ∉ words := by
        rw [List.count_cons_self] at honce
        exact List.count_eq_zero.mp (by omega)
      have hkept : words.filter (· ≠ .json) = words := by
        rw [List.filter_eq_self]
        intro word hmem
        simp only [decide_eq_true_eq]
        rintro rfl
        exact hgone hmem
      rw [List.filter_cons_of_neg (by simp), hkept, if_pos List.mem_cons_self]
      rfl
    · have hrest := ih hvalid.2 (by rwa [List.count_cons_of_ne hword] at honce)
      have hmem : Word.json ∈ word :: words ↔ Word.json ∈ words := by
        rw [List.mem_cons, or_iff_right (Ne.symm hword)]
      rw [List.flatMap_cons, extractOutputFlag_word hvalid.1 hword hrest,
        List.filter_cons_of_pos (by simp [hword]), List.flatMap_cons]
      simp only [hmem]

def Word.set (opts : ActionOptions) : Word → ActionOptions
  | .wait => { opts with wait := true }
  | .timeout _ value => { opts with timeout := value }
  | _ => opts

theorem extractWaitFlagsFrom_word {word : Word} (hvalid : word.Valid) (hword : word ≠ .json)
    (positional : List String) (opts : ActionOptions) (rest : List String) :
    extractWaitFlagsFrom positional opts (word.args ++ rest) =
      extractWaitFlagsFrom (positional ++ word.positional.toList) (word.set opts) rest := by
  cases word with
  | plain arg =>
    rw [Word.args, List.singleton_append, extractWaitFlagsFrom.eq_def]
    simp only [hvalid.notWait, hvalid.notTimeout, if_false]
    rfl
  | wait =>
    rw [Word.args, List.singleton_append, extractWaitFlagsFrom.eq_def]
    simp only [if_true, Word.positional, Option.toList_none, List.append_nil]
    rfl
  | timeout text value =>
    obtain ⟨hparse, hpos, hmax⟩ := hvalid
    simp [Word.args, Word.positional, Word.set, extractWaitFlagsFrom, hparse,
      not_le.mpr hpos, not_lt.mpr hmax]
  | json => exact (hword rfl).elim

theorem extractWaitFlagsFrom_words (hvalid : ∀ word ∈ words, word.Valid) (hwords : .json ∉ words)
    (positional : List String) (opts : ActionOptions) :
    extractWaitFlagsFrom positional opts (words.flatMap Word.args) =
      extractWaitFlagsFrom (positional ++ words.filterMap Word.positional)
        ((words.filter Word.isFlag).foldl Word.set opts) [] := by
  induction words generalizing positional opts with
  | nil => simp
  | cons word words ih =>
    rw [List.forall_mem_cons] at hvalid
    rw [List.mem_cons, not_or] at hwords
    rw [List.flatMap_cons, extractWaitFlagsFrom_word hvalid.1 (Ne.symm hwords.1),
      ih hvalid.2 hwords.2, List.append_assoc]
    cases word <;> rfl

theorem Action.word_mem (action : Action) : action.word ∈ serviceActions := by
  cases action with
  | status => decide
  | run verb => cases verb <;> decide

theorem Action.word_positional (action : Action) : Positional action.word := by
  cases action with
  | status => exact ⟨by decide, by decide, by decide⟩
  | run verb => cases verb <;> exact ⟨by decide, by decide, by decide⟩

theorem Action.word_ne_logs (action : Action) : action.word ≠ "logs" := by
  cases action with
  | status => decide
  | run verb => cases verb <;> decide

theorem buildPositionalCommand_order :
    buildPositionalCommand [action.word, name] = .ok (action.word ++ " " ++ name) ∧
      (name ∉ clientCommands →
        buildPositionalCommand [name, action.word] = .ok (action.word ++ " " ++ name)) := by
  constructor
  · simp only [buildPositionalCommand, action.word_ne_logs, action.word_mem, if_false, if_true]
  · intro hname
    have hlogs : name ≠ "logs" := by
      rintro rfl
      exact hname (by decide)
    have hactions : name ∉ serviceActions := by
      intro hmem
      exact hname (by
        revert hmem
        simp only [serviceActions, clientCommands, List.mem_cons, List.not_mem_nil, or_false]
        tauto)
    simp only [buildPositionalCommand, hlogs, hactions, action.word_mem, if_false, if_true]

theorem cut_word (h : ' ' ∉ word.toList) (rest : String) :
    (cut (word ++ " " ++ rest) ' ').1 = word := by
  have hcut : cut (word ++ " " ++ rest) ' ' = (word, rest, true) :=
    cut_eq_found_iff.mpr ⟨by simp, h⟩
  rw [hcut]

theorem waitableCommand_verb (verb : Verb) (name : String) :
    waitableCommand (verb.word ++ " " ++ name) = true := by
  unfold waitableCommand
  rw [cut_word (by cases verb <;> decide)]
  cases verb <;> decide

def requestLine (action : Action) (options : Options) (name : String) : String :=
  let command := action.word ++ " " ++ name
  match options with
  | .plain => command
  | .wait => command ++ " " ++ "--wait"
  | .waitFor _ timeout => command ++ " " ++ ("--wait --timeout " ++ durationString timeout)
  | .json => command ++ " " ++ "-o json"

theorem Options.Valid.flags (h : options.Valid action) :
    ∀ word ∈ options.flags, word.Valid := by
  cases options with
  | plain => simp [Options.flags]
  | wait => simp [Options.flags, Word.Valid]
  | json => simp [Options.flags, Word.Valid]
  | waitFor text timeout =>
    cases action with
    | status => exact h.elim
    | run verb =>
      rw [Options.flags, List.forall_mem_cons, List.forall_mem_singleton]
      exact ⟨trivial, h⟩

/-- A flag is one of the options, and everything else is action or name. -/
theorem words_valid (hvalid : options.Valid action)
    (hflags : (words.filter Word.isFlag).Perm options.flags)
    (hplain : ∀ arg ∈ words.filterMap Word.positional, Positional arg) :
    ∀ word ∈ words, word.Valid := by
  intro word hmem
  by_cases hflag : word.isFlag = true
  · exact hvalid.flags word (hflags.subset (List.mem_filter.mpr ⟨hmem, hflag⟩))
  · cases word with
    | plain arg => exact hplain arg (List.mem_filterMap.mpr ⟨_, hmem, rfl⟩)
    | wait => exact trivial
    | json => exact trivial
    | timeout text value => exact (hflag rfl).elim

/-- The order of the flags does not matter. -/
theorem foldl_flags {flags : List Word} (h : flags.Perm options.flags) :
    flags.foldl Word.set {} = options.actionOptions := by
  have hcommute : ∀ x ∈ flags, ∀ y ∈ flags, ∀ opts,
      y.set (x.set opts) = x.set (y.set opts) := by
    intro x hx y hy opts
    have hx := h.subset hx
    have hy := h.subset hy
    cases options <;> simp only [Options.flags, List.mem_cons, List.not_mem_nil, or_false] at hx hy
    · rw [hx, hy]
    · rcases hx with rfl | rfl <;> rcases hy with rfl | rfl <;> rfl
    · rw [hx, hy]
  rw [h.foldl_eq' hcommute]
  cases options <;> rfl

theorem foldl_set_filter (words : List Word) (opts : ActionOptions) :
    (words.filter (· ≠ .json)).foldl Word.set opts = words.foldl Word.set opts := by
  induction words generalizing opts with
  | nil => rfl
  | cons word words ih => cases word <;> exact ih _

theorem json_mem_iff (hflags : (words.filter Word.isFlag).Perm options.flags) :
    .json ∈ words ↔ options = .json := by
  have hmem : .json ∈ words ↔ .json ∈ options.flags := by
    rw [← hflags.mem_iff, List.mem_filter]
    exact (and_iff_left rfl).symm
  rw [hmem]
  cases options <;> simp [Options.flags]

theorem extractFlags_words (hvalid : options.Valid action)
    (hflags : (words.filter Word.isFlag).Perm options.flags)
    (hplain : ∀ arg ∈ words.filterMap Word.positional, Positional arg) :
    extractOutputFlag (words.flatMap Word.args) =
        .ok ((words.filter (· ≠ .json)).flatMap Word.args,
          if options = .json then "-o json" else "") ∧
      extractWaitFlags ((words.filter (· ≠ .json)).flatMap Word.args) =
        .ok (words.filterMap Word.positional, options.actionOptions) := by
  have hwords := words_valid hvalid hflags hplain
  constructor
  · have honce : words.count .json ≤ 1 := by
      have hcount : (words.filter Word.isFlag).count .json = words.count .json :=
        List.count_filter rfl
      rw [← hcount, hflags.count_eq]
      cases options <;> simp [Options.flags]
    rw [extractOutputFlag_words hwords honce]
    simp only [json_mem_iff hflags]
  · have hpositional : (words.filter (· ≠ .json)).filterMap Word.positional =
        words.filterMap Word.positional := by
      rw [List.filterMap_filter]
      congr 1
      funext word
      cases word <;> rfl
    have hset : ((words.filter (· ≠ .json)).filter Word.isFlag).foldl Word.set {} =
        options.actionOptions := by
      rw [List.filter_comm, foldl_set_filter, foldl_flags hflags]
    rw [extractWaitFlags, extractWaitFlagsFrom_words
      (fun word hmem => hwords word (List.mem_of_mem_filter hmem)) (by simp), hpositional, hset]
    have hwait : ¬(0 < options.actionOptions.timeout ∧ options.actionOptions.wait = false) := by
      cases options <;> simp [Options.actionOptions]
    rw [extractWaitFlagsFrom, if_neg hwait, List.nil_append]

theorem buildClientCommand_request (hname : Positional name) (hvalid : options.Valid action)
    (hargs : Orders action name options args) :
    buildClientCommand args = .ok (requestLine action options name) := by
  obtain ⟨words, rfl, hflags, horder⟩ := hargs
  have hcommand : buildPositionalCommand (words.filterMap Word.positional) =
      .ok (action.word ++ " " ++ name) := by
    rcases horder with hwords | ⟨hclient, hwords⟩
    · rw [hwords, buildPositionalCommand_order.1]
    · rw [hwords, buildPositionalCommand_order.2 hclient]
  have hplain : ∀ arg ∈ words.filterMap Word.positional, Positional arg := by
    intro arg hmem
    have hcases : arg = action.word ∨ arg = name := by
      rcases horder with hwords | ⟨_, hwords⟩ <;> rw [hwords] at hmem <;> simp at hmem <;> tauto
    rcases hcases with rfl | rfl
    · exact action.word_positional
    · exact hname
  obtain ⟨houtput, hwait⟩ := extractFlags_words hvalid hflags hplain
  rw [buildClientCommand, houtput]
  simp only [bind, Except.bind, hwait, hcommand]
  cases options with
  | plain => rfl
  | json => rfl
  | wait =>
    cases action with
    | status => exact hvalid.elim
    | run verb =>
      simp only [Options.actionOptions, if_true, Action.word, waitableCommand_verb]
      rfl
  | waitFor text timeout =>
    cases action with
    | status => exact hvalid.elim
    | run verb =>
      simp only [Options.actionOptions, if_true, Action.word, waitableCommand_verb,
        ActionOptions.wire, hvalid.2.1]
      rfl

theorem Action.word_token (action : Action) : Token action.word := by
  cases action with
  | status => exact ⟨by decide, noSpace_of_any (by decide)⟩
  | run verb => cases verb <;> exact ⟨by decide, noSpace_of_any (by decide)⟩

def Options.fields : Options → List String
  | .plain => []
  | .wait => ["--wait"]
  | .waitFor _ timeout => ["--wait", "--timeout", durationString timeout]
  | .json => ["-o", "json"]

theorem fields_requestLine (hname : Token name) (action : Action) (options : Options) :
    Go.fields (requestLine action options name) = action.word :: name :: options.fields := by
  have hcommand : Go.fields (action.word ++ " " ++ name) = [action.word, name] := by
    rw [fields_append, action.word_token.fields, hname.fields]
    rfl
  cases options with
  | plain => exact hcommand
  | wait =>
    rw [requestLine, fields_append, hcommand]
    rfl
  | waitFor text timeout =>
    have hflags : Go.fields "--wait --timeout" = ["--wait", "--timeout"] := by decide
    rw [requestLine, fields_append, hcommand,
      show "--wait --timeout " ++ durationString timeout =
        "--wait --timeout" ++ " " ++ durationString timeout from rfl,
      fields_append, hflags, (durationString_token timeout).fields]
    rfl
  | json =>
    rw [requestLine, fields_append, hcommand]
    rfl

/-- What the server makes of a line that starts with another word than `logs`. -/
theorem handleConn_eq {line command : String} {args : List String}
    (hfits : line.utf8ByteSize < maxScanTokenSize) (hfields : Go.fields line = command :: args)
    (hlogs : command ≠ "logs") :
    handleConn line = some (handleCommand (command :: args)) := by
  have hline : trimSpace line ≠ "" := by
    apply trimSpace_ne_empty
    rw [hfields]
    exact List.cons_ne_nil _ _
  rw [handleConn, if_neg (not_le.mpr hfits), if_neg hline, fields_trimSpace, hfields]
  split
  · rename_i h
    exact (hlogs (List.cons.inj h).1).elim
  · rfl

theorem handleConn_fits {line : String} {result : Except CommandError Call}
    (h : handleConn line = some result) : line.utf8ByteSize < maxScanTokenSize := by
  by_contra hlong
  rw [handleConn, if_pos (not_lt.mp hlong)] at h
  cases h

theorem handleCommand_verb (verb : Verb) (args : List String) :
    handleCommand (verb.word :: args) = handleAction verb args := by
  cases verb <;> rfl

theorem handleAction_request (name : String) (hvalid : options.Valid (.run verb))
    (hinverts : ∀ text timeout, options = .waitFor text timeout → parseDuration (durationString
      timeout) = .ok timeout) :
    handleAction verb (name :: options.fields) =
      .ok (.action verb name options.actionOptions) := by
  have hflags : extractWaitFlags options.fields = .ok ([], options.actionOptions) := by
    cases options with
    | plain => rfl
    | wait => rfl
    | json => exact hvalid.elim
    | waitFor text timeout =>
      simp [Options.fields, extractWaitFlags, extractWaitFlagsFrom, hinverts text timeout rfl,
        not_le.mpr hvalid.2.1, not_lt.mpr hvalid.2.2, Options.actionOptions]
  rw [handleAction, hflags]

theorem parseStatusArgs_name (hname : name ≠ "-o") (rest : List String) :
    parseStatusArgs "" false (name :: rest) = parseStatusArgs name false rest := by
  rw [parseStatusArgs.eq_def]
  simp only [hname, if_false, ne_eq, not_true_eq_false]

theorem handleCommand_status (hname : Token name) (houtput : name ≠ "-o")
    (hvalid : options.Valid .status) :
    handleCommand ("status" :: name :: options.fields) =
      .ok (.status name (options = .json)) := by
  have hargs : parseStatusArgs "" false (name :: options.fields) =
      .ok (name, decide (options = .json)) := by
    rw [parseStatusArgs_name houtput]
    cases options with
    | plain => rfl
    | json => rfl
    | wait => exact hvalid.elim
    | waitFor text timeout => exact hvalid.elim
  unfold handleCommand
  simp only [if_true, hargs, bind, Except.bind, pure, Except.pure, hname.ne, if_false]

/-- The server calls what the client was asked for, the handler of the action with the
name and the options, exactly when the line fits into the buffer of its scanner. -/
theorem client_server_agree {action : Action} {options : Options} {name : String}
    {args : List String} (htoken : Token name)
    (hreserved : name ∉ ["-o", "--wait", "--timeout"]) (hvalid : options.Valid action)
    (hinverts : ∀ text timeout, options = .waitFor text timeout →
      parseDuration (durationString timeout) = .ok timeout)
    (hargs : Orders action name options args) :
    ∃ line, buildClientCommand args = .ok line ∧
      (handleConn line = some (.ok (action.call options name)) ↔
        line.utf8ByteSize < maxScanTokenSize) := by
  have hname : Positional name := by
    simp only [List.mem_cons, List.not_mem_nil, or_false, not_or] at hreserved
    exact ⟨hreserved.1, hreserved.2.1, hreserved.2.2⟩
  refine ⟨_, buildClientCommand_request hname hvalid hargs, handleConn_fits, fun hfits => ?_⟩
  rw [handleConn_eq hfits (fields_requestLine htoken action options) action.word_ne_logs]
  cases action with
  | run verb =>
      rw [Action.word, handleCommand_verb, handleAction_request name hvalid hinverts]
      rfl
  | status =>
      rw [Action.word, handleCommand_status htoken hname.notOutput hvalid]
      rfl

/-- A name in front of its action, with the flags around it. -/
theorem client_server_agree_web :
    ∃ line, buildClientCommand ["--timeout", "1m30s", "web", "restart", "--wait"] = .ok line ∧
      line.utf8ByteSize < maxScanTokenSize ∧
      handleConn line =
        some (.ok (.action .restart "web" { timeout := 90 * secondDuration, wait := true })) := by
  have hwords : Orders (.run .restart) "web" (.waitFor "1m30s" (90 * secondDuration))
      ["--timeout", "1m30s", "web", "restart", "--wait"] :=
    ⟨[.timeout "1m30s" (90 * secondDuration), .plain "web", .plain "restart", .wait], rfl,
      by decide, Or.inr ⟨by decide, by decide⟩⟩
  have hvalid : (Options.waitFor "1m30s" (90 * secondDuration)).Valid (.run .restart) :=
    ⟨by decide, by decide, by decide⟩
  have hinverts : ∀ text timeout,
      Options.waitFor "1m30s" (90 * secondDuration) = .waitFor text timeout →
        parseDuration (durationString timeout) = .ok timeout := by
    intro text timeout h
    cases h
    decide
  obtain ⟨line, hline, hagree⟩ := client_server_agree
    ⟨by decide, noSpace_of_any (by decide)⟩ (by decide) hvalid hinverts hwords
  have hfits : line.utf8ByteSize < maxScanTokenSize := by
    have hbuilt : buildClientCommand ["--timeout", "1m30s", "web", "restart", "--wait"] =
        .ok "restart web --wait --timeout 1m30s" := by decide
    obtain rfl := Except.ok.inj (hline.symm.trans hbuilt)
    decide
  exact ⟨line, hline, hfits, hagree.mpr hfits⟩

def longName (n : Nat) : String :=
  String.ofList (List.replicate n 'a')

theorem longName_size (n : Nat) : (longName n).utf8ByteSize = n := by
  induction n with
  | zero => rfl
  | succ n ih =>
      rw [longName, List.replicate_succ, String.ofList_cons, String.utf8ByteSize_append]
      exact (congrArg (_ + ·) ih).trans (Nat.add_comm 1 n)

theorem longName_token {n : Nat} (hpos : 0 < n) : Token (longName n) where
  ne := by
    intro hempty
    have hsize := longName_size n
    rw [hempty] at hsize
    exact absurd hsize.symm (Nat.pos_iff_ne_zero.mp hpos)
  noSpace c hc := by
    rw [longName, String.toList_ofList] at hc
    rw [List.eq_of_mem_replicate hc]
    decide

/-- The line of a name of 70000 letters is not read, although the name is one token. -/
theorem long_line_not_read : ∃ name args line, Token name ∧
    name ∉ ["-o", "--wait", "--timeout"] ∧ Options.plain.Valid (.run .start) ∧
    Orders (.run .start) name .plain args ∧ buildClientCommand args = .ok line ∧
    handleConn line ≠ some (.ok (Action.call (.run .start) .plain name)) := by
  have hreserved : longName 70000 ∉ ["-o", "--wait", "--timeout"] := by
    intro hmem
    have hsizes : (longName 70000).utf8ByteSize ∈
        (["-o", "--wait", "--timeout"].map String.utf8ByteSize) := List.mem_map_of_mem hmem
    rw [longName_size] at hsizes
    exact absurd hsizes (by decide)
  have horders : Orders (.run .start) (longName 70000) .plain ["start", longName 70000] :=
    ⟨[.plain "start", .plain (longName 70000)], rfl, .refl _, .inl rfl⟩
  have hname : Positional (longName 70000) := by
    simp only [List.mem_cons, List.not_mem_nil, or_false, not_or] at hreserved
    exact ⟨hreserved.1, hreserved.2.1, hreserved.2.2⟩
  have hvalid : Options.plain.Valid (.run .start) := trivial
  refine ⟨_, _, _, longName_token (by decide), hreserved, hvalid, horders,
    buildClientCommand_request hname hvalid horders, ?_⟩
  intro hread
  have hfits := handleConn_fits hread
  rw [requestLine, String.utf8ByteSize_append, longName_size] at hfits
  exact absurd hfits (by rw [maxScanTokenSize]; omega)

end Gopherd.Control
