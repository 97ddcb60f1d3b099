import Gopherd.Service.Credential
import Gopherd.Service.DotEnv
import Gopherd.Service.Service
import Gopherd.Service.Template

/-!
`PrepareStart`: the command line and the environment that a service is started
with. What it reads of the host is in `StartHost`; the order in which Go iterates
the merged environment is an argument.
-/

namespace Gopherd

open Go

structure StartHost where
  environ : List String
  dotenvs : String → Bool → DotEnvRead
  users : UserDatabase
  euid : UInt32
  machine : Machine
  files : Files
  executable : Option String
  lookPath : List String → String → String → Option String

structure EntryOrder where
  order : List (String × String) → List (String × String)
  perm : ∀ entries, (order entries).Perm entries

inductive StartError where
  | dotenv (error : DotEnvError)
  | credential (error : CredentialError)
  | template (error : TemplateError)
  | noExecutable
  | commandNotFound (name : String)
  | parentDeathSignal (text : String)
  deriving DecidableEq

structure StartPlan where
  args : List String
  argv : List String
  env : Option (List String)
  dir : String
  deathSignal : Option Signal
  credential : Option Credential
  allowedUID : UInt32
  inheritsOutput : Bool
  sdNotify : Bool
  deriving DecidableEq

/-- An entry of `os.Environ`; one without a name is left out. -/
def environEntry (text : String) : Option (String × String) :=
  match cut text '=' with
  | (key, value, true) => if key = "" then none else some (key, value)
  | (_, _, false) => none

def insertAll (env : GoMap String String) (entries : List (String × String)) :
    GoMap String String :=
  entries.foldl (fun env entry => env.insert entry.1 entry.2) env

structure EnvMap where
  env : GoMap String String
  userKeys : Finset String
  deriving DecidableEq

def readDotEnv (host : StartHost) (p : Process) : Except StartError (GoMap String String) :=
  if p.dotEnv = "" then .ok ∅
  else (parseDotEnv (host.dotenvs p.dotEnv p.dotEnvFollow)).mapError .dotenv

def Process.passesEnv (p : Process) : Bool :=
  p.passEnv = some true

def buildEnvMap (host : StartHost) (p : Process) : Except StartError EnvMap := do
  let inherited := if p.passesEnv then insertAll ∅ (host.environ.filterMap environEntry) else ∅
  let dotenv ← readDotEnv host p
  let env := insertAll (insertAll inherited dotenv.entries) p.environment.entries
  pure ⟨env, (dotenv.keys ++ p.environment.keys).toFinset⟩

def exportsSocket (p : Process) (controlSocket : String) : Bool :=
  p.exportSocket = some true && controlSocket ≠ ""

/-- The exported socket, unless another source has set it. -/
def EnvMap.exportSocket (m : EnvMap) (p : Process) (controlSocket : String) : EnvMap :=
  if exportsSocket p controlSocket && (m.env.lookup "GOPHERD_SOCKET").isNone then
    { m with env := m.env.insert "GOPHERD_SOCKET" controlSocket }
  else m

def EnvMap.remove (m : EnvMap) (keys : List String) : EnvMap :=
  keys.foldl (fun m key => ⟨m.env.erase key, m.userKeys.erase key⟩) m

def mergedEnv (host : StartHost) (p : Process) (controlSocket : String) :
    Except StartError EnvMap := do
  let m ← buildEnvMap host p
  pure ((m.exportSocket p controlSocket).remove p.removeEnv)

/-- The entries of the user whose values hold a template. -/
def EnvMap.expands (m : EnvMap) (entry : String × String) : Bool :=
  entry.1 ∈ m.userKeys && contains entry.2.toList openBraces

def fillIn (expands : String × String → Bool) :
    List (String × String) → List String → List (String × String)
  | [], _ => []
  | entry :: rest, expanded =>
    if expands entry then
      match expanded with
      | value :: expanded => (entry.1, value) :: fillIn expands rest expanded
      | [] => entry :: fillIn expands rest []
    else entry :: fillIn expands rest expanded

def explicitEnv (host : StartHost) (order : EntryOrder) (m : EnvMap) :
    Except StartError (List String) := do
  let entries := order.order m.env.entries
  let values := (entries.filter m.expands).map Prod.snd
  let expanded ← (expandTemplates host.machine host.files m.env values).mapError .template
  pure ((fillIn m.expands entries expanded).map fun entry => entry.1 ++ "=" ++ entry.2)

def needsEnv (p : Process) (controlSocket : String) : Bool :=
  !p.passesEnv || p.dotEnv ≠ "" || !p.environment.isEmpty || p.removeEnv ≠ [] || p.sdNotify ||
    exportsSocket p controlSocket

def childEnv (host : StartHost) (order : EntryOrder) (p : Process) (controlSocket : String)
    (m : EnvMap) : Except StartError (Option (List String)) :=
  if needsEnv p controlSocket then (explicitEnv host order m).map some else .ok none

def umaskShimFlag : String := "--umask-shim"

/-- `buildCommand`: with a umask, gopherd itself is executed as a shim. -/
def buildCommand (host : StartHost) (p : Process) (args : List String) :
    Except StartError (List String) :=
  if p.umask = "" then .ok (p.command :: args)
  else
    match host.executable with
    | none => .error .noExecutable
    | some self =>
      match host.lookPath host.environ p.workingDir p.command with
      | none => .error (.commandNotFound p.command)
      | some path => .ok ([self, umaskShimFlag, p.umask, path, p.command] ++ args)

def deathSignal (p : Process) : Except StartError (Option Signal) :=
  if p.parentDeathSignal = "" then .ok none
  else
    match parseSignal p.parentDeathSignal with
    | some signal => .ok (some signal)
    | none => .error (.parentDeathSignal p.parentDeathSignal)

def prepareStart (host : StartHost) (order : EntryOrder) (p : Process) (controlSocket : String) :
    Except StartError StartPlan := do
  let m ← mergedEnv host p controlSocket
  let credential ← (resolveCredential host.users p.user p.group p.userID p.groupID
    p.strictGroups).mapError .credential
  let args ← (expandTemplates host.machine host.files m.env p.args).mapError .template
  let argv ← buildCommand host p args
  let deathSignal ← deathSignal p
  let env ← childEnv host order p controlSocket m
  pure {
    args
    argv
    env
    dir := p.workingDir
    deathSignal
    credential
    allowedUID := (credential.map Credential.uid).getD host.euid
    inheritsOutput := p.logCapture ≠ some true
    sdNotify := p.sdNotify }

/-- What gopherd's own environment says of a key; the last entry counts. -/
def environValue (environ : List String) (key : String) : Option String :=
  ((environ.filterMap environEntry).filter (·.1 = key)).getLast?.map Prod.snd

/-- The value of a key by the strongest source that has it, and whether it may
hold templates. -/
def sourceValue (environ : List String) (p : Process) (controlSocket : String)
    (dotenv : GoMap String String) (key : String) : Option (String × Bool) :=
  if key ∈ p.removeEnv then none
  else
    match p.environment.lookup key, dotenv.lookup key with
    | some value, _ => some (value, true)
    | none, some value => some (value, true)
    | none, none =>
      match if p.passesEnv then environValue environ key else none with
      | some value => some (value, false)
      | none =>
        if exportsSocket p controlSocket && key = "GOPHERD_SOCKET" then
          some (controlSocket, false)
        else none

theorem EnvMap.remove_lookup (m : EnvMap) (keys : List String) (key : String) :
    (m.remove keys).env.lookup key = if key ∈ keys then none else m.env.lookup key := by
  induction keys generalizing m with
  | nil => simp [EnvMap.remove]
  | cons first keys ih =>
    change (EnvMap.remove ⟨m.env.erase first, m.userKeys.erase first⟩ keys).env.lookup key = _
    rw [ih, GoMap.lookup_erase]
    by_cases hfirst : key = first <;> simp [hfirst]

theorem EnvMap.mem_remove (m : EnvMap) (keys : List String) (key : String) :
    key ∈ (m.remove keys).userKeys ↔ key ∉ keys ∧ key ∈ m.userKeys := by
  induction keys generalizing m with
  | nil => simp [EnvMap.remove]
  | cons first keys ih =>
    change key ∈ (EnvMap.remove ⟨m.env.erase first, m.userKeys.erase first⟩ keys).userKeys ↔ _
    rw [ih, Finset.mem_erase]
    by_cases hfirst : key = first <;> simp [hfirst]

theorem EnvMap.exportSocket_lookup (m : EnvMap) (p : Process) (controlSocket key : String) :
    (m.exportSocket p controlSocket).env.lookup key =
      (m.env.lookup key).or
        (if exportsSocket p controlSocket && key = "GOPHERD_SOCKET" then some controlSocket
          else none) := by
  unfold EnvMap.exportSocket
  by_cases hexports : exportsSocket p controlSocket = true
  · by_cases hkey : key = "GOPHERD_SOCKET"
    · subst hkey
      cases hlookup : m.env.lookup "GOPHERD_SOCKET" with
      | none => simp [hexports, GoMap.lookup_insert]
      | some value => simp [hexports, hlookup]
    · split_ifs <;> simp_all [GoMap.lookup_insert]
  · simp [hexports]

theorem EnvMap.exportSocket_userKeys (m : EnvMap) (p : Process) (controlSocket : String) :
    (m.exportSocket p controlSocket).userKeys = m.userKeys := by
  unfold EnvMap.exportSocket
  split_ifs <;> rfl

variable {host : StartHost} {p : Process} {controlSocket : String} {m : EnvMap} {order : EntryOrder}

/-- The merged environment follows the sources. -/
theorem mergedEnv_eq_ok (h : mergedEnv host p controlSocket = .ok m) :
    ∃ dotenv, readDotEnv host p = .ok dotenv ∧ ∀ key,
      (sourceValue host.environ p controlSocket dotenv key) =
        (m.env.lookup key).map fun value => (value, decide (key ∈ m.userKeys)) := by
  obtain ⟨built, hbuilt, h⟩ := Except.bind_eq_ok.mp h
  obtain ⟨dotenv, hdotenv, hbuilt⟩ := Except.bind_eq_ok.mp hbuilt
  obtain rfl := Except.pure_eq_ok.mp h
  obtain rfl := Except.pure_eq_ok.mp hbuilt
  refine ⟨dotenv, hdotenv, ?_⟩
  intro key
  have hinherited : (if p.passesEnv then insertAll ∅ (host.environ.filterMap environEntry)
      else ∅).lookup key = if p.passesEnv then environValue host.environ key else none := by
    split_ifs
    · rw [insertAll, GoMap.lookup_foldl_insert, GoMap.lookup_empty, Option.or_none]
      rfl
    · rfl
  have hmem : key ∈ (dotenv.keys ++ p.environment.keys).toFinset ↔
      (dotenv.lookup key).isSome ∨ (p.environment.lookup key).isSome := by
    rw [List.mem_toFinset, List.mem_append, GoMap.mem_keys, GoMap.mem_keys]
  rw [EnvMap.remove_lookup, EnvMap.exportSocket_lookup]
  simp only [EnvMap.mem_remove, EnvMap.exportSocket_userKeys, hmem, insertAll,
    GoMap.lookup_foldl_entries]
  rw [← insertAll, hinherited]
  unfold sourceValue
  by_cases hremoved : key ∈ p.removeEnv
  · simp [hremoved]
  · rw [if_neg hremoved, if_neg hremoved]
    cases p.environment.lookup key with
    | some value => simp [hremoved]
    | none =>
      cases dotenv.lookup key with
      | some value => simp [hremoved]
      | none =>
        cases if p.passesEnv then environValue host.environ key else none with
        | some value => simp
        | none => by_cases hsocket : exportsSocket p controlSocket && key = "GOPHERD_SOCKET" <;>
            simp [hsocket]

def EnvMap.value (host : StartHost) (m : EnvMap) (entry : String × String) :
    Except TemplateError String :=
  if entry.1 ∈ m.userKeys then expandTemplate host.machine host.files m.env entry.2
  else .ok entry.2

/-- A value without braces is not touched. -/
theorem expandTemplate_plain (h : contains value.toList openBraces = false) :
    expandTemplate machine files env value = .ok value := by
  unfold expandTemplate
  dsimp only
  rw [h]
  rfl

theorem EnvMap.value_of_not_expands (h : m.expands entry = false) :
    m.value host entry = .ok entry.2 := by
  unfold EnvMap.value
  split_ifs with huser
  · exact expandTemplate_plain (by simpa [EnvMap.expands, huser] using h)
  · rfl

theorem EnvMap.value_of_expands (h : m.expands entry = true) :
    m.value host entry = expandTemplate host.machine host.files m.env entry.2 := by
  have huser : entry.1 ∈ m.userKeys := by
    simp only [EnvMap.expands, Bool.and_eq_true, decide_eq_true_eq] at h
    exact h.1
  exact if_pos huser

/-- Each expanded value comes back to the entry it was taken from. -/
theorem fillIn_forall₂
    (h : expandTemplates host.machine host.files m.env ((entries.filter m.expands).map Prod.snd) =
      .ok expanded) :
    List.Forall₂ (fun entry filled => filled.1 = entry.1 ∧ m.value host entry = .ok filled.2)
      entries (fillIn m.expands entries expanded) := by
  rw [expandTemplates, Except.mapM_eq_ok] at h
  induction entries generalizing expanded with
  | nil => exact .nil
  | cons entry rest ih =>
    unfold fillIn
    by_cases hexpands : m.expands entry = true
    · rw [List.filter_cons_of_pos hexpands, List.map_cons] at h
      cases h with
      | cons hvalue hrest =>
        rw [if_pos hexpands]
        exact .cons ⟨rfl, (EnvMap.value_of_expands hexpands).trans hvalue⟩ (ih hrest)
    · rw [List.filter_cons_of_neg hexpands] at h
      rw [if_neg hexpands]
      exact .cons ⟨rfl, EnvMap.value_of_not_expands (by simpa using hexpands)⟩ (ih h)

theorem explicitEnv_forall₂ (h : explicitEnv host order m = .ok env) :
    List.Forall₂ (fun entry text => ∃ value, m.value host entry = .ok value ∧
      text = entry.1 ++ "=" ++ value) (order.order m.env.entries) env := by
  obtain ⟨expanded, hexpanded, h⟩ := Except.bind_eq_ok.mp h
  obtain rfl := Except.pure_eq_ok.mp h
  rw [List.forall₂_map_right_iff]
  refine (fillIn_forall₂ (Except.mapError_eq_ok.mp hexpanded)).imp ?_
  rintro entry filled ⟨hkey, hvalue⟩
  exact ⟨filled.2, hvalue, by rw [hkey]⟩

/-- A start that succeeds, step by step. -/
theorem prepareStart_eq_ok (h : prepareStart host order p controlSocket = .ok plan) :
    ∃ m, mergedEnv host p controlSocket = .ok m ∧
      expandTemplates host.machine host.files m.env p.args = .ok plan.args ∧
      childEnv host order p controlSocket m = .ok plan.env := by
  unfold prepareStart at h
  obtain ⟨m, hm, h⟩ := Except.bind_eq_ok.mp h
  obtain ⟨credential, -, h⟩ := Except.bind_eq_ok.mp h
  obtain ⟨args, hargs, h⟩ := Except.bind_eq_ok.mp h
  obtain ⟨argv, -, h⟩ := Except.bind_eq_ok.mp h
  obtain ⟨signal, -, h⟩ := Except.bind_eq_ok.mp h
  obtain ⟨env, henv, h⟩ := Except.bind_eq_ok.mp h
  obtain rfl := Except.pure_eq_ok.mp h
  exact ⟨m, hm, Except.mapError_eq_ok.mp hargs, henv⟩

theorem childEnv_eq_ok (h : childEnv host order p controlSocket m = .ok result) :
    (needsEnv p controlSocket = true ∧
        ∃ env, explicitEnv host order m = .ok env ∧ result = some env) ∨
      needsEnv p controlSocket = false ∧ result = none := by
  unfold childEnv at h
  split_ifs at h with hneeds
  · cases hexplicit : explicitEnv host order m with
    | error error =>
      rw [hexplicit] at h
      cases h
    | ok env =>
      rw [hexplicit] at h
      cases h
      exact .inl ⟨hneeds, env, rfl, rfl⟩
  · cases h
    exact .inr ⟨by simpa using hneeds, rfl⟩

/-- Without `pass-env` gopherd's own environment is not read. -/
theorem mergedEnv_environ (h : p.passesEnv = false) (controlSocket : String)
    (environ : List String) :
    mergedEnv { host with environ } p controlSocket = mergedEnv host p controlSocket := by
  simp only [mergedEnv, buildEnvMap, h]
  rfl

/-- The two orders of one environment. -/
theorem explicitEnv_perm (h : explicitEnv host order m = .ok env)
    (h' : explicitEnv host order' m = .ok env') : env'.Perm env := by
  have hperm : (order'.order m.env.entries).Perm (order.order m.env.entries) :=
    (order'.perm _).trans (order.perm _).symm
  have htext : ∀ {order : EntryOrder} {env : List String}, explicitEnv host order m = .ok env →
      env = (order.order m.env.entries).map
        fun entry => entry.1 ++ "=" ++ ((m.value host entry).toOption.getD "") := by
    intro order env h
    have hforall := explicitEnv_forall₂ h
    clear h
    generalize order.order m.env.entries = entries at hforall ⊢
    induction hforall with
    | nil => rfl
    | cons hhead _ ih =>
      obtain ⟨value, hvalue, rfl⟩ := hhead
      rw [List.map_cons, ← ih, hvalue]
      rfl
  rw [htext h, htext h']
  exact hperm.map _

/-- A start that sets the environment sets one entry for each key that some
source has and `remove-env` does not name, with the value of the strongest source,
and expands templates in the values of `environment` and the dotenv file only.
Without `pass-env`, the environment of gopherd has no part in it. -/
theorem environment_exact {host : StartHost} {order : EntryOrder} {p : Process}
    {controlSocket : String} {plan : StartPlan} {env : List String}
    (hstart : prepareStart host order p controlSocket = .ok plan) (henv : plan.env = some env) :
    (∃ dotenv merged keys, readDotEnv host p = .ok dotenv ∧
      (∀ key, merged.lookup key =
        (sourceValue host.environ p controlSocket dotenv key).map Prod.fst) ∧
      keys.Nodup ∧
      (∀ key, key ∈ keys ↔ (sourceValue host.environ p controlSocket dotenv key).isSome) ∧
      List.Forall₂ (fun key text => ∃ value user final,
        sourceValue host.environ p controlSocket dotenv key = some (value, user) ∧
        (if user then expandTemplate host.machine host.files merged value = .ok final
          else final = value) ∧
        text = key ++ "=" ++ final) keys env) ∧
    (p.passesEnv = false → ∀ environ order' plan',
      prepareStart { host with environ } order' p controlSocket = .ok plan' →
        plan'.args = plan.args ∧ ∃ env', plan'.env = some env' ∧ env'.Perm env) := by
  obtain ⟨m, hm, hargs, hchild⟩ := prepareStart_eq_ok hstart
  obtain ⟨-, explicit, hexplicit, hplan⟩ | ⟨-, hnone⟩ := childEnv_eq_ok hchild
  swap
  · rw [henv] at hnone
    cases hnone
  obtain rfl : env = explicit := Option.some.inj (henv.symm.trans hplan)
  constructor
  · obtain ⟨dotenv, hdotenv, hsource⟩ := mergedEnv_eq_ok hm
    have hperm := order.perm m.env.entries
    refine ⟨dotenv, m.env, (order.order m.env.entries).map Prod.fst, hdotenv, ?_, ?_, ?_, ?_⟩
    · intro key
      rw [hsource, Option.map_map]
      simp [Function.comp_def]
    · rw [(hperm.map Prod.fst).nodup_iff, ← GoMap.keys_eq_map_entries]
      exact m.env.keys_nodup
    · intro key
      rw [(hperm.map Prod.fst).mem_iff, ← GoMap.keys_eq_map_entries, GoMap.mem_keys, hsource,
        Option.isSome_map]
    · have hentries : ∀ entry ∈ order.order m.env.entries, m.env.lookup entry.1 = some entry.2 :=
        fun entry hentry => GoMap.mem_entries.mp (hperm.subset hentry)
      rw [List.forall₂_map_left_iff]
      refine ((List.forall₂_and_left _ _).mpr ⟨hentries, explicitEnv_forall₂ hexplicit⟩).imp ?_
      rintro entry text ⟨hlookup, final, hfinal, htext⟩
      refine ⟨entry.2, decide (entry.1 ∈ m.userKeys), final, by rw [hsource, hlookup]; rfl, ?_,
        htext⟩
      unfold EnvMap.value at hfinal
      split_ifs at hfinal ⊢ with huser <;> simp_all
  · intro hpass environ order' plan' hstart'
    obtain ⟨m', hm', hargs', hchild'⟩ := prepareStart_eq_ok hstart'
    rw [mergedEnv_environ hpass, hm] at hm'
    cases hm'
    refine ⟨Except.ok.inj (hargs'.symm.trans hargs), ?_⟩
    obtain ⟨-, env', hexplicit', hplan'⟩ | ⟨hneeds, -⟩ := childEnv_eq_ok hchild'
    · exact ⟨env', hplan', explicitEnv_perm hexplicit hexplicit'⟩
    · simp [needsEnv, hpass] at hneeds

def dotenvHost (environ : List String) : StartHost where
  environ
  dotenvs := fun _ _ => .content "PORT=80\nMODE='x' # y\n"
  users := ⟨fun _ => none, fun _ => none, fun _ => none, 0⟩
  euid := 0
  machine := ⟨1024, 2⟩
  files := fun _ _ => .missing
  executable := none
  lookPath := fun _ _ _ => none

def dotenvProcess : Process :=
  { Process.empty with
    name := "web"
    command := "/bin/web"
    args := ["--port=\x7b\x7b.PORT\x7d\x7d"]
    dotEnv := "/etc/web.env"
    environment := GoMap.ofList [("URL", "http://h:\x7b\x7b.PORT\x7d\x7d/")]
    exportSocket := some true
    removeEnv := ["MODE"] }

def mapOrder : EntryOrder := ⟨id, fun _ => .refl _⟩

/-- Whatever the environment of gopherd, the child gets the same three variables. -/
theorem environment_exact_dotenv :
    ∃ plan, prepareStart (dotenvHost ["HOME=/", "URL=u"]) mapOrder dotenvProcess "/run/s" =
        .ok plan ∧
      plan.env = some ["GOPHERD_SOCKET=/run/s", "URL=http://h:80/", "PORT=80"] ∧
      ∀ environ plan', prepareStart (dotenvHost environ) mapOrder dotenvProcess "/run/s" =
          .ok plan' →
        plan'.args = ["--port=80"] ∧ ∃ env', plan'.env = some env' ∧
          env'.Perm ["GOPHERD_SOCKET=/run/s", "URL=http://h:80/", "PORT=80"] := by
  have hrun : ((prepareStart (dotenvHost ["HOME=/", "URL=u"]) mapOrder dotenvProcess
      "/run/s").toOption.map fun plan => (plan.args, plan.env)) =
      some (["--port=80"], some ["GOPHERD_SOCKET=/run/s", "URL=http://h:80/", "PORT=80"]) := by
    decide +kernel
  obtain ⟨plan, hplan, hshown⟩ := Option.map_eq_some_iff.mp hrun
  obtain ⟨hargs, henv⟩ := Prod.mk.inj hshown
  have hstart := Except.toOption_eq_some.mp hplan
  refine ⟨plan, hstart, henv, ?_⟩
  intro environ plan' hstart'
  have hexact := (environment_exact hstart henv).2 rfl environ mapOrder plan' hstart'
  exact ⟨hexact.1.trans hargs, hexact.2⟩

end Gopherd
