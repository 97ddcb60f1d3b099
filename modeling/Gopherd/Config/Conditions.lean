import Gopherd.Config.Unmarshal

/-!
What `condition-env-equals` leaves of a configuration. The loader collects the
names of the processes whose condition does not hold and then goes by the
names: processes, edges and checks.
-/

namespace Gopherd

open Go Yaml

def Process.usesCheck (p : Process) (check : String) : Bool :=
  check ∈ p.onCheckFailure.keys || (p.readyCheck ≠ "" && p.readyCheck = check)

def Process.dropEdges (p : Process) (gone : String → Bool) : Process :=
  { p with
    after := p.after.filter (!gone ·)
    before := p.before.filter (!gone ·)
    requires := p.requires.filter (!gone ·) }

/-- A name that is written but belongs to no process that stays. -/
def gone (entries : List Entry) (name : String) : Bool :=
  entries.any (fun entry => entry.process.procName = name) &&
    entries.all fun entry => !(entry.met && entry.process.procName = name)

/-- A check that is referred to, but by no process that stays. -/
def orphaned (entries : List Entry) (check : String) : Bool :=
  entries.any (fun entry => entry.process.usesCheck check) &&
    entries.all fun entry => !(entry.met && entry.process.usesCheck check)

structure AsIfNotWritten (entries : List Entry) (checks : GoMap String CheckConfig)
    (cfg : Config) : Prop where
  processes : cfg.processes =
    (entries.filter Entry.met).map fun entry => entry.process.dropEdges (gone entries)
  checks : ∀ name, cfg.checks.lookup name =
    if orphaned entries name then none else checks.lookup name

/-- Entries that go by one name stay or go together. -/
def NamesAgree (entries : List Entry) : Prop :=
  ∀ a ∈ entries, ∀ b ∈ entries, a.process.procName = b.process.procName → a.met = b.met

instance (entries : List Entry) : Decidable (NamesAgree entries) :=
  inferInstanceAs (Decidable (∀ a ∈ entries, ∀ b ∈ entries,
    a.process.procName = b.process.procName → a.met = b.met))

theorem mem_excludedNames :
    name ∈ excludedNames entries ↔
      ∃ entry ∈ entries, entry.met = false ∧ entry.process.procName = name := by
  simp [excludedNames, and_assoc]

theorem procName_dropEdges (p : Process) (gone : String → Bool) :
    (p.dropEdges gone).procName = p.procName := rfl

theorem excludeProcesses_eq (excluded : List String) (processes : List Process) :
    excludeProcesses excluded processes =
      (processes.filter (fun p => p.procName ∉ excluded)).map
        (fun p => p.dropEdges (· ∈ excluded)) := by
  simp [excludeProcesses, Process.dropEdges]

theorem lookup_foldl_erase {K V : Type} [DecidableEq K] (keys : List K) (m : GoMap K V) (key : K) :
    (keys.foldl (fun m key => m.erase key) m).lookup key =
      if key ∈ keys then none else m.lookup key := by
  induction keys generalizing m with
  | nil => simp
  | cons first keys ih =>
    rw [List.foldl_cons, ih, GoMap.lookup_erase]
    by_cases hfirst : key = first <;> simp [hfirst]

theorem mem_checkUsers :
    name ∈ checkUsers processes check ↔
      ∃ p ∈ processes, p.usesCheck check = true ∧ p.procName = name := by
  simp [checkUsers, Process.usesCheck, and_assoc]

theorem checkUsers_eq_nil :
    checkUsers processes check = [] ↔ ∀ p ∈ processes, p.usesCheck check = false := by
  simp [checkUsers, Process.usesCheck]

theorem excludeOrphanedChecks_lookup (excluded : List String) (processes : List Process)
    (checks : GoMap String CheckConfig) (name : String) :
    (excludeOrphanedChecks excluded processes checks).lookup name =
      if checkUsers processes name ≠ [] ∧ ∀ user ∈ checkUsers processes name, user ∈ excluded
      then none else checks.lookup name := by
  rw [excludeOrphanedChecks, lookup_foldl_erase]
  cases hlookup : checks.lookup name with
  | none => simp
  | some check =>
    have hkey : name ∈ checks.keys := GoMap.mem_keys.mpr (by rw [hlookup]; rfl)
    simp [List.mem_filter, hkey]

theorem parseSettings_eq_ok {parsed : Parsed} :
    parseSettings ctx order root = .ok parsed ↔
      (root.textsAt "init-stop-signal").forM checkStopSignal = .ok () ∧
      checkSocketMode root = .ok () ∧
      ∃ mode entries checks, parseShutdownOrder (root.textAt "shutdown-order") = .ok mode ∧
        readEntries ctx order root = .ok entries ∧ parseChecks ctx root = .ok checks ∧
        parsed = ⟨entries.map Entry.process, excludedNames entries, checks, mode,
          root.textsAt "init-stop-signal", root.textAt "prefix", root.flagAt "subreaper"⟩ := by
  constructor
  · intro hsettings
    obtain ⟨_, hsignals, hsettings⟩ := Except.bind_eq_ok.mp hsettings
    obtain ⟨mode, hmode, hsettings⟩ := Except.bind_eq_ok.mp hsettings
    obtain ⟨_, hsocket, hsettings⟩ := Except.bind_eq_ok.mp hsettings
    obtain ⟨entries, hread, hsettings⟩ := Except.bind_eq_ok.mp hsettings
    obtain ⟨checks, hchecks, hsettings⟩ := Except.bind_eq_ok.mp hsettings
    exact ⟨hsignals, hsocket, mode, entries, checks, hmode, Except.mapError_eq_ok.mp hread, hchecks,
      (Except.pure_eq_ok.mp hsettings).symm⟩
  · rintro ⟨hsignals, hsocket, mode, entries, checks, hmode, hread, hchecks, rfl⟩
    refine Except.bind_eq_ok.mpr ⟨_, hsignals, Except.bind_eq_ok.mpr ⟨_, hmode, ?_⟩⟩
    refine Except.bind_eq_ok.mpr ⟨_, hsocket, ?_⟩
    refine Except.bind_eq_ok.mpr ⟨_, Except.mapError_eq_ok.mpr hread, ?_⟩
    exact Except.bind_eq_ok.mpr ⟨_, hchecks, rfl⟩

/-- What an accepted text turns into. -/
theorem unmarshal_eq_ok (hroot : parse data = .ok root)
    (hentries : readEntries ctx order root = .ok entries)
    (hchecks : parseChecks ctx root = .ok checks) (hload : unmarshal ctx order data = .ok cfg) :
    cfg.processes = excludeProcesses (excludedNames entries) (entries.map Entry.process) ∧
      cfg.checks = excludeOrphanedChecks (excludedNames entries) (entries.map Entry.process)
        checks := by
  obtain ⟨_, hparse, hload⟩ := Except.bind_eq_ok.mp hload
  rw [Except.mapError_eq_ok, hroot] at hparse
  cases hparse
  obtain ⟨parsed, hsettings, hload⟩ := Except.bind_eq_ok.mp hload
  obtain ⟨-, -, mode, _, _, -, hread, hdefined, rfl⟩ := parseSettings_eq_ok.mp hsettings
  cases hentries.symm.trans hread
  cases hchecks.symm.trans hdefined
  rw [Except.mapError_eq_ok] at hload
  obtain ⟨_, -, hload⟩ := Except.bind_eq_ok.mp hload
  obtain ⟨_, -, hload⟩ := Except.bind_eq_ok.mp hload
  obtain rfl := Except.pure_eq_ok.mp hload
  exact ⟨rfl, rfl⟩

section NamesAgree

variable {entries : List Entry}

theorem NamesAgree.mem_excludedNames_iff (h : NamesAgree entries) (hentry : entry ∈ entries) :
    entry.process.procName ∈ excludedNames entries ↔ entry.met = false := by
  rw [mem_excludedNames]
  constructor
  · rintro ⟨other, hother, hunmet, hname⟩
    rw [← h other hother entry hentry hname]
    exact hunmet
  · intro hunmet
    exact ⟨entry, hentry, hunmet, rfl⟩

theorem NamesAgree.gone_iff (h : NamesAgree entries) (name : String) :
    gone entries name = true ↔ name ∈ excludedNames entries := by
  rw [mem_excludedNames]
  simp only [gone, Bool.and_eq_true, List.any_eq_true, List.all_eq_true, Bool.not_eq_true',
    Bool.and_eq_false_iff, decide_eq_true_eq, decide_eq_false_iff_not]
  constructor
  · rintro ⟨⟨entry, hentry, hname⟩, hall⟩
    exact ⟨entry, hentry, (hall entry hentry).resolve_right (not_not.mpr hname), hname⟩
  · rintro ⟨entry, hentry, hunmet, hname⟩
    refine ⟨⟨entry, hentry, hname⟩, ?_⟩
    intro other hother
    by_cases hsame : other.process.procName = name
    · left
      rw [h other hother entry hentry (hsame.trans hname.symm), hunmet]
    · exact Or.inr hsame

theorem NamesAgree.processes (h : NamesAgree entries) :
    excludeProcesses (excludedNames entries) (entries.map Entry.process) =
      (entries.filter Entry.met).map fun entry => entry.process.dropEdges (gone entries) := by
  have hkept : entries.filter (fun entry => entry.process.procName ∉ excludedNames entries) =
      entries.filter Entry.met := by
    apply List.filter_congr
    intro entry hentry
    simp [h.mem_excludedNames_iff hentry]
  have hgone : (fun name => decide (name ∈ excludedNames entries)) = gone entries := by
    funext name
    rw [Bool.eq_iff_iff, decide_eq_true_eq, h.gone_iff]
  rw [excludeProcesses_eq, List.filter_map, List.map_map, ← hkept, hgone]
  rfl

theorem NamesAgree.orphaned_iff (h : NamesAgree entries) (check : String) :
    orphaned entries check = true ↔
      checkUsers (entries.map Entry.process) check ≠ [] ∧
        ∀ user ∈ checkUsers (entries.map Entry.process) check, user ∈ excludedNames entries := by
  simp only [orphaned, Bool.and_eq_true, List.any_eq_true, List.all_eq_true, Bool.not_eq_true',
    Bool.and_eq_false_iff, ne_eq, checkUsers_eq_nil, mem_checkUsers, List.mem_map,
    not_forall, Bool.not_eq_false]
  constructor
  · rintro ⟨⟨entry, hentry, huses⟩, hall⟩
    refine ⟨⟨_, ⟨entry, hentry, rfl⟩, huses⟩, ?_⟩
    rintro _ ⟨_, ⟨user, huser, rfl⟩, huses, rfl⟩
    rw [h.mem_excludedNames_iff huser]
    exact (hall user huser).resolve_right (by simp [huses])
  · rintro ⟨⟨_, ⟨entry, hentry, rfl⟩, huses⟩, hall⟩
    refine ⟨⟨entry, hentry, huses⟩, ?_⟩
    intro user huser
    by_cases huses : user.process.usesCheck check = true
    · left
      rw [← h.mem_excludedNames_iff huser]
      exact hall _ ⟨_, ⟨user, huser, rfl⟩, huses, rfl⟩
    · exact Or.inr (by simpa using huses)

end NamesAgree

/-- An entry that stays shares its name with one that goes: the loader drops it
with the other. -/
theorem NamesAgree.of_processes
    (h : excludeProcesses (excludedNames entries) (entries.map Entry.process) = (entries.filter
      Entry.met).map fun entry => entry.process.dropEdges (gone entries)) : NamesAgree entries := by
  -- It is enough to refute a pair with the first entry met and the second not.
  have hclash : ∀ a ∈ entries, ∀ b ∈ entries, a.process.procName = b.process.procName →
      a.met = true → b.met = true := by
    intro a ha b hb hname hmet
    by_contra hunmet
    have hmem : a.process.dropEdges (gone entries) ∈
        excludeProcesses (excludedNames entries) (entries.map Entry.process) := by
      rw [h]
      exact List.mem_map.mpr ⟨a, List.mem_filter.mpr ⟨ha, hmet⟩, rfl⟩
    rw [excludeProcesses_eq] at hmem
    obtain ⟨p, hp, heq⟩ := List.mem_map.mp hmem
    have hpname : p.procName = a.process.procName := by
      rw [← procName_dropEdges p, heq, procName_dropEdges]
    have hnot := (List.mem_filter.mp hp).2
    rw [hpname, hname] at hnot
    exact absurd (mem_excludedNames.mpr ⟨b, hb, by simpa using hunmet, rfl⟩) (by simpa using hnot)
  intro a ha b hb hname
  rw [Bool.eq_iff_iff]
  exact ⟨hclash a ha b hb hname, hclash b hb a ha hname.symm⟩

/-- The loaded configuration is the one without the entries whose condition does
not hold exactly when entries of one name stay or go together. -/
theorem unmarshal_asIfNotWritten_iff {ctx : LoadContext} {order : MapOrder} {data : Bytes}
    {cfg : Config} {root : Node Bytes} {entries : List Entry}
    {checks : GoMap String CheckConfig} (hroot : parse data = .ok root)
    (hentries : readEntries ctx order root = .ok entries)
    (hchecks : parseChecks ctx root = .ok checks)
    (hload : unmarshal ctx order data = .ok cfg) :
    AsIfNotWritten entries checks cfg ↔ NamesAgree entries := by
  obtain ⟨hprocesses, hkept⟩ := unmarshal_eq_ok hroot hentries hchecks hload
  constructor
  · intro h
    exact .of_processes (hprocesses.symm.trans h.processes)
  · intro h
    refine ⟨hprocesses.trans h.processes, ?_⟩
    intro name
    rw [hkept, excludeOrphanedChecks_lookup]
    simp only [h.orphaned_iff]

/-- Go iterates every map in the order in which it is kept. -/
def writtenOrder : MapOrder where
  order := fun _ _ entries => entries
  perm := fun _ _ entries => List.Perm.refl entries

def apiContext : LoadContext where
  env := GoMap.ofList [("ROLE", "api")]
  files := fun _ _ => .missing
  parseFloat := fun _ => none
  requestable := fun _ => true

def rolesText (api worker : String) : Bytes :=
  ascii ("processes:\n" ++
    "  - name: " ++ api ++ "\n    command: /bin/api\n" ++
    "    condition-env-equals:\n      ROLE: api\n" ++
    "  - name: " ++ worker ++ "\n    command: /bin/worker\n" ++
    "    condition-env-equals:\n      ROLE: worker\n")

/-- The parts of a load, when they satisfy a test. -/
theorem exists_loaded (ctx : LoadContext) (order : MapOrder) (data : Bytes)
    (test : List Entry → Config → Bool)
    (h : ((parse data).toOption.bind fun root =>
      (readEntries ctx order root).toOption.bind fun entries =>
        (parseChecks ctx root).toOption.bind fun _ =>
          (unmarshal ctx order data).toOption.map (test entries)) = some true) :
    ∃ root entries checks cfg, parse data = .ok root ∧
      readEntries ctx order root = .ok entries ∧ parseChecks ctx root = .ok checks ∧
      unmarshal ctx order data = .ok cfg ∧ test entries cfg = true := by
  obtain ⟨root, hroot, h⟩ := Option.bind_eq_some_iff.mp h
  obtain ⟨entries, hentries, h⟩ := Option.bind_eq_some_iff.mp h
  obtain ⟨checks, hchecks, h⟩ := Option.bind_eq_some_iff.mp h
  obtain ⟨cfg, hcfg, htest⟩ := Option.map_eq_some_iff.mp h
  exact ⟨root, entries, checks, cfg, Except.toOption_eq_some.mp hroot,
    Except.toOption_eq_some.mp hentries, Except.toOption_eq_some.mp hchecks,
    Except.toOption_eq_some.mp hcfg, htest⟩

/-- The condition of the first entry holds, and the configuration is empty. -/
theorem shared_name_dropped :
    ∃ root entries checks cfg, parse (rolesText "app" "app") = .ok root ∧
      readEntries apiContext writtenOrder root = .ok entries ∧
      parseChecks apiContext root = .ok checks ∧
      unmarshal apiContext writtenOrder (rolesText "app" "app") = .ok cfg ∧
      entries.map Entry.met = [true, false] ∧ cfg.processes = [] ∧
      ¬AsIfNotWritten entries checks cfg := by
  obtain ⟨root, entries, checks, cfg, hroot, hentries, hchecks, hload, htest⟩ :=
    exists_loaded apiContext writtenOrder (rolesText "app" "app")
      (fun entries cfg => entries.map Entry.met = [true, false] ∧ cfg.processes = [])
      (by decide +kernel)
  simp only [Bool.decide_and, Bool.and_eq_true, decide_eq_true_eq] at htest
  refine ⟨root, entries, checks, cfg, hroot, hentries, hchecks, hload, htest.1, htest.2, ?_⟩
  intro h
  obtain ⟨entry, hentry, hmet⟩ : ∃ entry ∈ entries, entry.met = true :=
    List.mem_map.mp (by rw [htest.1]; exact List.mem_cons_self)
  have hempty := h.processes
  rw [htest.2, eq_comm, List.map_eq_nil_iff, List.filter_eq_nil_iff] at hempty
  exact hempty entry hentry hmet

/-- Under two names, the service of the role is left. -/
theorem own_names_kept :
    ∃ root entries checks cfg, parse (rolesText "api" "worker") = .ok root ∧
      readEntries apiContext writtenOrder root = .ok entries ∧
      parseChecks apiContext root = .ok checks ∧
      unmarshal apiContext writtenOrder (rolesText "api" "worker") = .ok cfg ∧
      cfg.processes.map Process.name = ["api"] ∧ AsIfNotWritten entries checks cfg := by
  obtain ⟨root, entries, checks, cfg, hroot, hentries, hchecks, hload, htest⟩ :=
    exists_loaded apiContext writtenOrder (rolesText "api" "worker")
      (fun entries cfg => NamesAgree entries ∧ cfg.processes.map Process.name = ["api"])
      (by decide +kernel)
  simp only [Bool.decide_and, Bool.and_eq_true, decide_eq_true_eq] at htest
  exact ⟨root, entries, checks, cfg, hroot, hentries, hchecks, hload, htest.2,
    (unmarshal_asIfNotWritten_iff hroot hentries hchecks hload).mpr htest.1⟩

end Gopherd
