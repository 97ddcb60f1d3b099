import Gopherd.Config.Spellings
import Gopherd.Service.Service

/-!
The contract of scheduled processes.
-/

namespace Gopherd

open Go Yaml

structure ScheduledContract (cfg : Config) (p : Process) : Prop where
  parsable : ∃ schedule, Cron.parse p.schedule = .ok schedule
  onSuccess : p.onSuccess = ""
  onFailure : p.onFailure = ""
  backoffDelay : p.backoffDelay = ""
  backoffFactor : p.backoffFactor = .finite 0
  backoffLimit : p.backoffLimit = ""
  after : p.after = []
  before : p.before = []
  requires : p.requires = []
  unordered : ∀ q ∈ cfg.processes, p.procName ∉ q.after ++ q.before ++ q.requires

variable {p p' : Process} {scheduled : List String}

theorem carriesSchedule_of_schedule (hok : validateScheduled p scheduled = .ok ())
    (hschedule : p.schedule ≠ "") :
    p.carriesSchedule = true := by
  obtain ⟨hstartup, -⟩ := validateScheduled_ok hok hschedule
  rcases hstartup with hstartup | hstartup
  · simp [Process.carriesSchedule, hstartup]
  · simp [Process.carriesSchedule, hstartup, hschedule]

/-- A process that is accepted has no edge to a scheduled one. -/
theorem validateScheduled_edges (hok : validateScheduled p scheduled = .ok ()) :
    ∀ dep ∈ p.after ++ p.before ++ p.requires, dep ∉ scheduled := by
  cases hfind : (p.after ++ p.before ++ p.requires).find? (· ∈ scheduled) with
  | some dep =>
    unfold validateScheduled at hok
    rw [hfind] at hok
    split_ifs at hok
    · obtain ⟨_, -, hok⟩ := Except.bind_eq_ok.mp hok
      cases hok
    · obtain ⟨_, -, hok⟩ := Except.bind_eq_ok.mp hok
      cases hok
  | none =>
    intro dep hdep hmem
    exact List.find?_eq_none.mp hfind dep hdep (by simpa using hmem)

/-- What `validateScheduled` looks at in a process with a schedule. -/
theorem validateScheduled_fields (hok : validateScheduled p scheduled = .ok ())
    (hcarries : p.carriesSchedule = true) :
    (∃ schedule, Cron.parse p.schedule = .ok schedule) ∧ p.onSuccess = "" ∧ p.onFailure = "" ∧
      p.backoffDelay = "" ∧ p.backoffLimit = "" ∧ p.after = [] ∧ p.before = [] ∧
      p.requires = [] := by
  unfold validateScheduled at hok
  rw [if_pos hcarries] at hok
  obtain ⟨_, hcontract, -⟩ := Except.bind_eq_ok.mp hok
  unfold validateSchedule at hcontract
  obtain ⟨_, -, hcontract⟩ := Except.bind_eq_ok.mp hcontract
  cases hparse : Cron.parse p.schedule with
  | error error => rw [hparse] at hcontract; cases hcontract
  | ok schedule =>
    rw [hparse] at hcontract
    obtain ⟨_, hsuccess, hcontract⟩ := Except.bind_eq_ok.mp hcontract
    obtain ⟨_, hfailure, hcontract⟩ := Except.bind_eq_ok.mp hcontract
    obtain ⟨_, hbackoff, hcontract⟩ := Except.bind_eq_ok.mp hcontract
    obtain ⟨_, horder, -⟩ := Except.bind_eq_ok.mp hcontract
    have hbackoff' := require_eq_ok.mp hbackoff
    have horder' := require_eq_ok.mp horder
    simp only [Bool.and_eq_true, decide_eq_true_eq] at hbackoff' horder'
    exact ⟨⟨schedule, rfl⟩, by simpa using require_eq_ok.mp hsuccess,
      by simpa using require_eq_ok.mp hfailure, hbackoff'.1, hbackoff'.2, horder'.1.1,
      horder'.1.2, horder'.2⟩

def Switched (startup startup' : Startup) : Prop :=
  (startup = .disabled ∧ startup' = .scheduled) ∨ (startup = .scheduled ∧ startup' = .disabled)

structure SwitchedItem (ctx ctx' : LoadContext) (n n' : Node Bytes) : Prop where
  settings : ∀ key, key ≠ "startup" → n'.get key = n.get key
  met : conditionEnvMet ctx' n' = conditionEnvMet ctx n
  startup : parseStartup ctx' n' = parseStartup ctx n ∨
    n.textAt "schedule" ≠ "" ∧ ∃ startup startup', parseStartup ctx n = .ok startup ∧
      parseStartup ctx' n' = .ok startup' ∧ Switched startup startup'

structure SwitchedDocument (ctx ctx' : LoadContext) (root root' : Node Bytes) : Prop where
  parseFloat : ctx'.parseFloat = ctx.parseFloat
  requestable : ctx'.requestable = ctx.requestable
  settings : ∀ key, key ≠ "processes" → root'.get key = root.get key
  items : List.Forall₂ (SwitchedItem ctx ctx') (root.itemsAt "processes")
    (root'.itemsAt "processes")

inductive Twin (p : Process) : Process → Prop
  | intro (startup : Startup) (codes : GoMap Int Int) (signals : GoMap String String)
      (hkeys : ∀ key, (signals.lookup key).isSome = (p.signalRewrite.lookup key).isSome)
      (hstartup : startup = p.startup ∨ p.schedule ≠ "" ∧ Switched p.startup startup) :
      Twin p { p with startup, exitCodeMap := codes, signalRewrite := signals }

theorem carriesSchedule_switched
    (h : startup = p.startup ∨ p.schedule ≠ "" ∧ Switched p.startup startup) :
    ({ p with startup } : Process).carriesSchedule = p.carriesSchedule := by
  rcases h with rfl | ⟨hne, ⟨hfrom, rfl⟩ | ⟨hfrom, rfl⟩⟩
  · rfl
  · simp [Process.carriesSchedule, hfrom, hne]
  · simp [Process.carriesSchedule, hfrom, hne]

/-- The start mode has a say in the validation through the schedule only. -/
theorem validateProcess_startup
    (hcarries : ({ p with startup } : Process).carriesSchedule = p.carriesSchedule)
    (h : validateProcess reserved scheduled p = .ok ()) :
    validateProcess reserved scheduled { p with startup } = .ok () := by
  rw [← h]
  unfold validateProcess validateScheduled
  rw [hcarries]
  rfl

theorem Twin.valid (h : Twin p p') (hvalid : validateProcess reserved scheduled p = .ok ()) :
    validateProcess reserved scheduled p' = .ok () := by
  cases h with
  | intro startup codes signals hkeys hstartup =>
    exact validateProcess_tables (p := { p with startup }) hkeys
      (validateProcess_startup (carriesSchedule_switched hstartup) hvalid)

/-- What twins share. -/
theorem Twin.same (h : Twin p p') :
    (p'.carriesSchedule, p'.procName) = (p.carriesSchedule, p.procName) := by
  cases h with
  | intro startup codes signals _ hstartup =>
    exact congrArg (·, p.procName) (carriesSchedule_switched hstartup)

theorem Twin.dropEdges (h : Twin p p') (gone : String → Bool) :
    Twin (p.dropEdges gone) (p'.dropEdges gone) := by
  cases h with
  | intro startup codes signals hkeys hstartup =>
    exact .intro startup codes signals hkeys hstartup

/-- `service.New` takes both twins or neither. -/
theorem Twin.new (h : Twin p p')
    (hparsable : p.schedule ≠ "" → ∃ schedule, Cron.parse p.schedule = .ok schedule)
    (hnew : ∃ svc, Service.new p = .ok svc) : ∃ svc, Service.new p' = .ok svc := by
  rw [Service.new_ok_iff] at hnew ⊢
  obtain ⟨hschedule, hrest⟩ := hnew
  cases h with
  | intro startup codes signals hkeys hstartup =>
    refine ⟨?_, hrest⟩
    rcases hstartup with rfl | ⟨hne, ⟨-, rfl⟩ | ⟨-, rfl⟩⟩
    · exact hschedule
    · obtain ⟨schedule, hparse⟩ := hparsable hne
      exact ⟨some schedule, by simp [newSchedule, hparse, tagged, Except.map]⟩
    · exact ⟨none, rfl⟩

theorem readProcess_switched (h : ∀ key, key ≠ "startup" → n'.get key = n.get key)
    (startup startup' : Startup) :
    readProcess n' startup' = { readProcess n startup with startup := startup' } := by
  have htext : ∀ key, key ≠ "startup" → n'.textAt key = n.textAt key := by
    intro key hkey
    rw [Node.textAt, h key hkey, Node.textAt]
  have htexts : ∀ key, key ≠ "startup" → n'.textsAt key = n.textsAt key := by
    intro key hkey
    rw [Node.textsAt, h key hkey, Node.textsAt]
  have hmap : ∀ key, key ≠ "startup" → n'.textMapAt key = n.textMapAt key := by
    intro key hkey
    rw [Node.textMapAt, h key hkey, Node.textMapAt]
  have hflag : ∀ key, key ≠ "startup" → n'.flagAt key = n.flagAt key := by
    intro key hkey
    rw [Node.flagAt, htext key hkey, Node.flagAt]
  have hoptional : ∀ key, key ≠ "startup" → n'.optionalFlagAt key = n.optionalFlagAt key := by
    intro key hkey
    rw [Node.optionalFlagAt, htext key hkey, Node.optionalFlagAt]
  have hint : ∀ key, key ≠ "startup" → n'.intAt key = n.intAt key := by
    intro key hkey
    rw [Node.intAt, htext key hkey, Node.intAt]
  simp only [readProcess, htext, htexts, hmap, hflag, hoptional, hint, ne_eq, String.reduceEq,
    not_false_eq_true]

section Switched

variable {ctx ctx' : LoadContext} {order order' : MapOrder} {root root' n n' : Node Bytes}

theorem SwitchedItem.startup_of_ok (h : SwitchedItem ctx ctx' n n') {startup : Startup}
    (hstartup : parseStartup ctx n = .ok startup) :
    ∃ startup', parseStartup ctx' n' = .ok startup' ∧
      (startup' = startup ∨ n.textAt "schedule" ≠ "" ∧ Switched startup startup') := by
  rcases h.startup with hsame | ⟨hschedule, old, new, hold, hnew, hswitched⟩
  · exact ⟨startup, hsame.trans hstartup, .inl rfl⟩
  · cases hold.symm.trans hstartup
    exact ⟨new, hnew, .inr ⟨hschedule, hswitched⟩⟩

theorem SwitchedItem.settingsOk (h : SwitchedItem ctx ctx' n n')
    (hparse : ctx'.parseFloat = ctx.parseFloat) {startup startup' : Startup}
    (hok : SettingsOk ctx n (readProcess n startup) factor) :
    SettingsOk ctx' n' (readProcess n' startup') factor := by
  have hmapping : ∀ key, key ≠ "startup" → requireMapping n' key = requireMapping n key := by
    intro key hkey
    unfold requireMapping
    rw [h.settings key hkey]
  have henv : conditionEnv n' = conditionEnv n := by
    unfold conditionEnv Node.textMapAt
    rw [h.settings _ (by decide)]
  rw [readProcess_switched h.settings startup startup']
  refine ⟨hok.conditionFiles, ?_, (hmapping _ (by decide)).trans hok.mapping, hok.settings, ?_⟩
  · rw [← hok.conditionEnv]
    unfold checkConditionEnv
    rw [hmapping _ (by decide), henv]
  · rw [← hok.factor]
    unfold readBackoffFactor Node.textAt
    rw [h.settings _ (by decide), hparse]

theorem SwitchedItem.readEntry (h : SwitchedItem ctx ctx' n n')
    (hparse : ctx'.parseFloat = ctx.parseFloat)
    (hdefaults : inheritDefaults root' = inheritDefaults root)
    (hread : readEntry ctx order root (n, i) = .ok entry) :
    ∃ entry', Gopherd.readEntry ctx' order' root' (n', i) = .ok entry' ∧
      Twin entry.process entry'.process ∧ entry'.met = entry.met := by
  obtain ⟨hreads, hcodes, hsignals⟩ := readEntry_eq_ok.mp hread
  obtain ⟨startup, factor, hstartup, hok, hentry⟩ := hreads.tables
  obtain ⟨startup', hstartup', hswitched⟩ := h.startup_of_ok hstartup
  have hcodeEntries : exitCodeEntries n' = exitCodeEntries n := by
    unfold exitCodeEntries Node.textMapAt
    rw [h.settings _ (by decide)]
  have hsignalEntries : signalEntries n' = signalEntries n := by
    unfold signalEntries Node.textMapAt
    rw [h.settings _ (by decide)]
  obtain ⟨codes, hcodes', -⟩ := hcodes.exists_perm
    ((order'.perm i .exitCodeMap _).trans (order.perm i .exitCodeMap _).symm)
  obtain ⟨signals, hsignals', hkeys⟩ := hsignals.exists_perm
    ((order'.perm i .signalRewrite _).trans (order.perm i .signalRewrite _).symm)
  have hprocess : ({ entry.process with
      startup := startup', exitCodeMap := codes, signalRewrite := signals } : Process) =
      inheritDefaults root' { readProcess n' startup' with
        exitCodeMap := codes, signalRewrite := signals, backoffFactor := factor } := by
    rw [hdefaults, readProcess_switched h.settings startup startup']
    generalize entry.process = p at hentry
    rw [hentry]
    rfl
  refine ⟨⟨_, conditionEnvMet ctx' n'⟩, readEntry_eq_ok.mpr ⟨⟨⟨startup', factor, hstartup',
    h.settingsOk hparse hok, hprocess⟩, rfl⟩, ?_, ?_⟩, .intro startup' codes signals hkeys ?_, ?_⟩
  · rw [hcodeEntries]
    exact hcodes'
  · rw [hsignalEntries]
    exact hsignals'
  · have hold : entry.process.startup = startup ∧
        entry.process.schedule = n.textAt "schedule" := by
      generalize entry.process = p at hentry
      rw [hentry]
      exact ⟨rfl, rfl⟩
    rw [hold.1, hold.2]
    exact hswitched
  · rw [h.met, hreads.met]

def TwinEntries (entries entries' : List Entry) : Prop :=
  List.Forall₂ (fun e e' : Entry => Twin e.process e'.process ∧ e'.met = e.met) entries entries'

variable {entries entries' : List Entry}

theorem SwitchedDocument.readEntries (h : SwitchedDocument ctx ctx' root root') (order' : MapOrder)
    (hread : readEntries ctx order root = .ok entries) :
    ∃ entries', Gopherd.readEntries ctx' order' root' = .ok entries' ∧
      TwinEntries entries entries' := by
  have hdefaults : inheritDefaults root' = inheritDefaults root := by
    funext p
    unfold inheritDefaults Node.optionalFlagAt Node.textAt
    rw [h.settings _ (by decide), h.settings _ (by decide), h.settings _ (by decide)]
  refine Lockstep.mapM_related (Lockstep.zipIdx h.items 0) hread ?_
  rintro ⟨n, i⟩ ⟨n', i'⟩ entry ⟨hitem, hindex⟩ hentry
  obtain rfl : i = i' := hindex
  exact hitem.readEntry h.parseFloat hdefaults hentry

theorem SwitchedDocument.documentOk (h : SwitchedDocument ctx ctx' root root')
    (hok : DocumentOk ctx root) : DocumentOk ctx' root' := by
  obtain ⟨hsignals, hmode, hsocket, hchecks⟩ := hok
  have hcheck : parseCheck ctx' = parseCheck ctx := by
    funext n
    unfold parseCheck
    rw [h.requestable]
  refine ⟨?_, ?_, ?_, ?_⟩
  · unfold Node.textsAt at hsignals ⊢
    rw [h.settings _ (by decide)]
    exact hsignals
  · unfold Node.textAt at hmode ⊢
    rw [h.settings _ (by decide)]
    exact hmode
  · unfold checkSocketMode at hsocket ⊢
    rw [h.settings _ (by decide)]
    exact hsocket
  · unfold parseChecks Node.entriesAt at hchecks ⊢
    rw [h.settings _ (by decide), hcheck]
    exact hchecks

theorem TwinEntries.map_eq (h : TwinEntries entries entries') {β : Type} {f : Entry → β}
    (hf : ∀ e e' : Entry, Twin e.process e'.process → e'.met = e.met → f e' = f e) :
    entries'.map f = entries.map f := by
  induction h with
  | nil => rfl
  | cons hab _ ih => rw [List.map_cons, List.map_cons, ih, hf _ _ hab.1 hab.2]

theorem TwinEntries.scheduledSet (h : TwinEntries entries entries') :
    scheduledSet (entries'.map Entry.process) =
      Gopherd.scheduledSet (entries.map Entry.process) := by
  rw [scheduledSet_eq, scheduledSet_eq, h.map_eq fun _ _ htwin _ => htwin.same]

theorem TwinEntries.excludedNames (h : TwinEntries entries entries') :
    excludedNames entries' = Gopherd.excludedNames entries := by
  rw [excludedNames_eq, excludedNames_eq, h.map_eq]
  intro e e' htwin hmet
  rw [hmet, (Prod.mk.inj htwin.same).2]

/-- What the loader accepts, it accepts switched. -/
theorem SwitchedDocument.loads (h : SwitchedDocument ctx ctx' root root') (order' : MapOrder)
    (hroot : parse data = .ok root) (hroot' : parse data' = .ok root')
    (hload : unmarshal ctx order data = .ok cfg) :
    ∃ cfg', unmarshal ctx' order' data' = .ok cfg' ∧
      List.Forall₂ Twin cfg.processes cfg'.processes := by
  obtain ⟨hdocument, entries, hread, hsome, hvalid⟩ := (exists_unmarshal_iff hroot).mp ⟨cfg, hload⟩
  obtain ⟨entries', hread', htwins⟩ := h.readEntries order' hread
  have hsignals : root'.textsAt "init-stop-signal" = root.textsAt "init-stop-signal" := by
    unfold Node.textsAt
    rw [h.settings _ (by decide)]
  have hload' : ∃ cfg', unmarshal ctx' order' data' = .ok cfg' := by
    refine (exists_unmarshal_iff hroot').mpr ⟨h.documentOk hdocument, entries', hread', ?_, ?_⟩
    · rintro rfl
      exact hsome (List.forall₂_nil_right_iff.mp htwins)
    · intro entry' hentry'
      obtain ⟨entry, hentry, htwin, -⟩ := Lockstep.exists_left htwins hentry'
      rw [hsignals, htwins.scheduledSet]
      exact htwin.valid (hvalid entry hentry)
  obtain ⟨cfg', hload'⟩ := hload'
  refine ⟨cfg', hload', ?_⟩
  obtain ⟨checks, hchecks⟩ := hdocument.checks
  obtain ⟨checks', hchecks'⟩ := (h.documentOk hdocument).checks
  rw [(unmarshal_eq_ok hroot hread hchecks hload).1,
    (unmarshal_eq_ok hroot' hread' hchecks' hload').1, htwins.excludedNames,
    excludeProcesses_eq, excludeProcesses_eq, List.filter_map,
    List.filter_map, List.forall₂_map_left_iff, List.forall₂_map_right_iff,
    List.forall₂_map_left_iff, List.forall₂_map_right_iff]
  refine (Lockstep.filter_iff (htwins.imp ?_)).mpr (htwins.imp ?_)
  · rintro e e' ⟨htwin, -⟩
    simp only [Function.comp_apply, (Prod.mk.inj htwin.same).2]
  · rintro e e' ⟨htwin, -⟩ -
    exact htwin.dropEdges _

end Switched

section Load

variable {ctx : LoadContext} {order : MapOrder} {root : Node Bytes} {data : Bytes} {cfg : Config}

/-- The processes that are kept, as they are read. -/
theorem unmarshal_kept (hroot : parse data = .ok root)
    (hload : unmarshal ctx order data = .ok cfg) :
    List.Forall₂ (fun n p => ∃ i entry, readEntry ctx order root (n, i) = .ok entry ∧
      p = entry.process.dropEdges (· ∈ droppedNames ctx root))
      (keptNodes ctx root) cfg.processes := by
  obtain ⟨hdocument, entries, hread, -⟩ := (exists_unmarshal_iff hroot).mp ⟨cfg, hload⟩
  obtain ⟨checks, hchecks⟩ := hdocument.checks
  have hitems : List.Forall₂ (fun n entry => ∃ i, readEntry ctx order root (n, i) = .ok entry)
      (root.itemsAt "processes") entries := by
    rw [← List.zipIdx_map_fst 0 (root.itemsAt "processes"), List.forall₂_map_left_iff]
    exact (Except.mapM_eq_ok.mp hread).imp fun item _ hentry => ⟨item.2, hentry⟩
  rw [(unmarshal_eq_ok hroot hread hchecks hload).1, readEntries_excluded hread,
    excludeProcesses_eq, List.filter_map, List.forall₂_map_right_iff,
    List.forall₂_map_right_iff]
  refine (Lockstep.filter_iff (hitems.imp ?_)).mpr (hitems.imp ?_)
  · rintro n entry ⟨i, hentry⟩
    simp only [Function.comp_apply, (readEntry_eq_ok.mp hentry).1.procName]
  · rintro n entry ⟨i, hentry⟩ -
    exact ⟨i, entry, hentry, rfl⟩

theorem readBackoffFactor_zero (h : readBackoffFactor ctx n = .ok factor) :
    factor = .finite 0 ↔ n.textAt "backoff-factor" = "" := by
  unfold readBackoffFactor at h
  by_cases hraw : n.textAt "backoff-factor" = ""
  · rw [if_pos hraw] at h
    cases h
    simp [hraw]
  · simp only [if_neg hraw] at h
    split at h
    · rename_i value _
      split at h
      · rename_i hpositive
        cases h
        simp only [hraw, iff_false, Float64.finite.injEq]
        rintro rfl
        exact absurd hpositive (by decide)
      · cases h
    · cases h

/-- A kept process has a backoff factor exactly if the text gives one. -/
theorem backoffFactor_kept (hroot : parse data = .ok root)
    (hload : unmarshal ctx order data = .ok cfg) :
    List.Forall₂ (fun n p => p.schedule = n.textAt "schedule" ∧
      (p.backoffFactor = .finite 0 ↔ n.textAt "backoff-factor" = ""))
      (keptNodes ctx root) cfg.processes := by
  refine (unmarshal_kept hroot hload).imp ?_
  rintro n p ⟨i, entry, hentry, rfl⟩
  obtain ⟨startup, factor, -, hok, hprocess⟩ := (readEntry_eq_ok.mp hentry).1.tables
  have hread : entry.process.schedule = n.textAt "schedule" ∧
      entry.process.backoffFactor = factor := by
    generalize entry.process = p at hprocess
    rw [hprocess]
    exact ⟨rfl, rfl⟩
  refine ⟨hread.1, ?_⟩
  rw [← readBackoffFactor_zero hok.factor, ← hread.2]
  rfl

/-- The contract but for the backoff factor holds in every load. -/
theorem scheduledContract_iff (hroot : parse data = .ok root)
    (hload : unmarshal ctx order data = .ok cfg) (hp : p ∈ cfg.processes)
    (hschedule : p.schedule ≠ "") : ScheduledContract cfg p ↔ p.backoffFactor = .finite 0 := by
  obtain ⟨hdocument, entries, hread, -, hvalid⟩ := (exists_unmarshal_iff hroot).mp ⟨cfg, hload⟩
  obtain ⟨checks, hchecks⟩ := hdocument.checks
  have hmem : ∀ q, q ∈ cfg.processes → ∃ entry ∈ entries,
      q = entry.process.dropEdges (· ∈ excludedNames entries) := by
    intro q hq
    rw [(unmarshal_eq_ok hroot hread hchecks hload).1, excludeProcesses_eq] at hq
    simp only [List.mem_map, List.mem_filter] at hq
    obtain ⟨_, ⟨⟨entry, hentry, rfl⟩, -⟩, rfl⟩ := hq
    exact ⟨entry, hentry, rfl⟩
  have hscheduled : ∀ entry ∈ entries, validateScheduled entry.process
      (scheduledSet (entries.map Entry.process)) = .ok () :=
    fun entry hentry => validateProcess_scheduled (hvalid entry hentry)
  constructor
  · exact ScheduledContract.backoffFactor
  · intro hfactor
    obtain ⟨entry, hentry, rfl⟩ := hmem p hp
    have hcarries := carriesSchedule_of_schedule (hscheduled entry hentry) hschedule
    obtain ⟨hparse, hsuccess, hfailure, hdelay, hlimit, hafter, hbefore, hrequires⟩ :=
      validateScheduled_fields (hscheduled entry hentry) hcarries
    refine ⟨hparse, hsuccess, hfailure, hdelay, hfactor, hlimit, ?_, ?_, ?_, ?_⟩
    · simp [Process.dropEdges, hafter]
    · simp [Process.dropEdges, hbefore]
    · simp [Process.dropEdges, hrequires]
    · intro q hq hordered
      obtain ⟨other, hother, rfl⟩ := hmem q hq
      refine validateScheduled_edges (hscheduled other hother) entry.process.procName ?_ ?_
      · simp only [Process.dropEdges, List.mem_append, List.mem_filter] at hordered ⊢
        exact hordered.imp (Or.imp And.left And.left) And.left
      · exact List.mem_map_of_mem (List.mem_filter.mpr ⟨List.mem_map_of_mem hentry, hcarries⟩)

end Load

theorem Twin.orderNodes {cfg cfg' : Config}
    (h : List.Forall₂ Twin cfg.processes cfg'.processes) : cfg'.orderNodes = cfg.orderNodes := by
  unfold Config.orderNodes
  rw [← List.forall₂_eq_eq_eq, List.forall₂_map_left_iff, List.forall₂_map_right_iff]
  refine h.flip.imp ?_
  rintro _ p ⟨⟩
  rfl

/-- The scheduled contract is enforced, and stays so when processes are switched between
disabled and scheduled, exactly when no process with a schedule that is kept has a
`backoff-factor`. -/
theorem scheduled_contract_enforced_iff {ctx : LoadContext} {order : MapOrder} {data : Bytes}
    {root : Node Bytes} {cfg : Config} (hroot : parse data = .ok root)
    (hload : unmarshal ctx order data = .ok cfg) :
    ((∀ p ∈ cfg.processes, p.schedule ≠ "" → ScheduledContract cfg p) ∧
      ∀ ctx' order' data' root', parse data' = .ok root' → SwitchedDocument ctx ctx' root root' →
        ∃ cfg', unmarshal ctx' order' data' = .ok cfg' ∧
          (∀ sorted, Order.topoSort cfg.orderNodes = .ok sorted →
            Order.topoSort cfg'.orderNodes = .ok sorted) ∧
          ((∀ p ∈ cfg.processes, ∃ svc, Service.new p = .ok svc) →
            ∀ p ∈ cfg'.processes, ∃ svc, Service.new p = .ok svc)) ↔
      ∀ n ∈ keptNodes ctx root, n.textAt "schedule" ≠ "" → n.textAt "backoff-factor" = "" := by
  have hkept := backoffFactor_kept hroot hload
  constructor
  · rintro ⟨hcontract, -⟩ n hn hschedule
    obtain ⟨p, hp, hsame, hfactor⟩ := Lockstep.exists_right hkept hn
    exact hfactor.mp (hcontract p hp (by rwa [hsame])).backoffFactor
  · intro hunset
    refine ⟨?_, ?_⟩
    · intro p hp hschedule
      obtain ⟨n, hn, hsame, hfactor⟩ := Lockstep.exists_left hkept hp
      rw [scheduledContract_iff hroot hload hp hschedule, hfactor]
      exact hunset n hn (by rwa [← hsame])
    · intro ctx' order' data' root' hroot' hswitched
      obtain ⟨cfg', hload', htwins⟩ := hswitched.loads order' hroot hroot' hload
      refine ⟨cfg', hload', ?_, ?_⟩
      · intro sorted hsorted
        rw [Twin.orderNodes htwins]
        exact hsorted
      · intro hnew p' hp'
        obtain ⟨p, hp, htwin⟩ := Lockstep.exists_left htwins hp'
        refine htwin.new ?_ (hnew p hp)
        intro hschedule
        obtain ⟨n, hn, hsame, hfactor⟩ := Lockstep.exists_left hkept hp
        exact ((scheduledContract_iff hroot hload hp hschedule).mpr
          (hfactor.mpr (hunset n hn (by rwa [← hsame])))).parsable

def doublingContext : LoadContext where
  env := ∅
  files := fun _ _ => .missing
  parseFloat := fun _ => some (.finite 2)
  requestable := fun _ => true

def backupText (settings : String) : Bytes :=
  ascii ("processes:\n  - name: backup\n    command: /bin/backup\n" ++
    "    startup: scheduled\n    schedule: \"0 3 * * *\"\n" ++ settings)

/-- The backup may have a backoff factor, and a delay is refused. -/
theorem backoff_factor_accepted :
    ((unmarshal doublingContext writtenOrder (backupText "    backoff-factor: 2\n")).toOption.map
      fun cfg => cfg.processes.map fun p => (p.schedule, p.backoffFactor)) =
      some [("0 3 * * *", .finite 2)] ∧
    (unmarshal doublingContext writtenOrder
      (backupText "    backoff-delay: 2s\n")).isOk = false := by
  decide +kernel

/-- Without it the contract holds, scheduled or disabled. -/
theorem backup_contract : ∃ root cfg,
    parse (backupText "") = .ok root ∧
      unmarshal doublingContext writtenOrder (backupText "") = .ok cfg ∧
      (∃ p ∈ cfg.processes, p.schedule ≠ "") ∧
      ∀ p ∈ cfg.processes, p.schedule ≠ "" → ScheduledContract cfg p := by
  obtain ⟨root, entries, checks, cfg, hroot, -, -, hload, htest⟩ :=
    exists_loaded doublingContext writtenOrder (backupText "")
      (fun _ cfg => cfg.processes.any (·.schedule ≠ "")) (by decide +kernel)
  refine ⟨root, cfg, hroot, hload, by simpa using htest, ?_⟩
  refine ((scheduled_contract_enforced_iff hroot hload).mpr ?_).1
  have hunset : ((parse (backupText "")).toOption.map fun root =>
      (keptNodes doublingContext root).all fun n => n.textAt "backoff-factor" = "") =
      some true := by
    decide +kernel
  obtain ⟨_, hsame, hall⟩ := Option.map_eq_some_iff.mp hunset
  cases hroot.symm.trans (Except.toOption_eq_some.mp hsame)
  intro n hn _
  simpa using List.all_eq_true.mp hall n hn

end Gopherd
