import Gopherd.Config.Conditions
import Gopherd.Lib.Lockstep

/-!
Loading a text twice.
-/

namespace Gopherd

open Go Yaml

def codeOf (text : String) : Option Int :=
  (parseExitCode text).toOption

def canonicalName (text : String) : Option String :=
  (parseSignal text).map signalName

def Means {K : Type} (read : String → Option K) (entry : String × String) (pair : K × K) : Prop :=
  read entry.1 = some pair.1 ∧ read entry.2 = some pair.2

/-- Entries whose keys are spellings of one thing have values that are. -/
def SpellingsAgree {K : Type} (read : String → Option K) (raw : List (String × String)) : Prop :=
  ∀ a ∈ raw, ∀ b ∈ raw, read a.1 = read b.1 → read a.2 = read b.2

theorem Means.rightUnique {K : Type} {read : String → Option K} :
    Relator.RightUnique (Means read) := by
  rintro entry ⟨k, v⟩ ⟨k', v'⟩ ⟨hk, hv⟩ ⟨hk', hv'⟩
  rw [Prod.mk.injEq]
  exact ⟨Option.some.inj (hk.symm.trans hk'), Option.some.inj (hv.symm.trans hv')⟩

section Table

variable {K : Type} [DecidableEq K] {read : String → Option K}
variable {raw raw' : List (String × String)} {m m' : GoMap K K}

/-- The table that is read from the entries, in their order. -/
def IsTable (read : String → Option K) (raw : List (String × String)) (m : GoMap K K) : Prop :=
  ∃ pairs, List.Forall₂ (Means read) raw pairs ∧ GoMap.ofList pairs = m

/-- Any order of the entries gives a table, with the same keys. -/
theorem IsTable.exists_perm (h : IsTable read raw m) (hperm : raw'.Perm raw) :
    ∃ m', IsTable read raw' m' ∧ ∀ key, (m'.lookup key).isSome = (m.lookup key).isSome := by
  obtain ⟨pairs, hpairs, rfl⟩ := h
  obtain ⟨pairs', hpairs', hsame⟩ := List.perm_comp_forall₂ hperm hpairs
  refine ⟨_, ⟨pairs', hpairs', rfl⟩, ?_⟩
  intro key
  rw [Bool.eq_iff_iff, GoMap.lookup_ofList_isSome, GoMap.lookup_ofList_isSome]
  simp only [hsame.mem_iff]

theorem SpellingsAgree.lookup_eq (h : SpellingsAgree read base) (hm : IsTable read raw m)
    (hm' : IsTable read raw' m') (hraw : raw.Perm base) (hraw' : raw'.Perm base) (key : K) :
    m.lookup key = m'.lookup key := by
  obtain ⟨pairs, hpairs, rfl⟩ := hm
  obtain ⟨pairs', hpairs', rfl⟩ := hm'
  have hagree : GoMap.KeysAgree pairs' := by
    intro p hp q hq hkey
    obtain ⟨a, ha, hkeyA, hvalueA⟩ := Lockstep.exists_left hpairs' hp
    obtain ⟨b, hb, hkeyB, hvalueB⟩ := Lockstep.exists_left hpairs' hq
    have hsame := h a (hraw'.mem_iff.mp ha) b (hraw'.mem_iff.mp hb) (by rw [hkeyA, hkeyB, hkey])
    rw [hvalueA, hvalueB] at hsame
    exact Option.some.inj hsame
  have hperm := List.rel_perm_imp Means.rightUnique hpairs hpairs' (hraw.trans hraw'.symm)
  exact hagree.lookup_perm hperm key

theorem IsTable.unique (hm : IsTable read raw m) (hm' : IsTable read raw m') : m = m' := by
  obtain ⟨pairs, hpairs, rfl⟩ := hm
  obtain ⟨pairs', hpairs', rfl⟩ := hm'
  rw [List.right_unique_forall₂' Means.rightUnique hpairs hpairs']

/-- An entry that is read last has its value in the table. -/
theorem IsTable.exists_last (h : IsTable read raw m) (hentry : entry ∈ raw) :
    ∃ raw' m' pair, raw'.Perm raw ∧ IsTable read raw' m' ∧
      Means read entry pair ∧ m'.lookup pair.1 = some pair.2 := by
  obtain ⟨rest, hperm⟩ := Perm.exists_concat hentry
  obtain ⟨_, ⟨pairs, hpairs, rfl⟩, -⟩ := h.exists_perm hperm
  obtain ⟨front, last, hfront, hlast, rfl⟩ := Lockstep.concat_left hpairs
  exact ⟨_, _, last, hperm, ⟨_, hpairs, rfl⟩, hlast, GoMap.lookup_ofList_concat front last⟩

/-- If the order of the entries does not matter, the spellings agree. -/
theorem IsTable.spellingsAgree (h : IsTable read raw m)
    (hsame : ∀ raw' m', raw'.Perm raw → IsTable read raw' m' →
      ∀ key, m'.lookup key = m.lookup key) : SpellingsAgree read raw := by
  intro a ha b hb hkey
  obtain ⟨_, _, pairA, hpermA, htableA, hmeansA, hlookupA⟩ := h.exists_last ha
  obtain ⟨_, _, pairB, hpermB, htableB, hmeansB, hlookupB⟩ := h.exists_last hb
  rw [hsame _ _ hpermA htableA] at hlookupA
  rw [hsame _ _ hpermB htableB] at hlookupB
  have hkeys : pairA.1 = pairB.1 := by
    rw [hmeansA.1, hmeansB.1] at hkey
    exact Option.some.inj hkey
  rw [hkeys, hlookupB] at hlookupA
  rw [hmeansA.2, hmeansB.2, hlookupA]

end Table

variable {raw : List (String × String)} {order : List (String × String) → List (String × String)}
  {n root : Node Bytes} {ctx : LoadContext} {entry : Entry}

/-- A loop over the entries that fails or puts the meaning of each one in. -/
theorem foldlM_eq_table {K ε : Type} [DecidableEq K] {read : String → Option K}
    {step : GoMap K K → String × String → Except ε (GoMap K K)}
    (hstep : ∀ m entry m', step m entry = .ok m' ↔
      ∃ pair, Means read entry pair ∧ m.insert pair.1 pair.2 = m')
    {m : GoMap K K} :
    raw.foldlM step ∅ = .ok m ↔ IsTable read raw m := by
  have hloop : ∀ (raw : List (String × String)) (start : GoMap K K),
      raw.foldlM step start = .ok m ↔ ∃ pairs, List.Forall₂ (Means read) raw pairs ∧
        pairs.foldl (fun m pair => m.insert pair.1 pair.2) start = m := by
    intro raw
    induction raw with
    | nil => simp [Except.pure_eq_ok]
    | cons entry raw ih =>
      intro start
      rw [List.foldlM_cons, Except.bind_eq_ok]
      constructor
      · rintro ⟨next, hnext, hrest⟩
        obtain ⟨pair, hmeans, rfl⟩ := (hstep _ _ _).mp hnext
        obtain ⟨pairs, hpairs, hm⟩ := (ih _).mp hrest
        exact ⟨pair :: pairs, .cons hmeans hpairs, hm⟩
      · rintro ⟨pairs, hpairs, hm⟩
        cases hpairs with
        | cons hmeans hpairs =>
          exact ⟨_, (hstep _ _ _).mpr ⟨_, hmeans, rfl⟩, (ih _).mpr ⟨_, hpairs, hm⟩⟩
  exact hloop raw ∅

theorem parseExitCodeMap_eq_ok {m : GoMap Int Int} :
    parseExitCodeMap raw = .ok m ↔ IsTable codeOf raw m := by
  apply foldlM_eq_table
  intro m entry m'
  unfold parseExitCodeEntry Means codeOf
  cases parseExitCode entry.1 with
  | error error => simp [Except.toOption]
  | ok key =>
    cases parseExitCode entry.2 with
    | error error => simp [Except.toOption]
    | ok value => simp [Except.toOption]

theorem canonicalEntries_eq_ok {m : GoMap String String} :
    raw.foldlM canonicalEntry ∅ = .ok m ↔ IsTable canonicalName raw m := by
  apply foldlM_eq_table
  intro m entry m'
  unfold canonicalEntry Means canonicalName
  cases parseSignal entry.1 with
  | none => simp
  | some source =>
    cases parseSignal entry.2 with
    | none => simp
    | some target => simp

def exitCodeEntries (n : Node Bytes) : List (String × String) :=
  (n.textMapAt "exit-code-map").entries

def signalEntries (n : Node Bytes) : List (String × String) :=
  (n.textMapAt "signal-rewrite").entries

def TablesAgree (n : Node Bytes) : Prop :=
  SpellingsAgree codeOf (exitCodeEntries n) ∧ SpellingsAgree canonicalName (signalEntries n)

theorem forM_order {ε : Type} (hperm : ∀ entries, (order entries).Perm entries)
    {check : String × String → Except ε Unit} (entries : List (String × String)) :
    (order entries).forM check = .ok () ↔ ∀ entry ∈ entries, check entry = .ok () := by
  rw [Except.forM_eq_ok]
  simp only [(hperm entries).mem_iff]

structure SettingsOk (ctx : LoadContext) (n : Node Bytes) (p : Process) (factor : Float64) :
    Prop where
  conditionFiles : checkConditionFiles id p = .ok ()
  conditionEnv : checkConditionEnv id n = .ok ()
  mapping : requireMapping n "exit-code-map" = .ok ()
  settings : checkSettings p = .ok ()
  factor : readBackoffFactor ctx n = .ok factor

theorem checkConditionFiles_order (hperm : ∀ entries, (order entries).Perm entries) (p : Process) :
    checkConditionFiles order p = .ok () ↔ checkConditionFiles id p = .ok () := by
  simp only [checkConditionFiles, Except.bind_eq_ok, forM_order hperm,
    forM_order (fun entries => List.Perm.refl (id entries))]

theorem checkConditionEnv_order (hperm : ∀ entries, (order entries).Perm entries) (n : Node Bytes) :
    checkConditionEnv order n = .ok () ↔ checkConditionEnv id n = .ok () := by
  simp only [checkConditionEnv, Except.bind_eq_ok, forM_order hperm,
    forM_order (fun entries => List.Perm.refl (id entries))]

theorem readExitCodeMap_eq_ok :
    readExitCodeMap order n = .ok codes ↔ requireMapping n "exit-code-map" = .ok () ∧
      IsTable codeOf (order (exitCodeEntries n)) codes := by
  rw [← parseExitCodeMap_eq_ok, readExitCodeMap, Except.bind_eq_ok, exitCodeEntries]
  cases hparse : parseExitCodeMap (order (n.textMapAt "exit-code-map").entries) with
  | error error => simp
  | ok m => simp [Except.pure_eq_ok, Unique.exists_iff]

/-- The order of the maps has a say in the two tables only. -/
theorem readSettings_eq_ok {ctx : LoadContext}
    {order : MapLoop → List (String × String) → List (String × String)}
    (hperm : ∀ loop entries, (order loop entries).Perm entries) {n : Node Bytes}
    {p q : Process} :
    readSettings ctx order n p = .ok q ↔
      ∃ codes signals factor, SettingsOk ctx n p factor ∧
        IsTable codeOf (order .exitCodeMap (exitCodeEntries n)) codes ∧
        IsTable canonicalName (order .signalRewrite (signalEntries n)) signals ∧
        q = { p with exitCodeMap := codes, signalRewrite := signals, backoffFactor := factor } := by
  unfold readSettings
  constructor
  · intro h
    obtain ⟨_, hfiles, h⟩ := Except.bind_eq_ok.mp h
    obtain ⟨_, henv, h⟩ := Except.bind_eq_ok.mp h
    obtain ⟨codes, hcodes, h⟩ := Except.bind_eq_ok.mp h
    obtain ⟨signals, hsignals, h⟩ := Except.bind_eq_ok.mp h
    obtain ⟨_, hsettings, h⟩ := Except.bind_eq_ok.mp h
    obtain ⟨factor, hfactor, h⟩ := Except.bind_eq_ok.mp h
    obtain ⟨hmapping, htable⟩ := readExitCodeMap_eq_ok.mp hcodes
    exact ⟨codes, signals, factor,
      ⟨(checkConditionFiles_order (hperm _) p).mp hfiles, (checkConditionEnv_order (hperm _) n).mp
        henv, hmapping, hsettings, hfactor⟩,
      htable, canonicalEntries_eq_ok.mp hsignals, (Except.pure_eq_ok.mp h).symm⟩
  · rintro ⟨codes, signals, factor, hok, hcodes, hsignals, rfl⟩
    refine Except.bind_eq_ok.mpr ⟨_, (checkConditionFiles_order (hperm _) p).mpr
      hok.conditionFiles, ?_⟩
    refine Except.bind_eq_ok.mpr ⟨_, (checkConditionEnv_order (hperm _) n).mpr
      hok.conditionEnv, ?_⟩
    refine Except.bind_eq_ok.mpr ⟨codes, readExitCodeMap_eq_ok.mpr ⟨hok.mapping, hcodes⟩, ?_⟩
    refine Except.bind_eq_ok.mpr ⟨signals, canonicalEntries_eq_ok.mpr hsignals, ?_⟩
    refine Except.bind_eq_ok.mpr ⟨_, hok.settings, ?_⟩
    exact Except.bind_eq_ok.mpr ⟨factor, hok.factor, rfl⟩

structure ReadsAs (ctx : LoadContext) (root n : Node Bytes) (entry : Entry) : Prop where
  tables : ∃ startup factor, parseStartup ctx n = .ok startup ∧
    SettingsOk ctx n (readProcess n startup) factor ∧
    entry.process = inheritDefaults root
      { readProcess n startup with
        exitCodeMap := entry.process.exitCodeMap
        signalRewrite := entry.process.signalRewrite
        backoffFactor := factor }
  met : entry.met = conditionEnvMet ctx n

theorem readEntry_eq_ok {order : MapOrder} :
    readEntry ctx order root item = .ok entry ↔
      ReadsAs ctx root item.1 entry ∧
        IsTable codeOf (order.order item.2 .exitCodeMap (exitCodeEntries item.1))
          entry.process.exitCodeMap ∧
        IsTable canonicalName (order.order item.2 .signalRewrite (signalEntries item.1))
          entry.process.signalRewrite := by
  have hsettings := @readSettings_eq_ok ctx (order.order item.2) (order.perm item.2) item.1
  have hprocess : ∀ p, parseProcess ctx (order.order item.2) item.1 = .ok p ↔
      ∃ startup, parseStartup ctx item.1 = .ok startup ∧
        readSettings ctx (order.order item.2) item.1 (readProcess item.1 startup) = .ok p := by
    intro p
    rw [parseProcess, Except.bind_eq_ok]
    refine exists_congr fun startup => and_congr_right fun _ => ?_
    cases hread : readSettings ctx (order.order item.2) item.1 (readProcess item.1 startup) with
    | error fault => simp [hread]
    | ok q => simp [hread, Except.pure_eq_ok]
  rw [readEntry, Except.bind_eq_ok]
  constructor
  · rintro ⟨p, hp, hentry⟩
    obtain rfl := Except.pure_eq_ok.mp hentry
    obtain ⟨startup, hstartup, hread⟩ := (hprocess p).mp hp
    obtain ⟨codes, signals, factor, hok, hcodes, hsignals, rfl⟩ := hsettings.mp hread
    exact ⟨⟨⟨startup, factor, hstartup, hok, rfl⟩, rfl⟩, hcodes, hsignals⟩
  · rintro ⟨⟨⟨startup, factor, hstartup, hok, hentry⟩, hmet⟩, hcodes, hsignals⟩
    refine ⟨_, (hprocess _).mpr ⟨startup, hstartup, hsettings.mpr
      ⟨_, _, factor, hok, hcodes, hsignals, rfl⟩⟩, ?_⟩
    rw [Except.pure_eq_ok, ← hmet, ← hentry]

def nodeName (n : Node Bytes) : String :=
  (readProcess n .unset).procName

def droppedNames (ctx : LoadContext) (root : Node Bytes) : List String :=
  ((root.itemsAt "processes").filter (!conditionEnvMet ctx ·)).map nodeName

def keptNodes (ctx : LoadContext) (root : Node Bytes) : List (Node Bytes) :=
  (root.itemsAt "processes").filter (nodeName · ∉ droppedNames ctx root)

structure SameLookups (p q : Process) : Prop where
  codes : ∀ code, p.exitCodeMap.lookup code = q.exitCodeMap.lookup code
  signals : ∀ name, p.signalRewrite.lookup name = q.signalRewrite.lookup name

/-- Two loads that both fail, or give every process the same tables. -/
def SameTables : Except UnmarshalError Config → Except UnmarshalError Config → Prop
  | .ok cfg, .ok cfg' => List.Forall₂ SameLookups cfg.processes cfg'.processes
  | .error _, .error _ => True
  | _, _ => False

theorem ReadsAs.procName (h : ReadsAs ctx root n entry) : entry.process.procName = nodeName n := by
  obtain ⟨startup, factor, -, -, hentry⟩ := h.tables
  rw [hentry]
  rfl

/-- Two readings of a process differ in the tables. -/
theorem ReadsAs.process_eq (h : ReadsAs ctx root n entry) (h' : ReadsAs ctx root n entry') :
    entry'.process = { entry.process with
      exitCodeMap := entry'.process.exitCodeMap
      signalRewrite := entry'.process.signalRewrite } := by
  obtain ⟨startup, factor, hstartup, hok, hentry⟩ := h.tables
  obtain ⟨startup', factor', hstartup', hok', hentry'⟩ := h'.tables
  cases hstartup.symm.trans hstartup'
  cases hok.factor.symm.trans hok'.factor
  generalize entry.process = p at hentry
  generalize entry'.process = p' at hentry'
  rw [hentry, hentry']
  rfl

theorem excludedNames_eq (entries : List Entry) : excludedNames entries =
    ((entries.map fun entry => (entry.met, entry.process.procName)).filter (!·.1)).map
      Prod.snd := by
  rw [List.filter_map, List.map_map]
  rfl

theorem scheduledSet_eq (entries : List Entry) : scheduledSet (entries.map Entry.process) =
    ((entries.map fun e => (e.process.carriesSchedule, e.process.procName)).filter
      Prod.fst).map Prod.snd := by
  rw [scheduledSet, List.filter_map, List.filter_map, List.map_map, List.map_map]
  rfl

theorem readEntries_excluded {order : MapOrder} (hread : readEntries ctx order root = .ok entries) :
    excludedNames entries = droppedNames ctx root := by
  have hmap := Lockstep.map_mapM hread (u := fun entry => (entry.met, entry.process.procName))
    (v := fun item => (conditionEnvMet ctx item.1, nodeName item.1)) (by
      intro item entry hentry
      obtain ⟨hreads, -⟩ := readEntry_eq_ok.mp hentry
      rw [hreads.met, hreads.procName])
  have hitems : (root.itemsAt "processes").zipIdx.map
      (fun item => (conditionEnvMet ctx item.1, nodeName item.1)) =
      (root.itemsAt "processes").map (fun n => (conditionEnvMet ctx n, nodeName n)) := by
    rw [← List.zipIdx_map_fst 0 (root.itemsAt "processes"), List.map_map, List.zipIdx_map_fst]
    rfl
  rw [excludedNames_eq, hmap, hitems, List.filter_map, List.map_map]
  rfl

/-- The signal table has a say in the validation through its keys only. -/
theorem validateSignalRewrite_keys
    (hkeys : ∀ key, (p.signalRewrite.lookup key).isSome = (q.signalRewrite.lookup key).isSome) :
    validateSignalRewrite p reserved = .ok () ↔ validateSignalRewrite q reserved = .ok () := by
  have hfree : ∀ p : Process, validateSignalRewrite p reserved = .ok () ↔
      ∀ key, (p.signalRewrite.lookup key).isSome = true →
        ¬ (key = "SIGHUP" || key ∈ reserved.map signalName) = true := by
    intro p
    unfold validateSignalRewrite
    cases hfind : p.signalRewrite.keys.find?
        (fun key => key = "SIGHUP" || key ∈ reserved.map signalName) with
    | some key =>
      simp only [reduceCtorEq, false_iff, not_forall, not_not]
      have hmem := List.mem_of_find?_eq_some hfind
      have hreserved := List.find?_some hfind
      exact ⟨key, GoMap.mem_keys.mp hmem, hreserved⟩
    | none =>
      simp only [true_iff]
      intro key hkey
      exact List.find?_eq_none.mp hfind key (GoMap.mem_keys.mpr hkey)
  rw [hfree, hfree]
  simp only [hkeys]

theorem validateProcess_tables
    (hkeys : ∀ key, (signals.lookup key).isSome = (p.signalRewrite.lookup key).isSome)
    (h : validateProcess reserved scheduled p = .ok ()) :
    validateProcess reserved scheduled
      { p with exitCodeMap := codes, signalRewrite := signals } = .ok () := by
  unfold validateProcess at h ⊢
  obtain ⟨_, hcommand, h⟩ := Except.bind_eq_ok.mp h
  obtain ⟨_, hname, h⟩ := Except.bind_eq_ok.mp h
  obtain ⟨_, hsuccess, h⟩ := Except.bind_eq_ok.mp h
  obtain ⟨_, hfailure, h⟩ := Except.bind_eq_ok.mp h
  obtain ⟨_, hstop, h⟩ := Except.bind_eq_ok.mp h
  refine Except.bind_eq_ok.mpr ⟨_, hcommand, Except.bind_eq_ok.mpr ⟨_, hname, ?_⟩⟩
  refine Except.bind_eq_ok.mpr ⟨_, hsuccess, Except.bind_eq_ok.mpr ⟨_, hfailure, ?_⟩⟩
  refine Except.bind_eq_ok.mpr ⟨_, hstop, ?_⟩
  split at h
  · cases h
  · rename_i hactions
    obtain ⟨_, hrewrite, h⟩ := Except.bind_eq_ok.mp h
    rw [hactions]
    refine Except.bind_eq_ok.mpr ⟨(), ?_, h⟩
    exact (validateSignalRewrite_keys (q := p) hkeys).mpr hrewrite

section Orders

variable {ctx : LoadContext} {order order' : MapOrder} {root : Node Bytes}

variable {item : Node Bytes × Nat} {entry : Entry} {data : Bytes}

/-- What one order reads, another one reads as well, up to the tables. -/
theorem readEntry_order (order' : MapOrder) (h : readEntry ctx order root item = .ok entry) :
    ∃ entry', readEntry ctx order' root item = .ok entry' := by
  obtain ⟨hreads, hcodes, hsignals⟩ := readEntry_eq_ok.mp h
  obtain ⟨startup, factor, hstartup, hok, -⟩ := hreads.tables
  obtain ⟨codes, hcodes', -⟩ := hcodes.exists_perm
    ((order'.perm item.2 .exitCodeMap _).trans (order.perm item.2 .exitCodeMap _).symm)
  obtain ⟨signals, hsignals', -⟩ := hsignals.exists_perm
    ((order'.perm item.2 .signalRewrite _).trans (order.perm item.2 .signalRewrite _).symm)
  refine ⟨⟨inheritDefaults root { readProcess item.1 startup with
    exitCodeMap := codes, signalRewrite := signals, backoffFactor := factor },
    conditionEnvMet ctx item.1⟩, readEntry_eq_ok.mpr ⟨⟨?_, rfl⟩, hcodes', hsignals'⟩⟩
  exact ⟨startup, factor, hstartup, hok, rfl⟩

/-- Two orders read the same keys. -/
theorem readEntry_keys (h : readEntry ctx order root item = .ok entry)
    (h' : readEntry ctx order' root item = .ok entry') (key : String) :
    (entry'.process.signalRewrite.lookup key).isSome =
      (entry.process.signalRewrite.lookup key).isSome := by
  obtain ⟨-, -, hsignals⟩ := readEntry_eq_ok.mp h
  obtain ⟨-, -, hsignals'⟩ := readEntry_eq_ok.mp h'
  obtain ⟨signals, htable, hkeys⟩ := hsignals.exists_perm
    ((order'.perm item.2 .signalRewrite _).trans (order.perm item.2 .signalRewrite _).symm)
  rw [hsignals'.unique htable, hkeys]

/-- Two orders read processes that validate alike. -/
theorem readEntry_valid {entry' : Entry} (h : readEntry ctx order root item = .ok entry)
    (h' : readEntry ctx order' root item = .ok entry')
    (hvalid : validateProcess reserved scheduled entry.process = .ok ()) :
    validateProcess reserved scheduled entry'.process = .ok () := by
  rw [(readEntry_eq_ok.mp h).1.process_eq (readEntry_eq_ok.mp h').1]
  exact validateProcess_tables (readEntry_keys h h') hvalid

theorem readEntries_scheduled (h : readEntries ctx order root = .ok entries)
    (h' : readEntries ctx order' root = .ok entries') :
    scheduledSet (entries'.map Entry.process) = scheduledSet (entries.map Entry.process) := by
  have hsame : List.Forall₂ (fun e e' : Entry =>
      (e.process.carriesSchedule, e.process.procName) =
        (e'.process.carriesSchedule, e'.process.procName)) entries entries' := by
    refine (Lockstep.mapM_iff h h').mpr ?_
    intro item _ e e' he he'
    rw [(readEntry_eq_ok.mp he).1.process_eq (readEntry_eq_ok.mp he').1]
    rfl
  have hmap : entries.map (fun e => (e.process.carriesSchedule, e.process.procName)) =
      entries'.map (fun e => (e.process.carriesSchedule, e.process.procName)) := by
    rw [← List.forall₂_eq_eq_eq, List.forall₂_map_left_iff, List.forall₂_map_right_iff]
    exact hsame
  rw [scheduledSet_eq, scheduledSet_eq, hmap]

structure DocumentOk (ctx : LoadContext) (root : Node Bytes) : Prop where
  stopSignals : (root.textsAt "init-stop-signal").forM checkStopSignal = .ok ()
  shutdownOrder : ∃ mode, parseShutdownOrder (root.textAt "shutdown-order") = .ok mode
  socketMode : checkSocketMode root = .ok ()
  checks : ∃ checks, parseChecks ctx root = .ok checks

theorem exists_unmarshal_iff (hroot : parse data = .ok root) :
    (∃ cfg, unmarshal ctx order data = .ok cfg) ↔
      DocumentOk ctx root ∧ ∃ entries, readEntries ctx order root = .ok entries ∧ entries ≠ [] ∧
        ∀ entry ∈ entries, validateProcess (shutdownSignals (root.textsAt "init-stop-signal"))
          (scheduledSet (entries.map Entry.process)) entry.process = .ok () := by
  constructor
  · rintro ⟨cfg, hload⟩
    obtain ⟨_, hparse, hload⟩ := Except.bind_eq_ok.mp hload
    rw [Except.mapError_eq_ok, hroot] at hparse
    cases hparse
    obtain ⟨parsed, hsettings, hload⟩ := Except.bind_eq_ok.mp hload
    obtain ⟨hsignals, hsocket, mode, entries, checks, hmode, hread, hchecks, rfl⟩ :=
      parseSettings_eq_ok.mp hsettings
    rw [Except.mapError_eq_ok] at hload
    obtain ⟨_, hsome, hload⟩ := Except.bind_eq_ok.mp hload
    obtain ⟨_, hvalid, -⟩ := Except.bind_eq_ok.mp hload
    refine ⟨⟨hsignals, ⟨mode, hmode⟩, hsocket, ⟨checks, hchecks⟩⟩, entries, hread, ?_, ?_⟩
    · simpa using require_eq_ok.mp hsome
    · intro entry hentry
      exact Except.forM_eq_ok.mp hvalid _ (List.mem_map_of_mem hentry)
  · rintro ⟨⟨hsignals, ⟨mode, hmode⟩, hsocket, ⟨checks, hchecks⟩⟩, entries, hread, hsome, hvalid⟩
    have hsettings := parseSettings_eq_ok.mpr
      ⟨hsignals, hsocket, mode, entries, checks, hmode, hread, hchecks, rfl⟩
    have hall : ∀ p ∈ entries.map Entry.process, validateProcess
        (shutdownSignals (root.textsAt "init-stop-signal"))
        (scheduledSet (entries.map Entry.process)) p = .ok () := by
      intro p hp
      obtain ⟨entry, hentry, rfl⟩ := List.mem_map.mp hp
      exact hvalid entry hentry
    generalize hparsed : Parsed.mk _ _ _ _ _ _ _ = parsed at hsettings
    obtain ⟨cfg, hload⟩ : ∃ cfg, parsed.load = .ok cfg := by
      rw [← hparsed]
      exact exists_load (by simpa using hsome) hall
    refine ⟨cfg, Except.bind_eq_ok.mpr ⟨root, Except.mapError_eq_ok.mpr hroot, ?_⟩⟩
    exact Except.bind_eq_ok.mpr ⟨parsed, hsettings, Except.mapError_eq_ok.mpr hload⟩

/-- Whether a text is accepted does not depend on the order. -/
theorem unmarshal_order (order' : MapOrder) (h : ∃ cfg, unmarshal ctx order data = .ok cfg) :
    ∃ cfg, unmarshal ctx order' data = .ok cfg := by
  obtain ⟨root, hroot⟩ : ∃ root, parse data = .ok root := by
    obtain ⟨cfg, hload⟩ := h
    obtain ⟨root, hparse, -⟩ := Except.bind_eq_ok.mp hload
    exact ⟨root, Except.mapError_eq_ok.mp hparse⟩
  obtain ⟨hdocument, entries, hread, hsome, hvalid⟩ := (exists_unmarshal_iff hroot).mp h
  obtain ⟨entries', hread'⟩ := Lockstep.mapM_ok hread fun item _ entry hentry =>
    readEntry_order order' hentry
  refine (exists_unmarshal_iff hroot).mpr ⟨hdocument, entries', hread', ?_, ?_⟩
  · have hlength : List.Forall₂ (fun _ _ => True) entries entries' :=
      (Lockstep.mapM_iff hread hread').mpr (by simp)
    intro hnil
    rw [hnil, List.forall₂_nil_right_iff] at hlength
    exact hsome hlength
  · intro entry' hentry'
    rw [readEntries_scheduled hread hread']
    have hpairs : List.Forall₂ (fun e e' : Entry => ∀ reserved scheduled,
        validateProcess reserved scheduled e.process = .ok () →
          validateProcess reserved scheduled e'.process = .ok ()) entries entries' :=
      (Lockstep.mapM_iff hread hread').mpr fun item _ e e' he he' _ _ => readEntry_valid he he'
    obtain ⟨entry, hentry, hsame⟩ := Lockstep.exists_left hpairs hentry'
    exact hsame _ _ (hvalid entry hentry)

/-- Two loads of an accepted text, process by process. -/
theorem sameTables_iff (hroot : parse data = .ok root)
    (hload : unmarshal ctx order data = .ok cfg) (hload' : unmarshal ctx order' data = .ok cfg') :
    List.Forall₂ SameLookups cfg.processes cfg'.processes ↔
      ∀ item ∈ (root.itemsAt "processes").zipIdx, nodeName item.1 ∉ droppedNames ctx root →
        ∀ entry entry', readEntry ctx order root item = .ok entry →
          readEntry ctx order' root item = .ok entry' →
          SameLookups entry.process entry'.process := by
  obtain ⟨hdocument, entries, hread, -⟩ := (exists_unmarshal_iff hroot).mp ⟨cfg, hload⟩
  obtain ⟨-, entries', hread', -⟩ := (exists_unmarshal_iff hroot).mp ⟨cfg', hload'⟩
  obtain ⟨checks, hchecks⟩ := hdocument.checks
  have hkept : List.Forall₂ (fun e e' : Entry =>
      decide (e.process.procName ∉ droppedNames ctx root) =
        decide (e'.process.procName ∉ droppedNames ctx root)) entries entries' := by
    refine (Lockstep.mapM_iff hread hread').mpr ?_
    intro item _ e e' he he'
    rw [(readEntry_eq_ok.mp he).1.procName, (readEntry_eq_ok.mp he').1.procName]
  rw [(unmarshal_eq_ok hroot hread hchecks hload).1,
    (unmarshal_eq_ok hroot hread' hchecks hload').1, readEntries_excluded hread,
    readEntries_excluded hread', excludeProcesses_eq, excludeProcesses_eq, List.filter_map,
    List.filter_map, List.forall₂_map_left_iff, List.forall₂_map_right_iff,
    List.forall₂_map_left_iff, List.forall₂_map_right_iff]
  refine (Lockstep.filter_iff hkept).trans ((Lockstep.mapM_iff hread hread').trans ?_)
  refine forall₂_congr fun item _ => ?_
  constructor
  · intro h hname e e' he he'
    have hsame := h e e' he he' (by simpa [(readEntry_eq_ok.mp he).1.procName] using hname)
    exact ⟨hsame.codes, hsame.signals⟩
  · intro h e e' he he' hname
    have hsame := h (by simpa [(readEntry_eq_ok.mp he).1.procName] using hname) e e' he he'
    exact ⟨hsame.codes, hsame.signals⟩

end Orders

def reorder (process : Nat) (loop : MapLoop) (raw raw' : List (String × String))
    (h : raw'.Perm raw) : MapOrder where
  order := fun process' loop' entries =>
    if process' = process ∧ loop' = loop ∧ entries = raw then raw' else entries
  perm := by
    intro process' loop' entries
    split
    · rename_i hsame
      rw [hsame.2.2]
      exact h
    · exact List.Perm.refl entries

theorem reorder_order (process : Nat) (loop : MapLoop) (raw raw' : List (String × String))
    (h : raw'.Perm raw) : (reorder process loop raw raw' h).order process loop raw = raw' :=
  if_pos ⟨rfl, rfl, rfl⟩

/-- All loads of a text give the same tables exactly when it is not accepted or
the spellings agree in each process that a load keeps. -/
theorem loads_sameTables_iff (ctx : LoadContext) (data : Bytes) :
    (∀ order order', SameTables (unmarshal ctx order data) (unmarshal ctx order' data)) ↔
      ∀ root, parse data = .ok root → (∃ order cfg, unmarshal ctx order data = .ok cfg) →
        ∀ n ∈ keptNodes ctx root, TablesAgree n := by
  constructor
  · intro hsame root hroot hloaded n hn
    obtain ⟨hn, hkept⟩ := List.mem_filter.mp hn
    obtain ⟨i, hi⟩ := List.mem_iff_getElem?.mp hn
    have hitem : (n, i) ∈ (root.itemsAt "processes").zipIdx :=
      List.mk_mem_zipIdx_iff_getElem?.mpr hi
    obtain ⟨order, hloaded⟩ := hloaded
    -- Any two orders give this process the same tables.
    have hentries : ∀ order order' : MapOrder, ∃ entry entry',
        readEntry ctx order root (n, i) = .ok entry ∧
          readEntry ctx order' root (n, i) = .ok entry' ∧
          SameLookups entry.process entry'.process := by
      intro order₁ order₂
      obtain ⟨cfg₁, hload₁⟩ := unmarshal_order order₁ hloaded
      obtain ⟨cfg₂, hload₂⟩ := unmarshal_order order₂ hloaded
      have htables := hsame order₁ order₂
      rw [hload₁, hload₂] at htables
      have hall := (sameTables_iff hroot hload₁ hload₂).mp htables (n, i) hitem
        (by simpa using hkept)
      obtain ⟨-, entries, hread, -⟩ := (exists_unmarshal_iff hroot).mp ⟨cfg₁, hload₁⟩
      obtain ⟨entry, -, hentry⟩ := Lockstep.exists_right (Except.mapM_eq_ok.mp hread) hitem
      obtain ⟨entry', hentry'⟩ := readEntry_order order₂ hentry
      exact ⟨entry, entry', hentry, hentry', hall entry entry' hentry hentry'⟩
    constructor
    · obtain ⟨entry, -, hentry, -, -⟩ := hentries writtenOrder writtenOrder
      have hwritten : IsTable codeOf (exitCodeEntries n) entry.process.exitCodeMap :=
        (readEntry_eq_ok.mp hentry).2.1
      apply hwritten.spellingsAgree
      intro raw' codes hperm htable key
      obtain ⟨first, entry', hfirst, hentry', hlookups⟩ := hentries writtenOrder
        (reorder i .exitCodeMap (exitCodeEntries n) raw' hperm)
      cases hentry.symm.trans hfirst
      have htable' := (readEntry_eq_ok.mp hentry').2.1
      dsimp only at htable'
      rw [reorder_order] at htable'
      rw [htable.unique htable', hlookups.codes]
    · obtain ⟨entry, -, hentry, -, -⟩ := hentries writtenOrder writtenOrder
      have hwritten : IsTable canonicalName (signalEntries n) entry.process.signalRewrite :=
        (readEntry_eq_ok.mp hentry).2.2
      apply hwritten.spellingsAgree
      intro raw' signals hperm htable key
      obtain ⟨first, entry', hfirst, hentry', hlookups⟩ := hentries writtenOrder
        (reorder i .signalRewrite (signalEntries n) raw' hperm)
      cases hentry.symm.trans hfirst
      have htable' := (readEntry_eq_ok.mp hentry').2.2
      dsimp only at htable'
      rw [reorder_order] at htable'
      rw [htable.unique htable', hlookups.signals]
  · intro hagree order order'
    cases hload : unmarshal ctx order data with
    | error error =>
      cases hload' : unmarshal ctx order' data with
      | error error' => trivial
      | ok cfg' =>
        obtain ⟨cfg, hok⟩ := unmarshal_order order ⟨cfg', hload'⟩
        cases hload.symm.trans hok
    | ok cfg =>
      obtain ⟨cfg', hload'⟩ := unmarshal_order order' ⟨cfg, hload⟩
      obtain ⟨root, hparse, -⟩ := Except.bind_eq_ok.mp hload
      have hroot := Except.mapError_eq_ok.mp hparse
      rw [hload']
      refine (sameTables_iff hroot hload hload').mpr ?_
      intro item hitem hkept entry entry' hentry hentry'
      have hn : item.1 ∈ keptNodes ctx root :=
        List.mem_filter.mpr ⟨List.fst_mem_of_mem_zipIdx hitem, by simpa using hkept⟩
      obtain ⟨hcodesAgree, hsignalsAgree⟩ := hagree root hroot ⟨order, cfg, hload⟩ item.1 hn
      obtain ⟨-, hcodes, hsignals⟩ := readEntry_eq_ok.mp hentry
      obtain ⟨-, hcodes', hsignals'⟩ := readEntry_eq_ok.mp hentry'
      exact ⟨hcodesAgree.lookup_eq hcodes hcodes' (order.perm _ _ _) (order'.perm _ _ _),
        hsignalsAgree.lookup_eq hsignals hsignals' (order.perm _ _ _) (order'.perm _ _ _)⟩

def reversedOrder : MapOrder where
  order := fun _ _ entries => entries.reverse
  perm := fun _ _ entries => entries.reverse_perm

def spellingsText : Bytes :=
  ascii ("processes:\n  - name: app\n    command: /bin/app\n" ++
    "    exit-code-map:\n      143: 0\n      SIGTERM: 1\n")

/-- What the code 143 is mapped to depends on the order. -/
theorem spellings_order_matters :
    ∃ cfg cfg', unmarshal apiContext writtenOrder spellingsText = .ok cfg ∧
      unmarshal apiContext reversedOrder spellingsText = .ok cfg' ∧
      cfg.processes.map (·.exitCodeMap.lookup 143) = [some 0] ∧
      cfg'.processes.map (·.exitCodeMap.lookup 143) = [some 1] ∧
      ¬SameTables (.ok cfg) (.ok cfg') := by
  have hwritten : (unmarshal apiContext writtenOrder spellingsText).toOption.map
      (fun cfg => cfg.processes.map (·.exitCodeMap.lookup 143)) = some [some 0] := by
    decide +kernel
  have hreversed : (unmarshal apiContext reversedOrder spellingsText).toOption.map
      (fun cfg => cfg.processes.map (·.exitCodeMap.lookup 143)) = some [some 1] := by
    decide +kernel
  obtain ⟨cfg, hload, hcodes⟩ := Option.map_eq_some_iff.mp hwritten
  obtain ⟨cfg', hload', hcodes'⟩ := Option.map_eq_some_iff.mp hreversed
  refine ⟨cfg, cfg', Except.toOption_eq_some.mp hload, Except.toOption_eq_some.mp hload',
    hcodes, hcodes', ?_⟩
  intro hsame
  have hequal : cfg.processes.map (·.exitCodeMap.lookup 143) =
      cfg'.processes.map (·.exitCodeMap.lookup 143) := by
    rw [← List.forall₂_eq_eq_eq, List.forall₂_map_left_iff, List.forall₂_map_right_iff]
    exact List.Forall₂.imp (fun p q h => h.codes 143) hsame
  rw [hcodes, hcodes'] at hequal
  cases hequal

end Gopherd
