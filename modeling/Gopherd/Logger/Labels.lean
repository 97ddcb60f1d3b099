import Gopherd.Logger.Quote

/-!
The labels of a log target, which `labelWriter` puts before every line as
`key=value` pairs in the order of the keys. Values are quoted if they have a
space, a tab, a quote or an equals sign; keys are written as they are.
-/

namespace Gopherd.Logger

open Go

abbrev equalsSign : UInt8 := 61

def needsQuotes (v : Bytes) : Bool :=
  v.any fun b => b ∈ [space, tab, doubleQuote, equalsSign]

def logfmtValue (table : PrintTable) (v : Bytes) : Bytes :=
  if v = [] then [doubleQuote, doubleQuote]
  else if needsQuotes v then quote table v
  else v

def labelText (table : PrintTable) (labels : List (Bytes × Bytes)) : Bytes :=
  labels.flatMap fun label =>
    label.1 ++ equalsSign :: logfmtValue table label.2 ++ [space]

structure LabelWriter where
  prefixText : Bytes
  deriving DecidableEq

def sortedLabels (labels : GoMap Bytes Bytes) : List (Bytes × Bytes) :=
  (labels.keys.insertionSort (· ≤ ·)).map fun key => (key, (labels.lookup key).getD [])

def newLabelWriter (table : PrintTable) (labels : GoMap Bytes Bytes) : LabelWriter :=
  ⟨labelText table (sortedLabels labels)⟩

def LabelWriter.write (lw : LabelWriter) (p : Bytes) : Bytes :=
  lw.prefixText ++ p

variable {x y v w key value : Bytes} {labels labels' : List (Bytes × Bytes)}

theorem append_cons_inj (hv : c ∉ v) (hw : c ∉ w) (h : x ++ c :: v = y ++ c :: w) :
    x = y ∧ v = w := by
  rcases List.append_eq_append_iff.mp h with ⟨between, rfl, hrest⟩ | ⟨between, rfl, hrest⟩
  · cases between with
    | nil => simp_all
    | cons first between => simp_all
  · cases between with
    | nil => simp_all
    | cons first between => simp_all

theorem opened_inj (hb : Escaped b) (hb' : Escaped b')
    (h : x ++ equalsSign :: doubleQuote :: b = y ++ equalsSign :: doubleQuote :: b') :
    x = y ∧ b = b' := by
  have hkey {front : Bytes} {body body' : Bytes} (hbody : Escaped body)
      (heq : equalsSign :: doubleQuote :: body =
        front ++ equalsSign :: doubleQuote :: body') : front = [] := by
    cases front with
    | nil => rfl
    | cons first front =>
      cases front with
      | nil => exact absurd (List.cons.inj (List.cons.inj heq).2).1 (by decide)
      | cons second front =>
        have hsplit := (List.cons.inj (List.cons.inj heq).2).2
        exact absurd hsplit (hbody.not_opened (by decide))
  rcases List.append_eq_append_iff.mp h with ⟨between, rfl, hrest⟩ | ⟨between, rfl, hrest⟩
  · obtain rfl := hkey hb hrest
    simp_all
  · obtain rfl := hkey hb' hrest
    simp_all

/-- A value as it is written: bare, or between quotes. -/
theorem logfmtValue_cases (table : PrintTable) (v : Bytes) :
    (v ≠ [] ∧ needsQuotes v = false ∧ logfmtValue table v = v) ∨
      ((v ≠ [] → needsQuotes v = true) ∧ logfmtValue table v = quote table v) := by
  unfold logfmtValue
  split_ifs with hempty hquotes
  · right
    subst hempty
    exact ⟨fun hne => absurd rfl hne, rfl⟩
  · exact .inr ⟨fun _ => hquotes, rfl⟩
  · exact .inl ⟨hempty, by simpa using hquotes, rfl⟩

theorem not_mem_of_bare (h : needsQuotes v = false)
    (hb : b ∈ [space, tab, doubleQuote, equalsSign]) : b ∉ v := by
  intro hmem
  simp only [needsQuotes, List.any_eq_false, decide_eq_true_eq] at h
  exact h b hmem hb

/-- A bare value does not end with a quote. -/
theorem bare_ne_quoted (table : PrintTable) (hne : v ≠ []) (hbare : needsQuotes v = false) :
    x ++ equalsSign :: v ≠ y ++ equalsSign :: quote table w := by
  intro heq
  obtain ⟨start, last, rfl⟩ := List.eq_nil_or_concat' v |>.resolve_left hne
  have hends : (x ++ equalsSign :: start) ++ [last] =
      (y ++ equalsSign :: doubleQuote :: escapeFrom table w.length w) ++ [doubleQuote] := by
    simpa [quote] using heq
  obtain ⟨-, rfl⟩ := List.append_inj_right' hends rfl |> List.cons.inj |> And.symm
  exact not_mem_of_bare hbare (b := doubleQuote) (by decide) (by simp)

/-- The last value is read back from the text, with all that stands before it. -/
theorem last_label_inj (table : PrintTable)
    (h : x ++ equalsSign :: logfmtValue table v ++ [space] =
      y ++ equalsSign :: logfmtValue table w ++ [space]) :
    x = y ∧ v = w := by
  replace h := List.append_cancel_right h
  rcases logfmtValue_cases table v with ⟨hv, hbare, htext⟩ | ⟨-, htext⟩ <;>
    rcases logfmtValue_cases table w with ⟨hw, hbare', htext'⟩ | ⟨-, htext'⟩ <;>
    rw [htext, htext'] at h
  · exact append_cons_inj (not_mem_of_bare hbare (by decide))
      (not_mem_of_bare hbare' (by decide)) h
  · exact absurd h (bare_ne_quoted table hv hbare)
  · exact absurd h.symm (bare_ne_quoted table hw hbare')
  · have hclosed : (x ++ equalsSign :: doubleQuote :: escapeFrom table v.length v) ++
        [doubleQuote] =
        (y ++ equalsSign :: doubleQuote :: escapeFrom table w.length w) ++ [doubleQuote] := by
      simpa [quote] using h
    obtain ⟨hfront, hbody⟩ := opened_inj (escapeFrom_escaped table _ v)
      (escapeFrom_escaped table _ w) (List.append_cancel_right hclosed)
    refine ⟨hfront, quote_injective table ?_⟩
    rw [quote, quote, hbody]

@[simp]
theorem labelText_concat (table : PrintTable) (labels : List (Bytes × Bytes))
    (key value : Bytes) :
    labelText table (labels ++ [(key, value)]) =
      (labelText table labels ++ key) ++ equalsSign :: logfmtValue table value ++ [space] := by
  simp [labelText]

theorem labelText_eq_nil : labelText table labels = [] ↔ labels = [] := by
  cases labels with
  | nil => simp [labelText]
  | cons label rest => simp [labelText]

/-- Two texts of labels that are equal end with the same value. -/
theorem labelText_concat_inj (table : PrintTable)
    (h : labelText table (labels ++ [(key, value)]) =
      labelText table (labels' ++ [(key', value')])) :
    labelText table labels ++ key = labelText table labels' ++ key' ∧ value = value' := by
  rw [labelText_concat, labelText_concat] at h
  exact last_label_inj table h

def SpacelessKeys (labels : List (Bytes × Bytes)) : Prop :=
  ∀ label ∈ labels, space ∉ label.1

theorem labelText_ends (table : PrintTable) (hne : labels ≠ []) :
    ∃ text, labelText table labels = text ++ [space] := by
  obtain ⟨front, last, rfl⟩ := List.eq_nil_or_concat' labels |>.resolve_left hne
  exact ⟨_, labelText_concat table front last.1 last.2⟩

/-- The last key is what follows the last space. -/
theorem last_key_inj (table : PrintTable) (hkey : space ∉ key) (hkey' : space ∉ key')
    (h : labelText table labels ++ key = labelText table labels' ++ key') :
    labelText table labels = labelText table labels' ∧ key = key' := by
  have hbetween {front back between rest : Bytes} {labels : List (Bytes × Bytes)}
      (htext : labelText table labels = front ++ between) (hback : back = between ++ rest)
      (hspace : space ∉ back) : between = [] := by
    by_contra hne
    have hlabels : labels ≠ [] := by
      rintro rfl
      exact hne (List.append_eq_nil_iff.mp htext.symm).2
    obtain ⟨text, hends⟩ := labelText_ends table hlabels
    obtain ⟨start, last, rfl⟩ := List.eq_nil_or_concat' between |>.resolve_left hne
    rw [hends, ← List.append_assoc] at htext
    have hlast : space = last := by
      simpa using List.append_inj_right' htext rfl
    subst hlast
    simp [hback] at hspace
  rcases List.append_eq_append_iff.mp h with ⟨between, htext, hrest⟩ | ⟨between, htext, hrest⟩
  · obtain rfl := hbetween htext hrest hkey
    simp_all
  · obtain rfl := hbetween htext hrest hkey'
    simp_all

theorem labelText_inj_of_spaceless (table : PrintTable) (hspaceless : SpacelessKeys labels)
    (hspaceless' : SpacelessKeys labels') (h : labelText table labels = labelText table labels') :
    labels = labels' := by
  induction labels using List.reverseRecOn generalizing labels' with
  | nil => exact (labelText_eq_nil.mp h.symm).symm
  | append_singleton labels label ih =>
    rcases List.eq_nil_or_concat' labels' with rfl | ⟨front, last, rfl⟩
    · exact labelText_eq_nil.mp h
    · obtain ⟨hfront, hvalue⟩ := labelText_concat_inj table h
      have hkeys := last_key_inj table (hspaceless label (by simp)) (hspaceless' last (by simp))
        hfront
      have hlabels := ih (fun other hother => hspaceless other (by simp [hother]))
        (fun other hother => hspaceless' other (by simp [hother])) hkeys.1
      rw [hlabels, Prod.ext hkeys.2 hvalue]

def Ascending (labels : List (Bytes × Bytes)) : Prop :=
  labels.Pairwise fun a b => a.1 < b.1

theorem mem_sortedLabels {labels : GoMap Bytes Bytes} :
    label ∈ sortedLabels labels ↔ labels.lookup label.1 = some label.2 := by
  simp only [sortedLabels, List.mem_map, List.mem_insertionSort, GoMap.mem_keys]
  constructor
  · rintro ⟨key, hkey, rfl⟩
    obtain ⟨value, hvalue⟩ := Option.isSome_iff_exists.mp hkey
    simp [hvalue]
  · intro hlookup
    exact ⟨label.1, by simp [hlookup], by simp [hlookup]⟩

theorem sortedLabels_ascending (labels : GoMap Bytes Bytes) :
    Ascending (sortedLabels labels) := by
  have hnodup : (labels.keys.insertionSort (· ≤ ·)).Nodup :=
    (List.perm_insertionSort _ _).nodup_iff.mpr labels.keys_nodup
  have hsorted := List.pairwise_insertionSort (· ≤ ·) labels.keys
  refine List.pairwise_map.mpr ((hsorted.and hnodup).imp ?_)
  rintro a b ⟨hle, hne⟩
  by_contra hlt
  exact hne (List.le_antisymm hle hlt)

theorem Ascending.nodup (h : Ascending labels) : labels.Nodup := by
  refine List.Pairwise.imp ?_ h
  rintro a _ hlt rfl
  exact List.lt_irrefl a.1 hlt

theorem Ascending.ext (h : Ascending labels) (h' : Ascending labels')
    (hmem : ∀ label, label ∈ labels ↔ label ∈ labels') :
    labels = labels' :=
  List.Perm.eq_of_pairwise (fun _ _ _ _ hab hba => absurd hab (List.lt_asymm hba)) h h'
    ((List.perm_ext_iff_of_nodup h.nodup h'.nodup).mpr hmem)

theorem Ascending.lookup_ofList (h : Ascending labels) :
    (GoMap.ofList labels).lookup key = some value ↔ (key, value) ∈ labels := by
  induction labels using List.reverseRecOn with
  | nil => simp [GoMap.lookup_ofList]
  | append_singleton front last ih =>
    obtain ⟨hfront, -, hlast⟩ := List.pairwise_append.mp h
    by_cases hkey : last.1 = key
    · subst hkey
      have hother : (last.1, value) ∉ front := fun hmem =>
        List.lt_irrefl last.1 (hlast _ hmem last (by simp))
      rw [GoMap.lookup_ofList_concat, List.mem_append, List.mem_singleton]
      simp [hother, Prod.ext_iff, eq_comm]
    · have hne : (key, value) ≠ last := fun heq => hkey (by rw [← heq])
      rw [List.mem_append, List.mem_singleton, or_iff_left hne, ← ih hfront,
        GoMap.lookup_ofList, GoMap.lookup_ofList]
      simp [hkey]

/-- Labels in order are those of a map. -/
theorem Ascending.sortedLabels_ofList (h : Ascending labels) :
    sortedLabels (GoMap.ofList labels) = labels :=
  (sortedLabels_ascending _).ext h fun _ => mem_sortedLabels.trans h.lookup_ofList

theorem Ascending.prefixText_ofList (table : PrintTable) (h : Ascending labels) :
    (newLabelWriter table (GoMap.ofList labels)).prefixText = labelText table labels := by
  rw [newLabelWriter, h.sortedLabels_ofList]

theorem sortedLabels_eq_iff {labels other : GoMap Bytes Bytes} :
    sortedLabels other = sortedLabels labels ↔ ∀ key, other.lookup key = labels.lookup key := by
  constructor
  · intro h key
    refine Option.ext fun value => ?_
    have hmem : (key, value) ∈ sortedLabels other ↔ other.lookup key = some value :=
      mem_sortedLabels
    rw [h, mem_sortedLabels] at hmem
    exact hmem.symm
  · intro h
    refine (sortedLabels_ascending other).ext (sortedLabels_ascending labels) fun label => ?_
    rw [mem_sortedLabels, mem_sortedLabels, h]

/-- There is at most one label, and its key is not the text of labels with another key
behind it. -/
def Indivisible (table : PrintTable) (labels : GoMap Bytes Bytes) : Prop :=
  labels.keys.length ≤ 1 ∧
    ∀ key ∈ labels.keys, ∀ (front : GoMap Bytes Bytes) (last : Bytes), front.keys ≠ [] →
      (∀ other ∈ front.keys, other < last) →
        key ≠ (newLabelWriter table front).prefixText ++ last

theorem length_sortedLabels (labels : GoMap Bytes Bytes) :
    (sortedLabels labels).length = labels.keys.length := by
  simp [sortedLabels]

theorem mem_keys_iff {labels : GoMap Bytes Bytes} :
    key ∈ labels.keys ↔ ∃ value, (key, value) ∈ sortedLabels labels := by
  simp only [GoMap.mem_keys, mem_sortedLabels, Option.isSome_iff_exists]

theorem Ascending.concat (h : Ascending labels) (hlast : ∀ label ∈ labels, label.1 < key) :
    Ascending (labels ++ [(key, value)]) := by
  refine List.pairwise_append.mpr ⟨h, List.pairwise_singleton _ _, ?_⟩
  intro label hlabel last hmem
  obtain rfl := List.mem_singleton.mp hmem
  exact hlast label hlabel

theorem sortedLabels_eq_singleton {labels : GoMap Bytes Bytes} (hone : labels.keys.length ≤ 1)
    (hlabel : label ∈ sortedLabels labels) : sortedLabels labels = [label] := by
  rw [← length_sortedLabels] at hone
  cases hsorted : sortedLabels labels with
  | nil => simp [hsorted] at hlabel
  | cons first rest =>
    rw [hsorted] at hone hlabel
    obtain rfl : rest = [] := List.length_eq_zero_iff.mp (by simpa using hone)
    rw [List.mem_singleton.mp hlabel]

/-- Only the labels of an indivisible map can be told from those of every other. -/
theorem prefixText_inj_iff (table : PrintTable) (labels : GoMap Bytes Bytes) :
    (∀ other : GoMap Bytes Bytes,
      (newLabelWriter table other).prefixText = (newLabelWriter table labels).prefixText →
        ∀ key, other.lookup key = labels.lookup key) ↔ Indivisible table labels := by
  simp only [← sortedLabels_eq_iff]
  constructor
  · intro hinj
    have hother {list : List (Bytes × Bytes)} (hlist : Ascending list)
        (htext : labelText table list = labelText table (sortedLabels labels)) :
        list = sortedLabels labels := by
      rw [← hinj (GoMap.ofList list) (by rw [hlist.prefixText_ofList, htext]; rfl),
        hlist.sortedLabels_ofList]
    have hone : labels.keys.length ≤ 1 := by
      by_contra hmany
      have hne : sortedLabels labels ≠ [] := fun hnil => by
        simp [← length_sortedLabels, hnil] at hmany
      obtain ⟨front, last, hsorted⟩ := (List.eq_nil_or_concat' _).resolve_left hne
      -- all but the last value as one key
      have hascending : Ascending [(labelText table front ++ last.1, last.2)] :=
        List.pairwise_singleton _ _
      have hsame := hother hascending (by
        rw [hsorted, labelText_concat]
        simp [labelText])
      rw [← length_sortedLabels, ← hsame] at hmany
      simp at hmany
    refine ⟨hone, ?_⟩
    rintro key hkey front last hfront hlast rfl
    obtain ⟨value, hmem⟩ := mem_keys_iff.mp hkey
    have hsorted := sortedLabels_eq_singleton hone hmem
    have hascending : Ascending (sortedLabels front ++ [(last, value)]) :=
      (sortedLabels_ascending front).concat fun label hlabel =>
        hlast label.1 (mem_keys_iff.mpr ⟨label.2, hlabel⟩)
    have hsame := hother hascending (by
      rw [hsorted, labelText_concat]
      simp [labelText, newLabelWriter])
    have hlength := congrArg List.length hsame
    rw [hsorted, List.length_append, length_sortedLabels] at hlength
    exact hfront (List.length_eq_zero_iff.mp (by simpa using hlength))
  · rintro ⟨hone, hindivisible⟩ other htext
    simp only [newLabelWriter] at htext
    rcases List.eq_nil_or_concat' (sortedLabels other) with hnil | ⟨front, last, hlast⟩
    · rw [hnil] at htext
      rw [hnil, labelText_eq_nil.mp htext.symm]
    · have hne : sortedLabels labels ≠ [] := by
        intro hnil
        rw [hlast, hnil, labelText_concat] at htext
        simp [labelText] at htext
      obtain ⟨label, hlabel⟩ := List.exists_mem_of_ne_nil _ hne
      have hsorted := sortedLabels_eq_singleton hone hlabel
      rw [hlast, hsorted, ← List.nil_append [label]] at htext
      obtain ⟨hkey, hvalue⟩ := labelText_concat_inj table htext
      have hascending : Ascending (front ++ [last]) := hlast ▸ sortedLabels_ascending other
      have hfront : Ascending front := (List.pairwise_append.mp hascending).1
      have hbelow := (List.pairwise_append.mp hascending).2.2
      have hempty : front = [] := by
        by_contra hnonempty
        refine hindivisible label.1 (mem_keys_iff.mpr ⟨label.2, hlabel⟩) (GoMap.ofList front)
          last.1 ?_ ?_ ?_
        · rw [Ne, ← List.length_eq_zero_iff, ← length_sortedLabels, hfront.sortedLabels_ofList,
            List.length_eq_zero_iff]
          exact hnonempty
        · intro key hkey
          obtain ⟨value, hmem⟩ := mem_keys_iff.mp hkey
          rw [hfront.sortedLabels_ofList] at hmem
          exact hbelow _ hmem last (by simp)
        · rw [hfront.prefixText_ofList, hkey]
          rfl
      subst hempty
      rw [hlast, hsorted, List.nil_append, Prod.ext hkey hvalue]

/-- The line breaks in the text are those of the keys and of the values without quotes. -/
theorem newline_mem_labelText :
    newline ∈ labelText table labels ↔
      ∃ label ∈ labels, newline ∈ label.1 ∨
        (newline ∈ label.2 ∧ needsQuotes label.2 = false) := by
  have hvalue (v : Bytes) : newline ∈ logfmtValue table v ↔
      newline ∈ v ∧ needsQuotes v = false := by
    rcases logfmtValue_cases table v with ⟨-, hbare, htext⟩ | ⟨hquotes, htext⟩
    · simp [htext, hbare]
    · rw [htext]
      refine iff_of_false ?_ ?_
      · intro hmem
        have hquote : newline ≠ doubleQuote := by decide
        have hbody : newline ∈ escapeFrom table v.length v := by simpa [quote, hquote] using hmem
        exact absurd ((escapeFrom_escaped table _ v).visible hbody) (by decide)
      · rintro ⟨hmem, hbare⟩
        rw [hquotes (List.ne_nil_of_mem hmem)] at hbare
        cases hbare
  have hequals : newline ≠ equalsSign := by decide
  have hspace : newline ≠ space := by decide
  simp [labelText, hvalue, hequals, hspace]

/-- No key has a line break, and no value has one without something that it is quoted
for. -/
def Unbroken (labels : GoMap Bytes Bytes) : Prop :=
  ∀ key value, labels.lookup key = some value →
    newline ∉ key ∧ (newline ∈ value → needsQuotes value = true)

theorem newline_not_mem_prefixText_iff (table : PrintTable) (labels : GoMap Bytes Bytes) :
    newline ∉ (newLabelWriter table labels).prefixText ↔ Unbroken labels := by
  rw [newLabelWriter, newline_mem_labelText]
  simp only [Prod.exists, mem_sortedLabels, not_exists, not_and, not_or, Bool.not_eq_false,
    Unbroken]

/-- The labels before a line add no line break and can be told from those of every other
map exactly if the map is unbroken and indivisible. Among maps whose keys have no space
they can always be told apart. -/
theorem labels_survive_iff (table : PrintTable) (labels : GoMap Bytes Bytes) :
    ((newline ∉ (newLabelWriter table labels).prefixText ∧
        ∀ other : GoMap Bytes Bytes,
          (newLabelWriter table other).prefixText = (newLabelWriter table labels).prefixText →
            ∀ key, other.lookup key = labels.lookup key) ↔
      Unbroken labels ∧ Indivisible table labels) ∧
    ((∀ key ∈ labels.keys, space ∉ key) →
      ∀ other : GoMap Bytes Bytes, (∀ key ∈ other.keys, space ∉ key) →
        (newLabelWriter table other).prefixText = (newLabelWriter table labels).prefixText →
          ∀ key, other.lookup key = labels.lookup key) := by
  refine ⟨and_congr (newline_not_mem_prefixText_iff table labels)
    (prefixText_inj_iff table labels), ?_⟩
  intro hkeys other hother htext
  refine sortedLabels_eq_iff.mp (labelText_inj_of_spaceless table ?_ ?_ htext)
  · intro label hlabel
    exact hother label.1 (mem_keys_iff.mpr ⟨label.2, hlabel⟩)
  · intro label hlabel
    exact hkeys label.1 (mem_keys_iff.mpr ⟨label.2, hlabel⟩)

def asciiTable : PrintTable where
  isPrint c := 32 ≤ c.toNat && c.toNat < 127
  control c hc := by simp; omega

/-- A label whose key has another label in it looks like two labels, and a value with a
line break but no space breaks the line. -/
theorem labels_lost :
    let two := GoMap.ofList [(ascii "env", ascii "prod"), (ascii "zone", ascii "eu")]
    let one := GoMap.ofList [(ascii "env=prod zone", ascii "eu")]
    let broken := GoMap.ofList [(ascii "env", ascii "prod\nzone")]
    (newLabelWriter asciiTable one).prefixText = (newLabelWriter asciiTable two).prefixText ∧
      one.lookup (ascii "env") ≠ two.lookup (ascii "env") ∧
      newline ∈ (newLabelWriter asciiTable broken).prefixText := by
  decide +kernel

end Gopherd.Logger
