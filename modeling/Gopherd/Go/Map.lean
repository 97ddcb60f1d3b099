import Gopherd.Lib.Perm
import Mathlib.Data.List.AList
import Mathlib.Tactic

/-!
Go maps as association lists without duplicate keys. The order of the entries
is one of the orders in which Go may iterate the map; whatever depends on it
takes the order as an argument.
-/

namespace Gopherd.Go

def GoMap (K V : Type) := AList (fun _ : K => V)

namespace GoMap

variable {K V W : Type}

def empty : GoMap K V :=
  (∅ : AList (fun _ : K => V))

instance : EmptyCollection (GoMap K V) := ⟨empty⟩

instance : Inhabited (GoMap K V) := ⟨empty⟩

def entries (m : GoMap K V) : List (K × V) :=
  (AList.entries m).map (fun entry => (entry.1, entry.2))

def keys (m : GoMap K V) : List K :=
  AList.keys m

theorem keys_eq_map_entries (m : GoMap K V) : m.keys = m.entries.map Prod.fst := by
  simp [keys, entries, AList.keys, List.keys]

theorem keys_nodup (m : GoMap K V) : m.keys.Nodup :=
  AList.keys_nodup m

def isEmpty (m : GoMap K V) : Bool :=
  m.entries.isEmpty

variable [DecidableEq K]

instance [DecidableEq V] : DecidableEq (GoMap K V) := fun left right =>
  decidable_of_iff (AList.entries left = AList.entries right) AList.ext_iff.symm

def lookup (key : K) (m : GoMap K V) : Option V :=
  AList.lookup key m

def insert (key : K) (value : V) (m : GoMap K V) : GoMap K V :=
  AList.insert key value m

def erase (key : K) (m : GoMap K V) : GoMap K V :=
  AList.erase key m

@[simp]
theorem lookup_empty (key : K) : (∅ : GoMap K V).lookup key = none :=
  AList.lookup_empty key

theorem lookup_insert (m : GoMap K V) (key other : K) (value : V) :
    (m.insert key value).lookup other = if other = key then some value else m.lookup other := by
  by_cases heq : other = key
  · subst heq
    rw [if_pos rfl]
    exact AList.lookup_insert m
  · rw [if_neg heq]
    exact AList.lookup_insert_ne heq

theorem lookup_erase (m : GoMap K V) (key other : K) :
    (m.erase key).lookup other = if other = key then none else m.lookup other := by
  by_cases heq : other = key
  · subst heq
    rw [if_pos rfl]
    exact AList.lookup_erase other m
  · rw [if_neg heq]
    exact AList.lookup_erase_ne heq

theorem mem_entries {m : GoMap K V} : (key, value) ∈ m.entries ↔ m.lookup key = some value := by
  have hlookup : m.lookup key = some value ↔
      (⟨key, value⟩ : (_ : K) × V) ∈ AList.entries m :=
    List.mem_dlookup_iff (AList.nodupKeys m)
  rw [hlookup, entries, List.mem_map]
  constructor
  · rintro ⟨⟨key', value'⟩, hmem, heq⟩
    cases heq
    exact hmem
  · intro hmem
    exact ⟨⟨key, value⟩, hmem, rfl⟩

theorem mem_keys {m : GoMap K V} : key ∈ m.keys ↔ (m.lookup key).isSome := by
  rw [keys_eq_map_entries, List.mem_map, Option.isSome_iff_exists]
  constructor
  · rintro ⟨⟨key', value⟩, hmem, rfl⟩
    exact ⟨value, mem_entries.mp hmem⟩
  · rintro ⟨value, hvalue⟩
    exact ⟨(key, value), mem_entries.mpr hvalue, rfl⟩

theorem isEmpty_iff (m : GoMap K V) : m.isEmpty = true ↔ ∀ key, m.lookup key = none := by
  rw [isEmpty, List.isEmpty_iff, List.eq_nil_iff_forall_not_mem]
  constructor
  · intro hempty key
    rw [Option.eq_none_iff_forall_ne_some]
    intro value hvalue
    exact hempty (key, value) (mem_entries.mpr hvalue)
  · rintro hnone ⟨key, value⟩ hmem
    rw [mem_entries, hnone key] at hmem
    cases hmem

/-- `maps.Equal`. -/
def equal [DecidableEq V] (m n : GoMap K V) : Bool :=
  m.entries.length = n.entries.length ∧
    ∀ entry ∈ m.entries, n.lookup entry.1 = some entry.2

/-- A map literal: a later entry replaces an earlier one with its key. -/
def ofList (entries : List (K × V)) : GoMap K V :=
  entries.foldl (fun m entry => m.insert entry.1 entry.2) ∅

theorem lookup_foldl_insert (entries : List (K × V)) (m : GoMap K V) (key : K) :
    (entries.foldl (fun m entry => m.insert entry.1 entry.2) m).lookup key =
      ((entries.filter (·.1 = key)).getLast?.map Prod.snd).or (m.lookup key) := by
  induction entries generalizing m with
  | nil => simp
  | cons entry entries ih =>
    rw [List.foldl_cons, ih, lookup_insert, Perm.getLast?_filter_cons]
    cases (entries.filter (·.1 = key)).getLast? with
    | some last => simp
    | none =>
      by_cases heq : entry.1 = key
      · simp [heq]
      · simp [heq, Ne.symm heq]

/-- A key has one entry at most. -/
theorem getLast?_entries (m : GoMap K V) (key : K) :
    (m.entries.filter (·.1 = key)).getLast?.map Prod.snd = m.lookup key := by
  cases hlookup : m.lookup key with
  | none =>
    have hempty : m.entries.filter (·.1 = key) = [] := by
      rw [List.filter_eq_nil_iff]
      rintro ⟨other, value⟩ hmem heq
      obtain rfl : other = key := by simpa using heq
      rw [mem_entries.mp hmem] at hlookup
      cases hlookup
    rw [hempty]
    rfl
  | some value =>
    have hmem : (key, value) ∈ m.entries.filter (·.1 = key) :=
      List.mem_filter.mpr ⟨mem_entries.mpr hlookup, by simp⟩
    obtain ⟨last, hlast⟩ := Option.isSome_iff_exists.mp
      (List.getLast?_isSome.mpr (List.ne_nil_of_mem hmem))
    obtain ⟨hentry, hkey⟩ := List.mem_filter.mp (List.mem_of_getLast? hlast)
    obtain rfl : last.1 = key := by simpa using hkey
    have hvalue := mem_entries.mp hentry
    rw [hlookup] at hvalue
    rw [hlast, Option.map_some, hvalue]

/-- The entries of one map put into another. -/
theorem lookup_foldl_entries (m n : GoMap K V) (key : K) :
    (n.entries.foldl (fun m entry => m.insert entry.1 entry.2) m).lookup key =
      (n.lookup key).or (m.lookup key) := by
  rw [lookup_foldl_insert, getLast?_entries]

/-- The last entry with the key counts. -/
theorem lookup_ofList (entries : List (K × V)) (key : K) :
    (ofList entries).lookup key = (entries.filter (·.1 = key)).getLast?.map Prod.snd := by
  rw [ofList, lookup_foldl_insert, lookup_empty, Option.or_none]

def KeysAgree (entries : List (K × V)) : Prop :=
  ∀ a ∈ entries, ∀ b ∈ entries, a.1 = b.1 → a.2 = b.2

theorem KeysAgree.lookup_perm {entries entries' : List (K × V)} (h : KeysAgree entries)
    (hperm : entries'.Perm entries) (key : K) :
    (ofList entries').lookup key = (ofList entries).lookup key := by
  rw [lookup_ofList, lookup_ofList]
  apply Perm.getLast?_map (hperm.filter _)
  intro a ha b hb
  simp only [List.mem_filter, decide_eq_true_eq] at ha hb
  exact h a ha.1 b hb.1 (ha.2.trans hb.2.symm)

/-- With an entry at the end, the map has its value. -/
theorem lookup_ofList_concat (entries : List (K × V)) (entry : K × V) :
    (ofList (entries ++ [entry])).lookup entry.1 = some entry.2 := by
  rw [lookup_ofList]
  simp

/-- A key that is in some entry is in the map. -/
theorem lookup_ofList_isSome {entries : List (K × V)} :
    ((ofList entries).lookup key).isSome ↔ ∃ entry ∈ entries, entry.1 = key := by
  rw [lookup_ofList, Option.isSome_map, List.getLast?_isSome, ne_eq, List.filter_eq_nil_iff]
  simp

def mapValues (f : V → W) (m : GoMap K V) : GoMap K W :=
  ⟨(AList.entries m).map (fun entry => ⟨entry.1, f entry.2⟩), by
    have hkeys : ((AList.entries m).map
        (fun entry => (⟨entry.1, f entry.2⟩ : (_ : K) × W))).keys =
        (AList.entries m).keys := by
      simp [List.keys]
    rw [List.NodupKeys, hkeys]
    exact AList.nodupKeys m⟩

theorem lookup_mapValues (f : V → W) (m : GoMap K V) (key : K) :
    (m.mapValues f).lookup key = (m.lookup key).map f :=
  List.dlookup_map₂ (l := AList.entries m) (f := fun _ => f) key

end GoMap

end Gopherd.Go
