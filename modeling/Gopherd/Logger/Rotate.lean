import Gopherd.Go.Map
import Gopherd.Logger.Sanitize

/-!
The log file of a target and its rotation. The directory is modelled by the live
file and the rotated ones, which are numbered and plain or compressed. Each call
on the live file whose failure `rotate` handles may fail; the files that were
rotated earlier can be moved and removed, and an open file can be written.
-/

namespace Gopherd.Logger

open Go

structure Codec where
  gzip : Bytes → Bytes
  gunzip : Bytes → Option Bytes
  inverse : ∀ data, gunzip (gzip data) = some data

inductive Form where
  | plain
  | gz
  deriving DecidableEq

inductive FileName where
  | live
  | slot (form : Form) (number : Nat)
  deriving DecidableEq

abbrev Directory := GoMap FileName Bytes

/-- `os.Rename`, which replaces a file of the new name. -/
def renameFile (src dst : FileName) (dir : Directory) : Option Directory :=
  (dir.lookup src).map fun data => (dir.erase src).insert dst data

structure Settings where
  maxSize : Nat
  maxFiles : Nat
  compress : Bool
  -- `openFile` keeps five files where a target that rotates says nothing of them.
  keeps : 0 < maxSize → 0 < maxFiles

structure RotatingFileWriter where
  settings : Settings
  isOpen : Bool
  size : Nat

structure Log where
  writer : RotatingFileWriter
  dir : Directory

structure Faults where
  ancestors : Bool
  close : Bool
  rename : Bool
  gzip : Bool
  -- what another principal puts under the name once the live file was moved away
  foreign : Option Bytes
  reopen : Bool
  deriving DecidableEq

def noFaults : Faults := ⟨false, false, false, false, none, false⟩

inductive RotateError where
  | ancestors
  | rename
  | reopen
  deriving DecidableEq

def dropOldest (maxFiles : Nat) (dir : Directory) : Directory :=
  (dir.erase (.slot .plain maxFiles)).erase (.slot .gz maxFiles)

def shiftFile (form : Form) (i : Nat) (dir : Directory) : Directory :=
  (renameFile (.slot form i) (.slot form (i + 1)) dir).getD dir

/-- The loop of `rotate`, from slot `i` down to the first one. -/
def shiftSlots : Nat → Directory → Directory
  | 0, dir => dir
  | i + 1, dir => shiftSlots i (shiftFile .plain (i + 1) (shiftFile .gz (i + 1) dir))

/-- What `rotate` does to the rotated files before it moves the live one. -/
def makeRoom (maxFiles : Nat) (dir : Directory) : Directory :=
  shiftSlots (maxFiles - 1) (dropOldest maxFiles dir)

def gzipFile (codec : Codec) (fails : Bool) (src dst : FileName) (dir : Directory) :
    Option Directory :=
  if fails || (dir.lookup dst).isSome then none
  else (dir.lookup src).map fun data => dir.insert dst (codec.gzip data)

/-- The file that was just rotated is compressed; if that fails, it stays. -/
def compressRotated (codec : Codec) (compress fails : Bool) (dir : Directory) : Directory :=
  if compress then
    match gzipFile codec fails (.slot .plain 1) (.slot .gz 1) dir with
    | some dir => dir.erase (.slot .plain 1)
    | none => dir
  else dir

def placeForeign (foreign : Option Bytes) (dir : Directory) : Directory :=
  foreign.elim dir (dir.insert .live)

/-- `rotate`. That the file could not be closed is only logged. The live file is created
with `O_EXCL`, which refuses a file that stands under its name already. -/
def Log.rotate (codec : Codec) (faults : Faults) (log : Log) : Option RotateError × Log :=
  if faults.ancestors then (some .ancestors, log)
  else
    let closed := { log.writer with isOpen := false }
    let dir := makeRoom log.writer.settings.maxFiles log.dir
    match if faults.rename then none else renameFile .live (.slot .plain 1) dir with
    | none => (some .rename, ⟨closed, dir⟩)
    | some dir =>
      let dir := compressRotated codec log.writer.settings.compress faults.gzip dir
      let dir := placeForeign faults.foreign dir
      if faults.reopen || (dir.lookup .live).isSome then (some .reopen, ⟨closed, dir⟩)
      else (none, ⟨{ closed with isOpen := true, size := 0 }, dir.insert .live []⟩)

inductive WriteError where
  | notOpen
  deriving DecidableEq

def Log.needsRotation (log : Log) (clean : Bytes) : Bool :=
  0 < log.writer.settings.maxSize && 0 < log.writer.size &&
    log.writer.settings.maxSize < log.writer.size + clean.length

def Log.append (log : Log) (clean : Bytes) : Log where
  writer := { log.writer with size := log.writer.size + clean.length }
  dir :=
    match log.dir.lookup .live with
    | some data => log.dir.insert .live (data ++ clean)
    | none => log.dir

/-- The part of `Write` in front of the write itself. -/
def Log.beforeWrite (codec : Codec) (faults : Faults) (p : Bytes) (log : Log) : Log :=
  if log.needsRotation (sanitize p) then (log.rotate codec faults).2 else log

def Log.write (codec : Codec) (faults : Faults) (p : Bytes) (log : Log) :
    Option WriteError × Log :=
  let log := log.beforeWrite codec faults p
  if log.writer.isOpen then (none, log.append (sanitize p)) else (some .notOpen, log)

/-- `openFile`: the size is that of the file, if there is one. -/
def Log.openFile (settings : Settings) (dir : Directory) : Log :=
  let data := (dir.lookup .live).getD []
  ⟨⟨settings, true, data.length⟩, dir.insert .live data⟩

theorem renameFile_getD_lookup (src dst name : FileName) (dir : Directory) :
    ((renameFile src dst dir).getD dir).lookup name =
      if name = dst then (dir.lookup src).or (dir.lookup dst)
      else if name = src then none else dir.lookup name := by
  unfold renameFile
  cases hsrc : dir.lookup src with
  | none =>
    rw [Option.map_none, Option.getD_none, Option.none_or]
    split_ifs with hdst hname
    · rw [hdst]
    · rw [hname, hsrc]
    · rfl
  | some data =>
    rw [Option.map_some, Option.getD_some, GoMap.lookup_insert, GoMap.lookup_erase,
      Option.some_or]

theorem shiftFile_lookup (form other : Form) (i j : Nat) (dir : Directory) :
    (shiftFile form i dir).lookup (.slot other j) =
      if other = form then
        if j = i + 1 then (dir.lookup (.slot form i)).or (dir.lookup (.slot form (i + 1)))
        else if j = i then none else dir.lookup (.slot form j)
      else dir.lookup (.slot other j) := by
  unfold shiftFile
  rw [renameFile_getD_lookup]
  by_cases hform : other = form
  · simp [hform]
  · simp [hform]

theorem shiftFile_lookup_live (form : Form) (i : Nat) (dir : Directory) :
    (shiftFile form i dir).lookup .live = dir.lookup .live := by
  unfold shiftFile
  rw [renameFile_getD_lookup]
  simp

theorem shiftSlot_lookup (form : Form) (i j : Nat) (dir : Directory) :
    (shiftFile .plain i (shiftFile .gz i dir)).lookup (.slot form j) =
      if j = i + 1 then (dir.lookup (.slot form i)).or (dir.lookup (.slot form (i + 1)))
      else if j = i then none else dir.lookup (.slot form j) := by
  cases form with
  | plain => simp [shiftFile_lookup]
  | gz => simp [shiftFile_lookup]

variable {dir : Directory} {log : Log} {codec : Codec} {faults : Faults}

/-- The loop moves each file one slot up. -/
theorem shiftSlots_lookup (form : Form) (n j : Nat)
    (hroom : dir.lookup (.slot form (n + 1)) = none) :
    (shiftSlots n dir).lookup (.slot form j) =
      if j = 0 ∨ n + 1 < j then dir.lookup (.slot form j)
      else if j = 1 then none else dir.lookup (.slot form (j - 1)) := by
  induction n generalizing dir with
  | zero =>
    rw [shiftSlots]
    split_ifs with houtside hfirst
    · rfl
    · rw [hfirst]
      exact hroom
    · omega
  | succ n ih =>
    have hmoved := shiftSlot_lookup form (n + 1)
    have hroom' : (shiftFile .plain (n + 1) (shiftFile .gz (n + 1) dir)).lookup
        (.slot form (n + 1)) = none := by
      rw [hmoved, if_neg (by omega), if_pos rfl]
    rw [shiftSlots, ih hroom']
    by_cases hzero : j = 0
    · rw [if_pos (Or.inl hzero), if_pos (Or.inl hzero), hmoved, if_neg (by omega),
        if_neg (by omega)]
    by_cases hfirst : j = 1
    · rw [if_neg (by omega), if_pos hfirst, if_neg (by omega), if_pos hfirst]
    by_cases hlow : j ≤ n + 1
    · rw [if_neg (by omega), if_neg hfirst, if_neg (by omega), if_neg hfirst, hmoved,
        if_neg (by omega), if_neg (by omega)]
    by_cases hlast : j = n + 2
    · rw [if_pos (Or.inr (by omega)), if_neg (by omega), if_neg hfirst, hmoved,
        if_pos (by omega), hroom, Option.or_none, hlast]
      rfl
    · rw [if_pos (Or.inr (by omega)), if_pos (Or.inr (by omega)), hmoved, if_neg (by omega),
        if_neg (by omega)]

theorem shiftSlots_lookup_live (n : Nat) (dir : Directory) :
    (shiftSlots n dir).lookup .live = dir.lookup .live := by
  induction n generalizing dir with
  | zero => rfl
  | succ n ih => rw [shiftSlots, ih, shiftFile_lookup_live, shiftFile_lookup_live]

theorem dropOldest_lookup (form : Form) (maxFiles j : Nat) (dir : Directory) :
    (dropOldest maxFiles dir).lookup (.slot form j) =
      if j = maxFiles then none else dir.lookup (.slot form j) := by
  rw [dropOldest, GoMap.lookup_erase, GoMap.lookup_erase]
  cases form with
  | plain => simp
  | gz => simp

/-- The slots up to the last one move up, and the first one is free. -/
theorem makeRoom_lookup (form : Form) (hpos : 0 < maxFiles) (j : Nat) (dir : Directory) :
    (makeRoom maxFiles dir).lookup (.slot form j) =
      if j = 0 ∨ maxFiles < j then dir.lookup (.slot form j)
      else if j = 1 then none else dir.lookup (.slot form (j - 1)) := by
  have hroom : (dropOldest maxFiles dir).lookup (.slot form (maxFiles - 1 + 1)) = none := by
    rw [dropOldest_lookup, if_pos (by omega)]
  rw [makeRoom, shiftSlots_lookup form _ j hroom, Nat.sub_add_cancel hpos]
  split_ifs with houtside hfirst
  · rw [dropOldest_lookup, if_neg (by omega)]
  · rfl
  · rw [dropOldest_lookup, if_neg (by omega)]

theorem makeRoom_lookup_live (maxFiles : Nat) (dir : Directory) :
    (makeRoom maxFiles dir).lookup .live = dir.lookup .live := by
  rw [makeRoom, shiftSlots_lookup_live, dropOldest, GoMap.lookup_erase, GoMap.lookup_erase]
  simp

def newForm (compress fails : Bool) : Form :=
  if compress && !fails then .gz else .plain

def newData (codec : Codec) (compress fails : Bool) (data : Bytes) : Bytes :=
  if compress && !fails then codec.gzip data else data

/-- Into a free first slot, the live file is put in one form. -/
theorem compressRotated_lookup (codec : Codec) (compress fails : Bool)
    (hplain : dir.lookup (.slot .plain 1) = some data) (hgz : dir.lookup (.slot .gz 1) = none)
    (name : FileName) :
    (compressRotated codec compress fails dir).lookup name =
      if name = .slot (newForm compress fails) 1 then some (newData codec compress fails data)
      else if name = .slot .plain 1 then none else dir.lookup name := by
  unfold compressRotated gzipFile newForm newData
  cases compress with
  | false =>
    by_cases hname : name = .slot .plain 1
    · simp [hname, hplain]
    · simp [hname]
  | true =>
    cases fails with
    | true =>
      by_cases hname : name = .slot .plain 1
      · simp [hname, hplain]
      · simp [hname]
    | false =>
      simp only [hgz, hplain, Option.isSome_none, Bool.or_self, Bool.false_eq_true, if_false,
        if_true, Option.map_some, GoMap.lookup_erase, GoMap.lookup_insert, Bool.not_false,
        Bool.and_self]
      by_cases hname : name = .slot .plain 1
      · simp [hname]
      · simp [hname]

/-- The directory once the live file was moved, before it is reopened. -/
def Log.moved (codec : Codec) (faults : Faults) (log : Log) (data : Bytes) : Directory :=
  compressRotated codec log.writer.settings.compress faults.gzip
    (((makeRoom log.writer.settings.maxFiles log.dir).erase .live).insert (.slot .plain 1) data)

theorem moved_lookup (codec : Codec) (faults : Faults) (hpos : 0 < log.writer.settings.maxFiles)
    (data : Bytes) (name : FileName) :
    (log.moved codec faults data).lookup name =
      if name = .slot (newForm log.writer.settings.compress faults.gzip) 1 then
        some (newData codec log.writer.settings.compress faults.gzip data)
      else if name = .live ∨ name = .slot .plain 1 then none
      else (makeRoom log.writer.settings.maxFiles log.dir).lookup name := by
  have hgz : (((makeRoom log.writer.settings.maxFiles log.dir).erase .live).insert
      (.slot .plain 1) data).lookup (.slot .gz 1) = none := by
    rw [GoMap.lookup_insert, if_neg (by simp), GoMap.lookup_erase, if_neg (by simp),
      makeRoom_lookup _ hpos, if_neg (by omega), if_pos rfl]
  have hplain : (((makeRoom log.writer.settings.maxFiles log.dir).erase .live).insert
      (.slot .plain 1) data).lookup (.slot .plain 1) = some data := by
    rw [GoMap.lookup_insert, if_pos rfl]
  rw [Log.moved, compressRotated_lookup codec _ _ hplain hgz, GoMap.lookup_insert,
    GoMap.lookup_erase]
  by_cases hlive : name = .live
  · simp [hlive]
  · by_cases hfirst : name = .slot .plain 1
    · simp [hfirst]
    · simp [hlive, hfirst]

/-- Once the live file can be moved, only the reopen decides. -/
theorem rotate_eq (hpos : 0 < log.writer.settings.maxFiles)
    (hancestors : faults.ancestors = false) (hrename : faults.rename = false)
    (hlive : log.dir.lookup .live = some data) :
    log.rotate codec faults =
      if faults.reopen || faults.foreign.isSome then
        (some .reopen, ⟨{ log.writer with isOpen := false },
          placeForeign faults.foreign (log.moved codec faults data)⟩)
      else
        (none, ⟨{ log.writer with isOpen := true, size := 0 },
          (log.moved codec faults data).insert .live []⟩) := by
  have hmoved : renameFile .live (.slot .plain 1) (makeRoom log.writer.settings.maxFiles log.dir) =
      some (((makeRoom log.writer.settings.maxFiles log.dir).erase .live).insert
        (.slot .plain 1) data) := by
    rw [renameFile, makeRoom_lookup_live, hlive, Option.map_some]
  have hgone : (log.moved codec faults data).lookup .live = none := by
    rw [moved_lookup codec faults hpos, if_neg (by simp), if_pos (Or.inl rfl)]
  unfold Log.moved at hgone
  unfold Log.rotate Log.moved
  cases faults.foreign with
  | none => simp [hancestors, hrename, hmoved, hgone, placeForeign]
  | some other => simp [hancestors, hrename, hmoved, placeForeign, GoMap.lookup_insert]

def Faults.movable (faults : Faults) : Bool :=
  !faults.rename && !faults.reopen && faults.foreign.isNone

theorem rotate_ok_iff (hpos : 0 < log.writer.settings.maxFiles) :
    (log.rotate codec faults).1 = none ↔ faults.ancestors = false ∧ faults.movable = true ∧
      ∃ data, log.dir.lookup .live = some data := by
  cases hancestors : faults.ancestors with
  | true => simp [Log.rotate, hancestors]
  | false =>
      cases hrename : faults.rename with
      | true => simp [Log.rotate, Faults.movable, hancestors, hrename]
      | false =>
          cases hlive : log.dir.lookup .live with
          | none => simp [Log.rotate, hancestors, hrename, renameFile, makeRoom_lookup_live, hlive]
          | some data =>
              rw [rotate_eq hpos hancestors hrename hlive]
              cases hreopen : faults.reopen <;> cases hforeign : faults.foreign <;>
                simp [Faults.movable, hrename, hreopen, hforeign]

/-- What a rotation that succeeds makes of the directory. -/
theorem rotate_lookup (hpos : 0 < log.writer.settings.maxFiles)
    (hok : (log.rotate codec faults).1 = none) :
    ∃ data, log.dir.lookup .live = some data ∧
      (log.rotate codec faults).2.writer = { log.writer with isOpen := true, size := 0 } ∧
      (log.rotate codec faults).2.dir.lookup .live = some [] ∧
      ∀ form j, (log.rotate codec faults).2.dir.lookup (.slot form j) =
        if j = 0 ∨ log.writer.settings.maxFiles < j then log.dir.lookup (.slot form j)
        else if j = 1 then
          if form = newForm log.writer.settings.compress faults.gzip then
            some (newData codec log.writer.settings.compress faults.gzip data)
          else none
        else log.dir.lookup (.slot form (j - 1)) := by
  obtain ⟨hancestors, hmovable, data, hlive⟩ := (rotate_ok_iff hpos).mp hok
  simp only [Faults.movable, Bool.and_eq_true, Bool.not_eq_true', Option.isNone_iff_eq_none]
    at hmovable
  refine ⟨data, hlive, ?_⟩
  rw [rotate_eq hpos hancestors hmovable.1.1 hlive, hmovable.1.2, hmovable.2,
    if_neg (by simp)]
  refine ⟨rfl, ?_, ?_⟩
  · rw [GoMap.lookup_insert, if_pos rfl]
  · intro form j
    rw [GoMap.lookup_insert, if_neg (by simp), moved_lookup codec faults hpos,
      makeRoom_lookup form hpos]
    by_cases hfirst : j = 1
    · subst hfirst
      have hinside : ¬ log.writer.settings.maxFiles < 1 := by omega
      by_cases hform : form = newForm log.writer.settings.compress faults.gzip
      · simp [hform, hinside]
      · simp [hform, hinside]
    · rw [if_neg (by simp [hfirst]), if_neg (by simp [hfirst])]
      simp [hfirst]

def FileName.isRotated : FileName → Bool
  | .live => false
  | .slot _ number => 0 < number

def FileName.inSlot (number : Nat) : FileName → Bool
  | .live => false
  | .slot _ other => other = number

def rotatedFiles (dir : Directory) : Finset FileName :=
  dir.keys.toFinset.filter (·.isRotated = true)

/-- Where a rotation leaves a file that it does not drop. -/
def FileName.shifted (maxFiles : Nat) : FileName → FileName
  | .live => .live
  | .slot form number => .slot form (if number < maxFiles then number + 1 else number)

theorem mem_rotatedFiles :
    name ∈ rotatedFiles dir ↔
      ∃ form number, name = .slot form number ∧ 0 < number ∧
        (dir.lookup (.slot form number)).isSome := by
  rw [rotatedFiles, Finset.mem_filter, List.mem_toFinset, GoMap.mem_keys]
  cases name with
  | live => simp [FileName.isRotated]
  | slot form number => simp [FileName.isRotated, and_comm]

/-- A rotation keeps the files outside of the last slot and adds one. -/
theorem rotate_rotatedFiles (hpos : 0 < log.writer.settings.maxFiles)
    (hok : (log.rotate codec faults).1 = none) :
    rotatedFiles (log.rotate codec faults).2.dir =
      insert (.slot (newForm log.writer.settings.compress faults.gzip) 1)
        (((rotatedFiles log.dir).filter
          (fun name => name.inSlot log.writer.settings.maxFiles = false)).image
            (FileName.shifted log.writer.settings.maxFiles)) := by
  obtain ⟨data, -, -, -, hslots⟩ := rotate_lookup hpos hok
  ext name
  rw [mem_rotatedFiles, Finset.mem_insert, Finset.mem_image]
  constructor
  · rintro ⟨form, number, rfl, hnumber, hsome⟩
    rw [hslots] at hsome
    split_ifs at hsome with houtside hfirst hform
    · right
      refine ⟨.slot form number, ?_, ?_⟩
      · rw [Finset.mem_filter, mem_rotatedFiles]
        refine ⟨⟨form, number, rfl, hnumber, hsome⟩, ?_⟩
        simp [FileName.inSlot]
        omega
      · rw [FileName.shifted, if_neg (by omega)]
    · left
      rw [hfirst, hform]
    · cases hsome
    · right
      refine ⟨.slot form (number - 1), ?_, ?_⟩
      · rw [Finset.mem_filter, mem_rotatedFiles]
        refine ⟨⟨form, number - 1, rfl, by omega, hsome⟩, ?_⟩
        simp [FileName.inSlot]
        omega
      · rw [FileName.shifted, if_pos (by omega), Nat.sub_add_cancel hnumber]
  · rintro (rfl | ⟨old, hold, rfl⟩)
    · refine ⟨_, 1, rfl, Nat.one_pos, ?_⟩
      rw [hslots, if_neg (by omega), if_pos rfl, if_pos rfl]
      rfl
    · rw [Finset.mem_filter, mem_rotatedFiles] at hold
      obtain ⟨⟨form, number, rfl, hnumber, hsome⟩, hslot⟩ := hold
      have hne : number ≠ log.writer.settings.maxFiles := by
        simpa [FileName.inSlot] using hslot
      refine ⟨form, _, rfl, ?_, ?_⟩
      · split_ifs <;> omega
      · rw [hslots]
        by_cases hlow : number < log.writer.settings.maxFiles
        · rw [if_pos hlow, if_neg (by omega), if_neg (by omega), Nat.add_sub_cancel]
          exact hsome
        · rw [if_neg hlow, if_pos (by omega)]
          exact hsome

theorem rotate_card (hpos : 0 < log.writer.settings.maxFiles)
    (hok : (log.rotate codec faults).1 = none) :
    (rotatedFiles (log.rotate codec faults).2.dir).card =
      ((rotatedFiles log.dir).filter
        (fun name => name.inSlot log.writer.settings.maxFiles = false)).card + 1 := by
  rw [rotate_rotatedFiles hpos hok, Finset.card_insert_of_notMem, Finset.card_image_of_injOn]
  · intro a ha b hb heq
    rw [Finset.mem_coe, Finset.mem_filter, mem_rotatedFiles] at ha hb
    obtain ⟨⟨form, number, rfl, -, -⟩, hslot⟩ := ha
    obtain ⟨⟨form', number', rfl, -, -⟩, hslot'⟩ := hb
    simp only [FileName.inSlot, decide_eq_false_iff_not] at hslot hslot'
    simp only [FileName.shifted, FileName.slot.injEq] at heq ⊢
    refine ⟨heq.1, ?_⟩
    have hnumbers := heq.2
    split_ifs at hnumbers <;> omega
  · intro hmem
    obtain ⟨old, hold, heq⟩ := Finset.mem_image.mp hmem
    rw [Finset.mem_filter, mem_rotatedFiles] at hold
    obtain ⟨⟨form, number, rfl, hnumber, -⟩, hslot⟩ := hold
    simp only [FileName.inSlot, decide_eq_false_iff_not] at hslot
    simp only [FileName.shifted, FileName.slot.injEq] at heq
    have hnumbers := heq.2
    split_ifs at hnumbers <;> omega

/-- After a rotation at most `maxFiles` rotated files exist exactly when there
were fewer than that outside of the last slot. -/
theorem rotate_bound_iff {codec : Codec} {faults : Faults} {log : Log}
    (henabled : 0 < log.writer.settings.maxSize) (hok : (log.rotate codec faults).1 = none) :
    (rotatedFiles (log.rotate codec faults).2.dir).card ≤ log.writer.settings.maxFiles ↔
      ((rotatedFiles log.dir).filter
        (fun name => name.inSlot log.writer.settings.maxFiles = false)).card <
          log.writer.settings.maxFiles := by
  rw [rotate_card (log.writer.settings.keeps henabled) hok, Nat.succ_le_iff]

def stored : Codec := ⟨id, some, fun _ => rfl⟩

def oneKept (rotated : List (FileName × Bytes)) : Log :=
  .openFile ⟨2, 1, false, by decide⟩ (GoMap.ofList ((.live, [1, 2]) :: rotated))

/-- A file that a larger `max-files` left behind is never removed. -/
theorem leftover_exceeds_bound :
    ((oneKept [(.slot .plain 3, [0])]).rotate stored noFaults).1 = none ∧
      (rotatedFiles ((oneKept [(.slot .plain 3, [0])]).rotate stored noFaults).2.dir).card = 2 := by
  decide +kernel

def mixedLeftovers : Log :=
  .openFile ⟨2, 3, true, by decide⟩
    (GoMap.ofList [(.live, [1, 2]), (.slot .plain 1, [3]), (.slot .gz 3, [4])])

theorem rotate_bound_mixed :
    ((rotatedFiles mixedLeftovers.dir).filter (fun name => name.inSlot 3 = false)).card = 1 ∧
      (rotatedFiles (mixedLeftovers.rotate stored noFaults).2.dir).card ≤ 3 := by
  have henabled : 0 < mixedLeftovers.writer.settings.maxSize := by decide
  have hok : (mixedLeftovers.rotate stored noFaults).1 = none := by decide +kernel
  exact ⟨by decide +kernel, (rotate_bound_iff henabled hok).mpr (by decide +kernel)⟩

end Gopherd.Logger
