import Gopherd.Logger.Rotate

/-!
What a log keeps of the stream that was written to it. Abstractly it is a list
of segments, of which the oldest are dropped.
-/

namespace Gopherd.Logger

open Go

structure Segments where
  rotated : List Bytes
  live : Bytes

namespace Segments

def text (s : Segments) : Bytes :=
  s.rotated.reverse.flatten ++ s.live

def rotate (maxFiles : Nat) (s : Segments) : Segments :=
  ⟨(s.live :: s.rotated).take maxFiles, []⟩

def append (s : Segments) (clean : Bytes) : Segments :=
  { s with live := s.live ++ clean }

/-- A write starts a new segment when it would not fit. -/
def write (maxSize maxFiles : Nat) (s : Segments) (clean : Bytes) : Segments :=
  if 0 < s.live.length ∧ maxSize < s.live.length + clean.length then
    (s.rotate maxFiles).append clean
  else s.append clean

structure Keeps (maxSize maxFiles : Nat) (writes : List Bytes) (s : Segments) : Prop where
  suffix : s.text <:+ writes.flatten
  all : s.rotated.length < maxFiles → s.text = writes.flatten
  few : s.rotated.length ≤ maxFiles
  fits : ∀ data ∈ s.live :: s.rotated, data.length ≤ maxSize ∨ data ∈ writes

variable {maxSize maxFiles : Nat} {writes : List Bytes} {s : Segments}

theorem text_eq (s : Segments) : (s.live :: s.rotated).reverse.flatten = s.text := by
  rw [List.reverse_cons, List.flatten_append, List.flatten_singleton, text]

theorem text_rotate (s : Segments) (maxFiles : Nat) : (s.rotate maxFiles).text <:+ s.text := by
  have hsplit : (s.live :: s.rotated).reverse =
      ((s.live :: s.rotated).drop maxFiles).reverse ++
        ((s.live :: s.rotated).take maxFiles).reverse := by
    rw [← List.reverse_append, List.take_append_drop]
  rw [← s.text_eq, hsplit, List.flatten_append, rotate, text, List.append_nil]
  exact List.suffix_append _ _

theorem Keeps.rotate (h : Keeps maxSize maxFiles writes s) :
    Keeps maxSize maxFiles writes (s.rotate maxFiles) := by
  refine ⟨(text_rotate s maxFiles).trans h.suffix, ?_, List.length_take_le _ _, ?_⟩
  · -- A rotation that does not fill the last slot has dropped nothing.
    intro hroom
    rw [Segments.rotate, List.length_take, List.length_cons] at hroom
    have htext : (s.rotate maxFiles).text = s.text := by
      rw [Segments.rotate, text, List.append_nil, List.take_of_length_le (by simp; omega),
        s.text_eq]
    rw [htext]
    exact h.all (by omega)
  intro data hdata
  rcases List.mem_cons.mp hdata with rfl | hmem
  · exact Or.inl (Nat.zero_le _)
  · exact h.fits data (List.mem_of_mem_take hmem)

/-- A write that fits, or that is the first one of its segment. -/
theorem Keeps.append (h : Keeps maxSize maxFiles writes s)
    (hroom : s.live = [] ∨ s.live.length + clean.length ≤ maxSize) :
    Keeps maxSize maxFiles (writes ++ [clean]) (s.append clean) := by
  have htext : (s.append clean).text = s.text ++ clean := by
    simp [text, Segments.append]
  refine ⟨?_, ?_, h.few, ?_⟩
  · obtain ⟨dropped, hdropped⟩ := h.suffix
    refine ⟨dropped, ?_⟩
    rw [List.flatten_append, List.flatten_singleton, ← hdropped, htext, List.append_assoc]
  · intro hroom
    rw [htext, h.all hroom, List.flatten_append, List.flatten_singleton]
  · intro data hdata
    rcases List.mem_cons.mp hdata with rfl | hmem
    · rcases hroom with hempty | hfits
      · right
        simp [Segments.append, hempty]
      · left
        simpa [Segments.append] using hfits
    · rcases h.fits data (List.mem_cons_of_mem _ hmem) with hfits | hwrite
      · exact Or.inl hfits
      · exact Or.inr (List.mem_append_left _ hwrite)

theorem Keeps.write (h : Keeps maxSize maxFiles writes s) (clean : Bytes) :
    Keeps maxSize maxFiles (writes ++ [clean]) (s.write maxSize maxFiles clean) := by
  unfold Segments.write
  split_ifs with hfull
  · exact h.rotate.append (Or.inl rfl)
  · apply h.append
    rw [← List.length_eq_zero_iff]
    omega

theorem suffix_write (s : Segments) (maxSize maxFiles : Nat) (clean : Bytes) :
    clean <:+ (s.write maxSize maxFiles clean).live := by
  unfold Segments.write
  split_ifs
  · exact List.suffix_append _ _
  · exact List.suffix_append _ _

end Segments

def fileText (codec : Codec) (dir : Directory) : FileName → Option Bytes
  | .live => dir.lookup .live
  | .slot .plain number => dir.lookup (.slot .plain number)
  | .slot .gz number => (dir.lookup (.slot .gz number)).bind codec.gunzip

/-- A slot is empty, or has the text of a segment in one form. -/
def SlotHolds (codec : Codec) (dir : Directory) (number : Nat) : Option Bytes → Prop
  | none => ∀ form, dir.lookup (.slot form number) = none
  | some data => ∃ form, fileText codec dir (.slot form number) = some data ∧
      ∀ other, other ≠ form → dir.lookup (.slot other number) = none

structure Represents (codec : Codec) (dir : Directory) (s : Segments) : Prop where
  live : dir.lookup .live = some s.live
  zero : ∀ form, dir.lookup (.slot form 0) = none
  slots : ∀ number, SlotHolds codec dir (number + 1) s.rotated[number]?

section Represents

variable {codec : Codec} {dir dir' : Directory}

theorem SlotHolds.move (h : SlotHolds codec dir i data)
    (hsame : ∀ form, dir'.lookup (.slot form j) = dir.lookup (.slot form i)) :
    SlotHolds codec dir' j data := by
  cases data with
  | none =>
    intro form
    rw [hsame]
    exact h form
  | some data =>
    obtain ⟨form, htext, hother⟩ := h
    refine ⟨form, ?_, fun other hne => by rw [hsame, hother other hne]⟩
    rw [← htext]
    cases form with
    | plain => exact hsame .plain
    | gz => simp only [fileText, hsame .gz]

/-- The file that a rotation makes has the text of the live file. -/
theorem slotHolds_new (compress fails : Bool)
    (hslot : ∀ form, dir.lookup (.slot form 1) = if form = newForm compress fails then some
      (newData codec compress fails data) else none) : SlotHolds codec dir 1 (some data) := by
  refine ⟨newForm compress fails, ?_, fun other hne => by rw [hslot, if_neg hne]⟩
  have hnew := hslot (newForm compress fails)
  rw [if_pos rfl] at hnew
  unfold newForm newData at hnew
  unfold newForm
  split_ifs at hnew ⊢ with hcompressed
  · rw [fileText, hnew]
    exact codec.inverse data
  · exact hnew

/-- A rotation that succeeds rotates the segments. -/
theorem Represents.rotate {log : Log} (h : Represents codec log.dir s)
    (hpos : 0 < log.writer.settings.maxFiles)
    (hfew : s.rotated.length ≤ log.writer.settings.maxFiles)
    (hok : (log.rotate codec faults).1 = none) :
    Represents codec (log.rotate codec faults).2.dir (s.rotate log.writer.settings.maxFiles) := by
  obtain ⟨data, hlive, -, hempty, hslots⟩ := rotate_lookup hpos hok
  obtain rfl : data = s.live := Option.some.inj (hlive.symm.trans h.live)
  refine ⟨hempty, ?_, ?_⟩
  · intro form
    rw [hslots, if_pos (Or.inl rfl)]
    exact h.zero form
  · intro number
    rw [Segments.rotate, List.getElem?_take]
    by_cases hinside : number < log.writer.settings.maxFiles
    · rw [if_pos hinside]
      cases number with
      | zero =>
        apply slotHolds_new log.writer.settings.compress faults.gzip
        intro form
        rw [hslots, if_neg (by omega), if_pos rfl]
      | succ number =>
        apply (h.slots number).move
        intro form
        rw [hslots, if_neg (by omega), if_neg (by omega), Nat.add_sub_cancel]
    · rw [if_neg hinside]
      have hnone := h.slots number
      rw [List.getElem?_eq_none (by omega)] at hnone
      intro form
      rw [hslots, if_pos (Or.inr (by omega))]
      exact hnone form

theorem Represents.insert_live (h : Represents codec dir s) (data : Bytes) :
    Represents codec (dir.insert .live data) { s with live := data } := by
  refine ⟨by rw [GoMap.lookup_insert, if_pos rfl], ?_, ?_⟩
  · intro form
    rw [GoMap.lookup_insert, if_neg (by simp)]
    exact h.zero form
  · intro number
    apply (h.slots number).move
    intro form
    rw [GoMap.lookup_insert, if_neg (by simp)]

end Represents

inductive Event where
  | write (p : Bytes)
  | reopen (compress : Bool)
  deriving DecidableEq

def Log.after (codec : Codec) (log : Log) : Event → Log
  | .write p => (log.write codec noFaults p).2
  | .reopen compress => .openFile { log.writer.settings with compress } log.dir

def sanitizedWrites (events : List Event) : List Bytes :=
  events.filterMap fun event =>
    match event with
    | .write p => some (sanitize p)
    | .reopen _ => none

structure Tracks (codec : Codec) (maxSize maxFiles : Nat) (log : Log) (s : Segments) : Prop where
  maxSize_eq : log.writer.settings.maxSize = maxSize
  maxFiles_eq : log.writer.settings.maxFiles = maxFiles
  isOpen : log.writer.isOpen = true
  size : log.writer.size = s.live.length
  dir : Represents codec log.dir s

section Tracks

variable {codec : Codec} {maxSize maxFiles : Nat} {log : Log} {s : Segments}

theorem Tracks.append (h : Tracks codec maxSize maxFiles log s) (clean : Bytes) :
    Tracks codec maxSize maxFiles (log.append clean) (s.append clean) := by
  refine ⟨h.maxSize_eq, h.maxFiles_eq, h.isOpen, ?_, ?_⟩
  · simp [Log.append, Segments.append, h.size]
  · rw [Log.append, h.dir.live]
    exact h.dir.insert_live _

theorem Tracks.rotate (h : Tracks codec maxSize maxFiles log s) (hpos : 0 < maxFiles)
    (hfew : s.rotated.length ≤ maxFiles) :
    Tracks codec maxSize maxFiles (log.rotate codec noFaults).2 (s.rotate maxFiles) := by
  obtain ⟨hmaxSize, rfl, -, -, hdir⟩ := h
  have hok : (log.rotate codec noFaults).1 = none :=
    (rotate_ok_iff hpos).mpr ⟨rfl, rfl, _, hdir.live⟩
  obtain ⟨-, -, hwriter, -, -⟩ := rotate_lookup hpos hok
  refine ⟨?_, ?_, ?_, ?_, hdir.rotate hpos hfew hok⟩
  · rw [hwriter]
    exact hmaxSize
  · rw [hwriter]
  · rw [hwriter]
  · rw [hwriter]
    rfl

theorem Tracks.write (h : Tracks codec maxSize maxFiles log s) (hsize : 0 < maxSize)
    (hpos : 0 < maxFiles) (hfew : s.rotated.length ≤ maxFiles) (p : Bytes) :
    Tracks codec maxSize maxFiles (log.write codec noFaults p).2
      (s.write maxSize maxFiles (sanitize p)) := by
  have hneeds : log.needsRotation (sanitize p) = true ↔
      0 < s.live.length ∧ maxSize < s.live.length + (sanitize p).length := by
    simp [Log.needsRotation, h.maxSize_eq, h.size, hsize]
  -- The rotation comes first, in the log as in the segments.
  have hbefore : ∃ s', Tracks codec maxSize maxFiles (log.beforeWrite codec noFaults p) s' ∧
      s.write maxSize maxFiles (sanitize p) = s'.append (sanitize p) := by
    unfold Log.beforeWrite Segments.write
    by_cases hfull : log.needsRotation (sanitize p) = true
    · rw [if_pos hfull, if_pos (hneeds.mp hfull)]
      exact ⟨_, h.rotate hpos hfew, rfl⟩
    · rw [if_neg hfull, if_neg (fun hsegments => hfull (hneeds.mpr hsegments))]
      exact ⟨s, h, rfl⟩
  obtain ⟨s', hs', heq⟩ := hbefore
  rw [Log.write, if_pos hs'.isOpen, heq]
  exact hs'.append _

theorem Tracks.reopen (h : Tracks codec maxSize maxFiles log s) (compress : Bool) :
    Tracks codec maxSize maxFiles (log.after codec (.reopen compress)) s := by
  refine ⟨h.maxSize_eq, h.maxFiles_eq, rfl, ?_, ?_⟩
  · simp [Log.after, Log.openFile, h.dir.live]
  · have hsame := h.dir.insert_live s.live
    simpa [Log.after, Log.openFile, h.dir.live] using hsame

end Tracks

def startedLog (codec : Codec) (settings : Settings) (events : List Event) : Log :=
  events.foldl (Log.after codec) (.openFile settings ∅)

theorem startedLog_tracks (codec : Codec) (hsize : 0 < settings.maxSize) (events : List Event) :
    ∃ s, Tracks codec settings.maxSize settings.maxFiles (startedLog codec settings events) s ∧
      s.Keeps settings.maxSize settings.maxFiles (sanitizedWrites events) ∧
      ∀ clean, (sanitizedWrites events).getLast? = some clean → clean <:+ s.live := by
  induction events using List.reverseRecOn with
  | nil =>
      refine ⟨⟨[], []⟩, ⟨rfl, rfl, rfl, rfl, ?_⟩,
        ⟨List.suffix_refl _, fun _ => rfl, Nat.zero_le _, by simp⟩, ?_⟩
      · exact ⟨rfl, fun _ => rfl, fun _ _ => rfl⟩
      · intro clean hlast
        cases hlast
  | append_singleton events event ih =>
      obtain ⟨s, htracks, hkeeps, hlast⟩ := ih
      rw [startedLog, List.foldl_append, sanitizedWrites, List.filterMap_append]
      cases event with
      | write p =>
          refine ⟨_, htracks.write hsize (settings.keeps hsize) hkeeps.few p, hkeeps.write _, ?_⟩
          intro clean hclean
          obtain rfl : sanitize p = clean := by simpa using hclean
          exact Segments.suffix_write s _ _ _
      | reopen compress =>
          refine ⟨s, htracks.reopen compress, ?_⟩
          change s.Keeps _ _ (sanitizedWrites events ++ []) ∧
            ∀ clean, (sanitizedWrites events ++ []).getLast? = some clean → _
          rw [List.append_nil]
          exact ⟨hkeeps, hlast⟩

def slotText (codec : Codec) (dir : Directory) (number : Nat) : Bytes :=
  ((fileText codec dir (.slot .plain number)).or (fileText codec dir (.slot .gz number))).getD []

/-- The slots from the highest number down to the first one, then the live file. -/
def logText (codec : Codec) (dir : Directory) (highest : Nat) : Bytes :=
  ((List.range highest).reverse.map fun i => slotText codec dir (i + 1)).flatten ++
    (dir.lookup .live).getD []

variable {codec : Codec} {dir : Directory} {number : Nat}

theorem fileText_none (h : dir.lookup (.slot form number) = none) :
    fileText codec dir (.slot form number) = none := by
  cases form with
  | plain => exact h
  | gz => rw [fileText, h, Option.bind_none]

theorem SlotHolds.slotText (h : SlotHolds codec dir number data) :
    slotText codec dir number = data.getD [] := by
  unfold Logger.slotText
  cases data with
  | none => rw [fileText_none (h .plain), fileText_none (h .gz)]; rfl
  | some data =>
    obtain ⟨form, htext, hother⟩ := h
    cases form with
    | plain => rw [htext]; rfl
    | gz => rw [htext, fileText_none (hother .plain (by decide))]; rfl

theorem map_range_getD (l : List Bytes) (h : l.length ≤ n) :
    (List.range n).map (fun i => l[i]?.getD []) = l ++ List.replicate (n - l.length) [] := by
  apply List.ext_getElem?
  intro i
  rw [List.getElem?_map]
  rcases Nat.lt_or_ge i n with hin | hout
  · rw [List.getElem?_range hin, Option.map_some]
    rcases Nat.lt_or_ge i l.length with hleft | hright
    · rw [List.getElem?_append_left hleft, List.getElem?_eq_getElem hleft, Option.getD_some]
    · rw [List.getElem?_append_right hright, List.getElem?_replicate, if_pos (by omega),
        List.getElem?_eq_none hright, Option.getD_none]
  · rw [List.getElem?_eq_none (by simpa using hout), List.getElem?_eq_none (by simp; omega)]
    rfl

theorem Represents.logText (h : Represents codec dir s) (hfew : s.rotated.length ≤ highest) :
    logText codec dir highest = s.text := by
  have hslots : (List.range highest).map (fun i => Logger.slotText codec dir (i + 1)) =
      s.rotated ++ List.replicate (highest - s.rotated.length) [] := by
    rw [← map_range_getD s.rotated hfew]
    exact List.map_congr_left fun i _ => (h.slots i).slotText
  rw [Logger.logText, List.map_reverse, hslots, h.live]
  simp [Segments.text]

/-- A slot that is not empty holds a segment. -/
theorem Represents.exists_segment (h : Represents codec dir s)
    (hsome : (dir.lookup (.slot form number)).isSome) :
    ∃ data ∈ s.rotated, 0 < number ∧ number ≤ s.rotated.length ∧
      fileText codec dir (.slot form number) = some data ∧
      ∀ other, other ≠ form → dir.lookup (.slot other number) = none := by
  cases number with
  | zero =>
    rw [h.zero] at hsome
    cases hsome
  | succ number =>
    have hslot := h.slots number
    cases hsegment : s.rotated[number]? with
    | none =>
      rw [hsegment] at hslot
      rw [hslot form] at hsome
      cases hsome
    | some data =>
      rw [hsegment] at hslot
      obtain ⟨found, htext, hother⟩ := hslot
      have hlt : number < s.rotated.length := (List.getElem?_eq_some_iff.mp hsegment).1
      have hform : form = found := by
        by_contra hne
        rw [hother form hne] at hsome
        cases hsome
      subst hform
      exact ⟨data, List.mem_of_getElem? hsegment, Nat.succ_pos _, hlt, htext, hother⟩

/-- While the last slot is empty, not all slots are taken. -/
theorem Represents.length_lt (h : Represents codec dir s) (hpos : 0 < highest)
    (hempty : ∀ form, dir.lookup (.slot form highest) = none) : s.rotated.length < highest := by
  by_contra hfull
  have hslot := h.slots (highest - 1)
  rw [Nat.sub_add_cancel hpos, List.getElem?_eq_getElem (by omega)] at hslot
  obtain ⟨form, htext, -⟩ := hslot
  rw [fileText_none (hempty form)] at htext
  cases htext

/-- A log that was started in an empty directory keeps the end of its stream,
whichever writers had `compress` set: the live file ends with the last write, and
nothing is dropped before the last slot is taken. The size of the writer is that of the
file, and a file that is larger than `maxSize` holds one write. -/
theorem log_keeps_suffix (codec : Codec) (settings : Settings) (hsize : 0 < settings.maxSize)
    (events : List Event) :
    logText codec (startedLog codec settings events).dir settings.maxFiles <:+
        (sanitizedWrites events).flatten ∧
      ((∀ form, (startedLog codec settings events).dir.lookup
          (.slot form settings.maxFiles) = none) →
        logText codec (startedLog codec settings events).dir settings.maxFiles =
          (sanitizedWrites events).flatten) ∧
      (∀ form number, ((startedLog codec settings events).dir.lookup (.slot form number)).isSome →
        0 < number ∧ number ≤ settings.maxFiles ∧
          ∀ other, other ≠ form →
            (startedLog codec settings events).dir.lookup (.slot other number) = none) ∧
      (∃ data, (startedLog codec settings events).dir.lookup .live = some data ∧
        (startedLog codec settings events).writer.size = data.length ∧
        ∀ clean, (sanitizedWrites events).getLast? = some clean → clean <:+ data) ∧
      ∀ name, ((startedLog codec settings events).dir.lookup name).isSome →
        ∃ data, fileText codec (startedLog codec settings events).dir name = some data ∧
          (data.length ≤ settings.maxSize ∨ data ∈ sanitizedWrites events) := by
  obtain ⟨s, htracks, hkeeps, hlast⟩ := startedLog_tracks codec hsize events
  refine ⟨?_, ?_, ?_, ⟨s.live, htracks.dir.live, htracks.size, hlast⟩, ?_⟩
  · rw [htracks.dir.logText hkeeps.few]
    exact hkeeps.suffix
  · intro hempty
    rw [htracks.dir.logText hkeeps.few]
    exact hkeeps.all (htracks.dir.length_lt (settings.keeps hsize) hempty)
  · intro form number hsome
    obtain ⟨data, -, hpos, hle, -, hother⟩ := htracks.dir.exists_segment hsome
    exact ⟨hpos, hle.trans hkeeps.few, hother⟩
  · intro name hsome
    cases name with
    | live => exact ⟨s.live, htracks.dir.live, hkeeps.fits _ List.mem_cons_self⟩
    | slot form number =>
        obtain ⟨data, hdata, -, -, htext, -⟩ := htracks.dir.exists_segment hsome
        exact ⟨data, htext, hkeeps.fits data (List.mem_cons_of_mem _ hdata)⟩

/-- A log of two bytes and two rotated files that is compressed from its second
writer on: the first write is dropped, the other three are there. -/
theorem log_keeps_suffix_mixed :
    logText stored (startedLog stored ⟨2, 2, false, by decide⟩
        [.write (ascii "ab"), .write (ascii "cd"), .reopen true, .write (ascii "ef"),
          .write (ascii "gh")]).dir 2 = ascii "cdefgh" ∧
      ascii "cdefgh" <:+ ascii "abcdefgh" := by
  have hkept := (log_keeps_suffix stored ⟨2, 2, false, by decide⟩ (by decide)
    [.write (ascii "ab"), .write (ascii "cd"), .reopen true, .write (ascii "ef"),
      .write (ascii "gh")]).1
  have hvalue : logText stored (startedLog stored ⟨2, 2, false, by decide⟩
      [.write (ascii "ab"), .write (ascii "cd"), .reopen true, .write (ascii "ef"),
        .write (ascii "gh")]).dir 2 = ascii "cdefgh" := by decide +kernel
  exact ⟨hvalue, hvalue ▸ hkept⟩

end Gopherd.Logger
