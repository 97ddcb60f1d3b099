import Gopherd.Service.Placeholders

/-!
The division of a template into literal pieces and placeholders.
-/

namespace Gopherd

open Go Regex

inductive Piece where
  | literal (text : List Char)
  | envVar (source name : List Char) (default : Option (List Char))
  | file (source path mods : List Char) (default : Option (List Char))
  deriving DecidableEq

namespace Piece

def source : Piece → List Char
  | literal text => text
  | envVar source _ _ => source
  | file source _ _ _ => source

/-- What is put in its place: the value of the variable, the text of the file or the
default. -/
def value (files : Files) (env : GoMap String String) : Piece → Except TemplateError (List Char)
  | literal text => .ok text
  | envVar _ name default =>
    let value := ((env.lookup (String.ofList name)).getD "").toList
    .ok (if value = [] then default.getD [] else value)
  | file _ path mods default =>
    readFileTemplate files (String.ofList path) (contains mods "trim".toList)
      (contains mods "follow".toList) default

theorem value_literal (files : Files) (env : GoMap String String) (text : List Char) :
    (literal text).value files env = .ok text := rfl

/-- A placeholder has the form of one. -/
def WellFormed : Piece → Prop
  | literal _ => True
  | envVar source name default => VariableText source name default
  | file source path mods default => FileText source path mods default

end Piece

def spanned (s : List Char) (m : Match) : List Char :=
  (s.take m.stop).drop m.start

def filePiece (s : List Char) (m : Match) : Piece :=
  .file (spanned s m) ((submatch s m 1).getD []) ((submatch s m 2).getD []) (submatch s m 3)

def variablePiece (s : List Char) (m : Match) : Piece :=
  .envVar (spanned s m) ((submatch s m 1).getD []) (submatch s m 2)

/-- The placeholders of both kinds in a text. -/
def placeholders (s : List Char) : List (Match × Piece) :=
  (fileRe.findAll s).map (fun m => (m, filePiece s m)) ++
    (templateRe.findAll s).map (fun m => (m, variablePiece s m))

/-- The placeholders from left to right. -/
def references (s : List Char) : List (Match × Piece) :=
  (placeholders s).mergeSort fun a b => a.1.start ≤ b.1.start

/-- The pieces from an offset on; a placeholder that overlaps the one before it is passed
over. -/
def cutPieces (s : List Char) : Nat → List (Match × Piece) → List Piece
  | prev, [] => [.literal (s.drop prev)]
  | prev, (m, piece) :: rest =>
    if m.start < prev then cutPieces s prev rest
    else .literal ((s.take m.start).drop prev) :: piece :: cutPieces s m.stop rest

def division (s : List Char) : List Piece :=
  if contains s openBraces then cutPieces s 0 (references s) else [.literal s]

structure Reference (s : List Char) (ref : Match × Piece) : Prop where
  start_le : ref.1.start ≤ ref.1.stop
  stop_le : ref.1.stop ≤ s.length
  source_eq : ref.2.source = spanned s ref.1
  wellFormed : ref.2.WellFormed

variable {s : List Char} {refs : List (Match × Piece)} {m : Match}

theorem references_reference (h : ref ∈ references s) : Reference s ref := by
  rw [references, List.mem_mergeSort, placeholders, List.mem_append] at h
  rcases h with h | h
  · obtain ⟨m, hm, rfl⟩ := List.mem_map.mp h
    obtain ⟨hstart, hstop, hfile⟩ := mem_findAll_fileRe hm
    exact ⟨hstart, hstop, rfl, hfile⟩
  · obtain ⟨m, hm, rfl⟩ := List.mem_map.mp h
    obtain ⟨hstart, hstop, hvariable⟩ := mem_findAll_templateRe hm
    exact ⟨hstart, hstop, rfl, hvariable⟩

theorem drop_take_append (hle : i ≤ j) (hlength : j ≤ s.length) :
    (s.take j).drop i ++ s.drop j = s.drop i := by
  have hsplit := congrArg (List.drop i) (List.take_append_drop j s)
  rwa [List.drop_append_of_le_length (by simp; omega)] at hsplit

theorem source_cutPieces (hrefs : ∀ ref ∈ refs, Reference s ref) (prev : Nat) :
    (cutPieces s prev refs).flatMap Piece.source = s.drop prev := by
  induction refs generalizing prev with
  | nil => simp [cutPieces, Piece.source]
  | cons ref rest ih =>
    rw [List.forall_mem_cons] at hrefs
    rw [cutPieces]
    split_ifs with hoverlap
    · exact ih hrefs.2 prev
    · have href := hrefs.1
      rw [List.flatMap_cons, List.flatMap_cons, ih hrefs.2, href.source_eq, spanned,
        drop_take_append href.start_le href.stop_le]
      exact drop_take_append (Nat.not_lt.mp hoverlap) (href.start_le.trans href.stop_le)

theorem wellFormed_cutPieces (hrefs : ∀ ref ∈ refs, Reference s ref)
    (h : piece ∈ cutPieces s prev refs) : piece.WellFormed := by
  induction refs generalizing prev with
  | nil =>
    obtain rfl := List.mem_singleton.mp h
    exact trivial
  | cons ref rest ih =>
    rw [List.forall_mem_cons] at hrefs
    rw [cutPieces] at h
    split_ifs at h with hoverlap
    · exact ih hrefs.2 h
    · rcases List.mem_cons.mp h with rfl | h
      · exact trivial
      · rcases List.mem_cons.mp h with rfl | h
        · exact hrefs.1.wellFormed
        · exact ih hrefs.2 h

theorem source_division (s : List Char) : (division s).flatMap Piece.source = s := by
  unfold division
  split_ifs
  · rw [source_cutPieces fun _ => references_reference]
    rfl
  · simp [Piece.source]

theorem wellFormed_division (h : piece ∈ division s) : piece.WellFormed := by
  unfold division at h
  split_ifs at h
  · exact wellFormed_cutPieces (fun _ => references_reference) h
  · obtain rfl := List.mem_singleton.mp h
    exact trivial

/-- Behind the braces the first thing that is not white space tells the two kinds of
placeholders apart. -/
theorem blank_append_ne (hbefore : Blank before) (hbefore' : Blank before') (hc : ¬ Blank [c])
    (hc' : ¬ Blank [c']) (hne : c ≠ c') : before ++ c :: rest ≠ before' ++ c' :: rest' := by
  have hfirst {gap front tail tail' : List Char} {d d' : Char} (hgap : Blank (front ++ gap))
      (hd : ¬ Blank [d]) (heq : d :: tail = gap ++ d' :: tail') : d = d' := by
    cases gap with
    | nil => exact (List.cons.inj heq).1
    | cons first gap =>
      obtain ⟨rfl, -⟩ := List.cons.inj heq
      exact absurd (fun e he => hgap e (by simp_all)) hd
  intro heq
  rcases List.append_eq_append_iff.mp heq with ⟨gap, rfl, hrest⟩ | ⟨gap, rfl, hrest⟩
  · exact hne (hfirst hbefore' hc hrest)
  · exact hne (hfirst hbefore hc' hrest).symm

theorem spanned_append (s : List Char) (m : Match) (hle : m.start ≤ m.stop)
    (hlength : m.stop ≤ s.length) : s.drop m.start = spanned s m ++ s.drop m.stop :=
  (drop_take_append hle hlength).symm

theorem file_start_ne_variable_start (hm : m ∈ fileRe.findAll s) (hm' : m' ∈ templateRe.findAll s) :
    m.start ≠ m'.start := by
  intro heq
  obtain ⟨hstart, hstop, hfile⟩ := mem_findAll_fileRe hm
  obtain ⟨hstart', hstop', hvariable⟩ := mem_findAll_templateRe hm'
  obtain ⟨before, rest, hbefore, hsource⟩ := hfile.opens
  obtain ⟨before', rest', hbefore', hsource'⟩ := hvariable.opens
  have hsame : spanned s m ++ s.drop m.stop = spanned s m' ++ s.drop m'.stop := by
    rw [← spanned_append s m hstart hstop, ← spanned_append s m' hstart' hstop', heq]
  rw [spanned, spanned, hsource, hsource', List.append_assoc, List.append_assoc,
    List.append_assoc, List.append_assoc] at hsame
  exact blank_append_ne hbefore hbefore' (by simp [Blank]) (by simp [Blank]) (by decide)
    (List.append_cancel_left hsame)

theorem start_lt_stop (hopens : ∃ rest, spanned s m = openBraces ++ rest) : m.start < m.stop := by
  obtain ⟨rest, hsource⟩ := hopens
  have hlength := congrArg List.length hsource
  simp only [spanned, List.length_drop, List.length_take, List.length_append,
    show openBraces.length = 2 from rfl] at hlength
  omega

theorem start_injective {regex : Regex} (hne : ∀ m ∈ regex.findAll s, m.start < m.stop)
    (hm : m ∈ regex.findAll s) (hm' : m' ∈ regex.findAll s) (heq : m.start = m'.start) :
    m = m' := by
  have hordered : (regex.findAll s).Pairwise fun a b => a.start ≠ b.start :=
    (findAll_ordered regex s).imp_of_mem fun ha _ hle hstart =>
      absurd (hne _ ha) (by omega)
  have hsymm : Std.Symm fun a b : Match => a.start ≠ b.start := ⟨fun _ _ h => h.symm⟩
  by_contra hdiff
  exact hordered.forall hm hm' hdiff heq

/-- No two placeholders start at one place, so that a sort that is not stable still gives
one order. -/
theorem references_unique (hperm : refs.Perm (placeholders s))
    (hsorted : refs.Pairwise fun a b => a.1.start ≤ b.1.start) : refs = references s := by
  have hreferences : (references s).Perm (placeholders s) := List.mergeSort_perm _ _
  have hordered : (references s).Pairwise fun a b => a.1.start ≤ b.1.start := by
    have hmerge : (references s).Pairwise fun a b => decide (a.1.start ≤ b.1.start) = true :=
      List.pairwise_mergeSort (fun a b c => by simp; omega) (fun a b => by simp; omega) _
    simpa using hmerge
  refine List.Perm.eq_of_pairwise ?_ hsorted hordered (hperm.trans hreferences.symm)
  intro a b ha hb hab hba
  have hstart : a.1.start = b.1.start := le_antisymm hab hba
  have hfile : ∀ m ∈ fileRe.findAll s, m.start < m.stop := by
    intro m hm
    obtain ⟨_, _, -, hsource⟩ := (mem_findAll_fileRe hm).2.2.opens
    exact start_lt_stop ⟨_, hsource⟩
  have hvariable : ∀ m ∈ templateRe.findAll s, m.start < m.stop := by
    intro m hm
    obtain ⟨_, _, -, hsource⟩ := (mem_findAll_templateRe hm).2.2.opens
    exact start_lt_stop ⟨_, hsource⟩
  rw [hperm.mem_iff, placeholders, List.mem_append] at ha
  rw [hreferences.mem_iff, placeholders, List.mem_append] at hb
  rcases ha with ha | ha <;> obtain ⟨m, hm, rfl⟩ := List.mem_map.mp ha <;>
    rcases hb with hb | hb <;> obtain ⟨m', hm', rfl⟩ := List.mem_map.mp hb
  · rw [start_injective hfile hm hm' hstart]
  · exact absurd hstart (file_start_ne_variable_start hm hm')
  · exact absurd hstart.symm (file_start_ne_variable_start hm' hm)
  · rw [start_injective hvariable hm hm' hstart]

/-- A file in front of a variable. -/
theorem placeholders_sorted :
    let s := openBraces ++ "file \"a\"".toList ++ closeBraces ++ openBraces ++ ".A".toList ++
      closeBraces
    placeholders s = references s :=
  references_unique (.refl _) (by decide +kernel)

/-- The text with every piece replaced. -/
def fill (files : Files) (env : GoMap String String) (pieces : List Piece) :
    Except TemplateError (List Char) := do
  let texts ← pieces.mapM (Piece.value files env)
  pure texts.flatten

theorem fill_cons (files : Files) (env : GoMap String String) (piece : Piece)
    (rest : List Piece) :
    fill files env (piece :: rest) = (do
      let text ← piece.value files env
      let tail ← fill files env rest
      pure (text ++ tail)) := by
  simp [fill, List.mapM_cons]

theorem substitute_eq_fill (files : Files) (env : GoMap String String) (s : List Char)
    (refs : List (Match × Piece)) (prev : Nat) :
    substitute s prev (refs.map fun ref => (ref.1, ref.2.value files env)) =
      fill files env (cutPieces s prev refs) := by
  induction refs generalizing prev with
  | nil => simp [substitute, cutPieces, fill, Piece.value]
  | cons ref rest ih =>
    rw [List.map_cons, substitute, cutPieces]
    split_ifs with hoverlap
    · exact ih prev
    · rw [ih, fill_cons, fill_cons, Piece.value_literal]
      cases ref.2.value files env with
      | error error => rfl
      | ok text =>
        cases fill files env (cutPieces s ref.1.stop rest) with
        | error error => rfl
        | ok tail => exact congrArg Except.ok (List.append_assoc _ _ _)

theorem map_mergeSort_start {α β : Type} (f : α → β) (refs : List (Match × α)) :
    (refs.mergeSort fun a b => decide (a.1.start ≤ b.1.start)).map (fun ref => (ref.1, f ref.2)) =
      (refs.map fun ref => (ref.1, f ref.2)).mergeSort
        fun a b => decide (a.1.start ≤ b.1.start) :=
  List.map_mergeSort fun _ _ _ _ => rfl

/-- `ExpandRefs` fills the pieces of the text. -/
theorem expandRefs_eq_fill (files : Files) (env : GoMap String String) (s : List Char) :
    expandRefs files env s = fill files env (division s) := by
  unfold expandRefs division
  cases hbraces : contains s openBraces with
  | false => simp [fill, Piece.value]
  | true =>
    simp only [Bool.not_true, Bool.false_eq_true, if_false, if_true]
    rw [← substitute_eq_fill, references, map_mergeSort_start, placeholders,
      List.map_append, List.map_map, List.map_map]
    rfl

/-- The text that is left when memory and processors are replaced. -/
def sizesReplaced (machine : Machine) (s : List Char) : Except TemplateError (List Char) :=
  if contains s openBraces then do
    let s ← substitute s 0 ((memRe.findAll s).map fun m => (m, memValue machine s m))
    substitute s 0 ((cpuRe.findAll s).map fun m => (m, cpuValue machine s m))
  else .ok s

theorem expandTemplate_eq_fill (machine : Machine) (files : Files) (env : GoMap String String)
    (value : String) :
    expandTemplate machine files env value = (do
      let left ← sizesReplaced machine value.toList
      (fill files env (division left)).map String.ofList) := by
  unfold expandTemplate sizesReplaced
  cases hbraces : contains value.toList openBraces with
  | false =>
    simp [division, hbraces, fill, Piece.value, Except.map, pure, Except.pure, bind,
      Except.bind]
  | true =>
    simp only [expandRefs_eq_fill, hbraces, Bool.not_true, Bool.false_eq_true, if_false,
      if_true, bind_assoc]
    rfl

/-- Expansion is a single pass: the text that is left when memory and processors are
replaced has a division that no variable and no file can change, and every expansion
is its pieces with each placeholder replaced by what it stands for. The division is the
one by the matches of both expressions in that text, so that a text with placeholders is
not one literal piece. -/
theorem expansion_single_pass (machine : Machine) (value : String) :
    (∃ error, sizesReplaced machine value.toList = .error error ∧
      ∀ files env, expandTemplate machine files env value = .error error) ∨
    ∃ left, sizesReplaced machine value.toList = .ok left ∧
      (division left).flatMap Piece.source = left ∧
      (∀ piece ∈ division left, piece.WellFormed) ∧
      ∀ files env, expandTemplate machine files env value =
        (fill files env (division left)).map String.ofList := by
  cases hleft : sizesReplaced machine value.toList with
  | error error =>
      refine .inl ⟨error, rfl, fun files env => ?_⟩
      rw [expandTemplate_eq_fill, hleft]
      rfl
  | ok left =>
      refine .inr ⟨left, rfl, source_division left, fun _ => wellFormed_division,
        fun files env => ?_⟩
      rw [expandTemplate_eq_fill, hleft]
      rfl

end Gopherd
