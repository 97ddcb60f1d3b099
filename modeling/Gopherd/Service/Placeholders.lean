import Gopherd.Lib.RegexText
import Gopherd.Service.Template

/-!
The placeholders of files and of variables as texts, and that `fileRe` and `templateRe`
find nothing else: whichever way the matcher prefers, what it spans is such a text and
the groups are its parts.
-/

namespace Gopherd

open Go Regex

def Blank (s : List Char) : Prop :=
  ∀ c ∈ s, c ∈ ['\t', '\n', '\x0c', '\r', ' ']

def defaultText : Option (List Char) → List Char
  | none => []
  | some text => ":-".toList ++ text

def Default (default : Option (List Char)) : Prop :=
  ∀ text ∈ default, '\x7d' ∉ text

structure VariableText (source name : List Char) (default : Option (List Char)) : Prop where
  name_ne : name ≠ []
  name_word : ∀ c ∈ name, (c.isAlphanum || c = '_') = true
  default_closed : Default default
  source_eq : ∃ before between after, Blank before ∧ Blank between ∧ Blank after ∧
    source = openBraces ++ (before ++ ('.' :: (name ++ (between ++ (defaultText default ++
      (after ++ closeBraces))))))

inductive Modifiers : List Char → Prop
  | nil : Modifiers []
  | cons {gap word rest : List Char} (hne : gap ≠ []) (hgap : Blank gap)
      (hword : word = "trim".toList ∨ word = "follow".toList) (hrest : Modifiers rest) :
      Modifiers (gap ++ word ++ rest)

structure FileText (source path mods : List Char) (default : Option (List Char)) : Prop where
  path_ne : path ≠ []
  path_closed : '"' ∉ path
  modifiers : Modifiers mods
  default_closed : Default default
  source_eq : ∃ before gap after, Blank before ∧ gap ≠ [] ∧ Blank gap ∧ Blank after ∧
    source = openBraces ++ (before ++ ("file".toList ++ (gap ++ ('"' :: (path ++ ('"' ::
      (mods ++ (defaultText default ++ (after ++ closeBraces)))))))))

variable {source s text : List Char} {pos : Nat} {before after : Groups} {m : Match}

theorem VariableText.opens {default : Option (List Char)}
    (h : VariableText source name default) :
    ∃ before rest, Blank before ∧ source = openBraces ++ (before ++ '.' :: rest) := by
  obtain ⟨before, between, after, hbefore, -, -, hsource⟩ := h.source_eq
  exact ⟨before, _, hbefore, hsource⟩

theorem FileText.opens {default : Option (List Char)}
    (h : FileText source path mods default) :
    ∃ before rest, Blank before ∧ source = openBraces ++ (before ++ 'f' :: rest) := by
  obtain ⟨before, gap, after, hbefore, -, -, -, hsource⟩ := h.source_eq
  exact ⟨before, _, hbefore, hsource⟩

theorem takes_blanks (h : Takes (many blank) pos s before after) : Blank s ∧ after = before := by
  obtain ⟨hall, hgroups⟩ := takes_star_char h
  exact ⟨fun c hc => by simpa using hall c hc, hgroups⟩

theorem takes_defaultPart (h : Takes (defaultPart index) pos s before after) :
    ∃ default, s = defaultText default ∧ Default default ∧
      after = (default.elim [] fun text => [(index, pos + 2, pos + 2 + text.length)]) ++
        before := by
  rcases takes_opt h with hpart | ⟨rfl, rfl⟩
  · obtain ⟨mark, text, _, rfl, hmark, hgroup⟩ := takes_seq hpart
    obtain ⟨rfl, rfl⟩ := takes_literal hmark
    obtain ⟨_, hbody, rfl⟩ := takes_group hgroup
    obtain ⟨hclosed, rfl⟩ := takes_star_char hbody
    refine ⟨some text, rfl, ?_, rfl⟩
    rintro _ ⟨⟩ hbrace
    simpa using hclosed _ hbrace
  · refine ⟨none, rfl, ?_, rfl⟩
    rintro _ ⟨⟩

theorem takes_ending (h : Takes (all [defaultPart index, many blank, literal closeBraces]) pos s
      before groups) :
    ∃ default after, s = defaultText default ++ (after ++ closeBraces) ∧ Default default ∧
      Blank after ∧
      groups = (default.elim [] fun text => [(index, pos + 2, pos + 2 + text.length)]) ++
        before := by
  obtain ⟨_, _, _, rfl, hdefault, h⟩ := takes_seq h
  obtain ⟨default, rfl, hclosed, rfl⟩ := takes_defaultPart hdefault
  obtain ⟨after, _, _, rfl, hblanks, h⟩ := takes_seq h
  obtain ⟨hafter, rfl⟩ := takes_blanks hblanks
  obtain ⟨_, _, _, rfl, hclose, h⟩ := takes_seq h
  obtain ⟨rfl, rfl⟩ := takes_literal hclose
  obtain ⟨rfl, rfl⟩ := takes_all_nil h
  exact ⟨default, after, by simp, hclosed, hafter, rfl⟩

/-- A match of `templateRe` is the placeholder of a variable. -/
theorem takes_templateRe (h : Takes templateRe pos source [] groups) :
    ∃ name default, VariableText source name default ∧
      Captured groups pos source 1 (some name) ∧ Captured groups pos source 2 default := by
  obtain ⟨_, _, _, rfl, hopen, h⟩ := takes_seq h
  obtain ⟨rfl, rfl⟩ := takes_literal hopen
  obtain ⟨before, _, _, rfl, hblanks, h⟩ := takes_seq h
  obtain ⟨hbefore, rfl⟩ := takes_blanks hblanks
  obtain ⟨_, _, _, rfl, hdot, h⟩ := takes_seq h
  obtain ⟨rfl, rfl⟩ := takes_literal hdot
  obtain ⟨name, _, _, rfl, hgroup, h⟩ := takes_seq h
  obtain ⟨_, hname, rfl⟩ := takes_group hgroup
  obtain ⟨hne, hword, rfl⟩ := takes_plus_char hname
  obtain ⟨between, _, _, rfl, hblanks, h⟩ := takes_seq h
  obtain ⟨hbetween, rfl⟩ := takes_blanks hblanks
  obtain ⟨default, after, rfl, hclosed, hafter, rfl⟩ := takes_ending h
  refine ⟨name, default, ⟨hne, hword, hclosed, before, between, after, hbefore, hbetween,
    hafter, ?_⟩, ?_, ?_⟩
  · simp
  · refine ⟨openBraces ++ (before ++ ['.']), between ++ (defaultText default ++
      (after ++ closeBraces)), by simp, ?_⟩
    cases default <;> simp [List.lookup_cons, Nat.add_assoc]
  · cases default with
    | none => simp [Captured, List.lookup_cons]
    | some text =>
      refine ⟨openBraces ++ (before ++ ('.' :: (name ++ (between ++ ":-".toList)))),
        after ++ closeBraces, by simp [defaultText], ?_⟩
      simp [Nat.add_assoc]
      omega

theorem takes_modifiers
    (h : Takes (many (.seq (plus blank) (.alt (literal "trim".toList) (literal "follow".toList))))
      pos s before after) :
    Modifiers s ∧ after = before := by
  generalize hregex : many (.seq (plus blank)
    (.alt (literal "trim".toList) (literal "follow".toList))) = regex at h
  induction h with
  | done => exact ⟨.nil, rfl⟩
  | more hbody _ _ ihRest =>
    cases hregex
    obtain ⟨hrest, rfl⟩ := ihRest rfl
    obtain ⟨gap, word, _, rfl, hgap, hword⟩ := takes_seq hbody
    obtain ⟨hne, hblank, rfl⟩ := takes_plus_char hgap
    have hblanks : Blank gap := fun c hc => by simpa using hblank c hc
    cases hword with
    | left hword =>
      obtain ⟨rfl, rfl⟩ := takes_literal hword
      exact ⟨.cons hne hblanks (.inl rfl) hrest, rfl⟩
    | right hword =>
      obtain ⟨rfl, rfl⟩ := takes_literal hword
      exact ⟨.cons hne hblanks (.inr rfl) hrest, rfl⟩
  | _ => cases hregex

/-- A match of `fileRe` is the placeholder of a file. -/
theorem takes_fileRe (h : Takes fileRe pos source [] groups) :
    ∃ path mods default, FileText source path mods default ∧
      Captured groups pos source 1 (some path) ∧ Captured groups pos source 2 (some mods) ∧
      Captured groups pos source 3 default := by
  obtain ⟨_, _, _, rfl, hopen, h⟩ := takes_seq h
  obtain ⟨rfl, rfl⟩ := takes_literal hopen
  obtain ⟨before, _, _, rfl, hblanks, h⟩ := takes_seq h
  obtain ⟨hbefore, rfl⟩ := takes_blanks hblanks
  obtain ⟨_, _, _, rfl, hfile, h⟩ := takes_seq h
  obtain ⟨rfl, rfl⟩ := takes_literal hfile
  obtain ⟨gap, _, _, rfl, hgap, h⟩ := takes_seq h
  obtain ⟨hgapNe, hgapBlank, rfl⟩ := takes_plus_char hgap
  obtain ⟨_, _, _, rfl, hquote, h⟩ := takes_seq h
  obtain ⟨rfl, rfl⟩ := takes_literal hquote
  obtain ⟨path, _, _, rfl, hgroup, h⟩ := takes_seq h
  obtain ⟨_, hpath, rfl⟩ := takes_group hgroup
  obtain ⟨hpathNe, hpathChars, rfl⟩ := takes_plus_char hpath
  obtain ⟨_, _, _, rfl, hquote', h⟩ := takes_seq h
  obtain ⟨rfl, rfl⟩ := takes_literal hquote'
  obtain ⟨mods, _, _, rfl, hgroup', h⟩ := takes_seq h
  obtain ⟨_, hmods, rfl⟩ := takes_group hgroup'
  obtain ⟨hmodifiers, rfl⟩ := takes_modifiers hmods
  obtain ⟨default, after, rfl, hclosed, hafter, rfl⟩ := takes_ending h
  have hpathQuote : '"' ∉ path := fun hmem => by simpa using hpathChars _ hmem
  have hgapBlanks : Blank gap := fun c hc => by simpa using hgapBlank c hc
  refine ⟨path, mods, default, ⟨hpathNe, hpathQuote, hmodifiers, hclosed, before, gap, after,
    hbefore, hgapNe, hgapBlanks, hafter, ?_⟩, ?_, ?_, ?_⟩
  · simp
  · refine ⟨openBraces ++ (before ++ ("file".toList ++ (gap ++ ['"']))), '"' :: (mods ++
      (defaultText default ++ (after ++ closeBraces))), by simp, ?_⟩
    cases default <;> simp [List.lookup_cons, Nat.add_assoc] <;> omega
  · refine ⟨openBraces ++ (before ++ ("file".toList ++ (gap ++ ('"' :: (path ++ ['"']))))),
      defaultText default ++ (after ++ closeBraces), by simp, ?_⟩
    cases default <;> simp [List.lookup_cons, Nat.add_assoc] <;> omega
  · cases default with
    | none => simp [Captured, List.lookup_cons]
    | some text =>
      refine ⟨openBraces ++ (before ++ ("file".toList ++ (gap ++ ('"' :: (path ++ ('"' ::
        (mods ++ ":-".toList))))))), after ++ closeBraces, by simp [defaultText], ?_⟩
      simp [Nat.add_assoc]
      omega

/-- What `FindAllStringSubmatchIndex` gives for a group is its text. -/
theorem submatch_captured (htext : text = front ++ source ++ back)
    (hstart : m.start = front.length) (h : Captured m.groups m.start source index part) :
    submatch text m index = part := by
  cases part with
  | none => simp only [Captured] at h; simp [submatch, Match.group, h]
  | some inner =>
    obtain ⟨before, after, rfl, hlookup⟩ := h
    have hsplit : text = (front ++ before) ++ (inner ++ (after ++ back)) := by
      simp [htext]
    have hlength : m.start + before.length = (front ++ before).length := by
      simp [hstart]
    simp only [submatch, Match.group, hlookup, Option.map_some, hlength]
    rw [hsplit, ← List.append_assoc, ← List.length_append, List.take_left, List.drop_left]

/-- What `fileRe` finds in a text is the placeholder of a file. -/
theorem mem_findAll_fileRe (h : m ∈ fileRe.findAll text) :
    m.start ≤ m.stop ∧ m.stop ≤ text.length ∧
      FileText ((text.take m.stop).drop m.start) ((submatch text m 1).getD [])
        ((submatch text m 2).getD []) (submatch text m 3) := by
  have hspans := findAll_spans h
  refine ⟨hspans.le.1, hspans.le.2, ?_⟩
  obtain ⟨front, source, back, htext, hstart, hstop, htakes⟩ := hspans
  obtain ⟨path, mods, default, hfile, hpath, hmods, hdefault⟩ := takes_fileRe htakes
  rw [submatch_captured htext hstart hpath, submatch_captured htext hstart hmods,
    submatch_captured htext hstart hdefault, htext, hstart, hstop, ← List.length_append,
    List.take_left, List.drop_left]
  exact hfile

/-- What `templateRe` finds in a text is the placeholder of a variable. -/
theorem mem_findAll_templateRe (h : m ∈ templateRe.findAll text) :
    m.start ≤ m.stop ∧ m.stop ≤ text.length ∧
      VariableText ((text.take m.stop).drop m.start) ((submatch text m 1).getD [])
        (submatch text m 2) := by
  have hspans := findAll_spans h
  refine ⟨hspans.le.1, hspans.le.2, ?_⟩
  obtain ⟨front, source, back, htext, hstart, hstop, htakes⟩ := hspans
  obtain ⟨name, default, hvariable, hname, hdefault⟩ := takes_templateRe htakes
  rw [submatch_captured htext hstart hname, submatch_captured htext hstart hdefault, htext,
    hstart, hstop, ← List.length_append, List.take_left, List.drop_left]
  exact hvariable

end Gopherd
