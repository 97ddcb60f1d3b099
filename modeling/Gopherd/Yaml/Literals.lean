import Gopherd.Yaml.Alike
import Gopherd.Yaml.Siblings

/-!
Writing a literal block and reading it back. The lines of a text are written
under a header line, deeper than that line, with blank lines left empty.
-/

namespace Gopherd.Yaml

open Go

def writeLine (indent : Nat) (line : Bytes) : Bytes :=
  if line = [] then [] else List.replicate indent space ++ line

structure LiteralLines (headerIndent indent : Nat) (body : List Bytes) : Prop where
  deeper : headerIndent < indent
  noBreak : ∀ line ∈ body, newline ∉ line ∧ carriageReturn ∉ line
  visible : ∀ line ∈ body, line ≠ [] → isBlank line = false
  first : ∀ line ∈ body.find? (· ≠ []), line.head? ≠ some space

/-- What follows a body: the end of the input or a line that is not indented deeper than
the header line. -/
def EndsLiteral (headerIndent : Nat) (after : List Bytes) : Prop :=
  ∀ next ∈ after.head?, isBlank next = false ∧ leadingSpaces next ≤ headerIndent

/-- The text of the lines: without the blank lines at its end and their line breaks under
`|-`, with one line break behind the last of the other lines under `|`, and with all line
breaks under `|+`. -/
def literalValue (indicator : Bytes) (body : List Bytes) : Bytes :=
  if indicator = [bar, hyphen] then joinLines (body.rdropWhile (· = []))
  else if indicator = [bar, 43] then body.flatMap (· ++ [newline])
  else (body.rdropWhile (· = [])).flatMap (· ++ [newline])

theorem leadingSpaces_append (n : Nat) (s : Bytes) :
    leadingSpaces (List.replicate n space ++ s) = n + leadingSpaces s := by
  rw [leadingSpaces, List.takeWhile_append_of_pos (by simp), List.length_append,
    List.length_replicate, leadingSpaces]

theorem isBlank_writeLine (indent : Nat) (h : line ≠ [] → isBlank line = false) :
    isBlank (writeLine indent line) = decide (line = []) := by
  by_cases hline : line = []
  · simp [writeLine, hline, isBlank]
    rfl
  · rw [writeLine, if_neg hline, decide_eq_false hline]
    have hvisible : ¬ White line := by
      rw [← trimSpaces_eq_nil_iff]
      simpa [isBlank] using h hline
    rw [isBlank, decide_eq_false_iff_not, trimSpaces_eq_nil_iff]
    exact fun hwhite => hvisible hwhite.of_spaces_append

section Body

variable {headerIndent indent : Nat} {body after : List Bytes}

theorem literalBody_ends (hafter : EndsLiteral headerIndent after)
    (hdeeper : ∀ indent ∈ blockIndent, headerIndent < indent) :
    literalBody headerIndent blockIndent after = [] := by
  cases after with
  | nil => simp [literalBody]
  | cons next after =>
    obtain ⟨hvisible, hle⟩ := hafter next rfl
    cases blockIndent with
    | none => rw [literalBody_first hvisible, if_pos hle]
    | some indent =>
      have hlt := hdeeper indent rfl
      rw [literalBody_next hvisible, if_pos (by omega)]

/-- Behind the first visible line. -/
theorem literalBody_written_next (hdeeper : headerIndent < indent)
    (hvisible : ∀ line ∈ body, line ≠ [] → isBlank line = false)
    (hafter : EndsLiteral headerIndent after) :
    literalBody headerIndent (some indent) (body.map (writeLine indent) ++ after) = body := by
  induction body with
  | nil => exact literalBody_ends hafter (by simpa using hdeeper)
  | cons line body ih =>
    rw [List.forall_mem_cons] at hvisible
    have hblank := isBlank_writeLine indent hvisible.1
    rw [List.map_cons, List.cons_append]
    by_cases hline : line = []
    · rw [literalBody_blank (by rw [hblank, decide_eq_true hline]), ih hvisible.2, hline]
    · rw [literalBody_next (by simp [hblank, hline]), ih hvisible.2, writeLine, if_neg hline,
        if_neg (by rw [leadingSpaces_append]; omega), List.drop_left' (by simp)]

/-- What is written under a header line is read as its body. -/
theorem literalBody_written (h : LiteralLines headerIndent indent body)
    (hafter : EndsLiteral headerIndent after) :
    literalBody headerIndent none (body.map (writeLine indent) ++ after) = body := by
  obtain ⟨hdeeper, -, hvisible, hfirst⟩ := h
  induction body with
  | nil => exact literalBody_ends hafter (by simp)
  | cons line body ih =>
    rw [List.forall_mem_cons] at hvisible
    have hblank := isBlank_writeLine indent hvisible.1
    rw [List.map_cons, List.cons_append]
    by_cases hline : line = []
    · rw [List.find?_cons_of_neg (by simpa using hline)] at hfirst
      rw [literalBody_blank (by rw [hblank, decide_eq_true hline]), ih hvisible.2 hfirst, hline]
    · have hhead : line.head? ≠ some space :=
        hfirst line (by rw [List.find?_cons_of_pos (by simpa using hline)]; rfl)
      rw [literalBody_first (by simp [hblank, hline]), writeLine, if_neg hline,
        leadingSpaces_indented hhead, if_neg (Nat.not_le.mpr hdeeper),
        List.drop_left' (by simp), literalBody_written_next hdeeper hvisible.2 hafter]

end Body

variable {body : List Bytes}

theorem joinLines_append_newline (h : body ≠ []) :
    joinLines body ++ [newline] = body.flatMap (· ++ [newline]) := by
  induction body with
  | nil => exact absurd rfl h
  | cons line body ih =>
    cases body with
    | nil => simp [joinLines]
    | cons next body =>
      rw [List.flatMap_cons, ← ih (by simp), joinLines, List.intercalate_cons_cons, joinLines]
      simp

theorem joinLines_concat (h : body ≠ []) (line : Bytes) :
    joinLines (body ++ [line]) = joinLines body ++ newline :: line := by
  induction body with
  | nil => exact absurd rfl h
  | cons first body ih =>
    cases body with
    | nil => simp [joinLines, List.intercalate_cons_cons]
    | cons next body =>
      have hrest := ih (by simp)
      simp only [joinLines, List.cons_append, List.intercalate_cons_cons] at hrest ⊢
      rw [hrest]
      simp

/-- The line breaks at the end of a text are those of its blank lines. -/
theorem trimRight_joinLines (h : ∀ line ∈ body, newline ∉ line) :
    trimRight [newline] (joinLines body) = joinLines (body.rdropWhile (· = [])) := by
  induction body using List.reverseRecOn with
  | nil => rfl
  | append_singleton body line ih =>
    rw [List.forall_mem_append, List.forall_mem_singleton] at h
    by_cases hline : line = []
    · subst hline
      rw [List.rdropWhile_concat_pos _ _ _ (by simp), ← ih h.1]
      by_cases hbody : body = []
      · subst hbody
        rfl
      · rw [joinLines_concat hbody, trimRight, trimRight,
          List.rdropWhile_concat_pos _ _ _ (by simp)]
    · rw [List.rdropWhile_concat_neg _ _ _ (by simpa using hline)]
      obtain ⟨init, last, rfl⟩ := (List.eq_nil_or_concat' line).resolve_left hline
      have hlast : last ∉ [newline] := by
        intro hmem
        obtain rfl := List.mem_singleton.mp hmem
        exact h.2 (by simp)
      by_cases hbody : body = []
      · subst hbody
        simpa [joinLines] using trimRight_concat [newline] init hlast
      · rw [joinLines_concat hbody, ← List.cons_append, ← List.append_assoc]
        exact trimRight_concat _ _ hlast

theorem joinLines_rdropWhile_ne_nil (h : body.rdropWhile (· = []) ≠ []) :
    joinLines (body.rdropWhile (· = [])) ≠ [] := by
  have hlast := List.rdropWhile_last_not _ body h
  generalize body.rdropWhile (· = []) = content at h hlast
  obtain ⟨init, last, rfl⟩ := (List.eq_nil_or_concat' content).resolve_left h
  rw [List.getLast_concat] at hlast
  by_cases hinit : init = []
  · subst hinit
    simpa [joinLines] using hlast
  · rw [joinLines_concat hinit]
    simp

theorem chomp_eq (h : ∀ line ∈ body, newline ∉ line) :
    chomp indicator body = literalValue indicator body := by
  unfold chomp literalValue
  simp only [trimRight_joinLines h]
  split_ifs with hstrip hkeep hbody hempty
  · rfl
  · subst hbody
    rfl
  · exact joinLines_append_newline hbody
  · by_cases hcontent : body.rdropWhile (· = []) = []
    · rw [hcontent]
      rfl
    · exact absurd hempty (joinLines_rdropWhile_ne_nil hcontent)
  · refine joinLines_append_newline ?_
    intro hcontent
    rw [hcontent] at hempty
    exact hempty rfl

/-- The key or the item on the line with a number has a text as its value. -/
def Tree.Holds (tree : Tree) (num : Nat) (text : Bytes) : Prop :=
  (∃ entries, (Tree.mapping entries).Within tree ∧
      ∃ entry ∈ entries, entry.line.num = num ∧ entry.val = .scalar text) ∨
    ∃ items, (Tree.sequence items).Within tree ∧
      ∃ item ∈ items, item.line.num = num ∧ item.val = .scalar text

theorem Tree.Holds.within (h : part.Holds num text)
    (hwithin : ∀ other : Tree, other.Within part → other.Within tree) : tree.Holds num text := by
  rcases h with ⟨entries, hpart, hentry⟩ | ⟨items, hpart, hitem⟩
  · exact .inl ⟨entries, hwithin _ hpart, hentry⟩
  · exact .inr ⟨items, hwithin _ hpart, hitem⟩

/-- Each literal body of some lines is the value of the key or the item on its line. -/
def HoldsBodies (block : TreeReader) : Prop :=
  ∀ ⦃lines tree⦄, block lines tree → ∀ line ∈ lines, ∀ text, line.literal = some text →
    tree.Holds line.num text

section Holds

variable {block : TreeReader} {indent : Nat} {lines : List Line}

theorem EntriesTree.holds (hblock : HoldsBodies block)
    (h : EntriesTree block indent lines entries) :
    ∀ line ∈ lines, ∀ text, line.literal = some text →
      (Tree.mapping entries).Holds line.num text := by
  induction h with
  | nil => simp
  | @cons i line below rest val entries _ _ _ hvalue _ ih =>
    intro other hother text htext
    rcases List.mem_cons.mp hother with rfl | hother
    · cases hvalue with
      | literal hliteral =>
        cases hliteral.symm.trans htext
        exact .inl ⟨_, .refl, _, List.mem_cons_self, rfl, rfl⟩
      | inline hnone => simp [hnone] at htext
      | absent hnone => simp [hnone] at htext
      | child hnone => simp [hnone] at htext
    · rcases List.mem_append.mp hother with hother | hother
      · cases hvalue with
        | literal => simp at hother
        | inline => simp at hother
        | absent => simp at hother
        | child _ _ _ hval =>
          exact (hblock hval other hother text htext).within fun _ hpart =>
            .entry List.mem_cons_self hpart
      · rcases ih other hother text htext with ⟨others, hpart, hentry⟩ | ⟨items, hpart, hitem⟩
        · cases hpart with
          | refl =>
            obtain ⟨entry, hmem, hentry⟩ := hentry
            exact .inl ⟨_, .refl, entry, List.mem_cons_of_mem _ hmem, hentry⟩
          | entry hmem hpart =>
            exact .inl ⟨others, .entry (List.mem_cons_of_mem _ hmem) hpart, hentry⟩
        · cases hpart with
          | entry hmem hpart =>
            exact .inr ⟨items, .entry (List.mem_cons_of_mem _ hmem) hpart, hitem⟩

theorem ItemTree.holds (hblock : HoldsBodies block) (h : ItemTree block line below item)
    (hother : other ∈ line :: below) (htext : other.literal = some text) :
    item.Holds other.num text ∨ other = line ∧ item = .scalar text := by
  cases h with
  | literal hliteral =>
    obtain rfl := List.mem_singleton.mp hother
    cases hliteral.symm.trans htext
    exact .inr ⟨rfl, rfl⟩
  | inline hnone =>
    obtain rfl := List.mem_singleton.mp hother
    simp [hnone] at htext
  | block _ _ hitem => exact .inl (hblock hitem other hother text htext)

theorem ItemsTree.holds (hblock : HoldsBodies block) (h : ItemsTree block indent lines items) :
    ∀ line ∈ lines, ∀ text, line.literal = some text →
      (Tree.sequence items).Holds line.num text := by
  induction h with
  | nil => simp
  | @cons line below rest item items _ _ _ hitem _ ih =>
    have hfirst : ∀ other ∈ line.afterDash indent :: below, ∀ text, other.literal = some text →
        (Tree.sequence (⟨line.afterDash indent, item⟩ :: items)).Holds other.num text := by
      intro other hother text htext
      rcases hitem.holds hblock hother htext with hholds | ⟨rfl, rfl⟩
      · exact hholds.within fun _ hpart => .item List.mem_cons_self hpart
      · exact .inr ⟨_, .refl, _, List.mem_cons_self, rfl, rfl⟩
    intro other hother text htext
    rcases List.mem_cons.mp hother with rfl | hother
    · exact hfirst (other.afterDash indent) List.mem_cons_self text htext
    · rcases List.mem_append.mp hother with hother | hother
      · exact hfirst other (List.mem_cons_of_mem _ hother) text htext
      · rcases ih other hother text htext with ⟨entries, hpart, hentry⟩ | ⟨others, hpart, hmem⟩
        · cases hpart with
          | item hitem hpart =>
            exact .inl ⟨entries, .item (List.mem_cons_of_mem _ hitem) hpart, hentry⟩
        · cases hpart with
          | refl =>
            obtain ⟨found, hfound, hvalue⟩ := hmem
            exact .inr ⟨_, .refl, found, List.mem_cons_of_mem _ hfound, hvalue⟩
          | item hitem hpart =>
            exact .inr ⟨others, .item (List.mem_cons_of_mem _ hitem) hpart, hmem⟩

end Holds

theorem Outline.holds (depth : Nat) : HoldsBodies (Outline depth) := by
  induction depth with
  | zero =>
    intro lines tree h
    cases h
  | succ depth ih =>
    intro lines tree h
    cases h with
    | empty => simp
    | mapping _ hentries => exact hentries.holds ih
    | sequence _ hitems => exact hitems.holds ih

/-- Lines are split in the same way from any number on. -/
theorem SplitRead.renumber (h : SplitRead num raws lines) (num' : Nat) :
    ∃ lines', SplitRead num' raws lines' ∧ List.Forall₂ Alike lines lines' := by
  induction h generalizing num' with
  | nil => exact ⟨[], .nil, .nil⟩
  | skip hskip _ ih =>
    obtain ⟨lines', hread, halike⟩ := ih (num' + 1)
    exact ⟨lines', .skip hskip hread, halike⟩
  | plain hcontent hplain _ ih =>
    obtain ⟨lines', hread, halike⟩ := ih (num' + 1)
    exact ⟨_, .plain hcontent hplain hread, .cons ⟨rfl, rfl, rfl⟩ halike⟩
  | @literal num raw indicator rest body lines hcontent hindicator hsupported hbody _ ih =>
    obtain ⟨lines', hread, halike⟩ := ih (num' + 1 + body.length)
    exact ⟨_, .literal hcontent hindicator hsupported hbody hread, .cons ⟨rfl, rfl, rfl⟩ halike⟩

/-- The raw lines of a document with a literal body under a header line. -/
def literalRaws (pre : List Bytes) (header : Bytes) (indent : Nat) (body after : List Bytes) :
    List Bytes :=
  pre ++ header :: (body.map (writeLine indent) ++ after)

structure HostsLiteral (data : Bytes) (pre : List Bytes) (header : Bytes) (after : List Bytes) :
    Prop where
  accepted : ∃ node, parse data = .ok node
  written : ∃ indent body, LiteralLines (leadingSpaces header) indent body ∧
    documentLines data = literalRaws pre header indent body after
  opens : ∃ lines, contentLines data = .ok lines ∧
    ∃ line ∈ lines, line.num = pre.length + 1 ∧ line.literal ≠ none
  ends : EndsLiteral (leadingSpaces header) after

/-- Any other body in its place splits into lines that are alike. -/
theorem HostsLiteral.split {header : Bytes} (h : HostsLiteral data₀ pre header after)
    (hbody : LiteralLines (leadingSpaces header) indent body)
    (hraws : documentLines data = literalRaws pre header indent body after) :
    ∃ indicator lines₀ lines, blockIndicator (contentLine 0 header).text = some indicator ∧
      indicator ∈ [[bar], [bar, hyphen], [bar, 43]] ∧ contentLines data₀ = .ok lines₀ ∧
      contentLines data = .ok lines ∧ List.Forall₂ Alike lines₀ lines ∧
      ∃ line ∈ lines, line.num = pre.length + 1 ∧ line.literal = some (chomp indicator body) := by
  obtain ⟨indent₀, body₀, hbody₀, hraws₀⟩ := h.written
  obtain ⟨lines₀, hlines₀, line, hline, hnum, hliteral⟩ := h.opens
  obtain ⟨pre', raw, rest, above, below, hcutRaws, hcutNum, rfl, hcut, hrebuild⟩ :=
    (contentLines_iff.mp hlines₀).cut hline
  rw [hcutRaws, literalRaws] at hraws₀
  obtain ⟨rfl, hheader⟩ := List.append_inj hraws₀ (by omega)
  obtain ⟨rfl, rfl⟩ := List.cons.inj hheader
  obtain ⟨hcontent, indicator, hindicator, hsupported, hlineEq, hbelow⟩ :=
    hcut.literal_head hliteral
  have hindent : (contentLine line.num raw).indent = leadingSpaces raw :=
    contentLine_indent hcontent.visible
  rw [hindent, literalBody_written hbody₀ h.ends, List.drop_left' (by simp)] at hbelow
  -- What follows the body is split as before, from another number on.
  obtain ⟨below', hbelow', halike⟩ := hbelow.renumber (line.num + 1 + body.length)
  have hread : SplitRead line.num (raw :: (body.map (writeLine indent) ++ after))
      ({ contentLine line.num raw with literal := some (chomp indicator body) } :: below') := by
    refine .literal hcontent hindicator hsupported ?_ ?_
    · rw [hindent]
      exact literalBody_written hbody h.ends
    · rw [List.drop_left' (by simp)]
      exact hbelow'
  refine ⟨indicator, _, _, hindicator, hsupported, hlines₀, contentLines_iff.mpr ?_, ?_,
    { contentLine line.num raw with literal := some (chomp indicator body) },
    List.mem_append_right above (List.mem_cons_self (l := below')), hnum, rfl⟩
  · rw [hraws]
    exact hrebuild _ _ hread
  · have habove : List.Forall₂ Alike above above :=
      List.forall₂_same.mpr fun other _ => Alike.refl other
    refine List.rel_append habove (.cons ?_ halike)
    rw [hlineEq]
    exact ⟨rfl, rfl, rfl⟩

/-- Where a literal block is accepted with one body, every other body is accepted as well
and is the value of its key or item, with the trailing line breaks of its indicator. -/
theorem literal_round_trip {data₀ data : Bytes} {pre after body : List Bytes} {header : Bytes}
    {indent : Nat} (hhost : HostsLiteral data₀ pre header after)
    (hbody : LiteralLines (leadingSpaces header) indent body)
    (hraws : documentLines data = literalRaws pre header indent body after) :
    ∃ indicator node lines tree, blockIndicator (contentLine 0 header).text = some indicator ∧
      indicator ∈ [[bar], [bar, hyphen], [bar, 43]] ∧ parse data = .ok node ∧
      contentLines data = .ok lines ∧ Outline (maxParseDepth + 1) lines tree ∧ tree.node = node ∧
      tree.Holds (pre.length + 1) (literalValue indicator body) := by
  obtain ⟨indicator, lines₀, lines, hindicator, hsupported, hlines₀, hlines, halike, line, hline,
    hnum, hliteral⟩ := hhost.split hbody hraws
  obtain ⟨node₀, hparse₀⟩ := hhost.accepted
  obtain ⟨node, hparse⟩ := parse_alike hparse₀ hlines₀ hlines halike
  obtain ⟨lines', tree, hlines', htree, hnode⟩ := parse_outline hparse
  obtain rfl := Except.ok.inj (hlines.symm.trans hlines')
  refine ⟨indicator, node, lines, tree, hindicator, hsupported, hparse, hlines, htree, hnode, ?_⟩
  have hholds := Outline.holds _ htree line hline _ hliteral
  rwa [hnum, chomp_eq fun other hother => (hbody.noBreak other hother).1] at hholds

/-- A body of one blank line, or of none, has no line break under `|`. -/
theorem blank_body_without_newline :
    LiteralLines 0 2 [[]] ∧
      documentLines (ascii "a: |\n\n") = literalRaws [] (ascii "a: |") 2 [[]] [] ∧
      parse (ascii "a: |\n\n") = .ok (.mapping [(ascii "a", .scalar [])]) ∧
      parse (ascii "a: |\n") = .ok (.mapping [(ascii "a", .scalar [])]) := by
  refine ⟨⟨by decide, by decide, by simp, by simp⟩, ?_, ?_, ?_⟩
  · decide +kernel
  · decide +kernel
  · decide +kernel

def hostDocument : Bytes := ascii "a:\n  - b: 1\n    c: |\n  - d\n"

def scriptDocument : Bytes := ascii "a:\n  - b: 1\n    c: |\n      x\n\n        y\n  - d\n"

theorem hostDocument_hosts :
    HostsLiteral hostDocument [ascii "a:", ascii "  - b: 1"] (ascii "    c: |")
      [ascii "  - d"] where
  accepted := by
    have haccepted : (parse hostDocument).toOption.isSome = true := by decide +kernel
    obtain ⟨node, hnode⟩ := Option.isSome_iff_exists.mp haccepted
    exact ⟨node, Except.toOption_eq_some.mp hnode⟩
  written := by
    refine ⟨6, [], ⟨by decide +kernel, by simp, by simp, by simp⟩, ?_⟩
    decide +kernel
  opens := by
    have hopens : (contentLines hostDocument).toOption.map
        (fun lines => lines.any fun line => line.num = 3 && line.literal.isSome) = some true := by
      decide +kernel
    obtain ⟨lines, hlines, htest⟩ := Option.map_eq_some_iff.mp hopens
    obtain ⟨line, hline, htest⟩ := List.any_eq_true.mp htest
    rw [Bool.and_eq_true, decide_eq_true_eq] at htest
    exact ⟨lines, Except.toOption_eq_some.mp hlines, line, hline, htest.1,
      Option.isSome_iff_ne_none.mp htest.2⟩
  ends := by
    rintro _ ⟨⟩
    decide +kernel

theorem scriptDocument_read : ∃ node lines tree, parse scriptDocument = .ok node ∧
    contentLines scriptDocument = .ok lines ∧ Outline (maxParseDepth + 1) lines tree ∧
    tree.node = node ∧ tree.Holds 3 (ascii "x\n\n  y\n") := by
  have hbody : LiteralLines (leadingSpaces (ascii "    c: |")) 6
      [ascii "x", [], ascii "  y"] := by
    refine ⟨by decide +kernel, ?_, ?_, ?_⟩
    · decide +kernel
    · have hvisible : [ascii "x", [], ascii "  y"].all
          (fun line => line = [] || !isBlank line) = true := by decide +kernel
      intro line hline hne
      simpa [hne] using List.all_eq_true.mp hvisible line hline
    · rintro _ ⟨⟩
      decide +kernel
  have hraws : documentLines scriptDocument = literalRaws [ascii "a:", ascii "  - b: 1"]
      (ascii "    c: |") 6 [ascii "x", [], ascii "  y"] [ascii "  - d"] := by decide +kernel
  obtain ⟨indicator, node, lines, tree, hindicator, -, hparse, hlines, htree, hnode, hholds⟩ :=
    literal_round_trip hostDocument_hosts hbody hraws
  have hbar : blockIndicator (contentLine 0 (ascii "    c: |")).text = some [bar] := by
    decide +kernel
  cases hindicator.symm.trans hbar
  exact ⟨node, lines, tree, hparse, hlines, htree, hnode, hholds⟩

end Gopherd.Yaml
