import Gopherd.Yaml.Split

/-!
The column of a line. Lines are trimmed of white space of every kind, but
placed by the number of spaces in front of them, and a tab is refused in the
first column only.
-/

namespace Gopherd.Yaml

open Go

/-- What stands before the first visible character of a line. -/
def leadingWhite (raw : Bytes) : Bytes :=
  raw.take (raw.length - (trimRunes spaceRunes raw.length raw).length)

/-- What stands behind the spaces in front of a line begins with further white space. -/
def whiteBehindSpaces (raw : Bytes) : Bool :=
  spaceRunes.any fun rune => rune.isPrefixOf (raw.dropWhile (· = space))

/-- How many of the lines below a line are the body of the literal block it opens. -/
def bodyLength (raw : Bytes) (rest : List Bytes) : Nat :=
  if isBlank raw || isComment raw || (blockIndicator (contentLine 0 raw).text).isNone then 0
  else (literalBody (contentLine 0 raw).indent none rest).length

/-- The lines outside of literal blocks, with their numbers. The first `skip` lines belong
to a block; `num` is the number of the next line. -/
def outside : Nat → Nat → List Bytes → List (Nat × Bytes)
  | _, _, [] => []
  | skip + 1, num, _ :: rest => outside skip (num + 1) rest
  | 0, num, raw :: rest => (num, raw) :: outside (bodyLength raw rest) (num + 1) rest

theorem not_whiteBehindSpaces_iff :
    whiteBehindSpaces raw = false ↔ SpaceFree spaceRunes (raw.dropWhile (· = space)) := by
  simp [whiteBehindSpaces, SpaceFree]

theorem eq_spaces_append (raw : Bytes) :
    raw = List.replicate (leadingSpaces raw) space ++ raw.dropWhile (· = space) := by
  have hspaces : raw.takeWhile (· = space) = List.replicate (leadingSpaces raw) space := by
    refine List.eq_replicate_iff.mpr ⟨rfl, ?_⟩
    intro b hb
    simpa using List.mem_takeWhile_imp hb
  rw [← hspaces, List.takeWhile_append_dropWhile]

theorem leadingWhite_append (raw : Bytes) :
    leadingWhite raw ++ trimRunes spaceRunes raw.length raw = raw := by
  have hsuffix := trimRunes_isSuffix spaceRunes raw.length raw
  unfold leadingWhite
  generalize trimRunes spaceRunes raw.length raw = rest at hsuffix
  obtain ⟨front, rfl⟩ := hsuffix
  simp

theorem leadingWhite_eq_spaces (h : whiteBehindSpaces raw = false) :
    leadingWhite raw = List.replicate (leadingSpaces raw) space := by
  have hfree := not_whiteBehindSpaces_iff.mp h
  have hraw := eq_spaces_append raw
  have htrim := trimRunes_replicate hfree (leadingSpaces raw) (raw.dropWhile (· = space)).length
  have hlength := congrArg List.length hraw
  rw [List.length_append, List.length_replicate] at hlength
  rw [← hraw, ← hlength] at htrim
  have happend := leadingWhite_append raw
  rw [htrim] at happend
  exact List.append_cancel_right (happend.trans hraw)

/-- Only spaces stand in front of a line exactly when no white space stands behind them. -/
theorem leadingWhite_spaces_iff :
    (∀ b ∈ leadingWhite raw, b = space) ↔ whiteBehindSpaces raw = false := by
  constructor
  · intro hspaces
    have hfree : SpaceFree spaceRunes (trimRunes spaceRunes raw.length raw) :=
      spaceFree_trimRunes (Nat.le_refl _)
    have hraw := leadingWhite_append raw
    generalize trimRunes spaceRunes raw.length raw = rest at hfree hraw
    rw [not_whiteBehindSpaces_iff, ← hraw, List.dropWhile_append_of_pos (by simpa using hspaces)]
    cases rest with
    | nil => exact hfree
    | cons b rest =>
      have hne : b ≠ space := by
        rintro rfl
        exact hfree [space] (by decide) (by simp)
      rwa [List.dropWhile_cons_of_neg (by simpa using hne)]
  · intro h b hb
    rw [leadingWhite_eq_spaces h] at hb
    exact List.eq_of_mem_replicate hb

/-- The indentation is the column of the text. -/
theorem contentLine_column (hvisible : isBlank raw = false) (h : whiteBehindSpaces raw = false) :
    (contentLine num raw).indent = (leadingWhite raw).length ∧
      (contentLine num raw).text <+: raw.drop (contentLine num raw).indent := by
  have hindent : (contentLine num raw).indent = leadingSpaces raw := contentLine_indent hvisible
  refine ⟨by rw [hindent, leadingWhite_eq_spaces h, List.length_replicate], ?_⟩
  have htext : (contentLine num raw).text <+: visibleText raw := stripInlineComment_isPrefix _
  refine htext.trans ?_
  rw [hindent]
  have hspaces : leadingSpaces (trimRight [space, tab, carriageReturn] raw) = leadingSpaces raw :=
    hindent
  obtain ⟨blanks, hblanks⟩ := trimRight_isPrefix [space, tab, carriageReturn] raw
  unfold visibleText
  generalize trimRight [space, tab, carriageReturn] raw = front at hspaces hblanks
  have hfront := eq_spaces_append front
  have hraw := eq_spaces_append raw
  rw [hspaces] at hfront
  -- The visible part begins behind the spaces, with or without the blanks at the end.
  have hrest : front.dropWhile (· = space) <+: raw.dropWhile (· = space) := by
    have hboth : List.replicate (leadingSpaces raw) space ++
        (front.dropWhile (· = space) ++ blanks) =
        List.replicate (leadingSpaces raw) space ++ raw.dropWhile (· = space) := by
      rw [← List.append_assoc, ← hfront, hblanks]
      exact hraw
    exact ⟨blanks, List.append_cancel_left hboth⟩
  have hfree : SpaceFree spaceRunes (front.dropWhile (· = space)) := by
    intro rune hrune hprefixed
    exact not_whiteBehindSpaces_iff.mp h rune hrune (hprefixed.trans hrest)
  have hdrop : raw.drop (leadingSpaces raw) = raw.dropWhile (· = space) := by
    have hsplit := congrArg (List.drop (leadingSpaces raw)) hraw
    rwa [List.drop_left' (by simp)] at hsplit
  rw [hdrop]
  refine List.IsPrefix.trans ?_ hrest
  have htrim : trimSpaces front = trimSpaces (front.dropWhile (· = space)) := by
    conv_lhs => rw [hfront]
    simp only [trimSpaces]
    rw [List.length_append, List.length_replicate, trimRunes_replicate hfree,
      trimRunes_of_spaceFree hfree]
  rw [htrim]
  exact hfree.trimSpaces_isPrefix

theorem outside_skip (skip num : Nat) (raws : List Bytes) :
    outside skip num raws = outside 0 (num + skip) (raws.drop skip) := by
  induction skip generalizing num raws with
  | zero => rfl
  | succ skip ih =>
    cases raws with
    | nil => simp [outside]
    | cons raw rest =>
      rw [outside, ih, List.drop_succ_cons]
      congr 1
      omega

/-- The lines outside of literal blocks, along the reading. -/
theorem SplitRead.outside (h : SplitRead num raws lines) :
    (∀ item ∈ Yaml.outside 0 num raws, isBlank item.2 = false → item.2.head? ≠ some tab) ∧
      ∀ line ∈ lines, ∃ raw, (line.num, raw) ∈ Yaml.outside 0 num raws ∧ isBlank raw = false ∧
        line.text = (contentLine line.num raw).text ∧
        line.indent = (contentLine line.num raw).indent := by
  induction h with
  | nil => simp [Yaml.outside]
  | @skip num raw rest lines hskip _ ih =>
    have hzero : bodyLength raw rest = 0 := by
      rcases hskip with hskip | hskip
      · simp [bodyLength, hskip]
      · simp [bodyLength, hskip.2]
    rw [Yaml.outside, hzero]
    refine ⟨List.forall_mem_cons.mpr ⟨?_, ih.1⟩, ?_⟩
    · intro hvisible
      rcases hskip with hskip | hskip
      · simp [hvisible] at hskip
      · exact hskip.1
    · intro line hline
      obtain ⟨raw', hmem, hline⟩ := ih.2 line hline
      exact ⟨raw', List.mem_cons_of_mem _ hmem, hline⟩
  | @plain num raw rest lines hcontent hplain _ ih =>
    have hzero : bodyLength raw rest = 0 := by
      have hnone : blockIndicator (contentLine 0 raw).text = none := hplain
      simp [bodyLength, hnone]
    rw [Yaml.outside, hzero]
    refine ⟨List.forall_mem_cons.mpr ⟨fun _ => hcontent.noTab, ih.1⟩, ?_⟩
    rw [List.forall_mem_cons]
    refine ⟨⟨raw, List.mem_cons_self, hcontent.visible, rfl, rfl⟩, ?_⟩
    intro line hline
    obtain ⟨raw', hmem, hline⟩ := ih.2 line hline
    exact ⟨raw', List.mem_cons_of_mem _ hmem, hline⟩
  | @literal num raw indicator rest body lines hcontent hindicator _ hbody _ ih =>
    have hlength : bodyLength raw rest = body.length := by
      have hsome : blockIndicator (contentLine 0 raw).text = some indicator := hindicator
      have hlines : literalBody (contentLine 0 raw).indent none rest = body := hbody
      simp [bodyLength, hcontent.visible, hcontent.noComment, hsome, hlines]
    rw [Yaml.outside, hlength, outside_skip]
    refine ⟨List.forall_mem_cons.mpr ⟨fun _ => hcontent.noTab, ih.1⟩, ?_⟩
    rw [List.forall_mem_cons]
    refine ⟨⟨raw, List.mem_cons_self, hcontent.visible, rfl, rfl⟩, ?_⟩
    intro line hline
    obtain ⟨raw', hmem, hline⟩ := ih.2 line hline
    exact ⟨raw', List.mem_cons_of_mem _ hmem, hline⟩

/-- Only spaces stand in front of the lines of an accepted document outside of literal
blocks, and each content line is placed by the column of its text, exactly when white
space of another kind stands in front of a line only as a tab in the first column. -/
theorem indentation_exact_iff {data : Bytes} {node : Node Bytes} (hparse : parse data = .ok node) :
    ∃ lines, contentLines data = .ok lines ∧
      (((∀ item ∈ outside 0 1 (documentLines data), isBlank item.2 = false →
            ∀ b ∈ leadingWhite item.2, b = space) ∧
          ∀ line ∈ lines, ∃ raw, (line.num, raw) ∈ outside 0 1 (documentLines data) ∧
            line.indent = (leadingWhite raw).length ∧ line.text <+: raw.drop line.indent) ↔
        ∀ item ∈ outside 0 1 (documentLines data), isBlank item.2 = false →
          whiteBehindSpaces item.2 = true → item.2.head? = some tab) := by
  obtain ⟨lines, hlines, -⟩ := Except.bind_eq_ok.mp hparse
  obtain ⟨hnoTab, horigin⟩ := (contentLines_iff.mp hlines).outside
  refine ⟨lines, hlines, ?_⟩
  constructor
  · rintro ⟨hspaces, -⟩ item hitem hvisible hwhite
    rw [leadingWhite_spaces_iff.mp (hspaces item hitem hvisible)] at hwhite
    cases hwhite
  · intro hcondition
    have hclean : ∀ item ∈ outside 0 1 (documentLines data), isBlank item.2 = false →
        whiteBehindSpaces item.2 = false := by
      intro item hitem hvisible
      cases hwhite : whiteBehindSpaces item.2 with
      | false => rfl
      | true => exact absurd (hcondition item hitem hvisible hwhite) (hnoTab item hitem hvisible)
    refine ⟨?_, ?_⟩
    · intro item hitem hvisible
      exact leadingWhite_spaces_iff.mpr (hclean item hitem hvisible)
    · intro line hline
      obtain ⟨raw, hmem, hvisible, htext, hindent⟩ := horigin line hline
      rw [htext, hindent]
      exact ⟨raw, hmem, contentLine_column hvisible (hclean _ hmem hvisible)⟩

/-- A tab behind a space, and two no-break spaces: the key in the third column is placed
in the second and in the first one. -/
theorem white_indentation_accepted :
    leadingWhite (ascii " \tb: 1") = [space, tab] ∧
      parse (ascii "a:\n \tb: 1\n c: 2\n") =
        .ok (.mapping [(ascii "a", .mapping [(ascii "b", .scalar (ascii "1")),
          (ascii "c", .scalar (ascii "2"))])]) ∧
      parse (ascii "a:\n  b: 1\n" ++ [0xC2, 0xA0, 0xC2, 0xA0] ++ ascii "c: 2\n") =
        .ok (.mapping [(ascii "a", .mapping [(ascii "b", .scalar (ascii "1"))]),
          (ascii "c", .scalar (ascii "2"))]) := by
  decide +kernel

def indentedDocument : Bytes :=
  ascii "a:\n  b: |\n    \tx\n  c: 1\n"

theorem indentedDocument_exact :
    ∃ node lines, parse indentedDocument = .ok node ∧ contentLines indentedDocument = .ok lines ∧
      (∀ item ∈ outside 0 1 (documentLines indentedDocument), isBlank item.2 = false →
        ∀ b ∈ leadingWhite item.2, b = space) ∧
      ∀ line ∈ lines, ∃ raw, (line.num, raw) ∈ outside 0 1 (documentLines indentedDocument) ∧
        line.indent = (leadingWhite raw).length ∧ line.text <+: raw.drop line.indent := by
  have haccepted : (parse indentedDocument).toOption.isSome = true := by decide +kernel
  have hcondition : (outside 0 1 (documentLines indentedDocument)).all
      (fun item => !whiteBehindSpaces item.2) = true := by decide +kernel
  obtain ⟨node, hnode⟩ := Option.isSome_iff_exists.mp haccepted
  have hparse := Except.toOption_eq_some.mp hnode
  obtain ⟨lines, hlines, hiff⟩ := indentation_exact_iff hparse
  refine ⟨node, lines, hparse, hlines, hiff.mpr ?_⟩
  intro item hitem _ hwhite
  have hclean := List.all_eq_true.mp hcondition item hitem
  simp [hwhite] at hclean

end Gopherd.Yaml
