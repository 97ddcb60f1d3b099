import Gopherd.Yaml.Quote

namespace Gopherd.Yaml

open Go

structure Written where
  indent : Nat
  text : Bytes
  deriving DecidableEq

def Written.raw (line : Written) : Bytes :=
  List.replicate line.indent space ++ line.text

def Written.at (line : Written) (num : Nat) : Line :=
  ⟨none, line.text, line.indent, num⟩

def render (lines : List Written) : Bytes :=
  lines.flatMap fun line => line.raw ++ [newline]

/-- The content lines of a document, up to their numbers. -/
def Laid : List Written → List Line → Prop
  | [], lines => lines = []
  | line :: written, lines => ∃ num rest, lines = line.at num :: rest ∧ Laid written rest

theorem laid_append :
    Laid (first ++ second) lines ↔
      ∃ before after, lines = before ++ after ∧ Laid first before ∧ Laid second after := by
  induction first generalizing lines with
  | nil => simp [Laid]
  | cons line first ih =>
    constructor
    · rintro ⟨num, rest, rfl, hrest⟩
      obtain ⟨before, after, rfl, hbefore, hafter⟩ := ih.mp hrest
      exact ⟨_ :: before, after, rfl, ⟨num, before, rfl, hbefore⟩, hafter⟩
    · rintro ⟨_, after, rfl, ⟨num, before, rfl, hbefore⟩, hafter⟩
      exact ⟨num, before ++ after, rfl, ih.mpr ⟨before, after, rfl, hbefore, hafter⟩⟩

theorem Laid.length_eq (h : Laid written lines) : lines.length = written.length := by
  induction written generalizing lines with
  | nil => exact congrArg List.length (show lines = [] from h)
  | cons line written ih =>
    obtain ⟨num, rest, rfl, hrest⟩ := h
    rw [List.length_cons, List.length_cons, ih hrest]

structure Content (text : Bytes) : Prop where
  front : SpaceFree spaceRunes text
  last : ∃ init b, text = init ++ [b] ∧ solid b = true
  noNewline : newline ∉ text
  noCarriageReturn : carriageReturn ∉ text
  noComment : ∀ previous, commentStart false false false previous text = none
  noBom : ¬ [0xEF, 0xBB, 0xBF] <+: text

namespace Content

variable {text : Bytes}

theorem tight (h : Content text) : Tight text := by
  obtain ⟨init, b, rfl, hb⟩ := h.last
  exact ⟨h.front, back_of_solid hb⟩

theorem ne (h : Content text) : text ≠ [] := by
  obtain ⟨init, b, rfl, -⟩ := h.last
  simp

theorem head_ne (h : Content text) (hc : [c] ∈ spaceRunes) : text.head? ≠ some c := by
  intro hhead
  obtain ⟨rest, rfl⟩ := List.head?_eq_some_iff.mp hhead
  exact h.front [c] hc (by simp)

theorem head_ne_hash (h : Content text) : text.head? ≠ some hash := by
  intro hhead
  obtain ⟨rest, rfl⟩ := List.head?_eq_some_iff.mp hhead
  have hcomment := h.noComment (some space)
  simp +decide [commentStart] at hcomment

/-- An item marker in front. -/
theorem dash (h : Content text) : Content (Yaml.dash ++ text) where
  front := spaceFree_cons spaceRunes_not_solid (by decide)
  last := by
    obtain ⟨init, b, rfl, hb⟩ := h.last
    exact ⟨Yaml.dash ++ init, b, by simp, hb⟩
  noNewline := by simpa +decide [Yaml.dash] using h.noNewline
  noCarriageReturn := by simpa +decide [Yaml.dash] using h.noCarriageReturn
  noComment := by
    intro previous
    refine commentStart_cons (by decide) (by decide) (by decide) ?_ previous
    exact commentStart_cons (by decide) (by decide) (by decide) (h.noComment _) _
  noBom := by simp +decide [Yaml.dash]

end Content

theorem blockIndicator_dash (text : Bytes) : blockIndicator (dash ++ text) = blockIndicator text :=
  rfl

section Lines

variable {line : Written}

theorem Content.raw_ne_nil (h : Content line.text) : line.raw ≠ [] := by
  simp [Written.raw, h.ne]

theorem Content.raw_head_ne_tab (h : Content line.text) : line.raw.head? ≠ some tab := by
  unfold Written.raw
  cases line.indent with
  | zero => simpa using h.head_ne (by decide)
  | succ n => simp +decide [List.replicate_succ]

/-- What `splitLines` does with a written line before it looks for a block
scalar. -/
theorem splitLines_raw (h : Content line.text) (num : Nat) (rest : List Bytes) :
    splitLines 0 num (line.raw :: rest) =
      match blockIndicator line.text with
      | none => do
          let lines ← splitLines 0 (num + 1) rest
          pure (line.at num :: lines)
      | some indicator => (do
          let (literal, taken) ← collectLiteralBlock num rest line.indent indicator
          let lines ← splitLines taken (num + 1) rest
          pure ({ line.at num with literal := some literal } :: lines)) := by
  have htrimmed : trimRight [space, tab, carriageReturn] line.raw = line.raw :=
    h.tight.trimRight h.ne _
  have hcontent : trimSpaces line.raw = line.text := h.tight.trimSpaces_indented _
  have hhash : startsWith [hash] line.text = false := by
    have hhead := h.head_ne_hash
    cases htext : line.text with
    | nil => rfl
    | cons b rest =>
      rw [htext, List.head?_cons, ne_eq, Option.some_inj] at hhead
      simp [startsWith, List.isPrefixOf, Ne.symm hhead]
  have hstrip : stripInlineComment line.text = line.text := by
    rw [stripInlineComment, h.noComment none]
  have hindent : leadingSpaces line.raw = line.indent :=
    leadingSpaces_indented (h.head_ne (by decide)) _
  rw [splitLines]
  simp only [htrimmed, hcontent, hhash, hstrip, hindent, h.raw_ne_nil, h.ne, h.raw_head_ne_tab,
    or_self, if_false, Bool.false_eq_true]
  rfl

end Lines

def numbered (num : Nat) : List Written → List Line
  | [] => []
  | line :: rest => line.at num :: numbered (num + 1) rest

theorem laid_numbered (num : Nat) (lines : List Written) : Laid lines (numbered num lines) := by
  induction lines generalizing num with
  | nil => rfl
  | cons line rest ih => exact ⟨num, _, rfl, ih _⟩

variable {lines : List Written}

theorem splitLines_raws (hcontent : ∀ line ∈ lines, Content line.text)
    (hplain : ∀ line ∈ lines, blockIndicator line.text = none) (num : Nat) :
    splitLines 0 num (lines.map Written.raw) = .ok (numbered num lines) := by
  induction lines generalizing num with
  | nil => rfl
  | cons line rest ih =>
    rw [List.forall_mem_cons] at hcontent hplain
    rw [List.map_cons, splitLines_raw hcontent.1, hplain.1]
    simp only [ih hcontent.2 hplain.2]
    rfl

def Unsupported (indicator : Bytes) : Prop :=
  indicator ∉ [[bar], [bar, hyphen], [bar, 43]]

/-- A line that seems to open a block scalar of another kind is an error. -/
theorem splitLines_unsupported (hcontent : ∀ line ∈ lines, Content line.text)
    (hunsupported : ∀ line ∈ lines, ∀ indicator,
      blockIndicator line.text = some indicator → Unsupported indicator)
    (hopens : ∃ line ∈ lines, blockIndicator line.text ≠ none) (num : Nat) :
    ∃ error, splitLines 0 num (lines.map Written.raw) = .error error := by
  induction lines generalizing num with
  | nil => simp at hopens
  | cons line rest ih =>
    rw [List.forall_mem_cons] at hcontent hunsupported
    rw [List.map_cons, splitLines_raw hcontent.1]
    cases hindicator : blockIndicator line.text with
    | none =>
      have hrest : ∃ line ∈ rest, blockIndicator line.text ≠ none := by
        obtain ⟨other, hmem, hother⟩ := hopens
        rcases List.mem_cons.mp hmem with rfl | hmem
        · exact absurd hindicator hother
        · exact ⟨other, hmem, hother⟩
      obtain ⟨error, herror⟩ := ih hcontent.2 hunsupported.2 hrest (num + 1)
      exact ⟨error, by simp only [herror]; rfl⟩
    | some indicator =>
      have hnot := hunsupported.1 indicator hindicator
      unfold Unsupported at hnot
      simp only [collectLiteralBlock, if_neg hnot]
      split_ifs
      · exact ⟨_, rfl⟩
      · exact ⟨_, rfl⟩

theorem normalizeNewlines_eq (h : carriageReturn ∉ data) : normalizeNewlines data = data := by
  fun_induction normalizeNewlines data with
  | case1 => rfl
  | case2 => simp at h
  | case3 => rfl
  | case4 => simp at h
  | case5 => simp at h
  | case6 c d rest hc ih => rw [ih (by simp_all)]

theorem render_eq_intercalate (lines : List Written) :
    render lines = [newline].intercalate (lines.map Written.raw ++ [[]]) := by
  induction lines with
  | nil => rfl
  | cons line rest ih =>
    have hrest : rest.map Written.raw ++ [[]] ≠ [] := by simp
    obtain ⟨next, more, hnext⟩ := List.exists_cons_of_ne_nil hrest
    rw [render, List.flatMap_cons, ← render, ih, List.map_cons, List.cons_append, hnext,
      List.intercalate_cons_cons]

theorem rawLines_render (hcontent : ∀ line ∈ lines, Content line.text) :
    rawLines (render lines) = lines.map Written.raw := by
  have hnewline : ∀ raw ∈ lines.map Written.raw ++ [[]], newline ∉ raw := by
    intro raw hraw
    rcases List.mem_append.mp hraw with hraw | hraw
    · obtain ⟨line, hline, rfl⟩ := List.mem_map.mp hraw
      have htext := (hcontent line hline).noNewline
      simp +decide [Written.raw, htext]
    · rw [List.mem_singleton.mp hraw]
      exact List.not_mem_nil
  rw [rawLines, render_eq_intercalate, List.splitOn_intercalate newline hnewline (by simp)]
  simp

theorem stripBOM_render (hcontent : ∀ line ∈ lines, Content line.text) :
    stripBOM (render lines) = render lines := by
  have hbom : startsWith [0xEF, 0xBB, 0xBF] (render lines) = false := by
    cases lines with
    | nil => rfl
    | cons line rest =>
      have hline := hcontent line (by simp)
      rw [startsWith, ← Bool.not_eq_true, List.isPrefixOf_iff_prefix, render, List.flatMap_cons,
        List.append_assoc]
      intro hfront
      have hraw : [0xEF, 0xBB, 0xBF] <+: line.raw :=
        prefix_of_prefix_append_cons (by decide) hfront
      unfold Written.raw at hraw
      cases hindent : line.indent with
      | zero =>
        rw [hindent] at hraw
        exact hline.noBom hraw
      | succ n =>
        rw [hindent, List.replicate_succ, List.cons_append, List.cons_prefix_cons] at hraw
        exact absurd hraw.1 (by decide)
  rw [stripBOM, hbom]
  rfl

theorem carriageReturn_not_mem_render (hcontent : ∀ line ∈ lines, Content line.text) :
    carriageReturn ∉ render lines := by
  intro h
  obtain ⟨line, hline, hmem⟩ := List.mem_flatMap.mp h
  have htext := (hcontent line hline).noCarriageReturn
  simp +decide [Written.raw, htext] at hmem

theorem contentLines_render (hcontent : ∀ line ∈ lines, Content line.text) :
    contentLines (render lines) = splitLines 0 1 (lines.map Written.raw) := by
  rw [contentLines, stripBOM_render hcontent,
    normalizeNewlines_eq (carriageReturn_not_mem_render hcontent), rawLines_render hcontent]

end Gopherd.Yaml
