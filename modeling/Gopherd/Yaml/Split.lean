import Gopherd.Go.Blank
import Gopherd.Yaml.Encode

/-!
How the lines of a document are split.
-/

namespace Gopherd.Yaml

open Go

/-- The raw lines of a document. -/
def documentLines (data : Bytes) : List Bytes :=
  rawLines (normalizeNewlines (stripBOM data))

def isBlank (raw : Bytes) : Bool :=
  trimSpaces raw = []

/-- What stands on a raw line, without the white space around it. -/
def visibleText (raw : Bytes) : Bytes :=
  trimSpaces (trimRight [space, tab, carriageReturn] raw)

def isComment (raw : Bytes) : Bool :=
  startsWith [hash] (visibleText raw)

/-- The content line of a raw line, without a literal body. -/
def contentLine (num : Nat) (raw : Bytes) : Line :=
  ⟨none, stripInlineComment (visibleText raw),
    leadingSpaces (trimRight [space, tab, carriageReturn] raw), num⟩

variable {num : Nat} {raw : Bytes} {rest raws : List Bytes} {lines : List Line}

theorem contentLine_indent (h : isBlank raw = false) :
    (contentLine num raw).indent = leadingSpaces raw :=
  leadingSpaces_trimRight (by simpa [isBlank] using h)

structure IsContent (raw : Bytes) : Prop where
  visible : isBlank raw = false
  noTab : raw.head? ≠ some tab
  noComment : isComment raw = false

inductive SplitRead : Nat → List Bytes → List Line → Prop
  | nil {num : Nat} : SplitRead num [] []
  | skip {num : Nat} {raw : Bytes} {rest : List Bytes} {lines : List Line}
      (hskip : isBlank raw = true ∨ raw.head? ≠ some tab ∧ isComment raw = true)
      (hrest : SplitRead (num + 1) rest lines) : SplitRead num (raw :: rest) lines
  | plain {num : Nat} {raw : Bytes} {rest : List Bytes} {lines : List Line}
      (hcontent : IsContent raw) (hplain : blockIndicator (contentLine num raw).text = none)
      (hrest : SplitRead (num + 1) rest lines) :
      SplitRead num (raw :: rest) (contentLine num raw :: lines)
  | literal {num : Nat} {raw indicator : Bytes} {rest body : List Bytes} {lines : List Line}
      (hcontent : IsContent raw)
      (hindicator : blockIndicator (contentLine num raw).text = some indicator)
      (hsupported : indicator ∈ [[bar], [bar, hyphen], [bar, 43]])
      (hbody : literalBody (contentLine num raw).indent none rest = body)
      (hrest : SplitRead (num + 1 + body.length) (rest.drop body.length) lines) :
      SplitRead num (raw :: rest)
        ({ contentLine num raw with literal := some (chomp indicator body) } :: lines)

theorem splitLines_skip (skip num : Nat) (raws : List Bytes) :
    splitLines skip num raws = splitLines 0 (num + skip) (raws.drop skip) := by
  induction skip generalizing num raws with
  | zero => rfl
  | succ skip ih =>
    cases raws with
    | nil => simp [splitLines]
    | cons raw rest =>
      rw [splitLines, ih, List.drop_succ_cons]
      congr 1
      omega

section LiteralBody

variable {headerIndent indent : Nat} {blockIndent : Option Nat} {line : Bytes} {rest : List Bytes}

theorem literalBody_blank (h : isBlank line = true) :
    literalBody headerIndent blockIndent (line :: rest) =
      [] :: literalBody headerIndent blockIndent rest := by
  rw [literalBody.eq_def]
  simp only
  rw [if_pos (by simpa [isBlank] using h)]

theorem literalBody_first (h : isBlank line = false) :
    literalBody headerIndent none (line :: rest) =
      if leadingSpaces line ≤ headerIndent then []
      else line.drop (leadingSpaces line) ::
        literalBody headerIndent (some (leadingSpaces line)) rest := by
  rw [literalBody.eq_def]
  simp only
  rw [if_neg (by simpa [isBlank] using h)]

theorem literalBody_next (h : isBlank line = false) :
    literalBody headerIndent (some indent) (line :: rest) =
      if leadingSpaces line < indent then []
      else line.drop indent :: literalBody headerIndent (some indent) rest := by
  rw [literalBody.eq_def]
  simp only
  rw [if_neg (by simpa [isBlank] using h)]

/-- The lines of a block are lines of the text. -/
theorem length_literalBody_le (headerIndent : Nat) (blockIndent : Option Nat)
    (rest : List Bytes) :
    (literalBody headerIndent blockIndent rest).length ≤ rest.length := by
  induction rest generalizing blockIndent with
  | nil => simp [literalBody]
  | cons line rest ih =>
    cases hblank : isBlank line with
    | true =>
      rw [literalBody_blank hblank]
      simpa using ih blockIndent
    | false =>
      cases blockIndent with
      | none =>
        rw [literalBody_first hblank]
        split_ifs
        · simp
        · simpa using ih _
      | some indent =>
        rw [literalBody_next hblank]
        split_ifs
        · simp
        · simpa using ih _

theorem literalBody_gap (h : ∀ raw ∈ gap, isBlank raw = true) :
    literalBody headerIndent blockIndent (gap ++ rest) =
      List.replicate gap.length [] ++ literalBody headerIndent blockIndent rest := by
  induction gap with
  | nil => rfl
  | cons raw gap ih =>
    rw [List.forall_mem_cons] at h
    rw [List.cons_append, literalBody_blank h.1, ih h.2, List.length_cons,
      List.replicate_succ, List.cons_append]

/-- What stands behind the line that ends a block does not matter for it. -/
theorem literalBody_cut
    (h : (literalBody headerIndent blockIndent (front ++ raw :: tail)).length ≤ front.length)
    (tail' : List Bytes) :
    literalBody headerIndent blockIndent (front ++ raw :: tail') =
      literalBody headerIndent blockIndent (front ++ raw :: tail) := by
  induction front generalizing blockIndent with
  | nil =>
    rw [List.nil_append, List.length_nil, Nat.le_zero, List.length_eq_zero_iff] at h
    rw [List.nil_append, List.nil_append, h]
    cases hblank : isBlank raw with
    | true =>
      rw [literalBody_blank hblank] at h
      cases h
    | false =>
      cases blockIndent with
      | none =>
        rw [literalBody_first hblank] at h ⊢
        split_ifs at h ⊢
        rfl
      | some indent =>
        rw [literalBody_next hblank] at h ⊢
        split_ifs at h ⊢
        rfl
  | cons line front ih =>
    rw [List.cons_append, List.length_cons] at h
    rw [List.cons_append, List.cons_append]
    cases hblank : isBlank line with
    | true =>
      rw [literalBody_blank hblank, List.length_cons, Nat.add_le_add_iff_right] at h
      rw [literalBody_blank hblank, literalBody_blank hblank, ih h]
    | false =>
      cases blockIndent with
      | none =>
        rw [literalBody_first hblank] at h
        rw [literalBody_first hblank, literalBody_first hblank]
        split_ifs at h ⊢
        · rfl
        · rw [List.length_cons, Nat.add_le_add_iff_right] at h
          rw [ih h]
      | some indent =>
        rw [literalBody_next hblank] at h
        rw [literalBody_next hblank, literalBody_next hblank]
        split_ifs at h ⊢
        · rfl
        · rw [List.length_cons, Nat.add_le_add_iff_right] at h
          rw [ih h]

end LiteralBody

theorem isBlank_iff : isBlank raw = true ↔
    trimRight [space, tab, carriageReturn] raw = [] ∨
      trimSpaces (trimRight [space, tab, carriageReturn] raw) = [] := by
  rw [isBlank, decide_eq_true_eq, ← trimSpaces_trimRight_eq_nil, or_iff_right_of_imp]
  intro h
  rw [h]
  rfl

/-- What `splitLines` does with a content line and the ones behind it. -/
def splitContent (num : Nat) (raw : Bytes) (rest : List Bytes) :
    Except ParseError (List Line) :=
  match blockIndicator (contentLine num raw).text with
  | none => do
      let lines ← splitLines 0 (num + 1) rest
      pure (contentLine num raw :: lines)
  | some indicator => do
      let (literal, taken) ← collectLiteralBlock num rest (contentLine num raw).indent indicator
      let lines ← splitLines taken (num + 1) rest
      pure ({ contentLine num raw with literal := some literal } :: lines)

/-- One line of `splitLines`. -/
theorem splitLines_cons (num : Nat) (raw : Bytes) (rest : List Bytes) :
    splitLines 0 num (raw :: rest) =
      if isBlank raw = true then splitLines 0 (num + 1) rest
      else if raw.head? = some tab then .error (.tabIndent num)
      else if isComment raw = true then splitLines 0 (num + 1) rest
      else splitContent num raw rest := by
  rw [splitLines]
  simp only [isBlank_iff, isComment, visibleText]
  rfl

theorem splitLines_content (h : IsContent raw) :
    splitLines 0 num (raw :: rest) = splitContent num raw rest := by
  rw [splitLines_cons, if_neg (by simp [h.visible]), if_neg h.noTab, if_neg (by simp [h.noComment])]

theorem SplitRead.splitLines (h : SplitRead num raws lines) :
    splitLines 0 num raws = .ok lines := by
  induction h with
  | nil => rfl
  | @skip num raw rest lines hskip _ ih =>
    rw [splitLines_cons]
    split_ifs with hblank htab hcomment
    · exact ih
    · rcases hskip with hskip | hskip
      · exact absurd hskip hblank
      · exact absurd htab hskip.1
    · exact ih
    · rcases hskip with hskip | hskip
      · exact absurd hskip hblank
      · exact absurd hskip.2 hcomment
  | plain hcontent hplain _ ih =>
    rw [splitLines_content hcontent, splitContent, hplain]
    exact Except.bind_eq_ok.mpr ⟨_, ih, rfl⟩
  | literal hcontent hindicator hsupported hbody _ ih =>
    subst hbody
    rw [splitLines_content hcontent, splitContent, hindicator]
    simp only [collectLiteralBlock, if_pos hsupported]
    refine Except.bind_eq_ok.mpr ⟨_, rfl, Except.bind_eq_ok.mpr ⟨_, ?_, rfl⟩⟩
    rw [splitLines_skip]
    exact ih

theorem splitRead_of_splitLines (h : splitLines 0 num raws = .ok lines) :
    SplitRead num raws lines := by
  -- A literal block takes several lines at once, so the induction is on their number.
  induction hlength : raws.length using Nat.strong_induction_on generalizing num raws lines with
  | h n ih =>
    cases raws with
    | nil =>
      cases h
      exact .nil
    | cons raw rest =>
      rw [List.length_cons] at hlength
      rw [splitLines_cons] at h
      split_ifs at h with hblank htab hcomment
      · exact .skip (.inl hblank) (ih _ (by omega) h rfl)
      · exact .skip (.inr ⟨htab, hcomment⟩) (ih _ (by omega) h rfl)
      · have hcontent : IsContent raw :=
          ⟨by simpa using hblank, htab, by simpa using hcomment⟩
        unfold splitContent at h
        split at h
        · rename_i hplain
          obtain ⟨lines', hrest, hlines⟩ := Except.bind_eq_ok.mp h
          cases hlines
          exact .plain hcontent hplain (ih _ (by omega) hrest rfl)
        · rename_i indicator hindicator
          obtain ⟨⟨literal, taken⟩, hcollect, h⟩ := Except.bind_eq_ok.mp h
          obtain ⟨lines', hrest, hlines⟩ := Except.bind_eq_ok.mp h
          cases hlines
          have hsupported : indicator ∈ [[bar], [bar, hyphen], [bar, 43]] :=
            not_not.mp (collectLiteralBlock_eq_ok hcollect)
          rw [collectLiteralBlock, if_pos hsupported] at hcollect
          cases hcollect
          rw [splitLines_skip] at hrest
          refine .literal hcontent hindicator hsupported rfl (ih _ ?_ hrest rfl)
          rw [List.length_drop]
          omega

theorem splitLines_iff :
    splitLines 0 num raws = .ok lines ↔ SplitRead num raws lines :=
  ⟨splitRead_of_splitLines, SplitRead.splitLines⟩

theorem contentLines_iff : contentLines data = .ok lines ↔ SplitRead 1 (documentLines data) lines :=
  splitLines_iff

/-- The numbers of the lines rise. -/
theorem SplitRead.le_num (h : SplitRead num raws lines) : ∀ line ∈ lines, num ≤ line.num := by
  induction h with
  | nil => simp
  | skip _ _ ih => exact fun line hline => (Nat.le_succ _).trans (ih line hline)
  | plain _ _ _ ih =>
    rw [List.forall_mem_cons]
    exact ⟨Nat.le_refl _, fun line hline => (Nat.le_succ _).trans (ih line hline)⟩
  | literal _ _ _ _ _ ih =>
    rw [List.forall_mem_cons]
    refine ⟨Nat.le_refl _, fun line hline => ?_⟩
    have hle := ih line hline
    omega

theorem SplitRead.sorted (h : SplitRead num raws lines) :
    lines.Pairwise (fun a b => a.num < b.num) := by
  induction h with
  | nil => exact .nil
  | skip _ _ ih => exact ih
  | plain _ _ hrest ih => exact .cons (fun line hline => hrest.le_num line hline) ih
  | literal _ _ _ _ hrest ih =>
    refine .cons (fun line hline => ?_) ih
    have hle := hrest.le_num line hline
    simp only [contentLine]
    omega

/-- A reading, cut at a content line. What stands behind the line has no say in what
stands before it. -/
theorem SplitRead.cut (h : SplitRead num raws lines) (hline : line ∈ lines) :
    ∃ pre raw rest before after, raws = pre ++ raw :: rest ∧ line.num = num + pre.length ∧
      lines = before ++ line :: after ∧ SplitRead line.num (raw :: rest) (line :: after) ∧
      ∀ rest' after', SplitRead line.num (raw :: rest') after' →
        SplitRead num (pre ++ raw :: rest') (before ++ after') := by
  induction h with
  | nil => simp at hline
  | @skip num raw rest lines hskip hrest ih =>
    obtain ⟨pre, raw', rest', before, after, rfl, hnum, rfl, hread, hrebuild⟩ := ih hline
    refine ⟨raw :: pre, raw', rest', before, after, rfl, ?_, rfl, hread, ?_⟩
    · rw [hnum, List.length_cons]
      omega
    · intro rest'' after'' hread'
      exact .skip hskip (hrebuild rest'' after'' hread')
  | @plain num raw rest lines hcontent hplain hrest ih =>
    rcases List.mem_cons.mp hline with rfl | hline
    · exact ⟨[], raw, rest, [], lines, rfl, rfl, rfl, .plain hcontent hplain hrest,
        fun _ _ hread => hread⟩
    · obtain ⟨pre, raw', rest', before, after, rfl, hnum, rfl, hread, hrebuild⟩ := ih hline
      refine ⟨raw :: pre, raw', rest', contentLine num raw :: before, after, rfl, ?_, rfl,
        hread, ?_⟩
      · rw [hnum, List.length_cons]
        omega
      · intro rest'' after'' hread'
        exact .plain hcontent hplain (hrebuild rest'' after'' hread')
  | @literal num raw indicator rest body lines hcontent hindicator hsupported hbody hrest ih =>
    rcases List.mem_cons.mp hline with rfl | hline
    · exact ⟨[], raw, rest, [], lines, rfl, rfl, rfl,
        .literal hcontent hindicator hsupported hbody hrest, fun _ _ hread => hread⟩
    · obtain ⟨pre, raw', rest', before, after, hdrop, hnum, rfl, hread, hrebuild⟩ := ih hline
      have hsplit : rest = (rest.take body.length ++ pre) ++ raw' :: rest' := by
        rw [List.append_assoc, ← hdrop, List.take_append_drop]
      have hlength : (rest.take body.length).length = body.length := by
        rw [List.length_take, ← hbody]
        exact Nat.min_eq_left (length_literalBody_le _ _ rest)
      refine ⟨raw :: (rest.take body.length ++ pre), raw', rest', _ :: before, after, ?_, ?_,
        rfl, hread, ?_⟩
      · rw [List.cons_append, ← hsplit]
      · rw [hnum, List.length_cons, List.length_append, hlength]
        omega
      · intro rest'' after'' hread'
        have hshort : (literalBody (contentLine num raw).indent none
            ((rest.take body.length ++ pre) ++ raw' :: rest')).length ≤
            (rest.take body.length ++ pre).length := by
          rw [← hsplit, hbody, List.length_append, hlength]
          omega
        have hbody' : literalBody (contentLine num raw).indent none
            ((rest.take body.length ++ pre) ++ raw' :: rest'') = body := by
          rw [literalBody_cut hshort rest'', ← hsplit, hbody]
        have hdrop' : ((rest.take body.length ++ pre) ++ raw' :: rest'').drop body.length =
            pre ++ raw' :: rest'' := by
          rw [List.append_assoc, List.drop_left' hlength]
        have hread'' := hrebuild rest'' after'' hread'
        rw [← hdrop'] at hread''
        exact .literal hcontent hindicator hsupported hbody' hread''

/-- The reading of a content line that opens a literal block. -/
theorem SplitRead.literal_head (h : SplitRead line.num (raw :: rest) (line :: after))
    (hliteral : line.literal ≠ none) :
    IsContent raw ∧ ∃ indicator, blockIndicator (contentLine line.num raw).text = some indicator ∧
      indicator ∈ [[bar], [bar, hyphen], [bar, 43]] ∧
      line = { contentLine line.num raw with
        literal := some (chomp indicator
          (literalBody (contentLine line.num raw).indent none rest)) } ∧
      SplitRead (line.num + 1 + (literalBody (contentLine line.num raw).indent none rest).length)
        (rest.drop (literalBody (contentLine line.num raw).indent none rest).length) after := by
  generalize hnum : line.num = num at h
  generalize hlines : line :: after = lines at h
  cases h with
  | skip _ hrest =>
    have hle := hrest.le_num line (by rw [← hlines]; exact List.mem_cons_self)
    omega
  | plain =>
    obtain ⟨rfl, -⟩ := List.cons.inj hlines
    exact absurd rfl hliteral
  | literal hcontent hindicator hsupported hbody hrest =>
    subst hbody
    obtain ⟨rfl, rfl⟩ := List.cons.inj hlines
    exact ⟨hcontent, _, hindicator, hsupported, rfl, hrest⟩

/-- A line that is neither blank nor a comment is read as a content line. -/
theorem SplitRead.content_head (h : SplitRead num (raw :: rest) lines)
    (hvisible : isBlank raw = false) (hcomment : isComment raw = false) :
    ∃ line after, lines = line :: after ∧ line.num = num ∧ line.indent = leadingSpaces raw := by
  cases h with
  | skip hskip =>
    rcases hskip with hskip | hskip
    · simp [hvisible] at hskip
    · simp [hcomment] at hskip
  | plain => exact ⟨_, _, rfl, rfl, contentLine_indent hvisible⟩
  | literal => exact ⟨_, _, rfl, rfl, leadingSpaces_trimRight (by simpa [isBlank] using hvisible)⟩

end Gopherd.Yaml
