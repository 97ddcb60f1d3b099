import Gopherd.Go.Fields
import Gopherd.Lib.Except
import Gopherd.Service.DotEnv

namespace Gopherd

open Go

def writeChar (c : Char) : List Char :=
  if c = '\\' then ['\\', '\\']
  else if c = '"' then ['\\', '"']
  else if c = '\n' then ['\\', 'n']
  else if c = '\t' then ['\\', 't']
  else if c = '\r' then ['\\', 'r']
  else [c]

def writeChars (value : List Char) : List Char :=
  value.flatMap writeChar

def writeAssignment (assignment : String × String) : List Char :=
  assignment.1.toList ++ '=' :: '"' :: writeChars assignment.2.toList ++ ['"']

/-- The assignments on lines of their own; the last line may end with a line break. -/
def writeDotEnv (lineBreak : Bool) (assignments : List (String × String)) : String :=
  String.ofList (['\n'].intercalate (assignments.map writeAssignment) ++
    if lineBreak then ['\n'] else [])

theorem dotenvUnescapeDouble_writeChar (c : Char) (rest : List Char) :
    dotenvUnescapeDouble (writeChar c ++ rest) = c :: dotenvUnescapeDouble rest := by
  unfold writeChar
  split_ifs with hslash hquote hnewline htab hreturn
  · subst hslash; rfl
  · subst hquote; rfl
  · subst hnewline; rfl
  · subst htab; rfl
  · subst hreturn; rfl
  · cases rest with
    | nil => rfl
    | cons next rest => simp [dotenvUnescapeDouble, hslash]

/-- The escapes are resolved. -/
theorem dotenvUnescapeDouble_writeChars (value : List Char) :
    dotenvUnescapeDouble (writeChars value) = value := by
  induction value with
  | nil => rfl
  | cons c value ih =>
    rw [writeChars, List.flatMap_cons, dotenvUnescapeDouble_writeChar]
    exact congrArg (c :: ·) ih

theorem stripComment_writeChar (before : List Char) (c : Char) (rest : List Char) :
    stripComment false true before (writeChar c ++ rest) =
      stripComment false true ((writeChar c).reverse ++ before) rest := by
  unfold writeChar
  split_ifs with hslash hquote hnewline htab hreturn
  · rfl
  · rfl
  · rfl
  · rfl
  · rfl
  · rw [List.singleton_append, stripComment.eq_def]
    simp [hslash, hquote]

/-- No comment starts between the quotes. -/
theorem stripComment_writeChars (before value rest : List Char) :
    stripComment false true before (writeChars value ++ rest) =
      stripComment false true ((writeChars value).reverse ++ before) rest := by
  induction value generalizing before with
  | nil => rfl
  | cons c value ih =>
    rw [writeChars, List.flatMap_cons, List.append_assoc, stripComment_writeChar]
    refine (ih _).trans ?_
    rw [List.reverse_append, List.append_assoc]
    rfl

theorem stripDotEnvComment_quoted (value : List Char) :
    stripDotEnvComment ('"' :: writeChars value ++ ['"']) = '"' :: writeChars value ++ ['"'] := by
  have hopen : stripDotEnvComment ('"' :: writeChars value ++ ['"']) =
      stripComment false true ['"'] (writeChars value ++ ['"']) := by
    rw [stripDotEnvComment, List.cons_append, stripComment.eq_def]
    simp
  rw [hopen, stripComment_writeChars]
  simp [stripComment]

/-- White space is only trimmed at the ends. -/
theorem trimSpace_of_ends (hfirst : isSpace first = false) (hlast : isSpace last = false) :
    trimSpace (String.ofList (first :: middle ++ [last])) =
      String.ofList (first :: middle ++ [last]) := by
  simp [trimSpace, hfirst, hlast]

theorem trimSpace_of_noSpace (h : ∀ c ∈ s.toList, isSpace c = false) : trimSpace s = s := by
  have hdrop {list : List Char} (hlist : ∀ c ∈ list, isSpace c = false) :
      list.dropWhile isSpace = list := by
    cases list with
    | nil => rfl
    | cons c list => simp [hlist c (by simp)]
  rw [trimSpace, hdrop h, hdrop (by simpa using h), List.reverse_reverse, String.ofList_toList]

theorem dotenvValue_quoted (value : String) :
    dotenvValue (String.ofList ('"' :: writeChars value.toList ++ ['"'])) = value := by
  have hinner : unquoted '"' ('"' :: writeChars value.toList ++ ['"']) =
      some (writeChars value.toList) := by
    rw [unquoted, List.getLast?_concat]
    simp
  have hspace : isSpace '"' = false := by decide
  rw [dotenvValue, trimSpace_of_ends hspace hspace, String.toList_ofList,
    stripDotEnvComment_quoted, hinner]
  simp [dotenvUnescapeDouble_writeChars]

theorem isValidEnvKey_eq_cons (h : isValidEnvKey key = true) :
    ∃ first rest, key.toList = first :: rest ∧
      ∀ c ∈ key.toList, c = '_' ∨ c.isAlphanum = true := by
  unfold isValidEnvKey at h
  cases hkey : key.toList with
  | nil => rw [hkey] at h; cases h
  | cons first rest =>
    rw [hkey] at h
    simp only [Bool.and_eq_true, Bool.or_eq_true, decide_eq_true_eq, List.all_eq_true] at h
    refine ⟨first, rest, rfl, ?_⟩
    intro c hc
    rcases List.mem_cons.mp hc with rfl | hc
    · exact h.1.imp id (fun halpha => by simp [Char.isAlphanum, halpha])
    · exact h.2 c hc

theorem keyChar_le (h : c = '_' ∨ c.isAlphanum = true) : c ≤ 'z' := by
  rcases h with rfl | h
  · decide
  · change c.val ≤ 122
    rcases (Bool.or_eq_true _ _).mp h with halpha | hdigit
    · rcases (Bool.or_eq_true _ _).mp halpha with hupper | hlower
      · have hrange : 'A'.val ≤ c.val ∧ c.val ≤ 'Z'.val := of_decide_eq_true hupper
        exact UInt32.le_trans hrange.2 (by decide)
      · exact of_decide_eq_true ((Bool.and_eq_true _ _).mp hlower).2
    · have hle : c.val ≤ '9'.val := of_decide_eq_true ((Bool.and_eq_true _ _).mp hdigit).2
      exact UInt32.le_trans hle (by decide)

/-- A character of a key is no white space and none that the parser looks for. -/
theorem keyChar_plain (h : c = '_' ∨ c.isAlphanum = true) :
    isSpace c = false ∧ c ≠ '=' ∧ c ≠ '#' ∧ c ≠ '\n' ∧ c ≠ '\ufeff' := by
  refine ⟨?_, ?_, ?_, ?_, ?_⟩
  · by_contra hspace
    simp only [isSpace, Bool.or_eq_true, decide_eq_true_eq, Bool.and_eq_true,
      Bool.not_eq_false] at hspace
    rcases hspace with hlist | hrange
    · simp only [List.mem_cons, List.not_mem_nil, or_false] at hlist
      rcases hlist with rfl | rfl | rfl | rfl | rfl | rfl | rfl | rfl | rfl | rfl | rfl | rfl |
        rfl | rfl <;> revert h <;> decide
    · exact absurd (Char.le_trans hrange.1 (keyChar_le h)) (by decide)
  all_goals
    rintro rfl
    revert h
    decide

theorem dotenvLine_written (hkey : isValidEnvKey assignment.1 = true) :
    dotenvLine env (String.ofList (writeAssignment assignment)) =
      .ok (env.insert assignment.1 assignment.2) := by
  obtain ⟨first, rest, hcons, hchars⟩ := isValidEnvKey_eq_cons hkey
  have hfirst := keyChar_plain (hchars first (by simp [hcons]))
  have htext : writeAssignment assignment =
      first :: (rest ++ '=' :: '"' :: writeChars assignment.2.toList) ++ ['"'] := by
    simp [writeAssignment, hcons]
  have htrim : trimSpace (String.ofList (writeAssignment assignment)) =
      String.ofList (writeAssignment assignment) := by
    rw [htext]
    exact trimSpace_of_ends hfirst.1 (by decide)
  have hcut : cut (String.ofList (writeAssignment assignment)) '=' =
      (assignment.1, String.ofList ('"' :: writeChars assignment.2.toList ++ ['"']), true) := by
    refine cut_eq_found_iff.mpr ⟨by simp [writeAssignment], ?_⟩
    intro hmem
    exact (keyChar_plain (hchars _ hmem)).2.1 rfl
  have hkeyTrim : trimSpace assignment.1 = assignment.1 :=
    trimSpace_of_noSpace fun c hc => (keyChar_plain (hchars c hc)).1
  have hne : assignment.1 ≠ "" := by
    intro hempty
    rw [hempty] at hcons
    cases hcons
  have hline : (String.ofList (writeAssignment assignment) = "" ||
      (String.ofList (writeAssignment assignment)).toList.head? = some '#') = false := by
    simp [htext, hfirst.2.2.1]
  simp only [dotenvLine, htrim, hline, hcut, hkeyTrim, hne, hkey, dotenvValue_quoted, if_true,
    Bool.false_eq_true, if_false]

theorem dotenvLine_blank (env : GoMap String String) : dotenvLine env "" = .ok env := rfl

variable {assignments : List (String × String)}

theorem foldlM_dotenvLine_written
    (hkeys : ∀ assignment ∈ assignments, isValidEnvKey assignment.1 = true)
    (env : GoMap String String) :
    (assignments.map fun assignment => String.ofList (writeAssignment assignment)).foldlM
        dotenvLine env =
      .ok (assignments.foldl (fun env assignment => env.insert assignment.1 assignment.2) env) := by
  induction assignments generalizing env with
  | nil => rfl
  | cons assignment rest ih =>
    rw [List.forall_mem_cons] at hkeys
    rw [List.map_cons, List.foldlM_cons, dotenvLine_written hkeys.1]
    exact ih hkeys.2 _

theorem newline_notMem_writeAssignment (hkey : isValidEnvKey assignment.1 = true) :
    '\n' ∉ writeAssignment assignment := by
  have hchar (c : Char) : '\n' ∉ writeChar c := by
    unfold writeChar
    split_ifs with _ _ hnewline
    · decide
    · decide
    · decide
    · decide
    · decide
    · simpa using Ne.symm hnewline
  have hkeyChars : '\n' ∉ assignment.1.toList := by
    obtain ⟨_, _, -, hchars⟩ := isValidEnvKey_eq_cons hkey
    intro hmem
    exact (keyChar_plain (hchars _ hmem)).2.2.2.1 rfl
  simp [writeAssignment, writeChars, hkeyChars, hchar]

/-- The lines of a file are the assignments, and blank ones where there is nothing
before or after a line break. -/
theorem split_writeDotEnv (lineBreak : Bool)
    (hkeys : ∀ assignment ∈ assignments, isValidEnvKey assignment.1 = true) :
    ∃ blanks, (∀ line ∈ blanks, line = "") ∧
      split (writeDotEnv lineBreak assignments) '\n' =
        (assignments.map fun assignment => String.ofList (writeAssignment assignment)) ++
          blanks := by
  -- the lines without the line break at the end of the file
  have hlines : ∃ blanks : List (List Char), (∀ line ∈ blanks, line = []) ∧
      splitAtChar (· == '\n') (['\n'].intercalate (assignments.map writeAssignment)) =
        assignments.map writeAssignment ++ blanks := by
    by_cases hempty : assignments = []
    · subst hempty
      exact ⟨[[]], by simp, rfl⟩
    · refine ⟨[], by simp, ?_⟩
      rw [List.append_nil]
      refine @splitAtChar_intercalate (· == '\n') '\n' rfl _ (by simpa using hempty) ?_
      intro piece hpiece c hc
      obtain ⟨assignment, hassignment, rfl⟩ := List.mem_map.mp hpiece
      have hnewline := newline_notMem_writeAssignment (hkeys assignment hassignment)
      exact beq_eq_false_iff_ne.mpr fun heq => hnewline (heq ▸ hc)
  obtain ⟨blanks, hblanks, hsplit⟩ := hlines
  have hmap (list : List (List Char)) (hlist : ∀ line ∈ list, line = []) :
      ∀ line ∈ list.map String.ofList, line = "" := by
    intro line hline
    obtain ⟨chars, hchars, rfl⟩ := List.mem_map.mp hline
    rw [hlist chars hchars]
  cases lineBreak with
  | false =>
    refine ⟨blanks.map String.ofList, hmap blanks hblanks, ?_⟩
    simp [split, writeDotEnv, hsplit]
  | true =>
    refine ⟨(blanks ++ [[]]).map String.ofList, hmap _ ?_, ?_⟩
    · intro line hline
      rcases List.mem_append.mp hline with hline | hline
      · exact hblanks line hline
      · exact List.mem_singleton.mp hline
    · have hbreak := @splitAtChar_append (· == '\n') '\n' rfl
        (['\n'].intercalate (assignments.map writeAssignment)) []
      simp [split, writeDotEnv, hbreak, hsplit, splitAtChar]

theorem foldlM_dotenvLine_blanks {blanks : List String} (hblanks : ∀ line ∈ blanks, line = "")
    (env : GoMap String String) : blanks.foldlM dotenvLine env = .ok env := by
  induction blanks with
  | nil => rfl
  | cons line rest ih =>
    rw [List.forall_mem_cons] at hblanks
    rw [List.foldlM_cons, hblanks.1, dotenvLine_blank]
    exact ih hblanks.2

/-- A file does not start with a byte order mark. -/
theorem trimMark_writeDotEnv (lineBreak : Bool)
    (hkeys : ∀ assignment ∈ assignments, isValidEnvKey assignment.1 = true) :
    trimMark (writeDotEnv lineBreak assignments).toList =
      (writeDotEnv lineBreak assignments).toList := by
  have hmark {s : List Char} (hs : s.head? ≠ some '\ufeff') : trimMark s = s := by
    unfold trimMark
    split
    · exact absurd rfl hs
    · rfl
  refine hmark ?_
  rw [writeDotEnv, String.toList_ofList]
  cases assignments with
  | nil => cases lineBreak <;> decide
  | cons assignment rest =>
    obtain ⟨first, key, hcons, hchars⟩ :=
      isValidEnvKey_eq_cons (hkeys assignment List.mem_cons_self)
    have hfirst := (keyChar_plain (hchars first (by simp [hcons]))).2.2.2.2
    cases rest with
    | nil => simp [writeAssignment, hcons, hfirst]
    | cons next rest => simp [List.intercalate_cons_cons, writeAssignment, hcons, hfirst]

/-- What is written reads back: every key has the value of its last assignment. -/
theorem parseDotEnv_writeDotEnv {assignments : List (String × String)} (lineBreak : Bool)
    (hkeys : ∀ assignment ∈ assignments, isValidEnvKey assignment.1 = true)
    (hsize : (writeDotEnv lineBreak assignments).utf8ByteSize ≤ maxDotEnvSize) :
    ∃ env, parseDotEnv (.content (writeDotEnv lineBreak assignments)) = .ok env ∧
      ∀ key, env.lookup key =
        (assignments.filter fun assignment => assignment.1 = key).getLast?.map Prod.snd := by
  refine ⟨GoMap.ofList assignments, ?_, GoMap.lookup_ofList assignments⟩
  obtain ⟨blanks, hblanks, hsplit⟩ := split_writeDotEnv lineBreak hkeys
  rw [parseDotEnv, if_neg (Nat.not_lt.mpr hsize), trimMark_writeDotEnv lineBreak hkeys,
    String.ofList_toList, hsplit, List.foldlM_append, foldlM_dotenvLine_written hkeys]
  exact foldlM_dotenvLine_blanks hblanks _

theorem parseDotEnv_two_values :
    (∀ assignment ∈ [("A", "x\" # 'y'\n"), ("B", ""), ("A", "\\ ")],
        isValidEnvKey assignment.1 = true) ∧
      ∃ env, parseDotEnv (.content (writeDotEnv true
          [("A", "x\" # 'y'\n"), ("B", ""), ("A", "\\ ")])) = .ok env ∧
        env.lookup "A" = some "\\ " := by
  have hkeys : ∀ assignment ∈ [("A", "x\" # 'y'\n"), ("B", ""), ("A", "\\ ")],
      isValidEnvKey assignment.1 = true := by decide +kernel
  refine ⟨hkeys, ?_⟩
  obtain ⟨env, hparse, hlookup⟩ := parseDotEnv_writeDotEnv true hkeys (by decide +kernel)
  exact ⟨env, hparse, (hlookup "A").trans (by decide +kernel)⟩

end Gopherd
