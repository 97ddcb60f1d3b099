import Gopherd.Go.Bytes

/-!
The sanitizer of the log targets: control bytes and whole escape sequences are
dropped, so that a service cannot move the cursor of a terminal or forge lines.
-/

namespace Gopherd.Logger

open Go

abbrev escapeByte : UInt8 := 0x1b
abbrev bell : UInt8 := 0x07
abbrev colourEnd : UInt8 := 109

def plain (b : UInt8) : Bool :=
  b ≥ 0x20 || b = newline || b = tab

/-- A parameter byte of a colour sequence: a digit, `;` or `:`. -/
def colourParam (b : UInt8) : Bool :=
  (48 ≤ b && b ≤ 57) || b = 59 || b = colon

/-- The rest of a control sequence: parameters and intermediates, then the final
byte. `sgr` says whether only colour parameters were seen. -/
def csiLen (i : Nat) (sgr : Bool) : Bytes → Nat × Bool
  | [] => (i, false)
  | b :: rest =>
    if 0x40 ≤ b ∧ b ≤ 0x7e then (i + 1, sgr && b = colourEnd)
    else if colourParam b then csiLen (i + 1) sgr rest
    else if b < 0x20 then (i, false)
    else csiLen (i + 1) false rest

/-- The rest of an operating system command: up to a bell or `ESC \`. -/
def oscLen (i : Nat) : Bytes → Nat
  | [] => i
  | b :: rest =>
    if b = bell then i + 1
    else if b = escapeByte then (if rest.head? = some backslash then i + 2 else i)
    else if b < 0x20 ∧ b ≠ tab then i
    else oscLen (i + 1) rest

def intermediate (b : UInt8) : Bool :=
  0x20 ≤ b && b ≤ 0x2f

/-- Any other escape: intermediates and one final byte. -/
def shortLen (s : Bytes) : Nat :=
  let i := 1 + (s.takeWhile intermediate).length
  match s.dropWhile intermediate with
  | [] => i
  | b :: _ => if 0x30 ≤ b ∧ b ≤ 0x7e then i + 1 else i

/-- `ansiSeqLen`: the length of the escape sequence at the front of `p`, and
whether it is a colour sequence. -/
def ansiSeqLen (p : Bytes) : Nat × Bool :=
  match p with
  | [] | [_] => (p.length, false)
  | _ :: kind :: rest =>
    if kind = openBracket then csiLen 2 true rest
    else if kind = closeBracket then (oscLen 2 rest, false)
    else (shortLen (kind :: rest), false)

/-- The loop of `sanitizeSeq`; `fuel` bounds the number of its passes. -/
def scan (keepSGR : Bool) : Nat → Bytes → Bytes → Option Bytes
  | _, buf, [] => some buf
  | 0, _, _ :: _ => none
  | fuel + 1, buf, b :: rest =>
    if plain b then scan keepSGR fuel (buf ++ [b]) rest
    else if b = escapeByte then
      let seq := ansiSeqLen (b :: rest)
      scan keepSGR fuel (if keepSGR && seq.2 then buf ++ (b :: rest).take seq.1 else buf)
        ((b :: rest).drop seq.1)
    else scan keepSGR fuel buf rest

/-- `sanitizeSeq`: the bytes in front of the first bad one are copied, the others
scanned. -/
def sanitizeSeq (keepSGR : Bool) (p : Bytes) : Option Bytes :=
  match p.findIdx? (!plain ·) with
  | none => some p
  | some firstBad => scan keepSGR (p.length - firstBad) (p.take firstBad) (p.drop firstBad)

def ColourSequence (s : Bytes) : Prop :=
  ∃ params : Bytes, (∀ b ∈ params, colourParam b = true) ∧
    s = escapeByte :: openBracket :: (params ++ [colourEnd])

inductive Clean (keepSGR : Bool) : Bytes → Prop
  | nil : Clean keepSGR []
  | plain {b : UInt8} {rest : Bytes} (hplain : plain b = true) (hrest : Clean keepSGR rest) :
      Clean keepSGR (b :: rest)
  | colour {sequence rest : Bytes} (hmode : keepSGR = true) (hsequence : ColourSequence sequence)
      (hrest : Clean keepSGR rest) : Clean keepSGR (sequence ++ rest)

/-- Every byte that a log entry may not contain begins a complete colour
sequence, and only in colour mode. -/
def Safe (keepSGR : Bool) (s : Bytes) : Prop :=
  ∀ i b, s[i]? = some b → plain b = false →
    keepSGR = true ∧ b = escapeByte ∧ ∃ sequence, ColourSequence sequence ∧ sequence <+: s.drop i

theorem colourParam_plain (h : colourParam b = true) : plain b = true := by
  simp only [colourParam, Bool.or_eq_true, Bool.and_eq_true, decide_eq_true_eq] at h
  simp only [plain, Bool.or_eq_true, decide_eq_true_eq]
  left
  left
  rcases h with (⟨hlow, -⟩ | rfl) | rfl
  · exact UInt8.le_trans (by decide : (0x20 : UInt8) ≤ 48) hlow
  · decide
  · decide

theorem ColourSequence.tail_plain (h : ColourSequence s) :
    ∃ tail, s = escapeByte :: tail ∧ ∀ b ∈ tail, plain b = true := by
  obtain ⟨params, hparams, rfl⟩ := h
  refine ⟨_, rfl, ?_⟩
  intro b hb
  rcases List.mem_cons.mp hb with rfl | hb
  · decide
  · rcases List.mem_append.mp hb with hb | hb
    · exact colourParam_plain (hparams b hb)
    · rw [List.mem_singleton.mp hb]
      decide

theorem Clean.safe (h : Clean keepSGR s) : Safe keepSGR s := by
  induction h with
  | nil =>
    intro i b hb
    simp at hb
  | @plain c rest hplain _ ih =>
    intro i b hb hbad
    cases i with
    | zero =>
      rw [List.getElem?_cons_zero, Option.some.injEq] at hb
      rw [← hb, hplain] at hbad
      cases hbad
    | succ i => exact ih i b hb hbad
  | @colour sequence rest hmode hsequence _ ih =>
    intro i b hb hbad
    obtain ⟨tail, heq, htail⟩ := hsequence.tail_plain
    by_cases hi : i < sequence.length
    · rw [List.getElem?_append_left hi] at hb
      cases i with
      | zero =>
        rw [heq, List.getElem?_cons_zero, Option.some.injEq] at hb
        exact ⟨hmode, hb.symm, sequence, hsequence, List.prefix_append _ _⟩
      | succ i =>
        rw [heq, List.getElem?_cons_succ] at hb
        rw [htail b (List.mem_of_getElem? hb)] at hbad
        cases hbad
    · have hle : sequence.length ≤ i := Nat.le_of_not_lt hi
      rw [List.getElem?_append_right hle] at hb
      obtain ⟨hkeep, hescape, other, hother, hbegins⟩ := ih _ b hb hbad
      refine ⟨hkeep, hescape, other, hother, ?_⟩
      rw [List.drop_append, List.drop_eq_nil_of_le hle, List.nil_append]
      exact hbegins

structure Taken (p : Bytes) (n : Nat) : Prop where
  le : n ≤ p.length
  noNewline : newline ∉ p.take n

theorem Taken.cons {b : UInt8} {rest : Bytes} {n : Nat} (h : Taken rest n) (hb : b ≠ newline) :
    Taken (b :: rest) (n + 1) := by
  refine ⟨by simpa using h.le, ?_⟩
  rw [List.take_succ_cons, List.mem_cons]
  rintro (heq | hmem)
  · exact hb heq.symm
  · exact h.noNewline hmem

theorem Taken.zero (p : Bytes) : Taken p 0 :=
  ⟨Nat.zero_le _, by simp⟩

theorem Taken.append (h : Taken rest n) (hfront : newline ∉ front) :
    Taken (front ++ rest) (front.length + n) := by
  refine ⟨by simpa using h.le, ?_⟩
  rw [List.take_length_add_append, List.mem_append]
  exact not_or.mpr ⟨hfront, h.noNewline⟩

theorem csiLen_spec (i : Nat) (sgr : Bool) (s : Bytes) :
    ∃ n, (csiLen i sgr s).1 = i + n ∧ Taken s n ∧
      ((csiLen i sgr s).2 = true → ∃ params : Bytes, (∀ b ∈ params, colourParam b = true) ∧
        sgr = true ∧ s.take n = params ++ [colourEnd]) := by
  induction s generalizing i sgr with
  | nil => exact ⟨0, rfl, .zero _, by simp [csiLen]⟩
  | cons b rest ih =>
    unfold csiLen
    split_ifs with hfinal hparam hcontrol
    · have hb : b ≠ newline := by
        rintro rfl
        exact absurd hfinal.1 (by decide)
      refine ⟨1, rfl, (Taken.zero rest).cons hb, ?_⟩
      intro hsgr
      simp only [Bool.and_eq_true, decide_eq_true_eq] at hsgr
      exact ⟨[], by simp, hsgr.1, by simp [hsgr.2]⟩
    · obtain ⟨n, hn, htaken, hcolour⟩ := ih (i + 1) sgr
      have hb : b ≠ newline := by
        rintro rfl
        exact absurd hparam (by decide)
      refine ⟨n + 1, by omega, htaken.cons hb, ?_⟩
      intro hsgr
      obtain ⟨params, hparams, hflag, htake⟩ := hcolour hsgr
      refine ⟨b :: params, ?_, hflag, by rw [List.take_succ_cons, htake, List.cons_append]⟩
      rw [List.forall_mem_cons]
      exact ⟨hparam, hparams⟩
    · exact ⟨0, rfl, .zero _, by simp⟩
    · obtain ⟨n, hn, htaken, hcolour⟩ := ih (i + 1) false
      have hb : b ≠ newline := by
        rintro rfl
        exact hcontrol (by decide)
      refine ⟨n + 1, by omega, htaken.cons hb, ?_⟩
      intro hsgr
      obtain ⟨_, -, hflag, -⟩ := hcolour hsgr
      cases hflag

theorem oscLen_spec (i : Nat) (s : Bytes) : ∃ n, oscLen i s = i + n ∧ Taken s n := by
  induction s generalizing i with
  | nil => exact ⟨0, rfl, .zero _⟩
  | cons b rest ih =>
    unfold oscLen
    split_ifs with hbell hescape hterminated hcontrol
    · exact ⟨1, rfl, (Taken.zero rest).cons (by rw [hbell]; decide)⟩
    · obtain ⟨tail, rfl⟩ : ∃ tail, rest = backslash :: tail := by
        obtain ⟨tail, htail⟩ := List.head?_eq_some_iff.mp hterminated
        exact ⟨tail, htail⟩
      exact ⟨2, rfl, ((Taken.zero tail).cons (by decide)).cons (by rw [hescape]; decide)⟩
    · exact ⟨0, rfl, .zero _⟩
    · exact ⟨0, rfl, .zero _⟩
    · obtain ⟨n, hn, htaken⟩ := ih (i + 1)
      have hb : b ≠ newline := by
        rintro rfl
        exact hcontrol (by decide)
      exact ⟨n + 1, by omega, htaken.cons hb⟩

theorem shortLen_spec (s : Bytes) : ∃ n, shortLen s = 1 + n ∧ Taken s n := by
  have hfront : newline ∉ s.takeWhile intermediate := by
    intro hmem
    exact absurd (List.mem_takeWhile_imp hmem) (by decide)
  have hrest : ∃ n, shortLen s = 1 + (s.takeWhile intermediate).length + n ∧
      Taken (s.dropWhile intermediate) n := by
    unfold shortLen
    cases s.dropWhile intermediate with
    | nil => exact ⟨0, rfl, .zero _⟩
    | cons b rest =>
      dsimp only
      split_ifs with hfinal
      · have hb : b ≠ newline := by
          rintro rfl
          exact absurd hfinal.1 (by decide)
        exact ⟨1, rfl, (Taken.zero rest).cons hb⟩
      · exact ⟨0, rfl, .zero _⟩
  obtain ⟨n, hn, htaken⟩ := hrest
  refine ⟨(s.takeWhile intermediate).length + n, by omega, ?_⟩
  have hall := htaken.append hfront
  rw [List.takeWhile_append_dropWhile] at hall
  exact hall

/-- A sequence takes at least its escape byte and no newline, and one that is
reported as a colour sequence is one. -/
theorem ansiSeqLen_spec (rest : Bytes) :
    ∃ n, (ansiSeqLen (escapeByte :: rest)).1 = n + 1 ∧ Taken rest n ∧
      ((ansiSeqLen (escapeByte :: rest)).2 = true →
        ColourSequence ((escapeByte :: rest).take (n + 1))) := by
  cases rest with
  | nil => exact ⟨0, rfl, .zero _, by simp [ansiSeqLen]⟩
  | cons kind rest =>
    unfold ansiSeqLen
    dsimp only
    split_ifs with hcsi hosc
    · obtain ⟨n, hn, htaken, hcolour⟩ := csiLen_spec 2 true rest
      refine ⟨n + 1, by omega, htaken.cons (by rw [hcsi]; decide), ?_⟩
      intro hsgr
      obtain ⟨params, hparams, -, htake⟩ := hcolour hsgr
      exact ⟨params, hparams, by rw [List.take_succ_cons, List.take_succ_cons, htake, hcsi]⟩
    · obtain ⟨n, hn, htaken⟩ := oscLen_spec 2 rest
      exact ⟨n + 1, by omega, htaken.cons (by rw [hosc]; decide), by simp⟩
    · obtain ⟨n, hn, htaken⟩ := shortLen_spec (kind :: rest)
      exact ⟨n, by omega, htaken, by simp⟩

/-- The scan ends with what it had and a clean text with the newlines that were
left. -/
theorem scan_spec (keepSGR : Bool) (hfuel : p.length ≤ fuel) (buf : Bytes) :
    ∃ out, scan keepSGR fuel buf p = some (buf ++ out) ∧ Clean keepSGR out ∧
      out.count newline = p.count newline := by
  induction fuel generalizing p buf with
  | zero =>
    obtain rfl := List.length_eq_zero_iff.mp (Nat.le_zero.mp hfuel)
    exact ⟨[], by simp [scan], .nil, rfl⟩
  | succ fuel ih =>
    cases p with
    | nil => exact ⟨[], by simp [scan], .nil, rfl⟩
    | cons b rest =>
      have hrest : rest.length ≤ fuel := by simpa using hfuel
      unfold scan
      split_ifs with hplain hescape
      · obtain ⟨out, hout, hclean, hcount⟩ := ih hrest (buf ++ [b])
        refine ⟨b :: out, by simpa using hout, .plain hplain hclean, ?_⟩
        rw [List.count_cons, List.count_cons, hcount]
      · subst hescape
        obtain ⟨n, hn, htaken, hcolour⟩ := ansiSeqLen_spec rest
        have hdropped : (rest.drop n).length ≤ fuel := by
          rw [List.length_drop]
          omega
        have hnewlines : (rest.drop n).count newline =
            (escapeByte :: rest).count newline := by
          have hsplit : rest.count newline =
              (rest.take n).count newline + (rest.drop n).count newline := by
            rw [← List.count_append, List.take_append_drop]
          rw [List.count_cons_of_ne (by decide), hsplit,
            List.count_eq_zero.mpr htaken.noNewline, Nat.zero_add]
        dsimp only
        rw [hn, List.drop_succ_cons]
        split_ifs with hkept
        · rw [Bool.and_eq_true] at hkept
          obtain ⟨out, hout, hclean, hcount⟩ :=
            ih hdropped (buf ++ (escapeByte :: rest).take (n + 1))
          refine ⟨(escapeByte :: rest).take (n + 1) ++ out, by simpa using hout,
            .colour hkept.1 (hcolour hkept.2) hclean, ?_⟩
          rw [List.count_append, hcount, hnewlines, List.take_succ_cons,
            List.count_cons_of_ne (by decide), List.count_eq_zero.mpr htaken.noNewline,
            Nat.zero_add]
        · obtain ⟨out, hout, hclean, hcount⟩ := ih hdropped buf
          exact ⟨out, hout, hclean, hcount.trans hnewlines⟩
      · obtain ⟨out, hout, hclean, hcount⟩ := ih hrest buf
        refine ⟨out, hout, hclean, ?_⟩
        have hb : b ≠ newline := by
          rintro rfl
          exact hplain (by decide)
        rw [hcount, List.count_cons_of_ne hb]

theorem colourParam_not_final (h : colourParam b = true) : ¬ (0x40 ≤ b ∧ b ≤ 0x7e) := by
  rintro ⟨hlow, -⟩
  simp only [colourParam, Bool.or_eq_true, Bool.and_eq_true, decide_eq_true_eq] at h
  rcases h with (⟨-, hhigh⟩ | rfl) | rfl
  · exact absurd (UInt8.le_trans hlow hhigh) (by decide)
  · exact absurd hlow (by decide)
  · exact absurd hlow (by decide)

/-- A complete colour sequence is recognised, whatever follows it. -/
theorem ansiSeqLen_colour {sequence : Bytes} (h : ColourSequence sequence) (rest : Bytes) :
    ansiSeqLen (sequence ++ rest) = (sequence.length, true) := by
  obtain ⟨params, hparams, rfl⟩ := h
  have hcsi : ∀ i,
      csiLen i true (params ++ [colourEnd] ++ rest) = (i + params.length + 1, true) := by
    induction params with
    | nil =>
      intro i
      rw [List.nil_append, List.singleton_append, csiLen, if_pos (by decide)]
      rfl
    | cons b params ih =>
      intro i
      rw [List.forall_mem_cons] at hparams
      have hfinal : ¬ (0x40 ≤ b ∧ b ≤ 0x7e) := colourParam_not_final hparams.1
      rw [List.cons_append, List.cons_append, csiLen, if_neg hfinal, if_pos hparams.1,
        ih hparams.2, List.length_cons]
      congr 1
      omega
  have hall := hcsi 2
  simp only [List.cons_append, ansiSeqLen, if_true, List.length_cons, List.length_append]
  rw [hall]
  simp
  omega

/-- A clean text is scanned to itself. -/
theorem Clean.scan (h : Clean keepSGR p) (hfuel : p.length ≤ fuel) (buf : Bytes) :
    scan keepSGR fuel buf p = some (buf ++ p) := by
  induction h generalizing fuel buf with
  | nil => simp [Logger.scan]
  | @plain b rest hplain _ ih =>
    cases fuel with
    | zero => simp at hfuel
    | succ fuel =>
      rw [Logger.scan, if_pos hplain, ih (by simpa using hfuel)]
      simp
  | @colour sequence rest hmode hsequence _ ih =>
    have hlen := ansiSeqLen_colour hsequence rest
    obtain ⟨tail, rfl, -⟩ := hsequence.tail_plain
    cases fuel with
    | zero => simp at hfuel
    | succ fuel =>
      have hrest : rest.length ≤ fuel := by
        simp only [List.cons_append, List.length_cons, List.length_append] at hfuel
        omega
      rw [List.cons_append] at hlen ⊢
      rw [Logger.scan, if_neg (by decide), if_pos rfl, hlen, hmode]
      dsimp only
      rw [Bool.and_self, if_pos rfl, ← List.cons_append, List.take_left' rfl,
        List.drop_left' rfl, ← hmode, ih hrest, List.append_assoc]

theorem scan_plain (keepSGR : Bool) (h : ∀ b ∈ front, plain b = true) (fuel : Nat)
    (buf rest : Bytes) :
    scan keepSGR (front.length + fuel) buf (front ++ rest) =
      scan keepSGR fuel (buf ++ front) rest := by
  induction front generalizing buf with
  | nil => simp
  | cons b front ih =>
    rw [List.forall_mem_cons] at h
    rw [List.length_cons, Nat.add_right_comm, List.cons_append, scan, if_pos h.1, ih h.2]
    simp

/-- The copied bytes are those that the scan would copy one by one. -/
theorem sanitizeSeq_eq_scan (keepSGR : Bool) (p : Bytes) :
    sanitizeSeq keepSGR p = scan keepSGR p.length [] p := by
  unfold sanitizeSeq
  cases hbad : p.findIdx? (!plain ·) with
  | none =>
    have hplain : ∀ b ∈ p, plain b = true := by
      simpa using List.findIdx?_eq_none_iff.mp hbad
    have hscan := scan_plain keepSGR hplain 0 [] []
    rw [List.append_nil, Nat.add_zero] at hscan
    rw [hscan]
    rfl
  | some i =>
    obtain ⟨hi, -, hplain⟩ := List.findIdx?_eq_some_iff_getElem.mp hbad
    have hfront : ∀ b ∈ p.take i, plain b = true := by
      intro b hb
      obtain ⟨j, hj, rfl⟩ := List.mem_take_iff_getElem.mp hb
      have hnot := hplain j (by omega)
      simpa using hnot
    have hscan := scan_plain keepSGR hfront (p.length - i) [] (p.drop i)
    rw [List.take_append_drop, List.length_take, Nat.min_eq_left hi.le,
      Nat.add_sub_cancel' hi.le] at hscan
    rw [hscan, List.nil_append]

theorem sanitizeSeq_isSome (keepSGR : Bool) (p : Bytes) : (sanitizeSeq keepSGR p).isSome := by
  obtain ⟨out, hscan, -⟩ := scan_spec keepSGR (Nat.le_refl p.length) []
  rw [sanitizeSeq_eq_scan, hscan]
  rfl

def sanitize (p : Bytes) : Bytes :=
  (sanitizeSeq false p).get (sanitizeSeq_isSome false p)

def sanitizeKeepColors (p : Bytes) : Bytes :=
  (sanitizeSeq true p).get (sanitizeSeq_isSome true p)

/-- Sanitizing ends for every text and in both modes. What comes out has the
newlines of the text and is safe, a text without bad bytes is left as it is, and
sanitizing again changes nothing. -/
theorem sanitizeSeq_safe (keepSGR : Bool) (p : Bytes) :
    ∃ out, sanitizeSeq keepSGR p = some out ∧ out.count newline = p.count newline ∧
      Safe keepSGR out ∧ ((∀ b ∈ p, plain b = true) → out = p) ∧
      sanitizeSeq keepSGR out = some out := by
  obtain ⟨out, hscan, hclean, hcount⟩ := scan_spec keepSGR (Nat.le_refl p.length) []
  rw [List.nil_append, ← sanitizeSeq_eq_scan] at hscan
  refine ⟨out, hscan, hcount, hclean.safe, ?_, ?_⟩
  · intro hplain
    have hnone : p.findIdx? (!plain ·) = none := by
      rw [List.findIdx?_eq_none_iff]
      simpa using hplain
    rw [sanitizeSeq, hnone] at hscan
    exact (Option.some.inj hscan).symm
  · rw [sanitizeSeq_eq_scan, hclean.scan (Nat.le_refl _), List.nil_append]

end Gopherd.Logger
