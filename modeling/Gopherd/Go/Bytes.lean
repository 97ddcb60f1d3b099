import Mathlib.Data.List.DropRight
import Mathlib.Tactic

/-!
Go strings as the bytes they are made of, and the functions of Go's `strings`
and `bytes` packages that the YAML parser calls. White space is found by the
UTF-8 form of its code points; no other text contains one of these forms.
-/

namespace Gopherd.Go

abbrev Bytes := List UInt8

@[match_pattern] abbrev tab : UInt8 := 9
@[match_pattern] abbrev newline : UInt8 := 10
@[match_pattern] abbrev carriageReturn : UInt8 := 13
@[match_pattern] abbrev space : UInt8 := 32
@[match_pattern] abbrev doubleQuote : UInt8 := 34
@[match_pattern] abbrev hash : UInt8 := 35
@[match_pattern] abbrev singleQuote : UInt8 := 39
@[match_pattern] abbrev comma : UInt8 := 44
@[match_pattern] abbrev hyphen : UInt8 := 45
@[match_pattern] abbrev colon : UInt8 := 58
@[match_pattern] abbrev greater : UInt8 := 62
@[match_pattern] abbrev openBracket : UInt8 := 91
@[match_pattern] abbrev backslash : UInt8 := 92
@[match_pattern] abbrev closeBracket : UInt8 := 93
@[match_pattern] abbrev openBrace : UInt8 := 123
@[match_pattern] abbrev bar : UInt8 := 124
@[match_pattern] abbrev closeBrace : UInt8 := 125

def ascii (text : String) : Bytes :=
  text.toList.map fun c => UInt8.ofNat c.toNat

/-- The code points for which `unicode.IsSpace` holds, in UTF-8. -/
def spaceRunes : List Bytes :=
  [[9], [10], [11], [12], [13], [32], [0xC2, 0x85], [0xC2, 0xA0], [0xE1, 0x9A, 0x80],
    [0xE2, 0x80, 0x80], [0xE2, 0x80, 0x81], [0xE2, 0x80, 0x82], [0xE2, 0x80, 0x83],
    [0xE2, 0x80, 0x84], [0xE2, 0x80, 0x85], [0xE2, 0x80, 0x86], [0xE2, 0x80, 0x87],
    [0xE2, 0x80, 0x88], [0xE2, 0x80, 0x89], [0xE2, 0x80, 0x8A], [0xE2, 0x80, 0xA8],
    [0xE2, 0x80, 0xA9], [0xE2, 0x80, 0xAF], [0xE2, 0x81, 0x9F], [0xE3, 0x80, 0x80]]

/-- Drops one of the runes from the front for as long as there is one. Each of
them has a byte, so the length of the text is enough fuel. -/
def trimRunes (runes : List Bytes) : Nat → Bytes → Bytes
  | 0, s => s
  | fuel + 1, s =>
    match runes.find? (fun rune => rune.isPrefixOf s) with
    | some rune => trimRunes runes fuel (s.drop rune.length)
    | none => s

/-- `strings.TrimSpace`. -/
def trimSpaces (s : Bytes) : Bytes :=
  let front := trimRunes spaceRunes s.length s
  (trimRunes (spaceRunes.map List.reverse) front.length front.reverse).reverse

/-- `strings.TrimRight` with a set of ASCII characters. -/
def trimRight (cutset : Bytes) (s : Bytes) : Bytes :=
  s.rdropWhile (· ∈ cutset)

/-- The number of spaces in front: what `strings.TrimLeft` takes off. -/
def leadingSpaces (s : Bytes) : Nat :=
  (s.takeWhile (· = space)).length

/-- `strings.HasPrefix`. -/
def startsWith (start s : Bytes) : Bool :=
  start.isPrefixOf s

/-- `strings.HasSuffix`. -/
def endsWith (ending s : Bytes) : Bool :=
  ending.isSuffixOf s

/-- `strings.Join` with a line break in between. -/
def joinLines (lines : List Bytes) : Bytes :=
  [newline].intercalate lines

variable {s rest : Bytes} {b c : UInt8} {runes : List Bytes}

theorem endsWith_concat (h : c ≠ b) : endsWith [c] (s ++ [b]) = false := by
  rw [endsWith, ← Bool.not_eq_true, List.isSuffixOf_iff_suffix]
  rintro ⟨init, hinit⟩
  exact h (List.singleton_inj.mp (List.append_inj' hinit rfl).2)

/-- The parts of a split are made of the other bytes of the text. -/
theorem mem_of_mem_splitOn (hpart : part ∈ s.splitOn sep) (hc : c ∈ part) : c ∈ s ∧ c ≠ sep := by
  induction s generalizing part with
  | nil => simp_all
  | cons b s ih =>
    rw [List.splitOn_cons_eq_if_modifyHead] at hpart
    split_ifs at hpart with hb
    · rcases List.mem_cons.mp hpart with rfl | hpart
      · simp at hc
      · obtain ⟨hmem, hne⟩ := ih hpart hc
        exact ⟨by simp [hmem], hne⟩
    · obtain ⟨first, parts, hsplit⟩ := List.exists_cons_of_ne_nil (List.splitOn_ne_nil sep s)
      rw [hsplit, List.modifyHead_cons] at hpart
      rw [hsplit] at ih
      rcases List.mem_cons.mp hpart with rfl | hpart
      · rcases List.mem_cons.mp hc with rfl | hc
        · exact ⟨by simp, by simpa using hb⟩
        · obtain ⟨hmem, hne⟩ := ih (by simp) hc
          exact ⟨by simp [hmem], hne⟩
      · obtain ⟨hmem, hne⟩ := ih (by simp [hpart]) hc
        exact ⟨by simp [hmem], hne⟩

/-- A start without the byte `c` lies in front of its first occurrence. -/
theorem prefix_of_prefix_append_cons (hc : c ∉ start) (h : start <+: s ++ c :: rest) :
    start <+: s := by
  induction s generalizing start with
  | nil =>
    cases start with
    | nil => exact List.prefix_refl _
    | cons b start =>
      have hb := (List.cons_prefix_cons.mp h).1
      exact absurd (by simp [hb]) hc
  | cons a s ih =>
    cases start with
    | nil => exact List.nil_prefix
    | cons b start =>
      obtain ⟨rfl, htail⟩ := List.cons_prefix_cons.mp h
      have hstart := ih (fun hmem => hc (by simp [hmem])) htail
      exact List.cons_prefix_cons.mpr ⟨rfl, hstart⟩

/-- A printable ASCII character: no white space has it at either end. -/
def solid (b : UInt8) : Bool :=
  33 ≤ b && b < 127

def SpaceFree (runes : List Bytes) (s : Bytes) : Prop :=
  ∀ rune ∈ runes, ¬ rune <+: s

theorem spaceFree_cons
    (hrunes : runes.all (fun rune => rune.head?.any (fun first => !solid first)) = true)
    (hb : solid b = true) : SpaceFree runes (b :: rest) := by
  intro rune hrune
  have hfirst := List.all_eq_true.mp hrunes rune hrune
  cases rune with
  | nil => simp at hfirst
  | cons first tail =>
    have hne : first ≠ b := by
      rintro rfl
      simp [hb] at hfirst
    simp [List.cons_prefix_cons, hne]

theorem spaceRunes_not_solid :
    spaceRunes.all (fun rune => rune.head?.any (fun first => !solid first)) = true := by
  decide

theorem spaceRunes_reverse_not_solid :
    (spaceRunes.map List.reverse).all
      (fun rune => rune.head?.any (fun first => !solid first)) = true := by
  decide

theorem trimRunes_of_spaceFree (h : SpaceFree runes s) (fuel : Nat) :
    trimRunes runes fuel s = s := by
  cases fuel with
  | zero => rfl
  | succ fuel =>
    have hnone : runes.find? (fun rune => rune.isPrefixOf s) = none := by
      rw [List.find?_eq_none]
      intro rune hrune
      simpa using h rune hrune
    simp [trimRunes, hnone]

structure Tight (s : Bytes) : Prop where
  front : SpaceFree spaceRunes s
  back : SpaceFree (spaceRunes.map List.reverse) s.reverse

theorem back_of_solid (hb : solid b = true) :
    SpaceFree (spaceRunes.map List.reverse) (s ++ [b]).reverse := by
  rw [List.reverse_append, List.reverse_singleton, List.singleton_append]
  exact spaceFree_cons spaceRunes_reverse_not_solid hb

/-- A text between two printable characters. -/
theorem Tight.of_solid (ha : solid a = true) (hb : solid b = true) : Tight (a :: s ++ [b]) :=
  ⟨spaceFree_cons spaceRunes_not_solid ha, back_of_solid hb⟩

theorem not_mem_spaceRunes (hc : solid c = true) (hrune : rune ∈ spaceRunes) : c ∉ rune := by
  intro hmem
  have hrunes : spaceRunes.all (fun rune => rune.all (fun b => !solid b)) = true := by decide
  have hbyte := List.all_eq_true.mp (List.all_eq_true.mp hrunes rune hrune) c hmem
  simp [hc] at hbyte

/-- White space contains no printable character, so what follows one does not
matter. -/
theorem SpaceFree.append_cons (h : SpaceFree spaceRunes s) (hc : solid c = true) :
    SpaceFree spaceRunes (s ++ c :: rest) := by
  intro rune hrune hfront
  exact h rune hrune (prefix_of_prefix_append_cons (not_mem_spaceRunes hc hrune) hfront)

theorem Tight.trimSpaces (h : Tight s) : trimSpaces s = s := by
  simp only [Go.trimSpaces]
  rw [trimRunes_of_spaceFree h.front, trimRunes_of_spaceFree h.back, List.reverse_reverse]

theorem find_space (rest : Bytes) :
    spaceRunes.find? (fun rune => rune.isPrefixOf (space :: rest)) = some [space] := by
  simp [spaceRunes, List.find?, List.isPrefixOf, space]

theorem trimRunes_replicate (h : SpaceFree spaceRunes s) (n fuel : Nat) :
    trimRunes spaceRunes (n + fuel) (List.replicate n space ++ s) = s := by
  induction n with
  | zero =>
    rw [List.replicate_zero, List.nil_append]
    exact trimRunes_of_spaceFree h _
  | succ n ih =>
    rw [List.replicate_succ, List.cons_append, Nat.add_right_comm, trimRunes, find_space]
    exact ih

/-- Indentation is trimmed away. -/
theorem Tight.trimSpaces_indented (h : Tight s) (n : Nat) :
    Go.trimSpaces (List.replicate n space ++ s) = s := by
  simp only [Go.trimSpaces]
  rw [List.length_append, List.length_replicate, trimRunes_replicate h.front,
    trimRunes_of_spaceFree h.back, List.reverse_reverse]

/-- What trimming leaves is a part of the text. -/
theorem trimRunes_isSuffix (runes : List Bytes) (fuel : Nat) (s : Bytes) :
    trimRunes runes fuel s <:+ s := by
  induction fuel generalizing s with
  | zero => exact List.suffix_refl s
  | succ fuel ih =>
    unfold trimRunes
    split
    · exact (ih _).trans (List.drop_suffix _ _)
    · exact List.suffix_refl s

theorem trimSpaces_isInfix (s : Bytes) : trimSpaces s <:+: s := by
  have hback := List.reverse_prefix.mpr (trimRunes_isSuffix (spaceRunes.map List.reverse)
    (trimRunes spaceRunes s.length s).length (trimRunes spaceRunes s.length s).reverse)
  rw [List.reverse_reverse] at hback
  exact hback.isInfix.trans (trimRunes_isSuffix spaceRunes s.length s).isInfix

/-- Nothing is trimmed from the front of a text that begins with no white space. -/
theorem SpaceFree.trimSpaces_isPrefix (h : SpaceFree spaceRunes s) :
    trimSpaces s <+: s := by
  simp only [trimSpaces]
  rw [trimRunes_of_spaceFree h, ← List.reverse_suffix, List.reverse_reverse]
  exact trimRunes_isSuffix _ _ _

theorem length_trimSpaces_le (s : Bytes) : (trimSpaces s).length ≤ s.length :=
  (trimSpaces_isInfix s).length_le

theorem trimRight_isPrefix (cutset s : Bytes) : trimRight cutset s <+: s :=
  List.rdropWhile_prefix _ s

@[simp]
theorem trimRight_concat (cutset s : Bytes) (hb : b ∉ cutset) :
    trimRight cutset (s ++ [b]) = s ++ [b] :=
  List.rdropWhile_concat_neg _ _ _ (by simpa using hb)

/-- A text without white space at its end keeps it, whatever stands in front. -/
theorem Tight.trimRight (h : Tight s) (hne : s ≠ []) (start : Bytes) :
    Go.trimRight [space, tab, carriageReturn] (start ++ s) = start ++ s := by
  obtain ⟨init, last, rfl⟩ := List.eq_nil_or_concat s |>.resolve_left hne
  have hlast : ∀ b : UInt8, [b] ∈ spaceRunes.map List.reverse → last ≠ b := by
    rintro b hb rfl
    exact h.back [last] hb (by simp)
  have hcut : last ∉ [space, tab, carriageReturn] := by
    simp only [List.mem_cons, List.not_mem_nil, or_false, not_or]
    exact ⟨hlast _ (by decide), hlast _ (by decide), hlast _ (by decide)⟩
  rw [List.concat_eq_append, ← List.append_assoc]
  exact trimRight_concat _ _ hcut

/-- Trimming leaves a text alone only if there is nothing to trim. -/
theorem spaceFree_of_trimSpaces (h : Go.trimSpaces s = s) : SpaceFree spaceRunes s := by
  intro rune hrune hfront
  have hpos : 0 < rune.length := by
    have hall : spaceRunes.all (fun rune => 0 < rune.length) = true := by decide
    simpa using List.all_eq_true.mp hall rune hrune
  have hlength := hfront.length_le
  obtain ⟨n, hn⟩ : ∃ n, s.length = n + 1 := ⟨s.length - 1, by omega⟩
  have hsome : (spaceRunes.find? fun rune => rune.isPrefixOf s).isSome := by
    rw [List.find?_isSome]
    exact ⟨rune, hrune, by simpa using hfront⟩
  obtain ⟨first, hfirst⟩ := Option.isSome_iff_exists.mp hsome
  have hfirstPos : 0 < first.length := by
    have hall : spaceRunes.all (fun rune => 0 < rune.length) = true := by decide
    simpa using List.all_eq_true.mp hall first (List.mem_of_find?_eq_some hfirst)
  have hfront : (trimRunes spaceRunes s.length s).length < s.length := by
    rw [hn, trimRunes, hfirst]
    have hle := (trimRunes_isSuffix spaceRunes n (s.drop first.length)).length_le
    rw [List.length_drop] at hle
    simp only
    omega
  have hback := (trimRunes_isSuffix (spaceRunes.map List.reverse)
    (trimRunes spaceRunes s.length s).length (trimRunes spaceRunes s.length s).reverse).length_le
  have htrim := congrArg List.length h
  simp only [Go.trimSpaces, List.length_reverse] at htrim hback
  omega

/-- What is trimmed from the front of a text stands before its first printable
character. -/
theorem trimRunes_append_cons (hc : ∀ rune ∈ runes, c ∉ rune) (fuel : Nat) (s rest : Bytes) :
    ∃ s', s' <:+ s ∧ trimRunes runes fuel (s ++ c :: rest) = s' ++ c :: rest := by
  induction fuel generalizing s with
  | zero => exact ⟨s, List.suffix_refl s, rfl⟩
  | succ fuel ih =>
    unfold trimRunes
    split
    · rename_i rune hfind
      have hfront : rune <+: s := by
        have hmem := List.mem_of_find?_eq_some hfind
        have hall := List.find?_some hfind
        exact prefix_of_prefix_append_cons (hc rune hmem) (by simpa using hall)
      rw [List.drop_append_of_le_length hfront.length_le]
      obtain ⟨s', hs', heq⟩ := ih (s.drop rune.length)
      exact ⟨s', hs'.trans (List.drop_suffix _ _), heq⟩
    · exact ⟨s, List.suffix_refl s, rfl⟩

theorem trimSpaces_append_cons (hc : solid c = true) (hb : solid b = true)
    (hlast : c :: rest = init ++ [b]) (s : Bytes) :
    ∃ s', s' <:+ s ∧ Go.trimSpaces (s ++ c :: rest) = s' ++ c :: rest := by
  obtain ⟨s', hsuffix, hfront⟩ := trimRunes_append_cons
    (fun rune hrune => not_mem_spaceRunes hc hrune) (s ++ c :: rest).length s rest
  have hback : SpaceFree (spaceRunes.map List.reverse) (s' ++ c :: rest).reverse := by
    rw [hlast, ← List.append_assoc]
    exact back_of_solid hb
  refine ⟨s', hsuffix, ?_⟩
  simp only [Go.trimSpaces]
  rw [hfront, trimRunes_of_spaceFree hback, List.reverse_reverse]

theorem leadingSpaces_indented (h : s.head? ≠ some space) (n : Nat) :
    leadingSpaces (List.replicate n space ++ s) = n := by
  have htake : (List.replicate n space ++ s).takeWhile (· = space) = List.replicate n space := by
    rw [List.takeWhile_append_of_pos (by simp)]
    cases s with
    | nil => simp
    | cons b rest =>
      have hne : b ≠ space := by simpa using h
      simp [hne]
  rw [leadingSpaces, htake, List.length_replicate]

end Gopherd.Go
