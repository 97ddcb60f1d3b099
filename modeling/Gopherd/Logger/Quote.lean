import Gopherd.Yaml.Access

/-!
`strconv.Quote`: a text between double quotes, with escapes for what is not
printable. Which code points are printable is a table of Go and a parameter
here.
-/

namespace Gopherd.Logger

open Go Yaml

/-- `utf8.AppendRune`. -/
def encodeRune (c : Char) : Bytes :=
  let code := c.toNat
  if code < 0x80 then [UInt8.ofNat code]
  else if code < 0x800 then [UInt8.ofNat (0xC0 + code / 64), UInt8.ofNat (0x80 + code % 64)]
  else if code < 0x10000 then
    [UInt8.ofNat (0xE0 + code / 4096), UInt8.ofNat (0x80 + code / 64 % 64),
      UInt8.ofNat (0x80 + code % 64)]
  else
    [UInt8.ofNat (0xF0 + code / 262144), UInt8.ofNat (0x80 + code / 4096 % 64),
      UInt8.ofNat (0x80 + code / 64 % 64), UInt8.ofNat (0x80 + code % 64)]

def hexDigit (n : Nat) : UInt8 :=
  if n < 10 then UInt8.ofNat (48 + n) else UInt8.ofNat (87 + n)

def hexDigits : Nat → Nat → Bytes
  | 0, _ => []
  | width + 1, n => hexDigits width (n / 16) ++ [hexDigit (n % 16)]

structure PrintTable where
  isPrint : Char → Bool
  control : ∀ c : Char, c.toNat < 32 → isPrint c = false

/-- The letter of a control character that has an escape of its own. -/
def controlLetter (c : Char) : Option UInt8 :=
  match c.toNat with
  | 7 => some 97
  | 8 => some 98
  | 9 => some 116
  | 10 => some 110
  | 11 => some 118
  | 12 => some 102
  | 13 => some 114
  | _ => none

def escapeHexByte (code : Nat) : Bytes :=
  backslash :: 120 :: hexDigits 2 code

/-- `appendEscapedRune`. -/
def escapeRune (table : PrintTable) (c : Char) : Bytes :=
  if c = '"' ∨ c = '\\' then [backslash, UInt8.ofNat c.toNat]
  else if table.isPrint c then encodeRune c
  else
    match controlLetter c with
    | some letter => [backslash, letter]
    | none =>
      if c.toNat < 32 ∨ c.toNat = 127 then escapeHexByte c.toNat
      else if c.toNat < 0x10000 then backslash :: 117 :: hexDigits 4 c.toNat
      else backslash :: 85 :: hexDigits 8 c.toNat

/-- `appendQuotedWith`; every code point has a byte, so the length of the text is
enough fuel. A byte that belongs to no code point is written as a number. -/
def escapeFrom (table : PrintTable) : Nat → Bytes → Bytes
  | 0, _ => []
  | _ + 1, [] => []
  | fuel + 1, first :: rest =>
    let (c, size) := decodeRune first rest
    (if size = 1 ∧ c = '�' then escapeHexByte first.toNat else escapeRune table c) ++
      escapeFrom table fuel (rest.drop (size - 1))

def quote (table : PrintTable) (s : Bytes) : Bytes :=
  doubleQuote :: escapeFrom table s.length s ++ [doubleQuote]

theorem continuation_eq_some (h : continuation b = some low) :
    b = some (UInt8.ofNat (0x80 + low)) ∧ low < 64 := by
  cases b with
  | none => cases h
  | some byte =>
    simp only [continuation] at h
    split_ifs at h with hrange
    have hbyte := Option.some_inj.mp h
    have hlow : 0x80 ≤ byte.toNat := hrange.1
    have hhigh : byte.toNat < 0xC0 := hrange.2
    refine ⟨?_, by omega⟩
    rw [show 0x80 + low = byte.toNat by omega, UInt8.ofNat_toNat]

variable {n width code : Nat} {rest s : Bytes} {b letter : UInt8} {c : Char}

theorem toNat_ofNat (h : n < 0xD800 ∨ (0xDFFF < n ∧ n < 0x110000)) :
    (Char.ofNat n).toNat = n := by
  have hvalid : n.isValidChar := h
  rw [Char.ofNat, dif_pos hvalid]
  rfl

theorem drop_of_getElem? (h : rest[index]? = some b) :
    rest.drop index = b :: rest.drop (index + 1) := by
  obtain ⟨hlt, rfl⟩ := List.getElem?_eq_some_iff.mp h
  exact List.drop_eq_getElem_cons hlt

/-- A code point that was decoded stands in the text with its bytes. -/
theorem encodeRune_decodeRune (h : decodeRune first rest = (c, size))
    (hvalid : ¬ (size = 1 ∧ c = '�')) : first :: rest = encodeRune c ++ rest.drop (size - 1) := by
  have hfirst : UInt8.ofNat first.toNat = first := UInt8.ofNat_toNat
  have hbyte := first.toNat_lt
  have hinvalid : ('�', 1) ≠ (c, size) := by
    rintro ⟨⟩
    exact hvalid ⟨rfl, rfl⟩
  simp only [decodeRune] at h
  split_ifs at h with hone htwo hthree hfour
  · obtain ⟨rfl, rfl⟩ := Prod.mk.inj h
    rw [encodeRune, toNat_ofNat (by omega), if_pos hone, hfirst]
    rfl
  · split at h
    · next a ha =>
        obtain ⟨rfl, rfl⟩ := Prod.mk.inj h
        obtain ⟨hrest, hlow⟩ := continuation_eq_some ha
        have hsplit := drop_of_getElem? hrest
        rw [encodeRune, toNat_ofNat (by omega), if_neg (by omega), if_pos (by omega)]
        rw [List.drop_zero] at hsplit
        rw [show 0xC0 + ((first.toNat - 0xC0) * 64 + a) / 64 = first.toNat by omega,
          show ((first.toNat - 0xC0) * 64 + a) % 64 = a by omega, hfirst, hsplit]
        rfl
    · exact absurd h hinvalid
  · split at h
    · next a b ha hb =>
        split_ifs at h with hcode
        · obtain ⟨rfl, rfl⟩ := Prod.mk.inj h
          obtain ⟨hrest, hlow⟩ := continuation_eq_some ha
          obtain ⟨hrest', hlow'⟩ := continuation_eq_some hb
          have hsplit := drop_of_getElem? hrest
          rw [List.drop_zero, drop_of_getElem? hrest'] at hsplit
          rw [encodeRune, toNat_ofNat (by omega), if_neg (by omega), if_neg (by omega),
            if_pos (by omega)]
          rw [show 0xE0 + (((first.toNat - 0xE0) * 64 + a) * 64 + b) / 4096 =
              first.toNat by omega,
            show (((first.toNat - 0xE0) * 64 + a) * 64 + b) / 64 % 64 = a by omega,
            show (((first.toNat - 0xE0) * 64 + a) * 64 + b) % 64 = b by omega,
            hfirst, hsplit]
          rfl
        · exact absurd h hinvalid
    · exact absurd h hinvalid
  · split at h
    · next a b last ha hb hc =>
        split_ifs at h with hcode
        · obtain ⟨rfl, rfl⟩ := Prod.mk.inj h
          obtain ⟨hrest, hlow⟩ := continuation_eq_some ha
          obtain ⟨hrest', hlow'⟩ := continuation_eq_some hb
          obtain ⟨hlast, hlow''⟩ := continuation_eq_some hc
          have hsplit := drop_of_getElem? hrest
          rw [List.drop_zero, drop_of_getElem? hrest', drop_of_getElem? hlast] at hsplit
          rw [encodeRune, toNat_ofNat (by omega), if_neg (by omega),
            if_neg (by omega), if_neg (by omega)]
          rw [show 0xF0 + ((((first.toNat - 0xF0) * 64 + a) * 64 + b) * 64 + last) /
              262144 = first.toNat by omega,
            show ((((first.toNat - 0xF0) * 64 + a) * 64 + b) * 64 + last) / 4096 % 64 =
              a by omega,
            show ((((first.toNat - 0xF0) * 64 + a) * 64 + b) * 64 + last) / 64 % 64 =
              b by omega,
            show ((((first.toNat - 0xF0) * 64 + a) * 64 + b) * 64 + last) % 64 =
              last by omega, hfirst, hsplit]
          rfl
        · exact absurd h hinvalid
    · exact absurd h hinvalid
  · exact absurd h hinvalid

theorem toNat_mem_encodeRune (hb : b ∈ encodeRune c) :
    (c.toNat < 0x80 ∧ b.toNat = c.toNat) ∨ (0x80 ≤ c.toNat ∧ 0x80 ≤ b.toNat) := by
  have hmax : c.toNat < 0x110000 := by
    have hvalid := c.valid
    simp only [UInt32.isValidChar, Nat.isValidChar] at hvalid
    change c.val.toNat < _
    omega
  simp only [encodeRune] at hb
  split_ifs at hb <;>
    simp only [List.mem_cons, List.not_mem_nil, or_false] at hb <;>
    rcases hb with rfl | rfl | rfl | rfl <;>
    simp only [UInt8.toNat_ofNat'] <;> omega

def hexDigitValue (b : UInt8) : Nat :=
  if b < 58 then b.toNat - 48 else b.toNat - 87

def hexValue (digits : Bytes) : Nat :=
  digits.foldl (fun value b => 16 * value + hexDigitValue b) 0

theorem hexDigitValue_hexDigit (h : n < 16) : hexDigitValue (hexDigit n) = n := by
  interval_cases n <;> rfl

@[simp]
theorem length_hexDigits (width n : Nat) : (hexDigits width n).length = width := by
  induction width generalizing n with
  | zero => rfl
  | succ width ih => simp [hexDigits, ih]

theorem hexValue_hexDigits (h : n < 16 ^ width) :
    hexValue (hexDigits width n) = n := by
  induction width generalizing n with
  | zero => simp_all [hexValue, hexDigits]
  | succ width ih =>
    have hdiv : n / 16 < 16 ^ width := Nat.div_lt_of_lt_mul (by rwa [pow_succ'] at h)
    have hrest := ih hdiv
    simp only [hexValue, hexDigits, List.foldl_append, List.foldl_cons, List.foldl_nil] at hrest ⊢
    rw [hrest, hexDigitValue_hexDigit (Nat.mod_lt _ (by decide))]
    omega

def letterValue (letter : UInt8) : UInt8 :=
  match letter with
  | 97 => 7
  | 98 => 8
  | 116 => 9
  | 110 => 10
  | 118 => 11
  | 102 => 12
  | 114 => 13
  | other => other

def unescape : Bytes → Bytes
  | [] => []
  | b :: rest =>
    if b = backslash then
      let letter := rest.headD backslash
      if letter = 120 then
        UInt8.ofNat (hexValue (rest.tail.take 2)) :: unescape (rest.tail.drop 2)
      else if letter = 117 then
        encodeRune (Char.ofNat (hexValue (rest.tail.take 4))) ++ unescape (rest.tail.drop 4)
      else if letter = 85 then
        encodeRune (Char.ofNat (hexValue (rest.tail.take 8))) ++ unescape (rest.tail.drop 8)
      else letterValue letter :: unescape rest.tail
    else b :: unescape rest
  termination_by s => s.length
  decreasing_by all_goals simp_wf

theorem unescape_plain (h : ∀ b ∈ s, b ≠ backslash) (rest : Bytes) :
    unescape (s ++ rest) = s ++ unescape rest := by
  induction s with
  | nil => rfl
  | cons b s ih =>
    rw [List.cons_append, unescape, if_neg (h b List.mem_cons_self),
      ih (fun c hc => h c (List.mem_cons_of_mem _ hc))]
    rfl

theorem unescape_escapeHexByte (h : code < 256) (rest : Bytes) :
    unescape (escapeHexByte code ++ rest) = UInt8.ofNat code :: unescape rest := by
  have htake : (hexDigits 2 code ++ rest).take 2 = hexDigits 2 code :=
    List.take_left' (length_hexDigits 2 code)
  have hdrop : (hexDigits 2 code ++ rest).drop 2 = rest :=
    List.drop_left' (length_hexDigits 2 code)
  simp only [escapeHexByte, List.cons_append, unescape, List.headD_cons, List.tail_cons, if_true,
    htake, hdrop]
  rw [hexValue_hexDigits h]

theorem unescape_long (rest : Bytes)
    (hletter : (letter = 117 ∧ width = 4) ∨ (letter = 85 ∧ width = 8)) (hcode : code < 16 ^ width) :
    unescape (backslash :: letter :: hexDigits width code ++ rest) =
      encodeRune (Char.ofNat code) ++ unescape rest := by
  have htake : (hexDigits width code ++ rest).take width = hexDigits width code :=
    List.take_left' (length_hexDigits width code)
  have hdrop : (hexDigits width code ++ rest).drop width = rest :=
    List.drop_left' (length_hexDigits width code)
  have hvalue := hexValue_hexDigits hcode
  rcases hletter with ⟨rfl, rfl⟩ | ⟨rfl, rfl⟩ <;>
    simp [unescape, htake, hdrop, hvalue]

theorem unescape_letter (rest : Bytes) (hletter : letter ≠ 120 ∧ letter ≠ 117 ∧ letter ≠ 85) :
    unescape (backslash :: letter :: rest) = letterValue letter :: unescape rest := by
  simp [unescape, hletter]

theorem encodeRune_ascii (h : c.toNat < 0x80) :
    encodeRune c = [UInt8.ofNat c.toNat] := by
  simp [encodeRune, h]

theorem controlLetter_eq_some (h : controlLetter c = some letter) :
    (letter ≠ 120 ∧ letter ≠ 117 ∧ letter ≠ 85) ∧ encodeRune c = [letterValue letter] := by
  unfold controlLetter at h
  split at h <;> rename_i hcode <;> cases h <;>
    exact ⟨by decide, by rw [encodeRune_ascii (by omega), hcode]; rfl⟩

/-- A code point is read back from its escape. -/
theorem unescape_escapeRune (table : PrintTable) (c : Char) (rest : Bytes) :
    unescape (escapeRune table c ++ rest) = encodeRune c ++ unescape rest := by
  have hchar : Char.ofNat c.toNat = c := Char.ofNat_toNat c
  have hmax : c.toNat < 0x110000 := by
    have hvalid := c.valid
    simp only [UInt32.isValidChar, Nat.isValidChar] at hvalid
    change c.val.toNat < _
    omega
  unfold escapeRune
  by_cases hspecial : c = '"' ∨ c = '\\'
  · rw [if_pos hspecial]
    rcases hspecial with rfl | rfl
    · exact unescape_letter rest (by decide)
    · exact unescape_letter rest (by decide)
  rw [if_neg hspecial]
  by_cases hprint : table.isPrint c = true
  · rw [if_pos hprint]
    refine unescape_plain ?_ rest
    intro b hb heq
    subst heq
    rcases toNat_mem_encodeRune hb with ⟨_, hcode⟩ | ⟨_, hcode⟩
    · refine hspecial (.inr ?_)
      rw [← hchar, ← hcode]
      rfl
    · exact absurd hcode (by decide)
  rw [if_neg hprint]
  cases hletter : controlLetter c with
  | some letter =>
    obtain ⟨hne, hencode⟩ := controlLetter_eq_some hletter
    rw [hencode]
    exact unescape_letter rest hne
  | none =>
    dsimp only
    split_ifs with hcontrol hshort
    · rw [encodeRune_ascii (by omega)]
      exact unescape_escapeHexByte (by omega) rest
    · have hread := unescape_long rest (.inl ⟨rfl, rfl⟩) hshort
      rwa [hchar] at hread
    · have hlong : c.toNat < 16 ^ 8 := by omega
      have hread := unescape_long rest (.inr ⟨rfl, rfl⟩) hlong
      rwa [hchar] at hread

/-- The text between the quotes is read back. -/
theorem unescape_escapeFrom (table : PrintTable) (hfuel : s.length ≤ fuel) :
    unescape (escapeFrom table fuel s) = s := by
  induction fuel generalizing s with
  | zero =>
    obtain rfl := List.length_eq_zero_iff.mp (Nat.le_zero.mp hfuel)
    simp [escapeFrom, unescape]
  | succ fuel ih =>
    cases s with
    | nil => simp [escapeFrom, unescape]
    | cons first rest =>
      cases hdecode : decodeRune first rest with
      | mk c size =>
        simp only [escapeFrom, hdecode]
        have hrest : (rest.drop (size - 1)).length ≤ fuel := by
          simp only [List.length_drop, List.length_cons] at hfuel ⊢
          omega
        split_ifs with hinvalid
        · obtain ⟨rfl, rfl⟩ := hinvalid
          rw [unescape_escapeHexByte first.toNat_lt, ih hrest, UInt8.ofNat_toNat]
          rfl
        · rw [unescape_escapeRune, ih hrest]
          exact (encodeRune_decodeRune hdecode hinvalid).symm

theorem quote_injective (table : PrintTable) : Function.Injective (quote table) := by
  intro s t h
  have hbody : escapeFrom table s.length s = escapeFrom table t.length t := by
    simpa [quote] using h
  rw [← unescape_escapeFrom table (le_refl s.length), hbody,
    unescape_escapeFrom table (le_refl t.length)]

inductive Escaped : Bytes → Prop
  | nil : Escaped []
  | byte {b : UInt8} {rest : Bytes} (hvisible : 32 ≤ b.toNat) (hquote : b ≠ doubleQuote)
      (hslash : b ≠ backslash) (hrest : Escaped rest) : Escaped (b :: rest)
  | escape {b : UInt8} {rest : Bytes} (hvisible : 32 ≤ b.toNat) (hrest : Escaped rest) :
      Escaped (backslash :: b :: rest)

theorem Escaped.visible (h : Escaped s) (hb : b ∈ s) : 32 ≤ b.toNat := by
  induction h with
  | nil => cases hb
  | byte hvisible _ _ _ ih =>
    rcases List.mem_cons.mp hb with rfl | hb
    · exact hvisible
    · exact ih hb
  | escape hvisible _ ih =>
    rcases List.mem_cons.mp hb with rfl | hb
    · decide
    · rcases List.mem_cons.mp hb with rfl | hb
      · exact hvisible
      · exact ih hb

/-- No quote stands right after another character than a backslash. -/
theorem Escaped.not_opened (h : Escaped s) (hb : b ≠ backslash) :
    s ≠ front ++ b :: doubleQuote :: back := by
  induction h generalizing front with
  | nil => simp
  | byte hvisible hquote hslash hrest ih =>
    intro heq
    cases front with
    | nil =>
      obtain ⟨rfl, rfl⟩ := List.cons.inj heq
      cases hrest with
      | byte _ hquote' _ _ => exact hquote' rfl
    | cons first front => exact ih (List.cons.inj heq).2
  | escape hvisible hrest ih =>
    intro heq
    cases front with
    | nil => exact hb (List.cons.inj heq).1.symm
    | cons first front =>
      cases front with
      | nil =>
        obtain ⟨-, rfl⟩ := List.cons.inj (List.cons.inj heq).2
        cases hrest with
        | byte _ hquote' _ _ => exact hquote' rfl
      | cons second front => exact ih (List.cons.inj (List.cons.inj heq).2).2

theorem Escaped.plain {s rest : Bytes}
    (h : ∀ b ∈ s, 32 ≤ b.toNat ∧ b ≠ doubleQuote ∧ b ≠ backslash) (hrest : Escaped rest) :
    Escaped (s ++ rest) := by
  induction s with
  | nil => exact hrest
  | cons b s ih =>
    obtain ⟨hvisible, hquote, hslash⟩ := h b List.mem_cons_self
    exact .byte hvisible hquote hslash (ih fun c hc => h c (List.mem_cons_of_mem _ hc))

theorem hexDigits_plain (hb : b ∈ hexDigits width n) :
    32 ≤ b.toNat ∧ b ≠ doubleQuote ∧ b ≠ backslash := by
  induction width generalizing n with
  | zero => cases hb
  | succ width ih =>
    rcases List.mem_append.mp hb with hb | hb
    · exact ih hb
    · obtain rfl := List.mem_singleton.mp hb
      have hdigit : n % 16 < 16 := Nat.mod_lt _ (by decide)
      interval_cases n % 16 <;> decide

theorem Escaped.hexByte (hrest : Escaped rest) :
    Escaped (escapeHexByte code ++ rest) :=
  .escape (by decide) (.plain (fun _ => hexDigits_plain) hrest)

theorem controlLetter_visible (h : controlLetter c = some letter) :
    32 ≤ letter.toNat := by
  unfold controlLetter at h
  split at h <;> cases h <;> decide

theorem Escaped.rune (table : PrintTable) (c : Char) (hrest : Escaped rest) :
    Escaped (escapeRune table c ++ rest) := by
  have hchar : Char.ofNat c.toNat = c := Char.ofNat_toNat c
  unfold escapeRune
  by_cases hspecial : c = '"' ∨ c = '\\'
  · rw [if_pos hspecial]
    rcases hspecial with rfl | rfl
    · exact .escape (by decide) hrest
    · exact .escape (by decide) hrest
  rw [if_neg hspecial]
  by_cases hprint : table.isPrint c = true
  · rw [if_pos hprint]
    have hcontrol : ¬ c.toNat < 32 := fun hlt => by simp [table.control c hlt] at hprint
    refine .plain (fun b hb => ?_) hrest
    rcases toNat_mem_encodeRune hb with ⟨_, hcode⟩ | ⟨_, hcode⟩
    · refine ⟨by omega, ?_, ?_⟩
      · rintro rfl
        exact hspecial (.inl (by rw [← hchar, ← hcode]; rfl))
      · rintro rfl
        exact hspecial (.inr (by rw [← hchar, ← hcode]; rfl))
    · refine ⟨by omega, ?_, ?_⟩
      · rintro rfl
        exact absurd hcode (by decide)
      · rintro rfl
        exact absurd hcode (by decide)
  rw [if_neg hprint]
  cases hletter : controlLetter c with
  | some letter => exact .escape (controlLetter_visible hletter) hrest
  | none =>
    dsimp only
    split_ifs
    · exact .hexByte hrest
    · exact .escape (by decide) (.plain (fun _ => hexDigits_plain) hrest)
    · exact .escape (by decide) (.plain (fun _ => hexDigits_plain) hrest)

theorem escapeFrom_escaped (table : PrintTable) (fuel : Nat) (s : Bytes) :
    Escaped (escapeFrom table fuel s) := by
  induction fuel generalizing s with
  | zero => exact .nil
  | succ fuel ih =>
    cases s with
    | nil => exact .nil
    | cons first rest =>
      simp only [escapeFrom]
      split_ifs
      · exact .hexByte (ih _)
      · exact .rune table _ (ih _)

end Gopherd.Logger
