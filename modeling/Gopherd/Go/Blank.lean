import Gopherd.Go.Bytes

namespace Gopherd.Go

def White (s : Bytes) : Prop :=
  ∃ runes : List Bytes, (∀ rune ∈ runes, rune ∈ spaceRunes) ∧ runes.flatten = s

theorem trimRunes_split (runes : List Bytes) (fuel : Nat) (s : Bytes) :
    ∃ front : List Bytes, (∀ rune ∈ front, rune ∈ runes) ∧
      s = front.flatten ++ trimRunes runes fuel s := by
  induction fuel generalizing s with
  | zero => exact ⟨[], by simp, rfl⟩
  | succ fuel ih =>
    unfold trimRunes
    split
    · rename_i rune hfind
      obtain ⟨rest, rfl⟩ : rune <+: s := by simpa using List.find?_some hfind
      obtain ⟨front, hfront, heq⟩ := ih ((rune ++ rest).drop rune.length)
      rw [List.drop_left] at heq
      refine ⟨rune :: front, ?_, ?_⟩
      · exact List.forall_mem_cons.mpr ⟨List.mem_of_find?_eq_some hfind, hfront⟩
      · rw [List.flatten_cons, List.append_assoc, List.drop_left, ← heq]
    · exact ⟨[], by simp, rfl⟩

theorem spaceRunes_pos : spaceRunes.all (fun rune => 0 < rune.length) = true := by
  decide

variable {s : Bytes} {c : UInt8}

theorem spaceFree_trimRunes (hfuel : s.length ≤ fuel) :
    SpaceFree spaceRunes (trimRunes spaceRunes fuel s) := by
  induction fuel generalizing s with
  | zero =>
    obtain rfl := List.eq_nil_of_length_eq_zero (Nat.le_zero.mp hfuel)
    intro rune hrune hfront
    obtain rfl := List.prefix_nil.mp hfront
    exact absurd hrune (by decide)
  | succ fuel ih =>
    unfold trimRunes
    split
    · rename_i rune hfind
      have hpos : 0 < rune.length := by
        simpa using List.all_eq_true.mp spaceRunes_pos rune (List.mem_of_find?_eq_some hfind)
      refine ih ?_
      rw [List.length_drop]
      omega
    · rename_i hfind
      intro rune hrune hfront
      exact List.find?_eq_none.mp hfind rune hrune (by simpa using hfront)

/-- No white space character is the beginning of another one. -/
theorem spaceRunes_apart : spaceRunes.all (fun rune =>
    spaceRunes.all fun other => rune.isPrefixOf other == (rune == other)) = true := by
  decide +kernel

theorem eq_of_rune_isPrefix (hrune : rune ∈ spaceRunes) (hother : other ∈ spaceRunes)
    (h : rune <+: s) (h' : other <+: s) : rune = other := by
  have happart : ∀ {rune other : Bytes}, rune ∈ spaceRunes → other ∈ spaceRunes →
      rune <+: other → rune = other := by
    intro rune other hrune hother hfront
    have hall := List.all_eq_true.mp (List.all_eq_true.mp spaceRunes_apart rune hrune) other hother
    rw [List.isPrefixOf_iff_prefix.mpr hfront] at hall
    simpa using hall
  rcases Nat.le_total rune.length other.length with hle | hle
  · exact happart hrune hother (List.prefix_of_prefix_length_le h h' hle)
  · exact (happart hother hrune (List.prefix_of_prefix_length_le h' h hle)).symm

/-- Two ways to take white space from the front of a text. -/
theorem flatten_append_unique {runes front : List Bytes} {rest : Bytes}
    (hrunes : ∀ rune ∈ runes, rune ∈ spaceRunes) (hfront : ∀ rune ∈ front, rune ∈ spaceRunes)
    (hrest : SpaceFree spaceRunes rest) (h : runes.flatten = front.flatten ++ rest) :
    rest = [] := by
  induction runes generalizing front with
  | nil =>
    rw [List.flatten_nil, eq_comm, List.append_eq_nil_iff] at h
    exact h.2
  | cons rune runes ih =>
    rw [List.forall_mem_cons] at hrunes
    rw [List.flatten_cons] at h
    cases front with
    | nil =>
      rw [List.flatten_nil, List.nil_append] at h
      exact absurd ⟨_, h⟩ (hrest rune hrunes.1)
    | cons first front =>
      rw [List.forall_mem_cons] at hfront
      rw [List.flatten_cons, List.append_assoc] at h
      obtain rfl : rune = first := eq_of_rune_isPrefix hrunes.1 hfront.1
        (List.prefix_append rune _) (h ▸ List.prefix_append first _)
      exact ih hrunes.2 hfront.2 (List.append_cancel_left h)

/-- What `TrimSpace` takes is white space, in front and behind. -/
theorem trimSpaces_eq_nil_iff : trimSpaces s = [] ↔ White s := by
  obtain ⟨front, hfront, heq⟩ := trimRunes_split spaceRunes s.length s
  have hfree : SpaceFree spaceRunes (trimRunes spaceRunes s.length s) :=
    spaceFree_trimRunes (Nat.le_refl _)
  simp only [trimSpaces, List.reverse_eq_nil_iff]
  generalize trimRunes spaceRunes s.length s = rest at heq hfree
  constructor
  · intro htrim
    obtain ⟨back, hback, hrest⟩ := trimRunes_split (spaceRunes.map List.reverse) rest.length
      rest.reverse
    rw [htrim, List.append_nil] at hrest
    have hmirror : rest = (back.reverse.map List.reverse).flatten := by
      rw [← List.reverse_reverse rest, hrest, List.reverse_flatten, List.map_reverse]
    have hrunes : ∀ rune ∈ back.reverse.map List.reverse, rune ∈ spaceRunes := by
      intro rune hrune
      obtain ⟨other, hother, rfl⟩ := List.mem_map.mp hrune
      obtain ⟨first, hfirst, rfl⟩ := List.mem_map.mp (hback other (List.mem_reverse.mp hother))
      rwa [List.reverse_reverse]
    have hnil : rest = [] := @flatten_append_unique _ [] _ hrunes (by simp) hfree
      (by rw [List.flatten_nil, List.nil_append, ← hmirror])
    rw [hnil, List.append_nil] at heq
    exact ⟨front, hfront, heq.symm⟩
  · rintro ⟨runes, hrunes, hflat⟩
    obtain rfl := flatten_append_unique hrunes hfront hfree (hflat.trans heq)
    rfl

theorem White.concat_iff (hb : b ∈ [space, tab, carriageReturn]) : White (s ++ [b]) ↔ White s := by
  have hsingle : [space, tab, carriageReturn].all (fun b => spaceRunes.contains [b] &&
      spaceRunes.all fun rune => (rune.getLast? != some b) || rune == [b]) = true := by
    decide +kernel
  have hall := List.all_eq_true.mp hsingle b hb
  rw [Bool.and_eq_true, List.all_eq_true] at hall
  constructor
  · rintro ⟨runes, hrunes, hflat⟩
    rcases List.eq_nil_or_concat' runes with rfl | ⟨init, last, rfl⟩
    · simp at hflat
    · rw [List.forall_mem_append, List.forall_mem_singleton] at hrunes
      rw [List.flatten_concat] at hflat
      have hlast : last = [b] := by
        have hne : last ≠ [] := by
          have hpos := List.all_eq_true.mp spaceRunes_pos last hrunes.2
          exact List.ne_nil_of_length_pos (by simpa using hpos)
        have hget : last.getLast? = some b := by
          have hends := congrArg List.getLast? hflat
          rwa [List.getLast?_append_of_ne_nil _ hne, List.getLast?_concat] at hends
        simpa [hget] using hall.2 last hrunes.2
      subst hlast
      exact ⟨init, hrunes.1, (List.append_inj' hflat rfl).1⟩
  · rintro ⟨runes, hrunes, rfl⟩
    refine ⟨runes ++ [[b]], ?_, by simp⟩
    rw [List.forall_mem_append, List.forall_mem_singleton]
    exact ⟨hrunes, by simpa using hall.1⟩

theorem White.of_spaces_append (h : White (List.replicate n space ++ s)) : White s := by
  induction n with
  | zero => exact h
  | succ n ih =>
    apply ih
    obtain ⟨runes, hrunes, hflat⟩ := h
    cases runes with
    | nil => simp at hflat
    | cons rune runes =>
      rw [List.forall_mem_cons] at hrunes
      rw [List.flatten_cons, List.replicate_succ, List.cons_append] at hflat
      obtain rfl : rune = [space] := eq_of_rune_isPrefix hrunes.1 (by decide)
        (List.prefix_append rune _) (by rw [hflat]; simp)
      exact ⟨runes, hrunes.2, (List.cons.inj hflat).2⟩

/-- The trailing blanks of a line do not make it blank. -/
theorem trimSpaces_trimRight_eq_nil :
    trimSpaces (trimRight [space, tab, carriageReturn] s) = [] ↔ trimSpaces s = [] := by
  rw [trimSpaces_eq_nil_iff, trimSpaces_eq_nil_iff]
  induction s using List.reverseRecOn with
  | nil => rfl
  | append_singleton s b ih =>
    by_cases hb : b ∈ [space, tab, carriageReturn]
    · rw [White.concat_iff hb, ← ih, trimRight, trimRight,
        List.rdropWhile_concat_pos _ _ _ (by simpa using hb)]
    · rw [trimRight_concat _ _ hb]

theorem leadingSpaces_trimRight (h : trimSpaces s ≠ []) :
    leadingSpaces (trimRight [space, tab, carriageReturn] s) = leadingSpaces s := by
  have hvisible : trimSpaces (trimRight [space, tab, carriageReturn] s) ≠ [] :=
    mt trimSpaces_trimRight_eq_nil.mp h
  obtain ⟨blanks, hblanks⟩ := trimRight_isPrefix [space, tab, carriageReturn] s
  generalize trimRight [space, tab, carriageReturn] s = front at hvisible hblanks
  subst hblanks
  rw [leadingSpaces, leadingSpaces, List.takeWhile_append, if_neg]
  intro hlength
  apply hvisible
  have hall : front.takeWhile (· = space) = front :=
    (List.takeWhile_prefix _).eq_of_length hlength
  refine trimSpaces_eq_nil_iff.mpr ⟨front.map fun b => [b], ?_, ?_⟩
  · intro rune hrune
    obtain ⟨b, hb, rfl⟩ := List.mem_map.mp hrune
    rw [← hall] at hb
    obtain rfl : b = space := by simpa using List.mem_takeWhile_imp hb
    decide
  · rw [← List.flatMap_def]
    simp

theorem not_mem_reverse_spaceRunes (hc : solid c = true) :
    ∀ rune ∈ spaceRunes.map List.reverse, c ∉ rune := by
  intro rune hrune
  obtain ⟨first, hfirst, rfl⟩ := List.mem_map.mp hrune
  rw [List.mem_reverse]
  exact not_mem_spaceRunes hc hfirst

theorem trimBack_append_cons (hc : solid c = true) (fuel : Nat) (s rest : Bytes) :
    ∃ rest', rest' <+: rest ∧
      (trimRunes (spaceRunes.map List.reverse) fuel (s ++ c :: rest).reverse).reverse =
        s ++ c :: rest' := by
  obtain ⟨back, hback, heq⟩ := trimRunes_append_cons (not_mem_reverse_spaceRunes hc) fuel
    rest.reverse s.reverse
  refine ⟨back.reverse, ?_, ?_⟩
  · rw [← List.reverse_suffix, List.reverse_reverse]
    exact hback
  · have hmirror : (s ++ c :: rest).reverse = rest.reverse ++ c :: s.reverse := by simp
    rw [hmirror, heq]
    simp

theorem trimSpaces_around (hc : solid c = true) (s rest : Bytes) :
    ∃ s' rest', s' <:+ s ∧ rest' <+: rest ∧ trimSpaces (s ++ c :: rest) = s' ++ c :: rest' := by
  obtain ⟨s', hs', hfront⟩ := trimRunes_append_cons
    (fun rune hrune => not_mem_spaceRunes hc hrune) (s ++ c :: rest).length s rest
  obtain ⟨rest', hrest', hback⟩ := trimBack_append_cons hc (s' ++ c :: rest).length s' rest
  refine ⟨s', rest', hs', hrest', ?_⟩
  simp only [trimSpaces]
  rw [hfront, hback]

/-- Only the end of a text that begins with a visible character is trimmed. -/
theorem SpaceFree.trimSpaces_around (hc : solid c = true)
    (h : SpaceFree spaceRunes (s ++ c :: rest)) :
    ∃ rest', rest' <+: rest ∧ trimSpaces (s ++ c :: rest) = s ++ c :: rest' := by
  obtain ⟨rest', hrest', hback⟩ := trimBack_append_cons hc (s ++ c :: rest).length s rest
  refine ⟨rest', hrest', ?_⟩
  simp only [trimSpaces]
  rw [trimRunes_of_spaceFree h, hback]

theorem trimRight_around {cutset : Bytes} {c : UInt8} (hc : c ∉ cutset) (s rest : Bytes) :
    ∃ rest', rest' <+: rest ∧ trimRight cutset (s ++ c :: rest) = s ++ c :: rest' := by
  induction rest using List.reverseRecOn with
  | nil => exact ⟨[], List.prefix_refl _, trimRight_concat _ _ hc⟩
  | append_singleton rest b ih =>
    have hsplit : s ++ c :: (rest ++ [b]) = (s ++ c :: rest) ++ [b] := by simp
    by_cases hb : b ∈ cutset
    · obtain ⟨rest', hrest', heq⟩ := ih
      refine ⟨rest', hrest'.trans ⟨_, rfl⟩, ?_⟩
      rw [hsplit, trimRight, List.rdropWhile_concat_pos _ _ _ (by simpa using hb)]
      exact heq
    · exact ⟨rest ++ [b], List.prefix_refl _, by rw [hsplit, trimRight_concat _ _ hb]⟩

theorem trimSpaces_space_cons (s : Bytes) : trimSpaces (space :: s) = trimSpaces s := by
  have hfront : trimRunes spaceRunes (space :: s).length (space :: s) =
      trimRunes spaceRunes s.length s := by
    rw [List.length_cons, trimRunes, find_space]
    rfl
  simp only [trimSpaces]
  rw [hfront]

theorem count_trimRunes (hc : ∀ rune ∈ runes, c ∉ rune) (fuel : Nat) (s : Bytes) :
    (trimRunes runes fuel s).count c = s.count c := by
  obtain ⟨front, hfront, heq⟩ := trimRunes_split runes fuel s
  have hnone : front.flatten.count c = 0 := by
    rw [List.count_eq_zero, List.mem_flatten]
    rintro ⟨rune, hrune, hmem⟩
    exact hc rune (hfront rune hrune) hmem
  conv_rhs => rw [heq, List.count_append, hnone, Nat.zero_add]

/-- A visible byte is not trimmed. -/
theorem count_trimSpaces (hc : solid c = true) (s : Bytes) :
    (trimSpaces s).count c = s.count c := by
  simp only [trimSpaces]
  rw [List.count_reverse, count_trimRunes (not_mem_reverse_spaceRunes hc), List.count_reverse,
    count_trimRunes (fun rune hrune => not_mem_spaceRunes hc hrune)]

theorem SpaceFree.leadingSpaces (h : SpaceFree spaceRunes s) : leadingSpaces s = 0 := by
  cases s with
  | nil => rfl
  | cons b rest =>
    have hb : b ≠ space := by
      rintro rfl
      exact h [space] (by decide) (by simp)
    simp [Go.leadingSpaces, hb]

end Gopherd.Go
