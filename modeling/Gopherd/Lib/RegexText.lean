import Gopherd.Lib.Regex
import Mathlib.Tactic

/-!
What a match of a regular expression has consumed. Every way to match takes a text
apart as the expression is built, whichever way is preferred, and the groups are the
offsets of the parts.
-/

namespace Gopherd.Regex

abbrev Groups := List (Nat × Nat × Nat)

inductive Takes : Regex → Nat → List Char → Groups → Groups → Prop
  | empty {pos : Nat} {groups : Groups} : Takes empty pos [] groups groups
  | char {accepts : Char → Bool} {pos : Nat} {c : Char} {groups : Groups}
      (hc : accepts c = true) : Takes (char accepts) pos [c] groups groups
  | seq {first second : Regex} {pos : Nat} {s t : List Char} {before between after : Groups}
      (hfirst : Takes first pos s before between)
      (hsecond : Takes second (pos + s.length) t between after) :
      Takes (seq first second) pos (s ++ t) before after
  | left {first second : Regex} {pos : Nat} {s : List Char} {before after : Groups}
      (hfirst : Takes first pos s before after) : Takes (alt first second) pos s before after
  | right {first second : Regex} {pos : Nat} {s : List Char} {before after : Groups}
      (hsecond : Takes second pos s before after) : Takes (alt first second) pos s before after
  | done {greedy : Bool} {body : Regex} {pos : Nat} {groups : Groups} :
      Takes (star greedy body) pos [] groups groups
  | more {greedy : Bool} {body : Regex} {pos : Nat} {s t : List Char}
      {before between after : Groups} (hbody : Takes body pos s before between)
      (hrest : Takes (star greedy body) (pos + s.length) t between after) :
      Takes (star greedy body) pos (s ++ t) before after
  | group {index : Nat} {body : Regex} {pos : Nat} {s : List Char} {before after : Groups}
      (hbody : Takes body pos s before after) :
      Takes (group index body) pos s before ((index, pos, pos + s.length) :: after)
  | start {groups : Groups} : Takes start 0 [] groups groups
  | stop {pos : Nat} {groups : Groups} : Takes stop pos [] groups groups

def Moves (regex : Regex) (cursor after : Cursor) : Prop :=
  ∃ s, cursor.rest = s ++ after.rest ∧ after.pos = cursor.pos + s.length ∧
    Takes regex cursor.pos s cursor.groups after.groups

theorem iterate_moves
    (hbody : ∀ {cursor after : Cursor}, after ∈ body.runs cursor → Moves body cursor after)
    (h : after ∈ iterate greedy body.runs fuel cursor) : Moves (star greedy body) cursor after := by
  have hstay : Moves (star greedy body) after after := ⟨[], rfl, rfl, .done⟩
  induction fuel generalizing cursor with
  | zero =>
    obtain rfl := List.mem_singleton.mp h
    exact hstay
  | succ fuel ih =>
    have hsplit : after = cursor ∨ ∃ next ∈ body.runs cursor,
        after ∈ iterate greedy body.runs fuel next := by
      simp only [iterate] at h
      split_ifs at h with hgreedy
      · rcases List.mem_append.mp h with h | h
        · obtain ⟨next, hnext, hafter⟩ := List.mem_flatMap.mp h
          exact .inr ⟨next, (List.mem_filter.mp hnext).1, hafter⟩
        · exact .inl (List.mem_singleton.mp h)
      · rcases List.mem_cons.mp h with h | h
        · exact .inl h
        · obtain ⟨next, hnext, hafter⟩ := List.mem_flatMap.mp h
          exact .inr ⟨next, (List.mem_filter.mp hnext).1, hafter⟩
    rcases hsplit with rfl | ⟨next, hnext, hafter⟩
    · exact hstay
    · obtain ⟨s, hrest, hpos, htakes⟩ := hbody hnext
      obtain ⟨t, hrest', hpos', htakes'⟩ := ih hafter
      refine ⟨s ++ t, by rw [hrest, hrest', List.append_assoc], ?_, ?_⟩
      · rw [hpos', hpos, List.length_append]
        omega
      · rw [hpos] at htakes'
        exact .more htakes htakes'

variable {regex : Regex} {m : Match}

/-- Every way to match moves the cursor over a text that the expression takes apart. -/
theorem runs_moves (h : after ∈ regex.runs cursor) : Moves regex cursor after := by
  induction regex generalizing cursor after with
  | empty =>
    obtain rfl := List.mem_singleton.mp h
    exact ⟨[], rfl, rfl, .empty⟩
  | char accepts =>
    rw [runs.eq_def] at h
    cases hrest : cursor.rest with
    | nil => simp [hrest] at h
    | cons c rest =>
      simp only [hrest] at h
      split_ifs at h with hc
      · obtain rfl := List.mem_singleton.mp h
        exact ⟨[c], hrest, rfl, .char hc⟩
      · cases h
  | seq first second ihFirst ihSecond =>
    obtain ⟨between, hbetween, hafter⟩ := List.mem_flatMap.mp h
    obtain ⟨s, hrest, hpos, htakes⟩ := ihFirst hbetween
    obtain ⟨t, hrest', hpos', htakes'⟩ := ihSecond hafter
    refine ⟨s ++ t, by rw [hrest, hrest', List.append_assoc], ?_, ?_⟩
    · rw [hpos', hpos, List.length_append]
      omega
    · rw [hpos] at htakes'
      exact .seq htakes htakes'
  | alt first second ihFirst ihSecond =>
    rcases List.mem_append.mp h with h | h
    · obtain ⟨s, hrest, hpos, htakes⟩ := ihFirst h
      exact ⟨s, hrest, hpos, .left htakes⟩
    · obtain ⟨s, hrest, hpos, htakes⟩ := ihSecond h
      exact ⟨s, hrest, hpos, .right htakes⟩
  | star greedy body ih => exact iterate_moves ih h
  | group index body ih =>
    obtain ⟨inner, hinner, rfl⟩ := List.mem_map.mp h
    obtain ⟨s, hrest, hpos, htakes⟩ := ih hinner
    refine ⟨s, hrest, hpos, ?_⟩
    rw [hpos]
    exact .group htakes
  | start =>
    simp only [runs] at h
    split_ifs at h with hpos
    · obtain rfl := List.mem_singleton.mp h
      exact ⟨[], rfl, rfl, by rw [hpos]; exact .start⟩
    · cases h
  | stop =>
    simp only [runs] at h
    split_ifs at h with hrest
    · obtain rfl := List.mem_singleton.mp h
      exact ⟨[], rfl, rfl, .stop⟩
    · cases h

/-- A match stands in a text: what it spans is what the expression consumed. -/
def Spans (regex : Regex) (text : List Char) (m : Match) : Prop :=
  ∃ front s back, text = front ++ s ++ back ∧ m.start = front.length ∧
    m.stop = front.length + s.length ∧ Takes regex m.start s [] m.groups

theorem matchAt_spans (h : regex.matchAt front.length rest = some m) :
    Spans regex (front ++ rest) m := by
  unfold matchAt at h
  obtain ⟨cursor, hcursor, rfl⟩ := Option.map_eq_some_iff.mp h
  obtain ⟨s, hrest, hpos, htakes⟩ := runs_moves (List.mem_of_mem_head? hcursor)
  refine ⟨front, s, cursor.rest, ?_, rfl, hpos, htakes⟩
  rw [List.append_assoc, ← hrest]

theorem find_spans (h : regex.find front.length rest = some m) :
    Spans regex (front ++ rest) m ∧ front.length ≤ m.start := by
  induction rest generalizing front with
  | nil =>
    have hspans := matchAt_spans h
    obtain ⟨cursor, -, rfl⟩ := Option.map_eq_some_iff.mp h
    exact ⟨hspans, le_refl _⟩
  | cons c rest ih =>
    rw [find] at h
    cases hat : regex.matchAt front.length (c :: rest) with
    | some found =>
      rw [hat] at h
      obtain rfl := Option.some_inj.mp h
      have hspans := matchAt_spans hat
      obtain ⟨cursor, -, rfl⟩ := Option.map_eq_some_iff.mp hat
      exact ⟨hspans, le_refl _⟩
    | none =>
      rw [hat] at h
      have hnext : regex.find (front ++ [c]).length rest = some m := by simpa using h
      obtain ⟨hspans, hlow⟩ := ih hnext
      rw [List.append_assoc, List.singleton_append] at hspans
      rw [List.length_append] at hlow
      exact ⟨hspans, by omega⟩

theorem Spans.le (h : Spans regex text m) : m.start ≤ m.stop ∧ m.stop ≤ text.length := by
  obtain ⟨front, s, back, rfl, hstart, hstop, -⟩ := h
  simp only [List.length_append]
  omega

/-- The matches stand in the text from left to right and do not overlap. -/
theorem findAllFrom_spans (regex : Regex) (fuel : Nat) (front rest : List Char) :
    (∀ m ∈ regex.findAllFrom fuel front.length rest,
      Spans regex (front ++ rest) m ∧ front.length ≤ m.start) ∧
    (regex.findAllFrom fuel front.length rest).Pairwise fun a b => a.stop ≤ b.start := by
  induction fuel generalizing front rest with
  | zero => simp [findAllFrom]
  | succ fuel ih =>
    rw [findAllFrom]
    cases hfind : regex.find front.length rest with
    | none => simp
    | some found =>
      obtain ⟨hspans, hlow⟩ := find_spans hfind
      have hle := hspans.le
      rw [List.length_append] at hle
      have hfront : (front ++ rest.take (found.stop - front.length)).length =
          found.stop := by
        simp only [List.length_append, List.length_take]
        omega
      obtain ⟨hlater, hordered⟩ := ih (front ++ rest.take (found.stop - front.length))
        (rest.drop (found.stop - front.length))
      rw [hfront, List.append_assoc, List.take_append_drop] at hlater
      rw [hfront] at hordered
      refine ⟨?_, .cons (fun m hm => (hlater m hm).2) hordered⟩
      intro m hm
      rcases List.mem_cons.mp hm with rfl | hm
      · exact ⟨hspans, hlow⟩
      · obtain ⟨hspans', hstop⟩ := hlater m hm
        exact ⟨hspans', by omega⟩

/-- Every match that is found stands in the text. -/
theorem findAll_spans (h : m ∈ regex.findAll text) : Spans regex text m :=
  ((findAllFrom_spans regex text.length [] text).1 m h).1

theorem findAll_ordered (regex : Regex) (text : List Char) :
    (regex.findAll text).Pairwise fun a b => a.stop ≤ b.start :=
  (findAllFrom_spans regex text.length [] text).2

section

variable {pos : Nat} {s : List Char} {before after : Groups}

theorem takes_seq (h : Takes (seq first second) pos s before after) :
    ∃ t u between, s = t ++ u ∧ Takes first pos t before between ∧
      Takes second (pos + t.length) u between after := by
  cases h with
  | seq hfirst hsecond => exact ⟨_, _, _, rfl, hfirst, hsecond⟩

theorem takes_opt (h : Takes (opt body) pos s before after) :
    Takes body pos s before after ∨ (s = [] ∧ after = before) := by
  cases h with
  | left hbody => exact .inl hbody
  | right hempty =>
    cases hempty with
    | empty => exact .inr ⟨rfl, rfl⟩

theorem takes_group (h : Takes (group index body) pos s before after) :
    ∃ inner, Takes body pos s before inner ∧
      after = (index, pos, pos + s.length) :: inner := by
  cases h with
  | group hbody => exact ⟨_, hbody, rfl⟩

theorem takes_all_nil (h : Takes (all []) pos s before after) : s = [] ∧ after = before := by
  cases h with
  | empty => exact ⟨rfl, rfl⟩

theorem takes_literal (h : Takes (literal word) pos s before after) :
    s = word ∧ after = before := by
  induction word generalizing pos s before with
  | nil =>
    cases h with
    | empty => exact ⟨rfl, rfl⟩
  | cons c word ih =>
    cases h with
    | seq hfirst hsecond =>
      cases hfirst with
      | char hc =>
        obtain ⟨rfl, rfl⟩ := ih hsecond
        exact ⟨by simpa using hc, rfl⟩

theorem takes_star_char {accepts : Char → Bool}
    (h : Takes (star greedy (char accepts)) pos s before after) :
    (∀ c ∈ s, accepts c = true) ∧ after = before := by
  generalize hregex : star greedy (char accepts) = regex at h
  induction h with
  | done => exact ⟨by simp, rfl⟩
  | more hbody hrest ihBody ihRest =>
    cases hregex
    obtain ⟨hall, rfl⟩ := ihRest rfl
    cases hbody with
    | char hc => exact ⟨by simpa using ⟨hc, hall⟩, rfl⟩
  | _ => cases hregex

theorem takes_plus_char {accepts : Char → Bool}
    (h : Takes (plus (char accepts)) pos s before after) :
    s ≠ [] ∧ (∀ c ∈ s, accepts c = true) ∧ after = before := by
  cases h with
  | seq hfirst hsecond =>
    cases hfirst with
    | char hc =>
      obtain ⟨hall, rfl⟩ := takes_star_char hsecond
      exact ⟨by simp, by simpa using ⟨hc, hall⟩, rfl⟩

end

/-- A group is a part of the text that the expression consumed, or took no part in the
match. -/
def Captured (groups : Groups) (pos : Nat) (source : List Char) (index : Nat) :
    Option (List Char) → Prop
  | none => groups.lookup index = none
  | some part => ∃ front back, source = front ++ (part ++ back) ∧
      groups.lookup index = some (pos + front.length, pos + front.length + part.length)

end Gopherd.Regex
