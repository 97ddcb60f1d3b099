import Mathlib.Tactic

/-!
Cutting a stream into lines. A line ends at a separator, or after `cap` elements
without one; in the second case a separator is put behind it. Fed one element at
a time, the lines do not depend on how the stream arrives.
-/

namespace Gopherd.Framing

variable {α : Type} [DecidableEq α]

/-- What is left of the line after one more element, and the line if it ended. -/
def step (sep : α) (cap : Nat) (rest : List α) (a : α) : List α × List (List α) :=
  if a = sep then ([], [rest ++ [sep]])
  else if cap ≤ rest.length + 1 then ([], [rest ++ [a, sep]])
  else (rest ++ [a], [])

def feed (sep : α) (cap : Nat) : List α → List α → List α × List (List α)
  | rest, [] => (rest, [])
  | rest, a :: s =>
    let first := step sep cap rest a
    let others := feed sep cap first.1 s
    (others.1, first.2 ++ others.2)

/-- The line as it stood in the stream: one that is longer than `cap` was cut. -/
def uncut (cap : Nat) (line : List α) : List α :=
  if cap < line.length then line.dropLast else line

structure Framed (sep : α) (cap : Nat) (s : List α) (lines : List (List α)) (rest : List α) :
    Prop where
  /-- A line ends with its only separator, which stands behind at most `cap`
  elements. -/
  ended : ∀ line ∈ lines, ∃ body, sep ∉ body ∧ body.length ≤ cap ∧ line = body ++ [sep]
  /-- The separators of the lines that were cut are not part of the stream. -/
  lossless : (lines.map (uncut cap)).flatten ++ rest = s
  noSep : sep ∉ rest
  short : rest.length < cap

section

variable {sep : α} {cap : Nat}

theorem feed_append (rest s t : List α) :
    feed sep cap rest (s ++ t) =
      ((feed sep cap (feed sep cap rest s).1 t).1,
        (feed sep cap rest s).2 ++ (feed sep cap (feed sep cap rest s).1 t).2) := by
  induction s generalizing rest with
  | nil => rfl
  | cons a s ih =>
    rw [List.cons_append, feed, feed]
    dsimp only
    rw [ih, List.append_assoc]

variable {rest s : List α}

/-- Elements that do not end the line extend it. -/
theorem feed_open (hsep : sep ∉ s) (hshort : rest.length + s.length < cap) :
    feed sep cap rest s = (rest ++ s, []) := by
  induction s generalizing rest with
  | nil => simp [feed]
  | cons a s ih =>
    rw [List.mem_cons, not_or] at hsep
    rw [List.length_cons] at hshort
    have hstep : step sep cap rest a = (rest ++ [a], []) := by
      rw [step, if_neg (fun heq => hsep.1 heq.symm), if_neg (by omega)]
    rw [feed, hstep]
    dsimp only
    rw [ih hsep.2 (by simp; omega)]
    simp

theorem feed_sep (hsep : sep ∉ s) (hshort : rest.length + s.length < cap) :
    feed sep cap rest (s ++ [sep]) = ([], [rest ++ s ++ [sep]]) := by
  rw [feed_append, feed_open hsep hshort]
  simp [feed, step]

theorem feed_full (hsep : sep ∉ s) (hs : s ≠ []) (hfull : rest.length + s.length = cap) :
    feed sep cap rest s = ([], [rest ++ s ++ [sep]]) := by
  obtain ⟨front, a, rfl⟩ := (List.eq_nil_or_concat' s).resolve_left hs
  rw [List.mem_append, List.mem_singleton, not_or] at hsep
  rw [List.length_append, List.length_singleton] at hfull
  rw [feed_append, feed_open hsep.1 (by omega)]
  have hstep : step sep cap (rest ++ front) a = ([], [rest ++ front ++ [a, sep]]) := by
    rw [step, if_neg (fun heq => hsep.2 heq.symm), if_pos (by simp; omega)]
  simp [feed, hstep]

/-- One more element keeps the stream cut into lines. -/
theorem Framed.step (h : Framed sep cap s lines rest) (a : α) :
    Framed sep cap (s ++ [a]) (lines ++ (step sep cap rest a).2) (step sep cap rest a).1 := by
  have hcap : 0 < cap := Nat.zero_lt_of_lt h.short
  have hnatural : uncut cap (rest ++ [sep]) = rest ++ [sep] := by
    rw [uncut, if_neg]
    simpa using h.short
  unfold Framing.step
  split_ifs with hsep hfull
  · subst hsep
    refine ⟨?_, ?_, by simp, by simpa using hcap⟩
    · intro line hline
      rcases List.mem_append.mp hline with hline | hline
      · exact h.ended line hline
      · exact ⟨rest, h.noSep, h.short.le, List.mem_singleton.mp hline⟩
    · rw [List.map_append, List.flatten_append, List.map_singleton, hnatural, ← h.lossless]
      simp
  · have hlength : rest.length + 1 = cap := Nat.le_antisymm h.short hfull
    have hcut : uncut cap (rest ++ [a, sep]) = rest ++ [a] := by
      rw [uncut, if_pos (by simp; omega), List.dropLast_append_of_ne_nil (by simp)]
      rfl
    refine ⟨?_, ?_, by simp, by simpa using hcap⟩
    · intro line hline
      rcases List.mem_append.mp hline with hline | hline
      · exact h.ended line hline
      · refine ⟨rest ++ [a], ?_, by simpa using hlength.le, ?_⟩
        · rw [List.mem_append, List.mem_singleton, not_or]
          exact ⟨h.noSep, fun heq => hsep heq.symm⟩
        · rw [List.mem_singleton.mp hline]
          simp
    · rw [List.map_append, List.flatten_append, List.map_singleton, hcut, ← h.lossless]
      simp
  · refine ⟨by simpa using h.ended, ?_, ?_, ?_⟩
    · rw [List.append_nil, ← List.append_assoc, h.lossless]
    · rw [List.mem_append, List.mem_singleton, not_or]
      exact ⟨h.noSep, fun heq => hsep heq.symm⟩
    · rw [List.length_append, List.length_singleton]
      omega

theorem Framed.feed (h : Framed sep cap s lines rest) (t : List α) :
    Framed sep cap (s ++ t) (lines ++ (feed sep cap rest t).2) (feed sep cap rest t).1 := by
  induction t generalizing s lines rest with
  | nil => simpa [Framing.feed] using h
  | cons a t ih =>
    have hrest := ih (h.step a)
    rw [List.append_assoc, List.append_assoc, List.singleton_append] at hrest
    exact hrest

omit [DecidableEq α] in
theorem Framed.nil (hcap : 0 < cap) : Framed sep cap [] [] [] :=
  ⟨by simp, rfl, by simp, hcap⟩

end

end Gopherd.Framing
