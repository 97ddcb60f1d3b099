import Gopherd.Yaml.Accepted

/-!
The columns of a document. An item marker shifts what follows it by two, so a
line with markers stands in several columns: one row for each marker and one
for the rest of it.
-/

namespace Gopherd.Yaml

open Go

structure Row where
  indent : Nat
  item : Bool
  deriving DecidableEq

def rowsFrom (indent : Nat) : Bytes → List Row
  | hyphen :: space :: rest => ⟨indent, true⟩ :: rowsFrom (indent + 2) rest
  | _ => [⟨indent, false⟩]

def Line.rows (line : Line) : List Row :=
  rowsFrom line.indent line.text

def rowsOf (lines : List Line) : List Row :=
  lines.flatMap Line.rows

/-- The row is an item marker in the column of a key; `earlier` are the rows
above it, the nearest one first. -/
def stray (earlier : List Row) (row : Row) : Bool :=
  row.item && earlier.find? (fun other => other.indent ≤ row.indent) == some ⟨row.indent, false⟩

/-- No item marker stands in the column of a key. -/
def aligned (earlier : List Row) : List Row → Bool
  | [] => true
  | row :: rest => !stray earlier row && aligned (row :: earlier) rest

theorem rowsFrom_not_dash (h : startsWith dash text = false) (indent : Nat) :
    rowsFrom indent text = [⟨indent, false⟩] := by
  unfold rowsFrom
  split
  · simp [startsWith, dash, List.isPrefixOf] at h
  · rfl

theorem rowsFrom_dash (h : startsWith dash text = true) (indent : Nat) :
    rowsFrom indent text = ⟨indent, true⟩ :: rowsFrom (indent + 2) (text.drop 2) := by
  obtain ⟨rest, rfl⟩ := List.isPrefixOf_iff_prefix.mp h
  rfl

theorem rowsFrom_deep (indent : Nat) (text : Bytes) : ∀ row ∈ rowsFrom indent text,
    indent ≤ row.indent := by
  induction hlength : text.length using Nat.strong_induction_on generalizing indent text with
  | h n ih =>
    cases hdash : startsWith dash text with
    | false =>
      rw [rowsFrom_not_dash hdash]
      simp
    | true =>
      rw [rowsFrom_dash hdash, List.forall_mem_cons]
      refine ⟨Nat.le_refl _, ?_⟩
      intro row hrow
      have hshorter : (text.drop 2).length < n := by
        obtain ⟨rest, rfl⟩ := List.isPrefixOf_iff_prefix.mp hdash
        rw [← hlength, List.length_drop]
        simp [dash]
      have hle := ih _ hshorter _ _ rfl row hrow
      omega

theorem rowsOf_cons (line : Line) (lines : List Line) :
    rowsOf (line :: lines) = line.rows ++ rowsOf lines :=
  List.flatMap_cons

theorem rowsOf_append (first second : List Line) :
    rowsOf (first ++ second) = rowsOf first ++ rowsOf second :=
  List.flatMap_append

theorem rowsOf_deep (h : ∀ line ∈ lines, indent ≤ line.indent) :
    ∀ row ∈ rowsOf lines, indent ≤ row.indent := by
  intro row hrow
  obtain ⟨line, hline, hmem⟩ := List.mem_flatMap.mp hrow
  exact (h line hline).trans (rowsFrom_deep _ _ row hmem)

/-- The first row stands in the column of the first line. -/
theorem rowsOf_head (line : Line) (lines : List Line) :
    ∃ rest, rowsOf (line :: lines) = ⟨line.indent, startsWith dash line.text⟩ :: rest := by
  rw [rowsOf_cons, Line.rows]
  cases hdash : startsWith dash line.text with
  | true => exact ⟨_, by rw [rowsFrom_dash hdash, List.cons_append]⟩
  | false => exact ⟨_, by rw [rowsFrom_not_dash hdash, List.singleton_append]⟩

theorem aligned_append (earlier first second : List Row) :
    aligned earlier (first ++ second) =
      (aligned earlier first && aligned (first.reverse ++ earlier) second) := by
  induction first generalizing earlier with
  | nil => simp [aligned]
  | cons row first ih =>
    rw [List.cons_append, aligned, aligned, ih, List.reverse_cons, List.append_assoc,
      List.singleton_append, Bool.and_assoc]

variable {row : Row} {rows : List Row}

/-- A row hides what stands above it from the rows that are not indented less. -/
theorem aligned_hide (h : ∀ other ∈ rows, row.indent ≤ other.indent) (near far : List Row) :
    aligned (near ++ row :: far) rows = aligned (near ++ [row]) rows := by
  induction rows generalizing near with
  | nil => rfl
  | cons first rows ih =>
    rw [List.forall_mem_cons] at h
    have hfind : (near ++ row :: far).find? (fun other => other.indent ≤ first.indent) =
        (near ++ [row]).find? (fun other => other.indent ≤ first.indent) := by
      rw [List.find?_append, List.find?_append, List.find?_cons_of_pos (by simpa using h.1),
        List.find?_cons_of_pos (by simpa using h.1)]
    have hrest := ih h.2 (first :: near)
    rw [List.cons_append, List.cons_append] at hrest
    rw [aligned, aligned, stray, stray, hfind, hrest]

/-- Rows that are indented deeper than the one above them are aligned by
themselves. -/
theorem aligned_deeper (h : ∀ other ∈ rows, row.indent < other.indent)
    (hfirst : ∀ first ∈ rows.head?, ∀ other ∈ rows, first.indent ≤ other.indent) :
    aligned [row] rows = aligned [] rows := by
  cases rows with
  | nil => rfl
  | cons first rows =>
    have hlt := h first List.mem_cons_self
    have hle := (List.forall_mem_cons.mp (hfirst first rfl)).2
    have hstray : stray [row] first = false := by
      have hne : row ≠ ⟨first.indent, false⟩ := by
        rintro rfl
        exact Nat.lt_irrefl _ hlt
      simp [stray, List.find?_cons_of_pos, hlt.le, hne]
    have hhide := aligned_hide hle [] [row]
    rw [List.nil_append, List.nil_append] at hhide
    rw [aligned, aligned, hstray, hhide]
    simp [stray]

/-- The rows between a row and the next one in its column do not matter for
what follows. -/
theorem aligned_skip (hbetween : ∀ other ∈ between, row.indent < other.indent)
    (hfirst : ∀ first ∈ rows.head?, first.indent = row.indent)
    (hrows : ∀ other ∈ rows, row.indent ≤ other.indent) :
    aligned (between ++ [row]) rows = aligned [row] rows := by
  cases rows with
  | nil => rfl
  | cons first rows =>
    have hindent : first.indent = row.indent := hfirst first rfl
    have hle := (List.forall_mem_cons.mp hrows).2
    rw [← hindent] at hle
    have hfind : (between ++ [row]).find? (fun other => other.indent ≤ first.indent) =
        [row].find? (fun other => other.indent ≤ first.indent) := by
      rw [List.find?_append]
      have hnone : between.find? (fun other => decide (other.indent ≤ first.indent)) = none := by
        rw [List.find?_eq_none]
        intro other hother
        have hlt := hbetween other hother
        simp only [decide_eq_true_eq]
        omega
      rw [hnone]
      rfl
    have hleft := aligned_hide hle [] (between ++ [row])
    have hright := aligned_hide hle [] [row]
    simp only [List.nil_append] at hleft hright
    rw [aligned, aligned, stray, stray, hfind, hleft, hright]

theorem aligned_nil_cons (row : Row) (rows : List Row) :
    aligned [] (row :: rows) = aligned [row] rows := by
  simp [aligned, stray]

/-- Another row of the same kind in the same column. -/
theorem aligned_again (h : ∀ other ∈ rows, row.indent ≤ other.indent) :
    aligned [row] (row :: rows) = aligned [row] rows := by
  have hstray : stray [row] row = false := by
    obtain ⟨indent, item⟩ := row
    cases item with
    | true => simp [stray]
    | false => simp [stray]
  have hhide := aligned_hide h [] [row]
  rw [List.nil_append, List.nil_append] at hhide
  rw [aligned, hstray, hhide]
  rfl

/-- What belongs to a row is aligned by itself, and so is what follows it in its
column. -/
theorem aligned_block (hbelow : ∀ other ∈ below, row.indent < other.indent)
    (hleast : ∀ first ∈ below.head?, ∀ other ∈ below, first.indent ≤ other.indent)
    (hfirst : ∀ first ∈ rest.head?, first.indent = row.indent)
    (hrest : ∀ other ∈ rest, row.indent ≤ other.indent) :
    aligned [row] (below ++ rest) = (aligned [] below && aligned [row] rest) := by
  have hreverse : ∀ other ∈ below.reverse, row.indent < other.indent :=
    fun other hother => hbelow other (List.mem_reverse.mp hother)
  rw [aligned_append, aligned_deeper hbelow hleast, aligned_skip hreverse hfirst hrest]

end Gopherd.Yaml
