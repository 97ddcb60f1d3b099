import Gopherd.Go.Strings
import Gopherd.Lib.Framing
import Gopherd.Lib.Ring
import Gopherd.Logger.Sanitize

/-!
The line-buffered writer behind the output of a service. `Write` cuts what it is
given into lines, puts a prefix before each one, passes it on and keeps it in a
ring for the `logs` command. The time of the `n`-th line comes from a clock.
-/

namespace Gopherd.Logger

open Go

def defaultRingSize : Nat := 200

theorem defaultRingSize_pos : 0 < defaultRingSize := by decide

def maxBufSize : Nat := 2 ^ 20

inductive PrefixPart where
  | timestamp
  | service
  deriving DecidableEq

def parsePrefixParts (text : String) : List PrefixPart :=
  if text = "none" ∨ text = "" then []
  else (fields text).filterMap fun token =>
    [("timestamp", PrefixPart.timestamp), ("service", PrefixPart.service)].lookup token

structure PrefixWriter where
  name : Bytes
  parts : List PrefixPart
  clock : Nat → Bytes
  buf : Bytes
  -- what was taken from the buffer so far, before its prefix
  lines : List Bytes
  ring : Ring Bytes defaultRingSize

namespace PrefixWriter

def new (name : Bytes) (prefixText : String) (clock : Nat → Bytes) : PrefixWriter where
  name
  parts := parsePrefixParts prefixText
  clock
  buf := []
  lines := []
  ring := .new [] (by decide)

/-- The line with its prefix; `n` lines were written before it. -/
def prefixed (w : PrefixWriter) (n : Nat) (line : Bytes) : Bytes :=
  (w.parts.flatMap fun part =>
    match part with
    | .timestamp => w.clock n ++ [space]
    | .service => openBracket :: w.name ++ [closeBracket, space]) ++ line

def written (w : PrefixWriter) : List Bytes :=
  w.lines.mapIdx w.prefixed

/-- What follows once a line was taken from the buffer. -/
def emit (w : PrefixWriter) (line : Bytes) : PrefixWriter :=
  { w with
    lines := w.lines ++ [line]
    ring := w.ring.push (sanitizeKeepColors (w.prefixed w.lines.length line)) }

/-- The inner loop of `Write`; `none` when it has not ended after `fuel` passes. -/
def drain : Nat → PrefixWriter → Option PrefixWriter
  | fuel, w =>
    match w.buf.idxOf? newline with
    | none => some w
    | some idx =>
      match fuel with
      | 0 => none
      | fuel + 1 =>
        drain fuel ({ w with buf := w.buf.drop (idx + 1) }.emit (w.buf.take (idx + 1)))

/-- How much of `p` one pass of `Write` takes: what the buffer has room for, and
nothing behind a newline. -/
def takeLen (w : PrefixWriter) (p : Bytes) : Nat :=
  let room := min (maxBufSize - w.buf.length) p.length
  match (p.take room).idxOf? newline with
  | some nl => nl + 1
  | none => room

/-- A newline is put in when the buffer is full without one. -/
def capped (buf : Bytes) : Bytes :=
  if maxBufSize ≤ buf.length ∧ newline ∉ buf then buf ++ [newline] else buf

def writeLoop : Nat → PrefixWriter → Bytes → Option PrefixWriter
  | _, w, [] => some w
  | 0, _, _ :: _ => none
  | fuel + 1, w, b :: rest =>
    if maxBufSize ≤ w.buf.length then do
      let buf := w.buf ++ [newline]
      let w ← drain buf.length { w with buf }
      writeLoop fuel w (b :: rest)
    else do
      let take := w.takeLen (b :: rest)
      let buf := capped (w.buf ++ (b :: rest).take take)
      let w ← drain buf.length { w with buf }
      writeLoop fuel w ((b :: rest).drop take)

/-- `Write`. A pass that takes nothing empties the buffer, so two passes for each
byte are enough. -/
def write (w : PrefixWriter) (p : Bytes) : Option PrefixWriter :=
  writeLoop (2 * p.length) w p

def recent (w : PrefixWriter) : List Bytes :=
  w.ring.recent

structure Ready (w : PrefixWriter) : Prop where
  noNewline : newline ∉ w.buf
  short : w.buf.length < maxBufSize

/-- The lines are taken, and `rest` is what stays in the buffer. -/
def emitAll (w : PrefixWriter) (cut : Bytes × List Bytes) : PrefixWriter :=
  { cut.2.foldl emit w with buf := cut.1 }

def fed (w : PrefixWriter) (p : Bytes) : PrefixWriter :=
  w.emitAll (Framing.feed newline maxBufSize w.buf p)

theorem idxOf?_newline (h : newline ∉ body) (rest : Bytes) :
    (body ++ newline :: rest).idxOf? newline = some body.length := by
  induction body with
  | nil => rfl
  | cons b body ih =>
    rw [List.mem_cons, not_or] at h
    have hb : (b == newline) = false := by simpa using Ne.symm h.1
    rw [List.cons_append, List.idxOf?_cons, hb, ih h.2]
    rfl

theorem exists_of_idxOf? (h : s.idxOf? newline = some idx) :
    ∃ body rest, s = body ++ newline :: rest ∧ newline ∉ body ∧ body.length = idx := by
  have hmem : newline ∈ s := by
    by_contra hnot
    rw [List.idxOf?_eq_none_iff.mpr hnot] at h
    cases h
  obtain ⟨body, rest, rfl, hbody⟩ := List.eq_append_cons_of_mem hmem
  rw [idxOf?_newline hbody] at h
  exact ⟨body, rest, rfl, hbody, Option.some.inj h⟩

variable {w : PrefixWriter}

theorem drain_none (h : newline ∉ w.buf) (fuel : Nat) :
    drain fuel w = some w := by
  have hnone := List.idxOf?_eq_none_iff.mpr h
  cases fuel with
  | zero => rw [drain, hnone]
  | succ fuel => rw [drain, hnone]

theorem drain_line (w : PrefixWriter) (h : newline ∉ body) :
    drain (body ++ [newline]).length { w with buf := body ++ [newline] } =
      some ({ w with buf := [] }.emit (body ++ [newline])) := by
  have hidx : (body ++ [newline]).idxOf? newline = some body.length := idxOf?_newline h []
  have htake : (body ++ [newline]).take (body.length + 1) = body ++ [newline] :=
    List.take_of_length_le (by simp)
  have hdrop : (body ++ [newline]).drop (body.length + 1) = [] :=
    List.drop_eq_nil_of_le (by simp)
  rw [List.length_append, List.length_singleton, drain, hidx]
  dsimp only
  rw [htake, hdrop]
  exact drain_none (by simp [emit]) _

theorem foldl_emit_buf (w : PrefixWriter) (buf : Bytes) (lines : List Bytes) :
    lines.foldl emit { w with buf } = { lines.foldl emit w with buf } := by
  induction lines generalizing w with
  | nil => rfl
  | cons line lines ih => exact ih (w.emit line)

theorem fed_append (w : PrefixWriter) (s t : Bytes) : (w.fed s).fed t = w.fed (s ++ t) := by
  have hbuf : (w.fed s).buf = (Framing.feed newline maxBufSize w.buf s).1 := rfl
  rw [fed, hbuf, fed, fed, Framing.feed_append]
  unfold emitAll
  rw [foldl_emit_buf, List.foldl_append]

/-- What one pass takes: a line up to its newline, all there is room for, or all
of `p`. -/
theorem takeLen_cases (hshort : w.buf.length < maxBufSize) (p : Bytes) :
    (∃ body rest, p = body ++ newline :: rest ∧ newline ∉ body ∧
        w.buf.length + body.length < maxBufSize ∧ w.takeLen p = body.length + 1) ∨
      (newline ∉ p.take (w.takeLen p) ∧ w.takeLen p ≤ p.length ∧
        (w.buf.length + w.takeLen p = maxBufSize ∨
          w.takeLen p = p.length ∧ w.buf.length + w.takeLen p < maxBufSize)) := by
  unfold takeLen
  dsimp only
  cases hidx : (p.take (min (maxBufSize - w.buf.length) p.length)).idxOf? newline with
  | some nl =>
    left
    obtain ⟨body, rest, heq, hbody, rfl⟩ := exists_of_idxOf? hidx
    have hlength := congrArg List.length heq
    rw [List.length_take, List.length_append, List.length_cons] at hlength
    refine ⟨body, rest ++ p.drop (min (maxBufSize - w.buf.length) p.length), ?_, hbody, ?_, rfl⟩
    · rw [← List.cons_append, ← List.append_assoc, ← heq, List.take_append_drop]
    · omega
  | none =>
    right
    dsimp only
    exact ⟨List.idxOf?_eq_none_iff.mp hidx, by omega, by omega⟩

/-- One pass takes something and leaves the writer as if it had been fed that. -/
theorem Ready.pass (h : Ready w) (hp : p ≠ []) :
    0 < w.takeLen p ∧
      drain (capped (w.buf ++ p.take (w.takeLen p))).length
        { w with buf := capped (w.buf ++ p.take (w.takeLen p)) } =
          some (w.fed (p.take (w.takeLen p))) := by
  have hpos : 0 < p.length := List.length_pos_of_ne_nil hp
  rcases takeLen_cases h.short p with ⟨body, rest, rfl, hbody, hshort, htake⟩ |
    ⟨hnone, hle, hfull | ⟨hall, hshort⟩⟩
  · have hchunk : (body ++ newline :: rest).take (body.length + 1) = body ++ [newline] := by
      rw [List.take_append, List.take_of_length_le (by omega)]
      simp
    have hcapped : capped (w.buf ++ (body ++ [newline])) = w.buf ++ body ++ [newline] := by
      rw [capped, if_neg (by simp), List.append_assoc]
    have hline : newline ∉ w.buf ++ body := by
      rw [List.mem_append, not_or]
      exact ⟨h.noNewline, hbody⟩
    refine ⟨by omega, ?_⟩
    rw [htake, hchunk, hcapped, fed, Framing.feed_sep hbody hshort]
    exact drain_line w hline
  · have hlength : (p.take (w.takeLen p)).length = w.takeLen p := by
      rw [List.length_take]
      omega
    have hpositive : 0 < w.takeLen p := by
      have := h.short
      omega
    have hline : newline ∉ w.buf ++ p.take (w.takeLen p) := by
      rw [List.mem_append, not_or]
      exact ⟨h.noNewline, hnone⟩
    have hcapped : capped (w.buf ++ p.take (w.takeLen p)) =
        w.buf ++ p.take (w.takeLen p) ++ [newline] := by
      rw [capped, if_pos ⟨by rw [List.length_append, hlength, hfull], hline⟩]
    refine ⟨hpositive, ?_⟩
    rw [hcapped, fed, Framing.feed_full hnone
      (List.ne_nil_of_length_pos (by omega)) (by rw [hlength, hfull])]
    exact drain_line w hline
  · have hline : newline ∉ w.buf ++ p.take (w.takeLen p) := by
      rw [List.mem_append, not_or]
      exact ⟨h.noNewline, hnone⟩
    have hlength : w.buf.length + (p.take (w.takeLen p)).length < maxBufSize := by
      rw [List.length_take]
      omega
    have hcapped : capped (w.buf ++ p.take (w.takeLen p)) = w.buf ++ p.take (w.takeLen p) := by
      rw [capped, if_neg]
      rw [List.length_append]
      omega
    refine ⟨by omega, ?_⟩
    rw [hcapped, fed, Framing.feed_open hnone hlength]
    exact drain_none hline _

theorem Ready.framed (h : Ready w) :
    Framing.Framed newline maxBufSize w.buf [] w.buf :=
  ⟨by simp, rfl, h.noNewline, h.short⟩

theorem Ready.fed (h : Ready w) (p : Bytes) : Ready (w.fed p) := by
  have hframed := h.framed.feed p
  exact ⟨hframed.noSep, hframed.short⟩

theorem Ready.writeLoop (h : Ready w) (hfuel : p.length ≤ fuel) :
    writeLoop fuel w p = some (w.fed p) := by
  induction fuel generalizing w p with
  | zero =>
    obtain rfl := List.length_eq_zero_iff.mp (Nat.le_zero.mp hfuel)
    rfl
  | succ fuel ih =>
    cases p with
    | nil => rfl
    | cons b rest =>
      obtain ⟨hpos, hdrain⟩ := h.pass (List.cons_ne_nil b rest)
      have hrest : ((b :: rest).drop (w.takeLen (b :: rest))).length ≤ fuel := by
        rw [List.length_drop]
        omega
      rw [PrefixWriter.writeLoop, if_neg (Nat.not_le.mpr h.short)]
      dsimp only
      rw [hdrain]
      change PrefixWriter.writeLoop fuel _ _ = _
      rw [ih (h.fed _) hrest, fed_append, List.take_append_drop]

theorem Ready.write (h : Ready w) (p : Bytes) : w.write p = some (w.fed p) :=
  h.writeLoop (by omega)

theorem Ready.writes (h : Ready w) (chunks : List Bytes) :
    chunks.foldlM PrefixWriter.write w = some (w.fed chunks.flatten) := by
  induction chunks generalizing w with
  | nil => rfl
  | cons chunk chunks ih =>
    rw [List.foldlM_cons, h.write, List.flatten_cons, ← fed_append]
    exact ih (h.fed chunk)

theorem new_ready (name : Bytes) (prefixText : String) (clock : Nat → Bytes) :
    Ready (new name prefixText clock) :=
  ⟨by simp [new], by simp [new, maxBufSize]⟩

def Kept (w : PrefixWriter) : Prop :=
  w.ring.Holds (w.lines.mapIdx fun n line => sanitizeKeepColors (w.prefixed n line))

theorem Kept.emit (h : Kept w) (line : Bytes) : Kept (w.emit line) := by
  have hpush := h.push (sanitizeKeepColors (w.prefixed w.lines.length line))
  unfold Kept
  change Ring.Holds _ (List.mapIdx _ (w.lines ++ [line]))
  rw [List.mapIdx_concat]
  exact hpush

theorem Kept.fed (h : Kept w) (p : Bytes) : Kept (w.fed p) := by
  have hall : ∀ lines : List Bytes, Kept (lines.foldl PrefixWriter.emit w) := by
    intro lines
    induction lines generalizing w with
    | nil => exact h
    | cons line lines ih => exact ih (h.emit line)
  exact hall _

theorem fed_lines (w : PrefixWriter) (p : Bytes) :
    (w.fed p).lines = w.lines ++ (Framing.feed newline maxBufSize w.buf p).2 := by
  have hall : ∀ (lines : List Bytes) (w : PrefixWriter),
      (lines.foldl PrefixWriter.emit w).lines = w.lines ++ lines := by
    intro lines
    induction lines with
    | nil => simp
    | cons line lines ih =>
      intro w
      rw [List.foldl_cons, ih]
      simp [emit]
  exact hall _ w

theorem fed_prefixed (w : PrefixWriter) (p : Bytes) : (w.fed p).prefixed = w.prefixed := by
  have hall : ∀ (lines : List Bytes) (w : PrefixWriter),
      (lines.foldl PrefixWriter.emit w).prefixed = w.prefixed := by
    intro lines
    induction lines with
    | nil => simp
    | cons line lines ih =>
      intro w
      exact ih (w.emit line)
  exact hall _ w

/-- However a stream is cut into calls of `Write`, the writer takes the lines and
keeps the rest that the whole stream gives. Every line ends at a newline or after
`maxBufSize` bytes without one, nothing of the stream is lost, and `Recent`
returns the last lines in their order. -/
theorem write_splits (name : Bytes) (prefixText : String) (clock : Nat → Bytes)
    (chunks : List Bytes) :
    ∃ w, chunks.foldlM write (new name prefixText clock) = some w ∧
      (w.buf, w.lines) = Framing.feed newline maxBufSize [] chunks.flatten ∧
      Framing.Framed newline maxBufSize chunks.flatten w.lines w.buf ∧
      w.recent = (w.lines.mapIdx fun n line =>
        sanitizeKeepColors ((new name prefixText clock).prefixed n line)).rtake
          defaultRingSize := by
  have hready := new_ready name prefixText clock
  have hkept : Kept (new name prefixText clock) := Ring.new_holds _ _
  have hlines := fed_lines (new name prefixText clock) chunks.flatten
  refine ⟨_, hready.writes chunks, ?_, ?_, ?_⟩
  · rw [hlines]
    rfl
  · rw [hlines]
    exact (Framing.Framed.nil hready.short).feed chunks.flatten
  · rw [← fed_prefixed (new name prefixText clock) chunks.flatten]
    exact (hkept.fed chunks.flatten).recent

end PrefixWriter

end Gopherd.Logger
