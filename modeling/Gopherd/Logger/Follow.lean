import Gopherd.Lib.Transition
import Gopherd.Logger.Writer

/-!
A `logs -f` request while the service writes. A line is copied into a buffer of
the subscription and offered to its channel; one goroutine for each writer
moves it to the merged channel, from which the handler takes it. The steps of
all of them interleave freely. Buffers are passed on without a copy, so a
message is a reference: a slot of the subscription and which of the arrays it
held in turn. The line that was copied into it is kept beside it for
comparison.
-/

namespace Gopherd.Logger

open Go

def subChanCap : Nat := 256

def subBufRingSize : Nat := 520

theorem subBufRingSize_pos : 0 < subBufRingSize := by decide

def mergedCap : Nat := 256

def slotRetainCap : Nat := 64 * 1024

inductive Output where
  | stdout
  | stderr
  deriving DecidableEq

structure Line where
  number : Nat
  bytes : Bytes
  deriving DecidableEq

structure Message where
  slot : Fin subBufRingSize
  array : Nat
  line : Line
  deriving DecidableEq

inductive Pipe where
  | waiting
  | holding (m : Message)
  | exited
  deriving DecidableEq

structure Feed where
  lines : List Line
  ring : Ring Line defaultRingSize
  history : List Line
  subscribed : Bool
  arrays : Fin subBufRingSize → List Bytes
  bufIdx : Fin subBufRingSize
  pending : Option Message
  queue : List Message
  sent : List Line
  pipe : Pipe

namespace Feed

def read (f : Feed) (m : Message) : Bytes :=
  (((f.arrays m.slot)[m.array]?).getD []).take m.line.bytes.length

/-- Whether the current array of the slot is used again for `n` bytes. -/
def reuses (array : Bytes) (n : Nat) : Bool :=
  n ≤ array.length && array.length ≤ slotRetainCap

/-- The arrays of a slot once a line was copied into it; the last one is current. -/
def copyInto (arrays : List Bytes) (bytes : Bytes) : List Bytes :=
  match arrays.getLast? with
  | some array =>
    if reuses array bytes.length then
      arrays.dropLast ++ [bytes ++ array.drop bytes.length]
    else arrays ++ [bytes]
  | none => [bytes]

/-- Copies a line into the current buffer, which is then to be sent. -/
def copy (f : Feed) (line : Line) : Feed :=
  let arrays := copyInto (f.arrays f.bufIdx) line.bytes
  { f with
    arrays := Function.update f.arrays f.bufIdx arrays
    pending := some ⟨f.bufIdx, arrays.length - 1, line⟩ }

/-- The writer has a line: it is put into the ring and copied for the request. -/
def write (f : Feed) (bytes : Bytes) : Feed :=
  let line : Line := ⟨f.lines.length, bytes⟩
  let f := { f with lines := f.lines ++ [line], ring := f.ring.push line }
  if f.subscribed then f.copy line else f

/-- The buffer is sent, or dropped when the channel is full. -/
def send (f : Feed) (m : Message) : Feed :=
  if f.queue.length < subChanCap then
    { f with
      pending := none
      queue := f.queue ++ [m]
      sent := f.sent ++ [m.line]
      bufIdx := Ring.next f.bufIdx }
  else { f with pending := none }

def new : Feed where
  lines := []
  ring := .new ⟨0, []⟩ defaultRingSize_pos
  history := []
  subscribed := false
  arrays := fun _ => []
  bufIdx := ⟨0, subBufRingSize_pos⟩
  pending := none
  queue := []
  sent := []
  pipe := .waiting

end Feed

inductive LogsCall where
  | recent (output : Output)
  | subscribe (output : Output)
  deriving DecidableEq

def logsCalls : List LogsCall :=
  [.recent .stdout, .recent .stderr, .subscribe .stdout, .subscribe .stderr]

inductive Handler where
  | waiting
  | writing (output : Output) (m : Message)
  | gone
  deriving DecidableEq

structure Follow where
  feed : Output → Feed
  -- the calls of `LogsFn` that are still to come
  todo : List LogsCall
  merged : List (Output × Message)
  handler : Handler
  stopped : Bool
  delivered : Output → List Line

inductive FollowAction where
  | write (output : Output) (bytes : Bytes)
  | send (output : Output)
  | call
  | pipeReceive (output : Output)
  | pipeSend (output : Output)
  | pipeExit (output : Output)
  | receive
  | finish
  | disconnect
  | unsubscribe (output : Output)
  deriving DecidableEq

namespace Follow

def init : Follow where
  feed := fun _ => .new
  todo := logsCalls
  merged := []
  handler := .waiting
  stopped := false
  delivered := fun _ => []

def setFeed (s : Follow) (output : Output) (f : Feed) : Follow :=
  { s with feed := Function.update s.feed output f }

/-- A call of `LogsFn`, for which the lock of the writer has to be free. -/
def call (s : Follow) : Option Follow :=
  match s.todo with
  | [] => none
  | .recent output :: rest =>
    let f := s.feed output
    if f.pending.isSome then none
    else some { s.setFeed output { f with history := f.ring.recent } with todo := rest }
  | .subscribe output :: rest =>
    let f := s.feed output
    if f.pending.isSome then none
    else some { s.setFeed output { f with subscribed := true } with todo := rest }

/-- One step. The goroutines and the handler run once `LogsFn` has made its calls. -/
def step (s : Follow) : FollowAction → Option Follow
  | .write output bytes =>
    if (s.feed output).pending.isSome then none
    else some (s.setFeed output ((s.feed output).write bytes))
  | .send output =>
    (s.feed output).pending.map fun m => s.setFeed output ((s.feed output).send m)
  | .call => s.call
  | .pipeReceive output =>
    let f := s.feed output
    match f.pipe, f.queue with
    | .waiting, m :: rest =>
      if s.todo = [] then some (s.setFeed output { f with pipe := .holding m, queue := rest })
      else none
    | _, _ => none
  | .pipeSend output =>
    let f := s.feed output
    match f.pipe with
    | .holding m =>
      if s.merged.length < mergedCap then
        some { s.setFeed output { f with pipe := .waiting } with
          merged := s.merged ++ [(output, m)] }
      else none
    | _ => none
  | .pipeExit output =>
    if s.stopped then some (s.setFeed output { s.feed output with pipe := .exited }) else none
  | .receive =>
    match s.handler, s.merged with
    | .waiting, (output, m) :: rest =>
      some { s with handler := .writing output m, merged := rest }
    | _, _ => none
  | .finish =>
    match s.handler with
    | .writing output m =>
      some { s with
        handler := .waiting
        delivered := Function.update s.delivered output
          (s.delivered output ++ [⟨m.line.number, (s.feed output).read m⟩]) }
    | _ => none
  | .disconnect =>
    if s.todo = [] ∧ s.handler ≠ .gone then some { s with handler := .gone, stopped := true }
    else none
  | .unsubscribe output =>
    let f := s.feed output
    if s.stopped ∧ f.pending = none then some (s.setFeed output { f with subscribed := false })
    else none

end Follow

structure Feed.InFlight (f : Feed) (alive : List Message) (delivered : List Line) : Prop where
  fifo : delivered ++ alive.map Message.line = f.sent
  index : (f.bufIdx : Nat) = f.sent.length % subBufRingSize
  slots : ∀ i m, alive[i]? = some m → (m.slot : Nat) = (delivered.length + i) % subBufRingSize
  readable : ∀ m ∈ alive, f.read m = m.line.bytes
  pending : ∀ m, f.pending = some m → m.slot = f.bufIdx ∧ f.read m = m.line.bytes

/-- Numbers that are less than `n` apart have different remainders. -/
theorem mod_ne_of_lt {k n size : Nat} (hlt : k < n) (hclose : n < k + size) :
    k % size ≠ n % size := by
  intro heq
  have hdvd : size ∣ n - k := (Nat.modEq_iff_dvd' hlt.le).mp heq
  exact absurd (Nat.le_of_dvd (by omega) hdvd) (by omega)

namespace Feed

variable {f : Feed} {m : Message} {alive : List Message} {delivered : List Line}

theorem read_congr {f' : Feed} (h : f'.arrays m.slot = f.arrays m.slot) :
    f'.read m = f.read m := by
  rw [read, read, h]

/-- The line is in the last array. -/
theorem copyInto_last (arrays : List Bytes) (bytes : Bytes) :
    (((copyInto arrays bytes)[(copyInto arrays bytes).length - 1]?).getD []).take bytes.length =
      bytes := by
  have hlast : ∀ (front : List Bytes) (array : Bytes),
      (front ++ [array])[(front ++ [array]).length - 1]? = some array := by
    intro front array
    simp
  unfold copyInto
  split
  · split_ifs
    · rw [hlast, Option.getD_some, List.take_left']
      rfl
    · rw [hlast, Option.getD_some, List.take_length]
  · simp

/-- No message in flight uses the buffer that is written next. -/
theorem InFlight.slot_ne (h : f.InFlight alive delivered) (hfew : alive.length < subBufRingSize)
    (hm : m ∈ alive) : m.slot ≠ f.bufIdx := by
  obtain ⟨i, hi⟩ := List.mem_iff_getElem?.mp hm
  have hlt : i < alive.length := (List.getElem?_eq_some_iff.mp hi).1
  have hlength := congrArg List.length h.fifo
  rw [List.length_append, List.length_map] at hlength
  intro heq
  have hmod := h.slots i m hi
  rw [heq, h.index, ← hlength] at hmod
  exact mod_ne_of_lt (by omega) (by omega) hmod.symm

theorem InFlight.copy (h : f.InFlight alive delivered) (hfew : alive.length < subBufRingSize)
    (line : Line) :
    (f.copy line).InFlight alive delivered := by
  refine ⟨h.fifo, h.index, h.slots, ?_, ?_⟩
  · intro m hm
    rw [← h.readable m hm]
    apply read_congr
    rw [Feed.copy]
    exact Function.update_of_ne (h.slot_ne hfew hm) _ _
  · intro m hm
    obtain rfl := Option.some.inj hm
    refine ⟨rfl, ?_⟩
    simp only [read, Feed.copy, Function.update_self]
    exact copyInto_last _ _

theorem InFlight.write (h : f.InFlight alive delivered) (hfew : alive.length < subBufRingSize)
    (bytes : Bytes) :
    (f.write bytes).InFlight alive delivered := by
  have hline : ({ f with
      lines := f.lines ++ [⟨f.lines.length, bytes⟩]
      ring := f.ring.push ⟨f.lines.length, bytes⟩ } : Feed).InFlight alive delivered :=
    ⟨h.fifo, h.index, h.slots, h.readable, h.pending⟩
  unfold Feed.write
  dsimp only
  split_ifs
  · exact hline.copy hfew _
  · exact hline

theorem InFlight.send (h : f.InFlight alive delivered) (hm : f.pending = some m) :
    (f.send m).InFlight (if f.queue.length < subChanCap then alive ++ [m] else alive)
      delivered := by
  obtain ⟨hslot, hread⟩ := h.pending m hm
  have hlength := congrArg List.length h.fifo
  rw [List.length_append, List.length_map] at hlength
  unfold Feed.send
  split_ifs with hroom
  · refine ⟨?_, ?_, ?_, ?_, by simp⟩
    · rw [List.map_append, ← List.append_assoc, h.fifo]
      rfl
    · change (f.bufIdx + 1) % subBufRingSize = (f.sent ++ [m.line]).length % subBufRingSize
      rw [h.index, List.length_append, List.length_singleton, Nat.mod_add_mod]
    · intro i other hi
      rcases Nat.lt_or_ge i alive.length with hlt | hge
      · rw [List.getElem?_append_left hlt] at hi
        exact h.slots i other hi
      · rw [List.getElem?_append_right hge] at hi
        obtain ⟨hzero, rfl⟩ : i - alive.length = 0 ∧ m = other := by
          cases hdiff : i - alive.length with
          | zero => exact ⟨rfl, by simpa [hdiff] using hi⟩
          | succ k => simp [hdiff] at hi
        rw [hslot, h.index, ← hlength]
        congr 1
        omega
    · intro other hother
      rcases List.mem_append.mp hother with hother | hother
      · exact h.readable other hother
      · rw [List.mem_singleton.mp hother]
        exact hread
  · exact ⟨h.fifo, h.index, h.slots, h.readable, by simp⟩

theorem InFlight.deliver (h : f.InFlight (m :: alive) delivered) :
    f.InFlight alive (delivered ++ [⟨m.line.number, f.read m⟩]) := by
  have hline : (⟨m.line.number, f.read m⟩ : Line) = m.line := by
    rw [h.readable m List.mem_cons_self]
  rw [hline]
  refine ⟨?_, h.index, ?_, ?_, h.pending⟩
  · rw [← h.fifo, List.append_assoc]
    rfl
  · intro i other hi
    rw [h.slots (i + 1) other hi, List.length_append, List.length_singleton]
    congr 1
    omega
  · intro other hother
    exact h.readable other (List.mem_cons_of_mem _ hother)

/-- The lines that the channel has taken, and the one that it is offered. -/
def offered (f : Feed) : List Line :=
  f.sent ++ (f.pending.map Message.line).toList

section

variable (f : Feed) (bytes : Bytes)

/-- What neither the record of a line nor its copy changes. -/
theorem write_keeps {α : Type} (part : Feed → α)
    (hcopy : ∀ (f : Feed) line, part (f.copy line) = part f)
    (hrecord : ∀ lines ring, part { f with lines := lines, ring := ring } = part f) :
    part (f.write bytes) = part f := by
  unfold Feed.write
  dsimp only
  split_ifs
  · rw [hcopy, hrecord]
  · exact hrecord _ _

theorem write_sent : (f.write bytes).sent = f.sent :=
  f.write_keeps bytes sent (fun _ _ => rfl) fun _ _ => rfl

theorem write_queue : (f.write bytes).queue = f.queue :=
  f.write_keeps bytes queue (fun _ _ => rfl) fun _ _ => rfl

theorem write_pipe : (f.write bytes).pipe = f.pipe :=
  f.write_keeps bytes pipe (fun _ _ => rfl) fun _ _ => rfl

theorem write_history : (f.write bytes).history = f.history :=
  f.write_keeps bytes history (fun _ _ => rfl) fun _ _ => rfl

theorem write_subscribed : (f.write bytes).subscribed = f.subscribed :=
  f.write_keeps bytes subscribed (fun _ _ => rfl) fun _ _ => rfl

/-- The line is recorded, copied or not. -/
theorem write_lines_ring : (f.write bytes).lines = f.lines ++ [⟨f.lines.length, bytes⟩] ∧
    (f.write bytes).ring = f.ring.push ⟨f.lines.length, bytes⟩ := by
  unfold Feed.write
  dsimp only
  split_ifs <;> exact ⟨rfl, rfl⟩

theorem write_pending :
    (f.write bytes).pending.map Message.line =
      if f.subscribed then some ⟨f.lines.length, bytes⟩ else f.pending.map Message.line := by
  unfold Feed.write
  dsimp only
  split_ifs <;> rfl

end

end Feed

namespace Follow

/-- The messages of a writer that are in flight: with the handler, in the merged
channel, with the goroutine, and in the channel of the subscription. -/
def alive (s : Follow) (output : Output) : List Message :=
  (match s.handler with
    | .writing other m => if other = output then [m] else []
    | _ => []) ++
  ((s.merged.filter (·.1 = output)).map Prod.snd ++
  ((match (s.feed output).pipe with
    | .holding m => [m]
    | _ => []) ++
  (s.feed output).queue))

structure Inv (s : Follow) : Prop where
  merged : s.merged.length ≤ mergedCap
  queue : ∀ output, (s.feed output).queue.length ≤ subChanCap
  recorded : ∀ output, (s.feed output).offered.Sublist (s.feed output).lines
  numbered : ∀ output, (s.feed output).lines.map Line.number =
    List.range (s.feed output).lines.length
  arrived : ∀ output, s.delivered output <+: (s.feed output).sent
  flowing : s.stopped = false →
    ∀ output, (s.feed output).InFlight (s.alive output) (s.delivered output)
  gone : s.stopped = true → s.handler = .gone

theorem init_inv : Inv init := by
  refine ⟨Nat.zero_le _, fun _ => Nat.zero_le _, fun _ => .slnil, fun _ => rfl,
    fun _ => List.prefix_refl _, ?_, by simp [init]⟩
  intro _ output
  exact ⟨rfl, rfl, by simp [alive, init, Feed.new], by simp [alive, init, Feed.new],
    by simp [init, Feed.new]⟩

variable {s s' : Follow} {output : Output} {f : Feed} {m : Message}

/-- At most 514 messages of a writer are in flight. -/
theorem Inv.few (h : Inv s) (output : Output) :
    (s.alive output).length < subBufRingSize := by
  have hqueue := h.queue output
  have hmerged : ((s.merged.filter (·.1 = output)).map Prod.snd).length ≤ mergedCap := by
    rw [List.length_map]
    exact (List.length_filter_le _ _).trans h.merged
  have hhandler : (match s.handler with
    | .writing other m => if other = output then [m] else []
    | _ => []).length ≤ 1 := by
    split
    · split_ifs <;> simp
    · simp
  have hpipe : (match (s.feed output).pipe with
    | .holding m => [m]
    | _ => []).length ≤ 1 := by
    split <;> simp
  simp only [alive, List.length_append]
  unfold subChanCap at hqueue
  unfold mergedCap at hmerged
  unfold subBufRingSize
  omega

theorem setFeed_feed (s : Follow) (output : Output) (f : Feed) :
    (s.setFeed output f).feed output = f :=
  Function.update_self _ _ _

/-- What holds of the new feed and of all the old ones. -/
theorem forall_setFeed {P : Output → Feed → Prop} (hf : P output f)
    (hold : ∀ other, P other (s.feed other)) (other : Output) :
    P other ((s.setFeed output f).feed other) :=
  (Function.forall_update_iff s.feed P).mpr ⟨hf, fun other _ => hold other⟩ other

/-- A step that changes one feed. -/
theorem Inv.setFeed (h : Inv s) (hqueue : f.queue.length ≤ subChanCap)
    (hrecorded : f.offered.Sublist f.lines)
    (hnumbered : f.lines.map Line.number = List.range f.lines.length)
    (harrived : (s.feed output).sent <+: f.sent)
    (hflow : s.stopped = false →
      f.InFlight ((s.setFeed output f).alive output) (s.delivered output)) :
    Inv (s.setFeed output f) where
  merged := h.merged
  queue := forall_setFeed (P := fun _ f => f.queue.length ≤ subChanCap) hqueue h.queue
  recorded := forall_setFeed (P := fun _ f => f.offered.Sublist f.lines) hrecorded h.recorded
  numbered := forall_setFeed
    (P := fun _ f => f.lines.map Line.number = List.range f.lines.length) hnumbered h.numbered
  arrived := forall_setFeed (P := fun other f => s.delivered other <+: f.sent)
    ((h.arrived output).trans harrived) h.arrived
  flowing hrunning other := by
    by_cases heq : other = output
    · rw [heq, setFeed_feed]
      exact hflow hrunning
    · have hother : (s.setFeed output f).feed other = s.feed other := Function.update_of_ne heq _ _
      have halive : (s.setFeed output f).alive other = s.alive other := by
        unfold alive
        rw [hother]
        rfl
      rw [hother, halive]
      exact h.flowing hrunning other
  gone := h.gone

theorem alive_setFeed (s : Follow) (hpipe : f.pipe = (s.feed output).pipe)
    (hqueue : f.queue = (s.feed output).queue) :
    (s.setFeed output f).alive output = s.alive output := by
  unfold alive
  rw [setFeed_feed, hpipe, hqueue]
  rfl

theorem Inv.write (h : Inv s) (hidle : (s.feed output).pending = none) (bytes : Bytes) :
    Inv (s.setFeed output ((s.feed output).write bytes)) := by
  have hrecorded := h.recorded output
  rw [Feed.offered, hidle] at hrecorded
  apply h.setFeed
  · rw [Feed.write_queue]
    exact h.queue output
  · rw [Feed.offered, Feed.write_pending, Feed.write_sent, (Feed.write_lines_ring _ _).1, hidle]
    split_ifs
    · exact (by simpa using hrecorded : (s.feed output).sent.Sublist _).append (.refl _)
    · exact hrecorded.trans (List.sublist_append_left _ _)
  · rw [(Feed.write_lines_ring _ _).1, List.map_append, h.numbered output, List.length_append,
      List.length_singleton, List.range_succ]
    rfl
  · rw [Feed.write_sent]
  · intro hrunning
    rw [alive_setFeed s (Feed.write_pipe _ _) (Feed.write_queue _ _)]
    exact (h.flowing hrunning output).write (h.few output) bytes

theorem Inv.send (h : Inv s) (hm : (s.feed output).pending = some m) :
    Inv (s.setFeed output ((s.feed output).send m)) := by
  have hrecorded := h.recorded output
  rw [Feed.offered, hm] at hrecorded
  by_cases hroom : (s.feed output).queue.length < subChanCap
  · have hsend : (s.feed output).send m =
        { s.feed output with
          pending := none
          queue := (s.feed output).queue ++ [m]
          sent := (s.feed output).sent ++ [m.line]
          bufIdx := Ring.next (s.feed output).bufIdx } := if_pos hroom
    apply h.setFeed
    · rw [hsend, List.length_append, List.length_singleton]
      exact hroom
    · rw [hsend]
      simpa [Feed.offered] using hrecorded
    · rw [hsend]
      exact h.numbered output
    · rw [hsend]
      exact List.prefix_append _ _
    · intro hrunning
      have hsent := (h.flowing hrunning output).send hm
      rw [if_pos hroom] at hsent
      have halive : (s.setFeed output ((s.feed output).send m)).alive output =
          s.alive output ++ [m] := by
        unfold alive
        rw [setFeed_feed, hsend]
        simp [Follow.setFeed]
      rw [halive]
      exact hsent
  · have hdrop : (s.feed output).send m = { s.feed output with pending := none } := if_neg hroom
    apply h.setFeed
    · rw [hdrop]
      exact h.queue output
    · rw [hdrop, Feed.offered]
      simpa using (List.sublist_append_left _ _).trans hrecorded
    · rw [hdrop]
      exact h.numbered output
    · rw [hdrop]
    · intro hrunning
      have hsent := (h.flowing hrunning output).send hm
      rw [if_neg hroom] at hsent
      rw [alive_setFeed s (by rw [hdrop]) (by rw [hdrop])]
      exact hsent

/-- `Recent`, `Subscribe` and the function that undoes it leave what is in flight alone. -/
theorem Inv.relabel (h : Inv s) (output : Output) (history : List Line) (subscribed : Bool) :
    Inv (s.setFeed output { s.feed output with history := history, subscribed := subscribed }) := by
  refine h.setFeed (f := { s.feed output with history := history, subscribed := subscribed })
    (h.queue output) (h.recorded output) (h.numbered output) List.prefix_rfl ?_
  intro hrunning
  have hflow := h.flowing hrunning output
  rw [alive_setFeed s (by rfl) (by rfl)]
  exact ⟨hflow.fifo, hflow.index, hflow.slots, hflow.readable, hflow.pending⟩

theorem Inv.call (h : Inv s) (hcall : s.call = some s') : Inv s' := by
  have htodo : ∀ (s : Follow) (todo : List LogsCall), Inv s → Inv { s with todo := todo } :=
    fun s todo h =>
      ⟨h.merged, h.queue, h.recorded, h.numbered, h.arrived, h.flowing, h.gone⟩
  unfold Follow.call at hcall
  split at hcall
  · cases hcall
  · dsimp only at hcall
    split_ifs at hcall
    cases hcall
    exact htodo _ _ (h.relabel _ _ _)
  · dsimp only at hcall
    split_ifs at hcall
    cases hcall
    exact htodo _ _ (h.relabel _ _ _)

/-- Only the places between the writer and the merged channel differ. -/
def Moved (s : Follow) (output : Output) (f : Feed) : Prop :=
  f = { s.feed output with pipe := f.pipe, queue := f.queue }

def Drained (s : Follow) (output : Output) (f : Feed) : Prop :=
  f.queue.length ≤ (s.feed output).queue.length

/-- A message moves from one place to the next. -/
theorem Inv.pass (h : Inv s) (hmerged : s'.merged.length ≤ mergedCap)
    (hfeed : ∀ output, s.Moved output (s'.feed output))
    (hqueue : ∀ output, s.Drained output (s'.feed output))
    (halive : ∀ output, s'.alive output = s.alive output) (hstopped : s'.stopped = s.stopped)
    (hgone : s'.stopped = true → s'.handler = .gone) (hdelivered : s'.delivered = s.delivered) :
    Inv s' := by
  have hlines : ∀ output, (s'.feed output).lines = (s.feed output).lines :=
    fun output => by rw [hfeed output]
  have hsent : ∀ output, (s'.feed output).sent = (s.feed output).sent :=
    fun output => by rw [hfeed output]
  refine ⟨hmerged, fun output => (hqueue output).trans (h.queue output), ?_, ?_, ?_, ?_, hgone⟩
  · intro output
    have hoffered : (s'.feed output).offered = (s.feed output).offered := by
      rw [hfeed output]
      rfl
    rw [hoffered, hlines]
    exact h.recorded output
  · intro output
    rw [hlines]
    exact h.numbered output
  · intro output
    rw [hsent, hdelivered]
    exact h.arrived output
  · intro hrunning output
    have hflow := h.flowing (hstopped ▸ hrunning) output
    rw [halive, hdelivered, hfeed output]
    exact ⟨hflow.fifo, hflow.index, hflow.slots, hflow.readable, hflow.pending⟩

theorem Inv.pipeReceive (h : Inv s) (hpipe : (s.feed output).pipe = .waiting)
    (hqueue : (s.feed output).queue = m :: rest) :
    Inv (s.setFeed output { s.feed output with pipe := .holding m, queue := rest }) := by
  refine h.pass h.merged (forall_setFeed (P := s.Moved) rfl fun _ => rfl)
    (forall_setFeed (P := s.Drained) ?_ fun _ => le_refl _) ?_ rfl h.gone rfl
  · rw [Drained, hqueue, List.length_cons]
    exact Nat.le_succ _
  · intro other
    unfold alive
    by_cases heq : other = output
    · rw [heq, setFeed_feed, hpipe, hqueue]
      rfl
    · rw [show (s.setFeed output _).feed other = _ from Function.update_of_ne heq _ _]
      rfl

theorem Inv.pipeSend (h : Inv s) (hpipe : (s.feed output).pipe = .holding m)
    (hroom : s.merged.length < mergedCap) :
    Inv { s.setFeed output { s.feed output with pipe := .waiting } with
      merged := s.merged ++ [(output, m)] } := by
  refine h.pass ?_ (forall_setFeed (P := s.Moved) rfl fun _ => rfl)
    (forall_setFeed (P := s.Drained) (le_refl _) fun _ => le_refl _) ?_ rfl h.gone rfl
  · rw [List.length_append, List.length_singleton]
    exact hroom
  · intro other
    unfold alive
    by_cases heq : other = output
    · rw [heq, setFeed_feed, hpipe]
      simp [Follow.setFeed]
    · rw [show (s.setFeed output _).feed other = _ from Function.update_of_ne heq _ _]
      simp [Follow.setFeed, Ne.symm heq]

theorem Inv.pipeExit (h : Inv s) (hstopped : s.stopped = true) (output : Output) :
    Inv (s.setFeed output { s.feed output with pipe := .exited }) := by
  refine h.setFeed (f := { s.feed output with pipe := .exited })
    (h.queue output) (h.recorded output) (h.numbered output) List.prefix_rfl ?_
  intro hrunning
  rw [hstopped] at hrunning
  cases hrunning

theorem Inv.receive (h : Inv s) (hhandler : s.handler = .waiting)
    (hmerged : s.merged = (output, m) :: rest) :
    Inv { s with handler := .writing output m, merged := rest } := by
  have hcap := h.merged
  rw [hmerged, List.length_cons] at hcap
  refine h.pass (Nat.le_of_succ_le hcap) (fun _ => rfl) (fun _ => le_refl _) ?_ rfl ?_ rfl
  · intro other
    unfold alive
    rw [hhandler, hmerged]
    by_cases heq : output = other
    · simp [heq]
    · simp [heq]
  · intro hstopped
    have hgone := h.gone hstopped
    rw [hhandler] at hgone
    cases hgone

theorem Inv.running (h : Inv s) (hhandler : s.handler = .writing output m) : s.stopped = false := by
  rw [Bool.eq_false_iff]
  intro hstopped
  have hgone := h.gone hstopped
  rw [hhandler] at hgone
  cases hgone

/-- What the handler is writing is the oldest message in flight. -/
theorem Inv.writing (h : Inv s) (hhandler : s.handler = .writing output m) :
    (s.feed output).InFlight (m :: ({ s with handler := .waiting } : Follow).alive output)
      (s.delivered output) := by
  have halive : s.alive output = m :: ({ s with handler := .waiting } : Follow).alive output := by
    unfold alive
    rw [hhandler]
    simp
  rw [← halive]
  exact h.flowing (h.running hhandler) output

theorem Inv.finish {s : Follow} (h : Inv s) {output : Output} {m : Message}
    (hhandler : s.handler = .writing output m) :
    Inv { s with
      handler := .waiting
      delivered := Function.update s.delivered output
        (s.delivered output ++ [⟨m.line.number, (s.feed output).read m⟩]) } := by
  have hdeliver := (h.writing hhandler).deliver
  refine ⟨h.merged, h.queue, h.recorded, h.numbered, ?_, ?_, ?_⟩
  · intro other
    dsimp only
    by_cases heq : other = output
    · rw [heq, Function.update_self, ← hdeliver.fifo]
      exact List.prefix_append _ _
    · rw [Function.update_of_ne heq]
      exact h.arrived other
  · intro hrunning other
    dsimp only
    by_cases heq : other = output
    · rw [heq, Function.update_self]
      exact hdeliver
    · rw [Function.update_of_ne heq]
      have hflow := h.flowing hrunning other
      unfold alive at hflow ⊢
      rw [hhandler] at hflow
      simpa [Ne.symm heq] using hflow
  · intro hstopped
    rw [h.running hhandler] at hstopped
    cases hstopped

theorem Inv.disconnect (h : Inv s) :
    Inv { s with handler := .gone, stopped := true } :=
  ⟨h.merged, h.queue, h.recorded, h.numbered, h.arrived, by simp, fun _ => rfl⟩

theorem Inv.step (h : Inv s) (hstep : s.step action = some s') : Inv s' := by
  cases action with
  | write output bytes =>
    simp only [Follow.step] at hstep
    split_ifs at hstep with hpending
    cases hstep
    exact h.write (by simpa using hpending) bytes
  | send output =>
    obtain ⟨m, hm, rfl⟩ := Option.map_eq_some_iff.mp hstep
    exact h.send hm
  | call => exact h.call hstep
  | pipeReceive output =>
    simp only [Follow.step] at hstep
    split at hstep
    · next m rest hpipe hqueue =>
        split_ifs at hstep
        cases hstep
        exact h.pipeReceive hpipe hqueue
    · cases hstep
  | pipeSend output =>
    simp only [Follow.step] at hstep
    split at hstep
    · next m hpipe =>
        split_ifs at hstep with hroom
        cases hstep
        exact h.pipeSend hpipe hroom
    · cases hstep
  | pipeExit output =>
    simp only [Follow.step] at hstep
    split_ifs at hstep with hstopped
    cases hstep
    exact h.pipeExit hstopped output
  | receive =>
    simp only [Follow.step] at hstep
    split at hstep
    · next output m rest hhandler hmerged =>
        cases hstep
        exact h.receive hhandler hmerged
    · cases hstep
  | finish =>
    simp only [Follow.step] at hstep
    split at hstep
    · next output m hhandler =>
        cases hstep
        exact h.finish hhandler
    · cases hstep
  | disconnect =>
    simp only [Follow.step] at hstep
    split_ifs at hstep
    cases hstep
    exact h.disconnect
  | unsubscribe output =>
    simp only [Follow.step] at hstep
    split_ifs at hstep
    cases hstep
    exact h.relabel output _ _

theorem reached_inv (hreached : Transition.Reached (· = init) step Transition.anyStep s) :
    Inv s := by
  refine hreached.invariant ?_ fun _ _ _ h _ hstep => h.step hstep
  rintro s rfl
  exact init_inv

/-- Whatever the interleaving, a buffer holds the line that was copied into it
until the handler has written it, and the lines of a stream arrive in the order
in which they were sent, none of them twice. -/
theorem buffers_intact {s : Follow}
    (hreached : Transition.Reached (· = init) step Transition.anyStep s) (output : Output) :
    (∀ m, s.handler = .writing output m →
      (s.feed output).read m = m.line.bytes ∧
      s.delivered output ++ [m.line] <+: (s.feed output).sent) ∧
    s.delivered output <+: (s.feed output).sent ∧
    (s.feed output).sent.Sublist (s.feed output).lines ∧
    ((s.feed output).sent.map Line.number).Pairwise (· < ·) := by
  have h := reached_inv hreached
  have hrecorded : (s.feed output).sent.Sublist (s.feed output).lines :=
    (List.sublist_append_left _ _).trans (h.recorded output)
  refine ⟨?_, h.arrived output, hrecorded, ?_⟩
  · intro m hhandler
    have hwriting := h.writing hhandler
    refine ⟨hwriting.readable m List.mem_cons_self, ?_⟩
    exact ⟨_, by rw [← hwriting.fifo, List.map_cons, List.append_assoc, List.singleton_append]⟩
  · have hnumbers := hrecorded.map Line.number
    rw [h.numbered output] at hnumbers
    exact List.pairwise_lt_range.sublist hnumbers

def writingActions : List FollowAction :=
  [.call, .call, .call, .call, .write .stdout (ascii "a"), .send .stdout, .pipeReceive .stdout,
    .pipeSend .stdout, .receive]

/-- While the handler writes the line, the service may well write the next one. -/
theorem buffers_intact_writing :
    ∃ s m, Transition.exec step (fun _ _ => true) init
        (writingActions ++ [.write .stdout (ascii "b")]) = some s ∧
      s.handler = .writing .stdout m ∧ (s.feed .stdout).read m = m.line.bytes := by
  have hrun : (Transition.exec step (fun _ _ => true) init
      (writingActions ++ [.write .stdout (ascii "b")])).map
        (fun s => decide (s.handler = .writing .stdout ⟨⟨0, by decide⟩, 0, ⟨0, ascii "a"⟩⟩)) =
      some true := by
    decide +kernel
  obtain ⟨s, hs, hhandler⟩ := exists_of_decide hrun
  have hreached : Transition.Reached (· = init) step Transition.anyStep s :=
    ⟨init, rfl, (Transition.Runs.of_exec hs).weaken fun _ _ _ => trivial⟩
  exact ⟨s, _, hs, hhandler, ((buffers_intact hreached .stdout).1 _ hhandler).1⟩

/-- No message is dropped because the channel is full. -/
def keepsUp (s : Follow) : FollowAction → Bool
  | .send output => (s.feed output).queue.length < subChanCap
  | _ => true

/-- Nothing is written between `Recent` and `Subscribe` of the same writer. -/
def outsideGap (s : Follow) : FollowAction → Bool
  | .write output _ => decide (.recent output ∈ s.todo) || decide (.subscribe output ∉ s.todo)
  | _ => true

structure Gapless (f : Feed) (todo : List LogsCall) (output : Output) : Prop where
  ring : f.ring.Holds f.lines
  idle : .subscribe output ∈ todo → f.subscribed = false ∧ f.sent = [] ∧ f.pending = none
  unread : .recent output ∈ todo → f.history = []
  read : .recent output ∉ todo → .subscribe output ∈ todo → f.history <:+ f.lines
  joined : .subscribe output ∉ todo → ∃ before, f.history <:+ before ∧
    before ++ f.offered <+: f.lines ∧ (f.subscribed = true → before ++ f.offered = f.lines)

theorem Gapless.write {todo : List LogsCall} (h : Gapless f todo output) (hidle : f.pending = none)
    (bytes : Bytes) (hgap : .recent output ∈ todo ∨ .subscribe output ∉ todo) :
    Gapless (f.write bytes) todo output := by
  refine ⟨?_, ?_, ?_, ?_, ?_⟩
  · rw [(Feed.write_lines_ring f bytes).1, (Feed.write_lines_ring f bytes).2]
    exact h.ring.push _
  · intro htodo
    obtain ⟨hsubscribed, hsent, hpending⟩ := h.idle htodo
    rw [Feed.write_subscribed, Feed.write_sent]
    refine ⟨hsubscribed, hsent, ?_⟩
    unfold Feed.write
    rw [hsubscribed]
    exact hpending
  · intro htodo
    rw [Feed.write_history]
    exact h.unread htodo
  · intro hread hsubscribe
    rcases hgap with hrecent | hjoined
    · exact absurd hrecent hread
    · exact absurd hsubscribe hjoined
  · intro hjoined
    obtain ⟨before, hhistory, hpart, hall⟩ := h.joined hjoined
    have hoffered : f.offered = f.sent := by simp [Feed.offered, hidle]
    refine ⟨before, by rw [Feed.write_history]; exact hhistory, ?_⟩
    rw [Feed.write_subscribed, (Feed.write_lines_ring f bytes).1, Feed.offered, Feed.write_sent,
      Feed.write_pending, hidle]
    rw [hoffered] at hpart hall
    split_ifs with hsubscribed
    · have hjoin : before ++ (f.sent ++ [(⟨f.lines.length, bytes⟩ : Line)]) =
          f.lines ++ [⟨f.lines.length, bytes⟩] := by
        rw [← List.append_assoc, hall hsubscribed]
      exact ⟨by rw [Option.toList_some, hjoin], fun _ => hjoin⟩
    · refine ⟨?_, fun hsub => absurd hsub hsubscribed⟩
      rw [Option.map_none, Option.toList_none, List.append_nil]
      exact hpart.trans ⟨_, rfl⟩

/-- Sending what was offered changes nothing here, as long as the channel has room. -/
theorem Gapless.send {todo : List LogsCall} (h : Gapless f todo output) (hm : f.pending = some m)
    (hroom : f.queue.length < subChanCap) : Gapless (f.send m) todo output := by
  have hsend : f.send m = { f with
      pending := none
      queue := f.queue ++ [m]
      sent := f.sent ++ [m.line]
      bufIdx := Ring.next f.bufIdx } := if_pos hroom
  have hoffered : (f.send m).offered = f.offered := by
    simp [Feed.offered, hsend, hm]
  rw [hsend] at hoffered ⊢
  refine ⟨h.ring, ?_, h.unread, h.read, ?_⟩
  · intro htodo
    obtain ⟨_, _, hpending⟩ := h.idle htodo
    rw [hm] at hpending
    cases hpending
  · rw [hoffered]
    exact h.joined

/-- The calls of `LogsFn` come in their order. -/
theorem recent_first (htodo : .recent output :: rest <:+ logsCalls) :
    .recent output ∉ rest ∧ .subscribe output ∈ rest := by
  rw [← List.mem_tails] at htodo
  simp only [logsCalls, List.tails] at htodo
  cases output <;> simp_all

theorem subscribe_once (htodo : .subscribe output :: rest <:+ logsCalls) :
    .subscribe output ∉ rest ∧ .recent output ∉ rest := by
  rw [← List.mem_tails] at htodo
  simp only [logsCalls, List.tails] at htodo
  cases output <;> simp_all

theorem Gapless.recent (h : Gapless f (.recent output :: rest) output)
    (htodo : .recent output :: rest <:+ logsCalls) :
    Gapless { f with history := f.ring.recent } rest output := by
  obtain ⟨hread, hsubscribe⟩ := recent_first htodo
  refine ⟨h.ring, fun _ => h.idle (List.mem_cons_of_mem _ hsubscribe), fun hin => absurd hin hread,
    fun _ _ => ?_, fun hjoined => absurd hsubscribe hjoined⟩
  change f.ring.recent <:+ f.lines
  rw [h.ring.recent, List.rtake]
  exact List.drop_suffix _ _

theorem Gapless.subscribe (h : Gapless f (.subscribe output :: rest) output)
    (htodo : .subscribe output :: rest <:+ logsCalls) :
    Gapless { f with subscribed := true } rest output := by
  obtain ⟨honce, hread⟩ := subscribe_once htodo
  obtain ⟨_, hsent, hpending⟩ := h.idle List.mem_cons_self
  have hoffered : f.offered = [] := by simp [Feed.offered, hsent, hpending]
  refine ⟨h.ring, fun hin => absurd hin honce, fun hin => absurd hin hread,
    fun _ hin => absurd hin honce, fun _ => ⟨f.lines, ?_, ?_⟩⟩
  · exact h.read (by simpa using hread) List.mem_cons_self
  · have hsame : f.lines ++ ({ f with subscribed := true } : Feed).offered = f.lines := by
      change f.lines ++ f.offered = f.lines
      rw [hoffered, List.append_nil]
    exact ⟨by rw [hsame], fun _ => hsame⟩

/-- A call on one writer is none on the other. -/
theorem Gapless.rest {call : LogsCall} {rest : List LogsCall} (h : Gapless f (call :: rest) output)
    (hrecent : call ≠ .recent output) (hsubscribe : call ≠ .subscribe output) :
    Gapless f rest output := by
  have hmem : ∀ other, call ≠ other → (other ∈ call :: rest ↔ other ∈ rest) := by
    intro other hne
    rw [List.mem_cons]
    exact or_iff_right (Ne.symm hne)
  have hr := hmem _ hrecent
  have hs := hmem _ hsubscribe
  exact ⟨h.ring, fun hin => h.idle (hs.mpr hin), fun hin => h.unread (hr.mpr hin),
    fun hout hin => h.read (mt hr.mp hout) (hs.mpr hin), fun hout => h.joined (mt hs.mp hout)⟩

structure Joined (s : Follow) : Prop where
  todo : s.todo <:+ logsCalls
  feeds : ∀ output, Gapless (s.feed output) s.todo output

theorem Joined.setFeed (h : Joined s) (hf : Gapless f s.todo output) :
    Joined (s.setFeed output f) := by
  exact ⟨h.todo, forall_setFeed (P := fun other f => Gapless f s.todo other) hf h.feeds⟩

/-- A call brings its own writer forward and is none on the other. -/
theorem Joined.next (h : Joined s) {call : LogsCall} (htodo : s.todo = call :: rest)
    (hf : Gapless (s.feed output) (call :: rest) output → Gapless f rest output)
    (hcall : ∀ other, other ≠ output → call ≠ .recent other ∧ call ≠ .subscribe other) :
    Joined { s.setFeed output f with todo := rest } := by
  have hfeeds := h.feeds
  rw [htodo] at hfeeds
  refine ⟨(List.suffix_cons _ _).trans (htodo ▸ h.todo), ?_⟩
  refine (Function.forall_update_iff s.feed fun other f => Gapless f rest other).mpr
    ⟨hf (hfeeds output), ?_⟩
  exact fun other hne => (hfeeds other).rest (hcall other hne).1 (hcall other hne).2

theorem Joined.call (h : Joined s) (hcall : s.call = some s') : Joined s' := by
  have hsuffix := h.todo
  unfold Follow.call at hcall
  split at hcall
  · cases hcall
  · next output rest htodo =>
      dsimp only at hcall
      split_ifs at hcall
      cases hcall
      rw [htodo] at hsuffix
      exact h.next htodo (fun hfeed => hfeed.recent hsuffix)
        fun other hne => ⟨by simpa using Ne.symm hne, by simp⟩
  · next output rest htodo =>
      dsimp only at hcall
      split_ifs at hcall
      cases hcall
      rw [htodo] at hsuffix
      exact h.next htodo (fun hfeed => hfeed.subscribe hsuffix)
        fun other hne => ⟨by simp, by simpa using Ne.symm hne⟩

theorem Joined.step (h : Joined s) (hkeepsUp : s.keepsUp action = true)
    (hgap : s.outsideGap action = true) (hstep : s.step action = some s') : Joined s' := by
  have hpipe : ∀ output pipe queue,
      Joined (s.setFeed output { s.feed output with pipe := pipe, queue := queue }) := by
    intro output pipe queue
    have hfeed := h.feeds output
    exact h.setFeed ⟨hfeed.ring, hfeed.idle, hfeed.unread, hfeed.read, hfeed.joined⟩
  cases action with
  | write output bytes =>
    simp only [Follow.step] at hstep
    split_ifs at hstep with hpending
    cases hstep
    exact h.setFeed ((h.feeds output).write (by simpa using hpending) bytes
      (by simpa [outsideGap] using hgap))
  | send output =>
    obtain ⟨m, hm, rfl⟩ := Option.map_eq_some_iff.mp hstep
    exact h.setFeed ((h.feeds output).send hm (by simpa [keepsUp] using hkeepsUp))
  | call => exact h.call hstep
  | pipeReceive output =>
    simp only [Follow.step] at hstep
    split at hstep
    · split_ifs at hstep
      cases hstep
      exact hpipe _ _ _
    · cases hstep
  | pipeSend output =>
    simp only [Follow.step] at hstep
    split at hstep
    · split_ifs at hstep
      cases hstep
      have hnext := hpipe output .waiting (s.feed output).queue
      exact ⟨hnext.todo, hnext.feeds⟩
    · cases hstep
  | pipeExit output =>
    simp only [Follow.step] at hstep
    split_ifs at hstep
    cases hstep
    exact hpipe _ _ _
  | receive =>
    simp only [Follow.step] at hstep
    split at hstep
    · cases hstep
      exact ⟨h.todo, h.feeds⟩
    · cases hstep
  | finish =>
    simp only [Follow.step] at hstep
    split at hstep
    · cases hstep
      exact ⟨h.todo, h.feeds⟩
    · cases hstep
  | disconnect =>
    simp only [Follow.step] at hstep
    split_ifs at hstep
    cases hstep
    exact ⟨h.todo, h.feeds⟩
  | unsubscribe output =>
    simp only [Follow.step] at hstep
    split_ifs at hstep with hstopped
    cases hstep
    have hfeed := h.feeds output
    refine h.setFeed ⟨hfeed.ring, ?_, hfeed.unread, hfeed.read, ?_⟩
    · intro htodo
      obtain ⟨_, hsent, hpending⟩ := hfeed.idle htodo
      exact ⟨rfl, hsent, hpending⟩
    · intro hjoined
      obtain ⟨before, hhistory, hpart, _⟩ := hfeed.joined hjoined
      exact ⟨before, hhistory, hpart, by simp⟩

theorem init_joined : Joined init := by
  refine ⟨List.suffix_refl _, ?_⟩
  intro output
  refine ⟨Ring.new_holds _ _, fun _ => ⟨rfl, rfl, rfl⟩, fun _ => rfl, ?_, ?_⟩
  · intro hread
    cases output <;> simp [init, logsCalls] at hread
  · intro hjoined
    cases output <;> simp [init, logsCalls] at hjoined

/-- The history and the streamed lines are a run of the lines of the stream, in
every run in which no message is dropped and nothing is written between the two
calls of `LogsFn` on a writer. -/
theorem history_joins_stream {s : Follow}
    (hreached : Transition.Reached (· = init) step
      (fun s action => s.keepsUp action = true ∧ s.outsideGap action = true) s)
    (output : Output) :
    (s.feed output).history ++ s.delivered output <:+: (s.feed output).lines := by
  have hinv : Inv s := reached_inv (hreached.weaken fun _ _ _ => trivial)
  have hjoined : Joined s := by
    refine hreached.invariant ?_ fun _ _ _ h hok hstep => h.step hok.1 hok.2 hstep
    rintro s rfl
    exact init_joined
  have hfeed := hjoined.feeds output
  obtain ⟨unsent, hunsent⟩ := hinv.arrived output
  by_cases hsubscribe : .subscribe output ∈ s.todo
  · obtain ⟨_, hsent, _⟩ := hfeed.idle hsubscribe
    rw [hsent] at hunsent
    rw [(List.append_eq_nil_iff.mp hunsent).1, List.append_nil]
    by_cases hrecent : .recent output ∈ s.todo
    · rw [hfeed.unread hrecent]
      exact List.nil_infix
    · exact (hfeed.read hrecent hsubscribe).isInfix
  · obtain ⟨before, ⟨older, hbefore⟩, ⟨later, hlater⟩, _⟩ := hfeed.joined hsubscribe
    refine ⟨older, unsent ++ ((s.feed output).pending.map Message.line).toList ++ later, ?_⟩
    rw [← hlater, Feed.offered, ← hunsent, ← hbefore]
    simp only [List.append_assoc]

def streamActions (bytes : Bytes) : List FollowAction :=
  [.write .stdout bytes, .send .stdout, .pipeReceive .stdout, .pipeSend .stdout, .receive,
    .finish]

theorem history_joins_stream_pair :
    ∃ s, Transition.exec step (fun s action => s.keepsUp action && s.outsideGap action) init
        ([.write .stdout (ascii "a"), .call, .call, .call, .call] ++
          streamActions (ascii "b")) = some s ∧
      (s.feed .stdout).history = [⟨0, ascii "a"⟩] ∧ s.delivered .stdout = [⟨1, ascii "b"⟩] ∧
      (s.feed .stdout).history ++ s.delivered .stdout <:+: (s.feed .stdout).lines := by
  have hrun : (Transition.exec step (fun s action => s.keepsUp action && s.outsideGap action) init
      ([.write .stdout (ascii "a"), .call, .call, .call, .call] ++
        streamActions (ascii "b"))).map
        (fun s => decide ((s.feed .stdout).history = [⟨0, ascii "a"⟩] ∧
          s.delivered .stdout = [⟨1, ascii "b"⟩])) = some true := by
    decide +kernel
  obtain ⟨s, hs, hhistory, hdelivered⟩ := exists_of_decide hrun
  refine ⟨s, hs, hhistory, hdelivered, history_joins_stream ?_ .stdout⟩
  exact ⟨init, rfl, (Transition.Runs.of_exec hs).weaken fun _ _ hok => by simpa using hok⟩

/-- A line between `Recent` and `Subscribe` is in neither of the two. -/
theorem gap_loses_line :
    ∃ s, Transition.Reached (· = init) step (fun s action => s.keepsUp action = true) s ∧
      (s.feed .stdout).lines = [⟨0, ascii "a"⟩, ⟨1, ascii "b"⟩, ⟨2, ascii "c"⟩] ∧
      (s.feed .stdout).history ++ s.delivered .stdout = [⟨0, ascii "a"⟩, ⟨2, ascii "c"⟩] ∧
      ¬ (s.feed .stdout).history ++ s.delivered .stdout <:+: (s.feed .stdout).lines := by
  have hrun : (Transition.exec step (fun s action => s.keepsUp action) init
      ([.write .stdout (ascii "a"), .call, .call, .write .stdout (ascii "b"), .call, .call] ++
        streamActions (ascii "c"))).map
        (fun s => decide (
          (s.feed .stdout).lines = [⟨0, ascii "a"⟩, ⟨1, ascii "b"⟩, ⟨2, ascii "c"⟩] ∧
          (s.feed .stdout).history ++ s.delivered .stdout =
            [⟨0, ascii "a"⟩, ⟨2, ascii "c"⟩])) = some true := by
    decide +kernel
  obtain ⟨s, hs, hlines, hshown⟩ := exists_of_decide hrun
  refine ⟨s, ⟨init, rfl, .of_exec hs⟩, hlines, hshown, ?_⟩
  rw [hlines, hshown]
  decide

end Follow

end Gopherd.Logger
