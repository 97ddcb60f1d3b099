import Gopherd.Go.Bytes

/-!
The listener of the sd_notify protocol. It reads one datagram after the other, drops
those of strangers, and takes the rest apart into lines and records.
-/

namespace Gopherd.Notify

open Go

structure Datagram where
  data : Bytes
  uid : Option Int

structure Listener where
  ready : Bool := false
  closes : Nat := 0
  stopping : Bool := false
  status : Bytes := []

def readBufSize : Nat := 4096

def authorized (allowedUID : Int) (d : Datagram) : Bool :=
  d.uid.any fun uid => uid = allowedUID || uid = 0

def record (line : Bytes) : Option (Bytes × Bytes) :=
  let line := trimSpaces line
  match line.idxOf? 61 with
  | some (n + 1) => some (line.take (n + 1), line.drop (n + 2))
  | _ => none

def Listener.report (n : Listener) : Bytes × Bytes → Listener
  | (key, val) =>
    if key = ascii "READY" then
      if val = ascii "1" && !n.ready then { n with ready := true, closes := n.closes + 1 } else n
    else if key = ascii "STOPPING" then
      if val = ascii "1" then { n with stopping := true } else n
    else if key = ascii "STATUS" then { n with status := val }
    else n

def Listener.parse (n : Listener) (data : Bytes) : Listener :=
  (data.splitOn 10).foldl (fun n line => ((record line).map n.report).getD n) n

/-- The body of `readLoop`; what does not fit into the buffer is cut off. -/
def Listener.read (allowedUID : Int) (n : Listener) (d : Datagram) : Listener :=
  if authorized allowedUID d then n.parse (d.data.take readBufSize) else n

def heard (allowedUID : Int) (datagrams : List Datagram) : List (Bytes × Bytes) :=
  (datagrams.filter (authorized allowedUID)).flatMap fun d =>
    ((d.data.take readBufSize).splitOn 10).filterMap record

structure Shows (n : Listener) (records : List (Bytes × Bytes)) : Prop where
  ready : n.ready = true ↔ (ascii "READY", ascii "1") ∈ records
  closes : n.closes = n.ready.toNat
  stopping : n.stopping = true ↔ (ascii "STOPPING", ascii "1") ∈ records
  status : n.status = (records.reverse.lookup (ascii "STATUS")).getD []

theorem Shows.report (h : Shows n records) (r : Bytes × Bytes) :
    Shows (n.report r) (records ++ [r]) := by
  obtain ⟨key, val⟩ := r
  obtain ⟨hready, hcloses, hstopping, hstatus⟩ := h
  have hkeys : ascii "READY" ≠ ascii "STOPPING" ∧ ascii "READY" ≠ ascii "STATUS" ∧
      ascii "STOPPING" ≠ ascii "STATUS" := by decide
  constructor <;> grind [Listener.report]

theorem Shows.parse (h : Shows n records) (data : Bytes) :
    Shows (n.parse data) (records ++ (data.splitOn 10).filterMap record) := by
  unfold Listener.parse
  generalize data.splitOn 10 = lines
  induction lines generalizing n records with
  | nil => simpa using h
  | cons line lines ih =>
    cases hrecord : record line with
    | none => simpa [hrecord] using ih h
    | some r => simpa [hrecord] using ih (h.report r)

/-- After any datagrams the listener is ready, or stopping, exactly when a record of an
authorized one said so, its status is the one reported last, and `readyCh` is closed
exactly once when it is ready. Who may report is checked as on Linux, by the
credentials of the sender (`cred_linux.go`). -/
theorem listener_shows_heard (allowedUID : Int) (datagrams : List Datagram) :
    Shows (datagrams.foldl (Listener.read allowedUID) {}) (heard allowedUID datagrams) := by
  induction datagrams using List.reverseRecOn with
  | nil => constructor <;> simp [heard]
  | append_singleton datagrams d ih =>
    rw [List.foldl_append, List.foldl_cons, List.foldl_nil, Listener.read]
    split_ifs with hauthorized
    · simpa [heard, hauthorized] using ih.parse (d.data.take readBufSize)
    · simpa [heard, hauthorized] using ih

end Gopherd.Notify
