import Mathlib.Data.List.DropRight
import Mathlib.Tactic

/-!
A ring of `n` slots that is written at one position after the other. Read from
the oldest slot on, it holds the last `n` of the values that were pushed.
-/

namespace Gopherd

structure Ring (α : Type) (n : Nat) where
  slots : Vector α n
  pos : Fin n
  full : Bool

namespace Ring

variable {α β : Type} {n : Nat}

def next (i : Fin n) : Fin n :=
  ⟨(i + 1) % n, Nat.mod_lt _ i.pos⟩

def push (r : Ring α n) (a : α) : Ring α n where
  slots := r.slots.set r.pos a
  pos := next r.pos
  full := r.full || decide (n ≤ r.pos + 1)

def recent (r : Ring α n) : List α :=
  if r.full then r.slots.toList.drop r.pos ++ r.slots.toList.take r.pos
  else r.slots.toList.take r.pos

structure Holds (r : Ring α n) (pushed : List α) : Prop where
  recent : r.recent = pushed.rtake n
  pos : r.full = false → pushed.length = r.pos
  full : r.full = true → n ≤ pushed.length

theorem next_val_of_lt {i : Fin n} (h : i + 1 < n) : (next i : Nat) = i + 1 :=
  Nat.mod_eq_of_lt h

theorem next_val_of_le {i : Fin n} (h : n ≤ i + 1) : (next i : Nat) = 0 := by
  have hi : (i : Nat) + 1 = n := by omega
  rw [next]
  simp [hi]

theorem toList_set (slots : Vector α n) (i : Fin n) (a : α) :
    (slots.set i a).toList = slots.toList.take i ++ a :: slots.toList.drop (i + 1) := by
  rw [Vector.toList_set, List.set_eq_take_append_cons_drop, if_pos (by simp)]

/-- A full ring loses its oldest value. -/
theorem recent_push (r : Ring α n) (a : α) :
    (r.push a).recent = (if r.full then r.recent.tail else r.recent) ++ [a] := by
  have hlength : (r.slots.toList.take r.pos).length = r.pos := by simp
  have hslots : (r.push a).slots.toList =
      r.slots.toList.take r.pos ++ a :: r.slots.toList.drop (r.pos + 1) :=
    toList_set r.slots r.pos a
  have htail : r.full = true →
      r.recent.tail = r.slots.toList.drop (r.pos + 1) ++ r.slots.toList.take r.pos := by
    intro hfull
    rw [recent, if_pos hfull, List.drop_eq_getElem_cons (by simp), List.cons_append, List.tail_cons]
  by_cases hwrap : n ≤ r.pos + 1
  · have hpos : ((r.push a).pos : Nat) = 0 := next_val_of_le hwrap
    have hfull : (r.push a).full = true := by simp [push, hwrap]
    have hnone : r.slots.toList.drop (r.pos + 1) = [] :=
      List.drop_eq_nil_of_le (by simpa using hwrap)
    rw [recent, if_pos hfull, hpos, List.drop_zero, List.take_zero, List.append_nil, hslots, hnone]
    split_ifs with hold
    · rw [htail hold, hnone, List.nil_append]
    · rw [recent, if_neg hold]
  · have hpos : ((r.push a).pos : Nat) = r.pos + 1 := next_val_of_lt (Nat.lt_of_not_le hwrap)
    have hfull : (r.push a).full = r.full := by simp [push, hwrap]
    have hfront : (r.push a).slots.toList.take (r.pos + 1) = r.slots.toList.take r.pos ++ [a] := by
      rw [hslots, List.take_append, hlength, List.take_of_length_le (by omega)]
      simp
    have hback : (r.push a).slots.toList.drop (r.pos + 1) = r.slots.toList.drop (r.pos + 1) := by
      rw [hslots, List.drop_append, hlength, List.drop_eq_nil_of_le (by omega)]
      simp
    rw [recent, hfull, hpos, hfront, hback]
    split_ifs with hold
    · rw [htail hold, List.append_assoc]
    · rw [recent, if_neg hold]

theorem Holds.push {r : Ring α n} (h : r.Holds pushed) (a : α) :
    (r.push a).Holds (pushed ++ [a]) := by
  have hn : 0 < n := r.pos.pos
  have hlt := r.pos.isLt
  obtain ⟨m, rfl⟩ := Nat.exists_eq_succ_of_ne_zero hn.ne'
  refine ⟨?_, ?_, ?_⟩
  · rw [recent_push, List.rtake_concat_succ, h.recent]
    congr 1
    split_ifs with hfull
    · have hlength := h.full hfull
      rw [List.rtake, List.rtake, List.tail_drop]
      congr 1
      omega
    · have hlength := h.pos (by simpa using hfull)
      rw [List.rtake, List.rtake, Nat.sub_eq_zero_of_le (by omega),
        Nat.sub_eq_zero_of_le (by omega)]
  · intro hfull
    have hold : r.full = false ∧ ¬ m.succ ≤ r.pos + 1 := by
      simpa [Ring.push] using hfull
    have hpos : ((r.push a).pos : Nat) = r.pos + 1 := next_val_of_lt (Nat.lt_of_not_le hold.2)
    rw [hpos, List.length_append, h.pos hold.1, List.length_singleton]
  · intro hfull
    rw [List.length_append, List.length_singleton]
    cases hold : r.full with
    | true => exact (h.full hold).trans (Nat.le_succ _)
    | false =>
      have hwrap : m.succ ≤ r.pos + 1 := by simpa [Ring.push, hold] using hfull
      rw [h.pos hold]
      exact hwrap

def new (a : α) (hn : 0 < n) : Ring α n where
  slots := Vector.replicate n a
  pos := ⟨0, hn⟩
  full := false

theorem new_holds (a : α) (hn : 0 < n) : (new a hn).Holds [] :=
  ⟨by simp [recent, new, List.rtake], fun _ => rfl, fun h => by cases h⟩

end Ring

end Gopherd
