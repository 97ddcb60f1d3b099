import Gopherd.Cron.Schedule
import Gopherd.Go.Fields
import Gopherd.Lib.Except

/-!
What a field of a cron expression means, and which bits `parseField` sets for
it.
-/

namespace Gopherd.Cron

open Go

def fieldDefs : List FieldDef :=
  [minuteDef, hourDef, domDef, monthDef, dowDef]

inductive Bounds (field : FieldDef) (stepped : Bool) : String → Int → Int → Prop
  | star : Bounds field stepped "*" field.min field.max
  | value {a v} (h : parseValue field a = .ok v) (hdash : '-' ∉ a.toList) :
      Bounds field stepped a v (if stepped then field.max else v)
  | range {a b lo hi} (hdash : '-' ∉ a.toList) (hlo : parseValue field a = .ok lo)
      (hhi : parseValue field b = .ok hi) (hle : lo ≤ hi) :
      Bounds field stepped (a ++ "-" ++ b) lo hi

inductive Stands (field : FieldDef) : String → Int → Int → Int → Prop
  | plain {r lo hi} (hslash : '/' ∉ r.toList) (h : Bounds field false r lo hi) :
      Stands field r lo hi 1
  | stepped {r n lo hi step} (hslash : '/' ∉ r.toList) (h : Bounds field true r lo hi)
      (hstep : atoi n = some step) (hpos : 1 ≤ step) : Stands field (r ++ "/" ++ n) lo hi step

def Meant (field : FieldDef) (text : String) (v : Int) : Prop :=
  ∃ part ∈ split text ',', ∃ lo hi step,
    Stands field part lo hi step ∧ lo ≤ v ∧ v ≤ hi ∧ step ∣ v - lo

section

variable {field : FieldDef}

/-- The values of the fields fit in the mask. -/
theorem field_bounds (hfield : field ∈ fieldDefs) :
    0 ≤ field.min ∧ field.min ≤ field.max ∧ field.max ≤ 59 := by
  revert field
  decide

theorem parseValue_range (hfield : field ∈ fieldDefs) (h : parseValue field s = .ok v) :
    field.min ≤ v ∧ v ≤ field.max := by
  unfold parseValue at h
  split at h
  · next hname =>
      cases h
      have hnames : ∀ field ∈ fieldDefs, ∀ entry ∈ field.names,
          field.min ≤ entry.2 ∧ entry.2 ≤ field.max := by
        decide
      obtain ⟨before, after, hsplit, -⟩ := List.lookup_eq_some_iff.mp hname
      exact hnames field hfield (toLower s, v) (by rw [hsplit]; simp)
  · split at h
    · cases h
    · split_ifs at h with hout
      cases h
      omega

theorem parseValue_star (hfield : field ∈ fieldDefs) (v : Int) : parseValue field "*" ≠ .ok v := by
  have hnone : ∀ field ∈ fieldDefs, (parseValue field "*").isOk = false := by
    decide
  intro h
  have hstar := hnone field hfield
  rw [h] at hstar
  cases hstar

theorem bounds_iff (hfield : field ∈ fieldDefs) :
    Bounds field stepped r lo hi ↔ parseRange field r stepped = .ok (lo, hi) := by
  unfold parseRange
  constructor
  · intro h
    cases h with
    | star => rfl
    | @value _ v hvalue hdash =>
      have hstar : r ≠ "*" := by
        rintro rfl
        exact parseValue_star hfield _ hvalue
      rw [if_neg hstar, if_neg hdash, hvalue]
      rfl
    | @range a b lo hi hdash hlo hhi hle =>
      have hmem : '-' ∈ (a ++ "-" ++ b).toList := by simp
      have hstar : a ++ "-" ++ b ≠ "*" := by
        intro heq
        rw [heq] at hmem
        exact absurd hmem (by decide)
      have hcut : cut (a ++ "-" ++ b) '-' = (a, b, true) :=
        cut_eq_found_iff.mpr ⟨by simp, hdash⟩
      rw [if_neg hstar, if_pos hmem, hcut]
      simp only [hlo, hhi, bind, Except.bind, not_lt.mpr hle, if_false]
      rfl
  · intro h
    by_cases hstar : r = "*"
    · rw [if_pos hstar] at h
      cases h
      rw [hstar]
      exact .star
    rw [if_neg hstar] at h
    by_cases hmem : '-' ∈ r.toList
    · obtain ⟨a, b, hcut⟩ := exists_cut_of_mem hmem
      rw [if_pos hmem, hcut] at h
      obtain ⟨hlist, hdash⟩ := cut_eq_found_iff.mp hcut
      obtain ⟨lo', hlo, h⟩ := Except.bind_eq_ok.mp h
      obtain ⟨hi', hhi, h⟩ := Except.bind_eq_ok.mp h
      split_ifs at h with hle
      cases h
      have hr : r = a ++ "-" ++ b := String.toList_inj.mp (by simpa using hlist)
      rw [hr]
      exact .range hdash hlo hhi (not_lt.mp hle)
    · rw [if_neg hmem] at h
      obtain ⟨v, hvalue, h⟩ := Except.bind_eq_ok.mp h
      cases h
      exact .value hvalue hmem

/-- The values a list item stands for, as `parseField` finds them. -/
def partSpan (field : FieldDef) (part : String) : Except ParseError (Int × Int × Int) := do
  let (rangePart, stepPart, hasStep) := cut part '/'
  let step ← if hasStep then parseStep field stepPart else pure 1
  let (lo, hi) ← parseRange field rangePart hasStep
  pure (lo, hi, step)

theorem parseStep_eq_ok : parseStep field n = .ok step ↔ atoi n = some step ∧ 1 ≤ step := by
  unfold parseStep
  split
  · next hnone => simp [hnone]
  · next value hvalue =>
      rw [hvalue]
      split_ifs with hpos
      · simp only [Option.some.injEq, false_iff, not_and]
        rintro rfl
        omega
      · simp only [Except.ok.injEq, Option.some.injEq]
        exact ⟨fun h => ⟨h, by omega⟩, And.left⟩

theorem stands_iff (hfield : field ∈ fieldDefs) :
    Stands field part lo hi step ↔ partSpan field part = .ok (lo, hi, step) := by
  unfold partSpan
  constructor
  · intro h
    cases h with
    | plain hslash hbounds =>
      rw [cut_of_notMem hslash]
      simp only [(bounds_iff hfield).mp hbounds]
      rfl
    | @stepped r n lo hi step hslash hbounds hstep hpos =>
      have hcut : cut (r ++ "/" ++ n) '/' = (r, n, true) :=
        cut_eq_found_iff.mpr ⟨by simp, hslash⟩
      rw [hcut]
      simp only [parseStep_eq_ok.mpr ⟨hstep, hpos⟩, (bounds_iff hfield).mp hbounds]
      rfl
  · intro h
    by_cases hslash : '/' ∈ part.toList
    · obtain ⟨r, n, hcut⟩ := exists_cut_of_mem hslash
      obtain ⟨hlist, hslash⟩ := cut_eq_found_iff.mp hcut
      rw [hcut] at h
      obtain ⟨step', hstep, h⟩ := Except.bind_eq_ok.mp h
      obtain ⟨⟨lo', hi'⟩, hrange, h⟩ := Except.bind_eq_ok.mp h
      cases h
      have hpart : part = r ++ "/" ++ n := String.toList_inj.mp (by simpa using hlist)
      obtain ⟨hstep, hpos⟩ := parseStep_eq_ok.mp hstep
      rw [hpart]
      exact .stepped hslash ((bounds_iff hfield).mpr hrange) hstep hpos
    · rw [cut_of_notMem hslash] at h
      obtain ⟨_, hone, h⟩ := Except.bind_eq_ok.mp h
      obtain ⟨⟨lo', hi'⟩, hrange, h⟩ := Except.bind_eq_ok.mp h
      cases hone
      cases h
      exact .plain hslash ((bounds_iff hfield).mpr hrange)

end

theorem hasBit_eq_getLsbD (mask : BitVec 64) {n : Nat} (hn : n < 64) :
    hasBit mask n = mask.getLsbD n := by
  have hbit : bit n = BitVec.twoPow 64 n := by
    rw [bit, if_pos (by omega), Int.toNat_natCast]
    rfl
  have hne : BitVec.twoPow 64 n ≠ 0#64 := by
    intro hzero
    have hset := congrArg (fun x => BitVec.getLsbD x n) hzero
    simp [hn] at hset
  rw [hasBit, hbit, BitVec.and_twoPow]
  cases mask.getLsbD n <;> simp [hne]

theorem hasBit_range (h : hasBit mask v = true) : 0 ≤ v ∧ v < 64 := by
  by_contra hout
  rw [hasBit, bit, if_neg hout] at h
  simp at h

@[simp] theorem hasBit_zero (v : Int) : hasBit 0#64 v = false := by
  simp [hasBit]

theorem hasBit_or (a b : BitVec 64) (v : Int) :
    hasBit (a ||| b) v = (hasBit a v || hasBit b v) := by
  by_cases hv : 0 ≤ v ∧ v < 64
  · obtain ⟨n, rfl⟩ := Int.eq_ofNat_of_zero_le hv.1
    have hn : n < 64 := by omega
    rw [hasBit_eq_getLsbD _ hn, hasBit_eq_getLsbD _ hn, hasBit_eq_getLsbD _ hn,
      BitVec.getLsbD_or]
  · simp [hasBit, bit, hv]

theorem hasBit_bit : hasBit (bit u) v = true ↔ u = v ∧ 0 ≤ v ∧ v < 64 := by
  constructor
  · intro h
    have hv := hasBit_range h
    refine ⟨?_, hv⟩
    by_cases hu : 0 ≤ u ∧ u < 64
    · obtain ⟨n, rfl⟩ := Int.eq_ofNat_of_zero_le hv.1
      obtain ⟨m, rfl⟩ := Int.eq_ofNat_of_zero_le hu.1
      rw [hasBit_eq_getLsbD _ (by omega), bit, if_pos hu, Int.toNat_natCast] at h
      have htwo : (BitVec.twoPow 64 m).getLsbD n = true := h
      simp only [BitVec.getLsbD_twoPow, Bool.and_eq_true, decide_eq_true_eq] at htwo
      exact congrArg Int.ofNat htwo.2
    · rw [bit, if_neg hu] at h
      simp at h
  · rintro ⟨rfl, hv⟩
    rw [hasBit, BitVec.and_self, bit, if_pos hv]
    obtain ⟨n, rfl⟩ := Int.eq_ofNat_of_zero_le hv.1
    have hset : (BitVec.twoPow 64 n).getLsbD n = true := by
      simp
      omega
    simp only [decide_eq_true_eq, Int.toNat_natCast]
    intro hzero
    have hset' : (BitVec.twoPow 64 n).getLsbD n = (0#64).getLsbD n :=
      congrArg (fun x => BitVec.getLsbD x n) hzero
    rw [hset] at hset'
    simp at hset'

def counter (lo step : Int) (k : Nat) : Int :=
  Int.bmod (lo + k * step) (2 ^ 64)

theorem counter_zero (hlo : Int.bmod lo (2 ^ 64) = lo) : counter lo step 0 = lo := by
  simpa [counter] using hlo

theorem counter_succ (lo step : Int) (k : Nat) :
    counter (addInt lo step) step k = counter lo step (k + 1) := by
  unfold counter addInt
  rw [Int.bmod_add_bmod]
  congr 1
  push_cast
  ring

/-- The loop sets the bits of the values that the counter takes before it first
exceeds the end. -/
theorem hasBit_setBits (fuel : Nat) (hlo : Int.bmod lo (2 ^ 64) = lo) (mask : BitVec 64) :
    hasBit (setBits fuel lo hi step mask) u = true ↔
      hasBit mask u = true ∨ (0 ≤ u ∧ u < 64 ∧
        ∃ k < fuel, counter lo step k = u ∧ ∀ j ≤ k, counter lo step j ≤ hi) := by
  induction fuel generalizing lo mask with
  | zero => simp [setBits]
  | succ fuel ih =>
    have hstart : counter lo step 0 = lo := counter_zero hlo
    rw [setBits]
    split_ifs with hle
    · have hnext : Int.bmod (addInt lo step) (2 ^ 64) = addInt lo step := Int.bmod_bmod
      rw [ih hnext, hasBit_or, Bool.or_eq_true, hasBit_bit, or_assoc]
      refine or_congr_right ?_
      constructor
      · rintro (⟨rfl, hu⟩ | ⟨h0, h64, k, hk, hcount, hall⟩)
        · refine ⟨hu.1, hu.2, 0, by omega, hstart, ?_⟩
          intro j hj
          rw [Nat.le_zero.mp hj, hstart]
          exact hle
        · refine ⟨h0, h64, k + 1, by omega, (counter_succ lo step k).symm.trans hcount, ?_⟩
          intro j hj
          cases j with
          | zero => rw [hstart]; exact hle
          | succ j => rw [← counter_succ]; exact hall j (by omega)
      · rintro ⟨h0, h64, k, hk, hcount, hall⟩
        cases k with
        | zero => exact .inl ⟨hstart.symm.trans hcount, h0, h64⟩
        | succ k =>
          refine .inr ⟨h0, h64, k, by omega, (counter_succ lo step k).trans hcount, ?_⟩
          intro j hj
          rw [counter_succ]
          exact hall (j + 1) (by omega)
    · constructor
      · exact .inl
      · rintro (hmask | ⟨-, -, k, -, -, hall⟩)
        · exact hmask
        · exact absurd (hstart ▸ hall 0 (Nat.zero_le k)) hle

/-- The values below `lo` that the counter comes back to: with a step that is
`d` short of `2 ^ 63`, every second one takes it past the largest integer. -/
def Wraps (lo step u : Int) : Prop :=
  ∃ n : Nat, 1 ≤ n ∧ 0 ≤ u ∧ u = lo - 2 * n * (2 ^ 63 - step)

section

variable {lo hi step u : Int}

/-- Without an overflow the counter is what it looks like. -/
theorem counter_of_small (hlo : 0 ≤ lo) (hle : lo ≤ hi) (hstep : 1 ≤ step)
    (hsmall : hi + step ≤ maxInt) (hall : ∀ j < k, counter lo step j ≤ hi) :
    counter lo step k = lo + k * step ∧ lo + k * step ≤ hi + step := by
  unfold maxInt at hsmall
  have hbound : lo + k * step ≤ hi + step := by
    cases k with
    | zero => simp; omega
    | succ k =>
      have hbefore := counter_of_small hlo hle hstep (by unfold maxInt; exact hsmall)
        (k := k) fun j hj => hall j (by omega)
      have hhere := hall k (by omega)
      rw [hbefore.1] at hhere
      push_cast
      linarith
  have hnonneg : 0 ≤ k * step := by positivity
  refine ⟨?_, hbound⟩
  unfold counter
  apply Int.bmod_eq_of_le <;> norm_num <;> omega

/-- After an even number of long steps the counter is back below `lo`. -/
theorem counter_even (hlo : 0 ≤ lo) (hmax : lo ≤ 59) (hstep : step ≤ maxInt)
    (hlong : maxInt < 59 + step) (hn : n ≤ 32) :
    counter lo step (2 * n) = lo - 2 * n * (2 ^ 63 - step) := by
  unfold maxInt at hstep hlong
  have hsum : lo + (2 * n : Nat) * step =
      lo - 2 * n * (2 ^ 63 - step) + ((2 ^ 64 : Nat) : Int) * n := by
    push_cast
    ring
  have hle : (n : Int) * (2 ^ 63 - step) ≤ 32 * 59 := by
    apply mul_le_mul <;> omega
  have hnonneg : 0 ≤ (n : Int) * (2 ^ 63 - step) := by
    apply mul_nonneg <;> omega
  unfold counter
  rw [hsum, Int.add_mul_bmod_self_left]
  apply Int.bmod_eq_of_le <;> norm_num <;> linarith

/-- After an odd number of them it is far below zero, or past the end. -/
theorem counter_odd (hlo : 0 ≤ lo) (hmax : lo ≤ 59) (hstep : step ≤ maxInt)
    (hlong : maxInt < 59 + step) (hn : n ≤ 32) :
    counter lo step (2 * n + 1) = lo - (2 * n + 1) * (2 ^ 63 - step) +
      if lo < (2 * n + 1) * (2 ^ 63 - step) then 2 ^ 63 else - 2 ^ 63 := by
  unfold maxInt at hstep hlong
  have hle : (2 * (n : Int) + 1) * (2 ^ 63 - step) ≤ 65 * 59 := by
    apply mul_le_mul <;> omega
  have hnonneg : 0 ≤ (2 * (n : Int) + 1) * (2 ^ 63 - step) := by
    apply mul_nonneg <;> omega
  unfold counter
  split_ifs with hpast
  · have hsum : lo + (2 * n + 1 : Nat) * step =
        lo - (2 * n + 1) * (2 ^ 63 - step) + 2 ^ 63 + ((2 ^ 64 : Nat) : Int) * n := by
      push_cast
      ring
    rw [hsum, Int.add_mul_bmod_self_left]
    apply Int.bmod_eq_of_le <;> norm_num <;> linarith
  · have hsum : lo + (2 * n + 1 : Nat) * step =
        lo - (2 * n + 1) * (2 ^ 63 - step) + - 2 ^ 63 + ((2 ^ 64 : Nat) : Int) * (n + 1) := by
      push_cast
      ring
    rw [hsum, Int.add_mul_bmod_self_left]
    apply Int.bmod_eq_of_le <;> norm_num <;> linarith

theorem visits_small_iff (hlo : 0 ≤ lo) (hle : lo ≤ hi) (hmax : hi ≤ 59) (hstep : 1 ≤ step)
    (hsmall : hi + step ≤ maxInt) :
    (∃ k < 64, counter lo step k = u ∧ ∀ j ≤ k, counter lo step j ≤ hi) ↔
      lo ≤ u ∧ u ≤ hi ∧ step ∣ u - lo := by
  constructor
  · rintro ⟨k, -, rfl, hall⟩
    have hcount := (counter_of_small hlo hle hstep hsmall fun j hj => hall j hj.le).1
    have hnonneg : 0 ≤ k * step := by positivity
    refine ⟨by omega, hall k le_rfl, k, ?_⟩
    rw [hcount, add_sub_cancel_left, mul_comm]
  · rintro ⟨hlow, hhigh, m, hm⟩
    have hm0 : 0 ≤ m := by
      by_contra hneg
      have : step * m < 0 := mul_neg_of_pos_of_neg (by omega) (by omega)
      omega
    obtain ⟨k, rfl⟩ := Int.eq_ofNat_of_zero_le hm0
    have hk : (k : Int) ≤ step * k := le_mul_of_one_le_left (by omega) hstep
    have hbelow : ∀ j ≤ k, lo + j * step ≤ hi := by
      intro j hj
      have hjk : (j : Int) * step ≤ k * step :=
        mul_le_mul_of_nonneg_right (by omega) (by omega)
      linarith
    have hcount : ∀ j ≤ k, counter lo step j = lo + j * step := by
      intro j hj
      have hnonneg : 0 ≤ j * step := by positivity
      have := hbelow j hj
      unfold maxInt at hsmall
      unfold counter
      apply Int.bmod_eq_of_le <;> norm_num <;> omega
    refine ⟨k, by omega, ?_, fun j hj => (hcount j hj).trans_le (hbelow j hj)⟩
    rw [hcount k le_rfl]
    linarith

theorem visits_long_iff (hlo : 0 ≤ lo) (hle : lo ≤ hi) (hmax : hi ≤ 59) (hint : step ≤ maxInt)
    (hlong : maxInt < hi + step) (hu : 0 ≤ u) :
    (∃ k < 64, counter lo step k = u ∧ ∀ j ≤ k, counter lo step j ≤ hi) ↔
      u = lo ∨ Wraps lo step u := by
  have heven := fun n hn => counter_even (n := n) hlo (hle.trans hmax) hint (by omega) hn
  have hodd := fun n hn => counter_odd (n := n) hlo (hle.trans hmax) hint (by omega) hn
  unfold maxInt at hint hlong
  constructor
  · rintro ⟨k, hk, rfl, hall⟩
    rcases Nat.even_or_odd' k with ⟨n, rfl | rfl⟩
    · rw [heven n (by omega)] at hu ⊢
      cases n with
      | zero => exact .inl (by simp)
      | succ n => exact .inr ⟨n + 1, by omega, hu, rfl⟩
    · -- an odd value is negative or ends the loop
      have hend := hall (2 * n + 1) le_rfl
      have hbound : (2 * (n : Int) + 1) * (2 ^ 63 - step) ≤ 65 * 59 := by
        apply mul_le_mul <;> omega
      have hnonneg : 0 ≤ (2 * (n : Int) + 1) * (2 ^ 63 - step) := by
        apply mul_nonneg <;> omega
      rw [hodd n (by omega)] at hend hu
      split_ifs at hend hu <;> norm_num at hend hu <;> exfalso <;> linarith
  · rintro (rfl | ⟨n, hn, -, rfl⟩)
    · have hzero : counter u step 0 = u := by
        have := heven 0 (by omega)
        simpa using this
      refine ⟨0, by omega, hzero, fun j hj => ?_⟩
      rw [Nat.le_zero.mp hj, hzero]
      exact hle
    · have hd : (n : Int) ≤ n * (2 ^ 63 - step) := le_mul_of_one_le_right (by omega) (by omega)
      have hlow : 2 * (n : Int) * (2 ^ 63 - step) ≤ lo := by linarith
      have hn29 : (n : Int) ≤ 29 := by linarith
      refine ⟨2 * n, by omega, heven n (by omega), fun j hj => ?_⟩
      rcases Nat.even_or_odd' j with ⟨m, rfl | rfl⟩
      · rw [heven m (by omega)]
        have : 0 ≤ 2 * (m : Int) * (2 ^ 63 - step) := by
          apply mul_nonneg <;> omega
        omega
      · rw [hodd m (by omega)]
        have hle' : (2 * (m : Int) + 1) * (2 ^ 63 - step) ≤ 2 * n * (2 ^ 63 - step) :=
          mul_le_mul_of_nonneg_right (by omega) (by omega)
        have hnonneg : 0 ≤ (2 * (m : Int) + 1) * (2 ^ 63 - step) := by
          apply mul_nonneg <;> omega
        rw [if_neg (by linarith)]
        linarith

theorem Wraps.range (h : Wraps lo step u) (hint : step ≤ maxInt) : 0 ≤ u ∧ u ≤ lo := by
  obtain ⟨n, hn, hu, heq⟩ := h
  unfold maxInt at hint
  have hnonneg : 0 ≤ 2 * (n : Int) * (2 ^ 63 - step) := by
    apply mul_nonneg <;> omega
  exact ⟨hu, by omega⟩

/-- Only long steps wrap around. -/
theorem Wraps.long (h : Wraps lo step u) (hlo : 0 ≤ lo) (hle : lo ≤ hi) :
    maxInt < hi + step := by
  obtain ⟨n, hn, hu, heq⟩ := h
  by_contra hsmall
  have hd : hi < 2 ^ 63 - step := by
    unfold maxInt at hsmall
    omega
  have hmul : 2 ^ 63 - step ≤ n * (2 ^ 63 - step) := le_mul_of_one_le_left (by omega) (by omega)
  linarith

/-- The loop sets what the item stands for, and what the counter comes back to. -/
theorem hasBit_setBits_iff (hlo : 0 ≤ lo) (hle : lo ≤ hi) (hmax : hi ≤ 59) (hstep : 1 ≤ step)
    (hint : step ≤ maxInt) (mask : BitVec 64) :
    hasBit (setBits 64 lo hi step mask) u = true ↔
      hasBit mask u = true ∨ (lo ≤ u ∧ u ≤ hi ∧ step ∣ u - lo) ∨ Wraps lo step u := by
  have hrange : Int.bmod lo (2 ^ 64) = lo := by
    apply Int.bmod_eq_of_le <;> norm_num <;> omega
  rw [hasBit_setBits 64 hrange]
  refine or_congr_right ?_
  by_cases hsmall : hi + step ≤ maxInt
  · rw [visits_small_iff hlo hle hmax hstep hsmall]
    constructor
    · rintro ⟨-, -, hspan⟩
      exact .inl hspan
    · rintro (hspan | hwraps)
      · exact ⟨by omega, by omega, hspan⟩
      · exact absurd (hwraps.long hlo hle) (not_lt.mpr hsmall)
  · have hlong := not_le.mp hsmall
    constructor
    · rintro ⟨hu, -, hvisits⟩
      rcases (visits_long_iff hlo hle hmax hint hlong hu).mp hvisits with rfl | hwraps
      · exact .inl ⟨le_rfl, hle, by simp⟩
      · exact .inr hwraps
    · rintro (⟨hlow, hhigh, hdvd⟩ | hwraps)
      · have heq : u = lo := by
          by_contra hne
          have := Int.le_of_dvd (by omega) hdvd
          unfold maxInt at hlong
          omega
        have hu : 0 ≤ u := by omega
        exact ⟨hu, by omega, (visits_long_iff hlo hle hmax hint hlong hu).mpr (.inl heq)⟩
      · have hu : 0 ≤ u ∧ u ≤ lo := hwraps.range hint
        exact ⟨hu.1, by omega, (visits_long_iff hlo hle hmax hint hlong hu.1).mpr (.inr hwraps)⟩

end

section

variable {field : FieldDef} {text part : String} {mask : BitVec 64} {star : Bool} {v : Int}

theorem Bounds.range_le (hfield : field ∈ fieldDefs) (h : Bounds field stepped r lo hi) :
    0 ≤ lo ∧ lo ≤ hi ∧ hi ≤ 59 := by
  obtain ⟨hmin, hle, hmax⟩ := field_bounds hfield
  cases h with
  | star => exact ⟨hmin, hle, hmax⟩
  | value hvalue =>
    obtain ⟨hlow, hhigh⟩ := parseValue_range hfield hvalue
    split_ifs <;> exact ⟨by omega, by omega, by omega⟩
  | range _ hlo hhi hle =>
    have hlow := (parseValue_range hfield hlo).1
    have hhigh := (parseValue_range hfield hhi).2
    exact ⟨by omega, hle, by omega⟩

theorem Stands.range {lo hi step : Int} (hfield : field ∈ fieldDefs)
    (h : Stands field part lo hi step) :
    0 ≤ lo ∧ lo ≤ hi ∧ hi ≤ 59 ∧ 1 ≤ step ∧ step ≤ maxInt := by
  cases h with
  | plain _ hbounds =>
    obtain ⟨hlo, hle, hmax⟩ := hbounds.range_le hfield
    exact ⟨hlo, hle, hmax, le_rfl, by decide⟩
  | stepped _ hbounds hstep hpos =>
    obtain ⟨hlo, hle, hmax⟩ := hbounds.range_le hfield
    exact ⟨hlo, hle, hmax, hpos, atoi_le hstep⟩

theorem Bounds.lo_range (hfield : field ∈ fieldDefs) (h : Bounds field stepped r lo hi) :
    field.min ≤ lo ∧ lo ≤ field.max := by
  cases h with
  | star => exact ⟨le_rfl, (field_bounds hfield).2.1⟩
  | value hvalue => exact parseValue_range hfield hvalue
  | range _ hlo => exact parseValue_range hfield hlo

theorem Stands.lo_range (hfield : field ∈ fieldDefs) (h : Stands field part lo hi step) :
    field.min ≤ lo ∧ lo ≤ field.max := by
  cases h with
  | plain _ hbounds => exact hbounds.lo_range hfield
  | stepped _ hbounds => exact hbounds.lo_range hfield

/-- What a list item adds to the mask. -/
theorem Stands.hasBit_setBits (hfield : field ∈ fieldDefs) (h : Stands field part lo hi step)
    (mask : BitVec 64) :
    hasBit (setBits 64 lo hi step mask) v = true ↔
      hasBit mask v = true ∨ (lo ≤ v ∧ v ≤ hi ∧ step ∣ v - lo) ∨ Wraps lo step v := by
  obtain ⟨hlo, hle, hmax, hpos, hint⟩ := h.range hfield
  exact hasBit_setBits_iff hlo hle hmax hpos hint mask

theorem parsePart_eq (hne : part ≠ "") :
    parsePart field text part mask =
      (partSpan field part).map fun span => setBits 64 span.1 span.2.1 span.2.2 mask := by
  unfold parsePart partSpan
  rw [if_neg hne]
  obtain ⟨r, n, hasStep⟩ := cut part '/'
  cases hasStep with
  | false =>
    dsimp only
    cases parseRange field r false <;> rfl
  | true =>
    dsimp only
    cases parseStep field n <;> cases parseRange field r true <;> rfl

theorem parsePart_eq_ok (hfield : field ∈ fieldDefs)
    (h : parsePart field text part mask = .ok mask') :
    ∃ lo hi step, Stands field part lo hi step ∧ mask' = setBits 64 lo hi step mask := by
  have hne : part ≠ "" := by
    rintro rfl
    cases h
  rw [parsePart_eq hne] at h
  cases hspan : partSpan field part with
  | error error =>
    rw [hspan] at h
    cases h
  | ok span =>
    rw [hspan] at h
    cases h
    exact ⟨span.1, span.2.1, span.2.2, (stands_iff hfield).mpr hspan, rfl⟩

/-- The list items one after the other. -/
theorem parseParts_mask (hfield : field ∈ fieldDefs) (parts : List String)
    (h : parts.foldlM (fun mask part => parsePart field text part mask) mask = .ok mask') :
    hasBit mask' v = true ↔ hasBit mask v = true ∨ ∃ part ∈ parts, ∃ lo hi step,
      Stands field part lo hi step ∧
        ((lo ≤ v ∧ v ≤ hi ∧ step ∣ v - lo) ∨ Wraps lo step v) := by
  induction parts generalizing mask with
  | nil =>
    cases Except.pure_eq_ok.mp h
    simp
  | cons part parts ih =>
    rw [List.foldlM_cons] at h
    obtain ⟨next, hpart, hrest⟩ := Except.bind_eq_ok.mp h
    obtain ⟨lo, hi, step, hstands, rfl⟩ := parsePart_eq_ok hfield hpart
    rw [ih hrest, hstands.hasBit_setBits hfield, or_assoc, List.exists_mem_cons_iff]
    refine or_congr_right (or_congr_left ⟨fun hset => ⟨lo, hi, step, hstands, hset⟩, ?_⟩)
    rintro ⟨lo', hi', step', hstands', hset⟩
    have hsame := ((stands_iff hfield).mp hstands).symm.trans ((stands_iff hfield).mp hstands')
    cases hsame
    exact hset

theorem parseParts_stands (hfield : field ∈ fieldDefs) (parts : List String)
    (h : parts.foldlM (fun mask part => parsePart field text part mask) mask = .ok mask') :
    ∀ part ∈ parts, ∃ lo hi step, Stands field part lo hi step := by
  induction parts generalizing mask with
  | nil => simp
  | cons part parts ih =>
    rw [List.foldlM_cons] at h
    obtain ⟨next, hpart, hrest⟩ := Except.bind_eq_ok.mp h
    obtain ⟨lo, hi, step, hstands, -⟩ := parsePart_eq_ok hfield hpart
    exact List.forall_mem_cons.mpr ⟨⟨lo, hi, step, hstands⟩, ih hrest⟩

/-- The counter of some list item comes back to the value. -/
def Strays (field : FieldDef) (text : String) (v : Int) : Prop :=
  ∃ part ∈ split text ',', ∃ lo hi step, Stands field part lo hi step ∧ Wraps lo step v

theorem parseField_mask (hfield : field ∈ fieldDefs)
    (h : parseField field text = .ok (mask, star)) :
    hasBit mask v = true ↔ Meant field text v ∨ Strays field text v := by
  obtain ⟨mask', hparts, hpure⟩ := Except.bind_eq_ok.mp h
  cases Except.pure_eq_ok.mp hpure
  rw [parseParts_mask hfield _ hparts, hasBit_zero]
  unfold Meant Strays
  constructor
  · rintro (hset | ⟨part, hpart, lo, hi, step, hstands, hspan | hwraps⟩)
    · cases hset
    · exact .inl ⟨part, hpart, lo, hi, step, hstands, hspan⟩
    · exact .inr ⟨part, hpart, lo, hi, step, hstands, hwraps⟩
  · rintro (⟨part, hpart, lo, hi, step, hstands, hspan⟩ |
      ⟨part, hpart, lo, hi, step, hstands, hwraps⟩)
    · exact .inr ⟨part, hpart, lo, hi, step, hstands, .inl hspan⟩
    · exact .inr ⟨part, hpart, lo, hi, step, hstands, .inr hwraps⟩

/-- An accepted field matches some value of its range. -/
theorem parseField_nonempty (hfield : field ∈ fieldDefs)
    (h : parseField field text = .ok (mask, star)) :
    ∃ v, field.min ≤ v ∧ v ≤ field.max ∧ hasBit mask v = true := by
  obtain ⟨mask', hparts, -⟩ := Except.bind_eq_ok.mp h
  obtain ⟨part, parts, hsplit⟩ : ∃ part parts, split text ',' = part :: parts := by
    refine List.exists_cons_of_ne_nil ?_
    rw [split, Ne, List.map_eq_nil_iff]
    exact splitAtChar_ne_nil _ _
  have hmem : part ∈ split text ',' := hsplit ▸ List.mem_cons_self
  obtain ⟨lo, hi, step, hstands⟩ := parseParts_stands hfield _ hparts part hmem
  obtain ⟨hlow, hhigh⟩ := hstands.lo_range hfield
  obtain ⟨-, hle, -⟩ := hstands.range hfield
  refine ⟨lo, hlow, hhigh, (parseField_mask hfield h).mpr (.inl ?_)⟩
  exact ⟨part, hmem, lo, hi, step, hstands, le_rfl, hle, by simp⟩

/-- The mask of an accepted field is exactly what the field means, if and only
if no counter comes back to a value that the field does not mean. -/
theorem parseField_exact_iff (hfield : field ∈ fieldDefs)
    (h : parseField field text = .ok (mask, star)) :
    (∀ v, hasBit mask v = true ↔ Meant field text v) ↔
      ∀ v, Strays field text v → Meant field text v := by
  constructor
  · intro hexact v hstrays
    exact (hexact v).mp ((parseField_mask hfield h).mpr (.inr hstrays))
  · intro hmeant v
    rw [parseField_mask hfield h]
    exact or_iff_left_of_imp (hmeant v)

end

/-- With a step of the largest integer the counter of the item `2/step` comes
back to minute 0, which the item does not mean. -/
theorem longest_step_sets_zero :
    ∃ mask, parseField minuteDef "2/9223372036854775807" = .ok (mask, false) ∧
      hasBit mask 0 = true ∧ ¬ Meant minuteDef "2/9223372036854775807" 0 := by
  refine ⟨5#64, by decide +kernel, by decide, ?_⟩
  rintro ⟨part, hpart, lo, hi, step, hstands, hlow, -⟩
  have hsplit : split "2/9223372036854775807" ',' = ["2/9223372036854775807"] := by decide
  rw [hsplit] at hpart
  cases List.mem_singleton.mp hpart
  have hspan : partSpan minuteDef "2/9223372036854775807" = .ok (2, 59, maxInt) := by
    decide +kernel
  cases ((stands_iff List.mem_cons_self).mp hstands).symm.trans hspan
  omega

/-- Short steps do not wrap around. -/
theorem parseField_exact_quarters :
    ∃ mask, minuteDef ∈ fieldDefs ∧ parseField minuteDef "*/15" = .ok (mask, false) ∧
      ∀ v, hasBit mask v = true ↔ Meant minuteDef "*/15" v := by
  have hfield : minuteDef ∈ fieldDefs := List.mem_cons_self
  have hparse : parseField minuteDef "*/15" = .ok (0x200040008001#64, false) := by decide +kernel
  refine ⟨_, hfield, hparse, (parseField_exact_iff hfield hparse).mpr ?_⟩
  rintro v ⟨part, hpart, lo, hi, step, hstands, hwraps⟩
  have hsplit : split "*/15" ',' = ["*/15"] := by decide
  rw [hsplit] at hpart
  cases List.mem_singleton.mp hpart
  have hspan : partSpan minuteDef "*/15" = .ok (0, 59, 15) := by decide +kernel
  cases ((stands_iff hfield).mp hstands).symm.trans hspan
  exact absurd (hwraps.long le_rfl (by decide : (0 : Int) ≤ 59)) (by decide)

/-- What an accepted expression is made of. -/
theorem parse_eq_ok :
    parse expr = .ok s ↔ ∃ minute hour dom month dow,
      fields expr = [minute, hour, dom, month, dow] ∧
      (∃ star, parseField minuteDef minute = .ok (s.minute, star)) ∧
      (∃ star, parseField hourDef hour = .ok (s.hour, star)) ∧
      parseField domDef dom = .ok (s.dom, s.domStar) ∧
      (∃ star, parseField monthDef month = .ok (s.month, star)) ∧
      ∃ mask, parseField dowDef dow = .ok (mask, s.dowStar) ∧ s.dow = foldSunday mask := by
  unfold parse
  constructor
  · intro h
    split at h
    · next minute hour dom month dow hfields =>
        obtain ⟨⟨minuteMask, minuteStar⟩, hminute, h⟩ := Except.bind_eq_ok.mp h
        obtain ⟨⟨hourMask, hourStar⟩, hhour, h⟩ := Except.bind_eq_ok.mp h
        obtain ⟨⟨domMask, domStar⟩, hdom, h⟩ := Except.bind_eq_ok.mp h
        obtain ⟨⟨monthMask, monthStar⟩, hmonth, h⟩ := Except.bind_eq_ok.mp h
        obtain ⟨⟨dowMask, dowStar⟩, hdow, h⟩ := Except.bind_eq_ok.mp h
        cases h
        exact ⟨minute, hour, dom, month, dow, hfields, ⟨_, hminute⟩, ⟨_, hhour⟩, hdom,
          ⟨_, hmonth⟩, _, hdow, rfl⟩
    · cases h
  · rintro ⟨minute, hour, dom, month, dow, hfields, ⟨_, hminute⟩, ⟨_, hhour⟩, hdom,
      ⟨_, hmonth⟩, mask, hdow, hsunday⟩
    rw [hfields]
    refine Except.bind_eq_ok.mpr ⟨_, hminute, Except.bind_eq_ok.mpr ⟨_, hhour,
      Except.bind_eq_ok.mpr ⟨_, hdom, Except.bind_eq_ok.mpr ⟨_, hmonth,
      Except.bind_eq_ok.mpr ⟨_, hdow, ?_⟩⟩⟩⟩⟩
    dsimp only
    rw [← hsunday]
    rfl

end Gopherd.Cron
