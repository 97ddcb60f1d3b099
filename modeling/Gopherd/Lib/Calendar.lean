import Mathlib.Tactic

/-!
The proleptic Gregorian calendar over all integers. A day is numbered from
0001-01-01. `dayNumber` accepts any month and any day and carries the excess
into the year and the following days; `civil` is the way back.
-/

namespace Gopherd.Calendar

/-- The index of the block that contains position `at`, when blocks of the
given lengths are laid end to end. -/
def blockOf : List Int → Int → Nat
  | [], _ => 0
  | length :: rest, position =>
    if position < length then 0 else blockOf rest (position - length) + 1

theorem blockOf_bounds (lengths : List Int) (position : Int)
    (hzero : 0 ≤ position) (hend : position < lengths.sum) :
    blockOf lengths position < lengths.length ∧
      (lengths.take (blockOf lengths position)).sum ≤ position ∧
      position < (lengths.take (blockOf lengths position + 1)).sum := by
  induction lengths generalizing position with
  | nil =>
    simp only [List.sum_nil] at hend
    omega
  | cons length rest ih =>
    simp only [List.sum_cons] at hend
    by_cases hhere : position < length
    · simp only [blockOf, if_pos hhere, List.length_cons]
      simpa using ⟨hzero, hhere⟩
    · obtain ⟨hindex, hlow, hhigh⟩ := ih (position - length) (by omega) (by omega)
      simp only [blockOf, if_neg hhere, List.length_cons, List.take_succ_cons,
        List.sum_cons]
      refine ⟨by omega, by omega, ?_⟩
      omega

def isLeap (year : Int) : Bool :=
  year % 4 = 0 ∧ (year % 100 ≠ 0 ∨ year % 400 = 0)

def monthLengths (leap : Bool) : List Int :=
  [31, if leap then 29 else 28, 31, 30, 31, 30, 31, 31, 30, 31, 30, 31]

/-- Days from 0001-01-01 to the first day of `year`. -/
def daysBeforeYear (year : Int) : Int :=
  365 * (year - 1) + (year - 1) / 4 - (year - 1) / 100 + (year - 1) / 400

/-- Days from the first day of a year to the first day of `month`. -/
def daysBeforeMonth (leap : Bool) (month : Int) : Int :=
  ((monthLengths leap).take (month - 1).toNat).sum

/-- The day number of a date whose month and day may overflow. -/
def dayNumber (year month day : Int) : Int :=
  daysBeforeYear (year + (month - 1) / 12) +
    daysBeforeMonth (isLeap (year + (month - 1) / 12)) ((month - 1) % 12 + 1) +
    (day - 1)

/-- The year of a day number. The quotient by the mean length of a year is
right or one too small. -/
def yearOf (day : Int) : Int :=
  if daysBeforeYear (400 * day / 146097 + 2) ≤ day then 400 * day / 146097 + 2
  else 400 * day / 146097 + 1

structure Civil where
  year : Int
  month : Int
  day : Int
  deriving DecidableEq

def civil (day : Int) : Civil :=
  let year := yearOf day
  let yearDay := day - daysBeforeYear year
  let month : Int := blockOf (monthLengths (isLeap year)) yearDay + 1
  ⟨year, month, yearDay - daysBeforeMonth (isLeap year) month + 1⟩

def weekday (day : Int) : Int :=
  (day + 1) % 7

theorem daysBeforeYear_succ (year : Int) :
    daysBeforeYear (year + 1) =
      daysBeforeYear year + (monthLengths (isLeap year)).sum := by
  by_cases hleap : isLeap year = true
  · have hrule : year % 4 = 0 ∧ (year % 100 ≠ 0 ∨ year % 400 = 0) := by
      simpa [isLeap] using hleap
    simp only [monthLengths, hleap, if_true, List.sum_cons, List.sum_nil, daysBeforeYear]
    omega
  · have hrule : ¬ (year % 4 = 0 ∧ (year % 100 ≠ 0 ∨ year % 400 = 0)) := by
      simpa [isLeap] using hleap
    simp only [monthLengths, if_neg hleap, List.sum_cons, List.sum_nil, daysBeforeYear]
    omega

theorem yearOf_bounds (day : Int) :
    daysBeforeYear (yearOf day) ≤ day ∧ day < daysBeforeYear (yearOf day + 1) := by
  by_cases hlate : daysBeforeYear (400 * day / 146097 + 2) ≤ day
  · rw [yearOf, if_pos hlate]
    refine ⟨hlate, ?_⟩
    unfold daysBeforeYear
    omega
  · rw [yearOf, if_neg hlate]
    refine ⟨?_, by simpa [add_assoc] using hlate⟩
    unfold daysBeforeYear
    omega

/-- The day of the year of a day number lies in the month that `civil` gives
it, and that month is one of the twelve. -/
theorem civil_month_bounds (day : Int) :
    let year := yearOf day
    let month := (civil day).month
    1 ≤ month ∧ month ≤ 12 ∧
      daysBeforeYear year + daysBeforeMonth (isLeap year) month ≤ day ∧
      day < daysBeforeYear year + ((monthLengths (isLeap year)).take month.toNat).sum := by
  obtain ⟨hstart, hend⟩ := yearOf_bounds day
  rw [daysBeforeYear_succ] at hend
  obtain ⟨hindex, hlow, hhigh⟩ := blockOf_bounds (monthLengths (isLeap (yearOf day)))
    (day - daysBeforeYear (yearOf day)) (by omega) (by omega)
  have hlength : (monthLengths (isLeap (yearOf day))).length = 12 := rfl
  simp only [civil, daysBeforeMonth]
  generalize blockOf (monthLengths (isLeap (yearOf day)))
    (day - daysBeforeYear (yearOf day)) = index at hindex hlow hhigh ⊢
  have hbefore : ((index : Int) + 1 - 1).toNat = index := by omega
  have hafter : ((index : Int) + 1).toNat = index + 1 := by omega
  rw [hbefore, hafter]
  exact ⟨by omega, by omega, by omega, by omega⟩

/-- The day of the month runs from 1 to at most 31. -/
theorem civil_day_range (day : Int) : 1 ≤ (civil day).day ∧ (civil day).day ≤ 31 := by
  obtain ⟨hlow, hhigh, hstart, hend⟩ := civil_month_bounds day
  have hlengths : ∀ leap : Bool, ∀ index : Fin 12,
      ((monthLengths leap).take (index.val + 1)).sum ≤
        ((monthLengths leap).take index.val).sum + 31 := by decide
  have hmonth := hlengths (isLeap (yearOf day)) ⟨((civil day).month - 1).toNat, by omega⟩
  have hindex : ((civil day).month - 1).toNat + 1 = (civil day).month.toNat := by omega
  have hday : (civil day).day =
      day - daysBeforeYear (yearOf day) -
        daysBeforeMonth (isLeap (yearOf day)) (civil day).month + 1 := rfl
  simp only [hindex] at hmonth
  simp only [daysBeforeMonth] at hday hstart
  omega

/-- A normalised month needs no carry into the year. -/
theorem dayNumber_of_month_range (year month day : Int)
    (hlow : 1 ≤ month) (hhigh : month ≤ 12) :
    dayNumber year month day =
      daysBeforeYear year + daysBeforeMonth (isLeap year) month + (day - 1) := by
  have hcarry : (month - 1) / 12 = 0 := by omega
  have hmonth : (month - 1) % 12 + 1 = month := by omega
  simp only [dayNumber, hcarry, hmonth, add_zero]

/-- Days overflow linearly: the excess is carried day by day. -/
theorem dayNumber_add_day (year month day extra : Int) :
    dayNumber year month (day + extra) = dayNumber year month day + extra := by
  simp only [dayNumber]
  omega

theorem dayNumber_civil (day : Int) :
    dayNumber (civil day).year (civil day).month (civil day).day = day := by
  obtain ⟨hlow, hhigh, -, -⟩ := civil_month_bounds day
  rw [dayNumber_of_month_range _ _ _ hlow hhigh]
  simp only [civil]
  omega

def monthLength (leap : Bool) (month : Int) : Int :=
  daysBeforeMonth leap (month + 1) - daysBeforeMonth leap month

structure Civil.Valid (c : Civil) : Prop where
  month_pos : 1 ≤ c.month
  month_le : c.month ≤ 12
  day_pos : 1 ≤ c.day
  day_le : c.day ≤ monthLength (isLeap c.year) c.month

theorem daysBeforeYear_mono (h : a ≤ b) : daysBeforeYear a ≤ daysBeforeYear b := by
  unfold daysBeforeYear
  omega

theorem daysBeforeMonth_mono (leap : Bool) (h : a ≤ b) (hb : b ≤ 13) :
    daysBeforeMonth leap a ≤ daysBeforeMonth leap b := by
  have htable : ∀ leap : Bool, ∀ i j : Fin 13, i ≤ j →
      ((monthLengths leap).take i.val).sum ≤ ((monthLengths leap).take j.val).sum := by decide
  refine htable leap ⟨(a - 1).toNat, by omega⟩ ⟨(b - 1).toNat, by omega⟩ ?_
  simp only [Fin.mk_le_mk]
  omega

theorem daysBeforeMonth_thirteen (year : Int) :
    daysBeforeYear year + daysBeforeMonth (isLeap year) 13 = daysBeforeYear (year + 1) := by
  rw [daysBeforeYear_succ]
  rfl

namespace Civil.Valid

variable {c c' : Civil}

/-- The day number of a date lies in its month. -/
theorem bounds (h : c.Valid) :
    daysBeforeYear c.year + daysBeforeMonth (isLeap c.year) c.month ≤
        dayNumber c.year c.month c.day ∧
      dayNumber c.year c.month c.day <
        daysBeforeYear c.year + daysBeforeMonth (isLeap c.year) (c.month + 1) := by
  obtain ⟨hm, hm', hd, hd'⟩ := h
  rw [dayNumber_of_month_range _ _ _ hm hm']
  unfold monthLength at hd'
  omega

theorem year_bounds (h : c.Valid) :
    daysBeforeYear c.year ≤ dayNumber c.year c.month c.day ∧
      dayNumber c.year c.month c.day < daysBeforeYear (c.year + 1) := by
  obtain ⟨hlow, hhigh⟩ := h.bounds
  have hstart : 0 ≤ daysBeforeMonth (isLeap c.year) c.month :=
    daysBeforeMonth_mono _ (a := 1) h.month_pos (by have := h.month_le; omega)
  have hend := daysBeforeMonth_mono (isLeap c.year) (a := c.month + 1) (b := 13)
    (by have := h.month_le; omega) le_rfl
  rw [← daysBeforeMonth_thirteen]
  exact ⟨by omega, by omega⟩

theorem lt_of_year_lt (h : c.Valid) (h' : c'.Valid) (hyear : c.year < c'.year) :
    dayNumber c.year c.month c.day < dayNumber c'.year c'.month c'.day :=
  calc dayNumber c.year c.month c.day
      < daysBeforeYear (c.year + 1) := h.year_bounds.2
    _ ≤ daysBeforeYear c'.year := daysBeforeYear_mono (by omega)
    _ ≤ dayNumber c'.year c'.month c'.day := h'.year_bounds.1

theorem lt_of_month_lt (h : c.Valid) (h' : c'.Valid) (hyear : c.year = c'.year)
    (hmonth : c.month < c'.month) :
    dayNumber c.year c.month c.day < dayNumber c'.year c'.month c'.day := by
  have hmono := daysBeforeMonth_mono (isLeap c.year) (a := c.month + 1) (b := c'.month)
    (by omega) (by have := h'.month_le; omega)
  have hlow := h.bounds.2
  have hhigh := h'.bounds.1
  rw [← hyear] at hhigh ⊢
  omega

/-- Different dates have different day numbers. -/
theorem unique (h : c.Valid) (h' : c'.Valid)
    (heq : dayNumber c.year c.month c.day = dayNumber c'.year c'.month c'.day) : c = c' := by
  have hyear : c.year = c'.year := by
    rcases lt_trichotomy c.year c'.year with hlt | hsame | hlt
    · exact absurd heq (h.lt_of_year_lt h' hlt).ne
    · exact hsame
    · exact absurd heq.symm (h'.lt_of_year_lt h hlt).ne
  have hmonth : c.month = c'.month := by
    rcases lt_trichotomy c.month c'.month with hlt | hsame | hlt
    · exact absurd heq (h.lt_of_month_lt h' hyear hlt).ne
    · exact hsame
    · exact absurd heq.symm (h'.lt_of_month_lt h hyear.symm hlt).ne
  have hday : c.day = c'.day := by
    rw [hyear, hmonth] at heq
    simp only [dayNumber] at heq
    omega
  cases c
  cases c'
  simp_all

end Civil.Valid

theorem civil_valid (day : Int) : (civil day).Valid := by
  obtain ⟨hlow, hhigh, -, hend⟩ := civil_month_bounds day
  have hday : (civil day).day = day - daysBeforeYear (yearOf day) -
      daysBeforeMonth (isLeap (yearOf day)) (civil day).month + 1 := rfl
  refine ⟨hlow, hhigh, (civil_day_range day).1, ?_⟩
  change (civil day).day ≤ monthLength (isLeap (yearOf day)) _
  have hnext : (civil day).month + 1 - 1 = (civil day).month := by ring
  simp only [monthLength, daysBeforeMonth, hnext] at hday ⊢
  omega

/-- The way back from the day number of a date. -/
theorem civil_dayNumber (h : c.Valid) : civil (dayNumber c.year c.month c.day) = c :=
  (civil_valid _).unique h (dayNumber_civil _)

theorem Civil.Valid.day_le_max {c : Civil} (h : c.Valid) : c.day ≤ 31 := by
  have hrange := (civil_day_range (dayNumber c.year c.month c.day)).2
  rwa [civil_dayNumber h] at hrange

/-- The first of the next month; after December it is in the next year. -/
theorem dayNumber_next_month (hlow : 1 ≤ month) (hhigh : month ≤ 12) :
    dayNumber year (month + 1) 1 =
      daysBeforeYear year + daysBeforeMonth (isLeap year) (month + 1) := by
  by_cases hlast : month < 12
  · rw [dayNumber_of_month_range _ _ _ (by omega) (by omega)]
    omega
  · obtain rfl : month = 12 := by omega
    rw [show (12 : Int) + 1 = 13 from rfl, daysBeforeMonth_thirteen, dayNumber]
    simp [daysBeforeMonth]

/-- All days from one day to the first of the next month are in its month. -/
theorem civil_same_month (hle : day ≤ other)
    (hlt : other < dayNumber (civil day).year ((civil day).month + 1) 1) :
    (civil other).year = (civil day).year ∧ (civil other).month = (civil day).month := by
  have h := civil_valid day
  have hstart := h.bounds.1
  rw [dayNumber_civil] at hstart
  rw [dayNumber_next_month h.month_pos h.month_le] at hlt
  obtain ⟨first, hfirst⟩ : ∃ first, first = daysBeforeYear (civil day).year +
      daysBeforeMonth (isLeap (civil day).year) (civil day).month := ⟨_, rfl⟩
  have hvalid : Civil.Valid ⟨(civil day).year, (civil day).month, other - first + 1⟩ := by
    refine ⟨h.month_pos, h.month_le, by simp only; omega, ?_⟩
    simp only [monthLength]
    omega
  have hnumber : dayNumber (civil day).year (civil day).month (other - first + 1) = other := by
    rw [dayNumber_of_month_range _ _ _ h.month_pos h.month_le]
    omega
  have hcivil := civil_dayNumber hvalid
  rw [hnumber] at hcivil
  rw [hcivil]
  exact ⟨rfl, rfl⟩

/-- No month is longer than in a leap year. -/
theorem monthLength_le_leap (leap : Bool) (hlow : 1 ≤ month) (hhigh : month ≤ 12) :
    monthLength leap month ≤ monthLength true month := by
  have htable : ∀ leap : Bool, ∀ index : Fin 12,
      monthLength leap (index.val + 1) ≤ monthLength true (index.val + 1) := by decide
  have hmonth := htable leap ⟨(month - 1).toNat, by omega⟩
  have hindex : (((month - 1).toNat : Nat) : Int) + 1 = month := by omega
  simpa only [hindex] using hmonth

/-- Of eight years in a row one is a leap year. -/
theorem exists_leap (year : Int) : ∃ y, year < y ∧ y ≤ year + 8 ∧ isLeap y = true := by
  obtain ⟨y, hlow, hhigh, hfour⟩ : ∃ y, year < y ∧ y ≤ year + 4 ∧ y % 4 = 0 :=
    ⟨year + 4 - year % 4, by omega, by omega, by omega⟩
  by_cases hcentury : y % 100 = 0
  · exact ⟨y + 4, by omega, by omega, decide_eq_true ⟨by omega, .inl (by omega)⟩⟩
  · exact ⟨y, hlow, by omega, decide_eq_true ⟨hfour, .inl hcentury⟩⟩

/-- The first of the following month lies after every day of this month. -/
theorem lt_first_of_next_month (day : Int) :
    day < dayNumber (civil day).year ((civil day).month + 1) 1 := by
  have h := civil_valid day
  have hend := h.bounds.2
  rwa [dayNumber_civil, ← dayNumber_next_month h.month_pos h.month_le] at hend

end Gopherd.Calendar
