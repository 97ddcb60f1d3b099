import Gopherd.Lib.Calendar

/-!
The part of Go's `time` package that reads and builds wall clocks. An instant
is a number of nanoseconds since the Unix epoch. A location is its offset
before the first change together with the finite list of its offset changes.
-/

namespace Gopherd.Go

open Calendar

structure Location where
  first : Int
  changes : List (Int × Int)
  sorted : changes.Pairwise (fun earlier later => earlier.1 < later.1)

def utc : Location := ⟨0, [], .nil⟩

structure Zone where
  offset : Int
  start : Option Int
  stop : Option Int
  deriving DecidableEq

def Zone.contains (zone : Zone) (second : Int) : Bool :=
  zone.start.all (· ≤ second) && zone.stop.all (second < ·)

def lookupFrom (offset : Int) (start : Option Int) :
    List (Int × Int) → Int → Zone
  | [], _ => ⟨offset, start, none⟩
  | (atSecond, next) :: rest, second =>
    if second < atSecond then ⟨offset, start, some atSecond⟩
    else lookupFrom next (some atSecond) rest second

def Location.lookup (loc : Location) (second : Int) : Zone :=
  lookupFrom loc.first none loc.changes second

/-- The offset `time.Date` settles on for a wall clock given as if it were
UTC: the one found there, unless the instant it leads to lies outside the
interval of that offset, in which case the lookup is made once more. -/
def Location.resolve (loc : Location) (wall : Int) : Int :=
  let zone := loc.lookup wall
  if zone.offset ≠ 0 then
    if zone.contains (wall - zone.offset) then zone.offset
    else (loc.lookup (wall - zone.offset)).offset
  else 0

def nanosecond : Int := 1000000000

def unixEpochDay : Int := 719162

/-- A wall clock as seconds since the epoch, read as UTC. Every field may
overflow, as Go's normalisation allows. -/
def wallSeconds (year month day hour minute second : Int) : Int :=
  (dayNumber year month day - unixEpochDay) * 86400 +
    hour * 3600 + minute * 60 + second

/-- `time.Date`. -/
def date (loc : Location) (year month day hour minute second nsec : Int) : Int :=
  let wall := wallSeconds year month day hour minute second
  (wall - loc.resolve wall) * nanosecond + nsec

def unix (t : Int) : Int := t / nanosecond

def Location.offsetAt (loc : Location) (t : Int) : Int :=
  (loc.lookup (unix t)).offset

/-- The wall clock that shows at an instant, as seconds read as UTC. -/
def Location.wall (loc : Location) (t : Int) : Int :=
  unix t + loc.offsetAt t

section Fields

variable (loc : Location) (t : Int)

def Location.civil (loc : Location) (t : Int) : Civil :=
  Calendar.civil (loc.wall t / 86400 + unixEpochDay)

def Location.year : Int := (loc.civil t).year
def Location.month : Int := (loc.civil t).month
def Location.day : Int := (loc.civil t).day
def Location.hour : Int := loc.wall t % 86400 / 3600
def Location.minute : Int := loc.wall t % 3600 / 60
def Location.second : Int := loc.wall t % 60
def Location.weekday : Int := Calendar.weekday (loc.wall t / 86400 + unixEpochDay)

def Location.addDate (years months days : Int) : Int :=
  date loc (loc.year t + years) (loc.month t + months) (loc.day t + days)
    (loc.hour t) (loc.minute t) (loc.second t) (t % nanosecond)

def Location.Fixed : Prop :=
  ∀ second, (loc.lookup second).offset = loc.first

theorem utc_fixed : utc.Fixed := fun _ => rfl

theorem Location.Fixed.resolve (hfixed : loc.Fixed) (wall : Int) :
    loc.resolve wall = loc.first := by
  unfold Location.resolve
  simp only [hfixed wall, hfixed (wall - loc.first)]
  split_ifs with hzero
  · rfl
  · rfl
  · exact (not_not.mp hzero).symm

theorem Location.Fixed.wall (hfixed : loc.Fixed) (t : Int) : loc.wall t = unix t + loc.first := by
  rw [Location.wall, Location.offsetAt, hfixed]

/-- The day fields of an instant give back the day of its wall clock. -/
theorem Location.dayNumber_civil :
    dayNumber (loc.year t) (loc.month t) (loc.day t) =
      loc.wall t / 86400 + unixEpochDay :=
  Calendar.dayNumber_civil _

/-- The ranges of the fields of an instant. -/
theorem Location.fields_range :
    (1 ≤ loc.month t ∧ loc.month t ≤ 12) ∧ (1 ≤ loc.day t ∧ loc.day t ≤ 31) ∧
      (0 ≤ loc.weekday t ∧ loc.weekday t ≤ 6) ∧ (0 ≤ loc.hour t ∧ loc.hour t ≤ 23) ∧
      (0 ≤ loc.minute t ∧ loc.minute t ≤ 59) := by
  obtain ⟨hfirst, hlast, -, -⟩ :=
    Calendar.civil_month_bounds (loc.wall t / 86400 + unixEpochDay)
  refine ⟨⟨hfirst, hlast⟩, Calendar.civil_day_range _, ?_, ?_, ?_⟩
  · simp only [Location.weekday, Calendar.weekday]
    omega
  · simp only [Location.hour]
    omega
  · simp only [Location.minute]
    omega

theorem Location.wall_lt_next_month :
    loc.wall t < wallSeconds (loc.year t) (loc.month t + 1) 1 0 0 0 := by
  have hnext := lt_first_of_next_month (loc.wall t / 86400 + unixEpochDay)
  change _ < dayNumber (loc.year t) (loc.month t + 1) 1 at hnext
  simp only [wallSeconds]
  omega

/-- Dropping the seconds of a wall clock gives the start of its minute. -/
theorem Location.wallSeconds_minute :
    wallSeconds (loc.year t) (loc.month t) (loc.day t) (loc.hour t) (loc.minute t) 0 =
      loc.wall t - loc.second t := by
  have hday := loc.dayNumber_civil t
  simp only [wallSeconds, Location.hour, Location.minute, Location.second]
  omega

/-- Without offset changes a wall clock that `time.Date` builds is the one that
shows at the instant it returns. -/
theorem Location.wall_date (hfixed : loc.Fixed) (year month day hour minute second : Int) :
    loc.wall (date loc year month day hour minute second 0) =
      wallSeconds year month day hour minute second := by
  rw [hfixed.wall, date, hfixed.resolve]
  simp only [unix, nanosecond]
  omega

/-- The fields of an instant that is built from a date and a time of day. -/
theorem Location.fields_date (hfixed : loc.Fixed) (hc : c.Valid) {hour minute : Int}
    (hhour : 0 ≤ hour ∧ hour ≤ 23) (hminute : 0 ≤ minute ∧ minute ≤ 59) :
    loc.civil (date loc c.year c.month c.day hour minute 0 0) = c ∧
      loc.weekday (date loc c.year c.month c.day hour minute 0 0) =
        Calendar.weekday (dayNumber c.year c.month c.day) ∧
      loc.hour (date loc c.year c.month c.day hour minute 0 0) = hour ∧
      loc.minute (date loc c.year c.month c.day hour minute 0 0) = minute ∧
      loc.second (date loc c.year c.month c.day hour minute 0 0) = 0 := by
  have hwall := loc.wall_date hfixed c.year c.month c.day hour minute 0
  have hday : wallSeconds c.year c.month c.day hour minute 0 / 86400 + unixEpochDay =
      dayNumber c.year c.month c.day := by
    unfold wallSeconds
    omega
  refine ⟨?_, ?_, ?_, ?_, ?_⟩
  · rw [Location.civil, hwall, hday, civil_dayNumber hc]
  · rw [Location.weekday, hwall, hday]
  · rw [Location.hour, hwall, wallSeconds]
    omega
  · rw [Location.minute, hwall, wallSeconds]
    omega
  · rw [Location.second, hwall, wallSeconds]
    omega

end Fields

end Gopherd.Go
