import Gopherd.Cron.Next

namespace Gopherd.Cron

open Go Calendar

/-- The schedule rules out the month, the day or the hour of the wall clock
`clock`, and `target` is the wall clock at which that period ends. -/
def Schedule.Skips (s : Schedule) (clock target : Int) : Prop :=
  if !hasBit s.month (utc.month (clock * nanosecond)) then
    target =
      wallSeconds (utc.year (clock * nanosecond)) (utc.month (clock * nanosecond) + 1) 1 0 0 0
  else if !s.dayMatches utc (clock * nanosecond) then target = (clock / 86400 + 1) * 86400
  else if !hasBit s.hour (utc.hour (clock * nanosecond)) then target = (clock / 3600 + 1) * 3600
  else False

def Schedule.matchesClock (s : Schedule) (clock : Int) : Bool :=
  s.matches utc (clock * nanosecond)

section Clocks

variable {s : Schedule} {clock other target : Int}

theorem utc_wall (clock : Int) : utc.wall (clock * nanosecond) = clock := by
  rw [utc_fixed.wall]
  simp only [unix, nanosecond, utc]
  omega

/-- All fields of an instant are read off the wall clock that shows. -/
theorem move_eq_utc (s : Schedule) (loc : Location) (t : Int) :
    s.move loc t = s.move utc (loc.wall t * nanosecond) := by
  simp only [Schedule.move, Schedule.dayMatches, Location.month, Location.year, Location.day,
    Location.weekday, Location.hour, Location.minute, Location.civil, utc_wall]
  congr

theorem matches_eq (s : Schedule) (loc : Location) (t : Int) :
    s.matches loc t = s.matchesClock (loc.wall t) := by
  simp only [Schedule.matchesClock, Schedule.matches, Schedule.dayMatches, Location.month,
    Location.day, Location.weekday, Location.hour, Location.minute, Location.civil, utc_wall]

theorem Schedule.Skips.not_matches (h : s.Skips clock target) : s.matchesClock clock = false := by
  unfold Schedule.Skips at h
  unfold Schedule.matchesClock Schedule.matches
  split_ifs at h with hmonth hday hhour
  all_goals simp_all

theorem Schedule.Skips.unique (h : s.Skips clock target) (h' : s.Skips clock other) :
    target = other := by
  unfold Schedule.Skips at h h'
  split_ifs at h h'
  · rw [h, h']
  · rw [h, h']
  · rw [h, h']

theorem Schedule.Skips.lt (h : s.Skips clock target) : clock < target := by
  unfold Schedule.Skips at h
  split_ifs at h
  · have hnext := utc.wall_lt_next_month (clock * nanosecond)
    rw [utc_wall] at hnext
    exact h ▸ hnext
  · omega
  · omega

/-- The ends of months, days and hours are whole hours. -/
theorem Schedule.Skips.wholeHour (h : s.Skips clock target) : target % 3600 = 0 := by
  unfold Schedule.Skips at h
  split_ifs at h
  · simp only [wallSeconds] at h
    omega
  · omega
  · omega

/-- What is read off the hour of a wall clock. -/
theorem Schedule.skips_congr (hhour : clock / 3600 = other / 3600) :
    s.Skips clock target ↔ s.Skips other target := by
  have hday : clock / 86400 = other / 86400 := by omega
  have hof : clock % 86400 / 3600 = other % 86400 / 3600 := by omega
  simp only [Schedule.Skips, Schedule.dayMatches, Location.month, Location.year, Location.day,
    Location.weekday, Location.hour, Location.civil, utc_wall, hday, hof, hhour]

theorem Schedule.matchesClock_congr (hminute : clock / 60 = other / 60) :
    s.matchesClock clock = s.matchesClock other := by
  have hday : clock / 86400 = other / 86400 := by omega
  have hof : clock % 86400 / 3600 = other % 86400 / 3600 := by omega
  have hin : clock % 3600 / 60 = other % 3600 / 60 := by omega
  simp only [Schedule.matchesClock, Schedule.matches, Schedule.dayMatches, Location.month,
    Location.day, Location.weekday, Location.hour, Location.minute, Location.civil, utc_wall,
    hday, hof, hin]

/-- A period that is skipped is skipped from each of its wall clocks on. -/
theorem Schedule.Skips.of_le (h : s.Skips clock target) (hle : clock ≤ other)
    (hlt : other < target) : s.Skips other target := by
  unfold Schedule.Skips at h
  split_ifs at h with hmonth hday hhour
  · have hnext : other / 86400 + unixEpochDay <
        dayNumber (utc.year (clock * nanosecond)) (utc.month (clock * nanosecond) + 1) 1 := by
      rw [h, wallSeconds] at hlt
      omega
    have hdays : clock / 86400 + unixEpochDay ≤ other / 86400 + unixEpochDay := by omega
    simp only [Location.year, Location.month, Location.civil, utc_wall] at h hmonth hnext
    obtain ⟨hyear, hsame⟩ := civil_same_month hdays hnext
    simp only [Schedule.Skips, Location.year, Location.month, Location.civil, utc_wall, hyear,
      hsame, if_pos hmonth]
    exact h
  · have hsame : clock / 86400 = other / 86400 := by omega
    simp only [Location.month, Schedule.dayMatches, Location.day, Location.weekday,
      Location.civil, utc_wall, hsame] at hmonth hday
    simp only [Schedule.Skips, Location.month, Schedule.dayMatches, Location.day,
      Location.weekday, Location.civil, utc_wall, if_neg hmonth, if_pos hday]
    omega
  · refine (Schedule.skips_congr (by omega : clock / 3600 = other / 3600)).mp ?_
    unfold Schedule.Skips
    rw [if_neg hmonth, if_neg hday, if_pos hhour]
    exact h

end Clocks

section Passes

variable {s : Schedule} {loc : Location} {t next target : Int}

theorem move_of_skips (h : s.Skips (loc.wall t) target) :
    ∃ year month day hour, s.move loc t = .date year month day hour ∧
      wallSeconds year month day hour 0 0 = target := by
  rw [move_eq_utc]
  have hday := utc.dayNumber_civil (loc.wall t * nanosecond)
  rw [utc_wall] at hday
  unfold Schedule.Skips at h
  unfold Schedule.move
  split_ifs at h ⊢
  · exact ⟨_, _, _, _, rfl, h.symm⟩
  · refine ⟨_, _, _, _, rfl, ?_⟩
    simp only [wallSeconds, dayNumber_add_day]
    omega
  · refine ⟨_, _, _, _, rfl, ?_⟩
    simp only [wallSeconds, Location.hour, utc_wall]
    omega

theorem pass_of_skips (h : s.Skips (loc.wall t) target) :
    s.pass loc t = some ((target - loc.resolve target) * nanosecond) := by
  obtain ⟨year, month, day, hour, hmove, rfl⟩ := move_of_skips h
  simp [Schedule.pass, hmove, date]

theorem pass_eq_none_iff : s.pass loc t = none ↔ s.matchesClock (loc.wall t) = true := by
  rw [← matches_eq]
  unfold Schedule.pass Schedule.move Schedule.matches
  cases hasBit s.month (loc.month t) <;> cases s.dayMatches loc t <;>
    cases hasBit s.hour (loc.hour t) <;> cases hasBit s.minute (loc.minute t) <;> simp

theorem unmatched_of_pass (hpass : s.pass loc t = some next) :
    s.matchesClock (loc.wall t) = false := by
  rw [← Bool.not_eq_true, ← pass_eq_none_iff, hpass]
  simp

/-- A pass that goes on jumps to the end of what is skipped, or goes one
minute on where nothing is. -/
theorem pass_cases (hpass : s.pass loc t = some next) :
    (∃ target, s.Skips (loc.wall t) target ∧
        next = (target - loc.resolve target) * nanosecond) ∨
      (∀ target, ¬ s.Skips (loc.wall t) target) ∧ next = t + 60 * nanosecond := by
  by_cases hskips : ∃ target, s.Skips (loc.wall t) target
  · obtain ⟨target, hskips⟩ := hskips
    rw [pass_of_skips hskips] at hpass
    exact .inl ⟨target, hskips, (Option.some.inj hpass).symm⟩
  · refine .inr ⟨not_exists.mp hskips, ?_⟩
    rw [Schedule.pass, move_eq_utc] at hpass
    simp only [Schedule.Skips, not_exists] at hskips
    unfold Schedule.move at hpass
    split_ifs at hskips hpass
    all_goals simp_all

end Passes

end Gopherd.Cron
