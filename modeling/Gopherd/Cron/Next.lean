import Gopherd.Cron.Schedule
import Gopherd.Go.Time

/-!
The search for the next matching minute. `Schedule.Next` rebuilds the start of
the following minute, day or month from wall-clock fields. The loop is modelled
with fuel: `search` is `none` exactly while the loop is still running, and
`some none` is Go's zero time.
-/

namespace Gopherd.Cron

open Go

def nextLimitYears : Int := 9

/-- The day rule of cron: two restricted day fields are alternatives, an
unrestricted one leaves the decision to the other. -/
def Schedule.dayMatches (s : Schedule) (loc : Location) (t : Int) : Bool :=
  let domOK := hasBit s.dom (loc.day t)
  let dowOK := hasBit s.dow (loc.weekday t)
  if !s.domStar && !s.dowStar then domOK || dowOK else domOK && dowOK

inductive Move where
  | found
  | nextMinute
  | date (year month day hour : Int)
  deriving DecidableEq

def Schedule.move (s : Schedule) (loc : Location) (t : Int) : Move :=
  if !hasBit s.month (loc.month t) then .date (loc.year t) (loc.month t + 1) 1 0
  else if !s.dayMatches loc t then .date (loc.year t) (loc.month t) (loc.day t + 1) 0
  else if !hasBit s.hour (loc.hour t) then
    .date (loc.year t) (loc.month t) (loc.day t) (loc.hour t + 1)
  else if !hasBit s.minute (loc.minute t) then .nextMinute
  else .found

def Schedule.matches (s : Schedule) (loc : Location) (t : Int) : Bool :=
  hasBit s.month (loc.month t) && s.dayMatches loc t && hasBit s.hour (loc.hour t) &&
    hasBit s.minute (loc.minute t)

/-- One pass of the loop: the value of `t` for the next pass, unless `t` is
returned. -/
def Schedule.pass (s : Schedule) (loc : Location) (t : Int) : Option Int :=
  match s.move loc t with
  | .found => none
  | .nextMinute => some (t + 60 * nanosecond)
  | .date year month day hour => some (Go.date loc year month day hour 0 0 0)

def Schedule.search (s : Schedule) (loc : Location) (limit : Int) :
    Nat → Int → Option (Option Int)
  | 0, _ => none
  | fuel + 1, t =>
    if limit < t then some none
    else
      match s.pass loc t with
      | none => some (some t)
      | some next => s.search loc limit fuel next

def searchStart (loc : Location) (after : Int) : Int :=
  Go.date loc (loc.year after) (loc.month after) (loc.day after)
    (loc.hour after) (loc.minute after) 0 0 + 60 * nanosecond

def searchLimit (loc : Location) (after : Int) : Int :=
  loc.addDate after nextLimitYears 0 0

def Schedule.next (s : Schedule) (loc : Location) (after : Int) (fuel : Nat) :
    Option (Option Int) :=
  s.search loc (searchLimit loc after) fuel (searchStart loc after)

inductive Visits (s : Schedule) (loc : Location) (limit t₀ : Int) : Int → Prop where
  | start : t₀ ≤ limit → Visits s loc limit t₀ t₀
  | pass {t next : Int} : Visits s loc limit t₀ t → s.pass loc t = some next →
      next ≤ limit → Visits s loc limit t₀ next

section Search

variable (s : Schedule) (loc : Location) (limit : Int)

theorem pass_whole (hwhole : t % nanosecond = 0) (hpass : s.pass loc t = some next) :
    next % nanosecond = 0 := by
  unfold Schedule.pass at hpass
  split at hpass
  · cases hpass
  · cases hpass
    simp only [nanosecond] at *
    omega
  · cases hpass
    simp only [Go.date, nanosecond]
    omega

/-- All visited instants are whole seconds: the search starts at one, and
neither a minute nor a call of `time.Date` adds a fraction. -/
theorem Visits.whole (hwhole : t₀ % nanosecond = 0) (hvisit : Visits s loc limit t₀ t) :
    t % nanosecond = 0 := by
  induction hvisit with
  | start _ => exact hwhole
  | pass _ hpass _ ih => exact pass_whole s loc ih hpass

/-- What is visited after the first pass is visited by the whole search. -/
theorem Visits.of_pass (hvisit : Visits s loc limit next u) (hin : t ≤ limit)
    (hpass : s.pass loc t = some next) : Visits s loc limit t u := by
  induction hvisit with
  | start hnext => exact .pass (.start hin) hpass hnext
  | pass _ hlater hnext ih => exact .pass ih hlater hnext

/-- A search whose passes all go forward ends: `t` grows by at least one each
time and the limit stops it. -/
theorem search_returns (t : Int)
    (hforward : ∀ u next, Visits s loc limit t u → s.pass loc u = some next → u < next) :
    ∃ fuel result, s.search loc limit fuel t = some result := by
  -- the distance to the limit is the variant of the loop
  induction hdistance : (limit + 1 - t).toNat using Nat.strong_induction_on generalizing t with
  | _ distance ih =>
    by_cases hpast : limit < t
    · exact ⟨1, none, by simp [Schedule.search, hpast]⟩
    · have hvisit : Visits s loc limit t t := .start (by omega)
      cases hpass : s.pass loc t with
      | none => exact ⟨1, some t, by simp [Schedule.search, hpast, hpass]⟩
      | some next =>
        have hlater := hforward t next hvisit hpass
        obtain ⟨fuel, result, hresult⟩ := ih (limit + 1 - next).toNat (by omega) next
          (fun u v hu hp => hforward u v (hu.of_pass s loc limit (by omega) hpass) hp) rfl
        exact ⟨fuel + 1, result, by simpa [Schedule.search, hpast, hpass] using hresult⟩

end Search

/-- The day of the limit lies in its year or after it, where the date does
not exist. -/
theorem daysBeforeYear_le_limit (loc : Location) (after : Int) :
    Calendar.daysBeforeYear (loc.year after + nextLimitYears) ≤
      Calendar.dayNumber (loc.year after + nextLimitYears) (loc.month after + 0)
        (loc.day after + 0) := by
  obtain ⟨⟨hmonthLow, hmonthHigh⟩, ⟨hdayLow, -⟩, -⟩ := loc.fields_range after
  have hmonths : 0 ≤ Calendar.daysBeforeMonth
      (Calendar.isLeap (loc.year after + nextLimitYears)) (loc.month after) :=
    Calendar.daysBeforeMonth_mono _ (a := 1) hmonthLow (by omega)
  rw [add_zero, add_zero, Calendar.dayNumber_of_month_range _ _ _ hmonthLow hmonthHigh]
  omega

end Gopherd.Cron
