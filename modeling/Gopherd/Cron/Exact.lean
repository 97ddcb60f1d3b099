import Gopherd.Cron.Skips
import Gopherd.Cron.Steps

/-!
`Next` where the offset never changes.
-/

namespace Gopherd.Cron

open Go Calendar

def WholeMinute (loc : Location) (t : Int) : Prop :=
  t % nanosecond = 0 ∧ loc.second t = 0

section

variable {s : Schedule} {loc : Location} {t u next : Int}

theorem date_wholeMinute (hfixed : loc.Fixed) (year month day hour minute : Int) :
    WholeMinute loc (date loc year month day hour minute 0 0) := by
  refine ⟨?_, ?_⟩
  · simp only [date, nanosecond]
    omega
  · rw [Location.second, loc.wall_date hfixed, wallSeconds]
    omega

/-- A pass that goes on moves to a later whole minute, and nothing on the way
matches. -/
theorem pass_skips (hfixed : loc.Fixed) (hwhole : WholeMinute loc t)
    (hpass : s.pass loc t = some next) :
    t < next ∧ WholeMinute loc next ∧ ∀ u, t ≤ u → u < next → s.matches loc u = false := by
  have hnot := unmatched_of_pass hpass
  obtain ⟨hsecond, hzero⟩ := hwhole
  simp only [Location.second, hfixed.wall, unix] at hnot hzero
  rcases pass_cases hpass with ⟨target, hskips, rfl⟩ | ⟨-, rfl⟩
  · have hlt := hskips.lt
    have hhour := hskips.wholeHour
    rw [hfixed.wall, unix] at hlt hskips
    simp only [WholeMinute, Location.second, hfixed.wall, hfixed.resolve, unix]
    refine ⟨?_, ⟨?_, ?_⟩, fun u hle hbefore => ?_⟩
    · simp only [nanosecond] at *
      omega
    · simp only [nanosecond]
      omega
    · simp only [nanosecond]
      omega
    · rw [matches_eq, hfixed.wall, unix]
      refine (hskips.of_le ?_ ?_).not_matches
      · simp only [nanosecond] at *
        omega
      · simp only [nanosecond] at *
        omega
  · simp only [WholeMinute, Location.second, hfixed.wall, unix]
    refine ⟨?_, ⟨?_, ?_⟩, fun u hle hbefore => ?_⟩
    · simp [nanosecond]
    · simp only [nanosecond] at *
      omega
    · simp only [nanosecond] at *
      omega
    · rw [matches_eq, hfixed.wall, unix, ← hnot]
      refine Schedule.matchesClock_congr ?_
      simp only [nanosecond] at *
      omega

variable {limit : Int}

theorem Visits.wholeMinute (hfixed : loc.Fixed) (hwhole : WholeMinute loc t)
    (hvisit : Visits s loc limit t u) : WholeMinute loc u := by
  induction hvisit with
  | start => exact hwhole
  | pass _ hpass _ ih => exact (pass_skips hfixed ih hpass).2.1

/-- What the search returns is the first match. -/
theorem search_found (hfixed : loc.Fixed) (fuel : Nat) (hwhole : WholeMinute loc t)
    (h : s.search loc limit fuel t = some (some r)) :
    t ≤ r ∧ WholeMinute loc r ∧ s.matches loc r = true ∧
      ∀ u, t ≤ u → u < r → s.matches loc u = false := by
  induction fuel generalizing t with
  | zero => cases h
  | succ fuel ih =>
    have hin : ¬ limit < t := by
      intro hpast
      simp [Schedule.search, hpast] at h
    rw [Schedule.search, if_neg hin] at h
    cases hpass : s.pass loc t with
    | none =>
      simp only [hpass, Option.some.injEq] at h
      subst h
      have hmatch := pass_eq_none_iff.mp hpass
      rw [← matches_eq] at hmatch
      exact ⟨le_rfl, hwhole, hmatch, fun u hle hlt => absurd hlt (not_lt.mpr hle)⟩
    | some next =>
      simp only [hpass] at h
      obtain ⟨hlater, hnext, hskip⟩ := pass_skips hfixed hwhole hpass
      obtain ⟨hle, hr, hmatch, hfirst⟩ := ih hnext h
      refine ⟨hlater.le.trans hle, hr, hmatch, fun u hu hlt => ?_⟩
      by_cases hbefore : u < next
      · exact hskip u hu hbefore
      · exact hfirst u (not_lt.mp hbefore) hlt

/-- A search that gives up has found nothing up to its limit. -/
theorem search_gives_up (hfixed : loc.Fixed) (fuel : Nat) (hwhole : WholeMinute loc t)
    (h : s.search loc limit fuel t = some none) :
    ∀ u, t ≤ u → u ≤ limit → s.matches loc u = false := by
  induction fuel generalizing t with
  | zero => cases h
  | succ fuel ih =>
    rw [Schedule.search] at h
    split_ifs at h with hpast
    · intro u hle hin
      omega
    · cases hpass : s.pass loc t with
      | none => simp [hpass] at h
      | some next =>
        simp only [hpass] at h
        obtain ⟨-, hnext, hskip⟩ := pass_skips hfixed hwhole hpass
        intro u hle hin
        by_cases hbefore : u < next
        · exact hskip u hle hbefore
        · exact ih hnext h u (not_lt.mp hbefore) hin

variable {after : Int}

theorem searchStart_eq (hfixed : loc.Fixed) :
    searchStart loc after = (unix after - loc.second after + 60) * nanosecond := by
  simp only [searchStart, date, loc.wallSeconds_minute, hfixed.resolve, hfixed.wall]
  ring

theorem searchStart_wholeMinute (hfixed : loc.Fixed) : WholeMinute loc (searchStart loc after) := by
  rw [searchStart_eq hfixed]
  simp only [WholeMinute, Location.second, hfixed.wall, unix, nanosecond]
  omega

/-- The search starts at the first whole minute after `after`. -/
theorem searchStart_le_iff (hfixed : loc.Fixed) (hwhole : WholeMinute loc u) :
    searchStart loc after ≤ u ↔ after < u := by
  rw [searchStart_eq hfixed]
  obtain ⟨hsecond, hzero⟩ := hwhole
  simp only [Location.second, hfixed.wall, unix, nanosecond] at *
  omega

/-- The date comes back in a leap year, the weekday in every year. -/
theorem Schedule.Accepted.exists_date (h : s.Accepted) (hleap : isLeap year = true)
    (hday : s.dayMatches loc t = true) :
    ∃ c : Civil, c.Valid ∧ c.year = year ∧ c.month = loc.month t ∧
      ∀ u, loc.civil u = c → loc.weekday u = weekday (dayNumber c.year c.month c.day) →
        s.dayMatches loc u = true := by
  obtain ⟨-, -, hweekday, -⟩ := loc.fields_range t
  have hvalid : (loc.civil t).Valid := civil_valid _
  have hdate : ∃ c : Civil, c.Valid ∧ c.year = year ∧ c.month = loc.month t ∧
      c.day = loc.day t := by
    have hlength := monthLength_le_leap (isLeap (loc.civil t).year) hvalid.month_pos hvalid.month_le
    refine ⟨⟨year, loc.month t, loc.day t⟩, ⟨hvalid.month_pos, hvalid.month_le,
      hvalid.day_pos, ?_⟩, rfl, rfl, rfl⟩
    simp only [hleap]
    exact hvalid.day_le.trans hlength
  obtain ⟨c', hc', hyear', hmonth', hday'⟩ := exists_weekday year hvalid.month_pos hvalid.month_le
    hweekday.1 hweekday.2
  obtain ⟨c, hc, hyear, hmonth, hsame⟩ := hdate
  have hdom : ∀ d : Civil, d.Valid → s.domStar = true → hasBit s.dom d.day = true :=
    fun d hd hstar => h.domStar hstar _ hd.day_pos hd.day_le_max
  have hdow : ∀ u, s.dowStar = true → hasBit s.dow (loc.weekday u) = true := by
    intro u hstar
    obtain ⟨-, -, hrange, -⟩ := loc.fields_range u
    exact h.dowStar hstar _ hrange.1 hrange.2
  unfold Schedule.dayMatches at hday ⊢
  cases hdomStar : s.domStar with
  | true =>
    -- the weekday decides
    simp only [hdomStar, Bool.not_true, Bool.false_and, Bool.false_eq_true, if_false,
      Bool.and_eq_true] at hday ⊢
    refine ⟨c', hc', hyear', hmonth', fun u hu hwd => ⟨?_, ?_⟩⟩
    · rw [Location.day, hu]
      exact hdom c' hc' hdomStar
    · rw [hwd, hday']
      exact hday.2
  | false =>
    cases hdowStar : s.dowStar with
    | true =>
      simp only [hdomStar, hdowStar, Bool.not_true, Bool.and_false, Bool.false_eq_true,
        if_false, Bool.and_eq_true] at hday ⊢
      refine ⟨c, hc, hyear, hmonth, fun u hu _ => ⟨?_, hdow u hdowStar⟩⟩
      rw [Location.day, hu, hsame]
      exact hday.1
    | false =>
      simp only [hdomStar, hdowStar, Bool.not_false, Bool.and_self, if_true,
        Bool.or_eq_true] at hday ⊢
      rcases hday with hday | hday
      · refine ⟨c, hc, hyear, hmonth, fun u hu _ => .inl ?_⟩
        rw [Location.day, hu, hsame]
        exact hday
      · refine ⟨c', hc', hyear', hmonth', fun u _ hwd => .inr ?_⟩
        rw [hwd, hday']
        exact hday

/-- A schedule that matches once matches in one of any eight years in a row. -/
theorem Schedule.Accepted.recurs (h : s.Accepted) (hfixed : loc.Fixed)
    (hmatch : s.matches loc t = true) (year : Int) :
    ∃ c : Civil, ∃ hour minute, c.Valid ∧ year < c.year ∧ c.year ≤ year + 8 ∧
      (0 ≤ hour ∧ hour ≤ 23) ∧ (0 ≤ minute ∧ minute ≤ 59) ∧
      s.matches loc (date loc c.year c.month c.day hour minute 0 0) = true := by
  obtain ⟨-, -, -, hhourRange, hminuteRange⟩ := loc.fields_range t
  simp only [Schedule.matches, Bool.and_eq_true] at hmatch
  obtain ⟨⟨⟨hmonth, hday⟩, hhour⟩, hminute⟩ := hmatch
  obtain ⟨y, hlow, hhigh, hleap⟩ := exists_leap year
  obtain ⟨c, hc, rfl, hsame, hdayMatch⟩ := h.exists_date hleap hday
  obtain ⟨hcivil, hweekday, hh, hm, -⟩ := loc.fields_date hfixed hc hhourRange hminuteRange
  refine ⟨c, loc.hour t, loc.minute t, hc, hlow, hhigh, hhourRange, hminuteRange, ?_⟩
  rw [Schedule.matches, hdayMatch _ hcivil hweekday, Location.month, hcivil, hh, hm, hsame, hmonth,
    hhour, hminute]
  rfl

/-- Every minute of the eight full years after `after` is searched. -/
theorem searched_of_year (hfixed : loc.Fixed) {c : Civil} (hc : c.Valid)
    (hhour : 0 ≤ hour ∧ hour ≤ 23) (hminute : 0 ≤ minute ∧ minute ≤ 59)
    (hlow : loc.year after < c.year) (hhigh : c.year ≤ loc.year after + 8) :
    searchStart loc after ≤ date loc c.year c.month c.day hour minute 0 0 ∧
      date loc c.year c.month c.day hour minute 0 0 ≤ searchLimit loc after := by
  obtain ⟨hstart, hend⟩ := hc.year_bounds
  have hafter : (loc.civil after).Valid := civil_valid _
  have hafterEnd : dayNumber (loc.year after) (loc.month after) (loc.day after) <
      daysBeforeYear (loc.year after + 1) := hafter.year_bounds.2
  have hafterDay := loc.dayNumber_civil after
  have hfirst : daysBeforeYear (loc.year after + 1) ≤ daysBeforeYear c.year :=
    daysBeforeYear_mono (by omega)
  have hlast : daysBeforeYear (c.year + 1) ≤ daysBeforeYear (loc.year after + nextLimitYears) := by
    refine daysBeforeYear_mono ?_
    unfold nextLimitYears
    omega
  have hlimit := daysBeforeYear_le_limit loc after
  obtain ⟨-, -, -, hhourRange, hminuteRange⟩ := loc.fields_range after
  constructor
  · rw [searchStart_le_iff hfixed (date_wholeMinute hfixed _ _ _ _ _)]
    have hwall : loc.wall after < wallSeconds c.year c.month c.day hour minute 0 := by
      unfold wallSeconds
      omega
    rw [hfixed.wall] at hwall
    simp only [date, hfixed.resolve, unix, nanosecond] at *
    omega
  · have hwall : wallSeconds c.year c.month c.day hour minute 0 ≤
        wallSeconds (loc.year after + nextLimitYears) (loc.month after + 0) (loc.day after + 0)
          (loc.hour after) (loc.minute after) (loc.second after) := by
      have hsecond : 0 ≤ loc.second after := by
        unfold Location.second
        omega
      unfold wallSeconds
      omega
    simp only [searchLimit, Location.addDate, date, hfixed.resolve, nanosecond]
    omega

end

/-- Where the offset never changes, `Next` always returns: the least whole
minute after `after` that the schedule matches, and the zero time exactly when
the schedule never matches. -/
theorem next_exact {expr : String} {s : Schedule} {loc : Location}
    (hparse : parse expr = .ok s) (hfixed : loc.Fixed) (after : Int) :
    (∃ fuel result, s.next loc after fuel = some result) ∧
      ∀ fuel result, s.next loc after fuel = some result →
        (∀ t, result = some t →
          IsLeast {u | after < u ∧ WholeMinute loc u ∧ s.matches loc u = true} t) ∧
        (result = none ↔ ∀ t, s.matches loc t = false) := by
  have haccepted := accepted_of_parse hparse
  have hstart : WholeMinute loc (searchStart loc after) := searchStart_wholeMinute hfixed
  refine ⟨search_returns s loc _ _ fun u next hvisit hpass =>
    (pass_skips hfixed (hvisit.wholeMinute hfixed hstart) hpass).1, ?_⟩
  intro fuel result hresult
  cases result with
  | some r =>
    obtain ⟨hle, hr, hmatch, hfirst⟩ := search_found hfixed fuel hstart hresult
    refine ⟨?_, iff_of_false (by simp) fun hnever => ?_⟩
    · rintro t ⟨rfl⟩
      refine ⟨⟨(searchStart_le_iff hfixed hr).mp hle, hr, hmatch⟩, ?_⟩
      rintro u ⟨hafter, hwhole, hmatch'⟩
      by_contra hlt
      rw [hfirst u ((searchStart_le_iff hfixed hwhole).mpr hafter) (not_le.mp hlt)] at hmatch'
      cases hmatch'
    · rw [hnever r] at hmatch
      cases hmatch
  | none =>
    have hnone := search_gives_up hfixed fuel hstart hresult
    refine ⟨by simp, iff_of_true rfl fun t => ?_⟩
    by_contra hmatch
    obtain ⟨c, hour, minute, hc, hlow, hhigh, hhour, hminute, hagain⟩ :=
      haccepted.recurs hfixed (by simpa using hmatch) (loc.year after)
    obtain ⟨hfrom, hto⟩ := searched_of_year hfixed hc hhour hminute hlow hhigh
    rw [hnone _ hfrom hto] at hagain
    cases hagain

/-- Leap days at midnight: from March 2096 the next one is that of 2104. -/
theorem next_exact_leap_day :
    ∃ s, parse "0 0 29 2 *" = .ok s ∧ utc.Fixed ∧
      ∃ fuel, s.next utc (date utc 2096 3 1 0 0 0 0) fuel =
        some (some (date utc 2104 2 29 0 0 0 0)) ∧
      IsLeast {u | date utc 2096 3 1 0 0 0 0 < u ∧ WholeMinute utc u ∧ s.matches utc u = true}
        (date utc 2104 2 29 0 0 0 0) := by
  have hparse : parse "0 0 29 2 *" =
      .ok ⟨1#64, 1#64, 0x20000000#64, 4#64, 0x7f#64, false, true⟩ := by decide +kernel
  have hnext : Schedule.next ⟨1#64, 1#64, 0x20000000#64, 4#64, 0x7f#64, false, true⟩ utc
      (date utc 2096 3 1 0 0 0 0) 400 = some (some (date utc 2104 2 29 0 0 0 0)) := by
    decide +kernel
  obtain ⟨-, hexact⟩ := next_exact hparse utc_fixed (date utc 2096 3 1 0 0 0 0)
  exact ⟨_, hparse, utc_fixed, 400, hnext, (hexact 400 _ hnext).1 _ rfl⟩

end Gopherd.Cron
