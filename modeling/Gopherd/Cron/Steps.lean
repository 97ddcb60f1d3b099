import Gopherd.Cron.Fields
import Gopherd.Cron.Next

/-!
A plain star and a star with step one.
-/

namespace Gopherd.Cron

open Go Calendar

def starMask (field : FieldDef) : BitVec 64 :=
  setBits 64 field.min field.max 1 0#64

theorem parseField_star (field : FieldDef) :
    parseField field "*" = .ok (starMask field, true) := rfl

theorem parseField_star_step (field : FieldDef) :
    parseField field "*/1" = .ok (starMask field, false) := rfl

variable {field : FieldDef} {mask : BitVec 64} {s : Schedule}

/-- Both stand for every value. -/
theorem parseField_star_of {star : Bool} (h : parseField field "*" = .ok (mask, star)) :
    parseField field "*/1" = .ok (mask, false) := by
  rw [parseField_star] at h
  cases h
  exact parseField_star_step field

theorem parseField_star_true {star : Bool} (h : parseField field "*" = .ok (mask, star)) :
    star = true := by
  rw [parseField_star] at h
  cases h
  rfl

/-- Only the plain star counts as unrestricted. -/
theorem parseField_unrestricted (h : parseField field text = .ok (mask, true)) :
    mask = starMask field := by
  obtain ⟨mask', -, hpure⟩ := Except.bind_eq_ok.mp h
  have hstar : text = "*" := by
    have heq := (Prod.mk.inj (Except.pure_eq_ok.mp hpure)).2
    simpa using heq
  rw [hstar, parseField_star] at h
  cases h
  rfl

theorem hasBit_starMask (hfield : field ∈ fieldDefs) (hlow : field.min ≤ v)
    (hhigh : v ≤ field.max) : hasBit (starMask field) v = true := by
  obtain ⟨hmin, hle, hmax⟩ := field_bounds hfield
  refine (hasBit_setBits_iff hmin hle hmax le_rfl (by decide) 0#64).mpr (.inr (.inl ?_))
  exact ⟨hlow, hhigh, one_dvd _⟩

theorem hasBit_foldSunday_star (hlow : 0 ≤ v) (hhigh : v ≤ 6) :
    hasBit (foldSunday (starMask dowDef)) v = true := by
  have hdays : ∀ n : Fin 7, hasBit (foldSunday (starMask dowDef)) n.val = true := by decide
  obtain ⟨n, rfl⟩ := Int.eq_ofNat_of_zero_le hlow
  exact hdays ⟨n, by omega⟩

structure Schedule.Accepted (s : Schedule) : Prop where
  minute : ∃ v, 0 ≤ v ∧ v ≤ 59 ∧ hasBit s.minute v = true
  hour : ∃ v, 0 ≤ v ∧ v ≤ 23 ∧ hasBit s.hour v = true
  month : ∃ v, 1 ≤ v ∧ v ≤ 12 ∧ hasBit s.month v = true
  domStar : s.domStar = true → ∀ v, 1 ≤ v → v ≤ 31 → hasBit s.dom v = true
  dowStar : s.dowStar = true → ∀ v, 0 ≤ v → v ≤ 6 → hasBit s.dow v = true

theorem accepted_of_parse (h : parse expr = .ok s) : s.Accepted := by
  obtain ⟨minute, hour, dom, month, dow, -, ⟨_, hminute⟩, ⟨_, hhour⟩, hdom, ⟨_, hmonth⟩, mask,
    hdow, hsunday⟩ := parse_eq_ok.mp h
  refine ⟨parseField_nonempty (by simp [fieldDefs]) hminute,
    parseField_nonempty (by simp [fieldDefs]) hhour,
    parseField_nonempty (by simp [fieldDefs]) hmonth, ?_, ?_⟩
  · intro hstar v hlow hhigh
    rw [hstar] at hdom
    rw [parseField_unrestricted hdom]
    exact hasBit_starMask (by simp [fieldDefs]) hlow hhigh
  · intro hstar v hlow hhigh
    rw [hstar] at hdow
    rw [hsunday, parseField_unrestricted hdow]
    exact hasBit_foldSunday_star hlow hhigh

namespace Schedule.Accepted

variable {s : Schedule}

/-- On every date of its months the schedule has a minute, up to the day rule. -/
theorem exists_minute (h : s.Accepted) (loc : Location) (hfixed : loc.Fixed) (hc : c.Valid)
    (hmonth : hasBit s.month c.month = true) :
    ∃ t, loc.civil t = c ∧ loc.weekday t = weekday (dayNumber c.year c.month c.day) ∧
      ∀ s' : Schedule, s'.month = s.month → s'.hour = s.hour → s'.minute = s.minute →
        s'.matches loc t = s'.dayMatches loc t := by
  obtain ⟨minute, hminute, hminute', hminuteBit⟩ := h.minute
  obtain ⟨hour, hhour, hhour', hhourBit⟩ := h.hour
  obtain ⟨hcivil, hweekday, hh, hm, -⟩ :=
    loc.fields_date hfixed hc ⟨hhour, hhour'⟩ ⟨hminute, hminute'⟩
  refine ⟨_, hcivil, hweekday, ?_⟩
  intro s' hsame hsame' hsame''
  unfold Schedule.matches Location.month
  rw [hcivil, hh, hm, hsame, hsame', hsame'', hmonth, hhourBit, hminuteBit]
  simp

end Schedule.Accepted

/-- The day field other than the one at `index` rules out no day of the months
of the schedule. -/
def OtherDayFree (s : Schedule) : Nat → Prop
  | 2 => ∀ day, 0 ≤ day → day ≤ 6 → hasBit s.dow day = true
  | 4 => ∀ c : Civil, c.Valid → hasBit s.month c.month = true → hasBit s.dom c.day = true
  | _ => True

/-- Every weekday occurs in the first week of a month. -/
theorem exists_weekday (year : Int) (hlow : 1 ≤ month) (hhigh : month ≤ 12) (hday : 0 ≤ day)
    (hday' : day ≤ 6) :
    ∃ c : Civil, c.Valid ∧ c.year = year ∧ c.month = month ∧
      weekday (dayNumber c.year c.month c.day) = day := by
  have hlength : ∀ leap : Bool, ∀ month : Fin 12, 7 ≤ monthLength leap (month.val + 1) := by
    decide
  have hweek := hlength (isLeap year) ⟨(month - 1).toNat, by omega⟩
  have hmonth : (((month - 1).toNat : Nat) : Int) + 1 = month := by omega
  simp only [hmonth] at hweek
  obtain ⟨offset, hoffset⟩ : ∃ offset, offset = (day - (dayNumber year month 1 + 1)) % 7 :=
    ⟨_, rfl⟩
  refine ⟨⟨year, month, 1 + offset⟩, ⟨hlow, hhigh, by simp only; omega, by simp only; omega⟩,
    rfl, rfl, ?_⟩
  simp only [weekday, dayNumber_add_day]
  omega

theorem matches_of_dayMatches {s' : Schedule} (hmonth : s'.month = s.month)
    (hhour : s'.hour = s.hour) (hminute : s'.minute = s.minute)
    (hday : s'.dayMatches loc t = s.dayMatches loc t) : s'.matches loc t = s.matches loc t := by
  simp only [Schedule.matches, hmonth, hhour, hminute, hday]

/-- An unrestricted day of the month becomes a restricted one. -/
theorem dom_restricted_iff (h : s.Accepted) (hstar : s.domStar = true) :
    (∀ loc t, ({ s with domStar := false } : Schedule).matches loc t = s.matches loc t) ↔
      OtherDayFree s 2 := by
  constructor
  · intro hsame day hday hday'
    cases hdow : s.dowStar with
    | true => exact h.dowStar hdow day hday hday'
    | false =>
      -- the day is ruled out by the weekday alone, or by neither field
      obtain ⟨month, hlow, hhigh, hmonth⟩ := h.month
      obtain ⟨c, hc, -, rfl, hweekday⟩ := exists_weekday 1970 hlow hhigh hday hday'
      obtain ⟨t, hcivil, hwd, hmatch⟩ := h.exists_minute utc utc_fixed hc hmonth
      have hboth := (hmatch { s with domStar := false } rfl rfl rfl).symm.trans
        ((hsame utc t).trans (hmatch s rfl rfl rfl))
      have hdom := h.domStar hstar c.day hc.day_pos hc.day_le_max
      simpa [Schedule.dayMatches, hdow, hstar, hwd, hweekday, Location.day, hcivil, hdom]
        using hboth
  · intro hfree loc t
    obtain ⟨-, hday, hweekday, -⟩ := loc.fields_range t
    have hdow := hfree (loc.weekday t) hweekday.1 hweekday.2
    have hdom := h.domStar hstar (loc.day t) hday.1 hday.2
    refine matches_of_dayMatches rfl rfl rfl ?_
    simp [Schedule.dayMatches, hdow, hdom]

/-- An unrestricted day of the week becomes a restricted one. -/
theorem dow_restricted_iff (h : s.Accepted) (hstar : s.dowStar = true) :
    (∀ loc t, ({ s with dowStar := false } : Schedule).matches loc t = s.matches loc t) ↔
      OtherDayFree s 4 := by
  constructor
  · intro hsame c hc hmonth
    cases hdom : s.domStar with
    | true => exact h.domStar hdom c.day hc.day_pos hc.day_le_max
    | false =>
      obtain ⟨t, hcivil, -, hmatch⟩ := h.exists_minute utc utc_fixed hc hmonth
      have hboth := (hmatch { s with dowStar := false } rfl rfl rfl).symm.trans
        ((hsame utc t).trans (hmatch s rfl rfl rfl))
      obtain ⟨-, -, hweekday, -⟩ := utc.fields_range t
      have hdow := h.dowStar hstar (utc.weekday t) hweekday.1 hweekday.2
      simpa [Schedule.dayMatches, hdom, hstar, Location.day, hcivil, hdow] using hboth
  · intro hfree loc t
    obtain ⟨-, -, hweekday, -⟩ := loc.fields_range t
    have hdow := h.dowStar hstar (loc.weekday t) hweekday.1 hweekday.2
    cases hmonth : hasBit s.month (loc.month t) with
    | false => simp [Schedule.matches, hmonth]
    | true =>
      have hdom : hasBit s.dom (loc.day t) = true := hfree _ (civil_valid _) hmonth
      refine matches_of_dayMatches rfl rfl rfl ?_
      simp [Schedule.dayMatches, hdow, hdom]

section

variable {expr expr' : String} {s : Schedule}

/-- The plain star at `index` of an accepted expression is given the step 1. The
new expression is accepted, and it matches the same minutes if and only if the
other day field rules out no day; for the fields that are not day fields it
always does. -/
theorem step_of_one_iff {index : Nat} (hparse : parse expr = .ok s)
    (hstar : (fields expr)[index]? = some "*")
    (hfields : fields expr' = (fields expr).set index "*/1") :
    ∃ s', parse expr' = .ok s' ∧
      ((∀ loc t, s'.matches loc t = s.matches loc t) ↔ OtherDayFree s index) := by
  have haccepted := accepted_of_parse hparse
  obtain ⟨minute, hour, dom, month, dow, htexts, ⟨minuteStar, hminute⟩, ⟨hourStar, hhour⟩, hdom,
    ⟨monthStar, hmonth⟩, mask, hdow, hsunday⟩ := parse_eq_ok.mp hparse
  rw [htexts] at hstar hfields
  have hindex : index = 0 ∨ index = 1 ∨ index = 2 ∨ index = 3 ∨ index = 4 := by
    obtain ⟨hlt, -⟩ := List.getElem?_eq_some_iff.mp hstar
    simp only [List.length_cons, List.length_nil] at hlt
    omega
  rcases hindex with rfl | rfl | rfl | rfl | rfl <;> cases hstar
  · refine ⟨s, parse_eq_ok.mpr ⟨_, _, _, _, _, hfields, ⟨false, ?_⟩, ⟨_, hhour⟩, hdom,
      ⟨_, hmonth⟩, mask, hdow, hsunday⟩, by simp [OtherDayFree]⟩
    exact parseField_star_of hminute
  · refine ⟨s, parse_eq_ok.mpr ⟨_, _, _, _, _, hfields, ⟨_, hminute⟩, ⟨false, ?_⟩, hdom,
      ⟨_, hmonth⟩, mask, hdow, hsunday⟩, by simp [OtherDayFree]⟩
    exact parseField_star_of hhour
  · refine ⟨{ s with domStar := false }, parse_eq_ok.mpr ⟨_, _, _, _, _, hfields,
      ⟨_, hminute⟩, ⟨_, hhour⟩, parseField_star_of hdom, ⟨_, hmonth⟩, mask, hdow, hsunday⟩, ?_⟩
    exact dom_restricted_iff haccepted (parseField_star_true hdom)
  · refine ⟨s, parse_eq_ok.mpr ⟨_, _, _, _, _, hfields, ⟨_, hminute⟩, ⟨_, hhour⟩, hdom,
      ⟨false, ?_⟩, mask, hdow, hsunday⟩, by simp [OtherDayFree]⟩
    exact parseField_star_of hmonth
  · refine ⟨{ s with dowStar := false }, parse_eq_ok.mpr ⟨_, _, _, _, _, hfields,
      ⟨_, hminute⟩, ⟨_, hhour⟩, hdom, ⟨_, hmonth⟩, mask, parseField_star_of hdow, hsunday⟩, ?_⟩
    exact dow_restricted_iff haccepted (parseField_star_true hdow)

end

/-- Mondays at midnight become every midnight. -/
theorem mondays_become_daily :
    ∃ s s', parse "0 0 * * 1" = .ok s ∧ parse "0 0 */1 * 1" = .ok s' ∧
      ∃ loc t, s'.matches loc t = true ∧ s.matches loc t = false := by
  refine ⟨⟨1#64, 1#64, 0xfffffffe#64, 0x1ffe#64, 2#64, true, false⟩,
    ⟨1#64, 1#64, 0xfffffffe#64, 0x1ffe#64, 2#64, false, false⟩, by decide +kernel,
    by decide +kernel, utc, 0, by decide +kernel, by decide +kernel⟩

/-- In February every day has a number that the field `1-29` matches, so a
restricted day of the week rules out nothing. -/
theorem step_of_one_february :
    ∃ s s', parse "0 0 1-29 2 *" = .ok s ∧ parse "0 0 1-29 2 */1" = .ok s' ∧
      ∀ loc t, s'.matches loc t = s.matches loc t := by
  have hparse : parse "0 0 1-29 2 *" =
      .ok ⟨1#64, 1#64, 0x3ffffffe#64, 4#64, 0x7f#64, false, true⟩ := by decide +kernel
  have hstar : (fields "0 0 1-29 2 *")[4]? = some "*" := by decide
  have hfields : fields "0 0 1-29 2 */1" = (fields "0 0 1-29 2 *").set 4 "*/1" := by decide
  obtain ⟨s', hparse', hiff⟩ := step_of_one_iff hparse hstar hfields
  refine ⟨_, s', hparse, hparse', hiff.mpr ?_⟩
  intro c hc hmonth
  have hlengths : ∀ month : Fin 13, hasBit 4#64 month.val = true →
      ∀ leap, monthLength leap month.val ≤ 29 := by decide
  have hdays : ∀ day : Fin 30, 1 ≤ day.val → hasBit 0x3ffffffe#64 day.val = true := by decide
  obtain ⟨month, hmonthNat⟩ := Int.eq_ofNat_of_zero_le (by have := hc.month_pos; omega :
    0 ≤ c.month)
  obtain ⟨day, hdayNat⟩ := Int.eq_ofNat_of_zero_le (by have := hc.day_pos; omega : 0 ≤ c.day)
  obtain ⟨-, hmonthLe, hdayPos, hdayLe⟩ := hc
  rw [hmonthNat] at hmonth hdayLe hmonthLe
  rw [hdayNat] at hdayPos hdayLe ⊢
  have hlength := hlengths ⟨month, by omega⟩ hmonth (isLeap c.year)
  exact hdays ⟨day, by simp only at hlength; omega⟩ (by simp only; omega)

end Gopherd.Cron
