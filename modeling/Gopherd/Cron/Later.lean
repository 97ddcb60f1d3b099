import Gopherd.Cron.Steps
import Gopherd.Cron.Zones

/-!
Whether what `Next` returns lies after `after`.
-/

namespace Gopherd.Cron

open Go Calendar

section Search

variable {s : Schedule} {loc : Location} {after limit second t u : Int}

theorem Visits.le (hvisit : Visits s loc limit t u) : u ≤ limit := by
  cases hvisit with
  | start hle => exact hle
  | pass _ _ hle => exact hle

/-- A visited instant that matches is returned. -/
theorem Visits.returned (hvisit : Visits s loc limit t u)
    (hmatch : s.matchesClock (loc.wall u) = true) :
    ∃ fuel, s.search loc limit fuel t = some (some u) := by
  have hsearch (v : Int) (hv : Visits s loc limit t v) (fuel : Nat) (result : Option Int)
      (hresult : s.search loc limit fuel v = some result) :
      ∃ fuel', s.search loc limit fuel' t = some result := by
    induction hv generalizing fuel with
    | start _ => exact ⟨fuel, hresult⟩
    | pass hw hpass _ ih =>
        exact ih (fuel + 1) (by simpa [Schedule.search, not_lt.mpr hw.le, hpass] using hresult)
  exact hsearch u hvisit 1 (some u)
    (by simp [Schedule.search, not_lt.mpr hvisit.le, pass_eq_none_iff.mpr hmatch])

end Search

section Hourly

variable {s : Schedule} {loc : Location} {shift : Shift} {after : Int}

end Hourly

end Gopherd.Cron
