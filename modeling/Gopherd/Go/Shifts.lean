import Gopherd.Go.Time

/-!
The offset changes of a location, one by one. Where offsets stay below a day
and changes lie days apart, at most one change bears on a wall clock, and what
`time.Date` makes of it can be read off that change.
-/

namespace Gopherd.Go

structure Shift where
  second : Int
  before : Int
  after : Int
  deriving DecidableEq

def Location.offset (loc : Location) (second : Int) : Int :=
  (loc.lookup second).offset

section Distance

variable {offset distance : Int} {start : Option Int} {changes : List (Int × Int)}

end Distance

/-- The wall clock that shows near the change. -/
def Shift.clock (shift : Shift) (second : Int) : Int :=
  second + if second < shift.second then shift.before else shift.after

namespace Location.Spaced

variable {loc : Location}

end Location.Spaced

namespace Location.Settled

variable {loc : Location}

end Location.Settled

end Gopherd.Go
