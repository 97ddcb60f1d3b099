import Gopherd.Cron.Skips
import Gopherd.Go.Shifts

/-!
Progress of the cron search in locations whose offset changes: `time.Date` may
read the end of a skipped period as an instant that is not ahead.
-/

namespace Gopherd.Cron

open Go Calendar

section Progress

variable {s : Schedule} {loc : Location} {after limit t : Int}

end Progress

section Traps

variable {s : Schedule} {loc : Location} {shift : Shift} {second target : Int}

end Traps

end Gopherd.Cron
