import Perdure.Table
import Perdure.Time.Instant

/-!
# Due timers

Armed timers are a table of deadlines.  They go off in the order of their deadlines, and of their
keys where deadlines are equal.
-/

namespace Perdure

namespace Table

variable {κ : Type} [Ord κ]

/-- The earlier of two timers; of equal deadlines, the first. -/
def earlier (a b : κ × Instant) : κ × Instant := if a.2.isAtMost b.2 then a else b

/-- The timer that goes off first, if one is due by the given instant. -/
def due? (armed : Table κ Instant) (upTo : Instant) : Option (κ × Instant) :=
  match armed.entries.filter (·.2.isAtMost upTo) with
  | [] => none
  | first :: rest => some (rest.foldl earlier first)

end Table

end Perdure
