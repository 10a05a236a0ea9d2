/-!
# Durations

Times and spans of time are whole nanoseconds. A `Time` counts from the moment the
engine was set up.
-/

namespace Querier

/-- A span of time in nanoseconds. -/
abbrev Duration := Nat

/-- A moment, in nanoseconds since the engine was set up. -/
abbrev Time := Nat

namespace Duration

/-- A span of milliseconds. -/
def ofMillis (ms : Nat) : Duration := ms * 1000000

/-- The whole milliseconds of a span. -/
def toMillis (d : Duration) : Nat := d / 1000000

/-- The whole microseconds of a span. -/
def toMicros (d : Duration) : Nat := d / 1000

end Duration

end Querier
