/-
# Spans of time

A duration is a number of seconds of 64 bits and the nanoseconds that are left over.
-/

namespace Swarm

/-- How many nanoseconds make a second. -/
abbrev nanosPerSecond : Nat := 1000000000

/-- A span of time. -/
structure Duration where
  seconds : UInt64
  /-- What is left over, which is less than a second. -/
  nanos : Fin nanosPerSecond
  deriving DecidableEq, Repr

namespace Duration

/-- A number of seconds. -/
def ofSeconds (n : UInt64) : Duration := ⟨n, ⟨0, by decide⟩⟩

/-- A number of milliseconds. -/
def ofMilliseconds (n : UInt64) : Duration :=
  ⟨n / 1000, ⟨1000000 * (n.toNat % 1000), by unfold nanosPerSecond; omega⟩⟩

/-- The sum of two durations, if there is a duration that long. -/
def add? (d e : Duration) : Option Duration :=
  let nanos := d.nanos.val + e.nanos.val
  let seconds := d.seconds.toNat + e.seconds.toNat + nanos / nanosPerSecond
  if seconds < UInt64.size then
    some ⟨UInt64.ofNat seconds, ⟨nanos % nanosPerSecond, Nat.mod_lt _ (by decide)⟩⟩
  else none

end Duration
end Swarm
