/-
# Notices

What is worth noticing besides a result, as lines with a level.  Operations return them in
the order in which they arise.
-/

namespace Swarm

/-- How much a notice matters. -/
inductive Level
  | debug
  | info
  | warning
  deriving DecidableEq, Repr

/-- A line of the log. -/
structure Notice where
  level : Level
  text : String
  deriving DecidableEq, Repr

end Swarm
