namespace TypeResolution

/-- How far a result can be relied on. -/
inductive PassStatus where
  /-- Nothing is missing. -/
  | complete
  /-- Something that the result depends on is not there yet. -/
  | incomplete
  /-- The analysis has to be done again in a later pass. -/
  | deferred
deriving DecidableEq

namespace PassStatus

/-- The status of two results together: the less reliable one. -/
def merge : PassStatus → PassStatus → PassStatus
  | deferred, _ | _, deferred => deferred
  | incomplete, _ | _, incomplete => incomplete
  | complete, complete => complete

def isComplete (s : PassStatus) : Bool := s == complete

def isDeferred (s : PassStatus) : Bool := s == deferred

theorem merge_comm (a b : PassStatus) : a.merge b = b.merge a := by cases a <;> cases b <;> rfl

theorem merge_assoc (a b c : PassStatus) : (a.merge b).merge c = a.merge (b.merge c) := by
  cases a <;> cases b <;> cases c <;> rfl

end PassStatus

end TypeResolution
