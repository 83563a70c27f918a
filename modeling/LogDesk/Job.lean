/-! Jobs of the server, as it speaks of them. -/

namespace LogDesk

structure StopOutcome where
  id : String
  cancelled : Bool
  deriving DecidableEq, Inhabited

structure StartedJob where
  id : String
  deriving DecidableEq, Inhabited

structure RunningJob where
  id : String
  deriving DecidableEq, Inhabited

end LogDesk
