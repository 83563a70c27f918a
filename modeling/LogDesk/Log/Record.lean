/-! A record of the server's log. -/

namespace LogDesk

structure Record where
  timestamp : String := ""
  level : String := ""
  loggerName : String := ""
  threadName : String := ""
  message : String := ""
  stackTrace : Option String := none
  deriving DecidableEq, Inhabited

/-- The stack trace, where there is one that is not empty. -/
def Record.trace? (r : Record) : Option String := r.stackTrace.filter (· ≠ "")

end LogDesk
