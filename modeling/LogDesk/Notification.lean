import LogDesk.Job

/-! What the user is told, and for how long it is shown. -/

namespace LogDesk

/-- A notification is shown for this many milliseconds unless it says otherwise. -/
def defaultTimeout : Nat := 5000

structure Notification where
  title : String
  body : String
  /-- In milliseconds. -/
  timeout : Nat := defaultTimeout
  deriving DecidableEq, Inhabited

namespace Notification

def jobStopped (id : String) : Notification :=
  { title := "Job Stopped", body := "Successfully stopped job with id " ++ id }

def jobNotStopped (id : String) : Notification :=
  { title := "Job Not Stopped", body := "Job " ++ id ++ " was not successfully stopped." }

def noJobs : Notification := { title := "No Active Jobs", body := "No active jobs to stop." }

def ofStopped : List StopOutcome → List Notification
  | [] => [noJobs]
  | jobs => jobs.map fun j => if j.cancelled then jobStopped j.id else jobNotStopped j.id

def jobStarted (id : String) (seconds : Nat) : Notification where
  title := "Job Started"
  body := "Scheduled job with id " ++ id ++ " to run every " ++ toString seconds ++ " seconds."

def requestFailed (status : Nat) (statusText reason : String) : Notification where
  title := toString status
  body := statusText ++ ": " ++ reason

end Notification

end LogDesk
