/-!
# Events

What is reported while sets are read, completed and renamed. An event is part of
the answer of the function that it comes from, so its order and number can be
spoken of like any other result.
-/

namespace Openness

/-- How grave an event is. -/
inductive Severity where
  | debug
  | warning
  deriving DecidableEq, Repr

/-- How a severity is written in a log. -/
def Severity.label : Severity → String
  | debug => "DEBUG"
  | warning => "WARN"

/-- Something to report. -/
inductive Event where
  /-- A line was skipped for a reason. -/
  | skippedLine (line : Nat) (reason : String)
  /-- A class has inherited so many entries from its parents. -/
  | completedClass (name : String) (inherited : Nat)
  /-- So many classes were renamed out of all of them. -/
  | remapped (classes renamed : Nat)
  deriving DecidableEq, Repr

namespace Event

/-- Only what is lost from an input is a warning. -/
def severity : Event → Severity
  | skippedLine .. => .warning
  | completedClass .. => .debug
  | remapped .. => .debug

/-- What is said in a log. -/
def message : Event → String
  | skippedLine .. => "skipping malformed access transform line"
  | completedClass .. => "completed access transforms"
  | remapped .. => "remapped access transforms"

end Event

end Openness
