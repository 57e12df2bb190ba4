-- What can be watched of an evaluation: its events, and the log record that each makes.
import Reckoner.Evaluation.Operation

namespace Reckoner

/-! ## Events -/

inductive Event
  /-- An input came in, before anything about it is known but its length. -/
  | received (length : Nat)
  /-- Both operands were read and are within their bound. -/
  | accepted (operation : Operation)
  | completed (value : Amount)
  | rejected (rejection : Rejection)
  deriving DecidableEq

/-! ## Levels and records -/

inductive Level
  | error
  | warn
  | info
  | debug
  | trace
  deriving DecidableEq, Repr

namespace Level

/-- The level counted from the one that matters most. -/
def rank : Level → Nat
  | error => 0
  | warn => 1
  | info => 2
  | debug => 3
  | trace => 4

def name : Level → String
  | error => "ERROR"
  | warn => "WARN"
  | info => "INFO"
  | debug => "DEBUG"
  | trace => "TRACE"

end Level

structure Record where
  level : Level
  message : String
  fields : List (String × String) := []
  deriving DecidableEq, Repr

/-- The record on one line. -/
def Record.line (r : Record) : String :=
  " ".intercalate ([r.level.name, r.message] ++ r.fields.map fun f => f.1 ++ "=" ++ f.2)

/-- The records that a log of the given level keeps. -/
def Level.keep (level : Level) (records : List Record) : List Record :=
  records.filter fun r => r.level.rank ≤ level.rank

/-! ## Records of events -/

/-- A fault of the input is ordinary; one of the evaluation itself is an error. -/
def Event.record : Event → Record
  | .received length =>
    { level := .trace
      message := s!"evaluator event: Received \x7b length: {length} \x7d" }
  | .accepted o =>
    { level := .trace
      message :=
        s!"evaluator event: OperandsAccepted \x7b left: {o.left.describe}, " ++
          s!"operator: {o.operator.name}, right: {o.right.describe} \x7d" }
  | .completed value =>
    { level := .trace
      message := "evaluation completed"
      fields := [("value", value.normalized)] }
  | .rejected r =>
    { level := if r.fault.isInternal then .error else .debug
      message :=
        if r.fault.isInternal then "evaluation hit an internal error"
        else "evaluation rejected"
      fields := [("stage", r.stage.name), ("error", r.fault.message)] }

end Reckoner
