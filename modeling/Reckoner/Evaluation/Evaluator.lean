-- The evaluator: an input goes through the stages in order, and the first stage that
-- finds a fault ends it.
import Reckoner.Evaluation.Event

namespace Reckoner

/-! ## From texts to expressions -/

namespace Expression

def part (parts : List String) (i : Nat) : Except EvaluationFault String :=
  match parts[i]? with
  | some text => .ok text
  | none => .error (.internal s!"capture group {i + 1} missing")

/-- The expression of the texts that an input was cut into. The texts alone do not say
that there are three, nor that the middle one is a symbol. -/
def ofParts (parts : List String) : Except EvaluationFault Expression := do
  let left ← part parts 0
  let symbol ← part parts 1
  let right ← part parts 2
  match symbol.toList.head?.bind Operator.ofSymbol? with
  | some operator => return ⟨left, operator, right⟩
  | none => .error (.internal s!"unsupported operator \"{symbol}\"")

theorem ofParts_parts (e : Expression) : ofParts e.parts = .ok e := by
  have hsymbol : (String.singleton e.operator.symbol).toList.head?.bind Operator.ofSymbol? =
      some e.operator := by
    rw [String.toList_singleton]
    exact Operator.ofSymbol?_symbol e.operator
  unfold ofParts parts
  change (match (String.singleton e.operator.symbol).toList.head?.bind Operator.ofSymbol? with
    | some operator => _
    | none => _) = _
  rw [hsymbol]
  rfl

end Expression

/-! ## The stages -/

namespace Settings

/-- Where there is no expression, a grouping character is named as the likely reason. -/
def parse (settings : Settings) (input : String) : Except EvaluationFault Expression :=
  if settings.maxLength < input.length then
    .error (.inputTooLong settings.maxLength)
  else
    match Expression.parts? settings.separators.point input with
    | some parts => Expression.ofParts parts
    | none =>
      if settings.separators.grouping ∈ input.toList then
        .error (.operand (.groupingSeparator settings.separators.point))
      else
        .error (.malformed settings.separators.point)

def parseStage : EvaluationFault → Stage
  | .inputTooLong _ => .length
  | _ => .shape

/-- The operation of an expression. A text that is no operand is named before one that is
only too large, and the left one before the right one. -/
def operands (settings : Settings) (e : Expression) : Except Rejection Operation :=
  match Operand.ofText settings e.left, Operand.ofText settings e.right with
  | .ok left, .ok right => .ok ⟨left, e.operator, right⟩
  | .error .tooLarge, .error .tooLarge | .error .tooLarge, .ok _ | .ok _, .error .tooLarge =>
    .error ⟨.operandRange, .operandOutOfRange settings.operandBound⟩
  | .error .tooLarge, .error fault | .ok _, .error fault | .error fault, _ =>
    .error ⟨.operand, .operand fault⟩

def resultStage : EvaluationFault → Stage
  | .resultOutOfRange _ => .resultRange
  | _ => .rounding

/-- The operation of an input, with both operands within their bound. -/
def accept (settings : Settings) (input : String) : Except Rejection Operation := do
  let expression ← (settings.parse input).mapError fun fault => ⟨parseStage fault, fault⟩
  let operation ← settings.operands expression
  (operation.checkRange settings).mapError fun fault => ⟨.operandRange, fault⟩
  return operation

def finish (settings : Settings) (operation : Operation) : Except Rejection Amount := do
  let exact ← operation.apply.mapError fun fault => ⟨.arithmetic, fault⟩
  (exact.toAmount settings).mapError fun fault => ⟨resultStage fault, fault⟩

end Settings

/-! ## Whole runs -/

/-- What one evaluation did and what came of it. -/
structure Run where
  events : List Event
  outcome : Outcome
  deriving DecidableEq

def Run.records (r : Run) : List Record := r.events.map Event.record

/-- Settings without a fault, ready to evaluate under. -/
structure Evaluator where
  settings : Settings
  valid : settings.Valid

namespace Evaluator

def ofSettings (settings : Settings) : Except SettingsFault Evaluator :=
  match h : settings.check with
  | .ok () => .ok ⟨settings, h⟩
  | .error fault => .error fault

def standard : Evaluator := ⟨{}, Settings.valid_standard⟩

/-- Takes one input through all stages. -/
def run (e : Evaluator) (input : String) : Run :=
  let received := Event.received input.length
  match e.settings.accept input with
  | .error rejection => ⟨[received, .rejected rejection], .failure rejection.fault⟩
  | .ok operation =>
    match e.settings.finish operation with
    | .ok value => ⟨[received, .accepted operation, .completed value], .success value⟩
    | .error rejection =>
      ⟨[received, .accepted operation, .rejected rejection], .failure rejection.fault⟩

def evaluate (e : Evaluator) (input : String) : Outcome := (e.run input).outcome

end Evaluator

/-- The outcome of one input under the standard settings. -/
def evaluate (input : String) : Outcome := Evaluator.standard.evaluate input

end Reckoner
