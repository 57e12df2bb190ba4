-- The program as a whole: what the words of its command line ask for, what it prints and
-- logs, and what it ends with.
import Reckoner.Prompt

namespace Reckoner

/-! ## The command line -/

structure CommandLine where
  expression : List String
  verbose : Bool
  deriving DecidableEq, Repr

/-- Why a command line is not run. -/
inductive UsageFault
  | help
  | repeatedFlag
  | attachedValue
  deriving DecidableEq, Repr

namespace CommandLine

inductive Flag
  | verbose
  | help
  deriving DecidableEq, Repr

namespace Flag

def ofLetter? : Char → Option Flag
  | 'v' => some verbose
  | 'h' => some help
  | _ => none

def ofName? (name : List Char) : Option Flag :=
  if name = "verbose".toList then some verbose
  else if name = "help".toList then some help
  else none

end Flag

/-- What one word in front of the expression is. -/
inductive Word
  | separator
  | flags (flags : List Flag)
  | flagWithValue
  | operand
  deriving DecidableEq, Repr

/-- Two minuses start the name of a flag and one starts letters of flags. A word with a
name or a letter that no flag has belongs to the expression. -/
def Word.ofChars : List Char → Word
  | ['-', '-'] => separator
  | '-' :: '-' :: body =>
    match Flag.ofName? (body.takeWhile (· != '=')) with
    | some flag => if '=' ∈ body then flagWithValue else flags [flag]
    | none => operand
  | ['-'] => operand
  | '-' :: letters =>
    match letters.mapM Flag.ofLetter? with
    | some fs => flags fs
    | none => operand
  | _ => operand

/-- Takes note of some flags, in order, where `verbose` says what stood before. -/
def note (verbose : Bool) : List Flag → Except UsageFault Bool
  | [] => .ok verbose
  | .help :: _ => .error .help
  | .verbose :: rest => if verbose then .error .repeatedFlag else note true rest

def ofWordsFrom (verbose : Bool) : List String → Except UsageFault CommandLine
  | [] => .ok ⟨[], verbose⟩
  | word :: rest =>
    match Word.ofChars word.toList with
    | .separator => .ok ⟨rest, verbose⟩
    | .flags fs =>
      match note verbose fs with
      | .ok verbose => ofWordsFrom verbose rest
      | .error fault => .error fault
    | .flagWithValue => .error .attachedValue
    | .operand => .ok ⟨word :: rest, verbose⟩

def ofWords (words : List String) : Except UsageFault CommandLine := ofWordsFrom false words

/-- The least that a record has to matter to be kept, unless the environment says else. -/
def level (line : CommandLine) : Level := if line.verbose then .debug else .warn

def help : String :=
  "Evaluate one bounded decimal expression, or start an interactive prompt\n\n" ++
    "Usage: bounded-calc [OPTIONS] [EXPRESSION]...\n\n" ++
    "Arguments:\n" ++
    "  [EXPRESSION]...  Expression words, joined with single spaces (e.g. `12.5 * 3`). " ++
    "Without any, an interactive prompt starts\n\n" ++
    "Options:\n" ++
    "  -v, --verbose  Enable verbose logging on stderr\n" ++
    "  -h, --help     Print help\n"

end CommandLine

/-! ## Runs -/

/-- What a run prints, and the code that it ends with. -/
structure Printed where
  output : String
  exitCode : Nat
  deriving DecidableEq, Repr

namespace Program

def joinWords (words : List String) : String := " ".intercalate words

def shown (e : Evaluator) (outcome : Outcome) : Printed :=
  ⟨outcome.render e.settings.separators ++ "\n", outcome.exitCode⟩

/-- Evaluates the words of one expression. -/
def oneShot (e : Evaluator) (words : List String) : Printed :=
  shown e (e.evaluate (joinWords words))

/-- A refused command line prints nothing here: its message goes elsewhere. -/
def refused : UsageFault → Printed
  | .help => ⟨CommandLine.help, 0⟩
  | .repeatedFlag | .attachedValue => ⟨"", 2⟩

def starting : Record := { level := .info, message := "Starting bounded-calc" }

def startingPrompt : Record :=
  { level := .debug, message := "no expression given, starting interactive prompt" }

/-- What the words lead to, with the records that are made before any input is read. -/
inductive Plan
  | settled (level : Level) (records : List Record) (printed : Printed)
  | prompt (level : Level) (records : List Record)

/-- Without an expression the prompt starts. A refused command line has no log yet. -/
def plan (e : Evaluator) (words : List String) : Plan :=
  match CommandLine.ofWords words with
  | .error fault => .settled .warn [] (refused fault)
  | .ok line =>
    if line.expression = [] then
      .prompt line.level [starting, startingPrompt]
    else
      .settled line.level (starting :: (e.run (joinWords line.expression)).records)
        (oneShot e line.expression)

/-- A whole run under the standard settings. -/
def run (words : List String) (input : List UInt8) : Printed :=
  match plan Evaluator.standard words with
  | .settled _ _ printed => printed
  | .prompt _ _ => ⟨Prompt.output Evaluator.standard input, 0⟩

/-- What the log of a whole run keeps. -/
def log (words : List String) (input : List UInt8) : List Record :=
  match plan Evaluator.standard words with
  | .settled level records _ => level.keep records
  | .prompt level records =>
    level.keep (records ++ Prompt.records Evaluator.standard input)

end Program

end Reckoner
