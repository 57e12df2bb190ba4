-- The prompt: a loop that shows its sign, reads one line and answers it, until a line
-- asks to leave or the input ends. A line that is not text is passed over.
import Reckoner.Evaluation.Evaluator

namespace Reckoner

/-! ## Lines of bytes -/

namespace Lines

/-- The byte that ends a line. -/
def newline : UInt8 := 0x0A

/-- Takes one line off the front: all up to a newline and the newline itself, or all there is. -/
def split : List UInt8 → List UInt8 × List UInt8
  | [] => ([], [])
  | b :: bytes =>
    if b = newline then
      ([b], bytes)
    else
      let (line, rest) := split bytes
      (b :: line, rest)

theorem split_append (bytes : List UInt8) : (split bytes).1 ++ (split bytes).2 = bytes := by
  induction bytes with
  | nil => rfl
  | cons b bytes ih =>
    unfold split
    split
    · rfl
    · simp [ih]

/-- Each line that is read leaves fewer bytes. -/
theorem length_split_lt {bytes : List UInt8} (h : (split bytes).1 ≠ []) :
    (split bytes).2.length < bytes.length := by
  have hpos := List.length_pos_iff.mpr h
  have hlength := congrArg List.length (split_append bytes)
  rw [List.length_append] at hlength
  omega

end Lines

/-- The text of a line, if its bytes are UTF-8. -/
def decodeLine (bytes : List UInt8) : Option String := String.fromUTF8? bytes.toByteArray

namespace Prompt

/-! ## Texts -/

def banner : String :=
  "bounded-calc: evaluates <number> <operator> <number> with + - * /\n" ++
    "Operands within [-1,000,000, 1,000,000], up to 4 digits after `.`.\n" ++
    "Press Enter on an empty line, or type `exit` / `quit`, to leave."

def sign : String := "> "

def unreadable : String := "Error: input line is not valid UTF-8."

/-! ## One line -/

/-- What the prompt does about one line. -/
inductive Reply
  | skip
  | leave (command : String)
  | answer (run : Run)
  deriving DecidableEq

/-- A line without blanks at its ends that asks to leave: an empty one, or one of the two
words for it in small or large letters. -/
def isLeaving (cs : List Char) : Bool :=
  cs.isEmpty || cs.map Char.toLower == "exit".toList || cs.map Char.toLower == "quit".toList

def replyToText (e : Evaluator) (text : String) : Reply :=
  let line := trimBlanks text.toList
  if isLeaving line then .leave (String.ofList line) else .answer (e.run (String.ofList line))

def reply (e : Evaluator) (bytes : List UInt8) : Reply :=
  match decodeLine bytes with
  | none => .skip
  | some text => replyToText e text

namespace Reply

/-- The line that is printed, if the prompt stays. -/
def response? (separators : Separators) : Reply → Option String
  | skip => some unreadable
  | leave _ => none
  | answer run => some (run.outcome.render separators)

def isLeave : Reply → Bool
  | leave _ => true
  | _ => false

def records : Reply → List Record
  | skip =>
    [{ level := .debug
       message := "skipping unreadable line"
       fields := [("err", "stream did not contain valid UTF-8")] }]
  | leave command =>
    [{ level := .debug, message := "leaving prompt", fields := [("command", command)] }]
  | answer run => run.records

end Reply

/-! ## The loop -/

/-- The record of an input that ends before a line asks to leave. -/
def endOfInput : Record := { level := .debug, message := "end of input, leaving prompt" }

/-- What one turn of the loop logs and then prints, and whether another one follows. -/
structure Turn where
  records : List Record
  printed : String
  goesOn : Bool
  deriving DecidableEq

/-- The turn that reads the given bytes. No bytes are read where the input has ended. -/
def turn (e : Evaluator) (line : List UInt8) : Turn :=
  if line = [] then
    ⟨[endOfInput], "", false⟩
  else
    match (reply e line).response? e.settings.separators with
    | some response => ⟨(reply e line).records, response ++ "\n", true⟩
    | none => ⟨(reply e line).records, "", false⟩

theorem ne_nil_of_goesOn {e : Evaluator} {line : List UInt8} (h : (turn e line).goesOn = true) :
    line ≠ [] := by
  rintro rfl
  cases h

/-- What a session prints and logs. -/
structure Transcript where
  output : String
  records : List Record

/-- The loop over the bytes that are still to be read. -/
def converse (e : Evaluator) (bytes : List UInt8) : Transcript :=
  let t := turn e (Lines.split bytes).1
  if t.goesOn then
    let rest := converse e (Lines.split bytes).2
    ⟨sign ++ t.printed ++ rest.output, t.records ++ rest.records⟩
  else
    ⟨sign ++ t.printed, t.records⟩
termination_by bytes.length
decreasing_by exact Lines.length_split_lt (ne_nil_of_goesOn ‹_›)

/-- Everything that is printed in answer to an input. -/
def output (e : Evaluator) (bytes : List UInt8) : String :=
  banner ++ "\n" ++ (converse e bytes).output

/-- All log records of an input. -/
def records (e : Evaluator) (bytes : List UInt8) : List Record := (converse e bytes).records

end Prompt

end Reckoner
