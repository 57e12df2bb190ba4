-- The laws of whole runs. The words of a command line settle what is printed and logged, or
-- they start the prompt, and nothing else reads the input. What a run prints tells the code
-- that it ends with, and a run that was not asked for more logs nothing.
import Reckoner.Program
import Reckoner.Proofs.Logs

namespace Reckoner

/-! ## Words -/

namespace CommandLine

variable {words : List String} {line : CommandLine}

/-- Flags are taken off the front, and no word of the expression is changed or moved. -/
theorem isSuffix_expression {verbose : Bool} (h : ofWordsFrom verbose words = .ok line) :
    line.expression <:+ words := by
  induction words generalizing verbose with
  | nil =>
    cases h
    exact List.nil_suffix
  | cons word rest ih =>
    unfold ofWordsFrom at h
    cases hword : Word.ofChars word.toList with
    | separator =>
      rw [hword] at h
      cases h
      exact List.suffix_cons word rest
    | flagWithValue =>
      rw [hword] at h
      cases h
    | operand =>
      rw [hword] at h
      cases h
      exact List.suffix_rfl
    | flags fs =>
      rw [hword] at h
      cases hnote : note verbose fs with
      | error fault =>
        simp only [hnote] at h
        cases h
      | ok verbose' =>
        simp only [hnote] at h
        exact (ih h).trans (List.suffix_cons word rest)

theorem ofWords_separator (words : List String) :
    ofWords ("--" :: words) = .ok ⟨words, false⟩ := rfl

theorem ofWords_verbose_separator (words : List String) :
    ofWords ("-v" :: "--" :: words) = .ok ⟨words, true⟩ := rfl

end CommandLine

namespace Program

variable {words : List String} {input : List UInt8} {expression : List String}
  {lines : List (List UInt8)} {responses : List String}

/-! ## The dispatch -/

/-- One run is refused, one starts the prompt, and one evaluates an expression. -/
theorem run_cases (words : List String) (input : List UInt8) :
    (∃ fault, CommandLine.ofWords words = .error fault ∧
      run words input = refused fault ∧ log words input = []) ∨
    (∃ line, CommandLine.ofWords words = .ok line ∧ line.expression = [] ∧
      run words input = ⟨Prompt.output Evaluator.standard input, 0⟩ ∧
      log words input = line.level.keep
        (starting :: startingPrompt :: Prompt.records Evaluator.standard input)) ∨
    ∃ line, CommandLine.ofWords words = .ok line ∧ line.expression ≠ [] ∧
      run words input = oneShot Evaluator.standard line.expression ∧
      log words input = line.level.keep
        (starting :: (Evaluator.standard.run (joinWords line.expression)).records) := by
  unfold run log plan
  cases h : CommandLine.ofWords words with
  | error fault => exact Or.inl ⟨fault, rfl, rfl, rfl⟩
  | ok line =>
    by_cases hnone : line.expression = []
    · refine Or.inr (Or.inl ⟨line, rfl, hnone, ?_⟩)
      simp only [if_pos hnone, and_self, List.cons_append, List.nil_append]
    · refine Or.inr (Or.inr ⟨line, rfl, hnone, ?_⟩)
      simp only [if_neg hnone, and_self]

/-- Whatever the words are, the input is read by the prompt and by nothing else. -/
theorem only_the_prompt_reads
    (h : ∀ line, CommandLine.ofWords words = .ok line → line.expression ≠ [])
    (input other : List UInt8) :
    run words input = run words other ∧ log words input = log words other := by
  unfold run log plan
  cases hwords : CommandLine.ofWords words with
  | error fault => exact ⟨rfl, rfl⟩
  | ok line => simp only [if_neg (h line hwords), and_self]

/-- Every expression can be asked for, whatever its words look like. -/
theorem every_expression_can_be_asked_for (hsome : words ≠ []) (input : List UInt8) :
    run ("--" :: words) input = oneShot Evaluator.standard words ∧
      run ("-v" :: "--" :: words) input = oneShot Evaluator.standard words := by
  unfold run plan
  rw [CommandLine.ofWords_separator, CommandLine.ofWords_verbose_separator]
  simp only [if_neg hsome, and_self]

/-! ## Codes -/

/-- An expression is answered with its error or with its value, and with the code for it. -/
theorem oneShot_cases (e : Evaluator) (words : List String) :
    (∃ a : Amount, e.evaluate (joinWords words) = .success a ∧
      oneShot e words = ⟨a.plain e.settings.separators.point ++ "\n", 0⟩) ∨
    ∃ fault, e.evaluate (joinWords words) = .failure fault ∧
      oneShot e words = ⟨"Error: " ++ fault.message ++ "\n", 1⟩ := by
  unfold oneShot shown
  cases e.evaluate (joinWords words) with
  | success a => exact Or.inl ⟨a, rfl, rfl⟩
  | failure fault => exact Or.inr ⟨fault, rfl, rfl⟩

/-- The code goes with the output: it is one for an error, and two for nothing at all. -/
def TellsCode (printed : Printed) : Prop :=
  printed.exitCode ≤ 2 ∧ (printed.exitCode = 1 ↔ Prompt.SaysError printed.output) ∧
    (printed.exitCode = 2 ↔ printed.output = "")

instance (printed : Printed) : Decidable (TellsCode printed) :=
  inferInstanceAs (Decidable (_ ∧ _ ∧ _))

theorem tellsCode_of_value {output : String} (hne : output ≠ "")
    (h : ¬ Prompt.SaysError output) : TellsCode ⟨output, 0⟩ := by
  simp [TellsCode, hne, h]

/-- The text is long enough to show that it says no error, whatever follows. -/
def ShowsNoError (front : String) : Prop :=
  "Error: ".toList.length ≤ front.toList.length ∧ ¬ Prompt.SaysError front

instance (front : String) : Decidable (ShowsNoError front) :=
  inferInstanceAs (Decidable (_ ∧ _))

theorem ShowsNoError.append {front : String} (h : ShowsNoError front) (back : String) :
    ShowsNoError (front ++ back) := by
  obtain ⟨hlong, hfront⟩ := h
  refine ⟨?_, ?_⟩
  · rw [String.toList_append, List.length_append]
    exact Nat.le_add_right_of_le hlong
  · intro herror
    rw [Prompt.SaysError, String.toList_append] at herror
    exact hfront (List.prefix_of_prefix_length_le herror (List.prefix_append _ _) hlong)

theorem ShowsNoError.tellsCode {output : String} (h : ShowsNoError output) :
    TellsCode ⟨output, 0⟩ := by
  refine tellsCode_of_value ?_ h.2
  rintro rfl
  exact absurd h.1 (by decide)

theorem showsNoError_help : ShowsNoError CommandLine.help := by
  have h : ShowsNoError
      "Evaluate one bounded decimal expression, or start an interactive prompt\n\n" := by
    decide +kernel
  exact ((((((h.append _).append _).append _).append _).append _).append _).append _

theorem showsNoError_banner : ShowsNoError Prompt.banner := by
  have h : ShowsNoError
      "bounded-calc: evaluates <number> <operator> <number> with + - * /\n" := by
    decide +kernel
  exact (h.append _).append _

theorem tellsCode_refused (fault : UsageFault) : TellsCode (refused fault) := by
  cases fault with
  | help => exact showsNoError_help.tellsCode
  | repeatedFlag => exact (by decide : TellsCode ⟨"", 2⟩)
  | attachedValue => exact (by decide : TellsCode ⟨"", 2⟩)

theorem tellsCode_oneShot (e : Evaluator) (words : List String) :
    TellsCode (oneShot e words) := by
  obtain ⟨a, -, heq⟩ | ⟨fault, -, heq⟩ := oneShot_cases e words
  · obtain ⟨c, rest, hplain, hc⟩ := Prompt.exists_head_plain a e.settings.separators.point
    rw [heq]
    apply tellsCode_of_value
    · simp
    · have houtput : (a.plain e.settings.separators.point ++ "\n").toList =
          c :: (rest ++ ['\n']) := by
        rw [String.toList_append, hplain]
        rfl
      exact Prompt.not_saysError_of_head houtput hc
  · have herror := Prompt.saysError_append (fault.message ++ "\n")
    rw [← String.append_assoc] at herror
    have hne : "Error: " ++ fault.message ++ "\n" ≠ "" := by simp
    simp [TellsCode, heq, herror, hne]

theorem tellsCode_prompt (e : Evaluator) (input : List UInt8) :
    TellsCode ⟨Prompt.output e input, 0⟩ :=
  ((showsNoError_banner.append _).append _).tellsCode

/-- What a run prints tells the code that it ends with. -/
theorem a_run_tells_its_code (words : List String) (input : List UInt8) :
    TellsCode (run words input) := by
  obtain ⟨fault, -, hrun, -⟩ | ⟨line, -, -, hrun, -⟩ | ⟨line, -, -, hrun, -⟩ :=
    run_cases words input
  all_goals rw [hrun]
  · exact tellsCode_refused fault
  · exact tellsCode_prompt _ input
  · exact tellsCode_oneShot _ _

/-! ## Logs -/

theorem keep_warn_eq_nil {records : List Record} (h : ∀ r ∈ records, r.IsQuiet) :
    Level.warn.keep (starting :: records) = [] := by
  apply Level.keep_eq_nil
  intro r hr
  rcases List.mem_cons.mp hr with rfl | hr
  · decide
  · exact lt_trans (by decide) (h r hr)

/-- A run that was not asked for more logs nothing, whatever it is given. -/
theorem a_run_is_quiet_unless_asked
    (h : ∀ line, CommandLine.ofWords words = .ok line → line.verbose = false)
    (input : List UInt8) : log words input = [] := by
  have hlevel {line : CommandLine} (hline : CommandLine.ofWords words = .ok line) :
      line.level = .warn := by
    simp [CommandLine.level, h line hline]
  obtain ⟨fault, -, -, hlog⟩ | ⟨line, hline, -, -, hlog⟩ | ⟨line, hline, -, -, hlog⟩ :=
    run_cases words input
  · exact hlog
  · rw [hlog, hlevel hline]
    apply keep_warn_eq_nil
    intro r hr
    rcases List.mem_cons.mp hr with rfl | hr
    · exact (by decide : Level.info.rank < Level.debug.rank)
    · exact Prompt.quiet_records _ _ r hr
  · rw [hlog, hlevel hline]
    exact keep_warn_eq_nil (Evaluator.quiet_run _ _)

/-- A prompt that was asked for more logs its start, and its session behind that. -/
theorem a_verbose_prompt_logs_its_session (h : CommandLine.ofWords words = .ok ⟨[], true⟩)
    (hpieces : Lines.Pieces input lines)
    (hanswers : Prompt.Answers Evaluator.standard lines responses) :
    ∃ kept, Prompt.Logs Evaluator.standard lines responses kept ∧
      log words input = starting :: startingPrompt :: kept := by
  refine ⟨_, hanswers.logs hpieces, ?_⟩
  rw [log, plan, h]
  rfl

/-- An evaluation that was asked for more logs its start, and its rejection if there is one. -/
theorem a_verbose_evaluation_logs_its_rejection
    (h : CommandLine.ofWords words = .ok ⟨expression, true⟩) (hsome : expression ≠ [])
    (input : List UInt8) :
    ((run words input).exitCode = 0 ∧ log words input = [starting]) ∨
    ∃ rejection : Rejection,
      Event.rejected rejection ∈ (Evaluator.standard.run (joinWords expression)).events ∧
      run words input = ⟨"Error: " ++ rejection.fault.message ++ "\n", 1⟩ ∧
      log words input = [starting, rejection.record] := by
  have hplan : plan Evaluator.standard words =
      .settled .debug (starting :: (Evaluator.standard.run (joinWords expression)).records)
        (oneShot Evaluator.standard expression) := by
    rw [plan, h]
    exact if_neg hsome
  have hstart (records : List Record) :
      Level.debug.keep (starting :: records) = starting :: Level.debug.keep records := rfl
  simp only [run, log, hplan, hstart]
  obtain ⟨a, hvalue, heq⟩ | ⟨fault, hfault, heq⟩ := oneShot_cases Evaluator.standard expression
  · rw [heq, Evaluator.keep_of_success hvalue]
    exact Or.inl ⟨rfl, rfl⟩
  · obtain ⟨rejection, rfl, hevent, hkept⟩ := Evaluator.exists_keep_of_failure hfault
    rw [heq, hkept]
    exact Or.inr ⟨rejection, hevent, rfl, rfl⟩

end Program

end Reckoner
