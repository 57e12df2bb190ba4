-- The laws of a session's log. What a log of level debug keeps is told here line by line,
-- beside what is printed: one record for each response that says an error, and one for the
-- end. No record is an error, because no fault lies with an evaluation itself.
import Reckoner.Proofs.Transcript

namespace Reckoner

/-! ## One evaluation -/

/-- The record of a rejection whose fault lies with the input. -/
def Rejection.record (rejection : Rejection) : Record :=
  { level := .debug
    message := "evaluation rejected"
    fields := [("stage", rejection.stage.name), ("error", rejection.fault.message)] }

theorem EvaluationFault.isInternal_eq_false {fault : EvaluationFault}
    (h : fault.isDefensive = false) : fault.isInternal = false := by
  cases fault with
  | internal => cases h
  | _ => rfl

theorem Rejection.record_rejected {rejection : Rejection}
    (h : rejection.fault.isDefensive = false) :
    (Event.rejected rejection).record = rejection.record := by
  simp [Event.record, Rejection.record, EvaluationFault.isInternal_eq_false h]

/-- The record is for nobody but those who debug or trace. -/
def Record.IsQuiet (r : Record) : Prop := Level.info.rank < r.level.rank

theorem Record.IsQuiet.ne_error {r : Record} (h : r.IsQuiet) : r.level ≠ .error := by
  intro heq
  rw [IsQuiet, heq] at h
  exact absurd h (by decide)

namespace Level

theorem keep_append (level : Level) (rs rs' : List Record) :
    level.keep (rs ++ rs') = level.keep rs ++ level.keep rs' := List.filter_append rs rs'

theorem keep_eq_nil {level : Level} {rs : List Record}
    (h : ∀ r ∈ rs, level.rank < r.level.rank) : level.keep rs = [] := by
  rw [keep, List.filter_eq_nil_iff]
  intro r hr
  simpa using h r hr

theorem keep_debug_of_trace {rs : List Record} (h : ∀ r ∈ rs, r.level = .trace) :
    debug.keep rs = [] := by
  apply keep_eq_nil
  intro r hr
  rw [h r hr]
  decide

end Level

namespace Evaluator

variable {e : Evaluator} {input : String}

/-- All records of an evaluation are traces, but for the one of a rejection, which is last. -/
theorem records_cases (e : Evaluator) (input : String) :
    ∃ traces, (∀ r ∈ traces, r.level = .trace) ∧
      ((∃ a, e.evaluate input = .success a ∧ (e.run input).records = traces) ∨
        ∃ rejection : Rejection, e.evaluate input = .failure rejection.fault ∧
          Event.rejected rejection ∈ (e.run input).events ∧
          (e.run input).records = traces ++ [rejection.record]) := by
  unfold Run.records
  cases haccept : e.settings.accept input with
  | error rejection =>
    have hfault := (Settings.refuses_of_accept e.valid haccept).not_defensive
    refine ⟨[(Event.received input.length).record], ?_, Or.inr ⟨rejection, ?_, ?_, ?_⟩⟩
    · simp [Event.record]
    · exact evaluate_of_reject haccept
    · simp [run_of_reject haccept]
    · simp [run_of_reject haccept, Rejection.record_rejected hfault]
  | ok o =>
    cases hfinish : e.settings.finish o with
    | error rejection =>
      have hfault := (Settings.fails_of_finish e.valid hfinish).not_defensive
      refine ⟨[(Event.received input.length).record, (Event.accepted o).record], ?_,
        Or.inr ⟨rejection, ?_, ?_, ?_⟩⟩
      · simp [Event.record]
      · exact evaluate_of_no_value haccept hfinish
      · simp [run_of_no_value haccept hfinish]
      · simp [run_of_no_value haccept hfinish, Rejection.record_rejected hfault]
    | ok a =>
      refine ⟨(e.run input).records, ?_, Or.inl ⟨a, evaluate_of_value haccept hfinish, rfl⟩⟩
      simp [run_of_value haccept hfinish, Run.records, Event.record]

theorem keep_of_success {a : Amount} (h : e.evaluate input = .success a) :
    Level.debug.keep ((e.run input).records) = [] := by
  obtain ⟨traces, htraces, ⟨a, -, hlog⟩ | ⟨rejection, hfailure, -⟩⟩ := e.records_cases input
  · rw [hlog, Level.keep_debug_of_trace htraces]
  · rw [h] at hfailure
    cases hfailure

theorem exists_keep_of_failure {fault : EvaluationFault} (h : e.evaluate input = .failure fault) :
    ∃ rejection : Rejection, rejection.fault = fault ∧
      Event.rejected rejection ∈ (e.run input).events ∧
      Level.debug.keep ((e.run input).records) = [rejection.record] := by
  obtain ⟨traces, htraces, ⟨a, hsuccess, -⟩ | ⟨rejection, hfailure, hevent, hlog⟩⟩ :=
    e.records_cases input
  · rw [h] at hsuccess
    cases hsuccess
  · rw [h] at hfailure
    refine ⟨rejection, (Outcome.failure.inj hfailure).symm, hevent, ?_⟩
    rw [hlog, Level.keep_append, Level.keep_debug_of_trace htraces]
    rfl

theorem quiet_run (e : Evaluator) (input : String) :
    ∀ r ∈ (e.run input).records, r.IsQuiet := by
  intro r hr
  obtain ⟨traces, htraces, hrecords⟩ := e.records_cases input
  have hquiet : ∀ r ∈ traces, r.IsQuiet := by
    intro r hr
    rw [Record.IsQuiet, htraces r hr]
    decide
  rcases hrecords with ⟨a, -, hrecords⟩ | ⟨rejection, -, -, hrecords⟩
  · rw [hrecords] at hr
    exact hquiet r hr
  · rw [hrecords, List.mem_append, List.mem_singleton] at hr
    rcases hr with hr | rfl
    · exact hquiet r hr
    · exact (by decide : Level.info.rank < Level.debug.rank)

end Evaluator

/-! ## Responses that say an error -/

namespace Prompt

/-- The response begins as the message of an error does. -/
def SaysError (response : String) : Prop := "Error: ".toList <+: response.toList

instance (response : String) : Decidable (SaysError response) :=
  inferInstanceAs (Decidable (_ <+: _))

theorem saysError_append (message : String) : SaysError ("Error: " ++ message) := by
  rw [SaysError, String.toList_append]
  exact List.prefix_append _ _

theorem not_saysError_of_head {response : String} {c : Char} {rest : List Char}
    (h : response.toList = c :: rest) (hc : c ≠ 'E') : ¬ SaysError response := by
  rw [SaysError, h]
  simp [Ne.symm hc]

/-- The text of a number begins with a minus or a digit, whatever its point is. -/
theorem exists_head_plain {s : Scale} (a : Fixed s) (point : Char) :
    ∃ c rest, (a.plain point).toList = c :: rest ∧ c ≠ 'E' := by
  rw [Fixed.plain, String.toList_ofList, ← a.chars_numeral, Numeral.chars, a.sign_numeral]
  obtain ⟨hne, hdigits⟩ := a.numeral.whole_run
  obtain ⟨c, rest, hwhole⟩ := List.exists_cons_of_ne_nil hne
  -- The point may be any letter, so the first character has to tell the two apart.
  have hc : c ≠ 'E' := by
    rintro rfl
    exact absurd (hdigits 'E' (by simp [hwhole])) (by decide)
  rw [hwhole]
  split
  · exact ⟨'-', _, rfl, by decide⟩
  · exact ⟨c, _, rfl, hc⟩

theorem not_saysError_plain {s : Scale} (a : Fixed s) (point : Char) :
    ¬ SaysError (a.plain point) := by
  obtain ⟨c, rest, h, hc⟩ := exists_head_plain a point
  exact not_saysError_of_head h hc

/-! ## Whole sessions -/

variable {e : Evaluator} {line : List UInt8} {lines more : List (List UInt8)} {text : String}
  {trimmed : List Char} {bytes : List UInt8} {responses : List String} {kept : List Record}

/-- The lines of a session up to the first that leaves, beside their responses and their records. -/
inductive Logs (e : Evaluator) : List (List UInt8) → List String → List Record → Prop
  | ended :
      Logs e [] [] [{ level := .debug, message := "end of input, leaving prompt" }]
  | left {line : List UInt8} {more : List (List UInt8)} {text : String} {command : List Char}
      (hleaves : Leaves line) (hdecode : decodeLine line = some text)
      (htrim : TrimsTo text.toList command) :
      Logs e (line :: more) []
        [{ level := .debug
           message := "leaving prompt"
           fields := [("command", String.ofList command)] }]
  | unreadable {line : List UInt8} {more : List (List UInt8)} {responses : List String}
      {kept : List Record} (hdecode : decodeLine line = none)
      (hmore : Logs e more responses kept) :
      Logs e (line :: more) ("Error: input line is not valid UTF-8." :: responses)
        ({ level := .debug
           message := "skipping unreadable line"
           fields := [("err", "stream did not contain valid UTF-8")] } :: kept)
  | rejected {line : List UInt8} {more : List (List UInt8)} {text : String}
      {trimmed : List Char} {rejection : Rejection} {responses : List String}
      {kept : List Record} (hstays : ¬ Leaves line) (hdecode : decodeLine line = some text)
      (htrim : TrimsTo text.toList trimmed)
      (hevent : Event.rejected rejection ∈ (e.run (String.ofList trimmed)).events)
      (hmore : Logs e more responses kept) :
      Logs e (line :: more) (("Error: " ++ rejection.fault.message) :: responses)
        (rejection.record :: kept)
  | answered {line : List UInt8} {more : List (List UInt8)} {text response : String}
      {trimmed : List Char} {value : Amount} {responses : List String} {kept : List Record}
      (hstays : ¬ Leaves line) (hdecode : decodeLine line = some text)
      (htrim : TrimsTo text.toList trimmed)
      (hvalue : e.evaluate (String.ofList trimmed) = .success value)
      (hresponse : response = value.plain e.settings.separators.point)
      (hquiet : ¬ SaysError response) (hmore : Logs e more responses kept) :
      Logs e (line :: more) (response :: responses) kept

/-- One record for each error, and one for the end. -/
theorem Logs.length (h : Logs e lines responses kept) :
    kept.length = responses.countP (SaysError ·) + 1 := by
  induction h with
  | ended => rfl
  | left => rfl
  | unreadable _ _ ih =>
    have herror : SaysError "Error: input line is not valid UTF-8." := by decide
    simp [herror, ih]
  | rejected _ _ _ _ _ ih => simp [saysError_append, ih]
  | answered _ _ _ _ _ hquiet _ ih => simp [hquiet, ih]

theorem Logs.cons_evaluated (hmore : Logs e more responses kept) (hstays : ¬ Leaves line)
    (hdecode : decodeLine line = some text) (htrim : TrimsTo text.toList trimmed) :
    Logs e (line :: more)
      ((e.evaluate (String.ofList trimmed)).render e.settings.separators :: responses)
      (Level.debug.keep ((e.run (String.ofList trimmed)).records) ++ kept) := by
  cases hvalue : e.evaluate (String.ofList trimmed) with
  | success value =>
    rw [Evaluator.keep_of_success hvalue]
    exact .answered hstays hdecode htrim hvalue rfl (not_saysError_plain _ _) hmore
  | failure fault =>
    obtain ⟨rejection, rfl, hevent, hkept⟩ := Evaluator.exists_keep_of_failure hvalue
    rw [hkept]
    exact .rejected hstays hdecode htrim hevent hmore

/-- The responses of a session and the records that are kept of it go together. -/
theorem Answers.logs (h : Answers e lines responses) (hpieces : Lines.Pieces bytes lines) :
    Logs e lines responses (Level.debug.keep (records e bytes)) := by
  -- The answers stop at the line where the records stop, so they carry the induction.
  unfold records
  induction h generalizing bytes with
  | ended =>
    cases hpieces
    rw [converse_nil]
    exact .ended
  | left hleaves =>
    obtain ⟨text, trimmed, hdecode, htrim, -⟩ := id hleaves
    rw [converse_of_leave hpieces hleaves, reply_of_leave hleaves hdecode htrim]
    exact .left hleaves hdecode htrim
  | answered hstays hresponds _ ih =>
    obtain ⟨rest, hrest, heq⟩ := converse_of_stay hpieces hstays hresponds
    rw [heq, Level.keep_append]
    cases hresponds with
    | unreadable hdecode =>
      rw [reply_of_unreadable hdecode]
      exact .unreadable hdecode (ih hrest)
    | evaluated hdecode htrim =>
      rw [reply_of_stay hstays hdecode htrim]
      exact (ih hrest).cons_evaluated hstays hdecode htrim

theorem quiet_reply (e : Evaluator) (line : List UInt8) :
    ∀ r ∈ (reply e line).records, r.IsQuiet := by
  by_cases hleaves : Leaves line
  · obtain ⟨text, trimmed, hdecode, htrim, -⟩ := id hleaves
    simp [reply_of_leave hleaves hdecode htrim, Reply.records, Record.IsQuiet, Level.rank]
  · cases hdecode : decodeLine line with
    | none => simp [reply_of_unreadable hdecode, Reply.records, Record.IsQuiet, Level.rank]
    | some text =>
      rw [reply_of_stay hleaves hdecode (trimsTo_iff.mpr rfl)]
      exact e.quiet_run _

theorem Answers.quiet (h : Answers e lines responses) (hpieces : Lines.Pieces bytes lines) :
    ∀ r ∈ (converse e bytes).records, r.IsQuiet := by
  induction h generalizing bytes with
  | ended =>
    cases hpieces
    simp [converse_nil, endOfInput, Record.IsQuiet, Level.rank]
  | left hleaves =>
    rw [converse_of_leave hpieces hleaves]
    exact quiet_reply e _
  | answered hstays hresponds _ ih =>
    obtain ⟨rest, hrest, heq⟩ := converse_of_stay hpieces hstays hresponds
    intro r hr
    rw [heq, List.mem_append] at hr
    exact hr.elim (quiet_reply e _ r) (ih hrest r)

theorem quiet_records (e : Evaluator) (bytes : List UInt8) :
    ∀ r ∈ records e bytes, r.IsQuiet :=
  (answers_responsesTo e _).quiet (Lines.pieces_cut bytes)

/-- What is kept of a session at level debug goes along with its responses: one record for
each that says an error, none for the others, and one for the end. Nothing that a session
writes to its log is an error. -/
theorem the_log_of_a_session (e : Evaluator) (bytes : List UInt8) :
    (∃ lines responses, Lines.Pieces bytes lines ∧ Answers e lines responses) ∧
    (∀ lines responses, Lines.Pieces bytes lines → Answers e lines responses →
      output e bytes =
        banner ++ "\n" ++ String.join (responses.map fun r => sign ++ r ++ "\n") ++ sign ∧
      Logs e lines responses (Level.debug.keep (records e bytes)) ∧
      (Level.debug.keep (records e bytes)).length = responses.countP (SaysError ·) + 1) ∧
    ∀ r ∈ records e bytes, r.level ≠ .error := by
  refine ⟨⟨_, _, Lines.pieces_cut bytes, answers_responsesTo e _⟩, ?_, ?_⟩
  · intro lines responses hpieces hanswers
    have hlogs := hanswers.logs hpieces
    exact ⟨output_of_answers hpieces hanswers, hlogs, hlogs.length⟩
  · intro r hr
    exact (quiet_records e bytes r hr).ne_error

/-- The lines `1/0`, one that is not text, and `1+1`. The input ends behind them. -/
def endingSession : List (List UInt8) :=
  [[0x31, 0x2F, 0x30, 0x0A], [0xFF, 0x0A], [0x31, 0x2B, 0x31]]

def endingRecords : List Record :=
  [{ level := .debug
     message := "evaluation rejected"
     fields := [("stage", "arithmetic"), ("error", "division by zero is not allowed.")] },
    { level := .debug
      message := "skipping unreadable line"
      fields := [("err", "stream did not contain valid UTF-8")] },
    { level := .debug, message := "end of input, leaving prompt" }]

/-- Two errors and an end make three records. -/
theorem the_log_of_an_ending_session :
    Lines.Pieces endingSession.flatten endingSession ∧
      Answers Evaluator.standard endingSession
        ["Error: division by zero is not allowed.", unreadable, "2"] ∧
      Logs Evaluator.standard endingSession
        ["Error: division by zero is not allowed.", unreadable, "2"]
        endingRecords ∧
      endOfInput ∈ records Evaluator.standard endingSession.flatten ∧
      endOfInput.level ≠ .error := by
  have hpieces : Lines.Pieces endingSession.flatten endingSession := by
    have h := Lines.pieces_cut endingSession.flatten
    rwa [show Lines.cut endingSession.flatten = endingSession by decide +kernel] at h
  have hanswers : Answers Evaluator.standard endingSession
      ["Error: division by zero is not allowed.", unreadable, "2"] := by
    have h := answers_responsesTo Evaluator.standard endingSession
    rwa [show responsesTo Evaluator.standard endingSession =
      ["Error: division by zero is not allowed.", unreadable, "2"] by decide +kernel] at h
  have hmem : endOfInput ∈ records Evaluator.standard endingSession.flatten := by
    decide +kernel
  obtain ⟨-, hlog, hlevel⟩ := the_log_of_a_session Evaluator.standard endingSession.flatten
  obtain ⟨-, hlogs, -⟩ := hlog _ _ hpieces hanswers
  rw [show Level.debug.keep (records Evaluator.standard endingSession.flatten) = endingRecords by
    decide +kernel] at hlogs
  exact ⟨hpieces, hanswers, hlogs, hmem, hlevel _ hmem⟩

end Prompt

end Reckoner
