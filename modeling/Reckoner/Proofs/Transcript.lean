-- The laws of a session. The loop of the prompt is followed turn by turn, and everything that
-- it prints is told from the bytes that it reads: they are cut into lines, each line is
-- answered by itself and on one line, and the first line that leaves ends it.
import Reckoner.Prompt
import Reckoner.Proofs.ReadBack
import Reckoner.Proofs.Rejections

namespace Reckoner

/-! ## Lines -/

namespace Lines

variable {bytes body line rest front : List UInt8} {lines : List (List UInt8)}

/-- Cuts after each newline. A last piece without one is a line too, if it has a byte. -/
def cut : List UInt8 → List (List UInt8)
  | [] => []
  | b :: rest =>
    if b = newline then
      [b] :: cut rest
    else
      match cut rest with
      | [] => [[b]]
      | line :: lines => (b :: line) :: lines

/-- Bytes are the pieces that end at their newlines, and a last one without a newline. -/
inductive Pieces : List UInt8 → List (List UInt8) → Prop
  | nil : Pieces [] []
  | last {line : List UInt8} (hne : line ≠ []) (h : newline ∉ line) : Pieces line [line]
  | cons {body rest : List UInt8} {lines : List (List UInt8)} (h : newline ∉ body)
      (hrest : Pieces rest lines) :
      Pieces (body ++ newline :: rest) ((body ++ [newline]) :: lines)

theorem pieces_cut (bytes : List UInt8) : Pieces bytes (cut bytes) := by
  induction bytes with
  | nil => exact .nil
  | cons b rest ih =>
    unfold cut
    by_cases hb : b = newline
    · rw [if_pos hb, hb]
      exact @Pieces.cons [] rest _ (by simp) ih
    · have hnot {cs : List UInt8} (h : newline ∉ cs) : newline ∉ b :: cs := by
        simp [h, Ne.symm hb]
      rw [if_neg hb]
      -- The first piece of the rest is the one that `b` is put in front of.
      generalize cut rest = lines at ih
      cases ih with
      | nil => exact .last (by simp) (hnot (by simp))
      | last hne h => exact .last (by simp) (hnot h)
      | cons h hrest => exact @Pieces.cons (b :: _) _ _ (hnot h) hrest

theorem cut_line (h : newline ∉ body) :
    cut (body ++ newline :: rest) = (body ++ [newline]) :: cut rest := by
  induction body with
  | nil => simp [cut]
  | cons b body ih =>
    rw [List.mem_cons, not_or] at h
    obtain ⟨hb, hbody⟩ := h
    rw [List.cons_append, cut, if_neg (Ne.symm hb), ih hbody]
    rfl

theorem cut_last (hne : line ≠ []) (h : newline ∉ line) : cut line = [line] := by
  induction line with
  | nil => exact absurd rfl hne
  | cons b rest ih =>
    rw [List.mem_cons, not_or] at h
    obtain ⟨hb, hrest⟩ := h
    rw [cut, if_neg (Ne.symm hb)]
    by_cases hnil : rest = []
    · rw [hnil]
      rfl
    · rw [ih hnil hrest]

/-- Bytes have no other pieces than those they are cut into. -/
theorem Pieces.cut_eq (h : Pieces bytes lines) : cut bytes = lines := by
  induction h with
  | nil => rfl
  | last hne h => exact cut_last hne h
  | cons h _ ih => rw [cut_line h, ih]

/-- Behind a newline the cutting starts anew. -/
theorem Pieces.append {after : List UInt8} {more : List (List UInt8)} (h : Pieces front lines)
    (hlast : front.getLast? = some newline) (hafter : Pieces after more) :
    Pieces (front ++ after) (lines ++ more) := by
  induction h with
  | nil => cases hlast
  | last _ hnot => exact absurd (List.mem_of_getLast? hlast) hnot
  | @cons body rest tail hbody hrest ih =>
    rw [List.append_assoc, List.cons_append, List.cons_append]
    apply Pieces.cons hbody
    by_cases hnil : rest = []
    · subst hnil
      rw [← hrest.cut_eq]
      exact hafter
    · apply ih
      simpa [List.getLast?_cons, List.getLast?_eq_some_getLast hnil] using hlast

theorem split_line (h : newline ∉ body) :
    split (body ++ newline :: rest) = (body ++ [newline], rest) := by
  induction body with
  | nil => simp [split]
  | cons b body ih =>
    rw [List.mem_cons, not_or] at h
    obtain ⟨hb, hbody⟩ := h
    rw [List.cons_append, split, if_neg (Ne.symm hb), ih hbody]
    rfl

theorem split_last (h : newline ∉ line) : split line = (line, []) := by
  induction line with
  | nil => rfl
  | cons b rest ih =>
    rw [List.mem_cons, not_or] at h
    obtain ⟨hb, hrest⟩ := h
    rw [split, if_neg (Ne.symm hb), ih hrest]

/-- Reading one line takes off the first piece. -/
theorem Pieces.split (h : Pieces bytes (line :: lines)) :
    line ≠ [] ∧ ∃ rest, Lines.split bytes = (line, rest) ∧ Pieces rest lines := by
  cases h with
  | last hne h => exact ⟨hne, [], split_last h, .nil⟩
  | cons h hrest => exact ⟨by simp, _, split_line h, hrest⟩

end Lines

/-! ## Blanks at the ends -/

/-- `trimmed` is what is left of the text between the blanks at its ends. -/
def TrimsTo (text trimmed : List Char) : Prop :=
  (∃ b b', Expression.AllBlank b ∧ Expression.AllBlank b' ∧ text = b ++ (trimmed ++ b')) ∧
    (trimmed = [] ∨ Expression.Bare trimmed)

theorem bare_trimBlanks {cs : List Char} (h : trimBlanks cs ≠ []) :
    Expression.Bare (trimBlanks cs) := by
  obtain ⟨b, hb, heq⟩ := Expression.exists_allBlank_append (dropBlanks cs).reverse
  have hfront : dropBlanks cs = trimBlanks cs ++ b.reverse := by
    rw [trimBlanks, ← List.reverse_append, heq, List.reverse_reverse]
  have hlast : (trimBlanks cs).getLast? = (dropBlanks (dropBlanks cs).reverse).head? := by
    rw [trimBlanks, List.getLast?_reverse]
  refine ⟨⟨(trimBlanks cs).head h, List.head?_eq_some_head h, ?_⟩,
    (trimBlanks cs).getLast h, List.getLast?_eq_some_getLast h, ?_⟩
  · apply head?_dropBlanks cs
    rw [hfront, List.head?_append_of_ne_nil _ h, List.head?_eq_some_head h]
  · apply head?_dropBlanks (dropBlanks cs).reverse
    rw [← hlast, List.getLast?_eq_some_getLast h]

theorem trimsTo_iff {text trimmed : List Char} :
    TrimsTo text trimmed ↔ trimBlanks text = trimmed := by
  refine ⟨?_, ?_⟩
  · rintro ⟨⟨b, b', hb, hb', rfl⟩, rfl | hbare⟩
    · have hall := Expression.allBlank_append.mpr ⟨hb, hb'⟩
      rw [trimBlanks, List.nil_append, Expression.dropBlanks_eq_nil_iff.mpr hall]
      rfl
    · exact Expression.trimBlanks_append hb hb' hbare
  · rintro rfl
    refine ⟨Expression.exists_blanks_trim text, ?_⟩
    by_cases h : trimBlanks text = []
    · exact Or.inl h
    · exact Or.inr (bare_trimBlanks h)

/-! ## Texts of one line -/

/-- The text does not go on to another line. -/
def OneLine (text : String) : Prop := '\n' ∉ text.toList

instance (text : String) : Decidable (OneLine text) := inferInstanceAs (Decidable (¬ _))

namespace OneLine

theorem append {s t : String} (hs : OneLine s) (ht : OneLine t) : OneLine (s ++ t) := by
  rw [OneLine, String.toList_append, List.mem_append, not_or]
  exact ⟨hs, ht⟩

theorem of_digits {s : String} (h : Digits.AllDigits s.toList) : OneLine s := by
  intro hmem
  exact absurd (h _ hmem) (by decide)

theorem toString_nat (n : ℕ) : OneLine (toString n) := by
  apply of_digits
  rw [Digits.toList_toString]
  exact Digits.allDigits_ofNat n

theorem toString_char {c : Char} (h : c ≠ '\n') : OneLine (toString c) := by
  change '\n' ∉ (String.singleton c).toList
  rw [String.toList_singleton, List.mem_singleton]
  exact Ne.symm h

/-- Grouping puts nothing but commas between digits. -/
theorem groupThousands (n : ℕ) : OneLine (Reckoner.groupThousands n) := by
  rw [OneLine, Reckoner.groupThousands, String.toList_ofList]
  intro hmem
  have hdigits := Grouped.filter_commas (Digits.allDigits_ofNat n)
  have hkept : '\n' ∈ (Grouped.commas (Digits.ofNat n)).filter (· ≠ ',') :=
    List.mem_filter.mpr ⟨hmem, by decide⟩
  rw [hdigits] at hkept
  exact absurd (Digits.allDigits_ofNat n _ hkept) (by decide)

theorem rangeText (bound : ℕ) : OneLine (EvaluationFault.rangeText bound) := by
  unfold EvaluationFault.rangeText
  refine append (append (append (append ?_ (groupThousands bound)) ?_) (groupThousands bound)) ?_
  all_goals decide

/-- A number has no newline in its text unless that is its point. -/
theorem plain {s : Scale} (a : Fixed s) {point : Char} (h : point ≠ '\n') :
    OneLine (a.plain point) := by
  rw [OneLine, Fixed.plain, String.toList_ofList, ← a.chars_numeral]
  exact Numeral.not_mem_chars (by decide) (fun sign => by cases sign <;> decide) (Ne.symm h)

end OneLine

namespace Settings

variable {settings : Settings} {input : String} {o : Operation} {rejection : Rejection}

theorem point_ne_newline (hvalid : settings.Valid) : settings.separators.point ≠ '\n' := by
  obtain ⟨-, -, -, -, -, hpoint, -⟩ := valid_iff.mp hvalid
  obtain ⟨-, hblank, -⟩ := Separators.clashes_eq_false_iff.mp hpoint
  rintro heq
  rw [heq] at hblank
  exact absurd hblank (by decide)

theorem oneLine_shapeFault (hvalid : settings.Valid) :
    OneLine (settings.shapeFault input).message := by
  have hpoint := OneLine.toString_char (point_ne_newline hvalid)
  unfold shapeFault
  split
  · refine OneLine.append (OneLine.append ?_ hpoint) ?_
    all_goals decide
  · refine OneLine.append (OneLine.append (OneLine.append ?_ hpoint) ?_) ?_
    all_goals decide

theorem Refuses.oneLine (hvalid : settings.Valid) (h : Refuses settings input rejection) :
    OneLine rejection.fault.message := by
  cases h with
  | tooLong => exact (by decide : OneLine "expression too long.")
  | shape => exact oneLine_shapeFault hvalid
  | digits =>
    refine OneLine.append (OneLine.append ?_ (OneLine.toString_nat _)) ?_
    all_goals decide
  | range =>
    refine OneLine.append (OneLine.append ?_ (OneLine.rangeText _)) ?_
    all_goals decide

theorem Fails.oneLine (h : Fails settings o rejection) : OneLine rejection.fault.message := by
  cases h with
  | division => decide
  | arithmetic => decide
  | rounding => decide
  | range =>
    refine OneLine.append (OneLine.append ?_ (OneLine.rangeText _)) ?_
    all_goals decide

end Settings

theorem Evaluator.oneLine_render (e : Evaluator) (input : String) :
    OneLine ((e.evaluate input).render e.settings.separators) := by
  cases h : e.evaluate input with
  | success value => exact OneLine.plain value (Settings.point_ne_newline e.valid)
  | failure fault =>
    obtain ⟨rejection, rfl, hsaid⟩ := rejection_of_failure h
    have hmessage : OneLine rejection.fault.message := by
      rcases hsaid with hrefuses | ⟨o, hfails⟩
      · exact hrefuses.oneLine e.valid
      · exact hfails.oneLine
    exact OneLine.append (by decide) hmessage

/-! ## Replies to lines -/

namespace Prompt

variable {e : Evaluator} {line : List UInt8} {lines more : List (List UInt8)} {text : String}
  {trimmed : List Char}

/-- The line asks to leave: it is text, and between the blanks at its ends is nothing, or
one of two words in small or large letters. -/
def Leaves (line : List UInt8) : Prop :=
  ∃ text trimmed, decodeLine line = some text ∧ TrimsTo text.toList trimmed ∧
    (trimmed = [] ∨ trimmed.map Char.toLower = "exit".toList ∨
      trimmed.map Char.toLower = "quit".toList)

/-- A line that is not text is told so, and another one is evaluated between its blanks. -/
inductive Responds (e : Evaluator) : List UInt8 → String → Prop
  | unreadable {line : List UInt8} (h : decodeLine line = none) :
      Responds e line Prompt.unreadable
  | evaluated {line : List UInt8} {text : String} {trimmed : List Char}
      (h : decodeLine line = some text) (htrim : TrimsTo text.toList trimmed) :
      Responds e line ((e.evaluate (String.ofList trimmed)).render e.settings.separators)

theorem isLeave_replyToText (text : String) :
    (replyToText e text).isLeave = isLeaving (trimBlanks text.toList) := by
  unfold replyToText
  dsimp only
  split
  · next h => rw [h]; rfl
  · next h => rw [Bool.eq_false_iff.mpr h]; rfl

theorem isLeave_reply_iff : (reply e line).isLeave = true ↔ Leaves line := by
  unfold reply Leaves
  cases decodeLine line with
  | none => simp [Reply.isLeave]
  | some text =>
    simp only [isLeave_replyToText, trimsTo_iff, Option.some.injEq, isLeaving,
      Bool.or_eq_true, List.isEmpty_iff, beq_iff_eq, or_assoc]
    refine ⟨fun h => ⟨text, _, rfl, rfl, h⟩, ?_⟩
    rintro ⟨text', trimmed, rfl, rfl, h⟩
    exact h

theorem reply_of_unreadable (h : decodeLine line = none) : reply e line = .skip := by
  rw [reply, h]

theorem reply_of_leave (hleaves : Leaves line) (hdecode : decodeLine line = some text)
    (htrim : TrimsTo text.toList trimmed) : reply e line = .leave (String.ofList trimmed) := by
  have hleave := isLeave_reply_iff (e := e).mpr hleaves
  rw [trimsTo_iff] at htrim
  rw [reply, hdecode] at hleave ⊢
  simp only [isLeave_replyToText, htrim] at hleave
  simp only [replyToText, htrim, hleave]
  rfl

theorem reply_of_stay (hstays : ¬ Leaves line) (hdecode : decodeLine line = some text)
    (htrim : TrimsTo text.toList trimmed) :
    reply e line = .answer (e.run (String.ofList trimmed)) := by
  have hstay := mt (isLeave_reply_iff (e := e)).mp hstays
  rw [trimsTo_iff] at htrim
  rw [reply, hdecode] at hstay ⊢
  simp only [isLeave_replyToText, htrim] at hstay
  simp only [replyToText, htrim, hstay]
  rfl

theorem Responds.oneLine {response : String} (h : Responds e line response) :
    OneLine response := by
  cases h with
  | unreadable => decide
  | evaluated => exact e.oneLine_render _

theorem exists_responds (e : Evaluator) (line : List UInt8) :
    ∃ response, Responds e line response := by
  cases h : decodeLine line with
  | none => exact ⟨_, .unreadable h⟩
  | some text => exact ⟨_, .evaluated h (trimsTo_iff.mpr rfl)⟩

theorem response?_reply {response : String} (hstay : ¬ Leaves line)
    (h : Responds e line response) :
    (reply e line).response? e.settings.separators = some response := by
  cases h with
  | unreadable h =>
    rw [reply_of_unreadable h]
    rfl
  | evaluated h htrim =>
    rw [reply_of_stay hstay h htrim]
    rfl

/-! ## Whole sessions -/

/-- Each line is answered by itself, up to the first that leaves. -/
inductive Answers (e : Evaluator) : List (List UInt8) → List String → Prop
  | ended : Answers e [] []
  | left {line : List UInt8} {more : List (List UInt8)} (h : Leaves line) :
      Answers e (line :: more) []
  | answered {line : List UInt8} {more : List (List UInt8)} {response : String}
      {responses : List String} (h : ¬ Leaves line) (hresponds : Responds e line response)
      (hmore : Answers e more responses) :
      Answers e (line :: more) (response :: responses)

/-- The responses to the lines, up to the first that leaves. -/
def responsesTo (e : Evaluator) : List (List UInt8) → List String
  | [] => []
  | line :: more =>
    match (reply e line).response? e.settings.separators with
    | some response => response :: responsesTo e more
    | none => []

theorem response?_of_leave (h : Leaves line) :
    (reply e line).response? e.settings.separators = none := by
  have hleave := isLeave_reply_iff (e := e).mpr h
  cases hreply : reply e line with
  | leave => rfl
  | skip => rw [hreply] at hleave; cases hleave
  | answer => rw [hreply] at hleave; cases hleave

theorem answers_responsesTo (e : Evaluator) (lines : List (List UInt8)) :
    Answers e lines (responsesTo e lines) := by
  induction lines with
  | nil => exact .ended
  | cons line more ih =>
    by_cases h : Leaves line
    · rw [responsesTo, response?_of_leave h]
      exact .left h
    · obtain ⟨response, hresponds⟩ := exists_responds e line
      rw [responsesTo, response?_reply h hresponds]
      exact .answered h hresponds ih

variable {bytes : List UInt8} {responses : List String}

theorem Answers.oneLine (h : Answers e lines responses) :
    ∀ response ∈ responses, OneLine response := by
  induction h with
  | ended => simp
  | left => simp
  | answered _ hresponds _ ih => exact List.forall_mem_cons.mpr ⟨hresponds.oneLine, ih⟩

/-- Behind a line that leaves nothing is answered. -/
theorem Answers.append (h : Answers e lines responses) (hleave : ∃ line ∈ lines, Leaves line)
    (more : List (List UInt8)) : Answers e (lines ++ more) responses := by
  induction h with
  | ended => simp at hleave
  | left h => exact .left h
  | answered h hresponds _ ih =>
    refine .answered h hresponds (ih ?_)
    obtain ⟨line, hline, hl⟩ := hleave
    rcases List.mem_cons.mp hline with rfl | hline
    · exact absurd hl h
    · exact ⟨line, hline, hl⟩

/-! ## The loop -/

theorem turn_of_leave (hne : line ≠ []) (h : Leaves line) :
    turn e line = ⟨(reply e line).records, "", false⟩ := by
  rw [turn, if_neg hne, response?_of_leave h]

theorem turn_of_stay {response : String} (hne : line ≠ []) (hstays : ¬ Leaves line)
    (h : Responds e line response) :
    turn e line = ⟨(reply e line).records, response ++ "\n", true⟩ := by
  rw [turn, if_neg hne, response?_reply hstays h]

theorem converse_nil : converse e [] = ⟨sign, [endOfInput]⟩ := by
  rw [converse]
  rfl

theorem converse_of_leave (hpieces : Lines.Pieces bytes (line :: more)) (h : Leaves line) :
    converse e bytes = ⟨sign, (reply e line).records⟩ := by
  obtain ⟨hne, rest, hsplit, -⟩ := hpieces.split
  rw [converse]
  simp [hsplit, turn_of_leave hne h]

/-- A line that stays is answered, and the loop goes on with the bytes behind it. -/
theorem converse_of_stay {response : String} (hpieces : Lines.Pieces bytes (line :: more))
    (hstays : ¬ Leaves line) (h : Responds e line response) :
    ∃ rest, Lines.Pieces rest more ∧ converse e bytes =
      ⟨sign ++ response ++ "\n" ++ (converse e rest).output,
        (reply e line).records ++ (converse e rest).records⟩ := by
  obtain ⟨hne, rest, hsplit, hrest⟩ := hpieces.split
  refine ⟨rest, hrest, ?_⟩
  rw [converse]
  simp [hsplit, turn_of_stay hne hstays h, String.append_assoc]

/-- What the loop prints: a sign before each response, and one more. -/
theorem Answers.output_converse (h : Answers e lines responses)
    (hpieces : Lines.Pieces bytes lines) :
    (converse e bytes).output =
      String.join (responses.map fun r => sign ++ r ++ "\n") ++ sign := by
  induction h generalizing bytes with
  | ended =>
    cases hpieces
    simp [converse_nil]
  | left h => simp [converse_of_leave hpieces h]
  | answered hstays hresponds _ ih =>
    obtain ⟨rest, hrest, heq⟩ := converse_of_stay hpieces hstays hresponds
    simp only [heq, ih hrest, List.map_cons, String.join_cons, String.append_assoc]

theorem output_of_answers (hpieces : Lines.Pieces bytes lines) (h : Answers e lines responses) :
    output e bytes =
      banner ++ "\n" ++ String.join (responses.map fun r => sign ++ r ++ "\n") ++ sign := by
  rw [output, h.output_converse hpieces, ← String.append_assoc]

/-- A session prints its banner, then a sign and a response of one line for each line up to
the first that leaves, and a last sign. What is read behind a line that leaves changes
nothing. -/
theorem the_transcript_of_a_session (e : Evaluator) (bytes : List UInt8) :
    (∃ lines responses, Lines.Pieces bytes lines ∧ Answers e lines responses) ∧
    ∀ lines responses, Lines.Pieces bytes lines → Answers e lines responses →
      output e bytes =
        banner ++ "\n" ++ String.join (responses.map fun r => sign ++ r ++ "\n") ++ sign ∧
      (∀ response ∈ responses, '\n' ∉ response.toList) ∧
      (bytes.getLast? = some Lines.newline → (∃ line ∈ lines, Leaves line) →
        ∀ after, output e (bytes ++ after) = output e bytes) := by
  refine ⟨?_, ?_⟩
  · exact ⟨_, _, Lines.pieces_cut bytes, answers_responsesTo e _⟩
  · intro lines responses hpieces h
    refine ⟨output_of_answers hpieces h, h.oneLine, ?_⟩
    intro hlast hleave after
    rw [output_of_answers (hpieces.append hlast (Lines.pieces_cut after)) (h.append hleave _),
      output_of_answers hpieces h]

/-- The lines `1+1` and `Exit`, with one that is not text between them. -/
def shortSession : List (List UInt8) :=
  [[0x31, 0x2B, 0x31, 0x0A], [0xFF, 0x0A], [0x45, 0x78, 0x69, 0x74, 0x20, 0x0A]]

/-- Whatever follows, a sum is answered and a line that is not text is passed over. -/
theorem the_transcript_of_a_short_session :
    Lines.Pieces shortSession.flatten shortSession ∧
      Answers Evaluator.standard shortSession ["2", unreadable] ∧
      shortSession.flatten.getLast? = some Lines.newline ∧
      (∃ line ∈ shortSession, Leaves line) ∧
      ∀ after, output Evaluator.standard (shortSession.flatten ++ after) =
        banner ++ "\n" ++ String.join ["> 2\n", "> " ++ unreadable ++ "\n"] ++ "> " := by
  have hpieces : Lines.Pieces shortSession.flatten shortSession := by
    have h := Lines.pieces_cut shortSession.flatten
    rwa [show Lines.cut shortSession.flatten = shortSession by decide +kernel] at h
  have hanswers : Answers Evaluator.standard shortSession ["2", unreadable] := by
    have h := answers_responsesTo Evaluator.standard shortSession
    rwa [show responsesTo Evaluator.standard shortSession = ["2", unreadable] by
      decide +kernel] at h
  have hleave : ∃ line ∈ shortSession, Leaves line := by
    simp only [← isLeave_reply_iff (e := Evaluator.standard)]
    decide +kernel
  obtain ⟨houtput, -, hafter⟩ :=
    (the_transcript_of_a_session Evaluator.standard shortSession.flatten).2 _ _ hpieces hanswers
  refine ⟨hpieces, hanswers, by decide, hleave, ?_⟩
  intro after
  rw [hafter (by decide) hleave after, houtput]
  rfl

end Prompt

end Reckoner
