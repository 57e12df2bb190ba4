-- The laws of the two front ends. The prompt takes the blanks off both ends of a line, the
-- command line evaluates its words as they are, and both give the same answer, because no
-- stage minds blanks at the ends of an input that is not too long.
import Reckoner.Program
import Reckoner.Proofs.Transcript

namespace Reckoner

/-! ## Blanks at the ends of a text -/

namespace Expression

variable {point : Char} {cs ds b b' : List Char} {left right : Numeral} {operator : Operator}

theorem Bare.between (hcs : Bare cs) (hds : Bare ds) (middle : List Char) :
    Bare (cs ++ (middle ++ ds)) := by
  obtain ⟨⟨c, hfirst, hc⟩, -⟩ := hcs
  obtain ⟨-, d, hlast, hd⟩ := hds
  refine ⟨⟨c, ?_, hc⟩, d, ?_, hd⟩
  · simpa using Or.inl hfirst
  · simp [List.getLast?_append, Option.mem_def.mp hlast]

theorem trimBlanks_surround (hb : AllBlank b) (hb' : AllBlank b') (cs : List Char) :
    trimBlanks (b ++ (cs ++ b')) = trimBlanks cs := by
  obtain ⟨⟨c, c', hc, hc', heq⟩, hbare⟩ := trimsTo_iff.mpr (rfl : trimBlanks cs = trimBlanks cs)
  refine trimsTo_iff.mp ⟨⟨b ++ c, c' ++ b', ?_, ?_, ?_⟩, hbare⟩
  · exact allBlank_append.mpr ⟨hb, hc⟩
  · exact allBlank_append.mpr ⟨hc', hb'⟩
  · conv_lhs => rw [heq]
    simp

theorem trimBlanks_trimBlanks (cs : List Char) : trimBlanks (trimBlanks cs) = trimBlanks cs := by
  obtain ⟨b, b', hb, hb', heq⟩ := exists_blanks_trim cs
  conv_rhs => rw [heq, trimBlanks_surround hb hb']

theorem cut_trimBlanks_iff (cs : List Char) :
    Cut point (trimBlanks cs) left operator right ↔ Cut point cs left operator right := by
  refine ⟨?_, ?_⟩
  · intro h
    obtain ⟨b, b', hb, hb', heq⟩ := exists_blanks_trim cs
    rw [heq]
    generalize trimBlanks cs = ds at h
    obtain ⟨_, _, _, h₁, h₂, h₃, h₄⟩ := h
    have hfront := allBlank_append.mpr ⟨hb, h₁⟩
    have hback := allBlank_append.mpr ⟨h₄, hb'⟩
    have hcut : Cut point _ left operator right := .intro left operator right hfront h₂ h₃ hback
    simpa using hcut
  · rintro ⟨_, _, _, h₁, h₂, h₃, h₄⟩
    rename_i b₁ b₂ b₃ b₄
    -- No more than the outer blanks of the cut is taken off, because numerals are bare.
    have hbare : Bare (left.chars point ++ ((b₂ ++ operator.symbol :: b₃) ++ right.chars point)) :=
      left.bare_chars.between right.bare_chars _
    have htrim := trimBlanks_append h₁ h₄ hbare
    have hcut : Cut point _ left operator right :=
      .intro left operator right allBlank_nil h₂ h₃ allBlank_nil
    simp only [List.append_assoc, List.cons_append, List.append_nil, List.nil_append] at htrim hcut
    rwa [htrim]

theorem reads_congr {cs' : List Char} {e : Expression} (h : trimBlanks cs = trimBlanks cs') :
    Reads point cs e ↔ Reads point cs' e := by
  simp only [Reads, ← cut_trimBlanks_iff cs, ← cut_trimBlanks_iff cs', h]

theorem ofText?_congr {text text' : String}
    (h : trimBlanks text.toList = trimBlanks text'.toList) :
    ofText? point text = ofText? point text' := by
  apply Option.ext
  intro e
  simp only [ofText?_eq_some_iff, reads_congr h]

end Expression

theorem mem_trimBlanks_iff {cs : List Char} {c : Char} (hc : isBlank c = false) :
    c ∈ trimBlanks cs ↔ c ∈ cs := by
  obtain ⟨b, b', hb, hb', heq⟩ := Expression.exists_blanks_trim cs
  have hnot {b : List Char} (hb : Expression.AllBlank b) : c ∉ b := by
    intro hmem
    rw [hb c hmem] at hc
    cases hc
  conv_rhs => rw [heq]
  simp [hnot hb, hnot hb']

/-! ## Blanks at the ends of an input -/

section Evaluation

variable {e : Evaluator} {input input' : String}

/-- What stands between the blanks decides what is read, and what is said where nothing is. -/
theorem Settings.parse_congr {settings : Settings} (hvalid : settings.Valid)
    (h : trimBlanks input.toList = trimBlanks input'.toList)
    (hlength : input.length ≤ settings.maxLength) (hlength' : input'.length ≤ settings.maxLength) :
    settings.parse input = settings.parse input' := by
  obtain ⟨-, -, -, -, -, -, hgrouping⟩ := valid_iff.mp hvalid
  obtain ⟨-, hblank, -⟩ := Separators.clashes_eq_false_iff.mp hgrouping
  have hnamed : settings.separators.grouping ∈ input.toList ↔
      settings.separators.grouping ∈ input'.toList := by
    rw [← mem_trimBlanks_iff hblank, h, mem_trimBlanks_iff hblank]
  unfold parse Expression.parts?
  rw [if_neg (not_lt.mpr hlength), if_neg (not_lt.mpr hlength'), Expression.ofText?_congr h]
  simp only [hnamed]

theorem Evaluator.evaluate_of_accept_eq
    (h : e.settings.accept input = e.settings.accept input') :
    e.evaluate input = e.evaluate input' := by
  cases haccept : e.settings.accept input' with
  | error rejection => rw [evaluate_of_reject (h.trans haccept), evaluate_of_reject haccept]
  | ok o =>
    cases hfinish : e.settings.finish o with
    | ok a => rw [evaluate_of_value (h.trans haccept) hfinish, evaluate_of_value haccept hfinish]
    | error rejection =>
      rw [evaluate_of_no_value (h.trans haccept) hfinish, evaluate_of_no_value haccept hfinish]

/-- Blanks at the ends of an input change nothing about its outcome, whatever it is. -/
theorem Evaluator.evaluate_of_trim_eq (h : trimBlanks input.toList = trimBlanks input'.toList)
    (hlength : input.length ≤ e.settings.maxLength)
    (hlength' : input'.length ≤ e.settings.maxLength) :
    e.evaluate input = e.evaluate input' := by
  apply evaluate_of_accept_eq
  unfold Settings.accept
  rw [Settings.parse_congr e.valid h hlength hlength']

theorem length_trimBlanks_le (cs : List Char) : (trimBlanks cs).length ≤ cs.length := by
  obtain ⟨b, b', -, -, heq⟩ := Expression.exists_blanks_trim cs
  conv_rhs => rw [heq]
  simp only [List.length_append]
  omega

theorem Evaluator.evaluate_trimBlanks (h : input.length ≤ e.settings.maxLength) :
    e.evaluate (String.ofList (trimBlanks input.toList)) = e.evaluate input := by
  have hshorter := length_trimBlanks_le input.toList
  rw [String.length_toList] at hshorter
  apply evaluate_of_trim_eq
  · rw [String.toList_ofList, Expression.trimBlanks_trimBlanks]
  · rw [String.length_ofList]
    omega
  · exact h

end Evaluation

/-! ## Lines as bytes -/

namespace Lines

variable {line : String} {c : Char}

def encode (text : String) : List UInt8 := text.toList.flatMap String.utf8EncodeChar

theorem encode_append (text more : String) : encode (text ++ more) = encode text ++ encode more := by
  simp [encode]

theorem decodeLine_encode (text : String) : decodeLine (encode text) = some text := by
  have hbytes : (encode text).toByteArray = text.toByteArray := by
    conv_rhs => rw [← String.ofList_toList (s := text), String.toByteArray_ofList]
    rfl
  rw [decodeLine, String.fromUTF8?, hbytes, dif_pos text.isValidUTF8]
  rfl

/-- Only the newline itself is written with its byte: bytes of large characters are all larger. -/
theorem newline_not_mem_utf8EncodeChar (h : c ≠ '\n') : newline ∉ String.utf8EncodeChar c := by
  have hnat : c.val.toNat ≠ 10 := by
    intro heq
    exact h (Char.ext (UInt32.toNat_inj.mp heq))
  have hbyte {n : ℕ} (hn : n % 256 ≠ 10) : newline ≠ UInt8.ofNat n := by
    intro heq
    have htoNat := congrArg UInt8.toNat heq
    rw [UInt8.toNat_ofNat'] at htoNat
    exact hn htoNat.symm
  unfold String.utf8EncodeChar
  dsimp only
  -- One case for each number of bytes.
  split_ifs
  all_goals simp only [List.mem_cons, List.not_mem_nil, or_false, not_or]
  · exact hbyte (by omega)
  · exact ⟨hbyte (by omega), hbyte (by omega)⟩
  · exact ⟨hbyte (by omega), hbyte (by omega), hbyte (by omega)⟩
  · exact ⟨hbyte (by omega), hbyte (by omega), hbyte (by omega), hbyte (by omega)⟩

theorem newline_not_mem_encode (h : '\n' ∉ line.toList) : newline ∉ encode line := by
  intro hmem
  obtain ⟨c, hc, hbyte⟩ := List.mem_flatMap.mp hmem
  refine newline_not_mem_utf8EncodeChar ?_ hbyte
  rintro rfl
  exact h hc

theorem cut_append {front after : List UInt8} (h : front = [] ∨ front.getLast? = some newline) :
    cut (front ++ after) = cut front ++ cut after := by
  rcases h with rfl | hlast
  · rfl
  · exact ((pieces_cut front).append hlast (pieces_cut after)).cut_eq

end Lines

/-! ## Sessions that go on -/

namespace Prompt

variable {e : Evaluator} {text line : String} {front : List UInt8}
  {lines more : List (List UInt8)} {responses responses' : List String}

/-- Between the blanks at the ends of the text is something, and no word that leaves. -/
def Asks (text : String) : Prop :=
  ∃ trimmed, TrimsTo text.toList trimmed ∧ trimmed ≠ [] ∧
    trimmed.map Char.toLower ≠ "exit".toList ∧ trimmed.map Char.toLower ≠ "quit".toList

/-- The bytes are whole lines, and none of them leaves. -/
def Waits (front : List UInt8) : Prop :=
  (front = [] ∨ front.getLast? = some Lines.newline) ∧ ∀ line ∈ Lines.cut front, ¬ Leaves line

theorem not_leaves_encode (h : Asks text) : ¬ Leaves (Lines.encode text) := by
  rintro ⟨_, trimmed, hdecode, htrim, hword⟩
  rw [Lines.decodeLine_encode, Option.some.injEq] at hdecode
  subst hdecode
  obtain ⟨trimmed', htrim', hne, hexit, hquit⟩ := h
  obtain rfl : trimmed' = trimmed := (trimsTo_iff.mp htrim').symm.trans (trimsTo_iff.mp htrim)
  rcases hword with h | h | h
  · exact hne h
  · exact hexit h
  · exact hquit h

/-- The newline that ends a line is one of the blanks at its ends. -/
theorem trimBlanks_newline (line : String) :
    trimBlanks (line ++ "\n").toList = trimBlanks line.toList := by
  rw [String.toList_append]
  exact Expression.trimBlanks_surround Expression.allBlank_nil
    (Expression.allBlank_singleton rfl) line.toList

theorem Asks.newline (h : Asks line) : Asks (line ++ "\n") := by
  obtain ⟨trimmed, htrim, hword⟩ := h
  refine ⟨trimmed, ?_, hword⟩
  rw [trimsTo_iff, trimBlanks_newline]
  exact trimsTo_iff.mp htrim

theorem responds_encode (hlength : line.length ≤ e.settings.maxLength)
    (h : trimBlanks text.toList = trimBlanks line.toList) :
    Responds e (Lines.encode text) ((e.evaluate line).render e.settings.separators) := by
  rw [← Evaluator.evaluate_trimBlanks hlength, ← h]
  exact .evaluated (Lines.decodeLine_encode text) (trimsTo_iff.mpr rfl)

/-- Behind lines that stay the answering goes on. -/
theorem Answers.append_of_stay (h : Answers e lines responses)
    (hstay : ∀ line ∈ lines, ¬ Leaves line) (hmore : Answers e more responses') :
    Answers e (lines ++ more) (responses ++ responses') := by
  induction h with
  | ended => exact hmore
  | left hleave => exact absurd hleave (hstay _ List.mem_cons_self)
  | answered h hresponds _ ih =>
    exact .answered h hresponds (ih fun line hline => hstay line (List.mem_cons_of_mem _ hline))

/-- Behind the first sign each response is followed by one. -/
theorem join_signs (responses : List String) :
    String.join (responses.map fun r => sign ++ r ++ "\n") ++ sign =
      sign ++ String.join (responses.map fun r => r ++ "\n" ++ sign) := by
  induction responses with
  | nil => simp
  | cons r rs ih =>
    simp only [List.map_cons, String.join_cons]
    rw [String.append_assoc, ih]
    simp only [String.append_assoc]

theorem output_of_answers_cut {bytes : List UInt8} (h : Answers e (Lines.cut bytes) responses) :
    output e bytes =
      banner ++ "\n" ++ sign ++ String.join (responses.map fun r => r ++ "\n" ++ sign) := by
  rw [output_of_answers (Lines.pieces_cut bytes) h, String.append_assoc, join_signs,
    String.append_assoc, String.append_assoc, String.append_assoc]

/-- What is printed behind lines that stay, told from the answers to what follows. -/
theorem output_append {after : List UInt8} (hfront : Waits front)
    (hafter : Answers e (Lines.cut after) responses) :
    output e (front ++ after) =
      output e front ++ String.join (responses.map fun r => r ++ "\n" ++ sign) := by
  obtain ⟨hlast, hstay⟩ := hfront
  have hbefore := answers_responsesTo e (Lines.cut front)
  have hall := hbefore.append_of_stay hstay hafter
  rw [← Lines.cut_append hlast] at hall
  rw [output_of_answers_cut hall, output_of_answers_cut hbefore, List.map_append,
    String.join_append, ← String.append_assoc]

theorem encode_ne_nil (h : Asks line) : Lines.encode line ≠ [] := by
  intro hnil
  have hempty : line = "" := by
    have hdecode := Lines.decodeLine_encode line
    rw [hnil] at hdecode
    exact (Option.some.inj hdecode).symm
  obtain ⟨trimmed, htrim, hne, -⟩ := h
  rw [trimsTo_iff, hempty] at htrim
  exact hne htrim.symm

theorem answers_last_line (hline : OneLine line) (hasks : Asks line)
    (hlength : line.length ≤ e.settings.maxLength) :
    Answers e (Lines.cut (Lines.encode line))
      [(e.evaluate line).render e.settings.separators] := by
  rw [Lines.cut_last (encode_ne_nil hasks) (Lines.newline_not_mem_encode hline)]
  exact .answered (not_leaves_encode hasks) (responds_encode hlength rfl) .ended

theorem answers_line {rest : List UInt8} (hline : OneLine line) (hasks : Asks line)
    (hlength : line.length ≤ e.settings.maxLength) (hrest : Answers e (Lines.cut rest) responses) :
    Answers e (Lines.cut (Lines.encode line ++ Lines.newline :: rest))
      ((e.evaluate line).render e.settings.separators :: responses) := by
  have hwhole : Lines.encode line ++ [Lines.newline] = Lines.encode (line ++ "\n") := by
    rw [Lines.encode_append]
    rfl
  rw [Lines.cut_line (Lines.newline_not_mem_encode hline), hwhole]
  exact .answered (not_leaves_encode hasks.newline)
    (responds_encode hlength (trimBlanks_newline line)) hrest

/-- A line of a session is answered with what its words give on the command line, and the
session goes on with what follows as if it began there. Blanks at the ends of an input, up to
its greatest length, change nothing about its outcome. -/
theorem the_front_ends_give_one_answer (e : Evaluator) :
    (∀ line words, Program.joinWords words = line → OneLine line →
      line.length ≤ e.settings.maxLength → Asks line → ∀ front, Waits front →
        output e (front ++ Lines.encode line) =
          output e front ++ (Program.oneShot e words).output ++ sign ∧
        ∀ rest, ∃ printed, output e rest = banner ++ "\n" ++ sign ++ printed ∧
          output e (front ++ (Lines.encode line ++ Lines.newline :: rest)) =
            output e front ++ (Program.oneShot e words).output ++ sign ++ printed) ∧
    ∀ b text b', Expression.AllBlank b → Expression.AllBlank b' →
      (b ++ (text ++ b')).length ≤ e.settings.maxLength →
        e.evaluate (String.ofList (b ++ (text ++ b'))) = e.evaluate (String.ofList text) := by
  refine ⟨?_, ?_⟩
  · rintro line words rfl hline hlength hasks front hfront
    have houtput : (Program.oneShot e words).output =
        (e.evaluate (Program.joinWords words)).render e.settings.separators ++ "\n" := rfl
    rw [houtput]
    refine ⟨?_, ?_⟩
    · rw [output_append hfront (answers_last_line hline hasks hlength)]
      simp [String.append_assoc]
    · intro rest
      have hrest := answers_responsesTo e (Lines.cut rest)
      refine ⟨_, output_of_answers_cut hrest, ?_⟩
      rw [output_append hfront (answers_line hline hasks hlength hrest)]
      simp [String.append_assoc]
  · intro b text b' hb hb' hlength
    apply Evaluator.evaluate_of_trim_eq
    · rw [String.toList_ofList, String.toList_ofList, Expression.trimBlanks_surround hb hb']
    · rwa [String.length_ofList]
    · simp only [List.length_append] at hlength
      rw [String.length_ofList]
      omega

/-- Behind the line `2*2`, the line ` 1/3 ` is answered as the words `1/3` between empty ones are. -/
theorem the_front_ends_on_a_quotient_between_blanks :
    Program.joinWords ["", "1/3", ""] = " 1/3 " ∧ OneLine " 1/3 " ∧
      " 1/3 ".length ≤ Evaluator.standard.settings.maxLength ∧ Asks " 1/3 " ∧
      Waits (Lines.encode "2*2\n") ∧
      output Evaluator.standard (Lines.encode "2*2\n" ++ Lines.encode " 1/3 ") =
        output Evaluator.standard (Lines.encode "2*2\n") ++ "0.3333\n" ++ sign ∧
      Evaluator.standard.evaluate " 1/3\t" = Evaluator.standard.evaluate "1/3" := by
  have hline : OneLine " 1/3 " := by decide
  have hlength : " 1/3 ".length ≤ Evaluator.standard.settings.maxLength := by decide
  have hasks : Asks " 1/3 " :=
    ⟨"1/3".toList, trimsTo_iff.mpr (by decide), by decide, by decide, by decide⟩
  have hfront : Waits (Lines.encode "2*2\n") := by
    simp only [Waits, ← isLeave_reply_iff (e := Evaluator.standard)]
    decide +kernel
  obtain ⟨hlines, hblanks⟩ := the_front_ends_give_one_answer Evaluator.standard
  obtain ⟨houtput, -⟩ := hlines " 1/3 " ["", "1/3", ""] rfl hline hlength hasks _ hfront
  refine ⟨rfl, hline, hlength, hasks, hfront, ?_, ?_⟩
  · rw [houtput, show (Program.oneShot Evaluator.standard ["", "1/3", ""]).output = "0.3333\n" by
      decide +kernel]
  · exact hblanks [' '] "1/3".toList ['\t'] (Expression.allBlank_singleton rfl)
      (Expression.allBlank_singleton rfl) (by decide)

end Prompt

end Reckoner
