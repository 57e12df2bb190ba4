-- The laws of separators. The two characters inside numerals are names and nothing more: a
-- text that is written with two others has the same outcome under settings with those. The
-- law goes stage by stage, from single characters to whole evaluations.
import Reckoner.Proofs.ReadBack
import Reckoner.Proofs.Rejections

namespace Reckoner

/-! ## Characters -/

namespace Separators

variable {s s' : Separators} {c : Char}

/-- The character has a meaning of its own in an expression, or is one of the separators. -/
def Admits (s : Separators) (c : Char) : Prop := clashes c = true ∨ c = s.point ∨ c = s.grouping

instance (s : Separators) (c : Char) : Decidable (s.Admits c) :=
  inferInstanceAs (Decidable (_ ∨ _ ∨ _))

/-- What stands for a character once the separators of `s` are those of `s'`. -/
def exchange (s s' : Separators) (c : Char) : Char :=
  if c = s.point then s'.point else if c = s.grouping then s'.grouping else c

/-- Two different characters without another meaning. -/
structure Clear (s : Separators) : Prop where
  point : clashes s.point = false
  grouping : clashes s.grouping = false
  distinct : s.point ≠ s.grouping

theorem exchange_point : s.exchange s' s.point = s'.point := if_pos rfl

theorem exchange_of_other (hpoint : c ≠ s.point) (hgrouping : c ≠ s.grouping) :
    s.exchange s' c = c := by
  rw [exchange, if_neg hpoint, if_neg hgrouping]

namespace Clear

theorem exchange_grouping (h : s.Clear) : s.exchange s' s.grouping = s'.grouping := by
  rw [exchange, if_neg h.distinct.symm, if_pos rfl]

/-- What has a meaning of its own stays as it is. -/
theorem exchange_of_clashes (h : s.Clear) (hc : clashes c = true) : s.exchange s' c = c := by
  apply exchange_of_other
  · rintro rfl
    rw [h.point] at hc
    cases hc
  · rintro rfl
    rw [h.grouping] at hc
    cases hc

theorem admits_exchange (h : s.Clear) (hc : s.Admits c) : s'.Admits (s.exchange s' c) := by
  rcases hc with hc | rfl | rfl
  · rw [h.exchange_of_clashes hc]
    exact Or.inl hc
  · exact Or.inr (Or.inl exchange_point)
  · exact Or.inr (Or.inr h.exchange_grouping)

/-- Nothing is lost: with the separators the other way round it comes back. -/
theorem exchange_back (h : s.Clear) (h' : s'.Clear) (hc : s.Admits c) :
    s'.exchange s (s.exchange s' c) = c := by
  rcases hc with hc | rfl | rfl
  · rw [h.exchange_of_clashes hc, h'.exchange_of_clashes hc]
  · rw [exchange_point, exchange_point]
  · rw [h.exchange_grouping, h'.exchange_grouping]

theorem exchange_eq_point_iff (h : s.Clear) (h' : s'.Clear) (hc : s.Admits c) :
    s.exchange s' c = s'.point ↔ c = s.point := by
  refine ⟨?_, ?_⟩
  · intro heq
    rw [← h.exchange_back h' hc, heq, exchange_point]
  · rintro rfl
    exact exchange_point

theorem exchange_eq_grouping_iff (h : s.Clear) (h' : s'.Clear) (hc : s.Admits c) :
    s.exchange s' c = s'.grouping ↔ c = s.grouping := by
  refine ⟨?_, ?_⟩
  · intro heq
    rw [← h.exchange_back h' hc, heq, h'.exchange_grouping]
  · rintro rfl
    exact h.exchange_grouping

end Clear

/-! ## Texts -/

def AdmitsAll (s : Separators) (cs : List Char) : Prop := ∀ c ∈ cs, s.Admits c

instance (s : Separators) (cs : List Char) : Decidable (s.AdmitsAll cs) :=
  List.decidableBAll s.Admits cs

variable {cs : List Char}

theorem Clear.admitsAll_exchange (h : s.Clear) (hcs : s.AdmitsAll cs) :
    s'.AdmitsAll (cs.map (s.exchange s')) := by
  intro c hc
  obtain ⟨d, hd, rfl⟩ := List.mem_map.mp hc
  exact h.admits_exchange (hcs d hd)

theorem Clear.map_exchange_back (h : s.Clear) (h' : s'.Clear) (hcs : s.AdmitsAll cs) :
    (cs.map (s.exchange s')).map (s'.exchange s) = cs := by
  rw [List.map_map]
  exact map_eq_of_keeps fun c hc => h.exchange_back h' (hcs c hc)

theorem Clear.grouping_mem_exchange_iff (h : s.Clear) (h' : s'.Clear) (hcs : s.AdmitsAll cs) :
    s'.grouping ∈ cs.map (s.exchange s') ↔ s.grouping ∈ cs := by
  rw [List.mem_map]
  refine ⟨?_, fun hmem => ⟨_, hmem, h.exchange_grouping⟩⟩
  rintro ⟨c, hc, heq⟩
  rw [h.exchange_eq_grouping_iff h' (hcs c hc)] at heq
  exact heq ▸ hc

/-- The first point of the text stays where it is. -/
theorem Clear.dropWhile_exchange (h : s.Clear) (h' : s'.Clear) (hcs : s.AdmitsAll cs) :
    (cs.map (s.exchange s')).dropWhile (· != s'.point) =
      (cs.dropWhile (· != s.point)).map (s.exchange s') := by
  induction cs with
  | nil => rfl
  | cons c cs ih =>
    have hrest : s.AdmitsAll cs := fun d hd => hcs d (List.mem_cons_of_mem c hd)
    have hpoint := h.exchange_eq_point_iff h' (hcs c List.mem_cons_self)
    rw [List.map_cons, List.dropWhile_cons, List.dropWhile_cons]
    by_cases hc : c = s.point
    · simp [hc, exchange_point]
    · rw [if_pos (bne_iff_ne.mpr (mt hpoint.mp hc)), if_pos (bne_iff_ne.mpr hc), ih hrest]

end Separators

def Settings.withSeparators (settings : Settings) (s' : Separators) : Settings :=
  { settings with separators := s' }

theorem Settings.Valid.clear {settings : Settings} (h : settings.Valid) :
    settings.separators.Clear := by
  obtain ⟨-, -, -, -, hne, hpoint, hgrouping⟩ := valid_iff.mp h
  exact ⟨hpoint, hgrouping, hne⟩

theorem Settings.Valid.clear_withSeparators {settings : Settings} {s' : Separators}
    (h : (settings.withSeparators s').Valid) : s'.Clear := h.clear

/-! ## Faults -/

/-- The fault that tells `point` where it tells a point. -/
def OperandFault.withPoint (point : Char) : OperandFault → OperandFault
  | groupingSeparator _ => groupingSeparator point
  | fault => fault

def EvaluationFault.withPoint (point : Char) : EvaluationFault → EvaluationFault
  | malformed _ => malformed point
  | operand fault => operand (fault.withPoint point)
  | fault => fault

def Rejection.withPoint (point : Char) (r : Rejection) : Rejection :=
  ⟨r.stage, r.fault.withPoint point⟩

def Outcome.withPoint (point : Char) : Outcome → Outcome
  | success value => success value
  | failure fault => failure (fault.withPoint point)

/-! ## Operands -/

namespace Operand

variable {settings : Settings} {s' : Separators} {cs : List Char}

theorem fractionFault?_exchange (h : settings.separators.Clear) (h' : s'.Clear)
    (hcs : settings.separators.AdmitsAll cs) :
    fractionFault? (settings.withSeparators s') (cs.map (settings.separators.exchange s')) =
      fractionFault? settings cs := by
  unfold fractionFault? Settings.withSeparators
  dsimp only
  rw [h.dropWhile_exchange h' hcs]
  cases cs.dropWhile (· != settings.separators.point) with
  | nil => rfl
  | cons c fraction => simp

theorem withPoint_of_fractionFault? {point : Char} {fault : OperandFault}
    (h : fractionFault? settings cs = some fault) : fault.withPoint point = fault := by
  unfold fractionFault? at h
  split at h
  · cases h
  · split at h
    · cases h
      rfl
    · split at h <;> cases h
      rfl

theorem withPoint_ofFault (x : Except Fault Amount) (most : ℕ) (point : Char) :
    (x.mapError (OperandFault.ofFault most)).mapError (OperandFault.withPoint point) =
      x.mapError (OperandFault.ofFault most) := by
  cases x with
  | ok a => rfl
  | error fault => cases fault <;> rfl

/-- A full stop that is not the point is the grouping character, or not admitted at all. -/
theorem withFullStop?_of_admitsAll {s : Separators} (hcs : s.AdmitsAll cs)
    (hgrouping : s.grouping ∉ cs) :
    withFullStop? s.point cs = some (cs.map fun c => if c = s.point then '.' else c) := by
  unfold withFullStop?
  by_cases hstop : s.point = '.'
  · have hsame : cs.map (fun c => if c = s.point then '.' else c) = cs := by
      apply map_eq_of_keeps
      intro c _
      split
      · next hc => rw [hc, hstop]
      · rfl
    rw [if_pos hstop, hsame]
  · have hnot : '.' ∉ cs := by
      intro hmem
      rcases hcs '.' hmem with hclash | hpoint | hgroup
      · exact absurd hclash (by decide)
      · exact hstop hpoint.symm
      · exact hgrouping (hgroup ▸ hmem)
    rw [if_neg hstop, if_neg hnot]

/-- Both texts are the same one with full stops. -/
theorem map_fullStop_exchange {s : Separators} (h : s.Clear) (h' : s'.Clear) (hcs : s.AdmitsAll cs)
    (hgrouping : s.grouping ∉ cs) :
    (cs.map (s.exchange s')).map (fun c => if c = s'.point then '.' else c) =
      cs.map fun c => if c = s.point then '.' else c := by
  rw [List.map_map]
  apply List.map_congr_left
  intro c hc
  have hpoint := h.exchange_eq_point_iff h' (hcs c hc)
  rw [Function.comp_apply]
  by_cases hc' : c = s.point
  · rw [if_pos (hpoint.mpr hc'), if_pos hc']
  · have hother : c ≠ s.grouping := by
      rintro rfl
      exact hgrouping hc
    rw [if_neg (mt hpoint.mp hc'), if_neg hc', Separators.exchange_of_other hc' hother]

/-- A text is read as the same operand with either separators, or has the same fault. -/
theorem ofChars_exchange (h : settings.separators.Clear) (h' : s'.Clear)
    (hcs : settings.separators.AdmitsAll cs) :
    ofChars (settings.withSeparators s') (cs.map (settings.separators.exchange s')) =
      (ofChars settings cs).mapError (OperandFault.withPoint s'.point) := by
  unfold ofChars
  rw [fractionFault?_exchange h h' hcs]
  cases hfault : fractionFault? settings cs with
  | some fault => exact congrArg Except.error (withPoint_of_fractionFault? hfault).symm
  | none =>
    have hmem := h.grouping_mem_exchange_iff h' hcs
    by_cases hgrouping : settings.separators.grouping ∈ cs
    · rw [if_pos hgrouping]
      exact if_pos (hmem.mpr hgrouping)
    · have hgrouping' := mt hmem.mp hgrouping
      simp only [Settings.withSeparators, if_neg hgrouping, if_neg hgrouping',
        withFullStop?_of_admitsAll hcs hgrouping,
        withFullStop?_of_admitsAll (h.admitsAll_exchange hcs) hgrouping',
        map_fullStop_exchange h h' hcs hgrouping]
      exact (withPoint_ofFault _ _ _).symm

end Operand

/-! ## Expressions -/

namespace Expression

/-- The expression with the texts of its numbers written with other separators. -/
def exchange (s s' : Separators) (x : Expression) : Expression :=
  ⟨x.left.map (s.exchange s'), x.operator, x.right.map (s.exchange s')⟩

variable {s s' : Separators} {cs : List Char} {left right : Numeral} {operator : Operator}

theorem map_chars_exchange (h : s.Clear) (n : Numeral) :
    (n.chars s.point).map (s.exchange s') = n.chars s'.point := by
  rw [Numeral.map_chars_of_keeps fun c hc => h.exchange_of_clashes hc, Separators.exchange_point]

theorem exchange_ofNumerals (h : s.Clear) :
    (ofNumerals s.point left operator right).exchange s s' =
      ofNumerals s'.point left operator right := by
  have htext (n : Numeral) :
      (String.ofList (n.chars s.point)).map (s.exchange s') = String.ofList (n.chars s'.point) := by
    rw [← String.toList_inj, String.toList_map, String.toList_ofList, String.toList_ofList,
      map_chars_exchange h]
  rw [exchange, ofNumerals, htext, htext]
  rfl

theorem Cut.exchange (h : s.Clear) (hcut : Cut s.point cs left operator right) :
    Cut s'.point (cs.map (s.exchange s')) left operator right := by
  obtain ⟨_, _, _, h₁, h₂, h₃, h₄⟩ := hcut
  have hblank {b : List Char} (hb : AllBlank b) : b.map (s.exchange s') = b :=
    map_eq_of_keeps fun c hc =>
      h.exchange_of_clashes (Separators.clashes_of_isBlank (hb c hc))
  simp only [List.map_append, List.map_cons, hblank h₁, hblank h₂, hblank h₃, hblank h₄,
    map_chars_exchange h, h.exchange_of_clashes (Separators.clashes_symbol operator)]
  exact Cut.intro left operator right h₁ h₂ h₃ h₄

theorem cut_exchange_iff (h : s.Clear) (h' : s'.Clear) (hcs : s.AdmitsAll cs) :
    Cut s'.point (cs.map (s.exchange s')) left operator right ↔
      Cut s.point cs left operator right := by
  refine ⟨?_, fun hcut => hcut.exchange h⟩
  intro hcut
  have hback : Cut s.point ((cs.map (s.exchange s')).map (s'.exchange s)) left operator right :=
    hcut.exchange h'
  rwa [h.map_exchange_back h' hcs] at hback

end Expression

theorem Numeral.admitsAll_chars (s : Separators) (n : Numeral) : s.AdmitsAll (n.chars s.point) := by
  intro c hc
  rcases mem_chars hc with hdigit | ⟨sign, rfl⟩ | rfl
  · exact Or.inl (Separators.clashes_of_isDigit hdigit)
  · exact Or.inl (Separators.clashes_sign sign)
  · exact Or.inr (Or.inl rfl)

/-! ## Stages -/

namespace Settings

variable {settings : Settings} {s' : Separators} {input : String} {x : Expression}

theorem shapeFault_exchange (h : settings.separators.Clear) (h' : s'.Clear)
    (hinput : settings.separators.AdmitsAll input.toList) :
    (settings.withSeparators s').shapeFault (input.map (settings.separators.exchange s')) =
      (settings.shapeFault input).withPoint s'.point := by
  have hmem := h.grouping_mem_exchange_iff h' hinput
  unfold shapeFault
  rw [String.toList_map]
  by_cases hgrouping : settings.separators.grouping ∈ input.toList
  · rw [if_pos hgrouping]
    exact if_pos (hmem.mpr hgrouping)
  · rw [if_neg hgrouping]
    exact if_neg (mt hmem.mp hgrouping)

theorem parse_exchange (hvalid : settings.Valid) (hvalid' : (settings.withSeparators s').Valid)
    (hinput : settings.separators.AdmitsAll input.toList) :
    (settings.withSeparators s').parse (input.map (settings.separators.exchange s')) =
      ((settings.parse input).map (Expression.exchange settings.separators s')).mapError
        (EvaluationFault.withPoint s'.point) := by
  have hcut (left : Numeral) (operator : Operator) (right : Numeral) :
      Expression.Cut s'.point (input.map (settings.separators.exchange s')).toList
          left operator right ↔
        Expression.Cut settings.separators.point input.toList left operator right := by
    rw [String.toList_map]
    exact Expression.cut_exchange_iff hvalid.clear hvalid'.clear_withSeparators hinput
  by_cases hlong : settings.maxLength < input.length
  · have hlong' : (settings.withSeparators s').maxLength <
        (input.map (settings.separators.exchange s')).length := by
      rw [String.length_map]
      exact hlong
    rw [parse_of_longer hlong, parse_of_longer hlong']
    rfl
  · have hlength := not_lt.mp hlong
    have hlength' : (input.map (settings.separators.exchange s')).length ≤
        (settings.withSeparators s').maxLength := by
      rw [String.length_map]
      exact hlength
    by_cases hreads : ∃ left operator right,
        Expression.Cut settings.separators.point input.toList left operator right
    · obtain ⟨left, operator, right, hreads⟩ := hreads
      have hreads' := (hcut left operator right).mpr hreads
      rw [parse_of_cut hvalid hlength hreads, parse_of_cut hvalid' hlength' hreads',
        Except.map, Expression.exchange_ofNumerals hvalid.clear]
      rfl
    · have hnone : ¬ ∃ e, Expression.Reads settings.separators.point input.toList e := by
        rintro ⟨e, left, operator, right, hc, -⟩
        exact hreads ⟨left, operator, right, hc⟩
      have hnone' : ¬ ∃ e, Expression.Reads (settings.withSeparators s').separators.point
          (input.map (settings.separators.exchange s')).toList e := by
        rintro ⟨e, left, operator, right, hc, -⟩
        exact hreads ⟨left, operator, right, (hcut left operator right).mp hc⟩
      rw [parse_of_not_reads hlength hnone, parse_of_not_reads hlength' hnone',
        shapeFault_exchange hvalid.clear hvalid'.clear_withSeparators hinput]
      rfl

theorem operands_exchange (h : settings.separators.Clear) (h' : s'.Clear)
    (hleft : settings.separators.AdmitsAll x.left.toList)
    (hright : settings.separators.AdmitsAll x.right.toList) :
    (settings.withSeparators s').operands (x.exchange settings.separators s') =
      (settings.operands x).mapError (Rejection.withPoint s'.point) := by
  have htext {text : String} (hadmits : settings.separators.AdmitsAll text.toList) :
      Operand.ofText (settings.withSeparators s') (text.map (settings.separators.exchange s')) =
        (Operand.ofText settings text).mapError (OperandFault.withPoint s'.point) := by
    rw [Operand.ofText, String.toList_map, Operand.ofChars_exchange h h' hadmits, Operand.ofText]
  unfold operands Expression.exchange
  dsimp only
  rw [htext hleft, htext hright]
  generalize Operand.ofText settings x.left = l
  generalize Operand.ofText settings x.right = r
  cases l with
  | ok a =>
    cases r with
    | ok b => rfl
    | error fault => cases fault <;> rfl
  | error fault =>
    cases r with
    | ok b => cases fault <;> rfl
    | error fault' => cases fault <;> cases fault' <;> rfl

/-- The stage that finds a fault of the shape does not look at the point. -/
theorem parseStage_withPoint (point : Char) (fault : EvaluationFault) :
    parseStage (fault.withPoint point) = parseStage fault := by
  cases fault <;> rfl

theorem accept_exchange (hvalid : settings.Valid) (hvalid' : (settings.withSeparators s').Valid)
    (hinput : settings.separators.AdmitsAll input.toList) :
    (settings.withSeparators s').accept (input.map (settings.separators.exchange s')) =
      (settings.accept input).mapError (Rejection.withPoint s'.point) := by
  have hparse' := parse_exchange hvalid hvalid' hinput
  cases hparse : settings.parse input with
  | error fault =>
    rw [hparse] at hparse'
    rw [accept_of_parse_error hparse, accept_of_parse_error hparse', parseStage_withPoint]
    rfl
  | ok x =>
    rw [hparse] at hparse'
    have hadmits : settings.separators.AdmitsAll x.left.toList ∧
        settings.separators.AdmitsAll x.right.toList := by
      obtain ⟨left, operator, right, rfl⟩ := exists_numerals_of_parse hparse
      simp only [Expression.ofNumerals, String.toList_ofList]
      exact ⟨left.admitsAll_chars _, right.admitsAll_chars _⟩
    have hoperands' :=
      operands_exchange hvalid.clear hvalid'.clear_withSeparators hadmits.1 hadmits.2
    cases hoperands : settings.operands x with
    | error rejection =>
      rw [hoperands] at hoperands'
      rw [accept_of_operands_error hparse hoperands, accept_of_operands_error hparse' hoperands']
      rfl
    | ok o =>
      rw [hoperands] at hoperands'
      rw [accept_of_operands_ok hparse hoperands, accept_of_operands_ok hparse' hoperands']
      by_cases hrange : |o.left.value| ≤ settings.operandBound ∧
          |o.right.value| ≤ settings.operandBound
      · rw [if_pos hrange]
        exact if_pos hrange
      · rw [if_neg hrange]
        exact if_neg hrange

/-- Behind the operands nothing looks at a separator. -/
theorem finish_withSeparators (o : Operation) :
    (settings.withSeparators s').finish o = settings.finish o := rfl

theorem Fails.withPoint {o : Operation} {rejection : Rejection} {point : Char}
    (h : Fails settings o rejection) : rejection.withPoint point = rejection := by
  cases h <;> rfl

end Settings

/-- Two evaluators that differ in their separators give the same outcome to the same text,
where each has its own separators in it. Only the faults that tell the point tell the other
one. What holds of the whole input holds of the text of an operand, whether a full stop is
the point there or has to be put in its place. -/
theorem separators_are_names (e e' : Evaluator) {s' : Separators}
    (h : e'.settings = e.settings.withSeparators s') (text : String)
    (htext : ∀ c ∈ text.toList, e.settings.separators.Admits c) :
    e'.evaluate (text.map (e.settings.separators.exchange s')) =
        (e.evaluate text).withPoint s'.point ∧
      Operand.ofText e'.settings (text.map (e.settings.separators.exchange s')) =
        (Operand.ofText e.settings text).mapError (OperandFault.withPoint s'.point) := by
  have hvalid' : (e.settings.withSeparators s').Valid := h ▸ e'.valid
  refine ⟨?_, ?_⟩
  · have haccept' := Settings.accept_exchange e.valid hvalid' htext
    rw [← h] at haccept'
    cases haccept : e.settings.accept text with
    | error rejection =>
      rw [haccept] at haccept'
      rw [Evaluator.evaluate_of_reject haccept, Evaluator.evaluate_of_reject haccept']
      rfl
    | ok o =>
      rw [haccept] at haccept'
      have hfinish' : e'.settings.finish o = e.settings.finish o := by
        rw [h, Settings.finish_withSeparators]
      cases hfinish : e.settings.finish o with
      | error rejection =>
        have hsame : rejection.withPoint s'.point = rejection :=
          (Settings.fails_of_finish e.valid hfinish).withPoint
        rw [Evaluator.evaluate_of_no_value haccept hfinish,
          Evaluator.evaluate_of_no_value haccept' (hfinish'.trans hfinish)]
        exact congrArg (Outcome.failure ·.fault) hsame.symm
      | ok a =>
        rw [Evaluator.evaluate_of_value haccept hfinish,
          Evaluator.evaluate_of_value haccept' (hfinish'.trans hfinish)]
        rfl
  · rw [h, Operand.ofText, String.toList_map,
      Operand.ofChars_exchange e.valid.clear hvalid'.clear_withSeparators htext, Operand.ofText]

/-- The settings of `Evaluator.withComma` with the two characters the other way round. -/
def Evaluator.withFullStop : Evaluator := ⟨withComma.settings.withSeparators .standard, rfl⟩

/-- A point of one evaluator is the grouping character of the other one. -/
theorem separators_are_names_in_both_places :
    (Evaluator.withComma.evaluate "1,5 + 2" = .success ⟨35000, by decide⟩ ∧
      Evaluator.withFullStop.evaluate "1.5 + 2" = .success ⟨35000, by decide⟩) ∧
    Evaluator.withComma.evaluate "1.5 + 2" = .failure (.operand (.groupingSeparator ',')) ∧
      Evaluator.withFullStop.evaluate "1,5 + 2" = .failure (.operand (.groupingSeparator '.')) := by
  have hvalue : Evaluator.withComma.evaluate "1,5 + 2" = .success ⟨35000, by decide⟩ := by
    decide +kernel
  have hfault : Evaluator.withComma.evaluate "1.5 + 2" =
      .failure (.operand (.groupingSeparator ',')) := by
    decide +kernel
  have hcomma : "1,5 + 2".map (Separators.exchange ⟨',', '.'⟩ .standard) = "1.5 + 2" := by
    rw [← String.toList_inj, String.toList_map]
    decide +kernel
  have hstop : "1.5 + 2".map (Separators.exchange ⟨',', '.'⟩ .standard) = "1,5 + 2" := by
    rw [← String.toList_inj, String.toList_map]
    decide +kernel
  have hlaw (text : String) :=
    separators_are_names Evaluator.withComma Evaluator.withFullStop rfl text
  have hadmits : Separators.AdmitsAll ⟨',', '.'⟩ "1,5 + 2".toList := by decide +kernel
  have hadmits' : Separators.AdmitsAll ⟨',', '.'⟩ "1.5 + 2".toList := by decide +kernel
  have hvalue' := (hlaw "1,5 + 2" hadmits).1
  have hfault' := (hlaw "1.5 + 2" hadmits').1
  rw [hvalue] at hvalue'
  rw [hfault] at hfault'
  exact ⟨⟨hvalue, hcomma ▸ hvalue'⟩, hfault, hstop ▸ hfault'⟩

end Reckoner
