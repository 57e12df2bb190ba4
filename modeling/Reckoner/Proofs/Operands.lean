-- The laws of operands. Five looks at a text, each of which sees a part of it, together accept
-- the numerals with few enough digits and a size that an amount holds, and nothing else.
import Reckoner.Proofs.Assembly

namespace Reckoner

/-! ## Full stops and points -/

/-- A point for a full stop. -/
def pointForStop (point c : Char) : Char := if c = '.' then point else c

theorem pointForStop_of_clashes {point c : Char} (h : Separators.clashes c = true) :
    pointForStop point c = c := by
  apply if_neg
  rintro rfl
  exact absurd h (by decide)

theorem map_pointForStop_chars (point : Char) (n : Numeral) :
    (n.chars '.').map (pointForStop point) = n.chars point := by
  rw [Numeral.map_chars_of_keeps fun _ => pointForStop_of_clashes]
  exact congrArg n.chars (if_pos rfl)

theorem map_pointForStop {point : Char} {cs : List Char} (hstop : '.' ∉ cs) :
    (cs.map fun c => if c = point then '.' else c).map (pointForStop point) = cs := by
  rw [List.map_map]
  apply map_eq_of_keeps
  intro c hc
  by_cases hpoint : c = point
  · simp [pointForStop, hpoint]
  · have hne : c ≠ '.' := fun h => hstop (h ▸ hc)
    simp [pointForStop, hpoint, hne]

namespace Operand

variable {settings : Settings} {cs : List Char} {n : Numeral} {t : String}

/-- A text that is a numeral once it has full stops for its points is one as it stands. -/
theorem chars_of_withFullStop? {point : Char} {cs' : List Char}
    (h : withFullStop? point cs = some cs') (hchars : n.chars '.' = cs') : n.chars point = cs := by
  unfold withFullStop? at h
  split at h
  · next hpoint => rw [hpoint, hchars, Option.some.inj h]
  · split at h
    · cases h
    · next hstop =>
      rw [← map_pointForStop_chars, hchars, ← Option.some.inj h, map_pointForStop hstop]

/-! ## Texts without a numeral -/

theorem fault_of_fractionFault? {fault : OperandFault}
    (h : fractionFault? settings cs = some fault) :
    fault = .missingFractionDigits ∨ fault = .tooManyFractionDigits settings.fractionDigits := by
  unfold fractionFault? at h
  split at h
  · cases h
  · split at h
    · exact Or.inl (Option.some.inj h).symm
    · split at h
      · exact Or.inr (Option.some.inj h).symm
      · cases h

/-- The faults of a text that is no operand, whatever its size. -/
def formFaults (settings : Settings) : List OperandFault :=
  [.missingFractionDigits, .tooManyFractionDigits settings.fractionDigits,
    .groupingSeparator settings.separators.point, .unparsable]

theorem ofChars_of_no_numeral (h : ¬ ∃ n : Numeral, n.chars settings.separators.point = cs) :
    ∃ fault ∈ formFaults settings, ofChars settings cs = .error fault := by
  unfold ofChars
  cases hfraction : fractionFault? settings cs with
  | some fault =>
    refine ⟨fault, ?_, rfl⟩
    rcases fault_of_fractionFault? hfraction with rfl | rfl
    · simp [formFaults]
    · simp [formFaults]
  | none =>
    by_cases hgrouping : settings.separators.grouping ∈ cs
    · exact ⟨_, by simp [formFaults], if_pos hgrouping⟩
    · refine ⟨.unparsable, by simp [formFaults], ?_⟩
      simp only [if_neg hgrouping]
      cases hstop : withFullStop? settings.separators.point cs with
      | none => rfl
      | some cs' =>
        have hread : Numeral.read? '.' cs' = none := by
          rw [Option.eq_none_iff_forall_ne_some]
          intro n hn
          exact h ⟨n, chars_of_withFullStop? hstop (Numeral.chars_of_read? hn)⟩
        simp only [Fixed.ofChars, hread]
        rfl

/-! ## The form of an operand -/

/-- The text is a numeral with no more digits behind its point than an operand may have. -/
structure Form (settings : Settings) (t : String) (n : Numeral) : Prop where
  chars : n.chars settings.separators.point = t.toList
  digits : n.fraction.length ≤ settings.fractionDigits

theorem Form.ofText_cases (hvalid : settings.Valid) (h : Form settings t n) :
    (Cell.greatest < n.size * 10 ^ 4 ∧ ofText settings t = .error .tooLarge) ∨
      n.size * 10 ^ 4 ≤ Cell.greatest ∧
        ∃ a, ofText settings t = .ok a ∧ (a.raw : ℚ) = n.value * 10 ^ 4 := by
  obtain ⟨-, hfour, -⟩ := Settings.valid_iff.mp hvalid
  have hdigits : n.fraction.length ≤ amountScale.val := le_trans h.digits hfour
  have htext : ofText settings t =
      (Fixed.ofNumeral amountScale n).mapError (OperandFault.ofFault settings.fractionDigits) := by
    rw [ofText, ← h.chars, ofChars_chars hvalid, if_neg (not_lt.mpr h.digits)]
  by_cases hsize : n.size * 10 ^ 4 ≤ Cell.greatest
  · obtain ⟨a, hread, hraw⟩ := Fixed.exists_ofNumeral hdigits hsize
    exact Or.inr ⟨hsize, a, by rw [htext, hread]; rfl, hraw⟩
  · have hlarge := not_le.mp hsize
    have hread := Fixed.ofNumeral_eq_overflow_iff.mpr ⟨hdigits, hlarge⟩
    exact Or.inl ⟨hlarge, by rw [htext, hread]; rfl⟩

/-- A text of another form is no numeral at all, or one with too many digits. -/
theorem ofText_of_no_form (hvalid : settings.Valid) (h : ¬ ∃ n, Form settings t n) :
    ∃ fault ∈ formFaults settings, ofText settings t = .error fault := by
  by_cases hnumeral : ∃ n : Numeral, n.chars settings.separators.point = t.toList
  · obtain ⟨n, hn⟩ := hnumeral
    have hmany : settings.fractionDigits < n.fraction.length := by
      by_contra hfew
      exact h ⟨n, hn, not_lt.mp hfew⟩
    refine ⟨.tooManyFractionDigits settings.fractionDigits, by simp [formFaults], ?_⟩
    rw [ofText, ← hn, ofChars_chars hvalid, if_pos hmany]
  · exact ofChars_of_no_numeral hnumeral

theorem exists_form (hvalid : settings.Valid)
    (h : ∀ fault ∈ formFaults settings, ofText settings t ≠ .error fault) :
    ∃ n, Form settings t n := by
  by_contra hnone
  obtain ⟨fault, hmem, hfault⟩ := ofText_of_no_form hvalid hnone
  exact h fault hmem hfault

theorem ofText_eq_ok_iff (hvalid : settings.Valid) {a : Amount} :
    ofText settings t = .ok a ↔ ∃ n, Form settings t n ∧ n.size * 10 ^ 4 ≤ Cell.greatest ∧
      (a.raw : ℚ) = n.value * 10 ^ 4 := by
  refine ⟨?_, ?_⟩
  · intro h
    obtain ⟨n, hform⟩ := exists_form (t := t) hvalid (by simp [h])
    rcases hform.ofText_cases hvalid with ⟨-, hlarge⟩ | ⟨hsize, b, hread, hraw⟩
    · cases h.symm.trans hlarge
    · cases h.symm.trans hread
      exact ⟨n, hform, hsize, hraw⟩
  · rintro ⟨n, hform, hsize, hraw⟩
    rcases hform.ofText_cases hvalid with ⟨hlarge, -⟩ | ⟨-, b, hread, hraw'⟩
    · exact absurd hsize hlarge.not_ge
    · have hsame : a.raw = b.raw := by exact_mod_cast hraw.trans hraw'.symm
      rw [hread, Fixed.ext hsame]

theorem ofText_eq_tooLarge_iff (hvalid : settings.Valid) : ofText settings t = .error .tooLarge ↔
    ∃ n, Form settings t n ∧ Cell.greatest < n.size * 10 ^ 4 := by
  refine ⟨?_, ?_⟩
  · intro h
    obtain ⟨n, hform⟩ := exists_form (t := t) hvalid (by simp [h, formFaults])
    rcases hform.ofText_cases hvalid with ⟨hlarge, -⟩ | ⟨-, b, hread, -⟩
    · exact ⟨n, hform, hlarge⟩
    · cases h.symm.trans hread
  · rintro ⟨n, hform, hlarge⟩
    rcases hform.ofText_cases hvalid with ⟨-, hread⟩ | ⟨hsize, -⟩
    · exact hread
    · exact absurd hsize hlarge.not_ge

end Operand

/-- A text is read as an operand exactly when it is a numeral with few enough digits behind its
point, and with a size that an amount holds; the amount is then the number that it writes. It is
too large exactly when only the size is at fault, and any other text has a fault of its form. -/
theorem an_operand_is_read_by_its_form_and_its_size (e : Evaluator) (t : String) :
    (∀ a, Operand.ofText e.settings t = .ok a ↔
      ∃ n, Operand.Form e.settings t n ∧ n.size * 10 ^ 4 ≤ Cell.greatest ∧
        (a.raw : ℚ) = n.value * 10 ^ 4) ∧
    (Operand.ofText e.settings t = .error .tooLarge ↔
      ∃ n, Operand.Form e.settings t n ∧ Cell.greatest < n.size * 10 ^ 4) ∧
    ((¬ ∃ n, Operand.Form e.settings t n) →
      ∃ fault ∈ [.missingFractionDigits, .tooManyFractionDigits e.settings.fractionDigits,
          .groupingSeparator e.settings.separators.point, .unparsable],
        Operand.ofText e.settings t = .error fault) :=
  ⟨fun _ => Operand.ofText_eq_ok_iff e.valid, Operand.ofText_eq_tooLarge_iff e.valid,
    Operand.ofText_of_no_form e.valid⟩

/-- The last operand that an amount holds, the one behind it, and a text with a point too many. -/
theorem an_operand_is_read_up_to_the_greatest_amount :
    Operand.ofText Evaluator.withComma.settings "-17014118346046923173168730371588410,57" =
        .ok ⟨-170141183460469231731687303715884105700, by decide⟩ ∧
      (∃ n, Operand.Form Evaluator.withComma.settings "-17014118346046923173168730371588410,57" n ∧
        ((-170141183460469231731687303715884105700 : ℤ) : ℚ) = n.value * 10 ^ 4) ∧
      Operand.ofText Evaluator.withComma.settings "-17014118346046923173168730371588410,58" =
        .error .tooLarge ∧
      (∃ n, Operand.Form Evaluator.withComma.settings "-17014118346046923173168730371588410,58" n ∧
        Cell.greatest < n.size * 10 ^ 4) ∧
      (¬ ∃ n, Operand.Form Evaluator.withComma.settings "1,2," n) ∧
      ∃ fault ∈ [.missingFractionDigits, .tooManyFractionDigits 2, .groupingSeparator ',',
          .unparsable], Operand.ofText Evaluator.withComma.settings "1,2," = .error fault := by
  have hlast : Operand.ofText Evaluator.withComma.settings
      "-17014118346046923173168730371588410,57" =
        .ok ⟨-170141183460469231731687303715884105700, by decide⟩ := by
    decide +kernel
  have hbehind : Operand.ofText Evaluator.withComma.settings
      "-17014118346046923173168730371588410,58" = .error .tooLarge := by
    decide +kernel
  have hnone : ¬ ∃ n, Operand.Form Evaluator.withComma.settings "1,2," n := by
    rintro ⟨n, hn⟩
    have hread := @Numeral.read?_chars ',' (by decide) n
    have hunread : Numeral.read? ',' "1,2,".toList = none := by decide +kernel
    have hchars : n.chars ',' = "1,2,".toList := hn.chars
    rw [hchars, hunread] at hread
    cases hread
  obtain ⟨n, hform, -, hraw⟩ :=
    ((an_operand_is_read_by_its_form_and_its_size Evaluator.withComma _).1 _).mp hlast
  exact ⟨hlast, ⟨n, hform, hraw⟩, hbehind,
    (an_operand_is_read_by_its_form_and_its_size Evaluator.withComma _).2.1.mp hbehind, hnone,
    (an_operand_is_read_by_its_form_and_its_size Evaluator.withComma _).2.2 hnone⟩

end Reckoner
