-- The laws of blanks. An expression with one blank on each side of its operator is read as
-- itself, even where the point is a blank, a digit or an operator: behind the left number
-- stand two different characters that are no digits, and a numeral has one point.
import Reckoner.Proofs.Cuts

namespace Reckoner

/-! ## The end of a numeral -/

namespace Numeral

variable {point c : Char} {n n' : Numeral} {operator : Operator} {rest rest' : List Char}

theorem mem_tail_chars (h : c ∈ (n.chars point).tail) : c.isDigit = true ∨ c = point := by
  obtain ⟨d, ds, hwhole⟩ := List.exists_cons_of_ne_nil n.whole_run.1
  have hmem : c ∈ n.whole ++ n.tailChars point := by
    have hchars : n.chars point =
        (n.sign.map Sign.char).toList ++ (n.whole ++ n.tailChars point) := by
      rw [chars, tailChars, List.append_assoc]
    rw [hchars] at h
    cases hsign : n.sign with
    | none =>
      rw [hsign] at h
      exact List.mem_of_mem_tail h
    | some sign =>
      rw [hsign] at h
      exact h
  rcases List.mem_append.mp hmem with hc | hc
  · exact Or.inl (n.whole_run.2 c hc)
  · unfold tailChars at hc
    split at hc
    · cases hc
    · rcases List.mem_cons.mp hc with rfl | hc
      · exact Or.inr rfl
      · exact Or.inl (n.fraction_digits c hc)

/-- A blank and an operator behind a numeral end it, whatever the point is. -/
theorem length_chars_le_of_gap
    (h : n'.chars point ++ rest' = n.chars point ++ ' ' :: operator.symbol :: rest) :
    (n'.chars point).length ≤ (n.chars point).length := by
  rcases List.append_eq_append_iff.mp h with ⟨front, hlong, -⟩ | ⟨more, hshort, hmore⟩
  · rw [hlong, List.length_append]
    exact Nat.le_add_right _ _
  · cases more with
    | nil => rw [hshort, List.append_nil]
    | cons blank more =>
      rw [List.cons_append, List.cons.injEq] at hmore
      obtain ⟨rfl, hrest⟩ := hmore
      cases more with
      | nil =>
        -- The longer numeral would end with the blank.
        obtain ⟨-, c, hlast, hblank⟩ := @bare_chars point n'
        rw [hshort, List.getLast?_append] at hlast
        cases hlast
        cases hblank
      | cons symbol more =>
        -- The longer numeral would have the blank and the operator for its point.
        rw [List.cons_append, List.cons.injEq] at hrest
        obtain ⟨rfl, -⟩ := hrest
        have hne : n.chars point ≠ [] := by
          obtain ⟨⟨c, hfirst, -⟩, -⟩ := @bare_chars point n
          intro hnil
          rw [hnil] at hfirst
          cases hfirst
        have htail : (n'.chars point).tail =
            (n.chars point).tail ++ ' ' :: operator.symbol :: more := by
          rw [hshort, List.tail_append_of_ne_nil hne]
        have hblank : ' ' = point := by
          have hmem : ' ' ∈ (n'.chars point).tail := by simp [htail]
          exact (mem_tail_chars hmem).resolve_left (by decide)
        have hsymbol : operator.symbol = point := by
          have hmem : operator.symbol ∈ (n'.chars point).tail := by simp [htail]
          exact (mem_tail_chars hmem).resolve_left (by simp [isDigit_symbol])
        have hfalse := isBlank_symbol operator
        rw [hsymbol, ← hblank] at hfalse
        cases hfalse

end Numeral

/-! ## Expressions written anew -/

namespace Expression

variable {point : Char} {left right : Numeral} {operator : Operator}

theorem toList_text_ofNumerals : (ofNumerals point left operator right).text.toList =
    left.chars point ++ ' ' :: operator.symbol :: ' ' :: right.chars point := by
  simp [text, ofNumerals]

/-- Of all cuts of an expression with single blanks, its own has the longest left number. -/
theorem length_left_le_of_reads_text {e : Expression}
    (h : Reads point (ofNumerals point left operator right).text.toList e) :
    e.left.length ≤ (ofNumerals point left operator right).left.length := by
  obtain ⟨left', operator', right', hcut, rfl⟩ := h
  obtain ⟨rest, last, hfront, -, -⟩ := cut_iff.mp hcut
  have hbare : dropBlanks (ofNumerals point left operator right).text.toList =
      (ofNumerals point left operator right).text.toList := by
    have hnone : AllBlank [] := by simp [AllBlank]
    rw [toList_text_ofNumerals]
    exact dropBlanks_append hnone (left.bare_chars.head _)
  rw [hbare, toList_text_ofNumerals] at hfront
  rw [length_left_ofNumerals, length_left_ofNumerals]
  exact Numeral.length_chars_le_of_gap hfront.symm

end Expression

namespace Settings

/-- What was read from an input is read again from its text with single blanks, under all
settings. Only the length of that text can be in the way: an input without blanks is
shorter. -/
theorem single_blanks_change_nothing (settings : Settings) (input : String) (e : Expression)
    (h : settings.parse input = .ok e) :
    settings.parse e.text =
      if settings.maxLength < e.text.length then .error (.inputTooLong settings.maxLength)
      else .ok e := by
  obtain ⟨left, operator, right, rfl⟩ := exists_numerals_of_parse h
  split
  · next hlong => exact parse_of_longer hlong
  · next hshort =>
    rw [parse_eq_ok_iff (not_lt.mp hshort), Expression.ofText?_eq_some_iff]
    refine ⟨⟨left, operator, right, Expression.cut_text _ _ _ _, rfl⟩, ?_⟩
    intro e' hreads
    exact Expression.length_left_le_of_reads_text hreads

/-- With a blank for the point the first blank is part of the left number. -/
theorem single_blanks_around_a_plus :
    Settings.parse { separators := ⟨' ', ','⟩ } "1 5+2" = .ok ⟨"1 5", .add, "2"⟩ ∧
      Settings.parse { separators := ⟨' ', ','⟩ } "1 5 + 2" = .ok ⟨"1 5", .add, "2"⟩ := by
  have hread : Settings.parse { separators := ⟨' ', ','⟩ } "1 5+2" = .ok ⟨"1 5", .add, "2"⟩ := by
    decide +kernel
  exact ⟨hread, single_blanks_change_nothing _ _ _ hread⟩

end Settings

end Reckoner
