-- The laws of grouped digits. A comma stands wherever the digits behind it make whole groups
-- of three. So a grouped text has one number, and a message that names a range has one bound.
import Mathlib.Data.Nat.Notation
import Reckoner.Evaluation.Outcome

namespace Reckoner

namespace Grouped

variable {first rest ds text : List Char} {group : List Char} {later : List (List Char)}

/-! ## Groups -/

/-- One to three digits in the first group, and three in every later one. -/
structure Groups (first : List Char) (later : List (List Char)) : Prop where
  first_ne_nil : first ≠ []
  length_first_le : first.length ≤ 3
  length_later : ∀ group ∈ later, group.length = 3

/-- The groups in one text, with a comma before each but the first. -/
def join (first : List Char) (later : List (List Char)) : List Char :=
  first ++ later.flatMap (',' :: ·)

theorem Groups.next (h : Groups first (group :: later)) : Groups group later := by
  have hlength := h.length_later group (by simp)
  refine ⟨?_, Nat.le_of_eq hlength, fun g hg => h.length_later g (List.mem_cons_of_mem _ hg)⟩
  rintro rfl
  cases hlength

theorem Groups.length_flatten_mod (h : Groups first later) : later.flatten.length % 3 = 0 := by
  induction later generalizing first with
  | nil => rfl
  | cons group later ih =>
    have hlength := h.length_later group (by simp)
    have hrest := ih h.next
    rw [List.flatten_cons, List.length_append]
    omega

/-- A digit in front of a full group starts a new one. -/
theorem exists_groups (h : ds ≠ []) : ∃ first later, Groups first later ∧
    first ++ later.flatten = ds := by
  induction ds with
  | nil => exact absurd rfl h
  | cons d rest ih =>
    by_cases hrest : rest = []
    · exact ⟨[d], [], ⟨by simp, by simp, by simp⟩, by simp [hrest]⟩
    obtain ⟨first, later, hgroups, hflatten⟩ := ih hrest
    obtain ⟨hne, hle, hlater⟩ := hgroups
    by_cases hfull : first.length = 3
    · refine ⟨[d], first :: later, ⟨by simp, by simp, ?_⟩, by simp [hflatten]⟩
      intro group hgroup
      rcases List.mem_cons.mp hgroup with rfl | hmem
      · exact hfull
      · exact hlater group hmem
    · refine ⟨d :: first, later, ⟨by simp, ?_, hlater⟩, by simp [hflatten]⟩
      rw [List.length_cons]
      omega

/-! ## Commas -/

/-- Up to three digits in front of whole groups are a group. -/
theorem commas_append (hne : first ≠ []) (hle : first.length ≤ 3) (hrest : rest.length % 3 = 0) :
    commas (first ++ rest) = first ++ if rest = [] then [] else ',' :: commas rest := by
  induction first with
  | nil => exact absurd rfl hne
  | cons d tail ih =>
    rw [List.length_cons] at hle
    rw [List.cons_append, commas]
    by_cases htail : tail = []
    · subst htail
      by_cases hnil : rest = []
      · simp [hnil, commas]
      · simp [hnil, hrest]
    · -- One or two digits are left of the group, so the number of digits behind is no multiple.
      have hpos := List.length_pos_iff.mpr htail
      have hinside : ¬ (tail ++ rest ≠ [] ∧ (tail ++ rest).length % 3 = 0) := by
        rw [List.length_append]
        omega
      rw [if_neg hinside, ih htail (by omega), List.cons_append]

/-- The commas stand between the groups. -/
theorem commas_flatten (h : Groups first later) :
    commas (first ++ later.flatten) = join first later := by
  induction later generalizing first with
  | nil =>
    rw [commas_append h.first_ne_nil h.length_first_le h.length_flatten_mod]
    rfl
  | cons group later ih =>
    have hfollow : (group :: later).flatten ≠ [] := by
      simp [h.next.first_ne_nil]
    rw [commas_append h.first_ne_nil h.length_first_le h.length_flatten_mod, if_neg hfollow,
      List.flatten_cons, ih h.next]
    rfl

/-- Of all ways to cut the digits the commas show the one into such groups. -/
theorem commas_eq_iff (h : ds ≠ []) : commas ds = text ↔
    ∃ first later, Groups first later ∧ first ++ later.flatten = ds ∧ join first later = text := by
  refine ⟨?_, ?_⟩
  · rintro rfl
    obtain ⟨first, later, hgroups, rfl⟩ := exists_groups h
    exact ⟨first, later, hgroups, rfl, (commas_flatten hgroups).symm⟩
  · rintro ⟨first, later, hgroups, rfl, rfl⟩
    exact commas_flatten hgroups

end Grouped

/-! ## Grouped numbers -/

theorem filter_groupThousands (n : ℕ) :
    (groupThousands n).toList.filter (· ≠ ',') = (toString n).toList := by
  rw [groupThousands, String.toList_ofList, Grouped.filter_commas (Digits.allDigits_ofNat n),
    Digits.toList_toString]

theorem groupThousands_injective : Function.Injective groupThousands := by
  intro n m h
  have hdigits : (toString n).toList = (toString m).toList := by
    rw [← filter_groupThousands, h, filter_groupThousands]
  rw [Digits.toList_toString, Digits.toList_toString] at hdigits
  rw [← Digits.value_ofNat n, hdigits, Digits.value_ofNat]

theorem groupThousands_eq_iff {n : ℕ} {text : String} : groupThousands n = text ↔
    ∃ first later, Grouped.Groups first later ∧ first ++ later.flatten = (toString n).toList ∧
      Grouped.join first later = text.toList := by
  rw [← String.toList_inj, groupThousands, String.toList_ofList, Digits.toList_toString]
  exact Grouped.commas_eq_iff (Digits.ofNat_ne_nil n)

/-! ## Messages -/

namespace EvaluationFault

/-- Both ends of a range take as much of its text, so the text tells where the first one ends. -/
theorem rangeText_injective : Function.Injective rangeText := by
  intro bound bound' h
  have hlist := congrArg String.toList h
  simp only [rangeText, String.toList_append, List.append_assoc] at hlist
  have htail := List.append_cancel_left hlist
  have hlength := congrArg List.length htail
  simp only [List.length_append] at hlength
  have hfirst := List.append_inj_left htail (by omega)
  exact groupThousands_injective (String.toList_inj.mp hfirst)

section Words

variable {message : ℕ → String} {front back : String}

theorem message_injective_of_words (h : ∀ bound, message bound = front ++ rangeText bound ++ back) :
    Function.Injective message := by
  intro bound bound' heq
  rw [h, h, String.append_left_inj, String.append_right_inj] at heq
  exact rangeText_injective heq

theorem head?_message_of_words (h : ∀ bound, message bound = front ++ rangeText bound ++ back)
    {c : Char} (hc : front.toList.head? = some c) (bound : ℕ) :
    (message bound).toList.head? = some c := by
  rw [h, String.toList_append, String.toList_append, List.append_assoc, List.head?_append, hc]
  rfl

end Words

theorem message_operandOutOfRange (bound : ℕ) : (operandOutOfRange bound).message =
    "operands must be within the allowed range of " ++ rangeText bound ++ "." := rfl

theorem message_resultOutOfRange (bound : ℕ) : (resultOutOfRange bound).message =
    "result exceeds the allowed range of " ++ rangeText bound ++ "." := rfl

/-- One message speaks of operands and the other of a result, from the first letter on. -/
theorem message_operandOutOfRange_ne (bound bound' : ℕ) :
    (operandOutOfRange bound).message ≠ (resultOutOfRange bound').message := by
  intro h
  have hoperands := head?_message_of_words message_operandOutOfRange (c := 'o') (by decide) bound
  have hresult := head?_message_of_words message_resultOutOfRange (c := 'r') (by decide) bound'
  rw [h, hresult] at hoperands
  cases hoperands

end EvaluationFault

/-- A grouped number is its digits with a comma before every group of three of them but the first
group, which has one to three, and it is no other text. Without the commas it is the plain text
of the number. So it tells the number, and a message about a range tells its bound and whether
it was broken by an operand or by a result. -/
theorem a_range_message_tells_its_bound :
    (∀ (n : ℕ) (text : String), groupThousands n = text ↔
      ∃ first later, Grouped.Groups first later ∧ first ++ later.flatten = (toString n).toList ∧
        Grouped.join first later = text.toList) ∧
    (∀ n : ℕ, (groupThousands n).toList.filter (· ≠ ',') = (toString n).toList) ∧
    (∀ n m : ℕ, groupThousands n = groupThousands m → n = m) ∧
    ∀ bound bound' : ℕ,
      (bound ≠ bound' →
        (EvaluationFault.operandOutOfRange bound).message ≠
            (EvaluationFault.operandOutOfRange bound').message ∧
          (EvaluationFault.resultOutOfRange bound).message ≠
            (EvaluationFault.resultOutOfRange bound').message) ∧
      (EvaluationFault.operandOutOfRange bound).message ≠
        (EvaluationFault.resultOutOfRange bound').message := by
  refine ⟨fun n text => groupThousands_eq_iff, filter_groupThousands,
    fun n m h => groupThousands_injective h, ?_⟩
  intro bound bound'
  refine ⟨?_, EvaluationFault.message_operandOutOfRange_ne bound bound'⟩
  intro hne
  exact ⟨(EvaluationFault.message_injective_of_words
      EvaluationFault.message_operandOutOfRange).ne hne,
    (EvaluationFault.message_injective_of_words EvaluationFault.message_resultOutOfRange).ne hne⟩

/-- Two bounds of which the one has the digits of the other and a zero. -/
theorem a_range_message_tells_a_thousand_from_ten_thousand :
    groupThousands 12345678 = "12,345,678" ∧ groupThousands 999 = "999" ∧
      (EvaluationFault.operandOutOfRange 1000).message ≠
        (EvaluationFault.operandOutOfRange 10000).message ∧
      (EvaluationFault.operandOutOfRange 1000).message ≠
        (EvaluationFault.resultOutOfRange 1000).message := by
  obtain ⟨hgroups, -, -, hmessage⟩ := a_range_message_tells_its_bound
  have htwo : Grouped.Groups "12".toList ["345".toList, "678".toList] :=
    ⟨by decide, by decide, by decide⟩
  have hone : Grouped.Groups "999".toList [] := ⟨by decide, by decide, by decide⟩
  obtain ⟨hoperand, -⟩ := (hmessage 1000 10000).1 (by decide)
  exact ⟨(hgroups 12345678 _).mpr ⟨_, _, htwo, by decide, by decide⟩,
    (hgroups 999 _).mpr ⟨_, _, hone, by decide, by decide⟩, hoperand, (hmessage 1000 1000).2⟩

end Reckoner
