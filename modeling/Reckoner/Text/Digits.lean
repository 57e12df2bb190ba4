-- Decimal digits: the text of a number, the number of a text, and the digits of a large
-- number in groups for people.
namespace Reckoner

namespace Digits

/-- Every character is one of the ten ASCII digits. -/
def AllDigits (cs : List Char) : Prop := ∀ c ∈ cs, c.isDigit = true

def IsRun (cs : List Char) : Prop := cs ≠ [] ∧ AllDigits cs

-- By the list, and not by all characters there are.
instance (cs : List Char) : Decidable (AllDigits cs) := List.decidableBAll _ cs

instance (cs : List Char) : Decidable (IsRun cs) := inferInstanceAs (Decidable (_ ∧ _))

/-- The number that the digits write. -/
def value (cs : List Char) : Nat := Nat.ofDigitChars 10 cs 0

def ofNat (n : Nat) : List Char := Nat.toDigits 10 n

def ofInt (n : Int) : List Char := if n < 0 then '-' :: ofNat n.natAbs else ofNat n.natAbs

/-- The digits of a number as a fraction of `width` digits, with zeros in front. -/
def padded (width n : Nat) : List Char := (ofNat n).leftpad width '0'

def trimZeros (cs : List Char) : List Char := (cs.reverse.dropWhile (· == '0')).reverse

/-! ## Reading back -/

theorem value_ofNat (n : Nat) : value (ofNat n) = n :=
  Nat.ofDigitChars_toDigits (by decide) (by decide)

theorem toList_toString (n : Nat) : (toString n).toList = ofNat n := by
  rw [Nat.toString_eq_repr, Nat.toList_repr, ofNat]

theorem allDigits_nil : AllDigits [] := by simp [AllDigits]

theorem allDigits_ofNat (n : Nat) : AllDigits (ofNat n) := fun _ h =>
  Nat.isDigit_of_mem_toDigits (by decide) (by decide) h

theorem ofNat_ne_nil (n : Nat) : ofNat n ≠ [] := Nat.toDigits_ne_nil

theorem allDigits_takeWhile (cs : List Char) : AllDigits (cs.takeWhile Char.isDigit) := by
  intro c h
  exact List.all_eq_true.mp (List.all_takeWhile (l := cs)) c h

end Digits

/-! ## Groups of three -/

namespace Grouped

/-- Puts a comma wherever the digits that follow make whole groups of three. -/
def commas : List Char → List Char
  | [] => []
  | d :: rest =>
    if rest ≠ [] ∧ rest.length % 3 = 0 then d :: ',' :: commas rest else d :: commas rest

/-- Without its commas a grouped text is the text that was grouped. -/
theorem filter_commas {ds : List Char} (h : Digits.AllDigits ds) :
    (commas ds).filter (· ≠ ',') = ds := by
  induction ds with
  | nil => rfl
  | cons d rest ih =>
    have hd : d ≠ ',' := by
      rintro rfl
      exact absurd (h ',' (by simp)) (by decide)
    have hr := ih fun c hc => h c (List.mem_cons_of_mem _ hc)
    unfold commas
    split <;> simp_all

end Grouped

/-- The decimal text of `n` in groups of three digits, as in `1,000,000`. -/
def groupThousands (n : Nat) : String := String.ofList (Grouped.commas (Digits.ofNat n))

end Reckoner
