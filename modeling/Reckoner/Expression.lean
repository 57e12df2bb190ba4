-- Expressions: one operator between the texts of two numbers, with blanks around each part.
-- A sign can also be an operator, and so can a point that was badly chosen, so a text may be
-- cut in more than one way; the way with the longest left number is taken.
import Reckoner.Numeral
import Reckoner.Text.Characters

namespace Reckoner

/-! ## Operators -/

inductive Operator
  | add
  | subtract
  | multiply
  | divide
  deriving DecidableEq, Repr

namespace Operator

def symbol : Operator → Char
  | add => '+'
  | subtract => '-'
  | multiply => '*'
  | divide => '/'

def ofSymbol? : Char → Option Operator
  | '+' => some add
  | '-' => some subtract
  | '*' => some multiply
  | '/' => some divide
  | _ => none

def name : Operator → String
  | add => "Add"
  | subtract => "Subtract"
  | multiply => "Multiply"
  | divide => "Divide"

theorem ofSymbol?_symbol (o : Operator) : ofSymbol? o.symbol = some o := by cases o <;> rfl

theorem ofSymbol?_eq_some_iff {c : Char} {o : Operator} :
    ofSymbol? c = some o ↔ c = o.symbol := by
  constructor
  · intro h
    unfold ofSymbol? at h
    split at h <;> cases h <;> rfl
  · rintro rfl
    exact ofSymbol?_symbol o

end Operator

/-! ## Expressions -/

/-- An operator between two texts, which are kept as they were written. -/
structure Expression where
  left : String
  operator : Operator
  right : String
  deriving DecidableEq, Repr

namespace Expression

/-- The expression with one blank on each side of its operator. -/
def text (e : Expression) : String :=
  e.left ++ " " ++ String.singleton e.operator.symbol ++ " " ++ e.right

def ofNumerals (point : Char) (left : Numeral) (operator : Operator) (right : Numeral) :
    Expression :=
  ⟨String.ofList (left.chars point), operator, String.ofList (right.chars point)⟩

/-! ## What a cut is -/

def AllBlank (cs : List Char) : Prop := ∀ c ∈ cs, isBlank c = true

/-- A text is cut into numeral, operator and numeral, with blanks around each. -/
inductive Cut (point : Char) : List Char → Numeral → Operator → Numeral → Prop
  | intro {b₁ b₂ b₃ b₄ : List Char} (left : Numeral) (operator : Operator) (right : Numeral)
      (h₁ : AllBlank b₁) (h₂ : AllBlank b₂) (h₃ : AllBlank b₃) (h₄ : AllBlank b₄) :
      Cut point
        (b₁ ++ (left.chars point ++ (b₂ ++ operator.symbol ::
          (b₃ ++ (right.chars point ++ b₄)))))
        left operator right

/-! ## Finding a cut -/

/-- The numeral that a text consists of, up to blanks around it. -/
def lone? (point : Char) (cs : List Char) : Option Numeral :=
  (Numeral.fronts point (dropBlanks cs)).findSome? fun (n, rest) =>
    if dropBlanks rest = [] then some n else none

/-- The operator at the front of a text, and the numeral that is all the rest of it. -/
def operation? (point : Char) (cs : List Char) : Option (Operator × Numeral) :=
  match dropBlanks cs with
  | [] => none
  | c :: rest =>
    match Operator.ofSymbol? c with
    | some operator => (lone? point rest).map fun right => (operator, right)
    | none => none

/-- The cut of a text with the longest left numeral. -/
def cut? (point : Char) (cs : List Char) : Option (Numeral × Operator × Numeral) :=
  (Numeral.fronts point (dropBlanks cs)).findSome? fun (left, rest) =>
    (operation? point rest).map fun (operator, right) => (left, operator, right)

def ofText? (point : Char) (text : String) : Option Expression :=
  (cut? point text.toList).map fun (left, operator, right) =>
    ofNumerals point left operator right

def parts (e : Expression) : List String := [e.left, String.singleton e.operator.symbol, e.right]

def parts? (point : Char) (text : String) : Option (List String) := (ofText? point text).map parts

/-! ## What is found is a cut -/

theorem exists_allBlank_append (cs : List Char) : ∃ b, AllBlank b ∧ b ++ dropBlanks cs = cs :=
  ⟨cs.takeWhile isBlank, fun c h => List.all_eq_true.mp (List.all_takeWhile (l := cs)) c h,
    List.takeWhile_append_dropWhile⟩

theorem cut_of_cut? {point : Char} {cs : List Char} {left right : Numeral}
    {operator : Operator} (h : cut? point cs = some (left, operator, right)) :
    Cut point cs left operator right := by
  obtain ⟨⟨l, tail⟩, hl, h⟩ := List.exists_of_findSome?_eq_some h
  simp only [Option.map_eq_some_iff, Prod.exists, Prod.mk.injEq] at h
  obtain ⟨o, r, ho, rfl, rfl, rfl⟩ := h
  unfold operation? at ho
  split at ho
  · simp at ho
  · next c rest hc =>
    split at ho
    · next op hop =>
      simp only [Option.map_eq_some_iff, Prod.mk.injEq] at ho
      obtain ⟨r', hr, rfl, rfl⟩ := ho
      obtain ⟨⟨m, last⟩, hm, hlast⟩ := List.exists_of_findSome?_eq_some hr
      simp only [Option.ite_none_right_eq_some, Option.some.injEq] at hlast
      obtain ⟨hend, rfl⟩ := hlast
      have e1 := Numeral.chars_append_of_mem_fronts hl
      have e2 := Numeral.chars_append_of_mem_fronts hm
      rw [Operator.ofSymbol?_eq_some_iff] at hop
      obtain ⟨b₁, h₁, a1⟩ := exists_allBlank_append cs
      obtain ⟨b₂, h₂, a2⟩ := exists_allBlank_append tail
      obtain ⟨b₃, h₃, a3⟩ := exists_allBlank_append rest
      obtain ⟨b₄, h₄, a4⟩ := exists_allBlank_append last
      rw [hend, List.append_nil] at a4
      subst a4
      rw [← a1, ← e1, ← a2, hc, hop, ← a3, ← e2]
      exact Cut.intro l op m h₁ h₂ h₃ h₄
    · simp at ho

end Expression

end Reckoner
