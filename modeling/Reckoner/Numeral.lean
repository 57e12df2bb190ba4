-- Numerals: an optional sign, digits, and a fraction after a point that the format
-- chooses. Both readers of numerals make values of one type, so a text is a numeral
-- when it is the text of such a value.
import Reckoner.Number.Cell
import Reckoner.Text.Digits

namespace Reckoner

inductive Sign
  | plus
  | minus
  deriving DecidableEq, Repr

namespace Sign

def char : Sign → Char
  | plus => '+'
  | minus => '-'

def ofChar? : Char → Option Sign
  | '+' => some plus
  | '-' => some minus
  | _ => none

/-- Takes one sign off the front of a text, if it starts with one. -/
def split (cs : List Char) : Option Sign × List Char :=
  match cs with
  | [] => (none, [])
  | c :: rest =>
    match ofChar? c with
    | some sign => (some sign, rest)
    | none => (none, cs)

theorem ofChar?_char (s : Sign) : ofChar? s.char = some s := by cases s <;> rfl

theorem ofChar?_eq_some_iff {c : Char} {s : Sign} : ofChar? c = some s ↔ c = s.char := by
  constructor
  · intro h
    unfold ofChar? at h
    split at h <;> cases h <;> rfl
  · rintro rfl
    exact ofChar?_char s

theorem ofChar?_of_isDigit {c : Char} (h : c.isDigit = true) : ofChar? c = none := by
  cases hs : ofChar? c with
  | none => rfl
  | some s =>
    rw [ofChar?_eq_some_iff.mp hs] at h
    cases s <;> exact absurd h (by decide)

theorem chars_split (cs : List Char) :
    ((split cs).1.map char).toList ++ (split cs).2 = cs := by
  cases cs with
  | nil => rfl
  | cons c rest =>
    simp only [split]
    split
    · next s h => simp [ofChar?_eq_some_iff.mp h]
    · simp

theorem split_append (s : Option Sign) {cs : List Char} (rest : List Char)
    (h : Digits.IsRun cs) : split ((s.map char).toList ++ (cs ++ rest)) = (s, cs ++ rest) := by
  obtain ⟨hne, hd⟩ := h
  obtain ⟨c, tail, rfl⟩ := List.exists_cons_of_ne_nil hne
  cases s with
  | none => simp [split, ofChar?_of_isDigit (hd c (by simp))]
  | some s => simp [split, ofChar?_char]

end Sign

/-- A numeral. An empty fraction means that there is no point either. -/
structure Numeral where
  sign : Option Sign
  whole : List Char
  fraction : List Char
  whole_run : Digits.IsRun whole
  fraction_digits : Digits.AllDigits fraction
  deriving DecidableEq

namespace Numeral

/-- The text of a numeral, with `point` before the fraction. -/
def chars (point : Char) (n : Numeral) : List Char :=
  (n.sign.map Sign.char).toList ++ n.whole ++
    (if n.fraction = [] then [] else point :: n.fraction)

def isNegative (n : Numeral) : Bool := n.sign == some .minus

/-- The size in steps of the scale, for a fraction that the scale can keep. -/
def magnitude (s : Scale) (n : Numeral) : Nat :=
  Digits.value n.whole * s.unit + Digits.value (n.fraction.rightpad s.val '0')

/-! ## Reading a whole text -/

/-- The numeral of a sign and the text behind it, which is cut at its first point. -/
def ofUnsigned? (point : Char) (sign : Option Sign) (cs : List Char) : Option Numeral :=
  let whole := cs.takeWhile (· != point)
  match cs.dropWhile (· != point) with
  | [] =>
    if h : Digits.IsRun whole then
      some ⟨sign, whole, [], h, Digits.allDigits_nil⟩
    else
      none
  | _ :: fraction =>
    if h : Digits.IsRun whole ∧ Digits.IsRun fraction then
      some ⟨sign, whole, fraction, h.1, h.2.2⟩
    else
      none

def read? (point : Char) (cs : List Char) : Option Numeral :=
  ofUnsigned? point (Sign.split cs).1 (Sign.split cs).2

theorem chars_of_read? {point : Char} {cs : List Char} {n : Numeral}
    (h : read? point cs = some n) : n.chars point = cs := by
  rw [← Sign.chars_split cs]
  unfold read? at h
  generalize (Sign.split cs).1 = sign at h ⊢
  generalize (Sign.split cs).2 = body at h ⊢
  have hbody := List.takeWhile_append_dropWhile (p := (· != point)) (l := body)
  unfold ofUnsigned? at h
  simp only at h
  split at h
  · next heq =>
    split at h <;> cases h
    rw [heq, List.append_nil] at hbody
    simp [chars, hbody]
  · next c fraction heq =>
    split at h <;> cases h
    next hrun =>
    rw [heq] at hbody
    have hc : c = point := by
      have hhead := List.head?_dropWhile_not (· != point) body
      rw [heq] at hhead
      simpa using hhead
    subst hc
    simp [chars, hrun.2.1, hbody]

/-- The text of a numeral is read as that numeral, for a point that is no digit. -/
theorem read?_chars {point : Char} (hp : point.isDigit = false) (n : Numeral) :
    read? point (n.chars point) = some n := by
  obtain ⟨sign, whole, fraction, hrun, hfr⟩ := n
  have hw : ∀ c ∈ whole, (c != point) = true := by
    intro c hc
    rw [bne_iff_ne]
    rintro rfl
    rw [hrun.2 c hc] at hp
    exact absurd hp (by decide)
  have take (tail : List Char) :
      (whole ++ tail).takeWhile (· != point) = whole ++ tail.takeWhile (· != point) :=
    List.takeWhile_append_of_pos hw
  have drop (tail : List Char) :
      (whole ++ tail).dropWhile (· != point) = tail.dropWhile (· != point) :=
    List.dropWhile_append_of_pos hw
  unfold read? chars
  rw [List.append_assoc, Sign.split_append sign _ hrun]
  unfold ofUnsigned?
  by_cases hf : fraction = []
  · subst hf
    have h1 : whole.takeWhile (· != point) = whole := by simpa using take []
    have h2 : whole.dropWhile (· != point) = [] := by simpa using drop []
    simp [h1, h2, hrun]
  · simp only [if_neg hf, take, drop]
    have hfrun : Digits.IsRun fraction := ⟨hf, hfr⟩
    simp [hrun, hfrun]

/-! ## Reading off the front of a text -/

/-- The numerals that a sign and the text behind it can start with. -/
def unsignedFronts (point : Char) (sign : Option Sign) (cs : List Char) :
    List (Numeral × List Char) :=
  let whole := cs.takeWhile Char.isDigit
  let rest := cs.dropWhile Char.isDigit
  if hw : whole = [] then
    []
  else
    let run : Digits.IsRun whole := ⟨hw, Digits.allDigits_takeWhile cs⟩
    let plain : Numeral × List Char := (⟨sign, whole, [], run, Digits.allDigits_nil⟩, rest)
    match rest with
    | [] => [plain]
    | c :: tail =>
      let fraction := tail.takeWhile Char.isDigit
      if c = point ∧ fraction ≠ [] then
        [(⟨sign, whole, fraction, run, Digits.allDigits_takeWhile tail⟩,
          tail.dropWhile Char.isDigit), plain]
      else
        [plain]

/-- The numerals that a text can start with, each with the text behind it. All digits in
reach are taken. The one with a fraction comes first, the one without it second. -/
def fronts (point : Char) (cs : List Char) : List (Numeral × List Char) :=
  unsignedFronts point (Sign.split cs).1 (Sign.split cs).2

theorem chars_append_of_mem_fronts {point : Char} {cs rest : List Char} {n : Numeral}
    (h : (n, rest) ∈ fronts point cs) : n.chars point ++ rest = cs := by
  rw [← Sign.chars_split cs]
  unfold fronts at h
  generalize (Sign.split cs).1 = sign at h ⊢
  generalize (Sign.split cs).2 = body at h ⊢
  have hbody := List.takeWhile_append_dropWhile (p := Char.isDigit) (l := body)
  unfold unsignedFronts at h
  simp only at h
  split at h
  · simp at h
  · generalize List.dropWhile Char.isDigit body = tail at h hbody
    have hplain : ∀ run, (⟨sign, body.takeWhile Char.isDigit, [], run, Digits.allDigits_nil⟩ :
        Numeral).chars point ++ tail = (sign.map Sign.char).toList ++ body := by
      intro run
      simp [chars, hbody]
    split at h
    · simp only [List.mem_singleton, Prod.mk.injEq] at h
      obtain ⟨rfl, rfl⟩ := h
      exact hplain _
    · split at h
      · next hc =>
        obtain ⟨rfl, hf⟩ := hc
        simp only [List.mem_cons, Prod.mk.injEq, List.not_mem_nil, or_false] at h
        rcases h with ⟨rfl, rfl⟩ | ⟨rfl, rfl⟩
        · simp only [chars, if_neg hf, List.append_assoc, List.cons_append,
            List.takeWhile_append_dropWhile]
          rw [hbody]
        · exact hplain _
      · simp only [List.mem_singleton, Prod.mk.injEq] at h
        obtain ⟨rfl, rfl⟩ := h
        exact hplain _

end Numeral

end Reckoner
