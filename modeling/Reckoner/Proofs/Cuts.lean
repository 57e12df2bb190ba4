-- The laws of cutting. What `cut?` finds is a cut, as its module shows; here it finds
-- one whenever there is one, and of several it finds the one with the longest left
-- number. A point of good settings leaves no choice.
import Mathlib.Data.List.TakeWhile
import Reckoner.Evaluation.Evaluator

namespace Reckoner

/-! ## The front of a text -/

section Front

variable {p : Char → Bool} {front rest : List Char}

theorem takeWhile_front (hin : ∀ c ∈ front, p c = true) (hout : ∀ c ∈ rest.head?, p c = false) :
    (front ++ rest).takeWhile p = front := by
  rw [List.takeWhile_append_of_pos hin]
  cases rest <;> simp_all

theorem dropWhile_front (hin : ∀ c ∈ front, p c = true) (hout : ∀ c ∈ rest.head?, p c = false) :
    (front ++ rest).dropWhile p = rest := by
  rw [List.dropWhile_append_of_pos hin]
  cases rest <;> simp_all

end Front

/-! ## Blanks -/

namespace Expression

theorem dropBlanks_append {b cs : List Char} (hb : AllBlank b)
    (hcs : ∀ c ∈ cs.head?, isBlank c = false) : dropBlanks (b ++ cs) = cs :=
  dropWhile_front hb hcs

theorem dropBlanks_eq_nil_iff {cs : List Char} : dropBlanks cs = [] ↔ AllBlank cs :=
  List.dropWhile_eq_nil_iff

theorem allBlank_nil : AllBlank [] := by simp [AllBlank]

theorem allBlank_singleton {c : Char} (h : isBlank c = true) : AllBlank [c] := by
  simpa [AllBlank] using h

theorem allBlank_append {b b' : List Char} : AllBlank (b ++ b') ↔ AllBlank b ∧ AllBlank b' := by
  simp [AllBlank, or_imp, forall_and]

theorem allBlank_reverse {b : List Char} : AllBlank b.reverse ↔ AllBlank b := by
  simp [AllBlank]

/-- The text has a character at both ends that is no blank. -/
def Bare (cs : List Char) : Prop :=
  (∃ c ∈ cs.head?, isBlank c = false) ∧ ∃ c ∈ cs.getLast?, isBlank c = false

theorem Bare.head {cs : List Char} (h : Bare cs) (tail : List Char) :
    ∀ c ∈ (cs ++ tail).head?, isBlank c = false := by
  obtain ⟨⟨c, hc, hblank⟩, -⟩ := h
  cases cs with
  | nil => cases hc
  | cons x xs =>
    intro d hd
    cases hc
    cases hd
    exact hblank

theorem trimBlanks_append {b b' cs : List Char} (hb : AllBlank b) (hb' : AllBlank b')
    (h : Bare cs) : trimBlanks (b ++ (cs ++ b')) = cs := by
  have hrev : Bare cs.reverse := by
    obtain ⟨hfirst, hlast⟩ := h
    exact ⟨by simpa using hlast, by simpa using hfirst⟩
  rw [trimBlanks, dropBlanks_append hb (h.head b'), List.reverse_append,
    dropBlanks_append (allBlank_reverse.mpr hb') (by simpa using hrev.head []),
    List.reverse_reverse]

/-- Trimming takes blanks away from both ends and nothing else. -/
theorem exists_blanks_trim (cs : List Char) :
    ∃ b b', AllBlank b ∧ AllBlank b' ∧ cs = b ++ (trimBlanks cs ++ b') := by
  obtain ⟨b, hb, heq⟩ := exists_allBlank_append cs
  obtain ⟨b', hb', heq'⟩ := exists_allBlank_append (dropBlanks cs).reverse
  refine ⟨b, b'.reverse, hb, allBlank_reverse.mpr hb', ?_⟩
  rw [trimBlanks, ← List.reverse_append, heq', List.reverse_reverse, heq]

end Expression

/-! ## Numerals at the front -/

/-- What stands behind a numeral: nothing that would make it longer. -/
def NoDigitAhead (cs : List Char) : Prop := ∀ c ∈ cs.head?, c.isDigit = false

theorem isBlank_symbol (o : Operator) : isBlank o.symbol = false := by
  cases o <;> decide

theorem isDigit_symbol (o : Operator) : o.symbol.isDigit = false := by
  cases o <;> decide

theorem isBlank_sign (s : Sign) : isBlank s.char = false := by
  cases s <;> decide

theorem isDigit_eq_false_of_isBlank {c : Char} (h : isBlank c = true) : c.isDigit = false := by
  cases hd : c.isDigit with
  | false => rfl
  | true => rw [isBlank_eq_false_of_isDigit hd] at h; cases h

namespace Numeral

variable {point : Char}

theorem exists_run_last (point : Char) (n : Numeral) :
    ∃ front digits, n.chars point = front ++ digits ∧ Digits.IsRun digits := by
  unfold chars
  by_cases hf : n.fraction = []
  · exact ⟨(n.sign.map Sign.char).toList, n.whole, by simp [hf], n.whole_run⟩
  · refine ⟨(n.sign.map Sign.char).toList ++ n.whole ++ [point], n.fraction, ?_, hf,
      n.fraction_digits⟩
    simp [hf]

/-- A numeral starts with a sign or a digit and ends with a digit. -/
theorem bare_chars (n : Numeral) : Expression.Bare (n.chars point) := by
  refine ⟨?_, ?_⟩
  · obtain ⟨c, tail, hw⟩ := List.exists_cons_of_ne_nil n.whole_run.1
    unfold chars
    cases n.sign with
    | none =>
      have hc : c.isDigit = true := n.whole_run.2 c (by simp [hw])
      exact ⟨c, by simp [hw], isBlank_eq_false_of_isDigit hc⟩
    | some sign => exact ⟨sign.char, by simp, isBlank_sign sign⟩
  · obtain ⟨front, digits, heq, hne, hdigits⟩ := n.exists_run_last point
    have hlast : digits.getLast hne ∈ digits := List.getLast_mem hne
    refine ⟨digits.getLast hne, ?_, isBlank_eq_false_of_isDigit (hdigits _ hlast)⟩
    rw [heq, List.getLast?_append, List.getLast?_eq_some_getLast hne]
    rfl

/-- The text behind the whole part of a numeral. -/
def tailChars (point : Char) (n : Numeral) : List Char :=
  if n.fraction = [] then [] else point :: n.fraction

theorem split_chars_append (n : Numeral) (rest : List Char) :
    Sign.split (n.chars point ++ rest) = (n.sign, n.whole ++ (n.tailChars point ++ rest)) := by
  have := Sign.split_append n.sign (n.tailChars point ++ rest) n.whole_run
  rw [← this, chars, tailChars]
  simp only [List.append_assoc]

/-- Where the text behind the whole part is no digit, the whole part ends there. -/
theorem mem_fronts_whole {sign : Option Sign} {whole rest : List Char}
    (hw : Digits.IsRun whole) (hrest : NoDigitAhead rest) :
    (⟨sign, whole, [], hw, Digits.allDigits_nil⟩, rest) ∈
      unsignedFronts point sign (whole ++ rest) := by
  have htake := takeWhile_front hw.2 hrest
  have hdrop := dropWhile_front hw.2 hrest
  unfold unsignedFronts
  simp only [htake, hdrop, dif_neg hw.1]
  cases rest with
  | nil => simp
  | cons c tail =>
    simp only
    split <;> simp

/-- A fraction behind a point that is no digit is found, and taken as far as it goes. -/
theorem mem_fronts_fraction {sign : Option Sign} {whole fraction rest : List Char}
    (hp : point.isDigit = false) (hw : Digits.IsRun whole) (hf : Digits.IsRun fraction)
    (hrest : NoDigitAhead rest) :
    (⟨sign, whole, fraction, hw, hf.2⟩, rest) ∈
      unsignedFronts point sign (whole ++ point :: (fraction ++ rest)) := by
  have hpoint : NoDigitAhead (point :: (fraction ++ rest)) := by
    intro c hc
    cases hc
    exact hp
  have htake := takeWhile_front hw.2 hpoint
  have hdrop := dropWhile_front hw.2 hpoint
  have htake' := takeWhile_front hf.2 hrest
  have hdrop' := dropWhile_front hf.2 hrest
  unfold unsignedFronts
  simp only [htake, hdrop, dif_neg hw.1, htake', hdrop']
  rw [if_pos ⟨trivial, hf.1⟩]
  exact List.mem_cons_self

/-- A numeral in front of something that is no digit is among the numerals that the text
can start with, at least as far as its text goes: where the point is a digit, a fraction
is read as more digits of the whole part. -/
theorem exists_mem_fronts (point : Char) (n : Numeral) {rest : List Char} (hrest : NoDigitAhead rest) :
    ∃ n', (n', rest) ∈ fronts point (n.chars point ++ rest) ∧
      n'.chars point = n.chars point := by
  unfold fronts
  rw [split_chars_append]
  obtain ⟨sign, whole, fraction, hw, hfr⟩ := n
  simp only [tailChars]
  by_cases hf : fraction = []
  · subst hf
    exact ⟨_, by simpa using mem_fronts_whole hw hrest, rfl⟩
  · rw [if_neg hf]
    cases hp : point.isDigit with
    | false => exact ⟨_, mem_fronts_fraction hp hw ⟨hf, hfr⟩ hrest, rfl⟩
    | true =>
      have hrun : Digits.IsRun (whole ++ point :: fraction) := by
        refine ⟨by simp, ?_⟩
        intro c hc
        rcases List.mem_append.mp hc with hc | hc
        · exact hw.2 c hc
        · rcases List.mem_cons.mp hc with rfl | hc
          · exact hp
          · exact hfr c hc
      refine ⟨_, by simpa using mem_fronts_whole hrun hrest, ?_⟩
      simp [chars, hf]

/-- The longer of two numerals that a text can start with comes first. -/
theorem fronts_pairwise (point : Char) (cs : List Char) :
    (fronts point cs).Pairwise fun a b => a.2.length < b.2.length := by
  unfold fronts unsignedFronts
  simp only
  split
  · exact List.Pairwise.nil
  · split
    · exact List.pairwise_singleton _ _
    · next c tail heq =>
      split
      · refine List.pairwise_pair.mpr ?_
        have := (List.dropWhile_suffix (l := tail) Char.isDigit).length_le
        rw [heq, List.length_cons]
        exact Nat.lt_succ_of_le this
      · exact List.pairwise_singleton _ _

end Numeral

/-! ## What a cut says of its text -/

namespace Expression

variable {point : Char} {cs : List Char} {left right : Numeral} {operator : Operator}

/-- A cut, told from the left. -/
theorem cut_iff : Cut point cs left operator right ↔
    ∃ rest last, dropBlanks cs = left.chars point ++ rest ∧
      dropBlanks rest = operator.symbol :: last ∧ trimBlanks last = right.chars point := by
  refine ⟨?_, ?_⟩
  · rintro ⟨_, _, _, h₁, h₂, h₃, h₄⟩
    refine ⟨_, _, dropBlanks_append h₁ (left.bare_chars.head _), dropBlanks_append h₂ ?_,
      trimBlanks_append h₃ h₄ right.bare_chars⟩
    rintro c ⟨⟩
    exact isBlank_symbol operator
  · rintro ⟨rest, last, hleft, hop, hright⟩
    obtain ⟨b₁, h₁, e₁⟩ := exists_allBlank_append cs
    obtain ⟨b₂, h₂, e₂⟩ := exists_allBlank_append rest
    obtain ⟨b₃, b₄, h₃, h₄, e₃⟩ := exists_blanks_trim last
    rw [← e₁, hleft, ← e₂, hop, e₃, hright]
    exact Cut.intro left operator right h₁ h₂ h₃ h₄

theorem cut_text (point : Char) (left : Numeral) (operator : Operator) (right : Numeral) :
    Cut point (ofNumerals point left operator right).text.toList left operator right := by
  have hone : AllBlank [' '] := allBlank_singleton rfl
  have hcut : Cut point _ left operator right :=
    .intro left operator right allBlank_nil hone hone allBlank_nil
  simpa [text, ofNumerals] using hcut

/-- Behind the left numeral of a cut stands a blank or the operator. -/
theorem head?_of_dropBlanks {rest last : List Char}
    (h : dropBlanks rest = operator.symbol :: last) :
    ∀ c ∈ rest.head?, isBlank c = true ∨ c = operator.symbol := by
  intro c hc
  cases rest with
  | nil => cases hc
  | cons x xs =>
    cases hc
    cases hblank : isBlank c with
    | true => exact Or.inl rfl
    | false =>
      rw [dropBlanks, List.dropWhile_cons, hblank] at h
      exact Or.inr (List.cons.inj h).1

theorem noDigitAhead_of_dropBlanks {rest last : List Char}
    (h : dropBlanks rest = operator.symbol :: last) : NoDigitAhead rest := by
  intro c hc
  rcases head?_of_dropBlanks h c hc with hblank | rfl
  · exact isDigit_eq_false_of_isBlank hblank
  · exact isDigit_symbol operator

theorem noDigitAhead_of_allBlank {b : List Char} (h : AllBlank b) : NoDigitAhead b := by
  intro c hc
  exact isDigit_eq_false_of_isBlank (h c (List.mem_of_head? hc))

/-! ## A cut is found -/

theorem exists_lone? {n : Numeral} (h : trimBlanks cs = n.chars point) :
    ∃ m, lone? point cs = some m := by
  obtain ⟨b, b', hb, hb', heq⟩ := exists_blanks_trim cs
  rw [h] at heq
  obtain ⟨m, hm, -⟩ := n.exists_mem_fronts point (noDigitAhead_of_allBlank hb')
  rw [← Option.isSome_iff_exists, lone?, List.findSome?_isSome_iff, heq,
    dropBlanks_append hb (n.bare_chars.head b')]
  exact ⟨_, hm, by simp [dropBlanks_eq_nil_iff.mpr hb']⟩

theorem operation?_isSome {rest last : List Char}
    (hop : dropBlanks rest = operator.symbol :: last)
    (hright : trimBlanks last = right.chars point) : (operation? point rest).isSome := by
  obtain ⟨m, hm⟩ := exists_lone? hright
  simp [operation?, hop, Operator.ofSymbol?_symbol, hm]

/-- Of the members of a sorted list that have an image, the first one is found. -/
theorem findSome?_first {α β : Type} {before : α → α → Prop} {f : α → Option β} {l : List α}
    {a : α} (hl : l.Pairwise before) (ha : a ∈ l) (hf : (f a).isSome) :
    ∃ b ∈ l, l.findSome? f = f b ∧ (f b).isSome ∧ (b = a ∨ before b a) := by
  induction l with
  | nil => cases ha
  | cons x xs ih =>
    obtain ⟨hx, hxs⟩ := List.pairwise_cons.mp hl
    cases hfx : f x with
    | some y =>
      refine ⟨x, by simp, by rw [List.findSome?_cons, hfx], by simp [hfx], ?_⟩
      rcases List.mem_cons.mp ha with rfl | ha
      · exact Or.inl rfl
      · exact Or.inr (hx a ha)
    | none =>
      rcases List.mem_cons.mp ha with rfl | ha
      · simp [hfx] at hf
      · obtain ⟨b, hb, hfind, hsome, hbefore⟩ := ih hxs ha
        exact ⟨b, List.mem_cons_of_mem x hb, by rw [List.findSome?_cons, hfx, hfind], hsome,
          hbefore⟩

/-- Where there is a cut, one is found, and its left number is at least as long. -/
theorem exists_longer_cut? (h : Cut point cs left operator right) :
    ∃ l o r, cut? point cs = some (l, o, r) ∧
      (left.chars point).length ≤ (l.chars point).length := by
  obtain ⟨rest, last, hleft, hop, hright⟩ := cut_iff.mp h
  obtain ⟨n, hn, hchars⟩ := left.exists_mem_fronts point (noDigitAhead_of_dropBlanks hop)
  rw [← hleft] at hn
  obtain ⟨⟨l, rest'⟩, hl, hfind, hsome, hbefore⟩ :=
    findSome?_first (f := fun front => (operation? point front.2).map fun o => (front.1, o.1, o.2))
      (Numeral.fronts_pairwise point (dropBlanks cs)) hn (by simpa using operation?_isSome hop hright)
  obtain ⟨⟨o, r⟩, hor⟩ := Option.isSome_iff_exists.mp (by simpa using hsome)
  refine ⟨l, o, r, ?_, ?_⟩
  · rw [hor] at hfind
    exact hfind
  · have hsame : l.chars point ++ rest' = left.chars point ++ rest := by
      rw [Numeral.chars_append_of_mem_fronts hl, hleft]
    have hlength := congrArg List.length hsame
    simp only [List.length_append] at hlength
    rcases hbefore with heq | hlt
    · rw [(Prod.mk.inj heq).2] at hlength
      omega
    · simp only at hlt
      omega

/-! ## Expressions of cuts -/

/-- The expression is that of a cut of the text. -/
def Reads (point : Char) (cs : List Char) (e : Expression) : Prop :=
  ∃ left operator right, Cut point cs left operator right ∧
    e = ofNumerals point left operator right

theorem length_left_ofNumerals :
    (ofNumerals point left operator right).left.length = (left.chars point).length := by
  simp [ofNumerals]

/-- The left number of a cut fixes its operator and its right number. -/
theorem Reads.eq_of_length_left {e e' : Expression} (h : Reads point cs e)
    (h' : Reads point cs e') (hlength : e.left.length = e'.left.length) : e = e' := by
  obtain ⟨left, operator, right, hcut, rfl⟩ := h
  obtain ⟨left', operator', right', hcut', rfl⟩ := h'
  obtain ⟨rest, last, hleft, hop, hright⟩ := cut_iff.mp hcut
  obtain ⟨rest', last', hleft', hop', hright'⟩ := cut_iff.mp hcut'
  rw [length_left_ofNumerals, length_left_ofNumerals] at hlength
  obtain ⟨hchars, rfl⟩ := List.append_inj (hleft.symm.trans hleft') hlength
  obtain ⟨hsymbol, rfl⟩ := List.cons.inj (hop.symm.trans hop')
  have hoperator : operator = operator' := by
    have := Operator.ofSymbol?_symbol operator
    rw [hsymbol, Operator.ofSymbol?_symbol] at this
    exact (Option.some.inj this).symm
  rw [ofNumerals, ofNumerals, hchars, hoperator, ← hright, ← hright']

/-- The expression that is found is the one with the longest left number. -/
theorem ofText?_eq_some_iff {text : String} {e : Expression} :
    ofText? point text = some e ↔
      Reads point text.toList e ∧
        ∀ e', Reads point text.toList e' → e'.left.length ≤ e.left.length := by
  have longest {e : Expression} (h : ofText? point text = some e) :
      Reads point text.toList e ∧
        ∀ e', Reads point text.toList e' → e'.left.length ≤ e.left.length := by
    obtain ⟨⟨l, o, r⟩, hcut, rfl⟩ := Option.map_eq_some_iff.mp h
    refine ⟨⟨l, o, r, cut_of_cut? hcut, rfl⟩, ?_⟩
    rintro e' ⟨left, operator, right, hcut', rfl⟩
    obtain ⟨l', o', r', hfound, hle⟩ := exists_longer_cut? hcut'
    rw [hcut] at hfound
    cases hfound
    rw [length_left_ofNumerals, length_left_ofNumerals]
    exact hle
  refine ⟨?_, ?_⟩
  · exact longest
  · rintro ⟨hreads, hlongest⟩
    obtain ⟨left, operator, right, hcut, rfl⟩ := hreads
    obtain ⟨l, o, r, hfound, -⟩ := exists_longer_cut? hcut
    have htext : ofText? point text = some (ofNumerals point l o r) := by
      rw [ofText?, hfound]
      rfl
    obtain ⟨hreads', hlongest'⟩ := longest htext
    have hreads : Reads point text.toList (ofNumerals point left operator right) :=
      ⟨left, operator, right, hcut, rfl⟩
    rw [htext, hreads'.eq_of_length_left hreads
      (Nat.le_antisymm (hlongest _ hreads') (hlongest' _ hreads))]

theorem ofText?_eq_none_iff {text : String} :
    ofText? point text = none ↔ ¬ ∃ e, Reads point text.toList e := by
  refine ⟨?_, ?_⟩
  · rintro h ⟨e, left, operator, right, hcut, -⟩
    obtain ⟨l, o, r, hfound, -⟩ := exists_longer_cut? hcut
    rw [ofText?, hfound] at h
    cases h
  · intro h
    cases he : ofText? point text with
    | none => rfl
    | some e => exact absurd ⟨e, (ofText?_eq_some_iff.mp he).1⟩ h

end Expression

/-! ## Good points leave no choice -/

theorem Separators.clashes_eq_false_iff {c : Char} : clashes c = false ↔
    c.isDigit = false ∧ isBlank c = false ∧ ∀ o : Operator, c ≠ o.symbol := by
  have hsymbol : (Operator.ofSymbol? c).isSome = false ↔ ∀ o : Operator, c ≠ o.symbol := by
    rw [Option.isSome_eq_false_iff, Option.isNone_iff_eq_none, Option.eq_none_iff_forall_ne_some]
    simp only [ne_eq, Operator.ofSymbol?_eq_some_iff]
  rw [← hsymbol]
  unfold clashes
  simp [and_assoc]

namespace Numeral

variable {point : Char}

theorem eq_of_append {n n' : Numeral} {rest rest' : List Char} (hp : point.isDigit = false)
    (h : n.chars point ++ rest = n'.chars point ++ rest')
    (hrest : NoDigitAhead rest) (hpoint : point ∉ rest.head?)
    (hrest' : NoDigitAhead rest') (hpoint' : point ∉ rest'.head?) : n = n' := by
  have htail (m : Numeral) {t : List Char} (ht : NoDigitAhead t) :
      NoDigitAhead (m.tailChars point ++ t) := by
    unfold tailChars
    split
    · exact ht
    · rintro c ⟨⟩
      exact hp
  have hsplit := congrArg Sign.split h
  rw [split_chars_append, split_chars_append, Prod.mk.injEq] at hsplit
  obtain ⟨hsign, hbody⟩ := hsplit
  have htake := congrArg (List.takeWhile Char.isDigit) hbody
  have hdrop := congrArg (List.dropWhile Char.isDigit) hbody
  rw [takeWhile_front n.whole_run.2 (htail n hrest),
    takeWhile_front n'.whole_run.2 (htail n' hrest')] at htake
  rw [dropWhile_front n.whole_run.2 (htail n hrest),
    dropWhile_front n'.whole_run.2 (htail n' hrest')] at hdrop
  have hfraction : n.fraction = n'.fraction := by
    unfold tailChars at hdrop
    by_cases hf : n.fraction = [] <;> by_cases hf' : n'.fraction = []
    · rw [hf, hf']
    · rw [if_pos hf, if_neg hf', List.nil_append] at hdrop
      exact absurd (by rw [hdrop]; rfl) hpoint
    · rw [if_neg hf, if_pos hf', List.nil_append] at hdrop
      exact absurd (by rw [← hdrop]; rfl) hpoint'
    · rw [if_neg hf, if_neg hf', List.cons_append, List.cons_append] at hdrop
      have hmore := congrArg (List.takeWhile Char.isDigit) (List.cons.inj hdrop).2
      rwa [takeWhile_front n.fraction_digits hrest,
        takeWhile_front n'.fraction_digits hrest'] at hmore
  cases n
  cases n'
  simp only at hsign htake hfraction
  subst hsign htake hfraction
  rfl

theorem chars_injective (hp : point.isDigit = false) {n n' : Numeral}
    (h : n.chars point = n'.chars point) : n = n' := by
  have hread := read?_chars hp n
  rw [h, read?_chars hp n'] at hread
  exact (Option.some.inj hread).symm

end Numeral

namespace Expression

variable {point : Char} {cs : List Char} {left right left' right' : Numeral}
  {operator operator' : Operator}

/-- Under a point that has no other meaning a text is cut in one way at most. -/
theorem cut_unique (hpoint : Separators.clashes point = false)
    (h : Cut point cs left operator right) (h' : Cut point cs left' operator' right') :
    left = left' ∧ operator = operator' ∧ right = right' := by
  obtain ⟨hdigit, hblank, hsymbol⟩ := Separators.clashes_eq_false_iff.mp hpoint
  obtain ⟨rest, last, hleft, hop, -⟩ := cut_iff.mp h
  obtain ⟨rest', last', hleft', hop', -⟩ := cut_iff.mp h'
  have hclear {rest last : List Char} {o : Operator} (ho : dropBlanks rest = o.symbol :: last) :
      point ∉ rest.head? := by
    intro hmem
    rcases head?_of_dropBlanks ho point hmem with hb | hs
    · rw [hblank] at hb
      cases hb
    · exact hsymbol o hs
  have hl : left = left' := Numeral.eq_of_append hdigit (hleft.symm.trans hleft')
    (noDigitAhead_of_dropBlanks hop) (hclear hop) (noDigitAhead_of_dropBlanks hop') (hclear hop')
  subst hl
  have hsame := Reads.eq_of_length_left ⟨left, operator, right, h, rfl⟩
    ⟨left, operator', right', h', rfl⟩ (by rw [length_left_ofNumerals, length_left_ofNumerals])
  simp only [ofNumerals, mk.injEq, String.ofList_inj, true_and] at hsame
  exact ⟨rfl, hsame.1, Numeral.chars_injective hdigit hsame.2⟩

theorem Reads.unique {e e' : Expression} (hpoint : Separators.clashes point = false)
    (h : Reads point cs e) (h' : Reads point cs e') : e = e' := by
  obtain ⟨left, operator, right, hcut, rfl⟩ := h
  obtain ⟨left', operator', right', hcut', rfl⟩ := h'
  obtain ⟨rfl, rfl, rfl⟩ := cut_unique hpoint hcut hcut'
  rfl

end Expression

/-! ## Parsing -/

namespace Settings

open Expression (Reads)

variable {settings : Settings} {input : String}

theorem parse_of_longer (h : settings.maxLength < input.length) :
    settings.parse input = .error (.inputTooLong settings.maxLength) := if_pos h

theorem parse_eq_ok_iff {e : Expression} (h : input.length ≤ settings.maxLength) :
    settings.parse input = .ok e ↔
      Expression.ofText? settings.separators.point input = some e := by
  unfold parse Expression.parts?
  rw [if_neg (by omega)]
  cases Expression.ofText? settings.separators.point input with
  | some found => simp [Expression.ofParts_parts]
  | none =>
    simp only [Option.map_none, reduceCtorEq, iff_false]
    split <;> simp

theorem exists_numerals_of_parse {e : Expression} (h : settings.parse input = .ok e) :
    ∃ left operator right, e = .ofNumerals settings.separators.point left operator right := by
  by_cases hlong : settings.maxLength < input.length
  · rw [parse_of_longer hlong] at h
    cases h
  · rw [parse_eq_ok_iff (not_lt.mp hlong), Expression.ofText?_eq_some_iff] at h
    obtain ⟨⟨left, operator, right, -, he⟩, -⟩ := h
    exact ⟨left, operator, right, he⟩

/-- What is wrong with a text that is no expression. -/
def shapeFault (settings : Settings) (input : String) : EvaluationFault :=
  if settings.separators.grouping ∈ input.toList then
    .operand (.groupingSeparator settings.separators.point)
  else
    .malformed settings.separators.point

theorem parse_of_not_reads (h : input.length ≤ settings.maxLength)
    (hnone : ¬ ∃ e, Reads settings.separators.point input.toList e) :
    settings.parse input = .error (settings.shapeFault input) := by
  unfold parse shapeFault Expression.parts?
  rw [if_neg (by omega), Expression.ofText?_eq_none_iff.mpr hnone]
  dsimp only [Option.map_none]
  split <;> rfl

/-- An input that is not too long is an expression exactly when it can be cut, and of all
cuts the one with the longest left number is taken, which fixes its other parts. Under
settings without a fault there is no second cut. An input that cannot be cut is
malformed, and where it has a grouping character, that is named. -/
theorem the_longest_cut_is_taken (settings : Settings) (input : String)
    (h : input.length ≤ settings.maxLength) :
    let point := settings.separators.point
    ((∃ e, settings.parse input = .ok e) ↔ ∃ e, Reads point input.toList e) ∧
      (∀ e, settings.parse input = .ok e ↔
        Reads point input.toList e ∧
          ∀ e', Reads point input.toList e' → e'.left.length ≤ e.left.length) ∧
      (∀ e e', Reads point input.toList e → Reads point input.toList e' →
        e.left.length = e'.left.length → e = e') ∧
      (settings.Valid → ∀ e e', Reads point input.toList e → Reads point input.toList e' →
        e = e') ∧
      ((¬ ∃ e, Reads point input.toList e) → settings.parse input =
        .error (if settings.separators.grouping ∈ input.toList then
          .operand (.groupingSeparator point) else .malformed point)) := by
  intro point
  have hlongest (e : Expression) : settings.parse input = .ok e ↔
      Reads point input.toList e ∧
        ∀ e', Reads point input.toList e' → e'.left.length ≤ e.left.length :=
    (parse_eq_ok_iff h).trans Expression.ofText?_eq_some_iff
  refine ⟨?_, hlongest, fun _ _ he he' => he.eq_of_length_left he', ?_, parse_of_not_reads h⟩
  · refine ⟨?_, ?_⟩
    · rintro ⟨e, he⟩
      exact ⟨e, ((hlongest e).mp he).1⟩
    · intro hreads
      by_contra hnone
      have : Expression.ofText? point input = none := by
        rw [Option.eq_none_iff_forall_ne_some]
        exact fun e he => hnone ⟨e, (parse_eq_ok_iff h).mpr he⟩
      exact Expression.ofText?_eq_none_iff.mp this hreads
  · intro hvalid e e' he he'
    obtain ⟨-, -, -, -, -, hpoint, -⟩ := valid_iff.mp hvalid
    exact he.unique hpoint he'

/-- A plus for the point makes a sum of three numbers two sums. -/
theorem the_longest_cut_of_two_pluses :
    "1+2+3".length ≤ 100 ∧ ∀ e, Reads '+' "1+2+3".toList e → e.left.length ≤ 3 :=
  ⟨by decide +kernel, (((the_longest_cut_is_taken { separators := ⟨'+', ','⟩ } "1+2+3"
    (by decide +kernel)).2.1 ⟨"1+2", .add, "3"⟩).mp (by decide +kernel)).2⟩

end Settings

end Reckoner
