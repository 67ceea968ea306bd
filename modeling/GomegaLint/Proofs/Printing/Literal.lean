import Mathlib
import GomegaLint.Proofs.Printing.Lexer

/-!
# Words, literals and comments in front of other text

A word is cut whole in front of anything that does not go on with a letter or a
digit.  So is a literal, with one exception (`Lexeme.takesPoint`): a point behind
an integer is read as its fraction, always behind a decimal one and behind a
hexadecimal one if an exponent follows.  A comment is cut whole in front of anything,
but one that runs to the end of its line takes what follows on the line
(`Lexeme.takesLine`).

The functions that read numbers are steady: where a text goes on in another way,
they take the same as at its end.
-/

namespace GomegaLint

namespace Lexeme

/-! ## Steady reading -/

/-- The text does not go on with a letter, a digit or an underscore. -/
def Apart (behind : List Char) : Prop := ∀ c ∈ behind.head?, isWordChar c = false

theorem Apart.cons {c : Char} (noWord : isWordChar c = false) (r : List Char) : Apart (c :: r) := by
  rintro d ⟨⟩
  exact noWord

/-- The text does not go on with a sign. -/
def Unsigned (behind : List Char) : Prop := ∀ c ∈ behind.head?, c ≠ '+' ∧ c ≠ '-'

/-- A class of characters that words are made of does not open what is apart. -/
theorem Apart.head {behind : List Char} (apart : Apart behind) {isKind : Char → Bool}
    (word : ∀ c, isKind c = true → isWordChar c = true) : ∀ c ∈ behind.head?, isKind c = false := by
  intro c opens
  by_contra kind
  have := word c (by simpa using kind)
  rw [apart c opens] at this
  cases this

theorem isWordChar_of_isDigit (c : Char) (digit : c.isDigit = true) : isWordChar c = true := by
  simp [isWordChar, digit]

theorem isWordChar_of_isHexDigit (c : Char) (digit : isHexDigit c = true) :
    isWordChar c = true := by
  simp only [isHexDigit, Bool.or_eq_true, Bool.and_eq_true, decide_eq_true_eq] at digit
  rcases digit with (digit | ⟨above, below⟩) | ⟨above, below⟩
  · simp [isWordChar, digit]
  · have lower : c.isLower = true := by
      simp only [Char.isLower, ge_iff_le, Bool.and_eq_true, decide_eq_true_eq]
      exact ⟨above, below.trans (by decide : 'f' ≤ 'z')⟩
    simp [isWordChar, isLetter, Char.isAlpha, lower]
  · have upper : c.isUpper = true := by
      simp only [Char.isUpper, ge_iff_le, decide_eq_true_eq]
      exact ⟨above, below.trans (by decide : 'F' ≤ 'Z')⟩
    simp [isWordChar, isLetter, Char.isAlpha, upper]

theorem span_steady {q : Char → Bool} {behind : List Char}
    (stops : ∀ c ∈ behind.head?, q c = false) (v : List Char) :
    (v ++ behind).span q = ((v.span q).1, (v.span q).2 ++ behind) := by
  simp only [List.span_eq_takeWhile_dropWhile]
  induction v with
  | nil =>
      cases behind with
      | nil => rfl
      | cons c cs => simp [stops c rfl]
  | cons c v ih =>
      cases taken : q c with
      | false => simp [taken]
      | true =>
          simp only [Prod.mk.injEq] at ih
          simp [taken, ih.1, ih.2]

section

variable {isDigit : Char → Bool} {behind : List Char} (apart : Apart behind)
  (digit : ∀ c, isDigit c = true → isWordChar c = true)

include apart digit

theorem digits_steady (v : List Char) :
    digits isDigit (v ++ behind) = ((digits isDigit v).1, (digits isDigit v).2 ++ behind) := by
  refine span_steady (fun c opens => ?_) v
  have noUnderscore : c ≠ '_' := by
    rintro rfl
    cases apart _ opens
  simp [apart.head digit c opens, noUnderscore]

theorem fraction_steady {v : List Char} (noPoint : v ≠ [] ∨ behind.head? ≠ some '.') :
    fraction isDigit (v ++ behind) =
      ((fraction isDigit v).1, (fraction isDigit v).2 ++ behind) := by
  cases v with
  | nil =>
      have noPoint : behind.head? ≠ some '.' := by simpa using noPoint
      cases behind with
      | nil => rfl
      | cons c cs =>
          have other : c ≠ '.' := by simpa using noPoint
          simp [fraction, other]
  | cons c v =>
      by_cases point : c = '.'
      · subst point
        simp [fraction, digits_steady apart digit v]
      · simp [fraction, point]

end

/-- The marks of exponents are letters. -/
def AreMarks (marks : List Char) : Prop := ∀ m ∈ marks, isWordChar m = true

theorem exponent_steady {marks v behind : List Char} (apart : Apart behind)
    (letters : AreMarks marks) (noSign : Unsigned behind ∨ ∀ m ∈ marks, v ≠ [m]) :
    exponent marks (v ++ behind) = ((exponent marks v).1, (exponent marks v).2 ++ behind) := by
  have noDigit := apart.head isWordChar_of_isDigit
  have steady := digits_steady apart isWordChar_of_isDigit
  match v with
  | [] =>
      cases behind with
      | nil => rfl
      | cons c cs =>
          have noMark : c ∉ marks := fun mark => by
            have := letters c mark
            rw [apart c rfl] at this
            cases this
          simp [exponent, noMark]
  | [m] =>
      by_cases mark : m ∈ marks
      · have unsigned : Unsigned behind := noSign.resolve_right fun other => other m mark rfl
        cases behind with
        | nil => simp [exponent, mark]
        | cons c cs =>
            simp [exponent, mark, noDigit c rfl, (unsigned c rfl).1, (unsigned c rfl).2]
      · simp [exponent, mark]
  | m :: s :: ds =>
      by_cases mark : m ∈ marks
      · by_cases sign : s = '+' ∨ s = '-'
        · simp [exponent, mark, sign, steady ds]
        · by_cases isDigit : s.isDigit = true
          · have taken := steady (s :: ds)
            simp only [List.cons_append] at taken
            simp [exponent, mark, sign, isDigit, taken]
          · simp [exponent, mark, sign, isDigit]
      · simp [exponent, mark]

/-- A mark with nothing behind it is no exponent. -/
theorem exponent_mark (marks : List Char) (m : Char) : exponent marks [m] = ([], [m]) := by
  simp [exponent]

/-! ## Numbers -/

/-- A number is read to its end, but for the mark of an imaginary one. -/
def Ended (left : List Char) : Prop := left = [] ∨ left = ['i']

theorem Ended.ne_mark {left : List Char} (ended : Ended left) {m : Char} (mark : m ≠ 'i') :
    left ≠ [m] := by
  rintro rfl
  simp [Ended, mark] at ended

/-- What stands behind a run of digits is no fraction of it. -/
def NoFraction (isDigit : Char → Bool) (v behind : List Char) : Prop :=
  (digits isDigit v).2 ≠ [] ∨ behind.head? ≠ some '.'

theorem decimal_steady {v behind : List Char} (apart : Apart behind)
    (noFraction : NoFraction Char.isDigit v behind)
    (noSign : Unsigned behind ∨ Ended (decimal v).2.2) :
    decimal (v ++ behind) = ((decimal v).1, (decimal v).2.1, (decimal v).2.2 ++ behind) := by
  have power : Unsigned behind ∨
      ∀ m ∈ ['e', 'E'], (fraction Char.isDigit (digits Char.isDigit v).2).2 ≠ [m] := by
    refine noSign.imp_right fun ended m mark pending => ?_
    simp only [decimal, pending, exponent_mark] at ended
    exact ended.ne_mark (by rintro rfl; simp at mark) rfl
  simp only [decimal, digits_steady apart isWordChar_of_isDigit,
    fraction_steady apart isWordChar_of_isDigit noFraction,
    exponent_steady apart (by simp [AreMarks, isWordChar, isLetter]) power]

theorem hexadecimal_steady {v behind : List Char} (apart : Apart behind)
    (noFraction : NoFraction isHexDigit v behind)
    (noSign : Unsigned behind ∨ Ended (hexadecimal v).2.2) :
    hexadecimal (v ++ behind) =
      ((hexadecimal v).1, (hexadecimal v).2.1, (hexadecimal v).2.2 ++ behind) := by
  have power : Unsigned behind ∨
      ∀ m ∈ ['p', 'P'], (fraction isHexDigit (digits isHexDigit v).2).2 ≠ [m] := by
    refine noSign.imp_right fun ended m mark pending => ?_
    -- Without an exponent only the whole part is read, so the mark is left over.
    simp only [hexadecimal, pending, exponent_mark, List.isEmpty_nil, if_true] at ended
    rcases ended with none_left | imaginary
    · simp [none_left, fraction] at pending
    · simp only [imaginary, fraction] at pending
      cases pending
      simp at mark
  simp only [hexadecimal, digits_steady apart isWordChar_of_isHexDigit,
    fraction_steady apart isWordChar_of_isHexDigit noFraction,
    exponent_steady apart (by simp [AreMarks, isWordChar, isLetter]) power]
  split <;> rfl

/-- A point behind a number is read as its fraction: behind a decimal integer, and
behind a hexadecimal one that so gets an exponent. -/
def takesPoint (v behind : List Char) : Bool :=
  behind.head? == some '.' &&
    match v with
    | '0' :: c :: w =>
      if c == 'x' || c == 'X' then
        (digits isHexDigit w).2.isEmpty &&
          !(exponent ['p', 'P'] (fraction isHexDigit behind).2).1.isEmpty
      else if c == 'b' || c == 'B' || c == 'o' || c == 'O' then false
      else (digits Char.isDigit v).2.isEmpty
    | _ => (digits Char.isDigit v).2.isEmpty

/-- The letter behind a zero marks another base. -/
def isBase (c : Char) : Bool :=
  c == 'x' || c == 'X' || c == 'b' || c == 'B' || c == 'o' || c == 'O'

theorem other_base {c : Char} (base : isBase c ≠ false) (x : ¬(c == 'x' || c == 'X') = true) :
    (c == 'b' || c == 'B' || c == 'o' || c == 'O') = true := by
  simp only [isBase, ne_eq, Bool.not_eq_false, Bool.or_eq_true] at base x ⊢
  tauto

theorem isWordChar_of_isBase (c : Char) (base : isBase c = true) : isWordChar c = true := by
  simp only [isBase, Bool.or_eq_true, beq_iff_eq] at base
  rcases base with ((((rfl | rfl) | rfl) | rfl) | rfl) | rfl <;> decide

theorem realNumber_decimal {text : List Char}
    (noBase : ∀ c cs, text = '0' :: c :: cs → isBase c = false) :
    realNumber text = decimal text := by
  fun_cases realNumber text with
  | case1 c cs x => simp_all [isBase]
  | case2 c cs _ other => simp_all [isBase]
  | case3 | case4 => rfl

/-- What stands behind a decimal number gives it no other base. -/
theorem noBase_append {v behind : List Char} (apart : Apart behind)
    (noBase : ∀ c cs, v = '0' :: c :: cs → isBase c = false) :
    ∀ c cs, v ++ behind = '0' :: c :: cs → isBase c = false := by
  intro c cs whole
  match v with
  | [] =>
      have opens : behind.head? = some '0' := by simp only [List.nil_append] at whole; simp [whole]
      cases apart '0' opens
  | [z] =>
      have opens : behind.head? = some c := by simp_all
      exact apart.head isWordChar_of_isBase c opens
  | z :: d :: w =>
      simp only [List.cons_append, List.cons.injEq] at whole
      obtain ⟨rfl, rfl, -⟩ := whole
      exact noBase d w rfl

theorem takesPoint_decimal {v behind : List Char}
    (noBase : ∀ c cs, v = '0' :: c :: cs → isBase c = false) :
    takesPoint v behind = (behind.head? == some '.' && (digits Char.isDigit v).2.isEmpty) := by
  unfold takesPoint
  split
  · rename_i c w
    have := noBase c w rfl
    simp only [isBase, Bool.or_eq_false_iff] at this
    simp [this]
  · rfl

/-- Without a fraction and without an exponent a hexadecimal number is its digits. -/
theorem hexadecimal_integer {w behind : List Char} (apart : Apart behind)
    (whole : (digits isHexDigit w).2 = [])
    (noPower : (exponent ['p', 'P'] (fraction isHexDigit behind).2).1 = []) :
    hexadecimal (w ++ behind) = (.int, (digits isHexDigit w).1, behind) := by
  simp [hexadecimal, digits_steady apart isWordChar_of_isHexDigit, whole, noPower]

theorem realNumber_steady {v behind : List Char} (apart : Apart behind)
    (noPoint : takesPoint v behind = false)
    (noSign : Unsigned behind ∨ Ended (realNumber v).2.2) :
    realNumber (v ++ behind) =
      ((realNumber v).1, (realNumber v).2.1, (realNumber v).2.2 ++ behind) := by
  by_cases noBase : ∀ c cs, v = '0' :: c :: cs → isBase c = false
  · rw [realNumber_decimal (noBase_append apart noBase)]
    rw [realNumber_decimal noBase] at noSign ⊢
    rw [takesPoint_decimal noBase] at noPoint
    refine decimal_steady apart ?_ noSign
    by_cases whole : (digits Char.isDigit v).2 = []
    · exact .inr (by simpa [whole] using noPoint)
    · exact .inl whole
  · push Not at noBase
    obtain ⟨c, w, rfl, base⟩ := noBase
    by_cases x : (c == 'x' || c == 'X') = true
    · simp only [realNumber, x, if_true, List.cons_append] at noSign ⊢
      simp only [takesPoint, x, if_true] at noPoint
      by_cases fraction : NoFraction isHexDigit w behind
      · rw [hexadecimal_steady apart fraction noSign]
      · simp only [NoFraction, not_or, not_not] at fraction
        obtain ⟨whole, point⟩ := fraction
        have noPower : (exponent ['p', 'P'] (Lexeme.fraction isHexDigit behind).2).1 = [] := by
          simpa [whole, point] using noPoint
        have alone : hexadecimal (w ++ []) = (.int, (digits isHexDigit w).1, []) :=
          hexadecimal_integer (by simp [Apart]) whole (by simp [Lexeme.fraction, exponent])
        rw [List.append_nil] at alone
        rw [hexadecimal_integer apart whole noPower, alone]
        rfl
    · simp [realNumber, x, other_base base x, digits_steady apart isWordChar_of_isDigit]

theorem number_steady {v behind : List Char} (apart : Apart behind)
    (noPoint : takesPoint v behind = false) (noSign : Unsigned behind ∨ (number v).2.2 = []) :
    number (v ++ behind) = ((number v).1, (number v).2.1, (number v).2.2 ++ behind) := by
  have ended : (number v).2.2 = [] → Ended (realNumber v).2.2 := by
    fun_cases number v with
    | case1 r rest imaginary => rintro rfl; exact .inr imaginary
    | case2 r real => exact .inl
  have steady := realNumber_steady apart noPoint (noSign.imp_right ended)
  fun_cases number v with
  | case1 r rest imaginary =>
      simp +zetaDelta only at imaginary
      simp +zetaDelta [number, steady, imaginary]
  | case2 r real =>
      simp +zetaDelta only at real
      unfold number
      simp only [steady]
      split
      · rename_i rest imaginary
        cases left : (realNumber v).2.2 with
        | nil =>
            simp only [left, List.nil_append] at imaginary
            have : isWordChar 'i' = false := apart 'i' (by simp [imaginary])
            cases this
        | cons c cs =>
            simp only [left, List.cons_append, List.cons.injEq] at imaginary
            exact (real cs (by rw [left, imaginary.1])).elim
      · rfl

theorem realNumber_length_le (cs : List Char) :
    (realNumber cs).2.1.length ≤ (number cs).2.1.length := by
  fun_cases number cs with
  | case1 => simp +zetaDelta
  | case2 => exact Nat.le_refl _

/-- A point that continues a number is taken with it. -/
theorem number_takesPoint {v behind : List Char} (point : takesPoint v behind = true) :
    v.length < (number (v ++ behind)).2.1.length := by
  refine Nat.lt_of_lt_of_le ?_ (realNumber_length_le _)
  obtain ⟨more, rfl⟩ : ∃ more, behind = '.' :: more := by
    cases behind with
    | nil => simp [takesPoint] at point
    | cons c more =>
        have : c = '.' := by
          simp only [takesPoint, List.head?_cons, Bool.and_eq_true, beq_iff_eq, Option.some.injEq]
            at point
          exact point.1
        exact ⟨more, by rw [this]⟩
  have apart : Apart ('.' :: more) := by simp [Apart, isWordChar, isLetter]
  by_cases noBase : ∀ c cs, v = '0' :: c :: cs → isBase c = false
  · rw [realNumber_decimal (noBase_append apart noBase)]
    have whole : (digits Char.isDigit v).2 = [] := by
      simpa [takesPoint_decimal noBase] using point
    have all := digits_append Char.isDigit v
    rw [whole, List.append_nil] at all
    simp [decimal, digits_steady apart isWordChar_of_isDigit, whole, all, fraction]
  · push Not at noBase
    obtain ⟨c, w, rfl, base⟩ := noBase
    by_cases x : (c == 'x' || c == 'X') = true
    · simp only [takesPoint, x, if_true, List.head?_cons, beq_self_eq_true, Bool.true_and,
        Bool.and_eq_true, List.isEmpty_iff, Bool.not_eq_true'] at point
      obtain ⟨whole, power⟩ := point
      have power : (exponent ['p', 'P'] (digits isHexDigit more).2).1 ≠ [] := by
        simpa [fraction] using power
      have all := digits_append isHexDigit w
      rw [whole, List.append_nil] at all
      simp [realNumber, x, hexadecimal, digits_steady apart isWordChar_of_isHexDigit, whole, all,
        power, fraction]
    · simp [takesPoint, x, other_base base x] at point

/-! ## Quoted literals -/

theorem quoted_cons {close c : Char} (noEscape : c ≠ '\\') (cs : List Char) :
    quoted close (c :: cs) =
      if c = close then ([c], cs) else (c :: (quoted close cs).1, (quoted close cs).2) := by
  rw [quoted]
  rintro d ds rfl
  exact absurd rfl noEscape

/-- A literal that is closed does not go on. -/
theorem quoted_steady {close : Char} (noBlank : close ≠ ' ') (noEscape : close ≠ '\\')
    {v : List Char} (closed : quoted close (v ++ [' ']) = (v, [' '])) (behind : List Char) :
    quoted close (v ++ behind) = (v, behind) := by
  induction v using quoted.induct close with
  | case1 c cs ih =>
      simp only [List.cons_append, quoted, Prod.mk.injEq, List.cons.injEq, true_and] at closed
      simp [quoted, ih (Prod.ext closed.1 closed.2)]
  | case2 cs _ =>
      simp only [List.cons_append, quoted_cons noEscape, if_true, Prod.mk.injEq, List.cons.injEq,
        true_and] at closed
      simp [quoted_cons noEscape, ← closed.1]
  | case3 c cs plain other ih =>
      by_cases escape : c = '\\'
      · cases cs with
        | nil => simp [escape, quoted] at closed
        | cons d ds => exact (plain d ds escape rfl).elim
      · simp only [List.cons_append, quoted_cons escape, other, if_false, Prod.mk.injEq,
          List.cons.injEq, true_and] at closed
        simp [quoted_cons escape, other, ih (Prod.ext closed.1 closed.2)]
  | case4 => simp [quoted_cons (show ' ' ≠ '\\' by decide), noBlank.symm] at closed

theorem rawQuoted_steady {v : List Char} (closed : rawQuoted (v ++ [' ']) = (v, [' ']))
    (behind : List Char) : rawQuoted (v ++ behind) = (v, behind) := by
  induction v using rawQuoted.induct with
  | case1 cs =>
      simp only [List.cons_append, rawQuoted, Prod.mk.injEq, List.cons.injEq, true_and] at closed
      simp [rawQuoted, ← closed.1]
  | case2 c cs other ih =>
      simp only [List.cons_append, rawQuoted, Prod.mk.injEq, List.cons.injEq, true_and] at closed
      simp [rawQuoted, ih (Prod.ext closed.1 closed.2)]
  | case3 => simp [rawQuoted] at closed

/-! ## Literals and words as lexemes -/

/-- A literal: before a blank it is cut off whole. -/
def isLiteral (v : List Char) : Bool :=
  match opening (v ++ [' ']) with
  | (.literal _, text, _) => text == v
  | _ => false

/-- A text that opens with a digit, or with a point and a digit. -/
def opensNumber : List Char → Bool
  | '.' :: c :: _ => c.isDigit
  | c :: _ => c.isDigit
  | [] => false

theorem isLetter_of_isDigit {c : Char} (digit : c.isDigit = true) : isLetter c = false := by
  simp only [Char.isDigit, Bool.and_eq_true, decide_eq_true_eq, ge_iff_le] at digit
  have above : 48 ≤ c.toNat := digit.1
  have below : c.toNat ≤ 57 := digit.2
  have noUnderscore : c ≠ '_' := by
    rintro rfl
    exact absurd below (by decide)
  simp only [isLetter, Char.isAlpha, Char.isUpper, Char.isLower, Bool.or_eq_false_iff,
    Bool.and_eq_false_iff, decide_eq_false_iff_not, beq_eq_false_iff_ne, UInt32.le_iff_toNat_le,
    ge_iff_le]
  change ((¬(65 ≤ c.toNat ∧ c.toNat ≤ 90) ∧ (¬97 ≤ c.toNat ∨ ¬c.toNat ≤ 122)) ∧ c ≠ '_') ∧
    ¬128 ≤ c.toNat
  exact ⟨⟨⟨by omega, by omega⟩, noUnderscore⟩, by omega⟩

theorem isSpecial_of_isWordChar {c : Char} (word : isWordChar c = true) : isSpecial c = false := by
  by_contra special
  simp only [isSpecial, Bool.not_eq_false, Bool.or_eq_true, beq_iff_eq] at special
  rcases special with (((rfl | rfl) | rfl) | rfl) | rfl <;> cases word

/-- A blank opens no word, no literal and no comment. -/
theorem not_isBlank {c : Char} (code : isSpecial c = true ∨ isWordChar c = true) :
    isBlank c = false := by
  by_contra blank
  simp only [isBlank, Bool.not_eq_false, Bool.or_eq_true, beq_iff_eq] at blank
  rcases blank with ((((rfl | rfl) | rfl) | rfl) | rfl) | rfl <;> revert code <;> decide

theorem opening_number {cs : List Char} (number : opensNumber cs = true) :
    opening cs = (.literal (Lexeme.number cs).1, (Lexeme.number cs).2) := by
  revert number
  fun_cases opensNumber cs with
  | case1 c rest =>
      intro digit
      simp [opening, digit]
  | case2 c rest noPoint =>
      intro digit
      have plain := isSpecial_of_isWordChar (isWordChar_of_isDigit c digit)
      simp [opening_plain plain, isLetter_of_isDigit digit, digit]
  | case3 => rintro ⟨⟩

theorem opensNumber_of_isDigit {c : Char} (digit : c.isDigit = true) (cs : List Char) :
    opensNumber (c :: cs) = true := by
  have noPoint : c ≠ '.' := by
    rintro rfl
    cases digit
  simpa [opensNumber, noPoint] using digit

theorem opensNumber_append {v : List Char} (opens : opensNumber v = true) (behind : List Char) :
    opensNumber (v ++ behind) = true := by
  revert opens
  fun_cases opensNumber v with
  | case1 c rest => exact fun digit => digit
  | case2 c rest noPoint => exact fun digit => opensNumber_of_isDigit digit _
  | case3 => rintro ⟨⟩

/-- A blank is no part of what makes a number. -/
theorem opensNumber_of_blank {v : List Char} (opens : opensNumber (v ++ [' ']) = true) :
    opensNumber v = true := by
  match v with
  | [] => cases opens
  | c :: d :: w =>
      by_cases point : c = '.'
      · subst point
        exact opens
      · simpa [opensNumber, point] using opens
  | [c] =>
      by_cases point : c = '.'
      · subst point
        cases opens
      · simpa [opensNumber, point] using opens

/-- A point that no digit follows opens a symbol. -/
theorem opening_point {cs : List Char} (noDigit : ∀ c ∈ cs.head?, c.isDigit = false) :
    opening ('.' :: cs) = (.symbol, [], '.' :: cs) := by
  cases cs with
  | nil => rfl
  | cons c cs => simp [opening, noDigit c rfl]

/-- A text opens with a literal if it opens with a quote or a number. -/
theorem opening_literal {cs text rest : List Char} {t : Terminal}
    (opens : opening cs = (.literal t, text, rest)) :
    (∃ close w, (close = '"' ∨ close = '\'') ∧ text = close :: (quoted close w).1 ∧
        rest = (quoted close w).2) ∨
      (∃ w, text = '\x60' :: (rawQuoted w).1 ∧ rest = (rawQuoted w).2) ∨
      opensNumber cs = true := by
  revert opens
  fun_cases opening cs with
  | case1 | case2 | case3 | case8 | case9 | case11 | case12 => rintro ⟨⟩
  | case4 w =>
      rintro ⟨⟩
      exact .inl ⟨'"', w, .inl rfl, rfl, rfl⟩
  | case5 w =>
      rintro ⟨⟩
      exact .inl ⟨'\'', w, .inr rfl, rfl, rfl⟩
  | case6 w =>
      rintro ⟨⟩
      exact .inr (.inl ⟨w, rfl, rfl⟩)
  | case7 c w digit => exact fun _ => .inr (.inr digit)
  | case10 c w _ _ _ _ _ _ _ digit => exact fun _ => .inr (.inr (opensNumber_of_isDigit digit w))

/-- A literal is quoted or a number. -/
theorem isLiteral_cases {v : List Char} (literal : isLiteral v = true) :
    (∃ close w, (close = '"' ∨ close = '\'') ∧ v = close :: w ∧
        quoted close (w ++ [' ']) = (w, [' '])) ∨
      (∃ w, v = '\x60' :: w ∧ rawQuoted (w ++ [' ']) = (w, [' '])) ∨
      opensNumber v = true ∧ (number v).2 = (v, []) := by
  have parts := opening_append (v ++ [' '])
  unfold isLiteral at literal
  split at literal
  · rename_i t text rest found
    obtain rfl := eq_of_beq literal
    rw [found] at parts
    obtain rfl : rest = [' '] := List.append_cancel_left parts
    rcases opening_literal found with ⟨close, w, quote, taken, left⟩ | ⟨w, taken, left⟩ | opens
    · have whole : (quoted close w).1 ++ [' '] = w := by
        rw [left]
        exact quoted_append close w
      exact .inl ⟨close, _, quote, taken, by rw [whole]; exact Prod.ext rfl left.symm⟩
    · have whole : (rawQuoted w).1 ++ [' '] = w := by
        rw [left]
        exact rawQuoted_append w
      exact .inr (.inl ⟨_, taken, by rw [whole]; exact Prod.ext rfl left.symm⟩)
    · have steady := @number_steady text [' '] (.cons (by decide) _) (by simp [takesPoint])
        (.inl (by simp [Unsigned]))
      rw [opening_number opens, steady] at found
      injection found with _ found
      injection found with taken left
      exact .inr (.inr ⟨opensNumber_of_blank opens,
        Prod.ext taken (List.append_left_eq_self.mp left)⟩)
  · cases literal

theorem cut_of_literal {cs text rest : List Char} {t : Terminal}
    (opens : opening cs = (.literal t, text, rest)) : cut cs = some (text, rest) := by
  simp [cut, opens]

/-- A quote is no digit. -/
theorem takesPoint_quote {close : Char} (quote : close ∈ ['"', '\'', '\x60'])
    (w behind : List Char) :
    takesPoint (close :: w) behind = false := by
  have other : close ≠ '0' ∧ close.isDigit = false ∧ close ≠ '_' := by
    simp only [List.mem_cons, List.not_mem_nil, or_false] at quote
    rcases quote with rfl | rfl | rfl <;> decide
  simp [takesPoint, other, digits, List.span_eq_takeWhile_dropWhile]

/-- **A literal is cut off whole unless it takes a point that follows it.** -/
theorem cut_literal_iff {v behind : List Char} (literal : isLiteral v = true)
    (apart : Apart behind) :
    cut (v ++ behind) = some (v, behind) ↔ takesPoint v behind = false := by
  rcases isLiteral_cases literal with
    ⟨close, w, quote, rfl, closed⟩ | ⟨w, rfl, closed⟩ | ⟨opens, whole⟩
  · have steady : quoted close (w ++ behind) = (w, behind) := by
      rcases quote with rfl | rfl
      · exact quoted_steady (by decide) (by decide) closed behind
      · exact quoted_steady (by decide) (by decide) closed behind
    refine iff_of_true ?_ (takesPoint_quote (by rcases quote with rfl | rfl <;> decide) w behind)
    rcases quote with rfl | rfl
    · exact cut_of_literal (t := .string) (by simp [opening, steady])
    · exact cut_of_literal (t := .rune) (by simp [opening, steady])
  · refine iff_of_true ?_ (takesPoint_quote (by decide) w behind)
    exact cut_of_literal (t := .rawString) (by simp [opening, rawQuoted_steady closed behind])
  · rw [cut_of_literal (opening_number (opensNumber_append opens behind))]
    constructor
    · intro cutOff
      by_contra point
      have longer := number_takesPoint (Bool.not_eq_false _ ▸ point)
      have taken : (number (v ++ behind)).2.1 = v := congrArg Prod.fst (Option.some.inj cutOff)
      rw [taken] at longer
      exact absurd longer (Nat.lt_irrefl _)
    · intro noPoint
      rw [number_steady apart noPoint (.inr (congrArg Prod.snd whole)), whole]
      rfl

/-- A word: a letter, and letters and digits behind it. -/
def isWord : List Char → Bool
  | c :: cs => isLetter c && cs.all isWordChar
  | [] => false

/-- A word is cut off whole. -/
theorem cut_word {w behind : List Char} (word : isWord w = true) (apart : Apart behind) :
    cut (w ++ behind) = some (w, behind) := by
  cases w with
  | nil => cases word
  | cons c cs =>
      simp only [isWord, Bool.and_eq_true, List.all_eq_true] at word
      have plain := isSpecial_of_isWordChar (show isWordChar c = true by simp [isWordChar, word.1])
      have all : (c :: cs).span isWordChar = (c :: cs, []) := by
        rw [List.span_eq_takeWhile_dropWhile, List.takeWhile_eq_self_iff.mpr,
          List.dropWhile_eq_nil_iff.mpr]
        · simpa [isWordChar, word.1] using word.2
        · simpa [isWordChar, word.1] using word.2
      have steady := span_steady apart (c :: cs)
      rw [all] at steady
      simp only [cut, List.cons_append, opening_plain plain, word.1, if_true]
      rw [← List.cons_append, steady]
      rfl

/-! ## Comments -/

/-- The character is part of a comment that runs to the end of its line. -/
def inLine (c : Char) : Bool := c != '\n' && c != '\x00'

/-- A comment: on its own it is cut off whole. -/
def isComment (v : List Char) : Bool :=
  match opening v with
  | (.comment, _, rest) => rest.isEmpty
  | _ => false

/-- What stands behind a comment on its line is read as part of it. -/
def takesLine (v behind : List Char) : Bool := ['/', '/'].isPrefixOf v && behind.head?.any inLine

theorem takesLine_nil (v : List Char) : takesLine v [] = false := Bool.and_false _

theorem takesLine_of_head? {v : List Char} (noSlash : v.head? ≠ some '/') (behind : List Char) :
    takesLine v behind = false := by
  cases v with
  | nil => rfl
  | cons c cs =>
      have other : '/' ≠ c := fun slash => noSlash (by rw [slash]; rfl)
      simp [takesLine, List.isPrefixOf, other]

/-- A comment runs to the end of its line or is closed. -/
theorem isComment_cases {v : List Char} (comment : isComment v = true) :
    (∃ w, v = '/' :: '/' :: w ∧ ∀ c ∈ w, inLine c = true) ∨
      ∃ w, v = '/' :: '*' :: w ∧ blockComment? w = some (w, []) := by
  unfold isComment at comment
  revert comment
  fun_cases opening v with
  | case1 w =>
      intro ended
      have ended : (w.span inLine).2 = [] := List.isEmpty_iff.mp ended
      rw [List.span_eq_takeWhile_dropWhile, List.dropWhile_eq_nil_iff] at ended
      exact .inl ⟨w, rfl, ended⟩
  | case2 w r closed =>
      intro ended
      have ended : r.2 = [] := List.isEmpty_iff.mp ended
      have taken := blockComment?_append closed
      rw [ended, List.append_nil] at taken
      exact .inr ⟨w, rfl, closed.trans (congrArg some (Prod.ext taken ended))⟩
  | case3 | case4 | case5 | case6 | case7 | case8 | case9 | case10 | case11 | case12 => rintro ⟨⟩

/-- A comment that is closed does not go on. -/
theorem blockComment?_steady {v : List Char} {r : List Char × List Char}
    (closed : blockComment? v = some r) (behind : List Char) :
    blockComment? (v ++ behind) = some (r.1, r.2 ++ behind) := by
  fun_induction blockComment? v generalizing r with
  | case1 cs =>
      cases closed
      rfl
  | case2 | case4 => cases closed
  | case3 c cs noClose noEnd ih =>
      obtain ⟨later, found, rfl⟩ := Option.map_eq_some_iff.mp closed
      have noClose' : ∀ ds, c = '*' → cs ++ behind = '/' :: ds → False := by
        intro ds star slash
        cases cs with
        | nil => cases found
        | cons d cs =>
            simp only [List.cons_append, List.cons.injEq] at slash
            exact noClose cs star (by rw [slash.1])
      rw [List.cons_append, blockComment?.eq_3 _ _ noClose' noEnd, ih found]
      rfl

/-- **A comment is cut off whole unless it takes what follows on its line.** -/
theorem cut_comment_iff {v : List Char} (comment : isComment v = true) (behind : List Char) :
    cut (v ++ behind) = some (v, behind) ↔ takesLine v behind = false := by
  rcases isComment_cases comment with ⟨w, rfl, line⟩ | ⟨w, rfl, closed⟩
  · have cutOff : cut ('/' :: '/' :: w ++ behind) =
        some ('/' :: '/' :: (w ++ behind.takeWhile inLine), behind.dropWhile inLine) := by
      change some ('/' :: '/' :: ((w ++ behind).span inLine).1, ((w ++ behind).span inLine).2) = _
      rw [List.span_eq_takeWhile_dropWhile, List.takeWhile_append_of_pos line,
        List.dropWhile_append_of_pos line]
    rw [cutOff]
    cases behind with
    | nil => simp [takesLine]
    | cons c cs =>
        cases taken : inLine c with
        | true => simp [takesLine, List.isPrefixOf, taken]
        | false => simp [takesLine, taken]
  · have noLine : takesLine ('/' :: '*' :: w) behind = false := by simp [takesLine, List.isPrefixOf]
    refine iff_of_true ?_ noLine
    simp [cut, opening, blockComment?_steady closed behind]

/-! ## How far the text behind a lexeme counts -/

/-- What stands in front of any other text decides, in its place, whether a number
takes a point, and opens as this text does. -/
structure Decides (b behind : List Char) : Prop where
  opens : b.head? = behind.head?
  point : ∀ p v, takesPoint v (p ++ b) = takesPoint v (p ++ behind)

theorem Decides.refl (b : List Char) : Decides b b := ⟨rfl, fun _ _ => rfl⟩

theorem Decides.after {b behind : List Char} (decides : Decides b behind) (q : List Char) :
    Decides (q ++ b) (q ++ behind) := by
  refine ⟨?_, fun p v => ?_⟩
  · rw [List.head?_append, List.head?_append, decides.opens]
  · rw [← List.append_assoc, ← List.append_assoc]
    exact decides.point (p ++ q) v

/-- A comment takes the line behind it where it takes what decides. -/
theorem Decides.line {b behind : List Char} (decides : Decides b behind) (v : List Char) :
    takesLine v b = takesLine v behind := by
  rw [takesLine, decides.opens, takesLine]

/-- The text opens with an exponent: a mark, and a sign or a digit behind it. -/
theorem exponent_isEmpty (marks : List Char) (cs : List Char) :
    (exponent marks cs).1.isEmpty =
      !(match cs with
        | m :: s :: _ => marks.contains m && (s == '+' || s == '-' || s.isDigit)
        | _ => false) := by
  match cs with
  | [] => rfl
  | [m] => simp [exponent_mark]
  | m :: s :: ds =>
      by_cases mark : m ∈ marks
      · by_cases sign : s = '+' ∨ s = '-'
        · rcases sign with rfl | rfl <;> simp [exponent, mark]
        · by_cases isDigit : s.isDigit = true
          · simp [exponent, mark, sign, isDigit]
          · have plain : s ≠ '+' ∧ s ≠ '-' := not_or.mp sign
            simp [exponent, mark, plain, isDigit]
      · simp [exponent, mark]

/-- Whether an exponent follows is decided at the first character that is in no word. -/
theorem exponent_isEmpty_append {marks : List Char} (letters : AreMarks marks) {c : Char}
    (noWord : isWordChar c = false) (l r : List Char) :
    (exponent marks (l ++ c :: r)).1.isEmpty = (exponent marks (l ++ [c])).1.isEmpty := by
  have noMark : c ∉ marks := fun mark => by
    rw [letters c mark] at noWord
    cases noWord
  rw [exponent_isEmpty, exponent_isEmpty]
  match l with
  | [] =>
      cases r with
      | nil => rfl
      | cons d r => simp [noMark]
  | [m] => rfl
  | m :: s :: ds => rfl

theorem takesPoint_congr {behind behind' : List Char} (heads : behind.head? = behind'.head?)
    (powers : (exponent ['p', 'P'] (fraction isHexDigit behind).2).1.isEmpty =
      (exponent ['p', 'P'] (fraction isHexDigit behind').2).1.isEmpty) (v : List Char) :
    takesPoint v behind = takesPoint v behind' := by
  unfold takesPoint
  rw [heads, powers]

theorem takesPoint_append {c : Char} (noWord : isWordChar c = false) {p : List Char}
    (decided : p ≠ [] ∨ c ≠ '.') (v r : List Char) :
    takesPoint v (p ++ [c]) = takesPoint v (p ++ c :: r) := by
  have letters : AreMarks ['p', 'P'] := by simp [AreMarks, isWordChar, isLetter]
  have apart : Apart (c :: r) := by simpa [Apart] using noWord
  have apart' : Apart [c] := by simpa [Apart] using noWord
  have steady := @digits_steady isHexDigit _ apart isWordChar_of_isHexDigit
  have steady' := @digits_steady isHexDigit _ apart' isWordChar_of_isHexDigit
  refine takesPoint_congr (by cases p <;> rfl) ?_ v
  cases p with
  | nil =>
      have noPoint : c ≠ '.' := by simpa using decided
      have power := exponent_isEmpty_append letters noWord [] r
      simpa [fraction, noPoint] using power.symm
  | cons x p =>
      by_cases point : x = '.'
      · subst point
        simp only [List.cons_append, fraction, steady, steady']
        exact (exponent_isEmpty_append letters noWord _ r).symm
      · have power := exponent_isEmpty_append letters noWord (x :: p) r
        simpa [fraction, point] using power.symm

/-- A character that is in no word and no point decides. -/
theorem Decides.char {c : Char} (noWord : isWordChar c = false) (noPoint : c ≠ '.')
    (r : List Char) : Decides [c] (c :: r) :=
  ⟨rfl, fun _ v => takesPoint_append noWord (.inr noPoint) v r⟩

/-- So does a text that opens with such a character. -/
theorem Decides.text {c : Char} (noWord : isWordChar c = false) (noPoint : c ≠ '.')
    (s r : List Char) : Decides (c :: s) (c :: s ++ r) :=
  ⟨rfl, fun p v => ((Decides.char noWord noPoint s).point p v).symm.trans
    ((Decides.char noWord noPoint (s ++ r)).point p v)⟩

theorem Decides.ellipsis (r : List Char) : Decides ['.', '.', '.'] ('.' :: '.' :: '.' :: r) := by
  refine ⟨rfl, fun p v => ?_⟩
  have decided := takesPoint_append (c := '.') (p := p ++ ['.', '.']) (by decide)
    (.inl (by simp)) v r
  simpa using decided

end Lexeme

end GomegaLint
