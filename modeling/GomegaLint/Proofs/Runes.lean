import Mathlib
import GomegaLint.Proofs.Numerals

/-!
# Values of rune literals

`Literal.Denotes` is the grammar of what stands between the quotes of a rune literal, with the code
point that it denotes.

Reading looks an escape up in a table of six, by the one character behind the backslash
(`Literal.escapesRead`).  For a short escape this character is all there is, and a hexadecimal one
has a letter there that the table does not have.  But an octal escape begins with its digits, and
one of the six is a digit: an escape that opens with a zero is read as zero, whatever its other
digits are.  These are the only literals that are misread (`Literal.rune?_faithful_iff`).
-/

namespace GomegaLint

namespace Literal

/-! ## The grammar -/

/-- The escapes of one character, with their code points. -/
def shortEscapes : List (Char × Nat) :=
  [('a', 7), ('b', 8), ('f', 12), ('n', 10), ('r', 13), ('t', 9), ('v', 11), ('\\', 92), ('\'', 39)]

/-- The letters in front of hexadecimal digits, with the number of digits. -/
def hexEscapes : List (Char × Nat) := [('x', 2), ('u', 4), ('U', 8)]

/-- The text between the quotes of a rune literal denotes a code point.  The escapes that write no
legal code point are included, with the number that they write. -/
inductive Denotes : List Char → Nat → Prop
  | single {c : Char} (plain : c ∉ ['\'', '\\', '\n']) : Denotes [c] c.toNat
  | short {c : Char} {n : Nat} (escape : (c, n) ∈ shortEscapes) : Denotes ['\\', c] n
  | octal {cs : List Char} {ds : List Nat} (digits : List.Forall₂ (IsDigit 8) cs ds)
      (three : ds.length = 3) : Denotes ('\\' :: cs) (valueOf 8 ds)
  | hex {m : Char} {width : Nat} {cs : List Char} {ds : List Nat} (mark : (m, width) ∈ hexEscapes)
      (digits : List.Forall₂ (IsDigit 16) cs ds) (all : ds.length = width) :
      Denotes ('\\' :: m :: cs) (valueOf 16 ds)

/-- A rune literal, the text between its quotes and its code point. -/
structure IsRune (text : String) (inner : List Char) (value : Nat) : Prop where
  quoted : text.toList = '\'' :: (inner ++ ['\''])
  denotes : Denotes inner value

/-! ## What is read -/

/-- The escapes that have a value, by the character behind the backslash. -/
def escapesRead : List (Char × Nat) :=
  [('n', 10), ('t', 9), ('r', 13), ('0', 0), ('\\', 92), ('\'', 39)]

theorem between?_quoted {text : String} {q : Char} {inner : List Char}
    (quoted : text.toList = q :: (inner ++ [q])) : between? q text = some inner := by
  simp [between?, quoted]

theorem rune?_single {text : String} {c : Char} (quoted : text.toList = '\'' :: ([c] ++ ['\''])) :
    rune? text = some (c.toNat : Int) := by
  simp [rune?, between?_quoted quoted]

/-- The first two characters decide: what follows an escape of the table is not looked at. -/
theorem rune?_of_mem {text : String} {c : Char} {n : Nat} {rest : List Char}
    (quoted : text.toList = '\'' :: (('\\' :: c :: rest) ++ ['\'']))
    (read : (c, n) ∈ escapesRead) : rune? text = some (n : Int) := by
  simp only [escapesRead, List.mem_cons, Prod.mk.injEq, List.not_mem_nil, or_false] at read
  rcases read with ⟨rfl, rfl⟩ | ⟨rfl, rfl⟩ | ⟨rfl, rfl⟩ | ⟨rfl, rfl⟩ | ⟨rfl, rfl⟩ | ⟨rfl, rfl⟩ <;>
    simp [rune?, between?_quoted quoted]

theorem rune?_of_notMem {text : String} {c : Char} {rest : List Char}
    (quoted : text.toList = '\'' :: (('\\' :: c :: rest) ++ ['\'']))
    (unread : c ∉ escapesRead.map Prod.fst) : rune? text = none := by
  simp only [escapesRead, List.map_cons, List.map_nil, List.mem_cons, List.not_mem_nil, or_false,
    not_or] at unread
  simp [rune?, between?_quoted quoted, unread]

/-! ## What is read of the literals of the grammar -/

theorem shortEscapes_agree :
    ∀ e ∈ shortEscapes, ∀ r ∈ escapesRead, r.1 = e.1 → r.2 = e.2 := by
  decide

theorem digitTable_zeroOnly : ∀ x ∈ digitTable, ∀ r ∈ escapesRead, r.1 = x.1 → r.1 = '0' := by
  decide

theorem hexEscapes_unread : ∀ m ∈ hexEscapes, ∀ r ∈ escapesRead, r.1 ≠ m.1 := by
  decide

/-- The table is right about every escape but those that open with a zero. -/
theorem Denotes.agrees {c : Char} {rest : List Char} {value : Nat}
    (denotes : Denotes ('\\' :: c :: rest) value) {n : Nat} (read : (c, n) ∈ escapesRead) :
    c = '0' ∨ n = value := by
  cases denotes with
  | short escape => exact .inr (shortEscapes_agree _ escape _ read rfl)
  | octal digits _ =>
      cases digits with
      | cons digit _ => exact .inl (digitTable_zeroOnly _ digit.written _ read rfl)
  | hex mark _ _ => exact (hexEscapes_unread _ mark _ read rfl).elim

/-- Without a backslash there is one character; behind a backslash there is another one. -/
theorem Denotes.single_or_escape {inner : List Char} {value : Nat}
    (denotes : Denotes inner value) :
    (∃ c, c ≠ '\\' ∧ inner = [c] ∧ value = c.toNat) ∨ ∃ c rest, inner = '\\' :: c :: rest := by
  cases denotes with
  | @single c plain =>
      have other : c ≠ '\\' := by
        rintro rfl
        exact plain (by decide)
      exact .inl ⟨c, other, rfl, rfl⟩
  | short _ => exact .inr ⟨_, _, rfl⟩
  | octal digits three =>
      cases digits with
      | nil => cases three
      | cons _ _ => exact .inr ⟨_, _, rfl⟩
  | hex _ _ _ => exact .inr ⟨_, _, rfl⟩

theorem escape_prefix_iff {c d : Char} {rest : List Char} :
    ['\\', c] <+: '\\' :: d :: rest ↔ c = d := by
  simp [List.cons_prefix_cons]

/-- A literal has a value exactly if it is a single character or one of the six escapes by the
character behind its backslash. -/
theorem IsRune.isSome_rune?_iff {text : String} {inner : List Char} {value : Nat}
    (rune : IsRune text inner value) :
    (rune? text).isSome ↔ ∀ c, ['\\', c] <+: inner → c ∈ escapesRead.map Prod.fst := by
  have quoted := rune.quoted
  obtain ⟨c, other, rfl, -⟩ | ⟨c, rest, rfl⟩ := rune.denotes.single_or_escape
  · rw [rune?_single quoted]
    simp [List.cons_prefix_cons]
  · simp only [escape_prefix_iff, forall_eq]
    by_cases read : c ∈ escapesRead.map Prod.fst
    · obtain ⟨⟨_, n⟩, entry, rfl⟩ := List.mem_map.mp read
      rw [rune?_of_mem quoted entry]
      exact iff_of_true rfl read
    · rw [rune?_of_notMem quoted read]
      exact iff_of_false (by decide) read

/-- The value of a literal is its code point, unless it is an escape that opens with a zero. -/
theorem IsRune.value_eq {text : String} {inner : List Char} {value : Nat}
    (rune : IsRune text inner value) (noZero : ¬ ['\\', '0'] <+: inner) {v : Int}
    (read : rune? text = some v) : v = value := by
  have quoted := rune.quoted
  obtain ⟨c, -, rfl, rfl⟩ | ⟨c, rest, rfl⟩ := rune.denotes.single_or_escape
  · exact Option.some.inj (read.symm.trans (rune?_single quoted))
  · by_cases known : c ∈ escapesRead.map Prod.fst
    · obtain ⟨⟨_, n⟩, entry, rfl⟩ := List.mem_map.mp known
      have value_n : v = n := Option.some.inj (read.symm.trans (rune?_of_mem quoted entry))
      obtain zero | agree := rune.denotes.agrees entry
      · exact absurd (escape_prefix_iff.mpr zero.symm) noZero
      · rw [value_n, agree]
    · rw [rune?_of_notMem quoted known] at read
      cases read

/-- An escape that opens with a zero is read as zero. -/
theorem IsRune.rune?_zero {text : String} {inner : List Char} {value : Nat}
    (rune : IsRune text inner value) (zero : ['\\', '0'] <+: inner) : rune? text = some 0 := by
  obtain ⟨rest, rfl⟩ := zero
  exact rune?_of_mem (c := '0') (n := 0) rune.quoted (by decide)

/-- **Where rune literals are read right**: everywhere but at an escape that opens with a zero and
denotes another code point, which is read as zero.  A value is given for single characters and for
the six escapes. -/
theorem rune?_faithful_iff {text : String} {inner : List Char} {value : Nat}
    (rune : IsRune text inner value) :
    ((∀ v, rune? text = some v → v = value) ↔ ¬ (['\\', '0'] <+: inner ∧ value ≠ 0)) ∧
    ((rune? text).isSome ↔ ∀ c, ['\\', c] <+: inner → c ∈ escapesRead.map Prod.fst) := by
  refine ⟨⟨?_, ?_⟩, rune.isSome_rune?_iff⟩
  · rintro right ⟨zero, other⟩
    have value_zero : (0 : Int) = value := right 0 (rune.rune?_zero zero)
    exact other (Int.natCast_eq_zero.mp value_zero.symm)
  · intro fine v read
    by_cases zero : ['\\', '0'] <+: inner
    · have value_zero : value = 0 := not_not.mp fun other => fine ⟨zero, other⟩
      rw [rune.rune?_zero zero] at read
      rw [value_zero]
      exact (Option.some.inj read).symm
    · exact rune.value_eq zero read

/-- The one escape with a leading zero that is read right. -/
theorem rune?_faithful_iff_null :
    IsRune "'\\000'" "\\000".toList 0 ∧ ∀ v, rune? "'\\000'" = some v → v = 0 := by
  have digit : IsDigit 8 '0' 0 := ⟨by decide, by decide⟩
  have null : IsRune "'\\000'" "\\000".toList 0 :=
    ⟨by decide, .octal (.cons digit (.cons digit (.cons digit .nil))) rfl⟩
  exact ⟨null, (rune?_faithful_iff null).1.mpr fun wrong => wrong.2 rfl⟩

/-- The escape of the code point three is read as zero. -/
theorem octalThree_readAsZero :
    IsRune "'\\003'" "\\003".toList 3 ∧ rune? "'\\003'" = some 0 := by
  have zero : IsDigit 8 '0' 0 := ⟨by decide, by decide⟩
  have three : IsDigit 8 '3' 3 := ⟨by decide, by decide⟩
  exact ⟨⟨by decide, .octal (.cons zero (.cons zero (.cons three .nil))) rfl⟩, by decide⟩

end Literal

end GomegaLint
