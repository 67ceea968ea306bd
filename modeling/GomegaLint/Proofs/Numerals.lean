import Mathlib
import GomegaLint.Constant.Literal

/-!
# Values of integer literals

`Literal.IsInteger` is the grammar of integer literals: what is written, its base and its digits,
the most significant first.  The value of a literal is the number that these digits write in that
base (`Literal.valueOf`).

Reading a literal drops its underscores and turns its letters into small ones before it looks for
the mark of a base.  The digits survive this (`IsDigits.reads`), and none of them is taken for a
mark: the one mark that is a digit too, `b`, is a digit of base sixteen, and there another mark
stands before it.  So the value is found in every base, and given where it fits (`int?_exact`).
-/

namespace GomegaLint

namespace Literal

/-! ## The grammar -/

/-- The digits with their values, from ten on in small and in capital letters. -/
def digitTable : List (Char × Nat) :=
  "0123456789abcdef".toList.zipIdx ++ "0123456789ABCDEF".toList.zipIdx

/-- A digit of a base, and its value. -/
structure IsDigit (base : Nat) (c : Char) (d : Nat) : Prop where
  written : (c, d) ∈ digitTable
  below : d < base

/-- A row of digits, with at most one underscore between two of them. -/
inductive IsDigits (base : Nat) : List Char → List Nat → Prop
  | last {c : Char} {d : Nat} (digit : IsDigit base c d) : IsDigits base [c] [d]
  | next {c : Char} {d : Nat} {cs : List Char} {ds : List Nat} (digit : IsDigit base c d)
      (behind : IsDigits base cs ds) : IsDigits base (c :: cs) (d :: ds)
  | apart {c : Char} {d : Nat} {cs : List Char} {ds : List Nat} (digit : IsDigit base c d)
      (behind : IsDigits base cs ds) : IsDigits base (c :: '_' :: cs) (d :: ds)

/-- A row of digits behind the mark of its base, which an underscore may set off. -/
inductive IsMarked (base : Nat) : List Char → List Nat → Prop
  | close {cs : List Char} {ds : List Nat} (digits : IsDigits base cs ds) : IsMarked base cs ds
  | apart {cs : List Char} {ds : List Nat} (digits : IsDigits base cs ds) :
      IsMarked base ('_' :: cs) ds

/-- The letters that mark a base behind a zero. -/
def marks : List (Char × Nat) := [('b', 2), ('B', 2), ('o', 8), ('O', 8), ('x', 16), ('X', 16)]

/-- An integer literal, its base and its digits. -/
inductive IsInteger : List Char → Nat → List Nat → Prop
  | zero : IsInteger ['0'] 10 [0]
  | decimal {cs : List Char} {d : Nat} {ds : List Nat} (digits : IsDigits 10 cs (d :: ds))
      (leading : d ≠ 0) : IsInteger cs 10 (d :: ds)
  | marked {m : Char} {base : Nat} {cs : List Char} {ds : List Nat} (mark : (m, base) ∈ marks)
      (digits : IsMarked base cs ds) : IsInteger ('0' :: m :: cs) base ds
  /-- A zero without a letter marks base eight. -/
  | octal {cs : List Char} {ds : List Nat} (digits : IsMarked 8 cs ds) : IsInteger ('0' :: cs) 8 ds

/-- The number that digits write in a base, the most significant first. -/
def valueOf (base : Nat) (ds : List Nat) : Nat := Nat.ofDigits base ds.reverse

/-! ## Digits -/

/-- What is read of a text: no underscores, and small letters. -/
def cleaned (cs : List Char) : List Char := (cs.filter (· != '_')).map Char.toLower

theorem cleaned_cons {c : Char} (other : c ≠ '_') (cs : List Char) :
    cleaned (c :: cs) = c.toLower :: cleaned cs := by
  simp [cleaned, other]

/-- What is read is a row of digits with these values. -/
def Reads (base : Nat) : List Char → List Nat → Prop :=
  List.Forall₂ fun c d => digitValue c = some d ∧ d < base

theorem digitTable_read :
    ∀ x ∈ digitTable, x.1 ≠ '_' ∧ digitValue x.1.toLower = some x.2 := by
  decide

theorem IsDigits.reads {base : Nat} {cs : List Char} {ds : List Nat}
    (digits : IsDigits base cs ds) : Reads base (cleaned cs) ds := by
  have digit_cons {c d cs ds} (digit : IsDigit base c d) (behind : Reads base (cleaned cs) ds) :
      Reads base (cleaned (c :: cs)) (d :: ds) := by
    obtain ⟨other, value⟩ := digitTable_read _ digit.written
    rw [cleaned_cons other]
    exact .cons ⟨value, digit.below⟩ behind
  induction digits with
  | last digit => exact digit_cons digit .nil
  | next digit _ ih => exact digit_cons digit ih
  | apart digit _ ih => exact digit_cons digit ih

theorem IsDigits.ne_nil {base : Nat} {cs : List Char} {ds : List Nat}
    (digits : IsDigits base cs ds) : ds ≠ [] := by
  cases digits <;> exact List.cons_ne_nil _ _

theorem IsMarked.reads {base : Nat} {cs : List Char} {ds : List Nat}
    (marked : IsMarked base cs ds) : Reads base (cleaned cs) ds ∧ ds ≠ [] := by
  cases marked with
  | close digits => exact ⟨digits.reads, digits.ne_nil⟩
  | apart digits => exact ⟨digits.reads, digits.ne_nil⟩

/-! ## The number that is read -/

theorem valueOf_eq_foldl (base : Nat) (ds : List Nat) :
    valueOf base ds = ds.foldl (fun n d => n * base + d) 0 := by
  rw [valueOf, Nat.ofDigits_eq_foldr, List.foldr_reverse]
  congr 1
  funext n d
  rw [Nat.cast_id, Nat.mul_comm, Nat.add_comm]

/-- Reading a row of digits behind a number. -/
theorem Reads.foldlM {base : Nat} {cs : List Char} {ds : List Nat} (reads : Reads base cs ds)
    (n : Nat) :
    cs.foldlM (fun n c => do
      let d ← digitValue c
      if d < base then some (n * base + d) else none) n =
      some (ds.foldl (fun n d => n * base + d) n) := by
  induction reads generalizing n with
  | nil => rfl
  | cons digit _ ih =>
      rw [List.foldlM_cons, digit.1, Option.bind_eq_bind, Option.bind_some, if_pos digit.2]
      exact ih _

theorem Reads.natOfDigits? {base : Nat} {cs : List Char} {ds : List Nat}
    (reads : Reads base cs ds) (some_digit : ds ≠ []) :
    Literal.natOfDigits? base cs = some (valueOf base ds) := by
  have nonempty : cs.isEmpty = false := by
    cases reads with
    | nil => exact absurd rfl some_digit
    | cons => rfl
  rw [Literal.natOfDigits?, nonempty, valueOf_eq_foldl]
  exact reads.foldlM 0

/-! ## Marks -/

/-- A mark gives its base. -/
theorem baseAndDigits_mark {m : Char} {base : Nat} (mark : (m, base) ∈ marks) (cs : List Char) :
    baseAndDigits (cleaned ('0' :: m :: cs)) = (base, cleaned cs) := by
  simp only [marks, List.mem_cons, Prod.mk.injEq, List.not_mem_nil, or_false] at mark
  rcases mark with ⟨rfl, rfl⟩ | ⟨rfl, rfl⟩ | ⟨rfl, rfl⟩ | ⟨rfl, rfl⟩ | ⟨rfl, rfl⟩ | ⟨rfl, rfl⟩ <;>
    rfl

/-- A digit of base eight is no mark. -/
theorem baseAndDigits_octal {cs : List Char} {ds : List Nat} (reads : Reads 8 cs ds)
    (some_digit : ds ≠ []) : baseAndDigits ('0' :: cs) = (8, cs) := by
  cases reads with
  | nil => exact absurd rfl some_digit
  | @cons c d cs ds digit _ =>
      obtain ⟨value, below⟩ := digit
      have noMark : ∀ m : Char, (∀ e, digitValue m = some e → 8 ≤ e) → c ≠ m := by
        rintro m large rfl
        exact absurd below (Nat.not_lt.mpr (large d value))
      apply baseAndDigits.eq_4
      · exact noMark 'x' (by decide)
      · exact noMark 'b' (by decide)
      · exact noMark 'o' (by decide)

/-- A number that does not open with a zero has no mark. -/
theorem baseAndDigits_decimal {cs : List Char} {d : Nat} {ds : List Nat}
    (reads : Reads 10 cs (d :: ds)) (leading : d ≠ 0) : baseAndDigits cs = (10, cs) := by
  cases reads with
  | @cons c _ cs _ digit _ =>
      have no_zero : c ≠ '0' := by
        rintro rfl
        apply leading
        exact Option.some.inj digit.1.symm
      apply baseAndDigits.eq_5 <;> simp [no_zero]

theorem IsInteger.reads {cs : List Char} {base : Nat} {ds : List Nat}
    (integer : IsInteger cs base ds) :
    ∃ digits, baseAndDigits (cleaned cs) = (base, digits) ∧ Reads base digits ds ∧ ds ≠ [] := by
  cases integer with
  | zero =>
      refine ⟨['0'], rfl, .cons ?_ .nil, List.cons_ne_nil _ _⟩
      decide
  | decimal digits leading =>
      exact ⟨_, baseAndDigits_decimal digits.reads leading, digits.reads, digits.ne_nil⟩
  | marked mark digits => exact ⟨_, baseAndDigits_mark mark _, digits.reads⟩
  | octal digits =>
      obtain ⟨reads, some_digit⟩ := digits.reads
      exact ⟨_, baseAndDigits_octal reads some_digit, reads, some_digit⟩

/-! ## The value -/

/-- **Integer literals are read exactly**: the value of a literal if it fits, and nothing
otherwise. -/
theorem int?_exact {text : String} {base : Nat} {ds : List Nat}
    (integer : IsInteger text.toList base ds) :
    int? text = if valueOf base ds < 2 ^ 127 then some (valueOf base ds : Int) else none := by
  obtain ⟨digits, marks, reads, some_digit⟩ := integer.reads
  have fits : ((valueOf base ds : Int) ≤ Constant.maxInt) ↔ valueOf base ds < 2 ^ 127 := by
    rw [show Constant.maxInt = 2 ^ 127 - 1 from rfl]
    omega
  have read : int? text =
      (natOfDigits? (baseAndDigits (cleaned text.toList)).1
        (baseAndDigits (cleaned text.toList)).2).bind fun n =>
          if (n : Int) ≤ Constant.maxInt then some (n : Int) else none := rfl
  rw [read, marks, reads.natOfDigits? some_digit, Option.bind_some]
  simp only [fits]

/-- An underscore behind a capital mark and one between digits of both cases. -/
theorem int?_exact_bothCases :
    IsInteger "0X_b_F".toList 16 [11, 15] ∧ int? "0X_b_F" = some 191 := by
  have literal : IsInteger "0X_b_F".toList 16 [11, 15] :=
    .marked (by decide) (.apart (.apart ⟨by decide, by decide⟩ (.last ⟨by decide, by decide⟩)))
  exact ⟨literal, int?_exact literal⟩

end Literal

end GomegaLint
