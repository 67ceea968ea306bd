import Mathlib
import GomegaLint.Constant.Basic

/-!
# Folding of integer constants

`Constant.IsResult` says what the exact result of an operation on integers is: a
quotient is rounded toward zero, and a shift to the left multiplies by a power of
two.  `Folded.Faithful` is what folding owes to it: an answer at any rate, no value
but the exact one, and none where the exact one does not fit.

Folding keeps this but for two cases (`Constant.fold_faithful_iff`).  The least
integer divided by minus one has no answer at all, not even for the remainder, which
is zero (`Constant.DividesOut`); and a shift by less than 128 drops the bits that
leave the range and gives what is left (`Constant.ShiftsOut`).
-/

namespace GomegaLint

namespace Constant

/-! ## Exact results -/

/-- `a` divided by `b` is `quotient`, and the `remainder` that is left is smaller than
`b` and has the sign of `a`. -/
structure IsDivision (a b quotient remainder : Int) : Prop where
  equation : remainder + b * quotient = a
  smaller : remainder.natAbs < b.natAbs
  nonneg : 0 ≤ a → 0 ≤ remainder
  nonpos : a ≤ 0 → remainder ≤ 0

/-- The exact result of an operation on integers. -/
def IsResult (a b r : Int) : BinaryOp → Prop
  | .add => r = a + b
  | .sub => r = a - b
  | .mul => r = a * b
  | .div => ∃ remainder, IsDivision a b r remainder
  | .rem => ∃ quotient, IsDivision a b quotient r
  | .shl => 0 ≤ b ∧ r = a * 2 ^ b.toNat
  | _ => False

/-- There is one division, that which rounds toward zero. -/
theorem isDivision_iff {a b q r : Int} :
    IsDivision a b q r ↔ b ≠ 0 ∧ a.tdiv b = q ∧ a.tmod b = r := by
  constructor
  · intro division
    have smaller := division.smaller
    have nonzero : b ≠ 0 := by omega
    refine ⟨nonzero, ?_⟩
    rcases Int.le_total 0 a with positive | negative
    · have := division.nonneg positive
      exact (Int.tdiv_tmod_unique positive nonzero).mpr ⟨division.equation, this, by omega⟩
    · have := division.nonpos negative
      exact (Int.tdiv_tmod_unique' negative nonzero).mpr ⟨division.equation, by omega, this⟩
  · rintro ⟨nonzero, rfl, rfl⟩
    refine ⟨Int.tmod_add_mul_tdiv a b, ?_, fun positive => ?_, fun negative => ?_⟩
    · rw [Int.natAbs_tmod]
      exact Nat.mod_lt _ (by omega)
    · exact ((Int.tdiv_tmod_unique positive nonzero).mp ⟨rfl, rfl⟩).2.1
    · exact ((Int.tdiv_tmod_unique' negative nonzero).mp ⟨rfl, rfl⟩).2.2

theorem isResult_div {a b r : Int} : IsResult a b r .div ↔ b ≠ 0 ∧ r = a.tdiv b := by
  simp only [IsResult, isDivision_iff]
  constructor
  · rintro ⟨_, nonzero, rfl, -⟩
    exact ⟨nonzero, rfl⟩
  · rintro ⟨nonzero, rfl⟩
    exact ⟨_, nonzero, rfl, rfl⟩

theorem isResult_rem {a b r : Int} : IsResult a b r .rem ↔ b ≠ 0 ∧ r = a.tmod b := by
  simp only [IsResult, isDivision_iff]
  constructor
  · rintro ⟨_, nonzero, -, rfl⟩
    exact ⟨nonzero, rfl⟩
  · rintro ⟨nonzero, rfl⟩
    exact ⟨_, nonzero, rfl, rfl⟩

theorem IsResult.unique {op : BinaryOp} {a b r r' : Int} (result : IsResult a b r op)
    (result' : IsResult a b r' op) : r = r' := by
  cases op with
  | add | sub | mul => exact Eq.trans result (Eq.symm result')
  | div => rw [(isResult_div.mp result).2, (isResult_div.mp result').2]
  | rem => rw [(isResult_rem.mp result).2, (isResult_rem.mp result').2]
  | shl => rw [result.2, result'.2]
  | _ => exact result.elim

/-! ## The range of integer constants -/

theorem inRange_iff {i : Int} : inRange i = true ↔ -2 ^ 127 ≤ i ∧ i < 2 ^ 127 := by
  rw [inRange, Bool.and_eq_true, decide_eq_true_iff, decide_eq_true_iff,
    show minInt = -2 ^ 127 from rfl, show maxInt = 2 ^ 127 - 1 from rfl]
  omega

/-- The quotient of an integer in range is in range, but for the least one by minus
one. -/
theorem inRange_tdiv {a b : Int} (range : inRange a = true) (nonzero : b ≠ 0)
    (other : ¬ (a = minInt ∧ b = -1)) : inRange (a.tdiv b) = true := by
  rw [inRange_iff] at range ⊢
  rw [show minInt = -2 ^ 127 from rfl] at other
  obtain rfl | rfl | large : b = 1 ∨ b = -1 ∨ 2 ≤ b.natAbs := by omega
  · rwa [Int.tdiv_one]
  · rw [Int.tdiv_neg, Int.tdiv_one]
    omega
  · have size : (a.tdiv b).natAbs = a.natAbs / b.natAbs := Int.natAbs_tdiv a b
    have halved : a.natAbs / b.natAbs ≤ a.natAbs / 2 := Nat.div_le_div_left large (by decide)
    omega

/-- A remainder is smaller than the divisor. -/
theorem inRange_tmod {a b : Int} (range : inRange b = true) (nonzero : b ≠ 0) :
    inRange (a.tmod b) = true := by
  rw [inRange_iff] at range ⊢
  have size := Int.natAbs_tmod a b
  have smaller : a.natAbs % b.natAbs < b.natAbs := Nat.mod_lt _ (by omega)
  omega

end Constant

/-! ## What folding owes -/

/-- What folding owes to the exact result of an operation. -/
structure Folded.Faithful (op : BinaryOp) (a b : Int) (out : Folded) : Prop where
  total : out ≠ .overflow
  exact : ∀ c, out = .value c → ∃ r, c = .int r ∧ Constant.IsResult a b r op
  silent : (∀ r, Constant.IsResult a b r op → Constant.inRange r = false) → out = .unknown

namespace Folded

variable {op : BinaryOp} {a b r : Int}

theorem faithful_unknown : Faithful op a b .unknown :=
  ⟨by rintro ⟨⟩, by rintro _ ⟨⟩, fun _ => rfl⟩

theorem faithful_value (result : Constant.IsResult a b r op)
    (fits : Constant.inRange r = true) : Faithful op a b (.value (.int r)) := by
  refine ⟨by rintro ⟨⟩, ?_, fun unfit => ?_⟩
  · rintro _ ⟨⟩
    exact ⟨r, rfl, result⟩
  · rw [unfit r result] at fits
    cases fits

end Folded

namespace Constant

variable {op : BinaryOp} {a b : Int}

/-- The operators that are folded on integers. -/
def integerOperators : List BinaryOp := [.add, .sub, .mul, .div, .rem, .shl]

/-- The least integer is divided by minus one. -/
def DividesOut (op : BinaryOp) (a b : Int) : Prop :=
  (op = .div ∨ op = .rem) ∧ a = minInt ∧ b = -1

/-- A shift by less than the width takes an integer out of range. -/
def ShiftsOut (op : BinaryOp) (a b : Int) : Prop :=
  op = .shl ∧ (0 ≤ b ∧ b < 128) ∧ inRange (a * 2 ^ b.toNat) = false

instance : Decidable (DividesOut op a b) := inferInstanceAs (Decidable (_ ∧ _))

instance : Decidable (ShiftsOut op a b) := inferInstanceAs (Decidable (_ ∧ _))

/-- What is checked is a value exactly where it fits. -/
theorem folded_checked_cases (r : Int) :
    inRange r = true ∧ folded (checked r) = .value (int r) ∨
      inRange r = false ∧ folded (checked r) = .unknown := by
  unfold checked
  cases inRange r
  · exact .inr ⟨rfl, rfl⟩
  · exact .inl ⟨rfl, rfl⟩

/-- A division by zero is not computed, that of the least integer by minus one cannot
be, and any other is. -/
theorem foldDivision_cases (divide : Int → Int → Int) (a b : Int) :
    b = 0 ∧ foldDivision divide a b = .unknown ∨
      (a = minInt ∧ b = -1) ∧ foldDivision divide a b = .overflow ∨
      b ≠ 0 ∧ ¬ (a = minInt ∧ b = -1) ∧
        foldDivision divide a b = .value (int (divide a b)) := by
  unfold foldDivision
  split
  · exact .inl ⟨‹_›, rfl⟩
  · split
    · exact .inr (.inl ⟨‹_›, rfl⟩)
    · exact .inr (.inr ⟨‹_›, ‹_›, rfl⟩)

/-- A shift by less than the width gives the integer in range that differs from the
exact result by a multiple of the size of the range. -/
theorem foldInt_shl (a : Int) (amount : 0 ≤ b ∧ b < 128) :
    ∃ r, foldInt .shl a b = .value (int r) ∧ inRange r = true ∧
      (2 ^ 128 : Int) ∣ r - a * 2 ^ b.toNat ∧
      (inRange (a * 2 ^ b.toNat) = true → r = a * 2 ^ b.toNat) := by
  have power : ((Nat.pow 2 b.toNat : Nat) : Int) = 2 ^ b.toNat := by
    rw [Nat.pow_eq, Nat.cast_pow, Nat.cast_ofNat]
  refine ⟨(a * 2 ^ b.toNat).bmod (2 ^ 128), ?_, ?_, ?_, ?_⟩
  · rw [foldInt, if_pos amount, power]
    rfl
  · have least := Int.le_bmod (x := a * 2 ^ b.toNat) (m := 2 ^ 128) (by decide)
    have greatest := Int.bmod_lt (x := a * 2 ^ b.toNat) (m := 2 ^ 128) (by decide)
    rw [inRange_iff]
    omega
  · exact Int.dvd_bmod_sub_self
  · intro fits
    rw [inRange_iff] at fits
    exact Int.bmod_eq_of_le (by omega) (by omega)

/-! ## The outcomes -/

/-- What becomes of an operation on integers in range. -/
inductive Outcome (op : BinaryOp) (a b : Int) : Folded → Prop
  | exact {r : Int} (result : IsResult a b r op) (fits : inRange r = true)
      (divides : ¬ DividesOut op a b) (shifts : ¬ ShiftsOut op a b) :
      Outcome op a b (.value (int r))
  /-- Only a shift by the width or more leaves out a result that fits. -/
  | unknown (unfit : ∀ r, IsResult a b r op → inRange r = true → op = .shl ∧ 128 ≤ b)
      (divides : ¬ DividesOut op a b) (shifts : ¬ ShiftsOut op a b) : Outcome op a b .unknown
  | overflow (divides : DividesOut op a b) : Outcome op a b .overflow
  | dropped {r : Int} (shifts : ShiftsOut op a b) (fits : inRange r = true)
      (bits : (2 ^ 128 : Int) ∣ r - a * 2 ^ b.toNat) : Outcome op a b (.value (int r))

/-- A result that is checked is given where it fits. -/
theorem outcome_checked {r : Int} (results : ∀ r', IsResult a b r' op ↔ r' = r)
    (divides : ¬ DividesOut op a b) (shifts : ¬ ShiftsOut op a b) :
    Outcome op a b (folded (checked r)) := by
  rcases folded_checked_cases r with ⟨fits, is⟩ | ⟨unfit, is⟩ <;> rw [is]
  · exact .exact ((results r).mpr rfl) fits divides shifts
  · refine .unknown (fun r' result fits => ?_) divides shifts
    rw [(results r').mp result, unfit] at fits
    cases fits

theorem outcome_division {divide : Int → Int → Int} (isDivision : op = .div ∨ op = .rem)
    (results : ∀ r, IsResult a b r op ↔ b ≠ 0 ∧ r = divide a b)
    (fits : b ≠ 0 → ¬ (a = minInt ∧ b = -1) → inRange (divide a b) = true) :
    Outcome op a b (foldDivision divide a b) := by
  have shifts : ¬ ShiftsOut op a b := by
    rintro ⟨rfl, -⟩
    simp at isDivision
  rcases foldDivision_cases divide a b with ⟨zero, is⟩ | ⟨least, is⟩ | ⟨nonzero, other, is⟩ <;>
    rw [is]
  · refine .unknown (fun r result _ => (((results r).mp result).1 zero).elim) ?_ shifts
    rintro ⟨-, -, minusOne⟩
    omega
  · exact .overflow ⟨isDivision, least⟩
  · exact .exact ((results _).mpr ⟨nonzero, rfl⟩) (fits nonzero other) (fun out => other out.2)
      shifts

theorem outcome_shift (a b : Int) : Outcome .shl a b (foldInt .shl a b) := by
  have divides : ¬ DividesOut .shl a b := by
    rintro ⟨isDivision, -⟩
    simp at isDivision
  by_cases amount : 0 ≤ b ∧ b < 128
  · obtain ⟨r, is, inside, bits, kept⟩ := foldInt_shl a amount
    rw [is]
    cases fits : inRange (a * 2 ^ b.toNat) with
    | true =>
        refine .exact ⟨amount.1, kept fits⟩ inside divides ?_
        rintro ⟨-, -, out⟩
        rw [out] at fits
        cases fits
    | false => exact .dropped ⟨rfl, amount, fits⟩ inside bits
  · rw [foldInt, if_neg amount]
    refine .unknown (fun r result _ => ⟨rfl, ?_⟩) divides (fun shifts => amount shifts.2.1)
    have := result.1
    omega

/-- **What becomes of every operation.** -/
theorem fold_outcome (folds : op ∈ integerOperators) (left : inRange a = true)
    (right : inRange b = true) : Outcome op a b (fold op (int a) (int b)) := by
  have checked : ∀ {op : BinaryOp} {r : Int}, op ≠ .div → op ≠ .rem → op ≠ .shl →
      (∀ r', IsResult a b r' op ↔ r' = r) → Outcome op a b (folded (checked r)) := by
    intro op r noDiv noRem noShl results
    exact outcome_checked results (fun out => out.1.elim noDiv noRem) fun out => noShl out.1
  simp only [integerOperators, List.mem_cons, List.not_mem_nil, or_false] at folds
  rcases folds with rfl | rfl | rfl | rfl | rfl | rfl
  · exact checked (by decide) (by decide) (by decide) fun _ => Iff.rfl
  · exact checked (by decide) (by decide) (by decide) fun _ => Iff.rfl
  · exact checked (by decide) (by decide) (by decide) fun _ => Iff.rfl
  · exact outcome_division (.inl rfl) (fun _ => isResult_div) (inRange_tdiv left)
  · exact outcome_division (.inr rfl) (fun _ => isResult_rem) fun nonzero _ =>
      inRange_tmod right nonzero
  · exact outcome_shift a b

/-- Nothing that is shifted out fits. -/
theorem ShiftsOut.unfit {r : Int} (shifts : ShiftsOut op a b) (result : IsResult a b r op) :
    inRange r = false := by
  obtain ⟨rfl, -, unfit⟩ := shifts
  rw [result.2, unfit]

/-- **Folding is faithful but for the least integer divided by minus one and bits that
are shifted out.**  The first has no answer at all, and is the only operation that has
none; the second has the answer that is left when these bits are dropped.  Every other
result that fits is found, unless the shift is by the width or more. -/
theorem fold_faithful_iff (folds : op ∈ integerOperators) (left : inRange a = true)
    (right : inRange b = true) :
    ((fold op (int a) (int b)).Faithful op a b ↔ ¬ DividesOut op a b ∧ ¬ ShiftsOut op a b) ∧
    (fold op (int a) (int b) = .overflow ↔ DividesOut op a b) ∧
    (ShiftsOut op a b → ∃ r, fold op (int a) (int b) = .value (int r) ∧ inRange r = true ∧
      r ≠ a * 2 ^ b.toNat ∧ (2 ^ 128 : Int) ∣ r - a * 2 ^ b.toNat) ∧
    ∀ r, IsResult a b r op → inRange r = true → ¬ DividesOut op a b → (op = .shl → b < 128) →
      fold op (int a) (int b) = .value (int r) := by
  have outcome := fold_outcome folds left right
  generalize fold op (int a) (int b) = out at outcome
  cases outcome with
  | exact result fits divides shifts =>
      refine ⟨iff_of_true (Folded.faithful_value result fits) ⟨divides, shifts⟩,
        iff_of_false (by rintro ⟨⟩) divides, fun out => (shifts out).elim, ?_⟩
      intro r result' _ _ _
      rw [result.unique result']
  | unknown unfit divides shifts =>
      refine ⟨iff_of_true Folded.faithful_unknown ⟨divides, shifts⟩,
        iff_of_false (by rintro ⟨⟩) divides, fun out => (shifts out).elim, ?_⟩
      intro r result fits _ small
      obtain ⟨isShift, large⟩ := unfit r result fits
      exact absurd (small isShift) (not_lt.mpr large)
  | overflow divides =>
      refine ⟨iff_of_false (fun faithful => faithful.total rfl) (fun kept => kept.1 divides),
        iff_of_true rfl divides, ?_, fun _ _ _ kept _ => (kept divides).elim⟩
      rintro ⟨rfl, -⟩
      obtain ⟨isDivision, -⟩ := divides
      simp at isDivision
  | @dropped r shifts fits bits =>
      refine ⟨iff_of_false (fun faithful => ?_) (fun kept => kept.2 shifts), ?_, fun _ => ?_, ?_⟩
      · cases faithful.silent fun r result => shifts.unfit result
      · refine iff_of_false (by rintro ⟨⟩) ?_
        rintro ⟨isDivision, -⟩
        obtain ⟨rfl, -⟩ := shifts
        simp at isDivision
      · refine ⟨r, rfl, fits, ?_, bits⟩
        rintro rfl
        rw [shifts.2.2] at fits
        cases fits
      · intro r' result fits' _ _
        rw [shifts.unfit result] at fits'
        cases fits'

/-- Minus one shifted by 127 is the least integer, which still fits. -/
theorem fold_faithful_leastByShift :
    BinaryOp.shl ∈ integerOperators ∧ inRange (-1) = true ∧ inRange 127 = true ∧
      (fold .shl (int (-1)) (int 127)).Faithful .shl (-1) 127 ∧
      fold .shl (int (-1)) (int 127) = .value (int minInt) := by
  have all := @fold_faithful_iff .shl (-1) 127 (by decide) (by decide) (by decide)
  refine ⟨by decide, by decide, by decide, all.1.mpr (by decide), ?_⟩
  exact all.2.2.2 minInt ⟨by decide, rfl⟩ (by decide) (by decide) fun _ => by decide

/-- Four shifted by 126 is folded to zero, and dividing the least integer by minus one
has no answer. -/
theorem fold_shiftedToZero :
    (inRange 4 = true ∧ inRange 126 = true ∧ fold .shl (int 4) (int 126) = .value (int 0) ∧
      IsResult 4 126 (2 ^ 128) .shl ∧
      ¬ (fold .shl (int 4) (int 126)).Faithful .shl 4 126) ∧
    inRange minInt = true ∧ inRange (-1) = true ∧
      fold .div (int minInt) (int (-1)) = .overflow ∧
      ¬ (fold .div (int minInt) (int (-1))).Faithful .div minInt (-1) := by
  have shifts : ShiftsOut .shl 4 126 := by decide
  have zero : fold .shl (int 4) (int 126) = .value (int 0) := rfl
  refine ⟨⟨by decide, by decide, zero, ⟨by decide, by decide⟩, fun faithful => ?_⟩, by decide,
    by decide, rfl, fun faithful => faithful.total rfl⟩
  cases faithful.silent fun r result => shifts.unfit result

end Constant

end GomegaLint
