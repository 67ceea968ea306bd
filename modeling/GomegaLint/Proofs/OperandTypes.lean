import Mathlib
import GomegaLint.Proofs.Exchange

/-!
# Types of compared operands

On pointers `==` is identity, and only numbers are ordered by `BeNumerically`.  The fix
of a comparison `x op y` looks at the type of `x` for both, and not at that of `y`.

* `Rule.newMatcher?_eq`: the matcher that the fix writes, by its name.
* `Rule.respectsOperands_iff`: the types of both operands are respected exactly where
  that of the right one adds nothing, and the order of two operands makes no difference
  exactly where their types say the same.
-/

namespace GomegaLint

/-! ## The matcher of a fix -/

/-- The value has a known type, and it is none of numbers. -/
def Value.isNonNumeric (v : Value) : Bool := v.type?.any (!·.isNumeric)

namespace Rule

/-- The matcher that the fix of a comparison writes, by its name; `none` without a fix. -/
def newMatcher? (a : Assertion) : Option (Option String) :=
  (compareAssertion.draft? a).map fun d => d.matcherPlace?.bind a.style.matcherFunction?

/-- The name of the matcher for an operator and its left operand. -/
def comparisonName? (op : BinaryOp) (left : Value) : Option String :=
  if op.isEquality then some (if left.isPointer then "BeIdenticalTo" else "Equal")
  else if op.isOrdering && !left.isNonNumeric then some "BeNumerically"
  else none

theorem comparisonCheck?_named (style : ImportStyle) (left : Value) (op : BinaryOp)
    (right : Value) :
    (comparisonCheck? style left op right).map (fun check => style.matcherFunction? check.1) =
      (comparisonName? op left).map some := by
  have named : ∀ name args, style.matcherFunction? (style.matcher name args) = some name :=
    fun name args => style.matcherOf?_functionExpr name
  unfold comparisonCheck? comparisonName?
  cases op.isEquality with
  | true => simp [named]
  | false =>
      cases op.isOrdering with
      | false => rfl
      | true =>
          change Option.map _ (if left.isNonNumeric = true then none else _) = _
          cases left.isNonNumeric <;> simp [named]

section

variable {style : ImportStyle} {o : Oracle} {seen copy : Call} {a : Assertion} {left right : Value}
  {op : BinaryOp} {m : Matcher} {expected : Bool}

/-- The fix of a comparison that is expected to be true or false writes the matcher of
this name, and there is a fix where there is a name. -/
theorem newMatcher?_eq (recognized : Assertion.of? style o seen copy = some a)
    (subject : a.actual.subject = .comparison left op right) (matched : a.matcher = some m)
    (asked : a.expectsTrue? m = some expected) :
    newMatcher? a = (comparisonName? op left).map some := by
  have located := Assertion.of?_located recognized
  have places := located.places
  rw [located.matcherPlace?_eq matched] at places
  rw [newMatcher?, draft?_eq_applyAll?, changes?, matched, Option.bind_some, comparisonChanges?,
    subject, ← comparisonCheck?_named a.style left op right]
  simp only [asked, Option.bind_eq_bind, Option.bind_some, Option.pure_def]
  cases comparisonCheck? a.style left op right with
  | none => rfl
  | some check =>
      obtain ⟨new, opposite⟩ := check
      have inside := (List.getElem?_eq_some_iff.mp located.copyArg).1
      obtain ⟨d₁, moved, places⟩ := places.setActualArg inside left.twin.copy
      obtain ⟨d₂, replaced, places⟩ := places.setMatcher new
      obtain ⟨d₃, method, turned, places, -⟩ := places.setNegative (expected == opposite)
      rw [Option.bind_some, Option.bind_some, applyAll?_restatement, moved, Option.bind_some,
        replaced, Option.bind_some, turned, Option.map_some, Option.map_some, places.matcher_eq,
        Option.bind_some]

end

/-! ## Both operands -/

end Rule

/-- The fix of a comparison respects what is known of the types of both operands: where
one is a pointer equality becomes identity, and where one is no number an ordering
becomes none of numbers. -/
def Assertion.RespectsOperands (a : Assertion) (left : Value) (op : BinaryOp) (right : Value) :
    Prop :=
  ∀ new, Rule.newMatcher? a = some new →
    (op.isEquality = true → left.isPointer = true ∨ right.isPointer = true →
      new = some "BeIdenticalTo") ∧
    (op.isOrdering = true → left.isNonNumeric = true ∨ right.isNonNumeric = true →
      new ≠ some "BeNumerically")

/-- An operand that is neither a constant nor a size; if it is a call then so is its
copy. -/
structure Twin.IsPlain (o : Oracle) (t : Twin) : Prop where
  notConst : isConstant t.seen (o t.seen) = false
  noSize : ∀ c, t.seen.call? = some c → Subject.sizeFunction? o c = none
  copied : ∀ c, t.seen.call? = some c → ∃ c', t.copy.call? = some c'

/-- What has the type of `nil` is a constant. -/
theorem Oracle.isNil_of_notConst {o : Oracle} {e : Expr} (notConst : isConstant e (o e) = false) :
    o.isNil e = false := by
  cases e with
  | ident i =>
      cases known : o (.ident i) with
      | none => simp [isNil, known]
      | some typed =>
          rw [known] at notConst
          obtain ⟨type, value⟩ := typed
          cases type with
          | basic kind =>
              cases kind <;> simp_all [isNil, isConstant, Typed.isNil, GoType.isBasic,
                GoType.isUntypedNil]
          | _ => simp [isNil, known, Typed.isNil, GoType.isUntypedNil]
  | _ => rfl

/-- Plain operands are read in the order in which they stand. -/
theorem Subject.ofComparison?_plain {o : Oracle} {x y : Twin} (left : x.IsPlain o)
    (right : y.IsPlain o) (op : BinaryOp) :
    ofComparison? o x op y = some (comparison (Value.of o x) op (Value.of o y)) := by
  have notNil := Oracle.isNil_of_notConst right.notConst
  simp only [ofComparison?, left.notConst, Bool.false_and, Bool.false_eq_true, if_false,
    compared?, notNil]
  cases isCall : x.seen.call? with
  | none => rfl
  | some c =>
      obtain ⟨c', isCall'⟩ := left.copied c isCall
      simp only [isCall', left.noSize c isCall]

namespace BinaryOp

theorem isEquality_exchanged (op : BinaryOp) : op.exchanged.isEquality = op.isEquality := by
  cases op <;> rfl

theorem isOrdering_exchanged (op : BinaryOp) : op.exchanged.isOrdering = op.isOrdering := by
  cases op <;> rfl

theorem isOrdering_of_isEquality {op : BinaryOp} (equality : op.isEquality = true) :
    op.isOrdering = false := by
  cases op <;> first | rfl | cases equality

end BinaryOp

namespace Rule

theorem comparisonName?_eq_iff (op : BinaryOp) (left right : Value) :
    comparisonName? op.exchanged right = comparisonName? op left ↔
      (op.isEquality = true → left.isPointer = right.isPointer) ∧
      (op.isOrdering = true → left.isNonNumeric = right.isNonNumeric) := by
  unfold comparisonName?
  rw [op.isEquality_exchanged, op.isOrdering_exchanged]
  cases equality : op.isEquality with
  | true =>
      have noOrdering := BinaryOp.isOrdering_of_isEquality equality
      cases left.isPointer <;> cases right.isPointer <;> simp [noOrdering]
  | false =>
      cases op.isOrdering <;> cases left.isNonNumeric <;> cases right.isNonNumeric <;> simp

theorem respects_iff_of_eq {a : Assertion} {op : BinaryOp} {left right : Value}
    (named : newMatcher? a = (comparisonName? op left).map some) :
    a.RespectsOperands left op right ↔
      (op.isEquality = true → right.isPointer = true → left.isPointer = true) ∧
      (op.isOrdering = true → right.isNonNumeric = true → left.isNonNumeric = true) := by
  unfold Assertion.RespectsOperands
  rw [named, comparisonName?]
  cases equality : op.isEquality with
  | true =>
      have noOrdering := BinaryOp.isOrdering_of_isEquality equality
      cases left.isPointer <;> cases right.isPointer <;> simp [noOrdering]
  | false =>
      cases op.isOrdering <;> cases left.isNonNumeric <;> cases right.isNonNumeric <;> simp

/-- **The fix of a comparison respects the type of its left operand only.**  Let an
assertion be recognized that expects a comparison to be true or false.

Both types are respected if and only if that of the right operand is not needed: an
equality with a pointer on the right has one on the left, and an ordering with
something other than a number on the right has it on the left too.

Now take the same assertion with the operands exchanged, where none is a constant or a
size.  Whether there is a fix, and with which matcher, is the same if and only if the
two types say the same. -/
theorem respectsOperands_iff {style : ImportStyle} {o : Oracle} {seen copy : Call} {a : Assertion}
    {left right : Value} {op : BinaryOp} {m : Matcher} {expected : Bool}
    (recognized : Assertion.of? style o seen copy = some a)
    (subject : a.actual.subject = .comparison left op right) (matched : a.matcher = some m)
    (asked : a.expectsTrue? m = some expected) :
    (a.RespectsOperands left op right ↔
      (op.isEquality = true → right.isPointer = true → left.isPointer = true) ∧
      (op.isOrdering = true → right.isNonNumeric = true → left.isNonNumeric = true)) ∧
    ∀ (x y : Twin) (c' : CallTwin), x.IsPlain o → y.IsPlain o →
      CallTwin.Exchanges style o x op y ⟨seen, copy⟩ c' →
      ∃ a', Assertion.of? style o c'.seen c'.copy = some a' ∧
        a'.actual.subject = .comparison right op.exchanged left ∧
        (newMatcher? a' = newMatcher? a ↔
          (op.isEquality = true → left.isPointer = right.isPointer) ∧
          (op.isOrdering = true → left.isNonNumeric = right.isNonNumeric)) := by
  have named := newMatcher?_eq recognized subject matched asked
  refine ⟨respects_iff_of_eq named, fun x y c' plain plain' exchanges => ?_⟩
  have direct := Subject.ofComparison?_plain plain plain' op
  have exchanged := Subject.ofComparison?_plain plain' plain op.exchanged
  have related := exchanges.recognized (by rw [direct, exchanged]; rfl)
  rw [direct, exchanged, recognized] at related
  generalize recognized' : Assertion.of? style o c'.seen c'.copy = found at related ⊢
  obtain @⟨_, a', inOrder, turned, t, t', replaced, -⟩ | _ := related
  rw [subject] at inOrder
  obtain ⟨rfl, -, rfl⟩ := Subject.comparison.inj (Option.some.inj inOrder)
  have subject' := (Option.some.inj turned).symm
  have asked' : a'.expectsTrue? m = some expected := by
    rw [← asked]
    simp only [Assertion.expectsTrue?, Assertion.expectsMatch, Assertion.isNegative,
      replaced.method_eq]
  refine ⟨a', rfl, subject', ?_⟩
  rw [named, newMatcher?_eq recognized' subject' (replaced.matcher_eq.trans matched) asked',
    (Option.map_injective (Option.some_injective _)).eq_iff]
  exact comparisonName?_eq_iff op _ _

/-! ## Pointers and strings -/

/-- A name and its copy. -/
def operand (id : Nat) (name : String) : Twin :=
  ⟨.ident { origin := { id }, name }, .ident { origin := { id }, name }⟩

/-- An oracle that knows two pointers, `p` and `q`, and a string `s`. -/
def operandOracle : Oracle :=
  ((({} : TypeTable).insert 1 { type := .pointer (.basic .int) }).insert 2
    { type := .pointer (.basic .int) }).insert 3 { type := .basic .string } |>.oracle

theorem isPlain_operand {id : Nat} {name : String}
    (notConst : isConstant (operand id name).seen (operandOracle (operand id name).seen) = false) :
    (operand id name).IsPlain operandOracle where
  notConst := notConst
  noSize := by rintro c ⟨⟩
  copied := by rintro c ⟨⟩

/-- Of two pointers either may be the left one. -/
theorem respectsOperands_pointers :
    ∃ a a', (Twin.binary default (operand 1 "p") .eq (operand 2 "q")).asserted? operandOracle =
        some a ∧
      (Twin.binary default (operand 2 "q") .eq (operand 1 "p")).asserted? operandOracle = some a' ∧
      a.RespectsOperands (Value.of operandOracle (operand 1 "p")) .eq
        (Value.of operandOracle (operand 2 "q")) ∧
      newMatcher? a = some (some "BeIdenticalTo") ∧ newMatcher? a' = newMatcher? a := by
  have recognized : (Twin.binary default (operand 1 "p") .eq (operand 2 "q")).asserted?
      operandOracle = some _ := rfl
  obtain ⟨both, exchanged⟩ := respectsOperands_iff recognized rfl rfl rfl
  obtain ⟨a', recognized', -, same⟩ := exchanged (operand 1 "p") (operand 2 "q") _
    (isPlain_operand rfl) (isPlain_operand rfl) (CallTwin.exchanges_isTrue rfl rfl rfl)
  exact ⟨_, a', recognized, recognized', both.mpr (by decide), by decide +kernel,
    same.mpr (by decide)⟩

/-- Nothing is known of `x`.  Compared with a pointer on its right it becomes a case of
equality, and an ordering before a string one of numbers; with the operands exchanged
there is identity in the one case and no fix in the other. -/
theorem respectsOperands_rightOnly :
    ∃ a b, (Twin.binary default (operand 4 "x") .eq (operand 1 "p")).asserted? operandOracle =
        some a ∧
      (Twin.binary default (operand 4 "x") .lt (operand 3 "s")).asserted? operandOracle = some b ∧
      ¬ a.RespectsOperands (Value.of operandOracle (operand 4 "x")) .eq
        (Value.of operandOracle (operand 1 "p")) ∧
      ¬ b.RespectsOperands (Value.of operandOracle (operand 4 "x")) .lt
        (Value.of operandOracle (operand 3 "s")) ∧
      newMatcher? a = some (some "Equal") ∧ newMatcher? b = some (some "BeNumerically") ∧
      ((Twin.binary default (operand 1 "p") .eq (operand 4 "x")).asserted? operandOracle).bind
        newMatcher? = some (some "BeIdenticalTo") ∧
      ((Twin.binary default (operand 3 "s") .gt (operand 4 "x")).asserted? operandOracle).bind
        newMatcher? = none := by
  have equal : ((Twin.binary default (operand 4 "x") .eq (operand 1 "p")).asserted?
      operandOracle).bind newMatcher? = some (some "Equal") := by
    decide +kernel
  have numeric : ((Twin.binary default (operand 4 "x") .lt (operand 3 "s")).asserted?
      operandOracle).bind newMatcher? = some (some "BeNumerically") := by
    decide +kernel
  obtain ⟨a, recognized, equal⟩ := Option.bind_eq_some_iff.mp equal
  obtain ⟨b, recognized', numeric⟩ := Option.bind_eq_some_iff.mp numeric
  refine ⟨a, b, recognized, recognized', fun respects => ?_, fun respects => ?_, equal, numeric,
    by decide +kernel, by decide +kernel⟩
  · exact absurd ((respects _ equal).1 rfl (.inr rfl)) (by decide)
  · exact (respects _ numeric).2 rfl (.inr rfl) rfl

end Rule

end GomegaLint
