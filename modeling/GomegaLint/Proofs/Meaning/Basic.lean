import Mathlib
import GomegaLint.Lint.Settings

/-!
# What assertions mean

An `Interpretation` gives every expression a value.  On top of it stand the
meaning of a matcher, a property of values (`Interpretation.accepts`), and that
of an assertion (`Interpretation.Holds`): the actual value satisfies the
matcher, or for a negative method fails to.

`Interpretation.Lawful` says what an interpretation owes to Go and to what the
oracle knows: the predeclared names, literals and known constants denote what
they say, `len` and `cap` give sizes, and a comparison denotes a boolean.

Nothing here looks at how an assertion is recognized.  The actual value is found
from the syntax alone: below the helper calls of the chain stands the call that
takes it (`actualArg?`).
-/

namespace GomegaLint

/-- The proposition, or its opposite. -/
def Negated (negative : Bool) (p : Prop) : Prop := if negative then ¬ p else p

theorem negated_congr {p q : Prop} (negative : Bool) (same : p ↔ q) :
    Negated negative p ↔ Negated negative q := by
  unfold Negated
  rw [same]

theorem negated_negated (a b : Bool) (p : Prop) :
    Negated a (Negated b p) ↔ Negated (a != b) p := by
  cases a <;> cases b <;> simp [Negated]

theorem negated_not (a : Bool) (p : Prop) : Negated a (¬ p) ↔ Negated (!a) p := by
  cases a <;> simp [Negated]

theorem iff_negated_comm {p q : Prop} (a : Bool) : (p ↔ Negated a q) ↔ (q ↔ Negated a p) := by
  cases a
  · exact iff_comm
  · simp only [Negated, if_true]
    tauto

/-- A negated equation of booleans is an equation with the other one. -/
theorem negated_bool_eq (a b c : Bool) : Negated a (b = c) ↔ b = (c != a) := by
  cases a <;> cases b <;> cases c <;> simp [Negated]

namespace Literal

/-- The number that an integer literal writes. -/
def number (text : String) : Nat :=
  let r := baseAndDigits ((withoutUnderscores text).map Char.toLower)
  (natOfDigits? r.1 r.2).getD 0

end Literal

/-- What expressions denote: a value for each, the values of constants and of
`nil`, the sizes of values and their order.  Matchers that are not known here
accept what `other` says. -/
structure Interpretation (V : Type) where
  denote : Expr → V
  constant : Constant → V
  nil : V
  size : SizeFunction → V → Nat
  lt : V → V → Prop
  le : V → V → Prop
  other : Expr → V → Prop

namespace Interpretation

variable {V : Type} (I : Interpretation V)

def bool (b : Bool) : V := I.constant (.bool b)

def int (i : Int) : V := I.constant (.int i)

/-- What a comparison says of two values. -/
def compares : BinaryOp → V → V → Prop
  | .eq, v, w => v = w
  | .ne, v, w => v ≠ w
  | .lt, v, w => I.lt v w
  | .le, v, w => I.le v w
  | .gt, v, w => I.lt w v
  | .ge, v, w => I.le w v
  | _, _, _ => False

/-- The call `callee(x)` is one of a predeclared size function: the oracle knows
the callee as predeclared, or does not know it at all. -/
def IsSizeCall (o : Oracle) (f : SizeFunction) (callee : Expr) : Prop :=
  ∃ i : Ident, callee = .ident i ∧ i.name = f.name ∧
    ∀ t, o callee = some t → ∃ name, t.type = .builtin name

/-- What an interpretation owes to Go and to the oracle. -/
structure Lawful (o : Oracle) : Prop where
  int_injective : Function.Injective I.int
  bool_injective : Function.Injective I.bool
  string_injective : Function.Injective fun s => I.constant (.string s)
  float_zero : ∀ f : Float, (f == 0.0) = true → I.constant (.float f) = I.int 0
  float_one : ∀ f : Float, (f == 1.0) = true → I.constant (.float f) = I.int 1
  lt_int : ∀ i j : Int, I.lt (I.int i) (I.int j) ↔ i < j
  le_int : ∀ i j : Int, I.le (I.int i) (I.int j) ↔ i ≤ j
  nil_name : ∀ i : Ident, i.name = "nil" → I.denote (.ident i) = I.nil
  true_name : ∀ i : Ident, i.name = "true" → I.denote (.ident i) = I.bool true
  false_name : ∀ i : Ident, i.name = "false" → I.denote (.ident i) = I.bool false
  int_literal : ∀ origin text,
    I.denote (.literal origin .int text) = I.int (Literal.number text)
  /-- A string literal without escapes denotes what stands between its quotes. -/
  string_literal : ∀ origin text s, Literal.contents? text = some s → '\\' ∉ s.toList →
    I.denote (.literal origin .string text) = I.constant (.string s)
  known_nil : ∀ e t, o e = some t → t.isNil = true → I.denote e = I.nil
  known_constant : ∀ e t c, o e = some t → t.value = some c → I.denote e = I.constant c
  size_call : ∀ origin f callee x, IsSizeCall o f callee →
    I.denote (.call origin callee [x] false) = I.int (I.size f (I.denote x))
  comparison : ∀ origin x op y, op.isComparison = true →
    ∃ b, I.denote (.binary origin x op y) = I.bool b ∧
      (b = true ↔ I.compares op (I.denote x) (I.denote y))

/-! ## Matchers -/

/-- The property of values that a matcher function with some arguments checks,
for the functions known here. -/
def check? (name : String) (args : List Expr) : Option (V → Prop) :=
  match name, args with
  | "Equal", [y] | "BeEquivalentTo", [y] | "BeIdenticalTo", [y] =>
    some fun v => v = I.denote y
  | "BeTrue", [] => some fun v => v = I.bool true
  | "BeFalse", [] => some fun v => v = I.bool false
  | "BeZero", [] => some fun v => v = I.int 0
  | "BeNil", [] => some fun v => v = I.nil
  | "BeEmpty", [] => some fun v => I.size .len v = 0
  | "HaveLen", [n] => some fun v => I.int (I.size .len v) = I.denote n
  | "HaveCap", [n] => some fun v => I.int (I.size .cap v) = I.denote n
  | "HaveOccurred", [] => some fun v => v ≠ I.nil
  | "Succeed", [] => some fun v => v = I.nil
  | "BeNumerically", [op, y] => some fun v =>
    ∃ c : BinaryOp, I.denote op = I.constant (.string c.symbol) ∧ I.compares c v (I.denote y)
  | _, _ => none

/-- The matcher function that a call invokes; none if an argument is spread. -/
def matcherName? (style : ImportStyle) (c : Call) : Option String :=
  if c.spread then none else style.matcherOf? c.callee

/-- What a matcher call other than `Not` checks.  One of a function that is not
known here, or with a spread argument, checks whatever the interpretation
says. -/
def checkOf (style : ImportStyle) (c : Call) : V → Prop :=
  ((matcherName? style c).bind (I.check? · c.args)).getD (I.other c.toExpr)

/-- The value satisfies the matcher.  `Not` stands for the opposite of its first
argument. -/
def accepts (style : ImportStyle) : Expr → V → Prop
  | .call o f (a :: as) s, v =>
    if matcherName? style ⟨o, f, a :: as, s⟩ = some "Not" then ¬ accepts style a v
    else I.checkOf style ⟨o, f, a :: as, s⟩ v
  | .call o f [] s, v => I.checkOf style ⟨o, f, [], s⟩ v
  | e, v => I.other e v

/-- A matcher call that is no `Not` accepts what it checks. -/
theorem accepts_toExpr {style : ImportStyle} {c : Call} (v : V)
    (notNot : matcherName? style c ≠ some "Not") :
    I.accepts style c.toExpr v ↔ I.checkOf style c v := by
  obtain ⟨o, f, args, s⟩ := c
  cases args with
  | nil => simp [Call.toExpr, accepts]
  | cons a as => simp [Call.toExpr, accepts, notNot]

/-- `Not` checks nothing by itself. -/
theorem check?_not (args : List Expr) : I.check? "Not" args = none := by
  rcases args with - | ⟨a, - | ⟨b, - | ⟨c, cs⟩⟩⟩ <;> simp [check?]

/-- A call of a known matcher function accepts what the function checks. -/
theorem accepts_known {style : ImportStyle} {c : Call} {name : String} {check : V → Prop}
    (named : matcherName? style c = some name) (known : I.check? name c.args = some check) (v : V) :
    I.accepts style c.toExpr v ↔ check v := by
  have notNot : matcherName? style c ≠ some "Not" := by
    rw [named]
    intro same
    cases same
    rw [check?_not] at known
    cases known
  rw [accepts_toExpr I v notNot, checkOf, named]
  simp [known]

/-- A matcher built for a style checks what its name says. -/
theorem accepts_matcher (style : ImportStyle) (name : String) (args : List Expr)
    {check : V → Prop} (known : I.check? name args = some check) (v : V) :
    I.accepts style (style.matcher name args).toExpr v ↔ check v := by
  have named : matcherName? style (style.matcher name args) = some name := by
    cases style <;> simp [matcherName?, ImportStyle.matcher, ImportStyle.functionExpr,
      ImportStyle.matcherOf?, ImportStyle.isBoundName, Expr.named]
  exact I.accepts_known named known v

end Interpretation

/-! ## Assertions -/

/-- The argument at an index of the call that takes the actual value, from what
the assertion method is selected from: the call under all helper calls. -/
def actualArg? (index : Nat) : Expr → Option Expr
  | .call _ (.selector _ x m) args _ =>
    if ImportStyle.isHelper m.name then actualArg? index x else args[index]?
  | .call _ _ args _ => args[index]?
  | _ => none

/-- The actual value at an index, the method and the matcher of a call that is
written like an assertion. -/
def Call.parts? (index : Nat) (c : Call) : Option (Expr × Method × Expr) :=
  match c.callee, c.args with
  | .selector _ x m, matcher :: _ => do
    let value ← actualArg? index x
    let method ← Method.ofName? m.name
    return (value, method, matcher)
  | _, _ => none

/-- The assertion about its argument at an index holds. -/
def Interpretation.Holds {V : Type} (I : Interpretation V) (style : ImportStyle) (index : Nat)
    (c : Call) : Prop :=
  ∃ value method matcher, c.parts? index = some (value, method, matcher) ∧
    Negated method.isNegative (I.accepts style matcher (I.denote value))

theorem Interpretation.holds_iff {V : Type} (I : Interpretation V) {style : ImportStyle}
    {index : Nat} {c : Call} {value matcher : Expr} {method : Method}
    (parts : c.parts? index = some (value, method, matcher)) :
    I.Holds style index c ↔
      Negated method.isNegative (I.accepts style matcher (I.denote value)) := by
  constructor
  · rintro ⟨value', method', matcher', parts', holds⟩
    rw [parts] at parts'
    cases parts'
    exact holds
  · exact fun holds => ⟨value, method, matcher, parts, holds⟩

/-! ## A lawful interpretation

The laws can be met: where nothing is known of any expression, constants and
`nil` are values enough. -/

namespace ConstantValues

/-- A constant, with a float that is zero or one as that integer. -/
def normal : Constant → Constant
  | .float f => if f == 1.0 then .int 1 else if f == 0.0 then .int 0 else .float f
  | c => c

/-- The values without what expressions denote. -/
def base : Interpretation (Option Constant) where
  denote _ := none
  constant c := some (normal c)
  nil := none
  size
    | _, some (.string s) => s.utf8ByteSize
    | _, _ => 0
  lt
    | some (.int i), some (.int j) => i < j
    | _, _ => False
  le
    | some (.int i), some (.int j) => i ≤ j
    | _, _ => False
  other _ _ := False

open Classical in
/-- Literals and the predeclared names denote what they say, sizes and
comparisons what they come to, and everything else `nil`. -/
noncomputable def denote : Expr → Option Constant
  | .ident i =>
    if i.name = "true" then some (.bool true)
    else if i.name = "false" then some (.bool false)
    else none
  | .literal _ .int text => some (.int (Literal.number text))
  | .literal _ .string text => (Literal.contents? text).map .string
  | .call _ (.ident i) [x] false =>
    (SizeFunction.ofName? i.name).map fun f => .int (base.size f (denote x))
  | .binary _ x op y => some (.bool (decide (base.compares op (denote x) (denote y))))
  | _ => none

noncomputable def interpretation : Interpretation (Option Constant) :=
  { base with denote }

/-- No float is both zero and one. -/
theorem float_zero_ne_one (f : Float) (isZero : (f == 0.0) = true) : (f == 1.0) = false := by
  change (f.toModel.unpack.compare (.zero .positive) == some .eq) = true at isZero
  obtain ⟨mantissa, exponent, positive, one⟩ :
      ∃ mantissa exponent positive, (1.0 : Float).toModel.unpack =
        .finite .positive mantissa exponent positive := ⟨_, _, _, rfl⟩
  change (f.toModel.unpack.compare (1.0 : Float).toModel.unpack == some .eq) = false
  rw [one]
  generalize f.toModel.unpack = u at isZero
  cases u with
  | zero sign => rfl
  | infinity sign => cases sign <;> cases isZero
  | notANumber => cases isZero
  | finite sign m e p => cases sign <;> cases isZero

theorem lawful : interpretation.Lawful fun _ => none where
  int_injective i j same := by simpa [interpretation, base, Interpretation.int, normal] using same
  bool_injective i j same := by simpa [interpretation, base, Interpretation.bool, normal] using same
  string_injective i j same := by simpa [interpretation, base, normal] using same
  float_zero f isZero := by
    simp [interpretation, base, Interpretation.int, normal, isZero, float_zero_ne_one f isZero]
  float_one f isOne := by simp [interpretation, base, Interpretation.int, normal, isOne]
  lt_int i j := Iff.rfl
  le_int i j := Iff.rfl
  nil_name i named := by simp [interpretation, denote, named, base]
  true_name i named := by simp [interpretation, denote, named, base, Interpretation.bool, normal]
  false_name i named := by simp [interpretation, denote, named, base, Interpretation.bool, normal]
  int_literal origin text := by simp [interpretation, denote, base, Interpretation.int, normal]
  string_literal origin text s contents _ := by
    simp [interpretation, denote, base, contents, normal]
  known_nil e t typed := by cases typed
  known_constant e t c typed := by cases typed
  size_call origin f callee x isSize := by
    obtain ⟨i, rfl, named, -⟩ := isSize
    cases f <;> simp [interpretation, denote, base, Interpretation.int, normal, named,
      SizeFunction.name, SizeFunction.ofName?]
  comparison origin x op y _ := by
    classical
    refine ⟨_, rfl, decide_eq_true_iff.trans ?_⟩
    cases op <;> rfl

end ConstantValues

end GomegaLint
