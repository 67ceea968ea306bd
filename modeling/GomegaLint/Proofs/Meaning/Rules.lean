import Mathlib
import GomegaLint.Proofs.Decisions
import GomegaLint.Proofs.Meaning.Draft

/-!
# Fixes keep the meaning of an assertion

The rules on sizes, `nil`, errors and comparisons restate an assertion with
another matcher.  Under every lawful interpretation the restated assertion holds
exactly when the one it stands for does (`Rule.fix_keeps_meaning`).

A fix is one of two kinds.  One on a comparison drops the wrappers and takes the
polarity from what the assertion expects the comparison to be
(`Assertion.Reading.restated`); one on a matcher keeps them
(`Assertion.Reading.replaced`).  What is left for each kind of decision
(`Rule.Decides`) is a fact about its own matcher: `sizeComparisonCheck?_meaning`,
`sizeCheck?_meaning`, `comparisonCheck?_meaning` and `assertError_meaning`.
-/

namespace GomegaLint

/-! ## Constants -/

namespace Literal

theorem natOfDigits?_zeros {base : Nat} (positive : 0 < base) {cs : List Char}
    (zeros : cs.all (· == '0') = true) : (natOfDigits? base cs).getD 0 = 0 := by
  have folded : cs.foldlM (fun n c => do
      let d ← digitValue c
      if d < base then some (n * base + d) else none) 0 = some 0 := by
    induction cs with
    | nil => rfl
    | cons d ds ih =>
        simp only [List.all_cons, Bool.and_eq_true, beq_iff_eq] at zeros
        obtain ⟨rfl, zeros⟩ := zeros
        simpa [show digitValue '0' = some 0 from rfl, positive] using ih zeros
  rw [natOfDigits?, folded]
  split <;> rfl

/-- A literal made of zeros is zero in any base. -/
theorem number_zeros {text : String} (zeros : text.toList.all (· == '0') = true) :
    number text = 0 := by
  have plain : (withoutUnderscores text).map Char.toLower = text.toList := by
    rw [withoutUnderscores]
    generalize text.toList = cs at zeros
    induction cs with
    | nil => rfl
    | cons c cs ih =>
        simp only [List.all_cons, Bool.and_eq_true, beq_iff_eq] at zeros
        obtain ⟨rfl, zeros⟩ := zeros
        simp [ih zeros]
  rw [number, plain]
  match read : text.toList with
  | [] => rfl
  | [c] =>
      rw [read] at zeros
      have : c = '0' := by simpa using zeros
      subst this
      rfl
  | c :: d :: cs =>
      rw [read] at zeros
      simp only [List.all_cons, Bool.and_eq_true, beq_iff_eq] at zeros
      obtain ⟨rfl, rfl, zeros⟩ := zeros
      have others : ('0' :: cs).all (· == '0') = true := by simpa using zeros
      exact natOfDigits?_zeros (show 0 < 8 by decide) others

end Literal

section

variable {V : Type} {I : Interpretation V} {o : Oracle}

namespace Value

theorem denote_of_constant? (lawful : I.Lawful o) {e : Expr} {c : Constant}
    (known : (Value.of o ⟨e, e⟩).constant? = some c) : I.denote e = I.constant c := by
  obtain ⟨t, typed, value⟩ := Option.bind_eq_some_iff.mp known
  exact lawful.known_constant e t c typed value

/-- What passes for zero denotes zero. -/
theorem denote_of_isZero (lawful : I.Lawful o) {e : Expr}
    (isZero : (Value.of o ⟨e, e⟩).isZero = true) : I.denote e = I.int 0 := by
  unfold Value.isZero at isZero
  split at isZero
  · rename_i i known
    rw [denote_of_constant? lawful known, eq_of_beq isZero]
    rfl
  · rename_i f known
    rw [denote_of_constant? lawful known]
    exact lawful.float_zero f isZero
  · cases isZero
  · split at isZero
    · rename_i isLiteral
      change e = _ at isLiteral
      rw [isLiteral, lawful.int_literal, Literal.number_zeros isZero]
      rfl
    · cases isZero

/-- What passes for one denotes one. -/
theorem denote_of_isOne (lawful : I.Lawful o) {e : Expr}
    (isOne : (Value.of o ⟨e, e⟩).isOne = true) : I.denote e = I.int 1 := by
  unfold Value.isOne at isOne
  split at isOne
  · rename_i i known
    rw [denote_of_constant? lawful known, eq_of_beq isOne]
    rfl
  · rename_i f known
    rw [denote_of_constant? lawful known]
    exact lawful.float_one f isOne
  · cases isOne
  · split at isOne
    · rename_i isLiteral
      change e = _ at isLiteral
      rw [isLiteral, lawful.int_literal, eq_of_beq isOne]
      rfl
    · cases isOne

end Value

/-! ## Comparisons -/

theorem Interpretation.compares_exchanged (op : BinaryOp) (v w : V) :
    I.compares op.exchanged v w ↔ I.compares op w v := by
  cases op <;> first
    | exact Iff.rfl
    | exact eq_comm
    | exact ne_comm

/-- A comparison denotes what its operator says of the operands, in whichever
order they are written. -/
theorem Interpretation.Lawful.compared (lawful : I.Lawful o) {e x y : Expr} {op : BinaryOp}
    (compares : e.Compares x op y) :
    ∃ b, I.denote e = I.bool b ∧ (b = true ↔ I.compares op (I.denote x) (I.denote y)) := by
  obtain ⟨origin, op', comparison, ⟨rfl, rfl⟩ | ⟨rfl, rfl⟩⟩ := compares
  · exact lawful.comparison origin x op y comparison
  · obtain ⟨b, denotes, truth⟩ := lawful.comparison origin y op' x comparison
    exact ⟨b, denotes, truth.trans (I.compares_exchanged op' _ _).symm⟩

/-- What passes for `nil` denotes `nil`. -/
theorem Interpretation.Lawful.denote_nil (lawful : I.Lawful o) {e : Expr}
    (isNil : o.isNilOrUnknown e = true) : I.denote e = I.nil := by
  simp only [Oracle.isNilOrUnknown, Oracle.isNil, Bool.or_eq_true, Bool.and_eq_true,
    Option.any_eq_true] at isNil
  rcases isNil with ⟨-, t, typed, isNil⟩ | ⟨isNamed, -⟩
  · exact lawful.known_nil e t typed isNil
  · cases e with
    | ident i => exact lawful.nil_name i (by simpa [Expr.isNilName] using isNamed)
    | _ => simp [Expr.isNilName] at isNamed

/-! ## The matcher of an assertion -/

/-- The innermost matcher accepts what its function checks. -/
theorem Matcher.Innermost.accepts {style : ImportStyle} {m : Matcher} {check : V → Prop}
    (innermost : m.Innermost style) (known : I.check? m.name m.call.seen.args = some check)
    (v : V) : I.accepts style m.call.seen.toExpr v ↔ check v :=
  I.accepts_known innermost.named known v

/-- The arguments of the innermost matcher, by their number. -/
theorem Matcher.Innermost.arg? {style : ImportStyle} {m : Matcher} {index : Nat} {t : Twin}
    (innermost : m.Innermost style) (found : m.arg? index = some t) :
    t = ⟨t.seen, t.seen⟩ ∧ m.call.seen.args[index]? = some t.seen := by
  obtain ⟨⟨seen, copy⟩, name, depth⟩ := m
  obtain rfl : copy = seen := innermost.same
  obtain ⟨e, inArgs, rfl⟩ := CallTwin.arg?_same found
  exact ⟨rfl, inArgs⟩

/-- A matcher that asks for a boolean accepts that boolean. -/
theorem Matcher.Innermost.accepts_wantedBool (lawful : I.Lawful o) {style : ImportStyle}
    {m : Matcher} {wanted : Bool} (innermost : m.Innermost style)
    (wants : Assertion.wantedBool? m = some wanted) (v : V) :
    I.accepts style m.call.seen.toExpr v ↔ v = I.bool wanted := by
  unfold Assertion.wantedBool? at wants
  split at wants
  · rename_i name count named none
    cases wants
    have args : m.call.seen.args = [] := List.length_eq_zero_iff.mp none
    exact innermost.accepts (by rw [named, args]; rfl) v
  · rename_i name count named none
    cases wants
    have args : m.call.seen.args = [] := List.length_eq_zero_iff.mp none
    exact innermost.accepts (by rw [named, args]; rfl) v
  · rename_i name count named one
    obtain ⟨y, args⟩ := List.length_eq_one_iff.mp one
    rw [innermost.accepts (by rw [named, args]; rfl) v]
    split at wants
    · rename_i i isIdent
      obtain ⟨t, found, seen⟩ := Option.map_eq_some_iff.mp isIdent
      have same := (innermost.arg? found).2
      rw [args, List.getElem?_cons_zero, Option.some.injEq, seen] at same
      subst same
      split at wants
      · cases wants
        rw [lawful.true_name i ‹_›]
      · split at wants
        · cases wants
          rw [lawful.false_name i ‹_›]
        · cases wants
    · cases wants
  · cases wants

/-! ## An assertion with its matcher -/

/-- A recognized assertion whose matcher is known: its parts, and what replacing
its actual value makes of them. -/
structure Assertion.Reading (style : ImportStyle) (o : Oracle) (call : Call) (a : Assertion)
    (value matcher : Expr) (m : Matcher) : Prop where
  style_eq : a.style = style
  oracle_eq : a.oracle = o
  parts : call.parts? a.actual.offset = some (value, a.method, matcher)
  reads : a.actual.subject.Reads o value
  innermost : m.Innermost style
  under : UnderNots style m.call.seen m.notDepth matcher
  draft : a.draft.call = call ∧ a.draft.notDepth = m.notDepth
  moved : ∀ e d, a.draft.setActualArg a.actual.offset e = some d →
    d.call.parts? a.actual.offset = some (e, a.method, matcher) ∧ d.notDepth = m.notDepth

theorem Assertion.reading_of_of? {style : ImportStyle} {call : Call} {a : Assertion} {m : Matcher}
    (recognized : Assertion.of? style o call call = some a)
    (unspread : ∀ t ∈ call.args[0]?, Unspread style t) (matched : a.matcher = some m) :
    ∃ value matcher, a.actual.arg = ⟨value, value⟩ ∧
      Assertion.Reading style o call a value matcher m := by
  obtain ⟨origin, x, method, taking, value, anatomy⟩ := Assertion.of?_anatomy recognized
  have found := anatomy.matcher_eq
  rw [matched, eq_comm, Option.bind_eq_some_iff] at found
  obtain ⟨t, first, found⟩ := found
  obtain ⟨rest, args⟩ : ∃ rest, call.args = t :: rest := by
    cases shape : call.args with
    | nil => simp [shape] at first
    | cons t' rest =>
        simp only [shape, List.getElem?_cons_zero, Option.some.injEq] at first
        exact ⟨rest, by rw [first]⟩
  obtain ⟨innermost, n, depths, under⟩ := Matcher.find?_same (unspread t first) found
  obtain rfl : n = m.notDepth := by omega
  have sameCall : a.draft.call = call := anatomy.copy_eq
  have sameDepth : a.draft.notDepth = m.notDepth := by simp [Assertion.draft, matched]
  refine ⟨value, t, anatomy.arg_eq, anatomy.style_eq, anatomy.oracle_eq,
    Call.parts?_of anatomy.callee_eq args ?_ anatomy.method_eq, anatomy.reads, innermost, under,
    ⟨sameCall, sameDepth⟩, ?_⟩
  · rw [anatomy.under.actualArg? anatomy.noHelper]
    exact anatomy.arg
  · intro e d edited
    have inside := (List.getElem?_eq_some_iff.mp anatomy.arg).1
    have moved := Draft.parts?_setActualArg (sameCall ▸ anatomy.callee_eq) (sameCall ▸ args)
      anatomy.method_eq anatomy.under anatomy.noHelper inside edited
    exact ⟨moved.1, moved.2.trans sameDepth⟩

namespace Assertion.Reading

variable {style : ImportStyle} {call : Call} {a : Assertion} {value matcher : Expr} {m : Matcher}

/-- The method and the wrappers together say whether the innermost matcher has to
match. -/
theorem holds_iff (reading : Reading style o call a value matcher m) :
    I.Holds style a.actual.offset call ↔
      Negated (!a.expectsMatch m) (I.accepts style m.call.seen.toExpr (I.denote value)) := by
  rw [I.holds_iff reading.parts, negated_congr _ (reading.under.accepts_iff I _), negated_negated]
  rfl

/-- An assertion about a boolean says which one it is. -/
theorem holds_iff_bool (reading : Reading style o call a value matcher m) (lawful : I.Lawful o)
    {b expected : Bool} (denotes : I.denote value = I.bool b)
    (expects : a.expectsTrue? m = some expected) :
    I.Holds style a.actual.offset call ↔ b = expected := by
  obtain ⟨wanted, wants, rfl⟩ := Option.map_eq_some_iff.mp expects
  have accepts : I.accepts style m.call.seen.toExpr (I.denote value) ↔ b = wanted := by
    rw [reading.innermost.accepts_wantedBool lawful wants, denotes]
    exact lawful.bool_injective.eq_iff
  rw [reading.holds_iff, negated_congr _ accepts, negated_bool_eq]
  cases wanted <;> cases a.expectsMatch m <;> rfl

/-- **A comparison is restated** by a matcher that says the same of the moved
value, or the opposite, with the polarity set from what was expected. -/
theorem restated (reading : Reading style o call a value matcher m) (lawful : I.Lawful o)
    {x y e : Expr} {op : BinaryOp} {expected opposite : Bool} {new : Call} {d₁ d₂ d₃ : Draft}
    (compares : value.Compares x op y) (expects : a.expectsTrue? m = some expected)
    (meaning : I.accepts style new.toExpr (I.denote e) ↔
      Negated opposite (I.compares op (I.denote x) (I.denote y)))
    (moves : a.draft.setActualArg a.actual.offset e = some d₁)
    (replaces : d₁.setMatcher new = some d₂)
    (turns : d₂.setNegative (expected == opposite) = some d₃) :
    I.Holds style a.actual.offset d₃.call ↔ I.Holds style a.actual.offset call := by
  obtain ⟨b, denotes, truth⟩ := lawful.compared compares
  rw [Draft.holds_restated I (reading.moved e d₁ moves).1 replaces turns,
    reading.holds_iff_bool lawful denotes expects, negated_congr _ meaning, negated_negated,
    ← negated_congr _ truth, negated_bool_eq]
  cases expected <;> cases opposite <;> cases b <;> decide

/-- **A matcher is replaced** by one that says the same of the moved value, or
the opposite, and then the method turns. -/
theorem replaced (reading : Reading style o call a value matcher m) (turns : Bool) {e : Expr}
    {new : Call} {d₁ d₂ d₃ : Draft}
    (parts : d₁.call.parts? a.actual.offset = some (e, a.method, matcher))
    (depth : d₁.notDepth = m.notDepth)
    (meaning : I.accepts style new.toExpr (I.denote e) ↔
      Negated turns (I.accepts style m.call.seen.toExpr (I.denote value)))
    (replaces : d₁.setInnerMatcher new = some d₂)
    (turned : (if turns then d₂.reverse else some d₂) = some d₃) :
    I.Holds style a.actual.offset d₃.call ↔ I.Holds style a.actual.offset call := by
  have under := depth ▸ reading.under
  have replaced := Draft.holds_replaced I parts under replaces
  rw [depth] at replaced
  rw [reading.holds_iff]
  cases turns with
  | false =>
      cases turned
      rw [replaced]
      exact negated_congr _ meaning
  | true =>
      obtain ⟨matcher', parts', -⟩ := Draft.parts?_setInnerMatcher parts under replaces
      rw [Draft.holds_reverse I parts' turned, replaced, negated_congr _ meaning, negated_negated]
      change ¬ Negated ((!a.expectsMatch m) != true) _ ↔ _
      cases a.expectsMatch m <;> simp [Negated]

end Assertion.Reading

/-! ## Sizes -/

namespace Rule

/-- The matcher for a size accepts the values of that size. -/
theorem accepts_sizeMatcher (lawful : I.Lawful o) (style : ImportStyle) (f : SizeFunction)
    {size : Expr} {isZero : Bool} (zero : f = .len → isZero = true → I.denote size = I.int 0)
    (v : V) : I.accepts style (sizeMatcher style f size isZero).toExpr v ↔
      I.int (I.size f v) = I.denote size := by
  cases f with
  | len =>
      cases isZero with
      | false => exact I.accepts_matcher style "HaveLen" [size] rfl v
      | true =>
          rw [zero rfl rfl, lawful.int_injective.eq_iff, Int.natCast_eq_zero]
          exact I.accepts_matcher style "BeEmpty" [] rfl v
  | cap => exact I.accepts_matcher style "HaveCap" [size] rfl v

theorem accepts_sizeMatcherOf (lawful : I.Lawful o) (style : ImportStyle) (f : SizeFunction)
    (y : Expr) (v : V) :
    I.accepts style (sizeMatcherOf style f (Value.of o ⟨y, y⟩)).toExpr v ↔
      I.int (I.size f v) = I.denote y :=
  accepts_sizeMatcher lawful style f (fun _ isZero => Value.denote_of_isZero lawful isZero) v

/-- `BeEmpty` accepts the values whose length is not above zero. -/
theorem accepts_empty (lawful : I.Lawful o) (style : ImportStyle) {f : SizeFunction}
    (isLen : f = .len) (size : Expr) (v : V) :
    I.accepts style (sizeMatcher style f size true).toExpr v ↔
      ¬ I.lt (I.int 0) (I.int (I.size f v)) := by
  subst isLen
  rw [lawful.lt_int]
  have empty := I.accepts_matcher style "BeEmpty" [] rfl v
  refine empty.trans ?_
  omega

/-- What becomes of a comparison of a size says the same, or the opposite. -/
theorem sizeComparisonCheck?_meaning (lawful : I.Lawful o) {style : ImportStyle} {f : SizeFunction}
    {op : BinaryOp} {y : Expr} {new : Call} {opposite : Bool}
    (found : sizeComparisonCheck? style f op (Value.of o ⟨y, y⟩) = some (new, opposite)) (v : V) :
    I.accepts style new.toExpr v ↔
      Negated opposite (I.compares op (I.int (I.size f v)) (I.denote y)) := by
  unfold sizeComparisonCheck? at found
  split at found
  · cases found
    exact accepts_sizeMatcherOf lawful style f y v
  · cases found
    rw [accepts_sizeMatcherOf lawful style f y v]
    exact not_not.symm
  · split at found
    · rename_i above
      simp only [Bool.and_eq_true, decide_eq_true_eq] at above
      cases found
      rw [accepts_empty lawful style above.1, Value.denote_of_isZero lawful above.2]
      exact Iff.rfl
    · cases found
  · split at found
    · rename_i atLeast
      simp only [Bool.and_eq_true, decide_eq_true_eq] at atLeast
      cases found
      rw [accepts_empty lawful style atLeast.1, Value.denote_of_isOne lawful atLeast.2]
      simp only [Negated, if_true, Interpretation.compares, lawful.lt_int, lawful.le_int]
      omega
    · cases found
  · cases found

end Rule

theorem BinaryOp.symbol_injective : Function.Injective BinaryOp.symbol := by
  intro c c' same
  have := congrArg BinaryOp.ofSymbol? same
  simpa [BinaryOp.ofSymbol?_symbol] using this

/-- A comparison named by its symbol is that comparison. -/
theorem Interpretation.Lawful.compares_symbol (lawful : I.Lawful o) (op : BinaryOp) (v w : V) :
    (∃ c : BinaryOp, I.constant (.string op.symbol) = I.constant (.string c.symbol) ∧
      I.compares c v w) ↔ I.compares op v w := by
  constructor
  · rintro ⟨c, symbol, compares⟩
    obtain rfl : op = c := BinaryOp.symbol_injective (lawful.string_injective symbol)
    exact compares
  · exact fun compares => ⟨op, rfl, compares⟩

/-- A `BeNumerically` with a known operator compares by it. -/
theorem Matcher.Innermost.accepts_numerically (lawful : I.Lawful o) {style : ImportStyle}
    {m : Matcher} {x y : Expr} (innermost : m.Innermost style) (named : m.name = "BeNumerically")
    (args : m.call.seen.args = [x, y]) {op : BinaryOp}
    (operator : I.denote x = I.constant (.string op.symbol)) (v : V) :
    I.accepts style m.call.seen.toExpr v ↔ I.compares op v (I.denote y) := by
  rw [innermost.accepts (by rw [named, args]; rfl) v, operator]
  exact lawful.compares_symbol op v (I.denote y)

namespace Rule

/-- The operator that a string argument names. -/
theorem denote_stringArg? (lawful : I.Lawful o) {m : Matcher} {x y : Expr} {symbol : String}
    (args : m.call.seen.args = [x, y]) (found : m.stringArg? 0 = some symbol)
    (plain : '\\' ∉ symbol.toList) : I.denote x = I.constant (.string symbol) := by
  simp only [Matcher.stringArg?, args, List.getElem?_cons_zero] at found
  split at found
  · rename_i origin text isString
    cases isString
    exact lawful.string_literal origin text symbol found plain
  · cases found

theorem denote_zero (lawful : I.Lawful o) : I.denote (Expr.intLiteral "0") = I.int 0 := by
  rw [Expr.intLiteral, lawful.int_literal, Literal.number_zeros (by decide)]
  rfl

section Sizes

variable {a : Assertion} {m : Matcher} {f : SizeFunction} {new : Call} {turns : Bool}

/-- A matcher of one argument that compares with it. -/
theorem accepts_equal (innermost : m.Innermost a.style)
    (named : m.name = "Equal" ∨ m.name = "BeEquivalentTo") (one : m.argCount = 1) {t : Twin}
    (arg : m.arg? 0 = some t) (v : V) :
    I.accepts a.style m.call.seen.toExpr v ↔ v = I.denote t.seen := by
  obtain ⟨y, args⟩ := List.length_eq_one_iff.mp one
  have same := (innermost.arg? arg).2
  rw [args, List.getElem?_cons_zero, Option.some.injEq] at same
  have checks : I.check? m.name [y] = some fun v => v = I.denote y := by
    rcases named with named | named <;> rw [named] <;> rfl
  rw [innermost.accepts (by rw [args, checks]) v, same]

/-- A `BeNumerically` compares with its second argument. -/
theorem accepts_compared (lawful : I.Lawful a.oracle) (innermost : m.Innermost a.style)
    (named : m.name = "BeNumerically") (two : m.argCount = 2) (op : BinaryOp)
    (operator : m.stringArg? 0 = some op.symbol) {t : Twin} (arg : m.arg? 1 = some t) (v : V) :
    I.accepts a.style m.call.seen.toExpr v ↔ I.compares op v (I.denote t.seen) := by
  obtain ⟨x, y, args⟩ := List.length_eq_two.mp two
  have same := (innermost.arg? arg).2
  rw [args, List.getElem?_cons_succ, List.getElem?_cons_zero, Option.some.injEq] at same
  have plain : '\\' ∉ op.symbol.toList := by cases op <;> decide
  rw [← same]
  exact innermost.accepts_numerically lawful named args
    (denote_stringArg? lawful args operator plain) v

/-- What becomes of the matcher of a size says the same of the value, or the
opposite. -/
theorem sizeCheck?_meaning (lawful : I.Lawful a.oracle) (innermost : m.Innermost a.style)
    (found : sizeCheck? a m f = some (new, turns)) (v : V) :
    I.accepts a.style new.toExpr v ↔
      Negated turns (I.accepts a.style m.call.seen.toExpr (I.int (I.size f v))) := by
  -- The new matcher takes the expression that the old one compares with.
  have sized : ∀ {index : Nat} {t : Twin}, m.arg? index = some t →
      (I.accepts a.style (sizeMatcherOf a.style f (a.value t)).toExpr v ↔
        I.int (I.size f v) = I.denote t.seen) := by
    intro index t arg
    rw [(innermost.arg? arg).1]
    exact accepts_sizeMatcherOf lawful a.style f t.seen v
  cases sizeChecked_of_sizeCheck? found with
  | equal named one arg =>
      rw [sized arg, accepts_equal innermost named one arg]
      exact Iff.rfl
  | zero named none =>
      have args : m.call.seen.args = [] := List.length_eq_zero_iff.mp none
      rw [innermost.accepts (by rw [named, args]; rfl) _,
        accepts_sizeMatcher lawful a.style f (fun _ _ => denote_zero lawful) v, denote_zero lawful]
      exact Iff.rfl
  | compared op named two equality operator arg =>
      rw [sized arg, accepts_compared lawful innermost named two op operator arg]
      cases op with
      | eq => exact Iff.rfl
      | ne => exact not_not.symm
      | _ => cases equality
  | @notEmpty t symbol named two operator arg isLen above =>
      simp only [saysNotEmpty, Bool.or_eq_true, Bool.and_eq_true, beq_iff_eq] at above
      rw [(innermost.arg? arg).1, Assertion.value] at above
      rcases above with ⟨rfl, isZero⟩ | ⟨rfl, isOne⟩
      · rw [accepts_compared lawful innermost named two .gt operator arg,
          accepts_empty lawful a.style isLen, Value.denote_of_isZero lawful isZero]
        exact Iff.rfl
      · rw [accepts_compared lawful innermost named two .ge operator arg,
          accepts_empty lawful a.style isLen, Value.denote_of_isOne lawful isOne]
        simp only [Negated, if_true, Interpretation.compares, lawful.lt_int, lawful.le_int]
        omega

end Sizes

/-! ## Comparisons -/

theorem denote_stringLiteral (lawful : I.Lawful o) (op : BinaryOp) :
    I.denote (Expr.stringLiteral op.symbol) = I.constant (.string op.symbol) := by
  refine lawful.string_literal {} _ op.symbol ?_ ?_ <;> cases op <;> decide

/-- What becomes of a comparison says the same of its operands, or the
opposite. -/
theorem comparisonCheck?_meaning (lawful : I.Lawful o) {style : ImportStyle} {x y : Expr}
    {op : BinaryOp} {new : Call} {opposite : Bool}
    (found : comparisonCheck? style (Value.of o ⟨x, x⟩) op (Value.of o ⟨y, y⟩) =
      some (new, opposite)) (v : V) :
    I.accepts style new.toExpr v ↔ Negated opposite (I.compares op v (I.denote y)) := by
  unfold comparisonCheck? at found
  simp only at found
  split at found
  · rename_i equality
    have accepts : I.accepts style new.toExpr v ↔ v = I.denote y := by
      cases found
      split
      · exact I.accepts_matcher style "BeIdenticalTo" [y] rfl v
      · exact I.accepts_matcher style "Equal" [y] rfl v
    cases found
    rw [accepts]
    cases op with
    | eq => exact Iff.rfl
    | ne => exact not_not.symm
    | _ => cases equality
  · split at found
    · split at found
      · cases found
      · cases found
        refine (I.accepts_matcher style "BeNumerically" [_, y] rfl v).trans ?_
        rw [denote_stringLiteral lawful]
        exact lawful.compares_symbol op v (I.denote y)
    · cases found

section

variable {call : Call} {value matcher : Expr} {d : Draft} {a : Assertion} {m : Matcher}

/-! ## Comparisons with nil -/

/-- A matcher that asks for `nil` accepts `nil` only. -/
theorem accepts_nilMatcher (lawful : I.Lawful a.oracle) (innermost : m.Innermost a.style)
    (asksNil : isNilMatcher a m = true) (v : V) :
    I.accepts a.style m.call.seen.toExpr v ↔ v = I.nil := by
  have equal : (m.name = "Equal" ∨ m.name = "BeEquivalentTo") → m.argCount = 1 →
      ((m.arg? 0).any fun arg => a.oracle.isNilOrUnknown arg.seen) = true →
      (I.accepts a.style m.call.seen.toExpr v ↔ v = I.nil) := by
    intro named one asksNil
    obtain ⟨t, arg, isNil⟩ := (Option.any_eq_true _ _).mp asksNil
    rw [accepts_equal innermost named one arg, lawful.denote_nil isNil]
  unfold isNilMatcher at asksNil
  split at asksNil
  · rename_i named none
    have args : m.call.seen.args = [] := List.length_eq_zero_iff.mp none
    exact innermost.accepts (by rw [named, args]; rfl) v
  · rename_i named one
    exact equal (.inl named) one asksNil
  · rename_i named one
    exact equal (.inr named) one asksNil
  · cases asksNil

/-- The actual value compares with `nil` only by `==` and `!=`. -/
def NilEquality (o : Oracle) (value : Expr) : Prop :=
  ∀ origin x op y, value = .binary origin x op y → o.isNil x = true ∨ o.isNil y = true →
    op.isEquality = true

/-- A comparison with `nil` on the right says that the other side is `nil`, or
that it is not. -/
theorem compares_nil (lawful : I.Lawful o) {x y : Expr} {op : BinaryOp}
    (nilEquality : NilEquality o value) (compares : value.Compares x op y)
    (isNil : o.isNil y = true) :
    I.compares op (I.denote x) (I.denote y) ↔ Negated (op != .eq) (I.denote x = I.nil) := by
  have equality : op.isEquality = true := by
    obtain ⟨origin, op', -, ⟨rfl, rfl⟩ | ⟨rfl, rfl⟩⟩ := compares
    · exact nilEquality origin x op y rfl (.inr isNil)
    · have equality := nilEquality origin y op' x rfl (.inl isNil)
      cases op' <;> first | rfl | cases equality
  rw [lawful.denote_nil (e := y) (by simp [Oracle.isNilOrUnknown, isNil])]
  cases op with
  | eq => exact Iff.rfl
  | ne => exact Iff.rfl
  | _ => cases equality

/-! ## Errors -/

/-- What is asserted of an error is that it is `nil`, or that it is not. -/
theorem assertError_meaning {d₁ d₂ : Draft} {e : Expr} {v : Value} {expectsNil : Bool}
    (parts : d₁.call.parts? a.actual.offset = some (e, a.method, matcher))
    (asserted : assertError a d₁ v expectsNil = some d₂) :
    I.Holds a.style a.actual.offset d₂.call ↔ Negated (!expectsNil) (I.denote e = I.nil) := by
  unfold assertError at asserted
  split at asserted
  · obtain ⟨d, replaces, turned⟩ := Option.bind_eq_some_iff.mp asserted
    rw [Draft.holds_restated I parts replaces turned]
    exact negated_congr _ (I.accepts_matcher a.style "Succeed" [] rfl _)
  · obtain ⟨d, replaces, turned⟩ := Option.bind_eq_some_iff.mp asserted
    rw [Draft.holds_restated I parts replaces turned,
      negated_congr _ (I.accepts_matcher a.style "HaveOccurred" [] rfl _)]
    exact negated_not expectsNil _

/-! ## One lemma for each kind of decision -/

variable {new : Call}

theorem meaning_size {f : SizeFunction} {sizeCall : CallTwin} {arg : Twin} {turns : Bool}
    (lawful : I.Lawful a.oracle) (reading : a.Reading a.style a.oracle call value matcher m)
    (subject : a.actual.subject = .size f sizeCall arg)
    (checked : sizeCheck? a m f = some (new, turns))
    (made : applyAll? a
      (.actualArg arg.copy :: .innerMatcher new :: if turns then [.reverse] else []) = some d) :
    I.Holds a.style a.actual.offset d.call ↔ I.Holds a.style a.actual.offset call := by
  have reads := reading.reads
  rw [subject] at reads
  obtain ⟨same, origin, callee, rfl, isSize⟩ := reads
  obtain ⟨d₁, moves, d₂, replaces, turned⟩ := applyAll?_resized_iff.mp made
  obtain ⟨parts, depth⟩ := reading.moved _ d₁ moves
  refine reading.replaced turns parts depth ?_ replaces turned
  rw [same, lawful.size_call origin f callee arg.seen isSize]
  exact sizeCheck?_meaning lawful reading.innermost checked _

theorem meaning_sizeComparison {f : SizeFunction} {sizeCall : CallTwin} {arg : Twin}
    {op : BinaryOp} {right : Value} {expected opposite : Bool} (lawful : I.Lawful a.oracle)
    (reading : a.Reading a.style a.oracle call value matcher m)
    (subject : a.actual.subject = .sizeComparison f sizeCall arg op right)
    (asked : a.expectsTrue? m = some expected)
    (checked : sizeComparisonCheck? a.style f op right = some (new, opposite))
    (made : applyAll? a (restatement arg.copy new (expected == opposite)) = some d) :
    I.Holds a.style a.actual.offset d.call ↔ I.Holds a.style a.actual.offset call := by
  have reads := reading.reads
  rw [subject] at reads
  obtain ⟨same, origin, callee, y, rfl, isSize, compares⟩ := reads
  obtain ⟨d₁, moves, d₂, replaces, turned⟩ := applyAll?_restatement_iff.mp made
  refine reading.restated lawful compares asked ?_ moves replaces turned
  rw [same, lawful.size_call origin f callee arg.seen isSize]
  exact sizeComparisonCheck?_meaning lawful checked _

theorem meaning_comparison {left right : Value} {op : BinaryOp} {expected opposite : Bool}
    (lawful : I.Lawful a.oracle) (reading : a.Reading a.style a.oracle call value matcher m)
    (subject : a.actual.subject = .comparison left op right)
    (asked : a.expectsTrue? m = some expected)
    (checked : comparisonCheck? a.style left op right = some (new, opposite))
    (made : applyAll? a (restatement left.twin.copy new (expected == opposite)) = some d) :
    I.Holds a.style a.actual.offset d.call ↔ I.Holds a.style a.actual.offset call := by
  have reads := reading.reads
  rw [subject] at reads
  obtain ⟨x, y, rfl, rfl, compares⟩ := reads
  obtain ⟨d₁, moves, d₂, replaces, turned⟩ := applyAll?_restatement_iff.mp made
  exact reading.restated lawful compares asked (comparisonCheck?_meaning lawful checked _)
    moves replaces turned

theorem meaning_nilComparison {left right : Value} {op : BinaryOp} {expected : Bool}
    (lawful : I.Lawful a.oracle) (reading : a.Reading a.style a.oracle call value matcher m)
    (nilEquality : NilEquality a.oracle value)
    (subject : a.actual.subject = .nilComparison left op right)
    (asked : a.expectsTrue? m = some expected)
    (made : applyAll? a (restatement left.twin.copy (a.style.matcher "BeNil" [])
      (expected != (op == .eq))) = some d) :
    I.Holds a.style a.actual.offset d.call ↔ I.Holds a.style a.actual.offset call := by
  have reads := reading.reads
  rw [subject] at reads
  obtain ⟨x, y, rfl, rfl, isNil, compares⟩ := reads
  obtain ⟨d₁, moves, d₂, replaces, turned⟩ := applyAll?_restatement_iff.mp made
  have polarity : (expected != (op == .eq)) = (expected == (op != .eq)) := by
    simp only [bne]
    cases expected <;> cases op == .eq <;> rfl
  rw [polarity] at turned
  refine reading.restated lawful compares asked ?_ moves replaces turned
  rw [negated_congr _ (compares_nil lawful nilEquality compares isNil), negated_negated,
    bne_self_eq_false]
  exact I.accepts_matcher a.style "BeNil" [] rfl _

theorem meaning_equalNil (lawful : I.Lawful a.oracle)
    (reading : a.Reading a.style a.oracle call value matcher m) (equals : equalsNil a m = true)
    (made : applyAll? a [.innerMatcher (a.style.matcher "BeNil" [])] = some d) :
    I.Holds a.style a.actual.offset d.call ↔ I.Holds a.style a.actual.offset call := by
  have parts : a.draft.call.parts? a.actual.offset = some (value, a.method, matcher) :=
    reading.draft.1 ▸ reading.parts
  rw [applyAll?_single] at made
  refine reading.replaced false parts reading.draft.2 ?_ made rfl
  rw [accepts_nilMatcher lawful reading.innermost (isNilMatcher_of_equalsNil equals)]
  exact I.accepts_matcher a.style "BeNil" [] rfl _

theorem meaning_error {v : Value} (lawful : I.Lawful a.oracle)
    (reading : a.Reading a.style a.oracle call value matcher m)
    (asksNil : isNilMatcher a m = true)
    (made : applyAll? a (errorStatement a v (a.expectsMatch m)) = some d) :
    I.Holds a.style a.actual.offset d.call ↔ I.Holds a.style a.actual.offset call := by
  have parts : a.draft.call.parts? a.actual.offset = some (value, a.method, matcher) :=
    reading.draft.1 ▸ reading.parts
  rw [applyAll?, ← assertError_eq] at made
  rw [assertError_meaning parts made, reading.holds_iff]
  exact negated_congr _ (accepts_nilMatcher lawful reading.innermost asksNil _).symm

theorem meaning_errorComparison {left right : Value} {op : BinaryOp} {expected : Bool}
    (lawful : I.Lawful a.oracle) (reading : a.Reading a.style a.oracle call value matcher m)
    (nilEquality : NilEquality a.oracle value)
    (subject : a.actual.subject = .nilComparison left op right)
    (asked : a.expectsTrue? m = some expected)
    (made : applyAll? a
      (.actualArg left.twin.copy :: errorStatement a left (expected == (op == .eq))) = some d) :
    I.Holds a.style a.actual.offset d.call ↔ I.Holds a.style a.actual.offset call := by
  have reads := reading.reads
  rw [subject] at reads
  obtain ⟨x, y, rfl, rfl, isNil, compares⟩ := reads
  obtain ⟨d₁, moves, asserted⟩ := applyAll?_movedError_iff.mp made
  obtain ⟨b, denotes, truth⟩ := lawful.compared compares
  rw [assertError_meaning (reading.moved _ d₁ moves).1 asserted,
    reading.holds_iff_bool lawful denotes asked]
  have isNilIff : I.denote x = I.nil ↔ b = (op == .eq) := by
    rw [(iff_negated_comm _).mp (truth.trans (compares_nil lawful nilEquality compares isNil)),
      negated_bool_eq, bne, bne]
    cases op == .eq <;> rfl
  refine (negated_congr _ isNilIff).trans ?_
  rw [negated_bool_eq]
  cases op == .eq <;> cases expected <;> rfl

end

/-! ## All rules -/

/-- The rules that say the same in another form. -/
def restating : List Rule :=
  [lenAssertion, capAssertion, nilAssertion, errorAssertion, compareAssertion]

/-- What a restating rule decides keeps the meaning. -/
theorem draft?_meaning {call : Call} {value matcher : Expr} {d : Draft} {a : Assertion}
    {m : Matcher} {r : Rule} (lawful : I.Lawful a.oracle)
    (reading : a.Reading a.style a.oracle call value matcher m) (matched : a.matcher = some m)
    (nilEquality : NilEquality a.oracle value) (restates : r ∈ restating)
    (fixed : r.draft? a = some d) :
    I.Holds a.style a.actual.offset d.call ↔ I.Holds a.style a.actual.offset call := by
  have same : ∀ {m'}, a.matcher = some m' → m = m' :=
    fun matched' => Option.some.inj (matched.symm.trans matched')
  obtain ⟨cs, decides, made⟩ := draft?_eq_some_iff.mp fixed
  cases decides with
  | size matched' subject checked =>
      obtain rfl := same matched'
      exact meaning_size lawful reading subject checked made
  | sizeComparison matched' subject asked checked =>
      obtain rfl := same matched'
      exact meaning_sizeComparison lawful reading subject asked checked made
  | comparison matched' subject asked checked =>
      obtain rfl := same matched'
      exact meaning_comparison lawful reading subject asked checked made
  | nilComparison matched' subject noError asked =>
      obtain rfl := same matched'
      exact meaning_nilComparison lawful reading nilEquality subject asked made
  | equalNil matched' subject equals =>
      obtain rfl := same matched'
      exact meaning_equalNil lawful reading equals made
  | error matched' subject single asksNil =>
      obtain rfl := same matched'
      exact meaning_error lawful reading asksNil made
  | errorComparison matched' subject isError single asked =>
      obtain rfl := same matched'
      exact meaning_errorComparison lawful reading nilEquality subject asked made
  | passed | pointer => simp [restating] at restates

/-- A rule that restates an assertion needs a known matcher. -/
theorem matcher_of_draft? {a : Assertion} {d : Draft} {r : Rule} (restates : r ∈ restating)
    (fixed : r.draft? a = some d) : ∃ m, a.matcher = some m := by
  obtain ⟨cs, decides, -⟩ := draft?_eq_some_iff.mp fixed
  cases decides with
  | passed => simp [restating] at restates
  | size matched | sizeComparison matched | comparison matched | nilComparison matched
  | equalNil matched | error matched | errorComparison matched | pointer matched =>
      exact ⟨_, matched⟩

/-- **Fixes keep the meaning.**  Take an assertion whose actual value compares
with `nil` by `==` or `!=` only, and whose matchers spread no argument.  The fix
that one of the restating rules reports is the text of a draft, and under every
lawful interpretation the draft holds exactly when the assertion does. -/
theorem fix_keeps_meaning (I : Interpretation V) (o : Oracle) (lawful : I.Lawful o)
    (style : ImportStyle) (call : Call) (a : Assertion)
    (recognized : Assertion.of? style o call call = some a)
    (nilEquality : NilEquality o a.actual.arg.seen)
    (unspread : ∀ t ∈ call.args[0]?, Unspread style t)
    (r : Rule) (restates : r ∈ restating) (text : String)
    (reported : (r.check a).bind Report.fix = some text) :
    ∃ d, r.draft? a = some d ∧ d.print = text ∧
      (I.Holds style a.actual.offset d.call ↔ I.Holds style a.actual.offset call) := by
  rw [fix_check, Option.map_eq_some_iff] at reported
  obtain ⟨d, fixed, printed⟩ := reported
  obtain ⟨m, matched⟩ := matcher_of_draft? restates fixed
  obtain ⟨value, matcher, arg, reading⟩ := Assertion.reading_of_of? recognized unspread matched
  obtain rfl := reading.style_eq
  obtain rfl := reading.oracle_eq
  rw [arg] at nilEquality
  exact ⟨d, fixed, printed, draft?_meaning lawful reading matched nilEquality restates fixed⟩

end Rule

end

namespace Rule

/-- `Expect(0 != len(x)).ToNot(Not(BeFalse()))` -/
def turnedTwice : Call where
  callee :=
    .selector {}
      (.call {} (.named "Expect")
        [.binary {} (.intLiteral "0") .ne (.call {} (.named "len") [.named "x"] false)] false)
      { name := "ToNot" }
  args := [.call {} (.named "Not") [.call {} (.named "BeFalse") [] false] false]

/-- Two wrappers' worth of turns and an operand order cancel out. -/
theorem fix_keeps_meaning_turnedTwice :
    ∃ a, Assertion.of? .dot (fun _ => none) turnedTwice turnedTwice = some a ∧
      (lenAssertion.check a).bind Report.fix = some "Expect(x).To(BeEmpty())" ∧
      ∃ d, lenAssertion.draft? a = some d ∧ d.print = "Expect(x).To(BeEmpty())" ∧
        (ConstantValues.interpretation.Holds .dot 0 d.call ↔
          ConstantValues.interpretation.Holds .dot 0 turnedTwice) := by
  refine ⟨_, rfl, by decide, ?_⟩
  refine fix_keeps_meaning ConstantValues.interpretation _ ConstantValues.lawful .dot turnedTwice _
    rfl ?_ ?_ lenAssertion (by decide) _ (by decide)
  · intro origin x op y isBinary isNil
    simp [Oracle.isNil] at isNil
  · simp [turnedTwice, Unspread]

end Rule

end GomegaLint
