import Mathlib
import GomegaLint.Proofs.Placement
import GomegaLint.Proofs.Qualified.Recognition

/-!
# Comparisons from either side

`Expect(0 < len(x)).To(BeTrue())` and `Expect(len(x) > 0).To(BeTrue())` say the same,
and are treated alike.  The comparison is turned round when the actual value is
classified, on the assertion and on its copy, and the edits of a fix begin with the
argument that differs.

* `CallTwin.Replaces` relates two assertions, with their copies, that are the same but
  for the actual value.
* `Assertion.of?_replaced`: the walk, the function and the place of the actual value
  do not depend on it, so that two such assertions differ in their classification only.
* `Rule.check_replaced`: where a comparison was classified, the reports of a rule
  rest on the classification and on what is known of the whole value.
* `Assertion.of?_exchanged`: a constant operand may stand on either side.
-/

namespace GomegaLint

/-! ## Assertions that differ in the actual value -/

/-- The call with another argument at an index. -/
def Call.withArg (c : Call) (index : Nat) (e : Expr) : Call :=
  { c with args := c.args.set index e }

/-- An assertion whose actual value is taken by a call under so many helper calls, and
the same assertion with another argument in this call. -/
inductive Call.Replaces (taking : Call) (n index : Nat) (e e' : Expr) : Call → Call → Prop
  | intro {x x' : Expr} (o so : Origin) (m : Ident) (args : List Expr) (s : Bool)
      (noHelper : taking.NoHelper) (isArg : taking.args[index]? = some e)
      (helpers : UnderSameHelpers taking (taking.withArg index e') n x x') :
      Replaces taking n index e e' ⟨o, .selector so x m, args, s⟩ ⟨o, .selector so x' m, args, s⟩

/-- The same of the assertions and of their copies. -/
structure CallTwin.Replaces (taking : CallTwin) (n index : Nat) (t t' : Twin) (c c' : CallTwin) :
    Prop where
  seen : Call.Replaces taking.seen n index t.seen t'.seen c.seen c'.seen
  copy : Call.Replaces taking.copy n index t.copy t'.copy c.copy c'.copy

/-- The walk to the actual value arrives in both assertions or in none. -/
theorem ImportStyle.actualFrom?_replaced {style : ImportStyle} {o : Oracle}
    {taking taking' copied copied' : Call} {n : Nat} {x x' y y' : Expr}
    (seen : UnderSameHelpers taking taking' n x x') (copy : UnderSameHelpers copied copied' n y y')
    (callee : taking'.callee = taking.callee) (callee' : copied'.callee = copied.callee)
    (noHelper : taking.NoHelper) (depth : Nat) :
    Option.Rel (fun found found' => found = ⟨taking, copied, depth + n⟩ ∧
        found' = ⟨taking', copied', depth + n⟩)
      (style.actualFrom? o depth x y) (style.actualFrom? o depth x' y') := by
  induction seen generalizing y y' depth with
  | here =>
      cases copy
      obtain ⟨so, sf, sargs, ss⟩ := taking
      obtain ⟨so', sf', sargs', ss'⟩ := taking'
      obtain ⟨co, cf, cargs, cs⟩ := copied
      obtain ⟨co', cf', cargs', cs'⟩ := copied'
      obtain rfl : sf' = sf := callee
      obtain rfl : cf' = cf := callee'
      cases sf' with
      | ident i =>
          cases cf' with
          | ident j => exact .some ⟨rfl, rfl⟩
          | _ => exact .none
      | selector _ sx sm =>
          cases cf' with
          | selector _ cx cm =>
              have notHelper : isHelper sm.name = false := noHelper _ _ _ rfl
              simp only [Call.toExpr, actualFrom?, notHelper, Bool.false_eq_true, if_false]
              by_cases same : sm.name = cm.name
              · cases style.isBoundName sx && style.isBoundName cx <;> cases o.isGomega sx <;>
                  simp [same]
              · simp [same]
          | _ => exact .none
      | _ => exact .none
  | helper so so' args s below isHelper ih =>
      obtain _ | @⟨_, y, y', cm, co, co', cargs, cs, copyBelow, -⟩ := copy
      have unbound := below.underHelpers.1.isBoundName style
      have unbound' := below.underHelpers.2.isBoundName style
      simp only [actualFrom?, unbound, unbound', Bool.false_and, Bool.false_eq_true, if_false,
        isHelper, if_true]
      split
      · exact .none
      · have walked := ih copyBelow (depth + 1)
        rwa [Nat.add_right_comm, Nat.add_assoc] at walked

/-- The index of the actual value among the arguments of a function, behind the context
of an asynchronous one. -/
def Actual.index? (o : Oracle) (function : String) (args : List Expr) : Option Nat :=
  (offset? function).bind fun first =>
    (args[first]?).map fun arg =>
      if isAsyncFunction function && o.hasType GoType.isContext arg then first + 1 else first

/-- The classification of a call in two steps, of which the first finds the index. -/
theorem Actual.of?_eq_index? (o : Oracle) (taking : CallTwin) (depth : Nat) (function : String) :
    Actual.of? o ⟨taking.seen, taking.copy, depth⟩ function =
      (index? o function taking.seen.args).bind fun offset =>
        (taking.arg? offset).bind fun arg =>
          (Subject.of? o arg).map fun subject =>
            ⟨taking, depth, function, offset, arg, subject,
              subject.traits ++ if isAsyncFunction function && isFixedCall o arg.seen then
                [Trait.asyncCall] else [],
              isAsyncFunction function⟩ := by
  obtain ⟨seen, copy⟩ := taking
  simp only [Actual.of?, index?, Option.bind_eq_bind, Option.bind_assoc, Option.pure_def]
  refine Option.bind_congr fun first _ => ?_
  cases inSeen : seen.args[first]? with
  | none => simp [CallTwin.arg?, inSeen]
  | some arg =>
      cases inCopy : copy.args[first]? with
      | some arg' =>
          simp only [CallTwin.arg?, inSeen, inCopy, Option.bind_eq_bind, Option.bind_some,
            Option.pure_def, Option.map_eq_bind, Function.comp_def]
      | none =>
          -- Without the first argument the copy has none behind it either.
          have short : copy.args.length ≤ first := List.getElem?_eq_none_iff.mp inCopy
          have next : copy.args[first + 1]? = none := List.getElem?_eq_none_iff.mpr (by omega)
          have nowhere : (CallTwin.mk seen copy).arg? (if isAsyncFunction function &&
              o.hasType GoType.isContext arg then first + 1 else first) = none := by
            split <;> simp [CallTwin.arg?, inCopy, next]
          simp only [Option.map_some, Option.bind_some, nowhere, Option.bind_none]
          simp [CallTwin.arg?, inCopy]

/-- The index of the actual value in a call of Gomega. -/
def ImportStyle.actualIndex? (style : ImportStyle) (o : Oracle) (c : Call) : Option Nat :=
  (style.actualFunction? o c).bind fun function => Actual.index? o function c.args

/-- The index rests on what is known of the arguments. -/
theorem Actual.index?_withArg {o : Oracle} {c : Call} {index : Nat} {e e' : Expr}
    (isArg : c.args[index]? = some e) (known : o e' = o e) (function : String) :
    index? o function (c.withArg index e').args = index? o function c.args := by
  unfold index? Call.withArg
  refine Option.bind_congr fun first _ => ?_
  by_cases here : index = first
  · subst here
    have inside : index < c.args.length := (List.getElem?_eq_some_iff.mp isArg).1
    have same : o.hasType GoType.isContext e' = o.hasType GoType.isContext e := by
      simp only [Oracle.hasType, Oracle.type?, known]
    rw [List.getElem?_set_self inside, isArg, Option.map_some, Option.map_some, same]
  · rw [List.getElem?_set_ne here]

/-- Actual values that were found at the same place, each with its own classification.
Neither was computed too early. -/
structure Actual.Replaced (o : Oracle) (t t' : Twin) (a a' : Actual) : Prop where
  depth_eq : a'.depth = a.depth
  offset_eq : a'.offset = a.offset
  isAsync_eq : a'.isAsync = a.isAsync
  arg_eq : a.arg = t
  arg_eq' : a'.arg = t'
  subject_eq : Subject.of? o t = some a.subject
  subject_eq' : Subject.of? o t' = some a'.subject
  traits_eq : a.traits = a.subject.traits
  traits_eq' : a'.traits = a'.subject.traits

theorem Actual.of?_replaced {o : Oracle} {taking : CallTwin} {index : Nat} {t t' : Twin}
    {function : String} (inSeen : taking.seen.args[index]? = some t.seen)
    (inCopy : taking.copy.args[index]? = some t.copy)
    (takes : ∀ k, index? o function taking.seen.args = some k → k = index)
    (known : o t'.seen = o t.seen) (noCall : t.seen.isCall = false)
    (noCall' : t'.seen.isCall = false)
    (classified : (Subject.of? o t').isSome = (Subject.of? o t).isSome) (depth : Nat) :
    Option.Rel (fun a a' => a.Replaced o t t' a' ∧ a.depth = depth ∧ a.offset = index)
      (Actual.of? o ⟨taking.seen, taking.copy, depth⟩ function)
      (Actual.of? o ⟨taking.seen.withArg index t'.seen, taking.copy.withArg index t'.copy, depth⟩
        function) := by
  have arg : taking.arg? index = some t := by
    simp [CallTwin.arg?, inSeen, inCopy]
  have arg' : (CallTwin.mk (taking.seen.withArg index t'.seen)
      (taking.copy.withArg index t'.copy)).arg? index = some t' := by
    have inside := (List.getElem?_eq_some_iff.mp inSeen).1
    have inside' := (List.getElem?_eq_some_iff.mp inCopy).1
    simp [CallTwin.arg?, Call.withArg, inside, inside']
  rw [Actual.of?_eq_index?, Actual.of?_eq_index? o (CallTwin.mk _ _),
    Actual.index?_withArg inSeen known]
  cases atIndex : index? o function taking.seen.args with
  | none => exact .none
  | some k =>
      obtain rfl := takes k atIndex
      rw [Option.bind_some, Option.bind_some, arg, arg', Option.bind_some, Option.bind_some]
      cases first : Subject.of? o t with
      | none =>
          rw [first, Option.isSome_none, Option.isSome_eq_false_iff, Option.isNone_iff_eq_none]
            at classified
          rw [classified]
          exact .none
      | some subject =>
          rw [first, Option.isSome_some, Option.isSome_iff_exists] at classified
          obtain ⟨subject', second⟩ := classified
          rw [second]
          refine .some ⟨⟨rfl, rfl, rfl, rfl, rfl, first, second, ?_, ?_⟩, rfl, rfl⟩
          · simp [isFixedCall, noCall]
          · simp [isFixedCall, noCall']

/-- What is recognized of two assertions that differ in the actual value: all is the
same but this value, and the copies differ at its place. -/
structure Assertion.Replaced (t t' : Twin) (a a' : Assertion) : Prop where
  style_eq : a'.style = a.style
  oracle_eq : a'.oracle = a.oracle
  method_eq : a'.method = a.method
  matcher_eq : a'.matcher = a.matcher
  actual : a.actual.Replaced a.oracle t t' a'.actual
  copies : ∃ taking : Call, taking.Replaces a.actual.depth a.actual.offset t.copy t'.copy
    a.call.copy a'.call.copy

/-- **Only the classification depends on the actual value.**  Two assertions that differ
in it are recognized alike, if as much is known of the two values and both can be
classified or none. -/
theorem Assertion.of?_replaced {style : ImportStyle} {o : Oracle} {taking c c' : CallTwin}
    {n index : Nat} {t t' : Twin} (replaces : taking.Replaces n index t t' c c')
    (takes : ∀ k, style.actualIndex? o taking.seen = some k → k = index)
    (known : o t'.seen = o t.seen) (noCall : t.seen.isCall = false)
    (noCall' : t'.seen.isCall = false)
    (classified : (Subject.of? o t').isSome = (Subject.of? o t).isSome) :
    Option.Rel (fun a a' => a.oracle = o ∧ a.Replaced t t' a')
      (Assertion.of? style o c.seen c.copy) (Assertion.of? style o c'.seen c'.copy) := by
  obtain ⟨seen, copy⟩ := c
  obtain ⟨seen', copy'⟩ := c'
  obtain ⟨inSeen, inCopy⟩ := replaces
  obtain @⟨x, x', so, so', m, args, s, noHelper, isArg, helpers⟩ := inSeen
  obtain @⟨y, y', co, co', cm, cargs, cs, noHelper', isArg', helpers'⟩ := inCopy
  have function : style.actualFunction? o (taking.seen.withArg index t'.seen) =
      style.actualFunction? o taking.seen := rfl
  simp only [Assertion.of?, Expr.selector?, Option.bind_eq_bind, Option.bind_some,
    ImportStyle.actual?]
  cases Method.ofName? m.name with
  | none => exact .none
  | some method =>
      simp only [Option.bind_some]
      by_cases same : cm.name = m.name
      · simp only [same, ne_eq, not_true_eq_false, if_false]
        refine (ImportStyle.actualFrom?_replaced helpers helpers' rfl rfl noHelper 0).bind ?_
        rintro _ _ ⟨rfl, rfl⟩
        rw [function]
        cases named : style.actualFunction? o taking.seen with
        | none => exact .none
        | some function =>
            have found := Actual.of?_replaced isArg isArg'
              (fun k atIndex => takes k (by rw [ImportStyle.actualIndex?, named]; exact atIndex))
              known noCall noCall' classified (0 + n)
            refine found.bind ?_
            rintro actual actual' ⟨replaced, depth, rfl⟩
            rw [Nat.zero_add] at depth
            subst depth
            exact .some ⟨rfl, rfl, rfl, rfl, rfl, replaced, taking.copy,
              .intro co co' cm cargs cs noHelper' isArg' helpers'⟩
      · simp only [same, ne_eq, not_false_eq_true, if_true]
        exact .none

/-! ## Reports on comparisons -/

/-- An edit that makes the same of two calls makes the same of what they stand in. -/
theorem UnderSameHelpers.editUnder_eq {c c' : Call} {n : Nat} {x x' : Expr}
    (under : UnderSameHelpers c c' n x x') {edit : Expr → Option Expr}
    (same : edit c'.toExpr = edit c.toExpr) :
    Draft.editUnder edit n x' = Draft.editUnder edit n x := by
  induction under with
  | here => exact same
  | helper o so args s below isHelper ih => rw [Draft.editUnder, Draft.editUnder, ih]

/-- Once the argument is edited, two drafts that differ in it are the same. -/
theorem Call.Replaces.setActualArg_eq {taking c c' : Call} {n index : Nat} {e e' : Expr}
    (replaces : taking.Replaces n index e e' c c') (style : ImportStyle) (notDepth : Nat)
    (new : Expr) :
    Draft.setActualArg ⟨c', style, n, notDepth⟩ index new =
      Draft.setActualArg ⟨c, style, n, notDepth⟩ index new := by
  obtain ⟨o, so, m, args, s, noHelper, isArg, helpers⟩ := replaces
  simp only [Draft.setActualArg, Draft.editActual]
  rw [helpers.editUnder_eq]
  simp only [Call.withArg, Call.toExpr, List.length_set, List.set_set]

namespace Subject

/-- The value compares two others. -/
def IsCompared : Subject → Prop
  | comparison .. | sizeComparison .. | nilComparison .. => True
  | _ => False

theorem asyncCall_notMem_traits (s : Subject) : s.traits.contains .asyncCall = false := by
  cases s with
  | size f | sizeComparison f => cases f <;> rfl
  | _ => rfl

end Subject

theorem Actual.inTime_of_traits {a : Actual} (traits : a.traits = a.subject.traits) :
    a.hasTrait .asyncCall = false := by
  rw [hasTrait, traits, Subject.asyncCall_notMem_traits]

/-- The changes put another expression into the place of the actual value before they do
anything else. -/
def Change.BeginWithArg (cs : List Change) : Prop := ∃ e rest, cs = .actualArg e :: rest

namespace Rule

/-- The fixes of a comparison begin with its place. -/
theorem beginWithArg_changes? {a : Assertion} {cs : List Change} {r : Rule}
    (compared : a.actual.subject.IsCompared) (inTime : a.actual.hasTrait .asyncCall = false)
    (decided : r.changes? a = some cs) : Change.BeginWithArg cs := by
  cases changes?_eq_some_iff.mp decided with
  | size | sizeComparison | comparison | nilComparison | errorComparison => exact ⟨_, _, rfl⟩
  | equalNil matched subject =>
      obtain ⟨v, subject⟩ | ⟨f, call, arg, subject⟩ := subject <;>
        simp [subject, Subject.IsCompared] at compared
  | error matched subject | pointer matched subject =>
      simp [subject, Subject.IsCompared] at compared
  | passed late => simp [inTime] at late

section

variable {a a' : Assertion} {t t' : Twin}

/-- What a rule decides rests on the classification. -/
theorem changes?_replaced (replaced : a.Replaced t t' a')
    (same : a'.actual.subject = a.actual.subject) (r : Rule) : r.changes? a' = r.changes? a := by
  have inTime := Actual.inTime_of_traits replaced.actual.traits_eq
  have inTime' := Actual.inTime_of_traits replaced.actual.traits_eq'
  have isAsync := replaced.actual.isAsync_eq
  obtain ⟨style, oracle, method, matcher, -, -⟩ := replaced
  obtain ⟨call, _, _, _, actual, _⟩ := a
  obtain ⟨call', _, _, _, actual', _⟩ := a'
  -- What is left of the difference, the calls and the value, no rule decides on.
  simp only at *
  subst style oracle method matcher
  cases r with
  | asyncCall => simp [changes?, asyncChanges?, inTime, inTime']
  | haveOccurredNonError | succeedNonError => rfl
  | _ =>
      refine Option.bind_congr fun m _ => ?_
      simp only [lengthChanges?, nilChanges?, errorChanges?, comparisonChanges?, pointerChanges?,
        same, isAsync]
      rfl

theorem draft?_replaced (replaced : a.Replaced t t' a')
    (same : a'.actual.subject = a.actual.subject) (compared : a.actual.subject.IsCompared)
    (r : Rule) : r.draft? a' = r.draft? a := by
  rw [draft?_eq_applyAll?, draft?_eq_applyAll?, changes?_replaced replaced same]
  refine Option.bind_congr fun cs decided => ?_
  obtain ⟨e, rest, rfl⟩ := beginWithArg_changes? compared
    (Actual.inTime_of_traits replaced.actual.traits_eq) decided
  obtain ⟨taking, copies⟩ := replaced.copies
  have edited := copies.setActualArg_eq a.style a.draft.notDepth e
  have draft : a'.draft = ⟨a'.call.copy, a.style, a.actual.depth, a.draft.notDepth⟩ := by
    simp only [Assertion.draft, replaced.style_eq, replaced.actual.depth_eq, replaced.matcher_eq]
  simp only [applyAll?, List.foldlM_cons, Change.make?, replaced.actual.offset_eq, draft, edited]
  rfl

theorem isKnownNonError_replaced (replaced : a.Replaced t t' a')
    (known : a.oracle t'.seen = a.oracle t.seen)
    (same : a'.actual.subject = a.actual.subject) :
    isKnownNonError a' = isKnownNonError a ∧
      (a'.value a'.actual.arg).isTuple = (a.value a.actual.arg).isTuple := by
  simp only [isKnownNonError, Assertion.value, Value.of, Value.isTuple, Value.type?,
    Actual.hasTrait, Oracle.isError, Oracle.type?, replaced.oracle_eq,
    replaced.actual.isAsync_eq, replaced.actual.arg_eq, replaced.actual.arg_eq',
    replaced.actual.traits_eq, replaced.actual.traits_eq', same, known, and_self]

/-- **Reports rest on the classification** of a comparison, and on what is known of the
compared value as a whole. -/
theorem check_replaced (replaced : a.Replaced t t' a')
    (known : a.oracle t'.seen = a.oracle t.seen)
    (same : a'.actual.subject = a.actual.subject) (compared : a.actual.subject.IsCompared)
    (r : Rule) : r.check a' = r.check a := by
  have drafts := draft?_replaced replaced same compared
  have inTime := Actual.inTime_of_traits replaced.actual.traits_eq
  have inTime' := Actual.inTime_of_traits replaced.actual.traits_eq'
  have matcherName : a'.matcherName? = a.matcherName? :=
    congrArg (Option.map _) replaced.matcher_eq
  obtain ⟨nonError, tuple⟩ := isKnownNonError_replaced replaced known same
  cases r with
  | lenAssertion => exact congrArg (Option.map _) (drafts .lenAssertion)
  | capAssertion => exact congrArg (Option.map _) (drafts .capAssertion)
  | nilAssertion => exact congrArg (Option.map _) (drafts .nilAssertion)
  | errorAssertion => exact congrArg (Option.map _) (drafts .errorAssertion)
  | compareAssertion => exact congrArg (Option.map _) (drafts .compareAssertion)
  | comparePointerValue => exact congrArg (Option.map _) (drafts .comparePointerValue)
  | asyncCall => simp [check, checkAsync, inTime, inTime']
  | haveOccurredNonError => simp only [check, checkHaveOccurred, matcherName, nonError]
  | succeedNonError => simp only [check, checkSucceed, matcherName, nonError, tuple]

end

end Rule

/-! ## A constant on either side -/

theorem BinaryOp.exchanged_exchanged (op : BinaryOp) : op.exchanged.exchanged = op := by
  cases op <;> rfl

theorem BinaryOp.isComparison_exchanged (op : BinaryOp) :
    op.exchanged.isComparison = op.isComparison := by
  cases op <;> rfl

/-- A binary expression and its copy. -/
def Twin.binary (origins : Origin × Origin) (x : Twin) (op : BinaryOp) (y : Twin) : Twin :=
  ⟨.binary origins.1 x.seen op y.seen, .binary origins.2 x.copy op y.copy⟩

namespace Subject

variable {o : Oracle} {x y : Twin} {op : BinaryOp}

/-- An expression that compares is classified by its operands, unless it is an error. -/
theorem of?_binary {origins : Origin × Origin}
    (noError : o.isError (Twin.binary origins x op y).seen = false)
    (isComparison : op.isComparison = true) :
    of? o (Twin.binary origins x op y) = ofComparison? o x op y := by
  simp only [Twin.binary] at noError
  simp [of?, Twin.binary, noError, isComparison]

theorem isCompared_of_compared? {subject : Subject}
    (classified : compared? o x op y = some subject) : subject.IsCompared := by
  unfold compared? at classified
  split at classified
  · cases classified
    trivial
  · split at classified
    · split at classified
      · simp only [Option.bind_eq_bind, Option.bind_eq_some_iff, Option.pure_def,
          Option.some.injEq] at classified
        obtain ⟨arg, -, rfl⟩ := classified
        trivial
      · cases classified
        trivial
    · cases classified
    · cases classified
      trivial

/-- A constant operand is taken for the right one wherever it stands. -/
theorem ofComparison?_constant (isConst : isConstant y.seen (o y.seen) = true)
    (notConst : isConstant x.seen (o x.seen) = false) (op : BinaryOp) :
    ofComparison? o x op y = compared? o x op y ∧
      ofComparison? o y op.exchanged x = compared? o x op y := by
  simp [ofComparison?, isConst, notConst, op.exchanged_exchanged]

end Subject

/-- Two assertions that differ in their actual values: a comparison, and the comparison
that says the same with its operands exchanged.  As much is known of the two, and they
are no errors. -/
inductive CallTwin.Exchanges (style : ImportStyle) (o : Oracle) (x : Twin) (op : BinaryOp)
    (y : Twin) : CallTwin → CallTwin → Prop
  | intro {taking c c' : CallTwin} {n index : Nat} {origins origins' : Origin × Origin}
      (isComparison : op.isComparison = true)
      (replaces : taking.Replaces n index (Twin.binary origins x op y)
        (Twin.binary origins' y op.exchanged x) c c')
      (takes : ∀ k, style.actualIndex? o taking.seen = some k → k = index)
      (known : o (Twin.binary origins' y op.exchanged x).seen = o (Twin.binary origins x op y).seen)
      (noError : o.isError (Twin.binary origins x op y).seen = false) :
      Exchanges style o x op y c c'

/-- Assertions with exchanged operands are recognized alike, if both comparisons can be
classified or none. -/
theorem CallTwin.Exchanges.recognized {style : ImportStyle} {o : Oracle} {x y : Twin}
    {op : BinaryOp} {c c' : CallTwin} (exchanges : CallTwin.Exchanges style o x op y c c')
    (classified : (Subject.ofComparison? o y op.exchanged x).isSome =
      (Subject.ofComparison? o x op y).isSome) :
    Option.Rel (fun a a' => Subject.ofComparison? o x op y = some a.actual.subject ∧
        Subject.ofComparison? o y op.exchanged x = some a'.actual.subject ∧
        ∃ t t', a.Replaced t t' a' ∧ a.oracle t'.seen = a.oracle t.seen)
      (Assertion.of? style o c.seen c.copy) (Assertion.of? style o c'.seen c'.copy) := by
  obtain @⟨taking, c, c', n, index, origins, origins', isComparison, replaces, takes, known,
    noError⟩ := exchanges
  have noError' : o.isError (Twin.binary origins' y op.exchanged x).seen = false := by
    rw [← noError]
    simp only [Oracle.isError, Oracle.type?, known]
  rw [← Subject.of?_binary noError isComparison,
    ← Subject.of?_binary noError' (op.isComparison_exchanged.trans isComparison)] at classified ⊢
  refine (Assertion.of?_replaced replaces takes known rfl rfl classified).mono ?_
  rintro a a' ⟨rfl, replaced⟩
  exact ⟨replaced.actual.subject_eq, replaced.actual.subject_eq', _, _, replaced, known⟩

/-- **A constant operand may stand on either side.**  Take an assertion on a comparison
`x op c` of a value with a constant, and the same assertion on the comparison with its
operands exchanged.  Both are recognized or none; they have the classification of
`x op c` and its traits, and every rule reports the same of them. -/
theorem Assertion.of?_exchanged {style : ImportStyle} {o : Oracle} {x c : Twin} {op : BinaryOp}
    {first second : CallTwin} (exchanges : CallTwin.Exchanges style o x op c first second)
    (isConst : isConstant c.seen (o c.seen) = true)
    (notConst : isConstant x.seen (o x.seen) = false) :
    Option.Rel (fun a a' => Subject.compared? o x op c = some a.actual.subject ∧
        a'.actual.subject = a.actual.subject ∧ a'.actual.traits = a.actual.traits ∧
        ∀ r : Rule, r.check a' = r.check a)
      (Assertion.of? style o first.seen first.copy)
      (Assertion.of? style o second.seen second.copy) := by
  obtain ⟨direct, exchanged⟩ := Subject.ofComparison?_constant isConst notConst op
  refine (exchanges.recognized (by rw [direct, exchanged])).mono ?_
  rintro a a' ⟨subject, subject', t, t', replaced, known⟩
  rw [direct] at subject
  rw [exchanged, subject] at subject'
  have same : a'.actual.subject = a.actual.subject := (Option.some.inj subject').symm
  refine ⟨subject, same, ?_, ?_⟩
  · rw [replaced.actual.traits_eq, replaced.actual.traits_eq', same]
  · exact Rule.check_replaced replaced known same (Subject.isCompared_of_compared? subject)

/-! ## A length and zero -/

/-- `Expect(e)`. -/
def Call.expecting (e : Expr) : Call := { callee := .named "Expect", args := [e] }

/-- `Expect(e).WithOffset(1).To(BeTrue())`. -/
def Call.isTrue (e : Expr) : Call where
  callee := .selector {} (.call {} (.selector {} (expecting e).toExpr { name := "WithOffset" })
    [.intLiteral "1"] false) { name := "To" }
  args := [(ImportStyle.dot.matcher "BeTrue" []).toExpr]

theorem Call.replaces_isTrue (e e' : Expr) :
    Call.Replaces (expecting e) 1 0 e e' (isTrue e) (isTrue e') := by
  refine .intro _ _ _ _ _ ?_ rfl (.helper _ _ _ _ .here rfl)
  rintro o x m ⟨⟩

/-- The assertion and its copy. -/
def Twin.isTrue (t : Twin) : CallTwin := ⟨Call.isTrue t.seen, Call.isTrue t.copy⟩

/-- What is recognized of it. -/
def Twin.asserted? (o : Oracle) (t : Twin) : Option Assertion :=
  Assertion.of? .dot o t.isTrue.seen t.isTrue.copy

theorem CallTwin.exchanges_isTrue {o : Oracle} {x y : Twin} {op : BinaryOp}
    (isComparison : op.isComparison = true)
    (known : o (Twin.binary default y op.exchanged x).seen = o (Twin.binary default x op y).seen)
    (noError : o.isError (Twin.binary default x op y).seen = false) :
    CallTwin.Exchanges .dot o x op y (Twin.binary default x op y).isTrue
      (Twin.binary default y op.exchanged x).isTrue := by
  have replaces : CallTwin.Replaces ⟨.expecting (Twin.binary default x op y).seen,
      .expecting (Twin.binary default x op y).copy⟩ 1 0 (Twin.binary default x op y)
      (Twin.binary default y op.exchanged x) (Twin.binary default x op y).isTrue
      (Twin.binary default y op.exchanged x).isTrue :=
    ⟨Call.replaces_isTrue _ _, Call.replaces_isTrue _ _⟩
  refine .intro isComparison replaces ?_ known noError
  rintro k ⟨⟩
  rfl

/-- `len(x)`, and the constant that it is compared with. -/
def Twin.length : Twin :=
  ⟨.call {} (.named "len") [.named "x"] false, .call {} (.named "len") [.named "x"] false⟩

def Twin.zero : Twin := ⟨.intLiteral "0", .intLiteral "0"⟩

/-- `len(x) > 0` and `0 < len(x)` give the same fix. -/
theorem Assertion.of?_exchanged_length :
    ∃ a a', (Twin.binary default .length .gt .zero).asserted? (fun _ => none) = some a ∧
      (Twin.binary default .zero .lt .length).asserted? (fun _ => none) = some a' ∧
      (Rule.lenAssertion.check a).bind Report.fix =
        some "Expect(x).WithOffset(1).ToNot(BeEmpty())" ∧
      a'.actual.subject = a.actual.subject ∧ ∀ r : Rule, r.check a' = r.check a := by
  have related : Option.Rel _ ((Twin.binary default .length .gt .zero).asserted? fun _ => none)
      ((Twin.binary default .zero .lt .length).asserted? fun _ => none) :=
    Assertion.of?_exchanged (CallTwin.exchanges_isTrue rfl rfl rfl) rfl rfl
  have fix : ((Twin.binary default .length .gt .zero).asserted? fun _ => none).bind (fun a =>
      (Rule.lenAssertion.check a).bind Report.fix) =
        some "Expect(x).WithOffset(1).ToNot(BeEmpty())" := by
    decide +kernel
  obtain ⟨a, recognized, text⟩ := Option.bind_eq_some_iff.mp fix
  rw [recognized] at related ⊢
  generalize (Twin.binary default .zero .lt .length).asserted? (fun _ => none) = found
    at related ⊢
  obtain ⟨-, same, -, reports⟩ | _ := related
  exact ⟨a, _, rfl, rfl, text, same, reports⟩

end GomegaLint
