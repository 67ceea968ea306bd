import Mathlib
import GomegaLint.Lint.Settings

/-!
# What rules decide

A rule that mends an assertion first decides what to change, from the class of the actual
value and from the matcher, and then makes its changes to a draft one after the other.
Deciding needs no draft (`Rule.changes?`), and making the changes needs no rule
(`Rule.applyAll?`); `Rule.draft?_eq_applyAll?` says that a fix is the one after the other.

`Rule.Decides` lists the decisions: nine kinds, each with all that it rests on.  Together
they are what the rules decide (`Rule.changes?_eq_some_iff`), so that what holds of every
fix is shown once for each kind, and no rule is looked into again.
-/

namespace GomegaLint

/-- A change that a rule makes to a draft. -/
inductive Change where
  /-- Another expression in place of the classified argument. -/
  | actualArg (e : Expr)
  | chain (method : String) (args : List Expr)
  | matcher (new : Call)
  | innerMatcher (new : Call)
  | reverse
  | negative (negative : Bool)

namespace Change

/-- Make a change, with the classified argument at an index. -/
def make? (offset : Nat) (d : Draft) : Change → Option Draft
  | actualArg e => d.setActualArg offset e
  | chain method args => d.chainActual method args
  | matcher new => d.setMatcher new
  | innerMatcher new => d.setInnerMatcher new
  | reverse => d.reverse
  | negative b => d.setNegative b

end Change

namespace Rule

/-- The draft of a rule's fix. -/
def draft? : Rule → Assertion → Option Draft
  | lenAssertion => fixLength? .len
  | capAssertion => fixLength? .cap
  | nilAssertion => fixNil?
  | errorAssertion => fixError?
  | compareAssertion => fixComparison?
  | asyncCall => fun a =>
    if a.actual.hasTrait .asyncCall then
      match a.actual.subject with
      | .size .. => none
      | _ => fixAsync? a
    else none
  | comparePointerValue => fixPointer?
  | haveOccurredNonError | succeedNonError => fun _ => none

/-- The fix in the report of a rule is the text of its draft. -/
theorem fix_check (r : Rule) (a : Assertion) :
    (r.check a).bind Report.fix = (r.draft? a).map Draft.print := by
  cases r with
  | lenAssertion | capAssertion | nilAssertion | errorAssertion | compareAssertion
  | comparePointerValue =>
      simp only [check, draft?, checkLen, checkCap, checkNil, checkError, checkComparison,
        checkPointer, Option.bind_map]
      exact Option.map_eq_bind.symm
  | asyncCall =>
      simp only [check, draft?, checkAsync]
      split
      · cases a.actual.subject <;> rfl
      · rfl
  | haveOccurredNonError =>
      simp only [check, draft?, checkHaveOccurred]
      split <;> rfl
  | succeedNonError =>
      simp only [check, draft?, checkSucceed]
      split
      · split
        · rfl
        · split <;> rfl
      · rfl

/-! ## Changes -/

/-- The rule about the sizes that a function gives. -/
def ofSize : SizeFunction → Rule
  | .len => lenAssertion
  | .cap => capAssertion

/-- State anew what is expected of a value. -/
def restatement (e : Expr) (new : Call) (negative : Bool) : List Change :=
  [.actualArg e, .matcher new, .negative negative]

/-- The changes of an assertion on a size or a comparison of one. -/
def lengthChanges? (f : SizeFunction) (a : Assertion) (m : Matcher) : Option (List Change) :=
  match a.actual.subject with
  | .size g _ arg =>
    if g = f then
      (sizeCheck? a m f).map fun (new, turns) =>
        .actualArg arg.copy :: .innerMatcher new :: if turns then [.reverse] else []
    else none
  | .sizeComparison g _ arg op right =>
    if g = f then do
      let expected ← a.expectsTrue? m
      let (new, opposite) ← sizeComparisonCheck? a.style f op right
      return restatement arg.copy new (expected == opposite)
    else none
  | _ => none

/-- The matcher compares with `nil` by value. -/
def equalsNil (a : Assertion) (m : Matcher) : Bool :=
  (m.name == "Equal" || m.name == "BeEquivalentTo") && m.argCount == 1 &&
    (m.arg? 0).any fun arg => a.oracle.isNilOrUnknown arg.seen

/-- The changes of a comparison with `nil`. -/
def nilChanges? (a : Assertion) (m : Matcher) : Option (List Change) :=
  let isNil := a.style.matcher "BeNil" []
  match a.actual.subject with
  | .nilComparison left op _ =>
    if left.isError then none
    else (a.expectsTrue? m).map fun expected =>
      restatement left.twin.copy isNil (expected != (op == .eq))
  | .plain _ | .size .. => if equalsNil a m then some [.innerMatcher isNil] else none
  | _ => none

/-- State anew that an error is expected to be `nil`, or not to be. -/
def errorStatement (a : Assertion) (v : Value) (expectsNil : Bool) : List Change :=
  if v.isErrorCall then [.matcher (a.style.matcher "Succeed" []), .negative (!expectsNil)]
  else [.matcher (a.style.matcher "HaveOccurred" []), .negative expectsNil]

/-- The changes of a comparison of an error with `nil`. -/
def errorChanges? (a : Assertion) (m : Matcher) : Option (List Change) :=
  match a.actual.subject with
  | .error v =>
    if v.isTuple || !isNilMatcher a m then none
    else some (errorStatement a v (a.expectsMatch m))
  | .nilComparison left op _ =>
    if !left.isError || left.isTuple then none
    else (a.expectsTrue? m).map fun expected =>
      .actualArg left.twin.copy :: errorStatement a left (expected == (op == .eq))
  | _ => none

/-- The changes of a comparison. -/
def comparisonChanges? (a : Assertion) (m : Matcher) : Option (List Change) :=
  match a.actual.subject with
  | .comparison left op right => do
    let expected ← a.expectsTrue? m
    let (new, opposite) ← comparisonCheck? a.style left op right
    return restatement left.twin.copy new (expected == opposite)
  | _ => none

/-- The changes of a call passed by its result. -/
def passedChanges? : Expr → Option (List Change)
  | .call _ f args spread =>
    if spread then none
    else some (.actualArg f :: if args.isEmpty then [] else [.chain "WithArguments" args])
  | _ => none

/-- The changes of an asynchronous assertion. -/
def asyncChanges? (a : Assertion) : Option (List Change) :=
  if a.actual.hasTrait .asyncCall then
    match a.actual.subject with
    | .size .. => none
    | _ => passedChanges? a.actual.arg.copy
  else none

/-- The changes of a comparison of a pointer with a value. -/
def pointerChanges? (a : Assertion) (m : Matcher) : Option (List Change) :=
  match a.actual.subject with
  | .plain v =>
    if a.actual.isAsync || !v.isPointer || !comparesValue a m then none
    else some [.innerMatcher (a.style.wrapper "HaveValue" m.call.copy)]
  | _ => none

/-- What a rule decides to change in an assertion; no draft is looked at. -/
def changes? : Rule → Assertion → Option (List Change)
  | lenAssertion, a => a.matcher.bind (lengthChanges? .len a)
  | capAssertion, a => a.matcher.bind (lengthChanges? .cap a)
  | nilAssertion, a => a.matcher.bind (nilChanges? a)
  | errorAssertion, a => a.matcher.bind (errorChanges? a)
  | compareAssertion, a => a.matcher.bind (comparisonChanges? a)
  | asyncCall, a => asyncChanges? a
  | comparePointerValue, a => a.matcher.bind (pointerChanges? a)
  | haveOccurredNonError, _ | succeedNonError, _ => none

/-- Make the changes of a rule. -/
def applyAll? (a : Assertion) (cs : List Change) : Option Draft :=
  cs.foldlM (Change.make? a.actual.offset) a.draft

theorem equalsNil_iff {a : Assertion} {m : Matcher} :
    equalsNil a m = true ↔ (m.name = "Equal" ∨ m.name = "BeEquivalentTo") ∧ m.argCount = 1 ∧
      ∃ arg, m.arg? 0 = some arg ∧ a.oracle.isNilOrUnknown arg.seen = true := by
  simp only [equalsNil, Bool.and_eq_true, Bool.or_eq_true, beq_iff_eq, Option.any_eq_true,
    and_assoc]

theorem isNilMatcher_of_equalsNil {a : Assertion} {m : Matcher} (equals : equalsNil a m = true) :
    isNilMatcher a m = true := by
  obtain ⟨named, one, arg, found, isNil⟩ := equalsNil_iff.mp equals
  rcases named with named | named <;> simp [isNilMatcher, named, one, found, isNil]

/-! ## A fix is a decision that is carried out -/

theorem applyAll?_restatement (a : Assertion) (e : Expr) (new : Call) (negative : Bool) :
    applyAll? a (restatement e new negative) =
      (a.draft.setActualArg a.actual.offset e).bind fun d =>
        (d.setMatcher new).bind fun d => d.setNegative negative := by
  simp [applyAll?, restatement, List.foldlM_cons, Change.make?]

/-- The fix of a size reads what becomes of its matcher between two edits. -/
theorem fixSize?_eq (a : Assertion) (m : Matcher) (f : SizeFunction) (arg : Twin) :
    fixSize? a m f arg =
      ((sizeCheck? a m f).map fun (new, turns) =>
        .actualArg arg.copy :: .innerMatcher new :: if turns then [Change.reverse] else []).bind
          (applyAll? a) := by
  rw [fixSize?]
  cases sizeCheck? a m f with
  | none => cases a.draft.setActualArg a.actual.offset arg.copy <;> rfl
  | some check =>
      obtain ⟨new, turns⟩ := check
      cases turns <;> simp [applyAll?, List.foldlM_cons, Change.make?]

theorem fixLength?_eq (f : SizeFunction) (a : Assertion) :
    fixLength? f a = (a.matcher.bind (lengthChanges? f a)).bind (applyAll? a) := by
  rw [fixLength?, Option.bind_assoc]
  refine Option.bind_congr fun m _ => ?_
  unfold lengthChanges?
  cases a.actual.subject with
  | size g call arg =>
      simp only
      split
      · exact fixSize?_eq a m f arg
      · rfl
  | sizeComparison g call arg op right =>
      simp only
      split
      · simp only [fixSizeComparison?, Option.bind_eq_bind, Option.pure_def, Option.bind_assoc,
          Option.bind_some, applyAll?_restatement]
      · rfl
  | _ => rfl

theorem fixEqualNil?_eq (a : Assertion) (m : Matcher) :
    fixEqualNil? a m =
      (if equalsNil a m then some [Change.innerMatcher (a.style.matcher "BeNil" [])] else none).bind
        (applyAll? a) := by
  unfold fixEqualNil? equalsNil
  by_cases shape : (m.name = "Equal" ∨ m.name = "BeEquivalentTo") ∧ m.argCount = 1
  · obtain ⟨named, one⟩ := shape
    cases m.arg? 0 with
    | none => rcases named with named | named <;> simp [named, one]
    | some arg =>
        cases isNil : a.oracle.isNilOrUnknown arg.seen <;> rcases named with named | named <;>
          simp [named, one, isNil, applyAll?, List.foldlM_cons, Change.make?]
  · rw [not_and_or, not_or] at shape
    rcases shape with ⟨notEqual, notEquivalent⟩ | notOne
    · simp [notEqual, notEquivalent]
    · simp [notOne]

theorem fixNil?_eq (a : Assertion) :
    fixNil? a = (a.matcher.bind (nilChanges? a)).bind (applyAll? a) := by
  rw [fixNil?, Option.bind_assoc]
  refine Option.bind_congr fun m _ => ?_
  unfold nilChanges?
  cases a.actual.subject with
  | nilComparison left op right =>
      simp only
      split
      · rfl
      · simp only [fixNilComparison?, Option.bind_eq_bind, Option.bind_map, Function.comp_def,
          applyAll?_restatement]
  | plain | size => exact fixEqualNil?_eq a m
  | _ => rfl

theorem assertError_eq (a : Assertion) (d : Draft) (v : Value) (expectsNil : Bool) :
    assertError a d v expectsNil =
      (errorStatement a v expectsNil).foldlM (Change.make? a.actual.offset) d := by
  unfold assertError errorStatement
  split <;> simp [List.foldlM_cons, Change.make?]

theorem fixError?_eq (a : Assertion) :
    fixError? a = (a.matcher.bind (errorChanges? a)).bind (applyAll? a) := by
  rw [fixError?, Option.bind_assoc]
  refine Option.bind_congr fun m _ => ?_
  unfold errorChanges?
  cases a.actual.subject with
  | error v =>
      simp only
      split
      · rfl
      · exact assertError_eq a a.draft v _
  | nilComparison left op right =>
      simp only
      split
      · rfl
      · simp only [Option.bind_map, Function.comp_def, applyAll?, List.foldlM_cons, assertError_eq,
          Change.make?, Option.bind_eq_bind]
  | _ => rfl

theorem fixComparison?_eq (a : Assertion) :
    fixComparison? a = (a.matcher.bind (comparisonChanges? a)).bind (applyAll? a) := by
  rw [fixComparison?, Option.bind_assoc]
  refine Option.bind_congr fun m _ => ?_
  unfold comparisonChanges?
  cases a.actual.subject with
  | comparison left op right =>
      simp only [Option.bind_eq_bind, Option.pure_def, Option.bind_assoc, Option.bind_some,
        applyAll?_restatement]
  | _ => rfl

theorem fixAsync?_eq (a : Assertion) :
    fixAsync? a = (passedChanges? a.actual.arg.copy).bind (applyAll? a) := by
  unfold fixAsync? passedChanges?
  cases a.actual.arg.copy with
  | call o f args spread =>
      cases spread with
      | true => rfl
      | false => cases args <;> simp [applyAll?, List.foldlM_cons, Change.make?]
  | _ => rfl

theorem fixPointer?_eq (a : Assertion) :
    fixPointer? a = (a.matcher.bind (pointerChanges? a)).bind (applyAll? a) := by
  rw [fixPointer?, Option.bind_assoc]
  refine Option.bind_congr fun m _ => ?_
  unfold pointerChanges?
  cases a.actual.subject with
  | plain v =>
      simp only
      split
      · rfl
      · simp [applyAll?, List.foldlM_cons, Change.make?]
  | _ => rfl

/-- **A rule decides, and then makes its changes.** -/
theorem draft?_eq_applyAll? (r : Rule) (a : Assertion) :
    r.draft? a = (r.changes? a).bind (applyAll? a) := by
  cases r with
  | lenAssertion => exact fixLength?_eq .len a
  | capAssertion => exact fixLength?_eq .cap a
  | nilAssertion => exact fixNil?_eq a
  | errorAssertion => exact fixError?_eq a
  | compareAssertion => exact fixComparison?_eq a
  | asyncCall =>
      simp only [draft?, changes?, asyncChanges?, fixAsync?_eq]
      split
      · cases a.actual.subject <;> rfl
      · rfl
  | comparePointerValue => exact fixPointer?_eq a
  | haveOccurredNonError | succeedNonError => rfl

/-! ## The kinds of decisions -/

/-- What becomes of the matcher of a size, with what it rests on. -/
inductive SizeChecked (a : Assertion) (m : Matcher) (f : SizeFunction) : Call → Bool → Prop
  | equal {t : Twin} (named : m.name = "Equal" ∨ m.name = "BeEquivalentTo") (one : m.argCount = 1)
      (arg : m.arg? 0 = some t) : SizeChecked a m f (sizeMatcherOf a.style f (a.value t)) false
  | zero (named : m.name = "BeZero") (none : m.argCount = 0) :
      SizeChecked a m f (sizeMatcher a.style f (Expr.intLiteral "0") true) false
  | compared {t : Twin} (op : BinaryOp) (named : m.name = "BeNumerically") (two : m.argCount = 2)
      (equality : op.isEquality = true) (operator : m.stringArg? 0 = some op.symbol)
      (arg : m.arg? 1 = some t) :
      SizeChecked a m f (sizeMatcherOf a.style f (a.value t)) (op == .ne)
  | notEmpty {t : Twin} {symbol : String} (named : m.name = "BeNumerically") (two : m.argCount = 2)
      (operator : m.stringArg? 0 = some symbol) (arg : m.arg? 1 = some t) (isLen : f = .len)
      (above : saysNotEmpty symbol (a.value t) = true) :
      SizeChecked a m f (sizeMatcher a.style f (Expr.intLiteral "0") true) true

/-- What a rule decides to change in an assertion, with all that the decision rests on. -/
inductive Decides (a : Assertion) : Rule → List Change → Prop
  /-- The argument of a size is the new actual value, under a matcher for sizes. -/
  | size {m : Matcher} {f : SizeFunction} {call : CallTwin} {arg : Twin} {new : Call} {turns : Bool}
      (matched : a.matcher = some m) (subject : a.actual.subject = .size f call arg)
      (checked : sizeCheck? a m f = some (new, turns)) :
      Decides a (ofSize f)
        (.actualArg arg.copy :: .innerMatcher new :: if turns then [.reverse] else [])
  | sizeComparison {m : Matcher} {f : SizeFunction} {call : CallTwin} {arg : Twin} {op : BinaryOp}
      {right : Value} {expected : Bool} {new : Call} {opposite : Bool}
      (matched : a.matcher = some m)
      (subject : a.actual.subject = .sizeComparison f call arg op right)
      (asked : a.expectsTrue? m = some expected)
      (checked : sizeComparisonCheck? a.style f op right = some (new, opposite)) :
      Decides a (ofSize f) (restatement arg.copy new (expected == opposite))
  | comparison {m : Matcher} {left right : Value} {op : BinaryOp} {expected : Bool} {new : Call}
      {opposite : Bool} (matched : a.matcher = some m)
      (subject : a.actual.subject = .comparison left op right)
      (asked : a.expectsTrue? m = some expected)
      (checked : comparisonCheck? a.style left op right = some (new, opposite)) :
      Decides a compareAssertion (restatement left.twin.copy new (expected == opposite))
  | nilComparison {m : Matcher} {left right : Value} {op : BinaryOp} {expected : Bool}
      (matched : a.matcher = some m) (subject : a.actual.subject = .nilComparison left op right)
      (noError : left.isError = false) (asked : a.expectsTrue? m = some expected) :
      Decides a nilAssertion
        (restatement left.twin.copy (a.style.matcher "BeNil" []) (expected != (op == .eq)))
  /-- A value, or a size, that the matcher compares with `nil`. -/
  | equalNil {m : Matcher} (matched : a.matcher = some m)
      (subject : (∃ v, a.actual.subject = .plain v) ∨
        ∃ f call arg, a.actual.subject = .size f call arg)
      (equals : equalsNil a m = true) :
      Decides a nilAssertion [.innerMatcher (a.style.matcher "BeNil" [])]
  | error {m : Matcher} {v : Value} (matched : a.matcher = some m)
      (subject : a.actual.subject = .error v) (single : v.isTuple = false)
      (asksNil : isNilMatcher a m = true) :
      Decides a errorAssertion (errorStatement a v (a.expectsMatch m))
  | errorComparison {m : Matcher} {left right : Value} {op : BinaryOp} {expected : Bool}
      (matched : a.matcher = some m) (subject : a.actual.subject = .nilComparison left op right)
      (isError : left.isError = true) (single : left.isTuple = false)
      (asked : a.expectsTrue? m = some expected) :
      Decides a errorAssertion
        (.actualArg left.twin.copy :: errorStatement a left (expected == (op == .eq)))
  /-- A call that is passed by its result; its arguments go to a helper. -/
  | passed {o : Origin} {f : Expr} {args : List Expr} (late : a.actual.hasTrait .asyncCall = true)
      (noSize : ∀ f call arg, a.actual.subject ≠ .size f call arg)
      (isCall : a.actual.arg.copy = .call o f args false) :
      Decides a asyncCall
        (.actualArg f :: if args.isEmpty then [] else [.chain "WithArguments" args])
  | pointer {m : Matcher} {v : Value} (matched : a.matcher = some m)
      (subject : a.actual.subject = .plain v) (inTime : a.actual.isAsync = false)
      (isPointer : v.isPointer = true) (compares : comparesValue a m = true) :
      Decides a comparePointerValue [.innerMatcher (a.style.wrapper "HaveValue" m.call.copy)]

section

variable {a : Assertion} {m : Matcher} {cs : List Change}

theorem sizeChecked_of_sizeCheck? {f : SizeFunction} {new : Call} {turns : Bool}
    (checked : sizeCheck? a m f = some (new, turns)) : SizeChecked a m f new turns := by
  unfold sizeCheck? at checked
  split at checked
  · rename_i named one
    obtain ⟨t, arg, checked⟩ := Option.bind_eq_some_iff.mp checked
    cases checked
    exact .equal (.inl named) one arg
  · rename_i named one
    obtain ⟨t, arg, checked⟩ := Option.bind_eq_some_iff.mp checked
    cases checked
    exact .equal (.inr named) one arg
  · rename_i named none
    cases checked
    exact .zero named none
  · rename_i named two
    simp only [Option.bind_eq_bind, Option.bind_eq_some_iff, Option.pure_def] at checked
    obtain ⟨symbol, operator, t, arg, checked⟩ := checked
    split at checked
    · rename_i isEq
      subst isEq
      cases checked
      exact .compared .eq named two rfl operator arg
    · split at checked
      · rename_i isNe
        subst isNe
        cases checked
        exact .compared .ne named two rfl operator arg
      · split at checked
        · rename_i notEmpty
          rw [Bool.and_eq_true, decide_eq_true_eq] at notEmpty
          cases checked
          exact .notEmpty named two operator arg notEmpty.1 notEmpty.2
        · cases checked
  · cases checked

theorem decides_of_lengthChanges? {f : SizeFunction} (matched : a.matcher = some m)
    (decided : lengthChanges? f a m = some cs) : Decides a (ofSize f) cs := by
  unfold lengthChanges? at decided
  split at decided
  · rename_i g call arg subject
    split at decided
    · rename_i same
      subst same
      obtain ⟨⟨new, turns⟩, checked, rfl⟩ := Option.map_eq_some_iff.mp decided
      exact .size matched subject checked
    · cases decided
  · rename_i g call arg op right subject
    split at decided
    · rename_i same
      subst same
      simp only [Option.bind_eq_bind, Option.bind_eq_some_iff, Option.pure_def,
        Option.some.injEq, Prod.exists] at decided
      obtain ⟨expected, asked, new, opposite, checked, rfl⟩ := decided
      exact .sizeComparison matched subject asked checked
    · cases decided
  · cases decided

theorem decides_of_nilChanges? (matched : a.matcher = some m)
    (decided : nilChanges? a m = some cs) : Decides a nilAssertion cs := by
  unfold nilChanges? at decided
  split at decided
  · rename_i left op right subject
    split at decided
    · cases decided
    · rename_i noError
      obtain ⟨expected, asked, rfl⟩ := Option.map_eq_some_iff.mp decided
      exact .nilComparison matched subject (Bool.not_eq_true _ ▸ noError) asked
  · rename_i v subject
    split at decided <;> cases decided
    rename_i equals
    exact .equalNil matched (.inl ⟨v, subject⟩) equals
  · rename_i f call arg subject
    split at decided <;> cases decided
    rename_i equals
    exact .equalNil matched (.inr ⟨f, call, arg, subject⟩) equals
  · cases decided

theorem decides_of_errorChanges? (matched : a.matcher = some m)
    (decided : errorChanges? a m = some cs) : Decides a errorAssertion cs := by
  unfold errorChanges? at decided
  split at decided
  · rename_i v subject
    split at decided <;> cases decided
    rename_i free
    simp only [Bool.or_eq_true, Bool.not_eq_true', not_or, Bool.not_eq_true,
      Bool.not_eq_false] at free
    exact .error matched subject free.1 free.2
  · rename_i left op right subject
    split at decided
    · cases decided
    · rename_i free
      simp only [Bool.or_eq_true, Bool.not_eq_true', not_or, Bool.not_eq_true,
        Bool.not_eq_false] at free
      obtain ⟨expected, asked, rfl⟩ := Option.map_eq_some_iff.mp decided
      exact .errorComparison matched subject free.1 free.2 asked
  · cases decided

theorem decides_of_comparisonChanges? (matched : a.matcher = some m)
    (decided : comparisonChanges? a m = some cs) : Decides a compareAssertion cs := by
  unfold comparisonChanges? at decided
  split at decided
  · rename_i left op right subject
    simp only [Option.bind_eq_bind, Option.bind_eq_some_iff, Option.pure_def, Option.some.injEq,
      Prod.exists] at decided
    obtain ⟨expected, asked, new, opposite, checked, rfl⟩ := decided
    exact .comparison matched subject asked checked
  · cases decided

theorem decides_of_asyncChanges? (decided : asyncChanges? a = some cs) :
    Decides a asyncCall cs := by
  unfold asyncChanges? at decided
  split at decided
  · rename_i late
    split at decided
    · cases decided
    · rename_i noSize
      unfold passedChanges? at decided
      split at decided
      · rename_i o f args spread isCall
        cases spread with
        | true => cases decided
        | false =>
            cases decided
            exact .passed late noSize isCall
      · cases decided
  · cases decided

theorem decides_of_pointerChanges? (matched : a.matcher = some m)
    (decided : pointerChanges? a m = some cs) : Decides a comparePointerValue cs := by
  unfold pointerChanges? at decided
  split at decided
  · rename_i v subject
    split at decided <;> cases decided
    rename_i free
    simp only [Bool.or_eq_true, Bool.not_eq_true', not_or, Bool.not_eq_true,
      Bool.not_eq_false] at free
    exact .pointer matched subject free.1.1 free.1.2 free.2
  · cases decided

/-- **What rules decide** are the decisions listed above. -/
theorem changes?_eq_some_iff {r : Rule} : r.changes? a = some cs ↔ Decides a r cs := by
  constructor
  · intro decided
    cases r with
    | lenAssertion =>
        obtain ⟨m, matched, decided⟩ := Option.bind_eq_some_iff.mp decided
        exact decides_of_lengthChanges? matched decided
    | capAssertion =>
        obtain ⟨m, matched, decided⟩ := Option.bind_eq_some_iff.mp decided
        exact decides_of_lengthChanges? matched decided
    | nilAssertion =>
        obtain ⟨m, matched, decided⟩ := Option.bind_eq_some_iff.mp decided
        exact decides_of_nilChanges? matched decided
    | errorAssertion =>
        obtain ⟨m, matched, decided⟩ := Option.bind_eq_some_iff.mp decided
        exact decides_of_errorChanges? matched decided
    | compareAssertion =>
        obtain ⟨m, matched, decided⟩ := Option.bind_eq_some_iff.mp decided
        exact decides_of_comparisonChanges? matched decided
    | asyncCall => exact decides_of_asyncChanges? decided
    | comparePointerValue =>
        obtain ⟨m, matched, decided⟩ := Option.bind_eq_some_iff.mp decided
        exact decides_of_pointerChanges? matched decided
    | haveOccurredNonError | succeedNonError => cases decided
  · intro decides
    cases decides with
    | @size _ f _ _ _ _ matched subject checked =>
        cases f <;> simp [ofSize, changes?, matched, lengthChanges?, subject, checked]
    | @sizeComparison _ f _ _ _ _ _ _ _ matched subject asked checked =>
        cases f <;> simp [ofSize, changes?, matched, lengthChanges?, subject, asked, checked]
    | comparison matched subject asked checked =>
        simp [changes?, matched, comparisonChanges?, subject, asked, checked]
    | nilComparison matched subject noError asked =>
        simp [changes?, matched, nilChanges?, subject, noError, asked]
    | equalNil matched subject equals =>
        obtain ⟨v, subject⟩ | ⟨f, call, arg, subject⟩ := subject <;>
          simp [changes?, matched, nilChanges?, subject, equals]
    | error matched subject single asksNil =>
        simp [changes?, matched, errorChanges?, subject, single, asksNil]
    | errorComparison matched subject isError single asked =>
        simp [changes?, matched, errorChanges?, subject, isError, single, asked]
    | passed late noSize isCall =>
        rw [changes?, asyncChanges?, if_pos late, isCall]
        cases subject : a.actual.subject with
        | size f call arg => exact absurd subject (noSize f call arg)
        | _ => rfl
    | pointer matched subject inTime isPointer compares =>
        simp [changes?, matched, pointerChanges?, subject, inTime, isPointer, compares]

/-- The draft of a fix is a decision that was carried out. -/
theorem draft?_eq_some_iff {r : Rule} {d : Draft} :
    r.draft? a = some d ↔ ∃ cs, Decides a r cs ∧ applyAll? a cs = some d := by
  simp only [draft?_eq_applyAll?, Option.bind_eq_some_iff, changes?_eq_some_iff]

end

/-! ## New matchers -/

theorem sizeMatcher_eq (style : ImportStyle) (f : SizeFunction) (size : Expr) (isZero : Bool) :
    ∃ name args, sizeMatcher style f size isZero = style.matcher name args ∧
      (args = [] ∨ args = [size]) := by
  cases f with
  | len =>
      cases isZero with
      | true => exact ⟨"BeEmpty", [], rfl, .inl rfl⟩
      | false => exact ⟨"HaveLen", [size], rfl, .inr rfl⟩
  | cap => exact ⟨"HaveCap", [size], rfl, .inr rfl⟩

/-- A new matcher for a size is passed nothing, the zero that the old one left unsaid, or the last
argument of the old one. -/
theorem SizeChecked.passes {a : Assertion} {m : Matcher} {f : SizeFunction} {new : Call}
    {turns : Bool} (checked : SizeChecked a m f new turns) :
    ∃ name args, new = a.style.matcher name args ∧
      (args = [] ∨ (args = [Expr.intLiteral "0"] ∧ m.argCount = 0) ∨
        ∃ index t, m.argCount = index + 1 ∧ m.arg? index = some t ∧ args = [t.copy]) := by
  cases checked with
  | @equal t named one arg =>
      obtain ⟨name, args, built, passed⟩ := sizeMatcher_eq a.style f t.copy (a.value t).isZero
      exact ⟨name, args, built, passed.imp_right fun same => .inr ⟨0, t, one, arg, same⟩⟩
  | zero named none =>
      obtain ⟨name, args, built, passed⟩ := sizeMatcher_eq a.style f (Expr.intLiteral "0") true
      exact ⟨name, args, built, passed.imp_right fun same => .inl ⟨same, none⟩⟩
  | @compared t op named two equality operator arg =>
      obtain ⟨name, args, built, passed⟩ := sizeMatcher_eq a.style f t.copy (a.value t).isZero
      exact ⟨name, args, built, passed.imp_right fun same => .inr ⟨1, t, two, arg, same⟩⟩
  | notEmpty named two operator arg isLen above =>
      subst isLen
      exact ⟨"BeEmpty", [], rfl, .inl rfl⟩

theorem sizeComparisonCheck?_passes {style : ImportStyle} {f : SizeFunction} {op : BinaryOp}
    {v : Value} {new : Call} {opposite : Bool}
    (checked : sizeComparisonCheck? style f op v = some (new, opposite)) :
    ∃ name args, new = style.matcher name args ∧
      ∀ e ∈ args, e = v.twin.copy ∨ e = Expr.intLiteral "0" := by
  have sized : ∀ (size : Expr) (isZero : Bool), size = v.twin.copy ∨ size = Expr.intLiteral "0" →
      ∃ name args, sizeMatcher style f size isZero = style.matcher name args ∧
        ∀ e ∈ args, e = v.twin.copy ∨ e = Expr.intLiteral "0" := by
    intro size isZero known
    obtain ⟨name, args, built, passed⟩ := sizeMatcher_eq style f size isZero
    refine ⟨name, args, built, ?_⟩
    rcases passed with rfl | rfl
    · simp
    · simpa using known
  unfold sizeComparisonCheck? at checked
  split at checked
  · cases checked
    exact sized _ _ (.inl rfl)
  · cases checked
    exact sized _ _ (.inl rfl)
  · split at checked <;> cases checked
    exact sized _ _ (.inl rfl)
  · split at checked <;> cases checked
    exact sized _ _ (.inr rfl)
  · cases checked

theorem comparisonCheck?_passes {style : ImportStyle} {left right : Value} {op : BinaryOp}
    {new : Call} {opposite : Bool}
    (checked : comparisonCheck? style left op right = some (new, opposite)) :
    ∃ name args, new = style.matcher name args ∧
      ∀ e ∈ args, e = right.twin.copy ∨ e = Expr.stringLiteral op.symbol := by
  simp only [comparisonCheck?] at checked
  split at checked
  · cases checked
    exact ⟨_, _, rfl, by simp⟩
  · split at checked
    · split at checked <;> cases checked
      exact ⟨_, _, rfl, by simp⟩
    · cases checked

/-! ## Carrying out a decision -/

theorem applyAll?_restatement_iff {a : Assertion} {e : Expr} {new : Call} {negative : Bool}
    {d : Draft} :
    applyAll? a (restatement e new negative) = some d ↔
      ∃ d₁, a.draft.setActualArg a.actual.offset e = some d₁ ∧
        ∃ d₂, d₁.setMatcher new = some d₂ ∧ d₂.setNegative negative = some d := by
  simp only [applyAll?_restatement, Option.bind_eq_some_iff]

theorem applyAll?_resized_iff {a : Assertion} {e : Expr} {new : Call} {turns : Bool} {d : Draft} :
    applyAll? a (.actualArg e :: .innerMatcher new :: if turns then [.reverse] else []) = some d ↔
      ∃ d₁, a.draft.setActualArg a.actual.offset e = some d₁ ∧
        ∃ d₂, d₁.setInnerMatcher new = some d₂ ∧
          (if turns then d₂.reverse else some d₂) = some d := by
  cases turns <;>
    simp [applyAll?, List.foldlM_cons, Change.make?, Option.bind_eq_some_iff]

theorem applyAll?_movedError_iff {a : Assertion} {e : Expr} {v : Value} {expectsNil : Bool}
    {d : Draft} :
    applyAll? a (.actualArg e :: errorStatement a v expectsNil) = some d ↔
      ∃ d₁, a.draft.setActualArg a.actual.offset e = some d₁ ∧
        assertError a d₁ v expectsNil = some d := by
  simp only [applyAll?, List.foldlM_cons, Change.make?, Option.bind_eq_bind,
    Option.bind_eq_some_iff, assertError_eq]

theorem applyAll?_single (a : Assertion) (new : Call) :
    applyAll? a [.innerMatcher new] = a.draft.setInnerMatcher new := by
  simp [applyAll?, List.foldlM_cons, Change.make?]

end Rule

end GomegaLint
