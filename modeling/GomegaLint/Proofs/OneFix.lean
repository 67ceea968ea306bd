import Mathlib
import GomegaLint.Proofs.Filtering
import GomegaLint.Proofs.Placement

/-!
# At most one fix

Every rule looks for itself whether an assertion is its own; nothing keeps two rules from
mending one assertion.  It is the classification that does.

* `Rule.inCharge?`: the one rule that may mend a synchronous assertion, by the class of its
  actual value and, for a value of no particular class, by whether it is compared with `nil`.
* `Rule.inCharge?_eq_some`: a rule that decides on changes is in charge.  There is one
  exception: a size compared with `nil` by value is mended as a size and as a comparison with
  `nil` (`Assertion.comparesSizeWithNil`).
* `Assertion.synchronous_fixedOnce`: so at most one rule suggests a fix, exactly if it is not
  the exception; and of the findings in a file no two suggest different texts for one place.
-/

namespace GomegaLint

namespace Rule

/-- The rule suggests a fix of the assertion. -/
def fixes (a : Assertion) (r : Rule) : Bool := ((r.check a).bind Report.fix).isSome

/-- The rule that a synchronous assertion is left to. -/
def inCharge? (a : Assertion) : Option Rule :=
  match a.actual.subject with
  | .plain _ =>
    if a.matcher.any (equalsNil a) then some nilAssertion else some comparePointerValue
  | .size f _ _ | .sizeComparison f _ _ _ _ => some (ofSize f)
  | .error _ => some errorAssertion
  | .errorFunction _ => none
  | .comparison .. => some compareAssertion
  | .nilComparison left _ _ => if left.isError then some errorAssertion else some nilAssertion

end Rule

/-- A size is compared with `nil` by value. -/
def Assertion.comparesSizeWithNil (a : Assertion) : Bool :=
  match a.actual.subject with
  | .size .. => a.matcher.any (Rule.equalsNil a)
  | _ => false

/-! ## Synchronous assertions -/

/-- A call is found to be passed by its result only by an asynchronous function. -/
theorem Actual.hasTrait_asyncCall {o : Oracle} {found : ImportStyle.Found} {function : String}
    {actual : Actual} (classified : Actual.of? o found function = some actual)
    (synchronous : isAsyncFunction actual.function = false) :
    actual.hasTrait .asyncCall = false := by
  simp only [Actual.of?, Option.bind_eq_bind, Option.bind_eq_some_iff, Option.pure_def,
    Option.some.injEq] at classified
  obtain ⟨index, -, first, -, arg, -, subject, -, rfl⟩ := classified
  have synchronous : isAsyncFunction function = false := synchronous
  have plain : Trait.asyncCall ∉ subject.traits := by
    cases subject with
    | size f | sizeComparison f => cases f <;> simp [Subject.traits]
    | _ => simp [Subject.traits]
  simpa [hasTrait, synchronous] using plain

theorem Assertion.hasTrait_asyncCall {style : ImportStyle} {o : Oracle} {seen copy : Call}
    {a : Assertion} (recognized : Assertion.of? style o seen copy = some a)
    (synchronous : Actual.isAsyncFunction a.actual.function = false) :
    a.actual.hasTrait .asyncCall = false := by
  simp only [Assertion.of?, Option.bind_eq_bind, Option.bind_eq_some_iff] at recognized
  obtain ⟨s, -, c, -, method, -, recognized⟩ := recognized
  split at recognized
  · cases recognized
  · simp only [Option.bind_eq_some_iff, Option.pure_def, Option.some.injEq] at recognized
    obtain ⟨found, -, function, -, actual, classified, rfl⟩ := recognized
    exact Actual.hasTrait_asyncCall classified synchronous

namespace Rule

variable {a : Assertion} {m : Matcher} {cs : List Change}

/-! ## Who is in charge -/

/-- A matcher that compares with a value of a known type does not compare with `nil`. -/
theorem equalsNil_of_comparesValue (compares : comparesValue a m = true) :
    equalsNil a m = false := by
  rw [← Bool.not_eq_true, equalsNil_iff]
  rintro ⟨named, one, arg, first, isNil⟩
  rcases named with named | named <;>
    simp [comparesValue, comparedIndex?, named, one, first, isNil] at compares

/-- **A rule that decides on changes is in charge**, but for the comparison of a size with
`nil`. -/
theorem inCharge?_eq_some {r : Rule} (synchronous : a.actual.hasTrait .asyncCall = false)
    (decided : r.changes? a = some cs) :
    inCharge? a = some r ∨ (r = nilAssertion ∧ a.comparesSizeWithNil = true) := by
  cases changes?_eq_some_iff.mp decided with
  | size matched subject | sizeComparison matched subject | comparison matched subject
  | error matched subject => exact .inl (by rw [inCharge?, subject])
  | nilComparison matched subject isError | errorComparison matched subject isError =>
      exact .inl (by simp [inCharge?, subject, isError])
  | equalNil matched subject isNil =>
      obtain ⟨v, subject⟩ | ⟨f, call, arg, subject⟩ := subject
      · exact .inl (by simp [inCharge?, subject, matched, isNil])
      · exact .inr ⟨rfl, by simp [Assertion.comparesSizeWithNil, subject, matched, isNil]⟩
  | pointer matched subject inTime isPointer compares =>
      have notNil := equalsNil_of_comparesValue compares
      exact .inl (by simp [inCharge?, subject, matched, notNil])
  | passed late => simp [synchronous] at late

/-- Both rules decide on changes where a size is compared with `nil`. -/
theorem changes?_of_comparesSizeWithNil (both : a.comparesSizeWithNil = true) :
    ∃ f, inCharge? a = some (ofSize f) ∧ ((ofSize f).changes? a).isSome = true ∧
      (nilAssertion.changes? a).isSome = true := by
  unfold Assertion.comparesSizeWithNil at both
  cases subject : a.actual.subject with
  | size f call arg =>
      simp only [subject, Option.any_eq_true] at both
      obtain ⟨m, matched, isNil⟩ := both
      obtain ⟨named, one, arg', first, -⟩ := equalsNil_iff.mp isNil
      have checked : (sizeCheck? a m f).isSome = true := by
        rcases named with named | named <;> simp [sizeCheck?, named, one, first]
      refine ⟨f, by simp [inCharge?, subject], ?_, ?_⟩
      · cases f <;> simpa [ofSize, changes?, matched, lengthChanges?, subject] using checked
      · simp [changes?, matched, nilChanges?, subject, isNil]
  | _ => simp [subject] at both

/-- A rule suggests a fix of a recognized assertion exactly if it decides on changes. -/
theorem fixes_iff {style : ImportStyle} {o : Oracle} {seen copy : Call}
    (recognized : Assertion.of? style o seen copy = some a) (r : Rule) :
    r.fixes a = true ↔ (r.changes? a).isSome = true := by
  rw [fixes, fix_check, draft?_eq_applyAll?]
  cases decided : r.changes? a with
  | none => simp
  | some cs =>
      obtain ⟨d, made⟩ := (Assertion.of?_located recognized).applyAll? decided
      simp [made]

/-- Two rules that suggest fixes of one synchronous assertion are the same rule, unless it
compares a size with `nil`. -/
theorem eq_of_fixes {style : ImportStyle} {o : Oracle} {seen copy : Call}
    (recognized : Assertion.of? style o seen copy = some a)
    (synchronous : Actual.isAsyncFunction a.actual.function = false)
    (single : a.comparesSizeWithNil = false) {r s : Rule} (first : r.fixes a = true)
    (second : s.fixes a = true) : r = s := by
  have alone : ∀ {t : Rule}, t.fixes a = true → inCharge? a = some t := by
    intro t fixed
    obtain ⟨cs, decided⟩ := Option.isSome_iff_exists.mp ((fixes_iff recognized t).mp fixed)
    refine (inCharge?_eq_some (Assertion.hasTrait_asyncCall recognized synchronous)
      decided).resolve_right fun both => ?_
    rw [single] at both
    cases both.2
  exact Option.some.inj ((alone first).symm.trans (alone second))

/-- Where a size is compared with `nil`, the rule about it and the one about `nil` suggest
fixes. -/
theorem filter_fixes_of_comparesSizeWithNil {style : ImportStyle} {o : Oracle} {seen copy : Call}
    (recognized : Assertion.of? style o seen copy = some a)
    (synchronous : Actual.isAsyncFunction a.actual.function = false)
    (both : a.comparesSizeWithNil = true) :
    ∃ f, all.filter (fixes a) = [ofSize f, nilAssertion] := by
  obtain ⟨f, charged, bySize, byNil⟩ := changes?_of_comparesSizeWithNil both
  have fixed : ∀ r ∈ all, fixes a r = (r = ofSize f ∨ r = nilAssertion : Bool) := by
    intro r _
    rw [Bool.eq_iff_iff, decide_eq_true_eq, fixes_iff recognized]
    constructor
    · intro decided
      obtain ⟨cs, decided⟩ := Option.isSome_iff_exists.mp decided
      rcases inCharge?_eq_some (Assertion.hasTrait_asyncCall recognized synchronous) decided with
        inCharge | ⟨isNil, -⟩
      · exact .inl (Option.some.inj (inCharge.symm.trans charged))
      · exact .inr isNil
    · rintro (rfl | rfl)
      · exact bySize
      · exact byNil
  refine ⟨f, ?_⟩
  rw [List.filter_congr fixed]
  cases f <;> rfl

end Rule

/-! ## Findings -/

/-- A finding of a run is one of a rule of it at an assertion of the tree. -/
theorem Linter.mem_lintAssertions {l : Linter} {source : List Char} {style : ImportStyle}
    {o : Oracle} {root : Node} {d : Diagnostic}
    (found : d ∈ l.lintAssertions source style o root) :
    ∃ p ∈ root.assertions, ∃ c a, p.1.toCall? = some c ∧ Assertion.of? style o c c = some a ∧
      d.location.bytes = p.1.span ∧
      ∃ r, l.diagnose? source (fileScope root) p.2.scope a r = some d ∧
        (d.suggestion.isSome = true → r.fixes a = true) := by
  rw [lintAssertions_eq] at found
  obtain ⟨p, listed, found⟩ := List.mem_flatMap.mp found
  refine ⟨p, listed, ?_⟩
  cases recognized : p.1.toCall?.bind fun c => Assertion.of? style o c c with
  | none => simp [lintCall, recognized] at found
  | some a =>
      obtain ⟨c, isCall, isAssertion⟩ := Option.bind_eq_some_iff.mp recognized
      simp only [lintCall, recognized, lintAssertion_eq, List.mem_filterMap] at found
      obtain ⟨r, -, reported⟩ := found
      have placed : a.span = p.1.span := by
        rw [Assertion.span, (Assertion.of?_located isAssertion).call_eq]
        simp only [Node.toCall?, Node.lowerCall, Option.bind_eq_bind, Option.pure_def] at isCall
        split at isCall
        · cases isCall
        · simp only [Option.bind_eq_some_iff, Option.some.injEq] at isCall
          obtain ⟨-, -, -, -, rfl⟩ := isCall
          rfl
      refine ⟨c, a, isCall, isAssertion, ?_, r, reported, ?_⟩ <;>
        simp only [diagnose?] at reported <;> split at reported
      · cases reported
      · obtain ⟨report, -, rfl⟩ := Option.map_eq_some_iff.mp reported
        exact placed
      · cases reported
      · obtain ⟨report, checked, rfl⟩ := Option.map_eq_some_iff.mp reported
        simp [Rule.fixes, checked, Diagnostic.ofReport]

namespace Assertion

/-- **At most one fix per synchronous assertion.**  Of a recognized assertion whose actual
function is not an asynchronous one, at most one of the rules suggests a fix exactly if it does
not compare a size with `nil` by value; then two do, the rule about the size and the one about
`nil`.

Let the assertions of a file stand at different places.  If two findings suggest something
for one place and are not the same, the assertion there is asynchronous or compares a size
with `nil`. -/
theorem synchronous_fixedOnce (style : ImportStyle) (o : Oracle) :
    (∀ seen copy a, Assertion.of? style o seen copy = some a →
      Actual.isAsyncFunction a.actual.function = false →
      ((Rule.all.filter (Rule.fixes a)).length ≤ 1 ↔ a.comparesSizeWithNil = false) ∧
      (a.comparesSizeWithNil = true →
        ∃ f, Rule.all.filter (Rule.fixes a) = [Rule.ofSize f, .nilAssertion])) ∧
    ∀ (l : Linter) (source : List Char) (root : Node),
      (root.assertions.map fun p => p.1.span).Nodup →
      ∀ d ∈ l.lintAssertions source style o root, ∀ d' ∈ l.lintAssertions source style o root,
        d.suggestion.isSome = true → d'.suggestion.isSome = true →
        d.location.bytes = d'.location.bytes → d ≠ d' →
        ∃ p ∈ root.assertions, ∃ c a, p.1.toCall? = some c ∧ Assertion.of? style o c c = some a ∧
          d.location.bytes = p.1.span ∧
          (Actual.isAsyncFunction a.actual.function = true ∨ a.comparesSizeWithNil = true) := by
  constructor
  · intro seen copy a recognized synchronous
    have two := Rule.filter_fixes_of_comparesSizeWithNil recognized synchronous
    refine ⟨⟨fun atMostOne => ?_, fun single => ?_⟩, two⟩
    · rw [← Bool.not_eq_true]
      intro both
      obtain ⟨f, fixing⟩ := two both
      rw [fixing] at atMostOne
      exact absurd atMostOne (by simp)
    · have distinct : (Rule.all.filter (Rule.fixes a)).Nodup := List.Nodup.filter _ (by decide)
      have fixed : ∀ r ∈ Rule.all.filter (Rule.fixes a), r.fixes a = true :=
        fun r inside => (List.mem_filter.mp inside).2
      cases fixing : Rule.all.filter (Rule.fixes a) with
      | nil => simp
      | cons r others =>
          cases others with
          | nil => simp
          | cons s others =>
              rw [fixing] at distinct fixed
              have same : r = s := Rule.eq_of_fixes recognized synchronous single
                (fixed r (by simp)) (fixed s (by simp))
              simp [same] at distinct
  · intro l source root places d found d' found' suggests suggests' samePlace different
    obtain ⟨p, listed, c, a, isCall, recognized, placed, r, reported, fixed⟩ :=
      Linter.mem_lintAssertions found
    obtain ⟨p', listed', c', a', isCall', recognized', placed', r', reported', fixed'⟩ :=
      Linter.mem_lintAssertions found'
    obtain rfl : p = p' := List.inj_on_of_nodup_map places listed listed'
      (placed.symm.trans (samePlace.trans placed'))
    obtain rfl : c = c' := Option.some.inj (isCall.symm.trans isCall')
    obtain rfl : a = a' := Option.some.inj (recognized.symm.trans recognized')
    refine ⟨p, listed, c, a, isCall, recognized, placed, ?_⟩
    by_contra neither
    simp only [not_or, Bool.not_eq_true] at neither
    obtain rfl : r = r' := Rule.eq_of_fixes recognized neither.1 neither.2 (fixed suggests)
      (fixed' suggests')
    exact different (Option.some.inj (reported.symm.trans reported'))

/-- `Expect(cap(x)).ToNot(Not(BeEquivalentTo(nil)))` -/
def capacityOfNil : Call where
  callee :=
    .selector {}
      (.call {} (.named "Expect") [.call {} (.named "cap") [.named "x"] false] false)
      { name := "ToNot" }
  args := [.call {} (.named "Not") [.call {} (.named "BeEquivalentTo") [.named "nil"] false] false]

/-- `Expect(cap(x)).To(Equal(n))` -/
def capacityOfName : Call where
  callee :=
    .selector {}
      (.call {} (.named "Expect") [.call {} (.named "cap") [.named "x"] false] false)
      { name := "To" }
  args := [.call {} (.named "Equal") [.named "n"] false]

open Linter in
/-- A file with `Expect(cap(x)).To(Equal(nil))` and, behind it, `Expect(cap(x)).To(Equal(n))`. -/
def twoCapacities : Node :=
  .construct .sourceFile
    [.word .packageClause "package a", check "nil" ⟨10, 40⟩, check "n" ⟨41, 69⟩]
where
  check (expected : String) (place : Span) : Node :=
    let n := expectation (namedCall "cap" [.word .identifier "x"])
      (namedCall "Equal" [.word .identifier expected])
    n.setLabel { n.label with extent := { start := place.start, stop := place.stop } }

/-- What is found in that file. -/
def capacityFindings : List Diagnostic :=
  ({} : Linter).lintAssertions [] .dot (fun _ => none) twoCapacities

/-- Two rules mend a capacity that is compared with `nil`, and one mends a capacity that is
compared with another name.  In a file with both, two findings suggest something for the
first place, and the assertion that stands there compares a size with `nil`. -/
theorem synchronous_fixedOnce_capacities :
    (∃ a, Assertion.of? .dot (fun _ => none) capacityOfNil capacityOfNil = some a ∧
      Actual.isAsyncFunction a.actual.function = false ∧ a.comparesSizeWithNil = true ∧
      ¬ (Rule.all.filter (Rule.fixes a)).length ≤ 1) ∧
    (∃ a, Assertion.of? .dot (fun _ => none) capacityOfName capacityOfName = some a ∧
      Rule.capAssertion.fixes a = true ∧ (Rule.all.filter (Rule.fixes a)).length ≤ 1) ∧
    (twoCapacities.assertions.map fun p => p.1.span) = [⟨10, 40⟩, ⟨41, 69⟩] ∧
    ∃ d ∈ capacityFindings, ∃ d' ∈ capacityFindings,
      d.suggestion.isSome = true ∧ d'.suggestion.isSome = true ∧
      d.location.bytes = ⟨10, 40⟩ ∧ d'.location.bytes = ⟨10, 40⟩ ∧ d ≠ d' ∧
      ∃ p ∈ twoCapacities.assertions, ∃ c a, p.1.toCall? = some c ∧
        Assertion.of? .dot (fun _ => none) c c = some a ∧ p.1.span = ⟨10, 40⟩ ∧
        (Actual.isAsyncFunction a.actual.function = true ∨ a.comparesSizeWithNil = true) := by
  obtain ⟨once, places⟩ := synchronous_fixedOnce .dot fun _ => none
  refine ⟨⟨_, rfl, rfl, by decide, ?_⟩, ⟨_, rfl, by decide, ?_⟩, by decide +kernel, ?_⟩
  · rw [(once capacityOfNil capacityOfNil _ rfl rfl).1]
    decide
  · exact (once capacityOfName capacityOfName _ rfl rfl).1.mpr (by decide)
  · have apart : (twoCapacities.assertions.map fun p => p.1.span).Nodup := by decide +kernel
    have two : ∃ d ∈ capacityFindings, ∃ d' ∈ capacityFindings,
        d.suggestion.isSome = true ∧ d'.suggestion.isSome = true ∧
          d.location.bytes = ⟨10, 40⟩ ∧ d'.location.bytes = ⟨10, 40⟩ ∧ d ≠ d' := by
      decide +kernel
    obtain ⟨d, found, d', found', suggests, suggests', place, place', different⟩ := two
    obtain ⟨p, listed, c, a, isCall, recognized, placed, exception⟩ :=
      places {} [] twoCapacities apart d found d' found' suggests suggests'
        (place.trans place'.symm) different
    exact ⟨d, found, d', found', suggests, suggests', place, place', different,
      p, listed, c, a, isCall, recognized, placed.symm.trans place, exception⟩

end Assertion

end GomegaLint
