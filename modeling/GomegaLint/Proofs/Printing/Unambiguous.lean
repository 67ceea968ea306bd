import Mathlib
import GomegaLint.Proofs.Placement
import GomegaLint.Proofs.Printing.Grammar

/-!
# Fixes print without ambiguity

A fix moves expressions of an assertion to other places of it.  All these places are
arguments of calls, where every well-formed expression may stand, or hold a call before
and after the change (`Change.WellFormed.make?`); and what a rule moves are parts of the
assertion or calls of matchers around them (`Rule.wellFormed_changes?`).  So the draft of a
fix is well-formed where the assertion was, and is read back from its tokens:
`Expr.print_unambiguous`.
-/

namespace GomegaLint

/-! ## Parts of well-formed expressions -/

theorem Expr.WellFormed.arg {c : Call} {index : Nat} {e : Expr} (wellFormed : c.toExpr.WellFormed)
    (found : c.args[index]? = some e) : e.WellFormed := by
  cases wellFormed with
  | call _ _ _ _ arguments => exact arguments e (List.mem_of_getElem? found)

theorem Expr.WellFormed.under? {n : Nat} {e x : Expr} (wellFormed : e.WellFormed)
    (found : Draft.under? n e = some x) : x.WellFormed := by
  fun_induction Draft.under? n e with
  | case1 e =>
      cases found
      exact wellFormed
  | case2 n o so y m args s ih =>
      cases wellFormed with
      | call _ _ callee =>
          cases callee with
          | selector _ _ base => exact ih base found
  | case3 => cases found

theorem Expr.WellFormed.inside? {n : Nat} {e : Expr} {c : Call} (wellFormed : e.WellFormed)
    (found : Draft.inside? n e = some c) : c.toExpr.WellFormed := by
  fun_induction Draft.inside? n e with
  | case1 o f args s =>
      cases found
      exact wellFormed
  | case2 n o f a as s ih =>
      cases wellFormed with
      | call _ _ _ _ arguments => exact ih (arguments a List.mem_cons_self) found
  | case3 => cases found

/-- A call of a matcher is well-formed if its arguments are. -/
theorem ImportStyle.wellFormed_matcher (style : ImportStyle) (name : String) {args : List Expr}
    (arguments : ∀ a ∈ args, a.WellFormed) : (style.matcher name args).toExpr.WellFormed := by
  cases style with
  | dot => exact .call _ _ (.ident _) rfl arguments
  | named package => exact .call _ _ (.selector _ _ (.ident _) rfl) rfl arguments

/-! ## Changes -/

namespace Draft

/-- An edit that leaves a well-formed expression to select from does so under helper
calls. -/
theorem wellFormed_editUnder {edit : Expr → Option Expr}
    (keeps : ∀ x x', edit x = some x' → x.WellFormed → x.isOperation = false →
      x'.WellFormed ∧ x'.isOperation = false)
    {n : Nat} {e e' : Expr} (edited : editUnder edit n e = some e') (wellFormed : e.WellFormed)
    (no : e.isOperation = false) : e'.WellFormed ∧ e'.isOperation = false := by
  fun_induction editUnder edit n e generalizing e' with
  | case1 e => exact keeps e e' edited wellFormed no
  | case2 n o so x m args s ih =>
      obtain ⟨x', inner, rfl⟩ := Option.map_eq_some_iff.mp edited
      cases wellFormed with
      | call _ _ callee _ arguments =>
          cases callee with
          | selector _ _ base no =>
              obtain ⟨base', no'⟩ := ih inner base no
              exact ⟨.call _ _ (.selector _ _ base' no') rfl arguments, rfl⟩
  | case3 => cases edited

theorem wellFormed_editInside {edit : Call → Call}
    (keeps : ∀ c : Call, c.toExpr.WellFormed → (edit c).toExpr.WellFormed) {n : Nat} {e e' : Expr}
    (edited : editInside edit n e = some e') (wellFormed : e.WellFormed) : e'.WellFormed := by
  fun_induction editInside edit n e generalizing e' with
  | case1 o f args s =>
      cases edited
      exact keeps ⟨o, f, args, s⟩ wellFormed
  | case2 n o f a as s ih =>
      obtain ⟨a', inner, rfl⟩ := Option.map_eq_some_iff.mp edited
      cases wellFormed with
      | call _ _ callee no arguments =>
          obtain ⟨first, others⟩ := List.forall_mem_cons.mp arguments
          exact .call _ _ callee no (List.forall_mem_cons.mpr ⟨ih inner first, others⟩)
  | case3 => cases edited

/-- The assertion of the draft is well-formed. -/
def WellFormed (d : Draft) : Prop := d.call.toExpr.WellFormed

variable {d d' : Draft}

theorem WellFormed.editActual {edit : Expr → Option Expr} (wellFormed : d.WellFormed)
    (keeps : ∀ x x', edit x = some x' → x.WellFormed → x.isOperation = false →
      x'.WellFormed ∧ x'.isOperation = false)
    (edited : d.editActual edit = some d') : d'.WellFormed := by
  obtain ⟨⟨o, callee, args, s⟩, style, depth, notDepth⟩ := d
  unfold Draft.editActual at edited
  split at edited
  · rename_i so x m isSelector
    obtain rfl : callee = _ := isSelector
    obtain ⟨x', inner, rfl⟩ := Option.map_eq_some_iff.mp edited
    cases wellFormed with
    | call _ _ callee _ arguments =>
        cases callee with
        | selector _ _ base no =>
            obtain ⟨base', no'⟩ := wellFormed_editUnder keeps inner base no
            exact .call _ _ (.selector _ _ base' no') rfl arguments
  · cases edited

theorem WellFormed.setActualArg {index : Nat} {e : Expr} (wellFormed : d.WellFormed)
    (value : e.WellFormed) (edited : d.setActualArg index e = some d') : d'.WellFormed := by
  refine wellFormed.editActual (fun x x' edited wellFormed _ => ?_) edited
  split at edited
  · split at edited <;> cases edited
    cases wellFormed with
    | call _ _ callee no arguments =>
        refine ⟨.call _ _ callee no fun a member => ?_, rfl⟩
        rcases List.mem_or_eq_of_mem_set member with old | rfl
        · exact arguments a old
        · exact value
  · cases edited

theorem WellFormed.chainActual {method : String} {args : List Expr} (wellFormed : d.WellFormed)
    (arguments : ∀ a ∈ args, a.WellFormed) (edited : d.chainActual method args = some d') :
    d'.WellFormed := by
  refine wellFormed.editActual (fun x x' edited wellFormed no => ?_) edited
  cases edited
  exact ⟨.call _ _ (.selector _ _ wellFormed no) rfl arguments, rfl⟩

theorem WellFormed.setMatcher {new : Call} (wellFormed : d.WellFormed)
    (matcher : new.toExpr.WellFormed) (edited : d.setMatcher new = some d') : d'.WellFormed := by
  obtain ⟨⟨o, callee, args, s⟩, style, depth, notDepth⟩ := d
  cases args with
  | nil => cases edited
  | cons a as =>
      cases edited
      cases wellFormed with
      | call _ _ callee no arguments =>
          exact .call _ _ callee no
            (List.forall_mem_cons.mpr ⟨matcher, (List.forall_mem_cons.mp arguments).2⟩)

theorem WellFormed.setInnerMatcher {new : Call} (wellFormed : d.WellFormed)
    (matcher : new.toExpr.WellFormed) (edited : d.setInnerMatcher new = some d') :
    d'.WellFormed := by
  obtain ⟨⟨o, callee, args, s⟩, style, depth, notDepth⟩ := d
  cases args with
  | nil => cases edited
  | cons a as =>
      obtain ⟨a', inner, rfl⟩ := Option.map_eq_some_iff.mp edited
      cases wellFormed with
      | call _ _ callee no arguments =>
          obtain ⟨first, others⟩ := List.forall_mem_cons.mp arguments
          exact .call _ _ callee no (List.forall_mem_cons.mpr
            ⟨wellFormed_editInside (fun _ _ => matcher) inner first, others⟩)

theorem WellFormed.reverse (wellFormed : d.WellFormed) (edited : d.reverse = some d') :
    d'.WellFormed := by
  obtain ⟨⟨o, callee, args, s⟩, style, depth, notDepth⟩ := d
  unfold Draft.reverse editMethod at edited
  split at edited
  · rename_i so x m isSelector
    obtain rfl : callee = _ := isSelector
    obtain ⟨name, -, rfl⟩ := Option.map_eq_some_iff.mp edited
    cases wellFormed with
    | call _ _ callee _ arguments =>
        cases callee with
        | selector _ _ base no => exact .call _ _ (.selector _ _ base no) rfl arguments
  · cases edited

theorem WellFormed.setNegative {negative : Bool} (wellFormed : d.WellFormed)
    (edited : d.setNegative negative = some d') : d'.WellFormed := by
  unfold Draft.setNegative at edited
  split at edited
  · split at edited
    · cases edited
      exact wellFormed
    · exact wellFormed.reverse edited
  · cases edited

end Draft

namespace Change

/-- What the change puts in is well-formed. -/
def WellFormed : Change → Prop
  | actualArg e => e.WellFormed
  | chain _ args => ∀ a ∈ args, a.WellFormed
  | matcher new | innerMatcher new => new.toExpr.WellFormed
  | reverse | negative _ => True

theorem WellFormed.make? {change : Change} {offset : Nat} {d d' : Draft}
    (wellFormed : change.WellFormed) (before : d.WellFormed)
    (made : change.make? offset d = some d') : d'.WellFormed := by
  cases change with
  | actualArg e => exact before.setActualArg wellFormed made
  | chain method args => exact before.chainActual wellFormed made
  | matcher new => exact before.setMatcher wellFormed made
  | innerMatcher new => exact before.setInnerMatcher wellFormed made
  | reverse => exact before.reverse made
  | negative b => exact before.setNegative made

theorem wellFormed_foldlM {offset : Nat} {cs : List Change} {d d' : Draft}
    (changes : ∀ change ∈ cs, change.WellFormed) (before : d.WellFormed)
    (made : cs.foldlM (Change.make? offset) d = some d') : d'.WellFormed := by
  induction cs generalizing d with
  | nil =>
      cases made
      exact before
  | cons change cs ih =>
      obtain ⟨first, others⟩ := List.forall_mem_cons.mp changes
      rw [List.foldlM_cons] at made
      obtain ⟨next, step, made⟩ := Option.bind_eq_some_iff.mp made
      exact ih others (first.make? before step) made

end Change

/-! ## What rules put in -/

/-- The expressions of the copy that a classified value holds. -/
def Subject.copies : Subject → List Expr
  | plain v | error v | errorFunction v => [v.twin.copy]
  | size _ _ arg => [arg.copy]
  | sizeComparison _ _ arg _ right => [arg.copy, right.twin.copy]
  | comparison left _ right | nilComparison left _ right => [left.twin.copy, right.twin.copy]

theorem Subject.wellFormed_compared? {o : Oracle} {left right : Twin} {op : BinaryOp}
    {subject : Subject} (left_wf : left.copy.WellFormed) (right_wf : right.copy.WellFormed)
    (classified : Subject.compared? o left op right = some subject) :
    ∀ e ∈ subject.copies, e.WellFormed := by
  have both : ∀ e ∈ [left.copy, right.copy], e.WellFormed := by simp [left_wf, right_wf]
  unfold Subject.compared? at classified
  split at classified
  · cases classified
    exact both
  · split at classified
    · rename_i s c _ isCall
      split at classified
      · obtain ⟨arg, found, classified⟩ := Option.bind_eq_some_iff.mp classified
        cases classified
        rw [Expr.call?_eq_some_iff.mp isCall] at left_wf
        simp [Subject.copies, left_wf.arg (CallTwin.getElem?_of_arg? found).2, right_wf, Value.of]
      · cases classified
        exact both
    · cases classified
    · cases classified
      exact both

theorem Subject.wellFormed_ofType {o : Oracle} {arg : Twin} (wellFormed : arg.copy.WellFormed) :
    ∀ e ∈ (Subject.ofType o arg).copies, e.WellFormed := by
  unfold Subject.ofType
  split <;> simpa [Subject.copies, Value.of] using wellFormed

/-- What a classified value holds are parts of it. -/
theorem Subject.wellFormed_of? {o : Oracle} {arg : Twin} {subject : Subject}
    (wellFormed : arg.copy.WellFormed) (classified : Subject.of? o arg = some subject) :
    ∀ e ∈ subject.copies, e.WellFormed := by
  obtain ⟨seen, copy⟩ := arg
  unfold Subject.of? at classified
  split at classified
  · cases classified
    simpa [Subject.copies, Value.of] using wellFormed
  · split at classified
    · rename_i so sf sas ss co cf cas cs isSeen isCopy
      obtain rfl : copy = _ := isCopy
      simp only at classified
      split at classified
      · rename_i x _ found
        cases classified
        have inCopy := (CallTwin.getElem?_of_arg? found).2
        have part : x.copy.WellFormed :=
          Expr.WellFormed.arg (c := ⟨co, cf, cas, cs⟩) wellFormed inCopy
        simpa [Subject.copies] using part
      · cases classified
        exact Subject.wellFormed_ofType wellFormed
    · rename_i isCopy
      obtain rfl : copy = _ := isCopy
      cases wellFormed with
      | binary _ left right =>
          split at classified
          · cases classified
          · split at classified
            · simp only [Subject.ofComparison?] at classified
              split at classified
              · exact Subject.wellFormed_compared? right left classified
              · exact Subject.wellFormed_compared? left right classified
            · cases classified
              exact Subject.wellFormed_ofType (.binary _ left right ‹_› ‹_›)
    · cases classified
    · cases classified
    · cases classified
      exact Subject.wellFormed_ofType wellFormed

/-- What rules take out of an assertion is well-formed. -/
structure Assertion.WellFormed (a : Assertion) : Prop where
  arg : a.actual.arg.copy.WellFormed
  subject : ∀ e ∈ a.actual.subject.copies, e.WellFormed
  matcher : ∀ m, a.matcher = some m → m.call.copy.toExpr.WellFormed

theorem Assertion.Located.wellFormed {seen copy : Call} {a : Assertion}
    (located : a.Located seen copy) (wellFormed : copy.toExpr.WellFormed) : a.WellFormed := by
  obtain ⟨o, callee, args, s⟩ := copy
  cases wellFormed with
  | call _ _ callee no arguments =>
      have arg : a.actual.arg.copy.WellFormed := by
        obtain ⟨x, receiver, found⟩ := Option.bind_eq_some_iff.mp located.copyActual
        cases callee with
        | selector _ _ base =>
            cases receiver
            exact (base.under? found).arg located.copyArg
        | _ => cases receiver
      refine ⟨arg, Subject.wellFormed_of? arg located.subject, fun m matched => ?_⟩
      obtain ⟨t, first, found⟩ := Option.bind_eq_some_iff.mp (located.copyMatcher m matched)
      exact (arguments t (List.mem_of_mem_head? first)).inside? found

namespace Rule

theorem wellFormed_sizeCheck? {a : Assertion} {m : Matcher} {f : SizeFunction} {new : Call}
    {turns : Bool} (matcher : m.call.copy.toExpr.WellFormed)
    (checked : sizeCheck? a m f = some (new, turns)) : new.toExpr.WellFormed := by
  obtain ⟨name, args, rfl, passed⟩ := (sizeChecked_of_sizeCheck? checked).passes
  refine a.style.wellFormed_matcher name ?_
  rcases passed with rfl | ⟨rfl, -⟩ | ⟨index, t, -, found, rfl⟩
  · simp
  · rw [List.forall_mem_singleton]
    exact .literal _ _ _
  · simpa using matcher.arg (CallTwin.getElem?_of_arg? found).2

theorem wellFormed_sizeComparisonCheck? {style : ImportStyle} {f : SizeFunction} {op : BinaryOp}
    {v : Value} {new : Call} {opposite : Bool} (wellFormed : v.twin.copy.WellFormed)
    (checked : sizeComparisonCheck? style f op v = some (new, opposite)) :
    new.toExpr.WellFormed := by
  obtain ⟨name, args, rfl, passed⟩ := sizeComparisonCheck?_passes checked
  refine style.wellFormed_matcher name fun e member => ?_
  rcases passed e member with rfl | rfl
  · exact wellFormed
  · exact .literal _ _ _

theorem wellFormed_comparisonCheck? {style : ImportStyle} {left right : Value} {op : BinaryOp}
    {new : Call} {opposite : Bool} (wellFormed : right.twin.copy.WellFormed)
    (checked : comparisonCheck? style left op right = some (new, opposite)) :
    new.toExpr.WellFormed := by
  obtain ⟨name, args, rfl, passed⟩ := comparisonCheck?_passes checked
  refine style.wellFormed_matcher name fun e member => ?_
  rcases passed e member with rfl | rfl
  · exact wellFormed
  · exact .literal _ _ _

theorem wellFormed_restatement {e : Expr} {new : Call} {negative : Bool} (value : e.WellFormed)
    (matcher : new.toExpr.WellFormed) :
    ∀ change ∈ restatement e new negative, change.WellFormed := by
  simp [restatement, Change.WellFormed, value, matcher]

theorem wellFormed_errorStatement (a : Assertion) (v : Value) (expectsNil : Bool) :
    ∀ change ∈ errorStatement a v expectsNil, change.WellFormed := by
  have bare (name : String) : (a.style.matcher name []).toExpr.WellFormed :=
    a.style.wellFormed_matcher name (by simp)
  unfold errorStatement
  split <;> simp [Change.WellFormed, bare]

/-- A call that is passed becomes its callee and its arguments. -/
theorem wellFormed_passed {o : Origin} {f : Expr} {args : List Expr}
    (wellFormed : (Expr.call o f args false).WellFormed) :
    ∀ change ∈ (.actualArg f :: if args.isEmpty then [] else [Change.chain "WithArguments" args]),
      change.WellFormed := by
  cases wellFormed with
  | call _ _ callee _ arguments =>
      cases args with
      | nil => simpa [Change.WellFormed] using callee
      | cons b bs => simpa [Change.WellFormed] using ⟨callee, by simpa using arguments⟩

/-- **What a rule puts in is well-formed where the assertion is.** -/
theorem wellFormed_changes? {r : Rule} {a : Assertion} {cs : List Change}
    (wellFormed : a.WellFormed) (decided : r.changes? a = some cs) :
    ∀ change ∈ cs, change.WellFormed := by
  have isNil : (a.style.matcher "BeNil" []).toExpr.WellFormed :=
    a.style.wellFormed_matcher _ (by simp)
  have parts := wellFormed.subject
  cases changes?_eq_some_iff.mp decided with
  | @size m f call arg new turns matched subject checked =>
      rw [subject] at parts
      have new_wf := wellFormed_sizeCheck? (wellFormed.matcher m matched) checked
      have arg_wf := parts arg.copy List.mem_cons_self
      cases turns <;> simp [Change.WellFormed, new_wf, arg_wf]
  | @sizeComparison m f call arg op right expected new opposite matched subject asked checked =>
      rw [subject] at parts
      obtain ⟨arg_wf, right_wf⟩ : arg.copy.WellFormed ∧ right.twin.copy.WellFormed := by
        simpa [Subject.copies] using parts
      exact wellFormed_restatement arg_wf (wellFormed_sizeComparisonCheck? right_wf checked)
  | @comparison m left right op expected new opposite matched subject asked checked =>
      rw [subject] at parts
      obtain ⟨left_wf, right_wf⟩ : left.twin.copy.WellFormed ∧ right.twin.copy.WellFormed := by
        simpa [Subject.copies] using parts
      exact wellFormed_restatement left_wf (wellFormed_comparisonCheck? right_wf checked)
  | nilComparison matched subject =>
      rw [subject] at parts
      exact wellFormed_restatement (parts _ List.mem_cons_self) isNil
  | equalNil => simpa [Change.WellFormed] using isNil
  | error => exact wellFormed_errorStatement a _ _
  | errorComparison matched subject =>
      rw [subject] at parts
      exact List.forall_mem_cons.mpr
        ⟨parts _ List.mem_cons_self, wellFormed_errorStatement a _ _⟩
  | passed late noSize isCall => exact wellFormed_passed (isCall ▸ wellFormed.arg)
  | @pointer m v matched =>
      have matcher := wellFormed.matcher m matched
      simpa [Change.WellFormed, ImportStyle.wrapper] using
        a.style.wellFormed_matcher "HaveValue" (by simpa using matcher)

end Rule

/-- The draft of a fix is well-formed where the copy of the assertion is. -/
theorem Rule.wellFormed_draft? {style : ImportStyle} {o : Oracle} {seen copy : Call} {a : Assertion}
    {r : Rule} {d : Draft} (recognized : Assertion.of? style o seen copy = some a)
    (wellFormed : copy.toExpr.WellFormed) (drafted : r.draft? a = some d) : d.WellFormed := by
  have located := Assertion.of?_located recognized
  rw [Rule.draft?_eq_applyAll?] at drafted
  obtain ⟨cs, decided, made⟩ := Option.bind_eq_some_iff.mp drafted
  refine Change.wellFormed_foldlM
    (Rule.wellFormed_changes? (located.wellFormed wellFormed) decided) ?_ made
  rw [Draft.WellFormed, Assertion.draft, located.call_eq]
  exact wellFormed

namespace Expr

open Formula

/-- **Printing without parentheses is unambiguous.**  The text of an expression is its
tokens with blanks between them.  Those of a well-formed expression are read as the
expression, up to its origins, so that no two well-formed expressions have the same; and
nothing else is read at all.  What a rule suggests for an assertion that is well-formed is
the text of a draft that is so again, and is read back as this draft. -/
theorem print_unambiguous :
    (∀ e : Expr, Spaced (e.kinded.map Token.text) (e.segments 1)) ∧
    (∀ e : Expr, e.WellFormed → parse e.kinded = some e.bare) ∧
    (∀ e e' : Expr, e.WellFormed → e'.WellFormed → e.kinded = e'.kinded → e.bare = e'.bare) ∧
    (∀ (ts : List Token) (e : Expr),
      parse ts = some e ↔ e.WellFormed ∧ e.bare = e ∧ e.kinded = ts) ∧
    ∀ (style : ImportStyle) (o : Oracle) (seen copy : Call) (a : Assertion),
      Assertion.of? style o seen copy = some a → copy.toExpr.WellFormed →
      ∀ (r : Rule) (text : String), (r.check a).bind Report.fix = some text →
        ∃ d, r.draft? a = some d ∧ d.print = text ∧ d.call.toExpr.WellFormed ∧
          parse d.call.toExpr.kinded = some d.call.toExpr.bare := by
  refine ⟨spaced_kinded 1, fun e => WellFormed.parse_kinded, fun e e' first second same => ?_,
    fun ts e => parse_eq_some_iff, ?_⟩
  · have read := second.parse_kinded
    rw [← same, first.parse_kinded] at read
    exact Option.some.inj read
  · intro style o seen copy a recognized wellFormed r text suggested
    rw [Rule.fix_check] at suggested
    obtain ⟨d, drafted, printed⟩ := Option.map_eq_some_iff.mp suggested
    have again : d.call.toExpr.WellFormed := Rule.wellFormed_draft? recognized wellFormed drafted
    exact ⟨d, drafted, printed, again, again.parse_kinded⟩

/-- `a+b*c` out of a file. -/
def numberedSum : Expr :=
  .binary ⟨4, {}⟩ (.ident ⟨⟨5, {}⟩, "a"⟩) .add
    (.binary ⟨6, {}⟩ (.ident ⟨⟨7, {}⟩, "b"⟩) .mul (.ident ⟨⟨8, {}⟩, "c"⟩))

/-- `Expect(a+b*c == -d).To(BeTrue())` -/
def comparedSum : Call where
  callee :=
    .selector {}
      (.call {} (.named "Expect")
        [.binary {} numberedSum .eq (.unary {} .neg (.named "d"))] false)
      { name := "To" }
  args := [.call {} (.named "BeTrue") [] false]

theorem print_unambiguous_comparedSum :
    numberedSum.WellFormed ∧ parse numberedSum.kinded = some numberedSum.bare ∧
      comparedSum.toExpr.WellFormed ∧
      ∃ a, Assertion.of? .dot (fun _ => none) comparedSum comparedSum = some a ∧
        ∃ d, Rule.compareAssertion.draft? a = some d ∧ d.print = "Expect(a + b*c).To(Equal(-d))" ∧
          d.call.toExpr.WellFormed := by
  obtain ⟨-, readBack, -, -, fixes⟩ := print_unambiguous
  have sum : numberedSum.WellFormed := by
    refine .binary _ (.ident _) (.binary _ (.ident _) (.ident _) ?_ ?_) ?_ ?_ <;>
      simp [precedence?, BinaryOp.precedence]
  have comparison : (binary {} numberedSum .eq (.unary {} .neg (.named "d"))).WellFormed := by
    refine .binary _ sum (.unary _ _ (.ident _) rfl) ?_ ?_ <;>
      simp [numberedSum, precedence?, BinaryOp.precedence]
  have compared : comparedSum.toExpr.WellFormed := by
    refine .call _ _ (.selector _ _ (.call _ _ (.ident _) rfl ?_) rfl) rfl ?_
    · simpa using comparison
    · exact List.forall_mem_singleton.mpr
        (ImportStyle.dot.wellFormed_matcher "BeTrue" (List.forall_mem_nil _))
  refine ⟨sum, readBack _ sum, compared, _, rfl, ?_⟩
  obtain ⟨d, drafted, printed, again, -⟩ := fixes .dot (fun _ => none) comparedSum comparedSum _ rfl
    compared .compareAssertion "Expect(a + b*c).To(Equal(-d))" (by decide +kernel)
  exact ⟨d, drafted, printed, again⟩

end Expr

end GomegaLint
