import Mathlib
import GomegaLint.Proofs.OneFix
import GomegaLint.Proofs.Spreading.Edits

/-!
# Spread arguments in fixes

The last argument of a call may be spread: it is then a list, and its elements are what is
passed.  A fix puts parts of an assertion into other calls, and an argument that was spread must
not arrive there as one value.

* `Rule.changes?_kept`: what the rules bring in may stand as plain arguments, with two exceptions.
* `Rule.Unspreads`: the exceptions.  A new matcher for a size takes over an argument of the old
  one and does not look at its ellipsis; `HaveValue` goes around a matcher that may be spread
  itself.
* `Assertion.fix_unspreads_iff`: a fix passes a spread argument as one value exactly there.
-/

namespace GomegaLint

variable {before : List (Slot × Expr)}

/-! ## What rules bring in -/

/-- A matcher call that is built around plain arguments. -/
theorem ImportStyle.matcher_kept (style : ImportStyle) (name : String) {args : List Expr}
    (kept : ∀ e ∈ args, e.Kept before .argument) (slot : Slot) :
    (style.matcher name args).toExpr.Kept before slot := by
  have named : ∀ n, (Expr.named n).Kept before .other :=
    fun n => ⟨.inl rfl, by simp [Expr.named, Expr.inner]⟩
  refine Expr.kept_call.mpr ⟨.inl rfl, ?_, Expr.keptArgs_of_forall kept⟩
  cases style with
  | dot => exact named name
  | named package => exact Expr.kept_selector.mpr ⟨.inl rfl, named package⟩

theorem Expr.literal_kept (kind : LiteralKind) (value : String) (slot : Slot) :
    (Expr.literal {} kind value).Kept before slot :=
  ⟨.inl rfl, by simp [Expr.inner]⟩

theorem Twin.eq_of_same {t : Twin} (same : t.copy = t.seen) : t = ⟨t.seen, t.seen⟩ := by
  obtain ⟨seen, copy⟩ := t
  cases same
  rfl

namespace Assertion.Located

variable {call : Call} {a : Assertion}

/-- Where the copy is the assertion itself, the subject is read off the classified argument. -/
theorem reads (located : a.Located call call) :
    a.actual.subject.Reads a.oracle a.actual.arg.seen := by
  have classified := located.subject
  rw [Twin.eq_of_same (located.copy_eq rfl).2.1] at classified
  exact Subject.of?_reads classified

theorem arg_inside (located : a.Located call call) :
    a.actual.arg.seen.inner ⊆ call.toExpr.inner := by
  obtain ⟨x, receiver, found⟩ := Option.bind_eq_some_iff.mp located.seenActual
  obtain ⟨s, isSelector, rfl⟩ := Option.map_eq_some_iff.mp receiver
  obtain ⟨o, callee, args, spread⟩ := call
  cases callee with
  | selector so x m =>
      cases isSelector
      have receiver : x.StandsIn (Expr.call o (.selector so x m) args spread).inner .other :=
        Expr.standsIn_selected (Expr.standsIn_callee (List.Subset.refl _)).inside
      exact (Expr.standsIn_arg (receiver.under? found).inside located.seenArg).inside
  | _ => cases isSelector

theorem matcher_standsIn (located : a.Located call call) {m : Matcher}
    (matched : a.matcher = some m) :
    ∃ slot, m.call.copy.toExpr.StandsIn call.toExpr.inner slot := by
  obtain ⟨t, first, found⟩ := Option.bind_eq_some_iff.mp (located.copyMatcher m matched)
  rw [List.head?_eq_getElem?] at first
  exact (Expr.standsIn_arg (List.Subset.refl _) first).inside? found

end Assertion.Located

namespace Rule

variable {call : Call} {a : Assertion} {m : Matcher} {cs : List Change}

/-- The fix of a rule passes what was spread as one value: a new matcher for a size has the last
argument of the old one, which was spread, or `HaveValue` is put around a matcher that is itself
a spread argument. -/
def Unspreads (r : Rule) (a : Assertion) : Prop :=
  ∃ m, a.matcher = some m ∧
    ((∃ f c arg new turns, r = ofSize f ∧ a.actual.subject = .size f c arg ∧
        sizeCheck? a m f = some (new, turns) ∧ new.args ≠ [] ∧
        m.call.copy.spread = true ∧ m.call.copy.args ≠ []) ∨
      (r = comparePointerValue ∧ m.call.copy.toExpr ∈ a.call.copy.spreadArgs))

/-- What a new matcher for a size may be passed: nothing, the zero that the old one left unsaid, or
the last argument of the old one. -/
def PassesOn (m : Matcher) (args : List Expr) : Prop :=
  args = [] ∨ (args = [Expr.intLiteral "0"] ∧ m.call.copy.args = []) ∨
    ∃ index e, index + 1 = m.call.copy.args.length ∧ m.call.copy.args[index]? = some e ∧ args = [e]

theorem sizeCheck?_passesOn {f : SizeFunction} {new : Call} {turns : Bool}
    (same : m.call.copy = m.call.seen) (checked : sizeCheck? a m f = some (new, turns)) :
    ∃ name args, new = a.style.matcher name args ∧ PassesOn m args := by
  have count : m.argCount = m.call.copy.args.length := by rw [same]; rfl
  obtain ⟨name, args, built, passed⟩ := (sizeChecked_of_sizeCheck? checked).passes
  rw [count] at passed
  refine ⟨name, args, built, passed.imp_right (Or.imp (fun zero => ?_) fun last => ?_)⟩
  · exact ⟨zero.1, List.length_eq_zero_iff.mp zero.2⟩
  · obtain ⟨index, t, isLast, found, one⟩ := last
    exact ⟨index, t.copy, isLast.symm, (CallTwin.getElem?_of_arg? found).2, one⟩

theorem sizeComparisonCheck?_kept {style : ImportStyle} {f : SizeFunction} {op : BinaryOp}
    {v : Value} {new : Call} {opposite : Bool} (kept : v.twin.copy.Kept before .argument)
    (checked : sizeComparisonCheck? style f op v = some (new, opposite)) :
    new.toExpr.Kept before .argument := by
  obtain ⟨name, args, rfl, passed⟩ := sizeComparisonCheck?_passes checked
  refine ImportStyle.matcher_kept style name (fun e member => ?_) _
  rcases passed e member with rfl | rfl
  · exact kept
  · exact Expr.literal_kept .int "0" .argument

theorem comparisonCheck?_kept {style : ImportStyle} {left right : Value} {op : BinaryOp}
    {new : Call} {opposite : Bool} (kept : right.twin.copy.Kept before .argument)
    (checked : comparisonCheck? style left op right = some (new, opposite)) :
    new.toExpr.Kept before .argument := by
  obtain ⟨name, args, rfl, passed⟩ := comparisonCheck?_passes checked
  refine ImportStyle.matcher_kept style name (fun e member => ?_) _
  rcases passed e member with rfl | rfl
  · exact kept
  · exact Expr.literal_kept .string _ .argument

theorem restatement_kept {e : Expr} {new : Call} (moved : e.Kept before .argument)
    (built : new.toExpr.Kept before .argument) (negative : Bool) :
    ∀ change ∈ restatement e new negative, change.Kept before := by
  simp only [restatement, List.forall_mem_cons, List.not_mem_nil, false_implies, implies_true,
    Change.Kept, and_true]
  exact ⟨moved, built⟩

theorem errorStatement_kept (v : Value) (expectsNil : Bool) :
    ∀ change ∈ errorStatement a v expectsNil, change.Kept before := by
  have built : ∀ name, (a.style.matcher name []).toExpr.Kept before .argument :=
    fun name => ImportStyle.matcher_kept _ name (by simp) _
  unfold errorStatement
  split <;> simpa [Change.Kept] using built _

/-! ## Rules -/

section

variable (located : a.Located call call)

include located

/-- The new matcher for a size. -/
theorem sizeCheck?_kept {f : SizeFunction} {c : CallTwin} {arg : Twin} {new : Call} {turns : Bool}
    (matched : a.matcher = some m) (subject : a.actual.subject = .size f c arg)
    (checked : sizeCheck? a m f = some (new, turns)) (still : ¬ (ofSize f).Unspreads a) :
    new.toExpr.Kept call.toExpr.inner .argument := by
  obtain ⟨slot, stands⟩ := located.matcher_standsIn matched
  obtain ⟨name, args, rfl, passed⟩ :=
    sizeCheck?_passesOn ((located.copy_eq rfl).2.2 m matched) checked
  refine ImportStyle.matcher_kept _ name ?_ _
  rcases passed with rfl | ⟨rfl, -⟩ | ⟨index, e, last, found, rfl⟩
  · simp
  · rw [List.forall_mem_singleton]
    exact Expr.literal_kept .int "0" .argument
  · have plain : m.call.copy.spread = false := by
      rw [← Bool.not_eq_true]
      intro spread
      refine still ⟨m, matched, .inl ⟨f, c, arg, _, turns, rfl, subject, checked, ?_, spread, ?_⟩⟩
      · simp [ImportStyle.matcher]
      · exact List.ne_nil_of_length_pos (by omega)
    have standing := Expr.standsIn_arg stands.inside found
    rw [plain] at standing
    rw [List.forall_mem_singleton]
    exact standing.kept (by simp [Slot.ofArgument]) .argument

theorem size_kept {f : SizeFunction} {c : CallTwin} {arg : Twin}
    (subject : a.actual.subject = .size f c arg) :
    arg.copy.Kept call.toExpr.inner .argument := by
  have reads := located.reads
  have inside := located.arg_inside
  rw [subject] at reads
  obtain ⟨same, origin, callee, shape, -⟩ := reads
  rw [shape] at inside
  rw [same]
  exact (Expr.standsIn_of_mem inside List.mem_cons_self).kept (by decide) .argument

theorem sizeComparison_kept {f : SizeFunction} {c : CallTwin} {arg : Twin} {op : BinaryOp}
    {right : Value} (subject : a.actual.subject = .sizeComparison f c arg op right) :
    arg.copy.Kept call.toExpr.inner .argument ∧
      right.twin.copy.Kept call.toExpr.inner .argument := by
  have reads := located.reads
  rw [subject] at reads
  obtain ⟨same, origin, callee, y, rfl, -, compares⟩ := reads
  obtain ⟨left, operand⟩ := compares.standsIn located.arg_inside
  refine ⟨?_, operand.kept (by decide) .argument⟩
  rw [same]
  exact (Expr.standsIn_of_mem left.inside List.mem_cons_self).kept (by decide) .argument

theorem comparison_kept {left right : Value} {op : BinaryOp}
    (subject : a.actual.subject = .comparison left op right) :
    left.twin.copy.Kept call.toExpr.inner .argument ∧
      right.twin.copy.Kept call.toExpr.inner .argument := by
  have reads := located.reads
  rw [subject] at reads
  obtain ⟨x, y, rfl, rfl, compares⟩ := reads
  obtain ⟨left, operand⟩ := compares.standsIn located.arg_inside
  exact ⟨left.kept (by decide) .argument, operand.kept (by decide) .argument⟩

theorem nilComparison_kept {left right : Value} {op : BinaryOp}
    (subject : a.actual.subject = .nilComparison left op right) :
    left.twin.copy.Kept call.toExpr.inner .argument := by
  have reads := located.reads
  rw [subject] at reads
  obtain ⟨x, y, rfl, rfl, -, compares⟩ := reads
  exact (compares.standsIn located.arg_inside).1.kept (by decide) .argument

/-- The rule about asynchronous assertions looks for an ellipsis before it moves arguments. -/
theorem passed_kept {o : Origin} {f : Expr} {args : List Expr}
    (isCall : a.actual.arg.copy = .call o f args false) :
    ∀ change ∈ (.actualArg f :: if args.isEmpty then [] else [Change.chain "WithArguments" args]),
      change.Kept call.toExpr.inner := by
  have inside := located.arg_inside
  rw [← (located.copy_eq rfl).2.1, isCall] at inside
  rw [List.forall_mem_cons]
  refine ⟨(Expr.standsIn_callee inside).kept (by decide) .argument, ?_⟩
  split
  · simp
  · rw [List.forall_mem_singleton]
    exact fun e member => (Expr.standsIn_of_mem inside member).kept (by decide) .argument

theorem pointer_kept (matched : a.matcher = some m) (still : ¬ comparePointerValue.Unspreads a) :
    (a.style.wrapper "HaveValue" m.call.copy).toExpr.Kept call.toExpr.inner .argument := by
  obtain ⟨slot, stands⟩ := located.matcher_standsIn matched
  have plain : slot ≠ .spread := by
    rintro rfl
    refine still ⟨m, matched, .inr ⟨rfl, ?_⟩⟩
    rw [located.call_eq]
    exact Call.mem_inSlot.mpr stands.here
  exact ImportStyle.matcher_kept _ _ (by simpa using stands.kept plain .argument) _

/-- **What rules bring in** may stand as plain arguments, with the two exceptions. -/
theorem changes?_kept {r : Rule} (decided : r.changes? a = some cs) (still : ¬ r.Unspreads a) :
    ∀ change ∈ cs, change.Kept call.toExpr.inner := by
  have isNil : (a.style.matcher "BeNil" []).toExpr.Kept call.toExpr.inner .argument :=
    ImportStyle.matcher_kept _ _ (by simp) _
  cases changes?_eq_some_iff.mp decided with
  | @size m f c arg new turns matched subject checked =>
      rw [List.forall_mem_cons, List.forall_mem_cons]
      refine ⟨size_kept located subject, sizeCheck?_kept located matched subject checked still, ?_⟩
      cases turns <;> simp [Change.Kept]
  | sizeComparison matched subject asked checked =>
      obtain ⟨moved, operand⟩ := sizeComparison_kept located subject
      exact restatement_kept moved (sizeComparisonCheck?_kept operand checked) _
  | comparison matched subject asked checked =>
      obtain ⟨moved, operand⟩ := comparison_kept located subject
      exact restatement_kept moved (comparisonCheck?_kept operand checked) _
  | nilComparison matched subject =>
      exact restatement_kept (nilComparison_kept located subject) isNil _
  | equalNil => simpa [Change.Kept] using isNil
  | error => exact errorStatement_kept _ _
  | errorComparison matched subject =>
      rw [List.forall_mem_cons]
      exact ⟨nilComparison_kept located subject, errorStatement_kept _ _⟩
  | passed late noSize isCall => exact passed_kept located isCall
  | pointer matched => simpa [Change.Kept] using pointer_kept located matched still

end

/-! ## The exceptions -/

/-- The matcher that was put in place of the innermost one. -/
theorem matcherPlace?_of_made {actual : Expr} {old new : Call} {method : Method} {offset : Nat}
    {d d' : Draft} (turns : Bool) (places : d.Places actual (some old) method)
    (made : (.innerMatcher new :: if turns then [Change.reverse] else []).foldlM
      (Change.make? offset) d = some d') : d'.matcherPlace? = some new := by
  obtain ⟨d₁, replaced, places₁⟩ := places.setInnerMatcher new
  obtain ⟨d₂, reversed, places₂⟩ := places₁.reverse
  rw [List.foldlM_cons, Change.make?, replaced] at made
  cases turns with
  | false =>
      cases made
      exact places₁.matcher_eq
  | true =>
      simp only [if_true, List.foldlM_cons, Change.make?, List.foldlM_nil, Option.bind_eq_bind,
        Option.bind_some, reversed, Option.pure_def, Option.some.injEq] at made
      subst made
      exact places₂.matcher_eq

/-- The arguments of the innermost matcher are arguments inside the assertion. -/
theorem mem_plainArgs_of_matcherPlace? {d : Draft} {new : Call} {e : Expr}
    (placed : d.matcherPlace? = some new) (plain : new.spread = false) (passed : e ∈ new.args) :
    e ∈ d.call.plainArgs := by
  obtain ⟨t, first, found⟩ := Option.bind_eq_some_iff.mp placed
  rw [List.head?_eq_getElem?] at first
  obtain ⟨slot, stands⟩ := (Expr.standsIn_arg (List.Subset.refl _) first).inside? found
  have inside := stands.inside
  rw [Call.toExpr, plain] at inside
  exact Call.mem_inSlot.mpr (Expr.standsIn_of_mem inside passed).here

/-- In the exceptions something that was spread is a plain argument of the fix. -/
theorem Unspreads.moves {r : Rule} {d : Draft} (moves : r.Unspreads a)
    (located : a.Located call call) (drafted : r.draft? a = some d) :
    ∃ e ∈ call.spreadArgs, e ∈ d.call.plainArgs := by
  obtain ⟨m, matched, moves⟩ := moves
  obtain ⟨slot, stands⟩ := located.matcher_standsIn matched
  have places := located.places
  rw [located.matcherPlace?_eq matched] at places
  rw [draft?_eq_applyAll?] at drafted
  obtain ⟨cs, decided, made⟩ := Option.bind_eq_some_iff.mp drafted
  rcases moves with ⟨f, c, arg, new, turns, rfl, subject, checked, passes, spread, some_arg⟩ |
    ⟨isPointer, isSpread⟩
  · have decides := changes?_eq_some_iff.mpr (.size matched subject checked)
    obtain rfl := Option.some.inj (decided.symm.trans decides)
    have inside := (List.getElem?_eq_some_iff.mp located.copyArg).1
    obtain ⟨d₁, moved, places₁⟩ := places.setActualArg inside arg.copy
    rw [applyAll?, List.foldlM_cons, Change.make?, moved] at made
    have placed := matcherPlace?_of_made turns places₁ made
    obtain ⟨name, args, rfl, passed⟩ :=
      sizeCheck?_passesOn ((located.copy_eq rfl).2.2 m matched) checked
    rcases passed with rfl | ⟨-, none_left⟩ | ⟨index, e, last, found, rfl⟩
    · exact absurd rfl passes
    · exact absurd none_left some_arg
    · have standing := Expr.standsIn_arg stands.inside found
      rw [Slot.ofArgument_eq_spread.mpr ⟨spread, List.drop_eq_nil_iff.mpr (by omega)⟩] at standing
      exact ⟨e, Call.mem_inSlot.mpr standing.here,
        mem_plainArgs_of_matcherPlace? placed rfl List.mem_cons_self⟩
  · rw [located.call_eq] at isSpread
    refine ⟨m.call.copy.toExpr, isSpread, ?_⟩
    cases changes?_eq_some_iff.mp decided with
    | pointer matched' =>
        obtain rfl := Option.some.inj (matched'.symm.trans matched)
        have placed := matcherPlace?_of_made false places made
        exact mem_plainArgs_of_matcherPlace? placed rfl List.mem_cons_self
    | @size _ f | @sizeComparison _ f => cases f <;> cases isPointer
    | _ => cases isPointer

end Rule

namespace Assertion

/-- **Where fixes pass what was spread as one value.**  The expressions inside an assertion of a
file come from different syntax nodes, so that each of them is known again in a fix.  Take an
assertion of which this holds, and any oracle.  The fix of a rule is the text of a draft, and
something that is spread in the assertion is an argument without an ellipsis in the draft exactly
in the two cases of `Rule.Unspreads`. -/
theorem fix_unspreads_iff (style : ImportStyle) (o : Oracle) :
    (∀ (root n : Node) (c : Call), n ∈ root.numbered.preorder → n.toCall? = some c →
      c.Identified) ∧
    ∀ call a, Assertion.of? style o call call = some a → call.Identified →
      ∀ (r : Rule) (text : String), (r.check a).bind Report.fix = some text →
        ∃ d, r.draft? a = some d ∧ d.print = text ∧
          ((∃ e ∈ call.spreadArgs, ∃ p ∈ d.call.plainArgs, p.id = e.id) ↔ r.Unspreads a) := by
  refine ⟨fun root n c => Node.toCall?_identified, ?_⟩
  intro call a recognized identified r text fixed
  have located := Assertion.of?_located recognized
  rw [Rule.fix_check] at fixed
  obtain ⟨d, drafted, printed⟩ := Option.map_eq_some_iff.mp fixed
  refine ⟨d, drafted, printed, ?_, fun moves => ?_⟩
  · rintro ⟨e, isSpread, p, isPlain, same⟩
    by_contra still
    rw [Call.spreadArgs, Call.mem_inSlot] at isSpread
    rw [Call.plainArgs, Call.mem_inSlot] at isPlain
    have whole : a.draft.Kept call.toExpr.inner := by
      intro x member
      rw [Assertion.draft, located.call_eq] at member
      exact .inr ⟨x, member, rfl, fun isSpread => isSpread⟩
    rw [Rule.draft?_eq_applyAll?] at drafted
    obtain ⟨cs, decided, made⟩ := Option.bind_eq_some_iff.mp drafted
    have kept := Change.foldlM_kept (Rule.changes?_kept located decided still) made whole
    rcases kept _ isPlain with built | ⟨x, member, known, isStill⟩
    · exact identified.2 (List.mem_map.mpr ⟨_, isSpread, same.symm.trans built⟩)
    · -- No other expression of the assertion has this identity.
      obtain rfl : x = (.spread, e) :=
        List.inj_on_of_nodup_map identified.1 member isSpread (known.trans same)
      cases isStill rfl
  · obtain ⟨e, isSpread, isPlain⟩ := moves.moves located drafted
    exact ⟨e, isSpread, e, isPlain, rfl⟩

/-- A name read from the node with an identity. -/
def nameFrom (id : Nat) (name : String) : Expr := .ident ⟨{ id }, name⟩

/-- A call read from the node with an identity. -/
def callFrom (id : Nat) (callee : Expr) (args : List Expr) (spread : Bool := false) : Expr :=
  .call { id } callee args spread

/-- `Expect(len(x)).To(matcher)` -/
def onLength (matcher : Expr) : Call where
  origin := { id := 1 }
  callee :=
    .selector { id := 2 }
      (callFrom 3 (nameFrom 4 "Expect") [callFrom 5 (nameFrom 6 "len") [nameFrom 7 "x"]])
      { name := "To" }
  args := [matcher]

/-- `Expect(len(x)).To(Equal(count(sizes...)))` -/
def countedSizes : Call :=
  onLength (callFrom 8 (nameFrom 9 "Equal")
    [callFrom 10 (nameFrom 11 "count") [nameFrom 12 "sizes"] true])

/-- `Expect(len(x)).To(BeNumerically("==", sizes...))` -/
def spreadSizes : Call :=
  onLength (callFrom 8 (nameFrom 9 "BeNumerically")
    [.literal { id := 10 } .string "\"==\"", nameFrom 11 "sizes"] true)

/-- A spread argument deeper inside the matcher is still spread in the fix. -/
theorem fix_unspreads_countedSizes :
    ∃ a, Assertion.of? .dot (fun _ => none) countedSizes countedSizes = some a ∧
      countedSizes.Identified ∧ countedSizes.spreadArgs = [nameFrom 12 "sizes"] ∧
      ∃ d, Rule.lenAssertion.draft? a = some d ∧
        d.print = "Expect(x).To(HaveLen(count(sizes...)))" ∧
        ¬ ∃ e ∈ countedSizes.spreadArgs, ∃ p ∈ d.call.plainArgs, p.id = e.id := by
  obtain ⟨-, unspreads⟩ := fix_unspreads_iff .dot fun _ => none
  refine ⟨_, rfl, by decide, rfl, ?_⟩
  obtain ⟨d, drafted, printed, moves⟩ :=
    unspreads countedSizes _ rfl (by decide) .lenAssertion _ rfl
  refine ⟨d, drafted, printed.trans (by rfl), ?_⟩
  rw [moves]
  rintro ⟨m, matched, ⟨_, _, _, _, _, -, -, -, -, spread, -⟩ | ⟨isPointer, -⟩⟩
  · cases matched
    cases spread
  · cases isPointer

/-- The size that is compared with is spread, and is one value in the fix. -/
theorem spreadSizes_unspread :
    ∃ a, Assertion.of? .dot (fun _ => none) spreadSizes spreadSizes = some a ∧
      spreadSizes.Identified ∧ spreadSizes.spreadArgs = [nameFrom 11 "sizes"] ∧
      (Rule.lenAssertion.check a).bind Report.fix = some "Expect(x).To(HaveLen(sizes))" ∧
      ∃ d, Rule.lenAssertion.draft? a = some d ∧ d.print = "Expect(x).To(HaveLen(sizes))" ∧
        d.call.plainArgs = [nameFrom 7 "x",
          (ImportStyle.dot.matcher "HaveLen" [nameFrom 11 "sizes"]).toExpr, nameFrom 11 "sizes"] :=
  ⟨_, rfl, by decide, rfl, rfl, _, rfl, rfl, rfl⟩

end Assertion

end GomegaLint
