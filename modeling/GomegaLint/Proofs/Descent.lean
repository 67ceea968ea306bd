import Mathlib
import GomegaLint.Proofs.Meaning.Retrace

/-!
# Repeated fixing ends

A fixed assertion may be reported again: a comparison becomes an `Equal(nil)`, and
that a `BeNil()`.  Some fixes make the assertion larger, as `HaveValue` around the
matcher does and a call of `WithArguments` on the actual value, so its size is no
measure.  What does get smaller is

* the arguments of the call of the actual value (`Assertion.Shrinks`), or
* with these left alone, the rank of the matcher (`Assertion.Simplifies`): a matcher
  that may compare with `nil` becomes one that is about `nil` or the value itself,
  and that one no rule replaces.

Every fix does one of the two (`Rule.shrinks_or_simplifies`), so that the weight of
an assertion drops with each (`Call.weight_lt_of_fixes`).  `fixes_terminate` bounds a
chain of fixes by the size of the arguments it begins with.
-/

namespace GomegaLint

/-! ## Counting nodes -/

mutual

/-- The number of nodes of an expression. -/
def Expr.nodes : Expr → Nat
  | .ident _ | .literal .. | .verbatim .. => 1
  | .selector _ x _ | .unary _ _ x | .star _ x | .paren _ x => x.nodes + 1
  | .call _ f args _ => f.nodes + Expr.nodesOf args + 1
  | .binary _ x _ y => x.nodes + y.nodes + 1

/-- The number of nodes of some expressions. -/
def Expr.nodesOf : List Expr → Nat
  | [] => 0
  | e :: es => e.nodes + Expr.nodesOf es

end

theorem Expr.nodes_pos (e : Expr) : 0 < e.nodes := by
  cases e <;> simp [Expr.nodes]

theorem Expr.nodesOf_set {es : List Expr} {index : Nat} {old : Expr}
    (found : es[index]? = some old) (new : Expr) :
    Expr.nodesOf (es.set index new) + old.nodes = Expr.nodesOf es + new.nodes := by
  induction es generalizing index with
  | nil => simp at found
  | cons e es ih =>
      cases index with
      | zero =>
          rw [List.getElem?_cons_zero, Option.some.injEq] at found
          subst found
          simp only [List.set_cons_zero, Expr.nodesOf]
          omega
      | succ index =>
          have rest := ih (List.getElem?_cons_succ ▸ found)
          simp only [List.set_cons_succ, Expr.nodesOf]
          omega

/-- An operand is smaller than the comparison. -/
theorem Expr.Compares.nodes_lt {e x y : Expr} {op : BinaryOp} (compares : e.Compares x op y) :
    x.nodes < e.nodes := by
  obtain ⟨origin, op', -, ⟨rfl, -⟩ | ⟨rfl, -⟩⟩ := compares <;> rw [Expr.nodes] <;> omega

/-! ## What a fix makes smaller -/

/-- How much may still become of a matcher with this name: two for one that may
compare with `nil`, one for others that are replaced, zero for those that stay. -/
def matcherRank : Option String → Nat
  | some "Equal" | some "BeEquivalentTo" => 2
  | some "BeNil" | some "BeTrue" | some "BeFalse" | some "BeIdenticalTo" | some "BeNumerically" => 1
  | _ => 0

theorem matcherRank_le_two (name : Option String) : matcherRank name ≤ 2 := by
  unfold matcherRank
  split <;> omega

/-- In the call, the arguments of the call of the actual value have fewer nodes. -/
def Assertion.Shrinks (a : Assertion) (c : Call) : Prop :=
  ∃ x n taking, c.receiver? = some x ∧ UnderHelpers taking n x ∧
    taking.callee = a.actual.call.seen.callee ∧
    Expr.nodesOf taking.args < Expr.nodesOf a.actual.call.seen.args

/-- In the call, the actual value is what it was and the matcher has a lower rank. -/
def Assertion.Simplifies (a : Assertion) (c : Call) : Prop :=
  c.receiver? = a.draft.call.receiver? ∧
    matcherRank ((c.matcher? a.style).map Matcher.name) < matcherRank a.matcherName?

section

variable {style : ImportStyle} {o : Oracle} {call : Call} {a : Assertion} {x value : Expr}
  {d d₁ : Draft}

/-- A part of the actual value in its place. -/
theorem Assertion.Traced.moves (traced : Assertion.Traced style o call a x value) {e : Expr}
    (moved : a.draft.setActualArg a.actual.offset e = some d₁) (smaller : e.nodes < value.nodes) :
    ∃ x' taking, d₁.call.receiver? = some x' ∧ UnderHelpers taking d₁.actualDepth x' ∧
      taking.callee = a.actual.call.seen.callee ∧
      Expr.nodesOf taking.args < Expr.nodesOf a.actual.call.seen.args := by
  have receiver : a.draft.call.receiver? = some x := traced.draft_eq ▸ traced.receiver
  have inside : a.actual.offset < a.actual.call.seen.args.length :=
    List.getElem?_eq_some_iff.mp traced.arg |>.1
  obtain ⟨x', receiver', under⟩ := Draft.receiver?_setActualArg receiver traced.under inside moved
  have counted := Expr.nodesOf_set traced.arg e
  exact ⟨x', _, receiver', under, rfl, by dsimp only; omega⟩

/-- A whole matcher in place of the old one. -/
theorem Call.matcher?_setMatcher {name : String} {args : List Expr} (notNot : name ≠ "Not")
    (edited : d.setMatcher (style.matcher name args) = some d₁) :
    (d₁.call.matcher? style).map Matcher.name = some name := by
  unfold Draft.setMatcher at edited
  split at edited <;> cases edited
  have named := style.matcherOf?_functionExpr name
  simp [Call.matcher?,
    Matcher.find?_of_ne_not 0 (c := style.matcher name args) named notNot]

/-- A new innermost matcher under the wrappers of the old one. -/
theorem Assertion.Traced.matcher?_setInnerMatcher
    (traced : Assertion.Traced style o call a x value) {m : Matcher} {name : String}
    {args : List Expr} (matched : a.matcher = some m) (notNot : name ≠ "Not")
    (edited : a.draft.setInnerMatcher (style.matcher name args) = some d) :
    (d.call.matcher? style).map Matcher.name = some name := by
  have named := style.matcherOf?_functionExpr name
  have found := traced.matcher_eq.symm.trans matched
  have depth : a.draft.notDepth = m.notDepth := by simp [Assertion.draft, matched]
  unfold Draft.setInnerMatcher Draft.editMatcher at edited
  rw [traced.draft_eq, depth] at edited
  split at edited
  · rename_i t rest args_eq
    obtain ⟨t', inside, rfl⟩ := Option.map_eq_some_iff.mp edited
    simp only [Call.matcher?, args_eq, List.getElem?_cons_zero, Option.bind_some] at found
    obtain ⟨co, f, targs, s, rfl, -⟩ := Matcher.matcherOf?_of_find? found
    obtain ⟨n, counts, again⟩ :=
      Matcher.find?_editInside (style.matcher name args) named notNot ⟨co, f, targs, s⟩ found
    rw [Nat.zero_add] at counts
    subst counts
    simp [Call.matcher?, again t' inside]
  · cases edited

theorem Assertion.Traced.simplifies_of_setMatcher
    (traced : Assertion.Traced style o call a x value) {name : String} {args : List Expr}
    {negative : Bool} (notNot : name ≠ "Not")
    (lower : matcherRank (some name) < matcherRank a.matcherName?)
    (replaced : a.draft.setMatcher (style.matcher name args) = some d₁)
    (turned : d₁.setNegative negative = some d) : a.Simplifies d.call := by
  obtain ⟨receiver, args_eq⟩ := Draft.receiver?_setNegative turned
  refine ⟨receiver.trans (Draft.receiver?_setMatcher replaced), ?_⟩
  rw [traced.style_eq, Call.matcher?, args_eq, ← Call.matcher?,
    Call.matcher?_setMatcher notNot replaced]
  exact lower

theorem Assertion.Traced.simplifies_of_setInnerMatcher
    (traced : Assertion.Traced style o call a x value) {m : Matcher} {name : String}
    {args : List Expr} (matched : a.matcher = some m) (notNot : name ≠ "Not")
    (lower : matcherRank (some name) < matcherRank (some m.name))
    (edited : a.draft.setInnerMatcher (style.matcher name args) = some d) :
    a.Simplifies d.call := by
  refine ⟨Draft.receiver?_setInnerMatcher edited, ?_⟩
  rw [traced.style_eq, traced.matcher?_setInnerMatcher matched notNot edited,
    Assertion.matcherName?, matched]
  exact lower

/-! ## Changes behind the first -/

/-- The change leaves the actual value as it is. -/
def Change.keepsActual : Change → Bool
  | .actualArg _ | .chain .. => false
  | .matcher _ | .innerMatcher _ | .reverse | .negative _ => true

theorem Change.receiver?_make? {change : Change} {offset : Nat} (keeps : change.keepsActual = true)
    (made : change.make? offset d = some d₁) : d₁.call.receiver? = d.call.receiver? := by
  cases change with
  | actualArg | chain => cases keeps
  | matcher new => exact Draft.receiver?_setMatcher made
  | innerMatcher new => exact Draft.receiver?_setInnerMatcher made
  | reverse => exact (Draft.receiver?_reverse made).1
  | negative b => exact (Draft.receiver?_setNegative made).1

theorem Change.receiver?_makeAll {cs : List Change} {offset : Nat}
    (keep : cs.all Change.keepsActual = true)
    (made : cs.foldlM (Change.make? offset) d = some d₁) :
    d₁.call.receiver? = d.call.receiver? := by
  induction cs generalizing d with
  | nil =>
      cases made
      rfl
  | cons change cs ih =>
      obtain ⟨first, others⟩ := Bool.and_eq_true_iff.mp keep
      rw [List.foldlM_cons] at made
      obtain ⟨d', once, made⟩ := Option.bind_eq_some_iff.mp made
      exact (ih others made).trans (Change.receiver?_make? first once)

/-- A smaller argument shrinks the assertion, whatever is done to the matcher and the
polarity behind it. -/
theorem Assertion.Traced.shrinks (traced : Assertion.Traced style o call a x value) {e : Expr}
    {cs : List Change} (smaller : e.nodes < value.nodes)
    (keep : cs.all Change.keepsActual = true)
    (made : Rule.applyAll? a (.actualArg e :: cs) = some d) : a.Shrinks d.call := by
  rw [Rule.applyAll?, List.foldlM_cons] at made
  obtain ⟨d₁, moved, made⟩ := Option.bind_eq_some_iff.mp made
  obtain ⟨x', taking, receiver, under, callee, fewer⟩ := traced.moves moved smaller
  exact ⟨x', _, taking, (Change.receiver?_makeAll keep made).trans receiver, under, callee, fewer⟩

namespace Rule

/-! ## One lemma for each kind of decision that needs one -/

/-- The argument of a size is smaller than the comparison of the size. -/
theorem nodes_lt_of_sizeComparison {f : SizeFunction} {sizeCall : CallTwin} {arg : Twin}
    {op : BinaryOp} {right : Value} (traced : Assertion.Traced style o call a x value)
    (subject : a.actual.subject = .sizeComparison f sizeCall arg op right) :
    arg.copy.nodes < value.nodes := by
  have reads := traced.reads
  rw [subject] at reads
  obtain ⟨same, origin, callee, y, -, -, compares⟩ := reads
  have smaller := compares.nodes_lt
  simp only [Expr.nodes, Expr.nodesOf] at smaller
  rw [same]
  omega

theorem nodes_lt_of_size {f : SizeFunction} {sizeCall : CallTwin} {arg : Twin}
    (traced : Assertion.Traced style o call a x value)
    (subject : a.actual.subject = .size f sizeCall arg) : arg.copy.nodes < value.nodes := by
  have reads := traced.reads
  rw [subject] at reads
  obtain ⟨same, origin, callee, rfl, -⟩ := reads
  simp only [same, Expr.nodes, Expr.nodesOf]
  omega

theorem nodes_lt_of_comparison {left right : Value} {op : BinaryOp}
    (traced : Assertion.Traced style o call a x value)
    (subject : a.actual.subject = .comparison left op right) :
    left.twin.copy.nodes < value.nodes := by
  have reads := traced.reads
  rw [subject] at reads
  obtain ⟨l, r, rfl, -, compares⟩ := reads
  exact compares.nodes_lt

theorem nodes_lt_of_nilComparison {left right : Value} {op : BinaryOp}
    (traced : Assertion.Traced style o call a x value)
    (subject : a.actual.subject = .nilComparison left op right) :
    left.twin.copy.nodes < value.nodes := by
  have reads := traced.reads
  rw [subject] at reads
  obtain ⟨l, r, rfl, -, -, compares⟩ := reads
  exact compares.nodes_lt

theorem keepsActual_errorStatement (a : Assertion) (v : Value) (expectsNil : Bool) :
    (errorStatement a v expectsNil).all Change.keepsActual = true := by
  unfold errorStatement
  split <;> rfl

/-- A matcher that compares with `nil` by value becomes one that is about `nil`. -/
theorem simplifies_of_equalsNil (traced : Assertion.Traced style o call a x value) {m : Matcher}
    (matched : a.matcher = some m) (equals : equalsNil a m = true)
    (made : applyAll? a [.innerMatcher (a.style.matcher "BeNil" [])] = some d) :
    a.Simplifies d.call := by
  rw [applyAll?_single, traced.style_eq] at made
  refine traced.simplifies_of_setInnerMatcher matched (by decide) ?_ made
  obtain ⟨named | named, -⟩ := equalsNil_iff.mp equals <;> rw [named] <;> decide

/-- Either matcher for errors in place of the old one. -/
theorem assertError_eq_some {d₁ d₂ : Draft} {v : Value} {expectsNil : Bool}
    (edited : assertError a d₁ v expectsNil = some d₂) :
    ∃ name d' negative, name ∈ ["Succeed", "HaveOccurred"] ∧
      d₁.setMatcher (a.style.matcher name []) = some d' ∧ d'.setNegative negative = some d₂ := by
  unfold assertError at edited
  split at edited <;>
    simp only [Option.bind_eq_bind, Option.bind_eq_some_iff] at edited <;>
    obtain ⟨d', replaced, turned⟩ := edited
  · exact ⟨_, d', _, by simp, replaced, turned⟩
  · exact ⟨_, d', _, by simp, replaced, turned⟩

/-- A matcher that asks for `nil` is one that may be replaced. -/
theorem matcherRank_pos_of_isNilMatcher {m : Matcher} (asksNil : isNilMatcher a m = true) :
    0 < matcherRank (some m.name) := by
  unfold isNilMatcher at asksNil
  split at asksNil
  · rename_i named _; rw [named]; decide
  · rename_i named _; rw [named]; decide
  · rename_i named _; rw [named]; decide
  · cases asksNil

theorem simplifies_of_error (traced : Assertion.Traced style o call a x value) {m : Matcher}
    {v : Value} (matched : a.matcher = some m) (asksNil : isNilMatcher a m = true)
    (made : applyAll? a (errorStatement a v (a.expectsMatch m)) = some d) :
    a.Simplifies d.call := by
  rw [applyAll?, ← assertError_eq] at made
  obtain ⟨name, d', negative, one, replaced, turned⟩ := assertError_eq_some made
  rw [traced.style_eq] at replaced
  have settled : name ≠ "Not" ∧ matcherRank (some name) = 0 := by
    rcases List.mem_pair.mp one with rfl | rfl <;> decide
  refine traced.simplifies_of_setMatcher settled.1 ?_ replaced turned
  rw [settled.2, Assertion.matcherName?, matched]
  exact matcherRank_pos_of_isNilMatcher asksNil

/-- The function of a call passed by its result is smaller than the call, and the
arguments go to a helper. -/
theorem shrinks_of_passed (traced : Assertion.Traced style o call a x value) {origin : Origin}
    {f : Expr} {args : List Expr} (isCall : a.actual.arg.copy = .call origin f args false)
    (made : applyAll? a
      (.actualArg f :: if args.isEmpty then [] else [.chain "WithArguments" args]) = some d) :
    a.Shrinks d.call := by
  have smaller : f.nodes < value.nodes := by
    rw [traced.arg_eq] at isCall
    change value = _ at isCall
    rw [isCall, Expr.nodes]
    omega
  split at made
  · exact traced.shrinks smaller rfl made
  · simp only [applyAll?, List.foldlM_cons, List.foldlM_nil, Change.make?, Option.bind_eq_bind,
      Option.bind_eq_some_iff, Option.pure_def, Option.some.injEq] at made
    obtain ⟨d₁, moved, d₂, chained, rfl⟩ := made
    obtain ⟨x₁, taking, receiver, under, callee, fewer⟩ := traced.moves moved smaller
    obtain ⟨x', n, receiver', under'⟩ :=
      Draft.receiver?_chainActual receiver under (by decide) chained
    exact ⟨x', n, taking, receiver', under', callee, fewer⟩

/-- A matcher that compares with a value is one that may be replaced. -/
theorem matcherRank_pos_of_comparesValue {m : Matcher} (compares : comparesValue a m = true) :
    0 < matcherRank (some m.name) := by
  unfold comparesValue at compares
  split at compares
  · rename_i isBool
    have named : m.name = "BeTrue" ∨ m.name = "BeFalse" := by simpa using isBool
    rcases named with named | named <;> rw [named] <;> decide
  · split at compares
    · rename_i index indexed
      unfold comparedIndex? at indexed
      split at indexed
      all_goals first | cases indexed; done | (rename_i named; rw [named]; decide)
    · cases compares

theorem simplifies_of_pointer (traced : Assertion.Traced style o call a x value) {m : Matcher}
    (matched : a.matcher = some m) (compares : comparesValue a m = true)
    (made : applyAll? a [.innerMatcher (a.style.wrapper "HaveValue" m.call.copy)] = some d) :
    a.Simplifies d.call := by
  rw [applyAll?_single, traced.style_eq] at made
  refine traced.simplifies_of_setInnerMatcher matched (by decide) ?_ made
  exact matcherRank_pos_of_comparesValue compares

/-- **Every fix makes the arguments of the actual value smaller or the matcher simpler.** -/
theorem shrinks_or_simplifies (traced : Assertion.Traced style o call a x value) {r : Rule}
    (fixed : r.draft? a = some d) : a.Shrinks d.call ∨ a.Simplifies d.call := by
  obtain ⟨cs, decides, made⟩ := draft?_eq_some_iff.mp fixed
  cases decides with
  | @size m f sizeCall arg new turns matched subject checked =>
      exact .inl (traced.shrinks (nodes_lt_of_size traced subject) (by cases turns <;> rfl) made)
  | sizeComparison matched subject asked checked =>
      exact .inl (traced.shrinks (nodes_lt_of_sizeComparison traced subject) rfl made)
  | comparison matched subject asked checked =>
      exact .inl (traced.shrinks (nodes_lt_of_comparison traced subject) rfl made)
  | nilComparison matched subject noError asked =>
      exact .inl (traced.shrinks (nodes_lt_of_nilComparison traced subject) rfl made)
  | equalNil matched subject equals =>
      exact .inr (simplifies_of_equalsNil traced matched equals made)
  | error matched subject single asksNil =>
      exact .inr (simplifies_of_error traced matched asksNil made)
  | errorComparison matched subject isError single asked =>
      exact .inl (traced.shrinks (nodes_lt_of_nilComparison traced subject)
        (keepsActual_errorStatement a _ _) made)
  | passed late noSize isCall => exact .inl (shrinks_of_passed traced isCall made)
  | pointer matched subject inTime isPointer compares =>
      exact .inr (simplifies_of_pointer traced matched compares made)

end Rule

end

/-! ## Chains of fixes -/

/-- The second call is a fix that some rule suggests for the first, recognized with
itself as its copy; what the rule reports is its text (`Rule.fix_check`). -/
def Fixes (style : ImportStyle) (o : Oracle) (c c' : Call) : Prop :=
  ∃ a r d, Assertion.of? style o c c = some a ∧ Rule.draft? r a = some d ∧ d.call = c'

/-- The number of nodes in the arguments of the call of the actual value; zero for a
call that is no assertion. -/
def Call.actualNodes (style : ImportStyle) (o : Oracle) (c : Call) : Nat :=
  match Assertion.of? style o c c with
  | some a => Expr.nodesOf a.actual.call.seen.args
  | none => 0

/-- What drops with every fix. -/
def Call.weight (style : ImportStyle) (o : Oracle) (c : Call) : Nat :=
  match Assertion.of? style o c c with
  | some a => 3 * Expr.nodesOf a.actual.call.seen.args + matcherRank a.matcherName?
  | none => 0

theorem Call.weight_le (style : ImportStyle) (o : Oracle) (c : Call) :
    c.weight style o ≤ 3 * c.actualNodes style o + 2 := by
  unfold Call.weight Call.actualNodes
  cases Assertion.of? style o c c with
  | none => exact Nat.zero_le _
  | some a => exact Nat.add_le_add_left (matcherRank_le_two _) _

/-- An assertion has an actual value. -/
theorem Assertion.Traced.nodesOf_pos {style : ImportStyle} {o : Oracle} {call : Call}
    {a : Assertion} {x value : Expr} (traced : Assertion.Traced style o call a x value) :
    0 < Expr.nodesOf a.actual.call.seen.args := by
  have arg := traced.arg
  cases args : a.actual.call.seen.args with
  | nil => simp [args] at arg
  | cons e es => exact Nat.add_pos_left e.nodes_pos _

theorem Call.weight_lt_of_fixes {style : ImportStyle} {o : Oracle} {c c' : Call}
    (fixes : Fixes style o c c') : c'.weight style o < c.weight style o := by
  obtain ⟨a, r, d, recognized, fixed, rfl⟩ := fixes
  obtain ⟨x, value, traced⟩ := Assertion.of?_traced recognized
  cases again : Assertion.of? style o d.call d.call with
  | none =>
      have := traced.nodesOf_pos
      simp only [Call.weight, recognized, again]
      omega
  | some a' =>
      obtain ⟨x', value', traced'⟩ := Assertion.of?_traced again
      simp only [Call.weight, recognized, again]
      rcases Rule.shrinks_or_simplifies traced fixed with
        ⟨y, n, taking, receiver, under, callee, fewer⟩ | ⟨receiver, lower⟩
      · obtain rfl : x' = y := Option.some.inj (traced'.receiver.symm.trans receiver)
        rw [traced'.taking_eq under (callee ▸ traced.stops)]
        have := matcherRank_le_two a'.matcherName?
        omega
      · rw [traced.draft_eq, traced'.receiver, traced.receiver, Option.some.injEq] at receiver
        subst receiver
        rw [traced'.taking_eq traced.under traced.stops, Assertion.matcherName?,
          traced'.matcher_eq, ← traced.style_eq]
        exact Nat.add_lt_add_left lower _

/-- Every fix of a chain takes something of the weight it begins with. -/
theorem Call.length_le_weight {style : ImportStyle} {o : Oracle} {c : Call} {cs : List Call}
    (chain : (c :: cs).IsChain (Fixes style o)) : cs.length ≤ c.weight style o := by
  induction cs generalizing c with
  | nil => exact Nat.zero_le _
  | cons c' cs ih =>
      obtain ⟨fixes, rest⟩ := List.isChain_cons_cons.mp chain
      exact (ih rest).trans_lt (Call.weight_lt_of_fixes fixes)

/-- **Repeated fixing ends.**  A chain of calls, each a fix that some rule suggests
for the one before it, has no more than `3 * n + 2` fixes, where `n` is the number of
nodes in the arguments of the first call's actual-value call; none goes on for ever. -/
theorem fixes_terminate (style : ImportStyle) (o : Oracle) :
    (∀ (c : Call) (cs : List Call), (c :: cs).IsChain (Fixes style o) →
      cs.length ≤ 3 * c.actualNodes style o + 2) ∧
    ¬ ∃ f : Nat → Call, ∀ i, Fixes style o (f i) (f (i + 1)) := by
  refine ⟨fun c cs chain => (Call.length_le_weight chain).trans (c.weight_le style o), ?_⟩
  rintro ⟨f, fixes⟩
  have drops : ∀ i, (f i).weight style o + i ≤ (f 0).weight style o := by
    intro i
    induction i with
    | zero => exact Nat.le_refl _
    | succ i ih =>
        have := Call.weight_lt_of_fixes (fixes i)
        omega
  have := drops ((f 0).weight style o + 1)
  omega

/-- `Expect(value).To(name(args))` -/
def expectTo (value : Expr) (name : String) (args : List Expr) : Call where
  callee := .selector {} (.call {} (.named "Expect") [value] false) { name := "To" }
  args := [.call {} (.named name) args false]

/-- In `Expect(x == nil).To(Equal(true))` the comparison becomes that of the matcher,
and this one the matcher for `nil`. -/
theorem fixes_terminate_comparedWithNil :
    let compared := expectTo (.binary {} (.named "x") .eq (.named "nil")) "Equal" [.named "true"]
    let fixes := [expectTo (.named "x") "Equal" [.named "nil"], expectTo (.named "x") "BeNil" []]
    (compared :: fixes).IsChain (Fixes .dot fun _ => none) ∧
      fixes.length ≤ 3 * compared.actualNodes .dot (fun _ => none) + 2 := by
  intro compared fixes
  have first : Fixes .dot (fun _ => none) compared (expectTo (.named "x") "Equal" [.named "nil"]) :=
    ⟨_, .compareAssertion, _, rfl, rfl, rfl⟩
  have second : Fixes .dot (fun _ => none) (expectTo (.named "x") "Equal" [.named "nil"])
      (expectTo (.named "x") "BeNil" []) :=
    ⟨_, .nilAssertion, _, rfl, rfl, rfl⟩
  have chain : (compared :: fixes).IsChain (Fixes .dot fun _ => none) :=
    .cons_cons first (.cons_cons second (.singleton _))
  exact ⟨chain, (fixes_terminate .dot fun _ => none).1 _ _ chain⟩

end GomegaLint
