import Mathlib
import GomegaLint.Proofs.Meaning.Rules

/-!
# What is recognized in an edited assertion

An edited assertion is looked at again from its beginning.  The walk to the call of
the actual value ends where it ended before: what it looks at on its way are callees,
and the edits of a draft change the arguments of that call or put a helper on top of
it (`ImportStyle.Stops`, `Draft.underHelpers_chain`).  A new innermost matcher is
found under the wrappers of the old one (`Matcher.find?_editInside`).

`Assertion.Traced` collects what is known of a recognized assertion, and
`Assertion.Traced.taking_eq` says that the call of the actual value is the only one
that the walk can end at.
-/

namespace GomegaLint

/-! ## The walk to the actual value -/

/-- The walk to the call of the actual value ends at a call with this callee: a name,
a member of the package, or a member of an assertion object that is no helper. -/
def ImportStyle.Stops (style : ImportStyle) (o : Oracle) : Expr → Prop
  | .ident _ => True
  | .selector _ x m =>
      style.isBoundName x = true ∨ ImportStyle.isHelper m.name = false ∧ o.isGomega x = true
  | _ => False

theorem ImportStyle.isBoundName_call (style : ImportStyle) (o : Origin) (f : Expr)
    (args : List Expr) (s : Bool) : style.isBoundName (.call o f args s) = false := by
  cases style <;> rfl

/-- A call under helpers is no name. -/
theorem UnderHelpers.isBoundName {c : Call} {n : Nat} {e : Expr} (under : UnderHelpers c n e)
    (style : ImportStyle) : style.isBoundName e = false := by
  cases under <;> exact style.isBoundName_call _ _ _ _

/-- The walk ends at a call that stands under helpers and where it may stop. -/
theorem ImportStyle.actualFrom?_of_under {style : ImportStyle} {o : Oracle} {c : Call} {n : Nat}
    {e : Expr} (under : UnderHelpers c n e) (stops : style.Stops o c.callee) (depth : Nat) :
    style.actualFrom? o depth e e = some ⟨c, c, depth + n⟩ := by
  induction under generalizing depth with
  | here =>
      obtain ⟨co, callee, args, s⟩ := c
      cases callee with
      | ident i => rfl
      | selector so x m =>
          simp only [Call.toExpr, ImportStyle.actualFrom?, ne_eq, not_true_eq_false, if_false,
            Bool.and_self]
          rcases stops with bound | ⟨noHelper, object⟩
          · simp [bound]
          · cases style.isBoundName x <;> simp [noHelper, object]
      | _ => exact stops.elim
  | helper co so args s below isHelper ih =>
      simp only [ImportStyle.actualFrom?, ne_eq, not_true_eq_false, if_false, Bool.and_self,
        below.isBoundName style, Bool.false_eq_true, isHelper, if_true, ih]
      rw [Nat.add_right_comm, Nat.add_assoc]

/-- It ends at no other call. -/
theorem ImportStyle.stops_of_actualFrom? {style : ImportStyle} {o : Oracle} :
    ∀ {e : Expr} {depth : Nat} {found : ImportStyle.Found},
      style.actualFrom? o depth e e = some found → style.Stops o found.seen.callee
  | .call _ (.ident i) _ _, depth, found, walked => by
      cases walked
      trivial
  | .call co (.selector so x m) args s, depth, found, walked => by
      simp only [ImportStyle.actualFrom?, ne_eq, not_true_eq_false, if_false, Bool.and_self]
        at walked
      split at walked
      · cases walked
        exact .inl ‹_›
      · split at walked
        · exact stops_of_actualFrom? walked
        · split at walked
          · cases walked
            exact .inr ⟨by simpa using ‹¬ImportStyle.isHelper m.name = true›, ‹_›⟩
          · cases walked
  | .call _ (.call ..) _ _, _, _, walked | .call _ (.binary ..) _ _, _, _, walked
  | .call _ (.unary ..) _ _, _, _, walked | .call _ (.star ..) _ _, _, _, walked
  | .call _ (.paren ..) _ _, _, _, walked | .call _ (.literal ..) _ _, _, _, walked
  | .call _ (.verbatim ..) _ _, _, _, walked
  | .ident _, _, _, walked | .selector .., _, _, walked | .binary .., _, _, walked
  | .unary .., _, _, walked | .star .., _, _, walked | .paren .., _, _, walked
  | .literal .., _, _, walked | .verbatim .., _, _, walked => by
      simp [ImportStyle.actualFrom?] at walked

/-- What the assertion method of a call is selected from. -/
def Call.receiver? (c : Call) : Option Expr := c.callee.selector?.map (·.x)

/-- The matcher of a call. -/
def Call.matcher? (style : ImportStyle) (c : Call) : Option Matcher :=
  c.args[0]?.bind fun t => Matcher.find? style 0 t t

/-- The parts of an assertion that was recognized with itself as its copy. -/
structure Assertion.Traced (style : ImportStyle) (o : Oracle) (call : Call) (a : Assertion)
    (x value : Expr) : Prop where
  style_eq : a.style = style
  oracle_eq : a.oracle = o
  draft_eq : a.draft.call = call
  receiver : call.receiver? = some x
  under : UnderHelpers a.actual.call.seen a.actual.depth x
  stops : style.Stops o a.actual.call.seen.callee
  arg : a.actual.call.seen.args[a.actual.offset]? = some value
  arg_eq : a.actual.arg = ⟨value, value⟩
  reads : a.actual.subject.Reads o value
  matcher_eq : a.matcher = call.matcher? style

theorem Actual.call_of? {o : Oracle} {found : ImportStyle.Found} {function : String}
    {actual : Actual} (classified : Actual.of? o found function = some actual) :
    actual.call.seen = found.seen := by
  simp only [Actual.of?, Option.bind_eq_bind, Option.bind_eq_some_iff, Option.pure_def,
    Option.some.injEq] at classified
  obtain ⟨index, offset, first, -, arg, found', subject, classified, rfl⟩ := classified
  rfl

theorem Assertion.of?_traced {style : ImportStyle} {o : Oracle} {call : Call} {a : Assertion}
    (recognized : Assertion.of? style o call call = some a) :
    ∃ x value, Assertion.Traced style o call a x value := by
  obtain ⟨co, callee, args, spread⟩ := call
  cases callee with
  | selector origin x method =>
      simp only [Assertion.of?, Expr.selector?, Option.bind_eq_bind, Option.bind_some, ne_eq,
        not_true_eq_false, if_false, Option.bind_eq_some_iff, Option.pure_def, Option.some.injEq]
        at recognized
      obtain ⟨m, isMethod, found, walked, function, invoked, actual, classified, rfl⟩ := recognized
      obtain ⟨same, -, n, depths, under⟩ := ImportStyle.actualFrom?_same walked
      obtain ⟨depth_eq, -, value, inArgs, arg_eq, subject⟩ := Actual.of?_same same classified
      have taken : actual.call.seen = found.seen := Actual.call_of? classified
      rw [Nat.zero_add, ← depth_eq] at depths
      subst depths
      refine ⟨x, value, rfl, rfl, rfl, rfl, ?_, ?_, ?_, arg_eq, Subject.of?_reads subject, ?_⟩
      · simpa only [taken] using under
      · simpa only [taken] using ImportStyle.stops_of_actualFrom? walked
      · simpa only [taken] using inArgs
      · cases args with
        | nil => rfl
        | cons t ts => rfl
  | _ => simp [Assertion.of?, Expr.selector?] at recognized

/-- The walk of a recognized assertion ends at the only call where it can. -/
theorem Assertion.Traced.taking_eq {style : ImportStyle} {o : Oracle} {call taking : Call}
    {a : Assertion} {x value : Expr} {n : Nat} (traced : Assertion.Traced style o call a x value)
    (under : UnderHelpers taking n x) (stops : style.Stops o taking.callee) :
    a.actual.call.seen = taking := by
  have walked := ImportStyle.actualFrom?_of_under traced.under traced.stops 0
  rw [ImportStyle.actualFrom?_of_under under stops 0] at walked
  injection walked with walked
  injection walked with seen
  exact seen.symm

/-! ## Edits of the actual value -/

namespace Draft

/-- Chaining a helper behind the call under the helpers puts one more on top of it. -/
theorem underHelpers_chain {c : Call} {n : Nat} {x x' : Expr} {method : String} {args : List Expr}
    (under : UnderHelpers c n x) (isHelper : ImportStyle.isHelper method = true)
    (edited : editUnder (fun actual =>
      some (.call {} (.selector {} actual { name := method }) args false)) n x = some x') :
    UnderHelpers c (n + 1) x' := by
  induction under generalizing x' with
  | here =>
      cases edited
      exact .helper _ _ _ _ .here isHelper
  | helper o so args s below isHelper ih =>
      simp only [editUnder, Option.map_eq_some_iff] at edited
      obtain ⟨y, edited, rfl⟩ := edited
      exact .helper o so args s (ih edited) isHelper

variable {d d' : Draft} {x : Expr} {taking : Call}

theorem receiver?_editActual {edit : Expr → Option Expr} (receiver : d.call.receiver? = some x)
    (edited : d.editActual edit = some d') :
    ∃ x', editUnder edit d.actualDepth x = some x' ∧ d'.call.receiver? = some x' ∧
      d'.actualDepth = d.actualDepth := by
  unfold editActual at edited
  split at edited
  · rename_i callee
    obtain ⟨x', inside, rfl⟩ := Option.map_eq_some_iff.mp edited
    rw [Call.receiver?, callee] at receiver
    cases receiver
    exact ⟨x', inside, rfl, rfl⟩
  · cases edited

/-- Replacing an argument of the call that takes the actual value. -/
theorem receiver?_setActualArg {index : Nat} {e : Expr} (receiver : d.call.receiver? = some x)
    (under : UnderHelpers taking d.actualDepth x) (inside : index < taking.args.length)
    (edited : d.setActualArg index e = some d') :
    ∃ x', d'.call.receiver? = some x' ∧
      UnderHelpers { taking with args := taking.args.set index e } d'.actualDepth x' := by
  obtain ⟨x', edited, receiver', depth⟩ := receiver?_editActual receiver edited
  refine ⟨x', receiver', depth ▸ underHelpers_editUnder under ?_ edited⟩
  simp only [Call.toExpr, inside, if_true]

/-- Chaining a helper behind the call that takes the actual value. -/
theorem receiver?_chainActual {method : String} {args : List Expr}
    (receiver : d.call.receiver? = some x) (under : UnderHelpers taking d.actualDepth x)
    (isHelper : ImportStyle.isHelper method = true) (edited : d.chainActual method args = some d') :
    ∃ x' n, d'.call.receiver? = some x' ∧ UnderHelpers taking n x' := by
  obtain ⟨x', edited, receiver', -⟩ := receiver?_editActual receiver edited
  exact ⟨x', _, receiver', underHelpers_chain under isHelper edited⟩

/-! ## Edits that leave the actual value alone -/

theorem receiver?_setMatcher {new : Call} (edited : d.setMatcher new = some d') :
    d'.call.receiver? = d.call.receiver? := by
  unfold setMatcher at edited
  split at edited <;> cases edited
  rfl

theorem receiver?_setInnerMatcher {new : Call} (edited : d.setInnerMatcher new = some d') :
    d'.call.receiver? = d.call.receiver? := by
  unfold setInnerMatcher editMatcher at edited
  split at edited
  · obtain ⟨a', -, rfl⟩ := Option.map_eq_some_iff.mp edited
    rfl
  · cases edited

theorem receiver?_reverse (edited : d.reverse = some d') :
    d'.call.receiver? = d.call.receiver? ∧ d'.call.args = d.call.args := by
  unfold reverse editMethod at edited
  split at edited
  · rename_i callee
    obtain ⟨name, -, rfl⟩ := Option.map_eq_some_iff.mp edited
    exact ⟨by simp [Call.receiver?, callee, Expr.selector?], rfl⟩
  · cases edited

theorem receiver?_setNegative {negative : Bool} (edited : d.setNegative negative = some d') :
    d'.call.receiver? = d.call.receiver? ∧ d'.call.args = d.call.args := by
  unfold setNegative at edited
  split at edited
  · split at edited
    · cases edited
      exact ⟨rfl, rfl⟩
    · exact receiver?_reverse edited
  · cases edited

end Draft

/-! ## The matcher -/

theorem ImportStyle.matcherOf?_functionExpr (style : ImportStyle) (name : String) :
    style.matcherOf? (style.functionExpr name) = some name := by
  cases style <;> simp [functionExpr, matcherOf?, isBoundName, Expr.named]

/-- A call that names a matcher other than the wrapper is the matcher that is found in it. -/
theorem Matcher.find?_of_ne_not {style : ImportStyle} {c : Call} {name : String} (depth : Nat)
    (named : style.matcherOf? c.callee = some name) (notNot : name ≠ "Not") :
    Matcher.find? style depth c.toExpr c.toExpr = some ⟨⟨c, c⟩, name, depth⟩ := by
  rw [find?_call, named, Option.bind_some, if_neg notNot]

theorem Matcher.matcherOf?_of_find? {style : ImportStyle} {depth : Nat} {e : Expr} {m : Matcher}
    (found : Matcher.find? style depth e e = some m) :
    ∃ o f args s, e = .call o f args s ∧ (style.matcherOf? f).isSome := by
  cases e with
  | call o f args s =>
      refine ⟨o, f, args, s, rfl, ?_⟩
      cases named : style.matcherOf? f with
      | none =>
          have := find?_call style depth ⟨o, f, args, s⟩
          rw [named, Option.bind_none] at this
          cases this.symm.trans found
      | some name => rfl
  | _ => simp [Matcher.find?] at found

/-- A new innermost matcher is found where the old one was. -/
theorem Matcher.find?_editInside {style : ImportStyle} (new : Call) {name : String}
    (named : style.matcherOf? new.callee = some name) (notNot : name ≠ "Not") (c : Call)
    {depth : Nat} {m : Matcher} (found : Matcher.find? style depth c.toExpr c.toExpr = some m) :
    ∃ n, m.notDepth = depth + n ∧ ∀ e, Draft.editInside (fun _ => new) n c.toExpr = some e →
      Matcher.find? style depth e e = some ⟨⟨new, new⟩, name, m.notDepth⟩ := by
  have here : ∀ e, Draft.editInside (fun _ => new) 0 c.toExpr = some e →
      Matcher.find? style depth e e = some ⟨⟨new, new⟩, name, depth⟩ := by
    rintro e ⟨⟩
    exact find?_of_ne_not depth named notNot
  rw [find?_call, Option.bind_eq_some_iff] at found
  obtain ⟨outer, isOuter, found⟩ := found
  split at found
  · rename_i io g bs t as wrapped
    obtain rfl : outer = "Not" := by
      by_contra other
      rw [if_neg other] at wrapped
      cases wrapped
    rw [if_pos rfl] at wrapped
    split at found
    · -- The call is a wrapper around another matcher call.
      have smaller : sizeOf (Call.toExpr ⟨io, g, bs, t⟩) < sizeOf c.toExpr := by
        simp only [Call.toExpr, Expr.call.sizeOf_spec, wrapped, List.cons.sizeOf_spec]
        omega
      obtain ⟨n, counts, again⟩ := find?_editInside new named notNot ⟨io, g, bs, t⟩ found
      refine ⟨n + 1, by omega, fun e edited => ?_⟩
      obtain ⟨o, f, args, s⟩ := c
      subst wrapped
      obtain ⟨e', inside, rfl⟩ := Option.map_eq_some_iff.mp edited
      have refound := again e' inside
      obtain ⟨o', f', args', s', rfl, isMatcher⟩ := matcherOf?_of_find? refound
      have outside := find?_call style depth ⟨o, f, .call o' f' args' s' :: as, s⟩
      simp only [isOuter, Option.bind_some, if_true, isMatcher, refound] at outside
      exact outside
    · cases found
      exact ⟨0, rfl, here⟩
  · cases found
    exact ⟨0, rfl, here⟩
termination_by sizeOf c.toExpr

end GomegaLint
