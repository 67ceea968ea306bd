import Mathlib
import GomegaLint.Proofs.Meaning.Retrace

/-!
# Assertions under a package name

An assertion of a file that imports Gomega with a dot, and the same assertion with
the functions of Gomega selected from a package name: `Expect(x).To(Not(Equal(y)))`
and `g.Expect(x).To(g.Not(g.Equal(y)))`.  `Call.Qualified` relates the two.  Between
them only callees differ, of the call of the actual value and of the matchers from
the outermost wrapper to the innermost one; what is looked up in the oracle stands
in both.

`Assertion.of?_alike` says that either both are recognized or none, and that
what is recognized is the same.
-/

/-! ## Results of which both or none exist -/

theorem Option.Rel.mono {α β : Type} {R S : α → β → Prop} {x : Option α} {y : Option β}
    (related : Option.Rel R x y) (weaker : ∀ a b, R a b → S a b) : Option.Rel S x y := by
  cases related with
  | some related => exact .some (weaker _ _ related)
  | none => exact .none

theorem Option.Rel.map {α β γ δ : Type} {R : α → β → Prop} {S : γ → δ → Prop} {x : Option α}
    {y : Option β} {f : α → γ} {g : β → δ} (related : Option.Rel R x y)
    (next : ∀ a b, R a b → S (f a) (g b)) : Option.Rel S (x.map f) (y.map g) := by
  cases related with
  | some related => exact .some (next _ _ related)
  | none => exact .none

theorem Option.Rel.isSome_eq {α β : Type} {R : α → β → Prop} {x : Option α} {y : Option β}
    (related : Option.Rel R x y) : y.isSome = x.isSome := by
  cases related <;> rfl

theorem Option.Rel.map_eq_map {α β γ : Type} {R : α → β → Prop} {x : Option α} {y : Option β}
    {f : α → γ} {g : β → γ} (related : Option.Rel R x y) (same : ∀ a b, R a b → g b = f a) :
    y.map g = x.map f := by
  cases related with
  | some related => exact congrArg Option.some (same _ _ related)
  | none => rfl

theorem Option.Rel.bind {α β γ δ : Type} {R : α → β → Prop} {S : γ → δ → Prop} {x : Option α}
    {y : Option β} {f : α → Option γ} {g : β → Option δ} (related : Option.Rel R x y)
    (next : ∀ a b, R a b → Option.Rel S (f a) (g b)) : Option.Rel S (x.bind f) (y.bind g) := by
  cases related with
  | some related => exact next _ _ related
  | none => exact .none

namespace GomegaLint

/-! ## Parts of an expression -/

/-- The expression is the other one or stands in it. -/
inductive Expr.OccursIn (e : Expr) : Expr → Prop
  | here : OccursIn e e
  | selected {x : Expr} (o : Origin) (m : Ident) : OccursIn e x → OccursIn e (.selector o x m)
  | callee {f : Expr} (o : Origin) (args : List Expr) (s : Bool) :
      OccursIn e f → OccursIn e (.call o f args s)
  | argument {a : Expr} {args : List Expr} (o : Origin) (f : Expr) (s : Bool) :
      a ∈ args → OccursIn e a → OccursIn e (.call o f args s)
  | left {x : Expr} (o : Origin) (op : BinaryOp) (y : Expr) :
      OccursIn e x → OccursIn e (.binary o x op y)
  | right {y : Expr} (o : Origin) (x : Expr) (op : BinaryOp) :
      OccursIn e y → OccursIn e (.binary o x op y)
  | operand {x : Expr} (o : Origin) (op : UnaryOp) : OccursIn e x → OccursIn e (.unary o op x)
  | pointer {x : Expr} (o : Origin) : OccursIn e x → OccursIn e (.star o x)
  | inner {x : Expr} (o : Origin) : OccursIn e x → OccursIn e (.paren o x)

theorem Expr.OccursIn.trans {e x y : Expr} (inside : e.OccursIn x) (within : x.OccursIn y) :
    e.OccursIn y := by
  induction within with
  | here => exact inside
  | selected o m _ ih => exact .selected o m ih
  | callee o args s _ ih => exact .callee o args s ih
  | argument o f s isArg _ ih => exact .argument o f s isArg ih
  | left o op y _ ih => exact .left o op y ih
  | right o x op _ ih => exact .right o x op ih
  | operand o op _ ih => exact .operand o op ih
  | pointer o _ ih => exact .pointer o ih
  | inner o _ ih => exact .inner o ih

theorem Call.argument_occursIn {c : Call} {a : Expr} (isArg : a ∈ c.args) : a.OccursIn c.toExpr :=
  .argument _ _ _ isArg .here

/-- The name is not that of an identifier in the expression. -/
def Expr.Lacks (b : String) (e : Expr) : Prop := ∀ i : Ident, (Expr.ident i).OccursIn e → i.name ≠ b

theorem Expr.Lacks.part {b : String} {e x : Expr} (lacks : e.Lacks b) (inside : x.OccursIn e) :
    x.Lacks b :=
  fun i occurs => lacks i (occurs.trans inside)

@[simp] theorem Expr.lacks_ident {b : String} {i : Ident} :
    (Expr.ident i).Lacks b ↔ i.name ≠ b := by
  refine ⟨fun lacks => lacks i .here, ?_⟩
  rintro other j ⟨⟩
  exact other

@[simp] theorem Expr.lacks_literal {b v : String} {o : Origin} {kind : LiteralKind} :
    (Expr.literal o kind v).Lacks b := by
  rintro i ⟨⟩

@[simp] theorem Expr.lacks_selector {b : String} {o : Origin} {x : Expr} {m : Ident} :
    (Expr.selector o x m).Lacks b ↔ x.Lacks b := by
  refine ⟨fun lacks => lacks.part (.selected o m .here), ?_⟩
  rintro lacks i (_ | ⟨_, _, inside⟩)
  exact lacks i inside

@[simp] theorem Expr.lacks_call {b : String} {o : Origin} {f : Expr} {args : List Expr} {s : Bool} :
    (Expr.call o f args s).Lacks b ↔ f.Lacks b ∧ ∀ a ∈ args, a.Lacks b := by
  constructor
  · intro lacks
    exact ⟨lacks.part (.callee o args s .here),
      fun a isArg => lacks.part (.argument o f s isArg .here)⟩
  · rintro ⟨callee, arguments⟩ i (_ | _ | ⟨_, _, _, inside⟩ | ⟨_, _, _, isArg, inside⟩)
    · exact callee i inside
    · exact arguments _ isArg i inside

/-! ## Qualified calls -/

/-- The call of a bare function, and that of the same function under the package
name. -/
inductive Call.QualifiedBy (b : String) : Call → Call → Prop
  | intro {q : Ident} (o so : Origin) (i : Ident) (args : List Expr) (s : Bool)
      (package : q.name = b) :
      QualifiedBy b ⟨o, .ident i, args, s⟩ ⟨o, .selector so (.ident q) i, args, s⟩

/-- Two calls under the same helper calls, so many of them. -/
inductive UnderSameHelpers (c c' : Call) : Nat → Expr → Expr → Prop
  | here : UnderSameHelpers c c' 0 c.toExpr c'.toExpr
  | helper {n : Nat} {x x' : Expr} {m : Ident} (o so : Origin) (args : List Expr) (s : Bool)
      (below : UnderSameHelpers c c' n x x') (isHelper : ImportStyle.isHelper m.name = true) :
      UnderSameHelpers c c' (n + 1) (.call o (.selector so x m) args s)
        (.call o (.selector so x' m) args s)

/-- A matcher, and the same matcher with the functions selected from the package name
wherever a call of a bare function is reached through first arguments of `Not`. -/
inductive QualifiedMatcher (b : String) : Expr → Expr → Prop
  | other {e : Expr} (notBare : ∀ o i args s, e ≠ .call o (.ident i) args s) :
      QualifiedMatcher b e e
  | innermost {c c' : Call} (qualified : c.QualifiedBy b c')
      (last : ∀ i, c.callee = .ident i → i.name ≠ "Not" ∨ c.args = []) :
      QualifiedMatcher b c.toExpr c'.toExpr
  | wrapper {q i : Ident} {a a' : Expr} (o so : Origin) (as : List Expr) (s : Bool)
      (package : q.name = b) (isNot : i.name = "Not") (below : QualifiedMatcher b a a') :
      QualifiedMatcher b (.call o (.ident i) (a :: as) s)
        (.call o (.selector so (.ident q) i) (a' :: as) s)

/-- Lists that differ in their first member at most. -/
inductive AlikeFirst (R : Expr → Expr → Prop) : List Expr → List Expr → Prop
  | nil : AlikeFirst R [] []
  | cons {t t' : Expr} (rest : List Expr) (first : R t t') : AlikeFirst R (t :: rest) (t' :: rest)

/-- Assertions with the same method and the same helper calls.  Under these are the
given calls of the actual value, and the matchers are related. -/
inductive Call.Alike (taking taking' : Call) (n : Nat) (R : Expr → Expr → Prop) :
    Call → Call → Prop
  | intro {x x' : Expr} {args args' : List Expr} (o so : Origin) (m : Ident) (s : Bool)
      (helpers : UnderSameHelpers taking taking' n x x') (first : AlikeFirst R args args') :
      Alike taking taking' n R ⟨o, .selector so x m, args, s⟩ ⟨o, .selector so x' m, args', s⟩

/-- An assertion whose actual value is taken by a bare function, and the same
assertion with this function and those of the matchers under the package name. -/
def Call.Qualified (b : String) (c c' : Call) : Prop :=
  ∃ taking taking' n, taking.QualifiedBy b taking' ∧
    Call.Alike taking taking' n (QualifiedMatcher b) c c'

section

variable {b : String} {taking taking' : Call} {n : Nat} {x x' : Expr}

theorem UnderSameHelpers.underHelpers (under : UnderSameHelpers taking taking' n x x') :
    UnderHelpers taking n x ∧ UnderHelpers taking' n x' := by
  induction under with
  | here => exact ⟨.here, .here⟩
  | helper o so args s below isHelper ih =>
      exact ⟨.helper o so args s ih.1 isHelper, .helper o so args s ih.2 isHelper⟩

theorem UnderHelpers.occursIn (under : UnderHelpers taking n x) : taking.toExpr.OccursIn x := by
  induction under with
  | here => exact .here
  | helper o so args s below isHelper ih => exact .callee _ _ _ (.selected _ _ ih)

theorem Call.QualifiedBy.args_eq (qualified : taking.QualifiedBy b taking') :
    taking'.args = taking.args := by
  cases qualified
  rfl

/-- The walk ends at the qualified call under the package name. -/
theorem Call.QualifiedBy.stops (qualified : taking.QualifiedBy b taking') (o o' : Oracle) :
    ImportStyle.dot.Stops o taking.callee ∧ (ImportStyle.named b).Stops o' taking'.callee := by
  cases qualified with
  | intro _ _ _ _ _ package =>
      exact ⟨trivial, .inl (by simp [ImportStyle.isBoundName, package])⟩

/-- The function is the same under the package name. -/
theorem Call.QualifiedBy.actualFunction? (qualified : taking.QualifiedBy b taking')
    (o o' : Oracle) :
    (ImportStyle.named b).actualFunction? o' taking' =
      ImportStyle.dot.actualFunction? o taking := by
  cases qualified with
  | intro _ _ _ _ _ package =>
      simp [ImportStyle.actualFunction?, ImportStyle.functionOf?, ImportStyle.isBoundName, package]

end

/-! ## The matcher -/

/-- The callee of a matcher call that is no bare name names no function, with either
import. -/
theorem ImportStyle.matcherOf?_of_lacks {b : String} {f : Expr} (notBare : ∀ i, f ≠ .ident i)
    (lacks : f.Lacks b) :
    ImportStyle.dot.matcherOf? f = none ∧ (ImportStyle.named b).matcherOf? f = none := by
  cases f with
  | ident i => exact (notBare i rfl).elim
  | selector o x m =>
      refine ⟨rfl, ?_⟩
      cases x with
      | ident i =>
          have other : i.name ≠ b := lacks i (.selected _ _ .here)
          simp [ImportStyle.matcherOf?, ImportStyle.isBoundName, other]
      | _ => rfl
  | _ => exact ⟨rfl, rfl⟩

/-- The matcher function that an expression calls. -/
def Expr.matcherFunction? (style : ImportStyle) (e : Expr) : Option String :=
  e.call?.bind style.matcherFunction?

theorem Expr.matcherFunction?_of_lacks {b : String} {e : Expr}
    (notBare : ∀ o i args s, e ≠ .call o (.ident i) args s) (lacks : e.Lacks b) :
    e.matcherFunction? .dot = none ∧ e.matcherFunction? (.named b) = none := by
  cases e with
  | call o f args s =>
      exact ImportStyle.matcherOf?_of_lacks (fun i isName => notBare o i args s (isName ▸ rfl))
        (lacks.part (.callee o args s .here))
  | _ => exact ⟨rfl, rfl⟩

/-- The matcher in a wrapper is the wrapper itself, unless its argument is a matcher
call again. -/
theorem Matcher.find?_not {style : ImportStyle} {f a : Expr} {as : List Expr} {depth : Nat}
    (o : Origin) (s : Bool) (isNot : style.matcherOf? f = some "Not") :
    Matcher.find? style depth (.call o f (a :: as) s) (.call o f (a :: as) s) =
      if (a.matcherFunction? style).isSome then Matcher.find? style (depth + 1) a a
      else some ⟨⟨⟨o, f, a :: as, s⟩, ⟨o, f, a :: as, s⟩⟩, "Not", depth⟩ := by
  have whole := find?_call style depth ⟨o, f, a :: as, s⟩
  simp only [isNot, Option.bind_some, if_true] at whole
  refine Eq.trans whole ?_
  cases a <;> rfl

/-- No matcher is found in what calls no matcher function. -/
theorem Matcher.find?_eq_none {style : ImportStyle} {e : Expr} (depth : Nat)
    (nothing : e.matcherFunction? style = none) : Matcher.find? style depth e e = none := by
  cases e with
  | call o f args s =>
      have whole := find?_call style depth ⟨o, f, args, s⟩
      rwa [show style.matcherOf? f = none from nothing] at whole
  | _ => rfl

/-- A bare function of a matcher call is the same under the package name. -/
theorem Call.QualifiedBy.matcherOf? {b : String} {c c' : Call} (qualified : c.QualifiedBy b c') :
    ∃ i, c.callee = .ident i ∧ ImportStyle.dot.matcherOf? c.callee = some i.name ∧
      (ImportStyle.named b).matcherOf? c'.callee = some i.name := by
  cases qualified with
  | intro _ _ i _ _ package =>
      exact ⟨i, rfl, rfl, by simp [ImportStyle.matcherOf?, ImportStyle.isBoundName, package]⟩

/-- Matchers that are found in two expressions: the same function under the same
number of wrappers, with arguments that stand in both. -/
inductive Matcher.Alike (b : String) (e e' : Expr) : Matcher → Matcher → Prop
  | intro {c c' : Call} (name : String) (notDepth : Nat) (qualified : c.QualifiedBy b c')
      (shared : ∀ a ∈ c.args, a.OccursIn e ∧ a.OccursIn e') :
      Alike b e e' ⟨⟨c, c⟩, name, notDepth⟩ ⟨⟨c', c'⟩, name, notDepth⟩

theorem Matcher.Alike.within {b : String} {a a' e e' : Expr} {m m' : Matcher}
    (alike : Matcher.Alike b a a' m m') (inside : a.OccursIn e) (inside' : a'.OccursIn e') :
    Matcher.Alike b e e' m m' := by
  cases alike with
  | intro name notDepth qualified shared =>
      exact .intro name notDepth qualified fun arg isArg =>
        ⟨(shared arg isArg).1.trans inside, (shared arg isArg).2.trans inside'⟩

/-- Either nothing is qualified or both are matcher calls. -/
theorem QualifiedMatcher.same_or_matcher {b : String} {e e' : Expr}
    (qualified : QualifiedMatcher b e e') :
    (e' = e ∧ ∀ o i args s, e ≠ .call o (.ident i) args s) ∨
      ∃ c c' : Call, e = c.toExpr ∧ e' = c'.toExpr ∧
        (ImportStyle.dot.matcherOf? c.callee).isSome ∧
        ((ImportStyle.named b).matcherOf? c'.callee).isSome := by
  cases qualified with
  | other notBare => exact .inl ⟨rfl, notBare⟩
  | @innermost c c' qualified last =>
      obtain ⟨i, -, dot, named⟩ := qualified.matcherOf?
      exact .inr ⟨c, c', rfl, rfl, by simp [dot], by simp [named]⟩
  | @wrapper q i a a' o so as s package isNot below =>
      refine .inr ⟨⟨o, .ident i, a :: as, s⟩, ⟨o, .selector so (.ident q) i, a' :: as, s⟩,
        rfl, rfl, rfl, ?_⟩
      simp [ImportStyle.matcherOf?, ImportStyle.isBoundName, package]

/-- A matcher and a qualified one are found at the same place. -/
theorem Matcher.find?_qualified {b : String} {e e' : Expr} (qualified : QualifiedMatcher b e e')
    (lacks : e.Lacks b) (depth : Nat) :
    Option.Rel (Matcher.Alike b e e') (Matcher.find? .dot depth e e)
      (Matcher.find? (.named b) depth e' e') := by
  induction qualified generalizing depth with
  | @other e notBare =>
      obtain ⟨noDot, noNamed⟩ := Expr.matcherFunction?_of_lacks notBare lacks
      rw [find?_eq_none depth noDot, find?_eq_none depth noNamed]
      exact .none
  | @innermost c c' qualified last =>
      obtain ⟨i, isName, dot, named⟩ := qualified.matcherOf?
      have noWrapped : (if i.name = "Not" then c.args else []) = [] := by
        rcases last i isName with other | none
        · exact if_neg other
        · simp [none]
      rw [find?_call, find?_call, dot, named, Option.bind_some, Option.bind_some,
        qualified.args_eq, noWrapped]
      exact .some (.intro _ _ qualified fun a isArg =>
        ⟨Call.argument_occursIn isArg, Call.argument_occursIn (qualified.args_eq ▸ isArg)⟩)
  | @wrapper q i a a' o so as s package isNot below ih =>
      have isArg : a ∈ a :: as := List.mem_cons_self
      have named : (ImportStyle.named b).matcherOf? (.selector so (.ident q) i) = some "Not" := by
        simp [ImportStyle.matcherOf?, ImportStyle.isBoundName, package, isNot]
      have dot : ImportStyle.dot.matcherOf? (.ident i) = some "Not" := congrArg some isNot
      rw [find?_not o s dot, find?_not o s named]
      rcases below.same_or_matcher with ⟨rfl, notBare⟩ | ⟨c, c', rfl, rfl, isMatcher, isMatcher'⟩
      · -- The argument is no matcher call, so that the wrapper is the matcher.
        have nothing := Expr.matcherFunction?_of_lacks notBare
          (lacks.part (.argument o _ s isArg .here))
        rw [nothing.1, nothing.2]
        exact .some (.intro "Not" depth (.intro o so i (a' :: as) s package) fun arg isArg =>
          ⟨.argument _ _ _ isArg .here, .argument _ _ _ isArg .here⟩)
      · have inside := ih (lacks.part (.argument o _ s isArg .here)) (depth + 1)
        have called : (c.toExpr.matcherFunction? .dot).isSome := isMatcher
        have called' : (c'.toExpr.matcherFunction? (.named b)).isSome := isMatcher'
        rw [if_pos called, if_pos called']
        exact inside.mono fun m m' alike =>
          alike.within (.argument _ _ _ isArg .here) (.argument _ _ _ List.mem_cons_self .here)

/-! ## What the oracles say of shared parts -/

/-- Two oracles give the same answers on what stands in the expression. -/
def Oracle.AgreeIn (o o' : Oracle) (x : Expr) : Prop := ∀ e : Expr, e.OccursIn x → o' e = o e

section

variable {o o' : Oracle}

theorem Oracle.AgreeIn.part {x y : Expr} (agree : o.AgreeIn o' y) (inside : x.OccursIn y) :
    o.AgreeIn o' x :=
  fun e occurs => agree e (occurs.trans inside)

theorem Oracle.hasType_congr {e : Expr} (same : o' e = o e) (p : GoType → Bool) :
    o'.hasType p e = o.hasType p e := by
  simp only [Oracle.hasType, Oracle.type?, same]

theorem Oracle.isError_congr {e : Expr} (same : o' e = o e) : o'.isError e = o.isError e := by
  simp only [Oracle.isError, Oracle.type?, same]

theorem Oracle.isNil_congr {e : Expr} (same : o' e = o e) : o'.isNil e = o.isNil e := by
  simp only [Oracle.isNil, same]

theorem Value.of_congr {t : Twin} (same : o' t.seen = o t.seen) : Value.of o' t = Value.of o t := by
  simp only [Value.of, Oracle.isError_congr same, same]

theorem Subject.sizeFunction?_congr {c : Call} (agree : o.AgreeIn o' c.toExpr) :
    Subject.sizeFunction? o' c = Subject.sizeFunction? o c := by
  have same : o' c.callee = o c.callee := agree _ (.callee _ _ _ .here)
  simp only [Subject.sizeFunction?, Oracle.type?, same]

theorem Subject.compared?_congr {l r : Twin} (op : BinaryOp) (left : o.AgreeIn o' l.seen)
    (right : o.AgreeIn o' r.seen) : Subject.compared? o' l op r = Subject.compared? o l op r := by
  unfold Subject.compared?
  rw [Oracle.isNil_congr (right _ .here), Value.of_congr (left _ .here),
    Value.of_congr (right _ .here)]
  cases isCall : l.seen.call? with
  | none => rfl
  | some c =>
      rw [Expr.call?_eq_some_iff.mp isCall] at left
      cases l.copy.call? with
      | none => rfl
      | some k => simp only [Subject.sizeFunction?_congr left]

theorem Subject.ofComparison?_congr {l r : Twin} (op : BinaryOp) (left : o.AgreeIn o' l.seen)
    (right : o.AgreeIn o' r.seen) :
    Subject.ofComparison? o' l op r = Subject.ofComparison? o l op r := by
  simp only [Subject.ofComparison?, left _ .here, right _ .here,
    Subject.compared?_congr _ left right, Subject.compared?_congr _ right left]

theorem Subject.ofType_congr {t : Twin} (same : o' t.seen = o t.seen) :
    Subject.ofType o' t = Subject.ofType o t := by
  simp only [Subject.ofType, Oracle.hasType_congr same, Value.of_congr same]

/-- The classification of an argument rests on what is known of its parts. -/
theorem Subject.of?_congr {t : Twin} (agree : o.AgreeIn o' t.seen) :
    Subject.of? o' t = Subject.of? o t := by
  have same : o' t.seen = o t.seen := agree _ .here
  unfold Subject.of?
  rw [Oracle.isError_congr same, Value.of_congr same, Subject.ofType_congr same]
  obtain ⟨seen, copy⟩ := t
  cases seen with
  | call so sf sargs ss =>
      have sized : Subject.sizeFunction? o' ⟨so, sf, sargs, ss⟩ =
          Subject.sizeFunction? o ⟨so, sf, sargs, ss⟩ := Subject.sizeFunction?_congr agree
      cases copy with
      | call => simp only [sized]
      | _ => rfl
  | binary so sx sop sy =>
      have left : o.AgreeIn o' sx := agree.part (.left so sop sy .here)
      have right : o.AgreeIn o' sy := agree.part (.right so sx sop .here)
      have compared : ∀ cx cy, Subject.ofComparison? o' ⟨sx, cx⟩ sop ⟨sy, cy⟩ =
          Subject.ofComparison? o ⟨sx, cx⟩ sop ⟨sy, cy⟩ :=
        fun cx cy => Subject.ofComparison?_congr sop left right
      cases copy with
      | binary => simp only [compared]
      | _ => rfl
  | _ => rfl

/-- The actual value is the same in a call with the same arguments. -/
theorem Actual.of?_sameArgs {c c' : Call} (depth : Nat) (function : String)
    (args : c'.args = c.args) (agree : ∀ a ∈ c.args, o.AgreeIn o' a) :
    Actual.of? o' ⟨c', c', depth⟩ function =
      (Actual.of? o ⟨c, c, depth⟩ function).map fun a => { a with call := ⟨c', c'⟩ } := by
  have arg : ∀ index, (CallTwin.mk c' c').arg? index = (CallTwin.mk c c).arg? index := by
    simp [CallTwin.arg?, args]
  have known : ∀ {index t}, (CallTwin.mk c c).arg? index = some t → o.AgreeIn o' t.seen := by
    intro index t found
    obtain ⟨e, isArg, rfl⟩ := CallTwin.arg?_same found
    exact agree e (List.mem_of_getElem? isArg)
  simp only [Actual.of?, arg, Option.bind_eq_bind]
  cases Actual.offset? function with
  | none => rfl
  | some first =>
      simp only [Option.bind_some]
      cases found : (CallTwin.mk c c).arg? first with
      | none => rfl
      | some t =>
          have skips := Oracle.hasType_congr (known found _ .here) GoType.isContext
          simp only [Option.bind_some, skips]
          generalize (if Actual.isAsyncFunction function && o.hasType GoType.isContext t.seen
            then first + 1 else first) = offset
          cases found' : (CallTwin.mk c c).arg? offset with
          | none => rfl
          | some t' =>
              have fixed : Actual.isFixedCall o' t'.seen = Actual.isFixedCall o t'.seen := by
                simp only [Actual.isFixedCall, Oracle.hasType_congr (known found' _ .here)]
              simp only [Option.bind_some, Subject.of?_congr (known found'), fixed]
              cases Subject.of? o t' <;> rfl

/-! ## The whole assertion -/

/-- What is recognized of an assertion and of the qualified one: all is the same but
the callees, and so are the answers on what the rules look at. -/
structure Assertion.Alike (b : String) (taking taking' : Call) (a a' : Assertion) : Prop where
  style_eq : a.style = .dot
  style_eq' : a'.style = .named b
  method_eq : a'.method = a.method
  actual_eq : a'.actual = { a.actual with call := ⟨taking', taking'⟩ }
  copies : Call.Alike taking taking' a.actual.depth (QualifiedMatcher b) a.call.copy a'.call.copy
  matcher : ∃ e e', Option.Rel (Matcher.Alike b e e') a.matcher a'.matcher ∧
    ∀ x : Expr, x.OccursIn e → x.OccursIn e' → a'.oracle x = a.oracle x
  actual_known : a'.oracle a.actual.arg.seen = a.oracle a.actual.arg.seen

/-- **An assertion is recognized exactly when the qualified one is**, and what is
recognized is alike. -/
theorem Assertion.of?_alike {b : String} {c c' taking taking' : Call} {n : Nat}
    (qualified : taking.QualifiedBy b taking')
    (alike : Call.Alike taking taking' n (QualifiedMatcher b) c c') (lacks : c.toExpr.Lacks b)
    (agree : ∀ e : Expr, e.OccursIn c.toExpr → e.OccursIn c'.toExpr → o' e = o e) :
    Option.Rel (Assertion.Alike b taking taking') (Assertion.of? .dot o c c)
      (Assertion.of? (.named b) o' c' c') := by
  obtain @⟨x, x', args, args', co, so, m, s, helpers, first⟩ := alike
  have under := helpers.underHelpers
  have shared : ∀ a ∈ taking.args, o.AgreeIn o' a := by
    intro a isArg e occurs
    have isArg' : a ∈ taking'.args := qualified.args_eq ▸ isArg
    refine agree e ?_ ?_
    · exact .callee _ _ _ (.selected _ _
        ((occurs.trans (Call.argument_occursIn isArg)).trans under.1.occursIn))
    · exact .callee _ _ _ (.selected _ _
        ((occurs.trans (Call.argument_occursIn isArg')).trans under.2.occursIn))
  obtain ⟨stops, stops'⟩ := qualified.stops o o'
  simp only [Assertion.of?, Expr.selector?, Option.bind_eq_bind, Option.bind_some, ne_eq,
    not_true_eq_false, if_false, ImportStyle.actual?,
    ImportStyle.actualFrom?_of_under under.1 stops, ImportStyle.actualFrom?_of_under under.2 stops',
    qualified.actualFunction? o o', Actual.of?_sameArgs _ _ qualified.args_eq shared]
  cases Method.ofName? m.name with
  | none => exact .none
  | some method =>
      cases ImportStyle.dot.actualFunction? o taking with
      | none => exact .none
      | some function =>
          simp only [Option.bind_some]
          cases classified : Actual.of? o ⟨taking, taking, 0 + n⟩ function with
          | none => exact .none
          | some actual =>
              obtain ⟨depth, -, value, isArg, arg, -⟩ := Actual.of?_same rfl classified
              rw [Nat.zero_add] at depth
              refine .some ⟨rfl, rfl, rfl, rfl, ?_, ?_, ?_⟩
              · exact depth ▸ .intro co so m s helpers first
              · cases first with
                | nil => exact ⟨x, x', .none, fun e inside inside' =>
                    agree e (.callee _ _ _ (.selected _ _ inside))
                      (.callee _ _ _ (.selected _ _ inside'))⟩
                | @cons t t' rest first =>
                    have isFirst : t ∈ t :: rest := List.mem_cons_self
                    have isFirst' : t' ∈ t' :: rest := List.mem_cons_self
                    exact ⟨t, t', Matcher.find?_qualified first
                      (lacks.part (.argument _ _ _ isFirst .here)) 0, fun e inside inside' =>
                        agree e (.argument _ _ _ isFirst inside) (.argument _ _ _ isFirst' inside')⟩
              · simpa only [arg] using shared value (List.mem_of_getElem? isArg) value .here

end

end GomegaLint
