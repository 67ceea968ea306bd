import Mathlib
import GomegaLint.Proofs.Qualified.Recognition

/-!
# Rules do not depend on how Gomega is imported

An assertion and the qualified one are fixed alike.  The edits of a draft find the
same places in both; what they put there is built for each file as it names Gomega,
and is the same once the package name is erased (`Expr.unqualified`).

Every edit succeeds on both drafts or on none (`Draft.setActualArg_alike`,
`Draft.setInnerMatcher_alike` and the like), and so does the fix of every rule
(`Rule.draft?_same`).  `Rule.check_qualified` is the result for a whole assertion,
from its recognition on.
-/

namespace GomegaLint

/-! ## Erasing a package name -/

mutual

/-- The expression with every member of the package under its bare name. -/
def Expr.unqualified (b : String) : Expr → Expr
  | .ident i => .ident i
  | .selector o x m =>
    if (ImportStyle.named b).isBoundName x then .ident m else .selector o (x.unqualified b) m
  | .call o f args s => .call o (f.unqualified b) (Expr.unqualifiedAll b args) s
  | .binary o x op y => .binary o (x.unqualified b) op (y.unqualified b)
  | .unary o op x => .unary o op (x.unqualified b)
  | .star o x => .star o (x.unqualified b)
  | .paren o x => .paren o (x.unqualified b)
  | .literal o kind v => .literal o kind v
  | .verbatim o t => .verbatim o t

/-- Expressions with every member of the package under its bare name. -/
def Expr.unqualifiedAll (b : String) : List Expr → List Expr
  | [] => []
  | e :: es => e.unqualified b :: Expr.unqualifiedAll b es

end

/-- The call with every member of the package under its bare name. -/
def Call.unqualified (b : String) (c : Call) : Call :=
  ⟨c.origin, c.callee.unqualified b, Expr.unqualifiedAll b c.args, c.spread⟩

/-- The expressions are the same without the package name. -/
def Expr.SameUnqualified (b : String) (e e' : Expr) : Prop := e'.unqualified b = e.unqualified b

section

variable {b : String} {taking taking' c c' : Call} {x x' : Expr} {n : Nat}

theorem Call.QualifiedBy.same (qualified : c.QualifiedBy b c') :
    c.toExpr.SameUnqualified b c'.toExpr := by
  cases qualified with
  | intro _ _ _ _ _ package =>
      simp [Expr.SameUnqualified, Call.toExpr, Expr.unqualified, ImportStyle.isBoundName, package]

theorem QualifiedMatcher.same {e e' : Expr} (qualified : QualifiedMatcher b e e') :
    e.SameUnqualified b e' := by
  induction qualified with
  | other => rfl
  | innermost qualified last => exact qualified.same
  | wrapper o so as s package isNot below ih =>
      have inside : Expr.unqualified b _ = Expr.unqualified b _ := ih
      simp [Expr.SameUnqualified, Expr.unqualified, Expr.unqualifiedAll, ImportStyle.isBoundName,
        package, inside]

theorem UnderSameHelpers.same (qualified : taking.QualifiedBy b taking')
    (under : UnderSameHelpers taking taking' n x x') : x.SameUnqualified b x' := by
  induction under with
  | here => exact qualified.same
  | helper o so args s below isHelper ih =>
      have noName := below.underHelpers.1.isBoundName (.named b)
      have noName' := below.underHelpers.2.isBoundName (.named b)
      simp only [Expr.SameUnqualified, Expr.unqualified, noName, noName', Bool.false_eq_true,
        if_false]
      rw [show _ = _ from ih]

/-- Alike assertions are the same without the package name. -/
theorem Call.Alike.unqualified_eq {R : Expr → Expr → Prop}
    (qualified : taking.QualifiedBy b taking') (alike : Call.Alike taking taking' n R c c')
    (same : ∀ e e', R e e' → e.SameUnqualified b e') : c'.unqualified b = c.unqualified b := by
  cases alike with
  | intro o so m s helpers first =>
      have noName := helpers.underHelpers.1.isBoundName (.named b)
      have noName' := helpers.underHelpers.2.isBoundName (.named b)
      have actual := helpers.same qualified
      simp only [Call.unqualified, Expr.unqualified, noName, noName', Bool.false_eq_true, if_false]
      rw [show _ = _ from actual]
      cases first with
      | nil => rfl
      | cons rest first =>
          simp only [Expr.unqualifiedAll]
          rw [show _ = _ from same _ _ first]

/-- A matcher call is built alike for both files. -/
theorem ImportStyle.matcher_same (b name : String) (args : List Expr) :
    (ImportStyle.dot.matcher name args).toExpr.SameUnqualified b
      ((ImportStyle.named b).matcher name args).toExpr := by
  simp [Expr.SameUnqualified, ImportStyle.matcher, ImportStyle.functionExpr, Call.toExpr,
    Expr.unqualified, ImportStyle.isBoundName, Expr.named]

end

/-! ## Drafts -/

/-- Drafts of an assertion and of the qualified one, with related matchers. -/
inductive Draft.Alike (b : String) (R : Expr → Expr → Prop) : Draft → Draft → Prop
  | intro {taking taking' c c' : Call} {n : Nat} (style style' : ImportStyle) (notDepth : Nat)
      (qualified : taking.QualifiedBy b taking') (calls : Call.Alike taking taking' n R c c') :
      Alike b R ⟨c, style, n, notDepth⟩ ⟨c', style', n, notDepth⟩

namespace Draft

variable {b : String} {d d' : Draft} {R : Expr → Expr → Prop}

/-- What holds of the two results of an edit, and is kept by a helper around both,
holds of the results under the same helpers. -/
theorem editUnder_alike {edit : Expr → Option Expr} (P : Nat → Expr → Expr → Prop) {c c' : Call}
    {n : Nat} {x x' : Expr} (under : UnderSameHelpers c c' n x x')
    (bottom : Option.Rel (P 0) (edit c.toExpr) (edit c'.toExpr))
    (step : ∀ {n y y' m} (o so args s), ImportStyle.isHelper m.name = true → P n y y' →
      P (n + 1) (.call o (.selector so y m) args s) (.call o (.selector so y' m) args s)) :
    Option.Rel (P n) (editUnder edit n x) (editUnder edit n x') := by
  induction under with
  | here => exact bottom
  | helper o so args s below isHelper ih =>
      exact ih.map fun y y' kept => step o so args s isHelper kept

theorem setActualArg_alike (alike : Draft.Alike b R d d') (index : Nat) (e : Expr) :
    Option.Rel (Draft.Alike b R) (d.setActualArg index e) (d'.setActualArg index e) := by
  obtain ⟨style, style', notDepth, qualified, ⟨co, so, m, s, helpers, first⟩⟩ := alike
  let P (n : Nat) (y y' : Expr) : Prop :=
    ∃ k k' : Call, k.QualifiedBy b k' ∧ UnderSameHelpers k k' n y y'
  refine Option.Rel.map (R := P _) (editUnder_alike P helpers ?_ ?_) ?_
  · cases qualified with
    | intro o so i args s package =>
        simp only [Call.toExpr]
        split
        · exact .some ⟨_, _, .intro o so i (args.set index e) s package, .here⟩
        · exact .none
  · rintro n y y' m o so args s isHelper ⟨k, k', qualified', helpers'⟩
    exact ⟨k, k', qualified', .helper o so args s helpers' isHelper⟩
  · rintro y y' ⟨k, k', qualified', helpers'⟩
    exact .intro style style' notDepth qualified' (.intro co so m s helpers' first)

/-- Drafts that are the same without the package name. -/
def SameUnqualified (b : String) (d d' : Draft) : Prop :=
  d'.call.unqualified b = d.call.unqualified b

theorem Alike.same (alike : Draft.Alike b R d d')
    (same : ∀ e e', R e e' → e.SameUnqualified b e') : d.SameUnqualified b d' := by
  cases alike with
  | intro style style' notDepth qualified calls => exact calls.unqualified_eq qualified same

/-- A helper that is chained behind both calls leaves them under one more. -/
theorem chainActual_same {method : String} (alike : Draft.Alike b R d d')
    (same : ∀ e e', R e e' → e.SameUnqualified b e') (isHelper : ImportStyle.isHelper method = true)
    (args : List Expr) :
    Option.Rel (SameUnqualified b) (d.chainActual method args) (d'.chainActual method args) := by
  obtain @⟨taking, taking', _, _, n, style, style', notDepth, qualified,
    ⟨co, so, m, s, helpers, first⟩⟩ := alike
  let P (n : Nat) : Expr → Expr → Prop := UnderSameHelpers taking taking' (n + 1)
  refine Option.Rel.map (R := P n) (editUnder_alike P helpers ?_ ?_) ?_
  · exact .some (.helper {} {} args false .here isHelper)
  · intro n y y' m o so args s isHelper' kept
    exact .helper o so args s kept isHelper'
  · intro y y' helpers'
    exact Call.Alike.unqualified_eq qualified (.intro co so m s helpers' first) same

/-! ## Edits of the matcher -/

theorem setMatcher_alike {new new' : Call} (alike : Draft.Alike b R d d')
    (same : new.toExpr.SameUnqualified b new'.toExpr) :
    Option.Rel (Draft.Alike b (Expr.SameUnqualified b)) (d.setMatcher new)
      (d'.setMatcher new') := by
  obtain ⟨style, style', notDepth, qualified, ⟨co, so, m, s, helpers, first⟩⟩ := alike
  cases first with
  | nil => exact .none
  | cons rest first =>
      exact .some (.intro style style' 0 qualified (.intro co so m s helpers (.cons rest same)))

/-- Callees that are the same, in calls with the same arguments but the first. -/
theorem sameUnqualified_call {f f' a a' : Expr} (callees : f.SameUnqualified b f')
    (firsts : a.SameUnqualified b a') (o : Origin) (as : List Expr) (s : Bool) :
    (Expr.call o f (a :: as) s).SameUnqualified b (.call o f' (a' :: as) s) := by
  simp only [Expr.SameUnqualified] at callees firsts
  simp only [Expr.SameUnqualified, Expr.unqualified, Expr.unqualifiedAll, callees, firsts]

theorem sameUnqualified_member {q i : Ident} (so : Origin) (package : q.name = b) :
    (Expr.ident i).SameUnqualified b (.selector so (.ident q) i) := by
  simp [Expr.SameUnqualified, Expr.unqualified, ImportStyle.isBoundName, package]

/-- New matchers at the same place of one expression. -/
theorem editInside_congr {new new' : Call} (same : new.toExpr.SameUnqualified b new'.toExpr)
    (n : Nat) (e : Expr) :
    Option.Rel (Expr.SameUnqualified b) (editInside (fun _ => new) n e)
      (editInside (fun _ => new') n e) := by
  induction n generalizing e with
  | zero =>
      cases e with
      | call o f args s => exact .some same
      | _ => exact .none
  | succ n ih =>
      cases e with
      | call o f args s =>
          cases args with
          | nil => exact .none
          | cons a as => exact (ih a).map fun y y' inside => sameUnqualified_call rfl inside o as s
      | _ => exact .none

/-- New matchers at the same place of a matcher and the qualified one. -/
theorem editInside_same {new new' : Call} (same : new.toExpr.SameUnqualified b new'.toExpr)
    {e e' : Expr} (qualified : QualifiedMatcher b e e') (n : Nat) :
    Option.Rel (Expr.SameUnqualified b) (editInside (fun _ => new) n e)
      (editInside (fun _ => new') n e') := by
  induction qualified generalizing n with
  | @other e notBare => exact editInside_congr same n e
  | innermost qualified last =>
      obtain ⟨o, so, i, args, s, package⟩ := qualified
      cases n with
      | zero => exact .some same
      | succ n =>
          cases args with
          | nil => exact .none
          | cons a as =>
              exact (editInside_congr same n a).map fun y y' inside =>
                sameUnqualified_call (sameUnqualified_member so package) inside o as s
  | wrapper o so as s package isNot below ih =>
      cases n with
      | zero => exact .some same
      | succ n =>
          exact (ih n).map fun y y' inside =>
            sameUnqualified_call (sameUnqualified_member so package) inside o as s

theorem setInnerMatcher_alike {new new' : Call} (alike : Draft.Alike b (QualifiedMatcher b) d d')
    (same : new.toExpr.SameUnqualified b new'.toExpr) :
    Option.Rel (Draft.Alike b (Expr.SameUnqualified b)) (d.setInnerMatcher new)
      (d'.setInnerMatcher new') := by
  obtain ⟨style, style', notDepth, qualified, ⟨co, so, m, s, helpers, first⟩⟩ := alike
  cases first with
  | nil => exact .none
  | cons rest first =>
      exact (editInside_same same first notDepth).map fun t t' inside =>
        .intro style style' notDepth qualified (.intro co so m s helpers (.cons rest inside))

/-! ## Edits of the polarity -/

theorem reverse_alike (alike : Draft.Alike b R d d') :
    Option.Rel (Draft.Alike b R) d.reverse d'.reverse := by
  obtain ⟨style, style', notDepth, qualified, ⟨co, so, m, s, helpers, first⟩⟩ := alike
  simp only [reverse, editMethod]
  cases Method.reversedName? m.name with
  | none => exact .none
  | some name =>
      exact .some (.intro style style' notDepth qualified (.intro co so { name } s helpers first))

theorem setNegative_alike (alike : Draft.Alike b R d d') (negative : Bool) :
    Option.Rel (Draft.Alike b R) (d.setNegative negative) (d'.setNegative negative) := by
  have turned := reverse_alike alike
  obtain ⟨style, style', notDepth, qualified, ⟨co, so, m, s, helpers, first⟩⟩ := alike
  simp only [setNegative]
  split
  · exact .some (.intro style style' notDepth qualified (.intro co so m s helpers first))
  · exact turned

end Draft

/-! ## Matchers and values -/

/-- Matchers of an assertion and of the qualified one, with what is known of their
arguments. -/
structure Matcher.Same (b : String) (a a' : Assertion) (m m' : Matcher) : Prop where
  name_eq : m'.name = m.name
  notDepth_eq : m'.notDepth = m.notDepth
  args_eq : m'.call.seen.args = m.call.seen.args
  arg?_eq : ∀ index, m'.arg? index = m.arg? index
  known : ∀ {index t}, m.arg? index = some t → a'.oracle t.seen = a.oracle t.seen
  copies : m.call.copy.toExpr.SameUnqualified b m'.call.copy.toExpr

section

variable {b : String} {taking taking' : Call} {a a' : Assertion} {m m' : Matcher}

theorem Matcher.Alike.sameMatcher {e e' : Expr} (alike : Matcher.Alike b e e' m m')
    (agree : ∀ x : Expr, x.OccursIn e → x.OccursIn e' → a'.oracle x = a.oracle x) :
    Matcher.Same b a a' m m' := by
  obtain ⟨name, notDepth, qualified, shared⟩ := alike
  refine ⟨rfl, rfl, qualified.args_eq, ?_, ?_, qualified.same⟩
  · simp [Matcher.arg?, CallTwin.arg?, qualified.args_eq]
  · intro index t found
    obtain ⟨x, isArg, rfl⟩ := CallTwin.arg?_same found
    obtain ⟨inside, inside'⟩ := shared x (List.mem_of_getElem? isArg)
    exact agree x inside inside'

namespace Assertion.Alike

theorem subject_eq (alike : Assertion.Alike b taking taking' a a') :
    a'.actual.subject = a.actual.subject := by
  rw [alike.actual_eq]

theorem arg_eq (alike : Assertion.Alike b taking taking' a a') :
    a'.actual.arg = a.actual.arg := by
  rw [alike.actual_eq]

theorem hasTrait_eq (alike : Assertion.Alike b taking taking' a a') (t : Trait) :
    a'.actual.hasTrait t = a.actual.hasTrait t := by
  rw [alike.actual_eq, Actual.hasTrait, Actual.hasTrait]

theorem matchers (alike : Assertion.Alike b taking taking' a a') :
    Option.Rel (Matcher.Same b a a') a.matcher a'.matcher := by
  obtain ⟨e, e', related, agree⟩ := alike.matcher
  exact related.mono fun m m' found => found.sameMatcher agree

theorem drafts (alike : Assertion.Alike b taking taking' a a')
    (qualified : taking.QualifiedBy b taking') :
    Draft.Alike b (QualifiedMatcher b) a.draft a'.draft := by
  have depth : a'.matcher.map (·.notDepth) = a.matcher.map (·.notDepth) :=
    alike.matchers.map_eq_map fun _ _ same => same.notDepth_eq
  simp only [Assertion.draft, depth, alike.actual_eq]
  exact .intro _ _ _ qualified alike.copies

theorem matcherName?_eq (alike : Assertion.Alike b taking taking' a a') :
    a'.matcherName? = a.matcherName? :=
  alike.matchers.map_eq_map fun _ _ same => same.name_eq

theorem isNegative_eq (alike : Assertion.Alike b taking taking' a a') :
    a'.isNegative = a.isNegative := by
  rw [Assertion.isNegative, alike.method_eq, Assertion.isNegative]

theorem expectsMatch_eq (alike : Assertion.Alike b taking taking' a a')
    (same : Matcher.Same b a a' m m') : a'.expectsMatch m' = a.expectsMatch m := by
  simp only [Assertion.expectsMatch, Matcher.isNegated, alike.isNegative_eq, same.notDepth_eq]

end Assertion.Alike

namespace Matcher.Same

theorem argCount_eq (same : Matcher.Same b a a' m m') : m'.argCount = m.argCount :=
  congrArg List.length same.args_eq

theorem stringArg?_eq (same : Matcher.Same b a a' m m') (index : Nat) :
    m'.stringArg? index = m.stringArg? index := by
  simp only [Matcher.stringArg?, same.args_eq]

theorem value_eq (same : Matcher.Same b a a' m m') {index : Nat} {t : Twin}
    (found : m.arg? index = some t) : a'.value t = a.value t :=
  Value.of_congr (same.known found)

theorem isNilOrUnknown_eq (same : Matcher.Same b a a' m m') {index : Nat} {t : Twin}
    (found : m.arg? index = some t) :
    a'.oracle.isNilOrUnknown t.seen = a.oracle.isNilOrUnknown t.seen := by
  simp only [Oracle.isNilOrUnknown, Oracle.isNil_congr (same.known found), same.known found]

theorem wantedBool?_eq (same : Matcher.Same b a a' m m') :
    Assertion.wantedBool? m' = Assertion.wantedBool? m := by
  simp only [Assertion.wantedBool?, same.name_eq, same.argCount_eq, same.arg?_eq]

end Matcher.Same

theorem Assertion.Alike.expectsTrue?_eq (alike : Assertion.Alike b taking taking' a a')
    (same : Matcher.Same b a a' m m') : a'.expectsTrue? m' = a.expectsTrue? m := by
  simp only [Assertion.expectsTrue?, same.wantedBool?_eq, alike.expectsMatch_eq same]

/-! ## The rules one by one -/

namespace Rule

/-- New matchers that are the same without the package name, with the same turn of
the polarity. -/
def SameCheck (b : String) (p p' : Call × Bool) : Prop :=
  p.1.toExpr.SameUnqualified b p'.1.toExpr ∧ p'.2 = p.2

theorem sizeMatcher_same (b : String) (f : SizeFunction) (size : Expr) (isZero : Bool) :
    (sizeMatcher .dot f size isZero).toExpr.SameUnqualified b
      (sizeMatcher (.named b) f size isZero).toExpr := by
  cases f with
  | len => cases isZero <;> exact ImportStyle.matcher_same b _ _
  | cap => exact ImportStyle.matcher_same b _ _

theorem sizeCheck?_same (alike : Assertion.Alike b taking taking' a a')
    (same : Matcher.Same b a a' m m') (f : SizeFunction) :
    Option.Rel (SameCheck b) (sizeCheck? a m f) (sizeCheck? a' m' f) := by
  -- What a size of the file and a matcher for it come to, whatever the turn.
  have sized : ∀ {index t} turns, m.arg? index = some t →
      SameCheck b (sizeMatcherOf a.style f (a.value t), turns)
        (sizeMatcherOf a'.style f (a'.value t), turns) := by
    intro index t turns found
    rw [alike.style_eq, alike.style_eq', same.value_eq found]
    exact ⟨sizeMatcher_same b f _ _, rfl⟩
  have empty : ∀ turns, SameCheck b (sizeMatcher a.style f (Expr.intLiteral "0") true, turns)
      (sizeMatcher a'.style f (Expr.intLiteral "0") true, turns) := by
    intro turns
    rw [alike.style_eq, alike.style_eq']
    exact ⟨sizeMatcher_same b f _ _, rfl⟩
  unfold sizeCheck?
  rw [same.name_eq, same.argCount_eq, same.arg?_eq, same.arg?_eq, same.stringArg?_eq]
  split
  · cases found : m.arg? 0 with
    | none => exact .none
    | some t => exact .some (sized false found)
  · cases found : m.arg? 0 with
    | none => exact .none
    | some t => exact .some (sized false found)
  · exact .some (empty false)
  · cases m.stringArg? 0 with
    | none => exact .none
    | some op =>
        cases found : m.arg? 1 with
        | none => exact .none
        | some t =>
            simp only [Option.bind_eq_bind, Option.bind_some, same.value_eq found]
            split
            · exact .some (same.value_eq found ▸ sized false found)
            · split
              · exact .some (same.value_eq found ▸ sized true found)
              · split
                · exact .some (empty true)
                · exact .none
  · exact .none

theorem sizeComparisonCheck?_same (b : String) (f : SizeFunction) (op : BinaryOp) (v : Value) :
    Option.Rel (SameCheck b) (sizeComparisonCheck? .dot f op v)
      (sizeComparisonCheck? (.named b) f op v) := by
  unfold sizeComparisonCheck?
  split
  · exact .some ⟨sizeMatcher_same b f _ _, rfl⟩
  · exact .some ⟨sizeMatcher_same b f _ _, rfl⟩
  · split
    · exact .some ⟨sizeMatcher_same b f _ _, rfl⟩
    · exact .none
  · split
    · exact .some ⟨sizeMatcher_same b f _ _, rfl⟩
    · exact .none
  · exact .none

theorem comparisonCheck?_same (b : String) (left : Value) (op : BinaryOp) (right : Value) :
    Option.Rel (SameCheck b) (comparisonCheck? .dot left op right)
      (comparisonCheck? (.named b) left op right) := by
  unfold comparisonCheck?
  simp only
  split
  · exact .some ⟨ImportStyle.matcher_same b _ _, rfl⟩
  · split
    · split
      · exact .none
      · exact .some ⟨ImportStyle.matcher_same b _ _, rfl⟩
    · exact .none

/-- A part of the actual value in its place. -/
theorem setActualArg_same (alike : Assertion.Alike b taking taking' a a')
    (qualified : taking.QualifiedBy b taking') (e : Expr) :
    Option.Rel (Draft.Alike b (QualifiedMatcher b)) (a.draft.setActualArg a.actual.offset e)
      (a'.draft.setActualArg a'.actual.offset e) := by
  rw [alike.actual_eq]
  exact Draft.setActualArg_alike (alike.drafts qualified) _ e

/-- A whole matcher in the place of the old one, and the polarity set. -/
theorem restated_same {R : Expr → Expr → Prop} {d d' : Draft} {new new' : Call}
    (alike : Draft.Alike b R d d') (same : new.toExpr.SameUnqualified b new'.toExpr)
    (negative : Bool) :
    Option.Rel (Draft.SameUnqualified b) ((d.setMatcher new).bind (·.setNegative negative))
      ((d'.setMatcher new').bind (·.setNegative negative)) :=
  (Draft.setMatcher_alike alike same).bind fun _ _ alike' =>
    (Draft.setNegative_alike alike' negative).mono fun _ _ alike'' => alike''.same fun _ _ => id

theorem fixLength?_same (alike : Assertion.Alike b taking taking' a a')
    (qualified : taking.QualifiedBy b taking') (f : SizeFunction) :
    Option.Rel (Draft.SameUnqualified b) (fixLength? f a) (fixLength? f a') := by
  have moved := setActualArg_same alike qualified
  unfold fixLength?
  refine alike.matchers.bind fun m m' same => ?_
  rw [alike.subject_eq]
  cases a.actual.subject with
  | size g sized arg =>
      simp only
      split
      · refine (moved arg.copy).bind fun d d' alikeDrafts => ?_
        refine (sizeCheck?_same alike same f).bind fun p p' check => ?_
        obtain ⟨new, turns⟩ := p
        obtain ⟨new', turns'⟩ := p'
        obtain ⟨sameNew, rfl⟩ := check
        refine (Draft.setInnerMatcher_alike alikeDrafts sameNew).bind fun e e' alikeEdited => ?_
        split
        · exact (Draft.reverse_alike alikeEdited).mono fun _ _ alike' => alike'.same fun _ _ => id
        · exact .some (alikeEdited.same fun _ _ => id)
      · exact .none
  | sizeComparison g sized arg op right =>
      simp only
      split
      · simp only [fixSizeComparison?, alike.expectsTrue?_eq same, alike.style_eq, alike.style_eq']
        cases a.expectsTrue? m with
        | none => exact .none
        | some expected =>
            refine (sizeComparisonCheck?_same b f op right).bind fun p p' check => ?_
            obtain ⟨new, opposite⟩ := p
            obtain ⟨new', opposite'⟩ := p'
            obtain ⟨sameNew, rfl⟩ := check
            exact (moved arg.copy).bind fun d d' alikeDrafts =>
              restated_same alikeDrafts sameNew _
      · exact .none
  | _ => exact .none

theorem fixComparison?_same (alike : Assertion.Alike b taking taking' a a')
    (qualified : taking.QualifiedBy b taking') :
    Option.Rel (Draft.SameUnqualified b) (fixComparison? a) (fixComparison? a') := by
  have moved := setActualArg_same alike qualified
  unfold fixComparison?
  refine alike.matchers.bind fun m m' same => ?_
  rw [alike.subject_eq]
  cases a.actual.subject with
  | comparison left op right =>
      simp only [alike.expectsTrue?_eq same, alike.style_eq, alike.style_eq']
      cases a.expectsTrue? m with
      | none => exact .none
      | some expected =>
          refine (comparisonCheck?_same b left op right).bind fun p p' check => ?_
          obtain ⟨new, opposite⟩ := p
          obtain ⟨new', opposite'⟩ := p'
          obtain ⟨sameNew, rfl⟩ := check
          exact (moved left.twin.copy).bind fun d d' alikeDrafts =>
            restated_same alikeDrafts sameNew _
  | _ => exact .none

/-- The innermost matcher in place of another. -/
theorem setInnerMatcher_same (alike : Assertion.Alike b taking taking' a a')
    (qualified : taking.QualifiedBy b taking') {new new' : Call}
    (same : new.toExpr.SameUnqualified b new'.toExpr) :
    Option.Rel (Draft.SameUnqualified b) (a.draft.setInnerMatcher new)
      (a'.draft.setInnerMatcher new') :=
  (Draft.setInnerMatcher_alike (alike.drafts qualified) same).mono fun _ _ alike' =>
    alike'.same fun _ _ => id

theorem fixEqualNil?_same (alike : Assertion.Alike b taking taking' a a')
    (qualified : taking.QualifiedBy b taking') (same : Matcher.Same b a a' m m') :
    Option.Rel (Draft.SameUnqualified b) (fixEqualNil? a m) (fixEqualNil? a' m') := by
  simp only [fixEqualNil?, same.name_eq, same.argCount_eq, same.arg?_eq, alike.style_eq,
    alike.style_eq']
  split
  · exact .none
  · cases found : m.arg? 0 with
    | none => exact .none
    | some t =>
        simp only [Option.bind_eq_bind, Option.bind_some, same.isNilOrUnknown_eq found]
        split
        · exact .none
        · exact setInnerMatcher_same alike qualified (ImportStyle.matcher_same b _ _)

theorem fixNil?_same (alike : Assertion.Alike b taking taking' a a')
    (qualified : taking.QualifiedBy b taking') :
    Option.Rel (Draft.SameUnqualified b) (fixNil? a) (fixNil? a') := by
  have moved := setActualArg_same alike qualified
  unfold fixNil?
  refine alike.matchers.bind fun m m' same => ?_
  rw [alike.subject_eq]
  cases a.actual.subject with
  | nilComparison left op right =>
      simp only [fixNilComparison?, alike.expectsTrue?_eq same, alike.style_eq, alike.style_eq']
      split
      · exact .none
      · cases a.expectsTrue? m with
        | none => exact .none
        | some expected =>
            exact (moved left.twin.copy).bind fun d d' alikeDrafts =>
              restated_same alikeDrafts (ImportStyle.matcher_same b _ _) _
  | plain v => exact fixEqualNil?_same alike qualified same
  | size g sized arg => exact fixEqualNil?_same alike qualified same
  | _ => exact .none

theorem isNilMatcher_eq (same : Matcher.Same b a a' m m') :
    isNilMatcher a' m' = isNilMatcher a m := by
  have asks : (m.arg? 0).any (fun t => a'.oracle.isNilOrUnknown t.seen) =
      (m.arg? 0).any fun t => a.oracle.isNilOrUnknown t.seen := by
    cases found : m.arg? 0 with
    | none => rfl
    | some t => exact same.isNilOrUnknown_eq found
  simp only [isNilMatcher, same.name_eq, same.argCount_eq, same.arg?_eq, asks]

theorem assertError_same (alike : Assertion.Alike b taking taking' a a')
    {R : Expr → Expr → Prop} {d d' : Draft} (alikeDrafts : Draft.Alike b R d d') (v : Value)
    (expectsNil : Bool) :
    Option.Rel (Draft.SameUnqualified b) (assertError a d v expectsNil)
      (assertError a' d' v expectsNil) := by
  simp only [assertError, alike.style_eq, alike.style_eq']
  split
  · exact restated_same alikeDrafts (ImportStyle.matcher_same b _ _) _
  · exact restated_same alikeDrafts (ImportStyle.matcher_same b _ _) _

theorem fixError?_same (alike : Assertion.Alike b taking taking' a a')
    (qualified : taking.QualifiedBy b taking') :
    Option.Rel (Draft.SameUnqualified b) (fixError? a) (fixError? a') := by
  have moved := setActualArg_same alike qualified
  unfold fixError?
  refine alike.matchers.bind fun m m' same => ?_
  rw [alike.subject_eq]
  cases a.actual.subject with
  | error v =>
      simp only [isNilMatcher_eq same, alike.expectsMatch_eq same]
      split
      · exact .none
      · exact assertError_same alike (alike.drafts qualified) v _
  | nilComparison left op right =>
      simp only [alike.expectsTrue?_eq same]
      split
      · exact .none
      · cases a.expectsTrue? m with
        | none => exact .none
        | some expected =>
            exact (moved left.twin.copy).bind fun d d' alikeDrafts =>
              assertError_same alike alikeDrafts left _
  | _ => exact .none

theorem fixAsync?_same (alike : Assertion.Alike b taking taking' a a')
    (qualified : taking.QualifiedBy b taking') :
    Option.Rel (Draft.SameUnqualified b) (fixAsync? a) (fixAsync? a') := by
  have moved := setActualArg_same alike qualified
  have sameMatchers : ∀ e e', QualifiedMatcher b e e' → e.SameUnqualified b e' :=
    fun _ _ matchers => matchers.same
  unfold fixAsync?
  rw [alike.arg_eq]
  cases a.actual.arg.copy with
  | call o f args spread =>
      simp only
      split
      · exact .none
      · refine (moved f).bind fun d d' alikeDrafts => ?_
        split
        · exact .some (alikeDrafts.same sameMatchers)
        · exact Draft.chainActual_same alikeDrafts sameMatchers (by decide) args
  | _ => exact .none

theorem comparesValue_eq (same : Matcher.Same b a a' m m') :
    comparesValue a' m' = comparesValue a m := by
  unfold comparesValue
  simp only [same.name_eq, same.argCount_eq, same.arg?_eq]
  split
  · rfl
  · split
    · rename_i index _
      cases found : m.arg? index with
      | none => rfl
      | some t => simp only [Option.any_some, same.value_eq found, same.isNilOrUnknown_eq found]
    · rfl

theorem fixPointer?_same (alike : Assertion.Alike b taking taking' a a')
    (qualified : taking.QualifiedBy b taking') :
    Option.Rel (Draft.SameUnqualified b) (fixPointer? a) (fixPointer? a') := by
  unfold fixPointer?
  refine alike.matchers.bind fun m m' same => ?_
  simp only [alike.actual_eq, comparesValue_eq same, alike.style_eq, alike.style_eq']
  cases a.actual.subject with
  | plain v =>
      simp only
      split
      · exact .none
      · refine setInnerMatcher_same alike qualified ?_
        exact Draft.sameUnqualified_call (Draft.sameUnqualified_member {} rfl) same.copies {} []
          false
  | _ => exact .none

/-! ## All rules -/

/-- **The fix of every rule is the same without the package name**, if there is one. -/
theorem draft?_same (alike : Assertion.Alike b taking taking' a a')
    (qualified : taking.QualifiedBy b taking') (r : Rule) :
    Option.Rel (Draft.SameUnqualified b) (r.draft? a) (r.draft? a') := by
  cases r with
  | lenAssertion | capAssertion => exact fixLength?_same alike qualified _
  | nilAssertion => exact fixNil?_same alike qualified
  | errorAssertion => exact fixError?_same alike qualified
  | compareAssertion => exact fixComparison?_same alike qualified
  | asyncCall =>
      simp only [draft?, alike.hasTrait_eq, alike.subject_eq]
      by_cases late : a.actual.hasTrait .asyncCall = true
      · rw [if_pos late, if_pos late]
        split
        · exact .none
        · exact fixAsync?_same alike qualified
      · rw [if_neg late, if_neg late]
        exact .none
  | comparePointerValue => exact fixPointer?_same alike qualified
  | haveOccurredNonError | succeedNonError => exact .none

theorem isKnownNonError_eq (alike : Assertion.Alike b taking taking' a a') :
    isKnownNonError a' = isKnownNonError a := by
  have value : a'.value a.actual.arg = a.value a.actual.arg := Value.of_congr alike.actual_known
  simp only [isKnownNonError, Actual.hasTrait, alike.actual_eq, value]

/-- A rule reports both assertions or none. -/
theorem isSome_check_eq (alike : Assertion.Alike b taking taking' a a')
    (qualified : taking.QualifiedBy b taking') (r : Rule) :
    (r.check a').isSome = (r.check a).isSome := by
  have drafts := draft?_same alike qualified r
  have value : a'.value a.actual.arg = a.value a.actual.arg := Value.of_congr alike.actual_known
  cases r with
  | lenAssertion | capAssertion | nilAssertion | errorAssertion | compareAssertion
  | comparePointerValue =>
      simp only [check, checkLen, checkCap, checkNil, checkError, checkComparison, checkPointer,
        Option.isSome_map]
      exact drafts.isSome_eq
  | asyncCall =>
      simp only [check, checkAsync, alike.hasTrait_eq, alike.subject_eq]
      by_cases late : a.actual.hasTrait .asyncCall = true
      · rw [if_pos late, if_pos late]
        cases a.actual.subject <;> rfl
      · rw [if_neg late, if_neg late]
  | haveOccurredNonError =>
      simp only [check, checkHaveOccurred, alike.matcherName?_eq, isKnownNonError_eq alike]
  | succeedNonError =>
      simp only [check, checkSucceed, alike.matcherName?_eq, isKnownNonError_eq alike]
      simp only [alike.actual_eq, value]

end Rule

end

/-- What is found in an assertion, reported of it and made of it is the same for the
other one, up to the package name. -/
structure Assertion.CheckedAlike (b : String) (a a' : Assertion) : Prop where
  depth_eq : a'.actual.depth = a.actual.depth
  offset_eq : a'.actual.offset = a.actual.offset
  traits_eq : a'.actual.traits = a.actual.traits
  matcherName?_eq : a'.matcherName? = a.matcherName?
  reports : ∀ r : Rule, (r.check a').isSome = (r.check a).isSome
  fixes : ∀ r : Rule,
    ((r.check a').bind Report.fix).isSome = ((r.check a).bind Report.fix).isSome
  drafts : ∀ r : Rule, Option.Rel (fun d d' : Draft => d'.call.unqualified b = d.call.unqualified b)
    (r.draft? a) (r.draft? a')

/-- **How Gomega is imported changes the text of a fix only.**  Take an assertion of a
file that imports Gomega with a dot, in which no identifier is named `b`, and the same
assertion with Gomega's functions selected from `b`.  With oracles that agree on what
stands in both, either both are recognized or none; every rule reports both or none,
fixes both or none, and the fixes are equal after erasing `b`. -/
theorem Rule.check_qualified (b : String) (c c' : Call) (qualified : c.Qualified b c')
    (lacks : c.toExpr.Lacks b) (o o' : Oracle)
    (agree : ∀ e : Expr, e.OccursIn c.toExpr → e.OccursIn c'.toExpr → o' e = o e) :
    Option.Rel (Assertion.CheckedAlike b) (Assertion.of? .dot o c c)
      (Assertion.of? (.named b) o' c' c') := by
  obtain ⟨taking, taking', n, qualifiedTaking, alike⟩ := qualified
  refine (Assertion.of?_alike qualifiedTaking alike lacks agree).mono fun a a' alike => ?_
  have drafts := Rule.draft?_same alike qualifiedTaking
  refine ⟨?_, ?_, ?_, alike.matcherName?_eq, Rule.isSome_check_eq alike qualifiedTaking, ?_, drafts⟩
  · rw [alike.actual_eq]
  · rw [alike.actual_eq]
  · rw [alike.actual_eq]
  · intro r
    rw [Rule.fix_check, Rule.fix_check, Option.isSome_map, Option.isSome_map]
    exact (drafts r).isSome_eq

/-- `Expect(len(x)).WithOffset(1).To(Not(Equal(0)))`, with the functions as given. -/
def negatedLength (function : String → Expr) : Call where
  callee :=
    .selector {}
      (.call {} (.selector {}
        (.call {} (function "Expect") [.call {} (.named "len") [.named "x"] false] false)
        { name := "WithOffset" }) [.intLiteral "1"] false)
      { name := "To" }
  args := [.call {} (function "Not") [.call {} (function "Equal") [.intLiteral "0"] false] false]

theorem Rule.check_qualified_negatedLength :
    Call.Qualified "g" (negatedLength .named) (negatedLength (ImportStyle.named "g").functionExpr) ∧
      (negatedLength .named).toExpr.Lacks "g" ∧
      Option.Rel (Assertion.CheckedAlike "g")
        (Assertion.of? .dot (fun _ => none) (negatedLength .named) (negatedLength .named))
        (Assertion.of? (.named "g") (fun _ => none)
          (negatedLength (ImportStyle.named "g").functionExpr)
          (negatedLength (ImportStyle.named "g").functionExpr)) ∧
      ((Assertion.of? .dot (fun _ => none) (negatedLength .named) (negatedLength .named)).bind
        fun a => (lenAssertion.check a).bind Report.fix) =
          some "Expect(x).WithOffset(1).To(Not(BeEmpty()))" := by
  have qualified : Call.Qualified "g" (negatedLength .named)
      (negatedLength (ImportStyle.named "g").functionExpr) := by
    have calls : ∀ name args, Call.QualifiedBy "g" ⟨{}, .named name, args, false⟩
        ⟨{}, (ImportStyle.named "g").functionExpr name, args, false⟩ :=
      fun name args => .intro {} {} { name } args false rfl
    have equal : QualifiedMatcher "g" (.call {} (.named "Equal") [.intLiteral "0"] false)
        (.call {} ((ImportStyle.named "g").functionExpr "Equal") [.intLiteral "0"] false) := by
      refine .innermost (calls "Equal" [.intLiteral "0"]) ?_
      rintro i ⟨⟩
      exact .inl (by decide)
    exact ⟨_, _, 1, calls "Expect" [.call {} (.named "len") [.named "x"] false],
      .intro {} {} _ false (.helper {} {} _ false .here (by decide))
        (.cons [] (.wrapper {} {} [] false rfl rfl equal))⟩
  have lacks : (negatedLength .named).toExpr.Lacks "g" := by
    simp [negatedLength, Call.toExpr, Expr.named, Expr.intLiteral]
  refine ⟨qualified, lacks, ?_, by decide⟩
  exact Rule.check_qualified "g" _ _ qualified lacks _ _ fun _ _ _ => rfl

end GomegaLint
