import Mathlib
import GomegaLint.Proofs.Meaning.Basic

/-!
# What is recognized in an assertion

Recognition walks an assertion together with a copy of it.  Where the copy is the
assertion itself, what it finds is read here off the syntax: the call of the
actual value under its helper calls (`UnderHelpers`), the innermost matcher under
its wrappers (`UnderNots`), and the operands of the actual value
(`Subject.Reads`).  `Assertion.Anatomy` collects this for a whole assertion.
-/

namespace GomegaLint

/-! ## The call of the actual value -/

/-- The call stands under so many helper calls. -/
inductive UnderHelpers (c : Call) : Nat → Expr → Prop
  | here : UnderHelpers c 0 c.toExpr
  | helper {n : Nat} {x : Expr} {m : Ident} (o so : Origin) (args : List Expr) (s : Bool)
      (below : UnderHelpers c n x) (isHelper : ImportStyle.isHelper m.name = true) :
      UnderHelpers c (n + 1) (.call o (.selector so x m) args s)

/-- The call is not that of a helper. -/
def Call.NoHelper (c : Call) : Prop :=
  ∀ o x m, c.callee = .selector o x m → ImportStyle.isHelper m.name = false

theorem UnderHelpers.actualArg? {c : Call} {n : Nat} {e : Expr} (under : UnderHelpers c n e)
    (noHelper : c.NoHelper) (index : Nat) : actualArg? index e = c.args[index]? := by
  induction under with
  | here =>
      obtain ⟨o, f, args, s⟩ := c
      cases f with
      | selector so x m =>
          have : ImportStyle.isHelper m.name = false := noHelper so x m rfl
          simp [Call.toExpr, GomegaLint.actualArg?, this]
      | _ => simp [Call.toExpr, GomegaLint.actualArg?]
  | helper o so args s below isHelper ih => simp [GomegaLint.actualArg?, isHelper, ih]

/-- The function of a call with a helper's name has no actual value. -/
theorem Actual.isHelper_of_offset? {name : String} {index : Nat}
    (found : Actual.offset? name = some index) : ImportStyle.isHelper name = false := by
  unfold Actual.offset? at found
  split at found <;> first | rfl | cases found

/-- The callee of a call that was taken for that of an actual value: a name, a
member of the package, or a member that is no helper. -/
def ImportStyle.Takes (style : ImportStyle) (callee : Expr) : Prop :=
  (∃ i, callee = .ident i) ∨
    ∃ o x m, callee = .selector o x m ∧
      (style.isBoundName x = true ∨ ImportStyle.isHelper m.name = false)

theorem ImportStyle.actualFrom?_same {style : ImportStyle} {o : Oracle} :
    ∀ {e : Expr} {depth : Nat} {found : ImportStyle.Found},
      style.actualFrom? o depth e e = some found →
        found.copy = found.seen ∧ style.Takes found.seen.callee ∧
          ∃ n, found.depth = depth + n ∧ UnderHelpers found.seen n e
  | .call _ (.ident i) _ _, depth, found, walked => by
      simp only [ImportStyle.actualFrom?, Option.some.injEq] at walked
      subst walked
      exact ⟨rfl, .inl ⟨i, rfl⟩, 0, rfl, .here⟩
  | .call co (.selector so x m) args s, depth, found, walked => by
      simp only [ImportStyle.actualFrom?, ne_eq, not_true_eq_false, if_false] at walked
      by_cases bound : style.isBoundName x = true
      · simp only [bound, Bool.and_self, if_true, Option.some.injEq] at walked
        subst walked
        exact ⟨rfl, .inr ⟨so, x, m, rfl, .inl bound⟩, 0, rfl, .here⟩
      · by_cases helper : ImportStyle.isHelper m.name = true
        · simp only [bound, Bool.and_self, helper, if_true, Bool.false_eq_true, if_false] at walked
          obtain ⟨same, takes, n, depths, under⟩ := actualFrom?_same walked
          exact ⟨same, takes, n + 1, by omega, .helper co so args s under helper⟩
        · have noHelper : ImportStyle.isHelper m.name = false := by simpa using helper
          simp only [bound, Bool.and_self, helper, Bool.false_eq_true, if_false] at walked
          split at walked
          · simp only [Option.some.injEq] at walked
            subst walked
            exact ⟨rfl, .inr ⟨so, x, m, rfl, .inr noHelper⟩, 0, rfl, .here⟩
          · cases walked
  | .call _ (.call ..) _ _, _, _, walked | .call _ (.binary ..) _ _, _, _, walked
  | .call _ (.unary ..) _ _, _, _, walked | .call _ (.star ..) _ _, _, _, walked
  | .call _ (.paren ..) _ _, _, _, walked | .call _ (.literal ..) _ _, _, _, walked
  | .call _ (.verbatim ..) _ _, _, _, walked
  | .ident _, _, _, walked | .selector .., _, _, walked | .binary .., _, _, walked
  | .unary .., _, _, walked | .star .., _, _, walked | .paren .., _, _, walked
  | .literal .., _, _, walked | .verbatim .., _, _, walked => by
      simp [ImportStyle.actualFrom?] at walked

/-- A call whose function has an actual value is none of a helper. -/
theorem ImportStyle.Takes.noHelper {style : ImportStyle} {o : Oracle} {c : Call}
    {function : String} {index : Nat} (takes : style.Takes c.callee)
    (invoked : style.actualFunction? o c = some function)
    (offset : Actual.offset? function = some index) : c.NoHelper := by
  intro so x m isMember
  rcases takes with ⟨i, isName⟩ | ⟨so', x', m', isMember', bound | noHelper⟩
  · rw [isName] at isMember
    cases isMember
  · rw [isMember'] at isMember
    cases isMember
    have same : m.name = function := by
      rw [ImportStyle.actualFunction?, isMember'] at invoked
      cases style with
      | dot => simp [ImportStyle.isBoundName] at bound
      | named package =>
          cases x with
          | ident i => simpa [ImportStyle.functionOf?, bound] using invoked
          | _ => simp [ImportStyle.isBoundName] at bound
    rw [same]
    exact Actual.isHelper_of_offset? offset
  · rw [isMember'] at isMember
    cases isMember
    exact noHelper

/-! ## The matcher -/

/-- The call stands under so many wrappers. -/
inductive UnderNots (style : ImportStyle) (c : Call) : Nat → Expr → Prop
  | here : UnderNots style c 0 c.toExpr
  | wrapped {n : Nat} {a : Expr} {as : List Expr} (wrapper : Call)
      (isNot : Interpretation.matcherName? style wrapper = some "Not")
      (first : wrapper.args = a :: as) (below : UnderNots style c n a) :
      UnderNots style c (n + 1) wrapper.toExpr

/-- No matcher call on the way to the innermost matcher has a spread argument. -/
def Unspread (style : ImportStyle) : Expr → Prop
  | .call _ f (a :: _) s => (style.matcherOf? f).isSome →
      s = false ∧ (style.matcherOf? f = some "Not" → Unspread style a)
  | .call _ f [] s => (style.matcherOf? f).isSome → s = false
  | _ => True

theorem Interpretation.accepts_not {V : Type} (I : Interpretation V) {style : ImportStyle}
    {wrapper : Call} {a : Expr} {as : List Expr}
    (isNot : Interpretation.matcherName? style wrapper = some "Not")
    (first : wrapper.args = a :: as) (v : V) :
    I.accepts style wrapper.toExpr v ↔ ¬ I.accepts style a v := by
  obtain ⟨o, f, args, s⟩ := wrapper
  subst first
  simp [Call.toExpr, Interpretation.accepts, isNot]

/-- Every wrapper turns the meaning around. -/
theorem UnderNots.accepts_iff {V : Type} (I : Interpretation V) {style : ImportStyle} {c : Call}
    {n : Nat} {e : Expr} (under : UnderNots style c n e) (v : V) :
    I.accepts style e v ↔ Negated (n % 2 == 1) (I.accepts style c.toExpr v) := by
  induction under with
  | here => simp [Negated]
  | @wrapped n a as wrapper isNot first below ih =>
      have parity : ((n + 1) % 2 == 1) = !(n % 2 == 1) := by
        rcases Nat.mod_two_eq_zero_or_one n with h | h <;> simp [Nat.add_mod, h]
      rw [I.accepts_not isNot first, ih, parity]
      cases n % 2 == 1 <;> simp [Negated]

/-- The innermost matcher is a call of the function it is named after, and no
argument of it is spread. -/
structure Matcher.Innermost (style : ImportStyle) (m : Matcher) : Prop where
  same : m.call.copy = m.call.seen
  named : Interpretation.matcherName? style m.call.seen = some m.name

theorem Unspread.spread {style : ImportStyle} {c : Call} {name : String}
    (unspread : Unspread style c.toExpr) (named : style.matcherOf? c.callee = some name) :
    c.spread = false := by
  obtain ⟨o, f, args, s⟩ := c
  have known : (style.matcherOf? f).isSome := by simpa using Option.isSome_of_mem named
  cases args with
  | nil => exact unspread known
  | cons a as => exact (unspread known).1

theorem Unspread.inside {style : ImportStyle} {c : Call} {a : Expr} {as : List Expr}
    (unspread : Unspread style c.toExpr) (named : style.matcherOf? c.callee = some "Not")
    (first : c.args = a :: as) : Unspread style a := by
  obtain ⟨o, f, args, s⟩ := c
  subst first
  exact (unspread (Option.isSome_of_mem named)).2 named

/-- The function of a matcher call without a spread argument. -/
theorem Unspread.matcherName? {style : ImportStyle} {c : Call} {name : String}
    (unspread : Unspread style c.toExpr) (named : style.matcherOf? c.callee = some name) :
    Interpretation.matcherName? style c = some name := by
  simp [Interpretation.matcherName?, unspread.spread named, named]

/-- A matcher call that is looked at itself. -/
theorem Matcher.innermost_here {style : ImportStyle} {c : Call} {name : String} {depth : Nat}
    (unspread : Unspread style c.toExpr) (named : style.matcherOf? c.callee = some name) :
    (Matcher.mk ⟨c, c⟩ name depth).Innermost style ∧
      ∃ n, depth = depth + n ∧ UnderNots style c n c.toExpr := by
  exact ⟨⟨rfl, unspread.matcherName? named⟩, 0, rfl, .here⟩

/-- The matcher of a call and its copy that are the same: the call itself, unless
it is a wrapper around another matcher call. -/
theorem Matcher.find?_call (style : ImportStyle) (depth : Nat) (c : Call) :
    Matcher.find? style depth c.toExpr c.toExpr =
      (style.matcherOf? c.callee).bind fun name =>
        match (if name = "Not" then c.args else []) with
        | .call io g bs t :: _ =>
          if (style.matcherOf? g).isSome then
            Matcher.find? style (depth + 1) (.call io g bs t) (.call io g bs t)
          else some ⟨⟨c, c⟩, name, depth⟩
        | _ => some ⟨⟨c, c⟩, name, depth⟩ := by
  obtain ⟨o, f, args, s⟩ := c
  rw [Call.toExpr, Matcher.find?]
  cases named : style.matcherOf? f with
  | none => rfl
  | some name =>
      by_cases isNot : name = "Not"
      · cases args with
        | nil => simp [isNot]
        | cons a as => cases a <;> simp [isNot]
      · simp [isNot]

theorem Matcher.find?_call_same {style : ImportStyle} (c : Call) {depth : Nat} {m : Matcher}
    (unspread : Unspread style c.toExpr)
    (found : Matcher.find? style depth c.toExpr c.toExpr = some m) :
    m.Innermost style ∧ ∃ n, m.notDepth = depth + n ∧ UnderNots style m.call.seen n c.toExpr := by
  rw [find?_call, Option.bind_eq_some_iff] at found
  obtain ⟨name, named, found⟩ := found
  split at found
  · rename_i io g bs t as wrapped
    by_cases isNot : name = "Not"
    · subst isNot
      rw [if_pos rfl] at wrapped
      split at found
      · -- The wrapper's first argument is a matcher call again.
        have smaller : sizeOf (Call.toExpr ⟨io, g, bs, t⟩) < sizeOf c.toExpr := by
          simp only [Call.toExpr, Expr.call.sizeOf_spec, wrapped, List.cons.sizeOf_spec]
          omega
        obtain ⟨innermost, n, depths, under⟩ :=
          find?_call_same ⟨io, g, bs, t⟩ (unspread.inside named wrapped) found
        exact ⟨innermost, n + 1, by omega, .wrapped c (unspread.matcherName? named) wrapped under⟩
      · cases found
        exact innermost_here unspread named
    · rw [if_neg isNot] at wrapped
      cases wrapped
  · cases found
    exact innermost_here unspread named
termination_by sizeOf c.toExpr

theorem Matcher.find?_same {style : ImportStyle} {e : Expr} {depth : Nat} {m : Matcher}
    (unspread : Unspread style e) (found : Matcher.find? style depth e e = some m) :
    m.Innermost style ∧ ∃ n, m.notDepth = depth + n ∧ UnderNots style m.call.seen n e := by
  cases e with
  | call o f args s => exact find?_call_same ⟨o, f, args, s⟩ unspread found
  | _ => simp [Matcher.find?] at found

/-! ## The actual value -/

theorem SizeFunction.name_of_ofName? {name : String} {f : SizeFunction}
    (known : SizeFunction.ofName? name = some f) : name = f.name := by
  unfold SizeFunction.ofName? at known
  split at known <;> cases known <;> rfl

/-- A call of a size function has one argument, and its callee is predeclared as
far as is known. -/
theorem Subject.sizeFunction?_eq_some {o : Oracle} {c : Call} {f : SizeFunction}
    (known : Subject.sizeFunction? o c = some f) :
    Interpretation.IsSizeCall o f c.callee ∧ c.args.length = 1 ∧ c.spread = false := by
  obtain ⟨origin, callee, args, spread⟩ := c
  cases callee with
  | ident i =>
      simp only [Subject.sizeFunction?, Expr.ident?, Option.bind_eq_bind, Option.bind_some,
        Option.bind_eq_some_iff] at known
      obtain ⟨g, named, known⟩ := known
      split at known
      · simp at known
      · rename_i shape
        simp only [ne_eq, Bool.or_eq_true, decide_eq_true_eq, not_or, not_not,
          Bool.not_eq_true] at shape
        refine ⟨⟨i, rfl, ?_, ?_⟩, shape⟩
        · rw [SizeFunction.name_of_ofName? named]
          split at known <;> cases known <;> rfl
        · intro t typed
          simp only [Oracle.type?, typed, Option.map_some] at known
          split at known
          · rename_i impossible; cases impossible
          · rename_i name isBuiltin
            exact ⟨name, Option.some.inj isBuiltin⟩
          · simp at known
  | _ => simp [Subject.sizeFunction?, Expr.ident?] at known

/-- The expression compares two operands, written in this order or in the other
one. -/
def Expr.Compares (e x : Expr) (op : BinaryOp) (y : Expr) : Prop :=
  ∃ origin op', op'.isComparison = true ∧
    ((e = .binary origin x op' y ∧ op = op') ∨ (e = .binary origin y op' x ∧ op = op'.exchanged))

/-- What the classification of an expression says of it. -/
def Subject.Reads (o : Oracle) (e : Expr) : Subject → Prop
  | .plain v => v = Value.of o ⟨e, e⟩
  | .errorFunction v => v = Value.of o ⟨e, e⟩
  | .error v => v = Value.of o ⟨e, e⟩
  | .size f _ arg => arg.copy = arg.seen ∧ ∃ origin callee,
      e = .call origin callee [arg.seen] false ∧ Interpretation.IsSizeCall o f callee
  | .comparison l op r => ∃ x y, l = Value.of o ⟨x, x⟩ ∧ r = Value.of o ⟨y, y⟩ ∧ e.Compares x op y
  | .nilComparison l op r => ∃ x y, l = Value.of o ⟨x, x⟩ ∧ r = Value.of o ⟨y, y⟩ ∧
      o.isNil y = true ∧ e.Compares x op y
  | .sizeComparison f _ arg op r => arg.copy = arg.seen ∧ ∃ origin callee y,
      r = Value.of o ⟨y, y⟩ ∧ Interpretation.IsSizeCall o f callee ∧
        e.Compares (.call origin callee [arg.seen] false) op y

/-- The one argument of a call of a size function. -/
theorem CallTwin.arg?_size {o : Oracle} {c : Call} {f : SizeFunction} {arg : Twin}
    (known : Subject.sizeFunction? o c = some f) (found : (CallTwin.mk c c).arg? 0 = some arg) :
    arg.copy = arg.seen ∧ c.toExpr = .call c.origin c.callee [arg.seen] false ∧
      Interpretation.IsSizeCall o f c.callee := by
  obtain ⟨isSize, one, plain⟩ := Subject.sizeFunction?_eq_some known
  obtain ⟨origin, callee, args, spread⟩ := c
  obtain ⟨x, rfl⟩ := List.length_eq_one_iff.mp one
  simp only [CallTwin.arg?, List.getElem?_cons_zero, Option.bind_eq_bind, Option.bind_some,
    Option.pure_def, Option.some.injEq] at found
  subst found
  simp only at plain
  subst plain
  exact ⟨rfl, rfl, isSize⟩

theorem Subject.compared?_reads {o : Oracle} {e x y : Expr} {op : BinaryOp} {subject : Subject}
    (compares : e.Compares x op y)
    (classified : Subject.compared? o ⟨x, x⟩ op ⟨y, y⟩ = some subject) :
    subject.Reads o e := by
  unfold Subject.compared? at classified
  split at classified
  · rename_i isNil
    cases classified
    exact ⟨x, y, rfl, rfl, isNil, compares⟩
  · cases isCall : x.call? with
    | none =>
        simp only [isCall, Option.some.injEq] at classified
        subst classified
        exact ⟨x, y, rfl, rfl, compares⟩
    | some c =>
        simp only [isCall] at classified
        cases known : Subject.sizeFunction? o c with
        | none =>
            simp only [known, Option.some.injEq] at classified
            subst classified
            exact ⟨x, y, rfl, rfl, compares⟩
        | some f =>
            simp only [known, Option.bind_eq_bind, Option.bind_eq_some_iff, Option.pure_def,
              Option.some.injEq] at classified
            obtain ⟨arg, found, rfl⟩ := classified
            obtain ⟨same, shape, isSize⟩ := CallTwin.arg?_size known found
            refine ⟨same, c.origin, c.callee, y, rfl, isSize, ?_⟩
            rw [← shape, ← Expr.call?_eq_some_iff.mp isCall]
            exact compares

theorem Subject.ofType_reads (o : Oracle) (e : Expr) : (Subject.ofType o ⟨e, e⟩).Reads o e := by
  unfold Subject.ofType
  split <;> rfl

/-- Classification says what it reads off the expression. -/
theorem Subject.of?_reads {o : Oracle} {e : Expr} {subject : Subject}
    (classified : Subject.of? o ⟨e, e⟩ = some subject) : subject.Reads o e := by
  unfold Subject.of? at classified
  split at classified
  · cases classified
    rfl
  · cases e with
    | call origin callee args spread =>
        simp only at classified
        split at classified
        · rename_i f x known found
          cases classified
          obtain ⟨same, shape, isSize⟩ := CallTwin.arg?_size known found
          exact ⟨same, origin, callee, shape, isSize⟩
        · cases classified
          exact Subject.ofType_reads o _
    | binary origin x op y =>
        simp only [ne_eq, not_true_eq_false, if_false] at classified
        split at classified
        · rename_i comparison
          unfold Subject.ofComparison? at classified
          simp only at classified
          split at classified
          · exact Subject.compared?_reads ⟨origin, op, comparison, .inr ⟨rfl, rfl⟩⟩ classified
          · exact Subject.compared?_reads ⟨origin, op, comparison, .inl ⟨rfl, rfl⟩⟩ classified
        · cases classified
          exact Subject.ofType_reads o _
    | _ =>
        cases classified
        exact Subject.ofType_reads o _

/-! ## The whole assertion -/

/-- The parts of a recognized assertion: it is written `x.method(..)`, and under
the helper calls of `x` the call `taking` has the actual value. -/
structure Assertion.Anatomy (style : ImportStyle) (o : Oracle) (call : Call) (a : Assertion)
    (origin : Origin) (x : Expr) (method : Ident) (taking : Call) (value : Expr) : Prop where
  style_eq : a.style = style
  oracle_eq : a.oracle = o
  copy_eq : a.call.copy = call
  callee_eq : call.callee = .selector origin x method
  method_eq : Method.ofName? method.name = some a.method
  under : UnderHelpers taking a.actual.depth x
  noHelper : taking.NoHelper
  arg : taking.args[a.actual.offset]? = some value
  arg_eq : a.actual.arg = ⟨value, value⟩
  reads : a.actual.subject.Reads o value
  matcher_eq : a.matcher = call.args[0]?.bind fun t => Matcher.find? style 0 t t

theorem CallTwin.arg?_same {c : Call} {index : Nat} {t : Twin}
    (found : (CallTwin.mk c c).arg? index = some t) :
    ∃ e, c.args[index]? = some e ∧ t = ⟨e, e⟩ := by
  simp only [CallTwin.arg?, Option.bind_eq_bind, Option.bind_eq_some_iff, Option.pure_def,
    Option.some.injEq] at found
  obtain ⟨e, first, e', second, rfl⟩ := found
  rw [first] at second
  cases second
  exact ⟨e, first, rfl⟩

theorem Actual.of?_same {o : Oracle} {found : ImportStyle.Found} {function : String}
    {actual : Actual} (same : found.copy = found.seen)
    (classified : Actual.of? o found function = some actual) :
    actual.depth = found.depth ∧ (∃ index, Actual.offset? function = some index) ∧
      ∃ value, found.seen.args[actual.offset]? = some value ∧ actual.arg = ⟨value, value⟩ ∧
        Subject.of? o ⟨value, value⟩ = some actual.subject := by
  simp only [Actual.of?, same, Option.bind_eq_bind, Option.bind_eq_some_iff, Option.pure_def,
    Option.some.injEq] at classified
  obtain ⟨index, offset, first, -, arg, found', subject, classified, rfl⟩ := classified
  obtain ⟨value, inArgs, rfl⟩ := CallTwin.arg?_same found'
  exact ⟨rfl, ⟨index, offset⟩, value, inArgs, rfl, classified⟩

theorem Assertion.of?_anatomy {style : ImportStyle} {o : Oracle} {call : Call} {a : Assertion}
    (recognized : Assertion.of? style o call call = some a) :
    ∃ origin x method taking value,
      Assertion.Anatomy style o call a origin x method taking value := by
  obtain ⟨co, callee, args, spread⟩ := call
  cases callee with
  | selector origin x method =>
      simp only [Assertion.of?, Expr.selector?, Option.bind_eq_bind, Option.bind_some, ne_eq,
        not_true_eq_false, if_false, Option.bind_eq_some_iff, Option.pure_def, Option.some.injEq]
        at recognized
      obtain ⟨m, isMethod, found, walked, function, invoked, actual, classified, rfl⟩ := recognized
      obtain ⟨same, takes, n, depths, under⟩ := ImportStyle.actualFrom?_same walked
      obtain ⟨depth_eq, ⟨index, offset⟩, value, inArgs, arg_eq, subject⟩ :=
        Actual.of?_same same classified
      rw [Nat.zero_add, ← depth_eq] at depths
      subst depths
      refine ⟨origin, x, method, found.seen, value, rfl, rfl, rfl, rfl, isMethod, under,
        takes.noHelper invoked offset, inArgs, arg_eq, Subject.of?_reads subject, ?_⟩
      cases args with
      | nil => rfl
      | cons t ts => rfl
  | _ => simp [Assertion.of?, Expr.selector?] at recognized

end GomegaLint
