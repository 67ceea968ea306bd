import Mathlib
import GomegaLint.Proofs.Placement

/-!
# Members of assertion objects

The walk to the call of the actual value ends at a member of an assertion object,
`g.Expect(x)`, whatever expression the object is: a name, a field `s.g`, a call
`NewWithT(t)`.  Which function is invoked there is asked apart from it.

* With a dot import the answer is the member (`ImportStyle.functionOf?_dot`).
* Under a package name the answer is the member that the whole chain of calls starts
  with, and only if this is selected from a name (`ImportStyle.functionOf?_named`).

The two agree with the walk exactly where `ImportStyle.Resolves` says so
(`ImportStyle.actualFunction?_typed_iff`): under a package name a field is never read
as an assertion object, and a call only for what it calls.  Where they agree an
assertion is recognized alike with either import.
-/

namespace GomegaLint

/-! ## The function of a call -/

/-- Where a chain of calls starts: below the calls that members are selected from, what
the first member is selected from, and this member. -/
def Expr.root? : Expr → Option (Expr × Ident)
  | .selector _ (.call _ f _ _) _ => f.root?
  | .selector _ x m => some (x, m)
  | _ => none

namespace ImportStyle

/-- A name that Gomega's functions can be selected from. -/
def reaches (style : ImportStyle) (o : Oracle) (x : Expr) : Bool :=
  x.ident?.isSome && (style.isBoundName x || o.isGomega x)

/-- Under a package name, a call invokes the member that its chain starts with. -/
theorem functionOf?_named (package : String) (o : Oracle) (f : Expr) :
    (named package).functionOf? o f =
      f.root?.bind fun root =>
        if (named package).reaches o root.1 then some root.2.name else none := by
  fun_induction Expr.root? f with
  | case1 so co f args s m ih =>
      rw [← ih]
      rfl
  | case2 so x m notCall =>
      cases x with
      | ident i => simp [functionOf?, reaches, Expr.ident?]
      | call co f args s => exact (notCall co f args s rfl).elim
      | _ => rfl
  | case3 f notSelector notSelector' =>
      cases f with
      | selector so x m => exact (notSelector' so x m rfl).elim
      | _ => rfl

/-- With a dot import, a member of an assertion object is invoked. -/
theorem functionOf?_dot {o : Oracle} {x : Expr} (typed : o.isGomega x = true) (so : Origin)
    (m : Ident) : dot.functionOf? o (.selector so x m) = some m.name := by
  simp only [functionOf?, typed, if_true]

/-- The member of an assertion object is taken for the function of a call: with a
dot import always, and under a package name if the object is a name, or a call that
starts with a member of the same name. -/
def Resolves (style : ImportStyle) (o : Oracle) (x : Expr) (member : String) : Prop :=
  style = dot ∨ (∃ i, x = .ident i) ∨
    ∃ (c : Call) (y : Expr) (m : Ident), x = c.toExpr ∧ c.callee.root? = some (y, m) ∧
      style.reaches o y = true ∧ m.name = member

theorem functionOf?_typed_iff {style : ImportStyle} {o : Oracle} {x : Expr}
    (typed : o.isGomega x = true) (so : Origin) (m : Ident) :
    style.functionOf? o (.selector so x m) = some m.name ↔ style.Resolves o x m.name := by
  cases style with
  | dot => exact iff_of_true (functionOf?_dot typed so m) (.inl rfl)
  | named package =>
      rw [functionOf?_named]
      cases x with
      | ident i =>
          refine iff_of_true ?_ (.inr (.inl ⟨i, rfl⟩))
          simp [Expr.root?, reaches, Expr.ident?, typed]
      | call co f args s =>
          simp only [Expr.root?, Option.bind_eq_some_iff, Option.ite_none_right_eq_some,
            Option.some.injEq]
          constructor
          · rintro ⟨⟨y, first⟩, starts, reached, named⟩
            exact .inr (.inr ⟨⟨co, f, args, s⟩, y, first, rfl, starts, reached, named⟩)
          · rintro (isDot | ⟨i, isName⟩ | ⟨c, y, first, isCall, starts, reached, named⟩)
            · cases isDot
            · cases isName
            · cases isCall
              exact ⟨(y, first), starts, reached, named⟩
      | _ =>
          refine iff_of_false (by simp [Expr.root?, reaches, Expr.ident?]) ?_
          rintro (isDot | ⟨i, isName⟩ | ⟨c, y, first, isCall, -⟩)
          · cases isDot
          · cases isName
          · cases isCall

/-! ## The walk -/

/-- A step of the walk at a member of the same name on both sides. -/
theorem actualFrom?_selector (style : ImportStyle) (o : Oracle) (depth : Nat) {sm cm : Ident}
    (same : sm.name = cm.name) (so co so' co' : Origin) (sx cx : Expr) (sargs cargs : List Expr)
    (ss cs : Bool) :
    style.actualFrom? o depth (.call so (.selector so' sx sm) sargs ss)
        (.call co (.selector co' cx cm) cargs cs) =
      if style.isBoundName sx && style.isBoundName cx ||
          !isHelper sm.name && o.isGomega sx then
        some ⟨⟨so, .selector so' sx sm, sargs, ss⟩, ⟨co, .selector co' cx cm, cargs, cs⟩, depth⟩
      else if isHelper sm.name then style.actualFrom? o (depth + 1) sx cx
      else none := by
  rw [actualFrom?]
  cases style.isBoundName sx && style.isBoundName cx <;> cases isHelper sm.name <;>
    cases o.isGomega sx <;> simp [same]

/-- A member of an assertion object is found with every import, unless it has the name
of a helper: then it is found as one of the package, if at all. -/
theorem actualFrom?_anyStyle {style : ImportStyle} {o : Oracle} {depth : Nat}
    {seen copy : Expr} {found : Found} {so : Origin} {x : Expr} {m : Ident}
    (walked : style.actualFrom? o depth seen copy = some found)
    (callee : found.seen.callee = .selector so x m) (typed : o.isGomega x = true)
    (other : ImportStyle) :
    other.actualFrom? o depth seen copy = some found ∨
      other.actualFrom? o depth seen copy = none ∧ isHelper m.name = true := by
  fun_induction actualFrom? style o depth seen copy with
  | case1 =>
      obtain rfl := Option.some.inj walked
      cases callee
  | case3 depth so sargs ss co cargs cs so' sx sm co' cx cm same bound =>
      obtain rfl := Option.some.inj walked
      cases callee
      rw [actualFrom?_selector other o depth (not_not.mp same), typed]
      cases helper : isHelper m.name with
      | false => exact .inl (if_pos (by simp))
      | true =>
          -- A bound name is not a call that the walk could go on to.
          have ends : other.actualFrom? o (depth + 1) x cx = none := by
            cases x with
            | ident i => rfl
            | _ => cases style <;> simp [isBoundName] at bound
          cases other.isBoundName x && other.isBoundName cx
          · exact .inr ⟨by simpa using ends, rfl⟩
          · exact .inl (if_pos rfl)
  | case4 depth so sargs ss co cargs cs so' sx sm co' cx cm same unbound helper ih =>
      -- The walk went on at a call, which is no name.
      have unnamed : other.isBoundName sx = false := by
        cases sx with
        | call => exact other.isBoundName_call _ _ _ _
        | _ => simp [actualFrom?] at walked
      rw [actualFrom?_selector other o depth (not_not.mp same)]
      simpa [unnamed, helper] using ih walked
  | case5 depth so sargs ss co cargs cs so' sx sm co' cx cm same unbound noHelper =>
      obtain rfl := Option.some.inj walked
      cases callee
      rw [actualFrom?_selector other o depth (not_not.mp same)]
      exact .inl (if_pos (by simp [typed, noHelper]))
  | _ => cases walked

end ImportStyle

/-! ## The assertion -/

namespace Assertion

/-- What an assertion is about: its method, and its actual value as it was found and
classified. -/
def sight (a : Assertion) : Method × Actual := (a.method, a.actual)

/-- What an assertion is about rests on the walk and on the function at its end. -/
theorem sight_of? {seen copy : Call} {s c : Selector} (isSelector : seen.callee.selector? = some s)
    (isSelector' : copy.callee.selector? = some c) (style : ImportStyle) (o : Oracle) :
    (Assertion.of? style o seen copy).map sight =
      (Method.ofName? s.member.name).bind fun method =>
        if c.member.name = s.member.name then
          ((style.actual? o s c).bind fun found =>
            (style.actualFunction? o found.seen).bind (Actual.of? o found)).map (method, ·)
        else none := by
  simp only [Assertion.of?, isSelector, isSelector', Option.bind_eq_bind, Option.bind_some,
    Option.map_bind, Function.comp_def]
  refine Option.bind_congr fun method _ => ?_
  by_cases same : c.member.name = s.member.name
  · simp only [same, ne_eq, not_true_eq_false, if_false, if_true, Option.map_bind,
      Function.comp_def, Option.pure_def, Option.map_some]
    refine Option.bind_congr fun found _ => Option.bind_congr fun function _ => ?_
    cases Actual.of? o found function <;> rfl
  · simp only [ne_eq, same, not_false_eq_true, if_true, if_false, Option.bind_none, Option.map_none]

end Assertion

namespace ImportStyle

/-- **The walk and the name of the function agree on members of assertion objects
exactly where the member is resolved.**  Let the walk of an assertion end at a member of
an assertion object.  With this import the function of the call is the member if and only
if `Resolves` says so; with a dot import it always is.  Under every package name where
it is, the assertion is recognized as with a dot import, with the same method and the
same actual value, or as with a dot import not at all. -/
theorem actualFunction?_typed_iff {style : ImportStyle} {o : Oracle} {seen copy : Call}
    {s c : Selector} {found : Found} {so : Origin} {x : Expr} {m : Ident}
    (isSelector : seen.callee.selector? = some s) (isSelector' : copy.callee.selector? = some c)
    (walked : style.actual? o s c = some found) (callee : found.seen.callee = .selector so x m)
    (typed : o.isGomega x = true) :
    (style.actualFunction? o found.seen = some m.name ↔ style.Resolves o x m.name) ∧
      dot.actualFunction? o found.seen = some m.name ∧
      ∀ package, (named package).Resolves o x m.name →
        (Assertion.of? (named package) o seen copy).map Assertion.sight =
          (Assertion.of? dot o seen copy).map Assertion.sight := by
  have function : ∀ {other : ImportStyle}, other.actualFunction? o found.seen = some m.name ↔
      other.Resolves o x m.name := by
    intro other
    rw [actualFunction?, callee]
    exact functionOf?_typed_iff typed so m
  -- Whatever the import, the member decides what is classified; a helper takes no value.
  have recognized : ∀ {other : ImportStyle}, other.Resolves o x m.name →
      ((other.actual? o s c).bind fun found =>
        (other.actualFunction? o found.seen).bind (Actual.of? o found)) =
      Actual.of? o found m.name := by
    intro other resolves
    rcases actualFrom?_anyStyle walked callee typed other with again | ⟨nothing, helper⟩
    · rw [actual?, again, Option.bind_some, function.mpr resolves, Option.bind_some]
    · rw [actual?, nothing, Option.bind_none]
      cases offset : Actual.offset? m.name with
      | none => simp [Actual.of?, offset]
      | some first =>
          rw [Actual.isHelper_of_offset? offset] at helper
          cases helper
  refine ⟨function, function.mpr (.inl rfl), fun package resolves => ?_⟩
  rw [Assertion.sight_of? isSelector isSelector', Assertion.sight_of? isSelector isSelector',
    recognized resolves, recognized (.inl rfl)]

/-! ## A name and a field -/

/-- The type of the objects that `NewWithT` gives. -/
def withT : GoType :=
  .pointer (.named "github.com/onsi/gomega/internal" "Gomega" ["Expect", "Eventually"] .struct)

/-- An oracle that knows one expression, as an assertion object. -/
def objectOracle : Oracle := (({} : TypeTable).insert 1 { type := withT }).oracle

/-- The object under the name `g`. -/
def objectName : Expr := .ident { origin := { id := 1 }, name := "g" }

/-- The object in the field `s.g`. -/
def objectField : Expr := .selector { id := 1 } (.named "s") { name := "g" }

/-- `g.Expect(len(x) == 0).WithOffset(1)` before its method, for a receiver `g`. -/
def takingOf (receiver : Expr) : Selector where
  x := .call {} (.selector {} (.call {} (.selector {} receiver { name := "Expect" })
    [.binary {} (.call {} (.named "len") [.named "x"] false) .eq (.intLiteral "0")] false)
    { name := "WithOffset" }) [.intLiteral "1"] false
  member := { name := "To" }

/-- The assertion with the matcher `gomega.BeTrue()`. -/
def assertionOn (receiver : Expr) : Call where
  callee := (takingOf receiver).toExpr
  args := [((named "gomega").matcher "BeTrue" []).toExpr]

/-- A name is resolved under the package name, and the assertion recognized. -/
theorem actualFunction?_typed_objectName :
    ∃ found m, (named "gomega").actual? objectOracle (takingOf objectName) (takingOf objectName) =
        some found ∧
      found.seen.callee = .selector {} objectName m ∧ objectOracle.isGomega objectName = true ∧
      (named "gomega").actualFunction? objectOracle found.seen = some "Expect" ∧
      (Assertion.of? (named "gomega") objectOracle (assertionOn objectName)
        (assertionOn objectName)).map Assertion.sight =
      (Assertion.of? dot objectOracle (assertionOn objectName)
        (assertionOn objectName)).map Assertion.sight ∧
      (Assertion.of? dot objectOracle (assertionOn objectName)
        (assertionOn objectName)).isSome = true := by
  have typed : objectOracle.isGomega objectName = true := by decide
  have resolves : (named "gomega").Resolves objectOracle objectName "Expect" := .inr (.inl ⟨_, rfl⟩)
  have walked : (named "gomega").actual? objectOracle (takingOf objectName) (takingOf objectName) =
      some _ := rfl
  obtain ⟨function, -, alike⟩ := @actualFunction?_typed_iff _ _ (assertionOn objectName)
    (assertionOn objectName) _ _ _ _ _ _ rfl rfl walked rfl typed
  exact ⟨_, _, walked, rfl, typed, function.mpr resolves, alike "gomega" resolves, by decide⟩

/-- The walk finds a member of a field with either import; under the package name no
function is read there, and the assertion is missed. -/
theorem objectField_unresolved :
    ∃ found m, (named "gomega").actual? objectOracle (takingOf objectField)
        (takingOf objectField) = some found ∧
      found.seen.callee = .selector {} objectField m ∧ m.name = "Expect" ∧
      objectOracle.isGomega objectField = true ∧
      (named "gomega").actualFunction? objectOracle found.seen = none ∧
      (Assertion.of? (named "gomega") objectOracle (assertionOn objectField)
        (assertionOn objectField)).isNone = true ∧
      dot.actualFunction? objectOracle found.seen = some "Expect" ∧
      (Assertion.of? dot objectOracle (assertionOn objectField)
        (assertionOn objectField)).isSome = true := by
  exact ⟨_, _, rfl, rfl, rfl, by decide, rfl, rfl, by decide, by decide⟩

end ImportStyle

end GomegaLint
