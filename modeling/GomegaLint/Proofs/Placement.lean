import Mathlib
import GomegaLint.Proofs.Meaning.Retrace

/-!
# Edits land where the classification looked

An assertion is classified by a walk that tests names, bindings and types on its way,
through the assertion and its copy side by side.  The draft of a fix finds the same
places again in the copy, and only counts: helper calls down to the call of the actual
value (`Draft.actualPlace?`), wrappers down to the innermost matcher
(`Draft.matcherPlace?`).

* `ImportStyle.under?_of_actualFrom?` and `Matcher.inside?_of_find?`: counting arrives
  where the walks did, on both sides.
* `Draft.Places`: what stands at the places of a draft.  Each edit succeeds where its
  place is there, changes what stands at it, and leaves the other places alone.
* `Change.feasible`: the changes find their places one after the other, and so can be made
  (`Draft.Places.applyAll?`).  What a rule decides is feasible (`Rule.feasible_changes?`).
* `Assertion.edits_land`: on the draft of a recognized assertion the changes of a rule
  can be made.

Nothing is asked of the copy here but that the assertion was recognized with it.
-/

namespace GomegaLint

namespace Draft

/-! ## Places -/

/-- What stands under so many calls of methods. -/
def under? : Nat → Expr → Option Expr
  | 0, e => some e
  | n + 1, .call _ (.selector _ x _) _ _ => under? n x
  | _ + 1, _ => none

/-- The call under so many calls, each the first argument of the one around it. -/
def inside? : Nat → Expr → Option Call
  | 0, .call o f as s => some ⟨o, f, as, s⟩
  | n + 1, .call _ _ (a :: _) _ => inside? n a
  | _, _ => none

/-- What stands where a draft has the call of the actual value. -/
def actualPlace? (d : Draft) : Option Expr := d.call.receiver?.bind (under? d.actualDepth)

/-- What stands where a draft has the innermost matcher. -/
def matcherPlace? (d : Draft) : Option Call := d.call.args.head?.bind (inside? d.notDepth)

/-- The assertion method of a draft. -/
def method? (d : Draft) : Option Method :=
  d.call.callee.selector?.bind fun s => Method.ofName? s.member.name

/-- What stands at the places of a draft. -/
structure Places (d : Draft) (actual : Expr) (matcher : Option Call) (method : Method) : Prop where
  actual_eq : d.actualPlace? = some actual
  matcher_eq : d.matcherPlace? = matcher
  method_eq : d.method? = some method

theorem under?_editUnder {edit : Expr → Option Expr} {n : Nat} {e x x' : Expr}
    (found : under? n e = some x) (edits : edit x = some x') :
    ∃ e', editUnder edit n e = some e' ∧ under? n e' = some x' := by
  induction n generalizing e with
  | zero =>
      cases found
      exact ⟨x', edits, rfl⟩
  | succ n ih =>
      cases e with
      | call o f args s =>
          cases f with
          | selector so y m =>
              obtain ⟨y', edited, found'⟩ := ih found
              exact ⟨.call o (.selector so y' m) args s, by rw [editUnder, edited]; rfl, found'⟩
          | _ => cases found
      | _ => cases found

theorem inside?_editInside (edit : Call → Call) {n : Nat} {e : Expr} {c : Call}
    (found : inside? n e = some c) :
    ∃ e', editInside edit n e = some e' ∧ inside? n e' = some (edit c) := by
  induction n generalizing e with
  | zero =>
      cases e with
      | call o f args s =>
          cases found
          exact ⟨_, rfl, rfl⟩
      | _ => cases found
  | succ n ih =>
      cases e with
      | call o f args s =>
          cases args with
          | nil => cases found
          | cons a as =>
              obtain ⟨a', edited, found'⟩ := ih found
              exact ⟨.call o f (a' :: as) s, by rw [editInside, edited]; rfl, found'⟩
      | _ => cases found

/-! ## Edits -/

namespace Places

variable {d : Draft} {actual : Expr} {matcher : Option Call} {method : Method}

theorem callee_eq (places : d.Places actual matcher method) :
    ∃ o x m, d.call.callee = .selector o x m ∧ under? d.actualDepth x = some actual ∧
      Method.ofName? m.name = some method := by
  have found := places.actual_eq
  have named := places.method_eq
  obtain ⟨⟨co, callee, args, s⟩, style, depth, notDepth⟩ := d
  cases callee with
  | selector o x m => exact ⟨o, x, m, rfl, found, named⟩
  | _ => cases found

theorem args_eq {c : Call} (places : d.Places actual (some c) method) :
    ∃ t rest, d.call.args = t :: rest ∧ inside? d.notDepth t = some c := by
  have found := places.matcher_eq
  rw [matcherPlace?] at found
  cases args : d.call.args with
  | nil =>
      rw [args] at found
      cases found
  | cons t rest =>
      rw [args] at found
      exact ⟨t, rest, rfl, found⟩

/-- An edit of what stands at the place of the actual value. -/
theorem editActual (places : d.Places actual matcher method) {edit : Expr → Option Expr}
    {actual' : Expr} (edits : edit actual = some actual') :
    ∃ d', d.editActual edit = some d' ∧ d'.Places actual' matcher method := by
  obtain ⟨o, x, m, callee, found, named⟩ := places.callee_eq
  obtain ⟨x', edited, found'⟩ := under?_editUnder found edits
  refine ⟨{ d with call := { d.call with callee := .selector o x' m } }, ?_, found',
    places.matcher_eq, named⟩
  rw [Draft.editActual, callee]
  simp only [edited, Option.map_some]

theorem setActualArg {c : Call} (places : d.Places c.toExpr matcher method) {index : Nat}
    (inside : index < c.args.length) (e : Expr) :
    ∃ d', d.setActualArg index e = some d' ∧
      d'.Places ({ c with args := c.args.set index e } : Call).toExpr matcher method :=
  places.editActual (by simp only [Call.toExpr, inside, if_true])

theorem chainActual (places : d.Places actual matcher method) (name : String)
    (args : List Expr) :
    ∃ d', d.chainActual name args = some d' ∧
      d'.Places (.call {} (.selector {} actual { name }) args false) matcher method :=
  places.editActual rfl

/-- An edit of what stands at the place of the matcher. -/
theorem editMatcher {c : Call} (places : d.Places actual (some c) method) (edit : Call → Call) :
    ∃ d', d.editMatcher edit = some d' ∧ d'.Places actual (some (edit c)) method := by
  obtain ⟨t, rest, args, found⟩ := places.args_eq
  obtain ⟨t', edited, found'⟩ := inside?_editInside edit found
  refine ⟨{ d with call := { d.call with args := t' :: rest } }, ?_, places.actual_eq, found',
    places.method_eq⟩
  rw [Draft.editMatcher, args]
  simp only [edited, Option.map_some]

theorem setInnerMatcher {c : Call} (places : d.Places actual (some c) method) (new : Call) :
    ∃ d', d.setInnerMatcher new = some d' ∧ d'.Places actual (some new) method :=
  places.editMatcher fun _ => new

theorem setMatcher {c : Call} (places : d.Places actual (some c) method) (new : Call) :
    ∃ d', d.setMatcher new = some d' ∧ d'.Places actual (some new) method := by
  obtain ⟨t, rest, args, -⟩ := places.args_eq
  refine ⟨{ d with call := { d.call with args := new.toExpr :: rest }, notDepth := 0 }, ?_,
    places.actual_eq, rfl, places.method_eq⟩
  rw [Draft.setMatcher, args]

theorem reverse (places : d.Places actual matcher method) :
    ∃ d', d.reverse = some d' ∧ d'.Places actual matcher method.reversed := by
  obtain ⟨o, x, m, callee, found, named⟩ := places.callee_eq
  refine ⟨{ d with call.callee := .selector o x { name := method.reversed.name } }, ?_, found,
    places.matcher_eq, Method.ofName?_name _⟩
  rw [Draft.reverse, editMethod, callee]
  simp only [Method.reversedName?, named, Option.map_some]

theorem setNegative (places : d.Places actual matcher method) (negative : Bool) :
    ∃ d' method', d.setNegative negative = some d' ∧ d'.Places actual matcher method' ∧
      method'.isNegative = negative := by
  obtain ⟨o, x, m, callee, found, named⟩ := places.callee_eq
  have isNegative : Method.isNegativeName m.name = method.isNegative := by
    rw [Method.isNegativeName, named, Option.any_some]
  by_cases already : method.isNegative = negative
  · refine ⟨d, method, ?_, places, already⟩
    rw [Draft.setNegative, callee]
    simp only [isNegative, already, if_true]
  · obtain ⟨d', reversed, places'⟩ := places.reverse
    refine ⟨d', method.reversed, ?_, places', ?_⟩
    · rw [Draft.setNegative, callee]
      simp only [isNegative, already, if_false, reversed]
    · rw [Method.isNegative_reversed, Bool.not_eq]
      exact already

end Places

end Draft

/-! ## Where the walks arrive -/

/-- Counting helper calls arrives where the walk to the actual value did. -/
theorem ImportStyle.under?_of_actualFrom? {style : ImportStyle} {o : Oracle} {depth : Nat}
    {seen copy : Expr} {found : ImportStyle.Found}
    (walked : style.actualFrom? o depth seen copy = some found) :
    ∃ n, found.depth = depth + n ∧ Draft.under? n seen = some found.seen.toExpr ∧
      Draft.under? n copy = some found.copy.toExpr := by
  fun_induction ImportStyle.actualFrom? style o depth seen copy with
  | case1 | case3 | case5 =>
      obtain rfl := Option.some.inj walked
      exact ⟨0, rfl, rfl, rfl⟩
  | case4 depth _ _ _ _ _ _ _ sx _ _ cx _ _ _ _ ih =>
      obtain ⟨n, counted, inSeen, inCopy⟩ := ih walked
      exact ⟨n + 1, by omega, inSeen, inCopy⟩
  | _ => cases walked

/-- Counting wrappers arrives where the walk to the innermost matcher did. -/
theorem Matcher.inside?_of_find? {style : ImportStyle} {depth : Nat} {seen copy : Expr}
    {m : Matcher} (walked : Matcher.find? style depth seen copy = some m) :
    ∃ n, m.notDepth = depth + n ∧ Draft.inside? n seen = some m.call.seen ∧
      Draft.inside? n copy = some m.call.copy := by
  fun_induction Matcher.find? style depth seen copy with
  | case1 depth so sf sargs ss co cf cargs cs ih =>
      obtain ⟨name, -, walked⟩ := Option.bind_eq_some_iff.mp walked
      by_cases sameName : style.matcherOf? cf = some name
      · simp only [sameName, ne_eq, not_true_eq_false, if_false] at walked
        split at walked
        · split at walked
          · split at walked
            · -- A wrapper around another matcher call, on both sides.
              obtain ⟨n, counted, inSeen, inCopy⟩ := ih walked
              exact ⟨n + 1, by omega, inSeen, inCopy⟩
            · cases walked
              exact ⟨0, rfl, rfl, rfl⟩
          · cases walked
            exact ⟨0, rfl, rfl, rfl⟩
        · cases walked
          exact ⟨0, rfl, rfl, rfl⟩
      · simp [sameName] at walked
  | case2 => cases walked

theorem CallTwin.getElem?_of_arg? {c : CallTwin} {index : Nat} {t : Twin}
    (found : c.arg? index = some t) :
    c.seen.args[index]? = some t.seen ∧ c.copy.args[index]? = some t.copy := by
  simp only [CallTwin.arg?, Option.bind_eq_bind, Option.bind_eq_some_iff, Option.pure_def,
    Option.some.injEq] at found
  obtain ⟨x, inSeen, y, inCopy, rfl⟩ := found
  exact ⟨inSeen, inCopy⟩

theorem Actual.of?_eq_some {o : Oracle} {found : ImportStyle.Found} {function : String}
    {actual : Actual} (classified : Actual.of? o found function = some actual) :
    actual.call = ⟨found.seen, found.copy⟩ ∧ actual.depth = found.depth ∧
      actual.call.arg? actual.offset = some actual.arg ∧
      Subject.of? o actual.arg = some actual.subject := by
  simp only [Actual.of?, Option.bind_eq_bind, Option.bind_eq_some_iff, Option.pure_def,
    Option.some.injEq] at classified
  obtain ⟨index, -, first, -, arg, found', subject, classified, rfl⟩ := classified
  exact ⟨rfl, rfl, found', classified⟩

/-- What a recognized assertion is classified by, found again by counting on both
sides. -/
structure Assertion.Located (seen copy : Call) (a : Assertion) : Prop where
  call_eq : a.call = ⟨seen, copy⟩
  seenActual : seen.receiver?.bind (Draft.under? a.actual.depth) = some a.actual.call.seen.toExpr
  copyActual : copy.receiver?.bind (Draft.under? a.actual.depth) = some a.actual.call.copy.toExpr
  seenArg : a.actual.call.seen.args[a.actual.offset]? = some a.actual.arg.seen
  copyArg : a.actual.call.copy.args[a.actual.offset]? = some a.actual.arg.copy
  subject : Subject.of? a.oracle a.actual.arg = some a.actual.subject
  seenMatcher : ∀ m, a.matcher = some m →
    seen.args.head?.bind (Draft.inside? m.notDepth) = some m.call.seen
  copyMatcher : ∀ m, a.matcher = some m →
    copy.args.head?.bind (Draft.inside? m.notDepth) = some m.call.copy
  method : copy.callee.selector?.bind (fun s => Method.ofName? s.member.name) = some a.method

theorem Assertion.of?_located {style : ImportStyle} {o : Oracle} {seen copy : Call} {a : Assertion}
    (recognized : Assertion.of? style o seen copy = some a) : a.Located seen copy := by
  simp only [Assertion.of?, Option.bind_eq_bind, Option.bind_eq_some_iff] at recognized
  obtain ⟨s, isSelector, c, isSelector', method, named, recognized⟩ := recognized
  split at recognized
  · cases recognized
  · rename_i sameName
    simp only [Option.bind_eq_some_iff, Option.pure_def, Option.some.injEq] at recognized
    obtain ⟨found, walked, function, -, actual, classified, rfl⟩ := recognized
    obtain ⟨n, counted, inSeen, inCopy⟩ := ImportStyle.under?_of_actualFrom? walked
    obtain ⟨call_eq, depth_eq, arg, subject⟩ := Actual.of?_eq_some classified
    obtain ⟨seenArg, copyArg⟩ := CallTwin.getElem?_of_arg? arg
    rw [Nat.zero_add, ← depth_eq] at counted
    subst counted
    have matched : ∀ m, ((CallTwin.mk seen copy).arg? 0).bind (Matcher.of? style) = some m →
        seen.args.head?.bind (Draft.inside? m.notDepth) = some m.call.seen ∧
          copy.args.head?.bind (Draft.inside? m.notDepth) = some m.call.copy := by
      intro m found
      obtain ⟨t, first, found⟩ := Option.bind_eq_some_iff.mp found
      obtain ⟨firstSeen, firstCopy⟩ := CallTwin.getElem?_of_arg? first
      obtain ⟨n, counted, inSeen, inCopy⟩ := Matcher.inside?_of_find? found
      rw [Nat.zero_add] at counted
      subst counted
      rw [List.head?_eq_getElem?, List.head?_eq_getElem?, firstSeen, firstCopy]
      exact ⟨inSeen, inCopy⟩
    refine ⟨rfl, ?_, ?_, seenArg, copyArg, subject, fun m found => (matched m found).1,
      fun m found => (matched m found).2, ?_⟩
    · rw [Call.receiver?, isSelector, call_eq]
      exact inSeen
    · rw [Call.receiver?, isSelector', call_eq]
      exact inCopy
    · rw [isSelector', Option.bind_some, not_not.mp sameName]
      exact named

namespace Assertion.Located

variable {seen copy : Call} {a : Assertion}

/-- The places of a fresh draft. -/
theorem places (located : a.Located seen copy) :
    a.draft.Places a.actual.call.copy.toExpr a.draft.matcherPlace? a.method := by
  refine ⟨?_, rfl, ?_⟩
  · rw [Draft.actualPlace?, Assertion.draft, located.call_eq]
    exact located.copyActual
  · rw [Draft.method?, Assertion.draft, located.call_eq]
    exact located.method

theorem matcherPlace?_eq (located : a.Located seen copy) {m : Matcher}
    (matched : a.matcher = some m) : a.draft.matcherPlace? = some m.call.copy := by
  rw [Draft.matcherPlace?, Assertion.draft, located.call_eq, matched]
  exact located.copyMatcher m matched

/-- Where the copy is the assertion itself, so is what was found in it. -/
theorem copy_eq (located : a.Located seen copy) (same : copy = seen) :
    a.actual.call.copy = a.actual.call.seen ∧ a.actual.arg.copy = a.actual.arg.seen ∧
      ∀ m, a.matcher = some m → m.call.copy = m.call.seen := by
  subst same
  have actual : a.actual.call.copy = a.actual.call.seen := by
    have same := located.copyActual.symm.trans located.seenActual
    simpa only [Option.some.injEq, Call.toExpr, Expr.call.injEq, ← Call.mk.injEq] using same
  refine ⟨actual, ?_, fun m matched => ?_⟩
  · have inCopy := located.copyArg
    rw [actual, located.seenArg] at inCopy
    exact (Option.some.inj inCopy).symm
  · have inCopy := located.copyMatcher m matched
    rw [located.seenMatcher m matched] at inCopy
    exact (Option.some.inj inCopy).symm

end Assertion.Located

/-! ## Changes that find their places -/

namespace Change

def isActualArg : Change → Bool
  | actualArg _ => true
  | _ => false

/-- The changes find their places one after the other: those of a matcher if there is
one, and none of the actual value behind a call that was chained to it. -/
def feasible (hasMatcher : Bool) : List Change → Bool
  | [] => true
  | chain .. :: cs => !cs.any isActualArg && feasible hasMatcher cs
  | matcher _ :: cs | innerMatcher _ :: cs => hasMatcher && feasible hasMatcher cs
  | _ :: cs => feasible hasMatcher cs

end Change

/-- Changes that find their places can be made. -/
theorem Draft.Places.applyAll? {offset : Nat} {hasMatcher : Bool} {cs : List Change} :
    ∀ {d : Draft} {actual : Expr} {place : Option Call} {method : Method},
      d.Places actual place method → Change.feasible hasMatcher cs = true →
      (hasMatcher = true → place.isSome = true) →
      (cs.any Change.isActualArg = true → ∃ c : Call, actual = c.toExpr ∧ offset < c.args.length) →
      ∃ d', cs.foldlM (Change.make? offset) d = some d' := by
  induction cs with
  | nil => exact fun {d} _ _ _ _ _ _ _ => ⟨d, rfl⟩
  | cons change cs ih =>
      intro d actual place method places feasible some_matcher call
      -- Each change is made, and the others are possible behind it.
      have behind : ∀ {d' : Draft} {actual' : Expr} {place' : Option Call} {method' : Method},
          change.make? offset d = some d' → d'.Places actual' place' method' →
          Change.feasible hasMatcher cs = true → (hasMatcher = true → place'.isSome = true) →
          (cs.any Change.isActualArg = true →
            ∃ c : Call, actual' = c.toExpr ∧ offset < c.args.length) →
          ∃ d'', (change :: cs).foldlM (Change.make? offset) d = some d'' := by
        intro d' actual' place' method' made places' feasible' some_matcher' call'
        obtain ⟨d'', others⟩ := ih places' feasible' some_matcher' call'
        exact ⟨d'', by rw [List.foldlM_cons, made]; exact others⟩
      have later : cs.any Change.isActualArg = true →
          ∃ c : Call, actual = c.toExpr ∧ offset < c.args.length := by
        intro some_arg
        exact call (by rw [List.any_cons, some_arg, Bool.or_true])
      cases change with
      | actualArg e =>
          obtain ⟨c, rfl, inside⟩ := call rfl
          obtain ⟨d', made, places'⟩ := places.setActualArg inside e
          exact behind made places' feasible some_matcher fun _ => ⟨_, rfl, by simpa using inside⟩
      | chain name args =>
          obtain ⟨none_left, feasible⟩ := Bool.and_eq_true_iff.mp feasible
          obtain ⟨d', made, places'⟩ := places.chainActual name args
          exact behind made places' feasible some_matcher
            fun some_left => by simp [some_left] at none_left
      | matcher new =>
          obtain ⟨isKnown, feasible⟩ := Bool.and_eq_true_iff.mp feasible
          obtain ⟨old, rfl⟩ := Option.isSome_iff_exists.mp (some_matcher isKnown)
          obtain ⟨d', made, places'⟩ := places.setMatcher new
          exact behind made places' feasible (fun _ => rfl) later
      | innerMatcher new =>
          obtain ⟨isKnown, feasible⟩ := Bool.and_eq_true_iff.mp feasible
          obtain ⟨old, rfl⟩ := Option.isSome_iff_exists.mp (some_matcher isKnown)
          obtain ⟨d', made, places'⟩ := places.setInnerMatcher new
          exact behind made places' feasible (fun _ => rfl) later
      | reverse =>
          obtain ⟨d', made, places'⟩ := places.reverse
          exact behind made places' feasible some_matcher later
      | negative b =>
          obtain ⟨d', method', made, places', -⟩ := places.setNegative b
          exact behind made places' feasible some_matcher later

namespace Rule

theorem feasible_errorStatement (a : Assertion) (v : Value) (expectsNil : Bool) :
    Change.feasible true (errorStatement a v expectsNil) = true := by
  unfold errorStatement
  split <;> rfl

/-- What a rule decides on finds its places. -/
theorem feasible_changes? {a : Assertion} {cs : List Change} {r : Rule}
    (decided : r.changes? a = some cs) : Change.feasible a.matcher.isSome cs = true := by
  cases changes?_eq_some_iff.mp decided with
  | @size m f call arg new turns matched subject checked =>
      rw [matched]
      cases turns <;> rfl
  | sizeComparison matched | comparison matched | nilComparison matched | equalNil matched
  | pointer matched =>
      rw [matched]
      rfl
  | error matched | errorComparison matched =>
      rw [matched]
      exact feasible_errorStatement a _ _
  | passed => split <;> rfl

end Rule

namespace Assertion

/-- The changes that a rule decides on can be made to a located assertion. -/
theorem Located.applyAll? {seen copy : Call} {a : Assertion} (located : a.Located seen copy)
    {r : Rule} {cs : List Change} (decided : r.changes? a = some cs) :
    ∃ d, Rule.applyAll? a cs = some d := by
  have inside := (List.getElem?_eq_some_iff.mp located.copyArg).1
  refine located.places.applyAll? (Rule.feasible_changes? decided) (fun known => ?_)
    fun _ => ⟨_, rfl, inside⟩
  obtain ⟨m, matched⟩ := Option.isSome_iff_exists.mp known
  rw [located.matcherPlace?_eq matched]
  rfl

/-- **Edits land where the classification looked.**  Take an assertion that was recognized
with some copy.  By counting, its draft has at the place of the actual value the call
that was found there in the copy, with the classified argument at its index, and at the
place of the matcher the innermost matcher that was found; where the copy is the
assertion itself, these are the call, the argument and the matcher of the assertion.
The edits of the actual value and of the polarity succeed, those of the matcher do if one
was found, and each changes what stands at its place.  So a rule suggests a fix exactly if
it decides on changes, and the fix is the text of the draft with these made. -/
theorem edits_land {style : ImportStyle} {o : Oracle} {seen copy : Call} {a : Assertion}
    (recognized : Assertion.of? style o seen copy = some a) :
    (a.draft.actualPlace? = some a.actual.call.copy.toExpr ∧
      a.actual.call.copy.args[a.actual.offset]? = some a.actual.arg.copy ∧
      (∀ m, a.matcher = some m → a.draft.matcherPlace? = some m.call.copy) ∧
      (copy = seen → a.actual.call.copy = a.actual.call.seen ∧
        a.actual.arg.copy = a.actual.arg.seen ∧
        ∀ m, a.matcher = some m → m.call.copy = m.call.seen)) ∧
    ((∀ e, ∃ d, a.draft.setActualArg a.actual.offset e = some d ∧
        d.actualPlace? = some (Call.toExpr
          { a.actual.call.copy with args := a.actual.call.copy.args.set a.actual.offset e })) ∧
      (∀ name args, ∃ d, a.draft.chainActual name args = some d ∧
        d.actualPlace? =
          some (.call {} (.selector {} a.actual.call.copy.toExpr { name }) args false)) ∧
      (∀ negative, ∃ d method, a.draft.setNegative negative = some d ∧
        d.method? = some method ∧ method.isNegative = negative) ∧
      (∃ d, a.draft.reverse = some d ∧ d.method? = some a.method.reversed) ∧
      ∀ m, a.matcher = some m → ∀ new name,
        (∃ d, a.draft.setMatcher new = some d ∧ d.matcherPlace? = some new) ∧
        (∃ d, a.draft.setInnerMatcher new = some d ∧ d.matcherPlace? = some new) ∧
        ∃ d, a.draft.renameMatcher name = some d ∧
          d.matcherPlace? = some (a.style.withFunction m.call.copy name)) ∧
    ∀ r : Rule,
      (∀ cs, r.changes? a = some cs → ∃ d, Rule.applyAll? a cs = some d ∧
        (r.check a).bind Report.fix = some d.print) ∧
      (r.changes? a = none → (r.check a).bind Report.fix = none) := by
  have located := Assertion.of?_located recognized
  have places := located.places
  have inside := (List.getElem?_eq_some_iff.mp located.copyArg).1
  refine ⟨⟨places.actual_eq, located.copyArg, fun m => located.matcherPlace?_eq,
    located.copy_eq⟩, ⟨fun e => ?_, fun name args => ?_, fun negative => ?_, ?_,
    fun m matched new name => ?_⟩, fun r => ⟨fun cs decided => ?_, fun undecided => ?_⟩⟩
  · obtain ⟨d, edited, places'⟩ := places.setActualArg inside e
    exact ⟨d, edited, places'.actual_eq⟩
  · obtain ⟨d, edited, places'⟩ := places.chainActual name args
    exact ⟨d, edited, places'.actual_eq⟩
  · obtain ⟨d, method, edited, places', isNegative⟩ := places.setNegative negative
    exact ⟨d, method, edited, places'.method_eq, isNegative⟩
  · obtain ⟨d, edited, places'⟩ := places.reverse
    exact ⟨d, edited, places'.method_eq⟩
  · rw [located.matcherPlace?_eq matched] at places
    obtain ⟨d₁, edited₁, places₁⟩ := places.setMatcher new
    obtain ⟨d₂, edited₂, places₂⟩ := places.setInnerMatcher new
    obtain ⟨d₃, edited₃, places₃⟩ := places.editMatcher fun c => a.style.withFunction c name
    exact ⟨⟨d₁, edited₁, places₁.matcher_eq⟩, ⟨d₂, edited₂, places₂.matcher_eq⟩,
      ⟨d₃, edited₃, places₃.matcher_eq⟩⟩
  · obtain ⟨d, made⟩ := located.applyAll? decided
    refine ⟨d, made, ?_⟩
    rw [Rule.fix_check, Rule.draft?_eq_applyAll?, decided, Option.bind_some, made, Option.map_some]
  · rw [Rule.fix_check, Rule.draft?_eq_applyAll?, undecided, Option.bind_none, Option.map_none]

/-- `Expect(len(x)).WithOffset(1).To(Not(Not(Equal(n))))`. -/
def offsetLength : Call where
  callee :=
    .selector {}
      (.call {} (.selector {}
        (.call {} (.named "Expect") [.call {} (.named "len") [.named "x"] false] false)
        { name := "WithOffset" }) [.intLiteral "1"] false)
      { name := "To" }
  args := [.call {} (.named "Not") [.call {} (.named "Not")
    [.call {} (.named "Equal") [.named "n"] false] false] false]

/-- The edits find the call of `Expect` under the helper and `Equal` under both wrappers,
and the rule about lengths suggests its fix. -/
theorem edits_land_offsetLength :
    ∃ a, Assertion.of? .dot (fun _ => none) offsetLength offsetLength = some a ∧
      a.actual.depth = 1 ∧ a.draft.notDepth = 2 ∧
      a.draft.matcherPlace? = some ⟨{}, .named "Equal", [.named "n"], false⟩ ∧
      ∃ d, Rule.applyAll? a
          [.actualArg (.named "x"),
            .innerMatcher (ImportStyle.dot.matcher "HaveLen" [.named "n"])] = some d ∧
        (Rule.lenAssertion.check a).bind Report.fix = some d.print := by
  refine ⟨_, rfl, rfl, rfl, ?_⟩
  obtain ⟨found, -, fixes⟩ := edits_land
    (rfl : Assertion.of? .dot (fun _ => none) offsetLength offsetLength = some _)
  exact ⟨found.2.2.1 _ rfl, (fixes .lenAssertion).1 _ rfl⟩

end Assertion

end GomegaLint
