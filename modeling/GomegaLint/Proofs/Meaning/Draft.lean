import Mathlib
import GomegaLint.Proofs.Meaning.Recognition

/-!
# What the edits of a draft do to an assertion

Every edit changes one of the three parts of an assertion (`Call.parts?`) and
leaves the other two as they are.  The edits that replace a matcher are followed
through to what the assertion then says:

* `Draft.holds_restated`: with the whole matcher replaced and the polarity set,
  the assertion says what the new matcher says, with that polarity;
* `Draft.holds_replaced`: with the innermost matcher replaced, the wrappers and
  the method keep what they turn around.
-/

namespace GomegaLint

/-! ## The parts of an assertion -/

theorem Call.parts?_eq_some {c : Call} {index : Nat} {value matcher : Expr} {method : Method}
    (parts : c.parts? index = some (value, method, matcher)) :
    ∃ origin x m rest, c.callee = .selector origin x m ∧ c.args = matcher :: rest ∧
      actualArg? index x = some value ∧ Method.ofName? m.name = some method := by
  obtain ⟨o, callee, args, spread⟩ := c
  cases callee with
  | selector origin x m =>
      cases args with
      | nil => simp [Call.parts?] at parts
      | cons t rest =>
          simp only [Call.parts?, Option.bind_eq_bind, Option.bind_eq_some_iff, Option.pure_def,
            Option.some.injEq, Prod.mk.injEq] at parts
          obtain ⟨v, isValue, m', isMethod, rfl, rfl, rfl⟩ := parts
          exact ⟨origin, x, m, rest, rfl, rfl, isValue, isMethod⟩
  | _ => simp [Call.parts?] at parts

theorem Call.parts?_of {c : Call} {index : Nat} {value matcher x : Expr} {method : Method}
    {origin : Origin} {m : Ident} {rest : List Expr} (callee : c.callee = .selector origin x m)
    (args : c.args = matcher :: rest) (isValue : actualArg? index x = some value)
    (isMethod : Method.ofName? m.name = some method) :
    c.parts? index = some (value, method, matcher) := by
  simp [Call.parts?, callee, args, isValue, isMethod]

namespace Draft

/-! ## One edit -/

/-- An edit of the call under the helpers leaves the helpers where they are. -/
theorem underHelpers_editUnder {edit : Expr → Option Expr} {c c' : Call} {n : Nat} {x x' : Expr}
    (under : UnderHelpers c n x) (edits : edit c.toExpr = some c'.toExpr)
    (edited : editUnder edit n x = some x') : UnderHelpers c' n x' := by
  induction under generalizing x' with
  | here =>
      rw [editUnder, edits] at edited
      cases edited
      exact .here
  | helper o so args s below isHelper ih =>
      simp only [editUnder, Option.map_eq_some_iff] at edited
      obtain ⟨y, edited, rfl⟩ := edited
      exact .helper o so args s (ih edited) isHelper

/-- An edit of the call under the wrappers leaves the wrappers where they are. -/
theorem underNots_editInside {style : ImportStyle} {edit : Call → Call} {c : Call} {n : Nat}
    {e e' : Expr} (under : UnderNots style c n e) (edited : editInside edit n e = some e') :
    UnderNots style (edit c) n e' := by
  induction under generalizing e' with
  | here =>
      simp only [Call.toExpr, editInside, Option.some.injEq] at edited
      subst edited
      exact .here
  | @wrapped n a as wrapper isNot first below ih =>
      obtain ⟨o, f, args, s⟩ := wrapper
      subst first
      simp only [Call.toExpr, editInside, Option.map_eq_some_iff] at edited
      obtain ⟨a', edited, rfl⟩ := edited
      -- A wrapper is recognized by its callee, whatever it wraps.
      exact .wrapped ⟨o, f, a' :: as, s⟩ isNot rfl (ih edited)

/-- Replacing the actual value in the call that takes it. -/
theorem parts?_setActualArg {d d' : Draft} {index : Nat} {e x matcher : Expr} {origin : Origin}
    {m : Ident} {method : Method} {rest : List Expr} {taking : Call}
    (callee : d.call.callee = .selector origin x m) (args : d.call.args = matcher :: rest)
    (isMethod : Method.ofName? m.name = some method) (under : UnderHelpers taking d.actualDepth x)
    (noHelper : taking.NoHelper) (inside : index < taking.args.length)
    (edited : d.setActualArg index e = some d') :
    d'.call.parts? index = some (e, method, matcher) ∧ d'.notDepth = d.notDepth := by
  simp only [setActualArg, editActual, callee, Option.map_eq_some_iff] at edited
  obtain ⟨x', edited, rfl⟩ := edited
  let taking' : Call := { taking with args := taking.args.set index e }
  have under' : UnderHelpers taking' d.actualDepth x' := by
    refine underHelpers_editUnder under ?_ edited
    simp only [Call.toExpr, inside, if_true, taking']
  refine ⟨Call.parts?_of rfl args ?_ isMethod, rfl⟩
  rw [under'.actualArg? noHelper]
  exact List.getElem?_set_self inside

theorem parts?_setMatcher {d d' : Draft} {new : Call} {index : Nat} {value matcher : Expr}
    {method : Method} (parts : d.call.parts? index = some (value, method, matcher))
    (edited : d.setMatcher new = some d') :
    d'.call.parts? index = some (value, method, new.toExpr) := by
  obtain ⟨origin, x, m, rest, callee, args, isValue, isMethod⟩ := Call.parts?_eq_some parts
  simp only [setMatcher, args, Option.some.injEq] at edited
  subst edited
  exact Call.parts?_of callee rfl isValue isMethod

theorem parts?_setInnerMatcher {style : ImportStyle} {d d' : Draft} {old new : Call} {index : Nat}
    {value matcher : Expr} {method : Method}
    (parts : d.call.parts? index = some (value, method, matcher))
    (under : UnderNots style old d.notDepth matcher) (edited : d.setInnerMatcher new = some d') :
    ∃ matcher', d'.call.parts? index = some (value, method, matcher') ∧
      UnderNots style new d.notDepth matcher' := by
  obtain ⟨origin, x, m, rest, callee, args, isValue, isMethod⟩ := Call.parts?_eq_some parts
  simp only [setInnerMatcher, editMatcher, args, Option.map_eq_some_iff] at edited
  obtain ⟨matcher', edited, rfl⟩ := edited
  exact ⟨matcher', Call.parts?_of callee rfl isValue isMethod,
    underNots_editInside under edited⟩

theorem parts?_reverse {d d' : Draft} {index : Nat} {value matcher : Expr} {method : Method}
    (parts : d.call.parts? index = some (value, method, matcher)) (edited : d.reverse = some d') :
    d'.call.parts? index = some (value, method.reversed, matcher) := by
  obtain ⟨origin, x, m, rest, callee, args, isValue, isMethod⟩ := Call.parts?_eq_some parts
  simp only [reverse, editMethod, callee, Method.reversedName?, isMethod, Option.map_some,
    Option.some.injEq] at edited
  subst edited
  exact Call.parts?_of rfl args isValue (Method.ofName?_name method.reversed)

theorem parts?_setNegative {d d' : Draft} {index : Nat} {value matcher : Expr} {method : Method}
    {negative : Bool} (parts : d.call.parts? index = some (value, method, matcher))
    (edited : d.setNegative negative = some d') :
    ∃ method', d'.call.parts? index = some (value, method', matcher) ∧
      method'.isNegative = negative := by
  obtain ⟨origin, x, m, rest, callee, args, isValue, isMethod⟩ := Call.parts?_eq_some parts
  have isNegative : Method.isNegativeName m.name = method.isNegative := by
    simp [Method.isNegativeName, isMethod]
  simp only [setNegative, callee, isNegative] at edited
  split at edited
  · rename_i already
    cases edited
    exact ⟨method, parts, already⟩
  · rename_i other
    refine ⟨method.reversed, parts?_reverse parts edited, ?_⟩
    rw [Method.isNegative_reversed, Bool.not_eq]
    exact other

/-! ## What the edited assertion says -/

section

variable {V : Type} (I : Interpretation V) {style : ImportStyle} {index : Nat}

/-- **A restated assertion says what its new matcher says.** -/
theorem holds_restated {d d₁ d₂ : Draft} {new : Call} {value matcher : Expr} {method : Method}
    {negative : Bool} (parts : d.call.parts? index = some (value, method, matcher))
    (replaced : d.setMatcher new = some d₁) (turned : d₁.setNegative negative = some d₂) :
    I.Holds style index d₂.call ↔
      Negated negative (I.accepts style new.toExpr (I.denote value)) := by
  obtain ⟨method', parts', rfl⟩ := parts?_setNegative (parts?_setMatcher parts replaced) turned
  exact I.holds_iff parts'

/-- **Replacing the innermost matcher keeps what stands around it.** -/
theorem holds_replaced {d d₁ : Draft} {old new : Call} {value matcher : Expr} {method : Method}
    (parts : d.call.parts? index = some (value, method, matcher))
    (under : UnderNots style old d.notDepth matcher) (replaced : d.setInnerMatcher new = some d₁) :
    I.Holds style index d₁.call ↔ Negated (method.isNegative != (d.notDepth % 2 == 1))
      (I.accepts style new.toExpr (I.denote value)) := by
  obtain ⟨matcher', parts', under'⟩ := parts?_setInnerMatcher parts under replaced
  rw [I.holds_iff parts', ← negated_negated]
  exact negated_congr _ (under'.accepts_iff I _)

/-- The opposite method says the opposite. -/
theorem holds_reverse {d d' : Draft} {value matcher : Expr} {method : Method}
    (parts : d.call.parts? index = some (value, method, matcher)) (turned : d.reverse = some d') :
    I.Holds style index d'.call ↔ ¬ I.Holds style index d.call := by
  rw [I.holds_iff (parts?_reverse parts turned), I.holds_iff parts, Method.isNegative_reversed]
  cases method.isNegative <;> simp [Negated]

end

end Draft

end GomegaLint
