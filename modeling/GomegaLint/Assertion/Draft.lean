import GomegaLint.Assertion.ImportStyle
import GomegaLint.Assertion.Method

/-!
# Drafts of fixed assertions

A `Draft` is a copy of an assertion in which a fix is put together.  It finds the
call of the actual value again by the number of helper calls above it, and the
matcher by the number of `Not` wrappers around it, so that an edit lands where
the classification looked.

There are three groups of edits: of the actual value, of the matcher and of the
polarity.  An edit that finds nothing to change fails and leaves no draft.
-/

namespace GomegaLint

/-- A copy of an assertion to edit. -/
structure Draft where
  call : Call
  style : ImportStyle
  actualDepth : Nat
  notDepth : Nat
  deriving Repr, Inhabited

namespace Draft

/-! ## Places in the assertion -/

/-- Edit the expression under so many helper calls. -/
def editUnder (edit : Expr → Option Expr) : Nat → Expr → Option Expr
  | 0, e => edit e
  | depth + 1, .call o (.selector so x m) as s =>
    (editUnder edit depth x).map fun x' => .call o (.selector so x' m) as s
  | _ + 1, _ => none

/-- Edit the call of the actual value. -/
def editActual (d : Draft) (edit : Expr → Option Expr) : Option Draft :=
  match d.call.callee with
  | .selector o x m =>
    (editUnder edit d.actualDepth x).map fun x' =>
      { d with call := { d.call with callee := .selector o x' m } }
  | _ => none

/-- Edit the call under so many wrappers. -/
def editInside (edit : Call → Call) : Nat → Expr → Option Expr
  | 0, .call o f as s => some (edit ⟨o, f, as, s⟩).toExpr
  | depth + 1, .call o f (a :: as) s =>
    (editInside edit depth a).map fun a' => .call o f (a' :: as) s
  | _, _ => none

/-- Edit the innermost matcher. -/
def editMatcher (d : Draft) (edit : Call → Call) : Option Draft :=
  match d.call.args with
  | a :: as =>
    (editInside edit d.notDepth a).map fun a' =>
      { d with call := { d.call with args := a' :: as } }
  | [] => none

/-- Edit the assertion method. -/
def editMethod (d : Draft) (edit : String → Option String) : Option Draft :=
  match d.call.callee with
  | .selector o x m =>
    (edit m.name).map fun name =>
      { d with call := { d.call with callee := .selector o x { name } } }
  | _ => none

/-! ## The actual value -/

/-- Replace an argument of the call of the actual value. -/
def setActualArg (d : Draft) (offset : Nat) (e : Expr) : Option Draft :=
  d.editActual fun
    | .call o f as s => if offset < as.length then some (.call o f (as.set offset e) s) else none
    | _ => none

/-- Chain a method behind the call of the actual value. -/
def chainActual (d : Draft) (method : String) (args : List Expr) : Option Draft :=
  d.editActual fun actual => some (.call {} (.selector {} actual { name := method }) args false)

/-! ## The matcher -/

/-- Replace the whole matcher, its wrappers included. -/
def setMatcher (d : Draft) (m : Call) : Option Draft :=
  match d.call.args with
  | _ :: as => some { d with call := { d.call with args := m.toExpr :: as }, notDepth := 0 }
  | [] => none

/-- Replace the innermost matcher and keep its wrappers. -/
def setInnerMatcher (d : Draft) (m : Call) : Option Draft := d.editMatcher fun _ => m

/-- Rename the innermost matcher and keep its arguments. -/
def renameMatcher (d : Draft) (name : String) : Option Draft :=
  d.editMatcher fun m => d.style.withFunction m name

/-! ## The polarity -/

/-- Turn the assertion method into its opposite. -/
def reverse (d : Draft) : Option Draft := d.editMethod Method.reversedName?

/-- Make the assertion method negative or positive. -/
def setNegative (d : Draft) (negative : Bool) : Option Draft :=
  match d.call.callee with
  | .selector _ _ m =>
    if Method.isNegativeName m.name = negative then some d else d.reverse
  | _ => none

/-- The text of the assertion. -/
def print (d : Draft) : String := d.call.print

end Draft

end GomegaLint
