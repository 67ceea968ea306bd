import GomegaLint.Expr.Printer
import GomegaLint.Import
import GomegaLint.Oracle

/-!
# How a file reaches Gomega

A file imports Gomega with a dot, and then calls its functions by their bare
names, or under a package name, and then calls them through that name.  An
`ImportStyle` says which; it recognizes the calls of an assertion and builds
matcher calls the way the file writes them.

`ImportStyle.actual?` walks from the method of an assertion back to the call
that takes the actual value.  It walks two assertions side by side, the one in
the file and a copy of it, and gives up where they differ.
-/

namespace GomegaLint

/-- How a file names Gomega's functions. -/
inductive ImportStyle where
  | dot
  | named (package : String)
  deriving DecidableEq, Repr, Inhabited

/-- The type of the expression is known to be one of assertion objects. -/
def Oracle.isGomega (o : Oracle) (e : Expr) : Bool := o.hasType GoType.isGomega e

namespace ImportStyle

/-- The path that imports Gomega, in its quotes. -/
def gomegaPath : String := "\"github.com/onsi/gomega\""

/-- The style of a file with these imports; `none` if Gomega is not one of
them. -/
def ofImports? (imports : List Import) : Option ImportStyle := do
  let i ← imports.find? (·.path == gomegaPath)
  return match i.name with
    | some "." => dot
    | none => named "gomega"
    | some name => named name

/-- The package name that Gomega is bound to. -/
def boundName? : ImportStyle → Option String
  | dot => none
  | named n => some n

/-- The expression is the name that Gomega is bound to. -/
def isBoundName : ImportStyle → Expr → Bool
  | named n, .ident i => i.name == n
  | _, _ => false

/-- Calls in a chain that set up an assertion and leave its actual value
alone. -/
def helpers : List String :=
  ["WithOffset", "WithTimeout", "WithPolling", "Within", "ProbeEvery", "WithContext",
   "WithArguments", "MustPassRepeatedly"]

def isHelper (name : String) : Bool := helpers.contains name

/-! ## Recognizing calls -/

/-- The function that a call with this callee invokes, through the calls it is
chained to. -/
def functionOf? (style : ImportStyle) (o : Oracle) : Expr → Option String
  | .ident i => if style = dot then some i.name else none
  | .selector _ x m =>
    match style with
    | dot => if o.isGomega x then some m.name else chained x
    | named _ =>
      match x with
      | .ident _ => if style.isBoundName x || o.isGomega x then some m.name else none
      | _ => chained x
  | .call _ f _ _ => if style = dot then functionOf? style o f else none
  | _ => none
where
  /-- The function under the call that a member is selected from. -/
  chained : Expr → Option String
    | .call _ f _ _ => functionOf? style o f
    | _ => none

/-- The Gomega function that a call invokes, such as `Expect`. -/
def actualFunction? (style : ImportStyle) (o : Oracle) (c : Call) : Option String :=
  style.functionOf? o c.callee

/-- The matcher function that a call with this callee invokes. -/
def matcherOf? : ImportStyle → Expr → Option String
  | dot, .ident i => some i.name
  | named n, .selector _ x m => if (named n).isBoundName x then some m.name else none
  | _, _ => none

/-- The matcher function that a call invokes, such as `Equal`. -/
def matcherFunction? (style : ImportStyle) (c : Call) : Option String :=
  style.matcherOf? c.callee

/-- The name of a type that the file takes from Gomega, perhaps behind stars. -/
def typeName? (style : ImportStyle) : Expr → Option String
  | .star _ x => style.typeName? x
  | .ident i => if style = dot then some i.name else none
  | .selector _ x m => if style.isBoundName x then some m.name else none
  | _ => none

/-! ## Building calls -/

/-- A Gomega function as the file writes it. -/
def functionExpr : ImportStyle → String → Expr
  | dot, f => Expr.named f
  | named n, f => .selector {} (Expr.named n) { name := f }

/-- A matcher call. -/
def matcher (style : ImportStyle) (name : String) (args : List Expr) : Call :=
  { callee := style.functionExpr name, args }

/-- A matcher call around another. -/
def wrapper (style : ImportStyle) (name : String) (inner : Call) : Call :=
  style.matcher name [inner.toExpr]

/-- The call with another function, its arguments kept. -/
def withFunction (style : ImportStyle) (c : Call) (name : String) : Call :=
  match c.callee with
  | .selector o x _ => { c with callee := .selector o x { name } }
  | .ident _ => if style = dot then { c with callee := Expr.named name } else c
  | _ => c

/-! ## The call of the actual value -/

/-- The call that takes the actual value, in an assertion and in its copy, and
the number of helper calls it was found under. -/
structure Found where
  seen : Call
  copy : Call
  depth : Nat
  deriving Repr, Inhabited

/-- Walk from what the assertion method is selected from, and its counterpart in
the copy, to the call of the actual value. -/
def actualFrom? (style : ImportStyle) (o : Oracle) (depth : Nat) : Expr → Expr → Option Found
  | .call so sf sargs ss, .call co cf cargs cs =>
    let found : Found := ⟨⟨so, sf, sargs, ss⟩, ⟨co, cf, cargs, cs⟩, depth⟩
    match sf, cf with
    | .ident _, .ident _ => some found
    | .selector _ sx sm, .selector _ cx cm =>
      if sm.name ≠ cm.name then none
      else if style.isBoundName sx && style.isBoundName cx then some found
      else if isHelper sm.name then style.actualFrom? o (depth + 1) sx cx
      else if o.isGomega sx then some found
      else none
    | _, _ => none
  | _, _ => none

/-- The call of the actual value of an assertion method and its copy. -/
def actual? (style : ImportStyle) (o : Oracle) (seen copy : Selector) : Option Found :=
  style.actualFrom? o 0 seen.x copy.x

end ImportStyle

end GomegaLint
