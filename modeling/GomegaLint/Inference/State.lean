import GomegaLint.Inference.Resolve
import GomegaLint.Oracle

/-!
# The state of inference

While a file is walked, `Inference.State` holds the names bound in the blocks
that are open, the counter of the constant group at hand, and the types found so
far.  A name can be bound without anything being known of it; it still hides
what has the same name outside.
-/

namespace GomegaLint

namespace Inference

/-- The names bound in a block, latest first. -/
abbrev Frame := List (String × Option Typed)

/-- What is known at a point of the walk. -/
structure State where
  /-- The open blocks, innermost first. -/
  frames : List Frame := [[]]
  /-- The place of the constant specification at hand in its group. -/
  iota : Option Int := none
  /-- Whether the types that are found are entered in the table. -/
  recording : Bool := true
  types : TypeCache := {}
  /-- The signatures of declared functions, as far as they were asked for. -/
  signatures : List (String × Option GoType) := []
  table : TypeTable := {}
  /-- Some constant operation had no result that could be represented. -/
  overflow : Bool := false
  deriving Inhabited

namespace State

/-- Open a block. -/
def push (s : State) : State := { s with frames := [] :: s.frames }

/-- Close the innermost block; the outermost stays open. -/
def pop (s : State) : State :=
  match s.frames with
  | _ :: f :: fs => { s with frames := f :: fs }
  | _ => s

/-- Bind a name in the innermost block.  The blank name is never bound. -/
def bind (s : State) (name : String) (t : Option Typed) : State :=
  if name = "_" then s
  else
    match s.frames with
    | f :: fs => { s with frames := ((name, t) :: f) :: fs }
    | [] => s

/-- What a name is bound to, in the innermost block that binds it. -/
def lookup? (s : State) (name : String) : Option (Option Typed) :=
  s.frames.findSome? (·.lookup name)

/-- Some open block binds the name. -/
def isBound (s : State) (name : String) : Bool := (s.lookup? name).isSome

/-- Enter what was found of a node. -/
def record (s : State) (n : Node) (t : Option Typed) : State :=
  match t with
  | some t => if s.recording then { s with table := s.table.insert n.id t } else s
  | none => s

end State

/-- A step of inference. -/
abbrev InferM := StateM State

/-- Resolve types in the course of inference. -/
def resolving {α : Type} (m : TypeM α) : InferM α := fun s =>
  let r := m s.types
  (r.1, { s with types := r.2 })

/-- Do a step inside a block of its own. -/
def inBlock {α : Type} (m : InferM α) : InferM α := do
  modify State.push
  let a ← m
  modify State.pop
  return a

/-- Bind the text of a node. -/
def bindNode (n : Node) (t : Option Typed) : InferM Unit := modify (·.bind n.text t)

/-- Enter what was found of a node. -/
def recordNode (n : Node) (t : Option Typed) : InferM Unit := modify (·.record n t)

/-! ## Names -/

/-- The functions that need no declaration. -/
def builtins : List String :=
  ["append", "cap", "clear", "close", "complex", "copy", "delete", "imag", "len", "make", "max",
   "min", "new", "panic", "print", "println", "real", "recover"]

section

variable (ctx : FileContext)

/-- The path of the package that a node names, unless the name is bound. -/
def packagePath? (s : State) (n : Node) : Option String :=
  if (n.kind == .identifier || n.kind == .packageIdentifier) && !s.isBound n.text then
    ctx.imports.lookup n.text
  else none

/-- The signature of a declared function. -/
def functionSignature (f : FunctionDecl) : InferM (Option GoType) := do
  match (← get).signatures.lookup f.name with
  | some t => return t
  | none =>
    let t ← resolving (FileContext.signatureOf ctx.resolve f.shape).run
    modify fun s => { s with signatures := (f.name, t) :: s.signatures }
    return t

/-- What a name means that the language defines, or a package imported with a
dot. -/
def universe? (iota : Option Int) (name : String) : Option Typed :=
  match name with
  | "nil" => some .nil
  | "true" => some ⟨.basic .untypedBool, some (.bool true)⟩
  | "false" => some ⟨.basic .untypedBool, some (.bool false)⟩
  | "iota" => iota.map fun i => ⟨.basic .untypedInt, some (.int i)⟩
  | _ =>
    if builtins.contains name then some { type := .builtin name }
    else (ctx.dotImports.findSome? fun path => Packages.member? path name).map
      fun t => { type := t }

/-- What a name means: what the innermost block binds it to, else the function
declared under it, else what it means everywhere. -/
def resolveName (name : String) : InferM (Option Typed) := do
  let s ← get
  match s.lookup? name with
  | some t => return t
  | none =>
    match ctx.declarations.function? name with
    | some f => return (← functionSignature ctx f).map fun t => { type := t }
    | none => return universe? ctx s.iota name

/-! ## Types written as expressions -/

/-- The type that a name in an expression denotes, unless the name is bound. -/
def typeOfIdentifier (name : String) : InferM (Option GoType) := do
  if (← get).isBound name then return none
  resolving (ctx.typeOfName (ctx.resolveIn ctx.definitionSteps) name)

/-- The type that an expression denotes, at most `levels` deep. -/
def typeOfExpressionIn : Nat → Node → OptionT InferM GoType
  | 0, _ => failure
  | levels + 1, n =>
    match n.kind with
    | .identifier => typeOfIdentifier ctx n.text
    | .parenthesizedExpression => do typeOfExpressionIn levels (← n.firstNamed?.getM)
    | .unaryExpression => do
      let op ← (n.child? .operator).getM
      if op.text ≠ "*" then failure
      return .pointer (← typeOfExpressionIn levels (← (n.child? .operand).getM))
    | .selectorExpression => do
      let operand ← (n.child? .operand).getM
      let field ← (n.child? .field).getM
      let path ← (packagePath? ctx (← get) operand).getM
      (Packages.type? path field.text).getM
    | k => if k.isType then resolving (ctx.resolve n) else failure

/-- The type that an expression denotes, as in a conversion or behind `new`. -/
def typeOfExpression (n : Node) : InferM (Option GoType) := (typeOfExpressionIn ctx n.depth n).run

/-- The type of a part that is a type expression. -/
def resolveChild (n : Node) (f : Field) : InferM (Option GoType) :=
  match n.child? f with
  | some c => resolving (ctx.resolve c)
  | none => return none

/-- Bind the names of a parameter list. -/
def bindParameters (list : Node) : InferM Unit :=
  (list.parts.filterMap (FileContext.parameter? ctx.resolve)).forM fun p => do
    let t ← resolving p.2
    p.1.forM fun name => bindNode name (t.map fun t => { type := t })

/-- Bind the parameters of a function, its receiver and its named results. -/
def bindSignature (n : Node) : InferM Unit := do
  (n.child? .receiver).forM (bindParameters ctx)
  (n.child? .parameters).forM (bindParameters ctx)
  (n.child? .result).forM fun r => if r.kind = .parameterList then bindParameters ctx r else pure ()

end

end Inference

end GomegaLint
