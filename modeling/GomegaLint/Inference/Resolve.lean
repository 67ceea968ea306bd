import GomegaLint.Inference.Declarations
import GomegaLint.Inference.Packages

/-!
# The types that type expressions denote

`FileContext.resolve` gives the type a type expression denotes, where the file
and the well-known packages decide it.

A declared type that is met again while its own definition is being resolved
stands for itself: it is taken for a defined type over a struct, and an alias
that is met again denotes nothing.  So resolution ends on every file, whatever
cycles its declarations make: each step goes to a part of the expression at hand
or starts the definition of a type that is not being resolved.  The resolved
definition of a type is kept and used from then on.
-/

namespace GomegaLint

/-- The types resolved so far, and those whose definitions are being
resolved. -/
structure TypeCache where
  known : List (String × Option GoType) := []
  building : List String := []
  deriving Inhabited

/-- A computation that may resolve declared types. -/
abbrev TypeM := StateM TypeCache

/-- A resolver of type expressions. -/
abbrev Resolver := Node → TypeM (Option GoType)

namespace FileContext

section

variable (ctx : FileContext) (resolve : Resolver)

/-- The defined type of a declaration. -/
def definedType (name : String) (definition : GoType) : GoType :=
  .named ctx.package name (ctx.declarations.methodNames name) definition

/-- What the declaration of a type that is not yet known denotes. -/
def declaredType (d : TypeDecl) : TypeM (Option GoType) := do
  let s ← get
  if s.building.contains d.name then
    return if d.isAlias then none else some (ctx.definedType d.name .struct)
  set { s with building := d.name :: s.building }
  let target ← resolve d.target
  modify fun s => { s with building := s.building.erase d.name }
  if d.isAlias then return target
  let type := target.map fun t => ctx.definedType d.name t.underlying
  modify fun s => { s with known := (d.name, type) :: s.known }
  return type

/-- The type that the file declares under a name. -/
def namedType (name : String) : TypeM (Option GoType) := do
  match (← get).known.lookup name with
  | some t => return t
  | none =>
    match ctx.declarations.type? name with
    | none => return none
    | some d => ctx.declaredType resolve d

/-- The type that a name denotes besides those that the file declares. -/
def predeclaredType? (name : String) : Option GoType :=
  match BasicKind.ofName? name with
  | some k => some (.basic k)
  | none =>
    match name with
    | "error" => some .error
    | "any" => some Packages.any
    | _ => ctx.dotImports.findSome? fun path => Packages.type? path name

/-- The type that a name denotes. -/
def typeOfName (name : String) : TypeM (Option GoType) := do
  return (← ctx.namedType resolve name).or (ctx.predeclaredType? name)

/-- The type that a name qualified by a package denotes. -/
def qualifiedType? (n : Node) : Option GoType :=
  match ctx.style.typeName? n.toExpr with
  | some name => Packages.gomegaType? name
  | none => do
    let package ← n.child? .package
    let name ← n.child? .name
    Packages.type? (← ctx.imports.lookup package.text) name.text

/-- The type of the part of a type expression in the role `f`. -/
def resolvePart (n : Node) (f : Field) : OptionT TypeM GoType :=
  match n.child? f with
  | none => failure
  | some c => resolve c

/-- The type of the first part of a type expression. -/
def resolveFirst (n : Node) : OptionT TypeM GoType :=
  match n.firstNamed? with
  | none => failure
  | some c => resolve c

/-- The names that a parameter declaration declares and the type that it gives
them; an unnamed parameter declares no name. -/
def parameter? (n : Node) : Option (List Node × TypeM (Option GoType)) :=
  match n.kind with
  | .parameterDeclaration => some (n.childrenAs .name, (resolvePart resolve n .type).run)
  | .variadicParameterDeclaration =>
    some (n.childrenAs .name, do return (← (resolvePart resolve n .type).run).map .slice)
  | _ => none

/-- The types of the parameters of a list, one for each name or unnamed
parameter. -/
def parameterTypes (list : Node) : TypeM (List (Option GoType)) := do
  let types ← (list.parts.filterMap (parameter? resolve)).mapM fun p => do
    return List.replicate (max p.1.length 1) (← p.2)
  return types.flatten

/-- The types of the results of a function; unknown if one of them is. -/
def resultTypes : Option Node → OptionT TypeM (List GoType)
  | none => return []
  | some n =>
    if n.kind = .parameterList then do
      let types ← parameterTypes resolve n
      match types.mapM id with
      | some ts => return ts
      | none => failure
    else return [← resolve n]

/-- The signature of a function.  A parameter may be unknown, a result may
not. -/
def signatureOf (f : FunctionShape) : OptionT TypeM GoType := do
  let params ← match f.parameters with
    | some list => parameterTypes resolve list
    | none => pure []
  let results ← resultTypes resolve f.result
  return .signature (params.map (·.getD Packages.any)) results

/-- The methods that an embedded type adds to an interface. -/
def embeddedMethods (t : GoType) : List String :=
  match t.underlying with
  | .interface ms => ms
  | _ => if t.implementsError then ["Error"] else []

/-- The methods that an element of an interface contributes. -/
def elementMethods (n : Node) : TypeM (List String) :=
  if n.kind = .methodSpec then return ((n.child? .name).map Node.text).toList
  else return ((← resolve n).map embeddedMethods).getD []

/-- The names of the methods of an interface type. -/
def interfaceMethods (n : Node) : TypeM (List String) := do
  return (← n.parts.mapM (elementMethods resolve)).flatten

/-- The type that a type expression denotes, by the types of its parts. -/
def resolveStep (n : Node) : OptionT TypeM GoType :=
  match n.kind with
  | .typeIdentifier | .identifier => ctx.typeOfName resolve n.text
  | .qualifiedType => .mk (return ctx.qualifiedType? n)
  | .pointerType => return .pointer (← resolveFirst resolve n)
  | .sliceType | .arrayType | .implicitLengthArrayType =>
    return .slice (← resolvePart resolve n .element)
  | .mapType => do
    let key ← resolvePart resolve n .key
    let value ← resolvePart resolve n .value
    return .map key value
  | .channelType => return .chan (← resolvePart resolve n .value)
  | .functionType => signatureOf resolve (.ofNode n)
  | .structType => return .struct
  | .interfaceType => return .interface (← interfaceMethods resolve n)
  | .parenthesizedType | .constraintElem => resolveFirst resolve n
  | _ => failure

end

/-- Resolution in at most `steps` steps into parts and definitions. -/
def resolveIn (ctx : FileContext) : Nat → Resolver
  | 0 => fun _ => return none
  | steps + 1 => fun n => (ctx.resolveStep (ctx.resolveIn steps) n).run

/-- As many steps as the definitions of the file can take, one after the other. -/
def definitionSteps (ctx : FileContext) : Nat :=
  ctx.declarations.types.foldr (fun d n => d.target.depth + n) 0

/-- The type that a type expression denotes.  The expression can be descended
once, and each definition once within it. -/
def resolve (ctx : FileContext) (n : Node) : TypeM (Option GoType) :=
  ctx.resolveIn (n.depth + ctx.definitionSteps) n

end FileContext

end GomegaLint
