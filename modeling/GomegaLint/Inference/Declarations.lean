import GomegaLint.Assertion.ImportStyle

/-!
# Declarations of a file

The types, functions and methods that a file declares anywhere in it, at the top
or inside a function, together with the packages it imports.  A name that is
declared twice means its later declaration.
-/

namespace GomegaLint

/-- A type declaration: a new type, or an alias of one. -/
structure TypeDecl where
  name : String
  isAlias : Bool
  target : Node
  deriving Inhabited

/-- The parameters and results of a function as they are written. -/
structure FunctionShape where
  parameters : Option Node
  result : Option Node
  deriving Inhabited

/-- A function declaration. -/
structure FunctionDecl where
  name : String
  shape : FunctionShape
  deriving Inhabited

/-- A method declaration, with the name of its receiver's type. -/
structure MethodDecl where
  receiver : String
  name : String
  shape : FunctionShape
  deriving Inhabited

/-- What a file declares.  Types and functions stand latest first, methods in
order. -/
structure Declarations where
  types : List TypeDecl := []
  functions : List FunctionDecl := []
  methods : List MethodDecl := []
  deriving Inhabited

namespace FunctionShape

def ofNode (n : Node) : FunctionShape := ⟨n.child? .parameters, n.child? .result⟩

end FunctionShape

namespace TypeDecl

def ofNode? (n : Node) : Option TypeDecl := do
  if n.kind ≠ .typeSpec ∧ n.kind ≠ .typeAlias then none
  let name ← n.child? .name
  let target ← n.child? .type
  return ⟨name.text, n.kind == .typeAlias, target⟩

end TypeDecl

namespace FunctionDecl

def ofNode? (n : Node) : Option FunctionDecl := do
  if n.kind ≠ .functionDeclaration then none
  let name ← n.child? .name
  return ⟨name.text, .ofNode n⟩

end FunctionDecl

namespace MethodDecl

/-- The name of a receiver type, behind pointers, parentheses and type
arguments; at most `levels` of them. -/
def receiverName? : Nat → Node → Option String
  | 0, _ => none
  | levels + 1, n =>
    match n.kind with
    | .pointerType | .genericType | .parenthesizedType => do
      receiverName? levels (← (n.child? .type).or n.firstNamed?)
    | .typeIdentifier => some n.text
    | _ => none

/-- The name of the type of a receiver list. -/
def receiverOf? (receiver : Node) : Option String := do
  let decl ← receiver.parts.find? (·.kind == .parameterDeclaration)
  let type ← decl.child? .type
  receiverName? type.depth type

def ofNode? (n : Node) : Option MethodDecl := do
  if n.kind ≠ .methodDeclaration then none
  let name ← n.child? .name
  let receiver ← receiverOf? (← n.child? .receiver)
  return ⟨receiver, name.text, .ofNode n⟩

end MethodDecl

namespace Declarations

/-- The declarations of a file. -/
def ofFile (root : Node) : Declarations :=
  let nodes := root.preorder
  { types := (nodes.filterMap TypeDecl.ofNode?).reverse
    functions := (nodes.filterMap FunctionDecl.ofNode?).reverse
    methods := nodes.filterMap MethodDecl.ofNode? }

def type? (d : Declarations) (name : String) : Option TypeDecl :=
  d.types.find? (·.name == name)

def function? (d : Declarations) (name : String) : Option FunctionDecl :=
  d.functions.find? (·.name == name)

/-- The names of the methods of a type, in the order of their declarations. -/
def methodNames (d : Declarations) (type : String) : List String :=
  (d.methods.filter (·.receiver == type)).map (·.name)

/-- The first declaration of a method of a type. -/
def method? (d : Declarations) (type name : String) : Option MethodDecl :=
  d.methods.find? fun m => m.receiver == type && m.name == name

end Declarations

/-- All that types in a file depend on. -/
structure FileContext where
  style : ImportStyle
  package : String
  /-- Local names of imported packages and their paths, latest first. -/
  imports : List (String × String)
  /-- Paths of dot imports, in order. -/
  dotImports : List String
  declarations : Declarations
  deriving Inhabited

namespace FileContext

/-- The context of a file that reaches Gomega in the given style. -/
def ofFile (style : ImportStyle) (root : Node) : FileContext :=
  let imports := Import.ofFile root
  { style
    package := (packageName? root).getD ""
    imports := (imports.filterMap Import.binding?).reverse
    dotImports := imports.filterMap Import.dotPath?
    declarations := .ofFile root }

end FileContext

end GomegaLint
