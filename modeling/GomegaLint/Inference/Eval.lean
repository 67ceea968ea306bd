import GomegaLint.Constant.Literal
import GomegaLint.Inference.State

/-!
# Types of expressions

The type of an expression, and its value if it is constant, from those of its
parts.  `Walker` stands for the walk into the parts; a step uses it only on nodes
below the one at hand.
-/

namespace GomegaLint

namespace Inference

/-- A walk into nodes: evaluation of expressions and execution of statements. -/
structure Walker where
  eval : Node → InferM (Option Typed)
  exec : Node → InferM Unit

namespace Walker

/-- Execute a statement or evaluate an expression.  Types are passed over. -/
def visit (w : Walker) (n : Node) : InferM Unit :=
  if n.kind.isStatement then w.exec n
  else if n.kind.isType then pure ()
  else discard (w.eval n)

/-- Visit the parts of a node in order. -/
def visitParts (w : Walker) (n : Node) : InferM Unit := n.parts.forM w.visit

/-- Evaluate the child in the role `f`. -/
def evalChild (w : Walker) (n : Node) (f : Field) : InferM (Option Typed) :=
  match n.child? f with
  | some c => w.eval c
  | none => return none

end Walker

/-! ## Operators -/

def ofType (t : GoType) : Typed := { type := t }

/-- The type of a unary operation. -/
def unaryResult (op : String) (x : Typed) : Option Typed :=
  match op with
  | "&" => some (ofType (.pointer x.type))
  | "*" =>
    match x.type with
    | .pointer e => some (ofType e)
    | _ => none
  | "<-" =>
    match x.type.underlying with
    | .chan e => some (ofType e)
    | _ => none
  | "!" => some ⟨x.type, x.value.bind Constant.not?⟩
  | "-" => some ⟨x.type, x.value.bind Constant.negate?⟩
  | _ => some (ofType x.type)

/-- Comparisons, conjunction and disjunction. -/
def isPredicate (op : BinaryOp) : Bool := op.isComparison || op == .land || op == .lor

/-- The type of an arithmetic operation: that of the left operand, unless it is
untyped and the right one is not.  A shift has the type of its left operand. -/
def arithmeticType (op : BinaryOp) (x : Typed) (y : Option Typed) : GoType :=
  match y with
  | some y =>
    if op ≠ .shl ∧ op ≠ .shr ∧ x.type.isUntyped ∧ !y.type.isUntyped then y.type else x.type
  | none => x.type

/-- The value of an arithmetic operation. -/
def arithmeticValue (op : BinaryOp) (x : Typed) (y : Option Typed) : Folded :=
  match x.value, y.bind (·.value) with
  | some a, some b => Constant.fold op a b
  | _, _ => .unknown

/-- The type of an element that an index selects. -/
def elementType? (t : GoType) : Option GoType :=
  match t.underlying with
  | .slice e => some e
  | .map _ v => some v
  | .basic .string | .basic .untypedString => some (.basic .uint8)
  | _ => none

/-- A conversion to a type.  A constant keeps its value in a basic type. -/
def convert (t : GoType) (x : Option Typed) : Typed :=
  ⟨t, if t.isBasic then x.bind (·.value) else none⟩

/-- What a call of a function with these results gives. -/
def callResult : List GoType → Option Typed
  | [] => none
  | [t] => some (ofType t)
  | ts => some (ofType (.tuple ts))

/-- The type that several operands of one builtin have together: the first that
is not untyped, else the first. -/
def commonType? (xs : List (Option Typed)) : Option GoType :=
  let known := xs.filterMap id
  ((known.find? (!·.type.isUntyped)).or known.head?).map (·.type)

/-! ## Literals -/

/-- The type and value of a literal. -/
def literal? (n : Node) : Option Typed :=
  match n.kind with
  | .intLiteral => some ⟨.basic .untypedInt, (Literal.int? n.text).map .int⟩
  | .floatLiteral => some ⟨.basic .untypedFloat, (Literal.float? n.text).map .float⟩
  | .imaginaryLiteral => some (ofType (.basic .complex128))
  | .runeLiteral => some ⟨.basic .untypedRune, (Literal.rune? n.text).map .int⟩
  | .interpretedStringLiteral | .rawStringLiteral =>
    some ⟨.basic .untypedString, some (.string (Literal.unquote n.text))⟩
  | _ => none

section

variable (ctx : FileContext) (w : Walker)

def evalUnary (n : Node) : InferM (Option Typed) := do
  match n.child? .operand, n.child? .operator with
  | some x, some op => return (← w.eval x).bind (unaryResult op.text)
  | _, _ => return none

/-- The outcome of an arithmetic operation.  An overflow leaves no value. -/
def arithmetic (op : BinaryOp) (x : Typed) (y : Option Typed) : InferM Typed := do
  let type := arithmeticType op x y
  match arithmeticValue op x y with
  | .value c => return ⟨type, some c⟩
  | .unknown => return ⟨type, none⟩
  | .overflow =>
    modify fun s => { s with overflow := true }
    return ⟨type, none⟩

def evalBinary (n : Node) : InferM (Option Typed) := do
  let x ← w.evalChild n .left
  let y ← w.evalChild n .right
  match (n.child? .operator).bind fun o => BinaryOp.ofSymbol? o.text with
  | none => return none
  | some op =>
    if isPredicate op then return some (ofType (.basic .untypedBool))
    match x with
    | none => return none
    | some x => return some (← arithmetic op x y)

/-! ## Members -/

/-- A field declaration declares the field: it lists the name, or embeds a type
whose text ends with it. -/
def declaresField (field : String) (decl : Node) : Bool :=
  match decl.childrenAs .name with
  | [] => (decl.child? .type).any fun t =>
      field.toList.isSuffixOf (t.text.toList.dropWhile (· == '*'))
  | names => names.any (·.text == field)

/-- The declaration of a field in a struct type. -/
def fieldDeclaration? (struct : Node) (field : String) : Option Node := do
  if struct.kind ≠ .structType then none
  let list ← struct.parts.find? (·.kind == .fieldDeclarationList)
  list.parts.find? fun d => d.kind == .fieldDeclaration && declaresField field d

/-- The type of a field of a declared struct type. -/
def fieldType (type field : String) : InferM (Option GoType) :=
  match (ctx.declarations.type? type).bind fun d => fieldDeclaration? d.target field with
  | some decl => resolveChild ctx decl .type
  | none => return none

/-- The signature of a declared method of a type. -/
def methodType (type method : String) : InferM (Option GoType) :=
  match ctx.declarations.method? type method with
  | some m => resolving (FileContext.signatureOf ctx.resolve m.shape).run
  | none => return none

/-- The declared type that a type is, or is a pointer to. -/
def declaredName? (t : GoType) : Option String :=
  match t with
  | .named path name _ _ | .pointer (.named path name _ _) =>
    if path = ctx.package ∧ (ctx.declarations.type? name).isSome then some name else none
  | _ => none

/-- The type of a member of a value: a method of its type, or a field. -/
def memberType (t : GoType) (member : String) : InferM (Option GoType) := do
  if member = "Error" ∧ t.implementsError then
    return some (.signature [] [.basic .string])
  match declaredName? ctx t with
  | none => return none
  | some name =>
    match ← methodType ctx name member with
    | some m => return some m
    | none => fieldType ctx name member

def evalSelector (n : Node) : InferM (Option Typed) := do
  match n.child? .operand, n.child? .field with
  | some x, some field =>
    match packagePath? ctx (← get) x with
    | some path => return (Packages.member? path field.text).map ofType
    | none =>
      match ← w.eval x with
      | none => return none
      | some t => return (← memberType ctx t.type field.text).map ofType
  | _, _ => return none

/-! ## Calls -/

/-- The arguments of a call; a spread argument without its dots. -/
def callArguments (n : Node) : List Node :=
  ((n.child? .arguments).map Node.parts).getD [] |>.map fun a =>
    if a.kind = .variadicArgument then a.firstNamed?.getD a else a

/-- The type of the first argument, which is a type itself. -/
def typeArgument (args : List Node) : InferM (Option GoType) :=
  match args with
  | [] => return none
  | a :: _ => typeOfExpression ctx a

/-- The result type of a builtin function. -/
def builtinType (name : String) (args : List Node) (types : List (Option Typed)) :
    InferM (Option GoType) :=
  match name with
  | "len" | "cap" | "copy" => return some (.basic .int)
  | "new" => return (← typeArgument ctx args).map .pointer
  | "make" => typeArgument ctx args
  | "append" => return types.head?.bind fun t => t.map (·.type)
  | "min" | "max" => return commonType? types
  | "recover" => return some Packages.any
  | _ => return none

def evalCall (n : Node) : InferM (Option Typed) := do
  let args := callArguments n
  let callee ← w.evalChild n .function
  let types ← args.mapM fun a => if a.kind.isType then return none else w.eval a
  match n.child? .function, callee with
  | none, _ => return none
  | some f, none =>
    match ← typeOfExpression ctx f with
    | some t => return some (convert t (types.headD none))
    | none => return none
  | some _, some c =>
    match c.type with
    | .builtin name => return (← builtinType ctx name args types).map ofType
    | .signature _ results => return callResult results
    | _ => return none

/-! ## The other expressions -/

def evalIndex (n : Node) : InferM (Option Typed) := do
  let x ← w.evalChild n .operand
  (n.child? .index).forM w.visit
  return (x.bind (elementType? ·.type)).map ofType

def evalSlice (n : Node) : InferM (Option Typed) := do
  let x ← w.evalChild n .operand
  [Field.start, .stop, .capacity].forM fun f => discard (w.evalChild n f)
  return (x.bind (·.type.default?)).map ofType

def evalConversion (n : Node) : InferM (Option Typed) := do
  let x ← w.evalChild n .operand
  return (← resolveChild ctx n .type).map (convert · x)

def evalTypeAssertion (n : Node) : InferM (Option Typed) := do
  discard (w.evalChild n .operand)
  return (← resolveChild ctx n .type).map ofType

def evalComposite (n : Node) : InferM (Option Typed) := do
  (n.child? .body).forM w.visitParts
  match n.child? .type with
  | some t => return (← typeOfExpression ctx t).map ofType
  | none => return none

/-- A function literal: its signature, once its body has been walked. -/
def evalFunction (n : Node) : InferM (Option Typed) := do
  let t ← resolving (FileContext.signatureOf ctx.resolve (.ofNode n)).run
  inBlock do
    bindSignature ctx n
    (n.child? .body).forM w.visitParts
  return t.map ofType

/-- The type and value of an expression. -/
def evalStep (n : Node) : InferM (Option Typed) :=
  match n.kind with
  | .identifier | .nilLiteral | .trueLiteral | .falseLiteral | .iotaLiteral =>
    resolveName ctx n.text
  | .intLiteral | .floatLiteral | .imaginaryLiteral | .runeLiteral
  | .interpretedStringLiteral | .rawStringLiteral => return literal? n
  | .parenthesizedExpression =>
    match n.firstNamed? with
    | some x => w.eval x
    | none => return none
  | .unaryExpression => evalUnary w n
  | .binaryExpression => evalBinary w n
  | .callExpression => evalCall ctx w n
  | .selectorExpression => evalSelector ctx w n
  | .indexExpression => evalIndex w n
  | .sliceExpression => evalSlice w n
  | .typeAssertionExpression => evalTypeAssertion ctx w n
  | .typeConversionExpression => evalConversion ctx w n
  | .compositeLiteral => evalComposite ctx w n
  | .funcLiteral => evalFunction ctx w n
  | _ => do
    w.visitParts n
    return none

end

end Inference

end GomegaLint
