import GomegaLint.Inference.Eval

/-!
# Walking a file

Statements bind the names that they declare and open the blocks that they
contain.  `inferTypes` walks a file, first the variables and constants declared
at its top, then its functions, and gives the types of the expressions it met.
-/

namespace GomegaLint

namespace Inference

/-- The type of a variable that is given this value. -/
def variableType (x : Option Typed) : Option Typed := (x.bind (·.type.default?)).map ofType

/-- Enter and bind what a name stands for. -/
def declare (name : Node) (t : Option Typed) : InferM Unit := do
  recordNode name t
  bindNode name t

/-- Expressions that give a second value, which says whether the first is
there. -/
def givesPresence (n : Node) : Bool :=
  match n.kind with
  | .indexExpression | .typeAssertionExpression | .unaryExpression => true
  | _ => false

/-- What `count` names get from a single value: the items of a tuple, or a value
and its presence. -/
def spreadValue (value : Node) (t : Option Typed) (count : Nat) : List (Option Typed) :=
  match t.map Typed.type with
  | some (.tuple items) => items.map fun i => some (ofType i)
  | _ =>
    if givesPresence value ∧ count = 2 then [t, some (ofType (.basic .bool))]
    else List.replicate count none

/-- What `count` names get from values of these types. -/
def spreadValues (values : List Node) (types : List (Option Typed)) (count : Nat) :
    List (Option Typed) :=
  match values, types with
  | [v], [t] => if count > 1 then spreadValue v t count else types
  | _, _ => types

/-- The types of the two variables of a loop over a value of this type. -/
def rangeTypes (t : Option GoType) : Option GoType × Option GoType :=
  match t.map GoType.underlying with
  | some (.slice e) => (some (.basic .int), some e)
  | some (.map k v) => (some k, some v)
  | some (.chan e) => (some e, none)
  | some (.basic .string) => (some (.basic .int), some (.basic .int32))
  | some (.basic k) => if k.isNumeric then (some (.basic .int), none) else (none, none)
  | _ => (none, none)

/-- The expressions under the child in the role `f`. -/
def listedAs (n : Node) (f : Field) : List Node := ((n.child? f).map Node.listed).getD []

section

variable (ctx : FileContext) (w : Walker)

/-- What `count` names get from the values of expressions. -/
def evalAssigned (values : List Node) (count : Nat) : InferM (List (Option Typed)) := do
  let types ← values.mapM w.eval
  return spreadValues values types count

/-! ## Declarations -/

def execShortVar (n : Node) : InferM Unit := do
  let names := listedAs n .left
  let types ← evalAssigned w (listedAs n .right) names.length
  (names.zip types).forM fun (name, t) => declare name (variableType t)

/-- A variable specification: every name has the declared type, or each that of
its value. -/
def execVarSpec (spec : Node) : InferM Unit := do
  let names := spec.childrenAs .name
  let declared ← resolveChild ctx spec .type
  let types ← evalAssigned w (listedAs spec .value) names.length
  names.zipIdx.forM fun (name, i) =>
    declare name <|
      match declared with
      | some t => some (ofType t)
      | none => variableType (types[i]?.join)

/-- The type and the values of a constant specification. -/
structure ConstShape where
  type : Option Node := none
  values : List Node := []
  deriving Inhabited

/-- What a constant specification says itself, if it gives values. -/
def ConstShape.ofSpec? (spec : Node) : Option ConstShape :=
  (spec.child? .value).map fun v => ⟨spec.child? .type, v.listed⟩

/-- Evaluate with the recording of types on or off. -/
def withRecording {α : Type} (on : Bool) (m : InferM α) : InferM α := do
  let saved := (← get).recording
  modify ({ · with recording := on })
  let a ← m
  modify ({ · with recording := saved })
  return a

/-- The type of a constant: its value keeps, but a declared type wins. -/
def constType (declared : Option GoType) (t : Typed) : Typed :=
  match declared with
  | some d => ⟨d, t.value⟩
  | none => t

/-- A constant specification at its place in a group.  Without values of its own
it repeats the type and the values of the last one that has them; what is found
in those is not entered again. -/
def execConstSpec (spec : Node) (iota : Nat) (previous : Option ConstShape) : InferM Unit := do
  let own := ConstShape.ofSpec? spec
  let shape := (own.or previous).getD ⟨spec.child? .type, []⟩
  modify ({ · with iota := some (iota : Int) })
  let declared ← match shape.type with
    | some t => resolving (ctx.resolve t)
    | none => pure none
  let types ← withRecording (own.isSome || previous.isNone) (shape.values.mapM w.eval)
  (spec.childrenAs .name).zipIdx.forM fun (name, i) =>
    declare name ((types[i]?.join).map (constType declared))
  modify ({ · with iota := none })

/-- The specifications of a group from the `iota`-th on. -/
def execSpecs (iota : Nat) (previous : Option ConstShape) : List Node → InferM Unit
  | [] => return ()
  | spec :: specs =>
    match spec.kind with
    | .varSpec => do
      execVarSpec ctx w spec
      execSpecs iota previous specs
    | .constSpec => do
      execConstSpec ctx w spec iota previous
      execSpecs (iota + 1) ((ConstShape.ofSpec? spec).or previous) specs
    | _ => execSpecs iota previous specs

/-- A declaration of variables or constants. -/
def execGroup (n : Node) : InferM Unit := do
  let saved := (← get).iota
  modify ({ · with iota := none })
  execSpecs ctx w 0 none n.parts
  modify ({ · with iota := saved })

def execFunction (n : Node) : InferM Unit :=
  inBlock do
    bindSignature ctx n
    (n.child? .body).forM w.visitParts

/-! ## Branches and loops -/

def execIf (n : Node) : InferM Unit :=
  inBlock do
    (n.child? .initializer).forM w.visit
    discard (w.evalChild n .condition)
    (n.child? .consequence).forM w.exec
    (n.child? .alternative).forM w.exec

/-- The header of a loop over the elements of a value. -/
def execRange (n : Node) : InferM Unit := do
  let t ← w.evalChild n .right
  let (key, value) := rangeTypes (t.map (·.type))
  (listedAs n .left).zipIdx.forM fun (name, i) =>
    if n.hasToken ":=" then declare name ((if i = 0 then key else value).map ofType)
    else discard (w.eval name)

def execForPart (n : Node) : InferM Unit :=
  match n.kind with
  | .forClause => w.visitParts n
  | .rangeClause => execRange w n
  | .block => w.exec n
  | _ => w.visit n

def execFor (n : Node) : InferM Unit := inBlock (n.parts.forM (execForPart w))

/-- A clause of a type switch.  With a single type the name that the switch
declares has that type in it, else that of the subject. -/
def execTypeCase (bound : Option String) (subject : Option Typed) (n : Node) : InferM Unit :=
  inBlock do
    let types := n.childrenAs .type
    bound.forM fun name => do
      let t ← match types with
        | [t] => do pure ((← resolving (ctx.resolve t)).map ofType)
        | _ => pure subject
      modify (·.bind name t)
    (n.parts.filter fun c => !types.any (·.id == c.id)).forM w.visit

def execTypeSwitch (n : Node) : InferM Unit :=
  inBlock do
    (n.child? .initializer).forM w.visit
    let subject ← w.evalChild n .value
    let bound := (listedAs n .binding).head?.map Node.text
    (n.parts.filter fun c => c.kind == .typeCase || c.kind == .defaultCase).forM
      (execTypeCase ctx w bound subject)

/-- A receive in a clause of a select; it may declare the value and its
presence. -/
def execReceive (n : Node) : InferM Unit := do
  let t ← w.evalChild n .right
  (listedAs n .left).zipIdx.forM fun (name, i) =>
    if n.hasToken ":=" then bindNode name (if i = 0 then t else some (ofType (.basic .bool)))
    else discard (w.eval name)

/-- Walk a statement. -/
def execStep (n : Node) : InferM Unit :=
  match n.kind with
  | .functionDeclaration | .methodDeclaration => execFunction ctx w n
  | .shortVarDeclaration => execShortVar w n
  | .varDeclaration | .constDeclaration => execGroup ctx w n
  | .typeDeclaration => return ()
  | .ifStatement => execIf w n
  | .forStatement => execFor w n
  | .typeSwitchStatement => execTypeSwitch ctx w n
  | .block | .expressionSwitchStatement | .selectStatement | .expressionCase | .defaultCase
  | .communicationCase => inBlock (w.visitParts n)
  | .receiveStatement => execReceive w n
  | .labeledStatement => (n.parts.filter (·.kind != .labelName)).forM w.visit
  | _ => w.visitParts n

end

/-- The walk into the topmost `levels` levels of a tree. -/
def Walker.ofDepth (ctx : FileContext) : Nat → Walker
  | 0 => ⟨fun _ => return none, fun _ => return ()⟩
  | levels + 1 =>
    let w := Walker.ofDepth ctx levels
    { eval := fun n => do
        let t ← evalStep ctx w n
        recordNode n t
        return t
      exec := execStep ctx w }

/-- Walk the variables and constants at the top of a file, then its functions. -/
def walkFile (ctx : FileContext) (root : Node) : InferM Unit := do
  let w := Walker.ofDepth ctx root.depth
  (root.parts.filter fun n => n.kind == .varDeclaration || n.kind == .constDeclaration).forM w.exec
  (root.parts.filter fun n =>
    n.kind == .functionDeclaration || n.kind == .methodDeclaration).forM w.exec

end Inference

/-- The types of the expressions of a file, which reaches Gomega in the given
style.  There are none if some constant of the file cannot be computed. -/
def inferTypes (style : ImportStyle) (root : Node) : Option TypeTable :=
  let s := (Inference.walkFile (.ofFile style root) root {}).2
  if s.overflow then none else some s.table

end GomegaLint
