import Mathlib
import GomegaLint.Proofs.Inference.Copies
import GomegaLint.Proofs.Inference.QueryOrder

/-!
# Two walks side by side

A step of inference is put together from a few others: it binds a name or enters a type, resolves
a type, opens a block, evaluates with the recording switched, or numbers the constants of a group.
`Inference.TwinLaw` lists what there is to show of these for two walks side by side, the one into a
tree and the other into a copy of it.  There is one lemma for each step, and `TwinLaw.ofDepth` ties
the knot between expressions and statements by induction on the levels of the tree.

Within a group the counter of constants changes, so a law has two sides: a relation of steps, and a
looser one for the steps inside a group.  The recording of types changes too, and which nodes may be
walked can depend on whether it is on.
-/

namespace GomegaLint

namespace Inference

/-- Number the constants of a group, which may be within another. -/
def inGroup (m : InferM Unit) : InferM Unit := do
  let saved := (← get).iota
  modify ({ · with iota := none })
  m
  modify ({ · with iota := saved })

/-- The statements with a block of their own. -/
def opensBlock : Kind → Bool
  | .block | .ifStatement | .forStatement | .expressionSwitchStatement | .typeSwitchStatement
  | .selectStatement | .expressionCase | .defaultCase | .communicationCase
  | .functionDeclaration | .methodDeclaration => true
  | _ => false

/-! ## Steps one behind the other -/

/-- A property of steps that is kept when they are put one behind the other. -/
structure Composes (P : (α : Type) → InferM α → Prop) : Prop where
  pure : ∀ {α : Type} (a : α), P α (Pure.pure a)
  bind : ∀ {α β : Type} {m : InferM α} {f : α → InferM β}, P α m → (∀ a, P β (f a)) →
    P β (m >>= f)

namespace Composes

variable {P : (α : Type) → InferM α → Prop} {α β : Type} (law : Composes P)

include law

theorem congruent : Congruent fun α m _ => P α m := ⟨law.pure, law.bind⟩

theorem forM {xs : List α} {f : α → InferM Unit} (each : ∀ x ∈ xs, P Unit (f x)) :
    P Unit (xs.forM f) :=
  @Congruent.forM _ _ _ _ law.congruent xs f f each

theorem optionForM {x : Option α} {f : α → InferM Unit} (each : ∀ a, P Unit (f a)) :
    P Unit (x.forM f) :=
  @Congruent.optionForM _ _ _ _ law.congruent x f f fun a _ => each a

/-- A step that may fail, and one behind it. -/
theorem orNone {m : OptionT InferM α} {f : α → OptionT InferM β} (first : P (Option α) m.run)
    (second : ∀ a, P (Option β) (f a).run) : P (Option β) (m >>= f).run :=
  @Congruent.orNone _ _ _ _ _ law.congruent m m f f first second

theorem getM (x : Option α) : P (Option α) (x.getM : OptionT InferM α).run := by
  cases x with
  | none => exact law.pure none
  | some a => exact law.pure (some a)

end Composes

/-- The state without the types that were found. -/
def State.bare (s : State) : State := { s with recording := true, table := {} }

/-! ## Names and types -/

/-- What there is to show of steps that walk into no node. -/
structure PlainLaw (ctx : FileContext) (P : (α : Type) → InferM α → Prop) : Prop
    extends Composes P where
  read : ∀ {α : Type} {k : State → InferM α}, (∀ s, P α (k s)) → (∀ s, k s.bare = k s) →
    P α (get >>= k)
  bindName : ∀ name t, P Unit (modify (·.bind name t))
  overflow : P Unit (modify fun s => { s with overflow := true })
  resolving : ∀ {α : Type} {m : TypeM α},
    (∀ base, Preserved (ctx.AtRest base) α m m) → P α (resolving m)
  functionSignature : ∀ {name f}, ctx.declarations.function? name = some f →
    P (Option GoType) (functionSignature ctx f)

namespace PlainLaw

variable {ctx : FileContext} {P : (α : Type) → InferM α → Prop} (law : PlainLaw ctx P)

include law

theorem readOrNone {α : Type} {k : State → OptionT InferM α} (each : ∀ s, P _ (k s).run)
    (bare : ∀ s, (k s.bare).run = (k s).run) : P (Option α) (get >>= k).run := by
  have run : (get >>= k : OptionT InferM α).run = (get : InferM State) >>= fun s => (k s).run := rfl
  rw [run]
  exact law.read each bare

theorem bindNode (n : Node) (t : Option Typed) : P Unit (bindNode n t) := law.bindName n.text t

theorem resolve (n : Node) : P _ (Inference.resolving (ctx.resolve n)) :=
  law.resolving fun _ => FileContext.atRest_resolve n

theorem signatureOf (f : FunctionShape) :
    P _ (Inference.resolving (FileContext.signatureOf ctx.resolve f).run) :=
  law.resolving fun _ => (Preserved.congruent _).signatureOf fun c _ => FileContext.atRest_resolve c

theorem resolveName (name : String) : P _ (resolveName ctx name) := by
  refine law.read (fun s => ?_) fun _ => rfl
  split
  · exact law.pure _
  · split
    · rename_i declared
      exact law.bind (law.functionSignature declared) fun _ => law.pure _
    · exact law.pure _

theorem typeOfIdentifier (name : String) : P _ (typeOfIdentifier ctx name) := by
  refine law.read (fun s => ?_) fun _ => rfl
  split
  · exact law.pure _
  · refine law.resolving fun base => ?_
    rw [FileContext.typeOfName, FileContext.namedType_resolveIn]
    exact (Preserved.congruent _).bind (FileContext.atRest_named name) fun _ =>
      (Preserved.congruent _).pure _

theorem typeOfExpressionIn (levels : Nat) (n : Node) :
    P _ (typeOfExpressionIn ctx levels n).run := by
  induction levels generalizing n with
  | zero => exact law.pure none
  | succ levels ih =>
      unfold Inference.typeOfExpressionIn
      split
      · exact law.typeOfIdentifier _
      · exact law.orNone (law.getM _) fun x => ih x
      · refine law.orNone (law.getM _) fun op => ?_
        split
        · refine law.orNone (law.pure none) fun _ => ?_
          exact law.orNone (law.getM _) fun x => law.orNone (ih x) fun _ => law.pure _
        · exact law.orNone (law.getM _) fun x => law.orNone (ih x) fun _ => law.pure _
      · refine law.orNone (law.getM _) fun operand => law.orNone (law.getM _) fun field => ?_
        refine law.readOrNone (fun s => ?_) fun _ => rfl
        exact law.orNone (law.getM _) fun _ => law.getM _
      · split
        · exact law.resolve _
        · exact law.pure none

theorem typeOfExpression (n : Node) : P _ (typeOfExpression ctx n) := law.typeOfExpressionIn _ n

theorem resolveChild (n : Node) (f : Field) : P _ (resolveChild ctx n f) := by
  unfold Inference.resolveChild
  split
  · exact law.resolve _
  · exact law.pure _

theorem bindParameters (list : Node) : P _ (bindParameters ctx list) := by
  unfold Inference.bindParameters
  rw [FileContext.filterMap_parameter?]
  refine law.forM fun p member => ?_
  obtain ⟨n, _, rfl⟩ := List.mem_map.mp member
  refine law.bind (law.resolving fun base => ?_) fun _ => law.forM fun _ _ => law.bindNode _ _
  exact (Preserved.congruent _).parameterType fun c _ => FileContext.atRest_resolve c

theorem bindSignature (n : Node) : P _ (bindSignature ctx n) := by
  refine law.bind (law.optionForM law.bindParameters) fun _ =>
    law.bind (law.optionForM law.bindParameters) fun _ => law.optionForM fun r => ?_
  split
  · exact law.bindParameters r
  · exact law.pure ()

theorem arithmetic (op : BinaryOp) (x : Typed) (y : Option Typed) :
    P _ (arithmetic op x y) := by
  unfold Inference.arithmetic
  split
  · exact law.pure _
  · exact law.pure _
  · exact law.bind law.overflow fun _ => law.pure _

theorem fieldType (type field : String) : P _ (fieldType ctx type field) := by
  unfold Inference.fieldType
  split
  · exact law.resolveChild _ _
  · exact law.pure none

theorem methodType (type method : String) : P _ (methodType ctx type method) := by
  unfold Inference.methodType
  split
  · exact law.signatureOf _
  · exact law.pure none

theorem memberType (t : GoType) (member : String) : P _ (memberType ctx t member) := by
  unfold Inference.memberType
  split
  · exact law.pure _
  · split
    · exact law.pure none
    · refine law.bind (law.methodType _ _) fun m => ?_
      split
      · exact law.pure _
      · exact law.fieldType _ _

theorem typeArgument (args : List Node) : P _ (typeArgument ctx args) := by
  unfold Inference.typeArgument
  split
  · exact law.pure none
  · exact law.typeOfExpression _

theorem builtinType (name : String) (args : List Node) (types : List (Option Typed)) :
    P _ (builtinType ctx name args types) := by
  unfold Inference.builtinType
  split
  case h_4 => exact law.bind (law.typeArgument _) fun _ => law.pure _
  case h_5 => exact law.typeArgument _
  all_goals exact law.pure _

end PlainLaw

/-! ## Expressions -/

/-- A property of nodes, with the recording on or off, that they hand on to their parts.  The values
of a constant specification are evaluated with the recording on. -/
structure Hereditary (good : Bool → Node → Prop) : Prop where
  child : ∀ {b n c}, good b n → c ∈ n.children → good b c
  values : ∀ {b n}, good b n → n.kind = .constSpec → ∀ v ∈ listedAs n .value, good true v
  off : ∀ {n}, good true n → good false n

namespace Hereditary

variable {good : Bool → Node → Prop} (nodes : Hereditary good) {b : Bool} {n c : Node}
  (ok : good b n)

include nodes ok

theorem part (member : c ∈ n.parts) : good b c :=
  nodes.child ok (Node.mem_children_of_mem_parts member)

theorem first (isFirst : n.firstNamed? = some c) : good b c :=
  nodes.child ok (Node.mem_children_of_firstNamed? isFirst)

theorem inRole {role : Field} (isChild : n.child? role = some c) : good b c :=
  nodes.child ok (Node.mem_children_of_child? isChild)

theorem named {role : Field} (member : c ∈ n.childrenAs role) : good b c :=
  nodes.child ok (List.mem_of_mem_filter member)

theorem listed (member : c ∈ n.listed) : good b c := by
  unfold Node.listed at member
  split at member
  · exact nodes.part ok member
  · exact List.mem_singleton.mp member ▸ ok

theorem listedAs {role : Field} (member : c ∈ listedAs n role) : good b c := by
  unfold Inference.listedAs at member
  cases child : n.child? role with
  | none => simp [child] at member
  | some list =>
      rw [child] at member
      exact nodes.listed (nodes.inRole ok child) member

theorem argument (member : c ∈ callArguments n) : good b c := by
  unfold callArguments at member
  obtain ⟨a, inList, rfl⟩ := List.mem_map.mp member
  cases child : n.child? .arguments with
  | none => simp [child] at inList
  | some list =>
      rw [child] at inList
      have okArgument := nodes.part (nodes.inRole ok child) inList
      split
      · cases first : a.firstNamed? with
        | none => exact okArgument
        | some x => exact nodes.first okArgument first
      · exact okArgument

end Hereditary

/-- What there is to show of the parts that steps are made of, in two walks side by side. -/
structure TwinLaw (ctx : FileContext) (f : Relabelling) (good : Bool → Node → Prop)
    (P L : Bool → (α : Type) → InferM α → InferM α → Prop) : Prop where
  nodes : Hereditary good
  tight : ∀ {b}, Congruent (P b)
  loose : ∀ {b}, Congruent (L b)
  loosen : ∀ {b} {α : Type} {m m' : InferM α}, P b α m m' → L b α m m'
  read : ∀ {b} {α : Type} {k k' : State → InferM α}, (∀ s, P b α (k s) (k' s)) →
    (∀ s, k' s.bare = k' s) → P b α (get >>= k) (get >>= k')
  bindName : ∀ {b} name t, P b Unit (modify (·.bind name t)) (modify (·.bind name t))
  recordNode : ∀ {b n}, good b n → ∀ t, P b Unit (recordNode n t) (recordNode (n.relabel f) t)
  overflow : ∀ {b}, P b Unit (modify fun s => { s with overflow := true })
    (modify fun s => { s with overflow := true })
  resolving : ∀ {b} {α : Type} {m : TypeM α}, (∀ base, Preserved (ctx.AtRest base) α m m) →
    P b α (resolving m) (resolving m)
  functionSignature : ∀ {b name g}, ctx.declarations.function? name = some g →
    P b (Option GoType) (functionSignature ctx g) (functionSignature ctx g)
  inBlock : ∀ {b} {α : Type} {m m' : InferM α}, P b α m m' → P b α (inBlock m) (inBlock m')
  withRecording : ∀ {b} {α : Type} {m m' : InferM α} (on : Bool), P on α m m' →
    P b α (withRecording on m) (withRecording on m')
  counting : ∀ {b} iota, L b Unit (modify ({ · with iota := iota }))
    (modify ({ · with iota := iota }))
  inGroup : ∀ {b} {m m' : InferM Unit}, L b Unit m m' → P b Unit (inGroup m) (inGroup m')

/-- Two walkers go together on good nodes. -/
structure Walker.Twins (w w' : Walker) (good : Bool → Node → Prop)
    (P : Bool → (α : Type) → InferM α → InferM α → Prop) : Prop where
  eval : ∀ {b n}, good b n → P b _ (w.eval n) (w'.eval n)
  exec : ∀ {b n}, good b n → P b _ (w.exec n) (w'.exec n)

namespace TwinLaw

variable {ctx : FileContext} {f : Relabelling} {good : Bool → Node → Prop}
  {P L : Bool → (α : Type) → InferM α → InferM α → Prop} (law : TwinLaw ctx f good P L)
  {w w' : Walker} {b : Bool} {n : Node}

include law

/-- A step that walks into no node goes together with itself. -/
theorem plain : PlainLaw ctx fun α m => P b α m m where
  pure := law.tight.pure
  bind := law.tight.bind
  read each := law.read each
  bindName := law.bindName
  overflow := law.overflow
  resolving := law.resolving
  functionSignature := law.functionSignature

theorem declare (ok : good b n) (t : Option Typed) :
    P b _ (declare n t) (declare (n.relabel f) t) := by
  refine law.tight.bind (law.recordNode ok t) fun _ => ?_
  rw [bindNode_relabel]
  exact law.plain.bindNode n t

variable (walks : w.Twins w' good P) (ok : good b n)

include walks ok

theorem visit : P b _ (w.visit n) (w'.visit n) := by
  unfold Walker.visit
  split
  · exact walks.exec ok
  · split
    · exact law.tight.pure ()
    · exact law.tight.discard (walks.eval ok)

theorem visitParts : P b _ (w.visitParts n) (w'.visitParts n) :=
  law.tight.forM fun _ member => law.visit walks (law.nodes.part ok member)

theorem evalChild (role : Field) : P b _ (w.evalChild n role) (w'.evalChild n role) := by
  unfold Walker.evalChild
  split
  · rename_i child
    exact walks.eval (law.nodes.inRole ok child)
  · exact law.tight.pure none

theorem evalUnary : P b _ (evalUnary w n) (evalUnary w' n) := by
  unfold Inference.evalUnary
  split
  · rename_i operand _
    exact law.tight.bind (walks.eval (law.nodes.inRole ok operand)) fun _ => law.tight.pure _
  · exact law.tight.pure none

theorem evalBinary : P b _ (evalBinary w n) (evalBinary w' n) := by
  refine law.tight.bind (law.evalChild walks ok .left) fun x =>
    law.tight.bind (law.evalChild walks ok .right) fun y => ?_
  split
  · exact law.tight.pure none
  · split
    · exact law.tight.pure _
    · split
      · exact law.tight.pure none
      · exact law.tight.bind (law.plain.arithmetic _ _ _) fun _ => law.tight.pure _

theorem evalSelector : P b _ (evalSelector ctx w n) (evalSelector ctx w' n) := by
  unfold Inference.evalSelector
  split
  · rename_i operand _
    refine law.read (fun s => ?_) fun _ => rfl
    split
    · exact law.tight.pure _
    · refine law.tight.bind (walks.eval (law.nodes.inRole ok operand)) fun t => ?_
      split
      · exact law.tight.pure none
      · exact law.tight.bind (law.plain.memberType _ _) fun _ => law.tight.pure _
  · exact law.tight.pure none

theorem evalCall : P b _ (evalCall ctx w n) (evalCall ctx w' n) := by
  refine law.tight.bind (law.evalChild walks ok .function) fun callee =>
    law.tight.bind (law.tight.mapM fun a member => ?_) fun types => ?_
  · split
    · exact law.tight.pure none
    · exact walks.eval (law.nodes.argument ok member)
  · split
    · exact law.tight.pure none
    · refine law.tight.bind (law.plain.typeOfExpression _) fun t => ?_
      split
      · exact law.tight.pure _
      · exact law.tight.pure none
    · split
      · exact law.tight.bind (law.plain.builtinType _ _ _) fun _ => law.tight.pure _
      · exact law.tight.pure _
      · exact law.tight.pure none

theorem evalIndex : P b _ (evalIndex w n) (evalIndex w' n) :=
  law.tight.bind (law.evalChild walks ok .operand) fun _ =>
    law.tight.bind (law.tight.optionForM fun _ child => law.visit walks (law.nodes.inRole ok child))
      fun _ => law.tight.pure _

theorem evalSlice : P b _ (evalSlice w n) (evalSlice w' n) :=
  law.tight.bind (law.evalChild walks ok .operand) fun _ =>
    law.tight.bind (law.tight.forM fun role _ => law.tight.discard (law.evalChild walks ok role))
      fun _ => law.tight.pure _

theorem evalConversion : P b _ (evalConversion ctx w n) (evalConversion ctx w' n) :=
  law.tight.bind (law.evalChild walks ok .operand) fun _ =>
    law.tight.bind (law.plain.resolveChild n .type) fun _ => law.tight.pure _

theorem evalTypeAssertion : P b _ (evalTypeAssertion ctx w n) (evalTypeAssertion ctx w' n) :=
  law.tight.bind (law.tight.discard (law.evalChild walks ok .operand)) fun _ =>
    law.tight.bind (law.plain.resolveChild n .type) fun _ => law.tight.pure _

theorem evalComposite : P b _ (evalComposite ctx w n) (evalComposite ctx w' n) := by
  refine law.tight.bind (law.tight.optionForM fun _ child =>
    law.visitParts walks (law.nodes.inRole ok child)) fun _ => ?_
  split
  · exact law.tight.bind (law.plain.typeOfExpression _) fun _ => law.tight.pure _
  · exact law.tight.pure none

/-- The parameters and the body of a function, in a block of their own. -/
theorem functionBody : P b _
    (do
      bindSignature ctx n
      (n.child? .body).forM w.visitParts)
    (do
      bindSignature ctx n
      (n.child? .body).forM w'.visitParts) :=
  law.tight.bind (law.plain.bindSignature n) fun _ => law.tight.optionForM fun _ child =>
    law.visitParts walks (law.nodes.inRole ok child)

theorem evalFunction : P b _ (evalFunction ctx w n) (evalFunction ctx w' n) :=
  law.tight.bind (law.plain.signatureOf _) fun _ =>
    law.tight.bind (law.inBlock (law.functionBody walks ok)) fun _ => law.tight.pure _

theorem evalStep : P b _ (evalStep ctx w n) (evalStep ctx w' n) := by
  unfold Inference.evalStep
  split
  case h_1 | h_2 | h_3 | h_4 | h_5 => exact law.plain.resolveName _
  case h_6 | h_7 | h_8 | h_9 | h_10 | h_11 => exact law.tight.pure _
  case h_12 =>
    split
    · rename_i first
      exact walks.eval (law.nodes.first ok first)
    · exact law.tight.pure none
  · exact law.evalUnary walks ok
  · exact law.evalBinary walks ok
  · exact law.evalCall walks ok
  · exact law.evalSelector walks ok
  · exact law.evalIndex walks ok
  · exact law.evalSlice walks ok
  · exact law.evalTypeAssertion walks ok
  · exact law.evalConversion walks ok
  · exact law.evalComposite walks ok
  · exact law.evalFunction walks ok
  · exact law.tight.bind (law.visitParts walks ok) fun _ => law.tight.pure none

end TwinLaw

/-! ## Declarations -/

/-- Declare the names of a row, each by what its place is given. -/
def declareInTurn (given : Nat → Option Typed) (row : List Node) : InferM Unit :=
  row.zipIdx.forM fun (name, i) => declare name (given i)

/-- What a variable specification finds before it declares its names: its type, and the
types of its values. -/
def varTypes (ctx : FileContext) (w : Walker) (spec : Node) :
    InferM (Option GoType × List (Option Typed)) := do
  let declared ← resolveChild ctx spec .type
  let types ← (listedAs spec .value).mapM w.eval
  return (declared, types)

/-- What the name at a place of a variable specification gets. -/
def varGiven (spec : Node) (declared : Option GoType) (types : List (Option Typed)) (i : Nat) :
    Option Typed :=
  match declared with
  | some t => some (ofType t)
  | none => variableType
    ((spreadValues (listedAs spec .value) types (spec.childrenAs .name).length)[i]?.join)

theorem execVarSpec_eq (ctx : FileContext) (w : Walker) (spec : Node) :
    execVarSpec ctx w spec = varTypes ctx w spec >>= fun r =>
      declareInTurn (varGiven spec r.1 r.2) (spec.childrenAs .name) :=
  rfl

/-- The type and the values that a constant specification has or repeats. -/
def constShape (spec : Node) (previous : Option ConstShape) : ConstShape :=
  ((ConstShape.ofSpec? spec).or previous).getD ⟨spec.child? .type, []⟩

/-- What a constant specification finds before it declares its names: its type, and what is
known of its values. -/
def constTypes (ctx : FileContext) (w : Walker) (spec : Node) (iota : Nat)
    (previous : Option ConstShape) : InferM (Option GoType × List (Option Typed)) := do
  modify ({ · with iota := some (iota : Int) })
  let declared ← match (constShape spec previous).type with
    | some t => resolving (ctx.resolve t)
    | none => pure none
  let types ← withRecording ((ConstShape.ofSpec? spec).isSome || previous.isNone)
    ((constShape spec previous).values.mapM w.eval)
  return (declared, types)

/-- What the name at a place of a constant specification gets. -/
def constGiven (declared : Option GoType) (types : List (Option Typed)) (i : Nat) : Option Typed :=
  (types[i]?.join).map (constType declared)

theorem execConstSpec_eq (ctx : FileContext) (w : Walker) (spec : Node) (iota : Nat)
    (previous : Option ConstShape) :
    execConstSpec ctx w spec iota previous = constTypes ctx w spec iota previous >>= fun r =>
      declareInTurn (constGiven r.1 r.2) (spec.childrenAs .name) >>= fun _ =>
        modify ({ · with iota := none }) := by
  unfold execConstSpec constTypes constShape
  dsimp only
  cases (((ConstShape.ofSpec? spec).or previous).getD ⟨spec.child? .type, []⟩).type <;> rfl

theorem ConstShape.values_ofSpec? {spec : Node} {shape : ConstShape}
    (own : ofSpec? spec = some shape) : shape.values = listedAs spec .value := by
  obtain ⟨v, child, rfl⟩ := Option.map_eq_some_iff.mp own
  rw [listedAs, child]
  rfl

section

variable (f : Relabelling) (ctx : FileContext) (w : Walker) (spec : Node)

/-- The copy of the type and the values of a specification. -/
def ConstShape.relabel (shape : ConstShape) : ConstShape :=
  ⟨shape.type.map (Node.relabel f), shape.values.map (Node.relabel f)⟩

theorem ConstShape.ofSpec?_relabel :
    ofSpec? (spec.relabel f) = (ofSpec? spec).map (ConstShape.relabel f) := by
  rw [ofSpec?, ofSpec?, Node.child?_relabel, Node.child?_relabel]
  cases spec.child? .value <;> simp [ConstShape.relabel]

theorem declareInTurn_relabel (given : Nat → Option Typed) (row : List Node) :
    declareInTurn given (row.map (Node.relabel f)) =
      row.zipIdx.forM fun (name, i) => declare (name.relabel f) (given i) := by
  rw [declareInTurn, List.zipIdx_map, forM_map]
  rfl

theorem varTypes_relabel : varTypes ctx w (spec.relabel f) = varTypes ctx (w.on f) spec := by
  rw [varTypes, varTypes, resolveChild_relabel, listedAs_relabel, List.mapM_map]
  rfl

theorem varGiven_relabel : varGiven (spec.relabel f) = varGiven spec := by
  funext declared types i
  simp only [varGiven, listedAs_relabel, spreadValues_relabel, Node.childrenAs_relabel,
    List.length_map]

theorem constShape_relabel (previous : Option ConstShape) :
    constShape (spec.relabel f) (previous.map (ConstShape.relabel f)) =
      (constShape spec previous).relabel f := by
  rw [constShape, constShape, ConstShape.ofSpec?_relabel, Node.child?_relabel]
  cases ConstShape.ofSpec? spec <;> cases previous <;> rfl

theorem constTypes_relabel (iota : Nat) (previous : Option ConstShape) :
    constTypes ctx w (spec.relabel f) iota (previous.map (ConstShape.relabel f)) =
      constTypes ctx (w.on f) spec iota previous := by
  rw [constTypes, constTypes, constShape_relabel, ConstShape.ofSpec?_relabel, Option.isSome_map,
    Option.isNone_map]
  simp only [ConstShape.relabel, List.mapM_map]
  cases (constShape spec previous).type with
  | none => rfl
  | some t => simp only [Option.map_some, FileContext.resolve_relabel]; rfl

end

namespace TwinLaw

variable {ctx : FileContext} {f : Relabelling} {good : Bool → Node → Prop}
  {P L : Bool → (α : Type) → InferM α → InferM α → Prop} (law : TwinLaw ctx f good P L)
  {w w' : Walker} {b : Bool} {n : Node}

include law

theorem declareInTurn (given : Nat → Option Typed) {row : List Node} (each : ∀ c ∈ row, good b c) :
    P b _ (declareInTurn given row) (declareInTurn given (row.map (Node.relabel f))) := by
  rw [declareInTurn_relabel]
  refine law.tight.forM fun x member => ?_
  exact law.declare (each x.1 (List.fst_mem_of_mem_zipIdx member)) _

section

variable (walks : w.Twins w' good P)

include walks

theorem varTypes (ok : good b n) : P b _ (varTypes ctx w n) (varTypes ctx w' n) :=
  law.tight.bind (law.plain.resolveChild n .type) fun _ =>
    law.tight.bind (law.tight.mapM fun _ member => walks.eval (law.nodes.listedAs ok member))
      fun _ => law.tight.pure _

theorem constTypes (iota : Nat) {previous : Option ConstShape}
    (own : ∀ v ∈ listedAs n .value, good true v)
    (earlier : ∀ shape ∈ previous, ∀ v ∈ shape.values, good false v) :
    L b _ (constTypes ctx w n iota previous) (constTypes ctx w' n iota previous) := by
  -- Own values are evaluated with the recording on, repeated ones with the recording off.
  have values : ∀ v ∈ (constShape n previous).values,
      good ((ConstShape.ofSpec? n).isSome || previous.isNone) v := by
    intro v member
    unfold constShape at member
    cases has : ConstShape.ofSpec? n with
    | some shape =>
        rw [has] at member
        exact own v (ConstShape.values_ofSpec? has ▸ member)
    | none =>
        rw [has] at member
        cases previous with
        | none => cases member
        | some shape => exact earlier shape rfl v member
  have behind (declared : Option GoType) : P b _
      (do
        let types ← Inference.withRecording ((ConstShape.ofSpec? n).isSome || previous.isNone)
          ((constShape n previous).values.mapM w.eval)
        return (declared, types))
      (do
        let types ← Inference.withRecording ((ConstShape.ofSpec? n).isSome || previous.isNone)
          ((constShape n previous).values.mapM w'.eval)
        return (declared, types)) :=
    law.tight.bind (law.withRecording _ (law.tight.mapM fun v member =>
      walks.eval (values v member))) fun _ => law.tight.pure _
  refine law.loose.bind (law.counting _) fun _ => law.loosen ?_
  dsimp only
  split
  · exact law.tight.bind (law.plain.resolve _) behind
  · exact law.tight.bind (law.tight.pure none) behind

end

variable (walks : w.Twins (w'.on f) good P) 

include walks

theorem execShortVar (ok : good b n) :
    P b _ (execShortVar w n) (execShortVar w' (n.relabel f)) := by
  have values : P b _ (evalAssigned w (listedAs n .right) (listedAs n .left).length)
      (evalAssigned (w'.on f) (listedAs n .right) (listedAs n .left).length) :=
    law.tight.bind (law.tight.mapM fun _ member => walks.eval (law.nodes.listedAs ok member))
      fun _ => law.tight.pure _
  simp only [Inference.execShortVar, listedAs_relabel, List.length_map, evalAssigned_relabel,
    List.zip_map_left, forM_map]
  refine law.tight.bind values fun types => law.tight.forM fun x member => ?_
  exact law.declare (law.nodes.listedAs ok (List.of_mem_zip member).1) _

theorem execVarSpec (ok : good b n) :
    P b _ (execVarSpec ctx w n) (execVarSpec ctx w' (n.relabel f)) := by
  rw [execVarSpec_eq, execVarSpec_eq, varTypes_relabel, varGiven_relabel, Node.childrenAs_relabel]
  exact law.tight.bind (law.varTypes walks ok) fun r =>
    law.declareInTurn _ fun c member => law.nodes.named ok member

theorem execConstSpec (ok : good b n) (iota : Nat) {previous : Option ConstShape}
    (own : ∀ v ∈ listedAs n .value, good true v)
    (earlier : ∀ shape ∈ previous, ∀ v ∈ shape.values, good false v) :
    L b _ (execConstSpec ctx w n iota previous)
      (execConstSpec ctx w' (n.relabel f) iota (previous.map (ConstShape.relabel f))) := by
  rw [execConstSpec_eq, execConstSpec_eq, constTypes_relabel, Node.childrenAs_relabel]
  exact law.loose.bind (law.constTypes walks iota own earlier) fun _ =>
    law.loose.bind (law.loosen (law.declareInTurn _ fun c member => law.nodes.named ok member))
      fun _ => law.counting _

theorem execSpecs {specs : List Node} (each : ∀ spec ∈ specs, good b spec) (iota : Nat)
    {previous : Option ConstShape}
    (earlier : ∀ shape ∈ previous, ∀ v ∈ shape.values, good false v) :
    L b _ (execSpecs ctx w iota previous specs)
      (execSpecs ctx w' iota (previous.map (ConstShape.relabel f))
        (specs.map (Node.relabel f))) := by
  induction specs generalizing iota previous with
  | nil => exact law.loose.pure ()
  | cons spec specs ih =>
      obtain ⟨ok, others⟩ := List.forall_mem_cons.mp each
      rw [List.map_cons]
      unfold Inference.execSpecs
      rw [Node.kind_relabel]
      split
      · exact law.loose.bind (law.loosen (law.execVarSpec walks ok)) fun _ => ih others _ earlier
      · rename_i kind
        have own := law.nodes.values ok kind
        refine law.loose.bind (law.execConstSpec walks ok iota own earlier) fun _ => ?_
        -- From here on the values may be repeated, with the recording off.
        rw [ConstShape.ofSpec?_relabel, ← Option.map_or]
        refine ih others _ fun shape member v value => ?_
        rcases Option.or_eq_some_iff.mp member with has | ⟨-, has⟩
        · exact law.nodes.off (own v (ConstShape.values_ofSpec? has ▸ value))
        · exact earlier shape has v value
      · exact ih others _ earlier

theorem execGroup (ok : good b n) : P b _ (execGroup ctx w n) (execGroup ctx w' (n.relabel f)) := by
  have specs : L b _ (Inference.execSpecs ctx w 0 none n.parts)
      (Inference.execSpecs ctx w' 0 none (n.relabel f).parts) := by
    rw [Node.parts_relabel]
    exact law.execSpecs walks (fun _ => law.nodes.part ok) 0 fun _ member => by cases member
  exact law.inGroup specs

/-! ## Statements -/

theorem execRange (ok : good b n) : P b _ (execRange w n) (execRange w' (n.relabel f)) := by
  simp only [Inference.execRange, evalChild_relabel, listedAs_relabel, List.zipIdx_map, forM_map,
    Node.hasToken_relabel]
  refine law.tight.bind (law.evalChild walks ok .right) fun t =>
    law.tight.forM fun x member => ?_
  have okName := law.nodes.listedAs ok (List.fst_mem_of_mem_zipIdx member)
  obtain ⟨name, i⟩ := x
  dsimp only [Prod.map]
  split
  · exact law.declare okName _
  · exact law.tight.discard (walks.eval okName)

theorem execForPart (ok : good b n) :
    P b _ (execForPart w n) (execForPart w' (n.relabel f)) := by
  simp only [Inference.execForPart, Node.kind_relabel, visitParts_relabel, visit_relabel]
  split
  · exact law.visitParts walks ok
  · exact law.execRange walks ok
  · exact walks.exec ok
  · exact law.visit walks ok

theorem execTypeCase (ok : good b n) (bound : Option String) (subject : Option Typed) :
    P b _ (execTypeCase ctx w bound subject n)
      (execTypeCase ctx (w'.on f) bound subject n) := by
  refine law.inBlock (law.tight.bind (law.tight.optionForM fun name _ => ?_) fun _ =>
    law.tight.forM fun _ member =>
      law.visit walks (law.nodes.part ok (List.mem_of_mem_filter member)))
  dsimp only
  split
  · exact law.tight.bind (law.plain.resolve _) fun _ =>
      law.tight.bind (law.tight.pure _) fun t => law.bindName name t
  · exact law.tight.bind (law.tight.pure _) fun t => law.bindName name t

theorem execReceive (ok : good b n) : P b _ (execReceive w n) (execReceive (w'.on f) n) := by
  refine law.tight.bind (law.evalChild walks ok .right) fun t =>
    law.tight.forM fun x member => ?_
  have okName := law.nodes.listedAs ok (List.fst_mem_of_mem_zipIdx member)
  obtain ⟨name, i⟩ := x
  dsimp only
  split
  · exact law.plain.bindNode _ _
  · exact law.tight.discard (walks.eval okName)

/-- A statement with a block of its own is a step in a block. -/
theorem exists_inBlock (ok : good b n) (opens : opensBlock n.kind = true) :
    ∃ m m', P b Unit m m' ∧ Inference.execStep ctx w n = Inference.inBlock m ∧
      Inference.execStep ctx w' (n.relabel f) = Inference.inBlock m' := by
  unfold Inference.execStep
  rw [Node.kind_relabel]
  cases kind : n.kind <;> simp only [kind, opensBlock, Bool.false_eq_true] at opens ⊢
  case functionDeclaration | methodDeclaration =>
    rw [execFunction_relabel]
    exact ⟨_, _, law.functionBody walks ok, rfl, rfl⟩
  case ifStatement =>
    rw [execIf_relabel]
    refine ⟨_, _, law.tight.bind (law.tight.optionForM fun _ child =>
      law.visit walks (law.nodes.inRole ok child)) fun _ => ?_, rfl, rfl⟩
    refine law.tight.bind (law.tight.discard (law.evalChild walks ok .condition)) fun _ => ?_
    have branch (role : Field) : P b _ ((n.child? role).forM w.exec)
        ((n.child? role).forM (w'.on f).exec) :=
      law.tight.optionForM fun _ child => walks.exec (law.nodes.inRole ok child)
    exact law.tight.bind (branch .consequence) fun _ => branch .alternative
  case forStatement =>
    simp only [Inference.execFor, Node.parts_relabel, forM_map]
    exact ⟨_, _, law.tight.forM fun _ member => law.execForPart walks (law.nodes.part ok member),
      rfl, rfl⟩
  case typeSwitchStatement =>
    rw [execTypeSwitch_relabel]
    refine ⟨_, _, law.tight.bind (law.tight.optionForM fun _ child =>
      law.visit walks (law.nodes.inRole ok child)) fun _ => ?_, rfl, rfl⟩
    refine law.tight.bind (law.evalChild walks ok .value) fun _ => law.tight.forM fun _ member => ?_
    exact law.execTypeCase walks (law.nodes.part ok (List.mem_of_mem_filter member)) _ _
  all_goals
    rw [visitParts_relabel]
    exact ⟨_, _, law.visitParts walks ok, rfl, rfl⟩

theorem execStep (ok : good b n) : P b _ (execStep ctx w n) (execStep ctx w' (n.relabel f)) := by
  by_cases opens : opensBlock n.kind = true
  · obtain ⟨m, m', inside, isBlock, isBlock'⟩ := law.exists_inBlock walks ok opens
    rw [isBlock, isBlock']
    exact law.inBlock inside
  · unfold Inference.execStep
    rw [Node.kind_relabel]
    unfold opensBlock at opens
    split <;> simp only [*, not_true_eq_false] at opens
    · exact law.execShortVar walks ok
    case h_4 | h_5 => exact law.execGroup walks ok
    · exact law.tight.pure ()
    · rw [execReceive_relabel]
      exact law.execReceive walks ok
    · rw [Node.parts_relabel, Node.filter_relabel f fun c => by rw [Node.kind_relabel], forM_map]
      simp only [visit_relabel]
      exact law.tight.forM fun _ member =>
        law.visit walks (law.nodes.part ok (List.mem_of_mem_filter member))
    · rw [visitParts_relabel]
      exact law.visitParts walks ok

omit walks in
/-- **What steps are made of tells how two walks go together, the one into a tree and the other into
a copy of it.** -/
theorem ofDepth (levels : Nat) :
    (Walker.ofDepth ctx levels).Twins ((Walker.ofDepth ctx levels).on f) good P := by
  induction levels with
  | zero => exact ⟨fun _ => law.tight.pure none, fun _ => law.tight.pure ()⟩
  | succ levels ih =>
      refine ⟨fun {b n} ok => ?_, fun ok => law.execStep ih ok⟩
      simp only [Walker.ofDepth, Walker.eval_on, evalStep_relabel]
      exact law.tight.bind (law.evalStep ih ok) fun t =>
        law.tight.bind (law.recordNode ok t) fun _ => law.tight.pure t

end TwinLaw

end Inference

end GomegaLint
