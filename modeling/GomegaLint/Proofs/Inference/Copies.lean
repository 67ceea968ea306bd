import Mathlib
import GomegaLint.Inference.Walk
import GomegaLint.Proofs.Syntax.Copies
import GomegaLint.Proofs.Inference.Resolution

/-!
# Inference on copies

Inference reads of a tree what its copies have too.  A type expression and its copy denote the same
type (`FileContext.resolve_relabel`).  A step of evaluation on a copy is the step on the tree itself
with a walk that goes into the copies of its parts (`Walker.on`), and so is each statement that
declares no name.
-/

namespace GomegaLint

variable (f : Relabelling)

/-! ## Types -/

/-- The kinds of nodes that are read as names. -/
def Kind.isName : Kind → Bool
  | .identifier | .fieldIdentifier | .packageIdentifier | .typeIdentifier
  | .nilLiteral | .trueLiteral | .falseLiteral | .iotaLiteral => true
  | _ => false

/-- Only names are read as names. -/
theorem Node.ident?_lowerStep (lower : Node → Expr) (n : Node) :
    (n.lowerStep lower).ident? = if n.kind.isName then some n.toIdent else none := by
  have otherwise (x : Option Expr) (noName : ∀ y ∈ x, y.ident? = none) :
      (x.getD n.toVerbatim).ident? = none := by
    cases x with
    | none => rfl
    | some y => exact noName y rfl
  unfold lowerStep
  split <;> rename_i kind
  case h_1 | h_2 | h_3 | h_4 | h_5 | h_6 | h_7 | h_8 => simp [kind, Kind.isName, Expr.ident?]
  case h_9 | h_10 =>
    rw [kind]
    refine otherwise _ fun y read => ?_
    simp only [lowerMember, Option.bind_eq_bind, Option.mem_def, Option.bind_eq_some_iff] at read
    obtain ⟨x, -, m, -, ⟨⟩⟩ := read
    rfl
  case h_11 | h_14 | h_15 =>
    rw [kind]
    refine otherwise _ fun y read => ?_
    obtain ⟨c, -, rfl⟩ := Option.map_eq_some_iff.mp read
    rfl
  case h_12 =>
    rw [kind]
    refine otherwise _ fun y read => ?_
    simp only [lowerBinary, Option.bind_eq_bind, Option.mem_def, Option.bind_eq_some_iff] at read
    obtain ⟨x, -, z, -, o, -, op, -, ⟨⟩⟩ := read
    rfl
  case h_13 =>
    rw [kind]
    refine otherwise _ fun y read => ?_
    simp only [lowerUnary, Option.bind_eq_bind, Option.mem_def, Option.bind_eq_some_iff] at read
    obtain ⟨x, -, o, -, read⟩ := read
    split at read
    · obtain rfl := Option.some.inj read
      rfl
    · obtain ⟨op, -, ⟨⟩⟩ := Option.bind_eq_some_iff.mp read
      rfl
  case h_16 | h_17 | h_18 | h_19 | h_20 | h_21 =>
    rw [kind]
    rfl
  case h_22 =>
    unfold Kind.isName
    split <;> first | contradiction | rfl

namespace FileContext

variable (ctx : FileContext) (resolve : Resolver) (n : Node)

theorem isBoundName_relabel (levels : Nat) :
    ctx.style.isBoundName ((n.relabel f).lowerTo levels) =
      ctx.style.isBoundName (n.lowerTo levels) := by
  have byName (x : Expr) :
      ctx.style.isBoundName x = (x.ident?).any fun i => ctx.style.boundName? == some i.name := by
    cases ctx.style with
    | dot => cases x <;> rfl
    | named bound =>
        cases x <;> simp [ImportStyle.isBoundName, ImportStyle.boundName?, Expr.ident?, eq_comm]
  rw [byName, byName]
  cases levels with
  | zero => rfl
  | succ levels =>
      simp only [Node.lowerTo, Node.ident?_lowerStep, Node.kind_relabel]
      split <;> simp [Node.toIdent]

theorem qualifiedType?_relabel (qualified : n.kind = .qualifiedType) :
    ctx.qualifiedType? (n.relabel f) = ctx.qualifiedType? n := by
  have sameName : ctx.style.typeName? (n.relabel f).toExpr = ctx.style.typeName? n.toExpr := by
    obtain ⟨levels, deep⟩ := Nat.exists_eq_add_one.mpr n.depth_pos
    simp only [Node.toExpr, Node.depth_relabel, deep, Node.lowerTo, Node.lowerStep,
      Node.kind_relabel, qualified, Node.lowerMember, Node.child?_relabel]
    cases n.child? .package with
    | none => rfl
    | some x =>
        cases n.child? .name with
        | none => rfl
        | some m => simp [ImportStyle.typeName?, isBoundName_relabel, Node.toIdent]
  rw [qualifiedType?, qualifiedType?, sameName]
  split
  · rfl
  · rw [Node.child?_relabel, Node.child?_relabel]
    cases n.child? .package <;> cases n.child? .name <;> simp

theorem resolvePart_relabel (role : Field) :
    resolvePart resolve (n.relabel f) role = resolvePart (resolve ∘ Node.relabel f) n role := by
  rw [resolvePart, resolvePart, Node.child?_relabel]
  cases n.child? role <;> rfl

theorem resolveFirst_relabel :
    resolveFirst resolve (n.relabel f) = resolveFirst (resolve ∘ Node.relabel f) n := by
  rw [resolveFirst, resolveFirst, Node.firstNamed?_relabel]
  cases n.firstNamed? <;> rfl

theorem parameter?_relabel :
    parameter? resolve (n.relabel f) =
      (parameter? (resolve ∘ Node.relabel f) n).map fun p => (p.1.map (Node.relabel f), p.2) := by
  rw [parameter?, parameter?, Node.kind_relabel, Node.childrenAs_relabel, resolvePart_relabel]
  split <;> rfl

theorem filterMap_parameter?_relabel :
    (n.relabel f).parts.filterMap (parameter? resolve) =
      (n.parts.filterMap (parameter? (resolve ∘ Node.relabel f))).map fun p =>
        (p.1.map (Node.relabel f), p.2) := by
  rw [Node.parts_relabel, List.filterMap_map, List.map_filterMap]
  exact congrArg (fun g => n.parts.filterMap g) (funext (parameter?_relabel f resolve))

theorem parameterTypes_relabel :
    parameterTypes resolve (n.relabel f) = parameterTypes (resolve ∘ Node.relabel f) n := by
  rw [parameterTypes, parameterTypes, filterMap_parameter?_relabel, List.mapM_map]
  simp only [Function.comp_def, List.length_map]

theorem resultTypes_relabel (result : Option Node) :
    resultTypes resolve (result.map (Node.relabel f)) =
      resultTypes (resolve ∘ Node.relabel f) result := by
  cases result with
  | none => rfl
  | some r =>
      rw [Option.map_some, resultTypes, resultTypes, Node.kind_relabel, parameterTypes_relabel]
      rfl

theorem signatureOf_relabel :
    signatureOf resolve (.ofNode (n.relabel f)) =
      signatureOf (resolve ∘ Node.relabel f) (.ofNode n) := by
  unfold signatureOf FunctionShape.ofNode
  simp only [Node.child?_relabel, resultTypes_relabel]
  cases n.child? .parameters with
  | none => rfl
  | some list => simp only [Option.map_some, parameterTypes_relabel]

theorem elementMethods_relabel :
    elementMethods resolve (n.relabel f) = elementMethods (resolve ∘ Node.relabel f) n := by
  rw [elementMethods, elementMethods, Node.kind_relabel, Node.child?_relabel, Option.map_map]
  simp [Function.comp_def]

theorem interfaceMethods_relabel :
    interfaceMethods resolve (n.relabel f) = interfaceMethods (resolve ∘ Node.relabel f) n := by
  rw [interfaceMethods, interfaceMethods, Node.parts_relabel, List.mapM_map]
  simp only [Function.comp_def, elementMethods_relabel]

/-- A copy is resolved by way of the copies of its parts. -/
theorem resolveStep_relabel (noName : n.isTypeName = false) :
    ctx.resolveStep resolve (n.relabel f) = ctx.resolveStep (resolve ∘ Node.relabel f) n := by
  unfold resolveStep
  rw [Node.kind_relabel]
  cases kind : n.kind <;> simp only [Node.isTypeName, kind] at noName ⊢
  case typeIdentifier | identifier => cases noName
  case qualifiedType => rw [ctx.qualifiedType?_relabel f n kind]
  case functionType => exact signatureOf_relabel f resolve n
  case interfaceType => rw [interfaceMethods_relabel]
  case pointerType | parenthesizedType | constraintElem => rw [resolveFirst_relabel]
  case sliceType | arrayType | implicitLengthArrayType | mapType | channelType =>
    simp only [resolvePart_relabel]

/-- **A type expression and its copies denote the same.** -/
theorem resolve_relabel : ctx.resolve (n.relabel f) = ctx.resolve n := by
  induction depth : n.depth using Nat.strong_induction_on generalizing n with
  | _ k ih =>
    have parts : ∀ c ∈ n.typeParts, (ctx.resolve ∘ Node.relabel f) c = ctx.resolve c :=
      fun c part => ih c.depth (depth ▸ Node.depth_typeParts part) c rfl
    have equal := Congruent.equality TypeM
    rw [resolve_eq, resolve_eq]
    cases name : n.isTypeName with
    | false =>
        rw [resolveStep_relabel f ctx ctx.resolve n name]
        exact equal.resolveStep parts fun isName => by simp [name] at isName
    | true =>
        simp only [Node.isTypeName, Bool.or_eq_true, beq_iff_eq] at name
        rcases name with kind | kind <;>
          simp only [resolveStep, Node.kind_relabel, kind, Node.text_relabel]

theorem resolve_comp_relabel : ctx.resolve ∘ Node.relabel f = ctx.resolve :=
  funext (ctx.resolve_relabel f)

end FileContext

namespace Inference

theorem forM_map {α β : Type} (xs : List α) (g : α → β) (step : β → InferM Unit) :
    (xs.map g).forM step = xs.forM fun x => step (g x) :=
  List.forM_map

section

variable (ctx : FileContext) (n : Node)

theorem packagePath?_relabel (s : State) :
    packagePath? ctx s (n.relabel f) = packagePath? ctx s n := by
  simp [packagePath?]

theorem typeOfExpressionIn_relabel (levels : Nat) :
    typeOfExpressionIn ctx levels (n.relabel f) = typeOfExpressionIn ctx levels n := by
  induction levels generalizing n with
  | zero => rfl
  | succ levels ih =>
      unfold typeOfExpressionIn
      simp only [Node.kind_relabel, Node.text_relabel, Node.firstNamed?_relabel,
        Node.child?_relabel, FileContext.resolve_relabel]
      cases n.firstNamed? <;> cases n.child? .operator <;> cases n.child? .operand <;>
        cases n.child? .field <;> simp [Option.getM, ih, packagePath?_relabel]

@[simp] theorem typeOfExpression_relabel :
    typeOfExpression ctx (n.relabel f) = typeOfExpression ctx n := by
  rw [typeOfExpression, typeOfExpression, Node.depth_relabel, typeOfExpressionIn_relabel]

@[simp] theorem resolveChild_relabel (role : Field) :
    resolveChild ctx (n.relabel f) role = resolveChild ctx n role := by
  rw [resolveChild, resolveChild, Node.child?_relabel]
  cases n.child? role with
  | none => rfl
  | some c => simp only [Option.map_some, FileContext.resolve_relabel]

@[simp] theorem bindNode_relabel (t : Option Typed) : bindNode (n.relabel f) t = bindNode n t := by
  rw [bindNode, bindNode, Node.text_relabel]

theorem bindParameters_relabel : bindParameters ctx (n.relabel f) = bindParameters ctx n := by
  rw [bindParameters, bindParameters, FileContext.filterMap_parameter?_relabel,
    ctx.resolve_comp_relabel f, forM_map]
  simp only [forM_map, bindNode_relabel]

@[simp] theorem bindSignature_relabel : bindSignature ctx (n.relabel f) = bindSignature ctx n := by
  simp only [bindSignature, Node.child?_relabel]
  cases n.child? .receiver <;> cases n.child? .parameters <;> cases n.child? .result <;>
    simp [bindParameters_relabel]

end

/-! ## Expressions -/

/-- The walk into the copies of nodes. -/
def Walker.on (w : Walker) (f : Relabelling) : Walker :=
  ⟨fun n => w.eval (n.relabel f), fun n => w.exec (n.relabel f)⟩

@[simp] theorem Walker.eval_on (w : Walker) (n : Node) :
    (w.on f).eval n = w.eval (n.relabel f) := rfl

@[simp] theorem Walker.exec_on (w : Walker) (n : Node) :
    (w.on f).exec n = w.exec (n.relabel f) := rfl

section

variable (ctx : FileContext) (w : Walker) (n : Node)

theorem visit_relabel : w.visit (n.relabel f) = (w.on f).visit n := by
  rw [Walker.visit, Walker.visit, Node.kind_relabel]
  rfl

theorem visitParts_relabel : w.visitParts (n.relabel f) = (w.on f).visitParts n := by
  rw [Walker.visitParts, Walker.visitParts, Node.parts_relabel, forM_map]
  simp only [visit_relabel]

theorem evalChild_relabel (role : Field) :
    w.evalChild (n.relabel f) role = (w.on f).evalChild n role := by
  rw [Walker.evalChild, Walker.evalChild, Node.child?_relabel]
  cases n.child? role <;> rfl

theorem literal?_relabel : literal? (n.relabel f) = literal? n := by
  simp [literal?]

theorem evalUnary_relabel : evalUnary w (n.relabel f) = evalUnary (w.on f) n := by
  simp only [evalUnary, Node.child?_relabel]
  cases n.child? .operand <;> cases n.child? .operator <;> simp

theorem evalBinary_relabel : evalBinary w (n.relabel f) = evalBinary (w.on f) n := by
  simp only [evalBinary, Node.child?_relabel, evalChild_relabel]
  cases n.child? .operator <;> simp

theorem evalSelector_relabel : evalSelector ctx w (n.relabel f) = evalSelector ctx (w.on f) n := by
  simp only [evalSelector, Node.child?_relabel]
  cases n.child? .operand <;> cases n.child? .field <;> simp [packagePath?_relabel]

theorem callArguments_relabel :
    callArguments (n.relabel f) = (callArguments n).map (Node.relabel f) := by
  simp only [callArguments, Node.child?_relabel]
  cases n.child? .arguments with
  | none => rfl
  | some list =>
      simp only [Option.map_some, Option.getD_some, Node.parts_relabel, List.map_map]
      refine List.map_congr_left fun a _ => ?_
      simp only [Function.comp_apply, Node.kind_relabel, Node.firstNamed?_relabel]
      split
      · cases a.firstNamed? <;> rfl
      · rfl

theorem builtinType_relabel (name : String) (args : List Node) (types : List (Option Typed)) :
    builtinType ctx name (args.map (Node.relabel f)) types = builtinType ctx name args types := by
  have typeArgument_relabel :
      typeArgument ctx (args.map (Node.relabel f)) = typeArgument ctx args := by
    cases args with
    | nil => rfl
    | cons a args => exact typeOfExpression_relabel f ctx a
  simp only [builtinType, typeArgument_relabel]

theorem evalCall_relabel : evalCall ctx w (n.relabel f) = evalCall ctx (w.on f) n := by
  simp only [evalCall, callArguments_relabel, evalChild_relabel, Node.child?_relabel, List.mapM_map,
    builtinType_relabel]
  cases n.child? .function with
  | none => simp [Function.comp_def]
  | some callee =>
      simp only [Option.map_some, Function.comp_def, Node.kind_relabel, Walker.eval_on]
      refine bind_congr fun c => bind_congr fun types => ?_
      cases c <;> simp

theorem evalIndex_relabel : evalIndex w (n.relabel f) = evalIndex (w.on f) n := by
  simp only [evalIndex, Node.child?_relabel, evalChild_relabel]
  cases n.child? .index <;> simp [visit_relabel]

theorem evalComposite_relabel :
    evalComposite ctx w (n.relabel f) = evalComposite ctx (w.on f) n := by
  simp only [evalComposite, Node.child?_relabel]
  cases n.child? .body <;> cases n.child? .type <;> simp [visitParts_relabel]

theorem functionBody_relabel :
    ((n.relabel f).child? .body).forM w.visitParts = (n.child? .body).forM (w.on f).visitParts := by
  rw [Node.child?_relabel]
  cases n.child? .body with
  | none => rfl
  | some body => exact visitParts_relabel f w body

theorem evalFunction_relabel : evalFunction ctx w (n.relabel f) = evalFunction ctx (w.on f) n := by
  simp only [evalFunction, FileContext.signatureOf_relabel, ctx.resolve_comp_relabel,
    bindSignature_relabel, functionBody_relabel]

/-- Evaluation of a copy goes into the copies of the parts. -/
theorem evalStep_relabel : evalStep ctx w (n.relabel f) = evalStep ctx (w.on f) n := by
  unfold evalStep
  simp only [Node.kind_relabel, Node.text_relabel, literal?_relabel, evalUnary_relabel,
    evalBinary_relabel, evalCall_relabel, evalSelector_relabel, evalIndex_relabel, evalSlice,
    evalTypeAssertion, evalConversion, evalComposite_relabel, evalFunction_relabel,
    visitParts_relabel, evalChild_relabel, resolveChild_relabel, Node.firstNamed?_relabel]
  cases n.firstNamed? <;> rfl

/-! ## Statements -/

@[simp] theorem listedAs_relabel (role : Field) :
    listedAs (n.relabel f) role = (listedAs n role).map (Node.relabel f) := by
  rw [listedAs, listedAs, Node.child?_relabel]
  cases n.child? role <;> simp

theorem givesPresence_relabel : givesPresence (n.relabel f) = givesPresence n := by
  rw [givesPresence, givesPresence, Node.kind_relabel]

theorem spreadValues_relabel (values : List Node) (types : List (Option Typed)) (count : Nat) :
    spreadValues (values.map (Node.relabel f)) types count = spreadValues values types count := by
  rcases values with _ | ⟨v, _ | ⟨v', values⟩⟩
  · rfl
  · rcases types with _ | ⟨t, _ | ⟨t', types⟩⟩
    · rfl
    · simp only [List.map_cons, List.map_nil, spreadValues, spreadValue, givesPresence_relabel]
    · rfl
  · rfl

theorem evalAssigned_relabel (values : List Node) (count : Nat) :
    evalAssigned w (values.map (Node.relabel f)) count = evalAssigned (w.on f) values count := by
  simp only [evalAssigned, spreadValues_relabel, List.mapM_map]
  rfl

theorem execFunction_relabel : execFunction ctx w (n.relabel f) = execFunction ctx (w.on f) n := by
  simp only [execFunction, bindSignature_relabel, functionBody_relabel]

theorem execIf_relabel : execIf w (n.relabel f) = execIf (w.on f) n := by
  simp only [execIf, Node.child?_relabel, evalChild_relabel]
  cases n.child? .initializer <;> cases n.child? .consequence <;> cases n.child? .alternative <;>
    simp [visit_relabel]

/-- The parts of a clause besides its types are told by their identities. -/
theorem others_relabel (types : List Node) (parts : List Node) :
    ((parts.map (Node.relabel f)).filter fun c =>
        !(types.map (Node.relabel f)).any (·.id == c.id)) =
      (parts.filter fun c => !types.any (·.id == c.id)).map (Node.relabel f) := by
  rw [List.filter_map]
  refine congrArg _ (List.filter_congr fun c _ => ?_)
  simp only [Function.comp_apply, List.any_map, Node.id_relabel, Function.comp_def]
  refine congrArg _ (congrArg (fun p => types.any p) (funext fun t => ?_))
  exact Bool.eq_iff_iff.mpr (by simp [f.id_injective.eq_iff])

theorem execTypeCase_relabel (bound : Option String) (subject : Option Typed) :
    execTypeCase ctx w bound subject (n.relabel f) = execTypeCase ctx (w.on f) bound subject n := by
  simp only [execTypeCase, Node.childrenAs_relabel, Node.parts_relabel, others_relabel, forM_map,
    visit_relabel]
  rcases n.childrenAs .type with _ | ⟨t, _ | ⟨t', types⟩⟩ <;> simp [FileContext.resolve_relabel]

theorem execTypeSwitch_relabel :
    execTypeSwitch ctx w (n.relabel f) = execTypeSwitch ctx (w.on f) n := by
  simp only [execTypeSwitch, Node.child?_relabel, evalChild_relabel, listedAs_relabel,
    Node.parts_relabel, List.head?_map, Option.map_map, Function.comp_def, Node.text_relabel]
  rw [Node.filter_relabel f fun c => by rw [Node.kind_relabel]]
  simp only [forM_map, execTypeCase_relabel]
  cases n.child? .initializer <;> simp [visit_relabel]

theorem execReceive_relabel : execReceive w (n.relabel f) = execReceive (w.on f) n := by
  simp only [execReceive, evalChild_relabel, listedAs_relabel, List.zipIdx_map, forM_map,
    Node.hasToken_relabel]
  simp

end

end Inference

end GomegaLint
