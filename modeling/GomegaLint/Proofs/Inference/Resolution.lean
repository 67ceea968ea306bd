import Mathlib
import GomegaLint.Inference.Resolve
import GomegaLint.Proofs.Syntax.Tree

/-!
# Resolution without a count of steps

Resolution is written with a count of steps.  The count is always large enough: with more steps
the outcome is the same (`FileContext.sameIn_resolveIn`), so the type of an expression is that of
its form over the types of its parts (`FileContext.resolve_eq`), and the types under construction
are in the end what they were (`FileContext.building_resolve`).

What holds of a resolution is then proved by `FileContext.resolve_induction`: for the parts of an
expression, and for the definitions of the types that are not under construction.
-/

namespace GomegaLint

/-! ## The parts of a type expression -/

namespace Node

/-- A declaration of parameters. -/
def isParameter (n : Node) : Bool :=
  n.kind == .parameterDeclaration || n.kind == .variadicParameterDeclaration

/-- The types of the parameters of a list. -/
def parameterParts (list : Node) : List Node :=
  (list.parts.filter isParameter).filterMap (·.child? .type)

/-- The types of a result or of a list of results. -/
def resultParts (result : Node) : List Node :=
  if result.kind = .parameterList then result.parameterParts else [result]

end Node

/-- The types that a function is written with. -/
def FunctionShape.parts (f : FunctionShape) : List Node :=
  (f.parameters.map Node.parameterParts).getD [] ++ (f.result.map Node.resultParts).getD []

namespace Node

/-- The type expressions that a type expression is made of. -/
def typeParts (n : Node) : List Node :=
  match n.kind with
  | .pointerType | .parenthesizedType | .constraintElem => n.firstNamed?.toList
  | .sliceType | .arrayType | .implicitLengthArrayType => (n.child? .element).toList
  | .mapType => (n.child? .key).toList ++ (n.child? .value).toList
  | .channelType => (n.child? .value).toList
  | .functionType => (FunctionShape.ofNode n).parts
  | .interfaceType => n.parts.filter (·.kind != .methodSpec)
  | _ => []

/-- A name that stands for a type. -/
def isTypeName (n : Node) : Bool := n.kind == .typeIdentifier || n.kind == .identifier

theorem mem_children_of_child? {n c : Node} {f : Field} (child : n.child? f = some c) :
    c ∈ n.children :=
  List.mem_of_find?_eq_some child

theorem mem_children_of_firstNamed? {n c : Node} (first : n.firstNamed? = some c) :
    c ∈ n.children :=
  List.mem_of_mem_filter (List.mem_of_head? first)

theorem depth_parameterParts {list c : Node} (member : c ∈ list.parameterParts) :
    c.depth < list.depth := by
  obtain ⟨p, part, type⟩ := List.mem_filterMap.mp member
  have inList := mem_children_of_mem_parts (List.mem_of_mem_filter part)
  exact (depth_child (mem_children_of_child? type)).trans (depth_child inList)

theorem depth_shapeParts {n c : Node} (member : c ∈ (FunctionShape.ofNode n).parts) :
    c.depth < n.depth := by
  rcases List.mem_append.mp member with parameter | result
  · cases list : n.child? .parameters with
    | none => simp [FunctionShape.ofNode, list] at parameter
    | some p =>
        have inside : c ∈ p.parameterParts := by simpa [FunctionShape.ofNode, list] using parameter
        exact (depth_parameterParts inside).trans (depth_child (mem_children_of_child? list))
  · cases type : n.child? .result with
    | none => simp [FunctionShape.ofNode, type] at result
    | some r =>
        have below := depth_child (mem_children_of_child? type)
        simp only [FunctionShape.ofNode, type, Option.map_some, Option.getD_some, resultParts]
          at result
        split at result
        · exact (depth_parameterParts result).trans below
        · exact List.mem_singleton.mp result ▸ below

theorem depth_typeParts {n c : Node} (member : c ∈ n.typeParts) : c.depth < n.depth := by
  have child {f : Field} (isChild : c ∈ (n.child? f).toList) : c.depth < n.depth :=
    depth_child (mem_children_of_child? (Option.mem_toList.mp isChild))
  have first (isFirst : c ∈ n.firstNamed?.toList) : c.depth < n.depth :=
    depth_child (mem_children_of_firstNamed? (Option.mem_toList.mp isFirst))
  rw [typeParts] at member
  split at member
  case h_1 | h_2 | h_3 => exact first member
  case h_4 | h_5 | h_6 => exact child member
  · exact (List.mem_append.mp member).elim child child
  · exact child member
  · exact depth_shapeParts member
  · exact depth_child (mem_children_of_mem_parts (List.mem_of_mem_filter member))
  · cases member

end Node

/-! ## Computations that go together -/

/-- A relation of computations that is kept when they are put one behind the other. -/
structure Congruent {M : Type → Type} [Monad M] (P : (α : Type) → M α → M α → Prop) : Prop where
  pure : ∀ {α : Type} (a : α), P α (Pure.pure a) (Pure.pure a)
  bind : ∀ {α β : Type} {m m' : M α} {f f' : α → M β}, P α m m' →
    (∀ a, P β (f a) (f' a)) → P β (m >>= f) (m' >>= f')

namespace Congruent

theorem equality (M : Type → Type) [Monad M] : Congruent fun α (m m' : M α) => m = m' :=
  ⟨fun _ => rfl, fun first second => by rw [first, funext second]⟩

section

variable {M : Type → Type} [Monad M] {P : (α : Type) → M α → M α → Prop} {α β : Type}
  (law : Congruent P)

include law

theorem forM {xs : List α} {f f' : α → M Unit} (each : ∀ x ∈ xs, P Unit (f x) (f' x)) :
    P Unit (xs.forM f) (xs.forM f') := by
  induction xs with
  | nil => exact law.pure ()
  | cons x xs ih =>
      obtain ⟨first, others⟩ := List.forall_mem_cons.mp each
      exact law.bind first fun _ => ih others

theorem optionForM {x : Option α} {f f' : α → M Unit}
    (each : ∀ a, x = some a → P Unit (f a) (f' a)) : P Unit (x.forM f) (x.forM f') := by
  cases x with
  | none => exact law.pure ()
  | some a => exact each a rfl

/-- A computation that may fail, and one behind it. -/
theorem orNone {m m' : OptionT M α} {f f' : α → OptionT M β}
    (first : P (Option α) m.run m'.run) (second : ∀ a, P (Option β) (f a).run (f' a).run) :
    P (Option β) (m >>= f).run (m' >>= f').run := by
  rw [OptionT.run_bind, OptionT.run_bind]
  refine law.bind first fun x => ?_
  cases x with
  | none => exact law.pure none
  | some a => exact second a

variable [LawfulMonad M]

theorem map {m m' : M α} (f : α → β) (same : P α m m') : P β (f <$> m) (f <$> m') := by
  have mapped := law.bind same fun a => law.pure (f a)
  simpa only [bind_pure_comp] using mapped

/-- A computation whose outcome is not used. -/
theorem discard {m m' : M α} (same : P α m m') :
    P Unit (Functor.discard m) (Functor.discard m') := by
  simp only [Functor.discard, map_const]
  exact law.map _ same

theorem mapM {xs : List α} {f f' : α → M β} (each : ∀ x ∈ xs, P β (f x) (f' x)) :
    P (List β) (xs.mapM f) (xs.mapM f') := by
  induction xs with
  | nil => exact law.pure []
  | cons x xs ih =>
      obtain ⟨first, others⟩ := List.forall_mem_cons.mp each
      rw [List.mapM_cons, List.mapM_cons]
      exact law.bind first fun _ => law.bind (ih others) fun _ => law.pure _

end

end Congruent

namespace FileContext

/-- The type that a declaration gives its parameters. -/
def parameterType (resolve : Resolver) (n : Node) : TypeM (Option GoType) :=
  if n.kind = .parameterDeclaration then (resolvePart resolve n .type).run
  else do return (← (resolvePart resolve n .type).run).map .slice

theorem parameter?_eq (resolve : Resolver) (n : Node) : parameter? resolve n =
    if n.isParameter then some (n.childrenAs .name, parameterType resolve n) else none := by
  unfold parameter? parameterType Node.isParameter
  cases n.kind <;> rfl

theorem filterMap_parameter? (resolve : Resolver) (ns : List Node) :
    ns.filterMap (parameter? resolve) =
      (ns.filter Node.isParameter).map fun n => (n.childrenAs .name, parameterType resolve n) := by
  induction ns with
  | nil => rfl
  | cons n ns ih =>
      rw [List.filterMap_cons, parameter?_eq, ih]
      cases parameter : n.isParameter <;> simp [parameter]

/-- The types of the parameters of a list, one declaration after the other. -/
theorem parameterTypes_eq (resolve : Resolver) (list : Node) :
    parameterTypes resolve list = (do
      let types ← (list.parts.filter Node.isParameter).mapM fun n => do
        return List.replicate (max (n.childrenAs .name).length 1) (← parameterType resolve n)
      return types.flatten) := by
  rw [parameterTypes, filterMap_parameter?, List.mapM_map]
  rfl

end FileContext

namespace Congruent

variable {P : (α : Type) → TypeM α → TypeM α → Prop} (law : Congruent P)

include law

variable {resolve resolve' : Resolver}

open FileContext

theorem resolvePart {n : Node} {f : Field}
    (child : ∀ c, n.child? f = some c → P _ (resolve c) (resolve' c)) :
    P _ (FileContext.resolvePart resolve n f).run (FileContext.resolvePart resolve' n f).run := by
  unfold FileContext.resolvePart
  cases isChild : n.child? f with
  | none => exact law.pure none
  | some c => exact child c isChild

theorem resolveFirst {n : Node}
    (first : ∀ c, n.firstNamed? = some c → P _ (resolve c) (resolve' c)) :
    P _ (FileContext.resolveFirst resolve n).run (FileContext.resolveFirst resolve' n).run := by
  unfold FileContext.resolveFirst
  cases isFirst : n.firstNamed? with
  | none => exact law.pure none
  | some c => exact first c isFirst

theorem parameterType {n : Node}
    (type : ∀ c, n.child? .type = some c → P _ (resolve c) (resolve' c)) :
    P _ (FileContext.parameterType resolve n) (FileContext.parameterType resolve' n) := by
  unfold FileContext.parameterType
  split
  · exact law.resolvePart type
  · exact law.bind (law.resolvePart type) fun _ => law.pure _

theorem parameterTypes {list : Node}
    (each : ∀ c ∈ list.parameterParts, P _ (resolve c) (resolve' c)) :
    P _ (FileContext.parameterTypes resolve list) (FileContext.parameterTypes resolve' list) := by
  rw [parameterTypes_eq, parameterTypes_eq]
  refine law.bind (law.mapM fun n member => law.bind (law.parameterType fun c type => ?_)
    fun _ => law.pure _) fun _ => law.pure _
  exact each c (List.mem_filterMap.mpr ⟨n, member, type⟩)

theorem resultTypes {result : Option Node}
    (each : ∀ r ∈ result, ∀ c ∈ r.resultParts, P _ (resolve c) (resolve' c)) :
    P _ (FileContext.resultTypes resolve result).run
      (FileContext.resultTypes resolve' result).run := by
  cases result with
  | none => exact law.pure _
  | some r =>
      have here := each r rfl
      rw [FileContext.resultTypes, FileContext.resultTypes]
      unfold Node.resultParts at here
      split at here
      · rw [if_pos ‹_›, if_pos ‹_›]
        refine law.orNone (law.map some (law.parameterTypes here)) fun types => ?_
        cases types.mapM id with
        | none => exact law.pure none
        | some ts => exact law.pure (some ts)
      · rw [if_neg ‹_›, if_neg ‹_›]
        exact law.orNone (here r List.mem_cons_self) fun _ => law.pure _

theorem signatureOf {f : FunctionShape} (each : ∀ c ∈ f.parts, P _ (resolve c) (resolve' c)) :
    P _ (FileContext.signatureOf resolve f).run (FileContext.signatureOf resolve' f).run := by
  have results : P _ (FileContext.resultTypes resolve f.result).run
      (FileContext.resultTypes resolve' f.result).run :=
    law.resultTypes fun r isResult c member =>
      each c (List.mem_append_right _ (by simpa [Option.mem_def.mp isResult] using member))
  have behind (params : List (Option GoType)) : P _
      (do
        let results ← FileContext.resultTypes resolve f.result
        return GoType.signature (params.map (·.getD Packages.any)) results :
          OptionT TypeM GoType).run
      (do
        let results ← FileContext.resultTypes resolve' f.result
        return GoType.signature (params.map (·.getD Packages.any)) results :
          OptionT TypeM GoType).run :=
    law.orNone results fun _ => law.pure _
  unfold FileContext.signatureOf
  cases list : f.parameters with
  | none => exact law.orNone (law.pure _) behind
  | some p =>
      refine law.orNone (law.map some (law.parameterTypes fun c member => ?_)) behind
      exact each c (List.mem_append_left _ (by simpa [list] using member))

theorem interfaceMethods {n : Node}
    (each : ∀ c ∈ n.parts, c.kind ≠ .methodSpec → P _ (resolve c) (resolve' c)) :
    P _ (FileContext.interfaceMethods resolve n) (FileContext.interfaceMethods resolve' n) := by
  refine law.bind (law.mapM fun c member => ?_) fun _ => law.pure _
  unfold FileContext.elementMethods
  split
  · exact law.pure _
  · exact law.bind (each c member ‹_›) fun _ => law.pure _

/-- The resolution of an expression goes together with another if those of its parts do, and
that of its name. -/
theorem resolveStep {ctx : FileContext} {n : Node}
    (parts : ∀ c ∈ n.typeParts, P _ (resolve c) (resolve' c))
    (name : n.isTypeName = true →
      P _ (ctx.namedType resolve n.text) (ctx.namedType resolve' n.text)) :
    P _ (ctx.resolveStep resolve n).run (ctx.resolveStep resolve' n).run := by
  unfold FileContext.resolveStep
  unfold Node.typeParts at parts
  unfold Node.isTypeName at name
  cases kind : n.kind <;> simp only [kind] at parts name ⊢
  case typeIdentifier | identifier =>
    exact law.bind (name rfl) fun _ => law.pure _
  case qualifiedType | structType => exact law.pure _
  case pointerType =>
    refine law.orNone (law.resolveFirst fun c first => parts c ?_) fun _ => law.pure _
    exact Option.mem_toList.mpr first
  case sliceType | arrayType | implicitLengthArrayType =>
    refine law.orNone (law.resolvePart fun c child => parts c ?_) fun _ => law.pure _
    exact Option.mem_toList.mpr child
  case mapType =>
    refine law.orNone (law.resolvePart fun c child => parts c ?_) fun _ =>
      law.orNone (law.resolvePart fun c child => parts c ?_) fun _ => law.pure _
    · exact List.mem_append_left _ (Option.mem_toList.mpr child)
    · exact List.mem_append_right _ (Option.mem_toList.mpr child)
  case channelType =>
    refine law.orNone (law.resolvePart fun c child => parts c ?_) fun _ => law.pure _
    exact Option.mem_toList.mpr child
  case functionType => exact law.signatureOf parts
  case interfaceType =>
    refine law.orNone (law.map some (law.interfaceMethods fun c member other => parts c ?_))
      fun _ => law.pure _
    simpa [member] using other
  case parenthesizedType | constraintElem =>
    exact law.resolveFirst fun c first => parts c (Option.mem_toList.mpr first)
  all_goals exact law.pure none

end Congruent

/-! ## The steps that resolution takes -/

/-- Two computations do the same wherever the given types are under construction, and leave these
under construction. -/
def SameIn (building : List String) (α : Type) (m m' : TypeM α) : Prop :=
  ∀ s : TypeCache, s.building = building → m s = m' s ∧ (m s).2.building = building

theorem SameIn.congruent (building : List String) : Congruent (SameIn building) where
  pure _ := fun _ under => ⟨rfl, under⟩
  bind {_ _ m m' f f'} first second := by
    intro s under
    obtain ⟨same, kept⟩ := first s under
    obtain ⟨sameBehind, keptBehind⟩ := second (m s).1 (m s).2 kept
    refine ⟨?_, keptBehind⟩
    calc (m >>= f) s = f (m s).1 (m s).2 := rfl
      _ = f' (m s).1 (m s).2 := sameBehind
      _ = (m' >>= f') s := by rw [same]; rfl

namespace Declarations

theorem name_of_type? {d : Declarations} {name : String} {t : TypeDecl}
    (declared : d.type? name = some t) : t.name = name := by
  simpa using List.find?_some declared

theorem mem_types_of_type? {d : Declarations} {name : String} {t : TypeDecl}
    (declared : d.type? name = some t) : t ∈ d.types :=
  List.mem_of_find?_eq_some declared

end Declarations

/-- As many steps as some definitions can take, one after the other. -/
def stepsOf (types : List TypeDecl) : Nat := types.foldr (fun d n => d.target.depth + n) 0

theorem stepsOf_filter_le {all fewer : TypeDecl → Bool}
    (subset : ∀ t, fewer t = true → all t = true) (types : List TypeDecl) :
    stepsOf (types.filter fewer) ≤ stepsOf (types.filter all) := by
  induction types with
  | nil => exact le_rfl
  | cons t ts ih =>
      have here := subset t
      cases inFewer : fewer t <;> cases inAll : all t <;> simp_all [stepsOf]; omega

/-- Leaving a definition out saves its steps. -/
theorem stepsOf_filter_add_le {types : List TypeDecl} {d : TypeDecl} (member : d ∈ types)
    {all fewer : TypeDecl → Bool} (subset : ∀ t, fewer t = true → all t = true)
    (stays : all d = true) (leaves : fewer d = false) :
    d.target.depth + stepsOf (types.filter fewer) ≤ stepsOf (types.filter all) := by
  induction types with
  | nil => cases member
  | cons t ts ih =>
      rcases List.mem_cons.mp member with rfl | behind
      · have := stepsOf_filter_le subset ts
        simpa [stays, leaves, stepsOf] using this
      · have := ih behind
        have here := subset t
        cases inFewer : fewer t <;> cases inAll : all t <;> simp_all [stepsOf] <;> omega

namespace FileContext

variable (ctx : FileContext)

/-- As many steps as the definitions can take that are not under construction. -/
def stepsLeft (building : List String) : Nat :=
  stepsOf (ctx.declarations.types.filter fun d => !building.contains d.name)

theorem stepsLeft_nil : ctx.stepsLeft [] = ctx.definitionSteps := by
  simp [stepsLeft, stepsOf, definitionSteps]

variable {ctx}

/-- A definition that is started takes its steps from those that are left. -/
theorem stepsLeft_cons_add_le {name : String} {d : TypeDecl} {building : List String}
    (declared : ctx.declarations.type? name = some d) (fresh : name ∉ building) :
    d.target.depth + ctx.stepsLeft (name :: building) ≤ ctx.stepsLeft building := by
  have isName := Declarations.name_of_type? declared
  refine stepsOf_filter_add_le (Declarations.mem_types_of_type? declared) (fun t => ?_) ?_ ?_
  · simp only [List.contains_cons, Bool.not_or, Bool.and_eq_true]
    exact And.right
  · simpa [isName] using fresh
  · simp [isName]

/-! ## What a declared name denotes -/

variable (ctx) in
/-- What a declaration denotes within its own definition. -/
def standIn (d : TypeDecl) : Option GoType :=
  if d.isAlias then none else some (ctx.definedType d.name .struct)

variable (ctx) in
/-- What a declaration denotes, by the type of its definition. -/
def denoted (d : TypeDecl) (target : Option GoType) : Option GoType :=
  if d.isAlias then target else target.map fun t => ctx.definedType d.name t.underlying

/-- The types known when a definition is complete: a defined type is kept, an alias is not. -/
def completed (d : TypeDecl) (type : Option GoType) (s : TypeCache) : TypeCache where
  known := if d.isAlias then s.known else (d.name, type) :: s.known
  building := s.building.erase d.name

theorem lookup_completed_of_ne {d : TypeDecl} {type : Option GoType} {s : TypeCache} {name : String}
    (other : name ≠ d.name) : (completed d type s).known.lookup name = s.known.lookup name := by
  unfold completed
  cases d.isAlias
  · simp [List.lookup_cons, beq_eq_false_iff_ne.mpr other]
  · rfl

theorem lookup_completed_self {d : TypeDecl} {type : Option GoType} {s : TypeCache} :
    (completed d type s).known.lookup d.name =
      if d.isAlias then s.known.lookup d.name else some type := by
  unfold completed
  cases d.isAlias <;> simp

theorem lookup_completed_defined {d : TypeDecl} (type : Option GoType) (s : TypeCache)
    (defined : d.isAlias = false) : (completed d type s).known.lookup d.name = some type := by
  rw [lookup_completed_self, defined]
  rfl

section

variable {resolve : Resolver} {name : String} {s : TypeCache}

theorem namedType_known {t : Option GoType} (known : s.known.lookup name = some t) :
    ctx.namedType resolve name s = (t, s) := by
  simp only [namedType, bind, StateT.bind, get, getThe, MonadStateOf.get, StateT.get, pure, known]
  rfl

theorem namedType_undeclared (unknown : s.known.lookup name = none)
    (undeclared : ctx.declarations.type? name = none) :
    ctx.namedType resolve name s = (none, s) := by
  simp only [namedType, bind, StateT.bind, get, getThe, MonadStateOf.get, StateT.get, pure,
    unknown, undeclared]
  rfl

variable {d : TypeDecl} (unknown : s.known.lookup name = none)
  (declared : ctx.declarations.type? name = some d)

include unknown declared

theorem namedType_declared :
    ctx.namedType resolve name s = ctx.declaredType resolve d s := by
  simp only [namedType, bind, StateT.bind, get, getThe, MonadStateOf.get, StateT.get, pure,
    unknown, declared]

theorem namedType_building (under : name ∈ s.building) :
    ctx.namedType resolve name s = (ctx.standIn d, s) := by
  have isName := Declarations.name_of_type? declared
  rw [namedType_declared unknown declared]
  simp only [declaredType, bind, StateT.bind, get, getThe, MonadStateOf.get, StateT.get, pure,
    isName, List.contains_eq_mem, under, decide_true, if_true]
  rw [standIn, isName]
  rfl

theorem namedType_fresh (fresh : name ∉ s.building) :
    let r := resolve d.target { s with building := name :: s.building }
    ctx.namedType resolve name s = (ctx.denoted d r.1, completed d (ctx.denoted d r.1) r.2) := by
  have isName := Declarations.name_of_type? declared
  rw [namedType_declared unknown declared]
  simp only [declaredType, bind, StateT.bind, get, getThe, MonadStateOf.get, StateT.get, pure,
    isName, List.contains_eq_mem, fresh, decide_false, completed, denoted]
  cases d.isAlias <;> rfl

end

/-- What a declared name denotes does not depend on the resolver beyond its definition. -/
theorem sameIn_namedType {resolve resolve' : Resolver} {building : List String} {name : String}
    (definition : ∀ d, ctx.declarations.type? name = some d → name ∉ building →
      SameIn (name :: building) _ (resolve d.target) (resolve' d.target)) :
    SameIn building _ (ctx.namedType resolve name) (ctx.namedType resolve' name) := by
  intro s under
  subst under
  cases lookup : s.known.lookup name with
  | some t => simp [namedType_known lookup]
  | none =>
      cases declared : ctx.declarations.type? name with
      | none => simp [namedType_undeclared lookup declared]
      | some d =>
          by_cases under : name ∈ s.building
          · simp [namedType_building lookup declared under]
          · obtain ⟨same, kept⟩ := definition d declared under
              { s with building := name :: s.building } rfl
            rw [namedType_fresh lookup declared under, namedType_fresh lookup declared under, same]
            refine ⟨rfl, ?_⟩
            simp [completed, ← same, kept, Declarations.name_of_type? declared]

/-! ## Resolution, whatever its steps -/

variable (ctx) in
/-- Resolution that is left to another resolver when it is so many steps deep. -/
def resolveAbove (bottom : Resolver) : Nat → Resolver
  | 0 => bottom
  | steps + 1 => fun n => (ctx.resolveStep (resolveAbove bottom steps) n).run

theorem resolveAbove_none (steps : Nat) :
    ctx.resolveAbove (fun _ => return none) steps = ctx.resolveIn steps := by
  induction steps with
  | zero => rfl
  | succ steps ih => rw [resolveAbove, ih, resolveIn]

/-- Where the steps suffice, neither their count nor what lies below them matters. -/
theorem sameIn_resolveAbove {bottom bottom' : Resolver} {steps steps' : Nat} {n : Node}
    {building : List String} (enough : n.depth + ctx.stepsLeft building ≤ steps)
    (enough' : n.depth + ctx.stepsLeft building ≤ steps') :
    SameIn building _ (ctx.resolveAbove bottom steps n) (ctx.resolveAbove bottom' steps' n) := by
  induction steps generalizing steps' n building with
  | zero => have := n.depth_pos; omega
  | succ steps ih =>
      obtain _ | steps' := steps'
      · have := n.depth_pos; omega
      refine (SameIn.congruent building).resolveStep (fun c part => ?_) fun isName =>
        sameIn_namedType fun d declared fresh => ?_
      · have := Node.depth_typeParts part
        exact ih (by omega) (by omega)
      · have := stepsLeft_cons_add_le declared fresh
        have := n.depth_pos
        exact ih (by omega) (by omega)

/-- Any two counts of steps that suffice give the same. -/
theorem sameIn_resolveIn {steps steps' : Nat} {n : Node} {building : List String}
    (enough : n.depth + ctx.stepsLeft building ≤ steps)
    (enough' : n.depth + ctx.stepsLeft building ≤ steps') :
    SameIn building _ (ctx.resolveIn steps n) (ctx.resolveIn steps' n) := by
  rw [← resolveAbove_none, ← resolveAbove_none]
  exact sameIn_resolveAbove enough enough'

variable (ctx) in
theorem stepsLeft_le (building : List String) : ctx.stepsLeft building ≤ ctx.definitionSteps := by
  rw [← stepsLeft_nil]
  exact stepsOf_filter_le (by simp) _

theorem sameIn_resolve {steps : Nat} {n : Node} {building : List String}
    (enough : n.depth + ctx.stepsLeft building ≤ steps) :
    SameIn building _ (ctx.resolveIn steps n) (ctx.resolve n) :=
  sameIn_resolveIn enough (Nat.add_le_add_left (ctx.stepsLeft_le building) _)

variable (ctx) in
/-- The type that the file declares under a name. -/
def named (name : String) : TypeM (Option GoType) := ctx.namedType ctx.resolve name

/-- For a name there are always steps enough in the definitions. -/
theorem namedType_resolveIn (name : String) :
    ctx.namedType (ctx.resolveIn ctx.definitionSteps) name = ctx.named name := by
  have same (s : TypeCache) : SameIn s.building _
      (ctx.namedType (ctx.resolveIn ctx.definitionSteps) name) (ctx.named name) :=
    sameIn_namedType fun d declared fresh =>
      sameIn_resolve ((stepsLeft_cons_add_le declared fresh).trans (ctx.stepsLeft_le _))
  exact funext fun s => (same s s rfl).1

/-- The type of an expression is that of its form over the types of its parts. -/
theorem resolve_eq (n : Node) : ctx.resolve n = (ctx.resolveStep ctx.resolve n).run := by
  obtain ⟨depth, isDepth⟩ := Nat.exists_eq_succ_of_ne_zero n.depth_pos.ne'
  have steps : ctx.resolve n =
      (ctx.resolveStep (ctx.resolveIn (depth + ctx.definitionSteps)) n).run := by
    rw [resolve, isDepth, Nat.succ_add]
    rfl
  rw [steps]
  funext s
  refine ((SameIn.congruent s.building).resolveStep (fun c part => sameIn_resolve ?_) fun _ =>
    sameIn_namedType fun d declared fresh => sameIn_resolve ?_) s rfl |>.1
  · have := Node.depth_typeParts part
    have := ctx.stepsLeft_le s.building
    omega
  · have := (stepsLeft_cons_add_le declared fresh).trans (ctx.stepsLeft_le _)
    omega

theorem sameIn_self (building : List String) (n : Node) :
    SameIn building _ (ctx.resolve n) (ctx.resolve n) :=
  sameIn_resolveIn (Nat.add_le_add_left (ctx.stepsLeft_le building) _)
    (Nat.add_le_add_left (ctx.stepsLeft_le building) _)

/-- Resolution leaves the types under construction as they are. -/
theorem building_resolve (n : Node) (s : TypeCache) :
    (ctx.resolve n s).2.building = s.building :=
  (sameIn_self s.building n s rfl).2

theorem building_named (name : String) (s : TypeCache) :
    (ctx.named name s).2.building = s.building := by
  have same : SameIn s.building _ (ctx.named name) (ctx.named name) :=
    sameIn_namedType fun d _ _ => sameIn_self _ d.target
  exact (same s rfl).2

variable (ctx) in
/-- What holds of the parts of an expression, and for a name that is not under construction of its
definition, holds of the expression; then it holds of all. -/
theorem resolve_induction {holds : List String → Node → Prop}
    (step : ∀ building n, (∀ c ∈ n.typeParts, holds building c) →
      (∀ d, n.isTypeName = true → ctx.declarations.type? n.text = some d → n.text ∉ building →
        holds (n.text :: building) d.target) → holds building n)
    (building : List String) (n : Node) : holds building n := by
  induction steps : n.depth + ctx.stepsLeft building using Nat.strong_induction_on
    generalizing building n with
  | _ k ih =>
    refine step building n (fun c part => ?_) fun d _ declared fresh => ?_
    · have := Node.depth_typeParts part
      exact ih _ (by omega) building c rfl
    · have := stepsLeft_cons_add_le declared fresh
      have := n.depth_pos
      exact ih _ (by omega) (n.text :: building) d.target rfl

end FileContext

end GomegaLint
