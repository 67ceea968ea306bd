import Mathlib
import GomegaLint.Proofs.Inference.Resolution

/-!
# Resolution ends

A resolution asks for others: for those of the parts of its expression, and for that of the
definition of a name which is not under construction (`FileContext.Asks`).  The definition may lie
anywhere in the file and may lead back to the name, but then the name is under construction.  So the
depth of the expression and of the definitions not yet under construction goes down with every
question, and there is no endless chain of them, whatever cycles the declarations make.

`FileContext.resolution_ends` draws the conclusions: the recursion has one solution, it goes no
deeper than this measure, and it leaves the types under construction as they were.
-/

namespace GomegaLint

/-- The depth of the types that a function is written with. -/
def FunctionShape.depth (f : FunctionShape) : Nat :=
  max ((f.parameters.map Node.depth).getD 0) ((f.result.map Node.depth).getD 0)

theorem FunctionShape.depth_parts {f : FunctionShape} {c : Node} (member : c ∈ f.parts) :
    c.depth ≤ f.depth := by
  obtain ⟨parameters, result⟩ := f
  rcases List.mem_append.mp member with parameter | part
  · cases parameters with
    | none => cases parameter
    | some list => exact (Node.depth_parameterParts parameter).le.trans (Nat.le_max_left _ _)
  · cases result with
    | none => cases part
    | some r =>
        refine le_trans ?_ (Nat.le_max_right _ _)
        simp only [Option.map_some, Option.getD_some, Node.resultParts] at part ⊢
        split at part
        · exact (Node.depth_parameterParts part).le
        · rw [List.mem_singleton.mp part]

namespace FileContext

variable {ctx : FileContext}

/-! ## Questions -/

/-- The resolution of the second expression may ask for that of the first.  Beside each expression
stand the types that are under construction then. -/
inductive Asks (ctx : FileContext) : List String × Node → List String × Node → Prop
  | part {building : List String} {n c : Node} (isPart : c ∈ n.typeParts) :
      Asks ctx (building, c) (building, n)
  | definition {building : List String} {n : Node} {d : TypeDecl} (isName : n.isTypeName = true)
      (declared : ctx.declarations.type? n.text = some d) (fresh : n.text ∉ building) :
      Asks ctx (n.text :: building, d.target) (building, n)

/-- As many steps as a resolution can take: those into the expression and those into the
definitions that are not under construction. -/
def stepsFrom (ctx : FileContext) (question : List String × Node) : Nat :=
  question.2.depth + ctx.stepsLeft question.1

theorem Asks.stepsFrom_lt {asked question : List String × Node} (asks : ctx.Asks asked question) :
    ctx.stepsFrom asked < ctx.stepsFrom question := by
  cases asks with
  | part isPart =>
      have := Node.depth_typeParts isPart
      simp only [stepsFrom]
      omega
  | @definition building n d isName declared fresh =>
      have := stepsLeft_cons_add_le declared fresh
      have := n.depth_pos
      simp only [stepsFrom]
      omega

variable (ctx) in
/-- There is no endless chain of questions. -/
theorem asks_wellFounded : WellFounded ctx.Asks :=
  Subrelation.wf Asks.stepsFrom_lt (InvImage.wf ctx.stepsFrom Nat.lt_wfRel.wf)

/-- A step asks no other questions: its outcome is the same for all resolvers that answer these in
the same way. -/
theorem sameIn_resolveStep {resolve resolve' : Resolver} {building : List String} {n : Node}
    (answers : ∀ under c, ctx.Asks (under, c) (building, n) →
      SameIn under _ (resolve c) (resolve' c)) :
    SameIn building _ (ctx.resolveStep resolve n).run (ctx.resolveStep resolve' n).run :=
  (SameIn.congruent building).resolveStep (fun _ isPart => answers _ _ (.part isPart))
    fun isName => sameIn_namedType fun _ declared fresh =>
      answers _ _ (.definition isName declared fresh)

/-! ## Bounds -/

/-- The computation goes at most so many steps deep into resolution: it does not matter what a
resolver farther down would answer or do.  And it leaves the types under construction as they
were. -/
def EndsWithin (ctx : FileContext) {α : Type} (limit : Nat) (m : Resolver → TypeM α)
    (s : TypeCache) : Prop :=
  (∀ bottom steps, limit ≤ steps → m (ctx.resolveAbove bottom steps) s = m ctx.resolve s) ∧
    (m ctx.resolve s).2.building = s.building

/-- The resolver at some depth answers like the one without a bound. -/
theorem sameIn_resolveAbove_resolve {bottom : Resolver} {steps : Nat} {n : Node}
    {building : List String} (enough : n.depth + ctx.stepsLeft building ≤ steps) :
    SameIn building _ (ctx.resolveAbove bottom steps n) (ctx.resolve n) := by
  rw [resolve, ← resolveAbove_none]
  exact sameIn_resolveAbove enough (Nat.add_le_add_left (ctx.stepsLeft_le building) _)

theorem endsWithin_of_sameIn {α : Type} {limit : Nat} {m : Resolver → TypeM α} {s : TypeCache}
    (same : ∀ bottom steps, limit ≤ steps →
      SameIn s.building α (m (ctx.resolveAbove bottom steps)) (m ctx.resolve)) :
    ctx.EndsWithin limit m s := by
  refine ⟨fun bottom steps enough => (same bottom steps enough s rfl).1, ?_⟩
  obtain ⟨equal, kept⟩ := same (fun _ => return none) limit le_rfl s rfl
  rwa [equal] at kept

/-- What is put together from resolutions ends with them. -/
theorem endsWithin_of_parts {α : Type} {limit : Nat} {m : Resolver → TypeM α} {s : TypeCache}
    (parts : List Node) (depth : ∀ c ∈ parts, c.depth ≤ limit)
    (congruent : ∀ resolve resolve' : Resolver,
      (∀ c ∈ parts, SameIn s.building _ (resolve c) (resolve' c)) →
        SameIn s.building α (m resolve) (m resolve')) :
    ctx.EndsWithin (limit + ctx.stepsLeft s.building) m s := by
  refine endsWithin_of_sameIn fun bottom steps enough => congruent _ _ fun c part => ?_
  have := depth c part
  exact sameIn_resolveAbove_resolve (by omega)

section

variable (ctx) (s : TypeCache)

theorem resolve_endsWithin (n : Node) :
    ctx.EndsWithin (n.depth + ctx.stepsLeft s.building) (fun resolve => resolve n) s :=
  endsWithin_of_parts [n] (by simp) fun _ _ same => same n (List.mem_singleton_self n)

theorem namedType_endsWithin (name : String) :
    ctx.EndsWithin (ctx.stepsLeft s.building) (fun resolve => ctx.namedType resolve name) s := by
  refine endsWithin_of_sameIn fun bottom steps enough =>
    sameIn_namedType fun d declared fresh => sameIn_resolveAbove_resolve ?_
  exact (stepsLeft_cons_add_le declared fresh).trans enough

theorem signatureOf_endsWithin (f : FunctionShape) :
    ctx.EndsWithin (f.depth + ctx.stepsLeft s.building)
      (fun resolve => (signatureOf resolve f).run) s :=
  endsWithin_of_parts f.parts (fun _ => FunctionShape.depth_parts) fun _ _ same =>
    (SameIn.congruent s.building).signatureOf same

theorem parameterTypes_endsWithin (list : Node) :
    ctx.EndsWithin (list.depth + ctx.stepsLeft s.building)
      (fun resolve => parameterTypes resolve list) s :=
  endsWithin_of_parts list.parameterParts
    (fun _ part => (Node.depth_parameterParts part).le) fun _ _ same =>
      (SameIn.congruent s.building).parameterTypes same

theorem interfaceMethods_endsWithin (n : Node) :
    ctx.EndsWithin (n.depth + ctx.stepsLeft s.building)
      (fun resolve => interfaceMethods resolve n) s :=
  endsWithin_of_parts n.parts
    (fun _ part => (Node.depth_child (Node.mem_children_of_mem_parts part)).le) fun _ _ same =>
      (SameIn.congruent s.building).interfaceMethods fun c part _ => same c part

end

/-- The resolver is the only solution of the recursion. -/
theorem eq_resolve_iff {r : Resolver} :
    (∀ n, r n = (ctx.resolveStep r n).run) ↔ r = ctx.resolve := by
  constructor
  · intro solves
    have below (steps : Nat) : ctx.resolveAbove r steps = r := by
      induction steps with
      | zero => rfl
      | succ steps ih => rw [resolveAbove, ih, ← funext solves]
    funext n s
    have ends := (ctx.resolve_endsWithin s n).1 r _ le_rfl
    rwa [below] at ends
  · rintro rfl n
    exact resolve_eq n

/-- **Resolution ends on every file.**  No chain of questions is endless, and a step asks for
nothing but the answers to its questions; so the recursion has one solution, which is resolution.

In every state, the resolution of a type expression, of a declared name, of a signature, of a list
of parameters and of the methods of an interface go no deeper than the expression at hand and the
definitions that are not under construction, and they leave the types under construction as they
were. -/
theorem resolution_ends (ctx : FileContext) :
    WellFounded ctx.Asks ∧
      (∀ resolve resolve' building n,
        (∀ under c, ctx.Asks (under, c) (building, n) →
          SameIn under _ (resolve c) (resolve' c)) →
        SameIn building _ (ctx.resolveStep resolve n).run (ctx.resolveStep resolve' n).run) ∧
      (∀ r : Resolver, (∀ n, r n = (ctx.resolveStep r n).run) ↔ r = ctx.resolve) ∧
      ∀ s : TypeCache,
        (∀ n, ctx.EndsWithin (n.depth + ctx.stepsLeft s.building) (fun resolve => resolve n) s) ∧
        (∀ name, ctx.EndsWithin (ctx.stepsLeft s.building)
          (fun resolve => ctx.namedType resolve name) s) ∧
        (∀ f, ctx.EndsWithin (f.depth + ctx.stepsLeft s.building)
          (fun resolve => (signatureOf resolve f).run) s) ∧
        (∀ list, ctx.EndsWithin (list.depth + ctx.stepsLeft s.building)
          (fun resolve => parameterTypes resolve list) s) ∧
        ∀ n, ctx.EndsWithin (n.depth + ctx.stepsLeft s.building)
          (fun resolve => interfaceMethods resolve n) s :=
  ⟨ctx.asks_wellFounded, fun _ _ _ _ => sameIn_resolveStep, fun _ => eq_resolve_iff, fun s =>
    ⟨ctx.resolve_endsWithin s, ctx.namedType_endsWithin s, ctx.signatureOf_endsWithin s,
      ctx.parameterTypes_endsWithin s, ctx.interfaceMethods_endsWithin s⟩⟩

section

open Node

/-- `type left = right`, `type right = left` and
`type table map[string]func(*table) interface{ table }` -/
def cyclic : FileContext :=
  { style := .dot
    package := "a"
    imports := []
    dotImports := []
    declarations :=
      { types :=
          [⟨"left", true, word .typeIdentifier "right"⟩,
           ⟨"right", true, word .typeIdentifier "left"⟩,
           ⟨"table", false, construct .mapType
            [word .typeIdentifier "string" (some .key),
             construct .functionType
              [construct .parameterList
                [construct .parameterDeclaration
                  [construct .pointerType [sign "*", word .typeIdentifier "table"] (some .type)]]
                (some .parameters),
               construct .interfaceType
                [construct .constraintElem [word .typeIdentifier "table"]] (some .result)]
              (some .value)]⟩] } }

/-- Two aliases of each other denote nothing, and a type that occurs in its own definition in many
ways stands for itself there.  No type is left under construction. -/
theorem resolution_ends_cyclic :
    let left := cyclic.resolve (word .typeIdentifier "left") {}
    let table := cyclic.resolve (word .typeIdentifier "table") {}
    (left.1 = none ∧ left.2.building = []) ∧
      table.1 = some (.named "a" "table" []
        (.map (.basic .string) (.signature [.pointer (.named "a" "table" [] .struct)]
          [.interface []]))) ∧
      table.2.building = [] ∧
      ∀ bottom, cyclic.resolveAbove bottom 9 (word .typeIdentifier "table") {} = table := by
  obtain ⟨-, -, -, ends⟩ := resolution_ends cyclic
  obtain ⟨ends, -⟩ := ends {}
  refine ⟨⟨rfl, (ends _).2⟩, rfl, (ends _).2, fun bottom => (ends _).1 bottom 9 ?_⟩
  decide

end

end FileContext

end GomegaLint
