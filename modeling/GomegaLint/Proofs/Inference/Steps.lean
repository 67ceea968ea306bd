import Mathlib
import GomegaLint.Proofs.Inference.Twins

/-!
# What all steps of inference have in common

What holds of the parts that steps are made of, and is kept when they are put together, holds of all
steps.  `Inference.StepLaw` lists what there is to show, and `StepLaw.ofDepth` concludes.  It is the
law of two walks side by side of which the second does not matter.
-/

namespace GomegaLint

namespace Inference

/-- What there is to show of the parts that steps are made of. -/
structure StepLaw (ctx : FileContext) (P L : (α : Type) → InferM α → Prop) : Prop
    extends Composes P where
  loose : Composes L
  loosen : ∀ {α : Type} {m : InferM α}, P α m → L α m
  get : P State MonadState.get
  bindName : ∀ name t, P Unit (modify (·.bind name t))
  recordNode : ∀ n t, P Unit (recordNode n t)
  overflow : P Unit (modify fun s => { s with overflow := true })
  resolving : ∀ {α : Type} {m : TypeM α},
    (∀ base, Preserved (ctx.AtRest base) α m m) → P α (resolving m)
  functionSignature : ∀ {name f}, ctx.declarations.function? name = some f →
    P (Option GoType) (functionSignature ctx f)
  inBlock : ∀ {α : Type} {m : InferM α}, P α m → P α (inBlock m)
  withRecording : ∀ {α : Type} {m : InferM α} (on : Bool), P α m → P α (withRecording on m)
  counting : ∀ iota, L Unit (modify ({ · with iota := iota }))
  inGroup : ∀ {m : InferM Unit}, L Unit m → P Unit (inGroup m)

/-- Both walks of a walker have a property. -/
structure Walker.All (w : Walker) (P : (α : Type) → InferM α → Prop) : Prop where
  eval : ∀ n, P _ (w.eval n)
  exec : ∀ n, P _ (w.exec n)

theorem Walker.All.twins {w : Walker} {P : (α : Type) → InferM α → Prop} (walks : w.All P)
    (w' : Walker) : w.Twins w' (fun _ _ => True) fun _ α m _ => P α m :=
  ⟨fun _ => walks.eval _, fun _ => walks.exec _⟩

namespace StepLaw

variable {ctx : FileContext} {P L : (α : Type) → InferM α → Prop} (law : StepLaw ctx P L)

include law

/-- The law of a single walk is that of two of which the second does not matter. -/
theorem twins :
    TwinLaw ctx .same (fun _ _ => True) (fun _ α m _ => P α m) fun _ α m _ => L α m where
  nodes := ⟨fun _ _ => trivial, fun _ _ _ _ => trivial, fun _ => trivial⟩
  tight := law.congruent
  loose := law.loose.congruent
  loosen := law.loosen
  read each _ := law.bind law.get each
  bindName := law.bindName
  recordNode _ := law.recordNode _
  overflow := law.overflow
  resolving := law.resolving
  functionSignature := law.functionSignature
  inBlock := law.inBlock
  withRecording := law.withRecording
  counting := law.counting
  inGroup := law.inGroup

/-- **What steps are made of tells what holds of all of them.** -/
theorem ofDepth (levels : Nat) : (Walker.ofDepth ctx levels).All P := by
  have walks := law.twins.ofDepth levels
  exact ⟨fun n => walks.eval (b := true) (n := n) trivial,
    fun n => walks.exec (b := true) (n := n) trivial⟩

variable {w : Walker} (walks : w.All P)

include walks

theorem functionBody (n : Node) : P _ (do
    Inference.bindSignature ctx n
    (n.child? .body).forM w.visitParts) :=
  law.twins.functionBody (walks.twins w) (b := true) trivial

theorem varTypes (spec : Node) : P _ (varTypes ctx w spec) :=
  law.twins.varTypes (walks.twins w) (b := true) trivial

theorem constTypes (spec : Node) (iota : Nat) (previous : Option ConstShape) :
    L _ (constTypes ctx w spec iota previous) :=
  law.twins.constTypes (walks.twins w) (b := true) iota (fun _ _ => trivial) fun _ _ _ _ => trivial

/-- A statement with a block of its own is a step in a block. -/
theorem exists_inBlock (n : Node) (opens : opensBlock n.kind = true) :
    ∃ m, P Unit m ∧ Inference.execStep ctx w n = Inference.inBlock m := by
  obtain ⟨m, _, inside, isBlock, -⟩ :=
    law.twins.exists_inBlock (walks.twins (w.on .same)) (b := true) trivial opens
  exact ⟨m, inside, isBlock⟩

end StepLaw

end Inference

end GomegaLint
