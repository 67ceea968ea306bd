import Mathlib
import GomegaLint.Proofs.Inference.Steps

/-!
# Blocks that are open during inference

Every step of inference closes the blocks that it opens and switches the recording of
types back: behind it the blocks around the innermost one are what they were
(`Inference.Keeps`).  The innermost block may have got new names.
-/

namespace GomegaLint

namespace Inference

/-- A state behind a walk that started in the first one. -/
structure State.Within (s s' : State) : Prop where
  some_block : s'.frames ≠ []
  outer : s'.frames.tail = s.frames.tail
  recording : s'.recording = s.recording

namespace State.Within

theorem refl {s : State} (some_block : s.frames ≠ []) : s.Within s := ⟨some_block, rfl, rfl⟩

theorem trans {s s' s'' : State} (first : s.Within s') (second : s'.Within s'') : s.Within s'' :=
  ⟨second.some_block, second.outer.trans first.outer, second.recording.trans first.recording⟩

/-- There are as many blocks as before. -/
theorem length_frames {s s' : State} (some_block : s.frames ≠ []) (within : s.Within s') :
    s'.frames.length = s.frames.length := by
  have tails := congrArg List.length within.outer
  have before := List.length_pos_iff.mpr some_block
  have behind := List.length_pos_iff.mpr within.some_block
  rw [List.length_tail, List.length_tail] at tails
  omega

/-- Binding a name changes the innermost block. -/
theorem bind {s : State} (some_block : s.frames ≠ []) (name : String) (t : Option Typed) :
    s.Within (s.bind name t) := by
  unfold State.bind
  split
  · exact refl some_block
  · split
    · rename_i frames
      exact ⟨by simp, by simp [frames], rfl⟩
    · exact refl some_block

theorem record {s : State} (some_block : s.frames ≠ []) (n : Node) (t : Option Typed) :
    s.Within (s.record n t) := by
  unfold State.record
  split
  · split
    · exact ⟨some_block, rfl, rfl⟩
    · exact refl some_block
  · exact refl some_block

/-- Closing the block that was opened leaves the blocks from before. -/
theorem frames_pop {s s' : State} (some_block : s.frames ≠ []) (inside : s.push.Within s') :
    s'.pop.frames = s.frames := by
  obtain ⟨f, fs, frames⟩ := List.exists_cons_of_ne_nil some_block
  obtain ⟨g, gs, frames'⟩ := List.exists_cons_of_ne_nil inside.some_block
  have outer := inside.outer
  rw [frames', State.push, List.tail_cons, List.tail_cons, frames] at outer
  subst outer
  simp [State.pop, frames', frames]

theorem pop {s s' : State} (some_block : s.frames ≠ []) (inside : s.push.Within s') :
    s.Within s'.pop := by
  have frames := frames_pop some_block inside
  have recording : s'.pop.recording = s'.recording := by
    unfold State.pop
    split <;> rfl
  exact ⟨frames ▸ some_block, congrArg List.tail frames, recording.trans inside.recording⟩

end State.Within

/-- The step leaves the blocks around the innermost one, and the recording, as they were. -/
def Keeps {α : Type} (m : InferM α) : Prop := ∀ s : State, s.frames ≠ [] → s.Within (m s).2

namespace Keeps

variable {α β : Type}

theorem pure (a : α) : Keeps (Pure.pure a) := fun _ => .refl

theorem bind {m : InferM α} {f : α → InferM β} (first : Keeps m) (second : ∀ a, Keeps (f a)) :
    Keeps (m >>= f) := fun s some_block =>
  (first s some_block).trans (second _ _ (first s some_block).some_block)

/-- A change of anything but the blocks and the recording. -/
theorem modifying {f : State → State} (frames : ∀ s, (f s).frames = s.frames)
    (recording : ∀ s, (f s).recording = s.recording) : Keeps (modify f) :=
  fun s some_block => ⟨(frames s).symm ▸ some_block, congrArg List.tail (frames s), recording s⟩

theorem counting (iota : Option Int) : Keeps (modify ({ · with iota := iota })) :=
  .modifying (fun _ => rfl) fun _ => rfl

theorem inBlock {m : InferM α} (inside : Keeps m) : Keeps (Inference.inBlock m) :=
  fun _ some_block => .pop some_block (inside _ (by simp [State.push]))

/-- A step in a block of its own leaves all blocks as they were. -/
theorem frames_inBlock {m : InferM α} (inside : Keeps m) {s : State} (some_block : s.frames ≠ []) :
    (Inference.inBlock m s).2.frames = s.frames :=
  State.Within.frames_pop some_block (inside _ (by simp [State.push]))

theorem withRecording {on : Bool} {m : InferM α} (keeps : Keeps m) :
    Keeps (Inference.withRecording on m) := fun s some_block =>
  have inside := keeps { s with recording := on } some_block
  ⟨inside.some_block, inside.outer, rfl⟩

theorem resolving (m : TypeM α) : Keeps (Inference.resolving m) :=
  fun _ some_block => ⟨some_block, rfl, rfl⟩

theorem functionSignature (ctx : FileContext) (f : FunctionDecl) :
    Keeps (functionSignature ctx f) := by
  refine .bind (fun _ => .refl) fun s => ?_
  split
  · exact .pure _
  · exact .bind (.resolving _) fun _ =>
      .bind (.modifying (fun _ => rfl) fun _ => rfl) fun _ => .pure _

theorem composes : Composes fun _ => Keeps := ⟨.pure, .bind⟩

end Keeps

/-- The blocks are kept by what steps are made of. -/
theorem keepsLaw (ctx : FileContext) : StepLaw ctx (fun _ => Keeps) fun _ => Keeps where
  toComposes := Keeps.composes
  loose := Keeps.composes
  loosen := id
  get _ := .refl
  bindName name t _ some_block := .bind some_block name t
  recordNode n t _ some_block := .record some_block n t
  overflow := .modifying (fun _ => rfl) fun _ => rfl
  resolving _ := .resolving _
  functionSignature _ := .functionSignature ctx _
  inBlock := .inBlock
  withRecording _ := .withRecording
  counting := .counting
  inGroup inside := .bind (fun _ => .refl) fun _ => .bind (.counting _) fun _ =>
    .bind inside fun _ => .counting _

section

variable {ctx : FileContext} {w : Walker} (walks : w.All fun _ => Keeps)

include walks

theorem keeps_varTypes (spec : Node) : Keeps (varTypes ctx w spec) :=
  (keepsLaw ctx).varTypes walks spec

theorem keeps_constTypes (spec : Node) (iota : Nat) (previous : Option ConstShape) :
    Keeps (constTypes ctx w spec iota previous) :=
  (keepsLaw ctx).constTypes walks spec iota previous

end

/-- **Walks of any depth keep the blocks around the innermost one.** -/
theorem keeps_ofDepth (ctx : FileContext) (levels : Nat) :
    (Walker.ofDepth ctx levels).All fun _ => Keeps :=
  (keepsLaw ctx).ofDepth levels

end Inference

end GomegaLint
