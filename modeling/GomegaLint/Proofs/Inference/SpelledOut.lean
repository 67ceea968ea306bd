import Mathlib
import GomegaLint.Proofs.Inference.Twins

/-!
# Spelling out repeated constants

A constant specification without values repeats those of the last one that has them, with a counter
of its own.  `Node.spellOut` gives it a copy of them.  Walking what is spelled out is walking each
specification by itself (`execSpecs_spellOutFrom`).  It leaves behind what walking the repetitions
does, but for what is entered (`alike_spellOutFrom`).
-/

namespace GomegaLint

namespace Node

/-- What a specification says of its names: the type, the sign behind it and the values. -/
def isDefinition (c : Node) : Bool :=
  match c.label.field with
  | some .type | some .value => true
  | some _ => false
  | none => c.isToken "="

/-- The specification with a copy of what another one says of its names. -/
def repeating (spec source : Node) (f : Relabelling) : Node :=
  .branch spec.label <|
    spec.children.filter (!·.isDefinition) ++ (source.children.filter isDefinition).map (relabel f)

/-- The last specification with values, up to this one. -/
def latest (last : Option Node) (spec : Node) : Option Node :=
  if (spec.child? .value).isSome then some spec else last

/-- A specification without values gets a copy of what the last one with values says. -/
def spelled (f : Relabelling) (last : Option Node) (spec : Node) : Node :=
  if (spec.child? .value).isSome then spec else last.elim spec fun source => spec.repeating source f

/-- Spell out the constant specifications of a row from the `i`-th on.  The `i`-th relabelling makes
the copy in the `i`-th one. -/
def spellOutFrom (copies : Nat → Relabelling) (i : Nat) (last : Option Node) :
    List Node → List Node
  | [] => []
  | spec :: specs =>
    if spec.kind = .constSpec then
      spec.spelled (copies i) last :: spellOutFrom copies (i + 1) (spec.latest last) specs
    else spec :: spellOutFrom copies i last specs

/-- The declaration in which every repetition is spelled out. -/
def spellOut (copies : Nat → Relabelling) (n : Node) : Node :=
  .branch n.label (spellOutFrom copies 0 none n.children)

section

variable (spec source : Node) (f : Relabelling)

theorem childrenAs_repeating :
    (spec.repeating source f).childrenAs .name = spec.childrenAs .name := by
  have named (c : Node) (inRole : c.label.field = some .name) : c.isDefinition = false := by
    rw [isDefinition, inRole]
  have front : (spec.children.filter (!·.isDefinition)).filter (·.label.field == some .name) =
      spec.childrenAs .name := by
    rw [List.filter_filter, childrenAs]
    refine List.filter_congr fun c _ => ?_
    cases inRole : c.label.field == some .name with
    | false => rfl
    | true => simp [named c (beq_iff_eq.mp inRole)]
  have back : ((source.children.filter isDefinition).map (relabel f)).filter
      (·.label.field == some .name) = [] := by
    rw [filter_relabel f fun c => by rw [field_relabel], List.filter_filter, List.map_eq_nil_iff,
      List.filter_eq_nil_iff]
    intro c _ both
    rw [Bool.and_eq_true, beq_iff_eq] at both
    simp [named c both.1] at both
  rw [repeating, childrenAs, children, List.filter_append, front, back, List.append_nil]

theorem child?_repeating {role : Field} (definition : role = .type ∨ role = .value) :
    (spec.repeating source f).child? role = (source.relabel f).child? role := by
  have defines (c : Node) (inRole : c.label.field = some role) : c.isDefinition = true := by
    rcases definition with rfl | rfl <;> rw [isDefinition, inRole]
  have front : (spec.children.filter (!·.isDefinition)).find? (·.label.field == some role) =
      none := by
    rw [List.find?_eq_none]
    intro c member inRole
    have := defines c (beq_iff_eq.mp inRole)
    simp [this] at member
  have back : (source.children.filter isDefinition).find? (·.label.field == some role) =
      source.child? role := by
    rw [List.find?_filter, child?]
    congr 1
    funext c
    cases inRole : c.label.field == some role with
    | false => simp
    | true => simp [defines c (beq_iff_eq.mp inRole)]
  rw [repeating, child?_relabel, child?, children, List.find?_append, front, Option.none_or,
    List.find?_map, ← back]
  simp only [Function.comp_def, field_relabel]

variable (last : Option Node)

theorem kind_spelled : (spec.spelled f last).kind = spec.kind := by
  unfold spelled
  split
  · rfl
  · cases last <;> rfl

theorem childrenAs_spelled : (spec.spelled f last).childrenAs .name = spec.childrenAs .name := by
  unfold spelled
  split
  · rfl
  · cases last with
    | none => rfl
    | some source => exact spec.childrenAs_repeating source f

/-- Specifications are spelled out where they stand. -/
theorem filter_spellOutFrom (copies : Nat → Relabelling) {p : Kind → Bool}
    (constants : p .constSpec = true) (i : Nat) (cs : List Node) :
    (spellOutFrom copies i last cs).filter (fun c => p c.kind) =
      spellOutFrom copies i last (cs.filter fun c => p c.kind) := by
  induction cs generalizing i last with
  | nil => rfl
  | cons c cs ih =>
      rw [spellOutFrom, List.filter_cons]
      split
      · rename_i kind
        have kept : p c.kind = true := by rw [kind, constants]
        rw [List.filter_cons, kind_spelled, if_pos kept, if_pos kept, spellOutFrom, if_pos kind, ih]
      · rename_i kind
        rw [List.filter_cons, ih]
        split
        · rw [spellOutFrom, if_neg kind]
        · rfl

theorem parts_spellOut (copies : Nat → Relabelling) (n : Node) :
    (n.spellOut copies).parts = spellOutFrom copies 0 none n.parts := by
  have parts (n : Node) : n.parts =
      (n.children.filter fun c => c.kind != .token).filter fun c => !(c.kind == .comment) := rfl
  rw [parts, parts, spellOut, children, filter_spellOutFrom none copies (p := (· != .token)) rfl,
    filter_spellOutFrom none copies (p := (!· == .comment)) rfl]

end

end Node

namespace Inference

theorem ConstShape.ofSpec?_repeating (spec source : Node) (f : Relabelling) :
    ofSpec? (spec.repeating source f) = (ofSpec? source).map (ConstShape.relabel f) := by
  rw [← ofSpec?_relabel, ofSpec?, ofSpec?, Node.child?_repeating spec source f (.inl rfl),
    Node.child?_repeating spec source f (.inr rfl)]

theorem ConstShape.relabel_same (shape : ConstShape) : shape.relabel .same = shape := by
  rw [ConstShape.relabel, Node.map_relabel_same, funext Node.relabel_same, Option.map_id']

/-! ## Each specification by itself -/

/-- Walk a specification at its place in a group. -/
def execSpec (ctx : FileContext) (w : Walker) (i : Nat) (previous : Option ConstShape)
    (spec : Node) : InferM Unit :=
  match spec.kind with
  | .varSpec => execVarSpec ctx w spec
  | .constSpec => execConstSpec ctx w spec i previous
  | _ => return ()

/-- The counter behind a specification. -/
def countBehind (i : Nat) (spec : Node) : Nat := if spec.kind = .constSpec then i + 1 else i

/-- What is repeated behind a specification. -/
def shapeBehind (previous : Option ConstShape) (spec : Node) : Option ConstShape :=
  if spec.kind = .constSpec then (ConstShape.ofSpec? spec).or previous else previous

/-- The specifications of a row with the counter of each. -/
def counted (i : Nat) : List Node → List (Node × Nat)
  | [] => []
  | spec :: specs => (spec, i) :: counted (countBehind i spec) specs

/-- Walk a specification that repeats no other. -/
def execAlone (ctx : FileContext) (w : Walker) (spec : Node × Nat) : InferM Unit :=
  execSpec ctx w spec.2 none spec.1

section

variable (ctx : FileContext) (w : Walker)

theorem execSpecs_cons (i : Nat) (previous : Option ConstShape) (spec : Node) (specs : List Node) :
    execSpecs ctx w i previous (spec :: specs) = execSpec ctx w i previous spec >>= fun _ =>
      execSpecs ctx w (countBehind i spec) (shapeBehind previous spec) specs := by
  unfold execSpec countBehind shapeBehind
  rw [execSpecs]
  split
  · rename_i kind
    simp [kind]
  · rename_i kind
    simp [kind]
  · rename_i kind
    have other : ¬ spec.kind = .constSpec := kind
    simp [other]

theorem execSpecs_append (i : Nat) (previous : Option ConstShape) (front behind : List Node) :
    execSpecs ctx w i previous (front ++ behind) = execSpecs ctx w i previous front >>= fun _ =>
      execSpecs ctx w (front.foldl countBehind i) (front.foldl shapeBehind previous) behind := by
  induction front generalizing i previous with
  | nil => rfl
  | cons spec front ih =>
      rw [List.cons_append, execSpecs_cons, execSpecs_cons]
      simp only [ih, bind_assoc, List.foldl_cons]

end

theorem foldl_countBehind (specs : List Node) (i : Nat) :
    specs.foldl countBehind i = i + specs.countP (·.kind == .constSpec) := by
  induction specs generalizing i with
  | nil => rfl
  | cons spec specs ih =>
      rw [List.foldl_cons, ih, List.countP_cons, countBehind]
      simp only [beq_iff_eq]
      split <;> omega

/-- What is found of the type and the values of a specification, with the recording on or off. -/
def evalShape (ctx : FileContext) (w : Walker) (i : Nat) (on : Bool) (shape : ConstShape) :
    InferM (Option GoType × List (Option Typed)) := do
  modify ({ · with iota := some (i : Int) })
  let declared ← match shape.type with
    | some t => resolving (ctx.resolve t)
    | none => pure none
  let types ← withRecording on (shape.values.mapM w.eval)
  return (declared, types)

section

variable {ctx : FileContext} {w : Walker} {spec : Node}

theorem constTypes_eq (i : Nat) (previous : Option ConstShape) :
    constTypes ctx w spec i previous =
      evalShape ctx w i ((ConstShape.ofSpec? spec).isSome || previous.isNone)
        (constShape spec previous) :=
  rfl

/-- A specification with values does not depend on those before it. -/
theorem constTypes_own {shape : ConstShape} (own : ConstShape.ofSpec? spec = some shape) (i : Nat)
    (previous : Option ConstShape) :
    constTypes ctx w spec i previous = evalShape ctx w i true shape := by
  rw [constTypes_eq, constShape, own]
  rfl

theorem execConstSpec_own (own : (ConstShape.ofSpec? spec).isSome) (i : Nat)
    (previous : Option ConstShape) :
    execConstSpec ctx w spec i previous = execConstSpec ctx w spec i none := by
  obtain ⟨shape, own⟩ := Option.isSome_iff_exists.mp own
  rw [execConstSpec_eq, execConstSpec_eq, constTypes_own own, constTypes_own own]

end

section

variable {spec : Node} {last : Option Node} {previous : Option ConstShape}

theorem ConstShape.ofSpec?_latest (spec : Node) (last : Option Node) :
    (spec.latest last).bind ofSpec? = (ofSpec? spec).or (last.bind ofSpec?) := by
  unfold Node.latest
  cases value : spec.child? .value with
  | none => simp [ofSpec?, value]
  | some v => simp [ofSpec?, value]

/-- The specification that is repeated has values. -/
theorem isSome_ofSpec?_latest (spec : Node)
    (given : ∀ source ∈ last, (ConstShape.ofSpec? source).isSome) :
    ∀ source ∈ spec.latest last, (ConstShape.ofSpec? source).isSome := by
  intro source member
  unfold Node.latest at member
  split at member
  · rename_i value
    rw [← Option.some.inj member, ConstShape.ofSpec?, Option.isSome_map]
    exact value
  · exact given source member

/-- Up to here no specification has values. -/
theorem spelled_first (f : Relabelling) (first : spec.latest last = none) :
    last = none ∧ spec.spelled f last = spec ∧ ConstShape.ofSpec? spec = none := by
  unfold Node.latest at first
  split at first
  · cases first
  · rename_i value
    rw [Bool.not_eq_true, Option.isSome_eq_false_iff, Option.isNone_iff_eq_none] at value
    simp [Node.spelled, ConstShape.ofSpec?, value, first]

/-- Where no specification has values, there is nothing to repeat behind it either. -/
theorem spelled_repeats_nothing (spec : Node) (f : Relabelling)
    (first : last = none → previous = none) :
    spec.latest last = none → (ConstShape.ofSpec? (spec.spelled f last)).or previous = none := by
  intro none
  obtain ⟨noLast, spelled, noValues⟩ := spelled_first f none
  rw [spelled, noValues, first noLast]
  rfl

/-- A specification that is spelled out has values. -/
theorem isSome_ofSpec?_spelled (f : Relabelling)
    (given : ∀ source ∈ last, (ConstShape.ofSpec? source).isSome)
    (notFirst : spec.latest last ≠ none) : (ConstShape.ofSpec? (spec.spelled f last)).isSome := by
  unfold Node.spelled
  unfold Node.latest at notFirst
  split
  · rename_i value
    rw [ConstShape.ofSpec?, Option.isSome_map]
    exact value
  · rename_i noValue
    rw [if_neg noValue] at notFirst
    obtain ⟨source, isLast⟩ := Option.ne_none_iff_exists'.mp notFirst
    rw [isLast, Option.elim_some, ConstShape.ofSpec?_repeating, Option.isSome_map]
    exact given source isLast

/-- Walking what is spelled out is walking each specification by itself. -/
theorem execSpecs_spellOutFrom (ctx : FileContext) (w : Walker) (copies : Nat → Relabelling)
    (specs : List Node) (i : Nat)
    (given : ∀ source ∈ last, (ConstShape.ofSpec? source).isSome)
    (first : last = none → previous = none) :
    execSpecs ctx w i previous (Node.spellOutFrom copies i last specs) =
      (counted i (Node.spellOutFrom copies i last specs)).forM (execAlone ctx w) := by
  induction specs generalizing i last previous with
  | nil => rfl
  | cons spec specs ih =>
      rw [Node.spellOutFrom]
      split
      · rename_i kind
        have kind' := (Node.kind_spelled spec (copies i) last).trans kind
        have alone : execConstSpec ctx w (spec.spelled (copies i) last) i previous =
            execConstSpec ctx w (spec.spelled (copies i) last) i none := by
          by_cases none : spec.latest last = none
          · rw [first (spelled_first (copies i) none).1]
          · exact execConstSpec_own (isSome_ofSpec?_spelled (copies i) given none) i previous
        rw [execSpecs_cons, counted, countBehind, shapeBehind, if_pos kind', if_pos kind',
          ih (i + 1) (isSome_ofSpec?_latest spec given)
            (spelled_repeats_nothing spec (copies i) first), execSpec, kind', alone]
        show _ = execAlone ctx w (spec.spelled (copies i) last, i) >>= fun _ => _
        rw [execAlone, execSpec, kind']
      · rename_i kind
        have alone : execSpec ctx w i previous spec = execSpec ctx w i none spec := by
          unfold execSpec
          split
          · rfl
          · contradiction
          · rfl
        rw [execSpecs_cons, counted, countBehind, shapeBehind, if_neg kind, if_neg kind,
          ih i given first, alone]
        rfl

theorem execSpecs_spellOut (ctx : FileContext) (w : Walker) (copies : Nat → Relabelling)
    (specs : List Node) :
    execSpecs ctx w 0 none (Node.spellOutFrom copies 0 none specs) =
      (counted 0 (Node.spellOutFrom copies 0 none specs)).forM (execAlone ctx w) :=
  execSpecs_spellOutFrom ctx w copies specs 0 (fun _ none => by cases none) fun _ => rfl

end

/-! ## The same but for what is entered -/

/-- Both steps find the same and leave the same behind, whatever was entered before. -/
def Alike {α : Type} (m m' : InferM α) : Prop :=
  ∀ s s' : State, s.bare = s'.bare → (m s).1 = (m' s').1 ∧ (m s).2.bare = (m' s').2.bare

namespace Alike

variable {α : Type}

theorem congruent : Congruent fun α (m m' : InferM α) => Alike m m' where
  pure _ _ _ same := ⟨rfl, same⟩
  bind {_ _ m m' k k'} first second s s' same := by
    obtain ⟨found, behind⟩ := first s s' same
    show (k (m s).1 (m s).2).1 = (k' (m' s').1 (m' s').2).1 ∧
      (k (m s).1 (m s).2).2.bare = (k' (m' s').1 (m' s').2).2.bare
    rw [← found]
    exact second (m s).1 (m s).2 (m' s').2 behind

theorem read {k k' : State → InferM α} (each : ∀ s, Alike (k s) (k' s))
    (bare : ∀ s, k' s.bare = k' s) : Alike (get >>= k) (get >>= k') := by
  intro s s' same
  have reads : k' s' = k' s := by rw [← bare s', ← same, bare s]
  have step := each s s s' same
  rw [← reads] at step
  exact step

/-- A change that does not look at what was entered. -/
theorem modifying {g : State → State} (bare : ∀ s, (g s.bare).bare = (g s).bare) :
    Alike (modify g) (modify g) := by
  intro s s' same
  refine ⟨rfl, ?_⟩
  show (g s).bare = (g s').bare
  rw [← bare s, same, bare s']

theorem resolving (m : TypeM α) : Alike (resolving m) (resolving m) := by
  intro s s' same
  have types : s.bare.types = s'.bare.types := congrArg State.types same
  show (m s.bare.types).1 = (m s'.bare.types).1 ∧
    { s.bare with types := (m s.bare.types).2 } = { s'.bare with types := (m s'.bare.types).2 }
  rw [types, same]
  exact ⟨rfl, rfl⟩

theorem withRecording {m m' : InferM α} (alike : Alike m m') (on on' : Bool) :
    Alike (withRecording on m) (withRecording on' m') := fun s s' same =>
  alike { s with recording := on } { s' with recording := on' } same

theorem functionSignature (ctx : FileContext) (g : FunctionDecl) :
    Alike (functionSignature ctx g) (functionSignature ctx g) := by
  refine read (fun s => ?_) fun _ => rfl
  split
  · exact congruent.pure _
  · exact congruent.bind (resolving _) fun _ =>
      congruent.bind (modifying fun _ => rfl) fun _ => congruent.pure _

end Alike

/-- A walk into a tree and one into a copy of it differ only in what they enter. -/
theorem alikeLaw (ctx : FileContext) (f : Relabelling) :
    TwinLaw ctx f (fun _ _ => True) (fun _ _ => Alike) fun _ _ => Alike where
  nodes := ⟨fun _ _ => trivial, fun _ _ _ _ => trivial, fun _ => trivial⟩
  tight := Alike.congruent
  loose := Alike.congruent
  loosen := id
  read := Alike.read
  bindName name t := by
    refine Alike.modifying fun s => ?_
    unfold State.bind
    split
    · rfl
    · cases frames : s.frames <;> simp [State.bare, frames]
  recordNode {_ n} _ t := by
    have unseen (n : Node) (s : State) : (s.record n t).bare = s.bare := by
      unfold State.record
      split
      · split <;> rfl
      · rfl
    intro s s' same
    refine ⟨rfl, ?_⟩
    show (s.record n t).bare = (s'.record (n.relabel f) t).bare
    rw [unseen, unseen, same]
  overflow := Alike.modifying fun _ => rfl
  resolving _ := Alike.resolving _
  functionSignature _ := Alike.functionSignature ctx _
  inBlock inside := by
    refine Alike.congruent.bind (Alike.modifying fun _ => rfl) fun _ => Alike.congruent.bind inside
      fun _ => Alike.congruent.bind (Alike.modifying fun s => ?_) fun _ => Alike.congruent.pure _
    rcases frames : s.frames with _ | ⟨_, _ | ⟨_, _⟩⟩ <;> simp [State.pop, State.bare, frames]
  withRecording on inside := inside.withRecording on on
  counting _ := Alike.modifying fun _ => rfl
  inGroup inside := Alike.read
    (fun _ => Alike.congruent.bind (Alike.modifying fun _ => rfl) fun _ =>
      Alike.congruent.bind inside fun _ => Alike.modifying fun _ => rfl) fun _ => rfl

section

variable (ctx : FileContext) (levels : Nat)

theorem alike_eval (f : Relabelling) (n : Node) :
    Alike ((Walker.ofDepth ctx levels).eval n) ((Walker.ofDepth ctx levels).eval (n.relabel f)) :=
  ((alikeLaw ctx f).ofDepth levels).eval (b := true) trivial

/-- The values of a specification and their copies come to the same. -/
theorem alike_evalShape (f : Relabelling) (i : Nat) (on on' : Bool) (shape : ConstShape) :
    Alike (evalShape ctx (.ofDepth ctx levels) i on shape)
      (evalShape ctx (.ofDepth ctx levels) i on' (shape.relabel f)) := by
  have values (declared : Option GoType) : Alike
      (do
        let types ← withRecording on (shape.values.mapM (Walker.ofDepth ctx levels).eval)
        return (declared, types))
      (do
        let types ← withRecording on'
          ((shape.values.map (Node.relabel f)).mapM (Walker.ofDepth ctx levels).eval)
        return (declared, types)) := by
    rw [List.mapM_map]
    have alike := Alike.congruent.mapM fun v (_ : v ∈ shape.values) => alike_eval ctx levels f v
    exact Alike.congruent.bind (alike.withRecording on on') fun _ => Alike.congruent.pure _
  refine Alike.congruent.bind (Alike.modifying fun _ => rfl) fun _ => ?_
  unfold ConstShape.relabel
  cases shape.type with
  | none => exact Alike.congruent.bind (Alike.congruent.pure none) values
  | some t =>
      simp only [Option.map_some, FileContext.resolve_relabel]
      exact Alike.congruent.bind (Alike.resolving _) values

/-- Behind values that come to the same, the names are declared alike. -/
theorem alike_execConstSpec {spec spec' : Node} {i : Nat} {previous previous' : Option ConstShape}
    (types : Alike (constTypes ctx (.ofDepth ctx levels) spec i previous)
      (constTypes ctx (.ofDepth ctx levels) spec' i previous'))
    (names : spec'.childrenAs .name = spec.childrenAs .name) :
    Alike (execConstSpec ctx (.ofDepth ctx levels) spec i previous)
      (execConstSpec ctx (.ofDepth ctx levels) spec' i previous') := by
  rw [execConstSpec_eq, execConstSpec_eq, names]
  refine Alike.congruent.bind types fun r =>
    Alike.congruent.bind ?_ fun _ => Alike.modifying fun _ => rfl
  have declared : Alike (declareInTurn (constGiven r.1 r.2) (spec.childrenAs .name))
      (declareInTurn (constGiven r.1 r.2) ((spec.childrenAs .name).map (Node.relabel .same))) :=
    (alikeLaw ctx .same).declareInTurn (b := true) _ fun _ _ => trivial
  rwa [Node.map_relabel_same] at declared

theorem alike_execVarSpec (spec : Node) :
    Alike (execVarSpec ctx (.ofDepth ctx levels) spec)
      (execVarSpec ctx (.ofDepth ctx levels) spec) := by
  have walks := (alikeLaw ctx .same).ofDepth levels
  have alike := (alikeLaw ctx .same).execVarSpec walks (b := true) (n := spec) trivial
  rwa [Node.relabel_same] at alike

theorem alike_evalShape_self (i : Nat) (shape : ConstShape) :
    Alike (evalShape ctx (.ofDepth ctx levels) i true shape)
      (evalShape ctx (.ofDepth ctx levels) i true shape) := by
  have alike := alike_evalShape ctx levels .same i true true shape
  rwa [ConstShape.relabel_same] at alike

/-- A repetition comes to the same as the specification that is spelled out. -/
theorem alike_spelled {last : Option Node} {previous : Option ConstShape} (f : Relabelling)
    (spec : Node) (i : Nat) (given : ∀ source ∈ last, (ConstShape.ofSpec? source).isSome)
    (first : last = none → previous = none) :
    Alike (execConstSpec ctx (.ofDepth ctx levels) spec i (last.bind ConstShape.ofSpec?))
      (execConstSpec ctx (.ofDepth ctx levels) (spec.spelled f last) i previous) := by
  refine alike_execConstSpec ctx levels ?_ (spec.childrenAs_spelled f last)
  cases value : spec.child? .value with
  | some v =>
      have own : ConstShape.ofSpec? spec = some ⟨spec.child? .type, v.listed⟩ := by
        rw [ConstShape.ofSpec?, value, Option.map_some]
      have spelled : spec.spelled f last = spec := by simp [Node.spelled, value]
      rw [spelled, constTypes_own own, constTypes_own own]
      exact alike_evalShape_self ctx levels i _
  | none =>
      have own : ConstShape.ofSpec? spec = none := by
        rw [ConstShape.ofSpec?, value, Option.map_none]
      cases last with
      | none =>
          have spelled : spec.spelled f none = spec := by simp [Node.spelled, value]
          rw [spelled, first rfl, constTypes_eq, constTypes_eq, own]
          exact alike_evalShape_self ctx levels i _
      | some source =>
          obtain ⟨shape, values⟩ := Option.isSome_iff_exists.mp (given source rfl)
          have spelled : spec.spelled f (some source) = spec.repeating source f := by
            simp [Node.spelled, value]
          have copied := ConstShape.ofSpec?_repeating spec source f
          rw [values, Option.map_some] at copied
          -- Only here do the two sides differ: the recording is off on the left, on on the right.
          rw [spelled, constTypes_own copied, constTypes_eq, constShape, own, Option.bind_some,
            values]
          exact alike_evalShape ctx levels f i false true shape

theorem alike_spellOutFrom {last : Option Node} {previous : Option ConstShape}
    (copies : Nat → Relabelling) (specs : List Node) (i : Nat)
    (given : ∀ source ∈ last, (ConstShape.ofSpec? source).isSome)
    (first : last = none → previous = none) :
    Alike (execSpecs ctx (.ofDepth ctx levels) i (last.bind ConstShape.ofSpec?) specs)
      (execSpecs ctx (.ofDepth ctx levels) i previous
        (Node.spellOutFrom copies i last specs)) := by
  -- On the left what `last` says is repeated.  On the right nothing is: a specification has values
  -- of its own as soon as there are some to repeat.
  induction specs generalizing i last previous with
  | nil => exact Alike.congruent.pure ()
  | cons spec specs ih =>
      rw [Node.spellOutFrom]
      split
      · rename_i kind
        have kind' := (Node.kind_spelled spec (copies i) last).trans kind
        have here := alike_spelled ctx levels (copies i) spec i given first
        have behind := ih (i + 1) (isSome_ofSpec?_latest spec given)
          (spelled_repeats_nothing spec (copies i) first)
        rw [ConstShape.ofSpec?_latest] at behind
        rw [execSpecs_cons, execSpecs_cons, execSpec, execSpec, kind, kind', countBehind,
          countBehind, shapeBehind, shapeBehind, if_pos kind, if_pos kind, if_pos kind',
          if_pos kind']
        exact Alike.congruent.bind here fun _ => behind
      · rename_i kind
        rw [execSpecs_cons, execSpecs_cons, countBehind, shapeBehind, shapeBehind, if_neg kind,
          if_neg kind, if_neg kind]
        refine Alike.congruent.bind ?_ fun _ => ih i given first
        unfold execSpec
        split
        · exact alike_execVarSpec ctx levels spec
        · contradiction
        · exact Alike.congruent.pure ()

/-- **A group and what is spelled out come to the same, but for what is entered.** -/
theorem alike_spellOut (copies : Nat → Relabelling) (specs : List Node) :
    Alike (execSpecs ctx (.ofDepth ctx levels) 0 none specs)
      (execSpecs ctx (.ofDepth ctx levels) 0 none (Node.spellOutFrom copies 0 none specs)) :=
  alike_spellOutFrom ctx levels copies specs 0 (fun _ none => by cases none) fun _ => rfl

end

end Inference

end GomegaLint
