import Mathlib
import GomegaLint.Proofs.Inference.Scopes
import GomegaLint.Proofs.Inference.Entanglement

/-!
# What a walk leaves behind

A walk leaves the open blocks as many as they were and all but the innermost as they were, and it
leaves the counter of constants and the recording of types; a statement with a block of its own
leaves all blocks (`Inference.frames_exec`).  So a name that is bound means the same behind such a
statement as before it, and so does one that is bound nowhere, but for this: the types that the
statement asked for are known behind it.  What is known can tell in the signature of a declared
function that was not asked for before, if types defined by each other are within its reach
(`Inference.blocks_restored`).
-/

namespace GomegaLint

/-- All types that a function is written with settle. -/
def FileContext.ShapeSettles (ctx : FileContext) (f : FunctionShape) : Prop :=
  ∀ c ∈ f.parts, ∀ name, c.Mentions name → ctx.Settles name

theorem Declarations.name_of_function? {d : Declarations} {name : String} {f : FunctionDecl}
    (declared : d.function? name = some f) : f.name = name := by
  simpa using List.find?_some declared

namespace Inference

/-! ## The parts of a state -/

namespace State

/-- Binding changes the blocks only. -/
theorem exists_bind_eq (s : State) (name : String) (t : Option Typed) :
    ∃ frames, s.bind name t = { s with frames } := by
  unfold State.bind
  split
  · exact ⟨_, rfl⟩
  · split <;> exact ⟨_, rfl⟩

theorem exists_pop_eq (s : State) : ∃ frames, s.pop = { s with frames } := by
  unfold State.pop
  split <;> exact ⟨_, rfl⟩

/-- Entering a type changes the table only. -/
theorem exists_record_eq (s : State) (n : Node) (t : Option Typed) :
    ∃ table, s.record n t = { s with table } := by
  unfold State.record
  split
  · split <;> exact ⟨_, rfl⟩
  · exact ⟨_, rfl⟩

end State

/-! ## Signatures of declared functions -/

section

variable {ctx : FileContext} {f : FunctionDecl} {s : State}

theorem functionSignature_known {t : Option GoType} (known : s.signatures.lookup f.name = some t) :
    functionSignature ctx f s = (t, s) := by
  simp only [functionSignature, bind, StateT.bind, get, getThe, MonadStateOf.get, StateT.get, pure,
    known]
  rfl

theorem functionSignature_asked (unknown : s.signatures.lookup f.name = none) :
    let r := (FileContext.signatureOf ctx.resolve f.shape).run s.types
    functionSignature ctx f s =
      (r.1, { s with types := r.2, signatures := (f.name, r.1) :: s.signatures }) := by
  simp only [functionSignature, bind, StateT.bind, get, getThe, MonadStateOf.get, StateT.get, pure,
    unknown]
  rfl

end

/-! ## The counter of constants -/

/-- The step leaves the counter of constants as it was. -/
def KeepsCounter {α : Type} (m : InferM α) : Prop := ∀ s : State, (m s).2.iota = s.iota

theorem KeepsCounter.bind {α β : Type} {m : InferM α} {f : α → InferM β} (first : KeepsCounter m)
    (second : ∀ a, KeepsCounter (f a)) : KeepsCounter (m >>= f) :=
  fun s => (second _ _).trans (first s)

/-- A group sets the counter to what it was, whatever was done with it inside. -/
theorem counterLaw (ctx : FileContext) :
    StepLaw ctx (fun _ => KeepsCounter) fun _ _ => True where
  pure _ _ := rfl
  bind := .bind
  loose := ⟨fun _ => trivial, fun _ _ => trivial⟩
  loosen _ := trivial
  get _ := rfl
  bindName name t s := by
    obtain ⟨frames, bound⟩ := s.exists_bind_eq name t
    change (s.bind name t).iota = s.iota
    rw [bound]
  recordNode n t s := by
    obtain ⟨table, recorded⟩ := s.exists_record_eq n t
    change (s.record n t).iota = s.iota
    rw [recorded]
  overflow _ := rfl
  resolving _ _ := rfl
  functionSignature {_ f} _ s := by
    cases lookup : s.signatures.lookup f.name with
    | some t => rw [functionSignature_known lookup]
    | none => rw [functionSignature_asked lookup]
  inBlock {_ m} inside s := by
    obtain ⟨frames, popped⟩ := (m s.push).2.exists_pop_eq
    change (m s.push).2.pop.iota = s.push.iota
    rw [popped]
    exact inside s.push
  withRecording on inside s := inside { s with recording := on }
  counting _ := trivial
  inGroup _ _ := rfl

/-! ## What is known of declared types and functions -/

/-- What was known of types and of functions is still known, and what is new of the settled ones is
what they denoted at first. -/
structure State.Recalls (ctx : FileContext) (base s : State) : Prop where
  types : ctx.AtRest base.types s.types
  kept : ∀ name t, base.signatures.lookup name = some t → s.signatures.lookup name = some t
  settled : ∀ name f t, ctx.declarations.function? name = some f → ctx.ShapeSettles f.shape →
    s.signatures.lookup name = some t → t = (functionSignature ctx f base).1

namespace State.Recalls

variable {ctx : FileContext} {base s s' : State}

theorem refl (base : State) : State.Recalls ctx base base where
  types := .refl _
  kept _ _ := id
  settled name f t declared _ known := by
    rw [← Declarations.name_of_function? declared] at known
    rw [functionSignature_known known]

theorem congr (recalls : State.Recalls ctx base s) (types : s'.types = s.types)
    (signatures : s'.signatures = s.signatures) : State.Recalls ctx base s' where
  types := types ▸ recalls.types
  kept := signatures ▸ recalls.kept
  settled := signatures ▸ recalls.settled

/-- The signature of a function whose types settle is the same in all states in between. -/
theorem signatureOf_eq (recalls : State.Recalls ctx base s) {f : FunctionShape}
    (settles : ctx.ShapeSettles f) :
    ((FileContext.signatureOf ctx.resolve f).run s.types).1 =
      ((FileContext.signatureOf ctx.resolve f).run base.types).1 := by
  obtain ⟨t, same⟩ := (Fixed.congruent (ctx.AtRest base.types)).signatureOf fun c part =>
    FileContext.fixed_resolve (settles c part)
  exact (same _ recalls.types).1.trans (same _ (.refl _)).1.symm

/-- The signature of a function is entered when it is asked for. -/
theorem functionSignature (recalls : State.Recalls ctx base s) {name : String} {f : FunctionDecl}
    (declared : ctx.declarations.function? name = some f) :
    State.Recalls ctx base (functionSignature ctx f s).2 := by
  cases lookup : s.signatures.lookup f.name with
  | some t =>
      rw [functionSignature_known lookup]
      exact recalls
  | none =>
      rw [functionSignature_asked lookup]
      have isName := Declarations.name_of_function? declared
      have unknown : base.signatures.lookup f.name = none := by
        cases known : base.signatures.lookup f.name with
        | none => rfl
        | some t => cases lookup.symm.trans (recalls.kept _ t known)
      have rest := (Preserved.congruent (ctx.AtRest base.types)).signatureOf
        (f := f.shape) fun c _ => FileContext.atRest_resolve c
      refine ⟨rest _ recalls.types, fun x t known => ?_, fun x g t declared' settles known => ?_⟩
      · have other : x ≠ f.name := by rintro rfl; cases unknown.symm.trans known
        simpa [List.lookup_cons, beq_eq_false_iff_ne.mpr other] using recalls.kept x t known
      · by_cases isNew : x = f.name
        · subst isNew
          rw [isName] at declared'
          cases declared.symm.trans declared'
          simp only [List.lookup_cons, beq_self_eq_true, Option.some.injEq] at known
          rw [functionSignature_asked unknown, ← known]
          exact recalls.signatureOf_eq settles
        · simp only [List.lookup_cons, beq_eq_false_iff_ne.mpr isNew] at known
          exact recalls.settled x g t declared' settles known

end State.Recalls

/-- The step keeps what is known, seen from some state before it. -/
def Remembers (ctx : FileContext) (base : State) {α : Type} (m : InferM α) : Prop :=
  ∀ s, State.Recalls ctx base s → State.Recalls ctx base (m s).2

theorem recallsLaw (ctx : FileContext) (base : State) :
    StepLaw ctx (fun _ => Remembers ctx base) fun _ => Remembers ctx base where
  pure _ _ := id
  bind first second s recalls := second _ _ (first s recalls)
  loose := ⟨fun _ _ => id, fun first second s recalls => second _ _ (first s recalls)⟩
  loosen := id
  get _ := id
  bindName name t s recalls := by
    obtain ⟨frames, bound⟩ := s.exists_bind_eq name t
    change State.Recalls ctx base (s.bind name t)
    rw [bound]
    exact recalls.congr rfl rfl
  recordNode n t s recalls := by
    obtain ⟨table, recorded⟩ := s.exists_record_eq n t
    change State.Recalls ctx base (s.record n t)
    rw [recorded]
    exact recalls.congr rfl rfl
  overflow _ recalls := recalls.congr rfl rfl
  resolving preserved s recalls :=
    ⟨preserved base.types s.types recalls.types, recalls.kept, recalls.settled⟩
  functionSignature declared _ recalls := recalls.functionSignature declared
  inBlock {_ m} inside s recalls := by
    obtain ⟨frames, popped⟩ := (m s.push).2.exists_pop_eq
    change State.Recalls ctx base (m s.push).2.pop
    rw [popped]
    exact (inside s.push (recalls.congr rfl rfl)).congr rfl rfl
  withRecording on inside s recalls :=
    (inside { s with recording := on } (recalls.congr rfl rfl)).congr rfl rfl
  counting _ _ recalls := recalls.congr rfl rfl
  inGroup inside s recalls := (inside { s with iota := none } (recalls.congr rfl rfl)).congr rfl rfl

/-! ## Statements with a block of their own -/

section

variable (ctx : FileContext) (levels : Nat) {n : Node} {s : State} (some_block : s.frames ≠ [])

include some_block

/-- A statement with a block of its own leaves all blocks as they were. -/
theorem frames_exec (opens : opensBlock n.kind = true) :
    ((Walker.ofDepth ctx levels).exec n s).2.frames = s.frames := by
  cases levels with
  | zero => rfl
  | succ levels =>
      obtain ⟨m, inside, isBlock⟩ :=
        (keepsLaw ctx).exists_inBlock (keeps_ofDepth ctx levels) n opens
      change (execStep ctx (Walker.ofDepth ctx levels) n s).2.frames = s.frames
      rw [isBlock]
      exact inside.frames_inBlock some_block

/-- A function literal leaves all blocks as they were. -/
theorem frames_eval (literal : n.kind = .funcLiteral) :
    ((Walker.ofDepth ctx levels).eval n s).2.frames = s.frames := by
  cases levels with
  | zero => rfl
  | succ levels =>
      have inside := (keepsLaw ctx).functionBody (keeps_ofDepth ctx levels) n
      have evaluated : (evalStep ctx (Walker.ofDepth ctx levels) n s).2.frames = s.frames := by
        simp only [evalStep, literal]
        exact inside.frames_inBlock
          (s := { s with
            types := ((FileContext.signatureOf ctx.resolve (.ofNode n)).run s.types).2 })
          some_block
      obtain ⟨table, recorded⟩ :=
        (evalStep ctx (Walker.ofDepth ctx levels) n s).2.exists_record_eq n
          (evalStep ctx (Walker.ofDepth ctx levels) n s).1
      exact (congrArg State.frames recorded).trans evaluated

end

/-! ## The meaning of names -/

section

variable {ctx : FileContext} {s s' : State}

/-- What a name means depends on no type that is not yet known, but on types that settle. -/
def State.Decides (ctx : FileContext) (s : State) (name : String) : Prop :=
  ∀ f, s.lookup? name = none → ctx.declarations.function? name = some f →
    s.signatures.lookup name = none → ctx.ShapeSettles f.shape

theorem functionSignature_eq (recalls : State.Recalls ctx s s') {name : String} {f : FunctionDecl}
    (declared : ctx.declarations.function? name = some f)
    (settles : s.signatures.lookup name = none → ctx.ShapeSettles f.shape) :
    (functionSignature ctx f s').1 = (functionSignature ctx f s).1 := by
  obtain rfl := Declarations.name_of_function? declared
  cases lookup : s.signatures.lookup f.name with
  | some t =>
      rw [functionSignature_known lookup, functionSignature_known (recalls.kept _ t lookup)]
  | none =>
      cases lookup' : s'.signatures.lookup f.name with
      | some t =>
          rw [functionSignature_known lookup']
          exact recalls.settled _ f t declared (settles lookup) lookup'
      | none =>
          rw [functionSignature_asked lookup, functionSignature_asked lookup']
          exact recalls.signatureOf_eq (settles lookup)

theorem resolveName_bound {name : String} {t : Option Typed} (bound : s.lookup? name = some t) :
    (resolveName ctx name s).1 = t := by
  simp only [resolveName, bind, StateT.bind, get, getThe, MonadStateOf.get, StateT.get, pure, bound]
  rfl

theorem resolveName_function {name : String} {f : FunctionDecl} (free : s.lookup? name = none)
    (declared : ctx.declarations.function? name = some f) :
    (resolveName ctx name s).1 = (functionSignature ctx f s).1.map ofType := by
  simp only [resolveName, bind, StateT.bind, get, getThe, MonadStateOf.get, StateT.get, pure, free,
    declared]
  rfl

theorem resolveName_universe {name : String} (free : s.lookup? name = none)
    (undeclared : ctx.declarations.function? name = none) :
    (resolveName ctx name s).1 = universe? ctx s.iota name := by
  simp only [resolveName, bind, StateT.bind, get, getThe, MonadStateOf.get, StateT.get, pure, free,
    undeclared]
  rfl

variable (frames : s'.frames = s.frames)

include frames

theorem lookup?_eq (name : String) : s'.lookup? name = s.lookup? name := by
  rw [State.lookup?, State.lookup?, frames]

theorem resolveName_eq (iota : s'.iota = s.iota) (recalls : State.Recalls ctx s s') {name : String}
    (decides : s.Decides ctx name) :
    (resolveName ctx name s').1 = (resolveName ctx name s).1 := by
  have same := lookup?_eq frames name
  cases lookup : s.lookup? name with
  | some t => rw [resolveName_bound lookup, resolveName_bound (same.trans lookup)]
  | none =>
      rw [lookup] at same
      cases declared : ctx.declarations.function? name with
      | none => rw [resolveName_universe lookup declared, resolveName_universe same declared, iota]
      | some f =>
          rw [resolveName_function lookup declared, resolveName_function same declared,
            functionSignature_eq recalls declared (decides f lookup declared)]

theorem typeOfIdentifier_eq (recalls : State.Recalls ctx s s') {name : String}
    (settles : ctx.Settles name) :
    (typeOfIdentifier ctx name s').1 = (typeOfIdentifier ctx name s).1 := by
  have run (s : State) : (typeOfIdentifier ctx name s).1 =
      if s.isBound name then none
      else ((ctx.named name s.types).1).or (ctx.predeclaredType? name) := by
    simp only [typeOfIdentifier, FileContext.typeOfName, FileContext.namedType_resolveIn, bind,
      StateT.bind, get, getThe, MonadStateOf.get, StateT.get, pure]
    cases s.isBound name <;> rfl
  rw [run, run, State.isBound, State.isBound, lookup?_eq frames name,
    settles.named_eq recalls.types]

end

/-! ## Signatures that a block can change -/

/-- `{ var x type }` -/
def blockWith (type : String) : Node :=
  .construct .block
    [.sign "\x7b",
     .construct .varDeclaration
      [.sign "var",
       .construct .varSpec
        [.word .identifier "x" (some .name), .word .typeIdentifier type (some .type)]],
     .sign "\x7d"]

/-- What is known behind a block with a variable. -/
def behindBlock (ctx : FileContext) (type : String) : State :=
  ((Walker.ofDepth ctx 2).exec (blockWith type) {}).2

/-- Behind the block its type is known, and nothing of functions. -/
theorem behindBlock_known (ctx : FileContext) (type : String) :
    (behindBlock ctx type).types = (ctx.named type {}).2 ∧
      (behindBlock ctx type).signatures = [] := by
  let name : Node := .word .identifier "x" (some .name)
  let resolved := ctx.resolve (.word .typeIdentifier type (some .type)) {}
  let started : State := { State.push {} with types := resolved.2 }
  have run : ∃ t, behindBlock ctx type =
      State.pop { (started.record name t).bind "x" t with iota := none } := ⟨_, rfl⟩
  obtain ⟨t, run⟩ := run
  obtain ⟨table, recorded⟩ := started.exists_record_eq name t
  obtain ⟨frames, bound⟩ := (started.record name t).exists_bind_eq "x" t
  obtain ⟨frames', popped⟩ :=
    State.exists_pop_eq { (started.record name t).bind "x" t with iota := none }
  rw [run, popped, bound, recorded]
  refine ⟨?_, rfl⟩
  change (ctx.resolve (.word .typeIdentifier type (some .type)) {}).2 = _
  rw [FileContext.resolve_eq]
  rfl

/-- The name of a function that is not bound and was not asked for means its signature, by the types
that are known. -/
theorem resolveName_unasked {ctx : FileContext} {s : State} {name : String} {f : FunctionDecl}
    (free : s.lookup? name = none) (declared : ctx.declarations.function? name = some f)
    (unknown : s.signatures.lookup name = none) :
    (resolveName ctx name s).1 =
      ((FileContext.signatureOf ctx.resolve f.shape).run s.types).1.map ofType := by
  rw [← Declarations.name_of_function? declared] at unknown
  rw [resolveName_function free declared, functionSignature_asked unknown]

/-- In a file of plain types and functions a name that means the same behind all blocks depends on
types that settle. -/
theorem decides_of_same {ctx : FileContext} (plain : ctx.PlainTypes) {name : String}
    (plainShape : ∀ f, ctx.declarations.function? name = some f → ctx.PlainShape f.shape)
    (same : ∀ levels n, opensBlock n.kind = true →
      (resolveName ctx name ((Walker.ofDepth ctx levels).exec n {}).2).1 =
        (resolveName ctx name {}).1) :
    State.Decides ctx {} name := by
  intro f free declared _ c part k mentions
  have answer (type : String) : (resolveName ctx name {}).1 =
      ((FileContext.signatureOf ctx.resolve f.shape).run (ctx.named type {}).2).1.map ofType := by
    obtain ⟨types, signatures⟩ := behindBlock_known ctx type
    have frames : (behindBlock ctx type).frames = [[]] :=
      frames_exec ctx 2 (n := blockWith type) (s := {}) (by simp) rfl
    have stillFree : (behindBlock ctx type).lookup? name = none := by
      simp [State.lookup?, frames]
    have unasked : (behindBlock ctx type).signatures.lookup name = none := by
      simp [signatures]
    rw [← types, ← same 2 (blockWith type) rfl]
    exact resolveName_unasked stillFree declared unasked
  have injective : Function.Injective ofType := fun _ _ equal => congrArg Typed.type equal
  refine FileContext.settles_of_same plain
    (FileContext.yields_shape plain (plainShape f declared)) (fun first second => ?_)
    ⟨c, part, mentions⟩
  exact Option.map_injective injective ((answer first).symm.trans (answer second))

/-- Behind a walk nothing is left but new names in the innermost block. -/
theorem walk_restores (ctx : FileContext) (levels : Nat) (n : Node) {s s' : State}
    (some_block : s.frames ≠ [])
    (walked : s' = ((Walker.ofDepth ctx levels).eval n s).2 ∨
      s' = ((Walker.ofDepth ctx levels).exec n s).2) :
    s'.frames.length = s.frames.length ∧ s'.frames.tail = s.frames.tail ∧
      s'.iota = s.iota ∧ s'.recording = s.recording := by
  have keeps := keeps_ofDepth ctx levels
  have counts := (counterLaw ctx).ofDepth levels
  rcases walked with rfl | rfl
  · have within := keeps.eval n s some_block
    exact ⟨within.length_frames some_block, within.outer, counts.eval n s, within.recording⟩
  · have within := keeps.exec n s some_block
    exact ⟨within.length_frames some_block, within.outer, counts.exec n s, within.recording⟩

/-- Behind a block all names are bound to what they were, and mean what they did as far as this
depends on types that settle. -/
theorem block_restores (ctx : FileContext) (levels : Nat) (n : Node) {s s' : State}
    (some_block : s.frames ≠ [])
    (walked : n.kind = .funcLiteral ∧ s' = ((Walker.ofDepth ctx levels).eval n s).2 ∨
      opensBlock n.kind = true ∧ s' = ((Walker.ofDepth ctx levels).exec n s).2) :
    s'.frames = s.frames ∧ ∀ name,
      (s.Decides ctx name → (resolveName ctx name s').1 = (resolveName ctx name s).1) ∧
      (ctx.Settles name → (typeOfIdentifier ctx name s').1 = (typeOfIdentifier ctx name s).1) := by
  have counts := (counterLaw ctx).ofDepth levels
  have remembers := (recallsLaw ctx s).ofDepth levels
  obtain ⟨frames, iota, recalls⟩ :
      s'.frames = s.frames ∧ s'.iota = s.iota ∧ State.Recalls ctx s s' := by
    rcases walked with ⟨literal, rfl⟩ | ⟨opens, rfl⟩
    · exact ⟨frames_eval ctx levels some_block literal, counts.eval n s,
        remembers.eval n s (.refl s)⟩
    · exact ⟨frames_exec ctx levels some_block opens, counts.exec n s,
        remembers.exec n s (.refl s)⟩
  exact ⟨frames, fun _ => ⟨resolveName_eq frames iota recalls, typeOfIdentifier_eq frames recalls⟩⟩

/-- **Scopes never leak.**  A walk leaves as many blocks as there were, all but the innermost as
they were, and the counter of constants and the recording of types; a statement with a block of its
own, and a function literal, leave all blocks.  Some block has to be open, as one is at the start
and therefore always.

A name means the same behind these as before, unless it is that of a declared function which was
not asked for and whose types do not settle; and if such a function and all types are plain, there
is a block behind which it does mean something else. -/
theorem blocks_restored (ctx : FileContext) :
    (∀ levels n s s', s.frames ≠ [] →
      s' = ((Walker.ofDepth ctx levels).eval n s).2 ∨
        s' = ((Walker.ofDepth ctx levels).exec n s).2 →
      s'.frames.length = s.frames.length ∧ s'.frames.tail = s.frames.tail ∧
        s'.iota = s.iota ∧ s'.recording = s.recording) ∧
    (∀ levels n s s', s.frames ≠ [] →
      n.kind = .funcLiteral ∧ s' = ((Walker.ofDepth ctx levels).eval n s).2 ∨
        opensBlock n.kind = true ∧ s' = ((Walker.ofDepth ctx levels).exec n s).2 →
      s'.frames = s.frames ∧ ∀ name,
        (s.Decides ctx name → (resolveName ctx name s').1 = (resolveName ctx name s).1) ∧
        (ctx.Settles name → (typeOfIdentifier ctx name s').1 = (typeOfIdentifier ctx name s).1)) ∧
    ∀ name, ctx.PlainTypes →
      (∀ f, ctx.declarations.function? name = some f → ctx.PlainShape f.shape) →
      (∀ levels n, opensBlock n.kind = true →
        (resolveName ctx name ((Walker.ofDepth ctx levels).exec n {}).2).1 =
          (resolveName ctx name {}).1) →
      State.Decides ctx {} name :=
  ⟨fun levels n _ _ => walk_restores ctx levels n, fun levels n _ _ => block_restores ctx levels n,
    fun _ plain => decides_of_same plain⟩

section

open Node FileContext

/-- The function of a file. -/
def functionOf (file : Node) : Node :=
  (file.children.find? (·.kind == .functionDeclaration)).getD default

/-- What is known behind the function of a file. -/
def behindFunction (file : Node) : State :=
  ((Walker.ofDepth (ofFile .dot file) file.depth).exec (functionOf file) {}).2

theorem plainShape_tables {f : FunctionDecl}
    (declared : tables.declarations.function? "all" = some f) : tables.PlainShape f.shape := by
  cases declared
  refine ⟨?_, List.forall_mem_singleton.mpr (plain_name rfl (.inl nofun))⟩
  refine List.forall_mem_cons.mpr ⟨List.forall_mem_nil _, ?_⟩
  exact List.forall_mem_singleton.mpr (List.forall_mem_nil _)

/-- The function of groves means the same behind its declaration; that of tables does not behind all
blocks. -/
theorem blocks_restored_samples :
    (grovesFile.Conforms Go.rules ∧ (functionOf grovesFile).kind = .functionDeclaration ∧
      (behindFunction grovesFile).frames = [[]] ∧ (behindFunction grovesFile).iota = none ∧
      (resolveName groves "all" (behindFunction grovesFile)).1 =
        (resolveName groves "all" {}).1) ∧
    tables.PlainTypes ∧ ¬ ∀ levels n, opensBlock n.kind = true →
      (resolveName tables "all" ((Walker.ofDepth tables levels).exec n {}).2).1 =
        (resolveName tables "all" {}).1 := by
  constructor
  · obtain ⟨walk, block, -⟩ := blocks_restored groves
    obtain ⟨frames, names⟩ :=
      block grovesFile.depth (functionOf grovesFile) {} _ (by simp) (.inr ⟨rfl, rfl⟩)
    exact ⟨conforms_of_checks 60 (by decide +kernel), rfl, frames,
      (walk grovesFile.depth (functionOf grovesFile) {} _ (by simp) (.inr rfl)).2.2.1,
      (names "all").1 fun _ _ _ _ _ _ name _ => settles_groves name⟩
  · refine ⟨plainTypes_tables, fun same => ?_⟩
    have decides := (blocks_restored tables).2.2 "all" plainTypes_tables
      (fun _ => plainShape_tables) same
    have settles := decides _ rfl rfl rfl _ (List.mem_singleton_self _) "table" (by decide +kernel)
    exact unsettled_tables.2 settles

/-- The function of tables means something else behind its declaration: before, its tables have
rows whose definition is known, and behind it they have rows that stand for themselves. -/
theorem all_behind_declaration :
    tablesFile.Conforms Go.rules ∧ (functionOf tablesFile).kind = .functionDeclaration ∧
      (behindFunction tablesFile).frames = [[]] ∧
      (resolveName tables "all" {}).1 =
        some (ofType (.signature [] [.named "a" "table" [] (.slice (.named "a" "row" []
          (.slice (.signature [.named "a" "table" [] .struct] [.error]))))])) ∧
      (resolveName tables "all" (behindFunction tablesFile)).1 =
        some (ofType (.signature [] [.named "a" "table" [] (.slice (.named "a" "row" []
          .struct))])) ∧
      (resolveName tables "all" (behindFunction tablesFile)).1 ≠
        (resolveName tables "all" {}).1 := by
  refine ⟨conforms_tables, rfl, rfl, rfl, rfl, fun same => ?_⟩
  cases same

end

end Inference

end GomegaLint
