import Mathlib
import GomegaLint.Proofs.Inference.Positions
import GomegaLint.Proofs.Inference.SpelledOut

/-!
# Constants that repeat

Walking a group of constants binds what walking it with every repetition spelled out binds, each
specification by itself and with its place for the counter.

What is found in a list while it is repeated is not entered again, so that the entries of its nodes
stay those of its own evaluation.  That fails in one place: a function literal in the list may
declare constants too, and the nodes in their values are entered anew with every repetition.
-/

namespace GomegaLint

namespace Node

open Inference (listedAs)

theorem exists_child_of_listedAs {n v : Node} {role : Field} (member : v ∈ listedAs n role) :
    ∃ list, n.child? role = some list ∧ v ∈ list.preorder := by
  unfold listedAs at member
  cases child : n.child? role with
  | none => simp [child] at member
  | some list =>
      refine ⟨list, rfl, ?_⟩
      rw [child, Option.map_some, Option.getD_some, listed] at member
      split at member
      · exact mem_preorder_of_child list.mem_preorder_self (mem_children_of_mem_parts member)
      · exact List.mem_singleton.mp member ▸ list.mem_preorder_self

theorem mem_preorder_listedAs {n v : Node} {role : Field} (member : v ∈ listedAs n role) :
    v ∈ n.preorder := by
  obtain ⟨list, child, below⟩ := exists_child_of_listedAs member
  have inside := mem_preorder_of_child n.mem_preorder_self (mem_children_of_child? child)
  exact (preorder_sublist inside).subset below

/-- The nodes in the values of the constants that a tree declares. -/
def constantNodes (n : Node) : List Node :=
  (n.preorder.filter (·.kind == .constSpec)).flatMap fun spec =>
    (listedAs spec .value).flatMap preorder

theorem mem_constantNodes {n m : Node} :
    m ∈ n.constantNodes ↔ ∃ spec ∈ n.preorder, spec.kind = .constSpec ∧
      ∃ v ∈ listedAs spec .value, m ∈ v.preorder := by
  simp [constantNodes, List.mem_flatMap, and_assoc]

/-- The nodes that a walk may enter, with the recording on or off. -/
def entered : Bool → Node → List Node
  | true, n => n.preorder
  | false, n => n.constantNodes

theorem constantNodes_subset (n : Node) : n.constantNodes ⊆ n.preorder := by
  intro m member
  obtain ⟨spec, inside, -, v, value, below⟩ := mem_constantNodes.mp member
  have inSpec := (preorder_sublist (mem_preorder_listedAs value)).subset below
  exact (preorder_sublist inside).subset inSpec

theorem entered_subset (on : Bool) (n : Node) : n.entered on ⊆ n.preorder := by
  cases on with
  | true => exact fun _ member => member
  | false => exact n.constantNodes_subset

theorem entered_child {on : Bool} {n c : Node} (child : c ∈ n.children) :
    c.entered on ⊆ n.entered on := by
  have inside := mem_preorder_of_child n.mem_preorder_self child
  cases on with
  | true => exact (preorder_sublist inside).subset
  | false =>
      intro m member
      obtain ⟨spec, below, kind, value⟩ := mem_constantNodes.mp member
      exact mem_constantNodes.mpr ⟨spec, (preorder_sublist inside).subset below, kind, value⟩

/-- The values of a constant are entered in any case. -/
theorem preorder_value_subset {on : Bool} {n v : Node} (kind : n.kind = .constSpec)
    (value : v ∈ listedAs n .value) : v.preorder ⊆ n.entered on := by
  cases on with
  | true => exact (preorder_sublist (mem_preorder_listedAs value)).subset
  | false =>
      exact fun m member => mem_constantNodes.mpr ⟨n, n.mem_preorder_self, kind, v, value, member⟩

/-- The nodes below two children are different. -/
theorem disjoint_children {n c d m : Node} (distinct : (n.preorder.map id).Nodup)
    (child : c ∈ n.children) (other : d ∈ n.children) (different : c ≠ d)
    (below : m ∈ c.preorder) : m.id ∉ d.preorder.map id := by
  rw [preorder_eq, List.map_cons, List.map_flatMap] at distinct
  have apart := (List.nodup_flatMap.mp (List.nodup_cons.mp distinct).2).2
  have symmetric : Std.Symm (Function.onFun List.Disjoint fun c : Node => c.preorder.map id) :=
    ⟨fun _ _ => .symm⟩
  exact fun member => apart.forall child other different (List.mem_map_of_mem below) member

end Node

namespace Inference

/-- A walk into the node does not touch an entry. -/
def Untouched (k : Nat) (on : Bool) (n : Node) : Prop := k ∉ (n.entered on).map Node.id

theorem Untouched.mono {k : Nat} {on on' : Bool} {n c : Node} (untouched : Untouched k on n)
    (fewer : c.entered on' ⊆ n.entered on) : Untouched k on' c :=
  fun member => untouched (List.map_subset _ fewer member)

theorem Untouched.of_notMem {k : Nat} {on : Bool} {n : Node}
    (outside : k ∉ n.preorder.map Node.id) : Untouched k on n :=
  fun member => outside (List.map_subset _ (n.entered_subset on) member)

theorem Untouched.hereditary (k : Nat) : Hereditary (Untouched k) where
  child untouched child := untouched.mono (Node.entered_child child)
  values {b n} untouched kind v value := by
    have fewer : v.entered true ⊆ n.entered b := Node.preorder_value_subset kind value
    exact untouched.mono fewer
  off {n} untouched := untouched.mono n.constantNodes_subset

/-- The step leaves an entry as it is, with the recording on or off all along. -/
def KeepsEntry (k : Nat) (on : Bool) {α : Type} (m : InferM α) : Prop :=
  ∀ s : State, s.recording = on →
    (m s).2.recording = on ∧ (m s).2.table.get? k = s.table.get? k

namespace KeepsEntry

variable {k : Nat} {on : Bool} {α : Type}

theorem composes : Composes fun _ => KeepsEntry k on where
  pure _ _ recording := ⟨recording, rfl⟩
  bind first second s recording := by
    obtain ⟨recording', entry⟩ := first s recording
    obtain ⟨recording'', entry'⟩ := second _ _ recording'
    exact ⟨recording'', entry'.trans entry⟩

theorem modifying {g : State → State} (recording : ∀ s, (g s).recording = s.recording)
    (table : ∀ s, (g s).table = s.table) : KeepsEntry k on (modify g) := by
  intro s isOn
  refine ⟨(recording s).trans isOn, ?_⟩
  show (g s).table.get? k = s.table.get? k
  rw [table]

theorem resolving (m : TypeM α) : KeepsEntry k on (Inference.resolving m) :=
  fun _ isOn => ⟨isOn, rfl⟩

theorem functionSignature (ctx : FileContext) (g : FunctionDecl) :
    KeepsEntry k on (functionSignature ctx g) := by
  refine composes.bind (fun _ isOn => ⟨isOn, rfl⟩) fun s => ?_
  split
  · exact composes.pure _
  · exact composes.bind (resolving _) fun _ =>
      composes.bind (modifying (fun _ => rfl) fun _ => rfl) fun _ => composes.pure _

theorem withRecording {on' : Bool} {m : InferM α} (inside : KeepsEntry k on' m) :
    KeepsEntry k on (Inference.withRecording on' m) :=
  fun s isOn => ⟨isOn, (inside { s with recording := on' } rfl).2⟩

theorem recordNode {n : Node} (untouched : Untouched k on n) (t : Option Typed) :
    KeepsEntry k on (recordNode n t) := by
  intro s isOn
  show (s.record n t).recording = on ∧ (s.record n t).table.get? k = s.table.get? k
  cases on with
  | true =>
      have different : n.id ≠ k := by
        rintro rfl
        exact untouched (List.mem_map_of_mem n.mem_preorder_self)
      refine ⟨?_, State.get?_record_other s different t⟩
      unfold State.record
      split
      · split <;> exact isOn
      · exact isOn
  | false =>
      have unchanged : s.record n t = s := by cases t <;> simp [State.record, isOn]
      rw [unchanged]
      exact ⟨isOn, rfl⟩

theorem bindName (name : String) (t : Option Typed) : KeepsEntry k on (modify (·.bind name t)) := by
  refine modifying (fun s => ?_) fun s => State.table_bind s name t
  unfold State.bind
  split
  · rfl
  · split <;> rfl

theorem inBlock {m : InferM α} (inside : KeepsEntry k on m) :
    KeepsEntry k on (Inference.inBlock m) := by
  refine composes.bind (modifying (fun _ => rfl) fun _ => rfl) fun _ => composes.bind inside
    fun _ => composes.bind (modifying (fun s => ?_) fun s => ?_) fun _ => composes.pure _
  all_goals
    unfold State.pop
    split <;> rfl

theorem counting (i : Option Int) : KeepsEntry k on (modify ({ · with iota := i })) :=
  modifying (fun _ => rfl) fun _ => rfl

end KeepsEntry

/-- Entries are kept by what steps on other nodes are made of. -/
theorem entryLaw (ctx : FileContext) (k : Nat) :
    TwinLaw ctx .same (Untouched k) (fun on _ m _ => KeepsEntry k on m)
      fun on _ m _ => KeepsEntry k on m where
  nodes := Untouched.hereditary k
  tight := KeepsEntry.composes.congruent
  loose := KeepsEntry.composes.congruent
  loosen := id
  read each _ := KeepsEntry.composes.bind (fun _ isOn => ⟨isOn, rfl⟩) each
  bindName := KeepsEntry.bindName
  recordNode := KeepsEntry.recordNode
  overflow := KeepsEntry.modifying (fun _ => rfl) fun _ => rfl
  resolving _ := KeepsEntry.resolving _
  functionSignature _ := KeepsEntry.functionSignature ctx _
  inBlock := KeepsEntry.inBlock
  withRecording _ := KeepsEntry.withRecording
  counting := KeepsEntry.counting
  inGroup inside := KeepsEntry.composes.bind (fun _ isOn => ⟨isOn, rfl⟩) fun _ =>
    KeepsEntry.composes.bind (KeepsEntry.counting none) fun _ =>
      KeepsEntry.composes.bind inside fun _ => KeepsEntry.counting _

/-! ## The entries of a list -/

/-- The list in front of some specifications is repeated: the first constant behind it has no list
of its own. -/
def isRepeated (after : List Node) : Bool :=
  (after.find? (·.kind == .constSpec)).any fun spec => (ConstShape.ofSpec? spec).isNone

/-- A list that is not repeated makes no difference to what stands behind it. -/
theorem execSpecs_of_not_isRepeated (ctx : FileContext) (w : Walker) {after : List Node}
    (unrepeated : isRepeated after = false) (i : Nat) (previous : Option ConstShape) :
    execSpecs ctx w i previous after = execSpecs ctx w i none after := by
  induction after generalizing i with
  | nil => rfl
  | cons spec specs ih =>
      rw [execSpecs_cons, execSpecs_cons]
      by_cases kind : spec.kind = .constSpec
      · -- The first constant has a list, and that is what stands behind it in both.
        rw [isRepeated, List.find?_cons_of_pos (by simp [kind])] at unrepeated
        have own : (ConstShape.ofSpec? spec).isSome = true := by simpa using unrepeated
        obtain ⟨shape, isOwn⟩ := Option.isSome_iff_exists.mp own
        simp only [execSpec, shapeBehind, kind, if_true, isOwn, Option.some_or]
        rw [execConstSpec_own own i previous]
      · rw [isRepeated, List.find?_cons_of_neg (by simp [kind])] at unrepeated
        have here : execSpec ctx w i previous spec = execSpec ctx w i none spec := by
          unfold execSpec
          split
          · rfl
          · exact absurd ‹_› kind
          · rfl
        rw [here, shapeBehind, shapeBehind, if_neg kind, if_neg kind, ih unrepeated]

theorem recording_constTypes (ctx : FileContext) (w : Walker) (spec : Node) (i : Nat)
    (previous : Option ConstShape) (s : State) :
    (constTypes ctx w spec i previous s).2.recording = s.recording := by
  unfold constTypes
  cases (constShape spec previous).type <;> rfl

/-- The entry of a node in the values of a specification is that of their evaluation, if nothing
around them touches it and they do not where they are repeated. -/
theorem entry_of_own (ctx : FileContext) (levels : Nat) {k : Nat} {before after : List Node}
    {spec : Node} {s : State} (kind : spec.kind = .constSpec)
    (own : (ConstShape.ofSpec? spec).isSome)
    (around : ∀ c ∈ before ++ after ++ spec.childrenAs .name, Untouched k s.recording c)
    (repeated : isRepeated after = true → ∀ v ∈ listedAs spec .value, Untouched k false v) :
    (execSpecs ctx (.ofDepth ctx levels) 0 none (before ++ spec :: after) s).2.table.get? k =
      (constTypes ctx (.ofDepth ctx levels) spec (before.countP (·.kind == .constSpec)) none
        (execSpecs ctx (.ofDepth ctx levels) 0 none before s).2).2.table.get? k := by
  obtain ⟨shape, own⟩ := Option.isSome_iff_exists.mp own
  have law := entryLaw ctx k
  have walks := law.ofDepth levels
  have front : KeepsEntry k s.recording (execSpecs ctx (.ofDepth ctx levels) 0 none before) :=
    law.execSpecs walks (fun c member => around c (by simp [member])) 0 fun _ member => by
      cases member
  have names (given : Nat → Option Typed) :
      KeepsEntry k s.recording (declareInTurn given (spec.childrenAs .name)) :=
    law.declareInTurn given fun c member => around c (by simp [member])
  have back (i : Nat) :
      KeepsEntry k s.recording (execSpecs ctx (.ofDepth ctx levels) i (some shape) after) := by
    have untouched : ∀ c ∈ after, Untouched k s.recording c :=
      fun c member => around c (by simp [member])
    cases again : isRepeated after with
    | false =>
        rw [execSpecs_of_not_isRepeated ctx _ again]
        exact law.execSpecs walks untouched i fun _ member => by cases member
    | true =>
        refine law.execSpecs walks untouched i ?_
        rintro _ ⟨⟩ v value
        exact repeated again v (ConstShape.values_ofSpec? own ▸ value)
  have behind : shapeBehind (before.foldl shapeBehind none) spec = some shape := by
    rw [shapeBehind, if_pos kind, own]
    rfl
  have rest (r : Option GoType × List (Option Typed)) (i : Nat) : KeepsEntry k s.recording
      (declareInTurn (constGiven r.1 r.2) (spec.childrenAs .name) >>= fun _ =>
        modify ({ · with iota := none }) >>= fun _ =>
          execSpecs ctx (.ofDepth ctx levels) i (some shape) after) :=
    KeepsEntry.composes.bind (names _) fun _ =>
      KeepsEntry.composes.bind (.counting none) fun _ => back i
  have recording := (recording_constTypes ctx (.ofDepth ctx levels) spec
    (before.countP (·.kind == .constSpec)) none _).trans (front s rfl).1
  -- The walk is cut right behind the evaluation of the list; the rest of it leaves the entry alone.
  rw [execSpecs_append, execSpecs_cons, behind, foldl_countBehind, Nat.zero_add, execSpec, kind]
  simp only [execConstSpec_eq, constTypes_own own, bind_assoc] at recording ⊢
  exact (rest _ _ _ recording).2

/-- The nodes in the values of a specification are not among those of its names, nor of the other
specifications. -/
theorem notMem_around {n spec m : Node} {before after : List Node}
    (distinct : (n.preorder.map Node.id).Nodup) (split : n.parts = before ++ spec :: after)
    (value : m ∈ (listedAs spec .value).flatMap Node.preorder) :
    ∀ c ∈ before ++ after ++ spec.childrenAs .name, m.id ∉ c.preorder.map Node.id := by
  have isPart (c : Node) (member : c ∈ before ++ spec :: after) : c ∈ n.children :=
    Node.mem_children_of_mem_parts (split ▸ member)
  have child : spec ∈ n.children := isPart spec (by simp)
  have inside := Node.mem_preorder_of_child n.mem_preorder_self child
  obtain ⟨v, listed, below⟩ := List.mem_flatMap.mp value
  intro c member
  rcases List.mem_append.mp member with other | name
  · have nodup : n.parts.Nodup := by
      have all := List.Nodup.of_map Node.id distinct
      rw [Node.preorder_eq, ← Node.preorderOf_eq, List.nodup_cons] at all
      exact (((Node.sublist_preorderOf n.children).nodup all.2).filter _).filter _
    rw [split, List.nodup_middle, List.nodup_cons] at nodup
    have different : spec ≠ c := fun same => nodup.1 (same ▸ other)
    have around : c ∈ before ++ spec :: after := by
      rcases List.mem_append.mp other with front | back
      · exact List.mem_append_left _ front
      · exact List.mem_append_right _ (List.mem_cons_of_mem _ back)
    exact Node.disjoint_children distinct child (isPart c around) different
      ((Node.preorder_sublist (Node.mem_preorder_listedAs listed)).subset below)
  · obtain ⟨list, isValue, inList⟩ := Node.exists_child_of_listedAs listed
    have distinct' := ((Node.preorder_sublist inside).map Node.id).nodup distinct
    have valueRole := List.find?_some isValue
    have nameRole := (List.mem_filter.mp name).2
    have different : list ≠ c := by
      rintro rfl
      rw [beq_iff_eq] at valueRole nameRole
      cases valueRole.symm.trans nameRole
    exact Node.disjoint_children distinct' (Node.mem_children_of_child? isValue)
      (List.mem_of_mem_filter name) different ((Node.preorder_sublist inList).subset below)

theorem isSome_ofSpec?_of_listed {spec v : Node} (listed : v ∈ listedAs spec .value) :
    (ConstShape.ofSpec? spec).isSome := by
  obtain ⟨list, isValue, -⟩ := Node.exists_child_of_listedAs listed
  rw [ConstShape.ofSpec?, isValue, Option.map_some, Option.isSome_some]

/-- In a tree of different nodes the entries of a list are those of its own evaluation, but for the
constants that are declared in a list that is repeated. -/
theorem entry_of_list (ctx : FileContext) (levels : Nat) {n spec m : Node}
    {before after : List Node} {s : State} (distinct : (n.preorder.map Node.id).Nodup)
    (split : n.parts = before ++ spec :: after) (kind : spec.kind = .constSpec)
    (value : m ∈ (listedAs spec .value).flatMap Node.preorder)
    (outside : isRepeated after = true →
      m.id ∉ ((listedAs spec .value).flatMap Node.constantNodes).map Node.id) :
    (execSpecs ctx (.ofDepth ctx levels) 0 none n.parts s).2.table.get? m.id =
      (constTypes ctx (.ofDepth ctx levels) spec (before.countP (·.kind == .constSpec)) none
        (execSpecs ctx (.ofDepth ctx levels) 0 none before s).2).2.table.get? m.id := by
  obtain ⟨v, listed, -⟩ := List.mem_flatMap.mp value
  have around := notMem_around distinct split value
  have repeated (again : isRepeated after = true) (v : Node)
      (listed : v ∈ listedAs spec .value) : Untouched m.id false v := by
    intro member
    obtain ⟨m', inside, sameId⟩ := List.mem_map.mp member
    exact outside again (sameId ▸ List.mem_map_of_mem (List.mem_flatMap.mpr ⟨v, listed, inside⟩))
  rw [split]
  exact entry_of_own ctx levels kind (isSome_ofSpec?_of_listed listed)
    (fun c member => .of_notMem (around c member)) repeated

/-! ## Groups of constants -/

theorem exec_constants (ctx : FileContext) (levels : Nat) {n : Node}
    (constants : n.kind = .constDeclaration) :
    (Walker.ofDepth ctx (levels + 1)).exec n =
      inGroup (execSpecs ctx (.ofDepth ctx levels) 0 none n.parts) := by
  show execStep ctx (.ofDepth ctx levels) n = _
  rw [execStep, constants]
  rfl

theorem alike_exec_spellOut (ctx : FileContext) (levels : Nat) (copies : Nat → Relabelling)
    {n : Node} (constants : n.kind = .constDeclaration) :
    Alike ((Walker.ofDepth ctx (levels + 1)).exec n)
      ((Walker.ofDepth ctx (levels + 1)).exec (n.spellOut copies)) := by
  have constants' : (n.spellOut copies).kind = .constDeclaration := constants
  rw [exec_constants ctx levels constants, exec_constants ctx levels constants',
    Node.parts_spellOut]
  exact (alikeLaw ctx .same).inGroup (b := true) (alike_spellOut ctx levels copies n.parts)

theorem exec_spellOut (ctx : FileContext) (levels : Nat) (copies : Nat → Relabelling)
    {n : Node} (constants : n.kind = .constDeclaration) :
    (Walker.ofDepth ctx (levels + 1)).exec (n.spellOut copies) =
      inGroup ((counted 0 (n.spellOut copies).parts).forM
        (execAlone ctx (.ofDepth ctx levels))) := by
  have constants' : (n.spellOut copies).kind = .constDeclaration := constants
  rw [exec_constants ctx levels constants', Node.parts_spellOut, execSpecs_spellOut]

/-- **Constants that repeat bind what they bind when they are spelled out, and the entries of a list
stay those of its own evaluation, but for the constants that a repeated list declares itself.** -/
theorem constants_spelledOut (ctx : FileContext) (levels : Nat) (copies : Nat → Relabelling)
    (s : State) {n : Node} (constants : n.kind = .constDeclaration) :
    let w := Walker.ofDepth ctx levels
    let walk := (Walker.ofDepth ctx (levels + 1)).exec
    (∀ name, (walk n s).2.lookup? name = (walk (n.spellOut copies) s).2.lookup? name) ∧
      (walk n s).2.bare = (walk (n.spellOut copies) s).2.bare ∧
      walk (n.spellOut copies) =
        inGroup ((counted 0 (n.spellOut copies).parts).forM (execAlone ctx w)) ∧
      ((n.preorder.map Node.id).Nodup →
        ∀ before spec after, n.parts = before ++ spec :: after → spec.kind = .constSpec →
        ∀ m ∈ (listedAs spec .value).flatMap Node.preorder,
          (isRepeated after = true →
            m.id ∉ ((listedAs spec .value).flatMap Node.constantNodes).map Node.id) →
          (walk n s).2.table.get? m.id =
            (constTypes ctx w spec (before.countP (·.kind == .constSpec)) none
              (execSpecs ctx w 0 none before { s with iota := none }).2).2.table.get? m.id) := by
  intro w walk
  have same : (walk n s).2.bare = (walk (n.spellOut copies) s).2.bare :=
    (alike_exec_spellOut ctx levels copies constants s s rfl).2
  have bindings (name : String) : (walk n s).2.bare.lookup? name =
      (walk (n.spellOut copies) s).2.bare.lookup? name := by rw [same]
  refine ⟨bindings, same, exec_spellOut ctx levels copies constants, ?_⟩
  intro distinct before spec after split kind m value outside
  show ((Walker.ofDepth ctx (levels + 1)).exec n s).2.table.get? m.id = _
  rw [exec_constants ctx levels constants]
  exact entry_of_list ctx levels (s := { s with iota := none }) distinct split kind value outside

/-! ## Two groups -/

/-- A specification of one constant. -/
def constantSpec (name : String) (definition : List Node) : Node :=
  .construct .constSpec (.word .identifier name (some .name) :: definition)

/-- A group of three constants, of which the first has the value and the others repeat it. -/
def repeatedTwice (value : Node) (first second third : String) : Node :=
  .construct .constDeclaration
    [.sign "const", .sign "(",
     constantSpec first [.sign "=", .construct .expressionList [value] (some .value)],
     .sign "\n", constantSpec second [], .sign "\n", constantSpec third [], .sign "\n", .sign ")"]

/-- The constants `a`, `b` and `c` are numbered. -/
def numberedConstants : Node := (repeatedTwice (.word .iotaLiteral "iota") "a" "b" "c").numbered

/-- The third constant is two, and zero stays entered for the counter in the list. -/
theorem constants_spelledOut_numberedConstants :
    let copies := fun i => Relabelling.shift (20 * i)
    let walk := (Walker.ofDepth default 3).exec
    numberedConstants.kind = .constDeclaration ∧
      (numberedConstants.preorder.map Node.id).Nodup ∧
      ((numberedConstants.spellOut copies).parts.map fun spec =>
        (listedAs spec .value).map fun v => (v.id, v.text)) =
          [[(8, "iota")], [(28, "iota")], [(48, "iota")]] ∧
      (walk numberedConstants {}).2.lookup? "c" = some (some (integer 2)) ∧
      (walk numberedConstants {}).2.table.get? 8 = some (integer 0) := by
  intro copies walk
  have distinct : (numberedConstants.preorder.map Node.id).Nodup := by decide +kernel
  obtain ⟨bindings, -, -, entries⟩ :=
    constants_spelledOut default 2 copies {} (n := numberedConstants) rfl
  refine ⟨rfl, distinct, rfl, (bindings "c").trans rfl, ?_⟩
  have entry := entries distinct [] _ _ rfl rfl (.leaf ⟨.iotaLiteral, 8, none, {}⟩ "" "iota")
    (.head _) fun _ => by decide +kernel
  exact entry.trans rfl

/-- `func() { const y = z; _ = y }` -/
def declaringLiteral : Node :=
  .construct .funcLiteral
    [.sign "func", .construct .parameterList [.sign "(", .sign ")"] (some .parameters),
     .construct .block
      [.sign "\x7b",
       .construct .constDeclaration
        [.sign "const",
         constantSpec "y" [.sign "=",
           .construct .expressionList [.word .identifier "z"] (some .value)]],
       .sign "\n",
       .construct .assignmentStatement
        [.construct .expressionList [.word .identifier "_"] (some .left),
         .sign "=" (some .operator),
         .construct .expressionList [.word .identifier "y"] (some .right)],
       .sign "\n", .sign "\x7d"]
      (some .body)]

/-- The constants `x`, `z` and `w`, the first of which is the length of an array with a function:
this declares a constant of its own, whose value is named like the second. -/
def nestedConstants : Node :=
  (repeatedTwice
    (.construct .callExpression
      [.word .identifier "len" (some .function),
       .construct .argumentList
        [.sign "(",
         .construct .compositeLiteral
          [.construct .arrayType
            [.sign "[", .word .intLiteral "1" (some .length), .sign "]",
             .construct .functionType
              [.sign "func", .construct .parameterList [.sign "(", .sign ")"] (some .parameters)]
              (some .element)]
            (some .type),
           .construct .literalValue
            [.sign "\x7b", .construct .literalElement [declaringLiteral], .sign "\x7d"]
            (some .body)],
         .sign ")"]
        (some .arguments)])
    "x" "z" "w").numbered

/-- A block in which `z` is a text, from a block around it. -/
def withText : State :=
  { frames := [[], [("z", some ⟨.basic .untypedString, some (.string "s")⟩)]] }

/-- The name in the nested list is a text where the list is evaluated, and is entered with the
type of the second constant when the third repeats the list. -/
theorem nestedConstants_entered_anew :
    let spec := nestedConstants.parts.headD default
    let own := (constTypes default (.ofDepth default 16) spec 0 none withText).2
    let behind := ((Walker.ofDepth default 17).exec nestedConstants withText).2
    nestedConstants.Conforms Go.rules ∧ (nestedConstants.preorder.map Node.id).Nodup ∧
      38 ∈ ((listedAs spec .value).flatMap Node.preorder).map Node.id ∧
      (own.table.get? 38).map (·.type.print) = some "untyped string" ∧
      (behind.table.get? 38).map (·.type.print) = some "int" := by
  intro spec own behind
  exact ⟨Node.conforms_of_checks 120 (by decide +kernel), by decide +kernel, by decide +kernel,
    by decide +kernel, by decide +kernel⟩

end Inference

end GomegaLint
