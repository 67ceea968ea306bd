import Mathlib
import GomegaLint.Proofs.Inference.Coherence
import GomegaLint.Proofs.Syntax.Conforms

/-!
# Types that are defined by each other

What a name denotes is the same after all questions if no two types within its reach are defined
by each other, and in files of plain types only then (`FileContext.orderFree_iff_settles`): of two
types that refer to each other, asking for the one first leaves it out of what is known of the
other.
-/

namespace GomegaLint

namespace FileContext

section

variable (ctx : FileContext)

/-- A name denotes the same after all questions. -/
def OrderFree (name : String) : Prop :=
  ∀ queries queries' : List Query,
    (ctx.named name (ctx.after queries {})).1 = (ctx.named name (ctx.after queries' {})).1

/-- A type that is defined by another which is defined by it. -/
def Entangled (name : String) : Prop :=
  ∃ other, other ≠ name ∧ ctx.Reaches name other ∧ ctx.Reaches other name

/-- A way through definitions that meets no entangled type before its end. -/
inductive Straight : String → String → Prop
  | refl (name : String) : Straight name name
  | step {name other last : String} (free : ¬ ctx.Entangled name)
      (refers : ctx.Refers name other) (behind : Straight other last) : Straight name last

end

variable {ctx : FileContext}

theorem Refers.declared {name other : String} (refers : ctx.Refers name other) :
    ctx.declarations.type? name ≠ none := by
  obtain ⟨d, declared, -⟩ := refers
  simp [declared]

/-- A type that reaches another refers to one. -/
theorem exists_refers_of_reaches {name other : String} (reaches : ctx.Reaches name other)
    (differ : other ≠ name) : ∃ next, ctx.Refers name next := by
  obtain rfl | ⟨next, refers, -⟩ := reaches.cases_head
  · exact absurd rfl differ
  · exact ⟨next, refers⟩

/-- An entangled type refers to one that it is entangled with. -/
theorem Entangled.next {name : String} (entangled : ctx.Entangled name) :
    ∃ next, next ≠ name ∧ ctx.Refers name next ∧ ctx.Reaches next name := by
  obtain ⟨other, differ, reaches, back⟩ := entangled
  induction reaches using Relation.ReflTransGen.head_induction_on with
  | refl => exact absurd rfl differ
  | @head name next refers behind ih =>
      by_cases self : next = name
      · subst self
        exact ih differ back
      · exact ⟨next, self, refers, behind.trans back⟩

theorem Entangled.declared {name : String} (entangled : ctx.Entangled name) :
    ctx.declarations.type? name ≠ none :=
  let ⟨_, _, refers, _⟩ := entangled.next
  refers.declared

/-- A name that does not settle leads straight to an entangled type. -/
theorem exists_straight {name : String} (unsettled : ¬ ctx.Settles name) :
    ∃ last, ctx.Entangled last ∧ ctx.Straight name last := by
  simp only [Settles, not_forall] at unsettled
  obtain ⟨a, b, reaches, there, back, differ⟩ := unsettled
  have entangled : ctx.Entangled a := ⟨b, Ne.symm differ, there, back⟩
  induction reaches using Relation.ReflTransGen.head_induction_on with
  | refl => exact ⟨a, entangled, .refl a⟩
  | @head name next refers _ ih =>
      by_cases here : ctx.Entangled name
      · exact ⟨name, here, .refl name⟩
      · obtain ⟨last, isLast, straight⟩ := ih
        exact ⟨last, isLast, .step here refers straight⟩

theorem Straight.declared {name last : String} (straight : ctx.Straight name last)
    (entangled : ctx.Entangled last) : ctx.declarations.type? name ≠ none := by
  cases straight with
  | refl => exact entangled.declared
  | step _ refers _ => exact refers.declared

/-- What is known of a type that refers to others is known in full. -/
theorem Coherent.isFull {s : TypeCache} (coherent : ctx.Coherent s) {name other : String}
    {t : GoType} (known : s.known.lookup name = some (some t)) (refers : ctx.Refers name other) :
    ctx.Full name t := by
  obtain ⟨declared, definition, isType, expanded⟩ := coherent.complete name _ known
  cases isType
  exact .intro declared (expanded ⟨other, refers⟩)

/-- A type holds what it leads straight to, as it is known. -/
theorem Coherent.holds_of_straight {s : TypeCache} (coherent : ctx.Coherent s)
    {name last : String} (straight : ctx.Straight name last) (entangled : ctx.Entangled last)
    {t : GoType} (known : s.known.lookup name = some (some t)) :
    ∃ u, s.known.lookup last = some (some u) ∧ t.Holds u := by
  induction straight generalizing t with
  | refl name => exact ⟨t, known, .refl t⟩
  | @step name other last free refers behind ih =>
      have declared := behind.declared entangled
      rcases coherent.holds name t other known refers declared with back | ⟨u, knownOther, holds⟩
      · have same : other = name := by
          by_contra differ
          exact free ⟨other, differ, .single refers, back⟩
        exact ih entangled (same ▸ known)
      · obtain ⟨v, knownLast, inside⟩ := ih entangled knownOther
        exact ⟨v, knownLast, holds.trans inside⟩

/-! ## The first question -/

theorem coherent_empty : ctx.Coherent {} where
  unfinished := List.forall_mem_nil _
  complete _ _ known := nomatch known
  full _ _ _ _ known := nomatch known
  closed _ _ _ known := nomatch known
  holds _ _ _ known := nomatch known

/-- The definition of a type, when no other is under construction. -/
theorem yields_definition (plain : ctx.PlainTypes) {name : String} {d : TypeDecl}
    (declared : ctx.declarations.type? name = some d) :
    ctx.Yields [name] { k | d.target.Mentions k } ctx.IsType (ctx.resolve d.target) := by
  refine yields_resolve plain (plain.plain name d declared) fun x inside k mentions => ?_
  obtain rfl := List.mem_singleton.mp inside
  exact .single ⟨d, declared, mentions⟩

/-- Between questions the type of a declared name is found. -/
theorem yieldsFrom_named (plain : ctx.PlainTypes) {name : String} {s : TypeCache}
    (declared : ctx.declarations.type? name ≠ none) (coherent : ctx.Coherent s)
    (rest : s.building = []) : ctx.YieldsFrom s { name } ctx.IsType (ctx.named name) :=
  yields_named plain declared (List.forall_mem_nil _)
    (fun _ declared _ => yields_definition plain declared) s coherent rest

/-- A type of a file of plain types is kept when it is asked for. -/
theorem lookup_named (plain : ctx.PlainTypes) {name : String} {s : TypeCache}
    (declared : ctx.declarations.type? name ≠ none) (rest : s.building = []) :
    (ctx.named name s).2.known.lookup name = some (ctx.named name s).1 := by
  obtain ⟨d, declared⟩ := Option.ne_none_iff_exists'.mp declared
  obtain rfl := Declarations.name_of_type? declared
  cases lookup : s.known.lookup d.name with
  | some t =>
      rw [named, namedType_known lookup]
      exact lookup
  | none =>
      have fresh : d.name ∉ s.building := by simp [rest]
      rw [named, namedType_fresh lookup declared fresh]
      exact lookup_completed_defined _ _ (plain.defined d.name d declared)

theorem exists_first (plain : ctx.PlainTypes) {name : String}
    (declared : ctx.declarations.type? name ≠ none) :
    ∃ d t T s, ctx.declarations.type? name = some d ∧ d.name = name ∧ ctx.Defines d {} t T s := by
  obtain ⟨d, declared⟩ := Option.ne_none_iff_exists'.mp declared
  obtain rfl := Declarations.name_of_type? declared
  obtain ⟨t, T, s, defines⟩ := exists_defines plain declared coherent_empty rfl List.not_mem_nil
    (yields_definition plain declared)
  exact ⟨d, t, T, s, declared, rfl, defines⟩

/-- A type that is asked for first holds in full what it refers to. -/
theorem first_holds_next (plain : ctx.PlainTypes) {name next : String}
    (differ : next ≠ name) (refers : ctx.Refers name next) (back : ctx.Reaches next name) :
    ∃ t u, (ctx.named name {}).1 = some t ∧ ctx.Full next u ∧ t.Holds u := by
  obtain ⟨_, refersNext⟩ := exists_refers_of_reaches back (Ne.symm differ)
  obtain ⟨d, t, T, s, declared, rfl, defines⟩ := exists_first plain refers.declared
  have complete : next ∉ s.building := by simpa [defines.building] using differ
  obtain ⟨u, inside, known⟩ :=
    (defines.accounts.mentioned next (refers.mentions declared)
      refersNext.declared).resolve_left complete
  obtain ⟨_, member, holds⟩ := defines.made.held _ inside
  exact ⟨_, u, congrArg Prod.fst defines.named, defines.coherent.isFull known refersNext,
    .part member holds⟩

/-- What a type reaches is known when its definition is, but for the type itself. -/
theorem Defines.known_of_reaches {d : TypeDecl} {t : GoType} {T : Set GoType} {s : TypeCache}
    (defines : ctx.Defines d {} t T s) (isDeclared : ctx.declarations.type? d.name = some d)
    {other : String} (reaches : ctx.Reaches d.name other)
    (declared : ctx.declarations.type? other ≠ none) :
    other = d.name ∨ ∃ u, s.known.lookup other = some (some u) := by
  have openOrKnown {x : String} (either : x ∈ s.building ∨ ∃ u, s.known.lookup x = some (some u)) :
      x = d.name ∨ ∃ u, s.known.lookup x = some (some u) :=
    either.imp_left fun opened => by simpa [defines.building] using opened
  induction reaches with
  | refl => exact .inl rfl
  | @tail between other _ refers ih =>
      apply openOrKnown
      rcases ih refers.declared with rfl | ⟨u, known⟩
      · obtain ⟨d', declared', mentions⟩ := refers
        cases isDeclared.symm.trans declared'
        refine (defines.accounts.mentioned other mentions declared).imp_right ?_
        rintro ⟨u, -, known⟩
        exact ⟨u, known⟩
      · exact defines.coherent.closed between _ other known refers declared

/-- A type does not hold another in full that was asked for first. -/
theorem not_holds_first (plain : ctx.PlainTypes) {name first : String}
    (differ : first ≠ name) (declared : ctx.declarations.type? name ≠ none)
    (reaches : ctx.Reaches first name) :
    ∃ t, (ctx.named first {}).2.known.lookup name = some (some t) ∧
      ∀ u, ctx.Full first u → ¬ t.Holds u := by
  obtain ⟨next, refers⟩ := exists_refers_of_reaches reaches (Ne.symm differ)
  obtain ⟨d, t, T, s, isDeclared, rfl, defines⟩ := exists_first plain refers.declared
  obtain ⟨u, known⟩ :=
    (defines.known_of_reaches isDeclared reaches declared).resolve_left (Ne.symm differ)
  refine ⟨u, ?_, fun v full holds => ?_⟩
  · rw [defines.named, lookup_completed_of_ne (Ne.symm differ)]
    exact known
  · have unfinished := defines.coherent.unfinished d.name (by simp [defines.building])
    cases unfinished.symm.trans (defines.coherent.full name u d.name v known full holds)

/-- What a computation mentions settles if its answer is the same after all types: else it holds the
entangled type that it leads to, once with the type behind that in full and once without. -/
theorem settles_of_same (plain : ctx.PlainTypes) {mentions : Set String}
    {m : TypeM (Option GoType)} (yields : ctx.Yields [] mentions ctx.IsType m)
    (same : ∀ first second, (m (ctx.named first {}).2).1 = (m (ctx.named second {}).2).1)
    {name : String} (mentioned : name ∈ mentions) : ctx.Settles name := by
  by_contra unsettled
  obtain ⟨last, entangled, straight⟩ := exists_straight unsettled
  obtain ⟨next, differ, refers, back⟩ := entangled.next
  have declared := straight.declared entangled
  obtain ⟨_, refersNext⟩ := exists_refers_of_reaches back (Ne.symm differ)
  obtain ⟨t, u, isLast, full, holds⟩ := first_holds_next plain differ refers back
  obtain ⟨t', isLast', without⟩ := not_holds_first plain differ entangled.declared back
  have askLast := yieldsFrom_named plain entangled.declared coherent_empty rfl
  have askNext := yieldsFrom_named plain refersNext.declared coherent_empty rfl
  -- Compute the answer, once after the one type and once after the other.
  have afterLast := yields _ askLast.coherent askLast.building
  have afterNext := yields _ askNext.coherent askNext.building
  obtain ⟨T, ⟨w, isAnswer, made⟩, accounts⟩ := afterLast.answered
  obtain ⟨T', ⟨w', isAnswer', made'⟩, accounts'⟩ := afterNext.answered
  cases isAnswer.symm.trans ((same last next).trans isAnswer')
  -- After the first it holds the type that leads to the other; so it does after the second.
  have knownLast := afterLast.grows last _ ((lookup_named plain entangled.declared rfl).trans
    (congrArg some isLast))
  have complete : name ∉ (m (ctx.named last {}).2).2.building := by
    rw [afterLast.building, askLast.building]
    exact List.not_mem_nil
  obtain ⟨v, inside, known⟩ := (accounts.mentioned name mentioned declared).resolve_left complete
  obtain ⟨t₁, known₁, holdsLast⟩ := afterLast.coherent.holds_of_straight straight entangled known
  cases knownLast.symm.trans known₁
  obtain ⟨_, member, holdsName⟩ := made.held v inside
  have inAnswer := made'.only _ member last t (afterLast.coherent.isFull knownLast refers)
    (holdsName.trans holdsLast)
  have knownToo := accounts'.full last t (afterLast.coherent.isFull knownLast refers) inAnswer
  cases knownToo.symm.trans (afterNext.grows last _ isLast')
  exact without u full holds

/-- A function that is written with plain types. -/
structure PlainShape (ctx : FileContext) (f : FunctionShape) : Prop where
  typed : f.Typed
  parts : ∀ c ∈ f.parts, ctx.Plain c

/-- Between questions the signature of a plain function is found. -/
theorem yields_shape (plain : ctx.PlainTypes) {f : FunctionShape} (isPlain : ctx.PlainShape f) :
    ctx.Yields [] (mentionsOf f.parts) ctx.IsType (signatureOf ctx.resolve f).run :=
  yields_signatureOf isPlain.typed fun c part =>
    yields_resolve plain (isPlain.parts c part) (List.forall_mem_nil _)

/-- In a file of plain types a name that denotes the same after all questions settles. -/
theorem OrderFree.settles (plain : ctx.PlainTypes) {name : String}
    (orderFree : ctx.OrderFree name) : ctx.Settles name := by
  by_contra unsettled
  obtain ⟨last, entangled, straight⟩ := exists_straight unsettled
  refine unsettled (settles_of_same plain (yields_named plain (straight.declared entangled)
    (List.forall_mem_nil _) fun _ declared _ => yields_definition plain declared)
    (fun first second => orderFree [.name first] [.name second]) rfl)

theorem Settles.orderFree {name : String} (settles : ctx.Settles name) : ctx.OrderFree name :=
  fun queries queries' =>
    (settles.named_after queries {}).trans (settles.named_after queries' {}).symm

/-- A name that settles denotes the same after all questions, and in a file of plain types no other
does. -/
theorem orderFree_iff_settles (ctx : FileContext) (name : String) :
    (ctx.Settles name → ctx.OrderFree name) ∧
      (ctx.PlainTypes → ctx.OrderFree name → ctx.Settles name) :=
  ⟨Settles.orderFree, fun plain => OrderFree.settles plain⟩

section

open Node

/-- `type name definition` -/
def typeClause (name : String) (definition : Node) : List Node :=
  [construct .typeDeclaration
    [sign "type", construct .typeSpec [word .typeIdentifier name (some .name), definition]],
   sign "\n"]

/-- `package a` and some declarations -/
def fileOf (declarations : List Node) : Node :=
  (construct .sourceFile
    ([construct .packageClause [sign "package", word .packageIdentifier "a"], sign "\n"] ++
      declarations)).numbered

/-- `[]name` -/
def sliceOf (name : String) : Node :=
  construct .sliceType [sign "[", sign "]", word .typeIdentifier name (some .element)] (some .type)

/-- `func all() result { var x type }` -/
def functionClause (result type : String) : List Node :=
  [construct .functionDeclaration
    [sign "func", word .identifier "all" (some .name),
     construct .parameterList [sign "(", sign ")"] (some .parameters),
     word .typeIdentifier result (some .result),
     construct .block
      [sign "\x7b",
       construct .varDeclaration
        [sign "var",
         construct .varSpec
          [word .identifier "x" (some .name), word .typeIdentifier type (some .type)]],
       sign "\x7d"]
      (some .body)],
   sign "\n"]

/-- `type tree []tree`, `type grove map[string]tree` and `func all() grove { var x tree }` -/
def grovesFile : Node :=
  fileOf (typeClause "tree" (sliceOf "tree") ++
    typeClause "grove" (construct .mapType
      [sign "map", sign "[", word .typeIdentifier "string" (some .key), sign "]",
       word .typeIdentifier "tree" (some .value)] (some .type)) ++
    functionClause "grove" "tree")

/-- `type table []row`, `type row []func(table) error` and `func all() table { var x row }` -/
def tablesFile : Node :=
  fileOf (typeClause "table" (sliceOf "row") ++
    typeClause "row" (construct .sliceType
      [sign "[", sign "]",
       construct .functionType
        [sign "func",
         construct .parameterList
          [sign "(", construct .parameterDeclaration [word .typeIdentifier "table" (some .type)],
           sign ")"]
          (some .parameters),
         word .typeIdentifier "error" (some .result)]
        (some .element)]
      (some .type)) ++
    functionClause "table" "row")

def groves : FileContext := ofFile .dot grovesFile

def tables : FileContext := ofFile .dot tablesFile

theorem foreign_error (inPackage : ctx.package ≠ "") : ctx.Foreign .error := by
  intro name u full holds
  have notNamed {w : GoType} (inside : (GoType.interface ["Error"]).Holds w) :
      w.isNamed = false := by
    cases inside with
    | refl => rfl
    | part member _ => cases member
  generalize error : GoType.error = t at holds
  cases holds with
  | refl =>
      cases full
      exact inPackage (GoType.named.inj error).1.symm
  | part member inside =>
      subst error
      rw [List.mem_singleton.mp member] at inside
      exact absurd full.isNamed (by simp [notNamed inside])

/-- A grove is above trees, and trees are above nothing. -/
def groveRank (name : String) : Nat := if name = "grove" then 1 else 0

theorem settles_groves (name : String) : groves.Settles name :=
  settles_of_rank groveRank (by decide +kernel) name

theorem plain_name {n : Node} (kind : n.kind = .typeIdentifier)
    (known : ctx.declarations.type? n.text ≠ none ∨
      ∃ t, ctx.predeclaredType? n.text = some t ∧ ctx.Foreign t) : ctx.Plain n := by
  refine .intro (by simpa only [plainForm, kind] using known) fun c member => ?_
  simp [typeParts, kind] at member

theorem plain_slice {n c : Node} (kind : n.kind = .sliceType)
    (child : n.child? .element = some c) (plain : ctx.Plain c) : ctx.Plain n := by
  refine .intro (by simp [plainForm, kind, child]) fun c' member => ?_
  simp only [typeParts, kind, child, Option.toList_some, List.mem_singleton] at member
  exact member ▸ plain

theorem plainTypes_tables : tables.PlainTypes := by
  have each : ∀ d ∈ tables.declarations.types,
      d.isAlias = false ∧ tables.Plain d.target ∧ d.target.kind ∈ literalKinds := by
    refine List.forall_mem_cons.mpr ⟨⟨rfl, plain_slice rfl rfl (.intro ?_ ?_), by decide⟩,
      List.forall_mem_singleton.mpr
        ⟨rfl, plain_slice rfl rfl (plain_name rfl (.inl nofun)), by decide⟩⟩
    · refine List.forall_mem_cons.mpr ⟨List.forall_mem_singleton.mpr nofun, ?_⟩
      exact List.forall_mem_singleton.mpr (List.forall_mem_nil _)
    · refine List.forall_mem_cons.mpr ⟨plain_name rfl (.inl nofun), ?_⟩
      exact List.forall_mem_singleton.mpr
        (plain_name rfl (.inr ⟨_, rfl, foreign_error (by decide)⟩))
  refine ⟨fun name d declared => ?_, fun name d declared => ?_, fun name d declared => ?_⟩
  · exact (each d (Declarations.mem_types_of_type? declared)).1
  · exact (each d (Declarations.mem_types_of_type? declared)).2.1
  · exact (each d (Declarations.mem_types_of_type? declared)).2.2

theorem conforms_tables : tablesFile.Conforms Go.rules :=
  conforms_of_checks 60 (by decide +kernel)

theorem refers_tables : tables.Refers "row" "table" ∧ tables.Refers "table" "row" :=
  ⟨⟨_, rfl, by decide +kernel⟩, _, rfl, by decide +kernel⟩

theorem unsettled_tables : ¬ tables.Settles "row" ∧ ¬ tables.Settles "table" := by
  obtain ⟨toTable, toRow⟩ := refers_tables
  constructor <;> intro settles
  · exact absurd (settles "row" "table" .refl (.single toTable) (.single toRow)) (by decide)
  · exact absurd (settles "table" "row" .refl (.single toRow) (.single toTable)) (by decide)

/-- A grove denotes the same after all questions, though trees are defined by themselves; a row
does not, which is defined by the table of such rows. -/
theorem orderFree_iff_settles_samples :
    (groves.Settles "grove" ∧ groves.OrderFree "grove") ∧
      tables.PlainTypes ∧ ¬ tables.Settles "row" ∧ ¬ tables.OrderFree "row" :=
  ⟨⟨settles_groves _, (orderFree_iff_settles groves "grove").1 (settles_groves _)⟩,
    plainTypes_tables, unsettled_tables.1,
    fun free => unsettled_tables.1 ((orderFree_iff_settles tables "row").2 plainTypes_tables free)⟩

/-- A row that is asked for at first takes tables whose definition is known, and one that is asked
for after the table takes tables that stand for themselves. -/
theorem row_after_table :
    tablesFile.Conforms Go.rules ∧
      (tables.named "row" {}).1 = some (.named "a" "row" [] (.slice (.signature
        [.named "a" "table" [] (.slice (.named "a" "row" [] .struct))] [.error]))) ∧
      (tables.named "row" (tables.after [.name "table"] {})).1 =
        some (.named "a" "row" [] (.slice (.signature [.named "a" "table" [] .struct] [.error]))) ∧
      ¬ tables.OrderFree "row" := by
  refine ⟨conforms_tables, rfl, rfl, fun free => ?_⟩
  cases free [] [.name "table"]

end

end FileContext

end GomegaLint
