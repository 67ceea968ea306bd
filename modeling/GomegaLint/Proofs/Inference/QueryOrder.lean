import Mathlib
import GomegaLint.Proofs.Inference.Resolution

/-!
# The order in which types are asked for

The type of a declared name is kept once it is resolved, and it may be resolved while other types
are under construction, which then stand in it for themselves.  Of two types whose definitions
refer to each other, the one asked for first is resolved in full and the other in part: what a
name denotes can depend on the questions before.

It does not where no such group is within reach.  `FileContext.Settles` says so of a name, and
`FileContext.Settles.named_after` that its type is then the same after all questions: of the types
under construction when it is met none occurs in it but itself.
-/

namespace GomegaLint

namespace Node

/-- A type expression mentions a name, as a part that the type is made of. -/
inductive Mentions : Node → String → Prop
  | name {n : Node} (isName : n.isTypeName = true) : Mentions n n.text
  | part {n c : Node} {name : String} (isPart : c ∈ n.typeParts) (mentions : Mentions c name) :
      Mentions n name

/-- The names that a type expression mentions, at most `levels` deep. -/
def mentionedIn : Nat → Node → List String
  | 0, _ => []
  | levels + 1, n =>
    (if n.isTypeName then [n.text] else []) ++ n.typeParts.flatMap (mentionedIn levels)

theorem mem_mentionedIn_iff {levels : Nat} {n : Node} (deep : n.depth ≤ levels) {name : String} :
    name ∈ n.mentionedIn levels ↔ n.Mentions name := by
  induction levels generalizing n with
  | zero => exact absurd n.depth_pos (by omega)
  | succ levels ih =>
      have below {c : Node} (part : c ∈ n.typeParts) : c.depth ≤ levels := by
        have := depth_typeParts part
        omega
      rw [mentionedIn, List.mem_append, List.mem_flatMap]
      constructor
      · rintro (isName | ⟨c, part, inside⟩)
        · split at isName
          · exact List.mem_singleton.mp isName ▸ .name ‹_›
          · cases isName
        · exact .part part ((ih (below part)).mp inside)
      · rintro (isName | ⟨part, mentions⟩)
        · simp [isName]
        · exact .inr ⟨_, part, (ih (below part)).mpr mentions⟩

instance (n : Node) (name : String) : Decidable (n.Mentions name) :=
  decidable_of_iff (name ∈ n.mentionedIn n.depth) (mem_mentionedIn_iff le_rfl)

end Node

namespace FileContext

section

variable (ctx : FileContext)

/-- The definition of a type mentions another. -/
def Refers (name other : String) : Prop :=
  ∃ d, ctx.declarations.type? name = some d ∧ d.target.Mentions other

/-- The definition of a type mentions another, through any number of definitions. -/
def Reaches : String → String → Prop := Relation.ReflTransGen ctx.Refers

/-- No two types within reach of a name are defined by each other. -/
def Settles (name : String) : Prop :=
  ∀ a b, ctx.Reaches name a → ctx.Reaches a b → ctx.Reaches b a → a = b

/-- A type within reach of another that does not reach it back. -/
def Below (name other : String) : Prop := ctx.Reaches other name ∧ ¬ ctx.Reaches name other

end

variable {ctx : FileContext}

theorem Settles.of_reaches {name other : String} (settles : ctx.Settles name)
    (reaches : ctx.Reaches name other) : ctx.Settles other :=
  fun a b there => settles a b (reaches.trans there)

/-- A settled type is above all that it refers to, but itself. -/
theorem Settles.below {name other : String} (settles : ctx.Settles name)
    (reaches : ctx.Reaches name other) (differ : other ≠ name) : ctx.Below other name :=
  ⟨reaches, fun back => differ (settles name other .refl reaches back).symm⟩

/-- All names settle if the types are defined by themselves and by types of lower rank. -/
theorem settles_of_rank (rank : String → Nat)
    (falls : ∀ d ∈ ctx.declarations.types, ∀ b ∈ d.target.mentionedIn d.target.depth,
      b = d.name ∨ rank b < rank d.name) (name : String) :
    ctx.Settles name := by
  have reaches {a b : String} (there : ctx.Reaches a b) : b = a ∨ rank b < rank a := by
    induction there with
    | refl => exact .inl rfl
    | tail _ refers ih =>
        obtain ⟨d, declared, mentions⟩ := refers
        obtain rfl := Declarations.name_of_type? declared
        rcases falls d (Declarations.mem_types_of_type? declared) _
          ((Node.mem_mentionedIn_iff le_rfl).mpr mentions) with rfl | lower
        · exact ih
        · exact .inr (ih.elim (fun same => same ▸ lower) lower.trans)
  intro a b _ there back
  rcases reaches there with same | lower
  · exact same.symm
  · exact (reaches back).resolve_right (by omega)

/-- The declared types within reach of a name. -/
def within (ctx : FileContext) (name : String) : Set String :=
  { x | x ∈ ctx.declarations.types.map (·.name) ∧ ctx.Reaches name x }

theorem within_finite (name : String) : (ctx.within name).Finite :=
  (ctx.declarations.types.map (·.name)).finite_toSet.subset fun _ => And.left

variable (ctx) in
theorem wellFounded_below : WellFounded ctx.Below := by
  refine Subrelation.wf ?_ (measure fun name => (ctx.within name).ncard).wf
  rintro name other ⟨reaches, notBack⟩
  refine Set.ncard_lt_ncard ⟨fun x inside => ⟨inside.1, reaches.trans inside.2⟩, ?_⟩
    (within_finite other)
  -- The type above is within its own reach, and out of the reach of the one below.
  intro subset
  obtain rfl | ⟨_, ⟨d, declared, _⟩, _⟩ := reaches.cases_head
  · exact notBack .refl
  · have member : other ∈ ctx.declarations.types.map (·.name) :=
      List.mem_map.mpr ⟨d, Declarations.mem_types_of_type? declared,
        Declarations.name_of_type? declared⟩
    exact notBack (subset ⟨member, .refl⟩).2

end FileContext

/-! ## Computations with one answer -/

/-- From all states with a property the answer is one and the same, and the property is kept. -/
def Fixed (holds : TypeCache → Prop) (α : Type) (m _ : TypeM α) : Prop :=
  ∃ a, ∀ s, holds s → (m s).1 = a ∧ holds (m s).2

theorem Fixed.congruent (holds : TypeCache → Prop) : Congruent (Fixed holds) where
  pure a := ⟨a, fun _ holding => ⟨rfl, holding⟩⟩
  bind {_ _ m _ f _} first second := by
    obtain ⟨a, first⟩ := first
    obtain ⟨b, second⟩ := second a
    refine ⟨b, fun s holding => ?_⟩
    obtain ⟨answer, kept⟩ := first s holding
    subst answer
    exact second (m s).2 kept

/-- A property of states is kept. -/
def Preserved (holds : TypeCache → Prop) (α : Type) (m _ : TypeM α) : Prop :=
  ∀ s, holds s → holds (m s).2

theorem Preserved.congruent (holds : TypeCache → Prop) : Congruent (Preserved holds) where
  pure _ := fun _ holding => holding
  bind {_ _ m _ _ _} first second := fun s holding => second (m s).1 (m s).2 (first s holding)

/-! ## The states that questions lead to -/

namespace FileContext

/-- What was known is still known, of the types under construction nothing new, and of the
settled types only what they denoted at first. -/
structure Agrees (ctx : FileContext) (base s : TypeCache) : Prop where
  under : ∀ name ∈ base.building, name ∈ s.building
  kept : ∀ name t, base.known.lookup name = some t → s.known.lookup name = some t
  unfinished : ∀ name ∈ s.building, s.known.lookup name = base.known.lookup name
  settled : ∀ name t, ctx.Settles name → s.known.lookup name = some t →
    t = (ctx.named name base).1

namespace Agrees

variable {ctx : FileContext} {base s : TypeCache}

theorem refl (base : TypeCache) : ctx.Agrees base base where
  under _ := id
  kept _ _ := id
  unfinished _ _ := rfl
  settled name t _ known := by rw [named, namedType_known known]

theorem lookup_base (agrees : ctx.Agrees base s) {name : String}
    (unknown : s.known.lookup name = none) : base.known.lookup name = none := by
  cases known : base.known.lookup name with
  | none => rfl
  | some t => cases unknown.symm.trans (agrees.kept name t known)

/-- The definition of a type is started. -/
theorem started (agrees : ctx.Agrees base s) {name : String}
    (unknown : s.known.lookup name = none) :
    ctx.Agrees base { s with building := name :: s.building } where
  under x inBase := List.mem_cons_of_mem _ (agrees.under x inBase)
  kept := agrees.kept
  unfinished x inside := by
    rcases List.mem_cons.mp inside with rfl | behind
    · exact unknown.trans (agrees.lookup_base unknown).symm
    · exact agrees.unfinished x behind
  settled := agrees.settled

/-- The definition of a type is completed. -/
theorem completed {d : TypeDecl} {type : Option GoType} {building : List String}
    (agrees : ctx.Agrees base s) (under : s.building = d.name :: building)
    (fresh : d.name ∉ building) (subset : ∀ x ∈ base.building, x ∈ building)
    (unknown : base.known.lookup d.name = none)
    (settled : ctx.Settles d.name → type = (ctx.named d.name base).1) :
    ctx.Agrees base (completed d type s) := by
  have left : (FileContext.completed d type s).building = building := by
    simp [FileContext.completed, under]
  refine ⟨?_, fun x t known => ?_, fun x inside => ?_, fun x t settles known => ?_⟩
  · rw [left]
    exact subset
  · have other : x ≠ d.name := by rintro rfl; cases unknown.symm.trans known
    rw [lookup_completed_of_ne other]
    exact agrees.kept x t known
  · rw [left] at inside
    rw [lookup_completed_of_ne (ne_of_mem_of_not_mem inside fresh)]
    exact agrees.unfinished x (under ▸ List.mem_cons_of_mem _ inside)
  · by_cases other : x = d.name
    · subst other
      rw [lookup_completed_self] at known
      split at known
      · exact agrees.settled _ t settles known
      · exact (Option.some.inj known).symm.trans (settled settles)
    · rw [lookup_completed_of_ne other] at known
      exact agrees.settled x t settles known

end Agrees

/-! ## Settled types -/

variable {ctx : FileContext} {base : TypeCache}

/-- A name denotes what it denoted at first wherever no further type that it reaches is under
construction. -/
def Steady (ctx : FileContext) (base : TypeCache) (name : String) : Prop :=
  ∀ s, ctx.Agrees base s →
    (∀ x ∈ s.building, ctx.Reaches name x → x ∈ base.building) →
    (ctx.named name s).1 = (ctx.named name base).1 ∧ ctx.Agrees base (ctx.named name s).2

/-- The states in which the definition of a type is resolved, and of the types that it reaches no
further one is under construction. -/
structure Defining (ctx : FileContext) (base : TypeCache) (name : String) (s : TypeCache) :
    Prop where
  agrees : ctx.Agrees base s
  started : name ∈ s.building
  others : ∀ x ∈ s.building, ctx.Reaches name x → x ∈ base.building ∨ x = name

/-- An expression of steady names, and of the name whose definition it is in, has one type. -/
theorem fixed_of_mentions {name : String} {d : TypeDecl}
    (declared : ctx.declarations.type? name = some d) (settles : ctx.Settles name)
    (unknown : base.known.lookup name = none) (steady : ∀ k, ctx.Below k name → ctx.Steady base k)
    {n : Node} (mentions : ∀ k, n.Mentions k → ctx.Reaches name k) :
    Fixed (ctx.Defining base name) _ (ctx.resolve n) (ctx.resolve n) := by
  have law := Fixed.congruent (ctx.Defining base name)
  induction [], n using resolve_induction ctx with
  | step _ n parts _ =>
      rw [resolve_eq]
      refine law.resolveStep (fun c part => parts c part fun k inside =>
        mentions k (.part part inside)) fun isName => ?_
      change Fixed _ _ (ctx.named n.text) (ctx.named n.text)
      by_cases self : n.text = name
      · refine ⟨ctx.standIn d, fun s defining => ?_⟩
        have stands : ctx.named n.text s = (ctx.standIn d, s) := by
          rw [self]
          have stillUnknown := (defining.agrees.unfinished name defining.started).trans unknown
          exact namedType_building stillUnknown declared defining.started
        rw [stands]
        exact ⟨rfl, defining⟩
      · have below := settles.below (mentions n.text (.name isName)) self
        refine ⟨(ctx.named n.text base).1, fun s defining => ?_⟩
        have others (x : String) (inside : x ∈ s.building) (reaches : ctx.Reaches n.text x) :
            x ∈ base.building :=
          (defining.others x inside (below.1.trans reaches)).resolve_right
            fun isName => below.2 (isName ▸ reaches)
        obtain ⟨same, agrees⟩ := steady n.text below s defining.agrees others
        refine ⟨same, agrees, ?_, ?_⟩
        · rw [building_named]
          exact defining.started
        · rw [building_named]
          exact defining.others

/-- The type of a settled name is the same in all states that agree, unless its definition is met
again within itself. -/
theorem Settles.steady {name : String} (settles : ctx.Settles name) : ctx.Steady base name := by
  induction name using ctx.wellFounded_below.induction with
  | _ name ih =>
  intro s agrees others
  cases lookup : s.known.lookup name with
  | some t =>
      have known : ctx.named name s = (t, s) := namedType_known lookup
      rw [known]
      exact ⟨agrees.settled name t settles lookup, agrees⟩
  | none =>
      have unknown := agrees.lookup_base lookup
      cases declared : ctx.declarations.type? name with
      | none =>
          rw [named, namedType_undeclared lookup declared, namedType_undeclared unknown declared]
          exact ⟨rfl, agrees⟩
      | some d =>
          by_cases under : name ∈ s.building
          · have underBase := others name under .refl
            rw [named, namedType_building lookup declared under,
              namedType_building unknown declared underBase]
            exact ⟨rfl, agrees⟩
          · have underBase : name ∉ base.building := fun inBase => under (agrees.under name inBase)
            -- The definition is resolved from two states that agree.
            obtain ⟨target, same⟩ := fixed_of_mentions declared settles unknown
              (fun k below => ih k below (settles.of_reaches below.1))
              (n := d.target) fun k inside => .single ⟨d, declared, inside⟩
            have here := same { s with building := name :: s.building }
              ⟨agrees.started lookup, List.mem_cons_self, fun x inside reaches =>
                (List.mem_cons.mp inside).elim .inr fun behind => .inl (others x behind reaches)⟩
            have atBase := same { base with building := name :: base.building }
              ⟨(Agrees.refl base).started unknown, List.mem_cons_self, fun x inside _ =>
                (List.mem_cons.mp inside).symm⟩
            have isName := Declarations.name_of_type? declared
            have answer : (ctx.named name base).1 = ctx.denoted d target := by
              rw [named, namedType_fresh unknown declared underBase, atBase.1]
            rw [answer, named, namedType_fresh lookup declared under, here.1]
            refine ⟨rfl, here.2.agrees.completed ?_ ?_ agrees.under ?_ ?_⟩
            · rw [building_resolve, isName]
            · rwa [isName]
            · rwa [isName]
            · rw [isName, answer]
              exact fun _ => rfl

/-! ## All questions -/

/-- A name keeps to the states that agree if its definition does. -/
theorem agrees_named {name : String} {s : TypeCache} (agrees : ctx.Agrees base s)
    (above : ∀ x ∈ s.building, x ∈ base.building ∨ ctx.Reaches x name)
    (definition : ∀ d, ctx.declarations.type? name = some d → name ∉ s.building →
      Preserved (fun s' => ctx.Agrees base s' ∧ s'.building = name :: s.building) _
        (ctx.resolve d.target) (ctx.resolve d.target)) :
    ctx.Agrees base (ctx.named name s).2 := by
  cases lookup : s.known.lookup name with
  | some t =>
      rw [named, namedType_known lookup]
      exact agrees
  | none =>
      cases declared : ctx.declarations.type? name with
      | none =>
          rw [named, namedType_undeclared lookup declared]
          exact agrees
      | some d =>
          by_cases under : name ∈ s.building
          · rw [named, namedType_building lookup declared under]
            exact agrees
          by_cases settles : ctx.Settles name
          · refine (settles.steady s agrees fun x inside reaches => ?_).2
            refine (above x inside).resolve_right fun back => under ?_
            rwa [settles name x .refl reaches back]
          · have isName := Declarations.name_of_type? declared
            obtain ⟨defined, building⟩ := definition d declared under
              { s with building := name :: s.building } ⟨agrees.started lookup, rfl⟩
            rw [named, namedType_fresh lookup declared under]
            refine defined.completed (building.trans (by rw [isName])) ?_ agrees.under ?_
              fun settles' => absurd (isName ▸ settles') settles
            · rwa [isName]
            · rw [isName]
              exact agrees.lookup_base lookup

/-- Resolution keeps to the states that agree, if all further types under construction reach what
is resolved. -/
theorem preserved_resolve {building : List String} {n : Node}
    (above : ∀ x ∈ building, x ∈ base.building ∨ ∀ k, n.Mentions k → ctx.Reaches x k) :
    Preserved (fun s => ctx.Agrees base s ∧ s.building = building) _
      (ctx.resolve n) (ctx.resolve n) := by
  induction building, n using resolve_induction ctx with
  | step building n parts definition =>
      rw [resolve_eq]
      refine (Preserved.congruent _).resolveStep (fun c part => parts c part fun x inside =>
        (above x inside).imp_right fun reaches k inPart => reaches k (.part part inPart))
        fun isName s => ?_
      rintro ⟨agrees, rfl⟩
      refine ⟨agrees_named agrees (fun x inside => (above x inside).imp_right fun reaches =>
        reaches n.text (.name isName)) fun d declared fresh => ?_, building_named n.text s⟩
      refine definition d isName declared fresh fun x inside => ?_
      have refers (k : String) (mentions : d.target.Mentions k) : ctx.Refers n.text k :=
        ⟨d, declared, mentions⟩
      rcases List.mem_cons.mp inside with rfl | behind
      · exact .inr fun k mentions => .single (refers k mentions)
      · exact (above x behind).imp_right fun reaches k mentions =>
          (reaches n.text (.name isName)).tail (refers k mentions)

/-- The states in between the questions. -/
def AtRest (ctx : FileContext) (base s : TypeCache) : Prop :=
  ctx.Agrees base s ∧ s.building = base.building

theorem AtRest.refl (base : TypeCache) : ctx.AtRest base base := ⟨Agrees.refl base, rfl⟩

theorem atRest_resolve (n : Node) :
    Preserved (ctx.AtRest base) _ (ctx.resolve n) (ctx.resolve n) :=
  preserved_resolve fun _ => .inl

theorem atRest_named (name : String) :
    Preserved (ctx.AtRest base) _ (ctx.named name) (ctx.named name) := by
  rintro s ⟨agrees, building⟩
  refine ⟨agrees_named agrees (fun x inside => .inl (building ▸ inside)) fun d declared _ =>
    preserved_resolve fun x inside => ?_, (building_named name s).trans building⟩
  rcases List.mem_cons.mp inside with rfl | behind
  · exact .inr fun k mentions => .single ⟨d, declared, mentions⟩
  · exact .inl (building ▸ behind)

/-- In between questions a settled name denotes what it denoted at first. -/
theorem Settles.named_eq {name : String} (settles : ctx.Settles name) {s : TypeCache}
    (rest : ctx.AtRest base s) : (ctx.named name s).1 = (ctx.named name base).1 :=
  (settles.steady s rest.1 fun _ inside _ => rest.2 ▸ inside).1

theorem Settles.fixed_named {name : String} (settles : ctx.Settles name) :
    Fixed (ctx.AtRest base) _ (ctx.named name) (ctx.named name) :=
  ⟨_, fun s rest => ⟨settles.named_eq rest, atRest_named name s rest⟩⟩

/-- In between questions an expression of settled names denotes what it denoted at first. -/
theorem fixed_resolve {n : Node} (settles : ∀ k, n.Mentions k → ctx.Settles k) :
    Fixed (ctx.AtRest base) _ (ctx.resolve n) (ctx.resolve n) := by
  induction [], n using resolve_induction ctx with
  | step _ n parts _ =>
      rw [resolve_eq]
      exact (Fixed.congruent _).resolveStep
        (fun c part => parts c part fun k inside => settles k (.part part inside))
        fun isName => (settles n.text (.name isName)).fixed_named

/-- A question for a type. -/
inductive Query where
  | name (name : String)
  | expression (n : Node)

/-- The answer to a question. -/
def ask (ctx : FileContext) : Query → TypeM (Option GoType)
  | .name name => ctx.named name
  | .expression n => ctx.resolve n

/-- What is known after some questions. -/
def after (ctx : FileContext) (queries : List Query) (base : TypeCache) : TypeCache :=
  queries.foldl (fun s q => (ctx.ask q s).2) base

theorem atRest_after {s : TypeCache} (rest : ctx.AtRest base s) (queries : List Query) :
    ctx.AtRest base (ctx.after queries s) := by
  induction queries generalizing s with
  | nil => exact rest
  | cons q queries ih =>
      refine ih (s := (ctx.ask q s).2) ?_
      cases q with
      | name name => exact atRest_named name s rest
      | expression n => exact atRest_resolve n s rest

/-- The type of a settled name is the same after all questions. -/
theorem Settles.named_after {name : String} (settles : ctx.Settles name) (queries : List Query)
    (base : TypeCache) : (ctx.named name (ctx.after queries base)).1 = (ctx.named name base).1 :=
  settles.named_eq (atRest_after (AtRest.refl base) queries)

end FileContext

end GomegaLint
