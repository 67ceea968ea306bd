import Mathlib
import GomegaLint.Proofs.Inference.QueryOrder

/-!
# What is known of types that are given in full

In a file whose types are defined by pointers, slices, maps, channels, functions, structs and
lists of methods over one another, every type that is asked for becomes known, and all types that
its definition mentions with it.  A type stands in the definition of another in full, and then it
is the one that is known of it; or it stands for itself, where the other was met within its own
definition (`FileContext.Coherent`).

From this follows that groups of types that are defined by each other are told apart by the order
of the questions: the type that is asked for first does not stand in full in the others, and the
others stand in full in it.
-/

namespace GomegaLint

namespace GoType

/-- The types that a type is made of. -/
def parts : GoType → List GoType
  | .named _ _ _ d => [d]
  | .pointer t | .slice t | .chan t => [t]
  | .map k v => [k, v]
  | .signature ps rs => ps ++ rs
  | .tuple ts => ts
  | _ => []

/-- A type occurs in another. -/
inductive Holds : GoType → GoType → Prop
  | refl (t : GoType) : Holds t t
  | part {w t u : GoType} (member : t ∈ w.parts) (inside : Holds t u) : Holds w u

theorem Holds.trans {t u v : GoType} (outer : t.Holds u) (inner : u.Holds v) : t.Holds v := by
  induction outer with
  | refl => exact inner
  | part member _ ih => exact .part member (ih inner)

end GoType

/-- Every parameter and every listed result of a function has a type. -/
def FunctionShape.Typed (f : FunctionShape) : Prop :=
  ∀ list ∈ f.parameters.toList ++ f.result.toList,
    ∀ p ∈ list.parts.filter Node.isParameter, p.child? .type ≠ none

namespace FileContext

variable (ctx : FileContext)

/-- A defined type of the file that stands in full, not for itself. -/
inductive Full : String → GoType → Prop
  | intro {name : String} {definition : GoType} (declared : ctx.declarations.type? name ≠ none)
      (expanded : definition ≠ .struct) : Full name (ctx.definedType name definition)

/-- A type that no type of the file stands in. -/
def Foreign (t : GoType) : Prop := ∀ name u, ctx.Full name u → ¬ t.Holds u

/-! ## Plain types -/

/-- The form of a type expression whose type is known by those of its parts, and holds them. -/
def plainForm (n : Node) : Prop :=
  match n.kind with
  | .typeIdentifier | .identifier =>
    ctx.declarations.type? n.text ≠ none ∨ ∃ t, ctx.predeclaredType? n.text = some t ∧ ctx.Foreign t
  | .qualifiedType => ∃ t, ctx.qualifiedType? n = some t ∧ ctx.Foreign t
  | .pointerType | .parenthesizedType => n.firstNamed? ≠ none
  | .sliceType | .arrayType | .implicitLengthArrayType => n.child? .element ≠ none
  | .mapType => n.child? .key ≠ none ∧ n.child? .value ≠ none
  | .channelType => n.child? .value ≠ none
  | .functionType => (FunctionShape.ofNode n).Typed
  | .structType => True
  | .interfaceType => n.typeParts = []
  | _ => False

/-- A type expression that is plain throughout. -/
inductive Plain : Node → Prop
  | intro {n : Node} (form : ctx.plainForm n) (parts : ∀ c ∈ n.typeParts, Plain c) : Plain n

/-- The expressions for types that are not named. -/
def literalKinds : List Kind :=
  [.pointerType, .sliceType, .arrayType, .mapType, .channelType, .functionType, .structType,
    .interfaceType]

/-- The types of the file are defined anew and by plain expressions, not by a name alone. -/
structure PlainTypes : Prop where
  defined : ∀ name d, ctx.declarations.type? name = some d → d.isAlias = false
  plain : ∀ name d, ctx.declarations.type? name = some d → ctx.Plain d.target
  literal : ∀ name d, ctx.declarations.type? name = some d → d.target.kind ∈ literalKinds

/-! ## What is known -/

/-- What is known of the types of the file: each is known in full, with all that its definition
mentions or that is under construction; what it holds in full is what is known; and what it
mentions it holds, unless that was met within its own definition. -/
structure Coherent (s : TypeCache) : Prop where
  unfinished : ∀ name ∈ s.building, s.known.lookup name = none
  complete : ∀ name t, s.known.lookup name = some t → ctx.declarations.type? name ≠ none ∧
    ∃ definition, t = some (ctx.definedType name definition) ∧
      ((∃ other, ctx.Refers name other) → definition ≠ .struct)
  full : ∀ name t other u, s.known.lookup name = some (some t) → ctx.Full other u → t.Holds u →
    s.known.lookup other = some (some u)
  closed : ∀ name t other, s.known.lookup name = some t → ctx.Refers name other →
    ctx.declarations.type? other ≠ none →
    other ∈ s.building ∨ ∃ u, s.known.lookup other = some (some u)
  holds : ∀ name t other, s.known.lookup name = some (some t) → ctx.Refers name other →
    ctx.declarations.type? other ≠ none →
    ctx.Reaches other name ∨ ∃ u, s.known.lookup other = some (some u) ∧ t.Holds u

/-- The types that some names stand for are known, if they are not under construction, and all
types that stand in full are those known. -/
structure Accounts (mentions : Set String) (types : Set GoType) (s : TypeCache) : Prop where
  mentioned : ∀ name ∈ mentions, ctx.declarations.type? name ≠ none →
    name ∈ s.building ∨ ∃ t ∈ types, s.known.lookup name = some (some t)
  full : ∀ name u, ctx.Full name u → u ∈ types → s.known.lookup name = some (some u)

/-- Types that are made of others: they hold all of these, and in full none but these. -/
structure MadeOf (ts : List GoType) (types : Set GoType) : Prop where
  held : ∀ u ∈ types, ∃ t ∈ ts, t.Holds u
  only : ∀ t ∈ ts, ∀ name u, ctx.Full name u → t.Holds u → u ∈ types

/-- From a state a computation leads to one with more that is known and still coherent, and its
answer is made of the types of the names that it mentions. -/
structure YieldsFrom (s : TypeCache) (mentions : Set String) {α : Type}
    (answer : α → Set GoType → Prop) (m : TypeM α) : Prop where
  coherent : ctx.Coherent (m s).2
  building : (m s).2.building = s.building
  grows : ∀ name t, s.known.lookup name = some t → (m s).2.known.lookup name = some t
  answered : ∃ types, answer (m s).1 types ∧ ctx.Accounts mentions types (m s).2

/-- A computation yields types from all coherent states with the given types under
construction. -/
def Yields (building : List String) (mentions : Set String) {α : Type}
    (answer : α → Set GoType → Prop) (m : TypeM α) : Prop :=
  ∀ s, ctx.Coherent s → s.building = building → ctx.YieldsFrom s mentions answer m

variable {ctx}

theorem Full.isNamed {name : String} {u : GoType} (full : ctx.Full name u) :
    u.isNamed = true := by
  cases full
  rfl

/-! ## Types made of others -/

theorem madeOf_nil : ctx.MadeOf [] ∅ where
  held _ none := none.elim
  only _ none := absurd none List.not_mem_nil

theorem MadeOf.append {ts us : List GoType} {T U : Set GoType} (first : ctx.MadeOf ts T)
    (second : ctx.MadeOf us U) : ctx.MadeOf (ts ++ us) (T ∪ U) where
  held u inside := by
    rcases inside with inFirst | inSecond
    · obtain ⟨t, member, holds⟩ := first.held u inFirst
      exact ⟨t, List.mem_append_left _ member, holds⟩
    · obtain ⟨t, member, holds⟩ := second.held u inSecond
      exact ⟨t, List.mem_append_right _ member, holds⟩
  only t member name u full holds := by
    rcases List.mem_append.mp member with inFirst | inSecond
    · exact .inl (first.only t inFirst name u full holds)
    · exact .inr (second.only t inSecond name u full holds)

theorem MadeOf.replicate {t : GoType} {T : Set GoType} (made : ctx.MadeOf [t] T) {k : Nat}
    (positive : 0 < k) : ctx.MadeOf (List.replicate k t) T where
  held u inside := by
    obtain ⟨_, member, holds⟩ := made.held u inside
    rw [List.mem_singleton.mp member] at holds
    exact ⟨t, List.mem_replicate.mpr ⟨positive.ne', rfl⟩, holds⟩
  only t' member := made.only t' (List.mem_singleton.mpr (List.eq_of_mem_replicate member))

/-- A type that is not a defined one is made of what its parts are. -/
theorem MadeOf.whole {w : GoType} {T : Set GoType} (made : ctx.MadeOf w.parts T)
    (literal : w.isNamed = false) : ctx.MadeOf [w] T where
  held u inside := by
    obtain ⟨t, member, holds⟩ := made.held u inside
    exact ⟨w, List.mem_singleton_self w, .part member holds⟩
  only w' member name u full holds := by
    obtain rfl := List.mem_singleton.mp member
    cases holds with
    | refl => exact absurd full.isNamed (by simp [literal])
    | part inParts inside => exact made.only _ inParts name u full inside

/-! ## Computations whose answers are known -/

section

variable {building : List String} {α β : Type}

theorem Accounts.mono {P P' : Set String} {T : Set GoType} {s : TypeCache} (subset : P' ⊆ P)
    (accounts : ctx.Accounts P T s) : ctx.Accounts P' T s where
  mentioned name inside := accounts.mentioned name (subset inside)
  full := accounts.full

theorem Yields.mono {P P' : Set String} {R : α → Set GoType → Prop} {m : TypeM α}
    (yields : ctx.Yields building P R m) (subset : P' ⊆ P) : ctx.Yields building P' R m := by
  intro s coherent under
  have outcome := yields s coherent under
  obtain ⟨T, is, accounts⟩ := outcome.answered
  exact { outcome with answered := ⟨T, is, accounts.mono subset⟩ }

theorem Yields.pure {R : α → Set GoType → Prop} {a : α} (answer : R a ∅) :
    ctx.Yields building ∅ R (Pure.pure a) := by
  intro s coherent _
  exact ⟨coherent, rfl, fun _ _ => id, ∅, answer, fun _ none => none.elim,
    fun _ _ _ none => none.elim⟩

theorem Yields.bind {P Q : Set String} {R : α → Set GoType → Prop} {S : β → Set GoType → Prop}
    {m : TypeM α} {f : α → TypeM β} (first : ctx.Yields building P R m)
    (second : ∀ a T, R a T → ctx.Yields building Q (fun b U => S b (T ∪ U)) (f a)) :
    ctx.Yields building (P ∪ Q) S (m >>= f) := by
  intro s coherent under
  obtain ⟨between, kept, grows, T, is, accounts⟩ := first s coherent under
  obtain ⟨after, keptAfter, growsAfter, U, isAfter, accountsAfter⟩ :=
    second _ T is (m s).2 between (kept.trans under)
  refine ⟨after, keptAfter.trans kept, fun name t known => growsAfter name t (grows name t known),
    T ∪ U, isAfter, ?_, ?_⟩
  · rintro name (inFirst | inSecond) declared
    · rcases accounts.mentioned name inFirst declared with opened | ⟨t, inside, known⟩
      · exact .inl (keptAfter ▸ opened)
      · exact .inr ⟨t, .inl inside, growsAfter name _ known⟩
    · rcases accountsAfter.mentioned name inSecond declared with opened | ⟨t, inside, known⟩
      · exact .inl opened
      · exact .inr ⟨t, .inr inside, known⟩
  · rintro name u full (inFirst | inSecond)
    · exact growsAfter name _ (accounts.full name u full inFirst)
    · exact accountsAfter.full name u full inSecond

/-- The answer of a computation that goes on. -/
theorem Yields.map {P : Set String} {R : α → Set GoType → Prop} {S : β → Set GoType → Prop}
    {m : TypeM α} {f : α → β} (first : ctx.Yields building P R m)
    (answer : ∀ a T, R a T → S (f a) T) :
    ctx.Yields building P S (m >>= fun a => Pure.pure (f a)) := by
  have both := first.bind (S := S) (f := fun a => Pure.pure (f a)) fun a T is =>
    .pure (by simpa using answer a T is)
  simpa using both

/-- Answers that are there. -/
def Given (R : α → Set GoType → Prop) (b : Option α) (T : Set GoType) : Prop :=
  ∃ a, b = some a ∧ R a T

theorem Yields.orNone {P Q : Set String} {R : α → Set GoType → Prop}
    {S : Option β → Set GoType → Prop} {m : OptionT TypeM α} {f : α → OptionT TypeM β}
    (first : ctx.Yields building P (Given R) m.run)
    (second : ∀ a T, R a T → ctx.Yields building Q (fun b U => S b (T ∪ U)) (f a).run) :
    ctx.Yields building (P ∪ Q) S (m >>= f).run := by
  rw [OptionT.run_bind]
  refine first.bind ?_
  rintro _ T ⟨a, rfl, is⟩
  exact second a T is

theorem Yields.mapOrNone {P : Set String} {R : α → Set GoType → Prop}
    {S : β → Set GoType → Prop} {m : OptionT TypeM α} {f : α → β}
    (first : ctx.Yields building P (Given R) m.run) (answer : ∀ a T, R a T → S (f a) T) :
    ctx.Yields building P (Given S) (m >>= fun a => Pure.pure (f a)).run := by
  have both := first.orNone (S := Given S) (f := fun a => Pure.pure (f a)) fun a T is =>
    .pure ⟨f a, rfl, by simpa using answer a T is⟩
  simpa using both

theorem Yields.lift {P : Set String} {R : α → Set GoType → Prop} {m : TypeM α}
    (yields : ctx.Yields building P R m) :
    ctx.Yields building P (Given R) (liftM m : OptionT TypeM α).run :=
  yields.map (S := Given R) fun a _ is => ⟨a, rfl, is⟩

end

/-- An answer that is a type. -/
def IsType (ctx : FileContext) : Option GoType → Set GoType → Prop :=
  Given fun t T => ctx.MadeOf [t] T

/-- An answer that is a list of types. -/
def AreTypes (ctx : FileContext) (ts : List (Option GoType)) (T : Set GoType) : Prop :=
  ∃ us, ts = us.map some ∧ ctx.MadeOf us T

section

variable {building : List String} {resolve : Resolver}

theorem yields_resolvePart {n c : Node} {f : Field} {P : Set String}
    (child : n.child? f = some c) (yields : ctx.Yields building P ctx.IsType (resolve c)) :
    ctx.Yields building P ctx.IsType (resolvePart resolve n f).run := by
  unfold resolvePart
  rw [child]
  exact yields

theorem yields_resolveFirst {n c : Node} {P : Set String}
    (first : n.firstNamed? = some c) (yields : ctx.Yields building P ctx.IsType (resolve c)) :
    ctx.Yields building P ctx.IsType (resolveFirst resolve n).run := by
  unfold resolveFirst
  rw [first]
  exact yields

theorem yields_parameterType {p c : Node} {P : Set String}
    (type : p.child? .type = some c) (yields : ctx.Yields building P ctx.IsType (resolve c)) :
    ctx.Yields building P ctx.IsType (parameterType resolve p) := by
  unfold parameterType
  have part := yields_resolvePart type yields
  split
  · exact part
  · refine part.map ?_
    rintro _ T ⟨t, rfl, made⟩
    exact ⟨_, rfl, .whole (w := .slice t) made rfl⟩

theorem yields_mapM {α : Type} {f : α → TypeM (List (Option GoType))} {P : α → Set String}
    {xs : List α} (each : ∀ x ∈ xs, ctx.Yields building (P x) ctx.AreTypes (f x)) :
    ctx.Yields building { k | ∃ x ∈ xs, k ∈ P x } (fun ts => ctx.AreTypes ts.flatten)
      (xs.mapM f) := by
  induction xs with
  | nil =>
      refine Yields.mono (P := ∅) ?_ (by simp)
      exact .pure ⟨[], rfl, madeOf_nil⟩
  | cons x xs ih =>
      obtain ⟨first, others⟩ := List.forall_mem_cons.mp each
      rw [List.mapM_cons]
      refine Yields.mono (P := P x ∪ { k | ∃ y ∈ xs, k ∈ P y }) (first.bind ?_) ?_
      · rintro _ T ⟨ts, rfl, made⟩
        refine (ih others).map ?_
        rintro ls U ⟨us, flat, madeToo⟩
        exact ⟨ts ++ us, by simp [flat], made.append madeToo⟩
      · rintro k ⟨y, member, inside⟩
        rcases List.mem_cons.mp member with rfl | behind
        · exact .inl inside
        · exact .inr ⟨y, behind, inside⟩

/-- The names that some type expressions mention. -/
def mentionsOf (ns : List Node) : Set String := { k | ∃ n ∈ ns, n.Mentions k }

theorem yields_parameterTypes {list : Node}
    (typed : ∀ p ∈ list.parts.filter Node.isParameter, p.child? .type ≠ none)
    (each : ∀ c ∈ list.parameterParts,
      ctx.Yields building { k | c.Mentions k } ctx.IsType (resolve c)) :
    ctx.Yields building (mentionsOf list.parameterParts) ctx.AreTypes
      (parameterTypes resolve list) := by
  have one (p : Node) (member : p ∈ list.parts.filter Node.isParameter) :
      ctx.Yields building { k | ∃ c ∈ p.child? .type, c.Mentions k } ctx.AreTypes (do
        return List.replicate (max (p.childrenAs .name).length 1) (← parameterType resolve p)) := by
    obtain ⟨c, type⟩ := Option.ne_none_iff_exists'.mp (typed p member)
    have part := each c (List.mem_filterMap.mpr ⟨p, member, type⟩)
    refine ((yields_parameterType type part).map ?_).mono ?_
    · rintro _ T ⟨t, rfl, made⟩
      exact ⟨_, (List.map_replicate ..).symm, made.replicate (by omega)⟩
    · rintro k ⟨c', isType, inside⟩
      cases type.symm.trans isType
      exact inside
  rw [parameterTypes_eq]
  refine ((yields_mapM one).map fun _ _ => id).mono ?_
  rintro k ⟨c, member, inside⟩
  obtain ⟨p, inList, type⟩ := List.mem_filterMap.mp member
  exact ⟨p, inList, c, type, inside⟩

theorem yields_resultTypes (result : Option Node)
    (typed : ∀ r ∈ result, ∀ p ∈ r.parts.filter Node.isParameter, p.child? .type ≠ none)
    (each : ∀ r ∈ result, ∀ c ∈ r.resultParts,
      ctx.Yields building { k | c.Mentions k } ctx.IsType (resolve c)) :
    ctx.Yields building (mentionsOf ((result.map Node.resultParts).getD []))
      (Given ctx.MadeOf) (resultTypes resolve result).run := by
  cases result with
  | none =>
      refine Yields.mono (P := ∅) ?_ (by simp [mentionsOf])
      exact .pure ⟨[], rfl, madeOf_nil⟩
  | some r =>
      have here := each r rfl
      rw [resultTypes]
      simp only [Option.map_some, Option.getD_some, Node.resultParts] at here ⊢
      split at here
      · rw [if_pos ‹_›, if_pos ‹_›]
        have types := (yields_parameterTypes (typed r rfl) here).lift
        refine (types.orNone ?_).mono (Set.subset_union_left (t := ∅))
        rintro _ T ⟨ts, rfl, made⟩
        have all : (ts.map some).mapM id = some ts := by
          rw [List.mapM_map, Function.id_comp]
          exact List.mapM_pure.trans (by simp)
        rw [all]
        exact .pure ⟨ts, rfl, by simpa using made⟩
      · rw [if_neg ‹_›, if_neg ‹_›]
        refine ((here r List.mem_cons_self).mapOrNone (f := fun t => [t]) fun _ _ => id).mono ?_
        rintro k ⟨c, member, inside⟩
        exact List.mem_singleton.mp member ▸ inside

/-- The types of a function are held by its signature. -/
theorem yields_signatureOf {f : FunctionShape} (typed : f.Typed)
    (each : ∀ c ∈ f.parts, ctx.Yields building { k | c.Mentions k } ctx.IsType (resolve c)) :
    ctx.Yields building (mentionsOf f.parts) ctx.IsType (signatureOf resolve f).run := by
  have results := yields_resultTypes f.result
    (fun r isResult => typed r (List.mem_append_right _ (Option.mem_toList.mpr isResult)))
    fun r isResult c member =>
      each c (List.mem_append_right _ (by simpa [Option.mem_def.mp isResult] using member))
  have behind (params : List (Option GoType)) (T : Set GoType) (are : ctx.AreTypes params T) :
      ctx.Yields building (mentionsOf ((f.result.map Node.resultParts).getD []))
        (fun b U => ctx.IsType b (T ∪ U)) (do
        let results ← resultTypes resolve f.result
        return GoType.signature (params.map (·.getD Packages.any)) results :
          OptionT TypeM GoType).run := by
    obtain ⟨ts, rfl, made⟩ := are
    have whole (us : List GoType) (U : Set GoType) (madeToo : ctx.MadeOf us U) :
        ctx.MadeOf [.signature ((ts.map some).map (·.getD Packages.any)) us] (T ∪ U) := by
      refine .whole ?_ rfl
      simpa [GoType.parts, Function.comp_def] using made.append madeToo
    exact results.mapOrNone whole
  unfold signatureOf
  cases list : f.parameters with
  | none =>
      have noTypes : ctx.Yields building ∅ (Given ctx.AreTypes)
          (Pure.pure [] : OptionT TypeM (List (Option GoType))).run :=
        .pure ⟨[], rfl, [], rfl, madeOf_nil⟩
      refine (noTypes.orNone behind).mono ?_
      simp [FunctionShape.parts, list]
  | some p =>
      have typedParameters := typed p (by simp [list])
      have types := (yields_parameterTypes typedParameters fun c member =>
        each c (List.mem_append_left _ (by simpa [list] using member))).lift
      refine (types.orNone behind).mono ?_
      rintro k ⟨c, member, inside⟩
      rcases List.mem_append.mp member with parameter | result
      · exact .inl ⟨c, by simpa [list] using parameter, inside⟩
      · exact .inr ⟨c, result, inside⟩

end

/-! ## The types of the file -/

theorem Refers.mentions {d : TypeDecl} {other : String} (refers : ctx.Refers d.name other)
    (declared : ctx.declarations.type? d.name = some d) : d.target.Mentions other := by
  obtain ⟨d', declared', mentions⟩ := refers
  cases declared.symm.trans declared'
  exact mentions

/-- Of a completed definition the new type is known, and what was known before. -/
theorem lookup_completed_iff {s : TypeCache} {d : TypeDecl} {type u : Option GoType} {name : String}
    (defined : d.isAlias = false) (unknown : s.known.lookup d.name = none) :
    (completed d type s).known.lookup name = some u ↔
      (name = d.name ∧ u = type) ∨ s.known.lookup name = some u := by
  by_cases isNew : name = d.name
  · subst isNew
    rw [lookup_completed_defined type s defined, unknown]
    simp [eq_comm]
  · rw [lookup_completed_of_ne isNew]
    simp [isNew]

/-- What is known stays coherent when the definition of a type is complete. -/
theorem Coherent.completed {s : TypeCache} {d : TypeDecl} {building : List String} {t : GoType}
    {T : Set GoType} (coherent : ctx.Coherent s)
    (declared : ctx.declarations.type? d.name = some d) (defined : d.isAlias = false)
    (under : s.building = d.name :: building) (fresh : d.name ∉ building)
    (above : ∀ x ∈ building, ctx.Reaches x d.name)
    (accounts : ctx.Accounts { k | d.target.Mentions k } T s) (made : ctx.MadeOf [t] T)
    (expanded : (∃ other, ctx.Refers d.name other) → t ≠ .struct) :
    ctx.Coherent (completed d (some (ctx.definedType d.name t)) s) := by
  have unknown : s.known.lookup d.name = none :=
    coherent.unfinished d.name (under ▸ List.mem_cons_self)
  have building' : (FileContext.completed d (some (ctx.definedType d.name t)) s).building =
      building := by simp [FileContext.completed, under]
  have lookup {name : String} {u : Option GoType} :
      (FileContext.completed d (some (ctx.definedType d.name t)) s).known.lookup name = some u ↔
        (name = d.name ∧ u = some (ctx.definedType d.name t)) ∨ s.known.lookup name = some u :=
    lookup_completed_iff defined unknown
  have newOrOpen {name : String} (opened : name ∈ s.building) :
      name = d.name ∨ name ∈ building := List.mem_cons.mp (under ▸ opened)
  refine ⟨fun name opened => ?_, fun name u known => ?_, fun name w other u known full holds => ?_,
    fun name w other known refers isDeclared => ?_, fun name w other known refers isDeclared => ?_⟩
  · rw [building'] at opened
    rw [lookup_completed_of_ne (ne_of_mem_of_not_mem opened fresh)]
    exact coherent.unfinished name (under ▸ List.mem_cons_of_mem _ opened)
  · rcases lookup.mp known with ⟨rfl, rfl⟩ | known
    · exact ⟨by simp [declared], t, rfl, expanded⟩
    · exact coherent.complete name u known
  · rcases lookup.mp known with ⟨rfl, isNew⟩ | known
    · cases isNew
      cases holds with
      | refl =>
          cases full
          exact lookup.mpr (.inl ⟨rfl, rfl⟩)
      | part member inside =>
          have known := accounts.full other u full (made.only _ member other u full inside)
          exact lookup.mpr (.inr known)
    · exact lookup.mpr (.inr (coherent.full name w other u known full holds))
  · rw [building']
    have openOrKnown : other ∈ s.building ∨ ∃ u, s.known.lookup other = some (some u) := by
      rcases lookup.mp known with ⟨rfl, -⟩ | known
      · refine (accounts.mentioned other (refers.mentions declared) isDeclared).imp_right ?_
        rintro ⟨u, -, known⟩
        exact ⟨u, known⟩
      · exact coherent.closed name w other known refers isDeclared
    rcases openOrKnown with opened | ⟨u, known⟩
    · rcases newOrOpen opened with rfl | opened
      · exact .inr ⟨_, lookup.mpr (.inl ⟨rfl, rfl⟩)⟩
      · exact .inl opened
    · exact .inr ⟨u, lookup.mpr (.inr known)⟩
  · rcases lookup.mp known with ⟨rfl, isNew⟩ | known
    · cases isNew
      rcases accounts.mentioned other (refers.mentions declared) isDeclared with
        opened | ⟨u, inside, known⟩
      · rcases newOrOpen opened with rfl | opened
        · exact .inl .refl
        · exact .inl (above other opened)
      · obtain ⟨_, member, holds⟩ := made.held u inside
        exact .inr ⟨u, lookup.mpr (.inr known), .part member holds⟩
    · refine (coherent.holds name w other known refers isDeclared).imp_right ?_
      rintro ⟨u, known, holds⟩
      exact ⟨u, lookup.mpr (.inr known), holds⟩

/-- Whatever type a computation finds has a property. -/
def Finds (p : GoType → Prop) (m : OptionT TypeM GoType) : Prop :=
  ∀ s t, (m.run s).1 = some t → p t

theorem Finds.pure {p : GoType → Prop} {t : GoType} (holds : p t) : Finds p (Pure.pure t) := by
  intro s u found
  cases found
  exact holds

theorem Finds.bind {p : GoType → Prop} {α : Type} {m : OptionT TypeM α}
    {f : α → OptionT TypeM GoType} (behind : ∀ a, Finds p (f a)) : Finds p (m >>= f) := by
  intro s t found
  rw [OptionT.run_bind] at found
  change ((m.run s).1.elim (Pure.pure none : TypeM (Option GoType)) (fun a => (f a).run)
    (m.run s).2).1 = some t at found
  cases first : (m.run s).1 with
  | none =>
      rw [first] at found
      cases found
  | some a =>
      rw [first] at found
      exact behind a _ t found

/-- A literal type is its own underlying type, and no struct unless written as one. -/
theorem literal_resolve {n : Node} (literal : n.kind ∈ literalKinds) {s : TypeCache} {t : GoType}
    (found : (ctx.resolve n s).1 = some t) :
    t.underlying = t ∧ (t = .struct → n.kind = .structType) := by
  rw [resolve_eq] at found
  have finds : Finds (fun t => t.underlying = t ∧ (t = .struct → n.kind = .structType))
      (ctx.resolveStep ctx.resolve n) := by
    unfold resolveStep
    simp only [literalKinds, List.mem_cons, List.not_mem_nil, or_false] at literal
    rcases literal with kind | kind | kind | kind | kind | kind | kind | kind <;>
      simp only [kind]
    · exact .bind fun _ => .pure ⟨rfl, nofun⟩
    · exact .bind fun _ => .pure ⟨rfl, nofun⟩
    · exact .bind fun _ => .pure ⟨rfl, nofun⟩
    · exact .bind fun _ => .bind fun _ => .pure ⟨rfl, nofun⟩
    · exact .bind fun _ => .pure ⟨rfl, nofun⟩
    · unfold signatureOf
      cases (FunctionShape.ofNode n).parameters <;>
        exact .bind fun _ => .bind fun _ => .pure ⟨rfl, nofun⟩
    · exact .pure ⟨rfl, fun _ => trivial⟩
    · exact .bind fun _ => .pure ⟨rfl, nofun⟩
  exact finds s t found

/-- A type whose definition mentions another is not defined as a struct. -/
theorem kind_ne_struct_of_mentions {n : Node} {name : String} (mentions : n.Mentions name) :
    n.kind ≠ .structType := by
  intro kind
  cases mentions with
  | name isName => simp [Node.isTypeName, kind] at isName
  | part isPart _ => simp [Node.typeParts, kind] at isPart

/-- All types that a type holds. -/
theorem madeOf_holds (t : GoType) : ctx.MadeOf [t] { u | t.Holds u } where
  held _ inside := ⟨t, List.mem_singleton_self t, inside⟩
  only _ member _ _ _ holds := List.mem_singleton.mp member ▸ holds

/-- A type that stands for itself holds none in full. -/
theorem foreign_standIn (name : String) : ctx.Foreign (ctx.definedType name .struct) := by
  rintro other u ⟨_, expanded⟩ holds
  cases holds with
  | refl => exact expanded rfl
  | part member inside =>
      obtain rfl := List.mem_singleton.mp member
      cases inside with
      | part noTypes _ => cases noTypes

theorem Coherent.started {s : TypeCache} {name : String} (coherent : ctx.Coherent s)
    (unknown : s.known.lookup name = none) :
    ctx.Coherent { s with building := name :: s.building } := by
  refine ⟨fun x inside => ?_, coherent.complete, coherent.full, fun x t other known refers
    declared => (coherent.closed x t other known refers declared).imp_left
      (List.mem_cons_of_mem _), coherent.holds⟩
  rcases List.mem_cons.mp inside with rfl | behind
  · exact unknown
  · exact coherent.unfinished x behind

section

variable {d : TypeDecl} {s : TypeCache}

/-- A type that is known, or under construction. -/
theorem yieldsFrom_unchanged {t : GoType} (coherent : ctx.Coherent s)
    (same : ctx.named d.name s = (some t, s))
    (mentioned : d.name ∈ s.building ∨ s.known.lookup d.name = some (some t))
    (full : ∀ name u, ctx.Full name u → t.Holds u → s.known.lookup name = some (some u)) :
    ctx.YieldsFrom s { d.name } ctx.IsType (ctx.named d.name) := by
  refine ⟨?_, ?_, ?_, { u | t.Holds u }, ?_, ?_⟩ <;> rw [same]
  · exact coherent
  · exact fun _ _ => id
  · exact ⟨t, rfl, madeOf_holds t⟩
  · refine ⟨?_, full⟩
    rintro name rfl -
    exact mentioned.imp_right fun known => ⟨t, .refl t, known⟩

/-- The definition of a type resolves to `t`, and then all but the type itself is known: this is
what remains to be entered. -/
structure Defines (ctx : FileContext) (d : TypeDecl) (s : TypeCache) (t : GoType) (T : Set GoType)
    (s' : TypeCache) : Prop where
  coherent : ctx.Coherent s'
  building : s'.building = d.name :: s.building
  grows : ∀ name t, s.known.lookup name = some t → s'.known.lookup name = some t
  made : ctx.MadeOf [t] T
  accounts : ctx.Accounts { k | d.target.Mentions k } T s'
  expanded : (∃ other, ctx.Refers d.name other) → t ≠ .struct
  named : ctx.named d.name s = (some (ctx.definedType d.name t),
    completed d (some (ctx.definedType d.name t)) s')

variable (plain : ctx.PlainTypes) (declared : ctx.declarations.type? d.name = some d)
  (coherent : ctx.Coherent s) (unknown : s.known.lookup d.name = none)
  (fresh : d.name ∉ s.building)
  (definition : ctx.Yields (d.name :: s.building) { k | d.target.Mentions k } ctx.IsType
    (ctx.resolve d.target))

include plain declared coherent unknown fresh definition

theorem exists_defines : ∃ t T s', ctx.Defines d s t T s' := by
  obtain ⟨defining, under, grows, T, ⟨t, isTarget, made⟩, accounts⟩ :=
    definition _ (coherent.started unknown) rfl
  obtain ⟨underlying, struct⟩ := literal_resolve (plain.literal d.name d declared) isTarget
  refine ⟨t, T, _, defining, under, grows, made, accounts, ?_, ?_⟩
  · rintro ⟨other, refers⟩ isStruct
    exact kind_ne_struct_of_mentions (refers.mentions declared) (struct isStruct)
  · have answer : ctx.denoted d (some t) = some (ctx.definedType d.name t) := by
      simp [denoted, plain.defined d.name d declared, underlying]
    rw [named, namedType_fresh unknown declared fresh, isTarget, answer]

/-- A type whose definition is started. -/
theorem yieldsFrom_fresh (above : ∀ x ∈ s.building, ctx.Reaches x d.name) :
    ctx.YieldsFrom s { d.name } ctx.IsType (ctx.named d.name) := by
  obtain ⟨t, T, s', defines⟩ := exists_defines plain declared coherent unknown fresh definition
  have defined := plain.defined d.name d declared
  have complete := defines.coherent.completed declared defined defines.building fresh above
    defines.accounts defines.made defines.expanded
  have self := lookup_completed_defined (some (ctx.definedType d.name t)) s' defined
  refine ⟨?_, building_named _ s, fun name u known => ?_,
    { u | (ctx.definedType d.name t).Holds u }, ?_, ?_⟩ <;> rw [defines.named]
  · exact complete
  · rw [lookup_completed_of_ne (by rintro rfl; cases unknown.symm.trans known)]
    exact defines.grows name u known
  · exact ⟨_, rfl, madeOf_holds _⟩
  · refine ⟨?_, fun name u full holds => complete.full d.name _ name u self full holds⟩
    rintro name rfl -
    exact .inr ⟨_, .refl _, self⟩

end

/-- The type of a declared name is known afterwards, if it is not under construction. -/
theorem yields_named (plain : ctx.PlainTypes) {name : String} {building : List String}
    (declared : ctx.declarations.type? name ≠ none)
    (above : ∀ x ∈ building, ctx.Reaches x name)
    (definition : ∀ d, ctx.declarations.type? name = some d → name ∉ building →
      ctx.Yields (name :: building) { k | d.target.Mentions k } ctx.IsType (ctx.resolve d.target)) :
    ctx.Yields building { name } ctx.IsType (ctx.named name) := by
  obtain ⟨d, declared⟩ := Option.ne_none_iff_exists'.mp declared
  obtain rfl := Declarations.name_of_type? declared
  rintro s coherent rfl
  cases lookup : s.known.lookup d.name with
  | some t =>
      obtain ⟨-, _, rfl, -⟩ := coherent.complete d.name t lookup
      exact yieldsFrom_unchanged coherent (namedType_known lookup) (.inr lookup)
        fun other u full holds => coherent.full d.name _ other u lookup full holds
  | none =>
      by_cases opened : d.name ∈ s.building
      · have stands : ctx.standIn d = some (ctx.definedType d.name .struct) := by
          simp [standIn, plain.defined d.name d declared]
        exact yieldsFrom_unchanged coherent
          ((namedType_building lookup declared opened).trans (by rw [stands])) (.inl opened)
          fun other u full holds => absurd holds (foreign_standIn _ other u full)
      · exact yieldsFrom_fresh plain declared coherent lookup opened
          (definition d declared opened) above

/-- The methods of an interface that embeds no other. -/
theorem interfaceMethods_eq_pure {n : Node} (resolve : Resolver) (kind : n.kind = .interfaceType)
    (noTypes : n.typeParts = []) : ∃ methods, interfaceMethods resolve n = Pure.pure methods := by
  have specs : ∀ c ∈ n.parts, c.kind = .methodSpec := by
    simpa [Node.typeParts, kind] using noTypes
  have each : n.parts.mapM (elementMethods resolve) =
      n.parts.mapM fun c => Pure.pure ((c.child? .name).map Node.text).toList := by
    refine (Congruent.equality TypeM).mapM fun c member => ?_
    rw [elementMethods, if_pos (specs c member)]
  rw [interfaceMethods, each, List.mapM_pure]
  exact ⟨_, rfl⟩

/-- A type from elsewhere. -/
theorem yields_foreign (building : List String) {t : GoType} (foreign : ctx.Foreign t) :
    ctx.Yields building ∅ ctx.IsType (Pure.pure (some t)) := by
  refine .pure ⟨t, rfl, fun _ none => none.elim, fun w member name u full holds => ?_⟩
  rw [List.mem_singleton.mp member] at holds
  exact (foreign name u full holds).elim

/-- A name that the file does not declare. -/
theorem yields_undeclared {building : List String} {name : String} {t : GoType}
    (undeclared : ctx.declarations.type? name = none)
    (isType : ctx.predeclaredType? name = some t) (foreign : ctx.Foreign t) :
    ctx.Yields building { name } ctx.IsType (ctx.typeOfName ctx.resolve name) := by
  intro s coherent under
  have unknown : s.known.lookup name = none := by
    cases lookup : s.known.lookup name with
    | none => rfl
    | some t => exact absurd undeclared (coherent.complete name t lookup).1
  have answer : ctx.typeOfName ctx.resolve name s = (some t, s) := by
    change ((ctx.namedType ctx.resolve name s).1.or (ctx.predeclaredType? name),
      (ctx.namedType ctx.resolve name s).2) = _
    rw [namedType_undeclared unknown undeclared, isType]
    rfl
  obtain ⟨T, is, accounts⟩ := (yields_foreign _ foreign s coherent under).answered
  refine ⟨?_, ?_, ?_, T, ?_, ?_⟩ <;> rw [answer]
  · exact coherent
  · exact fun _ _ => id
  · exact is
  · refine ⟨?_, accounts.full⟩
    rintro x rfl declared
    exact absurd undeclared declared

/-- The type of a plain expression is known, and what it mentions, if those of its parts are and
of the declared name that it is. -/
theorem yields_resolveStep {building : List String} {n : Node} (form : ctx.plainForm n)
    (part : ∀ c ∈ n.typeParts,
      ctx.Yields building { k | c.Mentions k } ctx.IsType (ctx.resolve c))
    (name : n.isTypeName = true → ctx.declarations.type? n.text ≠ none →
      ctx.Yields building { n.text } ctx.IsType (ctx.named n.text)) :
    ctx.Yields building { k | n.Mentions k } ctx.IsType (ctx.resolveStep ctx.resolve n).run := by
  have inside : ∀ k, n.Mentions k →
      (n.isTypeName = true ∧ k = n.text) ∨ k ∈ mentionsOf n.typeParts := by
    rintro k (isName | ⟨member, mentions⟩)
    · exact .inl ⟨isName, rfl⟩
    · exact .inr ⟨_, member, mentions⟩
  unfold resolveStep
  unfold plainForm at form
  unfold Node.typeParts at part inside
  unfold Node.isTypeName at name inside
  cases kind : n.kind <;> simp only [kind] at part name form inside ⊢
  case typeIdentifier | identifier =>
    have yields : ctx.Yields building { n.text } ctx.IsType
        (ctx.typeOfName ctx.resolve n.text) := by
      by_cases declared : ctx.declarations.type? n.text = none
      · obtain ⟨t, isType, foreign⟩ := form.resolve_left (not_not_intro declared)
        exact yields_undeclared declared isType foreign
      · refine (name rfl declared).map ?_
        rintro _ T ⟨t, rfl, made⟩
        exact ⟨t, rfl, made⟩
    exact yields.mono (fun k mentions => by simpa [mentionsOf] using inside k mentions)
  case qualifiedType =>
    obtain ⟨t, isType, foreign⟩ := form
    have yields := yields_foreign building foreign
    rw [← isType] at yields
    exact yields.mono (fun k mentions => by simpa [mentionsOf] using inside k mentions)
  case pointerType =>
    obtain ⟨c, first⟩ := Option.ne_none_iff_exists'.mp form
    have yields := yields_resolveFirst first (part c (by simp [first]))
    refine (yields.mapOrNone fun t T made => .whole (w := .pointer t) made rfl).mono ?_
    intro k mentions
    simpa [first, mentionsOf] using inside k mentions
  case sliceType | arrayType | implicitLengthArrayType =>
    obtain ⟨c, child⟩ := Option.ne_none_iff_exists'.mp form
    have yields := yields_resolvePart child (part c (by simp [child]))
    refine (yields.mapOrNone fun t T made => .whole (w := .slice t) made rfl).mono ?_
    intro k mentions
    simpa [child, mentionsOf] using inside k mentions
  case mapType =>
    obtain ⟨key, isKey⟩ := Option.ne_none_iff_exists'.mp form.1
    obtain ⟨value, isValue⟩ := Option.ne_none_iff_exists'.mp form.2
    have keys := yields_resolvePart isKey (part key (by simp [isKey]))
    have values := yields_resolvePart isValue (part value (by simp [isValue]))
    refine (keys.orNone fun k T madeKey => values.mapOrNone fun v U madeValue =>
      .whole (w := .map k v) (madeKey.append madeValue) rfl).mono ?_
    intro k mentions
    simpa [isKey, isValue, mentionsOf] using inside k mentions
  case channelType =>
    obtain ⟨c, child⟩ := Option.ne_none_iff_exists'.mp form
    have yields := yields_resolvePart child (part c (by simp [child]))
    refine (yields.mapOrNone fun t T made => .whole (w := .chan t) made rfl).mono ?_
    intro k mentions
    simpa [child, mentionsOf] using inside k mentions
  case functionType =>
    refine (yields_signatureOf (f := .ofNode n) form part).mono (fun k mentions => ?_)
    simpa using inside k mentions
  case structType =>
    refine Yields.mono (P := ∅) (.pure ⟨.struct, rfl, .whole madeOf_nil rfl⟩)
      (fun k mentions => ?_)
    simpa [mentionsOf] using inside k mentions
  case interfaceType =>
    obtain ⟨methods, answer⟩ := interfaceMethods_eq_pure ctx.resolve kind form
    rw [answer]
    refine Yields.mono (P := ∅) (.pure ⟨.interface methods, rfl, .whole madeOf_nil rfl⟩)
      (fun k mentions => ?_)
    have noParts : n.parts.filter (·.kind != .methodSpec) = [] := by
      simpa [Node.typeParts, kind] using form
    simpa [noParts, mentionsOf] using inside k mentions
  case parenthesizedType =>
    obtain ⟨c, first⟩ := Option.ne_none_iff_exists'.mp form
    refine (yields_resolveFirst first (part c (by simp [first]))).mono ?_
    intro k mentions
    simpa [first, mentionsOf] using inside k mentions

/-- The type of a plain expression is known, and what it mentions. -/
theorem yields_resolve (plain : ctx.PlainTypes) {building : List String} {n : Node}
    (isPlain : ctx.Plain n) (above : ∀ x ∈ building, ∀ k, n.Mentions k → ctx.Reaches x k) :
    ctx.Yields building { k | n.Mentions k } ctx.IsType (ctx.resolve n) := by
  induction building, n using resolve_induction ctx with
  | step building n parts definition =>
      obtain ⟨form, plainParts⟩ := isPlain
      rw [resolve_eq]
      refine yields_resolveStep form (fun c member => parts c member (plainParts c member)
        fun x inside k mentions => above x inside k (.part member mentions)) fun isName declared =>
        yields_named plain declared (fun x inside => above x inside n.text (.name isName))
          fun d declared fresh => definition d isName declared fresh
            (plain.plain n.text d declared) fun x inside k mentions => ?_
      have refers : ctx.Refers n.text k := ⟨d, declared, mentions⟩
      rcases List.mem_cons.mp inside with rfl | behind
      · exact .single refers
      · exact (above x behind n.text (.name isName)).tail refers

end FileContext

end GomegaLint
