import Mathlib
import GomegaLint.Proofs.Inference.Scopes
import GomegaLint.Proofs.Lowering.Keeps

/-!
# Which value a declared name gets

The names of a specification stand in a role of their own, and so do the commas between
them: the row of children in this role has a comma at every other place.  Values are
counted along this row.  So the name behind `i` others gets what stands at the place
`2 * i` among the values (`Inference.names_get_everySecond`): the first name its own
value, and the others the value of another name or none.

A declared type is the same at all places and does no harm, and neither do values of which
nothing is known.
-/

namespace GomegaLint

/-! ## The names of a specification -/

namespace Node

open Phrase

/-- The names that a specification declares. -/
def declaredNames (spec : Node) : List Node := (spec.childrenAs .name).filter isNamed

/-- Behind the specification the text of the name stands for it: the name is not blank, and
no other node of its row has its text. -/
def Introduces (spec n : Node) : Prop :=
  n.text ≠ "_" ∧ ∀ m ∈ spec.childrenAs .name, m.id ≠ n.id → m.text ≠ n.text

instance (spec n : Node) : Decidable (spec.Introduces n) := inferInstanceAs (Decidable (_ ∧ _))

/-- A first name, and others with their commas. -/
def nameRow (n : Node) (later : List (Node × Node)) : List Node :=
  n :: later.flatMap fun p => [p.1, p.2]

theorem nameRow_cons (n : Node) (p : Node × Node) (later : List (Node × Node)) :
    nameRow n (p :: later) = n :: p.1 :: nameRow p.2 later := by
  simp [nameRow]

theorem nameRow_getElem? (n : Node) (later : List (Node × Node)) (i : Nat) :
    (nameRow n later)[2 * i]? = (n :: later.map Prod.snd)[i]? := by
  induction i generalizing n later with
  | zero => rfl
  | succ i ih =>
      cases later with
      | nil => simp [nameRow, Nat.mul_succ]
      | cons p later => simp [nameRow_cons, Nat.mul_succ, ih]

theorem length_nameRow (n : Node) (later : List (Node × Node)) :
    (nameRow n later).length = 2 * later.length + 1 := by
  simp [nameRow, List.length_flatMap, Nat.mul_comm]

/-- The child in a role is no comment. -/
theorem Conforms.childrenAs_eq {l : Label} {cs : List Node}
    (conforms : (Node.branch l cs).Conforms Go.rules) (f : Field) :
    (Node.branch l cs).childrenAs f = (code cs).filter fun c => c.label.field == some f := by
  cases conforms with
  | branch _ _ comments _ =>
      rw [childrenAs, children, code, List.filter_filter]
      refine List.filter_congr fun c member => ?_
      cases comment : c.isComment with
      | false => simp
      | true => simp [comments c member comment]

/-- A name of a specification. -/
def IsName (n : Node) : Prop := n.isNamed = true ∧ n.label.field = some .name

/-- A comma that stands where a name would. -/
def IsNameComma (n : Node) : Prop :=
  n.isNamed = false ∧ n.text = "," ∧ n.label.field = some .name

theorem fits_name {ns : List Node}
    (fits : Fits Go.rules { field := some .name } Go.identifier ns) : ∃ n, ns = [n] ∧ n.IsName := by
  obtain ⟨n, rfl, -, kind, field, -⟩ := fits_terminal (by simp) (by simp [Terminal.kind]) fits
  exact ⟨n, rfl, by simp [isNamed, kind, Terminal.kind], field⟩

/-- Names and commas stand in one role. -/
theorem fits_names {row : List Node}
    (fits : Fits Go.rules { field := some .name } (commas Go.identifier) row) :
    ∃ n later, row = nameRow n later ∧ n.IsName ∧ ∀ p ∈ later, p.1.IsNameComma ∧ p.2.IsName := by
  obtain ⟨_, _, rfl, first, others⟩ := fits_both.mp fits
  obtain ⟨n, rfl, isName⟩ := fits_name first
  obtain ⟨rows, each, rfl⟩ := fits_many others
  have pairs : ∃ later : List (Node × Node), rows.flatten = later.flatMap (fun p => [p.1, p.2]) ∧
      ∀ p ∈ later, p.1.IsNameComma ∧ p.2.IsName := by
    clear others fits
    induction rows with
    | nil => exact ⟨[], rfl, by simp⟩
    | cons row rows ih =>
        obtain ⟨here, behind⟩ := List.forall_mem_cons.mp each
        obtain ⟨later, same, all⟩ := ih behind
        obtain ⟨_, _, rfl, comma, name⟩ := fits_both.mp here
        obtain ⟨c, rfl, -, kind, field, text⟩ := fits_symbol comma
        obtain ⟨m, rfl, isName⟩ := fits_name name
        exact ⟨(c, m) :: later, by simp [same],
          List.forall_mem_cons.mpr ⟨⟨⟨isNamed_of_token kind, text, field⟩, isName⟩, all⟩⟩
  obtain ⟨later, same, all⟩ := pairs
  exact ⟨n, later, by rw [nameRow, same]; rfl, isName, all⟩

/-- The kinds of nodes that declare names with values. -/
def isSpecification (n : Node) : Bool := n.kind == .constSpec || n.kind == .varSpec

theorem constSpec_bodies : Go.rules.bodies .constSpec =
    [seq [role .name (commas Go.identifier),
      Phrase.optional (seq [Phrase.optional (role .type Go.anyType), symbol "=",
        role .value (node .expressionList)])]] := by
  decide

theorem varSpec_bodies : Go.rules.bodies .varSpec =
    [seq [role .name (commas Go.identifier), choice [
      seq [role .type Go.anyType, Phrase.optional (seq [symbol "=",
        role .value (node .expressionList)])],
      seq [symbol "=", role .value (node .expressionList)]]]] := by
  decide

/-- Types, values and the sign between them have roles other than that of names. -/
theorem fits_values {ns : List Node}
    (fits : Fits Go.rules {} (seq [symbol "=", role .value (node .expressionList)]) ns) :
    ∀ c ∈ ns, c.label.field ≠ some .name := by
  obtain ⟨_, _, rfl, equals, values⟩ := fits_both.mp fits
  obtain ⟨e, rfl, -, -, eField, -⟩ := fits_symbol equals
  obtain ⟨v, rfl, -, vField⟩ := fits_single (· == .expressionList) rfl (fits_role.mp values)
  simp [eField, vField]

theorem fits_type {ns : List Node} (fits : Fits Go.rules {} (role .type Go.anyType) ns) :
    ∀ c ∈ ns, c.label.field ≠ some .name := by
  obtain ⟨t, rfl, -, field⟩ := Go.fits_anyType (fits_role.mp fits)
  simp [field]

/-- The row of a specification begins with its names. -/
theorem specification_row {spec : Node} (conforms : spec.Conforms Go.rules)
    (kind : spec.isSpecification = true) :
    ∃ l cs row behind, spec = .branch l cs ∧ code cs = row ++ behind ∧
      Fits Go.rules { field := some .name } (commas Go.identifier) row ∧
      ∀ c ∈ behind, c.label.field ≠ some .name := by
  rcases Bool.or_eq_true_iff.mp kind with isConst | isVar
  · obtain ⟨l, cs, rfl, -, body, rule, fits⟩ := conforms.eq_branch (eq_of_beq isConst) (by decide)
    rw [constSpec_bodies] at rule
    obtain rfl := List.mem_singleton.mp rule
    obtain ⟨row, behind, same, names, others⟩ := fits_both.mp fits
    refine ⟨l, cs, row, behind, rfl, same, fits_role.mp names, ?_⟩
    rcases fits_either.mp others with others | others
    · obtain ⟨_, _, rfl, type, values⟩ := fits_both.mp others
      refine List.forall_mem_append.mpr ⟨?_, fits_values values⟩
      rcases fits_either.mp type with type | type
      · exact fits_type type
      · simp [fits_blank.mp type]
    · simp [fits_blank.mp others]
  · obtain ⟨l, cs, rfl, -, body, rule, fits⟩ := conforms.eq_branch (eq_of_beq isVar) (by decide)
    rw [varSpec_bodies] at rule
    obtain rfl := List.mem_singleton.mp rule
    obtain ⟨row, behind, same, names, others⟩ := fits_both.mp fits
    refine ⟨l, cs, row, behind, rfl, same, fits_role.mp names, ?_⟩
    rcases fits_either.mp others with others | others
    · obtain ⟨_, _, rfl, type, values⟩ := fits_both.mp others
      refine List.forall_mem_append.mpr ⟨fits_type type, ?_⟩
      rcases fits_either.mp values with values | values
      · exact fits_values values
      · simp [fits_blank.mp values]
    · exact fits_values others

/-- The children in the role of names are the names and the commas between them. -/
theorem childrenAs_name {spec : Node} (conforms : spec.Conforms Go.rules)
    (kind : spec.isSpecification = true) :
    ∃ n later, spec.childrenAs .name = nameRow n later ∧ n.IsName ∧
      ∀ p ∈ later, p.1.IsNameComma ∧ p.2.IsName := by
  obtain ⟨l, cs, row, behind, rfl, same, names, others⟩ := specification_row conforms kind
  obtain ⟨n, later, rfl, isName, all⟩ := fits_names names
  refine ⟨n, later, ?_, isName, all⟩
  have inRole : ∀ c ∈ nameRow n later, c.label.field = some .name := by
    refine List.forall_mem_cons.mpr ⟨isName.2, fun c member => ?_⟩
    obtain ⟨p, inLater, member⟩ := List.mem_flatMap.mp member
    obtain ⟨comma, name⟩ := all p inLater
    rcases List.mem_pair.mp member with rfl | rfl
    · exact comma.2.2
    · exact name.2
  rw [conforms.childrenAs_eq, same, List.filter_append,
    List.filter_eq_self.mpr (by simpa using inRole),
    List.filter_eq_nil_iff.mpr (by simpa using others), List.append_nil]

/-- What the row of names is made of: a declared name at every other place, and commas. -/
structure NamePlaces (spec : Node) : Prop where
  get : ∀ i : Nat, (spec.childrenAs .name)[2 * i]? = spec.declaredNames[i]?
  length : (spec.childrenAs .name).length + 1 = 2 * spec.declaredNames.length
  cases : ∀ c ∈ spec.childrenAs .name, c ∈ spec.declaredNames ∨ c.text = ","

theorem Conforms.namePlaces {spec : Node} (conforms : spec.Conforms Go.rules)
    (kind : spec.isSpecification = true) : spec.NamePlaces := by
  obtain ⟨n, later, row, isName, all⟩ := childrenAs_name conforms kind
  have named : spec.declaredNames = n :: later.map Prod.snd := by
    rw [declaredNames, row, nameRow, List.filter_cons_of_pos isName.1]
    congr 1
    clear row
    induction later with
    | nil => rfl
    | cons p later ih =>
        obtain ⟨⟨comma, name⟩, others⟩ := List.forall_mem_cons.mp all
        simp [comma.1, name.1, ih others]
  refine ⟨fun i => ?_, ?_, fun c member => ?_⟩
  · rw [row, named, nameRow_getElem?]
  · rw [row, named, length_nameRow, List.length_cons, List.length_map]
    omega
  · rw [row, nameRow, List.mem_cons, List.mem_flatMap] at member
    rw [named]
    rcases member with rfl | ⟨p, inLater, member⟩
    · exact .inl List.mem_cons_self
    · rcases List.mem_pair.mp member with rfl | rfl
      · exact .inr (all p inLater).1.2.1
      · exact .inl (List.mem_cons_of_mem n (List.mem_map_of_mem inLater))

/-! ## Identities -/

/-- Children of a node of a numbered tree have different identities. -/
theorem childrenAs_ids_nodup {root n : Node} (member : n ∈ root.numbered.preorder) (f : Field) :
    ((n.childrenAs f).map id).Nodup := by
  have children : n.children.Sublist n.preorder := by
    cases n with
    | leaf => exact List.nil_sublist _
    | branch l cs => exact (sublist_preorderOf cs).cons _
  have inTree : (n.childrenAs f).Sublist root.numbered.preorder :=
    (List.filter_sublist.trans children).trans (preorder_sublist member)
  exact root.numbered_ids_nodup.sublist (inTree.map id)

end Node

/-! ## Declaring a row of names -/

namespace Inference

namespace State

/-- The state behind the declaration of a name. -/
def declare (s : State) (n : Node) (t : Option Typed) : State := (s.record n t).bind n.text t

theorem within_declare {s : State} (some_block : s.frames ≠ []) (n : Node) (t : Option Typed) :
    s.Within (s.declare n t) :=
  .trans (.record some_block n t) (.bind (Within.record some_block n t).some_block n.text t)

theorem lookup?_bind_self {s : State} (some_block : s.frames ≠ []) {name : String}
    (proper : name ≠ "_") (t : Option Typed) : (s.bind name t).lookup? name = some t := by
  obtain ⟨f, fs, frames⟩ := List.exists_cons_of_ne_nil some_block
  simp [State.bind, proper, frames, lookup?]

theorem lookup?_bind_other (s : State) {name other : String} (different : name ≠ other)
    (t : Option Typed) : (s.bind name t).lookup? other = s.lookup? other := by
  unfold State.bind
  split
  · rfl
  · split
    · rename_i frames
      have skipped : (other == name) = false := by simpa using different.symm
      simp only [lookup?, frames, List.findSome?_cons, List.lookup_cons, skipped]
    · rfl

theorem table_bind (s : State) (name : String) (t : Option Typed) :
    (s.bind name t).table = s.table := by
  unfold State.bind
  split
  · rfl
  · split <;> rfl

theorem lookup?_record (s : State) (n : Node) (t : Option Typed) (name : String) :
    (s.record n t).lookup? name = s.lookup? name := by
  unfold State.record
  split
  · split <;> rfl
  · rfl

theorem get?_record_self {s : State} (recording : s.recording = true) (n : Node)
    (t : Option Typed) : (s.record n t).table.get? n.id = t.or (s.table.get? n.id) := by
  cases t with
  | none => rfl
  | some t => simp [State.record, recording]

theorem get?_record_other (s : State) {n : Node} {k : Nat} (different : n.id ≠ k)
    (t : Option Typed) : (s.record n t).table.get? k = s.table.get? k := by
  cases t with
  | none => rfl
  | some t =>
      simp only [State.record]
      split
      · rw [TypeTable.get?_insert, if_neg different.symm]
      · rfl

/-- The state behind the declaration of a row of names, whose first place is the `i`-th. -/
def declareFrom (given : Nat → Option Typed) (i : Nat) : List Node → State → State
  | [], s => s
  | n :: ns, s => declareFrom given (i + 1) ns (s.declare n (given i))

variable {given : Nat → Option Typed} {i : Nat} {row : List Node} {s : State}

theorem lookup?_declareFrom_other {name : String} (others : ∀ n ∈ row, n.text ≠ name) :
    (declareFrom given i row s).lookup? name = s.lookup? name := by
  induction row generalizing i s with
  | nil => rfl
  | cons n ns ih =>
      obtain ⟨here, behind⟩ := List.forall_mem_cons.mp others
      rw [declareFrom, ih behind, declare, lookup?_bind_other _ here, lookup?_record]

theorem get?_declareFrom_other {k : Nat} (others : ∀ n ∈ row, n.id ≠ k) :
    (declareFrom given i row s).table.get? k = s.table.get? k := by
  induction row generalizing i s with
  | nil => rfl
  | cons n ns ih =>
      obtain ⟨here, behind⟩ := List.forall_mem_cons.mp others
      rw [declareFrom, ih behind, declare, table_bind, get?_record_other _ here]

/-- What a name of a specification got: what is known of it is entered, and its text is bound to
it if the specification introduces it. -/
def Got (before s : State) (spec n : Node) (t : Option Typed) : Prop :=
  (spec.Introduces n → s.lookup? n.text = some t) ∧
    s.table.get? n.id = t.or (before.table.get? n.id)

/-- Each name of a specification got what is given for its number. -/
def AllGot (before s : State) (spec : Node) (given : Nat → Option Typed) : Prop :=
  ∀ i n, spec.declaredNames[i]? = some n → before.Got s spec n (given i)

/-- What a name of the specification gets can be told: it can be looked up, or nothing has been
entered for it. -/
def Discerns (before : State) (spec : Node) : Prop :=
  ∀ n ∈ spec.declaredNames, spec.Introduces n ∨ before.table.get? n.id = none

instance (before : State) (spec : Node) : Decidable (before.Discerns spec) :=
  inferInstanceAs (Decidable (∀ n ∈ _, _))

/-- A name is entered with what its place is given. -/
theorem get?_declareFrom {j : Nat} {n : Node} (some_block : s.frames ≠ [])
    (recording : s.recording = true) (place : row[j]? = some n) (ids : (row.map Node.id).Nodup) :
    (declareFrom given i row s).table.get? n.id = (given (i + j)).or (s.table.get? n.id) := by
  induction row generalizing i j s with
  | nil => cases place
  | cons m ms ih =>
      rw [List.map_cons, List.nodup_cons] at ids
      cases j with
      | zero =>
          obtain rfl : m = n := by simpa using place
          have others : ∀ b ∈ ms, b.id ≠ m.id := fun b member same =>
            ids.1 (same ▸ List.mem_map_of_mem member)
          rw [declareFrom, get?_declareFrom_other others, declare, table_bind,
            get?_record_self recording]
          rfl
      | succ j =>
          have inside : n ∈ ms := List.mem_of_getElem? (by simpa using place)
          have other : m.id ≠ n.id := fun same => ids.1 (same ▸ List.mem_map_of_mem inside)
          have within := s.within_declare some_block m (given i)
          have behind := @ih (i + 1) (s.declare m (given i)) j within.some_block
            (within.recording.trans recording) (by simpa using place) ids.2
          rw [Nat.add_right_comm, Nat.add_assoc] at behind
          rw [declareFrom, behind, declare, table_bind, get?_record_other _ other]

/-- A name is bound to what its place is given, unless the row declares its text again. -/
theorem lookup?_declareFrom {j : Nat} {n : Node} (some_block : s.frames ≠ [])
    (proper : n.text ≠ "_") (place : row[j]? = some n) (ids : (row.map Node.id).Nodup)
    (texts : ∀ m ∈ row, m.id ≠ n.id → m.text ≠ n.text) :
    (declareFrom given i row s).lookup? n.text = some (given (i + j)) := by
  induction row generalizing i j s with
  | nil => cases place
  | cons m ms ih =>
      rw [List.map_cons, List.nodup_cons] at ids
      cases j with
      | zero =>
          obtain rfl : m = n := by simpa using place
          have others : ∀ b ∈ ms, b.text ≠ m.text := by
            intro b member
            apply texts b (List.mem_cons_of_mem _ member)
            intro same
            exact ids.1 (same ▸ List.mem_map_of_mem member)
          rw [declareFrom, lookup?_declareFrom_other others]
          exact lookup?_bind_self (Within.record some_block m (given i)).some_block proper _
      | succ j =>
          have within := s.within_declare some_block m (given i)
          have behind := @ih (i + 1) (s.declare m (given i)) j within.some_block
            (by simpa using place) ids.2 fun b member => texts b (List.mem_cons_of_mem _ member)
          rwa [Nat.add_right_comm, Nat.add_assoc] at behind

end State

theorem declareInTurn_run (given : Nat → Option Typed) (row : List Node) (s : State) :
    (declareInTurn given row s).2 = s.declareFrom given 0 row := by
  have from_place : ∀ (i : Nat) (s : State),
      (((row.zipIdx i).forM fun entry => declare entry.1 (given entry.2)) s).2 =
        s.declareFrom given i row := by
    induction row with
    | nil => exact fun _ _ => rfl
    | cons n ns ih => exact fun i s => ih (i + 1) (s.declare n (given i))
  exact from_place 0 s

/-! ## Names and values -/

/-- A specification of a numbered tree. -/
structure Declares (root spec : Node) : Prop where
  conforms : root.numbered.Conforms Go.rules
  member : spec ∈ root.numbered.preorder
  kind : spec.isSpecification = true

namespace Declares

variable {root spec : Node} {given : Nat → Option Typed} {s : State}

theorem namePlaces (declares : Declares root spec) : spec.NamePlaces :=
  (declares.conforms.of_mem_preorder declares.member).namePlaces declares.kind

/-- The commas in the row keep every other place. -/
theorem allGot (declares : Declares root spec) (some_block : s.frames ≠ [])
    (recording : s.recording = true) :
    s.AllGot (s.declareFrom given 0 (spec.childrenAs .name)) spec fun i => given (2 * i) := by
  intro i n isName
  have place : (spec.childrenAs .name)[2 * i]? = some n :=
    (declares.namePlaces.get i).trans isName
  have ids := Node.childrenAs_ids_nodup declares.member .name
  constructor
  · intro introduces
    have bound := @State.lookup?_declareFrom given 0 _ s _ n some_block introduces.1 place ids
      introduces.2
    rwa [Nat.zero_add] at bound
  · have entered := @State.get?_declareFrom given 0 _ s _ n some_block recording place ids
    rwa [Nat.zero_add] at entered

end Declares

/-- Every other value is the right one only where there are none but the first. -/
theorem everySecond_iff {given : Nat → Option Typed} {k : Nat}
    (beyond : ∀ i, k ≤ i → given i = none) :
    (∀ i < k, given (2 * i) = given i) ↔ ∀ i, 0 < i → given i = none := by
  constructor
  · intro right i positive
    -- Doubling the place keeps what is given and at last leads beyond the values.
    induction left : k - i using Nat.strong_induction_on generalizing i with
    | _ left ih =>
        by_cases inside : i < k
        · rw [← right i inside]
          exact ih (k - 2 * i) (by omega) (2 * i) (by omega) rfl
        · exact beyond i (by omega)
  · intro unknown i _
    by_cases first : i = 0
    · rw [first]
    · rw [unknown i (by omega), unknown (2 * i) (by omega)]

/-- All names have got their own values exactly if nothing is known behind the first. -/
theorem Declares.allGot_iff {root spec : Node} {given : Nat → Option Typed} {s : State}
    (declares : Declares root spec) (some_block : s.frames ≠ []) (recording : s.recording = true)
    (discerns : s.Discerns spec)
    (beyond : ∀ i, spec.declaredNames.length ≤ i → given i = none) :
    s.AllGot (s.declareFrom given 0 (spec.childrenAs .name)) spec given ↔
      ∀ i, 0 < i → given i = none := by
  have all := @Declares.allGot root spec given s declares some_block recording
  rw [← everySecond_iff beyond]
  constructor
  · intro own i inside
    have isName := List.getElem?_eq_getElem inside
    obtain ⟨bound, entered⟩ := all i _ isName
    obtain ⟨bound', entered'⟩ := own i _ isName
    rcases discerns _ (List.getElem_mem inside) with introduces | fresh
    · exact Option.some.inj ((bound introduces).symm.trans (bound' introduces))
    · rw [entered, fresh, Option.or_none, Option.or_none] at entered'
      exact entered'
  · intro right i n isName
    rw [← right i (List.getElem?_eq_some_iff.mp isName).1]
    exact all i n isName

/-- The values of a variable specification supply one thing for each of some names: there
is a value for each, or one call with a result for each. -/
inductive Supplies (k : Nat) (values : List Node) (types : List (Option Typed)) :
    List (Option Typed) → Prop
  | values (each : values.length = k) : Supplies k values types types
  | results {v : Node} {items : List GoType} {constant : Option Constant} (several : 1 < k)
      (call : values = [v]) (type : types = [some ⟨.tuple items, constant⟩])
      (each : items.length = k) : Supplies k values types (items.map fun t => some (ofType t))

theorem Supplies.length_eq {k : Nat} {values : List Node} {types given : List (Option Typed)}
    (supplies : Supplies k values types given) (same : types.length = values.length) :
    given.length = k := by
  cases supplies with
  | values each => exact same.trans each
  | results _ _ _ each => simpa using each

/-- The row of names is longer than the names, which does not matter to the spreading. -/
theorem Supplies.spreadValues_eq {k : Nat} {values : List Node} {types given : List (Option Typed)}
    (supplies : Supplies k values types given) :
    spreadValues values types (2 * k - 1) = given := by
  cases supplies with
  | values each =>
      unfold spreadValues
      split
      · -- A single value is the one of a single name.
        obtain rfl : k = 1 := each.symm
        rfl
      · rfl
  | results several call type each =>
      subst call type
      have many : 2 * k - 1 > 1 := by omega
      simp [spreadValues, many, spreadValue]

theorem varGiven_of_supplies {spec : Node} {types given : List (Option Typed)}
    (places : spec.NamePlaces)
    (supplies : Supplies spec.declaredNames.length (listedAs spec .value) types given) :
    varGiven spec none types = fun i => variableType given[i]?.join := by
  have count : (spec.childrenAs .name).length = 2 * spec.declaredNames.length - 1 := by
    have := places.length
    omega
  funext i
  rw [varGiven, count, supplies.spreadValues_eq]

theorem length_mapM {α β : Type} (f : α → InferM β) (xs : List α) (s : State) :
    (xs.mapM f s).1.length = xs.length := by
  induction xs generalizing s with
  | nil => rfl
  | cons x xs ih =>
      rw [List.mapM_cons]
      exact congrArg Nat.succ (ih _)

theorem length_constTypes (ctx : FileContext) (w : Walker) (spec : Node) (iota : Nat)
    (previous : Option ConstShape) (s : State) :
    (constTypes ctx w spec iota previous s).1.2.length =
      (constShape spec previous).values.length := by
  unfold constTypes
  dsimp only
  split <;> exact length_mapM w.eval _ _

theorem execConstSpec_run (ctx : FileContext) (w : Walker) (spec : Node) (iota : Nat)
    (previous : Option ConstShape) (s : State) :
    let r := constTypes ctx w spec iota previous s
    (execConstSpec ctx w spec iota previous s).2 =
      { r.2.declareFrom (constGiven r.1.1 r.1.2) 0 (spec.childrenAs .name) with iota := none } := by
  intro r
  rw [← declareInTurn_run]
  exact congrArg (fun m => (m s).2) (execConstSpec_eq ctx w spec iota previous)

theorem execVarSpec_run (ctx : FileContext) (w : Walker) (spec : Node) (s : State) :
    let r := varTypes ctx w spec s
    (execVarSpec ctx w spec s).2 =
      r.2.declareFrom (varGiven spec r.1.1 r.1.2) 0 (spec.childrenAs .name) := by
  intro r
  rw [← declareInTurn_run]
  exact congrArg (fun m => (m s).2) (execVarSpec_eq ctx w spec)

/-- **Names and values are counted differently.**  Take a specification in a state where some
block is open and types are recorded.

Each name of a constant specification is entered with what is known of the value at twice
its own place, and bound to it unless it is blank or declared again.  With as many values as
names, every name has got its own exactly if nothing is known of any value behind the first;
so a single name always has.

With a variable specification it is the same, for values as well as for the results of one
call, unless the specification has a type: all names have got that. -/
theorem names_get_everySecond {root spec : Node} (declares : Declares root spec)
    (ctx : FileContext) (levels : Nat) {s : State} (some_block : s.frames ≠ [])
    (recording : s.recording = true) :
    (spec.kind = .constSpec → ∀ iota previous,
      let r := constTypes ctx (.ofDepth ctx levels) spec iota previous s
      let s' := (execConstSpec ctx (.ofDepth ctx levels) spec iota previous s).2
      r.2.AllGot s' spec (fun i => constGiven r.1.1 r.1.2 (2 * i)) ∧
      ((constShape spec previous).values.length = spec.declaredNames.length →
        r.2.Discerns spec →
        (r.2.AllGot s' spec (constGiven r.1.1 r.1.2) ↔
          ∀ i, 0 < i → r.1.2[i]?.join = none))) ∧
    (spec.kind = .varSpec →
      let r := varTypes ctx (.ofDepth ctx levels) spec s
      let s' := (execVarSpec ctx (.ofDepth ctx levels) spec s).2
      (∀ t, r.1.1 = some t → r.2.AllGot s' spec fun _ => some (ofType t)) ∧
      (r.1.1 = none →
        ∀ given, Supplies spec.declaredNames.length (listedAs spec .value) r.1.2 given →
          r.2.AllGot s' spec (fun i => variableType given[2 * i]?.join) ∧
          (r.2.Discerns spec →
            (r.2.AllGot s' spec (fun i => variableType given[i]?.join) ↔
              ∀ i : Nat, 0 < i → variableType given[i]?.join = none)))) := by
  have walks := keeps_ofDepth ctx levels
  refine ⟨fun _ iota previous => ?_, fun _ => ?_⟩
  · intro r s'
    have within : s.Within r.2 := keeps_constTypes walks spec iota previous s some_block
    have recording := within.recording.trans recording
    have behind (given : Nat → Option Typed) : r.2.AllGot s' spec given ↔
        r.2.AllGot (r.2.declareFrom (constGiven r.1.1 r.1.2) 0 (spec.childrenAs .name))
          spec given := by
      rw [show s' = _ from execConstSpec_run ctx _ spec iota previous s]
      exact Iff.rfl
    rw [behind, behind]
    refine ⟨declares.allGot within.some_block recording, fun each discerns => ?_⟩
    rw [declares.allGot_iff within.some_block recording discerns fun i beyond => ?_]
    · simp only [constGiven, Option.map_eq_none_iff]
    · have count : r.1.2.length = (constShape spec previous).values.length :=
        length_constTypes _ _ _ _ _ _
      simp [constGiven, List.getElem?_eq_none (by omega : r.1.2.length ≤ i)]
  · intro r s'
    have within : s.Within r.2 := keeps_varTypes walks spec s some_block
    have recording := within.recording.trans recording
    have run : s' = _ := execVarSpec_run ctx _ spec s
    rw [run]
    refine ⟨fun t isTyped => ?_, fun untyped given supplies => ?_⟩
    · rw [isTyped]
      exact declares.allGot within.some_block recording
    · have same : varGiven spec r.1.1 r.1.2 = fun i => variableType given[i]?.join := by
        rw [untyped]
        exact varGiven_of_supplies declares.namePlaces supplies
      rw [same]
      refine ⟨declares.allGot within.some_block recording, fun discerns => ?_⟩
      exact declares.allGot_iff within.some_block recording discerns fun i beyond => by
        simp [variableType, List.getElem?_eq_none (supplies.length_eq (length_mapM _ _ _) ▸ beyond)]

/-- Three names with the values five, seven and zero. -/
def constantsNamed (first second third : String) : Node :=
  .construct .constSpec
    [.word .identifier first (some .name), .sign "," (some .name),
     .word .identifier second (some .name), .sign "," (some .name),
     .word .identifier third (some .name), .sign "=",
     .construct .expressionList
      [.word .intLiteral "5", .sign ",", .word .intLiteral "7", .sign ",", .word .intLiteral "0"]
      (some .value)]

/-- `a, b, c = 5, 7, 0` -/
def threeConstants : Node := constantsNamed "a" "b" "c"

/-- `a, _, c = 5, 7, 0` -/
def blankBetween : Node := constantsNamed "a" "_" "c"

/-- What is known of an integer constant without a type. -/
def integer (i : Int) : Typed := ⟨.basic .untypedInt, some (.int i)⟩

/-- The first name has got its value, the second that of the third, and the third none.  So it is
where the second is blank: it is entered with the value of the third, and the names have not
got their own values. -/
theorem names_get_everySecond_threeConstants :
    (Declares threeConstants threeConstants.numbered ∧
      let r := constTypes default (.ofDepth default 2) threeConstants.numbered 0 none {}
      let s := (execConstSpec default (.ofDepth default 2) threeConstants.numbered 0 none {}).2
      r.1.2 = [some (integer 5), some (integer 7), some (integer 0)] ∧
        s.lookup? "a" = some (some (integer 5)) ∧ s.lookup? "b" = some (some (integer 0)) ∧
        s.lookup? "c" = some none) ∧
    Declares blankBetween blankBetween.numbered ∧
      let r := constTypes default (.ofDepth default 2) blankBetween.numbered 0 none {}
      let s := (execConstSpec default (.ofDepth default 2) blankBetween.numbered 0 none {}).2
      s.lookup? "a" = some (some (integer 5)) ∧ s.lookup? "c" = some none ∧
        (blankBetween.numbered.declaredNames[1]?).bind (s.table.get? ·.id) = some (integer 0) ∧
        r.2.Discerns blankBetween.numbered ∧
        ¬ r.2.AllGot s blankBetween.numbered (constGiven r.1.1 r.1.2) := by
  constructor
  · have declares : Declares threeConstants threeConstants.numbered :=
      ⟨Node.conforms_of_checks 60 (by decide +kernel), Node.mem_preorder_self _, rfl⟩
    refine ⟨declares, ?_⟩
    intro r s
    have all := ((names_get_everySecond (s := {}) declares default 2 (by simp) rfl).1 rfl 0 none).1
    exact ⟨rfl, (all 0 _ rfl).1 (by decide +kernel), (all 1 _ rfl).1 (by decide +kernel),
      (all 2 _ rfl).1 (by decide +kernel)⟩
  · have declares : Declares blankBetween blankBetween.numbered :=
      ⟨Node.conforms_of_checks 60 (by decide +kernel), Node.mem_preorder_self _, rfl⟩
    refine ⟨declares, ?_⟩
    intro r s
    obtain ⟨all, own⟩ :=
      (names_get_everySecond (s := {}) declares default 2 (by simp) rfl).1 rfl 0 none
    have discerns : r.2.Discerns blankBetween.numbered := by decide +kernel
    refine ⟨(all 0 _ rfl).1 (by decide +kernel), (all 2 _ rfl).1 (by decide +kernel),
      (all 1 _ rfl).2, discerns, fun got => ?_⟩
    have nothing := (own rfl discerns).mp got 1 (by decide)
    cases nothing

/-- The names have not got their own values. -/
theorem threeConstants_misplaced :
    let r := constTypes default (.ofDepth default 2) threeConstants.numbered 0 none {}
    let s := (execConstSpec default (.ofDepth default 2) threeConstants.numbered 0 none {}).2
    ¬ r.2.AllGot s threeConstants.numbered (constGiven r.1.1 r.1.2) := by
  intro r s all
  have own : s.lookup? "b" = some (some (integer 7)) := (all 1 _ rfl).1 (by decide +kernel)
  have other : s.lookup? "b" = some (some (integer 0)) := rfl
  rw [other] at own
  injection own with own
  injection own with own
  simp [integer] at own

end Inference

end GomegaLint
