import Mathlib
import GomegaLint.Proofs.Inference.Positions
import GomegaLint.Syntax.Lexeme

/-!
# Which field a name selects

A field is selected by its name, and an embedded field is named by the last identifier of its
type.  The search for a field compares the names of a declaration as wholes, but of an embedded
type it only asks whether its text ends with the name; the first declaration that passes is
taken.

* `Node.captures`: an embedded field whose name is longer and ends with the one that is asked
  for.
* `Node.SetOff`: what is asked of the texts of embedded types.  It holds where only blanks stand
  between their tokens (`Node.Conforms.setOff`).
* `Inference.declaresField_eq`: a declaration passes if it declares the name or captures it.  One
  kind of embedded field never passes, an instantiated type `T[A]`, of which no type is known.
* `Node.Captured`: a declaration captures the name before one declares it.
* `Inference.fieldType_selects`: a selector has the type of the field with its name exactly
  where the name is not captured; only the star of an embedded pointer is lost.
-/

namespace GomegaLint

/-! ## The end of a text -/

/-- The text is that of a name. -/
def IsIdentifier (s : String) : Prop := s ≠ "" ∧ s.toList.all Lexeme.isWordChar = true

instance (s : String) : Decidable (IsIdentifier s) := inferInstanceAs (Decidable (_ ∧ _))

theorem IsIdentifier.words {s : String} (isName : IsIdentifier s) :
    ∀ c ∈ s.toList, Lexeme.isWordChar c = true :=
  List.all_eq_true.mp isName.2

theorem suffix_dropWhile_star {f : List Char} (noStar : '*' ∉ f) (text : List Char) :
    f <:+ text.dropWhile (· == '*') ↔ f <:+ text := by
  induction text with
  | nil => rfl
  | cons c text ih =>
      by_cases star : c = '*'
      · subst star
        rw [List.dropWhile_cons_of_pos (by simp), ih, List.suffix_cons_iff]
        refine ⟨.inr, fun suffix => suffix.resolve_left ?_⟩
        rintro rfl
        exact noStar List.mem_cons_self
      · rw [List.dropWhile_cons_of_neg (by simpa using star)]

/-- A name does not reach over a character that is in no name. -/
theorem suffix_setOff {f : List Char} (words : ∀ c ∈ f, Lexeme.isWordChar c = true) {c : Char}
    (noWord : Lexeme.isWordChar c = false) (front behind : List Char) :
    f <:+ front ++ c :: behind ↔ f <:+ behind := by
  have ends : c :: behind <:+ front ++ c :: behind := List.suffix_append front _
  refine ⟨fun suffix => ?_, fun suffix => (suffix.trans (List.suffix_cons c behind)).trans ends⟩
  rcases Nat.lt_or_ge behind.length f.length with longer | shorter
  · have within : c :: behind <:+ f :=
      List.suffix_of_suffix_length_le ends suffix longer
    have word := words c (within.subset List.mem_cons_self)
    rw [noWord] at word
    cases word
  · exact List.suffix_of_suffix_length_le suffix ((List.suffix_cons c behind).trans ends) shorter

namespace Node

/-! ## Names of fields -/

/-- The last identifier of a name that may be qualified. -/
def typeName? (t : Node) : Option String :=
  match t.kind with
  | .typeIdentifier => some t.text
  | .qualifiedType => (t.child? .name).map text
  | _ => none

/-- The last identifier of an embedded type, before its type arguments if it has any. -/
def embeddedName? (t : Node) : Option String :=
  if t.kind = .genericType then (t.child? .type).bind typeName? else t.typeName?

/-- The names that a field declaration declares. -/
def fieldNames (decl : Node) : List String :=
  match decl.childrenAs .name with
  | [] => ((decl.child? .type).bind embeddedName?).toList
  | names => names.map text

/-- The field is embedded. -/
def isEmbedded (decl : Node) : Bool := (decl.childrenAs .name).isEmpty

/-- The field is an embedded type with type arguments. -/
def isInstantiated (decl : Node) : Bool :=
  decl.isEmbedded && (decl.child? .type).any (·.kind == .genericType)

/-- The declaration declares the field. -/
def declares (f : String) (decl : Node) : Bool := decl.fieldNames.contains f

/-- The declaration declares the field, and not with type arguments. -/
def plainlyDeclares (f : String) (decl : Node) : Bool := decl.declares f && !decl.isInstantiated

/-- The field is embedded under another name, which ends with the one that is asked for. -/
def captures (f : String) (decl : Node) : Bool :=
  decl.isEmbedded && (decl.child? .type).any fun t => t.typeName?.any fun name =>
    name != f && f.toList.isSuffixOf name.toList

/-- The field declarations of a struct type. -/
def fields (struct : Node) : List Node :=
  (((struct.parts.find? (·.kind == .fieldDeclarationList)).map parts).getD []).filter
    (·.kind == .fieldDeclaration)

/-- A declaration captures the name, and none before it declares it but with type arguments. -/
def Captured (struct : Node) (f : String) : Prop :=
  ∃ before decl after, struct.fields = before ++ decl :: after ∧ decl.captures f = true ∧
    ∀ d ∈ before, d.plainlyDeclares f = false

/-- The text of an embedded type is set as a scanner leaves it, with names as long as they can be:
before the name behind a package stands a character that is in no name, and type arguments end
with one. -/
def SetOff (t : Node) : Prop :=
  (t.kind = .qualifiedType → ∀ name ∈ t.typeName?, ∃ front c, Lexeme.isWordChar c = false ∧
    t.text.toList = front ++ c :: name.toList) ∧
  (t.kind = .genericType → ∃ front c, Lexeme.isWordChar c = false ∧ t.text.toList = front ++ [c])

open Phrase

theorem fieldDeclaration_bodies : Go.rules.bodies .fieldDeclaration =
    [seq [choice [seq [commas (role .name Go.fieldIdentifier), role .type Go.anyType],
        seq [Phrase.optional (symbol "*"),
          role .type (choice [Go.typeIdentifier, node .qualifiedType, node .genericType])]],
      role .tag (Phrase.optional Go.stringLiteral)]] := by
  decide

/-- The kinds of embedded types. -/
def isEmbeddable (k : Kind) : Bool :=
  k == .typeIdentifier || k == .qualifiedType || k == .genericType

/-- An embedded field has a type that may be embedded. -/
theorem embedded_type {decl : Node} (conforms : decl.Conforms Go.rules)
    (kind : decl.kind = .fieldDeclaration) (embedded : decl.isEmbedded = true) :
    ∃ t, decl.child? .type = some t ∧ isEmbeddable t.kind = true := by
  obtain ⟨l, cs, rfl, -, body, rule, fits⟩ := conforms.eq_branch kind (by decide)
  rw [fieldDeclaration_bodies] at rule
  obtain rfl := List.mem_singleton.mp rule
  obtain ⟨declared, tag, row, declared_fits, -⟩ := fits_both.mp fits
  rcases fits_either.mp declared_fits with named | embeds
  · -- The first name stands in its role, so the field is not embedded.
    obtain ⟨_, _, rfl, names, -⟩ := fits_both.mp named
    obtain ⟨_, _, rfl, first, -⟩ := fits_both.mp names
    obtain ⟨n, rfl, -, field⟩ := fits_single (fun _ => true) (by rfl) (fits_role.mp first)
    rw [isEmbedded, conforms.childrenAs_eq, row] at embedded
    simp [field] at embedded
  · obtain ⟨stars, ts, rfl, star, type⟩ := fits_both.mp embeds
    obtain ⟨t, rfl, embeddable, field⟩ := fits_single isEmbeddable (by rfl) (fits_role.mp type)
    refine ⟨t, ?_, embeddable⟩
    rw [conforms.child?_eq, row]
    rcases fits_either.mp star with star | none
    · obtain ⟨s, rfl, -, -, starField, -⟩ := fits_symbol star
      simp [starField, field]
    · simp [fits_blank.mp none, field]

/-- A type that may be embedded is named by its last identifier. -/
theorem typeName?_of_isEmbeddable {t : Node} (conforms : t.Conforms Go.rules)
    (embeddable : isEmbeddable t.kind = true) :
    t.kind = .genericType ∨ ∃ name, t.typeName? = some name ∧ t.embeddedName? = some name := by
  simp only [isEmbeddable, Bool.or_eq_true, beq_iff_eq] at embeddable
  rcases embeddable with (identifier | qualified) | generic
  · exact .inr ⟨t.text, by simp [typeName?, identifier],
      by simp [embeddedName?, typeName?, identifier]⟩
  · obtain ⟨-, m, -, isName, -⟩ := qualifiedType_shape conforms qualified
    exact .inr ⟨m.text, by simp [typeName?, qualified, isName],
      by simp [embeddedName?, typeName?, qualified, isName]⟩
  · exact .inl generic

theorem mem_fields {struct decl : Node} (member : decl ∈ struct.fields) :
    decl.kind = .fieldDeclaration ∧ decl ∈ struct.preorder := by
  obtain ⟨listed, kind⟩ := List.mem_filter.mp member
  refine ⟨eq_of_beq kind, ?_⟩
  cases found : struct.parts.find? (·.kind == .fieldDeclarationList) with
  | none => simp [found] at listed
  | some list =>
      rw [found, Option.map_some, Option.getD_some] at listed
      have part := List.mem_of_find?_eq_some found
      exact mem_preorder_of_child
        (mem_preorder_of_child struct.mem_preorder_self (mem_children_of_mem_parts part))
        (mem_children_of_mem_parts listed)

/-- A captured name is none that the declaration declares. -/
theorem declares_of_captures {f : String} {decl : Node} (captures : decl.captures f = true) :
    decl.declares f = false := by
  simp only [Node.captures, isEmbedded, Bool.and_eq_true, List.isEmpty_iff, Option.any_eq_true,
    bne_iff_ne] at captures
  obtain ⟨embedded, t, isType, name, named, different, -⟩ := captures
  have notGeneric : t.kind ≠ .genericType := by
    intro generic
    simp [typeName?, generic] at named
  simp [declares, fieldNames, embedded, isType, embeddedName?, notGeneric, named, different.symm]

/-! ## Blanks between tokens -/

/-- There are no comments, and nothing of a name stands between the tokens. -/
def isSpaced (n : Node) : Bool :=
  n.preorder.all fun m => !m.isComment && m.gap.toList.all fun c => !Lexeme.isWordChar c

theorem isSpaced_iff {n : Node} : n.isSpaced = true ↔ ∀ m ∈ n.preorder,
    m.isComment = false ∧ ∀ c ∈ m.gap.toList, Lexeme.isWordChar c = false := by
  simp [isSpaced]

theorem isSpaced_of_mem {root n : Node} (spaced : root.isSpaced = true)
    (member : n ∈ root.preorder) : n.isSpaced = true := by
  rw [isSpaced_iff] at spaced ⊢
  exact fun m below => spaced m ((preorder_sublist member).subset below)

theorem isSpaced_child {n c : Node} (spaced : n.isSpaced = true) (child : c ∈ n.children) :
    c.isSpaced = true :=
  isSpaced_of_mem spaced (mem_preorder_of_child n.mem_preorder_self child)

theorem code_of_isSpaced {l : Label} {cs : List Node} (spaced : (branch l cs).isSpaced = true) :
    code cs = cs := by
  refine List.filter_eq_self.mpr fun c child => ?_
  have apart := isSpaced_iff.mp (isSpaced_child spaced child) c c.mem_preorder_self
  simp [apart.1]

theorem textOf_append {cs : List Node} (some_before : cs ≠ []) (c : Node) :
    textOf (cs ++ [c]) = textOf cs ++ c.gap ++ c.text := by
  have spaced : ∀ ds : List Node, spacedText (ds ++ [c]) = spacedText ds ++ c.gap ++ c.text := by
    intro ds
    induction ds with
    | nil => simp [spacedText]
    | cons d ds ih => simp [spacedText, ih, String.append_assoc]
  cases cs with
  | nil => exact absurd rfl some_before
  | cons d ds => simp [textOf, spaced, String.append_assoc]

/-- Before a last part with a blank before it stands a character that is in no name, if one stands
before the blank. -/
theorem exists_noWord {c : Char} (noWord : Lexeme.isWordChar c = false) (front : List Char)
    {gap : List Char} (blank : ∀ x ∈ gap, Lexeme.isWordChar x = false) :
    ∃ front' c', Lexeme.isWordChar c' = false ∧ front ++ c :: gap = front' ++ [c'] := by
  rcases List.eq_nil_or_concat gap with rfl | ⟨earlier, last, rfl⟩
  · exact ⟨front, c, noWord, rfl⟩
  · exact ⟨front ++ c :: earlier, last, blank last (by simp), by simp⟩

theorem genericType_bodies : Go.rules.bodies .genericType =
    [seq [role .type (choice [Go.typeIdentifier, node .qualifiedType, node .unionType,
        node .negatedType]),
      role .typeArguments (node .typeArguments)]] := by
  decide

theorem typeArguments_bodies : Go.rules.bodies .typeArguments =
    [seq [symbol "[", commas Go.anyType, Phrase.optional (symbol ","), symbol "]"]] := by
  decide

/-- The text of type arguments ends with a bracket. -/
theorem typeArguments_text {n : Node} (conforms : n.Conforms Go.rules)
    (kind : n.kind = .typeArguments) (spaced : n.isSpaced = true) :
    ∃ front, n.text.toList = front ++ [']'] := by
  obtain ⟨l, cs, rfl, -, body, rule, fits⟩ := conforms.eq_branch kind (by decide)
  rw [typeArguments_bodies] at rule
  obtain rfl := List.mem_singleton.mp rule
  rw [code_of_isSpaced spaced] at fits
  simp only [seq, fits_both] at fits
  obtain ⟨_, _, rfl, opening, args, _, rfl, -, comma, closing, rfl, -, closes⟩ := fits
  obtain ⟨o, rfl, -⟩ := fits_symbol opening
  obtain ⟨b, rfl, -, -, -, bracket⟩ := fits_symbol closes
  refine ⟨(textOf (o :: args ++ comma)).toList ++ b.gap.toList, ?_⟩
  have row : [o] ++ (args ++ (comma ++ [b])) = (o :: args ++ comma) ++ [b] := by simp
  rw [text, row, textOf_append (by simp), bracket]
  simp

/-- The texts of embedded types are set off where there are only blanks between tokens. -/
theorem Conforms.setOff {t : Node} (conforms : t.Conforms Go.rules) (spaced : t.isSpaced = true) :
    t.SetOff := by
  refine ⟨fun kind name named => ?_, fun kind => ?_⟩
  · rw [typeName?, kind] at named
    obtain ⟨l, cs, rfl, -, body, rule, fits⟩ := conforms.eq_branch kind (by decide)
    obtain rfl := List.mem_singleton.mp rule
    rw [code_of_isSpaced spaced] at fits
    simp only [seq, Go.packageIdentifier, Go.typeIdentifier, Go.identifier, fits_both, fits_role,
      fits_shown] at fits
    obtain ⟨xs, _, rfl, package, ds, ms, rfl, dot, member⟩ := fits
    obtain ⟨x, rfl, -, -, xField, -⟩ := fits_terminal (by simp) (by simp) package
    obtain ⟨d, rfl, -, -, dotField, dotText⟩ := fits_symbol dot
    obtain ⟨m, rfl, -, -, nameField, -⟩ := fits_terminal (by simp) (by simp) member
    obtain rfl : m.text = name := by
      simpa [child?, children, xField, dotField, nameField] using named
    have blank := (isSpaced_iff.mp spaced m (by simp [preorder, preorderOf, mem_preorder_self])).2
    obtain ⟨front, c, noWord, same⟩ := exists_noWord (c := '.') (by decide)
      (x.text.toList ++ d.gap.toList) blank
    refine ⟨front, c, noWord, ?_⟩
    have row : [x] ++ ([d] ++ [m]) = [x, d] ++ [m] := rfl
    calc (text (.branch l ([x] ++ ([d] ++ [m])))).toList
        = (x.text.toList ++ d.gap.toList ++ '.' :: m.gap.toList) ++ m.text.toList := by
          rw [text, row, textOf_append (by simp)]
          simp [textOf, spacedText, dotText]
      _ = front ++ c :: m.text.toList := by simp [same]
  · obtain ⟨l, cs, rfl, -, body, rule, fits⟩ := conforms.eq_branch kind (by decide)
    rw [genericType_bodies] at rule
    obtain rfl := List.mem_singleton.mp rule
    rw [code_of_isSpaced spaced] at fits
    obtain ⟨xs, ys, rfl, type, args⟩ := fits_both.mp fits
    obtain ⟨x, rfl, -⟩ := fits_single (fun _ => true) (by rfl) (fits_role.mp type)
    obtain ⟨y, rfl, isArguments, -⟩ :=
      fits_single (· == .typeArguments) (by rfl) (fits_role.mp args)
    obtain ⟨front, ends⟩ := typeArguments_text (conforms.inside y (by simp))
      (eq_of_beq isArguments) (isSpaced_child spaced (by simp [children]))
    refine ⟨x.text.toList ++ y.gap.toList ++ front, ']', by decide, ?_⟩
    rw [text, textOf_append (by simp)]
    simp [textOf, spacedText, ends]

theorem fields_setOff {struct : Node} (conforms : struct.Conforms Go.rules)
    (spaced : struct.isSpaced = true) :
    ∀ decl ∈ struct.fields, ∀ t ∈ decl.child? .type, t.SetOff := by
  intro decl member t isType
  have inside : t ∈ struct.preorder :=
    mem_preorder_of_child (mem_fields member).2 (List.mem_of_find?_eq_some isType)
  exact (conforms.of_mem_preorder inside).setOff (isSpaced_of_mem spaced inside)

end Node

namespace Inference

open Node

/-- The text of an embedded type ends with a name exactly if the type is called so or has a longer
name that ends with it. -/
theorem isSuffixOf_embedded {f : String} (isName : IsIdentifier f) {t : Node}
    (conforms : t.Conforms Go.rules) (embeddable : isEmbeddable t.kind = true)
    (setOff : t.SetOff) :
    f.toList.isSuffixOf (t.text.toList.dropWhile (· == '*')) =
      t.typeName?.any fun name => f.toList.isSuffixOf name.toList := by
  have noStar : '*' ∉ f.toList := fun star => absurd (isName.words '*' star) (by decide)
  rw [Bool.eq_iff_iff, List.isSuffixOf_iff_suffix, suffix_dropWhile_star noStar]
  simp only [isEmbeddable, Bool.or_eq_true, beq_iff_eq] at embeddable
  rcases embeddable with (identifier | qualified) | generic
  · simp [typeName?, identifier]
  · obtain ⟨-, m, -, isMember, -⟩ := qualifiedType_shape conforms qualified
    have named : t.typeName? = some m.text := by simp [typeName?, qualified, isMember]
    obtain ⟨front, c, noWord, text⟩ := setOff.1 qualified m.text named
    rw [text, suffix_setOff isName.words noWord, named]
    simp
  · obtain ⟨front, c, noWord, text⟩ := setOff.2 generic
    rw [text, suffix_setOff isName.words noWord, List.suffix_nil]
    have some_char : f.toList ≠ [] := by simpa using isName.1
    simp [typeName?, generic, some_char]

/-- **Which declarations pass.** -/
theorem declaresField_eq {f : String} (isName : IsIdentifier f) {decl : Node}
    (conforms : decl.Conforms Go.rules) (kind : decl.kind = .fieldDeclaration)
    (setOff : ∀ t ∈ decl.child? .type, t.SetOff) :
    declaresField f decl = (decl.plainlyDeclares f || decl.captures f) := by
  cases names : decl.childrenAs .name with
  | cons n ns =>
      have notEmbedded : decl.isEmbedded = false := by simp [isEmbedded, names]
      have first : n.text = f ↔ f = n.text := eq_comm
      rw [Bool.eq_iff_iff]
      simp [declaresField, plainlyDeclares, Node.captures, isInstantiated, declares, fieldNames,
        names, notEmbedded, first]
  | nil =>
      have embedded : decl.isEmbedded = true := by simp [isEmbedded, names]
      obtain ⟨t, isType, embeddable⟩ := embedded_type conforms kind embedded
      have inside : t.Conforms Go.rules := conforms.of_mem_preorder
        (mem_preorder_of_child decl.mem_preorder_self (List.mem_of_find?_eq_some isType))
      rw [declaresField, names, isType, Option.any_some,
        isSuffixOf_embedded isName inside embeddable (setOff t isType)]
      rcases typeName?_of_isEmbeddable inside embeddable with generic | ⟨name, named, called⟩
      · simp [plainlyDeclares, Node.captures, isInstantiated, isType, generic, embedded, typeName?]
      · have notGeneric : (t.kind == .genericType) = false := by
          rw [beq_eq_false_iff_ne]
          intro generic
          simp [typeName?, generic] at named
        by_cases same : name = f
        · subst same
          simp [plainlyDeclares, isInstantiated, declares, fieldNames, names, isType, notGeneric,
            named, called]
        · simp [plainlyDeclares, Node.captures, isInstantiated, declares, fieldNames, names, isType,
            embedded, named, called, same, Ne.symm same]

/-! ## The first declaration that passes -/

section

variable {α : Type} {p q : α → Bool} {xs : List α}

/-- The first that passes for the second reason. -/
theorem find?_or_eq_some_iff :
    (∃ x, xs.find? (fun y => p y || q y) = some x ∧ q x = true) ↔
      ∃ before x after, xs = before ++ x :: after ∧ q x = true ∧ ∀ y ∈ before, p y = false := by
  constructor
  · rintro ⟨x, found, second⟩
    obtain ⟨-, before, after, rfl, earlier⟩ := List.find?_eq_some_iff_append.mp found
    refine ⟨before, x, after, rfl, second, fun y member => ?_⟩
    have neither := earlier y member
    simp only [Bool.not_eq_true', Bool.or_eq_false_iff] at neither
    exact neither.1
  · rintro ⟨before, x, after, rfl, second, earlier⟩
    cases found : before.find? fun y => p y || q y with
    | some y =>
        refine ⟨y, by rw [List.find?_append, found, Option.some_or], ?_⟩
        have passes := List.find?_some found
        simpa [earlier y (List.mem_of_find?_eq_some found)] using passes
    | none => exact ⟨x, by simp [List.find?_append, found, second], second⟩

/-- If the first that passes does not do so for the second reason, it is the first that passes for
the other. -/
theorem find?_or_of_first (first : ∀ x, xs.find? (fun y => p y || q y) = some x → q x = false) :
    xs.find? (fun y => p y || q y) = xs.find? p := by
  cases found : xs.find? fun y => p y || q y with
  | none =>
      rw [List.find?_eq_none] at found
      refine (List.find?_eq_none.mpr fun x member passes => found x member ?_).symm
      rw [passes, Bool.true_or]
  | some x =>
      obtain ⟨passes, before, after, rfl, earlier⟩ := List.find?_eq_some_iff_append.mp found
      rw [first x found, Bool.or_false] at passes
      symm
      refine List.find?_eq_some_iff_append.mpr ⟨passes, before, after, rfl, fun y member => ?_⟩
      have neither := earlier y member
      simp only [Bool.not_eq_true', Bool.or_eq_false_iff] at neither
      rw [neither.1]
      rfl

end

section

variable {struct : Node} {f : String}

theorem fieldDeclaration?_eq (isName : IsIdentifier f) (kind : struct.kind = .structType)
    (conforms : struct.Conforms Go.rules)
    (setOff : ∀ decl ∈ struct.fields, ∀ t ∈ decl.child? .type, t.SetOff) :
    fieldDeclaration? struct f =
      struct.fields.find? fun decl => decl.plainlyDeclares f || decl.captures f := by
  have searched : fieldDeclaration? struct f = struct.fields.find? (declaresField f) := by
    simp only [fieldDeclaration?, Node.fields, kind, ne_eq, not_true_eq_false, if_false,
      List.find?_filter, Bool.decide_and, Bool.decide_eq_true]
    cases struct.parts.find? (·.kind == .fieldDeclarationList) <;> rfl
  rw [searched]
  refine List.find?_congr fun decl member => ?_
  obtain ⟨isField, inside⟩ := mem_fields member
  exact declaresField_eq isName (conforms.of_mem_preorder inside) isField (setOff decl member)

/-- A captured name leads to a declaration that does not declare it. -/
theorem captured_iff :
    struct.Captured f ↔ ∃ decl,
      struct.fields.find? (fun decl => decl.plainlyDeclares f || decl.captures f) = some decl ∧
        decl.captures f = true :=
  find?_or_eq_some_iff.symm

/-- No declaration is looked at in place of one that declares the name, unless it is captured. -/
theorem find?_eq_iff_not_captured :
    struct.fields.find? (fun decl => decl.plainlyDeclares f || decl.captures f) =
      struct.fields.find? (plainlyDeclares f) ↔ ¬ struct.Captured f := by
  rw [captured_iff]
  constructor
  · rintro same ⟨decl, found, captures⟩
    rw [same] at found
    have plainly := List.find?_some found
    simp [plainlyDeclares, declares_of_captures captures] at plainly
  · intro free
    refine find?_or_of_first fun decl found => ?_
    rw [← Bool.not_eq_true]
    exact fun captures => free ⟨decl, found, captures⟩

/-- Of a name that is declared once, the declaration is the plain one or has type arguments. -/
theorem find?_declares (once : (struct.fields.filter (declares f)).length ≤ 1) :
    struct.fields.find? (declares f) = struct.fields.find? (plainlyDeclares f) ∨
      struct.fields.find? (plainlyDeclares f) = none ∧
        ∃ decl, struct.fields.find? (declares f) = some decl ∧ decl.isInstantiated = true := by
  cases found : struct.fields.find? (declares f) with
  | none =>
      refine .inl (List.find?_eq_none.mpr fun decl member plainly => ?_).symm
      rw [plainlyDeclares, Bool.and_eq_true] at plainly
      exact List.find?_eq_none.mp found decl member plainly.1
  | some decl =>
      obtain ⟨passes, before, after, row, earlier⟩ := List.find?_eq_some_iff_append.mp found
      have none_before : ∀ d ∈ before, d.plainlyDeclares f = false := by
        intro d member
        have undeclared := earlier d member
        rw [Bool.not_eq_true'] at undeclared
        rw [plainlyDeclares, undeclared, Bool.false_and]
      cases instantiated : decl.isInstantiated with
      | false =>
          left
          rw [row]
          symm
          refine List.find?_eq_some_iff_append.mpr ⟨?_, before, after, rfl, fun d member => ?_⟩
          · simp [plainlyDeclares, passes, instantiated]
          · rw [none_before d member]
            rfl
      | true =>
          refine .inr ⟨List.find?_eq_none.mpr fun d member => ?_, decl, rfl, instantiated⟩
          rw [row, List.mem_append, List.mem_cons] at member
          rw [Bool.not_eq_true]
          rcases member with member | rfl | member
          · exact none_before d member
          · simp [plainlyDeclares, instantiated]
          · -- Another declaration of the name would be a second one.
            rw [plainlyDeclares, Bool.and_eq_false_iff]
            refine .inl ?_
            rw [row, List.filter_append, List.filter_cons_of_pos passes, List.length_append,
              List.length_cons] at once
            have none_after : after.filter (declares f) = [] :=
              List.length_eq_zero_iff.mp (by omega)
            simpa using List.filter_eq_nil_iff.mp none_after d member

end

/-! ## The type of a field -/

section

variable (ctx : FileContext)

/-- No type is known of one with type arguments. -/
theorem resolveChild_instantiated {decl : Node} (instantiated : decl.isInstantiated = true) :
    resolveChild ctx decl .type = pure none := by
  obtain ⟨-, hasType⟩ := Bool.and_eq_true_iff.mp instantiated
  obtain ⟨t, isType, generic⟩ := (Option.any_eq_true _ _).mp hasType
  have unknown : ctx.resolve t = pure none := by
    obtain ⟨steps, depth⟩ : ∃ steps, t.depth + ctx.definitionSteps = steps + 1 :=
      Nat.exists_eq_succ_of_ne_zero (Nat.add_pos_left t.depth_pos _).ne'
    simp only [FileContext.resolve, depth, FileContext.resolveIn, FileContext.resolveStep,
      eq_of_beq generic]
    rfl
  rw [resolveChild, isType]
  simp only [unknown]
  rfl

/-- The type that a declaration gives its fields.  The star of an embedded pointer stands before
its type. -/
def declaredFieldType (decl : Node) : InferM (Option GoType) := do
  let t ← resolveChild ctx decl .type
  return if decl.hasToken "*" then t.map .pointer else t

/-- The type of a field, if there is one. -/
def typeOfField : Option Node → InferM (Option GoType)
  | some decl => declaredFieldType ctx decl
  | none => return none

/-- What is looked up in the declaration that passed first. -/
theorem fieldType_eq {type f : String} {d : TypeDecl}
    (declared : ctx.declarations.type? type = some d) :
    fieldType ctx type f =
      ((fieldDeclaration? d.target f).map fun decl => resolveChild ctx decl .type).getD
        (pure none) := by
  rw [fieldType, declared, Option.bind_some]
  cases fieldDeclaration? d.target f <;> rfl

/-- **Which field a selector has the type of.**  Take a struct type that is declared in the file,
with its embedded types set as a scanner leaves them, and a name.

* The declaration that is looked at is the one that declares the name exactly if the name is not
  captured; an embedded type with type arguments is never looked at, and none is known of it.
* Where the name is not captured and declared at most once, the type is that of the declared
  field, or nothing if no field is declared; but of an embedded pointer it is the type that is
  pointed to.
* Where the name is captured, the type is that of a field with another name. -/
theorem fieldType_selects (type f : String) {d : TypeDecl}
    (declared : ctx.declarations.type? type = some d) (kind : d.target.kind = .structType)
    (conforms : d.target.Conforms Go.rules)
    (setOff : ∀ decl ∈ d.target.fields, ∀ t ∈ decl.child? .type, t.SetOff)
    (isName : IsIdentifier f) :
    (fieldDeclaration? d.target f = d.target.fields.find? (plainlyDeclares f) ↔
      ¬ d.target.Captured f) ∧
    (¬ d.target.Captured f → (d.target.fields.filter (declares f)).length ≤ 1 →
      (((d.target.fields.find? (declares f)).any fun decl => decl.hasToken "*") = false →
        fieldType ctx type f = typeOfField ctx (d.target.fields.find? (declares f))) ∧
      (((d.target.fields.find? (declares f)).any fun decl => decl.hasToken "*") = true →
        typeOfField ctx (d.target.fields.find? (declares f)) =
          Option.map .pointer <$> fieldType ctx type f)) ∧
    (d.target.Captured f → ∃ decl ∈ d.target.fields, f ∉ decl.fieldNames ∧
      fieldType ctx type f = resolveChild ctx decl .type) := by
  have searched := fieldDeclaration?_eq isName kind conforms setOff
  refine ⟨searched ▸ find?_eq_iff_not_captured, fun free once => ?_, fun captured => ?_⟩
  · have plain : fieldType ctx type f =
        ((d.target.fields.find? (plainlyDeclares f)).map fun decl =>
          resolveChild ctx decl .type).getD (pure none) := by
      rw [fieldType_eq ctx declared, searched, find?_eq_iff_not_captured.mpr free]
    have exact : fieldType ctx type f =
        ((d.target.fields.find? (declares f)).map fun decl =>
          resolveChild ctx decl .type).getD (pure none) := by
      rw [plain]
      rcases find?_declares once with same | ⟨none_plain, decl, found, instantiated⟩
      · rw [same]
      · rw [none_plain, found, Option.map_some, Option.getD_some,
          resolveChild_instantiated ctx instantiated]
        rfl
    rw [exact]
    cases d.target.fields.find? (declares f) with
    | none => exact ⟨fun _ => rfl, fun star => by cases star⟩
    | some decl =>
        refine ⟨fun star => ?_, fun star => ?_⟩ <;> rw [Option.any_some] at star <;>
          simp [typeOfField, declaredFieldType, star]
  · obtain ⟨decl, found, captures⟩ := captured_iff.mp captured
    have other : f ∉ decl.fieldNames := by simpa [declares] using declares_of_captures captures
    refine ⟨decl, List.mem_of_find?_eq_some found, other, ?_⟩
    rw [fieldType_eq ctx declared, searched, found]
    rfl

end

/-- A struct type with these declarations and the lines between them. -/
def structOf (row : List Node) : Node :=
  construct .structType
    [sign "struct", construct .fieldDeclarationList (sign "\x7b" :: row ++ [sign "\x7d"])]

/-- `Inner string` -/
def innerField : Node :=
  construct .fieldDeclaration
    [word .fieldIdentifier "Inner" (some .name), word .typeIdentifier "string" (some .type)]

/-- `BigInner` -/
def bigInnerField : Node :=
  construct .fieldDeclaration [word .typeIdentifier "BigInner" (some .type)]

/-- `*big.Outer` -/
def pointerField : Node :=
  construct .fieldDeclaration
    [sign "*", construct .qualifiedType
      [word .packageIdentifier "big" (some .package), sign ".",
       word .typeIdentifier "Outer" (some .name)] (some .type)]

/-- A file that declares the type `box`, and `BigInner` as an empty struct. -/
def boxFile (box : Node) : FileContext :=
  { (default : FileContext) with
    declarations := { types := [⟨"box", false, box⟩, ⟨"BigInner", false, structOf []⟩] } }

/-- A pointer is embedded under a qualified name, and `BigInner` behind the field `Inner`. -/
def innerFirst : Node :=
  structOf [pointerField, sign "\n", innerField, sign "\n", bigInnerField, sign "\n"]

/-- `BigInner` is embedded before the field `Inner`. -/
def bigInnerFirst : Node := structOf [bigInnerField, sign "\n", innerField, sign "\n"]

/-- The name is declared before it would be captured, and the selector is a string. -/
theorem fieldType_selects_innerFirst :
    ¬ innerFirst.Captured "Inner" ∧
      fieldType (boxFile innerFirst) "box" "Inner" =
        declaredFieldType (boxFile innerFirst) innerField ∧
      (fieldType (boxFile innerFirst) "box" "Inner" {}).1 = some (.basic .string) := by
  have free : ¬ innerFirst.Captured "Inner" := by
    rw [captured_iff]
    rintro ⟨decl, found, captures⟩
    obtain rfl : innerField = decl := Option.some.inj found
    revert captures
    decide
  have once : (innerFirst.fields.filter (declares "Inner")).length ≤ 1 := by decide
  have found : innerFirst.fields.find? (declares "Inner") = some innerField := rfl
  have conforms : innerFirst.Conforms Go.rules := Node.conforms_of_checks 60 (by decide +kernel)
  have setOff := fields_setOff conforms (by decide +kernel)
  obtain ⟨-, selects, -⟩ :=
    fieldType_selects (boxFile innerFirst) "box" "Inner" rfl rfl conforms setOff (by decide)
  have typed := (selects free once).1
  rw [found] at typed
  refine ⟨free, typed rfl, ?_⟩
  rw [typed rfl]
  rfl

/-- The embedded type is taken for the field, and the selector has its type. -/
theorem bigInnerFirst_captured :
    bigInnerFirst.Captured "Inner" ∧
      bigInnerFirst.fields.find? (declares "Inner") = some innerField ∧
      (declaredFieldType (boxFile bigInnerFirst) innerField {}).1 = some (.basic .string) ∧
      (fieldType (boxFile bigInnerFirst) "box" "Inner" {}).1 =
        some (.named "" "BigInner" [] .struct) :=
  ⟨⟨[], bigInnerField, [innerField], rfl, by decide, by simp⟩, rfl, rfl, rfl⟩

end Inference

end GomegaLint
