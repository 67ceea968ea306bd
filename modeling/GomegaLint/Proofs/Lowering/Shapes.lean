import Mathlib
import GomegaLint.Proofs.Lowering.Tokens

/-!
# The shapes of Go nodes

What the rules of Go say of the nodes that expressions are read from: which
children stand in which roles, and how the tokens of a node are made up of
theirs.  There is one lemma for each kind that is read.
-/

namespace GomegaLint

/-- The kinds of operands and arguments: none of tokens, comments, argument lists,
spread arguments and files. -/
def Kind.isOperand : Kind → Bool
  | .token | .comment | .argumentList | .variadicArgument | .sourceFile => false
  | _ => true

/-- The kinds of arguments. -/
def Kind.isArgument (k : Kind) : Bool := k.isOperand || k == .variadicArgument

/-- Rows of tokens with commas between them. -/
def joined : List (List String) → List String
  | [] => []
  | t :: ts => t ++ ts.flatMap ("," :: ·)

theorem Node.tokens_leaf {l : Label} {gap text : String} (notComment : l.kind ≠ .comment) :
    (Node.leaf l gap text).tokens = [text] := by
  rw [Node.tokens, if_neg notComment]

namespace Phrase

variable {rules : Grammar.Rules} {f : Option Field} {ns : List Node}

/-- A terminal is a node with one token. -/
theorem fits_terminal {k : Option Kind} {t : Terminal} (notNul : t ≠ .nul)
    (notComment : k.getD t.kind ≠ .comment) (fits : Fits rules ⟨f, k⟩ (.terminal t) ns) :
    ∃ n, ns = [n] ∧ n.tokens = [n.text] ∧ n.kind = k.getD t.kind ∧ n.label.field = f ∧
      t.Spells n.text := by
  cases fits with
  | ending => exact absurd rfl notNul
  | terminal gap kind field spells =>
      exact ⟨_, rfl, Node.tokens_leaf (kind ▸ notComment), kind, field, spells⟩

/-- A symbol is an anonymous node with one token, the symbol. -/
theorem fits_symbol {s : String} (fits : Fits rules { field := f } (symbol s) ns) :
    ∃ n, ns = [n] ∧ n.tokens = [s] ∧ n.kind = .token ∧ n.label.field = f ∧ n.text = s := by
  obtain ⟨n, rfl, tokens, kind, field, spells⟩ := fits_terminal (by simp) (by simp [Terminal.kind]) fits
  have spells : n.text = s := spells
  exact ⟨n, rfl, spells ▸ tokens, kind, field, spells⟩

/-- One of several symbols. -/
theorem fits_symbols {ss : List String} (some_symbol : ss ≠ [])
    (fits : Fits rules { field := f } (choice (ss.map symbol)) ns) :
    ∃ n, ∃ s ∈ ss, ns = [n] ∧ n.tokens = [s] ∧ n.kind = .token ∧ n.label.field = f ∧ n.text = s := by
  induction ss with
  | nil => exact absurd rfl some_symbol
  | cons s ss ih =>
      have one : Fits rules { field := f } (symbol s) ns → ∃ n, ∃ s' ∈ s :: ss, ns = [n] ∧
          n.tokens = [s'] ∧ n.kind = .token ∧ n.label.field = f ∧ n.text = s' := by
        intro fits
        obtain ⟨n, shape⟩ := fits_symbol fits
        exact ⟨n, s, List.mem_cons_self, shape⟩
      cases ss with
      | nil => exact one fits
      | cons s' ss =>
          rcases fits_either.mp fits with fits | fits
          · exact one fits
          · obtain ⟨n, t, member, shape⟩ := ih (by simp) fits
            exact ⟨n, t, List.mem_cons_of_mem s member, shape⟩

end Phrase

namespace Go

open Phrase

theorem fits_expression {f : Option Field} {ns : List Node}
    (fits : Fits rules { field := f } expression ns) :
    ∃ x, ns = [x] ∧ x.kind.isOperand = true ∧ x.label.field = f :=
  fits_group Kind.isOperand (by decide) fits

theorem fits_anyType {f : Option Field} {ns : List Node}
    (fits : Fits rules { field := f } anyType ns) :
    ∃ x, ns = [x] ∧ x.kind.isOperand = true ∧ x.label.field = f := by
  rcases fits_either.mp fits with fits | fits
  · exact fits_group Kind.isOperand (by decide) fits
  · exact fits_single Kind.isOperand rfl fits

end Go

namespace Node

/-! ## Rows -/

namespace Conforms

variable {n : Node} {l : Label} {cs : List Node} {k : Kind}

/-- A node whose kind has no rule is a leaf. -/
theorem eq_leaf (conforms : n.Conforms Go.rules) (kind : n.kind = k)
    (noRule : Go.rules.bodies k = []) : ∃ l gap text, n = .leaf l gap text ∧ l.kind = k := by
  cases conforms with
  | leaf gap text _ => exact ⟨_, gap, text, rfl, kind⟩
  | @branch l cs body rule =>
      have kind : l.kind = k := kind
      rw [kind, noRule] at rule
      cases rule

/-- A comment has no tokens. -/
theorem tokens_comment (conforms : n.Conforms Go.rules) (comment : n.isComment = true) :
    n.tokens = [] := by
  obtain ⟨l, gap, text, rfl, kind⟩ := conforms.eq_leaf (eq_of_beq comment) rfl
  rw [tokens, if_pos kind]

theorem inside (conforms : (Node.branch l cs).Conforms Go.rules) :
    ∀ c ∈ cs, c.Conforms Go.rules := by
  cases conforms with
  | branch _ _ _ inside => exact inside

/-- A node whose kind has rules is built by one of them. -/
theorem eq_branch (conforms : n.Conforms Go.rules) (kind : n.kind = k)
    (hasRule : Go.rules.bodies k ≠ []) :
    ∃ l cs, n = .branch l cs ∧ l.kind = k ∧
      ∃ body ∈ Go.rules.bodies k, body.Fits Go.rules {} (code cs) := by
  subst kind
  cases conforms with
  | leaf gap text noRule => exact absurd noRule hasRule
  | branch rule fits => exact ⟨_, _, rfl, rfl, _, rule, fits⟩

theorem tokens_branch (conforms : (Node.branch l cs).Conforms Go.rules) :
    (Node.branch l cs).tokens = tokensOf (l.kind == .argumentList) (code cs) :=
  tokensOf_code fun c member comment => (conforms.inside c member).tokens_comment comment

/-- The tokens of a node that is no argument list are those of its children. -/
theorem tokens_row (conforms : (Node.branch l cs).Conforms Go.rules)
    (noArguments : l.kind ≠ .argumentList) :
    (Node.branch l cs).tokens = (code cs).flatMap tokens := by
  rw [conforms.tokens_branch, beq_eq_false_iff_ne.mpr noArguments, tokensOf_false]

/-- The child in a role is no comment. -/
theorem child?_eq (conforms : (Node.branch l cs).Conforms Go.rules) (f : Field) :
    (Node.branch l cs).child? f = (code cs).find? fun c => c.label.field == some f := by
  cases conforms with
  | branch _ _ comments _ =>
      change cs.find? _ = _
      clear * - comments
      induction cs with
      | nil => rfl
      | cons c cs ih =>
          obtain ⟨first, others⟩ := List.forall_mem_cons.mp comments
          by_cases comment : c.isComment = true
          · have skipped : code (c :: cs) = code cs := by simp [code, comment]
            rw [skipped, List.find?_cons, first comment]
            exact ih others
          · have kept : code (c :: cs) = c :: code cs := by simp [code, comment]
            rw [kept, List.find?_cons, List.find?_cons, ih others]

end Conforms

theorem parts_branch (l : Label) (cs : List Node) :
    (branch l cs).parts = (code cs).filter isNamed := by
  simp only [parts, namedChildren, code, children, List.filter_filter, Bool.and_comm]

theorem mem_of_mem_code (cs : List Node) {c : Node} (member : c ∈ code cs) : c ∈ cs :=
  List.mem_of_mem_filter member

theorem isNamed_of_isOperand {n : Node} (operand : n.kind.isOperand = true) :
    n.isNamed = true := by
  simp only [isNamed, bne_iff_ne]
  intro token
  rw [token] at operand
  cases operand

theorem isComment_of_isOperand {n : Node} (operand : n.kind.isOperand = true) :
    n.isComment = false := by
  rw [isComment, beq_eq_false_iff_ne]
  intro comment
  rw [comment] at operand
  cases operand

theorem isPart_of_isArgument {n : Node} (argument : n.kind.isArgument = true) :
    n.isPart = true := by
  rcases Bool.or_eq_true_iff.mp argument with operand | variadic
  · simp [isPart, isNamed_of_isOperand operand, isComment_of_isOperand operand]
  · have kind : n.kind = .variadicArgument := eq_of_beq variadic
    simp [isPart, isNamed, isComment, kind]

theorem isNamed_of_token {n : Node} (token : n.kind = .token) : n.isNamed = false := by
  rw [isNamed, token, bne_self_eq_false]

/-! ## Kinds -/

section

open Phrase

variable {n : Node}

/-- `x.m` -/
theorem selector_shape (conforms : n.Conforms Go.rules) (kind : n.kind = .selectorExpression) :
    ∃ x m, n.child? .operand = some x ∧ n.child? .field = some m ∧ x ∈ n.children ∧
      x.kind.isOperand = true ∧ n.tokens = x.tokens ++ [".", m.text] := by
  obtain ⟨l, cs, rfl, kind, body, rule, fits⟩ := conforms.eq_branch kind (by decide)
  obtain rfl := List.mem_singleton.mp rule
  simp only [seq, Go.fieldIdentifier, Go.identifier, fits_both, fits_role, fits_shown] at fits
  obtain ⟨xs, _, row, operand, ds, ms, rfl, dot, member⟩ := fits
  obtain ⟨x, rfl, isOperand, xField⟩ := Go.fits_expression operand
  obtain ⟨d, rfl, dotTokens, -, dotField, -⟩ := fits_symbol dot
  obtain ⟨m, rfl, memberTokens, -, memberField, -⟩ := fits_terminal (by simp) (by simp) member
  refine ⟨x, m, ?_, ?_, mem_of_mem_code cs (by simp [row]), isOperand, ?_⟩
  · simp [conforms.child?_eq, row, xField]
  · simp [conforms.child?_eq, row, xField, dotField, memberField]
  · simp [conforms.tokens_row (by simp [kind]), row, dotTokens, memberTokens]

/-- `p.T` -/
theorem qualifiedType_shape (conforms : n.Conforms Go.rules) (kind : n.kind = .qualifiedType) :
    ∃ x m, n.child? .package = some x ∧ n.child? .name = some m ∧ x ∈ n.children ∧
      x.kind.isOperand = true ∧ n.tokens = x.tokens ++ [".", m.text] := by
  obtain ⟨l, cs, rfl, kind, body, rule, fits⟩ := conforms.eq_branch kind (by decide)
  obtain rfl := List.mem_singleton.mp rule
  simp only [seq, Go.packageIdentifier, Go.typeIdentifier, Go.identifier, fits_both, fits_role,
    fits_shown] at fits
  obtain ⟨xs, _, row, package, ds, ms, rfl, dot, name⟩ := fits
  obtain ⟨x, rfl, -, packageKind, packageField, -⟩ := fits_terminal (by simp) (by simp) package
  obtain ⟨d, rfl, dotTokens, -, dotField, -⟩ := fits_symbol dot
  obtain ⟨m, rfl, nameTokens, -, nameField, -⟩ := fits_terminal (by simp) (by simp) name
  refine ⟨x, m, ?_, ?_, mem_of_mem_code cs (by simp [row]), by rw [packageKind]; rfl, ?_⟩
  · simp [conforms.child?_eq, row, packageField]
  · simp [conforms.child?_eq, row, packageField, dotField, nameField]
  · simp [conforms.tokens_row (by simp [kind]), row, dotTokens, nameTokens]

theorem binary_bodies : Go.rules.bodies .binaryExpression = Go.binaryOperators.map fun p =>
    seq [role .left Go.expression, role .operator (choice (p.2.map symbol)),
      role .right Go.expression] := by
  decide

theorem binaryOperators_known : ∀ p ∈ Go.binaryOperators, p.2 ≠ [] ∧
    ∀ s ∈ p.2, ∃ op, BinaryOp.ofSymbol? s = some op ∧ op.symbol = s := by
  decide

/-- `x op y` -/
theorem binary_shape (conforms : n.Conforms Go.rules) (kind : n.kind = .binaryExpression) :
    ∃ x y o op, n.child? .left = some x ∧ n.child? .right = some y ∧
      n.child? .operator = some o ∧ BinaryOp.ofSymbol? o.text = some op ∧
      x ∈ n.children ∧ y ∈ n.children ∧ x.kind.isOperand = true ∧ y.kind.isOperand = true ∧
      n.tokens = x.tokens ++ [op.symbol] ++ y.tokens := by
  obtain ⟨l, cs, rfl, kind, body, rule, fits⟩ := conforms.eq_branch kind (by decide)
  obtain ⟨⟨p, ss⟩, operators, rfl⟩ := List.mem_map.mp (binary_bodies ▸ rule)
  obtain ⟨some_symbol, known⟩ := binaryOperators_known _ operators
  simp only [seq, fits_both, fits_role] at fits
  obtain ⟨xs, _, row, left, os, ys, rfl, operator, right⟩ := fits
  obtain ⟨x, rfl, xOperand, xField⟩ := Go.fits_expression left
  obtain ⟨o, s, member, rfl, oTokens, -, oField, spelled⟩ := fits_symbols some_symbol operator
  obtain ⟨y, rfl, yOperand, yField⟩ := Go.fits_expression right
  obtain ⟨op, isOp, rfl⟩ := known s member
  refine ⟨x, y, o, op, ?_, ?_, ?_, spelled ▸ isOp, mem_of_mem_code cs (by simp [row]),
    mem_of_mem_code cs (by simp [row]), xOperand, yOperand, ?_⟩
  · simp [conforms.child?_eq, row, xField]
  · simp [conforms.child?_eq, row, xField, oField, yField]
  · simp [conforms.child?_eq, row, xField, oField]
  · simp [conforms.tokens_row (by simp [kind]), row, oTokens]

/-- `op x` -/
theorem unary_shape (conforms : n.Conforms Go.rules) (kind : n.kind = .unaryExpression) :
    ∃ x o, n.child? .operand = some x ∧ n.child? .operator = some o ∧
      (o.text = "*" ∨ o.text ≠ "*" ∧ ∃ op, UnaryOp.ofSymbol? o.text = some op ∧
        op.symbol = o.text) ∧
      x ∈ n.children ∧ x.kind.isOperand = true ∧ n.tokens = o.text :: x.tokens := by
  obtain ⟨l, cs, rfl, kind, body, rule, fits⟩ := conforms.eq_branch kind (by decide)
  obtain rfl := List.mem_singleton.mp rule
  simp only [seq, fits_both, fits_role] at fits
  obtain ⟨os, xs, row, operator, operand⟩ := fits
  obtain ⟨o, s, member, rfl, oTokens, -, oField, rfl⟩ := fits_symbols (by simp) operator
  obtain ⟨x, rfl, isOperand, xField⟩ := Go.fits_expression operand
  refine ⟨x, o, ?_, ?_, ?_, mem_of_mem_code cs (by simp [row]), isOperand, ?_⟩
  · simp [conforms.child?_eq, row, oField, xField]
  · simp [conforms.child?_eq, row, oField]
  · revert member
    generalize o.text = s
    revert s
    decide
  · simp [conforms.tokens_row (by simp [kind]), row, oTokens]

/-- `(x)` -/
theorem paren_shape (conforms : n.Conforms Go.rules) (kind : n.kind = .parenthesizedExpression) :
    ∃ x, n.parts = [x] ∧ x ∈ n.children ∧ x.kind.isOperand = true ∧
      n.tokens = ["("] ++ x.tokens ++ [")"] := by
  obtain ⟨l, cs, rfl, kind, body, rule, fits⟩ := conforms.eq_branch kind (by decide)
  obtain rfl := List.mem_singleton.mp rule
  simp only [seq, fits_both] at fits
  obtain ⟨_, _, row, opens, xs, _, rfl, inner, closes⟩ := fits
  obtain ⟨p, rfl, pTokens, pKind, -, -⟩ := fits_symbol opens
  obtain ⟨x, rfl, isOperand, -⟩ := Go.fits_expression inner
  obtain ⟨q, rfl, qTokens, qKind, -, -⟩ := fits_symbol closes
  refine ⟨x, ?_, mem_of_mem_code cs (by simp [row]), isOperand, ?_⟩
  · simp [parts_branch, row, isNamed_of_token pKind, isNamed_of_isOperand isOperand,
      isNamed_of_token qKind]
  · simp [conforms.tokens_row (by simp [kind]), row, pTokens, qTokens]

/-- `*T` -/
theorem pointerType_shape (conforms : n.Conforms Go.rules) (kind : n.kind = .pointerType) :
    ∃ x, n.parts = [x] ∧ x ∈ n.children ∧ x.kind.isOperand = true ∧
      n.tokens = "*" :: x.tokens := by
  obtain ⟨l, cs, rfl, kind, body, rule, fits⟩ := conforms.eq_branch kind (by decide)
  obtain rfl := List.mem_singleton.mp rule
  simp only [seq, fits_both] at fits
  obtain ⟨_, xs, row, star, inner⟩ := fits
  obtain ⟨p, rfl, pTokens, pKind, -, -⟩ := fits_symbol star
  obtain ⟨x, rfl, isOperand, -⟩ := Go.fits_anyType inner
  refine ⟨x, ?_, mem_of_mem_code cs (by simp [row]), isOperand, ?_⟩
  · simp [parts_branch, row, isNamed_of_token pKind, isNamed_of_isOperand isOperand]
  · simp [conforms.tokens_row (by simp [kind]), row, pTokens]

/-- `x...` -/
theorem variadicArgument_shape (conforms : n.Conforms Go.rules)
    (kind : n.kind = .variadicArgument) :
    ∃ x, n.parts = [x] ∧ x ∈ n.children ∧ x.kind.isOperand = true ∧
      n.tokens = x.tokens ++ ["..."] := by
  obtain ⟨l, cs, rfl, kind, body, rule, fits⟩ := conforms.eq_branch kind (by decide)
  obtain rfl := List.mem_singleton.mp rule
  simp only [seq, fits_both] at fits
  obtain ⟨xs, _, row, inner, dots⟩ := fits
  obtain ⟨x, rfl, isOperand, -⟩ := Go.fits_expression inner
  obtain ⟨p, rfl, pTokens, pKind, -, -⟩ := fits_symbol dots
  refine ⟨x, ?_, mem_of_mem_code cs (by simp [row]), isOperand, ?_⟩
  · simp [parts_branch, row, isNamed_of_token pKind, isNamed_of_isOperand isOperand]
  · simp [conforms.tokens_row (by simp [kind]), row, pTokens]

theorem call_bodies : Go.rules.bodies .callExpression =
    [seq [role .function Go.allocator, role .arguments (part (.special .argumentList))],
     seq [role .function Go.expression, role .typeArguments (optional (node .typeArguments)),
       role .arguments (node .argumentList)]] := by
  decide

/-- `f(..)` or `f[..](..)` -/
theorem call_shape (conforms : n.Conforms Go.rules) (kind : n.kind = .callExpression) :
    ∃ x a, n.child? .function = some x ∧ n.child? .arguments = some a ∧ x ∈ n.children ∧
      a ∈ n.children ∧ x.kind.isOperand = true ∧ a.kind = .argumentList ∧
      ((n.child? .typeArguments = none ∧ n.tokens = x.tokens ++ a.tokens) ∨
        ∃ t, n.child? .typeArguments = some t ∧ t ∈ n.children ∧ t.kind = .typeArguments ∧
          n.tokens = x.tokens ++ t.tokens ++ a.tokens) := by
  obtain ⟨l, cs, rfl, kind, body, rule, fits⟩ := conforms.eq_branch kind (by decide)
  simp only [call_bodies, List.mem_cons, List.not_mem_nil, or_false] at rule
  rcases rule with rfl | rfl
  · simp only [seq, fits_both, fits_role] at fits
    obtain ⟨_, _, row, function, arguments⟩ := fits
    obtain ⟨x, rfl, isOperand, xField⟩ := fits_single Kind.isOperand rfl function
    obtain ⟨a, rfl, aKind, aField⟩ := fits_single (· == .argumentList) rfl arguments
    refine ⟨x, a, ?_, ?_, mem_of_mem_code cs (by simp [row]), mem_of_mem_code cs (by simp [row]),
      isOperand, eq_of_beq aKind, .inl ⟨?_, ?_⟩⟩
    · simp [conforms.child?_eq, row, xField]
    · simp [conforms.child?_eq, row, xField, aField]
    · simp [conforms.child?_eq, row, xField, aField]
    · simp [conforms.tokens_row (by simp [kind]), row]
  · simp only [seq, Phrase.optional, fits_both, fits_role, fits_either, fits_blank] at fits
    obtain ⟨_, _, row, function, _, _, rfl, typeArguments, arguments⟩ := fits
    obtain ⟨x, rfl, isOperand, xField⟩ := Go.fits_expression function
    obtain ⟨a, rfl, aKind, aField⟩ := fits_single (· == .argumentList) rfl arguments
    rcases typeArguments with typeArguments | rfl
    · obtain ⟨t, rfl, tKind, tField⟩ := fits_single (· == .typeArguments) rfl typeArguments
      refine ⟨x, a, ?_, ?_, mem_of_mem_code cs (by simp [row]), mem_of_mem_code cs (by simp [row]),
        isOperand, eq_of_beq aKind,
        .inr ⟨t, ?_, mem_of_mem_code cs (by simp [row]), eq_of_beq tKind, ?_⟩⟩
      · simp [conforms.child?_eq, row, xField]
      · simp [conforms.child?_eq, row, xField, tField, aField]
      · simp [conforms.child?_eq, row, xField, tField]
      · simp [conforms.tokens_row (by simp [kind]), row]
    · refine ⟨x, a, ?_, ?_, mem_of_mem_code cs (by simp [row]), mem_of_mem_code cs (by simp [row]),
        isOperand, eq_of_beq aKind, .inl ⟨?_, ?_⟩⟩
      · simp [conforms.child?_eq, row, xField]
      · simp [conforms.child?_eq, row, xField, aField]
      · simp [conforms.child?_eq, row, xField, aField]
      · simp [conforms.tokens_row (by simp [kind]), row]

/-- A comma and an argument behind it. -/
def IsLaterArgument (row : List Node) : Prop :=
  ∃ c x, row = [c, x] ∧ c.tokens = [","] ∧ c.kind = .token ∧ x.kind.isArgument = true

/-- What stands behind the last argument: a comma or nothing, and the closing
parenthesis. -/
def IsEndOfArguments (row : List Node) : Prop :=
  tokensOf true row = [")"] ∧ ∀ n ∈ row, n.kind = .token

theorem isTrailingComma_of_isArgument {x : Node} (argument : x.kind.isArgument = true)
    (behind : List Node) : x.isTrailingComma behind = false := by
  have named : x.isNamed = true := (Bool.and_eq_true_iff.mp (isPart_of_isArgument argument)).1
  have notToken : x.kind ≠ .token := bne_iff_ne.mp named
  simp [isTrailingComma, isToken, notToken]

/-- The arguments behind the first, and what ends the list. -/
theorem laterArguments {rows : List (List Node)} {ending : List Node}
    (later : ∀ row ∈ rows, IsLaterArgument row) (ends : IsEndOfArguments ending) :
    ∃ xs, (rows.flatten ++ ending).filter isNamed = xs ∧ (∀ x ∈ xs, x.kind.isArgument = true) ∧
      tokensOf true (rows.flatten ++ ending) =
        (xs.map tokens).flatMap ("," :: ·) ++ [")"] := by
  induction rows with
  | nil =>
      have none_named : ending.filter isNamed = [] :=
        List.filter_eq_nil_iff.mpr fun n member => by simp [isNamed_of_token (ends.2 n member)]
      exact ⟨[], none_named, by simp, ends.1⟩
  | cons row rows ih =>
      obtain ⟨⟨c, x, rfl, comma, token, argument⟩, others⟩ := List.forall_mem_cons.mp later
      obtain ⟨xs, named, arguments, tokens_eq⟩ := ih others
      have part := isPart_of_isArgument argument
      have named_x : x.isNamed = true := (Bool.and_eq_true_iff.mp part).1
      refine ⟨x :: xs, ?_, List.forall_mem_cons.mpr ⟨argument, arguments⟩, ?_⟩
      · simp only [List.flatten_cons, List.cons_append, List.nil_append, List.filter_cons,
          isNamed_of_token token, named_x, named, if_true, Bool.false_eq_true, if_false]
      · -- The comma has an argument behind it, so it is none that is dropped.
        have kept : c.isTrailingComma (x :: (rows.flatten ++ ending)) = false := by
          simp [isTrailingComma, part]
        simp only [List.flatten_cons, List.cons_append, List.nil_append, tokensOf, kept,
          isTrailingComma_of_isArgument argument, Bool.and_false, Bool.false_eq_true, if_false,
          comma, tokens_eq, List.map_cons, List.flatMap_cons, List.append_assoc]

theorem endOfArguments {zs cs : List Node}
    (comma : Fits Go.rules {} (Phrase.optional (symbol ",")) zs)
    (closes : Fits Go.rules {} (symbol ")") cs) : IsEndOfArguments (zs ++ cs) := by
  obtain ⟨q, rfl, qTokens, qKind, -, qText⟩ := fits_symbol closes
  have notComma : q.isTrailingComma [] = false := by simp [isTrailingComma, isToken, qText]
  simp only [Phrase.optional, fits_either, fits_blank] at comma
  rcases comma with comma | rfl
  · obtain ⟨p, rfl, -, pKind, -, pText⟩ := fits_symbol comma
    have noPart : q.isPart = false := by simp [isPart, isNamed_of_token qKind]
    have trailing : p.isTrailingComma [q] = true := by
      simp [isTrailingComma, isToken, pKind, pText, noPart]
    constructor
    · simp [tokensOf, trailing, notComma, qTokens]
    · simp [pKind, qKind]
  · constructor
    · simp [tokensOf, notComma, qTokens]
    · simp [qKind]

/-- The tokens of the row of an argument list are those of its arguments, with
commas between them. -/
theorem arguments_row {p x : Node} {rows : List (List Node)} {ending : List Node}
    (opens : p.tokens = ["("]) (pKind : p.kind = .token) (pText : p.text = "(")
    (argument : x.kind.isArgument = true) (later : ∀ row ∈ rows, IsLaterArgument row)
    (ends : IsEndOfArguments ending) :
    let row := p :: x :: (rows.flatten ++ ending)
    tokensOf true row = ["("] ++ joined ((row.filter isNamed).map tokens) ++ [")"] ∧
      ∀ a ∈ row.filter isNamed, a.kind.isArgument = true := by
  obtain ⟨xs, named, arguments, tokens_eq⟩ := laterArguments later ends
  have named_x : x.isNamed = true := (Bool.and_eq_true_iff.mp (isPart_of_isArgument argument)).1
  have notComma : ∀ behind, p.isTrailingComma behind = false := by
    simp [isTrailingComma, isToken, pText]
  simp only [List.filter_cons, isNamed_of_token pKind, named_x, named, tokensOf, notComma,
    isTrailingComma_of_isArgument argument, opens, tokens_eq, joined, Bool.and_false,
    Bool.false_eq_true, if_false, if_true, List.map_cons, List.append_assoc, true_and]
  exact List.forall_mem_cons.mpr ⟨argument, arguments⟩

theorem argument_bodies : Go.rules.bodies .argumentList =
    [seq [symbol "(", Go.anyType, many (seq [symbol ",", Go.expression]),
       Phrase.optional (symbol ","), symbol ")"],
     seq [symbol "(",
       Phrase.optional (seq [choice [Go.expression, node .variadicArgument],
         many (seq [symbol ",", choice [Go.expression, node .variadicArgument]]),
         Phrase.optional (symbol ",")]), symbol ")"]] := by
  decide

theorem fits_argument {ns : List Node}
    (fits : Fits Go.rules {} (choice [Go.expression, node .variadicArgument]) ns) :
    ∃ x, ns = [x] ∧ x.kind.isArgument = true := by
  rcases fits_either.mp fits with fits | fits
  · obtain ⟨x, rfl, operand, -⟩ := Go.fits_expression fits
    exact ⟨x, rfl, by simp [Kind.isArgument, operand]⟩
  · obtain ⟨x, rfl, argument, -⟩ := fits_single Kind.isArgument rfl fits
    exact ⟨x, rfl, argument⟩

theorem isLaterArgument {p : Phrase} {row : List Node}
    (fits : Fits Go.rules {} (seq [symbol ",", p]) row)
    (argument : ∀ ns, Fits Go.rules {} p ns → ∃ x, ns = [x] ∧ x.kind.isArgument = true) :
    IsLaterArgument row := by
  obtain ⟨_, _, rfl, comma, inside⟩ := fits_both.mp fits
  obtain ⟨c, rfl, cTokens, cKind, -, -⟩ := fits_symbol comma
  obtain ⟨x, rfl, isArgument⟩ := argument _ inside
  exact ⟨c, x, rfl, cTokens, cKind, isArgument⟩

/-- `(x, y, z...)` -/
theorem arguments_shape (conforms : n.Conforms Go.rules) (kind : n.kind = .argumentList) :
    n.tokens = ["("] ++ joined (n.parts.map tokens) ++ [")"] ∧
      ∀ a ∈ n.parts, a.kind.isArgument = true := by
  obtain ⟨l, cs, rfl, kind, body, rule, fits⟩ := conforms.eq_branch kind (by decide)
  rw [conforms.tokens_branch, kind, beq_self_eq_true, parts_branch]
  simp only [argument_bodies, List.mem_cons, List.not_mem_nil, or_false] at rule
  rcases rule with rfl | rfl
  · simp only [seq, fits_both] at fits
    obtain ⟨_, _, row, opens, _, _, rfl, first, _, _, rfl, later, _, _, rfl, comma, closes⟩ := fits
    obtain ⟨p, rfl, pTokens, pKind, -, pText⟩ := fits_symbol opens
    obtain ⟨x, rfl, operand, -⟩ := Go.fits_anyType first
    obtain ⟨rows, each, rfl⟩ := fits_many later
    rw [row]
    exact arguments_row pTokens pKind pText (by simp [Kind.isArgument, operand])
      (fun row member => isLaterArgument (each row member) fun ns fits => fits_argument (.left fits))
      (endOfArguments comma closes)
  · simp only [seq, fits_both] at fits
    obtain ⟨_, _, row, opens, _, _, rfl, inside, closes⟩ := fits
    obtain ⟨p, rfl, pTokens, pKind, -, pText⟩ := fits_symbol opens
    rw [row]
    rcases fits_either.mp inside with inside | inside
    · simp only [fits_both] at inside
      obtain ⟨_, _, rfl, first, _, _, rfl, later, comma⟩ := inside
      obtain ⟨x, rfl, argument⟩ := fits_argument first
      obtain ⟨rows, each, rfl⟩ := fits_many later
      simpa only [List.append_assoc, List.cons_append, List.nil_append] using
        arguments_row pTokens pKind pText argument
          (fun row member => isLaterArgument (each row member) fun ns => fits_argument)
          (endOfArguments comma closes)
    · obtain ⟨q, rfl, qTokens, qKind, -, qText⟩ := fits_symbol closes
      rw [fits_blank.mp inside]
      simp [tokensOf, isTrailingComma, isToken, pText, qText, pTokens, qTokens, joined,
        isNamed_of_token pKind, isNamed_of_token qKind]

/-- A node that is neither a comment nor a file has a token. -/
theorem tokens_ne_nil {n : Node} (conforms : n.Conforms Go.rules) (notComment : n.isComment = false)
    (notFile : n.kind ≠ .sourceFile) : n.tokens ≠ [] := by
  induction n using Node.induction with
  | leaf l gap text =>
      have other : l.kind ≠ .comment := beq_eq_false_iff_ne.mp notComment
      rw [tokens_leaf other]
      simp
  | branch l cs ih =>
      by_cases arguments : l.kind = .argumentList
      · rw [(arguments_shape conforms arguments).1]
        simp
      · obtain ⟨c, member, other⟩ := conforms.exists_child (by decide) notFile
        have inside := mem_of_mem_code cs member
        have cNotComment : c.isComment = false := by simpa using (List.mem_filter.mp member).2
        rw [conforms.tokens_row arguments]
        intro empty
        exact ih c inside (conforms.inside c inside) cNotComment other
          (List.flatMap_eq_nil_iff.mp empty c member)

end

end Node

end GomegaLint
