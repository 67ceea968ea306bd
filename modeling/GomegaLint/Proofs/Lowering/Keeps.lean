import Mathlib
import GomegaLint.Proofs.Lowering.Shapes

/-!
# What lowering keeps

Reading a call node as a call keeps its tokens, comments and the trailing commas
of argument lists apart, unless one of four things happens in a node that is read
(`Node.losesCode`):

* the call has type arguments, which are left out;
* a spread argument is not the last one; its ellipsis moves to the end;
* the first thing in parentheses, in a pointer type or in a spread argument is a
  comment, which is then read in the place of what it comments on.

`Node.toCall?_keeps_tokens_iff` says that these are all.  Each node is treated by
itself with `Keeps`: what is read of it is never longer than what is written, and
is the same exactly if nothing is lost; rows of tokens with this property can be
put one behind the other.
-/

namespace GomegaLint

/-! ## Rows that keep their tokens -/

/-- What is read is no longer than what is written, and the same exactly under the
condition. -/
structure Keeps (read written : List String) (intact : Prop) : Prop where
  length_le : read.length ≤ written.length
  eq_iff : read = written ↔ intact

namespace Keeps

variable {read written read' written' : List String} {p q : Prop}

theorem refl (ts : List String) : Keeps ts ts True := ⟨Nat.le_refl _, by simp⟩

theorem congr (keeps : Keeps read written p) (same : p ↔ q) : Keeps read written q :=
  ⟨keeps.length_le, keeps.eq_iff.trans same⟩

theorem of_lt (shorter : read.length < written.length) : Keeps read written False := by
  refine ⟨Nat.le_of_lt shorter, fun same => ?_, False.elim⟩
  rw [same] at shorter
  exact Nat.lt_irrefl _ shorter

theorem append (first : Keeps read written p) (second : Keeps read' written' q) :
    Keeps (read ++ read') (written ++ written') (p ∧ q) := by
  have le := first.length_le
  have le' := second.length_le
  refine ⟨by simp only [List.length_append]; omega, fun same => ?_, ?_⟩
  · have lengths := congrArg List.length same
    simp only [List.length_append] at lengths
    obtain ⟨same, same'⟩ := List.append_inj same (by omega)
    exact ⟨first.eq_iff.mp same, second.eq_iff.mp same'⟩
  · rintro ⟨intact, intact'⟩
    rw [first.eq_iff.mpr intact, second.eq_iff.mpr intact']

/-- Fixed tokens around a row. -/
theorem between (front behind : List String) (keeps : Keeps read written p) :
    Keeps (front ++ read ++ behind) (front ++ written ++ behind) p :=
  (((refl front).append keeps).append (refl behind)).congr (by simp)

end Keeps

/-! ## Arguments -/

/-- The ellipsis, if there is one. -/
def dots (spread : Bool) : List String := if spread then ["..."] else []

@[simp] theorem dots_true : dots true = ["..."] := rfl

@[simp] theorem dots_false : dots false = [] := rfl

theorem joined_cons_cons (t t' : List String) (ts : List (List String)) :
    joined (t :: t' :: ts) = t ++ ([","] ++ joined (t' :: ts)) := by
  simp [joined]

section

variable {α : Type} (spread : α → Bool) (read written : α → List String) (intact : α → Prop)

/-- Arguments are kept if each of them is and only the last one is spread: the one
ellipsis that is read stands at the end. -/
theorem keeps_arguments (ps : List α) (each : ∀ p ∈ ps, Keeps (read p) (written p) (intact p)) :
    Keeps (joined (ps.map read) ++ dots (ps.any spread))
      (joined (ps.map fun p => written p ++ dots (spread p)))
      ((∀ p ∈ ps, intact p) ∧ ∀ p ∈ ps.dropLast, spread p = false) := by
  induction ps with
  | nil => exact (Keeps.refl []).congr (by simp)
  | cons p ps ih =>
      obtain ⟨first, others⟩ := List.forall_mem_cons.mp each
      cases ps with
      | nil => simpa [joined] using first.append (.refl (dots (spread p)))
      | cons p' ps =>
          have later := ih others
          simp only [List.map_cons, joined_cons_cons, List.append_assoc] at later ⊢
          cases isSpread : spread p with
          | false =>
              have := first.append ((Keeps.refl [","]).append later)
              simp only [List.any_cons, isSpread, Bool.false_or] at this ⊢
              refine this.congr ?_
              simp only [List.forall_mem_cons, List.dropLast_cons_cons, isSpread]
              tauto
          | true =>
              -- Behind the first argument a comma is read where its ellipsis is written.
              have le := first.length_le
              have laterLe := later.length_le
              simp only [List.length_append] at laterLe
              simp only [List.any_cons, isSpread, Bool.true_or, dots_true]
              refine ⟨?_, fun same => ?_, ?_⟩
              · simp only [List.length_append, List.length_cons, List.length_nil]
                omega
              · exfalso
                have lengths := congrArg List.length same
                simp only [List.length_append, List.length_cons, List.length_nil] at lengths
                obtain ⟨-, same⟩ := List.append_inj same (by omega)
                simp at same
              · rintro ⟨-, onlyLast⟩
                have := onlyLast p (by simp)
                rw [isSpread] at this
                cases this

end

namespace Expr

variable (quote : Origin → String → List String)

theorem laterTokens_eq (as : List Expr) :
    laterTokens quote as = (as.map (tokens quote)).flatMap ("," :: ·) := by
  induction as with
  | nil => simp [laterTokens]
  | cons a as ih => simp [laterTokens, ih]

theorem argumentTokens_eq (as : List Expr) :
    argumentTokens quote as = joined (as.map (tokens quote)) := by
  cases as with
  | nil => simp [argumentTokens, joined]
  | cons a as => simp [argumentTokens, joined, laterTokens_eq]

end Expr

/-! ## Nodes that are read -/

namespace Node

/-- The nodes that are read to read a node. -/
def readUnder (n : Node) : List Node :=
  match n.kind with
  | .callExpression => (n.child? .function).toList ++ (n.child? .arguments).toList
  | .argumentList => n.parts
  | .variadicArgument | .parenthesizedExpression | .pointerType => n.firstNamed?.toList
  | .selectorExpression | .unaryExpression => (n.child? .operand).toList
  | .qualifiedType => (n.child? .package).toList
  | .binaryExpression => (n.child? .left).toList ++ (n.child? .right).toList
  | _ => []

/-- Reading the first node comes to the second. -/
def Reads : Node → Node → Prop := Relation.ReflTransGen fun n m => m ∈ n.readUnder

/-- Reading a node leaves something of it out, or moves it. -/
def losesCode (n : Node) : Bool :=
  match n.kind with
  | .callExpression => (n.child? .typeArguments).isSome
  | .argumentList => n.parts.dropLast.any (·.kind == .variadicArgument)
  | .variadicArgument | .parenthesizedExpression | .pointerType => n.firstNamed?.any isComment
  | _ => false

/-- No node that is read loses code. -/
def Intact (n : Node) : Prop := ∀ m, n.Reads m → m.losesCode = false

theorem intact_iff {n : Node} :
    n.Intact ↔ n.losesCode = false ∧ ∀ m ∈ n.readUnder, m.Intact := by
  constructor
  · intro intact
    exact ⟨intact n .refl, fun m under k reads => intact k (.head under reads)⟩
  · rintro ⟨here, under⟩ k reads
    rcases reads.cases_head with rfl | ⟨m, member, reads⟩
    · exact here
    · exact under m member k reads

/-! ## Nodes of a tree -/

theorem Conforms.of_mem_preorder {root n : Node} (conforms : root.Conforms Go.rules)
    (member : n ∈ root.preorder) : n.Conforms Go.rules := by
  refine forall_mem_preorder root conforms ?_ n member
  intro m conforms c child
  cases m with
  | leaf l gap text => cases child
  | branch l cs => exact conforms.inside c child

/-! ## One level of reading -/

/-- An operand, or a comment that stands in the place of one. -/
def isReadable (n : Node) : Bool := n.kind.isOperand || n.isComment

variable (quote : Origin → String → List String)

/-- What is read of a node has its tokens exactly if the node is intact. -/
def KeepsTokens (lower : Node → Expr) (n : Node) : Prop :=
  Keeps ((lower n).tokens quote) n.tokens n.Intact

/-- Where operands and comments under a node are kept, by their depth. -/
def KeepsBelow (root : Node) (lower : Node → Expr) (depth : Nat) : Prop :=
  ∀ m ∈ root.preorder, m.depth < depth → m.isReadable = true → KeepsTokens quote lower m

section

variable {quote} {root : Node} {lower : Node → Expr} {n : Node}

/-- A child that is an operand is kept. -/
theorem KeepsBelow.operand (below : KeepsBelow quote root lower n.depth)
    (member : n ∈ root.preorder) {c : Node} (child : c ∈ n.children)
    (operand : c.kind.isOperand = true) : KeepsTokens quote lower c :=
  below c (mem_preorder_of_child member child) (depth_child child) (by simp [isReadable, operand])

/-- Of the one operand in a node the first named child is read: the operand or a
comment before it. -/
theorem KeepsBelow.firstNamed (below : KeepsBelow quote root lower n.depth)
    (conforms : root.Conforms Go.rules) (member : n ∈ root.preorder) {x : Node}
    (only : n.parts = [x]) (operand : x.kind.isOperand = true) :
    ∃ y, n.firstNamed? = some y ∧
      Keeps ((lower y).tokens quote) x.tokens (y.isComment = false ∧ y.Intact) := by
  have part : x ∈ n.parts := by simp [only]
  have named : x ∈ n.namedChildren := List.mem_of_mem_filter part
  cases row : n.namedChildren with
  | nil => simp [row] at named
  | cons y ys =>
      have child : y ∈ n.children := List.mem_of_mem_filter (p := isNamed) (by
        change y ∈ n.namedChildren
        simp [row])
      have inside := mem_preorder_of_child member child
      refine ⟨y, by rw [firstNamed?, row, List.head?_cons], ?_⟩
      cases comment : y.isComment with
      | false =>
          have same : y = x := by simpa [parts, row, comment] using (congrArg List.head? only)
          subst same
          exact (below.operand member child operand).congr (by simp)
      | true =>
          -- The comment has no token and the operand has one.
          have kept := below y inside (depth_child child) (by simp [isReadable, comment])
          have none_read : ((lower y).tokens quote).length ≤ 0 := by
            have := kept.length_le
            rwa [(conforms.of_mem_preorder inside).tokens_comment comment] at this
          have operandInside := mem_preorder_of_child member (mem_children_of_mem_parts part)
          have some_written : x.tokens ≠ [] :=
            tokens_ne_nil (conforms.of_mem_preorder operandInside)
              (isComment_of_isOperand operand) (by rintro file; rw [file] at operand; cases operand)
          have := List.length_pos_iff.mpr some_written
          exact (Keeps.of_lt (by omega)).congr (by simp)

/-- An argument without its ellipsis, as it is read and as it is written. -/
theorem KeepsBelow.argument (below : KeepsBelow quote root lower n.depth)
    (conforms : root.Conforms Go.rules) (member : n ∈ root.preorder) {p : Node}
    (child : p ∈ n.children) (argument : p.kind.isArgument = true) :
    ∃ y written, (if p.kind = .variadicArgument then p.firstNamed? else some p) = some y ∧
      Keeps ((lower y).tokens quote) written p.Intact ∧
      p.tokens = written ++ dots (p.kind == .variadicArgument) := by
  have inside := mem_preorder_of_child member child
  by_cases variadic : p.kind = .variadicArgument
  · obtain ⟨x, only, -, operand, tokens⟩ :=
      variadicArgument_shape (conforms.of_mem_preorder inside) variadic
    have below' : KeepsBelow quote root lower p.depth := fun m inRoot deeper =>
      below m inRoot (Nat.lt_trans deeper (depth_child child))
    obtain ⟨y, first, keeps⟩ := below'.firstNamed conforms inside only operand
    refine ⟨y, x.tokens, by rw [if_pos variadic, first], keeps.congr ?_, by simp [tokens, variadic]⟩
    simp [intact_iff (n := p), losesCode, readUnder, variadic, first]
  · have operand : p.kind.isOperand = true := by simpa [Kind.isArgument, variadic] using argument
    have single : (p.kind == .variadicArgument) = false := beq_eq_false_iff_ne.mpr variadic
    exact ⟨p, p.tokens, if_neg variadic, below.operand member child operand, by simp [single]⟩

/-- The argument list of a call, as it is read and as it is written. -/
theorem KeepsBelow.arguments (below : KeepsBelow quote root lower n.depth)
    (conforms : root.Conforms Go.rules) (member : n ∈ root.preorder)
    (kind : n.kind = .argumentList) :
    Keeps
      (["("] ++ (Expr.argumentTokens quote (lowerArguments lower n).1 ++
        dots (lowerArguments lower n).2) ++ [")"]) n.tokens n.Intact := by
  obtain ⟨tokens, arguments⟩ := arguments_shape (conforms.of_mem_preorder member) kind
  have each := fun p (part : p ∈ n.parts) =>
    below.argument conforms member (mem_children_of_mem_parts part) (arguments p part)
  choose! read written first keeps argumentTokens using each
  have lowered : (lowerArguments lower n).1 = n.parts.map (lower ∘ read) := by
    rw [← List.filterMap_eq_map]
    refine List.filterMap_congr fun p part => ?_
    have := congrArg (Option.map lower) (first p part)
    simpa only [apply_ite, Option.map_some, Function.comp_apply] using this
  have writtenTokens : n.parts.map Node.tokens =
      n.parts.map fun p => written p ++ dots (p.kind == .variadicArgument) :=
    List.map_congr_left argumentTokens
  have whole := (keeps_arguments (·.kind == .variadicArgument) (fun p => (lower (read p)).tokens quote)
    written Intact n.parts keeps).between ["("] [")"]
  rw [tokens, writtenTokens, Expr.argumentTokens_eq, lowered, List.map_map]
  refine whole.congr ?_
  simp [intact_iff (n := n), losesCode, readUnder, kind, and_comm]

/-- A call node is read as a call, as it is written exactly if it is intact. -/
theorem KeepsBelow.call (below : KeepsBelow quote root lower n.depth)
    (conforms : root.Conforms Go.rules) (member : n ∈ root.preorder)
    (kind : n.kind = .callExpression) :
    ∃ c, lowerCall lower n = some c ∧ Keeps (c.toExpr.tokens quote) n.tokens n.Intact := by
  obtain ⟨x, a, function, arguments, xChild, aChild, operand, aKind, tokens⟩ :=
    call_shape (conforms.of_mem_preorder member) kind
  have belowArguments : KeepsBelow quote root lower a.depth := fun m inRoot deeper =>
    below m inRoot (Nat.lt_trans deeper (depth_child aChild))
  have keepsArguments :=
    belowArguments.arguments conforms (mem_preorder_of_child member aChild) aKind
  have keeps := (below.operand member xChild operand).append keepsArguments
  refine ⟨⟨n.origin, lower x, (lowerArguments lower a).1, (lowerArguments lower a).2⟩,
    by simp [lowerCall, kind, function, arguments], ?_⟩
  have read : Expr.tokens quote (Call.toExpr
        ⟨n.origin, lower x, (lowerArguments lower a).1, (lowerArguments lower a).2⟩) =
      (lower x).tokens quote ++ (["("] ++ (Expr.argumentTokens quote (lowerArguments lower a).1 ++
        dots (lowerArguments lower a).2) ++ [")"]) := by
    simp [Call.toExpr, Expr.tokens, dots]
  have intact : n.Intact ↔ (n.child? .typeArguments).isSome = false ∧ x.Intact ∧ a.Intact := by
    simp [intact_iff (n := n), losesCode, readUnder, kind, function, arguments]
  rw [read]
  rcases tokens with ⟨noTypes, tokens⟩ | ⟨t, types, tChild, tKind, tokens⟩
  · rw [tokens]
    exact keeps.congr (by simp [intact, noTypes])
  · -- The type arguments are written and not read.
    have inside := mem_preorder_of_child member tChild
    have some_written : t.tokens ≠ [] :=
      tokens_ne_nil (conforms.of_mem_preorder inside) (by simp [isComment, tKind]) (by simp [tKind])
    have := List.length_pos_iff.mpr some_written
    have shorter := keeps.length_le
    refine (Keeps.of_lt ?_).congr (by simp [intact, types])
    rw [tokens]
    simp only [List.length_append] at shorter ⊢
    omega

/-- A node with a member of an operand. -/
theorem KeepsBelow.member (below : KeepsBelow quote root lower n.depth)
    (inside : n ∈ root.preorder) {whole part : Field} {x m : Node}
    (operand : n.child? whole = some x) (member : n.child? part = some m) (child : x ∈ n.children)
    (isOperand : x.kind.isOperand = true) (tokens : n.tokens = x.tokens ++ [".", m.text])
    (intact : n.Intact ↔ x.Intact) :
    Keeps (((lowerMember lower whole part n).getD n.toVerbatim).tokens quote) n.tokens n.Intact := by
  have keeps := (below.operand inside child isOperand).append (.refl [".", m.text])
  rw [tokens]
  simpa [lowerMember, operand, member, Expr.tokens, toIdent, intact] using keeps

theorem KeepsBelow.binary (below : KeepsBelow quote root lower n.depth)
    (conforms : n.Conforms Go.rules) (inside : n ∈ root.preorder)
    (kind : n.kind = .binaryExpression) :
    Keeps (((lowerBinary lower n).getD n.toVerbatim).tokens quote) n.tokens n.Intact := by
  obtain ⟨x, y, o, op, left, right, operator, isOp, xChild, yChild, xOperand, yOperand, tokens⟩ :=
    binary_shape conforms kind
  have keeps := ((below.operand inside xChild xOperand).append (.refl [op.symbol])).append
    (below.operand inside yChild yOperand)
  have intact : n.Intact ↔ x.Intact ∧ y.Intact := by
    simp [intact_iff (n := n), losesCode, readUnder, kind, left, right]
  rw [tokens]
  simpa [lowerBinary, left, right, operator, isOp, Expr.tokens, intact] using keeps

theorem KeepsBelow.unary (below : KeepsBelow quote root lower n.depth)
    (conforms : n.Conforms Go.rules) (inside : n ∈ root.preorder)
    (kind : n.kind = .unaryExpression) :
    Keeps (((lowerUnary lower n).getD n.toVerbatim).tokens quote) n.tokens n.Intact := by
  obtain ⟨x, o, operand, operator, isOp, child, isOperand, tokens⟩ := unary_shape conforms kind
  have keeps := (Keeps.refl [o.text]).append (below.operand inside child isOperand)
  have intact : n.Intact ↔ x.Intact := by
    simp [intact_iff (n := n), losesCode, readUnder, kind, operand]
  rw [tokens]
  rcases isOp with star | ⟨notStar, op, isOp, symbol⟩
  · simpa [lowerUnary, operand, operator, star, Expr.tokens, intact] using keeps
  · simpa [lowerUnary, operand, operator, notStar, isOp, symbol, Expr.tokens, intact] using keeps

/-- The one operand in a node, between fixed tokens. -/
theorem KeepsBelow.wrapped (below : KeepsBelow quote root lower n.depth)
    (conforms : root.Conforms Go.rules) (inside : n ∈ root.preorder) {x : Node}
    (only : n.parts = [x]) (operand : x.kind.isOperand = true) (front behind : List String)
    (tokens : n.tokens = front ++ x.tokens ++ behind)
    (intact : ∀ y, n.firstNamed? = some y → (n.Intact ↔ y.isComment = false ∧ y.Intact)) :
    ∃ y, n.firstNamed? = some y ∧
      Keeps (front ++ (lower y).tokens quote ++ behind) n.tokens n.Intact := by
  obtain ⟨y, first, keeps⟩ := below.firstNamed conforms inside only operand
  exact ⟨y, first, tokens ▸ (keeps.between front behind).congr (intact y first).symm⟩

/-- A node of a kind without a rule is its one token. -/
theorem keeps_leaf (conforms : n.Conforms Go.rules) {k : Kind} (kind : n.kind = k)
    (noRule : Go.rules.bodies k = []) (notComment : k ≠ .comment)
    (intact : n.Intact) : Keeps [n.text] n.tokens n.Intact := by
  obtain ⟨l, gap, text, rfl, leafKind⟩ := conforms.eq_leaf kind noRule
  rw [tokens_leaf (leafKind ▸ notComment), Node.text]
  exact (Keeps.refl [text]).congr (by simp [intact])

/-- One level of reading keeps the tokens of an intact node, if the levels below
do. -/
theorem KeepsBelow.step (below : KeepsBelow quote root lower n.depth)
    (rooted : root.Conforms Go.rules)
    (quotes : ∀ m ∈ root.preorder, quote m.origin m.text = m.tokens)
    (inside : n ∈ root.preorder) (readable : n.isReadable = true) :
    KeepsTokens quote (lowerStep lower) n := by
  have conforms := rooted.of_mem_preorder inside
  have intact := intact_iff (n := n)
  unfold KeepsTokens lowerStep
  split
  case h_1 kind | h_2 kind | h_3 kind | h_4 kind | h_5 kind | h_6 kind | h_7 kind | h_8 kind =>
    simp only [Expr.tokens, toIdent]
    exact keeps_leaf conforms kind rfl (by simp) (by simp [intact, losesCode, readUnder, kind])
  case h_9 kind =>
    obtain ⟨x, m, operand, member, child, isOperand, tokens⟩ := selector_shape conforms kind
    exact below.member inside operand member child isOperand tokens
      (by simp [intact, losesCode, readUnder, kind, operand])
  case h_10 kind =>
    obtain ⟨x, m, operand, member, child, isOperand, tokens⟩ := qualifiedType_shape conforms kind
    exact below.member inside operand member child isOperand tokens
      (by simp [intact, losesCode, readUnder, kind, operand])
  case h_11 kind =>
    obtain ⟨c, read, keeps⟩ := below.call rooted inside kind
    simpa [read] using keeps
  case h_12 kind => exact below.binary conforms inside kind
  case h_13 kind => exact below.unary conforms inside kind
  case h_14 kind =>
    obtain ⟨x, only, -, operand, tokens⟩ := paren_shape conforms kind
    obtain ⟨y, first, keeps⟩ := below.wrapped rooted inside only operand ["("] [")"] tokens
      (by simp +contextual [intact, losesCode, readUnder, kind])
    simpa [first, Expr.tokens] using keeps
  case h_15 kind =>
    obtain ⟨x, only, -, operand, tokens⟩ := pointerType_shape conforms kind
    obtain ⟨y, first, keeps⟩ := below.wrapped rooted inside only operand ["*"] [] (by simp [tokens])
      (by simp +contextual [intact, losesCode, readUnder, kind])
    simpa [first, Expr.tokens] using keeps
  case h_16 kind | h_17 kind | h_18 kind | h_19 kind | h_20 kind | h_21 kind =>
    simp only [Expr.tokens, toLiteral]
    exact keeps_leaf conforms kind rfl (by simp) (by simp [intact, losesCode, readUnder, kind])
  case h_22 =>
    have unread : n.readUnder = [] := by
      unfold readUnder
      split <;> simp_all [isReadable, Kind.isOperand, isComment]
    have here : n.losesCode = false := by
      unfold losesCode
      split <;> simp_all [isReadable, Kind.isOperand, isComment]
    simp only [Expr.tokens, toVerbatim]
    rw [quotes n inside]
    exact (Keeps.refl n.tokens).congr (by simp [intact, here, unread])

/-- Reading enough levels keeps the tokens of the intact nodes of a tree. -/
theorem lowerTo_keeps (conforms : root.Conforms Go.rules)
    (quotes : ∀ m ∈ root.preorder, quote m.origin m.text = m.tokens) (levels : Nat) :
    KeepsBelow quote root (lowerTo levels) (levels + 1) := by
  induction levels with
  | zero =>
      intro m _ shallow
      exact absurd shallow (by have := m.depth_pos; omega)
  | succ levels ih =>
      intro n inside shallow readable
      have below : KeepsBelow quote root (lowerTo levels) n.depth := fun m inRoot deeper =>
        ih m inRoot (by omega)
      exact below.step conforms quotes inside readable

end

/-- **Reading a call keeps its tokens unless a node that is read loses code.**  In
a numbered tree that conforms to the rules of Go every call node is read as a call.
What is printed of it are its tokens with blanks between them; and its tokens,
where a piece that is kept as its text stands for the tokens of its node, are those
of the call node exactly if the call node is intact. -/
theorem toCall?_keeps_tokens_iff {root n : Node} (conforms : root.numbered.Conforms Go.rules)
    (inside : n ∈ root.numbered.preorder) (kind : n.kind = .callExpression) :
    ∃ c, n.toCall? = some c ∧ c.print = String.join (c.toExpr.segments 1) ∧
      Spaced (c.toExpr.tokens fun _ t => [t]) (c.toExpr.segments 1) ∧
      (c.toExpr.tokens root.numbered.quoted = n.tokens ↔
        ∀ m, n.Reads m → m.losesCode = false) := by
  have below : KeepsBelow root.numbered.quoted root.numbered (lowerTo n.depth) n.depth :=
    fun m inRoot deeper =>
      lowerTo_keeps conforms (fun _ => quoted_numbered) n.depth m inRoot (by omega)
  obtain ⟨c, read, keeps⟩ := below.call conforms inside kind
  exact ⟨c, read, rfl, c.toExpr.spaced_segments 1, keeps.eq_iff⟩

/-! ## Two trees -/

/-- `f(a, /* all */ g(b...),)` -/
def commentedCall : Node :=
  construct .callExpression
    [word .identifier "f" (some .function),
     construct .argumentList
      [sign "(", word .identifier "a", sign ",", word .comment "/* all */",
       construct .callExpression
        [word .identifier "g" (some .function),
         construct .argumentList
          [sign "(", construct .variadicArgument [word .identifier "b", sign "..."], sign ")"]
          (some .arguments)],
       sign ",", sign ")"]
      (some .arguments)]

/-- The comment and the trailing comma are no loss. -/
theorem commentedCall_intact :
    commentedCall.numbered.Conforms Go.rules ∧
      commentedCall.numbered.tokens = ["f", "(", "a", ",", "g", "(", "b", "...", ")", ")"] ∧
      ∀ m, commentedCall.numbered.Reads m → m.losesCode = false := by
  have conforms : commentedCall.numbered.Conforms Go.rules :=
    conforms_of_checks 60 (by decide +kernel)
  obtain ⟨c, read, -, -, keeps⟩ := toCall?_keeps_tokens_iff conforms (mem_preorder_self _) rfl
  obtain rfl := Option.some.inj read
  exact ⟨conforms, by decide +kernel, keeps.mp (by decide +kernel)⟩

/-- `Expect(len(g[int](x)) == 0).To(BeTrue())` -/
def genericLengthCheck : Node :=
  construct .callExpression
    [construct .selectorExpression
      [construct .callExpression
        [word .identifier "Expect" (some .function),
         construct .argumentList
          [sign "(",
           construct .binaryExpression
            [construct .callExpression
              [word .identifier "len" (some .function),
               construct .argumentList
                [sign "(",
                 construct .callExpression
                  [word .identifier "g" (some .function),
                   construct .typeArguments [sign "[", word .typeIdentifier "int", sign "]"]
                    (some .typeArguments),
                   construct .argumentList [sign "(", word .identifier "x", sign ")"]
                    (some .arguments)],
                 sign ")"]
                (some .arguments)]
              (some .left),
             sign "==" (some .operator), word .intLiteral "0" (some .right)],
           sign ")"]
          (some .arguments)]
        (some .operand),
       sign ".", word .fieldIdentifier "To" (some .field)]
      (some .function),
     construct .argumentList
      [sign "(",
       construct .callExpression
        [word .identifier "BeTrue" (some .function),
         construct .argumentList [sign "(", sign ")"] (some .arguments)],
       sign ")"]
      (some .arguments)]

/-- The type arguments of a call are left out. -/
theorem genericLengthCheck_loses_types :
    genericLengthCheck.numbered.Conforms Go.rules ∧
      genericLengthCheck.numbered.tokens =
        ["Expect", "(", "len", "(", "g", "[", "int", "]", "(", "x", ")", ")", "==", "0", ")",
          ".", "To", "(", "BeTrue", "(", ")", ")"] ∧
      ∃ c, genericLengthCheck.numbered.toCall? = some c ∧
        c.toExpr.tokens genericLengthCheck.numbered.quoted =
          ["Expect", "(", "len", "(", "g", "(", "x", ")", ")", "==", "0", ")",
            ".", "To", "(", "BeTrue", "(", ")", ")"] := by
  refine ⟨conforms_of_checks 60 (by decide +kernel), by decide +kernel, _, rfl, ?_⟩
  decide +kernel

end Node

end GomegaLint
