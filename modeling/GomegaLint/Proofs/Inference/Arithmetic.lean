import Mathlib
import GomegaLint.Proofs.Folding
import GomegaLint.Proofs.Inference.Positions

/-!
# Arithmetic on untyped numbers

Go gives an expression of number literals the widest kind among them: integer, rune or float.  Here
its type and its value are computed by two rules that do not look at each other.  The type is that of
the left operand; the value of an integer beside a float is a float.

`Arithmetic` is what such an expression says, and `Written` ties it to syntax trees.  What evaluation
finds is a function of it (`Arithmetic.typed?`), whatever the file and the state
(`Written.eval_eq`).  So the value always has the form that the widest kind asks for
(`Arithmetic.value?_fits`), but the type has only if the first literal is of that kind
(`arithmetic_asInGo_iff`).
-/

namespace GomegaLint

/-- A kind of untyped numbers. -/
inductive NumberKind where
  | int
  | rune
  | float
  deriving DecidableEq, Repr, Inhabited

namespace NumberKind

/-- The literals of a kind. -/
def literal : NumberKind → Kind
  | int => .intLiteral
  | rune => .runeLiteral
  | float => .floatLiteral

/-- The type of constants of a kind. -/
def untyped : NumberKind → GoType
  | int => .basic .untypedInt
  | rune => .basic .untypedRune
  | float => .basic .untypedFloat

/-- The type of a variable that is given such a constant. -/
def ofVariable : NumberKind → GoType
  | int => .basic .int
  | rune => .basic .int32
  | float => .basic .float64

def width : NumberKind → Nat
  | int => 0
  | rune => 1
  | float => 2

/-- The wider of two kinds. -/
def wider (k k' : NumberKind) : NumberKind := if k.width < k'.width then k' else k

theorem wider_eq_float_iff {k k' : NumberKind} :
    k.wider k' = float ↔ k = float ∨ k' = float := by
  cases k <;> cases k' <;> decide

theorem wider_assoc (k k' k'' : NumberKind) :
    (k.wider k').wider k'' = k.wider (k'.wider k'') := by
  cases k <;> cases k' <;> cases k'' <;> rfl

theorem untyped_injective {k k' : NumberKind} (same : k.untyped = k'.untyped) : k = k' := by
  cases k <;> cases k' <;> first | rfl | cases same

theorem isUntyped_untyped (k : NumberKind) : k.untyped.isUntyped = true := by
  cases k <;> rfl

end NumberKind

namespace Constant

def isFloat : Constant → Bool
  | float _ => true
  | _ => false

/-- A number in the form that a kind asks for. -/
def Fits (k : NumberKind) : Constant → Prop
  | int _ => k ≠ .float
  | float _ => k = .float
  | _ => False

theorem Fits.isFloat_iff {k : NumberKind} {c : Constant} (fits : c.Fits k) :
    c.isFloat = true ↔ k = .float := by
  cases c with
  | int i => exact iff_of_false (by rintro ⟨⟩) fits
  | float f => exact iff_of_true rfl fits
  | bool b => exact fits.elim
  | string s => exact fits.elim

theorem negate?_fits {k : NumberKind} {c c' : Constant} (negated : c.negate? = some c')
    (fits : c.Fits k) : c'.Fits k := by
  cases c with
  | int i =>
      rw [negate?, checked] at negated
      split at negated
      · cases negated
        exact fits
      · cases negated
  | float f =>
      cases negated
      exact fits
  | bool b => exact fits.elim
  | string s => exact fits.elim

/-- An operation on integers gives an integer. -/
theorem foldInt_value {op : BinaryOp} {a b : Int} {c : Constant}
    (folds : foldInt op a b = .value c) : ∃ i, c = .int i := by
  have ofChecked : ∀ r, folded (checked r) = .value c → ∃ i, c = .int i := by
    intro r isValue
    rcases folded_checked_cases r with ⟨-, is⟩ | ⟨-, is⟩ <;> rw [is] at isValue <;> cases isValue
    exact ⟨r, rfl⟩
  have ofDivision : ∀ divide, foldDivision divide a b = .value c → ∃ i, c = .int i := by
    intro divide isValue
    rcases foldDivision_cases divide a b with ⟨-, is⟩ | ⟨-, is⟩ | ⟨-, -, is⟩ <;>
      rw [is] at isValue <;> cases isValue
    exact ⟨_, rfl⟩
  cases op with
  | add | sub | mul => exact ofChecked _ folds
  | div | rem => exact ofDivision _ folds
  | shl =>
      rw [foldInt] at folds
      split at folds <;> cases folds
      exact ⟨_, rfl⟩
  | _ => cases folds

/-- An operation on floats gives a float. -/
theorem foldFloat_value {op : BinaryOp} {a b : Float} {c : Constant}
    (folds : foldFloat op a b = .value c) : ∃ f, c = .float f := by
  cases op with
  | add | sub | mul =>
      cases folds
      exact ⟨_, rfl⟩
  | div =>
      rw [foldFloat] at folds
      split at folds <;> cases folds
      exact ⟨_, rfl⟩
  | _ => cases folds

/-- An operation on numbers gives one in the form of the wider kind. -/
theorem fold_fits {op : BinaryOp} {a b c : Constant} {k k' : NumberKind}
    (folds : fold op a b = .value c) (left : a.Fits k) (right : b.Fits k') :
    c.Fits (k.wider k') := by
  have float : ∀ f f', foldFloat op f f' = .value c → (k = .float ∨ k' = .float) →
      c.Fits (k.wider k') := by
    intro f f' folds some_float
    obtain ⟨_, rfl⟩ := foldFloat_value folds
    exact NumberKind.wider_eq_float_iff.mpr some_float
  cases a <;> cases b <;> first | exact left.elim | exact right.elim | skip
  · obtain ⟨_, rfl⟩ := foldInt_value folds
    exact fun isFloat => (NumberKind.wider_eq_float_iff.mp isFloat).elim left right
  · exact float _ _ folds (.inr right)
  · exact float _ _ folds (.inl left)
  · exact float _ _ folds (.inl left)

end Constant

namespace Folded

/-- The value, if there is one. -/
def value? : Folded → Option Constant
  | value c => some c
  | _ => none

def isOverflow : Folded → Bool
  | overflow => true
  | _ => false

end Folded

namespace Inference

/-! ## Expressions of number literals -/

/-- An expression of number literals. -/
inductive Arithmetic where
  | literal (k : NumberKind) (text : String)
  /-- Parentheses, and whether they open with a comment. -/
  | paren (commented : Bool) (e : Arithmetic)
  | neg (e : Arithmetic)
  | binary (op : BinaryOp) (x y : Arithmetic)
  deriving Repr, Inhabited

/-- The operators of arithmetic. -/
def arithmeticOperators : List BinaryOp := [.add, .sub, .mul, .div]

/-- The tree of an expression of number literals. -/
inductive Written : Node → Arithmetic → Prop
  | literal {n : Node} {k : NumberKind} (kind : n.kind = k.literal) : Written n (.literal k n.text)
  | paren {n x : Node} {e : Arithmetic} (kind : n.kind = .parenthesizedExpression)
      (part : n.parts = [x])
      (comments : ∀ c ∈ n.children, c.isComment = true → c.children = []) (inner : Written x e) :
      Written n (.paren (n.firstNamed?.any Node.isComment) e)
  | neg {n x sign : Node} {e : Arithmetic} (kind : n.kind = .unaryExpression)
      (operator : n.child? .operator = some sign) (minus : sign.text = "-")
      (operand : n.child? .operand = some x) (inner : Written x e) : Written n (.neg e)
  | binary {n x y sign : Node} {op : BinaryOp} {a b : Arithmetic} (kind : n.kind = .binaryExpression)
      (left : n.child? .left = some x) (operator : n.child? .operator = some sign)
      (symbol : sign.text = op.symbol) (isArithmetic : op ∈ arithmeticOperators)
      (right : n.child? .right = some y) (first : Written x a) (second : Written y b) :
      Written n (.binary op a b)

namespace Arithmetic

/-- The kinds of the literals, as they are written. -/
def literals : Arithmetic → List NumberKind
  | literal k _ => [k]
  | paren _ e => e.literals
  | neg e => e.literals
  | binary _ x y => x.literals ++ y.literals

/-- The widest kind among the literals. -/
def widest (e : Arithmetic) : NumberKind := e.literals.foldr NumberKind.wider .int

/-- The kind of the first literal. -/
def first (e : Arithmetic) : NumberKind := e.literals.headD .int

/-- Some parentheses around the first literal open with a comment. -/
def hidden : Arithmetic → Bool
  | literal .. => false
  | paren commented e => commented || e.hidden
  | neg e => e.hidden
  | binary _ x _ => x.hidden

/-- The outcome of an operation on values, if both are known. -/
def outcome (op : BinaryOp) (a b : Option Constant) : Folded :=
  (a.bind fun a => b.map (Constant.fold op a)).getD .unknown

def literalValue? : NumberKind → String → Option Constant
  | .int, text => (Literal.int? text).map .int
  | .rune, text => (Literal.rune? text).map .int
  | .float, text => (Literal.float? text).map .float

/-- The value, if it is computed. -/
def value? : Arithmetic → Option Constant
  | literal k text => literalValue? k text
  | paren commented e => if commented then none else e.value?
  | neg e => e.value?.bind Constant.negate?
  | binary op x y => (outcome op x.value? y.value?).value?

/-- Some operation has no result that can be represented. -/
def overflows : Arithmetic → Bool
  | literal .. => false
  | paren commented e => !commented && e.overflows
  | neg e => e.overflows
  | binary op x y => x.overflows || (y.overflows || (outcome op x.value? y.value?).isOverflow)

/-- What evaluation finds. -/
def typed? (e : Arithmetic) : Option Typed :=
  if e.hidden then none else some ⟨e.first.untyped, e.value?⟩

theorem typed?_of_hidden {e : Arithmetic} (hidden : e.hidden = true) : e.typed? = none := by
  rw [typed?, hidden]
  rfl

theorem typed?_of_visible {e : Arithmetic} (visible : e.hidden = false) :
    e.typed? = some ⟨e.first.untyped, e.value?⟩ := by
  rw [typed?, visible]
  rfl

theorem of_typed? {e : Arithmetic} {t : Typed} (found : e.typed? = some t) :
    e.hidden = false ∧ t = ⟨e.first.untyped, e.value?⟩ := by
  cases visible : e.hidden with
  | true =>
      rw [typed?_of_hidden visible] at found
      cases found
  | false =>
      rw [typed?_of_visible visible] at found
      exact ⟨rfl, (Option.some.inj found).symm⟩

theorem literals_ne_nil (e : Arithmetic) : e.literals ≠ [] := by
  induction e with
  | literal k text => exact List.cons_ne_nil _ _
  | paren commented e ih => exact ih
  | neg e ih => exact ih
  | binary op x y ih _ => exact List.append_ne_nil_of_left_ne_nil ih _

theorem first_binary (op : BinaryOp) (x y : Arithmetic) : (binary op x y).first = x.first := by
  obtain ⟨k, ks, literals⟩ := List.exists_cons_of_ne_nil x.literals_ne_nil
  simp [first, Arithmetic.literals, literals]

theorem widest_binary (op : BinaryOp) (x y : Arithmetic) :
    (binary op x y).widest = x.widest.wider y.widest := by
  simp only [widest, literals, List.foldr_append]
  generalize y.literals.foldr NumberKind.wider .int = k
  induction x.literals with
  | nil => cases k <;> rfl
  | cons k' ks ih => rw [List.foldr_cons, ih, List.foldr_cons, NumberKind.wider_assoc]

theorem widest_eq_float_iff {e : Arithmetic} : e.widest = .float ↔ .float ∈ e.literals := by
  rw [widest]
  induction e.literals with
  | nil => decide
  | cons k ks ih =>
      rw [List.foldr_cons, NumberKind.wider_eq_float_iff, ih, List.mem_cons, @eq_comm _ k]

/-- Nothing is computed of what is hidden. -/
theorem value?_of_hidden {e : Arithmetic} (hidden : e.hidden = true) : e.value? = none := by
  induction e with
  | literal k text => cases hidden
  | paren commented e ih =>
      cases commented with
      | true => rfl
      | false => exact ih hidden
  | neg e ih => rw [value?, ih hidden, Option.bind_none]
  | binary op x y ih _ =>
      rw [value?, ih hidden]
      rfl

theorem literalValue?_fits {k : NumberKind} {text : String} {c : Constant}
    (isValue : literalValue? k text = some c) : c.Fits k := by
  cases k <;> obtain ⟨_, -, rfl⟩ := Option.map_eq_some_iff.mp isValue
  · rintro ⟨⟩
  · rintro ⟨⟩
  · exact rfl

/-- A value has the form that the widest kind asks for. -/
theorem value?_fits {e : Arithmetic} {c : Constant} (isValue : e.value? = some c) :
    c.Fits e.widest := by
  induction e generalizing c with
  | literal k text =>
      have : (literal k text).widest = k := by cases k <;> rfl
      rw [this]
      exact literalValue?_fits isValue
  | paren commented e ih =>
      cases commented with
      | true => cases isValue
      | false => exact ih isValue
  | neg e ih =>
      obtain ⟨c', isValue', negated⟩ := Option.bind_eq_some_iff.mp isValue
      exact Constant.negate?_fits negated (ih isValue')
  | binary op x y ih ih' =>
      rw [widest_binary]
      rw [value?] at isValue
      cases left : x.value? with
      | none => rw [left] at isValue; cases isValue
      | some a =>
          cases right : y.value? with
          | none => rw [left, right] at isValue; cases isValue
          | some b =>
              have folds : Constant.fold op a b = .value c := by
                rw [left, right] at isValue
                change (Constant.fold op a b).value? = some c at isValue
                cases out : Constant.fold op a b <;> rw [out] at isValue <;> cases isValue
                rfl
              exact Constant.fold_fits folds (ih left) (ih' right)

end Arithmetic

/-! ## Evaluation -/

/-- A step gives a result in every state, and changes nothing but the entries of the table; it may
meet an overflow. -/
def Computes (m : InferM (Option Typed)) (t : Option Typed) (overflow : Bool) : Prop :=
  ∀ s : State, ∃ table, m s = (t, { s with table := table, overflow := s.overflow || overflow })

namespace Computes

variable {m : InferM (Option Typed)} {t t' : Option Typed} {b b' : Bool}

theorem pure (t : Option Typed) : Computes (Pure.pure t) t false := by
  intro s
  refine ⟨s.table, ?_⟩
  rw [Bool.or_false]
  rfl

theorem bind {f : Option Typed → InferM (Option Typed)} (first : Computes m t b)
    (second : Computes (f t) t' b') : Computes (m >>= f) t' (b || b') := by
  intro s
  obtain ⟨table, run⟩ := first s
  obtain ⟨table', run'⟩ := second { s with table := table, overflow := s.overflow || b }
  refine ⟨table', ?_⟩
  change f (m s).1 (m s).2 = _
  rw [run, run', Bool.or_assoc]

/-- Entering the result of a step. -/
theorem record (n : Node) (computes : Computes m t b) :
    Computes (do
      let t ← m
      recordNode n t
      return t) t b := by
  rw [← Bool.or_false b]
  apply computes.bind
  intro s
  refine ⟨(s.record n t).table, ?_⟩
  rw [Bool.or_false]
  change (t, s.record n t) = _
  cases t with
  | none => rfl
  | some t =>
      rw [State.record]
      split <;> rfl

/-- An arithmetic operation. -/
theorem arithmetic (op : BinaryOp) (x : Typed) (y : Option Typed) :
    Computes (do return some (← Inference.arithmetic op x y))
      (some ⟨arithmeticType op x y, (arithmeticValue op x y).value?⟩)
      (arithmeticValue op x y).isOverflow := by
  intro s
  refine ⟨s.table, ?_⟩
  unfold Inference.arithmetic
  cases arithmeticValue op x y with
  | value c =>
      rw [show (Folded.value c).isOverflow = false from rfl, Bool.or_false]
      rfl
  | unknown =>
      rw [show Folded.unknown.isOverflow = false from rfl, Bool.or_false]
      rfl
  | overflow =>
      rw [show Folded.overflow.isOverflow = true from rfl, Bool.or_true]
      rfl

end Computes

/-- The left operand gives its type unless it is untyped and the right one is not. -/
theorem arithmeticType_untyped (op : BinaryOp) (x : Typed) {y : Option Typed}
    (untyped : ∀ t, y = some t → t.type.isUntyped = true) : arithmeticType op x y = x.type := by
  cases y with
  | none => rfl
  | some t =>
      rw [arithmeticType, untyped t rfl]
      simp

theorem Arithmetic.isUntyped_typed? {e : Arithmetic} {t : Typed} (found : e.typed? = some t) :
    t.type.isUntyped = true := by
  obtain ⟨-, rfl⟩ := of_typed? found
  exact e.first.isUntyped_untyped

/-- What is known of two operands tells the value of the operation. -/
theorem Arithmetic.arithmeticValue_eq (op : BinaryOp) (x y : Arithmetic) :
    arithmeticValue op ⟨x.first.untyped, x.value?⟩ y.typed? = outcome op x.value? y.value? := by
  have right : y.typed?.bind (·.value) = y.value? := by
    cases visible : y.hidden with
    | true =>
        rw [typed?_of_hidden visible, value?_of_hidden visible]
        rfl
    | false =>
        rw [typed?_of_visible visible]
        rfl
  rw [arithmeticValue, right]
  cases x.value? <;> cases y.value? <;> rfl

/-- The first named child of parentheses is what stands in them, or a comment before it. -/
theorem firstNamed?_of_parts {n x : Node} (part : n.parts = [x]) :
    n.firstNamed? = some x ∨ ∃ c ∈ n.children, c.isComment = true ∧ n.firstNamed? = some c := by
  rw [Node.parts] at part
  rw [Node.firstNamed?]
  cases named : n.namedChildren with
  | nil =>
      rw [named] at part
      cases part
  | cons c cs =>
      cases comment : c.isComment with
      | true =>
          have child : c ∈ n.children := by
            apply List.mem_of_mem_filter
            rw [← Node.namedChildren, named]
            exact List.mem_cons_self
          exact .inr ⟨c, child, comment, rfl⟩
      | false =>
          rw [named, List.filter_cons_of_pos (by simp [comment])] at part
          injection part with same
          exact .inl (congrArg some same)

variable {ctx : FileContext}

theorem eval_ofDepth_succ (levels : Nat) (n : Node) :
    (Walker.ofDepth ctx (levels + 1)).eval n = (do
      let t ← evalStep ctx (.ofDepth ctx levels) n
      recordNode n t
      return t) := rfl

/-- Nothing is found of a comment. -/
theorem evalStep_comment (w : Walker) {c : Node} (comment : c.isComment = true)
    (leaf : c.children = []) : Computes (evalStep ctx w c) none false := by
  have kind : c.kind = .comment := eq_of_beq comment
  have nothing : c.parts = [] := by rw [Node.parts, Node.namedChildren, leaf]; rfl
  simp only [evalStep, kind, Walker.visitParts, nothing]
  exact .pure none

/-- A part is evaluated one level further down. -/
theorem eval_part {n x : Node} {levels : Nat} {t : Option Typed} {b : Bool} (child : x ∈ n.children)
    (deep : n.depth ≤ levels + 1)
    (step : ∀ {levels : Nat}, x.depth ≤ levels + 1 →
      Computes (evalStep ctx (.ofDepth ctx levels) x) t b) :
    Computes ((Walker.ofDepth ctx levels).eval x) t b := by
  have shallower := Node.depth_child child
  have some_level := x.depth_pos
  obtain ⟨l, rfl⟩ : ∃ l, levels = l + 1 := ⟨levels - 1, by omega⟩
  rw [eval_ofDepth_succ]
  exact (step (by omega)).record x

theorem isPredicate_of_mem {op : BinaryOp} (isArithmetic : op ∈ arithmeticOperators) :
    isPredicate op = false := by
  simp only [arithmeticOperators, List.mem_cons, List.not_mem_nil, or_false] at isArithmetic
  rcases isArithmetic with rfl | rfl | rfl | rfl <;> rfl

namespace Arithmetic

theorem typed?_neg (e : Arithmetic) : (neg e).typed? = e.typed?.bind (unaryResult "-") := by
  cases visible : e.hidden with
  | true =>
      rw [typed?_of_hidden visible, typed?_of_hidden (e := neg e) visible]
      rfl
  | false =>
      rw [typed?_of_visible visible, typed?_of_visible (e := neg e) visible]
      rfl

/-- The type of an operation is that of its left operand. -/
theorem typed?_binary (op : BinaryOp) (x y : Arithmetic) :
    (binary op x y).typed? = x.typed?.map fun t =>
      ⟨arithmeticType op t y.typed?, (arithmeticValue op t y.typed?).value?⟩ := by
  cases visible : x.hidden with
  | true => rw [typed?_of_hidden visible, typed?_of_hidden (e := binary op x y) visible, Option.map_none]
  | false =>
      rw [typed?_of_visible visible, typed?_of_visible (e := binary op x y) visible, Option.map_some,
        arithmeticType_untyped op _ fun t found => isUntyped_typed? found, arithmeticValue_eq,
        first_binary]
      rfl

end Arithmetic

namespace Written

variable {n : Node} {e : Arithmetic}

/-- What a step finds of an expression of number literals. -/
theorem evalStep_computes (written : Written n e) {levels : Nat} (deep : n.depth ≤ levels + 1) :
    Computes (evalStep ctx (.ofDepth ctx levels) n) e.typed? e.overflows := by
  induction written generalizing levels with
  | @literal n k kind =>
      have found : evalStep ctx (.ofDepth ctx levels) n =
          pure (some ⟨k.untyped, Arithmetic.literalValue? k n.text⟩) := by
        cases k <;> simp only [evalStep, kind, NumberKind.literal, literal?] <;> rfl
      rw [found]
      exact .pure _
  | @paren n x e kind part comments inner ih =>
      simp only [evalStep, kind]
      rcases firstNamed?_of_parts part with first | ⟨c, child, comment, first⟩
      · have inside : x ∈ n.parts := part ▸ List.mem_singleton_self x
        have code : x.isComment = false := by simpa using List.of_mem_filter inside
        rw [first, Option.any_some, code]
        exact eval_part (Node.mem_children_of_mem_parts inside) deep ih
      · rw [first, Option.any_some, comment]
        exact eval_part child deep fun _ => evalStep_comment _ comment (comments c child comment)
  | @neg n x sign e kind operator minus operand inner ih =>
      simp only [evalStep, kind, evalUnary, operand, operator, minus]
      have part := eval_part (Node.mem_children_of_child? operand) deep ih
      rw [Arithmetic.typed?_neg, ← Bool.or_false (Arithmetic.neg e).overflows]
      exact part.bind (.pure _)
  | @binary n x y sign op a b kind left operator symbol isArithmetic right first second ih ih' =>
      simp only [evalStep, kind, evalBinary, Walker.evalChild, left, right, operator, symbol,
        Option.bind_some, BinaryOp.ofSymbol?_symbol]
      have part := eval_part (Node.mem_children_of_child? left) deep ih
      have part' := eval_part (Node.mem_children_of_child? right) deep ih'
      refine part.bind (part'.bind ?_)
      rw [isPredicate_of_mem isArithmetic, if_neg Bool.false_ne_true, Arithmetic.typed?_binary]
      cases visible : a.hidden with
      | true =>
          rw [Arithmetic.typed?_of_hidden visible, Arithmetic.value?_of_hidden visible]
          exact .pure none
      | false =>
          rw [Arithmetic.typed?_of_visible visible, ← Arithmetic.arithmeticValue_eq]
          exact .arithmetic op _ _

/-- The walk through an expression of number literals. -/
theorem eval_eq (written : Written n e) (ctx : FileContext) {levels : Nat} (deep : n.depth ≤ levels)
    (s : State) :
    ∃ table, (Walker.ofDepth ctx levels).eval n s =
        (e.typed?, { s with table := table, overflow := s.overflow || e.overflows }) ∧
      (s.recording = true → ∀ t, e.typed? = some t → table.get? n.id = some t) := by
  have some_level := n.depth_pos
  obtain ⟨l, rfl⟩ : ∃ l, levels = l + 1 := ⟨levels - 1, by omega⟩
  have step : Computes (evalStep ctx (.ofDepth ctx l) n) e.typed? e.overflows :=
    written.evalStep_computes deep
  obtain ⟨table, run⟩ := step.record n s
  refine ⟨table, run, fun recording t found => ?_⟩
  have last : ((evalStep ctx (.ofDepth ctx l) n s).2.record n
      (evalStep ctx (.ofDepth ctx l) n s).1).table = table := congrArg (fun r => r.2.table) run
  obtain ⟨table', run'⟩ := step s
  rw [run'] at last
  rw [← last]
  apply (State.get?_record_self (s := { s with table := table', overflow := _ }) recording n _).trans
  rw [found, Option.some_or]

end Written

/-! ## What Go asks for -/

/-- The walk through an expression treats it as Go does an untyped number of a kind: it goes on, it
enters this kind as the type, a value is a float exactly if the kind is, and a variable that is
declared with the expression gets the type that goes with the kind. -/
structure AsInGo (ctx : FileContext) (w : Walker) (n : Node) (k : NumberKind) (s : State) : Prop where
  goesOn : (w.eval n s).2.overflow = false
  entry : ∃ t, (w.eval n s).1 = some t ∧ (w.eval n s).2.table.get? n.id = some t ∧
    t.type = k.untyped ∧ ∀ c, t.value = some c → (c.isFloat = true ↔ k = .float)
  shortVar : ∀ decl x, listedAs decl .left = [x] → listedAs decl .right = [n] → x.text ≠ "_" →
    (execShortVar w decl s).2.lookup? x.text = some (some (ofType k.ofVariable))
  varSpec : ∀ spec x, spec.childrenAs .name = [x] → spec.child? .type = none →
    listedAs spec .value = [n] → x.text ≠ "_" →
    (execVarSpec ctx w spec s).2.lookup? x.text = some (some (ofType k.ofVariable))

theorem execShortVar_single (w : Walker) {decl x n : Node} (name : listedAs decl .left = [x])
    (value : listedAs decl .right = [n]) (s : State) :
    (execShortVar w decl s).2 = (w.eval n s).2.declare x (variableType (w.eval n s).1) := by
  simp only [execShortVar, name, value]
  rfl

theorem execVarSpec_single (ctx : FileContext) (w : Walker) {spec x n : Node}
    (name : spec.childrenAs .name = [x]) (type : spec.child? .type = none)
    (value : listedAs spec .value = [n]) (s : State) :
    (execVarSpec ctx w spec s).2 = (w.eval n s).2.declare x (variableType (w.eval n s).1) := by
  simp only [execVarSpec, name, value, resolveChild, type]
  rfl

theorem variableType_untyped (k : NumberKind) (value : Option Constant) :
    variableType (some ⟨k.untyped, value⟩) = some (ofType k.ofVariable) := by
  cases k <;> rfl

/-- A name that was declared is bound to what it was declared with. -/
theorem lookup?_declare {s : State} (some_block : s.frames ≠ []) {x : Node} (proper : x.text ≠ "_")
    (t : Option Typed) : (s.declare x t).lookup? x.text = some t :=
  State.lookup?_bind_self (State.Within.record some_block x t).some_block proper t

/-- An expression of number literals is treated as in Go exactly if its first literal is of the widest
kind, nothing hides this literal, and no operation overflows. -/
theorem Written.asInGo_iff {n : Node} {e : Arithmetic} (written : Written n e) (ctx : FileContext)
    {levels : Nat} (deep : n.depth ≤ levels) {s : State} (some_block : s.frames ≠ [])
    (recording : s.recording = true) (computed : s.overflow = false) :
    AsInGo ctx (.ofDepth ctx levels) n e.widest s ↔
      e.first = e.widest ∧ e.hidden = false ∧ e.overflows = false := by
  obtain ⟨table, run, entered⟩ := written.eval_eq ctx deep s
  constructor
  · intro asInGo
    obtain ⟨t, found, -, type, -⟩ := asInGo.entry
    have goesOn := asInGo.goesOn
    rw [run] at found goesOn
    obtain ⟨visible, rfl⟩ := Arithmetic.of_typed? found
    refine ⟨NumberKind.untyped_injective type, visible, ?_⟩
    simpa [computed] using goesOn
  · rintro ⟨widest, visible, fits⟩
    have found := Arithmetic.typed?_of_visible visible
    have declared : ∀ x : Node, x.text ≠ "_" →
        (((Walker.ofDepth ctx levels).eval n s).2.declare x
          (variableType ((Walker.ofDepth ctx levels).eval n s).1)).lookup? x.text =
            some (some (ofType e.widest.ofVariable)) := by
      intro x proper
      rw [run, found, variableType_untyped, widest]
      apply lookup?_declare
      · exact some_block
      · exact proper
    refine ⟨?_, ⟨⟨e.first.untyped, e.value?⟩, ?_, ?_, ?_, ?_⟩, ?_, ?_⟩
    · rw [run, computed, fits]
      rfl
    · rw [run, found]
    · rw [run]
      exact entered recording _ found
    · rw [widest]
    · exact fun c isValue => (Arithmetic.value?_fits isValue).isFloat_iff
    · intro decl x name value proper
      rw [execShortVar_single _ name value]
      exact declared x proper
    · intro spec x name type value proper
      rw [execVarSpec_single ctx _ name type value]
      exact declared x proper

/-- **Untyped arithmetic has the type of its first literal.**  For every expression of number
literals, in every file and at every point of the walk: a value that is computed is a float exactly
if some literal is, but the type that is found and entered is that of the first literal.  So the
expression is treated as in Go exactly if that literal is of the widest kind, no parentheses around
it open with a comment, and no operation overflows. -/
theorem arithmetic_asInGo_iff {n : Node} {e : Arithmetic} (written : Written n e) (ctx : FileContext)
    {levels : Nat} (deep : n.depth ≤ levels) {s : State} (some_block : s.frames ≠ [])
    (recording : s.recording = true) (computed : s.overflow = false) :
    (e.hidden = true → ((Walker.ofDepth ctx levels).eval n s).1 = none) ∧
    (e.hidden = false →
      ((Walker.ofDepth ctx levels).eval n s).1 = some ⟨e.first.untyped, e.value?⟩ ∧
      ((Walker.ofDepth ctx levels).eval n s).2.table.get? n.id =
        some ⟨e.first.untyped, e.value?⟩) ∧
    (∀ c, e.value? = some c → (c.isFloat = true ↔ NumberKind.float ∈ e.literals)) ∧
    (AsInGo ctx (.ofDepth ctx levels) n e.widest s ↔
      e.first = e.widest ∧ e.hidden = false ∧ e.overflows = false) := by
  obtain ⟨table, run, entered⟩ := written.eval_eq ctx deep s
  refine ⟨fun hidden => ?_, fun visible => ⟨?_, ?_⟩, fun c isValue => ?_,
    written.asInGo_iff ctx deep some_block recording computed⟩
  · rw [run]
    exact Arithmetic.typed?_of_hidden hidden
  · rw [run]
    exact Arithmetic.typed?_of_visible visible
  · rw [run]
    exact entered recording _ (Arithmetic.typed?_of_visible visible)
  · rw [(Arithmetic.value?_fits isValue).isFloat_iff, Arithmetic.widest_eq_float_iff]

/-- A rune times an integer, `'a' * 2`. -/
def runeTimesInt : Node :=
  .construct .binaryExpression
    [.word .runeLiteral "'a'" (some .left), .sign "*" (some .operator),
     .word .intLiteral "2" (some .right)]

/-- The product is a rune, as in Go. -/
theorem arithmetic_asInGo_iff_runeTimesInt :
    AsInGo default (.ofDepth default 2) runeTimesInt.numbered .rune {} ∧
      ((Walker.ofDepth default 2).eval runeTimesInt.numbered {}).1 =
        some ⟨.basic .untypedRune, some (.int 194)⟩ := by
  have written : Written runeTimesInt.numbered
      (.binary .mul (.literal .rune "'a'") (.literal .int "2")) :=
    .binary rfl rfl rfl rfl (by decide) rfl (.literal rfl) (.literal rfl)
  obtain ⟨-, found, -, asInGo⟩ :=
    arithmetic_asInGo_iff (s := {}) written default (by decide : _ ≤ 2) (by simp) rfl rfl
  exact ⟨asInGo.mpr ⟨rfl, rfl, rfl⟩, (found rfl).1⟩

/-- An integer and a float, `1 + 2.5`. -/
def intPlusFloat : Node :=
  .construct .binaryExpression
    [.word .intLiteral "1" (some .left), .sign "+" (some .operator),
     .word .floatLiteral "2.5" (some .right)]

/-- The sum is a float, but is taken for an integer. -/
theorem intPlusFloat_typedInt :
    let e := .binary .add (.literal .int "1") (.literal .float "2.5")
    Written intPlusFloat.numbered e ∧ e.widest = .float ∧
      ((Walker.ofDepth default 2).eval intPlusFloat.numbered {}).1 =
        some ⟨.basic .untypedInt, e.value?⟩ ∧
      ¬ AsInGo default (.ofDepth default 2) intPlusFloat.numbered e.widest {} := by
  intro e
  have written : Written intPlusFloat.numbered e :=
    .binary rfl rfl rfl rfl (by decide) rfl (.literal rfl) (.literal rfl)
  have shallow : intPlusFloat.numbered.depth ≤ 2 := by decide
  obtain ⟨table, run, -⟩ := written.eval_eq default shallow {}
  refine ⟨written, rfl, ?_, ?_⟩
  · rw [run]
    exact Arithmetic.typed?_of_visible (e := e) rfl
  · rw [written.asInGo_iff default shallow (by simp) rfl rfl]
    rintro ⟨⟨⟩, -⟩

end Inference

end GomegaLint
