import Mathlib
import GomegaLint.Proofs.Printing.Fusion
import GomegaLint.Proofs.Printing.Grammar

/-!
# The depth of operators

A binary expression prints at a depth of eight bits, which grows on the way to its operands and
which nothing limits.  `Expr.placed` are the binary expressions that are printed, each at its
depth, and printing an expression writes the operators of these and the texts between them
(`Expr.segments_eq_pieces`).

Where the operators stand as their precedence puts them (`Expr.Ranked`), the depth grows at an
operand only if the precedence grows as well.  So it starts at one, is never more than the
precedence (`Expr.Fits`), and does not leave its eight bits, however large the expression is
(`Expr.depth_inRange`).
-/

namespace GomegaLint

/-- A binary expression that is printed at a depth. -/
structure Placed where
  depth : UInt8
  origin : Origin
  left : Expr
  op : BinaryOp
  right : Expr

namespace Placed

def cutoff (p : Placed) : Nat := (Expr.binary p.origin p.left p.op p.right).spacing.cutoff p.depth

/-- The operator with the blanks around it. -/
def segments (p : Placed) : List String := Expr.operatorSegments (p.op.precedence < p.cutoff) p.op

/-- The depth is at most the precedence of the operator. -/
structure InRange (p : Placed) : Prop where
  positive : 1 ≤ p.depth.toNat
  le_precedence : p.depth.toNat ≤ p.op.precedence

theorem four_le_cutoff (p : Placed) : 4 ≤ p.cutoff := Expr.four_le_cutoff _ _

/-- A loose operator has blanks around it. -/
theorem segments_loose {p : Placed} (loose : p.op.precedence ≤ 3) :
    p.segments = [" ", p.op.symbol, " "] := by
  have spaced : p.op.precedence < p.cutoff := Nat.lt_of_le_of_lt loose p.four_le_cutoff
  rw [segments, decide_eq_true spaced]
  rfl

/-- One more is still a number of eight bits. -/
theorem InRange.succ_toNat {p : Placed} (range : p.InRange) :
    (p.depth + 1).toNat = p.depth.toNat + 1 := by
  have bound := range.le_precedence.trans p.op.precedence_le
  rw [UInt8.toNat_add]
  exact Nat.mod_eq_of_lt (by change _ + 1 < 256; omega)

end Placed

/-! ## Pieces -/

/-- A piece of a printed expression. -/
inductive Piece where
  | text (s : String)
  | operator (p : Placed)

namespace Piece

def segments : Piece → List String
  | text s => [s]
  | operator p => p.segments

def placed? : Piece → Option Placed
  | text _ => none
  | operator p => some p

end Piece

namespace Expr

mutual

/-- The pieces of an expression at the given depth of operators. -/
def pieces (depth : UInt8) : Expr → List Piece
  | ident i => [.text i.name]
  | selector _ x m => x.pieces 1 ++ [.text ".", .text m.name]
  | call _ f as s =>
    f.pieces 1 ++ [.text "("] ++ argumentPieces as ++ (if s then [.text "..."] else []) ++
      [.text ")"]
  | binary o x op y =>
    x.pieces (leftDepth depth op x) ++ [.operator ⟨depth, o, x, op, y⟩] ++ y.pieces (depth + 1)
  | unary _ op x => .text op.symbol :: x.pieces 1
  | star _ x => .text "*" :: x.pieces 1
  | paren _ x => [.text "("] ++ x.pieces 1 ++ [.text ")"]
  | literal _ _ v => [.text v]
  | verbatim _ t => [.text t]

def argumentPieces : List Expr → List Piece
  | [] => []
  | a :: as => a.pieces 1 ++ laterPieces as

def laterPieces : List Expr → List Piece
  | [] => []
  | a :: as => [.text ",", .text " "] ++ a.pieces 1 ++ laterPieces as

end

/-- The binary expressions that are printed on the way through an expression. -/
def placed (e : Expr) : List Placed := (e.pieces 1).filterMap Piece.placed?

theorem mem_placed_iff {e : Expr} {p : Placed} : p ∈ e.placed ↔ .operator p ∈ e.pieces 1 := by
  have operator_iff (piece : Piece) : piece.placed? = some p ↔ piece = .operator p := by
    cases piece <;> simp [Piece.placed?]
  simp [placed, operator_iff]

mutual

/-- An expression prints as its pieces. -/
theorem segments_eq_pieces (depth : UInt8) :
    ∀ e : Expr, e.segments depth = (e.pieces depth).flatMap Piece.segments
  | ident _ | literal .. | verbatim .. => rfl
  | selector _ x _ => by
      rw [segments, pieces, List.flatMap_append, ← segments_eq_pieces 1 x]
      rfl
  | call _ f as s => by
      rw [segments, pieces]
      simp only [List.flatMap_append, ← segments_eq_pieces 1 f, ← argumentSegments_eq_pieces as]
      cases s <;> rfl
  | binary _ x op y => by
      rw [segments, pieces]
      simp only [List.flatMap_append, List.flatMap_singleton, ← segments_eq_pieces _ x,
        ← segments_eq_pieces _ y]
      rfl
  | unary _ op x => by
      rw [segments, pieces, List.flatMap_cons, ← segments_eq_pieces 1 x]
      rfl
  | star _ x => by
      rw [segments, pieces, List.flatMap_cons, ← segments_eq_pieces 1 x]
      rfl
  | paren _ x => by
      rw [segments, pieces]
      simp only [List.flatMap_append, ← segments_eq_pieces 1 x]
      rfl

theorem argumentSegments_eq_pieces :
    ∀ as : List Expr, argumentSegments as = (argumentPieces as).flatMap Piece.segments
  | [] => rfl
  | a :: as => by
      rw [argumentSegments, argumentPieces, List.flatMap_append, ← segments_eq_pieces 1 a,
        ← laterSegments_eq_pieces as]

theorem laterSegments_eq_pieces :
    ∀ as : List Expr, laterSegments as = (laterPieces as).flatMap Piece.segments
  | [] => rfl
  | a :: as => by
      rw [laterSegments, laterPieces]
      simp only [List.flatMap_append, ← segments_eq_pieces 1 a, ← laterSegments_eq_pieces as]
      rfl

end

/-! ## Operators where their precedence puts them -/

/-- The left operand of every binary operator has no looser one on top, and the right operand has
only tighter ones. -/
inductive Ranked : Expr → Prop
  | ident (i : Ident) : Ranked (.ident i)
  | selector (o : Origin) (m : Ident) {x : Expr} (base : Ranked x) : Ranked (.selector o x m)
  | call (o : Origin) (s : Bool) {f : Expr} {args : List Expr} (callee : Ranked f)
      (arguments : ∀ a ∈ args, Ranked a) : Ranked (.call o f args s)
  | binary (o : Origin) {x y : Expr} {op : BinaryOp} (left : Ranked x) (right : Ranked y)
      (leftTight : ∀ p, x.precedence? = some p → op.precedence ≤ p)
      (rightTight : ∀ p, y.precedence? = some p → op.precedence < p) : Ranked (.binary o x op y)
  | unary (o : Origin) (op : UnaryOp) {x : Expr} (operand : Ranked x) : Ranked (.unary o op x)
  | star (o : Origin) {x : Expr} (operand : Ranked x) : Ranked (.star o x)
  | paren (o : Origin) {x : Expr} (inner : Ranked x) : Ranked (.paren o x)
  | literal (o : Origin) (kind : LiteralKind) (v : String) : Ranked (.literal o kind v)
  | verbatim (o : Origin) (t : String) : Ranked (.verbatim o t)

/-! ## The depth on the way to the operands -/

/-- An expression may print at the depth. -/
structure Fits (depth : UInt8) (e : Expr) : Prop where
  positive : 1 ≤ depth.toNat
  le_precedence : ∀ p, e.precedence? = some p → depth.toNat ≤ p

/-- The depth one is that of every expression that starts afresh. -/
theorem Fits.one (e : Expr) : Fits 1 e := by
  refine ⟨Nat.le_refl 1, fun p top => ?_⟩
  cases e with
  | binary o x op y =>
      obtain rfl : op.precedence = p := Option.some.inj top
      cases op <;> decide
  | _ => cases top

section Operands

variable {depth : UInt8} {o : Origin} {x y : Expr} {op : BinaryOp}

theorem Fits.inRange (fits : Fits depth (.binary o x op y)) :
    Placed.InRange ⟨depth, o, x, op, y⟩ :=
  ⟨fits.positive, fits.le_precedence _ rfl⟩

/-- One deeper, where the operators are tighter. -/
theorem Fits.succ (fits : Fits depth (.binary o x op y)) {e : Expr}
    (tight : ∀ p, e.precedence? = some p → op.precedence < p) : Fits (depth + 1) e := by
  have next : (depth + 1).toNat = depth.toNat + 1 := fits.inRange.succ_toNat
  have here : depth.toNat ≤ op.precedence := fits.inRange.le_precedence
  refine ⟨by omega, fun p top => ?_⟩
  have := tight p top
  omega

/-- The left operand prints at the same depth if its operator is as tight, and one deeper if it is
tighter. -/
theorem Fits.left (fits : Fits depth (.binary o x op y))
    (tight : ∀ p, x.precedence? = some p → op.precedence ≤ p) :
    Fits (leftDepth depth op x) x := by
  rw [leftDepth]
  by_cases same : x.precedence? = some op.precedence
  · rw [if_pos same]
    refine ⟨fits.positive, fun p top => ?_⟩
    exact (fits.le_precedence _ rfl).trans (tight p top)
  · rw [if_neg same]
    refine fits.succ fun p top => Nat.lt_of_le_of_ne (tight p top) ?_
    rintro rfl
    exact same top

end Operands

/-! ## Every depth -/

/-- The pieces of arguments are those of one of them, and texts. -/
theorem mem_argumentPieces {p : Placed} {as : List Expr}
    (member : .operator p ∈ argumentPieces as) : ∃ a ∈ as, .operator p ∈ a.pieces 1 := by
  have later {as : List Expr} (member : .operator p ∈ laterPieces as) :
      ∃ a ∈ as, .operator p ∈ a.pieces 1 := by
    induction as with
    | nil => simp [laterPieces] at member
    | cons a as ih =>
        simp only [laterPieces, List.mem_append, List.mem_cons, reduceCtorEq, List.not_mem_nil,
          or_self, false_or] at member
        obtain first | behind := member
        · exact ⟨a, List.mem_cons_self, first⟩
        · obtain ⟨b, inside, piece⟩ := ih behind
          exact ⟨b, List.mem_cons_of_mem _ inside, piece⟩
  cases as with
  | nil => simp [argumentPieces] at member
  | cons a as =>
      rw [argumentPieces, List.mem_append] at member
      obtain first | behind := member
      · exact ⟨a, List.mem_cons_self, first⟩
      · obtain ⟨b, inside, piece⟩ := later behind
        exact ⟨b, List.mem_cons_of_mem _ inside, piece⟩

/-- Printed where it fits, an expression has every operator in it printed where it fits. -/
theorem Ranked.inRange {e : Expr} (ranked : e.Ranked) {depth : UInt8} (fits : Fits depth e)
    {p : Placed} (member : .operator p ∈ e.pieces depth) : p.InRange := by
  -- Only at the operands of a binary operator the depth is not one.
  induction ranked generalizing depth with
  | ident _ | literal _ _ _ | verbatim _ _ => simp [pieces] at member
  | selector _ _ _ ih =>
      simp only [pieces, List.mem_append, List.mem_cons, reduceCtorEq, List.not_mem_nil, or_self,
        or_false] at member
      exact ih (.one _) member
  | call _ s _ _ callee arguments =>
      have noPoints : .operator p ∉ (if s then [Piece.text "..."] else []) := by
        cases s <;> simp
      simp only [pieces, List.mem_append, List.mem_cons, reduceCtorEq, List.not_mem_nil, or_self,
        or_false, noPoints] at member
      obtain inCallee | inArguments := member
      · exact callee (.one _) inCallee
      · obtain ⟨a, inside, piece⟩ := mem_argumentPieces inArguments
        exact arguments a inside (.one _) piece
  | binary _ _ _ leftTight rightTight left right =>
      simp only [pieces, List.mem_append, List.mem_singleton] at member
      obtain (inLeft | here) | inRight := member
      · exact left (fits.left leftTight) inLeft
      · cases here
        exact fits.inRange
      · exact right (fits.succ rightTight) inRight
  | unary _ _ _ ih | star _ _ ih =>
      simp only [pieces, List.mem_cons, reduceCtorEq, false_or] at member
      exact ih (.one _) member
  | paren _ _ ih =>
      simp only [pieces, List.mem_append, List.mem_cons, reduceCtorEq, List.not_mem_nil, or_self,
        false_or, or_false] at member
      exact ih (.one _) member

/-- **The depth stays in range.**  An expression prints as its texts and its operators, and loose
operators have blanks around them.  If the operators stand where their precedence puts them, every
one is printed at a depth from one to its precedence, which is at most five, so that one more is
still a number of eight bits. -/
theorem depth_inRange (e : Expr) :
    e.segments 1 = (e.pieces 1).flatMap Piece.segments ∧
    (∀ p ∈ e.placed,
      4 ≤ p.cutoff ∧ (p.op.precedence ≤ 3 → p.segments = [" ", p.op.symbol, " "])) ∧
    (e.Ranked → ∀ p ∈ e.placed,
      1 ≤ p.depth.toNat ∧ p.depth.toNat ≤ p.op.precedence ∧ p.op.precedence ≤ 5 ∧
        (p.depth + 1).toNat = p.depth.toNat + 1) := by
  refine ⟨segments_eq_pieces 1 e, fun p _ => ⟨p.four_le_cutoff, p.segments_loose⟩, ?_⟩
  intro ranked p member
  have range := ranked.inRange (.one e) (mem_placed_iff.mp member)
  exact ⟨range.positive, range.le_precedence, p.op.precedence_le, range.succ_toNat⟩

/-- The expression `a || b && c == d + e*f`. -/
def everyLevel : Expr :=
  .binary {} (named "a") .lor (.binary {} (named "b") .land (.binary {} (named "c") .eq
    (.binary {} (named "d") .add (.binary {} (named "e") .mul (named "f")))))

/-- With one operator of each precedence, every depth up to five is reached. -/
theorem depth_inRange_everyLevel :
    everyLevel.Ranked ∧ everyLevel.placed.map Placed.depth = [1, 2, 3, 4, 5] ∧
      ∀ p ∈ everyLevel.placed,
        1 ≤ p.depth.toNat ∧ p.depth.toNat ≤ p.op.precedence ∧ p.op.precedence ≤ 5 ∧
          (p.depth + 1).toNat = p.depth.toNat + 1 := by
  have rightmost {s : String} {op : BinaryOp} {y : Expr} (right : y.Ranked)
      (tight : ∀ p, y.precedence? = some p → op.precedence < p) :
      (Expr.binary {} (named s) op y).Ranked :=
    .binary {} (.ident _) right (by simp [named, precedence?]) tight
  have ranked : everyLevel.Ranked := by
    refine rightmost (rightmost (rightmost (rightmost (rightmost (.ident _) ?_) ?_) ?_) ?_) ?_ <;>
      simp [named, precedence?, BinaryOp.precedence]
  exact ⟨ranked, by decide, (depth_inRange everyLevel).2.2 ranked⟩

end Expr

end GomegaLint
