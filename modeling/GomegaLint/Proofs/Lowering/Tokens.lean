import Mathlib
import GomegaLint.Expr.Lower
import GomegaLint.Expr.Printer
import GomegaLint.Proofs.Syntax.Conforms

/-!
# The tokens of nodes and of expressions

`Node.tokens` are the tokens of a node without comments and without the comma
that may stand behind the last argument of a call.  `Expr.tokens` are those of an
expression, where a piece that is kept as its text has the tokens that a
`quote` gives it; `Expr.spaced_segments` says that printing adds nothing to
them but blanks.

`Node.quoted` is the quote of a numbered tree: a piece has the tokens of the node
it was taken from.
-/

namespace GomegaLint

/-! ## Nodes -/

namespace Node

/-- A comma behind which no part stands. -/
def isTrailingComma (n : Node) (behind : List Node) : Bool := n.isToken "," && !behind.any isPart

mutual

/-- The tokens of a node. -/
def tokens : Node → List String
  | leaf l _ text => if l.kind = .comment then [] else [text]
  | branch l cs => tokensOf (l.kind == .argumentList) cs

/-- The tokens of a row; of the row of an argument list, without the trailing
comma. -/
def tokensOf (isArguments : Bool) : List Node → List String
  | [] => []
  | c :: cs =>
    if isArguments && c.isTrailingComma cs then tokensOf isArguments cs
    else c.tokens ++ tokensOf isArguments cs

end

@[simp] theorem tokensOf_nil (isArguments : Bool) : tokensOf isArguments [] = [] := by
  rw [tokensOf]

theorem tokensOf_false (cs : List Node) : tokensOf false cs = cs.flatMap tokens := by
  induction cs with
  | nil => rfl
  | cons c cs ih => rw [tokensOf, List.flatMap_cons, ih, Bool.false_and, if_neg (by simp)]

theorem any_isPart_code (cs : List Node) : (code cs).any isPart = cs.any isPart := by
  induction cs with
  | nil => rfl
  | cons c cs ih =>
      by_cases comment : c.isComment = true
      · simp [code, comment, isPart] at ih ⊢
        exact ih
      · simp [code, comment] at ih ⊢
        rw [ih]

/-- Comments have no tokens. -/
theorem tokensOf_code {isArguments : Bool} {cs : List Node}
    (comments : ∀ c ∈ cs, c.isComment = true → c.tokens = []) :
    tokensOf isArguments cs = tokensOf isArguments (code cs) := by
  induction cs with
  | nil => rfl
  | cons c cs ih =>
      obtain ⟨first, others⟩ := List.forall_mem_cons.mp comments
      by_cases comment : c.isComment = true
      · have notComma : c.isTrailingComma cs = false := by
          simp only [isComment, beq_iff_eq] at comment
          simp [isTrailingComma, isToken, comment]
        have skipped : code (c :: cs) = code cs := by simp [code, comment]
        rw [tokensOf, notComma, Bool.and_false, if_neg (by simp), first comment, List.nil_append,
          ih others, skipped]
      · have kept : code (c :: cs) = c :: code cs := by simp [code, comment]
        rw [kept, tokensOf, tokensOf, ih others, isTrailingComma, isTrailingComma, any_isPart_code]

end Node

/-! ## Expressions -/

namespace Expr

variable (quote : Origin → String → List String)

mutual

/-- The tokens of an expression. -/
def tokens : Expr → List String
  | ident i => [i.name]
  | selector _ x m => x.tokens ++ [".", m.name]
  | call _ f as s =>
    f.tokens ++ ["("] ++ argumentTokens as ++ (if s then ["..."] else []) ++ [")"]
  | binary _ x op y => x.tokens ++ [op.symbol] ++ y.tokens
  | unary _ op x => op.symbol :: x.tokens
  | star _ x => "*" :: x.tokens
  | paren _ x => ["("] ++ x.tokens ++ [")"]
  | literal _ _ v => [v]
  | verbatim o t => quote o t

def argumentTokens : List Expr → List String
  | [] => []
  | a :: as => a.tokens ++ laterTokens as

def laterTokens : List Expr → List String
  | [] => []
  | a :: as => [","] ++ a.tokens ++ laterTokens as

end

end Expr

/-- The second list is the first with blanks put in. -/
inductive Spaced : List String → List String → Prop
  | nil : Spaced [] []
  | token (t : String) {ts ss : List String} (behind : Spaced ts ss) : Spaced (t :: ts) (t :: ss)
  | blank {ts ss : List String} (behind : Spaced ts ss) : Spaced ts (" " :: ss)

namespace Spaced

theorem append {ts ss ts' ss' : List String} (first : Spaced ts ss) (second : Spaced ts' ss') :
    Spaced (ts ++ ts') (ss ++ ss') := by
  induction first with
  | nil => exact second
  | token t _ ih => exact .token t ih
  | blank _ ih => exact .blank ih

theorem refl (ts : List String) : Spaced ts ts := by
  induction ts with
  | nil => exact .nil
  | cons t ts ih => exact .token t ih

theorem operator (spaced : Bool) (op : BinaryOp) :
    Spaced [op.symbol] (Expr.operatorSegments spaced op) := by
  cases spaced
  · exact refl _
  · exact .blank (.token _ (.blank .nil))

end Spaced

namespace Expr

mutual

/-- Printing puts blanks between the tokens and changes nothing else. -/
theorem spaced_segments (depth : UInt8) :
    ∀ e : Expr, Spaced (e.tokens fun _ t => [t]) (e.segments depth)
  | ident _ | literal .. | verbatim .. => by
      simp only [tokens, segments]
      exact .refl _
  | selector _ x _ => by
      simp only [tokens, segments]
      exact (spaced_segments 1 x).append (.refl _)
  | call _ f as s => by
      simp only [tokens, segments]
      exact ((((spaced_segments 1 f).append (.refl _)).append (spaced_argumentSegments as)).append
        (.refl _)).append (.refl _)
  | binary _ x op y => by
      simp only [tokens, segments]
      exact ((spaced_segments _ x).append (.operator _ op)).append (spaced_segments _ y)
  | unary _ op x => by
      simp only [tokens, segments]
      exact .token _ (spaced_segments 1 x)
  | star _ x => by
      simp only [tokens, segments]
      exact .token _ (spaced_segments 1 x)
  | paren _ x => by
      simp only [tokens, segments]
      exact ((Spaced.refl _).append (spaced_segments 1 x)).append (.refl _)

theorem spaced_argumentSegments :
    ∀ as : List Expr, Spaced (argumentTokens (fun _ t => [t]) as) (argumentSegments as)
  | [] => .nil
  | a :: as => by
      simp only [argumentTokens, argumentSegments]
      exact (spaced_segments 1 a).append (spaced_laterSegments as)

theorem spaced_laterSegments :
    ∀ as : List Expr, Spaced (laterTokens (fun _ t => [t]) as) (laterSegments as)
  | [] => .nil
  | a :: as => by
      simp only [laterTokens, laterSegments]
      exact (((Spaced.token "," .nil).append (.blank .nil)).append
        (spaced_segments 1 a)).append (spaced_laterSegments as)

end

end Expr

/-! ## The quote of a tree -/

namespace Node

/-- The tokens of the node with the identity and the text of a piece. -/
def quoted (root : Node) (o : Origin) (text : String) : List String :=
  ((root.preorder.find? fun m => m.id == o.id && m.text == text).map tokens).getD []

/-- A piece that was taken from a node has the node's tokens. -/
theorem quoted_numbered {root n : Node} (member : n ∈ root.numbered.preorder) :
    root.numbered.quoted n.origin n.text = n.tokens := by
  have unique : ∀ m ∈ root.numbered.preorder, m.id = n.id → m = n := fun m member' same =>
    List.inj_on_of_nodup_map root.numbered_ids_nodup member' member same
  cases found : root.numbered.preorder.find? fun m => m.id == n.id && m.text == n.text with
  | none => exact absurd (List.find?_eq_none.mp found n member) (by simp)
  | some m =>
      have same := List.find?_some found
      simp only [Bool.and_eq_true, beq_iff_eq] at same
      rw [quoted, origin, found, unique m (List.mem_of_find?_eq_some found) same.1]
      rfl

end Node

end GomegaLint
