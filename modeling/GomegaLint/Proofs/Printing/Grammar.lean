import Mathlib
import GomegaLint.Proofs.Lowering.Tokens

/-!
# Reading formulas back

An expression prints without parentheses of its own, so that what is read from its
tokens is another one where its operators stand in positions that their precedence does
not give them.  `Expr.WellFormed` asks for these positions and `Formula.parse` is the
reading: one pass over the tokens with a stack of what stands open to the left, where an
operator takes everything in front of it that binds as tight as itself or tighter, by the
precedences of the grammar (`BinaryOp.rank`).

`Formula.parse_eq_some_iff` is the result: what is read are the well-formed expressions,
each from its own tokens and from no others.

* Every expression is read back (`Expr.WellFormed.reads`) on top of any stack on which
  its own operator may rest, up to what the operator behind it will take
  (`Formula.close`).
* Nothing else is read (`Formula.State.Sound.step`): the tokens that were passed are
  those of the stack and of the operand at every place.
-/

namespace GomegaLint

/-! ## Tokens with their kinds -/

/-- A token of an expression.  A piece that is kept as its text is one token. -/
inductive Formula.Token where
  | name (text : String)
  | literal (kind : LiteralKind) (text : String)
  | verbatim (text : String)
  | symbol (text : String)
  deriving DecidableEq, Repr

namespace Formula.Token

def text : Token → String
  | name t | literal _ t | verbatim t | symbol t => t

end Formula.Token

namespace Expr

open Formula

mutual

/-- The tokens of an expression with their kinds. -/
def kinded : Expr → List Token
  | ident i => [.name i.name]
  | selector _ x m => x.kinded ++ [.symbol ".", .name m.name]
  | call _ f as s =>
    f.kinded ++ [.symbol "("] ++ kindedArguments as ++ (if s then [.symbol "..."] else []) ++
      [.symbol ")"]
  | binary _ x op y => x.kinded ++ [.symbol op.symbol] ++ y.kinded
  | unary _ op x => .symbol op.symbol :: x.kinded
  | star _ x => .symbol "*" :: x.kinded
  | paren _ x => [.symbol "("] ++ x.kinded ++ [.symbol ")"]
  | literal _ kind v => [.literal kind v]
  | verbatim _ t => [.verbatim t]

def kindedArguments : List Expr → List Token
  | [] => []
  | a :: as => a.kinded ++ kindedLater as

def kindedLater : List Expr → List Token
  | [] => []
  | a :: as => [.symbol ","] ++ a.kinded ++ kindedLater as

end

mutual

theorem map_text_kinded : ∀ e : Expr, e.kinded.map Token.text = e.tokens fun _ t => [t]
  | ident _ | literal .. | verbatim .. => by simp [kinded, tokens, Token.text]
  | selector _ x _ => by simp [kinded, tokens, Token.text, map_text_kinded x]
  | call _ f as s => by
      cases s <;> simp [kinded, tokens, Token.text, map_text_kinded f, map_text_kindedArguments as]
  | binary _ x _ y => by simp [kinded, tokens, Token.text, map_text_kinded x, map_text_kinded y]
  | unary _ _ x | star _ x | paren _ x => by simp [kinded, tokens, Token.text, map_text_kinded x]

theorem map_text_kindedArguments :
    ∀ as : List Expr, (kindedArguments as).map Token.text = argumentTokens (fun _ t => [t]) as
  | [] => by simp [kindedArguments, argumentTokens]
  | a :: as => by
      simp [kindedArguments, argumentTokens, map_text_kinded a, map_text_kindedLater as]

theorem map_text_kindedLater :
    ∀ as : List Expr, (kindedLater as).map Token.text = laterTokens (fun _ t => [t]) as
  | [] => by simp [kindedLater, laterTokens]
  | a :: as => by
      simp [kindedLater, laterTokens, Token.text, map_text_kinded a, map_text_kindedLater as]

end

/-- Printing puts blanks between the tokens and changes nothing else. -/
theorem spaced_kinded (depth : UInt8) (e : Expr) :
    Spaced (e.kinded.map Token.text) (e.segments depth) :=
  map_text_kinded e ▸ spaced_segments depth e

/-- Every argument but the last has a comma behind it. -/
theorem kindedArguments_append (as : List Expr) (e : Expr) :
    kindedArguments (as ++ [e]) = as.flatMap (fun a => a.kinded ++ [.symbol ","]) ++ e.kinded := by
  cases as with
  | nil => simp [kindedArguments, kindedLater]
  | cons a as =>
      have later : kindedLater (as ++ [e]) =
          .symbol "," :: (as.flatMap (fun a => a.kinded ++ [.symbol ","]) ++ e.kinded) := by
        induction as with
        | nil => simp [kindedLater]
        | cons b as ih => simp [kindedLater, ih]
      simp [kindedArguments, later]

/-! ## Expressions without their origins -/

mutual

/-- The expression as if it had been built. -/
def bare : Expr → Expr
  | ident i => named i.name
  | selector _ x m => .selector {} x.bare { name := m.name }
  | call _ f as s => .call {} f.bare (bareAll as) s
  | binary _ x op y => .binary {} x.bare op y.bare
  | unary _ op x => .unary {} op x.bare
  | star _ x => .star {} x.bare
  | paren _ x => .paren {} x.bare
  | literal _ kind v => .literal {} kind v
  | verbatim _ t => .verbatim {} t

def bareAll : List Expr → List Expr
  | [] => []
  | a :: as => a.bare :: bareAll as

end

theorem bareAll_eq_map (as : List Expr) : bareAll as = as.map bare := by
  induction as with
  | nil => rfl
  | cons a as ih => rw [bareAll, ih, List.map_cons]

end Expr

/-! ## Well-formed expressions -/

theorem BinaryOp.precedence_le (op : BinaryOp) : op.precedence ≤ 5 := by
  cases op <;> decide

/-- The precedence that the grammar of files gives an operator. -/
def BinaryOp.rank (op : BinaryOp) : Nat :=
  ((Go.binaryOperators.find? fun row => row.2.contains op.symbol).map (·.1.toNat)).getD 0

/-- Expressions are printed by the precedences of the grammar. -/
@[simp] theorem BinaryOp.rank_eq_precedence (op : BinaryOp) : op.rank = op.precedence := by
  cases op <;> decide

theorem BinaryOp.symbol_of_ofSymbol? {t : String} {op : BinaryOp} (named : ofSymbol? t = some op) :
    op.symbol = t := by
  simpa using List.find?_some named

theorem UnaryOp.symbol_of_ofSymbol? {t : String} {op : UnaryOp} (named : ofSymbol? t = some op) :
    op.symbol = t := by
  simpa using List.find?_some named

namespace Expr

/-- A binary or unary expression or a dereference. -/
def isOperation : Expr → Bool
  | binary .. | unary .. | star .. => true
  | _ => false

/-- Every operator stands where its precedence puts it: the left operand of a binary
operator has no looser one on top, the right operand only tighter ones, a unary operator
has no binary one under it, and members and calls are those of no operation. -/
inductive WellFormed : Expr → Prop
  | ident (i : Ident) : WellFormed (.ident i)
  | selector (o : Origin) (m : Ident) {x : Expr} (base : WellFormed x)
      (noOperation : x.isOperation = false) : WellFormed (.selector o x m)
  | call (o : Origin) (s : Bool) {f : Expr} {args : List Expr} (callee : WellFormed f)
      (noOperation : f.isOperation = false) (arguments : ∀ a ∈ args, WellFormed a) :
      WellFormed (.call o f args s)
  | binary (o : Origin) {x y : Expr} {op : BinaryOp} (left : WellFormed x) (right : WellFormed y)
      (leftTight : ∀ p, x.precedence? = some p → op.precedence ≤ p)
      (rightTight : ∀ p, y.precedence? = some p → op.precedence < p) :
      WellFormed (.binary o x op y)
  | unary (o : Origin) (op : UnaryOp) {x : Expr} (operand : WellFormed x)
      (noBinary : x.precedence? = none) : WellFormed (.unary o op x)
  | star (o : Origin) {x : Expr} (operand : WellFormed x) (noBinary : x.precedence? = none) :
      WellFormed (.star o x)
  | paren (o : Origin) {x : Expr} (inner : WellFormed x) : WellFormed (.paren o x)
  | literal (o : Origin) (kind : LiteralKind) (v : String) : WellFormed (.literal o kind v)
  | verbatim (o : Origin) (t : String) : WellFormed (.verbatim o t)

/-- How tight the parts of an expression hold together: by the precedence of a binary
operator, tighter under a unary one, and tightest in any other expression. -/
def binding : Expr → Nat
  | binary _ _ op _ => op.precedence
  | unary .. | star .. => 6
  | _ => 7

theorem binding_eq_of_not_isOperation {e : Expr} (no : e.isOperation = false) : e.binding = 7 := by
  cases e <;> simp_all [isOperation, binding]

theorem precedence?_eq_none_iff {e : Expr} : e.precedence? = none ↔ 6 ≤ e.binding := by
  cases e with
  | binary o x op y =>
      have := op.precedence_le
      simp [precedence?, binding]
      omega
  | _ => simp [precedence?, binding]

theorem le_binding_iff {e : Expr} {op : BinaryOp} :
    op.precedence ≤ e.binding ↔ ∀ p, e.precedence? = some p → op.precedence ≤ p := by
  have := op.precedence_le
  cases e <;> simp [precedence?, binding] <;> omega

theorem lt_binding_iff {e : Expr} {op : BinaryOp} :
    op.precedence < e.binding ↔ ∀ p, e.precedence? = some p → op.precedence < p := by
  have := op.precedence_le
  cases e <;> simp [precedence?, binding] <;> omega

end Expr

/-! ## Reading -/

namespace Formula

/-- What stands open to the left of an operand. -/
inductive Frame where
  | left (x : Expr) (op : BinaryOp)
  | unary (op : UnaryOp)
  | star
  | parenthesis
  /-- A call with the arguments in front of the operand. -/
  | call (callee : Expr) (args : List Expr)

/-- What has been read. -/
inductive State where
  /-- An operand has to follow. -/
  | operand (stack : List Frame)
  | behind (e : Expr) (stack : List Frame)
  /-- A name has to follow the point. -/
  | point (e : Expr) (stack : List Frame)
  /-- The call has to end behind the ellipsis. -/
  | ellipsis (callee : Expr) (args : List Expr) (stack : List Frame)

/-- Give an operand to the operators in front of it that bind at least as tight. -/
def close (p : Nat) (e : Expr) : List Frame → Expr × List Frame
  | .left x op :: s =>
    if p ≤ op.rank then close p (.binary {} x op e) s else (e, .left x op :: s)
  | .unary op :: s => if p ≤ 6 then close p (.unary {} op e) s else (e, .unary op :: s)
  | .star :: s => if p ≤ 6 then close p (.star {} e) s else (e, .star :: s)
  | s => (e, s)

/-- A symbol where an operand has to follow. -/
def opening? (s : List Frame) : String → Option State
  | "(" => some (.operand (.parenthesis :: s))
  | "*" => some (.operand (.star :: s))
  | ")" =>
    match s with
    | .call f [] :: s => some (.behind (.call {} f [] false) s)
    | _ => none
  | "..." =>
    match s with
    | .call f [] :: s => some (.ellipsis f [] s)
    | _ => none
  | t => (UnaryOp.ofSymbol? t).map fun op => .operand (.unary op :: s)

/-- A symbol behind an operand. -/
def continuing? (e : Expr) (s : List Frame) : String → Option State
  | "." => some (.point e s)
  | "(" => some (.operand (.call e [] :: s))
  | ")" =>
    match close 0 e s with
    | (e, .parenthesis :: s) => some (.behind (.paren {} e) s)
    | (e, .call f args :: s) => some (.behind (.call {} f (args ++ [e]) false) s)
    | _ => none
  | "," =>
    match close 0 e s with
    | (e, .call f args :: s) => some (.operand (.call f (args ++ [e]) :: s))
    | _ => none
  | "..." =>
    match close 0 e s with
    | (e, .call f args :: s) => some (.ellipsis f (args ++ [e]) s)
    | _ => none
  | t => (BinaryOp.ofSymbol? t).map fun op =>
    let (e, s) := close op.rank e s
    .operand (.left e op :: s)

/-- Read one token. -/
def State.step : State → Token → Option State
  | .operand s, .name t => some (.behind (.named t) s)
  | .operand s, .literal kind t => some (.behind (.literal {} kind t) s)
  | .operand s, .verbatim t => some (.behind (.verbatim {} t) s)
  | .operand s, .symbol t => opening? s t
  | .behind e s, .symbol t => continuing? e s t
  | .point e s, .name t => some (.behind (.selector {} e { name := t }) s)
  | .ellipsis f args s, .symbol ")" => some (.behind (.call {} f args true) s)
  | _, _ => none

/-- Read tokens one after the other. -/
def State.run (st : State) (ts : List Token) : Option State := ts.foldlM State.step st

/-- The expression that has been read, if it is a whole one. -/
def State.result? : State → Option Expr
  | .behind e s =>
    match close 0 e s with
    | (e, []) => some e
    | _ => none
  | _ => none

/-- The expression that some tokens are read as. -/
def parse (ts : List Token) : Option Expr := (State.run (.operand []) ts).bind State.result?

/-! ## Well-formed expressions are read back -/

@[simp] theorem State.run_nil (st : State) : st.run [] = some st := rfl

@[simp] theorem State.run_cons (st : State) (t : Token) (ts : List Token) :
    st.run (t :: ts) = (st.step t).bind (State.run · ts) := by
  rw [run, List.foldlM_cons]
  rfl

@[simp] theorem State.run_append (st : State) (ts ts' : List Token) :
    st.run (ts ++ ts') = (st.run ts).bind (State.run · ts') := by
  rw [run, List.foldlM_append]
  rfl

theorem opening?_symbol (s : List Frame) (op : UnaryOp) :
    opening? s op.symbol = some (.operand (.unary op :: s)) := by
  cases op <;> rfl

theorem continuing?_symbol (e : Expr) (s : List Frame) (op : BinaryOp) :
    continuing? e s op.symbol =
      some (.operand (.left (close op.precedence e s).1 op :: (close op.precedence e s).2)) := by
  cases op <;> rfl

/-- An operator of this precedence takes nothing from the stack. -/
def Rests (p : Nat) : List Frame → Prop
  | .left _ op :: _ => op.precedence < p
  | .unary _ :: _ | .star :: _ => 6 < p
  | _ => True

theorem Rests.mono {p q : Nat} {s : List Frame} (rests : Rests p s) (le : p ≤ q) : Rests q s := by
  unfold Rests at rests ⊢
  split <;> simp_all <;> omega

theorem Rests.close_eq {p : Nat} {s : List Frame} (rests : Rests p s) (e : Expr) :
    close p e s = (e, s) := by
  unfold close
  split <;> simp_all [Rests]

/-- Members and calls take what stands right in front of them. -/
theorem rests_seven (s : List Frame) : Rests 7 s := by
  unfold Rests
  split
  · exact Nat.lt_of_le_of_lt (BinaryOp.precedence_le _) (by decide)
  all_goals simp

end Formula

/-- The tokens of an expression are read on top of any stack on which its operator rests;
what stands then is the expression to every operator that leaves it whole. -/
def Expr.Reads (e : Expr) : Prop :=
  ∀ s, (∀ p, e.precedence? = some p → Formula.Rests p s) →
    ∃ e' s', Formula.State.run (.operand s) e.kinded = some (.behind e' s') ∧
      ∀ p ≤ e.binding, Formula.close p e' s' = Formula.close p e.bare s

namespace Formula

/-- The arguments of a call have been read up to the last one. -/
def State.Arguments (f : Expr) (args : List Expr) (s : List Frame) (st : State) : Prop :=
  ∃ e s' before last, st = .behind e s' ∧ close 0 e s' = (last, .call f before :: s) ∧
    before ++ [last] = args

theorem run_argument {f a : Expr} {before : List Expr} {s : List Frame} (reads : a.Reads) :
    ∃ st, State.run (.operand (.call f before :: s)) a.kinded = some st ∧
      st.Arguments f (before ++ [a.bare]) s := by
  obtain ⟨e, s', read, closes⟩ := reads (.call f before :: s) fun _ _ => trivial
  exact ⟨_, read, e, s', before, a.bare, rfl, closes 0 (Nat.zero_le _), rfl⟩

theorem State.Arguments.run_later {f : Expr} {args as : List Expr} {s : List Frame} {st : State}
    (read : st.Arguments f args s) (reads : ∀ a ∈ as, a.Reads) :
    ∃ st', st.run (Expr.kindedLater as) = some st' ∧
      st'.Arguments f (args ++ Expr.bareAll as) s := by
  induction as generalizing st args with
  | nil => exact ⟨st, rfl, by simpa [Expr.bareAll] using read⟩
  | cons a as ih =>
      obtain ⟨first, others⟩ := List.forall_mem_cons.mp reads
      obtain ⟨e, s', before, last, rfl, closes, rfl⟩ := read
      obtain ⟨st₁, run₁, read₁⟩ := @run_argument f a (before ++ [last]) s first
      obtain ⟨st₂, run₂, read₂⟩ := ih read₁ others
      refine ⟨st₂, ?_, by simpa [Expr.bareAll] using read₂⟩
      have comma : State.step (.behind e s') (.symbol ",") =
          some (.operand (.call f (before ++ [last]) :: s)) := by
        simp only [State.step, continuing?, closes]
      simp [Expr.kindedLater, comma, run₁, run₂]

/-- The arguments of a call and its end. -/
theorem run_arguments {f : Expr} {args : List Expr} {s : List Frame} (spread : Bool)
    (reads : ∀ a ∈ args, a.Reads) :
    State.run (.operand (.call f [] :: s))
        (Expr.kindedArguments args ++ ((if spread then [.symbol "..."] else []) ++ [.symbol ")"])) =
      some (.behind (.call {} f (Expr.bareAll args) spread) s) := by
  cases args with
  | nil => cases spread <;> rfl
  | cons a as =>
      obtain ⟨first, others⟩ := List.forall_mem_cons.mp reads
      obtain ⟨st₁, run₁, read₁⟩ := @run_argument f a [] s first
      obtain ⟨st₂, run₂, e, s', before, last, rfl, closes, all⟩ := read₁.run_later others
      simp only [List.nil_append, List.singleton_append] at all
      rw [Expr.kindedArguments, State.run_append, State.run_append, run₁, Option.bind_some, run₂,
        Option.bind_some, Expr.bareAll, ← all]
      cases spread <;> simp [State.step, continuing?, closes]

end Formula

namespace Expr

open Formula

theorem Reads.of_not_isOperation {e : Expr} (reads : e.Reads) (no : e.isOperation = false)
    (s : List Frame) : State.run (.operand s) e.kinded = some (.behind e.bare s) := by
  have notBinary : ∀ p, e.precedence? ≠ some p := by
    cases e <;> simp_all [isOperation, precedence?]
  obtain ⟨e', s', read, closes⟩ := reads s fun p isBinary => absurd isBinary (notBinary p)
  have same := closes 7 (binding_eq_of_not_isOperation no).ge
  rw [(rests_seven s').close_eq, (rests_seven s).close_eq] at same
  cases same
  exact read

/-- Every well-formed expression is read back. -/
theorem WellFormed.reads {e : Expr} (wellFormed : e.WellFormed) : e.Reads := by
  induction wellFormed with
  | ident | literal | verbatim => exact fun s _ => ⟨_, s, rfl, fun _ _ => rfl⟩
  | selector o m base no read =>
      intro s _
      refine ⟨_, s, ?_, fun _ _ => rfl⟩
      simp [kinded, read.of_not_isOperation no, State.step, continuing?, bare]
  | @call o spread f args callee no arguments readCallee readArguments =>
      intro s _
      refine ⟨_, s, ?_, fun _ _ => rfl⟩
      have opened : State.step (.behind f.bare s) (.symbol "(") =
          some (.operand (.call f.bare [] :: s)) := rfl
      simp only [kinded, List.append_assoc, State.run_append, List.singleton_append, State.run_cons,
        readCallee.of_not_isOperation no, Option.bind_some, opened, bare]
      simpa only [State.run_append, State.run_cons] using run_arguments spread readArguments
  | @binary o x y op left right leftTight rightTight readLeft readRight =>
      intro s rests
      have here : Rests op.precedence s := rests _ rfl
      obtain ⟨e₁, s₁, run₁, closes₁⟩ :=
        readLeft s fun p isBinary => here.mono (leftTight p isBinary)
      obtain ⟨e₂, s₂, run₂, closes₂⟩ := readRight (.left x.bare op :: s) rightTight
      -- The operator takes the left operand and nothing in front of it.
      have taken := (closes₁ _ (le_binding_iff.mpr leftTight)).trans (here.close_eq _)
      refine ⟨e₂, s₂, ?_, fun p le => ?_⟩
      · simp [kinded, run₁, State.step, continuing?_symbol, taken, run₂]
      · have le : p ≤ op.precedence := le
        have tight := lt_binding_iff.mpr rightTight
        rw [closes₂ p (by omega), close, BinaryOp.rank_eq_precedence, if_pos le, bare]
  | unary o op operand no read =>
      intro s _
      obtain ⟨e', s', run', closes⟩ :=
        read (.unary op :: s) fun p isBinary => by simp [no] at isBinary
      refine ⟨e', s', ?_, fun p le => ?_⟩
      · simp [kinded, State.step, opening?_symbol, run']
      · have le : p ≤ 6 := le
        rw [closes p (le.trans (precedence?_eq_none_iff.mp no)), close, if_pos le, bare]
  | star o operand no read =>
      intro s _
      obtain ⟨e', s', run', closes⟩ := read (.star :: s) fun p isBinary => by simp [no] at isBinary
      refine ⟨e', s', ?_, fun p le => ?_⟩
      · simp [kinded, State.step, opening?, run']
      · have le : p ≤ 6 := le
        rw [closes p (le.trans (precedence?_eq_none_iff.mp no)), close, if_pos le, bare]
  | @paren o x inner read =>
      intro s _
      obtain ⟨e', s', run', closes⟩ := read (.parenthesis :: s) fun _ _ => trivial
      have closes : close 0 e' s' = (x.bare, .parenthesis :: s) := closes 0 (Nat.zero_le _)
      refine ⟨_, s, ?_, fun _ _ => rfl⟩
      simp [kinded, State.step, opening?, run', continuing?, closes, bare]

theorem WellFormed.parse_kinded {e : Expr} (wellFormed : e.WellFormed) :
    parse e.kinded = some e.bare := by
  obtain ⟨e', s', read, closes⟩ := wellFormed.reads [] fun _ _ => trivial
  have closes : close 0 e' s' = (e.bare, []) := closes 0 (Nat.zero_le _)
  simp only [parse, read, Option.bind_some, State.result?, closes]

end Expr

/-! ## Nothing else is read -/

/-- Well-formed and without origins. -/
structure Expr.Plain (e : Expr) : Prop where
  wellFormed : e.WellFormed
  bare_eq : e.bare = e

namespace Expr.Plain

variable {x y f : Expr} {args : List Expr}

theorem selector (base : x.Plain) (no : x.isOperation = false) (name : String) :
    Plain (.selector {} x { name }) :=
  ⟨.selector _ _ base.wellFormed no, by rw [bare, base.bare_eq]⟩

theorem call (callee : f.Plain) (no : f.isOperation = false) (arguments : ∀ a ∈ args, a.Plain)
    (spread : Bool) : Plain (.call {} f args spread) := by
  refine ⟨.call _ _ callee.wellFormed no fun a member => (arguments a member).wellFormed, ?_⟩
  have same : args.map bare = args :=
    (List.map_congr_left fun a member => (arguments a member).bare_eq).trans args.map_id'
  rw [bare, bareAll_eq_map, callee.bare_eq, same]

theorem binary {op : BinaryOp} (left : x.Plain) (right : y.Plain)
    (leftTight : op.precedence ≤ x.binding) (rightTight : op.precedence < y.binding) :
    Plain (.binary {} x op y) :=
  ⟨.binary _ left.wellFormed right.wellFormed (le_binding_iff.mp leftTight)
    (lt_binding_iff.mp rightTight), by rw [bare, left.bare_eq, right.bare_eq]⟩

theorem unary (operand : x.Plain) (tight : 6 ≤ x.binding) (op : UnaryOp) :
    Plain (.unary {} op x) :=
  ⟨.unary _ _ operand.wellFormed (precedence?_eq_none_iff.mpr tight), by rw [bare, operand.bare_eq]⟩

theorem star (operand : x.Plain) (tight : 6 ≤ x.binding) : Plain (.star {} x) :=
  ⟨.star _ operand.wellFormed (precedence?_eq_none_iff.mpr tight), by rw [bare, operand.bare_eq]⟩

theorem paren (inner : x.Plain) : Plain (.paren {} x) :=
  ⟨.paren _ inner.wellFormed, by rw [bare, inner.bare_eq]⟩

end Expr.Plain

namespace Formula

/-- The tokens of what stands open. -/
def Frame.kinded : Frame → List Token
  | left x op => x.kinded ++ [.symbol op.symbol]
  | unary op => [.symbol op.symbol]
  | star => [.symbol "*"]
  | parenthesis => [.symbol "("]
  | call f args => f.kinded ++ .symbol "(" :: args.flatMap fun a => a.kinded ++ [.symbol ","]

/-- The tokens of a stack. -/
def kinded : List Frame → List Token
  | [] => []
  | f :: s => kinded s ++ f.kinded

/-- What stands open can be completed to well-formed expressions. -/
def Sound : List Frame → Prop
  | [] => True
  | .left x op :: s => x.Plain ∧ op.precedence ≤ x.binding ∧ Rests op.precedence s ∧ Sound s
  | .call f args :: s => (f.Plain ∧ f.isOperation = false ∧ ∀ a ∈ args, a.Plain) ∧ Sound s
  | _ :: s => Sound s

/-- The operators that rest on a stack are looser than the operand on top. -/
def Fits (e : Expr) : List Frame → Prop
  | .left _ op :: _ => op.precedence < e.binding
  | .unary _ :: _ | .star :: _ => 6 ≤ e.binding
  | _ => True

theorem fits_of_le_binding {e : Expr} (tight : 6 ≤ e.binding) (s : List Frame) : Fits e s := by
  unfold Fits
  split
  · exact Nat.lt_of_lt_of_le (Nat.lt_succ_of_le (BinaryOp.precedence_le _)) tight
  all_goals simp [tight]

theorem Rests.fits {p : Nat} {s : List Frame} {e : Expr} (rests : Rests p s) (le : p ≤ e.binding) :
    Fits e s := by
  unfold Rests Fits at *
  split <;> simp_all <;> omega

/-- Closing keeps all tokens and leaves a stack on which the operator rests. -/
theorem close_sound {p : Nat} {e e' : Expr} {s s' : List Frame} (plain : e.Plain) (fits : Fits e s)
    (sound : Sound s) (le : p ≤ e.binding) (closed : close p e s = (e', s')) :
    e'.Plain ∧ Sound s' ∧ Rests p s' ∧ p ≤ e'.binding ∧
      kinded s' ++ e'.kinded = kinded s ++ e.kinded := by
  fun_induction close p e s with
  | case1 e x op s tight ih =>
      rw [BinaryOp.rank_eq_precedence] at tight
      obtain ⟨left, leftTight, rests, sound⟩ := sound
      have whole := ih (left.binary plain leftTight fits) (rests.fits le_rfl) sound tight closed
      simpa [kinded, Frame.kinded, Expr.kinded] using whole
  | case3 e op s tight ih =>
      have whole := ih (plain.unary fits op) (fits_of_le_binding le_rfl s) sound tight closed
      simpa [kinded, Frame.kinded, Expr.kinded] using whole
  | case5 e s tight ih =>
      have whole := ih (plain.star fits) (fits_of_le_binding le_rfl s) sound tight closed
      simpa [kinded, Frame.kinded, Expr.kinded] using whole
  | case2 e x op s loose =>
      rw [BinaryOp.rank_eq_precedence] at loose
      cases closed
      exact ⟨plain, sound, not_le.mp loose, le, rfl⟩
  | case4 e op s loose | case6 e s loose =>
      cases closed
      exact ⟨plain, sound, not_le.mp loose, le, rfl⟩
  | case7 e s noLeft noUnary noStar =>
      cases closed
      refine ⟨plain, sound, ?_, le, rfl⟩
      unfold Rests
      split <;> simp_all

/-- The tokens that have been read are those of the stack and of the operand. -/
def State.Sound (ts : List Token) : State → Prop
  | operand s => Formula.Sound s ∧ kinded s = ts
  | behind e s =>
    Formula.Sound s ∧ e.Plain ∧ e.isOperation = false ∧ kinded s ++ e.kinded = ts
  | point e s =>
    Formula.Sound s ∧ e.Plain ∧ e.isOperation = false ∧
      kinded s ++ e.kinded ++ [.symbol "."] = ts
  | ellipsis f args s =>
    Formula.Sound s ∧ (f.Plain ∧ f.isOperation = false ∧ ∀ a ∈ args, a.Plain) ∧
      kinded s ++ f.kinded ++ [.symbol "("] ++ Expr.kindedArguments args ++ [.symbol "..."] = ts

theorem opening?_sound {s : List Frame} {t : String} {st : State} (sound : Sound s)
    (read : opening? s t = some st) : st.Sound (kinded s ++ [.symbol t]) := by
  unfold opening? at read
  split at read
  · cases read
    exact ⟨sound, rfl⟩
  · cases read
    exact ⟨sound, rfl⟩
  · split at read <;> cases read
    obtain ⟨⟨callee, no, -⟩, sound⟩ := sound
    refine ⟨sound, callee.call no (by simp) false, rfl, ?_⟩
    simp [kinded, Frame.kinded, Expr.kinded, Expr.kindedArguments]
  · split at read <;> cases read
    obtain ⟨callee, sound⟩ := sound
    refine ⟨sound, callee, ?_⟩
    simp [kinded, Frame.kinded, Expr.kindedArguments]
  · obtain ⟨op, named, rfl⟩ := Option.map_eq_some_iff.mp read
    refine ⟨sound, ?_⟩
    rw [kinded, Frame.kinded, UnaryOp.symbol_of_ofSymbol? named]

theorem continuing?_sound {e : Expr} {s : List Frame} {t : String} {st : State} (sound : Sound s)
    (plain : e.Plain) (no : e.isOperation = false) (read : continuing? e s t = some st) :
    st.Sound (kinded s ++ e.kinded ++ [.symbol t]) := by
  have tightest := Expr.binding_eq_of_not_isOperation no
  have closing {p : Nat} {e' : Expr} {s' : List Frame} (le : p ≤ 7)
      (closed : close p e s = (e', s')) :=
    close_sound plain (fits_of_le_binding (tightest ▸ by decide) s) sound (tightest ▸ le) closed
  -- Three symbols end an argument.
  have argument {e' f : Expr} {args : List Expr} {s' : List Frame}
      (closed : close 0 e s = (e', .call f args :: s')) :
      Sound s' ∧ (f.Plain ∧ f.isOperation = false ∧ ∀ a ∈ args ++ [e'], a.Plain) ∧
        kinded (.call f args :: s') ++ e'.kinded = kinded s ++ e.kinded := by
    obtain ⟨last, ⟨⟨callee, no, arguments⟩, sound'⟩, -, -, same⟩ := closing (by decide) closed
    have all := List.forall_mem_append.mpr ⟨arguments, List.forall_mem_singleton.mpr last⟩
    exact ⟨sound', ⟨callee, no, all⟩, same⟩
  unfold continuing? at read
  split at read
  · cases read
    exact ⟨sound, plain, no, rfl⟩
  · cases read
    exact ⟨⟨⟨plain, no, by simp⟩, sound⟩, by simp [kinded, Frame.kinded]⟩
  · split at read <;> cases read
    · rename_i e' s' closed
      obtain ⟨inner, sound', -, -, same⟩ := closing (by decide) closed
      refine ⟨sound', inner.paren, rfl, ?_⟩
      rw [← same]
      simp [kinded, Frame.kinded, Expr.kinded]
    · rename_i e' f args s' closed
      obtain ⟨sound', ⟨callee, no, arguments⟩, same⟩ := argument closed
      refine ⟨sound', callee.call no arguments false, rfl, ?_⟩
      rw [← same]
      simp [kinded, Frame.kinded, Expr.kinded, Expr.kindedArguments_append]
  · split at read <;> cases read
    rename_i e' f args s' closed
    obtain ⟨sound', call, same⟩ := argument closed
    refine ⟨⟨call, sound'⟩, ?_⟩
    rw [← same]
    simp [kinded, Frame.kinded]
  · split at read <;> cases read
    rename_i e' f args s' closed
    obtain ⟨sound', call, same⟩ := argument closed
    refine ⟨sound', call, ?_⟩
    rw [← same]
    simp [kinded, Frame.kinded, Expr.kindedArguments_append]
  · obtain ⟨op, named, rfl⟩ := Option.map_eq_some_iff.mp read
    have := op.precedence_le
    rw [BinaryOp.rank_eq_precedence]
    obtain ⟨left, sound', rests, tight, same⟩ :=
      closing (p := op.precedence) (by omega) rfl
    refine ⟨⟨left, tight, rests, sound'⟩, ?_⟩
    rw [← same, kinded, Frame.kinded, BinaryOp.symbol_of_ofSymbol? named, List.append_assoc]

/-- **What one token keeps.** -/
theorem State.Sound.step {ts : List Token} {t : Token} {st st' : State} (sound : st.Sound ts)
    (read : st.step t = some st') : st'.Sound (ts ++ [t]) := by
  unfold State.step at read
  split at read
  · cases read
    obtain ⟨sound, rfl⟩ := sound
    exact ⟨sound, ⟨.ident _, rfl⟩, rfl, rfl⟩
  · cases read
    obtain ⟨sound, rfl⟩ := sound
    exact ⟨sound, ⟨.literal _ _ _, rfl⟩, rfl, rfl⟩
  · cases read
    obtain ⟨sound, rfl⟩ := sound
    exact ⟨sound, ⟨.verbatim _ _, rfl⟩, rfl, rfl⟩
  · obtain ⟨sound, rfl⟩ := sound
    exact opening?_sound sound read
  · obtain ⟨sound, plain, no, rfl⟩ := sound
    exact continuing?_sound sound plain no read
  · cases read
    obtain ⟨sound, plain, no, rfl⟩ := sound
    exact ⟨sound, plain.selector no _, rfl, by simp [Expr.kinded]⟩
  · cases read
    obtain ⟨sound, ⟨callee, no, arguments⟩, rfl⟩ := sound
    exact ⟨sound, callee.call no arguments true, rfl, by simp [Expr.kinded]⟩
  · cases read

theorem State.Sound.run {ts ts' : List Token} {st st' : State} (sound : st.Sound ts)
    (read : st.run ts' = some st') : st'.Sound (ts ++ ts') := by
  induction ts' generalizing st ts with
  | nil =>
      cases read
      simpa using sound
  | cons t ts' ih =>
      rw [run_cons] at read
      obtain ⟨next, first, read⟩ := Option.bind_eq_some_iff.mp read
      simpa using ih (sound.step first) read

theorem parse_sound {ts : List Token} {e : Expr} (read : parse ts = some e) :
    e.Plain ∧ e.kinded = ts := by
  obtain ⟨st, run, result⟩ := Option.bind_eq_some_iff.mp read
  have start : (State.operand []).Sound [] := ⟨trivial, rfl⟩
  have sound := start.run run
  cases st with
  | behind e' s =>
      obtain ⟨sound, plain, no, same⟩ := sound
      simp only [State.result?] at result
      split at result <;> cases result
      rename_i closed
      obtain ⟨plain', -, -, -, same'⟩ := close_sound plain
        (fits_of_le_binding (Expr.binding_eq_of_not_isOperation no ▸ by decide) s) sound
        (Nat.zero_le _) closed
      exact ⟨plain', by simpa [kinded] using same'.trans same⟩
  | _ => cases result

/-- **What is read are the well-formed expressions, each from its own tokens.** -/
theorem parse_eq_some_iff {ts : List Token} {e : Expr} :
    parse ts = some e ↔ e.WellFormed ∧ e.bare = e ∧ e.kinded = ts := by
  constructor
  · intro read
    obtain ⟨plain, same⟩ := parse_sound read
    exact ⟨plain.wellFormed, plain.bare_eq, same⟩
  · rintro ⟨wellFormed, bare_eq, rfl⟩
    rw [wellFormed.parse_kinded, bare_eq]

end Formula

end GomegaLint
