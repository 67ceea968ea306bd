import Mathlib
import GomegaLint.Proofs.Lowering.Keeps
import GomegaLint.Proofs.Printing.Literal

/-!
# Where printing runs tokens together

Printed and cut into lexemes again, an expression has its own tokens, unless two of
them run together.  `Expr.fuses` says where they do:

* a unary operator stands before a token that makes another one with it, as in
  `- -x`, which prints as `--x`;
* a binary operator without blanks stands before a formula that opens with such a
  token, as in `a - -b*c == d`, which prints as `a--b*c == d`;
* a number takes the point of a selector or of an ellipsis for its own, as in
  `1 .x`;
* a comment that is kept as an operand takes what follows on its line, or makes
  another one with the `/` in front of it.

A binary operator and a right operand that is itself a unary operator's formula are
always kept apart (`Expr.spaced_of_joins`): this is what the spacing looks for, and
it looks no further.

`Expr.lexemes_print_iff` is the result.
-/

namespace GomegaLint

open Lexeme

/-! ## Operators in front of a text -/

/-- The symbols of operators. -/
def operatorSymbols : List String :=
  BinaryOp.all.map BinaryOp.symbol ++ UnaryOp.all.map UnaryOp.symbol

theorem BinaryOp.symbol_mem (op : BinaryOp) : op.symbol ∈ operatorSymbols := by
  cases op <;> decide

/-- The character behind an operator makes no longer symbol with it and no comment. -/
def stopsAt (s : String) (c : Char) : Bool :=
  !(continuations s.toList).contains c && !(s == "/" && (c == '/' || c == '*'))

/-- The character opens a symbol and nothing else. -/
def isSymbolic (c : Char) : Bool := !isSpecial c && !isWordChar c

theorem opening_symbolic {c : Char} (symbolic : isSymbolic c = true) (cs : List Char) :
    opening (c :: cs) = (.symbol, [], c :: cs) := by
  simp only [isSymbolic, isWordChar, Bool.and_eq_true, Bool.not_eq_true', Bool.or_eq_false_iff]
    at symbolic
  rw [opening_plain symbolic.1, if_neg (by simp [symbolic.2.1]), if_neg (by simp [symbolic.2.2])]

theorem cut_symbolic {c : Char} {s rest : List Char} (symbolic : isSymbolic c = true)
    (symbol : c :: s ∈ symbols) (stops : ∀ d ∈ rest.head?, d ∉ continuations (c :: s)) :
    cut (c :: s ++ rest) = some (c :: s, rest) := by
  have noSlash : c ≠ '/' := by
    rintro rfl
    cases symbolic
  exact cut_symbol symbol (opening_symbolic symbolic _) (by simp [List.isPrefixOf, noSlash.symm])
    stops

/-- **An operator is cut off whole where it stops.** -/
theorem cut_operator {s : String} (operator : s ∈ operatorSymbols) {c : Char} {cs : List Char}
    (stops : stopsAt s c = true) : cut (s.toList ++ c :: cs) = some (s.toList, c :: cs) := by
  have plain : ∀ s ∈ operatorSymbols, s = "/" ∨ s.toList ∈ symbols ∧
      (s.toList.head?.any isSymbolic) = true := by
    decide
  simp only [stopsAt, Bool.and_eq_true, Bool.not_eq_true', Bool.and_eq_false_iff,
    List.contains_eq_mem, decide_eq_false_iff_not, beq_eq_false_iff_ne] at stops
  have ends : ∀ d ∈ (c :: cs).head?, d ∉ continuations s.toList := by
    rintro d ⟨⟩
    exact stops.1
  rcases plain s operator with rfl | ⟨symbol, symbolic⟩
  · have noComment : c ≠ '/' ∧ c ≠ '*' := by simpa using stops.2
    refine cut_symbol (by decide) ?_ ?_ ends
    · change opening ('/' :: c :: cs) = (.symbol, [], '/' :: c :: cs)
      simp [opening, noComment, isLetter]
    · change ['/', '*'].isPrefixOf ('/' :: c :: cs) = false
      simp [List.isPrefixOf, noComment.2.symm]
  · obtain ⟨d, ds, text⟩ : ∃ d ds, s.toList = d :: ds := by
      cases text : s.toList with
      | nil => simp [text] at symbolic
      | cons d ds => exact ⟨d, ds, rfl⟩
    rw [text] at symbol symbolic ends ⊢
    exact cut_symbolic symbolic symbol ends

/-! ## What a text opens with -/

namespace Expr

/-- The expression is an operator and the operand behind it. -/
def isSigned : Expr → Bool
  | unary .. | star .. => true
  | _ => false

/-- The operator that the text of an expression opens with; for a comment it is its
first character. -/
def opener? : Expr → Option String
  | unary _ op _ => some op.symbol
  | star _ _ => some "*"
  | binary _ x _ _ | selector _ x _ | call _ x _ _ => x.opener?
  | verbatim _ t => if t.toList.head? = some '/' then some "/" else none
  | _ => none

/-- An operator makes another token with the one behind it, or a comment. -/
def joins (s : String) : Option String → Bool
  | some t =>
    [("-", "-"), ("+", "+"), ("&", "&"), ("&", "^"), ("/", "*"), ("/", "/")].contains (s, t)
  | none => false

mutual

/-- Printed at a depth, in front of the given text, the expression runs two of its
tokens together. -/
def fuses (depth : UInt8) (behind : List Char) : Expr → Bool
  | ident _ => false
  | verbatim _ t => takesLine t.toList behind
  | literal _ _ v => takesPoint v.toList behind
  | selector _ x m => x.fuses 1 ('.' :: m.name.toList ++ behind)
  | call _ f as s => f.fuses 1 ['('] || argumentsFuse (if s then ['.', '.', '.'] else [')']) as
  | binary o x op y =>
    let spaced := op.precedence < (binary o x op y).spacing.cutoff depth
    x.fuses (leftDepth depth op x) (if spaced then [' '] else op.symbol.toList) ||
      (!spaced && !y.isSigned && joins op.symbol y.opener?) || y.fuses (depth + 1) behind
  | unary _ op x => joins op.symbol x.opener? || x.fuses 1 behind
  | star _ x => x.fuses 1 behind
  | paren _ x => x.fuses 1 [')']

/-- Arguments in front of the given text run two of their tokens together. -/
def argumentsFuse (behind : List Char) : List Expr → Bool
  | [] => false
  | a :: as => a.fuses 1 (if as.isEmpty then behind else [',']) || argumentsFuse behind as

end

end Expr

/-! ## Expressions of Go source -/

/-- The character makes a longer symbol with some operator in front of it. -/
def isJoining (c : Char) : Bool := ['=', '+', '-', '&', '^', '*', '/', '|'].contains c

/-- A piece of text is whole: what is cut off it does not depend on what follows, as
long as this does not go on with a letter or a digit, and it does not open with a
character that some operator would take. -/
structure Whole (t : String) : Prop where
  lexed : ∃ ts, lexemes t.toList = some ts ∧
    ∀ behind, Apart behind → lexemes (t.toList ++ behind) = (lexemes behind).map (ts ++ ·)
  opens : ∃ c ∈ t.toList.head?, isJoining c = false

/-- A piece that is whole is no comment. -/
theorem Whole.head?_ne_slash {t : String} (whole : Whole t) : t.toList.head? ≠ some '/' := by
  intro slash
  obtain ⟨c, opens, plain⟩ := whole.opens
  obtain rfl : '/' = c := Option.some.inj (slash.symm.trans opens)
  cases plain

namespace Expr

/-- The expression is spelled as in a source: its names are words, its literals are
literals and its other pieces are whole or comments. -/
inductive Spelled : Expr → Prop
  | ident {i : Ident} (word : isWord i.name.toList = true) : Spelled (.ident i)
  | selector {x : Expr} {m : Ident} (o : Origin) (word : isWord m.name.toList = true)
      (operand : Spelled x) : Spelled (.selector o x m)
  | call {f : Expr} {args : List Expr} (o : Origin) (s : Bool) (callee : Spelled f)
      (arguments : ∀ a ∈ args, Spelled a) : Spelled (.call o f args s)
  | binary {x y : Expr} (o : Origin) (op : BinaryOp) (left : Spelled x) (right : Spelled y) :
      Spelled (.binary o x op y)
  | unary {x : Expr} (o : Origin) (op : UnaryOp) (operand : Spelled x) : Spelled (.unary o op x)
  | star {x : Expr} (o : Origin) (operand : Spelled x) : Spelled (.star o x)
  | paren {x : Expr} (o : Origin) (inner : Spelled x) : Spelled (.paren o x)
  | literal {v : String} (o : Origin) (kind : LiteralKind) (isLiteral : isLiteral v.toList = true) :
      Spelled (.literal o kind v)
  | verbatim {t : String} (o : Origin) (whole : Whole t) : Spelled (.verbatim o t)
  | comment {t : String} (o : Origin) (comment : isComment t.toList = true) :
      Spelled (.verbatim o t)

/-- The tokens of a piece that is kept as its text. -/
def pieceTokens (_ : Origin) (t : String) : List String := (lexemes t.toList).getD []

/-- The tokens of an expression. -/
def ownTokens (e : Expr) : List String := e.tokens pieceTokens

/-- The characters of an expression at a depth. -/
def text (depth : UInt8) (e : Expr) : List Char := (e.segments depth).flatMap String.toList

theorem toList_print (e : Expr) : e.print.toList = e.text 1 := String.toList_join

/-! ## The first character -/

/-- The text opens with the operator that it is said to open with, or with a character
that makes nothing longer with an operator in front of it. -/
def Opens (e : Expr) (text : List Char) : Prop :=
  match e.opener? with
  | some s => ∃ more, text = s.toList ++ more
  | none => ∃ c cs, text = c :: cs ∧ isJoining c = false

theorem Opens.append {e : Expr} {text : List Char} (opens : e.Opens text) (behind : List Char) :
    e.Opens (text ++ behind) := by
  unfold Opens at opens ⊢
  split at opens
  · obtain ⟨more, rfl⟩ := opens
    exact ⟨more ++ behind, List.append_assoc _ _ _⟩
  · obtain ⟨c, cs, rfl, plain⟩ := opens
    exact ⟨c, cs ++ behind, rfl, plain⟩

/-- The text of an expression goes on as that of another with the same opening. -/
theorem Opens.of_eq {e e' : Expr} {text : List Char} (opens : e.Opens text)
    (same : e'.opener? = e.opener?) : e'.Opens text := by
  unfold Opens at opens ⊢
  rwa [same]

theorem isJoining_of_isWordChar {c : Char} (word : isWordChar c = true) : isJoining c = false := by
  by_contra joining
  simp only [isJoining, List.contains_eq_mem, Bool.not_eq_false, decide_eq_true_eq, List.mem_cons,
    List.not_mem_nil, or_false] at joining
  rcases joining with rfl | rfl | rfl | rfl | rfl | rfl | rfl | rfl <;> cases word

/-- A word or a literal opens with a character that is no operator's and no blank. -/
theorem opens_word {w : List Char} (word : isWord w = true) :
    ∃ c cs, w = c :: cs ∧ isJoining c = false ∧ isBlank c = false := by
  cases w with
  | nil => cases word
  | cons c cs =>
      simp only [isWord, Bool.and_eq_true] at word
      have letter : isWordChar c = true := by simp [isWordChar, word.1]
      exact ⟨c, cs, rfl, isJoining_of_isWordChar letter, not_isBlank (.inr letter)⟩

theorem opens_literal {v : List Char} (literal : isLiteral v = true) :
    ∃ c cs, v = c :: cs ∧ isJoining c = false ∧ isBlank c = false := by
  rcases isLiteral_cases literal with ⟨close, w, quote, rfl, -⟩ | ⟨w, rfl, -⟩ | ⟨number, -⟩
  · exact ⟨close, w, rfl, by rcases quote with rfl | rfl <;> decide⟩
  · exact ⟨_, w, rfl, by decide⟩
  · revert number
    fun_cases opensNumber v with
    | case1 c rest => exact fun _ => ⟨'.', c :: rest, rfl, by decide⟩
    | case2 c rest =>
        intro digit
        have digit := isWordChar_of_isDigit c digit
        exact ⟨c, rest, rfl, isJoining_of_isWordChar digit, not_isBlank (.inr digit)⟩
    | case3 => rintro ⟨⟩

theorem opens_comment {v : List Char} (comment : isComment v = true) :
    ∃ cs, v = '/' :: cs := by
  rcases isComment_cases comment with ⟨w, rfl, -⟩ | ⟨w, rfl, -⟩
  · exact ⟨_, rfl⟩
  · exact ⟨_, rfl⟩

theorem Spelled.opens {e : Expr} (spelled : e.Spelled) (depth : UInt8) :
    e.Opens (e.text depth) := by
  induction spelled generalizing depth with
  | ident word =>
      obtain ⟨c, cs, name, plain, -⟩ := opens_word word
      exact ⟨c, cs, by simp [text, segments, name], plain⟩
  | selector o word operand ih =>
      simp only [text, segments, List.flatMap_append]
      exact ((ih 1).append _).of_eq rfl
  | call o s callee arguments ih =>
      simp only [text, segments, List.flatMap_append, List.append_assoc]
      exact ((ih 1).append _).of_eq rfl
  | binary o op left right ih =>
      simp only [text, segments, List.flatMap_append, List.append_assoc]
      exact ((ih _).append _).of_eq rfl
  | unary o op operand => exact ⟨_, by simp only [text, segments, List.flatMap_cons]; rfl⟩
  | star o operand => exact ⟨_, by simp only [text, segments, List.flatMap_cons]; rfl⟩
  | paren o inner => exact ⟨'(', _, rfl, by decide⟩
  | literal o kind isLiteral =>
      obtain ⟨c, cs, value, plain, -⟩ := opens_literal isLiteral
      exact ⟨c, cs, by simp [text, segments, value], plain⟩
  | verbatim o whole =>
      obtain ⟨c, opens, plain⟩ := whole.opens
      obtain ⟨cs, piece⟩ := List.head?_eq_some_iff.mp opens
      rw [Opens, opener?, if_neg whole.head?_ne_slash]
      exact ⟨c, cs, by simp [text, segments, piece], plain⟩
  | comment o comment =>
      obtain ⟨cs, piece⟩ := opens_comment comment
      rw [Opens, opener?, if_pos (by rw [piece]; rfl)]
      exact ⟨cs, by simp [text, segments, piece]⟩

/-! ## An operator in front of an expression -/

/-- Symbols of operators that may stand right in front of an operand. -/
def tightSymbols : List String :=
  ["!", "-", "+", "^", "&", "<-", "*", "/", "%", "<<", ">>", "&^", "|"]

/-- Symbols that a text may open with. -/
def openingSymbols : List String := "*" :: "/" :: UnaryOp.all.map UnaryOp.symbol

theorem opener?_mem : ∀ {e : Expr} {s : String}, e.opener? = some s → s ∈ openingSymbols
  | unary _ op _, _, rfl => by cases op <;> decide
  | star _ _, _, rfl => by decide
  | binary _ x _ _, _, opens | selector _ x _, _, opens | call _ x _ _, _, opens =>
      opener?_mem (e := x) opens
  | verbatim _ t, s, opens => by
      rw [opener?] at opens
      split at opens
      · cases opens
        decide
      · cases opens

theorem stopsAt_of_not_isJoining {s : String} (tight : s ∈ tightSymbols) {c : Char}
    (plain : isJoining c = false) : stopsAt s c = true := by
  have joining : (tightSymbols.all fun s => (continuations s.toList).all isJoining) = true := by
    decide
  have noContinuation : c ∉ continuations s.toList := fun goesOn => by
    rw [List.all_eq_true.mp (List.all_eq_true.mp joining s tight) c goesOn] at plain
    cases plain
  have noComment : c ≠ '/' ∧ c ≠ '*' := by
    constructor <;> rintro rfl <;> cases plain
  simp [stopsAt, noContinuation, noComment]

/-- A comment is not cut off as a slash. -/
theorem cut_comment {c : Char} (comment : c = '*' ∨ c = '/') (cs : List Char) :
    cut ('/' :: c :: cs) ≠ some (['/'], c :: cs) := by
  rcases comment with rfl | rfl
  · cases closed : blockComment? cs with
    | none => simp [cut, opening, closed, List.isPrefixOf]
    | some r => simp [cut, opening, closed]
  · simp [cut, opening]

/-- Nothing shorter than a symbol is cut off a text that opens with it. -/
theorem cut_longer {c : Char} {s t rest : List Char} (symbolic : isSymbolic c = true)
    (symbol : c :: t ∈ symbols) (opens : c :: t <+: c :: s ++ rest) (longer : s.length < t.length) :
    cut (c :: s ++ rest) ≠ some (c :: s, rest) := by
  intro cutOff
  rw [cut, List.cons_append, opening_symbolic symbolic] at cutOff
  simp only at cutOff
  split at cutOff
  · cases cutOff
  · obtain ⟨u, found, same⟩ := Option.map_eq_some_iff.mp cutOff
    have longest := symbol?_longest found symbol opens
    rw [show u = c :: s from congrArg Prod.fst same] at longest
    simp only [List.length_cons] at longest
    omega

/-- An operator is not cut off whole in front of what it joins with. -/
theorem cut_joined {s t : String} (joined : joins s (some t) = true) (more : List Char) :
    cut (s.toList ++ (t.toList ++ more)) ≠ some (s.toList, t.toList ++ more) := by
  simp only [joins, List.contains_eq_mem, decide_eq_true_eq, List.mem_cons, Prod.mk.injEq,
    List.not_mem_nil, or_false] at joined
  rcases joined with
    ⟨rfl, rfl⟩ | ⟨rfl, rfl⟩ | ⟨rfl, rfl⟩ | ⟨rfl, rfl⟩ | ⟨rfl, rfl⟩ | ⟨rfl, rfl⟩
  · exact cut_longer (t := ['-']) (by decide) (by decide) ⟨more, rfl⟩ (by decide)
  · exact cut_longer (t := ['+']) (by decide) (by decide) ⟨more, rfl⟩ (by decide)
  · exact cut_longer (t := ['&']) (by decide) (by decide) ⟨more, rfl⟩ (by decide)
  · exact cut_longer (t := ['^']) (by decide) (by decide) ⟨more, rfl⟩ (by decide)
  · exact cut_comment (.inl rfl) more
  · exact cut_comment (.inr rfl) more

/-- **An operator is cut off whole in front of an expression exactly if it joins with
nothing there.** -/
theorem cut_before_iff {s : String} (tight : s ∈ tightSymbols) {e : Expr} {text : List Char}
    (opens : e.Opens text) :
    cut (s.toList ++ text) = some (s.toList, text) ↔ joins s e.opener? = false := by
  have operator : s ∈ operatorSymbols := by
    revert s
    decide
  unfold Opens at opens
  cases opener : e.opener? with
  | none =>
      rw [opener] at opens
      obtain ⟨c, cs, rfl, plain⟩ := opens
      exact iff_of_true (cut_operator operator (stopsAt_of_not_isJoining tight plain)) rfl
  | some t =>
      rw [opener] at opens
      obtain ⟨more, rfl⟩ := opens
      by_cases joined : joins s (some t) = true
      · exact iff_of_false (cut_joined joined more) (by simp [joined])
      · have stops : ∀ s ∈ tightSymbols, ∀ t ∈ openingSymbols, joins s (some t) = true ∨
            t.toList.head?.any (stopsAt s) = true := by
          decide +kernel
        have stop := (stops s tight t (opener?_mem opener)).resolve_left joined
        refine iff_of_true ?_ (by simpa using joined)
        cases first : t.toList with
        | nil => simp [first] at stop
        | cons c cs => exact cut_operator operator (by simpa [first] using stop)

/-! ## The spacing of operators -/

/-- Where operators clash, it is at the precedence of one that may be tight. -/
theorem spacing_clash : ∀ e : Expr, e.spacing.clash = 0 ∨ 4 ≤ e.spacing.clash
  | binary _ x op y => by
      have left := spacing_clash x
      have right := spacing_clash y
      simp only [spacing]
      split <;> split <;> simp only [Spacing.merge] <;> grind
  | ident _ | selector .. | call .. | unary .. | star .. | paren .. | literal .. | verbatim .. =>
      .inl rfl

theorem four_le_cutoff (e : Expr) (depth : UInt8) : 4 ≤ e.spacing.cutoff depth := by
  have clash := spacing_clash e
  unfold Spacing.cutoff
  split
  · omega
  · split
    · split <;> omega
    · omega

/-- An operator that is written without blanks is one that may be tight. -/
theorem symbol_mem_tightSymbols {op : BinaryOp} (binds : 4 ≤ op.precedence) :
    op.symbol ∈ tightSymbols := by
  cases op <;> first | decide | (exact absurd binds (by decide))

/-- A clash sets the operator apart that it was found at. -/
theorem lt_cutoff_of_clash {s : Spacing} {p : Nat} (positive : 0 < p) (clash : p ≤ s.clash)
    (depth : UInt8) : p < s.cutoff depth := by
  rw [Spacing.cutoff, if_pos (positive.trans_le clash)]
  omega

/-- **An operator in front of an operand that it would join with is set apart.** -/
theorem spaced_of_joins {x y : Expr} {op : BinaryOp} (o : Origin) (depth : UInt8)
    (operand : y.isSigned = true) (joined : joins op.symbol y.opener? = true) :
    op.precedence < (binary o x op y).spacing.cutoff depth := by
  refine lt_cutoff_of_clash (by cases op <;> decide) ?_ depth
  cases y with
  | unary _ inner z =>
      have pairs : (op, inner) ∈ [(.sub, .neg), (.add, .pos), (.and, .addr), (.and, .xor)] := by
        rw [opener?] at joined
        revert joined
        cases op <;> cases inner <;> decide
      simp only [List.mem_cons, Prod.mk.injEq, List.not_mem_nil, or_false] at pairs
      rcases pairs with ⟨rfl, rfl⟩ | ⟨rfl, rfl⟩ | ⟨rfl, rfl⟩ | ⟨rfl, rfl⟩
      · exact Nat.le_max_right _ _
      · exact Nat.le_max_right _ _
      · exact Nat.le_refl _
      · exact Nat.le_refl _
  | star _ z =>
      obtain rfl : op = .div := by
        rw [opener?] at joined
        revert joined
        cases op <;> decide
      exact Nat.le_refl _
  | _ => cases operand

/-! ## Reading back what was printed -/

/-- A lexeme that is cut off whole. -/
theorem lexemes_token {t : String} {rest : List Char} {ws : List String}
    (code : opensCode t.toList = true) (cutOff : cut (t.toList ++ rest) = some (t.toList, rest)) :
    lexemes (t.toList ++ rest) = some (t :: ws) ↔ lexemes rest = some ws := by
  rw [lexemes_token_iff code, and_iff_right cutOff]

theorem lexemes_word {w : String} {behind : List Char} {ws : List String}
    (word : isWord w.toList = true) (apart : Apart behind) :
    lexemes (w.toList ++ behind) = some (w :: ws) ↔ lexemes behind = some ws := by
  obtain ⟨c, cs, text, -, code⟩ := opens_word word
  exact lexemes_token (by simp [opensCode, text, code]) (cut_word word apart)

theorem lexemes_literal {v : String} {behind : List Char} {ws : List String}
    (literal : isLiteral v.toList = true) (apart : Apart behind) :
    lexemes (v.toList ++ behind) = some (v :: ws) ↔
      takesPoint v.toList behind = false ∧ lexemes behind = some ws := by
  obtain ⟨c, cs, text, -, code⟩ := opens_literal literal
  rw [lexemes_token_iff (by simp [opensCode, text, code]), cut_literal_iff literal apart]

theorem lexemes_comment {t : String} {behind : List Char} {ws : List String}
    (comment : isComment t.toList = true) :
    lexemes (t.toList ++ behind) = some (t :: ws) ↔
      takesLine t.toList behind = false ∧ lexemes behind = some ws := by
  obtain ⟨cs, text⟩ := opens_comment comment
  rw [lexemes_token_iff (by rw [text]; rfl), cut_comment_iff comment]

/-- Brackets and commas are cut off whole in front of anything. -/
theorem lexemes_mark {c : Char} (mark : c ∈ ['(', ')', ',']) {rest : List Char}
    {ws : List String} :
    lexemes (c :: rest) = some (String.ofList [c] :: ws) ↔ lexemes rest = some ws := by
  have plain : isSymbolic c = true ∧ [c] ∈ symbols ∧ continuations [c] = [] ∧
      isBlank c = false := by
    simp only [List.mem_cons, List.not_mem_nil, or_false] at mark
    rcases mark with rfl | rfl | rfl <;> decide
  obtain ⟨symbolic, symbol, alone, code⟩ := plain
  have token := @lexemes_token (String.ofList [c]) rest ws
  rw [String.toList_ofList] at token
  exact token (by simp [opensCode, code]) (cut_symbolic symbolic symbol (by simp [alone]))

/-- A point in front of a word. -/
theorem lexemes_point {w : String} {behind : List Char} {ws : List String}
    (word : isWord w.toList = true) (apart : Apart behind) :
    lexemes ('.' :: (w.toList ++ behind)) = some ("." :: w :: ws) ↔ lexemes behind = some ws := by
  obtain ⟨c, cs, text, -, -⟩ := opens_word word
  have letter : isLetter c = true := by
    rw [text, isWord, Bool.and_eq_true] at word
    exact word.1
  have noDigit : c.isDigit = false := by
    by_contra digit
    rw [isLetter_of_isDigit (by simpa using digit)] at letter
    cases letter
  have noPoint : c ≠ '.' := by
    rintro rfl
    cases letter
  have cutOff : cut (['.'] ++ (w.toList ++ behind)) = some (['.'], w.toList ++ behind) := by
    refine cut_symbol (by decide) (opening_point ?_) rfl ?_
    · simp [text, noDigit]
    · simp [text, show continuations ['.'] = ['.'] by decide, noPoint]
  exact (lexemes_token (t := ".") (by decide) cutOff).trans (lexemes_word word apart)

/-- An ellipsis in front of a closing bracket. -/
theorem lexemes_ellipsis {rest : List Char} {ws : List String} :
    lexemes ('.' :: '.' :: '.' :: rest) = some ("..." :: ws) ↔ lexemes rest = some ws := by
  have cutOff : cut (['.', '.', '.'] ++ rest) = some (['.', '.', '.'], rest) := by
    refine cut_symbol (by decide) rfl rfl ?_
    simp [show continuations ['.', '.', '.'] = [] by decide]
  exact lexemes_token (t := "...") (by decide) cutOff

/-- An operator between blanks. -/
theorem lexemes_spaced (op : BinaryOp) {rest : List Char} {ws : List String} :
    lexemes (' ' :: (op.symbol.toList ++ ' ' :: rest)) = some (op.symbol :: ws) ↔
      lexemes rest = some ws := by
  rw [lexemes_blank _ (by decide), lexemes_token (by cases op <;> decide)
    (cut_operator op.symbol_mem (by cases op <;> decide)), lexemes_blank _ (by decide)]

/-- The tokens of the expression are read back in front of any other text, unless two
of them run together. -/
def ReadsBack (e : Expr) : Prop :=
  ∀ (depth : UInt8) (b behind : List Char) (ws : List String), Apart behind → Decides b behind →
    (lexemes (e.text depth ++ behind) = some (e.ownTokens ++ ws) ↔
      e.fuses depth b = false ∧ lexemes behind = some ws)

/-- What stands behind an argument: a comma and the arguments behind it, or what
stands behind them all. -/
theorem behind_argument {b behind : List Char} (apart : Apart behind) (decides : Decides b behind)
    (as : List Expr) :
    Apart ((laterSegments as).flatMap String.toList ++ behind) ∧
      Decides (if as.isEmpty then b else [','])
        ((laterSegments as).flatMap String.toList ++ behind) := by
  cases as with
  | nil => exact ⟨apart, decides⟩
  | cons a as => exact ⟨.cons (by decide) _, .char (by decide) (by decide) _⟩

section

variable {args : List Expr} (each : ∀ a ∈ args, ReadsBack a) {b behind : List Char}
  {ws : List String} (apart : Apart behind) (decides : Decides b behind)

include each apart decides

theorem lexemes_later :
    lexemes ((laterSegments args).flatMap String.toList ++ behind) =
        some (laterTokens pieceTokens args ++ ws) ↔
      argumentsFuse b args = false ∧ lexemes behind = some ws := by
  induction args with
  | nil => simp [laterSegments, laterTokens, argumentsFuse]
  | cons a as ih =>
      obtain ⟨first, others⟩ := List.forall_mem_cons.mp each
      obtain ⟨apart', decides'⟩ := behind_argument apart decides as
      have comma := @lexemes_mark ',' (by decide)
        (' ' :: (a.text 1 ++ ((laterSegments as).flatMap String.toList ++ behind)))
        (a.ownTokens ++ (laterTokens pieceTokens as ++ ws))
      rw [@lexemes_blank ' ' _ (by decide), first 1 _ _ _ apart' decides', ih others] at comma
      simp only [laterSegments, laterTokens, argumentsFuse, Bool.or_eq_false_iff, and_assoc]
      simpa [text, ownTokens] using comma

theorem lexemes_arguments :
    lexemes ((argumentSegments args).flatMap String.toList ++ behind) =
        some (argumentTokens pieceTokens args ++ ws) ↔
      argumentsFuse b args = false ∧ lexemes behind = some ws := by
  cases args with
  | nil => simp [argumentSegments, argumentTokens, argumentsFuse]
  | cons a as =>
      obtain ⟨first, others⟩ := List.forall_mem_cons.mp each
      obtain ⟨apart', decides'⟩ := behind_argument apart decides as
      have read := first 1 _ _ (laterTokens pieceTokens as ++ ws) apart' decides'
      rw [lexemes_later others apart decides] at read
      simp only [argumentSegments, argumentTokens, argumentsFuse, Bool.or_eq_false_iff, and_assoc]
      simpa [text, ownTokens] using read

end

/-- A call reads back where its callee and its arguments do. -/
theorem ReadsBack.call {f : Expr} {args : List Expr} (o : Origin) (s : Bool) (callee : f.ReadsBack)
    (each : ∀ a ∈ args, ReadsBack a) : (Expr.call o f args s).ReadsBack := by
  intro depth b behind ws apart decides
  have bracket : Apart (')' :: behind) := .cons (by decide) _
  have closing : lexemes (')' :: behind) = some (")" :: ws) ↔ lexemes behind = some ws :=
    @lexemes_mark ')' (by decide) behind ws
  have read (rest : List Char) (ts : List String) :=
    callee 1 ['('] ('(' :: rest) ("(" :: ts) (.cons (by decide) _)
      (.char (by decide) (by decide) _)
  cases s with
  | false =>
      have read := read ((argumentSegments args).flatMap String.toList ++ ')' :: behind)
        (argumentTokens pieceTokens args ++ ")" :: ws)
      rw [@lexemes_mark '(' (by decide), lexemes_arguments each bracket
        (.char (by decide) (by decide) _), closing] at read
      simpa [text, segments, ownTokens, tokens, fuses, and_assoc] using read
  | true =>
      have read := read
        ((argumentSegments args).flatMap String.toList ++ '.' :: '.' :: '.' :: ')' :: behind)
        (argumentTokens pieceTokens args ++ "..." :: ")" :: ws)
      rw [@lexemes_mark '(' (by decide), lexemes_arguments each (.cons (by decide) _)
        (.ellipsis _), lexemes_ellipsis, closing] at read
      simpa [text, segments, ownTokens, tokens, fuses, and_assoc] using read

/-- A formula reads back where its operands do, unless its operator is written without
blanks and joins with what the right operand opens with. -/
theorem ReadsBack.binary {x y : Expr} (o : Origin) (op : BinaryOp) (left : x.ReadsBack)
    (right : y.ReadsBack) (opens : ∀ depth, y.Opens (y.text depth)) :
    (Expr.binary o x op y).ReadsBack := by
  intro depth b behind ws apart decides
  by_cases spaced : op.precedence < (Expr.binary o x op y).spacing.cutoff depth
  · have read := left (leftDepth depth op x) [' ']
      (' ' :: (op.symbol.toList ++ ' ' :: (y.text (depth + 1) ++ behind)))
      (op.symbol :: (y.ownTokens ++ ws)) (.cons (by decide) _) (.char (by decide) (by decide) _)
    rw [lexemes_spaced, right _ _ _ _ apart decides] at read
    simpa [text, segments, ownTokens, tokens, fuses, spaced, operatorSegments, and_assoc] using read
  · have tight : op.symbol ∈ tightSymbols :=
      symbol_mem_tightSymbols ((four_le_cutoff _ depth).trans (Nat.le_of_not_lt spaced))
    obtain ⟨c, s, symbol, noWord, noPoint⟩ :
        ∃ c s, op.symbol.toList = c :: s ∧ isWordChar c = false ∧ c ≠ '.' := by
      cases op <;> exact ⟨_, _, rfl, by decide, by decide⟩
    -- An operand that the operator would join with is one the spacing looks for.
    have joined : joins op.symbol y.opener? = false ↔
        y.isSigned = false → joins op.symbol y.opener? = false := by
      refine ⟨fun apart _ => apart, fun unsigned => ?_⟩
      cases signed : y.isSigned with
      | false => exact unsigned signed
      | true =>
          exact Bool.eq_false_iff.mpr fun joins => spaced (spaced_of_joins o depth signed joins)
    have read := left (leftDepth depth op x) op.symbol.toList
      (op.symbol.toList ++ (y.text (depth + 1) ++ behind)) (op.symbol :: (y.ownTokens ++ ws))
      (by rw [symbol]; exact .cons noWord _) (by rw [symbol]; exact .text noWord noPoint _ _)
    rw [lexemes_token_iff (by cases op <;> decide), cut_before_iff tight ((opens _).append behind),
      right _ _ _ _ apart decides, joined] at read
    simpa [text, segments, ownTokens, tokens, fuses, spaced, operatorSegments, and_assoc] using read

/-- An operator in front of its operand. -/
theorem ReadsBack.operand {x : Expr} {s : String} (read : x.ReadsBack) (tight : s ∈ tightSymbols)
    (opens : x.Opens (x.text 1)) {b behind : List Char} {ws : List String} (apart : Apart behind)
    (decides : Decides b behind) :
    lexemes (s.toList ++ (x.text 1 ++ behind)) = some (s :: (x.ownTokens ++ ws)) ↔
      joins s x.opener? = false ∧ x.fuses 1 b = false ∧ lexemes behind = some ws := by
  have code : opensCode s.toList = true := by
    revert s
    decide
  rw [lexemes_token_iff code, cut_before_iff tight (opens.append behind),
    read 1 _ _ _ apart decides]

/-- **The text of an expression is cut into its own tokens, in front of any other text,
unless two of them run together.** -/
theorem Spelled.readsBack {e : Expr} (spelled : e.Spelled) : e.ReadsBack := by
  induction spelled with
  | @ident i word =>
      intro depth b behind ws apart decides
      simpa [text, segments, ownTokens, tokens, fuses] using lexemes_word word apart
  | @selector x m o word operand ih =>
      intro depth b behind ws apart decides
      have read := ih 1 _ ('.' :: (m.name.toList ++ behind)) ("." :: m.name :: ws)
        (.cons (by decide) _) (decides.after ('.' :: m.name.toList))
      rw [lexemes_point word apart] at read
      simpa [text, segments, ownTokens, tokens, fuses] using read
  | call o s callee arguments ih each => exact ih.call o s each
  | binary o op left right ihx ihy => exact ihx.binary o op ihy right.opens
  | @unary x o op operand ih =>
      intro depth b behind ws apart decides
      have read := @ReadsBack.operand x op.symbol ih (by cases op <;> decide) (operand.opens 1)
        b behind ws apart decides
      simpa [text, segments, ownTokens, tokens, fuses, and_assoc] using read
  | @star x o operand ih =>
      intro depth b behind ws apart decides
      have read := @ReadsBack.operand x "*" ih (by decide) (operand.opens 1) b behind ws apart
        decides
      have noJoin : joins "*" x.opener? = false := by
        cases x.opener? <;> simp [joins]
      simpa [text, segments, ownTokens, tokens, fuses, noJoin] using read
  | @paren x o inner ih =>
      intro depth b behind ws apart decides
      have read := @lexemes_mark '(' (by decide) (x.text 1 ++ ')' :: behind)
        (x.ownTokens ++ ")" :: ws)
      rw [ih 1 [')'] _ _ (.cons (by decide) _) (.char (by decide) (by decide) _),
        @lexemes_mark ')' (by decide)] at read
      simpa [text, segments, ownTokens, tokens, fuses] using read
  | @literal v o kind isLiteral =>
      intro depth b behind ws apart decides
      have point : takesPoint v.toList b = takesPoint v.toList behind := decides.point [] v.toList
      have read := @lexemes_literal v behind ws isLiteral apart
      rw [← point] at read
      simpa [text, segments, ownTokens, tokens, fuses] using read
  | @verbatim t o whole =>
      intro depth b behind ws apart decides
      obtain ⟨ts, alone, before⟩ := whole.lexed
      have noComment := takesLine_of_head? whole.head?_ne_slash b
      simp [text, segments, ownTokens, tokens, pieceTokens, fuses, noComment,
        before behind apart, alone]
  | @comment t o comment =>
      intro depth b behind ws apart decides
      have alone : lexemes t.toList = some [t] := by
        rw [← List.append_nil t.toList, lexemes_comment comment]
        exact ⟨takesLine_nil _, lexemes_nil⟩
      have read := @lexemes_comment t behind ws comment
      rw [← decides.line] at read
      simpa [text, segments, ownTokens, tokens, pieceTokens, fuses, alone] using read

/-- **What is printed is cut into the tokens of the expression exactly if no two of
them run together.** -/
theorem lexemes_print_iff {e : Expr} (spelled : e.Spelled) :
    lexemes e.print.toList = some e.ownTokens ↔ e.fuses 1 [] = false := by
  have read := spelled.readsBack 1 [] [] [] (by rintro c ⟨⟩) (.refl [])
  rw [List.append_nil, List.append_nil, and_iff_left lexemes_nil] at read
  rwa [toList_print]

/-- `a / *p - 1*-b[0]`, with a sign that the operator in front of it would join with and
a piece that is kept as its text. -/
def signedOperands : Expr :=
  .binary {} (.binary {} (.ident ⟨{}, "a"⟩) .div (.star {} (.ident ⟨{}, "p"⟩))) .sub
    (.binary {} (.literal {} .int "1") .mul (.unary {} .neg (.verbatim {} "b[0]")))

/-- `!(/* y */)`, with a comment for its operand. -/
def commentedOperand : Expr := .unary {} .not (.paren {} (.verbatim {} "/* y */"))

theorem lexemes_print_signedOperands :
    (signedOperands.Spelled ∧
        lexemes signedOperands.print.toList =
          some ["a", "/", "*", "p", "-", "1", "*", "-", "b", "[", "0", "]"]) ∧
      commentedOperand.Spelled ∧
        lexemes commentedOperand.print.toList = some ["!", "(", "/* y */", ")"] := by
  have whole : Whole "b[0]" := by
    refine ⟨⟨["b", "[", "0", "]"], by decide +kernel, fun behind _ => ?_⟩, 'b', rfl, by decide⟩
    have name : cut ('b' :: '[' :: '0' :: ']' :: behind) =
        some (['b'], '[' :: '0' :: ']' :: behind) := rfl
    have opening : cut ('[' :: '0' :: ']' :: behind) = some (['['], '0' :: ']' :: behind) := rfl
    have zero : cut ('0' :: ']' :: behind) = some (['0'], ']' :: behind) := rfl
    have closing : cut (']' :: behind) = some ([']'], behind) := rfl
    change lexemes ('b' :: '[' :: '0' :: ']' :: behind) = _
    simp [lexemes_of_not_isBlank, isBlank, name, opening, zero, closing, Function.comp_def]
  have spelled : signedOperands.Spelled :=
    .binary {} .sub (.binary {} .div (.ident (by decide)) (.star {} (.ident (by decide))))
      (.binary {} .mul (.literal {} .int (by decide)) (.unary {} .neg (.verbatim {} whole)))
  have commented : commentedOperand.Spelled :=
    .unary {} .not (.paren {} (.comment {} (by decide +kernel)))
  exact ⟨⟨spelled, (lexemes_print_iff spelled).mpr (by decide +kernel)⟩,
    commented, (lexemes_print_iff commented).mpr (by decide +kernel)⟩

-- A comment that runs to the end of its line takes the bracket behind it.
example : (Expr.paren {} (.verbatim {} "// y")).fuses 1 [] = true := by decide +kernel

end Expr

namespace Node

/-- `Equal(- -y)` -/
def negatedTwice : Node :=
  construct .callExpression
    [word .identifier "Equal" (some .function),
     construct .argumentList
      [sign "(",
       construct .unaryExpression
        [sign "-" (some .operator),
         construct .unaryExpression
          [sign "-" (some .operator), word .identifier "y" (some .operand)] (some .operand)],
       sign ")"]
      (some .arguments)]

/-- Two signs in a row are printed as one token. -/
theorem negatedTwice_fuses :
    negatedTwice.numbered.Conforms Go.rules ∧
      ∃ c, negatedTwice.numbered.toCall? = some c ∧ c.toExpr.Spelled ∧
        c.toExpr.ownTokens = ["Equal", "(", "-", "-", "y", ")"] ∧
        lexemes c.print.toList = some ["Equal", "(", "--", "y", ")"] := by
  refine ⟨conforms_of_checks 60 (by decide +kernel), _, rfl, ?_, by decide +kernel, ?_⟩
  · refine .call _ _ (.ident (by decide +kernel)) fun a argument => ?_
    obtain rfl := List.mem_singleton.mp argument
    exact .unary _ _ (.unary _ _ (.ident (by decide +kernel)))
  · rw [Call.print, Expr.toList_print]
    decide +kernel

end Node

end GomegaLint
