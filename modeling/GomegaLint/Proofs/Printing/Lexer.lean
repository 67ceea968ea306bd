import Mathlib
import GomegaLint.Syntax.Lexeme

/-!
# Cutting a text into lexemes

The lexemes of a text on its own, without regard to what is expected where: after
blanks, a comment, a word or a literal is cut off as `Lexeme.opening` cuts it, and
of the symbols of Go the longest that the text opens with.  A block comment that
is not closed is nothing.

`Lexeme.lexemes_token_iff` is the rule for one lexeme; `Lexeme.cut_append` says that
what is cut off and what is left make up the text, and `Lexeme.cut_symbol` when a
symbol is cut off whole.
-/

namespace GomegaLint

namespace Lexeme

/-! ## What is taken and what is left -/

theorem blockComment?_append {cs : List Char} {r : List Char × List Char}
    (closed : blockComment? cs = some r) : r.1 ++ r.2 = cs := by
  fun_induction blockComment? cs generalizing r with
  | case1 cs =>
      cases closed
      rfl
  | case2 => cases closed
  | case3 c cs _ _ ih =>
      obtain ⟨later, found, rfl⟩ := Option.map_eq_some_iff.mp closed
      rw [List.cons_append, ih found]
  | case4 => cases closed

theorem quoted_append (close : Char) (cs : List Char) :
    (quoted close cs).1 ++ (quoted close cs).2 = cs := by
  fun_induction quoted close cs <;> simp_all +zetaDelta

theorem rawQuoted_append (cs : List Char) : (rawQuoted cs).1 ++ (rawQuoted cs).2 = cs := by
  fun_induction rawQuoted cs <;> simp_all +zetaDelta

theorem digits_append (isDigit : Char → Bool) (cs : List Char) :
    (digits isDigit cs).1 ++ (digits isDigit cs).2 = cs := by
  simp [digits, List.span_eq_takeWhile_dropWhile]

theorem fraction_append (isDigit : Char → Bool) (cs : List Char) :
    (fraction isDigit cs).1 ++ (fraction isDigit cs).2 = cs := by
  fun_cases fraction isDigit cs <;> simp +zetaDelta [digits_append]

theorem exponent_append (marks cs : List Char) :
    (exponent marks cs).1 ++ (exponent marks cs).2 = cs := by
  fun_cases exponent marks cs <;> simp_all +zetaDelta [digits_append]

theorem decimal_append (cs : List Char) : (decimal cs).2.1 ++ (decimal cs).2.2 = cs := by
  simp only [decimal, List.append_assoc, exponent_append, fraction_append, digits_append]

theorem hexadecimal_append (cs : List Char) :
    (hexadecimal cs).2.1 ++ (hexadecimal cs).2.2 = cs := by
  fun_cases hexadecimal cs
  · exact digits_append _ _
  · simp +zetaDelta only [List.append_assoc, exponent_append, fraction_append, digits_append]

theorem realNumber_append (cs : List Char) :
    (realNumber cs).2.1 ++ (realNumber cs).2.2 = cs := by
  fun_cases realNumber cs <;> simp +zetaDelta [hexadecimal_append, digits_append, decimal_append]

theorem number_append (cs : List Char) : (number cs).2.1 ++ (number cs).2.2 = cs := by
  have whole := realNumber_append cs
  fun_cases number cs <;> simp_all +zetaDelta

theorem opening_append (cs : List Char) : (opening cs).2.1 ++ (opening cs).2.2 = cs := by
  fun_cases opening cs
  case case2 closed => simp [blockComment?_append closed]
  all_goals
    simp +zetaDelta [quoted_append, rawQuoted_append, number_append,
      List.span_eq_takeWhile_dropWhile]

theorem decimal_ne_nil {c : Char} (cs : List Char) (opens : c.isDigit = true ∨ c = '.') :
    (decimal (c :: cs)).2.1 ≠ [] := by
  rcases opens with digit | rfl
  · simp [decimal, digits, List.span_eq_takeWhile_dropWhile, digit]
  · simp [decimal, digits, fraction, List.span_eq_takeWhile_dropWhile]

theorem number_ne_nil {c : Char} (cs : List Char) (opens : c.isDigit = true ∨ c = '.') :
    (number (c :: cs)).2.1 ≠ [] := by
  have real : (realNumber (c :: cs)).2.1 ≠ [] := by
    generalize whole : c :: cs = text
    fun_cases realNumber text
    case case1 | case2 => simp
    case case3 =>
      cases whole
      exact decimal_ne_nil _ opens
    case case4 =>
      cases whole
      exact decimal_ne_nil _ opens
  fun_cases number (c :: cs)
  · simp
  · exact real

/-- A comment, a word or a literal is not empty. -/
theorem opening_ne_nil {cs : List Char} (found : (opening cs).1 ≠ .symbol) :
    (opening cs).2.1 ≠ [] := by
  revert found
  fun_cases opening cs
  case case7 digit => exact fun _ => number_ne_nil _ (.inr rfl)
  case case9 letter =>
    intro _
    simp [List.span_eq_takeWhile_dropWhile, isWordChar, letter]
  case case10 digit => exact fun _ => number_ne_nil _ (.inl digit)
  all_goals simp

/-- Characters that may open a comment, a quoted literal or a fraction. -/
def isSpecial (c : Char) : Bool :=
  c == '/' || c == '"' || c == '\'' || c == '\x60' || c == '.'

/-- What opens with another character is a word, a number or a symbol. -/
theorem opening_plain {c : Char} (plain : isSpecial c = false) (cs : List Char) :
    opening (c :: cs) =
      if isLetter c then (.word, (c :: cs).span isWordChar)
      else if c.isDigit then (.literal (number (c :: cs)).1, (number (c :: cs)).2)
      else (.symbol, [], c :: cs) := by
  simp only [isSpecial, Bool.or_eq_false_iff, beq_eq_false_iff_ne] at plain
  obtain ⟨⟨⟨⟨slash, quote⟩, rune⟩, raw⟩, point⟩ := plain
  simp [opening, slash, point]

/-! ## Symbols -/

/-- The operators and the punctuation of Go, longer ones first. -/
def symbols : List (List Char) :=
  ["<<=", ">>=", "&^=", "...", "<<", ">>", "&^", "+=", "-=", "*=", "/=", "%=", "&=", "|=", "^=",
    "&&", "||", "<-", "++", "--", "==", "!=", "<=", ">=", ":=", "+", "-", "*", "/", "%", "&", "|",
    "^", "<", ">", "=", "!", "(", ")", "[", "]", "\x7b", "\x7d", ",", ";", ".", ":", "~"].map
    String.toList

/-- The longest symbol that a text opens with. -/
def symbol? (cs : List Char) : Option (List Char) := symbols.find? (·.isPrefixOf cs)

theorem symbols_sorted : symbols.Pairwise fun s t => t.length ≤ s.length := by
  decide

theorem symbols_ne_nil : ∀ s ∈ symbols, s ≠ [] := by
  decide

theorem symbol?_append {cs s : List Char} (found : symbol? cs = some s) :
    s ∈ symbols ∧ s ++ cs.drop s.length = cs := by
  refine ⟨List.mem_of_find?_eq_some found, ?_⟩
  have opens : s <+: cs :=
    List.isPrefixOf_iff_prefix.mp (List.find?_some (p := fun t => List.isPrefixOf t cs) found)
  exact List.prefix_iff_eq_append.mp opens

/-- No symbol that the text opens with is longer. -/
theorem symbol?_longest {cs s t : List Char} (found : symbol? cs = some s) (symbol : t ∈ symbols)
    (opens : t <+: cs) : t.length ≤ s.length := by
  obtain ⟨_, before, behind, row, earlier⟩ := List.find?_eq_some_iff_append.mp found
  have sorted := row ▸ symbols_sorted
  rw [row, List.mem_append, List.mem_cons] at symbol
  rcases symbol with inFront | rfl | later
  · have := earlier t inFront
    simp [List.isPrefixOf_iff_prefix.mpr opens] at this
  · exact Nat.le_refl _
  · exact (List.pairwise_cons.mp (List.pairwise_append.mp sorted).2.1).1 t later

/-- The characters with which a symbol goes on in a longer one. -/
def continuations (s : List Char) : List Char :=
  symbols.filterMap fun t => if s.isPrefixOf t then t[s.length]? else none

/-- In front of any other character a symbol is the longest one. -/
theorem symbol?_whole {s rest : List Char} (symbol : s ∈ symbols)
    (stops : ∀ c ∈ rest.head?, c ∉ continuations s) : symbol? (s ++ rest) = some s := by
  have opens : s <+: s ++ rest := List.prefix_append s rest
  cases found : symbol? (s ++ rest) with
  | none =>
      have none_opens := List.find?_eq_none.mp found s symbol
      exact absurd (List.isPrefixOf_iff_prefix.mpr opens) none_opens
  | some t =>
      obtain ⟨isSymbol, whole⟩ := symbol?_append found
      have longest : t <+: s ++ rest := ⟨_, whole⟩
      obtain ⟨more, rfl⟩ :=
        List.prefix_of_prefix_length_le opens longest (symbol?_longest found symbol opens)
      cases more with
      | nil => rw [List.append_nil]
      | cons c more =>
          have follows : c ∈ rest.head? := by
            obtain ⟨more', rfl⟩ := (List.prefix_append_right_inj s).mp longest
            rfl
          refine absurd ?_ (stops c follows)
          refine List.mem_filterMap.mpr ⟨_, isSymbol, ?_⟩
          simp

/-! ## Lexemes -/

/-- Cut a lexeme off a text without blank before it; `none` where it opens with
none. -/
def cut (cs : List Char) : Option (List Char × List Char) :=
  match opening cs with
  | (.symbol, _, _) =>
    if ['/', '*'].isPrefixOf cs then none
    else (symbol? cs).map fun s => (s, cs.drop s.length)
  | (_, text, rest) => some (text, rest)

/-- What is cut off and what is left make up the text, and something is cut off. -/
theorem cut_append {cs t r : List Char} (found : cut cs = some (t, r)) :
    t ++ r = cs ∧ t ≠ [] := by
  have whole := opening_append cs
  have some_taken : (opening cs).1 ≠ .symbol → (opening cs).2.1 ≠ [] := opening_ne_nil
  unfold cut at found
  split at found
  · split at found
    · cases found
    · obtain ⟨s, opens, same⟩ := Option.map_eq_some_iff.mp found
      cases same
      obtain ⟨symbol, append⟩ := symbol?_append opens
      exact ⟨append, symbols_ne_nil _ symbol⟩
  · rename_i form text rest noSymbol cutOff
    cases found
    rw [cutOff] at whole some_taken
    exact ⟨whole, some_taken noSymbol⟩

/-- A symbol is cut off whole, unless it opens a comment or goes on as a longer one. -/
theorem cut_symbol {s rest : List Char} (symbol : s ∈ symbols)
    (opens : opening (s ++ rest) = (.symbol, [], s ++ rest))
    (noComment : ['/', '*'].isPrefixOf (s ++ rest) = false)
    (stops : ∀ c ∈ rest.head?, c ∉ continuations s) : cut (s ++ rest) = some (s, rest) := by
  simp [cut, opens, noComment, symbol?_whole symbol stops]

theorem cut_shorter {c : Char} {cs : List Char} {r : List Char × List Char}
    (found : cut (c :: cs) = some r) : r.2.length ≤ cs.length := by
  obtain ⟨append, some_taken⟩ := cut_append found
  have lengths := congrArg List.length append
  have := List.length_pos_iff.mpr some_taken
  simp only [List.length_append, List.length_cons] at lengths
  omega

/-- The lexemes of a text, cut in so many steps. -/
def lexemesIn : Nat → List Char → Option (List String)
  | _, [] => some []
  | 0, _ :: _ => none
  | steps + 1, c :: cs =>
    if isBlank c then lexemesIn steps cs
    else (cut (c :: cs)).bind fun r => (lexemesIn steps r.2).map (String.ofList r.1 :: ·)

/-- The lexemes of a text, comments included; `none` if it is not made of any. -/
def lexemes (cs : List Char) : Option (List String) := lexemesIn cs.length cs

/-- As many steps as characters are enough. -/
theorem lexemesIn_congr {m n : Nat} {cs : List Char} (enough : cs.length ≤ m)
    (enough' : cs.length ≤ n) : lexemesIn m cs = lexemesIn n cs := by
  induction m generalizing n cs with
  | zero =>
      obtain rfl := List.eq_nil_of_length_eq_zero (Nat.le_zero.mp enough)
      simp [lexemesIn]
  | succ m ih =>
      cases cs with
      | nil => simp [lexemesIn]
      | cons c cs =>
          obtain ⟨n, rfl⟩ := Nat.exists_eq_succ_of_ne_zero (Nat.ne_zero_of_lt enough')
          have enough := Nat.le_of_succ_le_succ enough
          have enough' := Nat.le_of_succ_le_succ enough'
          rw [lexemesIn, lexemesIn, ih enough enough']
          cases found : cut (c :: cs) with
          | none => rfl
          | some r =>
              have shorter := cut_shorter found
              rw [Option.bind_some, Option.bind_some,
                ih (shorter.trans enough) (shorter.trans enough')]

@[simp] theorem lexemes_nil : lexemes [] = some [] := rfl

theorem lexemes_blank {c : Char} (cs : List Char) (blank : isBlank c = true) :
    lexemes (c :: cs) = lexemes cs := by
  rw [lexemes, List.length_cons, lexemesIn, if_pos blank, lexemes]

/-- The rule for one lexeme. -/
theorem lexemes_of_not_isBlank {c : Char} (cs : List Char) (code : isBlank c = false) :
    lexemes (c :: cs) =
      (cut (c :: cs)).bind fun r => (lexemes r.2).map (String.ofList r.1 :: ·) := by
  rw [lexemes, List.length_cons, lexemesIn, if_neg (by simp [code])]
  cases found : cut (c :: cs) with
  | none => rfl
  | some r =>
      rw [Option.bind_some, Option.bind_some, lexemes,
        lexemesIn_congr (cut_shorter found) (Nat.le_refl _)]

/-- The text opens with something else than a blank. -/
def opensCode (cs : List Char) : Bool := cs.head?.any (!isBlank ·)

/-- A text begins with a lexeme if this one is cut off it whole. -/
theorem lexemes_token_iff {t : String} {rest : List Char} {ws : List String}
    (code : opensCode t.toList = true) :
    lexemes (t.toList ++ rest) = some (t :: ws) ↔
      cut (t.toList ++ rest) = some (t.toList, rest) ∧ lexemes rest = some ws := by
  cases text : t.toList with
  | nil => simp [opensCode, text] at code
  | cons c cs =>
      have rule := lexemes_of_not_isBlank (cs ++ rest) (by simpa [opensCode, text] using code)
      rw [List.cons_append, rule, Option.bind_eq_some_iff]
      constructor
      · rintro ⟨r, cutOff, later⟩
        obtain ⟨ws', lexed, same⟩ := Option.map_eq_some_iff.mp later
        injection same with token rest_eq
        have taken : r.1 = c :: cs := by rw [← text, ← token, String.toList_ofList]
        obtain ⟨whole, -⟩ := cut_append cutOff
        rw [taken, ← List.cons_append] at whole
        have left : r.2 = rest := List.append_cancel_left whole
        exact ⟨cutOff.trans (congrArg some (Prod.ext taken left)), left ▸ rest_eq ▸ lexed⟩
      · rintro ⟨cutOff, lexed⟩
        exact ⟨_, cutOff, by simp [lexed, ← text]⟩

end Lexeme

end GomegaLint
