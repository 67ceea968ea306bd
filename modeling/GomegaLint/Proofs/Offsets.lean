import Mathlib
import GomegaLint.Proofs.Splice
import GomegaLint.Text.Position

/-!
# Rows and columns are faithful to offsets

Offsets count bytes, rows count line breaks and columns count characters.  What ties them
together is what one more character does to the position behind a text: a line break opens a row,
and any other character moves on by one column, however many bytes it takes
(`Position.after_concat`).  Either way the position grows, so a longer text ends at a later one
(`Position.after_lt_append`), and distinct boundaries have distinct positions.
-/

namespace GomegaLint

namespace Position

/-- Rows come before columns. -/
instance : LT Position := ⟨fun p q => p.row < q.row ∨ p.row = q.row ∧ p.column < q.column⟩

theorem lt_iff {p q : Position} :
    p < q ↔ p.row < q.row ∨ p.row = q.row ∧ p.column < q.column := Iff.rfl

instance (p q : Position) : Decidable (p < q) := decidable_of_iff _ lt_iff.symm

theorem lt_irrefl (p : Position) : ¬ p < p := by
  rw [lt_iff]
  omega

theorem lt_trans {p q r : Position} (first : p < q) (second : q < r) : p < r := by
  rw [lt_iff] at *
  omega

/-- `line` is what stands in a text behind its last line break. -/
structure LastLine (cs line : List Char) : Prop where
  unbroken : '\n' ∉ line
  behind : cs = line ∨ ∃ lines, cs = lines ++ '\n' :: line

/-! ## One more character -/

/-- A line break opens a row; any other character moves on by a column. -/
theorem after_concat (cs : List Char) (c : Char) :
    after (cs ++ [c]) =
      if c = '\n' then ⟨(after cs).row + 1, 1⟩ else ⟨(after cs).row, (after cs).column + 1⟩ := by
  by_cases isBreak : c = '\n'
  · subst isBreak
    simp [after, lineBreaks]
  · simp [after, lineBreaks, isBreak]

theorem after_lt_concat (cs : List Char) (c : Char) : after cs < after (cs ++ [c]) := by
  rw [after_concat, lt_iff]
  split <;> simp

/-- A longer text ends at a later position. -/
theorem after_lt_append (cs : List Char) {more : List Char} (some_more : more ≠ []) :
    after cs < after (cs ++ more) := by
  induction more using List.reverseRecOn with
  | nil => exact absurd rfl some_more
  | append_singleton more c ih =>
      rw [← List.append_assoc]
      by_cases done : more = []
      · rw [done, List.append_nil]
        exact after_lt_concat cs c
      · exact lt_trans (ih done) (after_lt_concat _ c)

/-- The column counts the characters of the last line. -/
theorem exists_lastLine (cs : List Char) :
    ∃ line, LastLine cs line ∧ (after cs).column = line.length + 1 := by
  induction cs using List.reverseRecOn with
  | nil => exact ⟨[], ⟨List.not_mem_nil, .inl rfl⟩, rfl⟩
  | append_singleton cs c ih =>
      rw [after_concat]
      by_cases isBreak : c = '\n'
      · rw [if_pos isBreak]
        exact ⟨[], ⟨List.not_mem_nil, .inr ⟨cs, by rw [isBreak]⟩⟩, rfl⟩
      · obtain ⟨line, last, column⟩ := ih
        rw [if_neg isBreak]
        refine ⟨line ++ [c], ⟨?_, ?_⟩, ?_⟩
        · rw [List.mem_append, List.mem_singleton]
          rintro (inside | rfl)
          · exact last.unbroken inside
          · exact isBreak rfl
        · rcases last.behind with rfl | ⟨lines, rfl⟩
          · exact .inl rfl
          · exact .inr ⟨lines, by simp⟩
        · rw [column, List.length_append, List.length_singleton]

/-! ## Boundaries -/

theorem isBoundary_iff {n : Nat} {source : List Char} :
    isBoundary n source = true ↔ ∃ before, before <+: source ∧ byteLength before = n := by
  constructor
  · intro boundary
    obtain ⟨before, behind, rfl, length⟩ := Edit.exists_of_isBoundary boundary
    exact ⟨before, List.prefix_append before behind, length⟩
  · rintro ⟨before, ⟨behind, rfl⟩, length⟩
    rw [isBoundary, splitAtByte?_eq_some_iff.mpr ⟨rfl, length⟩]
    rfl

/-- The position of a boundary is that behind the text before it. -/
theorem ofOffset_byteLength {before source : List Char} (before_source : before <+: source) :
    ofOffset source (byteLength before) = after before := by
  obtain ⟨behind, rfl⟩ := before_source
  have inside : min (byteLength before) (byteLength (before ++ behind)) = byteLength before := by
    rw [byteLength_append]
    omega
  rw [ofOffset, inside, splitAtByte?_eq_some_iff.mpr ⟨rfl, rfl⟩]

/-- Of two boundaries the later one has the later position. -/
theorem ofOffset_lt {source : List Char} {a b : Nat} (first : isBoundary a source = true)
    (second : isBoundary b source = true) (order : a < b) :
    ofOffset source a < ofOffset source b := by
  obtain ⟨before, ⟨rest, cut⟩, rfl⟩ := isBoundary_iff.mp first
  obtain ⟨before', ⟨rest', cut'⟩, rfl⟩ := isBoundary_iff.mp second
  obtain ⟨more, rfl, -⟩ := Edit.exists_cut (cut.trans cut'.symm) order.le
  rw [ofOffset_byteLength ⟨rest, cut⟩, ofOffset_byteLength ⟨rest', cut'⟩]
  apply after_lt_append
  rintro rfl
  rw [List.append_nil] at order
  exact Nat.lt_irrefl _ order

theorem le_of_ofOffset_eq {source : List Char} {a b : Nat} (first : isBoundary a source = true)
    (second : isBoundary b source = true) (same : ofOffset source a = ofOffset source b) :
    a ≤ b := by
  by_contra greater
  have later := ofOffset_lt second first (by omega)
  rw [same] at later
  exact lt_irrefl _ later

/-- An offset past the end is read as the end. -/
theorem ofOffset_of_length_le {source : List Char} {offset : Nat}
    (past : byteLength source ≤ offset) :
    ofOffset source offset = ofOffset source (byteLength source) := by
  rw [ofOffset, ofOffset, Nat.min_eq_right past, Nat.min_self]

/-- **Positions are faithful.**  Behind every front part of a source the row counts its line breaks
and the column the characters of its last line; positions order the boundaries as offsets do, so
that they tell them apart; and every offset past the end has the position of the end. -/
theorem ofOffset_faithful (source : List Char) :
    (∀ before, before <+: source →
      (ofOffset source (byteLength before)).row = before.count '\n' + 1 ∧
      ∃ line, LastLine before line ∧
        (ofOffset source (byteLength before)).column = line.length + 1) ∧
    (∀ a b, isBoundary a source = true → isBoundary b source = true → a < b →
      ofOffset source a < ofOffset source b) ∧
    (∀ a b, isBoundary a source = true → isBoundary b source = true →
      ofOffset source a = ofOffset source b → a = b) ∧
    ∀ offset, byteLength source ≤ offset →
      ofOffset source offset = ofOffset source (byteLength source) := by
  refine ⟨?_, fun a b first second order => ofOffset_lt first second order, ?_,
    fun offset past => ofOffset_of_length_le past⟩
  · intro before before_source
    rw [ofOffset_byteLength before_source]
    exact ⟨rfl, exists_lastLine before⟩
  · intro a b first second same
    apply Nat.le_antisymm
    · exact le_of_ofOffset_eq first second same
    · exact le_of_ofOffset_eq second first same.symm

/-- A character of two bytes, a line break and an empty last line: the break ends the first row
behind one column, and the end of the text opens the second. -/
theorem ofOffset_faithful_twoBytes :
    isBoundary 2 ['é', '\n'] = true ∧ isBoundary 3 ['é', '\n'] = true ∧
      ofOffset ['é', '\n'] 2 < ofOffset ['é', '\n'] 3 ∧
      ofOffset ['é', '\n'] 2 = ⟨1, 2⟩ ∧ ofOffset ['é', '\n'] 3 = ⟨2, 1⟩ ∧
      ofOffset ['é', '\n'] 8 = ofOffset ['é', '\n'] 3 := by
  obtain ⟨-, order, -, past⟩ := ofOffset_faithful ['é', '\n']
  exact ⟨by decide, by decide, order 2 3 (by decide) (by decide) (by decide), by decide,
    by decide, past 8 (by decide)⟩

end Position

end GomegaLint
