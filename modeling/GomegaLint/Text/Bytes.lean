/-!
# Texts measured in bytes

Offsets into a text count the bytes of its UTF-8 form.  An offset is a boundary
when no character lies across it; a text can be cut at its boundaries and
nowhere else.
-/

namespace GomegaLint

/-- The number of bytes of a text in UTF-8. -/
def byteLength (cs : List Char) : Nat := cs.foldr (fun c n => c.utf8Size + n) 0

@[simp] theorem byteLength_nil : byteLength [] = 0 := rfl

@[simp] theorem byteLength_cons (c : Char) (cs : List Char) :
    byteLength (c :: cs) = c.utf8Size + byteLength cs := rfl

@[simp] theorem byteLength_append (a b : List Char) :
    byteLength (a ++ b) = byteLength a + byteLength b := by
  induction a with
  | nil => simp
  | cons c cs ih => simp [ih, Nat.add_assoc]

/-- The number of line breaks in a text. -/
def lineBreaks (cs : List Char) : Nat := cs.count '\n'

/-- Cut a text behind its first `n` bytes; `none` unless `n` is a boundary. -/
def splitAtByte? : Nat → List Char → Option (List Char × List Char)
  | 0, cs => some ([], cs)
  | _ + 1, [] => none
  | n + 1, c :: cs =>
    if c.utf8Size ≤ n + 1 then
      (splitAtByte? (n + 1 - c.utf8Size) cs).map fun r => (c :: r.1, r.2)
    else none

/-- No character lies across the offset, and it does not lie past the end. -/
def isBoundary (n : Nat) (cs : List Char) : Bool := (splitAtByte? n cs).isSome

/-- Cutting loses nothing and cuts where it was asked to. -/
theorem append_of_splitAtByte? {n : Nat} {cs front rest : List Char}
    (cut : splitAtByte? n cs = some (front, rest)) : cs = front ++ rest ∧ byteLength front = n := by
  fun_induction splitAtByte? n cs generalizing front with
  | case1 cs =>
      cases cut
      exact ⟨rfl, rfl⟩
  | case2 => cases cut
  | case3 n c cs fits ih =>
      obtain ⟨⟨behind, rest'⟩, cut', same⟩ := Option.map_eq_some_iff.mp cut
      cases same
      obtain ⟨whole, size⟩ := ih cut'
      refine ⟨congrArg (c :: ·) whole, ?_⟩
      rw [byteLength_cons, size]
      omega
  | case4 => cases cut

/-- A text can be cut behind any of its parts. -/
theorem splitAtByte?_append (front rest : List Char) :
    splitAtByte? (byteLength front) (front ++ rest) = some (front, rest) := by
  induction front with
  | nil => rw [byteLength_nil, List.nil_append, splitAtByte?]
  | cons c front ih =>
      have positive := Char.utf8Size_pos c
      obtain ⟨n, size⟩ : ∃ n, c.utf8Size + byteLength front = n + 1 :=
        ⟨c.utf8Size + byteLength front - 1, by omega⟩
      have fits : c.utf8Size ≤ n + 1 := by omega
      have behind : n + 1 - c.utf8Size = byteLength front := by omega
      rw [byteLength_cons, size, List.cons_append, splitAtByte?, if_pos fits, behind, ih]
      rfl

theorem splitAtByte?_eq_some_iff {n : Nat} {cs a b : List Char} :
    splitAtByte? n cs = some (a, b) ↔ cs = a ++ b ∧ byteLength a = n := by
  constructor
  · exact append_of_splitAtByte?
  · rintro ⟨rfl, rfl⟩
    exact splitAtByte?_append a b

end GomegaLint
