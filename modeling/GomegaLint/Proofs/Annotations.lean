import Mathlib
import GomegaLint.CommandLine.Report

/-!
# Annotations are lossless

A text is escaped in three passes, each over what the one before it wrote.  The percent sign goes
first, and what a pass writes no later one looks for, so that together they act on each character
by itself (`Diagnostic.toList_escapeData`).  A percent sign of the text is written as `%25`,
also where it opens what looks like an escape already, and one pass from left to right takes all
three escapes back (`Diagnostic.unescapeData_escape`).

So an annotation is one line.  Its fields end at signs that they do not hold, the file name apart,
which may hold any of them: two diagnostics of one file have the same annotation only if they agree
in all that it says (`Diagnostic.annotationLine_inj`).
-/

namespace GomegaLint

namespace Diagnostic

/-! ## One pass -/

/-- The escape of a character. -/
def escapeDataChar (c : Char) : List Char :=
  if c = '%' then ['%', '2', '5']
  else if c = '\r' then ['%', '0', 'D']
  else if c = '\n' then ['%', '0', 'A']
  else [c]

/-- The three passes together escape each character by itself. -/
theorem toList_escapeData (s : String) :
    (escapeData s).toList = s.toList.flatMap escapeDataChar := by
  simp only [escapeData, substitute, String.toList_ofList, List.flatMap_assoc]
  congr 1
  funext c
  by_cases sign : c = '%'
  · subst sign
    rfl
  by_cases carriageReturn : c = '\r'
  · subst carriageReturn
    rfl
  simp [escapeDataChar, sign, carriageReturn]

/-! ## Decoding -/

/-- The text with the three escapes taken back, in one pass from left to right. -/
def unescapeData : List Char → List Char
  | '%' :: '2' :: '5' :: cs => '%' :: unescapeData cs
  | '%' :: '0' :: 'D' :: cs => '\r' :: unescapeData cs
  | '%' :: '0' :: 'A' :: cs => '\n' :: unescapeData cs
  | c :: cs => c :: unescapeData cs
  | [] => []

theorem unescapeData_cons {c : Char} (other : c ≠ '%') (cs : List Char) :
    unescapeData (c :: cs) = c :: unescapeData cs := by
  apply unescapeData.eq_4 <;> simp [other]

theorem unescapeData_char (c : Char) (cs : List Char) :
    unescapeData (escapeDataChar c ++ cs) = c :: unescapeData cs := by
  rw [escapeDataChar]
  split_ifs with sign carriageReturn lineFeed
  · rw [sign]
    rfl
  · rw [carriageReturn]
    rfl
  · rw [lineFeed]
    rfl
  · exact unescapeData_cons sign cs

theorem unescapeData_escape (s : String) : unescapeData (escapeData s).toList = s.toList := by
  rw [toList_escapeData]
  induction s.toList with
  | nil => rfl
  | cons c cs ih => rw [List.flatMap_cons, unescapeData_char, ih]

theorem escapeData_inj {s t : String} : escapeData s = escapeData t ↔ s = t := by
  refine ⟨fun same => ?_, congrArg _⟩
  apply String.toList_injective
  rw [← unescapeData_escape s, same, unescapeData_escape t]

/-! ## Single lines -/

/-- The text has no line end in it. -/
def SingleLine (s : String) : Prop := '\r' ∉ s.toList ∧ '\n' ∉ s.toList

instance (s : String) : Decidable (SingleLine s) := inferInstanceAs (Decidable (_ ∧ _))

theorem singleLine_append_iff {s t : String} :
    SingleLine (s ++ t) ↔ SingleLine s ∧ SingleLine t := by
  simp only [SingleLine, String.toList_append, List.mem_append, not_or]
  exact and_and_and_comm

theorem singleLine_escapeData (s : String) : SingleLine (escapeData s) := by
  have char (c : Char) : '\r' ∉ escapeDataChar c ∧ '\n' ∉ escapeDataChar c := by
    rw [escapeDataChar]
    split_ifs with sign carriageReturn lineFeed
    · decide
    · decide
    · decide
    · simp [Ne.symm carriageReturn, Ne.symm lineFeed]
  simp only [SingleLine, toList_escapeData, List.mem_flatMap, not_exists, not_and]
  exact ⟨fun c _ => (char c).1, fun c _ => (char c).2⟩

/-- Only digits are written of a number. -/
theorem notMem_toString {c : Char} (noDigit : c.isDigit = false) (n : Nat) :
    c ∉ (toString n).toList := by
  rw [Nat.toString_eq_repr, Nat.repr_eq_ofList_toDigits, String.toList_ofList]
  intro member
  have digit := Nat.isDigit_of_mem_toDigits (by decide) (by decide) member
  rw [noDigit] at digit
  cases digit

theorem singleLine_toString (n : Nat) : SingleLine (toString n) :=
  ⟨notMem_toString rfl n, notMem_toString rfl n⟩

end Diagnostic

/-! ## Rule names -/

namespace Rule

theorem name_inj {r r' : Rule} : r.name = r'.name ↔ r = r' := by
  have distinct : (all.map name).Nodup := by decide
  exact ⟨List.inj_on_of_nodup_map distinct r.mem_all r'.mem_all, congrArg _⟩

/-- A rule name holds nothing that ends a field of an annotation. -/
theorem name_plain (r : Rule) : Diagnostic.SingleLine r.name ∧ ':' ∉ r.name.toList := by
  have plain : ∀ r ∈ all, Diagnostic.SingleLine r.name ∧ ':' ∉ r.name.toList := by decide
  exact plain r r.mem_all

end Rule

/-! ## Annotations -/

namespace Diagnostic

/-- The word that an annotation opens with. -/
def kindWord (fatal : Bool) : String := if fatal then "error" else "warning"

theorem kindWord_inj {b b' : Bool} : kindWord b = kindWord b' ↔ b = b' := by
  cases b <;> cases b' <;> decide

theorem kindWord_plain (b : Bool) : SingleLine (kindWord b) ∧ ' ' ∉ (kindWord b).toList := by
  cases b <;> decide

theorem annotationLine_eq (denyWarnings : Bool) (d : Diagnostic) :
    d.annotationLine denyWarnings =
      "::" ++ kindWord (d.isFatal denyWarnings) ++ " file=" ++ escapeData d.fileName ++
        ",line=" ++ toString d.location.start.row ++
        ",col=" ++ toString d.location.start.column ++
        ",title=" ++ d.rule.name ++ "::" ++ escapeData d.message :=
  rfl

theorem singleLine_annotationLine (denyWarnings : Bool) (d : Diagnostic) :
    SingleLine (d.annotationLine denyWarnings) := by
  have literals : SingleLine "::" ∧ SingleLine " file=" ∧ SingleLine ",line=" ∧
      SingleLine ",col=" ∧ SingleLine ",title=" := by
    decide
  rw [annotationLine_eq]
  simp only [singleLine_append_iff, literals, (kindWord_plain _).1, singleLine_escapeData,
    singleLine_toString, (Rule.name_plain _).1, and_self]

/-- What stands in front of the first of a sign, and what stands behind it. -/
theorem field_inj {c : Char} {a b u v : List Char} (first : c ∉ a) (second : c ∉ b) :
    a ++ c :: u = b ++ c :: v ↔ a = b ∧ u = v := by
  induction a generalizing b with
  | nil =>
      cases b with
      | nil => simp
      | cons e b => simp [List.ne_of_not_mem_cons second]
  | cons e a ih =>
      cases b with
      | nil => simp [(List.ne_of_not_mem_cons first).symm]
      | cons e' b =>
          have rest := ih (List.not_mem_of_not_mem_cons first) (List.not_mem_of_not_mem_cons second)
          simp only [List.cons_append, List.cons.injEq, rest, and_assoc]

/-- The fields of an annotation, each with the sign that ends it. -/
theorem toList_annotationLine (denyWarnings : Bool) (d : Diagnostic) :
    (d.annotationLine denyWarnings).toList =
      "::".toList ++ ((kindWord (d.isFatal denyWarnings)).toList ++ ' ' :: ("file=".toList ++
        ((escapeData d.fileName).toList ++ (",line=".toList ++
        ((toString d.location.start.row).toList ++ ',' :: ("col=".toList ++
        ((toString d.location.start.column).toList ++ ',' :: ("title=".toList ++
        (d.rule.name.toList ++ ':' :: ':' :: (escapeData d.message).toList))))))))) := by
  rw [annotationLine_eq]
  simp only [String.toList_append, List.append_assoc]
  rfl

/-- Two diagnostics of one file have one annotation exactly if they say the same. -/
theorem annotationLine_inj {denyWarnings : Bool} {d d' : Diagnostic}
    (file : d.fileName = d'.fileName) :
    d.annotationLine denyWarnings = d'.annotationLine denyWarnings ↔
      d.isFatal denyWarnings = d'.isFatal denyWarnings ∧
      d.location.start = d'.location.start ∧ d.rule = d'.rule ∧ d.message = d'.message := by
  have comma (n : Nat) : ',' ∉ (toString n).toList := notMem_toString rfl n
  rw [← String.toList_inj, toList_annotationLine, toList_annotationLine, file]
  -- Each field ends at the first of its signs, since it holds none itself.
  rw [List.append_cancel_left_eq, field_inj (kindWord_plain _).2 (kindWord_plain _).2,
    List.append_cancel_left_eq, List.append_cancel_left_eq, List.append_cancel_left_eq,
    field_inj (comma _) (comma _), List.append_cancel_left_eq, field_inj (comma _) (comma _),
    List.append_cancel_left_eq, field_inj (Rule.name_plain _).2 (Rule.name_plain _).2]
  have same_start : d.location.start = d'.location.start ↔
      d.location.start.row = d'.location.start.row ∧
        d.location.start.column = d'.location.start.column := by
    rw [Position.mk.injEq]
  simp only [List.cons.injEq, true_and, String.toList_inj, Nat.toString_eq_repr, Nat.repr_inj,
    kindWord_inj, Rule.name_inj, escapeData_inj, same_start, and_assoc]

/-- **Escaping is lossless**: an escaped text has no line end, and decoding gives the text back.  An
annotation is one line, and those of two diagnostics of one file are told apart by their messages,
and by all else that they say. -/
theorem escapeData_lossless :
    (∀ s : String, SingleLine (escapeData s) ∧
      unescapeData (escapeData s).toList = s.toList) ∧
    ∀ (denyWarnings : Bool) (d : Diagnostic), SingleLine (d.annotationLine denyWarnings) ∧
      ∀ d' : Diagnostic, d.fileName = d'.fileName →
        (d.annotationLine denyWarnings = d'.annotationLine denyWarnings ↔
          d.isFatal denyWarnings = d'.isFatal denyWarnings ∧
          d.location.start = d'.location.start ∧ d.rule = d'.rule ∧ d.message = d'.message) := by
  refine ⟨fun s => ⟨singleLine_escapeData s, unescapeData_escape s⟩, ?_⟩
  intro denyWarnings d
  exact ⟨singleLine_annotationLine denyWarnings d, fun d' file => annotationLine_inj file⟩

/-- A diagnostic with a message. -/
def saying (message : String) : Diagnostic :=
  { rule := .lenAssertion, level := .warn, file := some "a.go", location := default, message
    suggestion := none }

/-- A line end and what it is escaped as are told apart. -/
theorem escapeData_lossless_lineEnd :
    (saying "50%\n").fileName = (saying "50%%0A").fileName ∧
      (saying "50%\n").annotationLine false ≠ (saying "50%%0A").annotationLine false := by
  have file : (saying "50%\n").fileName = (saying "50%%0A").fileName := rfl
  refine ⟨file, fun same => ?_⟩
  obtain ⟨-, -, -, message⟩ := ((escapeData_lossless.2 false _).2 _ file).mp same
  exact absurd message (by decide)

end Diagnostic

end GomegaLint
