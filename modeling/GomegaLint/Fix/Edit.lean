import GomegaLint.Text.Bytes

/-!
# Edits

An edit replaces a range of bytes of a text.  Edits are applied from the end of
the text to its beginning, so that the ranges of those still to come stay where
they were; edits that start at the same offset are applied in the order given.
-/

namespace GomegaLint

/-- Put a text in the place of a range of bytes. -/
structure Edit where
  start : Nat
  stop : Nat
  replacement : String
  deriving DecidableEq, Repr, Inhabited

/-- Why edits cannot be applied. -/
inductive EditError where
  | overlapping (offset : Nat)
  | outOfRange (start stop length : Nat)
  | reversed (start stop : Nat)
  /-- An edit at the same offset moved the range of another off its boundary. -/
  | displaced
  deriving DecidableEq, Repr, Inhabited

namespace EditError

def message : EditError → String
  | overlapping n => "Overlapping edits detected at byte " ++ toString n
  | outOfRange a b n =>
    "Edit range [" ++ toString a ++ ".." ++ toString b ++ ") exceeds source length " ++ toString n
  | reversed a b => "Edit start " ++ toString a ++ " is after edit end " ++ toString b
  | displaced => "Edit range displaced by another edit"

end EditError

namespace Edit

/-- The ranges have a byte in common. -/
def overlaps (a b : Edit) : Bool := a.start < b.stop && b.start < a.stop

/-- What is wrong with the range of an edit. -/
def fault? (source : List Char) (e : Edit) : Option EditError :=
  if e.stop < e.start then some (.reversed e.start e.stop)
  else if byteLength source < e.stop || !isBoundary e.start source || !isBoundary e.stop source then
    some (.outOfRange e.start e.stop (byteLength source))
  else none

/-- The first overlap among some edits: of the first edit that overlaps a later
one, with the first such later one. -/
def firstOverlap? : List Edit → Option EditError
  | [] => none
  | e :: es =>
    match es.find? e.overlaps with
    | some f => some (.overlapping (max e.start f.start))
    | none => firstOverlap? es

/-- What is wrong with some edits: a bad range first, then an overlap. -/
def faults? (source : List Char) (edits : List Edit) : Option EditError :=
  (edits.findSome? (fault? source)).or (firstOverlap? edits)

/-- Replace the range of one edit. -/
def splice? (source : List Char) (e : Edit) : Option (List Char) := do
  let (before, rest) ← splitAtByte? e.start source
  let (_, after) ← splitAtByte? (e.stop - e.start) rest
  return before ++ e.replacement.toList ++ after

/-- Replace the ranges of edits one after the other. -/
def spliceAll? (source : List Char) : List Edit → Option (List Char)
  | [] => some source
  | e :: es => do spliceAll? (← splice? source e) es

/-- The edits from the last start to the first; those of one start keep their
order. -/
def lastFirst (edits : List Edit) : List Edit :=
  edits.mergeSort fun a b => decide (b.start ≤ a.start)

/-- The text with the edits made. -/
def applyAll (source : List Char) (edits : List Edit) : Except EditError (List Char) :=
  match faults? source edits with
  | some e => .error e
  | none =>
    match spliceAll? source (lastFirst edits) with
    | some cs => .ok cs
    | none => .error .displaced

end Edit

end GomegaLint
