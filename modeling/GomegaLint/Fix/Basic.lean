import GomegaLint.Fix.Edit
import GomegaLint.Lint.Diagnostic

/-!
# Fixing a file

`fixOnce` makes the edits that diagnostics suggest.  Of two suggestions that
overlap the one that starts first is taken, and of two that start together the
longer; the other is left for another run.  `fixUntilSettled` lints and fixes in
turn until a run finds nothing to fix, or the runs are used up.
-/

namespace GomegaLint

/-- The edit of a suggestion that can be made without review. -/
def Diagnostic.edit? (d : Diagnostic) : Option Edit := do
  let s ← d.suggestion
  if s.applicability = .machineApplicable then
    some ⟨d.location.bytes.start, d.location.bytes.stop, s.replacement⟩
  else none

/-- The outcome of one round of fixes. -/
structure FixOutcome where
  source : List Char
  applied : Nat
  skipped : Nat
  deriving DecidableEq, Repr, Inhabited

namespace Fix

/-- By start, and the longer first among those with one start. -/
def byStart (a b : Edit) : Bool :=
  decide (a.start < b.start ∨ (a.start = b.start ∧ b.stop ≤ a.stop))

/-- Suggestions dealt with so far: the edits that are kept, and the number of suggestions that
are left out. -/
structure Tally where
  edits : List Edit := []
  skipped : Nat := 0
  deriving DecidableEq, Repr, Inhabited

namespace Tally

/-- Keep an edit, behind those that are kept. -/
def keep (t : Tally) (e : Edit) : Tally := { t with edits := t.edits ++ [e] }

/-- Leave a suggestion out. -/
def skip (t : Tally) : Tally := { t with skipped := t.skipped + 1 }

/-- Keep what a diagnostic suggests unless it has to be reviewed. -/
def collect (t : Tally) (d : Diagnostic) : Tally :=
  match d.edit? with
  | some e => t.keep e
  | none => if d.suggestion.isSome then t.skip else t

/-- Keep an edit unless it overlaps or repeats one that is kept. -/
def take (t : Tally) (e : Edit) : Tally :=
  if t.edits.any fun taken => taken.overlaps e || taken == e then t.skip else t.keep e

end Tally

/-- The edits that diagnostics suggest, and the suggestions that have to be reviewed. -/
def candidates (ds : List Diagnostic) : Tally := ds.foldl Tally.collect {}

/-- The edits that are made out of those that are suggested; the others are left out too. -/
def select (suggested : Tally) : Tally :=
  (suggested.edits.mergeSort byStart).foldl Tally.take { skipped := suggested.skipped }

end Fix

/-- Make the edits that diagnostics suggest. -/
def fixOnce (source : List Char) (ds : List Diagnostic) : Except EditError FixOutcome := do
  let chosen := Fix.select (Fix.candidates ds)
  let fixed ← Edit.applyAll source chosen.edits
  return ⟨fixed, chosen.edits.length, chosen.skipped⟩

/-- Why a file could not be fixed. -/
inductive FixError where
  /-- The file, or what became of it, could not be linted. -/
  | unlintable
  | edit (e : EditError)
  deriving DecidableEq, Repr, Inhabited

/-- The outcome of linting and fixing in turn. -/
structure SettledFix where
  source : List Char
  /-- The fixes made in all runs. -/
  applied : Nat
  /-- The suggestions that the last run left. -/
  skipped : Nat
  /-- The last run made no fix. -/
  settled : Bool
  /-- What each run reported. -/
  runs : List (List Diagnostic)
  deriving Repr, Inhabited

namespace Fix

/-- Lint a text and make the fixes that are suggested. -/
def round (lint : List Char → Option (List Diagnostic)) (source : List Char) :
    Except FixError (List Diagnostic × FixOutcome) :=
  match lint source with
  | none => .error .unlintable
  | some ds =>
    match fixOnce source ds with
    | .error e => .error (.edit e)
    | .ok r => .ok (ds, r)

/-- Lint and fix at most `passes` times, after `applied` fixes in `runs`. -/
def settleFrom (lint : List Char → Option (List Diagnostic)) (source : List Char)
    (applied : Nat) (runs : List (List Diagnostic)) : Nat → Except FixError SettledFix
  | 0 => do
    let (ds, r) ← round lint source
    return ⟨source, applied, r.applied + r.skipped, false, runs ++ [ds]⟩
  | passes + 1 => do
    let (ds, r) ← round lint source
    if r.applied = 0 then return ⟨source, applied, r.skipped, true, runs ++ [ds]⟩
    settleFrom lint r.source (applied + r.applied) (runs ++ [ds]) passes

end Fix

/-- Lint and fix until nothing is left to fix, at most `passes` times. -/
def fixUntilSettled (lint : List Char → Option (List Diagnostic)) (source : List Char)
    (passes : Nat) : Except FixError SettledFix :=
  Fix.settleFrom lint source 0 [] passes

end GomegaLint
