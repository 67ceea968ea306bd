import Mathlib
import GomegaLint.Proofs.Splice

/-!
# Fixing until nothing is left

`Fix.settleFrom` lints and fixes in turn.  What it comes to is read off the rounds
that made a fix (`Fix.Rounds`): behind them stands one more round, which either
made none or came when the passes were used up (`Fix.Ends`).

* `Fix.round_eq_ok`: a round succeeds where linting does, and makes no fix exactly
  if there is none to make: the selection never passes over every edit
  (`Fix.select_eq_nil_iff`).
* `Fix.rounds_of_settleFrom` reads the rounds off an outcome, and
  `Fix.Rounds.settleFrom` goes back: rounds that end with nothing to fix settle
  under every limit that is larger than their number.
* `fixUntilSettled_stable`: what is settled stays settled.
-/

namespace GomegaLint

namespace Fix

/-! ## One round -/

/-- Something is selected if anything is suggested. -/
theorem select_eq_nil_iff {t : Tally} : (select t).edits = [] ↔ t.edits = [] := by
  constructor
  · intro none_selected
    rw [List.eq_nil_iff_forall_not_mem]
    intro e suggested
    obtain ⟨u, selected, -⟩ := exists_mem_select suggested
    rw [none_selected] at selected
    cases selected
  · intro none_suggested
    rw [List.eq_nil_iff_forall_not_mem]
    intro e selected
    have suggested := mem_of_mem_select selected
    rw [none_suggested] at suggested
    cases suggested

/-- No edit is suggested exactly if no suggestion can be made without review. -/
theorem candidates_eq_nil_iff {ds : List Diagnostic} :
    (candidates ds).edits = [] ↔
      ∀ d ∈ ds, ∀ s, d.suggestion = some s → s.applicability ≠ .machineApplicable := by
  simp only [edits_candidates, List.filterMap_eq_nil_iff, Diagnostic.edit?]
  refine forall₂_congr fun d _ => ?_
  cases d.suggestion <;> simp

/-- The edits that linting suggests lie in the text that was linted. -/
def InRange (lint : List Char → Option (List Diagnostic)) : Prop :=
  ∀ source ds, lint source = some ds → ∀ d ∈ ds, ∀ e, d.edit? = some e → e.InRange source

variable {lint : List Char → Option (List Diagnostic)} {source final : List Char}

/-- A round succeeds where linting does.  It counts every suggestion once, and makes
no fix exactly if no edit is suggested. -/
theorem round_eq_ok (inRange : InRange lint) {ds : List Diagnostic}
    (linted : lint source = some ds) :
    ∃ r, round lint source = .ok (ds, r) ∧ r.applied + r.skipped = suggestions ds ∧
      (r.applied = 0 ↔ (candidates ds).edits = []) := by
  obtain ⟨text, -, fixed, -, -⟩ := fixOnce_eq_ok (inRange source ds linted)
  have rounded : round lint source = .ok (ds, ⟨text, (select (candidates ds)).edits.length,
      (select (candidates ds)).skipped⟩) := by
    rw [round, linted]
    simp only [fixed]
  refine ⟨_, rounded, total_select_candidates ds, ?_⟩
  exact List.length_eq_zero_iff.trans select_eq_nil_iff

/-- A round reports what linting reports. -/
theorem lint_of_round {report : List Diagnostic × FixOutcome}
    (rounded : round lint source = .ok report) : lint source = some report.1 := by
  unfold round at rounded
  split at rounded
  · cases rounded
  · rename_i ds linted
    split at rounded
    · cases rounded
    · cases rounded
      exact linted

/-! ## Rounds in turn -/

/-- Rounds that each made a fix, from one text to another. -/
inductive Rounds (lint : List Char → Option (List Diagnostic)) :
    List Char → List (List Diagnostic × FixOutcome) → List Char → Prop
  | none (source : List Char) : Rounds lint source [] source
  | fixed {source final : List Char} {report : List Diagnostic × FixOutcome}
      {later : List (List Diagnostic × FixOutcome)} (rounded : round lint source = .ok report)
      (some_made : report.2.applied ≠ 0) (behind : Rounds lint report.2.source later final) :
      Rounds lint source (report :: later) final

/-- The fixes made in some rounds. -/
def made (rounds : List (List Diagnostic × FixOutcome)) : Nat := (rounds.map (·.2.applied)).sum

theorem made_cons (report : List Diagnostic × FixOutcome)
    (later : List (List Diagnostic × FixOutcome)) :
    made (report :: later) = report.2.applied + made later := by
  simp [made]

variable {rounds : List (List Diagnostic × FixOutcome)}

theorem Rounds.applied_pos (run : Rounds lint source rounds final) :
    ∀ x ∈ rounds, 1 ≤ x.2.applied := by
  induction run with
  | none => simp
  | fixed rounded some_made behind ih =>
      rw [List.forall_mem_cons]
      exact ⟨Nat.one_le_iff_ne_zero.mpr some_made, ih⟩

theorem Rounds.length_le_made (run : Rounds lint source rounds final) :
    rounds.length ≤ made rounds := by
  induction run with
  | none => exact Nat.le_refl 0
  | fixed rounded some_made behind ih =>
      rw [List.length_cons, made_cons]
      omega

/-- How a run ends: the last round made no fix, or the passes were used up. -/
inductive Ends (passes : Nat) (rounds : List (List Diagnostic × FixOutcome)) (last : FixOutcome)
    (out : SettledFix) : Prop
  | settled (flag : out.settled = true) (within : rounds.length < passes)
      (none_made : last.applied = 0) (left : out.skipped = last.skipped)
  | cut (flag : out.settled = false) (used_up : rounds.length = passes)
      (left : out.skipped = last.applied + last.skipped)

/-- An outcome comes from rounds that made its fixes, and one more round at the end. -/
theorem rounds_of_settleFrom {passes applied : Nat} {runs : List (List Diagnostic)}
    {out : SettledFix} (settled : settleFrom lint source applied runs passes = .ok out) :
    ∃ rounds last, Rounds lint source rounds out.source ∧ round lint out.source = .ok last ∧
      out.applied = applied + made rounds ∧
      out.runs = runs ++ rounds.map Prod.fst ++ [last.1] ∧ Ends passes rounds last.2 out := by
  induction passes generalizing source applied runs with
  | zero =>
      rw [settleFrom] at settled
      cases rounded : round lint source with
      | error e =>
          rw [rounded] at settled
          cases settled
      | ok last =>
          rw [rounded] at settled
          cases settled
          exact ⟨[], last, .none source, rounded, rfl, by simp, .cut rfl rfl rfl⟩
  | succ passes ih =>
      rw [settleFrom] at settled
      cases rounded : round lint source with
      | error e =>
          rw [rounded] at settled
          cases settled
      | ok report =>
          rw [rounded] at settled
          change (if report.2.applied = 0 then _ else _) = _ at settled
          split at settled
          · rename_i none_made
            cases settled
            exact ⟨[], report, .none source, rounded, rfl, by simp,
              .settled rfl (Nat.succ_pos _) none_made rfl⟩
          · rename_i some_made
            obtain ⟨later, last, run, lastRounded, count, reports, ends⟩ := ih settled
            refine ⟨report :: later, last, .fixed rounded some_made run, lastRounded, ?_, ?_, ?_⟩
            · rw [count, made_cons, Nat.add_assoc]
            · rw [reports, List.map_cons]
              simp
            · cases ends with
              | settled flag within none_made left =>
                  exact .settled flag (Nat.succ_lt_succ within) none_made left
              | cut flag used_up left => exact .cut flag (congrArg (· + 1) used_up) left

/-- Rounds that leave nothing to fix settle if there are passes for one more round. -/
theorem Rounds.settleFrom {last : List Diagnostic × FixOutcome}
    (run : Rounds lint source rounds final) (rounded : round lint final = .ok last)
    (none_made : last.2.applied = 0) {passes : Nat} (within : rounds.length < passes)
    (applied : Nat) (runs : List (List Diagnostic)) :
    settleFrom lint source applied runs passes =
      .ok ⟨final, applied + made rounds, last.2.skipped, true,
        runs ++ rounds.map Prod.fst ++ [last.1]⟩ := by
  induction run generalizing passes applied runs with
  | none source =>
      obtain ⟨passes, rfl⟩ := Nat.exists_eq_add_of_lt within
      rw [Fix.settleFrom, rounded]
      change (if last.2.applied = 0 then _ else _) = _
      rw [if_pos none_made, List.map_nil, List.append_nil]
      rfl
  | @fixed source final report later reported some_made behind ih =>
      obtain ⟨passes, rfl⟩ := Nat.exists_eq_succ_of_ne_zero (Nat.ne_zero_of_lt within)
      rw [Fix.settleFrom, reported]
      change (if report.2.applied = 0 then _ else _) = _
      rw [if_neg some_made, ih rounded (Nat.lt_of_succ_lt_succ within), made_cons, Nat.add_assoc]
      simp

/-- Where linting always answers, so does the loop. -/
theorem settleFrom_isOk (inRange : InRange lint) (answers : ∀ text, (lint text).isSome = true)
    (source : List Char) (applied : Nat) (runs : List (List Diagnostic)) (passes : Nat) :
    ∃ out, settleFrom lint source applied runs passes = .ok out := by
  induction passes generalizing source applied runs with
  | zero =>
      obtain ⟨ds, linted⟩ := Option.isSome_iff_exists.mp (answers source)
      obtain ⟨r, rounded, -⟩ := round_eq_ok inRange linted
      rw [settleFrom, rounded]
      exact ⟨_, rfl⟩
  | succ passes ih =>
      obtain ⟨ds, linted⟩ := Option.isSome_iff_exists.mp (answers source)
      obtain ⟨r, rounded, -⟩ := round_eq_ok inRange linted
      rw [settleFrom, rounded]
      change ∃ out, (if r.applied = 0 then _ else _) = _
      split
      · exact ⟨_, rfl⟩
      · exact ih _ _ _

end Fix

/-- **What is settled stays settled.**  Take a way of linting whose edits lie in the
text.  Where it always answers, fixing with it gives an outcome.  Every outcome counts
as skipped the suggestions that its text still has.  If it is settled, none of them
can be made without review, fixing its text again leaves it alone, and a larger limit
gives the same outcome; if it is not, each of the passes made a fix. -/
theorem fixUntilSettled_stable (lint : List Char → Option (List Diagnostic))
    (inRange : Fix.InRange lint) (source : List Char) (passes : Nat) :
    ((∀ text, (lint text).isSome = true) →
        ∃ out, fixUntilSettled lint source passes = .ok out) ∧
      ∀ out, fixUntilSettled lint source passes = .ok out →
        ∃ ds, lint out.source = some ds ∧ out.skipped = Fix.suggestions ds ∧
          (out.settled = true →
            (∀ d ∈ ds, ∀ s, d.suggestion = some s → s.applicability ≠ .machineApplicable) ∧
              (∀ limit, 1 ≤ limit → ∃ again, fixUntilSettled lint out.source limit = .ok again ∧
                again.source = out.source ∧ again.applied = 0 ∧ again.settled = true) ∧
              ∀ limit, passes ≤ limit → fixUntilSettled lint source limit = .ok out) ∧
          (out.settled = false →
            ∃ rounds, Fix.Rounds lint source rounds out.source ∧ rounds.length = passes ∧
              (∀ x ∈ rounds, 1 ≤ x.2.applied) ∧ out.applied = Fix.made rounds ∧
              passes ≤ out.applied) := by
  refine ⟨fun answers => Fix.settleFrom_isOk inRange answers source 0 [] passes, ?_⟩
  intro out settled
  obtain ⟨rounds, ⟨ds, last⟩, run, rounded, count, reports, ends⟩ :=
    Fix.rounds_of_settleFrom settled
  rw [Nat.zero_add] at count
  have linted := Fix.lint_of_round rounded
  obtain ⟨r, rounded', counted, none_made_iff⟩ := Fix.round_eq_ok inRange linted
  cases rounded.symm.trans rounded'
  refine ⟨ds, linted, ?_, ?_, ?_⟩
  · cases ends with
    | settled flag within none_made left => rw [left, ← counted, none_made, Nat.zero_add]
    | cut flag used_up left => rw [left, ← counted]
  · intro isSettled
    cases ends with
    | cut flag => rw [flag] at isSettled; cases isSettled
    | settled flag within none_made left =>
        refine ⟨Fix.candidates_eq_nil_iff.mp (none_made_iff.mp none_made), ?_, ?_⟩
        · intro limit positive
          exact ⟨_, (Fix.Rounds.none out.source).settleFrom rounded none_made positive 0 [],
            rfl, rfl, rfl⟩
        · intro limit larger
          rw [fixUntilSettled, run.settleFrom rounded none_made (Nat.lt_of_lt_of_le within larger),
            Nat.zero_add, ← count, ← reports, ← left, ← flag]
  · intro notSettled
    cases ends with
    | settled flag => rw [flag] at notSettled; cases notSettled
    | cut flag used_up left =>
        refine ⟨rounds, run, used_up, run.applied_pos, count, ?_⟩
        rw [count, ← used_up]
        exact run.length_le_made

/-- Linting that wants a leading `a` gone, in one of two ways, and has a remark on
every text. -/
def wantsNoLeadingA : List Char → Option (List Diagnostic)
  | 'a' :: _ => some [suggesting .lenAssertion 0 1 "", suggesting .capAssertion 0 1 "b", remark]
  | _ => some [remark]
where
  /-- A suggestion that has to be looked at. -/
  remark : Diagnostic :=
    { suggesting .nilAssertion 0 0 "" with suggestion := some ⟨"", "c", .maybeIncorrect⟩ }

theorem wantsNoLeadingA_inRange : Fix.InRange wantsNoLeadingA := by
  intro source ds linted d inside e suggested
  unfold wantsNoLeadingA at linted
  split at linted <;> cases linted
  · rename_i rest
    have known : e.start = 0 ∧ e.stop = 1 := by
      simp only [List.mem_cons, List.not_mem_nil, or_false] at inside
      rcases inside with rfl | rfl | rfl <;> cases suggested <;> exact ⟨rfl, rfl⟩
    have behind : splitAtByte? 1 ('a' :: rest) = some (['a'], rest) :=
      splitAtByte?_eq_some_iff.mpr ⟨rfl, rfl⟩
    constructor
    · omega
    · rw [known.2, byteLength_cons]
      exact Nat.le_add_right 1 _
    · rw [known.1]
      rfl
    · rw [known.2, isBoundary, behind]
      rfl
  · rw [List.mem_singleton] at inside
    subst inside
    cases suggested

/-- Two passes take both letters away and leave the remark; the third finds nothing
to fix, and so does any later one. -/
theorem fixUntilSettled_stable_leadingA :
    (∃ out, fixUntilSettled wantsNoLeadingA "aax".toList 2 = .ok out ∧ out.settled = false ∧
        2 ≤ out.applied) ∧
      ∃ out, fixUntilSettled wantsNoLeadingA "aax".toList 3 = .ok out ∧ out.settled = true ∧
        out.skipped = 1 ∧ fixUntilSettled wantsNoLeadingA "aax".toList 100 = .ok out := by
  have stable := fixUntilSettled_stable wantsNoLeadingA wantsNoLeadingA_inRange "aax".toList
  constructor
  · obtain ⟨out, fixed, flag⟩ : ∃ out, fixUntilSettled wantsNoLeadingA "aax".toList 2 = .ok out ∧
        out.settled = false := ⟨_, by cbv, rfl⟩
    obtain ⟨ds, -, -, -, unsettled⟩ := (stable 2).2 out fixed
    obtain ⟨rounds, -, -, -, -, enough⟩ := unsettled flag
    exact ⟨out, fixed, flag, enough⟩
  · obtain ⟨out, fixed, flag, left⟩ :
        ∃ out, fixUntilSettled wantsNoLeadingA "aax".toList 3 = .ok out ∧
          out.settled = true ∧ out.skipped = 1 := ⟨_, by cbv, rfl, rfl⟩
    obtain ⟨ds, -, -, settled, -⟩ := (stable 3).2 out fixed
    exact ⟨out, fixed, flag, left, (settled flag).2.2 100 (by decide)⟩

end GomegaLint
