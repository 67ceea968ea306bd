import Mathlib
import GomegaLint.Proofs.Spreading.Slots

/-!
# Edits and spread arguments

What stands in a slot of an edited assertion was built, or stood somewhere before; it keeps what
is spread if, having been spread before, it still is (`Slot.Keeps`).  An edit keeps this of a whole
draft if it holds of what the edit brings in (`Change.make?_kept`), and so does a row of edits
(`Change.foldlM_kept`).
-/

namespace GomegaLint

/-! ## What is still spread -/

/-- What has this identity was built, or stood somewhere before; if it was spread there, the
slot is that of a spread argument again. -/
def Slot.Keeps (before : List (Slot × Expr)) (slot : Slot) (id : Nat) : Prop :=
  id = 0 ∨ ∃ x ∈ before, x.2.id = id ∧ (x.1 = .spread → slot = .spread)

/-- An expression in a slot keeps what is spread, and so does all that is inside it. -/
def Expr.Kept (before : List (Slot × Expr)) (slot : Slot) (e : Expr) : Prop :=
  slot.Keeps before e.id ∧ ∀ x ∈ e.inner, x.1.Keeps before x.2.id

/-- The arguments of a call keep what is spread. -/
def Expr.KeptArgs (before : List (Slot × Expr)) (spread : Bool) (args : List Expr) : Prop :=
  ∀ x ∈ innerArgs spread args, x.1.Keeps before x.2.id

variable {before : List (Slot × Expr)} {slot : Slot}

/-- What stood in a plain slot may stand in any. -/
theorem Slot.Keeps.of_argument {id : Nat} (keeps : Slot.Keeps before .argument id) (slot : Slot) :
    slot.Keeps before id := by
  rcases keeps with built | ⟨x, member, same, still⟩
  · exact .inl built
  · refine .inr ⟨x, member, same, fun wasSpread => ?_⟩
    cases still wasSpread

namespace Expr

theorem Kept.of_argument {e : Expr} (kept : e.Kept before .argument) (slot : Slot) :
    e.Kept before slot :=
  ⟨kept.1.of_argument slot, kept.2⟩

/-- What stood in a slot that is not spread may be put into any. -/
theorem StandsIn.kept {e : Expr} (stands : e.StandsIn before slot) (plain : slot ≠ .spread)
    (slot' : Slot) : e.Kept before slot' := by
  refine ⟨.inr ⟨(slot, e), stands.here, rfl, fun wasSpread => absurd wasSpread plain⟩, ?_⟩
  exact fun x member => .inr ⟨x, stands.inside member, rfl, fun still => still⟩

theorem kept_selector {o : Origin} {x : Expr} {m : Ident} :
    (Expr.selector o x m).Kept before slot ↔ slot.Keeps before o.id ∧ x.Kept before .other := by
  simp only [Kept, inner, List.forall_mem_cons]
  rfl

theorem kept_call {o : Origin} {f : Expr} {args : List Expr} {s : Bool} :
    (Expr.call o f args s).Kept before slot ↔
      slot.Keeps before o.id ∧ f.Kept before .other ∧ KeptArgs before s args := by
  simp only [Kept, KeptArgs, inner, List.forall_mem_cons, List.forall_mem_append, and_assoc]
  rfl

theorem keptArgs_cons {e : Expr} {es : List Expr} {s : Bool} :
    KeptArgs before s (e :: es) ↔ e.Kept before (.ofArgument s es) ∧ KeptArgs before s es := by
  simp only [Kept, KeptArgs, innerArgs, List.forall_mem_cons, List.forall_mem_append, and_assoc]

theorem keptArgs_of_forall {es : List Expr} {s : Bool} (kept : ∀ e ∈ es, e.Kept before .argument) :
    KeptArgs before s es := by
  induction es with
  | nil => simp [KeptArgs, innerArgs]
  | cons e es ih =>
      rw [List.forall_mem_cons] at kept
      exact keptArgs_cons.mpr ⟨kept.1.of_argument _, ih kept.2⟩

theorem keptArgs_set {es : List Expr} {s : Bool} {index : Nat} {e : Expr}
    (kept : KeptArgs before s es) (new : e.Kept before .argument) :
    KeptArgs before s (es.set index e) := by
  induction es generalizing index with
  | nil => exact kept
  | cons a as ih =>
      rw [keptArgs_cons] at kept
      cases index with
      | zero => exact keptArgs_cons.mpr ⟨new.of_argument _, kept.2⟩
      | succ index =>
          refine keptArgs_cons.mpr ⟨?_, ih kept.2⟩
          -- The argument before stays the last one, or stays not the last one.
          have behind : Slot.ofArgument s (as.set index e) = Slot.ofArgument s as := by
            cases as <;> cases index <;> rfl
          rw [behind]
          exact kept.1

end Expr

/-! ## Edits -/

/-- Everything inside a draft keeps what is spread. -/
def Draft.Kept (before : List (Slot × Expr)) (d : Draft) : Prop :=
  ∀ x ∈ d.call.toExpr.inner, x.1.Keeps before x.2.id

/-- What a change brings in may stand as a plain argument. -/
def Change.Kept (before : List (Slot × Expr)) : Change → Prop
  | .actualArg e => e.Kept before .argument
  | .chain _ args => ∀ e ∈ args, e.Kept before .argument
  | .matcher new | .innerMatcher new => new.toExpr.Kept before .argument
  | .reverse | .negative _ => True

namespace Draft

theorem kept_iff {d : Draft} :
    d.Kept before ↔ d.call.callee.Kept before .other ∧
      Expr.KeptArgs before d.call.spread d.call.args := by
  simp only [Kept, Expr.Kept, Expr.KeptArgs, Call.toExpr, Expr.inner, List.forall_mem_cons,
    List.forall_mem_append, and_assoc]

theorem editUnder_kept {edit : Expr → Option Expr} {n : Nat} {e e' : Expr}
    (edits : ∀ {x x'}, edit x = some x' → x.Kept before .other → x'.Kept before .other)
    (edited : editUnder edit n e = some e') (kept : e.Kept before .other) :
    e'.Kept before .other := by
  induction n generalizing e e' with
  | zero => exact edits edited kept
  | succ n ih =>
      cases e with
      | call o f args s =>
          cases f with
          | selector so x m =>
              obtain ⟨x', changed, rfl⟩ := Option.map_eq_some_iff.mp edited
              obtain ⟨whole, callee, args⟩ := Expr.kept_call.mp kept
              obtain ⟨selector, below⟩ := Expr.kept_selector.mp callee
              exact Expr.kept_call.mpr
                ⟨whole, Expr.kept_selector.mpr ⟨selector, ih changed below⟩, args⟩
          | _ => cases edited
      | _ => cases edited

theorem editActual_kept {edit : Expr → Option Expr} {d d' : Draft}
    (edits : ∀ {x x'}, edit x = some x' → x.Kept before .other → x'.Kept before .other)
    (edited : d.editActual edit = some d') (kept : d.Kept before) : d'.Kept before := by
  obtain ⟨⟨o, f, args, s⟩, style, depth, notDepth⟩ := d
  cases f with
  | selector so x m =>
      obtain ⟨x', changed, rfl⟩ := Option.map_eq_some_iff.mp edited
      obtain ⟨callee, args⟩ := kept_iff.mp kept
      obtain ⟨selector, below⟩ := Expr.kept_selector.mp callee
      exact kept_iff.mpr
        ⟨Expr.kept_selector.mpr ⟨selector, editUnder_kept edits changed below⟩, args⟩
  | _ => cases edited

theorem editInside_kept {new : Call} {n : Nat} {e e' : Expr}
    (brought : new.toExpr.Kept before .argument)
    (edited : editInside (fun _ => new) n e = some e') (kept : e.Kept before slot) :
    e'.Kept before slot := by
  induction n generalizing e e' slot with
  | zero =>
      cases e with
      | call o f args s =>
          cases edited
          exact brought.of_argument slot
      | _ => cases edited
  | succ n ih =>
      cases e with
      | call o f args s =>
          cases args with
          | nil => cases edited
          | cons a as =>
              obtain ⟨a', changed, rfl⟩ := Option.map_eq_some_iff.mp edited
              obtain ⟨whole, callee, args⟩ := Expr.kept_call.mp kept
              obtain ⟨first, others⟩ := Expr.keptArgs_cons.mp args
              exact Expr.kept_call.mpr
                ⟨whole, callee, Expr.keptArgs_cons.mpr ⟨ih changed first, others⟩⟩
      | _ => cases edited

theorem setInnerMatcher_kept {new : Call} {d d' : Draft}
    (brought : new.toExpr.Kept before .argument)
    (edited : d.setInnerMatcher new = some d') (kept : d.Kept before) : d'.Kept before := by
  obtain ⟨⟨o, f, args, s⟩, style, depth, notDepth⟩ := d
  cases args with
  | nil => cases edited
  | cons a as =>
      obtain ⟨a', changed, rfl⟩ := Option.map_eq_some_iff.mp edited
      obtain ⟨callee, args⟩ := kept_iff.mp kept
      obtain ⟨first, others⟩ := Expr.keptArgs_cons.mp args
      exact kept_iff.mpr
        ⟨callee, Expr.keptArgs_cons.mpr ⟨editInside_kept brought changed first, others⟩⟩

theorem setMatcher_kept {new : Call} {d d' : Draft} (brought : new.toExpr.Kept before .argument)
    (edited : d.setMatcher new = some d') (kept : d.Kept before) : d'.Kept before := by
  obtain ⟨⟨o, f, args, s⟩, style, depth, notDepth⟩ := d
  cases args with
  | nil => cases edited
  | cons a as =>
      cases edited
      obtain ⟨callee, args⟩ := kept_iff.mp kept
      exact kept_iff.mpr
        ⟨callee, Expr.keptArgs_cons.mpr ⟨brought.of_argument _, (Expr.keptArgs_cons.mp args).2⟩⟩

theorem reverse_kept {d d' : Draft} (edited : d.reverse = some d') (kept : d.Kept before) :
    d'.Kept before := by
  obtain ⟨⟨o, f, args, s⟩, style, depth, notDepth⟩ := d
  cases f with
  | selector so x m =>
      obtain ⟨name, -, rfl⟩ := Option.map_eq_some_iff.mp edited
      obtain ⟨callee, args⟩ := kept_iff.mp kept
      exact kept_iff.mpr ⟨Expr.kept_selector.mpr (Expr.kept_selector.mp callee), args⟩
  | _ => cases edited

theorem setNegative_kept {negative : Bool} {d d' : Draft}
    (edited : d.setNegative negative = some d') (kept : d.Kept before) : d'.Kept before := by
  unfold setNegative at edited
  split at edited
  · split at edited
    · cases edited
      exact kept
    · exact reverse_kept edited kept
  · cases edited

end Draft

/-- **What one change keeps.** -/
theorem Change.make?_kept {change : Change} {offset : Nat} {d d' : Draft}
    (brought : change.Kept before) (made : change.make? offset d = some d')
    (kept : d.Kept before) : d'.Kept before := by
  cases change with
  | actualArg e =>
      refine Draft.editActual_kept (fun {x x'} edited below => ?_) made kept
      cases x with
      | call o f args s =>
          simp only at edited
          split at edited
          · cases edited
            obtain ⟨whole, callee, args⟩ := Expr.kept_call.mp below
            exact Expr.kept_call.mpr ⟨whole, callee, Expr.keptArgs_set args brought⟩
          · cases edited
      | _ => cases edited
  | chain name args =>
      refine Draft.editActual_kept (fun {x x'} edited below => ?_) made kept
      cases edited
      exact Expr.kept_call.mpr
        ⟨.inl rfl, Expr.kept_selector.mpr ⟨.inl rfl, below⟩, Expr.keptArgs_of_forall brought⟩
  | matcher new => exact Draft.setMatcher_kept brought made kept
  | innerMatcher new => exact Draft.setInnerMatcher_kept brought made kept
  | reverse => exact Draft.reverse_kept made kept
  | negative b => exact Draft.setNegative_kept made kept

/-- What a row of changes keeps. -/
theorem Change.foldlM_kept {cs : List Change} {offset : Nat} {d d' : Draft}
    (brought : ∀ change ∈ cs, change.Kept before)
    (made : cs.foldlM (Change.make? offset) d = some d') (kept : d.Kept before) :
    d'.Kept before := by
  induction cs generalizing d with
  | nil =>
      cases made
      exact kept
  | cons change cs ih =>
      rw [List.foldlM_cons] at made
      obtain ⟨d₁, first, others⟩ := Option.bind_eq_some_iff.mp made
      rw [List.forall_mem_cons] at brought
      exact ih brought.2 others (Change.make?_kept brought.1 first kept)

end GomegaLint
