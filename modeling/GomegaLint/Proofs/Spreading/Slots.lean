import Mathlib
import GomegaLint.Proofs.Placement
import GomegaLint.Proofs.Syntax.Tree

/-!
# Where expressions stand in others

`Expr.inner` lists the expressions inside another, each with its slot: it is an argument of a
call, spread or not, or something else.

An edited assertion is compared with the one it was made of by the identities of these
expressions.  `Node.toCall?_identified` says that this tells them apart: what is read from a file
is read from different syntax nodes (`Node.lowerTo_ids`).
-/

namespace GomegaLint

/-! ## Where expressions stand -/

/-- How an expression stands in the one around it. -/
inductive Slot where
  /-- As the last argument of a call, with an ellipsis behind it. -/
  | spread
  /-- As any other argument of a call. -/
  | argument
  /-- As a callee, an operand and the like. -/
  | other
  deriving DecidableEq, Repr

/-- The slot of an argument with some others behind it. -/
def Slot.ofArgument (spread : Bool) (behind : List Expr) : Slot :=
  if spread && behind.isEmpty then .spread else .argument

theorem Slot.ofArgument_eq_spread {spread : Bool} {behind : List Expr} :
    Slot.ofArgument spread behind = .spread ↔ spread = true ∧ behind = [] := by
  simp [ofArgument]

mutual

/-- The expressions inside an expression, each with its slot. -/
def Expr.inner : Expr → List (Slot × Expr)
  | .ident _ | .literal .. | .verbatim .. => []
  | .selector _ x _ | .unary _ _ x | .star _ x | .paren _ x => (.other, x) :: x.inner
  | .call _ f args spread => (.other, f) :: (f.inner ++ Expr.innerArgs spread args)
  | .binary _ x _ y => (.other, x) :: (x.inner ++ (.other, y) :: y.inner)

/-- The arguments of a call and the expressions inside them. -/
def Expr.innerArgs (spread : Bool) : List Expr → List (Slot × Expr)
  | [] => []
  | e :: es => (Slot.ofArgument spread es, e) :: (e.inner ++ Expr.innerArgs spread es)

end

namespace Call

/-- The expressions inside a call that stand in a slot. -/
def inSlot (slot : Slot) (c : Call) : List Expr :=
  (c.toExpr.inner.filter fun x => x.1 = slot).map Prod.snd

/-- The arguments inside a call that are spread. -/
def spreadArgs (c : Call) : List Expr := c.inSlot .spread

/-- The arguments inside a call that are not spread. -/
def plainArgs (c : Call) : List Expr := c.inSlot .argument

theorem mem_inSlot {slot : Slot} {c : Call} {e : Expr} :
    e ∈ c.inSlot slot ↔ (slot, e) ∈ c.toExpr.inner := by
  simp [inSlot]

/-- Every expression inside the call came from a syntax node of its own. -/
def Identified (c : Call) : Prop :=
  (c.toExpr.inner.map fun x => x.2.id).Nodup ∧ 0 ∉ c.toExpr.inner.map fun x => x.2.id

instance (c : Call) : Decidable c.Identified := inferInstanceAs (Decidable (_ ∧ _))

end Call

/-- The expression stands in a slot, and what is inside it stands there too. -/
structure Expr.StandsIn (before : List (Slot × Expr)) (slot : Slot) (e : Expr) : Prop where
  here : (slot, e) ∈ before
  inside : e.inner ⊆ before

namespace Expr

variable {before : List (Slot × Expr)} {slot : Slot}

theorem standsIn_callee {o : Origin} {f : Expr} {args : List Expr} {s : Bool}
    (inside : (Expr.call o f args s).inner ⊆ before) : f.StandsIn before .other := by
  rw [inner, List.cons_subset, List.append_subset] at inside
  exact ⟨inside.1, inside.2.1⟩

theorem standsIn_selected {o : Origin} {x : Expr} {m : Ident}
    (inside : (Expr.selector o x m).inner ⊆ before) : x.StandsIn before .other := by
  rw [inner, List.cons_subset] at inside
  exact ⟨inside.1, inside.2⟩

theorem standsIn_operands {o : Origin} {x y : Expr} {op : BinaryOp}
    (inside : (Expr.binary o x op y).inner ⊆ before) :
    x.StandsIn before .other ∧ y.StandsIn before .other := by
  rw [inner, List.cons_subset, List.append_subset, List.cons_subset] at inside
  exact ⟨⟨inside.1, inside.2.1⟩, inside.2.2.1, inside.2.2.2⟩

theorem standsIn_innerArgs {args : List Expr} {s : Bool} {index : Nat} {e : Expr}
    (found : args[index]? = some e) (inside : innerArgs s args ⊆ before) :
    e.StandsIn before (.ofArgument s (args.drop (index + 1))) := by
  induction args generalizing index with
  | nil => simp at found
  | cons a as ih =>
      rw [innerArgs, List.cons_subset, List.append_subset] at inside
      cases index with
      | zero =>
          rw [List.getElem?_cons_zero, Option.some.injEq] at found
          subst found
          exact ⟨inside.1, inside.2.1⟩
      | succ index => exact ih (List.getElem?_cons_succ ▸ found) inside.2.2

theorem standsIn_arg {o : Origin} {f : Expr} {args : List Expr} {s : Bool} {index : Nat} {e : Expr}
    (inside : (Expr.call o f args s).inner ⊆ before) (found : args[index]? = some e) :
    e.StandsIn before (.ofArgument s (args.drop (index + 1))) := by
  rw [inner, List.cons_subset, List.append_subset] at inside
  exact standsIn_innerArgs found inside.2.2

/-- Every argument of a call without an ellipsis is a plain one. -/
theorem standsIn_of_mem {o : Origin} {f : Expr} {args : List Expr} {e : Expr}
    (inside : (Expr.call o f args false).inner ⊆ before) (member : e ∈ args) :
    e.StandsIn before .argument := by
  obtain ⟨index, found⟩ := List.mem_iff_getElem?.mp member
  exact standsIn_arg inside found

theorem Compares.standsIn {e x y : Expr} {op : BinaryOp} (compares : e.Compares x op y)
    (inside : e.inner ⊆ before) : x.StandsIn before .other ∧ y.StandsIn before .other := by
  obtain ⟨o, op', -, ⟨rfl, -⟩ | ⟨rfl, -⟩⟩ := compares
  · exact standsIn_operands inside
  · exact (standsIn_operands inside).symm

namespace StandsIn

theorem under? {n : Nat} {e x : Expr} (stands : e.StandsIn before .other)
    (found : Draft.under? n e = some x) : x.StandsIn before .other := by
  induction n generalizing e with
  | zero =>
      cases found
      exact stands
  | succ n ih =>
      cases e with
      | call o f args s =>
          cases f with
          | selector so y m =>
              exact ih (standsIn_selected (standsIn_callee stands.inside).inside) found
          | _ => cases found
      | _ => cases found

theorem inside? {n : Nat} {e : Expr} {c : Call} (stands : e.StandsIn before slot)
    (found : Draft.inside? n e = some c) : ∃ slot, c.toExpr.StandsIn before slot := by
  induction n generalizing e slot with
  | zero =>
      cases e with
      | call o f args s =>
          cases found
          exact ⟨slot, stands⟩
      | _ => cases found
  | succ n ih =>
      cases e with
      | call o f args s =>
          cases args with
          | nil => cases found
          | cons a as => exact ih (standsIn_arg stands.inside List.getElem?_cons_zero) found
      | _ => cases found

end StandsIn

end Expr

/-! ## Assertions of a file -/

/-- The identities of an expression and of those inside it. -/
def Expr.ids (e : Expr) : List Nat := e.id :: e.inner.map fun x => x.2.id

theorem Expr.innerArgs_ids (spread : Bool) (es : List Expr) :
    ((Expr.innerArgs spread es).map fun x => x.2.id) = es.flatMap Expr.ids := by
  induction es with
  | nil => rfl
  | cons e es ih => simp [Expr.innerArgs, Expr.ids, ih]

namespace Node

open List (Subperm)

/-- The identities of a node and of everything below it. -/
def ids (n : Node) : List Nat := n.preorder.map id

theorem ids_eq (n : Node) : n.ids = n.id :: n.children.flatMap ids := by
  rw [ids, preorder_eq, List.map_cons, List.map_flatMap]
  rfl

/-- Two children have what is below them for themselves. -/
theorem ids_subperm_of_children {n c d : Node} (child : c ∈ n.children) (other : d ∈ n.children)
    (different : c ≠ d) : (c.ids ++ d.ids).Subperm (n.children.flatMap ids) := by
  have both : [c, d].Subperm n.children :=
    List.subperm_of_subset (by simp [different]) (by simp [child, other])
  obtain ⟨l, perm, sublist⟩ := both
  refine ⟨l.flatMap ids, ?_, sublist.flatMap ids⟩
  simpa using perm.flatMap_right ids

theorem ids_subperm_of_child {n c : Node} (child : c ∈ n.children) :
    c.ids.Subperm (n.children.flatMap ids) := by
  have one : [c].Sublist n.children := List.singleton_sublist.mpr child
  simpa using (one.flatMap ids).subperm

theorem field_of_child? {n c : Node} {f : Field} (found : n.child? f = some c) :
    c ∈ n.children ∧ c.label.field = some f :=
  ⟨List.mem_of_find?_eq_some found, by simpa using List.find?_some found⟩

theorem ne_of_child? {n c d : Node} {f g : Field} (found : n.child? f = some c)
    (found' : n.child? g = some d) (different : f ≠ g) : c ≠ d := by
  rintro rfl
  have same := (field_of_child? found).2.symm.trans (field_of_child? found').2
  exact different (Option.some.inj same)

theorem firstNamed?_mem {n c : Node} (found : n.firstNamed? = some c) : c ∈ n.children :=
  List.mem_of_mem_filter (List.mem_of_head? found)

section

variable {lower : Node → Expr} (below : ∀ n, (lower n).ids.Subperm n.ids)

include below

/-- An expression over one child. -/
theorem ids_subperm_over {n c : Node} (child : c ∈ n.children) :
    (n.id :: (lower c).ids).Subperm n.ids := by
  rw [ids_eq]
  exact (List.subperm_cons n.id).mpr ((below c).trans (ids_subperm_of_child child))

theorem lowerArguments_ids (n : Node) :
    ((lowerArguments lower n).1.flatMap Expr.ids).Subperm (n.children.flatMap ids) := by
  have parts : n.parts.Sublist n.children := List.filter_sublist.trans List.filter_sublist
  refine Subperm.trans ?_ (parts.flatMap ids).subperm
  rw [lowerArguments]
  induction n.parts with
  | nil => exact .refl _
  | cons p ps ih =>
      rw [List.filterMap_cons, List.flatMap_cons]
      have first : ∀ e, (if p.kind = .variadicArgument then p.firstNamed?.map lower
          else some (lower p)) = some e → e.ids.Subperm p.ids := by
        intro e lowered
        split at lowered
        · obtain ⟨c, named, rfl⟩ := Option.map_eq_some_iff.mp lowered
          rw [ids_eq]
          exact ((below c).trans (ids_subperm_of_child (firstNamed?_mem named))).cons_right _
        · cases lowered
          exact below p
      split
      · exact ih.trans (List.sublist_append_right _ _).subperm
      · rename_i e lowered
        rw [List.flatMap_cons]
        exact (first e lowered).append ih

theorem lowerCall_ids {n : Node} {c : Call} (lowered : lowerCall lower n = some c) :
    c.toExpr.ids.Subperm n.ids := by
  simp only [lowerCall, Option.bind_eq_bind, Option.pure_def] at lowered
  split at lowered
  · cases lowered
  · simp only [Option.bind_eq_some_iff, Option.some.injEq] at lowered
    obtain ⟨function, isFunction, arguments, isArguments, rfl⟩ := lowered
    have parts :
        ((lower function).ids ++ (lowerArguments lower arguments).1.flatMap Expr.ids).Subperm
          (function.ids ++ arguments.ids) := by
      refine (below function).append ?_
      rw [ids_eq]
      exact (lowerArguments_ids below arguments).cons_right _
    have children := ids_subperm_of_children (field_of_child? isFunction).1
      (field_of_child? isArguments).1 (ne_of_child? isFunction isArguments (by decide))
    rw [ids_eq]
    refine (List.subperm_cons n.id).mpr ?_
    simpa [Call.toExpr, Expr.inner, Expr.ids, Expr.innerArgs_ids] using parts.trans children

theorem lowerMember_ids {n : Node} {whole part : Field} {e : Expr}
    (lowered : lowerMember lower whole part n = some e) : e.ids.Subperm n.ids := by
  simp only [lowerMember, Option.bind_eq_bind, Option.bind_eq_some_iff, Option.pure_def,
    Option.some.injEq] at lowered
  obtain ⟨x, isOperand, m, -, rfl⟩ := lowered
  exact ids_subperm_over below (field_of_child? isOperand).1

theorem lowerBinary_ids {n : Node} {e : Expr} (lowered : lowerBinary lower n = some e) :
    e.ids.Subperm n.ids := by
  simp only [lowerBinary, Option.bind_eq_bind, Option.bind_eq_some_iff, Option.pure_def,
    Option.some.injEq] at lowered
  obtain ⟨x, isLeft, y, isRight, o, -, op, -, rfl⟩ := lowered
  have children := ids_subperm_of_children (field_of_child? isLeft).1 (field_of_child? isRight).1
    (ne_of_child? isLeft isRight (by decide))
  rw [ids_eq]
  refine (List.subperm_cons n.id).mpr ?_
  simpa [Expr.inner, Expr.ids] using ((below x).append (below y)).trans children

theorem lowerUnary_ids {n : Node} {e : Expr} (lowered : lowerUnary lower n = some e) :
    e.ids.Subperm n.ids := by
  simp only [lowerUnary, Option.bind_eq_bind, Option.bind_eq_some_iff, Option.pure_def]
    at lowered
  obtain ⟨x, isOperand, o, -, lowered⟩ := lowered
  have operand := ids_subperm_over below (field_of_child? isOperand).1
  split at lowered
  · cases lowered
    exact operand
  · obtain ⟨op, -, lowered⟩ := Option.bind_eq_some_iff.mp lowered
    cases lowered
    exact operand

theorem lowerStep_ids (n : Node) : (lowerStep lower n).ids.Subperm n.ids := by
  have alone : [n.id].Subperm n.ids := by
    rw [ids_eq]
    exact (List.subperm_cons n.id).mpr (List.nil_subperm)
  have orVerbatim : ∀ {e? : Option Expr}, (∀ e, e? = some e → e.ids.Subperm n.ids) →
      (e?.getD n.toVerbatim).ids.Subperm n.ids := by
    intro e? lowered
    cases e? with
    | none => exact alone
    | some e => exact lowered e rfl
  have named : ∀ {wrap : Expr → Expr}, (∀ x, (wrap x).ids = n.id :: x.ids) →
      ((n.firstNamed?.map fun x => wrap (lower x)).getD n.toVerbatim).ids.Subperm n.ids := by
    intro wrap wraps
    refine orVerbatim fun e lowered => ?_
    obtain ⟨c, first, rfl⟩ := Option.map_eq_some_iff.mp lowered
    rw [wraps]
    exact ids_subperm_over below (firstNamed?_mem first)
  unfold lowerStep
  cases n.kind with
  | selectorExpression | qualifiedType => exact orVerbatim fun e => lowerMember_ids below
  | callExpression =>
      refine orVerbatim fun e lowered => ?_
      obtain ⟨c, isCall, rfl⟩ := Option.map_eq_some_iff.mp lowered
      exact lowerCall_ids below isCall
  | binaryExpression => exact orVerbatim fun e => lowerBinary_ids below
  | unaryExpression => exact orVerbatim fun e => lowerUnary_ids below
  | parenthesizedExpression | pointerType => exact named fun x => rfl
  | _ => exact alone

end

theorem lowerTo_ids (levels : Nat) (n : Node) : (lowerTo levels n).ids.Subperm n.ids := by
  induction levels generalizing n with
  | zero =>
      rw [ids_eq]
      exact (List.subperm_cons n.id).mpr List.nil_subperm
  | succ levels ih => exact lowerStep_ids ih n

/-- The expressions inside a call of a file come from different syntax nodes. -/
theorem toCall?_identified {root n : Node} {c : Call} (member : n ∈ root.numbered.preorder)
    (isCall : n.toCall? = some c) : c.Identified := by
  have own : (c.toExpr.inner.map fun x => x.2.id).Subperm (root.numbered.preorder.map id) := by
    have tail : (c.toExpr.inner.map fun x => x.2.id).Subperm c.toExpr.ids := .cons_self
    refine (tail.trans (lowerCall_ids (lowerTo_ids n.depth) isCall)).trans ?_
    exact ((preorder_sublist member).map id).subperm
  obtain ⟨l, perm, sublist⟩ := own
  refine ⟨perm.nodup_iff.mp (root.numbered_ids_nodup.sublist sublist), fun zero => ?_⟩
  have inTree := sublist.subset (perm.mem_iff.mpr zero)
  rw [numbered, (root.numbersInTurn 1).1] at inTree
  simp at inTree

end Node

end GomegaLint
