import Mathlib
import GomegaLint.Syntax.Node

/-!
# Trees

Facts about concrete syntax trees that do not depend on a grammar: which nodes a tree has,
how deep it is, and that numbering gives every node an identity of its own.
-/

namespace GomegaLint

namespace Node

/-- Induction on a tree, with all children at hand. -/
@[elab_as_elim]
theorem induction {P : Node → Prop} (leaf : ∀ l gap text, P (.leaf l gap text))
    (branch : ∀ l cs, (∀ c ∈ cs, P c) → P (.branch l cs)) (n : Node) : P n :=
  @Node.rec P (fun cs => ∀ c ∈ cs, P c) leaf branch (by simp)
    (fun _ _ first others => List.forall_mem_cons.mpr ⟨first, others⟩) n

/-- Induction on a tree by the children of its nodes. -/
@[elab_as_elim]
theorem induction_children {P : Node → Prop} (step : ∀ n, (∀ c ∈ n.children, P c) → P n)
    (n : Node) : P n := by
  induction n using Node.induction with
  | leaf l gap text => exact step _ (by simp [children])
  | branch l cs ih => exact step _ ih

/-- A named node that is no comment. -/
def isPart (n : Node) : Bool := n.isNamed && !n.isComment

theorem isPart_iff {n : Node} : n.isPart = true ↔ n.isNamed = true ∧ n.isComment = false := by
  simp [isPart]

theorem isNamed_of_isComment {n : Node} (comment : n.isComment = true) : n.isNamed = true := by
  rw [isComment, beq_iff_eq] at comment
  simp [isNamed, comment]

/-! ## The nodes of a tree -/

theorem mem_preorder_self (n : Node) : n ∈ n.preorder := by
  cases n <;> simp [preorder]

theorem preorderOf_eq (cs : List Node) : preorderOf cs = cs.flatMap preorder := by
  induction cs with
  | nil => rfl
  | cons c cs ih => rw [preorderOf, List.flatMap_cons, ih]

theorem preorder_eq (n : Node) : n.preorder = n :: n.children.flatMap preorder := by
  cases n with
  | leaf l gap text => simp [preorder, children]
  | branch l cs => rw [preorder, preorderOf_eq, children]

theorem mem_preorderOf {cs : List Node} {m : Node} :
    m ∈ preorderOf cs ↔ ∃ c ∈ cs, m ∈ c.preorder := by
  rw [preorderOf_eq, List.mem_flatMap]

/-- A property that a tree has and that nodes hand on to their children holds of
every node of the tree. -/
theorem forall_mem_preorder {good : Node → Prop} (root : Node) (here : good root)
    (down : ∀ n, good n → ∀ c ∈ n.children, good c) : ∀ m ∈ root.preorder, good m := by
  induction root using Node.induction with
  | leaf l gap text =>
      intro m member
      rw [preorder, List.mem_singleton] at member
      exact member ▸ here
  | branch l cs ih =>
      intro m member
      rw [preorder, List.mem_cons, mem_preorderOf] at member
      rcases member with rfl | ⟨c, child, below⟩
      · exact here
      · exact ih c child (down _ here c child) m below

theorem mem_preorder_of_child {root n c : Node} (member : n ∈ root.preorder)
    (child : c ∈ n.children) : c ∈ root.preorder := by
  induction root using Node.induction with
  | leaf l gap text =>
      rw [preorder, List.mem_singleton] at member
      subst member
      cases child
  | branch l cs ih =>
      rw [preorder, List.mem_cons, mem_preorderOf] at member ⊢
      rcases member with rfl | ⟨d, inside, below⟩
      · exact .inr ⟨c, child, c.mem_preorder_self⟩
      · exact .inr ⟨d, inside, ih d inside below⟩

theorem sublist_preorderOf (cs : List Node) : cs.Sublist (preorderOf cs) := by
  induction cs with
  | nil => exact .slnil
  | cons c cs ih =>
      rw [preorderOf, ← List.singleton_append]
      exact (List.singleton_sublist.mpr c.mem_preorder_self).append ih

theorem preorder_sublist_preorderOf {cs : List Node} {c : Node} (member : c ∈ cs) :
    c.preorder.Sublist (preorderOf cs) := by
  induction cs with
  | nil => cases member
  | cons d cs ih =>
      rw [preorderOf]
      rcases List.mem_cons.mp member with rfl | member
      · exact List.sublist_append_left _ _
      · exact (ih member).trans (List.sublist_append_right _ _)

theorem preorder_sublist {root n : Node} (member : n ∈ root.preorder) :
    n.preorder.Sublist root.preorder := by
  induction root using Node.induction with
  | leaf l gap text =>
      rw [preorder, List.mem_singleton] at member
      rw [member]
  | branch l cs ih =>
      rw [preorder, List.mem_cons, mem_preorderOf] at member
      rcases member with rfl | ⟨c, child, below⟩
      · exact .refl _
      · rw [preorder]
        exact ((ih c child below).trans (preorder_sublist_preorderOf child)).cons _

/-! ## Levels -/

theorem depth_pos (n : Node) : 0 < n.depth := by
  cases n <;> simp [depth]

theorem depth_le_depthOf {cs : List Node} {c : Node} (member : c ∈ cs) :
    c.depth ≤ depthOf cs := by
  induction cs with
  | nil => cases member
  | cons d cs ih =>
      rcases List.mem_cons.mp member with rfl | member
      · exact Nat.le_max_left _ _
      · exact Nat.le_trans (ih member) (Nat.le_max_right _ _)

theorem depth_child {n c : Node} (child : c ∈ n.children) : c.depth < n.depth := by
  cases n with
  | leaf l gap text => cases child
  | branch l cs =>
      rw [depth]
      exact Nat.lt_succ_of_le (depth_le_depthOf child)

theorem mem_children_of_mem_parts {n p : Node} (part : p ∈ n.parts) : p ∈ n.children :=
  List.mem_of_mem_filter (List.mem_of_mem_filter part)

/-! ## Identities -/

/-- Numbering a node numbers everything below it in turn. -/
def NumbersInTurn (n : Node) : Prop :=
  ∀ next, (n.numberFrom next).1.preorder.map id = List.range' next n.preorder.length ∧
    (n.numberFrom next).2 = next + n.preorder.length

theorem numberAll_inTurn {cs : List Node} (each : ∀ c ∈ cs, c.NumbersInTurn) (next : Nat) :
    (preorderOf (numberAll next cs).1).map id = List.range' next (preorderOf cs).length ∧
      (numberAll next cs).2 = next + (preorderOf cs).length := by
  induction cs generalizing next with
  | nil => simp [numberAll, preorderOf]
  | cons c cs ih =>
      obtain ⟨first, others⟩ := List.forall_mem_cons.mp each
      obtain ⟨ids, behind⟩ := first next
      obtain ⟨laterIds, laterBehind⟩ := ih others (c.numberFrom next).2
      rw [behind] at laterIds laterBehind
      simp only [numberAll, preorderOf, List.map_append, List.length_append, behind, ids, laterIds,
        laterBehind, List.range'_append_1, Nat.add_assoc, and_self]

theorem numbersInTurn (n : Node) : n.NumbersInTurn := by
  induction n using Node.induction with
  | leaf l gap text => intro next; simp [numberFrom, preorder, id, label]
  | branch l cs ih =>
      intro next
      obtain ⟨ids, behind⟩ := numberAll_inTurn ih (next + 1)
      simp only [numberFrom, preorder, List.map_cons, List.length_cons, ids, behind,
        List.range'_succ]
      exact ⟨rfl, by omega⟩

/-- Every node of a numbered tree is the only one with its identity. -/
theorem numbered_ids_nodup (n : Node) : (n.numbered.preorder.map id).Nodup := by
  rw [numbered, (n.numbersInTurn 1).1]
  exact List.nodup_range'

theorem numbered_preorder_nodup (n : Node) : n.numbered.preorder.Nodup :=
  n.numbered_ids_nodup.of_map id

/-! ## Building trees -/

/-- A leaf without blanks. -/
def word (kind : Kind) (text : String) (f : Option Field := none) : Node :=
  .leaf { kind, field := f } "" text

def sign (text : String) (f : Option Field := none) : Node := word .token text f

def construct (kind : Kind) (cs : List Node) (f : Option Field := none) : Node :=
  .branch { kind, field := f } cs

/-- The node, but on one row. -/
def onRow (n : Node) (row : Nat) : Node :=
  n.setLabel { n.label with extent := { startRow := row, stopRow := row } }

end Node

end GomegaLint
