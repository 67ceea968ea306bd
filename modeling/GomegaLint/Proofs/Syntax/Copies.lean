import Mathlib
import GomegaLint.Proofs.Syntax.Tree

/-!
# Copies of trees

A copy of a tree has nodes of the same kinds and roles, with the same texts and in the same order;
their identities and places are others.  Reading a copy gives the copies of what reading the tree
gives, by one lemma for each way of reading.
-/

namespace GomegaLint

/-- New identities and places for the nodes of a tree.  Different nodes stay different. -/
structure Relabelling where
  id : Nat → Nat
  extent : Label → Extent
  id_injective : Function.Injective id

namespace Relabelling

/-- Every node stays what it is. -/
def same : Relabelling := ⟨fun i => i, Label.extent, fun _ _ same => same⟩

/-- The identities are moved up, and the places are kept. -/
def shift (k : Nat) : Relabelling := ⟨(· + k), Label.extent, fun _ _ => Nat.add_right_cancel⟩

def label (f : Relabelling) (l : Label) : Label := { l with id := f.id l.id, extent := f.extent l }

end Relabelling

namespace Node

mutual

/-- The copy of a tree with other identities and places. -/
def relabel (f : Relabelling) : Node → Node
  | leaf l gap text => leaf (f.label l) gap text
  | branch l cs => branch (f.label l) (relabelAll f cs)

def relabelAll (f : Relabelling) : List Node → List Node
  | [] => []
  | c :: cs => c.relabel f :: relabelAll f cs

end

variable (f : Relabelling) (n : Node)

theorem relabelAll_eq (cs : List Node) : relabelAll f cs = cs.map (relabel f) := by
  induction cs with
  | nil => rfl
  | cons c cs ih => rw [relabelAll, ih, List.map_cons]

theorem relabel_same (n : Node) : n.relabel .same = n := by
  induction n using Node.induction with
  | leaf => rfl
  | branch l cs ih =>
      rw [relabel, relabelAll_eq, List.map_congr_left ih, List.map_id']
      rfl

theorem map_relabel_same (cs : List Node) : cs.map (relabel .same) = cs := by
  rw [funext relabel_same, List.map_id']

/-! ## Labels -/

theorem label_relabel : (n.relabel f).label = f.label n.label := by
  cases n <;> rfl

@[simp] theorem kind_relabel : (n.relabel f).kind = n.kind := by
  rw [kind, label_relabel]
  rfl

@[simp] theorem id_relabel : (n.relabel f).id = f.id n.id := by
  rw [id, label_relabel]
  rfl

@[simp] theorem field_relabel : (n.relabel f).label.field = n.label.field := by
  rw [label_relabel]
  rfl

@[simp] theorem isNamed_relabel : (n.relabel f).isNamed = n.isNamed := by
  simp [isNamed]

@[simp] theorem isComment_relabel : (n.relabel f).isComment = n.isComment := by
  simp [isComment]

/-! ## Children -/

@[simp] theorem children_relabel : (n.relabel f).children = n.children.map (relabel f) := by
  cases n with
  | leaf => rfl
  | branch l cs => exact relabelAll_eq f cs

theorem filter_relabel {p : Node → Bool} (kept : ∀ c, p (c.relabel f) = p c) (cs : List Node) :
    (cs.map (relabel f)).filter p = (cs.filter p).map (relabel f) := by
  rw [List.filter_map]
  exact congrArg _ (List.filter_congr fun c _ => kept c)

@[simp] theorem namedChildren_relabel :
    (n.relabel f).namedChildren = n.namedChildren.map (relabel f) := by
  rw [namedChildren, children_relabel, filter_relabel f (isNamed_relabel f), namedChildren]

@[simp] theorem parts_relabel : (n.relabel f).parts = n.parts.map (relabel f) := by
  rw [parts, namedChildren_relabel, filter_relabel f (by simp), parts]

@[simp] theorem firstNamed?_relabel :
    (n.relabel f).firstNamed? = n.firstNamed?.map (relabel f) := by
  rw [firstNamed?, namedChildren_relabel, List.head?_map, firstNamed?]

@[simp] theorem childrenAs_relabel (role : Field) :
    (n.relabel f).childrenAs role = (n.childrenAs role).map (relabel f) := by
  rw [childrenAs, children_relabel, filter_relabel f fun c => by rw [field_relabel], childrenAs]

@[simp] theorem child?_relabel (role : Field) :
    (n.relabel f).child? role = (n.child? role).map (relabel f) := by
  rw [child?, children_relabel, List.find?_map, child?]
  simp only [Function.comp_def, field_relabel]

@[simp] theorem listed_relabel : (n.relabel f).listed = n.listed.map (relabel f) := by
  rw [listed, listed, kind_relabel, parts_relabel]
  split <;> rfl

/-! ## Text and depth -/

theorem text_gap_relabel : (n.relabel f).text = n.text ∧ (n.relabel f).gap = n.gap := by
  induction n using Node.induction with
  | leaf => exact ⟨rfl, rfl⟩
  | branch l cs ih =>
      have spaced (cs : List Node) (ih : ∀ c ∈ cs,
          (c.relabel f).text = c.text ∧ (c.relabel f).gap = c.gap) :
          spacedText (relabelAll f cs) = spacedText cs := by
        induction cs with
        | nil => rfl
        | cons c cs behind =>
            obtain ⟨⟨text, gap⟩, others⟩ := List.forall_mem_cons.mp ih
            rw [relabelAll, spacedText, spacedText, text, gap, behind others]
      cases cs with
      | nil => exact ⟨rfl, rfl⟩
      | cons c cs =>
          obtain ⟨⟨text, gap⟩, others⟩ := List.forall_mem_cons.mp ih
          constructor
          · simp only [relabel, relabelAll, Node.text, textOf, text, spaced cs others]
          · simp only [relabel, relabelAll, Node.gap, gapOf, gap]

@[simp] theorem text_relabel : (n.relabel f).text = n.text := (text_gap_relabel f n).1

@[simp] theorem depth_relabel : (n.relabel f).depth = n.depth := by
  induction n using Node.induction with
  | leaf => rfl
  | branch l cs ih =>
      rw [relabel, depth, depth, Nat.add_right_cancel_iff]
      induction cs with
      | nil => rfl
      | cons c cs behind =>
          obtain ⟨first, others⟩ := List.forall_mem_cons.mp ih
          rw [relabelAll, depthOf, depthOf, first, behind others]

@[simp] theorem hasToken_relabel (t : String) : (n.relabel f).hasToken t = n.hasToken t := by
  simp [hasToken, isToken, Function.comp_def]

end Node

end GomegaLint
