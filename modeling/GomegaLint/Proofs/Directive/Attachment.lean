import Mathlib
import GomegaLint.Directive.Site
import GomegaLint.Proofs.Syntax.Tree

/-!
# Comments between statements

The comments between two neighbouring statements of a row are shared out between them
(`Neighbours.shared_out`): the first of them goes to the statement before, if it starts on the
row where that statement ends, and all others go to the statement behind.

So a statement heeds one comment behind it and no more.  Of several comments on its last line
the first is its own and the others are those of the next statement, however far below it
stands (`Neighbours.heeds_trailing_iff`).
-/

namespace GomegaLint

/-- The comment starts on the row where the node ends. -/
def Node.trails (c p : Node) : Bool := c.extent.startRow == p.extent.stopRow

namespace Site

/-- The comment counts at the site: its directives make up the scope, with those of the other
comments that count. -/
def Heeds (s : Site) (c : Node) : Prop := c ∈ s.comments

theorem silences_iff {s : Site} {k : Category} :
    s.scope.silences k = true ↔ ∃ c, s.Heeds c ∧ (Scope.ofComment c.text).silences k = true := by
  simp [scope, Scope.ofComments, Scope.silences, Heeds]

/-! ## Above and behind -/

/-- The comments behind a statement that are left to the next one. -/
def leftOver (p : Node) : List Node → List Node
  | [] => []
  | c :: cs => if c.trails p then cs else c :: cs

theorem leftOver_append {p : Node} {cs : List Node} (some_comment : cs ≠ []) (c : Node) :
    leftOver p (cs ++ [c]) = leftOver p cs ++ [c] := by
  obtain ⟨d, ds, rfl⟩ := List.exists_cons_of_ne_nil some_comment
  cases trails : d.trails p <;> simp [leftOver, trails]

/-- Above a statement stands what the statement before it leaves over. -/
theorem above_behind {p : Node} (statement : p.isComment = false) (farther : List Node)
    {cs : List Node} (comments : ∀ c ∈ cs, c.isComment = true) :
    above (cs.reverse ++ p :: farther) = (leftOver p cs).reverse := by
  -- The walk goes upwards, so the induction takes the comments from the last one on.
  induction cs using List.reverseRecOn with
  | nil => simp [above, leftOver, statement]
  | append_singleton cs c ih =>
      have comment : c.isComment = true := comments c (by simp)
      rw [List.reverse_append, List.reverse_singleton, List.singleton_append, List.cons_append]
      rcases cs.eq_nil_or_concat with rfl | ⟨ds, d, rfl⟩
      · by_cases sameRow : c.extent.startRow = p.extent.stopRow
        · simp [above, leftOver, Node.trails, comment, statement, sameRow]
        · simp [above, leftOver, Node.trails, comment, statement, sameRow, Ne.symm sameRow]
      · have behindComment : d.isComment = true := comments d (by simp)
        have here := ih fun e member => comments e (List.mem_append_left _ member)
        rw [leftOver_append (by simp), List.reverse_append, ← here]
        simp [above, comment, behindComment]

/-- Without a statement before it, all comments are above the statement. -/
theorem above_comments {cs : List Node} (comments : ∀ c ∈ cs, c.isComment = true) :
    above cs = cs := by
  induction cs with
  | nil => rfl
  | cons c cs ih =>
      obtain ⟨comment, others⟩ := List.forall_mem_cons.mp comments
      cases cs with
      | nil => simp [above, comment]
      | cons d ds =>
          have behindComment := others d List.mem_cons_self
          rw [above, if_pos comment]
          simp [behindComment, ih others]

/-- What a statement does not leave over is its own. -/
theorem trailing_append_leftOver (p : Node) {cs farther : List Node}
    (comments : ∀ c ∈ cs, c.isComment = true)
    (ended : ∀ q ∈ farther.head?, q.isComment = false) :
    trailing p (cs ++ farther) ++ leftOver p cs = cs := by
  cases cs with
  | nil =>
      cases farther with
      | nil => rfl
      | cons q farther => simp [trailing, leftOver, ended q rfl]
  | cons c cs =>
      have comment := comments c List.mem_cons_self
      by_cases sameRow : c.extent.startRow = p.extent.stopRow <;>
        simp [trailing, leftOver, Node.trails, comment, sameRow]

theorem mem_of_mem_above {c : Node} {ns : List Node} (member : c ∈ above ns) : c ∈ ns := by
  fun_induction above ns with
  | case1 => cases member
  | case2 d comment => exact member
  | case3 => cases member
  | case4 d comment b rest apart ih =>
      rcases List.mem_cons.mp member with rfl | member
      · exact List.mem_cons_self
      · exact List.mem_cons_of_mem _ (ih member)
  | case5 => cases member

theorem mem_of_mem_trailing {c p : Node} {ns : List Node} (member : c ∈ trailing p ns) :
    c ∈ ns := by
  cases ns with
  | nil => cases member
  | cons d ns =>
      rw [trailing] at member
      split at member
      · exact List.mem_singleton.mp member ▸ List.mem_cons_self
      · cases member

end Site

/-! ## Neighbours -/

/-- Two statements of a row with nothing but comments and terminators between them.  What stands
before the first is listed nearest first. -/
structure Neighbours where
  before : List Node
  first : Node
  between : List Node
  second : Node
  after : List Node
  first_isPart : first.isPart = true
  between_isPart : ∀ n ∈ between, n.isPart = false
  second_isPart : second.isPart = true

namespace Neighbours

variable (s : Neighbours)

/-- The whole row. -/
def row : List Node := s.before.reverse ++ s.first :: (s.between ++ s.second :: s.after)

def firstSite : Site := ⟨s.before, s.first, s.between ++ s.second :: s.after⟩

def secondSite : Site := ⟨s.between.reverse ++ s.first :: s.before, s.second, s.after⟩

/-- The comments between the two. -/
def comments : List Node := s.between.filter Node.isComment

theorem isComment_of_mem {c : Node} (member : c ∈ s.comments) : c.isComment = true :=
  (List.mem_filter.mp member).2

/-- The named nodes between the two are the comments. -/
theorem filter_isNamed : s.between.filter Node.isNamed = s.comments := by
  refine List.filter_congr fun n member => ?_
  cases comment : n.isComment with
  | true => exact Node.isNamed_of_isComment comment
  | false => simpa [Node.isPart, comment] using s.between_isPart n member

theorem before_second : s.secondSite.before.filter Node.isNamed =
    s.comments.reverse ++ s.first :: s.before.filter Node.isNamed := by
  rw [secondSite, List.filter_append, List.filter_reverse, filter_isNamed,
    List.filter_cons_of_pos (Node.isPart_iff.mp s.first_isPart).1]

theorem after_first : s.firstSite.after.filter Node.isNamed =
    s.comments ++ s.second :: s.after.filter Node.isNamed := by
  rw [firstSite, List.filter_append, filter_isNamed,
    List.filter_cons_of_pos (Node.isPart_iff.mp s.second_isPart).1]

/-- Above the second statement are the comments that the first leaves over. -/
theorem above_second : Site.above (s.secondSite.before.filter Node.isNamed) =
    (Site.leftOver s.first s.comments).reverse := by
  rw [before_second, Site.above_behind (Node.isPart_iff.mp s.first_isPart).2 _
    fun _ => s.isComment_of_mem]

/-- **Every comment between two statements goes to one of them:** in their order, first come
those that trail the first statement, then those above the second. -/
theorem shared_out :
    Site.trailing s.first (s.firstSite.after.filter Node.isNamed) ++
      (Site.above (s.secondSite.before.filter Node.isNamed)).reverse = s.comments := by
  have ended : s.second.isComment = false := (Node.isPart_iff.mp s.second_isPart).2
  rw [above_second, List.reverse_reverse, after_first]
  exact Site.trailing_append_leftOver s.first (fun _ => s.isComment_of_mem) (by simpa using ended)

variable {s} {c : Node}

/-- Where the nodes of the row are different, a comment between the two stands nowhere else. -/
theorem not_mem_outside (distinct : s.row.Nodup) (member : c ∈ s.comments) :
    c ∉ s.before ∧ c ∉ s.after := by
  have inside : c ∈ s.between := List.mem_of_mem_filter member
  simp only [row, List.nodup_append, List.nodup_cons, List.mem_reverse, List.mem_cons,
    List.mem_append] at distinct
  obtain ⟨-, ⟨-, -, -, apart⟩, outside⟩ := distinct
  exact ⟨fun before => outside c before c (.inr (.inl inside)) rfl,
    fun after => apart c inside c (.inr after) rfl⟩

theorem nodup_comments (distinct : s.row.Nodup) : s.comments.Nodup := by
  refine distinct.sublist (List.filter_sublist.trans ?_)
  exact ((List.sublist_append_left _ _).cons _).trans (List.sublist_append_right _ _)

/-- Of the comments between the two, the first statement heeds those that trail it. -/
theorem heeds_first_iff (distinct : s.row.Nodup) (member : c ∈ s.comments) :
    s.firstSite.Heeds c ↔ c ∈ Site.trailing s.first (s.firstSite.after.filter Node.isNamed) := by
  have outside : c ∉ Site.above (s.before.filter Node.isNamed) := fun above =>
    (not_mem_outside distinct member).1 (List.mem_of_mem_filter (Site.mem_of_mem_above above))
  simp [Site.Heeds, Site.comments, firstSite, outside]

/-- Of the comments between the two, the second statement heeds those that are left over. -/
theorem heeds_second_iff (distinct : s.row.Nodup) (member : c ∈ s.comments) :
    s.secondSite.Heeds c ↔ c ∈ Site.leftOver s.first s.comments := by
  have outside : c ∉ Site.trailing s.second (s.after.filter Node.isNamed) := fun trailing =>
    (not_mem_outside distinct member).2 (List.mem_of_mem_filter (Site.mem_of_mem_trailing trailing))
  rw [Site.Heeds, Site.comments, above_second]
  simp [secondSite, outside]

/-- A comment between two statements counts at one of them and not at the other. -/
theorem heeds_first_iff_not_second (distinct : s.row.Nodup) (member : c ∈ s.comments) :
    s.firstSite.Heeds c ↔ ¬ s.secondSite.Heeds c := by
  rw [heeds_first_iff distinct member, heeds_second_iff distinct member]
  have shared := s.shared_out
  rw [above_second, List.reverse_reverse] at shared
  have once := shared ▸ nodup_comments distinct
  rw [← shared, List.mem_append] at member
  exact ⟨fun own left => (List.nodup_append.mp once).2.2 c own c left rfl,
    fun notLeft => member.resolve_right notLeft⟩

/-- **Of the comments on the last line of a statement only the first is its own.**  A comment
that starts on the row where the statement before it ends counts at that statement exactly if no
other comment stands between them; else it counts at the next statement.  The nodes are told
apart by their identities, which no two nodes of a file share (`Node.numbered_preorder_nodup`). -/
theorem heeds_trailing_iff (distinct : s.row.Nodup) {earlier later : List Node}
    (place : s.between = earlier ++ c :: later) (comment : c.isComment = true)
    (sameRow : c.extent.startRow = s.first.extent.stopRow) :
    (s.firstSite.Heeds c ↔ ∀ n ∈ earlier, n.isComment = false) ∧
      (s.secondSite.Heeds c ↔ ∃ n ∈ earlier, n.isComment = true) := by
  have order : s.comments = earlier.filter Node.isComment ++ c :: later.filter Node.isComment := by
    rw [comments, place, List.filter_append, List.filter_cons_of_pos comment]
  have member : c ∈ s.comments := by rw [order]; simp
  have once := nodup_comments distinct
  have second : s.secondSite.Heeds c ↔ ∃ n ∈ earlier, n.isComment = true := by
    rw [heeds_second_iff distinct member]
    rw [order] at once ⊢
    cases earlierComments : earlier.filter Node.isComment with
    | nil =>
        have trails : c.trails s.first = true := by simpa [Node.trails] using sameRow
        have notLater : c ∉ later.filter Node.isComment := by
          rw [earlierComments, List.nil_append] at once
          exact (List.nodup_cons.mp once).1
        rw [List.nil_append, Site.leftOver, if_pos trails]
        simpa [notLater] using earlierComments
    | cons d ds =>
        have inEarlier : d ∈ earlier.filter Node.isComment := earlierComments ▸ List.mem_cons_self
        have left : c ∈ Site.leftOver s.first (d :: ds ++ c :: later.filter Node.isComment) := by
          rw [List.cons_append, Site.leftOver]
          split <;> simp
        exact ⟨fun _ => ⟨d, List.mem_filter.mp inEarlier⟩, fun _ => left⟩
  refine ⟨?_, second⟩
  rw [heeds_first_iff_not_second distinct member, second]
  simp

/-- A leaf on one row. -/
def leafOn (kind : Kind) (id row : Nat) (text : String) : Node :=
  .leaf { kind, id, extent := { startRow := row, stopRow := row } } "" text

/-- The comment right behind the first statement. -/
def firstTrailer : Node := leafOn .comment 2 3 "/* ginkgo-linter:ignore-nil-assert-warning */"

/-- The comment behind that one. -/
def secondTrailer : Node := leafOn .comment 3 3 "// ginkgo-linter:ignore-length-warning"

/-- Two statements on two rows, and two comments behind the first. -/
def trailedTwice : Neighbours where
  before := []
  first := leafOn .expressionStatement 1 3 "f()"
  between := [firstTrailer, secondTrailer, leafOn .token 4 3 "\n"]
  second := leafOn .expressionStatement 5 4 "g()"
  after := []
  first_isPart := rfl
  between_isPart := by decide
  second_isPart := rfl

/-- The first of the two comments is that of the first statement. -/
theorem heeds_trailing_iff_trailedTwice :
    trailedTwice.row.Nodup ∧ trailedTwice.firstSite.Heeds firstTrailer ∧
      ¬ trailedTwice.secondSite.Heeds firstTrailer := by
  have distinct : trailedTwice.row.Nodup := .of_map Node.id (by decide)
  have counts := @heeds_trailing_iff trailedTwice firstTrailer distinct [] _ rfl rfl rfl
  exact ⟨distinct, counts.1.mpr (by simp), fun heeds => by simpa using counts.2.mp heeds⟩

/-- The second comment starts on the row where the first statement ends, and silences the
second statement below. -/
theorem trailedTwice_passesOn :
    secondTrailer.extent.startRow = trailedTwice.first.extent.stopRow ∧
      trailedTwice.first.extent.stopRow < trailedTwice.second.extent.startRow ∧
      trailedTwice.firstSite.comments = [firstTrailer] ∧
      trailedTwice.firstSite.scope.silences .length = false ∧
      trailedTwice.secondSite.comments = [secondTrailer] ∧
      trailedTwice.secondSite.scope.silences .length = true :=
  ⟨rfl, by decide, rfl, by decide +kernel, rfl, by decide +kernel⟩

end Neighbours

end GomegaLint
