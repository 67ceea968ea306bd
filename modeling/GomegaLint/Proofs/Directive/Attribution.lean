import Mathlib
import GomegaLint.Proofs.Directive.StatementLists

/-!
# Comments are given out once

Two walks find the comments that count at a statement: one upwards from it, and one to the comment
behind it.  Over a whole row of siblings the walks of all statements share the comments out
(`Site.inOrder_append_leftAtEnd`): read in the order of the row, what counts at the first statement,
then what counts at the second, and so on, and at last what no statement takes, are the comments of
the row.  So a comment counts at one statement at most, and this stands next to it
(`Site.comments_given_out`).
-/

namespace GomegaLint

namespace Site

/-! ## One statement -/

/-- The comments above the next statement of a row, in order, if it comes behind these siblings. -/
def pending (before : List Node) : List Node := (above (before.filter Node.isNamed)).reverse

/-- The comments that count at the site, in the order of the row. -/
def inOrder (s : Site) : List Node :=
  pending s.before ++ trailing s.statement (s.after.filter Node.isNamed)

theorem inOrder_perm (s : Site) : s.inOrder.Perm s.comments :=
  (List.reverse_perm _).append_right _

/-- Of the siblings on one side of a statement, nearest first, no statement comes before the
comment. -/
def Borders (side : List Node) (c : Node) : Prop :=
  ∃ nearer farther, side = nearer ++ c :: farther ∧ ∀ n ∈ nearer, n.isPart = false

theorem Borders.cons {side : List Node} {c n : Node} (borders : Borders side c)
    (skipped : n.isPart = false) : Borders (n :: side) c := by
  obtain ⟨nearer, farther, rfl, others⟩ := borders
  exact ⟨n :: nearer, farther, rfl, List.forall_mem_cons.mpr ⟨skipped, others⟩⟩

theorem borders_of_mem_takeWhile {side : List Node} {c : Node}
    (member : c ∈ (side.filter Node.isNamed).takeWhile Node.isComment) : Borders side c := by
  induction side with
  | nil => cases member
  | cons n side ih =>
      cases named : n.isNamed with
      | false =>
          rw [List.filter_cons_of_neg (by simp [named])] at member
          exact (ih member).cons (by simp [Node.isPart, named])
      | true =>
          rw [List.filter_cons_of_pos named, List.takeWhile_cons] at member
          split at member
          · rename_i comment
            rcases List.mem_cons.mp member with rfl | member
            · exact ⟨[], side, rfl, List.forall_mem_nil _⟩
            · exact (ih member).cons (by simp [Node.isPart, comment])
          · cases member

theorem mem_takeWhile_of_mem_above {c : Node} {ns : List Node} (member : c ∈ above ns) :
    c ∈ ns.takeWhile Node.isComment := by
  fun_induction above ns with
  | case1 => cases member
  | case2 d comment => simpa [comment] using member
  | case3 => cases member
  | case4 d comment b rest apart ih =>
      rw [List.takeWhile_cons_of_pos comment]
      rcases List.mem_cons.mp member with rfl | member
      · exact List.mem_cons_self
      · exact List.mem_cons_of_mem _ (ih member)
  | case5 => cases member

/-- The statement stands next to the comments that count at it. -/
theorem Heeds.borders {s : Site} {c : Node} (heeds : s.Heeds c) :
    c.isComment = true ∧ (Borders s.before c ∨ Borders s.after c) := by
  rcases List.mem_append.mp heeds with above | trailing
  · have near := mem_takeWhile_of_mem_above above
    exact ⟨List.mem_takeWhile_imp near, .inl (borders_of_mem_takeWhile near)⟩
  · rw [trailing_eq] at trailing
    have near : c ∈ s.commentsBehind := List.mem_of_mem_take (List.mem_of_mem_filter trailing)
    exact ⟨List.mem_takeWhile_imp near, .inr (borders_of_mem_takeWhile near)⟩

/-! ## A row of statements -/

/-- The statements of a row in their places. -/
def statements (row : List Node) : List Site :=
  (Node.sitesBehind [] row).filter (·.statement.isPart)

theorem mem_statements {row : List Node} {s : Site} :
    s ∈ statements row ↔ s.row = row ∧ s.statement.isPart = true := by
  rw [statements, List.mem_filter]
  exact and_congr_left' (Node.mem_sites (n := .branch default row))

/-- The comments behind the last statement, without the one that trails it. -/
def leftAtEnd (row : List Node) : List Node := pending row.reverse

/-- The comment that trails the statement just passed, if no comment has been passed since. -/
def due (before cs : List Node) : List Node :=
  match (before.filter Node.isNamed).head? with
  | some p => if p.isComment then [] else trailing p (cs.filter Node.isNamed)
  | none => []

theorem due_cons_token {n : Node} (token : n.isNamed = false) (before cs : List Node) :
    due before (n :: cs) = due (n :: before) cs := by
  simp [due, token]

theorem pending_cons_token {n : Node} (token : n.isNamed = false) (before : List Node) :
    pending (n :: before) = pending before := by
  simp [pending, token]

/-- A comment is due to the statement before it, or else pending for the next one. -/
theorem due_append_pending {c : Node} (comment : c.isComment = true) (before cs : List Node) :
    due before (c :: cs) ++ pending (c :: before) = pending before ++ [c] := by
  have named := Node.isNamed_of_isComment comment
  rw [due, pending, pending, List.filter_cons_of_pos named, List.filter_cons_of_pos named]
  cases before.filter Node.isNamed with
  | nil => simp [above, comment]
  | cons b bs =>
      cases behindComment : b.isComment with
      | true => simp [above, comment, behindComment]
      | false =>
          by_cases sameRow : c.extent.startRow = b.extent.stopRow
          · simp [above, trailing, comment, behindComment, sameRow]
          · simp [above, trailing, comment, behindComment, sameRow, Ne.symm sameRow]

theorem due_cons_comment {c : Node} (comment : c.isComment = true) (before cs : List Node) :
    due (c :: before) cs = [] := by
  simp [due, Node.isNamed_of_isComment comment, comment]

section

variable {p : Node} (statement : p.isPart = true) (before cs : List Node)

include statement

/-- Nothing is due to a statement that another one follows. -/
theorem due_before_statement : due before (p :: cs) = [] := by
  obtain ⟨named, noComment⟩ := Node.isPart_iff.mp statement
  rw [due]
  split
  · simp [trailing, named, noComment]
  · rfl

theorem pending_cons_statement : pending (p :: before) = [] := by
  obtain ⟨named, noComment⟩ := Node.isPart_iff.mp statement
  simp [pending, above, named, noComment]

/-- What counts at a statement was pending before it or is due to it. -/
theorem inOrder_eq : inOrder ⟨before, p, cs⟩ = pending before ++ due (p :: before) cs := by
  obtain ⟨named, noComment⟩ := Node.isPart_iff.mp statement
  simp [inOrder, due, named, noComment]

end

/-- The comments of the rest of a row, behind those that are pending, are what is due to the
statement just passed, what counts at the statements to come, and what is left at the end. -/
theorem due_append_inOrder (before cs : List Node) :
    due before cs ++ ((Node.sitesBehind before cs).filter (·.statement.isPart)).flatMap inOrder ++
        pending (cs.reverse ++ before) =
      pending before ++ cs.filter Node.isComment := by
  induction cs generalizing before with
  | nil =>
      have nothingDue : due before [] = [] := by
        cases nearest : (before.filter Node.isNamed).head? <;> simp [due, nearest, trailing]
      simp [nothingDue, Node.sitesBehind]
  | cons n cs ih =>
      have behind := ih (n :: before)
      have place : (n :: cs).reverse ++ before = cs.reverse ++ n :: before := by simp
      rw [Node.sitesBehind, place]
      cases statement : n.isPart with
      | true =>
          have noComment := (Node.isPart_iff.mp statement).2
          rw [pending_cons_statement statement, List.nil_append] at behind
          rw [List.filter_cons_of_pos (by exact statement), List.flatMap_cons,
            inOrder_eq statement, due_before_statement statement,
            List.filter_cons_of_neg (by simp [noComment]), ← behind]
          simp
      | false =>
          rw [List.filter_cons_of_neg (by simp [statement])]
          cases comment : n.isComment with
          | true =>
              rw [due_cons_comment comment, List.nil_append] at behind
              rw [List.append_assoc, behind, ← List.append_assoc, due_append_pending comment,
                List.filter_cons_of_pos comment]
              simp
          | false =>
              have token : n.isNamed = false := by simpa [Node.isPart, comment] using statement
              rw [due_cons_token token, behind, pending_cons_token token,
                List.filter_cons_of_neg (by simp [comment])]

/-- The comments of a row are those that count at its statements, in their order, and those left
at the end. -/
theorem inOrder_append_leftAtEnd (row : List Node) :
    (statements row).flatMap inOrder ++ leftAtEnd row = row.filter Node.isComment := by
  simpa [due, pending, above, leftAtEnd, statements] using due_append_inOrder [] row

/-- In a row of different nodes a comment counts at one place at most. -/
theorem heeds_unique {s s' : Site} {c : Node} (distinct : s.row.Nodup) (sameRow : s'.row = s.row)
    (statement : s.statement.isPart = true) (statement' : s'.statement.isPart = true)
    (heeds : s.Heeds c) (heeds' : s'.Heeds c) : s = s' := by
  have once : ((statements s.row).flatMap inOrder).Nodup := by
    have all := distinct.filter Node.isComment
    rw [← inOrder_append_leftAtEnd] at all
    exact all.of_append_left
  have apart := (List.nodup_flatMap.mp once).2
  have symmetric : Std.Symm (Function.onFun List.Disjoint inOrder) := ⟨fun _ _ => .symm⟩
  by_contra different
  have disjoint := apart.forall (mem_statements.mpr ⟨rfl, statement⟩)
    (mem_statements.mpr ⟨sameRow, statement'⟩) different
  exact disjoint (s.inOrder_perm.mem_iff.mpr heeds) (s'.inOrder_perm.mem_iff.mpr heeds')

/-- **A comment counts at one statement at most.**  Take any row of siblings, on whatever rows of
the text they lie.  In the order of the row, the comments that count at its statements and then
those left at the end are the comments of the row, each once.

A statement has the directives of the comments that count at it and no others.  Each of them
stands next to it: on one of its two sides no other statement comes before the comment.  Where the
siblings are different nodes, no comment counts at two of the statements. -/
theorem comments_given_out (row : List Node) :
    (statements row).flatMap inOrder ++ leftAtEnd row = row.filter Node.isComment ∧
      ∀ s : Site, s.row = row → s.statement.isPart = true →
        s ∈ statements row ∧ s.inOrder.Perm s.comments ∧
          (∀ k, s.scope.silences k = true ↔
            ∃ c, s.Heeds c ∧ (Scope.ofComment c.text).silences k = true) ∧
          ∀ c, s.Heeds c → c ∈ row ∧ c.isComment = true ∧
            (Borders s.before c ∨ Borders s.after c) ∧
            (row.Nodup → ∀ s' : Site, s'.row = row → s'.statement.isPart = true →
              s'.Heeds c → s' = s) := by
  refine ⟨inOrder_append_leftAtEnd row, ?_⟩
  rintro s rfl statement
  refine ⟨mem_statements.mpr ⟨rfl, statement⟩, s.inOrder_perm, fun _ => silences_iff, ?_⟩
  intro c heeds
  have inRow : c ∈ s.row := by
    rcases heeds.mem_outside with before | after
    · simp [row, before]
    · simp [row, after]
  refine ⟨inRow, heeds.borders.1, heeds.borders.2, fun distinct s' sameRow statement' heeds' => ?_⟩
  exact (heeds_unique distinct sameRow statement statement' heeds heeds').symm

open Neighbours in
/-- Of two comments behind a statement the second counts at the statement below, so it does not
count at the first. -/
theorem comments_given_out_trailedTwice :
    trailedTwice.row.Nodup ∧ trailedTwice.secondSite.Heeds secondTrailer ∧
      Borders trailedTwice.secondSite.before secondTrailer ∧
      ¬ trailedTwice.firstSite.Heeds secondTrailer := by
  have distinct : trailedTwice.row.Nodup := .of_map Node.id (by decide)
  have heeds : trailedTwice.secondSite.Heeds secondTrailer := List.mem_singleton_self _
  obtain ⟨-, -, -, counts⟩ :=
    (comments_given_out trailedTwice.row).2 trailedTwice.secondSite rfl rfl
  obtain ⟨-, -, borders, unique⟩ := counts secondTrailer heeds
  refine ⟨distinct, heeds, borders.resolve_right fun behind => ?_, fun first => ?_⟩
  · obtain ⟨nearer, farther, nothing, -⟩ := behind
    simp [secondSite, trailedTwice] at nothing
  · have same := unique distinct trailedTwice.firstSite rfl rfl first
    have before := congrArg (List.length ∘ Site.before) same
    simp [firstSite, secondSite, trailedTwice] at before

end Site

end GomegaLint
