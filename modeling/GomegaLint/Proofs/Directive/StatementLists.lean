import Mathlib
import GomegaLint.Proofs.Directive.Attachment
import GomegaLint.Proofs.Syntax.Conforms

/-!
# Directives in lists of statements

A statement stands in a list: the body of a block or of a clause of a switch or select.  The
comments attached to it are those directly above it in the list and those behind it on its last
row (`Site.attached`).

`Node.heeds_attached_iff` says where these are the comments that count for an assertion in the
statement.  In a block they are, unless one of two neighbouring statements is followed by more
than one comment on its last row.  In a clause they never are, unless there are none: what counts
is attached to the statement of a block, or of the file, that has the clause in it.
-/

namespace GomegaLint

namespace Site

/-- The siblings in their order. -/
def row (s : Site) : List Node := s.before.reverse ++ s.statement :: s.after

theorem statement_mem_row (s : Site) : s.statement ∈ s.row := by simp [row]

/-- The comments between the statement and the one before it, nearest first. -/
def commentsBefore (s : Site) : List Node :=
  (s.before.filter Node.isNamed).takeWhile Node.isComment

/-- The statement before. -/
def previous? (s : Site) : Option Node :=
  ((s.before.filter Node.isNamed).dropWhile Node.isComment).head?

/-- The comments between the statement and the one behind it. -/
def commentsBehind (s : Site) : List Node :=
  (s.after.filter Node.isNamed).takeWhile Node.isComment

/-- The comments above the statement that are not on the last row of the one before. -/
def directlyAbove (s : Site) : List Node :=
  s.commentsBefore.filter fun c => !s.previous?.any c.trails

/-- The comments behind the statement on its last row. -/
def onLastRow (s : Site) : List Node := s.commentsBehind.filter (·.trails s.statement)

/-- The comments that are attached to the statement. -/
def attached (s : Site) : List Node := s.directlyAbove ++ s.onLastRow

/-- No comment behind the first one is on the last row of the statement. -/
def TrailedOnce (p : Node) (cs : List Node) : Prop := ∀ c ∈ cs.tail, c.trails p = false

/-- Neither the statement nor the one before it is followed by two comments on its last row. -/
structure Clear (s : Site) : Prop where
  before : ∀ p ∈ s.previous?, TrailedOnce p s.commentsBefore.reverse
  behind : TrailedOnce s.statement s.commentsBehind

variable {s : Site} {c : Node}

theorem mem_before_of_mem_commentsBefore (member : c ∈ s.commentsBefore) : c ∈ s.before :=
  List.mem_of_mem_filter ((List.takeWhile_sublist _).subset member)

theorem mem_after_of_mem_commentsBehind (member : c ∈ s.commentsBehind) : c ∈ s.after :=
  List.mem_of_mem_filter ((List.takeWhile_sublist _).subset member)

/-! ## What counts in a list -/

theorem before_eq (s : Site) : s.before.filter Node.isNamed =
    s.commentsBefore ++ (s.before.filter Node.isNamed).dropWhile Node.isComment :=
  List.takeWhile_append_dropWhile.symm

/-- The first statement of a list has all comments before it above it. -/
theorem above_eq_of_none (first : s.previous? = none) :
    above (s.before.filter Node.isNamed) = s.commentsBefore := by
  rw [before_eq, List.head?_eq_none_iff.mp first, List.append_nil]
  exact above_comments fun _ => List.mem_takeWhile_imp

theorem above_eq_of_some {p : Node} (previous : s.previous? = some p) :
    above (s.before.filter Node.isNamed) = (leftOver p s.commentsBefore.reverse).reverse := by
  obtain ⟨ps, farther⟩ := List.head?_eq_some_iff.mp previous
  have statement : p.isComment = false := by
    simpa [farther] using List.head?_dropWhile_not Node.isComment (s.before.filter Node.isNamed)
  have comments : ∀ c ∈ s.commentsBefore.reverse, c.isComment = true := fun c member =>
    List.mem_takeWhile_imp (List.mem_reverse.mp member)
  have behind := above_behind statement ps comments
  rw [List.reverse_reverse] at behind
  rw [before_eq, farther, behind]

theorem trailing_eq (s : Site) : trailing s.statement (s.after.filter Node.isNamed) =
    (s.commentsBehind.take 1).filter (·.trails s.statement) := by
  rw [commentsBehind]
  cases s.after.filter Node.isNamed with
  | nil => rfl
  | cons c cs =>
      cases comment : c.isComment <;>
        simp [trailing, comment, List.filter_cons, Node.trails]

theorem leftOver_eq_filter {p : Node} {cs : List Node} (once : TrailedOnce p cs) :
    leftOver p cs = cs.filter fun c => !c.trails p := by
  cases cs with
  | nil => rfl
  | cons c cs =>
      have others : (cs.filter fun c => !c.trails p) = cs :=
        List.filter_eq_self.mpr fun d member => by simp [once d member]
      cases trails : c.trails p <;> simp [leftOver, trails, others]

theorem take_filter {p : Node} {cs : List Node} (once : TrailedOnce p cs) :
    (cs.take 1).filter (·.trails p) = cs.filter (·.trails p) := by
  cases cs with
  | nil => rfl
  | cons c cs =>
      have others : cs.filter (·.trails p) = [] :=
        List.filter_eq_nil_iff.mpr fun d member => by simp [once d member]
      simp [List.filter_cons, others]

/-- Where no statement is followed by two comments, what counts is what is attached. -/
theorem Clear.comments_eq (clear : s.Clear) : s.comments = s.attached := by
  have behind : trailing s.statement (s.after.filter Node.isNamed) = s.onLastRow := by
    rw [trailing_eq, onLastRow, take_filter clear.behind]
  have before : above (s.before.filter Node.isNamed) = s.directlyAbove := by
    rw [directlyAbove]
    cases previous : s.previous? with
    | none => simp [above_eq_of_none previous]
    | some p =>
        rw [above_eq_of_some previous, leftOver_eq_filter (clear.before p previous)]
        simp
  rw [comments, attached, behind, before]

theorem Clear.silences_iff (clear : s.Clear) {k : Category} : s.scope.silences k = true ↔
    ∃ c ∈ s.attached, (Scope.ofComment c.text).silences k = true := by
  rw [Site.silences_iff]
  simp only [Heeds, clear.comments_eq]

theorem Heeds.mem_outside (heeds : s.Heeds c) : c ∈ s.before ∨ c ∈ s.after := by
  rcases List.mem_append.mp heeds with above | trailing
  · exact .inl (List.mem_of_mem_filter (mem_of_mem_above above))
  · exact .inr (List.mem_of_mem_filter (mem_of_mem_trailing trailing))

theorem mem_outside_of_mem_attached (attached : c ∈ s.attached) : c ∈ s.before ∨ c ∈ s.after := by
  rcases List.mem_append.mp attached with above | behind
  · exact .inl (mem_before_of_mem_commentsBefore (List.mem_of_mem_filter above))
  · exact .inr (mem_after_of_mem_commentsBehind (List.mem_of_mem_filter behind))

theorem not_mem_after (distinct : s.row.Nodup) (before : c ∈ s.before) : c ∉ s.after :=
  fun after => (List.nodup_append.mp distinct).2.2 c (List.mem_reverse.mpr before) c
    (List.mem_cons_of_mem _ after) rfl

/-- In a row of different nodes, what counts is what is attached only if no statement is
followed by two comments. -/
theorem clear_of_heeds (distinct : s.row.Nodup) (same : ∀ c, s.Heeds c ↔ c ∈ s.attached) :
    s.Clear := by
  constructor
  · intro p previous c later
    -- The comment is left over by the statement before, so it counts and is attached.
    have left : c ∈ leftOver p s.commentsBefore.reverse := by
      cases order : s.commentsBefore.reverse with
      | nil => simp [order] at later
      | cons d ds =>
          have inTail : c ∈ ds := by simpa [order] using later
          rw [leftOver]
          split
          · exact inTail
          · exact List.mem_cons_of_mem _ inTail
    have above : c ∈ above (s.before.filter Node.isNamed) := by
      rw [above_eq_of_some previous]
      exact List.mem_reverse.mpr left
    have before : c ∈ s.before := List.mem_of_mem_filter (mem_of_mem_above above)
    have attached := (same c).mp (List.mem_append_left _ above)
    rcases List.mem_append.mp attached with direct | behind
    · simpa [Option.mem_def.mp previous] using (List.mem_filter.mp direct).2
    · have after := mem_after_of_mem_commentsBehind (List.mem_of_mem_filter behind)
      exact absurd after (not_mem_after distinct before)
  · intro c later
    by_contra trails
    -- The comment is attached, so it counts and is the first one, which it is not.
    have behind : c ∈ s.commentsBehind := List.mem_of_mem_tail later
    have after := mem_after_of_mem_commentsBehind behind
    have attached : c ∈ s.attached :=
      List.mem_append_right _ (List.mem_filter.mpr ⟨behind, by simpa using trails⟩)
    rcases List.mem_append.mp ((same c).mpr attached) with above | trailing
    · have before := List.mem_of_mem_filter (mem_of_mem_above above)
      exact not_mem_after distinct before after
    · rw [trailing_eq] at trailing
      have first : c ∈ s.commentsBehind.take 1 := List.mem_of_mem_filter trailing
      have inRow : s.commentsBehind.Sublist s.row :=
        (((List.takeWhile_sublist _).trans List.filter_sublist).cons _).trans
          (List.sublist_append_right _ _)
      have once := distinct.sublist inRow
      cases order : s.commentsBehind with
      | nil => simp [order] at later
      | cons d ds =>
          simp only [order, List.take_succ_cons, List.take_zero, List.mem_singleton, List.tail_cons,
            List.nodup_cons] at first later once
          exact once.1 (first ▸ later)

theorem heeds_iff_attached_iff_clear (distinct : s.row.Nodup) :
    (∀ c, s.Heeds c ↔ c ∈ s.attached) ↔ s.Clear :=
  ⟨clear_of_heeds distinct, fun clear c => by rw [Heeds, clear.comments_eq]⟩

end Site

/-! ## The statement of an assertion -/

namespace Node

/-- A way down a tree: each site lies among the children of the node before it. -/
inductive Leads : Node → List Site → Node → Prop
  | here (n : Node) : Leads n [] n
  | down {n m : Node} {s : Site} {way : List Site} (row : s.row = n.children)
      (rest : Leads s.statement way m) : Leads n (s :: way) m

/-- The site of what is found at the end of a way from a node with this site. -/
def siteBehind (site : Site) (n : Node) : List Site → Site
  | [] => site
  | s :: way => siteBehind (if n.holdsStatements then s else site) s.statement way

/-- The sites of a row behind some siblings. -/
def sitesBehind (before : List Node) : List Node → List Site
  | [] => []
  | c :: cs => ⟨before, c, cs⟩ :: sitesBehind (c :: before) cs

theorem mem_sitesBehind {before cs : List Node} {s : Site} :
    s ∈ sitesBehind before cs ↔
      ∃ earlier, s.before = earlier.reverse ++ before ∧ cs = earlier ++ s.statement :: s.after := by
  obtain ⟨nearer, m, after⟩ := s
  induction cs generalizing before with
  | nil => simp [sitesBehind]
  | cons c cs ih =>
      rw [sitesBehind, List.mem_cons, ih]
      constructor
      · rintro (first | ⟨earlier, same, rfl⟩)
        · obtain ⟨rfl, rfl, rfl⟩ := Site.mk.inj first
          exact ⟨[], rfl, rfl⟩
        · exact ⟨c :: earlier, by simpa using same, rfl⟩
      · rintro ⟨earlier, same, row⟩
        cases earlier with
        | nil =>
            obtain ⟨rfl, rfl⟩ := List.cons.inj row
            exact .inl (congrArg (Site.mk · c cs) same)
        | cons d earlier =>
            obtain ⟨rfl, rfl⟩ := List.cons.inj row
            exact .inr ⟨earlier, by simpa using same, rfl⟩

/-- The sites of the children. -/
def sites (n : Node) : List Site := sitesBehind [] n.children

theorem mem_sites {n : Node} {s : Site} : s ∈ n.sites ↔ s.row = n.children := by
  rw [sites, mem_sitesBehind, Site.row]
  constructor
  · rintro ⟨earlier, same, row⟩
    rw [same, row, List.append_nil, List.reverse_reverse]
  · intro row
    exact ⟨s.before.reverse, by simp, row.symm⟩

theorem assertionsUnder_eq (site : Site) (before cs : List Node) :
    assertionsUnder site cs =
      (sitesBehind before cs).flatMap fun s => s.statement.assertionsAt site := by
  induction cs generalizing before with
  | nil => rfl
  | cons c cs ih => rw [assertionsUnder, sitesBehind, List.flatMap_cons, ih]

theorem assertionsAmong_eq (before cs : List Node) :
    assertionsAmong before cs =
      (sitesBehind before cs).flatMap fun s => s.statement.assertionsAt s := by
  induction cs generalizing before with
  | nil => rfl
  | cons c cs ih => rw [assertionsAmong, sitesBehind, List.flatMap_cons, ih]

/-- The assertions of a node are itself and those of its children, who are statements or belong
to the node's own statement. -/
theorem assertionsAt_eq (site : Site) (n : Node) :
    n.assertionsAt site = (if n.isAssertionCall then [(n, site)] else []) ++
      n.sites.flatMap fun s =>
        s.statement.assertionsAt (if n.holdsStatements then s else site) := by
  cases n with
  | leaf l gap text =>
      have noCall : (Node.leaf l gap text).isAssertionCall = false := by
        simp [isAssertionCall, child?, children]
      rw [assertionsAt, noCall]
      rfl
  | branch l cs =>
      rw [assertionsAt, sites, children, assertionsAmong_eq, assertionsUnder_eq site []]
      cases (Node.branch l cs).holdsStatements <;> rfl

/-- An assertion is found at the end of every way to it, with the site that the way has. -/
theorem mem_assertionsAt {site t : Site} {n m : Node} :
    (m, t) ∈ n.assertionsAt site ↔
      m.isAssertionCall = true ∧ ∃ way, Leads n way m ∧ t = siteBehind site n way := by
  induction n using induction_children generalizing site with
  | step n ih =>
      rw [assertionsAt_eq, List.mem_append, List.mem_flatMap]
      constructor
      · rintro (itself | ⟨s, child, below⟩)
        · split at itself
          · obtain ⟨rfl, rfl⟩ := Prod.mk.inj (List.mem_singleton.mp itself)
            exact ⟨‹_›, [], .here _, rfl⟩
          · cases itself
        · have row := mem_sites.mp child
          obtain ⟨call, way, leads, rfl⟩ := (ih _ (row ▸ s.statement_mem_row)).mp below
          exact ⟨call, s :: way, .down row leads, rfl⟩
      · rintro ⟨call, way, leads, rfl⟩
        cases leads with
        | here => exact .inl (by simp [call, siteBehind])
        | @down _ _ s way row rest =>
            refine .inr ⟨s, mem_sites.mpr row, ?_⟩
            exact (ih _ (row ▸ s.statement_mem_row)).mpr ⟨call, way, rest, rfl⟩

theorem map_statement_sitesBehind (before cs : List Node) :
    (sitesBehind before cs).map Site.statement = cs := by
  induction cs generalizing before with
  | nil => rfl
  | cons c cs ih => rw [sitesBehind, List.map_cons, ih]

/-- The assertions come in the order of the nodes. -/
theorem map_fst_assertionsAt (site : Site) (n : Node) :
    (n.assertionsAt site).map Prod.fst = n.preorder.filter isAssertionCall := by
  induction n using induction_children generalizing site with
  | step n ih =>
      have below : (n.sites.flatMap fun s =>
            s.statement.assertionsAt (if n.holdsStatements then s else site)).map Prod.fst =
          (n.children.flatMap preorder).filter isAssertionCall := by
        calc _ = n.sites.flatMap fun s => s.statement.preorder.filter isAssertionCall := by
              rw [List.map_flatMap]
              refine List.flatMap_congr fun s child => ih _ ?_ _
              exact mem_sites.mp child ▸ s.statement_mem_row
          _ = _ := by
              conv_rhs => rw [← map_statement_sitesBehind [] n.children]
              rw [List.filter_flatMap, List.flatMap_map, sites]
      rw [assertionsAt_eq, List.map_append, below, preorder_eq, List.filter_cons]
      split <;> simp

/-- In a numbered tree an assertion has one site. -/
theorem site_unique {root m : Node} {t t' : Site} (found : (m, t) ∈ root.numbered.assertions)
    (found' : (m, t') ∈ root.numbered.assertions) : t = t' := by
  have once : (root.numbered.assertions.map Prod.fst).Nodup := by
    rw [assertions, map_fst_assertionsAt]
    exact root.numbered_preorder_nodup.filter _
  exact (Prod.mk.inj (List.inj_on_of_nodup_map once found found' rfl)).2

theorem Leads.mem_preorder {n m : Node} {way : List Site} (leads : Leads n way m) :
    m ∈ n.preorder := by
  induction leads with
  | here n => exact n.mem_preorder_self
  | @down n m s way row rest ih =>
      rw [preorder_eq]
      exact List.mem_cons_of_mem _
        (List.mem_flatMap.mpr ⟨s.statement, row ▸ s.statement_mem_row, ih⟩)

theorem Leads.append {n m k : Node} {way way' : List Site} (first : Leads n way m)
    (second : Leads m way' k) : Leads n (way ++ way') k := by
  induction first with
  | here => exact second
  | down row rest ih => exact .down row (ih second)

theorem siteBehind_append {site : Site} {n m : Node} {way : List Site} (leads : Leads n way m)
    (way' : List Site) :
    siteBehind site n (way ++ way') = siteBehind (siteBehind site n way) m way' := by
  induction leads generalizing site with
  | here => rfl
  | down row rest ih => exact ih

/-- On a way past no list the site stays the same. -/
theorem siteBehind_eq {site : Site} {n : Node} {way : List Site}
    (past : ∀ m ∈ n :: way.map Site.statement, m.holdsStatements = false) :
    siteBehind site n way = site := by
  induction way generalizing n with
  | nil => rfl
  | cons s way ih =>
      obtain ⟨here, behind⟩ := List.forall_mem_cons.mp past
      rw [siteBehind, here, if_neg (by simp)]
      exact ih behind

/-- The site is that of a node with the other one in it: of the whole tree, or of a child. -/
structure Around (root : Node) (site : Site) (n : Node) : Prop where
  inside : n ∈ site.statement.preorder
  place : (site.before = [] ∧ site.after = []) ∨
    ∃ parent ∈ root.preorder, site.row = parent.children

theorem Around.behind {root n m : Node} {site : Site} {way : List Site}
    (around : Around root site n) (member : n ∈ root.preorder) (leads : Leads n way m) :
    Around root (siteBehind site n way) m := by
  induction leads generalizing site with
  | here => exact around
  | @down n m s way row rest ih =>
      have child : s.statement ∈ n.children := row ▸ s.statement_mem_row
      refine ih ?_ (mem_preorder_of_child member child)
      split
      · exact ⟨mem_preorder_self _, .inr ⟨n, member, row⟩⟩
      · exact ⟨mem_preorder_of_child around.inside child, around.place⟩

/-- In a tree of different nodes, what lies in a node does not stand beside it. -/
theorem Around.apart {root n c : Node} {site : Site} (distinct : root.preorder.Nodup)
    (around : Around root site n) (child : c ∈ n.children) : c ∉ site.before ∧ c ∉ site.after := by
  have inside := mem_preorder_of_child around.inside child
  rcases around.place with ⟨noBefore, noAfter⟩ | ⟨parent, member, row⟩
  · simp [noBefore, noAfter]
  · have once := distinct.sublist (preorder_sublist member)
    rw [preorder_eq, ← row, Site.row, List.flatMap_append, List.flatMap_cons, List.nodup_cons,
      List.nodup_append, List.nodup_append] at once
    obtain ⟨-, -, ⟨-, -, apartAfter⟩, apartBefore⟩ := once
    refine ⟨fun before => ?_, fun after => ?_⟩
    · exact apartBefore c
        (List.mem_flatMap.mpr ⟨c, List.mem_reverse.mpr before, c.mem_preorder_self⟩) c
        (List.mem_append_left _ inside) rfl
    · exact apartAfter c inside c (List.mem_flatMap.mpr ⟨c, after, c.mem_preorder_self⟩) rfl

/-! ## Blocks and clauses -/

/-- A clause of a switch or select. -/
def isClause (n : Node) : Bool :=
  match n.kind with
  | .expressionCase | .defaultCase | .typeCase | .communicationCase => true
  | _ => false

theorem holdsStatements_of_isClause {n : Node} (clause : n.isClause = true) :
    n.holdsStatements = false := by
  cases kind : n.kind <;> simp_all [isClause, holdsStatements]

/-- Nodes that have statements among their children. -/
def isList (n : Node) : Bool := n.holdsStatements || n.isClause

/-- An assertion in a statement of a list, and in no list inside of that statement. -/
structure Standing (root : Node) where
  /-- The way to the list. -/
  outer : List Site
  list : Node
  /-- The statement in its list. -/
  own : Site
  /-- The way from the statement to the assertion. -/
  inner : List Site
  call : Node
  toList : Leads root outer list
  row : own.row = list.children
  toCall : Leads own.statement inner call
  isCall : call.isAssertionCall = true
  innermost : ∀ n ∈ own.statement :: inner.map Site.statement, n.isList = false

namespace Standing

variable {root : Node} (a : Standing root)

/-- The site of the list itself. -/
def enclosing : Site := siteBehind ⟨[], root, []⟩ root a.outer

/-- The site whose comments count for the assertion. -/
def site : Site := if a.list.holdsStatements then a.own else a.enclosing

theorem mem_assertions : (a.call, a.site) ∈ root.assertions := by
  refine mem_assertionsAt.mpr ⟨a.isCall, a.outer ++ a.own :: a.inner,
    a.toList.append (.down a.row a.toCall), ?_⟩
  have past : ∀ n ∈ a.own.statement :: a.inner.map Site.statement, n.holdsStatements = false :=
    fun n onWay => (Bool.or_eq_false_iff.mp (a.innermost n onWay)).1
  rw [siteBehind_append a.toList, siteBehind, siteBehind_eq past]
  rfl

theorem row_nodup (distinct : root.preorder.Nodup) : a.own.row.Nodup := by
  have once := distinct.sublist (preorder_sublist a.toList.mem_preorder)
  rw [preorder_eq, ← preorderOf_eq, ← a.row] at once
  exact (List.nodup_cons.mp once).2.sublist (sublist_preorderOf _)

/-- What stands in the list does not stand beside a statement around the list. -/
theorem not_heeds_of_attached (distinct : root.preorder.Nodup) {c : Node}
    (attached : c ∈ a.own.attached) : ¬ a.enclosing.Heeds c := by
  have start : Around root ⟨[], root, []⟩ root := ⟨root.mem_preorder_self, .inl ⟨rfl, rfl⟩⟩
  have around := start.behind root.mem_preorder_self a.toList
  have child : c ∈ a.list.children := by
    rw [← a.row, Site.row]
    rcases Site.mem_outside_of_mem_attached attached with before | after
    · simp [before]
    · simp [after]
  obtain ⟨notBefore, notAfter⟩ := around.apart distinct child
  exact fun heeds => heeds.mem_outside.elim notBefore notAfter

end Standing

/-- **Directives at statements work in blocks and not in clauses.**  Take an assertion in a
statement of a list.  It has one site in the file.

In a block, or at the top of the file, this is the statement's own, and the comments that count
are those attached to the statement exactly if neither it nor the statement before it is followed
by two comments on its last row.  Then a category is silenced exactly by the directives in them.

In a clause of a switch or select it is the site of the clause: the comments that count are those
around the switch or select or what has it in it, never those in the clause.  So they are those
attached to the statement only if there are none of both. -/
theorem heeds_attached_iff {root : Node} (a : Standing root.numbered) :
    (∀ t, (a.call, t) ∈ root.numbered.assertions ↔ t = a.site) ∧
    (a.list.holdsStatements = true → a.site = a.own ∧
      ((∀ c, a.site.Heeds c ↔ c ∈ a.own.attached) ↔ a.own.Clear) ∧
      (a.own.Clear → ∀ k, a.site.scope.silences k = true ↔
        ∃ c ∈ a.own.attached, (Scope.ofComment c.text).silences k = true)) ∧
    (a.list.isClause = true → a.site = a.enclosing ∧
      ((∀ c, a.site.Heeds c ↔ c ∈ a.own.attached) ↔
        a.enclosing.comments = [] ∧ a.own.attached = [])) := by
  have distinct := root.numbered_preorder_nodup
  refine ⟨fun t => ⟨fun found => site_unique found a.mem_assertions, ?_⟩, ?_, ?_⟩
  · rintro rfl
    exact a.mem_assertions
  · intro holds
    have own : a.site = a.own := by rw [Standing.site, if_pos holds]
    rw [own]
    exact ⟨rfl, Site.heeds_iff_attached_iff_clear (a.row_nodup distinct),
      fun clear _ => clear.silences_iff⟩
  · intro clause
    have enclosing : a.site = a.enclosing := by
      rw [Standing.site, holdsStatements_of_isClause clause, if_neg (by simp)]
    rw [enclosing]
    refine ⟨rfl, fun same => ⟨?_, ?_⟩, ?_⟩
    · refine List.eq_nil_iff_forall_not_mem.mpr fun c heeds => ?_
      exact a.not_heeds_of_attached distinct ((same c).mp heeds) heeds
    · refine List.eq_nil_iff_forall_not_mem.mpr fun c attached => ?_
      exact a.not_heeds_of_attached distinct attached ((same c).mpr attached)
    · rintro ⟨nothing, nothingAttached⟩ c
      rw [Site.Heeds, nothing, nothingAttached]

/-- The site of the `i`-th child. -/
def siteAt (n : Node) (i : Nat) : Site := (n.sites[i]?).getD default

/-- `Expect(x).To(m)` -/
def check : Node :=
  construct .expressionStatement
    [construct .callExpression
      [construct .selectorExpression
        [construct .callExpression
          [word .identifier "Expect" (some .function),
           construct .argumentList [sign "(", word .identifier "x", sign ")"] (some .arguments)]
          (some .operand),
         sign ".", word .fieldIdentifier "To" (some .field)]
        (some .function),
       construct .argumentList [sign "(", word .identifier "m", sign ")"] (some .arguments)]]

def lengthDirective : Node := word .comment "// ginkgo-linter:ignore-length-warning"

def nilDirective : Node := word .comment "// ginkgo-linter:ignore-nil-assert-warning"

/-- A block with two assertions, the second between a comment above it and one behind it. -/
def directedBlock : Node :=
  construct .block
    [sign "\x7b", check.onRow 1, nilDirective.onRow 1, sign "\n", lengthDirective.onRow 2,
     check.onRow 3, nilDirective.onRow 3, sign "\n", sign "\x7d"]

/-- A block with a switch, and in a clause of it an assertion below a directive. -/
def directedClause : Node :=
  construct .block
    [sign "\x7b",
     construct .expressionSwitchStatement
      [sign "switch", word .identifier "x" (some .value), sign "\x7b",
       construct .expressionCase
        [sign "case", (construct .expressionList [word .intLiteral "1"] (some .value)).onRow 1,
         sign ":", lengthDirective.onRow 2, check.onRow 3],
       sign "\x7d"],
     sign "\x7d"]

/-- The second assertion of the block. -/
def inBlock : Standing directedBlock.numbered :=
  let own := directedBlock.numbered.siteAt 5
  let call := own.statement.siteAt 0
  { outer := []
    list := directedBlock.numbered
    own
    inner := [call]
    call := call.statement
    toList := .here _
    row := rfl
    toCall := .down rfl (.here _)
    isCall := by decide +kernel
    innermost := by decide +kernel }

/-- The assertion of the clause. -/
def inClause : Standing directedClause.numbered :=
  let switch := directedClause.numbered.siteAt 1
  let clause := switch.statement.siteAt 3
  let own := clause.statement.siteAt 4
  let call := own.statement.siteAt 0
  { outer := [switch, clause]
    list := clause.statement
    own
    inner := [call]
    call := call.statement
    toList := .down rfl (.down rfl (.here _))
    row := rfl
    toCall := .down rfl (.here _)
    isCall := by decide +kernel
    innermost := by decide +kernel }

/-- In the block the comments around the assertion count, and not the one behind the first. -/
theorem heeds_attached_iff_inBlock :
    directedBlock.numbered.Conforms Go.rules ∧ inBlock.list.kind = .block ∧
      (inBlock.call, inBlock.own) ∈ directedBlock.numbered.assertions ∧
      inBlock.own.attached.map (fun c => (c.text, c.extent.startRow)) =
        [("// ginkgo-linter:ignore-length-warning", 2),
          ("// ginkgo-linter:ignore-nil-assert-warning", 3)] ∧
      ∀ c, inBlock.own.Heeds c ↔ c ∈ inBlock.own.attached := by
  obtain ⟨only, block, -⟩ := heeds_attached_iff inBlock
  obtain ⟨own, same, -⟩ := block rfl
  rw [own] at only same
  have previous : inBlock.own.previous? = some (directedBlock.numbered.siteAt 1).statement := rfl
  refine ⟨conforms_of_checks 60 (by decide +kernel), rfl, (only _).mpr rfl, rfl, same.mpr ⟨?_, ?_⟩⟩
  · rw [previous]
    rintro p ⟨⟩ c later
    obtain rfl : c = (directedBlock.numbered.siteAt 4).statement := List.mem_singleton.mp later
    rfl
  · intro c later
    cases later

/-- In the clause it does not. -/
theorem inClause_unheeded :
    directedClause.numbered.Conforms Go.rules ∧ inClause.list.kind = .expressionCase ∧
      (inClause.call, inClause.site) ∈ directedClause.numbered.assertions ∧
      inClause.own.attached.map text = ["// ginkgo-linter:ignore-length-warning"] ∧
      inClause.site.comments = [] ∧ inClause.site.scope.silences .length = false :=
  ⟨conforms_of_checks 60 (by decide +kernel), rfl, inClause.mem_assertions, rfl, rfl, rfl⟩

end Node

end GomegaLint
