import Mathlib
import GomegaLint.Proofs.Syntax.Tree
import GomegaLint.Syntax.Grammar.Go

/-!
# Trees that conform to a grammar

`Phrase.Fits` says which rows of sibling nodes a phrase of a grammar describes,
and `Node.Conforms` that every branch of a tree is built as some rule for its
kind has it, comments apart: they may stand anywhere, and have no role.

Only the shape of a tree is looked at.  Symbols and keywords are spelled as the
grammar has them; names and literals may be spelled in any way.
-/

namespace GomegaLint

namespace Node

/-- The nodes of a row that are no comments. -/
def code (ns : List Node) : List Node := ns.filter (!·.isComment)

end Node

/-- The text is one that the terminal has. -/
def Terminal.Spells : Terminal → String → Prop
  | .keyword w, text => text = w
  | .symbol s, text => text = s
  | _, _ => True

namespace Phrase

/-- The phrase describes the row of nodes, which stands in the given role.  The
innermost role counts, as does the innermost kind to show; the end of a text
can stand for a terminator and leaves no node. -/
inductive Fits (rules : Grammar.Rules) : Role → Phrase → List Node → Prop
  | blank (r : Role) : Fits rules r .blank []
  | ending (r : Role) : Fits rules r (.terminal .nul) []
  | terminal {r : Role} {t : Terminal} {l : Label} {text : String} (gap : String)
      (kind : l.kind = r.kind.getD t.kind) (field : l.field = r.field) (spells : t.Spells text) :
      Fits rules r (.terminal t) [.leaf l gap text]
  | part {r : Role} {n : Nonterminal} {l : Label} {k : Kind} (cs : List Node)
      (hasKind : r.kind.or n.kind? = some k) (kind : l.kind = k) (field : l.field = r.field) :
      Fits rules r (.part n) [.branch l cs]
  | group {r : Role} {n : Nonterminal} {clauses : List Clause} {c : Clause} {ns : List Node}
      (noKind : r.kind.or n.kind? = none) (rule : (n, clauses) ∈ rules) (clause : c ∈ clauses)
      (inside : Fits rules { field := r.field } c.body ns) : Fits rules r (.part n) ns
  | both {r : Role} {a b : Phrase} {xs ys : List Node} (first : Fits rules r a xs)
      (second : Fits rules r b ys) : Fits rules r (.both a b) (xs ++ ys)
  | left {r : Role} {a b : Phrase} {ns : List Node} (inside : Fits rules r a ns) :
      Fits rules r (.either a b) ns
  | right {r : Role} {a b : Phrase} {ns : List Node} (inside : Fits rules r b ns) :
      Fits rules r (.either a b) ns
  | once {r : Role} {p : Phrase} {ns : List Node} (inside : Fits rules r p ns) :
      Fits rules r (.repeated p) ns
  | again {r : Role} {p : Phrase} {xs ys : List Node} (first : Fits rules r p xs)
      (others : Fits rules r (.repeated p) ys) : Fits rules r (.repeated p) (xs ++ ys)
  | role {r : Role} {f : Field} {p : Phrase} {ns : List Node}
      (inside : Fits rules { r with field := some f } p ns) : Fits rules r (.role f p) ns
  | shown {r : Role} {k : Kind} {p : Phrase} {ns : List Node}
      (inside : Fits rules { r with kind := some k } p ns) : Fits rules r (.shown k p) ns

/-- The groups that a phrase shows as nodes of a kind. -/
def shownAs (k : Kind) : Phrase → List Phrase
  | both a b => a.shownAs k ++ b.shownAs k
  | either a b => a.shownAs k ++ b.shownAs k
  | repeated p => p.shownAs k
  | role _ p => p.shownAs k
  | shown k' (part n) => if k' = k then [part n] else []
  | shown _ p => p.shownAs k
  | _ => []

end Phrase

namespace Grammar.Rules

/-- All clauses of some rules. -/
def clauses (rules : Rules) : List Clause := rules.flatMap Prod.snd

/-- The bodies that a node of a kind can have: those of the rules for the kind,
and the groups that show as it. -/
def bodies (rules : Rules) (k : Kind) : List Phrase :=
  (rules.filter fun r => r.1.kind? == some k).flatMap (fun r => r.2.map (·.body)) ++
    rules.clauses.flatMap fun c => c.body.shownAs k

end Grammar.Rules

/-- Every branch is built as a rule for its kind says; leaves are of kinds that
have no rule. -/
inductive Node.Conforms (rules : Grammar.Rules) : Node → Prop
  | leaf {l : Label} (gap text : String) (noRule : rules.bodies l.kind = []) :
      Node.Conforms rules (.leaf l gap text)
  | branch {l : Label} {cs : List Node} {body : Phrase} (rule : body ∈ rules.bodies l.kind)
      (fits : body.Fits rules {} (Node.code cs))
      (comments : ∀ c ∈ cs, c.isComment = true → c.label.field = none)
      (inside : ∀ c ∈ cs, Node.Conforms rules c) : Node.Conforms rules (.branch l cs)

/-! ## What fits a phrase -/

namespace Phrase

variable {rules : Grammar.Rules} {r : Role} {ns : List Node}

@[simp] theorem fits_blank : Fits rules r .blank ns ↔ ns = [] := by
  constructor
  · rintro ⟨⟩
    rfl
  · rintro rfl
    exact .blank r

@[simp] theorem fits_both {a b : Phrase} :
    Fits rules r (.both a b) ns ↔ ∃ xs ys, ns = xs ++ ys ∧ Fits rules r a xs ∧ Fits rules r b ys := by
  constructor
  · intro fits
    cases fits with
    | both first second => exact ⟨_, _, rfl, first, second⟩
  · rintro ⟨xs, ys, rfl, first, second⟩
    exact .both first second

@[simp] theorem fits_either {a b : Phrase} :
    Fits rules r (.either a b) ns ↔ Fits rules r a ns ∨ Fits rules r b ns := by
  constructor
  · intro fits
    cases fits with
    | left inside => exact .inl inside
    | right inside => exact .inr inside
  · rintro (inside | inside)
    · exact .left inside
    · exact .right inside

@[simp] theorem fits_role {f : Field} {p : Phrase} :
    Fits rules r (.role f p) ns ↔ Fits rules { r with field := some f } p ns := by
  constructor
  · intro fits
    cases fits with
    | role inside => exact inside
  · exact .role

@[simp] theorem fits_shown {k : Kind} {p : Phrase} :
    Fits rules r (.shown k p) ns ↔ Fits rules { r with kind := some k } p ns := by
  constructor
  · intro fits
    cases fits with
    | shown inside => exact inside
  · exact .shown

/-- A repetition is a row of rows. -/
theorem fits_repeated {p : Phrase} :
    Fits rules r (.repeated p) ns ↔
      ∃ rows : List (List Node), rows ≠ [] ∧ (∀ row ∈ rows, Fits rules r p row) ∧ ns = rows.flatten := by
  constructor
  · intro fits
    generalize whole : Phrase.repeated p = q at fits
    induction fits with
    | once inside =>
        cases whole
        exact ⟨[_], by simp, by simpa using inside, by simp⟩
    | again first others _ ih =>
        cases whole
        obtain ⟨rows, -, each, rfl⟩ := ih rfl
        exact ⟨_ :: rows, by simp, by simpa using ⟨first, each⟩, by simp⟩
    | _ => cases whole
  · rintro ⟨rows, some_row, each, rfl⟩
    induction rows with
    | nil => exact absurd rfl some_row
    | cons row rows ih =>
        obtain ⟨first, others⟩ := List.forall_mem_cons.mp each
        cases rows with
        | nil => simpa using Fits.once first
        | cons row' rows => exact .again first (ih (by simp) others)

/-- Any number of rows. -/
theorem fits_many {p : Phrase} (fits : Fits rules r (many p) ns) :
    ∃ rows : List (List Node), (∀ row ∈ rows, Fits rules r p row) ∧ ns = rows.flatten := by
  rcases fits_either.mp fits with fits | fits
  · obtain ⟨rows, -, each, rfl⟩ := fits_repeated.mp fits
    exact ⟨rows, each, rfl⟩
  · rw [fits_blank.mp fits]
    exact ⟨[], by simp, rfl⟩

/-! ## Rows of one node -/

/-- The phrase describes single nodes, of good kinds, without a role of its
own. -/
def isSingle (good : Kind → Bool) : Option Kind → Phrase → Bool
  | k, terminal t => t != .nul && good (k.getD t.kind)
  | k, part n => (k.or n.kind?).any good
  | k, either a b => a.isSingle good k && b.isSingle good k
  | _, shown k p => p.isSingle good (some k)
  | _, _ => false

theorem fits_single (good : Kind → Bool) {p : Phrase} (single : p.isSingle good r.kind = true)
    (fits : Fits rules r p ns) :
    ∃ n, ns = [n] ∧ good n.kind = true ∧ n.label.field = r.field := by
  induction p generalizing r with
  | terminal t =>
      simp only [isSingle, Bool.and_eq_true, bne_iff_ne] at single
      cases fits with
      | ending => exact absurd rfl single.1
      | terminal gap kind field spells =>
          exact ⟨_, rfl, by simpa [Node.kind, Node.label, kind] using single.2, field⟩
  | part n =>
      cases fits with
      | part cs hasKind kind field =>
          simp only [isSingle, hasKind, Option.any_some] at single
          exact ⟨_, rfl, by simpa [Node.kind, Node.label, kind] using single, field⟩
      | group noKind => simp [isSingle, noKind] at single
  | either a b iha ihb =>
      simp only [isSingle, Bool.and_eq_true] at single
      rcases fits_either.mp fits with fits | fits
      · exact iha single.1 fits
      · exact ihb single.2 fits
  | shown k p ih => exact ih (r := { r with kind := some k }) single (fits_shown.mp fits)
  | _ => simp [isSingle] at single

end Phrase

/-- All members of a group are single nodes of good kinds. -/
def Grammar.Rules.isSingle (rules : Grammar.Rules) (good : Kind → Bool) (g : Group) : Bool :=
  rules.all fun r => r.1 != .group g || r.2.all fun c => c.body.isSingle good none

theorem Phrase.fits_group {rules : Grammar.Rules} (good : Kind → Bool) {g : Group}
    {f : Option Field} {ns : List Node} (single : rules.isSingle good g = true)
    (fits : Phrase.Fits rules { field := f } (group g) ns) :
    ∃ n, ns = [n] ∧ good n.kind = true ∧ n.label.field = f := by
  cases fits with
  | part cs hasKind => cases hasKind
  | group noKind rule clause inside =>
      have single := List.all_eq_true.mp single _ rule
      simp only [bne_self_eq_false, Bool.false_or, List.all_eq_true] at single
      exact fits_single good (single _ clause) inside

/-! ## Rows that are not empty -/

namespace Phrase

/-- The phrase describes the empty row, as far as its own form tells. -/
def isNullable : Phrase → Bool
  | blank => true
  | terminal t => t == .nul
  | part _ => false
  | both a b => a.isNullable && b.isNullable
  | either a b => a.isNullable || b.isNullable
  | repeated p => p.isNullable
  | role _ p => p.isNullable
  | shown _ p => p.isNullable

/-- The phrase mentions no node of the kind. -/
def avoids (k : Kind) : Phrase → Bool
  | blank => true
  | terminal t => t.kind != k
  | part n => n.kind? != some k
  | both a b => a.avoids k && b.avoids k
  | either a b => a.avoids k && b.avoids k
  | repeated p => p.avoids k
  | role _ p => p.avoids k
  | shown k' p => k' != k && p.avoids k

end Phrase

/-- Only nodes of the kind are empty, and no other node holds one. -/
def Grammar.Rules.hasRoot (rules : Grammar.Rules) (k : Kind) : Bool :=
  rules.all fun r => r.2.all fun c => (r.1.kind? == some k || !c.body.isNullable) && c.body.avoids k

namespace Phrase

variable {rules : Grammar.Rules} {r : Role} {p : Phrase} {ns : List Node}

theorem Fits.isNullable {k : Kind} (root : rules.hasRoot k = true) (fits : Fits rules r p ns)
    (empty : ns = []) : p.isNullable = true := by
  induction fits with
  | blank | ending => rfl
  | terminal | part => cases empty
  | @group r n clauses c ns noKind rule clause inside ih =>
      have noKind : n.kind? = none := (Option.or_eq_none_iff.mp noKind).2
      have notEmpty := List.all_eq_true.mp (List.all_eq_true.mp root _ rule) c clause
      simp [noKind, ih empty] at notEmpty
  | both first second iha ihb =>
      obtain ⟨noFirst, noSecond⟩ := List.append_eq_nil_iff.mp empty
      simp [Phrase.isNullable, iha noFirst, ihb noSecond]
  | left inside ih => simp [Phrase.isNullable, ih empty]
  | right inside ih => simp [Phrase.isNullable, ih empty]
  | once inside ih => exact ih empty
  | again first others ih _ => exact ih (List.append_eq_nil_iff.mp empty).1
  | role inside ih => exact ih empty
  | shown inside ih => exact ih empty

theorem Fits.kind_ne {k : Kind} (root : rules.hasRoot k = true)
    (fits : Fits rules r p ns) (here : p.avoids k = true) (shown : r.kind ≠ some k) :
    ∀ n ∈ ns, n.kind ≠ k := by
  induction fits with
  | blank | ending => simp
  | @terminal r t l text gap kind field spells =>
      have other : r.kind.getD t.kind ≠ k := by
        cases showing : r.kind with
        | none => simpa [Phrase.avoids] using here
        | some k' => simpa [showing] using shown
      simpa [Node.kind, Node.label, kind] using other
  | @part r n l k' cs hasKind kind field =>
      have other : k' ≠ k := by
        rintro rfl
        rcases Option.or_eq_some_iff.mp hasKind with isShown | ⟨-, isOwn⟩
        · exact shown isShown
        · simp [Phrase.avoids, isOwn] at here
      simpa [Node.kind, Node.label, kind] using other
  | @group r n clauses c ns noKind rule clause inside ih =>
      have apart := List.all_eq_true.mp (List.all_eq_true.mp root _ rule) c clause
      exact ih (Bool.and_eq_true_iff.mp apart).2 (by simp)
  | both first second iha ihb =>
      obtain ⟨hereFirst, hereSecond⟩ := Bool.and_eq_true_iff.mp here
      exact List.forall_mem_append.mpr ⟨iha hereFirst shown, ihb hereSecond shown⟩
  | left inside ih => exact ih (Bool.and_eq_true_iff.mp here).1 shown
  | right inside ih => exact ih (Bool.and_eq_true_iff.mp here).2 shown
  | once inside ih => exact ih here shown
  | again first others iha ihb => exact List.forall_mem_append.mpr ⟨iha here shown, ihb here shown⟩
  | role inside ih => exact ih here shown
  | shown inside ih =>
      simp only [Phrase.avoids, Bool.and_eq_true, bne_iff_ne] at here
      exact ih here.2 (by simpa using here.1)

/-- What a phrase shows as another kind is a group. -/
theorem of_mem_shownAs {k k' : Kind} {q : Phrase} (shown : q ∈ p.shownAs k)
    (apart : p.avoids k' = true) : q.isNullable = false ∧ q.avoids k' = true := by
  induction p with
  | both a b iha ihb | either a b iha ihb =>
      obtain ⟨first, second⟩ := Bool.and_eq_true_iff.mp apart
      rcases List.mem_append.mp shown with shown | shown
      · exact iha shown first
      · exact ihb shown second
  | repeated p ih => exact ih shown apart
  | role f p ih => exact ih shown apart
  | shown k'' p ih =>
      have inside : p.avoids k' = true := (Bool.and_eq_true_iff.mp apart).2
      cases p with
      | part n =>
          simp only [shownAs] at shown
          split at shown
          · obtain rfl := List.mem_singleton.mp shown
            exact ⟨rfl, inside⟩
          · cases shown
      | _ => exact ih shown inside
  | _ => cases shown

end Phrase

/-- A body of a kind that is not the root's is not empty and holds no root. -/
theorem Grammar.Rules.body_of_hasRoot {rules : Grammar.Rules} {k k' : Kind} {body : Phrase}
    (root : rules.hasRoot k = true) (other : k' ≠ k) (rule : body ∈ rules.bodies k') :
    body.isNullable = false ∧ body.avoids k = true := by
  rcases List.mem_append.mp rule with rule | rule
  · obtain ⟨r, filtered, inRule⟩ := List.mem_flatMap.mp rule
    obtain ⟨c, clause, rfl⟩ := List.mem_map.mp inRule
    obtain ⟨inRules, isKind⟩ := List.mem_filter.mp filtered
    have good := List.all_eq_true.mp (List.all_eq_true.mp root r inRules) c clause
    simpa [eq_of_beq isKind, other] using good
  · obtain ⟨c, clause, shown⟩ := List.mem_flatMap.mp rule
    obtain ⟨r, rule, clause⟩ := List.mem_flatMap.mp clause
    have good := List.all_eq_true.mp (List.all_eq_true.mp root r rule) c clause
    exact Phrase.of_mem_shownAs shown (Bool.and_eq_true_iff.mp good).2

/-- Every branch but a root has a child that is no comment and no root. -/
theorem Node.Conforms.exists_child {rules : Grammar.Rules} {k : Kind} {l : Label}
    {cs : List Node} (root : rules.hasRoot k = true) (other : l.kind ≠ k)
    (conforms : (Node.branch l cs).Conforms rules) : ∃ c ∈ Node.code cs, c.kind ≠ k := by
  cases conforms with
  | @branch _ _ body rule fits =>
      obtain ⟨notEmpty, apart⟩ := rules.body_of_hasRoot root other rule
      cases row : Node.code cs with
      | nil =>
          rw [row] at fits
          rw [fits.isNullable root rfl] at notEmpty
          cases notEmpty
      | cons c more =>
          exact ⟨c, List.mem_cons_self,
            fits.kind_ne root apart (by simp) c (row ▸ List.mem_cons_self)⟩

/-! ## Checking a tree -/

/-- The text is one that the terminal has. -/
def Terminal.spells : Terminal → String → Bool
  | .keyword w, text => text == w
  | .symbol s, text => text == s
  | _, _ => true

theorem Terminal.spells_of_eq_true {t : Terminal} {text : String} (spelled : t.spells text = true) :
    t.Spells text := by
  cases t with
  | keyword w => exact eq_of_beq spelled
  | symbol s => exact eq_of_beq spelled
  | _ => trivial

namespace Phrase

/-- What is left of a row behind a leaf of the terminal. -/
def behindLeaf (r : Role) (t : Terminal) : List Node → List (List Node)
  | .leaf l _ text :: rest =>
    if l.kind = r.kind.getD t.kind ∧ l.field = r.field ∧ t.spells text = true then [rest] else []
  | _ => []

/-- What is left of a row behind a branch of the kind. -/
def behindBranch (r : Role) (k : Kind) : List Node → List (List Node)
  | .branch l _ :: rest => if l.kind = k ∧ l.field = r.field then [rest] else []
  | _ => []

/-- What is left of a row behind a part that the phrase describes, for every such
part that is found within so many steps. -/
def rests (rules : Grammar.Rules) : Nat → Role → Phrase → List Node → List (List Node)
  | 0, _, _, _ => []
  | _ + 1, _, blank, ns => [ns]
  | _ + 1, r, terminal t, ns => (if t = .nul then [ns] else []) ++ behindLeaf r t ns
  | steps + 1, r, part n, ns =>
    match r.kind.or n.kind? with
    | some k => behindBranch r k ns
    | none =>
      (rules.filter (·.1 = n)).flatMap fun rule => rule.2.flatMap fun c =>
        rests rules steps { field := r.field } c.body ns
  | steps + 1, r, both a b, ns => (rests rules steps r a ns).flatMap (rests rules steps r b)
  | steps + 1, r, either a b, ns => rests rules steps r a ns ++ rests rules steps r b ns
  | steps + 1, r, repeated p, ns =>
    (rests rules steps r p ns).flatMap fun rest =>
      rest :: rests rules steps r (repeated p) rest
  | steps + 1, r, role f p, ns => rests rules steps { r with field := some f } p ns
  | steps + 1, r, shown k p, ns => rests rules steps { r with kind := some k } p ns

variable {rules : Grammar.Rules}

theorem fits_of_mem_behindLeaf {r : Role} {t : Terminal} {ns rest : List Node}
    (found : rest ∈ behindLeaf r t ns) :
    ∃ front, ns = front ++ rest ∧ Fits rules r (.terminal t) front := by
  unfold behindLeaf at found
  split at found
  · rename_i l gap text more
    split at found
    · rename_i good
      obtain rfl := List.mem_singleton.mp found
      exact ⟨[.leaf l gap text], rfl,
        .terminal gap good.1 good.2.1 (Terminal.spells_of_eq_true good.2.2)⟩
    · cases found
  · cases found

theorem fits_of_mem_behindBranch {r : Role} {n : Nonterminal} {k : Kind} {ns rest : List Node}
    (hasKind : r.kind.or n.kind? = some k) (found : rest ∈ behindBranch r k ns) :
    ∃ front, ns = front ++ rest ∧ Fits rules r (.part n) front := by
  unfold behindBranch at found
  split at found
  · rename_i l cs more
    split at found
    · rename_i good
      obtain rfl := List.mem_singleton.mp found
      exact ⟨[.branch l cs], rfl, .part cs hasKind good.1 good.2⟩
    · cases found
  · cases found

/-- What is found does fit. -/
theorem fits_of_mem_rests {steps : Nat} : ∀ {r : Role} {p : Phrase} {ns rest : List Node},
    rest ∈ rests rules steps r p ns → ∃ front, ns = front ++ rest ∧ Fits rules r p front := by
  induction steps with
  | zero => exact fun found => nomatch found
  | succ steps ih =>
      intro r p ns rest found
      cases p with
      | blank =>
          obtain rfl := List.mem_singleton.mp found
          exact ⟨[], rfl, .blank r⟩
      | terminal t =>
          rcases List.mem_append.mp found with atEnd | behind
          · split at atEnd
            · rename_i isNul
              subst isNul
              obtain rfl := List.mem_singleton.mp atEnd
              exact ⟨[], rfl, .ending r⟩
            · cases atEnd
          · exact fits_of_mem_behindLeaf behind
      | part n =>
          simp only [rests] at found
          split at found
          · rename_i k hasKind
            exact fits_of_mem_behindBranch hasKind found
          · rename_i noKind
            obtain ⟨⟨n', clauses⟩, rule, inRule⟩ := List.mem_flatMap.mp found
            obtain ⟨c, clause, inClause⟩ := List.mem_flatMap.mp inRule
            simp only [List.mem_filter, decide_eq_true_eq] at rule
            obtain ⟨rule, rfl⟩ := rule
            obtain ⟨front, rfl, inside⟩ := ih inClause
            exact ⟨front, rfl, .group noKind rule clause inside⟩
      | both a b =>
          obtain ⟨middle, found, found'⟩ := List.mem_flatMap.mp found
          obtain ⟨front, rfl, first⟩ := ih found
          obtain ⟨front', rfl, second⟩ := ih found'
          exact ⟨front ++ front', by simp, .both first second⟩
      | either a b =>
          rcases List.mem_append.mp found with found | found
          · obtain ⟨front, rfl, inside⟩ := ih found
            exact ⟨front, rfl, .left inside⟩
          · obtain ⟨front, rfl, inside⟩ := ih found
            exact ⟨front, rfl, .right inside⟩
      | repeated p =>
          obtain ⟨middle, found, found'⟩ := List.mem_flatMap.mp found
          obtain ⟨front, rfl, first⟩ := ih found
          rcases List.mem_cons.mp found' with rfl | found'
          · exact ⟨front, rfl, .once first⟩
          · obtain ⟨front', rfl, others⟩ := ih found'
            exact ⟨front ++ front', by simp, .again first others⟩
      | role f p =>
          obtain ⟨front, rfl, inside⟩ := ih (p := p) found
          exact ⟨front, rfl, .role inside⟩
      | shown k p =>
          obtain ⟨front, rfl, inside⟩ := ih (p := p) found
          exact ⟨front, rfl, .shown inside⟩

end Phrase

namespace Node

mutual

/-- Every branch is found, within so many steps each, to be built as a rule for
its kind says. -/
def checks (rules : Grammar.Rules) (steps : Nat) : Node → Bool
  | leaf l _ _ => (rules.bodies l.kind).isEmpty
  | branch l cs =>
    (rules.bodies l.kind).any (fun body => (body.rests rules steps {} (code cs)).any (·.isEmpty)) &&
      cs.all (fun c => !c.isComment || c.label.field == none) && checksAll rules steps cs

def checksAll (rules : Grammar.Rules) (steps : Nat) : List Node → Bool
  | [] => true
  | c :: cs => c.checks rules steps && checksAll rules steps cs

end

theorem checksAll_eq_true {rules : Grammar.Rules} {steps : Nat} {cs : List Node}
    (checked : checksAll rules steps cs = true) : ∀ c ∈ cs, c.checks rules steps = true := by
  induction cs with
  | nil => simp
  | cons c cs ih =>
      obtain ⟨first, others⟩ := Bool.and_eq_true_iff.mp checked
      exact List.forall_mem_cons.mpr ⟨first, ih others⟩

theorem conforms_of_checks {rules : Grammar.Rules} (steps : Nat) {n : Node}
    (checked : n.checks rules steps = true) : n.Conforms rules := by
  induction n using Node.induction with
  | leaf l gap text => exact .leaf gap text (List.isEmpty_iff.mp checked)
  | branch l cs ih =>
      simp only [checks, Bool.and_eq_true, List.any_eq_true, List.isEmpty_iff, List.all_eq_true,
        Bool.or_eq_true, Bool.not_eq_true', beq_iff_eq] at checked
      obtain ⟨⟨⟨body, rule, _, found, rfl⟩, comments⟩, inside⟩ := checked
      obtain ⟨front, whole, fits⟩ := Phrase.fits_of_mem_rests found
      rw [List.append_nil] at whole
      refine .branch rule (whole ▸ fits) (fun c member isComment => ?_)
        fun c member => ih c member (checksAll_eq_true inside c member)
      rcases comments c member with notComment | noField
      · simp [isComment] at notComment
      · exact noField

end Node

end GomegaLint
