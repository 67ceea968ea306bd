import Mathlib
import GomegaLint.Lint.Basic
import GomegaLint.Proofs.Syntax.Tree

/-!
# Settings and directives only filter

A run can be narrowed in four ways: by the rules it is asked for, by the levels of
rules, by directives before the package clause and by directives at a statement.
None of them changes what a rule finds.

`Linter.findings` is what the rules find when nothing narrows them, every finding
with the scope of the directives at its statement.  `Linter.lintAssertions_filtered`
says that any other run is a part of it, in its order, with the levels set; and that
a rule may as well be disabled by its level as by leaving it out.

* `Rule.canonicalName_eq_name_iff`: the table of other names comes to
  `Rule.isCalled`.
* `selectRules_eq_ok` and `Settings.levelFor_disable` say what the two ways of
  disabling a rule do.
* `Linter.lintAssertions_eq`: a run keeps its reports and the directives that hold in a
  state; what comes out is what is reported of the calls one after the other.
* `Linter.lintAssertion_selected` is the filter on one assertion.
-/

namespace GomegaLint

/-! ## Names of rules -/

namespace Rule

/-- The text is the name of the rule, or another name of it. -/
def isCalled (r : Rule) (name : String) : Bool := name == r.name || aliases.contains (name, r.name)

theorem lookup_aliases_iff {name canonical : String} :
    aliases.lookup name = some canonical ↔ (name, canonical) ∈ aliases := by
  constructor
  · intro found
    obtain ⟨before, behind, row, -⟩ := List.lookup_eq_some_iff.mp found
    simp [row]
  · intro listed
    simp only [aliases, List.mem_cons, List.not_mem_nil, or_false, Prod.mk.injEq] at listed
    rcases listed with ⟨rfl, rfl⟩ | ⟨rfl, rfl⟩ | ⟨rfl, rfl⟩ | ⟨rfl, rfl⟩ <;> decide

/-- The name of a rule is no other name of one. -/
theorem lookup_aliases_name (r : Rule) : aliases.lookup r.name = none := by
  cases r <;> decide

/-- Every other name is one of a rule. -/
theorem exists_of_mem_aliases : ∀ p ∈ aliases, ∃ r : Rule, r.name = p.2 := by
  intro p listed
  simp only [aliases, List.mem_cons, List.not_mem_nil, or_false] at listed
  rcases listed with rfl | rfl | rfl | rfl
  · exact ⟨lenAssertion, rfl⟩
  · exact ⟨errorAssertion, rfl⟩
  · exact ⟨compareAssertion, rfl⟩
  · exact ⟨asyncCall, rfl⟩

theorem canonicalName_name (r : Rule) : canonicalName r.name = r.name := by
  rw [canonicalName, lookup_aliases_name]
  rfl

theorem canonicalName_canonicalName (name : String) :
    canonicalName (canonicalName name) = canonicalName name := by
  cases found : aliases.lookup name with
  | none => simp [canonicalName, found]
  | some canonical =>
      obtain ⟨r, rfl⟩ : ∃ r : Rule, r.name = canonical :=
        exists_of_mem_aliases _ (lookup_aliases_iff.mp found)
      have standsFor : canonicalName name = r.name := by simp [canonicalName, found]
      rw [standsFor, canonicalName_name]

/-- A name stands for the rule that is called so. -/
theorem canonicalName_eq_name_iff {r : Rule} {name : String} :
    canonicalName name = r.name ↔ r.isCalled name = true := by
  simp only [isCalled, Bool.or_eq_true, beq_iff_eq, List.contains_iff_mem]
  rw [← lookup_aliases_iff]
  cases found : aliases.lookup name with
  | none => simp [canonicalName, found]
  | some canonical =>
      have other : name ≠ r.name := by
        rintro rfl
        rw [lookup_aliases_name] at found
        cases found
      simp [canonicalName, found, other]

theorem isNameOrAlias_iff {name : String} :
    isNameOrAlias name = true ↔ ∃ r : Rule, r.isCalled name = true := by
  simp only [isNameOrAlias, isName, isAlias, isCalled, Bool.or_eq_true, List.any_eq_true,
    beq_iff_eq, Option.isSome_iff_exists, lookup_aliases_iff, List.contains_iff_mem]
  constructor
  · rintro (⟨r, -, rfl⟩ | ⟨canonical, listed⟩)
    · exact ⟨r, .inl rfl⟩
    · obtain ⟨r, named⟩ := exists_of_mem_aliases _ listed
      exact ⟨r, .inr (named ▸ listed)⟩
  · rintro ⟨r, rfl | listed⟩
    · exact .inl ⟨r, r.mem_all, rfl⟩
    · exact .inr ⟨r.name, listed⟩

/-- The rule is one of those asked for: of `only`, unless that is empty, and neither
of `skip` nor of `disabled`. -/
def isSelected (only skip disabled : List String) (r : Rule) : Bool :=
  (only.isEmpty || only.any r.isCalled) && !skip.any r.isCalled && !disabled.any r.isCalled

/-- A rule is among the names that are looked up. -/
theorem contains_canonicalName (names : List String) (r : Rule) :
    (names.map canonicalName).contains r.name = names.any r.isCalled := by
  rw [Bool.eq_iff_iff]
  simp [canonicalName_eq_name_iff]

end Rule

/-- The selection fails on a name that no rule has. -/
theorem selectRules_eq_error_iff {only skip disabled : List String} :
    (∃ e, selectRules only skip disabled = .error e) ↔
      ∃ name ∈ only ++ skip ++ disabled, ∀ r : Rule, r.isCalled name = false := by
  have unknown : ∀ name,
      (∀ r : Rule, r.isCalled name = false) ↔ (!Rule.isNameOrAlias name) = true := by
    intro name
    rw [Bool.not_eq_true', ← Bool.not_eq_true, Rule.isNameOrAlias_iff]
    simp
  simp only [unknown]
  rw [← List.find?_isSome]
  unfold selectRules
  split
  · rename_i name found
    exact iff_of_true ⟨_, rfl⟩ (by rw [found]; rfl)
  · rename_i none_found
    exact iff_of_false (by rintro ⟨e, ⟨⟩⟩) (by rw [none_found]; exact Bool.false_ne_true)

/-- Otherwise it gives the rules that are asked for, in the order of reporting. -/
theorem selectRules_eq_ok {only skip disabled : List String} {rules : List Rule}
    (selected : selectRules only skip disabled = .ok rules) :
    rules = Rule.all.filter (Rule.isSelected only skip disabled) := by
  unfold selectRules at selected
  split at selected
  · cases selected
  · cases selected
    refine List.filter_congr fun r _ => ?_
    simp only [Rule.isSelected, Rule.contains_canonicalName, List.any_append, Bool.not_or,
      Bool.and_assoc]

/-! ## Levels -/

namespace Settings

theorem levelFor_set (s : Settings) (name : String) (l : Level) (r : Rule) :
    (s.set name l).levelFor r.name = if r.isCalled name then l else s.levelFor r.name := by
  simp only [levelFor, set, List.lookup_cons, Rule.canonicalName_name]
  by_cases called : r.isCalled name = true
  · simp [Rule.canonicalName_eq_name_iff.mpr called, called]
  · have other : (r.name == Rule.canonicalName name) = false := by
      rw [beq_eq_false_iff_ne]
      exact fun same => called (Rule.canonicalName_eq_name_iff.mp same.symm)
    simp [other, called]

/-- Disabled rules are silent, and the others keep their levels. -/
theorem levelFor_disable (s : Settings) (names : List String) (r : Rule) :
    (s.disable names).levelFor r.name =
      if names.any r.isCalled then .allow else s.levelFor r.name := by
  induction names generalizing s with
  | nil => rfl
  | cons name names ih =>
      change ((s.set name .allow).disable names).levelFor r.name = _
      rw [ih, levelFor_set, List.any_cons]
      cases r.isCalled name <;> cases names.any r.isCalled <;> rfl

/-- Levels are kept under names that stand for themselves. -/
def Canonical (s : Settings) : Prop := ∀ e ∈ s.levels, Rule.canonicalName e.1 = e.1

theorem Canonical.setAll {s : Settings} (canonical : s.Canonical) (levels : List (String × Level)) :
    (s.setAll levels).Canonical := by
  induction levels generalizing s with
  | nil => exact canonical
  | cons e levels ih =>
      apply ih
      intro f kept
      rcases List.mem_cons.mp kept with rfl | kept
      · exact Rule.canonicalName_canonicalName e.1
      · exact canonical f kept

/-- A name has the level of what it stands for. -/
theorem Canonical.levelFor_canonicalName {s : Settings} (canonical : s.Canonical) (name : String) :
    s.levelFor (Rule.canonicalName name) = s.levelFor name := by
  cases found : s.levels.lookup name with
  | none =>
      simp only [levelFor, found, Rule.canonicalName_canonicalName]
      split <;> simp_all
  | some l =>
      obtain ⟨before, behind, row, -⟩ := List.lookup_eq_some_iff.mp found
      rw [canonical (name, l) (by simp [row])]

/-- Neither a directive nor a level silences the rule. -/
def lets (s : Settings) (file site : Scope) (r : Rule) : Bool :=
  !file.silences r.category && !site.silences r.category && s.levelFor r.name != .allow

/-- A disabled rule is silenced by its level. -/
theorem lets_disable (s : Settings) (names : List String) (file site : Scope) (r : Rule) :
    (s.disable names).lets file site r = (s.lets file site r && !names.any r.isCalled) := by
  rw [lets, levelFor_disable, lets]
  cases names.any r.isCalled <;> simp

/-- The finding at the level of its rule. -/
def relevel (s : Settings) (d : Diagnostic) : Diagnostic :=
  { d with level := s.levelFor d.rule.name }

end Settings

/-! ## Runs -/

namespace Linter

/-- What a rule reports of an assertion, unless it is silenced. -/
def diagnose? (l : Linter) (source : List Char) (file site : Scope) (a : Assertion) (r : Rule) :
    Option Diagnostic :=
  let level := l.settings.levelFor r.name
  if file.silences r.category || site.silences r.category || level = .allow then none
  else (r.check a).map (Diagnostic.ofReport source r level a.span)

/-- What the rules report of a call, if it is an assertion. -/
def lintCall (l : Linter) (source : List Char) (style : ImportStyle) (o : Oracle) (file : Scope)
    (p : Node × Site) : List Diagnostic :=
  match p.1.toCall?.bind fun c => Assertion.of? style o c c with
  | some a => l.lintAssertion source file p.2.scope a
  | none => []

section

variable {l : Linter} {c : Context}

theorem Context.add_nil (c : Context) : c.add [] = c := by
  rw [add, List.append_nil]

theorem Context.add_append (c : Context) (first second : List Diagnostic) :
    c.add (first ++ second) = (c.add first).add second := by
  rw [add, add, add, List.append_assoc]

/-- One rule adds what it reports under the directives that hold, and changes nothing else. -/
theorem Context.check_eq (known : c.settings = l.settings) (a : Assertion) (r : Rule) :
    c.check a r = c.add (l.diagnose? c.source c.file c.site a r).toList := by
  unfold Context.check Linter.diagnose?
  rw [← known]
  cases r.check a with
  | none => simp [c.add_nil]
  | some report =>
      unfold Context.push Context.levelOf
      by_cases silent : (c.file.silences r.category || c.site.silences r.category) = true
      · simp [silent, c.add_nil]
      · by_cases allowed : c.settings.levelFor r.name = .allow
        · simp [silent, allowed, c.add_nil]
        · simp [silent, allowed]

theorem checkAll_eq (known : c.settings = l.settings) (a : Assertion) :
    l.checkAll c a = c.add (l.rules.filterMap (l.diagnose? c.source c.file c.site a)) := by
  unfold checkAll
  induction l.rules generalizing c with
  | nil => exact c.add_nil.symm
  | cons r rules ih =>
      have settings : (c.check a r).settings = l.settings := Context.check_eq known a r ▸ known
      rw [List.foldl_cons, ih settings, Context.check_eq known, ← Context.add_append,
        List.filterMap_cons]
      change c.add (_ ++ rules.filterMap (l.diagnose? c.source c.file c.site a)) = _
      cases l.diagnose? c.source c.file c.site a r <;> rfl

theorem lintAssertion_eq (l : Linter) (source : List Char) (file site : Scope) (a : Assertion) :
    l.lintAssertion source file site a = l.rules.filterMap (l.diagnose? source file site a) := by
  have settings : ({ source, settings := l.settings, file, site } : Context).settings =
      l.settings := rfl
  rw [lintAssertion, checkAll_eq settings]
  exact List.nil_append _

/-- A call adds what is reported of it under the directives at its own statement; where the
statement of the call before stood makes no difference. -/
theorem visit_eq (known : c.settings = l.settings) (style : ImportStyle) (o : Oracle)
    (p : Node × Site) :
    ∃ site, l.visit style o c p = (c.setSite site).add (l.lintCall c.source style o c.file p) := by
  unfold visit lintCall
  cases p.1.toCall?.bind fun call => Assertion.of? style o call call with
  | none => exact ⟨c.site, c.add_nil.symm⟩
  | some a =>
      have settings : (c.setSite p.2.scope).settings = l.settings := known
      refine ⟨p.2.scope, ?_⟩
      simp only [lintAssertion_eq, checkAll_eq settings]
      rfl

theorem foldl_visit_eq (known : c.settings = l.settings) (style : ImportStyle) (o : Oracle)
    (ps : List (Node × Site)) :
    ∃ site, ps.foldl (l.visit style o) c =
      (c.setSite site).add (ps.flatMap (l.lintCall c.source style o c.file)) := by
  induction ps generalizing c with
  | nil => exact ⟨c.site, c.add_nil.symm⟩
  | cons p ps ih =>
      obtain ⟨site, visited⟩ := visit_eq known style o p
      have settings : (l.visit style o c p).settings = l.settings := visited ▸ known
      obtain ⟨site', behind⟩ := ih settings
      refine ⟨site', ?_⟩
      rw [List.foldl_cons, behind, visited, List.flatMap_cons, Context.add_append]
      rfl

end

/-- The reports of a run are those of its calls, one after the other. -/
theorem lintAssertions_eq (l : Linter) (source : List Char) (style : ImportStyle) (o : Oracle)
    (root : Node) :
    l.lintAssertions source style o root =
      root.assertions.flatMap (l.lintCall source style o (fileScope root)) := by
  have settings : ({ source, settings := l.settings, file := fileScope root } : Context).settings =
      l.settings := rfl
  obtain ⟨site, run⟩ := foldl_visit_eq settings style o root.assertions
  rw [lintAssertions, run]
  exact List.nil_append _

/-- What the rules find in the assertions of a tree when nothing narrows them: every
rule, at the level it has by default, without regard to directives.  Beside each
finding stands the scope of the directives at its statement. -/
def findings (source : List Char) (style : ImportStyle) (o : Oracle) (root : Node) :
    List (Scope × Diagnostic) :=
  root.assertions.flatMap fun (n, site) =>
    match n.toCall?.bind fun c => Assertion.of? style o c c with
    | some a => (({} : Linter).lintAssertion source {} {} a).map fun d => (site.scope, d)
    | none => []

/-- One rule on one assertion: what it finds by itself, unless it is silenced. -/
theorem diagnose?_eq (l : Linter) (source : List Char) (file site : Scope) (a : Assertion)
    (r : Rule) :
    l.diagnose? source file site a r =
      if l.settings.lets file site r then
        (({} : Linter).diagnose? source {} {} a r).map l.settings.relevel
      else none := by
  have alone : (({} : Linter).diagnose? source {} {} a r).map l.settings.relevel =
      (r.check a).map (Diagnostic.ofReport source r (l.settings.levelFor r.name) a.span) :=
    Option.map_map ..
  have lets : l.settings.lets file site r =
      !(file.silences r.category || site.silences r.category ||
        l.settings.levelFor r.name = .allow) := by
    simp [Settings.lets, bne, Bool.and_assoc, beq_eq_decide]
  rw [alone, lets, diagnose?]
  cases (file.silences r.category || site.silences r.category ||
    l.settings.levelFor r.name = .allow) <;> rfl

theorem rule_of_diagnose? {l : Linter} {source : List Char} {file site : Scope} {a : Assertion}
    {r : Rule} {d : Diagnostic} (found : l.diagnose? source file site a r = some d) :
    d.rule = r := by
  simp only [diagnose?] at found
  split at found
  · cases found
  · obtain ⟨report, -, rfl⟩ := Option.map_eq_some_iff.mp found
    rfl

/-- The rules that are run on one assertion filter what all of them find. -/
theorem lintAssertion_selected (isSelected : Rule → Bool) (s : Settings) (source : List Char)
    (file site : Scope) (a : Assertion) :
    (Linter.mk (Rule.all.filter isSelected) s).lintAssertion source file site a =
      ((({} : Linter).lintAssertion source {} {} a).filter fun d =>
        isSelected d.rule && s.lets file site d.rule).map s.relevel := by
  simp only [lintAssertion_eq, List.filterMap_filter, List.filter_filterMap, List.map_filterMap]
  refine List.filterMap_congr fun r _ => ?_
  rw [diagnose?_eq]
  cases found : ({} : Linter).diagnose? source {} {} a r with
  | none => simp
  | some d =>
      obtain rfl := rule_of_diagnose? found
      cases selected : isSelected d.rule <;> cases lets : s.lets file site d.rule <;>
        simp [Option.filter, selected, lets]

/-- The rules that are run on a tree filter what all of them find. -/
theorem lintAssertions_selected (isSelected : Rule → Bool) (s : Settings) (source : List Char)
    (style : ImportStyle) (o : Oracle) (root : Node) :
    (Linter.mk (Rule.all.filter isSelected) s).lintAssertions source style o root =
      ((findings source style o root).filter fun (site, d) =>
        isSelected d.rule && s.lets (fileScope root) site d.rule).map
          fun (_, d) => s.relevel d := by
  simp only [lintAssertions_eq, findings, List.filter_flatMap, List.map_flatMap]
  refine List.flatMap_congr fun x _ => ?_
  rw [lintCall]
  cases x.1.toCall?.bind fun c => Assertion.of? style o c c with
  | none => rfl
  | some a =>
      simp only [lintAssertion_selected, List.filter_map, List.map_map]
      rfl

/-- A rule that is not run finds as much as one that is silenced by its level. -/
theorem lintAssertions_disable (only skip disabled : List String) (s : Settings)
    (source : List Char) (style : ImportStyle) (o : Oracle) (root : Node) :
    (Linter.mk (Rule.all.filter (Rule.isSelected only skip [])) (s.disable disabled)).lintAssertions
        source style o root =
      (Linter.mk (Rule.all.filter (Rule.isSelected only skip disabled)) s).lintAssertions
        source style o root := by
  rw [lintAssertions_selected, lintAssertions_selected]
  have same : ∀ (site : Scope) (r : Rule),
      (r.isSelected only skip [] && (s.disable disabled).lets (fileScope root) site r) =
        (r.isSelected only skip disabled && s.lets (fileScope root) site r) := by
    intro site r
    simp only [Settings.lets_disable, Rule.isSelected, List.any_nil, Bool.not_false, Bool.and_true]
    cases disabled.any r.isCalled <;> simp
  simp only [same]
  refine List.map_congr_left fun x kept => ?_
  have enabled : disabled.any x.2.rule.isCalled = false := by
    simp only [List.mem_filter, Rule.isSelected, Bool.and_eq_true, Bool.not_eq_true'] at kept
    exact kept.2.1.2
  simp only [Settings.relevel, Settings.levelFor_disable, enabled, Bool.false_eq_true, if_false]

/-- Where there are no directives, what the rules find by themselves is the run of all
of them at their default levels. -/
theorem lintAssertions_undirected (source : List Char) (style : ImportStyle) (o : Oracle)
    (root : Node) (noFile : ∀ c, (fileScope root).silences c = false)
    (noSite : ∀ x ∈ root.assertions, ∀ c, x.2.scope.silences c = false) :
    ({} : Linter).lintAssertions source style o root =
      (findings source style o root).map Prod.snd := by
  simp only [lintAssertions_eq, findings, List.map_flatMap]
  refine List.flatMap_congr fun x inside => ?_
  rw [lintCall]
  cases x.1.toCall?.bind fun c => Assertion.of? style o c c with
  | none => rfl
  | some a =>
      have silent : ∀ c, ({} : Scope).silences c = false := fun _ => rfl
      have same : ({} : Linter).lintAssertion source (fileScope root) x.2.scope a =
          ({} : Linter).lintAssertion source {} {} a := by
        rw [lintAssertion_eq, lintAssertion_eq]
        exact List.filterMap_congr fun r _ => by
          simp only [diagnose?, noFile, noSite x inside, silent]
      simp only [same, List.map_map]
      exact (List.map_id _).symm

/-- **Settings and directives only filter.**  The selection of rules fails exactly if
some name is not that of a rule.  Otherwise the run reports what the rules find by
themselves, in the same order and with the levels set, as far as the rule is selected
and neither a directive nor its level silences it.  Leaving disabled rules out comes to
the same as silencing them, and a level can be asked for by any name of its rule.

Where there are no directives, what the rules find by themselves is the run of all of
them at their default levels. -/
theorem lintAssertions_filtered (only skip disabled : List String) :
    ((∃ e, selectRules only skip disabled = .error e) ↔
        ∃ name ∈ only ++ skip ++ disabled, ∀ r : Rule, r.isCalled name = false) ∧
      ∀ rules, selectRules only skip disabled = .ok rules →
        ∀ (levels : List (String × Level)) (source : List Char) (style : ImportStyle) (o : Oracle)
          (root : Node),
          let s := ({} : Settings).setAll levels
          (Linter.mk rules s).lintAssertions source style o root =
              ((findings source style o root).filter fun (site, d) =>
                d.rule.isSelected only skip disabled && s.lets (fileScope root) site d.rule).map
              (fun (_, d) => s.relevel d) ∧
            (∃ kept, selectRules only skip [] = .ok kept ∧
              (Linter.mk kept (s.disable disabled)).lintAssertions source style o root =
                (Linter.mk rules s).lintAssertions source style o root) ∧
            (∀ name, s.levelFor name = s.levelFor (Rule.canonicalName name)) ∧
            ((∀ c, (fileScope root).silences c = false) →
              (∀ x ∈ root.assertions, ∀ c, x.2.scope.silences c = false) →
              ({} : Linter).lintAssertions source style o root =
                (findings source style o root).map Prod.snd) := by
  refine ⟨selectRules_eq_error_iff, ?_⟩
  intro rules selected levels source style o root s
  have canonical : s.Canonical := Settings.Canonical.setAll (by simp [Settings.Canonical]) levels
  obtain rfl := selectRules_eq_ok selected
  refine ⟨lintAssertions_selected _ s source style o root, ?_,
    fun name => (canonical.levelFor_canonicalName name).symm,
    lintAssertions_undirected source style o root⟩
  · cases enabled : selectRules only skip [] with
    | error e =>
        -- A name that no rule has would have stopped the longer lists too.
        obtain ⟨name, listed, unknown⟩ := selectRules_eq_error_iff.mp ⟨e, enabled⟩
        have listed' : name ∈ only ++ skip ++ disabled := by
          rw [List.append_nil] at listed
          exact List.mem_append_left disabled listed
        obtain ⟨e', failed⟩ := selectRules_eq_error_iff.mpr ⟨name, listed', unknown⟩
        rw [failed] at selected
        cases selected
    | ok kept =>
        refine ⟨kept, rfl, ?_⟩
        rw [selectRules_eq_ok enabled]
        exact lintAssertions_disable only skip disabled s source style o root

/-- The node of a call. -/
def callNode (function : Node) (args : List Node) (f : Option Field := none) : Node :=
  .construct .callExpression
    [function.setLabel { function.label with field := some .function },
      .construct .argumentList ([.sign "("] ++ args ++ [.sign ")"]) (some .arguments)]
    f

/-- The node of a call of a named function. -/
def namedCall (function : String) (args : List Node) (f : Option Field := none) : Node :=
  callNode (.word .identifier function) args f

/-- The node of `Expect(actual).To(matcher)`. -/
def expectation (actual matcher : Node) : Node :=
  callNode
    (.construct .selectorExpression
      [namedCall "Expect" [actual] (some .operand), .sign ".",
        .word .fieldIdentifier "To" (some .field)])
    [matcher]

/-- The node of `Expect(len(x)).To(BeZero())`. -/
def lengthCheck : Node :=
  expectation (namedCall "len" [.word .identifier "x"]) (namedCall "BeZero" [])

/-- A file that checks a length twice, the first time under a directive. -/
def checkedTwice : Node :=
  .branch { kind := .sourceFile }
    [.word .packageClause "package a",
     .leaf { kind := .comment, extent := { startRow := 1, stopRow := 1 } } "\n"
      "// ginkgo-linter:ignore-len-assert-warning",
     lengthCheck, lengthCheck]

/-- Of two findings one is left, at the level that is given under another name. -/
theorem lintAssertions_filtered_checkedTwice :
    ∃ rules, selectRules ["length_assertion"] [] ["err_assertion"] = .ok rules ∧
      (findings [] .dot (fun _ => none) checkedTwice).map (fun x => (x.2.rule, x.2.level)) =
        [(.lenAssertion, .warn), (.lenAssertion, .warn)] ∧
      ((Linter.mk rules (({} : Settings).setAll [("length_assertion", .error)])).lintAssertions []
        .dot (fun _ => none) checkedTwice).map (fun d => (d.rule, d.level)) =
          [(.lenAssertion, .error)] := by
  have selected : ∃ rules, selectRules ["length_assertion"] [] ["err_assertion"] = .ok rules :=
    ⟨_, rfl⟩
  obtain ⟨rules, selected⟩ := selected
  have filtered :=
    (lintAssertions_filtered ["length_assertion"] [] ["err_assertion"]).2 rules selected
    [("length_assertion", .error)] [] .dot (fun _ => none) checkedTwice
  refine ⟨rules, selected, by decide +kernel, ?_⟩
  rw [filtered.1]
  decide +kernel

end Linter

end GomegaLint
