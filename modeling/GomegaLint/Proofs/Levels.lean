import Mathlib
import GomegaLint.Proofs.Filtering

/-!
# Levels and the order of entries

A configuration is a table from names to levels, and a table has no order.  Its entries are set one
after the other, and of those that name one rule the last wins (`Settings.levelFor_of`).  A rule can
be named in two ways, by its name and by its alias, so two entries of a table may be about one rule.
If they give it different levels, the order in which the entries are set decides between them,
unless the rule is disabled (`Settings.levels_anyOrder_iff`).
-/

namespace GomegaLint

namespace Rule

/-- A rule has one alias at most. -/
theorem alias_unique {r : Rule} {first second : String} (listed : (first, r.name) ∈ aliases)
    (listed' : (second, r.name) ∈ aliases) : first = second := by
  have oneEach : ∀ p ∈ aliases, ∀ q ∈ aliases, p.2 = q.2 → p.1 = q.1 := by decide
  exact oneEach _ listed _ listed' rfl

theorem isCalled_iff {r : Rule} {name : String} :
    r.isCalled name = true ↔ name = r.name ∨ (name, r.name) ∈ aliases := by
  simp [isCalled]

end Rule

namespace Settings

/-- The level of the last entry that names the rule. -/
def lastLevel? (levels : List (String × Level)) (r : Rule) : Option Level :=
  (levels.reverse.find? fun e => r.isCalled e.1).map Prod.snd

theorem lastLevel?_append_of_called {r : Rule} {e : String × Level} (called : r.isCalled e.1 = true)
    (levels : List (String × Level)) : lastLevel? (levels ++ [e]) r = some e.2 := by
  simp [lastLevel?, called]

theorem levelFor_setAll (s : Settings) (levels : List (String × Level)) (r : Rule) :
    (s.setAll levels).levelFor r.name = (lastLevel? levels r).getD (s.levelFor r.name) := by
  induction levels generalizing s with
  | nil => rfl
  | cons e levels ih =>
      change ((s.set e.1 e.2).setAll levels).levelFor r.name = _
      rw [ih, levelFor_set, lastLevel?, lastLevel?, List.reverse_cons, List.find?_append]
      cases levels.reverse.find? fun e => r.isCalled e.1 with
      | some f => rfl
      | none => cases called : r.isCalled e.1 <;> simp [called]

/-- A disabled rule is silent.  Any other has the level of the last entry that names it, and gives a
warning if there is no such entry. -/
theorem levelFor_of (levels : List (String × Level)) (disabled : List String) (r : Rule) :
    (of levels disabled).levelFor r.name =
      if disabled.any r.isCalled then .allow else (lastLevel? levels r).getD .warn := by
  rw [of, levelFor_disable, levelFor_setAll]
  rfl

/-- The entries that name the rule give it the same level. -/
def Agree (levels : List (String × Level)) (r : Rule) : Prop :=
  ∀ e ∈ levels, ∀ f ∈ levels, r.isCalled e.1 = true → r.isCalled f.1 = true → e.2 = f.2

theorem lastLevel?_eq_none_iff {levels : List (String × Level)} {r : Rule} :
    lastLevel? levels r = none ↔ ∀ e ∈ levels, r.isCalled e.1 = false := by
  simp [lastLevel?]

theorem exists_of_lastLevel? {levels : List (String × Level)} {r : Rule} {l : Level}
    (last : lastLevel? levels r = some l) : ∃ e ∈ levels, r.isCalled e.1 = true ∧ e.2 = l := by
  obtain ⟨e, found, level⟩ := Option.map_eq_some_iff.mp last
  have called : r.isCalled e.1 = true := by simpa using List.find?_some found
  exact ⟨e, List.mem_reverse.mp (List.mem_of_find?_eq_some found), called, level⟩

/-- Where the entries agree, their order does not matter. -/
theorem Agree.lastLevel?_perm {levels levels' : List (String × Level)} {r : Rule}
    (agree : Agree levels r) (order : levels'.Perm levels) :
    lastLevel? levels' r = lastLevel? levels r := by
  cases last : lastLevel? levels r with
  | none =>
      rw [lastLevel?_eq_none_iff] at last ⊢
      exact fun e listed => last e (order.mem_iff.mp listed)
  | some l =>
      obtain ⟨e, listed, called, rfl⟩ := exists_of_lastLevel? last
      cases last' : lastLevel? levels' r with
      | none =>
          have uncalled := lastLevel?_eq_none_iff.mp last' e (order.mem_iff.mpr listed)
          cases called.symm.trans uncalled
      | some l' =>
          obtain ⟨f, listed', called', rfl⟩ := exists_of_lastLevel? last'
          rw [agree f (order.mem_iff.mp listed') e listed called' called]

/-- Any entry can come last. -/
theorem exists_perm_last {levels : List (String × Level)} {e : String × Level}
    (listed : e ∈ levels) : ∃ others, (others ++ [e]).Perm levels := by
  obtain ⟨before, behind, rfl⟩ := List.append_of_mem listed
  refine ⟨before ++ behind, ?_⟩
  rw [List.append_assoc]
  exact (List.perm_append_singleton e behind).append_left before

/-- The level of a rule is the same in every order exactly if the rule is disabled or the entries
that name it agree. -/
theorem levelFor_anyOrder_iff (levels : List (String × Level)) (disabled : List String) (r : Rule) :
    (∀ levels', levels'.Perm levels →
      (of levels' disabled).levelFor r.name = (of levels disabled).levelFor r.name) ↔
      (disabled.any r.isCalled = false → Agree levels r) := by
  simp only [levelFor_of]
  cases disabled.any r.isCalled with
  | true => simp
  | false =>
      simp only [Bool.false_eq_true, if_false, forall_const]
      constructor
      · intro same e listed f listed' called called'
        obtain ⟨others, order⟩ := exists_perm_last listed
        obtain ⟨others', order'⟩ := exists_perm_last listed'
        have first := same _ order
        have second := same _ order'
        rw [lastLevel?_append_of_called called] at first
        rw [lastLevel?_append_of_called called'] at second
        exact first.trans second.symm
      · intro agree levels' order
        rw [agree.lastLevel?_perm order]

/-- In a table of different names only the name of a rule and its alias can give it two levels. -/
theorem agree_iff {levels : List (String × Level)} (distinct : (levels.map Prod.fst).Nodup)
    (r : Rule) :
    Agree levels r ↔ ∀ other l l', (other, r.name) ∈ Rule.aliases → (r.name, l) ∈ levels →
      (other, l') ∈ levels → l = l' := by
  constructor
  · intro agree other l l' isAlias listed listed'
    exact agree _ listed _ listed' (Rule.isCalled_iff.mpr (.inl rfl))
      (Rule.isCalled_iff.mpr (.inr isAlias))
  · rintro same ⟨name, l⟩ listed ⟨name', l'⟩ listed' called called'
    have single {name : String} {l l' : Level} (listed : (name, l) ∈ levels)
        (listed' : (name, l') ∈ levels) : l = l' :=
      (Prod.mk.inj (List.inj_on_of_nodup_map distinct listed listed' rfl)).2
    rcases Rule.isCalled_iff.mp called with rfl | isAlias <;>
      rcases Rule.isCalled_iff.mp called' with rfl | isAlias'
    · exact single listed listed'
    · exact same _ _ _ isAlias' listed listed'
    · exact (same _ _ _ isAlias listed' listed).symm
    · obtain rfl := Rule.alias_unique isAlias isAlias'
      exact single listed listed'

/-- **Levels depend on the order of the entries only where a rule is named twice.**  Take a table of
different names and a list of disabled rules.  The level of every rule is the same, in whatever
order the entries of the table are set, exactly if no rule that is not disabled has one level under
its name and another one under its alias. -/
theorem levels_anyOrder_iff {levels : List (String × Level)}
    (distinct : (levels.map Prod.fst).Nodup) (disabled : List String) :
    (∀ levels', levels'.Perm levels → ∀ r : Rule,
      (of levels' disabled).levelFor r.name = (of levels disabled).levelFor r.name) ↔
      ∀ r : Rule, disabled.any r.isCalled = false → ∀ other l l',
        (other, r.name) ∈ Rule.aliases → (r.name, l) ∈ levels → (other, l') ∈ levels → l = l' := by
  have each (r : Rule) := levelFor_anyOrder_iff levels disabled r
  simp only [agree_iff distinct] at each
  constructor
  · intro same r
    exact (each r).mp fun levels' order => same levels' order r
  · intro same levels' order r
    exact (each r).mpr (same r) levels' order

/-- Two names of one rule, and a name of another. -/
def namedTwice : List (String × Level) :=
  [("len_assertion", .error), ("length_assertion", .allow), ("nil_assertion", .error)]

/-- With the rule disabled the order of the entries does not matter. -/
theorem levels_anyOrder_iff_namedTwice :
    (namedTwice.map Prod.fst).Nodup ∧ ∀ levels', levels'.Perm namedTwice → ∀ r : Rule,
      (of levels' ["length_assertion"]).levelFor r.name =
        (of namedTwice ["length_assertion"]).levelFor r.name := by
  have distinct : (namedTwice.map Prod.fst).Nodup := by decide
  refine ⟨distinct, (levels_anyOrder_iff distinct _).mpr ?_⟩
  intro r enabled other l l' isAlias listed
  -- Of the two rules in the table one is disabled and the other has no alias.
  have inTable : r = .lenAssertion ∨ r = .nilAssertion := by
    cases r <;> simp [namedTwice, Rule.name] at listed ⊢
  rcases inTable with rfl | rfl
  · exact absurd enabled (by decide)
  · simp [Rule.aliases, Rule.name] at isAlias

/-- Otherwise it does: the rule has the level that is set last. -/
theorem levels_namedTwice :
    (namedTwice.map Prod.fst).Nodup ∧ namedTwice.reverse.Perm namedTwice ∧
      (of namedTwice []).levelFor Rule.lenAssertion.name = .allow ∧
      (of namedTwice.reverse []).levelFor Rule.lenAssertion.name = .error :=
  ⟨by decide, List.reverse_perm _, by decide, by decide⟩

end Settings

end GomegaLint
