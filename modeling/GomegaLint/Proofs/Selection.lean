import Mathlib
import GomegaLint.Proofs.EditOrder

/-!
# Which edits are made

Of the edits that diagnostics suggest (`Fix.suggested`), `Fix.select` takes each in turn
unless it overlaps or repeats one that is taken, by start and the longer first.

* What is selected lies apart and holds no edit twice, and whatever is left out overlaps or
  repeats something selected.
* The ranges of syntax nodes are never empty, and of any two one lies in the other or they
  do not meet (`Fix.Laminar`).  Then the outcome needs no order to be described
  (`Fix.Laminar.mem_select_iff`): an edit is selected exactly if its range is outermost
  (`Fix.Outermost`) and it is the first of those with this range.

An edit at an outermost range can only be passed over for one that comes before it and has
the same range; and the sort keeps edits with one range in the order they were given in.
-/

namespace GomegaLint

namespace Fix

/-! ## No edit twice -/

theorem Tally.take_nodup {t : Tally} (distinct : t.edits.Nodup) (e : Edit) :
    (t.take e).edits.Nodup := by
  rcases t.take_cases e with ⟨-, outcome⟩ | ⟨free, outcome⟩
  · rw [outcome]
    exact distinct
  · have other : e ∉ t.edits := fun kept => (free e kept).2 rfl
    rw [outcome, edits_keep, List.nodup_append_comm]
    exact List.nodup_cons.mpr ⟨other, distinct⟩

theorem select_nodup (t : Tally) : (select t).edits.Nodup :=
  List.foldlRecOn _ Tally.take (motive := fun u => u.edits.Nodup) List.nodup_nil
    fun _ distinct e _ => Tally.take_nodup distinct e

/-- Two edits that are selected do not overlap, in whatever order they are given. -/
theorem overlaps_of_mem_select {t : Tally} {a b : Edit} (first : a ∈ (select t).edits)
    (second : b ∈ (select t).edits) (different : a ≠ b) : a.overlaps b = false :=
  ((select_pairwise t).imp And.right).forall first second different

/-! ## What an edit is passed over for -/

/-- An edit is taken if nothing before it overlaps or repeats it. -/
theorem Tally.mem_foldl_take {t : Tally} {before behind : List Edit} {e : Edit}
    (free : ∀ u ∈ t.edits ++ before, u.overlaps e = false ∧ u ≠ e) :
    e ∈ ((before ++ e :: behind).foldl take t).edits := by
  rw [List.foldl_append, List.foldl_cons]
  apply subset_foldl_take
  rcases (before.foldl take t).take_cases e with ⟨⟨u, kept, clash⟩, -⟩ | ⟨-, outcome⟩
  · obtain ⟨apart, different⟩ := free u (foldl_take_sublist.subset kept)
    rcases clash with overlap | same
    · rw [apart] at overlap
      cases overlap
    · exact absurd same different
  · rw [outcome]
    exact List.mem_append_right _ List.mem_cons_self

/-- The sort keeps edits with one range in their order. -/
theorem filter_range_mergeSort (es : List Edit) (r : Nat × Nat) :
    (es.mergeSort byStart).filter (·.range == r) = es.filter (·.range == r) := by
  have together : (es.filter (·.range == r)).Pairwise fun a b => byStart a b = true := by
    refine List.pairwise_of_forall_mem_list fun a first b second => ?_
    have same : a.range = b.range :=
      (eq_of_beq (List.mem_filter.mp first).2).trans (eq_of_beq (List.mem_filter.mp second).2).symm
    simp only [Edit.range, Prod.mk.injEq] at same
    simp only [byStart, decide_eq_true_eq]
    omega
  have kept : (es.filter (·.range == r)).Sublist (es.mergeSort byStart) :=
    List.sublist_mergeSort byStart_trans byStart_total together List.filter_sublist
  have inside := kept.filter (·.range == r)
  rw [List.filter_filter] at inside
  simp only [Bool.and_self] at inside
  refine (inside.eq_of_length ?_).symm
  exact ((List.mergeSort_perm es byStart).filter _).length_eq.symm

theorem find?_range_mergeSort (es : List Edit) (r : Nat × Nat) :
    (es.mergeSort byStart).find? (·.range == r) = es.find? (·.range == r) := by
  rw [← List.head?_filter, filter_range_mergeSort, List.head?_filter]

/-! ## Ranges that lie in each other or apart -/

/-- The range of the first edit lies in that of the second. -/
def Within (a b : Edit) : Prop := b.start ≤ a.start ∧ a.stop ≤ b.stop

instance (a b : Edit) : Decidable (Within a b) := inferInstanceAs (Decidable (_ ∧ _))

/-- No range is empty; of any two, one lies in the other or they do not meet. -/
structure Laminar (es : Set Edit) : Prop where
  nonempty : ∀ e ∈ es, e.start < e.stop
  nested : ∀ a ∈ es, ∀ b ∈ es, Within a b ∨ Within b a ∨ a.overlaps b = false

/-- The range lies in no other range of the edits. -/
def Outermost (es : Set Edit) (e : Edit) : Prop :=
  e ∈ es ∧ ∀ b ∈ es, Within e b → b.range = e.range

section

variable {es : Set Edit} {t : Tally} {a b e : Edit}

theorem Within.overlaps (within : Within a b) (nonempty : a.start < a.stop) :
    b.overlaps a = true := by
  obtain ⟨later, sooner⟩ := within
  simp only [Edit.overlaps, Bool.and_eq_true, decide_eq_true_eq]
  omega

theorem within_of_range_eq (same : a.range = b.range) : Within a e ↔ Within b e := by
  simp only [Edit.range, Prod.mk.injEq] at same
  rw [Within, Within, same.1, same.2]

/-- Whether a range is outermost does not depend on the edit that has it. -/
theorem Outermost.of_range_eq (outermost : Outermost es b) (inside : a ∈ es)
    (same : a.range = b.range) : Outermost es a :=
  ⟨inside, fun c known wider =>
    (outermost.2 c known ((within_of_range_eq same).mp wider)).trans same.symm⟩

/-- What comes before an edit at an outermost range and overlaps it has the same range. -/
theorem Laminar.range_eq (laminar : Laminar es) (outermost : Outermost es e) (inside : a ∈ es)
    (before : byStart a e = true) (clash : a.overlaps e = true) : a.range = e.range := by
  rcases laminar.nested a inside e outermost.1 with within | within | apart
  · -- It starts no later, and no range that starts with the edit and is as long lies in it.
    obtain ⟨later, sooner⟩ := within
    simp only [byStart, decide_eq_true_eq] at before
    simp only [Edit.range, Prod.mk.injEq]
    omega
  · exact outermost.2 a inside within
  · rw [clash] at apart
    cases apart

/-- The first edit at an outermost range is selected. -/
theorem Laminar.mem_select (laminar : Laminar {e | e ∈ t.edits})
    (outermost : Outermost {e | e ∈ t.edits} e)
    (first : t.edits.find? (·.range == e.range) = some e) : e ∈ (select t).edits := by
  rw [← find?_range_mergeSort] at first
  obtain ⟨-, before, behind, row, others⟩ := List.find?_eq_some_iff_append.mp first
  have sorted := List.pairwise_mergeSort byStart_trans byStart_total t.edits
  rw [row] at sorted
  rw [select, row]
  apply Tally.mem_foldl_take
  intro u inside
  rw [List.nil_append] at inside
  have different : u.range ≠ e.range := by simpa using others u inside
  have known : u ∈ t.edits := List.mem_mergeSort.mp (row ▸ List.mem_append_left _ inside)
  have earlier : byStart u e = true :=
    (List.pairwise_append.mp sorted).2.2 u inside e List.mem_cons_self
  refine ⟨?_, fun same => different (same ▸ rfl)⟩
  rw [← Bool.not_eq_true]
  exact fun clash => different (laminar.range_eq outermost known earlier clash)

/-- Every range lies in an outermost one. -/
theorem Laminar.exists_outermost (laminar : Laminar {e | e ∈ t.edits}) (inside : e ∈ t.edits) :
    ∃ b, Outermost {e | e ∈ t.edits} b ∧ Within e b := by
  -- Take the widest of the ranges around it.
  obtain ⟨b, around, widest⟩ := Finset.exists_max_image (t.edits.toFinset.filter (Within e))
    (fun b => b.stop - b.start) ⟨e, by simp [inside, Within]⟩
  simp only [Finset.mem_filter, List.mem_toFinset] at around widest
  obtain ⟨known, within⟩ := around
  refine ⟨b, ⟨known, fun c inside' wider => ?_⟩, within⟩
  have nonempty := laminar.nonempty e inside
  have narrower := widest c ⟨inside', wider.1.trans within.1, within.2.trans wider.2⟩
  obtain ⟨later, sooner⟩ := wider
  obtain ⟨later', sooner'⟩ := within
  simp only [Edit.range, Prod.mk.injEq]
  omega

/-- An outermost range has a first edit, and this is selected. -/
theorem Laminar.exists_first (laminar : Laminar {e | e ∈ t.edits})
    (outermost : Outermost {e | e ∈ t.edits} b) :
    ∃ f ∈ (select t).edits, f.range = b.range ∧
      t.edits.find? (·.range == f.range) = some f := by
  obtain ⟨f, first⟩ : ∃ f, t.edits.find? (·.range == b.range) = some f :=
    Option.isSome_iff_exists.mp (List.find?_isSome.mpr ⟨b, outermost.1, by simp⟩)
  have same : f.range = b.range := by simpa using List.find?_some first
  rw [← same] at first
  have chosen := outermost.of_range_eq (List.mem_of_find?_eq_some first) same
  exact ⟨f, laminar.mem_select chosen first, same, first⟩

/-- What is selected has an outermost range, and is the first edit that has it. -/
theorem Laminar.of_mem_select (laminar : Laminar {e | e ∈ t.edits})
    (selected : e ∈ (select t).edits) :
    Outermost {e | e ∈ t.edits} e ∧ t.edits.find? (·.range == e.range) = some e := by
  have inside := mem_of_mem_select selected
  obtain ⟨b, outermost, within⟩ := laminar.exists_outermost inside
  obtain ⟨f, selected', same, first⟩ := laminar.exists_first outermost
  -- The first edit of the range around this one is selected too, and the two overlap.
  have clash : f.overlaps e = true := by
    simp only [Edit.range, Prod.mk.injEq] at same
    refine Within.overlaps ?_ (laminar.nonempty e inside)
    rw [Within, same.1, same.2]
    exact within
  obtain rfl : f = e := by
    by_contra different
    rw [overlaps_of_mem_select selected' selected different] at clash
    cases clash
  exact ⟨outermost.of_range_eq inside same, first⟩

/-- In a laminar list an edit is selected exactly if it is the first at an outermost
range. -/
theorem Laminar.mem_select_iff (laminar : Laminar {e | e ∈ t.edits}) :
    e ∈ (select t).edits ↔
      Outermost {e | e ∈ t.edits} e ∧ t.edits.find? (·.range == e.range) = some e :=
  ⟨laminar.of_mem_select, fun chosen => laminar.mem_select chosen.1 chosen.2⟩

end

end Fix

/-! ## What diagnostics suggest -/

/-- The diagnostic suggests the edit, and it can be made without review. -/
def Diagnostic.Suggests (d : Diagnostic) (e : Edit) : Prop :=
  ∃ s, d.suggestion = some s ∧ s.applicability = .machineApplicable ∧
    e = ⟨d.location.bytes.start, d.location.bytes.stop, s.replacement⟩

theorem Diagnostic.edit?_eq_some_iff {d : Diagnostic} {e : Edit} :
    d.edit? = some e ↔ d.Suggests e := by
  unfold Diagnostic.edit? Diagnostic.Suggests
  cases d.suggestion with
  | none => simp
  | some s => simp [eq_comm]

namespace Fix

/-- The edits that some diagnostic suggests. -/
def suggested (ds : List Diagnostic) : Set Edit := {e | ∃ d ∈ ds, d.Suggests e}

/-- The edit is suggested, and no diagnostic in front suggests one for its range. -/
def FirstAtRange (ds : List Diagnostic) (e : Edit) : Prop :=
  ∃ front d behind, ds = front ++ d :: behind ∧ d.Suggests e ∧
    ∀ d' ∈ front, ∀ e', d'.Suggests e' → e'.range ≠ e.range

theorem suggested_eq (ds : List Diagnostic) : suggested ds = {e | e ∈ (candidates ds).edits} := by
  ext e
  simp only [suggested, Set.mem_ofPred_eq, mem_candidates, Diagnostic.edit?_eq_some_iff]

theorem firstAtRange_iff {ds : List Diagnostic} {e : Edit} :
    FirstAtRange ds e ↔ (candidates ds).edits.find? (·.range == e.range) = some e := by
  rw [edits_candidates, List.find?_filterMap]
  constructor
  · rintro ⟨front, d, behind, rfl, suggests, others⟩
    have suggests := Diagnostic.edit?_eq_some_iff.mpr suggests
    have found : (front ++ d :: behind).find? (fun d => d.edit?.any (·.range == e.range)) =
        some d := by
      refine List.find?_eq_some_iff_append.mpr ⟨by simp [suggests], front, behind, rfl, ?_⟩
      intro d' inside
      cases suggests' : d'.edit? with
      | none => rfl
      | some e' => simpa using others d' inside e' (Diagnostic.edit?_eq_some_iff.mp suggests')
    rw [found]
    exact suggests
  · intro first
    obtain ⟨d, found, suggests⟩ := Option.bind_eq_some_iff.mp first
    obtain ⟨-, front, behind, rfl, others⟩ := List.find?_eq_some_iff_append.mp found
    refine ⟨front, d, behind, rfl, Diagnostic.edit?_eq_some_iff.mp suggests, ?_⟩
    intro d' inside e' suggests'
    have other := others d' inside
    rw [Diagnostic.edit?_eq_some_iff.mpr suggests'] at other
    simpa using other

end Fix

/-- **The selection is disjoint and maximal, and takes the outermost.**  A round of fixes
makes the edits that are selected, and fails only where making them does.  They are
suggested by diagnostics; no two of them overlap or are the same; and whatever a diagnostic
suggests to be made without review overlaps or equals one of them.

Let no range be empty, and any two be equal, nested or disjoint.  Then an edit is
selected exactly if its range is outermost and no edit reported before it has this range;
and every outermost range has exactly one selected edit. -/
theorem fixOnce_selects_outermost (ds : List Diagnostic) :
    let chosen := Fix.select (Fix.candidates ds)
    (∀ source, fixOnce source ds = (Edit.applyAll source chosen.edits).map fun text =>
      ⟨text, chosen.edits.length, chosen.skipped⟩) ∧
    (∀ e ∈ chosen.edits, ∃ d ∈ ds, d.Suggests e) ∧
    chosen.edits.Pairwise (fun a b => a.overlaps b = false ∧ a ≠ b) ∧
    (∀ d ∈ ds, ∀ e, d.Suggests e → ∃ t ∈ chosen.edits, t.overlaps e = true ∨ t = e) ∧
    (Fix.Laminar (Fix.suggested ds) →
      (∀ e, e ∈ chosen.edits ↔ Fix.Outermost (Fix.suggested ds) e ∧ Fix.FirstAtRange ds e) ∧
      ∀ b, Fix.Outermost (Fix.suggested ds) b → ∃! e, e ∈ chosen.edits ∧ e.range = b.range) := by
  intro chosen
  simp only [Fix.suggested_eq, Fix.firstAtRange_iff, ← Diagnostic.edit?_eq_some_iff]
  refine ⟨fun source => Fix.fixOnce_eq source ds, ?_, ?_, ?_, fun laminar =>
    ⟨fun e => laminar.mem_select_iff, fun b outermost => ?_⟩⟩
  · exact fun e selected => Fix.mem_candidates.mp (Fix.mem_of_mem_select selected)
  · exact ((Fix.select_pairwise _).imp And.right).and (Fix.select_nodup _)
  · intro d inside e suggested
    exact Fix.exists_mem_select (Fix.mem_candidates.mpr ⟨d, inside, suggested⟩)
  · obtain ⟨f, selected, same, first⟩ := laminar.exists_first outermost
    refine ⟨f, ⟨selected, same⟩, ?_⟩
    rintro e ⟨selected', same'⟩
    have first' := (laminar.of_mem_select selected').2
    rw [same', ← same, first] at first'
    exact (Option.some.inj first').symm

/-- Ranges three deep, the outermost reported after one inside it and then once more, and a
range beside them; a report around all of them has to be reviewed, and one suggests nothing. -/
def nestedThrice : List Diagnostic :=
  [suggesting .nilAssertion 2 6 "a", { suggesting .asyncCall 0 10 "" with suggestion := none },
   suggesting .lenAssertion 1 8 "b", suggesting .errorAssertion 3 5 "c",
   { suggesting .compareAssertion 0 10 "" with suggestion := some ⟨"", "f", .maybeIncorrect⟩ },
   suggesting .capAssertion 1 8 "d", suggesting .lenAssertion 9 10 "e"]

/-- Only the first suggestion for the outermost range and the one beside it are taken; three
suggestions clash with the first, and one has to be reviewed. -/
theorem fixOnce_selects_nestedThrice :
    Fix.Laminar (Fix.suggested nestedThrice) ∧
      fixOnce "0123456789".toList nestedThrice = .ok ⟨"0b8e".toList, 2, 4⟩ ∧
      (Fix.select (Fix.candidates nestedThrice)).edits = [⟨1, 8, "b"⟩, ⟨9, 10, "e"⟩] ∧
      Fix.Outermost (Fix.suggested nestedThrice) ⟨1, 8, "b"⟩ ∧
      Fix.FirstAtRange nestedThrice ⟨1, 8, "b"⟩ ∧
      ∃! e, e ∈ (Fix.select (Fix.candidates nestedThrice)).edits ∧ e.range = (1, 8) := by
  have laminar : Fix.Laminar (Fix.suggested nestedThrice) := by
    rw [Fix.suggested_eq]
    constructor
    · change ∀ e ∈ (Fix.candidates nestedThrice).edits, e.start < e.stop
      decide
    · change ∀ a ∈ (Fix.candidates nestedThrice).edits, ∀ b ∈ (Fix.candidates nestedThrice).edits,
        Fix.Within a b ∨ Fix.Within b a ∨ a.overlaps b = false
      decide
  have selected :
      (Fix.select (Fix.candidates nestedThrice)).edits = [⟨1, 8, "b"⟩, ⟨9, 10, "e"⟩] := by cbv
  obtain ⟨made, -, -, -, outermost⟩ := fixOnce_selects_outermost nestedThrice
  obtain ⟨chosen, one⟩ := outermost laminar
  obtain ⟨outer, first⟩ := (chosen ⟨1, 8, "b"⟩).mp (by simp [selected])
  exact ⟨laminar, by rw [made]; cbv, selected, outer, first, one _ outer⟩

end GomegaLint
