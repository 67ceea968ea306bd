import Mathlib
import GomegaLint.Fix.Basic

/-!
# A round of fixes is one splice

Edits are made one by one, each in a text that the ones before it have changed.
`Edit.Spliced` says what should come out, read from left to right: between the
ranges the text is kept, and each range gives way to its replacement.

* `Edit.spliceAll?_spliced`: edits made from the last to the first come out as
  the splice.  What carries the run is that the bytes in front of the last edit
  made are still those of the source, and the ranges to come lie among them.
* `Fix.select_pairwise` and `Fix.lastFirst_pairwise`: the edits selected lie
  apart, and sorting them by their starts alone puts a range before the
  insertions at its start, so that these end up in front of it.
* `Fix.total_select_candidates`: a step that deals with a suggestion adds one to the edits
  kept or to the number left out, so every suggestion is counted once.
* `fixOnce_splices`: the round succeeds, and its text is the splice.
-/

namespace GomegaLint

namespace Edit

/-- The range lies in the text, and no end of it lies within a character. -/
structure InRange (source : List Char) (e : Edit) : Prop where
  start_le_stop : e.start ≤ e.stop
  stop_le_length : e.stop ≤ byteLength source
  start_boundary : isBoundary e.start source = true
  stop_boundary : isBoundary e.stop source = true

/-- What stands from an offset on, with the ranges of the edits, in this order,
replaced. -/
inductive Spliced : Nat → List Char → List Edit → List Char → Prop
  | done (offset : Nat) (rest : List Char) : Spliced offset rest [] rest
  | replace {offset : Nat} {kept removed rest result : List Char} {e : Edit} {es : List Edit}
      (starts : offset + byteLength kept = e.start) (stops : e.start + byteLength removed = e.stop)
      (behind : Spliced e.stop rest es result) :
      Spliced offset (kept ++ removed ++ rest) (e :: es)
        (kept ++ e.replacement.toList ++ result)

/-! ## Cutting a text -/

theorem append_inj_of_byteLength {a b c d : List Char} (same : a ++ b = c ++ d)
    (lengths : byteLength a = byteLength c) : a = c ∧ b = d := by
  have left : splitAtByte? (byteLength c) (a ++ b) = some (a, b) :=
    splitAtByte?_eq_some_iff.mpr ⟨rfl, lengths⟩
  have right : splitAtByte? (byteLength c) (a ++ b) = some (c, d) :=
    splitAtByte?_eq_some_iff.mpr ⟨same, rfl⟩
  rw [left] at right
  cases right
  exact ⟨rfl, rfl⟩

/-- A boundary cuts a text in two. -/
theorem exists_of_isBoundary {n : Nat} {cs : List Char} (boundary : isBoundary n cs = true) :
    ∃ a b, cs = a ++ b ∧ byteLength a = n := by
  obtain ⟨⟨a, b⟩, cut⟩ := Option.isSome_iff_exists.mp boundary
  exact ⟨a, b, splitAtByte?_eq_some_iff.mp cut⟩

/-- Of two cuts the earlier one cuts the front of the later one. -/
theorem exists_cut {a b c d : List Char} (same : a ++ b = c ++ d)
    (order : byteLength a ≤ byteLength c) : ∃ m, c = a ++ m ∧ b = m ++ d := by
  rcases List.append_eq_append_iff.mp same with ⟨m, rfl, rfl⟩ | ⟨m, rfl, rfl⟩
  · exact ⟨m, rfl, rfl⟩
  · have : m = [] := by
      cases m with
      | nil => rfl
      | cons x xs =>
          have := Char.utf8Size_pos x
          simp only [byteLength_append, byteLength_cons] at order
          omega
    subst this
    exact ⟨[], by simp, rfl⟩

/-- A range that ends in the front part of a text lies in it. -/
theorem InRange.cut {front rest : List Char} {e : Edit} (inRange : e.InRange (front ++ rest))
    (ends : e.stop ≤ byteLength front) :
    ∃ kept removed mid, front = kept ++ removed ++ mid ∧ byteLength kept = e.start ∧
      e.start + byteLength removed = e.stop := by
  obtain ⟨a, b, cutStart, startLength⟩ := exists_of_isBoundary inRange.start_boundary
  obtain ⟨c, d, cutStop, stopLength⟩ := exists_of_isBoundary inRange.stop_boundary
  have order := inRange.start_le_stop
  obtain ⟨removed, rfl, -⟩ := exists_cut (cutStart.symm.trans cutStop) (by omega)
  obtain ⟨mid, rfl, -⟩ := exists_cut cutStop.symm (by omega)
  refine ⟨a, removed, mid, rfl, startLength, ?_⟩
  rw [byteLength_append] at stopLength
  omega

/-- One edit in the part of a text that is still that of the source. -/
theorem splice?_eq {kept removed mid behind : List Char} {e : Edit}
    (starts : byteLength kept = e.start) (stops : e.start + byteLength removed = e.stop) :
    splice? (kept ++ removed ++ mid ++ behind) e =
      some (kept ++ e.replacement.toList ++ (mid ++ behind)) := by
  have first : splitAtByte? e.start (kept ++ removed ++ mid ++ behind) =
      some (kept, removed ++ (mid ++ behind)) :=
    splitAtByte?_eq_some_iff.mpr ⟨by simp, starts⟩
  have second : splitAtByte? (e.stop - e.start) (removed ++ (mid ++ behind)) =
      some (removed, mid ++ behind) :=
    splitAtByte?_eq_some_iff.mpr ⟨rfl, by omega⟩
  simp only [splice?, first, second, Option.bind_eq_bind, Option.bind_some, Option.pure_def]

/-! ## The splice -/

namespace Spliced

/-- What stands in front of the first range is kept. -/
theorem prepend {offset : Nat} {front rest result : List Char} {es : List Edit}
    (spliced : Spliced (offset + byteLength front) rest es result) :
    Spliced offset (front ++ rest) es (front ++ result) := by
  cases spliced with
  | done => exact .done offset _
  | @replace _ kept removed rest result e es starts stops behind =>
      have starts' : offset + byteLength (front ++ kept) = e.start := by
        rw [byteLength_append]
        omega
      have := Spliced.replace starts' stops behind
      simpa only [List.append_assoc] using this

/-- There is one splice. -/
theorem unique {offset : Nat} {text out out' : List Char} {es : List Edit}
    (spliced : Spliced offset text es out) (spliced' : Spliced offset text es out') :
    out = out' := by
  induction spliced generalizing out' with
  | done => cases spliced'; rfl
  | @replace offset kept removed rest result e es starts stops behind ih =>
      generalize shape : kept ++ removed ++ rest = text at spliced'
      cases spliced' with
      | @replace _ kept' removed' rest' result' _ _ starts' stops' behind' =>
          rw [List.append_assoc, List.append_assoc] at shape
          obtain ⟨sameKept, behindKept⟩ := append_inj_of_byteLength shape (by omega)
          obtain ⟨-, sameRest⟩ := append_inj_of_byteLength behindKept (by omega)
          subst sameKept sameRest
          rw [ih behind']

end Spliced

/-- **Edits from the last to the first come out as the splice.**  The text at
each moment is `front`, as in the source, and what became of `rest`. -/
theorem spliceAll?_spliced {es : List Edit} :
    ∀ (front rest done : List Char) (made : List Edit),
      es.Pairwise (fun a b => b.stop ≤ a.start) → (∀ e ∈ es, e.InRange (front ++ rest)) →
      (∀ e ∈ es, e.stop ≤ byteLength front) → Spliced (byteLength front) rest made done →
      ∃ out, spliceAll? (front ++ done) es = some out ∧
        Spliced 0 (front ++ rest) (es.reverse ++ made) out := by
  induction es with
  | nil =>
      intro front rest done made _ _ _ spliced
      exact ⟨front ++ done, rfl, Spliced.prepend (by rwa [Nat.zero_add])⟩
  | cons e es ih =>
      intro front rest done made apart inRange ends spliced
      obtain ⟨apart, aparts⟩ := List.pairwise_cons.mp apart
      obtain ⟨kept, removed, mid, rfl, starts, stops⟩ :=
        (inRange e List.mem_cons_self).cut (ends e List.mem_cons_self)
      have shape : kept ++ removed ++ mid ++ rest = kept ++ (removed ++ mid ++ rest) := by simp
      rw [shape] at inRange ⊢
      -- Behind `kept` stand the replacement, the text up to the edit made before, and its splice.
      have spliced' : Spliced (byteLength kept) (removed ++ mid ++ rest) (e :: made)
          (e.replacement.toList ++ (mid ++ done)) := by
        have behind : Spliced e.stop (mid ++ rest) made (mid ++ done) := by
          apply Spliced.prepend
          rwa [← stops, ← starts, ← byteLength_append, ← byteLength_append]
        have starts' : byteLength kept + byteLength [] = e.start := starts
        have := Spliced.replace starts' stops behind
        simpa only [List.nil_append, List.append_assoc] using this
      obtain ⟨out, made', out_spliced⟩ := ih kept _ _ _ aparts
        (fun f inside => inRange f (List.mem_cons_of_mem e inside))
        (fun f inside => starts ▸ apart f inside) spliced'
      refine ⟨out, ?_, ?_⟩
      · rw [spliceAll?, splice?_eq starts stops]
        simpa only [Option.bind_eq_bind, Option.bind_some, List.append_assoc] using made'
      · simpa only [List.reverse_cons, List.append_assoc, List.singleton_append] using out_spliced

theorem firstOverlap?_eq_none {es : List Edit}
    (apart : es.Pairwise fun a b => a.overlaps b = false) : firstOverlap? es = none := by
  induction apart with
  | nil => rfl
  | @cons e es clear _ ih =>
      have none_found : es.find? e.overlaps = none := by simpa using clear
      rw [firstOverlap?, none_found]
      exact ih

/-- Good ranges that lie apart can all be replaced. -/
theorem faults?_eq_none {source : List Char} {es : List Edit}
    (inRange : ∀ e ∈ es, e.InRange source) (apart : es.Pairwise fun a b => a.overlaps b = false) :
    faults? source es = none := by
  have ranges : es.findSome? (fault? source) = none := by
    rw [List.findSome?_eq_none_iff]
    intro e inside
    have good := inRange e inside
    simp [fault?, Nat.not_lt.mpr good.start_le_stop, Nat.not_lt.mpr good.stop_le_length,
      good.start_boundary, good.stop_boundary]
  rw [faults?, ranges, firstOverlap?_eq_none apart]
  rfl

end Edit

namespace Fix

/-- The first edit comes before the second, and they do not overlap. -/
def Apart (a b : Edit) : Prop := byStart a b = true ∧ a.overlaps b = false

theorem byStart_trans (a b c : Edit) (first : byStart a b = true) (second : byStart b c = true) :
    byStart a c = true := by
  simp only [byStart, decide_eq_true_eq] at *
  omega

theorem byStart_total (a b : Edit) : (byStart a b || byStart b a) = true := by
  simp only [byStart, Bool.or_eq_true, decide_eq_true_eq]
  omega

/-! ## One suggestion after the other -/

/-- The number of diagnostics that suggest something. -/
def suggestions (ds : List Diagnostic) : Nat := ds.countP (·.suggestion.isSome)

namespace Tally

/-- The number of suggestions dealt with. -/
def total (t : Tally) : Nat := t.edits.length + t.skipped

section

variable (t : Tally) (d : Diagnostic) (e : Edit)

@[simp] theorem edits_keep : (t.keep e).edits = t.edits ++ [e] := rfl

@[simp] theorem edits_skip : t.skip.edits = t.edits := rfl

@[simp] theorem total_keep : (t.keep e).total = t.total + 1 := by
  simp only [total, keep, List.length_append, List.length_singleton]
  omega

@[simp] theorem total_skip : t.skip.total = t.total + 1 := rfl

/-- What becomes of the edits does not depend on the number of those left out before. -/
theorem edits_collect : (t.collect d).edits = t.edits ++ d.edit?.toList := by
  unfold collect
  cases d.edit? with
  | some e => rfl
  | none =>
      by_cases reviewed : d.suggestion.isSome = true
      · simp [reviewed]
      · simp [reviewed]

/-- A diagnostic adds one to the total exactly if it suggests something: no edit comes from
one that does not. -/
theorem total_collect : (t.collect d).total = t.total + d.suggestion.toList.length := by
  unfold collect
  cases suggestion : d.suggestion with
  | none => simp [Diagnostic.edit?, suggestion]
  | some s => cases d.edit? <;> simp

/-- An edit is left out if one that is kept overlaps or repeats it, and kept otherwise. -/
theorem take_cases :
    ((∃ u ∈ t.edits, u.overlaps e = true ∨ u = e) ∧ t.take e = t.skip) ∨
      ((∀ u ∈ t.edits, u.overlaps e = false ∧ u ≠ e) ∧ t.take e = t.keep e) := by
  unfold take
  by_cases clash : (t.edits.any fun u => u.overlaps e || u == e) = true
  · left
    obtain ⟨u, kept, clashes⟩ := List.any_eq_true.mp clash
    exact ⟨⟨u, kept, by simpa using clashes⟩, if_pos clash⟩
  · right
    refine ⟨fun u kept => ?_, if_neg clash⟩
    simpa using fun clashes => clash (List.any_eq_true.mpr ⟨u, kept, clashes⟩)

theorem total_take : (t.take e).total = t.total + 1 := by
  rcases t.take_cases e with ⟨-, outcome⟩ | ⟨-, outcome⟩
  · rw [outcome, total_skip]
  · rw [outcome, total_keep]

theorem take_sublist : (t.take e).edits.Sublist (t.edits ++ [e]) := by
  rcases t.take_cases e with ⟨-, outcome⟩ | ⟨-, outcome⟩
  · rw [outcome]
    exact List.sublist_append_left t.edits [e]
  · rw [outcome]
    exact List.Sublist.refl _

theorem subset_take : t.edits ⊆ (t.take e).edits := by
  rcases t.take_cases e with ⟨-, outcome⟩ | ⟨-, outcome⟩
  · rw [outcome]
    exact List.Subset.refl _
  · rw [outcome]
    exact List.subset_append_left t.edits [e]

/-- Whether it is kept or not, something that overlaps or equals it is. -/
theorem exists_mem_take : ∃ u ∈ (t.take e).edits, u.overlaps e = true ∨ u = e := by
  rcases t.take_cases e with ⟨⟨u, kept, clash⟩, outcome⟩ | ⟨-, outcome⟩
  · rw [outcome]
    exact ⟨u, kept, clash⟩
  · rw [outcome]
    exact ⟨e, by simp, .inr rfl⟩

end

section

variable {t : Tally} {ds : List Diagnostic} {es : List Edit} {e : Edit}

/-- What one edit keeps: no two that are kept overlap, and they stay in order. -/
theorem take_pairwise (apart : t.edits.Pairwise Apart)
    (after : ∀ u ∈ t.edits, byStart u e = true) : (t.take e).edits.Pairwise Apart := by
  rcases t.take_cases e with ⟨-, outcome⟩ | ⟨free, outcome⟩
  · rw [outcome]
    exact apart
  · rw [outcome]
    refine List.pairwise_append.mpr ⟨apart, List.pairwise_singleton _ _, ?_⟩
    intro u kept f isE
    rw [List.mem_singleton.mp isE]
    exact ⟨after u kept, (free u kept).1⟩

theorem edits_foldl_collect :
    (ds.foldl collect t).edits = t.edits ++ ds.filterMap Diagnostic.edit? := by
  induction ds generalizing t with
  | nil => simp
  | cons d ds ih =>
      rw [List.foldl_cons, ih, edits_collect, List.append_assoc, List.filterMap_cons]
      cases d.edit? <;> rfl

theorem total_foldl_collect : (ds.foldl collect t).total = t.total + suggestions ds := by
  induction ds generalizing t with
  | nil => rfl
  | cons d ds ih =>
      have counted : suggestions (d :: ds) = suggestions ds + d.suggestion.toList.length := by
        rw [suggestions, List.countP_cons]
        cases d.suggestion <;> rfl
      rw [List.foldl_cons, ih, total_collect, counted]
      omega

theorem total_foldl_take : (es.foldl take t).total = t.total + es.length := by
  induction es generalizing t with
  | nil => rfl
  | cons e es ih =>
      rw [List.foldl_cons, ih, total_take, List.length_cons]
      omega

theorem foldl_take_sublist : (es.foldl take t).edits.Sublist (t.edits ++ es) := by
  induction es generalizing t with
  | nil => simp
  | cons e es ih =>
      have later : ((e :: es).foldl take t).edits.Sublist ((t.take e).edits ++ es) := ih
      have first : ((t.take e).edits ++ es).Sublist (t.edits ++ [e] ++ es) :=
        (t.take_sublist e).append_right es
      simpa only [List.append_assoc, List.singleton_append] using later.trans first

theorem subset_foldl_take : t.edits ⊆ (es.foldl take t).edits := by
  induction es generalizing t with
  | nil => exact List.Subset.refl _
  | cons e es ih => exact List.Subset.trans (t.subset_take e) ih

theorem foldl_take_pairwise (apart : t.edits.Pairwise Apart)
    (sorted : es.Pairwise fun a b => byStart a b = true)
    (after : ∀ u ∈ t.edits, ∀ e ∈ es, byStart u e = true) :
    (es.foldl take t).edits.Pairwise Apart := by
  induction es generalizing t with
  | nil => exact apart
  | cons e es ih =>
      obtain ⟨first, sorted⟩ := List.pairwise_cons.mp sorted
      apply ih (take_pairwise apart fun u kept => after u kept e List.mem_cons_self) sorted
      intro u kept f inside
      rcases List.mem_append.mp ((t.take_sublist e).subset kept) with kept | isE
      · exact after u kept f (List.mem_cons_of_mem e inside)
      · rw [List.mem_singleton.mp isE]
        exact first f inside

/-- An edit is left out only for one that is kept. -/
theorem exists_mem_foldl_take (inside : e ∈ es) :
    ∃ u ∈ (es.foldl take t).edits, u.overlaps e = true ∨ u = e := by
  obtain ⟨before, behind, rfl⟩ := List.append_of_mem inside
  rw [List.foldl_append, List.foldl_cons]
  obtain ⟨u, kept, clash⟩ := (before.foldl take t).exists_mem_take e
  exact ⟨u, subset_foldl_take kept, clash⟩

end

end Tally

/-! ## What is selected -/

theorem edits_candidates (ds : List Diagnostic) :
    (candidates ds).edits = ds.filterMap Diagnostic.edit? :=
  Tally.edits_foldl_collect

theorem mem_candidates {ds : List Diagnostic} {e : Edit} :
    e ∈ (candidates ds).edits ↔ ∃ d ∈ ds, d.edit? = some e := by
  rw [edits_candidates, List.mem_filterMap]

theorem select_pairwise (t : Tally) : (select t).edits.Pairwise Apart :=
  Tally.foldl_take_pairwise List.Pairwise.nil
    (List.pairwise_mergeSort byStart_trans byStart_total t.edits) fun _ inside => nomatch inside

theorem mem_of_mem_select {t : Tally} {e : Edit} (selected : e ∈ (select t).edits) :
    e ∈ t.edits := by
  have sorted : e ∈ t.edits.mergeSort byStart := Tally.foldl_take_sublist.subset selected
  exact List.mem_mergeSort.mp sorted

theorem exists_mem_select {t : Tally} {e : Edit} (suggested : e ∈ t.edits) :
    ∃ u ∈ (select t).edits, u.overlaps e = true ∨ u = e :=
  Tally.exists_mem_foldl_take (List.mem_mergeSort.mpr suggested)

/-- The selection deals with every edit that is suggested, and with no suggestion twice. -/
theorem total_select (t : Tally) : (select t).total = t.total := by
  rw [select, Tally.total_foldl_take, List.length_mergeSort]
  show 0 + t.skipped + t.edits.length = t.edits.length + t.skipped
  omega

/-- Every suggestion is either selected or left out. -/
theorem total_select_candidates (ds : List Diagnostic) :
    (select (candidates ds)).total = suggestions ds := by
  rw [total_select, candidates, Tally.total_foldl_collect]
  exact Nat.zero_add _

/-! ## In which order it is made -/

/-- Of two edits that lie apart and start together the second inserts. -/
theorem Apart.stop_le {a b : Edit} (apart : Apart a b) (together : a.start = b.start) :
    b.stop ≤ a.start := by
  obtain ⟨before, clear⟩ := apart
  simp only [byStart, decide_eq_true_eq] at before
  simp only [Edit.overlaps, Bool.and_eq_false_iff, decide_eq_false_iff_not] at clear
  omega

/-- Of two edits that lie apart the first ends where the second starts, or
before, if they do not start together. -/
theorem Apart.stop_le_start {a b : Edit} (apart : Apart a b) (order : b.start ≤ b.stop)
    (later : a.start < b.start) : a.stop ≤ b.start := by
  obtain ⟨-, clear⟩ := apart
  simp only [Edit.overlaps, Bool.and_eq_false_iff, decide_eq_false_iff_not] at clear
  omega

theorem laterStart_trans (a b c : Edit) (first : decide (b.start ≤ a.start) = true)
    (second : decide (c.start ≤ b.start) = true) : decide (c.start ≤ a.start) = true := by
  simp only [decide_eq_true_eq] at *
  omega

theorem laterStart_total (a b : Edit) :
    (decide (b.start ≤ a.start) || decide (a.start ≤ b.start)) = true := by
  simp only [Bool.or_eq_true, decide_eq_true_eq]
  omega

/-- Sorting puts of two edits the one that starts later first, and leaves those that
start together as they are. -/
theorem pairwise_lastFirst {R : Edit → Edit → Prop} {es : List Edit}
    (ordered : es.Pairwise fun a b =>
      (b.start ≤ a.start → R a b) ∧ (a.start < b.start → R b a)) :
    (Edit.lastFirst es).Pairwise R := by
  induction es with
  | nil => simp [Edit.lastFirst]
  | cons e es ih =>
      obtain ⟨first, ordered⟩ := List.pairwise_cons.mp ordered
      -- Sorting places `e` between what starts behind it and what starts with it.
      obtain ⟨behind, together, sorted, sortedRest, later⟩ :=
        List.mergeSort_cons laterStart_trans laterStart_total e es
      have made : (behind ++ together).Pairwise R := by
        rw [← sortedRest]
        exact ih ordered
      have known : ∀ f, f ∈ behind ∨ f ∈ together → f ∈ es := by
        intro f inside
        rw [← List.mem_append, ← sortedRest] at inside
        exact (List.mergeSort_perm es _).mem_iff.mp inside
      have notLater : ∀ f ∈ together, f.start ≤ e.start := by
        have := List.pairwise_mergeSort laterStart_trans laterStart_total (e :: es)
        rw [sorted] at this
        intro f inside
        have := (List.pairwise_cons.mp (List.pairwise_append.mp this).2.1).1 f inside
        simpa using this
      obtain ⟨madeBehind, madeTogether, between⟩ := List.pairwise_append.mp made
      rw [Edit.lastFirst, sorted]
      refine List.pairwise_append.mpr ⟨madeBehind, List.pairwise_cons.mpr ⟨?_, madeTogether⟩, ?_⟩
      · intro f inside
        exact (first f (known f (.inr inside))).1 (notLater f inside)
      · intro f inside g inside'
        rcases List.mem_cons.mp inside' with rfl | inside'
        · exact (first f (known f (.inl inside))).2 (by simpa using later f inside)
        · exact between f inside g inside'

/-- From the last to the first, every edit lies in front of those made before
it. -/
theorem lastFirst_pairwise {es : List Edit} (apart : es.Pairwise Apart)
    (order : ∀ e ∈ es, e.start ≤ e.stop) :
    (Edit.lastFirst es).Pairwise fun a b => b.stop ≤ a.start := by
  apply pairwise_lastFirst
  refine apart.imp_of_mem fun {a b} _ inside apart => ⟨fun notLater => ?_, fun later => ?_⟩
  · have before := apart.1
    simp only [byStart, decide_eq_true_eq] at before
    exact apart.stop_le (by omega)
  · exact apart.stop_le_start (order b inside) later

/-- Edits that lie apart come out as their splice. -/
theorem applyAll_spliced {source : List Char} {es : List Edit} (apart : es.Pairwise Apart)
    (inRange : ∀ e ∈ es, e.InRange source) :
    ∃ out ordered, Edit.applyAll source es = .ok out ∧ ordered.Perm es ∧
      Edit.Spliced 0 source ordered out := by
  have known : ∀ e ∈ Edit.lastFirst es, e.InRange source :=
    fun e inside => inRange e (List.mem_mergeSort.mp inside)
  have descending := lastFirst_pairwise apart fun e inside => (inRange e inside).start_le_stop
  obtain ⟨out, made, spliced⟩ := Edit.spliceAll?_spliced source [] [] [] descending
    (fun e inside => (List.append_nil source).symm ▸ known e inside)
    (fun e inside => (known e inside).stop_le_length) (.done _ [])
  rw [List.append_nil] at made
  rw [List.append_nil, List.append_nil] at spliced
  have clear := Edit.faults?_eq_none inRange (apart.imp And.right)
  refine ⟨out, (Edit.lastFirst es).reverse, by rw [Edit.applyAll, clear, made], ?_, spliced⟩
  exact (List.reverse_perm _).trans (List.mergeSort_perm es _)

/-- What a round comes to is what the selected edits make of the text. -/
theorem fixOnce_eq (source : List Char) (ds : List Diagnostic) :
    fixOnce source ds = (Edit.applyAll source (select (candidates ds)).edits).map fun text =>
      ⟨text, (select (candidates ds)).edits.length, (select (candidates ds)).skipped⟩ := rfl

/-- A round whose edits lie in the text succeeds, and its text is the splice of those that are
selected. -/
theorem fixOnce_eq_ok {source : List Char} {ds : List Diagnostic}
    (inRange : ∀ d ∈ ds, ∀ e, d.edit? = some e → e.InRange source) :
    ∃ out ordered, fixOnce source ds = .ok ⟨out, (select (candidates ds)).edits.length,
        (select (candidates ds)).skipped⟩ ∧
      ordered.Perm (select (candidates ds)).edits ∧ Edit.Spliced 0 source ordered out := by
  have selectedInRange : ∀ e ∈ (select (candidates ds)).edits, e.InRange source := by
    intro e selected
    obtain ⟨d, inside, suggested⟩ := mem_candidates.mp (mem_of_mem_select selected)
    exact inRange d inside e suggested
  obtain ⟨out, ordered, applied, perm, spliced⟩ :=
    applyAll_spliced (select_pairwise (candidates ds)) selectedInRange
  refine ⟨out, ordered, ?_, perm, spliced⟩
  rw [fixOnce_eq, applied]
  rfl

end Fix

/-- **A round of fixes is one splice.**  If the ranges of all suggestions that can
be made lie in the text, the round succeeds.  Its text is the splice of the
selected edits, put in some order, and no other text is.  What is selected is
suggested, and what is not clashes with something selected; the counts are those
of the selected edits and of the other suggestions. -/
theorem fixOnce_splices (source : List Char) (ds : List Diagnostic)
    (inRange : ∀ d ∈ ds, ∀ e, d.edit? = some e → e.InRange source) :
    ∃ r, fixOnce source ds = .ok r ∧
      (∃ es, es.Perm (Fix.select (Fix.candidates ds)).edits ∧
        ∀ out, Edit.Spliced 0 source es out ↔ out = r.source) ∧
      (∀ e ∈ (Fix.select (Fix.candidates ds)).edits, ∃ d ∈ ds, d.edit? = some e) ∧
      (∀ d ∈ ds, ∀ e, d.edit? = some e → ∃ t ∈ (Fix.select (Fix.candidates ds)).edits,
        t.overlaps e = true ∨ t = e) ∧
      r.applied = (Fix.select (Fix.candidates ds)).edits.length ∧
      r.applied + r.skipped = Fix.suggestions ds := by
  obtain ⟨out, ordered, fixed, perm, spliced⟩ := Fix.fixOnce_eq_ok inRange
  refine ⟨_, fixed, ⟨ordered, perm, fun out' => ⟨?_, ?_⟩⟩, ?_, ?_, rfl, ?_⟩
  · exact fun spliced' => spliced'.unique spliced
  · rintro rfl
    exact spliced
  · exact fun e selected => Fix.mem_candidates.mp (Fix.mem_of_mem_select selected)
  · intro d inside e suggested
    exact Fix.exists_mem_select (Fix.mem_candidates.mpr ⟨d, inside, suggested⟩)
  · exact Fix.total_select_candidates ds

/-- A diagnostic of a rule that suggests a text for a range. -/
def suggesting (rule : Rule) (start stop : Nat) (text : String) : Diagnostic where
  rule
  level := .error
  location := ⟨⟨1, 1⟩, ⟨1, 1⟩, ⟨start, stop⟩⟩
  message := ""
  suggestion := some (.ofFix text)

/-- Two insertions, a range that starts with them, a range inside it, and a range
behind a character of two bytes. -/
def crowded : List Diagnostic :=
  [suggesting .lenAssertion 0 0 "1", suggesting .nilAssertion 0 3 "2",
   suggesting .capAssertion 0 0 "3", suggesting .errorAssertion 1 3 "4",
   suggesting .lenAssertion 3 4 "5"]

/-- The insertions stand in front of the range, and the range inside is left. -/
theorem fixOnce_splices_crowded :
    fixOnce "xéy".toList crowded = .ok ⟨"3125".toList, 4, 1⟩ ∧
      ∃ es, es.Perm (Fix.select (Fix.candidates crowded)).edits ∧
        Edit.Spliced 0 "xéy".toList es "3125".toList := by
  have made : fixOnce "xéy".toList crowded = .ok ⟨"3125".toList, 4, 1⟩ := by cbv
  have inRange : ∀ d ∈ crowded, ∀ e, d.edit? = some e → e.InRange "xéy".toList := by
    intro d inside e suggested
    simp only [crowded, List.mem_cons, List.not_mem_nil, or_false] at inside
    rcases inside with rfl | rfl | rfl | rfl | rfl <;> cases suggested <;> constructor <;> decide
  obtain ⟨r, fixed, ⟨es, perm, spliced⟩, -⟩ := fixOnce_splices "xéy".toList crowded inRange
  rw [made] at fixed
  cases fixed
  exact ⟨made, es, perm, (spliced _).mpr rfl⟩

end GomegaLint
