import Mathlib
import GomegaLint.Proofs.Splice

/-!
# The order in which edits are given

Edits may be given in any order: they are made from the last to the first, and the
splice does not say in which order they came.  Sorting them looks at their starts
alone, though, and several edits can start together: some insertions, and one range
that is replaced.  If an insertion is given before the range, it is made first and
stands where the range was; the range is then replaced in a text that has moved.

* `Edit.Orderly`: no insertion is given before a range that starts with it.
* `Edit.Orderly.applyAll_spliced`: orderly edits come out as their splice.
* `Edit.Spliced.same_ranges`: the splices of the same edits agree but for the order of
  insertions at one offset.
* `Edit.exists_misplaced`: edits that are not orderly go wrong in some text.  In a text
  of one letter, replacing a range takes away as many of these letters as the range is
  long, and fewer if it takes away something that was inserted.
* `Edit.applyAll_anyOrder` puts these together.
-/

namespace GomegaLint

namespace Edit

/-- The range of bytes that an edit replaces. -/
def range (e : Edit) : Nat × Nat := (e.start, e.stop)

/-- The edit replaces nothing by nothing. -/
def isIdle (e : Edit) : Bool := e.start == e.stop && e.replacement.toList.isEmpty

/-- No text is inserted by an edit that is given before the edit of a range with the
same start. -/
def Orderly (es : List Edit) : Prop :=
  es.Pairwise fun a b => a.start = b.start → a.replacement = "" ∨ b.stop = b.start

instance (es : List Edit) : Decidable (Orderly es) :=
  inferInstanceAs (Decidable (es.Pairwise _))

/-! ## Edits that are accepted -/

theorem overlaps_comm (a b : Edit) : a.overlaps b = b.overlaps a := Bool.and_comm _ _

instance : Std.Symm fun a b : Edit => a.overlaps b = false :=
  ⟨fun a b clear => overlaps_comm a b ▸ clear⟩

theorem overlaps_idle {a b : Edit} (idle : a.isIdle = true) (idle' : b.isIdle = true) :
    a.overlaps b = false := by
  simp only [isIdle, Bool.and_eq_true, beq_iff_eq] at idle idle'
  simp only [overlaps, Bool.and_eq_false_iff, decide_eq_false_iff_not]
  omega

theorem fault?_eq_none {source : List Char} {e : Edit} (good : fault? source e = none) :
    e.InRange source := by
  unfold fault? at good
  split at good
  · cases good
  · split at good
    · cases good
    · rename_i order bounds
      simp only [Bool.or_eq_true, decide_eq_true_eq, Bool.not_eq_true', not_or, Bool.not_eq_false,
        Nat.not_lt] at order bounds
      exact ⟨order, bounds.1.1, bounds.1.2, bounds.2⟩

theorem pairwise_of_firstOverlap? {es : List Edit} (clear : firstOverlap? es = none) :
    es.Pairwise fun a b => a.overlaps b = false := by
  induction es with
  | nil => exact .nil
  | cons e es ih =>
      rw [firstOverlap?] at clear
      split at clear
      · cases clear
      · rename_i none_found
        exact .cons (by simpa using none_found) (ih clear)

/-- Edits are accepted if their ranges are good and lie apart. -/
theorem faults?_eq_none_iff {source : List Char} {es : List Edit} :
    faults? source es = none ↔
      (∀ e ∈ es, e.InRange source) ∧ es.Pairwise fun a b => a.overlaps b = false := by
  refine ⟨fun accepted => ?_, fun ⟨inRange, apart⟩ => faults?_eq_none inRange apart⟩
  obtain ⟨ranges, clear⟩ := Option.or_eq_none_iff.mp accepted
  refine ⟨fun e inside => ?_, pairwise_of_firstOverlap? clear⟩
  exact fault?_eq_none (List.findSome?_eq_none_iff.mp ranges e inside)

/-- The order of edits does not matter to their being accepted. -/
theorem faults?_perm {source : List Char} {es es' : List Edit} (perm : es'.Perm es)
    (accepted : faults? source es = none) : faults? source es' = none := by
  obtain ⟨inRange, apart⟩ := faults?_eq_none_iff.mp accepted
  refine faults?_eq_none_iff.mpr ⟨fun e inside => inRange e (perm.mem_iff.mp inside), ?_⟩
  exact apart.perm perm.symm fun {a b} clear => overlaps_comm a b ▸ clear

/-! ## One edit -/

/-- An edit that can be made puts its replacement between what stands around its
range. -/
theorem splice?_eq_some {text out : List Char} {e : Edit} (made : splice? text e = some out) :
    ∃ before removed behind, text = before ++ (removed ++ behind) ∧ byteLength before = e.start ∧
      byteLength removed = e.stop - e.start ∧
      out = before ++ (e.replacement.toList ++ behind) := by
  simp only [splice?, Option.bind_eq_bind, Option.bind_eq_some_iff, Option.pure_def,
    Option.some.injEq, Prod.exists] at made
  obtain ⟨before, rest, first, removed, behind, second, rfl⟩ := made
  obtain ⟨rfl, starts⟩ := splitAtByte?_eq_some_iff.mp first
  obtain ⟨rfl, stops⟩ := splitAtByte?_eq_some_iff.mp second
  exact ⟨before, removed, behind, rfl, starts, stops, List.append_assoc ..⟩

/-- An edit leaves alone what stands in front of its range. -/
theorem splice?_keeps_front {front rest out : List Char} {e : Edit}
    (starts : byteLength front ≤ e.start) (made : splice? (front ++ rest) e = some out) :
    ∃ rest', out = front ++ rest' := by
  obtain ⟨before, removed, behind, shape, length, -, rfl⟩ := splice?_eq_some made
  obtain ⟨more, rfl, -⟩ := exists_cut shape (by omega)
  exact ⟨more ++ (e.replacement.toList ++ behind), by simp⟩

/-- An insertion behind the front of a text. -/
theorem splice?_insertion {front : List Char} {e : Edit} (starts : byteLength front = e.start)
    (inserts : e.stop = e.start) (rest : List Char) :
    splice? (front ++ rest) e = some (front ++ (e.replacement.toList ++ rest)) := by
  have stops : e.start + byteLength [] = e.stop := inserts.symm
  have made : splice? (front ++ [] ++ [] ++ rest) e = _ := splice?_eq starts stops
  simpa using made

theorem splice?_idle {front : List Char} {e : Edit} (idle : e.isIdle = true)
    (boundary : isBoundary e.start front = true) (rest : List Char) :
    splice? (front ++ rest) e = some (front ++ rest) := by
  simp only [isIdle, Bool.and_eq_true, beq_iff_eq, List.isEmpty_iff] at idle
  obtain ⟨a, b, rfl, starts⟩ := exists_of_isBoundary boundary
  have made := splice?_insertion starts idle.1.symm (b ++ rest)
  simpa [idle.2] using made

/-! ## Edits in a row -/

theorem spliceAll?_append (es fs : List Edit) :
    ∀ text, spliceAll? text (es ++ fs) = (spliceAll? text es).bind (spliceAll? · fs) := by
  induction es with
  | nil => exact fun _ => rfl
  | cons e es ih =>
      intro text
      rw [List.cons_append, spliceAll?, spliceAll?]
      cases splice? text e with
      | none => rfl
      | some text' => exact ih text'

/-- Edits leave alone what stands in front of all their ranges. -/
theorem spliceAll?_keeps_front {front : List Char} {es : List Edit} :
    ∀ {rest out : List Char}, (∀ e ∈ es, byteLength front ≤ e.start) →
      spliceAll? (front ++ rest) es = some out → ∃ rest', out = front ++ rest' := by
  induction es with
  | nil =>
      rintro rest out - ⟨⟩
      exact ⟨rest, rfl⟩
  | cons e es ih =>
      intro rest out starts made
      obtain ⟨first, starts⟩ := List.forall_mem_cons.mp starts
      obtain ⟨text, made, others⟩ := Option.bind_eq_some_iff.mp made
      obtain ⟨rest', rfl⟩ := splice?_keeps_front first made
      exact ih starts others

/-- Insertions at one offset end up in the order opposite to that in which they are
made. -/
theorem spliceAll?_insertions {front : List Char} {es : List Edit} :
    ∀ {rest : List Char}, (∀ e ∈ es, e.start = byteLength front ∧ e.stop = byteLength front) →
      spliceAll? (front ++ rest) es =
        some (front ++ (es.reverse.flatMap (·.replacement.toList) ++ rest)) := by
  induction es with
  | nil => exact fun _ => by simp [spliceAll?]
  | cons e es ih =>
      intro rest together
      obtain ⟨⟨starts, stops⟩, together⟩ := List.forall_mem_cons.mp together
      rw [spliceAll?, splice?_insertion starts.symm (stops.trans starts.symm)]
      simp only [Option.bind_eq_bind, Option.bind_some]
      rw [ih together]
      simp

/-- Edits that replace nothing by nothing can be left out. -/
theorem spliceAll?_filter_idle {es : List Edit} :
    ∀ {front behind : List Char}, es.Pairwise (fun a b => b.start ≤ a.start) →
      (∀ e ∈ es, e.start ≤ byteLength front) →
      (∀ e ∈ es, e.isIdle = true → isBoundary e.start front = true) →
      spliceAll? (front ++ behind) es = spliceAll? (front ++ behind) (es.filter (!·.isIdle)) := by
  induction es with
  | nil => exact fun _ _ _ => rfl
  | cons e es ih =>
      intro front behind descending ends boundaries
      obtain ⟨notLater, descending⟩ := List.pairwise_cons.mp descending
      obtain ⟨end_le, ends⟩ := List.forall_mem_cons.mp ends
      obtain ⟨boundary, boundaries⟩ := List.forall_mem_cons.mp boundaries
      cases idle : e.isIdle with
      | true =>
          rw [List.filter_cons_of_neg (by simp [idle]), spliceAll?,
            splice?_idle idle (boundary idle)]
          exact ih descending ends boundaries
      | false =>
          rw [List.filter_cons_of_pos (by simp [idle]), spliceAll?, spliceAll?]
          cases made : splice? (front ++ behind) e with
          | none => rfl
          | some text =>
              obtain ⟨before, removed, after, shape, starts, -, rfl⟩ := splice?_eq_some made
              obtain ⟨more, rfl, -⟩ := exists_cut shape.symm (by omega)
              -- What stands in front of this edit is still as it was, and later edits lie there.
              refine ih descending (fun f inside => ?_) (fun f inside isIdle => ?_)
              · rw [starts]
                exact notLater f inside
              · obtain ⟨a, b, cut, length⟩ := exists_of_isBoundary (boundaries f inside isIdle)
                have inFront := notLater f inside
                obtain ⟨rest, rfl, -⟩ := exists_cut cut.symm (by omega)
                rw [isBoundary, splitAtByte?_eq_some_iff.mpr ⟨rfl, length⟩]
                rfl

/-! ## Orderly edits -/

theorem lastFirst_starts (es : List Edit) :
    (lastFirst es).Pairwise fun a b => b.start ≤ a.start :=
  (List.pairwise_mergeSort Fix.laterStart_trans Fix.laterStart_total es).imp
    fun later => by simpa using later

/-- Of orderly edits, from the last to the first, each lies in front of those made
before it. -/
theorem Orderly.lastFirst {es : List Edit} (orderly : Orderly es)
    (order : ∀ e ∈ es, e.start ≤ e.stop) (apart : es.Pairwise fun a b => a.overlaps b = false) :
    (lastFirst es).Pairwise fun a b => a.isIdle = false → b.stop ≤ a.start := by
  apply Fix.pairwise_lastFirst
  refine (orderly.and apart).imp_of_mem fun {a b} insideA insideB both => ?_
  obtain ⟨orderly, clear⟩ := both
  have orderA := order a insideA
  have orderB := order b insideB
  simp only [overlaps, Bool.and_eq_false_iff, decide_eq_false_iff_not] at clear
  constructor
  · intro notLater busy
    by_cases together : a.start = b.start
    · rcases orderly together with nothing | inserts
      · simp only [isIdle, nothing, Bool.and_eq_false_iff, beq_eq_false_iff_ne] at busy
        rcases busy with wide | text
        · omega
        · simp at text
      · omega
    · omega
  · intro later _
    omega

namespace Spliced

/-- An edit that replaces nothing by nothing in front of the others. -/
theorem cons_idle {offset : Nat} {front rest result : List Char} {e : Edit} {es : List Edit}
    (idle : e.isIdle = true) (starts : offset + byteLength front = e.start)
    (behind : Spliced e.start rest es result) :
    Spliced offset (front ++ rest) (e :: es) (front ++ result) := by
  simp only [isIdle, Bool.and_eq_true, beq_iff_eq, List.isEmpty_iff] at idle
  obtain ⟨inserts, nothing⟩ := idle
  have stops : e.start + byteLength [] = e.stop := inserts
  rw [inserts] at behind
  simpa [nothing] using Spliced.replace starts stops behind

/-- An edit that replaces nothing by nothing finds a place in a splice. -/
theorem insert_idle {offset : Nat} {text out : List Char} {es : List Edit} {e : Edit}
    (spliced : Spliced offset text es out) (idle : e.isIdle = true)
    (apart : ∀ f ∈ es, e.overlaps f = false) {front rest : List Char}
    (cut : text = front ++ rest) (starts : offset + byteLength front = e.start) :
    ∃ es', es'.Perm (e :: es) ∧ Spliced offset text es' out := by
  have inserts : e.start = e.stop := eq_of_beq (Bool.and_eq_true_iff.mp idle).1
  induction spliced generalizing front with
  | done offset text =>
      subst cut
      exact ⟨[e], .refl _, cons_idle idle starts (.done _ _)⟩
  | @replace offset kept removed more result f es starts' stops' behind ih =>
      obtain ⟨clear, apart⟩ := List.forall_mem_cons.mp apart
      simp only [overlaps, Bool.and_eq_false_iff, decide_eq_false_iff_not] at clear
      by_cases before : e.start ≤ f.start
      · rw [List.append_assoc] at cut
        obtain ⟨between, rfl, -⟩ := exists_cut cut.symm (by omega)
        have later : e.start + byteLength between = f.start := by
          rw [byteLength_append] at starts'
          omega
        have first := cons_idle idle starts (Spliced.replace later stops' behind)
        exact ⟨e :: f :: es, .refl _, by simpa only [List.append_assoc] using first⟩
      · have length : byteLength (kept ++ removed) ≤ byteLength front := by
          rw [byteLength_append]
          omega
        obtain ⟨between, rfl, behindRange⟩ := exists_cut cut length
        have later : f.stop + byteLength between = e.start := by
          simp only [byteLength_append] at starts
          omega
        obtain ⟨es', perm, spliced⟩ := ih apart behindRange later
        refine ⟨f :: es', ?_, .replace starts' stops' spliced⟩
        exact (perm.cons f).trans (.swap e f es)

/-- So do any number of them. -/
theorem insert_idles {text out : List Char} {es idles : List Edit} (spliced : Spliced 0 text es out)
    (idle : ∀ e ∈ idles, e.isIdle = true) (inRange : ∀ e ∈ idles, e.InRange text)
    (apart : ∀ e ∈ idles, ∀ f ∈ es, e.overlaps f = false) :
    ∃ es', es'.Perm (idles ++ es) ∧ Spliced 0 text es' out := by
  induction idles with
  | nil => exact ⟨es, .refl es, spliced⟩
  | cons e idles ih =>
      obtain ⟨isIdle, idle⟩ := List.forall_mem_cons.mp idle
      obtain ⟨good, inRange⟩ := List.forall_mem_cons.mp inRange
      obtain ⟨clear, apart⟩ := List.forall_mem_cons.mp apart
      obtain ⟨es', perm, spliced⟩ := ih idle inRange apart
      obtain ⟨front, rest, cut, length⟩ := exists_of_isBoundary good.start_boundary
      have clear' : ∀ f ∈ es', e.overlaps f = false := by
        intro f inside
        rcases List.mem_append.mp (perm.mem_iff.mp inside) with among | among
        · exact overlaps_idle isIdle (idle f among)
        · exact clear f among
      obtain ⟨es'', perm', spliced⟩ :=
        spliced.insert_idle isIdle clear' cut ((Nat.zero_add _).trans length)
      exact ⟨es'', perm'.trans (perm.cons e), spliced⟩

theorem iff_eq {offset : Nat} {text out : List Char} {es : List Edit}
    (spliced : Spliced offset text es out) (out' : List Char) :
    Spliced offset text es out' ↔ out' = out :=
  ⟨fun spliced' => spliced'.unique spliced, fun same => same ▸ spliced⟩

/-- The edits of a splice stand one behind the other. -/
theorem pairwise {offset : Nat} {text out : List Char} {es : List Edit}
    (spliced : Spliced offset text es out) :
    (∀ e ∈ es, offset ≤ e.start ∧ e.start ≤ e.stop) ∧
      es.Pairwise fun a b => a.start ≤ b.start ∧ a.stop ≤ b.stop := by
  induction spliced with
  | done => exact ⟨by simp, .nil⟩
  | @replace offset kept removed rest result e es starts stops behind ih =>
      obtain ⟨later, sorted⟩ := ih
      refine ⟨List.forall_mem_cons.mpr ⟨by omega, fun f inside => ?_⟩,
        .cons (fun f inside => ?_) sorted⟩
      · have := later f inside
        omega
      · have := later f inside
        omega

/-- Two splices of the same edits have the same ranges at the same places. -/
theorem same_ranges {text text' out out' : List Char} {es es' : List Edit}
    (spliced : Spliced 0 text es out) (spliced' : Spliced 0 text' es' out') (perm : es.Perm es') :
    es.map range = es'.map range := by
  have sorted : (es.map range).Pairwise fun a b => a.1 ≤ b.1 ∧ a.2 ≤ b.2 :=
    List.pairwise_map.mpr spliced.pairwise.2
  have sorted' : (es'.map range).Pairwise fun a b => a.1 ≤ b.1 ∧ a.2 ≤ b.2 :=
    List.pairwise_map.mpr spliced'.pairwise.2
  refine List.Perm.eq_of_pairwise (fun a b _ _ before behind => ?_) sorted sorted' (perm.map range)
  exact Prod.ext (Nat.le_antisymm before.1 behind.1) (Nat.le_antisymm before.2 behind.2)

/-- With different ranges there is one order for a splice. -/
theorem eq_of_nodup {text text' out out' : List Char} {es es' : List Edit}
    (spliced : Spliced 0 text es out) (spliced' : Spliced 0 text' es' out') (perm : es.Perm es')
    (nodup : (es.map range).Nodup) : es = es' := by
  refine List.Perm.eq_of_pairwise (fun a b inside inside' before behind => ?_)
    spliced.pairwise.2 spliced'.pairwise.2 perm
  have same : a.range = b.range :=
    Prod.ext (Nat.le_antisymm before.1 behind.1) (Nat.le_antisymm before.2 behind.2)
  exact List.inj_on_of_nodup_map nodup inside (perm.mem_iff.mpr inside') same

end Spliced

/-- Edits from the last to the first, some of which may do nothing, come out as their
splice. -/
theorem spliceAll?_of_descending {source : List Char} {es : List Edit}
    (inRange : ∀ e ∈ es, e.InRange source) (apart : es.Pairwise fun a b => a.overlaps b = false)
    (starts : es.Pairwise fun a b => b.start ≤ a.start)
    (descending : es.Pairwise fun a b => a.isIdle = false → b.stop ≤ a.start) :
    ∃ out ordered, spliceAll? source es = some out ∧ ordered.Perm es ∧
      Spliced 0 source ordered out := by
  have busy : (es.filter (!·.isIdle)).Pairwise fun a b => b.stop ≤ a.start := by
    refine (descending.filter _).imp_of_mem fun {a b} inside _ before => before ?_
    simpa using (List.mem_filter.mp inside).2
  have known : ∀ e ∈ es.filter (!·.isIdle), e.InRange source :=
    fun e inside => inRange e (List.mem_of_mem_filter inside)
  obtain ⟨out, made, spliced⟩ := spliceAll?_spliced source [] [] [] busy
    (fun e inside => (List.append_nil source).symm ▸ known e inside)
    (fun e inside => (known e inside).stop_le_length) (.done _ [])
  rw [← spliceAll?_filter_idle starts
    (fun e inside => (inRange e inside).start_le_stop.trans (inRange e inside).stop_le_length)
    (fun e inside _ => (inRange e inside).start_boundary), List.append_nil] at made
  rw [List.append_nil, List.append_nil] at spliced
  have clear : ∀ e ∈ es.filter isIdle, ∀ f ∈ (es.filter (!·.isIdle)).reverse,
      e.overlaps f = false := by
    intro e inside f inside'
    obtain ⟨member, idle⟩ := List.mem_filter.mp inside
    obtain ⟨member', isBusy⟩ := List.mem_filter.mp (List.mem_reverse.mp inside')
    refine apart.forall member member' ?_
    rintro rfl
    simp [idle] at isBusy
  obtain ⟨ordered, perm, spliced⟩ := spliced.insert_idles
    (fun e inside => (List.mem_filter.mp inside).2)
    (fun e inside => inRange e (List.mem_of_mem_filter inside)) clear
  refine ⟨out, ordered, made, perm.trans ?_, spliced⟩
  exact ((List.reverse_perm _).append_left _).trans (List.filter_append_perm _ es)

/-- **Orderly edits come out as their splice.** -/
theorem Orderly.applyAll_spliced {source : List Char} {es : List Edit} (orderly : Orderly es)
    (accepted : faults? source es = none) :
    ∃ out ordered, applyAll source es = .ok out ∧ ordered.Perm es ∧
      Spliced 0 source ordered out := by
  obtain ⟨inRange, apart⟩ := faults?_eq_none_iff.mp accepted
  have perm : (Edit.lastFirst es).Perm es := List.mergeSort_perm es _
  obtain ⟨-, apart'⟩ := faults?_eq_none_iff.mp (faults?_perm perm accepted)
  obtain ⟨out, ordered, made, perm', spliced⟩ := spliceAll?_of_descending
    (fun e inside => inRange e (perm.mem_iff.mp inside)) apart' (lastFirst_starts es)
    (orderly.lastFirst (fun e inside => (inRange e inside).start_le_stop) apart)
  exact ⟨out, ordered, by rw [applyAll, accepted, made], perm'.trans perm, spliced⟩

/-! ## Insertions that are given too early -/

/-- The number of bytes in the ranges of edits. -/
def width (es : List Edit) : Nat := (es.map fun e => e.stop - e.start).sum

/-- How often a letter stands in the replacements of edits. -/
def supply (x : Char) (es : List Edit) : Nat := (es.map (·.replacement.toList.count x)).sum

theorem byteLength_replicate {x : Char} (byte : x.utf8Size = 1) (n : Nat) :
    byteLength (List.replicate n x) = n := by
  induction n with
  | zero => rfl
  | succ n ih =>
      rw [List.replicate_succ, byteLength_cons, ih, byte]
      omega

theorem length_le_byteLength (cs : List Char) : cs.length ≤ byteLength cs := by
  induction cs with
  | nil => exact Nat.le_refl 0
  | cons c cs ih =>
      have := Char.utf8Size_pos c
      rw [List.length_cons, byteLength_cons]
      omega

/-- What an edit does to the number of a letter. -/
theorem count_splice? {text out : List Char} {e : Edit} (x : Char)
    (made : splice? text e = some out) :
    text.count x + e.replacement.toList.count x ≤ out.count x + (e.stop - e.start) := by
  obtain ⟨before, removed, behind, rfl, -, width, rfl⟩ := splice?_eq_some made
  have few : removed.count x ≤ byteLength removed :=
    List.count_le_length.trans (length_le_byteLength removed)
  simp only [List.count_append]
  omega

theorem count_spliceAll? {es : List Edit} (x : Char) :
    ∀ {text out : List Char}, spliceAll? text es = some out →
      text.count x + supply x es ≤ out.count x + width es := by
  induction es with
  | nil =>
      rintro text out ⟨⟩
      exact Nat.le_refl _
  | cons e es ih =>
      intro text out made
      obtain ⟨text', made, others⟩ := Option.bind_eq_some_iff.mp made
      have first := count_splice? x made
      have later := ih others
      simp only [supply, width, List.map_cons, List.sum_cons] at *
      omega

/-- A range that begins with another letter has fewer of the letter than bytes. -/
theorem count_splice?_lt {front rest out : List Char} {e : Edit} {x c : Char} (other : c ≠ x)
    (starts : byteLength front = e.start) (wide : e.start < e.stop)
    (made : splice? (front ++ c :: rest) e = some out) :
    (front ++ c :: rest).count x + e.replacement.toList.count x <
      out.count x + (e.stop - e.start) := by
  obtain ⟨before, removed, behind, shape, length, width, rfl⟩ := splice?_eq_some made
  obtain ⟨rfl, rest_eq⟩ := append_inj_of_byteLength shape (starts.trans length.symm)
  rw [shape]
  cases removed with
  | nil =>
      rw [byteLength_nil] at width
      omega
  | cons d removed =>
      obtain rfl : c = d := (List.cons.inj rest_eq).1
      have few : removed.count x ≤ byteLength removed :=
        List.count_le_length.trans (length_le_byteLength removed)
      have := Char.utf8Size_pos c
      simp only [List.count_append, List.count_cons_of_ne other, byteLength_cons] at *
      omega

/-- In a text of one letter, which is one byte long, a splice takes away as many
letters as the ranges are long. -/
theorem Spliced.count {offset : Nat} {text out : List Char} {es : List Edit} {x : Char}
    (spliced : Spliced offset text es out) (letters : ∀ c ∈ text, c = x) (byte : x.utf8Size = 1) :
    text.count x + supply x es = out.count x + width es := by
  induction spliced with
  | done => simp [supply, width]
  | @replace offset kept removed rest result e es starts stops behind ih =>
      obtain ⟨front, more⟩ := List.forall_mem_append.mp letters
      obtain ⟨-, gone⟩ := List.forall_mem_append.mp front
      have counted : removed.count x = byteLength removed := by
        rw [List.eq_replicate_of_mem gone, List.count_replicate_self, byteLength_replicate byte]
      have later := ih more
      simp only [supply, width, List.map_cons, List.sum_cons, List.count_append] at *
      omega

/-- Of edits that are not orderly, a text is inserted right before the range that starts
with it is replaced; what is made before does not reach in front of that place. -/
theorem exists_early_insertion {es : List Edit} (disorderly : ¬ Orderly es)
    (order : ∀ e ∈ es, e.start ≤ e.stop) (apart : es.Pairwise fun a b => a.overlaps b = false) :
    ∃ earlier insertions later e, lastFirst es = earlier ++ (insertions ++ e :: later) ∧
      (∀ f ∈ earlier, e.start ≤ f.start) ∧
      (∀ f ∈ insertions, f.start = e.start ∧ f.stop = e.start) ∧
      (∃ f ∈ insertions, f.replacement ≠ "") ∧ e.start < e.stop := by
  rw [Orderly, List.pairwise_iff_forall_sublist] at disorderly
  push Not at disorderly
  obtain ⟨a, b, given, together, some_text, wide⟩ := disorderly
  have perm : (lastFirst es).Perm es := List.mergeSort_perm es _
  -- Sorting is stable, so the insertion is made before the range is replaced.
  have made : [a, b].Sublist (lastFirst es) :=
    List.pair_sublist_mergeSort Fix.laterStart_trans Fix.laterStart_total
      (by simp [together]) given
  obtain ⟨front, back, shape, insideA, insideB⟩ := List.cons_sublist_iff.mp made
  obtain ⟨earlier, more, rfl⟩ := List.append_of_mem insideA
  obtain ⟨more', later, rfl⟩ := List.append_of_mem (List.singleton_sublist.mp insideB)
  have whole : lastFirst es = earlier ++ (a :: (more ++ more') ++ b :: later) := by simp [shape]
  have starts := lastFirst_starts es
  have apart' := apart.perm perm.symm fun {a b} clear => overlaps_comm a b ▸ clear
  have order' : ∀ e ∈ lastFirst es, e.start ≤ e.stop :=
    fun e inside => order e (perm.mem_iff.mp inside)
  rw [whole] at starts apart' order'
  obtain ⟨-, startsMiddle, startsEarlier⟩ := List.pairwise_append.mp starts
  obtain ⟨startsInsertions, -, startsBefore⟩ := List.pairwise_append.mp startsMiddle
  obtain ⟨-, -, apartBefore⟩ := List.pairwise_append.mp (List.pairwise_append.mp apart').2.1
  have stop_le : b.start ≤ b.stop := order' b (by simp)
  have wide : b.start < b.stop := by omega
  refine ⟨earlier, a :: (more ++ more'), later, b, whole, ?_, ?_, ⟨a, by simp, some_text⟩, wide⟩
  · exact fun f inside => startsEarlier f inside b (by simp)
  · intro f inside
    have notBefore := startsBefore f inside b (by simp)
    have notBehind : f.start ≤ a.start := by
      rcases List.mem_cons.mp inside with rfl | inside
      · exact Nat.le_refl _
      · exact (List.pairwise_cons.mp startsInsertions).1 f inside
    have clear := apartBefore f inside b (by simp)
    simp only [overlaps, Bool.and_eq_false_iff, decide_eq_false_iff_not] at clear
    have stop_le : f.start ≤ f.stop := order' f (by simp at inside ⊢; tauto)
    omega

/-- An insertion that is made before the range it starts with is replaced leaves too many
letters. -/
theorem count_lt_of_early_insertion {earlier insertions later : List Edit} {e : Edit}
    (notBefore : ∀ f ∈ earlier, e.start ≤ f.start)
    (together : ∀ f ∈ insertions, f.start = e.start ∧ f.stop = e.start) (wide : e.start < e.stop)
    {x c : Char} {cs : List Char}
    (inserted : insertions.reverse.flatMap (·.replacement.toList) = c :: cs) (other : c ≠ x)
    (byte : x.utf8Size = 1) {length : Nat} (start_le : e.start ≤ length) {out : List Char}
    (made : spliceAll? (List.replicate length x) (earlier ++ (insertions ++ e :: later)) =
      some out) :
    length + supply x (earlier ++ (insertions ++ e :: later)) <
      out.count x + width (earlier ++ (insertions ++ e :: later)) := by
  rw [spliceAll?_append, Option.bind_eq_some_iff] at made
  obtain ⟨text₁, madeEarlier, made⟩ := made
  rw [spliceAll?_append, Option.bind_eq_some_iff] at made
  obtain ⟨text₂, madeInsertions, made⟩ := made
  obtain ⟨text₃, madeRange, madeLater⟩ := Option.bind_eq_some_iff.mp made
  have front : byteLength (List.replicate e.start x) = e.start := byteLength_replicate byte _
  -- Up to the start of the range the text is still made of letters.
  obtain ⟨rest, rfl⟩ : ∃ rest, text₁ = List.replicate e.start x ++ rest := by
    rw [← Nat.add_sub_cancel' start_le, List.replicate_add] at madeEarlier
    exact spliceAll?_keeps_front (fun f inside => front.le.trans (notBefore f inside)) madeEarlier
  have counted := count_spliceAll? x madeInsertions
  rw [spliceAll?_insertions (fun f inside => by simpa only [front] using together f inside),
    inserted, Option.some.injEq] at madeInsertions
  subst madeInsertions
  rw [List.cons_append] at counted madeRange
  have countedEarlier := count_spliceAll? x madeEarlier
  have countedRange := count_splice?_lt other front wide madeRange
  have countedLater := count_spliceAll? x madeLater
  simp only [supply, width, List.map_append, List.map_cons, List.sum_append, List.sum_cons,
    List.count_replicate_self] at *
  omega

/-- Edits that some text accepts are accepted by a text of letters of the same length. -/
theorem faults?_replicate {source : List Char} {es : List Edit} {x : Char}
    (byte : x.utf8Size = 1) (accepted : faults? source es = none) :
    faults? (List.replicate (byteLength source) x) es = none := by
  obtain ⟨inRange, apart⟩ := faults?_eq_none_iff.mp accepted
  have boundary : ∀ n ≤ byteLength source,
      isBoundary n (List.replicate (byteLength source) x) = true := by
    intro n within
    have cut : List.replicate (byteLength source) x =
        List.replicate n x ++ List.replicate (byteLength source - n) x := by
      rw [← List.replicate_add, Nat.add_sub_cancel' within]
    rw [isBoundary, splitAtByte?_eq_some_iff.mpr ⟨cut, byteLength_replicate byte n⟩]
    rfl
  refine faults?_eq_none_iff.mpr ⟨fun e inside => ?_, apart⟩
  obtain ⟨start_le, stop_le, -, -⟩ := inRange e inside
  exact ⟨start_le, by rwa [byteLength_replicate byte], boundary _ (start_le.trans stop_le),
    boundary _ stop_le⟩

/-- Edits that are accepted have a splice. -/
theorem exists_spliced {source : List Char} {es : List Edit} (accepted : faults? source es = none) :
    ∃ ordered out, ordered.Perm es ∧ Spliced 0 source ordered out := by
  have perm : (es.mergeSort Fix.byStart).Perm es := List.mergeSort_perm es _
  obtain ⟨inRange, apart⟩ := faults?_eq_none_iff.mp (faults?_perm perm accepted)
  have sorted := List.pairwise_mergeSort Fix.byStart_trans Fix.byStart_total es
  obtain ⟨out, ordered, -, perm', spliced⟩ := Fix.applyAll_spliced (sorted.and apart) inRange
  exact ⟨ordered, out, perm'.trans perm, spliced⟩

theorem spliceAll?_of_applyAll {text out : List Char} {es : List Edit}
    (applied : applyAll text es = .ok out) : spliceAll? text (lastFirst es) = some out := by
  unfold applyAll at applied
  split at applied
  · cases applied
  · split at applied
    · cases applied
      assumption
    · cases applied

/-- **Edits that are not orderly go wrong in some text**: what they make of it, if
anything, is not even made up of the letters of the splice. -/
theorem exists_misplaced {source : List Char} {es : List Edit} (disorderly : ¬ Orderly es)
    (accepted : faults? source es = none) :
    ∃ text ordered spliced, faults? text es = none ∧ ordered.Perm es ∧
      Spliced 0 text ordered spliced ∧
      ∀ out, applyAll text es = .ok out → ¬ out.Perm spliced := by
  obtain ⟨inRange, apart⟩ := faults?_eq_none_iff.mp accepted
  obtain ⟨earlier, insertions, later, e, shape, notBefore, together, some_insertion, wide⟩ :=
    exists_early_insertion disorderly (fun e inside => (inRange e inside).start_le_stop) apart
  obtain ⟨f, inserted, some_text⟩ := some_insertion
  obtain ⟨c, cs, text_eq⟩ :
      ∃ c cs, insertions.reverse.flatMap (·.replacement.toList) = c :: cs := by
    refine List.exists_cons_of_ne_nil fun nothing => some_text ?_
    have := List.flatMap_eq_nil_iff.mp nothing f (List.mem_reverse.mpr inserted)
    simpa using this
  obtain ⟨x, byte, other⟩ : ∃ x : Char, x.utf8Size = 1 ∧ c ≠ x := by
    by_cases isA : c = 'a'
    · exact ⟨'b', rfl, by rw [isA]; decide⟩
    · exact ⟨'a', rfl, isA⟩
  have accepted' := faults?_replicate byte accepted
  obtain ⟨ordered, spliced, perm, isSpliced⟩ := exists_spliced accepted'
  refine ⟨_, ordered, spliced, accepted', perm, isSpliced, fun out applied samePieces => ?_⟩
  have made := spliceAll?_of_applyAll applied
  have inside : e ∈ lastFirst es := by simp [shape]
  have inside : e ∈ es := (List.mergeSort_perm es _).mem_iff.mp inside
  have start_le : e.start ≤ byteLength source :=
    wide.le.trans (inRange e inside).stop_le_length
  rw [shape] at made
  have tooMany :=
    count_lt_of_early_insertion notBefore together wide text_eq other byte start_le made
  have counted := isSpliced.count (fun c inside => List.eq_of_mem_replicate inside) byte
  rw [← shape] at tooMany
  have sorted : (lastFirst es).Perm ordered := (List.mergeSort_perm es _).trans perm.symm
  have sameSupply : supply x (lastFirst es) = supply x ordered := (sorted.map _).sum_eq
  have sameWidth : width (lastFirst es) = width ordered := (sorted.map _).sum_eq
  rw [List.count_replicate_self, ← samePieces.count_eq] at counted
  omega

/-- **Edits may be given in any order, but for insertions before a range that starts with
them.**  Take edits that are accepted.  If they are orderly, they can be made, and what
comes out is their splice; so it is for every other order of them that is orderly, with
the same ranges at the same places, and it is the same text if all ranges are different.
If they are not, there is a text that accepts them and from which something else comes
out, or nothing. -/
theorem applyAll_anyOrder (source : List Char) (es : List Edit)
    (accepted : faults? source es = none) :
    (Orderly es → ∃ out ordered, applyAll source es = .ok out ∧ ordered.Perm es ∧
      (∀ text, Spliced 0 source ordered text ↔ text = out) ∧
      ∀ es', es'.Perm es → Orderly es' →
        ∃ out' ordered', applyAll source es' = .ok out' ∧ ordered'.Perm es ∧
          (∀ text, Spliced 0 source ordered' text ↔ text = out') ∧
          ordered'.map range = ordered.map range ∧ ((es.map range).Nodup → out' = out)) ∧
    (¬ Orderly es → ∃ text ordered spliced, faults? text es = none ∧ ordered.Perm es ∧
      Spliced 0 text ordered spliced ∧
      ∀ out, applyAll text es = .ok out → ¬ out.Perm spliced) := by
  refine ⟨fun orderly => ?_, fun disorderly => exists_misplaced disorderly accepted⟩
  obtain ⟨out, ordered, applied, perm, spliced⟩ := orderly.applyAll_spliced accepted
  refine ⟨out, ordered, applied, perm, spliced.iff_eq, fun es' perm' orderly' => ?_⟩
  obtain ⟨out', ordered', applied', perm'', spliced'⟩ :=
    orderly'.applyAll_spliced (faults?_perm perm' accepted)
  have same : ordered'.Perm ordered := perm''.trans (perm'.trans perm.symm)
  refine ⟨out', ordered', applied', perm''.trans perm', spliced'.iff_eq,
    spliced'.same_ranges spliced same, fun nodup => ?_⟩
  have nodup' : (ordered'.map range).Nodup := ((perm''.trans perm').map range).nodup_iff.mpr nodup
  obtain rfl := spliced'.eq_of_nodup spliced same nodup'
  exact spliced'.unique spliced

/-- A range, an insertion at its start and a range that ends there, given in this
order. -/
def outOfOrder : List Edit := [⟨1, 3, "R"⟩, ⟨1, 1, "a"⟩, ⟨0, 1, ""⟩]

/-- They are orderly also in the opposite order of the ranges, and come out alike. -/
theorem applyAll_anyOrder_outOfOrder :
    faults? "xéy".toList outOfOrder = none ∧ Orderly outOfOrder ∧
      applyAll "xéy".toList outOfOrder = .ok "aRy".toList ∧
      applyAll "xéy".toList [⟨0, 1, ""⟩, ⟨1, 3, "R"⟩, ⟨1, 1, "a"⟩] = .ok "aRy".toList := by
  have accepted : faults? "xéy".toList outOfOrder = none := by cbv
  have orderly : Orderly outOfOrder := by decide
  have applied : applyAll "xéy".toList outOfOrder = .ok "aRy".toList := by cbv
  obtain ⟨out, ordered, applied', -, -, others⟩ :=
    (applyAll_anyOrder "xéy".toList outOfOrder accepted).1 orderly
  rw [applied] at applied'
  cases applied'
  obtain ⟨out', -, again, -, -, -, same⟩ :=
    others [⟨0, 1, ""⟩, ⟨1, 3, "R"⟩, ⟨1, 1, "a"⟩] (by decide) (by decide)
  exact ⟨accepted, orderly, applied, same (by decide) ▸ again⟩

/-- An insertion, and the range that starts with it. -/
def earlyInsertion : List Edit := [⟨0, 0, "X"⟩, ⟨0, 3, "Y"⟩]

/-- The insertion is lost with the range, and the last character of the range is kept;
where that is a part of a character, nothing comes out. -/
theorem earlyInsertion_misplaced :
    faults? "abc".toList earlyInsertion = none ∧
      applyAll "abc".toList earlyInsertion = .ok "Yc".toList ∧
      (∀ ordered, ordered.Perm earlyInsertion → ¬ Spliced 0 "abc".toList ordered "Yc".toList) ∧
      faults? "aé".toList earlyInsertion = none ∧
      applyAll "aé".toList earlyInsertion = .error .displaced := by
  have expected : Spliced 0 "abc".toList earlyInsertion "XY".toList :=
    @Spliced.replace 0 [] [] "abc".toList "Y".toList _ _ rfl rfl
      (@Spliced.replace 0 [] "abc".toList [] [] _ _ rfl rfl (.done 3 []))
  refine ⟨by cbv, by cbv, fun ordered perm spliced => ?_, by cbv, by cbv⟩
  obtain rfl := expected.eq_of_nodup spliced perm.symm (by decide)
  exact absurd (spliced.unique expected) (by decide)

end Edit

end GomegaLint
