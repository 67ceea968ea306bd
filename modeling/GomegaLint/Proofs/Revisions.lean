import Mathlib
import GomegaLint.Assertion.Draft

/-!
# Revisions of a draft

A `Draft.Revision` is one of the seven edits.  It can be made in place: follow a path to the
expression that is to change, look at what stands there, and assign something else, one assignment
after the other (`Revision.inPlace`).  Such a program can fail halfway.

* `Revision.run_eq`: none of the seven does.  Each ends with the draft that the edit gives, or
  fails with the draft as it was.
* `Lens.Apart.independent`: edits through two lenses that lie apart do not see each other.  The
  receiver of the assertion method, the first argument with its number of wrappers, and the method
  itself are three such lenses.
* `Revision.atomic_independent`: what follows for the seven.
-/

namespace GomegaLint

/-! ## Places in an expression -/

namespace Expr

/-- A step from an expression to one that it is made of. -/
inductive Step where
  | callee
  | receiver
  | argument (index : Nat)
  deriving DecidableEq, Repr, Inhabited

namespace Step

/-- What a step leads to. -/
def at? : Step → Expr → Option Expr
  | callee, .call _ f _ _ => some f
  | receiver, .selector _ x _ => some x
  | argument i, .call _ _ args _ => args[i]?
  | _, _ => none

/-- Change what a step leads to; if it leads nowhere, nothing. -/
def modify (edit : Expr → Expr) : Step → Expr → Expr
  | callee, .call o f args s => .call o (edit f) args s
  | receiver, .selector o x m => .selector o (edit x) m
  | argument i, .call o f args s => .call o f (args.modify i edit) s
  | _, e => e

theorem modify_congr {step : Step} {e x : Expr} {f g : Expr → Expr} (there : step.at? e = some x)
    (same : f x = g x) : step.modify f e = step.modify g e := by
  cases step <;> cases e <;>
    simp only [at?, Option.some.injEq, reduceCtorEq] at there
  · subst there
    simp only [modify, same]
  · subst there
    simp only [modify, same]
  · simp only [modify, List.modify_eq_set_getElem?, there, Option.map_eq_map, Option.map_some,
      Option.getD_some, same]

theorem modify_modify (f g : Expr → Expr) (step : Step) (e : Expr) :
    step.modify g (step.modify f e) = step.modify (fun x => g (f x)) e := by
  cases step <;> cases e <;> simp only [modify, List.modify_modify_eq, Function.comp_def]

end Step

/-- What stands at the end of a path. -/
def at? : List Step → Expr → Option Expr
  | [], e => some e
  | step :: path, e => (step.at? e).bind (at? path)

/-- Put something else at the end of a path. -/
def put : Expr → List Step → Expr → Expr
  | _, [], new => new
  | e, step :: path, new => step.modify (fun x => x.put path new) e

theorem at?_append (p q : List Step) (e : Expr) : e.at? (p ++ q) = (e.at? p).bind (at? q) := by
  induction p generalizing e with
  | nil => rfl
  | cons step p ih =>
      rw [List.cons_append, at?, at?, Option.bind_assoc]
      congr 1
      funext x
      exact ih x

/-- Putting something inside a place is putting there what then stands in it. -/
theorem put_append {p q : List Step} {e y new : Expr} (there : e.at? p = some y) :
    e.put (p ++ q) new = e.put p (y.put q new) := by
  induction p generalizing e with
  | nil =>
      cases there
      rfl
  | cons step p ih =>
      obtain ⟨x, leads, below⟩ := Option.bind_eq_some_iff.mp there
      exact Step.modify_congr leads (ih below)

/-- Of two assignments to one place the second counts. -/
theorem put_put (e : Expr) (p : List Step) (first second : Expr) :
    (e.put p first).put p second = e.put p second := by
  induction p generalizing e with
  | nil => rfl
  | cons step p ih =>
      rw [put, put, put, Step.modify_modify]
      congr 1
      funext x
      exact ih x

end Expr

namespace Draft

/-! ## Edits by paths -/

/-- The way down so many method calls, from each to what its method is selected from. -/
def receivers : Nat → List Expr.Step
  | 0 => []
  | n + 1 => .callee :: .receiver :: receivers n

/-- The way down so many calls, from each to its first argument. -/
def firsts : Nat → List Expr.Step
  | 0 => []
  | n + 1 => .argument 0 :: firsts n

theorem editUnder_eq (edit : Expr → Option Expr) (n : Nat) (e : Expr) :
    editUnder edit n e =
      (e.at? (receivers n)).bind fun x => (edit x).map (e.put (receivers n)) := by
  induction n generalizing e with
  | zero =>
      rw [receivers, Expr.at?, Option.bind_some]
      exact (Option.map_id' ..).symm
  | succ n ih =>
      cases e with
      | call o f args s =>
          cases f with
          | selector so x m =>
              rw [editUnder, ih, Option.map_bind]
              simp only [receivers, Expr.at?, Expr.Step.at?, Option.bind_some, Expr.put,
                Expr.Step.modify, Option.map_map, Function.comp_def]
          | _ => rfl
      | _ => rfl

theorem editInside_eq (edit : Call → Call) (n : Nat) (e : Expr) :
    editInside edit n e =
      ((e.at? (firsts n)).bind Expr.call?).map fun c => e.put (firsts n) (edit c).toExpr := by
  induction n generalizing e with
  | zero => cases e <;> rfl
  | succ n ih =>
      cases e with
      | call o f args s =>
          cases args with
          | cons a as =>
              rw [editInside, ih]
              simp only [firsts, Expr.at?, Expr.Step.at?, List.getElem?_cons_zero, Option.bind_some,
                Expr.put, Expr.Step.modify, Option.map_map, Function.comp_def]
              rfl
          | nil => rfl
      | _ => rfl

/-- What stands at the end of a path from the assertion. -/
def at? (d : Draft) (path : List Expr.Step) : Option Expr := d.call.toExpr.at? path

/-- Put something else at the end of a path from the assertion, which stays a call. -/
def put (d : Draft) (path : List Expr.Step) (new : Expr) : Draft :=
  { d with call := (d.call.toExpr.put path new).call?.getD d.call }

/-- An assertion that is changed inside stays a call. -/
theorem toExpr_put (d : Draft) (step : Expr.Step) (path : List Expr.Step) (new : Expr) :
    (d.put (step :: path) new).call.toExpr = d.call.toExpr.put (step :: path) new := by
  cases step <;> rfl

theorem at?_concat (d : Draft) (path : List Expr.Step) (step : Expr.Step) :
    d.at? (path ++ [step]) = (d.at? path).bind step.at? := by
  rw [at?, Expr.at?_append, at?]
  congr 1
  funext e
  exact Option.bind_fun_some (step.at? e)

theorem put_append {d : Draft} {p q : List Expr.Step} {y new : Expr} (there : d.at? p = some y) :
    d.put (p ++ q) new = d.put p (y.put q new) := by
  rw [put, put, Expr.put_append there]

theorem put_put (d : Draft) (step : Expr.Step) (path : List Expr.Step) (first second : Expr) :
    (d.put (step :: path) first).put (step :: path) second = d.put (step :: path) second := by
  rw [put, toExpr_put, Expr.put_put, put]
  cases step <;> rfl

theorem editActual_eq (d : Draft) (edit : Expr → Option Expr) :
    d.editActual edit = (d.at? (receivers (d.actualDepth + 1))).bind fun x =>
      (edit x).map (d.put (receivers (d.actualDepth + 1))) := by
  obtain ⟨⟨o, callee, args, s⟩, style, depth, notDepth⟩ := d
  cases callee with
  | selector so x m =>
      change ((editUnder edit depth x).map fun x' =>
        (⟨⟨o, .selector so x' m, args, s⟩, style, depth, notDepth⟩ : Draft)) = _
      rw [editUnder_eq, Option.map_bind]
      simp only [Option.map_map, Function.comp_def]
      rfl
  | _ => rfl

theorem editMatcher_eq (d : Draft) (edit : Call → Call) :
    d.editMatcher edit = ((d.at? (firsts (d.notDepth + 1))).bind Expr.call?).map fun c =>
      d.put (firsts (d.notDepth + 1)) (edit c).toExpr := by
  obtain ⟨⟨o, callee, args, s⟩, style, depth, notDepth⟩ := d
  cases args with
  | cons a as =>
      change ((editInside edit notDepth a).map fun a' =>
        (⟨⟨o, callee, a' :: as, s⟩, style, depth, notDepth⟩ : Draft)) = _
      rw [editInside_eq, Option.map_map]
      rfl
  | nil => rfl

/-! ## Edits in place -/

/-- A program that changes a draft in place.  Where it fails, what it has changed stays changed. -/
abbrev InPlace := OptionT (StateM Draft)

namespace InPlace

/-- The expression at the end of a path. -/
def look (path : List Expr.Step) : InPlace Expr := OptionT.mk fun d => (d.at? path, d)

def assign (path : List Expr.Step) (new : Expr) : InPlace Unit := modify (·.put path new)

/-- The selector that the assertion method is a member of. -/
def methodSelector : InPlace Selector := do (← look [.callee]).selector?.getM

/-- The way to the innermost matcher, if there is a call. -/
def innerMatcher : InPlace (List Expr.Step × Call) := do
  let path := firsts ((← get).notDepth + 1)
  return (path, ← (← look path).call?.getM)

def setActualArg (offset : Nat) (e : Expr) : InPlace Unit := do
  let path := receivers ((← get).actualDepth + 1) ++ [.argument offset]
  let _ ← look path
  assign path e

/-- The call is moved out of its place before it is put into the new one. -/
def chainActual (method : String) (args : List Expr) : InPlace Unit := do
  let path := receivers ((← get).actualDepth + 1)
  let actual ← look path
  assign path (Expr.named "_")
  assign path (.call {} (.selector {} actual { name := method }) args false)

def setMatcher (new : Call) : InPlace Unit := do
  let _ ← look [.argument 0]
  assign [.argument 0] new.toExpr
  modify ({ · with notDepth := 0 })

def setInnerMatcher (new : Call) : InPlace Unit := do
  let inner ← innerMatcher
  assign inner.1 new.toExpr

def renameMatcher (name : String) : InPlace Unit := do
  let style := (← get).style
  let inner ← innerMatcher
  assign (inner.1 ++ [.callee]) (style.withFunction inner.2 name).callee

def reverse : InPlace Unit := do
  let s ← methodSelector
  let name ← (Method.reversedName? s.member.name).getM
  assign [.callee] (.selector s.origin s.x { name })

def setNegative (negative : Bool) : InPlace Unit := do
  let s ← methodSelector
  if Method.isNegativeName s.member.name = negative then return () else reverse

section

variable {α β : Type} {d d' : Draft}

theorem run_bind_some {m : InPlace α} {k : α → InPlace β} {a : α} (ends : m.run d = (some a, d')) :
    (m >>= k).run d = (k a).run d' := by
  change (match m.run d with
    | (o, d') => (match o with | some a => (k a).run | none => pure none) d') = _
  rw [ends]

theorem run_bind_none {m : InPlace α} {k : α → InPlace β} (fails : m.run d = (none, d')) :
    (m >>= k).run d = (none, d') := by
  change (match m.run d with
    | (o, d') => (match o with | some a => (k a).run | none => pure none) d') = _
  rw [fails]
  rfl

theorem run_get_bind {k : Draft → InPlace β} : (get >>= k).run d = (k d).run d :=
  run_bind_some rfl

theorem run_look_some {path : List Expr.Step} {k : Expr → InPlace β} {e : Expr}
    (there : d.at? path = some e) : (look path >>= k).run d = (k e).run d := by
  apply run_bind_some
  rw [← there]
  rfl

theorem run_look_none {path : List Expr.Step} {k : Expr → InPlace β} (nothing : d.at? path = none) :
    (look path >>= k).run d = (none, d) := by
  apply run_bind_none
  rw [← nothing]
  rfl

theorem run_getM_bind {o : Option α} {k : α → InPlace β} :
    ((o.getM : InPlace α) >>= k).run d = (o.map fun a => (k a).run d).getD (none, d) := by
  cases o with
  | none => exact run_bind_none rfl
  | some a => exact run_bind_some rfl

theorem run_methodSelector {k : Selector → InPlace β} :
    (methodSelector >>= k).run d =
      (d.call.callee.selector?.map fun s => (k s).run d).getD (none, d) := by
  rw [methodSelector, bind_assoc, run_look_some (e := d.call.callee) rfl, run_getM_bind]

theorem run_innerMatcher {k : List Expr.Step × Call → InPlace β} :
    (innerMatcher >>= k).run d =
      (((d.at? (firsts (d.notDepth + 1))).bind Expr.call?).map fun c =>
        (k (firsts (d.notDepth + 1), c)).run d).getD (none, d) := by
  simp only [innerMatcher, bind_assoc, pure_bind]
  rw [run_get_bind]
  cases there : d.at? (firsts (d.notDepth + 1)) with
  | none => rw [run_look_none there, Option.bind_none, Option.map_none, Option.getD_none]
  | some e => rw [run_look_some there, run_getM_bind, Option.bind_some]

end

/-! ## What the programs do -/

/-- How an edit ends that is made as a whole or not at all. -/
def outcome (d : Draft) (made : Option Draft) : Option Unit × Draft :=
  (made.map fun _ => (), made.getD d)

theorem outcome_fst_congr {d d' : Draft} {made made' : Option Draft}
    (alike : made.isSome = made'.isSome) : (outcome d made).1 = (outcome d' made').1 := by
  cases made <;> cases made' <;> first | rfl | cases alike

variable (d : Draft)

theorem run_setActualArg (offset : Nat) (e : Expr) :
    (setActualArg offset e).run d = outcome d (d.setActualArg offset e) := by
  rw [setActualArg, run_get_bind, Draft.setActualArg, editActual_eq]
  generalize receivers (d.actualDepth + 1) = path
  have argument := d.at?_concat path (.argument offset)
  cases there : d.at? path with
  | none =>
      rw [there] at argument
      exact run_look_none argument
  | some actual =>
      rw [there, Option.bind_some] at argument
      rw [Option.bind_some]
      cases actual with
      | call o f args s =>
          by_cases inside : offset < args.length
          · rw [run_look_some (argument.trans (List.getElem?_eq_getElem inside))]
            simp only [inside, if_true, List.set_eq_modify]
            change (some (), d.put (path ++ [.argument offset]) e) = _
            rw [put_append there]
            rfl
          · simp only [inside, if_false]
            exact run_look_none (argument.trans (List.getElem?_eq_none (by omega)))
      | _ => exact run_look_none argument

theorem run_chainActual (method : String) (args : List Expr) :
    (chainActual method args).run d = outcome d (d.chainActual method args) := by
  rw [chainActual, run_get_bind, Draft.chainActual, editActual_eq]
  cases there : d.at? (receivers (d.actualDepth + 1)) with
  | none => exact run_look_none there
  | some actual =>
      rw [run_look_some there]
      -- The second assignment overwrites the first.
      change (some (), (d.put _ _).put _ _) = _
      rw [receivers, put_put]
      rfl

theorem run_setMatcher (new : Call) :
    (setMatcher new).run d = outcome d (d.setMatcher new) := by
  obtain ⟨⟨o, callee, args, s⟩, style, depth, notDepth⟩ := d
  cases args with
  | nil => exact run_look_none rfl
  | cons a as => exact run_look_some (e := a) rfl

theorem run_setInnerMatcher (new : Call) :
    (setInnerMatcher new).run d = outcome d (d.setInnerMatcher new) := by
  rw [setInnerMatcher, run_innerMatcher, Draft.setInnerMatcher, editMatcher_eq]
  cases (d.at? (firsts (d.notDepth + 1))).bind Expr.call? with
  | none => rfl
  | some c => rfl

/-- Another function changes the callee only. -/
theorem toExpr_withFunction (style : ImportStyle) (c : Call) (name : String) :
    (style.withFunction c name).toExpr =
      c.toExpr.put [.callee] (style.withFunction c name).callee := by
  obtain ⟨o, callee, args, s⟩ := c
  cases callee with
  | ident i => cases style <;> rfl
  | _ => rfl

theorem run_renameMatcher (name : String) :
    (renameMatcher name).run d = outcome d (d.renameMatcher name) := by
  rw [renameMatcher, run_get_bind, run_innerMatcher, Draft.renameMatcher, editMatcher_eq]
  generalize firsts (d.notDepth + 1) = path
  cases there : (d.at? path).bind Expr.call? with
  | none => rfl
  | some c =>
      obtain ⟨e, there, isCall⟩ := Option.bind_eq_some_iff.mp there
      rw [Expr.call?_eq_some_iff] at isCall
      subst isCall
      change (some (), d.put (path ++ [.callee]) (d.style.withFunction c name).callee) = _
      rw [put_append there, ← toExpr_withFunction]
      rfl

theorem run_reverse : reverse.run d = outcome d d.reverse := by
  obtain ⟨⟨o, callee, args, s⟩, style, depth, notDepth⟩ := d
  rw [reverse, run_methodSelector]
  cases callee with
  | selector so x m =>
      change (Option.getM _ >>= _ : InPlace Unit).run _ = _
      rw [run_getM_bind, Draft.reverse, editMethod]
      dsimp only
      cases Method.reversedName? m.name <;> rfl
  | _ => rfl

theorem run_setNegative (negative : Bool) :
    (setNegative negative).run d = outcome d (d.setNegative negative) := by
  rw [setNegative, run_methodSelector, Draft.setNegative]
  cases method : d.call.callee with
  | selector so x m =>
      change (if Method.isNegativeName m.name = negative then pure () else reverse : InPlace Unit).run d
        = outcome d (if Method.isNegativeName m.name = negative then some d else d.reverse)
      by_cases already : Method.isNegativeName m.name = negative
      · rw [if_pos already, if_pos already]
        rfl
      · rw [if_neg already, if_neg already]
        exact run_reverse d
  | _ => rfl

end InPlace

/-! ## The seven edits -/

/-- An edit of a draft. -/
inductive Revision where
  | actualArg (offset : Nat) (e : Expr)
  | chain (method : String) (args : List Expr)
  | matcher (new : Call)
  | innerMatcher (new : Call)
  | matcherFunction (name : String)
  | reverse
  | negative (negative : Bool)
  deriving Repr, Inhabited

/-- The part of a draft that an edit is about. -/
inductive Region where
  | actual
  | matcher
  | method
  deriving DecidableEq, Repr, Inhabited

/-- Two drafts differ in a region at most. -/
inductive Region.SameOutside : Region → Draft → Draft → Prop
  | same (region : Region) (d : Draft) : SameOutside region d d
  /-- What the assertion method is selected from. -/
  | actual {d : Draft} {o : Origin} {x : Expr} {m : Ident} (callee : d.call.callee = .selector o x m)
      (x' : Expr) :
      SameOutside .actual d { d with call := { d.call with callee := .selector o x' m } }
  /-- The first argument and the number of wrappers around the matcher in it. -/
  | matcher {d : Draft} {a : Expr} {as : List Expr} (args : d.call.args = a :: as) (a' : Expr)
      (depth : Nat) :
      SameOutside .matcher d { d with call := { d.call with args := a' :: as }, notDepth := depth }
  /-- The name of the assertion method. -/
  | method {d : Draft} {o : Origin} {x : Expr} {m : Ident} (callee : d.call.callee = .selector o x m)
      (m' : Ident) :
      SameOutside .method d { d with call := { d.call with callee := .selector o x m' } }

namespace Revision

def region : Revision → Region
  | actualArg .. | chain .. => .actual
  | matcher _ | innerMatcher _ | matcherFunction _ => .matcher
  | reverse | negative _ => .method

def make? (d : Draft) : Revision → Option Draft
  | actualArg offset e => d.setActualArg offset e
  | chain method args => d.chainActual method args
  | matcher new => d.setMatcher new
  | innerMatcher new => d.setInnerMatcher new
  | matcherFunction name => d.renameMatcher name
  | reverse => d.reverse
  | negative b => d.setNegative b

def inPlace : Revision → InPlace Unit
  | actualArg offset e => InPlace.setActualArg offset e
  | chain method args => InPlace.chainActual method args
  | matcher new => InPlace.setMatcher new
  | innerMatcher new => InPlace.setInnerMatcher new
  | matcherFunction name => InPlace.renameMatcher name
  | reverse => InPlace.reverse
  | negative b => InPlace.setNegative b

/-- Make an edit in place: whether it succeeds, and the draft that is left. -/
def run (r : Revision) (d : Draft) : Option Unit × Draft := r.inPlace.run d

/-- An edit in place is made as a whole or not at all. -/
theorem run_eq (r : Revision) (d : Draft) : r.run d = InPlace.outcome d (r.make? d) := by
  cases r with
  | actualArg offset e => exact InPlace.run_setActualArg d offset e
  | chain method args => exact InPlace.run_chainActual d method args
  | matcher new => exact InPlace.run_setMatcher d new
  | innerMatcher new => exact InPlace.run_setInnerMatcher d new
  | matcherFunction name => exact InPlace.run_renameMatcher d name
  | reverse => exact InPlace.run_reverse d
  | negative b => exact InPlace.run_setNegative d b

end Revision

/-! ## Parts that lie apart -/

/-- A part of a draft that can be read and written.  Writing leaves alone what edits go by. -/
structure Lens (α : Type) where
  get? : Draft → Option α
  set : Draft → α → Draft
  style_set : ∀ d a, (set d a).style = d.style
  depth_set : ∀ d a, (set d a).actualDepth = d.actualDepth

namespace Lens

variable {α β : Type}

/-- What is to be written into a part, by what edits go by. -/
def new? (l : Lens α) (f : ImportStyle → Nat → α → Option α) (d : Draft) : Option α :=
  (l.get? d).bind (f d.style d.actualDepth)

/-- Change a part. -/
def edit (l : Lens α) (f : ImportStyle → Nat → α → Option α) (d : Draft) : Option Draft :=
  (l.new? f d).map (l.set d)

/-- Neither of two parts shows in the other. -/
structure Apart (l : Lens α) (k : Lens β) : Prop where
  get_set : ∀ d a, k.get? (l.set d a) = k.get? d
  set_get : ∀ d b, l.get? (k.set d b) = l.get? d
  set_set : ∀ d a b, k.set (l.set d a) b = l.set (k.set d b) a

variable {l : Lens α} {k : Lens β}

theorem Apart.symm (apart : l.Apart k) : k.Apart l :=
  ⟨apart.set_get, apart.get_set, fun d a b => (apart.set_set d b a).symm⟩

/-- Write into a part, if there is something to write. -/
def write (l : Lens α) (d : Draft) : Option α → Draft
  | some a => l.set d a
  | none => d

theorem getD_edit (l : Lens α) (f : ImportStyle → Nat → α → Option α) (d : Draft) :
    (l.edit f d).getD d = l.write d (l.new? f d) := by
  rw [edit]
  cases l.new? f d <;> rfl

theorem isSome_edit (l : Lens α) (f : ImportStyle → Nat → α → Option α) (d : Draft) :
    (l.edit f d).isSome = (l.new? f d).isSome := by
  rw [edit, Option.isSome_map]

theorem Apart.new?_write (apart : l.Apart k) (g : ImportStyle → Nat → β → Option β) (d : Draft)
    (written : Option α) : k.new? g (l.write d written) = k.new? g d := by
  cases written with
  | none => rfl
  | some a => rw [write, new?, apart.get_set, l.style_set, l.depth_set, new?]

theorem Apart.write_write (apart : l.Apart k) (d : Draft) (written : Option α)
    (written' : Option β) :
    k.write (l.write d written) written' = l.write (k.write d written') written := by
  cases written with
  | none => cases written' <;> rfl
  | some a =>
      cases written' with
      | none => rfl
      | some b => exact apart.set_set d a b

end Lens

/-- Two edits that are made one after the other leave the same in either order, and each succeeds
or fails as it does alone. -/
structure Independent (f g : Draft → Option Draft) (d : Draft) : Prop where
  same : (g ((f d).getD d)).getD ((f d).getD d) = (f ((g d).getD d)).getD ((g d).getD d)
  first : (f ((g d).getD d)).isSome = (f d).isSome
  second : (g ((f d).getD d)).isSome = (g d).isSome

/-- Edits of parts that lie apart are independent. -/
theorem Lens.Apart.independent {α β : Type} {l : Lens α} {k : Lens β} (apart : l.Apart k)
    (f : ImportStyle → Nat → α → Option α) (g : ImportStyle → Nat → β → Option β) (d : Draft) :
    Independent (l.edit f) (k.edit g) d := by
  constructor
  · simp only [getD_edit, apart.new?_write, apart.symm.new?_write, apart.write_write]
  · rw [getD_edit, isSome_edit, apart.symm.new?_write, isSome_edit]
  · rw [getD_edit, isSome_edit, apart.new?_write, isSome_edit]

/-! ## The three regions -/

namespace Region

/-- What stands in a region. -/
def Content : Region → Type
  | actual => Expr
  | matcher => Expr × Nat
  | method => Ident

/-- Change the selector that the assertion method is a member of. -/
def editSelector (d : Draft) (edit : Selector → Selector) : Draft :=
  match d.call.callee.selector? with
  | some s => { d with call := { d.call with callee := (edit s).toExpr } }
  | none => d

theorem editSelector_keeps (d : Draft) (edit : Selector → Selector) :
    (editSelector d edit).style = d.style ∧ (editSelector d edit).actualDepth = d.actualDepth := by
  rw [editSelector]
  cases d.call.callee.selector? <;> exact ⟨rfl, rfl⟩

/-- Read and write a region. -/
def lens : (region : Region) → Lens region.Content
  | actual =>
    { get? := fun d => d.call.callee.selector?.map (·.x)
      set := fun d x => editSelector d ({ · with x := x })
      style_set := fun d _ => (editSelector_keeps d _).1
      depth_set := fun d _ => (editSelector_keeps d _).2 }
  | matcher =>
    { get? := fun d => d.call.args.head?.map (·, d.notDepth)
      set := fun d a =>
        { d with
          call := { d.call with args := d.call.args.modifyHead fun _ => a.1 }
          notDepth := if d.call.args.isEmpty then d.notDepth else a.2 }
      style_set := fun _ _ => rfl
      depth_set := fun _ _ => rfl }
  | method =>
    { get? := fun d => d.call.callee.selector?.map (·.member)
      set := fun d m => editSelector d ({ · with member := m })
      style_set := fun d _ => (editSelector_keeps d _).1
      depth_set := fun d _ => (editSelector_keeps d _).2 }

theorem apart_actual_matcher : (lens .actual).Apart (lens .matcher) := by
  constructor
  · rintro ⟨⟨o, callee, args, s⟩, style, depth, notDepth⟩ x
    cases callee <;> rfl
  · intro d a
    rfl
  · rintro ⟨⟨o, callee, args, s⟩, style, depth, notDepth⟩ x a
    cases callee <;> rfl

theorem apart_method_matcher : (lens .method).Apart (lens .matcher) := by
  constructor
  · rintro ⟨⟨o, callee, args, s⟩, style, depth, notDepth⟩ m
    cases callee <;> rfl
  · intro d a
    rfl
  · rintro ⟨⟨o, callee, args, s⟩, style, depth, notDepth⟩ m a
    cases callee <;> rfl

theorem apart_actual_method : (lens .actual).Apart (lens .method) := by
  constructor
  · rintro ⟨⟨o, callee, args, s⟩, style, depth, notDepth⟩ x
    cases callee <;> rfl
  · rintro ⟨⟨o, callee, args, s⟩, style, depth, notDepth⟩ m
    cases callee <;> rfl
  · rintro ⟨⟨o, callee, args, s⟩, style, depth, notDepth⟩ x m
    cases callee <;> rfl

/-- Different regions lie apart. -/
theorem apart_of_ne {region region' : Region} (other : region ≠ region') :
    region.lens.Apart region'.lens := by
  cases region <;> cases region'
  · exact absurd rfl other
  · exact apart_actual_matcher
  · exact apart_actual_method
  · exact apart_actual_matcher.symm
  · exact absurd rfl other
  · exact apart_method_matcher.symm
  · exact apart_actual_method.symm
  · exact apart_method_matcher
  · exact absurd rfl other

/-- Writing into a region changes nothing outside it. -/
theorem sameOutside_set (region : Region) (d : Draft) (a : region.Content) :
    region.SameOutside d (region.lens.set d a) := by
  obtain ⟨⟨o, callee, args, s⟩, style, depth, notDepth⟩ := d
  cases region with
  | actual =>
      cases callee with
      | selector so x m => exact .actual rfl a
      | _ => exact .same _ _
  | matcher =>
      cases args with
      | cons first others => exact .matcher rfl a.1 a.2
      | nil => exact .same _ _
  | method =>
      cases callee with
      | selector so x m => exact .method rfl a
      | _ => exact .same _ _

theorem editActual_eq_edit (edit : Expr → Option Expr) (d : Draft) :
    d.editActual edit = (lens .actual).edit (fun _ => editUnder edit) d := by
  obtain ⟨⟨o, callee, args, s⟩, style, depth, notDepth⟩ := d
  cases callee <;> rfl

theorem editMatcher_eq_edit (edit : ImportStyle → Call → Call) (d : Draft) :
    d.editMatcher (edit d.style) = (lens .matcher).edit
      (fun style _ a => (editInside (edit style) a.2 a.1).map fun a' => (a', a.2)) d := by
  obtain ⟨⟨o, callee, args, s⟩, style, depth, notDepth⟩ := d
  cases args with
  | nil => rfl
  | cons a as =>
      change (editInside (edit style) notDepth a).map _ =
        ((editInside (edit style) notDepth a).map fun a' => (a', notDepth)).map _
      cases editInside (edit style) notDepth a <;> rfl

theorem editMethod_eq_edit (edit : String → Option String) (d : Draft) :
    d.editMethod edit =
      (lens .method).edit (fun _ _ m => (edit m.name).map fun name => ({ name } : Ident)) d := by
  obtain ⟨⟨o, callee, args, s⟩, style, depth, notDepth⟩ := d
  cases callee with
  | selector so x m =>
      change (edit m.name).map _ = ((edit m.name).map fun name => ({ name } : Ident)).map _
      cases edit m.name <;> rfl
  | _ => rfl

end Region

namespace Revision

/-- Every edit changes its own region, by what stands there. -/
theorem edits_region (r : Revision) : ∃ f, ∀ d, r.make? d = r.region.lens.edit f d := by
  cases r with
  | actualArg offset e => exact ⟨_, Region.editActual_eq_edit _⟩
  | chain method args => exact ⟨_, Region.editActual_eq_edit _⟩
  | matcher new =>
      refine ⟨fun _ _ _ => some (new.toExpr, 0), ?_⟩
      rintro ⟨⟨o, callee, args, s⟩, style, depth, notDepth⟩
      cases args <;> rfl
  | innerMatcher new => exact ⟨_, Region.editMatcher_eq_edit fun _ _ => new⟩
  | matcherFunction name =>
      exact ⟨_, Region.editMatcher_eq_edit fun style m => style.withFunction m name⟩
  | reverse => exact ⟨_, Region.editMethod_eq_edit Method.reversedName?⟩
  | negative b =>
      -- A method that is as asked for already stays as it is.
      refine ⟨fun _ _ m => if Method.isNegativeName m.name = b then some m
        else (Method.reversedName? m.name).map fun name => ({ name } : Ident), ?_⟩
      rintro ⟨⟨o, callee, args, s⟩, style, depth, notDepth⟩
      cases callee with
      | selector so x m =>
          change (if Method.isNegativeName m.name = b then _ else _) =
            Option.map _ (if Method.isNegativeName m.name = b then _ else _)
          by_cases already : Method.isNegativeName m.name = b
          · rw [if_pos already, if_pos already]
            rfl
          · rw [if_neg already, if_neg already]
            exact Region.editMethod_eq_edit Method.reversedName? _
      | _ => rfl

/-- What an edit leaves differs in its region at most. -/
theorem sameOutside_run (r : Revision) (d : Draft) : r.region.SameOutside d (r.run d).2 := by
  obtain ⟨f, edits⟩ := r.edits_region
  rw [run_eq, InPlace.outcome, edits, Lens.getD_edit]
  cases r.region.lens.new? f d with
  | none => exact .same _ _
  | some a => exact r.region.sameOutside_set d a

theorem independent_of_ne {r r' : Revision} (other : r.region ≠ r'.region) (d : Draft) :
    Independent (fun d => r.make? d) (fun d => r'.make? d) d := by
  obtain ⟨f, edits⟩ := r.edits_region
  obtain ⟨f', edits'⟩ := r'.edits_region
  simp only [edits, edits']
  exact (Region.apart_of_ne other).independent f f' d

/-- **Edits are atomic and independent.**  Made in place, an edit ends with the draft that it gives
or fails with the draft as it was; it changes its own region only; and two edits of different
regions leave the same draft in either order, and succeed or fail alike. -/
theorem atomic_independent (d : Draft) :
    (∀ r : Revision, r.run d = ((r.make? d).map fun _ => (), (r.make? d).getD d)) ∧
    (∀ r : Revision, (r.run d).1 = none → (r.run d).2 = d) ∧
    (∀ r : Revision, r.region.SameOutside d (r.run d).2) ∧
    ∀ r r' : Revision, r.region ≠ r'.region →
      (r'.run (r.run d).2).2 = (r.run (r'.run d).2).2 ∧
      (r.run (r'.run d).2).1 = (r.run d).1 ∧ (r'.run (r.run d).2).1 = (r'.run d).1 := by
  refine ⟨fun r => r.run_eq d, fun r fails => ?_, fun r => r.sameOutside_run d, ?_⟩
  · rw [run_eq, InPlace.outcome] at fails ⊢
    rw [Option.map_eq_none_iff] at fails
    rw [fails, Option.getD_none]
  · intro r r' other
    have independent := independent_of_ne other d
    simp only [run_eq]
    exact ⟨independent.same, InPlace.outcome_fst_congr independent.first,
      InPlace.outcome_fst_congr independent.second⟩

/-- `Expect(len(s)).WithOffset(1).To(Not(Equal(3)))`, with one helper and one wrapper. -/
def sample : Draft :=
  let len : Expr := .call {} (Expr.named "len") [Expr.named "s"] false
  let expect : Expr := .call {} (Expr.named "Expect") [len] false
  let helper : Expr :=
    .call {} (.selector {} expect { name := "WithOffset" }) [Expr.intLiteral "1"] false
  let equal : Expr := .call {} (Expr.named "Equal") [Expr.intLiteral "3"] false
  { call :=
      { callee := .selector {} helper { name := "To" }
        args := [.call {} (Expr.named "Not") [equal] false] }
    style := .dot
    actualDepth := 1
    notDepth := 1 }

/-- The actual value and the method change in either order; there is no second actual value. -/
theorem atomic_independent_sample :
    (actualArg 0 (Expr.named "s")).region ≠ reverse.region ∧
      (reverse.run ((actualArg 0 (Expr.named "s")).run sample).2).2 =
        ((actualArg 0 (Expr.named "s")).run (reverse.run sample).2).2 ∧
      (reverse.run ((actualArg 0 (Expr.named "s")).run sample).2).2.print =
        "Expect(s).WithOffset(1).ToNot(Not(Equal(3)))" ∧
      ((actualArg 1 (Expr.named "s")).run sample).1 = none ∧
      ((actualArg 1 (Expr.named "s")).run sample).2 = sample := by
  obtain ⟨-, unchanged, -, apart⟩ := atomic_independent sample
  exact ⟨by decide, (apart _ _ (by decide)).1, by rfl, rfl, unchanged _ rfl⟩

end Revision

end Draft

end GomegaLint
