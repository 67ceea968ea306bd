/-!
# Directives in comments

A directive `ginkgo-linter:NAME` in a comment silences the rules of one
category.  A comment may hold several; a name that stands for no category is
passed over.
-/

namespace GomegaLint

/-- A group of rules that one directive silences. -/
inductive Category where
  | length | nil | error | comparison | async
  deriving DecidableEq, Repr, Inhabited

namespace Category

def name : Category → String
  | length => "length"
  | nil => "nil"
  | error => "error"
  | comparison => "comparison"
  | async => "async"

def all : List Category := [length, nil, error, comparison, async]

/-- The category that a directive silences. -/
def ofDirective? : String → Option Category
  | "ignore-len-assert-warning" | "ignore-length-warning" => some length
  | "ignore-nil-assert-warning" => some nil
  | "ignore-err-assert-warning" => some error
  | "ignore-compare-assert-warning" => some comparison
  | "ignore-async-assert-warning" => some async
  | _ => none

end Category

/-- The mark that opens a directive. -/
def directiveMark : List Char := "ginkgo-linter:".toList

/-- Lower-case letters and dashes make up the name of a directive. -/
def isDirectiveChar (c : Char) : Bool := c.isLower || c == '-'

/-- The names of the directives in a text from left to right, the first `skip`
characters left out. -/
def directivesFrom (skip : Nat) : List Char → List String
  | [] => []
  | c :: cs =>
    match skip with
    | n + 1 => directivesFrom n cs
    | 0 =>
      let name := ((c :: cs).drop directiveMark.length).takeWhile isDirectiveChar
      if directiveMark.isPrefixOf (c :: cs) && !name.isEmpty then
        String.ofList name :: directivesFrom (directiveMark.length + name.length - 1) cs
      else directivesFrom 0 cs

/-- The names of the directives in a comment. -/
def directives (text : String) : List String := directivesFrom 0 text.toList

/-- The categories that are silenced at some place. -/
structure Scope where
  categories : List Category := []
  deriving Repr, Inhabited

namespace Scope

/-- The scope that one comment makes. -/
def ofComment (text : String) : Scope := ⟨(directives text).filterMap Category.ofDirective?⟩

/-- The scope of several comments together. -/
def ofComments (texts : List String) : Scope :=
  ⟨texts.flatMap fun t => (ofComment t).categories⟩

def silences (s : Scope) (c : Category) : Bool := s.categories.contains c

def isEmpty (s : Scope) : Bool := s.categories.isEmpty

/-- The silenced categories in their usual order, each once. -/
def toList (s : Scope) : List Category := Category.all.filter s.silences

end Scope

end GomegaLint
