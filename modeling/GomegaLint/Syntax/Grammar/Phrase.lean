import GomegaLint.Syntax.Terminal

/-!
# Phrases

The rules of a grammar say what its constructs are made of.  A `Phrase` is the
body of a rule: terminals and constructs in sequence, with choices and
repetitions.  A part of a phrase can have a role in the node it stands in, and
can show there as a node of another kind.
-/

namespace GomegaLint

/-- A class of constructs that have no node of their own. -/
inductive Group where
  | declaration
  | simpleType
  | interfaceBody
  | statementList
  | statement
  | simpleStatement
  | typeSwitchHeader
  | expression
  deriving DecidableEq, Repr, Inhabited

/-- What a rule describes.  The parts of groups and rows stand directly in the
node around them. -/
inductive Nonterminal where
  /-- A node of the given kind. -/
  | node (kind : Kind)
  /-- A node of the given kind with a rule of its own. -/
  | special (kind : Kind)
  /-- A class of constructs. -/
  | group (group : Group)
  /-- A repetition. -/
  | row (index : Nat)
  deriving DecidableEq, Repr, Inhabited

namespace Nonterminal

/-- The kind of the node, for what has one. -/
def kind? : Nonterminal → Option Kind
  | node k => some k
  | special k => some k
  | group _ => none
  | row _ => none

def isRow : Nonterminal → Bool
  | row _ => true
  | _ => false

end Nonterminal

/-- The body of a rule. -/
inductive Phrase where
  | blank
  | terminal (t : Terminal)
  | part (n : Nonterminal)
  | both (a b : Phrase)
  | either (a b : Phrase)
  /-- One or more in a row. -/
  | repeated (p : Phrase)
  /-- In the given role. -/
  | role (f : Field) (p : Phrase)
  /-- Shown as a node of the given kind. -/
  | shown (k : Kind) (p : Phrase)
  deriving DecidableEq, Repr, Inhabited

namespace Phrase

/-- Phrases one behind the other. -/
def seq : List Phrase → Phrase
  | [] => blank
  | [p] => p
  | p :: ps => both p (seq ps)

/-- Any one of several phrases. -/
def choice : List Phrase → Phrase
  | [] => blank
  | [p] => p
  | p :: ps => either p (choice ps)

def optional (p : Phrase) : Phrase := either p blank

/-- Any number in a row. -/
def many (p : Phrase) : Phrase := either (repeated p) blank

def node (k : Kind) : Phrase := part (.node k)

def group (g : Group) : Phrase := part (.group g)

def keyword (w : String) : Phrase := terminal (.keyword w)

def symbol (s : String) : Phrase := terminal (.symbol s)

/-- One or more, with commas between them. -/
def commas (p : Phrase) : Phrase := both p (many (both (symbol ",") p))

/-- The terminals of a phrase, in order. -/
def terminals : Phrase → List Terminal
  | terminal t => [t]
  | both a b => a.terminals ++ b.terminals
  | either a b => a.terminals ++ b.terminals
  | repeated p => p.terminals
  | role _ p => p.terminals
  | shown _ p => p.terminals
  | blank => []
  | part _ => []

end Phrase

/-- How a construct groups with its equals. -/
inductive Associativity where
  | left
  | right
  deriving DecidableEq, Repr, Inhabited, Hashable

/-- One of the rules for a nonterminal.  Where two rules can go on differently at
the same token, the one of higher precedence does, and between equals the
associativity decides; where both go on, the reading of greater weight is
kept in the end. -/
structure Clause where
  body : Phrase
  precedence : Int := 0
  associativity : Option Associativity := none
  weight : Int := 0
  deriving DecidableEq, Repr, Inhabited

end GomegaLint
