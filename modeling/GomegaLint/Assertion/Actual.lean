import GomegaLint.Assertion.ImportStyle
import GomegaLint.Assertion.Value

/-!
# The actual value of an assertion

`Actual.of?` finds the argument that an assertion is about and classifies it:
an error, a call of `len` or `cap`, a comparison, a function that returns an
error, or anything else.

A comparison is read with its constant operand on the right: `0 == len(x)` is
`len(x) == 0`.
-/

namespace GomegaLint

/-- The predeclared functions that give a size. -/
inductive SizeFunction where
  | len | cap
  deriving DecidableEq, Repr, Inhabited

namespace SizeFunction

def name : SizeFunction → String
  | len => "len"
  | cap => "cap"

def ofName? : String → Option SizeFunction
  | "len" => some len
  | "cap" => some cap
  | _ => none

end SizeFunction

/-- A property of an actual value. -/
inductive Trait where
  | unknown
  | err
  | lenCall
  | capCall
  | comparison
  | lenComparison
  | capComparison
  | nilComparison
  | binaryComparison
  | errFunction
  | asyncCall
  | errorType
  deriving DecidableEq, Repr, Inhabited

namespace Trait

def all : List Trait :=
  [unknown, err, lenCall, capCall, comparison, lenComparison, capComparison, nilComparison,
   binaryComparison, errFunction, asyncCall, errorType]

def name : Trait → String
  | unknown => "UNKNOWN"
  | err => "ERR"
  | lenCall => "LEN_FUNC"
  | capCall => "CAP_FUNC"
  | comparison => "COMPARISON"
  | lenComparison => "LEN_COMPARISON"
  | capComparison => "CAP_COMPARISON"
  | nilComparison => "NIL_COMPARISON"
  | binaryComparison => "BINARY_COMPARISON"
  | errFunction => "ERR_FUNC"
  | asyncCall => "ASYNC_INVALID_FUNC_CALL"
  | errorType => "ERROR_TYPE"

/-- The traits in their usual order, each once. -/
def ordered (ts : List Trait) : List Trait := all.filter ts.contains

/-- The names of the traits, with bars between them. -/
def print (ts : List Trait) : String := "|".intercalate ((ordered ts).map name)

/-- The traits as bits, the first the lowest. -/
def bits (ts : List Trait) : Nat :=
  all.zipIdx.foldr (fun (t, i) n => (if ts.contains t then Nat.pow 2 i else 0) + n) 0

end Trait

/-- A classified actual value. -/
inductive Subject where
  | plain (value : Value)
  /-- A size as the whole value. -/
  | size (function : SizeFunction) (call : CallTwin) (arg : Twin)
  | error (value : Value)
  /-- A function value that returns one error. -/
  | errorFunction (value : Value)
  | comparison (left : Value) (op : BinaryOp) (right : Value)
  /-- A size compared with something. -/
  | sizeComparison (function : SizeFunction) (call : CallTwin) (arg : Twin) (op : BinaryOp)
      (right : Value)
  | nilComparison (left : Value) (op : BinaryOp) (right : Value)
  deriving Inhabited

namespace Subject

def traits : Subject → List Trait
  | plain _ => [.unknown]
  | size .len _ _ => [.lenCall]
  | size .cap _ _ => [.capCall]
  | error _ => [.err, .errorType]
  | errorFunction _ => [.errFunction, .errorType]
  | comparison .. => [.comparison, .binaryComparison]
  | sizeComparison .len _ _ _ _ => [.comparison, .lenComparison]
  | sizeComparison .cap _ _ _ _ => [.comparison, .capComparison]
  | nilComparison .. => [.nilComparison]

/-- The size function that a call invokes on its one argument, where the name
still means the predeclared function. -/
def sizeFunction? (o : Oracle) (c : Call) : Option SizeFunction := do
  let i ← c.callee.ident?
  let f ← SizeFunction.ofName? i.name
  if c.args.length ≠ 1 || c.spread then none
  match o.type? c.callee with
  | none | some (.builtin _) => some f
  | some _ => none

/-- A comparison of two operands, the constant one on the right.  `none` where
the copy differs from what is seen. -/
def compared? (o : Oracle) (left : Twin) (op : BinaryOp) (right : Twin) : Option Subject :=
  if o.isNil right.seen then
    some (nilComparison (Value.of o left) op (Value.of o right))
  else
    let plainly := comparison (Value.of o left) op (Value.of o right)
    match left.seen.call?, left.copy.call? with
    | some s, some c =>
      match sizeFunction? o s with
      | some f => do
        let arg ← (CallTwin.mk s c).arg? 0
        return sizeComparison f ⟨s, c⟩ arg op (Value.of o right)
      | none => some plainly
    | some _, none => none
    | none, _ => some plainly

/-- A binary expression with the constant operand on the right. -/
def ofComparison? (o : Oracle) (left : Twin) (op : BinaryOp) (right : Twin) : Option Subject :=
  let isConst (t : Twin) := isConstant t.seen (o t.seen)
  if isConst left && !isConst right then compared? o right op.exchanged left
  else compared? o left op right

/-- What a value is when its form says nothing more. -/
def ofType (o : Oracle) (arg : Twin) : Subject :=
  if o.hasType GoType.isErrorFunction arg.seen then errorFunction (Value.of o arg)
  else plain (Value.of o arg)

/-- Classify an argument; `none` where the copy differs from what is seen. -/
def of? (o : Oracle) (arg : Twin) : Option Subject :=
  if o.isError arg.seen then some (error (Value.of o arg))
  else
    match arg.seen, arg.copy with
    | .call so sf sas ss, .call co cf cas cs =>
      let call : CallTwin := ⟨⟨so, sf, sas, ss⟩, ⟨co, cf, cas, cs⟩⟩
      match sizeFunction? o call.seen, call.arg? 0 with
      | some f, some x => some (size f call x)
      | _, _ => some (ofType o arg)
    | .binary _ sx sop sy, .binary _ cx cop cy =>
      if sop ≠ cop then none
      else if sop.isComparison then ofComparison? o ⟨sx, cx⟩ sop ⟨sy, cy⟩
      else some (ofType o arg)
    | .call .., _ => none
    | .binary .., _ => none
    | _, _ => some (ofType o arg)

end Subject

/-- The call that takes the actual value, with its classified argument. -/
structure Actual where
  call : CallTwin
  /-- The number of helper calls between it and the assertion method. -/
  depth : Nat
  function : String
  /-- The index of the argument. -/
  offset : Nat
  arg : Twin
  subject : Subject
  traits : List Trait
  isAsync : Bool
  deriving Inhabited

namespace Actual

/-- The index of the actual value among the arguments of a function. -/
def offset? : String → Option Nat
  | "Expect" | "Ω" | "Eventually" | "Consistently" => some 0
  | "ExpectWithOffset" | "EventuallyWithOffset" | "ConsistentlyWithOffset" => some 1
  | _ => none

/-- The function asks for its value again and again. -/
def isAsyncFunction : String → Bool
  | "Eventually" | "EventuallyWithOffset" | "Consistently" | "ConsistentlyWithOffset" => true
  | _ => false

/-- A call whose result is fixed before it is asked for again: one with a known
type that is no function, channel or pointer. -/
def isFixedCall (o : Oracle) (e : Expr) : Bool :=
  e.isCall && o.hasType (fun t =>
    match t.underlying with
    | .signature .. | .chan _ | .pointer _ => false
    | _ => true) e

/-- Find and classify the argument of a call of `function`.  A context before
the argument of an asynchronous function is passed over. -/
def of? (o : Oracle) (found : ImportStyle.Found) (function : String) : Option Actual := do
  let call : CallTwin := ⟨found.seen, found.copy⟩
  let isAsync := isAsyncFunction function
  let first ← offset? function
  let arg ← call.arg? first
  let skips := isAsync && o.hasType GoType.isContext arg.seen
  let offset := if skips then first + 1 else first
  let arg ← call.arg? offset
  let subject ← Subject.of? o arg
  let late := if isAsync && isFixedCall o arg.seen then [Trait.asyncCall] else []
  return ⟨call, found.depth, function, offset, arg, subject, subject.traits ++ late, isAsync⟩

def hasTrait (a : Actual) (t : Trait) : Bool := a.traits.contains t

end Actual

end GomegaLint
