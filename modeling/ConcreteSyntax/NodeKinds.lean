/-!
# Kinds and shapes of syntax nodes

There are eighteen kinds of nodes. Each has one of five shapes, which tells how
many operand places a node of that kind has.
-/

namespace ConcreteSyntax

/-- How the operands of a node are laid out. -/
inductive Shape where
  /-- A single token and no operands. -/
  | atom
  /-- One operand place. -/
  | unary
  /-- Two operand places. -/
  | binary
  /-- Three operand places. -/
  | ternary
  /-- Any number of terms, all of them present. -/
  | multiary
  deriving DecidableEq, Repr, Inhabited

namespace Shape

/-- The name of a shape. -/
def name : Shape → String
  | atom => "Atom"
  | unary => "Unary"
  | binary => "Binary"
  | ternary => "Ternary"
  | multiary => "Multiary"

end Shape

/-- What a syntax node stands for. -/
inductive NodeKind where
  | literal
  | identifier
  | prefixOp
  | postfixOp
  | enclosure
  | file
  | infixOp
  | array
  | function
  | template
  | call
  | index
  | control
  | constraint
  | capture
  | declaration
  | list
  | sequence
  deriving DecidableEq, Repr, Inhabited

namespace NodeKind

/-- All kinds of nodes, ordered by shape. -/
def all : List NodeKind :=
  [literal, identifier, prefixOp, postfixOp, enclosure, file, infixOp, array, function, template,
    call, index, control, constraint, capture, declaration, list, sequence]

/-- The shape that all nodes of a kind have. -/
def shape : NodeKind → Shape
  | literal | identifier => .atom
  | prefixOp | postfixOp | enclosure | file => .unary
  | infixOp | array | function | template | call | index | control | constraint | capture => .binary
  | declaration => .ternary
  | list | sequence => .multiary

/-- The name of a kind. -/
def name : NodeKind → String
  | literal => "Literal"
  | identifier => "Identifier"
  | prefixOp => "Prefix"
  | postfixOp => "Postfix"
  | enclosure => "Enclosure"
  | file => "File"
  | infixOp => "Infix"
  | array => "Array"
  | function => "Function"
  | template => "Template"
  | call => "Call"
  | index => "Index"
  | control => "Control"
  | constraint => "Constraint"
  | capture => "Capture"
  | declaration => "Declaration"
  | list => "List"
  | sequence => "Sequence"

/-- Whether nodes of a kind construct a type. -/
def isConstructor : NodeKind → Bool
  | array | function | template => true
  | _ => false

/-- Whether nodes of a kind apply a value to arguments. -/
def isApplication : NodeKind → Bool
  | call | index => true
  | _ => false

/-- Every kind is listed. -/
theorem mem_all (k : NodeKind) : k ∈ all := by cases k <;> decide

end NodeKind

end ConcreteSyntax
