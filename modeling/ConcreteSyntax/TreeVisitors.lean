import ConcreteSyntax.TreeSpans

/-!
# Visitors

A visitor walks a tree and produces events. It has a method for each kind of nodes
and a method for each shape. A visit calls the method of the node's kind. Unless it
is overridden, a kind method forwards to a shape method, and a shape method visits
the children that are present, in order; the method for atoms does nothing. Which
method a kind calls and where a kind method forwards to are tables of their own.
-/

namespace ConcreteSyntax

/-- The methods of a visitor for the nodes of one kind. -/
inductive KindMethod where
  | visitLiteral
  | visitIdentifier
  | visitPrefix
  | visitPostfix
  | visitEnclosure
  | visitFile
  | visitInfix
  | visitArray
  | visitFunction
  | visitTemplate
  | visitCall
  | visitIndex
  | visitControl
  | visitConstraint
  | visitCapture
  | visitDeclaration
  | visitList
  | visitSequence
  deriving DecidableEq, Repr

/-- The methods of a visitor for the nodes of one shape. -/
inductive ShapeMethod where
  | visitAtom
  | visitUnary
  | visitBinary
  | visitTernary
  | visitMultiary
  deriving DecidableEq, Repr

namespace ShapeMethod

/-- The shape that a method is named for. -/
def shape : ShapeMethod → Shape
  | visitAtom => .atom
  | visitUnary => .unary
  | visitBinary => .binary
  | visitTernary => .ternary
  | visitMultiary => .multiary

/-- What a shape method does unless it is overridden, given the events of a walk over
the children: it walks over them, except that the method for atoms does nothing. -/
def unlessOverridden {ε : Type} : ShapeMethod → List ε → List ε
  | visitAtom, _ => []
  | visitUnary, walked => walked
  | visitBinary, walked => walked
  | visitTernary, walked => walked
  | visitMultiary, walked => walked

end ShapeMethod

namespace KindMethod

/-- The kind that a method is named for. -/
def kind : KindMethod → NodeKind
  | visitLiteral => .literal
  | visitIdentifier => .identifier
  | visitPrefix => .prefixOp
  | visitPostfix => .postfixOp
  | visitEnclosure => .enclosure
  | visitFile => .file
  | visitInfix => .infixOp
  | visitArray => .array
  | visitFunction => .function
  | visitTemplate => .template
  | visitCall => .call
  | visitIndex => .index
  | visitControl => .control
  | visitConstraint => .constraint
  | visitCapture => .capture
  | visitDeclaration => .declaration
  | visitList => .list
  | visitSequence => .sequence

/-- The method that a visit of a node of some kind calls. -/
def dispatch : NodeKind → KindMethod
  | .literal => visitLiteral
  | .identifier => visitIdentifier
  | .prefixOp => visitPrefix
  | .postfixOp => visitPostfix
  | .enclosure => visitEnclosure
  | .file => visitFile
  | .infixOp => visitInfix
  | .array => visitArray
  | .function => visitFunction
  | .template => visitTemplate
  | .call => visitCall
  | .index => visitIndex
  | .control => visitControl
  | .constraint => visitConstraint
  | .capture => visitCapture
  | .declaration => visitDeclaration
  | .list => visitList
  | .sequence => visitSequence

/-- The shape method that a kind method calls unless it is overridden. -/
def forward : KindMethod → ShapeMethod
  | visitLiteral => .visitAtom
  | visitIdentifier => .visitAtom
  | visitPrefix => .visitUnary
  | visitPostfix => .visitUnary
  | visitEnclosure => .visitUnary
  | visitFile => .visitUnary
  | visitInfix => .visitBinary
  | visitArray => .visitBinary
  | visitFunction => .visitBinary
  | visitTemplate => .visitBinary
  | visitCall => .visitBinary
  | visitIndex => .visitBinary
  | visitControl => .visitBinary
  | visitConstraint => .visitBinary
  | visitCapture => .visitBinary
  | visitDeclaration => .visitTernary
  | visitList => .visitMultiary
  | visitSequence => .visitMultiary

/-- A visit calls the method that is named for the kind of the node. -/
@[simp] theorem kind_dispatch (k : NodeKind) : (dispatch k).kind = k := by cases k <;> rfl

/-- A kind method forwards to the method that is named for the shape of its kind. -/
@[simp] theorem shape_forward (m : KindMethod) : m.forward.shape = m.kind.shape := by
  cases m <;> rfl

end KindMethod

/-- How a visitor overrides its methods. An overriding body receives the node and the
events that the method would give if it were not overridden. -/
structure Visitor (τ ε : Type) where
  /-- The body of a kind method that is overridden. -/
  atKind : KindMethod → Option (Tree τ → List ε → List ε)
  /-- The body of a shape method that is overridden. -/
  atShape : ShapeMethod → Option (Tree τ → List ε → List ε)

namespace Visitor

variable {τ ε : Type}

/-- The events of a call of a shape method on a node, given those of a walk over the
children of the node. -/
def callShape (v : Visitor τ ε) (m : ShapeMethod) (t : Tree τ) (walked : List ε) : List ε :=
  match v.atShape m with
  | some body => body t (m.unlessOverridden walked)
  | none => m.unlessOverridden walked

/-- The events of a call of a kind method on a node, given those of a walk over the
children of the node. -/
def callKind (v : Visitor τ ε) (m : KindMethod) (t : Tree τ) (walked : List ε) : List ε :=
  match v.atKind m with
  | some body => body t (v.callShape m.forward t walked)
  | none => v.callShape m.forward t walked

/-- The events of a visit of a tree, from its root on. A walk over the children visits
those that are present, in order. -/
def visit (v : Visitor τ ε) : Tree τ → List ε :=
  Tree.fold fun t visited => v.callKind (.dispatch t.kind) t visited.reduceOption.flatten

/-- A body that reports the node and then does what the method does by default. -/
def reporting (event : Tree τ → ε) : Tree τ → List ε → List ε :=
  fun t inner => event t :: inner

/-- A body that reports the node and looks no further. -/
def stopping (event : Tree τ → ε) : Tree τ → List ε → List ε :=
  fun t _ => [event t]

/-- The event text of a node: the name of the method that reports it, the kind of the
node and the spelling of its leading token. -/
def eventText (method : String) (t : Tree Token) : String :=
  method ++ " " ++ t.kind.name ++ " " ++ t.tokenText

/-- The name of a kind method in event texts. -/
def kindMethodName (m : KindMethod) : String := m.kind.name.map Char.toLower

/-- The name of a shape method in event texts. -/
def shapeMethodName (m : ShapeMethod) : String := m.shape.name.map Char.toLower

/-- Reports every node under its shape. -/
def shapes : Visitor Token String where
  atKind _ := none
  atShape m := some (reporting (eventText (shapeMethodName m)))

/-- Reports every node under its kind. -/
def kinds : Visitor Token String where
  atKind m := some (reporting (eventText (kindMethodName m)))
  atShape _ := none

/-- Reports atoms, and identifiers under their kind as well. -/
def atoms : Visitor Token String where
  atKind
    | .visitIdentifier => some (reporting (eventText (kindMethodName .visitIdentifier)))
    | _ => none
  atShape
    | .visitAtom => some (stopping (eventText (shapeMethodName .visitAtom)))
    | _ => none

/-- The methods at which `pruned` stops. -/
def prunedMethods : List KindMethod :=
  [.visitCall, .visitControl, .visitEnclosure, .visitLiteral, .visitIdentifier]

/-- Reports calls, control constructs, enclosures, literals and identifiers and
does not look inside them. -/
def pruned : Visitor Token String where
  atKind m := if m ∈ prunedMethods then some (stopping (eventText (kindMethodName m))) else none
  atShape _ := none

/-- A visit calls the kind method of the root on the visits of the children that are
present. -/
theorem visit_eq (v : Visitor τ ε) (t : Tree τ) :
    v.visit t = v.callKind (.dispatch t.kind) t
      ((t.children.map (Option.map v.visit)).reduceOption).flatten := by
  rw [visit, Tree.fold_eq]

end Visitor

end ConcreteSyntax
