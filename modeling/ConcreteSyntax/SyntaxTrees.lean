import ConcreteSyntax.NodeKinds

/-!
# Concrete syntax trees

A tree keeps the tokens that carry meaning and drops separators. The type of
tokens is a parameter, because no operation on trees looks into a token. All
views of a node go through its kind, its two token places and its children, and
recursive functions that treat all nodes alike are instances of `Tree.fold`, which
gives a node the results of its children in order, absent ones included.
-/

namespace ConcreteSyntax

/-- A syntax node with its tokens and operands. An absent operand is `none`. -/
inductive Tree (τ : Type) where
  /-- A literal value or a type name that is a reserved word. -/
  | literal (token : τ)
  /-- A name. -/
  | identifier (token : τ)
  /-- An operator before its operand. -/
  | prefixOp (operator : τ) (operand : Tree τ)
  /-- An operator after its operand. -/
  | postfixOp (operand : Tree τ) (operator : τ)
  /-- A pair of delimiters around a term, which is absent when they are empty. -/
  | enclosure (opening : τ) (term : Option (Tree τ)) (closing : τ)
  /-- A whole file with the sequence of its declarations, if it has any. -/
  | file (declarations : Option (Tree τ))
  /-- An operator between its operands. -/
  | infixOp (left : Tree τ) (operator : τ) (right : Tree τ)
  /-- The type of arrays with a given bound. -/
  | array (mark : Option τ) (specifier : Tree τ) (result : Tree τ)
  /-- The type of functions with given parameters. -/
  | function (mark : Option τ) (specifier : Tree τ) (result : Tree τ)
  /-- A type with parameters of its own. -/
  | template (mark : Option τ) (specifier : Tree τ) (result : Tree τ)
  /-- An applicant followed by arguments in parentheses. -/
  | call (applicant : Tree τ) (arguments : Tree τ)
  /-- An applicant followed by arguments in brackets. -/
  | index (applicant : Tree τ) (arguments : Tree τ)
  /-- A control construct, or one part of it, introduced by its keyword. -/
  | control (keyword : τ) (head : Option (Tree τ)) (body : Option (Tree τ))
  /-- A pattern that constrains a type, which may be left out. -/
  | constraint (mark : τ) (type : Option (Tree τ)) (pattern : Tree τ)
  /-- The captured names of a function value and its parameters. -/
  | capture (captures : Tree τ) (parameters : Tree τ)
  /-- A definition or a parameter. -/
  | declaration (introducer : Option τ) (declarator : Option (Tree τ)) (type : Option (Tree τ))
      (initializer : Option (Tree τ)) (terminator : Option τ)
  /-- Terms that were written with separators between them. -/
  | list (terms : List (Tree τ))
  /-- Terms that follow one another. -/
  | sequence (terms : List (Tree τ))
  deriving Repr, Inhabited

namespace Tree

variable {τ β : Type}

/-- What a node stands for. -/
def kind : Tree τ → NodeKind
  | literal .. => .literal
  | identifier .. => .identifier
  | prefixOp .. => .prefixOp
  | postfixOp .. => .postfixOp
  | enclosure .. => .enclosure
  | file .. => .file
  | infixOp .. => .infixOp
  | array .. => .array
  | function .. => .function
  | template .. => .template
  | call .. => .call
  | index .. => .index
  | control .. => .control
  | constraint .. => .constraint
  | capture .. => .capture
  | declaration .. => .declaration
  | list .. => .list
  | sequence .. => .sequence

/-- How the operands of a node are laid out. -/
def shape (t : Tree τ) : Shape := t.kind.shape

/-- The token of an atom, or the leading token of any other node: its operator,
keyword, introducer, constructor mark or opening delimiter. -/
def token? : Tree τ → Option τ
  | literal token | identifier token => some token
  | prefixOp operator _ | postfixOp _ operator | infixOp _ operator _ => some operator
  | enclosure opening _ _ => some opening
  | array mark _ _ | function mark _ _ | template mark _ _ => mark
  | control keyword _ _ => some keyword
  | constraint mark _ _ => some mark
  | declaration introducer _ _ _ _ => introducer
  | file _ | call _ _ | index _ _ | capture _ _ | list _ | sequence _ => none

/-- The closing delimiter of an enclosure or the terminator of a declaration. -/
def trailingToken? : Tree τ → Option τ
  | enclosure _ _ closing => some closing
  | declaration _ _ _ _ terminator => terminator
  | _ => none

/-- The operands of a node in order. An absent operand keeps its place. -/
def children : Tree τ → List (Option (Tree τ))
  | literal _ | identifier _ => []
  | prefixOp _ operand | postfixOp operand _ => [some operand]
  | enclosure _ term _ => [term]
  | file declarations => [declarations]
  | infixOp left _ right => [some left, some right]
  | array _ specifier result | function _ specifier result | template _ specifier result =>
    [some specifier, some result]
  | call applicant arguments | index applicant arguments => [some applicant, some arguments]
  | control _ head body => [head, body]
  | constraint _ type pattern => [type, some pattern]
  | capture captures parameters => [some captures, some parameters]
  | declaration _ declarator type initializer _ => [declarator, type, initializer]
  | list terms | sequence terms => terms.map some

/-- The children that are present. -/
def present (t : Tree τ) : List (Tree τ) := t.children.reduceOption

/-- The operand at a place, if the node has that place and it is not empty. -/
def operand? (t : Tree τ) (place : Nat) : Option (Tree τ) := t.children[place]?.join

/-- The terms of a list or a sequence; other nodes have none. -/
def terms : Tree τ → List (Tree τ)
  | list terms | sequence terms => terms
  | _ => []

/-- The node that is reached by following operand places from the root. -/
def descend (t : Tree τ) : List Nat → Option (Tree τ)
  | [] => some t
  | place :: path => (t.operand? place).bind fun child => child.descend path

mutual

/-- Computes a value for a node from the node and the values of its children. -/
def fold (f : Tree τ → List (Option β) → β) : Tree τ → β
  | literal token => f (literal token) []
  | identifier token => f (identifier token) []
  | prefixOp operator operand => f (prefixOp operator operand) [some (fold f operand)]
  | postfixOp operand operator => f (postfixOp operand operator) [some (fold f operand)]
  | enclosure opening term closing => f (enclosure opening term closing) [foldSlot f term]
  | file declarations => f (file declarations) [foldSlot f declarations]
  | infixOp left operator right =>
    f (infixOp left operator right) [some (fold f left), some (fold f right)]
  | array mark specifier result =>
    f (array mark specifier result) [some (fold f specifier), some (fold f result)]
  | function mark specifier result =>
    f (function mark specifier result) [some (fold f specifier), some (fold f result)]
  | template mark specifier result =>
    f (template mark specifier result) [some (fold f specifier), some (fold f result)]
  | call applicant arguments =>
    f (call applicant arguments) [some (fold f applicant), some (fold f arguments)]
  | index applicant arguments =>
    f (index applicant arguments) [some (fold f applicant), some (fold f arguments)]
  | control keyword head body =>
    f (control keyword head body) [foldSlot f head, foldSlot f body]
  | constraint mark type pattern =>
    f (constraint mark type pattern) [foldSlot f type, some (fold f pattern)]
  | capture captures parameters =>
    f (capture captures parameters) [some (fold f captures), some (fold f parameters)]
  | declaration introducer declarator type initializer terminator =>
    f (declaration introducer declarator type initializer terminator)
      [foldSlot f declarator, foldSlot f type, foldSlot f initializer]
  | list terms => f (list terms) (foldTerms f terms)
  | sequence terms => f (sequence terms) (foldTerms f terms)

/-- The value of an operand that may be absent. -/
def foldSlot (f : Tree τ → List (Option β) → β) : Option (Tree τ) → Option β
  | none => none
  | some t => some (fold f t)

/-- The values of terms in order. -/
def foldTerms (f : Tree τ → List (Option β) → β) : List (Tree τ) → List (Option β)
  | [] => []
  | t :: ts => some (fold f t) :: foldTerms f ts

end

/-- The value of an operand place is the value of the operand in it. -/
theorem foldSlot_eq_map (f : Tree τ → List (Option β) → β) (slot : Option (Tree τ)) :
    foldSlot f slot = slot.map (fold f) := by
  cases slot <;> simp only [foldSlot, Option.map_none, Option.map_some]

/-- The values of terms are taken one by one. -/
theorem foldTerms_eq_map (f : Tree τ → List (Option β) → β) (ts : List (Tree τ)) :
    foldTerms f ts = (ts.map some).map (Option.map (fold f)) := by
  induction ts with
  | nil => simp only [foldTerms, List.map_nil]
  | cons t ts ih => simp only [foldTerms, ih, List.map_cons, Option.map_some]

/-- A fold applies its function to a node and to the folds of the children. -/
theorem fold_eq (f : Tree τ → List (Option β) → β) (t : Tree τ) :
    t.fold f = f t (t.children.map (Option.map (fold f))) := by
  cases t <;>
    simp only [fold, children, foldSlot_eq_map, foldTerms_eq_map, List.map_cons, List.map_nil,
      Option.map_some]

/-- An operand of a node is smaller than the node. -/
theorem sizeOf_lt_of_mem_children {t child : Tree τ} (h : some child ∈ t.children) :
    sizeOf child < sizeOf t := by
  cases t with
  | literal | identifier => simp [children] at h
  | list terms | sequence terms =>
    have hmem : child ∈ terms := by simpa [children] using h
    have hlt := List.sizeOf_lt_of_mem hmem
    simp only [list.sizeOf_spec, sequence.sizeOf_spec]
    omega
  | _ =>
    have hsize : sizeOf (some child) = 1 + sizeOf child := rfl
    simp only [children, List.mem_cons, Option.some.injEq, List.not_mem_nil, or_false] at h
    simp only [prefixOp.sizeOf_spec, postfixOp.sizeOf_spec, enclosure.sizeOf_spec,
      file.sizeOf_spec, infixOp.sizeOf_spec, array.sizeOf_spec, function.sizeOf_spec,
      template.sizeOf_spec, call.sizeOf_spec, index.sizeOf_spec, control.sizeOf_spec,
      constraint.sizeOf_spec, capture.sizeOf_spec, declaration.sizeOf_spec]
    grind

/-- What passes from the operands of a node to the node holds of every tree. -/
theorem children_induction {P : Tree τ → Prop}
    (step : ∀ t, (∀ child, some child ∈ t.children → P child) → P t) (t : Tree τ) : P t :=
  step t fun child h =>
    have := sizeOf_lt_of_mem_children h
    children_induction step child
termination_by sizeOf t

/-- Whether tests accept the children they belong to, place by place. -/
def agree : List (Option (Tree τ → Bool)) → List (Option (Tree τ)) → Bool
  | [], [] => true
  | none :: tests, none :: slots => agree tests slots
  | some test :: tests, some child :: slots => test child && agree tests slots
  | _, _ => false

/-- Whether two trees have the same kinds, the same tokens and the same children
throughout. -/
def same [BEq τ] (t : Tree τ) : Tree τ → Bool :=
  t.fold fun node tests other =>
    node.kind == other.kind && node.token? == other.token? &&
      node.trailingToken? == other.trailingToken? && agree tests other.children

instance [BEq τ] : BEq (Tree τ) := ⟨same⟩

end Tree

end ConcreteSyntax
