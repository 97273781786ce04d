import ConcreteSyntax.SyntaxTrees
import ConcreteSyntax.Tokens

/-!
# Printed trees

A word is a token without its place. A tree of words is printed as the words of its
nodes in the order of the source, with the separators that trees drop put back:
commas between the terms of a list, semicolons between the lists of a group and
behind statements, the reserved word between the branches of a case distinction,
colons before types and equals signs before values. Printed words are joined by
single blanks.
-/

namespace ConcreteSyntax

/-- A token without its place in the text. -/
structure Word where
  /-- What sort of unit it is. -/
  kind : TokenKind
  /-- Its characters. -/
  text : String
  deriving DecidableEq, Repr, Inhabited

instance : HasKind Word := ⟨Word.kind⟩

/-- The word of a punctuator or a reserved word. -/
def TokenKind.word (k : TokenKind) : Word := ⟨k, k.spelling?.getD ""⟩

/-- The word of a kind is of that kind. -/
@[simp] theorem TokenKind.kind_word (k : TokenKind) : HasKind.kind k.word = k := rfl

/-- A token with its place forgotten. -/
def Token.word (t : Token) : Word := ⟨t.kind, t.spelling⟩

namespace Tree

variable {τ σ : Type}

mutual

/-- A tree with every token replaced. -/
def map (f : τ → σ) : Tree τ → Tree σ
  | literal token => literal (f token)
  | identifier token => identifier (f token)
  | prefixOp operator operand => prefixOp (f operator) (map f operand)
  | postfixOp operand operator => postfixOp (map f operand) (f operator)
  | enclosure opening term closing => enclosure (f opening) (mapSlot f term) (f closing)
  | file declarations => file (mapSlot f declarations)
  | infixOp left operator right => infixOp (map f left) (f operator) (map f right)
  | array mark specifier result => array (mark.map f) (map f specifier) (map f result)
  | function mark specifier result => function (mark.map f) (map f specifier) (map f result)
  | template mark specifier result => template (mark.map f) (map f specifier) (map f result)
  | call applicant arguments => call (map f applicant) (map f arguments)
  | index applicant arguments => index (map f applicant) (map f arguments)
  | control keyword head body => control (f keyword) (mapSlot f head) (mapSlot f body)
  | constraint mark type pattern => constraint (f mark) (mapSlot f type) (map f pattern)
  | capture captures parameters => capture (map f captures) (map f parameters)
  | declaration introducer declarator type initializer terminator =>
    declaration (introducer.map f) (mapSlot f declarator) (mapSlot f type) (mapSlot f initializer)
      (terminator.map f)
  | list terms => list (mapTerms f terms)
  | sequence terms => sequence (mapTerms f terms)

/-- An operand with every token replaced, if it is present. -/
def mapSlot (f : τ → σ) : Option (Tree τ) → Option (Tree σ)
  | none => none
  | some t => some (map f t)

/-- Terms with every token replaced. -/
def mapTerms (f : τ → σ) : List (Tree τ) → List (Tree σ)
  | [] => []
  | t :: ts => map f t :: mapTerms f ts

end

/-- An operand place is mapped as an option. -/
@[simp] theorem mapSlot_eq_map (f : τ → σ) (slot : Option (Tree τ)) :
    mapSlot f slot = slot.map (map f) := by
  cases slot <;> rfl

/-- Terms are mapped one by one. -/
@[simp] theorem mapTerms_eq_map (f : τ → σ) (ts : List (Tree τ)) :
    mapTerms f ts = ts.map (map f) := by
  induction ts with
  | nil => rfl
  | cons t ts ih => simp only [mapTerms, ih, List.map_cons]

/-- Whether a node is a list. -/
def isList : Tree τ → Bool
  | list _ => true
  | _ => false

/-- Whether a node is a declaration. -/
def isDeclaration : Tree τ → Bool
  | declaration .. => true
  | _ => false

/-- Whether a type place holds a constraint without a type. -/
def isBareConstraint : Option (Tree τ) → Bool
  | some (constraint _ none _) => true
  | _ => false

/-- Whether a node is a block: an enclosure in braces. -/
def isBlock [HasKind τ] : Tree τ → Bool
  | enclosure opening _ _ => HasKind.kind opening == .leftBrace
  | _ => false

/-- Where a tree stands, as far as its printed form depends on that. -/
inductive Place where
  /-- The specifier of a function constructor, and the first item in it. -/
  | specifier
  /-- The branches of a case distinction. -/
  | branches
  /-- Any other place. -/
  | plain
  deriving DecidableEq, Repr, Inhabited

/-- The place of the first term of a list: a specifier begins with the first list of
its group, and that list begins with its first parameter. -/
def Place.ofFirst (place : Place) (t : Tree τ) : Place :=
  if t.isList || t.isDeclaration then place else .plain

/-- Whether the mark of a constructor is a reserved word in front of it. -/
def leads [HasKind τ] (mark : Option τ) : Bool :=
  mark.elim false fun m =>
    HasKind.kind m == .arrayKw || HasKind.kind m == .templKw || HasKind.kind m == .funcKw

/-- A constructor's words: a reserved word stands in front, an arrow in between. -/
def printConstructor (mark : Option Word) (specifier result : List Word) : List Word :=
  if leads mark then mark.toList ++ specifier ++ result else specifier ++ mark.toList ++ result

/-- The word between the terms of a list: a semicolon between lists, a comma between
all others. -/
def separator : List (Tree Word) → Word
  | t :: _ => if t.isList then TokenKind.semicolon.word else TokenKind.comma.word
  | [] => TokenKind.comma.word

/-- The colon of a declaration. It is left out between names and a bare constraint,
but not at the beginning of a specifier. -/
def printColon (place : Place) (declarator type : Option (Tree Word)) : List Word :=
  if declarator.isSome && isBareConstraint type && place != .specifier then []
  else [TokenKind.colon.word]

/-- The equals sign in front of an initial value; a block has none. -/
def printEquals (initializer : Option (Tree Word)) : List Word :=
  if initializer.elim true isBlock then [] else [TokenKind.eq.word]

/-- The semicolon behind a statement; a declaration has its own terminator. -/
def printTerminator (statement : Tree Word) : List Word :=
  if statement.isDeclaration then [] else [TokenKind.semicolon.word]

mutual

/-- The words of a tree in the order of the source. -/
def print (place : Place) : Tree Word → List Word
  | literal token => [token]
  | identifier token => [token]
  | prefixOp operator operand => operator :: print .plain operand
  | postfixOp operand operator => print .plain operand ++ [operator]
  | enclosure opening term closing => opening :: (printSlot place term ++ [closing])
  | file declarations => printSlot .plain declarations
  | infixOp left operator right => print .plain left ++ operator :: print .plain right
  | array mark specifier result =>
    printConstructor mark (print .plain specifier) (print .plain result)
  | function mark specifier result =>
    printConstructor mark (print .specifier specifier) (print .plain result)
  | template mark specifier result =>
    printConstructor mark (print .plain specifier) (print .plain result)
  | call applicant arguments => print .plain applicant ++ print .plain arguments
  | index applicant arguments => print .plain applicant ++ print .plain arguments
  | control keyword head body =>
    if keyword.kind = .elseKw ∨ keyword.kind = .fatArrow then
      printSlot .plain head ++ keyword :: printSlot .plain body
    else
      keyword :: (printSlot .plain head ++
        printSlot (if keyword.kind = .caseKw then .branches else .plain) body)
  | constraint mark type pattern => printSlot .plain type ++ mark :: print .plain pattern
  | capture captures parameters => print .plain captures ++ print .plain parameters
  | declaration introducer declarator type initializer terminator =>
    introducer.toList ++ printSlot .plain declarator ++ printColon place declarator type ++
      printSlot .plain type ++ printEquals initializer ++ printSlot .plain initializer ++
      terminator.toList
  | list terms => printTerms place (separator terms) terms
  | sequence terms =>
    if place = .branches then printTerms .plain TokenKind.elseKw.word terms
    else printStatements terms

/-- The words of an operand, if it is present. -/
def printSlot (place : Place) : Option (Tree Word) → List Word
  | none => []
  | some t => print place t

/-- The words of terms with a separator between any two. -/
def printTerms (place : Place) (separator : Word) : List (Tree Word) → List Word
  | [] => []
  | t :: ts => print (place.ofFirst t) t ++ printOthers separator ts

/-- The words of terms with a separator in front of each. -/
def printOthers (separator : Word) : List (Tree Word) → List Word
  | [] => []
  | t :: ts => separator :: (print .plain t ++ printOthers separator ts)

/-- The words of statements, each with its terminator. -/
def printStatements : List (Tree Word) → List Word
  | [] => []
  | t :: ts => print .plain t ++ printTerminator t ++ printStatements ts

end

/-- The text of a tree: its words joined by single blanks. -/
def text (t : Tree Word) : String := " ".intercalate ((print .plain t).map Word.text)

end Tree

end ConcreteSyntax
