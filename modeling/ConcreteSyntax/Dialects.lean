import ConcreteSyntax.TokenKindSets

/-!
# Dialects

The language has five dialects. They share their grammar and differ in a few
rules: how type constructors are written, which operators and literals there are,
at which level types are read, and whether control constructs exist.
-/

namespace ConcreteSyntax

/-- A variant of the surface language. -/
inductive Dialect where
  /-- Constructors are recognised by what follows their closing delimiter. -/
  | standard
  /-- Constructors are introduced by reserved words. -/
  | keyword
  /-- Constructors are recognised by arrows. -/
  | arrow
  /-- Function constructors are recognised by their parameters. -/
  | parameter
  /-- There are no constructors, but pointer operators and two implications. -/
  | pointer
  deriving DecidableEq, Repr, Inhabited

namespace Dialect

/-- All dialects. -/
def all : List Dialect := [standard, keyword, arrow, parameter, pointer]

/-- The name of a dialect. -/
def name : Dialect → String
  | standard => "standard"
  | keyword => "keyword"
  | arrow => "arrow"
  | parameter => "parameter"
  | pointer => "pointer"

/-- The dialect with a given name. -/
def ofName? (name : String) : Option Dialect := all.find? fun d => d.name == name

/-- The message for a name that no dialect has. -/
def unknownMessage (name : String) : String := "unknown dialect '" ++ name ++ "'"

/-- The dialect of a file, chosen by the extension of its name. -/
def ofExtension : Option String → Dialect
  | some "bkr" | some "bkr1" => keyword
  | some "bkr2" => arrow
  | some "bkr3" => parameter
  | some "bkr4" => pointer
  | _ => standard

/-- Names lead back to their dialects. -/
theorem ofName?_name (d : Dialect) : ofName? d.name = some d := by cases d <;> decide

end Dialect

/-- How an array, function or template constructor is told from a value. -/
inductive ConstructorStyle where
  /-- By the tokens inside the delimiters and after the matching closer. -/
  | lookahead
  /-- By a reserved word in front. -/
  | keyword
  /-- By brackets, or by an arrow after the matching parenthesis. -/
  | arrow
  /-- By brackets, or by parameters in the parentheses. -/
  | parameter
  /-- There are no constructors. -/
  | absent
  deriving DecidableEq, Repr, Inhabited

/-- The level of the expression grammar at which types are read. -/
inductive TypeLevel where
  /-- Types bind as tightly as operands of operators. -/
  | operand
  /-- Types may be implications. -/
  | implication
  deriving DecidableEq, Repr, Inhabited

/-- The rules in which dialects differ. -/
structure Rules where
  /-- How constructors are written. -/
  constructors : ConstructorStyle
  /-- The operators in front of an operand. -/
  prefixOperators : KindSet
  /-- The implication operators. -/
  implicationOperators : KindSet
  /-- The tokens that are literals. -/
  literals : KindSet
  /-- The tokens that, behind a constructor's specifier, begin its result. -/
  operandStart : KindSet
  /-- The level at which types are read. -/
  typeLevel : TypeLevel
  /-- Whether a caret may follow an operand. -/
  postfixCaret : Bool
  /-- Whether there are control constructs. -/
  control : Bool
  deriving DecidableEq, Repr, Inhabited

namespace Rules

/-- The operators between operands in some dialect. A token that is one of them
does not begin a constructor's result. -/
def infixOperators : KindSet := .ofList
  [.eq, .eq2, .neq, .lt, .ltEq, .gt, .gtEq, .plus, .minus, .star, .slash, .percent, .andKw, .orKw,
    .dot, .thinArrow, .fatArrow]

/-- The literals that all dialects have. -/
def commonLiterals : KindSet := .ofList
  [.intNumber, .trueKw, .falseKw, .intKw, .boolKw, .typeKw]

/-- The literals of the pointer dialect. -/
def pointerLiterals : KindSet := commonLiterals.union (.ofList [.ptrKw, .arrayKw])

/-- The prefix operators of all dialects but the pointer dialect. -/
def commonPrefixes : KindSet := .ofList [.constKw, .caret, .plus, .minus, .notKw]

/-- The prefix operators of the pointer dialect. -/
def pointerPrefixes : KindSet := .ofList [.constKw, .star, .amp, .plus, .minus, .notKw]

/-- The tokens that begin a constructor's result: names, opening delimiters,
literals, and prefix operators that are not operators between operands too. -/
def resultStart (literals prefixes : KindSet) : KindSet :=
  ((KindSet.ofList [.ident, .leftParen, .leftBracket]).union literals).union
    (prefixes.difference infixOperators)

/-- The rules of the standard dialect. -/
def standard : Rules where
  constructors := .lookahead
  prefixOperators := commonPrefixes
  implicationOperators := .ofList [.thinArrow]
  literals := commonLiterals
  operandStart := resultStart commonLiterals commonPrefixes
  typeLevel := .operand
  postfixCaret := true
  control := true

/-- The rules of the pointer dialect. -/
def pointer : Rules where
  constructors := .absent
  prefixOperators := pointerPrefixes
  implicationOperators := .ofList [.thinArrow, .fatArrow]
  literals := pointerLiterals
  operandStart := resultStart pointerLiterals pointerPrefixes
  typeLevel := .implication
  postfixCaret := false
  control := false

end Rules

/-- The rules of a dialect. -/
def Dialect.rules : Dialect → Rules
  | .standard => Rules.standard
  | .keyword => { Rules.standard with constructors := .keyword, control := false }
  | .arrow =>
    { Rules.standard with
      constructors := .arrow, implicationOperators := .empty, control := false }
  | .parameter => { Rules.standard with constructors := .parameter, control := false }
  | .pointer => Rules.pointer

end ConcreteSyntax
