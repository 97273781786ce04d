/-!
# Token kinds

The 53 kinds of tokens, in their fixed order: the end of the text, the three
classes of free spellings, the punctuators and the reserved words. A punctuator
or a reserved word has exactly one spelling.
-/

namespace ConcreteSyntax

/-- What sort of token a piece of text is. -/
inductive TokenKind where
  /-- The end of the text. -/
  | eof
  /-- A character that starts no token. -/
  | invalid
  /-- A word that is not reserved. -/
  | ident
  /-- A run of decimal digits. -/
  | intNumber
  | leftParen
  | rightParen
  | leftBracket
  | rightBracket
  | leftBrace
  | rightBrace
  | colon
  | semicolon
  | comma
  | dot
  | eq
  | eq2
  | fatArrow
  | neq
  | lt
  | ltEq
  | gt
  | gtEq
  | plus
  | minus
  | thinArrow
  | star
  | slash
  | percent
  | caret
  | amp
  | andKw
  | arrayKw
  | boolKw
  | caseKw
  | constKw
  | defKw
  | doKw
  | elseKw
  | falseKw
  | forKw
  | funcKw
  | ifKw
  | intKw
  | isKw
  | lambdaKw
  | letKw
  | notKw
  | orKw
  | ptrKw
  | templKw
  | trueKw
  | typeKw
  | whileKw
  deriving DecidableEq, Repr, Inhabited

namespace TokenKind

/-- The classes of free spellings and the end of the text. -/
def free : List TokenKind := [eof, invalid, ident, intNumber]

/-- The punctuators, in their fixed order. -/
def punctuators : List TokenKind :=
  [leftParen, rightParen, leftBracket, rightBracket, leftBrace, rightBrace, colon, semicolon,
    comma, dot, eq, eq2, fatArrow, neq, lt, ltEq, gt, gtEq, plus, minus, thinArrow, star, slash,
    percent, caret, amp]

/-- The reserved words, in alphabetical order, and the kinds they are lexed as. -/
def reservedWords : List (String × TokenKind) :=
  [("and", andKw), ("array", arrayKw), ("bool", boolKw), ("case", caseKw), ("const", constKw),
   ("def", defKw), ("do", doKw), ("else", elseKw), ("false", falseKw), ("for", forKw),
   ("func", funcKw), ("if", ifKw), ("int", intKw), ("is", isKw), ("lambda", lambdaKw),
   ("let", letKw), ("not", notKw), ("or", orKw), ("ptr", ptrKw), ("templ", templKw),
   ("true", trueKw), ("type", typeKw), ("while", whileKw)]

/-- The kinds of the reserved words, in their order. -/
def keywords : List TokenKind := reservedWords.map Prod.snd

/-- The spellings of the reserved words, in their order. -/
def keywordSpellings : List String := reservedWords.map Prod.fst

/-- All kinds in their fixed order. -/
def all : List TokenKind := free ++ punctuators ++ keywords

/-- The place of a kind in the fixed order, counted from zero. -/
def index (k : TokenKind) : Nat := k.ctorIdx

/-- Whether a kind stands for a reserved word. The reserved words are the last kinds. -/
def isKeyword (k : TokenKind) : Bool := andKw.index ≤ k.index

/-- The only spelling of a punctuator or a reserved word. -/
def spelling? : TokenKind → Option String
  | eof | invalid | ident | intNumber => none
  | leftParen => some "("
  | rightParen => some ")"
  | leftBracket => some "["
  | rightBracket => some "]"
  | leftBrace => some "\x7b"
  | rightBrace => some "\x7d"
  | colon => some ":"
  | semicolon => some ";"
  | comma => some ","
  | dot => some "."
  | eq => some "="
  | eq2 => some "=="
  | fatArrow => some "=>"
  | neq => some "!="
  | lt => some "<"
  | ltEq => some "<="
  | gt => some ">"
  | gtEq => some ">="
  | plus => some "+"
  | minus => some "-"
  | thinArrow => some "->"
  | star => some "*"
  | slash => some "/"
  | percent => some "%"
  | caret => some "^"
  | amp => some "&"
  | andKw => some "and"
  | arrayKw => some "array"
  | boolKw => some "bool"
  | caseKw => some "case"
  | constKw => some "const"
  | defKw => some "def"
  | doKw => some "do"
  | elseKw => some "else"
  | falseKw => some "false"
  | forKw => some "for"
  | funcKw => some "func"
  | ifKw => some "if"
  | intKw => some "int"
  | isKw => some "is"
  | lambdaKw => some "lambda"
  | letKw => some "let"
  | notKw => some "not"
  | orKw => some "or"
  | ptrKw => some "ptr"
  | templKw => some "templ"
  | trueKw => some "true"
  | typeKw => some "type"
  | whileKw => some "while"

/-- The name of a kind in messages: its spelling, or a description where it has
no fixed one. -/
def name : TokenKind → String
  | eof => "end of file"
  | invalid => "invalid token"
  | ident => "identifier"
  | intNumber => "integer"
  | k => k.spelling?.getD "token"

/-- Every kind is listed. -/
theorem mem_all (k : TokenKind) : k ∈ all := by cases k <;> decide

/-- The list of all kinds is in the fixed order and without repetitions. -/
theorem all_map_index : all.map index = List.range 53 := by decide

/-- The place of a kind is below the number of kinds. -/
theorem index_lt (k : TokenKind) : k.index < 53 := by cases k <;> decide

/-- Kinds are told apart by their places. -/
theorem index_inj {j k : TokenKind} (h : j.index = k.index) : j = k := by
  have hj : all[j.index]? = some j := by cases j <;> rfl
  have hk : all[k.index]? = some k := by cases k <;> rfl
  rw [h, hk] at hj
  exact (Option.some.inj hj).symm

end TokenKind

end ConcreteSyntax
