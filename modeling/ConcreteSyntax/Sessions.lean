import ConcreteSyntax.FileReading
import ConcreteSyntax.QuotedText

/-!
# Sessions

A session works with several symbol tables. It remembers every symbol that it has
obtained and every tree that it has read, in order. The handle of a symbol is the
place of the first symbol that is the same.
-/

namespace ConcreteSyntax

/-- The state of a session. -/
structure Session where
  /-- The tables, each under its own number. -/
  tables : List SymbolTable
  /-- The symbols obtained so far. -/
  symbols : List Symbol
  /-- The trees read so far. -/
  trees : List (Tree Token)

/-- What a session is asked to do. -/
inductive Request where
  /-- Make a new table. -/
  | newTable
  /-- Intern a text. -/
  | intern (table : Nat) (text : String)
  /-- Look up a text. -/
  | get (table : Nat) (text : String)
  /-- Tell the size of a table. -/
  | size (table : Nat)
  /-- Compare two of the symbols obtained so far. -/
  | compare (first second : Nat)
  /-- Count the different symbols obtained so far. -/
  | distinct
  /-- Write all symbols obtained so far as quoted texts. -/
  | quote
  /-- Lex a text and obtain the symbols of its tokens. -/
  | lex (table : Nat) (text : String)
  /-- Read a text as a file and keep its tree. -/
  | parse (table : Nat) (dialect : Dialect) (text : String)
  /-- Compare two of the trees read so far. -/
  | compareTrees (first second : Nat)
  deriving Repr, Inhabited

/-- What a session answers. -/
inductive Answer where
  /-- The number of the new table. -/
  | table (number : Nat)
  /-- The handle of an interned symbol, the symbol, and the size of its table. -/
  | interned (handle : Nat) (symbol : Symbol) (size : Nat)
  /-- The handle of a symbol, if the text is interned, and the size of the table. -/
  | looked (handle : Option Nat) (size : Nat)
  /-- The table in question. -/
  | sized (table : SymbolTable)
  /-- Whether two symbols are the same, and whether their texts are equal. -/
  | compared (same sameText : Bool)
  /-- The number of different symbols. -/
  | counted (count : Nat)
  /-- Quoted texts of symbols. -/
  | quotedTexts (texts : List String)
  /-- The kinds of tokens with the handles of their symbols, and the size of the
  table. -/
  | lexed (tokens : List (TokenKind × Nat)) (size : Nat)
  /-- The tree of a text with its number, and the size of the table. -/
  | parsed (number : Nat) (tree : Tree Token) (size : Nat)
  /-- The syntax error of a text, and the size of the table. -/
  | rejected (error : SyntaxError) (size : Nat)
  /-- Whether two trees are equal, and whether the first equals itself. -/
  | comparedTrees (equal selfEqual : Bool)
  deriving Inhabited

namespace Session

/-- The session with one empty table. -/
def initial : Session := ⟨[SymbolTable.empty 0], [], []⟩

/-- The session with a table in place of the one of the same number. -/
def withTable (s : Session) (table : SymbolTable) : Session :=
  { s with tables := s.tables.set table.number table }

/-- The handle of a symbol among the symbols of a session. -/
def handle (s : Session) (symbol : Symbol) : Nat := s.symbols.findIdx (· == symbol)

/-- Obtains a symbol. It gets the handle of the first symbol that is the same, or a
new one. -/
def obtain (s : Session) (symbol : Symbol) : Nat × Session :=
  let s := { s with symbols := s.symbols ++ [symbol] }
  (s.handle symbol, s)

/-- Obtains the symbols of tokens in order. -/
def obtainAll (s : Session) : List Token → List (TokenKind × Nat) × Session
  | [] => ([], s)
  | token :: tokens =>
    let (handle, s) := s.obtain token.symbol
    let (others, s) := s.obtainAll tokens
    ((token.kind, handle) :: others, s)

/-- The different symbols that have been obtained, in the order of their first use. -/
def differentSymbols (s : Session) : List Symbol := s.symbols.eraseDups

/-- Answers a request, unless it names a table, a symbol or a tree that does not
exist. -/
def answer? (s : Session) : Request → Option (Answer × Session)
  | .newTable =>
    let number := s.tables.length
    some (.table number, { s with tables := s.tables ++ [SymbolTable.empty number] })
  | .intern number text => do
    let table ← s.tables[number]?
    let (symbol, table) := table.intern text
    let (handle, s) := (s.withTable table).obtain symbol
    return (.interned handle symbol table.size, s)
  | .get number text => do
    let table ← s.tables[number]?
    match table.get? text with
    | none => return (.looked none table.size, s)
    | some symbol =>
      let (handle, s) := s.obtain symbol
      return (.looked (some handle) table.size, s)
  | .size number => do
    let table ← s.tables[number]?
    return (.sized table, s)
  | .compare first second => do
    let a ← s.symbols[first]?
    let b ← s.symbols[second]?
    return (.compared (a == b) (a.text == b.text), s)
  | .distinct => some (.counted s.differentSymbols.length, s)
  | .quote => some (.quotedTexts (s.symbols.map fun symbol => quoted symbol.text), s)
  | .lex number text => do
    let table ← s.tables[number]?
    let (tokens, table) := tokenize table text
    let (pairs, s) := (s.withTable table).obtainAll tokens
    return (.lexed pairs table.size, s)
  | .parse number dialect text => do
    let table ← s.tables[number]?
    let (result, table) := parseText table dialect text
    let s := s.withTable table
    match result with
    | .error e => return (.rejected e table.size, s)
    | .ok tree =>
      return (.parsed s.trees.length tree table.size, { s with trees := s.trees ++ [tree] })
  | .compareTrees first second => do
    let a ← s.trees[first]?
    let b ← s.trees[second]?
    return (.comparedTrees (a == b) (a == a), s)

/-- Answers requests one after the other. -/
def answers? (s : Session) : List Request → Option (List Answer × Session)
  | [] => some ([], s)
  | request :: requests => do
    let (first, s) ← s.answer? request
    let (others, s) ← s.answers? requests
    return (first :: others, s)

end Session

end ConcreteSyntax
