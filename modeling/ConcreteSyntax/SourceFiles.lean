import ConcreteSyntax.FileReading

/-!
# Source files

A file is found at a path, whose extension chooses the dialect, and has a content
that may fail to be a text. The library does not touch the file system: what is
found at a path is an argument.
-/

namespace ConcreteSyntax

/-- The name at the end of a path. Empty and one-dot components are ignored, and a
path that ends in two dots has no name. -/
def fileName? (path : String) : Option String :=
  let components := (path.splitOn "/").filter fun part => part != "" && part != "."
  match components.getLast? with
  | some ".." | none => none
  | some name => some name

/-- The part of a file name behind its last dot. A name whose only dot is its first
character has no extension. -/
def extensionOf? (name : String) : Option String :=
  let chars := name.toList
  let back := chars.reverse.takeWhile (· != '.')
  if chars.length ≤ back.length + 1 then none else some (String.ofList back.reverse)

/-- The dialect of the file at a path. -/
def Dialect.ofPath (path : String) : Dialect := ofExtension ((fileName? path).bind extensionOf?)

/-- What is found at a path. -/
inductive FileContent where
  /-- No file. -/
  | absent
  /-- A directory. -/
  | directory
  /-- A file with the given bytes. -/
  | bytes (data : ByteArray)

/-- Why a file cannot be read. -/
inductive ReadFault where
  /-- There is nothing at the path. -/
  | notFound
  /-- There is a directory at the path. -/
  | isDirectory
  /-- The bytes are not the UTF-8 form of a text. -/
  | invalidText
  deriving DecidableEq, Repr, Inhabited

/-- The description of a fault in messages. -/
def ReadFault.description : ReadFault → String
  | notFound => "No such file or directory (os error 2)"
  | isDirectory => "Is a directory (os error 21)"
  | invalidText => "stream did not contain valid UTF-8"

/-- What there is at a path at which something may have been made. Nothing is at the
empty path, and a path without a name at its end leads to a directory that is always
there. -/
def FileContent.atPath (path : String) (content : FileContent) : FileContent :=
  if path.isEmpty then absent
  else match content with
    | absent => if (fileName? path).isNone then directory else absent
    | content => content

/-- The text of a content. -/
def FileContent.text : FileContent → Except ReadFault String
  | absent => .error .notFound
  | directory => .error .isDirectory
  | bytes data =>
    match String.fromUTF8? data with
    | some text => .ok text
    | none => .error .invalidText

/-- Why a file gives no tree. -/
inductive FileError where
  /-- The file cannot be read. -/
  | unreadable (path : String) (fault : ReadFault)
  /-- The text of the file has a syntax error. -/
  | syntactic (error : SyntaxError)
  deriving Repr, Inhabited

namespace FileError

/-- The message of an error. -/
def message : FileError → String
  | unreadable path fault => "cannot read " ++ path ++ ": " ++ fault.description
  | syntactic error => error.message

/-- The token at which a syntax error was found. -/
def found? : FileError → Option Token
  | unreadable .. => none
  | syntactic error => some error.found

/-- Where the error is; a file that cannot be read has no place for it. -/
def position? (e : FileError) : Option Position := e.found?.map Token.start

/-- The diagnostic of a syntax error. -/
def diagnostic? : FileError → Option Diagnostic
  | unreadable .. => none
  | syntactic error => some error.diagnostic

end FileError

namespace FileReader

/-- The reader at the beginning of a file. Nothing is interned when the file cannot
be read. -/
def ofFile (symbols : SymbolTable) (dialect : Dialect) (path : String) (content : FileContent) :
    Except FileError FileReader × SymbolTable :=
  match (content.atPath path).text with
  | .error fault => (.error (.unreadable path fault), symbols)
  | .ok text =>
    let (reader, symbols) := ofText symbols dialect text
    (.ok reader, symbols)

end FileReader

/-- Reads the file at a path in the dialect that its extension chooses. -/
def parseFile (symbols : SymbolTable) (path : String) (content : FileContent) :
    Except FileError (Tree Token) × SymbolTable :=
  match FileReader.ofFile symbols (Dialect.ofPath path) path content with
  | (.error e, symbols) => (.error e, symbols)
  | (.ok reader, symbols) => (reader.read.1.mapError .syntactic, symbols)

end ConcreteSyntax
