import ConcreteSyntax.TextCursors
import ConcreteSyntax.TokenKinds

/-!
# Scanning characters

Between tokens lie blanks and comments; a comment begins with a number sign and ends
before the next line feed. A token is a word, a run of digits or a punctuator. What a
character that begins no word and no number is scanned as depends on that character
and on the one behind it; a character that begins nothing is an invalid token of its
own, so scanning never fails.
-/

namespace ConcreteSyntax

/-- The blanks between lexemes: space, tab, line feed, form feed and carriage
return. A vertical tab is not a blank. -/
def isBlank (c : Char) : Bool :=
  c == ' ' || c == '\t' || c == '\n' || c == '\x0c' || c == '\r'

/-- The decimal digits of ASCII. -/
def isDigit (c : Char) : Bool := '0' ≤ c && c ≤ '9'

/-- The characters that start a word: ASCII letters and the underscore. -/
def isWordStart (c : Char) : Bool :=
  ('A' ≤ c && c ≤ 'Z') || ('a' ≤ c && c ≤ 'z') || c == '_'

/-- The characters that continue a word. -/
def isWordPart (c : Char) : Bool := isWordStart c || isDigit c

/-- The number of characters of the gap at the front of a text. The flag tells
whether the text begins inside a comment. -/
def gapLength : Bool → List Char → Nat
  | _, [] => 0
  | true, c :: cs => gapLength (c != '\n') cs + 1
  | false, c :: cs =>
    if c == '#' then gapLength true cs + 1
    else if isBlank c then gapLength false cs + 1
    else 0

/-- The character that is seen behind the end of a text. -/
def endChar : Char := '\x00'

/-- The kind and the number of characters of the punctuator that begins with a
character, given the character behind it. What begins no punctuator is invalid. -/
def punctuator (first second : Char) : TokenKind × Nat :=
  match first with
  | '(' => (.leftParen, 1)
  | ')' => (.rightParen, 1)
  | '[' => (.leftBracket, 1)
  | ']' => (.rightBracket, 1)
  | '\x7b' => (.leftBrace, 1)
  | '\x7d' => (.rightBrace, 1)
  | ':' => (.colon, 1)
  | ';' => (.semicolon, 1)
  | ',' => (.comma, 1)
  | '.' => (.dot, 1)
  | '+' => (.plus, 1)
  | '*' => (.star, 1)
  | '/' => (.slash, 1)
  | '%' => (.percent, 1)
  | '^' => (.caret, 1)
  | '&' => (.amp, 1)
  | '=' =>
    match second with
    | '=' => (.eq2, 2)
    | '>' => (.fatArrow, 2)
    | _ => (.eq, 1)
  | '!' =>
    match second with
    | '=' => (.neq, 2)
    | _ => (.invalid, 1)
  | '<' =>
    match second with
    | '=' => (.ltEq, 2)
    | _ => (.lt, 1)
  | '>' =>
    match second with
    | '=' => (.gtEq, 2)
    | _ => (.gt, 1)
  | '-' =>
    match second with
    | '>' => (.thinArrow, 2)
    | _ => (.minus, 1)
  | _ => (.invalid, 1)

namespace TextCursor

/-- The cursor after the blanks and comments in front of it. -/
def skipGap (c : TextCursor) : TextCursor := c.move (gapLength false c.rest)

end TextCursor

end ConcreteSyntax
