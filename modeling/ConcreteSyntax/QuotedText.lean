import ConcreteSyntax.PrintableCharacters

/-!
# Quoted text

A text is written between double quotes. Quotes and backslashes are escaped, the
common control characters have short escapes, and every other character that
cannot be printed is written by the number of its code point.
-/

namespace ConcreteSyntax

/-- The digits of a number to base sixteen, in lower case. -/
def hexadecimal (n : Nat) : List Char := Nat.toDigits 16 n

/-- The written form of a character inside quotes. -/
def escaped (c : Char) : List Char :=
  match c with
  | '\x00' => ['\\', '0']
  | '\t' => ['\\', 't']
  | '\n' => ['\\', 'n']
  | '\r' => ['\\', 'r']
  | '"' => ['\\', '"']
  | '\\' => ['\\', '\\']
  | c =>
    if isPrintable c then [c]
    else ['\\', 'u', '\x7b'] ++ hexadecimal c.toNat ++ ['\x7d']

/-- A text between double quotes. -/
def quoted (text : String) : String :=
  String.ofList ('"' :: text.toList.flatMap escaped ++ ['"'])

end ConcreteSyntax
