import ConcreteSyntax.SyntaxTrees
import ConcreteSyntax.Tokens

/-!
# Spans and outlines of trees

The span of a tree covers all its tokens, whatever their order. The outline of a
tree has one line for every node that is present, indented by its depth, with the
kind of the node, its span and the token that characterises it.
-/

namespace ConcreteSyntax

namespace Tree

/-- The leading and the trailing token of a node, as far as it has them. -/
def ownTokens {τ : Type} (t : Tree τ) : List τ := t.token?.toList ++ t.trailingToken?.toList

/-- The spelling of the token of an atom. -/
def spelling? (t : Tree Token) : Option String :=
  match t.shape with
  | .atom => t.token?.map Token.spelling
  | _ => none

/-- The spelling of the leading token; it is empty when the node has none. -/
def tokenText (t : Tree Token) : String := t.token?.elim "" Token.spelling

/-- The spelling of the trailing token; it is empty when the node has none. -/
def trailingText (t : Tree Token) : String := t.trailingToken?.elim "" Token.spelling

/-- The span that covers the tokens of a tree, or `Span.nowhere` if it has none. -/
def span : Tree Token → Span :=
  Tree.fold fun t inner =>
    (t.ownTokens.map Token.span ++ inner.reduceOption).foldl Span.cover Span.nowhere

/-- What the leading token of a node is called in an outline. -/
def tokenLabel? : NodeKind → Option String
  | .literal => some "value"
  | .identifier => some "identifier"
  | .prefixOp | .postfixOp | .infixOp => some "operator"
  | .array | .function | .template => some "constructor"
  | .control => some "keyword"
  | .declaration => some "introducer"
  | .enclosure | .file | .call | .index | .constraint | .capture | .list | .sequence => none

/-- The part of an outline line that shows the tokens of a node: both delimiters
of an enclosure, and the leading token of any other node that has a label for it. -/
def tokenNote (t : Tree Token) : String :=
  match t.kind with
  | .enclosure => " kind='" ++ t.tokenText ++ t.trailingText ++ "'"
  | k =>
    match tokenLabel? k, t.token? with
    | some label, some token => " " ++ label ++ "='" ++ token.spelling ++ "'"
    | _, _ => ""

/-- The line of a node without its indentation. -/
def summary (t : Tree Token) : String :=
  t.kind.name ++ (if t.span.IsValid then " @" ++ t.span.toText else "") ++ t.tokenNote

/-- The lines of an outline that starts at a given depth, two spaces per level. -/
def outlineLines : Tree Token → Nat → List String :=
  Tree.fold fun t inner depth =>
    (String.ofList (List.replicate (2 * depth) ' ') ++ t.summary) ::
      (inner.reduceOption.map fun child => child (depth + 1)).flatten

/-- The outline of a tree; every line ends in a line feed. -/
def outline (t : Tree Token) : String :=
  String.join ((t.outlineLines 0).map (· ++ "\n"))

end Tree

end ConcreteSyntax
