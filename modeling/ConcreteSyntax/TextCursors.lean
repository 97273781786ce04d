import ConcreteSyntax.SourcePositions

/-!
# Cursors into a text

A cursor is the part of a text that is still to be read together with the place
where that part begins: its position and the number of bytes before it. Reading
moves a cursor over a number of characters, and moving twice is moving once over
both numbers. The number of bytes has no upper bound here; it never exceeds that of
the whole text.
-/

namespace ConcreteSyntax

/-- The number of bytes that characters take in UTF-8. -/
def byteCount (chars : List Char) : Nat := chars.foldr (fun c count => c.utf8Size + count) 0

/-- A place in a text and the characters from there on. -/
structure TextCursor where
  /-- The characters still to be read. -/
  rest : List Char
  /-- The position of the first of them. -/
  position : Position
  /-- The number of bytes before it. -/
  offset : Nat
  deriving DecidableEq, Repr, Inhabited

namespace TextCursor

/-- The cursor at the beginning of a text. -/
def ofText (text : String) : TextCursor := ⟨text.toList, Position.first, 0⟩

/-- The cursor after the next `count` characters. -/
def move (c : TextCursor) (count : Nat) : TextCursor where
  rest := c.rest.drop count
  position := (c.rest.take count).foldl Position.after c.position
  offset := c.offset + byteCount (c.rest.take count)

/-- The bytes of joined characters add up. -/
theorem byteCount_append (xs ys : List Char) :
    byteCount (xs ++ ys) = byteCount xs + byteCount ys := by
  induction xs with
  | nil => exact (Nat.zero_add _).symm
  | cons x xs ih =>
    simp only [byteCount, List.cons_append, List.foldr_cons] at ih ⊢
    omega

/-- Staying in place changes nothing. -/
theorem move_zero (c : TextCursor) : c.move 0 = c := by
  simp [move, byteCount]

/-- Moving twice is moving once over both counts. -/
theorem move_move (c : TextCursor) (m n : Nat) : (c.move m).move n = c.move (m + n) := by
  have htake : c.rest.take (m + n) = c.rest.take m ++ (c.rest.drop m).take n :=
    List.take_add ..
  simp only [move, List.drop_drop, htake, List.foldl_append, byteCount_append, Nat.add_assoc]

end TextCursor

end ConcreteSyntax
