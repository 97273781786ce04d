/-!
# Interned spellings

A symbol table hands out one symbol per text. A symbol remembers the table that
made it and its place there, and symbols are compared by that identity alone,
never by their characters: equal texts from two tables give different symbols.
-/

namespace ConcreteSyntax

/-- A text interned in a table. -/
structure Symbol where
  /-- The number of the table that owns the symbol. -/
  table : Nat
  /-- The place of the text among the texts of that table. -/
  index : Nat
  /-- The interned text. -/
  text : String
  deriving Repr, Inhabited

namespace Symbol

/-- Symbols are the same when they come from the same place of the same table. -/
instance : BEq Symbol := ⟨fun a b => a.table == b.table && a.index == b.index⟩

/-- The length of the text in bytes of its UTF-8 form. -/
def size (s : Symbol) : Nat := s.text.utf8ByteSize

/-- Whether the text has no characters. -/
def isEmpty (s : Symbol) : Bool := s.text.isEmpty

end Symbol

/-- A collection of distinct texts in the order of their first use. -/
structure SymbolTable where
  /-- The number that tells this table from the others of a session. -/
  number : Nat
  /-- The interned texts. -/
  texts : List String
  /-- No text is interned twice. -/
  distinct : texts.Nodup

namespace SymbolTable

/-- The table with the given number in which nothing is interned. -/
def empty (number : Nat) : SymbolTable := ⟨number, [], List.nodup_nil⟩

instance : Inhabited SymbolTable := ⟨empty 0⟩

/-- How many texts are interned. -/
def size (t : SymbolTable) : Nat := t.texts.length

/-- Whether nothing is interned. -/
def isEmpty (t : SymbolTable) : Bool := t.texts.isEmpty

/-- The symbol of a text, if the text is interned. -/
def get? (t : SymbolTable) (text : String) : Option Symbol :=
  (t.texts.idxOf? text).map fun index => ⟨t.number, index, text⟩

/-- The table with a text added behind the others, unless it is there already. -/
def insert (t : SymbolTable) (text : String) : SymbolTable :=
  if h : text ∈ t.texts then t
  else
    { t with
      texts := t.texts ++ [text]
      distinct := by
        rw [List.nodup_append]
        refine ⟨t.distinct, by simp, ?_⟩
        intro a ha b hb
        rw [List.mem_singleton] at hb
        intro hab
        exact h (hb ▸ hab ▸ ha) }

/-- The symbol of a text together with the table that then holds it. A text that
is there already keeps its symbol and leaves the table as it is. -/
def intern (t : SymbolTable) (text : String) : Symbol × SymbolTable :=
  match t.get? text with
  | some symbol => (symbol, t)
  | none => (⟨t.number, t.size, text⟩, t.insert text)

/-- Interns texts one after the other. -/
def internAll (t : SymbolTable) (texts : List String) : SymbolTable :=
  texts.foldl (fun table text => (table.intern text).2) t

/-- The written form of a table, which shows its size only. -/
def toText (t : SymbolTable) : String :=
  "SymbolTable \x7b len: " ++ toString t.size ++ ", .. \x7d"

end SymbolTable

end ConcreteSyntax
