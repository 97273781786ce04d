import ConcreteSyntax.Proofs.PrintedPhrases

/-!
# Round trips of texts

The printed text of the tree of an accepted text is accepted again, and its tree is the
same but for the places of the tokens. Printing adds nothing but separators to the
tokens of a tree, so all printed words are lexemes, and printed words that are lexemes
are the tokens of their text.
-/

namespace ConcreteSyntax

open TokenParser Grammar ConcreteSyntax.Tree

namespace Tree

/-- The words that printing puts between the tokens of a tree. -/
def separators : List Word :=
  [TokenKind.comma, .semicolon, .colon, .eq, .elseKw].map TokenKind.word

/-- Separators are lexemes. -/
theorem isLexeme_of_mem_separators : ∀ w ∈ separators, w.isLexeme = true := by decide

/-- That printing some words of a tree adds nothing but separators to its tokens. -/
abbrev Spaced (tokens words : List Word) : Prop := Keeps (· ∈ separators) tokens words

/-- A separator may be printed in front. -/
theorem spaced_separator {k : TokenKind} {tokens words : List Word} (h : Spaced tokens words)
    (hk : k.word ∈ separators := by decide) : Spaced tokens (k.word :: words) := .drop hk h

section

variable {ts : List (Tree Word)} (h : ∀ t ∈ ts, ∀ place, Spaced t.tokens (print place t))

include h

/-- Terms behind separators keep their tokens. -/
theorem spaced_printOthers {sep : Word} (hs : sep ∈ separators) :
    Spaced (ts.flatMap tokens) (printOthers sep ts) := by
  induction ts with
  | nil => exact .nil
  | cons t ts ih =>
    obtain ⟨ht, hts⟩ := List.forall_mem_cons.1 h
    rw [printOthers, List.flatMap_cons]
    exact .drop hs ((ht .plain).append (ih hts))

/-- Terms with separators between them keep their tokens. -/
theorem spaced_printTerms (place : Place) {sep : Word} (hs : sep ∈ separators) :
    Spaced (ts.flatMap tokens) (printTerms place sep ts) := by
  cases ts with
  | nil => exact .nil
  | cons t ts =>
    obtain ⟨ht, hts⟩ := List.forall_mem_cons.1 h
    rw [printTerms, List.flatMap_cons]
    exact (ht _).append (spaced_printOthers hts hs)

/-- Statements with terminators keep their tokens. -/
theorem spaced_printStatements : Spaced (ts.flatMap tokens) (printStatements ts) := by
  induction ts with
  | nil => exact .nil
  | cons t ts ih =>
    obtain ⟨ht, hts⟩ := List.forall_mem_cons.1 h
    rw [printStatements, List.flatMap_cons, List.append_assoc]
    refine (ht .plain).append ?_
    unfold printTerminator
    split
    · exact ih hts
    · exact spaced_separator (ih hts)

end

/-- A constructor keeps its tokens. -/
theorem spaced_build (sort : ConstructorSort) (mark : Option Word) {s r : Tree Word}
    (hs : ∀ place, Spaced s.tokens (print place s)) (hr : ∀ place, Spaced r.tokens (print place r))
    (place : Place) : Spaced (sort.build mark s r).tokens (print place (sort.build mark s r)) := by
  have hprint : print place (sort.build mark s r) =
      printConstructor mark (print sort.place s) (print .plain r) := by
    cases sort <;> simp only [ConstructorSort.build, ConstructorSort.place, print]
  rw [hprint, printConstructor]
  split
  · next h =>
    rw [tokens_build_of_leads _ _ sort h, List.append_assoc]
    exact (Keeps.refl _).append ((hs _).append (hr _))
  · next h =>
    rw [tokens_build_of_not_leads _ _ sort (Bool.eq_false_iff.2 h), List.append_assoc]
    exact (hs _).append ((Keeps.refl _).append (hr _))

/-- Printing a tree adds nothing but separators to its tokens in grammatical order. -/
theorem spaced_print (t : Tree Word) : ∀ place, Spaced t.tokens (print place t) := by
  induction t using children_induction with | step t ih => ?_
  have one : ∀ w : Word, Spaced [w] [w] := fun w => Keeps.refl [w]
  have slot : ∀ s ∈ t.children, ∀ place, Spaced (slotTokens s) (printSlot place s) := by
    intro s hs place
    cases s with
    | none => exact .nil
    | some u => exact ih u hs place
  intro place
  cases t with
  | literal token | identifier token => simpa [print] using one token
  | prefixOp operator operand =>
    rw [tokens_prefixOp, print]
    exact .keep operator (ih operand (by simp [children]) .plain)
  | postfixOp operand operator =>
    rw [tokens_postfixOp, print]
    exact (ih operand (by simp [children]) .plain).append (one operator)
  | enclosure opening term closing =>
    rw [tokens_enclosure, print]
    exact .keep opening ((slot term (by simp [children]) place).append (one closing))
  | file declarations =>
    rw [tokens_file, print]
    exact slot declarations (by simp [children]) .plain
  | infixOp left operator right =>
    rw [tokens_infixOp, print]
    exact (ih left (by simp [children]) .plain).append
      (.keep operator (ih right (by simp [children]) .plain))
  | array mark specifier result =>
    exact spaced_build .array mark (ih specifier (by simp [children]))
      (ih result (by simp [children])) place
  | function mark specifier result =>
    exact spaced_build .function mark (ih specifier (by simp [children]))
      (ih result (by simp [children])) place
  | template mark specifier result =>
    exact spaced_build .template mark (ih specifier (by simp [children]))
      (ih result (by simp [children])) place
  | call value arguments =>
    rw [tokens_call, print]
    exact (ih value (by simp [children]) .plain).append (ih arguments (by simp [children]) .plain)
  | index value arguments =>
    rw [tokens_index, print]
    exact (ih value (by simp [children]) .plain).append (ih arguments (by simp [children]) .plain)
  | capture captures parameters =>
    rw [tokens_capture, print]
    exact (ih captures (by simp [children]) .plain).append
      (ih parameters (by simp [children]) .plain)
  | constraint mark type pattern =>
    rw [tokens_constraint, print]
    exact (slot type (by simp [children]) .plain).append
      (.keep mark (ih pattern (by simp [children]) .plain))
  | control keyword head body =>
    have hhead := slot head (by simp [children])
    have hbody := slot body (by simp [children])
    rw [print]
    split
    · next h =>
      rw [tokens_control_between (h := h)]
      exact (hhead .plain).append (.keep keyword (hbody .plain))
    · next h =>
      rw [tokens_control_before (h := h)]
      exact .keep keyword ((hhead .plain).append (hbody _))
  | declaration introducer declarator type initializer terminator =>
    have hcolon : Spaced [] (printColon place declarator type) := by
      unfold printColon
      split
      · exact .nil
      · exact spaced_separator .nil
    have hequals : Spaced [] (printEquals initializer) := by
      unfold printEquals
      split
      · exact .nil
      · exact spaced_separator .nil
    rw [tokens_declaration, print]
    simp only [List.append_assoc]
    exact (Keeps.refl _).append ((slot declarator (by simp [children]) .plain).append
      (hcolon.append ((slot type (by simp [children]) .plain).append
        (hequals.append ((slot initializer (by simp [children]) .plain).append (Keeps.refl _))))))
  | list terms =>
    rw [tokens_list, print]
    refine spaced_printTerms (fun u hu => ih u (by simpa [children] using hu)) place ?_
    unfold separator
    split <;> (try split) <;> decide
  | sequence terms =>
    have hterms := fun u hu => ih u (by simpa [children] using hu)
    rw [tokens_sequence, print]
    split
    · exact spaced_printTerms hterms .plain (by decide)
    · exact spaced_printStatements hterms

/-- Where the tokens of a tree are lexemes, all its printed words are. -/
theorem isLexeme_of_mem_print {t : Tree Word} (h : ∀ w ∈ t.tokens, w.isLexeme = true)
    (place : Place) : ∀ w ∈ print place t, w.isLexeme = true := by
  intro w hw
  rcases (spaced_print t place).mem_or w hw with hw | hw
  · exact h w hw
  · exact isLexeme_of_mem_separators w hw

end Tree

/-- The printed text of the tree of an accepted text is accepted in the same dialect. Its
tree is the same but for the places of the tokens. -/
theorem parseText_text (symbols symbols' : SymbolTable) (dialect : Dialect) (text : String)
    (t : Tree Token) (h : (parseText symbols dialect text).1 = .ok t) :
    ∃ t', (parseText symbols' dialect (t.map Token.word).text).1 = .ok t' ∧
      t'.map Token.word = t.map Token.word := by
  obtain ⟨ws, ds, hlex, htree, hread⟩ := exists_reading_words_of_parseText h
  rw [htree]
  have hagain : Reading dialect.rules .declarations (printStatements ds ++ []) ds [] :=
    hread.reprints dialect.printable_rules [] rfl
  rw [List.append_nil] at hagain
  have hprint : print .plain (.file (sequence? ds)) = printStatements ds := by
    rw [print, printSlot_sequence?]
  have hkept : (Tree.file (sequence? ds)).tokens.Sublist ws := by
    obtain ⟨used, hused, hkeeps⟩ : KeepsTo ws (ds.flatMap tokens) [] := hread.ordered
    rw [List.append_nil] at hused
    simpa [hused] using hkeeps.sublist
  have hwords : ∀ w ∈ printStatements ds, w.isLexeme = true :=
    hprint ▸ isLexeme_of_mem_print (fun w hw => hlex w (hkept.subset hw)) .plain
  obtain ⟨t', hparse, ht'⟩ := exists_parseText_join hwords hagain symbols'
  refine ⟨t', ?_, ht'⟩
  rw [Tree.text, hprint]
  exact hparse

/-- The tree of a definition with a function type and a value is printed and read again. -/
theorem parseText_text_function :
    ∃ t, (parseText (.empty 0) .standard "f: (x: int) bool = g;").1 = .ok t ∧
      ∃ t', (parseText (.empty 0) .standard (t.map Token.word).text).1 = .ok t' ∧
        t'.map Token.word = t.map Token.word := by
  obtain ⟨t, ht⟩ := exists_tree_of_isOk (.empty 0) .standard "f: (x: int) bool = g;"
    (by decide +kernel)
  exact ⟨t, ht, parseText_text _ _ _ _ t ht⟩

end ConcreteSyntax
