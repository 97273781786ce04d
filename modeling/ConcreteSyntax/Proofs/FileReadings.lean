import ConcreteSyntax.Proofs.FoundTokens
import ConcreteSyntax.Proofs.KindInvariance
import ConcreteSyntax.Proofs.LexedWords
import ConcreteSyntax.Proofs.ReadingCompleteness
import ConcreteSyntax.Proofs.TokenOrder

/-!
# Readings of files

A text is accepted exactly when the declarations of its tree have a reading of all its
tokens before the end. A reading of words that are lexemes is a parse of their text.
-/

namespace ConcreteSyntax

open TokenParser Grammar

/-- Declarations are read up to the end. -/
theorem Reading.kindAt_of_declarations {τ : Type} [HasKind τ] {rules : Rules} {ts rest : List τ}
    {ds : List (Tree τ)} (h : Reading rules .declarations ts ds rest) : kindAt rest 0 = .eof := by
  induction ds generalizing ts with
  | nil =>
    cases h
    assumption
  | cons d ds ih =>
    cases h with
    | declarations _ _ hs => exact ih hs

/-- Declarations are read from all tokens when none of these marks the end. -/
theorem Reading.eq_nil_of_declarations {τ : Type} [HasKind τ] {rules : Rules} {ts rest : List τ}
    {ds : List (Tree τ)} (h : Reading rules .declarations ts ds rest)
    (hts : ∀ t ∈ ts, kind t ≠ .eof) : rest = [] := by
  obtain ⟨used, rfl, -⟩ : KeepsTo ts _ rest := h.ordered
  cases rest with
  | nil => rfl
  | cons t rest => exact absurd h.kindAt_of_declarations (hts t (by simp))

/-- The tokens of a text before the end are not of the kind of the end. -/
theorem kind_ne_eof_of_mem_tokenize {symbols : SymbolTable} {text : String} :
    ∀ t ∈ (tokenize symbols text).1.dropLast, kind t ≠ .eof := by
  obtain ⟨ts, finish, hbuffer, -, hlex, -⟩ := tokenize_spec symbols text
  rw [hbuffer, List.dropLast_concat]
  intro t ht
  exact (Word.isLexeme_iff.1 (hlex t ht)).1

/-- A text that is accepted has a tree. -/
theorem exists_tree_of_isOk (symbols : SymbolTable) (dialect : Dialect) (text : String)
    (h : (parseText symbols dialect text).1.isOk = true) :
    ∃ t, (parseText symbols dialect text).1 = .ok t := by
  cases hp : (parseText symbols dialect text).1 with
  | error e => rw [hp] at h; contradiction
  | ok t => exact ⟨t, rfl⟩

/-- A text that is accepted with a tree that passes a test has such a tree. -/
theorem exists_tree_of_any {symbols : SymbolTable} {dialect : Dialect} {text : String}
    {p : Tree Token → Bool} (h : (parseText symbols dialect text).1.toOption.any p = true) :
    ∃ t, (parseText symbols dialect text).1 = .ok t ∧ p t = true := by
  cases hp : (parseText symbols dialect text).1 with
  | error e => rw [hp] at h; contradiction
  | ok t => exact ⟨t, rfl, by rwa [hp] at h⟩

/-- A text that is refused has an error. -/
theorem exists_error_of_isOk (symbols : SymbolTable) (dialect : Dialect) (text : String)
    (h : (parseText symbols dialect text).1.isOk = false) :
    ∃ e, (parseText symbols dialect text).1 = .error e := by
  cases hp : (parseText symbols dialect text).1 with
  | error e => exact ⟨e, rfl⟩
  | ok t => rw [hp] at h; contradiction

/-- The result of a text is that of its tokens. -/
theorem parseText_fst (symbols : SymbolTable) (dialect : Dialect) (text : String) :
    (parseText symbols dialect text).1 =
      match parseTokens dialect (tokenize symbols text).1.dropLast with
      | .done tree _ => .ok tree
      | .failed e _ =>
        .error ⟨e.expected, e.found.getD ((tokenize symbols text).1.getLastD default)⟩ := by
  simp only [parseText, FileReader.ofText, FileReader.ofTokens, FileReader.read, FileReader.ahead,
    List.drop_zero]
  cases parseTokens dialect (tokenize symbols text).1.dropLast <;> rfl

/-- The tree of an accepted text has the declarations that are read from its tokens. -/
theorem exists_reading_of_parseText {symbols : SymbolTable} {dialect : Dialect} {text : String}
    {t : Tree Token} (h : (parseText symbols dialect text).1 = .ok t) :
    ∃ ds, t = .file (Tree.sequence? ds) ∧
      Reading dialect.rules .declarations (tokenize symbols text).1.dropLast ds [] := by
  rw [parseText_fst] at h
  cases hp : parseTokens dialect (tokenize symbols text).1.dropLast with
  | failed e rest => simp [hp] at h
  | done tree rest =>
    simp only [hp, Except.ok.injEq] at h
    obtain ⟨ds, rfl, hr⟩ := reading_of_parseTokens hp
    obtain rfl := hr.eq_nil_of_declarations kind_ne_eof_of_mem_tokenize
    exact ⟨ds, h.symm, hr⟩

/-- Where tokens are refused, some of them have been read, and the token that was found is the
first of the others. -/
theorem exists_append_of_parseTokens {τ : Type} [HasKind τ] {dialect : Dialect} {ts rest : List τ}
    {e : Failure τ} (h : parseTokens dialect ts = .failed e rest) :
    ∃ used, ts = used ++ rest ∧ e.found = rest.head? := by
  have hsuffix : (parseTokens dialect ts).rest <:+ ts := trims_file dialect.rules ts
  rw [h] at hsuffix
  obtain ⟨used, hused⟩ := hsuffix
  exact ⟨used, hused.symm, anchored_file dialect.rules h⟩

/-- The error of a refused text is the failure of its tokens before the end. The token that was
found is the first one that is left, or the end. -/
theorem exists_failed_of_parseText {symbols : SymbolTable} {dialect : Dialect} {text : String}
    {e : SyntaxError} (h : (parseText symbols dialect text).1 = .error e) :
    ∃ used rest finish failure, (tokenize symbols text).1 = used ++ rest ++ [finish] ∧
      parseTokens dialect (used ++ rest) = .failed failure rest ∧
      e.expected = failure.expected ∧ e.found = rest.headD finish := by
  obtain ⟨ts, finish, hbuffer, -⟩ := tokenize_spec symbols text
  rw [parseText_fst, hbuffer, List.dropLast_concat, List.getLastD_concat] at h
  cases hp : parseTokens dialect ts with
  | done t rest =>
    rw [hp] at h
    contradiction
  | failed failure rest =>
    rw [hp] at h
    obtain rfl := Except.error.inj h
    obtain ⟨used, rfl, hfound⟩ := exists_append_of_parseTokens hp
    refine ⟨used, rest, finish, failure, hbuffer, hp, rfl, ?_⟩
    show failure.found.getD finish = rest.headD finish
    rw [hfound, List.headD_eq_head?_getD]

/-- A token and its word are of the same kind. -/
theorem kind_word (t : Token) : kind t.word = kind t := rfl

/-- The words of an accepted text have a reading. -/
theorem exists_reading_words_of_parseText {symbols : SymbolTable} {dialect : Dialect}
    {text : String} {t : Tree Token} (h : (parseText symbols dialect text).1 = .ok t) :
    ∃ ws ds, (∀ w ∈ ws, w.isLexeme = true) ∧ t.map Token.word = .file (Tree.sequence? ds) ∧
      Reading dialect.rules .declarations ws ds [] := by
  obtain ⟨ds, rfl, hr⟩ := exists_reading_of_parseText h
  have hp := parseTokens_of_reading hr
  have hwords : parseTokens dialect ((tokenize symbols text).1.dropLast.map Token.word) =
      .done ((Tree.file (Tree.sequence? ds)).map Token.word) [] := by
    rw [parseTokens_map kind_word, hp]
    rfl
  obtain ⟨ds', hds', hr'⟩ := reading_of_parseTokens hwords
  refine ⟨_, ds', ?_, hds', hr'⟩
  obtain ⟨ts, finish, hbuffer, -, hlex, -⟩ := tokenize_spec symbols text
  rw [hbuffer, List.dropLast_concat]
  exact List.forall_mem_map.2 hlex

/-- Words that are lexemes and have a reading make a text that is accepted. Its tree is
the one that was read. -/
theorem exists_parseText_join {ws : List Word} (hlex : ∀ w ∈ ws, w.isLexeme = true)
    {dialect : Dialect} {ds : List (Tree Word)}
    (h : Reading dialect.rules .declarations ws ds []) (symbols : SymbolTable) :
    ∃ t, (parseText symbols dialect (Word.join ws)).1 = .ok t ∧
      t.map Token.word = .file (Tree.sequence? ds) := by
  have hwords : (tokenize symbols (Word.join ws)).1.dropLast.map Token.word = ws := by
    rw [List.map_dropLast, map_word_tokenize_join hlex, List.dropLast_concat]
  have hp := parseTokens_map kind_word dialect (tokenize symbols (Word.join ws)).1.dropLast
  rw [hwords, parseTokens_of_reading h] at hp
  cases ht : parseTokens dialect (tokenize symbols (Word.join ws)).1.dropLast with
  | failed e rest => rw [ht] at hp; simp [Outcome.map] at hp
  | done t rest =>
    rw [ht] at hp
    simp only [Outcome.map, Outcome.done.injEq] at hp
    refine ⟨t, ?_, hp.1.symm⟩
    rw [parseText_fst, ht]

end ConcreteSyntax
