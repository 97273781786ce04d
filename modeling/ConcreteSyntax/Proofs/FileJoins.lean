import ConcreteSyntax.Proofs.ExchangedRests
import ConcreteSyntax.Proofs.LexemeReadings
import ConcreteSyntax.Proofs.LineJoins

/-!
# Files joined by a line feed

No decision inside a declaration depends on the tokens behind it. So the declarations of a
file that is accepted are read again when more tokens follow, and reading then goes on behind
them as at the beginning of a file. Since scanning carries nothing over a line feed, a text
that is accepted may be put in front of every text.
-/

namespace ConcreteSyntax

open TokenParser Grammar

/-! ## Declarations in front of more tokens -/

section

variable {τ : Type} [HasKind τ]

/-- A declaration that has a reading is the first one that is read. -/
theorem declaration_of_reading {dialect : Dialect} {ts rest : List τ} {d : Tree τ}
    (ho : opensDeclaration ts = true) (h : Reading dialect.rules .definition ts d rest) :
    unlessNext .eof (ofRules dialect.rules : Grammar τ).declaration ts = .done (some d) rest := by
  have hdefinition : (ofRules dialect.rules).definition ts = .done d rest :=
    h.yields dialect.proper_rules
  exact unlessNext_eq_some.2
    ⟨kindAt_ne_eof_of_opensDeclaration ho, bind_if_pos rfl ho hdefinition⟩

/-- Declarations that are read up to the end of some tokens are read again when more tokens
follow, and then reading goes on behind them. -/
theorem many_declaration_append {dialect : Dialect} {xs : List τ} {ds : List (Tree τ)}
    (h : Reading dialect.rules .declarations xs ds []) (ys : List τ) :
    many (unlessNext .eof (ofRules dialect.rules : Grammar τ).declaration) (xs ++ ys) =
      (many (unlessNext .eof (ofRules dialect.rules).declaration) ys).map id (ds ++ ·) := by
  induction ds generalizing xs with
  | nil =>
    cases h with
    | noDeclarations =>
      cases hm : many (unlessNext .eof (ofRules dialect.rules : Grammar τ).declaration) ys <;>
        simp [hm, Outcome.map]
  | cons d ds ih =>
    cases h with
    | @declarations _ mid _ _ _ ho hd hds =>
      obtain ⟨used, rfl, hagain⟩ :=
        hd.exists_front dialect.printable_rules dialect.loopless_rules ho
      obtain ⟨ho', hd'⟩ := hagain (mid ++ ys)
      have hfirst := declaration_of_reading ho' hd'
      have hothers := ih hds
      rw [List.append_assoc, (repeats_declaration dialect.rules).many_eq, hfirst]
      simp only [hothers]
      cases many (unlessNext .eof (ofRules dialect.rules : Grammar τ).declaration) ys <;> rfl

/-- A file is made of the declarations that are read one after the other. -/
theorem parseTokens_eq_map (dialect : Dialect) (ts : List τ) : parseTokens dialect ts =
    (many (unlessNext .eof (ofRules dialect.rules).declaration) ts).map id
      fun ds => .file (Tree.sequence? ds) := by
  have hfile : parseTokens dialect ts =
      (many (unlessNext .eof (ofRules dialect.rules).declaration) >>= fun ds =>
        pure (.file (Tree.sequence? ds))) ts := rfl
  rw [hfile, bind_apply]
  cases many (unlessNext .eof (ofRules dialect.rules : Grammar τ).declaration) ts with
  | done ds rest =>
    rw [Outcome.map, List.map_id]
    rfl
  | failed e rest => rw [Outcome.map, List.map_id, Failure.map_id]

/-- The declarations of a file in front of what is read from further tokens. -/
theorem parseTokens_append {dialect : Dialect} {xs : List τ} {ds : List (Tree τ)}
    (h : Reading dialect.rules .declarations xs ds []) (ys : List τ) :
    parseTokens dialect (xs ++ ys) =
      (parseTokens dialect ys).map id fun t => .file (Tree.sequence? (ds ++ t.declarations)) := by
  rw [parseTokens_eq_map, parseTokens_eq_map, many_declaration_append h]
  cases many (unlessNext .eof (ofRules dialect.rules : Grammar τ).declaration) ys <;>
    simp [Outcome.map, Tree.declarations_file]

end

/-! ## Lexemes in front of others -/

/-- Moving a lexeme down keeps its kind. -/
theorem kind_down (lines bytes : Nat) (l : Lexeme) : kind (l.down lines bytes) = kind l := rfl

/-- The lexemes of a text are those before the end and the end. -/
theorem scan_eq_append (text : String) : ∃ ls finish, scan text = ls ++ [finish] ∧
    ∀ l ∈ ls, kind l ≠ .eof := by
  obtain ⟨ls, finish, hscan, -, hlex, -⟩ :=
    TextCursor.lexemesWithin_spec _ (TextCursor.ofText text) (Nat.le_refl _)
  exact ⟨ls, finish, hscan, fun l hl => (Word.isLexeme_iff.1 (hlex l hl)).1⟩

/-- The result of reading lexemes that are moved down. -/
def downResult (lines bytes : Nat) (result : Except (Expectation × Lexeme) (Tree Lexeme)) :
    Except (Expectation × Lexeme) (Tree Lexeme) :=
  match result with
  | .ok t => .ok (t.map fun l => l.down lines bytes)
  | .error (expected, found) => .error (expected, found.down lines bytes)

/-- The result of reading a file behind declarations. -/
def behindDeclarations (ds : List (Tree Lexeme))
    (result : Except (Expectation × Lexeme) (Tree Lexeme)) :
    Except (Expectation × Lexeme) (Tree Lexeme) :=
  match result with
  | .ok t => .ok (.file (Tree.sequence? (ds ++ t.declarations)))
  | .error e => .error e

/-- Reading lexemes that are moved down gives the result moved down. -/
theorem readLexemes_down (dialect : Dialect) (ls : List Lexeme) (finish : Lexeme)
    (lines bytes : Nat) :
    readLexemes dialect ((ls ++ [finish]).map fun l => l.down lines bytes) =
      downResult lines bytes (readLexemes dialect (ls ++ [finish])) := by
  have hmap := parseTokens_map (kind_down lines bytes) dialect ls
  rw [List.map_append, List.map_singleton]
  simp only [readLexemes, List.dropLast_concat, List.getLastD_concat, hmap]
  cases parseTokens dialect ls with
  | done t rest => rfl
  | failed e rest =>
    obtain ⟨expected, found⟩ := e
    cases found <;> rfl

/-- Reading lexemes behind those of an accepted file gives the result behind its
declarations. -/
theorem readLexemes_append {dialect : Dialect} {xs : List Lexeme} {ds : List (Tree Lexeme)}
    (h : Reading dialect.rules .declarations xs ds []) (ls : List Lexeme) (finish : Lexeme) :
    readLexemes dialect (xs ++ (ls ++ [finish])) =
      behindDeclarations ds (readLexemes dialect (ls ++ [finish])) := by
  rw [← List.append_assoc]
  simp only [readLexemes, List.dropLast_concat, List.getLastD_concat, parseTokens_append h]
  cases parseTokens dialect ls <;> simp [Outcome.map, behindDeclarations]

/-- The lexemes before the end of an accepted file have a reading. -/
theorem exists_reading_of_readLexemes {dialect : Dialect} {ls : List Lexeme} {finish : Lexeme}
    (hls : ∀ l ∈ ls, kind l ≠ .eof) {t : Tree Lexeme}
    (h : readLexemes dialect (ls ++ [finish]) = .ok t) :
    t = .file (Tree.sequence? t.declarations) ∧
      Reading dialect.rules .declarations ls t.declarations [] := by
  simp only [readLexemes, List.dropLast_concat] at h
  cases hp : parseTokens dialect ls with
  | failed e rest => simp [hp] at h
  | done u rest =>
    simp only [hp, Except.ok.injEq] at h
    obtain ⟨ds, rfl, hr⟩ := reading_of_parseTokens hp
    obtain rfl := hr.eq_nil_of_declarations hls
    rw [← h, Tree.declarations_file]
    exact ⟨rfl, hr⟩

/-- Behind an accepted text and a line feed a text is read as it is alone, further down. -/
theorem readLexemes_line {dialect : Dialect} {a : String} {t : Tree Lexeme}
    (ha : readLexemes dialect (scan a) = .ok t) (b : String) :
    readLexemes dialect (scan (a ++ "\n" ++ b)) =
      behindDeclarations t.declarations
        (downResult (a.toList.count '\n' + 1) (a.utf8ByteSize + 1)
          (readLexemes dialect (scan b))) := by
  obtain ⟨xs, finish, hxs, hne⟩ := scan_eq_append a
  obtain ⟨ys, finish', hys, -⟩ := scan_eq_append b
  rw [hxs] at ha
  obtain ⟨-, hr⟩ := exists_reading_of_readLexemes hne ha
  have hmoved : ((ys ++ [finish']).map fun l =>
      l.down (a.toList.count '\n' + 1) (a.utf8ByteSize + 1)) =
      (ys.map fun l => l.down (a.toList.count '\n' + 1) (a.utf8ByteSize + 1)) ++
        [finish'.down (a.toList.count '\n' + 1) (a.utf8ByteSize + 1)] := by
    rw [List.map_append, List.map_singleton]
  rw [scan_line, hxs, List.dropLast_concat, hys, ← readLexemes_down, hmoved,
    readLexemes_append hr]

/-! ## Texts in front of others -/

/-- Files compose. When a text is accepted, it may be put in front of any text, with a line
feed between them. The result is accepted exactly when the second text is. Its declarations are
those of the first text and those of the second one, and an error is that of the second text;
lines and offsets of what belongs to the second text go on behind the first one. -/
theorem parseText_line (symbols symbols₁ symbols₂ : SymbolTable) (dialect : Dialect)
    (a b : String) (t : Tree Token) (ha : (parseText symbols₁ dialect a).1 = .ok t) :
    let joined := (parseText symbols dialect (a ++ "\n" ++ b)).1
    let second := (parseText symbols₂ dialect b).1
    let down := fun l : Lexeme => l.down (a.toList.count '\n' + 1) (a.utf8ByteSize + 1)
    joined.isOk = second.isOk ∧
    (∀ u, second = .ok u → ∃ v, joined = .ok v ∧
      v.lexemes = .file (Tree.sequence?
        (t.lexemes.declarations ++ (u.lexemes.map down).declarations))) ∧
    (∀ e, second = .error e → ∃ e', joined = .error e' ∧ e'.expected = e.expected ∧
      e'.found.lexeme = down e.found.lexeme) := by
  intro joined second down
  have hfirst : readLexemes dialect (scan a) = .ok t.lexemes := by
    rw [← resultLexemes_parseText symbols₁, ha]
    rfl
  have hline := readLexemes_line hfirst b
  rw [← resultLexemes_parseText symbols₂ dialect b] at hline
  have hsecond : (parseText symbols₂ dialect b).1 = second := rfl
  rw [hsecond] at hline
  have hok : joined.isOk = second.isOk := by
    have hjoined := isOk_parseText symbols dialect (a ++ "\n" ++ b)
    rw [hline] at hjoined
    refine hjoined.trans ?_
    cases second <;> rfl
  refine ⟨hok, fun u hu => ?_, fun e he => ?_⟩
  · rw [hu] at hline
    exact parseText_eq_ok hline
  · rw [he] at hline
    obtain ⟨e', he', hlexemes⟩ : ∃ e', joined = .error e' ∧ e'.lexemes = _ :=
      parseText_eq_error hline
    exact ⟨e', he', congrArg Prod.fst hlexemes, congrArg Prod.snd hlexemes⟩

/-- Behind a declaration and a line feed, a text is refused as it is alone, one line down. -/
theorem parseText_line_refused : ∃ e e',
    (parseText (.empty 0) .standard "y int").1 = .error e ∧
    (parseText (.empty 0) .standard ("x: int;" ++ "\n" ++ "y int")).1 = .error e' ∧
    e'.expected = e.expected ∧ e'.found.lexeme = e.found.lexeme.down 1 8 := by
  obtain ⟨t, ht⟩ := exists_tree_of_isOk (.empty 0) .standard "x: int;" (by decide +kernel)
  obtain ⟨e, he⟩ := exists_error_of_isOk (.empty 0) .standard "y int" (by decide +kernel)
  obtain ⟨-, -, herror⟩ := parseText_line (.empty 0) (.empty 0) (.empty 0) _ _ _ t ht
  obtain ⟨e', he', hexpected, hfound⟩ := herror e he
  exact ⟨e, e', he, he', hexpected, hfound⟩

end ConcreteSyntax
