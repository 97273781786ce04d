import ConcreteSyntax.Proofs.FormedTrees
import ConcreteSyntax.Proofs.LexemeReadings
import ConcreteSyntax.Proofs.SymbolLedgers

/-!
# Readings with different tables

The table that holds the spellings of a text shows in the symbols of the tokens only. So the lexemes
of the tokens, of the tree and of the error do not depend on the history of the table. Symbols are
compared by identity: reading a text once more with the same table gives the same symbols, whatever
was done in between, and reading it with another table gives none of them. Hence the trees of a text
with two tables are the same only if they have no tokens.
-/

namespace ConcreteSyntax

open TokenParser Grammar

/-! ## Tokens and trees that are the same -/

/-- Tokens are the same when they have one kind, the same symbol, and one place. -/
theorem Token.beq_iff {a b : Token} :
    (a == b) = true ↔ a.kind = b.kind ∧ (a.symbol == b.symbol) = true ∧
      a.start = b.start ∧ a.offset = b.offset := by
  have hbeq : (a == b) = (a.kind == b.kind && (a.symbol == b.symbol &&
      (a.start == b.start && a.offset == b.offset))) := rfl
  simp only [hbeq, Bool.and_eq_true, beq_iff_eq]

/-- A symbol is the same as itself. -/
theorem Symbol.beq_self (s : Symbol) : (s == s) = true := by
  have hbeq : (s == s) = (s.table == s.table && s.index == s.index) := rfl
  simp only [hbeq, beq_self_eq_true, Bool.and_self]

instance : ReflBEq Token := ⟨Token.beq_iff.2 ⟨rfl, Symbol.beq_self _, rfl, rfl⟩⟩

namespace Tree

variable {τ : Type} [BEq τ]

/-- Trees are the same when their nodes are and their children are, place by place. -/
theorem beq_eq (t u : Tree τ) :
    (t == u) = (t.kind == u.kind && t.token? == u.token? &&
      t.trailingToken? == u.trailingToken? &&
        agree (t.children.map (Option.map same)) u.children) := by
  have hsame : (t == u) = t.same u := rfl
  rw [hsame, same, fold_eq]
  rfl

/-- Children that are the same as themselves agree with themselves. -/
theorem agree_self {slots : List (Option (Tree τ))}
    (h : ∀ child, some child ∈ slots → child.same child = true) :
    agree (slots.map (Option.map same)) slots = true := by
  induction slots with
  | nil => rfl
  | cons slot slots ih =>
    have hrest := ih fun child hchild => h child (List.mem_cons_of_mem slot hchild)
    cases slot with
    | none => exact hrest
    | some child =>
      simp only [List.map_cons, Option.map_some, agree, h child List.mem_cons_self, hrest,
        Bool.and_self]

/-- Where children agree, each has one that is the same at its place. -/
theorem exists_same_of_agree {slots slots' : List (Option (Tree τ))}
    (h : agree (slots.map (Option.map same)) slots' = true) {child : Tree τ}
    (hc : some child ∈ slots) : ∃ child', some child' ∈ slots' ∧ child.same child' = true := by
  induction slots generalizing slots' with
  | nil => contradiction
  | cons slot slots ih =>
    cases slots' with
    | nil => cases slot <;> contradiction
    | cons slot' slots' =>
      cases slot with
      | none =>
        cases slot' with
        | none =>
          obtain ⟨child', hmem, hsame⟩ := ih h (by simpa using hc)
          exact ⟨child', List.mem_cons_of_mem _ hmem, hsame⟩
        | some => contradiction
      | some first =>
        cases slot' with
        | none => contradiction
        | some first' =>
          obtain ⟨hfirst, hrest⟩ := Bool.and_eq_true_iff.1 h
          rcases List.mem_cons.1 hc with hc | hc
          · obtain rfl : child = first := Option.some.inj hc
            exact ⟨first', List.mem_cons_self, hfirst⟩
          · obtain ⟨child', hmem, hsame⟩ := ih hrest hc
            exact ⟨child', List.mem_cons_of_mem _ hmem, hsame⟩

instance [ReflBEq τ] : ReflBEq (Tree τ) where
  rfl := by
    intro t
    induction t using children_induction with
    | step t ih =>
      have hagree : agree (t.children.map (Option.map same)) t.children = true := agree_self ih
      simp only [beq_eq, beq_self_eq_true, hagree, Bool.and_self]

/-- A tree has a token that is the same as any token of a tree that is the same. -/
theorem exists_beq_of_beq [HasKind τ] {t u : Tree τ} (h : (t == u) = true) {a : τ}
    (ha : a ∈ t.tokens) : ∃ b ∈ u.tokens, (a == b) = true := by
  induction t using children_induction generalizing u with
  | step t ih =>
    simp only [beq_eq, Bool.and_eq_true] at h
    obtain ⟨⟨⟨-, htoken⟩, htrailing⟩, hagree⟩ := h
    have hplace : ∀ {o o' : Option τ}, (o == o') = true → a ∈ o.toList →
        ∃ b ∈ o'.toList, (a == b) = true := by
      intro o o' hsame hmem
      obtain rfl := Option.mem_toList.1 hmem
      cases o' with
      | none => contradiction
      | some b => exact ⟨b, by simp, hsame⟩
    rcases mem_tokens.1 ha with hown | ⟨place, child, hchild, ha⟩
    · rcases List.mem_append.1 hown with hown | hown
      · obtain ⟨b, hb, hab⟩ := hplace htoken hown
        exact ⟨b, mem_tokens.2 (.inl (List.mem_append_left _ hb)), hab⟩
      · obtain ⟨b, hb, hab⟩ := hplace htrailing hown
        exact ⟨b, mem_tokens.2 (.inl (List.mem_append_right _ hb)), hab⟩
    · rw [operand?, Option.join_eq_some_iff] at hchild
      have hmem := List.mem_of_getElem? hchild
      obtain ⟨child', hmem', hsame⟩ := exists_same_of_agree hagree hmem
      obtain ⟨b, hb, hab⟩ := ih child hmem hsame ha
      obtain ⟨place', hplace'⟩ := exists_operand?_of_mem hmem'
      exact ⟨b, mem_tokens.2 (.inr ⟨place', child', hplace', hb⟩), hab⟩

end Tree

/-! ## Tables in a session -/

namespace Ledger

variable {l l' : Ledger} {operations : List Operation} {n : Nat} {table : SymbolTable}

/-- An operation interns its texts in a table and leaves the table in its place. -/
theorem Sound.table_of_perform? (h : l.Sound operations) {operation : Operation}
    (hp : l.perform? operation = some l') (htable : l.session.tables[n]? = some table) :
    l'.session.tables[n]? = some (table.internAll (operation.textsInto n)) := by
  cases operation with
  | ask request =>
    obtain ⟨answer, session, hanswer, rfl⟩ := perform?_ask hp
    exact (Session.effect_of_answer? h.numbered hanswer).getElem?_tables htable
  | clone place =>
    obtain ⟨receipt, -, rfl⟩ := perform?_clone hp
    exact htable

/-- Operations intern their texts in a table and leave the table in its place. -/
theorem Sound.table_of_run? (h : l.Sound operations) {more : List Operation}
    (hr : l.run? more = some l') (htable : l.session.tables[n]? = some table) :
    l'.session.tables[n]? = some (table.internAll (Operation.interned n more)) := by
  induction more generalizing l operations table with
  | nil =>
    obtain rfl : l = l' := Option.some.inj hr
    exact htable
  | cons operation more ih =>
    obtain ⟨mid, hmid, hrest⟩ := Option.bind_eq_some_iff.1 hr
    have hlater := ih (h.perform? hmid) hrest (h.table_of_perform? hmid htable)
    rw [hlater, ← SymbolTable.internAll_append]
    rfl

end Ledger

/-- That an operation lexes a text with a table or reads it in some dialect. -/
inductive Operation.Lexes (n : Nat) (text : String) : Operation → Prop
  | lex : Lexes n text (.ask (.lex n text))
  | parse (dialect : Dialect) : Lexes n text (.ask (.parse n dialect text))

/-- Lexing a text interns it. -/
theorem Operation.Lexes.textsInto_eq {n : Nat} {text : String} {operation : Operation}
    (h : operation.Lexes n text) : operation.textsInto n = lexedTexts text := by
  cases h <;> exact if_pos rfl

/-! ## Reading a text once more -/

/-- Whether two readings gave the same tree or the same error. -/
def sameOutcome : Except SyntaxError (Tree Token) → Except SyntaxError (Tree Token) → Bool
  | .ok t, .ok u => t == u
  | .error e, .error e' => e.expected == e'.expected && e.found == e'.found
  | _, _ => false

/-- A reading gives the same as itself. -/
theorem sameOutcome_self (result : Except SyntaxError (Tree Token)) :
    sameOutcome result result = true := by
  cases result with
  | ok t => exact beq_self_eq_true t
  | error e => simp only [sameOutcome, beq_self_eq_true, Bool.and_self]

/-- Reading a text once more gives the same result and adds nothing, whatever the table has interned
since. -/
theorem parseText_of_growsTo {symbols later : SymbolTable} {text : String}
    (h : (tokenize symbols text).2.GrowsTo later) (dialect : Dialect) :
    parseText later dialect text = ((parseText symbols dialect text).1, later) := by
  simp only [parseText, FileReader.ofText, tokenize_of_growsTo h]

/-! ## Reading a text with another table -/

section Tables

variable {symbols symbols' : SymbolTable} {dialect : Dialect} {text : String} {t t' : Tree Token}

/-- The symbols of the tree of a text belong to the table. -/
theorem table_of_mem_tokens (h : (parseText symbols dialect text).1 = .ok t) {b : Token}
    (hb : b ∈ t.tokens) : b.symbol.table = symbols.number := by
  have hget := get?_of_mem_tokenize b (mem_tokenize_of_mem_tokens h hb)
  obtain ⟨-, hnumber, -⟩ := SymbolTable.get?_eq_some_iff.1 hget
  rw [hnumber, tokenize_snd]
  exact (symbols.growsTo_internAll _).number_eq

/-- The tree of a text without declarations is the empty file. -/
theorem eq_file_of_declarations (h : (parseText symbols dialect text).1 = .ok t)
    (hnil : t.declarations = []) : t = .file none := by
  obtain ⟨ds, rfl, -⟩ := exists_reading_of_parseText h
  rw [Tree.declarations_file] at hnil
  rw [hnil]
  rfl

/-- Two tables give trees with the same lexemes. -/
theorem lexemes_eq (h : (parseText symbols dialect text).1 = .ok t)
    (h' : (parseText symbols' dialect text).1 = .ok t') : t.lexemes = t'.lexemes := by
  have hread := resultLexemes_parseText symbols dialect text
  have hread' := resultLexemes_parseText symbols' dialect text
  rw [h] at hread
  rw [h', ← hread] at hread'
  exact (Except.ok.inj hread').symm

/-- The trees of a text with two tables are the same exactly when there are no declarations. -/
theorem beq_iff_of_number_ne (hne : symbols.number ≠ symbols'.number)
    (h : (parseText symbols dialect text).1 = .ok t)
    (h' : (parseText symbols' dialect text).1 = .ok t') :
    (t == t') = true ↔ t.declarations = [] := by
  constructor
  · intro hsame
    by_contra hdeclarations
    have hfile : t ≠ .file none := by
      rintro rfl
      exact hdeclarations rfl
    obtain ⟨a, ha⟩ := (everywhere_isFormed h hfile).exists_mem_tokens
    obtain ⟨b, hb, hab⟩ := Tree.exists_beq_of_beq hsame ha
    obtain ⟨-, hsymbol, -⟩ := Token.beq_iff.1 hab
    have htable : a.symbol.table = b.symbol.table :=
      beq_iff_eq.1 (Bool.and_eq_true_iff.1 hsymbol).1
    rw [table_of_mem_tokens h ha, table_of_mem_tokens h' hb] at htable
    exact hne htable
  · intro hnil
    obtain rfl := eq_file_of_declarations h hnil
    have hlexemes := lexemes_eq h h'
    obtain ⟨ds, rfl, -⟩ := exists_reading_of_parseText h'
    cases ds with
    | nil => rfl
    | cons d ds => simp [Tree.lexemes, Tree.map, Tree.sequence?] at hlexemes

end Tables

/-- What is read of a text does not depend on the history of the table. A table with any texts gives
the same lexemes, and a tree or an error with the same lexemes, as an empty one. After a text has
been lexed or read with a table of a session, and after any operations behind that, lexing and
reading it with the same table gives the same tokens and the same tree or error, and adds nothing.
Tables of a session are told apart by their numbers, and with two tables a text gives the same tree
exactly when it has no declarations. -/
theorem parseText_of_history (dialect : Dialect) (text : String) :
    (∀ (symbols : SymbolTable) (n : Nat),
      (tokenize symbols text).1.map Token.lexeme =
          (tokenize (.empty n) text).1.map Token.lexeme ∧
        resultLexemes (parseText symbols dialect text).1 =
          resultLexemes (parseText (.empty n) dialect text).1) ∧
    (∀ operations l n table first between l', Ledger.initial.run? operations = some l →
      l.session.tables[n]? = some table → first.Lexes n text →
      l.run? (first :: between) = some l' →
      ∃ later, l'.session.tables[n]? = some later ∧
        ((tokenize later text).1 == (tokenize table text).1) = true ∧
        sameOutcome (parseText later dialect text).1 (parseText table dialect text).1 = true ∧
        (tokenize later text).2 = later ∧ (parseText later dialect text).2 = later) ∧
    (∀ operations l (n : Nat) (table : SymbolTable), Ledger.initial.run? operations = some l →
      l.session.tables[n]? = some table → table.number = n) ∧
    ∀ (symbols symbols' : SymbolTable) (t t' : Tree Token), symbols.number ≠ symbols'.number →
      (parseText symbols dialect text).1 = .ok t → (parseText symbols' dialect text).1 = .ok t' →
      ((t == t') = true ↔ t.declarations = []) := by
  refine ⟨fun symbols n => ⟨?_, ?_⟩, ?_, ?_, ?_⟩
  · rw [map_lexeme_tokenize, map_lexeme_tokenize]
  · rw [resultLexemes_parseText, resultLexemes_parseText]
  · intro operations l n table first between l' hrun htable hfirst hmore
    have hlater := (Ledger.sound_of_run? hrun).table_of_run? hmore htable
    have htexts : Operation.interned n (first :: between) =
        lexedTexts text ++ Operation.interned n between := by
      rw [← hfirst.textsInto_eq]
      rfl
    rw [htexts, SymbolTable.internAll_append, ← tokenize_snd] at hlater
    have hgrows := (tokenize table text).2.growsTo_internAll (Operation.interned n between)
    refine ⟨_, hlater, ?_⟩
    rw [parseText_of_growsTo hgrows, tokenize_of_growsTo hgrows]
    exact ⟨beq_self_eq_true _, sameOutcome_self _, rfl, rfl⟩
  · intro operations l n table hrun htable
    exact (Ledger.sound_of_run? hrun).numbered n table htable
  · intro symbols symbols' t t' hne h h'
    exact beq_iff_of_number_ne hne h h'

/-- A definition that is read with two tables, one of which has a history, and once more after
another text: the second reading with a table gives the same tree, and the trees with the two tables
differ. -/
theorem parseText_of_history_definition :
    ∃ l l' table later,
      Ledger.initial.run? [.ask .newTable, .ask (.intern 1 "int"), .ask (.intern 1 "b")] = some l ∧
      l.run? [.ask (.parse 1 .standard "a: int = b;"), .ask (.lex 1 "c")] = some l' ∧
      l.session.tables[1]? = some table ∧ l'.session.tables[1]? = some later ∧
      sameOutcome (parseText later .standard "a: int = b;").1
        (parseText table .standard "a: int = b;").1 = true ∧
      ∃ t t', (parseText (.empty 0) .standard "a: int = b;").1 = .ok t ∧
        (parseText table .standard "a: int = b;").1 = .ok t' ∧ (t == t') = false := by
  have hsome : ((Ledger.initial.run? [.ask .newTable, .ask (.intern 1 "int"),
      .ask (.intern 1 "b")]).bind fun l => l.session.tables[1]?.bind fun _ =>
      l.run? [.ask (.parse 1 .standard "a: int = b;"), .ask (.lex 1 "c")]).isSome = true := by
    decide +kernel
  obtain ⟨l', hl'⟩ := Option.isSome_iff_exists.1 hsome
  obtain ⟨l, hl, hl'⟩ := Option.bind_eq_some_iff.1 hl'
  obtain ⟨table, htable, hmore⟩ := Option.bind_eq_some_iff.1 hl'
  obtain ⟨-, hagain, hnumber, hother⟩ := parseText_of_history .standard "a: int = b;"
  obtain ⟨later, hlater, -, hsame, -⟩ :=
    hagain _ l 1 table _ _ l' hl htable (.parse .standard) hmore
  have hok : (parseText (.empty 0) .standard "a: int = b;").1.isOk = true := by decide +kernel
  have hok' := hok
  rw [isOk_parseText, ← isOk_parseText table] at hok'
  obtain ⟨t, ht⟩ := exists_tree_of_isOk _ _ _ hok
  obtain ⟨t', ht'⟩ := exists_tree_of_isOk _ _ _ hok'
  have hone : table.number = 1 := hnumber _ l 1 table hl htable
  have hne : (SymbolTable.empty 0).number ≠ table.number := by
    rw [hone]
    decide
  have hdeclarations : t.declarations ≠ [] := by
    have hread : (parseText (.empty 0) .standard "a: int = b;").1.toOption.any
        (fun t => !t.declarations.isEmpty) = true := by decide +kernel
    rw [ht] at hread
    simpa [Except.toOption] using hread
  refine ⟨l, l', table, later, hl, hmore, htable, hlater, hsame, t, t', ht, ht', ?_⟩
  exact Bool.eq_false_iff.2 fun hbeq => hdeclarations ((hother _ _ t t' hne ht ht').1 hbeq)

end ConcreteSyntax
