import ConcreteSyntax.Proofs.LookaheadLoops
import ConcreteSyntax.Proofs.ReaderCursors

/-!
# The parser is total

Every nonterminal takes a token from the front when it succeeds, and none leaves more than
it was given. So a phrase is reached again inside itself with fewer tokens ahead, and the
depth at which the grammar is cut off plays no part: whatever stands in for the phrases
below a depth greater than the number of tokens, the outcome is the same. Every loop of the
grammar takes a token in each turn but the last, so it is over within one turn more than
there are tokens.
-/

namespace ConcreteSyntax

open TokenParser Grammar

/-! ## Nonterminals -/

/-- The nonterminals of the grammar, except the one of whole files and the optional one of
type constructors. -/
inductive GrammarPart where
  | identifier
  | identifiers
  | type
  | typing
  | parameter
  | item
  | items
  | group
  | enclosed (opening closing : TokenKind)
  | block
  | specifier (sort : ConstructorSort)
  | primary
  | suffixed
  | operand
  | layer (level : Nat)
  | disjunction
  | implication
  | assignment
  | alternative
  | conditional
  | branch
  | caseDistinction
  | loop (word : TokenKind)
  | doBlock
  | functionHead
  | functionValue
  | scope
  | localBinding
  | control
  | expression
  | declarators (introduced : Bool)
  | definiens
  | definition
  | declaration
  | statement
  deriving DecidableEq, Repr

namespace GrammarPart

/-- What a nonterminal yields: a tree, perhaps a tree, or a tree with a terminator. -/
@[reducible] def Result (τ : Type) : GrammarPart → Type
  | typing => Option (Tree τ)
  | definiens => Tree τ × Option τ
  | _ => Tree τ

variable {τ : Type} [HasKind τ] (g : Grammar τ)

/-- The parser of a nonterminal. -/
def parser : (n : GrammarPart) → TokenParser τ (n.Result τ)
  | identifier => Grammar.identifier
  | identifiers => Grammar.identifiers
  | type => g.type
  | typing => g.typing
  | parameter => g.parameter
  | item => g.item
  | items => g.items
  | group => g.group
  | enclosed opening closing => g.enclosed opening closing
  | block => g.block
  | specifier sort => g.specifier sort
  | primary => g.primary
  | suffixed => g.suffixed
  | operand => g.operand
  | layer level => g.layerParser level
  | disjunction => g.disjunction
  | implication => g.implication
  | assignment => g.assignment
  | alternative => g.alternative
  | conditional => g.conditional
  | branch => g.branch
  | caseDistinction => g.caseDistinction
  | loop word => g.loop word
  | doBlock => g.doBlock
  | functionHead => g.functionHead
  | functionValue => g.functionValue
  | scope => g.scope
  | localBinding => g.localBinding
  | control => g.control
  | expression => g.expression
  | declarators introduced => g.declarators introduced
  | definiens => g.definiens
  | definition => g.definition
  | declaration => g.declaration
  | statement => g.statement

variable {g}

/-- Every nonterminal consumes if the nested phrases do. -/
theorem consumes (hg : ∀ phrase, (g.phrase phrase).Consumes) (n : GrammarPart) :
    (n.parser g).Consumes := by
  cases n with
  | identifier => exact consumes_identifier
  | identifiers => exact consumes_identifiers
  | type => exact consumes_type hg
  | typing => exact consumes_typing hg
  | parameter => exact consumes_parameter hg
  | item => exact consumes_item hg
  | items => exact consumes_items hg
  | group => exact consumes_group hg
  | enclosed => exact consumes_enclosed hg _ _
  | block => exact consumes_block hg
  | specifier => exact consumes_specifier hg _
  | primary => exact consumes_primary hg
  | suffixed => exact consumes_suffixed hg
  | operand => exact consumes_operand hg
  | layer => exact consumes_layerParser hg _
  | disjunction => exact consumes_disjunction hg
  | implication => exact consumes_implication hg
  | assignment => exact consumes_assignment hg
  | alternative => exact consumes_alternative hg
  | conditional => exact consumes_conditional hg
  | branch => exact consumes_branch hg
  | caseDistinction => exact consumes_caseDistinction hg
  | loop => exact consumes_loop hg _
  | doBlock => exact consumes_doBlock hg
  | functionHead => exact consumes_functionHead hg
  | functionValue => exact consumes_functionValue hg
  | scope => exact consumes_scope hg
  | localBinding => exact consumes_localBinding hg
  | control => exact consumes_control hg
  | expression => exact consumes_expression hg
  | declarators => exact consumes_declarators hg _
  | definiens => exact consumes_definiens hg
  | definition => exact consumes_definition hg
  | declaration => exact consumes_declaration hg
  | statement => exact consumes_statement hg

end GrammarPart

variable {τ : Type} [HasKind τ]

/-- That a grammar makes progress. Every nonterminal reads from the front, and at least one
token when it succeeds. The optional constructor reads at least one token when there is one,
and none when there is none. A whole file reads from the front. -/
structure Grammar.Progresses (g : Grammar τ) : Prop where
  /-- Success takes a token, and failure moves nothing back. -/
  nonterminals : ∀ n : GrammarPart, (n.parser g).Consumes
  /-- A constructor takes a token, and failure moves nothing back. -/
  constructors : g.constructor?.Advances
  /-- Where there is no constructor, nothing is read. -/
  absent : ∀ ts rest : List τ, g.constructor? ts = .done none rest → rest = ts
  /-- A file moves nothing back. -/
  files : g.file.Trims

/-- The grammars of the dialects make progress. -/
theorem progresses_ofRules {rules : Rules} (hp : rules.Proper) :
    (ofRules rules : Grammar τ).Progresses := by
  have hg := consumes_ofRules (τ := τ) rules
  refine ⟨GrammarPart.consumes hg, advances_constructor? hg, ?_, trims_file rules⟩
  intro ts rest h
  obtain ⟨-, hrest, -⟩ | ⟨t, ht, -⟩ :=
    reads_constructor? (g := ofRules rules) hg hp (reads_ofRules hp) h
  · exact hrest
  · contradiction

/-! ## Nested phrases -/

/-- The phrases of a dialect down to a depth of nesting, with other parsers in place of the
phrases below. -/
def Grammar.unrolled (below : Phrase → TokenParser τ (Tree τ)) (rules : Rules) :
    Nat → Phrase → TokenParser τ (Tree τ)
  | 0 => below
  | depth + 1 => body ⟨rules, unrolled below rules depth⟩

/-- On fewer tokens than the depth of nesting, what stands below that depth is not reached. -/
theorem unrolled_agree (below : Phrase → TokenParser τ (Tree τ)) (rules : Rules)
    {bound depth : Nat} (hd : bound ≤ depth) (phrase : Phrase) :
    AgreeBelow bound ((ofRules rules).phrase phrase) (unrolled below rules depth phrase) := by
  induction bound generalizing depth phrase with
  | zero => exact fun ts ht => absurd ht (Nat.not_lt_zero _)
  | succ bound ih =>
    obtain ⟨d, rfl⟩ : ∃ d, depth = d + 1 := ⟨depth - 1, by omega⟩
    have hnested : ∀ p, AgreeBelow bound ((ofRules rules).phrase p) (unrolled below rules d p) :=
      fun p => ih (by omega) p
    rw [ofRules_phrase]
    exact agree_body (g := ofRules rules) (consumes_ofRules rules) hnested phrase

/-! ## Loops -/

/-- One turn of a loop that collects what a parser yields, until it yields nothing or
fails. The newest value comes first. -/
def collectTurn {α : Type} (p : TokenParser τ (Option α)) :
    List α × List τ → Turn (List α × List τ) (Outcome τ (List α))
  | (found, ts) =>
    match p ts with
    | .failed expected rest => .ends (.failed expected rest)
    | .done none rest => .ends (.done found.reverse rest)
    | .done (some a) rest => .again (a :: found, rest)

omit [HasKind τ] in
/-- A loop over a parser that takes a token for each value is over within one turn more than
there are tokens. It has found what the repetition of the parser yields. -/
theorem TokenParser.Repeats.endsWithin {α : Type} {p : TokenParser τ (Option α)}
    (hp : p.Repeats) (ts : List τ) (found : List α) :
    EndsWithin (collectTurn p) (ts.length + 1) (found, ts)
      ((many p ts).map id (found.reverse ++ ·)) := by
  induction hn : ts.length using Nat.strong_induction_on generalizing ts found with
  | _ n ih =>
    subst hn
    rw [hp.many_eq]
    cases hts : p ts with
    | failed e rest => exact .ends (by simp [collectTurn, hts, Outcome.map])
    | done a rest =>
      cases a with
      | none => exact .ends (by simp [collectTurn, hts, Outcome.map])
      | some a =>
        have hshort : rest.length < ts.length := hp.advances.shorter hts
        have hrest := (ih rest.length hshort rest (a :: found) rfl).mono hshort
        have hturn : collectTurn p (found, ts) = .again (a :: found, rest) := by
          simp [collectTurn, hts]
        refine .again hturn ?_
        cases hm : many p rest <;> simpa [hm, Outcome.map] using hrest

/-- That a loop over a parser, from any tokens, is over within one turn more than there are
tokens, with the outcome of the repetition. -/
def LoopEnds {α : Type} (p : TokenParser τ (Option α)) : Prop :=
  ∀ ts : List τ, EndsWithin (collectTurn p) (ts.length + 1) ([], ts) (many p ts)

omit [HasKind τ] in
/-- A parser that may be repeated makes a loop that ends. -/
theorem TokenParser.Repeats.loopEnds {α : Type} {p : TokenParser τ (Option α)}
    (hp : p.Repeats) : LoopEnds p := by
  intro ts
  have hends := hp.endsWithin ts []
  cases hm : many p ts <;> simpa [hm, Outcome.map] using hends

/-- That recursion and loops of the grammar of a dialect end. -/
structure Grammar.Terminates (rules : Rules) : Prop where
  /-- Phrases are nested no deeper than there are tokens. -/
  nesting : ∀ (below : Phrase → TokenParser τ (Tree τ)) (depth : Nat) (phrase : Phrase)
    (ts : List τ), ts.length < depth →
    unrolled below rules depth phrase ts = (ofRules rules).phrase phrase ts
  /-- A phrase is made of the phrases inside it. -/
  phrases : ∀ phrase : Phrase,
    (ofRules rules : Grammar τ).phrase phrase = (ofRules rules).body phrase
  /-- The declarations of a file. -/
  declarations : LoopEnds (unlessNext .eof (ofRules rules : Grammar τ).declaration)
  /-- The statements of a block. -/
  statements : LoopEnds (ofRules rules : Grammar τ).statement?
  /-- The suffixes of a value. -/
  suffixes : LoopEnds (ofRules rules : Grammar τ).suffix?
  /-- The operations of a layer. -/
  operations : ∀ (operators : KindSet) (level : Nat),
    LoopEnds (operation? operators ((ofRules rules : Grammar τ).layerParser level))
  /-- The further parts of a list with separators. -/
  parts : ∀ (separator : TokenKind) (n : GrammarPart),
    LoopEnds (behind separator (n.parser (ofRules rules : Grammar τ)))

/-- Recursion and loops of the grammars end. -/
theorem terminates_ofRules (rules : Rules) : Grammar.Terminates (τ := τ) rules := by
  have hg := consumes_ofRules (τ := τ) rules
  constructor
  · intro below depth phrase ts hts
    exact (unrolled_agree below rules (Nat.le_refl depth) phrase ts hts).symm
  · exact ofRules_phrase rules
  · exact (repeats_declaration rules).loopEnds
  · exact (repeats_statement? hg).loopEnds
  · exact (repeats_suffix? hg).loopEnds
  · intro operators level
    exact (repeats_operation? (consumes_layerParser hg level)).loopEnds
  · intro separator n
    exact ((GrammarPart.consumes hg n).trims.repeats_behind separator).loopEnds

/-! ## Readings of a text -/

/-- That a search for a closer may begin some places ahead: there is an opener, the loop is over
by the end of the tokens with what the grammar finds, and its counter does not fall below zero. -/
structure SearchEnds (ts : List τ) (n : Nat) : Prop where
  /-- An opener stands where the search begins. -/
  opens : openers.contains (kindAt ts n) = true
  /-- The search finds a closer or the end. -/
  ends : EndsWithin (closerTurn (kindAt ts)) (ts.length - n + 1) (0, n)
    (.ofOption (findCloser ts n opens))
  /-- The counter does not fall below zero. -/
  noUnderflow : ∀ turns, ¬ EndsWithin (closerTurn (kindAt ts)) turns (0, n) .underflow

/-- A search that begins at an opener ends where no token marks the end. -/
theorem searchEnds {ts : List τ} (hts : ∀ t ∈ ts, kind t ≠ .eof) {n : Nat}
    (h : openers.contains (kindAt ts n) = true) : SearchEnds ts n := by
  have hends := endsWithin_findCloser hts h
  refine ⟨h, hends, fun turns hunder => ?_⟩
  have hresult := hunder.unique hends
  cases hclose : findCloser ts n h <;> (rw [hclose] at hresult; contradiction)

/-- That a decision of the grammar searches for a closer some places ahead under a condition only,
which puts an opener there, and is settled without a search where the condition fails. -/
structure SearchesIf (ts : List τ) (condition : Prop) (n : Nat) (settled : Prop) : Prop where
  /-- The search is over and its counter stays above zero. -/
  search : condition → SearchEnds ts n
  /-- There is no search. -/
  noSearch : ¬ condition → settled

/-- That the loops that look ahead end by the end of the tokens, at each place of the grammar where
a search for a closer begins and from every other place. -/
structure LooksAhead (ts : List τ) : Prop where
  /-- The decision for a constructor, from the bracket that is next. -/
  constructors : ∀ rules : Rules,
    SearchesIf ts (kindAt ts 0 = .leftParen ∨ kindAt ts 0 = .leftBracket) 0
      (constructorAhead? rules ts = none)
  /-- The decision for an arrow, from the parenthesis that is next. What begins with a bracket
  is a constructor, and what begins with neither is none. -/
  arrows : ∀ g : Grammar τ,
    SearchesIf ts (kindAt ts 0 = .leftParen) 0
      (kindAt ts 0 ≠ .leftBracket → g.arrowConstructor ts = .done none ts)
  /-- The decision for a loop of its own, from the parenthesis behind the reserved word. -/
  loops : SearchesIf ts (kindAt ts 1 = .leftParen) 1 (startsLoop ts = false)
  /-- A search from any opener. -/
  closers : ∀ n, openers.contains (kindAt ts n) = true → SearchEnds ts n
  /-- A search for the mark of a definition is over. -/
  definitions : ∀ n,
    EndsWithin (definitionTurn (kindAt ts)) (ts.length - n + 1) n (opensDefinition (ts.drop n))

/-- A decision for an arrow reads nothing where no parenthesis and no bracket is ahead. -/
theorem arrowConstructor_eq_none (g : Grammar τ) {ts : List τ} (hp : kindAt ts 0 ≠ .leftParen)
    (hb : kindAt ts 0 ≠ .leftBracket) : g.arrowConstructor ts = .done none ts := by
  rw [arrowConstructor_eq_scan]
  simp only [bind_apply, peek]
  rfl

/-- Looking ahead ends where no token marks the end. -/
theorem looksAhead {ts : List τ} (hts : ∀ t ∈ ts, kind t ≠ .eof) : LooksAhead ts where
  constructors _ := ⟨fun h => searchEnds hts (opens_of_eq h), fun h => dif_neg h⟩
  arrows g := ⟨fun h => searchEnds hts (opens_of_eq (.inl h)), arrowConstructor_eq_none g⟩
  loops := ⟨fun h => searchEnds hts (opens_of_eq (.inl h)), fun h => dif_neg h⟩
  closers _ h := searchEnds hts h
  definitions := endsWithin_opensDefinition ts

/-- That a reader of a buffer may be read from: it stands at an index, what it looks at is in
the buffer, looking ahead ends, and reading leads to an index that is no lower, which is the
last one after a success. -/
structure FileReader.ReadsWithin (r : FileReader) (buffer : List Token) (n : Nat) : Prop where
  /-- The reader stands at the index. -/
  standsAt : r.StandsAt buffer n
  /-- Wherever reading may have come, so that certain tokens are left, the reader stands at an
  index that is no lower, and every token that is looked at from there is a token of the buffer. -/
  indices : ∀ ts, ts <:+ r.ahead → ∃ count, (r.advance count).ahead = ts ∧
    (r.advance count).StandsAt buffer (n + count) ∧
    ∀ k, ∃ t, buffer[min (n + count + k) (buffer.length - 1)]? = some t ∧ t.kind = kindAt ts k
  /-- From all of these indices looking ahead ends. -/
  lookahead : ∀ ts, ts <:+ r.ahead → LooksAhead ts
  /-- Reading leads forward or nowhere, and after a success to the last index. -/
  next : ∃ m, n ≤ m ∧ r.read.2.StandsAt buffer m ∧
    ∀ t, r.read.1 = .ok t → m + 1 = buffer.length

/-- A reader of a buffer in which the last token alone marks the end may be read from. -/
theorem FileReader.StandsAt.readsWithin {r : FileReader} {ts : List Token} {finish : Token}
    {n : Nat} (h : r.StandsAt (ts ++ [finish]) n) (hfinish : finish.kind = .eof)
    (hts : ∀ t ∈ ts, t.kind ≠ .eof) : r.ReadsWithin (ts ++ [finish]) n := by
  have hahead : ∀ t ∈ r.ahead, t.kind ≠ .eof := by
    intro t ht
    rw [h.ahead_eq, List.dropLast_concat] at ht
    exact hts t (List.mem_of_mem_drop ht)
  have hend : r.finish = finish := by
    have hlast := h.getLast?_eq
    rw [List.getLast?_concat] at hlast
    exact (Option.some.inj hlast).symm
  refine ⟨h, ?_, ?_, ?_⟩
  · intro us hus
    have hat := h.advance (Nat.sub_le r.ahead.length us.length)
    have hleft := ahead_advance_of_suffix hus
    have hkinds := hat.getElem?_min (hend ▸ hfinish : r.finish.kind = .eof)
    rw [hleft] at hkinds
    exact ⟨_, hleft, hat, hkinds⟩
  · intro us hus
    exact looksAhead fun t ht => hahead t (hus.subset ht)
  · obtain ⟨m, hm, hat⟩ := h.read
    refine ⟨m, hm, hat, fun t ht => ?_⟩
    exact hat.ahead_eq_nil_iff.1 (read_ok_ahead hahead ht)

/-- The parser is total and makes progress. In every dialect the nonterminals take tokens,
recursion and loops end, the last token of a text alone marks the end, and a reader that has
been read from any number of times may be read from again, in the same dialect. Whatever tokens
are left, a search for a closer begins at an opener and keeps its counter above zero. -/
theorem reading_total (dialect : Dialect) :
    (ofRules dialect.rules : Grammar Token).Progresses ∧
    Grammar.Terminates (τ := Token) dialect.rules ∧
    ∀ (symbols : SymbolTable) (text : String),
      (∃ ts finish, (tokenize symbols text).1 = ts ++ [finish] ∧ finish.kind = .eof ∧
        ∀ t ∈ ts, t.kind ≠ .eof) ∧
      ∀ count, (((FileReader.ofText symbols dialect text).1.readTimes count).2).dialect = dialect ∧
        ∃ n, (((FileReader.ofText symbols dialect text).1.readTimes count).2).ReadsWithin
          (tokenize symbols text).1 n := by
  refine ⟨progresses_ofRules dialect.proper_rules, terminates_ofRules dialect.rules, ?_⟩
  intro symbols text
  refine ⟨tokenize_eq_append symbols text, fun count => ?_⟩
  have hfollows := FileReader.follows_ofText symbols dialect text count
  obtain ⟨n, hn⟩ := hfollows.standsAt
  obtain ⟨ts, finish, hbuffer, hfinish, hts⟩ := tokenize_eq_append symbols text
  rw [hbuffer] at hn ⊢
  exact ⟨hfollows.dialect_eq, n, hn.readsWithin hfinish hts⟩

end ConcreteSyntax
