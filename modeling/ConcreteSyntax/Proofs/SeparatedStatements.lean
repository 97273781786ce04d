import ConcreteSyntax.Proofs.LastTokens
import ConcreteSyntax.Proofs.ReadNodes
import ConcreteSyntax.Proofs.TreeRanges

/-!
# Tokens between statements

A declaration ends in a semicolon or in the brace of its block, and so does an expression that is a
statement, since a semicolon has to follow it. A semicolon behind a control construct may be left
out. So what stands between two statements of a block is a semicolon or a brace, unless the first
one is a control construct that does not end in a block: local bindings with an expression for their
scope, or a repetition with its condition behind the block. Then the next statement may follow at
once.
-/

namespace ConcreteSyntax

open TokenParser Grammar

variable {τ : Type} [HasKind τ] {ts rest : List τ} {t : Tree τ}

/-- The statements of a block. Other nodes have none. -/
def Tree.statements : Tree τ → List (Tree τ)
  | .enclosure opening (some (.sequence terms)) _ =>
    if HasKind.kind opening = .leftBrace then terms else []
  | _ => []

/-- A node with statements is a block. -/
theorem Tree.eq_enclosure_of_statements (h : t.statements ≠ []) :
    ∃ a b, t = .enclosure a (some (.sequence t.statements)) b ∧ HasKind.kind a = .leftBrace := by
  unfold statements at h ⊢
  split at h
  · next a terms b =>
    split at h
    · next ha => exact ⟨a, b, by simp [ha], ha⟩
    · contradiction
  · contradiction

/-- A statement begins with a token that is kept. -/
theorem Reading.exists_first_of_statement {rules : Rules} (he : rules.Extensible)
    (h : Reading rules (.phrase .statement) ts t rest) :
    ∃ first others, ts = first :: others ∧ t.tokens.head? = some first := by
  have hstarters : ∀ k, k = .defKw ∨ nonStarters.contains k = false →
      droppedKinds.contains k = false :=
    TokenKind.forall_of_all (by decide)
  have hkeeps : KeepsTo ts t.tokens rest := h.ordered
  exact hkeeps.exists_first h.taken_le (hstarters _ (h.kindAt_of_statement he))

/-- A statement ends in a semicolon or a brace, unless it is a control construct that does not end
in a block and nothing terminates it. -/
theorem Reading.exists_last_of_statement (d : Dialect)
    (h : Reading d.rules (.phrase .statement) ts t rest) :
    ∃ used last, ts = used ++ last :: rest ∧
      ((kind last = .semicolon ∨ kind last = .rightBrace) ↔
        ¬ (t.isControl = true ∧ t.endsInBlock = false ∧ t.tokens.getLast? = some last)) := by
  have hterminated {s : τ} (hs : kind s = .semicolon)
      (hends : EndsIn (t.lastKinds d.rules) ts (s :: rest))
      (hkeeps : KeepsTo ts t.tokens (s :: rest)) :
      ∃ used last, ts = used ++ last :: rest ∧
        ((kind last = .semicolon ∨ kind last = .rightBrace) ↔
          ¬ (t.isControl = true ∧ t.endsInBlock = false ∧ t.tokens.getLast? = some last)) := by
    obtain ⟨used, last, rfl, hlast, hk⟩ := hends.exists_last d hkeeps
    refine ⟨used ++ [last], s, by simp, fun _ hcontrol => ?_, fun _ => .inl hs⟩
    obtain ⟨-, hopen, hown⟩ := hcontrol
    obtain rfl : last = s := Option.some.inj (hlast.symm.trans hown)
    rw [Tree.lastKinds, hopen] at hk
    exact (d.operandEndings_spec _ hk).2.1 hs
  cases h with
  | definitionStatement _ h =>
    obtain ⟨used, last, rfl, -, hk⟩ := h.exists_last_of_definition
    have hdeclaration : t.isDeclaration = true := (h.fits d.arrowImplications).passes
    refine ⟨used, last, rfl, fun _ hcontrol => ?_, fun _ => hk⟩
    have hcontrol := hcontrol.1
    cases t <;> contradiction
  | controlStatement _ _ h _ =>
    have hcontrol : t.isControl = true := (h.fits d.arrowImplications).passes
    obtain ⟨used, last, rfl, hlast, hk⟩ := EndsIn.exists_last d h.ends h.ordered
    refine ⟨used, last, rfl, ?_⟩
    rw [Tree.lastKinds] at hk
    split at hk
    · next hblock =>
      have hbrace : ∀ k : TokenKind, (KindSet.ofList [.rightBrace]).contains k = true →
          k = .rightBrace := TokenKind.forall_of_all (by decide)
      simp [hbrace _ hk, hblock]
    · next hopen =>
      obtain ⟨-, hsemicolon, hbrace⟩ := d.operandEndings_spec _ hk
      simp [hsemicolon, hbrace, hcontrol, hopen, hlast]
  | terminatedControl _ _ h hs => exact hterminated hs h.ends h.ordered
  | expressionStatement _ _ h hs => exact hterminated hs h.ends h.ordered

/-- The statements of a block are read behind its opening brace. -/
theorem Reading.statements_of_block {rules : Rules} {a b : τ} {ss : List (Tree τ)}
    (h : Reading rules .block ts (.enclosure a (some (.sequence ss)) b) rest) :
    ∃ mid, mid <:+ ts ∧ Reading rules .statements mid ss (b :: rest) := by
  generalize hnode : Tree.enclosure a (some (.sequence ss)) b = node at h
  cases h with
  | @block a' b' mid _ ss' _ h _ =>
    obtain ⟨-, hterm, rfl⟩ := Tree.enclosure.inj hnode
    cases ss' with
    | nil => contradiction
    | cons r ss' =>
      obtain rfl := Tree.sequence.inj (Option.some.inj hterm)
      exact ⟨mid, List.suffix_cons a' mid, h⟩

/-- Two statements of a block that follow one another are read one behind the other. -/
theorem Reading.exists_statements {rules : Rules} {front back : List (Tree τ)} {s s' : Tree τ}
    (h : Reading rules .statements ts (front ++ s :: s' :: back) rest) :
    ∃ us mid more, us <:+ ts ∧ Reading rules (.phrase .statement) us s mid ∧
      Reading rules (.phrase .statement) mid s' more := by
  induction front generalizing ts with
  | nil =>
    cases h with
    | statements _ _ h hs =>
      cases hs with
      | statements _ _ h' => exact ⟨ts, _, _, List.suffix_refl ts, h, h'⟩
  | cons r front ih =>
    cases h with
    | statements _ _ h hs =>
      obtain ⟨us, mid, more, hus, hread⟩ := ih hs
      exact ⟨us, mid, more, hus.trans h.suffix, hread⟩

/-! ## Which control constructs end in a block -/

/-- That blocks, and phrases that end in one, do so in their trees. -/
def Category.EndsInBlock : (c : Category τ) → c.Result → Prop
  | .block, v | .phrase .conditional, v | .alternative, v | .element .branch, v =>
    v.endsInBlock = true
  | .separated .branch, vs => (Tree.sequence vs).endsInBlock = true
  | _, _ => True

/-- Blocks, choices and branches end in a block. -/
theorem Reading.endsInBlock {rules : Rules} {c : Category τ} {v : c.Result}
    (h : Reading rules c ts v rest) : c.EndsInBlock v := by
  induction h with
  | @last e _ _ _ _ _ ih =>
    cases e with
    | branch => exact (Tree.endsInBlock_sequence_singleton _).trans ih
    | name | item | items | value => trivial
  | @more e _ _ _ _ _ _ _ _ ho _ ih' =>
    cases e with
    | branch => exact (Tree.endsInBlock_sequence_cons ho.separated_ne_nil _).trans ih'
    | name | item | items | value => trivial
  | block ha => exact beq_iff_eq.2 ha
  | conditional _ _ _ _ _ ih | branch _ _ _ _ ih => exact (Tree.endsInBlock_control ..).trans ih
  | choice _ _ _ _ _ _ _ ih => exact (Tree.endsInBlock_control ..).trans ih
  | furtherChoice _ _ ih | lastChoice _ _ ih => exact ih
  | _ => trivial

/-- Control constructs end in a block, local bindings and repetitions apart. -/
theorem Reading.endsInBlock_of_control {rules : Rules} (h : Reading rules .control ts t rest)
    (hlet : kindAt ts 0 ≠ .letKw) (hdo : kindAt ts 0 ≠ .doKw) : t.endsInBlock = true := by
  cases h with
  | conditionalControl _ h => exact h.endsInBlock
  | caseDistinction _ _ hb => exact (Tree.endsInBlock_control ..).trans hb.endsInBlock
  | loop _ _ hb | functionValue _ _ hb => exact (Tree.endsInBlock_control ..).trans hb.endsInBlock
  | doBlock hk | doWhile hk => exact absurd hk hdo
  | localBinding hk => exact absurd hk hlet

/-! ## Blocks of texts -/

variable {symbols : SymbolTable} {dialect : Dialect} {text : String} {t node : Tree Token}
  {path : List Nat} {front back : List (Tree Token)} {s s' : Tree Token}

/-- Two statements that follow one another in a block of a text are read somewhere in it. -/
theorem exists_statements_of_block (h : (parseText symbols dialect text).1 = .ok t)
    (hnode : t.descend path = some node) (hs : node.statements = front ++ s :: s' :: back) :
    ∃ us mid more, us <:+ (tokenize symbols text).1.dropLast ∧
      Reading dialect.rules (.phrase .statement) us s mid ∧
      Reading dialect.rules (.phrase .statement) mid s' more := by
  obtain ⟨a, b, hblock, ha⟩ := node.eq_enclosure_of_statements (by simp [hs])
  rw [hs] at hblock
  subst hblock
  rcases (readFrom_of_parseText h).descend hnode with hread | htail
  · cases hread with
    | node hnode =>
      cases hnode with
      | simple hs => simp [Tree.isSimple, ha] at hs
      | block hs h =>
        obtain ⟨ts, hts, hstatements⟩ := h.statements_of_block
        obtain ⟨us, mid, more, hus, hread⟩ := hstatements.exists_statements
        exact ⟨us, mid, more, (hus.trans hts).trans hs, hread⟩
      | parameter _ h => cases h
      | defined _ h => cases h
  · cases htail

/-- The last token of a statement and the first one of the next statement are neighbours in the
text. -/
theorem exists_places_of_statements {used us mid more : List Token} {last : Token}
    (hus : us <:+ (tokenize symbols text).1.dropLast) (hused : us = used ++ last :: mid)
    (h : Reading dialect.rules (.phrase .statement) mid s' more) :
    ∃ i first, (tokenize symbols text).1[i]? = some last ∧
      (tokenize symbols text).1[i + 1]? = some first ∧ s'.tokens.head? = some first := by
  obtain ⟨first, others, rfl, hfirst⟩ := h.exists_first_of_statement dialect.extensible_rules
  have hlast : last :: first :: others <:+ (tokenize symbols text).1.dropLast :=
    (hused ▸ List.suffix_append used _).trans hus
  obtain ⟨i, hplace, -, hnext⟩ := exists_place_of_suffix hlast
  exact ⟨i, first, (hplace i).2 rfl, hnext first rfl, hfirst⟩

/-- The token in front of a statement that follows another one in a block is a semicolon or a brace,
unless that other one is a control construct that does not end in a block and ends in this very
token. -/
theorem statements_separated (h : (parseText symbols dialect text).1 = .ok t)
    (hnode : t.descend path = some node) (hs : node.statements = front ++ s :: s' :: back) :
    ∃ i last first, (tokenize symbols text).1[i]? = some last ∧
      (tokenize symbols text).1[i + 1]? = some first ∧ s'.tokens.head? = some first ∧
      ((last.kind = .semicolon ∨ last.kind = .rightBrace) ↔
        ¬ (s.isControl = true ∧ s.endsInBlock = false ∧ s.tokens.getLast? = some last)) := by
  obtain ⟨us, mid, more, hus, hfirst, hsecond⟩ := exists_statements_of_block h hnode hs
  obtain ⟨used, last, hused, hlast⟩ := hfirst.exists_last_of_statement
  obtain ⟨i, first, hi, hnext, hhead⟩ := exists_places_of_statements hus hused hsecond
  exact ⟨i, last, first, hi, hnext, hhead, hlast⟩

/-- A repetition with its condition behind the block, in front of another statement. -/
theorem statements_separated_repetition :
    let text := "f: int { do { } while (a) b; }"
    let buffer := (tokenize (.empty 0) text).1
    ∃ t node s s', (parseText (.empty 0) .standard text).1 = .ok t ∧
      t.descend [0, 0, 2] = some node ∧ node.statements = [s, s'] ∧
      ∃ i last first, buffer[i]? = some last ∧ buffer[i + 1]? = some first ∧
        s'.tokens.head? = some first ∧
        ((last.kind = .semicolon ∨ last.kind = .rightBrace) ↔
          ¬ (s.isControl = true ∧ s.endsInBlock = false ∧ s.tokens.getLast? = some last)) := by
  intro text buffer
  obtain ⟨t, ht, hlength⟩ := exists_tree_of_any
    (p := fun t => (t.descend [0, 0, 2]).any fun node => node.statements.length == 2)
    (show (parseText (.empty 0) .standard text).1.toOption.any _ = true by decide +kernel)
  obtain ⟨node, hnode, hlength⟩ := (Option.any_eq_true _ _).1 hlength
  obtain ⟨s, s', hs⟩ := List.length_eq_two.1 (beq_iff_eq.1 hlength)
  exact ⟨t, node, s, s', ht, hnode, hs,
    statements_separated ht hnode (show node.statements = [] ++ s :: s' :: [] from hs)⟩

/-- Behind local bindings with an expression for their scope another statement may follow at once:
neither a semicolon nor a brace stands between the two. -/
theorem statements_not_separated :
    let text := "f: int { let (b: int) x y; }"
    let buffer := (tokenize (.empty 0) text).1
    ∃ t node s s' i last first, (parseText (.empty 0) .standard text).1 = .ok t ∧
      t.descend [0, 0, 2] = some node ∧ node.statements = [s, s'] ∧
      buffer[i]? = some last ∧ buffer[i + 1]? = some first ∧ s'.tokens.head? = some first ∧
      last.kind ≠ .semicolon ∧ last.kind ≠ .rightBrace := by
  intro text buffer
  obtain ⟨t, ht, hheads⟩ := exists_tree_of_any
    (p := fun t => (t.descend [0, 0, 2]).any fun node =>
      node.statements.map (fun s => s.tokens.head?.map Token.kind) == [some .letKw, some .ident])
    (show (parseText (.empty 0) .standard text).1.toOption.any _ = true by decide +kernel)
  obtain ⟨node, hnode, hheads⟩ := (Option.any_eq_true _ _).1 hheads
  obtain ⟨s, ss, hs, -, hss⟩ := List.map_eq_cons_iff.1 (beq_iff_eq.1 hheads)
  obtain ⟨s', ss, rfl, hname, hnil⟩ := List.map_eq_cons_iff.1 hss
  obtain rfl := List.map_eq_nil_iff.1 hnil
  obtain ⟨us, mid, more, hus, hfirst, hsecond⟩ :=
    exists_statements_of_block ht hnode (show node.statements = [] ++ s :: s' :: [] from hs)
  obtain ⟨used, last, hused, -⟩ := hfirst.exists_last_of_statement
  obtain ⟨i, first, hi, hnext, hhead⟩ := exists_places_of_statements hus hused hsecond
  have hkind : first.kind = .ident := by
    rw [hhead] at hname
    exact Option.some.inj hname
  -- No name stands behind the semicolon or behind the closing brace of this text.
  have hnames : ∀ j < buffer.length, kindAt buffer j = .semicolon ∨ kindAt buffer j = .rightBrace →
      kindAt buffer (j + 1) ≠ .ident := by decide +kernel
  have hlast : ¬ (last.kind = .semicolon ∨ last.kind = .rightBrace) := fun hk => by
    obtain ⟨hlt, -⟩ := List.getElem?_eq_some_iff.1 hi
    refine hnames i hlt ?_ ?_
    · rw [kindAt, hi]
      exact hk
    · rw [kindAt, hnext]
      exact hkind
  exact ⟨t, node, s, s', i, last, first, ht, hnode, hs, hi, hnext, hhead,
    fun hk => hlast (.inl hk), fun hk => hlast (.inr hk)⟩

end ConcreteSyntax
