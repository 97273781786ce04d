import ConcreteSyntax.Proofs.ReadingSoundness

/-!
# Readings are successful parses

Whatever has a reading is yielded by the parser of its category. Together with the
converse, a file is accepted exactly when its declarations have a reading up to the end
of the tokens, and then its tree is the one that was read.
-/

namespace ConcreteSyntax

open TokenParser Grammar

namespace TokenParser

variable {τ α β : Type}

/-- A sequence succeeds when both parts do. -/
theorem bind_done {p : TokenParser τ α} {f : α → TokenParser τ β} {ts mid rest : List τ} {a : α}
    {b : β} (hp : p ts = .done a mid) (hf : f a mid = .done b rest) :
    (p >>= f) ts = .done b rest :=
  bind_eq_done.2 ⟨a, mid, hp, hf⟩

/-- A choice by what a parser yields goes on with its first part where the condition
holds. -/
theorem bind_if_pos {x : TokenParser τ β} {c : β → Prop} [DecidablePred c]
    {p q : TokenParser τ α} {ts mid rest : List τ} {b : β} {a : α} (hx : x ts = .done b mid)
    (hc : c b) (hp : p mid = .done a rest) :
    (x >>= fun b => if c b then p else q) ts = .done a rest :=
  bind_done hx (by rwa [if_pos hc])

/-- A choice by what a parser yields goes on with its second part where the condition
fails. -/
theorem bind_if_neg {x : TokenParser τ β} {c : β → Prop} [DecidablePred c]
    {p q : TokenParser τ α} {ts mid rest : List τ} {b : β} {a : α} (hx : x ts = .done b mid)
    (hc : ¬ c b) (hq : q mid = .done a rest) :
    (x >>= fun b => if c b then p else q) ts = .done a rest :=
  bind_done hx (by rwa [if_neg hc])

end TokenParser

variable {τ : Type} [HasKind τ]

/-- The parser of the elements of a sequence. -/
def Element.parser (g : Grammar τ) : Element → TokenParser τ (Tree τ)
  | name => Grammar.identifier
  | item => g.item
  | items => g.items
  | branch => g.branch
  | value => g.suffixed

/-- That the parser of a category yields a result. -/
def Category.Yields (g : Grammar τ) : (c : Category τ) → List τ → c.Result → List τ → Prop
  | .phrase p, ts, v, rest => g.phrase p ts = .done v rest
  | .element e, ts, v, rest => e.parser g ts = .done v rest
  | .separated e, ts, vs, rest => separatedBy e.separator (e.parser g) ts = .done vs rest
  | .type, ts, v, rest => g.type ts = .done v rest
  | .typing, ts, v, rest => g.typing ts = .done v rest
  | .initial, ts, v, rest => behind .eq (g.phrase .expression) ts = .done v rest
  | .parameter, ts, v, rest => g.parameter ts = .done v rest
  | .enclosed opening closing, ts, v, rest => g.enclosed opening closing ts = .done v rest
  | .statements, ts, vs, rest => many g.statement? ts = .done vs rest
  | .block, ts, v, rest => g.block ts = .done v rest
  | .constructor, ts, v, rest => g.constructor? ts = .done (some v) rest
  | .primary, ts, v, rest => g.primary ts = .done v rest
  | .suffixes value, ts, v, rest =>
    ∃ ss, many g.suffix? ts = .done ss rest ∧ v = ss.foldl Suffix.attach value
  | .layer n, ts, v, rest => g.layerParser n ts = .done v rest
  | .operations n left, ts, v, rest =>
    ∃ os, many (operation? (layerOperators n) (g.layerParser n)) ts = .done os rest ∧
      v = os.foldl (fun left (operator, right) => .infixOp left operator right) left
  | .alternative, ts, v, rest => g.alternative ts = .done v rest
  | .functionHead, ts, v, rest => g.functionHead ts = .done v rest
  | .scope, ts, v, rest => g.scope ts = .done v rest
  | .control, ts, v, rest => g.control ts = .done v rest
  | .defined introducer declarator, ts, v, rest =>
    (do
      let type ← g.typing
      match ← terminator? type.isSome with
      | some terminator =>
        return .declaration introducer (some declarator) type none (some terminator)
      | none =>
        let (value, terminator) ← g.definiens
        return .declaration introducer (some declarator) type (some value) terminator :
          TokenParser τ (Tree τ)) ts = .done v rest
  | .definition, ts, v, rest => g.definition ts = .done v rest
  | .declarations, ts, vs, rest => many (unlessNext .eof g.declaration) ts = .done vs rest

namespace Grammar

variable {g : Grammar τ}

/-- Before a token that is no literal no literal is eaten. -/
theorem eatAny_literals_eq_none (hp : g.rules.Proper) {ts : List τ}
    (h : g.rules.literals.contains (kindAt ts 0) = false) :
    eatAny g.rules.literals ts = .done none ts :=
  (eatAny_eq_none (Bool.eq_false_iff.2 fun h => (hp.literals h).2 rfl)).2 ⟨rfl, h⟩

/-- Before a token that is no prefix operator no prefix operator is eaten. -/
theorem eatAny_prefixOperators_eq_none (hp : g.rules.Proper) {ts : List τ}
    (h : g.rules.prefixOperators.contains (kindAt ts 0) = false) :
    eatAny g.rules.prefixOperators ts = .done none ts :=
  (eatAny_eq_none (Bool.eq_false_iff.2 fun h => (hp.prefixes h).2 rfl)).2 ⟨rfl, h⟩

/-- Before a token that is no arrow of an implication no such arrow is eaten. -/
theorem eatAny_implicationOperators_eq_none (hp : g.rules.Proper) {ts : List τ}
    (h : g.rules.implicationOperators.contains (kindAt ts 0) = false) :
    eatAny g.rules.implicationOperators ts = .done none ts :=
  (eatAny_eq_none (Bool.eq_false_iff.2 fun h => (hp.implications h).2 rfl)).2 ⟨rfl, h⟩

/-- Before a token that is no operator of a layer no such operator is eaten. -/
theorem eatAny_layerOperators_eq_none {n : Nat} {ts : List τ}
    (h : (layerOperators n).contains (kindAt ts 0) = false) :
    eatAny (layerOperators n) ts = .done none ts :=
  (eatAny_eq_none (Bool.eq_false_iff.2 fun h => (layerOperators_proper h).2 rfl)).2 ⟨rfl, h⟩

/-! ## Types and values -/

omit [HasKind τ] in
/-- A type is an operand where the dialect reads types so. -/
theorem type_of_operand {ts rest : List τ} {t : Tree τ} (hl : g.rules.typeLevel = .operand)
    (h : g.phrase .operand ts = .done t rest) : g.type ts = .done t rest := by
  unfold Grammar.type
  rwa [hl]

omit [HasKind τ] in
/-- A type is an implication where the dialect reads types so. -/
theorem type_of_implication {ts rest : List τ} {t : Tree τ}
    (hl : g.rules.typeLevel = .implication) (h : g.phrase .implication ts = .done t rest) :
    g.type ts = .done t rest := by
  unfold Grammar.type
  rwa [hl]

/-- Before a token that shows that a type is left out none is yielded. -/
theorem plainType?_eq_none {ts : List τ} (ho : typeOmitted.contains (kindAt ts 0) = true) :
    g.plainType? ts = .done none ts :=
  bind_if_pos rfl ho rfl

/-- A type behind a colon is yielded unless it is left out. -/
theorem plainType?_of_type {ts rest : List τ} {t : Tree τ}
    (ho : typeOmitted.contains (kindAt ts 0) = false) (h : g.type ts = .done t rest) :
    g.plainType? ts = .done (some t) rest :=
  bind_if_neg rfl (Bool.eq_false_iff.1 ho) (bind_done h rfl)

/-- A type behind a colon that no constraint follows is yielded. -/
theorem typing_of_type {c : τ} {ts rest : List τ} {type : Option (Tree τ)} (hc : kind c = .colon)
    (h : g.plainType? ts = .done type rest) (hr : kindAt rest 0 ≠ .isKw) :
    g.typing (c :: ts) = .done type rest :=
  bind_done (eat_eq_some.2 ⟨rfl, hc⟩)
    (bind_done h (bind_done ((eat_eq_none (by decide)).2 ⟨rfl, hr⟩) rfl))

/-- A constraint behind a colon and an optional type is yielded. -/
theorem typing_of_constraint {c m : τ} {ts mid rest : List τ} {type : Option (Tree τ)} {p : Tree τ}
    (hc : kind c = .colon) (h : g.plainType? ts = .done type (m :: mid)) (hm : kind m = .isKw)
    (hp : g.type mid = .done p rest) :
    g.typing (c :: ts) = .done (some (.constraint m type p)) rest :=
  bind_done (eat_eq_some.2 ⟨rfl, hc⟩)
    (bind_done h (bind_done (eat_eq_some.2 ⟨rfl, hm⟩) (bind_done hp rfl)))

/-- A group without a literal in front is a value. -/
theorem primary_of_group (hp : g.rules.Proper) {opening closing : TokenKind} {ts rest : List τ}
    {t : Tree τ} (hl : g.rules.literals.contains (kindAt ts 0) = false)
    (hd : opening = .leftParen ∧ closing = .rightParen ∨
      opening = .leftBracket ∧ closing = .rightBracket)
    (hk : kindAt ts 0 = opening) (h : g.enclosed opening closing ts = .done t rest) :
    g.primary ts = .done t rest := by
  refine bind_done (eatAny_literals_eq_none hp hl) ?_
  rcases hd with ⟨rfl, rfl⟩ | ⟨rfl, rfl⟩
  all_goals
    refine bind_done ((eat_eq_none (by decide)).2 ⟨rfl, by rw [hk]; decide⟩) (bind_done rfl ?_)
    rw [hk]
    exact h

/-! ## Constructors -/

/-- Where no constructor begins, none is yielded. -/
theorem constructor?_eq_none {ts : List τ} (h : opensConstructor g.rules ts = false) :
    g.constructor? ts = .done none ts := by
  unfold opensConstructor at h
  unfold Grammar.constructor?
  cases hc : g.rules.constructors with
  | lookahead =>
    simp only [hc, Option.isSome_eq_false_iff, Option.isNone_iff_eq_none] at h
    simp [lookaheadConstructor, bind_apply, ahead, h]
  | keyword =>
    simp only [hc] at h
    simp only [keywordConstructor, bind_apply, peek]
    cases hk : kindAt ts 0 <;> first | rfl | simp [hk] at h
  | arrow =>
    simp only [hc] at h
    simp only [arrowConstructor_eq_scan, bind_apply, peek]
    cases hk : kindAt ts 0
    case leftBracket => simp [hk] at h
    case leftParen =>
      have hf : bracketFollowedBy .thinArrow ts = false := by simpa [hk] using h
      simp [bind_apply, ahead, hf]
    all_goals rfl
  | parameter =>
    simp only [hc] at h
    simp only [parameterConstructor, bind_apply, peek]
    cases hk : kindAt ts 0
    case leftBracket => simp [hk] at h
    case leftParen =>
      have hf : opensParameters ts = false := by simpa [hk] using h
      simp [bind_apply, ahead, hf]
    all_goals rfl
  | absent => rfl

/-- A specifier is an enclosure in the delimiters of its sort. -/
theorem specifier_eq (g : Grammar τ) (sort : ConstructorSort) :
    g.specifier sort = g.enclosed sort.opening sort.closing := by
  cases sort <;> rfl

/-- A constructor without a mark is yielded. -/
theorem constructor?_of_opensUnmarked {sort : ConstructorSort} {ts mid rest : List τ} {s r : Tree τ}
    (ho : OpensUnmarked g.rules sort ts mid)
    (hs : g.enclosed sort.opening sort.closing ts = .done s mid)
    (hr : g.phrase .operand mid = .done r rest) :
    g.constructor? ts = .done (some (sort.build none s r)) rest := by
  unfold OpensUnmarked at ho
  unfold Grammar.constructor?
  cases hc : g.rules.constructors with
  | lookahead =>
    rw [hc] at ho
    refine bind_done rfl ?_
    rw [ho]
    exact bind_done (by rw [specifier_eq]; exact hs) (bind_done rfl (bind_done hr rfl))
  | keyword => rw [hc] at ho; exact ho.elim
  | arrow =>
    rw [hc] at ho
    obtain ⟨rfl, hk, hn⟩ := ho
    show g.arrowConstructor ts = _
    rw [arrowConstructor_eq_scan]
    refine bind_done rfl ?_
    rw [hk]
    exact bind_done hs (bind_done ((eat_eq_none (by decide)).2 ⟨rfl, hn⟩) (bind_done hr rfl))
  | parameter =>
    rw [hc] at ho
    obtain ⟨rfl, hk⟩ | ⟨rfl, hk, hf⟩ := ho
    · refine bind_done rfl ?_
      rw [hk]
      exact bind_done hs (bind_done hr rfl)
    · refine bind_done rfl ?_
      rw [hk]
      refine bind_done rfl ?_
      rw [if_pos hf]
      exact bind_done hs (bind_done hr rfl)
  | absent => rw [hc] at ho; exact ho.elim

/-- A constructor with an arrow is yielded. -/
theorem constructor?_of_opensMarked {sort : ConstructorSort} {m : τ} {ts mid rest : List τ}
    {s r : Tree τ} (ho : OpensMarked g.rules sort ts) (hm : kind m = sort.arrow)
    (hs : g.enclosed sort.opening sort.closing ts = .done s (m :: mid))
    (hr : g.phrase .operand mid = .done r rest) :
    g.constructor? ts = .done (some (sort.build (some m) s r)) rest := by
  unfold OpensMarked at ho
  unfold Grammar.constructor?
  cases hc : g.rules.constructors with
  | lookahead =>
    rw [hc] at ho
    refine bind_done rfl ?_
    rw [ho]
    exact bind_done (by rw [specifier_eq]; exact hs) (bind_done rfl (bind_done hr rfl))
  | keyword => rw [hc] at ho; exact ho.elim
  | arrow =>
    rw [hc] at ho
    show g.arrowConstructor ts = _
    rw [arrowConstructor_eq_scan]
    obtain ⟨rfl, hk⟩ | ⟨rfl, hk, hf⟩ := ho
    · refine bind_done rfl ?_
      rw [hk]
      exact bind_done hs (bind_done (eat_eq_some.2 ⟨rfl, hm⟩) (bind_done hr rfl))
    · refine bind_done rfl ?_
      rw [hk]
      refine bind_done rfl ?_
      rw [if_pos hf]
      exact bind_done hs (bind_done (expect_eq_done.2 ⟨rfl, hm⟩) (bind_done hr rfl))
  | parameter => rw [hc] at ho; exact ho.elim
  | absent => rw [hc] at ho; exact ho.elim

/-- A constructor behind its reserved word is yielded. -/
theorem constructor?_of_word {sort : ConstructorSort} {m : τ} {ts mid rest : List τ} {s r : Tree τ}
    (hc : g.rules.constructors = .keyword) (hm : kind m = sort.word)
    (hs : g.enclosed sort.opening sort.closing ts = .done s mid)
    (hr : g.phrase .operand mid = .done r rest) :
    g.constructor? (m :: ts) = .done (some (sort.build (some m) s r)) rest := by
  have hintro : g.introducedConstructor sort.word sort (m :: ts) =
      .done (some (sort.build (some m) s r)) rest :=
    bind_done (expect_eq_done.2 ⟨rfl, hm⟩)
      (bind_done (by rw [specifier_eq]; exact hs) (bind_done hr rfl))
  unfold Grammar.constructor?
  rw [hc]
  refine bind_done rfl ?_
  rw [kindAt_cons_zero, hm]
  cases sort <;> exact hintro

/-! ## Statements and suffixes -/

/-- Before a statement a statement is yielded. -/
theorem statement?_of_statement {ts rest : List τ} {s : Tree τ} (hb : kindAt ts 0 ≠ .rightBrace)
    (he : kindAt ts 0 ≠ .eof) (h : g.phrase .statement ts = .done s rest) :
    g.statement? ts = .done (some s) rest := by
  have hs : (do return some (← g.phrase .statement) : TokenParser τ (Option (Tree τ))) ts =
      .done (some s) rest := bind_done h rfl
  refine bind_done rfl ?_
  cases hk : kindAt ts 0 <;> first | exact hs | contradiction

/-- Arguments in parentheses are yielded as a suffix. -/
theorem suffix?_of_paren {ts rest : List τ} {a : Tree τ} (hk : kindAt ts 0 = .leftParen)
    (h : g.paren ts = .done a rest) : g.suffix? ts = .done (some (.call a)) rest := by
  refine bind_done rfl ?_
  rw [hk]
  exact bind_done h rfl

/-- Arguments in brackets are yielded as a suffix. -/
theorem suffix?_of_bracket {ts rest : List τ} {a : Tree τ} (hk : kindAt ts 0 = .leftBracket)
    (h : g.bracket ts = .done a rest) : g.suffix? ts = .done (some (.index a)) rest := by
  refine bind_done rfl ?_
  rw [hk]
  exact bind_done h rfl

/-- Before a suffix of another kind than arguments it is yielded. -/
theorem suffix?_of_simple {t : τ} {ts rest : List τ} {s : Suffix τ} {k : TokenKind}
    (hk : kind t = k) (hp : k ≠ .leftParen) (hb : k ≠ .leftBracket)
    (h : g.simpleSuffix? (t :: ts) = .done (some s) rest) :
    g.suffix? (t :: ts) = .done (some s) rest := by
  rw [suffix?_apply (by rwa [kindAt_cons_zero, hk]) (by rwa [kindAt_cons_zero, hk])]
  exact h

/-- The name of a member is yielded as a suffix. -/
theorem suffix?_of_member {d n : τ} {ts : List τ} (hd : kind d = .dot) (hn : kind n = .ident) :
    g.suffix? (d :: n :: ts) = .done (some (.member d (.identifier n))) ts :=
  suffix?_of_simple hd (by decide) (by decide) (bind_done (eat_eq_some.2 ⟨rfl, hd⟩)
    (bind_done (bind_done (expect_eq_done.2 ⟨rfl, hn⟩) rfl) rfl))

/-- A caret is yielded as a suffix where the dialect has such suffixes. -/
theorem suffix?_of_caret {c : τ} {ts : List τ} (hc : kind c = .caret)
    (hp : g.rules.postfixCaret = true) : g.suffix? (c :: ts) = .done (some (.operator c)) ts := by
  refine suffix?_of_simple hc (by decide) (by decide) ?_
  refine bind_done ((eat_eq_none (by decide)).2 ⟨rfl, by rw [kindAt_cons_zero, hc]; decide⟩) ?_
  rw [hp]
  exact bind_done (eat_eq_some.2 ⟨rfl, hc⟩) rfl

/-- Before a token that continues no value no suffix is yielded. -/
theorem suffix?_eq_none {ts : List τ} (h : continuesValue g.rules (kindAt ts 0) = false) :
    g.suffix? ts = .done none ts := by
  simp only [continuesValue, Bool.or_eq_false_iff, beq_eq_false_iff_ne, ne_eq] at h
  obtain ⟨⟨⟨hp, hb⟩, hd⟩, hc⟩ := h
  rw [suffix?_apply hp hb]
  refine bind_done ((eat_eq_none (by decide)).2 ⟨rfl, hd⟩) ?_
  cases hcaret : g.rules.postfixCaret with
  | false => simp
  | true =>
    have hne : kindAt ts 0 ≠ .caret := by simpa [hcaret] using hc
    simp only [if_true]
    exact bind_done ((eat_eq_none (by decide)).2 ⟨rfl, hne⟩) rfl

/-! ## Control constructs and definitions -/

/-- A condition behind a block that begins no loop is yielded. -/
theorem repetition?_of_condition {w : τ} {ts rest : List τ} {c : Tree τ} (hw : kind w = .whileKw)
    (hl : startsLoop (w :: ts) = false) (h : g.paren ts = .done c rest) :
    g.repetition? (w :: ts) = .done (some (.control w (some c) none)) rest := by
  refine bind_done rfl (bind_done rfl ?_)
  rw [if_pos (by simp [hw, hl])]
  exact bind_done (expect_eq_done.2 ⟨rfl, hw⟩) (bind_done h rfl)

/-- Behind a block that no condition follows none is yielded. -/
theorem repetition?_eq_none {ts : List τ} (h : kindAt ts 0 = .whileKw → startsLoop ts = true) :
    g.repetition? ts = .done none ts := by
  refine bind_done rfl (bind_done rfl ?_)
  rw [if_neg (by simpa using h)]
  rfl

/-- A definition does not end where no semicolon follows its type. -/
theorem terminator?_eq_none {typed : Bool} {ts : List τ} (h : kindAt ts 0 ≠ .semicolon) :
    terminator? typed ts = .done none ts := by
  cases typed with
  | false => rfl
  | true => exact (eat_eq_none (k := .semicolon) (by decide)).2 ⟨rfl, h⟩

/-- What is defined by a block is yielded. -/
theorem definiens_of_block {ts rest : List τ} {b : Tree τ} (hk : kindAt ts 0 = .leftBrace)
    (h : g.block ts = .done b rest) : g.definiens ts = .done (b, none) rest :=
  bind_if_pos rfl hk (bind_done h rfl)

/-- What is defined by a value is yielded with its terminator. -/
theorem definiens_of_value {e s : τ} {ts rest : List τ} {v : Tree τ} (he : kind e = .eq)
    (h : g.phrase .expression ts = .done v (s :: rest)) (hs : kind s = .semicolon) :
    g.definiens (e :: ts) = .done (v, some s) rest :=
  bind_if_neg rfl (by rw [kindAt_cons_zero, he]; decide) (bind_done (expect_eq_done.2 ⟨rfl, he⟩)
    (bind_done h (bind_done (expect_eq_done.2 ⟨rfl, hs⟩) rfl)))

/-- A control construct is a statement, with a terminator or without. -/
theorem statement_of_control {ts mid rest : List τ} {t : Tree τ} {s : Option τ}
    (hd : opensDeclaration ts = false) (ho : opensControl g.rules ts = true)
    (h : g.control ts = .done t mid) (hs : eat .semicolon mid = .done s rest) :
    g.statement ts = .done t rest := by
  refine bind_if_neg rfl (Bool.eq_false_iff.1 hd) ?_
  rw [if_pos ho]
  exact bind_done h (bind_done hs rfl)

/-- An expression is a statement with its terminator. -/
theorem statement_of_expression {s : τ} {ts rest : List τ} {t : Tree τ}
    (hd : opensDeclaration ts = false) (ho : opensControl g.rules ts = false)
    (h : g.expression ts = .done t (s :: rest)) (hs : kind s = .semicolon) :
    g.statement ts = .done t rest := by
  refine bind_if_neg rfl (Bool.eq_false_iff.1 hd) ?_
  rw [if_neg (Bool.eq_false_iff.1 ho)]
  exact bind_done h (bind_done (expect_eq_done.2 ⟨rfl, hs⟩) rfl)

/-- Tokens that begin a declaration are not at their end. -/
theorem kindAt_ne_eof_of_opensDeclaration {ts : List τ} (h : opensDeclaration ts = true) :
    kindAt ts 0 ≠ .eof := by
  intro hk
  cases ts with
  | nil => simp [opensDeclaration, opensDefinition] at h
  | cons t ts =>
    rw [kindAt_cons_zero] at hk
    cases ts <;> simp [opensDeclaration, opensDefinition, hk] at h

/-- The parsers of sequences read tokens from the front only. -/
theorem trims_element {g : Grammar τ} (hg : ∀ phrase, (g.phrase phrase).Consumes) (e : Element) :
    (e.parser g).Trims := by
  cases e with
  | name => exact consumes_identifier.trims
  | item => exact (consumes_item hg).trims
  | items => exact (consumes_items hg).trims
  | branch => exact (consumes_branch hg).trims
  | value => exact (consumes_suffixed hg).trims

/-- A phrase is yielded when its parts are. -/
theorem phrase_of_body {rules : Rules} {p : Phrase} {ts rest : List τ} {t : Tree τ}
    (h : (ofRules rules).body p ts = .done t rest) : (ofRules rules).phrase p ts = .done t rest := by
  rwa [ofRules_phrase]

/-- The parts of a phrase are yielded when it is. -/
theorem body_of_phrase {rules : Rules} {p : Phrase} {ts rest : List τ} {t : Tree τ}
    (h : (ofRules rules).phrase p ts = .done t rest) : (ofRules rules).body p ts = .done t rest := by
  rwa [ofRules_phrase] at h

end Grammar

/-- A sequence of separated elements is not empty. -/
theorem Category.Yields.ne_nil {g : Grammar τ} {e : Element} {ts rest : List τ} {vs : List (Tree τ)}
    (h : Category.Yields g (.separated e) ts vs rest) : ∃ t us, vs = t :: us := by
  cases vs with
  | nil => exact absurd h separatedBy_ne_nil
  | cons t us => exact ⟨t, us, rfl⟩

/-- A suffix is yielded in front of the suffixes that follow it. -/
theorem Category.Yields.cons_suffix {g : Grammar τ} (hg : ∀ phrase, (g.phrase phrase).Consumes)
    {ts mid rest : List τ} {s : Suffix τ} {v t : Tree τ} (h : g.suffix? ts = .done (some s) mid)
    (ht : Category.Yields g (.suffixes (s.attach v)) mid t rest) :
    Category.Yields g (.suffixes v) ts t rest := by
  obtain ⟨ss, hss, rfl⟩ := ht
  exact ⟨s :: ss, (repeats_suffix? hg).many_eq_cons.2 ⟨_, h, hss⟩, rfl⟩

/-- What has a reading is yielded. -/
theorem Reading.yields {rules : Rules} (hp : rules.Proper) {c : Category τ} {ts rest : List τ}
    {v : c.Result} (h : Reading rules c ts v rest) : c.Yields (ofRules rules) ts v rest := by
  have hg := consumes_ofRules (τ := τ) rules
  have hproper : (ofRules rules : Grammar τ).rules.Proper := hp
  induction h with
  | name hk => exact bind_done (expect_eq_done.2 ⟨rfl, hk⟩) rfl
  | @last e ts rest t _ hr ih =>
    exact (separatedBy_eq_singleton (separator_ne_eof e) (trims_element hg e)).2 ⟨ih, hr⟩
  | @more e _ _ _ _ _ vs _ hs _ ih ih' =>
    obtain ⟨u, us, rfl⟩ := ih'.ne_nil
    exact (separatedBy_eq_cons (trims_element hg e)).2 ⟨_, _, ih, hs, ih'⟩
  | operandType hl _ ih => exact type_of_operand hl ih
  | implicationType hl _ ih => exact type_of_implication hl ih
  | omittedType hc hn =>
    exact typing_of_type hc (plainType?_eq_none (by rw [hn]; decide)) (by rw [hn]; decide)
  | plainType hc ho _ hr ih => exact typing_of_type hc (plainType?_of_type ho ih) hr
  | constrainedType hc ho _ hm _ ih ih' =>
    exact typing_of_constraint hc (plainType?_of_type ho ih) hm ih'
  | colonConstraint hc hm _ ih =>
    exact typing_of_constraint hc
      (plainType?_eq_none (by rw [kindAt_cons_zero, hm]; decide)) hm ih
  | bareConstraint hm _ ih =>
    exact bind_done ((eat_eq_none (by decide)).2 ⟨rfl, by rw [kindAt_cons_zero, hm]; decide⟩)
      (bind_done (eat_eq_some.2 ⟨rfl, hm⟩) (bind_done ih rfl))
  | noInitial hn => exact (behind_eq_none (by decide)).2 ⟨rfl, hn⟩
  | initial he _ ih => exact behind_eq_some.2 ⟨_, _, rfl, he, ih⟩
  | unnamedParameter hk _ _ ih ih' =>
    exact bind_done (unlessNext_eq_none.2 ⟨rfl, hk⟩) (bind_done ih (bind_done ih' rfl))
  | namedParameter hk _ _ _ ih ih' ih'' =>
    exact bind_done (unlessNext_eq_some.2 ⟨hk, bind_done ih rfl⟩)
      (bind_done ih' (bind_done ih'' rfl))
  | parameterItem ho _ ih => exact bind_if_pos rfl ho ih
  | expressionItem ho _ ih => exact bind_if_neg rfl (Bool.eq_false_iff.1 ho) ih
  | items _ ih => exact bind_done ih rfl
  | emptyEnclosure ha hb =>
    exact bind_done (expect_eq_done.2 ⟨rfl, ha⟩) (bind_done (unlessNext_eq_none.2 ⟨rfl, hb⟩)
      (bind_done (expect_eq_done.2 ⟨rfl, hb⟩) rfl))
  | enclosure ha hn _ hb ih =>
    exact bind_done (expect_eq_done.2 ⟨rfl, ha⟩)
      (bind_done (unlessNext_eq_some.2 ⟨hn, bind_done ih rfl⟩)
        (bind_done (expect_eq_done.2 ⟨rfl, hb⟩) rfl))
  | noStatements hn =>
    refine (repeats_statement? hg).many_eq_nil.2 (bind_done rfl ?_)
    rcases hn with hn | hn <;> rw [hn] <;> rfl
  | statements hb he _ _ ih ih' =>
    exact (repeats_statement? hg).many_eq_cons.2 ⟨_, statement?_of_statement hb he ih, ih'⟩
  | block ha _ hb ih =>
    exact bind_done (expect_eq_done.2 ⟨rfl, ha⟩)
      (bind_done ih (bind_done (expect_eq_done.2 ⟨rfl, hb⟩) rfl))
  | wordConstructor hc hm _ _ ih ih' => exact constructor?_of_word hc hm ih ih'
  | unmarkedConstructor ho _ _ ih ih' => exact constructor?_of_opensUnmarked ho ih ih'
  | markedConstructor ho hm _ _ ih ih' => exact constructor?_of_opensMarked ho hm ih ih'
  | literal hl => exact bind_done (eatAny_eq_some.2 ⟨rfl, hl⟩) rfl
  | identifier hl hk =>
    exact bind_done (eatAny_literals_eq_none hproper hl)
      (bind_done (eat_eq_some.2 ⟨rfl, hk⟩) rfl)
  | @paren ts _ _ hl h ih =>
    have hk : kindAt ts 0 = .leftParen := by cases h <;> assumption
    exact primary_of_group hproper hl (.inl ⟨rfl, rfl⟩) hk ih
  | @bracket ts _ _ hl h ih =>
    have hk : kindAt ts 0 = .leftBracket := by cases h <;> assumption
    exact primary_of_group hproper hl (.inr ⟨rfl, rfl⟩) hk ih
  | suffixesEnd hn =>
    exact ⟨[], (repeats_suffix? hg).many_eq_nil.2 (suffix?_eq_none hn), rfl⟩
  | @call _ _ _ ts _ _ h _ ih ih' =>
    have hk : kindAt ts 0 = .leftParen := by cases h <;> assumption
    exact .cons_suffix hg (suffix?_of_paren hk ih) ih'
  | @index _ _ _ ts _ _ h _ ih ih' =>
    have hk : kindAt ts 0 = .leftBracket := by cases h <;> assumption
    exact .cons_suffix hg (suffix?_of_bracket hk ih) ih'
  | member hd hn _ ih => exact .cons_suffix hg (suffix?_of_member hd hn) ih
  | caret hc hcaret _ ih => exact .cons_suffix hg (suffix?_of_caret hc hcaret) ih
  | value _ _ ih ih' =>
    obtain ⟨ss, hss, rfl⟩ := ih'
    exact bind_done ih (bind_done hss rfl)
  | prefixOperand ho _ ih =>
    exact phrase_of_body (bind_done (eatAny_eq_some.2 ⟨rfl, ho⟩) (bind_done ih rfl))
  | constructorOperand ho _ ih =>
    exact phrase_of_body
      (bind_done (eatAny_prefixOperators_eq_none hproper ho) (bind_done ih rfl))
  | valueOperand ho hc _ ih =>
    exact phrase_of_body (bind_done (eatAny_prefixOperators_eq_none hproper ho)
      (bind_done (constructor?_eq_none hc) ih))
  | layerOperand _ ih => exact body_of_phrase (p := .operand) ih
  | layer _ _ ih ih' =>
    obtain ⟨os, hos, rfl⟩ := ih'
    exact bind_done ih (bind_done hos rfl)
  | @operationsEnd n _ _ hn =>
    refine ⟨[], (repeats_operation? (consumes_layerParser hg n)).many_eq_nil.2 ?_, rfl⟩
    exact bind_done (eatAny_layerOperators_eq_none hn) rfl
  | @operation n _ r _ o _ _ _ ho _ _ ih ih' =>
    obtain ⟨os, hos, rfl⟩ := ih'
    refine ⟨(o, r) :: os, (repeats_operation? (consumes_layerParser hg n)).many_eq_cons.2
      ⟨_, ?_, hos⟩, rfl⟩
    exact bind_done (eatAny_eq_some.2 ⟨rfl, ho⟩) (bind_done ih rfl)
  | implicationEnd _ hn ih =>
    exact phrase_of_body
      (bind_done ih (bind_done (eatAny_implicationOperators_eq_none hproper hn) rfl))
  | implication _ ho _ ih ih' =>
    exact phrase_of_body
      (bind_done ih (bind_done (eatAny_eq_some.2 ⟨rfl, ho⟩) (bind_done ih' rfl)))
  | assignmentEnd _ hn ih =>
    have hleft := body_of_phrase (p := .implication) ih
    exact phrase_of_body
      (bind_done hleft (bind_done ((eat_eq_none (by decide)).2 ⟨rfl, hn⟩) rfl))
  | assignment _ ho _ ih ih' =>
    have hleft := body_of_phrase (p := .implication) ih
    exact phrase_of_body
      (bind_done hleft (bind_done (eat_eq_some.2 ⟨rfl, ho⟩) (bind_done ih' rfl)))
  | conditional hk _ _ hn ih ih' =>
    exact phrase_of_body (bind_done (expect_eq_done.2 ⟨rfl, hk⟩) (bind_done ih (bind_done ih'
      (bind_done ((eat_eq_none (by decide)).2 ⟨rfl, hn⟩) rfl))))
  | choice hk _ _ he _ ih ih' ih'' =>
    exact phrase_of_body (bind_done (expect_eq_done.2 ⟨rfl, hk⟩) (bind_done ih (bind_done ih'
      (bind_done (eat_eq_some.2 ⟨rfl, he⟩) (bind_done ih'' rfl)))))
  | furtherChoice hk _ ih => exact bind_if_pos rfl hk ih
  | lastChoice hk _ ih => exact bind_if_neg rfl hk ih
  | branch _ ha _ ih ih' =>
    exact bind_done ih (bind_done (expect_eq_done.2 ⟨rfl, ha⟩) (bind_done ih' rfl))
  | conditionalControl hk _ ih =>
    refine bind_done rfl ?_
    rw [hk]
    exact body_of_phrase (p := .conditional) ih
  | caseDistinction hk _ _ ih ih' =>
    refine bind_done rfl ?_
    rw [kindAt_cons_zero, hk]
    exact bind_done (expect_eq_done.2 ⟨rfl, hk⟩) (bind_done ih (bind_done ih' rfl))
  | loop hk _ _ ih ih' =>
    refine bind_done rfl ?_
    rw [kindAt_cons_zero]
    rcases hk with hk | hk
    all_goals
      rw [hk]
      exact bind_done (expect_eq_done.2 ⟨rfl, hk⟩) (bind_done ih (bind_done ih' rfl))
  | doBlock hk _ hn ih =>
    refine bind_done rfl ?_
    rw [kindAt_cons_zero, hk]
    exact bind_done (expect_eq_done.2 ⟨rfl, hk⟩)
      (bind_done ih (bind_done (repetition?_eq_none hn) rfl))
  | doWhile hk _ hw hl _ ih ih' =>
    refine bind_done rfl ?_
    rw [kindAt_cons_zero, hk]
    exact bind_done (expect_eq_done.2 ⟨rfl, hk⟩)
      (bind_done ih (bind_done (repetition?_of_condition hw hl ih') rfl))
  | captures hk _ _ ih ih' => exact bind_if_pos rfl hk (bind_done ih (bind_done ih' rfl))
  | noCaptures hk _ ih => exact bind_if_neg rfl hk ih
  | functionValue hk _ _ ih ih' =>
    refine bind_done rfl ?_
    rw [kindAt_cons_zero, hk]
    exact bind_done (expect_eq_done.2 ⟨rfl, hk⟩) (bind_done ih (bind_done ih' rfl))
  | blockScope hk _ ih => exact bind_if_pos rfl hk ih
  | expressionScope hk _ ih => exact bind_if_neg rfl hk ih
  | localBinding hk _ _ ih ih' =>
    refine bind_done rfl ?_
    rw [kindAt_cons_zero, hk]
    exact bind_done (expect_eq_done.2 ⟨rfl, hk⟩) (bind_done ih (bind_done ih' rfl))
  | controlExpression ho _ ih => exact phrase_of_body (bind_if_pos rfl ho ih)
  | assignmentExpression ho _ ih =>
    have hbody := body_of_phrase (p := .assignment) ih
    exact phrase_of_body (bind_if_neg rfl (Bool.eq_false_iff.1 ho) hbody)
  | typedOnly _ hs ih => exact bind_done ih (bind_done (eat_eq_some.2 ⟨rfl, hs⟩) rfl)
  | @definedBlock _ _ _ type _ mid _ _ hb ih ih' =>
    have hk : kindAt mid 0 = .leftBrace := by cases hb; assumption
    have hnone : terminator? type.isSome mid = .done none mid :=
      terminator?_eq_none (by rw [hk]; decide)
    exact bind_done ih (bind_done hnone (bind_done (definiens_of_block hk ih') rfl))
  | @definedValue _ _ _ type e _ _ mid _ _ he _ hs ih ih' =>
    have hnone : terminator? type.isSome (e :: mid) = .done none (e :: mid) :=
      terminator?_eq_none (by rw [kindAt_cons_zero, he]; decide)
    exact bind_done ih (bind_done hnone (bind_done (definiens_of_value he ih' hs) rfl))
  | introduced hi _ _ ih ih' =>
    exact bind_done (eat_eq_some.2 ⟨rfl, hi⟩) (bind_done (bind_done ih rfl) ih')
  | unintroduced hi _ _ ih ih' =>
    exact bind_done ((eat_eq_none (by decide)).2 ⟨rfl, hi⟩) (bind_done (bind_done ih rfl) ih')
  | definitionStatement ho _ ih => exact phrase_of_body (bind_if_pos rfl ho ih)
  | controlStatement hd ho _ hr ih =>
    exact phrase_of_body
      (statement_of_control hd ho ih ((eat_eq_none (by decide)).2 ⟨rfl, hr⟩))
  | terminatedControl hd ho _ hs ih =>
    exact phrase_of_body (statement_of_control hd ho ih (eat_eq_some.2 ⟨rfl, hs⟩))
  | expressionStatement hd ho _ hs ih =>
    have hbody := body_of_phrase (p := .expression) ih
    exact phrase_of_body (statement_of_expression hd ho hbody hs)
  | noDeclarations hn =>
    exact (repeats_declaration rules).many_eq_nil.2 (unlessNext_eq_none.2 ⟨rfl, hn⟩)
  | declarations ho _ _ ih ih' =>
    exact (repeats_declaration rules).many_eq_cons.2 ⟨_, unlessNext_eq_some.2
      ⟨kindAt_ne_eof_of_opensDeclaration ho, bind_if_pos rfl ho ih⟩, ih'⟩

/-- A file is accepted when its declarations have a reading. -/
theorem parseTokens_of_reading {dialect : Dialect} {ts rest : List τ} {ds : List (Tree τ)}
    (h : Reading dialect.rules .declarations ts ds rest) :
    parseTokens dialect ts = .done (.file (Tree.sequence? ds)) rest :=
  bind_done (h.yields dialect.proper_rules) rfl

/-- A file is accepted exactly when its declarations have a reading. -/
theorem parseTokens_eq_done_iff {dialect : Dialect} {ts rest : List τ} {t : Tree τ} :
    parseTokens dialect ts = .done t rest ↔
      ∃ ds, t = .file (Tree.sequence? ds) ∧ Reading dialect.rules .declarations ts ds rest := by
  constructor
  · exact reading_of_parseTokens
  · rintro ⟨ds, rfl, h⟩
    exact parseTokens_of_reading h

end ConcreteSyntax
