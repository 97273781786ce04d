import ConcreteSyntax.Proofs.FirstTokens
import ConcreteSyntax.Proofs.TableIndependence

/-!
# Files without constructors

The standard dialect and the dialect of reserved words have the same operators, literals and types.
They differ in how a constructor begins and in whether there are control constructs. Both
differences leave a node in the tree: where the standard dialect has found neither a constructor nor
a control construct, it has taken a value, and a value begins with none of the reserved words of
constructors. So the dialect of reserved words reads a file without such nodes in the same way.
-/

namespace ConcreteSyntax

open TokenParser Grammar

namespace Tree

variable {τ : Type}

/-- Whether a node is neither a type constructor nor a control construct. -/
def isOrdinary (t : Tree τ) : Bool := !t.kind.isConstructor && t.kind != .control

/-- That a tree has neither type constructors nor control constructs. -/
def Ordinary (t : Tree τ) : Prop := t.Everywhere fun node => node.isOrdinary = true

/-- The children of an ordinary tree are ordinary. -/
theorem Ordinary.children {t : Tree τ} (h : t.Ordinary) :
    ∀ slot ∈ t.children, ∀ child ∈ slot, child.Ordinary := by
  rintro _ hslot child rfl
  exact Everywhere.child h hslot

/-- A built constructor is not ordinary. -/
theorem not_ordinary_build {sort : ConstructorSort} {mark : Option τ} {s r : Tree τ} :
    ¬ (sort.build mark s r).Ordinary := fun h => by
  have hroot := Everywhere.root h
  cases sort <;> contradiction

/-- A control construct is not ordinary. -/
theorem not_ordinary_control {k : τ} {head body : Option (Tree τ)} :
    ¬ (control k head body).Ordinary := fun h => by
  have hroot := Everywhere.root h
  contradiction

end Tree

variable {τ : Type} [HasKind τ]

/-- What is read as a control construct is one. -/
theorem Reading.exists_control {rules : Rules} {ts rest : List τ} {t : Tree τ}
    (h : Reading rules .control ts t rest) : ∃ k head body, t = .control k head body := by
  cases h with
  | conditionalControl _ h => cases h <;> exact ⟨_, _, _, rfl⟩
  | caseDistinction | loop | doBlock | doWhile | functionValue | localBinding =>
    exact ⟨_, _, _, rfl⟩

/-- What is read as a constructor is built as one. -/
theorem Reading.exists_build {rules : Rules} {ts rest : List τ} {t : Tree τ}
    (h : Reading rules .constructor ts t rest) :
    ∃ (sort : ConstructorSort) (mark : Option τ) (s r : Tree τ), t = sort.build mark s r := by
  cases h <;> exact ⟨_, _, _, _, rfl⟩

/-- A value begins with no reserved word of a constructor. -/
theorem Reading.opensConstructor_keyword {ts rest : List τ} {t : Tree τ}
    (h : Reading Dialect.standard.rules (.element .value) ts t rest) :
    opensConstructor Dialect.keyword.rules ts = false := by
  have hwords : ∀ k : TokenKind, Dialect.standard.rules.literals.contains k = true ∨
      k = .ident ∨ k = .leftParen ∨ k = .leftBracket →
      (k == .arrayKw || k == .templKw || k == .funcKw) = false :=
    TokenKind.forall_of_all (by decide)
  refine hwords (kindAt ts 0) ?_
  cases h with
  | value hp =>
    cases hp with
    | literal hl => exact .inl hl
    | identifier _ hk => exact .inr (.inl hk)
    | paren _ h => exact .inr (.inr (.inl h.kindAt_of_enclosed))
    | bracket _ h => exact .inr (.inr (.inr h.kindAt_of_enclosed))

/-- The dialect of reserved words reads what the standard dialect reads without constructors and
control constructs, and what has been read before is without them too. -/
theorem Reading.keyword_of_standard {c : Category τ} {ts rest : List τ} {v : c.Result}
    (h : Reading Dialect.standard.rules c ts v rest) (hv : c.Each Tree.Ordinary v) :
    c.Held Tree.Ordinary ∧ Reading Dialect.keyword.rules c ts v rest := by
  induction h with
  | name hk => exact ⟨trivial, .name hk⟩
  | last _ hr ih => exact ⟨trivial, .last (ih (hv _ (by simp))).2 hr⟩
  | more _ hs _ ih ih' =>
    obtain ⟨ht, hvs⟩ := List.forall_mem_cons.1 hv
    exact ⟨trivial, .more (ih ht).2 hs (ih' hvs).2⟩
  | operandType hl _ ih => exact ⟨trivial, .operandType hl (ih hv).2⟩
  | implicationType hl => contradiction
  | omittedType hc hn => exact ⟨trivial, .omittedType hc hn⟩
  | plainType hc ho _ hr ih => exact ⟨trivial, .plainType hc ho (ih (hv _ rfl)).2 hr⟩
  | @constrainedType _ _ _ _ _ t p hc ho _ hm _ ih ih' =>
    obtain ⟨ht, hp⟩ : t.Ordinary ∧ p.Ordinary := by
      simpa [Tree.children] using Tree.Ordinary.children (hv _ rfl)
    exact ⟨trivial, .constrainedType hc ho (ih ht).2 hm (ih' hp).2⟩
  | @colonConstraint _ _ _ _ p hc hm _ ih =>
    have hp : p.Ordinary := by simpa [Tree.children] using Tree.Ordinary.children (hv _ rfl)
    exact ⟨trivial, .colonConstraint hc hm (ih hp).2⟩
  | @bareConstraint _ _ _ p hm _ ih =>
    have hp : p.Ordinary := by simpa [Tree.children] using Tree.Ordinary.children (hv _ rfl)
    exact ⟨trivial, .bareConstraint hm (ih hp).2⟩
  | noInitial hn => exact ⟨trivial, .noInitial hn⟩
  | initial he _ ih => exact ⟨trivial, .initial he (ih (hv _ rfl)).2⟩
  | @unnamedParameter _ _ _ type value hk _ _ ih ih' =>
    obtain ⟨ht, hi⟩ : (∀ t ∈ type, t.Ordinary) ∧ ∀ t ∈ value, t.Ordinary := by
      simpa [Tree.children] using Tree.Ordinary.children hv
    exact ⟨trivial, .unnamedParameter hk (ih ht).2 (ih' hi).2⟩
  | @namedParameter _ _ _ _ ns type value hk _ _ _ ih ih' ih'' =>
    obtain ⟨hn, ht, hi⟩ : (Tree.joined ns).Ordinary ∧ (∀ t ∈ type, t.Ordinary) ∧
        ∀ t ∈ value, t.Ordinary := by
      simpa [Tree.children] using Tree.Ordinary.children hv
    exact ⟨trivial, .namedParameter hk (ih (Tree.everywhere_of_joined hn)).2 (ih' ht).2
      (ih'' hi).2⟩
  | parameterItem ho _ ih => exact ⟨trivial, .parameterItem ho (ih hv).2⟩
  | expressionItem ho _ ih => exact ⟨trivial, .expressionItem ho (ih hv).2⟩
  | @items _ _ vs _ ih =>
    have hvs : ∀ t ∈ vs, t.Ordinary := by
      simpa [Tree.children] using Tree.Ordinary.children hv
    exact ⟨trivial, .items (ih hvs).2⟩
  | emptyEnclosure ha hb => exact ⟨trivial, .emptyEnclosure ha hb⟩
  | @enclosure _ _ _ _ _ _ vs ha hn _ hb ih =>
    have hterm : (Tree.joined vs).Ordinary := by
      simpa [Tree.children] using Tree.Ordinary.children hv
    exact ⟨trivial, .enclosure ha hn (ih (Tree.everywhere_of_joined hterm)).2 hb⟩
  | noStatements hn => exact ⟨trivial, .noStatements hn⟩
  | statements hb he _ _ ih ih' =>
    obtain ⟨hs, hss⟩ := List.forall_mem_cons.1 hv
    exact ⟨trivial, .statements hb he (ih hs).2 (ih' hss).2⟩
  | @block _ _ _ _ ss ha _ hb ih =>
    have hterm : ∀ t ∈ Tree.sequence? ss, t.Ordinary := by
      simpa [Tree.children] using Tree.Ordinary.children hv
    exact ⟨trivial, .block ha (ih (Tree.everywhere_of_sequence? hterm)).2 hb⟩
  | wordConstructor | unmarkedConstructor | markedConstructor =>
    exact absurd hv Tree.not_ordinary_build
  | literal hl => exact ⟨trivial, .literal hl⟩
  | identifier hl hk => exact ⟨trivial, .identifier hl hk⟩
  | paren hl _ ih => exact ⟨trivial, .paren hl (ih hv).2⟩
  | bracket hl _ ih => exact ⟨trivial, .bracket hl (ih hv).2⟩
  | suffixesEnd hn => exact ⟨hv, .suffixesEnd hn⟩
  | @call v a _ _ _ _ _ _ ih ih' =>
    obtain ⟨happlied, hs⟩ := ih' hv
    obtain ⟨hvalue, ha⟩ : v.Ordinary ∧ a.Ordinary := by
      simpa [Tree.children] using Tree.Ordinary.children happlied
    exact ⟨hvalue, .call (ih ha).2 hs⟩
  | @index v a _ _ _ _ _ _ ih ih' =>
    obtain ⟨happlied, hs⟩ := ih' hv
    obtain ⟨hvalue, ha⟩ : v.Ordinary ∧ a.Ordinary := by
      simpa [Tree.children] using Tree.Ordinary.children happlied
    exact ⟨hvalue, .index (ih ha).2 hs⟩
  | member hd hn _ ih =>
    obtain ⟨happlied, hs⟩ := ih hv
    exact ⟨Tree.Everywhere.child happlied (List.mem_cons_self ..), .member hd hn hs⟩
  | caret hc hp _ ih =>
    obtain ⟨happlied, hs⟩ := ih hv
    exact ⟨Tree.Everywhere.child happlied (List.mem_cons_self ..), .caret hc hp hs⟩
  | value _ _ ih ih' =>
    obtain ⟨hvalue, hs⟩ := ih' hv
    exact ⟨trivial, .value (ih hvalue).2 hs⟩
  | prefixOperand ho _ ih =>
    exact ⟨trivial, .prefixOperand ho (ih (Tree.Everywhere.child hv (List.mem_cons_self ..))).2⟩
  | constructorOperand _ h =>
    obtain ⟨sort, mark, s, r, rfl⟩ := h.exists_build
    exact absurd hv Tree.not_ordinary_build
  | valueOperand ho _ h ih =>
    exact ⟨trivial, .valueOperand ho h.opensConstructor_keyword (ih hv).2⟩
  | layerOperand _ ih => exact ⟨trivial, .layerOperand (ih hv).2⟩
  | layer _ _ ih ih' =>
    obtain ⟨hl, ho⟩ := ih' hv
    exact ⟨trivial, .layer (ih hl).2 ho⟩
  | operationsEnd hn => exact ⟨hv, .operationsEnd hn⟩
  | @operation _ l r _ _ _ _ _ ho _ _ ih ih' =>
    obtain ⟨hoperation, hs⟩ := ih' hv
    obtain ⟨hl, hr⟩ : l.Ordinary ∧ r.Ordinary := by
      simpa [Tree.children] using Tree.Ordinary.children hoperation
    exact ⟨hl, .operation ho (ih hr).2 hs⟩
  | implicationEnd _ hn ih => exact ⟨trivial, .implicationEnd (ih hv).2 hn⟩
  | @implication _ _ _ l r _ _ ho _ ih ih' =>
    obtain ⟨hl, hr⟩ : l.Ordinary ∧ r.Ordinary := by
      simpa [Tree.children] using Tree.Ordinary.children hv
    exact ⟨trivial, .implication (ih hl).2 ho (ih' hr).2⟩
  | assignmentEnd _ hn ih => exact ⟨trivial, .assignmentEnd (ih hv).2 hn⟩
  | @assignment _ _ _ l r _ _ ho _ ih ih' =>
    obtain ⟨hl, hr⟩ : l.Ordinary ∧ r.Ordinary := by
      simpa [Tree.children] using Tree.Ordinary.children hv
    exact ⟨trivial, .assignment (ih hl).2 ho (ih' hr).2⟩
  | conditional | choice | branch | caseDistinction | loop | doBlock | doWhile | functionValue
  | localBinding => exact absurd hv Tree.not_ordinary_control
  | furtherChoice hk _ ih => exact ⟨trivial, .furtherChoice hk (ih hv).2⟩
  | lastChoice hk _ ih => exact ⟨trivial, .lastChoice hk (ih hv).2⟩
  | conditionalControl hk _ ih => exact ⟨trivial, .conditionalControl hk (ih hv).2⟩
  | @captures _ _ _ c p hk _ _ ih ih' =>
    obtain ⟨hc, hp⟩ : c.Ordinary ∧ p.Ordinary := by
      simpa [Tree.children] using Tree.Ordinary.children hv
    exact ⟨trivial, .captures hk (ih hc).2 (ih' hp).2⟩
  | noCaptures hk _ ih => exact ⟨trivial, .noCaptures hk (ih hv).2⟩
  | blockScope hk _ ih => exact ⟨trivial, .blockScope hk (ih hv).2⟩
  | expressionScope hk _ ih => exact ⟨trivial, .expressionScope hk (ih hv).2⟩
  | controlExpression _ h | controlStatement _ _ h | terminatedControl _ _ h =>
    obtain ⟨k, head, body, rfl⟩ := h.exists_control
    exact absurd hv Tree.not_ordinary_control
  | assignmentExpression _ _ ih => exact ⟨trivial, .assignmentExpression rfl (ih hv).2⟩
  | @typedOnly _ d type _ _ _ _ hs ih =>
    obtain ⟨hd, ht⟩ : d.Ordinary ∧ type.Ordinary := by
      simpa [Tree.children] using Tree.Ordinary.children hv
    exact ⟨hd, .typedOnly (ih fun t h => Option.some.inj h ▸ ht).2 hs⟩
  | @definedBlock _ d b type _ _ _ _ _ ih ih' =>
    obtain ⟨hd, ht, hb⟩ : d.Ordinary ∧ (∀ t ∈ type, t.Ordinary) ∧ b.Ordinary := by
      simpa [Tree.children] using Tree.Ordinary.children hv
    exact ⟨hd, .definedBlock (ih ht).2 (ih' hb).2⟩
  | @definedValue _ d v type _ _ _ _ _ _ he _ hs ih ih' =>
    obtain ⟨hd, ht, hvalue⟩ : d.Ordinary ∧ (∀ t ∈ type, t.Ordinary) ∧ v.Ordinary := by
      simpa [Tree.children] using Tree.Ordinary.children hv
    exact ⟨hd, .definedValue (ih ht).2 he (ih' hvalue).2 hs⟩
  | introduced hi _ _ ih ih' =>
    obtain ⟨hd, h⟩ := ih' hv
    exact ⟨trivial, .introduced hi (ih (Tree.everywhere_of_joined hd)).2 h⟩
  | unintroduced hi _ _ ih ih' =>
    obtain ⟨hd, h⟩ := ih' hv
    exact ⟨trivial, .unintroduced hi (ih (Tree.everywhere_of_joined hd)).2 h⟩
  | definitionStatement ho _ ih => exact ⟨trivial, .definitionStatement ho (ih hv).2⟩
  | expressionStatement hd _ _ hs ih => exact ⟨trivial, .expressionStatement hd rfl (ih hv).2 hs⟩
  | noDeclarations hn => exact ⟨trivial, .noDeclarations hn⟩
  | declarations ho _ _ ih ih' =>
    obtain ⟨hd, hds⟩ := List.forall_mem_cons.1 hv
    exact ⟨trivial, .declarations ho (ih hd).2 (ih' hds).2⟩

/-! ## Texts of both dialects -/

/-- A text that the standard dialect accepts with an ordinary tree has the same tree in the dialect
of reserved words. -/
theorem parseText_keyword {symbols : SymbolTable} {text : String} {t : Tree Token}
    (h : (parseText symbols .standard text).1 = .ok t) (ht : t.Ordinary) :
    (parseText symbols .keyword text).1 = .ok t := by
  obtain ⟨ds, rfl, hr⟩ := exists_reading_of_parseText h
  have hbody : ∀ s ∈ Tree.sequence? ds, s.Ordinary := by
    simpa [Tree.children] using ht.children
  have hkeyword := (hr.keyword_of_standard (Tree.everywhere_of_sequence? hbody)).2
  rw [parseText_fst, parseTokens_of_reading hkeyword]

/-- The standard dialect extends the dialect of reserved words conservatively on files without
constructors and control constructs. A text that the standard dialect accepts with a tree without
them has the same tree in the dialect of reserved words: the very tree when it is read with the same
table, one that is the same for every table that the first has grown to since, and one of the same
lexemes for any table. -/
theorem standard_extends_keyword {symbols : SymbolTable} {text : String} {t : Tree Token}
    (h : (parseText symbols .standard text).1 = .ok t)
    (ht : t.Everywhere fun node => node.isOrdinary = true) :
    (parseText symbols .keyword text).1 = .ok t ∧
    (∀ later, (parseText symbols .standard text).2.GrowsTo later →
      ∃ t', (parseText later .keyword text).1 = .ok t' ∧ (t' == t) = true) ∧
    ∀ symbols', ∃ t', (parseText symbols' .keyword text).1 = .ok t' ∧ t'.lexemes = t.lexemes := by
  have hkeyword := parseText_keyword h ht
  refine ⟨hkeyword, fun later hlater => ?_, fun symbols' => ?_⟩
  · have hagain := parseText_of_growsTo hlater .keyword
    exact ⟨t, by rw [hagain, hkeyword], beq_self_eq_true t⟩
  · have hok : (parseText symbols' .keyword text).1.isOk = true := by
      rw [isOk_parseText, ← isOk_parseText symbols, hkeyword]
      rfl
    obtain ⟨t', ht'⟩ := exists_tree_of_isOk _ _ _ hok
    exact ⟨t', ht', lexemes_eq ht' hkeyword⟩

/-- Values with groups behind them, values in front of dots, constraints, nested lists and blocks
are read alike in both dialects. -/
theorem standard_extends_keyword_groups :
    let text := "def f(x)[1]: int is p = (a: int).b(c; ^d); g: int { h: bool = not h; }"
    ∃ t, (parseText (.empty 0) .standard text).1 = .ok t ∧
      (t.Everywhere fun node => node.isOrdinary = true) ∧
      (parseText (.empty 0) .keyword text).1 = .ok t := by
  intro text
  obtain ⟨t, ht, hall⟩ := exists_tree_of_any (p := Tree.allNodes Tree.isOrdinary)
    (show (parseText (.empty 0) .standard text).1.toOption.any _ = true by decide +kernel)
  have hordinary := Tree.allNodes_iff.1 hall
  exact ⟨t, ht, hordinary, (standard_extends_keyword ht hordinary).1⟩

/-- The converse fails: a call of a group with a declaration in it is a constructor in the standard
dialect. -/
example : (parseText (.empty 0) .keyword "x: int = (a: int)(b);").1.toOption.map
      (Tree.allNodes Tree.isOrdinary) = some true ∧
    (parseText (.empty 0) .standard "x: int = (a: int)(b);").1.toOption.map
      (Tree.allNodes Tree.isOrdinary) = some false := by decide +kernel

end ConcreteSyntax
